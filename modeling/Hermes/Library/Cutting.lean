import Mathlib.Data.List.Basic

/-! A list that is read in calls, each with the number of elements that are asked for. -/
namespace Hermes.Library.Cutting
variable {α : Type}

-- each call gets the next elements, fewer only where the list ends
def cut : List α → List Nat → List (List α)
  | _,[] => []
  | content,size::sizes => content.take size::cut (content.drop size) sizes

variable {content : List α} {sizes : List Nat}

theorem cut_nil : (cut ([] : List α) sizes).flatten = [] := by
  induction sizes with
  | nil => rfl
  | cons size sizes ih => rw [cut,List.flatten_cons,List.take_nil,List.drop_nil,ih,List.append_nil]

theorem cut_done (positive : ∀ size ∈ sizes, 0 < size) (done : [] ∈ cut content sizes) :
    (cut content sizes).flatten = content := by
  induction sizes generalizing content with
  | nil => exact absurd done List.not_mem_nil
  | cons size sizes ih =>
    obtain ⟨here,later⟩ := List.forall_mem_cons.mp positive
    rw [cut,List.flatten_cons]
    obtain empty | done := List.mem_cons.mp done
    · have none : content = [] := (List.take_eq_nil_iff.mp empty.symm).resolve_left (Nat.pos_iff_ne_zero.mp here)
      rw [none,List.take_nil,List.drop_nil,cut_nil,List.append_nil]
    · rw [ih later done,List.take_append_drop]

theorem nil_mem_cut (positive : ∀ size ∈ sizes, 0 < size) (enough : content.length < sizes.length) :
    [] ∈ cut content sizes := by
  induction sizes generalizing content with
  | nil => exact absurd enough (Nat.not_lt_zero _)
  | cons size sizes ih =>
    obtain ⟨here,later⟩ := List.forall_mem_cons.mp positive
    rw [cut]
    cases content with
    | nil => exact List.mem_cons.mpr (.inl List.take_nil.symm)
    | cons element content =>
      apply List.mem_cons_of_mem
      apply ih later
      rw [List.length_drop]
      rw [List.length_cons,List.length_cons] at enough
      rw [List.length_cons]
      omega

theorem cut_short {call size : Nat} {output : List α} (asked : sizes[call]? = some size)
    (given : (cut content sizes)[call]? = some output)
    (short : output.length < size) : ((cut content sizes).take (call+1)).flatten = content := by
  induction sizes generalizing content call with
  | nil => cases asked
  | cons first sizes ih =>
    rw [cut] at given ⊢
    rw [List.take_succ_cons,List.flatten_cons]
    cases call with
    | zero =>
      cases asked
      cases given
      rw [List.length_take] at short
      have all : content.length ≤ size := by omega
      rw [List.take_of_length_le all]
      exact List.append_nil _
    | succ call => rw [ih asked given,List.take_append_drop]

end Hermes.Library.Cutting
