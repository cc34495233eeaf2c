import Mathlib.Data.List.Perm.Subperm

/-! The first elements in an order with ties, and orders by several keys one after the other.
What does not belong to the first ones can be left out before more elements come. -/
namespace Hermes.Library.TopK
variable {α : Type}

/-- An order in which different elements may be as good as each other. -/
structure Preference (α : Type) where
  le : α → α → Bool
  total : ∀ a b, le a b = true ∨ le b a = true
  trans : ∀ a b c, le a b = true → le b c = true → le a c = true

namespace Preference

theorem refl (order : Preference α) (a : α) : order.le a a = true := (order.total a a).elim id id

/-- All elements are as good as each other. -/
def trivial : Preference α := ⟨fun _ _ => true,fun _ _ => .inl rfl,fun _ _ _ _ _ => rfl⟩

def reverse (order : Preference α) : Preference α :=
  ⟨fun a b => order.le b a,fun a b => order.total b a,fun a b c first second => order.trans c b a second first⟩

def noneLastLe (order : Preference α) : Option α → Option α → Bool
  | _,none => true
  | none,some _ => false
  | some a,some b => order.le a b

/-- What is missing comes last. -/
def noneLast (order : Preference α) : Preference (Option α) where
  le := order.noneLastLe
  total a b := by
    cases a with
    | none => exact .inr (by cases b <;> rfl)
    | some a =>
      cases b with
      | none => exact .inl rfl
      | some b => exact order.total a b
  trans a b c first second := by
    cases c with
    | none => cases a <;> rfl
    | some c =>
      cases b with
      | none => cases second
      | some b =>
        cases a with
        | none => cases first
        | some a => exact order.trans a b c first second

def on {β : Type} (order : Preference α) (key : β → α) : Preference β :=
  ⟨fun a b => order.le (key a) (key b),fun a b => order.total (key a) (key b),
    fun a b c => order.trans (key a) (key b) (key c)⟩

/-- The second order decides between what the first one leaves open. -/
def andThen (first second : Preference α) : Preference α where
  le a b := first.le a b && (!first.le b a || second.le a b)
  total := by
    intro a b
    have one := first.total a b
    have two := second.total a b
    cases here : first.le a b with
    | false =>
      rw [here] at one
      rw [one.resolve_left Bool.noConfusion]
      exact .inr rfl
    | true =>
      cases there : first.le b a with
      | false => exact .inl rfl
      | true => simpa using two
  trans := by
    intro a b c
    simp only [Bool.and_eq_true,Bool.or_eq_true,Bool.not_eq_true']
    rintro ⟨ab,left⟩ ⟨bc,right⟩
    refine ⟨first.trans a b c ab bc,?_⟩
    cases back : first.le c a with
    | false => exact .inl rfl
    | true =>
      have ba := first.trans b c a bc back
      have cb := first.trans c a b back ab
      rw [ba] at left
      rw [cb] at right
      exact .inr (second.trans a b c (left.resolve_left Bool.noConfusion) (right.resolve_left Bool.noConfusion))

/-- By several keys, the first one first. -/
def lexicographic (orders : List (Preference α)) : Preference α := orders.foldr andThen trivial

end Preference

variable (order : Preference α) {k : Nat} {rows more kept out : List α}

/-- The best `k` of some elements in order, or all of them; ties are in any order. -/
def Best (k : Nat) (rows out : List α) : Prop :=
  ∃ sorted : List α, sorted.Perm rows ∧ sorted.Pairwise (fun a b => order.le a b = true) ∧ out = sorted.take k

theorem Best.length (best : Best order k rows out) : out.length = min k rows.length := by
  obtain ⟨sorted,same,_,rfl⟩ := best
  rw [List.length_take,same.length_eq]

theorem best_nil (k : Nat) : Best order k [] [] := ⟨[],.refl _,.nil,List.take_nil.symm⟩

theorem pairwise_mergeSort (rows : List α) : (rows.mergeSort order.le).Pairwise fun a b => order.le a b = true :=
  List.pairwise_mergeSort (fun a b c => order.trans a b c) (fun a b => by simpa using order.total a b) rows

theorem exists_sorted (rows : List α) : ∃ sorted : List α, sorted.Perm rows ∧
    sorted.Pairwise (fun a b => order.le a b = true) :=
  ⟨rows.mergeSort order.le,List.mergeSort_perm _ _,pairwise_mergeSort order rows⟩

theorem best_of_le {rest : List α} (same : (out ++ rest).Perm rows)
    (sorted : out.Pairwise fun a b => order.le a b = true)
    (better : ∀ a ∈ out, ∀ b ∈ rest, order.le a b = true) (full : out.length = k) :
    Best order k rows out := by
  obtain ⟨behind,perm,ascending⟩ := exists_sorted order rest
  refine ⟨out ++ behind,(perm.append_left out).trans same,?_,?_⟩
  · refine List.pairwise_append.mpr ⟨sorted,ascending,?_⟩
    intro a inside b later
    exact better a inside b (perm.mem_iff.mp later)
  · rw [← full,List.take_left]

/-- What is left out cannot come back: as many elements that are at least as good are there, whatever comes. -/
theorem Best.append (best : Best order k rows kept) (next : Best order k (kept ++ more) out) :
    Best order k (rows ++ more) out := by
  classical
  obtain ⟨first,firstSame,firstSorted,rfl⟩ := best
  obtain ⟨second,secondSame,secondSorted,rfl⟩ := next
  have whole : (second.take k ++ (second.drop k ++ first.drop k)).Perm (rows ++ more) := by
    rw [← List.append_assoc,List.take_append_drop]
    refine (secondSame.append_right _).trans ?_
    rw [List.append_assoc]
    refine ((@List.perm_append_comm _ more _).append_left _).trans ?_
    rw [← List.append_assoc,List.take_append_drop]
    exact firstSame.append_right more
  have ahead : ∀ a ∈ first.take k, ∀ b ∈ first.drop k, order.le a b = true := by
    rw [← List.take_append_drop k first] at firstSorted
    exact (List.pairwise_append.mp firstSorted).2.2
  have ahead' : ∀ a ∈ second.take k, ∀ b ∈ second.drop k, order.le a b = true := by
    rw [← List.take_append_drop k second] at secondSorted
    exact (List.pairwise_append.mp secondSorted).2.2
  by_cases all : first.length ≤ k
  · rw [List.drop_of_length_le all,List.append_nil] at whole
    rw [List.take_append_drop] at whole
    exact ⟨second,whole,secondSorted,rfl⟩
  · have full : (first.take k).length = k := by
      rw [List.length_take]
      omega
    have full' : (second.take k).length = k := by
      rw [List.length_take,secondSame.length_eq,List.length_append,full]
      omega
    refine best_of_le order whole (secondSorted.sublist (List.take_sublist _ _)) ?_ full'
    intro a inside b outside
    rcases List.mem_append.mp outside with later | dropped
    · exact ahead' a inside b later
    · -- an element kept before is still behind, or all of them are still among the best
      by_cases behind : ∃ c ∈ first.take k, c ∈ second.drop k
      · obtain ⟨c,was,later⟩ := behind
        exact order.trans a c b (ahead' a inside c later) (ahead c was b dropped)
      · have stays : (first.take k).Subperm (second.take k) := by
          rw [List.subperm_ext_iff]
          intro c was
          have counts := secondSame.count_eq c
          rw [← List.take_append_drop k second,List.count_append,List.count_append,
            List.count_eq_zero_of_not_mem fun later => behind ⟨c,was,later⟩] at counts
          omega
        have same := stays.perm_of_length_le (Nat.le_of_eq (full'.trans full.symm))
        exact ahead a (same.mem_iff.mpr inside) b dropped

end Hermes.Library.TopK
