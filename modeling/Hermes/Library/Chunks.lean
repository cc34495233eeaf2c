import Mathlib.Data.List.Basic

/-! Pushing a list out in slices.
A loop pushes slice after slice of a fixed size while its test holds, and what
is pushed together with the rest is always the list from the first slice on. -/
namespace Hermes.Library.Chunks
variable {ρ : Type}

/-- Slice number `counter`. -/
def slice (size : Nat) (rows : List ρ) (counter : Nat) : List ρ :=
  (rows.drop (counter*size)).take size

/-- The pushed slices from number `counter` on, and the number of the next one. -/
def pushWhile (more : Nat → Bool) (size : Nat) (rows : List ρ) : Nat → Nat → List (List ρ) × Nat
  | 0, counter => ([],counter)
  | fuel+1, counter =>
    if more counter then
      let rest := pushWhile more size rows fuel (counter+1)
      (slice size rows counter :: rest.1,rest.2)
    else ([],counter)

/-- The pushed slices and, unless it is empty, the rest as one more slice. -/
def pushAll (more : Nat → Bool) (size : Nat) (rows : List ρ) (fuel counter : Nat) : List (List ρ) :=
  let pushed := pushWhile more size rows fuel counter
  let rest := rows.drop (pushed.2*size)
  pushed.1 ++ (if rest.isEmpty then [] else [rest])

theorem slice_append_drop (size : Nat) (rows : List ρ) (counter : Nat) :
    slice size rows counter ++ rows.drop ((counter+1)*size) = rows.drop (counter*size) := by
  have next : rows.drop ((counter+1)*size) = (rows.drop (counter*size)).drop size := by
    rw [List.drop_drop,Nat.succ_mul]
  rw [slice,next,List.take_append_drop]

theorem pushWhile_flatten (more : Nat → Bool) (size : Nat) (rows : List ρ) (fuel counter : Nat) :
    (pushWhile more size rows fuel counter).1.flatten ++
      rows.drop ((pushWhile more size rows fuel counter).2*size) = rows.drop (counter*size) := by
  induction fuel generalizing counter with
  | zero => simp [pushWhile]
  | succ fuel ih =>
    unfold pushWhile
    split
    next full =>
      rw [List.flatten_cons,List.append_assoc,ih (counter+1),slice_append_drop]
    next short => simp

@[simp] theorem pushAll_flatten (more : Nat → Bool) (size : Nat) (rows : List ρ) (fuel counter : Nat) :
    (pushAll more size rows fuel counter).flatten = rows.drop (counter*size) := by
  have pushed := pushWhile_flatten more size rows fuel counter
  unfold pushAll
  rw [List.flatten_append]
  split
  next empty => simpa [List.isEmpty_iff.mp empty] using pushed
  next nonempty => simpa using pushed

theorem pushWhile_done (more : Nat → Bool) (size : Nat) (rows : List ρ) {last : Nat}
    (stops : ∀ counter, last ≤ counter → more counter = false) (fuel counter : Nat)
    (enough : last ≤ counter+fuel) :
    more (pushWhile more size rows fuel counter).2 = false := by
  induction fuel generalizing counter with
  | zero => exact stops counter enough
  | succ fuel ih =>
    unfold pushWhile
    split
    next full => exact ih (counter+1) (by omega)
    next short => simpa using short

/-- Slices of one size: all are full but the last, and that has a row. -/
def Slices (size : Nat) : List (List ρ) → Prop
  | [] => True
  | chunk::chunks => 0 < chunk.length ∧ chunk.length ≤ size ∧ (chunks ≠ [] → chunk.length = size) ∧
    Slices size chunks

section Slices
variable {more : Nat → Bool} {size : Nat} {rows : List ρ}

theorem slices_append {first second : List (List ρ)} (some_ : 0 < size)
    (full : ∀ chunk ∈ first, chunk.length = size) (rest : Slices size second) :
    Slices size (first ++ second) := by
  induction first with
  | nil => exact rest
  | cons chunk first ih =>
    have here : chunk.length = size := full chunk List.mem_cons_self
    refine ⟨by omega,by omega,fun _ => here,?_⟩
    apply ih
    intro c member
    exact full c (List.mem_cons_of_mem _ member)

theorem length_slice {counter : Nat} (fits : (counter+1)*size ≤ rows.length) :
    (slice size rows counter).length = size := by
  rw [Nat.succ_mul] at fits
  simp only [slice,List.length_take,List.length_drop]
  omega

theorem pushWhile_full (fits : ∀ counter, more counter = true → (counter+1)*size ≤ rows.length)
    (fuel counter : Nat) :
    ∀ chunk ∈ (pushWhile more size rows fuel counter).1, chunk.length = size := by
  induction fuel generalizing counter with
  | zero => simp [pushWhile]
  | succ fuel ih =>
    unfold pushWhile
    split
    next full =>
      intro chunk member
      rcases List.mem_cons.mp member with rfl | later
      · exact length_slice (fits counter full)
      · exact ih (counter+1) chunk later
    next short => simp

/-- A loop that stops only where at most one slice is left leaves full slices and that one. -/
theorem pushAll_slices (some_ : 0 < size)
    (fits : ∀ counter, more counter = true → (counter+1)*size ≤ rows.length)
    (leaves : ∀ counter, more counter = false → rows.length ≤ (counter+1)*size)
    {fuel counter : Nat} (enough : rows.length ≤ counter+fuel) :
    Slices size (pushAll more size rows fuel counter) := by
  have stops : ∀ counter, rows.length ≤ counter → more counter = false := by
    intro counter beyond
    apply Bool.eq_false_iff.mpr
    intro full
    have room : counter+1 ≤ (counter+1)*size := Nat.le_mul_of_pos_right _ some_
    have bound := fits counter full
    omega
  have last := leaves _ (pushWhile_done more size rows stops fuel counter enough)
  apply slices_append some_ (pushWhile_full fits fuel counter)
  split
  next empty => trivial
  next rest =>
    have short : (rows.drop ((pushWhile more size rows fuel counter).2*size)).length ≤ size := by
      rw [Nat.succ_mul] at last
      rw [List.length_drop]
      omega
    simp only [List.isEmpty_iff] at rest
    exact ⟨List.length_pos_of_ne_nil rest,short,fun more_ => absurd rfl more_,trivial⟩

end Slices

end Hermes.Library.Chunks
