import Mathlib.Order.Lattice
import Mathlib.Data.List.Basic

/-! Halving an interval of indexes until a midpoint falls into a run of equal elements.
In an ascending column the run of an element begins behind what is below it and ends with
what is not above it. -/
namespace Hermes.Library.Bisection

/-- The first midpoint between `low` and `high` when the indexes from `p` to `r` are halved. -/
def firstMidpoint (low high : Nat) : Nat → Int → Int → Option Nat
  | 0, _, _ => none
  | fuel+1, p, r =>
    if p ≤ r then
      let mid := (p+r)/2
      if mid < low then firstMidpoint low high fuel (mid+1) r
      else if mid < high then some mid.toNat
      else firstMidpoint low high fuel p (mid-1)
    else none

section Midpoint
variable {low high : Nat}

theorem firstMidpoint_empty (empty : high ≤ low) (fuel : Nat) (p r : Int) :
    firstMidpoint low high fuel p r = none := by
  induction fuel generalizing p r with
  | zero => rfl
  | succ fuel ih =>
    unfold firstMidpoint
    split
    · simp only [ih]
      split
      · rfl
      · rw [if_neg (by omega)]
    · rfl

theorem firstMidpoint_mem {fuel : Nat} {p r : Int} {m : Nat} (lands : firstMidpoint low high fuel p r = some m) :
    low ≤ m ∧ m < high := by
  induction fuel generalizing p r with
  | zero => cases lands
  | succ fuel ih =>
    unfold firstMidpoint at lands
    simp only at lands
    split at lands
    · split at lands
      · exact ih lands
      · split at lands
        · rw [Option.some.injEq] at lands
          omega
        · exact ih lands
    · cases lands

theorem firstMidpoint_lands (filled : low < high) (fuel : Nat) (p r : Int) (start : p ≤ low) (stop : high ≤ r+1)
    (enough : r-p+1 ≤ fuel) : ∃ m, firstMidpoint low high fuel p r = some m := by
  induction fuel generalizing p r with
  | zero => omega
  | succ fuel ih =>
    unfold firstMidpoint
    rw [if_pos (by omega)]
    dsimp only
    split
    · exact ih _ _ (by omega) stop (by omega)
    · split
      · exact ⟨_,rfl⟩
      · exact ih _ _ start (by omega) (by omega)

end Midpoint

section Column
variable {κ : Type} [LinearOrder κ] {column : List κ}

def below (column : List κ) (k : κ) : Nat := (column.filter (· < k)).length

def upto (column : List κ) (k : κ) : Nat := (column.filter (· ≤ k)).length

theorem upto_le (column : List κ) (k : κ) : upto column k ≤ column.length := List.length_filter_le _ _

theorem getElem?_front {p : κ → Bool} (closed : ∀ a b, a ≤ b → p b = true → p a = true)
    (sorted : column.Pairwise (· ≤ ·)) {i : Nat} {c : κ} (read : column[i]? = some c) :
    p c = true ↔ i < (column.filter p).length := by
  induction column generalizing i with
  | nil => simp at read
  | cons head column ih =>
    obtain ⟨above,sorted⟩ := List.pairwise_cons.mp sorted
    by_cases holds : p head = true
    · rw [List.filter_cons_of_pos holds,List.length_cons]
      cases i with
      | zero => simpa [← Option.some.inj read] using holds
      | succ i => rw [ih sorted (by simpa using read)]; omega
    · have later : ∀ d ∈ head::column, ¬p d = true := by
        intro d member inside
        rcases List.mem_cons.mp member with rfl | member
        · exact holds inside
        · exact holds (closed _ _ (above d member) inside)
      rw [List.filter_eq_nil_iff.mpr later]
      simpa using later c (List.mem_of_getElem? read)

theorem lt_iff_below (sorted : column.Pairwise (· ≤ ·)) (k : κ) {i : Nat} {c : κ} (read : column[i]? = some c) :
    c < k ↔ i < below column k := by
  have front := getElem?_front (p := fun c => decide (c < k))
    (fun a b less inside => decide_eq_true (lt_of_le_of_lt less (of_decide_eq_true inside))) sorted read
  rw [decide_eq_true_eq] at front
  exact front

theorem le_iff_upto (sorted : column.Pairwise (· ≤ ·)) (k : κ) {i : Nat} {c : κ} (read : column[i]? = some c) :
    c ≤ k ↔ i < upto column k := by
  have front := getElem?_front (p := fun c => decide (c ≤ k))
    (fun a b less inside => decide_eq_true (le_trans less (of_decide_eq_true inside))) sorted read
  rw [decide_eq_true_eq] at front
  exact front

theorem upto_le_below {k : κ} (absent : k ∉ column) : upto column k ≤ below column k := by
  apply Nat.le_of_eq
  unfold upto below
  congr 1
  apply List.filter_congr
  intro c member
  rw [decide_eq_decide]
  have differs : c ≠ k := fun same => absent (same ▸ member)
  exact ⟨fun less => lt_of_le_of_ne less differs,le_of_lt⟩

theorem below_lt_upto (sorted : column.Pairwise (· ≤ ·)) {k : κ} (member : k ∈ column) :
    below column k < upto column k := by
  obtain ⟨i,read⟩ := List.mem_iff_getElem?.mp member
  have low := lt_iff_below sorted k read
  have high := le_iff_upto sorted k read
  simp only [lt_irrefl,false_iff,le_refl,true_iff] at low high
  omega

end Column

end Hermes.Library.Bisection
