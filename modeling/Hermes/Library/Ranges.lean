import Mathlib.Data.List.Basic

/-! Ranges with both ends in, one right after the other.
What has its key in the interval is in one of them, and taking range after range keeps an
ascending order. -/
namespace Hermes.Library.Ranges
variable {ρ : Type} {lo hi : Nat} {ranges : List (Nat × Nat)}

/-- Consecutive ranges without a gap, none empty, from `lo` up to `hi`. -/
def Tiles : Nat → Nat → List (Nat × Nat) → Prop
  | lo, hi, [] => lo = hi+1
  | lo, hi, range::ranges => range.1 = lo ∧ range.1 ≤ range.2 ∧ Tiles (range.2+1) hi ranges

def within (key : Nat) (range : Nat × Nat) : Bool := decide (range.1 ≤ key ∧ key ≤ range.2)

theorem Tiles.nil (hi : Nat) : Tiles (hi+1) hi [] := rfl

theorem Tiles.cons {last : Nat} (filled : lo ≤ last) (rest : Tiles (last+1) hi ranges) :
    Tiles lo hi ((lo,last)::ranges) := ⟨rfl,filled,rest⟩

theorem Tiles.le (tiles : Tiles lo hi ranges) : lo ≤ hi+1 := by
  induction ranges generalizing lo with
  | nil => exact Nat.le_of_eq tiles
  | cons range ranges ih =>
    obtain ⟨start,filled,rest⟩ := tiles
    have later := ih rest
    omega

theorem Tiles.forward (tiles : Tiles lo hi ranges) {range : Nat × Nat} (member : range ∈ ranges) :
    range.1 ≤ range.2 := by
  induction ranges generalizing lo with
  | nil => cases member
  | cons other ranges ih =>
    obtain ⟨_,filled,rest⟩ := tiles
    rcases List.mem_cons.mp member with rfl | later
    · exact filled
    · exact ih rest later

theorem Tiles.within_once (tiles : Tiles lo hi ranges) (key : Nat) :
    (ranges.filter (within key)).length = if lo ≤ key ∧ key ≤ hi then 1 else 0 := by
  induction ranges generalizing lo with
  | nil =>
    have empty : ¬(lo ≤ key ∧ key ≤ hi) := by
      change lo = hi+1 at tiles
      omega
    simp [empty]
  | cons range ranges ih =>
    obtain ⟨rfl,filled,rest⟩ := tiles
    have later := ih rest
    have bound := rest.le
    rw [List.filter_cons]
    by_cases here : range.1 ≤ key ∧ key ≤ range.2
    · have inside : within key range = true := decide_eq_true here
      rw [if_neg (by omega)] at later
      rw [if_pos inside,List.length_cons,later,if_pos (by omega)]
    · have outside : within key range = false := decide_eq_false here
      rw [outside,if_neg Bool.false_ne_true,later]
      congr 1
      rw [eq_iff_iff]
      omega

theorem filter_append {key : ρ → Nat} {records : List ρ}
    (ascending : records.Pairwise fun earlier later => key earlier < key later) {first last : Nat}
    (start : lo ≤ first+1) (stop : first ≤ last) :
    records.filter (fun r => within (key r) (lo,first)) ++ records.filter (fun r => within (key r) (first+1,last)) =
      records.filter (fun r => within (key r) (lo,last)) := by
  induction records with
  | nil => rfl
  | cons record records ih =>
    obtain ⟨above,ascending⟩ := List.pairwise_cons.mp ascending
    by_cases early : key record ≤ first
    · have notLater : within (key record) (first+1,last) = false := decide_eq_false (by omega)
      have same : within (key record) (lo,first) = within (key record) (lo,last) := by
        unfold within
        rw [decide_eq_decide]
        omega
      rw [List.filter_cons,List.filter_cons (p := fun r => within (key r) (first+1,last)),notLater,same,
        List.filter_cons (p := fun r => within (key r) (lo,last)),← ih ascending]
      cases within (key record) (lo,last) <;> simp
    · have none_ : (record::records).filter (fun r => within (key r) (lo,first)) = [] := by
        rw [List.filter_eq_nil_iff]
        intro later member
        have beyond : ¬(lo ≤ key later ∧ key later ≤ first) := by
          rcases List.mem_cons.mp member with rfl | member
          · omega
          · have bound := above later member
            omega
        simpa [within] using beyond
      rw [none_,List.nil_append]
      apply List.filter_congr
      intro later member
      unfold within
      rw [decide_eq_decide]
      rcases List.mem_cons.mp member with rfl | member
      · omega
      · have bound := above later member
        omega

theorem Tiles.flatMap_filter (tiles : Tiles lo hi ranges) {key : ρ → Nat} {records : List ρ}
    (ascending : records.Pairwise fun earlier later => key earlier < key later) :
    ranges.flatMap (fun range => records.filter fun r => within (key r) range) =
      records.filter fun r => within (key r) (lo,hi) := by
  induction ranges generalizing lo with
  | nil =>
    symm
    rw [List.flatMap_nil,List.filter_eq_nil_iff]
    intro r _
    change lo = hi+1 at tiles
    simp only [within,decide_eq_true_eq]
    omega
  | cons range ranges ih =>
    obtain ⟨rfl,filled,rest⟩ := tiles
    have bound := rest.le
    rw [List.flatMap_cons,ih rest]
    exact filter_append ascending (by omega) (by omega)

end Hermes.Library.Ranges
