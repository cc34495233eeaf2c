import Hermes.Library.ListJoin
import Mathlib.Data.List.Dedup
import Mathlib.Data.List.Flatten
import Mathlib.Data.List.Pairwise

/-! Lists taken apart by a number below `n`, and what can be computed part by part. -/
namespace Hermes.Library.ListJoin
variable {α β π κ : Type}

theorem parts_perm (part : α → Nat) (n : Nat) (elements : List α) :
    ((List.range n).flatMap fun p => elements.filter fun element => part element == p).Perm
      (elements.filter fun element => decide (part element < n)) := by
  induction n with
  | zero => simp
  | succ n ih =>
    rw [List.range_succ,List.flatMap_append,List.flatMap_singleton]
    have below : (elements.filter fun element => decide (part element < n+1)).filter
        (fun element => decide (part element < n)) =
        elements.filter fun element => decide (part element < n) := by
      rw [List.filter_filter]
      apply List.filter_congr
      intro element _
      rw [Bool.eq_iff_iff]
      simp only [Bool.and_eq_true,decide_eq_true_eq]
      omega
    have last : (elements.filter fun element => decide (part element < n+1)).filter
        (fun element => !decide (part element < n)) =
        elements.filter fun element => part element == n := by
      rw [List.filter_filter]
      apply List.filter_congr
      intro element _
      rw [Bool.eq_iff_iff]
      simp only [Bool.and_eq_true,decide_eq_true_eq,Bool.not_eq_true',decide_eq_false_iff_not,beq_iff_eq]
      omega
    have whole := List.filter_append_perm (fun element => decide (part element < n))
      (elements.filter fun element => decide (part element < n+1))
    rw [below,last] at whole
    exact (ih.append_right _).trans whole

theorem parts_whole {part : α → Nat} {n : Nat} {elements : List α} (bounded : ∀ element ∈ elements, part element < n) :
    ((List.range n).flatMap fun p => elements.filter fun element => part element == p).Perm elements := by
  have all := List.filter_eq_self.mpr fun element inside => decide_eq_true (bounded element inside)
  have parts := parts_perm part n elements
  rw [all] at parts
  exact parts

theorem pairs_parts {matching : β → π → Bool} {left : β → Nat} {right : π → Nat} {n : Nat} {build : List β}
    {probe : List π}
    (together : ∀ b ∈ build, ∀ p ∈ probe, matching b p = true → left b = right p) (bounded : ∀ p ∈ probe, right p < n) :
    ((List.range n).flatMap fun k =>
      pairs matching (build.filter fun b => left b == k) (probe.filter fun p => right p == k)).Perm
        (pairs matching build probe) := by
  have each : ∀ k, pairs matching (build.filter fun b => left b == k) (probe.filter fun p => right p == k) =
      pairs matching build (probe.filter fun p => right p == k) := by
    intro k
    apply List.flatMap_congr
    intro p inside
    obtain ⟨there,here⟩ := List.mem_filter.mp inside
    rw [List.filter_filter]
    apply congrArg
    apply List.filter_congr
    intro b member
    by_cases matched : matching b p = true
    · rw [matched,together b member p there matched,here]
      rfl
    · rw [Bool.not_eq_true] at matched
      rw [matched,Bool.false_and]
  rw [List.flatMap_congr fun k _ => each k,← pairs_flatMap_probe]
  exact pairs_perm matching (.refl build) (parts_whole bounded)

theorem dedup_parts [DecidableEq κ] {key : α → κ} {part : α → Nat} {n : Nat} {elements : List α}
    (together : ∀ a ∈ elements, ∀ b ∈ elements, key a = key b → part a = part b)
    (bounded : ∀ element ∈ elements, part element < n) :
    ((List.range n).flatMap fun k => ((elements.filter fun element => part element == k).map key).dedup).Perm
      (elements.map key).dedup := by
  have member : ∀ k value, value ∈ ((elements.filter fun element => part element == k).map key).dedup ↔
      ∃ element ∈ elements, part element = k ∧ key element = value := by
    intro k value
    simp [and_assoc]
  rw [List.perm_ext_iff_of_nodup _ (List.nodup_dedup _)]
  · intro value
    rw [List.mem_flatMap,List.mem_dedup,List.mem_map]
    simp only [member,List.mem_range]
    constructor
    · intro ⟨_,_,element,inside,_,same⟩
      exact ⟨element,inside,same⟩
    · intro ⟨element,inside,same⟩
      exact ⟨part element,bounded element inside,element,inside,rfl,same⟩
  · rw [List.nodup_flatMap]
    refine ⟨fun k _ => List.nodup_dedup _,?_⟩
    apply List.nodup_range.imp
    intro k j differ value here there
    obtain ⟨a,inA,rfl,same⟩ := (member k value).mp here
    obtain ⟨b,inB,rfl,equal⟩ := (member j value).mp there
    exact differ (together a inA b inB (same.trans equal.symm))

theorem pairs_map {β' π' : Type} (matching : β → π → Bool) (f : β' → β) (g : π' → π) (build : List β')
    (probe : List π') :
    pairs matching (build.map f) (probe.map g) =
      (pairs (fun b p => matching (f b) (g p)) build probe).map fun pair => (f pair.1,g pair.2) := by
  rw [pairs,List.flatMap_map,pairs,List.map_flatMap]
  apply List.flatMap_congr
  intro p _
  rw [List.filter_map,List.map_map,List.map_map]
  rfl

section
variable (matching : β → π → Bool) (joined : β → π → α) (padLeft : β → α) (padRight : π → α) (isLeft isRight : Bool)

/-- The matching pairs, and for an outer side what has no match. -/
def outerJoin (build : List β) (probe : List π) : List α :=
  (pairs matching build probe).map (fun pair => joined pair.1 pair.2) ++
  (if isLeft then (build.filter fun b => !probe.any fun p => matching b p).map padLeft else []) ++
  (if isRight then (probe.filter fun p => !build.any fun b => matching b p).map padRight else [])

theorem outerJoin_perm {build others : List β} {probe more : List π} (builds : build.Perm others)
    (probes : probe.Perm more) :
    (outerJoin matching joined padLeft padRight isLeft isRight build probe).Perm
      (outerJoin matching joined padLeft padRight isLeft isRight others more) := by
  have lefts : (build.filter fun b => !probe.any fun p => matching b p).Perm
      (others.filter fun b => !more.any fun p => matching b p) := by
    simp only [probes.any_eq]
    exact builds.filter _
  have rights : (probe.filter fun p => !build.any fun b => matching b p).Perm
      (more.filter fun p => !others.any fun b => matching b p) := by
    simp only [builds.any_eq]
    exact probes.filter _
  refine (((pairs_perm matching builds probes).map _).append ?_).append ?_
  · split
    next => exact lefts.map padLeft
    next => exact .refl []
  · split
    next => exact rights.map padRight
    next => exact .refl []

theorem unmatched_parts {left : β → Nat} {right : π → Nat} {n : Nat} {build : List β} {probe : List π}
    (together : ∀ b ∈ build, ∀ p ∈ probe, matching b p = true → left b = right p) (bounded : ∀ b ∈ build, left b < n) :
    ((List.range n).flatMap fun k => (build.filter fun b => left b == k).filter fun b =>
      !(probe.filter fun p => right p == k).any fun p => matching b p).Perm
        (build.filter fun b => !probe.any fun p => matching b p) := by
  have each : ∀ k, ((build.filter fun b => left b == k).filter fun b =>
      !(probe.filter fun p => right p == k).any fun p => matching b p) =
        (build.filter fun b => !probe.any fun p => matching b p).filter fun b => left b == k := by
    intro k
    rw [List.filter_filter,List.filter_filter]
    apply List.filter_congr
    intro b member
    by_cases here : left b = k
    · have same : ((probe.filter fun p => right p == k).any fun p => matching b p) =
          probe.any fun p => matching b p := by
        rw [List.any_filter,Bool.eq_iff_iff,List.any_eq_true,List.any_eq_true]
        refine exists_congr fun p => and_congr_right fun inside => ?_
        rw [Bool.and_eq_true,beq_iff_eq,and_iff_right_of_imp]
        exact fun matched => (together b member p inside matched).symm.trans here
      rw [same,Bool.and_comm]
    · rw [beq_false_of_ne here,Bool.and_false,Bool.false_and]
  rw [List.flatMap_congr fun k _ => each k]
  exact parts_whole fun b inside => bounded b (List.mem_of_mem_filter inside)

theorem outerJoin_parts {left : β → Nat} {right : π → Nat} {n : Nat} {build : List β} {probe : List π}
    (together : ∀ b ∈ build, ∀ p ∈ probe, matching b p = true → left b = right p) (lefts : ∀ b ∈ build, left b < n)
    (rights : ∀ p ∈ probe, right p < n) :
    ((List.range n).flatMap fun k => outerJoin matching joined padLeft padRight isLeft isRight
      (build.filter fun b => left b == k) (probe.filter fun p => right p == k)).Perm
        (outerJoin matching joined padLeft padRight isLeft isRight build probe) := by
  have inner := (pairs_parts together rights).map fun pair => joined pair.1 pair.2
  have ofLeft := (unmatched_parts matching together lefts).map padLeft
  have ofRight := (unmatched_parts (fun p b => matching b p) (fun p inside b member matched =>
    (together b member p inside matched).symm) rights).map padRight
  rw [List.map_flatMap] at inner ofLeft ofRight
  unfold outerJoin
  refine (List.flatMap_append_perm _ _ _).symm.trans
    (.append ((List.flatMap_append_perm _ _ _).symm.trans (inner.append ?_)) ?_)
  · split
    next => exact ofLeft
    next => simp
  · split
    next => exact ofRight
    next => simp

end
end Hermes.Library.ListJoin
