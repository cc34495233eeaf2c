import Mathlib.Data.List.Nodup

/-! Lists of entries under keys, no two under the same one. -/
namespace Hermes.Library.Entries
variable {κ ν : Type} [DecidableEq κ] {entries : List (κ × ν)} {entry : κ × ν}

theorem lookup_mem (distinct : (entries.map Prod.fst).Nodup) (member : entry ∈ entries) :
    entries.lookup entry.1 = some entry.2 := by
  induction entries with
  | nil => cases member
  | cons other entries ih =>
    obtain ⟨fresh,distinct⟩ := List.nodup_cons.mp distinct
    rw [List.lookup_cons]
    rcases List.mem_cons.mp member with rfl | later
    · simp
    · have differs : entry.1 ≠ other.1 := fun same =>
        fresh (same ▸ List.mem_map.mpr ⟨entry,later,rfl⟩)
      rw [beq_false_of_ne differs]
      exact ih distinct later

theorem filter_mem (distinct : (entries.map Prod.fst).Nodup) (member : entry ∈ entries) :
    (entries.filter fun other => other.1 = entry.1) = [entry] := by
  induction entries with
  | nil => cases member
  | cons other entries ih =>
    obtain ⟨fresh,distinct⟩ := List.nodup_cons.mp distinct
    rcases List.mem_cons.mp member with rfl | later
    · rw [List.filter_cons_of_pos (by simp),List.filter_eq_nil_iff.mpr]
      intro other inside
      have differs : other.1 ≠ entry.1 := fun same => fresh (List.mem_map.mpr ⟨other,inside,same⟩)
      simpa using differs
    · have differs : other.1 ≠ entry.1 := fun same => fresh (List.mem_map.mpr ⟨entry,later,same.symm⟩)
      rw [List.filter_cons_of_neg (by simpa using differs),ih distinct later]

theorem count_filter {k : κ} (one : (entries.filter fun entry => entry.1 = k) = [entry]) :
    (entries.map Prod.fst).count k = 1 := by
  rw [List.count_eq_length_filter,List.filter_map,List.length_map]
  simp only [Function.comp_def,beq_eq_decide,one,List.length_singleton]

theorem filter_absent {k : κ} : (entries.filter fun entry => entry.1 = k) = [] ↔ k ∉ entries.map Prod.fst := by
  rw [List.filter_eq_nil_iff,List.mem_map]
  constructor
  · rintro none_ ⟨entry,inside,same⟩
    exact none_ entry inside (decide_eq_true same)
  · intro absent entry inside same
    exact absent ⟨entry,inside,of_decide_eq_true same⟩

theorem filter_flatMap_iff {ι : Type} {blocks : List ι} {block : ι → List (κ × ν)} (apart : blocks.Nodup)
    (each : ∀ place ∈ blocks, ((block place).map Prod.fst).Nodup) {k : κ} {v : ν} :
    ((blocks.flatMap block).filter fun entry => entry.1 = k) = [(k,v)] ↔
      ∃ place ∈ blocks, (k,v) ∈ block place ∧ ∀ other ∈ blocks, k ∈ (block other).map Prod.fst → other = place := by
  induction blocks with
  | nil => simp
  | cons first blocks ih =>
    obtain ⟨fresh,apart⟩ := List.nodup_cons.mp apart
    obtain ⟨here,later⟩ := List.forall_mem_cons.mp each
    rw [List.flatMap_cons,List.filter_append]
    by_cases inside : k ∈ (block first).map Prod.fst
    · obtain ⟨⟨k',w⟩,member,same⟩ := List.mem_map.mp inside
      change k' = k at same
      subst same
      rw [filter_mem here member,List.singleton_append,List.cons.injEq,filter_absent]
      constructor
      · rintro ⟨value,absent⟩
        rw [← value]
        refine ⟨first,List.mem_cons_self,member,fun other there hit => ?_⟩
        rcases List.mem_cons.mp there with rfl | there
        · rfl
        · rw [List.map_flatMap] at absent
          exact absurd (List.mem_flatMap.mpr ⟨other,there,hit⟩) absent
      · rintro ⟨place,_,found,only⟩
        have same := only first List.mem_cons_self inside
        subst same
        refine ⟨List.inj_on_of_nodup_map here member found rfl,?_⟩
        rw [List.map_flatMap,List.mem_flatMap]
        rintro ⟨other,there,hit⟩
        exact fresh (only other (List.mem_cons_of_mem _ there) hit ▸ there)
    · rw [filter_absent.mpr inside,List.nil_append,ih apart later]
      constructor
      · rintro ⟨place,there,found,only⟩
        refine ⟨place,List.mem_cons_of_mem _ there,found,List.forall_mem_cons.mpr ⟨fun hit => absurd hit inside,only⟩⟩
      · rintro ⟨place,there,found,only⟩
        rcases List.mem_cons.mp there with rfl | there
        · exact absurd (List.mem_map.mpr ⟨_,found,rfl⟩) inside
        · exact ⟨place,there,found,(List.forall_mem_cons.mp only).2⟩

end Hermes.Library.Entries
