import Hermes.BatchedOverlay
import Hermes.DeltaMergeResult

/-! Whether a merge applies every cached version.
Both paths look at two of the versions only, the unbatched one at the first and
the last in load order, the batched one at the oldest and the newest besides. -/
namespace Hermes.AllVersions
open Hermes.Tuple Hermes.Delta Hermes.DeleteMapGeneratorKernel Hermes.DeleteMapMerge
open Hermes.DeltaMergeFilter Hermes.DeltaMergePOp Hermes.LatestVersion Hermes.DeleteMapSelection
open Hermes.DeltaMergeResult Hermes.BatchedDeltaMerge Hermes.BatchedOverlay
open Hermes.Library Hermes.Library.KeyOrder Hermes.Library.Overlay
variable {n : Nat} {α : Type} {deltas committed : List (DeltaVersion n α)} {stable : TupleSet (Row n α)}

/-- The unbatched merge applies every version: it keeps of each key the row of the
newest version that has one, emits the latest-version-wins result, and what it
sends back gives that result again over the stable rows whose bit it sets. -/
def AppliesAll (reader : TableBatchReader) (deltas committed : List (DeltaVersion n α))
    (stable : TupleSet (Row n α)) : Prop :=
  ∀ (σ : Type) (project : Row n α → σ), ∃ positions bitmap chunks tuple,
    getDeleteMap deltas [stable] = some (positions,bitmap) ∧ SelectsLatest deltas stable positions bitmap ∧
    deltaMerge reader project deltas [stable] = some (chunks,some ⟨tuple,some bitmap⟩) ∧
    chunks.flatten.Perm ((replay (keyed n α) stable.rows (versions committed)).map project) ∧
    (tuple.rows.map (·.key)).Nodup ∧
    (overlay (keyed n α) (keepRows bitmap stable.rows) tuple.rows).Perm
      (replay (keyed n α) stable.rows (versions committed))

section Newest
variable (order : committed.Pairwise (fun d e => d.timestamp < e.timestamp))
  (unique : ∀ d ∈ committed, (d.delta.rows.map (·.key)).Nodup)

theorem newest_eq_none {k : PrimaryKey n} :
    newest (keyed n α) (versions committed) k = none ↔ Unchanged committed k := by
  constructor
  · intro none_ d member r inside same
    have version : d.delta.rows ∈ versions committed := List.mem_map.mpr ⟨d,member,rfl⟩
    have some_ := Overlay.newest_isSome (keyed n α) version inside
    change (newest (keyed n α) (versions committed) r.key).isSome at some_
    rw [same,none_] at some_
    cases some_
  · intro unchanged
    cases found : newest (keyed n α) (versions committed) k with
    | none => rfl
    | some c =>
      obtain ⟨⟨version,member,inside⟩,same⟩ := newest_mem (keyed n α) found
      obtain ⟨d,here,rfl⟩ := List.mem_map.mp member
      exact absurd same (unchanged d here c inside)

include order unique in
theorem newest_eq_some {c : DeltaRow n α} :
    newest (keyed n α) (versions committed) c.key = some c ↔
      ∃ d ∈ committed, c ∈ d.delta.rows ∧ Newest committed d.timestamp c.key := by
  induction committed using List.reverseRecOn with
  | nil => simp [newest,versions]
  | append_singleton committed last ih =>
    obtain ⟨earlier,_,below⟩ := List.pairwise_append.mp order
    have rest := ih earlier (fun d member => unique d (List.mem_append_left _ member))
    have above : ∀ d ∈ committed, d.timestamp < last.timestamp := fun d member => below d member last (by simp)
    have split : versions (committed ++ [last]) = versions committed ++ [last.delta.rows] := by simp [versions]
    rw [split,newest_concat]
    cases found : lookup (keyed n α) last.delta.rows c.key with
    | some t =>
      obtain ⟨member,same⟩ := (lookup_eq_some (keyed n α) (unique last (by simp))).mp found
      rw [Option.some_or,Option.some.injEq]
      constructor
      · rintro rfl
        refine ⟨last,by simp,member,?_⟩
        intro d inside _ _ _
        rcases List.mem_append.mp inside with early | final
        · exact le_of_lt (above d early)
        · rw [List.mem_singleton.mp final]
      · rintro ⟨d,inside,row,top⟩
        have bound := top last (by simp) t member same
        rcases List.mem_append.mp inside with early | final
        · have less := above d early
          omega
        · rw [List.mem_singleton.mp final] at row
          exact List.inj_on_of_nodup_map (unique last (by simp)) member row same
    | none =>
      have absent := (lookup_eq_none (keyed n α)).mp found
      rw [Option.none_or,rest]
      constructor
      · rintro ⟨d,inside,row,top⟩
        refine ⟨d,List.mem_append_left _ inside,row,?_⟩
        intro e member r here same
        rcases List.mem_append.mp member with early | final
        · exact top e early r here same
        · rw [List.mem_singleton.mp final] at here
          exact absurd (List.mem_map.mpr ⟨r,here,same⟩) absent
      · rintro ⟨d,inside,row,top⟩
        rcases List.mem_append.mp inside with early | final
        · exact ⟨d,early,row,fun e member => top e (List.mem_append_left _ member)⟩
        · rw [List.mem_singleton.mp final] at row
          exact absurd (List.mem_map.mpr ⟨c,row,rfl⟩) absent

end Newest

section Unbatched
variable (input : MergeInput deltas stable) (loaded : deltas.Perm committed)
  (order : committed.Pairwise (fun d e => d.timestamp < e.timestamp))
include input loaded

private theorem committed_distinct : ∀ version ∈ versions committed,
    (version.map (keyed n α).change).Nodup := by
  intro version member
  obtain ⟨d,inside,rfl⟩ := List.mem_map.mp member
  exact (input.deltaOrder d (loaded.mem_iff.mpr inside)).nodup_keys

include order

private theorem newest_loaded {c : DeltaRow n α} :
    newest (keyed n α) (versions committed) c.key = some c ↔
      ∃ d ∈ deltas, c ∈ d.delta.rows ∧ Newest deltas d.timestamp c.key := by
  rw [newest_eq_some order (fun d member => (input.deltaOrder d (loaded.mem_iff.mpr member)).nodup_keys)]
  refine exists_congr (fun d => and_congr loaded.mem_iff.symm (and_congr_right (fun _ => ?_)))
  exact forall_congr' (fun e => imp_congr loaded.mem_iff.symm Iff.rfl)

theorem kept_latest {kept : List (DeltaRow n α)} (ascending : Ascending (·.key) kept)
    (rows : ∀ r, r ∈ kept ↔ ∃ d ∈ deltas, r ∈ d.delta.rows ∧ Keeps deltas d.timestamp r) :
    (stable.rows.filter (fun r => Unchanged deltas r.key) ++ kept.map (·.toRow)).Perm
        (replay (keyed n α) stable.rows (versions committed)) ∧
      (kept.map (·.key)).Nodup ∧
      (overlay (keyed n α) (stable.rows.filter (fun r => Unchanged deltas r.key)) kept).Perm
        (replay (keyed n α) stable.rows (versions committed)) := by
  have changes := committed_distinct input loaded
  have emits : ∀ c : DeltaRow n α, (keyed n α).row c.toRow = (keyed n α).change c := fun _ => rfl
  have unchanged : ∀ k : PrimaryKey n, newest (keyed n α) (versions committed) k = none ↔
      Unchanged deltas k := by
    intro k
    rw [newest_eq_none]
    exact forall_congr' (fun d => imp_congr loaded.mem_iff.symm Iff.rfl)
  refine (emitted_overlay_iff (keyed n α) emits
    (input.stableOrder.sublist List.filter_sublist).nodup_keys
    (replay_distinct (keyed n α) input.stableOrder.nodup_keys changes)).mpr
    ⟨ascending.nodup_keys,?_,?_,?_⟩
  · intro c member
    obtain ⟨d,inside,row,live,top⟩ := (rows c).mp member
    have found := (newest_loaded input loaded order).mpr ⟨d,inside,row,top⟩
    have leaves : (keyed n α).image c = some c.toRow := if_neg live
    refine ⟨leaves,(mem_replay (keyed n α) changes _).mpr ?_⟩
    change newest (keyed n α) (versions committed) ((keyed n α).row c.toRow) = some c at found
    rw [found]
    exact leaves
  · intro r member
    obtain ⟨base,free⟩ := List.mem_filter.mp member
    have fresh : Unchanged deltas r.key := by simpa using free
    have found := (unchanged r.key).mpr fresh
    refine ⟨(mem_replay (keyed n α) changes r).mpr ?_,?_⟩
    · change newest (keyed n α) (versions committed) ((keyed n α).row r) = none at found
      rw [found]
      exact base
    · intro hit
      obtain ⟨c,inside,same⟩ := List.mem_map.mp hit
      obtain ⟨d,version,row,_⟩ := (rows c).mp inside
      exact fresh d version c row same
  · intro r member
    have decided := (mem_replay (keyed n α) changes r).mp member
    cases found : newest (keyed n α) (versions committed) ((keyed n α).row r) with
    | none =>
      rw [found] at decided
      exact Or.inl (List.mem_filter.mpr ⟨decided,by simpa using (unchanged r.key).mp found⟩)
    | some c =>
      rw [found] at decided
      have key : c.key = r.key := (newest_mem (keyed n α) found).2
      have live : c.type ≠ .delete := by
        intro deleted
        change image c = some r at decided
        simp [image,deleted] at decided
      change newest (keyed n α) (versions committed) r.key = some c at found
      rw [← key] at found
      obtain ⟨d,inside,row,top⟩ := (newest_loaded input loaded order).mp found
      exact Or.inr (List.mem_map.mpr ⟨c,(rows c).mpr ⟨d,inside,row,live,top⟩,key⟩)

omit input loaded order in
theorem keepRows_keptRows (deltas : List (DeltaVersion n α)) (stable : TupleSet (Row n α)) :
    keepRows (keptRows deltas stable) stable.rows =
    stable.rows.filter (fun r => Unchanged deltas r.key) := by
  have rows := keepRows_map (fun r : Row n α => decide (Unchanged deltas r.key)) id stable.rows
  rwa [List.map_id,List.map_id] at rows

/-- The unbatched merge applies every version exactly when no record batch of the stable
table is empty, all kept rows come from one version that the concatenation starts with,
and every record batch keeps a row. -/
theorem appliesAll_iff (reader : TableBatchReader) (nonempty : deltas ≠ []) :
    AppliesAll reader deltas committed stable ↔
      StableFilled reader stable ∧ KeptFromOne deltas ∧ EveryBatchKeeps reader deltas := by
  constructor
  · intro applies
    have filled : StableFilled reader stable := by
      intro σ project
      by_contra unfilled
      obtain ⟨_,_,_,_,_,_,returned,_⟩ := applies σ project
      rw [deltaMerge_unfilled nonempty unfilled []] at returned
      cases returned
    obtain ⟨positions,bitmap,chunks,tuple,kernel,selects,returned,_⟩ := applies (Row n α) id
    refine ⟨filled,(selectsLatest_iff input nonempty).mp ⟨positions,bitmap,kernel,selects⟩,?_⟩
    intro combined concatenated
    by_contra open_
    have stuck := (evaluate_positions reader combined (selects.ascending.imp le_of_lt)).2
      (fun covered => open_ (covered.imp_right (covers_congr selects.chosen 0 _).mp))
    rw [deltaMerge_stuck reader id nonempty kernel concatenated stuck] at returned
    cases returned
  · rintro ⟨filled,one,everyBatch⟩ σ project
    obtain ⟨positions,bitmap,kernel,selects⟩ := (selectsLatest_iff input nonempty).mpr one
    obtain ⟨chunks,tuple,returned,flattened,ascending,rows⟩ :=
      deltaMerge_spec input nonempty (filled σ project) one everyBatch
    obtain ⟨emitted,distinct,overlaid⟩ := kept_latest input loaded order ascending rows
    obtain rfl := selects.kept
    refine ⟨positions,_,chunks,tuple,kernel,selects,returned,?_,distinct,?_⟩
    · rw [flattened]
      have projected := emitted.map project
      rw [List.map_append,List.map_map] at projected
      exact projected
    · rw [keepRows_keptRows]
      exact overlaid

end Unbatched

section Examples

def inserted (keys : List Int32) (timestamp : Int) : DeltaVersion 1 Nat :=
  ⟨.ofRows (keys.map (fun k => ⟨⟨singleKey k,0⟩,.insert⟩)),timestamp⟩

def oneRowTable : TupleSet (Row 1 Nat) := .ofRows [⟨singleKey 9,0⟩]

def threeVersions : List (DeltaVersion 1 Nat) := [inserted [1,5,6] 1,inserted [2] 2,inserted [3] 3]

private theorem three_input : BatchedInput threeVersions.reverse threeVersions [oneRowTable] [true] := by
  refine ⟨by decide,by decide,List.reverse_perm _,by decide,by decide,by decide,by decide,?_,by decide⟩
  simp [Cut,oneRowTable,TupleSet.numRows,DefaultChunkSize]

end Examples

end Hermes.AllVersions
