import Hermes.DeltaMergePOp
import Hermes.DeleteMapSelection

/-! What one unbatched merge emits and sends back.
When all kept rows come from one version and every record batch keeps a row, the
merged delta is the kept rows in key order. -/
namespace Hermes.DeltaMergeResult
open Hermes.Tuple Hermes.Delta Hermes.DeleteMapGeneratorKernel Hermes.DeleteMapMerge
open Hermes.DeltaMergeFilter Hermes.DeltaMergePOp Hermes.LatestVersion Hermes.DeleteMapSelection
open Hermes.Library.KeyOrder
variable {n : Nat} {α σ : Type} {deltas : List (DeltaVersion n α)} {stable : TupleSet (Row n α)}

theorem combinedMemoryDelta_rows (nonempty : deltas ≠ []) :
    ∃ combined, combinedMemoryDelta deltas = some combined ∧
      combined.rows = (combinedRows deltas).map (·.2) := by
  have stamped : ∀ d : DeltaVersion n α, (stampedRows d).map (·.2) = d.delta.rows := by
    intro d
    simp [stampedRows,Function.comp_def]
  cases deltas with
  | nil => exact absurd rfl nonempty
  | cons first rest =>
    rcases List.eq_nil_or_concat rest with rfl | ⟨middle,last,rfl⟩
    · exact ⟨_,rfl,by simp [combinedRows,combinedVersions,stamped]⟩
    · rw [List.concat_eq_append]
      refine ⟨TupleSet.concatenate [TupleSet.concatenate [first.delta],last.delta],?_,?_⟩
      · simp [combinedMemoryDelta]
      · simp [combinedRows,combinedVersions,stamped]

/-- Every record batch of the concatenated deltas holds a row to be kept. -/
def EveryBatchKeeps (reader : TableBatchReader) (deltas : List (DeltaVersion n α)) : Prop :=
  ∀ combined, combinedMemoryDelta deltas = some combined → combined.rows = [] ∨
    Covers (fun p => ∃ timestamp r, (combinedRows deltas)[p]? = some (timestamp,r) ∧
      Keeps deltas timestamp r) 0 (reader.batches combined)

theorem covers_congr {ρ : Type} {P Q : Nat → Prop} (same : ∀ p, P p ↔ Q p) (startPos : Nat)
    (batches : List (List ρ)) : Covers P startPos batches ↔ Covers Q startPos batches := by
  induction batches generalizing startPos with
  | nil => rfl
  | cons batch batches ih =>
    unfold Covers
    rw [ih]
    simp only [same]

theorem deltaMerge_spec {reader : TableBatchReader} {project : Row n α → σ}
    (input : MergeInput deltas stable) (nonempty : deltas ≠ []) (filled : Filled reader (stable.projectExist project))
    (one : KeptFromOne deltas) (batches : EveryBatchKeeps reader deltas) :
    ∃ chunks tuple,
      deltaMerge reader project deltas [stable] = some (chunks,some ⟨tuple,some (keptRows deltas stable)⟩) ∧
      chunks.flatten = (stable.rows.filter (fun r => Unchanged deltas r.key)).map project ++
        tuple.rows.map (fun r => project r.toRow) ∧
      Ascending (·.key) tuple.rows ∧
      ∀ r, r ∈ tuple.rows ↔ ∃ d ∈ deltas, r ∈ d.delta.rows ∧ Keeps deltas d.timestamp r := by
  obtain ⟨keys,merge,kernel⟩ := getDeleteMap_spec input
  obtain ⟨j,d,rest,source⟩ := exists_singleSource stable nonempty one
  have selects := source.selects input merge
  obtain ⟨combined,concatenated,rows⟩ := combinedMemoryDelta_rows nonempty
  obtain ⟨evaluatedStables,stables,stableRows⟩ := evaluate_bitmap (keptRows deltas stable)
    (by simp [keptRows,TupleSet.numRows]) filled
  have covered : combined.rows = [] ∨
      Covers (· ∈ keys.filterMap (keptPosition deltas stable)) 0 (reader.batches combined) :=
    (batches combined concatenated).imp_right (covers_congr selects.chosen 0 _).mpr
  obtain ⟨tuple,kept,tupleRows⟩ := (evaluate_positions reader combined
    (selects.ascending.imp le_of_lt)).1 covered
  obtain ⟨chunks,result,flattened⟩ := deltaMerge_rows project nonempty kernel stables
    concatenated kept
  refine ⟨chunks,tuple,result,?_,?_,?_⟩
  · rw [flattened,stableRows,TupleSet.rows_projectExist,keptRows,keepRows_map]
  · rw [tupleRows,rows]
    exact source.rows_ascending input.toSortedInput merge
  · intro r
    rw [tupleRows,rows,List.mem_filterMap]
    constructor
    · rintro ⟨p,member,found⟩
      obtain ⟨timestamp,r',read,keeps⟩ := (selects.chosen p).mp member
      rw [List.getElem?_map,read,Option.map_some,Option.some.injEq] at found
      subst found
      obtain ⟨r'',row,keeps'⟩ := (source.positions_iff input merge p).mp member
      have place : (combinedRows deltas)[p]? = some (d.timestamp,r'') := by
        have stamped : (stampedRows d)[p]? = some (d.timestamp,r'') := by
          simp [stampedRows,row]
        rw [source.layout,List.getElem?_append_left (List.getElem?_eq_some_iff.mp stamped).1]
        exact stamped
      rw [place,Option.some.injEq,Prod.mk.injEq] at read
      obtain ⟨rfl,rfl⟩ := read
      exact ⟨d,List.mem_of_getElem? source.version,List.mem_of_getElem? row,keeps⟩
    · rintro ⟨d',member,inside,keeps⟩
      obtain ⟨p,read⟩ := List.mem_iff_getElem?.mp (selects.complete d' member r inside keeps)
      refine ⟨p,(selects.chosen p).mpr ⟨d'.timestamp,r,read,keeps⟩,?_⟩
      rw [List.getElem?_map,read,Option.map_some]

end Hermes.DeltaMergeResult
