import Hermes.PlanStages

/-! The scans of a plan: a small wiring for each partition that is left after pruning, all of them side by side. -/
namespace Hermes.Transform
open Hermes.Library Hermes.Library.Wiring
open Hermes.Serialization (Values PhysicalOp POpType)
variable {V : Values} {E : Type}

def path (entry : (S3Partition × Option E) × Nat) : String := "-" ++ entry.1.1.s3Bucket ++ "/" ++ entry.1.1.s3Object

structure Part (id : Nat) (rest : String) (w : Wiring (PhysicalOp V)) : Prop where
  layered : w.Layered
  bare : ∀ pOp ∈ w.nodes, pOp.consumers = [] ∧ pOp.producers = []
  names : (w.nodes.map fun pOp => pOp.name).Nodup
  named : ∀ pOp ∈ w.nodes, ∃ kind, Plain kind ∧ pOp.name = named kind id rest
  open' : w.ends ≠ []
  fed : w.Fed Waits

structure Parts (id : Nat) (rests : List String) (w : Wiring (PhysicalOp V)) : Prop where
  layered : w.Layered
  bare : ∀ pOp ∈ w.nodes, pOp.consumers = [] ∧ pOp.producers = []
  names : (w.nodes.map fun pOp => pOp.name).Nodup
  named : ∀ pOp ∈ w.nodes, ∃ kind, ∃ rest ∈ rests, Plain kind ∧ pOp.name = named kind id rest
  open' : w.ends ≠ [] ↔ rests ≠ []
  fed : w.Fed Waits

section Parts
variable {id : Nat} {rest : String} {rests : List String} {w w' : Wiring (PhysicalOp V)}

theorem Parts.empty : Parts id [] (empty : Wiring (PhysicalOp V)) where
  layered := Layered.empty
  bare _ inside := absurd inside List.not_mem_nil
  names := List.nodup_nil
  named _ inside := absurd inside List.not_mem_nil
  open' := iff_of_false (not_not_intro rfl) (not_not_intro rfl)
  fed i node at' := absurd at' (by simp [Wiring.empty])

theorem Parts.beside (parts : Parts id rests w) (part : Part id rest w') (new : rest ∉ rests) :
    Parts id (rests ++ [rest]) (w.beside w') where
  layered := parts.layered.beside part.layered
  bare pOp inside := (List.mem_append.mp inside).elim (parts.bare pOp) (part.bare pOp)
  names := by
    rw [show (w.beside w').nodes = w.nodes ++ w'.nodes from rfl,List.map_append,List.nodup_append]
    refine ⟨parts.names,part.names,?_⟩
    intro name inside name' inside' same
    obtain ⟨pOp,member,rfl⟩ := List.mem_map.mp inside
    obtain ⟨other,member',rfl⟩ := List.mem_map.mp inside'
    obtain ⟨kind,old,known,plain,pOpName⟩ := parts.named pOp member
    obtain ⟨kind',plain',otherName⟩ := part.named other member'
    have rests := (named_inj plain plain' (pOpName.symm.trans (same.trans otherName))).2.2
    exact new (rests ▸ known)
  named pOp inside := by
    rcases List.mem_append.mp inside with left | right
    · obtain ⟨kind,old,known,plain,name⟩ := parts.named pOp left
      exact ⟨kind,old,List.mem_append_left _ known,plain,name⟩
    · obtain ⟨kind,plain,name⟩ := part.named pOp right
      exact ⟨kind,rest,List.mem_append_right _ (List.mem_singleton.mpr rfl),plain,name⟩
  open' := by
    refine iff_of_true ?_ (List.append_ne_nil_of_right_ne_nil _ (List.cons_ne_nil _ _))
    exact List.append_ne_nil_of_right_ne_nil _ (mt List.map_eq_nil_iff.mp part.open')
  fed := (fed_beside parts.layered).mpr ⟨parts.fed,part.fed⟩

theorem Parts.sound (parts : Parts id rests w) : Sound [id] w where
  layered := parts.layered
  bare := parts.bare
  names := parts.names
  tagged pOp inside := by
    obtain ⟨kind,rest,_,plain,name⟩ := parts.named pOp inside
    exact ⟨id,List.mem_singleton.mpr rfl,kind,rest,plain,name⟩

end Parts

section Loop
variable {id : Nat} {entries : List ((S3Partition × Option E) × Nat)}

theorem parts_foldl {partition : (S3Partition × Option E) × Nat → TransRes V} (distinct : (entries.map path).Nodup)
    (each : ∀ entry ∈ entries, ∃ w, partition entry = built w ∧ Part id (path entry) w) :
    ∃ w, entries.foldl (fun res entry => res.append (partition entry)) ⟨[],[]⟩ = built w ∧
    Parts id (entries.map path) w := by
  induction entries using List.reverseRecOn with
  | nil => exact ⟨_,rfl,Parts.empty⟩
  | append_singleton entries entry ih =>
    rw [List.map_append,List.nodup_append] at distinct
    obtain ⟨w,known,parts⟩ := ih distinct.1 fun other inside => each other (List.mem_append_left _ inside)
    obtain ⟨w',known',part⟩ := each entry (List.mem_append_right _ (List.mem_singleton.mpr rfl))
    refine ⟨w.beside w',?_,?_⟩
    · rw [List.foldl_append,known,built_beside parts.layered,← known']
      rfl
    · rw [List.map_append]
      refine parts.beside part fun old => ?_
      exact distinct.2.2 _ old _ (List.mem_singleton.mpr rfl) rfl

end Loop

section Entries
variable {table : S3Table} {predicate : Option E}

theorem distinct_paths (pruned : PartitionPredicates table predicate) : (pruned.entries.zipIdx.map path).Nodup := by
  have paths : pruned.entries.zipIdx.map path =
      (pruned.entries.map Prod.fst).map fun partition => "-" ++ partition.s3Bucket ++ "/" ++ partition.s3Object := by
    rw [← List.zipIdx_map_fst 0 pruned.entries,List.map_map,List.map_map,List.zipIdx_map_fst]
    rfl
  rw [paths]
  refine List.Nodup.map_on ?_ pruned.distinct
  intro partition inside other inside' same
  obtain ⟨entry,member,rfl⟩ := List.mem_map.mp inside
  obtain ⟨entry',member',rfl⟩ := List.mem_map.mp inside'
  have buckets := table.oneBucket _ (pruned.kept entry member) _ (pruned.kept entry' member')
  rw [buckets] at same
  exact S3Partition.ext buckets (rest_inj same)

end Entries

/-- A small graph of kinds and types of operators, with a rank for each, in which everything is as it should be. -/
def Inspected (kinds : List (String × POpType)) (ranks : List Nat) (edges : List (Nat × Nat))
    (ends : List Nat) : Prop :=
  (∀ edge ∈ edges, (edge.1 < kinds.length ∧ edge.2 < kinds.length) ∧ ranks.getD edge.1 0 < ranks.getD edge.2 0) ∧
    (ends.Nodup ∧ ends ≠ [] ∧ ∀ i ∈ ends, i < kinds.length) ∧
    (∀ i < kinds.length, i ∈ ends ↔ ∀ edge ∈ edges, edge.1 ≠ i) ∧
    ((∀ kind ∈ kinds, Plain kind.1) ∧ (kinds.map Prod.fst).Nodup) ∧
    ∀ i < kinds.length, ∀ kind ∈ kinds[i]?, completesOnProducers kind.2 = true → ∃ edge ∈ edges, edge.2 = i

section Partitions
variable {id : Nat} {projectColumnNames : List String} {table : S3Table} (transformer : PrePToPTransformer E)
  (entry : (S3Partition × Option E) × Nat)

def partitionPOps (id : Nat) (kinds : List (String × POpType)) (columns : List (List String)) : List (PhysicalOp V) :=
  (kinds.zip columns).map fun kind => transformer.partitionPOp id kind.1.1 kind.1.2 kind.2 entry

theorem part_of_inspected {kinds : List (String × POpType)} {ranks : List Nat} {edges : List (Nat × Nat)}
    {ends : List Nat} {columns : List (List String)} (inspected : Inspected kinds ranks edges ends)
    (size : kinds.length = columns.length) :
    Part id (path entry) (⟨partitionPOps transformer entry id kinds columns,edges,ends⟩ : Wiring (PhysicalOp V)) := by
  obtain ⟨climbs,⟨nodup,some',inside⟩,free,⟨plain,distinct⟩,fed⟩ := inspected
  have length : (partitionPOps transformer entry id kinds columns : List (PhysicalOp V)).length = kinds.length := by
    rw [partitionPOps,List.length_map,List.length_zip,size,Nat.min_self]
  refine ⟨Layered.of_forall (fun i => ranks.getD i 0) ?_ nodup ?_ ?_,?_,?_,?_,some',?_⟩
  · rwa [length]
  · rwa [length]
  · rwa [length]
  · intro pOp member
    obtain ⟨kind,_,rfl⟩ := List.mem_map.mp member
    exact ⟨rfl,rfl⟩
  · have names : ((partitionPOps transformer entry id kinds columns : List (PhysicalOp V)).map fun pOp => pOp.name) =
        ((kinds.zip columns).map Prod.fst).map fun kind => named kind.1 id (path entry) := by
      rw [partitionPOps,List.map_map,List.map_map]
      rfl
    rw [names,List.map_fst_zip (Nat.le_of_eq size)]
    refine List.Nodup.map_on ?_ (List.Nodup.of_map _ distinct)
    intro kind known kind' known' same
    exact List.inj_on_of_nodup_map distinct known known' (named_inj (plain kind known) (plain kind' known') same).1
  · intro pOp member
    obtain ⟨⟨kind,columnNames⟩,known,rfl⟩ := List.mem_map.mp member
    exact ⟨kind.1,plain kind (List.of_mem_zip known).1,rfl⟩
  · intro i pOp known waits
    rw [partitionPOps,List.getElem?_map,Option.map_eq_some_iff] at known
    obtain ⟨⟨kind,columnNames⟩,at',rfl⟩ := known
    have kindAt := (List.getElem?_zip_eq_some.mp at').1
    obtain ⟨⟨j,i'⟩,member,rfl⟩ := fed i (List.getElem?_eq_some_iff.mp kindAt).1 kind kindAt waits
    exact ⟨j,member⟩

theorem pushdown_part : ∃ w :
    Wiring (PhysicalOp V), transformer.pushdownPartition id projectColumnNames entry = built w ∧
    Part id (path entry) w := by
  have inspected : Inspected [("S3Select",.s3Select)] [0] [] [0] := by
    unfold Inspected
    decide
  exact ⟨⟨partitionPOps transformer entry id _ [projectColumnNames],_,_⟩,rfl,
    part_of_inspected transformer entry inspected rfl⟩

theorem cachingOnly_part : ∃ w :
    Wiring (PhysicalOp V), transformer.cachingOnlyPartition id projectColumnNames entry = built w ∧
    Part id (path entry) w := by
  let columns := HybridScan.union projectColumnNames (transformer.predicateColumnNames entry.1.2)
  obtain ⟨⟨partition,predicate⟩,partitionId⟩ := entry
  cases predicate with
  | some predicate =>
    have inspected : Inspected [("CacheLoad",.cacheLoad),("S3Get",.s3Get),("Merge",.merge),("Filter",.filter)] [0,1,2,3]
        [(0,2),(0,1),(1,2),(2,3)] [3] := by
      unfold Inspected
      decide
    exact ⟨⟨partitionPOps transformer _ id _ [projectColumnNames,columns,columns,projectColumnNames],_,_⟩,rfl,
      part_of_inspected transformer _ inspected rfl⟩
  | none =>
    have inspected : Inspected [("CacheLoad",.cacheLoad),("S3Get",.s3Get),("Merge",.merge)] [0,1,2] [(0,2),(0,1),
        (1,2)] [2] := by
      unfold Inspected
      decide
    exact ⟨⟨partitionPOps transformer _ id _ [projectColumnNames,columns,columns],_,_⟩,rfl,
      part_of_inspected transformer _ inspected rfl⟩

theorem hybrid_part : ∃ w : Wiring (PhysicalOp V), transformer.hybridPartition id projectColumnNames entry = built w ∧
    Part id (path entry) w := by
  let columns := HybridScan.union projectColumnNames (transformer.predicateColumnNames entry.1.2)
  obtain ⟨⟨partition,predicate⟩,partitionId⟩ := entry
  cases predicate with
  | some predicate =>
    have inspected : Inspected [("CacheLoad",.cacheLoad),("S3Select(cache)",.s3Select),("merge1",.merge),
        ("Filter",.filter),
        ("S3Select(pushdown)",.s3Select),("merge2",.merge)] [0,1,2,3,4,5] [(0,2),(0,1),(1,2),(2,3),(0,4),(3,5),
          (4,5)] [5] := by
      unfold Inspected
      decide
    exact ⟨⟨partitionPOps transformer _ id _
      [projectColumnNames,columns,columns,projectColumnNames,projectColumnNames,projectColumnNames],_,_⟩,rfl,
      part_of_inspected transformer _ inspected rfl⟩
  | none =>
    have inspected : Inspected [("CacheLoad",.cacheLoad),("S3Select(cache)",.s3Select),("merge1",.merge),
        ("S3Select(pushdown)",.s3Select),("merge2",.merge)] [0,1,2,3,4] [(0,2),(0,1),(1,2),(0,3),(2,4),(3,4)] [4] := by
      unfold Inspected
      decide
    exact ⟨⟨partitionPOps transformer _ id _ [projectColumnNames,columns,columns,projectColumnNames,
      projectColumnNames],_,_⟩,rfl,
      part_of_inspected transformer _ inspected rfl⟩

end Partitions

section Pullup
variable {id : Nat} {projectColumnNames : List String} {table : S3Table} (transformer : PrePToPTransformer E)
  (entry : (S3Partition × Option E) × Nat)

open PrePToPTransformer (Pullup)

def downs (res : Pullup V) : TransRes V := ⟨res.selfConnDownPOps,res.allPOps⟩

def filters (res : Pullup V) : TransRes V := ⟨res.filterPOps,res.allPOps⟩

theorem pullup_down_part (plainScan : table.name ∈ deltaTables ∨ entry.1.2 = none) :
    (transformer.pullupPartition id projectColumnNames table entry : Pullup V).filterPOps = [] ∧
      ∃ w : Wiring (PhysicalOp V), downs (transformer.pullupPartition id projectColumnNames table entry) = built w ∧
        Part id (path entry) w := by
  by_cases delta : table.name ∈ deltaTables
  · have inspected : Inspected [("DeltaMerge",.deltaMerge),("CacheHandler",.cacheHandler),
        ("S3Get-Stable",.s3Get)] [1,0,0]
        [(1,0),(2,0)] [0] := by
      unfold Inspected
      decide
    let deltaMergeColumns := HybridScan.union projectColumnNames (transformer.predicateColumnNames entry.1.2)
    let orderedDeltaMergeColumns := orderedColumns table.fields deltaMergeColumns
    let orderedScanColumns := orderedColumns table.fields
      (HybridScan.union deltaMergeColumns table.primaryKeyColumnNames)
    rw [PrePToPTransformer.pullupPartition,if_pos delta]
    exact ⟨rfl,⟨partitionPOps transformer entry id _ [orderedDeltaMergeColumns,orderedDeltaMergeColumns,
      orderedScanColumns],_,_⟩,rfl,
      part_of_inspected transformer entry inspected rfl⟩
  · obtain ⟨⟨partition,predicate⟩,partitionId⟩ := entry
    obtain rfl : predicate = none := plainScan.resolve_left delta
    have inspected : Inspected [("S3Get",.s3Get)] [0] [] [0] := by
      unfold Inspected
      decide
    let columns := orderedFields table.fields (HybridScan.union projectColumnNames
      (transformer.predicateColumnNames none))
    rw [PrePToPTransformer.pullupPartition,if_neg delta]
    exact ⟨rfl,⟨partitionPOps transformer _ id _ [columns],_,_⟩,rfl,part_of_inspected transformer _ inspected rfl⟩

theorem pullup_filter_part (noDelta : table.name ∉ deltaTables) (known : entry.1.2 ≠ none) :
    ∃ w : Wiring (PhysicalOp V), filters (transformer.pullupPartition id projectColumnNames table entry) = built w ∧
      Part id (path entry) w := by
  obtain ⟨⟨partition,predicate⟩,partitionId⟩ := entry
  cases predicate with
  | none => exact absurd rfl known
  | some predicate =>
    have inspected : Inspected [("S3Get",.s3Get),("Filter",.filter)] [0,1] [(0,1)] [1] := by
      unfold Inspected
      decide
    let columns := orderedFields table.fields (HybridScan.union projectColumnNames
      (transformer.predicateColumnNames (some predicate)))
    rw [PrePToPTransformer.pullupPartition,if_neg noDelta]
    exact ⟨⟨partitionPOps transformer _ id _ [columns,projectColumnNames],_,_⟩,rfl,
      part_of_inspected transformer _ inspected rfl⟩

theorem view_foldl {view : Pullup V → TransRes V} (start : view ⟨[],[],[]⟩ = ⟨[],[]⟩)
    (append : ∀ first second : Pullup V, view (first.append second) = (view first).append (view second))
    (partition : (S3Partition × Option E) × Nat → Pullup V) (entries : List ((S3Partition × Option E) × Nat)) :
    view (entries.foldl (fun res entry => res.append (partition entry)) ⟨[],[],[]⟩) =
      entries.foldl (fun res entry => res.append (view (partition entry))) ⟨[],[]⟩ := by
  induction entries using List.reverseRecOn with
  | nil => exact start
  | append_singleton entries entry ih =>
    rw [List.foldl_append,List.foldl_append]
    show view (Pullup.append _ _) = _
    rw [append,ih]
    rfl

theorem no_filters {partition : (S3Partition × Option E) × Nat → Pullup V}
    {entries : List ((S3Partition × Option E) × Nat)} (none : ∀ entry ∈ entries, (partition entry).filterPOps = []) :
    (entries.foldl (fun res entry => res.append (partition entry)) ⟨[],[],[]⟩ : Pullup V).filterPOps = [] := by
  induction entries using List.reverseRecOn with
  | nil => rfl
  | append_singleton entries entry ih =>
    rw [List.foldl_append]
    show Pullup.filterPOps _ ++ ((partition entry).filterPOps.map _) = []
    rw [ih fun other inside => none other (List.mem_append_left _ inside),
      none entry (List.mem_append_right _ (List.mem_singleton.mpr rfl))]
    rfl

end Pullup

section Spec
variable {id : Nat} {projectColumnNames : List String} {table : S3Table} {predicate : Option E}
    (transformer : PrePToPTransformer E)

theorem transformed_of_parts {res : TransRes V} {rests : List String}
    (parts : ∃ w, res = built w ∧ Parts id rests w) : Transformed [id] (rests ≠ []) True res := by
  obtain ⟨w,known,parts⟩ := parts
  exact ⟨w,known,parts.sound,parts.open',iff_of_true parts.fed trivial⟩

theorem pullup_spec (pruned : PartitionPredicates table predicate) :
    ∃ w : Wiring (PhysicalOp V),
      transformer.transformFilterableScanPullup id projectColumnNames table pruned.entries = built w ∧
      Parts id (pruned.entries.zipIdx.map path) w := by
  have distinct := distinct_paths pruned
  have predicates : ∀ entry ∈ pruned.entries.zipIdx, entry.1.2.isSome = predicate.isSome :=
    fun entry inside => pruned.predicates entry.1 (List.fst_mem_of_mem_zipIdx inside)
  by_cases plainScan : table.name ∈ deltaTables ∨ predicate = none
  · have each : ∀ entry ∈ pruned.entries.zipIdx, table.name ∈ deltaTables ∨ entry.1.2 = none := by
      intro entry inside
      refine plainScan.imp_right fun noPredicate => ?_
      rw [← Option.not_isSome_iff_eq_none,predicates entry inside,noPredicate]
      exact Bool.false_ne_true
    rw [PrePToPTransformer.transformFilterableScanPullup,
      if_pos (no_filters fun entry inside => (pullup_down_part transformer entry (each entry inside)).1)]
    show ∃ w, downs _ = built w ∧ _
    rw [@view_foldl V E downs rfl fun _ _ => rfl]
    exact parts_foldl distinct fun entry inside => (pullup_down_part transformer entry (each entry inside)).2
  · obtain ⟨noDelta,somePredicate⟩ := not_or.mp plainScan
    have each : ∀ entry ∈ pruned.entries.zipIdx, entry.1.2 ≠ none := by
      intro entry inside
      rw [← Option.isSome_iff_ne_none,predicates entry inside,Option.isSome_iff_ne_none]
      exact somePredicate
    have filtered := parts_foldl distinct fun entry inside =>
      @pullup_filter_part V E id projectColumnNames table transformer entry noDelta (each entry inside)
    rw [← @view_foldl V E filters rfl fun _ _ => rfl] at filtered
    by_cases none : pruned.entries = []
    · rw [none]
      exact ⟨_,rfl,Parts.empty⟩
    · obtain ⟨w,known,parts⟩ := filtered
      have some' : w.ends ≠ [] := by
        rw [parts.open',Ne,List.map_eq_nil_iff,List.zipIdx_eq_nil_iff]
        exact none
      have kept := congrArg TransRes.upConnPOps known
      refine ⟨w,?_,parts⟩
      rw [PrePToPTransformer.transformFilterableScanPullup]
      exact (if_neg fun empty => some' (kept.symm.trans empty)).trans known

theorem transformFilterableScan_spec :
    Transformed [id] ((transformer.prune table predicate).entries ≠ []) True
      (transformer.transformFilterableScan id projectColumnNames table predicate : TransRes V) := by
  have pruned := distinct_paths (transformer.prune table predicate)
  have some' : (transformer.prune table predicate).entries.zipIdx.map path ≠ [] ↔
      (transformer.prune table predicate).entries ≠ [] := by
    rw [Ne,List.map_eq_nil_iff,List.zipIdx_eq_nil_iff]
  rw [← some',PrePToPTransformer.transformFilterableScan]
  cases transformer.mode with
  | pullUp => exact transformed_of_parts (pullup_spec transformer _)
  | pushdownOnly => exact transformed_of_parts (parts_foldl pruned fun entry _ => pushdown_part transformer entry)
  | cachingOnly => exact transformed_of_parts (parts_foldl pruned fun entry _ => cachingOnly_part transformer entry)
  | hybrid => exact transformed_of_parts (parts_foldl pruned fun entry _ => hybrid_part transformer entry)

end Spec

end Hermes.Transform
