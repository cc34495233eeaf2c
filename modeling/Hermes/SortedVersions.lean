import Hermes.BinlogParser
import Hermes.BitmapAvailability
import Hermes.DeltaMergeResult

/-! The key order of the versions in the cache.
Pumped deltas come out of ordered sets. A merge concatenates rows of two of its
versions, so what it sends back is in key order only if the rows it takes fit
together that way. -/
namespace Hermes.SortedVersions
open Hermes.Tuple Hermes.Delta Hermes.DeleteMapGeneratorKernel Hermes.KeepMapCacheMode Hermes.DeltaMergeFilter
open Hermes.DeltaMergePOp Hermes.DeltaCacheActor Hermes.DeltaCacheSystem Hermes.DeleteMapMerge
open Hermes.LatestVersion Hermes.DeleteMapSelection Hermes.DeltaMergeResult Hermes.BatchedDeltaMerge
open Hermes.BatchedKeepMap Hermes.BitmapAvailability Hermes.Library.KeyOrder Hermes.Library.Transition
open Hermes.BinlogParser (Table)

section Merges
variable {n : Nat} {α σ : Type} {deltas : List (DeltaVersion n α)} {batches : List (TupleSet (Row n α))}

/-- The rows of the memory delta and of the tail delta, as the batched mode finds them. -/
def memOf (deltas : List (DeltaVersion n α)) : List (DeltaRow n α) :=
  ((positionTailAndMemDelta (deltas.map (·.timestamp))).1.bind (deltas[·]?)).toList.flatMap (·.delta.rows)

def tailOf (deltas : List (DeltaVersion n α)) : List (DeltaRow n α) :=
  ((positionTailAndMemDelta (deltas.map (·.timestamp))).2.bind (deltas[·]?)).toList.flatMap (·.delta.rows)

theorem setsUp_of_firstBatch (nonempty : deltas ≠ []) {keepMap fresh : KeepMap n α}
    (prepared : firstBatch deltas keepMap = some fresh) : SetsUp deltas (memOf deltas) (tailOf deltas) := by
  unfold firstBatch at prepared
  generalize positions : positionTailAndMemDelta (deltas.map (·.timestamp)) = pair at prepared
  obtain ⟨posMem,posTail⟩ := pair
  obtain ⟨mem,memVersion,prepared⟩ := Option.bind_eq_some_iff.mp prepared
  have memRows : memOf deltas = mem.delta.rows := by
    rw [memOf,positions,memVersion]
    simp
  rw [memRows]
  cases posTail with
  | some j =>
    obtain ⟨tail,tailVersion,_⟩ := Option.bind_eq_some_iff.mp prepared
    have tailRows : tailOf deltas = tail.delta.rows := by
      rw [tailOf,positions,Option.bind_some,tailVersion]
      simp
    rw [tailRows]
    obtain ⟨i,rfl,memVersion⟩ := Option.bind_eq_some_iff.mp memVersion
    have several : deltas.length ≠ 1 := by
      intro single
      rw [positionTailAndMemDelta,List.length_map,if_neg (not_not_intro single)] at positions
      cases positions
    have some_ : 0 < deltas.length := List.length_pos_iff.mpr nonempty
    exact setsUp_several (by omega) positions memVersion tailVersion
  | none =>
    dsimp only at prepared
    split at prepared
    · cases prepared
    next single =>
      obtain ⟨only,rfl⟩ : ∃ only, deltas = [only] := by
        rw [← List.length_eq_one_iff]
        have some_ : 0 < deltas.length := List.length_pos_iff.mpr nonempty
        omega
      have first : positionTailAndMemDelta ([only].map (·.timestamp)) = (some 0,none) := by
        simp [positionTailAndMemDelta]
      obtain ⟨rfl,_⟩ := Prod.mk.inj (positions.symm.trans first)
      obtain rfl : only = mem := by simpa using memVersion
      rw [show tailOf [only] = [] by rw [tailOf,first]; rfl]
      exact setsUp_single only

theorem first_call {reader : TableBatchReader} {project : Row n α → σ} (nonempty : deltas ≠ [])
    {before after : BatchedState n α σ} {batch : TupleSet (Row n α)} {chunks : List (List σ)}
    (returns : stablesBatchedDeltaMerge reader project deltas before batch 1 = some (chunks,after)) :
    before.stableBm.isSome ∧ SetsUp deltas (memOf deltas) (tailOf deltas) := by
  refine ⟨(stablesBatchedDeltaMerge_length returns).2 nonempty,?_⟩
  have some_ : deltas.isEmpty = false := by simpa using nonempty
  unfold stablesBatchedDeltaMerge getBatchedKeepMap at returns
  simp only [some_,Bool.false_eq_true,if_false,if_true,Option.bind_eq_bind,Option.bind_none] at returns
  obtain ⟨_,kept,_⟩ := Option.bind_eq_some_iff.mp returns
  obtain ⟨fresh,prepared,_⟩ := Option.bind_eq_some_iff.mp kept
  exact setsUp_of_firstBatch nonempty prepared

private theorem batchedDeltaMerge_nil {reader : TableBatchReader} {project : Row n α → σ}
    (nonempty : deltas ≠ []) {stableBm stableBm' : Option (List Bool)} {chunks : List (List σ)}
    {mergedDelta : TupleSet (DeltaRow n α)}
    (returns : batchedDeltaMerge reader project deltas stableBm [] =
      some ⟨chunks,some ⟨mergedDelta,none⟩,stableBm'⟩) :
    mergedDelta.rows = firstRows deltas ∧ stableBm' = stableBm := by
  unfold batchedDeltaMerge at returns
  simp only [batchedStables,Option.bind_eq_bind,Option.bind_some] at returns
  obtain ⟨⟨rest,message⟩,called,returns⟩ := Option.bind_eq_some_iff.mp returns
  cases Option.some.inj returns
  refine ⟨?_,rfl⟩
  have idle : ∀ deltas : List (DeltaVersion n α), getBatchedKeepMap (.empty n α) deltas none stableBm 0 true =
      some (.empty n α,[],stableBm) := fun _ => rfl
  cases deltas with
  | nil => exact absurd rfl nonempty
  | cons first others =>
    rcases List.eq_nil_or_concat others with rfl | ⟨middle,last,rfl⟩
    · rw [deltasDeltaMerge_single reader project first (idle [first])] at called
      cases called
    · rw [List.concat_eq_append] at called ⊢
      rw [deltasDeltaMerge_several reader project first last middle (idle _)] at called
      obtain ⟨tuple,evaluated,called⟩ := Option.map_eq_some_iff.mp called
      have empty : tuple.rows = [] := by
        obtain ⟨covered,uncovered⟩ := evaluate_positions reader last.delta (List.Pairwise.nil (R := (· ≤ ·)))
        by_cases condition : last.delta.rows = [] ∨ Covers (· ∈ []) 0 (reader.batches last.delta)
        · obtain ⟨kept,returned,rows⟩ := covered condition
          rw [Option.some.inj (evaluated.symm.trans returned),rows]
          rfl
        · rw [uncovered condition] at evaluated
          cases evaluated
      cases called
      simp [empty,firstRows]

theorem batchedDeltaMerge_rows {reader : TableBatchReader} {project : Row n α → σ} (columns : 0 < n)
    (nonempty : deltas ≠ []) {stableBm stableBm' : Option (List Bool)} (cut : Cut batches)
    (size : ∀ bits, stableBm = some bits → bits.length = (batches.flatMap TupleSet.rows).length)
    {chunks : List (List σ)} {mergedDelta : TupleSet (DeltaRow n α)}
    (returns : batchedDeltaMerge reader project deltas stableBm batches =
      some ⟨chunks,some ⟨mergedDelta,none⟩,stableBm'⟩) :
    mergedDelta.rows = lastKept deltas (memOf deltas) (tailOf deltas) batches.length ++ firstRows deltas ∧
      stableBm'.map List.length = stableBm.map List.length := by
  rcases batches with _ | ⟨batch,batches⟩
  · obtain ⟨rows,same⟩ := batchedDeltaMerge_nil nonempty returns
    have none_ : lastKept deltas (memOf deltas) (tailOf deltas) 0 = [] := by
      have empty : survivors (memOf deltas) (tailOf deltas) 0 = [] :=
        List.filter_eq_nil_iff.mpr (fun _ _ hit => of_decide_eq_true hit)
      simp [lastKept,empty]
    rw [same,rows,List.length_nil,none_]
    exact ⟨rfl,rfl⟩
  · have first : ∃ pushed after, stablesBatchedDeltaMerge reader project deltas (.start stableBm) batch 1 =
        some (pushed,after) := by
      unfold batchedDeltaMerge batchedStables at returns
      obtain ⟨_,stables,_⟩ := Option.bind_eq_some_iff.mp returns
      obtain ⟨⟨pushed,after⟩,called,_⟩ := Option.bind_eq_some_iff.mp stables
      exact ⟨pushed,after,called⟩
    obtain ⟨pushed,after,called⟩ := first
    obtain ⟨there,sets⟩ := first_call nonempty called
    obtain ⟨bits,rfl⟩ := Option.isSome_iff_exists.mp there
    obtain ⟨completes,stuck⟩ := batchedDeltaMerge_spec reader project columns nonempty sets cut (size bits rfl)
    by_cases complete : BatchesFilled reader project (batch::batches) ∧
        Completes reader deltas (memOf deltas) (tailOf deltas) (batch::batches).length
    · obtain ⟨_,tuple,result,rows,_⟩ := completes complete.1 complete.2
      cases Option.some.inj (result.symm.trans returns)
      exact ⟨rows,by simp⟩
    · rw [stuck complete] at returns
      cases returns

theorem parts_ascending_iff (sorted : ∀ d ∈ deltas, Ascending (·.key) d.delta.rows) (mem tail : List (DeltaRow n α))
    (count : Nat) : Ascending (·.key) (lastKept deltas mem tail count ++ firstRows deltas) ↔
      ∀ r ∈ lastKept deltas mem tail count, ∀ r' ∈ firstRows deltas, r.key < r'.key := by
  have last : Ascending (·.key) (lastKept deltas mem tail count) := by
    unfold lastKept
    cases found : (deltas.drop 1).getLast? with
    | none => exact List.Pairwise.nil
    | some d =>
      have order := sorted d (List.mem_of_mem_drop (List.mem_of_getLast? found))
      rw [Option.toList_some,List.flatMap_singleton]
      unfold Ascending
      rw [List.pairwise_filterMap]
      apply (survivors_sorted mem tail count).imp
      intro i i' less r row r' row'
      exact (order.index_lt row row').mp less
  have first : Ascending (·.key) (firstRows deltas) := by
    cases deltas with
    | nil => exact List.Pairwise.nil
    | cons d rest => simpa [firstRows] using sorted d List.mem_cons_self
  unfold Ascending
  rw [List.pairwise_append]
  exact ⟨fun parts => parts.2.2,fun apart => ⟨last,first,apart⟩⟩

theorem deltaMerge_ascending {reader : TableBatchReader} {project : Row n α → σ} {stable : TupleSet (Row n α)}
    (input : SortedInput deltas stable) {j : Nat} {d : DeltaVersion n α} {rest : List (Int × DeltaRow n α)}
    (source : OneVersion deltas j d rest) {chunks : List (List σ)} {mergedDelta : TupleSet (DeltaRow n α)}
    {stableBm : Option (List Bool)}
    (returns : deltaMerge reader project deltas [stable] = some (chunks,some ⟨mergedDelta,stableBm⟩)) :
    Ascending (·.key) mergedDelta.rows := by
  obtain ⟨positions,bitmap,combined,kernel,_,concatenated,evaluated⟩ := deltaMerge_returns returns
  obtain ⟨keys,merge,result⟩ := getDeleteMap_eq input.columns input.stableOrder input.deltaOrder
  obtain ⟨rfl,_⟩ := Prod.mk.inj (Option.some.inj (result.symm.trans kernel))
  have nonempty : deltas ≠ [] := by
    rintro rfl
    cases concatenated
  obtain ⟨combined',concatenated',rows⟩ := combinedMemoryDelta_rows nonempty
  obtain rfl := Option.some.inj (concatenated'.symm.trans concatenated)
  obtain ⟨covered,uncovered⟩ := evaluate_positions reader combined'
    ((source.ascending input merge).imp le_of_lt)
  by_cases condition : combined'.rows = [] ∨
      Covers (· ∈ keys.filterMap (keptPosition deltas stable)) 0 (reader.batches combined')
  · obtain ⟨kept,returned,keptRows⟩ := covered condition
    obtain rfl := Option.some.inj (returned.symm.trans evaluated)
    rw [keptRows,rows]
    exact source.rows_ascending input merge
  · rw [uncovered condition] at evaluated
    cases evaluated

theorem cut_length {ρ : Type} {first second : List (TupleSet ρ)} (cutFirst : Cut first) (cutSecond : Cut second)
    (same : first.flatMap TupleSet.rows = second.flatMap TupleSet.rows) : first.length = second.length := by
  have bounds : ∀ batches : List (TupleSet ρ), Cut batches →
      batches.length*DefaultChunkSize < (batches.flatMap TupleSet.rows).length+DefaultChunkSize ∧
        (batches.flatMap TupleSet.rows).length ≤ batches.length*DefaultChunkSize := by
    intro batches cut
    induction batches with
    | nil => exact ⟨by simpa using defaultChunkSize_pos,by simp⟩
    | cons batch batches ih =>
      obtain ⟨some_,small,full,rest⟩ := cut
      obtain ⟨low,high⟩ := ih rest
      have size : batch.rows.length = batch.numRows := rfl
      rw [List.flatMap_cons,List.length_append,List.length_cons,Nat.succ_mul,size]
      refine ⟨?_,by omega⟩
      rcases batches with _ | ⟨next,batches⟩
      · simpa using some_
      · rw [full (List.cons_ne_nil _ _)]
        omega
  have lowFirst := bounds first cutFirst
  have lowSecond := bounds second cutSecond
  rw [same] at lowFirst
  have step : ∀ a b : Nat, a*DefaultChunkSize < (second.flatMap TupleSet.rows).length+DefaultChunkSize →
      (second.flatMap TupleSet.rows).length ≤ b*DefaultChunkSize → a ≤ b := by
    intro a b above below
    have less : a*DefaultChunkSize < (b+1)*DefaultChunkSize := by rw [Nat.succ_mul]; omega
    exact Nat.le_of_lt_succ (Nat.lt_of_mul_lt_mul_right less)
  exact le_antisymm (step _ _ lowFirst.1 lowSecond.2) (step _ _ lowSecond.1 lowFirst.2)

end Merges

variable {ω : Type} [DecidableEq ω] {α : Table → Type}

abbrev TableServer (ω : Type) (α : Table → Type) := Server ω Table.primaryKeyColumns α

abbrev TableEvent (ω : Type) (α : Table → Type) := Event ω Table.primaryKeyColumns α

abbrev TableStables (α : Table → Type) := Stables Table.primaryKeyColumns α

def Parsed (pump : Pump (Deltas Table.primaryKeyColumns α)) : Prop :=
  ∀ table, ∃ records : List (DeltaRow table.primaryKeyColumns (α table)),
    BinlogParser.pump table records = some (pump.deltas table)

/-- The pump of a load or of a timer. -/
def pumpOf (server : TableServer ω α) : TableEvent ω α → Option (Pump (Deltas Table.primaryKeyColumns α))
  | .loadMemoryDelta op msg pump deltas => (Action.loadMemoryDelta op msg pump deltas).pump server.system
  | .deltaPump pump => some pump
  | _ => none

/-- The batched calls of an operator share only the bitmap with the others, so the
merge is one step here. -/
inductive MergeStep (stable : TableStables α) : TableServer ω α → TableEvent ω α → TableServer ω α → Prop
  | single {before after : TableServer ω α} {event : TableEvent ω α} (step : StepTo stable before event after)
      (parsed : ∀ pump ∈ pumpOf before event, Parsed pump)
      (unbatched : ∀ op held, event ≠ .deltasDeltaMerge op held ∧
        ∀ batch batchCnt, event ≠ .stablesBatchedDeltaMerge op held batch batchCnt) :
      MergeStep stable before event after
  | batched {before : TableServer ω α} {op : ω} {held : Held (Deltas Table.primaryKeyColumns α) Nat} {σ : Type}
      (reader : TableBatchReader) (project : Row held.table.primaryKeyColumns (α held.table) → σ)
      {batches : List (TupleSet (Row held.table.primaryKeyColumns (α held.table)))} {chunks : List (List σ)}
      {mergedDelta : Deltas Table.primaryKeyColumns α held.table} {stableBm : Option (List Bool)}
      {next : System ω (Deltas Table.primaryKeyColumns α) Nat} (started : before.batched op = true)
      (cut : Cut batches) (whole : batches.flatMap TupleSet.rows = (stable held.table held.partition).rows)
      (returns : batchedDeltaMerge reader project held.deltas (read before.heap held.stableBm) batches =
        some ⟨chunks,some ⟨mergedDelta,none⟩,stableBm⟩)
      (moves : Step before.system (.storeMergedDelta op held ⟨mergedDelta,none⟩) next) :
      MergeStep stable before (.deltasDeltaMerge op held)
        {before with system := next, heap := write before.heap held.stableBm stableBm}

/-- The rows a merge takes fit together. Unbatched: all live winning rows stand in
the version that the concatenation of the first and the last delta starts with.
Batched: the surviving rows of the last delta come before those of the first. -/
def FitsTogether (stable : TableStables α) (event : TableEvent ω α) : Prop :=
  match event with
  | .deltaMerge _ held => ∃ j d rest, OneVersion held.deltas j d rest
  | .deltasDeltaMerge _ held => ∀ batches, Cut batches →
    batches.flatMap TupleSet.rows = (stable held.table held.partition).rows →
    ∀ r ∈ lastKept held.deltas (memOf held.deltas) (tailOf held.deltas) batches.length,
      ∀ r' ∈ firstRows held.deltas, r.key < r'.key
  | _ => True

def CachedAscending (server : TableServer ω α) : Prop :=
  ∀ table partition, ∀ d ∈ server.system.cached table partition, Ascending (·.key) d.delta.rows

structure Sorted (stable : TableStables α) (server : TableServer ω α) : Prop where
  cached : CachedAscending server
  held : ∀ op held, server.system.held op = some held → ∀ d ∈ held.deltas, Ascending (·.key) d.delta.rows
  tracked : Tracked stable server

section Steps
variable {stable : TableStables α} {before after : TableServer ω α} {event : TableEvent ω α}

theorem Parsed.ascending {pump : Pump (Deltas Table.primaryKeyColumns α)} (parsed : Parsed pump) {table : Table}
    {partition : Int} {delta : Deltas Table.primaryKeyColumns α table}
    (found : pump.delta table partition = some delta) : Ascending (·.key) delta.rows := by
  obtain ⟨records,pumped⟩ := parsed table
  obtain ⟨front,back,entries,_⟩ := List.lookup_eq_some_iff.mp found
  exact BinlogParser.pump_ascending pumped (partition,delta) (by rw [entries]; simp)

private theorem sorted_system {system next : System ω (Deltas Table.primaryKeyColumns α) Nat}
    {action : Action ω (Deltas Table.primaryKeyColumns α) Nat} (moves : Step system action next)
    (parsed : ∀ pump ∈ action.pump system, Parsed pump)
    (merged : ∀ op held msg, action = .storeMergedDelta op held msg → Ascending (·.key) msg.mergedDelta.rows)
    (cached : ∀ table partition, ∀ d ∈ system.cached table partition, Ascending (·.key) d.delta.rows)
    (loaded : ∀ op held, system.held op = some held → ∀ d ∈ held.deltas, Ascending (·.key) d.delta.rows) :
    (∀ table partition, ∀ d ∈ next.cached table partition, Ascending (·.key) d.delta.rows) ∧
      ∀ op held, next.held op = some held → ∀ d ∈ held.deltas, Ascending (·.key) d.delta.rows := by
  have nextCached : ∀ table partition, ∀ d ∈ next.cached table partition, Ascending (·.key) d.delta.rows := by
    intro table partition d member
    by_cases replaces : action.StoresTo table partition
    · cases action with
      | storeMergedDelta op held msg =>
        obtain ⟨rfl,rfl⟩ := replaces
        rw [moves.cached_store] at member
        obtain rfl := List.mem_singleton.mp member
        exact merged op held msg rfl
      | loadMemoryDelta op msg pump deltas => exact replaces.elim
      | deltaPump pump => exact replaces.elim
    · rw [moves.cached replaces] at member
      rcases List.mem_append.mp member with added | old
      · obtain ⟨pump,pumped,found⟩ := List.mem_flatMap.mp added
        obtain ⟨delta,looked,rfl⟩ := List.mem_map.mp found
        exact (parsed pump (Option.mem_toList.mp pumped)).ascending (Option.mem_toList.mp looked)
      · exact cached table partition d old
  refine ⟨nextCached,?_⟩
  intro op held found d member
  rcases moves.held found with ⟨old,_⟩ | ⟨_,perm⟩
  · exact loaded op held old d member
  · exact nextCached held.table held.partition d (perm.mem_iff.mp member)

private theorem loaded_store {system next : System ω (Deltas Table.primaryKeyColumns α) Nat} {op : ω}
    {held : Held (Deltas Table.primaryKeyColumns α) Nat}
    {msg : MergedDeltaMessage (Deltas Table.primaryKeyColumns α held.table) Nat}
    (moves : Step system (.storeMergedDelta op held msg) next) :
    system.held op = some held ∧ held.deltas ≠ [] := by
  cases moves with
  | storeMergedDelta _ _ loaded some_ => exact ⟨loaded,some_⟩

private theorem batched_ascending_iff (sorted : Sorted stable before) {op : ω}
    {held : Held (Deltas Table.primaryKeyColumns α) Nat} {σ : Type} {reader : TableBatchReader}
    {project : Row held.table.primaryKeyColumns (α held.table) → σ}
    {batches : List (TupleSet (Row held.table.primaryKeyColumns (α held.table)))} {chunks : List (List σ)}
    {mergedDelta : Deltas Table.primaryKeyColumns α held.table} {stableBm : Option (List Bool)}
    {next : System ω (Deltas Table.primaryKeyColumns α) Nat} (cut : Cut batches)
    (whole : batches.flatMap TupleSet.rows = (stable held.table held.partition).rows)
    (returns : batchedDeltaMerge reader project held.deltas (read before.heap held.stableBm) batches =
      some ⟨chunks,some ⟨mergedDelta,none⟩,stableBm⟩)
    (moves : Step before.system (.storeMergedDelta op held ⟨mergedDelta,none⟩) next) :
    (Ascending (·.key) mergedDelta.rows ↔ FitsTogether stable (.deltasDeltaMerge op held)) ∧
      stableBm.map List.length = (read before.heap held.stableBm).map List.length := by
  obtain ⟨loaded,nonempty⟩ := loaded_store moves
  have size : ∀ bits, read before.heap held.stableBm = some bits →
      bits.length = (batches.flatMap TupleSet.rows).length := by
    intro bits found
    rw [whole]
    exact (sorted.tracked.held op held loaded).length_eq found
  obtain ⟨rows,same⟩ := batchedDeltaMerge_rows held.table.primaryKeyColumns_pos nonempty cut size returns
  refine ⟨?_,same⟩
  rw [rows,parts_ascending_iff (sorted.held op held loaded)]
  constructor
  · intro apart batches' cut' whole'
    rw [cut_length cut' cut (whole'.trans whole.symm)]
    exact apart
  · exact fun fits => fits batches cut whole

theorem sorted_step (order : ∀ table partition, Ascending Row.key (stable table partition).rows)
    (sorted : Sorted stable before) (fits : FitsTogether stable event) (step : MergeStep stable before event after) :
    Sorted stable after := by
  cases step with
  | single step parsed unbatched =>
    have tracked := tracked_step sorted.tracked step
    cases step with
    | @loadMemoryDelta op msg pump deltas next moves =>
      obtain ⟨cached,held⟩ := sorted_system moves parsed (by simp) sorted.cached sorted.held
      exact ⟨cached,held,tracked⟩
    | deltaPump moves =>
      obtain ⟨cached,held⟩ := sorted_system moves parsed (by simp) sorted.cached sorted.held
      exact ⟨cached,held,tracked⟩
    | switch => exact ⟨sorted.cached,sorted.held,tracked⟩
    | @deltaMerge op held σ reader project chunks mergedDelta bits next _ returns moves =>
      obtain ⟨loaded,_⟩ := loaded_store moves
      obtain ⟨j,d,rest,source⟩ := fits
      have input : SortedInput held.deltas (stable held.table held.partition) :=
        ⟨held.table.primaryKeyColumns_pos,order held.table held.partition,sorted.held op held loaded⟩
      have ascending := deltaMerge_ascending input source returns
      obtain ⟨cached,held'⟩ := sorted_system moves (by simp [Action.pump])
        (by rintro _ _ _ ⟨⟩; exact ascending) sorted.cached sorted.held
      exact ⟨cached,held',tracked⟩
    | stablesBatchedDeltaMerge reader project batched loaded shared returns =>
      exact ⟨sorted.cached,sorted.held,tracked⟩
    | @deltasDeltaMerge op held => exact absurd rfl (unbatched op held).1
  | @batched op held σ reader project batches chunks mergedDelta stableBm next started cut whole returns moves =>
    obtain ⟨ascending,same⟩ := batched_ascending_iff sorted cut whole returns moves
    obtain ⟨cached,held'⟩ := sorted_system moves (by simp [Action.pump])
      (by rintro _ _ _ ⟨⟩; exact ascending.mpr fits) sorted.cached sorted.held
    have keeps : Keeps before.heap (write before.heap held.stableBm stableBm) := keeps_write same
    refine ⟨cached,held',?_,fun op' held'' found => (held_store sorted.tracked moves found).keeps keeps⟩
    intro table partition
    cases moves with
    | storeMergedDelta _ _ _ _ => exact (sorted.tracked.cached table partition).keeps keeps

end Steps

section Examples

abbrev NoPayload : Table → Type := fun _ => Unit

abbrev CustomerServer := TableServer Unit NoPayload

def inserts (keys : List Int32) : TupleSet (DeltaRow 1 Unit) :=
  .ofRows (keys.map (fun k => ⟨⟨singleKey k,()⟩,.insert⟩))

/-- A pump that finds new customers. -/
def pumpCustomers (keys : List Int32) (timestamp : Int) : Pump (Deltas Table.primaryKeyColumns NoPayload) where
  deltas := fun
    | .customer => [(0,inserts keys)]
    | _ => []
  timestamp := timestamp
  distinct := by intro table; cases table <;> simp

def noCustomer : TableStables NoPayload := fun _ _ => .ofRows []

private theorem parsed_pumpCustomers {keys : List Int32} {timestamp : Int}
    (parsed : BinlogParser.pump .customer (inserts keys).rows = some [(0,inserts keys)]) :
    Parsed (pumpCustomers keys timestamp) := by
  intro table
  cases table with
  | customer => exact ⟨_,parsed⟩
  | lineorder => exact ⟨[],rfl⟩
  | supplier => exact ⟨[],rfl⟩
  | part => exact ⟨[],rfl⟩
  | date => exact ⟨[],rfl⟩

def afterPump (server : CustomerServer) (keys : List Int32) (timestamp : Int) : CustomerServer :=
  {server with system := ⟨deltaPump server.system.actor (pumpCustomers keys timestamp),server.system.held⟩}

private theorem step_afterPump (server : CustomerServer) {keys : List Int32} (timestamp : Int)
    (parsed : BinlogParser.pump .customer (inserts keys).rows = some [(0,inserts keys)]) :
    MergeStep noCustomer server (.deltaPump (pumpCustomers keys timestamp)) (afterPump server keys timestamp) := by
  apply MergeStep.single (StepTo.deltaPump (Step.deltaPump _))
  · intro pump same
    obtain rfl := Option.mem_some_iff.mp same
    exact parsed_pumpCustomers parsed
  · simp

private theorem step_load (server : CustomerServer) {keys : List Int32} (timestamp : Int)
    (parsed : BinlogParser.pump .customer (inserts keys).rows = some [(0,inserts keys)]) :
    MergeStep noCustomer server (.loadMemoryDelta () ⟨.customer,0,1⟩ (pumpCustomers keys timestamp)
        (loadMemoryDelta server.system.actor ⟨.customer,0,1⟩ (pumpCustomers keys timestamp)).2.deltas)
      (server.afterLoad () ⟨.customer,0,1⟩ (pumpCustomers keys timestamp)) := by
  apply MergeStep.single (step_afterLoad noCustomer server () ⟨.customer,0,1⟩ _)
  · intro pump same
    obtain rfl : pumpCustomers keys timestamp = pump := by
      change pump ∈ (if (1 : Int) ≠ server.system.actor.queryId then some (pumpCustomers keys timestamp) else none) at same
      split at same
      · exact Option.mem_some_iff.mp same
      · cases same
    exact parsed_pumpCustomers parsed
  · simp

def heldCustomers (deltas : List (DeltaVersion 1 Unit)) : Held (Deltas Table.primaryKeyColumns NoPayload) Nat :=
  ⟨.customer,0,deltas,none⟩

private theorem step_merge (server : CustomerServer) {deltas : List (DeltaVersion 1 Unit)}
    {chunks : List (List (Row 1 Unit))} {mergedDelta : TupleSet (DeltaRow 1 Unit)}
    (unbatched : server.batched () = false) (loaded : server.system.held () = some (heldCustomers deltas))
    (some_ : deltas ≠ []) (returns : deltaMerge .chunked id deltas [.ofRows []] =
      some (chunks,some ⟨mergedDelta,some []⟩)) :
    MergeStep noCustomer server (.deltaMerge () (heldCustomers deltas))
      (server.afterMerge () (heldCustomers deltas) mergedDelta []) :=
  MergeStep.single (step_afterMerge unbatched loaded some_ returns) (by intro _ made; cases made) (by simp)

/-- Customers 1, 9 and 10 are pumped first. -/
def olderCustomers : CustomerServer := afterPump (Server.initial Unit _ NoPayload) [1,9,10] 1000

def bothVersions : List (DeltaVersion 1 Unit) := [⟨inserts [5],2000⟩,⟨inserts [1,9,10],1000⟩]

def onlyVersion : List (DeltaVersion 1 Unit) := [⟨inserts [5],2000⟩]

def loadedOnly : CustomerServer :=
  (Server.initial Unit _ NoPayload).afterLoad () ⟨.customer,0,1⟩ (pumpCustomers [5] 2000)

private theorem run_onlyVersion : ∃ events, Run (Meeting (fun _ => FitsTogether noCustomer) (MergeStep noCustomer))
    (Server.initial Unit _ NoPayload) events
    (loadedOnly.afterMerge () (heldCustomers onlyVersion) (inserts [5]) []) := by
  have load := step_load (Server.initial Unit _ NoPayload) 2000
    (rfl : BinlogParser.pump .customer (inserts [5]).rows = some [(0,inserts [5])])
  have merges : deltaMerge .chunked id onlyVersion [.ofRows []] =
      some ([[⟨singleKey 5,()⟩]],some ⟨inserts [5],some []⟩) := by decide
  have merge := step_merge loadedOnly rfl rfl (List.cons_ne_nil _ _) merges
  have none_ : ∀ d ∈ ([] : List (DeltaVersion 1 Unit)), ¬Contributes onlyVersion d := by simp
  have source : SingleSource onlyVersion (.ofRows []) 0 ⟨inserts [5],2000⟩ [] := singleSource_first none_
  have loads : FitsTogether noCustomer
      (.loadMemoryDelta () ⟨.customer,0,1⟩ (pumpCustomers [5] 2000) onlyVersion) := trivial
  have fits : FitsTogether noCustomer (.deltaMerge () (heldCustomers onlyVersion)) :=
    ⟨0,_,_,source.toOneVersion⟩
  exact ⟨_,(Run.nil.snoc ⟨loads,load⟩).snoc ⟨fits,merge⟩⟩

end Examples

end Hermes.SortedVersions
