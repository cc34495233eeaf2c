import Hermes.BatchedKeepMap
import Hermes.DeltaMergePOp

/-! What one batched merge emits and sends back, whatever its deltas.
The stable rows whose bit is still set go out first, then the rows of the last
delta at the positions left, then the first delta as it is. -/
namespace Hermes.BatchedDeltaMerge
open Hermes.Tuple Hermes.Delta Hermes.DeleteMapGeneratorKernel Hermes.KeepMapCacheMode
open Hermes.DeltaMergeFilter Hermes.DeltaMergePOp Hermes.BatchedKeepMap
open Hermes.Library.KeyOrder Hermes.Library.Chunks
variable {n : Nat} {α σ : Type}

/-- A table cut into batches: all are full but the last, and that has a row. -/
def Cut {ρ : Type} : List (TupleSet ρ) → Prop
  | [] => True
  | batch::batches => 0 < batch.numRows ∧ batch.numRows ≤ DefaultChunkSize ∧
    (batches ≠ [] → batch.numRows = DefaultChunkSize) ∧ Cut batches

/-- The stable row a search finds: the one in the first batch that has a hit. -/
def stableHit : Nat → List (TupleSet (Row n α)) → Int32 → Option Nat
  | _, [], _ => none
  | start, batch::batches, num =>
    match batchHit batch.rows num with
    | some pos => some (start+pos)
    | none => stableHit (start+DefaultChunkSize) batches num

def asked (mem tail : List (DeltaRow n α)) : List (DeltaRow n α) :=
  searched ((firstKm mem).map Prod.fst) (tail.filter (fun t => t.type = .update))

def hits (mem tail : List (DeltaRow n α)) (batches : List (TupleSet (Row n α))) : List Nat :=
  (asked mem tail).filterMap (fun t => stableHit 0 batches (firstColumn t.key))

/-- The memory rows kept after that many batches. After one batch the last call
sets the maps up again, after none they never are. -/
def Survives (mem tail : List (DeltaRow n α)) : Nat → Nat → Prop
  | 0, _ => False
  | 1, i => i < mem.length
  | _+2, i => i < mem.length ∧ ¬Superseded mem tail i

instance (mem tail : List (DeltaRow n α)) (count i : Nat) : Decidable (Survives mem tail count i) := by
  unfold Survives; split <;> infer_instance

def survivors (mem tail : List (DeltaRow n α)) (count : Nat) : List Nat :=
  (List.range mem.length).filter (fun i => Survives mem tail count i)

theorem survivors_sorted (mem tail : List (DeltaRow n α)) (count : Nat) :
    (survivors mem tail count).Pairwise (· < ·) :=
  List.pairwise_lt_range.sublist List.filter_sublist

theorem mem_survivors {mem tail : List (DeltaRow n α)} {count i : Nat} :
    i ∈ survivors mem tail count ↔ Survives mem tail count i := by
  unfold survivors
  rw [List.mem_filter,List.mem_range,decide_eq_true_eq,and_iff_right_iff_imp]
  unfold Survives
  split
  · exact False.elim
  · exact id
  · exact And.left

/-- The hits of the batches from one on, batch by batch. -/
def hitsFrom : Nat → List (TupleSet (Row n α)) → List (DeltaRow n α) → List Nat
  | _, [], _ => []
  | start, batch::batches, rows => batchHits batch.rows start rows ++
    hitsFrom (start+DefaultChunkSize) batches
      (rows.filter (fun t => (batchHit batch.rows (firstColumn t.key)).isNone))

theorem mem_hitsFrom {start : Nat} {batches : List (TupleSet (Row n α))} {rows : List (DeltaRow n α)}
    {s : Nat} : s ∈ hitsFrom start batches rows ↔
      ∃ t ∈ rows, stableHit start batches (firstColumn t.key) = some s := by
  induction batches generalizing start rows with
  | nil => simp [hitsFrom,stableHit]
  | cons batch batches ih =>
    unfold hitsFrom stableHit batchHits
    rw [List.mem_append,ih,List.mem_filterMap]
    constructor
    · rintro (⟨t,member,hit⟩ | ⟨t,member,hit⟩)
      · obtain ⟨pos,found,rfl⟩ := Option.map_eq_some_iff.mp hit
        exact ⟨t,member,by rw [found]⟩
      · obtain ⟨inside,missed⟩ := List.mem_filter.mp member
        exact ⟨t,inside,by rw [Option.isNone_iff_eq_none.mp missed]; exact hit⟩
    · rintro ⟨t,member,hit⟩
      cases found : batchHit batch.rows (firstColumn t.key) with
      | some pos =>
        rw [found] at hit
        exact Or.inl ⟨t,member,by rw [found]; exact hit⟩
      | none =>
        rw [found] at hit
        exact Or.inr ⟨t,List.mem_filter.mpr ⟨member,by rw [found]; rfl⟩,hit⟩

theorem clearBits_congr {first second : List Nat} (same : ∀ s, s ∈ first ↔ s ∈ second) (bits : List Bool) :
    clearBits first bits = clearBits second bits := by
  apply List.ext_getElem?
  intro s
  simp only [getElem?_clearBits,same]

section Stables
variable {project : Row n α → σ} {deltas : List (DeltaVersion n α)}
  {tail left : List (DeltaRow n α)} {positions : List (Nat × List Int32)}

/-- The operator before batch `batchCnt`: it has filtered the rows `before`, and
has pushed all but the last of them. -/
structure Merging (project : Row n α → σ) (deltas : List (DeltaVersion n α)) (tail : List (DeltaRow n α))
    (positions : List (Nat × List Int32)) (left : List (DeltaRow n α)) (op : BatchedState n α σ)
    (bits : List Bool) (before : List (Row n α)) (batchCnt : Nat) : Prop where
  bitmap : op.stableBm = some bits
  data : op.evaluatedData.getD [] = (keepRows bits before).map project
  chunk : op.chunkCounter*DefaultChunkSize ≤ (op.evaluatedData.getD []).length
  mode : ∃ keepMap, (if batchCnt = 1 then firstBatch deltas op.keepMapCacheMode
    else some op.keepMapCacheMode) = some keepMap ∧ Ready tail left positions keepMap

private theorem batch_slice {size batchRows batchCnt : Nat} {before : Nat} (counted : 1 ≤ batchCnt)
    (start : DefaultChunkSize*(batchCnt-1) = before) (room : before+batchRows ≤ size)
    (small : batchRows ≤ DefaultChunkSize) (cut : batchRows = DefaultChunkSize ∨ size = before+batchRows) :
    (if size < DefaultChunkSize*batchCnt then size else DefaultChunkSize*batchCnt) = before+batchRows := by
  have next : DefaultChunkSize*batchCnt = before+DefaultChunkSize := by
    obtain ⟨c,rfl⟩ : ∃ c, batchCnt = c+1 := ⟨batchCnt-1,by omega⟩
    rw [← start,Nat.mul_succ,Nat.add_sub_cancel]
  split <;> omega

private theorem keepRows_batch {ρ : Type} {cleared : List Nat} {before : List ρ} (batch : List ρ)
    (bits : List Bool) (above : ∀ s ∈ cleared, before.length ≤ s) (room : before.length ≤ bits.length) :
    keepRows (clearBits cleared bits) (before ++ batch) = keepRows bits before ++
      keepRows (((clearBits cleared bits).drop before.length).take batch.length) batch := by
  rw [keepRows_append _ _ _ (by rw [length_clearBits]; exact room),take_clearBits above,keepRows_take,
    keepRows_take]

private theorem batchHits_ge {batch : List (Row n α)} {start s : Nat} {rows : List (DeltaRow n α)}
    (member : s ∈ batchHits batch start rows) : start ≤ s := by
  obtain ⟨t,_,hit⟩ := List.mem_filterMap.mp member
  obtain ⟨pos,_,rfl⟩ := Option.map_eq_some_iff.mp hit
  exact Nat.le_add_right _ _

/-- One call, whatever batches came before: the rows of the batch are filtered by
their slice of the bitmap, with the bits of the hits cleared. -/
theorem stablesBatchedDeltaMerge_batch {reader : TableBatchReader} (columns : 0 < n) (nonempty : deltas ≠ [])
    (several : tail = [] ∨ 1 < deltas.length) {op : BatchedState n α σ} {bits : List Bool} {keepMap : KeepMap n α}
    {batchCnt start : Nat} {batch : TupleSet (Row n α)} (bitmap : op.stableBm = some bits)
    (chunk : op.chunkCounter*DefaultChunkSize ≤ (op.evaluatedData.getD []).length)
    (prepared : (if batchCnt = 1 then firstBatch deltas op.keepMapCacheMode
      else some op.keepMapCacheMode) = some keepMap)
    (ready : Ready tail left positions keepMap) (counted : 1 ≤ batchCnt)
    (origin : DefaultChunkSize*(batchCnt-1) = start) (room : start+batch.numRows ≤ bits.length)
    (some_ : 0 < batch.numRows) (small : batch.numRows ≤ DefaultChunkSize)
    (cut : batch.numRows = DefaultChunkSize ∨ bits.length = start+batch.numRows)
    (full : Filled reader (batch.projectExist project)) :
    ∃ pushed op', stablesBatchedDeltaMerge reader project deltas op batch batchCnt = some (pushed,op') ∧
      op'.stableBm = some (clearBits (batchHits batch.rows start left) bits) ∧
      op'.evaluatedData = some (op.evaluatedData.getD [] ++
        (keepRows (((clearBits (batchHits batch.rows start left) bits).drop start).take batch.rows.length)
          batch.rows).map project) ∧
      op'.chunkCounter*DefaultChunkSize ≤ (op'.evaluatedData.getD []).length ∧
      Ready tail (left.filter (fun t => (batchHit batch.rows (firstColumn t.key)).isNone)) positions
        op'.keepMapCacheMode ∧
      op'.keepMapCacheMode.deltasPos = positions ∧
      (op.evaluatedData.getD []).take (op.chunkCounter*DefaultChunkSize) ++ pushed.flatten =
        (op'.evaluatedData.getD []).take (op'.chunkCounter*DefaultChunkSize) := by
  have swap : (batchCnt-1)*DefaultChunkSize = start := by rw [Nat.mul_comm,origin]
  have rows_ : batch.rows ≠ [] := List.ne_nil_of_length_pos some_
  have room' : (batchCnt-1)*DefaultChunkSize+batch.rows.length ≤ bits.length := by rw [swap]; exact room
  obtain ⟨keepMap',returned,ready',left_⟩ := ready.getBatchedKeepMap columns several prepared rows_ room'
  rw [swap] at returned
  have filled : deltas.isEmpty = false := by simpa using nonempty
  have last := batch_slice counted origin room small cut
  have inside : ¬start+batch.numRows < start := by omega
  have width : start+batch.numRows-start = batch.rows.length := by
    rw [Nat.add_sub_cancel_left]
    rfl
  have size : (batch.projectExist project).numRows ≤
      (((clearBits (batchHits batch.rows start left) bits).drop start).take batch.rows.length).length := by
    simp only [TupleSet.numRows_projectExist,List.length_take,List.length_drop,length_clearBits]
    simp only [TupleSet.numRows] at room ⊢
    omega
  obtain ⟨kept,evaluated,rows⟩ := evaluate_bitmap _ size full
  rw [TupleSet.rows_projectExist,keepRows_project] at rows
  unfold stablesBatchedDeltaMerge
  simp only [filled,Bool.false_eq_true,if_false,bitmap,returned,Option.bind_eq_bind,
    Option.bind_some,length_clearBits,last,origin,if_neg inside,width,evaluated,← rows]
  have grown : (op.evaluatedData.getD [] ++ kept.rows).take (op.chunkCounter*DefaultChunkSize) = _ :=
    List.take_append_of_le_length chunk
  by_cases full : fullChunk (op.evaluatedData.getD [] ++ kept.rows) op.chunkCounter = true
  · rw [if_pos full,if_pos full]
    refine ⟨_,_,rfl,rfl,rfl,?_,ready',left_,?_⟩
    · simpa [fullChunk] using full
    · change _ = (op.evaluatedData.getD [] ++ kept.rows).take ((op.chunkCounter+1)*DefaultChunkSize)
      rw [Nat.succ_mul,List.take_add,grown,List.flatten_cons,List.flatten_nil,List.append_nil]
      rfl
  · rw [if_neg full,if_neg full]
    refine ⟨_,_,rfl,rfl,rfl,?_,ready',left_,?_⟩
    · exact le_trans chunk (by simp)
    · rw [List.flatten_nil,List.append_nil]
      exact grown.symm

theorem stablesBatchedDeltaMerge_step {reader : TableBatchReader} (columns : 0 < n) (nonempty : deltas ≠ [])
    (several : tail = [] ∨ 1 < deltas.length) {op : BatchedState n α σ} {bits : List Bool}
    {before : List (Row n α)} {batchCnt : Nat} {batch : TupleSet (Row n α)}
    (merging : Merging project deltas tail positions left op bits before batchCnt)
    (counted : 1 ≤ batchCnt) (start : DefaultChunkSize*(batchCnt-1) = before.length)
    (room : before.length+batch.numRows ≤ bits.length) (some_ : 0 < batch.numRows)
    (small : batch.numRows ≤ DefaultChunkSize)
    (cut : batch.numRows = DefaultChunkSize ∨ bits.length = before.length+batch.numRows)
    (full : Filled reader (batch.projectExist project)) :
    ∃ pushed op', stablesBatchedDeltaMerge reader project deltas op batch batchCnt = some (pushed,op') ∧
      Merging project deltas tail positions
        (left.filter (fun t => (batchHit batch.rows (firstColumn t.key)).isNone)) op'
        (clearBits (batchHits batch.rows before.length left) bits) (before ++ batch.rows) (batchCnt+1) ∧
      op'.keepMapCacheMode.deltasPos = positions ∧ op'.evaluatedData.isSome ∧
      (op.evaluatedData.getD []).take (op.chunkCounter*DefaultChunkSize) ++ pushed.flatten =
        (op'.evaluatedData.getD []).take (op'.chunkCounter*DefaultChunkSize) := by
  obtain ⟨keepMap,prepared,ready⟩ := merging.mode
  obtain ⟨pushed,op',returned,bitmap,data,chunk,ready',left_,front⟩ := stablesBatchedDeltaMerge_batch
    columns nonempty several merging.bitmap merging.chunk prepared ready counted start room some_ small cut full
  refine ⟨pushed,op',returned,⟨bitmap,?_,chunk,op'.keepMapCacheMode,?_,ready'⟩,left_,by rw [data]; rfl,front⟩
  · rw [data,Option.getD_some,merging.data,← List.map_append,
      keepRows_batch _ _ (fun s => batchHits_ge) (by omega)]
  · rw [if_neg (by omega)]

structure Merged (project : Row n α → σ) (positions : List (Nat × List Int32)) (op op' : BatchedState n α σ)
    (bits : List Bool) (rows : List (Row n α)) (batches : List (TupleSet (Row n α)))
    (pushed : List (List σ)) : Prop where
  bitmap : op'.stableBm = some bits
  data : op'.evaluatedData.getD [] = (keepRows bits rows).map project
  chunk : op'.chunkCounter*DefaultChunkSize ≤ (op'.evaluatedData.getD []).length
  pushed : (op.evaluatedData.getD []).take (op.chunkCounter*DefaultChunkSize) ++ pushed.flatten =
    (op'.evaluatedData.getD []).take (op'.chunkCounter*DefaultChunkSize)
  idle : batches = [] → op' = op
  ran : batches ≠ [] → op'.keepMapCacheMode.deltasPos = positions ∧ op'.evaluatedData.isSome

theorem batchedStables_run {reader : TableBatchReader} (columns : 0 < n) (nonempty : deltas ≠ [])
    (several : tail = [] ∨ 1 < deltas.length) {op : BatchedState n α σ} {bits : List Bool}
    {before : List (Row n α)} {batchCnt : Nat} {batches : List (TupleSet (Row n α))}
    (merging : Merging project deltas tail positions left op bits before batchCnt)
    (counted : 1 ≤ batchCnt) (start : batches ≠ [] → DefaultChunkSize*(batchCnt-1) = before.length)
    (size : bits.length = before.length+(batches.flatMap TupleSet.rows).length) (cut : Cut batches)
    (filled : BatchesFilled reader project batches) :
    ∃ pushed op', batchedStables reader project deltas op batchCnt batches = some (pushed,op') ∧
      Merged project positions op op' (clearBits (hitsFrom before.length batches left) bits)
        (before ++ batches.flatMap TupleSet.rows) batches pushed := by
  induction batches generalizing op bits before batchCnt left with
  | nil =>
    refine ⟨[],op,rfl,merging.bitmap,?_,merging.chunk,by simp,fun _ => rfl,fun absurd_ => absurd rfl absurd_⟩
    rw [merging.data,List.flatMap_nil,List.append_nil]
    rfl
  | cons batch batches ih =>
    obtain ⟨some_,small,full,rest⟩ := cut
    rw [List.flatMap_cons,List.length_append] at size
    have rows : batch.rows.length = batch.numRows := rfl
    have last : batch.numRows = DefaultChunkSize ∨ bits.length = before.length+batch.numRows := by
      rcases List.eq_nil_or_concat batches with rfl | ⟨_,_,rfl⟩
      · exact Or.inr (by simpa [rows] using size)
      · exact Or.inl (full (by simp))
    obtain ⟨pushed,op₁,returned,merging₁,positions₁,data₁,pushed₁⟩ :=
      stablesBatchedDeltaMerge_step columns nonempty several merging counted
        (start (List.cons_ne_nil _ _)) (by omega) some_ small last (filled batch List.mem_cons_self)
    obtain ⟨more,op₂,returned₂,merged⟩ := ih merging₁ (by omega)
      (by
        intro some_rest
        rw [List.length_append,rows,full some_rest,← start (List.cons_ne_nil _ _),Nat.add_sub_cancel,
          ← Nat.mul_succ]
        congr 1
        omega)
      (by rw [length_clearBits,List.length_append]; omega) rest (List.forall_mem_cons.mp filled).2
    have hits : clearBits (hitsFrom (before ++ batch.rows).length batches
          (left.filter (fun t => (batchHit batch.rows (firstColumn t.key)).isNone)))
          (clearBits (batchHits batch.rows before.length left) bits) =
        clearBits (hitsFrom before.length (batch::batches) left) bits := by
      rw [hitsFrom,clearBits_append]
      cases batches with
      | nil => rfl
      | cons next batches => rw [List.length_append,rows,full (List.cons_ne_nil _ _)]
    rw [hits,List.append_assoc,← List.flatMap_cons] at merged
    refine ⟨pushed ++ more,op₂,?_,merged.bitmap,merged.data,merged.chunk,?_,
      fun nil => absurd nil (List.cons_ne_nil _ _),fun _ => ?_⟩
    · simp only [batchedStables,returned,returned₂,Option.bind_eq_bind,Option.bind_some]
    · rw [List.flatten_append,← List.append_assoc,pushed₁,merged.pushed]
    · cases batches with
      | nil =>
        rw [merged.idle rfl]
        exact ⟨positions₁,data₁⟩
      | cons next batches => exact merged.ran (List.cons_ne_nil _ _)

end Stables

section Whole
variable {deltas : List (DeltaVersion n α)} {mem tail : List (DeltaRow n α)}

/-- The maps are set up with the memory rows `mem`, and a fresh one with the tail rows `tail`. -/
structure SetsUp (deltas : List (DeltaVersion n α)) (mem tail : List (DeltaRow n α)) : Prop where
  several : tail = [] ∨ 1 < deltas.length
  setup : ∀ keepMap : KeepMap n α, ∃ fresh, firstBatch deltas keepMap = some (emplaceAll mem fresh) ∧
    fresh.primaryKeyColumnNames = n ∧ fresh.deltasKm = keepMap.deltasKm ∧
    fresh.deltasPos = keepMap.deltasPos ∧
    (keepMap.tail = [] → fresh.tail = tail ∧ fresh.seen = tail.map (fun _ => false))

theorem setsUp_single (only : DeltaVersion n α) : SetsUp [only] only.delta.rows [] := by
  refine ⟨Or.inl rfl,fun keepMap =>
    ⟨{keepMap with primaryKeyColumnNames := n, seen := []},?_,rfl,rfl,rfl,fun empty => ⟨empty,rfl⟩⟩⟩
  simp [firstBatch,positionTailAndMemDelta]

theorem setsUp_several (several : 1 < deltas.length) {i j : Nat} {mem tail : DeltaVersion n α}
    (positions : positionTailAndMemDelta (deltas.map (·.timestamp)) = (some i,some j))
    (memVersion : deltas[i]? = some mem) (tailVersion : deltas[j]? = some tail) :
    SetsUp deltas mem.delta.rows tail.delta.rows := by
  refine ⟨Or.inr several,fun keepMap => ⟨{keepMap with
    primaryKeyColumnNames := n
    tail := tail.delta.rows
    seen := tail.delta.rows.map (fun _ => false)},?_,rfl,rfl,rfl,fun _ => ⟨rfl,rfl⟩⟩⟩
  simp [firstBatch,positions,memVersion,tailVersion]

/-- The rows of the last delta that are sent back, behind no other delta. -/
def lastKept (deltas : List (DeltaVersion n α)) (mem tail : List (DeltaRow n α)) (count : Nat) :
    List (DeltaRow n α) :=
  (deltas.drop 1).getLast?.toList.flatMap
    (fun last => (survivors mem tail count).filterMap (last.delta.rows[·]?))

def firstRows (deltas : List (DeltaVersion n α)) : List (DeltaRow n α) :=
  (deltas.take 1).flatMap (fun first => first.delta.rows)

/-- The last call has what it reads: a batch's rows if there is one delta only, and
otherwise a memory row left in every record batch of the last delta. -/
def Completes (reader : TableBatchReader) (deltas : List (DeltaVersion n α))
    (mem tail : List (DeltaRow n α)) (count : Nat) : Prop :=
  match (deltas.drop 1).getLast? with
  | none => count ≠ 0
  | some last => last.delta.rows = [] ∨ Covers (Survives mem tail count) 0 (reader.batches last.delta)

theorem ready_start (sets : SetsUp deltas mem tail) :
    ∃ keepMap, firstBatch deltas (.empty n α) = some keepMap ∧
      Ready tail (asked mem tail)
        (keptPos (tail.filter (fun t => t.type = .update)) (firstKm mem) (allPos mem)) keepMap := by
  obtain ⟨fresh,returned,names,km,pos,rest⟩ := sets.setup (.empty n α)
  obtain ⟨rows,seen⟩ := rest rfl
  have maps : fresh.deltasKm = [] ∧ fresh.deltasPos = [] := ⟨km,pos⟩
  rw [emplaceAll_eq,maps.1,maps.2,emplaceAll_allPos (List.nil_sublist _)] at returned
  refine ⟨_,returned,names,rows,by rw [seen]; simp,firstKm_ascending mem,?_,?_⟩
  · rw [seen,pending_fresh]
    rfl
  · rw [seen,pending_fresh]
    rfl

theorem getBatchedKeepMap_last {keepMap : KeepMap n α} {count : Nat}
    (sets : count ≠ 0 → SetsUp deltas mem tail) (idle : count = 0 → keepMap.deltasPos = [])
    (ran : count ≠ 0 → keepMap.deltasPos =
      keptPos (tail.filter (fun t => t.type = .update)) (firstKm mem) (allPos mem))
    (stableBm : Option (List Bool)) :
    ∃ keepMap', getBatchedKeepMap keepMap deltas none stableBm count true =
      some (keepMap',survivors mem tail count,stableBm) := by
  unfold getBatchedKeepMap
  match count with
  | 0 =>
    have none_ : survivors mem tail 0 = [] := 
      List.filter_eq_nil_iff.mpr (fun _ _ hit => of_decide_eq_true hit)
    exact ⟨keepMap,by simp [idle rfl,none_]⟩
  | 1 =>
    obtain ⟨fresh,returned,_,_,pos,_⟩ := (sets Nat.one_ne_zero).setup keepMap
    have sublist : fresh.deltasPos.Sublist (allPos mem) := by
      rw [pos,ran Nat.one_ne_zero]
      exact List.filter_sublist
    have all : survivors mem tail 1 = List.range mem.length := by
      unfold survivors
      rw [List.filter_eq_self]
      intro i member
      exact decide_eq_true (List.mem_range.mp member)
    refine ⟨emplaceAll mem fresh,?_⟩
    have positions : (emplaceAll mem fresh).deltasPos.map (·.1) = survivors mem tail 1 := by
      rw [emplaceAll_eq,all,← allPos_fst]
      exact congrArg _ (emplaceAll_allPos sublist)
    simp [returned,positions]
  | count+2 =>
    have left : survivors mem tail (count+2) =
        (List.range mem.length).filter (fun i => ¬Superseded mem tail i) := by
      apply List.filter_congr
      intro i member
      simp [Survives,List.mem_range.mp member]
    refine ⟨keepMap,?_⟩
    have positions : keepMap.deltasPos.map (·.1) = survivors mem tail (count+2) := by
      rw [ran (by omega),left]
      exact keptPos_updates mem tail
    simp [positions]

theorem deltasDeltaMerge_single (reader : TableBatchReader) (project : Row n α → σ)
    (only : DeltaVersion n α) {op : BatchedState n α σ} {count : Nat} {positions : List Nat}
    {keepMap : KeepMap n α}
    (kept : getBatchedKeepMap op.keepMapCacheMode [only] none op.stableBm count true =
      some (keepMap,positions,op.stableBm)) :
    deltasDeltaMerge reader project [only] op count = op.evaluatedData.map (fun stables =>
      let evaluatedData := stables ++ only.delta.rows.map (fun r => project r.toRow)
      (pushAll (fullChunk evaluatedData) DefaultChunkSize evaluatedData evaluatedData.length op.chunkCounter,
        some ⟨only.delta.combine,none⟩)) := by
  unfold deltasDeltaMerge
  cases op.evaluatedData <;> simp [kept]

theorem deltasDeltaMerge_several (reader : TableBatchReader) (project : Row n α → σ)
    (first last : DeltaVersion n α) (middle : List (DeltaVersion n α)) {op : BatchedState n α σ} {count : Nat}
    {positions : List Nat} {keepMap : KeepMap n α}
    (kept : getBatchedKeepMap op.keepMapCacheMode (first::(middle ++ [last])) none op.stableBm count true =
      some (keepMap,positions,op.stableBm)) :
    deltasDeltaMerge reader project (first::(middle ++ [last])) op count =
      (evaluate reader positions none last.delta).map (fun tuple =>
        let evaluatedData := op.evaluatedData.getD [] ++ tuple.rows.map (fun r => project r.toRow) ++
          first.delta.rows.map (fun r => project r.toRow)
        (pushAll (fullChunk evaluatedData) DefaultChunkSize evaluatedData evaluatedData.length op.chunkCounter,
          some ⟨(tuple.append first.delta).combine,none⟩)) := by
  unfold deltasDeltaMerge
  cases evaluated : evaluate reader positions none last.delta <;> simp [kept,evaluated]

theorem clearBits_hits (mem tail : List (DeltaRow n α)) (batches : List (TupleSet (Row n α)))
    (bits : List Bool) :
    clearBits (hitsFrom 0 batches (asked mem tail)) bits = clearBits (hits mem tail batches) bits := by
  apply clearBits_congr
  intro s
  rw [mem_hitsFrom,hits,List.mem_filterMap]

/-- The last call of an operator that has pushed the front of its rows: it stops where
it reads what is not there, and otherwise pushes all the rest. -/
theorem deltasDeltaMerge_spec (reader : TableBatchReader) (project : Row n α → σ) (nonempty : deltas ≠ [])
    {op : BatchedState n α σ} {count : Nat} (sets : count ≠ 0 → SetsUp deltas mem tail)
    (chunk : op.chunkCounter*DefaultChunkSize ≤ (op.evaluatedData.getD []).length)
    (idle : count = 0 → op.keepMapCacheMode.deltasPos = [] ∧ op.evaluatedData = none)
    (ran : count ≠ 0 → op.keepMapCacheMode.deltasPos =
      keptPos (tail.filter (fun t => t.type = .update)) (firstKm mem) (allPos mem) ∧ op.evaluatedData.isSome) :
    (Completes reader deltas mem tail count → ∃ chunks tuple,
      deltasDeltaMerge reader project deltas op count = some (chunks,some ⟨tuple,none⟩) ∧
      tuple.rows = lastKept deltas mem tail count ++ firstRows deltas ∧
      (op.evaluatedData.getD []).take (op.chunkCounter*DefaultChunkSize) ++ chunks.flatten =
        op.evaluatedData.getD [] ++ (tuple.rows.map (·.toRow)).map project) ∧
    (¬Completes reader deltas mem tail count → deltasDeltaMerge reader project deltas op count = none) := by
  obtain ⟨keepMap',positions⟩ := getBatchedKeepMap_last sets (fun none_ => (idle none_).1)
    (fun some_ => (ran some_).1) op.stableBm
  have emitted : ∀ rows : List σ, (op.evaluatedData.getD []).take (op.chunkCounter*DefaultChunkSize) ++
      (op.evaluatedData.getD [] ++ rows).drop (op.chunkCounter*DefaultChunkSize) =
        op.evaluatedData.getD [] ++ rows := by
    intro rows
    rw [← List.take_append_of_le_length chunk,List.take_append_drop]
  cases deltas with
  | nil => exact absurd rfl nonempty
  | cons first rest =>
    rcases List.eq_nil_or_concat rest with rfl | ⟨middle,last,rfl⟩
    · rw [deltasDeltaMerge_single reader project first positions]
      constructor
      · intro completes
        obtain ⟨stables,data⟩ := Option.isSome_iff_exists.mp (ran completes).2
        rw [data,Option.map_some]
        refine ⟨_,_,rfl,by simp [lastKept,firstRows],?_⟩
        have all := emitted (first.delta.rows.map (fun r => project r.toRow))
        rw [data,Option.getD_some] at all
        rw [pushAll_flatten,Option.getD_some,all,TupleSet.rows_combine]
        simp [Function.comp_def]
      · intro open_
        have none_ : count = 0 := not_not.mp open_
        rw [(idle none_).2]
        rfl
    · rw [List.concat_eq_append] at positions ⊢
      rw [deltasDeltaMerge_several reader project first last middle positions]
      have completes_iff : Completes reader (first::(middle ++ [last])) mem tail count ↔
          last.delta.rows = [] ∨ Covers (· ∈ survivors mem tail count) 0 (reader.batches last.delta) := by
        have covers : (· ∈ survivors mem tail count) = Survives mem tail count :=
          funext fun i => propext mem_survivors
        simp [Completes,covers]
      obtain ⟨covered,uncovered⟩ := evaluate_positions reader last.delta
        ((survivors_sorted mem tail count).imp le_of_lt)
      rw [completes_iff]
      constructor
      · intro completes
        obtain ⟨kept,evaluated,rows⟩ := covered completes
        rw [evaluated,Option.map_some]
        refine ⟨_,_,rfl,by simp [lastKept,firstRows,rows],?_⟩
        rw [pushAll_flatten,List.append_assoc,emitted]
        simp [Function.comp_def]
      · intro open_
        rw [uncovered open_]
        rfl

/-- Everything one batched merge does: it stops where a batch cannot be filtered or the
last call reads what is not there, and otherwise emits the three parts. -/
theorem batchedDeltaMerge_spec (reader : TableBatchReader) (project : Row n α → σ) (columns : 0 < n)
    (nonempty : deltas ≠ []) (sets : SetsUp deltas mem tail) {batches : List (TupleSet (Row n α))}
    (cut : Cut batches) {bits : List Bool}
    (size : bits.length = (batches.flatMap TupleSet.rows).length) :
    (BatchesFilled reader project batches → Completes reader deltas mem tail batches.length → ∃ chunks tuple,
      batchedDeltaMerge reader project deltas (some bits) batches =
        some ⟨chunks,some ⟨tuple,none⟩,some (clearBits (hits mem tail batches) bits)⟩ ∧
      tuple.rows = lastKept deltas mem tail batches.length ++ firstRows deltas ∧
      chunks.flatten = (keepRows (clearBits (hits mem tail batches) bits) (batches.flatMap TupleSet.rows) ++
        tuple.rows.map (·.toRow)).map project) ∧
    (¬(BatchesFilled reader project batches ∧ Completes reader deltas mem tail batches.length) →
      batchedDeltaMerge reader project deltas (some bits) batches = none) := by
  by_cases filled : BatchesFilled reader project batches
  · obtain ⟨keepMap,prepared,ready⟩ := ready_start sets
    have merging : Merging project deltas tail
        (keptPos (tail.filter (fun t => t.type = .update)) (firstKm mem) (allPos mem)) (asked mem tail)
        (.start (some bits)) bits [] 1 := by
      refine ⟨rfl,by simp [BatchedState.start,keepRows],by simp [BatchedState.start],keepMap,?_,ready⟩
      rw [if_pos rfl]
      exact prepared
    have origin : DefaultChunkSize*(1-1) = ([] : List (Row n α)).length := by simp
    obtain ⟨pushed,op,returned,merged⟩ := batchedStables_run columns nonempty
      sets.several merging (le_refl _) (fun _ => origin)
      (by rw [List.length_nil,Nat.zero_add]; exact size) cut filled
    rw [List.length_nil,List.nil_append,clearBits_hits] at merged
    obtain ⟨completed,stuck⟩ := deltasDeltaMerge_spec reader project nonempty (fun _ => sets) merged.chunk
      (fun none_ => by rw [merged.idle (List.length_eq_zero_iff.mp none_)]; exact ⟨rfl,rfl⟩)
      (fun some_ => merged.ran (by simpa using some_))
    unfold batchedDeltaMerge
    simp only [returned,Option.bind_eq_bind,Option.bind_some]
    constructor
    · intro _ completes
      obtain ⟨chunks,tuple,returned',rows,all⟩ := completed completes
      rw [returned',Option.bind_some,merged.bitmap]
      refine ⟨_,_,rfl,rows,?_⟩
      have front : pushed.flatten = (op.evaluatedData.getD []).take (op.chunkCounter*DefaultChunkSize) := by
        rw [← merged.pushed]
        simp [BatchedState.start]
      rw [List.flatten_append,front,all,merged.data,List.map_append]
    · intro open_
      rw [stuck (fun completes => open_ ⟨filled,completes⟩)]
      rfl
  · refine ⟨fun all => absurd all filled,fun _ => ?_⟩
    rw [batchedDeltaMerge,batchedStables_unfilled nonempty filled]
    rfl

end Whole

end Hermes.BatchedDeltaMerge
