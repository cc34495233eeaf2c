import Hermes.SortedVersions
import Mathlib.Algebra.Ring.Int.Defs

/-! `DeltaMergePOp::onReceive`, whatever order its messages arrive in.
Stable batches that come before the deltas are parked with their numbers; the
first of them is merged when the deltas arrive, the others when all producers
have completed, after all batches that came later. -/
namespace Hermes.DeltaMergeArrival
open Hermes.Tuple Hermes.Delta Hermes.DeleteMapGeneratorKernel Hermes.KeepMapCacheMode
open Hermes.DeltaMergeFilter Hermes.DeltaMergePOp
open Hermes.BatchedKeepMap Hermes.BatchedDeltaMerge Hermes.BitmapAvailability Hermes.SortedVersions
open Hermes.Library.Chunks
variable {n : Nat} {α σ : Type}

/-- A COMPLETE message tells whether all producers have completed by now. -/
inductive Message (n : Nat) (α : Type)
  | tuple (tuples : TupleSet (Row n α))
  | loadResponse (deltas : List (DeltaVersion n α)) (stableBm : Option (List Bool))
  | complete (allProducersComplete : Bool)

inductive Call (n : Nat) (α : Type)
  | deltaMerge
  | stablesBatchedDeltaMerge (batch : TupleSet (Row n α)) (batchCnt : Nat)
  | deltasDeltaMerge
deriving DecidableEq

structure Merge (n : Nat) (α σ : Type) where
  batched : BatchedState n α σ
  batchQueue : List (List σ)
  sent : List (MergedDeltaMessage (TupleSet (DeltaRow n α)) (List Bool))
  calls : List (Call n α)

structure Operator (n : Nat) (α σ : Type) where
  deltas : List (DeltaVersion n α)
  stables : List (TupleSet (Row n α))
  earlyChunkBatchCnt : List Nat
  earlyStableChunkIdx : Int
  batchCounter : Nat
  stableTuplesReceived : Bool
  deltasReceived : Bool
  merge : Merge n α σ

def Merge.initial : Merge n α σ := ⟨.start none,[],[],[]⟩

def Operator.initial : Operator n α σ := ⟨[],[],[],-1,0,false,false,.initial⟩

def toSizeT (i : Int) : Nat := if i < 0 then (2^64+i).toNat else i.toNat

section Receive
variable (reader : TableBatchReader) (project : Row n α → σ)

def Merge.mergeBatch (deltas : List (DeltaVersion n α)) (merge : Merge n α σ) (batch : TupleSet (Row n α))
    (batchCnt : Nat) : Option (Merge n α σ) := do
  let (pushed,batched) ← stablesBatchedDeltaMerge reader project deltas merge.batched batch batchCnt
  some {merge with
    batched := batched
    batchQueue := merge.batchQueue ++ pushed
    calls := merge.calls ++ [.stablesBatchedDeltaMerge batch batchCnt]}

def Merge.mergeDeltas (deltas : List (DeltaVersion n α)) (batchCounter : Nat) (merge : Merge n α σ) :
    Option (Merge n α σ) := do
  let (pushed,message) ← deltasDeltaMerge reader project deltas merge.batched batchCounter
  some {merge with
    batchQueue := merge.batchQueue ++ pushed
    sent := merge.sent ++ message.toList
    calls := merge.calls ++ [.deltasDeltaMerge]}

/-- `stablesBatchedDeltaMerge` on the parked batch at `earlyStableChunkIdx`. -/
def mergeParked (op : Operator n α σ) : Option (Operator n α σ) := do
  let batch ← op.stables[op.earlyStableChunkIdx.toNat]?
  let batchCnt ← op.earlyChunkBatchCnt[op.earlyStableChunkIdx.toNat]?
  let merge ← op.merge.mergeBatch reader project op.deltas batch batchCnt
  some {op with merge := merge}

/-- The loop of the last COMPLETE message, which compares an int with an unsigned size. -/
def releaseParked : Nat → Operator n α σ → Option (Operator n α σ)
  | 0, op => some op
  | fuel+1, op =>
    if toSizeT op.earlyStableChunkIdx < toSizeT (op.stables.length-1) then do
      let op ← mergeParked reader project {op with earlyStableChunkIdx := op.earlyStableChunkIdx+1}
      releaseParked fuel op
    else some op

def onReceive (flag : Bool) (op : Operator n α σ) : Message n α → Option (Operator n α σ)
  | .tuple tuples =>
    let op := {op with stableTuplesReceived := true}
    if flag = false then some {op with stables := op.stables ++ [tuples]}
    else
      let op := {op with batchCounter := op.batchCounter+1}
      if op.stableTuplesReceived ∧ op.deltasReceived then do
        let merge ← op.merge.mergeBatch reader project op.deltas tuples op.batchCounter
        some {op with merge := merge}
      else some {op with
        earlyChunkBatchCnt := op.earlyChunkBatchCnt ++ [op.batchCounter]
        stables := op.stables ++ [tuples]}
  | .loadResponse deltas stableBm =>
    let op := {op with
      deltas := deltas
      deltasReceived := true
      merge := {op.merge with batched := {op.merge.batched with stableBm := stableBm}}}
    if flag ∧ op.stableTuplesReceived ∧ op.deltasReceived then
      mergeParked reader project {op with
        earlyStableChunkIdx := if op.earlyStableChunkIdx = -1 then 0 else op.earlyStableChunkIdx+1}
    else some op
  | .complete allProducersComplete =>
    if flag = false then
      if allProducersComplete then do
        let (pushed,message) ← deltaMerge reader project op.deltas op.stables
        some {op with merge := {op.merge with
          batchQueue := op.merge.batchQueue ++ pushed
          sent := op.merge.sent ++ message.toList
          calls := op.merge.calls ++ [.deltaMerge]}}
      else some op
    else if allProducersComplete then do
      let op ← releaseParked reader project (op.stables.length+1) op
      let merge ← op.merge.mergeDeltas reader project op.deltas op.batchCounter
      some {op with merge := merge}
    else some op

/-- Messages in order of arrival. -/
def receiveAll (flag : Bool) : Operator n α σ → List (Message n α) → Option (Operator n α σ)
  | op, [] => some op
  | op, message::messages => do
    let op ← onReceive reader project flag op message
    receiveAll flag op messages

end Receive

/-- `early` batches arrive before the deltas, the others after them, and then the
COMPLETE messages, of which only the last finds all producers complete. -/
def arrivals (deltas : List (DeltaVersion n α)) (stableBm : Option (List Bool)) (batches : List (TupleSet (Row n α)))
    (early others : Nat) : List (Message n α) :=
  (batches.take early).map .tuple ++ .loadResponse deltas stableBm :: (batches.drop early).map .tuple ++
    List.replicate others (.complete false) ++ [.complete true]

/-- The batches with their positions in the scan, counted from 1. -/
def numbered (batches : List (TupleSet (Row n α))) : List (TupleSet (Row n α) × Nat) := batches.zipIdx 1

/-- The order the batches are merged in when `early` of them are parked. -/
def mergeOrder (batches : List (TupleSet (Row n α))) (early : Nat) : List (TupleSet (Row n α) × Nat) :=
  ((numbered batches).take early).take 1 ++ (numbered batches).drop early ++
    ((numbered batches).take early).drop 1

section Control
variable (reader : TableBatchReader) (project : Row n α → σ)

/-- The batches one after the other. -/
def mergeBatches (deltas : List (DeltaVersion n α)) :
    Merge n α σ → List (TupleSet (Row n α) × Nat) → Option (Merge n α σ)
  | merge, [] => some merge
  | merge, (batch,batchCnt)::order => do
    let merge ← merge.mergeBatch reader project deltas batch batchCnt
    mergeBatches deltas merge order

theorem mergeBatches_append (deltas : List (DeltaVersion n α)) (merge : Merge n α σ)
    (first second : List (TupleSet (Row n α) × Nat)) :
    mergeBatches reader project deltas merge (first ++ second) =
      (mergeBatches reader project deltas merge first).bind
        (mergeBatches reader project deltas · second) := by
  induction first generalizing merge with
  | nil => rfl
  | cons entry first ih =>
    obtain ⟨batch,batchCnt⟩ := entry
    simp only [List.cons_append,mergeBatches,Option.bind_eq_bind]
    cases merge.mergeBatch reader project deltas batch batchCnt with
    | none => rfl
    | some merge => exact ih merge

theorem receiveAll_append {flag : Bool} (op : Operator n α σ) (first second : List (Message n α)) :
    receiveAll reader project flag op (first ++ second) =
      (receiveAll reader project flag op first).bind (receiveAll reader project flag · second) := by
  induction first generalizing op with
  | nil => rfl
  | cons message first ih =>
    simp only [List.cons_append,receiveAll,Option.bind_eq_bind]
    cases onReceive reader project flag op message with
    | none => rfl
    | some op => exact ih op

theorem receiveAll_singleton {flag : Bool} (op : Operator n α σ) (message : Message n α) :
    receiveAll reader project flag op [message] = onReceive reader project flag op message := by
  rw [receiveAll]
  cases onReceive reader project flag op message <;> rfl

/-- The operator with its early batches parked. -/
def parked (early : List (TupleSet (Row n α))) : Operator n α σ :=
  { Operator.initial with
    stables := early
    earlyChunkBatchCnt := List.range' 1 early.length
    batchCounter := early.length
    stableTuplesReceived := !early.isEmpty }

private theorem receive_early (early : List (TupleSet (Row n α))) :
    receiveAll reader project true .initial (early.map .tuple) = some (parked early : Operator n α σ) := by
  induction early using List.reverseRecOn with
  | nil => rfl
  | append_singleton early batch ih =>
    rw [List.map_append,receiveAll_append,ih,Option.bind_some]
    have counts : List.range' 1 (early.length+1) = List.range' 1 early.length ++ [early.length+1] := by
      rw [List.range'_1_concat,Nat.add_comm]
    simp [receiveAll,onReceive,parked,Operator.initial,counts]

private theorem receive_late (op : Operator n α σ) (received : op.deltasReceived = true)
    (late : List (TupleSet (Row n α))) :
    receiveAll reader project true op (late.map .tuple) =
      (mergeBatches reader project op.deltas op.merge (late.zipIdx (op.batchCounter+1))).map
        (fun merge => {op with
          batchCounter := op.batchCounter+late.length
          stableTuplesReceived := op.stableTuplesReceived || !late.isEmpty
          merge := merge}) := by
  induction late generalizing op with
  | nil => simp [receiveAll,mergeBatches]
  | cons batch late ih =>
    simp only [List.map_cons,receiveAll,onReceive,received,Bool.true_eq_false,if_false,and_self,if_true,
      Option.bind_eq_bind,List.zipIdx_cons,mergeBatches]
    cases op.merge.mergeBatch reader project op.deltas batch (op.batchCounter+1) with
    | none => rfl
    | some merge =>
      simp only [Option.bind_some]
      rw [ih _ rfl]
      simp [Nat.add_assoc,Nat.add_comm]

@[simp] private theorem toSizeT_natCast (i : Nat) : toSizeT i = i := by
  simp [toSizeT]

private theorem mergeParked_at (op : Operator n α σ) {i : Nat}
    (counts : op.earlyChunkBatchCnt = List.range' 1 op.stables.length)
    (index : op.earlyStableChunkIdx = i) (inside : i < op.stables.length) :
    mergeParked reader project op = (op.merge.mergeBatch reader project op.deltas op.stables[i] (i+1)).map
      (fun merge => {op with merge := merge}) := by
  have count : (List.range' 1 op.stables.length)[i]? = some (i+1) := by
    rw [List.getElem?_range' inside]
    simp [Nat.add_comm]
  unfold mergeParked
  simp only [counts,index,Int.toNat_natCast,List.getElem?_eq_getElem inside,count,
    Option.bind_eq_bind,Option.bind_some]
  cases op.merge.mergeBatch reader project op.deltas op.stables[i] (i+1) <;> rfl

private theorem releaseParked_from {op : Operator n α σ} {i : Nat}
    (counts : op.earlyChunkBatchCnt = List.range' 1 op.stables.length)
    (index : op.earlyStableChunkIdx = i) (inside : i < op.stables.length) {fuel : Nat}
    (enough : op.stables.length ≤ i+fuel) :
    (releaseParked reader project fuel op).map (fun op => (op.deltas,op.batchCounter,op.merge)) =
      (mergeBatches reader project op.deltas op.merge ((numbered op.stables).drop (i+1))).map
        (fun merge => (op.deltas,op.batchCounter,merge)) := by
  induction fuel generalizing op i with
  | zero => omega
  | succ fuel ih =>
    have last : (op.stables.length : Int)-1 = (op.stables.length-1 : Nat) := by omega
    unfold releaseParked
    rw [last,index,toSizeT_natCast,toSizeT_natCast]
    by_cases more : i < op.stables.length-1
    · have next : i+1 < op.stables.length := by omega
      have entry : (numbered op.stables).drop (i+1) =
          (op.stables[i+1],i+1+1) :: (numbered op.stables).drop (i+1+1) := by
        rw [numbered,List.drop_eq_getElem_cons (by simpa using next)]
        simp [Nat.add_comm,Nat.add_left_comm]
      rw [if_pos more,mergeParked_at reader project {op with earlyStableChunkIdx := (i : Int)+1} counts rfl next,
        entry,mergeBatches]
      simp only [Option.bind_eq_bind]
      cases op.merge.mergeBatch reader project op.deltas op.stables[i+1] (i+1+1) with
      | none => rfl
      | some merge => exact ih counts rfl next (show op.stables.length ≤ i+1+fuel by omega)
    · rw [if_neg more,List.drop_eq_nil_of_le (by simp [numbered]; omega)]
      rfl

private theorem receive_complete {op : Operator n α σ}
    (counts : op.earlyChunkBatchCnt = List.range' 1 op.stables.length)
    (index : op.earlyStableChunkIdx = if op.stables = [] then -1 else 0) :
    (onReceive reader project true op (.complete true)).map (·.merge) =
      (mergeBatches reader project op.deltas op.merge ((numbered op.stables).drop 1)).bind
        (Merge.mergeDeltas reader project op.deltas op.batchCounter) := by
  have released : (releaseParked reader project (op.stables.length+1) op).map
        (fun op => (op.deltas,op.batchCounter,op.merge)) =
      (mergeBatches reader project op.deltas op.merge ((numbered op.stables).drop 1)).map
        (fun merge => (op.deltas,op.batchCounter,merge)) := by
    by_cases none_ : op.stables = []
    · rw [if_pos none_] at index
      simp [releaseParked,none_,index,toSizeT,numbered,mergeBatches]
    · rw [if_neg none_] at index
      exact releaseParked_from reader project counts index (List.length_pos_iff.mpr none_) (by omega)
  simp only [onReceive,Bool.true_eq_false,if_false,if_true,Option.bind_eq_bind]
  cases found : releaseParked reader project (op.stables.length+1) op with
  | none =>
    rw [found,Option.map_none] at released
    rw [Option.map_eq_none_iff.mp released.symm]
    rfl
  | some op' =>
    rw [found,Option.map_some] at released
    obtain ⟨merge,merged,same⟩ := Option.map_eq_some_iff.mp released.symm
    obtain ⟨deltas,counter,own⟩ : op.deltas = op'.deltas ∧ op.batchCounter = op'.batchCounter ∧
        merge = op'.merge := by simpa using same
    rw [merged,Option.bind_some,Option.bind_some,deltas,counter,own]
    cases op'.merge.mergeDeltas reader project op'.deltas op'.batchCounter <;> rfl

private theorem receive_incomplete (op : Operator n α σ) (others : Nat) :
    receiveAll reader project true op (List.replicate others (.complete false)) = some op := by
  induction others with
  | zero => rfl
  | succ others ih => exact ih

def Merge.start (stableBm : Option (List Bool)) : Merge n α σ := ⟨.start stableBm,[],[],[]⟩

/-- The operator once the deltas have arrived. -/
def responded (early : List (TupleSet (Row n α))) (deltas : List (DeltaVersion n α)) (merge : Merge n α σ) :
    Operator n α σ :=
  { (parked early : Operator n α σ) with
    deltas := deltas
    deltasReceived := true
    earlyStableChunkIdx := if early = [] then -1 else 0
    merge := merge }

private theorem receive_response (early : List (TupleSet (Row n α))) (deltas : List (DeltaVersion n α))
    (stableBm : Option (List Bool)) :
    onReceive reader project true (parked early) (.loadResponse deltas stableBm) =
      (mergeBatches reader project deltas (.start stableBm) ((numbered early).take 1)).map
        (responded early deltas) := by
  cases early with
  | nil => rfl
  | cons batch early =>
    rw [onReceive]
    simp only [parked,Operator.initial,List.isEmpty_cons,Bool.not_false,and_self,if_true]
    rw [mergeParked_at reader project (i := 0) _ rfl rfl (by simp)]
    simp only [numbered,List.zipIdx_cons,List.take_succ_cons,List.take_zero,mergeBatches,Option.bind_eq_bind]
    change Option.map _ (Merge.mergeBatch reader project deltas (.start stableBm) batch 1) = _
    cases Merge.mergeBatch reader project deltas (.start stableBm) batch 1 <;> rfl

theorem take_zipIdx {ρ : Type} (rows : List ρ) (first k : Nat) :
    (rows.zipIdx first).take k = (rows.take k).zipIdx first := by
  induction rows generalizing first k with
  | nil => simp
  | cons row rows ih => cases k <;> simp [ih]

theorem drop_zipIdx {ρ : Type} (rows : List ρ) (first k : Nat) :
    (rows.zipIdx first).drop k = (rows.drop k).zipIdx (first+k) := by
  induction rows generalizing first k with
  | nil => simp
  | cons row rows ih =>
    cases k with
    | zero => rfl
    | succ k =>
      rw [List.zipIdx_cons,List.drop_succ_cons,ih,List.drop_succ_cons]
      congr 1
      omega

theorem receiveAll_arrivals (deltas : List (DeltaVersion n α)) (stableBm : Option (List Bool))
    (batches : List (TupleSet (Row n α))) {early : Nat} (arrived : early ≤ batches.length) (others : Nat) :
    (receiveAll reader project true .initial (arrivals deltas stableBm batches early others)).map (·.merge) =
      (mergeBatches reader project deltas (.start stableBm) (mergeOrder batches early)).bind
        (Merge.mergeDeltas reader project deltas batches.length) := by
  have front : (batches.take early).length = early := List.length_take_of_le arrived
  have split : mergeOrder batches early = (numbered (batches.take early)).take 1 ++
      ((batches.drop early).zipIdx (early+1) ++ (numbered (batches.take early)).drop 1) := by
    rw [mergeOrder,numbered,take_zipIdx,drop_zipIdx,Nat.add_comm 1,List.append_assoc]
    rfl
  rw [split,mergeBatches_append,arrivals,List.append_assoc,List.append_assoc,receiveAll_append,receive_early,
    Option.bind_some,List.cons_append,receiveAll,receive_response]
  cases mergeBatches reader project deltas (.start stableBm) ((numbered (batches.take early)).take 1) with
  | none => rfl
  | some merge =>
    simp only [Option.map_some,Option.bind_eq_bind,Option.bind_some]
    have counter : (responded (batches.take early) deltas merge).batchCounter = early := front
    rw [mergeBatches_append,receiveAll_append,receive_late reader project _ rfl,counter]
    change Option.map _ (Option.bind (Option.map _ (mergeBatches reader project deltas merge
      ((batches.drop early).zipIdx (early+1)))) _) = _
    cases mergeBatches reader project deltas merge ((batches.drop early).zipIdx (early+1)) with
    | none => rfl
    | some merge =>
      rw [Option.map_some,Option.bind_some,Option.bind_some,receiveAll_append,receive_incomplete,Option.bind_some,
        receiveAll_singleton,receive_complete reader project rfl rfl]
      have count : early+(batches.drop early).length = batches.length := by
        rw [List.length_drop]
        omega
      dsimp only
      rw [count]
      rfl

end Control

end Hermes.DeltaMergeArrival
