import Hermes.Library.Network
import Hermes.S3SelectPOp
import Mathlib.Data.List.Dedup
import Mathlib.Data.List.Sort
import Mathlib.Data.String.Basic

/-! `transformFilterableScanHybrid`: the operators of one partition and how they are
connected, with the segment cache's answer and whoever consumes the second merge. -/
namespace Hermes.HybridScan
open Hermes.Tuples Hermes.Operators Hermes.Library.Network
variable {ν : Type}

/-- `FilterPOp`. `received` is a pointer, to a tuple set without a table at first;
nothing that a handler calls sets `applicable` or builds the filter. -/
structure FilterPOp (ν : Type) where
  projectColumnNames : List String
  predicate : Predicate ν
  weightedSegmentKeys : List String
  received : Option (TupleSet ν)
  applicable : Option Bool

namespace FilterPOp

def clear (op : FilterPOp ν) : FilterPOp ν := {op with received := none}

def onTuple (op : FilterPOp ν) (ctx : POpContext Unit (Message ν)) : Process (FilterPOp ν) Unit (Message ν) :=
  ⟨op.clear,(ctx.tell (.tuple (some .empty))).notifyComplete,none⟩

/-- A table that was received would be given to a filter that was never built. -/
def onComplete (op : FilterPOp ν) (ctx : POpContext Unit (Message ν)) : Process (FilterPOp ν) Unit (Message ν) :=
  match op.received with
  | none => ⟨op,ctx,some .nullDereference⟩
  | some (some _) => ⟨op,ctx,some .exception⟩
  | some none =>
    if !ctx.complete && ctx.operatorMap.allComplete .producer then ⟨op.clear,ctx.notifyComplete,none⟩ else ⟨op,ctx,none⟩

def onReceive (op : FilterPOp ν) (ctx : POpContext Unit (Message ν)) :
    Waiting (Message ν) → Process (FilterPOp ν) Unit (Message ν)
  | .content _ (.tuple _) => op.onTuple ctx
  | .content _ message => ⟨op,ctx.notifyError ("Unrecognized message type " ++ message.getTypeString),none⟩
  | .complete _ =>
    match op.applicable with
    | none => ⟨op,ctx,some .nullDereference⟩
    | some true => op.onComplete ctx
    | some false => ⟨op,ctx,none⟩

end FilterPOp

/-- The operators of a partition's hybrid scan, between the cache and the consumer. -/
inductive HybridPOp where
  | segmentCache
  | cacheLoad
  | scan
  | merge1
  | filter
  | select
  | merge2
  | downstream
deriving DecidableEq, Repr

/-- One partition to scan, which of its columns are cached, and which the policy lets in. -/
structure PartitionScan (ν : Type) where
  prePOpId : Nat
  partition : S3Partition ν
  projectColumnNames : List String
  predicate : Option (Predicate ν)
  s3ClientType : S3ClientType
  cached : String → Bool
  mayCache : String → Bool
  projected : ∀ columnName ∈ projectColumnNames, columnName ∈ partition.columnNames
  involved : ∀ columnName ∈ (predicate.map Predicate.columnNames).getD [], columnName ∈ partition.columnNames

/-- `union_`, through an ordered set. -/
def union (vec1 vec2 : List String) : List String := (vec1 ++ vec2).dedup.insertionSort (· ≤ ·)

theorem mem_union {vec1 vec2 : List String} {name : String} : name ∈ union vec1 vec2 ↔ name ∈ vec1 ∨ name ∈ vec2 := by
  rw [union,List.mem_insertionSort,List.mem_dedup,List.mem_append]

theorem nodup_union (vec1 vec2 : List String) : (union vec1 vec2).Nodup :=
  (List.perm_insertionSort _ _).nodup_iff.mpr (List.nodup_dedup _)

namespace PartitionScan
variable (plan : PartitionScan ν)

def predicateColumnNames : List String := (plan.predicate.map Predicate.columnNames).getD []

def projPredColumnNames : List String := union plan.projectColumnNames plan.predicateColumnNames

def suffix : String := "[" ++ toString plan.prePOpId ++ "]-" ++ plan.partition.bucket ++ "/" ++ plan.partition.object

def name : HybridPOp → String
  | .segmentCache => "SegmentCache"
  | .cacheLoad => "CacheLoad" ++ plan.suffix
  | .scan => "S3Select(cache)" ++ plan.suffix
  | .merge1 => "merge1" ++ plan.suffix
  | .filter => "Filter" ++ plan.suffix
  | .select => "S3Select(pushdown)" ++ plan.suffix
  | .merge2 => "merge2" ++ plan.suffix
  | .downstream => "downstream" ++ plan.suffix

def localResult : HybridPOp := if plan.predicate.isSome then .filter else .merge1

def consumers : HybridPOp → List HybridPOp
  | .cacheLoad => [.merge1,.scan,.select]
  | .scan => [.merge1]
  | .merge1 => if plan.predicate.isSome then [.filter] else [.merge2]
  | .filter => if plan.predicate.isSome then [.merge2] else []
  | .select => [.merge2]
  | .merge2 => [.downstream]
  | .segmentCache => []
  | .downstream => []

def producers : HybridPOp → List HybridPOp
  | .scan => [.cacheLoad]
  | .merge1 => [.cacheLoad,.scan]
  | .filter => [.merge1]
  | .select => [.cacheLoad]
  | .merge2 => [plan.localResult,.select]
  | .segmentCache => []
  | .cacheLoad => []
  | .downstream => [.merge2]

def operatorMap (op : HybridPOp) : LocalPOpDirectory Unit :=
  (plan.consumers op).foldl (fun directory consumer => (directory.insert ⟨plan.name consumer,(),.consumer,false⟩).1)
    ((plan.producers op).foldl (fun directory producer => (directory.insert ⟨plan.name producer,(),.producer,false⟩).1) .make)

/-- The context before anything was done; an actor's id only shows in error texts. -/
def ctx {γ : Type} (op : HybridPOp) : POpContext Unit γ := ⟨0,plan.name op,plan.operatorMap op,false,[]⟩

def cacheLoadPOp : CacheLoadPOp ν where
  name := plan.name .cacheLoad
  projectColumnNames := plan.projectColumnNames
  predicateColumnNames := plan.predicateColumnNames
  columnNames := plan.projPredColumnNames
  partition := plan.partition
  s3ClientType := plan.s3ClientType
  hitOperatorName := plan.name .merge1
  missOperatorToCacheName := plan.name .scan
  missOperatorToPushdownName := some (plan.name .select)

def scanPOp : S3SelectPOp ν where
  name := plan.name .scan
  projectColumnNames := plan.projPredColumnNames
  partition := plan.partition
  filterSql := none
  startOffset := 0
  finishOffset := plan.partition.numBytes
  s3ClientType := plan.s3ClientType
  scanOnStart := false
  toCache := true
  weightedSegmentKeys := []

def selectPOp : S3SelectPOp ν where
  name := plan.name .select
  projectColumnNames := plan.projectColumnNames
  partition := plan.partition
  filterSql := plan.predicate
  startOffset := 0
  finishOffset := plan.partition.numBytes
  s3ClientType := plan.s3ClientType
  scanOnStart := false
  toCache := false
  weightedSegmentKeys := plan.projPredColumnNames

def mergePOp1 : MergePOp ν := ⟨plan.name .cacheLoad,plan.name .scan,plan.projPredColumnNames,[],[]⟩

def mergePOp2 : MergePOp ν := ⟨plan.name plan.localResult,plan.name .select,plan.projectColumnNames,[],[]⟩

def filterPOp : FilterPOp ν where
  projectColumnNames := plan.projectColumnNames
  predicate := plan.predicate.getD ⟨[],fun _ => true⟩
  weightedSegmentKeys := plan.projPredColumnNames
  received := some none
  applicable := none

end PartitionScan

/-- The cache's part ends with its answer; the consumer keeps what it is told. -/
def State (ν : Type) : HybridPOp → Type
  | .segmentCache => Unit
  | .cacheLoad => Process (CacheLoadPOp ν) Unit (Message ν)
  | .scan => Process (S3SelectPOp ν) Unit (Message ν)
  | .merge1 => Process (MergePOp ν) Unit (Table ν)
  | .filter => Process (FilterPOp ν) Unit (Message ν)
  | .select => Process (S3SelectPOp ν) Unit (Message ν)
  | .merge2 => Process (MergePOp ν) Unit (Table ν)
  | .downstream => List (Message ν)

def waiting (sender : String) : Message ν → Waiting (Message ν)
  | .complete => .complete sender
  | message => .content sender message

/-- A merge's `onReceive` on any message. -/
def mergeReceive (process : Process (MergePOp ν) Unit (Table ν)) (sender : String) :
    Message ν → Process (MergePOp ν) Unit (Table ν)
  | .tuple tuples => process.receive MergePOp.onReceive (.content sender tuples)
  | .complete => process.receive MergePOp.onReceive (.complete sender)
  | message =>
    if process.fault.isSome then process
    else {process with ctx := process.ctx.notifyError ("Unrecognized message type " ++ message.getTypeString)}

/-- What an act sends to an operator that is connected. -/
def sentBy {γ : Type} (message : γ → Message ν) (connected : Bool) (name : String) : Act γ → List (Message ν)
  | .tell content => if connected then [message content] else []
  | .send recipientId content => if connected ∧ recipientId = name then [message content] else []
  | .notifyComplete => if connected then [.complete] else []
  | .notifyError _ => []

/-- After an error an operator has no handles any more. -/
def reaching {γ : Type} (message : γ → Message ν) (connected : Bool) (name : String) (acts : List (Act γ)) :
    List (Message ν) :=
  (acts.takeWhile fun act =>
    match act with
    | .notifyError _ => false
    | _ => true).flatMap (sentBy message connected name)

namespace PartitionScan
variable (plan : PartitionScan ν)

def start : ∀ op, State ν op
  | .segmentCache => ()
  | .cacheLoad => plan.cacheLoadPOp.onStart (plan.ctx .cacheLoad)
  | .scan => plan.scanPOp.onStart (plan.ctx .scan)
  | .merge1 => ⟨plan.mergePOp1,plan.ctx .merge1,none⟩
  | .filter => ⟨plan.filterPOp,plan.ctx .filter,none⟩
  | .select => plan.selectPOp.onStart (plan.ctx .select)
  | .merge2 => ⟨plan.mergePOp2,plan.ctx .merge2,none⟩
  | .downstream => []

def receive : ∀ op, State ν op → HybridPOp → Message ν → State ν op
  | .segmentCache,_,_,_ => ()
  | .cacheLoad,process,sender,message => Process.receive CacheLoadPOp.onReceive process (waiting (plan.name sender) message)
  | .scan,process,sender,message => Process.receive S3SelectPOp.onReceive process (waiting (plan.name sender) message)
  | .merge1,process,sender,message => mergeReceive process (plan.name sender) message
  | .filter,process,sender,message => Process.receive FilterPOp.onReceive process (waiting (plan.name sender) message)
  | .select,process,sender,message => Process.receive S3SelectPOp.onReceive process (waiting (plan.name sender) message)
  | .merge2,process,sender,message => mergeReceive process (plan.name sender) message
  | .downstream,messages,_,message => List.append messages [message]

def connected (op recipient : HybridPOp) : Bool := decide (recipient ∈ plan.consumers op)

/-- The cache has answered the request that `CacheLoadPOp` makes when it starts. -/
def sent : ∀ op, State ν op → HybridPOp → List (Message ν)
  | .segmentCache,_,recipient =>
    if recipient = .cacheLoad then [load plan.cached plan.mayCache plan.projPredColumnNames] else []
  | .cacheLoad,process,recipient => reaching id (plan.connected .cacheLoad recipient)
    (plan.name recipient) process.ctx.acts
  | .scan,process,recipient => reaching id (plan.connected .scan recipient) (plan.name recipient) process.ctx.acts
  | .merge1,process,recipient =>
    reaching (fun table => .tuple (some table)) (plan.connected .merge1 recipient)
    (plan.name recipient) process.ctx.acts
  | .filter,process,recipient => reaching id (plan.connected .filter recipient) (plan.name recipient) process.ctx.acts
  | .select,process,recipient => reaching id (plan.connected .select recipient) (plan.name recipient) process.ctx.acts
  | .merge2,process,recipient =>
    reaching (fun table => .tuple (some table)) (plan.connected .merge2 recipient)
    (plan.name recipient) process.ctx.acts
  | .downstream,_,_ => []

end PartitionScan

theorem cacheLoad_acts (op : CacheLoadPOp ν) (ctx : POpContext Unit (Message ν)) (message : Waiting (Message ν)) :
    ctx.acts <+: (op.onReceive ctx message).ctx.acts := by
  unfold CacheLoadPOp.onReceive
  split
  next =>
    unfold CacheLoadPOp.onCacheLoadResponse sendToCache
    dsimp only
    refine List.IsPrefix.trans ?_ (acts_notifyComplete _)
    refine List.IsPrefix.trans ?_ (acts_record _ _)
    split
    next => exact ((acts_send ctx _ _).trans (acts_send _ _ _)).trans (acts_send _ _ _)
    next => exact (acts_send ctx _ _).trans (acts_send _ _ _)
  next => exact acts_record ctx _
  next => exact acts_record ctx _

theorem afterRead_acts (op : S3SelectPOp ν) (ctx : POpContext Unit (Message ν)) (readTupleSet : Table ν) :
    ctx.acts <+: (op.afterRead ctx readTupleSet).acts := by
  unfold S3SelectPOp.afterRead sendToCache
  split
  next => exact List.prefix_rfl
  next =>
    split
    next => exact acts_record ctx _
    next =>
      split
      next => exact acts_record ctx _
      next => exact List.prefix_rfl

theorem select_acts (op : S3SelectPOp ν) (ctx : POpContext Unit (Message ν)) (message : Waiting (Message ν)) :
    ctx.acts <+: (op.onReceive ctx message).ctx.acts := by
  unfold S3SelectPOp.onReceive
  split
  next columnNames resultNeeded =>
    unfold S3SelectPOp.onCacheLoadResponse S3SelectPOp.readAndSendTuples
    dsimp only
    split
    next =>
      split
      next => exact ((afterRead_acts _ ctx _).trans (acts_tell _ _)).trans (acts_notifyComplete _)
      next => exact List.prefix_rfl
    next =>
      split
      next => exact ((acts_tell ctx _).trans (acts_notifyComplete _)).trans (afterRead_acts _ _ _)
      next => exact (acts_tell ctx _).trans (acts_notifyComplete _)
  next => exact acts_record ctx _
  next => exact List.prefix_rfl

theorem filter_acts (op : FilterPOp ν) (ctx : POpContext Unit (Message ν)) (message : Waiting (Message ν)) :
    ctx.acts <+: (op.onReceive ctx message).ctx.acts := by
  unfold FilterPOp.onReceive
  split
  next => exact (acts_tell ctx _).trans (acts_notifyComplete _)
  next => exact acts_record ctx _
  next =>
    split
    next => exact List.prefix_rfl
    next =>
      unfold FilterPOp.onComplete
      split
      next => exact List.prefix_rfl
      next => exact List.prefix_rfl
      next =>
        split
        next => exact acts_notifyComplete ctx
        next => exact List.prefix_rfl
    next => exact List.prefix_rfl

theorem mergeLoop_acts (op : MergePOp ν) (ctx : POpContext Unit (Table ν)) (lefts rights : List (TupleSet ν)) :
    ctx.acts <+: (op.merge ctx lefts rights).ctx.acts := by
  induction lefts generalizing rights ctx with
  | nil => rw [MergePOp.merge]
  | cons left lefts ih =>
    cases rights with
    | nil =>
      rw [MergePOp.merge]
      exact List.cons_ne_nil _ _
    | cons right rights =>
      rw [MergePOp.merge]
      split
      next => exact (acts_record ctx _).trans (ih _ rights)
      next =>
        split
        next => exact acts_record ctx _
        next => exact (acts_tell ctx _).trans (ih _ rights)

theorem merge_acts (op : MergePOp ν) (ctx : POpContext Unit (Table ν)) (message : Waiting (TupleSet ν)) :
    ctx.acts <+: (op.onReceive ctx message).ctx.acts := by
  cases message with
  | content sender tupleSet =>
    rw [MergePOp.onReceive,MergePOp.onTuple]
    split
    next => exact mergeLoop_acts op ctx _ _
    next =>
      split
      next => exact mergeLoop_acts op ctx _ _
      next => exact (acts_record ctx _).trans (mergeLoop_acts op _ _ _)
  | complete sender =>
    rw [MergePOp.onReceive,MergePOp.onComplete]
    split
    next => exact acts_notifyComplete ctx
    next => exact List.prefix_rfl

theorem mergeReceive_acts (process : Process (MergePOp ν) Unit (Table ν)) (sender : String) (message : Message ν) :
    process.ctx.acts <+: (mergeReceive process sender message).ctx.acts := by
  unfold mergeReceive
  split
  next => exact acts_receive merge_acts process _
  next => exact acts_receive merge_acts process _
  next =>
    split
    next => exact List.prefix_rfl
    next => exact acts_record _ _

theorem reaching_mono {γ : Type} {acts more : List (Act γ)} (grows : acts <+: more) (message : γ → Message ν)
    (connected : Bool) (name : String) :
    reaching message connected name acts <+: reaching message connected name more := by
  obtain ⟨rest,rfl⟩ := grows
  unfold reaching
  rw [List.takeWhile_append]
  split
  next whole =>
    rw [(List.takeWhile_prefix _).eq_of_length whole,List.flatMap_append]
    exact List.prefix_append _ _
  next => exact List.prefix_rfl

namespace PartitionScan
variable (plan : PartitionScan ν)

theorem sent_grows (op : HybridPOp) (state : State ν op) (sender : HybridPOp) (message : Message ν)
    (recipient : HybridPOp) :
    plan.sent op state recipient <+: plan.sent op (plan.receive op state sender message) recipient := by
  cases op with
  | segmentCache => exact List.prefix_rfl
  | cacheLoad => exact reaching_mono (acts_receive cacheLoad_acts state _) _ _ _
  | scan => exact reaching_mono (acts_receive select_acts state _) _ _ _
  | merge1 => exact reaching_mono (mergeReceive_acts state _ message) _ _ _
  | filter => exact reaching_mono (acts_receive filter_acts state _) _ _ _
  | select => exact reaching_mono (acts_receive select_acts state _) _ _ _
  | merge2 => exact reaching_mono (mergeReceive_acts state _ message) _ _ _
  | downstream => exact List.prefix_rfl

/-- The operators of the scan and the messages between them. -/
def nodes : Nodes HybridPOp (Message ν) where
  State := State ν
  start := plan.start
  receive := plan.receive
  sent := plan.sent
  grows := plan.sent_grows

end PartitionScan
end Hermes.HybridScan
