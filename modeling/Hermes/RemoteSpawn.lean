import Hermes.POpSerializer
import Hermes.Library.Fallible

/-! `remoteSpawn`: an operator is saved by its inspect function, loaded on another node and spawned there. It reacts
as the original to all messages, unless it is a `DeltaMergePOp` or a `CacheHandlerPOp`. -/
namespace Hermes.Serialization
open Hermes.Join (JoinType)
open Hermes.HybridScan (S3ClientType)
open Library.Fallible

variable {V : Values}

/-- The operators that `POpSerializer` lists. -/
inductive POp (V : Values) where
  | aggregate (op : AggregatePOp V)
  | cacheLoad (op : CacheLoadPOp V)
  | collate (op : CollatePOp V)
  | fileScan (op : FileScanPOp V)
  | filter (op : FilterPOp V)
  | group (op : GroupPOp V)
  | hashJoinBuild (op : HashJoinBuildPOp V)
  | hashJoinProbe (op : HashJoinProbePOp V)
  | nestedLoopJoin (op : NestedLoopJoinPOp V)
  | limitSort (op : LimitSortPOp V)
  | merge (op : MergePOp V)
  | project (op : ProjectPOp V)
  | s3Get (op : S3GetPOp V)
  | s3Select (op : S3SelectPOp V)
  | shuffle (op : ShufflePOp V)
  | sort (op : SortPOp V)
  | split (op : SplitPOp V)
  | deltaMerge (op : DeltaMergePOp V)
  | cacheHandler (op : CacheHandlerPOp V)

namespace POp

/-- A default-constructed object of the class, and the inspected fields into it. -/
def load (daemonClient : Option V.AWSClient) : POp V → POp V
  | .aggregate op => .aggregate (op.inspect .zero)
  | .cacheLoad op => .cacheLoad (op.inspect .zero)
  | .collate op => .collate (op.inspect .zero)
  | .fileScan op => .fileScan (op.inspect .zero)
  | .filter op => .filter (op.inspect .zero)
  | .group op => .group (op.inspect .zero)
  | .hashJoinBuild op => .hashJoinBuild (op.inspect .zero)
  | .hashJoinProbe op => .hashJoinProbe (op.inspect .zero)
  | .nestedLoopJoin op => .nestedLoopJoin (op.inspect .zero)
  | .limitSort op => .limitSort (op.inspect .zero)
  | .merge op => .merge (op.inspect .zero)
  | .project op => .project (op.inspect .zero)
  | .s3Get op => .s3Get (op.inspect (.zero daemonClient))
  | .s3Select op => .s3Select (op.inspect (.zero daemonClient))
  | .shuffle op => .shuffle (op.inspect .zero)
  | .sort op => .sort (op.inspect .zero)
  | .split op => .split (op.inspect .zero)
  | .deltaMerge op => .deltaMerge (op.inspect .zero)
  | .cacheHandler op => .cacheHandler (op.inspect .zero)

/-- A change of what all operators have. -/
def update (change : PhysicalOp V → PhysicalOp V) : POp V → POp V
  | .aggregate op => .aggregate {op with toPhysicalOp := change op.toPhysicalOp}
  | .cacheLoad op => .cacheLoad {op with toPhysicalOp := change op.toPhysicalOp}
  | .collate op => .collate {op with toPhysicalOp := change op.toPhysicalOp}
  | .fileScan op => .fileScan {op with toPhysicalOp := change op.toPhysicalOp}
  | .filter op => .filter {op with toPhysicalOp := change op.toPhysicalOp}
  | .group op => .group {op with toPhysicalOp := change op.toPhysicalOp}
  | .hashJoinBuild op => .hashJoinBuild {op with toPhysicalOp := change op.toPhysicalOp}
  | .hashJoinProbe op => .hashJoinProbe {op with toPhysicalOp := change op.toPhysicalOp}
  | .nestedLoopJoin op => .nestedLoopJoin {op with toPhysicalOp := change op.toPhysicalOp}
  | .limitSort op => .limitSort {op with toPhysicalOp := change op.toPhysicalOp}
  | .merge op => .merge {op with toPhysicalOp := change op.toPhysicalOp}
  | .project op => .project {op with toPhysicalOp := change op.toPhysicalOp}
  | .s3Get op => .s3Get {op with toPhysicalOp := change op.toPhysicalOp}
  | .s3Select op => .s3Select {op with toPhysicalOp := change op.toPhysicalOp}
  | .shuffle op => .shuffle {op with toPhysicalOp := change op.toPhysicalOp}
  | .sort op => .sort {op with toPhysicalOp := change op.toPhysicalOp}
  | .split op => .split {op with toPhysicalOp := change op.toPhysicalOp}
  | .deltaMerge op => .deltaMerge {op with toPhysicalOp := change op.toPhysicalOp}
  | .cacheHandler op => .cacheHandler {op with toPhysicalOp := change op.toPhysicalOp}

/-- `produce`, which two classes override. -/
def produce (op : POp V) (name : String) : POp V :=
  match op with
  | .shuffle op => .shuffle (op.produce name)
  | .split op => .split (op.produce name)
  | op => op.update fun base => base.produce name

/-- What the handlers read. -/
def visible : POp V → POp V
  | .s3Get op => .s3Get {op with toS3SelectScanAbstractPOp := op.toS3SelectScanAbstractPOp.visible}
  | .s3Select op => .s3Select {op with toS3SelectScanAbstractPOp := op.toS3SelectScanAbstractPOp.visible}
  | op => op

def awsClient : POp V → Option V.AWSClient
  | .s3Get op => op.awsClient
  | .s3Select op => op.awsClient
  | _ => none

def forgetful : POp V → Bool
  | .deltaMerge _ | .cacheHandler _ => true
  | _ => false

/-- The pointers that are used are set, and no batch has come. -/
def pointing : POp V → Bool
  | .deltaMerge op => op.keepMapCacheMode.isSome && !op.stableTuplesReceived
  | .cacheHandler op => op.targetTable.isSome && op.targetPartition.isSome
  | _ => true

theorem load_update (daemonClient : Option V.AWSClient) (change : PhysicalOp V → PhysicalOp V) (op : POp V) :
    (op.update change).load daemonClient = (op.load daemonClient).update change := by
  cases op <;> rfl

theorem visible_update (change : PhysicalOp V → PhysicalOp V) (op : POp V) :
    (op.update change).visible = op.visible.update change := by
  cases op <;> rfl

theorem awsClient_update (change : PhysicalOp V → PhysicalOp V) (op : POp V) :
    (op.update change).awsClient = op.awsClient := by
  cases op <;> rfl

theorem forgetful_update (change : PhysicalOp V → PhysicalOp V) (op : POp V) :
    (op.update change).forgetful = op.forgetful := by
  cases op <;> rfl

theorem pointing_update (change : PhysicalOp V → PhysicalOp V) (op : POp V) :
    (op.update change).pointing = op.pointing := by
  cases op <;> rfl

theorem load_produce (daemonClient : Option V.AWSClient) (op : POp V) (name : String) :
    (op.produce name).load daemonClient = (op.load daemonClient).produce name := by
  cases op <;> rfl

theorem visible_produce (op : POp V) (name : String) : (op.produce name).visible = op.visible.produce name := by
  cases op <;> rfl

theorem awsClient_produce (op : POp V) (name : String) : (op.produce name).awsClient = op.awsClient := by
  cases op <;> rfl

theorem forgetful_produce (op : POp V) (name : String) : (op.produce name).forgetful = op.forgetful := by
  cases op <;> rfl

theorem pointing_produce (op : POp V) (name : String) : (op.produce name).pointing = op.pointing := by
  cases op <;> rfl

end POp

section Built
variable (getName : V.Table → String) (makeWithNullTable : V.TupleSet)

/-- The operators that the transformers build: a constructor, and then calls that connect and name. -/
inductive Built : POp V → Prop where
  | aggregate (queryId : Int) (name : String) (projectColumnNames : List String) (nodeId : Int)
    (functions : List V.AggregateFunction) :
      Built (.aggregate (.make queryId name projectColumnNames nodeId functions))
  | cacheLoad (queryId : Int) (name : String) (projectColumnNames : List String) (nodeId : Int)
      (predicateColumnNames columnNames : List String) (partition : V.Partition) (startOffset finishOffset : Int)
      (s3ClientType : S3ClientType) : Built (.cacheLoad
        (.make queryId name projectColumnNames nodeId predicateColumnNames columnNames
        partition startOffset finishOffset s3ClientType))
  | collate (queryId : Int) (name : String) (projectColumnNames : List String) (nodeId : Int) :
      Built (.collate (.make queryId name projectColumnNames nodeId))
  | fileScan (queryId : Int) (name : String) (columnNames : List String) (nodeId : Int) (filePath : String)
    (reader : V.FileReader)
      (startOffset finishOffset : Int) (scanOnStart : Bool) :
      Built (.fileScan (.make queryId name columnNames nodeId filePath reader startOffset finishOffset scanOnStart))
  | filter (queryId : Int) (name : String) (projectColumnNames : List String) (nodeId : Int)
    (predicate : Option V.Expression)
      (table : Option V.Table) (weightedSegmentKeys : List V.SegmentKey) :
      Built (.filter (.make queryId name projectColumnNames nodeId predicate table weightedSegmentKeys makeWithNullTable))
  | group (queryId : Int) (name : String) (projectColumnNames : List String) (nodeId : Int)
    (groupColumnNames : List String)
      (aggregateFunctions : List V.AggregateFunction) :
      Built (.group (.make queryId name projectColumnNames nodeId groupColumnNames aggregateFunctions))
  | hashJoinBuild (queryId : Int) (name : String) (projectColumnNames : List String) (nodeId : Int)
    (predColumnNames : List String) :
      Built (.hashJoinBuild (.make queryId name projectColumnNames nodeId predColumnNames))
  | hashJoinProbe (queryId : Int) (name : String) (projectColumnNames : List String) (nodeId : Int)
    (pred : HashJoinPredicate)
      (joinType : JoinType) : Built (.hashJoinProbe (.make queryId name projectColumnNames nodeId pred joinType))
  | nestedLoopJoin (queryId : Int) (name : String) (projectColumnNames : List String) (nodeId : Int)
    (predicate : Option V.Expression)
      (involvedColumnNames : List String) (joinType : JoinType) (op : NestedLoopJoinPOp V)
      (made : NestedLoopJoinPOp.make queryId name projectColumnNames nodeId predicate involvedColumnNames joinType = .ok op) :
      Built (.nestedLoopJoin op)
  | limitSort (queryId : Int) (name : String) (projectColumnNames : List String) (nodeId k : Int)
    (sortKeys : List SortKey) :
      Built (.limitSort (.make queryId name projectColumnNames nodeId k sortKeys))
  | merge (queryId : Int) (name : String) (projectColumnNames : List String) (nodeId : Int) :
      Built (.merge (.make queryId name projectColumnNames nodeId))
  | project (queryId : Int) (name : String) (projectColumnNames : List String) (nodeId : Int)
    (exprs : List V.Expression)
      (exprNames : List String) (projectColumnNamePairs : List (String × String)) :
      Built (.project (.make queryId name projectColumnNames nodeId exprs exprNames projectColumnNamePairs))
  | s3Get (queryId : Int) (name : String) (projectColumnNames : List String) (nodeId : Int) (s3Bucket s3Object : String)
      (startOffset finishOffset : Nat) (table : V.Table) (awsClient : V.AWSClient) (scanOnStart toCache : Bool) :
      Built (.s3Get (.make queryId name projectColumnNames nodeId s3Bucket s3Object startOffset finishOffset table awsClient scanOnStart
        toCache))
  | s3Select (queryId : Int) (name : String) (projectColumnNames : List String) (nodeId : Int)
    (s3Bucket s3Object filterSql : String)
      (startOffset finishOffset : Nat) (table : V.Table) (awsClient : V.AWSClient) (scanOnStart toCache : Bool)
      (weightedSegmentKeys : List V.SegmentKey) :
        Built (.s3Select (.make queryId name projectColumnNames nodeId s3Bucket s3Object filterSql
        startOffset finishOffset table awsClient scanOnStart toCache weightedSegmentKeys))
  | shuffle (queryId : Int) (name : String) (projectColumnNames : List String) (nodeId : Int)
    (shuffleColumnNames : List String) :
      Built (.shuffle (.make queryId name projectColumnNames nodeId shuffleColumnNames))
  | sort (queryId : Int) (name : String) (projectColumnNames : List String) (nodeId : Int) (sortKeys : List SortKey) :
      Built (.sort (.make queryId name projectColumnNames nodeId sortKeys))
  | split (queryId : Int) (name : String) (projectColumnNames : List String) (nodeId : Int) :
      Built (.split (.make queryId name projectColumnNames nodeId))
  | deltaMerge (queryId : Int) (name : String) (table : V.Table) (targetPartition : V.Partition)
    (projectColumnNames : List String)
      (nodeId : Int) (cacheHandlerName : String) (predicatesExist : Bool) (keepMapCacheMode : V.KeepMapCacheMode) :
      Built (.deltaMerge (.make getName queryId name table targetPartition projectColumnNames nodeId cacheHandlerName predicatesExist
        keepMapCacheMode))
  | cacheHandler (queryId : Int) (name : String) (targetTable : V.Table) (targetPartition : V.Partition)
      (projectColumnNames : List String) (nodeId : Int) (deltaMergeName : String) :
      Built (.cacheHandler (.make queryId name targetTable targetPartition projectColumnNames nodeId deltaMergeName))
  | setName {op : POp V} (built : Built op) (name : String) : Built (op.update fun base => {base with name := name})
  | setProjectColumnNames {op : POp V} (built : Built op) (projectColumnNames : List String) :
      Built (op.update fun base => {base with projectColumnNames := projectColumnNames})
  | setQueryId {op : POp V} (built : Built op) (queryId : Int) :
    Built (op.update fun base => {base with queryId := queryId})
  | produce {op : POp V} (built : Built op) (name : String) : Built (op.produce name)
  | consume {op : POp V} (built : Built op) (name : String) : Built (op.update fun base => base.consume name)
  | setHitOperator {op : CacheLoadPOp V} (built : Built (.cacheLoad op)) (name : String) :
    Built (.cacheLoad (op.setHitOperator name))
  | setMissOperatorToCache {op : CacheLoadPOp V} (built : Built (.cacheLoad op)) (name : String) :
      Built (.cacheLoad (op.setMissOperatorToCache name))
  | setMissOperatorToPushdown {op : CacheLoadPOp V} (built : Built (.cacheLoad op)) (name : String) :
      Built (.cacheLoad (op.setMissOperatorToPushdown name))
  | setLeftProducer {op : MergePOp V} (built : Built (.merge op)) (name : String) :
    Built (.merge (op.setLeftProducer name))
  | setRightProducer {op : MergePOp V} (built : Built (.merge op)) (name : String) :
    Built (.merge (op.setRightProducer name))
  | addLeftProducer {op : NestedLoopJoinPOp V} (built : Built (.nestedLoopJoin op)) (name : String) :
      Built (.nestedLoopJoin (op.addLeftProducer name))
  | addRightProducer {op : NestedLoopJoinPOp V} (built : Built (.nestedLoopJoin op)) (name : String) :
      Built (.nestedLoopJoin (op.addRightProducer name))

end Built

section Restored
variable {getName : V.Table → String} {makeWithNullTable : V.TupleSet} {daemonClient : Option V.AWSClient}

/-- What loading gives: all that is read of an operator whose client is that of the node. In the two other classes
a pointer is lost. -/
structure Restored (daemonClient : Option V.AWSClient) (op : POp V) : Prop where
  whole : op.forgetful = false → (∀ client, op.awsClient = some client → daemonClient = some client) →
    (op.load daemonClient).visible = op.visible
  pointing : op.pointing = true

theorem Restored.update {op : POp V} (restored : Restored daemonClient op) (change : PhysicalOp V → PhysicalOp V) :
    Restored daemonClient (op.update change) where
  whole remembers same := by
    rw [POp.forgetful_update] at remembers
    rw [POp.awsClient_update] at same
    rw [POp.load_update,POp.visible_update,POp.visible_update,restored.whole remembers same]
  pointing := (POp.pointing_update change op).trans restored.pointing

theorem Restored.produce {op : POp V} (restored : Restored daemonClient op) (name : String) :
    Restored daemonClient (op.produce name) where
  whole remembers same := by
    rw [POp.forgetful_produce] at remembers
    rw [POp.awsClient_produce] at same
    rw [POp.load_produce,POp.visible_produce,POp.visible_produce,restored.whole remembers same]
  pointing := (POp.pointing_produce op name).trans restored.pointing

theorem Restored.of_eq {op : POp V} (same : (op.load daemonClient).visible = op.visible)
    (pointing : op.pointing = true) :
    Restored daemonClient op := ⟨fun _ _ => same,pointing⟩

theorem NestedLoopJoinPOp.load_made {queryId : Int} {name : String} {projectColumnNames : List String} {nodeId : Int}
    {predicate : Option V.Expression} {involvedColumnNames : List String} {joinType : JoinType}
    {op : NestedLoopJoinPOp V}
    (made : NestedLoopJoinPOp.make queryId name projectColumnNames nodeId predicate involvedColumnNames joinType = .ok op) :
    op.inspect .zero = op := by
  cases joinType with
  | semi => cases made
  | inner | left | right | full =>
    obtain rfl := Except.ok.inj made
    rfl

theorem Built.restored {op : POp V} (built : Built getName makeWithNullTable op) : Restored daemonClient op := by
  induction built with
  | aggregate | cacheLoad | collate | fileScan | filter | group | hashJoinBuild | limitSort | merge | project | shuffle | sort | split =>
    exact .of_eq rfl rfl
  | hashJoinProbe queryId name projectColumnNames nodeId pred joinType =>
    cases joinType <;> exact .of_eq rfl rfl
  | nestedLoopJoin queryId name projectColumnNames nodeId predicate involvedColumnNames joinType op made =>
    exact .of_eq (congrArg POp.nestedLoopJoin (NestedLoopJoinPOp.load_made made)) rfl
  | s3Get queryId name projectColumnNames nodeId s3Bucket s3Object startOffset finishOffset table awsClient =>
    refine ⟨fun _ same => ?_,rfl⟩
    obtain rfl := same awsClient rfl
    rfl
  | s3Select queryId name projectColumnNames nodeId s3Bucket s3Object filterSql startOffset finishOffset table awsClient =>
    refine ⟨fun _ same => ?_,rfl⟩
    obtain rfl := same awsClient rfl
    rfl
  | deltaMerge | cacheHandler => exact ⟨fun wrong => absurd wrong Bool.true_eq_false.mp,rfl⟩
  | setName _ _ ih | setProjectColumnNames _ _ ih | setQueryId _ _ ih | consume _ _ ih => exact ih.update _
  | produce _ name ih => exact ih.produce name
  | setHitOperator | setMissOperatorToCache | setMissOperatorToPushdown => exact .of_eq rfl rfl
  | setLeftProducer _ name ih =>
    have loaded := POp.merge.inj (ih.whole rfl fun _ wrong => by cases wrong)
    exact .of_eq (congrArg (fun op => POp.merge (MergePOp.setLeftProducer op name)) loaded) rfl
  | setRightProducer _ name ih =>
    have loaded := POp.merge.inj (ih.whole rfl fun _ wrong => by cases wrong)
    exact .of_eq (congrArg (fun op => POp.merge (MergePOp.setRightProducer op name)) loaded) rfl
  | addLeftProducer _ name ih =>
    have loaded := POp.nestedLoopJoin.inj (ih.whole rfl fun _ wrong => by cases wrong)
    exact .of_eq (congrArg (fun op => POp.nestedLoopJoin (NestedLoopJoinPOp.addLeftProducer op name)) loaded) rfl
  | addRightProducer _ name ih =>
    have loaded := POp.nestedLoopJoin.inj (ih.whole rfl fun _ wrong => by cases wrong)
    exact .of_eq (congrArg (fun op => POp.nestedLoopJoin (NestedLoopJoinPOp.addRightProducer op name)) loaded) rfl

end Restored

/-! What the two classes do with a message, and all classes with a sequence of messages. -/

inductive Message (V : Values) where
  | start
  | tuple (tuples : V.TupleSet)
  | complete (allProducersComplete isComplete : Bool)
  | loadRequest (table : Option V.Table) (deltaKey : Int) (sender : String) (queryId : Int)
  | loadResponse (table : Option V.Table) (deltas : List V.DeltaCacheData) (stableBm : Option (List UInt8))
    (sender : String)
  | mergedDelta (table : Option V.Table) (partition : Int) (mergedDelta : V.TupleSet)
    (stableBm : Option (List UInt8)) (sender : String)
  | diskDeltas (tuples : V.TupleSet) (timestamp : Int)
  | other (content : V.Message)

inductive Queue where
  | lo_batchQueue
  | c_batchQueue
  | s_batchQueue
  | p_batchQueue
  | d_batchQueue
deriving DecidableEq

inductive Act (V : Values) where
  | send (message : Message V) (recipientId : String)
  | tell (tuples : Option V.TupleSet)
  | notifyComplete
  | notifyError (content : String)
  | push (queue : Queue) (batch : V.ArrowTable)
  | request (awsClient : Option V.AWSClient)
  | other (act : V.Act)

inductive Fault where
  | nullPointer
  | outOfRange
  | raised (message : String)
deriving DecidableEq

/-- What the merges give: batches to push, and the merged delta or the operator after a batch. All but the first go
through the keep map. -/
structure Merges (V : Values) where
  noMerge : List V.TupleSet → List String → Except String (List V.ArrowTable)
  deltaMerge : DeltaMergePOp V → V.KeepMapCacheMode → Except String (List V.ArrowTable × Message V)
  projectExist : V.TupleSet → List String → Except String V.ArrowTable
  stablesBatchedDeltaMerge : DeltaMergePOp V → V.KeepMapCacheMode → V.TupleSet → Int →
    Except String (List V.ArrowTable × DeltaMergePOp V)
  deltasDeltaMerge : DeltaMergePOp V → V.KeepMapCacheMode → Except String (List V.ArrowTable × Message V)

/-- The queue of a table. -/
def queueOf (tableName : String) : Queue :=
  if tableName = "lineorder" then .lo_batchQueue
  else if tableName = "customer" then .c_batchQueue
  else if tableName = "supplier" then .s_batchQueue
  else if tableName = "part" then .p_batchQueue
  else .d_batchQueue

namespace DeltaMergePOp
variable (toRawPartition : V.Partition → Int) (merges : Merges V) (flag : Bool)

def addToQueueAndNotify (op : DeltaMergePOp V) (batches : List V.ArrowTable) : List (Act V) :=
  batches.map (Act.push (queueOf op.tableName))

/-- `keepMapCacheMode_->`. -/
def keepMap (op : DeltaMergePOp V) : Except Fault V.KeepMapCacheMode :=
  match op.keepMapCacheMode with
  | none => .error .nullPointer
  | some keepMapCacheMode => .ok keepMapCacheMode

def onStart (op : DeltaMergePOp V) : Except Fault (DeltaMergePOp V × List (Act V)) :=
  match op.targetPartition with
  | none => .error .nullPointer
  | some targetPartition =>
    .ok (op,[.send (.loadRequest op.targetTable (toRawPartition targetPartition) op.name op.queryId) op.cacheHandlerName])

def clear (op : DeltaMergePOp V) : DeltaMergePOp V := {op with stables := [], deltas := []}

def onComplete (op : DeltaMergePOp V) (allProducersComplete isComplete : Bool) : DeltaMergePOp V × List (Act V) :=
  if !isComplete && allProducersComplete then (op.clear,[.notifyComplete]) else (op,[])

def deltaMerge (op : DeltaMergePOp V) : Except Fault (List (Act V)) :=
  if op.deltas.isEmpty then do
    let batches ← (merges.noMerge op.stables op.projectColumnNames).mapError .raised
    .ok (op.addToQueueAndNotify batches ++ [.tell none])
  else do
    let keepMapCacheMode ← op.keepMap
    let merged ← (merges.deltaMerge op keepMapCacheMode).mapError .raised
    .ok (op.addToQueueAndNotify merged.1 ++ [.send merged.2 "DeltaCache",.tell none])

def stablesBatchedDeltaMerge (op : DeltaMergePOp V) (batch : V.TupleSet) (batchCnt : Int) :
    Except Fault (DeltaMergePOp V × List (Act V)) :=
  if op.deltas.isEmpty then do
    let projected ← (merges.projectExist batch op.projectColumnNames).mapError .raised
    .ok (op,op.addToQueueAndNotify [projected] ++ [.tell none])
  else do
    let keepMapCacheMode ← op.keepMap
    let merged ← (merges.stablesBatchedDeltaMerge op keepMapCacheMode batch batchCnt).mapError .raised
    .ok (merged.2,op.addToQueueAndNotify merged.1 ++ [.tell none])

def deltasDeltaMerge (op : DeltaMergePOp V) : Except Fault (List (Act V)) :=
  if op.deltas.isEmpty then .ok []
  else do
    let keepMapCacheMode ← op.keepMap
    let merged ← (merges.deltasDeltaMerge {op with lastBatch := true} keepMapCacheMode).mapError .raised
    .ok (op.addToQueueAndNotify merged.1 ++ [.send merged.2 "DeltaCache"])

/-- The parked batch at `earlyStableChunkIdx`. -/
def mergeParked (op : DeltaMergePOp V) : Except Fault (DeltaMergePOp V × List (Act V)) :=
  match op.stables[op.earlyStableChunkIdx.toNat]?,op.earlyChunkBatchCnt[op.earlyStableChunkIdx.toNat]? with
  | some batch,some batchCnt => op.stablesBatchedDeltaMerge merges batch batchCnt
  | _,_ => .error .outOfRange

/-- The loop of the last COMPLETE, which compares an int with a size. -/
def releaseParked : Nat → DeltaMergePOp V → Except Fault (DeltaMergePOp V × List (Act V))
  | 0,op => .ok (op,[])
  | turns+1,op =>
    if op.earlyStableChunkIdx%18446744073709551616 < ((op.stables.length : Int)-1)%18446744073709551616 then do
      let merged ← mergeParked merges {op with earlyStableChunkIdx := op.earlyStableChunkIdx+1}
      let rest ← releaseParked turns merged.1
      .ok (rest.1,merged.2 ++ rest.2)
    else .ok (op,[])

def onTuple (op : DeltaMergePOp V) (tuples : V.TupleSet) : Except Fault (DeltaMergePOp V × List (Act V)) :=
  let op := {op with stableTuplesReceived := true}
  if flag = false then .ok ({op with stables := op.stables ++ [tuples]},[])
  else
    let op := {op with batchCounter := op.batchCounter+1}
    if op.stableTuplesReceived && op.deltasReceived then op.stablesBatchedDeltaMerge merges tuples op.batchCounter
    else .ok ({op with earlyChunkBatchCnt := op.earlyChunkBatchCnt ++ [op.batchCounter], stables := op.stables ++ [tuples]},[])

def onLoadResponse (op : DeltaMergePOp V) (deltas : List V.DeltaCacheData) (stableBm : Option (List UInt8)) :
    Except Fault (DeltaMergePOp V × List (Act V)) :=
  let op := {op with deltas := deltas, stableBm := stableBm, deltasReceived := true}
  if flag && op.stableTuplesReceived && op.deltasReceived then
    mergeParked merges {op with earlyStableChunkIdx := if op.earlyStableChunkIdx = -1 then 0 else op.earlyStableChunkIdx+1}
  else .ok (op,[])

def onReceive (op : DeltaMergePOp V) : Message V → Except Fault (DeltaMergePOp V × List (Act V))
  | .start => op.onStart toRawPartition
  | .tuple tuples => op.onTuple merges flag tuples
  | .loadResponse _ deltas stableBm _ => op.onLoadResponse merges flag deltas stableBm
  | .diskDeltas tuples timestamp =>
    .ok ({op with diskDeltas := op.diskDeltas ++ [tuples], diskDeltasTimestamps := op.diskDeltasTimestamps ++ [timestamp]},[])
  | .complete allProducersComplete isComplete =>
    if flag = false then do
      let acts ← if allProducersComplete then op.deltaMerge merges else .ok []
      let completed := op.onComplete allProducersComplete isComplete
      .ok (completed.1,acts ++ completed.2)
    else if allProducersComplete then do
      let released ← releaseParked merges (op.stables.length+1) op
      let acts ← released.1.deltasDeltaMerge merges
      let completed := released.1.onComplete allProducersComplete isComplete
      .ok (completed.1,released.2 ++ acts ++ completed.2)
    else .ok (op,[])
  | _ => .ok (op,[.notifyError "Unrecognized message type "])

end DeltaMergePOp

namespace CacheHandlerPOp

/-- The name that is put together from table and partition is not used. -/
def onReceiveResponse (op : CacheHandlerPOp V) (table : Option V.Table) (deltas : List V.DeltaCacheData)
    (stableBm : Option (List UInt8)) :
    Except Fault (CacheHandlerPOp V × List (Act V)) :=
  match op.targetTable,op.targetPartition with
  | some _,some _ => .ok (op,[.send (.loadResponse table deltas stableBm op.name) op.deltaMergeName,.notifyComplete])
  | _,_ => .error .nullPointer

def onReceive (op : CacheHandlerPOp V) : Message V → Except Fault (CacheHandlerPOp V × List (Act V))
  | .start => .ok (op,[])
  | .loadRequest table deltaKey sender _ =>
    .ok ({op with deltaMergeName := sender},[.send (.loadRequest table deltaKey op.name op.queryId) "DeltaCache"])
  | .loadResponse table deltas stableBm _ => op.onReceiveResponse table deltas stableBm
  | .mergedDelta table partition mergedDelta stableBm _ =>
    .ok (op,[.send (.mergedDelta table partition mergedDelta stableBm op.name) "DeltaCache"])
  | _ => .error (.raised "Unrecognized message type: {}, {}")

end CacheHandlerPOp

abbrev Handlers (V : Values) := POp V → Message V → Except Fault (POp V × List (Act V))

namespace POp
variable (handlers : Handlers V) (toRawPartition : V.Partition → Int) (merges : Merges V) (flag : Bool)

/-- `onReceive`. -/
def receive : POp V → Message V → Except Fault (POp V × List (Act V))
  | .deltaMerge op,message => (op.onReceive toRawPartition merges flag message).map fun after => (.deltaMerge after.1,after.2)
  | .cacheHandler op,message => (op.onReceive message).map fun after => (.cacheHandler after.1,after.2)
  | op,message => handlers op.visible message

/-- What an operator does with some messages, up to the first fault. -/
def react (op : POp V) : List (Message V) → List (Act V) × Option Fault
  | [] => ([],none)
  | message::messages =>
    match op.receive handlers toRawPartition merges flag message with
    | .error fault => ([],some fault)
    | .ok (after,acts) =>
      let rest := after.react messages
      (acts ++ rest.1,rest.2)

theorem receive_visible {op : POp V} (remembers : op.forgetful = false) (message : Message V) :
    op.receive handlers toRawPartition merges flag message = handlers op.visible message := by
  cases op with
  | deltaMerge | cacheHandler => cases remembers
  | _ => rfl

theorem react_congr {op other : POp V} (remembers : op.forgetful = false) (remembers' : other.forgetful = false)
    (same : op.visible = other.visible) (messages : List (Message V)) :
    op.react handlers toRawPartition merges flag messages =
    other.react handlers toRawPartition merges flag messages := by
  cases messages with
  | nil => rfl
  | cons message messages =>
    rw [react,react,receive_visible handlers toRawPartition merges flag remembers,
      receive_visible handlers toRawPartition merges flag remembers',same]

theorem forgetful_load (daemonClient : Option V.AWSClient) (op : POp V) :
    (op.load daemonClient).forgetful = op.forgetful := by
  cases op <;> rfl

end POp

section Forgetful
variable (handlers : Handlers V) (toRawPartition : V.Partition → Int) (merges : Merges V) (flag : Bool)
    (deltas : V.DeltaCacheData)
  (tuples : V.TupleSet)

/-- Deltas and a stable batch, and the COMPLETE that an unbatched merge waits for. -/
def oneRound : List (Message V) :=
  [.loadResponse none [deltas] none "",.tuple tuples] ++ if flag then [] else [.complete true false]

omit deltas tuples in
theorem POp.react_single (op : POp V) (message : Message V) (fault : Fault) :
    (op.react handlers toRawPartition merges flag [message]).2 = some fault ↔
      op.receive handlers toRawPartition merges flag message = .error fault := by
  rw [react]
  cases op.receive handlers toRawPartition merges flag message with
  | error other => exact ⟨fun same => congrArg _ (Option.some.inj same),fun same => congrArg _ (Except.error.inj same)⟩
  | ok after =>
    refine ⟨fun wrong => ?_,fun wrong => ?_⟩
    · cases wrong
    · cases wrong

namespace DeltaMergePOp

omit deltas tuples in
theorem deltaMerge_null_iff {op : DeltaMergePOp V} (some : op.deltas ≠ []) :
    op.deltaMerge merges = .error .nullPointer ↔ op.keepMapCacheMode = none := by
  have filled : ¬op.deltas.isEmpty = true := fun empty => some (List.isEmpty_iff.mp empty)
  unfold deltaMerge keepMap
  rw [if_neg filled]
  cases op.keepMapCacheMode with
  | none => exact ⟨fun _ => rfl,fun _ => rfl⟩
  | some mode =>
    refine ⟨fun wrong => ?_,fun wrong => ?_⟩
    · cases merged : merges.deltaMerge op mode with
      | error message => simp [merged,Except.mapError,bind,Except.bind] at wrong
      | ok result => simp [merged,Except.mapError,bind,Except.bind] at wrong
    · cases wrong

omit deltas tuples in
theorem stablesBatchedDeltaMerge_null_iff {op : DeltaMergePOp V} (some : op.deltas ≠ []) (batch : V.TupleSet)
    (batchCnt : Int) :
    op.stablesBatchedDeltaMerge merges batch batchCnt = .error .nullPointer ↔ op.keepMapCacheMode = none := by
  have filled : ¬op.deltas.isEmpty = true := fun empty => some (List.isEmpty_iff.mp empty)
  unfold stablesBatchedDeltaMerge keepMap
  rw [if_neg filled]
  cases op.keepMapCacheMode with
  | none => exact ⟨fun _ => rfl,fun _ => rfl⟩
  | some mode =>
    refine ⟨fun wrong => ?_,fun wrong => ?_⟩
    · cases merged : merges.stablesBatchedDeltaMerge op mode batch batchCnt with
      | error message => simp [merged,Except.mapError,bind,Except.bind] at wrong
      | ok result => simp [merged,Except.mapError,bind,Except.bind] at wrong
    · cases wrong

theorem oneRound_faults {op : DeltaMergePOp V} (waiting : op.stableTuplesReceived = false) :
    ((POp.deltaMerge op).react handlers toRawPartition merges flag (oneRound flag deltas tuples)).2 =
    some .nullPointer ↔
      op.keepMapCacheMode = none := by
  let responded : DeltaMergePOp V := {op with deltas := [deltas], stableBm := none, deltasReceived := true}
  have response : op.onLoadResponse merges flag [deltas] none = .ok (responded,[]) := by
    have quiet : ¬(flag && op.stableTuplesReceived && true) = true := by
      rw [waiting,Bool.and_false,Bool.false_and]
      exact Bool.false_ne_true
    exact if_neg quiet
  have first (messages : List (Message V)) :
      (POp.deltaMerge op).react handlers toRawPartition merges flag (.loadResponse none [deltas] none ""::messages) =
        (POp.deltaMerge responded).react handlers toRawPartition merges flag messages := by
    rw [POp.react,POp.receive,onReceive,response]
    rfl
  unfold oneRound
  rw [List.cons_append,first]
  cases flag with
  | true =>
    rw [if_pos rfl,List.append_nil,POp.react_single,POp.receive,map_eq_error]
    let batched : DeltaMergePOp V := {responded with stableTuplesReceived := true, batchCounter := op.batchCounter+1}
    exact @stablesBatchedDeltaMerge_null_iff V merges batched (List.cons_ne_nil _ _) tuples (op.batchCounter+1)
  | false =>
    let parked : DeltaMergePOp V := {responded with stableTuplesReceived := true, stables := op.stables ++ [tuples]}
    have second : (POp.deltaMerge responded).react handlers toRawPartition merges false [.tuple tuples,
        .complete true false] =
        (POp.deltaMerge parked).react handlers toRawPartition merges false [.complete true false] := rfl
    rw [if_neg Bool.false_ne_true,List.singleton_append,second,POp.react_single,POp.receive,map_eq_error]
    have null := @deltaMerge_null_iff V merges parked (List.cons_ne_nil _ _)
    rw [← null,onReceive,if_pos rfl,if_pos rfl]
    dsimp only
    rw [bind_ok]
    exact map_eq_error

end DeltaMergePOp

theorem CacheHandlerPOp.response_faults (op : CacheHandlerPOp V) :
    ((POp.cacheHandler op).react handlers toRawPartition merges flag [.loadResponse none [] none ""]).2 =
    some .nullPointer ↔
      ¬(op.targetTable.isSome && op.targetPartition.isSome) = true := by
  rw [POp.react_single,POp.receive,map_eq_error,onReceive,onReceiveResponse]
  cases op.targetTable with
  | none => exact ⟨fun _ => Bool.false_ne_true,fun _ => rfl⟩
  | some table =>
    cases op.targetPartition with
    | none => exact ⟨fun _ => Bool.false_ne_true,fun _ => rfl⟩
    | some partition =>
      refine ⟨fun wrong => ?_,fun wrong => absurd rfl wrong⟩
      cases wrong

variable {getName : V.Table → String} {makeWithNullTable : V.TupleSet} {op : POp V}

include deltas tuples in
theorem Built.forgets (built : Built getName makeWithNullTable op) (forgetful : op.forgetful = true)
    (daemonClient : Option V.AWSClient) :
    ∃ messages, (op.load daemonClient).react handlers toRawPartition merges flag messages ≠
      op.react handlers toRawPartition merges flag messages := by
  have points := (@Built.restored V getName makeWithNullTable daemonClient op built).pointing
  cases op with
  | deltaMerge op =>
    obtain ⟨set,waiting⟩ := Bool.and_eq_true_iff.mp points
    refine ⟨oneRound flag deltas tuples,fun same => ?_⟩
    have lost := (@DeltaMergePOp.oneRound_faults V handlers toRawPartition merges flag deltas tuples
        (op.inspect .zero) rfl).mpr rfl
    rw [POp.load] at same
    rw [same,DeltaMergePOp.oneRound_faults handlers toRawPartition merges flag deltas tuples
      (Bool.not_eq_true' _ ▸ waiting)] at lost
    rw [lost] at set
    cases set
  | cacheHandler op =>
    refine ⟨[.loadResponse none [] none ""],fun same => ?_⟩
    have lost : ((POp.cacheHandler (op.inspect .zero)).react handlers toRawPartition merges flag [.loadResponse none [] none ""]).2 =
        some .nullPointer := by
      rw [CacheHandlerPOp.response_faults]
      exact fun wrong => Bool.false_ne_true ((Bool.and_false _).symm.trans wrong)
    rw [POp.load] at same
    rw [same,CacheHandlerPOp.response_faults] at lost
    exact lost points
  | _ => cases forgetful

end Forgetful

section
variable {getName : V.Table → String} {makeWithNullTable : V.TupleSet} {op : POp V}

theorem POp.awsClient_visible (op : POp V) : op.visible.awsClient = op.awsClient := by
  cases op <;> rfl

/-- A loaded operator reacts as the original exactly where its class is none of the two and the node has its client. -/
theorem remoteSpawn_reacts_iff (built : Built getName makeWithNullTable op) (daemonClient : Option V.AWSClient)
    (toRawPartition : V.Partition → Int) (merges : Merges V) (flag : Bool) (deltas : V.DeltaCacheData)
    (tuples : V.TupleSet) :
    (∀ handlers messages, (op.load daemonClient).react handlers toRawPartition merges flag messages =
        op.react handlers toRawPartition merges flag messages) ↔
      op.forgetful = false ∧ ∀ client, op.awsClient = some client → daemonClient = some client := by
  constructor
  · intro same
    have remembers : op.forgetful = false := by
      by_contra forgetful
      obtain ⟨messages,differs⟩ := Built.forgets (fun op _ => .ok (op,[])) toRawPartition merges flag deltas tuples built
        ((Bool.not_eq_false _).mp forgetful) daemonClient
      exact differs (same _ messages)
    refine ⟨remembers,fun client mine => ?_⟩
    let asking : Handlers V := fun op _ => .ok (op,[.request op.awsClient])
    have asked := same asking [.start]
    rw [POp.react,POp.react,POp.receive_visible _ _ _ _ remembers,
      POp.receive_visible _ _ _ _ ((POp.forgetful_load daemonClient op).trans remembers)] at asked
    have clients : (op.load daemonClient).visible.awsClient = op.visible.awsClient :=
        Act.request.inj (List.cons.inj (congrArg Prod.fst asked)).1
    rw [POp.awsClient_visible,POp.awsClient_visible,mine] at clients
    cases op with
    | s3Get | s3Select => exact clients
    | _ => cases mine
  · rintro ⟨remembers,client⟩ handlers messages
    apply POp.react_congr _ _ _ _ ((POp.forgetful_load daemonClient op).trans remembers) remembers
    exact (built.restored).whole remembers client

end

abbrev plain : Values :=
  ⟨Unit,Unit,Unit,Unit,Unit,Unit,Unit,Unit,String,Unit,Unit,Unit,Unit,Unit,Unit,Unit,Unit,Unit,Unit,Unit,Unit,Unit,(),
    Unit,Unit⟩

def plainName (table : plain.Table) : String := table

def plainMerges : Merges plain :=
  ⟨fun _ _ => .ok [()],fun _ _ => .ok ([()],.start),fun _ _ => .ok (),fun op _ _ _ => .ok ([()],op),
    fun _ _ => .ok ([()],.start)⟩

def shuffleA : ShufflePOp plain := .make 0 "shuffle" ["a"] 1 ["a"]

theorem shuffle_reacts :
    ((POp.shuffle shuffleA).load none).react (fun op _ => .ok (op,[])) (fun _ => 0) plainMerges false [.tuple (),
      .complete true false] =
      (POp.shuffle shuffleA).react (fun op _ => .ok (op,[])) (fun _ => 0) plainMerges false [.tuple (),
        .complete true false] := by
  have built : Built plainName () (.shuffle shuffleA) := .shuffle 0 "shuffle" ["a"] 1 ["a"]
  exact (remoteSpawn_reacts_iff built none (fun _ => 0) plainMerges false () ()).mpr ⟨rfl,
    fun _ wrong => by cases wrong⟩ _ _

def mergeLineorder : DeltaMergePOp plain :=
  .make plainName 1 "DeltaMerge-lineorder" "lineorder" () ["lo_orderkey"] 1 "CacheHandler-lineorder" false ()

def withoutDeltas : List (Message plain) := [.loadResponse none [] none "",.tuple (),.complete true false]

/-- The batches of a table without deltas, from both operators. -/
theorem lineorder_in_date_queue : Built plainName () (.deltaMerge mergeLineorder) ∧
    (POp.deltaMerge mergeLineorder).react (fun op _ => .ok (op,[])) (fun _ => 0) plainMerges false withoutDeltas =
      ([.push .lo_batchQueue (),.tell none,.notifyComplete],none) ∧
    ((POp.deltaMerge mergeLineorder).load none).react (fun op _ => .ok (op,[]))
    (fun _ => 0) plainMerges false withoutDeltas =
      ([.push .d_batchQueue (),.tell none,.notifyComplete],none) := by
  refine ⟨?_,rfl,rfl⟩
  exact @Built.deltaMerge plain plainName () 1 "DeltaMerge-lineorder" "lineorder" () ["lo_orderkey"] 1 "CacheHandler-lineorder" false ()

end Hermes.Serialization
