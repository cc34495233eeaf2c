import Hermes.HybridScan
import Hermes.POpSerializer
import Hermes.PrePhysicalOp

/-! `PrePToPTransformer` and `PrePToS3PTransformer`: the physical operators of a plan and how they are connected.
An operator is its place in `allPOps`, where the operators of the vectors that hold pointers are looked up. The
arguments that only an operator's own class reads are left out. -/
namespace Hermes.Transform
open Hermes.HybridScan (union)
open Hermes.Prephysical (AggregatePrePFunctionType)
open Hermes.Serialization (Values PhysicalOp POpType)
open Hermes.Tuples (canonicalize)
variable {V : Values} {E : Type}

inductive Mode where
  | pullUp
  | pushdownOnly
  | cachingOnly
  | hybrid

@[ext]
structure S3Partition where
  s3Bucket : String
  s3Object : String
deriving DecidableEq

/-- The fields are the texts of the schema's fields. The reader of a catalogue entry puts all partitions into one bucket. -/
structure S3Table where
  name : String
  fields : List String
  primaryKeyColumnNames : List String
  s3Partitions : List S3Partition
  oneBucket : ∀ partition ∈ s3Partitions, ∀ other ∈ s3Partitions, partition.s3Bucket = other.s3Bucket

/-- What is left after pruning, in the order of the map: partitions that differ, all with a predicate or all without. -/
structure PartitionPredicates (table : S3Table) (predicate : Option E) where
  entries : List (S3Partition × Option E)
  kept : ∀ entry ∈ entries, entry.1 ∈ table.s3Partitions
  distinct : (entries.map Prod.fst).Nodup
  predicates : ∀ entry ∈ entries, entry.2.isSome = predicate.isSome

inductive PrePhysicalOp (E : Type) where
  | sort (id : Nat) (projectColumnNames : List String) (producer : PrePhysicalOp E)
  | limitSort (id : Nat) (projectColumnNames : List String) (producer : PrePhysicalOp E)
  | aggregate (id : Nat) (projectColumnNames aggOutputColumnNames : List String)
    (functions : List AggregatePrePFunctionType) (producer : PrePhysicalOp E)
  | group (id : Nat) (projectColumnNames : List String) (producer : PrePhysicalOp E)
  | project (id : Nat) (projectColumnNames : List String) (producer : PrePhysicalOp E)
  | filter (id : Nat) (projectColumnNames : List String) (producer : PrePhysicalOp E)
  | hashJoin (id : Nat) (projectColumnNames leftColumnNames rightColumnNames : List String)
    (left right : PrePhysicalOp E)
  | nestedLoopJoin (id : Nat) (projectColumnNames : List String) (left right : PrePhysicalOp E)
  | filterableScan (id : Nat) (projectColumnNames : List String) (table : S3Table) (predicate : Option E)

def PrePhysicalOp.ids : PrePhysicalOp E → List Nat
  | .sort id _ producer => id::producer.ids
  | .limitSort id _ producer => id::producer.ids
  | .aggregate id _ _ _ producer => id::producer.ids
  | .group id _ producer => id::producer.ids
  | .project id _ producer => id::producer.ids
  | .filter id _ producer => id::producer.ids
  | .hashJoin id _ _ _ left right => id::(left.ids ++ right.ids)
  | .nestedLoopJoin id _ left right => id::(left.ids ++ right.ids)
  | .filterableScan id _ _ _ => [id]

def named (kind : String) (id : Nat) (rest : String) : String := kind ++ "[" ++ toString id ++ "]" ++ rest

structure TransRes (V : Values) where
  upConnPOps : List Nat
  allPOps : List (PhysicalOp V)

def deref (allPOps : List (PhysicalOp V)) (pOp : Nat) : PhysicalOp V := allPOps.getD pOp .zero

def connect (allPOps : List (PhysicalOp V)) (edge : Nat × Nat) : List (PhysicalOp V) :=
  (allPOps.modify edge.1 fun producer => producer.produce (deref allPOps edge.2).name).modify edge.2
    fun consumer => consumer.consume (deref allPOps edge.1).name

def connectOneToOne (producers consumers : List Nat) (allPOps : List (PhysicalOp V)) :
    Except String (List (PhysicalOp V)) :=
  if producers.length ≠ consumers.length then
    .error ("Bad one-to-one operator connection input, producers has " ++ toString producers.length ++
      ", but consumers has " ++ toString consumers.length)
  else .ok ((producers.zip consumers).foldl connect allPOps)

def manyToMany (producers consumers : List Nat) : List (Nat × Nat) :=
  producers.flatMap fun producer => consumers.map fun consumer => (producer,consumer)

def connectManyToMany (producers consumers : List Nat) (allPOps : List (PhysicalOp V)) : List (PhysicalOp V) :=
  (manyToMany producers consumers).foldl connect allPOps

def manyToOne (producers : List Nat) (consumer : Nat) :
    List (Nat × Nat) := producers.map fun producer => (producer,consumer)

def connectManyToOne (producers : List Nat) (consumer : Nat) (allPOps : List (PhysicalOp V)) : List (PhysicalOp V) :=
  (manyToOne producers consumer).foldl connect allPOps

def TransRes.append (first second : TransRes V) : TransRes V :=
  ⟨first.upConnPOps ++ second.upConnPOps.map (first.allPOps.length + ·),first.allPOps ++ second.allPOps⟩

/-- The transformer with what it calls elsewhere. The query id is what an operator's constructor leaves uninitialized. -/
structure PrePToPTransformer (E : Type) where
  involvedColumnNames : E → List String
  prune : (table : S3Table) → (predicate : Option E) → PartitionPredicates table predicate
  queryId : Int
  mode : Mode
  parallelDegree : Nat
  numNodes : Nat

def contains (text part : String) : Bool := decide (part.toList <:+: text.toList)

def orderedColumns (fields columns : List String) : List String :=
  fields.flatMap fun field => columns.filter fun column => contains field (column ++ ":")

def orderedFields (fields columns : List String) : List String :=
  fields.flatMap fun field => (columns.filter (contains field)).map fun _ => field

def deltaTables : List String := ["lineorder","supplier","customer","part","date"]

namespace PrePToPTransformer
variable (transformer : PrePToPTransformer E)

def make (name : String) (type : POpType) (projectColumnNames : List String) (nodeId : Int) : PhysicalOp V :=
  .make transformer.queryId name type projectColumnNames nodeId

section S3
variable (id : Nat) (projectColumnNames : List String) (table : S3Table)

/-- An operator of one partition. -/
def partitionPOp (kind : String) (type : POpType) (columnNames : List String) (entry : (S3Partition × Option E) × Nat) :
    PhysicalOp V :=
  transformer.make (named kind id ("-" ++ entry.1.1.s3Bucket ++ "/" ++ entry.1.1.s3Object)) type columnNames
    (entry.2 % transformer.numNodes : Nat)

def predicateColumnNames (predicate : Option E) : List String := (predicate.map transformer.involvedColumnNames).getD []

structure Pullup (V : Values) where
  allPOps : List (PhysicalOp V)
  selfConnDownPOps : List Nat
  filterPOps : List Nat

def Pullup.append (first second : Pullup V) : Pullup V :=
  ⟨first.allPOps ++ second.allPOps,first.selfConnDownPOps ++ second.selfConnDownPOps.map (first.allPOps.length + ·),
    first.filterPOps ++ second.filterPOps.map (first.allPOps.length + ·)⟩

/-- What one partition adds. -/
def pullupPartition (entry : (S3Partition × Option E) × Nat) : Pullup V :=
  let predicateColumnNames := transformer.predicateColumnNames entry.1.2
  if table.name ∈ deltaTables then
    let deltaMergeColumns := union projectColumnNames predicateColumnNames
    let orderedDeltaMergeColumns := orderedColumns table.fields deltaMergeColumns
    let orderedScanColumns := orderedColumns table.fields (union deltaMergeColumns table.primaryKeyColumnNames)
    ⟨[(1,0),(2,0)].foldl connect
        [transformer.partitionPOp id "DeltaMerge" .deltaMerge orderedDeltaMergeColumns entry,
          transformer.partitionPOp id "CacheHandler" .cacheHandler orderedDeltaMergeColumns entry,
          transformer.partitionPOp id "S3Get-Stable" .s3Get orderedScanColumns entry],
      [0],[]⟩
  else
    let scanPOp := transformer.partitionPOp id "S3Get" .s3Get
      (orderedFields table.fields (union projectColumnNames predicateColumnNames)) entry
    match entry.1.2 with
    | some _ => ⟨[(0,1)].foldl connect [scanPOp,transformer.partitionPOp id "Filter" .filter projectColumnNames entry],[0],[1]⟩
    | none => ⟨[scanPOp],[0],[]⟩

def transformFilterableScanPullup (partitionPredicates : List (S3Partition × Option E)) : TransRes V :=
  let res : Pullup V := partitionPredicates.zipIdx.foldl
    (fun res entry => res.append (transformer.pullupPartition id projectColumnNames table entry)) ⟨[],[],[]⟩
  if res.filterPOps = [] then ⟨res.selfConnDownPOps,res.allPOps⟩ else ⟨res.filterPOps,res.allPOps⟩

def pushdownPartition (entry : (S3Partition × Option E) × Nat) : TransRes V :=
  ⟨[0],[transformer.partitionPOp id "S3Select" .s3Select projectColumnNames entry]⟩

def cachingOnlyPartition (entry : (S3Partition × Option E) × Nat) : TransRes V :=
  let projPredColumnNames := union projectColumnNames (transformer.predicateColumnNames entry.1.2)
  let cacheLoadPOp := transformer.partitionPOp id "CacheLoad" .cacheLoad projectColumnNames entry
  let scanPOp := transformer.partitionPOp id "S3Get" .s3Get projPredColumnNames entry
  let mergePOp := transformer.partitionPOp id "Merge" .merge projPredColumnNames entry
  match entry.1.2 with
  | some _ =>
    ⟨[3],[(0,2),(0,1),(1,2),(2,3)].foldl connect
      [cacheLoadPOp,scanPOp,mergePOp,transformer.partitionPOp id "Filter" .filter projectColumnNames entry]⟩
  | none => ⟨[2],[(0,2),(0,1),(1,2)].foldl connect [cacheLoadPOp,scanPOp,mergePOp]⟩

def hybridPartition (entry : (S3Partition × Option E) × Nat) : TransRes V :=
  let projPredColumnNames := union projectColumnNames (transformer.predicateColumnNames entry.1.2)
  let cacheLoadPOp := transformer.partitionPOp id "CacheLoad" .cacheLoad projectColumnNames entry
  let scanPOp := transformer.partitionPOp id "S3Select(cache)" .s3Select projPredColumnNames entry
  let mergePOp1 := transformer.partitionPOp id "merge1" .merge projPredColumnNames entry
  let selectPOp := transformer.partitionPOp id "S3Select(pushdown)" .s3Select projectColumnNames entry
  let mergePOp2 := transformer.partitionPOp id "merge2" .merge projectColumnNames entry
  match entry.1.2 with
  | some _ =>
    ⟨[5],[(0,2),(0,1),(1,2),(2,3),(0,4),(3,5),(4,5)].foldl connect
      [cacheLoadPOp,scanPOp,mergePOp1,transformer.partitionPOp id "Filter" .filter projectColumnNames entry,selectPOp,
        mergePOp2]⟩
  | none =>
    ⟨[4],[(0,2),(0,1),(1,2),(0,3),(2,4),(3,4)].foldl connect [cacheLoadPOp,scanPOp,mergePOp1,selectPOp,mergePOp2]⟩

def eachPartition (partition : (S3Partition × Option E) × Nat → TransRes V)
    (partitionPredicates : List (S3Partition × Option E)) : TransRes V :=
  partitionPredicates.zipIdx.foldl (fun res entry => res.append (partition entry)) ⟨[],[]⟩

def transformFilterableScanPushdown (partitionPredicates : List (S3Partition × Option E)) : TransRes V :=
  eachPartition (transformer.pushdownPartition id projectColumnNames) partitionPredicates

def transformFilterableScanCachingOnly (partitionPredicates : List (S3Partition × Option E)) : TransRes V :=
  eachPartition (transformer.cachingOnlyPartition id projectColumnNames) partitionPredicates

def transformFilterableScanHybrid (partitionPredicates : List (S3Partition × Option E)) : TransRes V :=
  eachPartition (transformer.hybridPartition id projectColumnNames) partitionPredicates

def transformFilterableScan (predicate : Option E) : TransRes V :=
  let partitionPredicates := (transformer.prune table predicate).entries
  match transformer.mode with
  | .pullUp => transformer.transformFilterableScanPullup id projectColumnNames table partitionPredicates
  | .pushdownOnly => transformer.transformFilterableScanPushdown id projectColumnNames partitionPredicates
  | .cachingOnly => transformer.transformFilterableScanCachingOnly id projectColumnNames partitionPredicates
  | .hybrid => transformer.transformFilterableScanHybrid id projectColumnNames partitionPredicates

end S3

section Operators
variable (id : Nat) (projectColumnNames : List String)

def degree : Nat := transformer.parallelDegree * transformer.numNodes

/-- One operator for all that come before. -/
def transformToOne (kind : String) (type : POpType) (producerTransRes : TransRes V) : TransRes V :=
  let allPOps := producerTransRes.allPOps
  ⟨[allPOps.length],connectManyToOne producerTransRes.upConnPOps allPOps.length
    (allPOps ++ [transformer.make (named kind id "") type projectColumnNames 0])⟩

def transformSort (producerTransRes : TransRes V) : TransRes V :=
  transformer.transformToOne id projectColumnNames "Sort" .sort producerTransRes

def transformLimitSort (producerTransRes : TransRes V) : TransRes V :=
  transformer.transformToOne id projectColumnNames "LimitSort" .limitSort producerTransRes

def eachPOps (kind : String) (type : POpType) (producerTransRes : TransRes V) : List (PhysicalOp V) :=
  producerTransRes.upConnPOps.zipIdx.map fun (upConnPOp,i) =>
    transformer.make (named kind id ("-" ++ toString i)) type projectColumnNames
      (deref producerTransRes.allPOps upConnPOp).nodeId

def transformEach (kind : String) (type : POpType) (producerTransRes : TransRes V) : Except String (TransRes V) := do
  let selfPOps := List.range' producerTransRes.allPOps.length producerTransRes.upConnPOps.length
  let allPOps ← connectOneToOne producerTransRes.upConnPOps selfPOps
    (producerTransRes.allPOps ++ transformer.eachPOps id projectColumnNames kind type producerTransRes)
  .ok ⟨selfPOps,allPOps⟩

def transformProject (producerTransRes : TransRes V) : Except String (TransRes V) :=
  transformer.transformEach id projectColumnNames "Project" .project producerTransRes

def transformFilter (producerTransRes : TransRes V) : Except String (TransRes V) :=
  transformer.transformEach id projectColumnNames "Filter" .filter producerTransRes

def parallelAggProjectColumnNames (aggOutputColumnNames : List String) (functions : List AggregatePrePFunctionType) :
    List String :=
  (functions.zip aggOutputColumnNames).flatMap fun (type,aggOutputColumnName) =>
    if type = .avg then ["avg_parallel_sum-" ++ aggOutputColumnName,"avg_parallel_count-" ++ aggOutputColumnName]
    else [aggOutputColumnName]

def transformAggregate (aggOutputColumnNames : List String) (functions : List AggregatePrePFunctionType)
    (producerTransRes : TransRes V) : Except String (TransRes V) :=
  let upConnPOps := producerTransRes.upConnPOps
  let columnNames := if upConnPOps.length > 1 then parallelAggProjectColumnNames aggOutputColumnNames functions else projectColumnNames
  let selfPOps := List.range' producerTransRes.allPOps.length upConnPOps.length
  let allPOps := producerTransRes.allPOps ++ transformer.eachPOps id columnNames "Aggregate" .aggregate producerTransRes
  if upConnPOps.length = 1 then do
    let allPOps ← connectOneToOne upConnPOps selfPOps allPOps
    .ok ⟨selfPOps,allPOps⟩
  else do
    let aggReducePOp := producerTransRes.allPOps.length + upConnPOps.length
    let allPOps := connectManyToOne selfPOps aggReducePOp
      (allPOps ++ [transformer.make (named "Aggregate" id "-Reduce") .aggregate projectColumnNames 0])
    let allPOps ← connectOneToOne upConnPOps selfPOps allPOps
    .ok ⟨[aggReducePOp],allPOps⟩

/-- As many operators as there are on all nodes, numbered behind the given text. -/
def parallelPOps (kind : String) (type : POpType) (text : String) : List (PhysicalOp V) :=
  (List.range transformer.degree).map fun i =>
    transformer.make (named kind id (text ++ toString i)) type projectColumnNames (i % transformer.numNodes : Nat)

/-- An operator behind each that is named after it and has its columns and its node. -/
def behindPOps (kind : String) (type : POpType) (allPOps : List (PhysicalOp V)) (upConnPOps : List Nat) :
    List (PhysicalOp V) :=
  upConnPOps.map fun upConnPOp =>
    transformer.make (named kind id ("-" ++ (deref allPOps upConnPOp).name)) type
      (deref allPOps upConnPOp).projectColumnNames
      (deref allPOps upConnPOp).nodeId

def transformGroup (producerTransRes : TransRes V) : Except String (TransRes V) :=
  let upConnPOps := producerTransRes.upConnPOps
  let groupPOps := List.range' producerTransRes.allPOps.length transformer.degree
  let allPOps := producerTransRes.allPOps ++ transformer.parallelPOps id projectColumnNames "Group" .group "-"
  if transformer.degree = 1 then .ok ⟨groupPOps,connectManyToOne upConnPOps producerTransRes.allPOps.length allPOps⟩
  else do
    let shufflePOps := List.range' (producerTransRes.allPOps.length + transformer.degree) upConnPOps.length
    let allPOps := connectManyToMany shufflePOps groupPOps
      (allPOps ++ transformer.behindPOps id "Shuffle" .shuffle producerTransRes.allPOps upConnPOps)
    let allPOps ← connectOneToOne upConnPOps shufflePOps allPOps
    .ok ⟨groupPOps,allPOps⟩

/-- `HashJoinPredicate::toString`. -/
def hashJoinPredicateStr (leftColumnNames rightColumnNames : List String) : String :=
  "-".intercalate (List.zipWith (fun left right => left ++ "-" ++ right) leftColumnNames rightColumnNames)

def transformHashJoin (leftColumnNames rightColumnNames : List String) (leftTransRes rightTransRes : TransRes V) :
    Except String (TransRes V) := do
  let left := leftTransRes.upConnPOps
  let right := rightTransRes.upConnPOps.map (leftTransRes.allPOps.length + ·)
  let producers := leftTransRes.allPOps ++ rightTransRes.allPOps
  let text := "-" ++ hashJoinPredicateStr leftColumnNames rightColumnNames ++ "-"
  let hashJoinBuildPOps := List.range' producers.length transformer.degree
  let hashJoinProbePOps := List.range' (producers.length + transformer.degree) transformer.degree
  let allPOps ← connectOneToOne hashJoinBuildPOps hashJoinProbePOps
    (producers ++ transformer.parallelPOps id projectColumnNames "HashJoinBuild" .hashJoinBuild text ++
      transformer.parallelPOps id projectColumnNames "HashJoinProbe" .hashJoinProbe text)
  if transformer.degree = 1 then
    .ok ⟨hashJoinProbePOps,connectManyToOne right (producers.length + transformer.degree)
      (connectManyToOne left producers.length allPOps)⟩
  else
    let shuffleLeftPOps := List.range' (producers.length + (transformer.degree + transformer.degree)) left.length
    let shuffleRightPOps :=
      List.range' (producers.length + (transformer.degree + transformer.degree) + left.length) right.length
    let allPOps := connectManyToMany shuffleRightPOps hashJoinProbePOps
      (connectManyToMany shuffleLeftPOps hashJoinBuildPOps
      (allPOps ++ transformer.behindPOps id "Shuffle" .shuffle producers left ++
        transformer.behindPOps id "Shuffle" .shuffle producers right))
    let allPOps ← connectOneToOne left shuffleLeftPOps allPOps
    let allPOps ← connectOneToOne right shuffleRightPOps allPOps
    .ok ⟨hashJoinProbePOps,allPOps⟩

/-- `addLeftProducer` and `addRightProducer` consume. -/
def transformNestedLoopJoin (leftTransRes rightTransRes : TransRes V) : Except String (TransRes V) :=
  let left := leftTransRes.upConnPOps
  let right := rightTransRes.upConnPOps.map (leftTransRes.allPOps.length + ·)
  let producers := leftTransRes.allPOps ++ rightTransRes.allPOps
  let nestedLoopJoinPOps := List.range' producers.length transformer.degree
  let allPOps := nestedLoopJoinPOps.foldl (fun allPOps nestedLoopJoinPOp => connectManyToOne left nestedLoopJoinPOp allPOps)
    (producers ++ transformer.parallelPOps id projectColumnNames "NestedLoopJoin" .nestedLoopJoin "-")
  if transformer.degree = 1 then .ok ⟨nestedLoopJoinPOps,connectManyToOne right producers.length allPOps⟩
  else do
    let splitPOps := List.range' (producers.length + transformer.degree) right.length
    let allPOps := connectManyToMany splitPOps nestedLoopJoinPOps
      (allPOps ++ transformer.behindPOps id "Split" .split producers right)
    let allPOps ← connectOneToOne right splitPOps allPOps
    .ok ⟨nestedLoopJoinPOps,allPOps⟩

end Operators

def transformDfs : PrePhysicalOp E → Except String (TransRes V)
  | .sort id projectColumnNames producer => do
    .ok (transformer.transformSort id projectColumnNames (← transformDfs producer))
  | .limitSort id projectColumnNames producer => do
    .ok (transformer.transformLimitSort id projectColumnNames (← transformDfs producer))
  | .aggregate id projectColumnNames aggOutputColumnNames functions producer => do
    transformer.transformAggregate id projectColumnNames aggOutputColumnNames functions (← transformDfs producer)
  | .group id projectColumnNames producer => do transformer.transformGroup id projectColumnNames (← transformDfs producer)
  | .project id projectColumnNames producer => do transformer.transformProject id projectColumnNames (← transformDfs producer)
  | .filter id projectColumnNames producer => do transformer.transformFilter id projectColumnNames (← transformDfs producer)
  | .hashJoin id projectColumnNames leftColumnNames rightColumnNames left right => do
    let leftTransRes ← transformDfs left
    let rightTransRes ← transformDfs right
    transformer.transformHashJoin id projectColumnNames leftColumnNames rightColumnNames leftTransRes rightTransRes
  | .nestedLoopJoin id projectColumnNames left right => do
    let leftTransRes ← transformDfs left
    let rightTransRes ← transformDfs right
    transformer.transformNestedLoopJoin id projectColumnNames leftTransRes rightTransRes
  | .filterableScan id projectColumnNames table predicate =>
    .ok (transformer.transformFilterableScan id projectColumnNames table predicate)

def transform (rootOp : PrePhysicalOp E) (outputColumnNames : List String) : Except String (List (PhysicalOp V)) := do
  let rootTransRes ← transformer.transformDfs rootOp
  let allPOps := rootTransRes.allPOps
  .ok (connectManyToOne rootTransRes.upConnPOps allPOps.length
    (allPOps ++ [transformer.make "collate" .collate (outputColumnNames.map canonicalize) 0]))

end PrePToPTransformer
end Hermes.Transform
