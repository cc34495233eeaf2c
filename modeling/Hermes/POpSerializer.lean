import Hermes.NestedLoopJoinKernel
import Hermes.CacheLoadPOp

/-! `POpSerializer`: what the classes of physical operators are made of, what their constructors set and what
their inspect functions name. An operator for another node is loaded into a value-initialized object, in which
numbers and flags are zero, names and containers empty and pointers null. What an operator does stands in its own
module. -/
namespace Hermes.Serialization
open Hermes.Tuples (canonicalize)
open Hermes.Join (JoinType)
open Hermes.HybridScan (S3ClientType)

/-- The types of what the fields refer to. They are restored as they are. -/
structure Values where
  POpContext : Type
  Expression : Type
  Filter : Type
  Projector : Type
  TupleSet : Type
  ArrowTable : Type
  ArrowSchema : Type
  ArrowOptions : Type
  Table : Type
  Partition : Type
  SegmentKey : Type
  AggregateFunction : Type
  AggregateResult : Type
  GroupEntry : Type
  TupleSetIndex : Type
  OuterJoinHelper : Type
  FileReader : Type
  AWSClient : Type
  CSVParser : Type
  DeltaCacheData : Type
  KeepMapCacheMode : Type
  ScanStats : Type
  noStats : ScanStats
  Message : Type
  Act : Type

inductive POpType where
  | aggregate
  | cacheLoad
  | collate
  | fileScan
  | filter
  | group
  | hashJoinBuild
  | hashJoinProbe
  | nestedLoopJoin
  | limitSort
  | merge
  | project
  | s3Get
  | s3Select
  | shuffle
  | sort
  | split
  | deltaMerge
  | cacheHandler
deriving DecidableEq

variable {V : Values}

structure PhysicalOp (V : Values) where
  name : String
  type : POpType
  projectColumnNames : List String
  nodeId : Int
  queryId : Int
  opContext : Option V.POpContext
  producers : List String
  consumers : List String

namespace PhysicalOp

def make (queryId : Int) (name : String) (type : POpType) (projectColumnNames : List String) (nodeId : Int) :
    PhysicalOp V :=
  ⟨name,type,projectColumnNames,nodeId,queryId,none,[],[]⟩

def zero : PhysicalOp V := ⟨"",.aggregate,[],0,0,none,[],[]⟩

def inspect (saved : PhysicalOp V) : PhysicalOp V :=
  ⟨saved.name,saved.type,saved.projectColumnNames,saved.nodeId,saved.queryId,saved.opContext,saved.producers,
    saved.consumers⟩

def emplace (names : List String) (name : String) : List String := if name ∈ names then names else names ++ [name]

def produce (op : PhysicalOp V) (name : String) : PhysicalOp V := {op with consumers := emplace op.consumers name}

def consume (op : PhysicalOp V) (name : String) : PhysicalOp V := {op with producers := emplace op.producers name}

end PhysicalOp

structure AggregatePOp (V : Values) extends PhysicalOp V where
  functions : List V.AggregateFunction
  aggregateResults : List (List V.AggregateResult)

namespace AggregatePOp

def make (queryId : Int) (name : String) (projectColumnNames : List String) (nodeId : Int)
    (functions : List V.AggregateFunction) :
    AggregatePOp V :=
  ⟨.make queryId name .aggregate projectColumnNames nodeId,functions,functions.map fun _ => []⟩

def zero : AggregatePOp V := ⟨.zero,[],[]⟩

def inspect (saved tmp : AggregatePOp V) : AggregatePOp V :=
  {tmp with toPhysicalOp := saved.toPhysicalOp.inspect, functions := saved.functions, aggregateResults := saved.aggregateResults}

end AggregatePOp

structure CacheLoadPOp (V : Values) extends PhysicalOp V where
  predicateColumnNames : List String
  columnNames : List String
  partition : Option V.Partition
  startOffset : Int
  finishOffset : Int
  hitOperatorName : Option String
  missOperatorToCacheName : Option String
  missOperatorToPushdownName : Option String
  s3ClientType : S3ClientType

namespace CacheLoadPOp

def make (queryId : Int) (name : String) (projectColumnNames : List String) (nodeId : Int)
    (predicateColumnNames columnNames : List String)
    (partition : V.Partition) (startOffset finishOffset : Int) (s3ClientType : S3ClientType) : CacheLoadPOp V :=
  ⟨.make queryId name .cacheLoad projectColumnNames nodeId,predicateColumnNames,columnNames,some partition,
    startOffset,finishOffset,
    none,none,none,s3ClientType⟩

def zero : CacheLoadPOp V := ⟨.zero,[],[],none,0,0,none,none,none,.S3⟩

def inspect (saved tmp : CacheLoadPOp V) : CacheLoadPOp V :=
  {tmp with
    toPhysicalOp := saved.toPhysicalOp.inspect, predicateColumnNames := saved.predicateColumnNames, columnNames :=
      saved.columnNames,
    partition := saved.partition, startOffset := saved.startOffset, finishOffset := saved.finishOffset,
    hitOperatorName := saved.hitOperatorName, missOperatorToCacheName := saved.missOperatorToCacheName,
    missOperatorToPushdownName := saved.missOperatorToPushdownName, s3ClientType := saved.s3ClientType}

def setHitOperator (op : CacheLoadPOp V) (name : String) : CacheLoadPOp V :=
  {op with toPhysicalOp := op.toPhysicalOp.produce name, hitOperatorName := some name}

def setMissOperatorToCache (op : CacheLoadPOp V) (name : String) : CacheLoadPOp V :=
  {op with toPhysicalOp := op.toPhysicalOp.produce name, missOperatorToCacheName := some name}

def setMissOperatorToPushdown (op : CacheLoadPOp V) (name : String) : CacheLoadPOp V :=
  {op with toPhysicalOp := op.toPhysicalOp.produce name, missOperatorToPushdownName := some name}

end CacheLoadPOp

structure CollatePOp (V : Values) extends PhysicalOp V where
  tuples : Option V.TupleSet
  tables : List V.ArrowTable
  tablesCutoff : Nat

namespace CollatePOp

def make (queryId : Int) (name : String) (projectColumnNames : List String) (nodeId : Int) : CollatePOp V :=
  ⟨.make queryId name .collate projectColumnNames nodeId,none,[],20⟩

def zero : CollatePOp V := ⟨.zero,none,[],20⟩

def inspect (saved tmp : CollatePOp V) : CollatePOp V :=
  {tmp with toPhysicalOp := saved.toPhysicalOp.inspect, tablesCutoff := saved.tablesCutoff}

end CollatePOp

structure FileScanKernel (V : Values) where
  path : String
  reader : Option V.FileReader
  startPos : Int
  finishPos : Int

namespace FileScanKernel

def zero : FileScanKernel V := ⟨"",none,0,0⟩

def inspect (saved tmp : FileScanKernel V) : FileScanKernel V :=
  {tmp with path := saved.path, reader := saved.reader, startPos := saved.startPos, finishPos := saved.finishPos}

end FileScanKernel

structure FileScanPOp (V : Values) extends PhysicalOp V where
  scanOnStart : Bool
  kernel : FileScanKernel V

namespace FileScanPOp

def make (queryId : Int) (name : String) (columnNames : List String) (nodeId : Int) (filePath : String)
    (reader : V.FileReader) (startOffset finishOffset : Int) (scanOnStart : Bool) : FileScanPOp V :=
  ⟨.make queryId name .fileScan columnNames nodeId,scanOnStart,⟨filePath,some reader,startOffset,finishOffset⟩⟩

def zero : FileScanPOp V := ⟨.zero,false,.zero⟩

def inspect (saved tmp : FileScanPOp V) : FileScanPOp V :=
  {tmp with
    toPhysicalOp := saved.toPhysicalOp.inspect, scanOnStart := saved.scanOnStart, kernel :=
      saved.kernel.inspect tmp.kernel}

end FileScanPOp

structure FilterPOp (V : Values) extends PhysicalOp V where
  predicate : Option V.Expression
  filter : Option V.Filter
  received : Option V.TupleSet
  filtered : Option V.TupleSet
  totalNumRows : Int
  filteredNumRows : Int
  filterTimeNS : Nat
  inputBytesFiltered : Nat
  outputBytesFiltered : Nat
  applicable : Option Bool
  table : Option V.Table
  weightedSegmentKeys : List V.SegmentKey

namespace FilterPOp

/-- The two buffers are tuple sets without a table. -/
def make (queryId : Int) (name : String) (projectColumnNames : List String) (nodeId : Int)
    (predicate : Option V.Expression)
    (table : Option V.Table) (weightedSegmentKeys : List V.SegmentKey) (makeWithNullTable : V.TupleSet) : FilterPOp V :=
  ⟨.make queryId name .filter projectColumnNames nodeId,predicate,none,some makeWithNullTable,some makeWithNullTable,
    0,0,0,0,0,none,
    table,weightedSegmentKeys⟩

def zero : FilterPOp V := ⟨.zero,none,none,none,none,0,0,0,0,0,none,none,[]⟩

def inspect (saved tmp : FilterPOp V) : FilterPOp V :=
  {tmp with
    toPhysicalOp := saved.toPhysicalOp.inspect, predicate := saved.predicate, received := saved.received, filtered :=
      saved.filtered,
    table := saved.table, weightedSegmentKeys := saved.weightedSegmentKeys}

end FilterPOp

structure GroupKernel (V : Values) where
  groupColumnNames : List String
  aggregateFunctions : List V.AggregateFunction
  groupColumnIndices : List Int
  aggregateColumnIndices : List Int
  inputSchema : Option V.ArrowSchema
  aggregateInputSchema : Option V.ArrowSchema
  groupArrayAppenderVectorMap : List V.GroupEntry
  groupFinalAggregateResultVectorMap : List V.GroupEntry

namespace GroupKernel

def make (groupColumnNames : List String) (aggregateFunctions : List V.AggregateFunction) : GroupKernel V :=
  ⟨groupColumnNames.map canonicalize,aggregateFunctions,[],[],none,none,[],[]⟩

def zero : GroupKernel V := ⟨[],[],[],[],none,none,[],[]⟩

def inspect (saved tmp : GroupKernel V) : GroupKernel V :=
  {tmp with groupColumnNames := saved.groupColumnNames, aggregateFunctions := saved.aggregateFunctions}

end GroupKernel

structure GroupPOp (V : Values) extends PhysicalOp V where
  kernel : GroupKernel V

namespace GroupPOp

def make (queryId : Int) (name : String) (projectColumnNames : List String) (nodeId : Int)
    (groupColumnNames : List String) (aggregateFunctions : List V.AggregateFunction) : GroupPOp V :=
  ⟨.make queryId name .group projectColumnNames nodeId,.make groupColumnNames aggregateFunctions⟩

def zero : GroupPOp V := ⟨.zero,.zero⟩

def inspect (saved tmp : GroupPOp V) : GroupPOp V :=
  {tmp with toPhysicalOp := saved.toPhysicalOp.inspect, kernel := saved.kernel.inspect tmp.kernel}

end GroupPOp

structure HashJoinBuildKernel (V : Values) where
  columnNames : List String
  tupleSetIndex : Option V.TupleSetIndex

namespace HashJoinBuildKernel

def make (columnNames : List String) : HashJoinBuildKernel V := ⟨columnNames.map canonicalize,none⟩

def zero : HashJoinBuildKernel V := ⟨[],none⟩

def inspect (saved tmp : HashJoinBuildKernel V) : HashJoinBuildKernel V := {tmp with columnNames := saved.columnNames}

end HashJoinBuildKernel

structure HashJoinBuildPOp (V : Values) extends PhysicalOp V where
  kernel : HashJoinBuildKernel V

namespace HashJoinBuildPOp

def make (queryId : Int) (name : String) (projectColumnNames : List String) (nodeId : Int)
    (predColumnNames : List String) :
    HashJoinBuildPOp V :=
  ⟨.make queryId name .hashJoinBuild projectColumnNames nodeId,.make predColumnNames⟩

def zero : HashJoinBuildPOp V := ⟨.zero,.zero⟩

def inspect (saved tmp : HashJoinBuildPOp V) : HashJoinBuildPOp V :=
  {tmp with toPhysicalOp := saved.toPhysicalOp.inspect, kernel := saved.kernel.inspect tmp.kernel}

end HashJoinBuildPOp

structure HashJoinPredicate where
  leftColumnNames : List String
  rightColumnNames : List String

structure HashJoinProbeAbstractKernel (V : Values) where
  pred : HashJoinPredicate
  neededColumnNames : List String
  neededColumnIndice : List (Bool × Int)
  outputSchema : Option V.ArrowSchema
  buildTupleSetIndex : Option V.TupleSetIndex
  probeTupleSet : Option V.TupleSet
  buffer : Option V.TupleSet

namespace HashJoinProbeAbstractKernel

def make (pred : HashJoinPredicate) (neededColumnNames : List String) : HashJoinProbeAbstractKernel V :=
  ⟨pred,neededColumnNames,[],none,none,none,none⟩

def zero : HashJoinProbeAbstractKernel V := ⟨⟨[],[]⟩,[],[],none,none,none,none⟩

def inspect (saved tmp : HashJoinProbeAbstractKernel V) : HashJoinProbeAbstractKernel V :=
  {tmp with pred := saved.pred, neededColumnNames := saved.neededColumnNames}

end HashJoinProbeAbstractKernel

/-- `HashJoinProbeKernel` and `HashSemiJoinProbeKernel`. -/
inductive HashJoinProbeKernel (V : Values) where
  | join (kernel : HashJoinProbeAbstractKernel V) (isLeft isRight isOuterJoinHelperCreated : Bool)
      (leftJoinHelper rightJoinHelper : Option V.OuterJoinHelper)
  | semi (kernel : HashJoinProbeAbstractKernel V) (rowMatchIndexes : List Int)

namespace HashJoinProbeKernel

def make (pred : HashJoinPredicate) (neededColumnNames : List String) : JoinType → HashJoinProbeKernel V
  | .inner => .join (.make pred neededColumnNames) false false false none none
  | .left => .join (.make pred neededColumnNames) true false false none none
  | .right => .join (.make pred neededColumnNames) false true false none none
  | .full => .join (.make pred neededColumnNames) true true false none none
  | .semi => .semi (.make pred neededColumnNames) []

/-- The variant is that of the saved kernel, the object it is loaded into value-initialized. -/
def load : HashJoinProbeKernel V → HashJoinProbeKernel V
  | .join kernel isLeft isRight _ _ _ => .join (kernel.inspect .zero) isLeft isRight false none none
  | .semi kernel _ => .semi (kernel.inspect .zero) []

end HashJoinProbeKernel

structure HashJoinProbePOp (V : Values) extends PhysicalOp V where
  kernel : Option (HashJoinProbeKernel V)
  sentResult : Bool
  totalNumberOfTuples : Int

namespace HashJoinProbePOp

def make (queryId : Int) (name : String) (projectColumnNames : List String) (nodeId : Int) (pred : HashJoinPredicate)
    (joinType : JoinType) :
    HashJoinProbePOp V :=
  ⟨.make queryId name .hashJoinProbe projectColumnNames nodeId,some (.make pred projectColumnNames.dedup joinType),
    false,0⟩

def zero : HashJoinProbePOp V := ⟨.zero,none,false,0⟩

def inspect (saved tmp : HashJoinProbePOp V) : HashJoinProbePOp V :=
  {tmp with toPhysicalOp := saved.toPhysicalOp.inspect, kernel := saved.kernel.map HashJoinProbeKernel.load}

end HashJoinProbePOp

structure NestedLoopJoinKernel (V : Values) where
  predicate : Option V.Expression
  leftTupleSet : Option V.TupleSet
  rightTupleSet : Option V.TupleSet
  neededColumnNames : List String
  outputSchema : Option V.ArrowSchema
  neededColumnIndice : List (Bool × Int)
  buffer : Option V.TupleSet
  isLeft : Bool
  isRight : Bool
  isOuterJoinHelperCreated : Bool
  leftJoinHelper : Option V.OuterJoinHelper
  rightJoinHelper : Option V.OuterJoinHelper

namespace NestedLoopJoinKernel

def make (predicate : Option V.Expression) (neededColumnNames : List String) (isLeft isRight : Bool) :
    NestedLoopJoinKernel V :=
  ⟨predicate,none,none,neededColumnNames,none,[],none,isLeft,isRight,false,none,none⟩

def zero : NestedLoopJoinKernel V := ⟨none,none,none,[],none,[],none,false,false,false,none,none⟩

def inspect (saved tmp : NestedLoopJoinKernel V) : NestedLoopJoinKernel V :=
  {tmp with
    predicate := saved.predicate, neededColumnNames := saved.neededColumnNames, isLeft := saved.isLeft, isRight :=
      saved.isRight}

end NestedLoopJoinKernel

structure NestedLoopJoinPOp (V : Values) extends PhysicalOp V where
  leftProducerNames : List String
  rightProducerName : List String
  kernel : NestedLoopJoinKernel V
  sentResult : Bool

namespace NestedLoopJoinPOp

/-- There is no such operator for a semi join. -/
def makeKernel (predicate : Option V.Expression) (neededColumnNames : List String) :
    JoinType → Except String (NestedLoopJoinKernel V)
  | .inner => .ok (.make predicate neededColumnNames false false)
  | .left => .ok (.make predicate neededColumnNames true false)
  | .right => .ok (.make predicate neededColumnNames false true)
  | .full => .ok (.make predicate neededColumnNames true true)
  | .semi => .error "Unsupported nested loop join type, {}"

def make (queryId : Int) (name : String) (projectColumnNames : List String) (nodeId : Int)
    (predicate : Option V.Expression)
    (involvedColumnNames : List String) (joinType : JoinType) : Except String (NestedLoopJoinPOp V) :=
  (makeKernel predicate (projectColumnNames ++ involvedColumnNames).dedup joinType).map fun kernel =>
    ⟨.make queryId name .nestedLoopJoin projectColumnNames nodeId,[],[],kernel,false⟩

def zero : NestedLoopJoinPOp V := ⟨.zero,[],[],.zero,false⟩

def inspect (saved tmp : NestedLoopJoinPOp V) : NestedLoopJoinPOp V :=
  {tmp with
    toPhysicalOp := saved.toPhysicalOp.inspect, leftProducerNames := saved.leftProducerNames,
    rightProducerName := saved.rightProducerName, kernel := saved.kernel.inspect tmp.kernel}

def addLeftProducer (op : NestedLoopJoinPOp V) (name : String) : NestedLoopJoinPOp V :=
  {op with toPhysicalOp := op.toPhysicalOp.consume name, leftProducerNames := PhysicalOp.emplace op.leftProducerNames name}

def addRightProducer (op : NestedLoopJoinPOp V) (name : String) : NestedLoopJoinPOp V :=
  {op with toPhysicalOp := op.toPhysicalOp.consume name, rightProducerName := PhysicalOp.emplace op.rightProducerName name}

end NestedLoopJoinPOp

structure SortKey where
  name : String
  ascending : Bool

structure LimitSortPOp (V : Values) extends PhysicalOp V where
  k : Int
  sortKeys : List SortKey
  arrowSelectKOptions : Option V.ArrowOptions
  result : Option V.TupleSet

namespace LimitSortPOp

def make (queryId : Int) (name : String) (projectColumnNames : List String) (nodeId : Int) (k : Int)
    (sortKeys : List SortKey) :
    LimitSortPOp V :=
  ⟨.make queryId name .limitSort projectColumnNames nodeId,k,sortKeys,none,none⟩

def zero : LimitSortPOp V := ⟨.zero,0,[],none,none⟩

def inspect (saved tmp : LimitSortPOp V) : LimitSortPOp V :=
  {tmp with toPhysicalOp := saved.toPhysicalOp.inspect, k := saved.k, sortKeys := saved.sortKeys}

end LimitSortPOp

structure MergePOp (V : Values) extends PhysicalOp V where
  leftProducerName : String
  rightProducerName : String
  leftTupleSets : List V.TupleSet
  rightTupleSets : List V.TupleSet

namespace MergePOp

def make (queryId : Int) (name : String) (projectColumnNames : List String) (nodeId : Int) : MergePOp V :=
  ⟨.make queryId name .merge projectColumnNames nodeId,"","",[],[]⟩

def zero : MergePOp V := ⟨.zero,"","",[],[]⟩

def inspect (saved tmp : MergePOp V) : MergePOp V :=
  {tmp with
    toPhysicalOp := saved.toPhysicalOp.inspect, leftProducerName := saved.leftProducerName,
    rightProducerName := saved.rightProducerName}

def setLeftProducer (op : MergePOp V) (name : String) : MergePOp V :=
  {op with toPhysicalOp := op.toPhysicalOp.consume name, leftProducerName := name}

def setRightProducer (op : MergePOp V) (name : String) : MergePOp V :=
  {op with toPhysicalOp := op.toPhysicalOp.consume name, rightProducerName := name}

end MergePOp

structure ProjectPOp (V : Values) extends PhysicalOp V where
  exprs : List V.Expression
  exprNames : List String
  projectColumnNamePairs : List (String × String)
  tuples : Option V.TupleSet
  projector : Option V.Projector

namespace ProjectPOp

def make (queryId : Int) (name : String) (projectColumnNames : List String) (nodeId : Int) (exprs : List V.Expression)
    (exprNames : List String) (projectColumnNamePairs : List (String × String)) : ProjectPOp V :=
  ⟨.make queryId name .project projectColumnNames nodeId,exprs,exprNames,projectColumnNamePairs,none,none⟩

def zero : ProjectPOp V := ⟨.zero,[],[],[],none,none⟩

def inspect (saved tmp : ProjectPOp V) : ProjectPOp V :=
  {tmp with
    toPhysicalOp := saved.toPhysicalOp.inspect, exprs := saved.exprs, exprNames := saved.exprNames,
    projectColumnNamePairs := saved.projectColumnNamePairs}

end ProjectPOp

structure S3SelectScanAbstractPOp (V : Values) extends PhysicalOp V where
  s3Bucket : String
  s3Object : String
  startOffset : Nat
  finishOffset : Nat
  table : Option V.Table
  awsClient : Option V.AWSClient
  columnsReadFromS3 : List (Option (String × List V.ArrowTable))
  s3SelectScanStats : V.ScanStats
  scanOnStart : Bool
  toCache : Bool
  splitReqNumToTable : List (Int × V.ArrowTable)

namespace S3SelectScanAbstractPOp

def make (queryId : Int) (name : String) (type : POpType) (projectColumnNames : List String) (nodeId : Int)
    (s3Bucket s3Object : String)
    (startOffset finishOffset : Nat) (table : V.Table) (awsClient : V.AWSClient) (scanOnStart toCache : Bool) :
    S3SelectScanAbstractPOp V :=
  ⟨.make queryId name type projectColumnNames nodeId,s3Bucket,s3Object,startOffset,finishOffset,some table,
    some awsClient,
    List.replicate projectColumnNames.length none,V.noStats,scanOnStart,toCache,[]⟩

def zero (daemonClient : Option V.AWSClient) : S3SelectScanAbstractPOp V :=
  ⟨.zero,"","",0,0,none,daemonClient,[],V.noStats,false,false,[]⟩

/-- What both classes inspect of it. -/
def inspect (saved tmp : S3SelectScanAbstractPOp V) : S3SelectScanAbstractPOp V :=
  {tmp with
    toPhysicalOp := saved.toPhysicalOp.inspect, s3Bucket := saved.s3Bucket, s3Object :=
      saved.s3Object, startOffset := saved.startOffset,
    finishOffset := saved.finishOffset, table := saved.table, scanOnStart := saved.scanOnStart, toCache :=
      saved.toCache}

/-- Without the columns that only `put` reads, which nothing calls. -/
def visible (op : S3SelectScanAbstractPOp V) : S3SelectScanAbstractPOp V := {op with columnsReadFromS3 := []}

end S3SelectScanAbstractPOp

structure S3GetPOp (V : Values) extends S3SelectScanAbstractPOp V where
  reqNumToAdditionalOutput : List (Int × List Char)
  reqNumToParser : List (Int × V.CSVParser)

namespace S3GetPOp

def make (queryId : Int) (name : String) (projectColumnNames : List String) (nodeId : Int) (s3Bucket s3Object : String)
    (startOffset finishOffset : Nat) (table : V.Table) (awsClient : V.AWSClient) (scanOnStart toCache : Bool) :
    S3GetPOp V :=
  ⟨.make queryId name .s3Get projectColumnNames nodeId s3Bucket s3Object startOffset finishOffset table awsClient scanOnStart toCache,[],[]⟩

def zero (daemonClient : Option V.AWSClient) : S3GetPOp V := ⟨.zero daemonClient,[],[]⟩

def inspect (saved tmp : S3GetPOp V) : S3GetPOp V :=
  {tmp with toS3SelectScanAbstractPOp := saved.toS3SelectScanAbstractPOp.inspect tmp.toS3SelectScanAbstractPOp}

end S3GetPOp

structure S3SelectPOp (V : Values) extends S3SelectScanAbstractPOp V where
  s3Result : List UInt8
  filterSql : String
  parser : Option V.CSVParser
  weightedSegmentKeys : List V.SegmentKey

namespace S3SelectPOp

def make (queryId : Int) (name : String) (projectColumnNames : List String) (nodeId : Int)
    (s3Bucket s3Object filterSql : String)
    (startOffset finishOffset : Nat) (table : V.Table) (awsClient : V.AWSClient) (scanOnStart toCache : Bool)
    (weightedSegmentKeys : List V.SegmentKey) : S3SelectPOp V :=
  ⟨.make queryId name .s3Select projectColumnNames nodeId s3Bucket s3Object startOffset finishOffset table awsClient scanOnStart toCache,
    [],filterSql,none,weightedSegmentKeys⟩

def zero (daemonClient : Option V.AWSClient) : S3SelectPOp V := ⟨.zero daemonClient,[],"",none,[]⟩

def inspect (saved tmp : S3SelectPOp V) : S3SelectPOp V :=
  {tmp with
    toS3SelectScanAbstractPOp := saved.toS3SelectScanAbstractPOp.inspect tmp.toS3SelectScanAbstractPOp,
    filterSql := saved.filterSql, weightedSegmentKeys := saved.weightedSegmentKeys}

end S3SelectPOp

structure ShufflePOp (V : Values) extends PhysicalOp V where
  shuffleColumnNames : List String
  consumerVec : List String
  buffers : List (Option V.TupleSet)

namespace ShufflePOp

def make (queryId : Int) (name : String) (projectColumnNames : List String) (nodeId : Int)
    (shuffleColumnNames : List String) :
    ShufflePOp V :=
  ⟨.make queryId name .shuffle projectColumnNames nodeId,shuffleColumnNames,[],[]⟩

def zero : ShufflePOp V := ⟨.zero,[],[],[]⟩

def inspect (saved tmp : ShufflePOp V) : ShufflePOp V :=
  {tmp with
    toPhysicalOp := saved.toPhysicalOp.inspect, shuffleColumnNames := saved.shuffleColumnNames, consumerVec :=
      saved.consumerVec}

def produce (op : ShufflePOp V) (name : String) : ShufflePOp V :=
  {op with toPhysicalOp := op.toPhysicalOp.produce name, consumerVec := op.consumerVec ++ [name]}

end ShufflePOp

structure SortPOp (V : Values) extends PhysicalOp V where
  sortKeys : List SortKey
  arrowSortOptions : Option V.ArrowOptions
  buffer : Option V.TupleSet

namespace SortPOp

def make (queryId : Int) (name : String) (projectColumnNames : List String) (nodeId : Int)
    (sortKeys : List SortKey) : SortPOp V :=
  ⟨.make queryId name .sort projectColumnNames nodeId,sortKeys,none,none⟩

def zero : SortPOp V := ⟨.zero,[],none,none⟩

def inspect (saved tmp : SortPOp V) : SortPOp V :=
  {tmp with toPhysicalOp := saved.toPhysicalOp.inspect, sortKeys := saved.sortKeys}

end SortPOp

structure SplitPOp (V : Values) extends PhysicalOp V where
  consumerVec : List String
  inputTupleSet : Option V.TupleSet

namespace SplitPOp

def make (queryId : Int) (name : String) (projectColumnNames : List String) (nodeId : Int) : SplitPOp V :=
  ⟨.make queryId name .split projectColumnNames nodeId,[],none⟩

def zero : SplitPOp V := ⟨.zero,[],none⟩

def inspect (saved tmp : SplitPOp V) : SplitPOp V :=
  {tmp with toPhysicalOp := saved.toPhysicalOp.inspect, consumerVec := saved.consumerVec}

def produce (op : SplitPOp V) (name : String) : SplitPOp V :=
  {op with toPhysicalOp := op.toPhysicalOp.produce name, consumerVec := op.consumerVec ++ [name]}

end SplitPOp

structure DeltaMergePOp (V : Values) extends PhysicalOp V where
  deltas : List V.DeltaCacheData
  stables : List V.TupleSet
  diskDeltas : List V.TupleSet
  diskDeltasTimestamps : List Int
  cacheHandlerName : String
  batchCounter : Int
  lastBatch : Bool
  chunkCounter : Int
  earlyStableChunkIdx : Int
  earlyChunkBatchCnt : List Int
  evaluatedData : Option V.TupleSet
  deleteMap : List (Int × List Int)
  deletedKeys : List (Int × Int)
  stableBm : Option (List UInt8)
  tableName : String
  targetTable : Option V.Table
  targetPartition : Option V.Partition
  predicatesExist : Bool
  keepMapCacheMode : Option V.KeepMapCacheMode
  stableTuplesReceived : Bool
  deltasReceived : Bool

namespace DeltaMergePOp

def make (getName : V.Table → String) (queryId : Int) (name : String) (table : V.Table) (targetPartition : V.Partition)
    (projectColumnNames : List String) (nodeId : Int) (cacheHandlerName : String) (predicatesExist : Bool)
    (keepMapCacheMode : V.KeepMapCacheMode) : DeltaMergePOp V :=
  ⟨.make queryId name .deltaMerge projectColumnNames nodeId,[],[],[],[],cacheHandlerName,0,false,0,-1,[],none,[],[],
    none,getName table,
    some table,some targetPartition,predicatesExist,some keepMapCacheMode,false,false⟩

def zero : DeltaMergePOp V :=
  ⟨.zero,[],[],[],[],"",0,false,0,0,[],none,[],[],none,"",none,none,false,none,false,false⟩

def inspect (saved tmp : DeltaMergePOp V) : DeltaMergePOp V :=
  {tmp with
    toPhysicalOp := saved.toPhysicalOp.inspect, deltas := saved.deltas, stables := saved.stables, deleteMap :=
      saved.deleteMap,
    targetTable := saved.targetTable, deletedKeys := saved.deletedKeys, targetPartition := saved.targetPartition,
    cacheHandlerName := saved.cacheHandlerName, predicatesExist := saved.predicatesExist}

end DeltaMergePOp

structure CacheHandlerPOp (V : Values) extends PhysicalOp V where
  targetTable : Option V.Table
  targetPartition : Option V.Partition
  deltaMergeName : String

namespace CacheHandlerPOp

def make (queryId : Int) (name : String) (targetTable : V.Table) (targetPartition : V.Partition)
    (projectColumnNames : List String) (nodeId : Int) (deltaMergeName : String) : CacheHandlerPOp V :=
  ⟨.make queryId name .cacheHandler projectColumnNames nodeId,some targetTable,some targetPartition,deltaMergeName⟩

def zero : CacheHandlerPOp V := ⟨.zero,none,none,""⟩

def inspect (saved tmp : CacheHandlerPOp V) : CacheHandlerPOp V :=
  {tmp with
    toPhysicalOp := saved.toPhysicalOp.inspect, targetTable := saved.targetTable, deltaMergeName :=
      saved.deltaMergeName}

end CacheHandlerPOp
end Hermes.Serialization
