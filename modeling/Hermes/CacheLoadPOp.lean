import Hermes.MergePOp

/-! `CacheLoadPOp`: one partition's columns are asked from the segment cache, and what
the hits, the misses to cache and the misses to push down are goes to three operators.
A segment is named by its column; it holds that column of the partition. -/
namespace Hermes.HybridScan
open Hermes.Tuples Hermes.Operators
variable {ν : Type}

inductive S3ClientType where
  | S3
  | AIRMETTLE
  | MINIO
deriving DecidableEq, Repr

/-- The rows of an object with the place of their first byte. The catalogue keeps its
column names in canonical form. -/
structure S3Partition (ν : Type) where
  bucket : String
  object : String
  numBytes : Nat
  fields : List Field
  records : List (Nat × List (Slot ν))
  shaped : ∀ record ∈ records, record.2.length = fields.length
  inside : ∀ record ∈ records, record.1 < numBytes
  ascending : records.Pairwise fun earlier later => earlier.1 < later.1
  canonical : ∀ field ∈ fields, canonicalize field.name = field.name
  unique : (fields.map Field.name).Nodup

namespace S3Partition

def columnNames (partition : S3Partition ν) : List String := partition.fields.map Field.name

/-- Some of the rows, with all columns. -/
def restrict (partition : S3Partition ν) (keeps : Nat × List (Slot ν) → Bool) : Table ν where
  fields := partition.fields
  rows := (partition.records.filter keeps).map Prod.snd
  shaped := by
    intro row inside
    obtain ⟨record,kept,rfl⟩ := List.mem_map.mp inside
    exact partition.shaped record (List.mem_of_mem_filter kept)

/-- The places of some columns, which `GetFieldByName` looks up. -/
def columns (partition : S3Partition ν) (columnNames : List String) : List (String × Nat) :=
  columnNames.filterMap fun columnName => (getFieldIndex partition.fields columnName).map (columnName,·)

theorem columns_lt (partition : S3Partition ν) (columnNames : List String) :
    ∀ column ∈ partition.columns columnNames, column.2 < partition.fields.length := by
  intro column inside
  obtain ⟨columnName,_,found⟩ := List.mem_filterMap.mp inside
  obtain ⟨c,there,rfl⟩ := Option.map_eq_some_iff.mp found
  exact getFieldIndex_lt there

/-- `TupleSet::make` on some columns of some rows. -/
def cut (partition : S3Partition ν) (keeps : Nat × List (Slot ν) → Bool) (columnNames : List String) : Table ν :=
  (partition.restrict keeps).make (partition.columns columnNames) (partition.columns_lt columnNames)

end S3Partition

/-- What the operators of a scan send to each other and to the segment cache. -/
inductive Message (ν : Type) where
  | tuple (tuples : TupleSet ν)
  | complete
  | scan (columnNames : List String) (resultNeeded : Bool)
  | loadRequest (segmentKeys : List String)
  | loadResponse (segments segmentKeysToCache : List String)
  | cacheMetrics (hitNum missNum shardHitNum shardMissNum : Nat)
  | storeRequest (segments : List String)
  | weightRequest (segmentKeys : List String)

def Message.getTypeString : Message ν → String
  | .tuple _ => "TupleMessage"
  | .complete => "CompleteMessage"
  | .scan _ _ => "ScanMessage"
  | .loadRequest _ => "LoadRequestMessage"
  | .loadResponse _ _ => "LoadResponseMessage"
  | .cacheMetrics _ _ _ _ => "CacheMetricsMessage"
  | .storeRequest _ => "StoreRequestMessage"
  | .weightRequest _ => "WeightRequestMessage"

/-- The cache actors are known to every operator, without an entry in its directory. -/
def sendToCache (ctx : POpContext Unit (Message ν)) (message : Message ν) : POpContext Unit (Message ν) :=
  ctx.record [.send "SegmentCache" message]

/-- `SegmentCacheActor::load` in hybrid mode: the policy says which misses may be cached. -/
def load (cached mayCache : String → Bool) (segmentKeys : List String) : Message ν :=
  .loadResponse (segmentKeys.filter cached) ((segmentKeys.filter fun key => !cached key).filter mayCache)

structure CacheLoadPOp (ν : Type) where
  name : String
  projectColumnNames : List String
  predicateColumnNames : List String
  columnNames : List String
  partition : S3Partition ν
  s3ClientType : S3ClientType
  hitOperatorName : String
  missOperatorToCacheName : String
  missOperatorToPushdownName : Option String

namespace CacheLoadPOp

/-- `requestLoadSegmentsFromCache`; the consumers are set whenever an operator is started. -/
def onStart (op : CacheLoadPOp ν) (ctx : POpContext Unit (Message ν)) : Process (CacheLoadPOp ν) Unit (Message ν) :=
  ⟨op,sendToCache ctx (.loadRequest op.columnNames),none⟩

def hitColumnNames (op : CacheLoadPOp ν) (segments : List String) : List String :=
  op.columnNames.filter fun columnName => decide (columnName ∈ segments)

def missedPushdownColumnNames (op : CacheLoadPOp ν) (segments segmentKeysToCache : List String) : List String :=
  op.columnNames.filter fun columnName => decide (columnName ∉ segments ∧ columnName ∉ segmentKeysToCache)

/-- Whether the cached data can be processed on its own: every predicate column is hit or
about to be cached, and some projected column too. With Airmettle it is all columns. -/
def cachingResultNeeded (op : CacheLoadPOp ν) (segments segmentKeysToCache : List String) : Bool :=
  let known := fun columnName => decide (columnName ∈ op.hitColumnNames segments ∨ columnName ∈ segmentKeysToCache)
  if op.s3ClientType ≠ .AIRMETTLE then
    op.predicateColumnNames.all known && op.projectColumnNames.any known
  else decide ((op.hitColumnNames segments).length + segmentKeysToCache.length = op.columnNames.length)

def hitTupleSet (op : CacheLoadPOp ν) (segments segmentKeysToCache : List String) : Table ν :=
  if op.cachingResultNeeded segments segmentKeysToCache then
    op.partition.cut (fun _ => true) (op.hitColumnNames segments)
  else .empty

def metrics (op : CacheLoadPOp ν) (segments segmentKeysToCache : List String) : Message ν :=
  let all := segments.length == op.columnNames.length
  let counted :=
    match op.missOperatorToPushdownName with
    | some _ => op.cachingResultNeeded segments segmentKeysToCache
    | none => all
  .cacheMetrics (if counted then segments.length else 0)
    (if counted then op.columnNames.length - segments.length else op.columnNames.length)
    (if all then 1 else 0) (if all then 0 else 1)

def onCacheLoadResponse (op : CacheLoadPOp ν) (ctx : POpContext Unit (Message ν))
    (segments segmentKeysToCache : List String) :
    Process (CacheLoadPOp ν) Unit (Message ν) :=
  let needed := op.cachingResultNeeded segments segmentKeysToCache
  let hit := ctx.send (.tuple (some (op.hitTupleSet segments segmentKeysToCache))) op.hitOperatorName
  let missed :=
    match op.missOperatorToPushdownName with
    | some missOperatorToPushdownName =>
      (hit.send (.scan segmentKeysToCache needed) op.missOperatorToCacheName).send
        (.scan (if needed then op.missedPushdownColumnNames segments segmentKeysToCache else op.projectColumnNames) true)
        missOperatorToPushdownName
    | none => hit.send (.scan segmentKeysToCache true) op.missOperatorToCacheName
  ⟨op,(sendToCache missed (op.metrics segments segmentKeysToCache)).notifyComplete,none⟩

def onReceive (op : CacheLoadPOp ν) (ctx : POpContext Unit (Message ν)) :
    Waiting (Message ν) → Process (CacheLoadPOp ν) Unit (Message ν)
  | .content _ (.loadResponse segments segmentKeysToCache) => op.onCacheLoadResponse ctx segments segmentKeysToCache
  | .content _ message => ⟨op,ctx.notifyError ("Unrecognized message type " ++ message.getTypeString),none⟩
  | .complete _ => ⟨op,ctx.notifyError "Unrecognized message type CompleteMessage",none⟩

end CacheLoadPOp
end Hermes.HybridScan
