import Hermes.POpContext
import Hermes.Table

/-! `ShufflePOp`, `ShuffleKernel` and `RecordBatchShuffler`: rows go to the consumer that the
hash of their shuffle columns names, through one buffer for each consumer. -/
namespace Hermes.Shuffle
open Hermes.Tuples Hermes.Operators
variable {α ν : Type}

def DefaultBufferSize : Nat := 10000

abbrev ShapedRow (ν : Type) (fields : List Field) := {row : List (Slot ν) // row.length = fields.length}

/-- What the operator uses of the standard library and of Arrow: `std::hash` for the values
of a type, the value a builder leaves under a null, and how a table is read in batches. -/
structure Runtime (ν : Type) where
  hash : DataType → ν → UInt64
  blank : DataType → ν
  batches : (table : Table ν) → List (List (ShapedRow ν table.fields))
  batches_flatten : ∀ table, (batches table).flatten.map Subtype.val = table.rows

/-- The types for which `ArrayHasher::make` has a hasher. -/
def hashable : DataType → Bool
  | .int32 | .int64 | .double | .date64 | .string => true
  | _ => false

section
variable (runtime : Runtime ν)

/-- `ArrayHasher::hash` for a slot. There is no specialization for dates, and what is under a
null is hashed too. -/
def hashSlot (type : DataType) (slot : Slot ν) : UInt64 :=
  match type with
  | .date64 => 0
  | type => runtime.hash type slot.raw

/-- `ArrayAppender::appendValue`. -/
def appendSlot (type : DataType) (slot : Slot ν) : Slot ν :=
  if slot.isValid then ⟨true,slot.raw⟩ else ⟨false,runtime.blank type⟩

def appendRow {fields : List Field} (row : ShapedRow ν fields) : ShapedRow ν fields where
  val := List.zipWith (fun field slot => appendSlot runtime field.type slot) fields row.val
  property := by rw [List.length_zipWith,row.property,Nat.min_self]

/-- The shuffle columns, or the error of the first that is missing. -/
def shuffleColumnIndices (fields : List Field) : List String → Except String (List Nat)
  | [] => .ok []
  | columnName::columnNames =>
    match getFieldIndex fields (canonicalize columnName) with
    | none => .error ("Shuffle column '" ++ columnName ++ "' does not exist")
    | some shuffleColumnIndex =>
      match shuffleColumnIndices fields columnNames with
      | .error error => .error error
      | .ok indices => .ok (shuffleColumnIndex::indices)

namespace RecordBatchShuffler

/-- `make`: the indices of the shuffle columns, once there is an appender for every column. -/
def make (columnNames : List String) (fields : List Field) : Except String (List Nat) :=
  match shuffleColumnIndices fields columnNames with
  | .error error => .error error
  | .ok indices =>
    match fields.find? fun field => !appendable field.type with
    | some field => .error ("ArrayAppender not implemented for type '" ++ typeName field.type ++
      "', RecordBatchShuffler")
    | none => .ok indices

def partitionId (fields : List Field) (indices : List Nat) (numSlots : Nat) (row : List (Slot ν)) : Nat :=
  (hashCombine (indices.filterMap fun c => fields[c]?.bind fun field => row[c]?.map (hashSlot runtime field.type))).toNat %
    numSlots

/-- One batch into the appenders, which hold rows for each slot. -/
def shuffle {fields : List Field} (indices : List Nat) (appenders : List (List (ShapedRow ν fields)))
    (recordBatch : List (ShapedRow ν fields)) : Except String (List (List (ShapedRow ν fields))) :=
  match indices.find? fun c => fields[c]?.any fun field => !hashable field.type with
  | some c => .error ("ArrayHasher for type '" ++ ((fields[c]?.map fun field => typeName field.type).getD "") ++
      "' not implemented yet")
  | none => .ok (appenders.mapIdx fun s shuffled => shuffled ++
      (recordBatch.filter fun row => partitionId runtime fields indices appenders.length row.val == s).map
        (appendRow runtime))

def shuffleAll {fields : List Field} (indices : List Nat) :
    List (List (ShapedRow ν fields)) → List (List (ShapedRow ν fields)) →
    Except String (List (List (ShapedRow ν fields)))
  | appenders,[] => .ok appenders
  | appenders,recordBatch::recordBatches =>
    match shuffle runtime indices appenders recordBatch with
    | .error error => .error error
    | .ok shuffled => shuffleAll indices shuffled recordBatches

/-- The table of one slot. Without columns it has no rows. -/
def toTable {fields : List Field} (rows : List (ShapedRow ν fields)) : Table ν where
  fields := fields
  rows := if fields.isEmpty then [] else rows.map Subtype.val
  shaped := by
    intro row inside
    split at inside
    next => exact absurd inside List.not_mem_nil
    next =>
      obtain ⟨source,_,rfl⟩ := List.mem_map.mp inside
      exact source.property

end RecordBatchShuffler

/-- `ShuffleKernel::shuffle`. -/
def shuffle (columnNames : List String) (numSlots : Nat) (table : Table ν) : Except String (List (Table ν)) :=
  match RecordBatchShuffler.make columnNames table.fields with
  | .error error => .error error
  | .ok indices =>
    match RecordBatchShuffler.shuffleAll runtime indices (List.replicate numSlots []) (runtime.batches table) with
    | .error error => .error error
    | .ok appenders => .ok (appenders.map RecordBatchShuffler.toTable)

end

structure ShufflePOp (ν : Type) where
  shuffleColumnNames : List String
  consumerVec : List String
  buffers : List (Option (TupleSet ν))

namespace ShufflePOp

/-- A tuple set after what is buffered. An error leaves the buffer as it is. -/
def buffer (buffered : Option (TupleSet ν)) (tupleSet : TupleSet ν) : Except Failure (TupleSet ν) :=
  match buffered with
  | none => .ok tupleSet
  | some bufferedTupleSet =>
    match concatenate [bufferedTupleSet,tupleSet] with
    | .error failure => .error failure
    | .ok joined => .ok (some joined)

/-- The buffer of a consumer, sent if it must be or is big enough. -/
def send (ctx : POpContext α (TupleSet ν)) (consumer : String) (buffered : Option (TupleSet ν)) (force : Bool) :
    POpContext α (TupleSet ν) × Option (TupleSet ν) :=
  match buffered with
  | none => (ctx,none)
  | some tupleSet =>
    if force || decide (DefaultBufferSize ≤ tupleSet.numRows) then (ctx.send tupleSet consumer,none)
    else (ctx,some tupleSet)

/-- The loop over the shuffled tuple sets: partition, buffer and consumer have one index. -/
def distribute (ctx : POpContext α (TupleSet ν)) :
    List String → List (Option (TupleSet ν)) → List (TupleSet ν) →
      POpContext α (TupleSet ν) × List (Option (TupleSet ν)) × Option Fault
  | consumer::consumerVec,buffered::buffers,tupleSet::tupleSets =>
    match buffer buffered tupleSet with
    | .error .exception => (ctx,buffered::buffers,some .exception)
    | .error (.error message) =>
      let rest := distribute (ctx.notifyError message) consumerVec buffers tupleSets
      (rest.1,buffered::rest.2.1,rest.2.2)
    | .ok joined =>
      let sent := send ctx consumer (some joined) false
      let rest := distribute sent.1 consumerVec buffers tupleSets
      (rest.1,sent.2::rest.2.1,rest.2.2)
  | _,buffers,_ => (ctx,buffers,none)

/-- The shuffled tuple sets are asked for also where there are none. -/
def onTuple (runtime : Runtime ν) (op : ShufflePOp ν) (ctx : POpContext α (TupleSet ν)) (tupleSet : TupleSet ν) :
    Process (ShufflePOp ν) α (TupleSet ν) :=
  let distributed (tupleSets : List (TupleSet ν)) : Process (ShufflePOp ν) α (TupleSet ν) :=
    let result := distribute ctx op.consumerVec op.buffers tupleSets
    ⟨{op with buffers := result.2.1},result.1,result.2.2⟩
  match tupleSet with
  | none => distributed (List.replicate op.consumerVec.length none)
  | some table =>
    if table.numRows = 0 then distributed (List.replicate op.consumerVec.length (some table))
    else
      match shuffle runtime op.shuffleColumnNames op.consumerVec.length table with
      | .error error => ⟨op,ctx.notifyError (error ++ ", " ++ ctx.name),some .exception⟩
      | .ok shuffled => distributed (shuffled.map some)

/-- The loop of `onComplete` over the buffers. -/
def flush (ctx : POpContext α (TupleSet ν)) : List String → List (Option (TupleSet ν)) → POpContext α (TupleSet ν)
  | consumer::consumerVec,buffered::buffers => flush (send ctx consumer buffered true).1 consumerVec buffers
  | _,_ => ctx

def clear (op : ShufflePOp ν) : ShufflePOp ν := {op with buffers := []}

def onComplete (op : ShufflePOp ν) (ctx : POpContext α (TupleSet ν)) : Process (ShufflePOp ν) α (TupleSet ν) :=
  if !ctx.complete && ctx.operatorMap.allComplete .producer then
    ⟨op.clear,(flush ctx op.consumerVec op.buffers).notifyComplete,none⟩
  else ⟨op,ctx,none⟩

def onReceive (runtime : Runtime ν) (op : ShufflePOp ν) (ctx : POpContext α (TupleSet ν)) :
    Waiting (TupleSet ν) → Process (ShufflePOp ν) α (TupleSet ν)
  | .content _ tupleSet => op.onTuple runtime ctx tupleSet
  | .complete _ => op.onComplete ctx

end ShufflePOp
end Hermes.Shuffle
