import Hermes.HashJoinProbeAbstractKernel

/-! `NestedLoopJoinKernel` and its `RecordBatchNestedLoopJoiner`.
Every message is joined at once with what the other side has sent so far: each pair
of record batches is multiplied out and filtered by the predicate. The row offsets
and the tables of the outer phase are those of the source. -/
namespace Hermes.Join
open Hermes.Tuple Hermes.Library.ListJoin

section
variable {left right : Schema}

def columnName (column : NeededColumn left right) : String := Sum.elim left.get right.get column

theorem columnName_injective (distinct : (left ++ right).Nodup) :
    Function.Injective (columnName : NeededColumn left right → String) := by
  obtain ⟨lefts,rights,apart⟩ := List.nodup_append.mp distinct
  intro c other same
  cases c with
  | inl c =>
    cases other with
    | inl other => exact congrArg Sum.inl (List.nodup_iff_injective_get.mp lefts same)
    | inr other => exact absurd same (apart _ (left.get_mem c) _ (right.get_mem other))
  | inr c =>
    cases other with
    | inl other => exact absurd same.symm (apart _ (left.get_mem other) _ (right.get_mem c))
    | inr other => exact congrArg Sum.inr (List.nodup_iff_injective_get.mp rights same)

/-- A predicate over columns of both sides, each named by no other column. -/
structure NestedLoopPredicate (ν : Type) (left right : Schema) where
  columns : List (NeededColumn left right)
  evaluate : List (Option ν) → Bool
  unambiguous : ∀ c ∈ columns, ∀ other, columnName other = columnName c → other = c

namespace NestedLoopPredicate
variable {ν : Type} (predicate : NestedLoopPredicate ν left right)

def involvedColumnNames : List String := predicate.columns.map columnName

def holds (leftRow : Record ν left) (rightRow : Record ν right) : Bool :=
  predicate.evaluate (predicate.columns.map (Sum.elim leftRow rightRow))

/-- The expression finds its columns by name in the schema it is compiled for. -/
def compile (schema : Schema) : Except Failure (List (Fin schema.length)) :=
  match fieldIndexes schema predicate.involvedColumnNames with
  | .error columnName => .error (.error ("Column '" ++ columnName ++ "' does not exist"))
  | .ok columns => .ok columns

def selects {schema : Schema} (columns : List (Fin schema.length)) (row : OutputRow ν) : Bool :=
  predicate.evaluate (columns.map fun c => row[c.val]?.join)

/-- Gandiva does not evaluate a filter on a record batch without rows. -/
def computeSelectionVector {schema : Schema} (columns : List (Fin schema.length))
    (recordBatch : List (OutputRow ν)) : Except Failure (List Nat) :=
  if recordBatch.isEmpty then .error (.error "RecordBatch must be non-empty.")
  else .ok (positions (fun row => predicate.selects columns row) recordBatch)

end NestedLoopPredicate
end

structure RecordBatchNestedLoopJoiner (ν : Type) (left right : Schema) where
  predicate : Option (NestedLoopPredicate ν left right)
  outputSchema : Schema
  neededColumnIndice : List (NeededColumn left right)
  joinedArrayVectors : List (List (OutputRow ν))
  leftRowMatchIndexes : Finset Nat
  rightRowMatchIndexes : Finset Nat

variable {ν : Type} {left right : Schema}

namespace RecordBatchNestedLoopJoiner

def make (predicate : Option (NestedLoopPredicate ν left right)) (outputSchema : Schema)
    (neededColumnIndice : List (NeededColumn left right)) : RecordBatchNestedLoopJoiner ν left right :=
  ⟨predicate,outputSchema,neededColumnIndice,[],∅,∅⟩

/-- A needed left column is an array of one chunk for each right row; without a
chunk the array has no type and its constructor aborts. -/
def cartesian (joiner : RecordBatchNestedLoopJoiner ν left right) (leftRecordBatch : List (Record ν left))
    (rightRecordBatch : List (Record ν right)) : Except Failure (List (OutputRow ν)) :=
  if joiner.neededColumnIndice.any Sum.isLeft && rightRecordBatch.isEmpty then .error .undefined
  else if joiner.neededColumnIndice.isEmpty then .error (.error "No output num_rows")
  else .ok (rightRecordBatch.flatMap fun rightRow => leftRecordBatch.map fun leftRow =>
    outputRow joiner.neededColumnIndice leftRow rightRow)

/-- The selected rows, and next to them the positions of the input rows they are made of. -/
def filter (joiner : RecordBatchNestedLoopJoiner ν left right) (predicate : NestedLoopPredicate ν left right)
    (recordBatch : List (OutputRow ν)) (leftBatchNumRows leftRowOffset rightRowOffset : Nat) :
    Except Failure (RecordBatchNestedLoopJoiner ν left right × List (OutputRow ν)) := do
  let columns ← predicate.compile joiner.outputSchema
  let selectionVector ← predicate.computeSelectionVector columns recordBatch
  .ok ({joiner with
    leftRowMatchIndexes := joiner.leftRowMatchIndexes ∪
      (selectionVector.map fun outputRow => outputRow%leftBatchNumRows+leftRowOffset).toFinset
    rightRowMatchIndexes := joiner.rightRowMatchIndexes ∪
      (selectionVector.map fun outputRow => outputRow/leftBatchNumRows+rightRowOffset).toFinset},
    selectionVector.filterMap (recordBatch[·]?))

def join (joiner : RecordBatchNestedLoopJoiner ν left right) (leftRecordBatch : List (Record ν left))
    (rightRecordBatch : List (Record ν right)) (leftRowOffset rightRowOffset : Nat) :
    Except Failure (RecordBatchNestedLoopJoiner ν left right) := do
  let cartesianBatch ← joiner.cartesian leftRecordBatch rightRecordBatch
  match joiner.predicate with
  | none => .ok {joiner with joinedArrayVectors := joiner.joinedArrayVectors ++ [cartesianBatch]}
  | some predicate =>
    let (joiner,output) ←
      joiner.filter predicate cartesianBatch leftRecordBatch.length leftRowOffset rightRowOffset
    .ok {joiner with joinedArrayVectors := joiner.joinedArrayVectors ++ [output]}

/-- The inner loop of the kernel's `join`; it hands the right offset on. -/
def joinRightBatches (joiner : RecordBatchNestedLoopJoiner ν left right) (leftRecordBatch : List (Record ν left))
    (leftRowOffset rightRowOffset : Nat) :
    List (List (Record ν right)) → Except Failure (RecordBatchNestedLoopJoiner ν left right × Nat)
  | [] => .ok (joiner,rightRowOffset)
  | rightRecordBatch::rest => do
    let joiner ← joiner.join leftRecordBatch rightRecordBatch leftRowOffset rightRowOffset
    joiner.joinRightBatches leftRecordBatch leftRowOffset (rightRowOffset+rightRecordBatch.length) rest

/-- The outer loop: the right offset goes on from one left batch to the next. -/
def joinBatches (joiner : RecordBatchNestedLoopJoiner ν left right) (rightBatches : List (List (Record ν right)))
    (leftRowOffset rightRowOffset : Nat) :
    List (List (Record ν left)) → Except Failure (RecordBatchNestedLoopJoiner ν left right)
  | [] => .ok joiner
  | leftRecordBatch::rest => do
    let (joiner,rightRowOffset) ←
      joiner.joinRightBatches leftRecordBatch leftRowOffset rightRowOffset rightBatches
    joiner.joinBatches rightBatches (leftRowOffset+leftRecordBatch.length) rightRowOffset rest

def toTupleSet (joiner : RecordBatchNestedLoopJoiner ν left right) : TupleSet (OutputRow ν) :=
  ⟨joiner.joinedArrayVectors⟩

end RecordBatchNestedLoopJoiner

structure NestedLoopJoinArguments (ν : Type) (left right : Schema) where
  predicate : Option (NestedLoopPredicate ν left right)
  neededColumnNames : List String
  isLeft : Bool
  isRight : Bool
  involved : ∀ p ∈ predicate, ∀ name ∈ p.involvedColumnNames, name ∈ neededColumnNames

inductive JoinType where
  | inner
  | left
  | right
  | full
  | semi
deriving DecidableEq, Repr

/-- `NestedLoopJoinPOp::makeKernel`: the columns of the predicate are needed as well. -/
def NestedLoopJoinArguments.makeKernel (predicate : Option (NestedLoopPredicate ν left right))
    (projectColumnNames : List String) (joinType : JoinType) :
    Except String (NestedLoopJoinArguments ν left right) :=
  let neededColumnNames :=
    projectColumnNames ++ predicate.elim [] NestedLoopPredicate.involvedColumnNames
  have involved : ∀ p ∈ predicate, ∀ name ∈ p.involvedColumnNames, name ∈ neededColumnNames := by
    rintro p rfl name inside
    exact List.mem_append_right projectColumnNames inside
  match joinType with
  | .inner => .ok ⟨predicate,neededColumnNames,false,false,involved⟩
  | .left => .ok ⟨predicate,neededColumnNames,true,false,involved⟩
  | .right => .ok ⟨predicate,neededColumnNames,false,true,involved⟩
  | .full => .ok ⟨predicate,neededColumnNames,true,true,involved⟩
  | .semi => .error "Unsupported nested loop join type, 4"

structure NestedLoopJoinKernel (ν : Type) (left right : Schema) where
  leftTupleSet : Option (TupleSet (Record ν left))
  rightTupleSet : Option (TupleSet (Record ν right))
  outputSchema : Option Schema
  neededColumnIndice : List (NeededColumn left right)
  leftJoinHelper : Option (OuterJoinHelper left right)
  rightJoinHelper : Option (OuterJoinHelper left right)
  isOuterJoinHelperCreated : Bool
  buffer : Option (TupleSet (OutputRow ν))

inductive JoinMessage (ν : Type) (left right : Schema) where
  | left (incomingLeft : TupleSet (Record ν left))
  | right (incomingRight : TupleSet (Record ν right))

namespace NestedLoopJoinKernel

def make : NestedLoopJoinKernel ν left right := ⟨none,none,none,[],none,none,false,none⟩

def bufferInput {ρ : Type} (buffer : Option (TupleSet ρ)) (incomingTupleSet : TupleSet ρ) :
    Option (TupleSet ρ) :=
  some (keepTable buffer incomingTupleSet)

def bufferOutput (kernel : NestedLoopJoinKernel ν left right) (tupleSet : TupleSet (OutputRow ν)) :
    NestedLoopJoinKernel ν left right :=
  match kernel.buffer with
  | none => {kernel with buffer := some tupleSet}
  | some buffered => {kernel with buffer := some (TupleSet.concatenate [buffered,tupleSet])}

def bufferedRows (kernel : NestedLoopJoinKernel ν left right) : List (OutputRow ν) :=
  kernel.buffer.elim [] TupleSet.rows

section
variable (reader : TableBatchReader) (arguments : NestedLoopJoinArguments ν left right)

def bufferOutputSchema (kernel : NestedLoopJoinKernel ν left right) : NestedLoopJoinKernel ν left right :=
  match kernel.outputSchema with
  | some _ => kernel
  | none =>
    {kernel with
      neededColumnIndice :=
        kernel.neededColumnIndice ++ Join.neededColumnIndice left right arguments.neededColumnNames
      outputSchema := some (outputFields left right arguments.neededColumnNames)}

def makeOuterJoinHelpers (kernel : NestedLoopJoinKernel ν left right) :
    Except Failure (NestedLoopJoinKernel ν left right) :=
  if kernel.isOuterJoinHelperCreated then .ok kernel
  else
    match kernel.outputSchema with
    | none => .error (.error "Output schema not set when making outer join helpers")
    | some outputSchema =>
      .ok {kernel with
        leftJoinHelper := if arguments.isLeft && kernel.leftJoinHelper.isNone then
          some (OuterJoinHelper.make true outputSchema kernel.neededColumnIndice) else kernel.leftJoinHelper
        rightJoinHelper := if arguments.isRight && kernel.rightJoinHelper.isNone then
          some (OuterJoinHelper.make false outputSchema kernel.neededColumnIndice) else kernel.rightJoinHelper
        isOuterJoinHelperCreated := true}

/-- `join`, with the buffering of its result. The offsets are the sizes of what has
been buffered, the incoming table included. -/
def join (kernel : NestedLoopJoinKernel ν left right) (leftTupleSet : TupleSet (Record ν left))
    (rightTupleSet : TupleSet (Record ν right)) : Except Failure (NestedLoopJoinKernel ν left right) :=
  match kernel.outputSchema with
  | none => .error .undefined
  | some outputSchema => do
    let leftRowOffset := kernel.leftTupleSet.elim 0 TupleSet.numRows
    let rightRowOffset := kernel.rightTupleSet.elim 0 TupleSet.numRows
    let joiner ←
      (RecordBatchNestedLoopJoiner.make arguments.predicate outputSchema kernel.neededColumnIndice).joinBatches
        (reader.batches rightTupleSet) leftRowOffset rightRowOffset (reader.batches leftTupleSet)
    .ok (bufferOutput {kernel with
      leftJoinHelper := kernel.leftJoinHelper.map (·.putRowMatchIndexes joiner.leftRowMatchIndexes)
      rightJoinHelper := kernel.rightJoinHelper.map (·.putRowMatchIndexes joiner.rightRowMatchIndexes)}
      joiner.toTupleSet)

def joinIncomingLeft (kernel : NestedLoopJoinKernel ν left right) (incomingLeft : TupleSet (Record ν left)) :
    Except Failure (NestedLoopJoinKernel ν left right) := do
  let kernel := {kernel with leftTupleSet := bufferInput kernel.leftTupleSet incomingLeft}
  match kernel.rightTupleSet with
  | none => .ok kernel
  | some rightTupleSet =>
    let kernel ← makeOuterJoinHelpers arguments (kernel.bufferOutputSchema arguments)
    if rightTupleSet.numRows = 0 ∨ incomingLeft.numRows = 0 then .ok kernel
    else join reader arguments kernel incomingLeft rightTupleSet

def joinIncomingRight (kernel : NestedLoopJoinKernel ν left right) (incomingRight : TupleSet (Record ν right)) :
    Except Failure (NestedLoopJoinKernel ν left right) := do
  let kernel := {kernel with rightTupleSet := bufferInput kernel.rightTupleSet incomingRight}
  match kernel.leftTupleSet with
  | none => .ok kernel
  | some leftTupleSet =>
    let kernel ← makeOuterJoinHelpers arguments (kernel.bufferOutputSchema arguments)
    if leftTupleSet.numRows = 0 ∨ incomingRight.numRows = 0 then .ok kernel
    else join reader arguments kernel leftTupleSet incomingRight

/-- One half of `computeOuterJoin`: nothing to do without a helper or a table. -/
def computeOuterSide (helper : Option (OuterJoinHelper left right)) {schema : Schema}
    (tupleSet : Option (TupleSet (Record ν schema))) (kernel : NestedLoopJoinKernel ν left right) :
    Except Failure (NestedLoopJoinKernel ν left right) :=
  match helper,tupleSet with
  | some helper,some tupleSet => do
    let output ← helper.compute tupleSet
    .ok (kernel.bufferOutput output)
  | _,_ => .ok kernel

/-- The left helper is given the right table and the right helper the left one. -/
def computeOuterJoin (kernel : NestedLoopJoinKernel ν left right) :
    Except Failure (NestedLoopJoinKernel ν left right) :=
  match arguments.predicate with
  | none => .ok kernel
  | some _ => do
    let padded ← computeOuterSide kernel.leftJoinHelper kernel.rightTupleSet kernel
    computeOuterSide kernel.rightJoinHelper kernel.leftTupleSet padded

def finalize (kernel : NestedLoopJoinKernel ν left right) : Except Failure (NestedLoopJoinKernel ν left right) :=
  computeOuterJoin arguments kernel

def receive (kernel : NestedLoopJoinKernel ν left right) :
    JoinMessage ν left right → Except Failure (NestedLoopJoinKernel ν left right)
  | .left incomingLeft => joinIncomingLeft reader arguments kernel incomingLeft
  | .right incomingRight => joinIncomingRight reader arguments kernel incomingRight

/-- All messages in the order they come in, then `finalize`. -/
def run (messages : List (JoinMessage ν left right)) : Except Failure (NestedLoopJoinKernel ν left right) := do
  let kernel ← messages.foldlM (receive reader arguments) make
  kernel.finalize arguments

end
end NestedLoopJoinKernel
end Hermes.Join
