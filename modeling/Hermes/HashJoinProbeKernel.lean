import Hermes.HashJoinProbeAbstractKernel

/-! `HashJoinProbeKernel` and its `RecordBatchHashJoiner`: every message is joined
at once with what the other side has sent so far, and the positions of the
matched rows are kept for the outer sides. -/
namespace Hermes.Join
open Hermes.Tuple Hermes.Library.ListJoin

structure RecordBatchHashJoiner (ν : Type) {left right : Schema} (blank : ν)
    (pred : HashJoinPredicate left right) where
  buildTupleSetIndex : BuildIndex ν blank pred
  neededColumnIndice : List (NeededColumn left right)
  buildRowOffset : Nat
  joinedArrayVectors : List (List (OutputRow ν))
  buildRowMatchIndexes : Finset Nat
  probeRowMatchIndexes : Finset Nat

variable {ν : Type} [DecidableEq ν] {left right : Schema} {blank : ν} {pred : HashJoinPredicate left right}

namespace RecordBatchHashJoiner

def make (buildTupleSetIndex : BuildIndex ν blank pred) (neededColumnIndice : List (NeededColumn left right))
    (buildRowOffset : Nat) : RecordBatchHashJoiner ν blank pred :=
  ⟨buildTupleSetIndex,neededColumnIndice,buildRowOffset,[],∅,∅⟩

def join (joiner : RecordBatchHashJoiner ν blank pred) (probeRecordBatch : List (Record ν right))
    (probeRowOffset : Nat) : Except Failure (RecordBatchHashJoiner ν blank pred) :=
  match fieldIndexes right pred.rightColumnNames with
  | .error columnName =>
    .error (.error ("Cannot make TupleSetIndexFinder. Column '" ++ columnName ++ "' does not exist"))
  | .ok probeColumnIndexes =>
    match joiner.buildTupleSetIndex.tupleSet.combine.chunks with
    | [] => .error .undefined
    | buildColumns::_ =>
      let found (row : Record ν right) := joiner.buildTupleSetIndex.find (makeKey blank probeColumnIndexes row)
      let rows := probeRecordBatch.flatMap fun row =>
        ((found row).filterMap (buildColumns[·]?)).map fun buildRow =>
          outputRow joiner.neededColumnIndice buildRow row
      .ok {joiner with
        probeRowMatchIndexes := joiner.probeRowMatchIndexes ∪
          ((probeRecordBatch.zipIdx.filter fun entry => found entry.1 ≠ []).map
            fun entry => probeRowOffset+entry.2).toFinset
        buildRowMatchIndexes := joiner.buildRowMatchIndexes ∪
          ((probeRecordBatch.flatMap found).map (joiner.buildRowOffset+·)).toFinset
        -- without an output column there is no array to keep
        joinedArrayVectors := if joiner.neededColumnIndice = [] ∨ rows = [] then joiner.joinedArrayVectors
          else joiner.joinedArrayVectors ++ [rows]}

/-- The loop over the record batches of the probe table. -/
def joinBatches (joiner : RecordBatchHashJoiner ν blank pred) (probeRowOffset : Nat) :
    List (List (Record ν right)) → Except Failure (RecordBatchHashJoiner ν blank pred)
  | [] => .ok joiner
  | recordBatch::rest => do
    let joiner ← joiner.join recordBatch probeRowOffset
    joiner.joinBatches (probeRowOffset+recordBatch.length) rest

def toTupleSet (joiner : RecordBatchHashJoiner ν blank pred) : TupleSet (OutputRow ν) :=
  ⟨joiner.joinedArrayVectors⟩

end RecordBatchHashJoiner

/-- What the kernel is made with, next to the predicate. -/
structure HashJoinArguments where
  neededColumnNames : List String
  isLeft : Bool
  isRight : Bool

structure HashJoinProbeKernel (ν : Type) {left right : Schema} (blank : ν) (pred : HashJoinPredicate left right)
    extends HashJoinProbeAbstractKernel ν blank pred where
  leftJoinHelper : Option (OuterJoinHelper left right)
  rightJoinHelper : Option (OuterJoinHelper left right)
  isOuterJoinHelperCreated : Bool

namespace HashJoinProbeKernel

def make : HashJoinProbeKernel ν blank pred := ⟨HashJoinProbeAbstractKernel.make,none,none,false⟩

section
variable (multimap : UnorderedMultimap) (reader : TableBatchReader) (arguments : HashJoinArguments)

def makeOuterJoinHelpers (kernel : HashJoinProbeKernel ν blank pred) :
    Except Failure (HashJoinProbeKernel ν blank pred) :=
  if kernel.isOuterJoinHelperCreated then .ok kernel
  else
    match kernel.outputSchema with
    | none => .error (.error "Output schema not set when making outer join helpers")
    | some outputSchema =>
      .ok {kernel with
        leftJoinHelper := if arguments.isLeft && kernel.leftJoinHelper.isNone then
          some (OuterJoinHelper.make true outputSchema kernel.neededColumnIndice) else kernel.leftJoinHelper
        rightJoinHelper := if arguments.isRight && kernel.rightJoinHelper.isNone then
          some (OuterJoinHelper.make false outputSchema kernel.neededColumnIndice) else kernel.rightJoinHelper
        isOuterJoinHelperCreated := true}

/-- The schema and the helpers, once both sides have sent something. -/
def prepare (kernel : HashJoinProbeKernel ν blank pred) : Except Failure (HashJoinProbeKernel ν blank pred) :=
  makeOuterJoinHelpers arguments {kernel with
    toHashJoinProbeAbstractKernel :=
      kernel.toHashJoinProbeAbstractKernel.bufferOutputSchema arguments.neededColumnNames}

/-- `join`, with the buffering of its result that follows each call. -/
def joinAndBuffer (kernel : HashJoinProbeKernel ν blank pred) (joiner : RecordBatchHashJoiner ν blank pred)
    (probeTupleSet : TupleSet (Record ν right)) (probeRowOffset : Nat) :
    Except Failure (HashJoinProbeKernel ν blank pred) := do
  let joiner ← joiner.joinBatches probeRowOffset (reader.batches probeTupleSet)
  .ok {kernel with
    leftJoinHelper := kernel.leftJoinHelper.map (·.putRowMatchIndexes joiner.buildRowMatchIndexes)
    rightJoinHelper := kernel.rightJoinHelper.map (·.putRowMatchIndexes joiner.probeRowMatchIndexes)
    toHashJoinProbeAbstractKernel := kernel.toHashJoinProbeAbstractKernel.bufferOutput joiner.toTupleSet}

def joinBuildTupleSetIndex (kernel : HashJoinProbeKernel ν blank pred) (tupleSetIndex : BuildIndex ν blank pred) :
    Except Failure (HashJoinProbeKernel ν blank pred) := do
  let buildRowOffset := kernel.buildTupleSetIndex.elim 0 TupleSetIndex.size
  let inputs ← kernel.toHashJoinProbeAbstractKernel.putBuildTupleSetIndex multimap tupleSetIndex
  let kernel := {kernel with toHashJoinProbeAbstractKernel := inputs}
  match kernel.probeTupleSet with
  | none => .ok kernel
  | some probeTupleSet =>
    let kernel ← prepare arguments kernel
    if probeTupleSet.numRows = 0 ∨ tupleSetIndex.size = 0 then .ok kernel
    else
      let joiner := RecordBatchHashJoiner.make tupleSetIndex kernel.neededColumnIndice buildRowOffset
      joinAndBuffer reader kernel joiner probeTupleSet 0

def joinProbeTupleSet (kernel : HashJoinProbeKernel ν blank pred) (tupleSet : TupleSet (Record ν right)) :
    Except Failure (HashJoinProbeKernel ν blank pred) := do
  let probeRowOffset := kernel.probeTupleSet.elim 0 TupleSet.numRows
  let inputs ← kernel.toHashJoinProbeAbstractKernel.putProbeTupleSet tupleSet
  let kernel := {kernel with toHashJoinProbeAbstractKernel := inputs}
  match kernel.buildTupleSetIndex with
  | none => .ok kernel
  | some buildTupleSetIndex =>
    let kernel ← prepare arguments kernel
    if buildTupleSetIndex.size = 0 ∨ tupleSet.numRows = 0 then .ok kernel
    else
      let joiner := RecordBatchHashJoiner.make buildTupleSetIndex kernel.neededColumnIndice 0
      joinAndBuffer reader kernel joiner tupleSet probeRowOffset

/-- One outer side of `computeOuterJoin`: nothing without a helper and a table. -/
def padOuterSide {ρ : Schema} (helper : Option (OuterJoinHelper left right))
    (tupleSet : Option (TupleSet (Record ν ρ))) (kernel : HashJoinProbeKernel ν blank pred) :
    Except Failure (HashJoinProbeKernel ν blank pred) :=
  match helper,tupleSet with
  | some helper,some tupleSet => do
    let output ← helper.compute tupleSet
    .ok {kernel with
      toHashJoinProbeAbstractKernel := kernel.toHashJoinProbeAbstractKernel.bufferOutput output}
  | _,_ => .ok kernel

/-- `finalize`, that is `computeOuterJoin`. -/
def finalize (kernel : HashJoinProbeKernel ν blank pred) : Except Failure (HashJoinProbeKernel ν blank pred) := do
  let padded ← padOuterSide kernel.leftJoinHelper (kernel.buildTupleSetIndex.map TupleSetIndex.tupleSet) kernel
  padOuterSide kernel.rightJoinHelper kernel.probeTupleSet padded

def receive (kernel : HashJoinProbeKernel ν blank pred) :
    ProbeMessage ν blank pred → Except Failure (HashJoinProbeKernel ν blank pred)
  | .build tupleSetIndex => joinBuildTupleSetIndex multimap reader arguments kernel tupleSetIndex
  | .probe tupleSet => joinProbeTupleSet reader arguments kernel tupleSet

/-- All messages in the order they come in, then `finalize`. -/
def run (messages : List (ProbeMessage ν blank pred)) : Except Failure (HashJoinProbeKernel ν blank pred) := do
  let kernel ← messages.foldlM (receive multimap reader arguments) make
  kernel.finalize

end
end HashJoinProbeKernel
end Hermes.Join
