import Hermes.HashJoinProbeAbstractKernel

/-! `HashSemiJoinProbeKernel` and its `RecordBatchHashSemiJoiner`.
The kernel keeps the positions of the build rows whose key has occurred on the
probe side and puts the rows out at the end. The joiner skips a key when the first
row found for it is in its set; the set holds positions in the whole build table
and the row found is one of the index it has been given. -/
namespace Hermes.Join
open Hermes.Tuple Hermes.Library.ListJoin

structure RecordBatchHashSemiJoiner (ν : Type) {left right : Schema} (blank : ν)
    (pred : HashJoinPredicate left right) where
  buildTupleSetIndex : BuildIndex ν blank pred
  rowIndexOffset : Nat
  rowMatchIndexes : Finset Nat

variable {ν : Type} [DecidableEq ν] {left right : Schema} {blank : ν} {pred : HashJoinPredicate left right}

namespace RecordBatchHashSemiJoiner

/-- One probe row: its key is skipped if it has been found before, as the joiner sees it. -/
def matchKey (find : TupleKey ν → List Nat) (rowIndexOffset : Nat) (rowMatchIndexes : Finset Nat)
    (tupleKey : TupleKey ν) : Finset Nat :=
  match find tupleKey with
  | [] => rowMatchIndexes
  | first::others =>
    if first ∈ rowMatchIndexes then rowMatchIndexes
    else rowMatchIndexes ∪ ((first::others).map (·+rowIndexOffset)).toFinset

def join (joiner : RecordBatchHashSemiJoiner ν blank pred) (recordBatch : List (Record ν right)) :
    Except Failure (RecordBatchHashSemiJoiner ν blank pred) :=
  match fieldIndexes right pred.rightColumnNames with
  | .error columnName =>
    .error (.error ("Cannot make TupleSetIndexFinder. Column '" ++ columnName ++ "' does not exist"))
  | .ok probeColumnIndexes =>
    .ok {joiner with
      rowMatchIndexes := recordBatch.foldl (fun rowMatchIndexes row =>
        matchKey joiner.buildTupleSetIndex.find joiner.rowIndexOffset rowMatchIndexes
          (makeKey blank probeColumnIndexes row)) joiner.rowMatchIndexes}

end RecordBatchHashSemiJoiner

structure HashSemiJoinProbeKernel (ν : Type) {left right : Schema} (blank : ν)
    (pred : HashJoinPredicate left right) extends HashJoinProbeAbstractKernel ν blank pred where
  rowMatchIndexes : Finset Nat

namespace HashSemiJoinProbeKernel

def make : HashSemiJoinProbeKernel ν blank pred := ⟨HashJoinProbeAbstractKernel.make,∅⟩

section
variable (multimap : UnorderedMultimap) (reader : TableBatchReader) (neededColumnNames : List String)

/-- `join`, with the buffering of its result that follows each call. -/
def joinAndBuffer (kernel : HashSemiJoinProbeKernel ν blank pred) (index : BuildIndex ν blank pred)
    (rowIndexOffset : Nat) (tupleSet : TupleSet (Record ν right)) :
    Except Failure (HashSemiJoinProbeKernel ν blank pred) := do
  let joiner ← (reader.batches tupleSet).foldlM RecordBatchHashSemiJoiner.join ⟨index,rowIndexOffset,∅⟩
  .ok {kernel with rowMatchIndexes := kernel.rowMatchIndexes ∪ joiner.rowMatchIndexes}

def joinBuildTupleSetIndex (kernel : HashSemiJoinProbeKernel ν blank pred)
    (tupleSetIndex : BuildIndex ν blank pred) : Except Failure (HashSemiJoinProbeKernel ν blank pred) := do
  let rowIndexOffset := kernel.buildTupleSetIndex.elim 0 TupleSetIndex.size
  let inputs ← kernel.toHashJoinProbeAbstractKernel.putBuildTupleSetIndex multimap tupleSetIndex
  match kernel.probeTupleSet with
  | none => .ok {kernel with toHashJoinProbeAbstractKernel := inputs}
  | some probeTupleSet =>
    let kernel := {kernel with toHashJoinProbeAbstractKernel := inputs.bufferOutputSchema neededColumnNames}
    if probeTupleSet.numRows = 0 ∨ tupleSetIndex.size = 0 then .ok kernel
    else joinAndBuffer reader kernel tupleSetIndex rowIndexOffset probeTupleSet

def joinProbeTupleSet (kernel : HashSemiJoinProbeKernel ν blank pred) (tupleSet : TupleSet (Record ν right)) :
    Except Failure (HashSemiJoinProbeKernel ν blank pred) := do
  let inputs ← kernel.toHashJoinProbeAbstractKernel.putProbeTupleSet tupleSet
  match kernel.buildTupleSetIndex with
  | none => .ok {kernel with toHashJoinProbeAbstractKernel := inputs}
  | some buildTupleSetIndex =>
    let kernel := {kernel with toHashJoinProbeAbstractKernel := inputs.bufferOutputSchema neededColumnNames}
    if buildTupleSetIndex.size = 0 ∨ tupleSet.numRows = 0 then .ok kernel
    else joinAndBuffer reader kernel buildTupleSetIndex 0 tupleSet

/-- The matched rows in order, cut to the needed columns of the build side. The
schema of the output has the needed columns of both sides, the record batch only
arrays for those of the build side. -/
def finalize (kernel : HashSemiJoinProbeKernel ν blank pred) :
    Except Failure (HashSemiJoinProbeKernel ν blank pred) :=
  match kernel.buildTupleSetIndex with
  | none => .ok kernel
  | some buildTupleSetIndex =>
    if buildTupleSetIndex.size = 0 then .ok kernel
    else
      match buildTupleSetIndex.tupleSet.combine.chunks,kernel.outputSchema with
      | [],_ => .error .undefined
      | _,none => .error (.error "Output schema not set yet during finalize")
      | inputRows::_,some outputSchema =>
        let columns := kernel.neededColumnIndice.filterMap Sum.getLeft?
        if outputSchema = [] then .error (.error "Expressions cannot be empty")
        else
          match kernel.rowMatchIndexes.sort.mapM (inputRows[·]?) with
          | none => .error .undefined
          | some selected =>
            -- nothing is read where nothing is selected
            if selected ≠ [] ∧ columns.length < outputSchema.length then .error .undefined
            else
              .ok {kernel with
                toHashJoinProbeAbstractKernel := kernel.toHashJoinProbeAbstractKernel.bufferOutput
                  (TupleSet.ofRows (selected.map fun row => columns.map row))}

def receive (kernel : HashSemiJoinProbeKernel ν blank pred) :
    ProbeMessage ν blank pred → Except Failure (HashSemiJoinProbeKernel ν blank pred)
  | .build tupleSetIndex => joinBuildTupleSetIndex multimap reader neededColumnNames kernel tupleSetIndex
  | .probe tupleSet => joinProbeTupleSet reader neededColumnNames kernel tupleSet

/-- All messages in the order they come in, then `finalize`. -/
def run (messages : List (ProbeMessage ν blank pred)) : Except Failure (HashSemiJoinProbeKernel ν blank pred) := do
  let kernel ← messages.foldlM (receive multimap reader neededColumnNames) make
  kernel.finalize

end
end HashSemiJoinProbeKernel
end Hermes.Join
