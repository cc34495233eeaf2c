import Hermes.HashJoinProbeKernel

/-! What the hash join has put out after any sequence of messages.
The joiner is described once, for a batch and for all batches of a table; the
kernel keeps an invariant over its messages, and `finalize` is read off it. -/
namespace Hermes.Join
open Hermes.Tuple Hermes.Library.ListJoin

variable {ν : Type} [DecidableEq ν] {left right : Schema} {blank : ν} {pred : HashJoinPredicate left right}

/-- The joined rows of two tables; without output columns a table has no row. -/
def joinedRows (blank : ν) (pred : HashJoinPredicate left right) (needed : List (NeededColumn left right))
    (leftRows : List (Record ν left)) (rightRows : List (Record ν right)) : List (OutputRow ν) :=
  if needed = [] then []
  else (pairs (sameKey blank pred) leftRows rightRows).map fun pair => outputRow needed pair.1 pair.2

theorem joinedRows_append_right (blank : ν) (pred : HashJoinPredicate left right)
    (needed : List (NeededColumn left right)) (leftRows : List (Record ν left))
    (rightRows more : List (Record ν right)) :
    joinedRows blank pred needed leftRows (rightRows ++ more) =
      joinedRows blank pred needed leftRows rightRows ++ joinedRows blank pred needed leftRows more := by
  unfold joinedRows
  split
  next nothing => rfl
  next columns => rw [pairs_append_probe,List.map_append]

theorem joinedRows_append_left (blank : ν) (pred : HashJoinPredicate left right)
    (needed : List (NeededColumn left right)) (leftRows more : List (Record ν left))
    (rightRows : List (Record ν right)) :
    (joinedRows blank pred needed (leftRows ++ more) rightRows).Perm
      (joinedRows blank pred needed leftRows rightRows ++ joinedRows blank pred needed more rightRows) := by
  unfold joinedRows
  split
  next nothing => exact List.Perm.refl []
  next columns =>
    rw [← List.map_append]
    exact (pairs_append_build (sameKey blank pred) leftRows more rightRows).map _

structure Joins (joiner : RecordBatchHashJoiner ν blank pred) (probeRows : List (Record ν right))
    (probeRowOffset : Nat) (result : RecordBatchHashJoiner ν blank pred) : Prop where
  index : result.buildTupleSetIndex = joiner.buildTupleSetIndex
  needed : result.neededColumnIndice = joiner.neededColumnIndice
  offset : result.buildRowOffset = joiner.buildRowOffset
  rows : result.joinedArrayVectors.flatten.Perm (joiner.joinedArrayVectors.flatten ++
    joinedRows blank pred joiner.neededColumnIndice joiner.buildTupleSetIndex.rows probeRows)
  buildMarks : ∀ i, i ∈ result.buildRowMatchIndexes ↔ i ∈ joiner.buildRowMatchIndexes ∨
    ∃ k row, joiner.buildTupleSetIndex.rows[k]? = some row ∧
      (∃ probeRow ∈ probeRows, sameKey blank pred row probeRow) ∧ i = joiner.buildRowOffset+k
  probeMarks : ∀ i, i ∈ result.probeRowMatchIndexes ↔ i ∈ joiner.probeRowMatchIndexes ∨
    ∃ k row, probeRows[k]? = some row ∧
      (∃ buildRow ∈ joiner.buildTupleSetIndex.rows, sameKey blank pred buildRow row) ∧ i = probeRowOffset+k

theorem Joins.refl (joiner : RecordBatchHashJoiner ν blank pred) (probeRowOffset : Nat) :
    Joins joiner [] probeRowOffset joiner where
  index := rfl
  needed := rfl
  offset := rfl
  rows := by simp [joinedRows]
  buildMarks := by simp
  probeMarks := by simp

theorem Joins.trans {joiner middle result : RecordBatchHashJoiner ν blank pred}
    {probeRows more : List (Record ν right)} {probeRowOffset : Nat}
    (first : Joins joiner probeRows probeRowOffset middle)
    (second : Joins middle more (probeRowOffset+probeRows.length) result) :
    Joins joiner (probeRows ++ more) probeRowOffset result where
  index := second.index.trans first.index
  needed := second.needed.trans first.needed
  offset := second.offset.trans first.offset
  rows := by
    have both := second.rows.trans (first.rows.append_right _)
    rw [first.needed,first.index,List.append_assoc,← joinedRows_append_right] at both
    exact both
  buildMarks := by
    intro i
    rw [second.buildMarks i,first.buildMarks i,first.index,first.offset,or_assoc]
    apply or_congr_right
    simp only [List.mem_append,or_and_right,exists_or,and_or_left]
  probeMarks := by
    intro i
    rw [second.probeMarks i,first.probeMarks i,first.index,or_assoc]
    apply or_congr_right
    simp only [Nat.add_assoc]
    exact (exists_getElem?_append probeRows more fun k row =>
      (∃ buildRow ∈ joiner.buildTupleSetIndex.rows, sameKey blank pred buildRow row) ∧ i = probeRowOffset+k).symm

section
variable (index : BuildIndex ν blank pred)

theorem find_pairs (needed : List (NeededColumn left right)) (probeRows : List (Record ν right)) :
    (probeRows.flatMap fun row =>
      ((index.find (makeKey blank pred.rightColumns row)).filterMap (index.rows[·]?)).map fun buildRow =>
        outputRow needed buildRow row).Perm
      ((pairs (sameKey blank pred) index.rows probeRows).map fun pair => outputRow needed pair.1 pair.2) := by
  unfold pairs
  rw [List.map_flatMap]
  apply List.Perm.flatMap_left
  intro row _
  rw [List.map_map]
  have found := index.find_rows (makeKey blank pred.rightColumns row)
  simp only [key_eq] at found
  exact found.map _

theorem mem_found (probeRows : List (Record ν right)) (k : Nat) :
    k ∈ probeRows.flatMap (fun row => index.find (makeKey blank pred.rightColumns row)) ↔
      ∃ row, index.rows[k]? = some row ∧ ∃ probeRow ∈ probeRows, sameKey blank pred row probeRow := by
  simp only [List.mem_flatMap,TupleSetIndex.mem_find,key_eq,sameKey,decide_eq_true_eq]
  constructor
  · rintro ⟨probeRow,member,row,found,same⟩
    exact ⟨row,found,probeRow,member,same⟩
  · rintro ⟨row,found,probeRow,member,same⟩
    exact ⟨probeRow,member,row,found,same⟩

theorem find_ne_nil (row : Record ν right) :
    index.find (makeKey blank pred.rightColumns row) ≠ [] ↔
      ∃ buildRow ∈ index.rows, sameKey blank pred buildRow row := by
  rw [Ne,TupleSetIndex.find_eq_nil]
  simp [key_eq,sameKey]

end

theorem join_joins (joiner : RecordBatchHashJoiner ν blank pred)
    (present : joiner.buildTupleSetIndex.rows ≠ []) (probeRecordBatch : List (Record ν right))
    (probeRowOffset : Nat) :
    ∃ result, joiner.join probeRecordBatch probeRowOffset = .ok result ∧
      Joins joiner probeRecordBatch probeRowOffset result := by
  have chunked : joiner.buildTupleSetIndex.tupleSet.chunks ≠ [] := by
    intro bare
    apply present
    rw [TupleSetIndex.rows,TupleSet.rows,bare]
    rfl
  have combined : joiner.buildTupleSetIndex.tupleSet.combine.chunks = [joiner.buildTupleSetIndex.rows] := by
    simp [TupleSet.combine,chunked,TupleSet.ofRows,TupleSetIndex.rows]
  unfold RecordBatchHashJoiner.join
  rw [pred.rightResolved,combined]
  refine ⟨_,rfl,rfl,rfl,rfl,?_,?_,?_⟩
  · have rows := find_pairs joiner.buildTupleSetIndex joiner.neededColumnIndice probeRecordBatch
    dsimp only
    split
    next nothing =>
      have none : joinedRows blank pred joiner.neededColumnIndice joiner.buildTupleSetIndex.rows
          probeRecordBatch = [] := by
        unfold joinedRows
        split
        next empty => rfl
        next columns =>
          rw [nothing.resolve_left columns] at rows
          exact List.Perm.nil_eq rows |>.symm
      rw [none,List.append_nil]
    next some =>
      rw [not_or] at some
      rw [List.flatten_append,joinedRows,if_neg some.1,List.flatten_singleton]
      exact rows.append_left _
  · intro i
    dsimp only
    rw [Finset.mem_union]
    apply or_congr_right
    simp only [List.mem_toFinset,List.mem_map,mem_found]
    constructor
    · rintro ⟨k,⟨row,found,matched⟩,place⟩
      exact ⟨k,row,found,matched,place.symm⟩
    · rintro ⟨k,row,found,matched,place⟩
      exact ⟨k,⟨row,found,matched⟩,place.symm⟩
  · intro i
    dsimp only
    rw [Finset.mem_union]
    apply or_congr_right
    simp only [List.mem_toFinset,List.mem_map,List.mem_filter,decide_eq_true_eq,find_ne_nil]
    constructor
    · rintro ⟨entry,⟨inside,matched⟩,place⟩
      exact ⟨entry.2,entry.1,List.mem_zipIdx_iff_getElem?.mp inside,matched,place.symm⟩
    · rintro ⟨k,row,found,matched,place⟩
      exact ⟨(row,k),⟨List.mem_zipIdx_iff_getElem?.mpr found,matched⟩,place.symm⟩

theorem joinBatches_joins (joiner : RecordBatchHashJoiner ν blank pred)
    (present : joiner.buildTupleSetIndex.rows ≠ []) (batches : List (List (Record ν right)))
    (probeRowOffset : Nat) :
    ∃ result, joiner.joinBatches probeRowOffset batches = .ok result ∧
      Joins joiner batches.flatten probeRowOffset result := by
  induction batches generalizing joiner probeRowOffset with
  | nil => exact ⟨joiner,rfl,Joins.refl joiner probeRowOffset⟩
  | cons recordBatch rest ih =>
    obtain ⟨middle,joined,first⟩ := join_joins joiner present recordBatch probeRowOffset
    obtain ⟨result,later,second⟩ := ih middle (by rw [first.index]; exact present)
      (probeRowOffset+recordBatch.length)
    refine ⟨result,?_,first.trans second⟩
    rw [RecordBatchHashJoiner.joinBatches,joined]
    exact later

/-- What the kernel has joined, once both sides have sent something. -/
structure Joined (arguments : HashJoinArguments) (leftRows : List (Record ν left))
    (rightRows : List (Record ν right)) (kernel : HashJoinProbeKernel ν blank pred) : Prop where
  schema : kernel.outputSchema ≠ none
  needed : kernel.neededColumnIndice = neededColumnIndice left right arguments.neededColumnNames
  created : kernel.isOuterJoinHelperCreated = true
  rows : kernel.bufferedRows.Perm
    (joinedRows blank pred (neededColumnIndice left right arguments.neededColumnNames) leftRows rightRows)
  leftHelper : Tracks arguments.isLeft true (neededColumnIndice left right arguments.neededColumnNames)
    (leftMatched (sameKey blank pred) rightRows) leftRows kernel.leftJoinHelper
  rightHelper : Tracks arguments.isRight false (neededColumnIndice left right arguments.neededColumnNames)
    (rightMatched (sameKey blank pred) leftRows) rightRows kernel.rightJoinHelper

section
variable {arguments : HashJoinArguments} {leftRows : List (Record ν left)} {rightRows : List (Record ν right)}
variable {kernel after : HashJoinProbeKernel ν blank pred}

theorem Joined.skipLeft (joined : Joined arguments leftRows rightRows kernel) (more : List (Record ν left))
    (empty : rightRows = [] ∨ more = []) : Joined arguments (leftRows ++ more) rightRows kernel := by
  have unmatched : ∀ row ∈ more, ¬leftMatched (sameKey blank pred) rightRows row := by
    rcases empty with rfl | rfl <;> simp [leftMatched]
  have unmatching : ∀ row ∈ rightRows, ¬rightMatched (sameKey blank pred) more row := by
    rcases empty with rfl | rfl <;> simp [rightMatched]
  have parts := joinedRows_append_left blank pred
    (neededColumnIndice left right arguments.neededColumnNames) leftRows more rightRows
  have none : joinedRows blank pred (neededColumnIndice left right arguments.neededColumnNames)
      more rightRows = [] := by
    rcases empty with rfl | rfl <;> simp [joinedRows]
  rw [none,List.append_nil] at parts
  refine ⟨joined.schema,joined.needed,joined.created,joined.rows.trans parts.symm,
    joined.leftHelper.mono ?_,joined.rightHelper.mono ?_⟩
  · intro marks marked
    exact marked.append_none unmatched
  · intro marks marked
    rw [← Finset.union_empty marks]
    exact rightMatched_marks (Marks.none unmatching) marks marked

theorem Joined.skipRight (joined : Joined arguments leftRows rightRows kernel) (more : List (Record ν right))
    (empty : leftRows = [] ∨ more = []) : Joined arguments leftRows (rightRows ++ more) kernel := by
  have unmatched : ∀ row ∈ more, ¬rightMatched (sameKey blank pred) leftRows row := by
    rcases empty with rfl | rfl <;> simp [rightMatched]
  have unmatching : ∀ row ∈ leftRows, ¬leftMatched (sameKey blank pred) more row := by
    rcases empty with rfl | rfl <;> simp [leftMatched]
  have parts := joinedRows_append_right blank pred
    (neededColumnIndice left right arguments.neededColumnNames) leftRows rightRows more
  have none : joinedRows blank pred (neededColumnIndice left right arguments.neededColumnNames)
      leftRows more = [] := by
    rcases empty with rfl | rfl <;> simp [joinedRows]
  rw [none,List.append_nil] at parts
  refine ⟨joined.schema,joined.needed,joined.created,joined.rows.trans (.of_eq parts.symm),
    joined.leftHelper.mono ?_,joined.rightHelper.mono ?_⟩
  · intro marks marked
    rw [← Finset.union_empty marks]
    exact leftMatched_marks (Marks.none unmatching) marks marked
  · intro marks marked
    exact marked.append_none unmatched

/-- The kernel after a join, by what the joiner has collected. -/
def afterJoin (kernel : HashJoinProbeKernel ν blank pred) (joiner : RecordBatchHashJoiner ν blank pred) :
    HashJoinProbeKernel ν blank pred :=
  {kernel with
    leftJoinHelper := kernel.leftJoinHelper.map (·.putRowMatchIndexes joiner.buildRowMatchIndexes)
    rightJoinHelper := kernel.rightJoinHelper.map (·.putRowMatchIndexes joiner.probeRowMatchIndexes)
    toHashJoinProbeAbstractKernel := kernel.toHashJoinProbeAbstractKernel.bufferOutput joiner.toTupleSet}

theorem joinAndBuffer_eq (reader : TableBatchReader) (kernel : HashJoinProbeKernel ν blank pred)
    (index : BuildIndex ν blank pred) (needed : List (NeededColumn left right)) (buildRowOffset : Nat)
    (present : index.rows ≠ []) (probeTupleSet : TupleSet (Record ν right)) (probeRowOffset : Nat) :
    ∃ joiner, Joins (RecordBatchHashJoiner.make index needed buildRowOffset) probeTupleSet.rows
        probeRowOffset joiner ∧
      kernel.joinAndBuffer reader (RecordBatchHashJoiner.make index needed buildRowOffset) probeTupleSet
        probeRowOffset = .ok (afterJoin kernel joiner) := by
  obtain ⟨joiner,joined,joins⟩ := joinBatches_joins (RecordBatchHashJoiner.make index needed buildRowOffset)
    present (reader.batches probeTupleSet) probeRowOffset
  rw [reader.flatten_batches] at joins
  refine ⟨joiner,joins,?_⟩
  rw [HashJoinProbeKernel.joinAndBuffer,joined]
  rfl

theorem Joined.joinLeft (joined : Joined arguments leftRows rightRows kernel) (index : BuildIndex ν blank pred)
    {joiner : RecordBatchHashJoiner ν blank pred}
    (joins : Joins (RecordBatchHashJoiner.make index kernel.neededColumnIndice leftRows.length) rightRows 0
      joiner) : Joined arguments (leftRows ++ index.rows) rightRows (afterJoin kernel joiner) := by
  have rows := joins.rows
  rw [joined.needed] at rows
  refine ⟨?_,?_,joined.created,?_,joined.leftHelper.put _ ?_,joined.rightHelper.put _ ?_⟩
  · rw [afterJoin,HashJoinProbeAbstractKernel.outputSchema_bufferOutput]
    exact joined.schema
  · rw [afterJoin,HashJoinProbeAbstractKernel.neededColumnIndice_bufferOutput]
    exact joined.needed
  · rw [afterJoin,HashJoinProbeAbstractKernel.bufferedRows_bufferOutput]
    apply (joined.rows.append rows).trans
    exact (joinedRows_append_left blank pred _ leftRows index.rows rightRows).symm
  · intro marks marked
    apply marked.append
    intro i
    rw [joins.buildMarks i]
    simp [RecordBatchHashJoiner.make,leftMatched]
  · intro marks marked
    apply rightMatched_marks _ marks marked
    rw [marks_iff]
    intro i
    rw [joins.probeMarks i]
    simp [RecordBatchHashJoiner.make,rightMatched]

theorem Joined.joinRight (joined : Joined arguments leftRows rightRows kernel) (index : BuildIndex ν blank pred)
    (whole : index.rows = leftRows) (more : List (Record ν right)) {joiner : RecordBatchHashJoiner ν blank pred}
    (joins : Joins (RecordBatchHashJoiner.make index kernel.neededColumnIndice 0) more rightRows.length
      joiner) : Joined arguments leftRows (rightRows ++ more) (afterJoin kernel joiner) := by
  have rows := joins.rows
  rw [joined.needed] at rows
  refine ⟨?_,?_,joined.created,?_,joined.leftHelper.put _ ?_,joined.rightHelper.put _ ?_⟩
  · rw [afterJoin,HashJoinProbeAbstractKernel.outputSchema_bufferOutput]
    exact joined.schema
  · rw [afterJoin,HashJoinProbeAbstractKernel.neededColumnIndice_bufferOutput]
    exact joined.needed
  · rw [afterJoin,HashJoinProbeAbstractKernel.bufferedRows_bufferOutput,joinedRows_append_right,← whole]
    rw [← whole] at joined
    exact joined.rows.append rows
  · intro marks marked
    apply leftMatched_marks _ marks marked
    rw [marks_iff]
    intro i
    rw [joins.buildMarks i]
    simp [RecordBatchHashJoiner.make,leftMatched,whole]
  · intro marks marked
    apply marked.append
    intro i
    rw [joins.probeMarks i]
    simp [RecordBatchHashJoiner.make,rightMatched,whole]

/-- Nothing has been joined yet, as one side has not sent anything. -/
structure Waiting (kernel : HashJoinProbeKernel ν blank pred) : Prop where
  schema : kernel.outputSchema = none
  needed : kernel.neededColumnIndice = []
  buffer : kernel.buffer = none
  leftHelper : kernel.leftJoinHelper = none
  rightHelper : kernel.rightJoinHelper = none
  created : kernel.isOuterJoinHelperCreated = false

theorem prepare_joined (arguments : HashJoinArguments) (leftRows : List (Record ν left))
    (rightRows : List (Record ν right)) (kernel : HashJoinProbeKernel ν blank pred)
    (state : Waiting kernel ∧ (leftRows = [] ∨ rightRows = []) ∨
      Joined arguments leftRows rightRows kernel) :
    ∃ prepared, HashJoinProbeKernel.prepare arguments kernel = .ok prepared ∧
      Joined arguments leftRows rightRows prepared ∧
      prepared.buildTupleSetIndex = kernel.buildTupleSetIndex ∧
      prepared.probeTupleSet = kernel.probeTupleSet := by
  rcases state with ⟨waiting,empty⟩ | joined
  · have unprepared : HashJoinProbeKernel.prepare arguments kernel =
        HashJoinProbeKernel.makeOuterJoinHelpers arguments {kernel with
          neededColumnIndice := neededColumnIndice left right arguments.neededColumnNames
          outputSchema := some (outputFields left right arguments.neededColumnNames)} := by
      simp [HashJoinProbeKernel.prepare,HashJoinProbeAbstractKernel.bufferOutputSchema,waiting.schema,
        waiting.needed]
    have unmatched : ∀ row ∈ leftRows, ¬leftMatched (sameKey blank pred) rightRows row := by
      rcases empty with rfl | rfl <;> simp [leftMatched]
    have unmatching : ∀ row ∈ rightRows, ¬rightMatched (sameKey blank pred) leftRows row := by
      rcases empty with rfl | rfl <;> simp [rightMatched]
    have none : joinedRows blank pred (neededColumnIndice left right arguments.neededColumnNames)
        leftRows rightRows = [] := by
      rcases empty with rfl | rfl <;> simp [joinedRows]
    rw [unprepared,HashJoinProbeKernel.makeOuterJoinHelpers]
    simp only [waiting.created,waiting.leftHelper,waiting.rightHelper,Bool.false_eq_true,if_false,
      Option.isNone_none,Bool.and_true]
    refine ⟨_,rfl,⟨Option.some_ne_none _,rfl,rfl,?_,Tracks.make _ unmatched,Tracks.make _ unmatching⟩,rfl,rfl⟩
    rw [none]
    simp [HashJoinProbeAbstractKernel.bufferedRows,waiting.buffer]
  · obtain ⟨schema,found⟩ := Option.ne_none_iff_exists'.mp joined.schema
    refine ⟨kernel,?_,joined,rfl,rfl⟩
    rw [HashJoinProbeKernel.prepare,HashJoinProbeAbstractKernel.bufferOutputSchema,found]
    exact if_pos joined.created

end

structure Reflects (arguments : HashJoinArguments) (messages : List (ProbeMessage ν blank pred))
    (kernel : HashJoinProbeKernel ν blank pred) : Prop
    extends Buffers messages kernel.toHashJoinProbeAbstractKernel where
  waiting : buildTables messages = [] ∨ probeTables messages = [] → Waiting kernel
  joined : buildTables messages ≠ [] → probeTables messages ≠ [] →
    Joined arguments (buildRows messages) (probeRows messages) kernel

section
variable {multimap : UnorderedMultimap} {reader : TableBatchReader} {arguments : HashJoinArguments}
variable {messages : List (ProbeMessage ν blank pred)} {kernel : HashJoinProbeKernel ν blank pred}

theorem Reflects.state (reflects : Reflects arguments messages kernel) :
    Waiting kernel ∧ (buildRows messages = [] ∨ probeRows messages = []) ∨
      Joined arguments (buildRows messages) (probeRows messages) kernel := by
  by_cases build : buildTables messages = []
  · exact Or.inl ⟨reflects.waiting (Or.inl build),Or.inl (by rw [buildRows,build]; rfl)⟩
  · by_cases probe : probeTables messages = []
    · exact Or.inl ⟨reflects.waiting (Or.inr probe),Or.inr (by rw [probeRows,probe]; rfl)⟩
    · exact Or.inr (reflects.joined build probe)

theorem Reflects.put (reflects : Reflects arguments messages kernel)
    (build : Option (BuildIndex ν blank pred)) (probe : Option (TupleSet (Record ν right))) :
    Waiting {kernel with buildTupleSetIndex := build, probeTupleSet := probe} ∧
        (buildRows messages = [] ∨ probeRows messages = []) ∨
      Joined arguments (buildRows messages) (probeRows messages)
        {kernel with buildTupleSetIndex := build, probeTupleSet := probe} := by
  rcases reflects.state with ⟨waiting,empty⟩ | joined
  · exact Or.inl ⟨⟨waiting.schema,waiting.needed,waiting.buffer,waiting.leftHelper,waiting.rightHelper,
      waiting.created⟩,empty⟩
  · exact Or.inr ⟨joined.schema,joined.needed,joined.created,joined.rows,joined.leftHelper,
      joined.rightHelper⟩

theorem reflects_build (reflects : Reflects arguments messages kernel) (index : BuildIndex ν blank pred) :
    ∃ after, HashJoinProbeKernel.joinBuildTupleSetIndex multimap reader arguments kernel index = .ok after ∧
      Reflects arguments (messages ++ [.build index]) after := by
  unfold HashJoinProbeKernel.joinBuildTupleSetIndex
  rw [HashJoinProbeAbstractKernel.putBuildTupleSetIndex_eq,reflects.build_size]
  cases received : kernel.probeTupleSet with
  | none =>
    have nothing : probeTables messages = [] := reflects.probe_none.mp received
    have waiting := reflects.waiting (Or.inr nothing)
    refine ⟨_,rfl,reflects.put_build multimap index rfl received.symm,fun _ => ⟨waiting.schema,waiting.needed,
      waiting.buffer,waiting.leftHelper,waiting.rightHelper,waiting.created⟩,?_⟩
    intro _ some
    rw [probeTables_build] at some
    exact absurd nothing some
  | some probeTupleSet =>
    have there : probeTupleSet.rows = probeRows messages := by
      rw [← reflects.probe_rows,received]
      rfl
    have arrived (after : HashJoinProbeKernel ν blank pred)
        (joined : Joined arguments (buildRows messages ++ index.rows) (probeRows messages) after)
        (build : after.buildTupleSetIndex =
          some (HashJoinProbeAbstractKernel.keepIndex multimap kernel.buildTupleSetIndex index))
        (probe : after.probeTupleSet = some probeTupleSet) :
        Reflects arguments (messages ++ [.build index]) after := by
      refine ⟨reflects.put_build multimap index build (probe.trans received.symm),?_,fun _ _ => ?_⟩
      · intro empty
        rw [buildTables_build,probeTables_build,← reflects.probe_none,received] at empty
        simp at empty
      · rw [buildRows_build,probeRows_build]
        exact joined
    obtain ⟨prepared,isPrepared,joined,build,probe⟩ := prepare_joined _ _ _ _ (reflects.put
      (some (HashJoinProbeAbstractKernel.keepIndex multimap kernel.buildTupleSetIndex index))
      (some probeTupleSet))
    simp only [bind,Except.bind,isPrepared]
    split
    next empty =>
      refine ⟨prepared,rfl,arrived prepared (joined.skipLeft index.rows ?_) build probe⟩
      rw [← there]
      exact empty.imp List.length_eq_zero_iff.mp List.length_eq_zero_iff.mp
    next filled =>
      rw [not_or] at filled
      have present : index.rows ≠ [] := fun none => filled.2 (List.length_eq_zero_iff.mpr none)
      obtain ⟨joiner,joins,isJoined⟩ := joinAndBuffer_eq reader prepared index prepared.neededColumnIndice
        (buildRows messages).length present probeTupleSet 0
      rw [there] at joins
      refine ⟨_,isJoined,arrived _ (joined.joinLeft index joins) ?_ ?_⟩
      · rw [afterJoin,HashJoinProbeAbstractKernel.buildTupleSetIndex_bufferOutput,build]
      · rw [afterJoin,HashJoinProbeAbstractKernel.probeTupleSet_bufferOutput,probe]

theorem reflects_probe (reflects : Reflects arguments messages kernel) (tupleSet : TupleSet (Record ν right)) :
    ∃ after, HashJoinProbeKernel.joinProbeTupleSet reader arguments kernel tupleSet = .ok after ∧
      Reflects arguments (messages ++ [.probe tupleSet]) after := by
  unfold HashJoinProbeKernel.joinProbeTupleSet
  rw [HashJoinProbeAbstractKernel.putProbeTupleSet_eq,reflects.probe_size]
  cases received : kernel.buildTupleSetIndex with
  | none =>
    have nothing : buildTables messages = [] := reflects.build_none.mp received
    have waiting := reflects.waiting (Or.inl nothing)
    refine ⟨_,rfl,reflects.put_probe tupleSet received.symm rfl,fun _ => ⟨waiting.schema,waiting.needed,
      waiting.buffer,waiting.leftHelper,waiting.rightHelper,waiting.created⟩,?_⟩
    intro some
    rw [buildTables_probe] at some
    exact absurd nothing some
  | some index =>
    have there : index.rows = buildRows messages := by
      rw [← reflects.build_rows,received]
      rfl
    have arrived (after : HashJoinProbeKernel ν blank pred)
        (joined : Joined arguments (buildRows messages) (probeRows messages ++ tupleSet.rows) after)
        (build : after.buildTupleSetIndex = some index)
        (probe : after.probeTupleSet = some (keepTable kernel.probeTupleSet tupleSet)) :
        Reflects arguments (messages ++ [.probe tupleSet]) after := by
      refine ⟨reflects.put_probe tupleSet (build.trans received.symm) probe,?_,fun _ _ => ?_⟩
      · intro empty
        rw [buildTables_probe,probeTables_probe,← reflects.build_none,received] at empty
        simp at empty
      · rw [buildRows_probe,probeRows_probe]
        exact joined
    obtain ⟨prepared,isPrepared,joined,build,probe⟩ := prepare_joined _ _ _ _ (reflects.put (some index)
      (some (keepTable kernel.probeTupleSet tupleSet)))
    simp only [bind,Except.bind,isPrepared]
    split
    next empty =>
      refine ⟨prepared,rfl,arrived prepared (joined.skipRight tupleSet.rows ?_) build probe⟩
      rw [← there]
      exact empty.imp List.length_eq_zero_iff.mp List.length_eq_zero_iff.mp
    next filled =>
      rw [not_or] at filled
      have present : index.rows ≠ [] := fun none => filled.1 (List.length_eq_zero_iff.mpr none)
      obtain ⟨joiner,joins,isJoined⟩ := joinAndBuffer_eq reader prepared index prepared.neededColumnIndice
        0 present tupleSet (probeRows messages).length
      refine ⟨_,isJoined,arrived _ (joined.joinRight index there tupleSet.rows joins) ?_ ?_⟩
      · rw [afterJoin,HashJoinProbeAbstractKernel.buildTupleSetIndex_bufferOutput,build]
      · rw [afterJoin,HashJoinProbeAbstractKernel.probeTupleSet_bufferOutput,probe]

theorem receive_reflects (multimap : UnorderedMultimap) (reader : TableBatchReader)
    (reflects : Reflects arguments messages kernel) (message : ProbeMessage ν blank pred) :
    ∃ after, HashJoinProbeKernel.receive multimap reader arguments kernel message = .ok after ∧
      Reflects arguments (messages ++ [message]) after := by
  cases message with
  | build index => exact reflects_build reflects index
  | probe tupleSet => exact reflects_probe reflects tupleSet

end

theorem receiveAll_reflects (multimap : UnorderedMultimap) (reader : TableBatchReader)
    (arguments : HashJoinArguments) (messages : List (ProbeMessage ν blank pred)) :
    ∃ kernel, messages.foldlM (HashJoinProbeKernel.receive multimap reader arguments)
        HashJoinProbeKernel.make = .ok kernel ∧ Reflects arguments messages kernel := by
  induction messages using List.reverseRecOn with
  | nil =>
    refine ⟨_,rfl,⟨rfl,rfl⟩,fun _ => ⟨rfl,rfl,rfl,rfl,rfl,rfl⟩,?_⟩
    intro some
    exact absurd rfl some
  | append_singleton messages message ih =>
    obtain ⟨kernel,received,reflects⟩ := ih
    obtain ⟨after,joined,next⟩ := receive_reflects multimap reader reflects message
    refine ⟨after,?_,next⟩
    rw [List.foldlM_append,received]
    simp only [bind,Except.bind,List.foldlM_cons,joined]
    rfl

omit [DecidableEq ν] in
theorem padOuterSide_spec {ρ : Schema} {outer : Bool} {helper : Option (OuterJoinHelper left right)}
    (there : helper.isSome = outer) (tupleSet : TupleSet (Record ν ρ)) {unreadable : Prop} [Decidable unreadable]
    {rows : List (OutputRow ν)}
    (computes : ∀ h ∈ helper, h.compute tupleSet =
      if unreadable then .error .undefined else .ok (TupleSet.ofRows rows))
    (kernel : HashJoinProbeKernel ν blank pred) :
    (outer = true ∧ unreadable →
      HashJoinProbeKernel.padOuterSide helper (some tupleSet) kernel = .error .undefined) ∧
    (¬(outer = true ∧ unreadable) →
      ∃ padded, HashJoinProbeKernel.padOuterSide helper (some tupleSet) kernel = .ok padded ∧
        padded.bufferedRows = kernel.bufferedRows ++ if outer then rows else []) := by
  cases helper with
  | none =>
    subst there
    refine ⟨fun both => Bool.noConfusion both.1,fun _ => ⟨kernel,rfl,?_⟩⟩
    simp
  | some helper =>
    subst there
    have output := computes helper rfl
    simp only [HashJoinProbeKernel.padOuterSide,output]
    constructor
    · intro both
      rw [if_pos both.2]
      rfl
    · intro readable
      rw [if_neg (fun bare => readable ⟨rfl,bare⟩)]
      refine ⟨_,rfl,?_⟩
      rw [HashJoinProbeAbstractKernel.bufferedRows_bufferOutput]
      simp

omit [DecidableEq ν] in
theorem finalize_waiting {kernel : HashJoinProbeKernel ν blank pred} (waiting : Waiting kernel) :
    kernel.finalize = .ok kernel := by
  simp only [HashJoinProbeKernel.finalize,HashJoinProbeKernel.padOuterSide,waiting.leftHelper,
    waiting.rightHelper]
  rfl

def Unreadable (outer : Bool) {schema : Schema} (columns : List (Fin schema.length)) {ρ : Type}
    (tupleSet : TupleSet ρ) : Prop :=
  outer = true ∧ columns ≠ [] ∧ tupleSet.chunks = []

theorem finalize_joined {arguments : HashJoinArguments} {kernel : HashJoinProbeKernel ν blank pred}
    {build : TupleSet (Record ν left)} {probe : TupleSet (Record ν right)}
    (joined : Joined arguments build.rows probe.rows kernel)
    (built : kernel.buildTupleSetIndex.map TupleSetIndex.tupleSet = some build)
    (probed : kernel.probeTupleSet = some probe) :
    (Unreadable arguments.isLeft (sideColumns left arguments.neededColumnNames) build ∨
        Unreadable arguments.isRight (sideColumns right arguments.neededColumnNames) probe →
      kernel.finalize = .error .undefined) ∧
    (¬(Unreadable arguments.isLeft (sideColumns left arguments.neededColumnNames) build ∨
        Unreadable arguments.isRight (sideColumns right arguments.neededColumnNames) probe) →
      ∃ final, kernel.finalize = .ok final ∧ final.bufferedRows.Perm
        (if neededColumnIndice left right arguments.neededColumnNames = [] then []
        else referenceJoin (neededColumnIndice left right arguments.neededColumnNames) (sameKey blank pred)
          arguments.isLeft arguments.isRight build.rows probe.rows)) := by
  have lefts := padOuterSide_spec joined.leftHelper.isSome build
    (fun helper there => by
      have tracks := joined.leftHelper
      rw [there] at tracks
      exact OuterJoinHelper.compute_left tracks.2.1 tracks.2.2.1 build tracks.2.2.2) kernel
  have rights (padded : HashJoinProbeKernel ν blank pred) := padOuterSide_spec joined.rightHelper.isSome probe
    (fun helper there => by
      have tracks := joined.rightHelper
      rw [there] at tracks
      exact OuterJoinHelper.compute_right tracks.2.1 tracks.2.2.1 probe tracks.2.2.2) padded
  unfold HashJoinProbeKernel.finalize
  rw [built,probed]
  by_cases leftBare : Unreadable arguments.isLeft (sideColumns left arguments.neededColumnNames) build
  · refine ⟨fun _ => ?_,fun readable => absurd (Or.inl leftBare) readable⟩
    rw [lefts.1 leftBare]
    rfl
  · obtain ⟨padded,isPadded,leftRows⟩ := lefts.2 leftBare
    rw [isPadded]
    by_cases rightBare : Unreadable arguments.isRight (sideColumns right arguments.neededColumnNames) probe
    · refine ⟨fun _ => ?_,fun readable => absurd (Or.inr rightBare) readable⟩
      exact (rights padded).1 rightBare
    · obtain ⟨final,isFinal,rightRows⟩ := (rights padded).2 rightBare
      refine ⟨fun bare => (bare.elim leftBare rightBare).elim,fun _ => ⟨final,isFinal,?_⟩⟩
      rw [rightRows,leftRows]
      have rows := joined.rows
      unfold joinedRows at rows
      split at rows
      next nothing =>
        rw [rows.eq_nil]
        simp [nothing]
      next columns =>
        rw [if_neg columns,if_neg columns,if_neg columns]
        exact (rows.append_right _).append_right _

/-- The join by definition of the two relations that the messages carry. -/
def reference (pred : HashJoinPredicate left right) (arguments : HashJoinArguments)
    (messages : List (ProbeMessage ν blank pred)) : List (OutputRow ν) :=
  referenceJoin (neededColumnIndice left right arguments.neededColumnNames) pred.holds
    arguments.isLeft arguments.isRight (buildRows messages) (probeRows messages)

/-- Nothing keeps the outer sides from being padded: an outer side that has rows
needs a message of the other side, an outer side without rows a chunk to read its
needed columns from; and an output without columns holds no rows. -/
structure Complete (arguments : HashJoinArguments) (messages : List (ProbeMessage ν blank pred)) : Prop where
  leftSent : arguments.isLeft = true → probeTables messages = [] → buildRows messages = []
  rightSent : arguments.isRight = true → buildTables messages = [] → probeRows messages = []
  leftReadable : arguments.isLeft = true → probeTables messages ≠ [] →
    sideColumns left arguments.neededColumnNames ≠ [] → ¬Chunkless (buildTables messages)
  rightReadable : arguments.isRight = true → buildTables messages ≠ [] →
    sideColumns right arguments.neededColumnNames ≠ [] → ¬Chunkless (probeTables messages)
  columns : neededColumnIndice left right arguments.neededColumnNames ≠ [] ∨
    reference pred arguments messages = []

section
variable {arguments : HashJoinArguments} {messages : List (ProbeMessage ν blank pred)}

theorem reference_eq (nonNull : NonNullKeys messages) :
    referenceJoin (neededColumnIndice left right arguments.neededColumnNames) (sameKey blank pred)
      arguments.isLeft arguments.isRight (buildRows messages) (probeRows messages) =
      reference pred arguments messages := by
  apply referenceJoin_congr
  intro l inLeft r inRight
  exact sameKey_eq nonNull inLeft inRight

theorem reference_waiting (arguments : HashJoinArguments)
    (empty : buildTables messages = [] ∨ probeTables messages = []) :
    reference pred arguments messages = [] ↔
      (arguments.isLeft = true → buildRows messages = []) ∧
        (arguments.isRight = true → probeRows messages = []) := by
  rcases empty with build | probe
  · have none : buildRows messages = [] := by rw [buildRows,build]; rfl
    simp [reference,referenceJoin,none,rightMatched]
  · have none : probeRows messages = [] := by rw [probeRows,probe]; rfl
    simp [reference,referenceJoin,none,leftMatched]

theorem run_waiting (multimap : UnorderedMultimap) (reader : TableBatchReader) (arguments : HashJoinArguments)
    (empty : buildTables messages = [] ∨ probeTables messages = []) :
    ∃ final, HashJoinProbeKernel.run multimap reader arguments messages = .ok final ∧
      final.bufferedRows = [] := by
  obtain ⟨kernel,received,reflects⟩ := receiveAll_reflects multimap reader arguments messages
  have waiting := reflects.waiting empty
  refine ⟨kernel,?_,by simp [HashJoinProbeAbstractKernel.bufferedRows,waiting.buffer]⟩
  rw [HashJoinProbeKernel.run,received]
  exact finalize_waiting waiting

theorem run_joined (multimap : UnorderedMultimap) (reader : TableBatchReader) (arguments : HashJoinArguments)
    (nonNull : NonNullKeys messages)
    (build : buildTables messages ≠ []) (probe : probeTables messages ≠ []) :
    (∃ final, HashJoinProbeKernel.run multimap reader arguments messages = .ok final ∧
      final.bufferedRows.Perm (if neededColumnIndice left right arguments.neededColumnNames = [] then []
        else reference pred arguments messages)) ∧
      ¬(arguments.isLeft = true ∧ sideColumns left arguments.neededColumnNames ≠ [] ∧
        Chunkless (buildTables messages)) ∧
      ¬(arguments.isRight = true ∧ sideColumns right arguments.neededColumnNames ≠ [] ∧
        Chunkless (probeTables messages)) ∨
    HashJoinProbeKernel.run multimap reader arguments messages = .error .undefined ∧
      (arguments.isLeft = true ∧ sideColumns left arguments.neededColumnNames ≠ [] ∧
          Chunkless (buildTables messages) ∨
        arguments.isRight = true ∧ sideColumns right arguments.neededColumnNames ≠ [] ∧
          Chunkless (probeTables messages)) := by
  obtain ⟨kernel,received,reflects⟩ := receiveAll_reflects multimap reader arguments messages
  obtain ⟨buildTable,built⟩ := Option.ne_none_iff_exists'.mp (mt (keptTable_eq_none _).mp build)
  obtain ⟨probeTable,probed⟩ := Option.ne_none_iff_exists'.mp (mt (keptTable_eq_none _).mp probe)
  have buildSame : buildTable.rows = buildRows messages := by
    rw [buildRows,← rows_keptTable,built]
    rfl
  have probeSame : probeTable.rows = probeRows messages := by
    rw [probeRows,← rows_keptTable,probed]
    rfl
  have joined := reflects.joined build probe
  rw [← buildSame,← probeSame] at joined
  have ends := finalize_joined joined (reflects.build.trans built) (reflects.probe.trans probed)
  unfold Unreadable at ends
  rw [chunks_keptTable built,chunks_keptTable probed,buildSame,probeSame,reference_eq nonNull] at ends
  have whole : HashJoinProbeKernel.run multimap reader arguments messages = kernel.finalize := by
    rw [HashJoinProbeKernel.run,received]
    rfl
  rw [whole]
  by_cases bare : arguments.isLeft = true ∧ sideColumns left arguments.neededColumnNames ≠ [] ∧
      Chunkless (buildTables messages) ∨
    arguments.isRight = true ∧ sideColumns right arguments.neededColumnNames ≠ [] ∧
      Chunkless (probeTables messages)
  · exact Or.inr ⟨ends.1 bare,bare⟩
  · exact Or.inl ⟨ends.2 bare,not_or.mp bare⟩

/-- For every order of messages the hash join puts out the join by definition
exactly when the outer sides can be padded at the end. -/
theorem hash_join_output_iff (multimap : UnorderedMultimap) (reader : TableBatchReader)
    (arguments : HashJoinArguments) (messages : List (ProbeMessage ν blank pred)) (nonNull : NonNullKeys messages) :
    (∃ final, HashJoinProbeKernel.run multimap reader arguments messages = .ok final ∧
      final.bufferedRows.Perm (reference pred arguments messages)) ↔ Complete arguments messages := by
  by_cases empty : buildTables messages = [] ∨ probeTables messages = []
  · obtain ⟨kernel,isRun,nothing⟩ := run_waiting multimap reader arguments empty
    have pads := reference_waiting arguments empty
    constructor
    · intro ⟨final,isFinal,rows⟩
      obtain rfl : kernel = final := Except.ok.inj (isRun.symm.trans isFinal)
      rw [nothing] at rows
      have none := rows.nil_eq.symm
      obtain ⟨leftNone,rightNone⟩ := pads.mp none
      refine ⟨fun outer _ => leftNone outer,fun outer _ => rightNone outer,?_,?_,Or.inr none⟩
      · intro _ sent _ bare
        rw [empty.resolve_right sent] at bare
        exact bare
      · intro _ sent _ bare
        rw [empty.resolve_left sent] at bare
        exact bare
    · intro complete
      refine ⟨kernel,isRun,?_⟩
      rw [nothing,pads.mpr]
      rcases empty with build | probe
      · exact ⟨fun _ => by rw [buildRows,build]; rfl,fun outer => complete.rightSent outer build⟩
      · exact ⟨fun outer => complete.leftSent outer probe,fun _ => by rw [probeRows,probe]; rfl⟩
  · rw [not_or] at empty
    rcases run_joined multimap reader arguments nonNull empty.1 empty.2 with
      ⟨⟨final,isFinal,rows⟩,leftFine,rightFine⟩ | ⟨failed,bare⟩
    · constructor
      · intro ⟨other,isOther,same⟩
        obtain rfl : final = other := Except.ok.inj (isFinal.symm.trans isOther)
        refine ⟨fun _ silent => absurd silent empty.2,fun _ silent => absurd silent empty.1,
          fun outer _ needed bare => leftFine ⟨outer,needed,bare⟩,
          fun outer _ needed bare => rightFine ⟨outer,needed,bare⟩,?_⟩
        by_cases nothing : neededColumnIndice left right arguments.neededColumnNames = []
        · rw [if_pos nothing] at rows
          exact Or.inr (same.symm.trans rows).eq_nil
        · exact Or.inl nothing
      · intro complete
        refine ⟨final,isFinal,?_⟩
        rcases complete.columns with columns | none
        · rwa [if_neg columns] at rows
        · rw [none,ite_self] at rows
          rwa [none]
    · constructor
      · intro ⟨final,isFinal,_⟩
        rw [failed] at isFinal
        cases isFinal
      · intro complete
        rcases bare with ⟨outer,needed,bare⟩ | ⟨outer,needed,bare⟩
        · exact absurd bare (complete.leftReadable outer empty.2 needed)
        · exact absurd bare (complete.rightReadable outer empty.1 needed)

end
def emptyBuildSide : List (ProbeMessage Nat 0 onlyColumn) :=
  [.build (indexed ⟨[]⟩),.probe ⟨[[fun _ => some 1]]⟩]

/-- A left join whose build side is empty reads the first chunk of a column without chunks. -/
theorem empty_build_side_undefined : NonNullKeys emptyBuildSide ∧
    HashJoinProbeKernel.run .inserted .chunked ⟨["a","b"],true,false⟩ emptyBuildSide = .error .undefined ∧
    reference onlyColumn ⟨["a","b"],true,false⟩ emptyBuildSide = [] ∧
    ¬∃ final, HashJoinProbeKernel.run .inserted .chunked ⟨["a","b"],true,false⟩ emptyBuildSide = .ok final ∧
      final.bufferedRows.Perm (reference onlyColumn ⟨["a","b"],true,false⟩ emptyBuildSide) := by
  have failed : HashJoinProbeKernel.run .inserted .chunked ⟨["a","b"],true,false⟩ emptyBuildSide =
      .error .undefined := rfl
  refine ⟨⟨by decide,by decide⟩,failed,rfl,?_⟩
  intro ⟨final,isFinal,_⟩
  rw [failed] at isFinal
  cases isFinal

/-- The second index comes after the probe rows, and its row matches one of them again. -/
def interleaved : List (ProbeMessage Nat 0 onlyColumn) :=
  [.build (indexed ⟨[[fun _ => some 1,fun _ => some 2]]⟩),.probe ⟨[[fun _ => some 2,fun _ => some 3]]⟩,
    .build (indexed ⟨[[fun _ => some 2]]⟩)]

theorem interleaved_full_join : ∃ final,
    HashJoinProbeKernel.run .inserted .chunked ⟨["a","b"],true,true⟩ interleaved = .ok final ∧
      final.bufferedRows.Perm
        [[some 2,some 2],[some 2,some 2],[some 1,none],[none,some 3]] := by
  have nonNull : NonNullKeys interleaved := ⟨by decide,by decide⟩
  have complete : Complete ⟨["a","b"],true,true⟩ interleaved := by
    refine ⟨fun _ silent => ?_,fun _ silent => ?_,fun _ _ _ bare => ?_,fun _ _ _ bare => ?_,Or.inl (by decide)⟩
    · simp [probeTables,interleaved] at silent
    · simp [buildTables,interleaved] at silent
    · simp [Chunkless,buildTables,interleaved,indexed] at bare
    · simp [Chunkless,probeTables,interleaved] at bare
  exact (hash_join_output_iff .inserted .chunked ⟨["a","b"],true,true⟩ interleaved nonNull).mpr complete

end Hermes.Join
