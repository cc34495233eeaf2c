import Hermes.NestedLoopJoinKernel

/-! What the nested-loop join has put out after any sequence of messages.
Joining two tables batch by batch gives their matching pairs; the kernel keeps an
invariant over its messages, and where `finalize` does not reach the helpers its
output is that of the inner join. -/
namespace Hermes.Join
open Hermes.Tuple Hermes.Library.ListJoin

variable {ν : Type} {left right : Schema}

section
variable {names : List String}

theorem nodup_sideColumns (schema : Schema) (names : List String) : (sideColumns schema names).Nodup :=
  (List.nodup_finRange schema.length).filter _

theorem nodup_neededColumnIndice (left right : Schema) (names : List String) :
    (neededColumnIndice left right names).Nodup := by
  apply List.Nodup.append
  · exact (nodup_sideColumns left names).map Sum.inl_injective
  · exact (nodup_sideColumns right names).map Sum.inr_injective
  · intro c inLeft inRight
    obtain ⟨l,_,rfl⟩ := List.mem_map.mp inLeft
    obtain ⟨r,_,same⟩ := List.mem_map.mp inRight
    cases same

theorem mem_neededColumnIndice (c : NeededColumn left right) :
    c ∈ neededColumnIndice left right names ↔ columnName c ∈ names := by
  cases c with
  | inl c => simp [neededColumnIndice,sideColumns,columnName]
  | inr c => simp [neededColumnIndice,sideColumns,columnName]

theorem getFieldIndex_outputFields {c : NeededColumn left right} (needed : columnName c ∈ names)
    (unambiguous : ∀ other, columnName other = columnName c → other = c) :
    ∃ i, getFieldIndex (outputFields left right names) (columnName c) = some i ∧
      (neededColumnIndice left right names)[i.val]? = some c := by
  obtain ⟨k,inside,place⟩ := List.getElem_of_mem ((mem_neededColumnIndice c).mpr needed)
  have bound : k < (outputFields left right names).length := by
    rw [outputFields,List.length_map]
    exact inside
  have only (j : Fin (outputFields left right names).length) :
      (outputFields left right names).get j = columnName c ↔ j = ⟨k,bound⟩ := by
    have within : j.val < (neededColumnIndice left right names).length :=
      j.isLt.trans_eq (List.length_map _)
    have name : (outputFields left right names).get j =
        columnName (neededColumnIndice left right names)[j.val] := List.getElem_map _
    rw [name]
    constructor
    · intro same
      have equal := unambiguous _ same
      rw [← place] at equal
      exact Fin.ext ((nodup_neededColumnIndice left right names).getElem_inj_iff.mp equal)
    · intro same
      subst same
      exact congrArg columnName place
  refine ⟨⟨k,bound⟩,?_,by rw [List.getElem?_eq_getElem inside,place]⟩
  have found : ((List.finRange (outputFields left right names).length).filter fun j =>
      (outputFields left right names).get j == columnName c) = [⟨k,bound⟩] := by
    have same : ((List.finRange (outputFields left right names).length).filter fun j =>
        (outputFields left right names).get j == columnName c) =
        (List.finRange (outputFields left right names).length).filter fun j => j == ⟨k,bound⟩ := by
      apply List.filter_congr
      intro j _
      rw [beq_eq_decide,beq_eq_decide]
      exact decide_eq_decide.mpr (only j)
    rw [same,List.filter_beq,List.count_eq_one_of_mem (List.nodup_finRange _) (List.mem_finRange _)]
    rfl
  rw [getFieldIndex,found]

end

namespace NestedLoopPredicate

theorem compile_spec (predicate : NestedLoopPredicate ν left right) {names : List String}
    (involved : ∀ name ∈ predicate.involvedColumnNames, name ∈ names) :
    ∃ columns, predicate.compile (outputFields left right names) = .ok columns ∧
      ∀ leftRow rightRow, predicate.selects columns
        (outputRow (neededColumnIndice left right names) leftRow rightRow) = predicate.holds leftRow rightRow := by
  have resolve (wanted : List (NeededColumn left right)) (inside : ∀ c ∈ wanted, c ∈ predicate.columns) :
      ∃ columns, fieldIndexes (outputFields left right names) (wanted.map columnName) = .ok columns ∧
        ∀ (leftRow : Record ν left) (rightRow : Record ν right), (columns.map fun c =>
          (outputRow (neededColumnIndice left right names) leftRow rightRow)[c.val]?.join) =
            wanted.map (Sum.elim leftRow rightRow) := by
    induction wanted with
    | nil => exact ⟨[],rfl,fun _ _ => rfl⟩
    | cons c wanted ih =>
      obtain ⟨columns,found,same⟩ := ih fun other member => inside other (List.mem_cons_of_mem c member)
      have here := inside c List.mem_cons_self
      obtain ⟨i,isIndex,place⟩ := getFieldIndex_outputFields
        (involved _ (List.mem_map_of_mem here)) (predicate.unambiguous c here)
      refine ⟨i::columns,?_,?_⟩
      · unfold fieldIndexes at found ⊢
        rw [List.map_cons,List.mapM_cons,isIndex,found]
        rfl
      · intro leftRow rightRow
        rw [List.map_cons,List.map_cons,same leftRow rightRow,outputRow,List.getElem?_map,place]
        rfl
  obtain ⟨columns,found,same⟩ := resolve predicate.columns fun _ => id
  refine ⟨columns,?_,?_⟩
  · rw [compile,involvedColumnNames,found]
  · intro leftRow rightRow
    rw [selects,same leftRow rightRow,holds]

end NestedLoopPredicate

def NestedLoopJoinArguments.matching (arguments : NestedLoopJoinArguments ν left right)
    (leftRow : Record ν left) (rightRow : Record ν right) : Bool :=
  arguments.predicate.elim true fun predicate => predicate.holds leftRow rightRow

/-- The matching pairs of two tables, as output rows. -/
def joinedPairs (arguments : NestedLoopJoinArguments ν left right) (leftRows : List (Record ν left))
    (rightRows : List (Record ν right)) : List (OutputRow ν) :=
  (pairs arguments.matching leftRows rightRows).map fun pair =>
    outputRow (neededColumnIndice left right arguments.neededColumnNames) pair.1 pair.2

section
variable {arguments : NestedLoopJoinArguments ν left right}

theorem joinedPairs_append_right (leftRows : List (Record ν left)) (rightRows more : List (Record ν right)) :
    joinedPairs arguments leftRows (rightRows ++ more) =
      joinedPairs arguments leftRows rightRows ++ joinedPairs arguments leftRows more := by
  rw [joinedPairs,pairs_append_probe,List.map_append,joinedPairs,joinedPairs]

theorem joinedPairs_append_left (leftRows more : List (Record ν left)) (rightRows : List (Record ν right)) :
    (joinedPairs arguments (leftRows ++ more) rightRows).Perm
      (joinedPairs arguments leftRows rightRows ++ joinedPairs arguments more rightRows) := by
  unfold joinedPairs
  rw [← List.map_append]
  exact (pairs_append_build arguments.matching leftRows more rightRows).map _

theorem joinedPairs_empty {leftRows : List (Record ν left)} {rightRows : List (Record ν right)}
    (empty : leftRows = [] ∨ rightRows = []) : joinedPairs arguments leftRows rightRows = [] := by
  rcases empty with rfl | rfl <;> simp [joinedPairs]

/-- The joiner has been made by the kernel for its arguments. -/
structure Made (arguments : NestedLoopJoinArguments ν left right)
    (joiner : RecordBatchNestedLoopJoiner ν left right) : Prop where
  predicate : joiner.predicate = arguments.predicate
  outputSchema : joiner.outputSchema = outputFields left right arguments.neededColumnNames
  needed : joiner.neededColumnIndice = neededColumnIndice left right arguments.neededColumnNames

/-- The joiner gets rows wherever it reads a first array or evaluates the predicate. -/
structure Fed (arguments : NestedLoopJoinArguments ν left right) (leftBatches : List (List (Record ν left)))
    (rightBatches : List (List (Record ν right))) : Prop where
  leftFilled : arguments.predicate ≠ none → ∀ batch ∈ leftBatches, batch ≠ []
  rightFilled : arguments.predicate ≠ none ∨ sideColumns left arguments.neededColumnNames ≠ [] →
    ∀ batch ∈ rightBatches, batch ≠ []

variable {joiner : RecordBatchNestedLoopJoiner ν left right}

theorem cartesian_eq (made : Made arguments joiner)
    (columns : neededColumnIndice left right arguments.neededColumnNames ≠ [])
    (leftRecordBatch : List (Record ν left)) {rightRecordBatch : List (Record ν right)}
    (some : sideColumns left arguments.neededColumnNames ≠ [] → rightRecordBatch ≠ []) :
    joiner.cartesian leftRecordBatch rightRecordBatch = .ok (rightRecordBatch.flatMap fun rightRow =>
      leftRecordBatch.map fun leftRow =>
        outputRow (neededColumnIndice left right arguments.neededColumnNames) leftRow rightRow) := by
  have readable : ((neededColumnIndice left right arguments.neededColumnNames).any Sum.isLeft &&
      rightRecordBatch.isEmpty) = false := by
    cases needed : sideColumns left arguments.neededColumnNames with
    | nil => simp [neededColumnIndice,needed]
    | cons c rest =>
      have filled := some (by rw [needed]; exact List.cons_ne_nil c rest)
      simp [filled]
  unfold RecordBatchNestedLoopJoiner.cartesian
  rw [made.needed,readable]
  simp [columns]

theorem filter_cartesian (arguments : NestedLoopJoinArguments ν left right) (selects : OutputRow ν → Bool)
    (same : ∀ leftRow rightRow, selects (outputRow (neededColumnIndice left right arguments.neededColumnNames)
      leftRow rightRow) = arguments.matching leftRow rightRow)
    (leftRows : List (Record ν left)) (rightRows : List (Record ν right)) :
    ((rightRows.flatMap fun rightRow => leftRows.map fun leftRow =>
      outputRow (neededColumnIndice left right arguments.neededColumnNames) leftRow rightRow).filter selects) =
      joinedPairs arguments leftRows rightRows := by
  rw [joinedPairs,pairs,List.map_flatMap,List.filter_flatMap]
  apply List.flatMap_congr
  intro rightRow _
  rw [List.filter_map,List.map_map]
  simp only [Function.comp_def,same]

theorem Made.eta (made : Made arguments joiner) : joiner =
    ⟨arguments.predicate,outputFields left right arguments.neededColumnNames,
      neededColumnIndice left right arguments.neededColumnNames,joiner.joinedArrayVectors,
      joiner.leftRowMatchIndexes,joiner.rightRowMatchIndexes⟩ := by
  rw [← made.predicate,← made.outputSchema,← made.needed]

theorem join_pairs (made : Made arguments joiner)
    (columns : neededColumnIndice left right arguments.neededColumnNames ≠ [])
    {leftRecordBatch : List (Record ν left)} {rightRecordBatch : List (Record ν right)}
    (fed : Fed arguments [leftRecordBatch] [rightRecordBatch]) (leftRowOffset rightRowOffset : Nat) :
    ∃ result, joiner.join leftRecordBatch rightRecordBatch leftRowOffset rightRowOffset = .ok result ∧
      Made arguments result ∧ result.joinedArrayVectors = joiner.joinedArrayVectors ++
        [joinedPairs arguments leftRecordBatch rightRecordBatch] := by
  have multiplied := cartesian_eq made columns leftRecordBatch fun needed =>
    fed.rightFilled (Or.inr needed) rightRecordBatch List.mem_cons_self
  unfold RecordBatchNestedLoopJoiner.join
  rw [multiplied,made.eta]
  cases isPredicate : arguments.predicate with
  | none =>
    refine ⟨_,rfl,⟨isPredicate.symm,rfl,rfl⟩,?_⟩
    have all := filter_cartesian arguments (fun _ => true)
      (by simp [NestedLoopJoinArguments.matching,isPredicate]) leftRecordBatch rightRecordBatch
    dsimp only
    rw [← all,List.filter_true]
  | some predicate =>
    have chosen : arguments.predicate ≠ none := by simp [isPredicate]
    obtain ⟨found,compiled,reads⟩ := predicate.compile_spec (arguments.involved predicate isPredicate)
    have filled : (rightRecordBatch.flatMap fun rightRow => leftRecordBatch.map fun leftRow =>
        outputRow (neededColumnIndice left right arguments.neededColumnNames) leftRow rightRow) ≠ [] := by
      have lefts := fed.leftFilled chosen leftRecordBatch List.mem_cons_self
      obtain ⟨rightRow,inRight⟩ := List.exists_mem_of_ne_nil _
        (fed.rightFilled (Or.inl chosen) rightRecordBatch List.mem_cons_self)
      simp only [ne_eq,List.flatMap_eq_nil_iff,List.map_eq_nil_iff]
      intro none
      exact lefts (none rightRow inRight)
    have selected := filter_cartesian arguments (predicate.selects found)
      (by simp [NestedLoopJoinArguments.matching,isPredicate,reads]) leftRecordBatch rightRecordBatch
    simp only [bind,Except.bind,RecordBatchNestedLoopJoiner.filter,compiled,
      NestedLoopPredicate.computeSelectionVector,List.isEmpty_iff,filled,if_false]
    refine ⟨_,rfl,⟨isPredicate.symm,rfl,rfl⟩,?_⟩
    rw [filterMap_positions]
    simp only [Bool.decide_eq_true,selected]

theorem Fed.mono {leftBatches fewerLeft : List (List (Record ν left))}
    {rightBatches fewerRight : List (List (Record ν right))} (fed : Fed arguments leftBatches rightBatches)
    (lefts : fewerLeft ⊆ leftBatches) (rights : fewerRight ⊆ rightBatches) :
    Fed arguments fewerLeft fewerRight where
  leftFilled chosen batch inside := fed.leftFilled chosen batch (lefts inside)
  rightFilled needed batch inside := fed.rightFilled needed batch (rights inside)

theorem joinRightBatches_pairs (made : Made arguments joiner)
    (columns : neededColumnIndice left right arguments.neededColumnNames ≠ [])
    {leftRecordBatch : List (Record ν left)} {rightBatches : List (List (Record ν right))}
    (fed : Fed arguments [leftRecordBatch] rightBatches) (leftRowOffset rightRowOffset : Nat) :
    ∃ result offset, joiner.joinRightBatches leftRecordBatch leftRowOffset rightRowOffset rightBatches =
        .ok (result,offset) ∧ Made arguments result ∧
      result.joinedArrayVectors.flatten = joiner.joinedArrayVectors.flatten ++
        joinedPairs arguments leftRecordBatch rightBatches.flatten := by
  induction rightBatches generalizing joiner rightRowOffset with
  | nil =>
    refine ⟨joiner,rightRowOffset,rfl,made,?_⟩
    rw [List.flatten_nil,joinedPairs_empty (Or.inr rfl),List.append_nil]
  | cons rightRecordBatch rest ih =>
    have first : [rightRecordBatch] ⊆ rightRecordBatch::rest := by simp
    obtain ⟨middle,joined,isMade,vectors⟩ := join_pairs made columns
      (fed.mono (List.Subset.refl _) first) leftRowOffset rightRowOffset
    obtain ⟨result,offset,later,made',rows⟩ := ih isMade
      (fed.mono (List.Subset.refl _) (List.subset_cons_self _ _)) (rightRowOffset+rightRecordBatch.length)
    refine ⟨result,offset,?_,made',?_⟩
    · rw [RecordBatchNestedLoopJoiner.joinRightBatches,joined]
      exact later
    · rw [rows,vectors,List.flatten_append,List.flatten_singleton,List.append_assoc,List.flatten_cons,
        joinedPairs_append_right]

theorem joinBatches_pairs (made : Made arguments joiner)
    (columns : neededColumnIndice left right arguments.neededColumnNames ≠ [])
    {leftBatches : List (List (Record ν left))} {rightBatches : List (List (Record ν right))}
    (fed : Fed arguments leftBatches rightBatches) (leftRowOffset rightRowOffset : Nat) :
    ∃ result, joiner.joinBatches rightBatches leftRowOffset rightRowOffset leftBatches = .ok result ∧
      result.joinedArrayVectors.flatten.Perm (joiner.joinedArrayVectors.flatten ++
        joinedPairs arguments leftBatches.flatten rightBatches.flatten) := by
  induction leftBatches generalizing joiner leftRowOffset rightRowOffset with
  | nil =>
    refine ⟨joiner,rfl,?_⟩
    rw [List.flatten_nil,joinedPairs_empty (Or.inl rfl),List.append_nil]
  | cons leftRecordBatch rest ih =>
    have first : [leftRecordBatch] ⊆ leftRecordBatch::rest := by simp
    obtain ⟨middle,offset,joined,isMade,vectors⟩ := joinRightBatches_pairs made columns
      (fed.mono first (List.Subset.refl _)) leftRowOffset rightRowOffset
    obtain ⟨result,later,rows⟩ := ih isMade
      (fed.mono (List.subset_cons_self _ _) (List.Subset.refl _)) (leftRowOffset+leftRecordBatch.length) offset
    refine ⟨result,?_,?_⟩
    · rw [RecordBatchNestedLoopJoiner.joinBatches,joined]
      exact later
    · rw [vectors,List.append_assoc] at rows
      exact rows.trans ((joinedPairs_append_left leftRecordBatch rest.flatten _).symm.append_left _)

end

section
variable {arguments : NestedLoopJoinArguments ν left right}

/-- The helper of a side is there exactly if the side is an outer one. -/
def Helps (outer isLeft : Bool) (needed : List (NeededColumn left right)) :
    Option (OuterJoinHelper left right) → Prop
  | none => outer = false
  | some helper => outer = true ∧ helper.isLeft = isLeft ∧ helper.neededColumnIndice = needed

/-- What the kernel has put out once both sides have sent something. -/
structure Multiplied (arguments : NestedLoopJoinArguments ν left right) (leftRows : List (Record ν left))
    (rightRows : List (Record ν right)) (kernel : NestedLoopJoinKernel ν left right) : Prop where
  schema : kernel.outputSchema = some (outputFields left right arguments.neededColumnNames)
  needed : kernel.neededColumnIndice = neededColumnIndice left right arguments.neededColumnNames
  created : kernel.isOuterJoinHelperCreated = true
  leftHelper : Helps arguments.isLeft true
    (neededColumnIndice left right arguments.neededColumnNames) kernel.leftJoinHelper
  rightHelper : Helps arguments.isRight false
    (neededColumnIndice left right arguments.neededColumnNames) kernel.rightJoinHelper
  rows : kernel.bufferedRows.Perm (joinedPairs arguments leftRows rightRows)

@[simp] theorem NestedLoopJoinKernel.bufferedRows_bufferOutput (kernel : NestedLoopJoinKernel ν left right)
    (tupleSet : TupleSet (OutputRow ν)) :
    (kernel.bufferOutput tupleSet).bufferedRows = kernel.bufferedRows ++ tupleSet.rows := by
  unfold bufferOutput bufferedRows
  cases kernel.buffer <;> simp

theorem NestedLoopJoinKernel.bufferOutput_eq (kernel : NestedLoopJoinKernel ν left right)
    (tupleSet : TupleSet (OutputRow ν)) :
    kernel.bufferOutput tupleSet = {kernel with buffer := (kernel.bufferOutput tupleSet).buffer} := by
  unfold bufferOutput
  split <;> rfl

/-- A kernel that has not joined anything yet. -/
def Idle (kernel : NestedLoopJoinKernel ν left right) : Prop :=
  kernel = {NestedLoopJoinKernel.make with
    leftTupleSet := kernel.leftTupleSet
    rightTupleSet := kernel.rightTupleSet}

variable {kernel : NestedLoopJoinKernel ν left right} {leftRows : List (Record ν left)}
variable {rightRows : List (Record ν right)}

theorem Helps.put {outer isLeft : Bool} {needed : List (NeededColumn left right)}
    {helper : Option (OuterJoinHelper left right)} (helps : Helps outer isLeft needed helper)
    (newRowMatchIndexes : Finset Nat) :
    Helps outer isLeft needed (helper.map (·.putRowMatchIndexes newRowMatchIndexes)) := by
  cases helper with
  | none => exact helps
  | some helper =>
    refine ⟨helps.1,?_,?_⟩
    · rw [OuterJoinHelper.isLeft_putRowMatchIndexes,helps.2.1]
    · rw [OuterJoinHelper.neededColumnIndice_putRowMatchIndexes,helps.2.2]

theorem Helps.make (outer isLeft : Bool) (outputSchema : Schema) (needed : List (NeededColumn left right)) :
    Helps outer isLeft needed (if outer then some (OuterJoinHelper.make isLeft outputSchema needed) else none) := by
  cases outer with
  | false => rfl
  | true => exact ⟨rfl,rfl,rfl⟩

theorem prepare_idle (idle : Idle kernel) (none : joinedPairs arguments leftRows rightRows = []) :
    ∃ prepared, NestedLoopJoinKernel.makeOuterJoinHelpers arguments (kernel.bufferOutputSchema arguments) =
        .ok prepared ∧ Multiplied arguments leftRows rightRows prepared ∧
      prepared.leftTupleSet = kernel.leftTupleSet ∧ prepared.rightTupleSet = kernel.rightTupleSet := by
  rw [idle]
  refine ⟨_,rfl,⟨rfl,rfl,rfl,?_,?_,?_⟩,rfl,rfl⟩
  · simpa [NestedLoopJoinKernel.bufferOutputSchema,NestedLoopJoinKernel.make] using
      Helps.make arguments.isLeft true _ (neededColumnIndice left right arguments.neededColumnNames)
  · simpa [NestedLoopJoinKernel.bufferOutputSchema,NestedLoopJoinKernel.make] using
      Helps.make arguments.isRight false _ (neededColumnIndice left right arguments.neededColumnNames)
  · exact .of_eq none.symm

theorem prepare_multiplied (multiplied : Multiplied arguments leftRows rightRows kernel) :
    NestedLoopJoinKernel.makeOuterJoinHelpers arguments (kernel.bufferOutputSchema arguments) = .ok kernel := by
  rw [NestedLoopJoinKernel.bufferOutputSchema,multiplied.schema]
  dsimp only
  rw [NestedLoopJoinKernel.makeOuterJoinHelpers,if_pos multiplied.created]

theorem join_multiplied (reader : TableBatchReader) (multiplied : Multiplied arguments leftRows rightRows kernel)
    (columns : neededColumnIndice left right arguments.neededColumnNames ≠ [])
    {leftTupleSet : TupleSet (Record ν left)} {rightTupleSet : TupleSet (Record ν right)}
    (fed : Fed arguments (reader.batches leftTupleSet) (reader.batches rightTupleSet))
    {allLeft : List (Record ν left)} {allRight : List (Record ν right)}
    (whole : (joinedPairs arguments leftRows rightRows ++
      joinedPairs arguments leftTupleSet.rows rightTupleSet.rows).Perm (joinedPairs arguments allLeft allRight)) :
    ∃ after, kernel.join reader arguments leftTupleSet rightTupleSet = .ok after ∧
      Multiplied arguments allLeft allRight after ∧
      after.leftTupleSet = kernel.leftTupleSet ∧ after.rightTupleSet = kernel.rightTupleSet := by
  have made : Made arguments (RecordBatchNestedLoopJoiner.make arguments.predicate
      (outputFields left right arguments.neededColumnNames) kernel.neededColumnIndice) :=
    ⟨rfl,rfl,multiplied.needed⟩
  obtain ⟨joiner,joined,rows⟩ := joinBatches_pairs made columns fed
    (kernel.leftTupleSet.elim 0 TupleSet.numRows) (kernel.rightTupleSet.elim 0 TupleSet.numRows)
  rw [reader.flatten_batches,reader.flatten_batches] at rows
  unfold NestedLoopJoinKernel.join
  rw [multiplied.schema]
  simp only [bind,Except.bind,joined]
  refine ⟨_,rfl,⟨?_,?_,?_,?_,?_,?_⟩,?_,?_⟩
  · rw [NestedLoopJoinKernel.bufferOutput_eq]
  · rw [NestedLoopJoinKernel.bufferOutput_eq]
    exact multiplied.needed
  · rw [NestedLoopJoinKernel.bufferOutput_eq]
    exact multiplied.created
  · rw [NestedLoopJoinKernel.bufferOutput_eq]
    exact multiplied.leftHelper.put _
  · rw [NestedLoopJoinKernel.bufferOutput_eq]
    exact multiplied.rightHelper.put _
  · rw [NestedLoopJoinKernel.bufferedRows_bufferOutput]
    exact (multiplied.rows.append rows).trans whole
  · rw [NestedLoopJoinKernel.bufferOutput_eq]
  · rw [NestedLoopJoinKernel.bufferOutput_eq]

end

section
variable {arguments : NestedLoopJoinArguments ν left right} {messages : List (JoinMessage ν left right)}

def leftTables (messages : List (JoinMessage ν left right)) : List (TupleSet (Record ν left)) :=
  messages.filterMap fun
    | .left incomingLeft => some incomingLeft
    | .right _ => none

def rightTables (messages : List (JoinMessage ν left right)) : List (TupleSet (Record ν right)) :=
  messages.filterMap fun
    | .left _ => none
    | .right incomingRight => some incomingRight

def leftRows (messages : List (JoinMessage ν left right)) : List (Record ν left) :=
  rowsOf (leftTables messages)

def rightRows (messages : List (JoinMessage ν left right)) : List (Record ν right) :=
  rowsOf (rightTables messages)

@[simp] theorem leftTables_left (messages : List (JoinMessage ν left right)) (table : TupleSet (Record ν left)) :
    leftTables (messages ++ [.left table]) = leftTables messages ++ [table] := by
  simp [leftTables]

@[simp] theorem leftTables_right (messages : List (JoinMessage ν left right)) (table : TupleSet (Record ν right)) :
    leftTables (messages ++ [.right table]) = leftTables messages := by
  simp [leftTables]

@[simp] theorem rightTables_left (messages : List (JoinMessage ν left right)) (table : TupleSet (Record ν left)) :
    rightTables (messages ++ [.left table]) = rightTables messages := by
  simp [rightTables]

@[simp] theorem rightTables_right (messages : List (JoinMessage ν left right))
    (table : TupleSet (Record ν right)) :
    rightTables (messages ++ [.right table]) = rightTables messages ++ [table] := by
  simp [rightTables]

@[simp] theorem leftRows_left (messages : List (JoinMessage ν left right)) (table : TupleSet (Record ν left)) :
    leftRows (messages ++ [.left table]) = leftRows messages ++ table.rows := by
  simp [leftRows,rowsOf]

@[simp] theorem leftRows_right (messages : List (JoinMessage ν left right)) (table : TupleSet (Record ν right)) :
    leftRows (messages ++ [.right table]) = leftRows messages := by
  simp [leftRows]

@[simp] theorem rightRows_left (messages : List (JoinMessage ν left right)) (table : TupleSet (Record ν left)) :
    rightRows (messages ++ [.left table]) = rightRows messages := by
  simp [rightRows]

@[simp] theorem rightRows_right (messages : List (JoinMessage ν left right))
    (table : TupleSet (Record ν right)) :
    rightRows (messages ++ [.right table]) = rightRows messages ++ table.rows := by
  simp [rightRows,rowsOf]

def Filled {ρ : Type} (tables : List (TupleSet ρ)) : Prop :=
  ∀ table ∈ keptTable tables, ∀ chunk ∈ table.chunks, chunk ≠ []

theorem Filled.of_append {ρ : Type} {tables : List (TupleSet ρ)} {incoming : TupleSet ρ}
    (filled : Filled (tables ++ [incoming])) :
    Filled tables ∧ (incoming.rows ≠ [] → ∀ chunk ∈ incoming.chunks, chunk ≠ []) := by
  unfold Filled at filled
  simp only [keptTable_append,Option.mem_def,Option.some.injEq,forall_eq'] at filled
  unfold Filled
  cases kept : keptTable tables with
  | none =>
    rw [kept] at filled
    exact ⟨by simp,fun _ => filled⟩
  | some table =>
    rw [kept,keepTable] at filled
    split at filled
    next rows =>
      have both : ∀ chunk ∈ table.chunks ++ incoming.chunks, chunk ≠ [] := by
        simpa [TupleSet.append,TupleSet.concatenate] using filled
      refine ⟨?_,fun _ chunk inside => both chunk (List.mem_append_right _ inside)⟩
      intro other same chunk inside
      rw [← Option.some.inj same] at inside
      exact both chunk (List.mem_append_left _ inside)
    next empty =>
      refine ⟨?_,fun rows => absurd (List.length_pos_iff.mpr rows) empty⟩
      intro other same
      rw [← Option.some.inj same]
      exact filled

/-- Arrow cuts a table whose chunks have rows into record batches that have rows. -/
def CutsFilled (reader : TableBatchReader) : Prop :=
  ∀ {ρ : Type} (table : TupleSet ρ), (∀ chunk ∈ table.chunks, chunk ≠ []) → ∀ batch ∈ reader.batches table,
    batch ≠ []

structure Joinable (arguments : NestedLoopJoinArguments ν left right)
    (messages : List (JoinMessage ν left right)) : Prop where
  columns : leftRows messages ≠ [] → rightRows messages ≠ [] →
    neededColumnIndice left right arguments.neededColumnNames ≠ []
  leftFilled : leftRows messages ≠ [] → rightRows messages ≠ [] → arguments.predicate ≠ none →
    Filled (leftTables messages)
  rightFilled : leftRows messages ≠ [] → rightRows messages ≠ [] →
    arguments.predicate ≠ none ∨ sideColumns left arguments.neededColumnNames ≠ [] →
      Filled (rightTables messages)

theorem Joinable.of_left {table : TupleSet (Record ν left)}
    (joinable : Joinable arguments (messages ++ [.left table])) : Joinable arguments messages := by
  have more (rows : leftRows messages ≠ []) : leftRows (messages ++ [.left table]) ≠ [] := by
    simp [rows]
  have same := rightRows_left messages table
  have tables := joinable.leftFilled
  have others := joinable.rightFilled
  rw [same,leftTables_left] at tables
  rw [same,rightTables_left] at others
  refine ⟨?_,?_,?_⟩
  · intro lefts rights
    exact joinable.columns (more lefts) (same ▸ rights)
  · intro lefts rights chosen
    exact (tables (more lefts) rights chosen).of_append.1
  · intro lefts rights needed
    exact others (more lefts) rights needed

theorem Joinable.of_right {table : TupleSet (Record ν right)}
    (joinable : Joinable arguments (messages ++ [.right table])) : Joinable arguments messages := by
  have more (rows : rightRows messages ≠ []) : rightRows (messages ++ [.right table]) ≠ [] := by
    simp [rows]
  have same := leftRows_right messages table
  have tables := joinable.leftFilled
  have others := joinable.rightFilled
  rw [same,leftTables_right] at tables
  rw [same,rightTables_right] at others
  refine ⟨?_,?_,?_⟩
  · intro lefts rights
    exact joinable.columns (same ▸ lefts) (more rights)
  · intro lefts rights chosen
    exact tables lefts (more rights) chosen
  · intro lefts rights needed
    exact (others lefts (more rights) needed).of_append.1

structure NestedReflects (arguments : NestedLoopJoinArguments ν left right)
    (messages : List (JoinMessage ν left right)) (kernel : NestedLoopJoinKernel ν left right) : Prop where
  leftTable : kernel.leftTupleSet = keptTable (leftTables messages)
  rightTable : kernel.rightTupleSet = keptTable (rightTables messages)
  idle : leftTables messages = [] ∨ rightTables messages = [] → Idle kernel
  multiplied : leftTables messages ≠ [] → rightTables messages ≠ [] →
    Multiplied arguments (leftRows messages) (rightRows messages) kernel

variable {kernel : NestedLoopJoinKernel ν left right}

theorem NestedReflects.rows_left (reflects : NestedReflects arguments messages kernel) :
    kernel.leftTupleSet.elim [] TupleSet.rows = leftRows messages := by
  rw [reflects.leftTable,rows_keptTable,leftRows]

theorem NestedReflects.rows_right (reflects : NestedReflects arguments messages kernel) :
    kernel.rightTupleSet.elim [] TupleSet.rows = rightRows messages := by
  rw [reflects.rightTable,rows_keptTable,rightRows]

theorem no_pairs (empty : leftTables messages = [] ∨ rightTables messages = []) :
    joinedPairs arguments (leftRows messages) (rightRows messages) = [] := by
  apply joinedPairs_empty
  apply empty.imp
  · intro bare
    rw [leftRows,bare]
    rfl
  · intro bare
    rw [rightRows,bare]
    rfl

theorem NestedReflects.prepare (reflects : NestedReflects arguments messages kernel)
    (leftTupleSet : Option (TupleSet (Record ν left))) (rightTupleSet : Option (TupleSet (Record ν right))) :
    ∃ prepared, NestedLoopJoinKernel.makeOuterJoinHelpers arguments
        (NestedLoopJoinKernel.bufferOutputSchema arguments
          {kernel with leftTupleSet := leftTupleSet, rightTupleSet := rightTupleSet}) = .ok prepared ∧
      Multiplied arguments (leftRows messages) (rightRows messages) prepared ∧
      prepared.leftTupleSet = leftTupleSet ∧ prepared.rightTupleSet = rightTupleSet := by
  by_cases empty : leftTables messages = [] ∨ rightTables messages = []
  · have idle : Idle {kernel with leftTupleSet := leftTupleSet, rightTupleSet := rightTupleSet} := by
      have before := reflects.idle empty
      unfold Idle at before ⊢
      rw [before]
    exact prepare_idle idle (no_pairs empty)
  · rw [not_or] at empty
    have before := reflects.multiplied empty.1 empty.2
    have multiplied : Multiplied arguments (leftRows messages) (rightRows messages)
        {kernel with leftTupleSet := leftTupleSet, rightTupleSet := rightTupleSet} :=
      ⟨before.schema,before.needed,before.created,before.leftHelper,before.rightHelper,before.rows⟩
    exact ⟨_,prepare_multiplied multiplied,multiplied,rfl,rfl⟩

theorem Multiplied.congr {lefts allLeft : List (Record ν left)} {rights allRight : List (Record ν right)}
    (multiplied : Multiplied arguments lefts rights kernel)
    (same : (joinedPairs arguments lefts rights).Perm (joinedPairs arguments allLeft allRight)) :
    Multiplied arguments allLeft allRight kernel :=
  ⟨multiplied.schema,multiplied.needed,multiplied.created,multiplied.leftHelper,multiplied.rightHelper,
    multiplied.rows.trans same⟩

theorem receive_left (reader : TableBatchReader) (cuts : CutsFilled reader)
    (reflects : NestedReflects arguments messages kernel) {table : TupleSet (Record ν left)}
    (joinable : Joinable arguments (messages ++ [.left table])) :
    ∃ after, kernel.joinIncomingLeft reader arguments table = .ok after ∧
      NestedReflects arguments (messages ++ [.left table]) after := by
  have more : (joinedPairs arguments (leftRows messages) (rightRows messages) ++
      joinedPairs arguments table.rows (rightRows messages)).Perm (joinedPairs arguments
        (leftRows (messages ++ [.left table])) (rightRows (messages ++ [.left table]))) := by
    rw [leftRows_left,rightRows_left]
    exact (joinedPairs_append_left _ _ _).symm
  have kept : NestedLoopJoinKernel.bufferInput kernel.leftTupleSet table =
      keptTable (leftTables (messages ++ [.left table])) := by
    rw [leftTables_left,keptTable_append,reflects.leftTable]
    rfl
  unfold NestedLoopJoinKernel.joinIncomingLeft
  dsimp only
  cases received : kernel.rightTupleSet with
  | none =>
    have nothing : rightTables messages = [] := (keptTable_eq_none _).mp (reflects.rightTable.symm.trans received)
    refine ⟨_,rfl,kept,?_,?_,?_⟩
    · rw [rightTables_left,nothing]
      rfl
    · intro _
      have idle := reflects.idle (Or.inr nothing)
      unfold Idle at idle ⊢
      rw [idle,received]
    · intro _ some
      rw [rightTables_left] at some
      exact absurd nothing some
  | some rightTupleSet =>
    have others : rightTupleSet.rows = rightRows messages := by
      rw [← reflects.rows_right,received]
      rfl
    obtain ⟨prepared,isPrepared,multiplied,leftSame,rightSame⟩ := reflects.prepare
      (NestedLoopJoinKernel.bufferInput kernel.leftTupleSet table) (some rightTupleSet)
    have next {after : NestedLoopJoinKernel ν left right}
        (put : Multiplied arguments (leftRows (messages ++ [.left table]))
          (rightRows (messages ++ [.left table])) after)
        (leftPut : after.leftTupleSet = prepared.leftTupleSet)
        (rightPut : after.rightTupleSet = prepared.rightTupleSet) :
        NestedReflects arguments (messages ++ [.left table]) after := by
      refine ⟨leftPut.trans (leftSame.trans kept),?_,?_,fun _ _ => put⟩
      · rw [rightPut,rightSame,rightTables_left,← reflects.rightTable,received]
      · intro empty
        rw [← keptTable_eq_none,← keptTable_eq_none,← kept,rightTables_left,← reflects.rightTable,received] at empty
        rcases empty with none | none <;> cases none
    simp only [bind,Except.bind,isPrepared]
    split
    next empty =>
      refine ⟨prepared,rfl,next (multiplied.congr ?_) rfl rfl⟩
      have none : table.rows = [] ∨ rightRows messages = [] := by
        rw [← others]
        exact empty.symm.imp List.length_eq_zero_iff.mp List.length_eq_zero_iff.mp
      rw [joinedPairs_empty none,List.append_nil] at more
      exact more
    next filled =>
      rw [not_or] at filled
      have rights : rightRows (messages ++ [.left table]) ≠ [] := by
        rw [rightRows_left,← others]
        exact mt List.length_eq_zero_iff.mpr filled.1
      have incoming : table.rows ≠ [] := mt List.length_eq_zero_iff.mpr filled.2
      have lefts : leftRows (messages ++ [.left table]) ≠ [] := by
        simp [incoming]
      have fed : Fed arguments (reader.batches table) (reader.batches rightTupleSet) := by
        refine ⟨?_,?_⟩
        · intro chosen
          have whole := joinable.leftFilled lefts rights chosen
          rw [leftTables_left] at whole
          exact cuts table (whole.of_append.2 incoming)
        · intro needed
          have whole := joinable.rightFilled lefts rights needed
          rw [rightTables_left] at whole
          exact cuts rightTupleSet (whole rightTupleSet (reflects.rightTable.symm.trans received))
      rw [← others] at more
      obtain ⟨after,joined,put,leftPut,rightPut⟩ :=
        join_multiplied reader (others ▸ multiplied) (joinable.columns lefts rights) fed more
      exact ⟨after,joined,next put leftPut rightPut⟩

theorem receive_right (reader : TableBatchReader) (cuts : CutsFilled reader)
    (reflects : NestedReflects arguments messages kernel) {table : TupleSet (Record ν right)}
    (joinable : Joinable arguments (messages ++ [.right table])) :
    ∃ after, kernel.joinIncomingRight reader arguments table = .ok after ∧
      NestedReflects arguments (messages ++ [.right table]) after := by
  have more : (joinedPairs arguments (leftRows messages) (rightRows messages) ++
      joinedPairs arguments (leftRows messages) table.rows).Perm (joinedPairs arguments
        (leftRows (messages ++ [.right table])) (rightRows (messages ++ [.right table]))) := by
    rw [leftRows_right,rightRows_right,joinedPairs_append_right]
  have kept : NestedLoopJoinKernel.bufferInput kernel.rightTupleSet table =
      keptTable (rightTables (messages ++ [.right table])) := by
    rw [rightTables_right,keptTable_append,reflects.rightTable]
    rfl
  unfold NestedLoopJoinKernel.joinIncomingRight
  dsimp only
  cases received : kernel.leftTupleSet with
  | none =>
    have nothing : leftTables messages = [] := (keptTable_eq_none _).mp (reflects.leftTable.symm.trans received)
    refine ⟨_,rfl,?_,kept,?_,?_⟩
    · rw [leftTables_right,nothing]
      rfl
    · intro _
      have idle := reflects.idle (Or.inl nothing)
      unfold Idle at idle ⊢
      rw [idle,received]
    · intro some
      rw [leftTables_right] at some
      exact absurd nothing some
  | some leftTupleSet =>
    have others : leftTupleSet.rows = leftRows messages := by
      rw [← reflects.rows_left,received]
      rfl
    obtain ⟨prepared,isPrepared,multiplied,leftSame,rightSame⟩ := reflects.prepare
      (some leftTupleSet) (NestedLoopJoinKernel.bufferInput kernel.rightTupleSet table)
    have next {after : NestedLoopJoinKernel ν left right}
        (put : Multiplied arguments (leftRows (messages ++ [.right table]))
          (rightRows (messages ++ [.right table])) after)
        (leftPut : after.leftTupleSet = prepared.leftTupleSet)
        (rightPut : after.rightTupleSet = prepared.rightTupleSet) :
        NestedReflects arguments (messages ++ [.right table]) after := by
      refine ⟨?_,rightPut.trans (rightSame.trans kept),?_,fun _ _ => put⟩
      · rw [leftPut,leftSame,leftTables_right,← reflects.leftTable,received]
      · intro empty
        rw [← keptTable_eq_none,← keptTable_eq_none,← kept,leftTables_right,← reflects.leftTable,received] at empty
        rcases empty with none | none <;> cases none
    simp only [bind,Except.bind,isPrepared]
    split
    next empty =>
      refine ⟨prepared,rfl,next (multiplied.congr ?_) rfl rfl⟩
      have none : leftRows messages = [] ∨ table.rows = [] := by
        rw [← others]
        exact empty.imp List.length_eq_zero_iff.mp List.length_eq_zero_iff.mp
      rw [joinedPairs_empty none,List.append_nil] at more
      exact more
    next filled =>
      rw [not_or] at filled
      have lefts : leftRows (messages ++ [.right table]) ≠ [] := by
        rw [leftRows_right,← others]
        exact mt List.length_eq_zero_iff.mpr filled.1
      have incoming : table.rows ≠ [] := mt List.length_eq_zero_iff.mpr filled.2
      have rights : rightRows (messages ++ [.right table]) ≠ [] := by
        simp [incoming]
      have fed : Fed arguments (reader.batches leftTupleSet) (reader.batches table) := by
        refine ⟨?_,?_⟩
        · intro chosen
          have whole := joinable.leftFilled lefts rights chosen
          rw [leftTables_right] at whole
          exact cuts leftTupleSet (whole leftTupleSet (reflects.leftTable.symm.trans received))
        · intro needed
          have whole := joinable.rightFilled lefts rights needed
          rw [rightTables_right] at whole
          exact cuts table (whole.of_append.2 incoming)
      rw [← others] at more
      obtain ⟨after,joined,put,leftPut,rightPut⟩ :=
        join_multiplied reader (others ▸ multiplied) (joinable.columns lefts rights) fed more
      exact ⟨after,joined,next put leftPut rightPut⟩

theorem receiveAll (reader : TableBatchReader) (cuts : CutsFilled reader)
    (arguments : NestedLoopJoinArguments ν left right) (messages : List (JoinMessage ν left right))
    (joinable : Joinable arguments messages) :
    ∃ kernel, messages.foldlM (NestedLoopJoinKernel.receive reader arguments) NestedLoopJoinKernel.make =
        .ok kernel ∧ NestedReflects arguments messages kernel := by
  induction messages using List.reverseRecOn with
  | nil => exact ⟨NestedLoopJoinKernel.make,rfl,rfl,rfl,fun _ => rfl,fun some => absurd rfl some⟩
  | append_singleton messages message ih =>
    cases message with
    | left table =>
      obtain ⟨kernel,received,reflects⟩ := ih joinable.of_left
      obtain ⟨after,isAfter,next⟩ := receive_left reader cuts reflects joinable
      refine ⟨after,?_,next⟩
      rw [List.foldlM_append,received]
      simp only [List.foldlM_cons,List.foldlM_nil,NestedLoopJoinKernel.receive,bind,Except.bind,isAfter]
      rfl
    | right table =>
      obtain ⟨kernel,received,reflects⟩ := ih joinable.of_right
      obtain ⟨after,isAfter,next⟩ := receive_right reader cuts reflects joinable
      refine ⟨after,?_,next⟩
      rw [List.foldlM_append,received]
      simp only [List.foldlM_cons,List.foldlM_nil,NestedLoopJoinKernel.receive,bind,Except.bind,isAfter]
      rfl

/-- The join by definition of the two relations that the messages carry. -/
def nestedLoopReference (arguments : NestedLoopJoinArguments ν left right)
    (messages : List (JoinMessage ν left right)) : List (OutputRow ν) :=
  referenceJoin (neededColumnIndice left right arguments.neededColumnNames) arguments.matching
    arguments.isLeft arguments.isRight (leftRows messages) (rightRows messages)

def OutputsReference (reader : TableBatchReader) (arguments : NestedLoopJoinArguments ν left right)
    (messages : List (JoinMessage ν left right)) : Prop :=
  ∃ final, NestedLoopJoinKernel.run reader arguments messages = .ok final ∧
    final.bufferedRows.Perm (nestedLoopReference arguments messages)

/-- An outer join with a predicate whose helpers have been made: each is given the
table of the other side. -/
def Swapped (arguments : NestedLoopJoinArguments ν left right) (messages : List (JoinMessage ν left right)) : Prop :=
  arguments.predicate ≠ none ∧ (arguments.isLeft = true ∨ arguments.isRight = true) ∧
    leftTables messages ≠ [] ∧ rightTables messages ≠ []

structure Partnered (arguments : NestedLoopJoinArguments ν left right)
    (messages : List (JoinMessage ν left right)) : Prop where
  lefts : arguments.isLeft = true → ∀ row ∈ leftRows messages,
    leftMatched arguments.matching (rightRows messages) row
  rights : arguments.isRight = true → ∀ row ∈ rightRows messages,
    rightMatched arguments.matching (leftRows messages) row

/-- What the join by definition pads. -/
def outerRows (arguments : NestedLoopJoinArguments ν left right) (messages : List (JoinMessage ν left right)) :
    List (OutputRow ν) :=
  (if arguments.isLeft then ((leftRows messages).filter fun row =>
      ¬leftMatched arguments.matching (rightRows messages) row).map fun row =>
    outputRow (neededColumnIndice left right arguments.neededColumnNames) row (nullRow right) else []) ++
  (if arguments.isRight then ((rightRows messages).filter fun row =>
      ¬rightMatched arguments.matching (leftRows messages) row).map
    (outputRow (neededColumnIndice left right arguments.neededColumnNames) (nullRow left)) else [])

theorem outerRows_eq_nil : outerRows arguments messages = [] ↔ Partnered arguments messages := by
  have lefts := @List.filter_eq_nil_iff _
    (fun row => decide ¬leftMatched arguments.matching (rightRows messages) row) (leftRows messages)
  have rights := @List.filter_eq_nil_iff _
    (fun row => decide ¬rightMatched arguments.matching (leftRows messages) row) (rightRows messages)
  simp only [decide_eq_true_eq,not_not] at lefts rights
  unfold outerRows
  rw [List.append_eq_nil_iff]
  constructor
  · intro ⟨noLeft,noRight⟩
    refine ⟨?_,?_⟩
    · intro outer
      rw [outer,if_pos rfl,List.map_eq_nil_iff] at noLeft
      exact lefts.mp noLeft
    · intro outer
      rw [outer,if_pos rfl,List.map_eq_nil_iff] at noRight
      exact rights.mp noRight
  · intro partnered
    refine ⟨?_,?_⟩
    · split
      next outer => rw [lefts.mpr (partnered.lefts outer),List.map_nil]
      next inner => rfl
    · split
      next outer => rw [rights.mpr (partnered.rights outer),List.map_nil]
      next inner => rfl

theorem reference_perm_iff {output : List (OutputRow ν)}
    (rows : output.Perm (joinedPairs arguments (leftRows messages) (rightRows messages))) :
    output.Perm (nestedLoopReference arguments messages) ↔ Partnered arguments messages := by
  have parts : nestedLoopReference arguments messages =
      joinedPairs arguments (leftRows messages) (rightRows messages) ++ outerRows arguments messages := by
    rw [nestedLoopReference,referenceJoin,List.append_assoc]
    rfl
  rw [parts,← outerRows_eq_nil]
  constructor
  · intro same
    have count := (rows.symm.trans same).length_eq
    rw [List.length_append] at count
    exact List.eq_nil_of_length_eq_zero (by omega)
  · intro none
    rw [none,List.append_nil]
    exact rows

theorem NestedReflects.rows (reflects : NestedReflects arguments messages kernel) :
    kernel.bufferedRows.Perm (joinedPairs arguments (leftRows messages) (rightRows messages)) := by
  by_cases empty : leftTables messages = [] ∨ rightTables messages = []
  · have idle := reflects.idle empty
    unfold Idle at idle
    rw [no_pairs empty,idle]
    exact List.Perm.refl []
  · rw [not_or] at empty
    exact (reflects.multiplied empty.1 empty.2).rows

def Helpless (arguments : NestedLoopJoinArguments ν left right) (kernel : NestedLoopJoinKernel ν left right) : Prop :=
  arguments.predicate = none ∨ kernel.leftJoinHelper = none ∧ kernel.rightJoinHelper = none

theorem finalize_helpless (helpless : Helpless arguments kernel) : kernel.finalize arguments = .ok kernel := by
  unfold NestedLoopJoinKernel.finalize NestedLoopJoinKernel.computeOuterJoin
  cases isPredicate : arguments.predicate with
  | none => rfl
  | some predicate =>
    obtain wrong | ⟨leftNone,rightNone⟩ := helpless
    · rw [isPredicate] at wrong
      cases wrong
    · rw [leftNone,rightNone]
      rfl

theorem NestedReflects.helpless (reflects : NestedReflects arguments messages kernel)
    (straight : ¬Swapped arguments messages) : Helpless arguments kernel := by
  by_cases isPredicate : arguments.predicate = none
  · exact .inl isPredicate
  · right
    by_cases empty : leftTables messages = [] ∨ rightTables messages = []
    · have idle := reflects.idle empty
      unfold Idle at idle
      rw [idle]
      exact ⟨rfl,rfl⟩
    · rw [not_or] at empty
      have multiplied := reflects.multiplied empty.1 empty.2
      have inner : ¬(arguments.isLeft = true ∨ arguments.isRight = true) := by
        intro outer
        exact straight ⟨isPredicate,outer,empty.1,empty.2⟩
      rw [not_or] at inner
      have lefts := multiplied.leftHelper
      have rights := multiplied.rightHelper
      refine ⟨?_,?_⟩
      · cases there : kernel.leftJoinHelper with
        | none => rfl
        | some helper =>
          rw [there] at lefts
          exact absurd lefts.1 inner.1
      · cases there : kernel.rightJoinHelper with
        | none => rfl
        | some helper =>
          rw [there] at rights
          exact absurd rights.1 inner.2

theorem projectIds_wide {schema : Schema} {columnIds : List Nat} {id : Nat} (inside : id ∈ columnIds)
    (wide : schema.length ≤ id) : ∃ failure, OuterJoinHelper.projectIds schema columnIds = .error failure := by
  unfold OuterJoinHelper.projectIds
  induction columnIds with
  | nil => cases inside
  | cons first rest ih =>
    rw [List.mapM_cons]
    by_cases here : first < schema.length
    · have later : id ∈ rest := by
        rcases List.mem_cons.mp inside with rfl | later
        · exact absurd here (Nat.not_lt.mpr wide)
        · exact later
      obtain ⟨failure,failed⟩ := ih later
      refine ⟨failure,?_⟩
      rw [dif_pos here,failed]
      rfl
    · rw [dif_neg here]
      exact ⟨_,rfl⟩

theorem compute_wide {helper : OuterJoinHelper left right} {schema : Schema} {id : Nat}
    (inside : id ∈ helper.keepColumnIds) (wide : schema.length ≤ id) (tupleSet : TupleSet (Record ν schema)) :
    ∃ failure, helper.compute tupleSet = .error failure := by
  obtain ⟨failure,failed⟩ := projectIds_wide inside wide
  have some : helper.keepColumnIds.isEmpty = false := by
    cases columns : helper.keepColumnIds with
    | nil => simp [columns] at inside
    | cons first rest => rfl
  refine ⟨failure,?_⟩
  rw [OuterJoinHelper.compute,OuterJoinHelper.computeKeepSide,some,failed]
  rfl

def TooWide (arguments : NestedLoopJoinArguments ν left right) : Prop :=
  (arguments.isLeft = true ∧ ∃ c ∈ sideColumns left arguments.neededColumnNames, right.length ≤ c.val) ∨
    (arguments.isRight = true ∧ ∃ c ∈ sideColumns right arguments.neededColumnNames, left.length ≤ c.val)

theorem computeOuterSide_wide {outer isLeft : Bool} {schema : Schema} {id : Nat}
    {helper : Option (OuterJoinHelper left right)} (helps : Helps outer isLeft
      (neededColumnIndice left right arguments.neededColumnNames) helper) (isOuter : outer = true)
    (inside : ∀ there : OuterJoinHelper left right, there.isLeft = isLeft → there.neededColumnIndice =
      neededColumnIndice left right arguments.neededColumnNames → id ∈ there.keepColumnIds)
    (wide : schema.length ≤ id) (tupleSet : TupleSet (Record ν schema))
    (kernel : NestedLoopJoinKernel ν left right) :
    ∃ failure, NestedLoopJoinKernel.computeOuterSide helper (some tupleSet) kernel = .error failure := by
  cases helper with
  | none => exact absurd (isOuter.symm.trans helps) Bool.true_eq_false.mp
  | some there =>
    obtain ⟨failure,failed⟩ := compute_wide (inside there helps.2.1 helps.2.2) wide tupleSet
    refine ⟨failure,?_⟩
    simp only [NestedLoopJoinKernel.computeOuterSide,bind,Except.bind,failed]

theorem finalize_too_wide (reflects : NestedReflects arguments messages kernel)
    (swapped : Swapped arguments messages) (tooWide : TooWide arguments) :
    ∃ failure, kernel.finalize arguments = .error failure := by
  obtain ⟨chosen,_,lefts,rights⟩ := swapped
  have multiplied := reflects.multiplied lefts rights
  obtain ⟨leftTable,leftKept⟩ := Option.ne_none_iff_exists'.mp (mt (keptTable_eq_none _).mp lefts)
  obtain ⟨rightTable,rightKept⟩ := Option.ne_none_iff_exists'.mp (mt (keptTable_eq_none _).mp rights)
  obtain ⟨predicate,isPredicate⟩ := Option.ne_none_iff_exists'.mp chosen
  unfold NestedLoopJoinKernel.finalize NestedLoopJoinKernel.computeOuterJoin
  rw [isPredicate,reflects.leftTable,reflects.rightTable,leftKept,rightKept]
  dsimp only
  rcases tooWide with ⟨outer,c,needed,wide⟩ | ⟨outer,c,needed,wide⟩
  · obtain ⟨failure,failed⟩ := computeOuterSide_wide multiplied.leftHelper outer
      (fun there side columns => by
        rw [OuterJoinHelper.keepColumnIds_left side columns]
        exact List.mem_map_of_mem needed) wide rightTable kernel
    rw [failed]
    exact ⟨failure,rfl⟩
  · cases padded : NestedLoopJoinKernel.computeOuterSide kernel.leftJoinHelper (some rightTable) kernel with
    | error failure => exact ⟨failure,rfl⟩
    | ok next =>
      exact computeOuterSide_wide multiplied.rightHelper outer
        (fun there side columns => by
          rw [OuterJoinHelper.keepColumnIds_right side columns]
          exact List.mem_map_of_mem needed) wide leftTable next

/-- Whatever the order of the messages: as long as no helper is given the wrong table,
the output is the join by definition exactly if that pads nothing; where the wrong
table is too narrow, there is no output at all. -/
theorem nested_loop_join_output (reader : TableBatchReader) (cuts : CutsFilled reader)
    (arguments : NestedLoopJoinArguments ν left right) (messages : List (JoinMessage ν left right))
    (joinable : Joinable arguments messages) :
    (¬Swapped arguments messages →
      (OutputsReference reader arguments messages ↔ Partnered arguments messages)) ∧
    (Swapped arguments messages → TooWide arguments → ¬OutputsReference reader arguments messages) := by
  obtain ⟨kernel,received,reflects⟩ := receiveAll reader cuts arguments messages joinable
  have whole : NestedLoopJoinKernel.run reader arguments messages = kernel.finalize arguments := by
    rw [NestedLoopJoinKernel.run,received]
    rfl
  unfold OutputsReference
  rw [whole]
  refine ⟨?_,?_⟩
  · intro straight
    rw [finalize_helpless (reflects.helpless straight),← reference_perm_iff reflects.rows]
    constructor
    · intro ⟨final,isFinal,rows⟩
      rw [Except.ok.inj isFinal]
      exact rows
    · intro rows
      exact ⟨kernel,rfl,rows⟩
  · intro swapped tooWide ⟨final,isFinal,_⟩
    obtain ⟨failure,failed⟩ := finalize_too_wide reflects swapped tooWide
    rw [failed] at isFinal
    cases isFinal

end

/-- `a = b` over two relations of one column each, with both columns needed. -/
def sameValue (isLeft : Bool) : NestedLoopJoinArguments Nat ["a"] ["b"] where
  predicate := some ⟨[.inl ⟨0,Nat.zero_lt_one⟩,.inr ⟨0,Nat.zero_lt_one⟩],fun cells => cells[0]? == cells[1]?,
    fun c _ _ same => columnName_injective (List.nodup_cons.mpr ⟨by simp,List.nodup_singleton "b"⟩) same⟩
  neededColumnNames := ["a","b"]
  isLeft := isLeft
  isRight := false
  involved := by
    intro predicate there name inside
    rw [← Option.some.inj there] at inside
    exact inside

def oneEach : List (JoinMessage Nat ["a"] ["b"]) :=
  [.left ⟨[[fun _ => some 1]]⟩,.right ⟨[[fun _ => some 2]]⟩]

/-- The left join of the rows 1 and 2 puts out the right row in the place of the left one. -/
theorem right_row_padded : (∃ final, NestedLoopJoinKernel.run .chunked (sameValue true) oneEach = .ok final ∧
      final.bufferedRows = [[some 2,none]]) ∧
    nestedLoopReference (sameValue true) oneEach = [[some 1,none]] ∧
    ¬OutputsReference .chunked (sameValue true) oneEach := by
  have reference : nestedLoopReference (sameValue true) oneEach = [[some 1,none]] := rfl
  have output : ∃ final, NestedLoopJoinKernel.run .chunked (sameValue true) oneEach = .ok final ∧
      final.bufferedRows = [[some 2,none]] := ⟨_,rfl,rfl⟩
  refine ⟨output,reference,?_⟩
  intro ⟨other,isOther,rows⟩
  obtain ⟨final,isFinal,padded⟩ := output
  rw [Except.ok.inj (isOther.symm.trans isFinal),padded,reference] at rows
  exact absurd rows (by decide)

/-- Batches of both sides in turn; the second left message meets a right row that came before. -/
def interleavedTables : List (JoinMessage Nat ["a"] ["b"]) :=
  [.left ⟨[[fun _ => some 1],[fun _ => some 2]]⟩,.right ⟨[[fun _ => some 2,fun _ => some 3]]⟩,
    .left ⟨[[fun _ => some 3]]⟩]

theorem interleaved_inner_join :
    ∃ final, NestedLoopJoinKernel.run .chunked (sameValue false) interleavedTables = .ok final ∧
      final.bufferedRows.Perm [[some 2,some 2],[some 3,some 3]] := by
  have joinable : Joinable (sameValue false) interleavedTables := by
    have lefts : Filled (leftTables interleavedTables) := by
      intro table kept
      rw [← Option.some.inj kept]
      decide
    have rights : Filled (rightTables interleavedTables) := by
      intro table kept
      rw [← Option.some.inj kept]
      decide
    exact ⟨fun _ _ => by decide,fun _ _ _ => lefts,fun _ _ _ => rights⟩
  have straight : ¬Swapped (sameValue false) interleavedTables := by
    simp [Swapped,sameValue]
  have inner : Partnered (sameValue false) interleavedTables :=
    ⟨fun outer => absurd outer (by decide),fun outer => absurd outer (by decide)⟩
  exact ((nested_loop_join_output .chunked (fun table filled => filled) (sameValue false) interleavedTables
    joinable).1 straight).mpr inner

end Hermes.Join
