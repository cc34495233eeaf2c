import Hermes.HashSemiJoinProbeKernel

/-! What the hash semi-join has put out after any sequence of messages.
Within one call of the joiner a key is lost exactly when the first row found for it
carries the position under which a row of an earlier key has been stored. -/
namespace Hermes.Join
open Hermes.Tuple Hermes.Library.ListJoin
open RecordBatchHashSemiJoiner

section Joiner
variable {ν : Type} {find : TupleKey ν → List Nat} {rowIndexOffset : Nat}

def Collects (find : TupleKey ν → List Nat) (rowIndexOffset : Nat) (keys : List (TupleKey ν))
    (marks : Finset Nat) : Prop :=
  ∀ i, i ∈ marks ↔ ∃ key ∈ keys, ∃ row ∈ find key, i = row+rowIndexOffset

def Collides (find : TupleKey ν → List Nat) (rowIndexOffset : Nat) (keys : List (TupleKey ν)) : Prop :=
  ∃ before later after, keys = before ++ later::after ∧ later ∉ before ∧
    ∃ first ∈ (find later).head?, ∃ earlier ∈ before, ∃ row ∈ find earlier, first = row+rowIndexOffset

def matchKeys (find : TupleKey ν → List Nat) (rowIndexOffset : Nat) (keys : List (TupleKey ν)) : Finset Nat :=
  keys.foldl (matchKey find rowIndexOffset) ∅

theorem subset_matchKey (marks : Finset Nat) (key : TupleKey ν) :
    marks ⊆ matchKey find rowIndexOffset marks key := by
  unfold matchKey
  split
  next => exact Finset.Subset.refl marks
  next first others found =>
    split
    next seen => exact Finset.Subset.refl marks
    next new => exact Finset.subset_union_left

theorem of_mem_matchKey {marks : Finset Nat} {key : TupleKey ν} {i : Nat}
    (member : i ∈ matchKey find rowIndexOffset marks key) :
    i ∈ marks ∨ ∃ row ∈ find key, i = row+rowIndexOffset := by
  unfold matchKey at member
  split at member
  next => exact Or.inl member
  next first others found =>
    split at member
    next seen => exact Or.inl member
    next new =>
      rcases Finset.mem_union.mp member with old | added
      · exact Or.inl old
      · obtain ⟨row,inside,place⟩ := List.mem_map.mp (List.mem_toFinset.mp added)
        rw [found]
        exact Or.inr ⟨row,inside,place.symm⟩

theorem of_mem_foldl {marks : Finset Nat} {keys : List (TupleKey ν)} {i : Nat}
    (member : i ∈ keys.foldl (matchKey find rowIndexOffset) marks) :
    i ∈ marks ∨ ∃ key ∈ keys, ∃ row ∈ find key, i = row+rowIndexOffset := by
  induction keys generalizing marks with
  | nil => exact Or.inl member
  | cons key keys ih =>
    rcases ih member with before | ⟨other,inside,found⟩
    · rcases of_mem_matchKey before with old | new
      · exact Or.inl old
      · exact Or.inr ⟨key,List.mem_cons_self,new⟩
    · exact Or.inr ⟨other,List.mem_cons_of_mem key inside,found⟩

theorem of_mem_matchKeys {keys : List (TupleKey ν)} {i : Nat}
    (member : i ∈ matchKeys find rowIndexOffset keys) : ∃ key ∈ keys, ∃ row ∈ find key, i = row+rowIndexOffset :=
  (of_mem_foldl member).resolve_left (Finset.notMem_empty i)

theorem exists_collects (find : TupleKey ν → List Nat) (rowIndexOffset : Nat) (keys : List (TupleKey ν)) :
    ∃ marks, Collects find rowIndexOffset keys marks := by
  refine ⟨(keys.flatMap fun key => (find key).map (·+rowIndexOffset)).toFinset,?_⟩
  intro i
  simp only [List.mem_toFinset,List.mem_flatMap,List.mem_map,eq_comm]

theorem Collides.append {keys : List (TupleKey ν)} (collides : Collides find rowIndexOffset keys)
    (more : List (TupleKey ν)) : Collides find rowIndexOffset (keys ++ more) := by
  obtain ⟨before,later,after,rfl,new,collision⟩ := collides
  exact ⟨before,later,after ++ more,by simp,new,collision⟩

theorem collects_of_not_collides {keys : List (TupleKey ν)} (none : ¬Collides find rowIndexOffset keys) :
    Collects find rowIndexOffset keys (matchKeys find rowIndexOffset keys) := by
  induction keys using List.reverseRecOn with
  | nil => simp [Collects,matchKeys]
  | append_singleton keys key ih =>
    have earlier := ih fun collides => none (collides.append [key])
    have step : matchKeys find rowIndexOffset (keys ++ [key]) =
        matchKey find rowIndexOffset (matchKeys find rowIndexOffset keys) key := by
      simp [matchKeys]
    intro i
    constructor
    · exact of_mem_matchKeys
    · intro ⟨other,inside,row,found,place⟩
      rw [step]
      by_cases old : other ∈ keys
      · exact subset_matchKey _ key ((earlier i).mpr ⟨other,old,row,found,place⟩)
      · obtain rfl : other = key := by simpa [old] using inside
        unfold matchKey
        cases rows : find other with
        | nil => simp [rows] at found
        | cons first others =>
          have fresh : first ∉ matchKeys find rowIndexOffset keys := by
            intro seen
            obtain ⟨taken,before,place⟩ := of_mem_matchKeys seen
            exact none ⟨keys,other,[],rfl,old,first,by simp [rows],taken,before,place⟩
          dsimp only
          rw [if_neg fresh,Finset.mem_union,List.mem_toFinset,List.mem_map]
          exact Or.inr ⟨row,rows ▸ found,place.symm⟩

theorem Collides.first {keys : List (TupleKey ν)} (collides : Collides find rowIndexOffset keys) :
    ∃ before later after, keys = before ++ later::after ∧ later ∉ before ∧
      ¬Collides find rowIndexOffset before ∧
      ∃ first ∈ (find later).head?, ∃ earlier ∈ before, ∃ row ∈ find earlier, first = row+rowIndexOffset := by
  induction keys using List.reverseRecOn with
  | nil =>
    obtain ⟨before,later,after,same,_⟩ := collides
    simp at same
  | append_singleton keys key ih =>
    by_cases earlier : Collides find rowIndexOffset keys
    · obtain ⟨before,later,after,rfl,new,none,collision⟩ := ih earlier
      exact ⟨before,later,after ++ [key],by simp,new,none,collision⟩
    · obtain ⟨before,later,after,same,new,collision⟩ := collides
      cases after using List.reverseRecOn with
      | nil =>
        obtain ⟨rfl,_⟩ := List.append_inj' same rfl
        exact ⟨keys,later,[],same,new,earlier,collision⟩
      | append_singleton after last =>
        have inside : keys = before ++ later::after := by
          have shifted : keys ++ [key] = (before ++ later::after) ++ [last] := by simpa using same
          exact (List.append_inj' shifted rfl).1
        exact absurd ⟨before,later,after,inside,new,collision⟩ earlier

theorem lost_of_collides {keys : List (TupleKey ν)}
    (owned : ∀ key other row, row ∈ find key → row ∈ find other → key = other)
    (collides : Collides find rowIndexOffset keys) :
    ∃ key ∈ keys, ∃ row ∈ find key, row+rowIndexOffset ∉ matchKeys find rowIndexOffset keys := by
  obtain ⟨before,later,after,rfl,new,none,first,head,earlier,inside,row,found,place⟩ := collides.first
  obtain ⟨others,rows⟩ : ∃ others, find later = first::others := by
    cases rows : find later with
    | nil => simp [rows] at head
    | cons row others =>
      rw [rows] at head
      exact ⟨others,by rw [Option.some.inj head]⟩
  have mine : first ∈ find later := by
    rw [rows]
    exact List.mem_cons_self
  have seen : first ∈ matchKeys find rowIndexOffset before :=
    (collects_of_not_collides none first).mpr ⟨earlier,inside,row,found,place⟩
  have absent : first+rowIndexOffset ∉ matchKeys find rowIndexOffset before := by
    intro there
    obtain ⟨key,old,other,here,same⟩ := of_mem_matchKeys there
    obtain rfl : first = other := Nat.add_right_cancel same
    exact new (owned later key first mine here ▸ old)
  -- whatever follows, the first row stays in the set and its own position out of it
  have stays (marks : Finset Nat) (more : List (TupleKey ν)) (in_ : first ∈ marks)
      (out : first+rowIndexOffset ∉ marks) :
      first+rowIndexOffset ∉ more.foldl (matchKey find rowIndexOffset) marks := by
    induction more generalizing marks with
    | nil => exact out
    | cons key more ih =>
      apply ih _ (subset_matchKey marks key in_)
      intro added
      by_cases same : key = later
      · subst same
        unfold matchKey at added
        rw [rows] at added
        dsimp only at added
        rw [if_pos in_] at added
        exact out added
      · rcases of_mem_matchKey added with old | ⟨other,here,place⟩
        · exact out old
        · obtain rfl : first = other := Nat.add_right_cancel place
          exact same (owned key later first here mine)
  refine ⟨later,by simp,first,mine,?_⟩
  rw [matchKeys,List.foldl_append]
  exact stays _ (later::after) seen absent

theorem not_collides_zero (owned : ∀ key other row, row ∈ find key → row ∈ find other → key = other)
    (keys : List (TupleKey ν)) : ¬Collides find 0 keys := by
  intro ⟨before,later,after,_,new,first,head,earlier,inside,row,found,place⟩
  have mine : first ∈ find later := List.mem_of_mem_head? head
  rw [Nat.add_zero] at place
  exact new (owned later earlier first mine (place ▸ found) ▸ inside)

end Joiner
variable {ν : Type} [DecidableEq ν] {left right : Schema} {blank : ν} {pred : HashJoinPredicate left right}

def probeKeys (blank : ν) (pred : HashJoinPredicate left right) (rows : List (Record ν right)) :
    List (TupleKey ν) :=
  rows.map (makeKey blank pred.rightColumns)

theorem find_owned (index : BuildIndex ν blank pred) (key other : TupleKey ν) (row : Nat)
    (found : row ∈ index.find key) (again : row ∈ index.find other) : key = other := by
  obtain ⟨first,there,same⟩ := (index.mem_find key row).mp found
  obtain ⟨second,here,equal⟩ := (index.mem_find other row).mp again
  obtain rfl : first = second := Option.some.inj (there.symm.trans here)
  exact same.symm.trans equal

theorem joinAndBuffer_marks (reader : TableBatchReader) (kernel : HashSemiJoinProbeKernel ν blank pred)
    (index : BuildIndex ν blank pred) (rowIndexOffset : Nat) (tupleSet : TupleSet (Record ν right)) :
    kernel.joinAndBuffer reader index rowIndexOffset tupleSet = .ok {kernel with
      rowMatchIndexes := kernel.rowMatchIndexes ∪
        matchKeys index.find rowIndexOffset (probeKeys blank pred tupleSet.rows)} := by
  have batches (joiner : RecordBatchHashSemiJoiner ν blank pred) (batches : List (List (Record ν right))) :
      batches.foldlM RecordBatchHashSemiJoiner.join joiner = .ok {joiner with
        rowMatchIndexes := (probeKeys blank pred batches.flatten).foldl
          (matchKey joiner.buildTupleSetIndex.find joiner.rowIndexOffset) joiner.rowMatchIndexes} := by
    induction batches generalizing joiner with
    | nil => rfl
    | cons recordBatch rest ih =>
      rw [List.foldlM_cons,RecordBatchHashSemiJoiner.join,pred.rightResolved]
      simp only [bind,Except.bind]
      rw [ih]
      simp [probeKeys,List.foldl_map,List.foldl_append]
  rw [HashSemiJoinProbeKernel.joinAndBuffer,batches,reader.flatten_batches]
  rfl

/-- The message loses a row: it brings an index in which a probe key that has not
occurred yet is taken for one that has. -/
def Loses (messages : List (ProbeMessage ν blank pred)) (index : BuildIndex ν blank pred) : Prop :=
  Collides index.find (buildRows messages).length (probeKeys blank pred (probeRows messages))

theorem collects_marks (index : BuildIndex ν blank pred) {rowIndexOffset : Nat}
    {rightRows : List (Record ν right)} {marks : Finset Nat}
    (collects : Collects index.find rowIndexOffset (probeKeys blank pred rightRows) marks) (i : Nat) :
    i ∈ marks ↔ ∃ k row, index.rows[k]? = some row ∧ leftMatched (sameKey blank pred) rightRows row ∧
      i = rowIndexOffset+k := by
  rw [collects i]
  constructor
  · intro ⟨key,inside,k,found,place⟩
    obtain ⟨probeRow,member,rfl⟩ := List.mem_map.mp inside
    obtain ⟨row,there,same⟩ := (index.mem_find _ k).mp found
    rw [key_eq] at same
    exact ⟨k,row,there,⟨probeRow,member,decide_eq_true same⟩,place.trans (Nat.add_comm k _)⟩
  · intro ⟨k,row,there,⟨probeRow,member,same⟩,place⟩
    refine ⟨makeKey blank pred.rightColumns probeRow,List.mem_map_of_mem member,k,?_,
      place.trans (Nat.add_comm _ k)⟩
    rw [index.mem_find]
    exact ⟨row,there,by rw [key_eq]; exact of_decide_eq_true same⟩

theorem matchKeys_none (index : BuildIndex ν blank pred) (rowIndexOffset : Nat)
    (rightRows : List (Record ν right)) (empty : rightRows = [] ∨ index.rows = []) :
    matchKeys index.find rowIndexOffset (probeKeys blank pred rightRows) = ∅ := by
  apply Finset.eq_empty_of_forall_notMem
  intro i member
  obtain ⟨key,inside,k,found,_⟩ := of_mem_matchKeys member
  rcases empty with rfl | none
  · simp [probeKeys] at inside
  · obtain ⟨row,there,_⟩ := (index.mem_find key k).mp found
    simp [none] at there

/-- What the kernel holds after the messages, but for the positions. -/
structure SemiReflects (names : List String) (messages : List (ProbeMessage ν blank pred))
    (kernel : HashSemiJoinProbeKernel ν blank pred) : Prop
    extends Buffers messages kernel.toHashJoinProbeAbstractKernel where
  buffer : kernel.buffer = none
  silent : buildTables messages = [] ∨ probeTables messages = [] →
    kernel.outputSchema = none ∧ kernel.neededColumnIndice = []
  sent : buildTables messages ≠ [] → probeTables messages ≠ [] →
    kernel.outputSchema = some (outputFields left right names) ∧
      kernel.neededColumnIndice = neededColumnIndice left right names

section
variable {names : List String} {messages : List (ProbeMessage ν blank pred)}
variable {kernel : HashSemiJoinProbeKernel ν blank pred}

omit [DecidableEq ν] in
theorem SemiReflects.bufferOutputSchema (reflects : SemiReflects names messages kernel)
    (inputs : HashJoinProbeAbstractKernel ν blank pred)
    (schema : inputs.outputSchema = kernel.outputSchema)
    (needed : inputs.neededColumnIndice = kernel.neededColumnIndice) :
    inputs.bufferOutputSchema names = {inputs with
      outputSchema := some (outputFields left right names)
      neededColumnIndice := neededColumnIndice left right names} := by
  unfold HashJoinProbeAbstractKernel.bufferOutputSchema
  by_cases empty : buildTables messages = [] ∨ probeTables messages = []
  · obtain ⟨noSchema,noColumns⟩ := reflects.silent empty
    rw [schema,noSchema,needed,noColumns]
    rfl
  · rw [not_or] at empty
    obtain ⟨isSchema,columns⟩ := reflects.sent empty.1 empty.2
    cases inputs with
    | mk build probe outputSchema columns' buffer =>
      dsimp only at schema needed ⊢
      rw [schema,isSchema,needed,columns]

theorem semi_build (multimap : UnorderedMultimap) (reader : TableBatchReader)
    (reflects : SemiReflects names messages kernel) (index : BuildIndex ν blank pred) :
    ∃ after, kernel.joinBuildTupleSetIndex multimap reader names index = .ok after ∧
      SemiReflects names (messages ++ [.build index]) after ∧
      after.rowMatchIndexes = kernel.rowMatchIndexes ∪
        matchKeys index.find (buildRows messages).length (probeKeys blank pred (probeRows messages)) := by
  unfold HashSemiJoinProbeKernel.joinBuildTupleSetIndex
  rw [HashJoinProbeAbstractKernel.putBuildTupleSetIndex_eq,reflects.build_size]
  cases received : kernel.probeTupleSet with
  | none =>
    have nothing : probeTables messages = [] := reflects.probe_none.mp received
    have empty : probeRows messages = [] := by rw [probeRows,nothing]; rfl
    refine ⟨_,rfl,⟨reflects.put_build multimap index rfl received.symm,reflects.buffer,
      fun _ => reflects.silent (Or.inr nothing),?_⟩,?_⟩
    · intro _ some
      rw [probeTables_build] at some
      exact absurd nothing some
    · rw [matchKeys_none index _ _ (Or.inl empty),Finset.union_empty]
  | some probeTupleSet =>
    have there : probeTupleSet.rows = probeRows messages := by
      rw [← reflects.probe_rows,received]
      rfl
    have next (marks : Finset Nat) : SemiReflects names (messages ++ [.build index]) (⟨⟨some
        (HashJoinProbeAbstractKernel.keepIndex multimap kernel.buildTupleSetIndex index),some probeTupleSet,
        some (outputFields left right names),neededColumnIndice left right names,kernel.buffer⟩,marks⟩ :
        HashSemiJoinProbeKernel ν blank pred) := by
      refine ⟨reflects.put_build multimap index rfl received.symm,reflects.buffer,?_,fun _ _ => ⟨rfl,rfl⟩⟩
      intro empty
      rw [buildTables_build,probeTables_build,← reflects.probe_none,received] at empty
      simp at empty
    have schema := reflects.bufferOutputSchema {kernel.toHashJoinProbeAbstractKernel with
      buildTupleSetIndex := some (HashJoinProbeAbstractKernel.keepIndex multimap kernel.buildTupleSetIndex index)
      probeTupleSet := some probeTupleSet} rfl rfl
    simp only [bind,Except.bind,schema]
    split
    next empty =>
      refine ⟨_,rfl,next _,?_⟩
      rw [matchKeys_none index,Finset.union_empty]
      rw [← there]
      exact empty.imp List.length_eq_zero_iff.mp List.length_eq_zero_iff.mp
    next filled =>
      rw [joinAndBuffer_marks,there]
      exact ⟨_,rfl,next _,rfl⟩

theorem semi_probe (reader : TableBatchReader) (reflects : SemiReflects names messages kernel)
    (tupleSet : TupleSet (Record ν right)) :
    ∃ after, kernel.joinProbeTupleSet reader names tupleSet = .ok after ∧
      SemiReflects names (messages ++ [.probe tupleSet]) after ∧
      ∃ new, after.rowMatchIndexes = kernel.rowMatchIndexes ∪ new ∧
        Marks (leftMatched (sameKey blank pred) tupleSet.rows) (buildRows messages) new := by
  unfold HashSemiJoinProbeKernel.joinProbeTupleSet
  rw [HashJoinProbeAbstractKernel.putProbeTupleSet_eq]
  cases received : kernel.buildTupleSetIndex with
  | none =>
    have nothing : buildTables messages = [] := reflects.build_none.mp received
    have empty : buildRows messages = [] := by rw [buildRows,nothing]; rfl
    refine ⟨_,rfl,⟨reflects.put_probe tupleSet received.symm rfl,reflects.buffer,
      fun _ => reflects.silent (Or.inl nothing),?_⟩,∅,?_,?_⟩
    · intro some
      rw [buildTables_probe] at some
      exact absurd nothing some
    · rw [Finset.union_empty]
    · rw [empty]
      exact Marks.none (by simp)
  | some index =>
    have there : index.rows = buildRows messages := by
      rw [← reflects.build_rows,received]
      rfl
    have next (marks : Finset Nat) : SemiReflects names (messages ++ [.probe tupleSet]) (⟨⟨some index,
        some (keepTable kernel.probeTupleSet tupleSet),some (outputFields left right names),
        neededColumnIndice left right names,kernel.buffer⟩,marks⟩ : HashSemiJoinProbeKernel ν blank pred) := by
      refine ⟨reflects.put_probe tupleSet received.symm rfl,reflects.buffer,?_,fun _ _ => ⟨rfl,rfl⟩⟩
      intro empty
      rw [buildTables_probe,probeTables_probe,← reflects.build_none,received] at empty
      simp at empty
    have schema := reflects.bufferOutputSchema {kernel.toHashJoinProbeAbstractKernel with
      buildTupleSetIndex := some index
      probeTupleSet := some (keepTable kernel.probeTupleSet tupleSet)} rfl rfl
    simp only [bind,Except.bind,schema]
    split
    next empty =>
      refine ⟨_,rfl,next _,∅,(Finset.union_empty _).symm,Marks.none ?_⟩
      intro row member
      rcases empty with none | none
      · have bare : index.rows = [] := List.length_eq_zero_iff.mp none
        rw [← there,bare] at member
        simp at member
      · have bare : tupleSet.rows = [] := List.length_eq_zero_iff.mp none
        simp [leftMatched,bare]
    next filled =>
      rw [joinAndBuffer_marks]
      refine ⟨_,rfl,next _,_,rfl,?_⟩
      have collects := collects_of_not_collides
        (not_collides_zero (find_owned index) (probeKeys blank pred tupleSet.rows))
      rw [← there,marks_iff]
      intro i
      simpa using collects_marks index collects i

def Lossless (messages : List (ProbeMessage ν blank pred)) : Prop :=
  ∀ before index after, messages = before ++ .build index::after → ¬Loses before index

theorem lossless_nil : Lossless ([] : List (ProbeMessage ν blank pred)) := by
  intro before index after same
  simp at same

theorem lossless_build (index : BuildIndex ν blank pred) :
    Lossless (messages ++ [.build index]) ↔ Lossless messages ∧ ¬Loses messages index := by
  constructor
  · intro lossless
    refine ⟨?_,lossless messages index [] rfl⟩
    intro before other after same
    exact lossless before other (after ++ [.build index]) (by simp [same])
  · intro ⟨earlier,keeps⟩ before other after same
    cases after using List.reverseRecOn with
    | nil =>
      obtain ⟨rfl,last⟩ := List.append_inj' same rfl
      cases last
      exact keeps
    | append_singleton after last =>
      have shifted : messages ++ [ProbeMessage.build index] = (before ++ .build other::after) ++ [last] := by
        simpa using same
      exact earlier before other after (List.append_inj' shifted rfl).1

theorem lossless_probe (tupleSet : TupleSet (Record ν right)) :
    Lossless (messages ++ [.probe tupleSet]) ↔ Lossless messages := by
  constructor
  · intro lossless before other after same
    exact lossless before other (after ++ [.probe tupleSet]) (by simp [same])
  · intro earlier before other after same
    cases after using List.reverseRecOn with
    | nil =>
      obtain ⟨_,last⟩ := List.append_inj' same rfl
      cases last
    | append_singleton after last =>
      have shifted : messages ++ [ProbeMessage.probe tupleSet] = (before ++ .build other::after) ++ [last] := by
        simpa using same
      exact earlier before other after (List.append_inj' shifted rfl).1

theorem not_loses (index : BuildIndex ν blank pred)
    (small : buildRows messages = [] ∨ index.rows.length ≤ (buildRows messages).length) :
    ¬Loses messages index := by
  rcases small with first | small
  · rw [Loses,first]
    exact not_collides_zero (find_owned index) _
  · intro ⟨before,later,after,_,_,first,head,earlier,_,row,_,place⟩
    obtain ⟨_,there,_⟩ := (index.mem_find later first).mp (List.mem_of_mem_head? head)
    have within := (List.getElem?_eq_some_iff.mp there).1
    omega

theorem semi_run (multimap : UnorderedMultimap) (reader : TableBatchReader) (names : List String)
    (lossless : Lossless messages) :
    ∃ kernel, messages.foldlM (HashSemiJoinProbeKernel.receive multimap reader names)
        (HashSemiJoinProbeKernel.make : HashSemiJoinProbeKernel ν blank pred) = .ok kernel ∧
      SemiReflects names messages kernel ∧
      Marks (leftMatched (sameKey blank pred) (probeRows messages)) (buildRows messages)
        kernel.rowMatchIndexes := by
  induction messages using List.reverseRecOn with
  | nil =>
    refine ⟨HashSemiJoinProbeKernel.make,rfl,⟨⟨rfl,rfl⟩,rfl,fun _ => ⟨rfl,rfl⟩,fun some => absurd rfl some⟩,?_⟩
    exact Marks.none (by simp [buildRows,buildTables,rowsOf])
  | append_singleton messages message ih =>
    cases message with
    | build index =>
      obtain ⟨earlier,keeps⟩ := (lossless_build index).mp lossless
      obtain ⟨kernel,received,reflects,marked⟩ := ih earlier
      obtain ⟨after,isAfter,next,marks⟩ := semi_build multimap reader reflects index
      refine ⟨after,?_,next,?_⟩
      · rw [List.foldlM_append,received]
        simp only [List.foldlM_cons,List.foldlM_nil,HashSemiJoinProbeKernel.receive,bind,Except.bind,isAfter]
        rfl
      · have whole := collects_of_not_collides keeps
        rw [marks,buildRows_build,probeRows_build]
        exact marked.append (collects_marks index whole)
    | probe tupleSet =>
      obtain ⟨kernel,received,reflects,marked⟩ := ih ((lossless_probe tupleSet).mp lossless)
      obtain ⟨after,isAfter,next,new,marks,added⟩ := semi_probe reader reflects tupleSet
      refine ⟨after,?_,next,?_⟩
      · rw [List.foldlM_append,received]
        simp only [List.foldlM_cons,List.foldlM_nil,HashSemiJoinProbeKernel.receive,bind,Except.bind,isAfter]
        rfl
      · rw [marks,buildRows_probe,probeRows_probe]
        exact leftMatched_marks added _ marked

omit [DecidableEq ν] in
theorem SemiReflects.silent_emits (reflects : SemiReflects names messages kernel)
    (unread : kernel.finalize = .ok kernel) (emitted : List (OutputRow ν)) :
    (∃ final, kernel.finalize = .ok final ∧ final.bufferedRows = emitted) ↔ emitted = [] := by
  have nothing : kernel.bufferedRows = [] := by
    rw [HashJoinProbeAbstractKernel.bufferedRows,reflects.buffer]
    rfl
  rw [unread]
  constructor
  · intro ⟨final,isFinal,rows⟩
    rw [← rows,← Except.ok.inj isFinal,nothing]
  · intro none
    exact ⟨kernel,rfl,nothing.trans none.symm⟩

theorem leftColumns_neededColumnIndice (left right : Schema) (names : List String) :
    (neededColumnIndice left right names).filterMap Sum.getLeft? = sideColumns left names := by
  simp [neededColumnIndice,List.filterMap_append,List.filterMap_map,Function.comp_def]

theorem columns_lt_outputFields (left right : Schema) (names : List String) :
    (sideColumns left names).length < (outputFields left right names).length ↔
      sideColumns right names ≠ [] := by
  simp [outputFields,neededColumnIndice,List.length_pos_iff]

omit [DecidableEq ν] in
theorem finalize_emits (reflects : SemiReflects names messages kernel) (emitted : List (OutputRow ν)) :
    (∃ final, kernel.finalize = .ok final ∧ final.bufferedRows = emitted) ↔
      (buildRows messages = [] ∧ emitted = []) ∨
      (buildRows messages ≠ [] ∧ probeTables messages ≠ [] ∧ neededColumnIndice left right names ≠ [] ∧
        ∃ selected, kernel.rowMatchIndexes.sort.mapM ((buildRows messages)[·]?) = some selected ∧
          (selected = [] ∨ sideColumns right names = []) ∧
          emitted = selected.map fun row => (sideColumns left names).map row) := by
  cases received : kernel.buildTupleSetIndex with
  | none =>
    have nothing : buildTables messages = [] := reflects.build_none.mp received
    have bare : buildRows messages = [] := by rw [buildRows,nothing]; rfl
    rw [reflects.silent_emits (by rw [HashSemiJoinProbeKernel.finalize,received])]
    simp [bare]
  | some index =>
    have there : index.rows = buildRows messages := by
      rw [← reflects.build_rows,received]
      rfl
    have size : index.size = (buildRows messages).length := by rw [← there]; rfl
    by_cases bare : buildRows messages = []
    · have none : index.size = 0 := by rw [size,bare]; rfl
      rw [reflects.silent_emits (by simp only [HashSemiJoinProbeKernel.finalize,received,if_pos none])]
      simp [bare]
    · have some : index.size ≠ 0 := by
        rw [size]
        exact mt List.length_eq_zero_iff.mp bare
      have combined : index.tupleSet.combine.chunks = [buildRows messages] := by
        have chunked : index.tupleSet.chunks ≠ [] := by
          intro none
          apply bare
          rw [← there,TupleSetIndex.rows,TupleSet.rows,none]
          rfl
        rw [← there]
        simp [TupleSet.combine,chunked,TupleSet.ofRows,TupleSetIndex.rows]
      have built : buildTables messages ≠ [] := by
        intro none
        rw [reflects.build_none.mpr none] at received
        cases received
      unfold HashSemiJoinProbeKernel.finalize
      rw [received]
      dsimp only
      rw [if_neg some,combined]
      by_cases unsent : probeTables messages = []
      · rw [(reflects.silent (Or.inr unsent)).1]
        simp [bare,unsent]
      · obtain ⟨schema,needed⟩ := reflects.sent built unsent
        rw [schema,needed,leftColumns_neededColumnIndice]
        dsimp only
        by_cases nothing : neededColumnIndice left right names = []
        · rw [if_pos (by rw [outputFields,nothing]; rfl)]
          simp [bare,nothing]
        · rw [if_neg (by simpa [outputFields] using nothing)]
          cases looked : kernel.rowMatchIndexes.sort.mapM ((buildRows messages)[·]?) with
          | none => simp [bare]
          | some selected =>
            have readable : ¬(selected ≠ [] ∧
                (sideColumns left names).length < (outputFields left right names).length) ↔
                selected = [] ∨ sideColumns right names = [] := by
              rw [columns_lt_outputFields]
              tauto
            dsimp only
            by_cases read : selected = [] ∨ sideColumns right names = []
            · have puts : (kernel.toHashJoinProbeAbstractKernel.bufferOutput (TupleSet.ofRows
                  (selected.map fun row => (sideColumns left names).map row))).bufferedRows =
                  selected.map fun row => (sideColumns left names).map row := by
                simp [HashJoinProbeAbstractKernel.bufferedRows,reflects.buffer,
                  HashJoinProbeAbstractKernel.bufferOutput]
              rw [if_neg (readable.mpr read)]
              constructor
              · rintro ⟨final,isFinal,rows⟩
                refine Or.inr ⟨bare,unsent,nothing,selected,rfl,read,?_⟩
                rw [← rows,← Except.ok.inj isFinal]
                exact puts
              · intro either
                rcases either with ⟨empty,_⟩ | ⟨_,_,_,found,same,_,rows⟩
                · exact absurd empty bare
                · rw [rows,← Option.some.inj same]
                  exact ⟨_,rfl,puts⟩
            · rw [if_pos (not_not.mp (mt readable.mp read))]
              simp [read,bare]

def semiJoin (names : List String) (messages : List (ProbeMessage ν blank pred)) : List (OutputRow ν) :=
  ((buildRows messages).filter fun row => leftMatched pred.holds (probeRows messages) row).map fun row =>
    (sideColumns left names).map row

/-- The run puts out each row of the semi-join once. -/
def Emits (multimap : UnorderedMultimap) (reader : TableBatchReader) (names : List String)
    (messages : List (ProbeMessage ν blank pred)) : Prop :=
  ∃ final, HashSemiJoinProbeKernel.run multimap reader names messages = .ok final ∧
    final.bufferedRows.Perm (semiJoin names messages)

/-- `finalize` can put out what has been matched. -/
def Ready (names : List String) (messages : List (ProbeMessage ν blank pred)) : Prop :=
  buildRows messages = [] ∨
    (probeTables messages ≠ [] ∧ neededColumnIndice left right names ≠ [] ∧
      (semiJoin names messages = [] ∨ sideColumns right names = []))

def NullsApart (messages : List (ProbeMessage ν blank pred)) : Prop :=
  ∀ l ∈ buildRows messages, ∀ r ∈ probeRows messages, sameKey blank pred l r → pred.holds l r

theorem NullsApart.matched (apart : NullsApart messages) :
    ∀ row ∈ buildRows messages, leftMatched (sameKey blank pred) (probeRows messages) row ↔
      leftMatched pred.holds (probeRows messages) row := by
  intro row inLeft
  apply exists_congr
  intro other
  apply and_congr_right
  intro inRight
  exact ⟨apart row inLeft other inRight,sameKey_of_holds⟩

theorem run_eq (multimap : UnorderedMultimap) (reader : TableBatchReader)
    (received : messages.foldlM (HashSemiJoinProbeKernel.receive multimap reader names)
      HashSemiJoinProbeKernel.make = .ok kernel) :
    HashSemiJoinProbeKernel.run multimap reader names messages = kernel.finalize := by
  rw [HashSemiJoinProbeKernel.run,received]
  rfl

theorem emits_iff_ready (multimap : UnorderedMultimap) (reader : TableBatchReader) (names : List String)
    (messages : List (ProbeMessage ν blank pred)) (apart : NullsApart messages) (lossless : Lossless messages) :
    Emits multimap reader names messages ↔ Ready names messages := by
  obtain ⟨kernel,received,reflects,marked⟩ := semi_run multimap reader names lossless
  have ends := run_eq multimap reader received
  have selected := (marked.congr apart.matched).lookup_sorted
  have lefts : (buildRows messages = [] → semiJoin names messages = []) := by
    intro bare
    rw [semiJoin,bare]
    rfl
  have noneSelected : ((buildRows messages).filter fun row => leftMatched pred.holds (probeRows messages) row) = [] ↔
      semiJoin names messages = [] := by
    rw [semiJoin,List.map_eq_nil_iff]
  constructor
  · intro ⟨final,isFinal,rows⟩
    rcases (finalize_emits reflects final.bufferedRows).mp ⟨final,ends.symm.trans isFinal,rfl⟩ with
      ⟨bare,_⟩ | ⟨_,sent,needed,found,looked,readable,_⟩
    · exact Or.inl bare
    · obtain rfl := Option.some.inj (selected.symm.trans looked)
      exact Or.inr ⟨sent,needed,readable.imp noneSelected.mp id⟩
  · intro ready
    have emitted : (∃ final, kernel.finalize = .ok final ∧ final.bufferedRows = semiJoin names messages) := by
      rw [finalize_emits reflects]
      by_cases bare : buildRows messages = []
      · exact Or.inl ⟨bare,lefts bare⟩
      · obtain ⟨sent,needed,readable⟩ := ready.resolve_left bare
        exact Or.inr ⟨bare,sent,needed,_,selected,readable.imp noneSelected.mpr id,rfl⟩
    obtain ⟨final,isFinal,rows⟩ := emitted
    exact ⟨final,ends.trans isFinal,.of_eq rows⟩

theorem card_lt_of_loses (index : BuildIndex ν blank pred) {marks : Finset Nat}
    (marked : Marks (leftMatched (sameKey blank pred) (probeRows messages)) (buildRows messages) marks)
    (loses : Loses messages index) :
    (marks ∪ matchKeys index.find (buildRows messages).length (probeKeys blank pred (probeRows messages))).card <
      ((buildRows messages ++ index.rows).filter fun row =>
        leftMatched (sameKey blank pred) (probeRows messages) row).length := by
  obtain ⟨all,collects⟩ := exists_collects index.find (buildRows messages).length
    (probeKeys blank pred (probeRows messages))
  obtain ⟨key,inside,row,found,lost⟩ := lost_of_collides (find_owned index) loses
  rw [← (marked.append (collects_marks index collects)).card_eq]
  apply Finset.card_lt_card
  rw [Finset.ssubset_iff_of_subset]
  · refine ⟨row+(buildRows messages).length,?_,?_⟩
    · apply Finset.mem_union_right
      exact (collects _).mpr ⟨key,inside,row,found,rfl⟩
    · rw [Finset.mem_union,not_or]
      refine ⟨?_,lost⟩
      intro earlier
      obtain ⟨other,there,_⟩ := (marked _).mp earlier
      have within := (List.getElem?_eq_some_iff.mp there).1
      omega
  · apply Finset.union_subset_union_right
    intro i member
    exact (collects i).mpr (of_mem_matchKeys member)

theorem not_emits_of_loses (multimap : UnorderedMultimap) (reader : TableBatchReader) (names : List String)
    (messages : List (ProbeMessage ν blank pred)) (index : BuildIndex ν blank pred)
    (apart : NullsApart (messages ++ [.build index])) (lossless : Lossless messages)
    (loses : Loses messages index) : ¬Emits multimap reader names (messages ++ [.build index]) := by
  obtain ⟨kernel,received,reflects,marked⟩ := semi_run multimap reader names lossless
  obtain ⟨after,isAfter,next,marks⟩ := semi_build multimap reader reflects index
  have whole : (messages ++ [ProbeMessage.build index]).foldlM
      (HashSemiJoinProbeKernel.receive multimap reader names) HashSemiJoinProbeKernel.make = .ok after := by
    rw [List.foldlM_append,received]
    simp only [List.foldlM_cons,List.foldlM_nil,HashSemiJoinProbeKernel.receive,bind,Except.bind,isAfter]
    rfl
  have fewer := card_lt_of_loses index marked loses
  rw [← marks,← buildRows_build,← probeRows_build messages index] at fewer
  have same : ((buildRows (messages ++ [.build index])).filter fun row =>
      leftMatched (sameKey blank pred) (probeRows (messages ++ [.build index])) row) =
      (buildRows (messages ++ [.build index])).filter fun row =>
        leftMatched pred.holds (probeRows (messages ++ [.build index])) row := by
    apply List.filter_congr
    intro row inLeft
    exact decide_eq_decide.mpr (apart.matched row inLeft)
  rw [same] at fewer
  intro ⟨final,isFinal,rows⟩
  have count := rows.length_eq
  rw [semiJoin,List.length_map] at count
  rcases (finalize_emits next final.bufferedRows).mp
    ⟨final,(run_eq multimap reader whole).symm.trans isFinal,rfl⟩ with
    ⟨bare,_⟩ | ⟨_,_,_,selected,looked,_,emitted⟩
  · rw [bare] at fewer
    simp at fewer
  · have length : selected.length = after.rowMatchIndexes.card := by
      rw [length_lookup looked,Finset.length_sort]
    rw [emitted,List.length_map,length] at count
    omega

/-- After any messages of which none loses a row, each matching row is put out once
exactly when the output can be made; a message that loses one breaks this at once. -/
theorem semi_join_output_iff (multimap : UnorderedMultimap) (reader : TableBatchReader) (names : List String)
    (messages : List (ProbeMessage ν blank pred)) (apart : NullsApart messages) (lossless : Lossless messages) :
    (Emits multimap reader names messages ↔ Ready names messages) ∧
      ∀ index, NullsApart (messages ++ [.build index]) → Loses messages index →
        ¬Emits multimap reader names (messages ++ [.build index]) :=
  ⟨emits_iff_ready multimap reader names messages apart lossless,
    fun index after loses => not_emits_of_loses multimap reader names messages index after lossless loses⟩

end
/-- One index before the probe rows 1 and 2, and one behind them. -/
def twoIndexes (first second : List (Record Nat ["a"])) : List (ProbeMessage Nat 0 onlyColumn) :=
  [.build (indexed ⟨[first]⟩),.probe ⟨[[fun _ => some 1,fun _ => some 2]]⟩,.build (indexed ⟨[second]⟩)]

/-- In the second index the row 2 has position 1, which in the whole table is the row 1
that has just been stored: the row is lost. -/
theorem later_key_lost : NullsApart (twoIndexes [fun _ => some 3] [fun _ => some 1,fun _ => some 2]) ∧
    Ready ["a"] (twoIndexes [fun _ => some 3] [fun _ => some 1,fun _ => some 2]) ∧
    semiJoin ["a"] (twoIndexes [fun _ => some 3] [fun _ => some 1,fun _ => some 2]) = [[some 1],[some 2]] ∧
    ¬Emits .inserted .chunked ["a"] (twoIndexes [fun _ => some 3] [fun _ => some 1,fun _ => some 2]) := by
  have apart : NullsApart (twoIndexes [fun _ => some 3] [fun _ => some 1,fun _ => some 2]) := by
    unfold NullsApart
    decide
  refine ⟨apart,Or.inr ⟨by decide,by decide,Or.inr rfl⟩,rfl,?_⟩
  apply not_emits_of_loses .inserted .chunked ["a"]
    [.build (indexed ⟨[[fun _ => some 3]]⟩),.probe ⟨[[fun _ => some 1,fun _ => some 2]]⟩]
    (indexed ⟨[[fun _ => some 1,fun _ => some 2]]⟩) apart
  · exact (lossless_probe _).mpr ((lossless_build _).mpr ⟨lossless_nil,not_loses _ (Or.inl rfl)⟩)
  · exact ⟨[[1]],[2],[],rfl,by decide,1,rfl,[1],List.mem_cons_self,0,List.mem_cons_self,rfl⟩

/-- The keys of the second index are found at other positions than those stored. -/
theorem later_rows_kept : ∃ final, HashSemiJoinProbeKernel.run .inserted .chunked ["a"]
      (twoIndexes [fun _ => some 1,fun _ => some 3] [fun _ => some 2,fun _ => some 1]) = .ok final ∧
    final.bufferedRows.Perm [[some 1],[some 2],[some 1]] := by
  have lossless : Lossless (twoIndexes [fun _ => some 1,fun _ => some 3] [fun _ => some 2,fun _ => some 1]) := by
    have first := (lossless_build (indexed ⟨[[fun _ => some 1,fun _ => some 3]]⟩)).mpr
      ⟨lossless_nil,not_loses _ (Or.inl rfl)⟩
    have probed := (lossless_probe ⟨[[fun _ => some 1,fun _ => some 2]]⟩).mpr first
    exact (lossless_build _).mpr ⟨probed,not_loses _ (Or.inr (by decide))⟩
  exact (semi_join_output_iff .inserted .chunked ["a"]
    (twoIndexes [fun _ => some 1,fun _ => some 3] [fun _ => some 2,fun _ => some 1])
    (by unfold NullsApart; decide) lossless).1.mpr (Or.inr ⟨by decide,by decide,Or.inr rfl⟩)

end Hermes.Join
