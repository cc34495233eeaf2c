import Hermes.HashJoinOutput
import Hermes.ShuffleRuns
import Hermes.Library.Fallible
import Mathlib.Algebra.Order.BigOperators.Group.List
import Mathlib.Algebra.Order.Group.Nat

/-! A hash join in several instances, as `transformHashJoin` wires it: both sides are shuffled on the key
columns, and each build and probe operator gets what is sent to it in any order and cut. -/
namespace Hermes.Join
open Hermes.Tuple Hermes.Library.ListJoin Hermes.Library.Fallible
open Hermes.Shuffle (ShuffleRun allSent allReceived route)

variable {α ν : Type} {left right : Schema}

def rowOf (schema : Schema) (record : Tuples.Record ν) : Record ν schema :=
  fun c => (record (schema.get c)).head?.bind Prod.snd

def keyTypes (columnNames : List String) (record : Tuples.Record ν) : List (Option Tuples.DataType) :=
  columnNames.map fun columnName => (record (Tuples.canonicalize columnName)).head?.map Prod.fst

theorem get_of_getFieldIndex {schema : Schema} {name : String} {c : Fin schema.length}
    (found : getFieldIndex schema name = some c) : schema.get c = name := by
  unfold getFieldIndex at found
  split at found
  next only same =>
    have inside : only ∈ (List.finRange schema.length).filter fun c => schema.get c == name := by
      rw [same]
      exact List.mem_singleton_self only
    rw [← Option.some.inj found]
    exact beq_iff_eq.mp (List.mem_filter.mp inside).2
  next => cases found

theorem get_fieldIndexes {schema : Schema} {columnNames : List String} {columns : List (Fin schema.length)}
    (resolved : fieldIndexes schema columnNames = .ok columns) : columns.map schema.get = columnNames := by
  have found := mapM_eq_ok.mp resolved
  clear resolved
  induction found with
  | nil => rfl
  | @cons columnName c columnNames columns here _ ih =>
    rw [List.map_cons,ih]
    split at here
    next there =>
      rw [← Except.ok.inj here,get_of_getFieldIndex there]
    next => cases here

theorem heads_eq {cells others : List (Option (Tuples.DataType × Option ν))}
    (types : cells.map (·.map Prod.fst) = others.map (·.map Prod.fst))
    (values : cells.map (·.bind Prod.snd) = others.map (·.bind Prod.snd)) : cells = others := by
  apply List.ext_getElem?
  intro i
  have type := congrArg (·[i]?) types
  have value := congrArg (·[i]?) values
  simp only [List.getElem?_map] at type value
  cases here : cells[i]? with
  | none => simpa [here] using type
  | some cell =>
    cases there : others[i]? with
    | none => simp [here,there] at type
    | some other =>
      rw [here,there] at type value
      have type' := Option.some.inj type
      have value' := Option.some.inj value
      cases cell <;> cases other <;> simp_all [Prod.ext_iff]

theorem map_of_joinKey {schema : Schema} {columns : List (Fin schema.length)} {row : Record ν schema} {key : TupleKey ν}
    (present : joinKey columns row = some key) : columns.map row = key.map some := by
  induction columns generalizing key with
  | nil =>
    rw [← Option.some.inj present]
    rfl
  | cons c columns ih =>
    rw [joinKey,List.mapM_cons] at present
    obtain ⟨value,cell,rest⟩ := Option.bind_eq_some_iff.mp present
    obtain ⟨values,later,same⟩ := Option.bind_eq_some_iff.mp rest
    rw [← Option.some.inj same,List.map_cons,List.map_cons,cell,ih later]

section
variable {l r : Tuples.Record ν}

theorem values_of_joinKey {schema : Schema} {columnNames : List String} {columns : List (Fin schema.length)}
    (resolved : fieldIndexes schema columnNames = .ok columns)
    (canonical : ∀ columnName ∈ columnNames, Tuples.canonicalize columnName = columnName) {key : TupleKey ν}
    (present : joinKey columns (rowOf schema l) = some key) :
    (columnNames.map fun columnName => (l (Tuples.canonicalize columnName)).head?).map (·.bind Prod.snd) =
    key.map some := by
  have plain : (columnNames.map fun columnName => (l (Tuples.canonicalize columnName)).head?) =
      columnNames.map fun columnName => (l columnName).head? := by
    apply List.map_congr_left
    intro columnName inside
    rw [canonical columnName inside]
  rw [← map_of_joinKey present,plain,← get_fieldIndexes resolved,List.map_map,List.map_map]
  rfl

theorem route_eq [DecidableEq ν] {pred : HashJoinPredicate left right} (runtime : Shuffle.Runtime ν)
    (under : Tuples.DataType → ν) (n : Nat)
    (leftNames : ∀ columnName ∈ pred.leftColumnNames, Tuples.canonicalize columnName = columnName)
    (rightNames : ∀ columnName ∈ pred.rightColumnNames, Tuples.canonicalize columnName = columnName)
    (types : keyTypes pred.leftColumnNames l = keyTypes pred.rightColumnNames r)
    (matching : pred.holds (rowOf left l) (rowOf right r) = true) :
    route runtime under pred.leftColumnNames n l = route runtime under pred.rightColumnNames n r := by
  obtain ⟨key,leftFound,rightFound⟩ : ∃ key, joinKey pred.leftColumns (rowOf left l) = some key ∧
      joinKey pred.rightColumns (rowOf right r) = some key := by
    simpa [HashJoinPredicate.holds,Option.any_eq_true] using matching
  have cells : (pred.leftColumnNames.map fun columnName => (l (Tuples.canonicalize columnName)).head?) =
      pred.rightColumnNames.map fun columnName => (r (Tuples.canonicalize columnName)).head? := by
    apply heads_eq
    · rw [List.map_map,List.map_map]
      exact types
    · rw [values_of_joinKey pred.leftResolved leftNames leftFound,
        values_of_joinKey pred.rightResolved rightNames rightFound]
  have hashed : ∀ (columnNames : List String) (record : Tuples.Record ν), Shuffle.hashKey runtime under
      (Shuffle.keyOf columnNames record) =
      Tuples.hashCombine ((columnNames.map fun columnName => (record (Tuples.canonicalize columnName)).head?).filterMap
        fun cell => cell.map fun column => Shuffle.hashSlot runtime column.1
          ⟨column.2.isSome,column.2.getD (under column.1)⟩) := by
    intro columnNames record
    rw [Shuffle.hashKey,Shuffle.keyOf,List.filterMap_map,List.filterMap_map]
    rfl
  rw [route,route,hashed,hashed,cells]

end

section
variable [DecidableEq ν] {blank : ν} {pred : HashJoinPredicate left right}

omit [DecidableEq ν] in
theorem referenceJoin_map (needed : List (NeededColumn left right)) (matching : Record ν left → Record ν right → Bool)
    (isLeft isRight : Bool) {β π : Type} (f : β → Record ν left) (g : π → Record ν right) (build : List β)
    (probe : List π) :
    referenceJoin needed matching isLeft isRight (build.map f) (probe.map g) =
      outerJoin (fun b p => matching (f b) (g p)) (fun b p => outputRow needed (f b) (g p))
        (fun b => outputRow needed (f b) (nullRow right))
        (fun p => outputRow needed (nullRow left) (g p)) isLeft isRight
        build probe := by
  have lefts : ((build.map f).filter fun row => ¬leftMatched matching (probe.map g) row) =
      (build.filter fun b => !probe.any fun p => matching (f b) (g p)).map f := by
    rw [List.filter_map]
    apply congrArg
    apply List.filter_congr
    intro b _
    rw [Bool.eq_iff_iff]
    simp [leftMatched]
  have rights : ((probe.map g).filter fun row => ¬rightMatched matching (build.map f) row) =
      (probe.filter fun p => !build.any fun b => matching (f b) (g p)).map g := by
    rw [List.filter_map]
    apply congrArg
    apply List.filter_congr
    intro p _
    rw [Bool.eq_iff_iff]
    simp [rightMatched]
  rw [referenceJoin,lefts,rights,pairs_map,List.map_map,List.map_map,List.map_map]
  rfl

omit [DecidableEq ν] in
theorem referenceJoin_perm (needed : List (NeededColumn left right)) (matching : Record ν left → Record ν right → Bool)
    (isLeft isRight : Bool) {leftRows lefts : List (Record ν left)} {rightRows rights : List (Record ν right)}
    (sameLeft : leftRows.Perm lefts) (sameRight : rightRows.Perm rights) :
    (referenceJoin needed matching isLeft isRight leftRows rightRows).Perm
      (referenceJoin needed matching isLeft isRight lefts rights) := by
  have same := outerJoin_perm matching (outputRow needed) (fun row => outputRow needed row (nullRow right))
    (outputRow needed (nullRow left)) isLeft isRight sameLeft sameRight
  have plain := referenceJoin_map needed matching isLeft isRight (id : Record ν left → _) (id : Record ν right → _)
  simp only [List.map_id,id] at plain
  rw [plain,plain]
  exact same

theorem run_rows (multimap : UnorderedMultimap) (reader : TableBatchReader) (arguments : HashJoinArguments)
    {messages : List (ProbeMessage ν blank pred)} (nonNull : NonNullKeys messages)
    {final : HashJoinProbeKernel ν blank pred}
    (isFinal : HashJoinProbeKernel.run multimap reader arguments messages = .ok final) :
    final.bufferedRows = [] ∨ final.bufferedRows.Perm (reference pred arguments messages) := by
  by_cases empty : buildTables messages = [] ∨ probeTables messages = []
  · obtain ⟨kernel,isRun,nothing⟩ := run_waiting multimap reader arguments empty
    obtain rfl := Except.ok.inj (isRun.symm.trans isFinal)
    exact .inl nothing
  · rw [not_or] at empty
    rcases run_joined multimap reader arguments nonNull empty.1 empty.2 with ⟨⟨kernel,isRun,rows⟩,_⟩ | ⟨failed,_⟩
    · obtain rfl := Except.ok.inj (isRun.symm.trans isFinal)
      split at rows
      next => exact .inl rows.eq_nil
      next => exact .inr rows
    · rw [failed] at isFinal
      cases isFinal

end

/-- The operators of a hash join in several instances: the shuffles of both sides, the names of the build and of
the probe operators, and what each probe operator gets. -/
structure ParallelHashJoin (α ν : Type) {left right : Schema} (blank : ν) (pred : HashJoinPredicate left right) where
  shuffleLeftPOps : List (ShuffleRun α ν)
  shuffleRightPOps : List (ShuffleRun α ν)
  hashJoinBuildPOps : List String
  hashJoinProbePOps : List String
  messages : Nat → List (ProbeMessage ν blank pred)

namespace ParallelHashJoin
variable {blank : ν} {pred : HashJoinPredicate left right} (plan : ParallelHashJoin α ν blank pred)

def leftRows : List (Record ν left) := (allReceived plan.shuffleLeftPOps).map (rowOf left)

def rightRows : List (Record ν right) := (allReceived plan.shuffleRightPOps).map (rowOf right)

/-- The instances get what the shuffles send to them, in any order and cut, and the key columns of the two
sides are of the same types and without a null. -/
structure Wired (runtime : Shuffle.Runtime ν) (under : Tuples.DataType → ν)
    (leftFields rightFields : List Tuples.Field) : Prop where
  instances : plan.hashJoinBuildPOps ≠ []
  paired : plan.hashJoinProbePOps.length = plan.hashJoinBuildPOps.length
  lefts : ∀ run ∈ plan.shuffleLeftPOps, run.Distributes under pred.leftColumnNames plan.hashJoinBuildPOps leftFields
  rights : ∀ run ∈ plan.shuffleRightPOps, run.Distributes under pred.rightColumnNames plan.hashJoinProbePOps rightFields
  built : ∀ (k : Nat) name, plan.hashJoinBuildPOps[k]? = some name →
    (buildRows (plan.messages k)).Perm ((allSent runtime plan.shuffleLeftPOps name).map (rowOf left))
  probed : ∀ (k : Nat) name, plan.hashJoinProbePOps[k]? = some name →
    (probeRows (plan.messages k)).Perm ((allSent runtime plan.shuffleRightPOps name).map (rowOf right))
  leftNames : ∀ columnName ∈ pred.leftColumnNames, Tuples.canonicalize columnName = columnName
  rightNames : ∀ columnName ∈ pred.rightColumnNames, Tuples.canonicalize columnName = columnName
  types : ∀ l ∈ allReceived plan.shuffleLeftPOps, ∀ r ∈ allReceived plan.shuffleRightPOps,
    keyTypes pred.leftColumnNames l = keyTypes pred.rightColumnNames r
  leftKeys : ∀ row ∈ plan.leftRows, (joinKey pred.leftColumns row).isSome
  rightKeys : ∀ row ∈ plan.rightRows, (joinKey pred.rightColumns row).isSome

variable {plan} {runtime : Shuffle.Runtime ν} {under : Tuples.DataType → ν} {leftFields rightFields : List Tuples.Field}

theorem Wired.rows (wired : plan.Wired runtime under leftFields rightFields) {k : Nat}
    (bound : k < plan.hashJoinBuildPOps.length) :
    (buildRows (plan.messages k)).Perm (((allReceived plan.shuffleLeftPOps).filter fun record =>
        route runtime under pred.leftColumnNames plan.hashJoinBuildPOps.length record == k).map (rowOf left)) ∧
      (probeRows (plan.messages k)).Perm (((allReceived plan.shuffleRightPOps).filter fun record =>
        route runtime under pred.rightColumnNames plan.hashJoinBuildPOps.length record == k).map (rowOf right)) := by
  have build := List.getElem?_eq_getElem bound
  have probe := List.getElem?_eq_getElem (wired.paired ▸ bound : k < plan.hashJoinProbePOps.length)
  have lefts := wired.built k _ build
  have rights := wired.probed k _ probe
  rw [Shuffle.allSent_eq wired.lefts runtime build] at lefts
  rw [Shuffle.allSent_eq wired.rights runtime probe,wired.paired] at rights
  exact ⟨lefts,rights⟩

theorem Wired.nonNull (wired : plan.Wired runtime under leftFields rightFields) {k : Nat}
    (bound : k < plan.hashJoinBuildPOps.length) : NonNullKeys (plan.messages k) := by
  obtain ⟨lefts,rights⟩ := wired.rows bound
  constructor
  · intro row inside
    exact wired.leftKeys row ((List.filter_sublist.map (rowOf left)).mem (lefts.mem_iff.mp inside))
  · intro row inside
    exact wired.rightKeys row ((List.filter_sublist.map (rowOf right)).mem (rights.mem_iff.mp inside))

variable [DecidableEq ν]

theorem Wired.references (wired : plan.Wired runtime under leftFields rightFields) (arguments : HashJoinArguments) :
    ((List.range plan.hashJoinBuildPOps.length).flatMap fun k => reference pred arguments (plan.messages k)).Perm
      (referenceJoin (neededColumnIndice left right arguments.neededColumnNames) pred.holds arguments.isLeft arguments.isRight
        plan.leftRows plan.rightRows) := by
  have parts := outerJoin_parts (fun l r => pred.holds (rowOf left l) (rowOf right r))
    (fun l r => outputRow (neededColumnIndice left right arguments.neededColumnNames) (rowOf left l) (rowOf right r))
    (fun l => outputRow (neededColumnIndice left right arguments.neededColumnNames) (rowOf left l) (nullRow right))
    (fun r => outputRow (neededColumnIndice left right arguments.neededColumnNames) (nullRow left) (rowOf right r))
    arguments.isLeft arguments.isRight
    (fun l inL r inR matched => route_eq runtime under plan.hashJoinBuildPOps.length wired.leftNames wired.rightNames
      (wired.types l inL r inR) matched)
    (fun l _ => Shuffle.route_lt runtime under pred.leftColumnNames wired.instances l)
    (fun r _ => Shuffle.route_lt runtime under pred.rightColumnNames wired.instances r)
  rw [leftRows,rightRows,referenceJoin_map]
  refine List.Perm.trans (List.Perm.flatMap_left _ ?_) parts
  intro k inside
  obtain ⟨lefts,rights⟩ := wired.rows (List.mem_range.mp inside)
  rw [← referenceJoin_map]
  exact referenceJoin_perm _ _ _ _ lefts rights

/-- An instance comes to its end, with the join of what it got. -/
def Joins (multimap : UnorderedMultimap) (reader : TableBatchReader) (arguments : HashJoinArguments)
    (messages : List (ProbeMessage ν blank pred)) : Prop :=
  ∃ final, HashJoinProbeKernel.run multimap reader arguments messages = .ok final ∧
    final.bufferedRows.Perm (reference pred arguments messages)

/-- All instances come to their end, with the join of all that the shuffles got. -/
def JoinsAll (multimap : UnorderedMultimap) (reader : TableBatchReader) (arguments : HashJoinArguments)
    (plan : ParallelHashJoin α ν blank pred) : Prop :=
  ∃ finals : Nat → HashJoinProbeKernel ν blank pred,
    (∀ k < plan.hashJoinBuildPOps.length, HashJoinProbeKernel.run multimap reader arguments
      (plan.messages k) = .ok (finals k)) ∧
    ((List.range plan.hashJoinBuildPOps.length).flatMap fun k => (finals k).bufferedRows).Perm
      (referenceJoin (neededColumnIndice left right arguments.neededColumnNames) pred.holds arguments.isLeft arguments.isRight
        plan.leftRows plan.rightRows)

theorem joinsAll_of_joins (multimap : UnorderedMultimap) (reader : TableBatchReader) (arguments : HashJoinArguments)
    (wired : plan.Wired runtime under leftFields rightFields)
    (each : ∀ k < plan.hashJoinBuildPOps.length, Joins multimap reader arguments (plan.messages k)) :
    JoinsAll multimap reader arguments plan := by
  have : Nonempty (HashJoinProbeKernel ν blank pred) := ⟨HashJoinProbeKernel.make⟩
  choose! finals ran rows using each
  refine ⟨finals,ran,List.Perm.trans (List.Perm.flatMap_left _ ?_) (wired.references arguments)⟩
  exact fun k inside => rows k (List.mem_range.mp inside)

theorem joins_of_joinsAll {multimap : UnorderedMultimap} {reader : TableBatchReader} {arguments : HashJoinArguments}
    (wired : plan.Wired runtime under leftFields rightFields) (all : JoinsAll multimap reader arguments plan) :
    ∀ k < plan.hashJoinBuildPOps.length, Joins multimap reader arguments (plan.messages k) := by
  obtain ⟨finals,ran,rows⟩ := all
  have either : ∀ k < plan.hashJoinBuildPOps.length, (finals k).bufferedRows = [] ∨
      (finals k).bufferedRows.Perm (reference pred arguments (plan.messages k)) := fun k bound =>
    run_rows multimap reader arguments (wired.nonNull bound) (ran k bound)
  have sizes := (rows.trans (wired.references arguments).symm).length_eq
  rw [List.length_flatMap,List.length_flatMap] at sizes
  have fewer : ∀ k ∈ List.range plan.hashJoinBuildPOps.length,
      (finals k).bufferedRows.length ≤ (reference pred arguments (plan.messages k)).length := by
    intro k inside
    rcases either k (List.mem_range.mp inside) with nothing | same
    · rw [nothing]
      exact Nat.zero_le _
    · exact same.length_eq.le
  intro k bound
  have equal : (finals k).bufferedRows.length = (reference pred arguments (plan.messages k)).length := by
    refine Nat.le_antisymm (fewer k (List.mem_range.mpr bound)) (Nat.le_of_not_lt fun less => ?_)
    exact Nat.ne_of_lt (List.sum_lt_sum _ _ fewer ⟨k,List.mem_range.mpr bound,less⟩) sizes
  refine ⟨finals k,ran k bound,?_⟩
  rcases either k bound with nothing | same
  · rw [nothing,List.length_nil] at equal
    rw [nothing,List.length_eq_zero_iff.mp equal.symm]
  · exact same

/-- The instances together put out the join of what the shuffles got exactly when each puts out the join of its own part,
and each does that has got tuple sets with chunks from both sides. -/
theorem parallel_hash_join (multimap : UnorderedMultimap) (reader : TableBatchReader) (arguments : HashJoinArguments)
    (wired : plan.Wired runtime under leftFields rightFields) :
    (JoinsAll multimap reader arguments plan ↔
      ∀ k < plan.hashJoinBuildPOps.length, Joins multimap reader arguments (plan.messages k)) ∧
    (neededColumnIndice left right arguments.neededColumnNames ≠ [] → ∀ k < plan.hashJoinBuildPOps.length,
      buildTables (plan.messages k) ≠ [] → probeTables (plan.messages k) ≠ [] →
      ¬Chunkless (buildTables (plan.messages k)) →
        ¬Chunkless (probeTables (plan.messages k)) → Joins multimap reader arguments (plan.messages k)) := by
  refine ⟨⟨joins_of_joinsAll wired,joinsAll_of_joins multimap reader arguments wired⟩,?_⟩
  intro columns k bound build probe buildChunk probeChunk
  rcases run_joined multimap reader arguments (wired.nonNull bound) build probe with ⟨⟨final,ran,rows⟩,_⟩ | ⟨_,bare⟩
  · rw [if_neg columns] at rows
    exact ⟨final,ran,rows⟩
  · rcases bare with ⟨_,_,bare⟩ | ⟨_,_,bare⟩
    · exact absurd bare buildChunk
    · exact absurd bare probeChunk

end ParallelHashJoin

section Examples
open Hermes.Tuples (column)

def shuffledColumn (columnName : String) (consumers : List String) (values : List Int) : ShuffleRun Unit Int :=
  ⟨Shuffle.shuffleBetween [columnName] ["scan"] consumers,(· ∈ ["scan"]),
    [.content "scan" (some (column columnName values)),.complete "scan"]⟩

theorem shuffledColumn_distributes {columnName : String} (canonical : Tuples.canonicalize columnName = columnName)
    {consumers : List String} (distinct : consumers.Nodup) (disjoint : ∀ name ∈ consumers, name ∉ ["scan"])
    (values : List Int) :
    (shuffledColumn columnName consumers values).Distributes (fun _ => 0)
    [columnName] consumers [⟨columnName,.int64⟩] where
  fresh := Shuffle.shuffleBetween_started _ (List.cons_ne_nil _ _) (List.nodup_singleton _) distinct disjoint
  hashes := rfl
  feeds := rfl
  produced := ⟨by simp [shuffledColumn,Operators.Waiting.sender],by simp [shuffledColumn,Operators.Waiting.sender]⟩
  acceptable := by
    intro sender tupleSet inside
    simp only [shuffledColumn,List.mem_cons,List.not_mem_nil,or_false,Operators.Waiting.content.injEq,
      reduceCtorEq] at inside
    obtain ⟨_,rfl⟩ := inside
    refine ⟨_,rfl,.inl rfl,.inr ⟨?_,by simp [column,Tuples.appendable],by simp [column]⟩⟩
    intro name asked
    refine ⟨0,⟨columnName,.int64⟩,?_,rfl,rfl,?_⟩
    · rw [List.mem_singleton.mp asked,canonical]
      exact @Tuples.getFieldIndex_of_unique [⟨columnName,.int64⟩] (List.nodup_singleton columnName) 0 Nat.zero_lt_one
    · intro row inside slot here null
      obtain ⟨value,_,rfl⟩ := List.mem_map.mp inside
      rw [← Option.some.inj here] at null
      cases null
  finished := by
    intro producer known
    rw [List.mem_singleton.mp known]
    simp [shuffledColumn]

theorem allReceived_column (columnName : String) (consumers : List String) (values : List Int) :
    allReceived [shuffledColumn columnName consumers values] =
      values.map fun value => Tuples.recordOf [⟨columnName,.int64⟩] [⟨true,value⟩] := by
  simp [allReceived,Shuffle.received,Shuffle.records,shuffledColumn,Tuples.Table.records,column]

theorem record_column (columnName : String) (value : Int) :
    Tuples.recordOf [⟨columnName,.int64⟩] [⟨true,value⟩] columnName = [(.int64,some value)] := by
  simp [Tuples.recordOf,Tuples.Slot.value]

/-- `a = b` in two instances on three rows each. -/
def twoInstances : ParallelHashJoin Unit Int 0 onlyColumn :=
  let lefts := shuffledColumn "a" ["build0","build1"] [1,2,3]
  let rights := shuffledColumn "b" ["probe0","probe1"] [2,3,4]
  let leftRows (k : Nat) := (["build0","build1"][k]?.elim [] (allSent Shuffle.intRuntime [lefts])).map (rowOf ["a"])
  let rightRows (k : Nat) := (["probe0","probe1"][k]?.elim [] (allSent Shuffle.intRuntime [rights])).map (rowOf ["b"])
  ⟨[lefts],[rights],["build0","build1"],["probe0","probe1"],fun k =>
    [.build ⟨onlyColumn.leftColumns,.ofRows (leftRows k),
        ((TupleSet.ofRows (leftRows k)).rows.map (makeKey 0 onlyColumn.leftColumns)).zipIdx,onlyColumn.leftResolved,.refl _⟩,
      .probe (.ofRows (rightRows k))]⟩

theorem canonical_columns : Tuples.canonicalize "a" = "a" ∧ Tuples.canonicalize "b" = "b" := by decide

theorem twoInstances_wired : twoInstances.Wired Shuffle.intRuntime (fun _ => 0) [⟨"a",.int64⟩] [⟨"b",.int64⟩] where
  instances := List.cons_ne_nil _ _
  paired := rfl
  lefts := List.forall_mem_singleton.mpr (shuffledColumn_distributes canonical_columns.1 (by decide) (by decide) _)
  rights := List.forall_mem_singleton.mpr (shuffledColumn_distributes canonical_columns.2 (by decide) (by decide) _)
  built k name here := by
    have rows : buildRows (twoInstances.messages k) =
        (["build0","build1"][k]?.elim [] (allSent Shuffle.intRuntime twoInstances.shuffleLeftPOps)).map
          (rowOf ["a"]) := by
      simp [buildRows,buildTables,twoInstances,rowsOf]
    change ["build0","build1"][k]? = some name at here
    rw [rows,here]
    exact .refl _
  probed k name here := by
    have rows : probeRows (twoInstances.messages k) =
        (["probe0","probe1"][k]?.elim [] (allSent Shuffle.intRuntime twoInstances.shuffleRightPOps)).map
          (rowOf ["b"]) := by
      simp [probeRows,probeTables,twoInstances,rowsOf]
    change ["probe0","probe1"][k]? = some name at here
    rw [rows,here]
    exact .refl _
  leftNames := List.forall_mem_singleton.mpr canonical_columns.1
  rightNames := List.forall_mem_singleton.mpr canonical_columns.2
  types := by
    change ∀ l ∈ allReceived [_],∀ r ∈ allReceived [_],_
    simp only [allReceived_column,List.forall_mem_map]
    intro _ _ _ _
    simp only [keyTypes,onlyColumn,List.map_singleton,canonical_columns.1,canonical_columns.2,record_column,
      List.head?_cons,
      Option.map_some]
  leftKeys := by
    change ∀ row ∈ (allReceived [_]).map (rowOf ["a"]),_
    simp only [allReceived_column,List.forall_mem_map]
    intro value _
    have cell : rowOf ["a"] (Tuples.recordOf [⟨"a",.int64⟩] [⟨true,value⟩]) 0 = some value := by
      rw [rowOf]
      exact congrArg (·.head?.bind Prod.snd) (record_column "a" value)
    simp [joinKey,onlyColumn,cell]
  rightKeys := by
    change ∀ row ∈ (allReceived [_]).map (rowOf ["b"]),_
    simp only [allReceived_column,List.forall_mem_map]
    intro value _
    have cell : rowOf ["b"] (Tuples.recordOf [⟨"b",.int64⟩] [⟨true,value⟩]) 0 = some value := by
      rw [rowOf]
      exact congrArg (·.head?.bind Prod.snd) (record_column "b" value)
    simp [joinKey,onlyColumn,cell]

theorem twoInstances_join : ParallelHashJoin.JoinsAll .inserted .chunked ⟨["a","b"],true,true⟩ twoInstances := by
  obtain ⟨exactly,each⟩ := ParallelHashJoin.parallel_hash_join .inserted .chunked ⟨["a",
    "b"],true,true⟩ twoInstances_wired
  refine exactly.mpr fun k bound => each (by decide) k bound ?_ ?_ ?_ ?_
  all_goals simp [twoInstances,buildTables,probeTables,Chunkless,TupleSet.ofRows]

end Examples
end Hermes.Join
