import Hermes.AggregateFunction
import Hermes.GroupColumns
import Mathlib.Data.List.Perm.Basic

/-! What a grouping gives: one row for each key of the rows of all tuple sets together. -/
namespace Hermes.Group
open Hermes.Tuples Hermes.Library Hermes.Library.Fallible
variable {ν : Type} [DecidableEq ν]

section
variable (groupColumnNames : List String) (aggregateFunctions : List (AggregateFunction ν)) (fields : List Field)

/-- The row of a key: the key, and each aggregate function of exactly its records. -/
def rowOf (all : List (Record ν)) (key : List (List (DataType × Option ν))) : Except String (List (Option ν)) :=
  match aggregateFunctions.mapM fun function =>
      aggregate fields function (all.filter fun record => keyOf groupColumnNames record = key) with
  | .error error => .error error
  | .ok results => .ok (key.map cellValue ++ results.map Scalar.value)

/-- All pieces are accepted, and the result has one row for each distinct key. -/
def GroupsBy (runtime : Runtime ν) (pieces : List (Table ν)) : Prop :=
  ∃ columns rows, ∃ answer : List (List (Option ν)),
    GroupKernel.groupAll runtime (.make groupColumnNames aggregateFunctions) (pieces.map some) = .ok columns ∧
    (((records pieces).map (keyOf groupColumnNames)).dedup.mapM
      (rowOf groupColumnNames aggregateFunctions fields (records pieces))) = .ok rows ∧
    answer.Perm rows ∧
    columns.map ColumnBuilder.name =
      groupColumnNames.map canonicalize ++ aggregateFunctions.map AggregateFunction.outputColumnName ∧
    columns.map ColumnBuilder.values = (List.range (groupColumnNames.length+aggregateFunctions.length)).map fun c =>
      answer.map fun row => row[c]?.join

/-- When it comes out so. Whatever there are no rows for is not asked. -/
structure HoldsWhen (runtime : Runtime ν) (pieces : List (Table ν)) : Prop where
  piece : pieces ≠ []
  canonical : 2 ≤ pieces.length → canonicalSchema fields = fields
  groupColumns : ∀ columnName ∈ groupColumnNames,
    (getFieldIndex (canonicalSchema fields) (canonicalize columnName)).isSome
  aggregateColumns : ∀ function ∈ aggregateFunctions, ∀ columnName ∈ function.columnNames,
    (getFieldIndex (canonicalSchema fields) columnName).isSome
  spelled : ∀ function ∈ aggregateFunctions, function.compiled = true ∨ records pieces ≠ [] →
    ∀ columnName ∈ function.columnNames, ∃ field ∈ fields, field.name = columnName
  someColumn : aggregateFunctions ≠ [] → fields ≠ []
  keyTypes : records pieces ≠ [] → ∀ columnName ∈ groupColumnNames, ∀ field ∈ fields,
    canonicalize field.name = canonicalize columnName → keyable field.type = true ∧ buildable field.type = true
  appenders : records pieces ≠ [] → ∀ function ∈ aggregateFunctions, ∀ columnName ∈ function.columnNames,
    ∀ field ∈ fields,
    canonicalize field.name = columnName → appendable field.type = true
  firstColumn : records pieces ≠ [] → aggregateFunctions ≠ [] →
    (∀ function ∈ aggregateFunctions, function.columnNames = []) → ∀ field ∈ fields.head?, appendable field.type = true
  keys : ∀ record ∈ records pieces, ∀ cell ∈ keyOf groupColumnNames record, ∃ type value, cell = [(type,some value)] ∧
    (runtime.isNaN type value = true → aggregateFunctions = [] ∧
      ((records pieces).filter fun other => keyOf groupColumnNames other = keyOf groupColumnNames record).length = 1)
  results : ∀ record ∈ records pieces, ∀ function ∈ aggregateFunctions, ∃ type value,
    aggregate fields function ((records pieces).filter fun other =>
      keyOf groupColumnNames other = keyOf groupColumnNames record) = .ok ⟨type,some value⟩ ∧
      type = function.returnType (AggregateFunction.types (canonicalSchema fields) function.columnNames) ∧
        buildable type = true

end

section
variable {runtime : Runtime ν} {fields : List Field} {groupColumnNames : List String}
  {aggregateFunctions : List (AggregateFunction ν)}

theorem computeGroup_ok {schema : List Field} {groupKey : TupleKey ν} {rows : List (List (Option ν))}
    {results : List (Scalar ν)} :
    GroupKernel.computeGroup runtime schema groupKey rows aggregateFunctions = .ok results ↔
      List.Forall₂ (fun function result => function.computeComplete schema rows = .ok result) aggregateFunctions results ∧
        (aggregateFunctions ≠ [] → TupleKey.equals runtime groupKey groupKey = true) := by
  induction aggregateFunctions generalizing results with
  | nil =>
    rw [List.forall₂_nil_left_iff]
    exact ⟨fun same => ⟨(Except.ok.inj same).symm,fun wrong => absurd rfl wrong⟩,fun both => congrArg _ both.1.symm⟩
  | cons function functions ih =>
    rw [GroupKernel.computeGroup,List.forall₂_cons_left_iff]
    cases here : function.computeComplete schema rows with
    | error failure =>
      refine iff_of_false (by intro wrong; cases wrong) ?_
      rintro ⟨⟨_,_,wrong,_⟩,_⟩
      cases wrong
    | ok result =>
      dsimp only
      split
      next found =>
        cases later : GroupKernel.computeGroup runtime schema groupKey rows functions with
        | error failure =>
          refine iff_of_false (by intro wrong; cases wrong) ?_
          rintro ⟨⟨_,_,_,rest,_⟩,_⟩
          have wrong := ih.mpr ⟨rest,fun _ => found⟩
          rw [later] at wrong
          cases wrong
        | ok more =>
          obtain ⟨rest,_⟩ := ih.mp later
          constructor
          · intro same
            exact ⟨⟨result,more,rfl,rest,(Except.ok.inj same).symm⟩,fun _ => found⟩
          · rintro ⟨⟨_,other,same,rest',rfl⟩,_⟩
            have equal := ih.mpr ⟨rest',fun _ => found⟩
            rw [later] at equal
            rw [← Except.ok.inj same,← Except.ok.inj equal]
      next odd =>
        refine iff_of_false (by intro wrong; cases wrong) ?_
        rintro ⟨_,wrong⟩
        exact odd (wrong (List.cons_ne_nil _ _))

/-- The aggregate results of a group. -/
def Computed (runtime : Runtime ν) (schema : List Field) (aggregateFunctions : List (AggregateFunction ν))
    (group : TupleKey ν × List (List (Option ν))) (result : TupleKey ν × List (Scalar ν)) : Prop :=
  result.1 = group.1 ∧
    List.Forall₂ (fun function scalar => function.computeComplete schema group.2 = .ok scalar) aggregateFunctions result.2 ∧
    (aggregateFunctions ≠ [] → TupleKey.equals runtime group.1 group.1 = true)

theorem computeGroupAggregates_ok {kernel : GroupKernel ν} {schema : List Field}
    {groups : List (TupleKey ν × List (List (Option ν)))} {results : List (TupleKey ν × List (Scalar ν))} :
    GroupKernel.computeGroupAggregates runtime kernel schema groups = .ok results ↔
      List.Forall₂ (Computed runtime schema kernel.aggregateFunctions) groups results := by
  induction groups generalizing results with
  | nil =>
    rw [List.forall₂_nil_left_iff]
    exact ⟨fun same => (Except.ok.inj same).symm,fun same => congrArg _ same.symm⟩
  | cons group groups ih =>
    rw [GroupKernel.computeGroupAggregates,List.forall₂_cons_left_iff]
    cases here : GroupKernel.computeGroup runtime schema group.1 group.2 kernel.aggregateFunctions with
    | error failure =>
      refine iff_of_false (by intro wrong; cases wrong) ?_
      rintro ⟨_,_,⟨_,computed⟩,_⟩
      have wrong := computeGroup_ok.mpr computed
      rw [here] at wrong
      cases wrong
    | ok scalars =>
      dsimp only
      cases later : GroupKernel.computeGroupAggregates runtime kernel schema groups with
      | error failure =>
        refine iff_of_false (by intro wrong; cases wrong) ?_
        rintro ⟨_,_,_,rest,_⟩
        have wrong := ih.mpr rest
        rw [later] at wrong
        cases wrong
      | ok more =>
        constructor
        · intro same
          exact ⟨_,_,⟨rfl,computeGroup_ok.mp here⟩,ih.mp later,(Except.ok.inj same).symm⟩
        · rintro ⟨⟨key,scalars'⟩,_,⟨same,computed⟩,rest,rfl⟩
          have equal := computeGroup_ok.mpr computed
          have equal' := ih.mpr rest
          rw [here] at equal
          rw [later] at equal'
          obtain rfl : key = group.1 := same
          rw [Except.ok.inj equal,Except.ok.inj equal']

def scalarsOf (result : TupleKey ν × List (Scalar ν)) : List (Scalar ν) := GroupKernel.getScalars result.1 ++ result.2

theorem finalise_ok {groups : List (TupleKey ν × List (List (Option ν)))} (some : groups ≠ [])
    {columns : List (ColumnBuilder ν)} :
    (cached fields groupColumnNames aggregateFunctions groups).finalise runtime = .ok columns ↔
      ∃ results, List.Forall₂ (Computed runtime (aggregateFields fields aggregateFunctions) aggregateFunctions)
          (runtime.iterate groups) results ∧
        (∀ result ∈ runtime.iterate results, Fits (builders fields groupColumnNames aggregateFunctions) (scalarsOf result)) ∧
        columns = appended runtime (builders fields groupColumnNames aggregateFunctions)
          ((runtime.iterate results).map scalarsOf) := by
  have computed : ∀ results, GroupKernel.computeGroupAggregates runtime
      (cached fields groupColumnNames aggregateFunctions groups)
      (aggregateFields fields aggregateFunctions) (runtime.iterate groups) = .ok results ↔
        List.Forall₂ (Computed runtime (aggregateFields fields aggregateFunctions) aggregateFunctions)
          (runtime.iterate groups) results := fun results => computeGroupAggregates_ok
  have appends : ∀ results : List (TupleKey ν × List (Scalar ν)), results.foldlM (fun builders result =>
      GroupKernel.appendRow runtime builders (GroupKernel.getScalars result.1 ++ result.2))
        (builders fields groupColumnNames aggregateFunctions) = .ok columns ↔
      (∀ result ∈ results, Fits (builders fields groupColumnNames aggregateFunctions) (scalarsOf result)) ∧
        columns = appended runtime (builders fields groupColumnNames aggregateFunctions) (results.map scalarsOf) := by
    intro results
    have rows : (results.map scalarsOf).foldlM (GroupKernel.appendRow runtime)
        (builders fields groupColumnNames aggregateFunctions) = .ok columns ↔ _ := appendRows_ok runtime
    rw [List.foldlM_map,List.forall_mem_map] at rows
    exact rows
  have nonempty : groups.isEmpty = false := by simpa using some
  have stored : (cached fields groupColumnNames aggregateFunctions groups).groupArrayAppenderVectorMap = groups := rfl
  rw [GroupKernel.finalise,stored,nonempty,if_neg Bool.false_ne_true,
    show (cached fields groupColumnNames aggregateFunctions groups).inputSchema =
      .some (canonicalSchema fields) from rfl,
    show (cached fields groupColumnNames aggregateFunctions groups).aggregateInputSchema =
      .some (aggregateFields fields aggregateFunctions) from rfl]
  dsimp only
  cases made : GroupKernel.computeGroupAggregates runtime (cached fields groupColumnNames aggregateFunctions groups)
      (aggregateFields fields aggregateFunctions) (runtime.iterate groups) with
  | error failure =>
    refine iff_of_false (by intro wrong; cases wrong) ?_
    rintro ⟨results,all,_⟩
    have wrong := (computed results).mpr all
    rw [made] at wrong
    cases wrong
  | ok results =>
    refine ⟨fun done => ⟨results,(computed results).mp made,(appends _).mp done⟩,?_⟩
    rintro ⟨other,all,done⟩
    have same := (computed other).mpr all
    rw [made] at same
    obtain rfl := Except.ok.inj same
    exact (appends _).mpr done

theorem filter_keys {rows : List (List (Slot ν))}
    (cells : ∀ row ∈ rows, keyOf groupColumnNames (recordOf (canonicalSchema fields) row) =
      cellsOf (rawKey fields groupColumnNames row)) (key : TupleKey ν) :
    (rows.map (recordOf (canonicalSchema fields))).filter (fun record => keyOf groupColumnNames record = cellsOf key) =
      (rows.filter fun row => rawKey fields groupColumnNames row = key).map (recordOf (canonicalSchema fields)) := by
  rw [List.filter_map]
  apply congrArg
  apply List.filter_congr
  intro row there
  rw [Function.comp_apply,cells row there]
  simp [cellsOf_injective.eq_iff]

theorem computeComplete_group (ready : Ready fields groupColumnNames aggregateFunctions) {rows : List (List (Slot ν))}
    (shaped : ∀ row ∈ rows, row.length = fields.length)
    (cells : ∀ row ∈ rows, keyOf groupColumnNames (recordOf (canonicalSchema fields) row) =
      cellsOf (rawKey fields groupColumnNames row))
    {group : TupleKey ν × List (List (Option ν))}
    (inside : group ∈ groupsOf runtime fields groupColumnNames aggregateFunctions [] rows)
    (ordinary : TupleKey.equals runtime group.1 group.1 = true) {function : AggregateFunction ν}
    (member : function ∈ aggregateFunctions) {scalar : Scalar ν} :
    function.computeComplete (aggregateFields fields aggregateFunctions) group.2 = .ok scalar ↔
      (∀ columnName ∈ function.columnNames, ∃ field ∈ fields, field.name = columnName) ∧
        aggregate fields function ((rows.map (recordOf (canonicalSchema fields))).filter fun record =>
          keyOf groupColumnNames record = cellsOf group.1) = .ok scalar := by
  have values := (gathered runtime ready shaped).values group inside ordinary
  have own : group.2 = (rows.filter fun row => rawKey fields groupColumnNames row = group.1).map
      (stored fields aggregateFunctions) := by
    rw [values,List.filter_map,List.map_map]
    rfl
  rw [own,filter_keys cells,computeComplete_ok ready member]
  intro row there
  exact shaped row (List.mem_filter.mp there).1

theorem group_computed {pieces : List (Table ν)} (same : ∀ piece ∈ pieces, piece.fields = fields)
    (holds : HoldsWhen groupColumnNames aggregateFunctions fields runtime pieces)
    (ready : Ready fields groupColumnNames aggregateFunctions)
    (cells : ∀ row ∈ pieces.flatMap Table.rows, keyOf groupColumnNames (recordOf (canonicalSchema fields) row) =
      cellsOf (rawKey fields groupColumnNames row))
    {group : TupleKey ν × List (List (Option ν))}
    (inside : group ∈ groupsOf runtime fields groupColumnNames aggregateFunctions [] (pieces.flatMap Table.rows)) :
    ∃ result, Computed runtime (aggregateFields fields aggregateFunctions) aggregateFunctions group result ∧
      Fits (builders fields groupColumnNames aggregateFunctions) (scalarsOf result) ∧
      (∀ scalar ∈ scalarsOf result, given runtime scalar = [scalar.value]) ∧
      (scalarsOf result).length = groupColumnNames.length+aggregateFunctions.length ∧
      rowOf groupColumnNames aggregateFunctions fields (records pieces) (cellsOf group.1) =
        .ok ((scalarsOf result).map Scalar.value) := by
  have shaped := shaped_pieces same
  have all := records_eq same
  have groups := gathered runtime ready shaped
  obtain ⟨row,there,key⟩ : ∃ row ∈ pieces.flatMap Table.rows, rawKey fields groupColumnNames row = group.1 := by
    have covered := (groups.covers group.1).mp (List.mem_map_of_mem inside)
    simpa using covered
  have record : recordOf (canonicalSchema fields) row ∈ records pieces := by
    rw [all]
    exact List.mem_map_of_mem there
  have own := cells row there
  rw [key] at own
  have some : records pieces ≠ [] := List.ne_nil_of_mem record
  have ordinary : aggregateFunctions ≠ [] → TupleKey.equals runtime group.1 group.1 = true := by
    intro functions
    rw [equals_self]
    intro element member
    have cell : [(element.1,Option.some element.2)] ∈ keyOf groupColumnNames
        (recordOf (canonicalSchema fields) row) := by
      rw [own]
      exact List.mem_map_of_mem member
    obtain ⟨type,value,equal,single⟩ := holds.keys _ record _ cell
    simp only [List.cons.injEq,Prod.mk.injEq,Option.some.injEq,and_true] at equal
    rw [equal.1,equal.2]
    by_contra odd
    exact functions (single (by simpa using odd)).1
  obtain ⟨scalars,results⟩ : ∃ scalars : List (Scalar ν), List.Forall₂ (fun function scalar =>
      function.computeComplete (aggregateFields fields aggregateFunctions) group.2 = .ok scalar ∧
      aggregate fields function ((records pieces).filter fun record => keyOf groupColumnNames record = cellsOf group.1) = .ok scalar ∧
      given runtime scalar = [scalar.value] ∧
      scalar.type = function.returnType (AggregateFunction.types
        (aggregateFields fields aggregateFunctions) function.columnNames))
      aggregateFunctions scalars := by
    apply exists_forall₂
    intro function member
    obtain ⟨type,value,result,typed,can⟩ := holds.results _ record function member
    rw [own] at result
    have spelled := holds.spelled function member (.inr some)
    refine ⟨⟨type,Option.some value⟩,?_,result,?_,?_⟩
    · rw [computeComplete_group ready shaped cells inside (ordinary (List.ne_nil_of_mem member)) member]
      rw [all] at result
      exact ⟨spelled,result⟩
    · rw [given,if_pos can]
      rfl
    · rw [types_eq ready member spelled]
      exact typed
  have width : group.1.length = groupColumnNames.length := by rw [← key,rawKey_length ready (shaped row there)]
  refine ⟨(group.1,scalars),⟨rfl,results.imp fun _ _ holds => holds.1,ordinary⟩,?_,?_,?_,?_⟩
  · intro c builder scalar here there' can
    rw [scalarsOf] at there'
    by_cases left : c < groupColumnNames.length
    · obtain ⟨field,_,_,builder',reads⟩ := key_column ready (List.getElem?_eq_getElem left)
      obtain ⟨slot,element,_⟩ := reads row (shaped row there)
      rw [builder'] at here
      rw [key] at element
      rw [List.getElem?_append_left (by simpa [GroupKernel.getScalars,width] using left),GroupKernel.getScalars,
        List.getElem?_map,element] at there'
      rw [← Option.some.inj here,← Option.some.inj there']
    · obtain ⟨i,rfl⟩ := Nat.exists_eq_add_of_le (Nat.le_of_not_lt left)
      rw [List.getElem?_append_right (by simp [GroupKernel.getScalars,width]),GroupKernel.getScalars,
        List.length_map,width,
        Nat.add_sub_cancel_left] at there'
      obtain ⟨bound,scalar'⟩ := List.getElem?_eq_some_iff.mp there'
      have bound' : i < aggregateFunctions.length := by rw [results.length_eq]; exact bound
      have related := results.get bound' bound
      rw [function_column ready (List.getElem?_eq_getElem bound')] at here
      rw [← Option.some.inj here,← scalar']
      exact related.2.2.2
  · intro scalar member
    obtain left | right := List.mem_append.mp member
    · obtain ⟨element,inside',rfl⟩ := List.mem_map.mp left
      obtain ⟨c,bound,here⟩ := List.mem_iff_getElem.mp inside'
      have left : c < groupColumnNames.length := width ▸ bound
      obtain ⟨field,known,named,_,reads⟩ := key_column ready (List.getElem?_eq_getElem left)
      obtain ⟨slot,element',_⟩ := reads row (shaped row there)
      rw [key,List.getElem?_eq_getElem bound,here] at element'
      rw [Option.some.inj element',given,if_pos (holds.keyTypes some _ (List.getElem_mem left) field known named).2]
      rfl
    · obtain ⟨i,bound,rfl⟩ := List.mem_iff_getElem.mp right
      have bound' : i < aggregateFunctions.length := by rw [results.length_eq]; exact bound
      exact (results.get bound' bound).2.2.1
  · rw [scalarsOf,List.length_append,← results.length_eq,GroupKernel.getScalars,List.length_map,width]
  · have made : aggregateFunctions.mapM (fun function => aggregate fields function
        ((records pieces).filter fun record =>
        keyOf groupColumnNames record = cellsOf group.1)) = .ok scalars :=
      mapM_eq_ok.mpr (results.imp fun _ _ holds => holds.2.1)
    rw [rowOf,made,scalarsOf,List.map_append,values_getScalars]

theorem keys_dedup {rows : List (List (Slot ν))}
    (cells : ∀ row ∈ rows, keyOf groupColumnNames (recordOf (canonicalSchema fields) row) =
      cellsOf (rawKey fields groupColumnNames row)) :
    ((rows.map (recordOf (canonicalSchema fields))).map (keyOf groupColumnNames)).dedup =
      (rows.map (rawKey fields groupColumnNames)).dedup.map cellsOf := by
  rw [← List.dedup_map_of_injective cellsOf_injective,List.map_map,List.map_map]
  apply congrArg
  apply List.map_congr_left
  exact cells

theorem finalise_empty (ready : Ready fields groupColumnNames aggregateFunctions) {columns : List (ColumnBuilder ν)} :
    (cached fields groupColumnNames aggregateFunctions []).finalise runtime = .ok columns ↔
      (∀ function ∈ aggregateFunctions, function.compiled = true →
        ∀ columnName ∈ function.columnNames, ∃ field ∈ fields, field.name = columnName) ∧
      columns = builders fields groupColumnNames aggregateFunctions := by
  have compiled : (∃ types, aggregateFunctions.mapM (fun function =>
      function.compile (aggregateFields fields aggregateFunctions)) = .ok types) ↔ ∀ function ∈ aggregateFunctions,
        function.compiled = true → ∀ columnName ∈ function.columnNames, ∃ field ∈ fields, field.name = columnName := by
    simp only [mapM_eq_ok]
    constructor
    · rintro ⟨types,all⟩ function inside
      obtain ⟨i,bound,rfl⟩ := List.mem_iff_getElem.mp inside
      exact (compile_ok ready inside).mp ⟨_,all.get bound (all.length_eq ▸ bound)⟩
    · intro all
      exact exists_forall₂ fun function inside => (compile_ok ready inside).mpr (all function inside)
  have start : (cached fields groupColumnNames aggregateFunctions []).finalise runtime =
      (cached fields groupColumnNames aggregateFunctions []).finaliseEmpty := rfl
  have functions : (cached fields groupColumnNames aggregateFunctions []).aggregateFunctions = aggregateFunctions := rfl
  rw [start,GroupKernel.finaliseEmpty,
    show (cached fields groupColumnNames aggregateFunctions []).inputSchema = .some (canonicalSchema fields) from rfl,
    show (cached fields groupColumnNames aggregateFunctions []).aggregateInputSchema =
      .some (aggregateFields fields aggregateFunctions) from rfl]
  dsimp only
  rw [functions]
  cases made : aggregateFunctions.mapM fun function => function.compile (aggregateFields fields aggregateFunctions) with
  | error failure =>
    refine iff_of_false (by intro wrong; cases wrong) ?_
    rintro ⟨all,_⟩
    obtain ⟨_,wrong⟩ := compiled.mpr all
    rw [made] at wrong
    cases wrong
  | ok types =>
    exact ⟨fun same => ⟨compiled.mp ⟨types,made⟩,(Except.ok.inj same).symm⟩,fun both => congrArg _ both.2.symm⟩

theorem groupsOf_eq_nil (ready : Ready fields groupColumnNames aggregateFunctions) {rows : List (List (Slot ν))}
    (shaped : ∀ row ∈ rows, row.length = fields.length) :
    groupsOf runtime fields groupColumnNames aggregateFunctions [] rows = [] ↔ rows = [] := by
  constructor
  · intro none
    rw [List.eq_nil_iff_forall_not_mem]
    intro row inside
    have covers := ((gathered runtime ready shaped).covers (rawKey fields groupColumnNames row)).mpr
      (List.mem_map.mpr ⟨_,List.mem_map_of_mem inside,rfl⟩)
    rw [none] at covers
    cases covers
  · rintro rfl
    rfl

theorem groupsBy_of_holds {piece : Table ν} {pieces : List (Table ν)}
    (same : ∀ later ∈ pieces, later.fields = piece.fields)
    (holds : HoldsWhen groupColumnNames aggregateFunctions piece.fields runtime (piece::pieces)) :
    GroupsBy groupColumnNames aggregateFunctions piece.fields runtime (piece::pieces) := by
  have every : ∀ later ∈ piece::pieces, later.fields = piece.fields := List.forall_mem_cons.mpr ⟨rfl,same⟩
  have ready : Ready piece.fields groupColumnNames aggregateFunctions :=
    ⟨holds.groupColumns,holds.aggregateColumns,holds.someColumn⟩
  have shaped := shaped_pieces every
  have all := records_eq every
  have typed : (piece::pieces).flatMap Table.rows ≠ [] → Typed piece.fields groupColumnNames aggregateFunctions := by
    intro some
    have some : records (piece::pieces) ≠ [] := by
      rw [all]
      simpa using some
    exact (typed_iff ready).mpr ⟨fun columnName member field inside named =>
      (holds.keyTypes some columnName member field inside named).1,holds.appenders some,holds.firstColumn some⟩
  have accepted : ((piece::pieces).map some).foldlM (GroupKernel.group runtime)
      (.make groupColumnNames aggregateFunctions) =
      .ok (cached piece.fields groupColumnNames aggregateFunctions
        (groupsOf runtime piece.fields groupColumnNames aggregateFunctions []
          ((piece::pieces).flatMap Table.rows))) := by
    refine (group_pieces piece pieces same _).mpr ⟨ready,?_,_,(gather_eq ready shaped).mpr ⟨typed,rfl⟩,rfl⟩
    intro later
    apply holds.canonical
    have some := List.length_pos_iff.mpr later
    rw [List.length_cons]
    omega
  by_cases none : (piece::pieces).flatMap Table.rows = []
  · -- without rows there are no groups
    have finished : (cached piece.fields groupColumnNames aggregateFunctions []).finalise runtime =
        .ok (builders piece.fields groupColumnNames aggregateFunctions) :=
      (finalise_empty ready).mpr ⟨fun function inside compiled => holds.spelled function inside (.inl compiled),rfl⟩
    refine ⟨builders piece.fields groupColumnNames aggregateFunctions,[],[],?_,?_,List.Perm.nil,builders_names ready,?_⟩
    · rw [none] at accepted
      rw [GroupKernel.groupAll,accepted]
      exact finished
    · rw [all,none]
      rfl
    · have blank : ∀ builder ∈ builders piece.fields groupColumnNames aggregateFunctions, _ := builders_blank
      have values := appended_values runtime blank []
      rw [appended_nothing runtime fun _ inside => absurd inside List.not_mem_nil,length_builders ready] at values
      exact values
  · have some : groupsOf runtime piece.fields groupColumnNames aggregateFunctions []
        ((piece::pieces).flatMap Table.rows) ≠ [] :=
      fun empty => none ((groupsOf_eq_nil ready shaped).mp empty)
    have groups := gathered runtime ready shaped
    have cells : ∀ row ∈ (piece::pieces).flatMap Table.rows, keyOf groupColumnNames
        (recordOf (canonicalSchema piece.fields) row) =
        cellsOf (rawKey piece.fields groupColumnNames row) := by
      intro row inside
      apply keyOf_eq ready (shaped row inside)
      intro cell member
      have record : recordOf (canonicalSchema piece.fields) row ∈ records (piece::pieces) := by
        rw [all]
        exact List.mem_map_of_mem inside
      obtain ⟨type,value,rfl,_⟩ := holds.keys _ record cell member
      exact Option.some_ne_none value
    obtain ⟨results,computed⟩ := exists_forall₂ fun group (inside : group ∈ runtime.iterate _) =>
      group_computed every holds ready cells ((runtime.iterate_perm _).mem_iff.mp inside)
    have of_result : ∀ result ∈ runtime.iterate results, Fits
        (builders piece.fields groupColumnNames aggregateFunctions)
        (scalarsOf result) ∧ (∀ scalar ∈ scalarsOf result, given runtime scalar = [scalar.value]) ∧
        (scalarsOf result).length = groupColumnNames.length+aggregateFunctions.length := by
      intro result inside
      obtain ⟨group,_,_,fits,taken,width,_⟩ := forall₂_mem_right computed result
        ((runtime.iterate_perm _).mem_iff.mp inside)
      exact ⟨fits,taken,width⟩
    have finished : (cached piece.fields groupColumnNames aggregateFunctions
        (groupsOf runtime piece.fields groupColumnNames
        aggregateFunctions [] ((piece::pieces).flatMap Table.rows))).finalise runtime =
          .ok (appended runtime (builders piece.fields groupColumnNames aggregateFunctions)
            ((runtime.iterate results).map scalarsOf)) :=
      (finalise_ok some).mpr ⟨results,computed.imp fun _ _ holds => holds.1,
        fun result inside => (of_result result inside).1,rfl⟩
    -- the keys of the groups are the keys of the records
    have unique : ((groupsOf runtime piece.fields groupColumnNames aggregateFunctions []
        ((piece::pieces).flatMap Table.rows)).map Prod.fst).Nodup := by
      rw [groups.nodup_iff,List.forall_mem_map]
      intro row inside odd
      have record : recordOf (canonicalSchema piece.fields) row ∈ records (piece::pieces) := by
        rw [all]
        exact List.mem_map_of_mem inside
      obtain ⟨element,there,strange⟩ : ∃ element ∈ rawKey piece.fields groupColumnNames row,
          runtime.isNaN element.1 element.2 = true := by
        by_contra none
        have ordinary := equals_self.mpr fun element there => by simpa using fun strange => none ⟨element,there,strange⟩
        rw [odd] at ordinary
        cases ordinary
      have cell : [(element.1,Option.some element.2)] ∈ keyOf groupColumnNames
          (recordOf (canonicalSchema piece.fields) row) := by
        rw [cells row inside]
        exact List.mem_map_of_mem there
      obtain ⟨type,value,equal,single⟩ := holds.keys _ record _ cell
      simp only [List.cons.injEq,Prod.mk.injEq,Option.some.injEq,and_true] at equal
      have once := (single (by rw [← equal.1,← equal.2]; exact strange)).2
      rw [all,cells row inside,filter_keys cells,List.length_map] at once
      rw [List.filter_map,List.length_map]
      exact once
    have keys : (((runtime.iterate (groupsOf runtime piece.fields groupColumnNames aggregateFunctions []
        ((piece::pieces).flatMap Table.rows))).map Prod.fst).map cellsOf).Perm
          ((records (piece::pieces)).map (keyOf groupColumnNames)).dedup := by
      rw [all,keys_dedup cells]
      apply List.Perm.map
      have order := (groups.keys_perm unique).symm.trans ((runtime.iterate_perm _).map Prod.fst).symm
      rw [List.map_map] at order
      exact order.symm
    have answers : List.Forall₂ (fun key row => rowOf groupColumnNames aggregateFunctions piece.fields
        (records (piece::pieces)) key =
        .ok row) (((runtime.iterate (groupsOf runtime piece.fields groupColumnNames aggregateFunctions []
          ((piece::pieces).flatMap Table.rows))).map Prod.fst).map cellsOf)
            (results.map fun result => (scalarsOf result).map Scalar.value) := by
      rw [List.map_map,List.forall₂_map_left_iff,List.forall₂_map_right_iff]
      exact computed.imp fun _ _ holds => holds.2.2.2.2
    obtain ⟨rows,expected⟩ := exists_forall₂ fun key
      (inside : key ∈ ((records (piece::pieces)).map (keyOf groupColumnNames)).dedup) =>
      (forall₂_mem_left answers key (keys.mem_iff.mpr inside)).imp fun _ both => both.2
    refine ⟨appended runtime (builders piece.fields groupColumnNames aggregateFunctions)
      ((runtime.iterate results).map scalarsOf),
      rows,(runtime.iterate results).map fun result => (scalarsOf result).map Scalar.value,?_,mapM_eq_ok.mpr expected,?_,?_,?_⟩
    · rw [GroupKernel.groupAll,accepted]
      exact finished
    · exact ((runtime.iterate_perm results).map _).trans (perm_of_ok keys answers expected)
    · rw [appended_names,builders_names ready]
    · rw [appended_values runtime builders_blank,length_builders ready]
      apply List.map_congr_left
      intro c inside
      have width : ∀ row ∈ (runtime.iterate results).map scalarsOf, row.length = _ :=
        List.forall_mem_map.mpr fun result there => (of_result result there).2.2
      have taken := columns_of_given runtime width
        (List.forall_mem_map.mpr fun result there => (of_result result there).2.1) (List.mem_range.mp inside)
      rw [taken,List.map_map,List.map_map,List.map_map]
      rfl

theorem rowOf_key {all : List (Record ν)} {key : List (List (DataType × Option ν))} {out : List (Option ν)}
    (made : rowOf groupColumnNames aggregateFunctions fields all key = .ok out) :
    ∃ scalars, List.Forall₂ (fun function scalar => aggregate fields function
      (all.filter fun record => keyOf groupColumnNames record = key) = .ok scalar) aggregateFunctions scalars ∧
        out = key.map cellValue ++ scalars.map Scalar.value := by
  rw [rowOf] at made
  split at made
  next => cases made
  next scalars computed => exact ⟨scalars,mapM_eq_ok.mp computed,(Except.ok.inj made).symm⟩

variable (runtime fields groupColumnNames aggregateFunctions) in
/-- A grouping of some rows that came out right, and there was a row. -/
structure Finished (rows : List (List (Slot ν))) (results : List (TupleKey ν × List (Scalar ν)))
    (answer : List (List (Option ν))) : Prop where
  some : rows ≠ []
  shaped : ∀ row ∈ rows, row.length = fields.length
  ready : Ready fields groupColumnNames aggregateFunctions
  computed : List.Forall₂ (Computed runtime (aggregateFields fields aggregateFunctions) aggregateFunctions)
    (runtime.iterate (groupsOf runtime fields groupColumnNames aggregateFunctions [] rows)) results
  fits : ∀ result ∈ results, Fits (builders fields groupColumnNames aggregateFunctions) (scalarsOf result)
  columns : ∀ c < groupColumnNames.length+aggregateFunctions.length,
    (((runtime.iterate results).map scalarsOf).flatMap fun row => (row[c]?.map (given runtime)).getD []) =
      answer.map fun row => row[c]?.join
  count : answer.length = ((rows.map (recordOf (canonicalSchema fields))).map (keyOf groupColumnNames)).dedup.length
  each : ∀ row ∈ rows, ∃ out ∈ answer, rowOf groupColumnNames aggregateFunctions fields
    (rows.map (recordOf (canonicalSchema fields)))
      (keyOf groupColumnNames (recordOf (canonicalSchema fields) row)) = .ok out

namespace Finished
variable {rows : List (List (Slot ν))} {results : List (TupleKey ν × List (Scalar ν))} {answer : List (List (Option ν))}

theorem result_of (finished : Finished runtime fields groupColumnNames aggregateFunctions rows results answer)
    {group : TupleKey ν × List (List (Option ν))}
    (inside : group ∈ groupsOf runtime fields groupColumnNames aggregateFunctions [] rows) :
    ∃ result ∈ results, Computed runtime (aggregateFields fields aggregateFunctions) aggregateFunctions group result :=
  forall₂_mem_left finished.computed group ((runtime.iterate_perm _).mem_iff.mpr inside)

theorem row_of (finished : Finished runtime fields groupColumnNames aggregateFunctions rows results answer)
    {result : TupleKey ν × List (Scalar ν)} (inside : result ∈ results) :
    ∃ row ∈ rows, rawKey fields groupColumnNames row = result.1 := by
  obtain ⟨group,there,same,_⟩ := forall₂_mem_right finished.computed result inside
  have member := (runtime.iterate_perm _).mem_iff.mp there
  have covered := ((gathered runtime finished.ready finished.shaped).covers group.1).mp (List.mem_map_of_mem member)
  rw [same]
  simpa using covered

theorem group_of (finished : Finished runtime fields groupColumnNames aggregateFunctions rows results answer)
    {row : List (Slot ν)} (inside : row ∈ rows) :
    ∃ group ∈ groupsOf runtime fields groupColumnNames aggregateFunctions [] rows, group.1 =
    rawKey fields groupColumnNames row := by
  have covered := ((gathered runtime finished.ready finished.shaped).covers (rawKey fields groupColumnNames row)).mpr
    (List.mem_map.mpr ⟨_,List.mem_map_of_mem inside,rfl⟩)
  simpa using covered

theorem key_scalar (finished : Finished runtime fields groupColumnNames aggregateFunctions rows results answer)
    {result : TupleKey ν × List (Scalar ν)} (inside : result ∈ results) {c : Nat} {columnName : String}
    (named : groupColumnNames[c]? = Option.some columnName) {field : Field} (known : field ∈ fields)
    (name : canonicalize field.name = canonicalize columnName) :
    ∃ value, (scalarsOf result)[c]? = Option.some ⟨field.type,Option.some value⟩ := by
  obtain ⟨row,there,key⟩ := finished.row_of inside
  obtain ⟨k,found⟩ := Option.isSome_iff_exists.mp (finished.ready.groupColumns columnName (List.mem_of_getElem? named))
  obtain ⟨field',known',name',_,reads⟩ := key_column finished.ready named
  obtain ⟨slot,element,_⟩ := reads row (finished.shaped row there)
  have same := (field_of_name found known name).symm.trans (field_of_name found known' name')
  obtain rfl := Option.some.inj same
  rw [key] at element
  refine ⟨slot.raw,?_⟩
  rw [scalarsOf,List.getElem?_append_left,GroupKernel.getScalars,List.getElem?_map,element]
  · rfl
  · rw [GroupKernel.getScalars,List.length_map]
    exact (List.getElem?_eq_some_iff.mp element).1

theorem answer_some (finished : Finished runtime fields groupColumnNames aggregateFunctions rows results answer) :
    answer ≠ [] := by
  obtain ⟨row,inside⟩ := List.exists_mem_of_ne_nil rows finished.some
  obtain ⟨out,there,_⟩ := finished.each row inside
  exact List.ne_nil_of_mem there

theorem buildable_key (finished : Finished runtime fields groupColumnNames aggregateFunctions rows results answer)
    {columnName : String} (member : columnName ∈ groupColumnNames) {field : Field} (known : field ∈ fields)
    (name : canonicalize field.name = canonicalize columnName) : buildable field.type = true := by
  obtain ⟨c,bound,rfl⟩ := List.mem_iff_getElem.mp member
  have column := finished.columns c (Nat.lt_add_right _ bound)
  have nonempty : (answer.map fun row => row[c]?.join) ≠ [] := by simpa using finished.answer_some
  rw [← column] at nonempty
  obtain ⟨cell,inside⟩ := List.exists_mem_of_ne_nil _ nonempty
  obtain ⟨_,there,taken⟩ := List.mem_flatMap.mp inside
  obtain ⟨result,member,rfl⟩ := List.mem_map.mp there
  obtain ⟨value,scalar⟩ := finished.key_scalar ((runtime.iterate_perm _).mem_iff.mp member)
    (List.getElem?_eq_getElem bound)
    known name
  rw [scalar,Option.map_some,Option.getD_some,given] at taken
  by_contra cannot
  rw [if_neg cannot] at taken
  cases taken

theorem cells (finished : Finished runtime fields groupColumnNames aggregateFunctions rows results answer) :
    ∀ row ∈ rows, keyOf groupColumnNames (recordOf (canonicalSchema fields) row) =
    cellsOf (rawKey fields groupColumnNames row) := by
  intro row inside
  apply keyOf_eq finished.ready (finished.shaped row inside)
  intro cell member
  obtain ⟨out,there,made⟩ := finished.each row inside
  obtain ⟨scalars,_,rfl⟩ := rowOf_key made
  obtain ⟨c,bound,rfl⟩ := List.mem_iff_getElem.mp member
  have small : c < groupColumnNames.length := by simpa [keyOf] using bound
  obtain ⟨value,filled⟩ := column_filled runtime (finished.columns c (Nat.lt_add_right _ small)) _ there
  rw [List.getElem?_append_left (by simpa using bound),List.getElem?_map,List.getElem?_eq_getElem bound,
    Option.map_some] at filled
  rw [Option.some.inj filled]
  exact Option.some_ne_none value

theorem ordinary (finished : Finished runtime fields groupColumnNames aggregateFunctions rows results answer)
    (functions : aggregateFunctions ≠ []) {row : List (Slot ν)} (inside : row ∈ rows) :
    TupleKey.equals runtime (rawKey fields groupColumnNames row) (rawKey fields groupColumnNames row) = true := by
  obtain ⟨group,there,same⟩ := finished.group_of inside
  obtain ⟨_,_,_,_,ordinary⟩ := finished.result_of there
  rw [← same]
  exact ordinary functions

theorem length_results (finished : Finished runtime fields groupColumnNames aggregateFunctions rows results answer) :
    ((runtime.iterate results).map scalarsOf).length =
      (groupsOf runtime fields groupColumnNames aggregateFunctions [] rows).length := by
  rw [List.length_map,(runtime.iterate_perm results).length_eq,← finished.computed.length_eq,
    (runtime.iterate_perm _).length_eq]

theorem length_answer (finished : Finished runtime fields groupColumnNames aggregateFunctions rows results answer) :
    answer.length = (rows.map (rawKey fields groupColumnNames)).dedup.length := by
  rw [finished.count,keys_dedup finished.cells,List.length_map]

theorem unique (finished : Finished runtime fields groupColumnNames aggregateFunctions rows results answer) :
    ((groupsOf runtime fields groupColumnNames aggregateFunctions [] rows).map Prod.fst).Nodup := by
  have groups := gathered runtime finished.ready finished.shaped
  by_cases functions : aggregateFunctions = []
  · cases groupColumnNames with
    | nil =>
      rw [groups.nodup_iff,List.forall_mem_map]
      intro row inside odd
      cases odd
    | cons columnName later =>
      have first : (columnName::later)[0]? = Option.some columnName := rfl
      obtain ⟨field,known,name,_,_⟩ := key_column finished.ready first
      have column := finished.columns 0 (by rw [List.length_cons]; omega)
      have one : ∀ row ∈ (runtime.iterate results).map scalarsOf,
          ((row[0]?.map (given runtime)).getD []).length = 1 := by
        intro row inside
        obtain ⟨result,member,rfl⟩ := List.mem_map.mp inside
        obtain ⟨value,scalar⟩ := finished.key_scalar ((runtime.iterate_perm _).mem_iff.mp member) first known name
        rw [scalar,Option.map_some,Option.getD_some,given,if_pos (finished.buildable_key List.mem_cons_self known name)]
        rfl
      have total := length_flatMap_one one
      rw [column,finished.length_results,List.length_map,finished.length_answer] at total
      have keys : ((groupsOf runtime fields (columnName::later) aggregateFunctions [] rows).map Prod.fst).dedup.Perm
          (rows.map (rawKey fields (columnName::later))).dedup := by
        rw [List.perm_ext_iff_of_nodup (List.nodup_dedup _) (List.nodup_dedup _)]
        intro key
        rw [List.mem_dedup,List.mem_dedup,groups.covers,List.map_map]
        exact Iff.rfl
      have same := (List.dedup_sublist _).eq_of_length (keys.length_eq.trans (total.trans (List.length_map _).symm))
      rw [← same]
      exact List.nodup_dedup _
  · rw [groups.nodup_iff,List.forall_mem_map]
    intro row inside odd
    rw [finished.ordinary functions inside] at odd
    cases odd

theorem count_results (finished : Finished runtime fields groupColumnNames aggregateFunctions rows results answer) :
    answer.length = ((runtime.iterate results).map scalarsOf).length := by
  have keys := ((gathered runtime finished.ready finished.shaped).keys_perm finished.unique).length_eq
  rw [finished.length_results,finished.length_answer,← List.length_map (f := Prod.fst),keys,List.map_map]
  rfl

theorem key_of (finished : Finished runtime fields groupColumnNames aggregateFunctions rows results answer)
    {row : List (Slot ν)} (inside : row ∈ rows) :
    ∀ cell ∈ keyOf groupColumnNames (recordOf (canonicalSchema fields) row),
      ∃ type value, cell = [(type,Option.some value)] ∧ (runtime.isNaN type value = true → aggregateFunctions = [] ∧
        ((rows.map (recordOf (canonicalSchema fields))).filter fun other => keyOf groupColumnNames other =
          keyOf groupColumnNames (recordOf (canonicalSchema fields) row)).length = 1) := by
  have groups := gathered runtime finished.ready finished.shaped
  intro cell member
  rw [finished.cells row inside] at member ⊢
  obtain ⟨element,there,rfl⟩ := List.mem_map.mp member
  refine ⟨element.1,element.2,rfl,?_⟩
  intro strange
  have odd : TupleKey.equals runtime (rawKey fields groupColumnNames row) (rawKey fields groupColumnNames row) =
      false := by
    rw [← Bool.not_eq_true,equals_self]
    intro ordinary
    rw [ordinary element there] at strange
    cases strange
  constructor
  · by_contra functions
    rw [finished.ordinary functions inside] at odd
    cases odd
  · have once := groups.nodup_iff.mp finished.unique _ (List.mem_map_of_mem inside) odd
    rw [filter_keys finished.cells,List.length_map]
    rw [List.filter_map,List.length_map] at once
    exact once

theorem result_of_function (finished : Finished runtime fields groupColumnNames aggregateFunctions rows results answer)
    {row : List (Slot ν)} (inside : row ∈ rows) {function : AggregateFunction ν}
    (member : function ∈ aggregateFunctions) :
    (∀ columnName ∈ function.columnNames, ∃ field ∈ fields, field.name = columnName) ∧ ∃ type value,
      aggregate fields function ((rows.map (recordOf (canonicalSchema fields))).filter fun other =>
        keyOf groupColumnNames other = keyOf groupColumnNames (recordOf (canonicalSchema fields) row)) =
        .ok ⟨type,Option.some value⟩ ∧
      type = function.returnType (AggregateFunction.types (canonicalSchema fields) function.columnNames) ∧
      buildable type = true := by
  obtain ⟨group,there,same⟩ := finished.group_of inside
  obtain ⟨result,produced,key,scalars,_⟩ := finished.result_of there
  have ordinary := finished.ordinary (List.ne_nil_of_mem member) inside
  rw [← same] at ordinary
  obtain ⟨i,bound,rfl⟩ := List.mem_iff_getElem.mp member
  have bound' : i < result.2.length := scalars.length_eq ▸ bound
  obtain ⟨spelled,computed⟩ := (computeComplete_group finished.ready finished.shaped finished.cells there ordinary member).mp
    (scalars.get bound bound')
  rw [same,← finished.cells row inside] at computed
  -- the column of the function
  have width : result.1.length = groupColumnNames.length := by
    rw [key,same,rawKey_length finished.ready (finished.shaped row inside)]
  have place : (scalarsOf result)[groupColumnNames.length+i]? = Option.some result.2[i] := by
    rw [scalarsOf,List.getElem?_append_right (by simp [GroupKernel.getScalars,width]),GroupKernel.getScalars,
      List.length_map,
      width,Nat.add_sub_cancel_left]
    exact List.getElem?_eq_getElem bound'
  have column := finished.columns (groupColumnNames.length+i) (by omega)
  obtain ⟨scalar,there',can⟩ := column_taken runtime column finished.count_results (scalarsOf result)
    (List.mem_map_of_mem ((runtime.iterate_perm _).mem_iff.mpr produced))
  rw [place] at there'
  obtain rfl := Option.some.inj there'
  have typed := finished.fits result produced _ _ _ (function_column finished.ready
      (List.getElem?_eq_getElem bound)) place can
  obtain ⟨out,member',made⟩ := finished.each row inside
  obtain ⟨expected,all,rfl⟩ := rowOf_key made
  have bound'' : i < expected.length := all.length_eq ▸ bound
  obtain ⟨value,filled⟩ := column_filled runtime column _ member'
  have again := all.get bound bound''
  have same' := Except.ok.inj (computed.symm.trans again)
  rw [List.getElem?_append_right (by simp [keyOf]),List.length_map,keyOf,List.length_map,Nat.add_sub_cancel_left,
    List.getElem?_map,List.getElem?_eq_getElem bound'',Option.map_some] at filled
  have value' : result.2[i].value = Option.some value := by
    change result.2[i] = expected[i] at same'
    rw [same']
    exact Option.some.inj filled
  refine ⟨spelled,result.2[i].type,value,?_,?_,can⟩
  · rw [← value']
    exact computed
  · rw [← types_eq finished.ready member spelled]
    exact typed

end Finished

theorem holds_of_groupsBy {piece : Table ν} {pieces : List (Table ν)}
    (same : ∀ later ∈ pieces, later.fields = piece.fields)
    (done : GroupsBy groupColumnNames aggregateFunctions piece.fields runtime (piece::pieces)) :
    HoldsWhen groupColumnNames aggregateFunctions piece.fields runtime (piece::pieces) := by
  have every : ∀ later ∈ piece::pieces, later.fields = piece.fields := List.forall_mem_cons.mpr ⟨rfl,same⟩
  have shaped := shaped_pieces every
  have all := records_eq every
  obtain ⟨columns,rows,answer,ran,expected,order,_,values⟩ := done
  rw [GroupKernel.groupAll] at ran
  split at ran
  next => cases ran
  next kernel grouped =>
    obtain ⟨ready,canonical,_,gathers,rfl⟩ := (group_pieces piece pieces same kernel).mp grouped
    obtain ⟨typed,rfl⟩ := (gather_eq ready shaped).mp gathers
    have spelt : 2 ≤ (piece::pieces).length → canonicalSchema piece.fields = piece.fields := by
      intro more
      apply canonical
      rintro rfl
      exact absurd more (by simp)
    by_cases none : (piece::pieces).flatMap Table.rows = []
    · have nothing : records (piece::pieces) = [] := by rw [all,none]; rfl
      rw [none] at ran
      obtain ⟨spelled,_⟩ := (finalise_empty ready).mp ran
      refine ⟨List.cons_ne_nil _ _,spelt,ready.groupColumns,ready.aggregateColumns,?_,ready.someColumn,
        fun some => absurd nothing some,fun some => absurd nothing some,fun some => absurd nothing some,?_,?_⟩
      · rintro function inside (compiled | wrong)
        · exact spelled function inside compiled
        · exact absurd nothing wrong
      · rw [nothing]
        exact fun _ wrong => absurd wrong List.not_mem_nil
      · rw [nothing]
        exact fun _ wrong => absurd wrong List.not_mem_nil
    · have groups : groupsOf runtime piece.fields groupColumnNames aggregateFunctions []
          ((piece::pieces).flatMap Table.rows) ≠ [] :=
        fun empty => none ((groupsOf_eq_nil ready shaped).mp empty)
      obtain ⟨results,computed,fits,rfl⟩ := (finalise_ok groups).mp ran
      rw [appended_values runtime builders_blank,length_builders ready] at values
      rw [mapM_eq_ok] at expected
      rw [all] at expected
      have finished : Finished runtime piece.fields groupColumnNames aggregateFunctions
          ((piece::pieces).flatMap Table.rows)
          results answer := by
        refine ⟨none,shaped,ready,computed,?_,?_,?_,?_⟩
        · exact fun result inside => fits result ((runtime.iterate_perm _).mem_iff.mpr inside)
        · exact fun c bound => column_eq runtime rfl values bound
        · rw [order.length_eq,← expected.length_eq]
        · intro row inside
          obtain ⟨out,there,made⟩ := forall₂_mem_left expected _
            (List.mem_dedup.mpr (List.mem_map_of_mem (List.mem_map_of_mem inside)))
          exact ⟨out,order.mem_iff.mpr there,made⟩
      have some := typed none
      obtain ⟨keys,appenders,first⟩ := (typed_iff ready).mp some
      obtain ⟨row,inside⟩ := List.exists_mem_of_ne_nil _ none
      refine ⟨List.cons_ne_nil _ _,spelt,ready.groupColumns,ready.aggregateColumns,?_,ready.someColumn,?_,
        fun _ => appenders,
        fun _ => first,?_,?_⟩
      · exact fun function member _ => (finished.result_of_function inside member).1
      · exact fun _ columnName member field known named =>
          ⟨keys columnName member field known named,finished.buildable_key member known named⟩
      · rw [all,List.forall_mem_map]
        exact fun row there => finished.key_of there
      · rw [all,List.forall_mem_map]
        exact fun row there function member => (finished.result_of_function there member).2

end

/-- Grouping by some columns gives one row for each key, however the rows come in tuple
sets and batches, exactly under the condition. -/
theorem groupsBy_iff (runtime : Runtime ν) (groupColumnNames : List String)
    (aggregateFunctions : List (AggregateFunction ν))
    (fields : List Field) (pieces : List (Table ν)) (same : ∀ piece ∈ pieces, piece.fields = fields) :
    GroupsBy groupColumnNames aggregateFunctions fields runtime pieces ↔
      HoldsWhen groupColumnNames aggregateFunctions fields runtime pieces := by
  cases pieces with
  | nil =>
    refine iff_of_false ?_ fun holds => holds.piece rfl
    rintro ⟨_,_,_,ran,_⟩
    cases ran
  | cons piece pieces =>
    obtain ⟨rfl,later⟩ := List.forall_mem_cons.mp same
    exact ⟨holds_of_groupsBy later,groupsBy_of_holds later⟩

/-- An aggregate function of a numeric column. -/
def onColumn (outputColumnName columnName : String) (returnType : DataType → DataType)
    (compute : Aggregate.ChunkedArray → Except String Aggregate.Scalar) : AggregateFunction ℚ where
  outputColumnName := outputColumnName
  involvedColumnNames := [columnName]
  compiled := true
  absent _ := .exception
  returnType types := returnType (types.headD .int64)
  compute types rows :=
    match compute ⟨types.headD .int64,rows.map fun row => row.head?.join⟩ with
    | .error error => .error error
    | .ok scalar => .ok ⟨scalar.type,scalar.value⟩

def sumOf (outputColumnName columnName : String) : AggregateFunction ℚ :=
  onColumn outputColumnName columnName id Aggregate.Compute.sum

/-- `count(*)`. -/
def countStar (outputColumnName : String) : AggregateFunction ℚ where
  outputColumnName := outputColumnName
  involvedColumnNames := [COUNT_STAR_COLUMN]
  compiled := false
  absent _ := .exception
  returnType _ := .int64
  compute _ rows := .ok ⟨.int64,some rows.length⟩

/-- Rationals for the numbers of any type, one batch for each table. -/
def plainRuntime : Runtime ℚ where
  isNaN _ _ := false
  blank _ := 0
  batches table := [table.rows]
  batches_flatten _ := List.flatten_singleton
  iterate entries := entries
  iterate_perm entries := List.Perm.refl entries

/-- A table of two `int64` columns. -/
def keyed (key value : String) (rows : List (Option ℚ × Option ℚ)) : Table ℚ where
  fields := [⟨key,.int64⟩,⟨value,.int64⟩]
  rows := rows.map fun row => [⟨row.1.isSome,row.1.getD 0⟩,⟨row.2.isSome,row.2.getD 0⟩]
  shaped := by
    intro row inside
    obtain ⟨_,_,rfl⟩ := List.mem_map.mp inside
    rfl

theorem two_pieces_grouped : GroupsBy ["k"] [sumOf "s" "v",countStar "c"] [⟨"k",.int64⟩,⟨"v",.int64⟩] plainRuntime
    [keyed "k" "v" [(some 1,some 10),(some 2,some 20)],keyed "k" "v" [(some 1,some 30)]] := by
  refine (groupsBy_iff plainRuntime ["k"] [sumOf "s" "v",countStar "c"] [⟨"k",.int64⟩,⟨"v",.int64⟩] _ ?_).mpr ?_
  · simp [keyed]
  have some : records [keyed "k" "v" [(some 1,some 10),(some 2,some 20)],keyed "k" "v" [(some 1,some 30)]] =
      [(1,10),(2,20),(1,30)].map fun row : ℚ × ℚ => recordOf (canonicalSchema [⟨"k",.int64⟩,⟨"v",.int64⟩])
        [⟨true,row.1⟩,⟨true,row.2⟩] := rfl
  refine ⟨List.cons_ne_nil _ _,fun _ => by decide +kernel,by decide +kernel,by decide +kernel,?_,by decide,?_,?_,
    ?_,?_,?_⟩
  · intro function inside _
    revert function
    decide +kernel
  · intro _
    decide +kernel
  · intro _
    decide +kernel
  · intro _
    decide +kernel
  · rw [some]
    intro record member cell inside
    obtain ⟨row,_,rfl⟩ := List.mem_map.mp member
    refine ⟨.int64,row.1,?_,fun wrong => (by cases wrong)⟩
    exact List.mem_singleton.mp inside
  · rw [some]
    refine List.forall_mem_cons.mpr ⟨?_,List.forall_mem_cons.mpr ⟨?_,List.forall_mem_cons.mpr ⟨?_,by simp⟩⟩⟩
    · refine List.forall_mem_cons.mpr ⟨⟨.int64,40,?_⟩,List.forall_mem_cons.mpr ⟨⟨.int64,2,?_⟩,by simp⟩⟩
      · decide +kernel
      · decide +kernel
    · refine List.forall_mem_cons.mpr ⟨⟨.int64,20,?_⟩,List.forall_mem_cons.mpr ⟨⟨.int64,1,?_⟩,by simp⟩⟩
      · decide +kernel
      · decide +kernel
    · refine List.forall_mem_cons.mpr ⟨⟨.int64,40,?_⟩,List.forall_mem_cons.mpr ⟨⟨.int64,2,?_⟩,by simp⟩⟩
      · decide +kernel
      · decide +kernel

/-- The second of two tuple sets is rejected if a column is called `K`, a sum over a column
called `V` reads a field that is not there, and a key that is null comes out as a value. -/
theorem split_matters :
    GroupKernel.groupAll plainRuntime (.make ["k"] [countStar "c"]) [some (keyed "K" "v" [(some 1,some 10)]),
      some (keyed "K" "v" [(some 1,some 30)])] = .error (.error ("Input tuple set schema does not match cached " ++
        "input tuple set schema. \nschema:\nk: int64\nv: int64\ncached schema:\nK: int64\nv: int64")) ∧
      GroupKernel.groupAll plainRuntime (.make ["k"] [sumOf "s" "v"]) [some (keyed "k" "V" [(some 1,some 10)])] =
        .error .exception ∧
      GroupKernel.groupAll plainRuntime (.make ["k"] [countStar "c"])
      [some (keyed "k" "v" [(some 0,some 10),(none,some 20)])] =
        .ok [⟨"k",.int64,[some 0]⟩,⟨"c",.int64,[some 2]⟩] ∧
      ¬GroupsBy ["k"] [countStar "c"] [⟨"K",.int64⟩,⟨"v",.int64⟩] plainRuntime
        [keyed "K" "v" [(some 1,some 10)],keyed "K" "v" [(some 1,some 30)]] := by
  have rejected : GroupKernel.groupAll plainRuntime
      (.make ["k"] [countStar "c"]) [some (keyed "K" "v" [(some 1,some 10)]),
      some (keyed "K" "v" [(some 1,some 30)])] = .error (.error ("Input tuple set schema does not match cached " ++
        "input tuple set schema. \nschema:\nk: int64\nv: int64\ncached schema:\nK: int64\nv: int64")) := by decide +kernel
  refine ⟨rejected,by decide +kernel,by decide +kernel,?_⟩
  rintro ⟨columns,_,_,ran,_⟩
  have wrong := rejected.symm.trans ran
  cases wrong

end Hermes.Group
