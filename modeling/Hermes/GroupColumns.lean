import Hermes.GroupKernel
import Hermes.Library.Fallible

/-! The columns that the group kernel picks, what it makes of a row, and how the finished
columns are appended. A row is taken as what it has under each canonical name. -/
namespace Hermes.Group
open Hermes.Tuples Hermes.Library Hermes.Library.Fallible
variable {ν : Type}

def records (pieces : List (Table ν)) : List (Record ν) :=
  pieces.flatMap fun piece => piece.rows.map (recordOf (canonicalSchema piece.fields))

def keyOf (groupColumnNames : List String) (record : Record ν) : List (List (DataType × Option ν)) :=
  groupColumnNames.map fun columnName => record (canonicalize columnName)

def cellValue (cell : List (DataType × Option ν)) : Option ν := cell.head?.bind Prod.snd

def aggregate (fields : List Field) (function : AggregateFunction ν) (group : List (Record ν)) :
    Except String (Scalar ν) :=
  function.compute (AggregateFunction.types (canonicalSchema fields) function.columnNames)
    (group.map fun record => function.columnNames.map fun columnName => cellValue (record columnName))

section
variable {fields : List Field}

theorem fieldIndices_eq {kind : String} {schema : List Field} {columnNames : List String} {indices : List Nat} :
    GroupKernel.fieldIndices kind schema columnNames = .ok indices ↔
      (∀ columnName ∈ columnNames, (getFieldIndex schema columnName).isSome) ∧
        indices = columnNames.filterMap (getFieldIndex schema) := by
  induction columnNames generalizing indices with
  | nil =>
    refine ⟨fun same => ⟨fun _ inside => absurd inside List.not_mem_nil,(Except.ok.inj same).symm⟩,?_⟩
    rintro ⟨_,rfl⟩
    rfl
  | cons columnName columnNames ih =>
    rw [GroupKernel.fieldIndices]
    cases found : getFieldIndex schema columnName with
    | none => simp [found]
    | some c =>
      dsimp only
      cases later : GroupKernel.fieldIndices kind schema columnNames with
      | error error =>
        refine iff_of_false (by simp) ?_
        rintro ⟨all,_⟩
        have wrong := ih.mpr ⟨fun name inside => all name (List.mem_cons_of_mem _ inside),rfl⟩
        rw [later] at wrong
        cases wrong
      | ok more =>
        obtain ⟨all,rfl⟩ := ih.mp later
        dsimp only
        rw [List.filterMap_cons_some found,List.forall_mem_cons]
        refine ⟨fun same => ⟨⟨by rw [found]; rfl,all⟩,(Except.ok.inj same).symm⟩,?_⟩
        rintro ⟨_,rfl⟩
        rfl

theorem fieldsAt_eq {indices : List Nat} {picked : List Field} :
    GroupKernel.fieldsAt fields indices = some picked ↔
      (∀ c ∈ indices, c < fields.length) ∧ picked = indices.filterMap (fields[·]?) := by
  induction indices generalizing picked with
  | nil =>
    rw [GroupKernel.fieldsAt]
    simp [eq_comm]
  | cons c indices ih =>
    rw [GroupKernel.fieldsAt,List.forall_mem_cons]
    by_cases bound : c < fields.length
    · rw [List.getElem?_eq_getElem bound,List.filterMap_cons_some (List.getElem?_eq_getElem bound)]
      cases later : GroupKernel.fieldsAt fields indices with
      | none =>
        refine iff_of_false (by simp) ?_
        rintro ⟨⟨_,all⟩,_⟩
        have wrong := ih.mpr ⟨all,rfl⟩
        rw [later] at wrong
        cases wrong
      | some more =>
        obtain ⟨all,rfl⟩ := ih.mp later
        refine ⟨fun same => ⟨⟨bound,all⟩,(Option.some.inj same).symm⟩,?_⟩
        rintro ⟨_,rfl⟩
        rfl
    · rw [List.getElem?_eq_none (by omega)]
      refine iff_of_false (by simp) ?_
      rintro ⟨⟨wrong,_⟩,_⟩
      exact bound wrong

theorem make_eq {indices : List Nat} (bounds : ∀ c ∈ indices, c < fields.length) {row : List (Slot ν)}
    (shaped : row.length = fields.length) {key : TupleKey ν} :
    TupleKey.make fields row indices = .ok key ↔
      (∀ c ∈ indices, fields[c]?.any fun field => keyable field.type) ∧
        key = indices.filterMap fun c => fields[c]?.bind fun field => row[c]?.map fun slot => (field.type,slot.raw) := by
  induction indices generalizing key with
  | nil =>
    refine ⟨fun same => ⟨fun _ inside => absurd inside List.not_mem_nil,(Except.ok.inj same).symm⟩,?_⟩
    rintro ⟨_,rfl⟩
    rfl
  | cons c indices ih =>
    have here := bounds c List.mem_cons_self
    have there : c < row.length := shaped.symm ▸ here
    have rest : ∀ key, TupleKey.make fields row indices = .ok key ↔ _ :=
      fun key => ih fun later inside => bounds later (List.mem_cons_of_mem _ inside)
    rw [TupleKey.make,List.forall_mem_cons,List.getElem?_eq_getElem here,List.getElem?_eq_getElem there]
    dsimp only
    cases can : keyable fields[c].type with
    | false =>
      refine iff_of_false (by intro wrong; cases wrong) ?_
      rintro ⟨⟨wrong,_⟩,_⟩
      rw [Option.any_some,can] at wrong
      cases wrong
    | true =>
      rw [if_pos rfl,List.filterMap_cons_some (by
        rw [List.getElem?_eq_getElem here,List.getElem?_eq_getElem there]
        rfl)]
      cases later : TupleKey.make fields row indices with
      | error error =>
        refine iff_of_false (by intro wrong; cases wrong) ?_
        rintro ⟨⟨_,all⟩,_⟩
        have wrong := (rest _).mpr ⟨all,rfl⟩
        rw [later] at wrong
        cases wrong
      | ok more =>
        obtain ⟨all,rfl⟩ := (rest _).mp later
        refine ⟨fun same => ⟨⟨can,all⟩,(Except.ok.inj same).symm⟩,?_⟩
        rintro ⟨_,rfl⟩
        rfl

def aggregateNames (aggregateFunctions : List (AggregateFunction ν)) : List String :=
  ((aggregateFunctions.flatMap AggregateFunction.involvedColumnNames).dedup.insertionSort (· ≤ ·)).filter
    fun columnName => columnName != COUNT_STAR_COLUMN

theorem mem_aggregateNames {aggregateFunctions : List (AggregateFunction ν)} {columnName : String} :
    columnName ∈ aggregateNames aggregateFunctions ↔
    ∃ function ∈ aggregateFunctions, columnName ∈ function.columnNames := by
  rw [aggregateNames,List.mem_filter,List.mem_insertionSort,List.mem_dedup,List.mem_flatMap]
  simp only [AggregateFunction.columnNames,List.mem_filter]
  constructor
  · rintro ⟨⟨function,inside,member⟩,other⟩
    exact ⟨function,inside,member,other⟩
  · rintro ⟨function,inside,member,other⟩
    exact ⟨⟨function,inside,member⟩,other⟩

theorem nodup_aggregateNames (aggregateFunctions : List (AggregateFunction ν)) :
    (aggregateNames aggregateFunctions).Nodup :=
  ((List.perm_insertionSort _ _).nodup_iff.mpr (List.nodup_dedup _)).filter _

variable (fields) (groupColumnNames : List String) (aggregateFunctions : List (AggregateFunction ν))

def groupIndices : List Nat := (groupColumnNames.map canonicalize).filterMap (getFieldIndex (canonicalSchema fields))

def aggregateIndices : List Nat :=
  let found := (aggregateNames aggregateFunctions).filterMap (getFieldIndex (canonicalSchema fields))
  if found.isEmpty && !aggregateFunctions.isEmpty then [0] else found

def aggregateFields : List Field := (aggregateIndices fields aggregateFunctions).filterMap (fields[·]?)

/-- The kernel that has taken a schema. -/
def cached (groups : List (TupleKey ν × List (List (Option ν)))) : GroupKernel ν where
  groupColumnNames := groupColumnNames.map canonicalize
  aggregateFunctions := aggregateFunctions
  groupColumnIndices := groupIndices fields groupColumnNames
  aggregateColumnIndices := aggregateIndices fields aggregateFunctions
  inputSchema := some (canonicalSchema fields)
  aggregateInputSchema := some (aggregateFields fields aggregateFunctions)
  groupArrayAppenderVectorMap := groups

structure Ready : Prop where
  groupColumns : ∀ columnName ∈ groupColumnNames,
    (getFieldIndex (canonicalSchema fields) (canonicalize columnName)).isSome
  aggregateColumns : ∀ function ∈ aggregateFunctions, ∀ columnName ∈ function.columnNames,
    (getFieldIndex (canonicalSchema fields) columnName).isSome
  someColumn : aggregateFunctions ≠ [] → fields ≠ []

variable {fields groupColumnNames aggregateFunctions}

theorem aggregateIndices_lt (ready : Ready fields groupColumnNames aggregateFunctions) :
    ∀ c ∈ aggregateIndices fields aggregateFunctions, c < fields.length := by
  intro c inside
  rw [aggregateIndices] at inside
  split at inside
  next none =>
    obtain rfl := List.mem_singleton.mp inside
    apply List.length_pos_iff.mpr
    apply ready.someColumn
    rintro rfl
    simp at none
  next =>
    obtain ⟨columnName,_,found⟩ := List.mem_filterMap.mp inside
    simpa [canonicalSchema] using getFieldIndex_lt found

theorem cache_first (table : Table ν) (kernel : GroupKernel ν) :
    (GroupKernel.make groupColumnNames aggregateFunctions).cache table = .ok kernel ↔
      Ready table.fields groupColumnNames aggregateFunctions ∧
      kernel = cached table.fields groupColumnNames aggregateFunctions [] := by
  have reads : (∃ groupColumnIndices, GroupKernel.fieldIndices "Group" (canonicalSchema table.fields)
      (groupColumnNames.map canonicalize) = .ok groupColumnIndices) ↔ ∀ columnName ∈ groupColumnNames,
        (getFieldIndex (canonicalSchema table.fields) (canonicalize columnName)).isSome := by
    simp [fieldIndices_eq]
  have aggregates : (∃ found, GroupKernel.fieldIndices "Aggregate" (canonicalSchema table.fields)
      (aggregateNames aggregateFunctions) = .ok found) ↔
        ∀ function ∈ aggregateFunctions, ∀ columnName ∈ function.columnNames,
        (getFieldIndex (canonicalSchema table.fields) columnName).isSome := by
    simp only [fieldIndices_eq,mem_aggregateNames,exists_and_left]
    simp only [exists_eq,and_true]
    exact ⟨fun all function inside columnName member => all columnName ⟨function,inside,member⟩,
      fun all columnName ⟨function,inside,member⟩ => all function inside columnName member⟩
  have blank : (GroupKernel.make groupColumnNames aggregateFunctions).inputSchema = none := rfl
  have groupNames : (GroupKernel.make groupColumnNames aggregateFunctions).groupColumnNames =
      groupColumnNames.map canonicalize := rfl
  have names : (GroupKernel.make groupColumnNames aggregateFunctions).getAggregateColumnNames.filter
      (fun columnName => columnName != COUNT_STAR_COLUMN) = aggregateNames aggregateFunctions := rfl
  rw [GroupKernel.cache,blank]
  dsimp only
  rw [groupNames,names]
  cases groups : GroupKernel.fieldIndices "Group" (canonicalSchema table.fields)
    (groupColumnNames.map canonicalize) with
  | error error =>
    refine iff_of_false (by simp) ?_
    rintro ⟨ready,_⟩
    obtain ⟨_,wrong⟩ := reads.mpr ready.groupColumns
    rw [groups] at wrong
    cases wrong
  | ok groupColumnIndices =>
    dsimp only
    cases columns : GroupKernel.fieldIndices "Aggregate" (canonicalSchema table.fields)
      (aggregateNames aggregateFunctions) with
    | error error =>
      refine iff_of_false (by simp) ?_
      rintro ⟨ready,_⟩
      obtain ⟨_,wrong⟩ := aggregates.mpr ready.aggregateColumns
      rw [columns] at wrong
      cases wrong
    | ok found =>
      obtain ⟨_,rfl⟩ := fieldIndices_eq.mp groups
      obtain ⟨_,rfl⟩ := fieldIndices_eq.mp columns
      have picks : (if ((aggregateNames aggregateFunctions).filterMap (getFieldIndex (canonicalSchema table.fields))).isEmpty &&
          !(GroupKernel.make groupColumnNames aggregateFunctions).aggregateFunctions.isEmpty then [0]
          else (aggregateNames aggregateFunctions).filterMap (getFieldIndex (canonicalSchema table.fields))) =
            aggregateIndices table.fields aggregateFunctions := rfl
      dsimp only
      rw [picks]
      cases picked : GroupKernel.fieldsAt table.fields (aggregateIndices table.fields aggregateFunctions) with
      | none =>
        refine iff_of_false (by simp) ?_
        rintro ⟨ready,_⟩
        have wrong := fieldsAt_eq.mpr ⟨aggregateIndices_lt ready,rfl⟩
        rw [picked] at wrong
        cases wrong
      | some aggregateFields =>
        obtain ⟨bounds,rfl⟩ := fieldsAt_eq.mp picked
        constructor
        · intro same
          refine ⟨⟨reads.mp ⟨_,groups⟩,aggregates.mp ⟨_,columns⟩,?_⟩,(Except.ok.inj same).symm⟩
          intro functions none
          have empty : (aggregateNames aggregateFunctions).filterMap (getFieldIndex (canonicalSchema [])) = [] :=
            List.filterMap_eq_nil_iff.mpr fun _ _ => rfl
          have first : 0 ∈ aggregateIndices table.fields aggregateFunctions := by
            rw [aggregateIndices,none,empty]
            simp [functions]
          simpa [none] using bounds 0 first
        · rintro ⟨_,rfl⟩
          rfl

variable (fields groupColumnNames) in
def rawKey (row : List (Slot ν)) : TupleKey ν :=
  (groupIndices fields groupColumnNames).filterMap fun c => fields[c]?.bind fun field => row[c]?.map fun slot => (field.type,slot.raw)

variable (fields aggregateFunctions) in
def stored (row : List (Slot ν)) :
    List (Option ν) := select (row.map Slot.value) (aggregateIndices fields aggregateFunctions)

theorem groupIndices_lt : ∀ c ∈ groupIndices fields groupColumnNames, c < fields.length := by
  intro c inside
  obtain ⟨columnName,_,found⟩ := List.mem_filterMap.mp inside
  simpa [canonicalSchema] using getFieldIndex_lt found

def cellsOf (key : TupleKey ν) : List (List (DataType × Option ν)) :=
    key.map fun element => [(element.1,some element.2)]

theorem cellsOf_injective : Function.Injective (cellsOf : TupleKey ν → _) := by
  apply List.map_injective_iff.mpr
  intro first second same
  simp only [List.cons.injEq,Prod.mk.injEq,Option.some.injEq,and_true] at same
  exact Prod.ext same.1 same.2

theorem key_cells (ready : Ready fields groupColumnNames aggregateFunctions) {row : List (Slot ν)}
    (shaped : row.length = fields.length) :
    List.Forall₂ (fun cell element => ∃ value, cell = [(element.1,value)] ∧ (value = none ∨ value = some element.2))
      (keyOf groupColumnNames (recordOf (canonicalSchema fields) row)) (rawKey fields groupColumnNames row) := by
  have found := ready.groupColumns
  rw [keyOf,rawKey,groupIndices]
  clear ready
  induction groupColumnNames with
  | nil => exact List.Forall₂.nil
  | cons columnName groupColumnNames ih =>
    obtain ⟨here,later⟩ := List.forall_mem_cons.mp found
    obtain ⟨c,index⟩ := Option.isSome_iff_exists.mp here
    obtain ⟨field,slot,there,_,value,cell⟩ := recordOf_found (by simpa [canonicalSchema] using shaped) index
    obtain ⟨field,raw,rfl⟩ := List.getElem?_map.symm.trans there |> Option.map_eq_some_iff.mp
    rw [List.map_cons,List.map_cons,List.filterMap_cons_some index,
      List.filterMap_cons_some (by rw [raw,value]; rfl),cell]
    refine List.Forall₂.cons ⟨slot.value,rfl,?_⟩ (ih later)
    unfold Slot.value
    split
    next => exact .inr rfl
    next => exact .inl rfl

theorem keyOf_eq (ready : Ready fields groupColumnNames aggregateFunctions) {row : List (Slot ν)}
    (shaped : row.length = fields.length)
    (filled : ∀ cell ∈ keyOf groupColumnNames (recordOf (canonicalSchema fields) row), cellValue cell ≠ none) :
    keyOf groupColumnNames (recordOf (canonicalSchema fields) row) = cellsOf (rawKey fields groupColumnNames row) := by
  have cells := key_cells ready shaped
  revert filled
  generalize keyOf groupColumnNames (recordOf (canonicalSchema fields) row) = key at cells
  generalize rawKey fields groupColumnNames row = elements at cells
  intro filled
  induction cells with
  | nil => rfl
  | cons here _ ih =>
    obtain ⟨value,rfl,empty | rfl⟩ := here
    · exact absurd empty (filled _ List.mem_cons_self)
    · rw [ih fun cell inside => filled cell (List.mem_cons_of_mem _ inside)]
      rfl

theorem rawKey_length (ready : Ready fields groupColumnNames aggregateFunctions) {row : List (Slot ν)}
    (shaped : row.length = fields.length) : (rawKey fields groupColumnNames row).length = groupColumnNames.length := by
  rw [← (key_cells ready shaped).length_eq,keyOf,List.length_map]

theorem canonicalSchema_getElem? {c : Nat} {field : Field} :
    (canonicalSchema fields)[c]? = some field ↔
      ∃ raw, fields[c]? = some raw ∧ field = {raw with name := canonicalize raw.name} := by
  rw [canonicalSchema,List.getElem?_map,Option.map_eq_some_iff]
  exact ⟨fun ⟨raw,there,same⟩ => ⟨raw,there,same.symm⟩,fun ⟨raw,there,same⟩ => ⟨raw,there,same.symm⟩⟩

theorem canonicalize_found {columnName : String} {c : Nat}
    (found : getFieldIndex (canonicalSchema fields) columnName = some c) :
    canonicalize columnName = columnName := by
  obtain ⟨⟨field,there,rfl⟩,_⟩ := getFieldIndex_iff.mp found
  obtain ⟨raw,_,rfl⟩ := canonicalSchema_getElem?.mp there
  exact canonicalize_canonicalize raw.name

theorem mem_aggregateIndices {columnName : String} (named : columnName ∈ aggregateNames aggregateFunctions) {c : Nat}
    (found : getFieldIndex (canonicalSchema fields) columnName = some c) :
    c ∈ aggregateIndices fields aggregateFunctions := by
  have inside : c ∈ (aggregateNames aggregateFunctions).filterMap (getFieldIndex (canonicalSchema fields)) :=
    List.mem_filterMap.mpr ⟨columnName,named,found⟩
  rw [aggregateIndices,if_neg]
  · exact inside
  · intro none
    rw [Bool.and_eq_true,List.isEmpty_iff] at none
    rw [none.1] at inside
    cases inside

theorem nodup_aggregateIndices : (aggregateIndices fields aggregateFunctions).Nodup := by
  rw [aggregateIndices]
  split
  next => exact List.nodup_singleton 0
  next =>
    apply (nodup_aggregateNames aggregateFunctions).filterMap
    intro first second c here there
    obtain ⟨⟨field,place,rfl⟩,_⟩ := getFieldIndex_iff.mp (Option.mem_def.mp here)
    obtain ⟨⟨field',place',rfl⟩,_⟩ := getFieldIndex_iff.mp (Option.mem_def.mp there)
    rw [place] at place'
    rw [Option.some.inj place']

theorem aggregateFields_getElem? (ready : Ready fields groupColumnNames aggregateFunctions) (j : Nat) :
    (aggregateFields fields aggregateFunctions)[j]? =
    (aggregateIndices fields aggregateFunctions)[j]?.bind (fields[·]?) := by
  apply Table.getElem?_filterMap_of_found
  intro c inside
  simpa using aggregateIndices_lt ready c inside

variable (fields groupColumnNames aggregateFunctions) in
structure Typed : Prop where
  keys : ∀ c ∈ groupIndices fields groupColumnNames, fields[c]?.any fun field => keyable field.type
  appenders : ∀ c ∈ aggregateIndices fields aggregateFunctions, fields[c]?.any fun field => appendable field.type

theorem records_eq {pieces : List (Table ν)} (same : ∀ piece ∈ pieces, piece.fields = fields) :
    records pieces = (pieces.flatMap Table.rows).map (recordOf (canonicalSchema fields)) := by
  rw [records,List.map_flatMap]
  apply List.flatMap_congr
  intro piece inside
  rw [same piece inside]

theorem shaped_pieces {pieces : List (Table ν)} (same : ∀ piece ∈ pieces, piece.fields = fields) :
    ∀ row ∈ pieces.flatMap Table.rows, row.length = fields.length := by
  intro row inside
  obtain ⟨piece,member,there⟩ := List.mem_flatMap.mp inside
  rw [piece.shaped row there,same piece member]

theorem field_of_name {name : String} {k : Nat} (found : getFieldIndex (canonicalSchema fields) name = some k)
    {field : Field} (inside : field ∈ fields) (named : canonicalize field.name = name) : fields[k]? = some field := by
  obtain ⟨j,bound,rfl⟩ := List.mem_iff_getElem.mp inside
  obtain ⟨_,only⟩ := getFieldIndex_iff.mp found
  obtain rfl := only j _ (canonicalSchema_getElem?.mpr ⟨_,List.getElem?_eq_getElem bound,rfl⟩) named
  exact List.getElem?_eq_getElem bound

theorem typed_iff (ready : Ready fields groupColumnNames aggregateFunctions) :
    Typed fields groupColumnNames aggregateFunctions ↔
      (∀ columnName ∈ groupColumnNames, ∀ field ∈ fields, canonicalize field.name = canonicalize columnName →
        keyable field.type = true) ∧
      (∀ function ∈ aggregateFunctions, ∀ columnName ∈ function.columnNames, ∀ field ∈ fields,
        canonicalize field.name = columnName → appendable field.type = true) ∧
      (aggregateFunctions ≠ [] → (∀ function ∈ aggregateFunctions, function.columnNames = []) →
        ∀ field ∈ fields.head?, appendable field.type = true) := by
  constructor
  · intro typed
    refine ⟨?_,?_,?_⟩
    · intro columnName member field inside named
      obtain ⟨k,found⟩ := Option.isSome_iff_exists.mp (ready.groupColumns columnName member)
      have can := typed.keys k (List.mem_filterMap.mpr ⟨canonicalize columnName,List.mem_map_of_mem member,found⟩)
      rw [field_of_name found inside named] at can
      exact can
    · intro function inside columnName member field there named
      obtain ⟨k,found⟩ := Option.isSome_iff_exists.mp (ready.aggregateColumns function inside columnName member)
      have can := typed.appenders k
        (mem_aggregateIndices (mem_aggregateNames.mpr ⟨function,inside,member⟩) found)
      rw [field_of_name found there named] at can
      exact can
    · intro some none field first
      have names : aggregateNames aggregateFunctions = [] := by
        rw [List.eq_nil_iff_forall_not_mem]
        intro columnName inside
        obtain ⟨function,member,wrong⟩ := mem_aggregateNames.mp inside
        rw [none function member] at wrong
        cases wrong
      have can := typed.appenders 0 (by simp [aggregateIndices,names,some])
      rw [← List.head?_eq_getElem?,Option.mem_def.mp first] at can
      exact can
  · rintro ⟨keys,appenders,first⟩
    constructor
    · intro k inside
      obtain ⟨_,member,found⟩ := List.mem_filterMap.mp inside
      obtain ⟨columnName,chosen,rfl⟩ := List.mem_map.mp member
      obtain ⟨⟨_,there,named⟩,_⟩ := getFieldIndex_iff.mp found
      obtain ⟨field,raw,rfl⟩ := canonicalSchema_getElem?.mp there
      rw [raw]
      exact keys columnName chosen field (List.mem_of_getElem? raw) named
    · intro k inside
      rw [aggregateIndices] at inside
      split at inside
      next none =>
        obtain rfl := List.mem_singleton.mp inside
        rw [Bool.and_eq_true,List.isEmpty_iff,List.filterMap_eq_nil_iff] at none
        have some : aggregateFunctions ≠ [] := by
          rintro rfl
          simp at none
        have blank : ∀ function ∈ aggregateFunctions, function.columnNames = [] := by
          intro function member
          rw [List.eq_nil_iff_forall_not_mem]
          intro columnName there
          have found := ready.aggregateColumns function member columnName there
          rw [none.1 columnName (mem_aggregateNames.mpr ⟨function,member,there⟩)] at found
          cases found
        obtain ⟨field,later,rfl⟩ := List.exists_cons_of_ne_nil (ready.someColumn some)
        exact first some blank field rfl
      next =>
        obtain ⟨columnName,member,found⟩ := List.mem_filterMap.mp inside
        obtain ⟨function,member,there⟩ := mem_aggregateNames.mp member
        obtain ⟨⟨_,place,named⟩,_⟩ := getFieldIndex_iff.mp found
        obtain ⟨field,raw,rfl⟩ := canonicalSchema_getElem?.mp place
        rw [raw]
        exact appenders function member columnName there field (List.mem_of_getElem? raw) named

theorem aggregateFields_found (ready : Ready fields groupColumnNames aggregateFunctions)
    {function : AggregateFunction ν}
    (inside : function ∈ aggregateFunctions) {columnName : String} (member : columnName ∈ function.columnNames)
    (spelled : ∃ field ∈ fields, field.name = columnName) :
    ∃ c j field, getFieldIndex (canonicalSchema fields) columnName = some c ∧
      getFieldIndex (aggregateFields fields aggregateFunctions) columnName = some j ∧
      (aggregateIndices fields aggregateFunctions)[j]? = some c ∧ fields[c]? = some field ∧
      field.name = columnName := by
  obtain ⟨c,found⟩ := Option.isSome_iff_exists.mp (ready.aggregateColumns function inside columnName member)
  have own := canonicalize_found found
  obtain ⟨_,only⟩ := getFieldIndex_iff.mp found
  have same : ∀ (other : Nat) (field : Field), fields[other]? = some field → field.name = columnName → other = c := by
    intro other field there named
    exact only other _ (canonicalSchema_getElem?.mpr ⟨field,there,rfl⟩) (by rw [named,own])
  obtain ⟨field,there,rfl⟩ := spelled
  obtain ⟨k,bound,here⟩ := List.mem_iff_getElem.mp there
  have raw : fields[k]? = some field := by rw [List.getElem?_eq_getElem bound,here]
  obtain rfl := same k field raw rfl
  obtain ⟨j,small,place⟩ := List.mem_iff_getElem.mp
    (mem_aggregateIndices (mem_aggregateNames.mpr ⟨function,inside,member⟩) found)
  have place' : (aggregateIndices fields aggregateFunctions)[j]? =
      some k := by rw [List.getElem?_eq_getElem small,place]
  refine ⟨k,j,field,found,getFieldIndex_iff.mpr ⟨⟨field,?_,rfl⟩,?_⟩,place',raw,rfl⟩
  · rw [aggregateFields_getElem? ready,place']
    exact raw
  · intro other field' there' named
    rw [aggregateFields_getElem? ready,Option.bind_eq_some_iff] at there'
    obtain ⟨c',spot,raw'⟩ := there'
    obtain rfl := same c' field' raw' named
    obtain ⟨small',spot⟩ := List.getElem?_eq_some_iff.mp spot
    exact (nodup_aggregateIndices.getElem_inj_iff).mp (spot.trans place.symm)

theorem missing_eq_none (ready : Ready fields groupColumnNames aggregateFunctions) {function : AggregateFunction ν}
    (inside : function ∈ aggregateFunctions) : function.missing (aggregateFields fields aggregateFunctions) = none ↔
      ∀ columnName ∈ function.columnNames, ∃ field ∈ fields, field.name = columnName := by
  rw [AggregateFunction.missing,List.find?_eq_none]
  apply forall₂_congr
  intro columnName member
  rw [Option.isNone_iff_eq_none,← ne_eq,Option.ne_none_iff_exists']
  constructor
  · rintro ⟨j,found⟩
    obtain ⟨⟨field,there,named⟩,_⟩ := getFieldIndex_iff.mp found
    rw [aggregateFields_getElem? ready,Option.bind_eq_some_iff] at there
    obtain ⟨c,_,raw⟩ := there
    exact ⟨field,List.mem_of_getElem? raw,named⟩
  · intro spelled
    obtain ⟨_,j,_,_,found,_⟩ := aggregateFields_found ready inside member spelled
    exact ⟨j,found⟩

theorem filterMap_filterMap_congr {α β γ : Type} {lookup lookup' : α → Option β} {read read' : β → Option γ}
    {elements : List α} (same : ∀ element ∈ elements, (lookup element).bind read = (lookup' element).bind read') :
    (elements.filterMap lookup).filterMap read = (elements.filterMap lookup').filterMap read' := by
  rw [List.filterMap_filterMap,List.filterMap_filterMap]
  exact List.filterMap_congr same

theorem types_eq (ready : Ready fields groupColumnNames aggregateFunctions) {function : AggregateFunction ν}
    (inside : function ∈ aggregateFunctions)
    (spelled : ∀ columnName ∈ function.columnNames, ∃ field ∈ fields, field.name = columnName) :
    AggregateFunction.types (aggregateFields fields aggregateFunctions) function.columnNames =
      AggregateFunction.types (canonicalSchema fields) function.columnNames := by
  apply filterMap_filterMap_congr
  intro columnName member
  obtain ⟨c,j,field,found,again,place,raw,_⟩ := aggregateFields_found ready inside member (spelled columnName member)
  rw [found,again,Option.bind_some,Option.bind_some,aggregateFields_getElem? ready,place,Option.bind_some,raw,
    canonicalSchema,
    List.getElem?_map,raw]
  rfl

theorem compile_ok (ready : Ready fields groupColumnNames aggregateFunctions) {function : AggregateFunction ν}
    (inside : function ∈ aggregateFunctions) :
    (∃ type, function.compile (aggregateFields fields aggregateFunctions) = .ok type) ↔
      (function.compiled = true → ∀ columnName ∈ function.columnNames, ∃ field ∈ fields, field.name = columnName) := by
  rw [← missing_eq_none ready inside,AggregateFunction.compile]
  cases function.compiled with
  | false => exact ⟨fun _ wrong => (by cases wrong),fun _ => ⟨_,rfl⟩⟩
  | true =>
    rw [if_pos rfl]
    cases function.missing (aggregateFields fields aggregateFunctions) with
    | none => exact ⟨fun _ _ => rfl,fun _ => ⟨_,rfl⟩⟩
    | some columnName =>
      refine iff_of_false ?_ ?_
      · rintro ⟨_,wrong⟩
        cases wrong
      · intro wrong
        cases wrong rfl

theorem select_stored (ready : Ready fields groupColumnNames aggregateFunctions) {function : AggregateFunction ν}
    (inside : function ∈ aggregateFunctions)
    (spelled : ∀ columnName ∈ function.columnNames, ∃ field ∈ fields, field.name = columnName)
    {row : List (Slot ν)} (shaped : row.length = fields.length) :
    select (stored fields aggregateFunctions row)
      (AggregateFunction.indices (aggregateFields fields aggregateFunctions) function.columnNames) =
        function.columnNames.map fun columnName => cellValue (recordOf (canonicalSchema fields) row columnName) := by
  rw [select,AggregateFunction.indices,List.map_filterMap,← List.filterMap_eq_map]
  apply List.filterMap_congr
  intro columnName member
  obtain ⟨c,j,field,found,again,place,raw,_⟩ := aggregateFields_found ready inside member (spelled columnName member)
  obtain ⟨_,slot,_,_,value,cell⟩ := recordOf_found (by simpa [canonicalSchema] using shaped) found
  rw [again,Option.map_some,Function.comp_apply,cell,stored,select,List.getElem?_map,place,Option.map_some,
    List.getElem?_map,value]
  rfl

theorem computeComplete_ok (ready : Ready fields groupColumnNames aggregateFunctions) {function : AggregateFunction ν}
    (inside : function ∈ aggregateFunctions) {rows : List (List (Slot ν))}
    (shaped : ∀ row ∈ rows, row.length = fields.length) {scalar : Scalar ν} :
    function.computeComplete (aggregateFields fields aggregateFunctions) (rows.map (stored fields aggregateFunctions)) =
        .ok scalar ↔
      (∀ columnName ∈ function.columnNames, ∃ field ∈ fields, field.name = columnName) ∧
        aggregate fields function (rows.map (recordOf (canonicalSchema fields))) = .ok scalar := by
  rw [AggregateFunction.computeComplete]
  cases none : function.missing (aggregateFields fields aggregateFunctions) with
  | some columnName =>
    refine iff_of_false (by intro wrong; cases wrong) ?_
    rintro ⟨spelled,_⟩
    rw [(missing_eq_none ready inside).mpr spelled] at none
    cases none
  | none =>
    have spelled := (missing_eq_none ready inside).mp none
    have reads : (rows.map (stored fields aggregateFunctions)).map (fun row => select row
        (AggregateFunction.indices (aggregateFields fields aggregateFunctions) function.columnNames)) =
        (rows.map (recordOf (canonicalSchema fields))).map fun record =>
          function.columnNames.map fun columnName => cellValue (record columnName) := by
      rw [List.map_map,List.map_map]
      apply List.map_congr_left
      intro row member
      exact select_stored ready inside spelled (shaped row member)
    rw [types_eq ready inside spelled,reads]
    have value : function.compute (AggregateFunction.types (canonicalSchema fields) function.columnNames)
        ((rows.map (recordOf (canonicalSchema fields))).map fun record =>
          function.columnNames.map fun columnName => cellValue (record columnName)) =
        aggregate fields function (rows.map (recordOf (canonicalSchema fields))) := rfl
    dsimp only
    rw [value]
    cases aggregate fields function (rows.map (recordOf (canonicalSchema fields))) with
    | error error =>
      refine iff_of_false (by intro wrong; cases wrong) ?_
      rintro ⟨_,wrong⟩
      cases wrong
    | ok result =>
      refine ⟨fun same => ⟨spelled,by rw [Except.ok.inj same]⟩,?_⟩
      rintro ⟨_,same⟩
      rw [Except.ok.inj same]

variable (runtime : Runtime ν)

def given (scalar : Scalar ν) : List (Option ν) :=
  if buildable scalar.type then [some (scalar.value.getD (runtime.blank scalar.type))] else []

def appended (builders : List (ColumnBuilder ν)) (rows : List (List (Scalar ν))) : List (ColumnBuilder ν) :=
  builders.mapIdx fun c builder => {builder with
    values := builder.values ++ rows.flatMap fun row => (row[c]?.map (given runtime)).getD []}

theorem appended_nothing {builders : List (ColumnBuilder ν)} {rows : List (List (Scalar ν))}
    (nothing : ∀ row ∈ rows, row = []) :
    appended runtime builders rows = builders := by
  apply List.ext_getElem?
  intro c
  have none : rows.flatMap (fun row => (row[c]?.map (given runtime)).getD []) = [] := by
    rw [List.flatMap_eq_nil_iff]
    intro row inside
    rw [nothing row inside]
    rfl
  rw [appended,List.getElem?_mapIdx,none]
  cases builders[c]? with
  | none => rfl
  | some builder => simp

theorem appended_names (builders : List (ColumnBuilder ν)) (rows : List (List (Scalar ν))) :
    (appended runtime builders rows).map ColumnBuilder.name = builders.map ColumnBuilder.name := by
  apply List.ext_getElem
  · simp [appended]
  · intro c _ _
    simp [appended]

theorem columns_of_given {width : Nat} {rows : List (List (Scalar ν))}
    (length : ∀ row ∈ rows, row.length = width)
    (taken : ∀ row ∈ rows, ∀ scalar ∈ row, given runtime scalar = [scalar.value])
    {c : Nat} (bound : c < width) : rows.flatMap (fun row => (row[c]?.map (given runtime)).getD []) =
      (rows.map (List.map Scalar.value)).map fun row => row[c]?.join := by
  rw [List.map_map,List.map_eq_flatMap]
  apply List.flatMap_congr
  intro row inside
  have small : c < row.length := (length row inside).symm ▸ bound
  rw [List.getElem?_eq_getElem small,Option.map_some,Option.getD_some,taken row inside _ (List.getElem_mem small),
    Function.comp_apply,List.getElem?_map,List.getElem?_eq_getElem small]
  rfl

theorem column_eq {columns answer : List (List (Option ν))} {rows : List (List (Scalar ν))} {width : Nat}
    (made : columns = (List.range width).map fun c => rows.flatMap fun row => (row[c]?.map (given runtime)).getD [])
    (expected : columns = (List.range width).map fun c => answer.map fun row => row[c]?.join) {c : Nat}
    (bound : c < width) :
    (rows.flatMap fun row => (row[c]?.map (given runtime)).getD []) = answer.map fun row => row[c]?.join := by
  have same := made.symm.trans expected
  have here := congrArg (·[c]?) same
  simpa [bound] using here

theorem column_filled {answer : List (List (Option ν))} {rows : List (List (Scalar ν))} {c : Nat}
    (same : (rows.flatMap fun row => (row[c]?.map (given runtime)).getD []) = answer.map fun row => row[c]?.join) :
    ∀ row ∈ answer, ∃ value, row[c]? = some (some value) := by
  intro row inside
  have member : row[c]?.join ∈ answer.map fun row => row[c]?.join := List.mem_map_of_mem inside
  rw [← same] at member
  obtain ⟨scalars,_,there⟩ := List.mem_flatMap.mp member
  cases picked : scalars[c]? with
  | none =>
    rw [picked] at there
    cases there
  | some scalar =>
    rw [picked,Option.map_some,Option.getD_some,given] at there
    split at there
    next =>
      have value := List.mem_singleton.mp there
      cases cell : row[c]? with
      | none =>
        rw [cell] at value
        cases value
      | some cell' =>
        rw [cell] at value
        exact ⟨_,congrArg _ value⟩
    next => cases there

theorem length_flatMap_le {α β : Type} {part : α → List β} (one : ∀ element, (part element).length ≤ 1)
    (elements : List α) :
    (elements.flatMap part).length ≤ elements.length := by
  induction elements with
  | nil => exact Nat.le_refl 0
  | cons element elements ih =>
    have first := one element
    rw [List.flatMap_cons,List.length_append,List.length_cons]
    omega

theorem length_flatMap_one {α β : Type} {part : α → List β} {elements : List α}
    (one : ∀ element ∈ elements, (part element).length = 1) : (elements.flatMap part).length = elements.length := by
  induction elements with
  | nil => rfl
  | cons element elements ih =>
    rw [List.flatMap_cons,List.length_append,List.length_cons,one element List.mem_cons_self,
      ih fun later inside => one later (List.mem_cons_of_mem _ inside),Nat.add_comm]

theorem flatMap_full {α β : Type} {part : α → List β} (one : ∀ element, (part element).length ≤ 1) {elements : List α}
    (full : (elements.flatMap part).length = elements.length) : ∀ element ∈ elements, part element ≠ [] := by
  induction elements with
  | nil => exact fun _ inside => absurd inside List.not_mem_nil
  | cons element elements ih =>
    have first := one element
    have rest := length_flatMap_le one elements
    rw [List.flatMap_cons,List.length_append,List.length_cons] at full
    refine List.forall_mem_cons.mpr ⟨?_,ih (by omega)⟩
    intro none
    rw [none,List.length_nil] at full
    omega

theorem column_taken {answer : List (List (Option ν))} {rows : List (List (Scalar ν))} {c : Nat}
    (same : (rows.flatMap fun row => (row[c]?.map (given runtime)).getD []) = answer.map fun row => row[c]?.join)
    (count : answer.length = rows.length) :
    ∀ row ∈ rows, ∃ scalar, row[c]? = some scalar ∧ buildable scalar.type = true := by
  have one : ∀ row : List (Scalar ν), ((row[c]?.map (given runtime)).getD []).length ≤ 1 := by
    intro row
    cases row[c]? with
    | none => exact Nat.zero_le 1
    | some scalar =>
      rw [Option.map_some,Option.getD_some,given]
      split
      next => exact le_rfl
      next => exact Nat.zero_le 1
  intro row inside
  have some := flatMap_full one (by rw [same,List.length_map,count]) row inside
  cases picked : row[c]? with
  | none =>
    rw [picked] at some
    exact absurd rfl some
  | some scalar =>
    refine ⟨scalar,rfl,?_⟩
    by_contra cannot
    rw [picked,Option.map_some,Option.getD_some,given,if_neg cannot] at some
    exact some rfl

def Fits (builders : List (ColumnBuilder ν)) (row : List (Scalar ν)) : Prop :=
  ∀ (c : Nat) (builder : ColumnBuilder ν) (scalar : Scalar ν), builders[c]? = some builder → row[c]? = some scalar →
    buildable scalar.type = true →
    scalar.type = builder.type

theorem append_ok {builder next : ColumnBuilder ν} {scalar : Scalar ν} :
    builder.append runtime scalar = .ok next ↔ (buildable scalar.type = true → scalar.type = builder.type) ∧
      next = {builder with values := builder.values ++ given runtime scalar} := by
  rw [ColumnBuilder.append,given]
  cases can : buildable scalar.type with
  | false =>
    simp only [Bool.false_eq_true,if_false,false_implies,true_and,List.append_nil]
    exact ⟨fun same => (Except.ok.inj same).symm,fun same => congrArg _ same.symm⟩
  | true =>
    simp only [if_true,true_implies]
    split
    next same => exact ⟨fun done => ⟨same,(Except.ok.inj done).symm⟩,fun both => congrArg _ both.2.symm⟩
    next other =>
      refine iff_of_false (by intro wrong; cases wrong) ?_
      rintro ⟨wrong,_⟩
      exact other wrong

theorem appendRow_ok {builders next : List (ColumnBuilder ν)} {row : List (Scalar ν)} :
    GroupKernel.appendRow runtime builders row = .ok next ↔ Fits builders row ∧
    next = appended runtime builders [row] := by
  induction builders generalizing row next with
  | nil =>
    rw [GroupKernel.appendRow.eq_def]
    refine ⟨fun same => ⟨fun _ _ _ wrong => (by cases wrong),(Except.ok.inj same).symm⟩,
      fun both => congrArg _ both.2.symm⟩
  | cons builder builders ih =>
    cases row with
    | nil =>
      have same : appended runtime (builder::builders) [[]] = builder::builders :=
        appended_nothing runtime fun row inside => List.mem_singleton.mp inside
      rw [GroupKernel.appendRow.eq_def,same]
      exact ⟨fun same => ⟨fun _ _ _ _ wrong => (by cases wrong),(Except.ok.inj same).symm⟩,
        fun both => congrArg _ both.2.symm⟩
    | cons scalar row =>
      have fits : Fits (builder::builders) (scalar::row) ↔
          (buildable scalar.type = true → scalar.type = builder.type) ∧ Fits builders row := by
        constructor
        · intro all
          exact ⟨all 0 builder scalar rfl rfl,fun c => all (c+1)⟩
        · rintro ⟨first,later⟩ c
          cases c with
          | zero =>
            rintro _ _ same same'
            cases same
            cases same'
            exact first
          | succ c => exact later c
      have whole : appended runtime (builder::builders) [scalar::row] =
          {builder with values := builder.values ++ given runtime scalar}::appended runtime builders [row] := by
        simp [appended]
      rw [GroupKernel.appendRow,fits,whole]
      cases first : builder.append runtime scalar with
      | error failure =>
        refine iff_of_false (by intro wrong; cases wrong) ?_
        rintro ⟨⟨here,_⟩,_⟩
        have wrong := (append_ok runtime).mpr ⟨here,rfl⟩
        rw [first] at wrong
        cases wrong
      | ok next =>
        obtain ⟨here,rfl⟩ := (append_ok runtime).mp first
        dsimp only
        cases later : GroupKernel.appendRow runtime builders row with
        | error failure =>
          refine iff_of_false (by intro wrong; cases wrong) ?_
          rintro ⟨⟨_,rest⟩,_⟩
          have wrong := ih.mpr ⟨rest,rfl⟩
          rw [later] at wrong
          cases wrong
        | ok more =>
          obtain ⟨rest,rfl⟩ := ih.mp later
          exact ⟨fun same => ⟨⟨here,rest⟩,(Except.ok.inj same).symm⟩,fun both => congrArg _ both.2.symm⟩

theorem appendRows_ok {builders next : List (ColumnBuilder ν)} {rows : List (List (Scalar ν))} :
    rows.foldlM (GroupKernel.appendRow runtime) builders = .ok next ↔
      (∀ row ∈ rows, Fits builders row) ∧ next = appended runtime builders rows := by
  induction rows generalizing builders with
  | nil =>
    have same : appended runtime builders [] = builders :=
      appended_nothing runtime fun _ inside => absurd inside List.not_mem_nil
    rw [same]
    exact ⟨fun done => ⟨fun _ inside => absurd inside List.not_mem_nil,(Except.ok.inj done).symm⟩,
      fun both => congrArg _ both.2.symm⟩
  | cons row rows ih =>
    have types : ∀ other, Fits (appended runtime builders [row]) other ↔ Fits builders other := by
      intro other
      simp only [Fits,appended,List.getElem?_mapIdx,Option.map_eq_some_iff]
      constructor
      · intro all c builder scalar here
        have there := all c {builder with values := _} scalar ⟨builder,here,rfl⟩
        exact there
      · rintro all c _ scalar ⟨builder,here,rfl⟩
        exact all c builder scalar here
    have whole : appended runtime (appended runtime builders [row]) rows = appended runtime builders (row::rows) := by
      simp [appended,List.mapIdx_mapIdx,Function.comp_def]
    rw [foldlM_cons_eq_ok,List.forall_mem_cons]
    constructor
    · rintro ⟨middle,first,later⟩
      obtain ⟨here,rfl⟩ := (appendRow_ok runtime).mp first
      obtain ⟨rest,rfl⟩ := ih.mp later
      exact ⟨⟨here,fun other inside => (types other).mp (rest other inside)⟩,whole⟩
    · rintro ⟨⟨here,rest⟩,rfl⟩
      exact ⟨_,(appendRow_ok runtime).mpr ⟨here,rfl⟩,
        ih.mpr ⟨fun other inside => (types other).mpr (rest other inside),whole.symm⟩⟩

theorem appended_values {builders : List (ColumnBuilder ν)} (blank : ∀ builder ∈ builders, builder.values = [])
    (rows : List (List (Scalar ν))) : (appended runtime builders rows).map ColumnBuilder.values =
      (List.range builders.length).map fun c => rows.flatMap fun row => (row[c]?.map (given runtime)).getD [] := by
  apply List.ext_getElem
  · simp [appended]
  · intro c bound _
    have small : c < builders.length := by simpa [appended] using bound
    simp only [appended,List.getElem_map,List.getElem_mapIdx,List.getElem_range]
    rw [blank _ (List.getElem_mem small),List.nil_append]

end

section
variable {fields : List Field} {groupColumnNames : List String} {aggregateFunctions : List (AggregateFunction ν)}

variable (fields groupColumnNames aggregateFunctions) in
def builders : List (ColumnBuilder ν) :=
  (cached fields groupColumnNames aggregateFunctions []).makeBuilders (canonicalSchema fields)
    (aggregateFields fields aggregateFunctions)

theorem key_column (ready : Ready fields groupColumnNames aggregateFunctions) {c : Nat} {columnName : String}
    (named : groupColumnNames[c]? = some columnName) :
    ∃ field ∈ fields, canonicalize field.name = canonicalize columnName ∧
      (builders fields groupColumnNames aggregateFunctions)[c]? = some ⟨canonicalize columnName,field.type,[]⟩ ∧
      ∀ row : List (Slot ν), row.length = fields.length → ∃ slot : Slot ν,
        (rawKey fields groupColumnNames row)[c]? = some (field.type,slot.raw) ∧
        recordOf (canonicalSchema fields) row (canonicalize columnName) = [(field.type,slot.value)] := by
  obtain ⟨k,found⟩ := Option.isSome_iff_exists.mp (ready.groupColumns columnName (List.mem_of_getElem? named))
  obtain ⟨⟨canonical,there,name⟩,_⟩ := getFieldIndex_iff.mp found
  obtain ⟨field,raw,rfl⟩ := canonicalSchema_getElem?.mp there
  have index : (groupIndices fields groupColumnNames)[c]? = some k := by
    rw [groupIndices,Table.getElem?_filterMap_of_found]
    · rw [List.getElem?_map,named]
      exact found
    · intro name inside
      obtain ⟨columnName,member,rfl⟩ := List.mem_map.mp inside
      exact ready.groupColumns columnName member
  have schema : ∀ k ∈ groupIndices fields groupColumnNames, k < (canonicalSchema fields).length := by
    intro k inside
    simpa [canonicalSchema] using groupIndices_lt k inside
  refine ⟨field,List.mem_of_getElem? raw,name,?_,?_⟩
  · rw [builders,GroupKernel.makeBuilders,List.getElem?_append_left,Table.getElem?_filterMap_of_found]
    · dsimp only [cached]
      rw [index,Option.bind_some,there,Option.map_some]
      dsimp only at name ⊢
      rw [name]
    · intro k inside
      simpa using schema k inside
    · rw [Table.length_filterMap_of_found _ _ fun k inside => by simpa using schema k inside]
      exact (List.getElem?_eq_some_iff.mp index).1
  · intro row shaped
    obtain ⟨field',slot,there',_,value,cell⟩ := recordOf_found (by simpa [canonicalSchema] using shaped) found
    rw [there] at there'
    obtain rfl := Option.some.inj there'
    refine ⟨slot,?_,cell⟩
    rw [rawKey,Table.getElem?_filterMap_of_found]
    · rw [index,Option.bind_some,raw,Option.bind_some,value,Option.map_some]
    · intro k inside
      have bound := groupIndices_lt k inside
      rw [List.getElem?_eq_getElem bound,List.getElem?_eq_getElem (shaped.symm ▸ bound)]
      rfl

theorem length_keyBuilders (ready : Ready fields groupColumnNames aggregateFunctions) :
    ((cached fields groupColumnNames aggregateFunctions []).groupColumnIndices.filterMap fun c =>
      (canonicalSchema fields)[c]?.map fun field => (⟨field.name,field.type,[]⟩ : ColumnBuilder ν)).length =
        groupColumnNames.length := by
  rw [Table.length_filterMap_of_found]
  · change (groupIndices fields groupColumnNames).length = _
    rw [groupIndices,Table.length_filterMap_of_found,List.length_map]
    intro name inside
    obtain ⟨columnName,member,rfl⟩ := List.mem_map.mp inside
    exact ready.groupColumns columnName member
  · intro k inside
    simpa [canonicalSchema] using groupIndices_lt k inside

theorem function_column (ready : Ready fields groupColumnNames aggregateFunctions) {i : Nat}
    {function : AggregateFunction ν} (there : aggregateFunctions[i]? = some function) :
    (builders fields groupColumnNames aggregateFunctions)[groupColumnNames.length+i]? = some ⟨function.outputColumnName,
      function.returnType (AggregateFunction.types (aggregateFields fields aggregateFunctions) function.columnNames),[]⟩ := by
  rw [builders,GroupKernel.makeBuilders,List.getElem?_append_right (by rw [length_keyBuilders ready]; omega),
    length_keyBuilders ready,Nat.add_sub_cancel_left,List.getElem?_map]
  change aggregateFunctions[i]?.map _ = _
  rw [there]
  rfl

theorem length_builders (ready : Ready fields groupColumnNames aggregateFunctions) :
    (builders fields groupColumnNames aggregateFunctions).length =
    groupColumnNames.length+aggregateFunctions.length := by
  rw [builders,GroupKernel.makeBuilders,List.length_append,length_keyBuilders ready,List.length_map]
  rfl

theorem builders_blank : ∀ builder ∈ builders fields groupColumnNames aggregateFunctions, builder.values = [] := by
  intro builder inside
  obtain key | function := List.mem_append.mp inside
  · obtain ⟨c,_,made⟩ := List.mem_filterMap.mp key
    obtain ⟨field,_,rfl⟩ := Option.map_eq_some_iff.mp made
    rfl
  · obtain ⟨function,_,rfl⟩ := List.mem_map.mp function
    rfl

theorem builders_names (ready : Ready fields groupColumnNames aggregateFunctions) :
    (builders fields groupColumnNames aggregateFunctions).map ColumnBuilder.name =
      groupColumnNames.map canonicalize ++ aggregateFunctions.map AggregateFunction.outputColumnName := by
  apply List.ext_getElem?
  intro c
  rw [List.getElem?_map]
  by_cases key : c < groupColumnNames.length
  · obtain ⟨_,_,_,builder,_⟩ := key_column ready (List.getElem?_eq_getElem key)
    rw [builder,List.getElem?_append_left (by simpa using key),List.getElem?_map,List.getElem?_eq_getElem key]
    rfl
  · obtain ⟨i,rfl⟩ := Nat.exists_eq_add_of_le (Nat.le_of_not_lt key)
    rw [List.getElem?_append_right (by simp),List.length_map,Nat.add_sub_cancel_left,List.getElem?_map]
    cases there : aggregateFunctions[i]? with
    | none =>
      rw [List.getElem?_eq_none]
      · rfl
      · rw [length_builders ready]
        have beyond := List.getElem?_eq_none_iff.mp there
        omega
    | some function =>
      rw [function_column ready there]
      rfl

theorem values_getScalars (key : TupleKey ν) :
    (GroupKernel.getScalars key).map Scalar.value = (cellsOf key).map cellValue := by
  rw [GroupKernel.getScalars,cellsOf,List.map_map,List.map_map]
  rfl

end

section
variable [DecidableEq ν] {runtime : Runtime ν} {fields : List Field} {groupColumnNames : List String}
  {aggregateFunctions : List (AggregateFunction ν)}

variable (runtime fields groupColumnNames aggregateFunctions) in
def gather (groups : List (TupleKey ν × List (List (Option ν)))) (rows : List (List (Slot ν))) :
    Except String (List (TupleKey ν × List (List (Option ν)))) :=
  rows.foldlM (GroupKernel.groupRow runtime (cached fields groupColumnNames aggregateFunctions []) fields) groups

theorem groupTable_cached (groups : List (TupleKey ν × List (List (Option ν)))) (table : Table ν)
    (kernel : GroupKernel ν) :
    (cached table.fields groupColumnNames aggregateFunctions groups).groupTable runtime table = .ok kernel ↔
      ∃ gathered, gather runtime table.fields groupColumnNames aggregateFunctions groups table.rows = .ok gathered ∧
        kernel = cached table.fields groupColumnNames aggregateFunctions gathered := by
  have whole : (runtime.batches table).foldlM (GroupKernel.groupRecordBatch runtime
      (cached table.fields groupColumnNames aggregateFunctions groups) table.fields) groups =
      gather runtime table.fields groupColumnNames aggregateFunctions groups table.rows := by
    rw [← runtime.batches_flatten table]
    exact foldlM_flatten _ _ _
  have stored : (cached table.fields groupColumnNames aggregateFunctions groups).groupArrayAppenderVectorMap =
      groups := rfl
  rw [GroupKernel.groupTable,stored,whole]
  cases gather runtime table.fields groupColumnNames aggregateFunctions groups table.rows with
  | error error => simp
  | ok gathered =>
    constructor
    · intro same
      exact ⟨gathered,rfl,(Except.ok.inj same).symm⟩
    · rintro ⟨_,same,rfl⟩
      rw [← Except.ok.inj same]
      rfl

theorem group_later (pieces : List (Table ν)) (same : ∀ piece ∈ pieces, piece.fields = fields)
    (groups : List (TupleKey ν × List (List (Option ν)))) (kernel : GroupKernel ν) :
    (pieces.map some).foldlM (GroupKernel.group runtime)
    (cached fields groupColumnNames aggregateFunctions groups) = .ok kernel ↔
      (pieces ≠ [] → canonicalSchema fields = fields) ∧
        ∃ gathered, gather runtime fields groupColumnNames aggregateFunctions groups (pieces.flatMap Table.rows) =
        .ok gathered ∧
          kernel = cached fields groupColumnNames aggregateFunctions gathered := by
  induction pieces generalizing groups with
  | nil =>
    constructor
    · intro done
      exact ⟨fun wrong => absurd rfl wrong,groups,rfl,(Except.ok.inj done).symm⟩
    · rintro ⟨_,gathered,done,rfl⟩
      rw [← Except.ok.inj done]
      rfl
  | cons piece pieces ih =>
    obtain rfl := same piece List.mem_cons_self
    have here : GroupKernel.group runtime (cached piece.fields groupColumnNames aggregateFunctions groups)
        (some piece) =
        if canonicalSchema piece.fields = piece.fields then
          (cached piece.fields groupColumnNames aggregateFunctions groups).groupTable runtime piece
        else .error (.error ("Input tuple set schema does not match cached input tuple set schema. \nschema:\n" ++
          schemaToString (canonicalSchema piece.fields) ++ "\ncached schema:\n" ++ schemaToString piece.fields)) := by
      rw [GroupKernel.group,GroupKernel.cache]
      dsimp only [cached]
      split
      next canonical =>
        split at canonical
        next => cases canonical
        next differ =>
          rw [if_neg differ]
          exact canonical.symm
      next canonical =>
        split at canonical
        next equal =>
          rw [if_pos equal,Except.ok.inj canonical]
        next => cases canonical
    have rest := fun groups => ih (fun later inside => same later (List.mem_cons_of_mem _ inside)) groups
    rw [List.map_cons,foldlM_cons_eq_ok,here,List.flatMap_cons]
    by_cases canonical : canonicalSchema piece.fields = piece.fields
    · rw [if_pos canonical]
      constructor
      · rintro ⟨_,first,later⟩
        obtain ⟨middle,gathered,rfl⟩ := (groupTable_cached groups piece _).mp first
        obtain ⟨_,final,more,equal⟩ := (rest middle).mp later
        exact ⟨fun _ => canonical,final,foldlM_append_eq_ok.mpr ⟨middle,gathered,more⟩,equal⟩
      · rintro ⟨_,final,gathered,rfl⟩
        obtain ⟨middle,first,later⟩ := foldlM_append_eq_ok.mp gathered
        exact ⟨_,(groupTable_cached groups piece _).mpr ⟨middle,first,rfl⟩,
          (rest middle).mpr ⟨fun _ => canonical,final,later,rfl⟩⟩
    · rw [if_neg canonical]
      refine iff_of_false ?_ ?_
      · rintro ⟨_,wrong,_⟩
        cases wrong
      · rintro ⟨wrong,_⟩
        exact canonical (wrong (List.cons_ne_nil _ _))

theorem group_pieces (piece : Table ν) (pieces : List (Table ν)) (same : ∀ later ∈ pieces, later.fields = piece.fields)
    (kernel : GroupKernel ν) :
    ((piece::pieces).map some).foldlM (GroupKernel.group runtime)
    (.make groupColumnNames aggregateFunctions) = .ok kernel ↔
      Ready piece.fields groupColumnNames aggregateFunctions ∧
      (pieces ≠ [] → canonicalSchema piece.fields = piece.fields) ∧
        ∃ gathered, gather runtime piece.fields groupColumnNames aggregateFunctions []
        ((piece::pieces).flatMap Table.rows) =
          .ok gathered ∧ kernel = cached piece.fields groupColumnNames aggregateFunctions gathered := by
  have first : ∀ next, GroupKernel.group runtime (.make groupColumnNames aggregateFunctions) (some piece) = .ok next ↔
      Ready piece.fields groupColumnNames aggregateFunctions ∧
        (cached piece.fields groupColumnNames aggregateFunctions []).groupTable runtime piece = .ok next := by
    intro next
    have taken : ∀ kernel, (GroupKernel.make groupColumnNames aggregateFunctions).cache piece = .ok kernel ↔ _ :=
      cache_first piece
    rw [GroupKernel.group]
    cases result : (GroupKernel.make groupColumnNames aggregateFunctions).cache piece with
    | error failure =>
      refine iff_of_false (by intro wrong; cases wrong) ?_
      rintro ⟨ready,_⟩
      have wrong := (taken _).mpr ⟨ready,rfl⟩
      rw [result] at wrong
      cases wrong
    | ok kernel =>
      obtain ⟨ready,rfl⟩ := (taken _).mp result
      exact ⟨fun done => ⟨ready,done⟩,And.right⟩
  have rest : ∀ groups, (pieces.map some).foldlM (GroupKernel.group runtime)
      (cached piece.fields groupColumnNames aggregateFunctions groups) = .ok kernel ↔ _ :=
    fun groups => group_later pieces same groups kernel
  rw [List.map_cons,foldlM_cons_eq_ok,List.flatMap_cons]
  simp only [first]
  constructor
  · rintro ⟨_,⟨ready,here⟩,later⟩
    obtain ⟨middle,gathered,rfl⟩ := (groupTable_cached [] piece _).mp here
    obtain ⟨canonical,final,more,equal⟩ := (rest middle).mp later
    exact ⟨ready,canonical,final,foldlM_append_eq_ok.mpr ⟨middle,gathered,more⟩,equal⟩
  · rintro ⟨ready,canonical,final,gathered,equal⟩
    obtain ⟨middle,here,later⟩ := foldlM_append_eq_ok.mp gathered
    exact ⟨_,⟨ready,(groupTable_cached [] piece _).mpr ⟨middle,here,rfl⟩⟩,
      (rest middle).mpr ⟨canonical,final,later,equal⟩⟩

theorem equals_sound {first second : TupleKey ν} (length : first.length = second.length)
    (same : TupleKey.equals runtime first second = true) : first = second := by
  induction first generalizing second with
  | nil => exact (List.length_eq_zero_iff.mp length.symm).symm
  | cons element elements ih =>
    cases second with
    | nil => cases length
    | cons other others =>
      rw [TupleKey.equals,Bool.and_eq_true,Bool.and_eq_true] at same
      rw [of_decide_eq_true same.1.1,ih (Nat.succ.inj length) same.2]

theorem equals_self {key : TupleKey ν} :
    TupleKey.equals runtime key key = true ↔ ∀ element ∈ key, runtime.isNaN element.1 element.2 = false := by
  induction key with
  | nil => exact ⟨fun _ _ inside => absurd inside List.not_mem_nil,fun _ => rfl⟩
  | cons element elements ih =>
    rw [TupleKey.equals,Bool.and_eq_true,Bool.and_eq_true,List.forall_mem_cons,ih]
    simp

theorem groupRow_eq (ready : Ready fields groupColumnNames aggregateFunctions) {row : List (Slot ν)}
    (shaped : row.length = fields.length) {groups next : List (TupleKey ν × List (List (Option ν)))} :
    GroupKernel.groupRow runtime (cached fields groupColumnNames aggregateFunctions []) fields groups row = .ok next ↔
      (∀ c ∈ groupIndices fields groupColumnNames, fields[c]?.any fun field => keyable field.type) ∧
        (groups.any (fun group => TupleKey.equals runtime group.1 (rawKey fields groupColumnNames row)) = true ∨
          ∀ c ∈ aggregateIndices fields aggregateFunctions, fields[c]?.any fun field => appendable field.type) ∧
        next = Grouping.add (TupleKey.equals runtime) (rawKey fields groupColumnNames row)
        (stored fields aggregateFunctions row)
          groups := by
  have keys : ∀ key, TupleKey.make fields row (groupIndices fields groupColumnNames) = .ok key ↔ _ :=
    fun key => make_eq groupIndices_lt shaped
  rw [GroupKernel.groupRow]
  dsimp only [cached]
  cases made : TupleKey.make fields row (groupIndices fields groupColumnNames) with
  | error error =>
    refine iff_of_false (by intro wrong; cases wrong) ?_
    rintro ⟨all,_⟩
    have wrong := (keys _).mpr ⟨all,rfl⟩
    rw [made] at wrong
    cases wrong
  | ok key =>
    obtain ⟨all,same⟩ := (keys key).mp made
    change key = rawKey fields groupColumnNames row at same
    subst same
    dsimp only
    have done : ∀ {result : List (TupleKey ν × List (List (Option ν)))}, (Except.ok result : Except String _) =
        .ok next ↔
        next = result := fun {_} => ⟨fun same => (Except.ok.inj same).symm,fun same => by rw [same]⟩
    by_cases known : groups.any (fun group => TupleKey.equals runtime group.1
      (rawKey fields groupColumnNames row)) = true
    · rw [if_pos known,done]
      exact ⟨fun same => ⟨all,.inl known,same⟩,fun holds => holds.2.2⟩
    · rw [if_neg known]
      cases unknown : (aggregateIndices fields aggregateFunctions).find? fun c => fields[c]?.any fun field => !appendable field.type with
      | none =>
        rw [done]
        refine ⟨fun same => ⟨all,.inr ?_,same⟩,fun holds => holds.2.2⟩
        intro c inside
        have can := List.find?_eq_none.mp unknown c inside
        rw [List.getElem?_eq_getElem (aggregateIndices_lt ready c inside)] at can ⊢
        simpa using can
      | some c =>
        refine iff_of_false (by intro wrong; cases wrong) ?_
        rintro ⟨_,wrong | can,_⟩
        · exact known wrong
        · have cannot := List.find?_some unknown
          have inside := List.mem_of_find?_eq_some unknown
          have can := can c inside
          rw [List.getElem?_eq_getElem (aggregateIndices_lt ready c inside)] at can cannot
          rw [Option.any_some] at can cannot
          rw [can] at cannot
          cases cannot

variable (runtime fields groupColumnNames aggregateFunctions) in
def groupsOf (start : List (TupleKey ν × List (List (Option ν)))) (rows : List (List (Slot ν))) :
    List (TupleKey ν × List (List (Option ν))) :=
  rows.foldl (fun entries row => Grouping.add (TupleKey.equals runtime) (rawKey fields groupColumnNames row)
    (stored fields aggregateFunctions row) entries) start

theorem gather_eq (ready : Ready fields groupColumnNames aggregateFunctions) {rows : List (List (Slot ν))}
    (shaped : ∀ row ∈ rows, row.length = fields.length) {groups : List (TupleKey ν × List (List (Option ν)))} :
    gather runtime fields groupColumnNames aggregateFunctions [] rows = .ok groups ↔
      (rows ≠ [] → Typed fields groupColumnNames aggregateFunctions) ∧
        groups = groupsOf runtime fields groupColumnNames aggregateFunctions [] rows := by
  have general : ∀ (rows : List (List (Slot ν))), (∀ row ∈ rows, row.length = fields.length) →
      ∀ start groups, (Typed fields groupColumnNames aggregateFunctions →
        gather runtime fields groupColumnNames aggregateFunctions start rows =
          .ok (groupsOf runtime fields groupColumnNames aggregateFunctions start rows)) ∧
        (gather runtime fields groupColumnNames aggregateFunctions start rows = .ok groups →
          groups = groupsOf runtime fields groupColumnNames aggregateFunctions start rows) := by
    intro rows
    induction rows with
    | nil => exact fun _ start groups => ⟨fun _ => rfl,fun same => (Except.ok.inj same).symm⟩
    | cons row rows ih =>
      intro shaped start groups
      have rest := ih fun later inside => shaped later (List.mem_cons_of_mem _ inside)
      have here : ∀ next, GroupKernel.groupRow runtime
          (cached fields groupColumnNames aggregateFunctions []) fields start row =
          .ok next ↔ _ := fun next => groupRow_eq ready (shaped row List.mem_cons_self)
      constructor
      · intro typed
        exact foldlM_cons_eq_ok.mpr ⟨_,(here _).mpr ⟨typed.keys,.inr typed.appenders,rfl⟩,(rest _ groups).1 typed⟩
      · intro done
        obtain ⟨next,first,later⟩ := foldlM_cons_eq_ok.mp done
        obtain ⟨_,_,rfl⟩ := (here _).mp first
        exact (rest _ groups).2 later
  constructor
  · intro done
    refine ⟨?_,(general rows shaped [] groups).2 done⟩
    intro some
    cases rows with
    | nil => exact absurd rfl some
    | cons row rows =>
      -- the first row starts a group
      obtain ⟨next,first,_⟩ := foldlM_cons_eq_ok.mp done
      obtain ⟨keys,wrong | appenders,_⟩ := (groupRow_eq ready (shaped row List.mem_cons_self)).mp first
      · cases wrong
      · exact ⟨keys,appenders⟩
  · rintro ⟨typed,rfl⟩
    cases rows with
    | nil => rfl
    | cons row rows => exact (general _ shaped [] []).1 (typed (List.cons_ne_nil _ _))

variable (runtime) in
theorem gathered (ready : Ready fields groupColumnNames aggregateFunctions) {rows : List (List (Slot ν))}
    (shaped : ∀ row ∈ rows, row.length = fields.length) :
    Grouping.Gathered (TupleKey.equals runtime) (groupsOf runtime fields groupColumnNames aggregateFunctions [] rows)
      (rows.map fun row => (rawKey fields groupColumnNames row,stored fields aggregateFunctions row)) := by
  apply Grouping.Gathered.foldl
  intro first inside second there same
  exact equals_sound ((rawKey_length ready (shaped first inside)).trans
    (rawKey_length ready (shaped second there)).symm) same

end

end Hermes.Group
