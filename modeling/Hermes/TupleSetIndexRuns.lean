import Hermes.TupleSetIndex
import Hermes.GroupKernel
import Hermes.Library.Fallible
import Hermes.Library.Transition

/-! Indexes over tuple sets that they share. An index keeps a pointer to a tuple set and puts a
longer table into it, and `merge` fills the map before it knows whether the tables go together. The index of `Hermes.Tuple`
is one that keeps its tuple set to itself, over keyable columns. -/
namespace Hermes.TupleSetIndexes
open Hermes.Tuples Hermes.Group Hermes.Library.Fallible Hermes.Library.Transition
open Hermes.Tuple (UnorderedMultimap)
variable {ν : Type}

/-- A table as `Table::Make` makes it, which holds no column against the schema. -/
structure ArrowTable (ν : Type) where
  fields : List Field
  rows : List (List (Slot ν))

/-- The order of a multimap's entries, the batches that a table is read in, the text of the error
for two schemas, and which key elements are equal. -/
structure Arrow (ν : Type) where
  multimap : UnorderedMultimap
  batches : ArrowTable ν → List (List (List (Slot ν)))
  batches_flatten : ∀ table, (batches table).flatten = table.rows
  schemasDiffer : List Field → List Field → String
  equals : TupleKey ν → TupleKey ν → Bool

structure TupleSetIndex (ν : Type) where
  columnNames : List String
  columnIndexes : List Nat
  tupleSet : Nat
  valueRowMap : List (TupleKey ν × Nat)

/-- The tuple sets and the indexes that there are; a pointer is a position. -/
structure Memory (ν : Type) where
  tupleSets : List (ArrowTable ν)
  indexes : List (TupleSetIndex ν)

def ConcatenateTables (arrow : Arrow ν) (first second : ArrowTable ν) : Except String (ArrowTable ν) :=
  if first.fields = second.fields then .ok ⟨first.fields,first.rows ++ second.rows⟩
  else .error (arrow.schemasDiffer first.fields second.fields)

/-- A field is looked up by its name alone. -/
theorem getFieldIndex_names (fields : List Field) (name : String) :
    (Tuple.getFieldIndex (fields.map Field.name) name).map Fin.val = getFieldIndex fields name := by
  have all : places fields name = ((List.finRange (fields.map Field.name).length).filter fun c =>
      (fields.map Field.name).get c == name).map Fin.val := by
    have named : (fun c : Fin (fields.map Field.name).length => (fields.map Field.name).get c == name) =
        (fun c => fields[c]?.any fun field => field.name == name) ∘ Fin.val := by
      funext c
      have bound : c.val < fields.length := c.isLt.trans_eq (List.length_map _)
      simp [List.getElem?_eq_getElem bound]
    rw [places,named,← List.filter_map,List.map_coe_finRange_eq_range,List.length_map]
  unfold Tuple.getFieldIndex getFieldIndex
  rw [all]
  generalize (List.finRange (fields.map Field.name).length).filter _ = found
  rcases found with _ | ⟨c,_ | ⟨_,_⟩⟩ <;> rfl

/-- The columns of the names, or the error for the first name that has none. -/
def columnIndexes (find : String → Option Nat) (message : String → String) (columnNames : List String) :
    Except String (List Nat) :=
  columnNames.mapM fun columnName =>
    match find columnName with
    | some c => .ok c
    | none => .error (message columnName)

def emplaceRow (arrow : Arrow ν) (fields : List Field) (columnIndexes : List Nat)
    (state : List (TupleKey ν × Nat) × Nat)
    (row : List (Slot ν)) : Except String (List (TupleKey ν × Nat) × Nat) := do
  let tupleKey ← TupleKey.make fields row columnIndexes
  .ok (arrow.multimap.emplace state.1 (tupleKey,state.2),state.2+1)

def build (arrow : Arrow ν) (columnIndexes : List Nat) (rowIndexOffset : Nat) (table : ArrowTable ν) :
    Except String (List (TupleKey ν × Nat)) := do
  let state ← (arrow.batches table).foldlM
    (fun state recordBatch => recordBatch.foldlM (emplaceRow arrow table.fields columnIndexes) state)
      ([],rowIndexOffset)
  .ok state.1

/-- The columns of a table in the order of a schema, found by their names. They keep their types. -/
def align (schema : List Field) (table : ArrowTable ν) : Except String (ArrowTable ν) :=
  if schema = table.fields then .ok table
  else do
    let columns ← columnIndexes (getFieldIndex table.fields) (fun _ => "Schemas not compatible") (schema.map Field.name)
    .ok ⟨columns.filterMap (table.fields[·]?),
      if columns.isEmpty then [] else table.rows.map fun row => columns.filterMap (row[·]?)⟩

/-- What `put` inserts, and the rows it appends; up to here nothing has been changed. -/
def incoming (arrow : Arrow ν) (index : TupleSetIndex ν) (current table : ArrowTable ν) :
    Except String (List (TupleKey ν × Nat) × List (List (Slot ν))) := do
  let alignedTable ← align current.fields table
  let columnIndexes ← columnIndexes (getFieldIndex current.fields)
    (fun columnName => "Cannot add table to TupleSetIndex. Column '" ++ columnName ++
      "' does not exist") index.columnNames
  if index.columnIndexes ≠ columnIndexes then
    .error "Cannot add table to TupleSetIndex. Incoming column positions are different than exising ones"
  else do
    let valueRowIndexMap ← build arrow columnIndexes current.rows.length alignedTable
    .ok (valueRowIndexMap,alignedTable.rows)

inductive Failure where
  | error (message : String)
  | undefined
deriving DecidableEq

def Memory.setIndex (memory : Memory ν) (i : Nat) (index : TupleSetIndex ν) : Memory ν :=
  {memory with indexes := memory.indexes.set i index}

def Memory.setTable (memory : Memory ν) (tupleSet : Nat) (table : ArrowTable ν) : Memory ν :=
  {memory with tupleSets := memory.tupleSets.set tupleSet table}

def make (arrow : Arrow ν) (memory : Memory ν) (columnNames : List String) (tupleSet : Nat) :
    Except Failure Unit × Memory ν :=
  match memory.tupleSets[tupleSet]? with
  | none => (.error .undefined,memory)
  | some table =>
    let built := do
      let columnIndexes ← columnIndexes (fun columnName => getFieldIndex table.fields (canonicalize columnName))
        (fun columnName => "Cannot make TupleSetIndex. Column '" ++ columnName ++ "' does not exist") columnNames
      let valueRowMap ← build arrow columnIndexes 0 table
      .ok (⟨columnNames,columnIndexes,tupleSet,valueRowMap⟩ : TupleSetIndex ν)
    match built with
    | .error message => (.error (.error message),memory)
    | .ok index => (.ok (),{memory with indexes := memory.indexes ++ [index]})

/-- `ConcatenateTables` gets the aligned table under the schema of the tuple set. -/
def put (arrow : Arrow ν) (memory : Memory ν) (i : Nat) (table : ArrowTable ν) : Except Failure Unit × Memory ν :=
  match memory.indexes[i]? with
  | none => (.error .undefined,memory)
  | some index =>
    match memory.tupleSets[index.tupleSet]? with
    | none => (.error .undefined,memory)
    | some current =>
      match incoming arrow index current table with
      | .error message => (.error (.error message),memory)
      | .ok (valueRowIndexMap,rows) =>
        let memory := memory.setIndex i {index with
          valueRowMap := arrow.multimap.insert index.valueRowMap valueRowIndexMap}
        match ConcatenateTables arrow current ⟨current.fields,rows⟩ with
        | .error message => (.error (.error message),memory)
        | .ok result => (.ok (),memory.setTable index.tupleSet result)

/-- To go through a map while it is being filled is undefined. -/
def merge (arrow : Arrow ν) (memory : Memory ν) (i other : Nat) : Except Failure Unit × Memory ν :=
  match memory.indexes[i]?,memory.indexes[other]? with
  | some index,some otherIndex =>
    match memory.tupleSets[index.tupleSet]?,memory.tupleSets[otherIndex.tupleSet]? with
    | some current,some otherTable =>
      if i = other ∧ otherIndex.valueRowMap ≠ [] then (.error .undefined,memory)
      else
        let memory := memory.setIndex i {index with
          valueRowMap := arrow.multimap.insert index.valueRowMap
            (otherIndex.valueRowMap.map fun entry => (entry.1,entry.2+current.rows.length))}
        match ConcatenateTables arrow current otherTable with
        | .error message => (.error (.error message),memory)
        | .ok result => (.ok (),memory.setTable index.tupleSet result)
    | _,_ => (.error .undefined,memory)
  | _,_ => (.error .undefined,memory)

def TupleSetIndex.find (arrow : Arrow ν) (index : TupleSetIndex ν) (tupleKey : TupleKey ν) : List Nat :=
  (index.valueRowMap.filter fun entry => arrow.equals entry.1 tupleKey).map Prod.snd

inductive Call (ν : Type) where
  | make (columnNames : List String) (tupleSet : Nat)
  | put (index : Nat) (table : ArrowTable ν)
  | merge (index other : Nat)

def call (arrow : Arrow ν) (memory : Memory ν) : Call ν → Except Failure Unit × Memory ν
  | .make columnNames tupleSet => make arrow memory columnNames tupleSet
  | .put index table => put arrow memory index table
  | .merge index other => merge arrow memory index other

/-- The map has the number of each row once, under the key of the row, and nothing else. -/
def Indexed (index : TupleSetIndex ν) (table : ArrowTable ν) : Prop :=
  ∃ keys, List.Forall₂ (fun row key => TupleKey.make table.fields row index.columnIndexes = .ok key) table.rows keys ∧
    index.valueRowMap.Perm keys.zipIdx

def Valid (memory : Memory ν) : Prop :=
  ∀ index ∈ memory.indexes, ∃ table, memory.tupleSets[index.tupleSet]? = some table ∧ Indexed index table

section Build
variable {arrow : Arrow ν} {fields : List Field} {columnIndexes : List Nat}

theorem emplaceRows_ok {rows : List (List (Slot ν))} {state result : List (TupleKey ν × Nat) × Nat}
    (ok : rows.foldlM (emplaceRow arrow fields columnIndexes) state = .ok result) :
    ∃ keys, List.Forall₂ (fun row key => TupleKey.make fields row columnIndexes = .ok key) rows keys ∧
      result.1.Perm (state.1 ++ keys.zipIdx state.2) := by
  induction rows generalizing state with
  | nil =>
    rw [← Except.ok.inj ok]
    exact ⟨[],List.Forall₂.nil,by simp⟩
  | cons row rows ih =>
    obtain ⟨next,step,rest⟩ := foldlM_cons_eq_ok.mp ok
    obtain ⟨key,made,done⟩ := bind_eq_ok.mp step
    obtain rfl := Except.ok.inj done
    obtain ⟨keys,all,order⟩ := ih rest
    refine ⟨key::keys,List.Forall₂.cons made all,order.trans ?_⟩
    have first := (arrow.multimap.emplace_perm state.1 (key,state.2)).append_right (keys.zipIdx (state.2+1))
    rw [List.append_assoc] at first
    exact first

theorem build_ok {rowIndexOffset : Nat} {table : ArrowTable ν} {valueIndexMap : List (TupleKey ν × Nat)}
    (ok : build arrow columnIndexes rowIndexOffset table = .ok valueIndexMap) :
    ∃ keys, List.Forall₂ (fun row key => TupleKey.make table.fields row columnIndexes = .ok key) table.rows keys ∧
      valueIndexMap.Perm (keys.zipIdx rowIndexOffset) := by
  obtain ⟨state,built,done⟩ := bind_eq_ok.mp ok
  obtain rfl := Except.ok.inj done
  rw [foldlM_flatten,arrow.batches_flatten] at built
  exact emplaceRows_ok built

end Build

def OneType (fields others : List Field) : Prop :=
  ∀ field ∈ fields, ∀ other ∈ others, other.name = field.name → other = field

def Memory.Unshared (memory : Memory ν) (i tupleSet : Nat) : Prop :=
  ∀ other ∈ memory.indexes.eraseIdx i, other.tupleSet ≠ tupleSet

section Alignment
variable {arrow : Arrow ν} {find : String → Option Nat} {message : String → String}

theorem columnIndexes_ok {columnNames : List String} {columns : List Nat} :
    columnIndexes find message columnNames = .ok columns ↔
    List.Forall₂ (fun columnName c => find columnName = some c) columnNames columns := by
  rw [columnIndexes,mapM_eq_ok]
  have each : ∀ columnName c, (match find columnName with
      | some c => .ok c
      | none => .error (message columnName)) = (Except.ok c : Except String Nat) ↔ find columnName = some c := by
    intro columnName c
    cases find columnName with
    | none => exact ⟨nofun,nofun⟩
    | some found => exact ⟨fun same => congrArg some (Except.ok.inj same),fun same => congrArg _ (Option.some.inj same)⟩
  simp only [each]

theorem columns_fields {schema fields : List Field} (typed : OneType schema fields) {columns : List Nat}
    (found : List.Forall₂ (fun field c => getFieldIndex fields field.name = some c) schema columns) :
    columns.filterMap (fields[·]?) = schema := by
  induction found with
  | nil => rfl
  | cons here _ ih =>
    obtain ⟨first,later⟩ := List.forall_mem_cons.mp typed
    obtain ⟨⟨other,place,name⟩,_⟩ := getFieldIndex_iff.mp here
    rw [List.filterMap_cons_some place,ih later,first other (List.mem_of_getElem? place) name]

theorem align_fields {schema : List Field} {table aligned : ArrowTable ν} (typed : OneType schema table.fields)
    (ok : align schema table = .ok aligned) : aligned.fields = schema := by
  rw [align] at ok
  split at ok
  · rename_i same
    rw [← Except.ok.inj ok,same]
  · obtain ⟨columns,found,done⟩ := bind_eq_ok.mp ok
    rw [← Except.ok.inj done]
    exact columns_fields typed (List.forall₂_map_left_iff.mp (columnIndexes_ok.mp found))

theorem align_empty {schema : List Field} {table aligned : ArrowTable ν} (empty : table.rows = [])
    (ok : align schema table = .ok aligned) : aligned.rows = [] := by
  rw [align] at ok
  split at ok
  · rw [← Except.ok.inj ok,empty]
  · obtain ⟨columns,_,done⟩ := bind_eq_ok.mp ok
    rw [← Except.ok.inj done,empty]
    exact ite_self []

theorem incoming_ok {index : TupleSetIndex ν} {current table : ArrowTable ν} {entries : List (TupleKey ν × Nat)}
    {rows : List (List (Slot ν))} (ok : incoming arrow index current table = .ok (entries,rows)) :
    ∃ aligned keys, align current.fields table = .ok aligned ∧ rows = aligned.rows ∧
      List.Forall₂ (fun row key => TupleKey.make aligned.fields row index.columnIndexes = .ok key) rows keys ∧
      entries.Perm (keys.zipIdx current.rows.length) := by
  obtain ⟨aligned,found,ok⟩ := bind_eq_ok.mp ok
  obtain ⟨columns,_,ok⟩ := bind_eq_ok.mp ok
  split at ok
  · cases ok
  · rename_i same
    obtain ⟨built,ready,done⟩ := bind_eq_ok.mp ok
    obtain ⟨rfl,rfl⟩ := Prod.mk.inj (Except.ok.inj done)
    obtain ⟨keys,all,order⟩ := build_ok ready
    rw [← not_not.mp same] at all
    exact ⟨aligned,keys,found,rfl,all,order⟩

end Alignment

section Indexed
variable {arrow : Arrow ν} {index : TupleSetIndex ν} {table : ArrowTable ν}

theorem Indexed.append (indexed : Indexed index table) {rows : List (List (Slot ν))} {keys : List (TupleKey ν)}
    {entries : List (TupleKey ν × Nat)}
    (all : List.Forall₂ (fun row key => TupleKey.make table.fields row index.columnIndexes = .ok key) rows keys)
    (order : entries.Perm (keys.zipIdx table.rows.length)) :
    Indexed {index with valueRowMap := arrow.multimap.insert index.valueRowMap entries} ⟨table.fields,table.rows ++
      rows⟩ := by
  obtain ⟨present,made,held⟩ := indexed
  refine ⟨present ++ keys,List.rel_append made all,?_⟩
  have numbered : (present ++ keys).zipIdx = present.zipIdx ++ keys.zipIdx table.rows.length := by
    rw [List.zipIdx_append,Nat.zero_add,made.length_eq]
  rw [numbered]
  exact (arrow.multimap.insert_perm _ _).trans (held.append order)

theorem Indexed.shifted (indexed : Indexed index table) (rowOffset : Nat) :
    ∃ keys, List.Forall₂ (fun row key => TupleKey.make table.fields row index.columnIndexes = .ok key) table.rows keys ∧
      (index.valueRowMap.map fun entry => (entry.1,entry.2+rowOffset)).Perm (keys.zipIdx rowOffset) := by
  obtain ⟨keys,made,held⟩ := indexed
  refine ⟨keys,made,(held.map _).trans (List.Perm.of_eq ?_)⟩
  rw [@List.zipIdx_eq_map_add _ keys rowOffset]
  apply List.map_congr_left
  intro entry _
  rw [Nat.add_comm]

theorem Indexed.empty (indexed : Indexed index table) (empty : table.rows = []) : index.valueRowMap = [] := by
  obtain ⟨keys,made,held⟩ := indexed
  rw [empty] at made
  rw [List.forall₂_nil_left_iff.mp made] at held
  exact held.eq_nil

theorem Indexed.mem_find (indexed : Indexed index table) (tupleKey : TupleKey ν) (r : Nat) :
    r ∈ index.find arrow tupleKey ↔ ∃ row key, table.rows[r]? = some row ∧
      TupleKey.make table.fields row index.columnIndexes = .ok key ∧ arrow.equals key tupleKey = true := by
  obtain ⟨keys,made,held⟩ := indexed
  have entry : ∀ key, (key,r) ∈ index.valueRowMap ↔ keys[r]? = some key := by
    intro key
    rw [held.mem_iff,List.mem_zipIdx_iff_getElem?]
  have numbered : r ∈ index.find arrow tupleKey ↔ ∃ key, (key,r) ∈ index.valueRowMap ∧
      arrow.equals key tupleKey = true := by
    simp [TupleSetIndex.find]
  simp only [numbered,entry]
  constructor
  · rintro ⟨key,here,equals⟩
    obtain ⟨row,there,holds⟩ := forall₂_getElem? made r here
    exact ⟨row,key,there,holds,equals⟩
  · rintro ⟨row,key,there,holds,equals⟩
    obtain ⟨other,here,holds'⟩ := forall₂_getElem? made.flip r there
    obtain rfl := Except.ok.inj (holds.symm.trans holds')
    exact ⟨key,here,equals⟩

end Indexed

/-- What must hold of the state before a call. The rows that are merged have the same keys in the
columns of both indexes. -/
def Meets (memory : Memory ν) : Call ν → Prop
  | .make _ tupleSet => tupleSet < memory.tupleSets.length
  | .put i table => ∃ index,memory.indexes[i]? = some index ∧
    ∃ current,memory.tupleSets[index.tupleSet]? = some current ∧
    (table.rows = [] ∨ memory.Unshared i index.tupleSet ∧ OneType current.fields table.fields)
  | .merge i other => ∃ index,memory.indexes[i]? = some index ∧
    ∃ current,memory.tupleSets[index.tupleSet]? = some current ∧
    ∃ otherIndex,memory.indexes[other]? = some otherIndex ∧
    ∃ otherTable,memory.tupleSets[otherIndex.tupleSet]? = some otherTable ∧
    (otherTable.rows = [] ∨ i ≠ other ∧ memory.Unshared i index.tupleSet ∧ otherTable.fields = current.fields ∧
      ∀ row ∈ otherTable.rows, TupleKey.make current.fields row index.columnIndexes =
      TupleKey.make current.fields row otherIndex.columnIndexes)

def Atomic (arrow : Arrow ν) (memory : Memory ν) (label : Call ν) : Prop :=
  (call arrow memory label).1 ≠ .error .undefined ∧
    ∀ message, (call arrow memory label).1 = .error (.error message) → (call arrow memory label).2 = memory

def Step (arrow : Arrow ν) (memory : Memory ν) (label : Call ν)
    (next : Memory ν) : Prop := next = (call arrow memory label).2

section Steps
variable {arrow : Arrow ν} {memory : Memory ν} {i other : Nat} {index otherIndex : TupleSetIndex ν}
    {current otherTable table : ArrowTable ν}

theorem Memory.setIndex_self (here : memory.indexes[i]? = some index) : memory.setIndex i index = memory := by
  obtain ⟨bound,rfl⟩ := List.getElem?_eq_some_iff.mp here
  rw [Memory.setIndex,List.set_getElem_self]

theorem Memory.setTable_self {tupleSet : Nat} (here : memory.tupleSets[tupleSet]? = some table) :
    memory.setTable tupleSet table = memory := by
  obtain ⟨bound,rfl⟩ := List.getElem?_eq_some_iff.mp here
  rw [Memory.setTable,List.set_getElem_self]

theorem Memory.setIndex_nil (here : memory.indexes[i]? = some index) :
    memory.setIndex i {index with valueRowMap := arrow.multimap.insert index.valueRowMap []} = memory :=
  memory.setIndex_self here

theorem Valid.update (valid : Valid memory) (here : memory.indexes[i]? = some index)
    (unshared : memory.Unshared i index.tupleSet)
    (there : memory.tupleSets[index.tupleSet]? = some current) {valueRowMap : List (TupleKey ν × Nat)}
    {result : ArrowTable ν} (indexed : Indexed {index with valueRowMap := valueRowMap} result) :
    Valid ((memory.setIndex i {index with valueRowMap := valueRowMap}).setTable index.tupleSet result) := by
  intro changed member
  obtain ⟨j,place⟩ := List.mem_iff_getElem?.mp member
  rw [Memory.setTable,Memory.setIndex] at place ⊢
  dsimp only at place ⊢
  by_cases same : i = j
  · subst same
    rw [List.getElem?_set_self (List.getElem?_eq_some_iff.mp here).1] at place
    obtain rfl := Option.some.inj place
    exact ⟨result,List.getElem?_set_self (List.getElem?_eq_some_iff.mp there).1,indexed⟩
  · rw [List.getElem?_set_ne same] at place
    have apart := unshared changed (List.mem_eraseIdx_iff_getElem?.mpr ⟨j,Ne.symm same,place⟩)
    obtain ⟨table,kept,holds⟩ := valid changed (List.mem_of_getElem? place)
    exact ⟨table,(List.getElem?_set_ne apart.symm).trans kept,holds⟩

theorem put_eq (here : memory.indexes[i]? = some index) (there : memory.tupleSets[index.tupleSet]? = some current) :
    put arrow memory i table =
      match incoming arrow index current table with
      | .error message => (.error (.error message),memory)
      | .ok (valueRowIndexMap,rows) =>
        (.ok (),(memory.setIndex i {index with valueRowMap := arrow.multimap.insert index.valueRowMap valueRowIndexMap}).setTable
          index.tupleSet ⟨current.fields,current.rows ++ rows⟩) := by
  simp only [put,here,there,ConcatenateTables,if_true]

theorem merge_eq (here : memory.indexes[i]? = some index) (there : memory.tupleSets[index.tupleSet]? = some current)
    (here' : memory.indexes[other]? = some otherIndex)
    (there' : memory.tupleSets[otherIndex.tupleSet]? = some otherTable)
    (apart : i ≠ other ∨ otherIndex.valueRowMap = []) :
    merge arrow memory i other =
      let valueRowMap := arrow.multimap.insert index.valueRowMap
        (otherIndex.valueRowMap.map fun entry => (entry.1,entry.2+current.rows.length))
      let moved := memory.setIndex i {index with valueRowMap := valueRowMap}
      if current.fields = otherTable.fields then
        (.ok (),moved.setTable index.tupleSet ⟨current.fields,current.rows ++ otherTable.rows⟩)
      else (.error (.error (arrow.schemasDiffer current.fields otherTable.fields)),moved) := by
  have defined : ¬ (i = other ∧ otherIndex.valueRowMap ≠ []) := by
    rintro ⟨same,filled⟩
    exact apart.elim (· same) filled
  simp only [merge,here,there,here',there',if_neg defined,ConcatenateTables]
  by_cases schemas : current.fields = otherTable.fields
  · simp only [if_pos schemas]
  · simp only [if_neg schemas]

theorem make_kept (valid : Valid memory) {columnNames : List String} {tupleSet : Nat}
    (exist : tupleSet < memory.tupleSets.length) :
    Valid (make arrow memory columnNames tupleSet).2 ∧ Atomic arrow memory (.make columnNames tupleSet) := by
  have here := List.getElem?_eq_getElem exist
  rw [Atomic,call,make,here]
  dsimp only
  split
  · exact ⟨valid,nofun,fun _ _ => rfl⟩
  · rename_i built index made
    refine ⟨?_,nofun,nofun⟩
    intro other member
    rcases List.mem_append.mp member with old | new
    · exact valid other old
    · obtain rfl := List.mem_singleton.mp new
      obtain ⟨columns,_,made⟩ := bind_eq_ok.mp made
      obtain ⟨valueRowMap,filled,done⟩ := bind_eq_ok.mp made
      obtain rfl := Except.ok.inj done
      exact ⟨_,here,build_ok filled⟩

theorem put_kept (valid : Valid memory) (meets : Meets memory (.put i table)) :
    Valid (put arrow memory i table).2 ∧ Atomic arrow memory (.put i table) := by
  obtain ⟨index,here,current,there,fits⟩ := meets
  obtain ⟨_,kept,indexed⟩ := valid index (List.mem_of_getElem? here)
  obtain rfl := Option.some.inj (there.symm.trans kept)
  rw [Atomic,call,put_eq here there]
  split
  · exact ⟨valid,nofun,fun _ _ => rfl⟩
  · rename_i entries rows ok
    refine ⟨?_,nofun,nofun⟩
    obtain ⟨aligned,keys,found,rfl,all,order⟩ := incoming_ok ok
    rcases fits with empty | ⟨unshared,typed⟩
    · rw [align_empty empty found] at all ⊢
      obtain rfl := List.forall₂_nil_left_iff.mp all
      obtain rfl := order.eq_nil
      rw [Memory.setIndex_nil here,List.append_nil,Memory.setTable_self there]
      exact valid
    · rw [align_fields typed found] at all
      exact valid.update here unshared there (indexed.append all order)

theorem merge_kept (valid : Valid memory) (meets : Meets memory (.merge i other)) :
    Valid (merge arrow memory i other).2 ∧ Atomic arrow memory (.merge i other) := by
  obtain ⟨index,here,current,there,otherIndex,here',otherTable,there',fits⟩ := meets
  obtain ⟨_,kept,indexed⟩ := valid index (List.mem_of_getElem? here)
  obtain rfl := Option.some.inj (there.symm.trans kept)
  obtain ⟨_,kept',indexed'⟩ := valid otherIndex (List.mem_of_getElem? here')
  obtain rfl := Option.some.inj (there'.symm.trans kept')
  rcases fits with empty | ⟨apart,unshared,schemas,columns⟩
  · have nothing := indexed'.empty empty
    rw [Atomic,call,merge_eq here there here' there' (.inr nothing),nothing,List.map_nil]
    dsimp only
    rw [Memory.setIndex_nil here,empty,List.append_nil,Memory.setTable_self there]
    split
    · exact ⟨valid,nofun,nofun⟩
    · exact ⟨valid,nofun,fun _ _ => rfl⟩
  · rw [Atomic,call,merge_eq here there here' there' (.inl apart)]
    dsimp only
    rw [if_pos schemas.symm]
    refine ⟨?_,nofun,nofun⟩
    obtain ⟨keys,all,order⟩ := indexed'.shifted current.rows.length
    rw [schemas] at all
    refine valid.update here unshared there (indexed.append ?_ order)
    exact ((List.forall₂_and_left _ _).mpr ⟨columns,all⟩).imp fun row key both => both.1.trans both.2

theorem call_kept (valid : Valid memory) {label : Call ν} (meets : Meets memory label) :
    Valid (call arrow memory label).2 ∧ Atomic arrow memory label := by
  cases label with
  | make columnNames tupleSet => exact make_kept valid meets
  | put i table => exact put_kept valid meets
  | merge i other => exact merge_kept valid meets

end Steps

section Runs

/-- Over every run of calls that meet the condition each index has the rows of its table, `find`
finds them by their keys, and a call that gives an error changes nothing. -/
theorem indexed_atomic (arrow : Arrow ν) (tupleSets : List (ArrowTable ν)) {calls : List (Call ν)} {memory : Memory ν}
    (run : Run (Meeting Meets (Step arrow)) ⟨tupleSets,[]⟩ calls memory) :
    (∀ index ∈ memory.indexes, ∃ table, memory.tupleSets[index.tupleSet]? = some table ∧ Indexed index table ∧
      ∀ tupleKey r, r ∈ index.find arrow tupleKey ↔ ∃ row key, table.rows[r]? = some row ∧
        TupleKey.make table.fields row index.columnIndexes = .ok key ∧ arrow.equals key tupleKey = true) ∧
      ∀ label, Meets memory label → Atomic arrow memory label := by
  have valid : Valid memory := by
    refine run.invariant Valid (fun _ none => absurd none List.not_mem_nil) ?_
    rintro before label _ kept ⟨meets,rfl⟩
    exact (call_kept kept meets).1
  refine ⟨?_,fun label meets => (call_kept valid meets).2⟩
  intro index member
  obtain ⟨table,here,indexed⟩ := valid index member
  exact ⟨table,here,indexed,indexed.mem_find⟩

end Runs

section Examples

def numbers : Arrow Nat where
  multimap := UnorderedMultimap.inserted
  batches table := [table.rows]
  batches_flatten := by simp
  schemasDiffer _ _ := "Schema at index 1 was different"
  equals key other := decide (key = other)

def oneRow (name : String) (value : Nat) : ArrowTable Nat := ⟨[⟨name,.int64⟩],[[⟨true,value⟩]]⟩

def oneRows : Memory Nat := ⟨[oneRow "a" 5,oneRow "a" 7],[]⟩

/-- Both tables are indexed, the second index is merged into the first, and a row is put behind. -/
def mergeAndPut : List (Call Nat) := [.make ["a"] 0,.make ["a"] 1,.merge 0 1,.put 0 (oneRow "a" 5)]

def callAll (memory : Memory Nat) (calls : List (Call Nat)) : Memory Nat :=
  calls.foldl (fun memory label => (call numbers memory label).2) memory

theorem merged_and_put : Valid (callAll oneRows mergeAndPut) ∧ Atomic numbers (callAll oneRows mergeAndPut)
    (.put 0 (oneRow "b" 9)) := by
  have made := (@Run.nil _ _ (Meeting Meets (Step numbers)) oneRows).meet (.make ["a"] 0) (show 0 < 2 by decide) rfl
  have both := made.meet (.make ["a"] 1) (show 1 < 2 by decide) rfl
  have merged := both.meet (.merge 0 1) ⟨_,rfl,_,rfl,_,rfl,_,rfl,
      .inr ⟨by decide,by rw [Memory.Unshared]; decide,rfl,fun _ _ => rfl⟩⟩ rfl
  have put := merged.meet (.put 0 (oneRow "a" 5)) ⟨_,rfl,_,rfl,
      .inr ⟨by rw [Memory.Unshared]; decide,by rw [OneType]; decide⟩⟩ rfl
  obtain ⟨indexed,atomic⟩ := indexed_atomic numbers _ put
  refine ⟨?_,atomic _ ⟨_,rfl,_,rfl,.inr ⟨by rw [Memory.Unshared]; decide,by rw [OneType]; decide⟩⟩⟩
  intro index member
  obtain ⟨table,here,holds,_⟩ := indexed index member
  exact ⟨table,here,holds⟩

def otherSchemas : Memory Nat := ⟨[oneRow "a" 5,oneRow "b" 7],[]⟩

/-- The index of a table with one column is merged with that of a table with another: this is an
error, and there are two entries for the one row. -/
theorem merged_across_schemas : ∃ memory, Run (Step numbers) otherSchemas [.make ["a"] 0,.make ["b"] 1] memory ∧
    (call numbers memory (.merge 0 1)).1 = .error (.error "Schema at index 1 was different") ∧
    (call numbers memory (.merge 0 1)).2 ≠ memory ∧ ¬ Valid (call numbers memory (.merge 0 1)).2 := by
  refine ⟨_,(Run.nil.snoc rfl).snoc rfl,rfl,?_,?_⟩
  · intro same
    have entries := congrArg (fun memory => memory.indexes.map fun index => index.valueRowMap.length) same
    revert entries
    decide
  · intro valid
    obtain ⟨table,here,keys,made,held⟩ := valid _ List.mem_cons_self
    obtain rfl := Option.some.inj here
    have lengths := held.length_eq
    rw [List.length_zipIdx,← made.length_eq] at lengths
    revert lengths
    decide

end Examples

end Hermes.TupleSetIndexes
