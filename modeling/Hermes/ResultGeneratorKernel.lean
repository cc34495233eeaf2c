import Hermes.Library.Fallible
import Hermes.Table

/-! The kernel that appends the rows of all tables to one builder for each output column.
The tables share one numbering, stables before memory deltas before disk deltas, and the
delete map lists rows by table. `none` is an exception or a null pointer. -/
namespace Hermes.ResultGeneratorKernel
open Hermes.Tuples Hermes.Library.Fallible
variable {ν : Type}

/-- An `unordered_map<int, set<int>>`. -/
abbrev DeleteMap := List (Int32 × List Int32)

def deleteSet (deleteMap : DeleteMap) (offset : Nat) : List Int32 :=
  (deleteMap.lookup (Int32.ofNat offset)).getD []

def count (deleteSet : List Int32) (r : Nat) : Bool := deleteSet.contains (Int32.ofNat r)

@[ext] structure ColumnBuilder (ν : Type) where
  name : String
  type : DataType
  values : List (Slot ν)

/-- `Column::element` reads what is under a null like any other value. -/
def element (type : DataType) (slot : Slot ν) : Option ν :=
  if type ∈ [.int32,.int64,.float,.double,.boolean,.string,.date64] then some slot.raw else none

/-- A scalar of a type that has no builder is refused, and the refusal is not looked at. -/
def ColumnBuilder.append (builder : ColumnBuilder ν) (type : DataType) (value : ν) : Option (ColumnBuilder ν) :=
  if type ∈ [.int32,.int64,.double,.boolean,.date64,.string] then
    if builder.type = type then some {builder with values := builder.values ++ [⟨true,value⟩]} else none
  else some builder

def getColumnByName (table : Table ν) (name : String) : Option (DataType × List (Slot ν)) := do
  let c ← getFieldIndex table.fields (canonicalize name)
  let field ← table.fields[c]?
  some (field.type,table.rows.filterMap (·[c]?))

def slotsOf (table : Table ν) (name : String) : List (Slot ν) := ((getColumnByName table name).map Prod.snd).getD []

/-- The rows of one column, without those that are skipped. -/
def appendRows (skips : Nat → Bool) (builder : ColumnBuilder ν) (type : DataType) (slots : List (Slot ν)) :
    Option (ColumnBuilder ν) :=
  slots.zipIdx.foldlM (fun builder (slot,r) =>
    if skips r then some builder else (element type slot).bind (builder.append type)) builder

def appendTable (skips : Nat → Bool) (builders : List (ColumnBuilder ν)) (table : Table ν) :
    Option (List (ColumnBuilder ν)) :=
  builders.mapM fun builder => do
    let (type,slots) ← getColumnByName table builder.name
    appendRows skips builder type slots

/-- The arguments of the kernel. The timestamps of the disk deltas are not read. -/
structure Input (ν : Type) where
  deltas : List (Table ν)
  stables : List (Table ν)
  diskDeltas : List (Table ν)
  deleteMap : DeleteMap
  projectColumnNames : List String
  schema : List Field

namespace Input
variable (input : Input ν)

def columnBuilder (name : String) : Option (ColumnBuilder ν) := do
  let c ← getFieldIndex input.schema name
  let field ← input.schema[c]?
  some ⟨name,field.type,[]⟩

/-- The loops over the stable tables and over the memory deltas skip what the delete set does not
have, the loop over the disk deltas what it has. -/
def getFinalResult : Option (List (ColumnBuilder ν)) := do
  let columnBuilderArray ← input.projectColumnNames.mapM input.columnBuilder
  let columnBuilderArray ← input.stables.zipIdx.foldlM (fun builders (table,i) =>
    appendTable (fun r => !count (deleteSet input.deleteMap i) r) builders table) columnBuilderArray
  let columnBuilderArray ← (input.deltas.zipIdx input.stables.length).foldlM (fun builders (table,offset_i) =>
    appendTable (fun r => !count (deleteSet input.deleteMap offset_i) r) builders table) columnBuilderArray
  (input.diskDeltas.zipIdx (input.stables.length+input.deltas.length)).foldlM (fun builders (table,offset_i) =>
    appendTable (count (deleteSet input.deleteMap offset_i)) builders table) columnBuilderArray

def tables : List (Table ν × Nat) := (input.stables ++ input.deltas ++ input.diskDeltas).zipIdx

def keptOf (name : String) (table : Table ν × Nat) : List (Slot ν) :=
  ((slotsOf table.1 name).zipIdx.filter fun (_,r) => !count (deleteSet input.deleteMap table.2) r).map Prod.fst

/-- Each output column has the values of the rows that are not deleted, in order, and all have as many. -/
def HoldsKept : Prop :=
  ∃ builders, input.getFinalResult = some builders ∧
    builders.map ColumnBuilder.values = input.projectColumnNames.map
      (fun name => input.tables.flatMap (input.keptOf name)) ∧
    ∀ first ∈ builders, ∀ second ∈ builders, first.values.length = second.values.length

def labelSlot (i : Nat) (entry : Slot ν × Nat) : Slot (ν × Nat × Nat) := ⟨entry.1.isValid,entry.1.raw,i,entry.2⟩

/-- The same table with the index of table and row next to each value. -/
def labelTable (table : Table ν) (i : Nat) : Table (ν × Nat × Nat) where
  fields := table.fields
  rows := table.rows.zipIdx.map fun (row,r) => row.map fun slot => labelSlot i (slot,r)
  shaped := by
    intro row member
    obtain ⟨⟨source,r⟩,there,rfl⟩ := List.mem_map.mp member
    simpa using table.shaped source (List.fst_mem_of_mem_zipIdx there)

def labelled : Input (ν × Nat × Nat) where
  stables := input.stables.zipIdx.map fun (table,i) => labelTable table i
  deltas := (input.deltas.zipIdx input.stables.length).map fun (table,i) => labelTable table i
  diskDeltas := (input.diskDeltas.zipIdx (input.stables.length+input.deltas.length)).map fun (table,i) => labelTable table i
  deleteMap := input.deleteMap
  projectColumnNames := input.projectColumnNames
  schema := input.schema

/-- The output is that of exactly the rows that are not deleted: also where values are told apart by the row
they come from. -/
def OutputsKept : Prop := input.HoldsKept ∧ input.labelled.HoldsKept

def catalogueTypes : List DataType := [.int32,.int64,.double,.string,.boolean,.date64]

def Typed : Prop :=
  ∀ name ∈ input.projectColumnNames, ∃ type ∈ catalogueTypes, input.columnBuilder name = some ⟨name,type,[]⟩ ∧
    ∀ table ∈ input.stables ++ input.deltas ++ input.diskDeltas, ∃ slots, getColumnByName table name = some (type,slots)

end Input

section Loops
variable {type : DataType} {builders : List (ColumnBuilder ν)}

def written (skips : Nat → Bool) (entries : List (Slot ν × Nat)) : List (Slot ν) :=
  (entries.filter fun (_,r) => !skips r).map fun (slot,_) => ⟨true,slot.raw⟩

theorem append_typed (known : type ∈ Input.catalogueTypes) {builder : ColumnBuilder ν} (typed : builder.type = type)
    (slot : Slot ν) : (element type slot).bind (builder.append type) =
      some {builder with values := builder.values ++ [⟨true,slot.raw⟩]} := by
  subst typed
  simp only [Input.catalogueTypes,List.mem_cons,List.not_mem_nil,or_false] at known
  rcases known with known | known | known | known | known | known <;> simp [element,ColumnBuilder.append,known]

theorem appendEntries_typed (known : type ∈ Input.catalogueTypes) (skips : Nat → Bool) (entries : List (Slot ν × Nat))
    {builder : ColumnBuilder ν} (typed : builder.type = type) :
    entries.foldlM (fun builder (slot,r) =>
      if skips r then some builder else (element type slot).bind (builder.append type)) builder =
      some {builder with values := builder.values ++ written skips entries} := by
  induction entries generalizing builder with
  | nil => simp [written]
  | cons entry entries ih =>
    obtain ⟨slot,r⟩ := entry
    rw [List.foldlM_cons]
    by_cases skipped : skips r = true
    · simp [skipped,ih typed,written]
    · have appended := append_typed known typed slot
      have rest := @ih {builder with values := builder.values ++ [⟨true,slot.raw⟩]} typed
      simp [skipped,appended,rest,written]

def Fits (table : Table ν) (builder : ColumnBuilder ν) : Prop :=
  builder.type ∈ Input.catalogueTypes ∧ ∃ slots, getColumnByName table builder.name = some (builder.type,slots)

def writtenOf (skips : Nat → Nat → Bool) (name : String) (table : Table ν × Nat) : List (Slot ν) :=
  written (skips table.2) (slotsOf table.1 name).zipIdx

def extend (values : String → List (Slot ν)) (builder : ColumnBuilder ν) : ColumnBuilder ν :=
  {builder with values := builder.values ++ values builder.name}

theorem extend_nothing : extend (fun _ => ([] : List (Slot ν))) = id := by
  ext builder <;> simp [extend]

theorem appendTable_typed (skips : Nat → Nat → Bool) (table : Table ν × Nat)
    (fits : ∀ builder ∈ builders, Fits table.1 builder) :
    appendTable (skips table.2) builders table.1 =
    some (builders.map (extend fun name => writtenOf skips name table)) := by
  apply mapM_some
  intro builder inside
  obtain ⟨known,slots,found⟩ := fits builder inside
  have column : slotsOf table.1 builder.name = slots := by simp [slotsOf,found]
  simp only [found,Option.bind_eq_bind,Option.bind_some,extend,writtenOf,column]
  exact appendEntries_typed known (skips table.2) slots.zipIdx rfl

theorem appendTables_typed (skips : Nat → Nat → Bool) (tables : List (Table ν × Nat))
    (fits : ∀ builder ∈ builders, ∀ table ∈ tables, Fits table.1 builder) :
    tables.foldlM (fun builders (table,i) => appendTable (skips i) builders table) builders =
      some (builders.map (extend fun name => tables.flatMap (writtenOf skips name))) := by
  induction tables generalizing builders with
  | nil => simp [extend_nothing]
  | cons table tables ih =>
    have first := appendTable_typed skips table fun builder inside => fits builder inside table List.mem_cons_self
    simp only [List.foldlM_cons,first,Option.bind_eq_bind,Option.bind_some]
    rw [ih]
    · simp [extend,Function.comp_def,List.append_assoc]
    · intro builder inside other member
      obtain ⟨source,there,rfl⟩ := List.mem_map.mp inside
      exact fits source there other (List.mem_cons_of_mem _ member)

end Loops

namespace Input
variable {input : Input ν}

/-- What the loops append to one column: the listed rows of the stables and memory deltas, and the rows of
the disk deltas that are not listed. -/
def writtenColumn (input : Input ν) (name : String) : List (Slot ν) :=
  input.stables.zipIdx.flatMap (writtenOf (fun i r => !count (deleteSet input.deleteMap i) r) name) ++
    (input.deltas.zipIdx input.stables.length).flatMap
      (writtenOf (fun i r => !count (deleteSet input.deleteMap i) r) name) ++
    (input.diskDeltas.zipIdx (input.stables.length+input.deltas.length)).flatMap
      (writtenOf (fun i => count (deleteSet input.deleteMap i)) name)

theorem getFinalResult_typed (typed : input.Typed) : ∃ types : String → DataType,
    input.getFinalResult = some (input.projectColumnNames.map fun name => ⟨name,types name,
      input.writtenColumn name⟩) := by
  have someType : Nonempty DataType := ⟨.int32⟩
  choose! types known built found using typed
  refine ⟨types,?_⟩
  have started := mapM_some input.projectColumnNames built
  -- every table fits every builder, whatever its values
  have fits {tables : List (Table ν)} (fewer : tables ⊆ input.stables ++ input.deltas ++ input.diskDeltas) (first : Nat)
      {values : String → List (Slot ν)} : ∀ builder ∈ input.projectColumnNames.map
        (fun name => ⟨name,types name,values name⟩),
      ∀ table ∈ tables.zipIdx first, Fits table.1 builder := by
    intro builder inside table member
    obtain ⟨name,asked,rfl⟩ := List.mem_map.mp inside
    exact ⟨known name asked,found name asked table.1 (fewer (List.fst_mem_of_mem_zipIdx member))⟩
  unfold getFinalResult
  simp only [started,Option.bind_eq_bind,Option.bind_some]
  rw [appendTables_typed (fun i r => !count (deleteSet input.deleteMap i) r) _ (fits (fun _ member => by simp [member]) 0)]
  simp only [Option.bind_some,List.map_map,Function.comp_def,extend]
  rw [appendTables_typed (fun i r => !count (deleteSet input.deleteMap i) r) _ (fits (fun _ member => by simp [member]) _)]
  simp only [Option.bind_some,List.map_map,Function.comp_def,extend]
  rw [appendTables_typed (fun i => count (deleteSet input.deleteMap i)) _ (fits (fun _ member => by simp [member]) _)]
  simp [writtenColumn,extend]

theorem getColumnByName_eq_some {table : Table ν} {name : String} {column : DataType × List (Slot ν)} :
    getColumnByName table name = some column ↔ ∃ c field, getFieldIndex table.fields (canonicalize name) = some c ∧
      table.fields[c]? = some field ∧ column = (field.type,table.rows.filterMap (·[c]?)) := by
  simp only [getColumnByName,Option.bind_eq_bind,Option.bind_eq_some_iff,Option.some.injEq]
  constructor
  · rintro ⟨c,found,field,there,rfl⟩
    exact ⟨c,field,found,there,rfl⟩
  · rintro ⟨c,field,found,there,rfl⟩
    exact ⟨c,found,field,there,rfl⟩

theorem length_slotsOf {table : Table ν} {name : String} {column : DataType × List (Slot ν)}
    (found : getColumnByName table name = some column) : (slotsOf table name).length = table.rows.length := by
  obtain ⟨c,field,index,_,rfl⟩ := getColumnByName_eq_some.mp found
  simp only [slotsOf,found,Option.map_some,Option.getD_some]
  apply Table.length_filterMap_of_found
  intro row member
  simpa [table.shaped row member] using getFieldIndex_lt index

theorem length_keptOf {name : String} {table : Table ν × Nat} {column : DataType × List (Slot ν)}
    (found : getColumnByName table.1 name = some column) : (input.keptOf name table).length =
      ((List.range table.1.rows.length).filter fun r => !count (deleteSet input.deleteMap table.2) r).length := by
  have rows : (slotsOf table.1 name).zipIdx.map Prod.snd = List.range table.1.rows.length := by
    simp [List.range_eq_range',length_slotsOf found]
  rw [keptOf,List.length_map,← rows,List.filter_map,List.length_map]
  rfl

theorem holdsKept_typed (typed : input.Typed) : input.HoldsKept ↔
    ∀ name ∈ input.projectColumnNames, input.writtenColumn name = input.tables.flatMap (input.keptOf name) := by
  obtain ⟨types,done⟩ := getFinalResult_typed typed
  simp only [HoldsKept,done,Option.some.injEq,exists_eq_left',List.map_map,List.map_inj_left,Function.comp_apply]
  refine ⟨And.left,fun same => ⟨same,?_⟩⟩
  have length : ∀ name ∈ input.projectColumnNames, (input.writtenColumn name).length = (input.tables.map fun table =>
      ((List.range table.1.rows.length).filter fun r => !count (deleteSet input.deleteMap table.2) r).length).sum := by
    intro name asked
    obtain ⟨type,_,_,found⟩ := typed name asked
    rw [same name asked,List.length_flatMap]
    apply congrArg
    apply List.map_congr_left
    intro table member
    obtain ⟨slots,column⟩ := found table.1 (List.fst_mem_of_mem_zipIdx member)
    exact length_keptOf column
  simp only [List.forall_mem_map]
  intro first asked second other
  rw [length first asked,length second other]

/-- No stable table and no memory delta has a row, and no value of a kept row of a disk delta is null. -/
def DiskOnly (input : Input ν) : Prop :=
  (∀ table ∈ input.stables ++ input.deltas, table.rows = []) ∧
    ∀ name ∈ input.projectColumnNames, ∀ table ∈ input.diskDeltas.zipIdx (input.stables.length+input.deltas.length),
      ∀ slot ∈ input.keptOf name table, slot.isValid = true

theorem tables_eq : input.tables = input.stables.zipIdx ++ input.deltas.zipIdx input.stables.length ++
    input.diskDeltas.zipIdx (input.stables.length+input.deltas.length) := by
  simp [tables,List.zipIdx_append]

theorem slotsOf_empty {table : Table ν} (none : table.rows = []) (name : String) : slotsOf table name = [] := by
  cases found : getColumnByName table name with
  | none => simp [slotsOf,found]
  | some column =>
    obtain ⟨c,field,_,_,rfl⟩ := getColumnByName_eq_some.mp found
    simp [slotsOf,found,none]

theorem writtenOf_disk {name : String} {table : Table ν × Nat}
    (valid : ∀ slot ∈ input.keptOf name table, slot.isValid = true) :
    writtenOf (fun i => count (deleteSet input.deleteMap i)) name table = input.keptOf name table := by
  apply List.map_congr_left
  intro entry inside
  have here := valid entry.1 (List.mem_map_of_mem inside)
  obtain ⟨⟨isValid,raw⟩,r⟩ := entry
  simpa using here.symm

theorem holdsKept_of_diskOnly (typed : input.Typed) (only : input.DiskOnly) : input.HoldsKept := by
  rw [holdsKept_typed typed]
  intro name asked
  have none {tables : List (Table ν)} (fewer : tables ⊆ input.stables ++ input.deltas) (first : Nat)
      {part : Table ν × Nat → List (Slot ν)} (empty : ∀ table, slotsOf table.1 name = [] → part table = []) :
      (tables.zipIdx first).flatMap part = [] := by
    rw [List.flatMap_eq_nil_iff]
    intro table member
    exact empty table (slotsOf_empty (only.1 table.1 (fewer (List.fst_mem_of_mem_zipIdx member))) name)
  have kept (table : Table ν × Nat) (empty : slotsOf table.1 name = []) : input.keptOf name table = [] := by
    simp [keptOf,empty]
  have appended (skips : Nat → Nat → Bool) (table : Table ν × Nat) (empty : slotsOf table.1 name = []) :
      writtenOf skips name table = [] := by
    simp [writtenOf,written,empty]
  rw [writtenColumn,tables_eq,List.flatMap_append,List.flatMap_append]
  rw [none (fun _ member => by simp [member]) _ (appended _),none (fun _ member => by simp [member]) _ (appended _),
    none (fun _ member => by simp [member]) _ kept,none (fun _ member => by simp [member]) _ kept]
  rw [List.nil_append,List.nil_append]
  exact List.flatMap_congr fun table member => writtenOf_disk (only.2 name asked table member)

section Labels

theorem label_column {rows : List (List (Slot ν))} {c : Nat} (long : ∀ row ∈ rows, c < row.length) (i first : Nat) :
    (rows.zipIdx first).filterMap (fun entry => entry.1[c]?.map fun slot => labelSlot i (slot,entry.2)) =
      ((rows.filterMap (·[c]?)).zipIdx first).map (labelSlot i) := by
  induction rows generalizing first with
  | nil => rfl
  | cons row rows ih =>
    obtain ⟨here,later⟩ := List.forall_mem_cons.mp long
    simp [List.getElem?_eq_getElem here,ih later (first+1)]

theorem getColumnByName_labelTable (table : Table ν) (i : Nat) (name : String) :
    getColumnByName (labelTable table i) name =
      (getColumnByName table name).map fun column => (column.1,column.2.zipIdx.map (labelSlot i)) := by
  cases found : getFieldIndex table.fields (canonicalize name) with
  | none => simp [getColumnByName,labelTable,found]
  | some c =>
    have bound := getFieldIndex_lt found
    have cells := label_column (fun row member => (table.shaped row member).symm ▸ bound) i 0
    simp [getColumnByName,labelTable,found,List.getElem?_eq_getElem bound,cells]

theorem slotsOf_labelTable (table : Table ν) (i : Nat) (name : String) :
    slotsOf (labelTable table i) name = (slotsOf table name).zipIdx.map (labelSlot i) := by
  rw [slotsOf,getColumnByName_labelTable,slotsOf]
  cases getColumnByName table name <;> simp

def label (table : Table ν × Nat) : Table (ν × Nat × Nat) × Nat := (labelTable table.1 table.2,table.2)

theorem zipIdx_labelled (tables : List (Table ν)) (first : Nat) :
    ((tables.zipIdx first).map fun (table,i) => labelTable table i).zipIdx first = (tables.zipIdx first).map label := by
  induction tables generalizing first with
  | nil => rfl
  | cons table tables ih => simp [label,ih]

theorem mem_map_label {α : Type} (takes : Nat → Bool) (make : Slot (ν × Nat × Nat) → α) (name : String)
    (table : Table ν × Nat) (x : α) :
    x ∈ ((slotsOf (label table).1 name).zipIdx.filter fun (_,r) => takes r).map (fun (slot,_) => make slot) ↔
      ∃ r source, (slotsOf table.1 name)[r]? = some source ∧ takes r = true ∧
      x = make (labelSlot table.2 (source,r)) := by
  simp only [label,slotsOf_labelTable,List.mem_map,List.mem_filter,Prod.exists,List.mem_zipIdx_iff_getElem?,
    List.getElem?_map,List.getElem?_zipIdx]
  constructor
  · rintro ⟨_,r,⟨there,taken⟩,rfl⟩
    obtain ⟨_,found,rfl⟩ := Option.map_eq_some_iff.mp there
    obtain ⟨source,here,rfl⟩ := Option.map_eq_some_iff.mp found
    exact ⟨r,source,here,taken,by rw [Nat.zero_add]⟩
  · rintro ⟨r,source,here,taken,rfl⟩
    exact ⟨labelSlot table.2 (source,r),r,⟨by simp [here],taken⟩,rfl⟩

theorem mem_keptOf_label {name : String} {table : Table ν × Nat} {slot : Slot (ν × Nat × Nat)} :
    slot ∈ input.labelled.keptOf name (label table) ↔ ∃ r source, (slotsOf table.1 name)[r]? = some source ∧
      count (deleteSet input.deleteMap table.2) r = false ∧ slot = ⟨source.isValid,source.raw,table.2,r⟩ := by
  have labelled := mem_map_label (fun r => !count (deleteSet input.deleteMap table.2) r) id name table slot
  simp only [Bool.not_eq_true'] at labelled
  exact labelled

theorem mem_writtenOf_label {skips : Nat → Nat → Bool} {name : String} {table : Table ν × Nat}
    {slot : Slot (ν × Nat × Nat)} :
    slot ∈ writtenOf skips name (label table) ↔ ∃ r source, (slotsOf table.1 name)[r]? = some source ∧
      skips table.2 r = false ∧ slot = ⟨true,source.raw,table.2,r⟩ := by
  have labelled := mem_map_label (fun r => !skips table.2 r) (fun slot => ⟨true,slot.raw⟩) name table slot
  simp only [Bool.not_eq_true'] at labelled
  exact labelled

theorem typed_labelled (typed : input.Typed) : input.labelled.Typed := by
  intro name asked
  obtain ⟨type,known,built,found⟩ := typed name asked
  simp only [columnBuilder,Option.bind_eq_bind,Option.bind_eq_some_iff,Option.some.injEq,
    ColumnBuilder.mk.injEq] at built
  obtain ⟨c,index,field,there,_,rfl,_⟩ := built
  refine ⟨field.type,known,by simp [columnBuilder,labelled,index,there],?_⟩
  intro table member
  have source : ∃ original ∈ input.stables ++ input.deltas ++ input.diskDeltas, ∃ i, table = labelTable original i := by
    simp only [labelled,List.mem_append,List.mem_map,Prod.exists] at member
    rcases member with (⟨original,i,there,rfl⟩ | ⟨original,i,there,rfl⟩) | ⟨original,i,there,rfl⟩ <;>
      exact ⟨original,by simp [List.fst_mem_of_mem_zipIdx there],i,rfl⟩
  obtain ⟨original,there,i,rfl⟩ := source
  obtain ⟨slots,column⟩ := found original there
  exact ⟨_,by rw [getColumnByName_labelTable,column]; rfl⟩

theorem diskOnly_labelled (only : input.DiskOnly) : input.labelled.DiskOnly := by
  constructor
  · intro table member
    simp only [labelled,List.mem_append,List.mem_map,Prod.exists] at member
    rcases member with ⟨original,i,there,rfl⟩ | ⟨original,i,there,rfl⟩ <;>
      simp [labelTable,only.1 original (by simp [List.fst_mem_of_mem_zipIdx there])]
  · intro name asked table member slot inside
    have sizes : input.labelled.stables.length+input.labelled.deltas.length =
        input.stables.length+input.deltas.length := by
      simp [labelled]
    rw [sizes,labelled,zipIdx_labelled] at member
    obtain ⟨original,there,rfl⟩ := List.mem_map.mp member
    obtain ⟨r,source,here,kept,rfl⟩ := mem_keptOf_label.mp inside
    apply only.2 name asked original there source
    simp only [keptOf,List.mem_map,List.mem_filter,Prod.exists,List.mem_zipIdx_iff_getElem?]
    exact ⟨source,r,⟨here,by simp [kept]⟩,rfl⟩

theorem mem_writtenColumn_labelled {name : String} {slot : Slot (ν × Nat × Nat)} :
    slot ∈ input.labelled.writtenColumn name ↔
      (∃ table ∈ (input.stables ++ input.deltas).zipIdx, ∃ r source, (slotsOf table.1 name)[r]? = some source ∧
        count (deleteSet input.deleteMap table.2) r = true ∧ slot = ⟨true,source.raw,table.2,r⟩) ∨
      ∃ table ∈ input.diskDeltas.zipIdx (input.stables.length+input.deltas.length), ∃ r source,
        (slotsOf table.1 name)[r]? = some source ∧ count (deleteSet input.deleteMap table.2) r = false ∧
          slot = ⟨true,source.raw,table.2,r⟩ := by
  have stables : input.labelled.stables.zipIdx = input.stables.zipIdx.map label := zipIdx_labelled _ _
  have deltas : input.labelled.deltas.zipIdx input.labelled.stables.length =
      (input.deltas.zipIdx input.stables.length).map label := by
    rw [show input.labelled.stables.length = input.stables.length by simp [labelled]]
    exact zipIdx_labelled _ _
  have diskDeltas : input.labelled.diskDeltas.zipIdx (input.labelled.stables.length+input.labelled.deltas.length) =
      (input.diskDeltas.zipIdx (input.stables.length+input.deltas.length)).map label := by
    rw [show input.labelled.stables.length+input.labelled.deltas.length = input.stables.length+input.deltas.length by
      simp [labelled]]
    exact zipIdx_labelled _ _
  rw [writtenColumn,stables,deltas,diskDeltas,List.mem_append,← List.flatMap_append,← List.map_append,
    List.zipIdx_append]
  simp only [List.mem_flatMap,List.flatMap_map,mem_writtenOf_label,Bool.not_eq_false',Nat.zero_add]
  rfl

theorem mem_kept_labelled {name : String} {slot : Slot (ν × Nat × Nat)} :
    slot ∈ input.labelled.tables.flatMap (input.labelled.keptOf name) ↔ ∃ table ∈ input.tables, ∃ r source,
      (slotsOf table.1 name)[r]? = some source ∧ count (deleteSet input.deleteMap table.2) r = false ∧
        slot = ⟨source.isValid,source.raw,table.2,r⟩ := by
  have tables : input.labelled.tables = input.tables.map label := by
    rw [tables,tables,← zipIdx_labelled]
    simp [labelled,List.zipIdx_append]
  rw [tables]
  simp only [List.mem_flatMap,List.flatMap_map,mem_keptOf_label]

theorem slotsOf_filled {table : Table ν} {name : String} {column : DataType × List (Slot ν)}
    (found : getColumnByName table name = some column) (filled : table.rows ≠ []) :
    ∃ source, (slotsOf table name)[0]? = some source := by
  obtain ⟨c,field,index,_,rfl⟩ := getColumnByName_eq_some.mp found
  obtain ⟨row,rows,cut⟩ := List.exists_cons_of_ne_nil filled
  have bound : c < row.length := (table.shaped row (by simp [cut])).symm ▸ getFieldIndex_lt index
  exact ⟨row[c],by simp [slotsOf,found,cut,List.getElem?_eq_getElem bound]⟩

end Labels

theorem rows_eq_nil_of_holdsKept (typed : input.Typed) {name : String} (asked : name ∈ input.projectColumnNames)
    (same : input.labelled.writtenColumn name = input.labelled.tables.flatMap (input.labelled.keptOf name))
    {table : Table ν} (member : table ∈ input.stables ++ input.deltas) : table.rows = [] := by
  by_contra filled
  obtain ⟨type,_,_,found⟩ := typed name asked
  obtain ⟨slots,column⟩ := found table (List.mem_append_left _ member)
  obtain ⟨source,here⟩ := slotsOf_filled column filled
  obtain ⟨i,bound,there⟩ := List.mem_iff_getElem.mp member
  have inside : (table,i) ∈ (input.stables ++ input.deltas).zipIdx := by
    simp [List.mem_zipIdx_iff_getElem?,List.getElem?_eq_getElem bound,there]
  have numbered : (table,i) ∈ input.tables := by
    rw [tables,List.zipIdx_append]
    exact List.mem_append_left _ inside
  cases listed : count (deleteSet input.deleteMap i) 0 with
  | true =>
    have appended := mem_writtenColumn_labelled.mpr (.inl ⟨_,inside,0,source,here,listed,rfl⟩)
    rw [same,mem_kept_labelled] at appended
    obtain ⟨other,_,r,_,_,kept,equal⟩ := appended
    simp only [Slot.mk.injEq,Prod.mk.injEq] at equal
    rw [← equal.2.2.1,← equal.2.2.2,listed] at kept
    cases kept
  | false =>
    have kept := mem_kept_labelled.mpr ⟨_,numbered,0,source,here,listed,rfl⟩
    rw [← same,mem_writtenColumn_labelled] at kept
    rcases kept with ⟨other,_,r,_,_,deleted,equal⟩ | ⟨other,disk,r,_,_,_,equal⟩
    · simp only [Slot.mk.injEq,Prod.mk.injEq] at equal
      rw [← equal.2.2.1,← equal.2.2.2,listed] at deleted
      cases deleted
    · simp only [Slot.mk.injEq,Prod.mk.injEq] at equal
      have low := List.le_snd_of_mem_zipIdx disk
      rw [← equal.2.2.1] at low
      rw [List.length_append] at bound
      omega

theorem getFinalResult_keeps_iff (typed : input.Typed) :
    input.OutputsKept ↔ input.projectColumnNames = [] ∨ input.DiskOnly := by
  constructor
  · rintro ⟨_,labels⟩
    rw [holdsKept_typed (typed_labelled typed)] at labels
    rw [or_iff_not_imp_left]
    intro some'
    obtain ⟨first,asked⟩ := List.exists_mem_of_ne_nil _ some'
    refine ⟨fun table member => rows_eq_nil_of_holdsKept typed asked (labels first asked) member,?_⟩
    intro name asked table member slot inside
    simp only [keptOf,List.mem_map,List.mem_filter,Prod.exists,List.mem_zipIdx_iff_getElem?,Bool.not_eq_true'] at inside
    obtain ⟨_,r,⟨here,kept⟩,rfl⟩ := inside
    have numbered : table ∈ input.tables := by
      rw [tables_eq]
      exact List.mem_append_right _ member
    have both := mem_kept_labelled.mpr ⟨table,numbered,r,_,here,kept,rfl⟩
    rw [← labels name asked,mem_writtenColumn_labelled] at both
    rcases both with ⟨_,_,_,_,_,_,equal⟩ | ⟨_,_,_,_,_,_,equal⟩ <;> exact (Slot.mk.inj equal).1
  · rintro (none | only)
    · refine ⟨(holdsKept_typed typed).mpr ?_,(holdsKept_typed (typed_labelled typed)).mpr ?_⟩ <;> simp [labelled,none]
    · exact ⟨holdsKept_of_diskOnly typed only,holdsKept_of_diskOnly (typed_labelled typed) (diskOnly_labelled only)⟩

def twoRows : Table Int := ⟨[⟨"k",.int32⟩],[[⟨true,1⟩],[⟨true,2⟩]],by decide⟩

/-- Row 0 of the only disk delta is listed. -/
def diskDelta : Input Int := ⟨[],[],[twoRows],[(0,[0])],["k"],[⟨"k",.int32⟩]⟩

theorem diskDelta_kept : diskDelta.OutputsKept := by
  apply (getFinalResult_keeps_iff _).mpr (.inr ⟨_,_⟩)
  · intro name asked
    obtain rfl := List.mem_singleton.mp asked
    refine ⟨.int32,by decide,rfl,fun table member => ?_⟩
    obtain rfl := List.mem_singleton.mp member
    exact ⟨[⟨true,1⟩,⟨true,2⟩],rfl⟩
  · simp [diskDelta]
  · decide

def stableTable : Input Int := ⟨[],[twoRows],[],[(0,[0])],["k"],[⟨"k",.int32⟩]⟩

/-- Row 0 of the only stable table is listed, and it is the one that is written. -/
theorem deleted_row_written :
    stableTable.getFinalResult = some [⟨"k",.int32,[⟨true,1⟩]⟩] ∧
      stableTable.tables.flatMap (stableTable.keptOf "k") = [⟨true,2⟩] ∧ ¬stableTable.OutputsKept := by
  have result : stableTable.getFinalResult = some [⟨"k",.int32,[⟨true,1⟩]⟩] := rfl
  refine ⟨result,rfl,?_⟩
  rintro ⟨⟨builders,done,kept,_⟩,_⟩
  obtain rfl := Option.some.inj (done.symm.trans result)
  exact absurd kept (by decide)

end Input

end Hermes.ResultGeneratorKernel
