import Mathlib.Data.List.Nodup

/-! Tuple sets whose schema is part of the value, as the operators see them that
combine tables of different schemas. A table is its rows; how they are cut into chunks
is left to the readers. -/
namespace Hermes.Tuples
variable {ν : Type}

/-- Why a call gives no result: the error it returns, or an exception that leaves it. -/
inductive Failure where
  | error (message : String)
  | exception
deriving DecidableEq, Repr

inductive DataType where
  | boolean
  | int8
  | int16
  | int32
  | int64
  | uint8
  | uint16
  | uint32
  | uint64
  | float
  | double
  | date32
  | date64
  | string
deriving DecidableEq, Repr

/-- `arrow::DataType::name`. -/
def typeName : DataType → String
  | .boolean => "bool"
  | .int8 => "int8"
  | .int16 => "int16"
  | .int32 => "int32"
  | .int64 => "int64"
  | .uint8 => "uint8"
  | .uint16 => "uint16"
  | .uint32 => "uint32"
  | .uint64 => "uint64"
  | .float => "float"
  | .double => "double"
  | .date32 => "date32"
  | .date64 => "date64"
  | .string => "utf8"

/-- `arrow::DataType::ToString`. -/
def typeText : DataType → String
  | .date32 => "date32[day]"
  | .date64 => "date64[ms]"
  | .string => "string"
  | type => typeName type

/-- `fpdb::util::hashCombine`. -/
def hashCombine (hashes : List UInt64) : UInt64 :=
  hashes.foldl (fun (seed hash : UInt64) => seed ^^^ (hash+0x9e3779b9+(seed <<< (6 : UInt64))+(seed >>> (2 : UInt64))))
    (UInt64.ofNat hashes.length)

/-- The types for which `ArrayAppenderBuilder::make` has an appender. -/
def appendable : DataType → Bool
  | .string | .int32 | .int64 | .double | .date64 | .boolean => true
  | _ => false

/-- A field as `arrow::field` makes it: nullable and without metadata. -/
structure Field where
  name : String
  type : DataType
deriving DecidableEq, Repr

/-- A place in an array. Under a null there is still a raw value, whichever the buffer
happens to hold. -/
structure Slot (ν : Type) where
  isValid : Bool
  raw : ν
deriving DecidableEq, Repr

def Slot.value (slot : Slot ν) : Option ν := if slot.isValid then some slot.raw else none

structure Table (ν : Type) where
  fields : List Field
  rows : List (List (Slot ν))
  shaped : ∀ row ∈ rows, row.length = fields.length
deriving DecidableEq

/-- `TupleSet`; without a table it is not valid. -/
abbrev TupleSet (ν : Type) := Option (Table ν)

/-- `ColumnName::canonicalize`. -/
def canonicalize (columnName : String) : String := String.ofList (columnName.toList.map Char.toLower)

theorem toLower_toLower (c : Char) : c.toLower.toLower = c.toLower := by
  have small : ¬(c.toLower.val ≥ 'A'.val ∧ c.toLower.val ≤ 'Z'.val) := by
    unfold Char.toLower
    split
    next upper =>
      have value : (c.val + ('a'.val - 'A'.val)).toNat = c.val.toNat+32 := by
        have bound : c.val.toNat ≤ 90 := upper.2
        rw [UInt32.toNat_add]
        show (c.val.toNat+32)%2^32 = _
        omega
      rintro ⟨_,high⟩
      have low : 65 ≤ c.val.toNat := upper.1
      have high' : (c.val + ('a'.val - 'A'.val)).toNat ≤ 90 := high
      omega
    next other => exact other
  rw [Char.toLower.eq_def c.toLower,dif_neg small]

theorem canonicalize_canonicalize (columnName : String) :
    canonicalize (canonicalize columnName) = canonicalize columnName := by
  unfold canonicalize
  rw [String.toList_ofList,List.map_map]
  apply congrArg
  apply List.map_congr_left
  intro c _
  exact toLower_toLower c

def places (fields : List Field) (name : String) : List Nat :=
  (List.range fields.length).filter fun c => fields[c]?.any fun field => field.name == name

/-- Arrow finds a field by its name only if no other field has the same. -/
def getFieldIndex (fields : List Field) (name : String) : Option Nat :=
  match places fields name with
  | [c] => some c
  | _ => none

theorem getFieldIndex_eq_some {fields : List Field} {name : String} {c : Nat} :
    getFieldIndex fields name = some c ↔ places fields name = [c] := by
  unfold getFieldIndex
  split
  next only same => simp [same]
  next other =>
    refine ⟨(by intro wrong; cases wrong),?_⟩
    intro same
    exact absurd same (other c)

theorem getFieldIndex_lt {fields : List Field} {name : String} {c : Nat} (found : getFieldIndex fields name = some c) :
    c < fields.length := by
  have member : c ∈ places fields name := by
    rw [getFieldIndex_eq_some.mp found]
    exact List.mem_singleton_self c
  exact List.mem_range.mp (List.mem_filter.mp member).1

theorem getFieldIndex_iff {fields : List Field} {name : String} {c : Nat} :
    getFieldIndex fields name = some c ↔ (∃ field, fields[c]? = some field ∧ field.name = name) ∧
      ∀ other field, fields[other]? = some field → field.name = name → other = c := by
  have member : ∀ other, other ∈ places fields name ↔ ∃ field, fields[other]? = some field ∧ field.name = name := by
    intro other
    rw [places,List.mem_filter,List.mem_range]
    constructor
    · rintro ⟨bound,named⟩
      rw [List.getElem?_eq_getElem bound] at named ⊢
      exact ⟨_,rfl,by simpa using named⟩
    · rintro ⟨field,there,rfl⟩
      exact ⟨(List.getElem?_eq_some_iff.mp there).1,by rw [there]; simp⟩
  have unique : (places fields name).Nodup := List.nodup_range.filter _
  rw [getFieldIndex_eq_some,← List.perm_singleton,List.perm_ext_iff_of_nodup unique (List.nodup_singleton c)]
  constructor
  · intro same
    refine ⟨(member c).mp ((same c).mpr (List.mem_singleton_self c)),?_⟩
    intro other field there named
    exact List.mem_singleton.mp ((same other).mp ((member other).mpr ⟨field,there,named⟩))
  · rintro ⟨here,only⟩ other
    rw [List.mem_singleton]
    constructor
    · intro inside
      obtain ⟨field,there,named⟩ := (member other).mp inside
      exact only other field there named
    · rintro rfl
      exact (member other).mpr here

namespace Table

def numRows (table : Table ν) : Nat := table.rows.length

def numColumns (table : Table ν) : Nat := table.fields.length

/-- `TupleSet::makeWithEmptyTable`: no columns, no rows. -/
def empty : Table ν := ⟨[],[],fun _ inside => absurd inside List.not_mem_nil⟩

theorem length_filterMap_of_found {α β : Type} (lookup : α → Option β) (elements : List α)
    (found : ∀ element ∈ elements, (lookup element).isSome) : (elements.filterMap lookup).length = elements.length := by
  induction elements with
  | nil => rfl
  | cons element elements ih =>
    obtain ⟨value,here⟩ := Option.isSome_iff_exists.mp (found element List.mem_cons_self)
    rw [List.filterMap_cons_some here,List.length_cons,List.length_cons,
      ih fun later member => found later (List.mem_cons_of_mem _ member)]

theorem getElem?_filterMap_of_found {α β : Type} {lookup : α → Option β} {elements : List α}
    (found : ∀ element ∈ elements, (lookup element).isSome) (k : Nat) :
    (elements.filterMap lookup)[k]? = elements[k]?.bind lookup := by
  induction elements generalizing k with
  | nil => rfl
  | cons element elements ih =>
    obtain ⟨value,here⟩ := Option.isSome_iff_exists.mp (found element List.mem_cons_self)
    rw [List.filterMap_cons_some here]
    cases k with
    | zero => exact here.symm
    | succ k => exact ih (fun later member => found later (List.mem_cons_of_mem _ member)) k

/-- `TupleSet::make` on some columns under new names. Without a column there are no rows. -/
def make (table : Table ν) (columns : List (String × Nat))
    (inside : ∀ column ∈ columns, column.2 < table.fields.length) :
    Table ν where
  fields := columns.filterMap fun column => table.fields[column.2]?.map fun field => ⟨column.1,field.type⟩
  rows := if columns.isEmpty then [] else table.rows.map fun row => columns.filterMap fun column => row[column.2]?
  shaped := by
    intro row member
    split at member
    next => exact absurd member List.not_mem_nil
    next =>
      obtain ⟨source,there,rfl⟩ := List.mem_map.mp member
      rw [length_filterMap_of_found _ columns,length_filterMap_of_found _ columns]
      · intro column chosen
        simpa using inside column chosen
      · intro column chosen
        simpa [table.shaped source there] using inside column chosen

def existing (table : Table ν) (columnNames : List String) : List (String × Nat) :=
  columnNames.filterMap fun columnName =>
    (getFieldIndex table.fields (canonicalize columnName)).map fun c => (canonicalize columnName,c)

theorem existing_lt (table : Table ν) (columnNames : List String) :
    ∀ column ∈ table.existing columnNames, column.2 < table.fields.length := by
  intro column inside
  obtain ⟨columnName,_,found⟩ := List.mem_filterMap.mp inside
  obtain ⟨c,there,rfl⟩ := Option.map_eq_some_iff.mp found
  exact getFieldIndex_lt there

def projectExist (table : Table ν) (columnNames : List String) : Except String (Table ν) :=
  if (table.existing columnNames).isEmpty then .error "No column exists."
  else .ok (table.make (table.existing columnNames) (table.existing_lt columnNames))

end Table

namespace TupleSet

def fields (tupleSet : TupleSet ν) : List Field := (tupleSet.map Table.fields).getD []

def rows (tupleSet : TupleSet ν) : List (List (Slot ν)) := (tupleSet.map Table.rows).getD []

def numRows (tupleSet : TupleSet ν) : Nat := (tupleSet.map Table.numRows).getD 0

def numColumns (tupleSet : TupleSet ν) : Nat := (tupleSet.map Table.numColumns).getD 0

theorem numColumns_eq (tupleSet : TupleSet ν) : tupleSet.numColumns = tupleSet.fields.length := by
  cases tupleSet with
  | none => rfl
  | some table => rfl

theorem shaped (tupleSet : TupleSet ν) : ∀ row ∈ tupleSet.rows, row.length = tupleSet.numColumns := by
  cases tupleSet with
  | none => exact fun _ inside => absurd inside List.not_mem_nil
  | some table => exact table.shaped

end TupleSet
abbrev Record (ν : Type) := String → List (DataType × Option ν)

def recordOf (fields : List Field) (row : List (Slot ν)) : Record ν := fun name =>
  ((fields.zip row).filter fun column => column.1.name == name).map fun column => (column.1.type,column.2.value)

def Table.records (table : Table ν) : List (Record ν) := table.rows.map (recordOf table.fields)

/-- The same columns, if need be in another order; then they are told apart by their names,
which are looked up in canonical form. -/
def SameColumns (fields1 fields : List Field) : Prop :=
  fields = fields1 ∨ fields.Perm fields1 ∧ (fields1.map Field.name).Nodup ∧
    ∀ field ∈ fields1, canonicalize field.name = field.name

theorem SameColumns.refl (fields : List Field) : SameColumns fields fields := .inl rfl

theorem SameColumns.symm {fields1 fields : List Field} (same : SameColumns fields1 fields) :
    SameColumns fields fields1 := by
  obtain equal | ⟨order,unique,canonical⟩ := same
  · exact .inl equal.symm
  · exact .inr ⟨order.symm,((order.map Field.name).nodup_iff).mpr unique,fun field inside =>
      canonical field (order.mem_iff.mp inside)⟩

theorem SameColumns.trans {fields1 fields2 fields3 : List Field} (first : SameColumns fields1 fields2)
    (second : SameColumns fields2 fields3) : SameColumns fields1 fields3 := by
  obtain rfl | ⟨order,unique,canonical⟩ := first
  · exact second
  · obtain rfl | ⟨more,_,_⟩ := second
    · exact .inr ⟨order,unique,canonical⟩
    · exact .inr ⟨more.trans order,unique,canonical⟩

theorem map_places {α : Type} (has : α → Bool) (elements : List α) :
    ((List.range elements.length).filter fun c => elements[c]?.any has).map (elements[·]?) =
      (elements.filter has).map some := by
  induction elements with
  | nil => rfl
  | cons element elements ih =>
    rw [List.length_cons,List.range_succ_eq_map,List.filter_cons,List.filter_map,List.filter_cons]
    have later : ((List.range elements.length).filter fun c => elements[c]?.any has).map
        ((fun c => (element::elements)[c]?) ∘ Nat.succ) = (elements.filter has).map some := ih
    have head : ((element::elements)[0]?.any has) = has element := rfl
    rw [head]
    split
    next =>
      rw [List.map_cons,List.map_map,List.map_cons]
      exact congrArg _ later
    next =>
      rw [List.map_map]
      exact later

theorem recordOf_found {fields : List Field} {row : List (Slot ν)} (shaped : row.length = fields.length) {name : String}
    {c : Nat} (found : getFieldIndex fields name = some c) :
    ∃ field slot, fields[c]? = some field ∧ field.name = name ∧ row[c]? = some slot ∧
      recordOf fields row name = [(field.type,slot.value)] := by
  have bound := getFieldIndex_lt found
  have columns : ((List.range (fields.zip row).length).filter fun c =>
      (fields.zip row)[c]?.any fun column => column.1.name == name) = [c] := by
    rw [← getFieldIndex_eq_some.mp found,places,List.length_zip,shaped,Nat.min_self]
    apply List.filter_congr
    intro k inside
    have small : k < fields.length := List.mem_range.mp inside
    rw [List.getElem?_eq_getElem small,List.getElem?_eq_getElem (by simpa [shaped] using small),List.getElem_zip]
    rfl
  have picked := map_places (fun column => column.1.name == name) (fields.zip row)
  have bound' : c < row.length := shaped.symm ▸ bound
  rw [columns,List.map_singleton,List.getElem?_eq_getElem (by simpa [shaped] using bound),List.getElem_zip] at picked
  have named : fields[c].name = name := by
    have member : c ∈ places fields name := by
      rw [getFieldIndex_eq_some.mp found]
      exact List.mem_singleton_self c
    have holds := (List.mem_filter.mp member).2
    rw [List.getElem?_eq_getElem bound] at holds
    simpa using holds
  obtain ⟨column,only,same⟩ := List.map_eq_singleton_iff.mp picked.symm
  refine ⟨fields[c],row[c],List.getElem?_eq_getElem bound,named,List.getElem?_eq_getElem bound',?_⟩
  rw [recordOf,only,List.map_singleton,Option.some.inj same]

theorem getFieldIndex_of_unique {fields : List Field} (unique : (fields.map Field.name).Nodup) {c : Nat}
    (bound : c < fields.length) : getFieldIndex fields fields[c].name = some c := by
  rw [getFieldIndex_eq_some,places]
  have only : (List.range fields.length).filter (fun k => fields[k]?.any fun field => field.name == fields[c].name) =
      (List.range fields.length).filter (· == c) := by
    apply List.filter_congr
    intro k inside
    have small : k < fields.length := List.mem_range.mp inside
    have same := @List.Nodup.getElem_inj_iff _ _ unique k (by simpa using small) c (by simpa using bound)
    rw [List.getElem_map,List.getElem_map] at same
    rw [List.getElem?_eq_getElem small,Option.any_some,Bool.eq_iff_iff]
    simpa using same
  rw [only,List.filter_beq,List.count_eq_one_of_mem List.nodup_range (List.mem_range.mpr bound)]
  rfl

theorem filterMap_eq_of_found {α β : Type} {lookup : α → Option β} {elements : List α} {results : List β}
    (found : elements.map lookup = results.map some) : elements.filterMap lookup = results := by
  have whole : elements.filterMap lookup = (elements.map lookup).filterMap id := by
    rw [List.filterMap_map]
    rfl
  rw [whole,found,List.filterMap_map]
  exact List.filterMap_some

theorem zip_filterMap {α β : Type} (lookup : α → Option β) (elements : List α)
    (found : ∀ element ∈ elements, (lookup element).isSome) :
    elements.zip (elements.filterMap lookup) =
    elements.filterMap fun element => (lookup element).map (Prod.mk element) := by
  induction elements with
  | nil => rfl
  | cons element elements ih =>
    obtain ⟨value,here⟩ := Option.isSome_iff_exists.mp (found element List.mem_cons_self)
    rw [List.filterMap_cons_some here,List.filterMap_cons_some (by rw [here]; rfl),List.zip_cons_cons,
      ih fun later member => found later (List.mem_cons_of_mem _ member)]

theorem zip_reordered {fields fields1 : List Field} (order : fields.Perm fields1)
    (unique : (fields.map Field.name).Nodup) {row : List (Slot ν)} (shaped : row.length = fields.length) :
    (fields1.zip (fields1.filterMap fun field => (getFieldIndex fields field.name).bind (row[·]?))).Perm (fields.zip row) := by
  have found : ∀ (c : Nat) (bound : c < fields.length),
      (getFieldIndex fields fields[c].name).bind (row[·]?) = row[c]? := by
    intro c bound
    rw [getFieldIndex_of_unique unique bound]
    rfl
  have own : (fields.filterMap fun field => ((getFieldIndex fields field.name).bind (row[·]?)).map (Prod.mk field)) =
      fields.zip row := by
    apply filterMap_eq_of_found
    apply List.ext_getElem
    · rw [List.length_map,List.length_map,List.length_zip,shaped,Nat.min_self]
    · intro c bound _
      have small : c < fields.length := by simpa using bound
      have inside : c < row.length := shaped.symm ▸ small
      rw [List.getElem_map,List.getElem_map,List.getElem_zip,found c small,List.getElem?_eq_getElem inside]
      rfl
  rw [zip_filterMap]
  · rw [← own]
    exact (order.filterMap _).symm
  · intro field inside
    obtain ⟨c,bound,rfl⟩ := List.mem_iff_getElem.mp (order.mem_iff.mpr inside)
    rw [found c bound]
    simpa [shaped] using bound

/-- The columns of a table in the order of another schema, as `concatenate` collects
them: a name is asked for as it is, then looked up in canonical form. -/
def reorderedColumns (fields : List Field) : List Field → Except Failure (List (String × Nat))
  | [] => .ok []
  | field1::fields1 =>
    if fields.any fun field => field.name == field1.name then
      match getFieldIndex fields (canonicalize field1.name) with
      | none => .error .exception
      | some c =>
        match reorderedColumns fields fields1 with
        | .error failure => .error failure
        | .ok columns => .ok ((canonicalize field1.name,c)::columns)
    else .error (.error "Cannot concatenate tuple sets with different schemas")

theorem reorderedColumns_lt {fields fields1 : List Field} {columns : List (String × Nat)}
    (reordered : reorderedColumns fields fields1 = .ok columns) : ∀ column ∈ columns, column.2 < fields.length := by
  induction fields1 generalizing columns with
  | nil =>
    rw [← Except.ok.inj reordered]
    exact fun _ inside => absurd inside List.not_mem_nil
  | cons field1 fields1 ih =>
    unfold reorderedColumns at reordered
    split at reordered
    next =>
      split at reordered
      next => cases reordered
      next c found =>
        split at reordered
        next => cases reordered
        next more later =>
          rw [← Except.ok.inj reordered]
          exact List.forall_mem_cons.mpr ⟨getFieldIndex_lt found,ih later⟩
    next => cases reordered

namespace Table

def reorder (table : Table ν) (fields1 : List Field) : Except Failure (Table ν) :=
  if table.fields = fields1 then .ok table
  else
    match reordered : reorderedColumns table.fields fields1 with
    | .error failure => .error failure
    | .ok columns => .ok (table.make columns (reorderedColumns_lt reordered))

/-- `arrow::ConcatenateTables` with the options it has by itself. -/
def concatenateTables (first : Table ν) (tables : List (Table ν)) : Except Failure (Table ν) :=
  if same : ∀ table ∈ tables, table.fields = first.fields then
    .ok ⟨first.fields,first.rows ++ tables.flatMap rows,by
      intro row inside
      obtain here | later := List.mem_append.mp inside
      · exact first.shaped row here
      · obtain ⟨table,member,there⟩ := List.mem_flatMap.mp later
        rw [table.shaped row there,same table member]⟩
  else .error (.error "Invalid: Schema was different")

end Table

/-- The tables behind some tuple sets, in the order of columns of the first. -/
def reorderAll (fields1 : List Field) : List (TupleSet ν) → Except Failure (List (Table ν))
  | [] => .ok []
  | none::_ => .error (.error "Cannot concatenate empty tuple sets")
  | some table::tupleSets =>
    match table.reorder fields1 with
    | .error failure => .error failure
    | .ok reordered =>
      match reorderAll fields1 tupleSets with
      | .error failure => .error failure
      | .ok tables => .ok (reordered::tables)

/-- `TupleSet::concatenate`. -/
def concatenate : List (TupleSet ν) → Except Failure (Table ν)
  | [] => .error (.error "Invalid: Must pass at least one table")
  | none::_ => .error (.error "Cannot concatenate empty tuple sets")
  | some first::tupleSets =>
    match reorderAll first.fields tupleSets with
    | .error failure => .error failure
    | .ok tables => first.concatenateTables tables

section
variable {fields fields1 : List Field}

theorem reorderedColumns_found (unique : (fields.map Field.name).Nodup) (inside : ∀ field ∈ fields1, field ∈ fields)
    (canonical : ∀ field ∈ fields1, canonicalize field.name = field.name) :
    ∃ columns, reorderedColumns fields fields1 = .ok columns ∧ (columns = [] ↔ fields1 = []) ∧
      (columns.filterMap fun column => fields[column.2]?.map fun field => ⟨column.1,field.type⟩) = fields1 ∧
      ∀ row : List (Slot ν), (columns.filterMap fun column => row[column.2]?) =
        fields1.filterMap fun field => (getFieldIndex fields field.name).bind (row[·]?) := by
  induction fields1 with
  | nil => exact ⟨[],rfl,by simp,rfl,fun _ => rfl⟩
  | cons field1 fields1 ih =>
    obtain ⟨columns,reordered,_,picked,reads⟩ := ih (fun field later => inside field (List.mem_cons_of_mem _ later))
      fun field later => canonical field (List.mem_cons_of_mem _ later)
    have name := canonical field1 List.mem_cons_self
    obtain ⟨c,bound,here⟩ := List.mem_iff_getElem.mp (inside field1 List.mem_cons_self)
    have found := getFieldIndex_of_unique unique bound
    rw [here] at found
    refine ⟨(field1.name,c)::columns,?_,by simp,?_,?_⟩
    · rw [reorderedColumns,if_pos,name,found,reordered]
      exact List.any_eq_true.mpr ⟨field1,inside field1 List.mem_cons_self,beq_self_eq_true _⟩
    · have this : fields[c]?.map (fun field => (⟨field1.name,field.type⟩ : Field)) = some field1 := by
        rw [List.getElem?_eq_getElem bound,here]
        rfl
      simp only [List.filterMap_cons,this,picked]
    · intro row
      simp only [List.filterMap_cons,found,Option.bind_some,reads]

theorem filter_name_unique (unique : (fields.map Field.name).Nodup) {row : List (Slot ν)}
    (shaped : row.length = fields.length)
    (name : String) : (fields.zip row).filter (fun column => column.1.name == name) = [] ∨
      ∃ column, (fields.zip row).filter (fun column => column.1.name == name) = [column] := by
  have names : (((fields.zip row).filter fun column => column.1.name == name).map fun column => column.1.name).Nodup := by
    refine List.Nodup.sublist ((List.filter_sublist).map _) ?_
    have whole : (fields.zip row).map (fun column => column.1.name) = fields.map Field.name := by
      have firsts : (fields.zip row).map Prod.fst = fields := List.map_fst_zip (Nat.le_of_eq shaped.symm)
      exact List.map_map.symm.trans (congrArg (List.map Field.name) firsts)
    rw [whole]
    exact unique
  have same : ∀ column ∈ (fields.zip row).filter (fun column => column.1.name == name), column.1.name = name := by
    intro column inside
    simpa using (List.mem_filter.mp inside).2
  revert names same
  generalize (fields.zip row).filter (fun column => column.1.name == name) = found
  intro names same
  cases found with
  | nil => exact .inl rfl
  | cons column others =>
    cases others with
    | nil => exact .inr ⟨column,rfl⟩
    | cons other rest =>
      rw [List.map_cons,List.map_cons,same column List.mem_cons_self,
        same other (List.mem_cons_of_mem _ List.mem_cons_self)] at names
      exact absurd List.mem_cons_self (List.nodup_cons.mp names).1

theorem recordOf_reordered (order : fields.Perm fields1) (unique : (fields.map Field.name).Nodup) {row : List (Slot ν)}
    (shaped : row.length = fields.length) :
    recordOf fields1 (fields1.filterMap fun field => (getFieldIndex fields field.name).bind (row[·]?)) =
      recordOf fields row := by
  funext name
  have picked := (zip_reordered order unique shaped).filter fun column => column.1.name == name
  unfold recordOf
  obtain none | ⟨column,one⟩ := filter_name_unique unique shaped name
  · rw [none] at picked ⊢
    rw [picked.eq_nil]
  · rw [one] at picked ⊢
    rw [List.perm_singleton.mp picked]

theorem reorder_same {table : Table ν} (same : SameColumns fields1 table.fields) :
    ∃ reordered, table.reorder fields1 = .ok reordered ∧ reordered.fields = fields1 ∧
    reordered.records = table.records := by
  unfold Table.reorder
  split
  next equal => exact ⟨table,rfl,equal,rfl⟩
  next differ =>
    obtain ⟨order,unique,canonical⟩ := same.resolve_left differ
    have unique' := ((order.map Field.name).nodup_iff).mpr unique
    obtain ⟨columns,found,blank,picked,reads⟩ := reorderedColumns_found (ν := ν) unique'
      (fun field inside => order.mem_iff.mpr inside) canonical
    split
    next failure failed =>
      rw [found] at failed
      cases failed
    next chosen reordered =>
      rw [found] at reordered
      obtain rfl := Except.ok.inj reordered
      refine ⟨_,rfl,picked,?_⟩
      have some : columns ≠ [] := by
        intro none
        rw [blank.mp none] at order differ
        exact differ order.eq_nil
      rw [Table.records,Table.records,Table.make]
      dsimp only
      rw [picked,if_neg (by simpa using some),List.map_map]
      apply List.map_congr_left
      intro row inside
      rw [Function.comp_apply,reads,recordOf_reordered order unique' (table.shaped row inside)]

theorem concatenate_same {first second : Table ν} (same : SameColumns first.fields second.fields) :
    ∃ joined, concatenate [some first,some second] = .ok joined ∧ joined.fields = first.fields ∧
      joined.records = first.records ++ second.records := by
  obtain ⟨reordered,done,fields,records⟩ := reorder_same same
  have all : ∀ table ∈ [reordered], table.fields = first.fields := by
    intro table inside
    rw [List.mem_singleton.mp inside]
    exact fields
  simp only [concatenate,reorderAll,done]
  rw [Table.concatenateTables,dif_pos all]
  refine ⟨_,rfl,rfl,?_⟩
  rw [← records,Table.records,Table.records,Table.records,fields]
  simp

end

/-- A table of one column. -/
def column (name : String) (values : List Int) : Table Int where
  fields := [⟨name,.int64⟩]
  rows := values.map fun value => [⟨true,value⟩]
  shaped := by simp

end Hermes.Tuples
