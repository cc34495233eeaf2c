import Hermes.Tuple
import Mathlib.Data.List.Perm.Basic
import Mathlib.Data.List.FinRange

/-! `TupleSetIndex`: a table with a hash multimap from the values of some of its
columns to its row numbers. The order in which the multimap keeps its entries is
its own choice; that it holds each row once, under its key, is part of the type. -/
namespace Hermes.Tuple

/-- Why a call gives no result: the error it returns, or undefined behaviour. -/
inductive Failure where
  | error (message : String)
  | undefined
deriving DecidableEq, Repr

abbrev Schema := List String

/-- One cell for each field; `none` is a null. -/
abbrev Record (ν : Type) (schema : Schema) := Fin schema.length → Option ν

/-- Arrow finds a field by its name only if no other field has the same. -/
def getFieldIndex (schema : Schema) (name : String) : Option (Fin schema.length) :=
  match (List.finRange schema.length).filter fun c => schema.get c == name with
  | [c] => some c
  | _ => none

/-- The positions of the columns, or the first name that has none. -/
def fieldIndexes (schema : Schema) (columnNames : List String) : Except String (List (Fin schema.length)) :=
  columnNames.mapM fun columnName =>
    match getFieldIndex schema columnName with
    | some c => .ok c
    | none => .error columnName

abbrev TupleKey (ν : Type) := List ν

/-- `TupleKeyBuilder::make` reads raw values: under a null it gets what the buffer
happens to hold there. -/
def makeKey {ν : Type} {schema : Schema} (blank : ν) (columnIndexes : List (Fin schema.length))
    (row : Record ν schema) : TupleKey ν :=
  columnIndexes.map fun c => (row c).getD blank

/-- `unordered_multimap`, as the list of its entries in iteration order. -/
structure UnorderedMultimap where
  emplace : {κ : Type} → List (κ × Nat) → κ × Nat → List (κ × Nat)
  emplace_perm : ∀ {κ : Type} (entries : List (κ × Nat)) (entry : κ × Nat),
    (emplace entries entry).Perm (entries ++ [entry])

namespace UnorderedMultimap

def inserted : UnorderedMultimap := ⟨fun entries entry => entries ++ [entry],fun _ _ => .refl _⟩

def insert (multimap : UnorderedMultimap) {κ : Type} (entries more : List (κ × Nat)) : List (κ × Nat) :=
  more.foldl multimap.emplace entries

theorem insert_perm (multimap : UnorderedMultimap) {κ : Type} (entries more : List (κ × Nat)) :
    (multimap.insert entries more).Perm (entries ++ more) := by
  induction more generalizing entries with
  | nil => simp [insert]
  | cons entry more ih =>
    have rest := ih (multimap.emplace entries entry)
    have first := (multimap.emplace_perm entries entry).append_right more
    rw [List.append_assoc] at first
    exact rest.trans first

end UnorderedMultimap

section
variable {ν : Type} {schema : Schema}

/-- One turn of the loop of `build`. -/
def emplaceRow (multimap : UnorderedMultimap) (blank : ν) (columnIndexes : List (Fin schema.length))
    (state : List (TupleKey ν × Nat) × Nat) (row : Record ν schema) : List (TupleKey ν × Nat) × Nat :=
  (multimap.emplace state.1 (makeKey blank columnIndexes row,state.2),state.2+1)

def build (multimap : UnorderedMultimap) (reader : TableBatchReader) (blank : ν)
    (columnIndexes : List (Fin schema.length)) (rowIndexOffset : Nat)
    (table : TupleSet (Record ν schema)) : List (TupleKey ν × Nat) :=
  ((reader.batches table).foldl
    (fun state recordBatch => recordBatch.foldl (emplaceRow multimap blank columnIndexes) state)
    ([],rowIndexOffset)).1

theorem emplaceRow_foldl_perm (multimap : UnorderedMultimap) (blank : ν)
    (columnIndexes : List (Fin schema.length)) (rows : List (Record ν schema))
    (state : List (TupleKey ν × Nat) × Nat) :
    (rows.foldl (emplaceRow multimap blank columnIndexes) state).1.Perm
      (state.1 ++ (rows.map (makeKey blank columnIndexes)).zipIdx state.2) := by
  induction rows generalizing state with
  | nil => simp
  | cons row rows ih =>
    have rest := ih (emplaceRow multimap blank columnIndexes state row)
    have first := (multimap.emplace_perm state.1 (makeKey blank columnIndexes row,state.2)).append_right
      ((rows.map (makeKey blank columnIndexes)).zipIdx (state.2+1))
    rw [List.append_assoc] at first
    exact rest.trans first

theorem build_perm (multimap : UnorderedMultimap) (reader : TableBatchReader) (blank : ν)
    (columnIndexes : List (Fin schema.length)) (rowIndexOffset : Nat) (table : TupleSet (Record ν schema)) :
    (build multimap reader blank columnIndexes rowIndexOffset table).Perm
      ((table.rows.map (makeKey blank columnIndexes)).zipIdx rowIndexOffset) := by
  rw [build,← List.foldl_flatten,reader.flatten_batches]
  exact emplaceRow_foldl_perm multimap blank columnIndexes table.rows ([],rowIndexOffset)

end

structure TupleSetIndex (ν : Type) (schema : Schema) (blank : ν) (columnNames : List String) where
  columnIndexes : List (Fin schema.length)
  tupleSet : TupleSet (Record ν schema)
  valueRowMap : List (TupleKey ν × Nat)
  resolved : fieldIndexes schema columnNames = .ok columnIndexes
  indexed : valueRowMap.Perm ((tupleSet.rows.map (makeKey blank columnIndexes)).zipIdx)

namespace TupleSetIndex
variable {ν : Type} {schema : Schema} {blank : ν} {columnNames : List String}

def make (multimap : UnorderedMultimap) (reader : TableBatchReader) (blank : ν) (columnNames : List String)
    (tupleSet : TupleSet (Record ν schema)) : Except Failure (TupleSetIndex ν schema blank columnNames) :=
  match resolved : fieldIndexes schema columnNames with
  | .error columnName => .error (.error ("Cannot make TupleSetIndex. Column '" ++ columnName ++ "' does not exist"))
  | .ok columnIndexes =>
    .ok ⟨columnIndexes,tupleSet,build multimap reader blank columnIndexes 0 tupleSet,resolved,
      build_perm multimap reader blank columnIndexes 0 tupleSet⟩

def size (index : TupleSetIndex ν schema blank columnNames) : Nat := index.tupleSet.numRows

def rows (index : TupleSetIndex ν schema blank columnNames) : List (Record ν schema) := index.tupleSet.rows

def key (index : TupleSetIndex ν schema blank columnNames) (row : Record ν schema) : TupleKey ν :=
  makeKey blank index.columnIndexes row

theorem columnIndexes_eq (index other : TupleSetIndex ν schema blank columnNames) :
    other.columnIndexes = index.columnIndexes :=
  Except.ok.inj (other.resolved.symm.trans index.resolved)

theorem indexed_append (index : TupleSetIndex ν schema blank columnNames) {rows : List (Record ν schema)}
    {entries : List (TupleKey ν × Nat)}
    (added : entries.Perm ((rows.map (makeKey blank index.columnIndexes)).zipIdx index.size)) :
    (index.valueRowMap ++ entries).Perm
      (((index.tupleSet.rows ++ rows).map (makeKey blank index.columnIndexes)).zipIdx) := by
  rw [List.map_append,List.zipIdx_append,Nat.zero_add,List.length_map]
  exact index.indexed.append added

/-- The messages of one side have one schema, so nothing has to be realigned. -/
def put (multimap : UnorderedMultimap) (reader : TableBatchReader)
    (index : TupleSetIndex ν schema blank columnNames) (table : TupleSet (Record ν schema)) :
    Except Failure (TupleSetIndex ν schema blank columnNames) :=
  match fieldIndexes schema columnNames with
  | .error columnName =>
    .error (.error ("Cannot add table to TupleSetIndex. Column '" ++ columnName ++ "' does not exist"))
  | .ok columnIndexes =>
    if index.columnIndexes ≠ columnIndexes then
      .error (.error
        "Cannot add table to TupleSetIndex. Incoming column positions are different than exising ones")
    else
      .ok ⟨index.columnIndexes,index.tupleSet.append table,
        multimap.insert index.valueRowMap
          (build multimap reader blank index.columnIndexes index.tupleSet.numRows table),
        index.resolved,by
          rw [TupleSet.rows_append]
          exact (multimap.insert_perm _ _).trans
            (index.indexed_append (build_perm multimap reader blank _ _ table))⟩

/-- The rows of the other index get their numbers behind the rows already there. -/
def merge (multimap : UnorderedMultimap) (index other : TupleSetIndex ν schema blank columnNames) :
    TupleSetIndex ν schema blank columnNames where
  columnIndexes := index.columnIndexes
  tupleSet := index.tupleSet.append other.tupleSet
  valueRowMap := multimap.insert index.valueRowMap
    (other.valueRowMap.map fun entry => (entry.1,entry.2+index.size))
  resolved := index.resolved
  indexed := by
    rw [TupleSet.rows_append]
    apply (multimap.insert_perm _ _).trans (index.indexed_append _)
    have shifted := other.indexed.map fun entry => (entry.1,entry.2+index.size)
    rw [columnIndexes_eq index other] at shifted
    have renumbered (keys : List (TupleKey ν)) :
        keys.zipIdx.map (fun entry => (entry.1,entry.2+index.size)) = keys.zipIdx index.size := by
      rw [List.zipIdx_eq_map_add (i := index.size)]
      apply List.map_congr_left
      intro entry _
      rw [Nat.add_comm]
    rw [← renumbered]
    exact shifted

@[simp] theorem rows_merge (multimap : UnorderedMultimap)
    (index other : TupleSetIndex ν schema blank columnNames) :
    (index.merge multimap other).rows = index.rows ++ other.rows :=
  TupleSet.rows_append index.tupleSet other.tupleSet

section
variable [DecidableEq ν]

def find (index : TupleSetIndex ν schema blank columnNames) (tupleKey : TupleKey ν) : List Nat :=
  (index.valueRowMap.filter fun entry => entry.1 = tupleKey).map Prod.snd

theorem mem_find (index : TupleSetIndex ν schema blank columnNames) (tupleKey : TupleKey ν) (rowIndex : Nat) :
    rowIndex ∈ index.find tupleKey ↔
      ∃ row, index.rows[rowIndex]? = some row ∧ index.key row = tupleKey := by
  have entry : (tupleKey,rowIndex) ∈ index.valueRowMap ↔
      ∃ row, index.rows[rowIndex]? = some row ∧ index.key row = tupleKey := by
    rw [index.indexed.mem_iff,List.mem_zipIdx_iff_getElem?,List.getElem?_map,Option.map_eq_some_iff]
    rfl
  rw [← entry,find]
  simp

theorem find_eq_nil (index : TupleSetIndex ν schema blank columnNames) (tupleKey : TupleKey ν) :
    index.find tupleKey = [] ↔ ∀ row ∈ index.rows, index.key row ≠ tupleKey := by
  rw [List.eq_nil_iff_forall_not_mem]
  constructor
  · intro absent row member same
    obtain ⟨rowIndex,found⟩ := List.mem_iff_getElem?.mp member
    exact absent rowIndex ((index.mem_find tupleKey rowIndex).mpr ⟨row,found,same⟩)
  · intro differs rowIndex member
    obtain ⟨row,found,same⟩ := (index.mem_find tupleKey rowIndex).mp member
    exact differs row (List.mem_of_getElem? found) same

theorem find_rows (index : TupleSetIndex ν schema blank columnNames) (tupleKey : TupleKey ν) :
    ((index.find tupleKey).filterMap (index.rows[·]?)).Perm
      (index.rows.filter fun row => index.key row = tupleKey) := by
  have keys : (index.rows.map (makeKey blank index.columnIndexes)).zipIdx =
      index.rows.zipIdx.map (Prod.map index.key id) := List.zipIdx_map
  have numbers : (index.find tupleKey).Perm
      ((index.rows.zipIdx.filter fun entry => index.key entry.1 = tupleKey).map Prod.snd) := by
    have entries := (index.indexed.filter fun entry => decide (entry.1 = tupleKey)).map Prod.snd
    rw [show index.tupleSet.rows = index.rows from rfl,keys,List.filter_map,List.map_map] at entries
    exact entries
  have looked : ((index.rows.zipIdx.filter fun entry => index.key entry.1 = tupleKey).map
      Prod.snd).filterMap (index.rows[·]?) =
      (index.rows.zipIdx.filter fun entry => index.key entry.1 = tupleKey).map Prod.fst := by
    rw [List.filterMap_map,← List.filterMap_eq_map]
    apply List.filterMap_congr
    intro entry member
    exact List.mem_zipIdx_iff_getElem?.mp (List.mem_of_mem_filter member)
  have whole : (index.rows.zipIdx.filter fun entry => index.key entry.1 = tupleKey).map Prod.fst =
      index.rows.filter fun row => index.key row = tupleKey := by
    have all : index.rows.zipIdx.map Prod.fst = index.rows := List.zipIdx_map_fst 0 index.rows
    conv_rhs => rw [← all,List.filter_map]
    rfl
  rw [← whole,← looked]
  exact numbers.filterMap _

end
end TupleSetIndex
end Hermes.Tuple
