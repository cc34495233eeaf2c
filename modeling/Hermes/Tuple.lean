import Mathlib.Data.List.Lex
import Mathlib.Data.List.Pairwise

/-! Keyed rows and chunked tables, as the delta merge reads them.
Columns that no modelled function inspects are kept as one payload; the
projection on the requested columns is a function on rows. Tables with all their columns
are in `Hermes.Tuples`. -/
namespace Hermes.Tuple

instance instLinearOrderInt32 : LinearOrder Int32 where
  le_refl _ := Int32.le_refl _
  le_trans _ _ _ := Int32.le_trans
  lt_iff_le_not_ge a b := by
    rw [Int32.not_le]
    exact ⟨fun less => ⟨Int32.le_of_lt less,less⟩,fun both => both.2⟩
  le_antisymm _ _ := Int32.le_antisymm
  le_total := Int32.le_total
  toDecidableLE := inferInstance
  toDecidableEq := inferInstance
  toDecidableLT := inferInstance

/-- The values of a table's `n` primary-key columns, in column order. Rows of one
table always carry the same number of them, so comparing two never throws. -/
abbrev PrimaryKey (n : Nat) := {columns : List Int32 // columns.length = n}

def singleKey (column : Int32) : PrimaryKey 1 := ⟨[column],rfl⟩

def pairKey (first second : Int32) : PrimaryKey 2 := ⟨[first,second],rfl⟩

structure Row (n : Nat) (α : Type) where
  key : PrimaryKey n
  payload : α
deriving DecidableEq

/-- The `type` column the log parser writes next to a row. -/
inductive EventType where
  | insert
  | update
  | delete
deriving DecidableEq, Repr

structure DeltaRow (n : Nat) (α : Type) extends Row n α where
  type : EventType
deriving DecidableEq

/-- A table as a sequence of chunks. Only `TableBatchReader` and the readers of a
first chunk see the chunk boundaries; everything else reads rows. -/
structure TupleSet (ρ : Type) where
  chunks : List (List ρ)
deriving DecidableEq

namespace TupleSet
variable {ρ σ : Type}

def rows (table : TupleSet ρ) : List ρ := table.chunks.flatten

def numRows (table : TupleSet ρ) : Nat := table.rows.length

def ofRows (rows : List ρ) : TupleSet ρ := ⟨[rows]⟩

def concatenate (tables : List (TupleSet ρ)) : TupleSet ρ := ⟨tables.flatMap chunks⟩

def append (table other : TupleSet ρ) : TupleSet ρ := concatenate [table,other]

/-- `CombineChunks` leaves one chunk, or none where there was none. -/
def combine (table : TupleSet ρ) : TupleSet ρ :=
  if table.chunks.isEmpty then table else ofRows table.rows

/-- `projectExist`, with the column choice as a function on rows. -/
def projectExist (project : ρ → σ) (table : TupleSet ρ) : TupleSet σ :=
  ⟨table.chunks.map (List.map project)⟩

@[simp] theorem rows_ofRows (rows : List ρ) : (ofRows rows).rows = rows := by
  simp [ofRows,TupleSet.rows]

@[simp] theorem rows_concatenate (tables : List (TupleSet ρ)) :
    (concatenate tables).rows = tables.flatMap rows := by
  induction tables with
  | nil => rfl
  | cons table tables ih =>
    have tail : (tables.flatMap chunks).flatten = tables.flatMap rows := ih
    simp [concatenate,TupleSet.rows,List.flatMap_cons,tail]

@[simp] theorem rows_append (table other : TupleSet ρ) :
    (table.append other).rows = table.rows ++ other.rows := by
  simp [append]

@[simp] theorem rows_combine (table : TupleSet ρ) : table.combine.rows = table.rows := by
  unfold combine
  split
  next empty => rfl
  next chunked => exact rows_ofRows table.rows

@[simp] theorem rows_projectExist (project : ρ → σ) (table : TupleSet ρ) :
    (table.projectExist project).rows = table.rows.map project := by
  simp [projectExist,TupleSet.rows,List.map_flatten]

@[simp] theorem numRows_projectExist (project : ρ → σ) (table : TupleSet ρ) :
    (table.projectExist project).numRows = table.numRows := by
  simp [numRows]

end TupleSet

/-- `inline size_t DefaultChunkSize` of the tuple library. -/
def DefaultChunkSize : Nat := 100000

theorem defaultChunkSize_pos : 0 < DefaultChunkSize := by decide

/-- Arrow's batch reader: it cuts a table into consecutive record batches and
loses no row. Where it cuts is its own choice. -/
structure TableBatchReader where
  batches : {ρ : Type} → TupleSet ρ → List (List ρ)
  flatten_batches : ∀ {ρ : Type} (table : TupleSet ρ), (batches table).flatten = table.rows

def TableBatchReader.chunked : TableBatchReader := ⟨TupleSet.chunks,fun _ => rfl⟩

end Hermes.Tuple
