import Hermes.Table

/-! `Column` and its iterator, which stands at an offset within a chunk: where it starts, how it
advances over empty chunks, and what a loop from the beginning to the end reads. -/
namespace Hermes.Tuples
variable {ν : Type}

structure Column (ν : Type) where
  type : DataType
  chunks : List (List (Slot ν))

structure ColumnIndex where
  chunk : Nat
  chunkIndex : Nat
deriving DecidableEq

namespace Column

def elements (column : Column ν) : List (Slot ν) := column.chunks.flatten

def begin (_ : Column ν) : ColumnIndex := ⟨0,0⟩

def end_ (column : Column ν) : ColumnIndex :=
  if column.elements.length = 0 then ⟨0,0⟩ else ⟨column.chunks.length,0⟩

end Column

namespace ColumnIterator
variable (column : Column ν)

def chunkLength (chunk : Nat) : Int := ((column.chunks[chunk]?.map List.length).getD 0 : Nat)

def advance (index : ColumnIndex) : ColumnIndex :=
  if index.chunk < column.chunks.length then
    if (index.chunkIndex : Int) < chunkLength column index.chunk - 1 then ⟨index.chunk,index.chunkIndex + 1⟩
    else if index.chunk + 1 < column.chunks.length ∧ chunkLength column (index.chunk + 1) = 0 then advance ⟨index.chunk + 1,0⟩
    else ⟨index.chunk + 1,0⟩
  else index
  termination_by column.chunks.length - index.chunk

def getArrowScalar (slot : Slot ν) : Except String (Option ν) :=
  if column.type = .int64 ∨ column.type = .string then .ok (some slot.raw)
  else .error ("Iterator on column type '" ++ typeText column.type ++ "' not implemented yet")

/-- `operator*`. -/
def dereference (index : ColumnIndex) : Except String (Option ν) :=
  match column.chunks[index.chunk]?.bind fun chunk => chunk[index.chunkIndex]? with
  | some slot => getArrowScalar column slot
  | none => .error "Cannot dereference iterator. Iterator refers to past-the-end element"

/-- What a loop reads that advances from an index until it is at the end, if it gets there within some steps. -/
def readUntilEnd : Nat → ColumnIndex → Option (List (Except String (Option ν)))
  | 0,index => if index = column.end_ then some [] else none
  | steps+1,index =>
    if index = column.end_ then some []
    else (readUntilEnd steps (advance column index)).map (dereference column index::·)

def VisitsOnce : Prop :=
  ∃ steps, readUntilEnd column steps column.begin = some (column.elements.map fun slot => .ok slot.value)

section Positions

def remaining (index : ColumnIndex) : List (Slot ν) :=
  ((column.chunks[index.chunk]?).getD []).drop index.chunkIndex ++ (column.chunks.drop (index.chunk + 1)).flatten

def Settled (index : ColumnIndex) : Prop :=
  (∃ chunk, column.chunks[index.chunk]? = some chunk ∧ index.chunkIndex < chunk.length) ∨
    index = ⟨column.chunks.length,0⟩

variable {column} {index : ColumnIndex}

theorem chunkLength_of_getElem? {k : Nat} {chunk : List (Slot ν)} (here : column.chunks[k]? = some chunk) :
    chunkLength column k = chunk.length := by
  rw [chunkLength,here]
  rfl

theorem flatten_drop {k : Nat} {chunk : List (Slot ν)} (here : column.chunks[k]? = some chunk) :
    (column.chunks.drop k).flatten = chunk ++ (column.chunks.drop (k + 1)).flatten := by
  obtain ⟨bound,rfl⟩ := List.getElem?_eq_some_iff.mp here
  rw [List.drop_eq_getElem_cons bound,List.flatten_cons]

theorem advance_within {chunk : List (Slot ν)} (here : column.chunks[index.chunk]? = some chunk)
    (more : index.chunkIndex + 1 < chunk.length) : advance column index = ⟨index.chunk,index.chunkIndex + 1⟩ := by
  have bound := (List.getElem?_eq_some_iff.mp here).1
  have length := chunkLength_of_getElem? here
  rw [advance,if_pos bound,if_pos]
  omega

theorem advance_over {chunk : List (Slot ν)} (here : column.chunks[index.chunk]? = some chunk)
    (last : chunk.length ≤ index.chunkIndex + 1) : Settled column (advance column index) ∧
      remaining column (advance column index) = (column.chunks.drop (index.chunk + 1)).flatten := by
  have bound := (List.getElem?_eq_some_iff.mp here).1
  have length := chunkLength_of_getElem? here
  -- on the number of chunks that are left, as the code recurses
  induction left : column.chunks.length - index.chunk generalizing index chunk with
  | zero => omega
  | succ later ih =>
    rw [advance,if_pos bound,if_neg (by omega)]
    by_cases inside : index.chunk + 1 < column.chunks.length
    · have next := List.getElem?_eq_getElem inside
      have nextLength := chunkLength_of_getElem? next
      by_cases empty : column.chunks[index.chunk + 1].length = 0
      · rw [if_pos ⟨inside,by omega⟩]
        obtain ⟨settled,rest⟩ := @ih ⟨index.chunk + 1,0⟩ _ next
          (Nat.le_succ_of_le (Nat.le_of_eq empty)) inside nextLength
          (show column.chunks.length - (index.chunk + 1) = later by omega)
        refine ⟨settled,?_⟩
        rw [rest,flatten_drop next,List.eq_nil_of_length_eq_zero empty]
        rfl
      · rw [if_neg (by omega)]
        refine ⟨.inl ⟨_,next,Nat.pos_of_ne_zero empty⟩,?_⟩
        rw [remaining,next,flatten_drop next]
        rfl
    · rw [if_neg (by tauto)]
      have behind : index.chunk + 1 = column.chunks.length := by omega
      refine ⟨.inr (by rw [behind]),?_⟩
      rw [remaining,behind,List.getElem?_eq_none (Nat.le_refl _),List.drop_eq_nil_of_le (Nat.le_refl _),
        List.drop_eq_nil_of_le (Nat.le_succ _)]
      rfl

theorem advance_settled {chunk : List (Slot ν)} (here : column.chunks[index.chunk]? = some chunk)
    (inside : index.chunkIndex < chunk.length) : Settled column (advance column index) ∧
      remaining column index = chunk[index.chunkIndex]::remaining column (advance column index) ∧
      dereference column index = getArrowScalar column chunk[index.chunkIndex] := by
  have front : remaining column index =
      chunk[index.chunkIndex]::(chunk.drop (index.chunkIndex + 1) ++
        (column.chunks.drop (index.chunk + 1)).flatten) := by
    rw [remaining,here,Option.getD_some,List.drop_eq_getElem_cons inside]
    rfl
  have read : dereference column index = getArrowScalar column chunk[index.chunkIndex] := by
    rw [dereference,here,Option.bind_some,List.getElem?_eq_getElem inside]
  by_cases more : index.chunkIndex + 1 < chunk.length
  · rw [advance_within here more]
    refine ⟨.inl ⟨chunk,here,more⟩,?_,read⟩
    rw [front,remaining,here]
    rfl
  · obtain ⟨settled,rest⟩ := advance_over here (by omega)
    refine ⟨settled,?_,read⟩
    rw [rest,front,List.drop_eq_nil_of_le (by omega)]
    rfl

theorem remaining_behind : remaining column ⟨column.chunks.length,0⟩ = [] := by
  rw [remaining,List.getElem?_eq_none (Nat.le_refl _),List.drop_eq_nil_of_le (Nat.le_succ _)]
  rfl

theorem end_of_filled (filled : column.elements ≠ []) : column.end_ = ⟨column.chunks.length,0⟩ := by
  rw [Column.end_,if_neg]
  exact fun none => filled (List.eq_nil_of_length_eq_zero none)

theorem readUntilEnd_remaining (filled : column.elements ≠ []) {elements : List (Slot ν)}
    (settled : Settled column index) (left : remaining column index = elements) :
    readUntilEnd column elements.length index = some (elements.map (getArrowScalar column)) := by
  induction elements generalizing index with
  | nil =>
    obtain ⟨chunk,here,inside⟩ | rfl := settled
    · rw [(advance_settled here inside).2.1] at left
      cases left
    · rw [List.length_nil,readUntilEnd,end_of_filled filled,if_pos rfl]
      rfl
  | cons element elements ih =>
    obtain ⟨chunk,here,inside⟩ | rfl := settled
    · obtain ⟨settled,front,read⟩ := advance_settled here inside
      rw [left] at front
      obtain ⟨rfl,rest⟩ := List.cons.inj front
      have before : index ≠ column.end_ := by
        rw [end_of_filled filled]
        rintro rfl
        rw [List.getElem?_eq_none (Nat.le_refl _)] at here
        cases here
      rw [List.length_cons,readUntilEnd,if_neg before,ih settled rest.symm,read]
      rfl
    · rw [remaining_behind] at left
      cases left

theorem readUntilEnd_unique {steps others : Nat} {first second : List (Except String (Option ν))}
    (one : readUntilEnd column steps index = some first) (other : readUntilEnd column others index = some second) :
    first = second := by
  induction steps generalizing index others first second with
  | zero =>
    rw [readUntilEnd] at one
    split at one
    next ended =>
      rw [← Option.some.inj one]
      cases others with
      | zero =>
        rw [readUntilEnd,if_pos ended] at other
        exact Option.some.inj other
      | succ others =>
        rw [readUntilEnd,if_pos ended] at other
        exact Option.some.inj other
    next => cases one
  | succ steps ih =>
    rw [readUntilEnd] at one
    split at one
    next ended =>
      rw [← Option.some.inj one]
      cases others with
      | zero =>
        rw [readUntilEnd,if_pos ended] at other
        exact Option.some.inj other
      | succ others =>
        rw [readUntilEnd,if_pos ended] at other
        exact Option.some.inj other
    next before =>
      obtain ⟨later,rest,rfl⟩ := Option.map_eq_some_iff.mp one
      cases others with
      | zero =>
        rw [readUntilEnd,if_neg before] at other
        cases other
      | succ others =>
        rw [readUntilEnd,if_neg before] at other
        obtain ⟨later',rest',rfl⟩ := Option.map_eq_some_iff.mp other
        rw [ih rest rest']

end Positions

/-- The first chunk may be empty only if all are; and what is read are integers or strings, none of them null. -/
theorem visitsOnce_iff : VisitsOnce column ↔ column.elements = [] ∨
    (∃ slot first chunks, column.chunks = (slot::first)::chunks) ∧ (column.type = .int64 ∨ column.type = .string) ∧
      ∀ slot ∈ column.elements, slot.isValid = true := by
  by_cases filled : column.elements = []
  · refine iff_of_true ⟨0,?_⟩ (.inl filled)
    rw [readUntilEnd,Column.end_,filled]
    rfl
  · have ended := end_of_filled filled
    rw [or_iff_right filled]
    have some : ∃ first chunks, column.chunks = first::chunks := by
      apply List.exists_cons_of_ne_nil
      intro none
      exact filled (by rw [Column.elements,none]; rfl)
    obtain ⟨first,chunks,cut⟩ := some
    have here : column.chunks[column.begin.chunk]? = .some first := by
      rw [cut]
      rfl
    have before : column.begin ≠ column.end_ := by
      rw [ended,cut]
      intro same
      cases same
    cases first with
    | nil =>
      refine iff_of_false ?_ ?_
      · -- the loop starts behind the end of the first chunk
        rintro ⟨steps,read⟩
        obtain ⟨element,elements,front⟩ := List.exists_cons_of_ne_nil filled
        cases steps with
        | zero =>
          rw [readUntilEnd,if_neg before] at read
          cases read
        | succ steps =>
          rw [readUntilEnd,if_neg before] at read
          obtain ⟨later,_,same⟩ := Option.map_eq_some_iff.mp read
          rw [front,dereference,here] at same
          cases same
      · rintro ⟨⟨slot,first,others,other⟩,_⟩
        rw [cut] at other
        cases other
    | cons slot first =>
      have settled : Settled column column.begin := .inl ⟨_,here,Nat.zero_lt_succ _⟩
      have whole : remaining column column.begin = column.elements := by
        rw [remaining,here,Column.elements,cut]
        rfl
      have read := readUntilEnd_remaining filled settled whole
      have visits : VisitsOnce column ↔ column.elements.map (getArrowScalar column) =
          column.elements.map fun slot => .ok slot.value := by
        refine ⟨?_,fun same => ⟨_,read.trans (congrArg _ same)⟩⟩
        rintro ⟨steps,visited⟩
        exact readUntilEnd_unique read visited
      have first : slot ∈ column.elements := by
        rw [Column.elements,cut]
        exact List.mem_cons_self
      have scalar (element : Slot ν) : getArrowScalar column element = .ok element.value ↔
          (column.type = .int64 ∨ column.type = .string) ∧ element.isValid = true := by
        unfold getArrowScalar Slot.value
        by_cases readable : column.type = .int64 ∨ column.type = .string
        · rw [if_pos readable]
          cases element.isValid <;> simp [readable]
        · rw [if_neg readable]
          simp [readable]
      rw [visits,List.map_inj_left]
      constructor
      · intro each
        exact ⟨⟨_,_,_,cut⟩,((scalar slot).mp (each slot first)).1,
          fun element inside => ((scalar element).mp (each element inside)).2⟩
      · rintro ⟨_,readable,valid⟩ element inside
        exact (scalar element).mpr ⟨readable,valid element inside⟩

/-- A chunk without elements in front of an element. -/
theorem empty_first_not_visited : ¬VisitsOnce (⟨.int64,[[],[⟨true,7⟩]]⟩ : Column Int) := by
  rintro ⟨steps,visited⟩
  cases steps with
  | zero =>
    rw [readUntilEnd,if_neg (by decide)] at visited
    cases visited
  | succ steps =>
    rw [readUntilEnd,if_neg (by decide)] at visited
    obtain ⟨later,_,same⟩ := Option.map_eq_some_iff.mp visited
    cases same

end ColumnIterator
end Hermes.Tuples
