import Mathlib.Data.List.Basic

/-! Cells one after the other, each with a separator behind it, and the cells found again between the places
of the separators. -/
namespace Hermes.Library.Cells
variable {α : Type}

def encode (cells : List (List α × α)) : List α := cells.flatMap fun cell => cell.1 ++ [cell.2]

def positions (isSep : α → Bool) : Nat → List α → List Nat
  | _,[] => []
  | place,a::rest => if isSep a then place::positions isSep (place+1) rest else positions isSep (place+1) rest

-- no separator stands in a cell, and one behind it
def Separated (isSep : α → Bool) (cells : List (List α × α)) : Prop :=
  ∀ cell ∈ cells, (∀ a ∈ cell.1, isSep a = false) ∧ isSep cell.2 = true

variable {isSep : α → Bool} {place : Nat} {cells : List (List α × α)}

theorem encode_cons (cell : List α × α) (cells : List (List α × α)) :
    encode (cell::cells) = cell.1 ++ [cell.2] ++ encode cells :=
  List.flatMap_cons

theorem encode_append (cells others : List (List α × α)) : encode (cells ++ others) = encode cells ++ encode others :=
  List.flatMap_append

theorem length_encode {width : Nat} (even : ∀ cell ∈ cells, cell.1.length = width) :
    (encode cells).length = cells.length*(width+1) := by
  induction cells with
  | nil => exact (Nat.zero_mul _).symm
  | cons cell cells ih =>
    obtain ⟨here,later⟩ := List.forall_mem_cons.mp even
    rw [encode_cons,List.length_append,List.length_append,List.length_singleton,ih later,here,
      @List.length_cons _ cell cells,
      Nat.succ_mul,Nat.add_comm]

theorem positions_append (front rest : List α) :
    positions isSep place (front ++ rest) = positions isSep place front ++
    positions isSep (place+front.length) rest := by
  induction front generalizing place with
  | nil => rfl
  | cons a front ih =>
    rw [List.cons_append,positions,positions,ih,List.length_cons,Nat.add_right_comm,Nat.add_assoc]
    split
    next => rw [List.cons_append]
    next => rfl

theorem length_positions (whole : List α) : (positions isSep place whole).length = whole.countP isSep := by
  induction whole generalizing place with
  | nil => rfl
  | cons a whole ih =>
    rw [positions,List.countP_cons]
    split
    next => rw [List.length_cons,ih]
    next => exact ih

theorem positions_none {cell : List α} (none : ∀ a ∈ cell, isSep a = false) : positions isSep place cell = [] := by
  induction cell generalizing place with
  | nil => rfl
  | cons a rest ih =>
    obtain ⟨here,later⟩ := List.forall_mem_cons.mp none
    rw [positions,here]
    exact ih later

theorem positions_cell {cell : List α × α} (inner : ∀ a ∈ cell.1, isSep a = false) (behind : isSep cell.2 = true) :
    positions isSep place (cell.1 ++ [cell.2]) = [place+cell.1.length] := by
  rw [positions_append,positions_none inner,List.nil_append,positions,behind]
  rfl

theorem positions_encode_getElem? (separated : Separated isSep cells) {number : Nat} {cell : List α × α}
    (found : cells[number]? = some cell) :
    (positions isSep place (encode cells))[number]? =
    some (place+(encode (cells.take number)).length+cell.1.length) := by
  induction cells generalizing place number with
  | nil => cases found
  | cons first cells ih =>
    obtain ⟨⟨inner,behind⟩,later⟩ := List.forall_mem_cons.mp separated
    rw [encode_cons,positions_append,positions_cell inner behind]
    cases number with
    | zero =>
      cases found
      rfl
    | succ number =>
      have rest := @ih (place+(first.1 ++ [first.2]).length) later number found
      rw [List.singleton_append,List.getElem?_cons_succ,rest,List.take_succ_cons,encode_cons]
      simp only [List.length_append,Nat.add_assoc]

theorem positions_encode_length (separated : Separated isSep cells) :
    (positions isSep place (encode cells)).length = cells.length := by
  induction cells generalizing place with
  | nil => rfl
  | cons first cells ih =>
    obtain ⟨⟨inner,behind⟩,later⟩ := List.forall_mem_cons.mp separated
    rw [encode_cons,positions_append,positions_cell inner behind,List.length_append,ih later,List.length_cons,
      Nat.add_comm]
    rfl

theorem cell_between (separated : Separated isSep cells) {number : Nat} {cell : List α × α}
    (found : cells[number+1]? = some cell) :
    ∃ start stop, (positions isSep 0 (encode cells))[number]? = some start ∧
    (positions isSep 0 (encode cells))[number+1]? = some stop ∧
      stop = start+1+cell.1.length ∧ ((encode cells).drop (start+1)).take cell.1.length = cell.1 := by
  obtain ⟨bound,there⟩ := List.getElem?_eq_some_iff.mp found
  have before := List.getElem?_eq_getElem (Nat.lt_of_succ_lt bound)
  have begins := @positions_encode_getElem? _ isSep 0 cells separated _ _ before
  have ends := @positions_encode_getElem? _ isSep 0 cells separated _ _ found
  have taken : cells.take (number+1) = cells.take number ++ [cells[number]] := (List.take_append_getElem _).symm
  have size : (encode (cells.take (number+1))).length =
      (encode (cells.take number)).length + (cells[number].1.length+1) := by
    rw [taken,encode_append,encode_cons,List.length_append,List.length_append,List.length_append]
    rfl
  refine ⟨_,_,begins,ends,?_,?_⟩
  · rw [size]
    omega
  · have parts : cells = cells.take (number+1) ++ cell::cells.drop (number+2) := by
      rw [← there,← List.drop_eq_getElem_cons bound,List.take_append_drop]
    have whole : encode cells = encode (cells.take (number+1)) ++
        (cell.1 ++ [cell.2] ++ encode (cells.drop (number+2))) := by
      conv_lhs => rw [parts]
      rw [encode_append,encode_cons]
    have place : 0+(encode (cells.take number)).length+cells[number].1.length+1 =
        (encode (cells.take (number+1))).length := by omega
    rw [place,whole,List.drop_left,List.append_assoc,List.take_left]

end Hermes.Library.Cells
