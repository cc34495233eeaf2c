import Hermes.CSVParser

/-! A CSV file parsed range by range, and when that gives each of its rows once. -/
namespace Hermes.Csv
open Library.Lines Tuples

def tiles : Nat → List Nat → List (Nat × Nat)
  | _,[] => []
  | start,length::lengths => (start,start+length)::tiles (start+length) lengths

variable (columnNames : Option (List String)) (bufferSize : Nat)

/-- The rows of the ranges from a place on, each range with a parser of its own. -/
def parseTiles (blockParser : BlockParser) (file : List UInt8) : Nat → List Nat → Except Failure (List (List String))
  | _,[] => .ok []
  | start,length::lengths => do
    let tupleSet ← CSVParser.parse ⟨columnNames,start,some (start+length),bufferSize⟩ blockParser file
    let later ← parseTiles blockParser file (start+length) lengths
    .ok (tupleSet.rows ++ later)

variable (row : List UInt8 → Option (List String)) (data : List UInt8)

def fileRows : List (List String) := (data.splitOn newline).filterMap row

def rowsFrom (place : Nat) : List (List String) := (ended newline (data.drop place)).filterMap row

def lastRow : Option (List String) := row ((data.splitOn newline).getLast (List.splitOn_ne_nil _ _))

def repeated (tile : Nat × Nat) : List (List String) := (CSVParser.repeats data tile.1 tile.2).filterMap row

/-- Each range has a line start at or before its finish, and no row is repeated while each one is ended; or
the one row that is repeated stands for the last row, which is lost, where all rows behind the boundary are equal. -/
structure EachRowOnce (unended : Option (List String)) (ranges : List (Nat × Nat)) : Prop where
  reached : ∀ tile ∈ ranges,nextStart newline data tile.1 ≤ tile.2
  again : ranges.flatMap (repeated row data) = unended.toList
  equal : ∀ tile ∈ ranges,repeated row data tile ≠ [] → ∀ later ∈ rowsFrom row data tile.2,some later = unended

variable {columnNames bufferSize row data}

theorem fileRows_eq : fileRows row data = rowsFrom row data 0 ++ (lastRow row data).toList := by
  have cut := List.dropLast_append_getLast (List.splitOn_ne_nil newline data)
  rw [fileRows,← cut,List.filterMap_append]
  rfl

theorem cons_eq_append_singleton {α : Type} {a b : α} {rest : List α} :
    a::rest = rest ++ [b] ↔ b = a ∧ ∀ later ∈ rest,later = b := by
  induction rest generalizing a with
  | nil => simp [eq_comm]
  | cons c rest ih =>
    rw [List.cons_append,List.cons_eq_cons,ih]
    simp only [List.forall_mem_cons]
    constructor
    · rintro ⟨rfl,rfl,equal⟩
      exact ⟨rfl,rfl,equal⟩
    · rintro ⟨rfl,rfl,equal⟩
      exact ⟨rfl,rfl,equal⟩

theorem shifted_iff {α : Type} {first : α} {rest rows : List α} {unended : Option α}
    (long : List.Sublist (first::rest) rows) :
    rows = rest ++ unended.toList ↔ unended = some first ∧ (∀ later ∈ first::rest,later = first) ∧
    rows = first::rest := by
  constructor
  · rintro rfl
    cases unended with
    | none =>
      have sizes := long.length_le
      rw [Option.toList_none,List.append_nil,List.length_cons] at sizes
      omega
    | some last =>
      have whole : first::rest = rest ++ [last] := long.eq_of_length (by simp)
      obtain ⟨rfl,equal⟩ := cons_eq_append_singleton.mp whole
      exact ⟨rfl,List.forall_mem_cons.mpr ⟨rfl,equal⟩,whole.symm⟩
  · rintro ⟨rfl,equal,rfl⟩
    exact cons_eq_append_singleton.mpr ⟨rfl,(List.forall_mem_cons.mp equal).2⟩

variable (columnNames) (row)

/-- A parser of the ranges that is trusted, and a file that fits to it. -/
structure Readable (bufferSize : Nat) (blockParser : BlockParser) (header data : List UInt8) : Prop where
  positive : 0 < bufferSize
  wellformed : ∃ cells valid names,blockParser.Reads cells valid ∧ Wellformed cells valid header names data ∧
    row = CSVParser.rowOf ⟨columnNames,0,none,bufferSize⟩ cells (names.map canonicalize)

variable {columnNames} {row} {blockParser : BlockParser} {header : List UInt8}

theorem parse_tile (readable : Readable columnNames row bufferSize blockParser header data) {start length : Nat}
    (filled : 0 < length) (inside : start+length ≤ data.length)
    (reached : nextStart newline data start ≤ start+length) :
    ∃ own tupleSet,CSVParser.parse ⟨columnNames,start,some (start+length),bufferSize⟩ blockParser (header ++
      newline::data) =
        .ok tupleSet ∧ tupleSet.rows = own ++ repeated row data (start,start+length) ∧
      own ++ rowsFrom row data (nextStart newline data (start+length)) =
      rowsFrom row data (nextStart newline data start) := by
  obtain ⟨cells,valid,names,reads,wellformed,rfl⟩ := readable.wellformed
  obtain ⟨own,parsed,telescoped⟩ := @CSVParser.parse_eq ⟨columnNames,start,some (start+length),bufferSize⟩ _ _ _ _ _ _
    reads readable.positive wellformed _ rfl (Nat.lt_add_of_pos_right filled) inside reached
  refine ⟨own.filterMap (CSVParser.rowOf ⟨columnNames,0,none,bufferSize⟩ cells (names.map canonicalize)),_,parsed,?_,?_⟩
  · rw [List.filterMap_append]
    rfl
  · rw [rowsFrom,rowsFrom,← List.filterMap_append,telescoped]

theorem parse_missed (readable : Readable columnNames row bufferSize blockParser header data) {start length : Nat}
    (filled : 0 < length) (inside : start+length ≤ data.length) (missed : start+length < nextStart newline data start) :
    CSVParser.parse ⟨columnNames,start,some (start+length),bufferSize⟩ blockParser (header ++ newline::data) =
      .error .assertion := by
  obtain ⟨cells,valid,names,reads,wellformed,_⟩ := readable.wellformed
  exact @CSVParser.parse_assertion ⟨columnNames,start,some (start+length),bufferSize⟩ _ _ _ _ _ _
    reads readable.positive wellformed _ rfl (Nat.lt_add_of_pos_right filled) inside missed

theorem rowsFrom_end {start : Nat} (last : start = data.length) :
    rowsFrom row data (nextStart newline data start) = [] := by
  have ends : nextStart newline data start = data.length :=
    Nat.le_antisymm (nextStart_le (Nat.le_of_eq last)) (last.symm.trans_le (le_nextStart (Nat.le_of_eq last)))
  rw [rowsFrom,ends,List.drop_length]
  rfl

theorem repeated_cases {start finish : Nat} (ordered : start ≤ finish) :
    repeated row data (start,finish) = [] ∨ ∃ first rest,repeated row data (start,finish) = [first] ∧
      rowsFrom row data (nextStart newline data finish) = first::rest ∧ rowsFrom row data finish = first::rest := by
  rw [repeated,CSVParser.repeats]
  by_cases same : nextStart newline data start = finish
  · have again : nextStart newline data finish = finish := by
      rw [nextStart_eq ordered (Nat.le_of_eq same.symm),same]
    rw [if_pos same,again,rowsFrom]
    cases ended newline (data.drop finish) with
    | nil => exact Or.inl rfl
    | cons line lines =>
      cases made : row line with
      | none =>
        apply Or.inl
        rw [List.take_succ_cons,List.take_zero,List.filterMap_cons_none made]
        rfl
      | some first =>
        apply Or.inr
        refine ⟨first,lines.filterMap row,?_,List.filterMap_cons_some made,List.filterMap_cons_some made⟩
        rw [List.take_succ_cons,List.take_zero,List.filterMap_cons_some made]
        rfl
  · rw [if_neg same]
    exact Or.inl rfl

theorem EachRowOnce.cons_none {unended : Option (List String)} {tile : Nat × Nat} {ranges : List (Nat × Nat)}
    (reached : nextStart newline data tile.1 ≤ tile.2) (none : repeated row data tile = []) :
    EachRowOnce row data unended (tile::ranges) ↔ EachRowOnce row data unended ranges := by
  constructor
  · intro once
    have again := once.again
    rw [List.flatMap_cons,none,List.nil_append] at again
    exact ⟨fun _ inside => once.reached _ (List.mem_cons_of_mem _ inside),again,
      fun _ inside => once.equal _ (List.mem_cons_of_mem _ inside)⟩
  · intro once
    refine ⟨List.forall_mem_cons.mpr ⟨reached,once.reached⟩,?_,
      List.forall_mem_cons.mpr ⟨fun some => absurd none some,once.equal⟩⟩
    rw [List.flatMap_cons,none,List.nil_append]
    exact once.again

theorem EachRowOnce.cons_again {unended : Option (List String)} {tile : Nat × Nat} {ranges : List (Nat × Nat)}
    {first : List String}
    (reached : nextStart newline data tile.1 ≤ tile.2) (one : repeated row data tile = [first]) :
    EachRowOnce row data unended (tile::ranges) ↔
      unended = some first ∧ (∀ later ∈ rowsFrom row data tile.2,later = first) ∧ EachRowOnce row data none ranges := by
  constructor
  · intro once
    have again := once.again
    rw [List.flatMap_cons,one,List.singleton_append] at again
    cases unended with
    | none => cases again
    | some last =>
      obtain ⟨rfl,spent⟩ := List.cons_eq_cons.mp again
      have single : repeated row data tile ≠ [] := by
        rw [one]
        exact List.cons_ne_nil _ _
      refine ⟨rfl,fun later inside => Option.some.inj (once.equal tile List.mem_cons_self single later inside),
        fun _ inside => once.reached _ (List.mem_cons_of_mem _ inside),spent,?_⟩
      intro tile inside again
      exact absurd (List.flatMap_eq_nil_iff.mp spent tile inside) again
  · rintro ⟨rfl,equal,once⟩
    refine ⟨List.forall_mem_cons.mpr ⟨reached,once.reached⟩,?_,List.forall_mem_cons.mpr ⟨fun _ later inside =>
      congrArg some (equal later inside),fun tile inside again => ?_⟩⟩
    · rw [List.flatMap_cons,one,once.again]
      rfl
    · exact absurd (List.flatMap_eq_nil_iff.mp once.again tile inside) again

theorem rows_sublist (readable : Readable columnNames row bufferSize blockParser header data) (lengths : List Nat)
    (start : Nat) (filled : ∀ length ∈ lengths,0 < length) (covering : start+lengths.sum = data.length)
    {rows : List (List String)}
    (parsed : parseTiles columnNames bufferSize blockParser (header ++ newline::data) start lengths = .ok rows) :
    List.Sublist (rowsFrom row data (nextStart newline data start)) rows := by
  induction lengths generalizing start rows with
  | nil =>
    rw [List.sum_nil,Nat.add_zero] at covering
    rw [rowsFrom_end covering]
    exact List.nil_sublist _
  | cons length lengths ih =>
    rw [List.sum_cons] at covering
    rw [parseTiles] at parsed
    rcases Nat.lt_or_ge (start+length) (nextStart newline data start) with missed | reached
    · rw [parse_missed readable (filled _ List.mem_cons_self) (by omega) missed] at parsed
      cases parsed
    · obtain ⟨own,tupleSet,first,rowsOf,telescoped⟩ :=
        parse_tile readable (filled _ List.mem_cons_self) (by omega) reached
      rw [first] at parsed
      cases run : parseTiles columnNames bufferSize blockParser (header ++ newline::data) (start+length) lengths with
      | error failure =>
        rw [run] at parsed
        cases parsed
      | ok later =>
        rw [run] at parsed
        cases parsed
        have kept := ih (start+length) (fun length inside => filled length (List.mem_cons_of_mem _ inside))
            (by omega) run
        rw [← telescoped,rowsOf,List.append_assoc]
        exact List.Sublist.append (List.Sublist.refl _) (kept.trans (List.sublist_append_right _ _))

theorem parseTiles_eq_iff (readable : Readable columnNames row bufferSize blockParser header data) (lengths : List Nat)
    (start : Nat) (filled : ∀ length ∈ lengths,0 < length) (covering : start+lengths.sum = data.length)
    (unended : Option (List String)) :
    parseTiles columnNames bufferSize blockParser (header ++ newline::data) start lengths =
        .ok (rowsFrom row data (nextStart newline data start) ++ unended.toList) ↔
      EachRowOnce row data unended (tiles start lengths) := by
  induction lengths generalizing start unended with
  | nil =>
    rw [List.sum_nil,Nat.add_zero] at covering
    rw [rowsFrom_end covering,List.nil_append,parseTiles,Except.ok.injEq]
    exact ⟨fun lost => ⟨fun _ inside => absurd inside List.not_mem_nil,lost,
      fun _ inside => absurd inside List.not_mem_nil⟩,
      fun once => once.again⟩
  | cons length lengths ih =>
    rw [List.sum_cons] at covering
    have later : ∀ unended : Option (List String),_ := ih (start+length)
      (fun length inside => filled length (List.mem_cons_of_mem _ inside)) (by omega)
    rw [parseTiles,tiles]
    rcases Nat.lt_or_ge (start+length) (nextStart newline data start) with missed | reached
    · rw [parse_missed readable (filled _ List.mem_cons_self) (by omega) missed]
      refine ⟨fun failed => (by cases failed),fun once => ?_⟩
      exact absurd (once.reached _ List.mem_cons_self) (Nat.not_le.mpr missed)
    · obtain ⟨own,tupleSet,first,rowsOf,telescoped⟩ :=
        parse_tile readable (filled _ List.mem_cons_self) (by omega) reached
      rw [first,← telescoped]
      dsimp only [bind,Except.bind]
      rw [rowsOf]
      obtain none | ⟨again,rest,one,behind,here⟩ := @repeated_cases row data start (start+length) (Nat.le_add_right _ _)
      · rw [EachRowOnce.cons_none reached none,← later unended,none,List.append_nil]
        cases parseTiles columnNames bufferSize blockParser (header ++ newline::data) (start+length) lengths with
        | error => exact ⟨fun failed => (by cases failed),fun failed => (by cases failed)⟩
        | ok rows => rw [Except.ok.injEq,Except.ok.injEq,List.append_assoc,List.append_right_inj]
      · rw [EachRowOnce.cons_again reached one,here,one,behind,← later none,behind,Option.toList_none,List.append_nil]
        have kept := fun rows => @rows_sublist columnNames bufferSize row data blockParser header readable lengths
            (start+length)
          (fun length inside => filled length (List.mem_cons_of_mem _ inside)) (by omega) rows
        cases run : parseTiles columnNames bufferSize blockParser (header ++ newline::data) (start+length) lengths with
        | error => exact ⟨fun failed => (by cases failed),fun failed => (by cases failed.2.2)⟩
        | ok rows =>
          have long := kept rows run
          rw [behind] at long
          dsimp only
          rw [Except.ok.injEq,Except.ok.injEq,List.append_assoc,List.append_assoc,List.append_right_inj,
            List.singleton_append,
            List.cons_append,List.cons_eq_cons,eq_self,true_and]
          exact shifted_iff long

/-- Each row of the file is parsed once in these cases exactly. -/
theorem tiles_parse_each_row_once (readable : Readable columnNames row bufferSize blockParser header data)
    (lengths : List Nat) (filled : ∀ length ∈ lengths,0 < length) (covering : lengths.sum = data.length) :
    parseTiles columnNames bufferSize blockParser (header ++ newline::data) 0 lengths = .ok (fileRows row data) ↔
      EachRowOnce row data (lastRow row data) (tiles 0 lengths) := by
  have first : nextStart newline data 0 = 0 := rfl
  rw [fileRows_eq,← parseTiles_eq_iff readable lengths 0 filled (by omega),first]

section
def cellsOf (line : List UInt8) : Option (List String) :=
  if line = [] then none
  else some ((line.splitOn 44).map fun cell => String.ofList (cell.map fun byte => Char.ofNat byte.toNat))

def commaParser : BlockParser where
  parse _ views := .ok ((ended newline views.flatten).filterMap cellsOf)

theorem commaParser_reads : commaParser.Reads cellsOf (fun _ _ => True) where
  blank := rfl
  header := by
    intro line names missing named _
    rw [commaParser]
    dsimp only
    rw [List.flatten_singleton,ended_line missing []]
    have last : ended newline ([] : List UInt8) = [] := rfl
    rw [last,List.filterMap_cons_some named]
    rfl
  blocks := fun _ _ _ => rfl

theorem comma_readable (header data : List UInt8) (names : List String) (first : newline ∉ header)
    (named : cellsOf header = some names) :
    Readable none (CSVParser.rowOf ⟨none,0,none,2⟩ cellsOf (names.map canonicalize)) 2 commaParser header data :=
  ⟨by decide,cellsOf,_,names,commaParser_reads,⟨first,named,trivial,fun _ _ => trivial⟩,rfl⟩

/-- Two rows of two bytes, in ranges that end with them. -/
theorem rows_in_own_tiles :
    EachRowOnce (CSVParser.rowOf ⟨none,0,none,2⟩ cellsOf ["a"]) [49,10,50,10]
      (lastRow (CSVParser.rowOf ⟨none,0,none,2⟩ cellsOf ["a"]) [49,10,50,10]) (tiles 0 [2,2]) :=
  (tiles_parse_each_row_once (comma_readable [97] [49,10,50,10] ["a"] (by decide) (by decide)) [2,
    2] (by decide) (by decide)).mp
    (by decide)

/-- A range within a row fails, one that ends where its first row starts repeats it, and the row without an end is lost. -/
theorem rows_lost_and_repeated :
    parseTiles none 2 commaParser ([97] ++ newline::[50,50,10]) 0 [1,1,1] = .error .assertion ∧
    parseTiles none 2 commaParser ([97] ++ newline::[49,10,50,10]) 0 [1,1,2] = .ok [["1"],["2"],["2"]] ∧
    parseTiles none 2 commaParser ([97] ++ newline::[49,10,50]) 0 [2,1] = .ok [["1"]] ∧
    fileRows (CSVParser.rowOf ⟨none,0,none,2⟩ cellsOf ["a"]) [50,50,10] = [["22"]] ∧
    fileRows (CSVParser.rowOf ⟨none,0,none,2⟩ cellsOf ["a"]) [49,10,50,10] = [["1"],["2"]] ∧
    fileRows (CSVParser.rowOf ⟨none,0,none,2⟩ cellsOf ["a"]) [49,10,50] = [["1"],["2"]] := by
  decide
end
end Hermes.Csv
