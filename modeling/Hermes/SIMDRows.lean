import Hermes.CSVToArrowSIMDStreamParser
import Hermes.Library.Fallible

/-! The rows that `CSVToArrowSIMDStreamParser` finds in a buffer are those between the first row and the last
one, with the texts between their separators. -/
namespace Hermes.Csv
open Tuples SIMDParserHelpers Library.Cells Library.Lines Library.Fallible

def isSeparator (delimiter byte : UInt8) : Bool := byte = delimiter ∨ byte = newline

section Indexes
variable {delimiter : UInt8} {idx : Nat}

theorem outside_of_ne {byte : UInt8} (differs : quote ≠ byte) : xor false (byte == quote) = false := by
  rw [Bool.false_xor,beq_eq_false_iff_ne]
  exact differs.symm

theorem fieldBits_eq {bytes : List UInt8} (plain : quote ∉ bytes) (narrow : idx + bytes.length ≤ 4294967296) :
    fieldBits delimiter false idx bytes = (positions (isSeparator delimiter) idx bytes,false) := by
  induction bytes generalizing idx with
  | nil => rfl
  | cons byte bytes ih =>
    rw [List.mem_cons,not_or] at plain
    rw [List.length_cons] at narrow
    have small : idx%4294967296 = idx := Nat.mod_eq_of_lt (by omega)
    rw [fieldBits,outside_of_ne plain.1,ih plain.2 (by omega),small,positions]
    by_cases sep : byte = delimiter ∨ byte = newline
    · have is : isSeparator delimiter byte = true := decide_eq_true sep
      rw [if_pos ⟨sep,rfl⟩,if_pos is]
    · have not : isSeparator delimiter byte ≠ true := fun found => sep (of_decide_eq_true found)
      rw [if_neg (fun both => sep both.1),if_neg not]

def HaveRoom (room : Nat) (delimiter : UInt8) (bytes : List UInt8) (blocks : Nat) : Prop :=
  ∀ block < blocks, (positions (isSeparator delimiter) 0 (bytes.take (64*block))).length +
    written (positions (isSeparator delimiter) 0 ((bytes.drop (64*block)).take 64)).length ≤ room

theorem positions_length_eq {isSep : UInt8 → Bool} (first second : Nat) (bytes : List UInt8) :
    (positions isSep first bytes).length = (positions isSep second bytes).length := by
  rw [length_positions,length_positions]

theorem findIndexes_eq {room blocks : Nat} {front bytes : List UInt8} (plain : quote ∉ bytes)
    (narrow : front.length + bytes.length ≤ 4294967296) (block : Nat) (starts : front.length = 64*block)
    (full : 64*blocks ≤ bytes.length)
    (haveRoom : ∀ later, later < blocks → (positions (isSeparator delimiter) 0 ((front ++ bytes).take (64*(block+later)))).length +
      written (positions (isSeparator delimiter) 0 (((front ++ bytes).drop (64*(block+later))).take 64)).length ≤ room) :
    findIndexes room delimiter blocks false front.length bytes (positions (isSeparator delimiter) 0 front) =
      .ok (positions (isSeparator delimiter) 0 (front ++ bytes.take (64*blocks))) := by
  induction blocks generalizing front bytes block with
  | zero => rw [findIndexes,Nat.mul_zero,List.take_zero,List.append_nil]
  | succ blocks ih =>
    have few : (bytes.take 64).length ≤ bytes.length := List.length_take_le' _ _
    have here := haveRoom 0 (Nat.succ_pos _)
    rw [Nat.add_zero,← starts,List.take_left,List.drop_left,positions_length_eq 0 front.length (bytes.take 64)] at here
    rw [findIndexes,fieldBits_eq (fun found => plain (List.mem_of_mem_take found)) (by omega)]
    dsimp only
    rw [if_neg (Nat.not_lt.mpr here)]
    have parts : positions (isSeparator delimiter) 0 front ++ positions (isSeparator delimiter) front.length
        (bytes.take 64) =
        positions (isSeparator delimiter) 0 (front ++ bytes.take 64) := by
      rw [positions_append,Nat.zero_add]
    have cut : front ++ bytes.take 64 ++ bytes.drop 64 = front ++ bytes := by
      rw [List.append_assoc,List.take_append_drop]
    have size : (bytes.take 64).length = 64 := List.length_take_of_le (by omega)
    have next := @ih (front ++ bytes.take 64) (bytes.drop 64) (fun found => plain (List.mem_of_mem_drop found))
      (by rw [List.length_append,List.length_drop,size]; omega) (block+1) (by rw [List.length_append,size]; omega)
      (by rw [List.length_drop]; omega) (by
        intro later bound
        have room := haveRoom (later+1) (by omega)
        rw [cut,show block+1+later = block+(later+1) by omega]
        exact room)
    rw [List.length_append,size] at next
    rw [parts,next,List.append_assoc,← List.take_add,Nat.mul_succ,Nat.add_comm 64]

theorem take_blocks (buffer : List UInt8) : (buffer ++ List.replicate 64 0).take (64*((buffer.length + 63)/64)) =
    buffer ++ List.replicate (min (64*((buffer.length + 63)/64) - buffer.length) 64) 0 := by
  rw [List.take_append,List.take_of_length_le (by omega),List.take_replicate]

theorem parsedIndexes_eq {parser : CSVToArrowSIMDStreamParser} {buffer : List UInt8} (plain : quote ∉ buffer)
    (zero : parser.csvFileDelimiter ≠ 0) (narrow : buffer.length + 64 ≤ 4294967296)
    (haveRoom : HaveRoom (parser.bufferCapacity/4) parser.csvFileDelimiter (buffer ++ List.replicate 64 0) ((buffer.length + 63)/64)) :
    parser.parsedIndexes buffer = .ok (positions (isSeparator parser.csvFileDelimiter) 0 buffer) := by
  have size : (buffer ++ List.replicate 64 (0 : UInt8)).length = buffer.length + 64 := by
    rw [List.length_append,List.length_replicate]
  have unquoted : quote ∉ buffer ++ List.replicate 64 (0 : UInt8) := by
    intro found
    obtain inside | padded := List.mem_append.mp found
    · exact plain inside
    · exact absurd (List.eq_of_mem_replicate padded) (by decide)
  have found := @findIndexes_eq parser.csvFileDelimiter (parser.bufferCapacity/4)
      ((buffer.length + 63)/64) [] _ unquoted
    (by rw [size,List.length_nil,Nat.zero_add]; exact narrow) 0 rfl (by rw [size]; omega) (by
      intro later bound
      rw [Nat.zero_add]
      exact haveRoom later bound)
  have none : positions (isSeparator parser.csvFileDelimiter) (0+buffer.length)
      (List.replicate (min (64*((buffer.length + 63)/64) - buffer.length) 64) 0) = [] := by
    apply positions_none
    intro byte padded
    rw [List.eq_of_mem_replicate padded]
    exact decide_eq_false (not_or.mpr ⟨zero.symm,by decide⟩)
  refine found.trans ?_
  rw [List.nil_append,take_blocks,positions_append,none,List.append_nil]

end Indexes

section Rows
variable {delimiter : UInt8}

/-- The fields of a row, each with the separator behind it. -/
def lineCells (delimiter : UInt8) : List (List UInt8) → List (List UInt8 × UInt8)
  | [] => []
  | [field] => [(field,newline)]
  | field::next::fields => (field,delimiter)::lineCells delimiter (next::fields)

theorem lineCells_fst (fields : List (List UInt8)) : (lineCells delimiter fields).map Prod.fst = fields := by
  induction fields using lineCells.induct with
  | case1 => rfl
  | case2 field => rfl
  | case3 field next fields ih => rw [lineCells,List.map_cons,ih]

theorem encode_lineCells {fields : List (List UInt8)} (some : fields ≠ []) :
    encode (lineCells delimiter fields) = [delimiter].intercalate fields ++ [newline] := by
  induction fields using lineCells.induct with
  | case1 => exact absurd rfl some
  | case2 field =>
    rw [lineCells,encode_cons]
    simp [encode,List.intercalate]
  | case3 field next fields ih =>
    rw [lineCells,encode_cons,ih (List.cons_ne_nil _ _)]
    simp [List.intercalate]

def rowCells (delimiter : UInt8) (lines : List (List UInt8)) : List (List UInt8 × UInt8) :=
  lines.flatMap fun line => lineCells delimiter (line.splitOn delimiter)

theorem encode_rowCells (lines : List (List UInt8)) :
    encode (rowCells delimiter lines) = lines.flatMap fun line => line ++ [newline] := by
  induction lines with
  | nil => rfl
  | cons line lines ih =>
    rw [rowCells] at ih
    rw [rowCells,List.flatMap_cons,encode_append,encode_lineCells (List.splitOn_ne_nil _ _),List.intercalate_splitOn,
      ih,List.flatMap_cons]

theorem separated_append {isSep : UInt8 → Bool} {cells others : List (List UInt8 × UInt8)}
    (first : Separated isSep cells) (second : Separated isSep others) : Separated isSep (cells ++ others) :=
  List.forall_mem_append.mpr ⟨first,second⟩

theorem lineCells_separator {fields : List (List UInt8)} : ∀ cell ∈ lineCells delimiter fields, cell.2 = delimiter ∨
    cell.2 = newline := by
  induction fields using lineCells.induct with
  | case1 => exact List.forall_mem_nil _
  | case2 field => exact List.forall_mem_singleton.mpr (.inr rfl)
  | case3 field next fields ih => exact List.forall_mem_cons.mpr ⟨.inl rfl,ih⟩

theorem rowCells_separated {lines : List (List UInt8)} (inner : ∀ line ∈ lines, newline ∉ line) :
    Separated (isSeparator delimiter) (rowCells delimiter lines) := by
  intro cell inside
  obtain ⟨line,there,listed⟩ := List.mem_flatMap.mp inside
  refine ⟨?_,decide_eq_true (lineCells_separator cell listed)⟩
  have field : cell.1 ∈ line.splitOn delimiter := by
    rw [← @lineCells_fst delimiter (line.splitOn delimiter)]
    exact List.mem_map_of_mem listed
  obtain ⟨missing,part⟩ := mem_splitOn field
  intro byte found
  apply decide_eq_false
  rintro (rfl | rfl)
  · exact missing found
  · exact inner line there (part found)

theorem getElem?_flatten_of_length {β : Type} {columns column : Nat} {rows : List (List β)}
    (uniform : ∀ row ∈ rows, row.length = columns) (inside : column < columns) (number : Nat) :
    rows.flatten[number*columns+column]? = rows[number]?.bind fun row => row[column]? := by
  induction rows generalizing number with
  | nil => rfl
  | cons row rows ih =>
    obtain ⟨here,later⟩ := List.forall_mem_cons.mp uniform
    rw [List.flatten_cons]
    cases number with
    | zero =>
      rw [Nat.zero_mul,Nat.zero_add,List.getElem?_append_left (by omega)]
      rfl
    | succ number =>
      have place : (number+1)*columns+column = row.length+(number*columns+column) := by
        rw [Nat.succ_mul,here]
        omega
      rw [place,List.getElem?_append_right (Nat.le_add_right _ _),Nat.add_sub_cancel_left,ih later]
      rfl

end Rows

namespace CSVToArrowSIMDStreamParser
variable {parser : CSVToArrowSIMDStreamParser} {firstCells lastCells : List (List UInt8 × UInt8)}
    {lines : List (List UInt8)}

def rows (parser : CSVToArrowSIMDStreamParser) (lines : List (List UInt8)) : List (List (List UInt8)) :=
  lines.map fun line => line.splitOn parser.csvFileDelimiter

/-- A buffer of rows that fit the schema, between a row of as many cells and another one. -/
structure Chunk (parser : CSVToArrowSIMDStreamParser) (firstCells lastCells : List (List UInt8 × UInt8))
    (lines : List (List UInt8)) : Prop where
  columns : 0 < parser.inputNumColumns
  first : firstCells.length = parser.inputNumColumns
  last : lastCells.length = parser.inputNumColumns
  fits : ∀ line ∈ lines, (line.splitOn parser.csvFileDelimiter).length = parser.inputNumColumns
  separated : Separated (isSeparator parser.csvFileDelimiter)
    (firstCells ++ rowCells parser.csvFileDelimiter lines ++ lastCells)

variable (parser firstCells lastCells lines) in
def chunkBytes : List UInt8 := encode (firstCells ++ rowCells parser.csvFileDelimiter lines ++ lastCells)

variable (parser firstCells lastCells lines) in
def chunkIndexes : List Nat :=
    positions (isSeparator parser.csvFileDelimiter) 0 (chunkBytes parser firstCells lastCells lines)

theorem Chunk.cells_eq : firstCells ++ rowCells parser.csvFileDelimiter lines ++ lastCells =
    (firstCells::((rows parser lines).map (lineCells parser.csvFileDelimiter) ++ [lastCells])).flatten := by
  rw [List.flatten_cons,List.flatten_append,List.flatten_singleton,rowCells,rows,List.map_map,List.flatMap_def,
    List.append_assoc]
  rfl

theorem lineCells_length (delimiter : UInt8) (fields : List (List UInt8)) :
    (lineCells delimiter fields).length = fields.length := by
  rw [← List.length_map Prod.fst,lineCells_fst]

variable (chunk : Chunk parser firstCells lastCells lines)
include chunk

theorem Chunk.uniform : ∀ row ∈ firstCells::((rows parser lines).map (lineCells parser.csvFileDelimiter) ++
      [lastCells]),
    row.length = parser.inputNumColumns := by
  refine List.forall_mem_cons.mpr ⟨chunk.first,List.forall_mem_append.mpr ⟨?_,List.forall_mem_singleton.mpr chunk.last⟩⟩
  rw [rows,List.map_map]
  refine List.forall_mem_map.mpr fun line inside => ?_
  exact (lineCells_length _ _).trans (chunk.fits line inside)

theorem Chunk.count : (chunkIndexes parser firstCells lastCells lines).length =
    parser.inputNumColumns*(lines.length+2) := by
  have sizes : ∀ all : List (List (List UInt8 × UInt8)), (∀ row ∈ all, row.length = parser.inputNumColumns) →
      all.flatten.length = parser.inputNumColumns*all.length := by
    intro all same
    induction all with
    | nil => rfl
    | cons row all ih =>
      obtain ⟨here,later⟩ := List.forall_mem_cons.mp same
      rw [List.flatten_cons,List.length_append,ih later,here,List.length_cons,Nat.mul_succ,Nat.add_comm]
  rw [chunkIndexes,chunkBytes,positions_encode_length chunk.separated,Chunk.cells_eq,sizes _ chunk.uniform,
    List.length_cons,
    List.length_append,List.length_map,rows,List.length_map]
  rfl

theorem Chunk.div : (chunkIndexes parser firstCells lastCells lines).length/parser.inputNumColumns =
    lines.length+2 := by
  rw [chunk.count,Nat.mul_div_cancel_left _ chunk.columns]

theorem Chunk.fieldText {row column : Nat} {line : List UInt8} (found : lines[row]? = some line)
    (inside : column < parser.inputNumColumns) :
    fieldText (chunkBytes parser firstCells lastCells lines) (chunkIndexes parser firstCells lastCells lines) 1
        (parser.inputNumColumns - 1 + column + row*parser.inputNumColumns) =
      .ok ((line.splitOn parser.csvFileDelimiter).getD column []) := by
  have size := chunk.fits line (List.mem_of_getElem? found)
  have place : parser.inputNumColumns - 1 + column + row*parser.inputNumColumns + 1 =
      (row+1)*parser.inputNumColumns+column := by
    have positive := chunk.columns
    rw [Nat.succ_mul]
    omega
  obtain ⟨cell,there,text⟩ : ∃ cell, (firstCells ++ rowCells parser.csvFileDelimiter lines ++ lastCells)[
      parser.inputNumColumns - 1 + column + row*parser.inputNumColumns + 1]? = some cell ∧
      cell.1 = (line.splitOn parser.csvFileDelimiter).getD column [] := by
    have bound : column < (lineCells parser.csvFileDelimiter (line.splitOn parser.csvFileDelimiter)).length := by
      rwa [lineCells_length,size]
    refine ⟨(lineCells parser.csvFileDelimiter (line.splitOn parser.csvFileDelimiter))[column],?_,?_⟩
    · have earlier : row < lines.length := (List.getElem?_eq_some_iff.mp found).1
      have listed : ((rows parser lines).map (lineCells parser.csvFileDelimiter) ++ [lastCells])[row]? =
          some (lineCells parser.csvFileDelimiter (line.splitOn parser.csvFileDelimiter)) := by
        rw [List.getElem?_append_left (by rw [List.length_map,rows,List.length_map]; exact earlier),
          List.getElem?_map,rows,
          List.getElem?_map,found]
        rfl
      rw [Chunk.cells_eq,place,getElem?_flatten_of_length chunk.uniform inside,List.getElem?_cons_succ,listed]
      exact List.getElem?_eq_getElem bound
    · have fields := congrArg (fun texts => texts.getD column []) (@lineCells_fst parser.csvFileDelimiter
        (line.splitOn parser.csvFileDelimiter))
      rw [← fields,List.getD_eq_getElem?_getD,List.getElem?_map,List.getElem?_eq_getElem bound]
      rfl
  obtain ⟨start,stop,begins,ends,length,between⟩ := cell_between chunk.separated there
  have first : (chunkIndexes parser firstCells lastCells lines)[parser.inputNumColumns - 1 + column + row*parser.inputNumColumns]? =
    some start := begins
  have second : (chunkIndexes parser firstCells lastCells lines)[parser.inputNumColumns - 1 + column + row*parser.inputNumColumns + 1]? =
    some stop := ends
  unfold CSVToArrowSIMDStreamParser.fieldText
  rw [first,second]
  dsimp only
  rw [if_neg (by omega),show stop + 1 - start - 2*1 = cell.1.length by omega,← text]
  exact congrArg _ between

omit chunk

section Columns
variable {ν : Type} {convert : DataType → List UInt8 → Except String ν}

def Converts (convert : DataType → List UInt8 → Except String ν) (type : DataType) (column : Nat)
    (row : List (List UInt8)) (value : ν) :
    Prop := convert type (row.getD column []) = .ok value

-- the columns hold the fields of the rows, which may be others for each input column
variable (parser convert) in
def Built (rowsFor : Nat → List (List (List UInt8))) (columns : List (List ν)) : Prop :=
  columns.length = parser.outputSchema.length ∧ ∀ (outputCol : Nat) (field : Field) (inputCol : Nat),
    parser.outputSchema[outputCol]? = some field →
    getFieldIndex parser.inputSchema field.name = some inputCol →
      ∃ values, columns[outputCol]? = some values ∧
        List.Forall₂ (Converts convert field.type inputCol) (rowsFor inputCol) values

theorem appendValue_safe (type : DataType) (str : List UInt8) : appendValue convert type str ≠ .error .outside := by
  unfold appendValue
  cases convert type str with
  | error message =>
    intro wrong
    cases wrong
  | ok value =>
    intro wrong
    cases wrong

theorem appendValue_eq_ok {type : DataType} {str : List UInt8} {value : ν} : appendValue convert type str = .ok value ↔
    convert type str = .ok value := by
  unfold appendValue
  cases convert type str with
  | error message =>
    apply iff_of_false
    · intro wrong
      cases wrong
    · intro wrong
      cases wrong
  | ok other => exact ⟨fun same => congrArg _ (Except.ok.inj same),fun same => congrArg _ (Except.ok.inj same)⟩

theorem forall₂_range {β γ : Type} {related : Nat → γ → Prop} {good : β → γ → Prop} {elements : List β}
    {results : List γ} (all : List.Forall₂ related (List.range elements.length) results)
    (each : ∀ number element result, elements[number]? = some element → related number result → good element result) :
    List.Forall₂ good elements results := by
  rw [List.forall₂_iff_get] at all ⊢
  obtain ⟨length,all⟩ := all
  rw [List.length_range] at length
  refine ⟨length,fun number bound bound' => ?_⟩
  have here := all number (by rwa [List.length_range]) bound'
  rw [List.get_eq_getElem,List.getElem_range] at here
  exact each number _ _ (List.getElem?_eq_getElem bound) here

variable {startEndOffsets : List Nat} {arrayBuilders : List (List ν)} {inputCol : Nat}

theorem outputCol_of_found (distinct : (parser.outputSchema.map Field.name).Nodup) {outputCol : Nat} {field : Field}
    (there : parser.outputSchema[outputCol]? = some field)
    (found : getFieldIndex parser.inputSchema field.name = some inputCol) :
    (parser.inputSchema[inputCol]?.bind fun field => getFieldIndex parser.outputSchema field.name) =
    some outputCol := by
  obtain ⟨⟨source,here,named⟩,_⟩ := getFieldIndex_iff.mp found
  obtain ⟨bound,same⟩ := List.getElem?_eq_some_iff.mp there
  rw [here,Option.bind_some,named,← same]
  exact getFieldIndex_of_unique distinct bound

theorem inputCol_of_outputCol {outputCol inputCol' : Nat} {field : Field}
    (there : parser.outputSchema[outputCol]? = some field)
    (found : getFieldIndex parser.inputSchema field.name = some inputCol')
    (filled : (parser.inputSchema[inputCol]?.bind fun field => getFieldIndex parser.outputSchema field.name) = some outputCol) :
    inputCol = inputCol' := by
  obtain ⟨source,here,target⟩ := Option.bind_eq_some_iff.mp filled
  obtain ⟨⟨other,there',named⟩,_⟩ := getFieldIndex_iff.mp target
  rw [there] at there'
  obtain rfl := Option.some.inj there'
  exact (getFieldIndex_iff.mp found).2 inputCol source here named.symm

section Dump
variable (chunk : Chunk parser firstCells lastCells lines)
    (unquoted : ∀ outputCol, startEndOffsets.getD outputCol 1 = 1)
include chunk unquoted

theorem Chunk.dumpColumn_safe (inside : inputCol < parser.inputNumColumns) :
    dumpColumn parser convert (chunkBytes parser firstCells lastCells lines)
    (chunkIndexes parser firstCells lastCells lines) startEndOffsets
      arrayBuilders inputCol ≠ .error .outside := by
  unfold dumpColumn
  split
  next =>
    intro wrong
    cases wrong
  next outputCol _ =>
    rw [unquoted,chunk.div]
    dsimp only
    apply bind_ne_error
    · apply mapM_ne_error
      intro row number
      have found := List.getElem?_eq_getElem (List.mem_range.mp number)
      rw [chunk.fieldText found inside]
      exact appendValue_safe _ _
    · intro values _ wrong
      cases wrong

theorem Chunk.dumpColumn_ok (inside : inputCol < parser.inputNumColumns) {after : List (List ν)}
    (done : dumpColumn parser convert (chunkBytes parser firstCells lastCells lines) (chunkIndexes parser firstCells lastCells lines)
      startEndOffsets arrayBuilders inputCol = .ok after) :
    (parser.inputSchema[inputCol]?.bind fun field => getFieldIndex parser.outputSchema field.name) = none ∧
    after = arrayBuilders ∨
    ∃ outputCol values, (parser.inputSchema[inputCol]?.bind fun field => getFieldIndex parser.outputSchema field.name) = some outputCol ∧
      after = arrayBuilders.modify outputCol (· ++ values) ∧
      List.Forall₂ (Converts convert ((parser.outputSchema[outputCol]?.map Field.type).getD .string) inputCol)
      (rows parser lines) values := by
  unfold dumpColumn at done
  split at done
  next none => exact .inl ⟨none,(Except.ok.inj done).symm⟩
  next outputCol some =>
    rw [unquoted,chunk.div] at done
    obtain ⟨values,read,same⟩ := bind_eq_ok.mp done
    refine .inr ⟨outputCol,values,some,(Except.ok.inj same).symm,?_⟩
    have all := mapM_eq_ok.mp read
    rw [Nat.add_sub_cancel] at all
    rw [rows,List.forall₂_map_left_iff]
    apply forall₂_range all
    intro row line value found step
    rw [chunk.fieldText found inside] at step
    exact appendValue_eq_ok.mp step

theorem Chunk.foldlM_built (distinct : (parser.outputSchema.map Field.name).Nodup) {before : List (List (List UInt8))}
    (built : Built parser convert (fun _ => before) arrayBuilders) {inputCols : Nat}
    (bound : inputCols ≤ parser.inputNumColumns) :
    (List.range inputCols).foldlM (dumpColumn parser convert (chunkBytes parser firstCells lastCells lines)
        (chunkIndexes parser firstCells lastCells lines) startEndOffsets) arrayBuilders ≠ .error .outside ∧
    ∀ after, (List.range inputCols).foldlM (dumpColumn parser convert (chunkBytes parser firstCells lastCells lines)
        (chunkIndexes parser firstCells lastCells lines) startEndOffsets) arrayBuilders = .ok after →
      Built parser convert (fun inputCol => if inputCol < inputCols then before ++ rows parser lines else before) after := by
  induction inputCols with
  | zero =>
    refine ⟨?_,fun after same => ?_⟩
    · intro wrong
      cases wrong
    · rw [← Except.ok.inj same]
      exact built
  | succ inputCol ih =>
    obtain ⟨safe,filled⟩ := ih (by omega)
    rw [List.range_succ,List.foldlM_append]
    refine ⟨bind_ne_error safe fun mid _ => ?_,fun after done => ?_⟩
    · rw [List.foldlM_cons]
      apply bind_ne_error (chunk.dumpColumn_safe unquoted (by omega))
      intro last _ wrong
      cases wrong
    · obtain ⟨mid,earlier,step⟩ := bind_eq_ok.mp done
      rw [List.foldlM_cons] at step
      obtain ⟨last,here,same⟩ := bind_eq_ok.mp step
      obtain rfl := Except.ok.inj same
      obtain ⟨size,columns⟩ := filled mid earlier
      have further (other : Nat) (differ : other ≠ inputCol) :
          (if other < inputCol + 1 then before ++ rows parser lines else before) =
          if other < inputCol then before ++ rows parser lines else before := by
        by_cases less : other < inputCol
        · rw [if_pos less,if_pos (by omega)]
        · rw [if_neg less,if_neg (by omega)]
      obtain ⟨none,same⟩ | ⟨filledCol,values,target,same,read⟩ := chunk.dumpColumn_ok unquoted (by omega) here
      · rw [same]
        refine ⟨size,fun outputCol field column there found => ?_⟩
        have differ : column ≠ inputCol := by
          rintro rfl
          rw [outputCol_of_found distinct there found] at none
          cases none
        dsimp only
        rw [further column differ]
        exact columns outputCol field column there found
      · rw [same]
        refine ⟨(List.length_modify ..).trans size,fun outputCol field column there found => ?_⟩
        obtain ⟨old,was,converted⟩ := columns outputCol field column there found
        by_cases own : outputCol = filledCol
        · subst own
          obtain rfl := inputCol_of_outputCol there found target
          dsimp only at converted ⊢
          rw [if_neg (Nat.lt_irrefl _)] at converted
          rw [if_pos (Nat.lt_succ_self _),List.getElem?_modify_eq,was]
          rw [there] at read
          exact ⟨old ++ values,rfl,List.rel_append converted read⟩
        · have differ : column ≠ inputCol := by
            rintro rfl
            rw [outputCol_of_found distinct there found] at target
            exact own (Option.some.inj target)
          dsimp only
          rw [further column differ,List.getElem?_modify_ne _ _ (Ne.symm own)]
          exact ⟨old,was,converted⟩

theorem Chunk.dump_built (distinct : (parser.outputSchema.map Field.name).Nodup) {before : List (List (List UInt8))}
    (built : Built parser convert (fun _ => before) arrayBuilders) :
    dumpToArrayBuilderColumnWise parser convert (chunkBytes parser firstCells lastCells lines)
        (chunkIndexes parser firstCells lastCells lines) startEndOffsets arrayBuilders ≠ .error .outside ∧
    ∀ after, dumpToArrayBuilderColumnWise parser convert (chunkBytes parser firstCells lastCells lines)
        (chunkIndexes parser firstCells lastCells lines) startEndOffsets arrayBuilders = .ok after →
      Built parser convert (fun _ => before ++ rows parser lines) after := by
  obtain ⟨safe,filled⟩ := chunk.foldlM_built unquoted distinct built (Nat.le_refl _)
  unfold dumpToArrayBuilderColumnWise
  rw [chunk.div,if_neg (by omega)]
  refine ⟨safe,fun after done => ?_⟩
  obtain ⟨size,columns⟩ := filled after done
  refine ⟨size,fun outputCol field column there found => ?_⟩
  have inside : column < parser.inputNumColumns := getFieldIndex_lt found
  have all := columns outputCol field column there found
  dsimp only at all
  rwa [if_pos inside] at all

end Dump

-- the schemas fit together, and no column has quotes to leave out
variable (parser) in
def Ready (startEndOffsets : List Nat) : Prop :=
  (∀ offset ∈ startEndOffsets, offset = 1) ∧ ∀ field ∈ parser.outputSchema, ∃ inputCol,
    getFieldIndex parser.inputSchema field.name = some inputCol

section Parse
variable (chunk : Chunk parser firstCells lastCells lines)
    (plain : quote ∉ chunkBytes parser firstCells lastCells lines)
include chunk plain

theorem Chunk.initialize (fields : List Field) :
    initializeDataStructures parser (chunkBytes parser firstCells lastCells lines)
    (chunkIndexes parser firstCells lastCells lines) fields ≠
        .error .outside ∧
    ∀ startEndOffsets, initializeDataStructures parser (chunkBytes parser firstCells lastCells lines)
        (chunkIndexes parser firstCells lastCells lines) fields = .ok startEndOffsets →
      (∀ offset ∈ startEndOffsets, offset = 1) ∧
      ∀ field ∈ fields, ∃ inputCol, getFieldIndex parser.inputSchema field.name = some inputCol := by
  induction fields with
  | nil =>
    rw [initializeDataStructures]
    refine ⟨?_,fun startEndOffsets same => ?_⟩
    · intro wrong
      cases wrong
    · rw [← Except.ok.inj same]
      exact ⟨List.forall_mem_nil _,List.forall_mem_nil _⟩
  | cons field fields ih =>
    rw [initializeDataStructures]
    split
    next =>
      refine ⟨?_,fun startEndOffsets wrong => ?_⟩
      · intro wrong
        cases wrong
      · cases wrong
    next inputCol found =>
      split
      next =>
        refine ⟨?_,fun startEndOffsets wrong => ?_⟩
        · intro wrong
          cases wrong
        · cases wrong
      next =>
        have inside : inputCol < parser.inputNumColumns := getFieldIndex_lt found
        have many : parser.inputNumColumns - 1 + inputCol < (chunkIndexes parser firstCells lastCells lines).length := by
          have twice : parser.inputNumColumns*2 ≤ parser.inputNumColumns*(lines.length+2) :=
              Nat.mul_le_mul_left _ (Nat.le_add_left 2 _)
          rw [chunk.count]
          omega
        rw [List.getElem?_eq_getElem many]
        dsimp only
        obtain ⟨safe,later⟩ := ih
        have unquoted : ∀ place, (chunkBytes parser firstCells lastCells lines)[place]? ≠ some quote :=
          fun place there => plain (List.mem_of_getElem? there)
        rw [if_neg (unquoted _)]
        split
        next stop failed =>
          refine ⟨?_,fun startEndOffsets wrong => ?_⟩
          · rwa [failed] at safe
          · cases wrong
        next startEndOffsets done =>
          obtain ⟨ones,others⟩ := later startEndOffsets done
          refine ⟨?_,fun all same => ?_⟩
          · intro wrong
            cases wrong
          · rw [← Except.ok.inj same]
            exact ⟨List.forall_mem_cons.mpr ⟨rfl,ones⟩,List.forall_mem_cons.mpr ⟨⟨inputCol,found⟩,others⟩⟩

omit chunk plain in
theorem getD_of_ready {startEndOffsets : List Nat} (ready : Ready parser startEndOffsets) (outputCol : Nat) :
    startEndOffsets.getD outputCol 1 = 1 := by
  rw [List.getD_eq_getElem?_getD]
  cases there : startEndOffsets[outputCol]? with
  | none => rfl
  | some offset => exact ready.1 offset (List.mem_of_getElem? there)

theorem Chunk.parseBuffer (zero : parser.csvFileDelimiter ≠ 0) (distinct : (parser.outputSchema.map Field.name).Nodup)
    (narrow : (chunkBytes parser firstCells lastCells lines).length + 64 ≤ 4294967296)
    (haveRoom : HaveRoom (parser.bufferCapacity/4) parser.csvFileDelimiter (chunkBytes parser firstCells lastCells lines ++ List.replicate 64 0)
      (((chunkBytes parser firstCells lastCells lines).length + 63)/64))
    {initialized : Option (List Nat)}
    (known : ∀ startEndOffsets, initialized = some startEndOffsets → Ready parser startEndOffsets)
    {before : List (List (List UInt8))} (built : Built parser convert (fun _ => before) arrayBuilders) :
    parseBuffer parser convert (chunkBytes parser firstCells lastCells lines) initialized arrayBuilders ≠ .error .outside ∧
    ∀ startEndOffsets after, parseBuffer parser convert (chunkBytes parser firstCells lastCells lines) initialized arrayBuilders =
        .ok (startEndOffsets,after) →
      Ready parser startEndOffsets ∧ Built parser convert (fun _ => before ++ rows parser lines) after := by
  have indexes : parser.parsedIndexes (chunkBytes parser firstCells lastCells lines) =
      .ok (chunkIndexes parser firstCells lastCells lines) :=
    parsedIndexes_eq plain zero narrow haveRoom
  have offsets : CSVToArrowSIMDStreamParser.startEndOffsets parser (chunkBytes parser firstCells lastCells lines)
        (chunkIndexes parser firstCells lastCells lines) initialized ≠ .error .outside ∧
      ∀ startEndOffsets, CSVToArrowSIMDStreamParser.startEndOffsets parser
        (chunkBytes parser firstCells lastCells lines)
        (chunkIndexes parser firstCells lastCells lines) initialized = .ok startEndOffsets →
          Ready parser startEndOffsets := by
    cases initialized with
    | none => exact chunk.initialize plain parser.outputSchema
    | some startEndOffsets =>
      refine ⟨?_,fun same equal => ?_⟩
      · intro wrong
        cases wrong
      · rw [← Except.ok.inj equal]
        exact known startEndOffsets rfl
  unfold CSVToArrowSIMDStreamParser.parseBuffer
  rw [indexes]
  refine ⟨?_,fun startEndOffsets after done => ?_⟩
  · apply bind_ne_error offsets.1
    intro startEndOffsets same
    obtain ⟨safe,_⟩ := chunk.dump_built (getD_of_ready (offsets.2 startEndOffsets same)) distinct built
    apply bind_ne_error safe
    intro after _ wrong
    cases wrong
  · obtain ⟨_,scanned,rest⟩ := bind_eq_ok.mp done
    obtain rfl := Except.ok.inj scanned
    obtain ⟨found,same,later⟩ := bind_eq_ok.mp rest
    obtain ⟨columns,dumped,result⟩ := bind_eq_ok.mp later
    obtain ⟨rfl,rfl⟩ := Prod.mk.inj (Except.ok.inj result)
    have ready := offsets.2 found same
    obtain ⟨_,filled⟩ := chunk.dump_built (getD_of_ready ready) distinct built
    exact ⟨ready,filled columns dumped⟩

end Parse
end Columns
end CSVToArrowSIMDStreamParser
end Hermes.Csv
