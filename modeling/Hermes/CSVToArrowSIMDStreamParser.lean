import Hermes.CSVParser
import Hermes.Library.Cells
import Mathlib.Data.List.DropRight

/-! `CSVToArrowSIMDStreamParser` and `find_indexes`: the file is loaded in chunks between two dummy rows, and
the fields of a chunk are found from the places of all separators in the buffer. -/
namespace Hermes.Csv
open Tuples

/-- Why there is no table: an exception, or memory outside of what is allocated is read or written. -/
inductive Stop where
  | exception (message : String)
  | outside
deriving DecidableEq

namespace SIMDParserHelpers

def quote : UInt8 := 34

-- whether a byte is inside of quotes takes in the byte itself; the places have 32 bits
def fieldBits (delimiter : UInt8) : Bool → Nat → List UInt8 → List Nat × Bool
  | insideQuote,_,[] => ([],insideQuote)
  | insideQuote,idx,byte::bytes =>
    let insideQuote := xor insideQuote (byte == quote)
    let rest := fieldBits delimiter insideQuote (idx+1) bytes
    (if (byte = delimiter ∨ byte = newline) ∧ insideQuote = false then (idx%4294967296)::rest.1 else rest.1,rest.2)

/-- The number of entries that `flatten_bits` writes for so many bits. -/
def written (cnt : Nat) : Nat := if cnt = 0 then 0 else if cnt ≤ 8 then 8 else if cnt ≤ 16 then 16 else cnt

/-- The blocks of 64 bytes one after the other, into an array of `room` entries, whose number is taken to stay below `2^32`. -/
def findIndexes (room : Nat) (delimiter : UInt8) : Nat → Bool → Nat → List UInt8 → List Nat → Except Stop (List Nat)
  | 0,_,_,_,indexes => .ok indexes
  | blocks+1,insideQuote,idx,bytes,indexes =>
    let bits := fieldBits delimiter insideQuote idx (bytes.take 64)
    if room < indexes.length + written bits.1.length then .error .outside
    else findIndexes room delimiter blocks bits.2 (idx+64) (bytes.drop 64) (indexes ++ bits.1)

end SIMDParserHelpers

open SIMDParserHelpers

structure CSVToArrowSIMDStreamParser where
  parseChunkSize : Nat
  inputSchema : List Field
  outputSchema : List Field
  csvFileDelimiter : UInt8

/-- What changes from load to load; `buffer` are the bytes that are utilized. -/
structure Loader where
  discardHeader : Bool
  partialLine : List UInt8
  buffer : List UInt8
  file : List UInt8

structure ColumnTable (ν : Type) where
  fields : List Field
  columns : List (List ν)

namespace CSVToArrowSIMDStreamParser
variable (parser : CSVToArrowSIMDStreamParser) {ν : Type}

def inputNumColumns : Nat := parser.inputSchema.length

/-- A multiple of 64, which is taken to stay below `2^64`. -/
def bufferCapacity : Nat := parser.parseChunkSize + 256 + (64 - (parser.parseChunkSize + 256) % 64)

-- `ceil(64 / inputNumColumns)`
def dummyColWidth : Nat := (64 + parser.inputNumColumns - 1)/parser.inputNumColumns

def dummyCells : List (List UInt8 × UInt8) := (List.range parser.inputNumColumns).map fun i =>
  (List.replicate (parser.dummyColWidth - 1) 49,if i = parser.inputNumColumns - 1 then newline else parser.csvFileDelimiter)

/-- `add64ByteDummyRowToBuffer`. -/
def dummyRow : List UInt8 := Library.Cells.encode parser.dummyCells

def firstRow (discardHeader : Bool) : List UInt8 := if discardHeader then [] else parser.dummyRow

def notNewline (byte : UInt8) : Bool := byte != newline

/-- The bytes that stay in the buffer, and those of a last line that is not ended. Without any newline the index runs below zero. -/
def clip (short : Bool) (filled : List UInt8) : Except Stop (List UInt8 × List UInt8) :=
  match filled.getLast? with
  | none => .error .outside
  | some last =>
    if short ∧ last ≠ newline then .ok (filled ++ [newline],[])
    else if last ≠ newline then
      if newline ∈ filled then .ok (filled.rdropWhile notNewline,filled.rtakeWhile notNewline) else .error .outside
    else .ok (filled,[])

def loadBuffer (loader : Loader) : Except Stop (Nat × Loader) :=
  let partialBytes := loader.partialLine.length
  let readSize := parser.parseChunkSize - partialBytes
  let read := loader.file.take readSize
  let filled := parser.firstRow loader.discardHeader ++ loader.partialLine ++ read
  if parser.bufferCapacity < filled.length then .error .outside
  else if parser.bufferCapacity ≤ filled.length + 64 then
    .error (.exception "Error, failed to read entire input stream, inputSize of %lu was too small")
  else
    match clip (read.length < readSize) filled with
    | .error stop => .error stop
    | .ok (kept,partialLine) =>
      let buffer := kept ++ parser.dummyRow
      let bytesToZero := if 64 < parser.bufferCapacity - buffer.length + 1 then 64 else parser.bufferCapacity - buffer.length + 1
      if parser.bufferCapacity < buffer.length + bytesToZero then .error .outside
      else .ok (read.length + partialBytes,⟨false,partialLine,buffer,loader.file.drop readSize⟩)

/-- `find_indexes` on the buffer, behind which 64 bytes are zero, with an index array of as many bytes as the buffer has. -/
def parsedIndexes (buffer : List UInt8) : Except Stop (List Nat) :=
  findIndexes (parser.bufferCapacity/4) parser.csvFileDelimiter ((buffer.length + 63)/64) false 0
    (buffer ++ List.replicate 64 0) []

def supported : DataType → Bool
  | .int32 | .string | .int64 | .boolean | .double | .date64 => true
  | _ => false

/-- One more byte is left out at each end of a column whose first field is quoted. -/
def initializeDataStructures (buffer : List UInt8) (indexes : List Nat) : List Field → Except Stop (List Nat)
  | [] => .ok []
  | field::fields =>
    match getFieldIndex parser.inputSchema field.name with
    | none => .error (.exception "Error, column %s missing from input schema but in output schema")
    | some inputCol =>
      if supported field.type = false then .error (.exception
        ("Error, arrow type not supported for SIMD processing yet for col: " ++ field.name ++ ", type: " ++
          typeName field.type))
      else
        match indexes[parser.inputNumColumns - 1 + inputCol]? with
        | none => .error .outside
        | some place =>
          match initializeDataStructures buffer indexes fields with
          | .error stop => .error stop
          | .ok startEndOffsets => .ok ((if buffer[place+1]? = some quote then 2 else 1)::startEndOffsets)

def startEndOffsets (buffer : List UInt8) (indexes : List Nat) : Option (List Nat) → Except Stop (List Nat)
  | some startEndOffsets => .ok startEndOffsets
  | none => parser.initializeDataStructures buffer indexes parser.outputSchema

/-- The text between two separators. The assertion that it is not empty is not part of a release build. -/
def fieldText (buffer : List UInt8) (indexes : List Nat) (startEndOffset pcsvIndex : Nat) : Except Stop (List UInt8) :=
  match indexes[pcsvIndex]?,indexes[pcsvIndex+1]? with
  | some first,some next =>
    if next + 1 < first + 2*startEndOffset then .error (.exception "basic_string::_M_create")
    else .ok ((buffer.drop (first + startEndOffset)).take (next + 1 - first - 2*startEndOffset))
  | _,_ => .error .outside

section
-- what is appended to the builder of a type for a text
variable (convert : DataType → List UInt8 → Except String ν)

def appendValue (type : DataType) (str : List UInt8) : Except Stop ν := (convert type str).mapError .exception

/-- One input column into the builder of its output column, if it has one. -/
def dumpColumn (buffer : List UInt8) (indexes startEndOffsets : List Nat) (arrayBuilders : List (List ν))
    (inputCol : Nat) :
    Except Stop (List (List ν)) :=
  match parser.inputSchema[inputCol]?.bind fun field => getFieldIndex parser.outputSchema field.name with
  | none => .ok arrayBuilders
  | some outputCol => do
    let rows := indexes.length/parser.inputNumColumns - 2
    let values ← (List.range rows).mapM fun row => do
      let str ← fieldText buffer indexes (startEndOffsets.getD outputCol 1)
        (parser.inputNumColumns - 1 + inputCol + row*parser.inputNumColumns)
      appendValue convert ((parser.outputSchema[outputCol]?.map Field.type).getD .string) str
    .ok (arrayBuilders.modify outputCol (· ++ values))

/-- With fewer separators than two rows have the number of rows wraps around. -/
def dumpToArrayBuilderColumnWise (buffer : List UInt8) (indexes startEndOffsets : List Nat)
    (arrayBuilders : List (List ν)) :
    Except Stop (List (List ν)) :=
  if indexes.length/parser.inputNumColumns < 2 then .error .outside
  else (List.range parser.inputNumColumns).foldlM (dumpColumn parser convert buffer indexes startEndOffsets) arrayBuilders

/-- The body of the loop. -/
def parseBuffer (buffer : List UInt8) (initialized : Option (List Nat)) (arrayBuilders : List (List ν)) :
    Except Stop (List Nat × List (List ν)) := do
  let indexes ← parser.parsedIndexes buffer
  let startEndOffsets ← parser.startEndOffsets buffer indexes initialized
  let arrayBuilders ← parser.dumpToArrayBuilderColumnWise convert buffer indexes startEndOffsets arrayBuilders
  .ok (startEndOffsets,arrayBuilders)

/-- The loop, if it ends within some turns. -/
def parseAll : Nat → Loader → Option (List Nat) → List (List ν) → Option (Except Stop (List (List ν)))
  | 0,_,_,_ => none
  | turns+1,loader,initialized,arrayBuilders =>
    match parser.parseBuffer convert loader.buffer initialized arrayBuilders with
    | .error stop => some (.error stop)
    | .ok (startEndOffsets,arrayBuilders) =>
      match parser.loadBuffer loader with
      | .error stop => some (.error stop)
      | .ok (loaded,loader) =>
        if loaded = 0 then some (.ok arrayBuilders) else parseAll turns loader (some startEndOffsets) arrayBuilders

/-- An empty file gives a table without columns. -/
def constructTupleSet (discardHeader : Bool) (turns : Nat) (file : List UInt8) : Option (Except Stop (ColumnTable ν)) :=
  match parser.loadBuffer ⟨discardHeader,[],[],file⟩ with
  | .error stop => some (.error stop)
  | .ok (loaded,loader) =>
    if loaded = 0 then some (.ok ⟨[],[]⟩)
    else (parser.parseAll convert turns loader none (List.replicate parser.outputSchema.length [])).map fun parsed =>
      parsed.map fun columns => ⟨parser.outputSchema,columns⟩

end
end CSVToArrowSIMDStreamParser
end Hermes.Csv
