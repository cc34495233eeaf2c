import Hermes.SIMDLoading

/-! What `constructTupleSet` gives for a whole file: the rows of its lines, unless an exception is thrown. A line
that is as long as a chunk keeps the loop in one state. -/
namespace Hermes.Csv.CSVToArrowSIMDStreamParser
open Tuples SIMDParserHelpers Library.Lines

variable {parser : CSVToArrowSIMDStreamParser} {ν : Type} {convert : DataType → List UInt8 → Except String ν}

def rowLines (discardHeader : Bool) (content : List UInt8) : List (List UInt8) :=
  if discardHeader then (fileLines content).tail else fileLines content

variable (parser convert) in
/-- An exception, or a table of these rows; where there is no row it may be without columns. -/
def Gives (lines : List (List UInt8)) (result : Except Stop (ColumnTable ν)) : Prop :=
  result ≠ .error .outside ∧ ∀ table, result = .ok table → (table = ⟨[],[]⟩ ∧ lines = []) ∨
    (table.fields = parser.outputSchema ∧ Built parser convert (fun _ => rows parser lines) table.columns ∧
      ∀ field ∈ parser.outputSchema, ∃ inputCol, getFieldIndex parser.inputSchema field.name = some inputCol)

theorem parseAll_more {turns : Nat} {loader : Loader} {initialized : Option (List Nat)} {arrayBuilders : List (List ν)}
    {parsed : Except Stop (List (List ν))}
    (done : parseAll parser convert turns loader initialized arrayBuilders = some parsed) :
    ∀ more, turns ≤ more → parseAll parser convert more loader initialized arrayBuilders = some parsed := by
  induction turns generalizing loader initialized arrayBuilders with
  | zero => cases done
  | succ turns ih =>
    intro more less
    obtain ⟨more,rfl⟩ := Nat.exists_eq_add_of_le' less
    rw [← Nat.add_assoc]
    rw [parseAll] at done ⊢
    cases turn : parser.parseBuffer convert loader.buffer initialized arrayBuilders with
    | error stop => rwa [turn] at done
    | ok result =>
      obtain ⟨startEndOffsets,after⟩ := result
      rw [turn] at done
      dsimp only at done ⊢
      cases load : parser.loadBuffer loader with
      | error stop => rwa [load] at done
      | ok loaded =>
        obtain ⟨loaded,loader⟩ := loaded
        rw [load] at done
        dsimp only at done ⊢
        by_cases none : loaded = 0
        · rwa [if_pos none] at done ⊢
        · rw [if_neg none] at done ⊢
          exact ih done _ (Nat.le_add_left _ _)

theorem built_nil : Built parser convert (fun _ => []) (List.replicate parser.outputSchema.length []) := by
  refine ⟨List.length_replicate,fun outputCol field inputCol there found => ⟨[],?_,.nil⟩⟩
  obtain ⟨bound,_⟩ := List.getElem?_eq_some_iff.mp there
  rw [List.getElem?_replicate,if_pos bound]

theorem loadBuffer_long {partialLine buffer file line behind : List UInt8}
    (few : partialLine.length ≤ parser.parseChunkSize)
    (whole : partialLine ++ file = line ++ behind) (long : line.length = parser.parseChunkSize)
    (inner : newline ∉ line) (columns : 0 < parser.inputNumColumns)
    (bounded : (parser.dummyRow ++ line).length + 64 < parser.bufferCapacity)
    (space : (parser.dummyRow ++ parser.dummyRow).length + 64 ≤ parser.bufferCapacity) :
    parser.loadBuffer ⟨false,partialLine,buffer,file⟩ =
      .ok (parser.parseChunkSize,⟨false,line,parser.dummyRow ++ parser.dummyRow,behind⟩) := by
  have taken : (partialLine ++ file).take parser.parseChunkSize = line := by
    rw [whole,← long,List.take_left]
  have dropped : (partialLine ++ file).drop parser.parseChunkSize = behind := by
    rw [whole,← long,List.drop_left]
  have full : ¬(partialLine ++ file).length < parser.parseChunkSize := by
    rw [whole,← long,List.length_append]
    exact Nat.not_lt.mpr (Nat.le_add_right _ _)
  obtain ⟨front,ends⟩ := List.getLast?_eq_some_iff.mp (dummyRow_getLast? columns)
  have clipped : clip false (parser.dummyRow ++ line) = .ok (parser.dummyRow,line) := by
    rw [ends]
    exact clip_full inner
  have load := @loadBuffer_eq parser false partialLine buffer file _ _ few (by rwa [taken])
    (by rw [taken,decide_eq_false full]; exact clipped) space
  rwa [taken,dropped,long] at load

theorem parseAll_stuck {loader : Loader} {loaded : Nat} {startEndOffsets : List Nat} {arrayBuilders : List (List ν)}
    (turn : parser.parseBuffer convert loader.buffer (some startEndOffsets) arrayBuilders = .ok (startEndOffsets,arrayBuilders))
    (load : parser.loadBuffer loader = .ok (loaded,loader)) (more : loaded ≠ 0) (turns : Nat) :
    parseAll parser convert turns loader (some startEndOffsets) arrayBuilders = none := by
  induction turns with
  | zero => rfl
  | succ turns ih =>
    rw [parseAll,turn]
    dsimp only
    rw [load]
    exact (if_neg more).trans ih

theorem header_of_nothing (turns : Nat) : constructTupleSet parser convert true turns [] = some (.error .outside) := by
  have room : 64 < parser.bufferCapacity := by
    unfold bufferCapacity
    omega
  have load : parser.loadBuffer ⟨true,[],[],[]⟩ = .error .outside := by
    unfold loadBuffer
    dsimp only [firstRow]
    rw [List.take_nil,if_pos rfl,List.append_nil,List.append_nil,List.length_nil,if_neg (Nat.not_lt_zero _),
      if_neg (by omega)]
    rfl
  unfold constructTupleSet
  rw [load]

/-- Two columns of text, of which the second is kept, in chunks of 8 bytes. -/
def narrowParser : CSVToArrowSIMDStreamParser := ⟨8,[⟨"a",.string⟩,⟨"b",.string⟩],[⟨"b",.string⟩],44⟩

def text (_ : DataType) (bytes : List UInt8) : Except String (List UInt8) := .ok bytes

end Hermes.Csv.CSVToArrowSIMDStreamParser
