import Hermes.SIMDFile

/-! `CSVToArrowSIMDChunkParser`: a chunk comes into the buffer piece by piece, each piece behind the partial line of the
one before, and is parsed up to the last newline in the buffer. -/
namespace Hermes.Csv
open Tuples SIMDParserHelpers Library.Lines Library.Fallible
variable {ν : Type}

/-- The members that stay are those of the stream parser, and a buffer is parsed by the same code. -/
abbrev CSVToArrowSIMDChunkParser := CSVToArrowSIMDStreamParser

structure ChunkState (ν : Type) where
  partialLine : List UInt8
  startEndOffsets : Option (List Nat)
  arrayBuilders : List (List ν)
deriving DecidableEq

inductive ChunkSource where
  | data
  | stream
deriving DecidableEq

/-- A call of one of the two overloads of `parseChunk`. -/
structure ChunkCall where
  source : ChunkSource
  bytes : List UInt8

namespace CSVToArrowSIMDChunkParser
open CSVToArrowSIMDStreamParser
variable (parser : CSVToArrowSIMDChunkParser)

def initialState : ChunkState ν := ⟨[],none,List.replicate parser.outputSchema.length []⟩

def initializeBufferForLoad (partialLine : List UInt8) : Except Stop (List UInt8 × Nat) :=
  if parser.bufferCapacity < (parser.dummyRow ++ partialLine).length then .error .outside
  else .ok (parser.dummyRow ++ partialLine,parser.parseChunkSize - partialLine.length)

def fillBuffer (buffer : List UInt8) (copySize : Nat) (remaining : List UInt8) :
    Except Stop (List UInt8 × List UInt8) :=
  if parser.bufferCapacity < (buffer ++ remaining.take copySize).length then .error .outside
  else .ok (buffer ++ remaining.take copySize,remaining.drop copySize)

/-- The buffer that is parsed, and the partial line. -/
def finishPreparingBufferEnd (lastLine : Bool) (buffer : List UInt8) : Except Stop (List UInt8 × List UInt8) :=
  match clip lastLine buffer with
  | .error stop => .error stop
  | .ok (kept,partialLine) =>
    let buffer := kept ++ parser.dummyRow
    let bytesToZero := if 64 < parser.bufferCapacity - buffer.length + 1 then 64 else parser.bufferCapacity - buffer.length + 1
    if parser.bufferCapacity < buffer.length + bytesToZero then .error .outside else .ok (buffer,partialLine)

def load (partialLine remaining : List UInt8) : Except Stop (List UInt8 × List UInt8) := do
  let (buffer,sizeToCopy) ← initializeBufferForLoad parser partialLine
  fillBuffer parser buffer sizeToCopy remaining

section
variable (convert : DataType → List UInt8 → Except String ν)

def parseAndReadInData (state : ChunkState ν) (buffer : List UInt8) : Except Stop (ChunkState ν) := do
  let (startEndOffsets,arrayBuilders) ← parser.parseBuffer convert buffer state.startEndOffsets state.arrayBuilders
  .ok {state with startEndOffsets := some startEndOffsets,arrayBuilders := arrayBuilders}

def parseFilled (state : ChunkState ν) (lastLine : Bool) (filled : List UInt8) : Except Stop (ChunkState ν) := do
  let (buffer,partialLine) ← finishPreparingBufferEnd parser lastLine filled
  parseAndReadInData parser convert {state with partialLine := partialLine} buffer

/-- A turn of the loop, with the bytes that remain, or its end: memory is looked at before the load, a stream by what the load reads. -/
def turn (source : ChunkSource) (state : ChunkState ν) (remaining : List UInt8) :
    Except Stop (Option (ChunkState ν × List UInt8)) :=
  if source = .data ∧ remaining = [] then .ok none
  else do
    let (filled,behind) ← load parser state.partialLine remaining
    if source = .stream ∧ behind.length = remaining.length then .ok none
    else do
      let state ← parseFilled parser convert state false filled
      .ok (some (state,behind))

/-- The state and what has not been read, if the loop ends within some turns. -/
def parseLoop (source : ChunkSource) : Nat → ChunkState ν → List UInt8 →
    Option (Except Stop (ChunkState ν × List UInt8))
  | 0,_,_ => none
  | turns+1,state,remaining =>
    match turn parser convert source state remaining with
    | .error stop => some (.error stop)
    | .ok none => some (.ok (state,remaining))
    | .ok (some (state,behind)) => parseLoop source turns state behind

def parseChunk (turns : Nat) (state : ChunkState ν) (call : ChunkCall) :
    Option (Except Stop (ChunkState ν × List UInt8)) :=
  parseLoop parser convert call.source turns state call.bytes

/-- What is left as partial line is loaded alone and ended. -/
def readPartialData (state : ChunkState ν) : Except Stop (ChunkState ν) :=
  if state.partialLine = [] then .ok state
  else do
    let (filled,_) ← load parser state.partialLine []
    parseFilled parser convert state true filled

def outputCompletedTupleSet (state : ChunkState ν) : Except Stop (ColumnTable ν) := do
  let state ← readPartialData parser convert state
  .ok (if state.startEndOffsets.isNone then ⟨[],[]⟩ else ⟨parser.outputSchema,state.arrayBuilders⟩)

end

abbrev Columns (ν : Type) := Option (List Nat) × List (List ν)

def Unfinished (partialLine : List UInt8) : Prop := newline ∉ partialLine ∧ partialLine.length ≤ parser.parseChunkSize

def WholeLines (body : List UInt8) : Prop := Closed newline body ∧ body.length ≤ parser.parseChunkSize

def bufferOf (body : List UInt8) : List UInt8 := parser.dummyRow ++ body ++ parser.dummyRow

section
variable (convert : DataType → List UInt8 → Except String ν)

def parseLines (columns : Columns ν) (body : List UInt8) : Except Stop (Columns ν) :=
  (parser.parseBuffer convert (bufferOf parser body) columns.1 columns.2).map fun parsed => (some parsed.1,parsed.2)

/-- From one state to another some bodies of whole lines are parsed, the rest of the bytes is the partial line and what is not read. -/
def Reads (state : ChunkState ν) (bytes : List UInt8) (after : ChunkState ν) (remaining : List UInt8) : Prop :=
  ∃ bodies : List (List UInt8), (∀ body ∈ bodies, WholeLines parser body) ∧
    bodies.foldlM (parseLines parser convert) (state.startEndOffsets,state.arrayBuilders) =
      .ok (after.startEndOffsets,after.arrayBuilders) ∧
    bodies.flatten ++ after.partialLine ++ remaining = state.partialLine ++ bytes

end

section Turns
variable {parser} {convert : DataType → List UInt8 → Except String ν} {source : ChunkSource}
    {state after : ChunkState ν}
  {remaining behind : List UInt8}

theorem clip_dummyRow {filled kept partialLine : List UInt8}
    (clipped : clip false (parser.dummyRow ++ filled) = .ok (kept,partialLine)) :
    kept = parser.dummyRow ++ filled.rdropWhile (· != newline) ∧ partialLine = filled.rtakeWhile (· != newline) := by
  have parts : filled.rdropWhile (· != newline) ++ filled.rtakeWhile (· != newline) = filled :=
      List.rdropWhile_append_rtakeWhile
  have missing : newline ∉ filled.rtakeWhile (· != newline) := not_mem_rtakeWhile
  have closed : Closed newline (parser.dummyRow ++ filled.rdropWhile (· != newline)) := by
    obtain none | last := @closed_rdropWhile _ _ newline filled
    · rw [none,List.append_nil]
      exact dummyRow_ends
    · right
      rw [List.getLast?_append,last,Option.some_or]
  obtain none | last := closed
  · -- without any newline the cut does not end
    have whole : parser.dummyRow ++ filled = filled.rtakeWhile (· != newline) := by
      rw [← parts,← List.append_assoc,none,List.nil_append,parts]
    rw [whole] at clipped
    unfold clip at clipped
    split at clipped
    next => cases clipped
    next last found =>
      have differs : last ≠ newline := by
        rintro rfl
        exact missing (List.mem_of_getLast? found)
      rw [if_neg (fun both => Bool.false_ne_true both.1),if_pos differs,if_neg missing] at clipped
      cases clipped
  · obtain ⟨front,ends⟩ := List.getLast?_eq_some_iff.mp last
    have whole : parser.dummyRow ++ filled = front ++ [newline] ++ filled.rtakeWhile (· != newline) := by
      rw [← ends,List.append_assoc,parts]
    rw [whole,clip_full missing] at clipped
    rw [ends]
    exact (Prod.mk.inj (Except.ok.inj clipped)).imp Eq.symm Eq.symm

theorem load_eq_ok {partialLine filled : List UInt8}
    (loaded : load parser partialLine remaining = .ok (filled,behind)) :
    filled = parser.dummyRow ++ (partialLine ++ remaining.take (parser.parseChunkSize - partialLine.length)) ∧
      behind = remaining.drop (parser.parseChunkSize - partialLine.length) := by
  obtain ⟨⟨buffer,sizeToCopy⟩,initialized,copied⟩ := bind_eq_ok.mp loaded
  obtain ⟨rfl,rfl⟩ := Prod.mk.inj (ok_of_check initialized)
  obtain ⟨rfl,rfl⟩ := Prod.mk.inj (ok_of_check copied)
  exact ⟨List.append_assoc ..,rfl⟩

theorem finishPreparingBufferEnd_eq_ok {filled buffer partialLine : List UInt8}
    (finished : finishPreparingBufferEnd parser false (parser.dummyRow ++ filled) = .ok (buffer,partialLine)) :
    buffer = bufferOf parser (filled.rdropWhile (· != newline)) ∧ partialLine = filled.rtakeWhile (· != newline) := by
  unfold finishPreparingBufferEnd at finished
  split at finished
  next => cases finished
  next kept rest clipped =>
    obtain ⟨rfl,rfl⟩ := clip_dummyRow clipped
    exact (Prod.mk.inj (ok_of_check finished)).imp Eq.symm Eq.symm

theorem parseFilled_reads {filled : List UInt8} (few : filled.length ≤ parser.parseChunkSize)
    (parsed : parseFilled parser convert state false (parser.dummyRow ++ filled) = .ok after) :
    Unfinished parser after.partialLine ∧
      ∃ body, WholeLines parser body ∧
        parseLines parser convert (state.startEndOffsets,state.arrayBuilders) body =
        .ok (after.startEndOffsets,after.arrayBuilders) ∧
        body ++ after.partialLine = filled := by
  have parts : filled.rdropWhile (· != newline) ++ filled.rtakeWhile (· != newline) = filled :=
      List.rdropWhile_append_rtakeWhile
  have sizes := congrArg List.length parts
  rw [List.length_append] at sizes
  obtain ⟨⟨buffer,partialLine⟩,finished,rest⟩ := bind_eq_ok.mp parsed
  obtain ⟨rfl,rfl⟩ := finishPreparingBufferEnd_eq_ok finished
  obtain ⟨⟨startEndOffsets,arrayBuilders⟩,lines,result⟩ := bind_eq_ok.mp rest
  obtain rfl := Except.ok.inj result
  refine ⟨⟨not_mem_rtakeWhile,by dsimp only; omega⟩,_,⟨closed_rdropWhile filled,by omega⟩,?_,parts⟩
  dsimp only at lines
  rw [parseLines,lines]
  rfl

theorem outputCompletedTupleSet_reads (left : state.partialLine ≠ []) (unfinished : Unfinished parser state.partialLine)
    {table : ColumnTable ν} (completed : outputCompletedTupleSet parser convert state = .ok table) :
    ∃ columns, parseLines parser convert (state.startEndOffsets,state.arrayBuilders)
    (state.partialLine ++ [newline]) = .ok columns ∧
      table = ⟨parser.outputSchema,columns.2⟩ := by
  obtain ⟨next,done,result⟩ := bind_eq_ok.mp completed
  rw [readPartialData,if_neg left] at done
  obtain ⟨⟨filled,behind⟩,loaded,parsed⟩ := bind_eq_ok.mp done
  obtain ⟨rfl,-⟩ := load_eq_ok loaded
  obtain ⟨⟨buffer,partialLine⟩,finished,rest⟩ := bind_eq_ok.mp parsed
  have last : ¬(state.partialLine = [] ∨ state.partialLine.getLast? = some newline) :=
    not_or.mpr ⟨left,fun ends => unfinished.1 (List.mem_of_getLast? ends)⟩
  have clipped : clip true (parser.dummyRow ++ state.partialLine) =
      .ok (parser.dummyRow ++ (state.partialLine ++ [newline]),[]) := by
    rw [clip_short dummyRow_ends (List.append_ne_nil_of_right_ne_nil _ left),closed,if_neg last]
  rw [List.take_nil,List.append_nil,finishPreparingBufferEnd,clipped] at finished
  obtain ⟨rfl,rfl⟩ := Prod.mk.inj (ok_of_check finished)
  obtain ⟨⟨startEndOffsets,arrayBuilders⟩,lines,same⟩ := bind_eq_ok.mp rest
  obtain rfl := Except.ok.inj same
  dsimp only at lines result
  refine ⟨(some startEndOffsets,arrayBuilders),?_,(Except.ok.inj result).symm⟩
  rw [parseLines,bufferOf,lines]
  rfl

theorem turn_none (returned : turn parser convert source state remaining = .ok none) :
    remaining = [] ∨ parser.parseChunkSize ≤ state.partialLine.length := by
  unfold turn at returned
  split at returned
  next both => exact .inl both.2
  next =>
    obtain ⟨⟨filled,behind⟩,loaded,rest⟩ := bind_eq_ok.mp returned
    dsimp only at rest
    split at rest
    next both =>
      have same := both.2
      rw [(load_eq_ok loaded).2,List.length_drop] at same
      rw [← List.length_eq_zero_iff]
      omega
    next =>
      obtain ⟨after,_,wrong⟩ := bind_eq_ok.mp rest
      cases wrong

theorem turn_some (unfinished : Unfinished parser state.partialLine)
    (turned : turn parser convert source state remaining = .ok (some (after,behind))) :
    remaining ≠ [] ∧ behind = remaining.drop (parser.parseChunkSize - state.partialLine.length) ∧
      Unfinished parser after.partialLine ∧ Reads parser convert state remaining after behind := by
  unfold turn at turned
  split at turned
  next => cases turned
  next notEmpty =>
    obtain ⟨⟨filled,left⟩,loaded,rest⟩ := bind_eq_ok.mp turned
    obtain ⟨rfl,rfl⟩ := load_eq_ok loaded
    dsimp only at rest
    split at rest
    next => cases rest
    next more =>
      obtain ⟨next,parsed,result⟩ := bind_eq_ok.mp rest
      obtain ⟨rfl,rfl⟩ := Prod.mk.inj (Option.some.inj (Except.ok.inj result))
      have few : (state.partialLine ++ remaining.take (parser.parseChunkSize - state.partialLine.length)).length ≤
          parser.parseChunkSize := by
        have fits := unfinished.2
        rw [List.length_append,List.length_take]
        omega
      obtain ⟨carried,body,whole,lines,cut⟩ := parseFilled_reads few parsed
      refine ⟨?_,rfl,carried,[body],List.forall_mem_singleton.mpr whole,?_,?_⟩
      · rintro rfl
        cases source with
        | data => exact notEmpty ⟨rfl,rfl⟩
        | stream => exact more ⟨rfl,congrArg List.length List.drop_nil⟩
      · rw [List.foldlM_cons,lines]
        rfl
      · rw [List.flatten_singleton,cut,List.append_assoc,List.take_append_drop]

end Turns

section Run
variable {parser} {convert : DataType → List UInt8 → Except String ν} {source : ChunkSource}
    {state middle after : ChunkState ν}
  {bytes rest remaining : List UInt8} {turns : Nat}

theorem Reads.refl (state : ChunkState ν) (bytes : List UInt8) : Reads parser convert state bytes state bytes :=
  ⟨[],List.forall_mem_nil _,rfl,rfl⟩

theorem Reads.trans (first : Reads parser convert state bytes middle rest)
    (second : Reads parser convert middle rest after remaining) :
    Reads parser convert state bytes after remaining := by
  obtain ⟨bodies,closed,lines,whole⟩ := first
  obtain ⟨more,moreClosed,moreLines,moreWhole⟩ := second
  refine ⟨bodies ++ more,List.forall_mem_append.mpr ⟨closed,moreClosed⟩,?_,?_⟩
  · rw [List.foldlM_append,lines]
    exact moreLines
  · rw [List.append_assoc] at whole moreWhole
    rw [List.flatten_append,List.append_assoc,List.append_assoc,moreWhole,whole]

theorem Reads.linesFit (reads : Reads parser convert state bytes after remaining) (later : List UInt8) :
    LinesFit newline parser.parseChunkSize (state.partialLine ++ bytes ++ later) ↔
      LinesFit newline parser.parseChunkSize (after.partialLine ++ remaining ++ later) := by
  obtain ⟨bodies,closed,lines,whole⟩ := reads
  rw [← whole,List.append_assoc,List.append_assoc,← List.append_assoc after.partialLine]
  generalize after.partialLine ++ remaining ++ later = behind
  clear lines whole
  induction bodies with
  | nil => exact Iff.rfl
  | cons body bodies ih =>
    obtain ⟨⟨whole,few⟩,others⟩ := List.forall_mem_cons.mp closed
    have short : ∀ line ∈ ended newline body, line.length < parser.parseChunkSize := fun line inside =>
      Nat.lt_of_lt_of_le (whole.length_lt inside) few
    rw [List.flatten_cons,List.append_assoc,whole.linesFit_append,and_iff_right short]
    exact ih others

theorem parseLoop_reads (unfinished : Unfinished parser state.partialLine)
    (returned : parseLoop parser convert source turns state bytes = some (.ok (after,remaining))) :
    Unfinished parser after.partialLine ∧ Reads parser convert state bytes after remaining ∧
      (remaining = [] ∨ parser.parseChunkSize ≤ after.partialLine.length) := by
  induction turns generalizing state bytes with
  | zero => cases returned
  | succ turns ih =>
    rw [parseLoop] at returned
    split at returned
    next => cases returned
    next done =>
      obtain ⟨rfl,rfl⟩ := Prod.mk.inj (Except.ok.inj (Option.some.inj returned))
      exact ⟨unfinished,.refl _ _,turn_none done⟩
    next middle rest turned =>
      obtain ⟨_,_,still,reads⟩ := turn_some unfinished turned
      obtain ⟨carried,further,ends⟩ := ih still returned
      exact ⟨carried,reads.trans further,ends⟩

theorem parseLoop_ends (source : ChunkSource) (unfinished : Unfinished parser state.partialLine) (later : List UInt8)
    (fit : LinesFit newline parser.parseChunkSize (state.partialLine ++ bytes ++ later)) :
    ∃ turns result, parseLoop parser convert source turns state bytes = some result := by
  induction size : bytes.length using Nat.strong_induction_on generalizing state bytes with
  | _ size' ih =>
    cases turned : turn parser convert source state bytes with
    | error stop =>
      refine ⟨1,.error stop,?_⟩
      rw [parseLoop,turned]
    | ok next =>
      cases next with
      | none =>
        refine ⟨1,.ok (state,bytes),?_⟩
        rw [parseLoop,turned]
      | some next =>
        obtain ⟨middle,rest⟩ := next
        obtain ⟨filled,behind,still,reads⟩ := turn_some unfinished turned
        have room : state.partialLine.length < parser.parseChunkSize := by
          apply Nat.lt_of_not_le
          intro full
          rw [List.append_assoc] at fit
          exact not_linesFit unfinished.1 full (List.append_ne_nil_of_left_ne_nil filled later) fit
        have shorter : rest.length < size' := by
          have positive := List.length_pos_iff.mpr filled
          rw [behind,List.length_drop]
          omega
        obtain ⟨turns,result,ended⟩ := ih rest.length shorter still ((reads.linesFit later).mp fit) rfl
        refine ⟨turns+1,result,?_⟩
        rw [parseLoop,turned]
        exact ended

theorem parseLoop_drains (unfinished : Unfinished parser state.partialLine) (later : List UInt8)
    (fit : LinesFit newline parser.parseChunkSize (state.partialLine ++ bytes ++ later))
    (returned : parseLoop parser convert source turns state bytes = some (.ok (after,remaining))) :
    remaining = [] ∧ Unfinished parser after.partialLine ∧ Reads parser convert state bytes after [] ∧
      LinesFit newline parser.parseChunkSize (after.partialLine ++ later) := by
  obtain ⟨carried,reads,ends⟩ := parseLoop_reads unfinished returned
  have behind := (reads.linesFit later).mp fit
  by_cases none : remaining = []
  · rw [none] at reads behind
    rw [List.append_nil] at behind
    exact ⟨none,carried,reads,behind⟩
  · rw [List.append_assoc] at behind
    exact absurd behind (not_linesFit carried.1 (ends.resolve_left none) (List.append_ne_nil_of_left_ne_nil none later))

end Run

end CSVToArrowSIMDChunkParser
end Hermes.Csv
