import Hermes.Library.Lines
import Hermes.Table
import Mathlib.Algebra.Order.Ring.Nat

/-! The reader of one byte range of a CSV file. -/
namespace Hermes.Csv
open Library.Lines Tuples

def newline : UInt8 := 10

structure InputStream where
  file : List UInt8
  pos : Nat

namespace InputStream

def rest (stream : InputStream) : List UInt8 := stream.file.drop stream.pos

def read (stream : InputStream) (count : Nat) : List UInt8 := stream.rest.take count

def seek (stream : InputStream) (pos : Nat) : InputStream := {stream with pos}

/-- What is left of the line in which the stream stands, with its end; a line without one is lost. -/
def lineLeft (stream : InputStream) : List UInt8 :=
  if newline ∈ stream.rest then stream.rest.take (lineEnd newline stream.rest) else []

def skipLine (stream : InputStream) : InputStream := stream.seek (stream.pos+lineEnd newline stream.rest)

theorem read_append (stream : InputStream) (count : Nat) :
    stream.rest = stream.read count ++ (stream.seek (stream.pos+(stream.read count).length)).rest := by
  have behind : (stream.seek (stream.pos+(stream.read count).length)).rest = stream.rest.drop
      (stream.read count).length :=
    List.drop_drop.symm
  rw [behind,read,List.length_take]
  rcases Nat.le_total count stream.rest.length with shorter | longer
  · rw [Nat.min_eq_left shorter,List.take_append_drop]
  · rw [Nat.min_eq_right longer,List.take_of_length_le longer,List.drop_length,List.append_nil]

end InputStream

inductive Failure where
  | assertion
  | parser (message : String)
  | endless
  deriving DecidableEq

structure TupleSet where
  fields : List String
  rows : List (List String)
  deriving DecidableEq

/-- The Arrow parser of blocks of rows: without a column count it takes the one of the first row. -/
structure BlockParser where
  parse : Option Nat → List (List UInt8) → Except String (List (List String))

structure CSVParser where
  columnNames : Option (List String)
  startPos : Nat
  finishPos : Option Nat
  bufferSize : Nat

namespace CSVParser
variable (parser : CSVParser) (blockParser : BlockParser)

/-- At the end of the file the buffer that is returned is the empty one, not what has been read. -/
def advanceToNewLine : Nat → InputStream → List UInt8 → Except Failure (List UInt8 × InputStream)
  | 0,_,_ => .error .endless
  | fuel+1,stream,bufferBuilder =>
    let chunkBuffer := stream.read parser.bufferSize
    if chunkBuffer = [] then .ok ([],stream)
    else if newline ∈ chunkBuffer then
      let newLinePos := chunkBuffer.idxOf newline
      .ok (bufferBuilder ++ chunkBuffer.take (newLinePos+1),stream.seek (stream.pos+newLinePos+1))
    else advanceToNewLine fuel (stream.seek (stream.pos+chunkBuffer.length)) (bufferBuilder ++ chunkBuffer)

def turns (stream : InputStream) : Nat := stream.file.length+1

def advanceToEOR (buffer : List UInt8) (stream : InputStream) : Except Failure (List UInt8 × InputStream) :=
  if buffer.getLast? = some newline then .ok (buffer,stream)
  else do
    let (remainingBuffer,stream) ← parser.advanceToNewLine (turns stream) stream []
    .ok (buffer ++ remainingBuffer,stream)

def parseSchema (stream : InputStream) : Except Failure (List String × InputStream) := do
  let (blockBuffer,stream) ← parser.advanceToNewLine (turns stream) stream []
  let rows ← (blockParser.parse none [blockBuffer]).mapError .parser
  if rows.length = 1 then .ok (rows.flatten.map canonicalize,stream)
  else .error .assertion

def scanned (dataStartPos currentPos : Nat) : Bool :=
  parser.finishPos.any fun finishPos => decide (dataStartPos+finishPos ≤ currentPos)

/-- The loop of `parse` that collects the blocks. -/
def readBlocks (dataStartPos : Nat) : Nat → Nat → InputStream → Except Failure (List (List UInt8))
  | 0,_,_ => .error .endless
  | fuel+1,currentPos,stream =>
    if currentPos < dataStartPos+parser.startPos then .error .assertion
    else if parser.finishPos.any fun finishPos => decide (dataStartPos+finishPos < currentPos) then .error .assertion
    else do
      let numBytesToRead := match parser.finishPos with
        | some finishPos => min (currentPos+parser.bufferSize) (dataStartPos+finishPos-currentPos)
        | none => currentPos+parser.bufferSize
      let chunkBuffer := stream.read numBytesToRead
      let (blockBuffer,stream) ← parser.advanceToEOR chunkBuffer (stream.seek (stream.pos+chunkBuffer.length))
      let currentPos := currentPos+blockBuffer.length
      if chunkBuffer = [] ∨ parser.scanned dataStartPos currentPos then .ok [blockBuffer]
      else do
        let later ← readBlocks dataStartPos fuel currentPos stream
        .ok (blockBuffer::later)

def readColumn (name : String) : Bool := parser.columnNames.all fun columnNames => columnNames.contains name

def destinationFields (schema : List String) : List String := schema.filter parser.readColumn

/-- The arrays of the columns that are read, row by row; a table without a column has no rows. -/
def extractArrays (schema : List String) (rows : List (List String)) : List (List String) :=
  if parser.destinationFields schema = [] then []
  else rows.map fun cells => ((schema.zip cells).filter fun column => parser.readColumn column.1).map Prod.snd

def parse (file : List UInt8) : Except Failure TupleSet := do
  let (schema,stream) ← parser.parseSchema blockParser ⟨file,0⟩
  let dataStartPos := stream.pos
  let (_,stream) ← parser.advanceToNewLine (turns stream) (stream.seek (dataStartPos+parser.startPos-1)) []
  let blockBuffers ← parser.readBlocks dataStartPos (turns stream) stream.pos stream
  let rows ← (blockParser.parse (some schema.length) blockBuffers).mapError .parser
  .ok ⟨parser.destinationFields schema,parser.extractArrays schema rows⟩

variable {parser}

theorem advanceToNewLine_eq (positive : 0 < parser.bufferSize) (fuel : Nat) (stream : InputStream)
    (bufferBuilder : List UInt8) (enough : stream.rest.length < fuel) :
    parser.advanceToNewLine fuel stream bufferBuilder =
      .ok (if newline ∈ stream.rest then bufferBuilder ++ stream.lineLeft else [],stream.skipLine) := by
  induction fuel generalizing stream bufferBuilder with
  | zero => cases enough
  | succ fuel ih =>
    have parts := stream.read_append parser.bufferSize
    rw [advanceToNewLine]
    by_cases ended : stream.read parser.bufferSize = []
    · have empty : stream.rest = [] := by
        rw [InputStream.read,List.take_eq_nil_iff] at ended
        exact ended.resolve_left (Nat.ne_of_gt positive)
      have stays : stream.skipLine = stream := by
        rw [InputStream.skipLine,empty]
        rfl
      rw [if_pos ended,stays,empty]
      rfl
    · rw [if_neg ended]
      by_cases found : newline ∈ stream.read parser.bufferSize
      · have inside : newline ∈ stream.rest := by
          rw [parts]
          exact List.mem_append_left _ found
        have ends : lineEnd newline stream.rest = (stream.read parser.bufferSize).idxOf newline+1 := by
          rw [parts,lineEnd_append_of_mem found,lineEnd,if_pos found]
        have taken : stream.rest.take ((stream.read parser.bufferSize).idxOf newline+1) =
            (stream.read parser.bufferSize).take ((stream.read parser.bufferSize).idxOf newline+1) := by
          conv_lhs => rw [parts]
          exact List.take_append_of_le_length (List.idxOf_lt_length_of_mem found)
        rw [if_pos found,if_pos inside,InputStream.lineLeft,if_pos inside,InputStream.skipLine,ends,taken]
        rfl
      · have read := List.length_pos_iff.mpr ended
        have later := congrArg List.length parts
        rw [List.length_append] at later
        rw [if_neg found,ih _ _ (by omega)]
        have behind : newline ∈ stream.rest ↔
            newline ∈ (stream.seek (stream.pos+(stream.read parser.bufferSize).length)).rest := by
          conv_lhs => rw [parts,List.mem_append]
          exact or_iff_right found
        have ends := lineEnd_append_of_not_mem found
            (stream.seek (stream.pos+(stream.read parser.bufferSize).length)).rest
        rw [← parts] at ends
        have skips : (stream.seek (stream.pos+(stream.read parser.bufferSize).length)).skipLine = stream.skipLine := by
          rw [InputStream.skipLine,InputStream.skipLine,ends,← Nat.add_assoc]
          rfl
        rw [skips]
        congr 2
        by_cases inside : newline ∈ stream.rest
        · rw [if_pos inside,if_pos (behind.mp inside),InputStream.lineLeft,InputStream.lineLeft,if_pos inside,
            if_pos (behind.mp inside),ends,List.append_assoc]
          conv_rhs => rw [parts,List.take_length_add_append]
        · rw [if_neg inside,if_neg (fun found => inside (behind.mpr found))]

theorem advanceToEOR_eq (positive : 0 < parser.bufferSize) (buffer : List UInt8) (stream : InputStream) :
    parser.advanceToEOR buffer stream =
      .ok (if buffer.getLast? = some newline then (buffer,stream) else (buffer ++ stream.lineLeft,stream.skipLine)) := by
  rw [advanceToEOR]
  split
  next => rfl
  next =>
    have enough : stream.rest.length < turns stream := by
      rw [InputStream.rest,List.length_drop,turns]
      omega
    rw [advanceToNewLine_eq positive _ _ _ enough]
    by_cases inside : newline ∈ stream.rest
    · rw [if_pos inside]
      rfl
    · rw [if_neg inside,InputStream.lineLeft,if_neg inside]
      rfl

def Closed : List (List UInt8) → Prop
  | [] => True
  | block::later => (later.flatten = [] ∨ block.getLast? = some newline) ∧ Closed later

variable {finishPos dataStartPos : Nat}

theorem readBlocks_succ (bounded : parser.finishPos = some finishPos) (fuel currentPos : Nat) (stream : InputStream)
    (low : dataStartPos+parser.startPos ≤ currentPos) (high : currentPos ≤ dataStartPos+finishPos) :
    parser.readBlocks dataStartPos (fuel+1) currentPos stream = (do
      let chunkBuffer := stream.read (min (currentPos+parser.bufferSize) (dataStartPos+finishPos-currentPos))
      let (blockBuffer,stream) ← parser.advanceToEOR chunkBuffer (stream.seek (stream.pos+chunkBuffer.length))
      if chunkBuffer = [] ∨ dataStartPos+finishPos ≤ currentPos+blockBuffer.length then .ok [blockBuffer]
      else do
        let later ← parser.readBlocks dataStartPos fuel (currentPos+blockBuffer.length) stream
        .ok (blockBuffer::later)) := by
  rw [readBlocks,if_neg (Nat.not_lt.mpr low),bounded]
  simp only [Option.any_some,decide_eq_true_eq,scanned,bounded]
  rw [if_neg (Nat.not_lt.mpr high)]

theorem readBlocks_end (positive : 0 < parser.bufferSize) (bounded : parser.finishPos = some finishPos)
    (fuel currentPos : Nat) (stream : InputStream) (low : dataStartPos+parser.startPos ≤ currentPos)
    (high : currentPos ≤ dataStartPos+finishPos)
    (empty : stream.rest = []) : parser.readBlocks dataStartPos (fuel+1) currentPos stream = .ok [[]] := by
  have nothing : ∀ count, stream.read count = [] := by
    intro count
    rw [InputStream.read,empty,List.take_nil]
  rw [readBlocks_succ bounded fuel currentPos stream low high,nothing]
  simp only [List.length_nil,Nat.add_zero]
  rw [advanceToEOR_eq positive]
  have lost : (stream.seek stream.pos).lineLeft = [] := by
    have missing : newline ∉ (stream.seek stream.pos).rest := by
      have same : (stream.seek stream.pos).rest = [] := empty
      rw [same]
      exact List.not_mem_nil
    exact if_neg missing
  rw [lost]
  rfl

/-- What the blocks of a range are, read from a place before the finish: the front of what follows, with the
lines that are ended before the first line start from the finish on. -/
structure Covers (blocks : List (List UInt8)) (file rest : List UInt8) (finish : Nat) : Prop where
  isPrefix : blocks.flatten <+: rest
  closed : Closed blocks
  lines : ended newline blocks.flatten ++ ended newline (file.drop (nextStart newline file finish)) = ended newline rest

theorem Covers.cons {chunk rest file : List UInt8} {blocks : List (List UInt8)} {finish : Nat}
    (later : Covers blocks file rest finish) :
    Covers ((chunk ++ [newline])::blocks) file (chunk ++ [newline] ++ rest) finish where
  isPrefix := by
    rw [List.flatten_cons]
    exact List.prefix_append_right_inj _ |>.mpr later.isPrefix
  closed := ⟨Or.inr List.getLast?_concat,later.closed⟩
  lines := by
    rw [List.flatten_cons,ended_closed,List.append_assoc,later.lines,ended_closed]

theorem Covers.last {chunk rest front : List UInt8} {finish : Nat}
    (next : nextStart newline (front ++ (chunk ++ [newline]) ++ rest) finish = (front ++ (chunk ++ [newline])).length) :
    Covers [chunk ++ [newline]] (front ++ (chunk ++ [newline]) ++ rest) (chunk ++ [newline] ++ rest) finish where
  isPrefix := by
    rw [List.flatten_singleton]
    exact List.prefix_append _ _
  closed := ⟨Or.inl rfl,trivial⟩
  lines := by
    rw [next,List.drop_left,List.flatten_singleton,ended_closed]

theorem advanceToEOR_cases (positive : 0 < parser.bufferSize) (front chunk behind : List UInt8) (filled : chunk ≠ []) :
    (∃ row rest, chunk ++ behind = row ++ [newline] ++ rest ∧ chunk.length ≤ (row ++ [newline]).length ∧
      parser.advanceToEOR chunk ⟨front ++ (chunk ++ behind),(front ++ chunk).length⟩ =
        .ok (row ++ [newline],⟨front ++ (chunk ++ behind),(front ++ (row ++ [newline])).length⟩) ∧
      nextStart newline (front ++ (chunk ++ behind)) (front ++ chunk).length = (front ++ (row ++ [newline])).length) ∨
    newline ∉ behind ∧
      parser.advanceToEOR chunk ⟨front ++ (chunk ++ behind),(front ++ chunk).length⟩ =
        .ok (chunk,⟨front ++ (chunk ++ behind),(front ++ (chunk ++ behind)).length⟩) ∧
      nextStart newline (front ++ (chunk ++ behind)) (front ++ chunk).length = (front ++ (chunk ++ behind)).length := by
  obtain ⟨chunk,last,rfl⟩ := List.eq_nil_or_concat' chunk |>.resolve_left filled
  have left : (⟨front ++ (chunk ++ [last] ++ behind),(front ++ (chunk ++ [last])).length⟩ : InputStream).rest =
      behind := by
    rw [← List.append_assoc front]
    exact List.drop_left
  have here : front ++ (chunk ++ [last] ++ behind) = front ++ chunk ++ [last] ++ behind := by
    simp only [List.append_assoc]
  rw [advanceToEOR_eq positive,List.getLast?_concat,InputStream.lineLeft,InputStream.skipLine,left]
  by_cases same : last = newline
  · subst same
    refine Or.inl ⟨chunk,behind,rfl,Nat.le_refl _,?_,?_⟩
    · rw [if_pos rfl]
    · rw [here,← List.append_assoc front]
      exact nextStart_closed _ _
  · have next := nextStart_open same (front ++ chunk) behind
    rw [← here,List.append_assoc front] at next
    rw [if_neg (fun equal => same (Option.some.inj equal)),next]
    by_cases inside : newline ∈ behind
    · obtain ⟨line,rest,cut,missing,ends⟩ := exists_line inside
      refine Or.inl ⟨chunk ++ [last] ++ line,rest,?_,?_,?_,?_⟩
      · rw [cut]
        simp only [List.append_assoc,List.cons_append,List.nil_append]
      · simp only [List.length_append]
        omega
      · rw [if_pos inside,ends,cut,List.take_append,List.take_of_length_le (Nat.le_succ _),Nat.add_sub_cancel_left]
        simp only [InputStream.seek,List.append_assoc,List.length_append,List.take_succ_cons,List.take_zero,
          Nat.add_assoc]
        rfl
      · rw [ends]
        simp only [List.length_append,List.length_singleton]
        omega
    · refine Or.inr ⟨inside,?_,?_⟩
      · rw [if_neg inside,lineEnd_of_not_mem inside,List.append_nil]
        simp only [InputStream.seek,List.length_append,Nat.add_assoc]
      · rw [lineEnd_of_not_mem inside]
        simp only [List.length_append]
        omega

theorem readBlocks_spec (positive : 0 < parser.bufferSize) (bounded : parser.finishPos = some finishPos) (fuel : Nat)
    (front rest : List UInt8) (low : dataStartPos+parser.startPos ≤ front.length)
    (high : front.length < dataStartPos+finishPos) (inside : dataStartPos+finishPos ≤ (front ++ rest).length)
    (enough : rest.length < fuel) :
    ∃ blocks, parser.readBlocks dataStartPos fuel front.length ⟨front ++ rest,front.length⟩ = .ok blocks ∧
      Covers blocks (front ++ rest) rest (dataStartPos+finishPos) := by
  induction fuel generalizing front rest with
  | zero => cases enough
  | succ fuel ih =>
    rw [readBlocks_succ bounded fuel _ _ low (Nat.le_of_lt high)]
    have size : 0 < min (front.length+parser.bufferSize) (dataStartPos+finishPos-front.length) := by omega
    have few : min (front.length+parser.bufferSize)
        (dataStartPos+finishPos-front.length) ≤ dataStartPos+finishPos-front.length :=
      Nat.min_le_right _ _
    generalize min (front.length+parser.bufferSize) (dataStartPos+finishPos-front.length) = count at size few
    have all : (⟨front ++ rest,front.length⟩ : InputStream).rest = rest := List.drop_left
    obtain ⟨chunk,behind,cut,length⟩ : ∃ chunk behind, rest = chunk ++ behind ∧ chunk.length = count := by
      rw [List.length_append] at inside
      exact ⟨rest.take count,rest.drop count,(List.take_append_drop count rest).symm,List.length_take_of_le (by omega)⟩
    subst rest count
    have filled := List.length_pos_iff.mp size
    rw [InputStream.read,all,List.take_left]
    dsimp only [InputStream.seek]
    rw [← List.length_append]
    have before : (front ++ chunk).length ≤ dataStartPos+finishPos := by
      rw [List.length_append]
      omega
    obtain ⟨row,tail,cut,longer,advanced,next⟩ | ⟨missing,advanced,next⟩ :=
      advanceToEOR_cases positive front chunk behind filled
    · rw [advanced]
      dsimp only [bind,Except.bind]
      rw [← List.length_append]
      by_cases done : dataStartPos+finishPos ≤ (front ++ (row ++ [newline])).length
      · rw [if_pos (Or.inr done)]
        refine ⟨_,rfl,?_⟩
        rw [← next] at done
        have last := nextStart_eq before done
        rw [next] at last
        rw [cut,← List.append_assoc front] at last ⊢
        exact Covers.last last
      · rw [if_neg (not_or.mpr ⟨filled,done⟩)]
        have parts : front ++ (row ++ [newline] ++ tail) = front ++ (row ++ [newline]) ++ tail :=
            (List.append_assoc _ _ _).symm
        rw [cut,parts] at inside ⊢
        have sizes := congrArg List.length cut
        rw [List.length_append,List.length_append] at sizes
        rw [List.length_append] at enough
        obtain ⟨later,run,covers⟩ := ih (front ++ (row ++ [newline])) tail (by rw [List.length_append]; omega)
          (Nat.not_le.mp done) inside (by omega)
        refine ⟨_,?_,covers.cons⟩
        rw [run]
    · have last := nextStart_eq before (inside.trans_eq next.symm)
      rw [next] at last
      have covers : ∀ back : List (List UInt8), back.flatten = [] → Closed back →
          Covers (chunk::back) (front ++ (chunk ++ behind)) (chunk ++ behind) (dataStartPos+finishPos) := by
        intro back empty closed
        refine ⟨?_,⟨Or.inl empty,closed⟩,?_⟩
        · rw [List.flatten_cons,empty,List.append_nil]
          exact List.prefix_append _ _
        · rw [last,List.drop_length,List.flatten_cons,empty,List.append_nil,ended_append_of_not_mem _ missing]
          exact List.append_nil _
      rw [advanced]
      dsimp only [bind,Except.bind]
      rw [← List.length_append]
      by_cases done : dataStartPos+finishPos ≤ (front ++ chunk).length
      · rw [if_pos (Or.inr done)]
        exact ⟨_,rfl,covers [] rfl trivial⟩
      · rw [if_neg (not_or.mpr ⟨filled,done⟩)]
        obtain ⟨fuel,rfl⟩ := Nat.exists_eq_succ_of_ne_zero (show fuel ≠ 0 by rw [List.length_append] at enough; omega)
        have spent : (⟨front ++ (chunk ++ behind),(front ++ (chunk ++ behind)).length⟩ : InputStream).rest = [] :=
            List.drop_length
        rw [readBlocks_end positive bounded _ _ _ (by rw [List.length_append]; omega) before spent]
        exact ⟨_,rfl,covers [[]] rfl ⟨Or.inl rfl,trivial⟩⟩

theorem readBlocks_finish (positive : 0 < parser.bufferSize) (bounded : parser.finishPos = some finishPos) (fuel : Nat)
    (stream : InputStream) (low : dataStartPos+parser.startPos ≤ dataStartPos+finishPos) :
    parser.readBlocks dataStartPos (fuel+1) (dataStartPos+finishPos) stream = .ok [stream.lineLeft] := by
  rw [readBlocks_succ bounded fuel _ stream low (Nat.le_refl _),Nat.sub_self,Nat.min_zero]
  have nothing : stream.read 0 = [] := List.take_zero
  rw [nothing]
  have unmoved : stream.seek stream.pos = stream := rfl
  simp only [List.length_nil,Nat.add_zero,unmoved]
  rw [advanceToEOR_eq positive]
  have row : ([] : List UInt8).getLast? ≠ some newline := fun equal => by cases equal
  rw [if_neg row,List.nil_append]
  dsimp only [bind,Except.bind]
  exact if_pos (Or.inl trivial)

end CSVParser

/-- What is taken from the Arrow parser: blank rows are skipped, and whole valid rows are read one by one. -/
structure BlockParser.Reads (blockParser : BlockParser) (cells : List UInt8 → Option (List String))
    (valid : Nat → List UInt8 → Prop) : Prop where
  blank : cells [] = none
  header : ∀ {line : List UInt8} {names : List String},newline ∉ line → cells line = some names →
    valid names.length line →
    blockParser.parse none [line ++ [newline]] = .ok [names]
  blocks : ∀ {columns : Nat} {views : List (List UInt8)} {whole : List UInt8} {place : Nat},
    views.flatten <+: whole.drop (nextStart newline whole place) →
    CSVParser.Closed views → (∀ row ∈ whole.splitOn newline,valid columns row) →
    blockParser.parse (some columns) views = .ok ((ended newline views.flatten).filterMap cells)

/-- A file with a line of column names over rows that fit to it; the last row may have no end. -/
structure Wellformed (cells : List UInt8 → Option (List String)) (valid : Nat → List UInt8 → Prop)
    (header : List UInt8) (names : List String) (data : List UInt8) : Prop where
  first : newline ∉ header
  named : cells header = some names
  fits : valid names.length header
  rows : ∀ row ∈ data.splitOn newline,valid names.length row

namespace CSVParser
variable {parser : CSVParser} {blockParser : BlockParser} {cells : List UInt8 → Option (List String)}
  {valid : Nat → List UInt8 → Prop} {header data : List UInt8} {names : List String}

theorem parseSchema_eq (reads : blockParser.Reads cells valid) (positive : 0 < parser.bufferSize)
    (wellformed : Wellformed cells valid header names data) :
    parser.parseSchema blockParser ⟨header ++ newline::data,0⟩ =
      .ok (names.map canonicalize,⟨header ++ newline::data,header.length+1⟩) := by
  have inside : newline ∈ (⟨header ++ newline::data,0⟩ : InputStream).rest := List.mem_append_right _ List.mem_cons_self
  have line : (⟨header ++ newline::data,0⟩ : InputStream).lineLeft = header ++ [newline] := by
    rw [InputStream.lineLeft,if_pos inside,InputStream.rest,List.drop_zero,lineEnd_line wellformed.first,
      List.take_append,
      List.take_of_length_le (Nat.le_succ _),Nat.add_sub_cancel_left,List.take_succ_cons,List.take_zero]
  have skips : (⟨header ++ newline::data,0⟩ : InputStream).skipLine = ⟨header ++ newline::data,header.length+1⟩ := by
    rw [InputStream.skipLine,InputStream.rest,List.drop_zero,lineEnd_line wellformed.first,Nat.zero_add]
    rfl
  have enough : (⟨header ++ newline::data,0⟩ : InputStream).rest.length < turns ⟨header ++ newline::data,0⟩ :=
      Nat.lt_succ_self _
  rw [parseSchema,advanceToNewLine_eq positive _ _ _ enough,if_pos inside,line,skips]
  dsimp only [bind,Except.bind]
  rw [List.nil_append,reads.header wellformed.first wellformed.named wellformed.fits]
  simp only [Except.mapError,List.length_singleton,if_true,List.flatten_singleton]

/-- The row that is made of a line. -/
def rowOf (parser : CSVParser) (cells : List UInt8 → Option (List String)) (schema : List String)
    (line : List UInt8) : Option (List String) :=
  if parser.destinationFields schema = [] then none
  else (cells line).map fun values => ((schema.zip values).filter fun column => parser.readColumn column.1).map Prod.snd

theorem extractArrays_eq (schema : List String) (lines : List (List UInt8)) :
    parser.extractArrays schema (lines.filterMap cells) = lines.filterMap (parser.rowOf cells schema) := by
  rw [extractArrays]
  by_cases none : parser.destinationFields schema = []
  · have skipped : parser.rowOf cells schema = fun _ => Option.none := by
      ext1 line
      exact if_pos none
    rw [if_pos none,skipped,List.filterMap_none]
  · have kept : parser.rowOf cells schema = fun line => (cells line).map fun values =>
        ((schema.zip values).filter fun column => parser.readColumn column.1).map Prod.snd := by
      ext1 line
      exact if_neg none
    rw [if_neg none,kept,List.map_filterMap]

def repeats (data : List UInt8) (startPos finishPos : Nat) : List (List UInt8) :=
  if nextStart newline data startPos = finishPos then (ended newline (data.drop finishPos)).take 1 else []

theorem ended_lineLeft (stream : InputStream) : ended newline stream.lineLeft = (ended newline stream.rest).take 1 := by
  rw [InputStream.lineLeft]
  by_cases inside : newline ∈ stream.rest
  · obtain ⟨line,rest,cut,missing,ends⟩ := exists_line inside
    rw [if_pos inside,ends,cut,ended_line missing,List.take_append,List.take_of_length_le (Nat.le_succ _),
      Nat.add_sub_cancel_left,List.take_succ_cons,List.take_zero,ended_line missing]
    rfl
  · rw [if_neg inside,ended_of_not_mem inside]
    rfl

theorem blocks_of_range (positive : 0 < parser.bufferSize) {finishPos : Nat}
    (bounded : parser.finishPos = some finishPos)
    (ordered : parser.startPos < finishPos) (inside : finishPos ≤ data.length)
    (reached : nextStart newline data parser.startPos ≤ finishPos) :
    ∃ blocks own,
      parser.readBlocks (header.length+1) (turns ⟨header ++ newline::data,0⟩)
      (header.length+1+nextStart newline data parser.startPos)
        ⟨header ++ newline::data,header.length+1+nextStart newline data parser.startPos⟩ = .ok blocks ∧
      blocks.flatten <+: data.drop (nextStart newline data parser.startPos) ∧ Closed blocks ∧
      ended newline blocks.flatten = own ++ repeats data parser.startPos finishPos ∧
      own ++ ended newline (data.drop (nextStart newline data finishPos)) =
        ended newline (data.drop (nextStart newline data parser.startPos)) := by
  have low : parser.startPos ≤ nextStart newline data parser.startPos := le_nextStart (by omega)
  have later : ∀ place, (header ++ newline::data).drop (header.length+1+place) = data.drop place := by
    intro place
    rw [← List.drop_drop,List.drop_append,List.drop_of_length_le (Nat.le_succ _),Nat.add_sub_cancel_left]
    rfl
  by_cases same : nextStart newline data parser.startPos = finishPos
  · have again : nextStart newline data finishPos = finishPos := by
      rw [nextStart_eq (Nat.le_of_lt ordered) (Nat.le_of_eq same.symm),same]
    rw [repeats,if_pos same,same,again]
    refine ⟨_,[],readBlocks_finish positive bounded _ _ (by omega),?_,⟨Or.inl rfl,trivial⟩,?_,rfl⟩
    · rw [List.flatten_singleton,InputStream.lineLeft,InputStream.rest,later]
      split
      next => exact List.take_prefix _ _
      next => exact List.nil_prefix
    · rw [List.flatten_singleton,ended_lineLeft,InputStream.rest,later]
      rfl
  · have within : nextStart newline data parser.startPos ≤ data.length := nextStart_le (by omega)
    have parts : header ++ newline::data.take (nextStart newline data parser.startPos) ++
        data.drop (nextStart newline data parser.startPos) = header ++ newline::data := by
      rw [List.append_assoc,List.cons_append,List.take_append_drop]
    have size : (header ++ newline::data.take (nextStart newline data parser.startPos)).length =
        header.length+1+nextStart newline data parser.startPos := by
      rw [List.length_append,List.length_cons,List.length_take_of_le within]
      omega
    have total : (header ++ newline::data).length = header.length+1+data.length := by
      rw [List.length_append,List.length_cons]
      omega
    obtain ⟨blocks,run,covers⟩ := @readBlocks_spec parser finishPos (header.length+1) positive bounded
      (turns ⟨header ++ newline::data,0⟩)
      (header ++ newline::data.take (nextStart newline data parser.startPos))
        (data.drop (nextStart newline data parser.startPos))
      (by omega) (by omega) (by rw [parts]; omega) (by rw [List.length_drop,turns,total]; omega)
    have lines := covers.lines
    rw [parts,size] at run
    rw [parts,nextStart_append,later] at lines
    rw [repeats,if_neg same]
    exact ⟨blocks,_,run,covers.isPrefix,covers.closed,(List.append_nil _).symm,lines⟩

theorem parse_start (reads : blockParser.Reads cells valid) (positive : 0 < parser.bufferSize)
    (wellformed : Wellformed cells valid header names data) :
    parser.parse blockParser (header ++ newline::data) = (do
      let blockBuffers ← parser.readBlocks (header.length+1) (turns ⟨header ++ newline::data,0⟩)
        (header.length+1+nextStart newline data parser.startPos)
        ⟨header ++ newline::data,header.length+1+nextStart newline data parser.startPos⟩
      let rows ← (blockParser.parse (some names.length) blockBuffers).mapError .parser
      .ok ⟨parser.destinationFields (names.map canonicalize),parser.extractArrays (names.map canonicalize) rows⟩) := by
  have skips : (⟨header ++ newline::data,header.length+1+parser.startPos-1⟩ : InputStream).skipLine =
      ⟨header ++ newline::data,header.length+1+nextStart newline data parser.startPos⟩ := by
    have next := @nextStart_append _ _ newline header data parser.startPos
    rw [nextStart,if_neg (by omega)] at next
    rw [← next]
    rfl
  have enough : (⟨header ++ newline::data,header.length+1+parser.startPos-1⟩ : InputStream).rest.length <
      turns ⟨header ++ newline::data,0⟩ := by
    rw [InputStream.rest,List.length_drop,turns]
    exact Nat.lt_succ_of_le (Nat.sub_le _ _)
  rw [parse,parseSchema_eq reads positive wellformed]
  dsimp only [bind,Except.bind]
  have advanced := advanceToNewLine_eq positive _ _ [] enough
  rw [skips] at advanced
  simp only [InputStream.seek,turns] at advanced ⊢
  rw [advanced]
  dsimp only
  rw [List.length_map]

theorem parse_eq (reads : blockParser.Reads cells valid) (positive : 0 < parser.bufferSize)
    (wellformed : Wellformed cells valid header names data) {finishPos : Nat}
    (bounded : parser.finishPos = some finishPos)
    (ordered : parser.startPos < finishPos) (inside : finishPos ≤ data.length)
    (reached : nextStart newline data parser.startPos ≤ finishPos) :
    ∃ own,parser.parse blockParser (header ++ newline::data) = .ok ⟨parser.destinationFields (names.map canonicalize),
        (own ++ repeats data parser.startPos finishPos).filterMap (parser.rowOf cells (names.map canonicalize))⟩ ∧
      own ++ ended newline (data.drop (nextStart newline data finishPos)) =
        ended newline (data.drop (nextStart newline data parser.startPos)) := by
  obtain ⟨blocks,own,run,front,closed,lines,telescoped⟩ := blocks_of_range positive bounded ordered inside reached
  refine ⟨own,?_,telescoped⟩
  rw [parse_start reads positive wellformed,run]
  dsimp only [bind,Except.bind]
  rw [reads.blocks front closed wellformed.rows,lines,Except.mapError]
  dsimp only
  rw [extractArrays_eq]

theorem parse_assertion (reads : blockParser.Reads cells valid) (positive : 0 < parser.bufferSize)
    (wellformed : Wellformed cells valid header names data) {finishPos : Nat}
    (bounded : parser.finishPos = some finishPos)
    (ordered : parser.startPos < finishPos) (inside : finishPos ≤ data.length)
    (missed : finishPos < nextStart newline data parser.startPos) :
    parser.parse blockParser (header ++ newline::data) = .error .assertion := by
  have low : parser.startPos ≤ nextStart newline data parser.startPos := le_nextStart (by omega)
  have behind : ¬header.length+1+nextStart newline data parser.startPos < header.length+1+parser.startPos := by omega
  have beyond : (parser.finishPos.any fun finishPos =>
      decide (header.length+1+finishPos < header.length+1+nextStart newline data parser.startPos)) = true := by
    rw [bounded,Option.any_some,decide_eq_true_eq]
    omega
  have failed : parser.readBlocks (header.length+1) (turns ⟨header ++ newline::data,0⟩)
      (header.length+1+nextStart newline data parser.startPos)
      ⟨header ++ newline::data,header.length+1+nextStart newline data parser.startPos⟩ = .error .assertion := by
    rw [turns,readBlocks,if_neg behind,if_pos beyond]
  rw [parse_start reads positive wellformed,failed]
  rfl

end CSVParser
end Hermes.Csv
