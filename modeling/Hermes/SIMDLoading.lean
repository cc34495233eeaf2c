import Hermes.SIMDRows

/-! `loadBuffer` from chunk to chunk: a chunk ends with the last newline that was read, and what follows it is
kept for the next chunk. Where every line fits in a chunk, the rows of the chunks are those of the file. -/
namespace Hermes.Csv
open Tuples SIMDParserHelpers Library.Cells Library.Lines

def closed (content : List UInt8) : List UInt8 :=
  if content = [] ∨ content.getLast? = some newline then content else content ++ [newline]

def fileLines (content : List UInt8) : List (List UInt8) := ended newline (closed content)

theorem closed_append (front rest : List UInt8) :
    closed (front ++ [newline] ++ rest) = front ++ [newline] ++ closed rest := by
  have filled : front ++ [newline] ++ rest ≠ [] := by
    rw [List.append_assoc]
    exact fun none => List.cons_ne_nil _ _ (List.append_eq_nil_iff.mp none).2
  unfold closed
  cases rest using List.reverseRecOn with
  | nil =>
    rw [List.append_nil,if_pos (.inr List.getLast?_concat),if_pos (.inl rfl),List.append_nil]
  | append_singleton rest last =>
    rw [← List.append_assoc,List.getLast?_concat,List.getLast?_concat]
    by_cases same : last = newline
    · rw [if_pos (.inr (congrArg some same)),if_pos (.inr (congrArg some same)),List.append_assoc]
    · have other : ¬some last = some newline := fun equal => same (Option.some.inj equal)
      rw [if_neg (not_or.mpr ⟨List.concat_ne_nil _ _,other⟩),if_neg (not_or.mpr ⟨List.concat_ne_nil _ _,other⟩)]
      simp only [List.append_assoc]

theorem fileLines_append (front rest : List UInt8) :
    fileLines (front ++ [newline] ++ rest) = ended newline (front ++ [newline]) ++ fileLines rest := by
  rw [fileLines,closed_append]
  exact ended_closed _ _

theorem closed_ends {content : List UInt8} (filled : closed content ≠ []) :
    (closed content).getLast filled = newline := by
  by_cases already : content = [] ∨ content.getLast? = some newline
  · have same : closed content = content := if_pos already
    obtain none | last := already
    · exact absurd (same.trans none) filled
    · simp only [same]
      rw [← Option.some_inj,← List.getLast?_eq_some_getLast,last]
  · have same : closed content = content ++ [newline] := if_neg already
    simp only [same]
    exact List.getLast_concat

theorem ended_inner {whole line : List UInt8} (inside : line ∈ ended newline whole) : newline ∉ line :=
  (mem_splitOn (ended_subset inside)).1

namespace CSVToArrowSIMDStreamParser

theorem clip_ended {short : Bool} {filled : List UInt8} (ends : filled.getLast? = some newline) :
    clip short filled = .ok (filled,[]) := by
  unfold clip
  rw [ends]
  dsimp only
  rw [if_neg (fun both => both.2 rfl),if_neg (not_not.mpr rfl)]

theorem clip_short {first rest : List UInt8} (starts : first = [] ∨ first.getLast? = some newline)
    (filled : first ++ rest ≠ []) :
    clip true (first ++ rest) = .ok (first ++ closed rest,[]) := by
  cases rest using List.reverseRecOn with
  | nil =>
    rw [List.append_nil] at filled ⊢
    have none : closed [] = [] := if_pos (.inl rfl)
    rw [clip_ended (starts.resolve_left filled),none,List.append_nil]
  | append_singleton rest last =>
    by_cases same : last = newline
    · have whole : closed (rest ++ [last]) = rest ++ [last] := if_pos (.inr (same ▸ List.getLast?_concat))
      rw [whole,← List.append_assoc]
      apply clip_ended
      rw [List.getLast?_concat,same]
    · have more : closed (rest ++ [last]) = rest ++ [last] ++ [newline] := by
        apply if_neg
        rw [List.getLast?_concat]
        exact not_or.mpr ⟨List.concat_ne_nil _ _,fun equal => same (Option.some.inj equal)⟩
      unfold clip
      rw [← List.append_assoc,List.getLast?_concat]
      dsimp only
      rw [if_pos ⟨rfl,same⟩,more]
      simp only [List.append_assoc]

theorem notNewline_of_not_mem {tail : List UInt8} (missing : newline ∉ tail) :
    ∀ byte ∈ tail, notNewline byte = true := by
  intro byte inside
  apply bne_iff_ne.mpr
  rintro rfl
  exact missing inside

theorem clip_full {front tail : List UInt8} (missing : newline ∉ tail) :
    clip false (front ++ [newline] ++ tail) = .ok (front ++ [newline],tail) := by
  unfold clip
  cases tail using List.reverseRecOn with
  | nil =>
    rw [List.append_nil,List.getLast?_concat]
    rfl
  | append_singleton tail last =>
    have differs : last ≠ newline := by
      rintro rfl
      exact missing (List.mem_append_right _ List.mem_cons_self)
    have inside : newline ∈ front ++ [newline] ++ (tail ++ [last]) :=
      List.mem_append_left _ (List.mem_append_right _ List.mem_cons_self)
    have back : (front ++ [newline] ++ (tail ++ [last])).reverse = (tail ++ [last]).reverse ++
        newline::front.reverse := by
      rw [List.append_assoc,List.singleton_append,List.reverse_append,List.reverse_cons,List.append_assoc,
        List.singleton_append]
    have all : ∀ byte ∈ (tail ++ [last]).reverse, notNewline byte = true :=
      fun byte found => notNewline_of_not_mem missing byte (List.mem_reverse.mp found)
    have dropped : (front ++ [newline] ++ (tail ++ [last])).rdropWhile notNewline = front ++ [newline] := by
      rw [List.rdropWhile,back,List.dropWhile_append_of_pos all,List.dropWhile_cons_of_neg (by decide),
        List.reverse_cons,List.reverse_reverse]
    have taken : (front ++ [newline] ++ (tail ++ [last])).rtakeWhile notNewline = tail ++ [last] := by
      rw [List.rtakeWhile,back,List.takeWhile_append_of_pos all,List.takeWhile_cons_of_neg (by decide),
        List.append_nil,List.reverse_reverse]
    rw [← List.append_assoc,List.getLast?_concat,List.append_assoc _ tail]
    dsimp only
    rw [if_neg (fun both => absurd both.1 Bool.false_ne_true),if_pos differs,if_pos inside,dropped,taken]

variable {parser : CSVToArrowSIMDStreamParser}

/-- A delimiter that is not a digit of the dummy row, a quote or a zero byte. -/
structure Delimits (delimiter : UInt8) : Prop where
  one : delimiter ≠ 49
  zero : delimiter ≠ 0
  quoted : delimiter ≠ quote

theorem dummyRow_ends : parser.dummyRow = [] ∨ parser.dummyRow.getLast? = some newline := by
  unfold dummyRow dummyCells
  cases parser.inputNumColumns with
  | zero => exact .inl rfl
  | succ last =>
    right
    rw [List.range_succ,List.map_append,encode_append,List.map_singleton,encode_cons,
      if_pos (show last = last+1-1 from rfl)]
    simp only [encode,List.flatMap_nil,List.append_nil]
    rw [← List.append_assoc,List.getLast?_concat]

theorem firstRow_ends (discardHeader : Bool) : parser.firstRow discardHeader = [] ∨
    (parser.firstRow discardHeader).getLast? = some newline := by
  cases discardHeader with
  | true => exact .inl rfl
  | false => exact dummyRow_ends

theorem dummyCells_length : parser.dummyCells.length = parser.inputNumColumns := by
  rw [dummyCells,List.length_map,List.length_range]

theorem dummyCells_separated (delimits : Delimits parser.csvFileDelimiter) :
    Separated (isSeparator parser.csvFileDelimiter) parser.dummyCells := by
  intro cell inside
  obtain ⟨column,_,rfl⟩ := List.mem_map.mp inside
  refine ⟨?_,?_⟩
  · intro byte found
    rw [List.eq_of_mem_replicate found]
    exact decide_eq_false (not_or.mpr ⟨delimits.one.symm,by decide⟩)
  · apply decide_eq_true
    split
    next => exact .inr rfl
    next => exact .inl rfl

theorem quote_not_mem_dummyRow (delimits : Delimits parser.csvFileDelimiter) : quote ∉ parser.dummyRow := by
  intro inside
  obtain ⟨cell,there,found⟩ := List.mem_flatMap.mp inside
  obtain ⟨column,_,rfl⟩ := List.mem_map.mp there
  obtain digit | behind := List.mem_append.mp found
  · exact absurd (List.eq_of_mem_replicate digit) (by decide)
  · have same := List.mem_singleton.mp behind
    split at same
    next => exact absurd (show quote = newline from same) (by decide)
    next => exact delimits.quoted same.symm

theorem chunk_of_closed (delimits : Delimits parser.csvFileDelimiter) (columns : 0 < parser.inputNumColumns)
    {body : List UInt8} (closed : Closed newline body)
    (fits : ∀ line ∈ ended newline body, (line.splitOn parser.csvFileDelimiter).length = parser.inputNumColumns) :
    Chunk parser parser.dummyCells parser.dummyCells (ended newline body) ∧
      parser.dummyRow ++ body ++
      parser.dummyRow = chunkBytes parser parser.dummyCells parser.dummyCells (ended newline body) := by
  have inner : ∀ line ∈ ended newline body, newline ∉ line := fun line => ended_inner
  have rowsSeparated := @rowCells_separated parser.csvFileDelimiter _ inner
  refine ⟨⟨columns,dummyCells_length,dummyCells_length,fits,
    separated_append (separated_append (dummyCells_separated delimits) rowsSeparated)
      (dummyCells_separated delimits)⟩,?_⟩
  rw [chunkBytes,encode_append,encode_append,encode_rowCells,closed.flatMap_ended]
  rfl

theorem exists_chunk (delimits : Delimits parser.csvFileDelimiter) (discardHeader : Bool) {body : List UInt8}
    (some : body ≠ []) (closes : ∀ filled : body ≠ [], body.getLast filled = newline)
    (fits : ∀ line ∈ ended newline body, (line.splitOn parser.csvFileDelimiter).length = parser.inputNumColumns) :
    ∃ firstCells, Chunk parser firstCells parser.dummyCells (if discardHeader then (ended newline body).tail else ended newline body) ∧
      parser.firstRow discardHeader ++ body ++ parser.dummyRow =
        chunkBytes parser firstCells parser.dummyCells (if discardHeader then (ended newline body).tail else ended newline body) := by
  have whole := flatMap_ended closes
  have inner : ∀ line ∈ ended newline body, newline ∉ line := fun line => ended_inner
  obtain ⟨header,lines,cut⟩ := List.exists_cons_of_ne_nil (show ended newline body ≠ [] by
    intro none
    rw [none] at whole
    exact some whole.symm)
  rw [cut] at whole fits inner ⊢
  obtain ⟨headerFits,linesFit⟩ := List.forall_mem_cons.mp fits
  obtain ⟨headerInner,linesInner⟩ := List.forall_mem_cons.mp inner
  have positive : 0 < parser.inputNumColumns := by
    rw [← headerFits]
    exact List.length_pos_iff.mpr (List.splitOn_ne_nil _ _)
  cases discardHeader with
  | false =>
    have closed : Closed newline body := .inr (by rw [List.getLast?_eq_some_getLast some,closes some])
    exact ⟨parser.dummyCells,cut ▸ chunk_of_closed delimits positive closed (cut ▸ fits)⟩
  | true =>
    have headerSeparated := @rowCells_separated parser.csvFileDelimiter _ (List.forall_mem_singleton.mpr headerInner)
    have alone : rowCells parser.csvFileDelimiter [header] = lineCells parser.csvFileDelimiter
        (header.splitOn parser.csvFileDelimiter) := by
      rw [rowCells,List.flatMap_singleton]
    rw [alone] at headerSeparated
    refine ⟨lineCells parser.csvFileDelimiter (header.splitOn parser.csvFileDelimiter),
      ⟨positive,?_,dummyCells_length,linesFit,
      separated_append (separated_append headerSeparated (rowCells_separated linesInner))
        (dummyCells_separated delimits)⟩,?_⟩
    · rw [lineCells_length,headerFits]
    · change [] ++ body ++ parser.dummyRow = encode (_ ++ rowCells parser.csvFileDelimiter lines ++ _)
      rw [encode_append,encode_append,encode_rowCells,encode_lineCells (List.splitOn_ne_nil _ _),
        List.intercalate_splitOn,← whole,
        List.flatMap_cons]
      rfl

section Loading
variable {discardHeader : Bool} {partialLine buffer file kept rest : List UInt8}

theorem take_read (few : partialLine.length ≤ parser.parseChunkSize) :
    partialLine ++ file.take (parser.parseChunkSize - partialLine.length) =
    (partialLine ++ file).take parser.parseChunkSize := by
  rw [List.take_append,List.take_of_length_le few]

theorem drop_read (few : partialLine.length ≤ parser.parseChunkSize) :
    file.drop (parser.parseChunkSize - partialLine.length) = (partialLine ++ file).drop parser.parseChunkSize := by
  rw [List.drop_append,List.drop_eq_nil_of_le few,List.nil_append]

theorem loadBuffer_eq (few : partialLine.length ≤ parser.parseChunkSize)
    (bounded : (parser.firstRow discardHeader ++ (partialLine ++ file).take parser.parseChunkSize).length + 64 < parser.bufferCapacity)
    (clipped : clip (decide ((partialLine ++ file).length < parser.parseChunkSize))
      (parser.firstRow discardHeader ++ (partialLine ++ file).take parser.parseChunkSize) = .ok (kept,rest))
    (space : (kept ++ parser.dummyRow).length + 64 ≤ parser.bufferCapacity) :
    parser.loadBuffer ⟨discardHeader,partialLine,buffer,file⟩ =
    .ok (((partialLine ++ file).take parser.parseChunkSize).length,
      ⟨false,rest,kept ++ parser.dummyRow,(partialLine ++ file).drop parser.parseChunkSize⟩) := by
  have short : decide ((file.take (parser.parseChunkSize - partialLine.length)).length < parser.parseChunkSize - partialLine.length) =
      decide ((partialLine ++ file).length < parser.parseChunkSize) := by
    rw [decide_eq_decide,List.length_take,List.length_append]
    omega
  have zeroed : (if 64 < parser.bufferCapacity - (kept ++ parser.dummyRow).length + 1 then 64
      else parser.bufferCapacity - (kept ++ parser.dummyRow).length + 1) = 64 := if_pos (by omega)
  unfold loadBuffer
  dsimp only
  rw [List.append_assoc,take_read few,drop_read few,short,if_neg (by omega),if_neg (by omega),clipped]
  dsimp only
  rw [zeroed,if_neg (by omega),← take_read few,List.length_append,Nat.add_comm partialLine.length]

theorem loadBuffer_full (few : partialLine.length ≤ parser.parseChunkSize)
    (bounded : (parser.firstRow discardHeader ++ (partialLine ++ file).take parser.parseChunkSize).length ≤ parser.bufferCapacity)
    (crowded : parser.bufferCapacity ≤ (parser.firstRow discardHeader ++ (partialLine ++ file).take parser.parseChunkSize).length + 64) :
    parser.loadBuffer ⟨discardHeader,partialLine,buffer,file⟩ =
      .error (.exception "Error, failed to read entire input stream, inputSize of %lu was too small") := by
  unfold loadBuffer
  dsimp only
  rw [List.append_assoc,take_read few,if_neg (Nat.not_lt.mpr bounded),if_pos crowded]

end Loading

/-- What stays in the buffer leaves room for the last row and 64 zero bytes, and the places of the separators for all that is
written to the index array, with places of 32 bits. -/
structure Fits (parser : CSVToArrowSIMDStreamParser) (kept : List UInt8) : Prop where
  space : (kept ++ parser.dummyRow).length + 64 ≤ parser.bufferCapacity
  narrow : (kept ++ parser.dummyRow).length + 64 ≤ 4294967296
  haveRoom : HaveRoom (parser.bufferCapacity/4) parser.csvFileDelimiter (kept ++ parser.dummyRow ++ List.replicate 64 0)
    (((kept ++ parser.dummyRow).length + 63)/64)

/-- The loads of a content: each is too large and stopped, or it is the rest of the content, or it has a newline and fits. -/
inductive Loads (parser : CSVToArrowSIMDStreamParser) : Bool → List UInt8 → Prop where
  | full (discardHeader : Bool) (rest : List UInt8)
      (bounded : (parser.firstRow discardHeader ++ rest.take parser.parseChunkSize).length ≤ parser.bufferCapacity)
      (crowded : parser.bufferCapacity ≤ (parser.firstRow discardHeader ++ rest.take parser.parseChunkSize).length + 64) :
      Loads parser discardHeader rest
  | done (bounded : parser.dummyRow.length + 64 < parser.bufferCapacity)
      (space : (parser.dummyRow ++ parser.dummyRow).length + 64 ≤ parser.bufferCapacity)
        (columns : 0 < parser.inputNumColumns) :
      Loads parser false []
  | last (discardHeader : Bool) (rest : List UInt8) (some : rest ≠ []) (short : rest.length < parser.parseChunkSize)
      (bounded : (parser.firstRow discardHeader ++ rest).length + 64 < parser.bufferCapacity)
      (fits : Fits parser (parser.firstRow discardHeader ++ closed rest)) (next : Loads parser false []) :
        Loads parser discardHeader rest
  | chunk (discardHeader : Bool) (front tail behind : List UInt8) (inner : newline ∉ tail)
      (size : (front ++ [newline] ++ tail).length = parser.parseChunkSize)
      (bounded : (parser.firstRow discardHeader ++ (front ++ [newline] ++ tail)).length + 64 < parser.bufferCapacity)
      (fits : Fits parser (parser.firstRow discardHeader ++ (front ++ [newline])))
        (next : Loads parser false (tail ++ behind)) :
      Loads parser discardHeader (front ++ [newline] ++ tail ++ behind)

theorem dummyRow_getLast? (columns : 0 < parser.inputNumColumns) : parser.dummyRow.getLast? = some newline := by
  apply dummyRow_ends.resolve_left
  intro none
  obtain ⟨cell,inside⟩ := List.exists_mem_of_length_pos (show 0 < parser.dummyCells.length by rwa [dummyCells_length])
  exact List.concat_ne_nil _ _ (List.flatMap_eq_nil_iff.mp none cell inside)

section Run
variable {ν : Type} {convert : DataType → List UInt8 → Except String ν}

variable (parser convert) in
/-- What a load leads to: nothing more was there, or the loop goes on and ends with the rows of the lines. -/
def Continues (lines : List (List UInt8)) (result : Except Stop (Nat × Loader)) : Prop :=
  result ≠ .error .outside ∧ ∀ loaded loader, result = .ok (loaded,loader) → (loaded = 0 → lines = []) ∧
    (loaded ≠ 0 → ∀ (initialized : Option (List Nat)) (arrayBuilders : List (List ν))
      (before : List (List (List UInt8))),
      (∀ startEndOffsets, initialized = some startEndOffsets → Ready parser startEndOffsets) →
      Built parser convert (fun _ => before) arrayBuilders → ∃ turns parsed,
        parseAll parser convert turns loader initialized arrayBuilders = some parsed ∧ parsed ≠ .error .outside ∧
        ∀ columns, parsed = .ok columns → Built parser convert (fun _ => before ++ rows parser lines) columns ∧
          ∃ startEndOffsets, Ready parser startEndOffsets)

variable (delimits : Delimits parser.csvFileDelimiter) (distinct : (parser.outputSchema.map Field.name).Nodup)
include delimits distinct

theorem Continues.turn {kept tail file : List UInt8} {firstCells : List (List UInt8 × UInt8)}
    {here later : List (List UInt8)} (chunk : Chunk parser firstCells parser.dummyCells here)
    (bytes : kept ++ parser.dummyRow = chunkBytes parser firstCells parser.dummyCells here) (fits : Fits parser kept)
    (plain : quote ∉ kept ++ parser.dummyRow)
    (next : Continues parser convert later (parser.loadBuffer ⟨false,tail,kept ++ parser.dummyRow,file⟩))
    {loaded : Nat} (filled : loaded ≠ 0) :
    Continues parser convert (here ++ later) (.ok (loaded,⟨false,tail,kept ++ parser.dummyRow,file⟩)) := by
  refine ⟨?_,fun same loader equal => ?_⟩
  · intro wrong
    cases wrong
  obtain ⟨rfl,rfl⟩ := Prod.mk.inj (Except.ok.inj equal)
  refine ⟨fun none => absurd none filled,fun _ initialized arrayBuilders before known built => ?_⟩
  have narrow := fits.narrow
  have haveRoom := fits.haveRoom
  rw [bytes] at plain narrow haveRoom
  obtain ⟨safe,results⟩ := chunk.parseBuffer plain delimits.zero distinct narrow haveRoom known built
  rw [← bytes] at safe results
  cases turn : parser.parseBuffer convert (kept ++ parser.dummyRow) initialized arrayBuilders with
  | error stop =>
    rw [turn] at safe
    refine ⟨1,.error stop,?_,fun wrong => safe (congrArg _ (Except.error.inj wrong)),
      fun columns wrong => by cases wrong⟩
    rw [parseAll,turn]
  | ok result =>
    obtain ⟨startEndOffsets,after⟩ := result
    obtain ⟨ready,grown⟩ := results startEndOffsets after turn
    obtain ⟨loadSafe,leads⟩ := next
    cases load : parser.loadBuffer ⟨false,tail,kept ++ parser.dummyRow,file⟩ with
    | error stop =>
      rw [load] at loadSafe
      refine ⟨1,.error stop,?_,fun wrong => loadSafe (congrArg _ (Except.error.inj wrong)),
        fun columns wrong => by cases wrong⟩
      rw [parseAll,turn]
      dsimp only
      rw [load]
    | ok loaded =>
      obtain ⟨loaded,loader⟩ := loaded
      obtain ⟨ends,goes⟩ := leads loaded loader load
      by_cases none : loaded = 0
      · refine ⟨1,.ok after,?_,?_,fun columns same => ?_⟩
        · rw [parseAll,turn]
          dsimp only
          rw [load]
          exact if_pos none
        · intro wrong
          cases wrong
        · rw [← Except.ok.inj same,ends none,List.append_nil]
          exact ⟨grown,startEndOffsets,ready⟩
      · obtain ⟨turns,parsed,run,parsedSafe,columns⟩ :=
          goes none (some startEndOffsets) after (before ++ rows parser here)
          (fun other same => Option.some.inj same ▸ ready) grown
        refine ⟨turns+1,parsed,?_,parsedSafe,fun all done => ?_⟩
        · rw [parseAll,turn]
          dsimp only
          rw [load]
          exact (if_neg none).trans run
        · have whole := columns all done
          rwa [List.append_assoc,rows,rows,← List.map_append] at whole

omit distinct in
theorem quote_not_mem_filled (discardHeader : Bool) {body : List UInt8} (plain : quote ∉ body) :
    quote ∉ parser.firstRow discardHeader ++ body ++ parser.dummyRow := by
  have last := @quote_not_mem_dummyRow parser delimits
  have first : quote ∉ parser.firstRow discardHeader := by
    cases discardHeader with
    | true => exact List.not_mem_nil
    | false => exact last
  intro inside
  obtain early | late := List.mem_append.mp inside
  · exact (List.mem_append.mp early).elim first plain
  · exact last late

theorem Loads.continues {discardHeader : Bool} {rest : List UInt8} (loads : Loads parser discardHeader rest)
    (fields : ∀ line ∈ fileLines rest, (line.splitOn parser.csvFileDelimiter).length = parser.inputNumColumns)
    (plain : quote ∉ rest) {partialLine buffer file : List UInt8} (few : partialLine.length ≤ parser.parseChunkSize)
    (whole : partialLine ++ file = rest) :
    Continues parser convert (if discardHeader then (fileLines rest).tail else fileLines rest)
      (parser.loadBuffer ⟨discardHeader,partialLine,buffer,file⟩) := by
  induction loads generalizing partialLine buffer file with
  | full discardHeader rest bounded crowded =>
    rw [← whole] at bounded crowded
    rw [loadBuffer_full few bounded crowded]
    refine ⟨?_,fun loaded loader wrong => ?_⟩
    · intro wrong
      cases wrong
    · cases wrong
  | done bounded space columns =>
    obtain ⟨rfl,rfl⟩ := List.append_eq_nil_iff.mp whole
    have taken : parser.firstRow false ++ ([] ++ []).take parser.parseChunkSize = parser.dummyRow := by
      rw [List.append_nil,List.take_nil,List.append_nil]
      rfl
    rw [loadBuffer_eq few (by rwa [taken]) (by rw [taken]; exact clip_ended (dummyRow_getLast? columns)) space]
    refine ⟨?_,fun loaded loader same => ?_⟩
    · intro wrong
      cases wrong
    · obtain ⟨rfl,_⟩ := Prod.mk.inj (Except.ok.inj same)
      refine ⟨fun _ => rfl,fun filled => ?_⟩
      rw [List.append_nil,List.take_nil] at filled
      exact absurd rfl filled
  | last discardHeader rest some short bounded fits next ih =>
    have taken : (partialLine ++ file).take parser.parseChunkSize = rest := by
      rw [whole,List.take_of_length_le (Nat.le_of_lt short)]
    have ends : parser.firstRow discardHeader ++ rest ≠ [] := List.append_ne_nil_of_right_ne_nil _ some
    have load := @loadBuffer_eq parser discardHeader partialLine buffer file _ _ few (by rwa [taken])
      (by rw [taken,whole,decide_eq_true short]; exact clip_short (firstRow_ends discardHeader) ends) fits.space
    rw [taken,whole,List.drop_of_length_le (Nat.le_of_lt short)] at load
    have filled : closed rest ≠ [] := by
      unfold closed
      split
      next => exact some
      next => exact List.concat_ne_nil _ _
    obtain ⟨firstCells,chunk,bytes⟩ := exists_chunk delimits discardHeader filled (fun _ => closed_ends _) fields
    have noQuote : quote ∉ closed rest := by
      unfold closed
      split
      next => exact plain
      next => exact fun inside => (List.mem_append.mp inside).elim plain (by decide)
    have later := @ih (fun line inside => absurd inside List.not_mem_nil) List.not_mem_nil []
      (parser.firstRow discardHeader ++ closed rest ++ parser.dummyRow) [] (Nat.zero_le _) (List.append_nil [])
    rw [load]
    have turned := later.turn delimits distinct chunk bytes fits (quote_not_mem_filled delimits discardHeader noQuote)
      (mt List.length_eq_zero_iff.mp some)
    rwa [show fileLines [] = [] from rfl,if_neg Bool.false_ne_true,List.append_nil] at turned
  | chunk discardHeader front tail behind inner size bounded fits next ih =>
    have taken : (partialLine ++ file).take parser.parseChunkSize = front ++ [newline] ++ tail := by
      rw [whole,← size,List.take_left]
    have dropped : (partialLine ++ file).drop parser.parseChunkSize = behind := by
      rw [whole,← size,List.drop_left]
    have full : ¬(partialLine ++ file).length < parser.parseChunkSize := by
      rw [whole,List.length_append,size]
      exact Nat.not_lt.mpr (Nat.le_add_right _ _)
    have filled : front ++ [newline] ≠ [] := List.concat_ne_nil _ _
    have clipped : clip false (parser.firstRow discardHeader ++ (front ++ [newline] ++ tail)) =
        .ok (parser.firstRow discardHeader ++ (front ++ [newline]),tail) := by
      have here := @clip_full (parser.firstRow discardHeader ++ front) _ inner
      simp only [List.append_assoc] at here ⊢
      exact here
    have load := @loadBuffer_eq parser discardHeader partialLine buffer file _ _ few (by rwa [taken])
      (by rw [taken,decide_eq_false full]; exact clipped) fits.space
    rw [taken,dropped] at load
    have lines : fileLines (front ++ [newline] ++ tail ++ behind) = ended newline (front ++ [newline]) ++
        fileLines (tail ++ behind) := by
      rw [List.append_assoc _ tail]
      exact fileLines_append _ _
    rw [lines] at fields ⊢
    obtain ⟨firstCells,chunk,bytes⟩ := exists_chunk delimits discardHeader filled (fun _ => List.getLast_concat)
      (fun line inside => fields line (List.mem_append_left _ inside))
    have notEarly : quote ∉ front ++ [newline] :=
      fun inside => plain (List.mem_append_left _ (List.mem_append_left _ inside))
    have notLate : quote ∉ tail ++ behind := by
      intro inside
      rw [List.append_assoc] at plain
      exact plain (List.mem_append_right _ inside)
    have few : tail.length ≤ parser.parseChunkSize := by
      rw [← size,List.length_append]
      exact Nat.le_add_left _ _
    have later := @ih (fun line inside => fields line (List.mem_append_right _ inside)) notLate tail
      (parser.firstRow discardHeader ++ (front ++ [newline]) ++ parser.dummyRow) behind few rfl
    rw [load]
    have turned := later.turn delimits distinct chunk bytes fits (quote_not_mem_filled delimits discardHeader notEarly)
      (mt List.length_eq_zero_iff.mp (List.append_ne_nil_of_left_ne_nil filled tail))
    rw [if_neg Bool.false_ne_true] at turned
    cases discardHeader with
    | false => exact turned
    | true =>
      have some : ended newline (front ++ [newline]) ≠ [] := by
        rw [ended_append]
        exact List.append_ne_nil_of_left_ne_nil (List.splitOn_ne_nil _ _) _
      rw [if_pos rfl,List.tail_append_of_ne_nil some]
      exact turned

end Run

end CSVToArrowSIMDStreamParser
end Hermes.Csv
