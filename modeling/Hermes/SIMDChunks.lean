import Hermes.SIMDIndexRoom

/-! What `parseChunk` makes of its chunks, call after call: the rows of the lines that have ended, and the rest as partial line. A
line that fills the buffer keeps the loop in one state. -/
namespace Hermes.Csv.CSVToArrowSIMDChunkParser
open Tuples SIMDParserHelpers Library.Lines Library.Fallible CSVToArrowSIMDStreamParser
variable (parser : CSVToArrowSIMDChunkParser) {ν : Type}

/-- Lines of as many fields as there are columns, without quotes. Whichever of them stand in the buffer together, there is room
for them between the dummy rows, and for the places of their separators. -/
structure Parsable (bytes : List UInt8) : Prop where
  columns : 0 < parser.inputNumColumns
  room : parser.dummyRow.length+parser.parseChunkSize ≤ parser.bufferCapacity
  fits : ∀ front body behind, front ++ body ++ behind = bytes → Closed newline front → WholeLines parser body →
    Fits parser (parser.dummyRow ++ body)
  fields : ∀ line ∈ ended newline bytes, (line.splitOn parser.csvFileDelimiter).length = parser.inputNumColumns
  plain : quote ∉ bytes

section
variable (convert : DataType → List UInt8 → Except String ν)

/-- What the parser has of the bytes it was given. -/
structure Stores (given : List UInt8) (state : ChunkState ν) : Prop where
  partialLine : state.partialLine = given.rtakeWhile (· != newline)
  columns : Built parser convert (fun _ => rows parser (ended newline given)) state.arrayBuilders
  ready : ∀ startEndOffsets, state.startEndOffsets = some startEndOffsets → Ready parser startEndOffsets
  initialized : ended newline given ≠ [] → state.startEndOffsets ≠ none

/-- A call ends, without leaving the memory; where it returns, nothing remains, and all that was given is stored. -/
def Drains (given : List UInt8) (state : ChunkState ν) (call : ChunkCall) : Prop :=
  ∃ turns result, parseChunk parser convert turns state call = some result ∧ result ≠ .error .outside ∧
    ∀ after remaining, result = .ok (after,remaining) → remaining = [] ∧
      Stores parser convert (given ++ call.bytes) after

/-- Each call does, up to one that is stopped. -/
def DrainAll : List UInt8 → ChunkState ν → List ChunkCall → Prop
  | _,_,[] => True
  | given,state,call::calls => Drains parser convert given state call ∧
      ∀ turns after remaining, parseChunk parser convert turns state call = some (.ok (after,remaining)) →
        DrainAll (given ++ call.bytes) after calls

/-- One of the calls is stopped. -/
def Stopped : ChunkState ν → List ChunkCall → Prop
  | _,[] => False
  | state,call::calls => (∃ turns stop, parseChunk parser convert turns state call = some (.error stop)) ∨
      ∃ turns after remaining, parseChunk parser convert turns state call = some (.ok (after,remaining)) ∧
      Stopped after calls

end

variable {parser} {convert : DataType → List UInt8 → Except String ν} {source : ChunkSource}
    {state after : ChunkState ν}
  {given taken remaining behind later bytes : List UInt8} {turns : Nat}

section Turn

theorem load_eq {partialLine : List UInt8} (room : parser.dummyRow.length+parser.parseChunkSize ≤ parser.bufferCapacity)
    (few : partialLine.length ≤ parser.parseChunkSize) :
    load parser partialLine remaining = .ok
      (parser.dummyRow ++ (partialLine ++ remaining.take (parser.parseChunkSize-partialLine.length)),
        remaining.drop (parser.parseChunkSize-partialLine.length)) := by
  have first : (parser.dummyRow ++ partialLine).length ≤ parser.bufferCapacity := by
    rw [List.length_append]
    omega
  have second : (parser.dummyRow ++ partialLine ++ remaining.take
      (parser.parseChunkSize-partialLine.length)).length ≤ parser.bufferCapacity := by
    rw [List.length_append,List.length_append,List.length_take]
    omega
  rw [load,initializeBufferForLoad,if_neg (Nat.not_lt.mpr first)]
  change fillBuffer parser _ _ remaining = _
  rw [fillBuffer,if_neg (Nat.not_lt.mpr second),List.append_assoc]

theorem finishPreparingBufferEnd_eq {filled : List UInt8} (columns : 0 < parser.inputNumColumns)
    (fits : Fits parser (parser.dummyRow ++ filled.rdropWhile (· != newline))) :
    finishPreparingBufferEnd parser false (parser.dummyRow ++ filled) =
      .ok (bufferOf parser (filled.rdropWhile (· != newline)),filled.rtakeWhile (· != newline)) := by
  have last : (parser.dummyRow ++ filled.rdropWhile (· != newline)).getLast? = some newline := by
    obtain none | ends := @closed_rdropWhile _ _ newline filled
    · rw [none,List.append_nil]
      exact dummyRow_getLast? columns
    · rw [List.getLast?_append,ends,Option.some_or]
  obtain ⟨front,cut⟩ := List.getLast?_eq_some_iff.mp last
  have whole : parser.dummyRow ++ filled = front ++ [newline] ++ filled.rtakeWhile (· != newline) := by
    rw [← cut,List.append_assoc,List.rdropWhile_append_rtakeWhile]
  have space := fits.space
  rw [finishPreparingBufferEnd,whole,clip_full not_mem_rtakeWhile,← cut]
  dsimp only
  rw [if_pos (show 64 < _ by omega),if_neg (by omega)]
  rfl

theorem parseFilled_eq {filled : List UInt8} (columns : 0 < parser.inputNumColumns)
    (fits : Fits parser (parser.dummyRow ++ filled.rdropWhile (· != newline))) :
    parseFilled parser convert state false (parser.dummyRow ++ filled) =
      parseAndReadInData parser convert {state with partialLine := filled.rtakeWhile (· != newline)}
        (bufferOf parser (filled.rdropWhile (· != newline))) := by
  rw [parseFilled,finishPreparingBufferEnd_eq columns fits]
  rfl

theorem turn_eq (room : parser.dummyRow.length+parser.parseChunkSize ≤ parser.bufferCapacity)
    (unfinished : Unfinished parser state.partialLine) (more : ¬(source = .data ∧ remaining = [])) :
    turn parser convert source state remaining =
      if source = .stream ∧ (remaining.drop (parser.parseChunkSize-state.partialLine.length)).length = remaining.length then .ok none
      else (parseFilled parser convert state false
          (parser.dummyRow ++ (state.partialLine ++ remaining.take (parser.parseChunkSize-state.partialLine.length)))).bind fun after =>
        .ok (some (after,remaining.drop (parser.parseChunkSize-state.partialLine.length))) := by
  rw [turn,if_neg more,load_eq room unfinished.2]
  rfl

variable (delimits : Delimits parser.csvFileDelimiter) (distinct : (parser.outputSchema.map Field.name).Nodup)
include delimits distinct

theorem Parsable.parseBuffer {front body : List UInt8} (parsable : Parsable parser bytes)
    (cut : front ++ body ++ behind = bytes)
    (closed : Closed newline front) (whole : WholeLines parser body) {before : List (List (List UInt8))}
    (known : ∀ startEndOffsets, state.startEndOffsets = some startEndOffsets → Ready parser startEndOffsets)
    (built : Built parser convert (fun _ => before) state.arrayBuilders) :
    CSVToArrowSIMDStreamParser.parseBuffer parser convert (bufferOf parser body) state.startEndOffsets state.arrayBuilders ≠ .error .outside ∧
    ∀ startEndOffsets columns,
    CSVToArrowSIMDStreamParser.parseBuffer parser convert (bufferOf parser body) state.startEndOffsets
        state.arrayBuilders = .ok (startEndOffsets,columns) →
      Ready parser startEndOffsets ∧
      Built parser convert (fun _ => before ++ rows parser (ended newline body)) columns := by
  have lines : ended newline bytes = ended newline front ++ (ended newline body ++ ended newline behind) := by
    rw [← cut,List.append_assoc,closed.ended_append,whole.1.ended_append]
  have fields : ∀ line ∈ ended newline body, (line.splitOn parser.csvFileDelimiter).length =
      parser.inputNumColumns := fun line inside =>
    parsable.fields line (lines ▸ List.mem_append_right _ (List.mem_append_left _ inside))
  have plain : quote ∉ body := fun inside =>
    parsable.plain (cut ▸ List.mem_append_left _ (List.mem_append_right _ inside))
  have fits := parsable.fits front body behind cut closed whole
  obtain ⟨chunk,same⟩ := chunk_of_closed delimits parsable.columns whole.1 fields
  have unquoted := quote_not_mem_filled delimits false plain
  have narrow := fits.narrow
  have haveRoom := fits.haveRoom
  change quote ∉ parser.dummyRow ++ body ++ parser.dummyRow at unquoted
  rw [bufferOf]
  rw [same] at unquoted narrow haveRoom ⊢
  exact chunk.parseBuffer unquoted delimits.zero distinct narrow haveRoom known built

theorem parseFilled_stores (parsable : Parsable parser bytes) (cut : given ++ taken ++ behind = bytes)
    (stores : Stores parser convert given state) (few : (state.partialLine ++ taken).length ≤ parser.parseChunkSize) :
    parseFilled parser convert state false (parser.dummyRow ++ (state.partialLine ++ taken)) ≠ .error .outside ∧
    ∀ after, parseFilled parser convert state false (parser.dummyRow ++ (state.partialLine ++ taken)) = .ok after →
      Stores parser convert (given ++ taken) after := by
  obtain ⟨front,closed,parts⟩ : ∃ front, Closed newline front ∧ front ++ state.partialLine = given :=
    ⟨_,closed_rdropWhile given,stores.partialLine ▸ List.rdropWhile_append_rtakeWhile⟩
  have missing : newline ∉ state.partialLine := stores.partialLine ▸ not_mem_rtakeWhile
  have lines : ended newline given = ended newline front := by rw [← parts,ended_append_of_not_mem front missing]
  have whole : given ++ taken = front ++ (state.partialLine ++ taken) := by rw [← parts,List.append_assoc]
  generalize state.partialLine ++ taken = filled at few whole ⊢
  have split : filled.rdropWhile (· != newline) ++ filled.rtakeWhile (· != newline) = filled :=
      List.rdropWhile_append_rtakeWhile
  have sizes := congrArg List.length split
  rw [List.length_append] at sizes
  have body : WholeLines parser (filled.rdropWhile (· != newline)) := ⟨closed_rdropWhile filled,by omega⟩
  have place : front ++ filled.rdropWhile (· != newline) ++ (filled.rtakeWhile (· != newline) ++ behind) = bytes := by
    rw [← List.append_assoc,List.append_assoc front,split,← whole,cut]
  obtain ⟨safe,results⟩ := parsable.parseBuffer delimits distinct place closed body stores.ready stores.columns
  rw [parseFilled_eq parsable.columns (parsable.fits _ _ _ place closed body),parseAndReadInData]
  refine ⟨bind_ne_error safe fun _ _ => nofun,fun after parsed => ?_⟩
  obtain ⟨⟨startEndOffsets,arrayBuilders⟩,read,result⟩ := bind_eq_ok.mp parsed
  obtain rfl := Except.ok.inj result
  obtain ⟨ready,built⟩ := results startEndOffsets arrayBuilders read
  refine ⟨?_,?_,fun other same => Option.some.inj same ▸ ready,fun _ => nofun⟩
  · rw [whole,closed.rtakeWhile_append]
  · have all : ended newline (given ++ taken) = ended newline given ++ ended newline
        (filled.rdropWhile (· != newline)) := by
      rw [whole,closed.ended_append,lines,← ended_append_of_not_mem (filled.rdropWhile (· != newline))
        (@not_mem_rtakeWhile _ _ newline filled),split]
    rw [all,rows,List.map_append]
    exact built

theorem turn_stores (parsable : Parsable parser bytes) (cut : given ++ remaining ++ later = bytes)
    (stores : Stores parser convert given state) (unfinished : Unfinished parser state.partialLine) :
    turn parser convert source state remaining ≠ .error .outside ∧
    ∀ after behind, turn parser convert source state remaining = .ok (some (after,behind)) →
      ∃ taken, taken ++ behind = remaining ∧ Stores parser convert (given ++ taken) after := by
  have parts := List.take_append_drop (parser.parseChunkSize-state.partialLine.length) remaining
  have few : (state.partialLine ++ remaining.take
      (parser.parseChunkSize-state.partialLine.length)).length ≤ parser.parseChunkSize := by
    have fits := unfinished.2
    rw [List.length_append,List.length_take]
    omega
  obtain ⟨safe,results⟩ := parseFilled_stores delimits distinct parsable
    (show given ++ remaining.take _ ++ (remaining.drop (parser.parseChunkSize-state.partialLine.length) ++ later) = bytes by
      rw [← cut,List.append_assoc,← List.append_assoc (remaining.take _),parts,List.append_assoc]) stores few
  by_cases more : source = .data ∧ remaining = []
  · rw [turn,if_pos more]
    exact ⟨nofun,nofun⟩
  · rw [turn_eq parsable.room unfinished more]
    split
    next => exact ⟨nofun,nofun⟩
    next =>
      refine ⟨bind_ne_error safe fun _ _ => nofun,fun after behind turned => ?_⟩
      obtain ⟨next,parsed,result⟩ := bind_eq_ok.mp turned
      obtain ⟨rfl,rfl⟩ := Prod.mk.inj (Option.some.inj (Except.ok.inj result))
      exact ⟨_,parts,results next parsed⟩

theorem parseLoop_stores (parsable : Parsable parser bytes) (cut : given ++ remaining ++ later = bytes)
    (stores : Stores parser convert given state)
    (unfinished : Unfinished parser state.partialLine) {result : Except Stop (ChunkState ν × List UInt8)}
    (ended : parseLoop parser convert source turns state remaining = some result) :
    result ≠ .error .outside ∧ ∀ after behind, result = .ok (after,behind) →
      ∃ taken, taken ++ behind = remaining ∧ Stores parser convert (given ++ taken) after := by
  induction turns generalizing given state remaining with
  | zero => cases ended
  | succ turns ih =>
    obtain ⟨safe,goes⟩ := @turn_stores _ _ _ source _ _ _ _ _ delimits distinct parsable cut stores unfinished
    rw [parseLoop] at ended
    split at ended
    next stop stopped =>
      obtain rfl := Option.some.inj ended
      refine ⟨fun wrong => safe (stopped.trans (congrArg _ (Except.error.inj wrong))),?_⟩
      intro after behind wrong
      cases wrong
    next =>
      obtain rfl := Option.some.inj ended
      refine ⟨(by intro wrong; cases wrong),fun after behind same => ?_⟩
      obtain ⟨rfl,rfl⟩ := Prod.mk.inj (Except.ok.inj same)
      exact ⟨[],rfl,by rwa [List.append_nil]⟩
    next middle rest turned =>
      obtain ⟨taken,split,stored⟩ := goes middle rest turned
      obtain ⟨_,_,still,_⟩ := turn_some unfinished turned
      obtain ⟨out,results⟩ := ih (by rw [← cut,← split]; simp only [List.append_assoc]) stored still ended
      refine ⟨out,fun after behind same => ?_⟩
      obtain ⟨more,split',stored'⟩ := results after behind same
      exact ⟨taken ++ more,by rw [List.append_assoc,split',split],by rwa [← List.append_assoc]⟩

end Turn

section Room

theorem written_le (cnt : Nat) : written cnt ≤ cnt+16 := by
  unfold written
  split
  next => exact Nat.zero_le _
  split
  next => omega
  split
  next => omega
  next => exact Nat.le_add_right _ _

variable (delimits : Delimits parser.csvFileDelimiter)
  (few : parser.parseChunkSize+2*parser.inputNumColumns+16 ≤ parser.bufferCapacity/4)
include delimits few

/-- With a chunk size of at most about ninety bytes the places have room whatever the lines are. -/
theorem fits_of_few {body : List UInt8} (whole : WholeLines parser body) : Fits parser (parser.dummyRow ++ body) := by
  have size := whole.2
  have row : parser.dummyRow.length ≤ parser.inputNumColumns+63 := length_dummyRow_le
  have capacity : parser.bufferCapacity = parser.parseChunkSize+256+(64-(parser.parseChunkSize+256)%64) := rfl
  have length : (parser.dummyRow ++ body ++ parser.dummyRow).length = 2*parser.dummyRow.length+body.length := by
    rw [List.length_append,List.length_append]
    omega
  refine ⟨by omega,by omega,fun block _ => ?_⟩
  have zero : isSeparator parser.csvFileDelimiter 0 ≠ true := fun found =>
    (of_decide_eq_true found).elim (fun same => delimits.zero same.symm) (by decide)
  have all : (parser.dummyRow ++ body ++ parser.dummyRow ++ List.replicate 64 0).countP
      (isSeparator parser.csvFileDelimiter) =
      2*parser.inputNumColumns+body.countP (isSeparator parser.csvFileDelimiter) := by
    rw [List.countP_append,List.countP_replicate,if_neg zero,List.countP_append,List.countP_append,
      countP_dummyRow delimits]
    omega
  generalize parser.dummyRow ++ body ++ parser.dummyRow ++ List.replicate 64 0 = buffer at all ⊢
  have parts := (List.take_sublist (64*block+64) buffer).countP_le (p := isSeparator parser.csvFileDelimiter)
  have separators : body.countP (isSeparator parser.csvFileDelimiter) ≤ body.length := List.countP_le_length
  have most := written_le (((buffer.drop (64*block)).take 64).countP (isSeparator parser.csvFileDelimiter))
  rw [List.take_add,List.countP_append] at parts
  rw [Library.Cells.length_positions,Library.Cells.length_positions]
  omega

theorem parsable_of_few (columns : 0 < parser.inputNumColumns)
    (fields : ∀ line ∈ ended newline bytes, (line.splitOn parser.csvFileDelimiter).length = parser.inputNumColumns)
    (plain : quote ∉ bytes) :
    Parsable parser bytes := by
  have row : parser.dummyRow.length ≤ parser.inputNumColumns+63 := length_dummyRow_le
  have capacity : parser.bufferCapacity = parser.parseChunkSize+256+(64-(parser.parseChunkSize+256)%64) := rfl
  exact ⟨columns,by omega,fun _ _ _ _ _ whole => fits_of_few delimits few whole,fields,plain⟩

end Room

section Calls

theorem drainAll_of_linesFit (delimits : Delimits parser.csvFileDelimiter)
    (distinct : (parser.outputSchema.map Field.name).Nodup)
    (parsable : Parsable parser bytes) (stores : Stores parser convert given state)
    (unfinished : Unfinished parser state.partialLine)
    (calls : List ChunkCall) (cut : given ++ calls.flatMap ChunkCall.bytes = bytes)
    (fit : LinesFit newline parser.parseChunkSize (state.partialLine ++ calls.flatMap ChunkCall.bytes)) :
    DrainAll parser convert given state calls := by
  induction calls generalizing given state with
  | nil => trivial
  | cons call calls ih =>
    rw [List.flatMap_cons,← List.append_assoc] at fit cut
    have stored {turns : Nat} {after : ChunkState ν} {remaining : List UInt8}
        (returned : parseChunk parser convert turns state call = some (.ok (after,remaining))) :
        remaining = [] ∧ Unfinished parser after.partialLine ∧ Stores parser convert (given ++ call.bytes) after ∧
          LinesFit newline parser.parseChunkSize (after.partialLine ++ calls.flatMap ChunkCall.bytes) := by
      obtain ⟨rfl,carried,_,behind⟩ := parseLoop_drains unfinished _ fit returned
      obtain ⟨taken,all,stored⟩ := (parseLoop_stores delimits distinct parsable cut stores unfinished returned).2 after [] rfl
      exact ⟨rfl,carried,by rwa [← all,List.append_nil],behind⟩
    obtain ⟨turns,result,ended⟩ := parseLoop_ends call.source unfinished _ fit
    refine ⟨⟨turns,result,ended,(parseLoop_stores delimits distinct parsable cut stores unfinished ended).1,?_⟩,?_⟩
    · rintro after remaining rfl
      obtain ⟨all,_,all',_⟩ := stored ended
      exact ⟨all,all'⟩
    · intro turns after remaining returned
      obtain ⟨_,carried,stores,behind⟩ := stored returned
      exact ih stores carried cut behind

theorem linesFit_of_drainAll (unfinished : Unfinished parser state.partialLine) (calls : List ChunkCall)
    (drains : DrainAll parser convert given state calls) (returns : ¬Stopped parser convert state calls) :
    LinesFit newline parser.parseChunkSize (state.partialLine ++ calls.flatMap ChunkCall.bytes) := by
  induction calls generalizing given state with
  | nil =>
    rw [List.flatMap_nil,List.append_nil]
    exact linesFit_of_not_mem unfinished.1 unfinished.2
  | cons call calls ih =>
    obtain ⟨⟨turns,result,ended,_,drained⟩,next⟩ := drains
    cases result with
    | error stop => exact absurd (.inl ⟨turns,stop,ended⟩) returns
    | ok returned =>
      obtain ⟨after,remaining⟩ := returned
      obtain ⟨carried,reads,_⟩ := parseLoop_reads unfinished ended
      obtain ⟨rfl,_⟩ := drained after remaining rfl
      have behind := ih carried (next turns after [] ended) fun stopped => returns (.inr ⟨turns,after,[],ended,stopped⟩)
      rw [List.flatMap_cons,← List.append_assoc,reads.linesFit,List.append_nil]
      exact behind

theorem initialState_stores : Stores parser convert [] (initialState parser) :=
  ⟨rfl,built_nil,nofun,fun filled => absurd rfl filled⟩

/-- All calls end with their chunks stored where every line of the chunks together fits into the buffer and can be parsed in it;
and only where they fit, unless a call is stopped. -/
theorem parseChunk_drains (convert : DataType → List UInt8 → Except String ν) (calls : List ChunkCall) :
    (Delimits parser.csvFileDelimiter → (parser.outputSchema.map Field.name).Nodup →
      Parsable parser (calls.flatMap ChunkCall.bytes) →
      LinesFit newline parser.parseChunkSize (calls.flatMap ChunkCall.bytes) → DrainAll parser convert []
      (initialState parser) calls) ∧
    (DrainAll parser convert [] (initialState parser) calls → ¬Stopped parser convert (initialState parser) calls →
      LinesFit newline parser.parseChunkSize (calls.flatMap ChunkCall.bytes)) := by
  have unfinished : Unfinished parser (initialState parser : ChunkState ν).partialLine := ⟨List.not_mem_nil,
      Nat.zero_le _⟩
  exact ⟨fun delimits distinct parsable => drainAll_of_linesFit delimits distinct parsable initialState_stores unfinished calls rfl,
    linesFit_of_drainAll unfinished calls⟩

theorem three_chunks_drain : DrainAll narrowParser text [] (initialState narrowParser)
    [⟨.data,[49,44,50]⟩,⟨.stream,[10,51,51,44,52,52,10,53]⟩,⟨.data,[44,54,55,10,56,44,48,48,48,48,48,48]⟩] := by
  have delimits : Delimits narrowParser.csvFileDelimiter := ⟨by decide,by decide,by decide⟩
  exact (parseChunk_drains text _).1 delimits (by decide)
    (parsable_of_few delimits (by decide) (by decide) (by decide) (by decide)) (by decide)

theorem parseLoop_stuck (still : turn parser convert source state bytes = .ok (some (state,bytes))) (turns : Nat) :
    parseLoop parser convert source turns state bytes = none := by
  induction turns with
  | zero => rfl
  | succ turns ih =>
    rw [parseLoop,still]
    exact ih

/-- A line of 8 bytes whose newline is not read any more. -/
theorem long_line_loops : ¬DrainAll narrowParser text [] (initialState narrowParser)
    [⟨.data,[51,51,44,52,52,52,52,52,10]⟩] := by
  rintro ⟨⟨turns,result,ended,_,_⟩,_⟩
  have first : turn narrowParser text .data (initialState narrowParser) [51,51,44,52,52,52,52,52,10] =
      .ok (some (⟨[51,51,44,52,52,52,52,52],some [1],[[]]⟩,[10])) := by decide +kernel
  have again : turn narrowParser text .data ⟨[51,51,44,52,52,52,52,52],some [1],[[]]⟩ [10] =
      .ok (some (⟨[51,51,44,52,52,52,52,52],some [1],[[]]⟩,[10])) := by decide +kernel
  cases turns with
  | zero => cases ended
  | succ turns =>
    rw [parseChunk,parseLoop] at ended
    dsimp only at ended
    rw [first] at ended
    dsimp only at ended
    rw [parseLoop_stuck again] at ended
    cases ended

end Calls

end Hermes.Csv.CSVToArrowSIMDChunkParser
