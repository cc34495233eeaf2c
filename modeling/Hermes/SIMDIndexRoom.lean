import Hermes.CSVToArrowSIMDChunkParser

/-! The arrays of `CSVToArrowSIMDChunkParser` and what is written into them: the places that `find_indexes` finds, and the two
dummy rows around the lines. The array of the places has as many bytes as the buffer, so that it has room for a fourth of them. -/
namespace Hermes.Csv
open Tuples SIMDParserHelpers Library.Lines Library.Cells Library.Fallible

section Found
variable {delimiter : UInt8} {insideQuote : Bool} {idx : Nat}

theorem fieldBits_append (front rest : List UInt8) : fieldBits delimiter insideQuote idx (front ++ rest) =
    ((fieldBits delimiter insideQuote idx front).1 ++
        (fieldBits delimiter (fieldBits delimiter insideQuote idx front).2 (idx+front.length) rest).1,
      (fieldBits delimiter (fieldBits delimiter insideQuote idx front).2 (idx+front.length) rest).2) := by
  induction front generalizing insideQuote idx with
  | nil => rfl
  | cons byte front ih =>
    rw [List.cons_append,fieldBits,ih,fieldBits,List.length_cons,Nat.add_right_comm,Nat.add_assoc]
    split
    next => rfl
    next => rfl

theorem length_fieldBits_le (bytes : List UInt8) :
    (fieldBits delimiter insideQuote idx bytes).1.length ≤ bytes.countP (isSeparator delimiter) := by
  induction bytes generalizing insideQuote idx with
  | nil => exact Nat.le_refl _
  | cons byte bytes ih =>
    have later := @ih (xor insideQuote (byte == quote)) (idx+1)
    rw [fieldBits,List.countP_cons]
    dsimp only
    by_cases found : (byte = delimiter ∨ byte = newline) ∧ xor insideQuote (byte == quote) = false
    · rw [if_pos found,if_pos (show isSeparator delimiter byte = true from decide_eq_true found.1),List.length_cons]
      exact Nat.succ_le_succ later
    · rw [if_neg found]
      exact Nat.le_add_right_of_le later

theorem length_fieldBits {bytes : List UInt8} (plain : quote ∉ bytes) :
    (fieldBits delimiter false idx bytes).1.length = bytes.countP (isSeparator delimiter) := by
  induction bytes generalizing idx with
  | nil => rfl
  | cons byte bytes ih =>
    rw [List.mem_cons,not_or] at plain
    rw [fieldBits,outside_of_ne plain.1,List.countP_cons]
    dsimp only
    by_cases sep : byte = delimiter ∨ byte = newline
    · rw [if_pos ⟨sep,rfl⟩,if_pos (show isSeparator delimiter byte = true from decide_eq_true sep),List.length_cons,
        ih plain.2]
    · have not : isSeparator delimiter byte ≠ true := fun found => sep (of_decide_eq_true found)
      rw [if_neg (fun both => sep both.1),if_neg not,Nat.add_zero]
      exact ih plain.2

theorem le_written (cnt : Nat) : cnt ≤ written cnt := by
  unfold written
  split
  next => omega
  split
  next => assumption
  split
  next => assumption
  next => exact Nat.le_refl _

theorem findIndexes_eq_ok {room blocks : Nat} {bytes : List UInt8} {before indexes : List Nat}
    (fit : before.length ≤ room)
    (found : findIndexes room delimiter blocks insideQuote idx bytes before = .ok indexes) :
    indexes = before ++ (fieldBits delimiter insideQuote idx (bytes.take (64*blocks))).1 ∧ indexes.length ≤ room := by
  induction blocks generalizing insideQuote idx bytes before with
  | zero =>
    obtain rfl := Except.ok.inj found
    rw [Nat.mul_zero,List.take_zero,fieldBits,List.append_nil]
    exact ⟨rfl,fit⟩
  | succ blocks ih =>
    have parts : (fieldBits delimiter insideQuote idx (bytes.take (64*(blocks+1)))).1 =
        (fieldBits delimiter insideQuote idx (bytes.take 64)).1 ++
          (fieldBits delimiter (fieldBits delimiter insideQuote idx (bytes.take 64)).2 (idx+64)
            ((bytes.drop 64).take (64*blocks))).1 := by
      rw [Nat.mul_succ,Nat.add_comm,List.take_add,fieldBits_append]
      by_cases full : 64 ≤ bytes.length
      · rw [List.length_take_of_le full]
      · rw [List.drop_eq_nil_of_le (Nat.le_of_not_le full),List.take_nil]
        rfl
    have least := le_written (fieldBits delimiter insideQuote idx (bytes.take 64)).1.length
    rw [findIndexes] at found
    by_cases crowded : room < before.length + written (fieldBits delimiter insideQuote idx (bytes.take 64)).1.length
    · rw [if_pos crowded] at found
      cases found
    · rw [if_neg crowded] at found
      obtain ⟨all,few⟩ := ih (by rw [List.length_append]; omega) found
      rw [parts,all,List.append_assoc]
      rw [all,List.append_assoc] at few
      exact ⟨rfl,few⟩

theorem findIndexes_eq_error {room blocks : Nat} {bytes : List UInt8} {before : List Nat} {stop : Stop}
    (stopped : findIndexes room delimiter blocks insideQuote idx bytes before = .error stop) : stop = .outside := by
  induction blocks generalizing insideQuote idx bytes before with
  | zero => cases stopped
  | succ blocks ih =>
    rw [findIndexes] at stopped
    by_cases crowded : room < before.length + written (fieldBits delimiter insideQuote idx (bytes.take 64)).1.length
    · rw [if_pos crowded] at stopped
      exact (Except.error.inj stopped).symm
    · rw [if_neg crowded] at stopped
      exact ih stopped

end Found

namespace CSVToArrowSIMDChunkParser
open CSVToArrowSIMDStreamParser
variable (parser : CSVToArrowSIMDChunkParser)

/-- The places in the blocks of 64 bytes that the buffer takes, with zeros behind it. -/
def foundIndexes (buffer : List UInt8) : List Nat :=
  (fieldBits parser.csvFileDelimiter false 0 ((buffer ++ List.replicate 64 0).take (64*((buffer.length + 63)/64)))).1

/-- The places have room in their array, and the dummy rows in the buffer. -/
structure HasRoom (body : List UInt8) : Prop where
  indexes : (foundIndexes parser (bufferOf parser body)).length ≤ parser.bufferCapacity/4
  rows : (bufferOf parser body).length ≤ parser.bufferCapacity

variable {parser} {body buffer : List UInt8}

theorem load_wholeLines (whole : WholeLines parser body) :
    (load parser [] body >>= fun loaded => finishPreparingBufferEnd parser false loaded.1) =
    .ok (bufferOf parser body,[]) ∨
      (load parser [] body >>= fun loaded => finishPreparingBufferEnd parser false loaded.1) = .error .outside := by
  have loaded : load parser [] body = .error .outside ∨ load parser [] body = .ok (parser.dummyRow ++ body,[]) := by
    rw [load,initializeBufferForLoad,List.append_nil]
    obtain narrow | wide := ite_eq_or_eq (parser.bufferCapacity < parser.dummyRow.length) (Except.error Stop.outside)
      (.ok (parser.dummyRow,parser.parseChunkSize - ([] : List UInt8).length))
    · rw [narrow]
      exact .inl rfl
    · rw [wide]
      change fillBuffer parser parser.dummyRow (parser.parseChunkSize - 0) body = _ ∨
        fillBuffer parser parser.dummyRow (parser.parseChunkSize - 0) body = _
      rw [fillBuffer,Nat.sub_zero,List.take_of_length_le whole.2,List.drop_eq_nil_of_le whole.2]
      exact ite_eq_or_eq _ _ _
  have finished : finishPreparingBufferEnd parser false (parser.dummyRow ++ body) = .error .outside ∨
      finishPreparingBufferEnd parser false (parser.dummyRow ++ body) = .ok (bufferOf parser body,[]) := by
    by_cases empty : parser.dummyRow ++ body = []
    · rw [empty]
      exact .inl rfl
    · have ends : (parser.dummyRow ++ body).getLast? = some newline := by
        obtain none | last := whole.1
        · rw [none,List.append_nil] at empty ⊢
          exact dummyRow_ends.resolve_left empty
        · rw [List.getLast?_append,last,Option.some_or]
      rw [finishPreparingBufferEnd,clip_ended ends]
      exact ite_eq_or_eq _ _ _
  obtain outside | loaded := loaded
  · rw [outside]
    exact .inr rfl
  · rw [loaded]
    exact finished.symm

theorem parsedIndexes_outside (crowded : parser.bufferCapacity/4 < (foundIndexes parser buffer).length) :
    parser.parsedIndexes buffer = .error .outside := by
  cases found : parser.parsedIndexes buffer with
  | ok indexes =>
    obtain ⟨same,few⟩ := findIndexes_eq_ok (Nat.zero_le _) found
    rw [same,List.nil_append] at few
    exact absurd few (Nat.not_le.mpr crowded)
  | error stop => rw [findIndexes_eq_error found]

theorem countP_dummyRow (delimits : Delimits parser.csvFileDelimiter) :
    parser.dummyRow.countP (isSeparator parser.csvFileDelimiter) = parser.inputNumColumns := by
  have cells := @positions_encode_length _ _ 0 _ (dummyCells_separated delimits)
  rw [length_positions,dummyCells_length] at cells
  exact cells

theorem countP_bufferOf (delimits : Delimits parser.csvFileDelimiter) (body : List UInt8) :
    ((bufferOf parser body ++ List.replicate 64 0).take (64*(((bufferOf parser body).length + 63)/64))).countP
        (isSeparator parser.csvFileDelimiter) =
      2*parser.inputNumColumns + body.countP (isSeparator parser.csvFileDelimiter) := by
  have zero : isSeparator parser.csvFileDelimiter 0 ≠ true := by
    intro found
    obtain same | same := of_decide_eq_true found
    · exact delimits.zero same.symm
    · exact absurd same (by decide)
  rw [take_blocks,List.countP_append,List.countP_replicate,if_neg zero,Nat.add_zero,bufferOf,List.countP_append,
    List.countP_append,
    countP_dummyRow delimits]
  omega

theorem length_dummyRow_le : parser.dummyRow.length ≤ parser.inputNumColumns + 63 := by
  have even : ∀ cell ∈ parser.dummyCells, cell.1.length = parser.dummyColWidth - 1 := by
    intro cell inside
    obtain ⟨column,_,rfl⟩ := List.mem_map.mp inside
    exact List.length_replicate
  rw [dummyRow,length_encode even,dummyCells_length]
  by_cases none : parser.inputNumColumns = 0
  · rw [none,Nat.zero_mul]
    exact Nat.zero_le _
  · have positive : 0 < parser.inputNumColumns := Nat.pos_of_ne_zero none
    have width : parser.dummyColWidth - 1 + 1 = (64 + parser.inputNumColumns - 1)/parser.inputNumColumns :=
      Nat.sub_add_cancel (Nat.div_pos (by omega) positive)
    rw [width]
    have most := Nat.mul_div_le (64 + parser.inputNumColumns - 1) parser.inputNumColumns
    omega

theorem length_foundIndexes_le (delimits : Delimits parser.csvFileDelimiter) (body : List UInt8) :
    (foundIndexes parser (bufferOf parser body)).length ≤
      2*parser.inputNumColumns + body.countP (isSeparator parser.csvFileDelimiter) := by
  rw [foundIndexes,← countP_bufferOf delimits]
  exact length_fieldBits_le _

theorem length_foundIndexes (delimits : Delimits parser.csvFileDelimiter) (plain : quote ∉ body) :
    (foundIndexes parser (bufferOf parser body)).length =
      2*parser.inputNumColumns + body.countP (isSeparator parser.csvFileDelimiter) := by
  have missing : quote ∉ parser.dummyRow := quote_not_mem_dummyRow delimits
  have zeros : quote ∉ List.replicate 64 0 := fun padded => absurd (List.eq_of_mem_replicate padded) (by decide)
  rw [foundIndexes,← countP_bufferOf delimits]
  apply length_fieldBits
  intro inside
  have everywhere := List.mem_of_mem_take inside
  simp only [bufferOf,List.mem_append,missing,plain,zeros,or_false] at everywhere

/-- Every buffer that can come has room only where one has that holds nothing but newlines. -/
theorem hasRoom_iff (delimits : Delimits parser.csvFileDelimiter) :
    (∀ body, WholeLines parser body → HasRoom parser body) ↔
    parser.parseChunkSize + 2*parser.inputNumColumns ≤ parser.bufferCapacity/4 := by
  constructor
  · intro room
    have plain : quote ∉ List.replicate parser.parseChunkSize newline :=
      fun inside => absurd (List.eq_of_mem_replicate inside) (by decide)
    have isSep : isSeparator parser.csvFileDelimiter newline = true := decide_eq_true (.inr rfl)
    have indexes := (room _ ⟨closed_replicate _,Nat.le_of_eq List.length_replicate⟩).indexes
    rw [length_foundIndexes delimits plain,List.countP_replicate,if_pos isSep] at indexes
    omega
  · intro few body whole
    have size := whole.2
    have found := length_foundIndexes_le delimits body
    have separators : body.countP (isSeparator parser.csvFileDelimiter) ≤ body.length := List.countP_le_length
    have row : parser.dummyRow.length ≤ _ := length_dummyRow_le
    constructor
    · omega
    · rw [bufferOf,List.length_append,List.length_append]
      unfold bufferCapacity at few ⊢
      omega

theorem narrowParser_hasRoom : HasRoom narrowParser [44,10,44,10,44,10,44,10] :=
  (@hasRoom_iff narrowParser ⟨by decide,by decide,by decide⟩).mpr (by decide) _ ⟨.inr rfl,by decide⟩

/-- Two columns, in chunks of 128 bytes. -/
def shortParser : CSVToArrowSIMDChunkParser := ⟨128,[⟨"a",.string⟩,⟨"b",.string⟩],[⟨"b",.string⟩],44⟩

def emptyFields : List UInt8 := (List.replicate 64 [44,newline]).flatten

/-- 200 columns, in chunks of 64 bytes. -/
def wideParser : CSVToArrowSIMDChunkParser := ⟨64,List.replicate 200 ⟨"a",.string⟩,[⟨"a",.string⟩],44⟩

/-- Rows of empty fields have 132 places for an array of 112, and the dummy rows of many columns are longer than the buffer. -/
theorem emptyFields_no_room : WholeLines shortParser emptyFields ∧ ¬HasRoom shortParser emptyFields ∧
    parseChunk shortParser text 1 (initialState shortParser) ⟨.data,emptyFields⟩ = some (.error .outside) ∧
    WholeLines wideParser [] ∧ ¬HasRoom wideParser [] := by
  refine ⟨⟨.inr (by decide +kernel),by decide +kernel⟩,?_,by decide +kernel,⟨.inl rfl,Nat.zero_le _⟩,?_⟩
  · intro room
    exact absurd room.indexes (by decide +kernel)
  · intro room
    exact absurd room.rows (by decide +kernel)

end CSVToArrowSIMDChunkParser
end Hermes.Csv
