import Hermes.CSVParser
import Hermes.POpContext

/-! `S3CSVParser`: a payload of an S3 Select response is parsed up to its last newline, and what follows that newline
stands in front of the next payload. -/
namespace Hermes.Csv
open Tuples Operators Library.Lines
variable {ν : Type}

/-- The options of the Arrow reader that the parser sets. -/
structure ReaderOptions where
  delimiter : UInt8
  columnNames : List String
  columnTypes : List (String × DataType)

structure S3CSVParser where
  columnNames : List String
  schema : List Field
  csvDelimiter : UInt8
  partialPayload : List UInt8

namespace S3CSVParser

def make (columnNames : List String) (schema : List Field) (csvDelimiter : UInt8) : S3CSVParser :=
  ⟨columnNames,schema,csvDelimiter,[]⟩

def columnType (parser : S3CSVParser) (columnName : String) : Except Fault (String × DataType) :=
  match (getFieldIndex parser.schema columnName).bind (parser.schema[·]?) with
  | none => .error .nullDereference
  | some field => .ok (columnName,field.type)

section
-- Arrow's reader: an exception where it cannot be made, an error where a table cannot be read
variable (read : ReaderOptions → List UInt8 → Except Fault (Except String (Table ν))) (parser : S3CSVParser)

def parseCompletePayload (records : List UInt8) : Except Fault (Except String (Table ν)) := do
  let columnTypes ← parser.columnNames.mapM parser.columnType
  read ⟨parser.csvDelimiter,parser.columnNames,columnTypes⟩ records

def prepended (payload : List UInt8) : List UInt8 := parser.partialPayload ++ payload

/-- The place behind the last newline, as the distance of the reverse iterators. -/
def endOfRecords (payload : List UInt8) : Nat := (payload.reverse.dropWhile (· != newline)).length

def parse (payload : List UInt8) : S3CSVParser × Except Fault (Except String (Option (Table ν))) :=
  let payload := parser.prepended payload
  let pos := endOfRecords payload
  let next := {parser with partialPayload := payload.drop pos}
  if 0 < pos then (next,(next.parseCompletePayload read (payload.take pos)).map fun parsed => parsed.map some)
  else (next,.ok (.ok none))

/-- The part of a payload that is parsed. -/
def completed (payload : List UInt8) : Option (List UInt8) :=
  if 0 < endOfRecords (parser.prepended payload) then
    some ((parser.prepended payload).take (endOfRecords (parser.prepended payload)))
  else none

end
end S3CSVParser

/-- A parser behind some payloads, with the part of each that it has parsed and the result for each. -/
structure Received (ν : Type) where
  parser : S3CSVParser
  segments : List (Option (List UInt8))
  results : List (Except Fault (Except String (Option (Table ν))))

namespace Received
variable (read : ReaderOptions → List UInt8 → Except Fault (Except String (Table ν)))

def receive (received : Received ν) (payload : List UInt8) : Received ν :=
  let parsed := received.parser.parse read payload
  ⟨parsed.1,received.segments ++ [received.parser.completed payload],received.results ++ [parsed.2]⟩

def receiveAll (parser : S3CSVParser) (payloads : List (List UInt8)) : Received ν :=
  payloads.foldl (receive read) ⟨parser,[],[]⟩

def completed (received : Received ν) : List (List UInt8) := received.segments.filterMap id

end Received

/-- The segments and the rest are what was received; a segment ends with a newline, and the rest has none. So the lines of the
segments are all the lines that have ended, and a payload without a segment gives no table. -/
structure Reassembles (read : ReaderOptions → List UInt8 → Except Fault (Except String (Table ν)))
    (parser : S3CSVParser) (payloads : List (List UInt8)) (received : Received ν) : Prop where
  whole : received.completed.flatten ++ received.parser.partialPayload = payloads.flatten
  closed : ∀ segment ∈ received.completed, segment.getLast? = some newline
  unfinished : newline ∉ received.parser.partialPayload
  lines : received.completed.flatMap (ended newline) = ended newline payloads.flatten
  calls : received.segments.length = payloads.length
  results : received.results = received.segments.map fun segment =>
    match segment with
    | none => .ok (.ok none)
    | some records => do
      let columnTypes ← parser.columnNames.mapM parser.columnType
      (read ⟨parser.csvDelimiter,parser.columnNames,columnTypes⟩ records).map fun parsed => parsed.map some

namespace S3CSVParser

theorem endOfRecords_eq (payload : List UInt8) : endOfRecords payload = (payload.rdropWhile (· != newline)).length :=
  List.length_reverse.symm

theorem cut_endOfRecords (payload : List UInt8) :
    payload.take (endOfRecords payload) = payload.rdropWhile (· != newline) ∧
    payload.drop (endOfRecords payload) = payload.rtakeWhile (· != newline) := by
  have parts : payload.rdropWhile (· != newline) ++ payload.rtakeWhile (· != newline) = payload :=
    List.rdropWhile_append_rtakeWhile
  generalize front : payload.rdropWhile (· != newline) = records at parts
  rw [endOfRecords_eq,front]
  generalize payload.rtakeWhile (· != newline) = rest at parts ⊢
  rw [← parts]
  exact ⟨List.take_left,List.drop_left⟩

variable (read : ReaderOptions → List UInt8 → Except Fault (Except String (Table ν))) (parser : S3CSVParser)

theorem completed_eq (payload : List UInt8) : parser.completed payload =
    if (parser.prepended payload).rdropWhile (· != newline) = [] then none
    else some ((parser.prepended payload).rdropWhile (· != newline)) := by
  rw [completed,(cut_endOfRecords _).1,endOfRecords_eq]
  by_cases empty : (parser.prepended payload).rdropWhile (· != newline) = []
  · rw [if_pos empty,if_neg (by rw [List.length_pos_iff]; exact not_not.mpr empty)]
  · rw [if_neg empty,if_pos (List.length_pos_iff.mpr empty)]

theorem parse_eq (payload : List UInt8) : parser.parse read payload =
    ({parser with partialPayload := (parser.prepended payload).rtakeWhile (· != newline)},
      match parser.completed payload with
      | none => .ok (.ok none)
      | some records => do
        let columnTypes ← parser.columnNames.mapM parser.columnType
        (read ⟨parser.csvDelimiter,parser.columnNames,columnTypes⟩ records).map fun parsed => parsed.map some) := by
  rw [parse,(cut_endOfRecords _).2,completed]
  by_cases ends : 0 < endOfRecords (parser.prepended payload)
  · rw [if_pos ends,if_pos ends,parseCompletePayload]
    change (_,Except.map _ (parser.columnNames.mapM parser.columnType >>= _)) = _
    cases parser.columnNames.mapM parser.columnType <;> rfl
  · rw [if_neg ends,if_neg ends]

end S3CSVParser

section
variable {read : ReaderOptions → List UInt8 → Except Fault (Except String (Table ν))} {parser : S3CSVParser}
  {payloads : List (List UInt8)} {received : Received ν}

theorem completed_receive (payload : List UInt8) :
    (received.receive read payload).completed = received.completed ++ (received.parser.completed payload).toList := by
  rw [Received.completed,Received.receive,List.filterMap_append]
  cases received.parser.completed payload <;> rfl

theorem Reassembles.receive (reassembles : Reassembles read parser payloads received)
    (same : received.parser = {parser with partialPayload := received.parser.partialPayload}) (payload : List UInt8) :
    Reassembles read parser (payloads ++ [payload]) (received.receive read payload) := by
  have parts : (received.parser.prepended payload).rdropWhile (· != newline) ++
      (received.parser.prepended payload).rtakeWhile (· != newline) = received.parser.partialPayload ++ payload :=
    List.rdropWhile_append_rtakeWhile
  have segment : ((received.parser.completed payload).toList).flatten =
      (received.parser.prepended payload).rdropWhile (· != newline) := by
    rw [S3CSVParser.completed_eq]
    split
    next none => rw [none]; rfl
    next => exact List.flatten_singleton
  have left : (received.receive read payload).parser.partialPayload =
      (received.parser.prepended payload).rtakeWhile (· != newline) := by
    rw [Received.receive,S3CSVParser.parse_eq]
  have whole : (received.receive read payload).completed.flatten ++
      (received.receive read payload).parser.partialPayload =
      (payloads ++ [payload]).flatten := by
    rw [completed_receive,List.flatten_append,segment,left,List.append_assoc,parts,← List.append_assoc,
      reassembles.whole,
      List.flatten_append,List.flatten_singleton]
  have unfinished : newline ∉ (received.receive read payload).parser.partialPayload := by
    rw [left]
    exact not_mem_rtakeWhile
  have closed : ∀ records ∈ (received.receive read payload).completed, records.getLast? = some newline := by
    rw [completed_receive]
    intro records inside
    rcases List.mem_append.mp inside with before | now
    · exact reassembles.closed records before
    · rw [S3CSVParser.completed_eq] at now
      split at now
      next => cases now
      next filled =>
        obtain rfl := List.mem_singleton.mp now
        exact getLast?_rdropWhile filled
  refine ⟨whole,closed,unfinished,?_,?_,?_⟩
  · rw [← whole,ended_append_of_not_mem _ unfinished]
    exact (ended_flatten closed).symm
  · rw [Received.receive,List.length_append,reassembles.calls,List.length_append]
    rfl
  · rw [Received.receive,S3CSVParser.parse_eq,reassembles.results,List.map_append,List.map_singleton,same]
    rfl

theorem receiveAll_append (payload : List UInt8) :
    Received.receiveAll read parser (payloads ++ [payload]) =
    (Received.receiveAll read parser payloads).receive read payload := by
  rw [Received.receiveAll,List.foldl_append]
  rfl

end

/-- However a response is cut into payloads, it is put together again. -/
theorem receiveAll_reassembles (read : ReaderOptions → List UInt8 → Except Fault (Except String (Table ν)))
    (columnNames : List String) (schema : List Field) (csvDelimiter : UInt8) (payloads : List (List UInt8)) :
    Reassembles read (.make columnNames schema csvDelimiter) payloads
      (Received.receiveAll read (.make columnNames schema csvDelimiter) payloads) := by
  generalize made : S3CSVParser.make columnNames schema csvDelimiter = parser
  have run : Reassembles read parser payloads (Received.receiveAll read parser payloads) ∧
      (Received.receiveAll read parser payloads).parser =
        {parser with partialPayload := (Received.receiveAll read parser payloads).parser.partialPayload} := by
    induction payloads using List.reverseRecOn with
    | nil =>
      have empty : parser.partialPayload = [] := by
        rw [← made]
        rfl
      refine ⟨⟨empty,fun _ inside => absurd inside List.not_mem_nil,?_,rfl,rfl,rfl⟩,rfl⟩
      change newline ∉ parser.partialPayload
      rw [empty]
      exact List.not_mem_nil
    | append_singleton payloads payload ih =>
      obtain ⟨before,same⟩ := ih
      rw [receiveAll_append]
      refine ⟨before.receive same payload,?_⟩
      rw [Received.receive,S3CSVParser.parse_eq,same]
  exact run.1

end Hermes.Csv
