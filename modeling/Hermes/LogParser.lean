import Hermes.Library.Framing
import Hermes.Tuple

/-! `Parser.parseBinlogFile`: which bytes of the log one call reads, and which of
the events in them it accepts.
The decoder of the events is a parameter. A file is what it holds by the time
the call has read it to its end; its length is asked for before. Of the records,
which go to one byte array for each table, the event they are made from is kept. -/
namespace Hermes.LogParser
open Hermes.Tuple Hermes.Library.Framing
variable {ε : Type}

def MAGIC_HEADER : List UInt8 := [0xfe,0x62,0x69,0x6e]

inductive EventData where
  | tableMap (table : String)
  | rows (type : EventType)
  | other
deriving DecidableEq

/-- The event deserializer, and whether the record of an event can be appended to
the writer of a table. `length` is the sum of the header's two lengths. -/
structure EventDeserializer (ε : Type) extends FrameCode ε UInt8 where
  data : ε → EventData
  timestamp : ε → Int
  length : ε → Nat
  appends : String → ε → Bool
  length_encode : ∀ event, length event = (encode event).length

/-- The tables with a schema, in the keys of `schemaList`. -/
def schemaList : List String := ["LINEORDER","CUSTOMER","SUPPLIER","PART","DATE","HISTORY"]

structure Parser where
  currentTable : Option String
  lastReadPoint : Nat
  lastReadFileIndex : Nat
  firstCall : Bool
  totalSize : Nat
deriving DecidableEq

def Parser.initial : Parser := ⟨none,0,1,true,0⟩

/-- The loop over the events: the statics it changes, the timestamp of the last
event it looked at, and the records by table. -/
structure Loop (ε : Type) where
  totalSize : Nat
  currentTable : Option String
  deltasTimestamp : Int
  records : List (String × ε)

/-- A table without a schema or a record that does not fit throws, which ends the loop. -/
def parseEvents (deserializer : EventDeserializer ε) (fileSize : Nat) : List ε → Loop ε → Loop ε
  | [], loop => loop
  | event::events, loop =>
    let loop := {loop with totalSize := loop.totalSize+deserializer.length event}
    if loop.totalSize > fileSize then loop
    else
      let loop := {loop with deltasTimestamp := deserializer.timestamp event}
      match deserializer.data event, loop.currentTable with
      | .tableMap table, _ => parseEvents deserializer fileSize events {loop with currentTable := some table}
      | _, none => parseEvents deserializer fileSize events loop
      | .rows _, some table =>
        if table ∈ schemaList ∧ deserializer.appends table event then
          parseEvents deserializer fileSize events {loop with records := loop.records ++ [(table,event)]}
        else loop
      | .other, some table =>
        if table ∈ schemaList then parseEvents deserializer fileSize events loop else loop

def BinaryLogFileReader (stream : List UInt8) : Option (List UInt8) :=
  if stream.take MAGIC_HEADER.length = MAGIC_HEADER then some (stream.drop MAGIC_HEADER.length) else none

/-- What one call sees: the length of the current file, the file, the next file with
its length, and what the reader of an earlier call has left. -/
structure Files where
  fileSize : Nat
  file : Option (List UInt8)
  next : Option (Nat × List UInt8)
  previous : List UInt8

/-- The choice of the stream, up to the point where the reader is constructed or
where that fails. -/
def selectStream (parser : Parser) (files : Files) : Parser × Option (List UInt8) :=
  match files.file with
  | none => (parser,none)
  | some file =>
    let bf := file.drop parser.lastReadPoint
    if parser.firstCall then
      match BinaryLogFileReader bf with
      | none => (parser,none)
      | some stream => ({parser with firstCall := false, lastReadPoint := files.fileSize},some stream)
    else
      match files.next with
      | some (length,bufNextFile) =>
        ({parser with lastReadPoint := length, lastReadFileIndex := parser.lastReadFileIndex+1},
          BinaryLogFileReader (bufNextFile ++ bf))
      | none => ({parser with lastReadPoint := files.fileSize},BinaryLogFileReader (MAGIC_HEADER ++ bf))

/-- The timestamp a call reports, and its records. -/
structure Output (ε : Type) where
  records : List (String × ε)
  deltasTimestamp : Int

/-- Without a new reader the call goes on with the one of an earlier call. -/
def parseBinlogFile (deserializer : EventDeserializer ε) (parser : Parser) (files : Files) : Output ε × Parser :=
  let (parser,reader) := selectStream parser files
  let stream := reader.getD files.previous
  let loop := parseEvents deserializer files.fileSize (deserializer.readAll stream.length stream)
    ⟨parser.totalSize,parser.currentTable,0,[]⟩
  (⟨loop.records,loop.deltasTimestamp⟩,
    {parser with totalSize := loop.totalSize, currentTable := loop.currentTable})

end Hermes.LogParser
