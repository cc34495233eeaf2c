import Hermes.Library.Transition
import Hermes.LogParser
import Mathlib.Data.List.Infix

/-! Which row events of the log a sequence of parser calls delivers.
A history is what the log files will hold in the end, and the files on disk grow
towards it between the calls and during them. -/
namespace Hermes.LogConsumption
open Hermes.LogParser Hermes.Library.Framing Hermes.Library.Transition
variable {ε : Type} (deserializer : EventDeserializer ε)

/-- The log files by index, bin.000001 first. -/
abbrev Disk := List (List UInt8)

def fileOf (events : List ε) : List UInt8 := MAGIC_HEADER ++ deserializer.encodes events

/-- All files but the last are whole, and the last is as far as it has been written. -/
def Written (history : List (List ε)) (disk : Disk) : Prop :=
  disk.length ≤ history.length ∧ ∀ (i : Nat) bytes, disk[i]? = some bytes →
    ∃ events, history[i]? = some events ∧ bytes <+: fileOf deserializer events ∧
      (i+1 < disk.length → bytes = fileOf deserializer events)

def Grows (disk later : Disk) : Prop :=
  ∀ (i : Nat) bytes, disk[i]? = some bytes → ∃ more, later[i]? = some more ∧ bytes <+: more

/-- The disk at three moments of a call: when the length of the current file is
asked for, when the files are opened, and when they have been read to their end. -/
structure Call where
  sized : Disk
  opened : Disk
  read : Disk
  previous : List UInt8

/-- What a call sees of the files when `index` is the number of the current one. -/
def Call.files (call : Call) (index : Nat) : Files where
  fileSize := (call.sized[index-1]?.getD []).length
  file := (call.opened[index-1]?).map (call.read[index-1]?.getD ·)
  next := (call.opened[index]?).map (fun bytes => (bytes.length,call.read[index]?.getD bytes))
  previous := call.previous

structure State (ε : Type) where
  parser : Parser
  disk : Disk
  delivered : List (String × ε)

def State.initial (ε : Type) : State ε := ⟨.initial,[],[]⟩

def State.after (before : State ε) (call : Call) : State ε :=
  let result := parseBinlogFile deserializer before.parser (call.files before.parser.lastReadFileIndex)
  ⟨result.2,call.read,before.delivered ++ result.1.records⟩

/-- Before the first reader is constructed there is none to go on with. -/
def StepTo (history : List (List ε)) (before : State ε) (call : Call) (after : State ε) : Prop :=
  Grows before.disk call.sized ∧ Grows call.sized call.opened ∧ Grows call.opened call.read ∧
    Written deserializer history call.read ∧ (before.parser.firstCall = true → call.previous = []) ∧
    after = before.after deserializer call

/-- The record of every row event can be appended to the table of the last table
map before it, and no other event follows the map of a table without a schema. -/
def Deliverable : Option String → List ε → Prop
  | _, [] => True
  | currentTable, event::events =>
    match deserializer.data event with
    | .tableMap table => Deliverable (some table) events
    | .rows _ => (∃ table ∈ currentTable, table ∈ schemaList ∧ deserializer.appends table event = true) ∧
      Deliverable currentTable events
    | .other => (∀ table ∈ currentTable, table ∈ schemaList) ∧ Deliverable currentTable events

def NotStarted (parser : Parser) (files : Files) : Prop :=
  parser.firstCall = true ∧ (files.file.getD []).length < MAGIC_HEADER.length

/-- From the last read point to the length asked for there are whole events, all of
them deliverable, and no further event is complete when the file has been read. -/
def WholeEvents (parser : Parser) (files : Files) : Prop :=
  ∃ events tail, (files.file.getD []).drop parser.lastReadPoint =
      (if parser.firstCall then MAGIC_HEADER else []) ++ deserializer.encodes events ++ tail ∧
    deserializer.Cut tail ∧
    files.fileSize = parser.lastReadPoint +
      ((if parser.firstCall then MAGIC_HEADER else []) ++ deserializer.encodes events).length ∧
    Deliverable deserializer parser.currentTable events

/-- The calls that read what they should: the log has not been rotated, and the file
does not grow by a whole event while it is read. -/
def Undisturbed (before : State ε) (call : Call) : Prop :=
  (call.files before.parser.lastReadFileIndex).next = none ∧
    (NotStarted before.parser (call.files before.parser.lastReadFileIndex) ∨
      WholeEvents deserializer before.parser (call.files before.parser.lastReadFileIndex))

def isRows (event : ε) : Bool :=
  match deserializer.data event with
  | .rows _ => true
  | _ => false

def rowEvents (history : List (List ε)) : List ε := history.flatten.filter (isRows deserializer)

/-- What has been read of the first file, and that it has all been delivered. -/
structure Consumed (history : List (List ε)) (state : State ε) (events : List ε) : Prop where
  index : state.parser.lastReadFileIndex = 1
  front : events <+: history.headD []
  there : state.parser.firstCall = false → state.disk[0]? ≠ none
  point : state.parser.lastReadPoint =
    if state.parser.firstCall then 0 else (fileOf deserializer events).length
  size : state.parser.totalSize = (deserializer.encodes events).length
  first : state.parser.firstCall = true → events = []
  delivered : state.delivered.map (·.2) = events.filter (isRows deserializer)

section Call
variable {deserializer}

theorem parseEvents_deliverable {fileSize : Nat} {events : List ε} (loop : Loop ε)
    (deliverable : Deliverable deserializer loop.currentTable events)
    (room : loop.totalSize+(deserializer.encodes events).length ≤ fileSize) :
    (parseEvents deserializer fileSize events loop).totalSize =
        loop.totalSize+(deserializer.encodes events).length ∧
      (parseEvents deserializer fileSize events loop).records.map (·.2) =
        loop.records.map (·.2) ++ events.filter (isRows deserializer) := by
  induction events generalizing loop with
  | nil => simp [parseEvents]
  | cons event events ih =>
    rw [FrameCode.encodes_cons,List.length_append,← deserializer.length_encode,← Nat.add_assoc] at room ⊢
    have below : ¬loop.totalSize+deserializer.length event > fileSize := by omega
    cases kind : deserializer.data event with
    | tableMap table =>
      have plain : isRows deserializer event = false := by simp [isRows,kind]
      simp only [Deliverable,kind] at deliverable
      simp only [parseEvents,if_neg below,kind,List.filter_cons,plain,Bool.false_eq_true,if_false]
      exact ih _ deliverable room
    | rows type =>
      have chosen : isRows deserializer event = true := by simp [isRows,kind]
      simp only [Deliverable,kind] at deliverable
      obtain ⟨⟨table,current,known,appends⟩,rest⟩ := deliverable
      rw [Option.mem_def] at current
      simp only [parseEvents,if_neg below,kind,current,known,appends,and_self,if_true,List.filter_cons,chosen]
      obtain ⟨size,records⟩ := ih ⟨loop.totalSize+deserializer.length event,loop.currentTable,
        deserializer.timestamp event,loop.records ++ [(table,event)]⟩ rest room
      rw [current] at size records
      exact ⟨size,by rw [records]; simp⟩
    | other =>
      have plain : isRows deserializer event = false := by simp [isRows,kind]
      simp only [Deliverable,kind] at deliverable
      obtain ⟨known,rest⟩ := deliverable
      have next := ih ⟨loop.totalSize+deserializer.length event,loop.currentTable,
        deserializer.timestamp event,loop.records⟩ rest room
      simp only [parseEvents,if_neg below,kind,List.filter_cons,plain,Bool.false_eq_true,if_false]
      cases current : loop.currentTable with
      | none =>
        rw [current] at next
        exact next
      | some table =>
        rw [current] at next
        simp only [known table current,if_true]
        exact next

theorem BinaryLogFileReader_magic (stream : List UInt8) :
    BinaryLogFileReader (MAGIC_HEADER ++ stream) = some stream := by
  simp [BinaryLogFileReader]

theorem BinaryLogFileReader_short {stream : List UInt8} (short : stream.length < MAGIC_HEADER.length) :
    BinaryLogFileReader stream = none := by
  unfold BinaryLogFileReader
  rw [if_neg]
  intro same
  have length := congrArg List.length same
  rw [List.length_take] at length
  omega

theorem parseBinlogFile_notStarted {parser : Parser} {files : Files} (origin : parser.lastReadPoint = 0)
    (notStarted : NotStarted parser files) (previous : files.previous = []) :
    (parseBinlogFile deserializer parser files).2 = parser ∧
      (parseBinlogFile deserializer parser files).1.records = [] := by
  obtain ⟨first,short⟩ := notStarted
  have none_ : selectStream parser files = (parser,none) := by
    unfold selectStream
    cases file : files.file with
    | none => rfl
    | some bytes =>
      rw [file,Option.getD_some] at short
      simp only [first,if_true,origin,List.drop_zero,BinaryLogFileReader_short short]
  unfold parseBinlogFile
  simp [none_,previous,FrameCode.readAll,parseEvents]

theorem parseBinlogFile_wholeEvents {parser : Parser} {files : Files} (unrotated : files.next = none)
    {events : List ε} {tail : List UInt8}
    (bytes : (files.file.getD []).drop parser.lastReadPoint =
      (if parser.firstCall then MAGIC_HEADER else []) ++ deserializer.encodes events ++ tail)
    (cut : deserializer.Cut tail) (deliverable : Deliverable deserializer parser.currentTable events)
    (there : files.file ≠ none)
    (room : parser.totalSize+(deserializer.encodes events).length ≤ files.fileSize) :
    let result := parseBinlogFile deserializer parser files
    result.2.lastReadPoint = files.fileSize ∧ result.2.lastReadFileIndex = parser.lastReadFileIndex ∧
      result.2.firstCall = false ∧
      result.2.totalSize = parser.totalSize+(deserializer.encodes events).length ∧
      result.1.records.map (·.2) = events.filter (isRows deserializer) := by
  obtain ⟨file,found⟩ := Option.ne_none_iff_exists'.mp there
  rw [found,Option.getD_some] at bytes
  have selected : selectStream parser files =
      ({parser with firstCall := false, lastReadPoint := files.fileSize},
        some (deserializer.encodes events ++ tail)) := by
    obtain ⟨currentTable,lastReadPoint,lastReadFileIndex,firstCall,totalSize⟩ := parser
    unfold selectStream
    simp only [found,unrotated,bytes,List.append_assoc]
    cases firstCall with
    | true => simp [BinaryLogFileReader_magic]
    | false => simp [BinaryLogFileReader_magic]
  have enough : events.length ≤ (deserializer.encodes events ++ tail).length := by
    rw [List.length_append]
    exact Nat.le_add_right_of_le (deserializer.length_le_encodes events)
  obtain ⟨size,records⟩ := parseEvents_deliverable ⟨parser.totalSize,parser.currentTable,0,[]⟩ deliverable room
  unfold parseBinlogFile
  rw [selected]
  dsimp only [Option.getD_some]
  rw [deserializer.readAll_encodes cut events enough]
  exact ⟨rfl,rfl,rfl,size,by simpa using records⟩

end Call

section Step
variable {deserializer} {history : List (List ε)} {before after : State ε} {call : Call} {events : List ε}

theorem Grows.there {disk later : Disk} (grows : Grows disk later) {i : Nat} (some_ : disk[i]? ≠ none) :
    later[i]? ≠ none := by
  obtain ⟨bytes,found⟩ := Option.ne_none_iff_exists'.mp some_
  obtain ⟨more,later_,_⟩ := grows i bytes found
  exact Option.ne_none_iff_exists'.mpr ⟨more,later_⟩

theorem front_of_file (grows : Grows call.opened call.read) (written : Written deserializer history call.read) :
    (call.files 1).file.getD [] <+: fileOf deserializer (history.headD []) := by
  unfold Call.files
  cases opened : call.opened[0]? with
  | none => simp
  | some bytes =>
    obtain ⟨more,read,_⟩ := grows 0 bytes opened
    obtain ⟨file,found,front,_⟩ := written.2 0 more read
    have first : history.headD [] = file := by
      rw [List.headD_eq_head?_getD,List.head?_eq_getElem?,found,Option.getD_some]
    rw [first]
    simpa [read] using front

theorem front_of_new (consumed : Consumed deserializer history before events) {new : List ε} {tail : List UInt8}
    (grows : Grows call.opened call.read) (written : Written deserializer history call.read)
    (bytes : ((call.files 1).file.getD []).drop before.parser.lastReadPoint =
      (if before.parser.firstCall then MAGIC_HEADER else []) ++ deserializer.encodes new ++ tail) :
    events ++ new <+: history.headD [] := by
  obtain ⟨rest,whole⟩ := consumed.front
  have left : (fileOf deserializer (history.headD [])).drop before.parser.lastReadPoint =
      (if before.parser.firstCall then MAGIC_HEADER else []) ++ deserializer.encodes rest := by
    rw [consumed.point,← whole]
    cases first : before.parser.firstCall with
    | true => simp [fileOf,consumed.first first]
    | false =>
      have split : fileOf deserializer (events ++ rest) = fileOf deserializer events ++ deserializer.encodes rest := by
        rw [fileOf,FrameCode.encodes_append,← List.append_assoc]
        rfl
      simp [split]
  have front := List.IsPrefix.drop (front_of_file grows written) before.parser.lastReadPoint
  rw [left,bytes,List.append_assoc] at front
  have start : deserializer.encodes new <+: deserializer.encodes rest :=
    (List.prefix_append _ _).trans ((List.prefix_append_right_inj _).mp front)
  rw [← whole]
  exact (List.prefix_append_right_inj _).mpr (deserializer.prefix_of_encodes start)

theorem consumed_step (consumed : Consumed deserializer history before events)
    (undisturbed : Undisturbed deserializer before call) (step : StepTo deserializer history before call after) :
    ∃ new, Consumed deserializer history after (events ++ new) ∧
      (NotStarted before.parser (call.files 1) ∨
        (fileOf deserializer (events ++ new)).length = (call.files 1).fileSize) := by
  obtain ⟨toSized,toOpened,toRead,written,fresh,rfl⟩ := step
  obtain ⟨unrotated,undisturbed⟩ := undisturbed
  unfold State.after
  dsimp only
  rw [consumed.index] at unrotated undisturbed
  rcases undisturbed with notStarted | ⟨new,tail,bytes,cut,size,deliverable⟩
  · refine ⟨[],?_,Or.inl notStarted⟩
    have origin : before.parser.lastReadPoint = 0 := by rw [consumed.point,if_pos notStarted.1]
    obtain ⟨same,nothing⟩ := @parseBinlogFile_notStarted ε deserializer _ _ origin notStarted
      (fresh notStarted.1)
    rw [List.append_nil,consumed.index,same,nothing,List.append_nil]
    exact ⟨consumed.index,consumed.front,fun started => absurd (started.symm.trans notStarted.1) (by decide),
      consumed.point,consumed.size,consumed.first,consumed.delivered⟩
  · have opened : (call.files 1).file ≠ none := by
      cases first : before.parser.firstCall with
      | true =>
        intro missing
        rw [missing,first] at bytes
        simp [MAGIC_HEADER] at bytes
      | false =>
        have there := toOpened.there (toSized.there (consumed.there first))
        simpa [Call.files] using there
    have total : (fileOf deserializer (events ++ new)).length = (call.files 1).fileSize := by
      rw [size,consumed.point,fileOf,FrameCode.encodes_append]
      cases first : before.parser.firstCall with
      | true => simp [consumed.first first]
      | false => simp [fileOf,Nat.add_assoc]
    have room : before.parser.totalSize+(deserializer.encodes new).length ≤ (call.files 1).fileSize := by
      rw [← total,consumed.size,fileOf,FrameCode.encodes_append,List.length_append,List.length_append]
      omega
    obtain ⟨point,index,first,totalSize,records⟩ :=
      parseBinlogFile_wholeEvents unrotated bytes cut deliverable opened room
    refine ⟨new,?_,Or.inr total⟩
    rw [consumed.index]
    refine ⟨index.trans consumed.index,front_of_new consumed toRead written bytes,?_,?_,?_,?_,?_⟩
    · intro _
      have there : call.opened[0]? ≠ none := by simpa [Call.files] using opened
      exact toRead.there there
    · simp only [first,Bool.false_eq_true,if_false]
      rw [point,total]
    · simp only
      rw [totalSize,consumed.size,FrameCode.encodes_append,List.length_append]
    · intro again
      simp only [first] at again
      cases again
    · rw [List.map_append,records,consumed.delivered,List.filter_append]

theorem consumed_whole (consumed : Consumed deserializer history before events)
    (undisturbed : Undisturbed deserializer before call) (step : StepTo deserializer history before call after)
    (whole : call.sized = history.map (fileOf deserializer)) :
    Consumed deserializer history after history.flatten := by
  obtain ⟨new,next,read⟩ := consumed_step consumed undisturbed step
  obtain ⟨_,toOpened,toRead,_,_,_⟩ := step
  have unrotated := undisturbed.1
  rw [consumed.index] at unrotated
  have single : history[1]? = none := by
    by_contra second
    obtain ⟨file,found⟩ := Option.ne_none_iff_exists'.mp second
    have there : call.opened[1]? ≠ none := toOpened.there (by rw [whole]; simp [found])
    exact there (by simpa [Call.files] using unrotated)
  rcases history with _ | ⟨file,_ | ⟨second,others⟩⟩
  · have none_ : events ++ new = [] := List.prefix_nil.mp next.front
    rw [none_] at next
    exact next
  · have all : events ++ new <+: file := next.front
    have length : (fileOf deserializer (events ++ new)).length = (fileOf deserializer file).length := by
      rcases read with ⟨_,short⟩ | total
      · exfalso
        obtain ⟨bytes,opened,front⟩ := toOpened 0 (fileOf deserializer file) (by rw [whole]; rfl)
        obtain ⟨more,read,later⟩ := toRead 0 bytes opened
        have long := (front.trans later).length_le
        have found : (call.files 1).file = some more := by simp [Call.files,opened,read]
        rw [found,Option.getD_some] at short
        rw [fileOf,List.length_append] at long
        omega
      · rw [total]
        simp [Call.files,whole]
    obtain ⟨rest,left⟩ := all
    have done : rest = [] := by
      have split := congrArg List.length (deserializer.encodes_append (events ++ new) rest)
      rw [List.length_append] at split
      rw [← left,fileOf,fileOf,List.length_append,List.length_append,split] at length
      have none_ := deserializer.length_le_encodes rest
      exact List.length_eq_zero_iff.mp (by omega)
    rw [done,List.append_nil] at left
    rw [left] at next
    simpa using next
  · simp at single

end Step

/-- In every run of undisturbed calls the row events delivered are the first ones
of the log, in log order; and once the log has stopped growing, one more such call
delivers the rest. -/
theorem exactly_once {deserializer : EventDeserializer ε} {history : List (List ε)} {calls : List Call}
    {state : State ε} (run : Run (Meeting (Undisturbed deserializer) (StepTo deserializer history))
      (State.initial ε) calls state) :
    state.delivered.map (·.2) <+: rowEvents deserializer history ∧
      ∀ call after, Meeting (Undisturbed deserializer) (StepTo deserializer history) state call after →
        call.sized = history.map (fileOf deserializer) →
        after.delivered.map (·.2) = rowEvents deserializer history := by
  have consumed : ∃ events, Consumed deserializer history state events := by
    apply run.invariant (fun state => ∃ events, Consumed deserializer history state events)
    · exact ⟨[],⟨rfl,List.nil_prefix,fun started => Bool.noConfusion started,rfl,rfl,fun _ => rfl,rfl⟩⟩
    · rintro before call after ⟨events,consumed⟩ ⟨undisturbed,step⟩
      obtain ⟨new,next,_⟩ := consumed_step consumed undisturbed step
      exact ⟨_,next⟩
  obtain ⟨events,consumed⟩ := consumed
  refine ⟨?_,?_⟩
  · rw [consumed.delivered]
    apply List.IsPrefix.filter
    cases history with
    | nil => exact consumed.front
    | cons file others => exact consumed.front.trans (List.prefix_append _ _)
  · rintro call after ⟨undisturbed,step⟩ whole
    exact (consumed_whole consumed undisturbed step whole).delivered

section Examples

/-- The length field of a header, four bytes at offset 9. -/
def eventLength (bytes : List UInt8) : Nat :=
  ((bytes.drop 9).take 4).foldr (fun byte value => byte.toNat+256*value) 0

abbrev LogEvent := {bytes : List UInt8 // 19 ≤ bytes.length ∧ eventLength bytes = bytes.length}

def nextEvent (stream : List UInt8) : Option (LogEvent × List UInt8) :=
  if fits : 19 ≤ (stream.take (eventLength stream)).length ∧
      eventLength (stream.take (eventLength stream)) = (stream.take (eventLength stream)).length then
    some (⟨stream.take (eventLength stream),fits⟩,stream.drop (eventLength stream))
  else none

private theorem eventLength_append {bytes : List UInt8} (long : 19 ≤ bytes.length) (rest : List UInt8) :
    eventLength (bytes ++ rest) = eventLength bytes := by
  have field : 4 ≤ (bytes.drop 9).length := by
    rw [List.length_drop]
    omega
  unfold eventLength
  rw [List.drop_append_of_le_length (by omega),List.take_append_of_le_length field]

private theorem nextEvent_append (event : LogEvent) (rest : List UInt8) :
    nextEvent (event.1 ++ rest) = some (event,rest) := by
  have length : eventLength (event.1 ++ rest) = event.1.length :=
    (eventLength_append event.2.1 rest).trans event.2.2
  have taken : (event.1 ++ rest).take (eventLength (event.1 ++ rest)) = event.1 := by
    rw [length,List.take_left]
  have dropped : (event.1 ++ rest).drop (eventLength (event.1 ++ rest)) = rest := by
    rw [length,List.drop_left]
  simp only [nextEvent,taken,dropped]
  exact dif_pos event.2

private theorem nextEvent_cut (event : LogEvent) (front : List UInt8) (start : front <+: event.1)
    (proper : front ≠ event.1) : nextEvent front = none := by
  apply dif_neg
  rintro ⟨long,same⟩
  rw [List.length_take] at long
  have length : eventLength front = event.1.length := by
    obtain ⟨rest,whole⟩ := start
    rw [← event.2.2,← whole,eventLength_append (by omega)]
  rw [List.take_of_length_le (length ▸ start.length_le),length] at same
  exact proper (start.eq_of_length same.symm)

def tableName (body : List UInt8) : String :=
  let table := body.drop (8+1+(body.getD 8 0).toNat+1)
  String.ofList (((table.drop 1).take (table.headD 0).toNat).map (fun byte => Char.ofNat byte.toNat))

def logEventData (event : LogEvent) : EventData :=
  match (event.1.getD 4 0).toNat with
  | 19 => .tableMap (tableName (event.1.drop 19))
  | 30 => .rows .insert
  | 31 => .rows .update
  | 32 => .rows .delete
  | _ => .other

/-- A row of HISTORY has three columns. -/
def logDeserializer : EventDeserializer LogEvent where
  encode event := event.1
  read := nextEvent
  nonempty event none_ := by
    have long := event.2.1
    rw [none_] at long
    simp at long
  read_encode := nextEvent_append
  read_cut := nextEvent_cut
  data := logEventData
  timestamp event := 1000*((event.1.take 4).foldr (fun byte value => byte.toNat+256*value) 0 : Nat)
  length event := event.1.length
  appends table event := table = "HISTORY" ∧ event.1.getD 29 0 = 3
  length_encode _ := rfl

/-- The header of an event written in second 1. -/
def header (type length : UInt8) : List UInt8 := [1,0,0,0,type,1,0,0,0,length,0,0,0,0,0,0,0,0,0]

/-- The map of `h.HISTORY` with three int columns. -/
def historyMap : LogEvent :=
  ⟨header 19 45 ++ [1,0,0,0,0,0,1,0,1,104,0,7,72,73,83,84,79,82,89,0,3,3,3,3,0,0],by decide⟩

/-- An insert of one row into HISTORY. -/
def inserted (key : UInt8) : LogEvent :=
  ⟨header 30 44 ++ [1,0,0,0,0,0,1,0,2,0,3,7,0,key,0,0,0,1,0,0,0,1,0,0,0],by
    constructor
    · simp [header]
    · simp [header,eventLength]⟩

def rotatedLog : List (List LogEvent) := [[historyMap,inserted 1,historyMap,inserted 2],[historyMap,inserted 3]]

def beforeRotation : Disk := [fileOf logDeserializer [historyMap,inserted 1]]

def afterRotation : Disk := rotatedLog.map (fileOf logDeserializer)

def still (disk : Disk) : Call := ⟨disk,disk,disk,[]⟩

theorem Grows.refl (disk : Disk) : Grows disk disk := fun _ bytes found => ⟨bytes,found,List.prefix_refl _⟩

theorem Grows.nil (later : Disk) : Grows [] later := by
  intro i bytes found
  simp at found

theorem Grows.cons {bytes more : List UInt8} {disk later : Disk} (front : bytes <+: more) (grows : Grows disk later) :
    Grows (bytes::disk) (more::later) := by
  intro i read found
  cases i with
  | zero =>
    obtain rfl : bytes = read := by simpa using found
    exact ⟨more,rfl,front⟩
  | succ i => exact grows i read found

theorem Written.whole (deserializer : EventDeserializer ε) (history : List (List ε)) :
    Written deserializer history (history.map (fileOf deserializer)) := by
  refine ⟨by simp,?_⟩
  intro i bytes found
  obtain ⟨events,there,rfl⟩ : ∃ events, history[i]? = some events ∧ fileOf deserializer events = bytes := by
    simpa using found
  exact ⟨events,there,List.prefix_refl _,fun _ => rfl⟩

theorem Written.single {deserializer : EventDeserializer ε} {file : List ε} {bytes : List UInt8}
    (front : bytes <+: fileOf deserializer file)
    (others : List (List ε)) : Written deserializer (file::others) [bytes] := by
  refine ⟨by simp,?_⟩
  intro i read found
  cases i with
  | zero =>
    obtain rfl : bytes = read := by simpa using found
    exact ⟨file,rfl,front,fun more => absurd more (by simp)⟩
  | succ i => simp at found

private theorem step_still {history : List (List LogEvent)} {before : State LogEvent} {disk : Disk}
    (grows : Grows before.disk disk) (written : Written logDeserializer history disk) :
    StepTo logDeserializer history before (still disk) (before.after logDeserializer (still disk)) :=
  ⟨grows,Grows.refl disk,Grows.refl disk,written,fun _ => rfl,rfl⟩

def afterFirstCall : State LogEvent := (State.initial LogEvent).after logDeserializer (still beforeRotation)

/-- The second call reads the new file first, and its events use up the length of the old
one: the insert of 3 is delivered and that of 2 never. -/
theorem rotated_event_skipped : ∃ state, Run (StepTo logDeserializer rotatedLog) (State.initial LogEvent)
      [still beforeRotation,still afterRotation] state ∧
    state.delivered.map (·.2) = [inserted 1,inserted 3] ∧
    rowEvents logDeserializer rotatedLog = [inserted 1,inserted 2,inserted 3] ∧
    ¬state.delivered.map (·.2) <+: rowEvents logDeserializer rotatedLog := by
  have front : fileOf logDeserializer [historyMap,inserted 1] <+:
      fileOf logDeserializer [historyMap,inserted 1,historyMap,inserted 2] := by
    refine ⟨logDeserializer.encodes [historyMap,inserted 2],?_⟩
    rw [fileOf,List.append_assoc,← FrameCode.encodes_append]
    rfl
  have first : StepTo logDeserializer rotatedLog (State.initial LogEvent) (still beforeRotation) afterFirstCall :=
    step_still (Grows.nil _) (Written.single front _)
  have second : StepTo logDeserializer rotatedLog afterFirstCall (still afterRotation)
      (afterFirstCall.after logDeserializer (still afterRotation)) :=
    step_still (Grows.cons front (Grows.nil _)) (Written.whole logDeserializer rotatedLog)
  have delivered : (afterFirstCall.after logDeserializer (still afterRotation)).delivered.map (·.2) =
      [inserted 1,inserted 3] := by decide +kernel
  have logged : rowEvents logDeserializer rotatedLog = [inserted 1,inserted 2,inserted 3] := by decide +kernel
  refine ⟨_,(Run.nil.snoc first).snoc second,delivered,logged,?_⟩
  rw [delivered,logged]
  decide +kernel

def grownLog : List (List LogEvent) := [[historyMap,inserted 1,historyMap,inserted 2]]

def grown : Disk := grownLog.map (fileOf logDeserializer)

private theorem deliverable_inserted (key : UInt8) (currentTable : Option String)
    (appends : logDeserializer.appends "HISTORY" (inserted key) = true) :
    Deliverable logDeserializer currentTable [historyMap,inserted key] := by
  have mapped : logDeserializer.data historyMap = .tableMap "HISTORY" := by decide +kernel
  have row : logDeserializer.data (inserted key) = .rows .insert := by
    simp [logDeserializer,logEventData,inserted,header]
  unfold Deliverable
  rw [mapped]
  dsimp only
  unfold Deliverable
  rw [row]
  exact ⟨⟨"HISTORY",rfl,by decide,appends⟩,trivial⟩

theorem grown_between_calls_delivered :
    Run (Meeting (Undisturbed logDeserializer) (StepTo logDeserializer grownLog)) (State.initial LogEvent)
      [still beforeRotation] afterFirstCall ∧
    (afterFirstCall.after logDeserializer (still grown)).delivered.map (·.2) = [inserted 1,inserted 2] := by
  have front : fileOf logDeserializer [historyMap,inserted 1] <+:
      fileOf logDeserializer [historyMap,inserted 1,historyMap,inserted 2] := by
    refine ⟨logDeserializer.encodes [historyMap,inserted 2],?_⟩
    rw [fileOf,List.append_assoc,← FrameCode.encodes_append]
    rfl
  have firstMeets : Undisturbed logDeserializer (State.initial LogEvent) (still beforeRotation) :=
    ⟨rfl,Or.inr ⟨[historyMap,inserted 1],[],by decide +kernel,Or.inl rfl,by decide +kernel,
      deliverable_inserted 1 none (by decide +kernel)⟩⟩
  have first : StepTo logDeserializer grownLog (State.initial LogEvent) (still beforeRotation) afterFirstCall :=
    step_still (Grows.nil _) (Written.single front _)
  have run : Run (Meeting (Undisturbed logDeserializer) (StepTo logDeserializer grownLog))
      (State.initial LogEvent) [still beforeRotation] afterFirstCall :=
    Run.nil.meet (still beforeRotation) firstMeets first
  have secondMeets : Undisturbed logDeserializer afterFirstCall (still grown) :=
    ⟨by decide +kernel,Or.inr ⟨[historyMap,inserted 2],[],by decide +kernel,Or.inl rfl,by decide +kernel,
      deliverable_inserted 2 _ (by decide +kernel)⟩⟩
  have second : StepTo logDeserializer grownLog afterFirstCall (still grown)
      (afterFirstCall.after logDeserializer (still grown)) :=
    step_still (Grows.cons front (Grows.nil _)) (Written.whole logDeserializer grownLog)
  have logged : rowEvents logDeserializer grownLog = [inserted 1,inserted 2] := by decide +kernel
  refine ⟨run,?_⟩
  rw [← logged]
  exact (exactly_once run).2 (still grown) _ ⟨secondMeets,second⟩ rfl

end Examples

end Hermes.LogConsumption
