import Hermes.FreshReads
import Hermes.LogConsumption

/-! From the bytes of the log to the rows of a query: when the delta cache actor pumps, the parser goes on in the log
file, and the records that reach the cache are those that it delivers. -/
namespace Hermes.LogReads
open Hermes.Tuple Hermes.Delta Hermes.DeltaCacheActor Hermes.DeltaCacheSystem Hermes.BinlogParser Hermes.LogParser
open Hermes.LogConsumption (Call Consumed Deliverable NotStarted Undisturbed Grows Written fileOf)
open Hermes.FreshReads (Handled Records Query Reads Undeleted partitionLog)
open Hermes.Library.KeyOrder Hermes.Library.Framing Hermes.Library.Transition

section Events
variable {ε : Type} (deserializer : EventDeserializer ε)

/-- The row events, each under the table of the last table map before it. -/
def tableEvents : Option String → List ε → List (String × ε)
  | _, [] => []
  | currentTable, event::events =>
    match deserializer.data event with
    | .tableMap table => tableEvents (some table) events
    | .rows _ => (currentTable.map (·,event)).toList ++ tableEvents currentTable events
    | .other => tableEvents currentTable events

def tableAfter : Option String → List ε → Option String
  | currentTable, [] => currentTable
  | currentTable, event::events =>
    match deserializer.data event with
    | .tableMap table => tableAfter (some table) events
    | _ => tableAfter currentTable events

/-- The events that a log file held; there is none before the magic has been written. -/
def Holds (bytes : List UInt8) (events : List ε) : Prop :=
  bytes = fileOf deserializer events ∨ (events = [] ∧ bytes.length < MAGIC_HEADER.length)

/-- All that has been read has been delivered under the table it belongs to. -/
structure Named (history : List (List ε)) (state : LogConsumption.State ε) (events : List ε) : Prop
    extends Consumed deserializer history state events where
  current : state.parser.currentTable = tableAfter deserializer none events
  named : state.delivered = tableEvents deserializer none events

section Parse
variable {deserializer}

theorem tableEvents_append (currentTable : Option String) (first second : List ε) :
    tableEvents deserializer currentTable (first ++ second) = tableEvents deserializer currentTable first ++
      tableEvents deserializer (tableAfter deserializer currentTable first) second := by
  induction first generalizing currentTable with
  | nil => rfl
  | cons event first ih =>
    rw [List.cons_append,tableEvents,tableEvents,tableAfter]
    cases deserializer.data event with
    | tableMap table => exact ih (some table)
    | rows type =>
      dsimp only
      rw [ih,List.append_assoc]
    | other => exact ih currentTable

theorem tableAfter_append (currentTable : Option String) (first second : List ε) :
    tableAfter deserializer currentTable (first ++ second) =
      tableAfter deserializer (tableAfter deserializer currentTable first) second := by
  induction first generalizing currentTable with
  | nil => rfl
  | cons event first ih =>
    rw [List.cons_append,tableAfter,tableAfter]
    cases deserializer.data event with
    | tableMap table => exact ih (some table)
    | rows type => exact ih currentTable
    | other => exact ih currentTable

theorem parseEvents_named {fileSize : Nat} {events : List ε} (loop : Loop ε)
    (deliverable : Deliverable deserializer loop.currentTable events)
    (room : loop.totalSize+(deserializer.encodes events).length ≤ fileSize) :
    (parseEvents deserializer fileSize events loop).currentTable = tableAfter deserializer loop.currentTable events ∧
      (parseEvents deserializer fileSize events loop).records =
        loop.records ++ tableEvents deserializer loop.currentTable events := by
  induction events generalizing loop with
  | nil => simp [parseEvents,tableAfter,tableEvents]
  | cons event events ih =>
    rw [FrameCode.encodes_cons,List.length_append,← deserializer.length_encode,← Nat.add_assoc] at room
    have below : ¬loop.totalSize+deserializer.length event > fileSize := by omega
    cases kind : deserializer.data event with
    | tableMap table =>
      simp only [Deliverable,kind] at deliverable
      simp only [parseEvents,if_neg below,tableAfter,tableEvents,kind]
      exact ih _ deliverable room
    | rows type =>
      simp only [Deliverable,kind] at deliverable
      obtain ⟨⟨table,current,known,appends⟩,rest⟩ := deliverable
      rw [Option.mem_def] at current
      simp only [parseEvents,if_neg below,tableAfter,tableEvents,kind,current,known,appends,and_self,if_true]
      obtain ⟨after,records⟩ := ih ⟨loop.totalSize+deserializer.length event,loop.currentTable,
        deserializer.timestamp event,loop.records ++ [(table,event)]⟩ rest room
      rw [current] at after records
      exact ⟨after,by rw [records]; simp⟩
    | other =>
      simp only [Deliverable,kind] at deliverable
      obtain ⟨known,rest⟩ := deliverable
      have next := ih ⟨loop.totalSize+deserializer.length event,loop.currentTable,
        deserializer.timestamp event,loop.records⟩ rest room
      simp only [parseEvents,if_neg below,tableAfter,tableEvents,kind]
      cases current : loop.currentTable with
      | none =>
        rw [current] at next
        exact next
      | some table =>
        rw [current] at next
        simp only [known table current,if_true]
        exact next

theorem parseBinlogFile_named {parser : Parser} {files : Files} (unrotated : files.next = none)
    {events : List ε} {tail : List UInt8}
    (bytes : (files.file.getD []).drop parser.lastReadPoint =
      (if parser.firstCall then MAGIC_HEADER else []) ++ deserializer.encodes events ++ tail)
    (cut : deserializer.Cut tail) (deliverable : Deliverable deserializer parser.currentTable events)
    (there : files.file ≠ none)
    (room : parser.totalSize+(deserializer.encodes events).length ≤ files.fileSize) :
    let result := parseBinlogFile deserializer parser files
    result.2.currentTable = tableAfter deserializer parser.currentTable events ∧
      result.1.records = tableEvents deserializer parser.currentTable events := by
  obtain ⟨file,found⟩ := Option.ne_none_iff_exists'.mp there
  rw [found,Option.getD_some] at bytes
  have selected : selectStream parser files =
      ({parser with firstCall := false, lastReadPoint := files.fileSize},
        some (deserializer.encodes events ++ tail)) := by
    obtain ⟨currentTable,lastReadPoint,lastReadFileIndex,firstCall,totalSize⟩ := parser
    unfold selectStream
    simp only [found,unrotated,bytes,List.append_assoc]
    cases firstCall with
    | true => simp [LogConsumption.BinaryLogFileReader_magic]
    | false => simp [LogConsumption.BinaryLogFileReader_magic]
  have enough : events.length ≤ (deserializer.encodes events ++ tail).length := by
    rw [List.length_append]
    exact Nat.le_add_right_of_le (deserializer.length_le_encodes events)
  obtain ⟨current,records⟩ := parseEvents_named ⟨parser.totalSize,parser.currentTable,0,[]⟩ deliverable room
  unfold parseBinlogFile
  rw [selected]
  dsimp only [Option.getD_some]
  rw [deserializer.readAll_encodes cut events enough]
  exact ⟨current,by simpa using records⟩

theorem eq_of_encodes_length {first second whole : List ε} (front : first <+: whole) (other : second <+: whole)
    (length : (deserializer.encodes first).length = (deserializer.encodes second).length) : first = second := by
  have longer : ∀ {first second : List ε}, first <+: second →
      (deserializer.encodes first).length = (deserializer.encodes second).length → first = second := by
    intro first second start same
    obtain ⟨rest,rfl⟩ := start
    rw [FrameCode.encodes_append,List.length_append] at same
    have none_ := deserializer.length_le_encodes rest
    have done : rest = [] := List.length_eq_zero_iff.mp (by omega)
    rw [done,List.append_nil]
  rcases List.prefix_or_prefix_of_prefix front other with start | start
  · exact longer start length
  · exact (longer start length.symm).symm

end Parse

section Step
variable {deserializer} {history : List (List ε)} {before after : LogConsumption.State ε} {call : Call}
    {events : List ε}

theorem front_of_sized (toOpened : Grows call.sized call.opened) (toRead : Grows call.opened call.read)
    (written : Written deserializer history call.read) :
    call.sized[0]?.getD [] <+: fileOf deserializer (history.headD []) := by
  cases sized : call.sized[0]? with
  | none => simp
  | some bytes =>
    obtain ⟨more,opened,front⟩ := toOpened 0 bytes sized
    obtain ⟨all,read,later⟩ := toRead 0 more opened
    have whole := LogConsumption.front_of_file toRead written
    have file : (call.files 1).file.getD [] = all := by simp [Call.files,opened,read]
    rw [file] at whole
    exact (front.trans later).trans whole

theorem named_step (named : Named deserializer history before events)
    (undisturbed : Undisturbed deserializer before call)
    (step : LogConsumption.StepTo deserializer history before call after) :
    ∃ new, Named deserializer history after (events ++ new) ∧
      Holds deserializer (call.sized[0]?.getD []) (events ++ new) := by
  obtain ⟨read,next,_⟩ := LogConsumption.consumed_step named.toConsumed undisturbed step
  obtain ⟨toSized,toOpened,toRead,written,fresh,rfl⟩ := step
  obtain ⟨unrotated,undisturbed⟩ := undisturbed
  have total := next.size
  unfold LogConsumption.State.after at next total ⊢
  dsimp only at next total ⊢
  rw [named.index] at unrotated undisturbed next total ⊢
  -- the events read are those of the call's condition, as both begin the same file
  have finish : ∀ new, events ++ new <+: history.headD [] →
      (parseBinlogFile deserializer before.parser (call.files 1)).2.totalSize =
        before.parser.totalSize+(deserializer.encodes new).length →
      (parseBinlogFile deserializer before.parser (call.files 1)).2.currentTable =
        tableAfter deserializer before.parser.currentTable new →
      (parseBinlogFile deserializer before.parser (call.files 1)).1.records =
        tableEvents deserializer before.parser.currentTable new →
      Named deserializer history ⟨(parseBinlogFile deserializer before.parser (call.files 1)).2,call.read,
        before.delivered ++ (parseBinlogFile deserializer before.parser (call.files 1)).1.records⟩ (events ++ new) := by
    intro new front size current records
    have same : events ++ read = events ++ new := by
      apply eq_of_encodes_length next.front front
      rw [← total,size,named.size,FrameCode.encodes_append,List.length_append]
    refine ⟨same ▸ next,?_,?_⟩
    · rw [current,named.current,tableAfter_append]
    · rw [records,named.named,named.current,tableEvents_append]
  rcases undisturbed with notStarted | ⟨new,tail,bytes,cut,size,deliverable⟩
  · have origin : before.parser.lastReadPoint = 0 := by rw [named.point,if_pos notStarted.1]
    obtain ⟨same,nothing⟩ := LogConsumption.parseBinlogFile_notStarted origin notStarted (fresh notStarted.1)
    refine ⟨[],finish [] ?_ ?_ ?_ ?_,Or.inr ⟨?_,?_⟩⟩
    · rw [List.append_nil]
      exact named.front
    · rw [same]
      simp
    · rw [same,tableAfter]
    · rw [nothing,tableEvents]
    · rw [List.append_nil]
      exact named.first notStarted.1
    · cases sized : call.sized[0]? with
      | none => simp [MAGIC_HEADER]
      | some start =>
        obtain ⟨more,opened,front⟩ := toOpened 0 start sized
        obtain ⟨all,later,onward⟩ := toRead 0 more opened
        have file : (call.files 1).file = some all := by simp [Call.files,opened,later]
        have short := notStarted.2
        rw [file,Option.getD_some] at short
        exact (front.trans onward).length_le.trans_lt short
  · have opened : (call.files 1).file ≠ none := by
      cases first : before.parser.firstCall with
      | true =>
        intro missing
        rw [missing,first] at bytes
        simp [MAGIC_HEADER] at bytes
      | false =>
        have there := toOpened.there (toSized.there (named.there first))
        simpa [Call.files] using there
    have asked : (fileOf deserializer (events ++ new)).length = (call.sized[0]?.getD []).length := by
      have length : (call.files 1).fileSize = (call.sized[0]?.getD []).length := rfl
      rw [← length,size,named.point,fileOf,FrameCode.encodes_append]
      cases first : before.parser.firstCall with
      | true => simp [named.first first]
      | false => simp [fileOf,Nat.add_assoc]
    have room : before.parser.totalSize+(deserializer.encodes new).length ≤ (call.files 1).fileSize := by
      change _ ≤ (call.sized[0]?.getD []).length
      rw [← asked,named.size,fileOf,FrameCode.encodes_append,List.length_append,List.length_append]
      omega
    obtain ⟨_,_,_,size,_⟩ := LogConsumption.parseBinlogFile_wholeEvents unrotated bytes cut deliverable opened room
    obtain ⟨current,records⟩ := parseBinlogFile_named unrotated bytes cut deliverable opened room
    have front := LogConsumption.front_of_new named.toConsumed toRead written bytes
    refine ⟨new,finish new front size current records,Or.inl ?_⟩
    obtain ⟨rest,whole⟩ := front
    have start : fileOf deserializer (events ++ new) <+: fileOf deserializer (history.headD []) := by
      rw [← whole,fileOf,fileOf,FrameCode.encodes_append _ (events ++ new) rest,← List.append_assoc]
      exact List.prefix_append _ _
    exact (List.prefix_of_prefix_length_le (front_of_sized toOpened toRead written) start asked.ge).eq_of_length asked.symm

end Step
end Events

section System
variable {payload : Table → Type} {ω ε : Type}

/-- The name of a table in the log. -/
def logName : Table → String
  | .lineorder => "LINEORDER"
  | .customer => "CUSTOMER"
  | .supplier => "SUPPLIER"
  | .part => "PART"
  | .date => "DATE"

/-- The records of each table, read back from what the parser has appended to its array. -/
def recordsOf (decode : (table : Table) → ε → DeltaRow table.primaryKeyColumns (payload table))
    (delivered : List (String × ε)) : Records payload :=
  fun table => (delivered.filter (·.1 = logName table)).map fun record => decode table record.2

theorem recordsOf_append (decode : (table : Table) → ε → DeltaRow table.primaryKeyColumns (payload table))
    (delivered more : List (String × ε)) (table : Table) :
    recordsOf decode (delivered ++ more) table = recordsOf decode delivered table ++ recordsOf decode more table := by
  rw [recordsOf,List.filter_append,List.map_append]
  rfl

/-- A message that the actor handles, and what the parser sees of the log files if it is called meanwhile. -/
structure Message (ω : Type) (payload : Table → Type) where
  handled : Handled ω payload
  call : Call

/-- The server, the parser with the log files, the log file when the last pump asked for its length, and the same for
the last pump before an operator's load was answered. -/
structure State (ω : Type) (payload : Table → Type) (ε : Type) where
  server : FreshReads.State ω payload
  log : LogConsumption.State ε
  asked : List UInt8
  seen : ω → List UInt8

def State.initial (ω : Type) (payload : Table → Type) (ε : Type) : State ω payload ε :=
  ⟨FreshReads.State.initial ω payload,LogConsumption.State.initial ε,[],fun _ => []⟩

def Message.pump (message : Message ω payload) (before : State ω payload ε) :
    Option (Pump (FreshReads.Deltas payload)) :=
  message.handled.action.pump before.server.1

variable (reader : TableBatchReader)
    (stable : (table : Table) → Int → TupleSet (Row table.primaryKeyColumns (payload table)))
  (deserializer : EventDeserializer ε) (decode : (table : Table) → ε → DeltaRow table.primaryKeyColumns (payload table))
  (history : List (List ε))

def output (before : State ω payload ε) (message : Message ω payload) : Output ε :=
  (parseBinlogFile deserializer before.log.parser (message.call.files before.log.parser.lastReadFileIndex)).1

/-- A pump calls the parser, and its deltas are made from the records and the timestamp of the call. -/
structure Pumps (before : State ω payload ε) (message : Message ω payload) (after : State ω payload ε)
    (pump : Pump (FreshReads.Deltas payload)) : Prop where
  reads : LogConsumption.StepTo deserializer history before.log message.call after.log
  records : message.handled.records = recordsOf decode (output deserializer before message).records
  timestamp : pump.timestamp = (output deserializer before message).deltasTimestamp
  asked : after.asked = message.call.sized[0]?.getD []

structure StepTo [DecidableEq ω] (before : State ω payload ε) (message : Message ω payload)
    (after : State ω payload ε) : Prop where
  serves : FreshReads.StepTo reader stable before.server message.handled after.server
  pumps : ∀ pump ∈ message.pump before, Pumps deserializer decode history before message after pump
  stays : message.pump before = none → after.log = before.log ∧ after.asked = before.asked
  seen : after.seen = match message.handled.action with
    | .loadMemoryDelta op _ _ _ => Function.update before.seen op after.asked
    | _ => before.seen

/-- The conditions of the server, and that the log file does not change while it is read for a pump. -/
structure Meets (before : State ω payload ε) (message : Message ω payload) : Prop where
  serves : FreshReads.Meets reader stable before.server message.handled
  reads : ∀ pump ∈ message.pump before, Undisturbed deserializer before.log message.call

def Logged (log : Records payload) (bytes : List UInt8) : Prop :=
  ∃ events, events <+: history.headD [] ∧ Holds deserializer bytes events ∧
    log = recordsOf decode (tableEvents deserializer none events)

/-- What has been pumped is what the log file held when its length was last asked for, and what an operator has seen
what it held before its load. -/
structure Reading (state : State ω payload ε) : Prop where
  named : ∃ events, Named deserializer history state.log events ∧ Holds deserializer state.asked events
  log : state.server.2.log = recordsOf decode state.log.delivered
  seen : ∀ op held, state.server.1.held op = some held →
    Logged deserializer decode history (state.server.2.seen op) (state.seen op)

theorem reading_initial : Reading deserializer decode history (State.initial ω payload ε) where
  named := ⟨[],⟨⟨rfl,List.nil_prefix,fun started => Bool.noConfusion started,rfl,rfl,fun _ => rfl,rfl⟩,rfl,rfl⟩,
    .inr ⟨rfl,Nat.zero_lt_succ _⟩⟩
  log := rfl
  seen _ _ found := by cases found

section Step
variable {reader stable deserializer decode history} {before after : State ω payload ε} {message : Message ω payload}

theorem logged_of_named {state : State ω payload ε}
    (named : ∃ events, Named deserializer history state.log events ∧ Holds deserializer state.asked events)
    (log : state.server.2.log = recordsOf decode state.log.delivered) :
    Logged deserializer decode history state.server.2.log state.asked := by
  obtain ⟨events,named,holds⟩ := named
  exact ⟨events,named.front,holds,by rw [log,named.named]⟩

variable [DecidableEq ω]

theorem reading_pump (reading : Reading deserializer decode history before)
    (meets : Meets reader stable deserializer before message)
    (step : StepTo reader stable deserializer decode history before message after) :
    (∃ events, Named deserializer history after.log events ∧ Holds deserializer after.asked events) ∧
      after.server.2.log = recordsOf decode after.log.delivered := by
  obtain ⟨events,named,holds⟩ := reading.named
  rw [step.serves.history]
  cases made : message.pump before with
  | none =>
    obtain ⟨log,asked⟩ := step.stays made
    unfold Message.pump at made
    rw [log,asked]
    refine ⟨⟨events,named,holds⟩,?_⟩
    rw [FreshReads.History.after,made]
    exact reading.log
  | some pump =>
    obtain ⟨reads,records,_,asked⟩ := step.pumps pump (Option.mem_def.mpr made)
    obtain ⟨new,next,held⟩ := named_step named (meets.reads pump (Option.mem_def.mpr made)) reads
    unfold Message.pump at made
    rw [asked]
    refine ⟨⟨_,next,held⟩,?_⟩
    obtain ⟨_,_,_,_,_,delivered⟩ := reads
    funext table
    rw [FreshReads.History.after,made,delivered,LogConsumption.State.after]
    dsimp only [FreshReads.logAfter]
    rw [recordsOf_append,reading.log,records]
    rfl

theorem reading_step (reading : Reading deserializer decode history before)
    (meets : Meets reader stable deserializer before message)
    (step : StepTo reader stable deserializer decode history before message after) :
    Reading deserializer decode history after := by
  obtain ⟨named,log⟩ := reading_pump reading meets step
  refine ⟨named,log,?_⟩
  intro op held found
  rcases step.serves.moves.held found with ⟨old,other⟩ | ⟨⟨msg,pump,deltas,now⟩,_⟩
  · have same : after.seen op = before.seen op := by
      rw [step.seen]
      cases action : message.handled.action with
      | loadMemoryDelta op' msg pump deltas =>
        refine Function.update_of_ne ?_ _ _
        rintro rfl
        exact other msg pump deltas action
      | deltaPump pump => rfl
      | storeMergedDelta op' held msg => rfl
    rw [same,step.serves.history,FreshReads.seen_other other]
    exact reading.seen op held old
  · have loaded : after.seen op = after.asked := by
      rw [step.seen,now]
      exact Function.update_self _ _ _
    have pumped : after.server.2.seen op = after.server.2.log := by
      rw [step.serves.history,FreshReads.History.after,now]
      exact Function.update_self _ _ _
    rw [loaded,pumped]
    exact logged_of_named named log

theorem run_reading (order : ∀ table partition, Ascending Row.key (stable table partition).rows)
    {messages : List (Message ω payload)} {state : State ω payload ε}
    (run : Run (Meeting (Meets reader stable deserializer) (StepTo reader stable deserializer decode history))
      (State.initial ω payload ε) messages state) :
    FreshReads.Fresh state.server ∧ Reading deserializer decode history state := by
  apply run.invariant fun state => FreshReads.Fresh state.server ∧ Reading deserializer decode history state
  · exact ⟨FreshReads.fresh_initial,reading_initial deserializer decode history⟩
  · intro before message after ⟨fresh,reading⟩ ⟨meets,step⟩
    exact ⟨FreshReads.fresh_step order fresh meets.serves step.serves,reading_step reading meets step⟩

end Step
end System

section Examples
open Hermes.LogConsumption (LogEvent logDeserializer header still)
open Hermes.FreshReads (customers twoCustomers customers_order changed plain)

def customerDeserializer : EventDeserializer LogEvent :=
  {logDeserializer with appends := fun table event => table = "CUSTOMER" ∧ event.1.getD 29 0 = 9}

def numberAt (event : LogEvent) (offset : Nat) : Nat :=
  ((event.1.drop offset).take 4).foldr (fun byte value => byte.toNat+256*value) 0

/-- The values of an event come after two bitmaps of its columns, and the first of them are the primary key. -/
def keyOf (n : Nat) (event : LogEvent) : PrimaryKey n :=
  let offset := 30+2*(((event.1.getD 29 0).toNat+7)/8)
  ⟨(List.range n).map fun i => Int32.ofNat (numberAt event (offset+4*i)),by simp⟩

def decodeRow (table : Table) (event : LogEvent) : DeltaRow table.primaryKeyColumns Nat :=
  ⟨⟨keyOf _ event,numberAt event (event.1.length-4)⟩,.insert⟩

/-- The map of `h.CUSTOMER` with seven strings between two int columns. -/
def customerMap : LogEvent :=
  ⟨header 19 67 ++ [1,0,0,0,0,0,1,0,1,104,0,8,67,85,83,84,79,77,69,82,0,9,3,15,15,15,15,15,15,15,3,
    14,25,0,25,0,25,0,25,0,25,0,25,0,25,0,0,0],by decide⟩

/-- An insert of customer 3 with empty strings. -/
def insertedCustomer : LogEvent :=
  ⟨header 30 49 ++ [1,0,0,0,0,0,1,0,2,0,9,255,1,0,0,3,0,0,0,0,0,0,0,0,0,0,30,0,0,0],by decide⟩

def customerEvents : List LogEvent := [customerMap,insertedCustomer]

def customerFile : List UInt8 := fileOf customerDeserializer customerEvents

def pumped : Pump (FreshReads.Deltas plain) where
  deltas
    | .customer => [(0,.ofRows [changed .insert 3 30])]
    | .lineorder => []
    | .supplier => []
    | .part => []
    | .date => []
  timestamp := 1000
  distinct table := by cases table <;> decide

def insertedRecords : Records plain
  | .customer => [changed .insert 3 30]
  | .lineorder => []
  | .supplier => []
  | .part => []
  | .date => []

def firstLoad : Message Nat plain :=
  ⟨⟨.loadMemoryDelta 0 ⟨.customer,0,1⟩ pumped [⟨⟨[[changed .insert 3 30]]⟩,1000⟩],insertedRecords⟩,still [customerFile]⟩

/-- A query has loaded. -/
def firstLoaded : State Nat plain LogEvent where
  server := FreshReads.handle (FreshReads.State.initial Nat plain) firstLoad.handled
  log := (LogConsumption.State.initial LogEvent).after customerDeserializer firstLoad.call
  asked := customerFile
  seen := Function.update (fun _ => []) 0 customerFile

theorem output_first : output customerDeserializer (State.initial Nat plain LogEvent) firstLoad =
    ⟨[("CUSTOMER",insertedCustomer)],1000⟩ := rfl

theorem inserted_mergeable : FreshReads.Mergeable .chunked twoCustomers
    [(⟨⟨[[changed .insert 3 30]]⟩,1000⟩ : DeleteMapGeneratorKernel.DeltaVersion 1 Nat)] where
  filled _ σ project := .inr (by simp [TableBatchReader.chunked,TupleSet.projectExist,twoCustomers,TupleSet.ofRows])
  positive := by decide
  one := .inl (by simp)
  batches combined found := by
    cases found
    exact .inr ⟨⟨0,⟨1000,changed .insert 3 30,by decide,by decide⟩,by decide,by decide⟩,trivial⟩

theorem inserted_deliverable : Deliverable customerDeserializer none customerEvents := by
  have mapped : customerDeserializer.data customerMap = .tableMap "CUSTOMER" := by decide +kernel
  have row : customerDeserializer.data insertedCustomer = .rows .insert := by decide +kernel
  unfold customerEvents Deliverable
  rw [mapped]
  dsimp only
  unfold Deliverable
  rw [row]
  exact ⟨⟨"CUSTOMER",rfl,by decide,by decide +kernel⟩,trivial⟩

theorem run_firstLoaded : Run (Meeting (Meets .chunked (fun table _ => customers table) customerDeserializer)
      (StepTo .chunked (fun table _ => customers table) customerDeserializer decodeRow [customerEvents]))
    (State.initial Nat plain LogEvent) [firstLoad] firstLoaded := by
  have made : firstLoad.pump (State.initial Nat plain LogEvent) = some pumped := rfl
  have distinct : ∀ table, ((insertedRecords table).map (·.key)).Nodup := by
    intro table
    cases table <;> decide
  have undisturbed : Undisturbed customerDeserializer (LogConsumption.State.initial LogEvent) firstLoad.call :=
    ⟨rfl,.inr ⟨customerEvents,[],by decide +kernel,.inl rfl,by decide +kernel,inserted_deliverable⟩⟩
  have serves : FreshReads.StepTo .chunked (fun table _ => customers table) (FreshReads.State.initial Nat plain)
      firstLoad.handled firstLoaded.server := by
    refine ⟨Step.loadMemoryDelta 0 ⟨.customer,0,1⟩ pumped (.refl _),?_,trivial,rfl⟩
    intro pump found table
    obtain rfl := Option.some.inj found
    cases table <;> rfl
  refine Run.nil.meet firstLoad ⟨⟨?_,?_,trivial⟩,?_⟩ ⟨serves,?_,?_,rfl⟩
  · exact fun _ _ table => FreshReads.single_of_distinct (distinct table)
  · intro pump found table partition _
    obtain rfl := Option.some.inj found
    exact Int.natCast_pos.mpr (Nat.zero_lt_succ 999)
  · exact fun _ _ => undisturbed
  · intro pump found
    rw [made] at found
    obtain rfl := Option.some.inj found
    refine ⟨⟨LogConsumption.Grows.nil _,LogConsumption.Grows.refl _,LogConsumption.Grows.refl _,
      Written.whole customerDeserializer [customerEvents],fun _ => rfl,rfl⟩,?_,?_,rfl⟩
    · rw [output_first]
      funext table
      cases table <;> rfl
    · rw [output_first]
      rfl
  · intro none_
    rw [made] at none_
    cases none_

theorem query_firstLoaded : Query .chunked (fun table _ => customers table) firstLoaded.server .customer [0]
    (fun _ => 0) (fun _ => [⟨⟨[[changed .insert 3 30]]⟩,1000⟩]) [changed .insert 3 30] where
  once := List.nodup_singleton _
  loaded := List.forall_mem_singleton.mpr ⟨_,rfl⟩
  seen := List.forall_mem_singleton.mpr rfl
  covered _ _ := ⟨0,List.mem_singleton_self _,rfl⟩
  placed := List.forall_mem_singleton.mpr fun _ _ => rfl
  mergeable := List.forall_mem_singleton.mpr inserted_mergeable

end Examples
end Hermes.LogReads
