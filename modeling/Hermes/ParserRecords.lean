import Hermes.LogParser
import Mathlib.Data.List.Perm.Basic

/-! `Parser.parseBinlogFile`, the records of its loop over the events.
An event has one record, filled row after row and appended behind its last row. The
decoding of byte values and the writer of Avro, which may refuse a record, are parameters. -/
namespace Hermes.ParserRecords
open Hermes.Tuple Hermes.LogParser
variable {ν : Type}

/-- A value of a row: `byte[]`, which becomes a string, or anything else, which stays. -/
inductive Serializable (ν : Type)
  | bytes (val : List UInt8)
  | other (val : ν)
deriving DecidableEq

inductive Datum (ν : Type)
  | string (val : String)
  | other (val : ν)
deriving DecidableEq

abbrev BinlogRow (ν : Type) := List (Serializable ν)

inductive RowsEventData (ν : Type)
  | write (rows : List (BinlogRow ν))
  | delete (rows : List (BinlogRow ν))
  | update (rows : List (BinlogRow ν × BinlogRow ν))

inductive BinlogData (ν : Type)
  | tableMap (table : String)
  | rows (data : RowsEventData ν)
  | other

structure BinlogEvent (ν : Type) where
  length : Nat
  timestamp : Int
  data : BinlogData ν

/-- The columns of the tables, the type tag behind them. The schemas list the same names. -/
def colList : String → List String
  | "LINEORDER" => ["lo_orderkey","lo_linenumber","lo_custkey","lo_partkey","lo_suppkey","lo_orderdate",
      "lo_orderpriority","lo_shippriority","lo_quantity","lo_extendedprice","lo_discount","lo_revenue",
      "lo_supplycost","lo_tax","lo_commitdate","lo_shipmode","type"]
  | "CUSTOMER" => ["c_custkey","c_name","c_address","c_city","c_nation","c_region","c_phone",
      "c_mktsegment","c_paymentcnt","type"]
  | "SUPPLIER" => ["s_suppkey","s_name","s_address","s_city","s_nation","s_region","s_phone","s_ytd","type"]
  | "PART" => ["p_partkey","p_name","p_mfgr","p_category","p_brand1","p_color","p_type","p_size",
      "p_container","p_price","type"]
  | "DATE" => ["d_datekey","d_date","d_dayofweek","d_month","d_year","d_yearmonthnum","d_yearmonth",
      "d_daynuminweek","d_daynuminmonth","d_daynuminyear","d_monthnuminyear","d_weeknuminyear",
      "d_sellingseason","d_lastdayinweekfl","d_lastdayinmonthfl","d_holidayfl","d_weekdayfl","type"]
  | "HISTORY" => ["h_orderkey","h_custkey","h_amount","type"]
  | _ => []

theorem colList_nodup (table : String) : (colList table).Nodup := by
  unfold colList
  split <;> decide

theorem colList_ne_nil {table : String} (known : table ∈ schemaList) : colList table ≠ [] := by
  unfold schemaList at known
  simp only [List.mem_cons,List.not_mem_nil,or_false] at known
  rcases known with rfl | rfl | rfl | rfl | rfl | rfl <;> simp [colList]

abbrev GenericRecord (ν : Type) := List (String × Option (Datum ν))

def GenericRecord.make (colName : List String) : GenericRecord ν := colName.map (·,none)

/-- A name that is no field of the schema throws. -/
def GenericRecord.put (record : GenericRecord ν) (key : String) (v : Datum ν) : Option (GenericRecord ν) :=
  if key ∈ record.map Prod.fst then
    some (record.map (fun field => if field.1 = key then (key,some v) else field))
  else none

section Rows
variable (utf8 : List UInt8 → String)

def value : Serializable ν → Datum ν
  | .bytes val => .string (utf8 val)
  | .other val => .other val

/-- The values of a row, one after the other from the first column on, and the tag behind them. -/
def values (row : BinlogRow ν) (tag : String) : List (Datum ν) := row.map (value utf8) ++ [.string tag]

/-- An index behind the last column throws. -/
def putAll (colName : List String) : Nat → List (Datum ν) → GenericRecord ν → Option (GenericRecord ν)
  | _, [], record => some record
  | writeIndex, v::vs, record => do
    let name ← colName[writeIndex]?
    let record ← record.put name v
    putAll colName (writeIndex+1) vs record

def fillRows (colName : List String) (tag : String) (rows : List (BinlogRow ν)) (record : GenericRecord ν) :
    Option (GenericRecord ν) :=
  rows.foldlM (fun record row => putAll colName 0 (values utf8 row tag) record) record

/-- The rows that are looked at: of an update those after it. -/
def RowsEventData.images : RowsEventData ν → List (BinlogRow ν)
  | .write rows => rows
  | .delete rows => rows
  | .update rows => rows.map Prod.snd

def RowsEventData.tag : RowsEventData ν → String
  | .write _ => "INSERT"
  | .delete _ => "DELETE"
  | .update _ => "UPDATE"

def eventRecord (table : String) (data : RowsEventData ν) : Option (GenericRecord ν) :=
  fillRows utf8 (colList table) data.tag data.images (.make (colList table))

def rowRecord (table tag : String) (row : BinlogRow ν) : GenericRecord ν :=
  (colList table).zip ((values utf8 row tag).map some)

end Rows

/-- The statics and the output of the loop: the records appended, with their table. -/
structure EventLoop (ν : Type) where
  totalSize : Nat
  currentTable : Option String
  deltasTimestamp : Int
  records : List (String × GenericRecord ν)

/-- The loop over the events. `append` tells whether the writer of a table takes a record;
whatever throws ends the loop. -/
def readEvents (utf8 : List UInt8 → String) (append : String → GenericRecord ν → Bool) (fileSize : Nat) :
    List (BinlogEvent ν) → EventLoop ν → EventLoop ν
  | [], loop => loop
  | event::events, loop =>
    let loop := {loop with totalSize := loop.totalSize+event.length}
    if loop.totalSize > fileSize then loop
    else
      let loop := {loop with deltasTimestamp := event.timestamp}
      match event.data, loop.currentTable with
      | .tableMap table, _ => readEvents utf8 append fileSize events {loop with currentTable := some table}
      | _, none => readEvents utf8 append fileSize events loop
      | .rows data, some table =>
        if table ∈ schemaList then
          match eventRecord utf8 table data with
          | some record =>
            if append table record then
              readEvents utf8 append fileSize events {loop with records := loop.records ++ [(table,record)]}
            else loop
          | none => loop
        else loop
      | .other, some table =>
        if table ∈ schemaList then readEvents utf8 append fileSize events loop else loop

def output (records : List (String × GenericRecord ν)) (table : String) : List (GenericRecord ν) :=
  (records.filter (fun r => r.1 = table)).map Prod.snd

/-- One record for each row of each event, in order; an event belongs to the table of the
last `TABLE_MAP` before it. -/
def rowRecords (utf8 : List UInt8 → String) : Option String → List (BinlogEvent ν) → List (String × GenericRecord ν)
  | _, [] => []
  | currentTable, event::events =>
    match event.data, currentTable with
    | .tableMap table, _ => rowRecords utf8 (some table) events
    | .rows data, some table =>
      data.images.map (fun row => (table,rowRecord utf8 table data.tag row)) ++ rowRecords utf8 (some table) events
    | _, _ => rowRecords utf8 currentTable events

/-- What a log promises: known tables, rows with a value for each column of their table, and
values that the table's schema admits. -/
def Valid (utf8 : List UInt8 → String) (append : String → GenericRecord ν → Bool) :
    Option String → List (BinlogEvent ν) → Prop
  | _, [] => True
  | currentTable, event::events =>
    match event.data, currentTable with
    | .tableMap table, _ => table ∈ schemaList ∧ Valid utf8 append (some table) events
    | .rows data, some table =>
      (∀ row ∈ data.images, row.length+1 = (colList table).length ∧
        append table (rowRecord utf8 table data.tag row) = true) ∧ Valid utf8 append (some table) events
    | _, _ => Valid utf8 append currentTable events

/-- Every event has one row, up to where the loop ends: behind the size limit and from an
event without rows on there are no rows. -/
def SingleRows (utf8 : List UInt8 → String) (fileSize : Nat) : Nat → Option String → List (BinlogEvent ν) → Prop
  | _, _, [] => True
  | totalSize, currentTable, event::events =>
    if totalSize+event.length > fileSize then rowRecords utf8 currentTable (event::events) = []
    else
      match event.data, currentTable with
      | .tableMap table, _ => SingleRows utf8 fileSize (totalSize+event.length) (some table) events
      | .rows data, some table =>
        (data.images.length = 1 ∧ SingleRows utf8 fileSize (totalSize+event.length) (some table) events) ∨
        (data.images = [] ∧ rowRecords utf8 (some table) events = [])
      | _, _ => SingleRows utf8 fileSize (totalSize+event.length) currentTable events

section Records
variable {utf8 : List UInt8 → String} {colName : List String}

theorem put_zip {i : Nat} {name : String} (distinct : colName.Nodup) (read : colName[i]? = some name)
    (vs : List (Option (Datum ν))) (size : vs.length = colName.length) (v : Datum ν) :
    GenericRecord.put (colName.zip vs) name v = some (colName.zip (vs.set i (some v))) := by
  have names : (colName.zip vs).map Prod.fst = colName := List.map_fst_zip (by omega)
  rw [GenericRecord.put,names,if_pos (List.mem_of_getElem? read),Option.some.injEq]
  apply List.ext_getElem?
  intro j
  rw [List.getElem?_map,List.zip,List.getElem?_zipWith,List.getElem?_zipWith,List.getElem?_set]
  by_cases same : i = j
  · subst same
    obtain ⟨bound,rfl⟩ := List.getElem?_eq_some_iff.mp read
    simp [size,bound]
  · rw [if_neg same]
    cases other : colName[j]? with
    | none => simp
    | some name' =>
      cases held : vs[j]? with
      | none => simp
      | some v' =>
        have differs : name' ≠ name := by
          rintro rfl
          exact same ((List.getElem?_inj (List.getElem?_eq_some_iff.mp read).1 distinct).mp
            (read.trans other.symm))
        simp [differs]

theorem putAll_zip (distinct : colName.Nodup) (ds : List (Datum ν)) :
    ∀ (writeIndex : Nat) (vs : List (Option (Datum ν))), vs.length = colName.length →
      writeIndex+ds.length ≤ colName.length →
      putAll colName writeIndex ds (colName.zip vs) =
        some (colName.zip (vs.take writeIndex ++ ds.map some ++ vs.drop (writeIndex+ds.length))) := by
  induction ds with
  | nil => intro writeIndex vs _ _; simp [putAll]
  | cons d ds ih =>
    intro writeIndex vs size room
    rw [List.length_cons] at room
    have read : colName[writeIndex]? = some (colName.get ⟨writeIndex,by omega⟩) :=
      List.getElem?_eq_getElem (by omega)
    have rest := ih (writeIndex+1) (vs.set writeIndex (some d)) (by simpa using size) (by omega)
    simp only [putAll,read,put_zip distinct read vs size,Option.bind_eq_bind,Option.bind_some,rest]
    have low : (vs.set writeIndex (some d)).take (writeIndex+1) = vs.take writeIndex ++ [some d] := by
      rw [List.take_add_one,List.take_set_of_le (le_refl _)]
      simp [show writeIndex < vs.length by omega]
    have high : (vs.set writeIndex (some d)).drop (writeIndex+1+ds.length) =
        vs.drop (writeIndex+(d::ds).length) := by
      rw [List.drop_set_of_lt (by omega)]
      congr 1
      simp only [List.length_cons]
      omega
    rw [low,high]
    simp

theorem fillRows_last (distinct : colName.Nodup) (tag : String) (rows : List (BinlogRow ν))
    (fit : ∀ row ∈ rows, row.length+1 = colName.length) :
    ∀ vs : List (Option (Datum ν)), vs.length = colName.length →
      fillRows utf8 colName tag rows (colName.zip vs) =
        some (colName.zip ((rows.getLast?.map (fun row => (values utf8 row tag).map some)).getD vs)) := by
  induction rows with
  | nil => intro vs _; rfl
  | cons row rows ih =>
    intro vs size
    have count : (values utf8 row tag).length = colName.length := by
      simpa [values] using fit row List.mem_cons_self
    have here : putAll colName 0 (values utf8 row tag) (colName.zip vs) =
        some (colName.zip ((values utf8 row tag).map some)) := by
      rw [putAll_zip distinct _ 0 vs size (by omega)]
      simp [count,← size]
    have rest := ih (fun r member => fit r (List.mem_cons_of_mem _ member)) ((values utf8 row tag).map some)
      (by simpa using count)
    rw [fillRows,List.foldlM_cons,here]
    apply rest.trans
    cases rows with
    | nil => rfl
    | cons other rows => rw [List.getLast?_cons_cons]; simp [List.getLast?_cons]

theorem make_zip (colName : List String) :
    (GenericRecord.make colName : GenericRecord ν) = colName.zip (List.replicate colName.length none) := by
  induction colName with
  | nil => rfl
  | cons name colName ih => exact congrArg ((name,none) :: ·) ih

theorem eventRecord_last {table : String} {data : RowsEventData ν}
    (fit : ∀ row ∈ data.images, row.length+1 = (colList table).length) :
    eventRecord utf8 table data =
      some ((data.images.getLast?.map (rowRecord utf8 table data.tag)).getD (.make (colList table))) := by
  rw [eventRecord,make_zip,fillRows_last (colList_nodup table) _ _ fit _ (by simp)]
  cases data.images.getLast? <;> rfl

end Records

section Delivery
variable {utf8 : List UInt8 → String} {append : String → GenericRecord ν → Bool} {fileSize : Nat}

theorem singleRows_beyond {totalSize : Nat} {currentTable : Option String} {event : BinlogEvent ν}
    {events : List (BinlogEvent ν)} (beyond : totalSize+event.length > fileSize) :
    SingleRows utf8 fileSize totalSize currentTable (event::events) ↔
      rowRecords utf8 currentTable (event::events) = [] := by
  rw [SingleRows.eq_def]
  simp only [if_pos beyond]

theorem readEvents_appends (fileSize : Nat)
    (refuses : ∀ table record, (∃ field ∈ record, field.2 = none) → append table record = false)
    (events : List (BinlogEvent ν)) : ∀ loop : EventLoop ν,
    (∀ table, loop.currentTable = some table → table ∈ schemaList) →
    Valid utf8 append loop.currentTable events →
    ∃ appended, (readEvents utf8 append fileSize events loop).records = loop.records ++ appended ∧
      appended.length ≤ (rowRecords utf8 loop.currentTable events).length ∧
      (SingleRows utf8 fileSize loop.totalSize loop.currentTable events →
        appended = rowRecords utf8 loop.currentTable events) ∧
      (appended.length = (rowRecords utf8 loop.currentTable events).length →
        SingleRows utf8 fileSize loop.totalSize loop.currentTable events) := by
  induction events with
  | nil => intro loop _ _; exact ⟨[],by simp [readEvents,rowRecords,SingleRows]⟩
  | cons event events ih =>
    rintro ⟨totalSize,currentTable,deltasTimestamp,records⟩ known valid
    obtain ⟨length,timestamp,data⟩ := event
    by_cases beyond : totalSize+length > fileSize
    · refine ⟨[],by simp [readEvents,beyond],by simp,?_,?_⟩
      · intro single
        exact ((singleRows_beyond beyond).mp single).symm
      · intro same
        exact (singleRows_beyond beyond).mpr (List.length_eq_zero_iff.mp same.symm)
    cases data with
    | tableMap table =>
      simp only [readEvents,if_neg beyond,rowRecords,SingleRows]
      simp only [Valid] at valid
      exact ih ⟨totalSize+length,some table,timestamp,records⟩
        (fun t same => Option.some.inj same ▸ valid.1) valid.2
    | other =>
      cases currentTable with
      | none =>
        simp only [readEvents,if_neg beyond,rowRecords,SingleRows]
        exact ih ⟨totalSize+length,none,timestamp,records⟩ known valid
      | some table =>
        simp only [readEvents,if_neg beyond,rowRecords,SingleRows,if_pos (known table rfl)]
        exact ih ⟨totalSize+length,some table,timestamp,records⟩ known valid
    | rows data =>
      cases currentTable with
      | none =>
        simp only [readEvents,if_neg beyond,rowRecords,SingleRows]
        exact ih ⟨totalSize+length,none,timestamp,records⟩ known valid
      | some table =>
        simp only [Valid] at valid
        obtain ⟨rows,valid⟩ := valid
        have table_ := known table rfl
        have filled : eventRecord utf8 table data = _ := eventRecord_last (fun row member => (rows row member).1)
        simp only [readEvents,if_neg beyond,rowRecords,SingleRows,if_pos table_,filled]
        cases last : data.images.getLast? with
        | none =>
          -- the record of no row is null throughout, and the refusal ends the loop
          have empty := List.getLast?_eq_none_iff.mp last
          obtain ⟨name,names,columns⟩ := List.exists_cons_of_ne_nil (colList_ne_nil table_)
          have refused : append table (.make (colList table)) = false := by
            apply refuses
            simp [columns,GenericRecord.make]
          refine ⟨[],by simp [refused],by simp,?_,?_⟩
          · rintro (⟨one,_⟩ | ⟨_,none_⟩)
            · simp [empty] at one
            · simp [empty,none_]
          · intro same
            right
            simp only [empty,List.map_nil,List.nil_append] at same
            exact ⟨empty,List.length_eq_zero_iff.mp same.symm⟩
        | some row =>
          obtain ⟨before,images⟩ := List.getLast?_eq_some_iff.mp last
          have accepted := (rows row (by simp [images])).2
          obtain ⟨appended,grows,bound,delivered,exact_⟩ :=
            ih ⟨totalSize+length,some table,timestamp,
              records ++ [(table,rowRecord utf8 table data.tag row)]⟩ known valid
          simp only at grows bound delivered exact_
          refine ⟨(table,rowRecord utf8 table data.tag row) :: appended,?_,?_,?_,?_⟩
          · simp [accepted,grows]
          · simp only [images,List.map_append,List.length_append,List.length_map,List.length_cons,
              List.length_nil]
            omega
          · rintro (⟨one,single⟩ | ⟨none_,_⟩)
            · have first : before = [] := by simpa [images] using one
              simp [images,first,delivered single]
            · simp [images] at none_
          · intro same
            simp only [images,List.map_append,List.length_append,List.length_map,List.length_cons,
              List.length_nil] at same
            left
            refine ⟨?_,exact_ (by omega)⟩
            rw [images,List.length_append,List.length_singleton]
            omega

theorem count_output [DecidableEq ν] (records : List (String × GenericRecord ν))
    (table : String) (record : GenericRecord ν) :
    (output records table).count record = records.count (table,record) := by
  induction records with
  | nil => rfl
  | cons r records ih =>
    obtain ⟨table',record'⟩ := r
    unfold output at ih ⊢
    by_cases same : table' = table
    · simp [same,List.count_cons,ih]
    · simp [same,ih]

theorem length_of_outputs {first second : List (String × GenericRecord ν)}
    (same : ∀ table, output first table = output second table) : first.length = second.length := by
  have := Classical.decEq ν
  apply List.Perm.length_eq
  rw [List.perm_iff_count]
  rintro ⟨table,record⟩
  rw [← count_output,← count_output,same table]

/-- Every row of every event is in the output of its table, in order, exactly where the
events have one row each. -/
theorem readEvents_delivers_iff (utf8 : List UInt8 → String) (append : String → GenericRecord ν → Bool)
    (refuses : ∀ table record, (∃ field ∈ record, field.2 = none) → append table record = false)
    (fileSize totalSize : Nat) (currentTable : Option String)
    (known : ∀ table, currentTable = some table → table ∈ schemaList)
    (events : List (BinlogEvent ν)) (valid : Valid utf8 append currentTable events) :
    (∀ table, output (readEvents utf8 append fileSize events ⟨totalSize,currentTable,0,[]⟩).records table =
      output (rowRecords utf8 currentTable events) table) ↔
    SingleRows utf8 fileSize totalSize currentTable events := by
  obtain ⟨appended,records,_,delivered,exact_⟩ :=
    readEvents_appends fileSize refuses events ⟨totalSize,currentTable,0,[]⟩ known valid
  rw [List.nil_append] at records
  rw [records]
  constructor
  · intro same
    exact exact_ (length_of_outputs same)
  · intro single table
    rw [delivered single]

end Delivery

section Refinement
variable {ε : Type} {utf8 : List UInt8 → String} {append : String → GenericRecord ν → Bool}

/-- The type column's value. -/
def RowsEventData.type : RowsEventData ν → EventType
  | .write _ => .insert
  | .delete _ => .delete
  | .update _ => .update

/-- A deserializer whose events have these contents, before a writer that takes these records. -/
structure Reads (deserializer : EventDeserializer ε) (view : ε → BinlogEvent ν)
    (utf8 : List UInt8 → String) (append : String → GenericRecord ν → Bool) : Prop where
  length : ∀ event, deserializer.length event = (view event).length
  timestamp : ∀ event, deserializer.timestamp event = (view event).timestamp
  data : ∀ event, deserializer.data event =
    match (view event).data with
    | .tableMap table => .tableMap table
    | .rows data => .rows data.type
    | .other => .other
  appends : ∀ table event data, (view event).data = .rows data →
    deserializer.appends table event = ((eventRecord utf8 table data).map (append table)).getD false

/-- The record an accepted event has left. -/
def recordOf (utf8 : List UInt8 → String) (view : ε → BinlogEvent ν) (r : String × ε) :
    String × GenericRecord ν :=
  match (view r.2).data with
  | .rows data => (r.1,(eventRecord utf8 r.1 data).getD [])
  | _ => (r.1,[])

def EventLoop.of (utf8 : List UInt8 → String) (view : ε → BinlogEvent ν) (loop : Loop ε) : EventLoop ν :=
  ⟨loop.totalSize,loop.currentTable,loop.deltasTimestamp,loop.records.map (recordOf utf8 view)⟩

theorem readEvents_parseEvents {deserializer : EventDeserializer ε} {view : ε → BinlogEvent ν}
    (reads : Reads deserializer view utf8 append) (fileSize : Nat) (events : List ε) (loop : Loop ε) :
    readEvents utf8 append fileSize (events.map view) (.of utf8 view loop) =
      .of utf8 view (parseEvents deserializer fileSize events loop) := by
  induction events generalizing loop with
  | nil => rfl
  | cons event events ih =>
    obtain ⟨totalSize,currentTable,deltasTimestamp,records⟩ := loop
    rcases viewed : view event with ⟨size,stamp,data⟩
    have length : deserializer.length event = size := by rw [reads.length,viewed]
    have timestamp : deserializer.timestamp event = stamp := by rw [reads.timestamp,viewed]
    have contents := reads.data event
    rw [viewed] at contents
    by_cases beyond : totalSize+size > fileSize
    · simp [readEvents,parseEvents,EventLoop.of,viewed,length,beyond]
    cases data with
    | tableMap table =>
      have rest := ih ⟨totalSize+size,some table,stamp,records⟩
      simpa [readEvents,parseEvents,EventLoop.of,viewed,length,timestamp,contents,beyond] using rest
    | other =>
      have rest := ih ⟨totalSize+size,currentTable,stamp,records⟩
      cases currentTable with
      | none => simpa [readEvents,parseEvents,EventLoop.of,viewed,length,timestamp,contents,beyond] using rest
      | some table =>
        by_cases known : table ∈ schemaList
        · simpa [readEvents,parseEvents,EventLoop.of,viewed,length,timestamp,contents,beyond,known] using rest
        · simp [readEvents,parseEvents,EventLoop.of,viewed,length,timestamp,contents,beyond,known]
    | rows rows =>
      cases currentTable with
      | none =>
        have rest := ih ⟨totalSize+size,none,stamp,records⟩
        simpa [readEvents,parseEvents,EventLoop.of,viewed,length,timestamp,contents,beyond] using rest
      | some table =>
        have appends := reads.appends table event rows (by rw [viewed])
        have rest := ih ⟨totalSize+size,some table,stamp,records ++ [(table,event)]⟩
        have record := recordOf.eq_def utf8 view (table,event)
        simp only [viewed] at record
        simp only [List.map_cons,readEvents,parseEvents,EventLoop.of,viewed,length,timestamp,contents,
          if_neg beyond,appends]
        by_cases known : table ∈ schemaList
        · cases made : eventRecord utf8 table rows with
          | none => simp [known]
          | some new =>
            cases taken : append table new with
            | false => simp [known,taken]
            | true => simpa [known,taken,EventLoop.of,record,made] using rest
        · simp [known]

end Refinement

section Inputs

def unsetRefused (_ : String) (record : GenericRecord Int32) : Bool := record.all (fun field => field.2.isSome)

def historyRow (orderkey : Int32) : BinlogRow Int32 := [.other orderkey,.other 7,.other 100]

/-- A write and an update of one row each, with the delete of a row of another table between them. -/
def singleRowLog : List (BinlogEvent Int32) :=
  [⟨30,1,.tableMap "HISTORY"⟩,⟨40,1,.rows (.write [historyRow 1])⟩,
    ⟨30,2,.tableMap "SUPPLIER"⟩,
    ⟨60,2,.rows (.delete [[.other 1,.bytes [],.bytes [],.bytes [],.bytes [],.bytes [],.bytes [],.other 0]])⟩,
    ⟨30,3,.tableMap "HISTORY"⟩,⟨50,3,.rows (.update [(historyRow 1,historyRow 2)])⟩]

theorem unsetRefused_null (table : String) (record : GenericRecord Int32)
    (null : ∃ field ∈ record, field.2 = none) : unsetRefused table record = false := by
  obtain ⟨field,member,unset⟩ := null
  rw [unsetRefused,List.all_eq_false]
  exact ⟨field,member,by simp [unset]⟩

theorem singleRowLog_delivered :
    output (readEvents (fun _ => "") unsetRefused 300 singleRowLog ⟨0,none,0,[]⟩).records "HISTORY" =
      output (rowRecords (fun _ => "") none singleRowLog) "HISTORY" := by
  apply (readEvents_delivers_iff (fun _ => "") unsetRefused unsetRefused_null 300 0 none (by simp)
    singleRowLog ?_).mpr
  · simp [SingleRows,singleRowLog,RowsEventData.images]
  · simp only [Valid,singleRowLog,RowsEventData.images]
    decide

def twoRowLog : List (BinlogEvent Int32) :=
  [⟨30,1,.tableMap "HISTORY"⟩,⟨60,1,.rows (.write [historyRow 1,historyRow 2])⟩]

theorem twoRowLog_dropped :
    Valid (fun _ => "") unsetRefused none twoRowLog ∧
    ¬∀ table, output (readEvents (fun _ => "") unsetRefused 300 twoRowLog ⟨0,none,0,[]⟩).records table =
      output (rowRecords (fun _ => "") none twoRowLog) table := by
  constructor
  · simp only [Valid,twoRowLog,RowsEventData.images]
    decide
  · intro same
    have sizes := congrArg List.length (same "HISTORY")
    revert sizes
    decide

end Inputs

end Hermes.ParserRecords
