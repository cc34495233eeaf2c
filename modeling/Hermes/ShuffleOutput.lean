import Hermes.ShufflePOp
import Hermes.Library.Parts
import Mathlib.Data.List.Induction

/-! What a shuffle sends. A row is taken as what it has under each name. As long as all
tuple sets have the same columns and the shuffle columns can be hashed, every consumer
gets exactly the rows that its number is the route of, in the order they came. -/
namespace Hermes.Shuffle
open Hermes.Tuples Hermes.Operators
open Hermes.Library.ListJoin (parts_perm)
variable {α ν : Type}

def records (tupleSet : TupleSet ν) : List (Record ν) := (tupleSet.map Table.records).getD []

section
variable (runtime : Runtime ν) (under : DataType → ν) (columnNames : List String) (numSlots : Nat)

/-- The hash of a key, where `under` is what lies under the nulls of each type. -/
def hashKey (key : List (List (DataType × Option ν))) : UInt64 :=
  hashCombine (key.filterMap fun cell => cell.head?.map fun column =>
    hashSlot runtime column.1 ⟨column.2.isSome,column.2.getD (under column.1)⟩)

def keyOf (record : Record ν) : List (List (DataType × Option ν)) :=
  columnNames.map fun columnName => record (canonicalize columnName)

def route (record : Record ν) : Nat := (hashKey runtime under (keyOf columnNames record)).toNat % numSlots

/-- A table that the kernel can take apart: it has the shuffle columns, with types that
can be hashed, and the same value under all nulls of one type. -/
structure Routable (table : Table ν) : Prop where
  keys : ∀ columnName ∈ columnNames, ∃ c field, getFieldIndex table.fields (canonicalize columnName) = some c ∧
    table.fields[c]? = some field ∧ hashable field.type = true ∧
      ∀ row ∈ table.rows, ∀ slot, row[c]? = some slot → slot.isValid = false → slot.raw = under field.type
  appenders : ∀ field ∈ table.fields, appendable field.type = true
  columns : table.fields ≠ []

/-- A tuple set that the operator takes after others of the schema `fields`. -/
def Acceptable (fields : List Field) (tupleSet : TupleSet ν) : Prop :=
  ∃ table, tupleSet = some table ∧ SameColumns fields table.fields ∧
    (table.rows = [] ∨ Routable under columnNames table)

end

section
variable (runtime : Runtime ν) {under : DataType → ν} {columnNames : List String} {table : Table ν}

theorem shuffleColumnIndices_found {fields : List Field} {rows : List (List (Slot ν))}
    (shaped : ∀ row ∈ rows, row.length = fields.length)
    (keys : ∀ columnName ∈ columnNames, ∃ c field, getFieldIndex fields (canonicalize columnName) = some c ∧
      fields[c]? = some field ∧ hashable field.type = true ∧
        ∀ row ∈ rows, ∀ slot, row[c]? = some slot → slot.isValid = false → slot.raw = under field.type) :
    ∃ indices, shuffleColumnIndices fields columnNames = .ok indices ∧
      (∀ c ∈ indices, (fields[c]?.any fun field => !hashable field.type) = false) ∧
      ∀ row ∈ rows, (indices.filterMap fun c => fields[c]?.bind fun field => row[c]?.map (hashSlot runtime field.type)) =
        (keyOf columnNames (recordOf fields row)).filterMap fun cell => cell.head?.map fun column =>
          hashSlot runtime column.1 ⟨column.2.isSome,column.2.getD (under column.1)⟩ := by
  induction columnNames with
  | nil => exact ⟨[],rfl,fun _ inside => absurd inside List.not_mem_nil,fun _ _ => rfl⟩
  | cons columnName columnNames ih =>
    obtain ⟨indices,found,hashed,same⟩ := ih fun later inside => keys later (List.mem_cons_of_mem _ inside)
    obtain ⟨c,field,here,there,can,blank⟩ := keys columnName List.mem_cons_self
    refine ⟨c::indices,?_,?_,?_⟩
    · rw [shuffleColumnIndices,here]
      dsimp only
      rw [found]
    · refine List.forall_mem_cons.mpr ⟨?_,hashed⟩
      rw [there]
      simp [can]
    · intro row inside
      obtain ⟨field',slot,there',_,value,cell⟩ := recordOf_found (shaped row inside) here
      rw [there] at there'
      obtain rfl := Option.some.inj there'
      have hashes : hashSlot runtime field.type ⟨slot.value.isSome,slot.value.getD (under field.type)⟩ =
          hashSlot runtime field.type slot := by
        have raw : slot.value.getD (under field.type) = slot.raw := by
          unfold Slot.value
          split
          next => rfl
          next null => exact (blank row inside slot value (by simpa using null)).symm
        rw [hashSlot.eq_def,hashSlot.eq_def,raw]
      have later := same row inside
      rw [keyOf] at later ⊢
      rw [List.map_cons,List.filterMap_cons,List.filterMap_cons,cell,there,value]
      simp only [Option.bind_some,Option.map_some,List.head?_cons,hashes,later]

theorem shuffleAll_append {fields : List Field} {indices : List Nat}
    (hashed : ∀ c ∈ indices, (fields[c]?.any fun field => !hashable field.type) = false)
    (appenders recordBatches : List (List (ShapedRow ν fields))) :
    RecordBatchShuffler.shuffleAll runtime indices appenders recordBatches =
      .ok (appenders.mapIdx fun s shuffled => shuffled ++ (recordBatches.flatten.filter fun row =>
        RecordBatchShuffler.partitionId runtime fields indices appenders.length row.val == s).map (appendRow runtime)) := by
  induction recordBatches generalizing appenders with
  | nil =>
    rw [RecordBatchShuffler.shuffleAll]
    apply congrArg
    apply List.ext_getElem
    · rw [List.length_mapIdx]
    · simp
  | cons recordBatch recordBatches ih =>
    have all : indices.find? (fun c => fields[c]?.any fun field => !hashable field.type) = none := by
      rw [List.find?_eq_none]
      intro c inside
      rw [hashed c inside]
      exact Bool.false_ne_true
    rw [RecordBatchShuffler.shuffleAll,RecordBatchShuffler.shuffle,all]
    dsimp only
    rw [ih,List.length_mapIdx,List.mapIdx_mapIdx]
    simp [Function.comp_def,List.append_assoc]

theorem recordOf_appendRow {fields : List Field} (row : ShapedRow ν fields) :
    recordOf fields (appendRow runtime row).val = recordOf fields row.val := by
  obtain ⟨row,shaped⟩ := row
  funext name
  have cells : ∀ (fields : List Field) (row : List (Slot ν)),
      recordOf fields (List.zipWith (fun field slot => appendSlot runtime field.type slot) fields row) name =
        recordOf fields row name := by
    intro fields
    induction fields with
    | nil => exact fun _ => rfl
    | cons field fields ih =>
      intro row
      cases row with
      | nil => rfl
      | cons slot row =>
        have value : (appendSlot runtime field.type slot).value = slot.value := by
          unfold appendSlot Slot.value
          split
          next => rfl
          next => rfl
        have later := ih row
        simp only [recordOf] at later ⊢
        rw [List.zipWith_cons_cons,List.zip_cons_cons,List.zip_cons_cons,List.filter_cons,List.filter_cons]
        dsimp only
        split
        next => rw [List.map_cons,List.map_cons,later,value]
        next => exact later
  exact cells fields row

theorem shuffle_routes (routable : Routable under columnNames table) (numSlots : Nat) :
    ∃ shuffled : Nat → Table ν, shuffle runtime columnNames numSlots table = .ok ((List.range numSlots).map shuffled) ∧
      ∀ p, (shuffled p).fields = table.fields ∧
        (shuffled p).records =
        table.records.filter fun record => route runtime under columnNames numSlots record == p := by
  obtain ⟨indices,found,hashed,same⟩ := shuffleColumnIndices_found runtime table.shaped routable.keys
  have made : RecordBatchShuffler.make columnNames table.fields = .ok indices := by
    have all : table.fields.find? (fun field => !appendable field.type) = none := by
      rw [List.find?_eq_none]
      intro field inside
      rw [routable.appenders field inside]
      exact Bool.false_ne_true
    rw [RecordBatchShuffler.make,found]
    dsimp only
    rw [all]
  refine ⟨fun p => RecordBatchShuffler.toTable (((runtime.batches table).flatten.filter fun row =>
      RecordBatchShuffler.partitionId runtime table.fields indices numSlots row.val == p).map
        (appendRow runtime)),?_,?_⟩
  · rw [shuffle,made]
    dsimp only
    rw [shuffleAll_append runtime hashed,List.length_replicate]
    dsimp only
    apply congrArg
    apply List.ext_getElem
    · simp
    · simp
  · intro p
    refine ⟨rfl,?_⟩
    have some : table.fields.isEmpty = false := by simpa using routable.columns
    change List.map (recordOf table.fields) (if table.fields.isEmpty then [] else _) = _
    rw [some,if_neg Bool.false_ne_true,List.map_map,List.map_map,Table.records,← runtime.batches_flatten table,
      List.map_map,
      List.filter_map]
    have routes : ∀ row ∈ (runtime.batches table).flatten,
        (RecordBatchShuffler.partitionId runtime table.fields indices numSlots row.val == p) =
          ((fun record => route runtime under columnNames numSlots record == p) ∘ (recordOf table.fields ∘ Subtype.val)) row := by
      intro row inside
      have member : row.val ∈ table.rows := by
        rw [← runtime.batches_flatten table]
        exact List.mem_map_of_mem inside
      rw [RecordBatchShuffler.partitionId,same row.val member]
      rfl
    rw [List.filter_congr routes]
    apply List.map_congr_left
    intro row _
    exact recordOf_appendRow runtime row

end

/-- What a consumer is sent, in order. -/
def sentTo (consumer : String) (acts : List (Act (TupleSet ν))) : List (Record ν) :=
  acts.flatMap fun act =>
    match act with
    | .send recipientId tupleSet => if recipientId = consumer then records tupleSet else []
    | _ => []

def held (buffered : Option (TupleSet ν)) : List (Record ν) := (buffered.map records).getD []

theorem sentTo_append (consumer : String) (acts more : List (Act (TupleSet ν))) :
    sentTo consumer (acts ++ more) = sentTo consumer acts ++ sentTo consumer more :=
  List.flatMap_append

def Fits (fields : List Field) (buffered : Option (TupleSet ν)) : Prop :=
  ∀ tupleSet, buffered = some tupleSet → ∃ table, tupleSet = some table ∧ SameColumns fields table.fields

theorem sentTo_other {consumer other : String} (differ : other ≠ consumer) {acts : List (Act (TupleSet ν))}
    (only : ∀ act ∈ acts, ∃ tupleSet, act = .send other tupleSet) : sentTo consumer acts = [] := by
  apply List.flatMap_eq_nil_iff.mpr
  intro act inside
  obtain ⟨tupleSet,rfl⟩ := only act inside
  exact if_neg differ

/-- Tuple sets through the buffers: what is sent and then held is what was held before
and what came. -/
inductive Moves (fields : List Field) : List String → List (Option (TupleSet ν)) → List (TupleSet ν) →
    List (Act (TupleSet ν)) → List (Option (TupleSet ν)) → Prop
  | nil : Moves fields [] [] [] [] []
  | cons (consumer : String) (before after : Option (TupleSet ν)) (tupleSet : TupleSet ν)
    (sent : List (Act (TupleSet ν)))
      {consumers : List String} {befores afters : List (Option (TupleSet ν))} {tupleSets : List (TupleSet ν)}
      {sends : List (Act (TupleSet ν))} (only : ∀ act ∈ sent, ∃ tupleSet, act = .send consumer tupleSet)
      (flow : sentTo consumer sent ++ held after = held before ++ records tupleSet) (fits : Fits fields after)
      (rest : Moves fields consumers befores tupleSets sends afters) :
      Moves fields (consumer::consumers) (before::befores) (tupleSet::tupleSets) (sent ++ sends) (after::afters)

section
variable {fields : List Field} {consumers : List String} {befores afters : List (Option (TupleSet ν))}
  {tupleSets : List (TupleSet ν)} {sends : List (Act (TupleSet ν))}

theorem Moves.only (moves : Moves fields consumers befores tupleSets sends afters) :
    ∀ act ∈ sends, ∃ consumer tupleSet, consumer ∈ consumers ∧ act = .send consumer tupleSet := by
  induction moves with
  | nil => exact fun _ inside => absurd inside List.not_mem_nil
  | cons consumer before after tupleSet sent only flow fits rest ih =>
    intro act inside
    obtain here | later := List.mem_append.mp inside
    · obtain ⟨tupleSet,same⟩ := only act here
      exact ⟨consumer,tupleSet,List.mem_cons_self,same⟩
    · obtain ⟨other,tupleSet,member,same⟩ := ih act later
      exact ⟨other,tupleSet,List.mem_cons_of_mem _ member,same⟩

theorem Moves.others (moves : Moves fields consumers befores tupleSets sends afters) {consumer : String}
    (missing : consumer ∉ consumers) : sentTo consumer sends = [] := by
  apply List.flatMap_eq_nil_iff.mpr
  intro act inside
  obtain ⟨other,tupleSet,member,rfl⟩ := moves.only act inside
  have differ : other ≠ consumer := by
    rintro rfl
    exact missing member
  exact if_neg differ

theorem Moves.fits (moves : Moves fields consumers befores tupleSets sends afters) :
    afters.length = consumers.length ∧ ∀ after ∈ afters, Fits fields after := by
  induction moves with
  | nil => exact ⟨rfl,fun _ inside => absurd inside List.not_mem_nil⟩
  | cons consumer before after tupleSet sent only flow fits rest ih =>
    exact ⟨by rw [List.length_cons,List.length_cons,ih.1],List.forall_mem_cons.mpr ⟨fits,ih.2⟩⟩

theorem Moves.flow (moves : Moves fields consumers befores tupleSets sends afters) (distinct : consumers.Nodup)
    {p : Nat} {consumer : String} {before after : Option (TupleSet ν)} {tupleSet : TupleSet ν}
    (here : consumers[p]? = some consumer)
    (was : befores[p]? = some before) (came : tupleSets[p]? = some tupleSet) (now : afters[p]? = some after) :
    sentTo consumer sends ++ held after = held before ++ records tupleSet := by
  induction moves generalizing p with
  | nil => cases here
  | cons first firstBefore firstAfter firstTupleSet sent only flow fits rest ih =>
    rw [List.nodup_cons] at distinct
    rw [sentTo_append]
    cases p with
    | zero =>
      cases here
      cases was
      cases came
      cases now
      rw [rest.others distinct.1,List.append_nil]
      exact flow
    | succ p =>
      have differ : first ≠ consumer := by
        intro same
        exact distinct.1 (same ▸ List.mem_of_getElem? here)
      rw [sentTo_other differ only,List.nil_append]
      exact ih distinct.2 here was came now

end

theorem buffer_fits {fields : List Field} {before : Option (TupleSet ν)} (fits : Fits fields before) {table : Table ν}
    (same : SameColumns fields table.fields) :
    ∃ joined, ShufflePOp.buffer before (some table) = .ok (some joined) ∧ SameColumns fields joined.fields ∧
      joined.records = held before ++ table.records := by
  cases before with
  | none => exact ⟨table,rfl,same,rfl⟩
  | some tupleSet =>
    obtain ⟨buffered,rfl,columns⟩ := fits tupleSet rfl
    obtain ⟨joined,done,schema,whole⟩ := concatenate_same (columns.symm.trans same)
    refine ⟨joined,?_,?_,whole⟩
    · rw [ShufflePOp.buffer,done]
    · rw [schema]
      exact columns

theorem send_connected (ctx : POpContext α (TupleSet ν)) {consumer : String}
    (connected : (ctx.operatorMap.entryOf consumer).isSome) (tupleSet : TupleSet ν) :
    ctx.send tupleSet consumer = ctx.record [.send consumer tupleSet] := by
  obtain ⟨entry,found⟩ := Option.isSome_iff_exists.mp connected
  rw [POpContext.send,found]

theorem sentTo_self (consumer : String) (tupleSet : TupleSet ν) :
    sentTo consumer [.send consumer tupleSet] = records tupleSet := by
  simp [sentTo]

theorem send_moves {fields : List Field} (ctx : POpContext α (TupleSet ν)) {consumer : String}
    (connected : (ctx.operatorMap.entryOf consumer).isSome) {before : Option (TupleSet ν)} (fits : Fits fields before)
    (force : Bool) :
    ∃ sent after, ShufflePOp.send ctx consumer before force = (ctx.record sent,after) ∧
      (∀ act ∈ sent, ∃ tupleSet, act = .send consumer tupleSet) ∧ sentTo consumer sent ++ held after = held before ∧
        Fits fields after ∧ (force = true → after = none) := by
  cases before with
  | none => exact ⟨[],none,by rw [POpContext.record_nil]; rfl,fun _ inside => absurd inside List.not_mem_nil,rfl,fits,
    fun _ => rfl⟩
  | some tupleSet =>
    rw [ShufflePOp.send]
    split
    next =>
      refine ⟨[.send consumer tupleSet],none,by rw [send_connected ctx connected],?_,?_,?_,fun _ => rfl⟩
      · intro act inside
        exact ⟨tupleSet,List.mem_singleton.mp inside⟩
      · rw [sentTo_self]
        exact List.append_nil _
      · intro other wrong
        cases wrong
    next keep =>
      refine ⟨[],some tupleSet,by rw [POpContext.record_nil],fun _ inside => absurd inside List.not_mem_nil,rfl,fits,?_⟩
      intro forced
      exact absurd (by rw [forced]; rfl) keep

theorem distribute_moves {fields : List Field} (ctx : POpContext α (TupleSet ν)) {consumers : List String}
    (connected : ∀ consumer ∈ consumers, (ctx.operatorMap.entryOf consumer).isSome)
    {befores : List (Option (TupleSet ν))}
    {tables : List (Table ν)} (size : befores.length = consumers.length) (width : tables.length = consumers.length)
    (fits : ∀ before ∈ befores, Fits fields before) (same : ∀ table ∈ tables, SameColumns fields table.fields) :
    ∃ sends afters, ShufflePOp.distribute ctx consumers befores (tables.map some) = (ctx.record sends,afters,none) ∧
      Moves fields consumers befores (tables.map some) sends afters := by
  induction consumers generalizing befores tables ctx with
  | nil =>
    rw [List.length_nil,List.length_eq_zero_iff] at size width
    subst size width
    exact ⟨[],[],by rw [POpContext.record_nil]; rfl,.nil⟩
  | cons consumer consumers ih =>
    obtain ⟨before,befores,rfl⟩ := List.exists_cons_of_length_eq_add_one size
    obtain ⟨table,tables,rfl⟩ := List.exists_cons_of_length_eq_add_one width
    rw [List.forall_mem_cons] at connected fits same
    obtain ⟨joined,buffered,columns,whole⟩ := buffer_fits fits.1 same.1
    have next : Fits fields (some (some joined)) := fun tupleSet found => ⟨joined,(Option.some.inj found).symm,columns⟩
    obtain ⟨sent,after,moved,only,flow,still,_⟩ := send_moves ctx connected.1 next false
    obtain ⟨sends,afters,rest,moves⟩ := ih (ctx.record sent) connected.2 (Nat.succ.inj size)
      (Nat.succ.inj width) fits.2 same.2
    refine ⟨sent ++ sends,after::afters,?_,.cons consumer before after (some table) sent only ?_ still moves⟩
    · rw [List.map_cons,ShufflePOp.distribute,buffered]
      dsimp only
      rw [moved]
      dsimp only
      rw [rest,POpContext.record_record]
    · exact flow.trans whole

theorem flush_moves {fields : List Field} (ctx : POpContext α (TupleSet ν)) {consumers : List String}
    (connected : ∀ consumer ∈ consumers, (ctx.operatorMap.entryOf consumer).isSome)
    {befores : List (Option (TupleSet ν))}
    (size : befores.length = consumers.length) (fits : ∀ before ∈ befores, Fits fields before) :
    ∃ sends, ShufflePOp.flush ctx consumers befores = ctx.record sends ∧
      Moves fields consumers befores (consumers.map fun _ => none) sends (consumers.map fun _ => none) := by
  induction consumers generalizing befores ctx with
  | nil =>
    rw [List.length_nil,List.length_eq_zero_iff] at size
    subst size
    exact ⟨[],by rw [POpContext.record_nil]; rfl,.nil⟩
  | cons consumer consumers ih =>
    obtain ⟨before,befores,rfl⟩ := List.exists_cons_of_length_eq_add_one size
    rw [List.forall_mem_cons] at connected fits
    obtain ⟨sent,after,moved,only,flow,still,gone⟩ := send_moves ctx connected.1 fits.1 true
    obtain rfl := gone rfl
    obtain ⟨sends,rest,moves⟩ := ih (ctx.record sent) connected.2 (Nat.succ.inj size) fits.2
    refine ⟨sent ++ sends,?_,.cons consumer before none none sent only ?_ still moves⟩
    · rw [ShufflePOp.flush,moved]
      dsimp only
      rw [rest,POpContext.record_record]
    · rw [flow]
      exact (List.append_nil _).symm

/-- The records of some messages. -/
def received (messages : List (Waiting (TupleSet ν))) : List (Record ν) :=
  messages.flatMap fun message =>
    match message with
    | .content _ tupleSet => records tupleSet
    | .complete _ => []

theorem received_content (messages : List (Waiting (TupleSet ν))) (sender : String) (tupleSet : TupleSet ν) :
    received (messages ++ [.content sender tupleSet]) = received messages ++ records tupleSet := by
  simp [received]

theorem received_complete (messages : List (Waiting (TupleSet ν))) (sender : String) :
    received (messages ++ [.complete sender]) = received messages := by
  simp [received]

/-- A shuffle after START whose consumers are connected and whose producers are awaited. -/
structure Started (isProducer : String → Prop) (process : Process (ShufflePOp ν) α (TupleSet ν)) : Prop where
  alive : process.fault = none
  buffers : process.operator.buffers = List.replicate process.operator.consumerVec.length none
  incomplete : process.ctx.complete = false
  silent : process.ctx.acts = []
  distinct : process.operator.consumerVec.Nodup
  connected : ∀ consumer ∈ process.operator.consumerVec, (process.ctx.operatorMap.entryOf consumer).isSome
  produces : ∃ name, isProducer name
  awaiting : process.ctx.operatorMap.Awaiting isProducer

section
variable (runtime : Runtime ν) (under : DataType → ν) (isProducer : String → Prop) (fields : List Field)

/-- What a shuffle has sent and still holds after some messages. -/
structure Shuffled (op : ShufflePOp ν) (messages : List (Waiting (TupleSet ν)))
    (process : Process (ShufflePOp ν) α (TupleSet ν)) (sends : List (Act (TupleSet ν))) : Prop where
  alive : process.fault = none
  only : ∀ act ∈ sends, ∃ consumer tupleSet, consumer ∈ op.consumerVec ∧ act = .send consumer tupleSet
  running : ¬Finished isProducer messages → process.ctx.acts = sends ∧
    process.operator.shuffleColumnNames = op.shuffleColumnNames ∧ process.operator.consumerVec = op.consumerVec ∧
      process.operator.buffers.length = op.consumerVec.length ∧
        (∀ before ∈ process.operator.buffers, Fits fields before) ∧
        ∀ p consumer before, op.consumerVec[p]? = some consumer → process.operator.buffers[p]? = some before →
          sentTo consumer sends ++ held before = (received messages).filter fun record =>
            route runtime under op.shuffleColumnNames op.consumerVec.length record == p
  finished : Finished isProducer messages → process.ctx.acts = sends ++ [.notifyComplete] ∧
    ∀ p consumer, op.consumerVec[p]? = some consumer →
      sentTo consumer sends = (received messages).filter fun record =>
        route runtime under op.shuffleColumnNames op.consumerVec.length record == p
  complete : process.ctx.complete = true ↔ Finished isProducer messages
  connected : ∀ consumer ∈ op.consumerVec, (process.ctx.operatorMap.entryOf consumer).isSome
  expecting : Expecting isProducer messages process.ctx.operatorMap

end

section
variable {runtime : Runtime ν} {under : DataType → ν} {isProducer : String → Prop} {fields : List Field}
  {op : ShufflePOp ν} {messages : List (Waiting (TupleSet ν))} {process : Process (ShufflePOp ν) α (TupleSet ν)}
  {sends : List (Act (TupleSet ν))} {sender : String}

theorem onTuple_distributes (runtime : Runtime ν) (op : ShufflePOp ν) (ctx : POpContext α (TupleSet ν))
    {tupleSet : TupleSet ν} (acceptable : Acceptable under op.shuffleColumnNames fields tupleSet) :
    ∃ shuffled : Nat → Table ν, op.onTuple runtime ctx tupleSet =
        ⟨{op with buffers := (ShufflePOp.distribute ctx op.consumerVec op.buffers
            (((List.range op.consumerVec.length).map shuffled).map some)).2.1},
          (ShufflePOp.distribute ctx op.consumerVec op.buffers
            (((List.range op.consumerVec.length).map shuffled).map some)).1,
          (ShufflePOp.distribute ctx op.consumerVec op.buffers
            (((List.range op.consumerVec.length).map shuffled).map some)).2.2⟩ ∧
      ∀ p, SameColumns fields (shuffled p).fields ∧ (shuffled p).records = (records tupleSet).filter fun record =>
        route runtime under op.shuffleColumnNames op.consumerVec.length record == p := by
  obtain ⟨table,rfl,same,routable⟩ := acceptable
  by_cases blank : table.rows = []
  · refine ⟨fun _ => table,?_,?_⟩
    · have copies : (List.range op.consumerVec.length).map (fun _ => table) =
          List.replicate op.consumerVec.length table := by
        simp
      rw [copies,List.map_replicate,ShufflePOp.onTuple]
      dsimp only
      rw [if_pos (by rw [Table.numRows,blank]; rfl)]
    · intro p
      refine ⟨same,?_⟩
      rw [records,Option.map_some,Option.getD_some,Table.records,blank]
      rfl
  · obtain ⟨shuffled,done,routes⟩ := shuffle_routes runtime (routable.resolve_left blank) op.consumerVec.length
    refine ⟨shuffled,?_,?_⟩
    · rw [ShufflePOp.onTuple]
      dsimp only
      rw [if_neg (by simpa [Table.numRows] using blank),done]
    · intro p
      rw [(routes p).1]
      exact ⟨same,(routes p).2⟩

theorem Shuffled.content (shuffled : Shuffled runtime under isProducer fields op messages process sends)
    (distinct : op.consumerVec.Nodup) (known : isProducer sender) (missing : .complete sender ∉ messages)
    {tupleSet : TupleSet ν} (acceptable : Acceptable under op.shuffleColumnNames fields tupleSet) :
    ∃ sends, Shuffled runtime under isProducer fields op (messages ++ [.content sender tupleSet])
      (process.receive (ShufflePOp.onReceive runtime) (.content sender tupleSet)) sends := by
  have unfinished := Finished.not_of_missing known missing
  obtain ⟨logged,names,consumers,size,fits,flows⟩ := shuffled.running unfinished
  rw [← names] at acceptable
  obtain ⟨tables,taken,routes⟩ := onTuple_distributes runtime process.operator process.ctx acceptable
  rw [consumers] at taken routes
  have same : ∀ table ∈ (List.range op.consumerVec.length).map tables, SameColumns fields table.fields := by
    intro table inside
    obtain ⟨p,_,rfl⟩ := List.mem_map.mp inside
    exact (routes p).1
  obtain ⟨more,afters,distributed,moves⟩ := distribute_moves process.ctx shuffled.connected size (by simp) fits same
  rw [distributed] at taken
  rw [Process.receive_content shuffled.alive,ShufflePOp.onReceive,taken]
  refine ⟨sends ++ more,rfl,?_,?_,?_,?_,shuffled.connected,?_⟩
  · intro act inside
    obtain earlier | later := List.mem_append.mp inside
    · exact shuffled.only act earlier
    · exact moves.only act later
  · intro _
    refine ⟨?_,names,rfl,moves.fits.1,moves.fits.2,?_⟩
    · rw [POpContext.record_acts,logged]
    · intro p consumer after here now
      have bound : p < op.consumerVec.length := (List.getElem?_eq_some_iff.mp here).1
      have was := List.getElem?_eq_getElem (show p < process.operator.buffers.length from size.symm ▸ bound)
      have came : (((List.range op.consumerVec.length).map tables).map some)[p]? = some (some (tables p)) := by
        simp [bound]
      have flow := moves.flow distinct here was came now
      rw [sentTo_append,List.append_assoc,flow,← List.append_assoc,flows p consumer _ here was,received_content,
        List.filter_append,← names]
      exact congrArg _ (routes p).2
  · intro finished
    exact absurd ((finished_append_content _ _).mp finished) unfinished
  · rw [POpContext.record_complete,shuffled.complete,finished_append_content]
  · exact shuffled.expecting.content _ _

theorem Shuffled.complete_one (shuffled : Shuffled runtime under isProducer fields op messages process sends)
    (distinct : op.consumerVec.Nodup) (known : isProducer sender) (missing : .complete sender ∉ messages) :
    ∃ sends, Shuffled runtime under isProducer fields op (messages ++ [.complete sender])
      (process.receive (ShufflePOp.onReceive runtime) (.complete sender)) sends := by
  have unfinished := Finished.not_of_missing known missing
  obtain ⟨logged,names,consumers,size,fits,flows⟩ := shuffled.running unfinished
  have incomplete : process.ctx.complete = false := by
    rw [← Bool.not_eq_true,shuffled.complete]
    exact unfinished
  obtain ⟨taken,expecting,all⟩ := shuffled.expecting.complete known missing
  have connected : ∀ consumer ∈ op.consumerVec,
      ((process.ctx.operatorMap.setComplete sender).1.entryOf consumer).isSome := fun consumer inside =>
    LocalPOpDirectory.connected_setComplete (shuffled.connected consumer inside) sender
  rw [Process.receive_complete shuffled.alive taken,ShufflePOp.onReceive,ShufflePOp.onComplete]
  by_cases finished : Finished isProducer (messages ++ [.complete sender])
  · obtain ⟨more,flushed,moves⟩ := flush_moves
      {process.ctx with operatorMap := (process.ctx.operatorMap.setComplete sender).1} connected size fits
    rw [if_pos (by simp [incomplete,all.mpr finished]),consumers,flushed,
      POpContext.notifyComplete_incomplete _ (by exact incomplete)]
    refine ⟨sends ++ more,rfl,?_,fun other => absurd finished other,?_,⟨fun _ => finished,fun _ => rfl⟩,connected,
      expecting⟩
    · intro act inside
      obtain earlier | later := List.mem_append.mp inside
      · exact shuffled.only act earlier
      · exact moves.only act later
    · intro _
      refine ⟨?_,?_⟩
      · rw [← logged]
        rfl
      · intro p consumer here
        have bound : p < op.consumerVec.length := (List.getElem?_eq_some_iff.mp here).1
        have was := List.getElem?_eq_getElem (show p < process.operator.buffers.length from size.symm ▸ bound)
        have nothing : (op.consumerVec.map fun _ => (none : Option (Table ν)))[p]? = some none := by simp [bound]
        have gone : (op.consumerVec.map fun _ => (none : Option (TupleSet ν)))[p]? = some none := by simp [bound]
        have flow := moves.flow distinct here was nothing gone
        rw [received_complete,← flows p consumer _ here was,sentTo_append]
        exact congrArg _ ((List.append_nil _).symm.trans (flow.trans (List.append_nil _)))
  · rw [if_neg (by simp [incomplete,all,finished])]
    refine ⟨sends,rfl,shuffled.only,?_,fun other => absurd other finished,?_,connected,expecting⟩
    · intro _
      rw [received_complete]
      exact ⟨logged,names,consumers,size,fits,flows⟩
    · dsimp only
      rw [incomplete]
      exact ⟨fun wrong => absurd wrong Bool.false_ne_true,fun wrong => absurd wrong finished⟩

end

/-- In every run of a shuffle on acceptable tuple sets nothing faults and no error is
notified. What a consumer was sent and its buffer holds is what was received and has the
consumer's number as its route, in order; at the end nothing is held, and the consumers
together were sent what was received. A route depends on the key and the number of
consumers only, also across shuffles. -/
theorem shuffle_conserves (runtime : Runtime ν) (under : DataType → ν) (isProducer : String → Prop)
    (fields : List Field) (started : Process (ShufflePOp ν) α (TupleSet ν)) (fresh : Started isProducer started)
    (messages : List (Waiting (TupleSet ν))) (produced : FromProducers isProducer messages)
    (acceptable : ∀ sender tupleSet, .content sender tupleSet ∈ messages →
      Acceptable under started.operator.shuffleColumnNames fields tupleSet) :
    (∃ sends, Shuffled runtime under isProducer fields started.operator messages
        (started.run (ShufflePOp.onReceive runtime) messages) sends ∧
      (Finished isProducer messages → started.operator.consumerVec ≠ [] →
        (started.operator.consumerVec.flatMap fun consumer => sentTo consumer sends).Perm (received messages))) ∧
      ∀ columnNames columnNames' numSlots (record record' : Record ν),
        keyOf columnNames record = keyOf columnNames' record' →
          route runtime under columnNames numSlots record = route runtime under columnNames' numSlots record' := by
  refine ⟨?_,?_⟩
  · suffices whole : ∃ sends, Shuffled runtime under isProducer fields started.operator messages
        (started.run (ShufflePOp.onReceive runtime) messages) sends by
      obtain ⟨sends,shuffled⟩ := whole
      refine ⟨sends,shuffled,?_⟩
      intro finished some
      have parts : started.operator.consumerVec.map (fun consumer => sentTo consumer sends) =
          (List.range started.operator.consumerVec.length).map fun p => (received messages).filter fun record =>
            route runtime under started.operator.shuffleColumnNames started.operator.consumerVec.length record == p := by
        apply List.ext_getElem
        · rw [List.length_map,List.length_map,List.length_range]
        · intro p bound _
          rw [List.getElem_map,List.getElem_map,List.getElem_range]
          exact (shuffled.finished finished).2 p _ (List.getElem?_eq_getElem _)
      have all : (received messages).filter (fun record => decide (route runtime under
          started.operator.shuffleColumnNames started.operator.consumerVec.length record <
            started.operator.consumerVec.length)) = received messages := by
        apply List.filter_eq_self.mpr
        intro record _
        exact decide_eq_true (Nat.mod_lt _ (List.length_pos_iff.mpr some))
      rw [List.flatMap_def,parts,← List.flatMap_def]
      have whole := parts_perm (route runtime under started.operator.shuffleColumnNames started.operator.consumerVec.length)
        started.operator.consumerVec.length (received messages)
      rw [all] at whole
      exact whole
    induction messages using List.reverseRecOn with
    | nil =>
      obtain ⟨name,produces⟩ := fresh.produces
      have unfinished : ¬Finished isProducer ([] : List (Waiting (TupleSet ν))) :=
        Finished.not_of_missing produces List.not_mem_nil
      refine ⟨[],fresh.alive,fun _ inside => absurd inside List.not_mem_nil,?_,
        fun finished => absurd finished unfinished,
        ?_,fresh.connected,?_⟩
      · intro _
        refine ⟨fresh.silent,rfl,rfl,?_,?_,?_⟩
        · change started.operator.buffers.length = _
          rw [fresh.buffers,List.length_replicate]
        · intro before inside tupleSet found
          change before ∈ started.operator.buffers at inside
          rw [fresh.buffers] at inside
          rw [List.eq_of_mem_replicate inside] at found
          cases found
        · intro p consumer before _ was
          change started.operator.buffers[p]? = some before at was
          rw [fresh.buffers] at was
          rw [List.eq_of_mem_replicate (List.mem_of_getElem? was)]
          rfl
      · change started.ctx.complete = true ↔ _
        rw [fresh.incomplete]
        exact ⟨fun wrong => absurd wrong Bool.false_ne_true,fun wrong => absurd wrong unfinished⟩
      · exact expecting_nil fresh.awaiting
    | append_singleton messages message ih =>
      obtain ⟨before,known,missing⟩ := produced.init
      obtain ⟨sends,shuffled⟩ := ih before fun sender tupleSet inside =>
        acceptable sender tupleSet (List.mem_append_left _ inside)
      rw [Process.run_snoc]
      cases message with
      | content sender tupleSet =>
        exact shuffled.content fresh.distinct known missing
          (acceptable sender tupleSet (List.mem_append_right _ List.mem_cons_self))
      | complete sender => exact shuffled.complete_one fresh.distinct known missing
  · intro columnNames columnNames' numSlots record record' same
    rw [route,route,same]

/-- Integers that are their own hash, tables of one batch. -/
def intRuntime : Runtime Int where
  hash _ value := UInt64.ofNat value.toNat
  blank _ := 0
  batches table := [table.rows.attach.map fun row => ⟨row.1,table.shaped row.1 row.2⟩]
  batches_flatten table := by simp

/-- A shuffle on the column `a` between two consumers, after START. -/
def shuffleStarted : Process (ShufflePOp Int) Unit (TupleSet Int) where
  operator := ⟨["a"],["join0","join1"],[none,none]⟩
  ctx := ⟨1,"shuffle",(((LocalPOpDirectory.make.insert ⟨"scan",(),.producer,false⟩).1.insert
    ⟨"join0",(),.consumer,false⟩).1.insert ⟨"join1",(),.consumer,false⟩).1,false,[]⟩
  fault := none

theorem shuffleStarted_started : Started (· = "scan") shuffleStarted where
  alive := rfl
  buffers := rfl
  incomplete := rfl
  silent := rfl
  distinct := by decide
  connected := by decide
  produces := ⟨"scan",rfl⟩
  awaiting := by
    have connected := (((LocalPOpDirectory.awaiting_make (α := Unit)).insert "scan" rfl ()).insert_consumer "join0" rfl
      ()).insert_consumer "join1" rfl ()
    simp only [or_false] at connected
    exact connected

/-- Rows in two messages, a flush at the end. -/
theorem integers_shuffled : ∃ sends, Shuffled intRuntime (fun _ => 0) (· = "scan")
    [⟨"a",.int64⟩] shuffleStarted.operator
      [.content "scan" (some (column "a" [1,2,3])),.content "scan" (some (column "a" [4])),.complete "scan"]
      (shuffleStarted.run (ShufflePOp.onReceive intRuntime)
        [.content "scan" (some (column "a" [1,2,3])),.content "scan" (some (column "a" [4])),
          .complete "scan"]) sends := by
  have conserved := shuffle_conserves intRuntime (fun _ => 0) (· = "scan") [⟨"a",.int64⟩] shuffleStarted
    shuffleStarted_started [.content "scan" (some (column "a" [1,2,3])),.content "scan" (some (column "a" [4])),
      .complete "scan"] ⟨by simp [Waiting.sender],by simp [Waiting.sender]⟩ (by
    have all : ∀ values : List Int, Acceptable (fun _ => 0) ["a"] [⟨"a",.int64⟩] (some (column "a" values)) := by
      intro values
      refine ⟨_,rfl,.inl rfl,.inr ⟨?_,by simp [column,appendable],by simp [column]⟩⟩
      intro columnName asked
      refine ⟨0,⟨"a",.int64⟩,?_,rfl,rfl,?_⟩
      · rw [List.mem_singleton.mp asked]
        exact (by decide : getFieldIndex [⟨"a",.int64⟩] (canonicalize "a") = some 0)
      · intro row inside slot here null
        obtain ⟨value,_,rfl⟩ := List.mem_map.mp inside
        rw [← Option.some.inj here] at null
        cases null
    intro sender tupleSet inside
    simp only [List.mem_cons,List.not_mem_nil,or_false,Waiting.content.injEq,reduceCtorEq] at inside
    obtain ⟨_,rfl⟩ | ⟨_,rfl⟩ := inside
    · exact all _
    · exact all _)
  obtain ⟨⟨sends,shuffled,_⟩,_⟩ := conserved
  exact ⟨sends,shuffled⟩

/-- After a first tuple set without columns the row of the second is sent to nobody. -/
theorem row_lost_after_empty :
    (shuffleStarted.run (ShufflePOp.onReceive intRuntime)
        [.content "scan" (some .empty),.content "scan" (some (column "a" [7])),.complete "scan"]).ctx.acts =
      [.send "join0" (some .empty),.send "join1" (some .empty),.notifyComplete] ∧
    ¬(shuffleStarted.operator.consumerVec.flatMap fun consumer => sentTo consumer
        (shuffleStarted.run (ShufflePOp.onReceive intRuntime)
          [.content "scan" (some .empty),.content "scan" (some (column "a" [7])),.complete "scan"]).ctx.acts).Perm
      (received [.content "scan" (some .empty),.content "scan" (some (column "a" [7])),.complete "scan"]) := by
  have acts : (shuffleStarted.run (ShufflePOp.onReceive intRuntime)
        [.content "scan" (some .empty),.content "scan" (some (column "a" [7])),.complete "scan"]).ctx.acts =
      [.send "join0" (some .empty),.send "join1" (some .empty),.notifyComplete] := by
    decide
  refine ⟨acts,?_⟩
  rw [acts]
  intro same
  cases same.length_eq

end Hermes.Shuffle
