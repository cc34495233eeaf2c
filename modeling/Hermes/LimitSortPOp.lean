import Hermes.Library.TopK
import Hermes.POpContext
import Hermes.Table

/-! `LimitSortPOp`: after each tuple set the best rows so far are kept, and the last completion emits them. -/
namespace Hermes.LimitSort
open Tuples Operators Library.TopK
variable {α ν : Type}

inductive SortOrder where
  | ascending
  | descending
deriving DecidableEq, Repr

structure SortKey where
  name : String
  order : SortOrder

/-- What Arrow is given: how many rows, and by which columns. -/
structure SelectKOptions where
  k : Nat
  sortKeys : List SortKey

structure LimitSortPOp (ν : Type) where
  projectColumnNames : List String
  k : Nat
  sortKeys : List SortKey
  arrowSelectKOptions : Option SelectKOptions
  result : Option (TupleSet ν)

/-- `arrow::compute::Take`. -/
def take (table : Table ν) (indices : List Nat) : Except String (Table ν) :=
  match indices.find? fun index => decide (table.numRows ≤ index) with
  | some index => .error ("Index " ++ toString index ++ " out of bounds")
  | none => .ok ⟨table.fields,indices.filterMap (table.rows[·]?),by
      intro row inside
      obtain ⟨index,_,there⟩ := List.mem_filterMap.mp inside
      exact table.shaped row (List.mem_of_getElem? there)⟩

namespace LimitSortPOp

def make (projectColumnNames : List String) (k : Nat) (sortKeys : List SortKey) : LimitSortPOp ν :=
  ⟨projectColumnNames,k,sortKeys,none,none⟩

def clear (op : LimitSortPOp ν) : LimitSortPOp ν := {op with result := none}

def makeArrowSelectKOptions (op : LimitSortPOp ν) : LimitSortPOp ν :=
  match op.arrowSelectKOptions with
  | none => {op with arrowSelectKOptions := some ⟨op.k,op.sortKeys⟩}
  | some _ => op

def makeInput (op : LimitSortPOp ν) (tupleSet : TupleSet ν) : Except Failure (TupleSet ν) :=
  match op.result with
  | none => .ok tupleSet
  | some result => (concatenate [result,tupleSet]).map some

section
variable (selectKUnstable : SelectKOptions → Table ν → Except String (List Nat))

/-- Arrow crashes where there are no rows, so that they are left as they are. -/
def selectK (op : LimitSortPOp ν) : TupleSet ν → LimitSortPOp ν × Except Failure (TupleSet ν)
  | none => (op,.ok none)
  | some table =>
    if table.numRows = 0 then (op,.ok (some table))
    else
      let op := op.makeArrowSelectKOptions
      match op.arrowSelectKOptions with
      | none => (op,.error (.error "Arrow SelectKOptions not set yet"))
      | some options =>
        match selectKUnstable options table with
        | .error message => (op,.error (.error message))
        | .ok selectKIndices =>
          match take table selectKIndices with
          | .error message => (op,.error (.error message))
          | .ok selectKTable => (op,.ok (some selectKTable))

/-- An error is reported, and the value that is asked for nevertheless ends the operator. -/
def fail (op : LimitSortPOp ν) (ctx : POpContext α (Table ν)) : Failure → Process (LimitSortPOp ν) α (Table ν)
  | .error message => ⟨op,ctx.notifyError message,some .exception⟩
  | .exception => ⟨op,ctx,some .exception⟩

def onTuple (op : LimitSortPOp ν) (ctx : POpContext α (Table ν)) :
    Option (TupleSet ν) → Process (LimitSortPOp ν) α (Table ν)
  | none => ⟨op,ctx,some .nullDereference⟩
  | some tupleSet =>
    match op.makeInput tupleSet with
    | .error failure => op.fail ctx failure
    | .ok inputTupleSet =>
      match op.selectK selectKUnstable inputTupleSet with
      | (op,.error failure) => op.fail ctx failure
      | (op,.ok result) => ⟨{op with result := some result},ctx,none⟩

def onComplete (op : LimitSortPOp ν) (ctx : POpContext α (Table ν)) : Process (LimitSortPOp ν) α (Table ν) :=
  if !ctx.complete && ctx.operatorMap.allComplete .producer then
    match op.result with
    | none => op.fail ctx (.error "Result not produced yet")
    | some none => ⟨op,ctx,some .nullDereference⟩
    | some (some result) =>
      match result.projectExist op.projectColumnNames with
      | .error message => op.fail ctx (.error message)
      | .ok projectTupleSet => ⟨op.clear,(ctx.tell projectTupleSet).notifyComplete,none⟩
  else ⟨op,ctx,none⟩

def onReceive (op : LimitSortPOp ν) (ctx : POpContext α (Table ν)) :
    Waiting (Option (TupleSet ν)) → Process (LimitSortPOp ν) α (Table ν)
  | .content _ message => op.onTuple selectKUnstable ctx message
  | .complete _ => op.onComplete ctx

end
end LimitSortPOp

/-- The order of rows by one column; values that are missing come last in both directions. -/
def keyOrder (values : DataType → Preference ν) (fields : List Field) (key : SortKey) : Preference (List (Slot ν)) :=
  match (getFieldIndex fields key.name).bind fun c => fields[c]?.map fun field => (c,field.type) with
  | none => .trivial
  | some (c,type) =>
    let order := match key.order with
      | .ascending => values type
      | .descending => (values type).reverse
    order.noneLast.on fun row => row[c]?.bind Slot.value

def rowOrder (values : DataType → Preference ν) (fields : List Field) (sortKeys : List SortKey) :
    Preference (List (Slot ν)) :=
  .lexicographic (sortKeys.map (keyOrder values fields))

/-- Arrow finds the places of the best rows, in order. -/
def SelectsBest (selectKUnstable : SelectKOptions → Table ν → Except String (List Nat))
    (values : DataType → Preference ν) (fields : List Field) (options : SelectKOptions) : Prop :=
  ∀ table : Table ν, table.fields = fields → table.rows ≠ [] →
    ∃ indices, selectKUnstable options table = .ok indices ∧ (∀ index ∈ indices, index < table.numRows) ∧
      Best (rowOrder values fields options.sortKeys) options.k table.rows (indices.filterMap (table.rows[·]?))

/-- The tables among the messages. -/
def tables (messages : List (Waiting (Option (TupleSet ν)))) : List (Table ν) :=
  messages.filterMap fun message =>
    match message with
    | .content _ tupleSet => tupleSet.join
    | .complete _ => none

def received (messages : List (Waiting (Option (TupleSet ν)))) :
    List (List (Slot ν)) := (tables messages).flatMap Table.rows

/-- A relation that is split: a part has its columns, or it is empty and has none. -/
def PartsOf (fields : List Field) (messages : List (Waiting (Option (TupleSet ν)))) : Prop :=
  ∀ table ∈ tables messages, table.fields = fields ∨ table.fields = [] ∧ table.rows = []

def Whole (fields : List Field) (messages : List (Waiting (Option (TupleSet ν)))) : Prop :=
  ∀ sender message, .content sender message ∈ messages → ∃ table : Table ν, message = some (some table) ∧
    table.fields = fields

section Selection
variable {selectKUnstable : SelectKOptions → Table ν → Except String (List Nat)} {values : DataType → Preference ν}
  {fields : List Field} {options : SelectKOptions} {op : LimitSortPOp ν}

theorem concatenate_pair {first second : Table ν} (same : second.fields = first.fields) :
    ∃ joined, concatenate [some first,some second] = .ok joined ∧ joined.fields = first.fields ∧
      joined.rows = first.rows ++ second.rows := by
  have kept : second.reorder first.fields = .ok second := if_pos same
  have alike : ∀ table ∈ [second], table.fields = first.fields := by
    intro table inside
    rw [List.mem_singleton.mp inside]
    exact same
  have both : concatenate [some first,some second] = first.concatenateTables [second] := by
    rw [concatenate,reorderAll,kept]
    rfl
  rw [both,Table.concatenateTables,dif_pos alike]
  exact ⟨_,rfl,rfl,congrArg (first.rows ++ ·) (List.flatMap_singleton ..)⟩

theorem take_eq {table : Table ν} {indices : List Nat} (inside : ∀ index ∈ indices, index < table.numRows) :
    ∃ taken, take table indices = .ok taken ∧ taken.fields = table.fields ∧
      taken.rows = indices.filterMap (table.rows[·]?) := by
  have none : (indices.find? fun index => decide (table.numRows ≤ index)) = none := by
    rw [List.find?_eq_none]
    intro index member
    rw [decide_eq_true_eq]
    exact Nat.not_le.mpr (inside index member)
  unfold take
  split
  next index found =>
    rw [none] at found
    cases found
  next => exact ⟨_,rfl,rfl,rfl⟩

/-- The operator asks Arrow for the rows it was made for. -/
structure Asks (op : LimitSortPOp ν) (options : SelectKOptions) : Prop where
  k : op.k = options.k
  sortKeys : op.sortKeys = options.sortKeys
  kept : op.arrowSelectKOptions = none ∨ op.arrowSelectKOptions = some options

theorem Asks.make (asks : Asks op options) :
    op.makeArrowSelectKOptions = {op with arrowSelectKOptions := some options} := by
  obtain ⟨k,sortKeys,none | some⟩ := asks
  · rw [LimitSortPOp.makeArrowSelectKOptions,none,k,sortKeys]
  · rw [LimitSortPOp.makeArrowSelectKOptions,some]
    exact congrArg (fun kept => {op with arrowSelectKOptions := kept}) some

theorem selectK_best (selects : SelectsBest selectKUnstable values fields options) (asks : Asks op options)
    {table : Table ν} (same : table.fields = fields) : ∃ (kept : Option SelectKOptions) (result : Table ν),
      op.selectK selectKUnstable (some table) = ({op with arrowSelectKOptions := kept},.ok (some result)) ∧
      (kept = none ∨ kept = some options) ∧ result.fields = fields ∧
      Best (rowOrder values fields options.sortKeys) options.k table.rows result.rows := by
  rw [LimitSortPOp.selectK]
  by_cases empty : table.numRows = 0
  · have none : table.rows = [] := List.eq_nil_of_length_eq_zero empty
    rw [if_pos empty]
    refine ⟨op.arrowSelectKOptions,table,rfl,asks.kept,same,?_⟩
    rw [none]
    exact best_nil _ _
  · obtain ⟨indices,selected,inside,best⟩ := selects table same fun none => empty (congrArg List.length none)
    obtain ⟨taken,took,fields',rows⟩ := take_eq inside
    rw [if_neg empty,asks.make]
    dsimp only
    rw [selected]
    dsimp only
    rw [took]
    refine ⟨some options,taken,rfl,.inr rfl,fields'.trans same,?_⟩
    rw [rows]
    exact best

end Selection

/-- The operator of a query, with its producers, before any message. -/
structure Launched (projectColumnNames : List String) (options : SelectKOptions) (isProducer : String → Prop)
    (process : Process (LimitSortPOp ν) α (Table ν)) : Prop where
  made : process.operator = .make projectColumnNames options.k options.sortKeys
  alive : process.fault = none
  incomplete : process.ctx.complete = false
  silent : process.ctx.acts = []
  awaiting : process.ctx.operatorMap.Awaiting isProducer

/-- What is kept of the tables so far. -/
def Kept (order : Preference (List (Slot ν))) (fields : List Field) (k : Nat)
    (messages : List (Waiting (Option (TupleSet ν)))) : Option (TupleSet ν) → Prop
  | none => tables messages = []
  | some none => False
  | some (some result) => tables messages ≠ [] ∧ result.fields = fields ∧ Best order k (received messages) result.rows

/-- While it runs: what is kept are the best rows so far. -/
structure Keeping (values : DataType → Preference ν) (fields : List Field) (projectColumnNames : List String)
    (options : SelectKOptions) (isProducer : String → Prop) (messages : List (Waiting (Option (TupleSet ν))))
    (process : Process (LimitSortPOp ν) α (Table ν)) : Prop where
  alive : process.fault = none
  incomplete : process.ctx.complete = false
  silent : process.ctx.acts = []
  expecting : Expecting isProducer messages process.ctx.operatorMap
  names : process.operator.projectColumnNames = projectColumnNames
  asks : Asks process.operator options
  kept : Kept (rowOrder values fields options.sortKeys) fields options.k messages process.operator.result

/-- What is emitted in the end are the best rows of all, projected. -/
def EmitsBest (order : Preference (List (Slot ν))) (fields : List Field) (k : Nat) (projectColumnNames : List String)
    (messages : List (Waiting (Option (TupleSet ν)))) (process : Process (LimitSortPOp ν) α (Table ν)) : Prop :=
  ∃ best projectTupleSet : Table ν, best.fields = fields ∧ Best order k (received messages) best.rows ∧
    best.projectExist projectColumnNames = .ok projectTupleSet ∧
    process.ctx.acts = [.tell projectTupleSet,.notifyComplete] ∧ process.fault = none

/-- There is a part, none is without its columns, and one of the columns that are asked for is among them. -/
structure Emittable (fields : List Field) (projectColumnNames : List String)
    (messages : List (Waiting (Option (TupleSet ν)))) : Prop where
  some : tables messages ≠ []
  whole : Whole fields messages
  projectable : ∃ columnName ∈ projectColumnNames, (getFieldIndex fields (canonicalize columnName)).isSome = true

/-- Nothing can be emitted any more: the operator is gone, or what it keeps has no columns. -/
def Stuck (process : Process (LimitSortPOp ν) α (Table ν)) : Prop :=
  process.fault.isSome = true ∨
    (∃ tupleSet : TupleSet ν, process.operator.result = some tupleSet ∧ tupleSet.fields = []) ∧
      ∀ table, .tell table ∉ process.ctx.acts

section Run
variable {selectKUnstable : SelectKOptions → Table ν → Except String (List Nat)} {values : DataType → Preference ν}
  {fields : List Field} {projectColumnNames : List String} {options : SelectKOptions} {isProducer : String → Prop}
  {messages : List (Waiting (Option (TupleSet ν)))} {process : Process (LimitSortPOp ν) α (Table ν)}

theorem tables_content (messages : List (Waiting (Option (TupleSet ν)))) (sender : String) (table : Table ν) :
    tables (messages ++ [.content sender (some (some table))]) = tables messages ++ [table] := List.filterMap_append

theorem tables_complete (messages : List (Waiting (Option (TupleSet ν)))) (sender : String) :
    tables (messages ++ [.complete sender]) = tables messages :=
  List.filterMap_append.trans (List.append_nil _)

theorem received_content (messages : List (Waiting (Option (TupleSet ν)))) (sender : String) (table : Table ν) :
    received (messages ++ [.content sender (some (some table))]) = received messages ++ table.rows := by
  rw [received,tables_content,List.flatMap_append,List.flatMap_singleton]
  rfl

theorem Keeping.content (selects : SelectsBest selectKUnstable values fields options)
    (keeping : Keeping values fields projectColumnNames options isProducer messages process) (sender : String)
    {table : Table ν} (same : table.fields = fields) :
    Keeping values fields projectColumnNames options isProducer (messages ++ [.content sender (some (some table))])
      (process.receive (LimitSortPOp.onReceive selectKUnstable) (.content sender (some (some table)))) := by
  have expecting := keeping.expecting
  have input : ∃ input, process.operator.makeInput (some table) = .ok (some input) ∧ input.fields = fields ∧
      ∀ out, Best (rowOrder values fields options.sortKeys) options.k input.rows out →
        Best (rowOrder values fields options.sortKeys) options.k (received messages ++ table.rows) out := by
    have kept := keeping.kept
    unfold LimitSortPOp.makeInput
    cases known : process.operator.result with
    | none =>
      rw [known] at kept
      refine ⟨table,rfl,same,?_⟩
      have nothing : received messages = [] := congrArg (List.flatMap Table.rows) kept
      rw [nothing]
      exact fun _ best => best
    | some result =>
      rw [known] at kept
      cases result with
      | none => exact kept.elim
      | some result =>
        obtain ⟨_,fields',best⟩ := kept
        obtain ⟨joined,concatenated,columns,rows⟩ := concatenate_pair (same.trans fields'.symm)
        refine ⟨joined,congrArg (Except.map some) concatenated,columns.trans fields',?_⟩
        rw [rows]
        exact fun _ next => best.append _ next
  obtain ⟨input,made,fields',best⟩ := input
  obtain ⟨kept,result,selected,known,columns,chosen⟩ := selectK_best selects keeping.asks fields'
  rw [Process.receive_content keeping.alive,LimitSortPOp.onReceive,LimitSortPOp.onTuple,made]
  dsimp only
  rw [selected]
  refine ⟨rfl,keeping.incomplete,keeping.silent,?_,keeping.names,⟨keeping.asks.k,keeping.asks.sortKeys,known⟩,?_,
    columns,?_⟩
  · exact expecting.content _ _
  · rw [tables_content]
    exact List.concat_ne_nil _ _
  · rw [received_content]
    exact best _ chosen

theorem Keeping.complete (keeping : Keeping values fields projectColumnNames options isProducer messages process)
    {sender : String} (known : isProducer sender) (missing : .complete sender ∉ messages)
    (more : ¬Finished isProducer (messages ++ [.complete sender])) :
    Keeping values fields projectColumnNames options isProducer (messages ++ [.complete sender])
      (process.receive (LimitSortPOp.onReceive selectKUnstable) (.complete sender)) := by
  obtain ⟨taken,expecting,waits⟩ := keeping.expecting.waits known missing more
  have idle : process.receive (LimitSortPOp.onReceive selectKUnstable) (.complete sender) =
      ⟨process.operator,{process.ctx with operatorMap := (process.ctx.operatorMap.setComplete sender).1},none⟩ := by
    rw [Process.receive_complete keeping.alive taken,LimitSortPOp.onReceive,LimitSortPOp.onComplete,if_neg]
    rw [waits,Bool.and_false]
    exact Bool.false_ne_true
  have kept := keeping.kept
  rw [idle]
  refine ⟨rfl,keeping.incomplete,keeping.silent,expecting,keeping.names,keeping.asks,?_⟩
  dsimp only
  unfold Kept received at kept ⊢
  rw [tables_complete]
  exact kept

theorem Launched.keeping {started : Process (LimitSortPOp ν) α (Table ν)}
    (launched : Launched projectColumnNames options isProducer started) :
    Keeping values fields projectColumnNames options isProducer [] started := by
  have awaiting := launched.awaiting
  have made := launched.made
  refine ⟨launched.alive,launched.incomplete,launched.silent,?_,?_,?_,?_⟩
  · exact expecting_nil awaiting
  · exact congrArg LimitSortPOp.projectColumnNames made
  · exact ⟨congrArg LimitSortPOp.k made,congrArg LimitSortPOp.sortKeys made,
      .inl (congrArg LimitSortPOp.arrowSelectKOptions made)⟩
  · have blank : started.operator.result = none := congrArg LimitSortPOp.result made
    rw [blank]
    rfl

end Run

section Columnless
variable {selectKUnstable : SelectKOptions → Table ν → Except String (List Nat)} {op next : LimitSortPOp ν}
  {process : Process (LimitSortPOp ν) α (Table ν)}

theorem concatenate_fields {first second : TupleSet ν} {joined : Table ν}
    (done : concatenate [first,second] = .ok joined) :
    joined.fields = first.fields := by
  cases first with
  | none => cases done
  | some table =>
    rw [concatenate] at done
    split at done
    next => cases done
    next tables _ =>
      unfold Table.concatenateTables at done
      split at done
      next =>
        rw [← Except.ok.inj done]
        rfl
      next => cases done

theorem makeInput_fields {kept tupleSet input : TupleSet ν} (known : op.result = some kept)
    (made : op.makeInput tupleSet = .ok input) : input.fields = kept.fields := by
  unfold LimitSortPOp.makeInput at made
  rw [known] at made
  dsimp only at made
  cases joined : concatenate [kept,tupleSet] with
  | error failure =>
    rw [joined] at made
    cases made
  | ok table =>
    rw [joined] at made
    rw [← Except.ok.inj made]
    exact concatenate_fields joined

theorem selectK_fields {tupleSet result : TupleSet ν}
    (selected : op.selectK selectKUnstable tupleSet = (next,.ok result)) :
    result.fields = tupleSet.fields := by
  cases tupleSet with
  | none =>
    rw [← Except.ok.inj (Prod.mk.inj selected).2]
  | some table =>
    rw [LimitSortPOp.selectK] at selected
    split at selected
    next => rw [← Except.ok.inj (Prod.mk.inj selected).2]
    next =>
      dsimp only at selected
      split at selected
      next => cases (Prod.mk.inj selected).2
      next =>
        split at selected
        next => cases (Prod.mk.inj selected).2
        next =>
          split at selected
          next => cases (Prod.mk.inj selected).2
          next taken took =>
            rw [← Except.ok.inj (Prod.mk.inj selected).2]
            unfold take at took
            split at took
            next => cases took
            next =>
              rw [← Except.ok.inj took]
              rfl

theorem fail_faults (op : LimitSortPOp ν) (ctx : POpContext α (Table ν)) (failure : Failure) :
    (op.fail ctx failure).fault.isSome = true := by
  cases failure <;> rfl

theorem Stuck.receive (stuck : Stuck process) (message : Waiting (Option (TupleSet ν))) :
    Stuck (process.receive (LimitSortPOp.onReceive selectKUnstable) message) := by
  by_cases faulted : process.fault.isSome = true
  · have still : process.receive (LimitSortPOp.onReceive selectKUnstable) message = process := if_pos faulted
    rw [still]
    exact stuck
  obtain ⟨⟨kept,known,columns⟩,silent⟩ := stuck.resolve_left faulted
  have alive : process.fault = none := Option.not_isSome_iff_eq_none.mp faulted
  cases message with
  | content sender message =>
    rw [Process.receive_content alive,LimitSortPOp.onReceive]
    cases message with
    | none => exact .inl rfl
    | some tupleSet =>
      rw [LimitSortPOp.onTuple]
      split
      next => exact .inl (fail_faults _ _ _)
      next input made =>
        split
        next => exact .inl (fail_faults _ _ _)
        next op result selected =>
          refine .inr ⟨⟨result,rfl,?_⟩,silent⟩
          rw [selectK_fields selected,makeInput_fields known made,columns]
  | complete sender =>
    rw [Process.receive,if_neg faulted]
    dsimp only
    split
    next message _ =>
      refine .inr ⟨⟨kept,known,columns⟩,fun table inside => ?_⟩
      rcases List.mem_append.mp inside with before | added
      · exact silent table before
      · cases List.mem_singleton.mp added
    next =>
      rw [LimitSortPOp.onReceive,LimitSortPOp.onComplete]
      split
      next =>
        rw [known]
        cases kept with
        | none => exact .inl rfl
        | some table =>
          dsimp only
          have nothing : table.projectExist process.operator.projectColumnNames = .error "No column exists." := by
            have missing : table.existing process.operator.projectColumnNames = [] := by
              have blank : table.fields = [] := columns
              rw [Table.existing,blank]
              exact List.filterMap_eq_nil_iff.mpr fun _ _ => rfl
            rw [Table.projectExist,if_pos (List.isEmpty_iff.mpr missing)]
          rw [nothing]
          exact .inl (fail_faults _ _ _)
      next => exact .inr ⟨⟨kept,known,columns⟩,silent⟩

theorem Stuck.not_emitsBest {order : Preference (List (Slot ν))} {fields : List Field} {k : Nat}
    {projectColumnNames : List String} {messages : List (Waiting (Option (TupleSet ν)))} (stuck : Stuck process) :
    ¬EmitsBest order fields k projectColumnNames messages process := by
  rintro ⟨_,projectTupleSet,_,_,_,acts,alive⟩
  rcases stuck with faulted | ⟨_,silent⟩
  · rw [alive] at faulted
    cases faulted
  · refine silent projectTupleSet ?_
    rw [acts]
    exact List.mem_cons_self

end Columnless

section Parts
variable {selectKUnstable : SelectKOptions → Table ν → Except String (List Nat)} {values : DataType → Preference ν}
  {fields : List Field} {projectColumnNames : List String} {options : SelectKOptions} {isProducer : String → Prop}
  {messages : List (Waiting (Option (TupleSet ν)))} {process : Process (LimitSortPOp ν) α (Table ν)}

/-- A message without a tuple set, or a tuple set without columns: alone it is kept, and after others it ends the operator. -/
theorem Keeping.stuck (keeping : Keeping values fields projectColumnNames options isProducer messages process)
    (sender : String) {message : Option (TupleSet ν)}
    (part : ∀ table : Table ν, message = some (some table) → table.fields = [] ∧ table.rows = [])
    (foreign : ∀ table : Table ν, message = some (some table) → table.fields ≠ fields) :
    Stuck (process.receive (LimitSortPOp.onReceive selectKUnstable) (.content sender message)) := by
  have silent : ∀ table, .tell table ∉ process.ctx.acts := by
    rw [keeping.silent]
    exact fun _ => List.not_mem_nil
  rw [Process.receive_content keeping.alive,LimitSortPOp.onReceive]
  cases message with
  | none => exact .inl rfl
  | some tupleSet =>
    have kept := keeping.kept
    rw [LimitSortPOp.onTuple,LimitSortPOp.makeInput]
    cases known : process.operator.result with
    | none =>
      dsimp only
      cases tupleSet with
      | none => exact .inr ⟨⟨none,rfl,rfl⟩,silent⟩
      | some table =>
        obtain ⟨columns,rows⟩ := part table rfl
        have selected : process.operator.selectK selectKUnstable (some table) = (process.operator,.ok (some table)) :=
          if_pos (congrArg List.length rows)
        rw [selected]
        exact .inr ⟨⟨some table,rfl,columns⟩,silent⟩
    | some result =>
      rw [known] at kept
      cases result with
      | none => exact kept.elim
      | some result =>
        have failed : ∃ failure, concatenate [some result,tupleSet] = .error failure := by
          cases tupleSet with
          | none => exact ⟨_,rfl⟩
          | some table =>
            have blank : table.fields = [] := (part table rfl).1
            have other : table.fields ≠ result.fields := kept.2.1.symm ▸ foreign table rfl
            obtain ⟨field,more,columns⟩ := List.exists_cons_of_ne_nil fun none => other (blank.trans none.symm)
            have missing : reorderedColumns table.fields result.fields =
                .error (.error "Cannot concatenate tuple sets with different schemas") := by
              rw [blank,columns]
              rfl
            have reordered : ∃ failure, table.reorder result.fields = .error failure := by
              unfold Table.reorder
              rw [if_neg other]
              split
              next failure _ => exact ⟨failure,rfl⟩
              next columns' found =>
                rw [missing] at found
                cases found
            obtain ⟨failure,refused⟩ := reordered
            refine ⟨failure,?_⟩
            rw [concatenate,reorderAll,refused]
        obtain ⟨failure,refused⟩ := failed
        dsimp only
        rw [refused]
        exact .inl (fail_faults _ _ _)

theorem keeping_or_stuck (selects : SelectsBest selectKUnstable values fields options)
    {started : Process (LimitSortPOp ν) α (Table ν)} (launched : Launched projectColumnNames options isProducer started)
    (messages : List (Waiting (Option (TupleSet ν)))) (parts : PartsOf fields messages)
    (produced : FromProducers isProducer messages) (more : ¬Finished isProducer messages) :
    Whole fields messages ∧ Keeping values fields projectColumnNames options isProducer messages
        (started.run (LimitSortPOp.onReceive selectKUnstable) messages) ∨
      ¬Whole fields messages ∧ Stuck (started.run (LimitSortPOp.onReceive selectKUnstable) messages) := by
  induction messages using List.reverseRecOn with
  | nil => exact .inl ⟨fun _ _ inside => absurd inside List.not_mem_nil,launched.keeping⟩
  | append_singleton messages message ih =>
    obtain ⟨earlier,known,missing⟩ := produced.init
    have before : PartsOf fields messages := fun table inside =>
      parts table (by rw [tables,List.filterMap_append]; exact List.mem_append_left _ inside)
    rw [Process.run_snoc]
    obtain ⟨whole,keeping⟩ | ⟨broken,stuck⟩ := ih before earlier (Finished.not_of_missing known missing)
    · cases message with
      | complete sender =>
        refine .inl ⟨fun other content inside => whole other content ?_,keeping.complete known missing more⟩
        simpa using inside
      | content sender content =>
        by_cases own : ∃ table : Table ν, content = some (some table) ∧ table.fields = fields
        · obtain ⟨table,rfl,same⟩ := own
          refine .inl ⟨fun other content inside => ?_,keeping.content selects sender same⟩
          rcases List.mem_append.mp inside with early | last
          · exact whole other content early
          · cases List.mem_singleton.mp last
            exact ⟨table,rfl,same⟩
        · refine .inr ⟨fun whole => own (whole sender content (List.mem_append_right _ List.mem_cons_self)),?_⟩
          have foreign : ∀ table : Table ν, content = some (some table) → table.fields ≠ fields :=
            fun table here same => own ⟨table,here,same⟩
          refine keeping.stuck sender (fun table here => ?_) foreign
          subst here
          refine (parts table ?_).resolve_left (foreign table rfl)
          rw [tables_content]
          exact List.mem_append_right _ List.mem_cons_self
    · exact .inr ⟨fun whole => broken fun other content inside => whole other content (List.mem_append_left _ inside),
        stuck.receive message⟩

theorem Keeping.finish_iff (keeping : Keeping values fields projectColumnNames options isProducer messages process)
    {sender : String} (known : isProducer sender) (missing : .complete sender ∉ messages)
    (finished : Finished isProducer (messages ++ [.complete sender])) :
    EmitsBest (rowOrder values fields options.sortKeys) fields options.k projectColumnNames messages
        (process.receive (LimitSortPOp.onReceive selectKUnstable) (.complete sender)) ↔
      tables messages ≠ [] ∧ ∃ columnName ∈ projectColumnNames,
      (getFieldIndex fields (canonicalize columnName)).isSome = true := by
  obtain ⟨taken,_,all⟩ := keeping.expecting.complete known missing
  have done : (process.ctx.operatorMap.setComplete sender).1.allComplete .producer = true := all.mpr finished
  have incomplete := keeping.incomplete
  have kept := keeping.kept
  rw [Process.receive_complete keeping.alive taken,LimitSortPOp.onReceive,LimitSortPOp.onComplete,
    if_pos (by rw [incomplete,done]; rfl)]
  cases result : process.operator.result with
  | none =>
    rw [result] at kept
    refine iff_of_false ?_ fun both => both.1 kept
    rintro ⟨_,_,_,_,_,_,alive⟩
    cases alive
  | some result' =>
    rw [result] at kept
    cases result' with
    | none => exact kept.elim
    | some best =>
      obtain ⟨some,columns,isBest⟩ := kept
      dsimp only
      rw [keeping.names]
      have projectable : (best.existing projectColumnNames = [] ↔
          ¬∃ columnName ∈ projectColumnNames, (getFieldIndex fields (canonicalize columnName)).isSome = true) := by
        rw [Table.existing,columns,List.filterMap_eq_nil_iff]
        simp only [Option.map_eq_none_iff,not_exists,not_and,Option.not_isSome_iff_eq_none]
      by_cases asked : ∃ columnName ∈ projectColumnNames, (getFieldIndex fields (canonicalize columnName)).isSome = true
      · obtain ⟨projectTupleSet,projection⟩ : ∃ projected, best.projectExist projectColumnNames = .ok projected := by
          rw [Table.projectExist,if_neg (by rw [List.isEmpty_iff,projectable]; exact not_not.mpr asked)]
          exact ⟨_,rfl⟩
        refine iff_of_true ⟨best,projectTupleSet,columns,isBest,projection,?_⟩ ⟨some,asked⟩
        rw [projection]
        dsimp only
        rw [POpContext.tell_incomplete _ (by exact incomplete),
          POpContext.notifyComplete_incomplete _ (by exact incomplete),
          POpContext.record_record]
        refine ⟨?_,rfl⟩
        change process.ctx.acts ++ _ = _
        rw [keeping.silent]
        rfl
      · refine iff_of_false ?_ fun both => asked both.2
        have nothing : best.projectExist projectColumnNames = .error "No column exists." := by
          rw [Table.projectExist,if_pos (List.isEmpty_iff.mpr (projectable.mpr asked))]
        rw [nothing]
        rintro ⟨_,_,_,_,_,_,alive⟩
        cases alive

end Parts

/-- However the relation is split, the best rows of all are emitted, if and only if there is a part to emit and no part
comes without its columns. -/
theorem limitSort_emits_best_iff {selectKUnstable : SelectKOptions → Table ν → Except String (List Nat)}
    {values : DataType → Preference ν} {fields : List Field} {options : SelectKOptions}
    (projectColumnNames : List String)
    (selects : SelectsBest selectKUnstable values fields options) {isProducer : String → Prop}
    {started : Process (LimitSortPOp ν) α (Table ν)} (launched : Launched projectColumnNames options isProducer started)
    (messages : List (Waiting (Option (TupleSet ν)))) (last : String) (parts : PartsOf fields messages)
    (produced : FromProducers isProducer (messages ++ [.complete last]))
    (finished : Finished isProducer (messages ++ [.complete last])) :
    EmitsBest (rowOrder values fields options.sortKeys) fields options.k projectColumnNames messages
        (started.run (LimitSortPOp.onReceive selectKUnstable) (messages ++ [.complete last])) ↔
      Emittable fields projectColumnNames messages := by
  obtain ⟨earlier,known,missing⟩ := produced.init
  rw [Process.run_snoc]
  obtain ⟨whole,keeping⟩ | ⟨broken,stuck⟩ :=
    keeping_or_stuck selects launched messages parts earlier (Finished.not_of_missing known missing)
  · refine (keeping.finish_iff known missing finished).trans ?_
    exact ⟨fun ⟨parted,asked⟩ => ⟨parted,whole,asked⟩,fun emittable => ⟨emittable.some,emittable.projectable⟩⟩
  · exact iff_of_false (stuck.receive _).not_emitsBest fun emittable => broken emittable.whole

def sortedIndices (order : Preference (List (Slot ν))) (rows : List (List (Slot ν))) : List Nat :=
  (List.range rows.length).mergeSort (order.on (rows.getD · [])).le

def sortAndTake (values : DataType → Preference ν) (options : SelectKOptions) (table : Table ν) :
    Except String (List Nat) :=
  .ok ((sortedIndices (rowOrder values table.fields options.sortKeys) table.rows).take options.k)

theorem mem_sortedIndices {order : Preference (List (Slot ν))} {rows : List (List (Slot ν))} {index : Nat} :
    index ∈ sortedIndices order rows ↔ index < rows.length :=
  List.mem_mergeSort.trans List.mem_range

theorem sortedIndices_rows (order : Preference (List (Slot ν))) (rows : List (List (Slot ν))) :
    ((sortedIndices order rows).map (rows.getD · [])).Perm rows ∧
      ((sortedIndices order rows).map (rows.getD · [])).Pairwise fun a b => order.le a b = true := by
  have all : (List.range rows.length).map (rows.getD · []) = rows := by
    apply List.ext_getElem
    · rw [List.length_map,List.length_range]
    · intro i _ inside
      rw [List.getElem_map,List.getElem_range,List.getD_eq_getElem?_getD,List.getElem?_eq_getElem inside]
      rfl
  constructor
  · have same := (List.mergeSort_perm (List.range rows.length) (order.on (rows.getD · [])).le).map (rows.getD · [])
    rw [all] at same
    exact same
  · exact List.pairwise_map.mpr (pairwise_mergeSort (order.on (rows.getD · [])) _)

theorem sortAndTake_selectsBest (values : DataType → Preference ν) (fields : List Field) (options : SelectKOptions) :
    SelectsBest (sortAndTake values) values fields options := by
  rintro table rfl _
  refine ⟨_,rfl,?_,?_⟩
  · intro index inside
    exact mem_sortedIndices.mp (List.mem_of_mem_take inside)
  · obtain ⟨same,sorted⟩ := sortedIndices_rows (rowOrder values table.fields options.sortKeys) table.rows
    refine ⟨_,same,sorted,?_⟩
    rw [← List.map_take,← List.filterMap_eq_map]
    apply List.filterMap_congr
    intro index inside
    have here := mem_sortedIndices.mp (List.mem_of_mem_take inside)
    rw [Function.comp,List.getD_eq_getElem?_getD,List.getElem?_eq_getElem here]
    rfl

/-- Numbers as they are. -/
def ascending : Preference Nat where
  le a b := decide (a ≤ b)
  total a b := by simpa using Nat.le_total a b
  trans a b c first second := by
    simp only [decide_eq_true_eq] at first second ⊢
    exact Nat.le_trans first second

def price : Table Nat := ⟨[⟨"price",.int64⟩],[[⟨true,3⟩],[⟨false,0⟩]],by decide⟩

def nothing : Table Nat := ⟨[⟨"price",.int64⟩],[],by decide⟩

/-- The operator of two rows by descending price, with one scan. -/
def bestPrices : Process (LimitSortPOp Nat) Unit (Table Nat) where
  operator := .make ["price"] 2 [⟨"price",.descending⟩]
  ctx := ⟨0,"limitSort",(LocalPOpDirectory.make.insert ⟨"scan",(),.producer,false⟩).1,false,[]⟩
  fault := none

theorem bestPrices_launched :
    Launched ["price"] ⟨2,[⟨"price",.descending⟩]⟩ (fun name => name = "scan" ∨ False) bestPrices where
  made := rfl
  alive := rfl
  incomplete := rfl
  silent := rfl
  awaiting := LocalPOpDirectory.awaiting_make.insert "scan" rfl ()

theorem prices_whole : Whole [⟨"price",.int64⟩]
    [.content "scan" (some (some nothing)),.content "scan" (some (some price)),.content "scan" (some (some nothing)),
      .content "scan" (some (some price))] := by
  intro sender message inside
  simp only [List.mem_cons,List.not_mem_nil,or_false,Waiting.content.injEq] at inside
  obtain ⟨_,rfl⟩ | ⟨_,rfl⟩ | ⟨_,rfl⟩ | ⟨_,rfl⟩ := inside <;> exact ⟨_,rfl,rfl⟩

theorem bestPrices_emits_best :
    EmitsBest (rowOrder (fun _ => ascending) [⟨"price",.int64⟩] [⟨"price",.descending⟩]) [⟨"price",.int64⟩] 2 ["price"]
      [.content "scan" (some (some nothing)),.content "scan" (some (some price)),.content "scan" (some (some nothing)),
        .content "scan" (some (some price))]
      (bestPrices.run (LimitSortPOp.onReceive (sortAndTake fun _ => ascending))
        [.content "scan" (some (some nothing)),.content "scan" (some (some price)),
          .content "scan" (some (some nothing)),
          .content "scan" (some (some price)),.complete "scan"]) :=
  (limitSort_emits_best_iff ["price"] (sortAndTake_selectsBest _ _ ⟨2,[⟨"price",.descending⟩]⟩) bestPrices_launched
    [.content "scan" (some (some nothing)),.content "scan" (some (some price)),.content "scan" (some (some nothing)),
      .content "scan" (some (some price))] "scan"
    (by simp [PartsOf,tables,nothing,price]) ⟨by simp [Waiting.sender],by simp⟩ (by simp [Finished])).mpr
    ⟨by simp [tables],prices_whole,⟨"price",List.mem_cons_self,by decide⟩⟩

/-- The part of a scan that read nothing comes first: the rows behind it are gone, and nothing is emitted. -/
theorem rows_lost_after_empty :
    PartsOf [⟨"price",.int64⟩] [.content "scan" (some (some Table.empty)),.content "scan" (some (some price))] ∧
      (bestPrices.run (LimitSortPOp.onReceive (sortAndTake fun _ => ascending))
        [.content "scan" (some (some .empty)),.content "scan" (some (some price))]).operator.result =
        some (some .empty) ∧
      ¬EmitsBest (rowOrder (fun _ => ascending) [⟨"price",.int64⟩] [⟨"price",.descending⟩])
      [⟨"price",.int64⟩] 2 ["price"]
        [.content "scan" (some (some .empty)),.content "scan" (some (some price))]
        (bestPrices.run (LimitSortPOp.onReceive (sortAndTake fun _ => ascending))
          [.content "scan" (some (some .empty)),.content "scan" (some (some price)),.complete "scan"]) := by
  refine ⟨by simp [PartsOf,tables,Table.empty,price],rfl,?_⟩
  rintro ⟨_,_,_,_,_,_,alive⟩
  cases alive

end Hermes.LimitSort
