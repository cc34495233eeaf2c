import Hermes.BinlogParser
import Hermes.Library.Transition
import Mathlib.Tactic.Common

/-! The result batches between the DeltaMerge operators and the server's clients.
Every table has a queue that the operators fill, and every call of `execute`
takes at most one batch from the queue of its table. Calls run on threads of
their own, so a call is a sequence of steps between which others take theirs. -/
namespace Hermes.BatchQueues
open Hermes.BinlogParser Hermes.Library.Transition
variable {α : Type}

/-- A batch, with the table and the query of the operator that pushed it. -/
structure Batch (α : Type) where
  tableName : Table
  queryCounter : Int64
  data : α

structure Queues (α : Type) where
  lo_batchQueue : List (Batch α)
  c_batchQueue : List (Batch α)
  s_batchQueue : List (Batch α)
  p_batchQueue : List (Batch α)
  d_batchQueue : List (Batch α)

namespace Queues

/-- The queue a table name selects; `date` is the last `else`. -/
def queue (queues : Queues α) : Table → List (Batch α)
  | .lineorder => queues.lo_batchQueue
  | .customer => queues.c_batchQueue
  | .supplier => queues.s_batchQueue
  | .part => queues.p_batchQueue
  | .date => queues.d_batchQueue

def set (queues : Queues α) (table : Table) (batches : List (Batch α)) : Queues α :=
  match table with
  | .lineorder => {queues with lo_batchQueue := batches}
  | .customer => {queues with c_batchQueue := batches}
  | .supplier => {queues with s_batchQueue := batches}
  | .part => {queues with p_batchQueue := batches}
  | .date => {queues with d_batchQueue := batches}

@[simp] theorem queue_set (queues : Queues α) (table other : Table) (batches : List (Batch α)) :
    (queues.set table batches).queue other = if other = table then batches else queues.queue other := by
  cases table <;> cases other <;> rfl

def addToQueueAndNotify (queues : Queues α) (batch : Batch α) : Queues α :=
  queues.set batch.tableName (queues.queue batch.tableName ++ [batch])

/-- The swaps of `condition` with one queue that is empty at first. -/
def swapEmpty (queues : Queues α) : Queues α :=
  let empty : List (Batch α) := []
  let (lo_batchQueue,empty) := (empty,queues.lo_batchQueue)
  let (c_batchQueue,empty) := (empty,queues.c_batchQueue)
  let (s_batchQueue,empty) := (empty,queues.s_batchQueue)
  let (c_batchQueue,empty) := (empty,c_batchQueue)
  let (d_batchQueue,_) := (empty,queues.d_batchQueue)
  {queues with lo_batchQueue,c_batchQueue,s_batchQueue,d_batchQueue}

theorem swapEmpty_eq (queues : Queues α) : queues.swapEmpty =
    ⟨[],queues.s_batchQueue,queues.c_batchQueue,queues.p_batchQueue,queues.lo_batchQueue⟩ := rfl

theorem queue_swapEmpty_iff (queues : Queues α) :
    (∀ table, queues.swapEmpty.queue table = []) ↔ queues.lo_batchQueue = [] ∧ queues.c_batchQueue = [] ∧
      queues.s_batchQueue = [] ∧ queues.p_batchQueue = [] := by
  rw [swapEmpty_eq]
  constructor
  · intro empty
    exact ⟨empty .date,empty .supplier,empty .customer,empty .part⟩
  · rintro ⟨lo,c,s,p⟩ table
    cases table
    · rfl
    · exact s
    · exact c
    · exact p
    · exact lo

end Queues

structure Call where
  queryCounter : Int64
  tableName : Table
  threadCnt : Int64
deriving DecidableEq

/-- Where a call stands. A call that started its query executes it, marks it done and
looks for a batch; a later one looks whether all batches have gone out, and waits. -/
inductive Phase where
  | executing
  | executed
  | popping
  | fetching
  | waiting
deriving DecidableEq

structure Server (α : Type) where
  runningQuery : Int32
  done : Bool
  batchesSeen : Table → Nat
  queues : Queues α
  calls : List (Call × Phase)

namespace Server

def initial (α : Type) : Server α := ⟨0,false,fun _ => 0,⟨[],[],[],[],[]⟩,[]⟩

def condition (server : Server α) (queryCounter : Int64) : Bool × Server α :=
  if server.runningQuery.toInt64 ≠ queryCounter then
    (true,{server with
      runningQuery := queryCounter.toInt32
      done := false
      batchesSeen := fun _ => 0
      queues := server.queues.swapEmpty})
  else (false,server)

/-- Whether a later call returns without a batch. Only the lines wait for the query to
be done; of the other tables the batches are counted. -/
def exhausted (server : Server α) (tableName : Table) : Bool :=
  (match tableName with
    | .lineorder => server.done
    | .customer => server.batchesSeen .customer == 3
    | .supplier => server.batchesSeen .supplier == 1
    | .part => server.batchesSeen .part == 8
    | .date => server.batchesSeen .date == 1) && (server.queues.queue tableName).isEmpty

/-- A batch has been taken out. The lines are not counted. -/
def pop (server : Server α) (tableName : Table) (rest : List (Batch α)) : Server α :=
  {server with
    batchesSeen := if tableName = .lineorder then server.batchesSeen
      else Function.update server.batchesSeen tableName (server.batchesSeen tableName+1)
    queues := server.queues.set tableName rest}

def move (server : Server α) (call : Call) (phase next : Phase) : Server α :=
  {server with calls := (call,next) :: server.calls.erase (call,phase)}

def leave (server : Server α) (call : Call) (phase : Phase) : Server α :=
  {server with calls := server.calls.erase (call,phase)}

end Server

inductive Event (α : Type) where
  | enter (call : Call)
  | push (batch : Batch α)
  | executeQuery (call : Call)
  | check (call : Call)
  | empty (call : Call)
  | batch (call : Call) (batch : Batch α)
  | underflow (call : Call)

inductive Step : Server α → Event α → Server α → Prop
  | enter (server : Server α) (call : Call) :
      Step server (.enter call) {(server.condition call.queryCounter).2 with
        calls := (call,if (server.condition call.queryCounter).1 then .executing else .fetching) :: server.calls}
  | push (server : Server α) (batch : Batch α) :
      Step server (.push batch) {server with queues := server.queues.addToQueueAndNotify batch}
  | executeQuery {server : Server α} {call : Call} (here : (call,Phase.executing) ∈ server.calls) :
      Step server (.executeQuery call) {server.move call .executing .executed with done := true}
  | checkFirst {server : Server α} {call : Call} (here : (call,Phase.executed) ∈ server.calls)
      (more : server.queues.queue call.tableName ≠ []) :
      Step server (.check call) (server.move call .executed .popping)
  | emptyFirst {server : Server α} {call : Call} (here : (call,Phase.executed) ∈ server.calls)
      (none_ : server.queues.queue call.tableName = []) :
      Step server (.empty call) (server.leave call .executed)
  | check {server : Server α} {call : Call} (here : (call,Phase.fetching) ∈ server.calls)
      (more : server.exhausted call.tableName = false) :
      Step server (.check call) (server.move call .fetching .waiting)
  | empty {server : Server α} {call : Call} (here : (call,Phase.fetching) ∈ server.calls)
      (none_ : server.exhausted call.tableName = true) :
      Step server (.empty call) (server.leave call .fetching)
  | batch {server : Server α} {call : Call} {phase : Phase} {batch : Batch α} {rest : List (Batch α)}
      (here : (call,phase) ∈ server.calls) (ready : phase = .popping ∨ phase = .waiting)
      (front : server.queues.queue call.tableName = batch::rest) :
      Step server (.batch call batch) ((server.pop call.tableName rest).leave call phase)
  -- the queue is tested before it is locked, and nothing is known after the front of an empty one
  | underflow {server next : Server α} {call : Call} (here : (call,Phase.popping) ∈ server.calls)
      (none_ : server.queues.queue call.tableName = []) : Step server (.underflow call) next

/-- What a step may do without mixing queries or tables. -/
def Isolated (server : Server α) (event : Event α) (next : Server α) : Prop :=
  match event with
  | .enter call => (server.condition call.queryCounter).1 → ∀ table, next.queues.queue table = []
  | .batch call batch => batch.tableName = call.tableName ∧ batch.queryCounter = call.queryCounter
  | .underflow _ => False
  | _ => True

/-- Another call has found a batch in the queue of this call's table, and has not taken it yet. -/
def Contended (server : Server α) (call : Call) (phase : Phase) : Prop :=
  ∃ entry ∈ server.calls.erase (call,phase), entry.2 = .popping ∧ entry.1.tableName = call.tableName

/-- A query starts when the queues that the swaps do not empty are empty, no call of
another query is under way, and its counter fits the server's; a batch is pushed by
the query that runs; and nobody takes the last batch of a table while another call has found it. -/
def Separate (server : Server α) : Event α → Prop
  | .enter call => (server.condition call.queryCounter).1 →
      (server.queues.lo_batchQueue = [] ∧ server.queues.c_batchQueue = [] ∧ server.queues.s_batchQueue = [] ∧
        server.queues.p_batchQueue = []) ∧
      (∀ entry ∈ server.calls, entry.1.queryCounter = call.queryCounter) ∧
      call.queryCounter.toInt32.toInt64 = call.queryCounter
  | .push batch => batch.queryCounter = server.runningQuery.toInt64
  | .batch call batch => ∀ phase, (call,phase) ∈ server.calls → Contended server call phase →
      server.queues.queue call.tableName ≠ [batch]
  | _ => True

/-- Everything in the queues and under way belongs to the running query, and what a call has found is there. -/
structure Single (server : Server α) : Prop where
  queued : ∀ table, ∀ batch ∈ server.queues.queue table,
    batch.tableName = table ∧ batch.queryCounter = server.runningQuery.toInt64
  called : ∀ entry ∈ server.calls, entry.1.queryCounter = server.runningQuery.toInt64
  found : ∀ entry ∈ server.calls, entry.2 = .popping → server.queues.queue entry.1.tableName ≠ []

section Steps
variable {server : Server α} {call : Call} {phase next : Phase}

theorem Single.of_calls {after : Server α} (single : Single server) (queues : after.queues = server.queues)
    (running : after.runningQuery = server.runningQuery)
    (calls : ∀ entry ∈ after.calls, entry.1.queryCounter = server.runningQuery.toInt64 ∧
      (entry.2 = .popping → server.queues.queue entry.1.tableName ≠ [])) : Single after := by
  constructor
  · rw [queues,running]
    exact single.queued
  · rw [running]
    exact fun entry member => (calls entry member).1
  · rw [queues]
    exact fun entry member => (calls entry member).2

theorem Single.leave (single : Single server) (call : Call) (phase : Phase) : Single (server.leave call phase) := by
  have queues : (server.leave call phase).queues = server.queues := rfl
  apply single.of_calls queues rfl
  intro entry member
  have before := List.mem_of_mem_erase member
  exact ⟨single.called entry before,single.found entry before⟩

theorem Single.move (single : Single server) (here : (call,phase) ∈ server.calls) {next : Phase}
    (found : next = .popping → server.queues.queue call.tableName ≠ []) : Single (server.move call phase next) := by
  have queues : (server.move call phase next).queues = server.queues := rfl
  apply single.of_calls queues rfl
  intro entry member
  rcases List.mem_cons.mp member with rfl | other
  · exact ⟨single.called (call,phase) here,found⟩
  · have before := List.mem_of_mem_erase other
    exact ⟨single.called entry before,single.found entry before⟩

theorem Single.push (single : Single server) {batch : Batch α}
    (running : batch.queryCounter = server.runningQuery.toInt64) :
    Single {server with queues := server.queues.addToQueueAndNotify batch} := by
  refine ⟨?_,single.called,?_⟩
  · intro table other member
    change other ∈ (server.queues.set batch.tableName _).queue table at member
    rw [Queues.queue_set] at member
    split at member
    next same =>
      rcases List.mem_append.mp member with before | pushed
      · rw [same]
        exact single.queued batch.tableName other before
      · obtain rfl := List.mem_singleton.mp pushed
        exact ⟨same.symm,running⟩
    next => exact single.queued table other member
  · intro entry member popping
    change (server.queues.set batch.tableName _).queue entry.1.tableName ≠ []
    rw [Queues.queue_set]
    split
    next => exact List.concat_ne_nil _ _
    next => exact single.found entry member popping

theorem Single.take (single : Single server) {batch : Batch α} {rest : List (Batch α)}
    (front : server.queues.queue call.tableName = batch::rest)
    (separate : Contended server call phase → server.queues.queue call.tableName ≠ [batch]) :
    Single ((server.pop call.tableName rest).leave call phase) := by
  refine ⟨?_,?_,?_⟩
  · intro other left member
    change left ∈ (server.queues.set call.tableName rest).queue other at member
    rw [Queues.queue_set] at member
    split at member
    next same =>
      apply single.queued other left
      rw [same,front]
      exact List.mem_cons_of_mem _ member
    next => exact single.queued other left member
  · exact fun entry member => single.called entry (List.mem_of_mem_erase member)
  · intro entry member popping
    change (server.queues.set call.tableName rest).queue entry.1.tableName ≠ []
    rw [Queues.queue_set]
    split
    next same =>
      have more := separate ⟨entry,member,popping,same⟩
      rw [front] at more
      exact fun none => more (congrArg (List.cons batch) none)
    next => exact single.found entry (List.mem_of_mem_erase member) popping

theorem Single.enter (single : Single server) (call : Call) (separate : Separate server (.enter call)) :
    (Single {(server.condition call.queryCounter).2 with
      calls := (call,if (server.condition call.queryCounter).1 then .executing else .fetching) :: server.calls}) ∧
    ((server.condition call.queryCounter).1 →
      ∀ table, (server.condition call.queryCounter).2.queues.queue table = []) := by
  unfold Separate at separate
  unfold Server.condition at separate ⊢
  split
  next starts =>
    obtain ⟨left,alone,fits⟩ := separate (by rw [if_pos starts])
    have empty := (Queues.queue_swapEmpty_iff server.queues).mpr left
    refine ⟨⟨?_,?_,?_⟩,fun _ => empty⟩
    · intro table batch member
      rw [empty table] at member
      cases member
    · intro entry member
      rcases List.mem_cons.mp member with rfl | other
      · exact fits.symm
      · exact (alone entry other).trans fits.symm
    · intro entry member popping
      rcases List.mem_cons.mp member with rfl | other
      · cases popping
      · exact absurd ((single.called entry other).symm.trans (alone entry other)) starts
  next runs =>
    refine ⟨⟨single.queued,?_,?_⟩,fun started => absurd started Bool.false_ne_true⟩
    · intro entry member
      rcases List.mem_cons.mp member with rfl | other
      · exact (not_not.mp runs).symm
      · exact single.called entry other
    · intro entry member popping
      rcases List.mem_cons.mp member with rfl | other
      · cases popping
      · exact single.found entry other popping

end Steps

theorem single_initial (α : Type) : Single (Server.initial α) := by
  constructor
  · intro table batch member
    cases table <;> cases member
  · intro entry member
    cases member
  · intro entry member
    cases member

theorem single_step {server next : Server α} {event : Event α} (single : Single server)
    (step : Meeting Separate Step server event next) : Single next ∧ Isolated server event next := by
  obtain ⟨separate,step⟩ := step
  cases step with
  | enter call => exact single.enter call separate
  | push batch => exact ⟨single.push separate,trivial⟩
  | executeQuery here =>
    have moved := single.move here (fun wrong => absurd wrong (by decide : Phase.executed ≠ .popping))
    exact ⟨⟨moved.queued,moved.called,moved.found⟩,trivial⟩
  | checkFirst here more => exact ⟨single.move here fun _ => more,trivial⟩
  | emptyFirst => exact ⟨single.leave _ _,trivial⟩
  | check here => exact ⟨single.move here fun wrong => absurd wrong (by decide : Phase.waiting ≠ .popping),trivial⟩
  | empty => exact ⟨single.leave _ _,trivial⟩
  | batch here ready front =>
    refine ⟨single.take front (separate _ here),?_⟩
    have belongs := single.queued _ _ (by rw [front]; exact List.mem_cons_self)
    exact ⟨belongs.1,belongs.2.trans (single.called _ here).symm⟩
  | underflow here none => exact absurd none (single.found _ here rfl)

section Examples

def customers : Call := ⟨1,.customer,0⟩

def dates : Call := ⟨2,.date,0⟩

def lineBatch : Batch Unit := ⟨.lineorder,1,()⟩

def customerBatch : Batch Unit := ⟨.customer,1,()⟩

end Examples

end Hermes.BatchQueues
