import Hermes.POpDirectory
import Mathlib.Data.List.Nodup

/-! The behaviour of `POpActor`: CONNECT fills the directory, START starts the operator,
and what comes before START waits in a queue. The operator is what its `onReceive` has
seen; it changes neither the queue nor which entries of the directory are complete. -/
namespace Hermes.Operators
variable {α β : Type}

structure POpConnection (α : Type) where
  name : String
  actorHandle : α
  connectionType : POpRelationshipType
deriving DecidableEq

/-- The messages that wait for START: COMPLETE, and TUPLE, SCAN, LOAD_RESPONSE and so
on, whose content only the operator reads. -/
inductive Waiting (β : Type) where
  | complete (sender : String)
  | content (sender : String) (content : β)
deriving DecidableEq

def Waiting.sender : Waiting β → String
  | .complete sender => sender
  | .content sender _ => sender

inductive Envelope (α β : Type) where
  | connect (connections : List (POpConnection α))
  | start
  | stop
  | waiting (message : Waiting β)
deriving DecidableEq

inductive Event (β : Type) where
  | receivedStart
  | receivedStop
  | received (message : Waiting β)
  | setComplete (sender : String)
  | notifyError (content : String)
deriving DecidableEq

structure POpActor (α β : Type) where
  running : Bool
  buffer : List (Waiting β)
  operatorMap : LocalPOpDirectory α
  log : List (Event β)
deriving DecidableEq

namespace POpActor

def make : POpActor α β := ⟨false,[],.make,[]⟩

def record (actor : POpActor α β) (events : List (Event β)) : POpActor α β :=
  {actor with log := actor.log ++ events}

/-- The directory after a list of connections, and the errors of those that are refused. -/
def connectAll (operatorMap : LocalPOpDirectory α) : List (POpConnection α) → LocalPOpDirectory α × List (Event β)
  | [] => (operatorMap,[])
  | element::connections =>
    let inserted := operatorMap.insert ⟨element.name,element.actorHandle,element.connectionType,false⟩
    let connected := connectAll inserted.1 connections
    match inserted.2 with
    | .ok _ => connected
    | .error message => (connected.1,.notifyError message::connected.2)

/-- The last branch of the handler. A COMPLETE that is refused is not handed on. -/
def deliver (actor : POpActor α β) (message : Waiting β) : POpActor α β :=
  if !actor.running then {actor with buffer := actor.buffer ++ [message]}
  else
    match message with
    | .complete sender =>
      let marked := actor.operatorMap.setComplete sender
      match marked.2 with
      | .error error => actor.record [.notifyError error]
      | .ok _ => {actor with operatorMap := marked.1}.record [.setComplete sender,.received message]
    | .content _ _ => actor.record [.received message]

/-- The loop of the START branch: the front is handled by the same handler, then popped. -/
def replay : Nat → POpActor α β → POpActor α β
  | 0, actor => actor
  | turns+1, actor =>
    match actor.buffer with
    | [] => actor
    | item::_ =>
      let handled := actor.deliver item
      replay turns {handled with buffer := handled.buffer.tail}

def receive (actor : POpActor α β) : Envelope α β → POpActor α β
  | .connect connections =>
    let (operatorMap,errors) := connectAll actor.operatorMap connections
    {actor with operatorMap := operatorMap}.record errors
  | .start =>
    let started := {actor with running := true}.record [.receivedStart]
    replay started.buffer.length started
  | .stop => {actor with running := false}.record [.receivedStop]
  | .waiting message => actor.deliver message

def run (envelopes : List (Envelope α β)) : POpActor α β := envelopes.foldl receive make

end POpActor

section
variable (operatorMap : LocalPOpDirectory α)

/-- What a started actor does about a message, and its directory afterwards. -/
def answer (message : Waiting β) : LocalPOpDirectory α × List (Event β) :=
  match message with
  | .complete sender =>
    let marked := operatorMap.setComplete sender
    match marked.2 with
    | .error error => (operatorMap,[.notifyError error])
    | .ok _ => (marked.1,[.setComplete sender,.received message])
  | .content _ _ => (operatorMap,[.received message])

def reaction : Envelope α β → LocalPOpDirectory α × List (Event β)
  | .connect connections => POpActor.connectAll operatorMap connections
  | .start => (operatorMap,[.receivedStart])
  | .stop => (operatorMap,[.receivedStop])
  | .waiting message => answer operatorMap message

end

/-- One envelope after another, each at once. -/
def reactions (operatorMap : LocalPOpDirectory α) : List (Envelope α β) → LocalPOpDirectory α × List (Event β)
  | [] => (operatorMap,[])
  | envelope::envelopes =>
    let next := reaction operatorMap envelope
    let last := reactions next.1 envelopes
    (last.1,next.2 ++ last.2)

theorem reactions_append (operatorMap : LocalPOpDirectory α) (envelopes more : List (Envelope α β)) :
    reactions operatorMap (envelopes ++ more) =
      ((reactions (reactions operatorMap envelopes).1 more).1,
        (reactions operatorMap envelopes).2 ++ (reactions (reactions operatorMap envelopes).1 more).2) := by
  induction envelopes generalizing operatorMap with
  | nil => rfl
  | cons envelope envelopes ih =>
    rw [List.cons_append,reactions,ih,reactions]
    simp [List.append_assoc]

namespace POpActor

theorem deliver_running (actor : POpActor α β) (running : actor.running = true) (message : Waiting β) :
    actor.deliver message = {actor with operatorMap := (answer actor.operatorMap message).1}.record
      (answer actor.operatorMap message).2 := by
  obtain ⟨isRunning,buffer,operatorMap,log⟩ := actor
  change isRunning = true at running
  subst running
  cases message with
  | content sender content => rfl
  | complete sender =>
    simp only [deliver,answer,Bool.not_true,Bool.false_eq_true,if_false]
    cases (operatorMap.setComplete sender).2 with
    | error message => rfl
    | ok done => rfl

theorem replay_all (actor : POpActor α β) (running : actor.running = true) :
    replay actor.buffer.length actor =
      {actor with
        buffer := []
        operatorMap := (reactions actor.operatorMap (actor.buffer.map .waiting)).1}.record
      (reactions actor.operatorMap (actor.buffer.map .waiting)).2 := by
  obtain ⟨isRunning,buffer,operatorMap,log⟩ := actor
  change isRunning = true at running
  subst running
  induction buffer generalizing operatorMap log with
  | nil => simp [replay,reactions,record]
  | cons item buffer ih =>
    rw [List.length_cons,replay]
    dsimp only
    rw [deliver_running _ rfl]
    refine (ih _ _).trans ?_
    simp [reactions,reaction,record,List.append_assoc]

theorem receive_running (actor : POpActor α β) (running : actor.running = true) (empty : actor.buffer = [])
    (envelope : Envelope α β) (goes : envelope ≠ .stop) :
    actor.receive envelope = {actor with operatorMap := (reaction actor.operatorMap envelope).1}.record
      (reaction actor.operatorMap envelope).2 := by
  cases envelope with
  | connect connections => rfl
  | stop => exact absurd rfl goes
  | waiting message => exact deliver_running actor running message
  | start =>
    rw [receive,replay_all _ rfl]
    simp [record,empty,reactions,reaction,running]

theorem foldl_receive_running (actor : POpActor α β) (running : actor.running = true) (empty : actor.buffer = [])
    (envelopes : List (Envelope α β)) (goes : ∀ envelope ∈ envelopes, envelope ≠ .stop) :
    envelopes.foldl receive actor = {actor with operatorMap := (reactions actor.operatorMap envelopes).1}.record
      (reactions actor.operatorMap envelopes).2 := by
  induction envelopes generalizing actor with
  | nil => simp [reactions,record]
  | cons envelope envelopes ih =>
    rw [List.foldl_cons,receive_running actor running empty envelope (goes envelope List.mem_cons_self)]
    refine (ih _ (by exact running) (by exact empty) fun later inside =>
      goes later (List.mem_cons_of_mem _ inside)).trans ?_
    simp [reactions,record,List.append_assoc]

end POpActor

/-- The messages among some envelopes that wait for START. -/
def waiting (envelopes : List (Envelope α β)) : List (Waiting β) :=
  envelopes.filterMap fun envelope =>
    match envelope with
    | .waiting message => some message
    | _ => none

def connects (envelopes : List (Envelope α β)) : List (Envelope α β) :=
  envelopes.filter fun envelope =>
    match envelope with
    | .connect _ => true
    | _ => false

namespace POpActor

theorem foldl_receive_stopped (actor : POpActor α β) (stopped : actor.running = false) (envelopes : List (Envelope α β))
    (early : ∀ envelope ∈ envelopes, envelope ≠ .start ∧ envelope ≠ .stop) :
    envelopes.foldl receive actor =
      {actor with
        buffer := actor.buffer ++ waiting envelopes
        operatorMap := (reactions actor.operatorMap (connects envelopes)).1}.record
      (reactions actor.operatorMap (connects envelopes)).2 := by
  induction envelopes generalizing actor with
  | nil => simp [reactions,connects,waiting,record]
  | cons envelope envelopes ih =>
    have rest : ∀ later ∈ envelopes, later ≠ .start ∧ later ≠ .stop := fun later inside =>
      early later (List.mem_cons_of_mem _ inside)
    rw [List.foldl_cons]
    cases envelope with
    | start => exact absurd rfl (early _ List.mem_cons_self).1
    | stop => exact absurd rfl (early _ List.mem_cons_self).2
    | connect connections =>
      refine (ih (actor.receive (.connect connections)) stopped rest).trans ?_
      simp [receive,connects,waiting,reactions,reaction,record,List.append_assoc]
    | waiting message =>
      have queued : actor.receive (.waiting message) = {actor with buffer := actor.buffer ++ [message]} := by
        rw [receive,deliver.eq_def,stopped]
        rfl
      rw [queued]
      refine (ih _ (by exact stopped) rest).trans ?_
      simp [connects,waiting,List.append_assoc]

theorem run_log (before after : List (Envelope α β)) (early : ∀ envelope ∈ before, envelope ≠ .start ∧ envelope ≠ .stop)
    (goes : ∀ envelope ∈ after, envelope ≠ .stop) :
    (run (before ++ .start::after)).log =
      (reactions .make (connects before ++ .start::((waiting before).map .waiting ++ after))).2 := by
  rw [run,List.foldl_append,foldl_receive_stopped make rfl before early,List.foldl_cons]
  rw [receive,replay_all _ rfl,foldl_receive_running _ rfl rfl after goes]
  simp [reactions_append,reactions,reaction,record,make,List.append_assoc]

end POpActor

/-- The senders that a log marks complete, in order. -/
def marks (log : List (Event β)) : List String :=
  log.filterMap fun event =>
    match event with
    | .setComplete sender => some sender
    | _ => none

/-- What the operator's `onReceive` sees, in order. -/
def handed (log : List (Event β)) : List (Envelope α β) :=
  log.filterMap fun event =>
    match event with
    | .receivedStart => some .start
    | .receivedStop => some .stop
    | .received message => some (.waiting message)
    | _ => none

/-- All envelopes but the connections, which are the actor's own business. -/
def arrived (envelopes : List (Envelope α β)) : List (Envelope α β) :=
  envelopes.filter fun envelope =>
    match envelope with
    | .connect _ => false
    | _ => true

/-- The senders of the COMPLETEs. -/
def completes (envelopes : List (Envelope α β)) : List String :=
  envelopes.filterMap fun envelope =>
    match envelope with
    | .waiting (.complete sender) => some sender
    | _ => none

def Awaits (operatorMap : LocalPOpDirectory α) (sender : String) : Prop :=
  ∃ entry, operatorMap.entryOf sender = some entry ∧ entry.complete = false

def Knows (operatorMap : LocalPOpDirectory α) (sender : String) : Prop :=
  ∃ entry, operatorMap.entryOf sender = some entry ∧ entry.complete = true

theorem entryOf_connectAll {operatorMap : LocalPOpDirectory α} {sender : String} {entry : LocalPOpDirectoryEntry α}
    (found : operatorMap.entryOf sender = some entry) (connections : List (POpConnection α)) :
    (POpActor.connectAll operatorMap connections : _ × List (Event β)).1.entryOf sender = some entry := by
  induction connections generalizing operatorMap with
  | nil => exact found
  | cons element connections ih =>
    have inserted := ih (operatorMap.entryOf_insert found ⟨element.name,element.actorHandle,
        element.connectionType,false⟩)
    rw [POpActor.connectAll]
    split
    next => exact inserted
    next => exact inserted

theorem marks_connectAll (operatorMap : LocalPOpDirectory α) (connections : List (POpConnection α)) :
    marks (POpActor.connectAll operatorMap connections : _ × List (Event β)).2 = [] ∧
      handed (POpActor.connectAll operatorMap connections : _ × List (Event β)).2 = ([] : List (Envelope α β)) := by
  induction connections generalizing operatorMap with
  | nil => exact ⟨rfl,rfl⟩
  | cons element connections ih =>
    have rest := ih (operatorMap.insert ⟨element.name,element.actorHandle,element.connectionType,false⟩).1
    rw [POpActor.connectAll]
    split
    next => exact rest
    next => exact rest

theorem answer_awaited {operatorMap : LocalPOpDirectory α} {sender : String} (awaits : Awaits operatorMap sender) :
    answer (β := β) operatorMap (.complete sender) =
      ((operatorMap.setComplete sender).1,[.setComplete sender,.received (.complete sender)]) := by
  obtain ⟨entry,found,open'⟩ := awaits
  have completed := operatorMap.setComplete_of_awaited found open'
  rw [answer,completed]

theorem answer_refused {operatorMap : LocalPOpDirectory α} {sender : String} (refused : ¬Awaits operatorMap sender) :
    ∃ message, answer (β := β) operatorMap (.complete sender) = (operatorMap,[.notifyError message]) := by
  have failed : ∀ done, (operatorMap.setComplete sender).2 ≠ .ok done := fun done completed =>
    refused (operatorMap.awaited_of_setComplete completed)
  cases result : (operatorMap.setComplete sender).2 with
  | ok done => exact absurd result (failed done)
  | error message =>
    rw [answer,result]
    exact ⟨message,rfl⟩

theorem Knows.setComplete {operatorMap : LocalPOpDirectory α} {sender : String} (knows : Knows operatorMap sender)
    (name : String) : Knows (operatorMap.setComplete name).1 sender := by
  obtain ⟨entry,found,complete⟩ := knows
  unfold Knows
  rw [operatorMap.entryOf_setComplete,found]
  split
  next marked => exact ⟨{entry with complete := true},rfl,rfl⟩
  next other => exact ⟨entry,rfl,complete⟩

theorem Knows.reaction {operatorMap : LocalPOpDirectory α} {sender : String} (knows : Knows operatorMap sender)
    (envelope : Envelope α β) :
    Knows (reaction operatorMap envelope).1 sender ∧ sender ∉ marks (reaction operatorMap envelope).2 := by
  cases envelope with
  | connect connections =>
    obtain ⟨entry,found,complete⟩ := knows
    refine ⟨⟨entry,entryOf_connectAll found connections,complete⟩,?_⟩
    rw [Operators.reaction,(marks_connectAll operatorMap connections).1]
    exact List.not_mem_nil
  | start => exact ⟨knows,List.not_mem_nil⟩
  | stop => exact ⟨knows,List.not_mem_nil⟩
  | waiting message =>
    rw [Operators.reaction]
    cases message with
    | content name content => exact ⟨knows,List.not_mem_nil⟩
    | complete name =>
      by_cases awaits : Awaits operatorMap name
      · rw [answer_awaited awaits]
        refine ⟨knows.setComplete name,?_⟩
        intro marked
        have same : sender = name := by simpa [marks] using marked
        obtain ⟨entry,found,complete⟩ := knows
        obtain ⟨other,there,incomplete⟩ := awaits
        rw [← same,found,Option.some.injEq] at there
        rw [there,incomplete] at complete
        cases complete
      · obtain ⟨message,error⟩ := answer_refused (β := β) awaits
        rw [error]
        exact ⟨knows,List.not_mem_nil⟩

theorem marks_append (log more : List (Event β)) : marks (log ++ more) = marks log ++ marks more :=
  List.filterMap_append

theorem handed_append (log more : List (Event β)) :
    handed (log ++ more) = (handed log ++ handed more : List (Envelope α β)) :=
  List.filterMap_append

theorem completes_append (envelopes more : List (Envelope α β)) :
    completes (envelopes ++ more) = completes envelopes ++ completes more :=
  List.filterMap_append

theorem reaction_marks (operatorMap : LocalPOpDirectory α) (envelope : Envelope α β) :
    (marks (reaction operatorMap envelope).2).Nodup ∧
      ∀ sender ∈ marks (reaction operatorMap envelope).2, Knows (reaction operatorMap envelope).1 sender := by
  cases envelope with
  | connect connections =>
    rw [reaction,(marks_connectAll operatorMap connections).1]
    exact ⟨List.nodup_nil,fun sender marked => absurd marked List.not_mem_nil⟩
  | start => exact ⟨List.nodup_nil,fun sender marked => absurd marked List.not_mem_nil⟩
  | stop => exact ⟨List.nodup_nil,fun sender marked => absurd marked List.not_mem_nil⟩
  | waiting message =>
    rw [reaction]
    cases message with
    | content name content => exact ⟨List.nodup_nil,fun sender marked => absurd marked List.not_mem_nil⟩
    | complete name =>
      by_cases awaits : Awaits operatorMap name
      · rw [answer_awaited awaits]
        refine ⟨List.nodup_singleton name,?_⟩
        intro sender marked
        have same : sender = name := by simpa [marks] using marked
        obtain ⟨entry,found,incomplete⟩ := awaits
        have completed := operatorMap.setComplete_of_awaited found incomplete
        refine ⟨{entry with complete := true},?_,rfl⟩
        rw [operatorMap.entryOf_setComplete,same,found,if_pos ⟨rfl,completed⟩]
        rfl
      · obtain ⟨message,error⟩ := answer_refused (β := β) awaits
        rw [error]
        exact ⟨List.nodup_nil,fun sender marked => absurd marked List.not_mem_nil⟩

theorem reactions_marks (operatorMap : LocalPOpDirectory α) (envelopes : List (Envelope α β)) :
    (marks (reactions operatorMap envelopes).2).Nodup ∧
      ∀ sender, Knows operatorMap sender → sender ∉ marks (reactions operatorMap envelopes).2 := by
  induction envelopes generalizing operatorMap with
  | nil => exact ⟨List.nodup_nil,fun sender _ => List.not_mem_nil⟩
  | cons envelope envelopes ih =>
    obtain ⟨once,known⟩ := reaction_marks operatorMap envelope
    obtain ⟨later,fresh⟩ := ih (reaction operatorMap envelope).1
    rw [reactions,marks_append]
    refine ⟨once.append later ?_,?_⟩
    · intro sender marked again
      exact fresh sender (known sender marked) again
    · intro sender knows
      obtain ⟨still,unmarked⟩ := knows.reaction envelope
      rw [List.mem_append,not_or]
      exact ⟨unmarked,fresh sender still⟩

theorem Awaits.reaction {operatorMap : LocalPOpDirectory α} {sender : String} (awaits : Awaits operatorMap sender)
    {envelope : Envelope α β} (other : sender ∉ completes [envelope]) :
    Awaits (reaction operatorMap envelope).1 sender := by
  obtain ⟨entry,found,incomplete⟩ := awaits
  cases envelope with
  | connect connections => exact ⟨entry,entryOf_connectAll found connections,incomplete⟩
  | start => exact ⟨entry,found,incomplete⟩
  | stop => exact ⟨entry,found,incomplete⟩
  | waiting message =>
    rw [Operators.reaction]
    cases message with
    | content name content => exact ⟨entry,found,incomplete⟩
    | complete name =>
      have differ : name ≠ sender := by
        intro same
        exact other (by simp [completes,same])
      by_cases there : Awaits operatorMap name
      · rw [answer_awaited there]
        refine ⟨entry,?_,incomplete⟩
        rw [operatorMap.entryOf_setComplete,if_neg fun both => differ both.1]
        exact found
      · obtain ⟨message,error⟩ := answer_refused (β := β) there
        rw [error]
        exact ⟨entry,found,incomplete⟩

/-- Where every COMPLETE comes from an awaited producer of its own, the operator gets
everything in the order of arrival, and the marks are the senders in that order. -/
theorem reactions_all (operatorMap : LocalPOpDirectory α) (envelopes : List (Envelope α β))
    (distinct : (completes envelopes).Nodup) (awaited : ∀ sender ∈ completes envelopes, Awaits operatorMap sender) :
    handed (reactions operatorMap envelopes).2 = arrived envelopes ∧
      marks (reactions operatorMap envelopes).2 = completes envelopes := by
  induction envelopes generalizing operatorMap with
  | nil => exact ⟨rfl,rfl⟩
  | cons envelope envelopes ih =>
    have split : completes (envelope::envelopes) = completes [envelope] ++ completes envelopes :=
      completes_append [envelope] envelopes
    rw [split] at distinct awaited
    obtain ⟨_,later,apart⟩ := List.nodup_append.mp distinct
    obtain ⟨rest,marked⟩ := ih (reaction operatorMap envelope).1 later fun sender inside =>
      (awaited sender (List.mem_append_right _ inside)).reaction fun here => apart sender here sender inside rfl
    have first : handed (reaction operatorMap envelope).2 = arrived [envelope] ∧
        marks (reaction operatorMap envelope).2 = completes [envelope] := by
      cases envelope with
      | connect connections => exact (marks_connectAll operatorMap connections).symm
      | start => exact ⟨rfl,rfl⟩
      | stop => exact ⟨rfl,rfl⟩
      | waiting message =>
        cases message with
        | content name content => exact ⟨rfl,rfl⟩
        | complete name =>
          rw [reaction,answer_awaited (awaited name (by simp [completes]))]
          exact ⟨rfl,rfl⟩
    rw [reactions,handed_append,marks_append,rest,marked,first.1,first.2,split]
    exact ⟨(List.filter_append [envelope] envelopes).symm,rfl⟩

theorem completes_start (envelopes : List (Envelope α β)) : completes (.start::envelopes) = completes envelopes := rfl

theorem completes_waiting (envelopes : List (Envelope α β)) :
    completes ((waiting envelopes).map .waiting : List (Envelope α β)) = completes envelopes := by
  rw [completes,waiting,List.filterMap_map,List.filterMap_filterMap]
  apply List.filterMap_congr
  intro envelope inside
  cases envelope with
  | waiting message => rfl
  | connect connections => rfl
  | start => rfl
  | stop => rfl

theorem completes_connects (envelopes : List (Envelope α β)) : completes (connects envelopes) = [] := by
  rw [completes,List.filterMap_eq_nil_iff]
  intro envelope inside
  cases envelope with
  | connect connections => rfl
  | start => rfl
  | stop => rfl
  | waiting message => simp [connects] at inside

theorem arrived_connects (envelopes : List (Envelope α β)) : arrived (connects envelopes) = [] := by
  rw [arrived,List.filter_eq_nil_iff]
  intro envelope inside
  cases envelope with
  | connect connections => exact Bool.false_ne_true
  | start => simp [connects] at inside
  | stop => simp [connects] at inside
  | waiting message => simp [connects] at inside

/-- Messages that come before START count as if they came right after it, in their order.
No sender is marked twice. Where every COMPLETE comes from a connected producer of its
own, the operator gets START, then everything else in the order of arrival. -/
theorem early_messages_delayed (before after : List (Envelope α β))
    (early : ∀ envelope ∈ before, envelope ≠ .start ∧ envelope ≠ .stop) (goes : ∀ envelope ∈ after, envelope ≠ .stop) :
    (POpActor.run (before ++ .start::after)).log =
        (reactions .make (connects before ++ .start::((waiting before).map .waiting ++ after))).2 ∧
      (marks (POpActor.run (before ++ .start::after)).log).Nodup ∧
      ((completes (before ++ after)).Nodup →
        (∀ sender ∈ completes (before ++ after), Awaits (reactions .make (connects before)).1 sender) →
        handed (POpActor.run (before ++ .start::after)).log =
            .start::((waiting before).map .waiting ++ arrived after) ∧
          marks (POpActor.run (before ++ .start::after)).log = completes (before ++ after)) := by
  have whole := POpActor.run_log before after early goes
  refine ⟨whole,?_,?_⟩
  · rw [whole]
    exact (reactions_marks .make _).1
  · intro distinct awaited
    have senders : completes (before ++ after) =
        completes (.start::((waiting before).map .waiting ++ after) : List (Envelope α β)) := by
      rw [completes_append,completes_start,completes_append,completes_waiting]
    rw [senders] at distinct awaited ⊢
    obtain ⟨all,marked⟩ := reactions_all _ _ distinct awaited
    obtain ⟨none,unmarked⟩ := reactions_all (β := β) .make (connects before) (by rw [completes_connects]; exact .nil)
      (by rw [completes_connects]; exact fun sender inside => absurd inside List.not_mem_nil)
    rw [whole,reactions_append,handed_append,marks_append,none,unmarked,all,marked,arrived_connects,completes_connects]
    simp [arrived,List.filter_append]

/-- A tuple and a COMPLETE before START, another tuple after it. -/
theorem scan_before_start :
    handed (POpActor.run ([.connect [⟨"scan",(),.producer⟩],.waiting (.content "scan" 1),.waiting (.complete "scan")] ++
        .start::[.waiting (.content "load" 2)]) : POpActor Unit Nat).log =
      ([.start,.waiting (.content "scan" 1),.waiting (.complete "scan"),.waiting (.content "load" 2)] :
        List (Envelope Unit Nat)) := by
  have delayed := early_messages_delayed (α := Unit)
    [.connect [⟨"scan",(),.producer⟩],.waiting (.content "scan" 1),.waiting (.complete "scan")]
    [.waiting (.content "load" 2)] (by simp) (by simp)
  refine (delayed.2.2 (by decide) ?_).1
  intro sender inside
  rw [show sender = "scan" by simpa [completes] using inside]
  exact ⟨⟨"scan",(),.producer,false⟩,by decide,rfl⟩

/-- A COMPLETE of an operator that was never connected reaches the directory as an
error and the operator not at all. -/
theorem unknown_complete_refused :
    (POpActor.run ([.waiting (.complete "scan")] ++ [.start]) : POpActor Unit Nat).log =
        [.receivedStart,.notifyError "No entry for actor 'scan'"] ∧
      handed (POpActor.run ([.waiting (.complete "scan")] ++ [.start]) : POpActor Unit Nat).log =
        ([.start] : List (Envelope Unit Nat)) := by
  decide

end Hermes.Operators
