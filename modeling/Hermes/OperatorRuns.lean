import Hermes.OperatorContract

/-! An operator's actor among the others of a query: what it has done when it has heard some of what they send is
what the operator does about these messages after START, whenever CONNECT and START came. -/
namespace Hermes.Executor
open Hermes.Operators Hermes.Library.Network
open Hermes.Serialization (Values PhysicalOp)
open Hermes.Transform (WellFormed)
variable {V : Values} {γ : Type}

structure Wired (plan : List (PhysicalOp V)) : Prop where
  wellFormed : WellFormed plan
  sets : ∀ pOp ∈ plan, pOp.producers.Nodup ∧ pOp.consumers.Nodup

section
variable {behaviour : Behaviour γ}

theorem receive_waiting (actor : Actor behaviour) (running : actor.running = true) (message : Waiting γ) :
    actor.receive (.waiting message) = {actor with process := actor.process.receive behaviour.onReceive message} := by
  rw [Actor.receive]
  by_cases gone : actor.process.fault.isSome
  · rw [if_pos gone,Process.receive.eq_def,if_pos gone]
  · rw [if_neg gone]
    exact if_pos running

theorem handle_running (actor : Actor behaviour) (running : actor.running = true) (message : Waiting γ) :
    actor.handle message = {actor with process := actor.process.receive behaviour.onReceive message} := if_pos running

theorem replay_all (actor : Actor behaviour) (running : actor.running = true) :
    actor.replay actor.buffer.length =
      {actor with buffer := [], process := Process.run behaviour.onReceive actor.process actor.buffer} := by
  obtain ⟨isRunning,buffer,process⟩ := actor
  change isRunning = true at running
  subst running
  induction buffer generalizing process with
  | nil => rfl
  | cons item buffer ih =>
    rw [List.length_cons,Actor.replay]
    dsimp only
    rw [handle_running _ rfl]
    exact ih _

end

theorem connect_fresh {connections : List (POpConnection Unit)} {ctx : POpContext Unit γ}
    (unique : (connections.map (·.name)).Nodup)
    (fresh : ∀ element ∈ connections, element.name ∉ ctx.operatorMap.entries.map (·.name)) :
    connections.foldl Actor.connect ctx = {ctx with operatorMap := connections.foldl (fun directory element =>
      (directory.insert ⟨element.name,element.actorHandle,element.connectionType,false⟩).1) ctx.operatorMap} := by
  induction connections generalizing ctx with
  | nil => rfl
  | cons element connections ih =>
    obtain ⟨new,unique⟩ := List.nodup_cons.mp unique
    have inserted : (ctx.operatorMap.insert ⟨element.name,element.actorHandle,element.connectionType,false⟩).2 =
        .ok () := by
      unfold LocalPOpDirectory.insert
      rw [find_eq_none.mpr (fresh element List.mem_cons_self)]
      cases element.connectionType with
      | producer => rfl
      | consumer => rfl
    have connected : Actor.connect ctx element = {ctx with operatorMap :=
        (ctx.operatorMap.insert ⟨element.name,element.actorHandle,element.connectionType,false⟩).1} := by
      rw [Actor.connect]
      simp only [inserted]
    rw [List.foldl_cons,List.foldl_cons,connected]
    refine ih unique ?_
    intro later inside
    rw [mem_names_insert,not_or]
    refine ⟨?_,fresh later (List.mem_cons_of_mem _ inside)⟩
    intro same
    exact new (List.mem_map.mpr ⟨later,inside,same⟩)

namespace Execution
variable (execution : Execution V γ) (traffic : Traffic γ)

/-- What the actors of a query send to one another. -/
def agreement : Agreement (Party execution.physicalPlan.length) (Mail γ) where
  allowed
    | .start,.operator i,mails => mails <+: [.connect (connections (execution.op i)),.start]
    | .operator i,.operator j,mails => mails = [] ∨ (execution.op j).name ∈ (execution.op i).consumers ∧
        Channel (traffic.carries (execution.op i).name (execution.op j).name) (execution.op i).name mails
    | .operator i,.join,mails => mails <+: [.waiting (.complete (execution.op i).name)]
    | _,_,mails => mails = []
  silent sender recipient := by
    cases sender with
    | start => cases recipient with
      | operator i => exact List.nil_prefix
      | start => rfl
      | join => rfl
    | operator i => cases recipient with
      | operator j => exact .inl rfl
      | join => exact List.nil_prefix
      | start => rfl
    | join => rfl
  sooner sender recipient mails more sooner allowed := by
    cases sender with
    | start => cases recipient with
      | operator i => exact sooner.trans allowed
      | start => exact List.prefix_nil.mp (allowed ▸ sooner)
      | join => exact List.prefix_nil.mp (allowed ▸ sooner)
    | operator i => cases recipient with
      | operator j =>
        rcases allowed with none | ⟨consumer,channel⟩
        · exact .inl (List.prefix_nil.mp (none ▸ sooner))
        · exact .inr ⟨consumer,channel.sooner (traffic.sooner _ _) sooner⟩
      | join => exact sooner.trans allowed
      | start => exact List.prefix_nil.mp (allowed ▸ sooner)
    | join => exact List.prefix_nil.mp (allowed ▸ sooner)

variable {execution} {traffic} {i j : Fin execution.physicalPlan.length}
  {history : List (Party execution.physicalPlan.length × Mail γ)}

theorem op_mem (i : Fin execution.physicalPlan.length) : execution.op i ∈ execution.physicalPlan := List.getElem_mem _

section Wiring
variable (wired : Wired execution.physicalPlan)
include wired

theorem op_name_inj (same : (execution.op i).name = (execution.op j).name) : i = j := by
  have bound : ∀ k : Fin execution.physicalPlan.length,
      k.val < (execution.physicalPlan.map fun pOp => pOp.name).length := by
    intro k
    rw [List.length_map]
    exact k.isLt
  have equal := (@List.Nodup.getElem_inj_iff _ _ wired.wellFormed.names i (bound i) j (bound j)).mp
      (by simpa [op] using same)
  exact Fin.ext equal

theorem exists_op {name : String} (inside : name ∈ (execution.op i).consumers ++ (execution.op i).producers) :
    ∃ j : Fin execution.physicalPlan.length, (execution.op j).name = name := by
  obtain ⟨other,there,named⟩ := wired.wellFormed.known _ (op_mem i) name inside
  obtain ⟨j,bound,rfl⟩ := List.mem_iff_getElem.mp there
  exact ⟨⟨j,bound⟩,named⟩

theorem consumer_iff : (execution.op j).name ∈ (execution.op i).consumers ↔
    (execution.op i).name ∈ (execution.op j).producers :=
  wired.wellFormed.bothSides _ (op_mem i) _ (op_mem j)

theorem producer_not_consumer {name : String} (producer : name ∈ (execution.op i).producers) :
    name ∉ (execution.op i).consumers := by
  intro consumer
  obtain ⟨j,rfl⟩ := exists_op wired (List.mem_append_left _ consumer)
  refine wired.wellFormed.acyclic (execution.op i).name (.tail (.single ⟨_,op_mem i,rfl,consumer⟩) ⟨_,op_mem j,rfl,?_⟩)
  exact (consumer_iff wired).mpr producer

end Wiring

def context (execution : Execution V γ) (i : Fin execution.physicalPlan.length) : POpContext Unit γ :=
  (connections (execution.op i)).foldl Actor.connect ⟨i,(execution.op i).name,.make,false,[]⟩

/-- Whom an operator knows by then. -/
def operatorMap (pOp : PhysicalOp V) : LocalPOpDirectory Unit :=
  pOp.consumers.foldl (fun (directory : LocalPOpDirectory Unit) name => (directory.insert ⟨name,(),.consumer,false⟩).1)
    (pOp.producers.foldl (fun (directory : LocalPOpDirectory Unit) name => (directory.insert ⟨name,(),.producer,false⟩).1)
      LocalPOpDirectory.make)

theorem context_eq (wired : Wired execution.physicalPlan) (i : Fin execution.physicalPlan.length) :
    execution.context i = ⟨i,(execution.op i).name,operatorMap (execution.op i),false,[]⟩ := by
  obtain ⟨producersOnce,consumersOnce⟩ := wired.sets _ (op_mem i)
  have names : (connections (execution.op i)).map (·.name) = (execution.op i).producers ++
      (execution.op i).consumers := by
    simp [connections,Function.comp_def]
  have unique : ((connections (execution.op i)).map (·.name)).Nodup := by
    rw [names,List.nodup_append]
    refine ⟨producersOnce,consumersOnce,?_⟩
    rintro name producer _ consumer rfl
    exact producer_not_consumer wired producer consumer
  rw [context,connect_fresh unique fun element _ => List.not_mem_nil,connections,List.foldl_append,List.foldl_map,
    List.foldl_map]
  rfl

theorem connected_context (wired : Wired execution.physicalPlan) (i : Fin execution.physicalPlan.length) :
    Connected (execution.op i) (execution.context i) := by
  obtain ⟨producersOnce,consumersOnce⟩ := wired.sets _ (op_mem i)
  have producing := @awaiting_producers Unit String id () (execution.op i).producers _ _ LocalPOpDirectory.awaiting_make
    (by simpa using producersOnce) fun name _ => List.not_mem_nil
  have consuming := @awaiting_consumers Unit String id () (execution.op i).consumers _ _ producing
    (by simpa using consumersOnce) (by
      intro name inside
      rw [mem_names_connect,not_or]
      rw [List.map_id] at inside ⊢
      exact ⟨fun producer => producer_not_consumer wired producer inside,List.not_mem_nil⟩)
  rw [context_eq wired]
  refine ⟨rfl,rfl,rfl,?_,?_⟩
  · simp only [List.map_id,or_false,id] at consuming
    exact consuming
  · intro consumer inside
    rw [entryOf_isSome]
    exact (@mem_names_connect Unit String id () .consumer _ _ _).mpr (.inl (by rwa [List.map_id]))

/-- An operator's actor after what `start` has sent so far and the messages so far. -/
def actorAfter (execution : Execution V γ) (i : Fin execution.physicalPlan.length) (fromStart : List (Mail γ))
    (messages : List (Waiting γ)) : Actor (execution.behaviour (execution.op i)) :=
  match fromStart with
  | [] => {Actor.make _ i (execution.op i).name with buffer := messages}
  | [_] => ⟨false,messages,(execution.behaviour (execution.op i)).create,execution.context i,none⟩
  | _::_::_ => ⟨true,[],(execution.behaviour (execution.op i)).run (execution.context i) messages⟩

theorem actorAfter_message (fromStart : List (Mail γ)) (messages : List (Waiting γ)) (message : Waiting γ) :
    (execution.actorAfter i fromStart messages).receive (.waiting message) =
      execution.actorAfter i fromStart (messages ++ [message]) := by
  cases fromStart with
  | nil => rfl
  | cons mail fromStart =>
    cases fromStart with
    | nil => rfl
    | cons other fromStart =>
      rw [receive_waiting _ rfl]
      unfold actorAfter Behaviour.run
      rw [Process.run_snoc]

theorem actorAfter_connect (messages : List (Waiting γ)) :
    (execution.actorAfter i [] messages).receive (.connect (connections (execution.op i))) =
      execution.actorAfter i [.connect (connections (execution.op i))] messages := rfl

theorem actorAfter_start (mail : Mail γ) (messages : List (Waiting γ)) :
    (execution.actorAfter i [mail] messages).receive .start = execution.actorAfter i [mail,.start] messages :=
  replay_all _ rfl

theorem snoc_prefix_pair {α : Type} {front : List α} {last first second : α}
    (short : front ++ [last] <+: [first,second]) :
    front = [] ∧ last = first ∨ front = [first] ∧ last = second := by
  obtain ⟨rest,same⟩ := short
  cases front with
  | nil => exact .inl ⟨rfl,(List.cons.inj same).1⟩
  | cons head front =>
    obtain ⟨rfl,later⟩ := List.cons.inj same
    cases front with
    | nil => exact .inr ⟨rfl,(List.cons.inj later).1⟩
    | cons other front =>
      obtain ⟨_,none⟩ := List.cons.inj later
      simp at none

def messagesOf (history : List (Party execution.physicalPlan.length × Mail γ)) : List (Waiting γ) :=
  waitings (history.map Prod.snd)

theorem messagesOf_snoc (sender : Party execution.physicalPlan.length) (mail : Mail γ) :
    messagesOf (history ++ [(sender,mail)]) = messagesOf history ++ waitings [mail] := by
  rw [messagesOf,List.map_append,waitings,List.filterMap_append]
  rfl

theorem proper_init {party sender : Party execution.physicalPlan.length} {mail : Mail γ}
    (proper : (execution.agreement traffic).Proper party (history ++ [(sender,mail)])) :
    (execution.agreement traffic).Proper party history := by
  intro other
  refine (execution.agreement traffic).sooner _ _ _ _ ?_ (proper other)
  rw [heardFrom_snoc]
  exact List.prefix_append _ _

theorem proper_sender (proper : (execution.agreement traffic).Proper (.operator i) history)
    {sender : Party execution.physicalPlan.length} {mail : Mail γ} (inside : (sender,mail) ∈ history) :
    sender = .start ∨ ∃ j message, sender = .operator j ∧ mail = .waiting message ∧
      message.sender = (execution.op j).name ∧ (execution.op i).name ∈ (execution.op j).consumers ∧
      Channel (traffic.carries (execution.op j).name (execution.op i).name) (execution.op j).name
        (heardFrom (.operator j) history) := by
  have heard := mem_heardFrom.mpr inside
  have allowed := proper sender
  cases sender with
  | start => exact .inl rfl
  | operator j =>
    rcases allowed with none | ⟨consumer,channel⟩
    · rw [none] at heard
      exact absurd heard List.not_mem_nil
    · obtain ⟨message,same,named⟩ := channel.senders heard
      exact .inr ⟨j,message,rfl,same,named,consumer,channel⟩
  | join =>
    have none : heardFrom .join history = [] := allowed
    rw [none] at heard
    exact absurd heard List.not_mem_nil

theorem operator_after (proper : (execution.agreement traffic).Proper (.operator i) history) :
    after execution.nodes (.operator i) history =
      execution.actorAfter i (heardFrom .start history) (messagesOf history) := by
  induction history using List.reverseRecOn with
  | nil => rfl
  | append_singleton history heard ih =>
    obtain ⟨sender,mail⟩ := heard
    rw [after_snoc,ih (proper_init proper),messagesOf_snoc,heardFrom_snoc]
    rcases proper_sender proper (List.mem_append_right _ List.mem_cons_self) with rfl | ⟨j,message,rfl,rfl,_⟩
    · have early : heardFrom .start (history ++ [(.start,mail)]) <+: [.connect (connections (execution.op i)),.start] :=
        proper .start
      rw [heardFrom_snoc,if_pos rfl] at early
      rcases snoc_prefix_pair early with ⟨none,rfl⟩ | ⟨one,rfl⟩
      · rw [none,waitings]
        exact (actorAfter_connect _).trans (by simp)
      · rw [one,waitings]
        exact (actorAfter_start _ _).trans (by simp)
    · rw [if_neg (by simp),List.append_nil]
      exact actorAfter_message _ _ message

theorem messagesOf_filter (wired : Wired execution.physicalPlan)
    (proper : (execution.agreement traffic).Proper (.operator i) history) (j : Fin execution.physicalPlan.length) :
    (messagesOf history).filter (fun message => message.sender = (execution.op j).name) =
      waitings (heardFrom (.operator j) history) := by
  induction history using List.reverseRecOn with
  | nil => rfl
  | append_singleton history heard ih =>
    obtain ⟨sender,mail⟩ := heard
    rw [messagesOf_snoc,List.filter_append,ih (proper_init proper),heardFrom_snoc]
    rcases proper_sender proper (List.mem_append_right _ List.mem_cons_self) with rfl | ⟨k,message,rfl,rfl,named,_⟩
    · have early : heardFrom .start (history ++ [(.start,mail)]) <+: [.connect (connections (execution.op i)),.start] :=
        proper .start
      rw [heardFrom_snoc,if_pos rfl] at early
      rw [if_neg (by simp),List.append_nil]
      rcases snoc_prefix_pair early with ⟨_,rfl⟩ | ⟨_,rfl⟩
      · exact List.append_nil _
      · exact List.append_nil _
    · by_cases same : k = j
      · subst same
        rw [if_pos rfl]
        simp [waitings,named]
      · have differ : message.sender ≠ (execution.op j).name :=
            fun equal => same (op_name_inj wired (named.symm.trans equal))
        have other : Party.operator k ≠ Party.operator j := fun equal => same (Party.operator.inj equal)
        rw [if_neg other,List.append_nil]
        simp [waitings,differ]

theorem mem_messagesOf (proper : (execution.agreement traffic).Proper (.operator i) history) {message : Waiting γ}
    (inside : message ∈ messagesOf history) : ∃ j, message.sender = (execution.op j).name ∧
      (execution.op i).name ∈ (execution.op j).consumers := by
  obtain ⟨mail,there,same⟩ := List.mem_filterMap.mp inside
  obtain ⟨⟨sender,_⟩,heard,rfl⟩ := List.mem_map.mp there
  rcases proper_sender proper heard with rfl | ⟨j,other,rfl,rfl,named,consumer,_⟩
  · have early : heardFrom .start history <+: [.connect (connections (execution.op i)),.start] := proper .start
    rcases List.mem_cons.mp (early.mem (mem_heardFrom.mpr heard)) with rfl | later
    · cases same
    · rw [List.mem_singleton.mp later] at same
      cases same
  · rw [← Option.some.inj same]
    exact ⟨j,named,consumer⟩

section Messages
variable (wired : Wired execution.physicalPlan) (proper : (execution.agreement traffic).Proper (.operator i) history)
include wired proper

theorem fromProducers_messagesOf : FromProducers (· ∈ (execution.op i).producers) (messagesOf history) where
  senders message inside := by
    obtain ⟨j,named,consumer⟩ := mem_messagesOf proper inside
    rw [named]
    exact (consumer_iff wired).mp consumer
  quiet := by
    rw [List.pairwise_iff_getElem]
    intro p q first second order sender complete same
    -- both are messages of one producer, on one channel
    obtain ⟨j,named,consumer⟩ := mem_messagesOf proper (List.getElem_mem second)
    have ordered : ((messagesOf history).filter fun message => message.sender = (execution.op j).name).Pairwise
        fun earlier _ => earlier ≠ .complete (execution.op j).name := by
      rw [messagesOf_filter wired proper]
      rcases proper (.operator j) with none | ⟨_,channel⟩
      · rw [none]
        exact List.Pairwise.nil
      · exact channel.ordered
    rw [List.pairwise_filter,List.pairwise_iff_getElem] at ordered
    have from' : (messagesOf history)[p].sender = (execution.op j).name := by
      rw [complete,← named,same]
      rfl
    refine ordered p q first second order (by simpa using from') (by simpa using named) ?_
    rw [complete,← named,same]

theorem contentsOf_messagesOf (j : Fin execution.physicalPlan.length) :
    contentsOf (execution.op j).name (messagesOf history) =
      contentsOf (execution.op j).name (waitings (heardFrom (.operator j) history)) := by
  rw [← messagesOf_filter wired proper,contentsOf,contentsOf,List.filterMap_filter]
  apply List.filterMap_congr
  intro message _
  cases message with
  | complete sender => simp
  | content sender content =>
    by_cases same : sender = (execution.op j).name
    · simp [Waiting.sender,same]
    · simp [Waiting.sender,same]

theorem carried_messagesOf {producer : String} (inside : producer ∈ (execution.op i).producers) :
    traffic.carries producer (execution.op i).name (contentsOf producer (messagesOf history)) := by
  obtain ⟨j,rfl⟩ := exists_op wired (List.mem_append_right _ inside)
  rw [contentsOf_messagesOf wired proper]
  rcases proper (.operator j) with none | ⟨_,channel⟩
  · rw [none]
    exact traffic.silent _ _
  · exact channel.contents

theorem complete_mem_messagesOf (j : Fin execution.physicalPlan.length) :
    .complete (execution.op j).name ∈ messagesOf history ↔
      .waiting (.complete (execution.op j).name) ∈ heardFrom (.operator j) history := by
  have filtered : .complete (execution.op j).name ∈ messagesOf history ↔ .complete (execution.op j).name ∈
      (messagesOf history).filter fun message => message.sender = (execution.op j).name := by
    simp [List.mem_filter,Waiting.sender]
  rw [filtered,messagesOf_filter wired proper,waitings,List.mem_filterMap]
  constructor
  · rintro ⟨mail,inside,same⟩
    cases mail with
    | waiting message =>
      rw [← Option.some.inj same]
      exact inside
    | connect connections => cases same
    | start => cases same
    | error sender content => cases same
  · exact fun inside => ⟨_,inside,rfl⟩

theorem finished_iff : Finished (· ∈ (execution.op i).producers) (messagesOf history) ↔
    ∀ j, (execution.op i).name ∈ (execution.op j).consumers →
      .waiting (.complete (execution.op j).name) ∈ heardFrom (.operator j) history := by
  constructor
  · intro finished j consumer
    exact (complete_mem_messagesOf wired proper j).mp (finished _ ((consumer_iff wired).mp consumer))
  · intro all producer inside
    obtain ⟨j,rfl⟩ := exists_op wired (List.mem_append_right _ inside)
    exact (complete_mem_messagesOf wired proper j).mpr (all j ((consumer_iff wired).mpr inside))

theorem operator_fulfils (obliging : Obliging traffic (execution.op i) (execution.behaviour (execution.op i))) :
    heardFrom .start history ≠ [.connect (connections (execution.op i)),.start] ∧
        (after execution.nodes (.operator i) history : Actor _).process.ctx.acts = [] ∧
        (after execution.nodes (.operator i) history : Actor _).process.fault = none ∨
      heardFrom .start history = [.connect (connections (execution.op i)),.start] ∧
        (after execution.nodes (.operator i) history : Actor _).process =
          (execution.behaviour (execution.op i)).run (execution.context i) (messagesOf history) ∧
        Fulfils traffic (execution.op i) (messagesOf history)
          (after execution.nodes (.operator i) history : Actor _).process := by
  have early : heardFrom .start history <+: [.connect (connections (execution.op i)),.start] := proper .start
  have connected := connected_context wired i
  rw [operator_after proper]
  generalize heardFrom .start history = fromStart at early ⊢
  rcases fromStart with _ | ⟨first,_ | ⟨second,more⟩⟩
  · exact .inl ⟨by simp,rfl,rfl⟩
  · exact .inl ⟨by simp,connected.silent,rfl⟩
  · refine .inr ⟨early.eq_of_length_le (by simp),rfl,?_⟩
    exact obliging _ connected _ (fromProducers_messagesOf wired proper) fun producer inside =>
      carried_messagesOf wired proper inside

end Messages

end Execution
end Hermes.Executor
