import Hermes.Execution
import Mathlib.Data.List.Infix

/-! What a plan relies on in each of its operators: from START on it neither faults nor reports an error, it tells
its consumers what they expect, and it completes when its producers have, once and as the last thing it does. What
it sends then has a simple shape. -/
namespace Hermes.Executor
open Hermes.Operators Hermes.Library.Network
open Hermes.Serialization (Values PhysicalOp)
variable {V : Values} {γ : Type}

/-- What the operators with these names may tell one another so far. -/
structure Traffic (γ : Type) where
  carries : String → String → List γ → Prop
  silent : ∀ producer consumer, carries producer consumer []
  sooner : ∀ producer consumer contents more, contents <+: more → carries producer consumer more →
    carries producer consumer contents

def Traffic.any : Traffic γ := ⟨fun _ _ _ => True,fun _ _ => trivial,fun _ _ _ _ _ _ => trivial⟩

/-- What one producer has told. -/
def contentsOf (producer : String) (messages : List (Waiting γ)) : List γ :=
  messages.filterMap fun message =>
    match message with
    | .content sender content => if sender = producer then some content else none
    | .complete _ => none

/-- What a consumer is told. -/
def contentsTo (consumer : String) (acts : List (Act γ)) : List γ :=
  acts.filterMap fun act =>
    match act with
    | .tell content => some content
    | .send recipientId content => if recipientId = consumer then some content else none
    | _ => none

structure Connected (pOp : PhysicalOp V) (ctx : POpContext Unit γ) : Prop where
  name : ctx.name = pOp.name
  incomplete : ctx.complete = false
  silent : ctx.acts = []
  awaiting : ctx.operatorMap.Awaiting (· ∈ pOp.producers)
  connected : ∀ consumer ∈ pOp.consumers, (ctx.operatorMap.entryOf consumer).isSome

def Behaviour.run (behaviour : Behaviour γ) (ctx : POpContext Unit γ) (messages : List (Waiting γ)) :
    Process behaviour.State Unit γ :=
  Process.run behaviour.onReceive (behaviour.onStart behaviour.create ctx) messages

structure Fulfils (traffic : Traffic γ) (pOp : PhysicalOp V) (messages : List (Waiting γ)) {σ : Type}
    (process : Process σ Unit γ) : Prop where
  alive : process.fault = none
  flawless : ∀ content, .notifyError content ∉ process.ctx.acts
  last : ∀ acts, .notifyComplete::acts <:+ process.ctx.acts → acts = []
  addressed : ∀ recipientId content, .send recipientId content ∈ process.ctx.acts → recipientId ∈ pOp.consumers
  completes : .notifyComplete ∈ process.ctx.acts ↔ Finished (· ∈ pOp.producers) messages
  carried : ∀ consumer ∈ pOp.consumers, traffic.carries pOp.name consumer (contentsTo consumer process.ctx.acts)

/-- Whatever its producers tell it, as long as they keep to the traffic. -/
def Obliging (traffic : Traffic γ) (pOp : PhysicalOp V) (behaviour : Behaviour γ) : Prop :=
  ∀ ctx, Connected pOp ctx → ∀ messages, FromProducers (· ∈ pOp.producers) messages →
    (∀ producer ∈ pOp.producers, traffic.carries producer pOp.name (contentsOf producer messages)) →
    Fulfils traffic pOp messages (behaviour.run ctx messages)

def tuples (own : String) (contents : List γ) :
    List (Mail γ) := contents.map fun content => .waiting (.content own content)

def Channel (carries : List γ → Prop) (own : String) (mails : List (Mail γ)) : Prop :=
  ∃ contents, carries contents ∧ (mails = tuples own contents ∨
    mails = tuples own contents ++ [.waiting (.complete own)])

section Outbox
variable {own name : String} {acts : List (Act γ)}

theorem outbox_append (flawless : ∀ content, .notifyError content ∉ acts) (isConsumer : Bool) (more : List (Act γ)) :
    outbox own isConsumer name (acts ++ more) = outbox own isConsumer name acts ++ outbox own isConsumer name more := by
  induction acts with
  | nil => rfl
  | cons act acts ih =>
    have later := ih fun content inside => flawless content (List.mem_cons_of_mem _ inside)
    cases act with
    | notifyError content => exact absurd List.mem_cons_self (flawless content)
    | tell content => simp [outbox,later]
    | send recipientId content => simp [outbox,later]
    | notifyComplete => simp [outbox,later]

theorem outbox_tuples (flawless : ∀ content, .notifyError content ∉ acts) (incomplete : .notifyComplete ∉ acts) :
    outbox own true name acts = tuples own (contentsTo name acts) := by
  induction acts with
  | nil => rfl
  | cons act acts ih =>
    have later := ih (fun content inside => flawless content (List.mem_cons_of_mem _ inside))
      fun inside => incomplete (List.mem_cons_of_mem _ inside)
    cases act with
    | notifyError content => exact absurd List.mem_cons_self (flawless content)
    | notifyComplete => exact absurd List.mem_cons_self incomplete
    | tell content => simp [outbox,later,delivered,tuples,contentsTo]
    | send recipientId content =>
      by_cases same : recipientId = name
      · simp [outbox,later,delivered,tuples,contentsTo,same]
      · simp [outbox,later,delivered,tuples,contentsTo,same]

theorem outbox_other (addressed : ∀ recipientId content, .send recipientId content ∈ acts → recipientId ≠ name) :
    outbox own false name acts = [] := by
  induction acts with
  | nil => rfl
  | cons act acts ih =>
    have later := ih fun recipientId content inside => addressed recipientId content (List.mem_cons_of_mem _ inside)
    cases act with
    | notifyError content => rfl
    | tell content => exact later
    | notifyComplete => exact later
    | send recipientId content =>
      have other := addressed recipientId content List.mem_cons_self
      simp [outbox,later,delivered,other]

theorem reports_append (flawless : ∀ content, .notifyError content ∉ acts) (more : List (Act γ)) :
    reports own (acts ++ more) = reports own acts ++ reports own more := by
  induction acts with
  | nil => rfl
  | cons act acts ih =>
    have later := ih fun content inside => flawless content (List.mem_cons_of_mem _ inside)
    cases act with
    | notifyError content => exact absurd List.mem_cons_self (flawless content)
    | tell content => simp [reports,later]
    | send recipientId content => simp [reports,later]
    | notifyComplete => simp [reports,later]

theorem reports_silent (flawless : ∀ content, .notifyError content ∉ acts) (incomplete : .notifyComplete ∉ acts) :
    reports own acts = [] := by
  induction acts with
  | nil => rfl
  | cons act acts ih =>
    have later := ih (fun content inside => flawless content (List.mem_cons_of_mem _ inside))
      fun inside => incomplete (List.mem_cons_of_mem _ inside)
    cases act with
    | notifyError content => exact absurd List.mem_cons_self (flawless content)
    | notifyComplete => exact absurd List.mem_cons_self incomplete
    | tell content => exact later
    | send recipientId content => exact later

end Outbox

namespace Fulfils
variable {traffic : Traffic γ} {pOp : PhysicalOp V} {messages : List (Waiting γ)} {σ : Type}
    {process : Process σ Unit γ}
  {consumer : String}

theorem shape (fulfils : Fulfils traffic pOp messages process) (complete : .notifyComplete ∈ process.ctx.acts) :
    ∃ acts, process.ctx.acts = acts ++ [.notifyComplete] ∧ .notifyComplete ∉ acts := by
  obtain ⟨acts,more,same,fresh⟩ := List.eq_append_cons_of_mem complete
  have none := fulfils.last more ⟨acts,same.symm⟩
  exact ⟨acts,none ▸ same,fresh⟩

theorem contentsTo_append (acts more : List (Act γ)) :
    contentsTo consumer (acts ++ more) = contentsTo consumer acts ++ contentsTo consumer more := List.filterMap_append

theorem channel (fulfils : Fulfils traffic pOp messages process) :
    .notifyComplete ∉ process.ctx.acts ∧ outbox pOp.name true consumer process.ctx.acts =
        tuples pOp.name (contentsTo consumer process.ctx.acts) ∨
      .notifyComplete ∈ process.ctx.acts ∧ outbox pOp.name true consumer process.ctx.acts =
        tuples pOp.name (contentsTo consumer process.ctx.acts) ++ [.waiting (.complete pOp.name)] := by
  by_cases complete : .notifyComplete ∈ process.ctx.acts
  · obtain ⟨acts,same,fresh⟩ := fulfils.shape complete
    have flawless : ∀ content, .notifyError content ∉ acts := fun content inside =>
      fulfils.flawless content (same ▸ List.mem_append_left _ inside)
    refine .inr ⟨complete,?_⟩
    rw [same,outbox_append flawless,outbox_tuples flawless fresh,contentsTo_append]
    simp [contentsTo,outbox,delivered]
  · exact .inl ⟨complete,outbox_tuples fulfils.flawless complete⟩

theorem quiet (fulfils : Fulfils traffic pOp messages process) (other : consumer ∉ pOp.consumers) :
    outbox pOp.name false consumer process.ctx.acts = [] := by
  apply outbox_other
  intro recipientId content inside same
  exact other (same ▸ fulfils.addressed recipientId content inside)

theorem reported (fulfils : Fulfils traffic pOp messages process) :
    .notifyComplete ∉ process.ctx.acts ∧ reports pOp.name process.ctx.acts = [] ∨
      .notifyComplete ∈ process.ctx.acts ∧ reports pOp.name process.ctx.acts = [.waiting (.complete pOp.name)] := by
  by_cases complete : .notifyComplete ∈ process.ctx.acts
  · obtain ⟨acts,same,fresh⟩ := fulfils.shape complete
    have flawless : ∀ content, .notifyError content ∉ acts := fun content inside =>
      fulfils.flawless content (same ▸ List.mem_append_left _ inside)
    refine .inr ⟨complete,?_⟩
    rw [same,reports_append flawless,reports_silent flawless fresh]
    rfl
  · exact .inl ⟨complete,reports_silent fulfils.flawless complete⟩

theorem eq_nil_of_suffix {α : Type} {front more : List α} {last : α} (fresh : last ∉ front)
    (suffix : last::more <:+ front ++ [last]) : more = [] := by
  obtain ⟨rest,same⟩ := suffix
  rcases List.eq_nil_or_concat more with none | ⟨before,other,rfl⟩
  · exact none
  · rw [List.concat_eq_append,← List.cons_append,← List.append_assoc] at same
    obtain ⟨here,_⟩ := List.append_inj' same rfl
    rw [← here] at fresh
    exact absurd (List.mem_append_right _ List.mem_cons_self) fresh

theorem of_acts (alive : process.fault = none) {told : List (Act γ)}
    (plain : ∀ act ∈ told, (∃ content, act = .tell content) ∨
      ∃ recipientId content, act = .send recipientId content ∧ recipientId ∈ pOp.consumers)
    (acts : ¬Finished (· ∈ pOp.producers) messages ∧ process.ctx.acts = told ∨
      Finished (· ∈ pOp.producers) messages ∧ process.ctx.acts = told ++ [.notifyComplete])
    (carried : ∀ consumer ∈ pOp.consumers, traffic.carries pOp.name consumer (contentsTo consumer told)) :
    Fulfils traffic pOp messages process := by
  have fresh : .notifyComplete ∉ told := by
    intro inside
    rcases plain _ inside with ⟨_,same⟩ | ⟨_,_,same,_⟩ <;> cases same
  have known : ∀ act ∈ process.ctx.acts, act = .notifyComplete ∨ act ∈ told := by
    intro act inside
    rcases acts with ⟨_,same⟩ | ⟨_,same⟩
    · exact .inr (same ▸ inside)
    · rw [same] at inside
      exact (List.mem_append.mp inside).symm.imp_left List.mem_singleton.mp
  refine ⟨alive,?_,?_,?_,?_,?_⟩
  · intro content inside
    rcases known _ inside with same | inside
    · cases same
    · rcases plain _ inside with ⟨_,same⟩ | ⟨_,_,same,_⟩ <;> cases same
  · intro more suffix
    rcases acts with ⟨_,same⟩ | ⟨_,same⟩
    · rw [same] at suffix
      exact absurd (suffix.mem List.mem_cons_self) fresh
    · rw [same] at suffix
      exact eq_nil_of_suffix fresh suffix
  · intro recipientId content inside
    rcases known _ inside with same | inside
    · cases same
    · rcases plain _ inside with ⟨_,same⟩ | ⟨_,_,same,consumer⟩
      · cases same
      · rw [(Act.send.inj same).1]
        exact consumer
  · rcases acts with ⟨unfinished,same⟩ | ⟨finished,same⟩
    · rw [same]
      exact iff_of_false fresh unfinished
    · rw [same]
      exact iff_of_true (List.mem_append_right _ List.mem_cons_self) finished
  · intro consumer inside
    rcases acts with ⟨_,same⟩ | ⟨_,same⟩
    · rw [same]
      exact carried consumer inside
    · rw [same,contentsTo_append]
      simpa [contentsTo] using carried consumer inside

end Fulfils

section Channels
variable {carries : List γ → Prop} {own : String} {mails more : List (Mail γ)}

theorem Channel.sooner (closed : ∀ contents more, contents <+: more → carries more → carries contents)
    (channel : Channel carries own more) (sooner : mails <+: more) : Channel carries own mails := by
  obtain ⟨contents,carried,rfl | rfl⟩ := channel
  · obtain ⟨fewer,short,rfl⟩ := List.prefix_map_iff.mp sooner
    exact ⟨fewer,closed _ _ short carried,.inl rfl⟩
  · rcases List.prefix_concat_iff.mp sooner with rfl | sooner
    · exact ⟨contents,carried,.inr rfl⟩
    · obtain ⟨fewer,short,rfl⟩ := List.prefix_map_iff.mp sooner
      exact ⟨fewer,closed _ _ short carried,.inl rfl⟩

/-- The messages of a channel, as the operator behind it gets them. -/
def waitings (mails : List (Mail γ)) : List (Waiting γ) :=
  mails.filterMap fun mail =>
    match mail with
    | .waiting message => some message
    | _ => none

theorem waitings_tuples (contents : List γ) : waitings (tuples own contents) = contents.map (Waiting.content own) := by
  rw [waitings,tuples,List.filterMap_map,← List.filterMap_eq_map]
  rfl

theorem contentsOf_tuples (contents : List γ) : contentsOf own (contents.map (Waiting.content own)) = contents := by
  rw [contentsOf,List.filterMap_map]
  simp

theorem contentsOf_channel (contents : List γ) :
    contentsOf own (waitings (tuples own contents ++ [.waiting (.complete own)])) = contents := by
  rw [waitings,List.filterMap_append,← waitings,waitings_tuples,contentsOf,List.filterMap_append,← contentsOf,
    contentsOf_tuples]
  simp

namespace Channel

theorem senders (channel : Channel carries own mails) {mail : Mail γ} (inside : mail ∈ mails) :
    ∃ message, mail = .waiting message ∧ message.sender = own := by
  obtain ⟨contents,_,rfl | rfl⟩ := channel
  · obtain ⟨content,_,rfl⟩ := List.mem_map.mp inside
    exact ⟨_,rfl,rfl⟩
  · rcases List.mem_append.mp inside with inside | inside
    · obtain ⟨content,_,rfl⟩ := List.mem_map.mp inside
      exact ⟨_,rfl,rfl⟩
    · exact ⟨_,List.mem_singleton.mp inside,rfl⟩

theorem ordered (channel : Channel carries own mails) :
    (waitings mails).Pairwise fun earlier _ => earlier ≠ .complete own := by
  obtain ⟨contents,_,rfl | rfl⟩ := channel
  · rw [waitings_tuples,List.pairwise_map]
    exact List.pairwise_of_forall (by simp)
  · rw [waitings,List.filterMap_append,← waitings,waitings_tuples,List.pairwise_append]
    refine ⟨?_,by simp,by simp⟩
    rw [List.pairwise_map]
    exact List.pairwise_of_forall (by simp)

theorem contents (channel : Channel carries own mails) : carries (contentsOf own (waitings mails)) := by
  obtain ⟨contents,carried,rfl | rfl⟩ := channel
  · rwa [waitings_tuples,contentsOf_tuples]
  · rwa [contentsOf_channel]

end Channel
end Channels
end Hermes.Executor
