import Hermes.Library.Transition
import Mathlib.Logic.Function.Basic
import Mathlib.Data.List.Infix

/-! Networks of nodes that answer to messages one at a time, joined by channels that
keep the order of what one node sends to another. Deliveries come in any order; once
none is left, every node has heard all that was sent to it. -/
namespace Hermes.Library.Network
open Hermes.Library.Transition

/-- `sent` is all that a node has sent to another one so far, in order. -/
structure Nodes (ι μ : Type) where
  State : ι → Type
  start : ∀ node, State node
  receive : ∀ node, State node → ι → μ → State node
  sent : ∀ node, State node → ι → List μ
  grows : ∀ node state sender message recipient,
    sent node state recipient <+: sent node (receive node state sender message) recipient

/-- The nodes, and how many messages of each channel, from sender to recipient, are delivered. -/
structure Configuration {ι μ : Type} (network : Nodes ι μ) where
  states : ∀ node, network.State node
  delivered : ι → ι → Nat

variable {ι μ : Type} [DecidableEq ι] {network : Nodes ι μ}

def initial (network : Nodes ι μ) : Configuration network := ⟨network.start,fun _ _ => 0⟩

namespace Configuration

/-- The next message of a channel. -/
def pending (configuration : Configuration network) (sender recipient : ι) : Option μ :=
  (network.sent sender (configuration.states sender) recipient)[configuration.delivered sender recipient]?

def deliver (configuration : Configuration network) (sender recipient : ι) (message : μ) : Configuration network where
  states := Function.update configuration.states recipient
    (network.receive recipient (configuration.states recipient) sender message)
  delivered := fun s r => configuration.delivered s r + if s = sender ∧ r = recipient then 1 else 0

/-- Nothing is on its way any more. -/
def Quiet (configuration : Configuration network) : Prop :=
    ∀ sender recipient, configuration.pending sender recipient = none

end Configuration

/-- The delivery of a channel's next message. -/
def Delivers (configuration : Configuration network) (channel : ι × ι) (next : Configuration network) : Prop :=
  ∃ message, configuration.pending channel.1 channel.2 = some message ∧
    next = configuration.deliver channel.1 channel.2 message

/-- The deliveries one after another, as far as there is something to deliver. -/
def replay (configuration : Configuration network) : List (ι × ι) → Option (Configuration network)
  | [] => some configuration
  | channel::channels =>
    match configuration.pending channel.1 channel.2 with
    | some message => replay (configuration.deliver channel.1 channel.2 message) channels
    | none => none

/-- A node after what it has heard. -/
def after (network : Nodes ι μ) (node : ι) (history : List (ι × μ)) : network.State node :=
  history.foldl (fun state heard => network.receive node state heard.1 heard.2) (network.start node)

def heardFrom (sender : ι) (history : List (ι × μ)) : List μ :=
  (history.filter fun heard => heard.1 = sender).map Prod.snd

omit [DecidableEq ι] in
theorem after_snoc (node : ι) (history : List (ι × μ)) (sender : ι) (message : μ) :
    after network node (history ++ [(sender,message)]) =
      network.receive node (after network node history) sender message := by
  rw [after,List.foldl_append]
  rfl

theorem heardFrom_snoc (sender other : ι) (history : List (ι × μ)) (message : μ) :
    heardFrom sender (history ++ [(other,message)]) =
      heardFrom sender history ++ if other = sender then [message] else [] := by
  rw [heardFrom,List.filter_append,List.map_append]
  by_cases same : other = sender <;> simp [same,heardFrom]

theorem eq_of_only {sender : ι} {history : List (ι × μ)}
    (only : ∀ other, other ≠ sender → heardFrom other history = []) :
    history = (heardFrom sender history).map (sender,·) := by
  have all : history.filter (fun heard => heard.1 = sender) = history := by
    rw [List.filter_eq_self]
    rintro ⟨other,message⟩ inside
    by_contra differ
    have member : message ∈ heardFrom other history :=
      List.mem_map.mpr ⟨(other,message),List.mem_filter.mpr ⟨inside,by simp⟩,rfl⟩
    rw [only other (by simpa using differ)] at member
    exact List.not_mem_nil member
  calc history = history.filter (fun heard => heard.1 = sender) := all.symm
    _ = (heardFrom sender history).map (sender,·) := by
      rw [heardFrom,List.map_map]
      refine (List.map_id _).symm.trans (List.map_congr_left ?_)
      rintro ⟨other,message⟩ inside
      have same : other = sender := by simpa using (List.mem_filter.mp inside).2
      rw [same]
      rfl

/-- The nodes have heard, channel by channel, what is delivered. -/
structure Heard (configuration : Configuration network) (histories : ι → List (ι × μ)) : Prop where
  states : ∀ node, configuration.states node = after network node (histories node)
  channels : ∀ sender recipient, heardFrom sender (histories recipient) =
    (network.sent sender (configuration.states sender) recipient).take (configuration.delivered sender recipient)
  bounded : ∀ sender recipient, configuration.delivered sender recipient ≤
    (network.sent sender (configuration.states sender) recipient).length

theorem Heard.start : Heard (initial network) fun _ => [] where
  states _ := rfl
  channels _ _ := rfl
  bounded _ _ := Nat.zero_le _

theorem deliver_recipient (configuration : Configuration network) (sender recipient : ι) (message : μ) :
    (configuration.deliver sender recipient message).states recipient =
      network.receive recipient (configuration.states recipient) sender message := Function.update_self _ _ _

theorem deliver_other (configuration : Configuration network) (sender : ι) {recipient node : ι}
    (differ : node ≠ recipient)
    (message : μ) : (configuration.deliver sender recipient message).states node = configuration.states node :=
  Function.update_of_ne differ _ _

theorem sent_deliver (configuration : Configuration network) (sender recipient : ι) (message : μ) (s r : ι) :
    network.sent s (configuration.states s) r <+:
      network.sent s ((configuration.deliver sender recipient message).states s) r := by
  by_cases self : s = recipient
  · subst self
    rw [deliver_recipient]
    exact network.grows s _ _ _ _
  · rw [deliver_other _ _ self]

theorem Heard.deliver {configuration : Configuration network} {histories : ι → List (ι × μ)}
    (heard : Heard configuration histories) {sender recipient : ι} {message : μ}
    (next : configuration.pending sender recipient = some message) :
    Heard (configuration.deliver sender recipient message)
      (Function.update histories recipient (histories recipient ++ [(sender,message)])) := by
  obtain ⟨bound,here⟩ := List.getElem?_eq_some_iff.mp next
  refine ⟨?_,?_,?_⟩
  · intro node
    by_cases self : node = recipient
    · subst self
      rw [deliver_recipient,Function.update_self,after_snoc,heard.states]
    · rw [deliver_other _ _ self,Function.update_of_ne self,heard.states]
  · intro s r
    obtain ⟨more,grown⟩ := sent_deliver configuration sender recipient message s r
    rw [← grown]
    by_cases channel : s = sender ∧ r = recipient
    · obtain ⟨rfl,rfl⟩ := channel
      rw [Function.update_self,heardFrom_snoc,heard.channels]
      simp only [Configuration.deliver,and_self,if_true]
      rw [List.take_append_of_le_length bound,List.take_succ_eq_append_getElem bound,here]
    · have same : heardFrom s (Function.update histories recipient (histories recipient ++ [(sender,message)]) r) =
          heardFrom s (histories r) := by
        by_cases self : r = recipient
        · subst self
          have differ : sender ≠ s := fun equal => channel ⟨equal.symm,rfl⟩
          rw [Function.update_self,heardFrom_snoc,if_neg differ,List.append_nil]
        · rw [Function.update_of_ne self]
      rw [same,heard.channels]
      simp only [Configuration.deliver,if_neg channel,Nat.add_zero]
      rw [List.take_append_of_le_length (heard.bounded s r)]
  · intro s r
    have grown := (sent_deliver configuration sender recipient message s r).length_le
    have before := heard.bounded s r
    by_cases channel : s = sender ∧ r = recipient
    · obtain ⟨rfl,rfl⟩ := channel
      simp only [Configuration.deliver,and_self,if_true] at grown ⊢
      omega
    · simp only [Configuration.deliver,if_neg channel] at grown ⊢
      omega

theorem heard_of_run {channels : List (ι × ι)} {configuration : Configuration network}
    (run : Run Delivers (initial network) channels configuration) : ∃ histories, Heard configuration histories := by
  apply run.invariant (fun configuration => ∃ histories, Heard configuration histories) ⟨_,Heard.start⟩
  rintro configuration ⟨sender,recipient⟩ next ⟨histories,heard⟩ ⟨message,pending,rfl⟩
  exact ⟨_,heard.deliver pending⟩

/-- When nothing is on its way, every node has heard exactly what was sent to it, in some interleaving. -/
theorem settled {channels : List (ι × ι)} {configuration : Configuration network}
    (run : Run Delivers (initial network) channels configuration) (quiet : configuration.Quiet) :
    ∃ histories : ι → List (ι × μ), (∀ node, configuration.states node = after network node (histories node)) ∧
      ∀ sender recipient, heardFrom sender (histories recipient) =
        network.sent sender (configuration.states sender) recipient := by
  obtain ⟨histories,heard⟩ := heard_of_run run
  refine ⟨histories,heard.states,?_⟩
  intro sender recipient
  rw [heard.channels,List.take_of_length_le]
  exact List.getElem?_eq_none_iff.mp (quiet sender recipient)

theorem run_of_replay {start configuration next : Configuration network} {before channels : List (ι × ι)}
    (run : Run Delivers start before configuration) (replayed : replay configuration channels = some next) :
    Run Delivers start (before ++ channels) next := by
  induction channels generalizing configuration before with
  | nil =>
    rw [replay,Option.some.injEq] at replayed
    rw [List.append_nil,← replayed]
    exact run
  | cons channel channels ih =>
    rw [replay] at replayed
    split at replayed
    next message pending =>
      rw [List.append_cons]
      exact ih (run.snoc ⟨message,pending,rfl⟩) replayed
    next => cases replayed

theorem exists_run {channels : List (ι × ι)} {check : Configuration network → Bool}
    (checked : (replay (initial network) channels).any check = true) :
    ∃ configuration, Run Delivers (initial network) channels configuration ∧ check configuration = true := by
  obtain ⟨configuration,replayed,holds⟩ := (Option.any_eq_true check _).mp checked
  exact ⟨configuration,run_of_replay Run.nil replayed,holds⟩

end Hermes.Library.Network
