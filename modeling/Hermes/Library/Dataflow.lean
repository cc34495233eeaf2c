import Hermes.Library.Network
import Mathlib.Algebra.BigOperators.Group.Finset.Basic
import Mathlib.Data.Fintype.Prod
import Mathlib.Data.Multiset.DershowitzManna
import Mathlib.Algebra.Order.BigOperators.Group.Finset
import Mathlib.Logic.Relation
import Mathlib.Order.WellFounded

/-! Networks whose nodes feed one another without a cycle. What a channel may carry is agreed on; if every node
keeps to that as long as it hears nothing else, all of them do in every interleaving, and no interleaving goes on
for ever. -/
namespace Hermes.Library.Network
open Hermes.Library.Transition
variable {ι μ : Type} [DecidableEq ι] {network : Nodes ι μ}

/-- What the channels may carry so far. -/
structure Agreement (ι μ : Type) where
  allowed : ι → ι → List μ → Prop
  silent : ∀ sender recipient, allowed sender recipient []
  sooner : ∀ sender recipient messages more, messages <+: more → allowed sender recipient more →
    allowed sender recipient messages

/-- A node has heard nothing else. -/
def Agreement.Proper (agreement : Agreement ι μ) (node : ι) (history : List (ι × μ)) : Prop :=
  ∀ sender, agreement.allowed sender node (heardFrom sender history)

/-- A node that hears nothing else says nothing else. -/
def Agreement.Kept (agreement : Agreement ι μ) (network : Nodes ι μ) : Prop :=
  ∀ node history, agreement.Proper node history → ∀ recipient,
    agreement.allowed node recipient (network.sent node (after network node history) recipient)

variable {agreement : Agreement ι μ}

theorem proper_of_run (kept : agreement.Kept network) {channels : List (ι × ι)} {configuration : Configuration network}
    (run : Run Delivers (initial network) channels configuration) :
    ∃ histories, Heard configuration histories ∧ ∀ node, agreement.Proper node (histories node) := by
  apply run.invariant fun configuration => ∃ histories, Heard configuration histories ∧
    ∀ node, agreement.Proper node (histories node)
  · exact ⟨_,Heard.start,fun node sender => agreement.silent sender node⟩
  rintro configuration ⟨sender,recipient⟩ next ⟨histories,heard,proper⟩ ⟨message,pending,rfl⟩
  refine ⟨_,heard.deliver pending,?_⟩
  intro node other
  by_cases here : node = recipient
  · subst here
    have all := kept other (histories other) (proper other) node
    rw [← heard.states] at all
    -- what is heard so far is the start of what the sender has sent before the delivery
    rw [Function.update_self,heardFrom_snoc]
    by_cases same : sender = other
    · subst same
      obtain ⟨bound,found⟩ := List.getElem?_eq_some_iff.mp pending
      have longer := List.take_succ_eq_append_getElem bound
      rw [found,← heard.channels] at longer
      rw [if_pos rfl,← longer]
      exact agreement.sooner _ _ _ _ (List.take_prefix _ _) all
    · rw [if_neg same,List.append_nil]
      exact proper node other
  · rw [Function.update_of_ne here]
    exact proper node other

theorem mem_heardFrom {sender : ι} {message : μ} {history : List (ι × μ)} :
    message ∈ heardFrom sender history ↔ (sender,message) ∈ history := by
  rw [heardFrom,List.mem_map]
  constructor
  · rintro ⟨⟨other,heard⟩,inside,rfl⟩
    obtain ⟨there,same⟩ := List.mem_filter.mp inside
    obtain rfl : other = sender := by simpa using same
    exact there
  · exact fun inside => ⟨(sender,message),List.mem_filter.mpr ⟨inside,by simp⟩,rfl⟩

omit [DecidableEq ι] in
theorem exists_rank [Fintype ι] {feeds : ι → ι → Prop} (acyclic : ∀ node, ¬Relation.TransGen feeds node node) :
    ∃ rank : ι → Nat, ∀ sender recipient, feeds sender recipient → rank sender < rank recipient := by
  classical
  refine ⟨fun node => (Finset.univ.filter fun other => Relation.TransGen feeds other node).card,?_⟩
  intro sender recipient edge
  apply Finset.card_lt_card
  rw [Finset.ssubset_iff_of_subset]
  · exact ⟨sender,by simpa using Relation.TransGen.single edge,by simpa using acyclic sender⟩
  · intro other inside
    have path : Relation.TransGen feeds other sender := by simpa using inside
    simpa using path.tail edge

section Feeding
variable {feeds : ι → ι → Prop} {rank : ι → Nat}

/-- Once nothing is on its way, a node that concludes when all that feed it have concluded has done so. -/
theorem concluded_of_quiet (kept : agreement.Kept network)
    (up : ∀ sender recipient, feeds sender recipient → rank sender < rank recipient)
    {concluded : ι → ι → List μ → Prop}
    (concludes : ∀ node history, agreement.Proper node history →
      (∀ sender, feeds sender node → concluded sender node (heardFrom sender history)) →
      ∀ recipient, feeds node recipient →
      concluded node recipient (network.sent node (after network node history) recipient))
    {channels : List (ι × ι)} {configuration : Configuration network}
    (run : Run Delivers (initial network) channels configuration) (quiet : configuration.Quiet) :
    ∃ histories, Heard configuration histories ∧ (∀ node, agreement.Proper node (histories node)) ∧
      (∀ sender recipient, heardFrom sender (histories recipient) =
        network.sent sender (configuration.states sender) recipient) ∧
      ∀ sender recipient, feeds sender recipient →
      concluded sender recipient (heardFrom sender (histories recipient)) := by
  obtain ⟨histories,heard,proper⟩ := proper_of_run kept run
  have all : ∀ sender recipient, heardFrom sender (histories recipient) =
      network.sent sender (configuration.states sender) recipient := by
    intro sender recipient
    rw [heard.channels,List.take_of_length_le]
    exact List.getElem?_eq_none_iff.mp (quiet sender recipient)
  refine ⟨histories,heard,proper,all,?_⟩
  intro sender recipient feeding
  induction known : rank sender using Nat.strong_induction_on generalizing sender recipient with
  | _ r ih =>
    rw [all,heard.states]
    refine concludes sender _ (proper sender) ?_ recipient feeding
    intro feeder edge
    exact ih (rank feeder) (known ▸ up feeder sender edge) feeder sender edge rfl

variable [Fintype ι]

/-- How far a node is from the top. -/
def height (rank : ι → Nat) (node : ι) : Nat := ∑ other, rank other - rank node

omit [DecidableEq ι] in
theorem height_lt {sender recipient : ι} (lower : rank sender < rank recipient) :
    height rank recipient < height rank sender := by
  have top : rank recipient ≤ ∑ other, rank other :=
      Finset.single_le_sum_of_canonicallyOrdered (f := rank) (Finset.mem_univ recipient)
  unfold height
  omega

/-- The heights of those that messages are on their way to. -/
def onTheWay (rank : ι → Nat) (configuration : Configuration network) : Multiset Nat :=
  ∑ channel : ι × ι, Multiset.replicate
    ((network.sent channel.1 (configuration.states channel.1) channel.2).length - configuration.delivered channel.1 channel.2)
    (height rank channel.2)

theorem onTheWay_deliver {configuration : Configuration network} {histories : ι → List (ι × μ)}
    (heard : Heard configuration histories) {sender recipient : ι} {message : μ}
    (pending : configuration.pending sender recipient = some message)
    (fed : ∀ node, network.sent recipient ((configuration.deliver sender recipient message).states recipient) node ≠ [] →
      rank recipient < rank node) :
    Multiset.IsDershowitzMannaLT (onTheWay rank (configuration.deliver sender recipient message))
    (onTheWay rank configuration) := by
  obtain ⟨bound,_⟩ := List.getElem?_eq_some_iff.mp pending
  let before (channel : ι × ι) : Nat := (network.sent channel.1 (configuration.states channel.1) channel.2).length
  let later (channel : ι × ι) : Nat :=
    (network.sent channel.1 ((configuration.deliver sender recipient message).states channel.1) channel.2).length
  let taken (channel : ι × ι) : Nat := if channel.1 = sender ∧ channel.2 = recipient then 1 else 0
  have grown : ∀ channel, before channel ≤ later channel := fun channel =>
    (sent_deliver configuration sender recipient message channel.1 channel.2).length_le
  have room : ∀ channel, configuration.delivered channel.1 channel.2 + taken channel ≤ before channel := by
    rintro ⟨s,r⟩
    have most := heard.bounded s r
    dsimp only [taken,before]
    split
    next same =>
      obtain ⟨rfl,rfl⟩ := same
      exact bound
    next => exact most
  have one : ∑ channel : ι × ι, Multiset.replicate (taken channel) (height rank channel.2) =
      {height rank recipient} := by
    rw [Finset.sum_eq_single (sender,recipient)]
    · simp [taken]
    · rintro ⟨s,r⟩ _ differ
      have apart : ¬(s = sender ∧ r = recipient) := fun both => differ (Prod.ext both.1 both.2)
      simp only [taken,if_neg apart,Multiset.replicate_zero]
    · exact fun missing => absurd (Finset.mem_univ _) missing
  refine ⟨∑ channel : ι × ι, Multiset.replicate (before channel - configuration.delivered channel.1 channel.2 - taken channel)
      (height rank channel.2),
    ∑ channel : ι × ι, Multiset.replicate (later channel - before channel) (height rank channel.2),
    {height rank recipient},Multiset.singleton_ne_zero _,?_,?_,?_⟩
  · rw [onTheWay,← Finset.sum_add_distrib]
    refine Finset.sum_congr rfl fun channel _ => ?_
    rw [← Multiset.replicate_add]
    have more := grown channel
    have fits := room channel
    have count : later channel - (configuration.deliver sender recipient message).delivered channel.1 channel.2 =
        before channel - configuration.delivered channel.1 channel.2 - taken channel + (later channel - before channel) := by
      have delivered : (configuration.deliver sender recipient message).delivered channel.1 channel.2 =
          configuration.delivered channel.1 channel.2 + taken channel := rfl
      omega
    exact congrArg (Multiset.replicate · (height rank channel.2)) count
  · rw [← one,onTheWay,← Finset.sum_add_distrib]
    refine Finset.sum_congr rfl fun channel _ => ?_
    rw [← Multiset.replicate_add]
    have fits := room channel
    have count : before channel - configuration.delivered channel.1 channel.2 =
        before channel - configuration.delivered channel.1 channel.2 - taken channel + taken channel := by omega
    exact congrArg (Multiset.replicate · (height rank channel.2)) count
  · intro y inside
    obtain ⟨⟨s,r⟩,_,here⟩ := Multiset.mem_sum.mp inside
    obtain ⟨more,rfl⟩ := Multiset.mem_replicate.mp here
    refine ⟨_,Multiset.mem_singleton_self _,height_lt ?_⟩
    -- only the recipient of the delivery can have sent more
    have self : s = recipient := by
      by_contra other
      refine more ?_
      dsimp only [later,before]
      rw [deliver_other _ _ other,Nat.sub_self]
    subst self
    refine fed r fun none => more ?_
    dsimp only [later]
    rw [none,List.length_nil,Nat.zero_sub]

theorem terminates (kept : agreement.Kept network)
    (along : ∀ sender recipient messages, agreement.allowed sender recipient messages → messages ≠ [] →
      rank sender < rank recipient) :
    ¬∃ configurations : Nat → Configuration network, configurations 0 = initial network ∧
      ∀ n, ∃ channel, Delivers (configurations n) channel (configurations (n+1)) := by
  rintro ⟨configurations,start,steps⟩
  have reached : ∀ n, ∃ channels, Run Delivers (initial network) channels (configurations n) := by
    intro n
    induction n with
    | zero => exact ⟨[],start ▸ Run.nil⟩
    | succ n ih =>
      obtain ⟨channels,run⟩ := ih
      obtain ⟨channel,delivers⟩ := steps n
      exact ⟨_,run.snoc delivers⟩
  have falls : ∀ n, Multiset.IsDershowitzMannaLT (onTheWay rank (configurations (n+1)))
      (onTheWay rank (configurations n)) := by
    intro n
    obtain ⟨channels,run⟩ := reached n
    obtain ⟨⟨sender,recipient⟩,delivers⟩ := steps n
    obtain ⟨next,later,proper⟩ := proper_of_run kept (run.snoc delivers)
    obtain ⟨histories,heard,_⟩ := proper_of_run kept run
    obtain ⟨message,pending,same⟩ := delivers
    rw [same]
    refine onTheWay_deliver heard pending fun node some' => ?_
    refine along recipient node _ (kept recipient _ (proper recipient) node) ?_
    rw [← later.states,same]
    exact some'
  have founded : IsWellFounded (Multiset Nat) Multiset.IsDershowitzMannaLT := ⟨Multiset.wellFounded_isDershowitzMannaLT⟩
  obtain ⟨n,stays⟩ := @WellFounded.not_rel_apply_succ _ _ founded fun n => onTheWay rank (configurations n)
  exact stays (falls n)

end Feeding
end Hermes.Library.Network
