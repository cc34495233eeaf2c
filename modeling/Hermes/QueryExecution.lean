import Hermes.OperatorRuns

/-! Queries as a whole: the actors of a plan, the root that starts them and waits for them, and every order in which
their messages can be delivered. -/
namespace Hermes.Executor
open Hermes.Operators Hermes.Library.Network Hermes.Library.Transition
open Hermes.Serialization (Values PhysicalOp)
open Hermes.Transform (boot)
variable {V : Values} {γ : Type}

section Directory
variable {known done : String → Prop}

/-- A directory of these operators, of which those are done. -/
structure Follows (directory : POpDirectory Unit) (known done : String → Prop) : Prop where
  balanced : directory.Balanced
  unique : (directory.entries.map (·.name)).Nodup
  names : ∀ name, known name ↔ ∃ entry ∈ directory.entries, entry.name = name
  marked : ∀ entry ∈ directory.entries, entry.isComplete = true ↔ done entry.name

variable {directory : POpDirectory Unit}

theorem Follows.allComplete_iff (follows : Follows directory known done) :
    directory.allComplete = true ↔ ∀ name, known name → done name := by
  have exact' : directory.allComplete = true ↔ ∀ entry ∈ directory.entries, entry.isComplete = true :=
      follows.balanced.exact
  rw [exact']
  constructor
  · intro complete name isKnown
    obtain ⟨entry,inside,rfl⟩ := (follows.names name).mp isKnown
    exact (follows.marked entry inside).mp (complete entry inside)
  · intro all entry inside
    exact (follows.marked entry inside).mpr (all _ ((follows.names _).mpr ⟨entry,inside,rfl⟩))

theorem Follows.congr {done' : String → Prop} (follows : Follows directory known done)
    (same : ∀ name, done name ↔ done' name) :
    Follows directory known done' :=
  ⟨follows.balanced,follows.unique,follows.names,fun entry inside => (follows.marked entry inside).trans (same _)⟩

theorem find_of_mem {entries : List (POpDirectoryEntry Unit)} (unique : (entries.map (·.name)).Nodup)
    {entry : POpDirectoryEntry Unit} (inside : entry ∈ entries) : find (·.name) entries entry.name = some entry := by
  induction entries with
  | nil => cases inside
  | cons head entries ih =>
    obtain ⟨new,unique⟩ := List.nodup_cons.mp unique
    rw [find,List.find?_cons]
    rcases List.mem_cons.mp inside with same | later
    · simp [same]
    · have differ : head.name ≠ entry.name := fun same => new (List.mem_map.mpr ⟨entry,later,same.symm⟩)
      rw [show (head.name == entry.name) = false by simpa using differ]
      exact ih unique later

theorem Follows.setComplete (follows : Follows directory known done) {name : String} (isKnown : known name)
    (open' : ¬done name) : (directory.setComplete name).2 = .ok () ∧
      Follows (directory.setComplete name).1 known fun other => done other ∨ other = name := by
  obtain ⟨entry,inside,rfl⟩ := (follows.names name).mp isKnown
  have found := find_of_mem follows.unique inside
  have incomplete : entry.isComplete = false := by
    by_contra complete
    exact open' ((follows.marked entry inside).mp (by simpa using complete))
  have marked : directory.setComplete entry.name = ({directory with
      entries := update (·.name) (fun entry => {entry with isComplete := true}) entry.name directory.entries
      numOperatorsComplete := directory.numOperatorsComplete+1},.ok ()) := by
    simp [POpDirectory.setComplete,found,incomplete]
  have balanced := POpDirectory.setComplete_balanced follows.balanced entry.name
  rw [marked] at balanced ⊢
  obtain ⟨others,before,after⟩ := update_perm found fun entry :
    POpDirectoryEntry Unit => {entry with isComplete := true}
  have apart : ((entry::others).map (·.name)).Nodup := ((before.map (·.name)).nodup_iff).mp follows.unique
  refine ⟨rfl,balanced,((after.map (·.name)).nodup_iff).mpr apart,?_,?_⟩
  · intro name
    rw [follows.names]
    simp only [after.mem_iff,before.mem_iff,List.mem_cons,exists_eq_or_imp]
  · intro other there
    rcases List.mem_cons.mp (after.mem_iff.mp there) with rfl | there
    · exact iff_of_true rfl (.inr rfl)
    · have differ : other.name ≠ entry.name := fun same =>
        (List.nodup_cons.mp apart).1 (List.mem_map.mpr ⟨other,there,same⟩)
      rw [or_iff_left differ]
      exact follows.marked other (before.mem_iff.mpr (List.mem_cons_of_mem _ there))

theorem follows_boot {plan : List (PhysicalOp V)} {directory booted : POpDirectory Unit} {known : String → Prop}
    (follows : Follows directory known fun _ => False)
    (ok : plan.foldlM (fun directory pOp =>
      match directory.insert ⟨pOp.name,(),false⟩ with
      | (inserted,.ok ()) => .ok inserted
      | (_,.error error) => .error error) directory = (.ok booted : Except String _)) :
    Follows booted (fun name => known name ∨ ∃ pOp ∈ plan, pOp.name = name) fun _ => False := by
  induction plan generalizing directory known with
  | nil =>
    obtain rfl := Except.ok.inj ok
    simpa using follows
  | cons pOp plan ih =>
    rw [List.foldlM_cons,POpDirectory.insert] at ok
    cases found : find (·.name) directory.entries pOp.name with
    | some entry =>
      rw [found] at ok
      cases ok
    | none =>
      rw [found] at ok
      have balanced := @POpDirectory.insert_balanced Unit _ follows.balanced
          ⟨pOp.name,(),false⟩ fun complete => by cases complete
      rw [POpDirectory.insert,found] at balanced
      have missing : ∀ entry ∈ directory.entries, entry.name ≠ pOp.name := by simpa [find] using found
      have next : Follows {directory with
          entries := ⟨pOp.name,(),false⟩::directory.entries
          numOperators := directory.numOperators+1} (fun name => known name ∨ name = pOp.name) fun _ => False := by
        refine ⟨balanced,?_,?_,?_⟩
        · rw [List.map_cons,List.nodup_cons]
          refine ⟨?_,follows.unique⟩
          intro inside
          obtain ⟨entry,there,same⟩ := List.mem_map.mp inside
          exact missing entry there same
        · intro name
          rw [follows.names]
          simp only [List.mem_cons,exists_eq_or_imp]
          rw [or_comm,@eq_comm _ name]
        · intro entry inside
          rcases List.mem_cons.mp inside with rfl | inside
          · simp
          · exact follows.marked entry inside
      have all := ih next ok
      simp only [List.mem_cons,exists_eq_or_imp]
      simpa only [or_assoc,@eq_comm _ pOp.name] using all

end Directory

namespace Execution
variable {execution : Execution V γ} {traffic : Traffic γ} {i j : Fin execution.physicalPlan.length}

/-- Whether one party sends to another at all. -/
def Feeds (execution : Execution V γ) : Party execution.physicalPlan.length → Party execution.physicalPlan.length → Prop
  | .start,.operator _ => True
  | .operator i,.operator j => (execution.op j).name ∈ (execution.op i).consumers
  | .operator _,.join => True
  | _,_ => False

/-- The starting party is the first, and `join` the last. -/
def order (execution : Execution V γ) (rank : Fin execution.physicalPlan.length → Nat) :
    Party execution.physicalPlan.length → Nat
  | .start => 0
  | .operator i => rank i+1
  | .join => ∑ i, rank i+2

theorem exists_order (wired : Wired execution.physicalPlan) :
    ∃ rank : Party execution.physicalPlan.length → Nat, ∀ sender recipient, execution.Feeds sender recipient →
      rank sender < rank recipient := by
  have acyclic : ∀ i, ¬Relation.TransGen (fun i j => (execution.op j).name ∈ (execution.op i).consumers) i i := by
    intro i cycle
    refine wired.wellFormed.acyclic (execution.op i).name (cycle.lift (fun i => (execution.op i).name) ?_)
    exact fun i j edge => ⟨_,op_mem i,rfl,edge⟩
  obtain ⟨rank,up⟩ := exists_rank acyclic
  refine ⟨execution.order rank,?_⟩
  intro sender recipient feeds
  cases sender with
  | start =>
    cases recipient with
    | operator i => exact Nat.succ_pos _
    | start => cases feeds
    | join => cases feeds
  | operator i =>
    cases recipient with
    | operator j => exact Nat.succ_lt_succ (up i j feeds)
    | join =>
      have top : rank i ≤ ∑ i, rank i := Finset.single_le_sum_of_canonicallyOrdered (Finset.mem_univ i)
      rw [order,order]
      omega
    | start => cases feeds
  | join =>
    cases recipient with
    | operator i => cases feeds
    | start => cases feeds
    | join => cases feeds

theorem feeds_of_allowed {sender recipient : Party execution.physicalPlan.length} {mails : List (Mail γ)}
    (allowed : (execution.agreement traffic).allowed sender recipient mails) (some' : mails ≠ []) :
    execution.Feeds sender recipient := by
  cases sender with
  | start =>
    cases recipient with
    | operator i => trivial
    | start => exact absurd allowed some'
    | join => exact absurd allowed some'
  | operator i =>
    cases recipient with
    | operator j =>
      rcases allowed with none | ⟨consumer,_⟩
      · exact absurd none some'
      · exact consumer
    | join => trivial
    | start => exact absurd allowed some'
  | join =>
    cases recipient with
    | operator i => exact absurd allowed some'
    | start => exact absurd allowed some'
    | join => exact absurd allowed some'

section Kept
variable (wired : Wired execution.physicalPlan)
  (obliging : ∀ pOp ∈ execution.physicalPlan, Obliging traffic pOp (execution.behaviour pOp))
include wired obliging

theorem agreement_kept : (execution.agreement traffic).Kept execution.nodes := by
  intro node history proper recipient
  cases node with
  | start =>
    cases recipient with
    | operator i => exact List.prefix_rfl
    | start => rfl
    | join => rfl
  | join =>
    cases recipient with
    | operator i => rfl
    | start => rfl
    | join => rfl
  | operator i =>
    cases recipient with
    | start => rfl
    | operator j =>
      rcases operator_fulfils wired proper (obliging _ (op_mem i)) with ⟨_,silent,_⟩ | ⟨_,_,fulfils⟩
      · refine .inl ?_
        change outbox _ _ _ (after execution.nodes (.operator i) history : Actor _).process.ctx.acts = []
        rw [silent]
        rfl
      · change outbox _ _ _ (after execution.nodes (.operator i) history : Actor _).process.ctx.acts = [] ∨
          (execution.op j).name ∈ (execution.op i).consumers ∧ Channel _ _
            (outbox _ _ _ (after execution.nodes (.operator i) history : Actor _).process.ctx.acts)
        by_cases consumer : (execution.op j).name ∈ (execution.op i).consumers
        · rw [show decide ((execution.op j).name ∈ (execution.op i).consumers) = true by simpa using consumer]
          refine .inr ⟨consumer,_,fulfils.carried _ consumer,?_⟩
          rcases fulfils.channel with ⟨_,same⟩ | ⟨_,same⟩
          · exact .inl same
          · exact .inr same
        · rw [show decide ((execution.op j).name ∈ (execution.op i).consumers) = false by simpa using consumer]
          exact .inl (fulfils.quiet consumer)
    | join =>
      change reports _ (after execution.nodes (.operator i) history : Actor _).process.ctx.acts <+: _
      rcases operator_fulfils wired proper (obliging _ (op_mem i)) with ⟨_,silent,_⟩ | ⟨_,_,fulfils⟩
      · rw [silent]
        exact List.nil_prefix
      · rcases fulfils.reported with ⟨_,same⟩ | ⟨_,same⟩
        · rw [same]
          exact List.nil_prefix
        · rw [same]

end Kept

section Join
variable {history : List (Party execution.physicalPlan.length × Mail γ)}

theorem proper_report (proper : (execution.agreement traffic).Proper .join history)
    {sender : Party execution.physicalPlan.length} {mail : Mail γ} (inside : (sender,mail) ∈ history) :
    ∃ i, sender = .operator i ∧ mail = .waiting (.complete (execution.op i).name) := by
  have heard := mem_heardFrom.mpr inside
  have allowed := proper sender
  cases sender with
  | operator i => exact ⟨i,rfl,List.mem_singleton.mp (List.IsPrefix.mem heard allowed)⟩
  | start =>
    have none : heardFrom .start history = [] := allowed
    rw [none] at heard
    exact absurd heard List.not_mem_nil
  | join =>
    have none : heardFrom .join history = [] := allowed
    rw [none] at heard
    exact absurd heard List.not_mem_nil

def Reported (history : List (Party execution.physicalPlan.length × Mail γ)) (name : String) : Prop :=
  .waiting (.complete name) ∈ history.map Prod.snd

theorem reported_iff (wired : Wired execution.physicalPlan)
    (proper : (execution.agreement traffic).Proper .join history)
    (i : Fin execution.physicalPlan.length) : Reported history (execution.op i).name ↔
      .waiting (.complete (execution.op i).name) ∈ heardFrom (.operator i) history := by
  rw [mem_heardFrom,Reported,List.mem_map]
  constructor
  · rintro ⟨⟨sender,mail⟩,inside,rfl⟩
    obtain ⟨k,rfl,same⟩ := proper_report proper inside
    have named : (execution.op i).name = (execution.op k).name := by simpa using same
    obtain rfl := op_name_inj wired named
    exact inside
  · exact fun inside => ⟨_,inside,rfl⟩

structure Joined (execution : Execution V γ) (history : List (Party execution.physicalPlan.length × Mail γ))
    (root : Root) : Prop where
  follows : Follows root.opDirectory (fun name => ∃ i, (execution.op i).name = name) (Reported history)
  returned : root.returned = none ∧ (¬∀ i, Reported history (execution.op i).name) ∨
    root.returned = some (.ok ()) ∧ ∀ i, Reported history (execution.op i).name

theorem follows_opDirectory (wired : Wired execution.physicalPlan) :
    Follows execution.opDirectory (fun name => ∃ i, (execution.op i).name = name) fun _ => False := by
  obtain ⟨directory,booted⟩ := wired.wellFormed.boots
  have start : Follows (.make : POpDirectory Unit) (fun _ => False) fun _ => False :=
    ⟨POpDirectory.make_balanced,List.nodup_nil,fun name => by simp [POpDirectory.make],fun entry inside => absurd inside List.not_mem_nil⟩
  have follows := follows_boot start booted
  have incomplete : ∀ entry ∈ directory.entries, entry.isComplete = false := by
    intro entry inside
    rw [← Bool.not_eq_true]
    exact fun complete => (follows.marked entry inside).mp complete
  have same : execution.opDirectory = directory := by
    rw [opDirectory,booted]
    exact POpDirectory.setIncomplete_of_incomplete incomplete
  rw [same]
  refine ⟨follows.balanced,follows.unique,fun name => ?_,follows.marked⟩
  rw [← follows.names,false_or]
  constructor
  · rintro ⟨i,rfl⟩
    exact ⟨_,op_mem i,rfl⟩
  · rintro ⟨pOp,inside,rfl⟩
    obtain ⟨i,bound,rfl⟩ := List.mem_iff_getElem.mp inside
    exact ⟨⟨i,bound⟩,rfl⟩

def rootAfter (execution : Execution V γ) (history : List (Party execution.physicalPlan.length × Mail γ)) : Root :=
  after execution.nodes .join history

theorem rootAfter_snoc (sender : Party execution.physicalPlan.length) (mail : Mail γ) :
    execution.rootAfter (history ++ [(sender,mail)]) = execution.joins (execution.rootAfter history) mail :=
  after_snoc _ _ _ _

theorem joined_after (wired : Wired execution.physicalPlan)
    (proper : (execution.agreement traffic).Proper .join history) :
    Joined execution history (execution.rootAfter history) := by
  induction history using List.reverseRecOn with
  | nil =>
    refine ⟨?_,.inl ⟨rfl,?_⟩⟩
    · exact (follows_opDirectory wired).congr fun name => by simp [Reported]
    · intro all
      obtain ⟨collate,inside,_⟩ := wired.wellFormed.sink
      obtain ⟨i,bound,_⟩ := List.mem_iff_getElem.mp inside
      exact absurd (all ⟨i,bound⟩) List.not_mem_nil
  | append_singleton history heard ih =>
    obtain ⟨sender,mail⟩ := heard
    obtain ⟨follows,returned⟩ := ih (proper_init proper)
    obtain ⟨i,rfl,rfl⟩ := proper_report proper (List.mem_append_right _ List.mem_cons_self)
    have unheard : ¬Reported history (execution.op i).name := by
      rw [reported_iff wired (proper_init proper)]
      have once : heardFrom (.operator i) (history ++ [(.operator i,.waiting (.complete (execution.op i).name))]) <+:
          [.waiting (.complete (execution.op i).name)] := proper (.operator i)
      rw [heardFrom_snoc,if_pos rfl] at once
      have none : heardFrom (.operator i) history = [] := by
        have length := once.length_le
        simpa using length
      rw [none]
      exact List.not_mem_nil
    obtain ⟨taken,marked⟩ := follows.setComplete ⟨i,rfl⟩ unheard
    have grown : ∀ name, Reported (history ++ [(Party.operator i,Mail.waiting (.complete (execution.op i).name))]) name ↔
        Reported history name ∨ name = (execution.op i).name := by
      intro name
      simp [Reported]
    rw [rootAfter_snoc]
    rcases returned with ⟨waits,_⟩ | ⟨_,all⟩
    · generalize execution.rootAfter history = root at follows waits taken marked ⊢
      have step : execution.joins root (.waiting (.complete (execution.op i).name)) =
          ⟨(root.opDirectory.setComplete (execution.op i).name).1,
            if (root.opDirectory.setComplete (execution.op i).name).1.allComplete then some (.ok ()) else none⟩ := by
        rw [joins,waits]
        simp [taken]
      rw [step]
      refine ⟨?_,?_⟩
      · exact marked.congr fun name => (grown name).symm
      · have all := marked.allComplete_iff
        by_cases complete : (root.opDirectory.setComplete (execution.op i).name).1.allComplete = true
        · refine .inr ⟨if_pos complete,fun k => (grown _).mpr ?_⟩
          exact all.mp complete _ ⟨k,rfl⟩
        · refine .inl ⟨if_neg complete,fun every => complete (all.mpr ?_)⟩
          rintro name ⟨k,rfl⟩
          exact (grown _).mp (every k)
    · exact absurd (all i) unheard

end Join
section Runs
variable {channels : List (Party execution.physicalPlan.length × Party execution.physicalPlan.length)}
  {configuration : Configuration execution.nodes}

def actor (configuration : Configuration execution.nodes) (i : Fin execution.physicalPlan.length) :
    Actor (execution.behaviour (execution.op i)) := configuration.states (.operator i)

def root (configuration : Configuration execution.nodes) : Root := configuration.states .join

def Completed (configuration : Configuration execution.nodes) (i : Fin execution.physicalPlan.length) : Prop :=
  .notifyComplete ∈ (actor configuration i).process.ctx.acts

structure Safe (configuration : Configuration execution.nodes) : Prop where
  alive : ∀ i, (actor configuration i).process.fault = none
  flawless : ∀ i content, .notifyError content ∉ (actor configuration i).process.ctx.acts
  once : ∀ i acts, .notifyComplete::acts <:+ (actor configuration i).process.ctx.acts → acts = []
  afterProducers : ∀ i j, (execution.op j).name ∈ (execution.op i).consumers → Completed configuration j →
    Completed configuration i ∧ configuration.pending (.operator i) (.operator j) = none
  joining : (root configuration).returned = none ∨
    (root configuration).returned = some (.ok ()) ∧ ∀ i, Completed configuration i

/-- The query is over: `join` has returned, and what each operator has done answers to all that its producers told it. -/
structure Ended (configuration : Configuration execution.nodes) : Prop where
  returned : (root configuration).returned = some (.ok ())
  completed : ∀ i, Completed configuration i
  served : ∀ j, ∃ messages, FromProducers (· ∈ (execution.op j).producers) messages ∧
    Finished (· ∈ (execution.op j).producers) messages ∧
    (actor configuration j).process = (execution.behaviour (execution.op j)).run (execution.context j) messages ∧
    ∀ i, (execution.op j).name ∈ (execution.op i).consumers → contentsOf (execution.op i).name messages =
      contentsTo (execution.op j).name (actor configuration i).process.ctx.acts

theorem not_complete_mem_tuples (own : String) (contents : List γ) :
    .waiting (.complete own) ∉ tuples own contents := by
  simp [tuples]

theorem length_of_mem_take {α : Type} {front : List α} {last : α} {n : Nat} (fresh : last ∉ front)
    (inside : last ∈ (front ++ [last]).take n) : (front ++ [last]).length ≤ n := by
  by_contra short
  rw [List.length_append,List.length_singleton] at short
  rw [List.take_append_of_le_length (by omega)] at inside
  exact fresh (List.mem_of_mem_take inside)

variable (wired : Wired execution.physicalPlan)
  (obliging : ∀ pOp ∈ execution.physicalPlan, Obliging traffic pOp (execution.behaviour pOp))
include wired obliging

section History
variable {history : List (Party execution.physicalPlan.length × Mail γ)}
  (proper : (execution.agreement traffic).Proper (.operator i) history)
include proper

theorem sent_consumer (consumer : (execution.op j).name ∈ (execution.op i).consumers) :
    .notifyComplete ∉ (after execution.nodes (.operator i) history : Actor _).process.ctx.acts ∧
        execution.nodes.sent (.operator i) (after execution.nodes (.operator i) history) (.operator j) =
          tuples (execution.op i).name (contentsTo (execution.op j).name
            (after execution.nodes (.operator i) history : Actor _).process.ctx.acts) ∨
      .notifyComplete ∈ (after execution.nodes (.operator i) history : Actor _).process.ctx.acts ∧
        execution.nodes.sent (.operator i) (after execution.nodes (.operator i) history) (.operator j) =
          tuples (execution.op i).name (contentsTo (execution.op j).name
            (after execution.nodes (.operator i) history : Actor _).process.ctx.acts) ++
              [.waiting (.complete (execution.op i).name)] := by
  change _ ∧ outbox _ _ _ (after execution.nodes (.operator i) history : Actor _).process.ctx.acts = _ ∨
    _ ∧ outbox _ _ _ (after execution.nodes (.operator i) history : Actor _).process.ctx.acts = _
  rw [show decide ((execution.op j).name ∈ (execution.op i).consumers) = true by simpa using consumer]
  rcases operator_fulfils wired proper (obliging _ (op_mem i)) with ⟨_,silent,_⟩ | ⟨_,_,fulfils⟩
  · rw [silent]
    exact .inl ⟨List.not_mem_nil,rfl⟩
  · exact fulfils.channel

theorem sent_join :
    .notifyComplete ∉ (after execution.nodes (.operator i) history : Actor _).process.ctx.acts ∧
        execution.nodes.sent (.operator i) (after execution.nodes (.operator i) history) .join = [] ∨
      .notifyComplete ∈ (after execution.nodes (.operator i) history : Actor _).process.ctx.acts ∧
        execution.nodes.sent (.operator i) (after execution.nodes (.operator i) history) .join =
          [.waiting (.complete (execution.op i).name)] := by
  change _ ∧ reports _ (after execution.nodes (.operator i) history : Actor _).process.ctx.acts = _ ∨
    _ ∧ reports _ (after execution.nodes (.operator i) history : Actor _).process.ctx.acts = _
  rcases operator_fulfils wired proper (obliging _ (op_mem i)) with ⟨_,silent,_⟩ | ⟨_,_,fulfils⟩
  · rw [silent]
    exact .inl ⟨List.not_mem_nil,rfl⟩
  · exact fulfils.reported

end History

theorem safe_of_run (run : Run Delivers (initial execution.nodes) channels configuration) : Safe configuration := by
  obtain ⟨histories,heard,proper⟩ := proper_of_run (agreement_kept wired obliging) run
  have state : ∀ i, actor configuration i = (after execution.nodes (.operator i) (histories (.operator i)) : Actor _) :=
    fun i => heard.states (.operator i)
  have fulfils := fun i => operator_fulfils wired (proper (.operator i)) (obliging _ (op_mem i))
  refine ⟨?_,?_,?_,?_,?_⟩
  · intro i
    rw [state]
    rcases fulfils i with ⟨_,_,alive⟩ | ⟨_,_,fulfils⟩
    · exact alive
    · exact fulfils.alive
  · intro i content
    rw [state]
    rcases fulfils i with ⟨_,silent,_⟩ | ⟨_,_,fulfils⟩
    · rw [silent]
      exact List.not_mem_nil
    · exact fulfils.flawless content
  · intro i acts
    rw [state]
    rcases fulfils i with ⟨_,silent,_⟩ | ⟨_,_,fulfils⟩
    · rw [silent]
      exact fun suffix => absurd (List.suffix_nil.mp suffix) (List.cons_ne_nil _ _)
    · exact fulfils.last acts
  · intro i j consumer complete
    unfold Completed at complete ⊢
    rw [state] at complete ⊢
    have told : .waiting (.complete (execution.op i).name) ∈ heardFrom (.operator i) (histories (.operator j)) := by
      rcases fulfils j with ⟨_,silent,_⟩ | ⟨_,_,fulfils⟩
      · rw [silent] at complete
        exact absurd complete List.not_mem_nil
      · exact (finished_iff wired (proper (.operator j))).mp (fulfils.completes.mp complete) i consumer
    rw [heard.channels,heard.states (.operator i)] at told
    rcases sent_consumer wired obliging (proper (.operator i)) consumer with ⟨_,same⟩ | ⟨done,same⟩
    · rw [same] at told
      exact absurd (List.mem_of_mem_take told) (not_complete_mem_tuples _ _)
    · refine ⟨done,?_⟩
      rw [same] at told
      have all := length_of_mem_take (not_complete_mem_tuples _ _) told
      rw [Configuration.pending,heard.states (.operator i),same]
      exact List.getElem?_eq_none all
  · have joined := joined_after wired (proper .join)
    have here : root configuration = execution.rootAfter (histories .join) := heard.states .join
    rw [here]
    rcases joined.returned with ⟨waits,_⟩ | ⟨returned,all⟩
    · exact .inl waits
    · refine .inr ⟨returned,fun i => ?_⟩
      have told := (reported_iff wired (proper .join) i).mp (all i)
      rw [heard.channels,heard.states (.operator i)] at told
      unfold Completed
      rw [state]
      rcases sent_join wired obliging (proper (.operator i)) with ⟨_,same⟩ | ⟨done,_⟩
      · rw [same] at told
        exact absurd (List.mem_of_mem_take told) List.not_mem_nil
      · exact done

/-- What a party must have told another before the other can be done. -/
def Concluded (execution : Execution V γ) (sender recipient : Party execution.physicalPlan.length)
    (mails : List (Mail γ)) : Prop :=
  match sender,recipient with
  | .start,.operator i => mails = [.connect (connections (execution.op i)),.start]
  | .operator i,_ => .waiting (.complete (execution.op i).name) ∈ mails
  | _,_ => True

theorem ended_of_quiet (run : Run Delivers (initial execution.nodes) channels configuration)
    (quiet : configuration.Quiet) :
    Ended configuration := by
  obtain ⟨rank,up⟩ := exists_order wired
  have concludes : ∀ node history, (execution.agreement traffic).Proper node history →
      (∀ sender, execution.Feeds sender node → execution.Concluded sender node (heardFrom sender history)) →
      ∀ recipient, execution.Feeds node recipient →
        execution.Concluded node recipient (execution.nodes.sent node
          (after execution.nodes node history) recipient) := by
    intro node history proper before recipient feeds
    cases node with
    | start =>
      cases recipient with
      | operator i => rfl
      | start => trivial
      | join => trivial
    | join => cases feeds
    | operator i =>
      have started : heardFrom .start history = [.connect (connections (execution.op i)),
          .start] := before .start trivial
      have complete : .notifyComplete ∈ (after execution.nodes (.operator i) history : Actor _).process.ctx.acts := by
        rcases operator_fulfils wired proper (obliging _ (op_mem i)) with ⟨early,_⟩ | ⟨_,_,fulfils⟩
        · exact absurd started early
        · exact fulfils.completes.mpr ((finished_iff wired proper).mpr fun j consumer => before (.operator j) consumer)
      cases recipient with
      | start => cases feeds
      | operator j =>
        rcases sent_consumer wired obliging proper feeds with ⟨open',_⟩ | ⟨_,same⟩
        · exact absurd complete open'
        · change .waiting (.complete (execution.op i).name) ∈
            execution.nodes.sent (.operator i) (after execution.nodes (.operator i) history) (.operator j)
          rw [same]
          exact List.mem_append_right _ List.mem_cons_self
      | join =>
        rcases sent_join wired obliging proper with ⟨open',_⟩ | ⟨_,same⟩
        · exact absurd complete open'
        · change .waiting (.complete (execution.op i).name) ∈
            execution.nodes.sent (.operator i) (after execution.nodes (.operator i) history) .join
          rw [same]
          exact List.mem_cons_self
  obtain ⟨histories,heard,proper,all,done⟩ :=
    concluded_of_quiet (agreement_kept wired obliging) up concludes run quiet
  have state : ∀ i, actor configuration i = (after execution.nodes (.operator i) (histories (.operator i)) : Actor _) :=
    fun i => heard.states (.operator i)
  have completed : ∀ i, Completed configuration i := by
    intro i
    have told : .waiting (.complete (execution.op i).name) ∈ heardFrom (.operator i) (histories .join) :=
      done (.operator i) .join trivial
    rw [all,heard.states (.operator i)] at told
    unfold Completed
    rw [state]
    rcases sent_join wired obliging (proper (.operator i)) with ⟨_,same⟩ | ⟨complete,_⟩
    · rw [same] at told
      exact absurd told List.not_mem_nil
    · exact complete
  refine ⟨?_,completed,?_⟩
  · have here : root configuration = execution.rootAfter (histories .join) := heard.states .join
    rw [here]
    rcases (joined_after wired (proper .join)).returned with ⟨_,some'⟩ | ⟨returned,_⟩
    · refine absurd (fun i => ?_) some'
      exact (reported_iff wired (proper .join) i).mpr (done (.operator i) .join trivial)
    · exact returned
  · intro j
    have complete := completed j
    unfold Completed at complete
    rw [state] at complete ⊢
    rcases operator_fulfils wired (proper (.operator j)) (obliging _ (op_mem j)) with ⟨_,silent,_⟩ | ⟨_,same,fulfils⟩
    · rw [silent] at complete
      exact absurd complete List.not_mem_nil
    · refine ⟨messagesOf (histories (.operator j)),fromProducers_messagesOf wired (proper (.operator j)),
        fulfils.completes.mp complete,same,?_⟩
      intro i consumer
      rw [contentsOf_messagesOf wired (proper (.operator j)),all,heard.states (.operator i),state]
      rcases sent_consumer wired obliging (proper (.operator i)) consumer with ⟨_,sent⟩ | ⟨_,sent⟩
      · rw [sent,waitings_tuples,contentsOf_tuples]
      · rw [sent,contentsOf_channel]

theorem no_endless_run : ¬∃ configurations : Nat → Configuration execution.nodes,
    configurations 0 = initial execution.nodes ∧
    ∀ n, ∃ channel, Delivers (configurations n) channel (configurations (n+1)) := by
  obtain ⟨rank,up⟩ := exists_order wired
  exact terminates (agreement_kept wired obliging) fun sender recipient mails allowed some' =>
    up sender recipient (feeds_of_allowed allowed some')

omit wired obliging in
theorem acts_of_run {more : List (Party execution.physicalPlan.length × Party execution.physicalPlan.length)}
    {later : Configuration execution.nodes} (run : Run Delivers configuration more later)
    (i : Fin execution.physicalPlan.length) :
    (actor configuration i).process.ctx.acts <+: (actor later i).process.ctx.acts := by
  apply run.invariant fun later => (actor configuration i).process.ctx.acts <+: (actor later i).process.ctx.acts
  · exact List.prefix_rfl
  · rintro state ⟨sender,recipient⟩ next grown ⟨mail,_,rfl⟩
    refine grown.trans ?_
    unfold actor
    by_cases here : Party.operator i = recipient
    · subst here
      rw [deliver_recipient]
      exact receive_acts _ mail
    · rw [deliver_other _ _ here]

/-- Whatever the order of the deliveries: nobody faults or reports an error, every operator completes once and as the
last thing it does, after its producers and after all that they have told it, and `join` only returns when all are done.
A completed operator does nothing ever after. -/
theorem execution_safe (run : Run Delivers (initial execution.nodes) channels configuration) :
    Safe configuration ∧ ∀ more later, Run Delivers configuration more later → ∀ i, Completed configuration i →
      (actor later i).process.ctx.acts = (actor configuration i).process.ctx.acts := by
  refine ⟨safe_of_run wired obliging run,?_⟩
  intro more later onward i complete
  obtain ⟨rest,grown⟩ := acts_of_run onward i
  obtain ⟨before,after',same⟩ := List.append_of_mem complete
  have none := (safe_of_run wired obliging (run.append onward)).once i (after' ++ rest)
    ⟨before,by rw [← grown,same,List.append_assoc,List.cons_append]⟩
  rw [← grown,(List.append_eq_nil_iff.mp none).2,List.append_nil]

/-- No order of the deliveries goes on for ever, and where it ends the query is over. -/
theorem execution_ends :
    (¬∃ configurations : Nat → Configuration execution.nodes, configurations 0 = initial execution.nodes ∧
      ∀ n, ∃ channel, Delivers (configurations n) channel (configurations (n+1))) ∧
    ∀ channels configuration, Run Delivers (initial execution.nodes) channels configuration → configuration.Quiet →
      Ended configuration :=
  ⟨no_endless_run wired obliging,fun _ _ => ended_of_quiet wired obliging⟩

end Runs
end Execution
end Hermes.Executor
