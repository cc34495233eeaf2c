import Hermes.NoLostDelta
import Mathlib.Data.Nat.Find

/-! Which pumps the loads of one query reflect.
A load returns whatever is cached, and the actor pumps between the loads of a
query: when it is told to, and for a load that follows one of another query. -/
namespace Hermes.QuerySnapshot
open Hermes.Delta Hermes.DeltaMergePOp Hermes.DeltaCacheActor Hermes.DeltaCacheSystem Hermes.NoLostDelta
open Hermes.Library.Transition
variable {τ ω : Type} [DecidableEq τ] [DecidableEq ω] {δ : τ → Type} {β : Type}

/-- Message `i` is this load, and these are the versions it returns. -/
def Loads (labels : List (NumberedAction ω δ β)) (i : Nat) (msg : LoadDeltaRequestMessage τ)
    (deltas : List (DeltaCacheData (Numbered (δ msg.table)))) : Prop :=
  ∃ op pump, labels[i]? = some (.loadMemoryDelta op msg pump deltas)

def Reflects {ε : Type} (deltas : List (DeltaCacheData (Numbered ε))) (number : Nat) : Prop :=
  ∃ d ∈ deltas, number ∈ d.delta.lineage

/-- All loads of the query reflect, for their own partitions, the pumps up to one of them. -/
def Consistent (labels : List (NumberedAction ω δ β)) (pumped : τ → Int → List Nat) (query : Int) : Prop :=
  ∃ upTo, ∀ i msg deltas, Loads labels i msg deltas → msg.queryId = query → ∀ number,
    Reflects deltas number ↔ number ∈ pumped msg.table msg.deltaKey ∧ number ≤ upTo

/-- An actor that remembers the query pumps on the message. -/
def Pumps (query : Int) : NumberedAction ω δ β → Prop
  | .loadMemoryDelta _ msg _ _ => msg.queryId ≠ query
  | .deltaPump _ => True
  | .storeMergedDelta _ _ _ => False

def remembered (query : Int) : NumberedAction ω δ β → Int
  | .loadMemoryDelta _ msg _ _ => msg.queryId
  | _ => query

def lastQuery (labels : List (NumberedAction ω δ β)) : Int := labels.foldl remembered 2022

structure Reflecting (labels : List (NumberedAction ω δ β)) (state : NumberedSystem ω δ β × History τ ω) : Prop where
  keeps : Keeps state
  count : state.2.steps = labels.length
  query : state.1.actor.queryId = lastQuery labels
  cachedFrom : ∀ table partition, ∀ d ∈ state.1.cached table partition, ∀ number ∈ d.delta.lineage,
    number ∈ state.2.pumped table partition
  heldFrom : ∀ op held, state.1.held op = some held → ∀ d ∈ held.deltas, ∀ number ∈ d.delta.lineage,
    number ∈ state.2.pumped held.table held.partition
  pumpedAt : ∀ table partition, ∀ number ∈ state.2.pumped table partition,
    ∃ i action, number = i+1 ∧ labels[i]? = some action ∧ Pumps (lastQuery (labels.take i)) action
  loaded : ∀ i msg deltas, Loads labels i msg deltas → ∀ number,
    Reflects deltas number ↔ number ∈ state.2.pumped msg.table msg.deltaKey ∧ number ≤ i+1

omit [DecidableEq τ] [DecidableEq ω] in
theorem reflecting_initial :
    Reflecting [] (System.initial ω (fun table => Numbered (δ table)) β,History.initial τ ω) := by
  refine ⟨keeps_initial,rfl,rfl,?_,?_,?_,?_⟩
  · intro table partition d member
    rw [System.cached_initial] at member
    cases member
  · simp [System.initial]
  · simp [History.initial]
  · simp [Loads]

section Step
variable {before after : NumberedSystem ω δ β × History τ ω} {action : NumberedAction ω δ β}
  {labels : List (NumberedAction ω δ β)}

private theorem query_step (moves : Step before.1 action after.1) :
    after.1.actor.queryId = remembered before.1.actor.queryId action := by
  rcases after with ⟨next,later⟩
  cases moves with
  | loadMemoryDelta op msg pump order =>
    change (loadMemoryDelta before.1.actor msg pump).1.queryId = msg.queryId
    unfold loadMemoryDelta
    by_cases new : msg.queryId = before.1.actor.queryId
    · simp [new]
    · simp [new,deltaPump]
  | deltaPump pump => rfl
  | storeMergedDelta op msg loaded some_ => rfl

omit [DecidableEq τ] [DecidableEq ω] in
private theorem pumps_of_added {system : NumberedSystem ω δ β} {table : τ} {partition : Int}
    {d : DeltaCacheData (Numbered (δ table))} (added : d ∈ action.added system table partition) :
    Pumps system.actor.queryId action := by
  obtain ⟨pump,made,_⟩ := List.mem_flatMap.mp added
  cases action with
  | loadMemoryDelta op msg pump' deltas =>
    by_contra same
    have known : msg.queryId = system.actor.queryId := not_not.mp same
    simp [Action.pump,known] at made
  | deltaPump pump' => trivial
  | storeMergedDelta op held msg => simp [Action.pump] at made

private theorem pumped_mono {history : History τ ω} {system : NumberedSystem ω δ β} {table : τ}
    {partition : Int} {number : Nat} (member : number ∈ history.pumped table partition) :
    number ∈ (history.after system action).pumped table partition :=
  List.mem_append_right _ member

private theorem cachedFrom_step (reflecting : Reflecting labels before) (step : NoLostDelta.StepTo before action after)
    {table : τ} {partition : Int} {d : DeltaCacheData (Numbered (δ table))}
    (member : d ∈ after.1.cached table partition) {number : Nat} (stands : number ∈ d.delta.lineage) :
    number ∈ after.2.pumped table partition := by
  obtain ⟨moves,numbers,history⟩ := step
  rw [history]
  by_cases replaces : action.StoresTo table partition
  · cases action with
    | loadMemoryDelta op msg pump deltas => exact replaces.elim
    | deltaPump pump => exact replaces.elim
    | storeMergedDelta op held msg =>
      obtain ⟨rfl,rfl⟩ := replaces
      rw [moves.cached_store] at member
      obtain rfl := List.mem_singleton.mp member
      rw [numbers.2.2] at stands
      obtain ⟨e,inside,own⟩ := List.mem_flatMap.mp stands
      exact pumped_mono (reflecting.heldFrom op held moves.held_of_store e inside number own)
  · rw [moves.cached replaces] at member
    rcases List.mem_append.mp member with new | old
    · obtain ⟨same,own⟩ := numbers.1 table partition d new
      rw [own,List.mem_singleton] at stands
      exact List.mem_append_left _ (List.mem_map.mpr ⟨d,new,same.trans stands.symm⟩)
    · exact pumped_mono (reflecting.cachedFrom table partition d old number stands)

private theorem heldFrom_step (reflecting : Reflecting labels before) (step : NoLostDelta.StepTo before action after)
    {op : ω} {held : Held (fun table => Numbered (δ table)) β} (found : after.1.held op = some held)
    {d : DeltaCacheData (Numbered (δ held.table))} (member : d ∈ held.deltas) {number : Nat}
    (stands : number ∈ d.delta.lineage) : number ∈ after.2.pumped held.table held.partition := by
  rcases step.1.held found with ⟨old,_⟩ | ⟨_,perm⟩
  · rw [step.2.2]
    exact pumped_mono (reflecting.heldFrom op held old d member number stands)
  · exact cachedFrom_step reflecting step (perm.mem_iff.mp member) stands

private theorem pumpedAt_step (reflecting : Reflecting labels before) (step : NoLostDelta.StepTo before action after)
    {table : τ} {partition : Int} {number : Nat} (member : number ∈ after.2.pumped table partition) :
    ∃ i action', number = i+1 ∧ (labels ++ [action])[i]? = some action' ∧
      Pumps (lastQuery ((labels ++ [action]).take i)) action' := by
  obtain ⟨moves,numbers,history⟩ := step
  rw [history] at member
  rcases List.mem_append.mp member with new | old
  · obtain ⟨d,added,rfl⟩ := List.mem_map.mp new
    refine ⟨labels.length,action,?_,List.getElem?_concat_length,?_⟩
    · rw [(numbers.1 table partition d added).1,reflecting.count]
    · rw [List.take_left,← reflecting.query]
      exact pumps_of_added added
  · obtain ⟨i,action',rfl,found,pumps⟩ := reflecting.pumpedAt table partition number old
    have inside : i < labels.length := (List.getElem?_eq_some_iff.mp found).1
    refine ⟨i,action',rfl,?_,?_⟩
    · rw [List.getElem?_append_left inside,found]
    · rw [List.take_append_of_le_length (le_of_lt inside)]
      exact pumps

private theorem loaded_step (reflecting : Reflecting labels before) (undisturbed : Undisturbed before action)
    (step : NoLostDelta.StepTo before action after) {i : Nat} {msg : LoadDeltaRequestMessage τ}
    {deltas : List (DeltaCacheData (Numbered (δ msg.table)))} (loads : Loads (labels ++ [action]) i msg deltas)
    (number : Nat) :
    Reflects deltas number ↔ number ∈ after.2.pumped msg.table msg.deltaKey ∧ number ≤ i+1 := by
  obtain ⟨op,pump,found⟩ := loads
  by_cases earlier : i < labels.length
  · rw [List.getElem?_append_left earlier] at found
    rw [reflecting.loaded i msg deltas ⟨op,pump,found⟩ number,step.2.2]
    refine ⟨fun both => ⟨pumped_mono both.1,both.2⟩,fun both => ⟨?_,both.2⟩⟩
    rcases List.mem_append.mp both.1 with new | old
    · obtain ⟨d,added,same⟩ := List.mem_map.mp new
      have now := (step.2.1.1 msg.table msg.deltaKey d added).1
      have count := reflecting.count
      omega
    · exact old
  · have last : i = labels.length := by
      have inside := (List.getElem?_eq_some_iff.mp found).1
      rw [List.length_append,List.length_singleton] at inside
      omega
    subst last
    rw [List.getElem?_concat_length,Option.some.injEq] at found
    subst found
    have keeps := keeps_step reflecting.keeps undisturbed step
    have returned := step.1.returned
    constructor
    · rintro ⟨d,member,stands⟩
      have inPumped := cachedFrom_step reflecting step (returned.mem_iff.mp member) stands
      obtain ⟨k,_,rfl,found,_⟩ := pumpedAt_step reflecting step inPumped
      have inside := (List.getElem?_eq_some_iff.mp found).1
      rw [List.length_append,List.length_singleton] at inside
      exact ⟨inPumped,by omega⟩
    · rintro ⟨inPumped,_⟩
      obtain ⟨d,cached,stands⟩ := keeps.standsFor _ _ number inPumped
      exact ⟨d,returned.mem_iff.mpr cached,stands⟩

theorem reflecting_step (reflecting : Reflecting labels before) (undisturbed : Undisturbed before action)
    (step : NoLostDelta.StepTo before action after) : Reflecting (labels ++ [action]) after where
  keeps := keeps_step reflecting.keeps undisturbed step
  count := by
    rw [step.2.2,List.length_append,← reflecting.count]
    rfl
  query := by
    rw [query_step step.1,reflecting.query,lastQuery,lastQuery,List.foldl_append]
    rfl
  cachedFrom _ _ _ member _ stands := cachedFrom_step reflecting step member stands
  heldFrom _ _ found _ member _ stands := heldFrom_step reflecting step found member stands
  pumpedAt _ _ _ member := pumpedAt_step reflecting step member
  loaded _ _ _ loads := loaded_step reflecting undisturbed step loads

end Step

omit [DecidableEq τ] [DecidableEq ω] in
private theorem lastQuery_take {labels : List (NumberedAction ω δ β)} {query : Int} {first k : Nat}
    {action : NumberedAction ω δ β} (start : labels[first]? = some action)
    (own : ∀ other, remembered other action = query)
    (quiet : ∀ i a, first < i → i < k → labels[i]? = some a → ¬Pumps query a) (later : first < k)
    (inside : k ≤ labels.length) : lastQuery (labels.take k) = query := by
  induction k with
  | zero => cases later
  | succ k ih =>
    have here : k < labels.length := inside
    rw [List.take_succ_eq_append_getElem here,lastQuery,List.foldl_append]
    change remembered (lastQuery (labels.take k)) labels[k] = query
    rcases Nat.lt_succ_iff_lt_or_eq.mp later with before | rfl
    · rw [ih (fun i a above below => quiet i a above (Nat.lt_succ_of_lt below)) before (le_of_lt here)]
      have calm := quiet k labels[k] before (Nat.lt_succ_self k) (List.getElem?_eq_getElem here)
      cases found : labels[k] with
      | loadMemoryDelta op msg pump deltas =>
        rw [found] at calm
        exact not_not.mp calm
      | deltaPump pump => rfl
      | storeMergedDelta op held msg => rfl
    · rw [List.getElem?_eq_getElem here,Option.some.injEq] at start
      rw [start]
      exact own _

/-- Between the loads of the query comes no CacheDelta and no load of another query. -/
def Unseparated (labels : List (NumberedAction ω δ β)) (query : Int) : Prop :=
  ∀ i j msg deltas msg' deltas', Loads labels i msg deltas → Loads labels j msg' deltas' →
    msg.queryId = query → msg'.queryId = query → ∀ k action, i < k → k < j → labels[k]? = some action →
      ¬Pumps query action

omit [DecidableEq τ] [DecidableEq ω] in
private theorem consistent_of_unseparated {labels : List (NumberedAction ω δ β)}
    {state : NumberedSystem ω δ β × History τ ω} (reflecting : Reflecting labels state) {query : Int}
    (unseparated : Unseparated labels query) : Consistent labels state.2.pumped query := by
  classical
  by_cases some_ : ∃ i msg deltas, Loads labels i msg deltas ∧ msg.queryId = query
  · obtain ⟨msg,deltas,loads,own⟩ := Nat.find_spec some_
    refine ⟨Nat.find some_+1,?_⟩
    intro j msg' deltas' loads' own' number
    have first : Nat.find some_ ≤ j := Nat.find_min' some_ ⟨msg',deltas',loads',own'⟩
    rw [reflecting.loaded j msg' deltas' loads' number]
    refine and_congr_right ?_
    intro member
    refine ⟨?_,fun early => by omega⟩
    intro early
    obtain ⟨k,action,rfl,found,pumps⟩ := reflecting.pumpedAt _ _ number member
    by_contra late
    obtain ⟨op,pump,start⟩ := loads
    obtain ⟨op',pump',last⟩ := loads'
    have quiet : ∀ i a, Nat.find some_ < i → i < j → labels[i]? = some a → ¬Pumps query a :=
      unseparated _ _ msg deltas msg' deltas' ⟨op,pump,start⟩ ⟨op',pump',last⟩ own own'
    have inside : k < labels.length := (List.getElem?_eq_some_iff.mp found).1
    rw [lastQuery_take start (fun _ => own) (fun i a above below => quiet i a above (by omega)) (by omega)
      (le_of_lt inside)] at pumps
    rcases Nat.lt_succ_iff_lt_or_eq.mp early with before | same
    · exact quiet k action (by omega) (by omega) found pumps
    · obtain rfl : k = j := by omega
      rw [found,Option.some.injEq] at last
      rw [last] at pumps
      exact pumps own'
  · refine ⟨0,?_⟩
    intro i msg deltas loads own
    exact absurd ⟨i,msg,deltas,loads,own⟩ some_

/-- A load reflects exactly the pumps made by the time it is answered, its own included.
So all loads of a query reflect the same pumps when nothing pumps between them. -/
theorem loads_reflect {labels : List (NumberedAction ω δ β)} {state : NumberedSystem ω δ β × History τ ω}
    (run : Run (Meeting Undisturbed NoLostDelta.StepTo)
      (System.initial ω (fun table => Numbered (δ table)) β,History.initial τ ω) labels state) :
    (∀ i msg deltas, Loads labels i msg deltas → ∀ number,
        Reflects deltas number ↔ number ∈ state.2.pumped msg.table msg.deltaKey ∧ number ≤ i+1) ∧
      ∀ query, Unseparated labels query → Consistent labels state.2.pumped query := by
  have reflecting : Reflecting labels state := run.invariant_labels Reflecting reflecting_initial
    (fun _ _ _ _ reflecting meets => reflecting_step reflecting meets.1 meets.2)
  exact ⟨reflecting.loaded,fun query unseparated => consistent_of_unseparated reflecting unseparated⟩

section Examples

/-- A pump that finds events of the partitions 0 and 1. -/
def pumpBoth (number : Nat) : Pump (fun _ : Unit => Numbered Unit) :=
  ⟨fun _ => [(0,⟨(),number,[number]⟩),(1,⟨(),number,[number]⟩)],1000*number,by simp⟩

abbrev ExampleState := NumberedSystem Nat (fun _ : Unit => Unit) Unit × History Unit Nat

def start : ExampleState := (System.initial _ _ _,History.initial _ _)

/-- Operator `op` loads its partition for the query; if the actor pumps, it finds `pumpBoth`. -/
def load (before : ExampleState) (op : Nat) (partition query : Int) :
    NumberedAction Nat (fun _ : Unit => Unit) Unit :=
  .loadMemoryDelta op ⟨(),partition,query⟩ (pumpBoth (before.2.steps+1))
    (loadMemoryDelta before.1.actor ⟨(),partition,query⟩ (pumpBoth (before.2.steps+1))).2.deltas

def afterLoad (before : ExampleState) (op : Nat) (partition query : Int) : ExampleState :=
  let result := loadMemoryDelta before.1.actor ⟨(),partition,query⟩ (pumpBoth (before.2.steps+1))
  (⟨result.1,Function.update before.1.held op (some ⟨(),partition,result.2.deltas,result.2.stableBm⟩)⟩,
    before.2.after before.1 (load before op partition query))

def afterPump (before : ExampleState) : ExampleState :=
  (⟨deltaPump before.1.actor (pumpBoth (before.2.steps+1)),before.1.held⟩,
    before.2.after before.1 (.deltaPump (pumpBoth (before.2.steps+1))))

private theorem numbers_pumpBoth {system : NumberedSystem Nat (fun _ : Unit => Unit) Unit} {number : Nat}
    {action : NumberedAction Nat (fun _ : Unit => Unit) Unit}
    (made : action.pump system = none ∨ action.pump system = some (pumpBoth number)) {table : Unit} {partition : Int}
    {d : DeltaCacheData (Numbered Unit)} (added : d ∈ action.added system table partition) :
    d.delta.number = number ∧ d.delta.lineage = [number] := by
  obtain ⟨pump,own,found⟩ := List.mem_flatMap.mp added
  rcases made with none_ | some_
  · rw [none_] at own
    cases own
  · rw [some_,Option.toList_some,List.mem_singleton] at own
    subst own
    obtain ⟨delta,stored,rfl⟩ := List.mem_map.mp found
    obtain ⟨front,back,split,_⟩ := List.lookup_eq_some_iff.mp (Option.mem_toList.mp stored)
    have entry : (partition,delta) ∈ (pumpBoth number).deltas table := by
      rw [split]
      exact List.mem_append_right _ List.mem_cons_self
    have both : (partition = 0 ∨ partition = 1) ∧ delta = ⟨(),number,[number]⟩ := by
      simpa [pumpBoth,or_and_right] using entry
    rw [both.2]
    exact ⟨rfl,rfl⟩

private theorem step_load (before : ExampleState) (op : Nat) (partition query : Int) :
    Meeting Undisturbed NoLostDelta.StepTo before (load before op partition query)
      (afterLoad before op partition query) := by
  refine ⟨trivial,Step.loadMemoryDelta op _ _ (List.Perm.refl _),⟨?_,trivial⟩,rfl⟩
  intro table place d added
  apply numbers_pumpBoth _ added
  by_cases new : query = before.1.actor.queryId
  · simp [load,Action.pump,new]
  · simp [load,Action.pump,new]

private theorem step_pump (before : ExampleState) :
    Meeting Undisturbed NoLostDelta.StepTo before (.deltaPump (pumpBoth (before.2.steps+1))) (afterPump before) :=
  ⟨trivial,Step.deltaPump _,⟨fun _ _ _ added => numbers_pumpBoth (Or.inr rfl) added,trivial⟩,rfl⟩

/-- Query 7 loads partition 0, query 8 loads, CacheDelta comes, and query 7 loads partition 1. -/
def interleaved : ExampleState := afterLoad (afterPump (afterLoad (afterLoad start 0 0 7) 1 0 8)) 2 1 7

def interleavedLabels : List (NumberedAction Nat (fun _ : Unit => Unit) Unit) :=
  [load start 0 0 7,load (afterLoad start 0 0 7) 1 0 8,.deltaPump (pumpBoth 3),
    load (afterPump (afterLoad (afterLoad start 0 0 7) 1 0 8)) 2 1 7]

/-- The two partitions of query 7 reflect different pumps. -/
theorem pumped_between_loads : Run NoLostDelta.StepTo start interleavedLabels interleaved ∧
    ¬Consistent interleavedLabels interleaved.2.pumped 7 := by
  refine ⟨(((Run.nil.snoc (step_load start 0 0 7).2).snoc (step_load _ 1 0 8).2).snoc (step_pump _).2).snoc
    (step_load _ 2 1 7).2,?_⟩
  rintro ⟨upTo,same⟩
  have first := same 0 ⟨(),0,7⟩ _ ⟨0,pumpBoth 1,rfl⟩ rfl 2
  have last := same 3 ⟨(),1,7⟩ _ ⟨2,pumpBoth 4,rfl⟩ rfl 2
  have reflected : Reflects (loadMemoryDelta (afterPump (afterLoad (afterLoad start 0 0 7) 1 0 8)).1.actor
      ⟨(),1,7⟩ (pumpBoth 4)).2.deltas 2 := by
    unfold Reflects
    decide
  have missed : ¬Reflects (loadMemoryDelta start.1.actor ⟨(),0,7⟩ (pumpBoth 1)).2.deltas 2 := by
    unfold Reflects
    decide
  have pumped : 2 ∈ interleaved.2.pumped () 0 := by decide
  exact missed (first.mpr ⟨pumped,(last.mp reflected).2⟩)

private theorem unseparated_pair : Unseparated [load start 0 0 7,load (afterLoad start 0 0 7) 1 1 7] 7 := by
  rintro i j msg deltas msg' deltas' _ ⟨op,pump,found⟩ _ _ k action above below
  have inside := (List.getElem?_eq_some_iff.mp found).1
  simp only [List.length_cons,List.length_nil] at inside
  omega

/-- The two loads of a query follow each other. -/
theorem loads_in_a_row_consistent :
    Consistent [load start 0 0 7,load (afterLoad start 0 0 7) 1 1 7]
      (afterLoad (afterLoad start 0 0 7) 1 1 7).2.pumped 7 :=
  (loads_reflect ((Run.nil.snoc (step_load start 0 0 7)).snoc (step_load _ 1 1 7))).2 7 unseparated_pair

end Examples

end Hermes.QuerySnapshot
