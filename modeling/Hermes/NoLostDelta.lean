import Hermes.DeltaCacheSystem

/-! Which pumped versions survive the stores of merged deltas.
Every version carries the number of the handler run that stored it and the
numbers of the pumped versions it stands for. A store removes whatever is cached
for its partition, and that is what its operator has loaded only if nothing was
stored there in between. -/
namespace Hermes.NoLostDelta
open Hermes.Delta Hermes.DeltaMergePOp Hermes.DeltaCacheActor Hermes.DeltaCacheSystem
open Hermes.Library.Transition
variable {τ ω : Type} [DecidableEq τ] [DecidableEq ω] {δ : τ → Type} {β : Type}

structure Numbered (ε : Type) where
  delta : ε
  number : Nat
  lineage : List Nat

abbrev NumberedSystem (ω : Type) (δ : τ → Type) (β : Type) := System ω (fun table => Numbered (δ table)) β

abbrev NumberedAction (ω : Type) (δ : τ → Type) (β : Type) := Action ω (fun table => Numbered (δ table)) β

/-- What happened so far: the versions pumped and those merged deltas were computed
from, when a version was last stored for a partition, and when an operator loaded. -/
structure History (τ ω : Type) where
  steps : Nat
  pumped : τ → Int → List Nat
  absorbed : τ → Int → List Nat
  stored : τ → Int → Nat
  loadedAt : ω → Nat

def History.initial (τ ω : Type) : History τ ω := ⟨0,fun _ _ => [],fun _ _ => [],fun _ _ => 0,fun _ => 0⟩

def Stores (system : NumberedSystem ω δ β) (action : NumberedAction ω δ β) (table : τ) (partition : Int) : Prop :=
  (action.added system table partition).length ≠ 0 ∨ action.StoresTo table partition

instance (system : NumberedSystem ω δ β) (action : NumberedAction ω δ β) (table : τ) (partition : Int) :
    Decidable (Stores system action table partition) := by
  unfold Stores Action.StoresTo
  cases action <;> infer_instance

def History.after (history : History τ ω) (system : NumberedSystem ω δ β) (action : NumberedAction ω δ β) :
    History τ ω where
  steps := history.steps+1
  pumped := fun table partition =>
    (action.added system table partition).map (·.delta.number) ++ history.pumped table partition
  absorbed := match action with
    | .storeMergedDelta _ held _ => fun table partition =>
      (if held.table = table ∧ held.partition = partition then held.deltas.map (·.delta.number) else []) ++
        history.absorbed table partition
    | _ => history.absorbed
  stored := fun table partition =>
    if Stores system action table partition then history.steps+1 else history.stored table partition
  loadedAt := match action with
    | .loadMemoryDelta op _ _ _ => Function.update history.loadedAt op (history.steps+1)
    | _ => history.loadedAt

/-- A pumped version stands for itself, a merged delta for what its operator loaded. -/
def Numbers (history : History τ ω) (system : NumberedSystem ω δ β) (action : NumberedAction ω δ β) : Prop :=
  (∀ table partition, ∀ d ∈ action.added system table partition,
    d.delta.number = history.steps+1 ∧ d.delta.lineage = [history.steps+1]) ∧
  match action with
  | .storeMergedDelta _ held msg => msg.mergedDelta.number = history.steps+1 ∧
    msg.mergedDelta.lineage = held.deltas.flatMap (·.delta.lineage)
  | _ => True

def StepTo (before : NumberedSystem ω δ β × History τ ω) (action : NumberedAction ω δ β)
    (after : NumberedSystem ω δ β × History τ ω) : Prop :=
  Step before.1 action after.1 ∧ Numbers before.2 before.1 action ∧ after.2 = before.2.after before.1 action

/-- Nothing was stored for the partition between the operator's load and its store. -/
def Undisturbed (before : NumberedSystem ω δ β × History τ ω) (action : NumberedAction ω δ β) : Prop :=
  match action with
  | .storeMergedDelta op held _ => before.2.stored held.table held.partition ≤ before.2.loadedAt op
  | _ => True

/-- Every pumped version is cached, or a stored merged delta was computed from it. -/
def NoneLost (system : NumberedSystem ω δ β) (history : History τ ω) : Prop :=
  ∀ table partition, ∀ number ∈ history.pumped table partition,
    (∃ d ∈ system.cached table partition, d.delta.number = number) ∨ number ∈ history.absorbed table partition

/-- A store takes away only what its operator has loaded. -/
def RemovesLoaded (system : NumberedSystem ω δ β) (action : NumberedAction ω δ β) : Prop :=
  match action with
  | .storeMergedDelta _ held _ => ∀ d ∈ system.cached held.table held.partition, d ∈ held.deltas
  | _ => True

structure Keeps (state : NumberedSystem ω δ β × History τ ω) : Prop where
  earlier : ∀ op held, state.1.held op = some held → state.2.loadedAt op ≤ state.2.steps
  current : ∀ op held, state.1.held op = some held →
    state.2.stored held.table held.partition ≤ state.2.loadedAt op →
    held.deltas.Perm (state.1.cached held.table held.partition)
  noneLost : NoneLost state.1 state.2
  standsFor : ∀ table partition, ∀ number ∈ state.2.pumped table partition,
    ∃ d ∈ state.1.cached table partition, number ∈ d.delta.lineage

omit [DecidableEq τ] [DecidableEq ω] in
theorem keeps_initial : Keeps (System.initial ω (fun table => Numbered (δ table)) β,History.initial τ ω) := by
  refine ⟨?_,?_,?_,?_⟩ <;> simp [System.initial,History.initial,NoneLost]

section Step
variable {before after : NumberedSystem ω δ β × History τ ω} {action : NumberedAction ω δ β}

private theorem loadedAt_other {history : History τ ω} {system : NumberedSystem ω δ β} {op : ω}
    (other : ∀ msg pump deltas, action ≠ .loadMemoryDelta op msg pump deltas) :
    (history.after system action).loadedAt op = history.loadedAt op := by
  cases action with
  | loadMemoryDelta op' msg pump deltas =>
    have differs : op ≠ op' := by
      rintro rfl
      exact other msg pump deltas rfl
    exact Function.update_of_ne differs _ _
  | deltaPump pump => rfl
  | storeMergedDelta op' held msg => rfl

private theorem current_step (keeps : Keeps before) (step : StepTo before action after) {op : ω}
    {held : Held (fun table => Numbered (δ table)) β} (found : after.1.held op = some held) :
    after.2.loadedAt op ≤ after.2.steps ∧ (after.2.stored held.table held.partition ≤ after.2.loadedAt op →
      held.deltas.Perm (after.1.cached held.table held.partition)) := by
  obtain ⟨moves,_,history⟩ := step
  rw [history]
  rcases moves.held found with ⟨old,other⟩ | ⟨⟨msg,pump,deltas,rfl⟩,perm⟩
  · have bound := keeps.earlier op held old
    rw [loadedAt_other other]
    refine ⟨Nat.le_succ_of_le bound,?_⟩
    intro fresh
    have quiet : ¬Stores before.1 action held.table held.partition := by
      intro stores
      have now : (before.2.after before.1 action).stored held.table held.partition = before.2.steps+1 :=
        if_pos stores
      omega
    have same : (before.2.after before.1 action).stored held.table held.partition =
        before.2.stored held.table held.partition := if_neg quiet
    rw [same] at fresh
    have nothing : action.added before.1 held.table held.partition = [] := by
      by_contra some_
      exact quiet (Or.inl (fun zero => some_ (List.length_eq_zero_iff.mp zero)))
    rw [moves.cached (fun stores => quiet (Or.inr stores)),nothing,List.nil_append]
    exact keeps.current op held old fresh
  · have now : (before.2.after before.1 (.loadMemoryDelta op msg pump deltas)).loadedAt op =
        before.2.steps+1 := Function.update_self _ _ _
    rw [now]
    exact ⟨le_refl _,fun _ => perm⟩

theorem removesLoaded (keeps : Keeps before) (undisturbed : Undisturbed before action)
    (step : StepTo before action after) : RemovesLoaded before.1 action := by
  rcases after with ⟨next,later⟩
  obtain ⟨moves,_,_⟩ := step
  cases moves with
  | loadMemoryDelta op msg pump order => trivial
  | deltaPump pump => trivial
  | storeMergedDelta op msg loaded some_ =>
    exact fun d member => (keeps.current op _ loaded undisturbed).mem_iff.mpr member

private theorem cached_mono (moves : Step before.1 action after.1) {table : τ} {partition : Int}
    (other : ¬action.StoresTo table partition) {d : DeltaCacheData (Numbered (δ table))}
    (member : d ∈ action.added before.1 table partition ∨ d ∈ before.1.cached table partition) :
    d ∈ after.1.cached table partition := by
  rw [moves.cached other]
  exact List.mem_append.mpr member

private theorem absorbed_mono {history : History τ ω} {system : NumberedSystem ω δ β} {table : τ}
    {partition : Int} {number : Nat} (member : number ∈ history.absorbed table partition) :
    number ∈ (history.after system action).absorbed table partition := by
  cases action with
  | loadMemoryDelta op msg pump deltas => exact member
  | deltaPump pump => exact member
  | storeMergedDelta op held msg => exact List.mem_append_right _ member

private theorem noneLost_step (keeps : Keeps before) (removes : RemovesLoaded before.1 action)
    (moves : Step before.1 action after.1) : NoneLost after.1 (before.2.after before.1 action) := by
  intro table partition number member
  by_cases replaces : action.StoresTo table partition
  · cases action with
    | storeMergedDelta op held msg =>
      obtain ⟨rfl,rfl⟩ := replaces
      rcases keeps.noneLost _ _ number member with ⟨d,cached,same⟩ | absorbed
      · refine Or.inr (List.mem_append_left _ ?_)
        rw [if_pos ⟨rfl,rfl⟩]
        exact List.mem_map.mpr ⟨d,removes d cached,same⟩
      · exact Or.inr (absorbed_mono absorbed)
    | loadMemoryDelta op msg pump deltas => exact replaces.elim
    | deltaPump pump => exact replaces.elim
  · rcases List.mem_append.mp member with new | old
    · obtain ⟨d,added,same⟩ := List.mem_map.mp new
      exact Or.inl ⟨d,cached_mono moves replaces (Or.inl added),same⟩
    · rcases keeps.noneLost _ _ number old with ⟨d,cached,same⟩ | absorbed
      · exact Or.inl ⟨d,cached_mono moves replaces (Or.inr cached),same⟩
      · exact Or.inr (absorbed_mono absorbed)

private theorem standsFor_step (keeps : Keeps before) (removes : RemovesLoaded before.1 action)
    (moves : Step before.1 action after.1) (numbers : Numbers before.2 before.1 action) (table : τ)
    (partition : Int) (number : Nat)
    (member : number ∈ (before.2.after before.1 action).pumped table partition) :
    ∃ d ∈ after.1.cached table partition, number ∈ d.delta.lineage := by
  by_cases replaces : action.StoresTo table partition
  · cases action with
    | storeMergedDelta op held msg =>
      obtain ⟨rfl,rfl⟩ := replaces
      obtain ⟨d,cached,stands⟩ := keeps.standsFor _ _ number member
      refine ⟨⟨msg.mergedDelta,before.1.actor.lastTimestamp⟩,?_,?_⟩
      · rw [moves.cached_store]
        exact List.mem_singleton_self _
      · rw [numbers.2.2]
        exact List.mem_flatMap.mpr ⟨d,removes d cached,stands⟩
    | loadMemoryDelta op msg pump deltas => exact replaces.elim
    | deltaPump pump => exact replaces.elim
  · rcases List.mem_append.mp member with new | old
    · obtain ⟨d,added,rfl⟩ := List.mem_map.mp new
      obtain ⟨own,stands⟩ := numbers.1 table partition d added
      exact ⟨d,cached_mono moves replaces (Or.inl added),by rw [own,stands]; simp⟩
    · obtain ⟨d,cached,stands⟩ := keeps.standsFor _ _ number old
      exact ⟨d,cached_mono moves replaces (Or.inr cached),stands⟩

theorem keeps_step (keeps : Keeps before) (undisturbed : Undisturbed before action)
    (step : StepTo before action after) : Keeps after := by
  have removes := removesLoaded keeps undisturbed step
  refine ⟨fun op held found => (current_step keeps step found).1,
    fun op held found => (current_step keeps step found).2,?_,?_⟩
  · rw [step.2.2]
    exact noneLost_step keeps removes step.1
  · rw [step.2.2]
    exact standsFor_step keeps removes step.1 step.2.1

end Step

/-- In every run whose stores are undisturbed no pumped version is lost, what is
cached stands for all that was pumped, and a store that is undisturbed as well
takes away only what its operator has loaded. -/
theorem no_lost_delta {labels : List (NumberedAction ω δ β)} {state : NumberedSystem ω δ β × History τ ω}
    (run : Run (Meeting Undisturbed StepTo)
      (System.initial ω (fun table => Numbered (δ table)) β,History.initial τ ω) labels state) :
    NoneLost state.1 state.2 ∧
      (∀ table partition, ∀ number ∈ state.2.pumped table partition,
        ∃ d ∈ state.1.cached table partition, number ∈ d.delta.lineage) ∧
      ∀ action after, Meeting Undisturbed StepTo state action after → RemovesLoaded state.1 action := by
  have keeps : Keeps state := run.invariant Keeps keeps_initial
    (fun before action after keeps meets => keeps_step keeps meets.1 meets.2)
  exact ⟨keeps.noneLost,keeps.standsFor,fun action after meets => removesLoaded keeps meets.1 meets.2⟩

section Examples

/-- A pump that finds a delta of partition 0, as handler run `number` stores it. -/
def pumpOne (number : Nat) (timestamp : Int) : Pump (fun _ : Unit => Numbered Unit) :=
  ⟨fun _ => [(0,⟨(),number,[number]⟩)],timestamp,by simp⟩

def loadZero : LoadDeltaRequestMessage Unit := ⟨(),0,1⟩

def heldFirst : Held (fun _ : Unit => Numbered Unit) (List Bool) := ⟨(),0,[⟨⟨(),1,[1]⟩,1000⟩],none⟩

def loadFirst : NumberedAction Unit (fun _ : Unit => Unit) (List Bool) :=
  .loadMemoryDelta () loadZero (pumpOne 1 1000) heldFirst.deltas

def storeFirst (number : Nat) : NumberedAction Unit (fun _ : Unit => Unit) (List Bool) :=
  .storeMergedDelta () heldFirst ⟨⟨(),number,[1]⟩,none⟩

def beforeLoad : NumberedSystem Unit (fun _ : Unit => Unit) (List Bool) × History Unit Unit :=
  (System.initial _ _ _,History.initial _ _)

def afterLoad : NumberedSystem Unit (fun _ : Unit => Unit) (List Bool) × History Unit Unit :=
  (⟨(loadMemoryDelta beforeLoad.1.actor loadZero (pumpOne 1 1000)).1,
    Function.update beforeLoad.1.held () (some heldFirst)⟩,beforeLoad.2.after beforeLoad.1 loadFirst)

def afterPump : NumberedSystem Unit (fun _ : Unit => Unit) (List Bool) × History Unit Unit :=
  (⟨deltaPump afterLoad.1.actor (pumpOne 2 2000),afterLoad.1.held⟩,
    afterLoad.2.after afterLoad.1 (.deltaPump (pumpOne 2 2000)))

def afterStore (before : NumberedSystem Unit (fun _ : Unit => Unit) (List Bool) × History Unit Unit)
    (number : Nat) : NumberedSystem Unit (fun _ : Unit => Unit) (List Bool) × History Unit Unit :=
  (⟨storeMergedDelta before.1.actor () 0 ⟨⟨(),number,[1]⟩,none⟩,Function.update before.1.held () none⟩,
    before.2.after before.1 (storeFirst number))

private theorem numbers_pumpOne (number : Nat) (timestamp : Int) (table : Unit) (partition : Int) :
    ∀ d ∈ ((pumpOne number timestamp).delta table partition).toList.map
      (fun delta => (⟨delta,timestamp⟩ : DeltaCacheData (Numbered Unit))),
    d.delta.number = number ∧ d.delta.lineage = [number] := by
  intro d member
  by_cases here : partition = 0
  · subst here
    obtain rfl : d = ⟨⟨(),number,[number]⟩,timestamp⟩ := by simpa [Pump.delta,pumpOne] using member
    exact ⟨rfl,rfl⟩
  · have other : (partition == 0) = false := by simpa using here
    simp [Pump.delta,pumpOne,List.lookup_cons,other] at member

private theorem step_loadFirst : StepTo beforeLoad loadFirst afterLoad := by
  refine ⟨Step.loadMemoryDelta () loadZero (pumpOne 1 1000) (List.Perm.refl _),⟨?_,trivial⟩,rfl⟩
  intro table partition d member
  apply numbers_pumpOne 1 1000 table partition d
  rwa [show loadFirst.added beforeLoad.1 table partition = _ from List.flatMap_singleton _ _] at member

private theorem step_pumpSecond : StepTo afterLoad (.deltaPump (pumpOne 2 2000)) afterPump := by
  refine ⟨Step.deltaPump (pumpOne 2 2000),⟨?_,trivial⟩,rfl⟩
  intro table partition d member
  apply numbers_pumpOne 2 2000 table partition d
  rwa [show (Action.deltaPump (pumpOne 2 2000)).added afterLoad.1 table partition = _ from
    List.flatMap_singleton _ _] at member

private theorem step_storeFirst {before : NumberedSystem Unit (fun _ : Unit => Unit) (List Bool) × History Unit Unit}
    {number : Nat} (loaded : before.1.held () = some heldFirst) (next : number = before.2.steps+1) :
    StepTo before (storeFirst number) (afterStore before number) := by
  subst next
  refine ⟨Step.storeMergedDelta () _ loaded (List.cons_ne_nil _ _),⟨?_,rfl,rfl⟩,rfl⟩
  intro table partition d member
  exact absurd member List.not_mem_nil

/-- A version pumped while an operator merges is removed with the ones it loaded. -/
theorem pumped_while_merging_lost : ∃ state, Run StepTo
      (System.initial Unit (fun _ : Unit => Numbered Unit) (List Bool),History.initial Unit Unit)
      [loadFirst,.deltaPump (pumpOne 2 2000),storeFirst 3] state ∧ ¬NoneLost state.1 state.2 := by
  have store : StepTo afterPump (storeFirst 3) (afterStore afterPump 3) := step_storeFirst rfl rfl
  refine ⟨_,((Run.nil.snoc step_loadFirst).snoc step_pumpSecond).snoc store,?_⟩
  intro noneLost
  rcases noneLost () 0 2 (by decide) with ⟨d,cached,same⟩ | absorbed
  · have merged : d ∈ [(⟨⟨(),3,[1]⟩,2000⟩ : DeltaCacheData (Numbered Unit))] := cached
    obtain rfl := List.mem_singleton.mp merged
    exact absurd same (by decide)
  · exact absurd absorbed (by decide)

private theorem run_merged : Run (Meeting Undisturbed StepTo)
    (System.initial Unit (fun _ : Unit => Numbered Unit) (List Bool),History.initial Unit Unit)
    [loadFirst,storeFirst 2] (afterStore afterLoad 2) := by
  have load : Meeting Undisturbed StepTo beforeLoad loadFirst afterLoad := ⟨trivial,step_loadFirst⟩
  have undisturbed : Undisturbed afterLoad (storeFirst 2) := le_refl 1
  exact (Run.nil.snoc load).snoc ⟨undisturbed,step_storeFirst rfl rfl⟩

/-- The operator stores what it merged before anything else is pumped. -/
theorem merged_before_next_pump_kept : ∃ d ∈ (afterStore afterLoad 2).1.cached () 0, 1 ∈ d.delta.lineage :=
  (no_lost_delta run_merged).2.1 () 0 1 (by decide)

end Examples

end Hermes.NoLostDelta
