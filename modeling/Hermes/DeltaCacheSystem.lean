import Hermes.DeltaCacheActor
import Hermes.Library.Transition

/-! The delta cache actor and the DeltaMerge operators that talk to it.
The actor handles one message at a time, and an operator answers what it has
loaded with one merged delta, so a run is a sequence of handled messages. What
a pump finds, the order in which versions are loaded and what a merge computes
are left to whoever uses the relation. -/
namespace Hermes.DeltaCacheSystem
open Hermes.Delta Hermes.DeltaMergePOp Hermes.DeltaCacheActor Hermes.Library.Transition
variable {τ ω : Type} [DecidableEq τ] [DecidableEq ω] {δ : τ → Type} {β : Type}

/-- What an operator has loaded and not merged yet. -/
structure Held (δ : τ → Type) (β : Type) where
  table : τ
  partition : Int
  deltas : List (DeltaCacheData (δ table))
  stableBm : Option β

structure System (ω : Type) (δ : τ → Type) (β : Type) where
  actor : DeltaCacheActorState δ β
  held : ω → Option (Held δ β)

def System.initial (ω : Type) (δ : τ → Type) (β : Type) : System ω δ β := ⟨makeBehaviour δ β,fun _ => none⟩

def System.cached (system : System ω δ β) (table : τ) (partition : Int) : List (DeltaCacheData (δ table)) :=
  (system.actor.cache table).load partition

omit [DecidableEq τ] [DecidableEq ω] in
@[simp] theorem System.cached_initial (table : τ) (partition : Int) :
    (System.initial ω δ β).cached table partition = [] := rfl

inductive Action (ω : Type) (δ : τ → Type) (β : Type)
  | loadMemoryDelta (op : ω) (msg : LoadDeltaRequestMessage τ) (pump : Pump δ)
    (deltas : List (DeltaCacheData (δ msg.table)))
  | deltaPump (pump : Pump δ)
  | storeMergedDelta (op : ω) (held : Held δ β) (msg : MergedDeltaMessage (δ held.table) β)

/-- The pump a handler makes: that of a load is made for a new query only. -/
def Action.pump (system : System ω δ β) : Action ω δ β → Option (Pump δ)
  | .loadMemoryDelta _ msg pump _ => if msg.queryId ≠ system.actor.queryId then some pump else none
  | .deltaPump pump => some pump
  | .storeMergedDelta _ _ _ => none

/-- What a handler adds to a partition by pumping. -/
def Action.added (system : System ω δ β) (action : Action ω δ β) (table : τ) (partition : Int) :
    List (DeltaCacheData (δ table)) :=
  (action.pump system).toList.flatMap
    (fun pump => (pump.delta table partition).toList.map (fun delta => ⟨delta,pump.timestamp⟩))

inductive Step : System ω δ β → Action ω δ β → System ω δ β → Prop
  | loadMemoryDelta {system : System ω δ β} (op : ω) (msg : LoadDeltaRequestMessage τ) (pump : Pump δ)
      {deltas : List (DeltaCacheData (δ msg.table))}
      (order : deltas.Perm (loadMemoryDelta system.actor msg pump).2.deltas) :
      Step system (.loadMemoryDelta op msg pump deltas)
        ⟨(loadMemoryDelta system.actor msg pump).1,Function.update system.held op
          (some ⟨msg.table,msg.deltaKey,deltas,(loadMemoryDelta system.actor msg pump).2.stableBm⟩)⟩
  | deltaPump {system : System ω δ β} (pump : Pump δ) :
      Step system (.deltaPump pump) ⟨deltaPump system.actor pump,system.held⟩
  | storeMergedDelta {system : System ω δ β} (op : ω) {held : Held δ β}
      (msg : MergedDeltaMessage (δ held.table) β) (loaded : system.held op = some held)
      (some_ : held.deltas ≠ []) :
      Step system (.storeMergedDelta op held msg)
        ⟨storeMergedDelta system.actor held.table held.partition msg,Function.update system.held op none⟩

/-- The action replaces what is cached for the partition. -/
def Action.StoresTo (action : Action ω δ β) (table : τ) (partition : Int) : Prop :=
  match action with
  | .storeMergedDelta _ held _ => held.table = table ∧ held.partition = partition
  | _ => False

section Effects
variable {system next : System ω δ β} {action : Action ω δ β}

omit [DecidableEq τ] [DecidableEq ω] in
theorem cached_loadMemoryDelta (op : ω) (msg : LoadDeltaRequestMessage τ) (pump : Pump δ)
    (deltas : List (DeltaCacheData (δ msg.table))) (held : ω → Option (Held δ β)) (table : τ)
    (partition : Int) :
    (⟨(loadMemoryDelta system.actor msg pump).1,held⟩ : System ω δ β).cached table partition =
      (Action.loadMemoryDelta op msg pump deltas).added system table partition ++
        system.cached table partition := by
  unfold System.cached Action.added Action.pump loadMemoryDelta
  by_cases new : msg.queryId ≠ system.actor.queryId
  · simp only [if_pos new,Option.toList_some,List.flatMap_singleton]
    exact load_deltaPump {system.actor with queryId := msg.queryId} pump table partition
  · simp [new]

theorem Step.cached (step : Step system action next) {table : τ} {partition : Int}
    (other : ¬action.StoresTo table partition) :
    next.cached table partition = action.added system table partition ++ system.cached table partition := by
  cases step with
  | loadMemoryDelta op msg pump order => exact cached_loadMemoryDelta op msg pump _ _ table partition
  | deltaPump pump =>
    unfold Action.added Action.pump
    rw [Option.toList_some,List.flatMap_singleton]
    exact load_deltaPump system.actor pump table partition
  | storeMergedDelta op msg loaded some_ =>
    apply load_storeMergedDelta_other
    rintro ⟨rfl,rfl⟩
    exact other ⟨rfl,rfl⟩

theorem Step.cached_store {op : ω} {held : Held δ β} {msg : MergedDeltaMessage (δ held.table) β}
    (step : Step system (.storeMergedDelta op held msg) next) :
    next.cached held.table held.partition = [⟨msg.mergedDelta,system.actor.lastTimestamp⟩] := by
  cases step with
  | storeMergedDelta _ _ loaded some_ => exact load_storeMergedDelta_self _ _ _ _

theorem Step.held_of_store {op : ω} {held : Held δ β} {msg : MergedDeltaMessage (δ held.table) β}
    (step : Step system (.storeMergedDelta op held msg) next) : system.held op = some held := by
  cases step with
  | storeMergedDelta _ _ loaded some_ => exact loaded

theorem Step.returned {op : ω} {msg : LoadDeltaRequestMessage τ} {pump : Pump δ}
    {deltas : List (DeltaCacheData (δ msg.table))}
    (step : Step system (.loadMemoryDelta op msg pump deltas) next) :
    deltas.Perm (next.cached msg.table msg.deltaKey) := by
  cases step with
  | loadMemoryDelta _ _ _ order => exact order

theorem Step.held (step : Step system action next) {op : ω} {held : Held δ β}
    (found : next.held op = some held) :
    (system.held op = some held ∧ ∀ msg pump deltas, action ≠ .loadMemoryDelta op msg pump deltas) ∨
      ((∃ msg pump deltas, action = .loadMemoryDelta op msg pump deltas) ∧
        held.deltas.Perm (next.cached held.table held.partition)) := by
  cases step with
  | @loadMemoryDelta op' msg pump deltas order =>
    change Function.update system.held op' _ op = _ at found
    by_cases same : op = op'
    · subst same
      rw [Function.update_self,Option.some.injEq] at found
      subst found
      exact Or.inr ⟨⟨msg,pump,deltas,rfl⟩,order⟩
    · rw [Function.update_of_ne same] at found
      refine Or.inl ⟨found,?_⟩
      intro msg' pump' deltas' equal
      exact same (Action.loadMemoryDelta.inj equal).1.symm
  | deltaPump pump => exact Or.inl ⟨found,by simp⟩
  | storeMergedDelta op' msg loaded some_ =>
    change Function.update system.held op' _ op = _ at found
    by_cases same : op = op'
    · subst same
      rw [Function.update_self] at found
      cases found
    · rw [Function.update_of_ne same] at found
      exact Or.inl ⟨found,by simp⟩

end Effects

end Hermes.DeltaCacheSystem
