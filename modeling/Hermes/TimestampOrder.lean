import Hermes.DeltaCacheSystem
import Hermes.KeepMapCacheMode
import Mathlib.Algebra.Ring.Nat

/-! The timestamps of the versions cached for a partition.
`cached` lists them as they were stored, the newest first. A pump stamps its
deltas with the second of the last log event it read, and a merged delta carries
the stamp of the latest pump, so two versions are told apart only if the later
one was pumped in another second than the earlier one is stamped with. -/
namespace Hermes.TimestampOrder
open Hermes.Delta Hermes.DeltaMergePOp Hermes.DeltaCacheActor Hermes.DeltaCacheSystem
open Hermes.KeepMapCacheMode Hermes.Library.Transition
variable {τ ω : Type} [DecidableEq τ] [DecidableEq ω] {δ : τ → Type} {β : Type}

/-- What the log parser reports at log time `clock`: 0 without an event, else the
32-bit second of the last event, in milliseconds. -/
def Reports (clock : Int) (pump : Pump δ) : Prop :=
  ((∀ table, pump.deltas table = []) ∧ pump.timestamp = 0) ∨
    ∃ seconds : Nat, 0 < seconds ∧ seconds < 2^32 ∧ pump.timestamp = 1000*seconds ∧ clock ≤ pump.timestamp

def logTime (clock : Int) (pump : Option (Pump δ)) : Int := pump.elim clock (fun pump => max clock pump.timestamp)

def StepTo (before : System ω δ β × Int) (action : Action ω δ β) (after : System ω δ β × Int) : Prop :=
  Step before.1 action after.1 ∧ (∀ pump ∈ action.pump before.1, Reports before.2 pump) ∧
    after.2 = logTime before.2 (action.pump before.1)

/-- No version is pumped in a second that another version of its partition is stamped with. -/
def NewSecond (before : System ω δ β × Int) (action : Action ω δ β) : Prop :=
  ∀ table partition, ∀ new ∈ action.added before.1 table partition,
    ∀ old ∈ before.1.cached table partition, old.timestamp ≠ new.timestamp

def Later {ε : Type} (newer older : DeltaCacheData ε) : Prop := older.timestamp < newer.timestamp ∧ 0 < newer.timestamp

def Ordered (system : System ω δ β) : Prop :=
  ∀ table partition, (system.cached table partition).Pairwise Later

/-- In whatever order several versions are loaded, the newest is the tail and the oldest the memory delta. -/
def PicksTailAndMem (system : System ω δ β) : Prop :=
  ∀ table partition, ∀ deltas : List (DeltaCacheData (δ table)),
    deltas.Perm (system.cached table partition) → 1 < deltas.length →
    ∃ posMem posTail, posMem ≠ posTail ∧
      positionTailAndMemDelta (deltas.map (·.timestamp)) = (some posMem,some posTail) ∧
      deltas[posMem]? = (system.cached table partition).getLast? ∧
      deltas[posTail]? = (system.cached table partition).head?

structure Stamped (state : System ω δ β × Int) : Prop where
  last : 0 ≤ state.1.actor.lastTimestamp ∧ state.1.actor.lastTimestamp ≤ state.2
  cached : ∀ table partition, ∀ d ∈ state.1.cached table partition, 0 ≤ d.timestamp ∧ d.timestamp ≤ state.2
  early : state.2 < 5000000000000

section Step
variable {before after : System ω δ β × Int} {action : Action ω δ β}

omit [DecidableEq τ] [DecidableEq ω] in
theorem Reports.bounds {clock : Int} {pump : Pump δ} (reports : Reports clock pump) :
    0 ≤ pump.timestamp ∧ pump.timestamp < 5000000000000 := by
  rcases reports with ⟨_,zero⟩ | ⟨seconds,positive,width,stamp,_⟩ <;> omega

omit [DecidableEq τ] [DecidableEq ω] in
theorem logTime_bounds {clock : Int} {pump : Option (Pump δ)} (reports : ∀ made ∈ pump, Reports clock made)
    (early : clock < 5000000000000) :
    clock ≤ logTime clock pump ∧ logTime clock pump < 5000000000000 ∧
      ∀ made ∈ pump, made.timestamp ≤ logTime clock pump := by
  cases pump with
  | none => exact ⟨Int.le_refl _,early,by simp⟩
  | some pump =>
    have bound := (reports pump rfl).bounds.2
    have greater : logTime clock (some pump) = max clock pump.timestamp := rfl
    refine ⟨by omega,by omega,?_⟩
    intro made same
    obtain rfl := Option.mem_some_iff.mp same
    omega

omit [DecidableEq τ] [DecidableEq ω] in
theorem added_stamp (reports : ∀ pump ∈ action.pump before.1, Reports before.2 pump) {table : τ}
    {partition : Int} {new : DeltaCacheData (δ table)} (added : new ∈ action.added before.1 table partition) :
    0 < new.timestamp ∧ before.2 ≤ new.timestamp ∧ ∃ pump ∈ action.pump before.1, new.timestamp = pump.timestamp := by
  obtain ⟨pump,pumped,found⟩ := List.mem_flatMap.mp added
  obtain ⟨delta,looked,rfl⟩ := List.mem_map.mp found
  have makes : pump ∈ action.pump before.1 := Option.mem_toList.mp pumped
  rcases reports pump makes with ⟨none,_⟩ | ⟨seconds,positive,_,stamp,later⟩
  · rw [Option.mem_toList,Pump.delta,none] at looked
    cases looked
  · have after : (0 : Int) < pump.timestamp := by omega
    exact ⟨after,later,pump,makes,rfl⟩

private theorem lastTimestamp_step {next : System ω δ β} (moves : Step before.1 action next) :
    next.actor.lastTimestamp = (action.pump before.1).elim before.1.actor.lastTimestamp (·.timestamp) := by
  cases moves with
  | loadMemoryDelta op msg pump order =>
    unfold Action.pump loadMemoryDelta
    by_cases new : msg.queryId ≠ before.1.actor.queryId
    · simp [new,deltaPump]
    · simp [new]
  | deltaPump pump => rfl
  | storeMergedDelta op msg loaded some_ => rfl

theorem stamped_step (stamped : Stamped before) (step : StepTo before action after) : Stamped after := by
  obtain ⟨moves,reports,clock⟩ := step
  obtain ⟨forward,early,reached⟩ := logTime_bounds reports stamped.early
  rw [← clock] at forward early reached
  refine ⟨?_,?_,early⟩
  · have last := stamped.last
    rw [lastTimestamp_step moves]
    cases makes : action.pump before.1 with
    | none => exact ⟨last.1,Int.le_trans last.2 forward⟩
    | some pump => exact ⟨(reports pump makes).bounds.1,reached pump makes⟩
  · intro table partition d member
    by_cases replaces : action.StoresTo table partition
    · cases action with
      | storeMergedDelta op held msg =>
        obtain ⟨rfl,rfl⟩ := replaces
        rw [moves.cached_store] at member
        obtain rfl := List.mem_singleton.mp member
        exact ⟨stamped.last.1,Int.le_trans stamped.last.2 forward⟩
      | loadMemoryDelta op msg pump deltas => exact replaces.elim
      | deltaPump pump => exact replaces.elim
    · rw [moves.cached replaces] at member
      rcases List.mem_append.mp member with added | old
      · obtain ⟨positive,_,pump,makes,stamp⟩ := added_stamp reports added
        exact ⟨Int.le_of_lt positive,stamp ▸ reached pump makes⟩
      · obtain ⟨nonnegative,bound⟩ := stamped.cached table partition d old
        exact ⟨nonnegative,Int.le_trans bound forward⟩

omit [DecidableEq τ] [DecidableEq ω] in
theorem added_pairwise (system : System ω δ β) (table : τ) (partition : Int) :
    (action.added system table partition).Pairwise Later := by
  unfold Action.added
  cases action.pump system with
  | none => exact List.Pairwise.nil
  | some pump =>
    rw [Option.toList_some,List.flatMap_singleton]
    cases pump.delta table partition with
    | none => exact List.Pairwise.nil
    | some delta => exact List.pairwise_singleton _ _

theorem ordered_step_iff (stamped : Stamped before) (ordered : Ordered before.1)
    (step : StepTo before action after) : Ordered after.1 ↔ NewSecond before action := by
  obtain ⟨moves,reports,_⟩ := step
  constructor
  · intro later table partition new added old cached
    have other : ¬action.StoresTo table partition := by
      intro replaces
      cases action with
      | storeMergedDelta op held msg => simp [Action.added,Action.pump] at added
      | loadMemoryDelta op msg pump deltas => exact replaces
      | deltaPump pump => exact replaces
    have pairs := later table partition
    rw [moves.cached other] at pairs
    exact Int.ne_of_lt ((List.pairwise_append.mp pairs).2.2 new added old cached).1
  · intro fresh table partition
    by_cases replaces : action.StoresTo table partition
    · cases action with
      | storeMergedDelta op held msg =>
        obtain ⟨rfl,rfl⟩ := replaces
        rw [moves.cached_store]
        exact List.pairwise_singleton _ _
      | loadMemoryDelta op msg pump deltas => exact replaces.elim
      | deltaPump pump => exact replaces.elim
    · rw [moves.cached replaces]
      refine List.pairwise_append.mpr ⟨added_pairwise _ _ _,ordered table partition,?_⟩
      intro new added old cached
      obtain ⟨positive,reached,_⟩ := added_stamp reports added
      have earlier : old.timestamp ≤ new.timestamp :=
        Int.le_trans (stamped.cached table partition old cached).2 reached
      have differs := fresh table partition new added old cached
      exact ⟨by omega,positive⟩

end Step

section Positions
variable {ε : Type} {cached deltas : List (DeltaCacheData ε)}

private theorem newest_oldest (several : 1 < cached.length) (pairs : cached.Pairwise Later) :
    ∃ newest oldest, cached.head? = some newest ∧ cached.getLast? = some oldest ∧ Later newest oldest ∧
      ∀ d ∈ cached, oldest.timestamp ≤ d.timestamp ∧ d.timestamp ≤ newest.timestamp := by
  rcases cached with _ | ⟨newest,rest⟩
  · simp at several
  have others : rest ≠ [] := by
    rintro rfl
    simp at several
  obtain ⟨above,restPairs⟩ := List.pairwise_cons.mp pairs
  refine ⟨newest,rest.getLast others,rfl,?_,above _ (List.getLast_mem others),?_⟩
  · rw [List.getLast?_eq_some_getLast (List.cons_ne_nil _ _),List.getLast_cons others]
  · have oldestLeast : ∀ d ∈ rest, (rest.getLast others).timestamp ≤ d.timestamp := by
      intro d member
      rw [← List.dropLast_append_getLast others] at member restPairs
      rcases List.mem_append.mp member with before | last
      · exact Int.le_of_lt ((List.pairwise_append.mp restPairs).2.2 d before _ (List.mem_singleton_self _)).1
      · exact Int.le_of_eq (congrArg _ (List.mem_singleton.mp last)).symm
    intro d member
    rcases List.mem_cons.mp member with rfl | older
    · exact ⟨Int.le_of_lt (above _ (List.getLast_mem others)).1,Int.le_refl _⟩
    · exact ⟨oldestLeast d older,Int.le_of_lt (above d older).1⟩

theorem picks_of_pairwise (perm : deltas.Perm cached) (several : 1 < deltas.length)
    (pairs : cached.Pairwise Later) (early : ∀ d ∈ cached, d.timestamp < 5000000000000) :
    ∃ posMem posTail, posMem ≠ posTail ∧
      positionTailAndMemDelta (deltas.map (·.timestamp)) = (some posMem,some posTail) ∧
      deltas[posMem]? = cached.getLast? ∧ deltas[posTail]? = cached.head? := by
  obtain ⟨newest,oldest,first,last,later,between⟩ := newest_oldest (perm.length_eq ▸ several) pairs
  rw [first,last]
  have loaded : ∀ d, d ∈ cached → ∃ i : Nat, deltas[i]? = some d :=
    fun d member => List.mem_iff_getElem?.mp (perm.mem_iff.mpr member)
  obtain ⟨posMem,mem⟩ := loaded oldest (List.mem_of_getLast? last)
  obtain ⟨posTail,tail⟩ := loaded newest (List.mem_of_head? first)
  have stamps : ∀ x ∈ deltas.map (·.timestamp), oldest.timestamp ≤ x ∧ x ≤ newest.timestamp := by
    intro x member
    obtain ⟨d,inDeltas,rfl⟩ := List.mem_map.mp member
    exact between d (perm.mem_iff.mp inDeltas)
  have distinct : (deltas.map (·.timestamp)).Nodup := by
    rw [(perm.map _).nodup_iff]
    exact List.pairwise_map.mpr (pairs.imp (fun later => Ne.symm (Int.ne_of_lt later.1)))
  refine ⟨posMem,posTail,?_,?_,mem,tail⟩
  · rintro rfl
    rw [mem,Option.some.injEq] at tail
    subst tail
    exact Int.lt_irrefl _ later.1
  · apply positionTailAndMemDelta_spec
    · rw [List.length_map]
      omega
    · exact distinct
    · rw [List.getElem?_map,mem]; rfl
    · rw [List.getElem?_map,tail]; rfl
    · exact fun x member => (stamps x member).1
    · exact fun x member => (stamps x member).2
    · exact early oldest (List.mem_of_getLast? last)
    · exact later.2

end Positions

/-- In every run whose pumps all fall in new seconds the timestamps ascend as the
versions were stored and the newest version is the tail, the oldest the memory
delta; and a further handler keeps that exactly if it pumps in a new second. -/
theorem timestamps_ascend {labels : List (Action ω δ β)} {state : System ω δ β × Int}
    (run : Run (Meeting NewSecond StepTo) (System.initial ω δ β,0) labels state) :
    Ordered state.1 ∧ PicksTailAndMem state.1 ∧
      ∀ action after, StepTo state action after → (Ordered after.1 ↔ NewSecond state action) := by
  have kept : Stamped state ∧ Ordered state.1 := by
    apply run.invariant (fun state => Stamped state ∧ Ordered state.1)
    · exact ⟨⟨⟨Int.le_refl _,Int.le_refl _⟩,by simp,(by decide : (0 : Int) < 5000000000000)⟩,by simp [Ordered]⟩
    · rintro before action after ⟨stamped,ordered⟩ ⟨fresh,step⟩
      exact ⟨stamped_step stamped step,(ordered_step_iff stamped ordered step).mpr fresh⟩
  obtain ⟨stamped,ordered⟩ := kept
  refine ⟨ordered,?_,fun action after step => ordered_step_iff stamped ordered step⟩
  intro table partition deltas perm several
  apply picks_of_pairwise perm several (ordered table partition)
  exact fun d member => Int.lt_of_le_of_lt (stamped.cached table partition d member).2 stamped.early

section Examples

/-- A pump that finds a delta of the one partition, its last event in the given second. -/
def pumpAt (seconds : Nat) : Pump (fun _ : Unit => Unit) := ⟨fun _ => [(0,())],1000*seconds,by simp⟩

def afterPump (before : System Unit (fun _ : Unit => Unit) Unit × Int) (seconds : Nat) :
    System Unit (fun _ : Unit => Unit) Unit × Int :=
  (⟨deltaPump before.1.actor (pumpAt seconds),before.1.held⟩,max before.2 (1000*seconds))

def pumpedAt (first : Nat) : System Unit (fun _ : Unit => Unit) Unit × Int :=
  afterPump (System.initial _ _ _,0) first

private theorem step_afterPump (before : System Unit (fun _ : Unit => Unit) Unit × Int) (seconds : Nat)
    (positive : 0 < seconds) (width : seconds < 2^32) (forward : before.2 ≤ 1000*seconds) :
    StepTo before (.deltaPump (pumpAt seconds)) (afterPump before seconds) := by
  refine ⟨Step.deltaPump (pumpAt seconds),?_,rfl⟩
  intro pump same
  obtain rfl := Option.mem_some_iff.mp same
  exact Or.inr ⟨seconds,positive,width,rfl,forward⟩

/-- Two versions pumped in one second have equal stamps, and both are tail and memory delta. -/
theorem pumped_in_one_second : ∃ state, Run StepTo (System.initial Unit (fun _ : Unit => Unit) Unit,0)
      [.deltaPump (pumpAt 5),.deltaPump (pumpAt 5)] state ∧ ¬Ordered state.1 ∧ ¬PicksTailAndMem state.1 := by
  refine ⟨afterPump (pumpedAt 5) 5,(Run.nil.snoc (step_afterPump _ 5 (by decide) (by decide) (by decide))).snoc
    (step_afterPump (pumpedAt 5) 5 (by decide) (by decide) (by decide)),?_,?_⟩
  · intro ordered
    have pairs : [(⟨(),5000⟩ : DeltaCacheData Unit),⟨(),5000⟩].Pairwise Later := ordered () 0
    exact absurd ((List.pairwise_cons.mp pairs).1 _ (List.mem_singleton_self _)).1 (by decide)
  · intro picks
    obtain ⟨posMem,posTail,differ,picked,_⟩ := picks () 0 _ (List.Perm.refl _) (by decide)
    have both : positionTailAndMemDelta [5000,5000] = (some posMem,some posTail) := picked
    obtain ⟨mem,tail⟩ := Prod.mk.inj (both.symm.trans (by decide :
      positionTailAndMemDelta [5000,5000] = (some 0,some 0)))
    exact differ (Option.some.inj (mem.trans tail.symm))

private theorem newSecond_pumpedAt : NewSecond (pumpedAt 5) (.deltaPump (pumpAt 6)) := by
  intro table partition new added old cached
  have first := step_afterPump (System.initial _ _ _,0) 5 (by decide) (by decide) (by decide)
  have second := step_afterPump (pumpedAt 5) 6 (by decide) (by decide) (by decide)
  rw [pumpedAt,first.1.cached id,System.cached_initial,List.append_nil] at cached
  obtain ⟨_,_,_,five,oldStamp⟩ := added_stamp first.2.1 cached
  obtain ⟨_,_,_,six,newStamp⟩ := added_stamp second.2.1 added
  obtain rfl := Option.mem_some_iff.mp five
  obtain rfl := Option.mem_some_iff.mp six
  rw [oldStamp,newStamp]
  decide

private theorem run_pumpedInTwoSeconds : Run (Meeting NewSecond StepTo)
    (System.initial Unit (fun _ : Unit => Unit) Unit,0) [.deltaPump (pumpAt 5),.deltaPump (pumpAt 6)]
    (afterPump (pumpedAt 5) 6) := by
  have fresh : NewSecond (System.initial Unit (fun _ : Unit => Unit) Unit,0) (.deltaPump (pumpAt 5)) := by
    intro table partition new added old cached
    exact absurd cached List.not_mem_nil
  exact (Run.nil.snoc ⟨fresh,step_afterPump _ 5 (by decide) (by decide) (by decide)⟩).snoc
    ⟨newSecond_pumpedAt,step_afterPump (pumpedAt 5) 6 (by decide) (by decide) (by decide)⟩

theorem pumped_in_two_seconds : PicksTailAndMem (afterPump (pumpedAt 5) 6).1 :=
  (timestamps_ascend run_pumpedInTwoSeconds).2.1

end Examples

end Hermes.TimestampOrder
