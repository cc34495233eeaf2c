import Hermes.DeltaCache
import Hermes.DeltaMergePOp
import Mathlib.Logic.Function.Basic

/-! The delta cache actor: its state and its three handlers.
`δ table` is the type of a table's deltas and `β` the type of a handle on a
stable bitmap. What `DeltaPumpHelper::pump` finds is an argument of the handlers
that pump. -/
namespace Hermes.DeltaCacheActor
open Hermes.Delta Hermes.DeltaMergePOp
variable {τ : Type} {δ : τ → Type} {β : Type}

structure DeltaCacheActorState (δ : τ → Type) (β : Type) where
  cache : (table : τ) → DeltaCache (δ table)
  stableBmCache : τ → StableBmCache β
  queryId : Int
  lastTimestamp : Int

def makeBehaviour (δ : τ → Type) (β : Type) : DeltaCacheActorState δ β :=
  ⟨fun _ => .empty,fun _ => .empty,2022,0⟩

/-- The deltas of one pump, at most one for each partition of a table, and the
timestamp of its last event, which is 0 when it found none. -/
structure Pump (δ : τ → Type) where
  deltas : (table : τ) → List (Int × δ table)
  timestamp : Int
  distinct : ∀ table, ((deltas table).map (·.1)).Nodup

def Pump.delta (pump : Pump δ) (table : τ) (partition : Int) : Option (δ table) :=
  (pump.deltas table).lookup partition

def deltaPump (state : DeltaCacheActorState δ β) (pump : Pump δ) : DeltaCacheActorState δ β :=
  { state with
    lastTimestamp := pump.timestamp
    cache := fun table => (pump.deltas table).foldl
      (fun cache (partition,delta) => cache.store partition ⟨delta,pump.timestamp⟩) (state.cache table) }

structure LoadDeltaRequestMessage (τ : Type) where
  table : τ
  deltaKey : Int
  queryId : Int

structure LoadDeltaResponseMessage (ε β : Type) where
  deltas : List (DeltaCacheData ε)
  stableBm : Option β

/-- The response of `loadMemoryDelta` for a partition. -/
def respond (state : DeltaCacheActorState δ β) (table : τ) (deltaKey : Int) :
    LoadDeltaResponseMessage (δ table) β where
  deltas := (state.cache table).load deltaKey
  stableBm :=
    if (state.stableBmCache table).getSize ≠ 0 then (state.stableBmCache table).load deltaKey else none

/-- A request of a new query pumps before it loads. -/
def loadMemoryDelta (state : DeltaCacheActorState δ β) (msg : LoadDeltaRequestMessage τ) (pump : Pump δ) :
    DeltaCacheActorState δ β × LoadDeltaResponseMessage (δ msg.table) β :=
  let state := if msg.queryId ≠ state.queryId then deltaPump {state with queryId := msg.queryId} pump
    else state
  (state,respond state msg.table msg.deltaKey)

theorem respond_stableBm (state : DeltaCacheActorState δ β) (table : τ) (deltaKey : Int) :
    (respond state table deltaKey).stableBm = (state.stableBmCache table).load deltaKey := by
  unfold respond
  by_cases empty : (state.stableBmCache table).getSize = 0
  · have none_ : (state.stableBmCache table).map = [] := List.length_eq_zero_iff.mp empty
    simp [empty,StableBmCache.load,none_]
  · simp [empty]

theorem stableBm_loadMemoryDelta (state : DeltaCacheActorState δ β) (msg : LoadDeltaRequestMessage τ)
    (pump : Pump δ) : (loadMemoryDelta state msg pump).1.stableBmCache = state.stableBmCache := by
  unfold loadMemoryDelta
  split <;> rfl

variable [DecidableEq τ]

def storeMergedDelta (state : DeltaCacheActorState δ β) (table : τ) (partition : Int)
    (msg : MergedDeltaMessage (δ table) β) : DeltaCacheActorState δ β :=
  { state with
    cache := Function.update state.cache table
      (((state.cache table).remove partition).store partition ⟨msg.mergedDelta,state.lastTimestamp⟩)
    stableBmCache := match msg.stableBm with
      | none => state.stableBmCache
      | some bitmap => Function.update state.stableBmCache table
          (((state.stableBmCache table).remove partition).store partition bitmap) }

omit [DecidableEq τ] in
private theorem load_foldl_store {ε : Type} (entries : List (Int × ε)) (timestamp : Int) (cache : DeltaCache ε)
    (partition : Int) (distinct : (entries.map (·.1)).Nodup) :
    (entries.foldl (fun cache (place,delta) => cache.store place ⟨delta,timestamp⟩) cache).load partition =
      (entries.lookup partition).toList.map (fun delta => ⟨delta,timestamp⟩) ++ cache.load partition := by
  induction entries generalizing cache with
  | nil => simp
  | cons entry entries ih =>
    obtain ⟨place,delta⟩ := entry
    obtain ⟨fresh,rest⟩ := List.nodup_cons.mp distinct
    rw [List.foldl_cons,ih _ rest,DeltaCache.load_store,List.lookup_cons]
    by_cases same : place = partition
    · subst same
      have absent : entries.lookup place = none := by
        rw [List.lookup_eq_none_iff]
        intro other member
        simpa using fun equal => fresh (List.mem_map.mpr ⟨other,member,equal.symm⟩)
      simp [absent]
    · have unlike : (partition == place) = false := by simpa using Ne.symm same
      simp [same,unlike]

omit [DecidableEq τ] in
theorem load_deltaPump (state : DeltaCacheActorState δ β) (pump : Pump δ) (table : τ) (partition : Int) :
    ((deltaPump state pump).cache table).load partition =
      (pump.delta table partition).toList.map (fun delta => ⟨delta,pump.timestamp⟩) ++
        (state.cache table).load partition :=
  load_foldl_store _ _ _ _ (pump.distinct table)

@[simp] theorem load_storeMergedDelta_self (state : DeltaCacheActorState δ β) (table : τ) (partition : Int)
    (msg : MergedDeltaMessage (δ table) β) :
    ((storeMergedDelta state table partition msg).cache table).load partition =
      [⟨msg.mergedDelta,state.lastTimestamp⟩] := by
  simp [storeMergedDelta]

theorem load_storeMergedDelta_other (state : DeltaCacheActorState δ β) (table : τ) (partition : Int)
    (msg : MergedDeltaMessage (δ table) β) {table' : τ} {partition' : Int}
    (other : ¬(table' = table ∧ partition' = partition)) :
    ((storeMergedDelta state table partition msg).cache table').load partition' =
      (state.cache table').load partition' := by
  unfold storeMergedDelta
  by_cases same : table' = table
  · subst same
    have elsewhere : partition ≠ partition' := fun equal => other ⟨rfl,equal.symm⟩
    simp [DeltaCache.load_store,DeltaCache.load_remove,elsewhere]
  · simp [Function.update_of_ne same]

@[simp] theorem lastTimestamp_storeMergedDelta (state : DeltaCacheActorState δ β) (table : τ)
    (partition : Int) (msg : MergedDeltaMessage (δ table) β) :
    (storeMergedDelta state table partition msg).lastTimestamp = state.lastTimestamp := rfl

theorem stableBm_storeMergedDelta_some (state : DeltaCacheActorState δ β) (table : τ) (partition : Int)
    (mergedDelta : δ table) (bitmap : β) (table' : τ) (partition' : Int) :
    ((storeMergedDelta state table partition ⟨mergedDelta,some bitmap⟩).stableBmCache table').load partition' =
      if table' = table ∧ partition' = partition then some bitmap
      else (state.stableBmCache table').load partition' := by
  by_cases same : table' = table
  · subst same
    simp [storeMergedDelta,StableBmCache.load_replace,eq_comm]
  · simp [storeMergedDelta,same]

end Hermes.DeltaCacheActor
