import Hermes.HeapBalance
import Hermes.LFUBalance

/-! What each caching policy keeps of its keys and their sizes when a segment is loaded or stored. -/
namespace Hermes.Cache
open Library.Fallible Library.RecentUse Library.BoundedCache
variable {κ ν : Type} [DecidableEq κ]

namespace LRUCachingPolicy
variable {maxSize : Nat} {policy next : LRUCachingPolicy κ} {key : κ}

def entries (policy : LRUCachingPolicy κ) : Entries κ := policy.usageQueue.map QueueNode.entry

/-- Queue and index are those of a cache of the same keys. -/
structure Holds (policy : LRUCachingPolicy κ) (maxSize : Nat) : Prop where
  represents : ∃ map : κ → Option Unit, SegmentCache.Represents maxSize ⟨policy,map⟩ policy.entries

omit [DecidableEq κ] in
theorem keys_entries (policy : LRUCachingPolicy κ) : keys policy.entries = policy.usageQueue.map QueueNode.key := by
  rw [keys,entries,List.map_map]
  rfl

omit [DecidableEq κ] in
theorem Holds.balanced (holds : policy.Holds maxSize) : Balanced maxSize policy.freeSize policy.entries := by
  obtain ⟨_,represents⟩ := holds.represents
  refine ⟨?_,?_⟩
  · rw [keys_entries]
    exact represents.once
  · rw [entries,size_entries]
    exact represents.room

omit [DecidableEq κ] in
theorem holds_make (maxSize : Nat) : (make maxSize : LRUCachingPolicy κ).Holds maxSize :=
  ⟨⟨fun _ => none,SegmentCache.represents_start⟩⟩

theorem touch_perm (key : κ) (entries : Entries κ) : (touch key entries).Perm entries := by
  have parts := List.filter_append_perm (fun entry : κ × Nat => decide (entry.1 ≠ key)) entries
  rw [touch]
  refine List.Perm.trans (List.Perm.of_eq ?_) parts
  congr 1
  apply List.filter_congr
  intro entry _
  simp

theorem onLoad_holds [ToString κ] (holds : policy.Holds maxSize) (key : κ) :
    ∃ next, policy.onLoad key = some next ∧ next.Holds maxSize ∧ next.entries.Perm policy.entries := by
  obtain ⟨map,represents⟩ := holds.represents
  obtain ⟨_,cache,loaded,after⟩ := SegmentCache.load_represents represents key
  obtain ⟨next,moved,done⟩ := Option.map_eq_some_iff.mp loaded
  obtain ⟨_,rfl⟩ := Prod.mk.inj done
  have same : next.entries = touch key policy.entries := after.order
  exact ⟨next,moved,⟨⟨map,same ▸ after⟩⟩,same ▸ touch_perm key policy.entries⟩

theorem onStore_holds (holds : policy.Holds maxSize) (absent : key ∉ keys policy.entries) (segmentSize : Nat) :
    ∃ result next, policy.onStore key segmentSize = some (result,next) ∧ next.Holds maxSize ∧
      Stores policy.entries key segmentSize next.entries result := by
  obtain ⟨map,represents⟩ := holds.represents
  rw [keys_entries] at absent
  obtain ⟨removableKeys,cache,stored,later,step,after⟩ :=
    @SegmentCache.store_represents κ Unit _ maxSize ⟨policy,map⟩ policy.entries represents key
    segmentSize () fun inside => absurd inside absent
  obtain ⟨⟨result,next⟩,decided,done⟩ := Option.map_eq_some_iff.mp stored
  have both : result = removableKeys ∧ next = cache.cachingPolicy := by
    cases result with
    | none => exact ⟨(Prod.mk.inj done).1,congrArg SegmentCache.cachingPolicy (Prod.mk.inj done).2⟩
    | some victims => exact ⟨(Prod.mk.inj done).1,congrArg SegmentCache.cachingPolicy (Prod.mk.inj done).2⟩
  obtain ⟨cachingPolicy,map⟩ := cache
  obtain ⟨rfl,rfl⟩ : result = removableKeys ∧ next = cachingPolicy := both
  have order : next.entries = later := after.order
  rw [← order] at step after
  refine ⟨result,next,decided,⟨⟨map,after⟩⟩,stores_of_step ?_ step⟩
  rw [keys_entries]
  exact absent

end LRUCachingPolicy

namespace BeladyCachingPolicy
variable {maxSize : Nat} {policy next : BeladyCachingPolicy κ} {key : κ}

/-- The segments are those that were decided on, and leave the free size. -/
structure Holds (policy : BeladyCachingPolicy κ) (maxSize : Nat) : Prop where
  planned : Planned maxSize policy.segmentSizeMap ⟨policy,policy.keysInCache⟩
  exactly : Exact maxSize ⟨policy,policy.keysInCache⟩

omit [DecidableEq κ] in
theorem Holds.balanced (holds : policy.Holds maxSize) : Balanced maxSize policy.freeSize policy.keysInCache :=
  ⟨holds.planned.distinct,holds.exactly⟩

omit [DecidableEq κ] in
theorem holds_make (maxSize : Nat) (segmentSizeMap : κ → Option Nat) : (make maxSize segmentSizeMap).Holds maxSize :=
  ⟨planned_start,rfl⟩

variable [ToString κ]

theorem call_holds (small : maxSize < 2^64) (holds : policy.Holds maxSize) {label : Call κ}
    (within : WithinOnePercent policy.segmentSizeMap label) (fresh : Fresh ⟨policy,policy.keysInCache⟩ label)
    {segments : List (κ × Nat)} (called : call ⟨policy,policy.keysInCache⟩ label = ⟨next,segments⟩)
    (same : next.segmentSizeMap = policy.segmentSizeMap) : next.Holds maxSize := by
  have noWrap := noWrap_of_fresh holds.planned holds.exactly within fresh
  have planned := call_planned small holds.planned within noWrap
  have exactly := call_exact small holds.planned holds.exactly fresh noWrap
  rw [called] at planned exactly
  obtain rfl : segments = next.keysInCache := planned.held
  rw [← same] at planned
  exact ⟨planned,exactly⟩

omit [ToString κ] in
theorem bringIn_segmentSizeMap (keysThatShouldBeCached : List κ) (key : κ) (segmentSize : Nat) :
    (bringIn policy keysThatShouldBeCached key segmentSize).2.segmentSizeMap = policy.segmentSizeMap := by
  rw [bringIn]
  split <;> rfl

theorem onStore_holds (small : maxSize < 2^64) (holds : policy.Holds maxSize)
    (absent : key ∉ keys policy.keysInCache) {segmentSize : Nat}
    (within : WithinOnePercent policy.segmentSizeMap (.onStore key segmentSize)) {result : Option (List κ)}
    (stored : policy.onStore key segmentSize = .ok (result,next)) :
    next.Holds maxSize ∧ next.segmentSizeMap = policy.segmentSizeMap ∧
      Stores policy.keysInCache key segmentSize next.keysInCache result := by
  have fresh : Fresh ⟨policy,policy.keysInCache⟩ (.onStore key segmentSize) := absent
  rcases onStore_cases stored with ⟨rfl,rfl⟩ | ⟨decided,named,inside,fits,rfl,rfl⟩
  · exact ⟨holds,rfl,List.Perm.refl _⟩
  · have sizes := @bringIn_segmentSizeMap κ _ policy decided key segmentSize
    have noWrap := noWrap_of_fresh holds.planned holds.exactly within fresh
    have called : call ⟨policy,policy.keysInCache⟩ (.onStore key segmentSize) =
        ⟨(bringIn policy decided key segmentSize).2,
        insert key segmentSize (policy.keysInCache.filter fun segment => segment.1 ∉ (bringIn policy decided key segmentSize).1)⟩ := by
      rw [call,stored]
    refine ⟨call_holds small holds within fresh called sizes,sizes,?_⟩
    obtain ⟨removed,kept,freeSize,made,keeps,known,_⟩ := bringIn_spec (Nat.lt_of_le_of_lt holds.planned.room small)
      (noWrap decided named inside fits)
    rw [made]
    have left : key ∉ kept.map Prod.fst := by
      rw [keeps]
      exact fun stays => absent (List.map_subset _ (fun _ => List.mem_of_mem_filter) stays)
    have parts := List.filter_append_perm (fun segment : κ × Nat => decide (segment.1 ∈ removed)) policy.keysInCache
    refine ⟨policy.keysInCache.filter fun segment => decide (segment.1 ∈ removed),kept,?_,?_,?_⟩
    · refine parts.symm.trans (List.Perm.of_eq ?_)
      rw [keeps]
      congr 1
      apply List.filter_congr
      intro segment _
      rw [decide_not]
    · intro other
      rw [keys,List.mem_map]
      constructor
      · intro leaves
        obtain ⟨segment,there,same⟩ := List.mem_map.mp (known leaves)
        exact ⟨segment,List.mem_filter.mpr ⟨there,decide_eq_true (same ▸ leaves)⟩,same⟩
      · rintro ⟨segment,there,same⟩
        exact same ▸ of_decide_eq_true (List.mem_filter.mp there).2
    · dsimp only
      rw [insert_new left]

end BeladyCachingPolicy

namespace HeapCachingPolicy
variable [LT ν] [DecidableLT ν] {maxSize : Nat} {policy next : HeapCachingPolicy κ ν} {value : ValuedMetadata ν → ν}
    {key : κ}
  {segmentSize : Nat}

theorem onStore_holds (holds : policy.Holds maxSize) (absent : key ∉ keys policy.entries) :
    policy.onStore value key segmentSize ≠ .error .undefined ∧ ∀ removableKeys next,
      policy.onStore value key segmentSize = .ok (removableKeys,next) → next.Holds maxSize ∧
        ∃ size, Stores policy.entries key size next.entries (removableKeys.map (List.map SegmentKeyPtr.key)) := by
  have vacant : policy.keySetInCache key = none := by
    rw [holds.kept.mem_keys] at absent
    exact Option.not_isSome_iff_eq_none.mp absent
  cases known : policy.keySet key with
  | none =>
    rw [onStore,realKey,known]
    constructor
    · intro undefined
      cases undefined
    · intro _ _ stored
      cases stored
  | some object =>
    have decided := @onStore_decided κ ν maxSize policy value key _ _ _ segmentSize holds object known vacant
    generalize policy.onStore value key segmentSize = result at decided ⊢
    refine ⟨?_,?_⟩
    · rintro rfl
      cases decided
    · rintro removableKeys next rfl
      cases decided with
      | refused holds same => exact ⟨holds,0,same⟩
      | stored holds admits => exact ⟨holds,_,admits⟩

end HeapCachingPolicy

variable [ToString κ] [NatCast ν] [Div ν] [LT ν] [DecidableLT ν]

namespace CachingPolicy
variable {type : CachingPolicyType} {maxSize : Nat} {segmentSizeMap : κ → Option Nat}
    {policy next : CachingPolicy κ ν} {key : κ}

/-- A segment is asked for with no size. -/
def onLoad (policy : CachingPolicy κ ν) (key : κ) : Except Failure (CachingPolicy κ ν) :=
  match policy with
  | .lru policy => (policy.onLoad key).elim (.error .undefined) fun policy => .ok (.lru policy)
  | .lfu policy => (policy.onLoad key).map .lfu
  | .lfus policy => (LFUSCachingPolicy.onLoad policy key 0).map .lfus
  | .wlfu policy => (WLFUCachingPolicy.onLoad policy key 0).map .wlfu
  | .belady policy => .ok (.belady policy)

/-- The cached keys with the sizes of their segments. -/
def entries : CachingPolicy κ ν → Entries κ
  | .lru policy => policy.entries
  | .lfu policy => policy.entries
  | .lfus policy => policy.entries
  | .wlfu policy => policy.entries
  | .belady policy => policy.keysInCache

inductive Holds (maxSize : Nat) (segmentSizeMap : κ → Option Nat) : CachingPolicyType → CachingPolicy κ ν → Prop
  | lru {policy : LRUCachingPolicy κ} (holds : policy.Holds maxSize) : Holds maxSize segmentSizeMap .lru (.lru policy)
  | lfu {policy : LFUCachingPolicy κ} (holds : policy.Holds maxSize) : Holds maxSize segmentSizeMap .lfu (.lfu policy)
  | lfus {policy : HeapCachingPolicy κ ν} (holds : policy.Holds maxSize) :
    Holds maxSize segmentSizeMap .lfus (.lfus policy)
  | wlfu {policy : HeapCachingPolicy κ ν} (holds : policy.Holds maxSize) :
    Holds maxSize segmentSizeMap .wlfu (.wlfu policy)
  | belady {policy : BeladyCachingPolicy κ} (holds : policy.Holds maxSize)
    (sizes : policy.segmentSizeMap = segmentSizeMap) :
      Holds maxSize segmentSizeMap .belady (.belady policy)

omit [DecidableEq κ] [ToString κ] [Div ν] [LT ν] [DecidableLT ν] in
theorem holds_make (type : CachingPolicyType) (maxSize : Nat) (segmentSizeMap : κ → Option Nat) :
    Holds maxSize segmentSizeMap type (make type maxSize segmentSizeMap : CachingPolicy κ ν) := by
  cases type with
  | lru => exact .lru (LRUCachingPolicy.holds_make maxSize)
  | lfu => exact .lfu (LFUCachingPolicy.holds_make maxSize)
  | lfus => exact .lfus (HeapCachingPolicy.holds_make maxSize segmentSizeMap)
  | wlfu => exact .wlfu (HeapCachingPolicy.holds_make maxSize segmentSizeMap)
  | belady => exact .belady (BeladyCachingPolicy.holds_make maxSize segmentSizeMap) rfl

omit [DecidableEq κ] [ToString κ] [NatCast ν] [Div ν] [LT ν] [DecidableLT ν] in
theorem Holds.balanced (holds : Holds maxSize segmentSizeMap type policy) :
    Balanced maxSize policy.freeSize policy.entries := by
  cases holds with
  | lru holds => exact holds.balanced
  | lfu holds => exact holds.balanced
  | lfus holds => exact holds.balanced
  | wlfu holds => exact holds.balanced
  | belady holds _ => exact holds.balanced

omit [DecidableEq κ] [ToString κ] [NatCast ν] [Div ν] [LT ν] [DecidableLT ν] in
theorem Holds.cached_iff (holds : Holds maxSize segmentSizeMap type policy) (key : κ) : policy.Cached key ↔
    key ∈ keys policy.entries := by
  cases holds with
  | @lru policy holds =>
    rw [entries,LRUCachingPolicy.keys_entries]
    rfl
  | lfu holds => exact holds.kept.mem_keys.symm
  | lfus holds => exact holds.kept.mem_keys.symm
  | wlfu holds => exact holds.kept.mem_keys.symm
  | belady holds _ => exact Iff.rfl

theorem onLoad_holds (holds : Holds maxSize segmentSizeMap type policy) (loaded : policy.onLoad key = .ok next) :
    Holds maxSize segmentSizeMap type next ∧ next.entries.Perm policy.entries := by
  cases holds with
  | lru holds =>
    obtain ⟨after,moved,kept,same⟩ := LRUCachingPolicy.onLoad_holds holds key
    rw [onLoad,moved] at loaded
    rw [← Except.ok.inj loaded]
    exact ⟨.lru kept,same⟩
  | lfu holds =>
    obtain ⟨after,moved,rfl⟩ := map_eq_ok.mp loaded
    obtain ⟨kept,same⟩ := LFUCachingPolicy.onLoad_holds holds moved
    exact ⟨.lfu kept,same⟩
  | lfus holds =>
    obtain ⟨after,moved,rfl⟩ := map_eq_ok.mp loaded
    obtain ⟨kept,same⟩ := HeapCachingPolicy.onLoad_holds holds moved
    exact ⟨.lfus kept,same⟩
  | wlfu holds =>
    obtain ⟨after,moved,rfl⟩ := map_eq_ok.mp loaded
    obtain ⟨kept,same⟩ := HeapCachingPolicy.onLoad_holds holds moved
    exact ⟨.wlfu kept,same⟩
  | belady holds sizes =>
    rw [← Except.ok.inj loaded]
    exact ⟨.belady holds sizes,List.Perm.refl _⟩

omit [NatCast ν] [Div ν] in
theorem onStore_holds (small : maxSize < 2^64) {allowFetchSegments : Bool} {segmentSize : Nat}
    (holds : Holds maxSize segmentSizeMap type policy) (absent : key ∉ keys policy.entries)
    (within : type = .belady → BeladyCachingPolicy.WithinOnePercent segmentSizeMap (.onStore key segmentSize))
    {result : Option (List κ)} (stored : policy.onStore allowFetchSegments key segmentSize = .ok (result,next)) :
    Holds maxSize segmentSizeMap type next ∧ ∃ size, Stores policy.entries key size next.entries result := by
  cases holds with
  | lru holds =>
    obtain ⟨removed,after,moved,kept,stores⟩ := LRUCachingPolicy.onStore_holds holds absent segmentSize
    rw [onStore,moved] at stored
    obtain ⟨rfl,rfl⟩ := Prod.mk.inj (Except.ok.inj stored)
    exact ⟨.lru kept,_,stores⟩
  | lfu holds =>
    obtain ⟨⟨removed,after⟩,moved,done⟩ := map_eq_ok.mp stored
    obtain ⟨rfl,rfl⟩ := Prod.mk.inj done
    obtain ⟨kept,stores⟩ := LFUCachingPolicy.onStore_holds holds absent moved
    exact ⟨.lfu kept,_,stores⟩
  | lfus holds =>
    obtain ⟨⟨removed,after⟩,moved,done⟩ := map_eq_ok.mp stored
    obtain ⟨rfl,rfl⟩ := Prod.mk.inj done
    rw [LFUSCachingPolicy.onStore] at moved
    split at moved
    · obtain ⟨kept,stores⟩ := (HeapCachingPolicy.onStore_holds holds absent).2 _ _ moved
      exact ⟨.lfus kept,stores⟩
    · obtain ⟨rfl,rfl⟩ := Prod.mk.inj (Except.ok.inj moved)
      exact ⟨.lfus holds,0,List.Perm.refl _⟩
  | wlfu holds =>
    obtain ⟨⟨removed,after⟩,moved,done⟩ := map_eq_ok.mp stored
    obtain ⟨rfl,rfl⟩ := Prod.mk.inj done
    obtain ⟨kept,stores⟩ := (HeapCachingPolicy.onStore_holds holds absent).2 _ _ moved
    exact ⟨.wlfu kept,stores⟩
  | @belady policy holds sizes =>
    obtain ⟨⟨removed,after⟩,moved,done⟩ := map_eq_ok.mp stored
    obtain ⟨rfl,rfl⟩ := Prod.mk.inj done
    subst sizes
    cases decided : policy.onStore key segmentSize with
    | error message =>
      rw [decided] at moved
      cases moved
    | ok outcome =>
      rw [decided] at moved
      obtain rfl := Except.ok.inj moved
      obtain ⟨kept,same,stores⟩ := BeladyCachingPolicy.onStore_holds small holds absent (within rfl) decided
      exact ⟨.belady kept same,_,stores⟩

omit [NatCast ν] [Div ν] in
theorem onStore_defined {allowFetchSegments : Bool} {segmentSize : Nat}
    (holds : Holds maxSize segmentSizeMap type policy) (differ : type ≠ .lfu) (absent : key ∉ keys policy.entries) :
    policy.onStore allowFetchSegments key segmentSize ≠ .error .undefined := by
  cases holds with
  | lru holds =>
    obtain ⟨removed,after,moved,_,_⟩ := LRUCachingPolicy.onStore_holds holds absent segmentSize
    rw [onStore,moved]
    exact nofun
  | lfu holds => exact absurd rfl differ
  | lfus holds =>
    refine mt map_eq_error.mp ?_
    rw [LFUSCachingPolicy.onStore]
    split
    · exact (HeapCachingPolicy.onStore_holds holds absent).1
    · exact nofun
  | wlfu holds => exact mt map_eq_error.mp (HeapCachingPolicy.onStore_holds holds absent).1
  | @belady policy holds sizes =>
    refine mt map_eq_error.mp ?_
    cases policy.onStore key segmentSize <;> exact nofun

end CachingPolicy
end Hermes.Cache
