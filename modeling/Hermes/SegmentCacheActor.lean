import Hermes.CachingPolicyBalance
import Hermes.Library.Transition

/-! `SegmentCacheActor` with any of the caching policies, in mode `CACHING_ONLY`: the segments of its map and the keys of its
policy, over the runs of its messages. -/
namespace Hermes.Cache
open Library.Fallible Library.Transition Library.RecentUse Library.BoundedCache
variable {κ ν δ : Type} [DecidableEq κ] [ToString κ] [NatCast ν] [Div ν] [Add ν] [LT ν] [DecidableLT ν]

structure SegmentCacheActorState (κ ν δ : Type) where
  cachingPolicy : CachingPolicy κ ν
  map : List (κ × δ)

namespace SegmentCacheActorState

def make (type : CachingPolicyType) (maxSize : Nat) (segmentSizeMap : κ → Option Nat) : SegmentCacheActorState κ ν δ :=
  ⟨CachingPolicy.make type maxSize segmentSizeMap,[]⟩

def load (state : SegmentCacheActorState κ ν δ) (segmentKey : κ) :
    Except Failure (Option δ × SegmentCacheActorState κ ν δ) := do
  let cachingPolicy ← state.cachingPolicy.onLoad segmentKey
  .ok (state.map.lookup segmentKey,{state with cachingPolicy})

def store (allowFetchSegments : Bool) (state : SegmentCacheActorState κ ν δ) (segment : κ × Nat × δ) :
    Except Failure (SegmentCacheActorState κ ν δ) := do
  let (removableKeys,cachingPolicy) ← state.cachingPolicy.onStore allowFetchSegments segment.1 segment.2.1
  match removableKeys with
  | none => .ok {state with cachingPolicy}
  | some removableKeys => .ok ⟨cachingPolicy,replace state.map removableKeys segment.1 segment.2.2⟩

end SegmentCacheActorState

namespace SegmentCacheActor

/-- The segments that are found, the keys of the others, and the cache. -/
structure Loading (κ ν δ : Type) where
  segments : List (κ × δ)
  missSegmentKeys : List κ
  state : SegmentCacheActorState κ ν δ

def loadNext (loading : Loading κ ν δ) (segmentKey : κ) : Except Failure (Loading κ ν δ) := do
  let (cacheData,state) ← loading.state.load segmentKey
  match cacheData with
  | some data => .ok ⟨if segmentKey ∈ loading.segments.map Prod.fst then loading.segments else (segmentKey,data)::loading.segments,
      loading.missSegmentKeys,state⟩
  | none => .ok ⟨loading.segments,loading.missSegmentKeys ++ [segmentKey],state⟩

/-- In this mode all that is missed is to be cached, and the policy is not asked by `toCache`. -/
def load (state : SegmentCacheActorState κ ν δ) (segmentKeys : List κ) : Except Failure (Loading κ ν δ) :=
  segmentKeys.foldlM loadNext ⟨[],[],state⟩

def store (allowFetchSegments : Bool) (state : SegmentCacheActorState κ ν δ) (segments : List (κ × Nat × δ)) :
    Except Failure (SegmentCacheActorState κ ν δ) :=
  segments.foldlM (SegmentCacheActorState.store allowFetchSegments) state

def weight (state : SegmentCacheActorState κ ν δ) (weightMap : List (κ × ν)) :
    Except Failure (SegmentCacheActorState κ ν δ) :=
  match state.cachingPolicy with
  | .wlfu policy =>
    match WLFUCachingPolicy.onWeight policy weightMap with
    | (policy,none) => .ok {state with cachingPolicy := .wlfu policy}
    | (_,some message) => .error (.error message)
  | _ => .ok state

def newQuery (state : SegmentCacheActorState κ ν δ) : SegmentCacheActorState κ ν δ :=
  match state.cachingPolicy with
  | .wlfu policy => {state with cachingPolicy := .wlfu (WLFUCachingPolicy.onNewQuery policy)}
  | _ => state

def tell (state : SegmentCacheActorState κ ν δ) (policy : BeladyCachingPolicy κ) (label : BeladyCachingPolicy.Call κ) :
    SegmentCacheActorState κ ν δ :=
  ⟨.belady (BeladyCachingPolicy.call ⟨policy,policy.keysInCache⟩ label).policy,state.map⟩

/-- The messages of the actor, and what is told to a policy that knows the queries. -/
inductive Event (κ ν δ : Type) where
  | load (segmentKeys : List κ) (segments : List (κ × δ)) (missSegmentKeys : List κ)
  | store (segments : List (κ × Nat × δ))
  | weight (weightMap : List (κ × ν))
  | newQuery
  | generateCacheDecisions (involved : BeladyCachingPolicyHelper.Involved κ) (iteration : List κ → List κ)
    (numQueries : Nat)
  | setCurrentQueryNum (queryNum : Nat)

inductive Step (allowFetchSegments : Bool) (state : SegmentCacheActorState κ ν δ) : Event κ ν δ →
    SegmentCacheActorState κ ν δ → Prop
  | load {segmentKeys : List κ} {loading : Loading κ ν δ} (handled : load state segmentKeys = .ok loading) :
      Step allowFetchSegments state (.load segmentKeys loading.segments loading.missSegmentKeys) loading.state
  | store {segments : List (κ × Nat × δ)} {next : SegmentCacheActorState κ ν δ}
    (handled : store allowFetchSegments state segments = .ok next) :
      Step allowFetchSegments state (.store segments) next
  | weight {weightMap : List (κ × ν)} {next : SegmentCacheActorState κ ν δ}
    (handled : weight state weightMap = .ok next) :
      Step allowFetchSegments state (.weight weightMap) next
  | newQuery : Step allowFetchSegments state .newQuery (newQuery state)
  | generateCacheDecisions {policy : BeladyCachingPolicy κ} (belady : state.cachingPolicy = .belady policy)
      (involved : BeladyCachingPolicyHelper.Involved κ) (iteration : List κ → List κ) (numQueries : Nat) :
      Step allowFetchSegments state (.generateCacheDecisions involved iteration numQueries)
        (tell state policy (.generateCacheDecisions involved iteration numQueries))
  | setCurrentQueryNum {policy : BeladyCachingPolicy κ} (belady : state.cachingPolicy = .belady policy)
    (queryNum : Nat) :
      Step allowFetchSegments state (.setCurrentQueryNum queryNum) (tell state policy (.setCurrentQueryNum queryNum))

/-- A segment that is stored is not cached, and the policy that knows the queries is told its size to a hundredth. -/
def Meets (type : CachingPolicyType) (segmentSizeMap : κ → Option Nat) (state : SegmentCacheActorState κ ν δ) :
    Event κ ν δ → Prop
  | .store segments => (segments.map Prod.fst).Nodup ∧ ∀ segment ∈ segments, ¬ state.cachingPolicy.Cached segment.1 ∧
      (type = .belady → BeladyCachingPolicy.WithinOnePercent segmentSizeMap (.onStore segment.1 segment.2.1))
  | _ => True

/-- Policy and map have the same keys, and the policy knows what they take. -/
structure Consistent (type : CachingPolicyType) (maxSize : Nat) (segmentSizeMap : κ → Option Nat)
    (state : SegmentCacheActorState κ ν δ) : Prop where
  holds : CachingPolicy.Holds maxSize segmentSizeMap type state.cachingPolicy
  agrees : Agrees state.map state.cachingPolicy.entries

def Event.stored : Event κ ν δ → List (κ × δ)
  | .store segments => segments.map fun segment => (segment.1,segment.2.2)
  | _ => []

section Handlers
variable {type : CachingPolicyType} {maxSize : Nat} {segmentSizeMap : κ → Option Nat} {allowFetchSegments : Bool}
  {state next : SegmentCacheActorState κ ν δ}

omit [DecidableEq κ] [ToString κ] [Div ν] [Add ν] [LT ν] [DecidableLT ν] in
theorem consistent_make : Consistent type maxSize segmentSizeMap (SegmentCacheActorState.make type maxSize segmentSizeMap :
    SegmentCacheActorState κ ν δ) := by
  refine ⟨CachingPolicy.holds_make type maxSize segmentSizeMap,?_⟩
  cases type <;> exact List.Perm.refl _

omit [DecidableEq κ] [ToString κ] [NatCast ν] [Div ν] [Add ν] [LT ν] [DecidableLT ν] in
theorem Consistent.cached_iff (consistent : Consistent type maxSize segmentSizeMap state) (key : κ) :
    state.cachingPolicy.Cached key ↔ key ∈ state.map.map Prod.fst :=
  (consistent.holds.cached_iff key).trans consistent.agrees.mem_iff.symm

omit [Add ν] in
theorem load_consistent (consistent : Consistent type maxSize segmentSizeMap state) {segmentKey : κ}
    {cacheData : Option δ} (loaded : state.load segmentKey = .ok (cacheData,next)) :
    Consistent type maxSize segmentSizeMap next ∧ next.map = state.map ∧ cacheData = state.map.lookup segmentKey := by
  obtain ⟨cachingPolicy,moved,done⟩ := bind_eq_ok.mp loaded
  obtain ⟨rfl,rfl⟩ := Prod.mk.inj (Except.ok.inj done)
  obtain ⟨kept,same⟩ := CachingPolicy.onLoad_holds consistent.holds moved
  exact ⟨⟨kept,consistent.agrees.perm same⟩,rfl,rfl⟩

omit [NatCast ν] [Div ν] [Add ν] in
theorem store_consistent (small : maxSize < 2^64) (consistent : Consistent type maxSize segmentSizeMap state)
    {segment : κ × Nat × δ} (absent : segment.1 ∉ state.map.map Prod.fst)
    (within : type = .belady → BeladyCachingPolicy.WithinOnePercent segmentSizeMap (.onStore segment.1 segment.2.1))
    (stored : state.store allowFetchSegments segment = .ok next) :
    Consistent type maxSize segmentSizeMap next ∧ ∀ entry ∈ next.map, entry = (segment.1,segment.2.2) ∨
    entry ∈ state.map := by
  have left : segment.1 ∉ keys state.cachingPolicy.entries :=
      fun inside => absent (consistent.agrees.mem_iff.mpr inside)
  obtain ⟨⟨removableKeys,cachingPolicy⟩,moved,done⟩ := bind_eq_ok.mp stored
  obtain ⟨kept,size,stores⟩ := CachingPolicy.onStore_holds small consistent.holds left within moved
  cases removableKeys with
  | none =>
    rw [← Except.ok.inj done]
    exact ⟨⟨kept,consistent.agrees.perm stores⟩,fun _ => .inr⟩
  | some removableKeys =>
    rw [← Except.ok.inj done]
    exact ⟨⟨kept,consistent.agrees.replace consistent.holds.balanced.once left stores segment.2.2⟩,fun _ => mem_replace⟩

omit [NatCast ν] [Div ν] [Add ν] in
theorem store_defined (consistent : Consistent type maxSize segmentSizeMap state) (differ : type ≠ .lfu)
    {segment : κ × Nat × δ}
    (absent : segment.1 ∉ state.map.map Prod.fst) : state.store allowFetchSegments segment ≠ .error .undefined := by
  have left : segment.1 ∉ keys state.cachingPolicy.entries :=
      fun inside => absent (consistent.agrees.mem_iff.mpr inside)
  refine bind_ne_error (CachingPolicy.onStore_defined consistent.holds differ left) ?_
  rintro ⟨removableKeys,cachingPolicy⟩ _
  cases removableKeys <;> exact nofun

end Handlers

section Loading
variable {map : List (κ × δ)} {asked : List κ} {type : CachingPolicyType} {maxSize : Nat}
    {segmentSizeMap : κ → Option Nat}
  {loading last : Loading κ ν δ}

/-- Each key that is asked for is found once or missed, and whatever is found is in the map. -/
structure Answered (map : List (κ × δ)) (asked : List κ) (loading : Loading κ ν δ) : Prop where
  map_eq : loading.state.map = map
  hits : ∀ key, key ∈ loading.segments.map Prod.fst ↔ key ∈ asked ∧ key ∈ map.map Prod.fst
  once : (loading.segments.map Prod.fst).Nodup
  found : ∀ entry ∈ loading.segments, entry ∈ map
  misses : loading.missSegmentKeys = asked.filter fun key => decide (key ∉ map.map Prod.fst)

omit [ToString κ] [NatCast ν] [Div ν] [Add ν] [LT ν] [DecidableLT ν] in
theorem mem_of_lookup {key : κ} {data : δ} (found : map.lookup key = some data) : (key,data) ∈ map := by
  obtain ⟨before,after,whole,_⟩ := List.lookup_eq_some_iff.mp found
  rw [whole]
  exact List.mem_append_right _ List.mem_cons_self

omit [ToString κ] [NatCast ν] [Div ν] [Add ν] [LT ν] [DecidableLT ν] in
theorem not_mem_of_lookup {key : κ} (missed : map.lookup key = none) : key ∉ map.map Prod.fst := by
  rw [List.mem_map]
  rintro ⟨entry,inside,rfl⟩
  have differ := List.lookup_eq_none_iff.mp missed entry inside
  rw [bne_self_eq_false] at differ
  cases differ

omit [Add ν] in
theorem loadNext_answered (consistent : Consistent type maxSize segmentSizeMap loading.state)
    (answered : Answered map asked loading) {segmentKey : κ} (loaded : loadNext loading segmentKey = .ok last) :
    Consistent type maxSize segmentSizeMap last.state ∧ Answered map (asked ++ [segmentKey]) last := by
  obtain ⟨⟨cacheData,state⟩,moved,done⟩ := bind_eq_ok.mp loaded
  obtain ⟨kept,same,found⟩ := load_consistent consistent moved
  rw [answered.map_eq] at same found
  have filtered := answered.misses
  cases cacheData with
  | none =>
    have missed := not_mem_of_lookup found.symm
    rw [← Except.ok.inj done]
    refine ⟨kept,same,?_,answered.once,answered.found,?_⟩
    · intro key
      rw [answered.hits,List.mem_append,List.mem_singleton]
      refine and_congr_left fun there => ⟨.inl,fun either => either.resolve_right ?_⟩
      rintro rfl
      exact missed there
    · rw [List.filter_append,List.filter_singleton,decide_eq_true missed,filtered]
      rfl
  | some data =>
    have inside := mem_of_lookup found.symm
    have cached : segmentKey ∈ map.map Prod.fst := List.mem_map_of_mem inside
    have again : segmentKey ∉ asked.filter fun key => decide (key ∉ map.map Prod.fst) := fun there =>
      of_decide_eq_true (List.mem_filter.mp there).2 cached
    have misses : loading.missSegmentKeys = (asked ++ [segmentKey]).filter fun key => decide
        (key ∉ map.map Prod.fst) := by
      rw [List.filter_append,List.filter_singleton,decide_eq_false (not_not.mpr cached),filtered]
      exact (List.append_nil _).symm
    rw [← Except.ok.inj done]
    by_cases known : segmentKey ∈ loading.segments.map Prod.fst
    · dsimp only
      rw [if_pos known]
      refine ⟨kept,same,?_,answered.once,answered.found,misses⟩
      intro key
      rw [answered.hits,List.mem_append,List.mem_singleton]
      refine and_congr_left fun there => ⟨.inl,?_⟩
      rintro (before | rfl)
      · exact before
      · exact ((answered.hits key).mp known).1
    · dsimp only
      rw [if_neg known]
      refine ⟨kept,same,?_,List.nodup_cons.mpr ⟨known,answered.once⟩,
        List.forall_mem_cons.mpr ⟨inside,answered.found⟩,misses⟩
      intro key
      rw [List.map_cons,List.mem_cons,answered.hits,List.mem_append,List.mem_singleton]
      constructor
      · rintro (rfl | ⟨before,there⟩)
        · exact ⟨.inr rfl,cached⟩
        · exact ⟨.inl before,there⟩
      · rintro ⟨before | rfl,there⟩
        · exact .inr ⟨before,there⟩
        · exact .inl rfl

omit [Add ν] in
theorem loadAll_answered {segmentKeys : List κ} (consistent : Consistent type maxSize segmentSizeMap loading.state)
    (answered : Answered map asked loading) (loaded : segmentKeys.foldlM loadNext loading = .ok last) :
    Consistent type maxSize segmentSizeMap last.state ∧ Answered map (asked ++ segmentKeys) last := by
  induction segmentKeys generalizing asked loading with
  | nil =>
    rw [← Except.ok.inj loaded,List.append_nil]
    exact ⟨consistent,answered⟩
  | cons segmentKey segmentKeys ih =>
    obtain ⟨middle,here,later⟩ := foldlM_cons_eq_ok.mp loaded
    obtain ⟨kept,next⟩ := loadNext_answered consistent answered here
    rw [List.append_cons]
    exact ih kept next later

omit [Add ν] in
theorem load_answered {state : SegmentCacheActorState κ ν δ}
    (consistent : Consistent type maxSize segmentSizeMap state) {segmentKeys : List κ}
    (loaded : load state segmentKeys = .ok last) :
    Consistent type maxSize segmentSizeMap last.state ∧ Answered state.map segmentKeys last := by
  have answered : Answered state.map [] (⟨[],[],state⟩ : Loading κ ν δ) :=
    ⟨rfl,fun _ => ⟨nofun,fun both => absurd both.1 List.not_mem_nil⟩,List.nodup_nil,nofun,rfl⟩
  have after := loadAll_answered consistent answered loaded
  rw [List.nil_append] at after
  exact after

end Loading

section Runs
variable {type : CachingPolicyType} {maxSize : Nat} {segmentSizeMap : κ → Option Nat} {allowFetchSegments : Bool}
  {state next : SegmentCacheActorState κ ν δ}

omit [NatCast ν] [Div ν] [Add ν] in
theorem storeAll_consistent (small : maxSize < 2^64) (consistent : Consistent type maxSize segmentSizeMap state)
    {segments : List (κ × Nat × δ)} (meets : Meets type segmentSizeMap state (.store segments)) :
    (type ≠ .lfu → store allowFetchSegments state segments ≠ .error .undefined) ∧
      ∀ next, store allowFetchSegments state segments = .ok next → Consistent type maxSize segmentSizeMap next ∧
        ∀ entry ∈ next.map, entry ∈ (Event.store segments : Event κ ν δ).stored ∨ entry ∈ state.map := by
  have absent : ∀ segment ∈ segments, segment.1 ∉ state.map.map Prod.fst := fun segment inside there =>
    (meets.2 segment inside).1 ((consistent.cached_iff _).mpr there)
  have within := fun segment inside => (meets.2 segment inside).2
  have once := meets.1
  clear meets
  induction segments generalizing state with
  | nil =>
    refine ⟨fun _ => nofun,?_⟩
    intro next stored
    rw [← Except.ok.inj stored]
    exact ⟨consistent,fun _ => .inr⟩
  | cons segment segments ih =>
    obtain ⟨new,once⟩ := List.nodup_cons.mp once
    obtain ⟨here,later⟩ := List.forall_mem_cons.mp absent
    have step : ∀ middle, state.store allowFetchSegments segment = .ok middle →
        Consistent type maxSize segmentSizeMap middle ∧
        (∀ entry ∈ middle.map, entry = (segment.1,segment.2.2) ∨ entry ∈ state.map) ∧
        ∀ other ∈ segments, other.1 ∉ middle.map.map Prod.fst := by
      intro middle stored
      obtain ⟨kept,entries⟩ := store_consistent small consistent here (within segment List.mem_cons_self) stored
      refine ⟨kept,entries,?_⟩
      intro other inside there
      obtain ⟨entry,held,same⟩ := List.mem_map.mp there
      rcases entries entry held with rfl | old
      · exact new (List.mem_map.mpr ⟨other,inside,same.symm⟩)
      · exact later other inside (same ▸ List.mem_map_of_mem old)
    have rest := fun other inside => within other (List.mem_cons_of_mem segment inside)
    refine ⟨?_,?_⟩
    · intro differ
      rw [store,List.foldlM_cons]
      refine bind_ne_error (store_defined consistent differ here) ?_
      intro middle stored
      obtain ⟨kept,_,left⟩ := step middle stored
      exact (ih kept left rest once).1 differ
    · intro next stored
      obtain ⟨middle,first,others⟩ := foldlM_cons_eq_ok.mp stored
      obtain ⟨kept,entries,left⟩ := step middle first
      obtain ⟨last,held⟩ := (ih kept left rest once).2 next others
      refine ⟨last,fun entry inside => ?_⟩
      rcases held entry inside with stored | middle
      · exact .inl (List.mem_cons_of_mem _ stored)
      · rcases entries entry middle with rfl | old
        · exact .inl List.mem_cons_self
        · exact .inr old

omit [ToString κ] [NatCast ν] [Div ν] [LT ν] [DecidableLT ν] in
theorem weight_consistent (consistent : Consistent type maxSize segmentSizeMap state) {weightMap : List (κ × ν)}
    (weighed : weight state weightMap = .ok next) : Consistent type maxSize segmentSizeMap next ∧
    next.map = state.map := by
  obtain ⟨cachingPolicy,map⟩ := state
  obtain ⟨holds,agrees⟩ := consistent
  rw [weight] at weighed
  cases holds with
  | @wlfu policy holds =>
    obtain ⟨kept,same⟩ := HeapCachingPolicy.onWeight_holds holds weightMap
    dsimp only at weighed
    split at weighed
    · rename_i after weighted
      rw [weighted] at kept same
      rw [← Except.ok.inj weighed]
      exact ⟨⟨.wlfu kept,agrees.perm (List.Perm.of_eq same)⟩,rfl⟩
    · cases weighed
  | lru holds =>
    rw [← Except.ok.inj weighed]
    exact ⟨⟨.lru holds,agrees⟩,rfl⟩
  | lfu holds =>
    rw [← Except.ok.inj weighed]
    exact ⟨⟨.lfu holds,agrees⟩,rfl⟩
  | lfus holds =>
    rw [← Except.ok.inj weighed]
    exact ⟨⟨.lfus holds,agrees⟩,rfl⟩
  | belady holds sizes =>
    rw [← Except.ok.inj weighed]
    exact ⟨⟨.belady holds sizes,agrees⟩,rfl⟩

omit [DecidableEq κ] [ToString κ] [NatCast ν] [Div ν] [Add ν] [LT ν] [DecidableLT ν] in
theorem newQuery_consistent (consistent : Consistent type maxSize segmentSizeMap state) :
    Consistent type maxSize segmentSizeMap (newQuery state) ∧ (newQuery state).map = state.map := by
  obtain ⟨cachingPolicy,map⟩ := state
  obtain ⟨holds,agrees⟩ := consistent
  cases holds with
  | wlfu holds => exact ⟨⟨.wlfu (HeapCachingPolicy.onNewQuery_holds holds),agrees⟩,rfl⟩
  | lru holds => exact ⟨⟨.lru holds,agrees⟩,rfl⟩
  | lfu holds => exact ⟨⟨.lfu holds,agrees⟩,rfl⟩
  | lfus holds => exact ⟨⟨.lfus holds,agrees⟩,rfl⟩
  | belady holds sizes => exact ⟨⟨.belady holds sizes,agrees⟩,rfl⟩

omit [NatCast ν] [Div ν] [Add ν] [LT ν] [DecidableLT ν] in
theorem tell_consistent (small : maxSize < 2^64) (consistent : Consistent type maxSize segmentSizeMap state)
    {policy : BeladyCachingPolicy κ}
    (belady : state.cachingPolicy = .belady policy) (label : BeladyCachingPolicy.Call κ)
    (within : BeladyCachingPolicy.WithinOnePercent policy.segmentSizeMap label)
    (fresh : BeladyCachingPolicy.Fresh ⟨policy,policy.keysInCache⟩ label) {after : BeladyCachingPolicy κ}
    (called : BeladyCachingPolicy.call ⟨policy,policy.keysInCache⟩ label = ⟨after,policy.keysInCache⟩)
    (sizes : after.segmentSizeMap = policy.segmentSizeMap) (same : after.keysInCache = policy.keysInCache) :
    Consistent type maxSize segmentSizeMap (tell state policy label) := by
  obtain ⟨cachingPolicy,map⟩ := state
  obtain ⟨holds,agrees⟩ := consistent
  obtain rfl : cachingPolicy = .belady policy := belady
  rw [tell,called]
  cases holds with
  | belady holds known =>
    refine ⟨.belady (BeladyCachingPolicy.call_holds small holds within fresh called sizes) (sizes.trans known),?_⟩
    exact agrees.perm (List.Perm.of_eq same)

theorem step_consistent (small : maxSize < 2^64) (consistent : Consistent type maxSize segmentSizeMap state)
    {event : Event κ ν δ}
    (meets : Meets type segmentSizeMap state event) (step : Step allowFetchSegments state event next) :
    Consistent type maxSize segmentSizeMap next ∧ ∀ entry ∈ next.map, entry ∈ event.stored ∨ entry ∈ state.map := by
  cases step with
  | load handled =>
    obtain ⟨kept,answered⟩ := load_answered consistent handled
    exact ⟨kept,fun _ inside => .inr (answered.map_eq ▸ inside)⟩
  | store handled => exact (storeAll_consistent small consistent meets).2 _ handled
  | weight handled =>
    obtain ⟨kept,same⟩ := weight_consistent consistent handled
    exact ⟨kept,fun _ inside => .inr (same ▸ inside)⟩
  | newQuery =>
    obtain ⟨kept,same⟩ := newQuery_consistent consistent
    exact ⟨kept,fun _ inside => .inr (same ▸ inside)⟩
  | generateCacheDecisions belady involved iteration numQueries =>
    exact ⟨tell_consistent small consistent belady
      (.generateCacheDecisions involved iteration numQueries) trivial trivial rfl rfl rfl,
      fun _ => .inr⟩
  | setCurrentQueryNum belady queryNum =>
    exact ⟨tell_consistent small consistent belady (.setCurrentQueryNum queryNum) trivial trivial rfl rfl rfl,
      fun _ => .inr⟩

/-- What cache and policy say of each other, and of the segments that were stored. -/
structure Agreeing (type : CachingPolicyType) (maxSize : Nat) (segmentSizeMap : κ → Option Nat)
    (allowFetchSegments : Bool) (events : List (Event κ ν δ)) (state : SegmentCacheActorState κ ν δ) : Prop where
  cached : ∀ key, state.cachingPolicy.Cached key ↔ key ∈ state.map.map Prod.fst
  once : (state.map.map Prod.fst).Nodup
  entries : (state.map.map Prod.fst).Perm (keys state.cachingPolicy.entries)
  space : state.cachingPolicy.freeSize+total state.cachingPolicy.entries = maxSize
  stored : ∀ entry ∈ state.map, ∃ event ∈ events, entry ∈ event.stored
  answers : ∀ segmentKeys loading, load state segmentKeys = .ok loading → Answered state.map segmentKeys loading
  defined : type ≠ .lfu → ∀ segments, Meets type segmentSizeMap state (.store segments) →
    store allowFetchSegments state segments ≠ .error .undefined

/-- Whichever the policy is, in every run that stores only what is not cached the map and the policy have the same keys, the
free size is what their segments leave of the whole, and a load gives what was stored. -/
theorem segment_cache_agrees (small : maxSize < 2^64) {events : List (Event κ ν δ)}
    (run : Run (Meeting (Meets type segmentSizeMap) (Step allowFetchSegments)) (SegmentCacheActorState.make type maxSize segmentSizeMap)
      events state) : Agreeing type maxSize segmentSizeMap allowFetchSegments events state := by
  have kept : Consistent type maxSize segmentSizeMap state ∧
      ∀ entry ∈ state.map, ∃ event ∈ events, entry ∈ event.stored := by
    refine run.invariant_labels (fun events state => Consistent type maxSize segmentSizeMap state ∧
      ∀ entry ∈ state.map, ∃ event ∈ events, entry ∈ event.stored) ⟨consistent_make,nofun⟩ ?_
    rintro events before event after ⟨consistent,stored⟩ ⟨meets,step⟩
    obtain ⟨kept,entries⟩ := step_consistent small consistent meets step
    refine ⟨kept,fun entry inside => ?_⟩
    rcases entries entry inside with here | old
    · exact ⟨event,List.mem_append_right _ List.mem_cons_self,here⟩
    · obtain ⟨other,earlier,there⟩ := stored entry old
      exact ⟨other,List.mem_append_left _ earlier,there⟩
  obtain ⟨consistent,stored⟩ := kept
  have balanced := consistent.holds.balanced
  exact ⟨consistent.cached_iff,(List.Perm.nodup_iff consistent.agrees).mpr balanced.once,consistent.agrees,
    balanced.whole,stored,
    fun _ _ loaded => (load_answered consistent loaded).2,
    fun differ _ meets => (storeAll_consistent small consistent meets).1 differ⟩

end Runs

/-- One segment is stored, and another one takes its place. -/
theorem second_takes_place : ∃ state : SegmentCacheActorState String ℕ Unit,
    state.map = [("b",())] ∧ state.cachingPolicy.freeSize+total state.cachingPolicy.entries = 10 := by
  have start := @Run.nil _ _ (Meeting (Meets .lru fun _ => none) (Step true))
    (SegmentCacheActorState.make .lru 10 (fun _ => none) : SegmentCacheActorState String ℕ Unit)
  have asked := start.meet (.load ["a","b"] [] ["a","b"]) trivial (@Step.load _ _ _ _ _ _ _ _ _ _ _ _ ["a",
      "b"] ⟨_,_,_⟩ rfl)
  have stored := asked.meet (.store [("a",6,())]) ⟨by decide,fun segment inside => by
    obtain rfl := List.mem_singleton.mp inside
    exact ⟨List.not_mem_nil,nofun⟩⟩ (.store rfl)
  have replaced := stored.meet (.store [("b",6,())]) ⟨by decide,fun segment inside => by
    obtain rfl := List.mem_singleton.mp inside
    refine ⟨fun there => ?_,nofun⟩
    exact absurd (List.mem_singleton.mp there) (by decide)⟩ (.store rfl)
  exact ⟨_,rfl,(segment_cache_agrees (by decide) replaced).space⟩

end SegmentCacheActor
end Hermes.Cache
