import Hermes.CachingPolicy
import Hermes.HeapSearch

/-! What a store that is refused leaves behind, for every caching policy over the runs of its calls. -/
namespace Hermes.Cache
open Library.Fallible Library.Transition
variable {κ ν : Type} [DecidableEq κ]

namespace LRUCachingPolicy

theorem makeRoom_eq_none {segmentSize freeSize : Nat} {usageQueue : List (QueueNode κ)} {keyIndexMap : κ → Option Nat} :
    makeRoom segmentSize usageQueue freeSize keyIndexMap = none ↔ freeSize+size usageQueue < segmentSize := by
  induction usageQueue generalizing freeSize keyIndexMap with
  | nil =>
    rw [makeRoom]
    split
    · rename_i short
      exact iff_of_true rfl short
    · rename_i enough
      exact iff_of_false (Option.some_ne_none _) enough
  | cons node usageQueue ih =>
    have sizes : size (node::usageQueue) = node.size+size usageQueue := rfl
    rw [makeRoom,sizes,← Nat.add_assoc]
    split
    · rw [Option.map_eq_none_iff,ih]
    · rename_i enough
      exact iff_of_false (Option.some_ne_none _) (by omega)

theorem onStore_eq_none {policy : LRUCachingPolicy κ} {key : κ} {segmentSize : Nat} :
    policy.onStore key segmentSize = none ↔
    ¬ (segmentSize ≤ policy.maxSize → segmentSize ≤ policy.freeSize+size policy.usageQueue) := by
  rw [onStore]
  split
  · rename_i large
    exact iff_of_false (Option.some_ne_none _) (not_not.mpr fun small => absurd small (Nat.not_le.mpr large))
  · rename_i small
    rw [Option.map_eq_none_iff,makeRoom_eq_none,Classical.not_imp,Nat.not_le]
    exact ⟨fun short => ⟨Nat.le_of_not_lt small,short⟩,And.right⟩

theorem onStore_refused {policy next : LRUCachingPolicy κ} {key : κ} {segmentSize : Nat}
    (refused : policy.onStore key segmentSize = some (none,next)) : next = policy := by
  rw [onStore] at refused
  split at refused
  · exact (Prod.mk.inj (Option.some.inj refused)).2.symm
  · obtain ⟨_,_,stored⟩ := Option.map_eq_some_iff.mp refused
    cases stored

end LRUCachingPolicy

namespace LFUCachingPolicy
variable {policy next : LFUCachingPolicy κ} {key : κ}

/-- What the lists say of each other whenever no call has been undefined. -/
structure Tidy (policy : LFUCachingPolicy κ) : Prop where
  frequencies : policy.Frequencies
  hits : ∀ key metadata, policy.keySet key = some metadata → 0 < metadata.hitNum

theorem eraseFreqMap_tidy (tidy : policy.Tidy) {freq : Nat} {it : ListNode κ}
    (ok : policy.eraseFreqMap freq it = .ok next) : next.Tidy := by
  refine ⟨eraseFreqMap_frequencies tidy.frequencies ok,?_⟩
  rw [(eraseFreqMap_ok ok).2.2]
  exact tidy.hits

theorem update_tidy (tidy : policy.Tidy) {metadata : SegmentMetadata} (positive : 0 < metadata.hitNum) :
    Tidy {policy with keySet := Function.update policy.keySet key (some metadata)} :=
  ⟨tidy.frequencies,hits_update tidy.hits positive⟩

theorem insert_tidy (tidy : policy.Tidy) {freq : Nat} (positive : 0 < freq) (key : κ) : (policy.insert freq key).Tidy :=
  ⟨insert_frequencies tidy.frequencies positive key,tidy.hits⟩

theorem moveCached_tidy (tidy : policy.Tidy) {freq : Nat} (positive : 0 < freq)
    (ok : policy.moveCached key freq = .ok next) : next.Tidy := by
  rw [moveCached] at ok
  split at ok
  · exact Except.ok.inj ok ▸ tidy
  · obtain ⟨middle,erased,done⟩ := bind_eq_ok.mp ok
    rw [← Except.ok.inj done]
    exact insert_tidy (eraseFreqMap_tidy tidy erased) positive key

theorem removeAll_tidy (tidy : policy.Tidy) {keys : List κ} (ok : policy.removeAll keys = .ok next) : next.Tidy := by
  induction keys generalizing policy with
  | nil => exact Except.ok.inj ok ▸ tidy
  | cons key keys ih =>
    rw [removeAll] at ok
    split at ok
    · cases ok
    · obtain ⟨middle,erased,rest⟩ := bind_eq_ok.mp ok
      have kept := eraseFreqMap_tidy tidy erased
      have without : Tidy {middle with keyMap := Function.update middle.keyMap key none} := ⟨kept.frequencies,kept.hits⟩
      exact ih without rest

theorem sized_tidy (tidy : policy.Tidy) {metadata : SegmentMetadata} (known : policy.keySet key = some metadata)
    (segmentSize : Nat) :
    (policy.sized key metadata segmentSize).Tidy :=
  update_tidy tidy (tidy.hits key metadata known)

theorem onStore_tidy (tidy : policy.Tidy) {segmentSize : Nat} {result : Option (List κ)}
    (ok : policy.onStore key segmentSize = .ok (result,next)) :
    next.Tidy ∧ (result = none → next = {policy with keySet := next.keySet} ∧
      ∀ other, next.hitNum other = policy.hitNum other) := by
  cases known : policy.keySet key with
  | none =>
    rw [onStore_unknown known] at ok
    cases ok
  | some metadata =>
    have kept := sized_tidy tidy known segmentSize
    have refused : Except.ok (none,policy.sized key metadata segmentSize) = (.ok (result,next) : Except Failure _) →
        next.Tidy ∧ (result = none → next = {policy with keySet := next.keySet} ∧
          ∀ other, next.hitNum other = policy.hitNum other) := by
      rintro ⟨rfl,rfl⟩
      exact ⟨kept,fun _ => ⟨rfl,hitNum_sized known⟩⟩
    by_cases small : policy.storedSize key segmentSize ≤ policy.maxSize
    · obtain ⟨victims,gathered,res,_,store⟩ := onStore_small known small tidy.frequencies
      rw [store] at ok
      cases res with
      | sufficient =>
        obtain ⟨removed,gone,done⟩ := map_eq_ok.mp ok
        obtain ⟨rfl,rfl⟩ := Prod.mk.inj done
        have inserted := insert_tidy (removeAll_tidy kept gone) (tidy.hits key metadata known) key
        exact ⟨⟨inserted.frequencies,inserted.hits⟩,nofun⟩
      | insufficient => exact refused ok
      | unknown => exact refused ok
    · rw [onStore_large known (Nat.lt_of_not_le small)] at ok
      exact refused ok

theorem call_tidy (tidy : policy.Tidy) {label : Call κ} (ok : policy.call label = .ok next) : next.Tidy := by
  cases label with
  | onLoad key =>
    change policy.onLoad key = _ at ok
    rw [onLoad] at ok
    split at ok
    · exact moveCached_tidy (update_tidy tidy Nat.one_pos) Nat.one_pos ok
    · split at ok
      · exact moveCached_tidy (update_tidy tidy (Nat.succ_pos _)) (Nat.succ_pos _) ok
      · cases ok
  | onStore key segmentSize =>
    obtain ⟨⟨result,_⟩,stored,rfl⟩ := map_eq_ok.mp ok
    exact (onStore_tidy tidy stored).1
  | onRemove key hitNum =>
    change policy.onRemove key hitNum = _ at ok
    rw [onRemove] at ok
    split at ok
    · exact Except.ok.inj ok ▸ tidy
    · obtain ⟨middle,erased,done⟩ := bind_eq_ok.mp ok
      have kept := eraseFreqMap_tidy tidy erased
      rw [← Except.ok.inj done]
      exact ⟨kept.frequencies,kept.hits⟩

omit [DecidableEq κ] in
theorem tidy_make (maxSize : Nat) : (make maxSize : LFUCachingPolicy κ).Tidy := ⟨consistent_make.frequencies,nofun⟩

end LFUCachingPolicy

namespace BeladyCachingPolicy

theorem onStore_refused [ToString κ] {policy next : BeladyCachingPolicy κ} {key : κ} {segmentSize : Nat}
    (refused : policy.onStore key segmentSize = .ok (none,next)) : next = policy := by
  obtain ⟨preComputedSize,_,decided⟩ := bind_eq_ok.mp refused
  split at decided
  · cases decided
  · split at decided
    · exact (Prod.mk.inj (Except.ok.inj decided)).2.symm
    · split at decided
      · cases decided
      · split at decided
        · cases decided
        · exact (Prod.mk.inj (Except.ok.inj decided)).2.symm

end BeladyCachingPolicy

variable [ToString κ] [LT ν] [DecidableLT ν]

namespace CachingPolicy

/-- The search of `onStore` asks an empty list for its back, or an empty heap for its front. -/
def PopsEmpty (allowFetchSegments : Bool) (policy : CachingPolicy κ ν) (key : κ) (segmentSize : Nat) : Prop :=
  match policy with
  | .lru policy => policy.onStore key segmentSize = none
  | .lfus policy => LFUSCachingPolicy.onStore allowFetchSegments policy key segmentSize = .error .undefined
  | .wlfu policy => WLFUCachingPolicy.onStore policy key segmentSize = .error .undefined
  -- these go through their keys, and take none of them out before it is decided
  | .lfu _ => False
  | .belady _ => False

def Cached (policy : CachingPolicy κ ν) (key : κ) : Prop :=
  match policy with
  | .lru policy => key ∈ policy.usageQueue.map QueueNode.key
  | .lfu policy => (policy.keyMap key).isSome = true
  | .lfus policy => (policy.keySetInCache key).isSome = true
  | .wlfu policy => (policy.keySetInCache key).isSome = true
  | .belady policy => key ∈ policy.keysInCache.map Prod.fst

def freeSize : CachingPolicy κ ν → Nat
  | .lru policy => policy.freeSize
  | .lfu policy => policy.freeSize
  | .lfus policy => policy.freeSize
  | .wlfu policy => policy.freeSize
  | .belady policy => policy.freeSize

def SameOrder : CachingPolicy κ ν → CachingPolicy κ ν → Prop
  | .lru policy,.lru next => next.usageQueue = policy.usageQueue ∧ next.keyIndexMap = policy.keyIndexMap
  | .lfu policy,.lfu next => next.freqMap = policy.freqMap ∧ next.keyMap = policy.keyMap ∧
    next.minFreq = policy.minFreq ∧
      next.freqSet = policy.freqSet ∧ ∀ key, next.hitNum key = policy.hitNum key
  | .lfus policy,.lfus next => policy.SameOrder ValuedMetadata.perSizeFreq next
  | .wlfu policy,.wlfu next => policy.SameOrder ValuedMetadata.value next
  | .belady policy,.belady next => next.keysInCache = policy.keysInCache
  | _,_ => False

/-- The cached keys, the free size and the order are as before. -/
structure Unchanged (policy next : CachingPolicy κ ν) : Prop where
  cached : ∀ key, next.Cached key ↔ policy.Cached key
  freeSize : next.freeSize = policy.freeSize
  order : policy.SameOrder next

/-- A store that is refused changes nothing, and no store asks for what is not there. -/
structure RefusesCleanly (allowFetchSegments : Bool) (policy : CachingPolicy κ ν) (key : κ)
    (segmentSize : Nat) : Prop where
  search : ¬ policy.PopsEmpty allowFetchSegments key segmentSize
  unchanged : ∀ next, policy.onStore allowFetchSegments key segmentSize = .ok (none,next) → policy.Unchanged next

/-- What the search needs of the state before it. For the queue: the segment is too large, or all that is cached makes room for it. -/
def Settles (allowFetchSegments : Bool) (policy : CachingPolicy κ ν) (key : κ) (segmentSize : Nat) : Prop :=
  match policy with
  | .lru policy => segmentSize ≤ policy.maxSize → segmentSize ≤ policy.freeSize+LRUCachingPolicy.size policy.usageQueue
  | .lfus policy => allowFetchSegments = true → ∀ known ∈ policy.realKey key segmentSize, known.2.Settles ValuedMetadata.perSizeFreq known.1
  | .wlfu policy => ∀ known ∈ policy.realKey key segmentSize, known.2.Settles ValuedMetadata.value known.1
  | .lfu _ => True
  | .belady _ => True

/-- What a heap needs besides, so that the keys that are put back come out as before. -/
def InOrder (allowFetchSegments : Bool) (policy : CachingPolicy κ ν) (key : κ) (segmentSize : Nat) : Prop :=
  match policy with
  | .lfus policy => allowFetchSegments = true → ∀ known ∈ policy.realKey key segmentSize, known.2.InOrder ValuedMetadata.perSizeFreq known.1
  | .wlfu policy => ∀ known ∈ policy.realKey key segmentSize, known.2.InOrder ValuedMetadata.value known.1
  | .lru _ => True
  | .lfu _ => True
  | .belady _ => True

section Policies
variable {allowFetchSegments : Bool} {key : κ} {segmentSize : Nat}

theorem lru_refuses (policy : LRUCachingPolicy κ) :
    (lru policy : CachingPolicy κ ν).RefusesCleanly allowFetchSegments key segmentSize ↔
      (lru policy : CachingPolicy κ ν).Settles allowFetchSegments key segmentSize := by
  constructor
  · rintro ⟨search,_⟩
    by_contra wrong
    exact search (LRUCachingPolicy.onStore_eq_none.mpr wrong)
  · intro settles
    refine ⟨fun empty => LRUCachingPolicy.onStore_eq_none.mp empty settles,fun next refused => ?_⟩
    change (policy.onStore key segmentSize).elim _ _ = _ at refused
    cases stored : policy.onStore key segmentSize with
    | none =>
      rw [stored] at refused
      cases refused
    | some result =>
      obtain ⟨removableKeys,after⟩ := result
      rw [stored] at refused
      obtain ⟨rfl,rfl⟩ := Prod.mk.inj (Except.ok.inj refused)
      obtain rfl := LRUCachingPolicy.onStore_refused stored
      exact ⟨fun _ => Iff.rfl,rfl,rfl,rfl⟩

theorem lfu_refuses {policy : LFUCachingPolicy κ} (tidy : policy.Tidy) :
    (lfu policy : CachingPolicy κ ν).RefusesCleanly allowFetchSegments key segmentSize := by
  refine ⟨id,fun next refused => ?_⟩
  obtain ⟨⟨removableKeys,after⟩,stored,same⟩ := map_eq_ok.mp refused
  obtain ⟨rfl,rfl⟩ := Prod.mk.inj same
  obtain ⟨rest,hits⟩ := (LFUCachingPolicy.onStore_tidy tidy stored).2 rfl
  have keyMap : after.keyMap = policy.keyMap := by rw [rest]
  refine ⟨fun other => ?_,by change after.freeSize = _; rw [rest]; rfl,by rw [rest],keyMap,
    by rw [rest],by rw [rest],hits⟩
  change (after.keyMap other).isSome = true ↔ (policy.keyMap other).isSome = true
  rw [keyMap]

theorem belady_refuses (policy : BeladyCachingPolicy κ) :
    (belady policy : CachingPolicy κ ν).RefusesCleanly allowFetchSegments key segmentSize := by
  refine ⟨id,fun next refused => ?_⟩
  obtain ⟨⟨removableKeys,after⟩,stored,same⟩ := map_eq_ok.mp refused
  obtain ⟨rfl,rfl⟩ := Prod.mk.inj same
  cases found : policy.onStore key segmentSize with
  | error message =>
    rw [found] at stored
    cases stored
  | ok result =>
    rw [found] at stored
    obtain rfl := Except.ok.inj stored
    obtain rfl := BeladyCachingPolicy.onStore_refused found
    exact ⟨fun _ => Iff.rfl,rfl,rfl⟩

omit [DecidableEq κ] [ToString κ] in
theorem heap_refuses {value : ValuedMetadata ν → ν} {wrap : HeapCachingPolicy κ ν → CachingPolicy κ ν}
    {policy : HeapCachingPolicy κ ν}
    (same : ∀ next, (wrap policy).Unchanged (wrap next) ↔ policy.Unchanged value next)
    (stored : Except Failure (Option (List (SegmentKeyPtr κ)) × HeapCachingPolicy κ ν)) :
    (∀ next, (stored.map fun (removableKeys,policy) => (removableKeys.map (List.map SegmentKeyPtr.key),wrap policy)) = .ok (none,next) →
      (wrap policy).Unchanged next) ↔ ∀ next, stored = .ok (none,next) → policy.Unchanged value next := by
  constructor
  · intro kept next refused
    rw [refused] at kept
    exact (same next).mp (kept _ rfl)
  · intro kept next refused
    obtain ⟨⟨removableKeys,after⟩,found,done⟩ := map_eq_ok.mp refused
    obtain ⟨none,rfl⟩ := Prod.mk.inj done
    obtain rfl := Option.map_eq_none_iff.mp none
    exact (same after).mpr (kept after found)

theorem wlfu_refuses (policy : HeapCachingPolicy κ ν) :
    (wlfu policy).RefusesCleanly allowFetchSegments key segmentSize ↔
    ∀ known ∈ policy.realKey key segmentSize,
    known.2.Refuses ValuedMetadata.value (known.2.decideStore ValuedMetadata.value known.1) := by
  have same : ∀ next, (wlfu policy).Unchanged (wlfu next) ↔ policy.Unchanged ValuedMetadata.value next :=
    fun next => ⟨fun ⟨set,freeSize,order⟩ => ⟨set,freeSize,order⟩,fun ⟨set,freeSize,order⟩ => ⟨set,freeSize,order⟩⟩
  have kept := heap_refuses same (policy.onStore ValuedMetadata.value key segmentSize)
  rw [← HeapCachingPolicy.refuses_onStore_iff fun _ _ => rfl]
  exact ⟨fun ⟨search,unchanged⟩ => ⟨search,kept.mp unchanged⟩,fun ⟨search,unchanged⟩ => ⟨search,kept.mpr unchanged⟩⟩

theorem lfus_refuses (policy : HeapCachingPolicy κ ν) :
    (lfus policy).RefusesCleanly allowFetchSegments key segmentSize ↔
    (allowFetchSegments = true → ∀ known ∈ policy.realKey key segmentSize,
      known.2.Refuses ValuedMetadata.perSizeFreq (known.2.decideStore ValuedMetadata.perSizeFreq known.1)) := by
  have same : ∀ next, (lfus policy).Unchanged (lfus next) ↔ policy.Unchanged ValuedMetadata.perSizeFreq next :=
    fun next => ⟨fun ⟨set,freeSize,order⟩ => ⟨set,freeSize,order⟩,fun ⟨set,freeSize,order⟩ => ⟨set,freeSize,order⟩⟩
  have kept := heap_refuses same (LFUSCachingPolicy.onStore allowFetchSegments policy key segmentSize)
  rw [← HeapCachingPolicy.refuses_onStore_iff fun _ _ => rfl]
  cases allowFetchSegments with
  | false =>
    refine ⟨fun _ => nofun,fun _ => ⟨nofun,kept.mpr ?_⟩⟩
    rintro _ ⟨rfl⟩
    exact HeapCachingPolicy.Unchanged.refl policy
  | true => exact ⟨fun ⟨search,unchanged⟩ _ => ⟨search,kept.mp unchanged⟩,
    fun each => ⟨(each rfl).1,kept.mpr (each rfl).2⟩⟩

theorem settles_of_refusesCleanly {policy : CachingPolicy κ ν}
    (refuses : policy.RefusesCleanly allowFetchSegments key segmentSize) :
    policy.Settles allowFetchSegments key segmentSize := by
  cases policy with
  | lru policy => exact (lru_refuses policy).mp refuses
  | lfu policy => trivial
  | lfus policy => exact fun fetch known inside => HeapCachingPolicy.settles_of_refuses ((lfus_refuses policy).mp refuses fetch known inside)
  | wlfu policy => exact fun known inside => HeapCachingPolicy.settles_of_refuses ((wlfu_refuses policy).mp refuses known inside)
  | belady policy => trivial

end Policies

def Reached : CachingPolicy κ ν → Prop
  | .lfu policy => policy.Tidy
  | _ => True

section Runs
variable [NatCast ν] [Div ν] [Add ν]
variable {type : CachingPolicyType} {maxSize : Nat} {segmentSizeMap : κ → Option Nat} {calls : List (Call κ ν)}
    {policy : CachingPolicy κ ν}

theorem run_reached (run : Run Step (make type maxSize segmentSizeMap) calls policy) : policy.Reached := by
  refine run.invariant Reached ?_ ?_
  · cases type with
    | lfu => exact LFUCachingPolicy.tidy_make maxSize
    | lru | lfus | wlfu | belady => trivial
  · intro before label next reached step
    cases step with
    | lfu made => exact LFUCachingPolicy.call_tidy reached made
    | lfuThrows throws => exact reached
    | lru | lfus | wlfu | belady | lfusThrows | wlfuThrows => trivial

theorem run_lru {calls : List (LRUCachingPolicy.Call κ)} {start last : LRUCachingPolicy κ}
    (ok : calls.foldlM LRUCachingPolicy.call start = .ok last) :
    Run Step (.lru start : CachingPolicy κ ν) (calls.map .lru) (.lru last) :=
  Run.of_foldlM (fun _ _ _ made => .lru made) ok

theorem run_lfus {calls : List (LFUSCachingPolicy.Call κ)} {start last : HeapCachingPolicy κ ν}
    (ok : calls.foldlM LFUSCachingPolicy.call start = .ok last) : Run Step (.lfus start) (calls.map .lfus)
    (.lfus last) :=
  Run.of_foldlM (fun _ _ _ made => .lfus made) ok

theorem run_wlfu {calls : List (WLFUCachingPolicy.Call κ ν)} {start last : HeapCachingPolicy κ ν}
    (ok : calls.foldlM WLFUCachingPolicy.call start = .ok last) : Run Step (.wlfu start) (calls.map .wlfu)
    (.wlfu last) :=
  Run.of_foldlM (fun _ _ _ made => .wlfu made) ok

end Runs

section Ordered
variable {ν : Type} [LinearOrder ν] [NatCast ν] [Div ν] [Add ν]
variable {type : CachingPolicyType} {maxSize : Nat} {segmentSizeMap : κ → Option Nat} {calls : List (Call κ ν)}
    {policy : CachingPolicy κ ν}

/-- In every state that is reached a refused store leaves cached keys, free size and order as they are, and no store asks
for what is not there, if its search settles over a heap in order; and only if it settles. -/
theorem refused_unchanged (run : Run Step (make type maxSize segmentSizeMap) calls policy)
    (allowFetchSegments : Bool) (key : κ) (segmentSize : Nat) :
    (policy.Settles allowFetchSegments key segmentSize → policy.InOrder allowFetchSegments key segmentSize →
      policy.RefusesCleanly allowFetchSegments key segmentSize) ∧
    (policy.RefusesCleanly allowFetchSegments key segmentSize → policy.Settles allowFetchSegments key segmentSize) := by
  have reached := run_reached run
  refine ⟨fun settles inOrder => ?_,settles_of_refusesCleanly⟩
  cases policy with
  | lru policy => exact (lru_refuses policy).mpr settles
  | lfu policy => exact lfu_refuses reached
  | lfus policy =>
    exact (lfus_refuses policy).mpr fun fetch known inside =>
      HeapCachingPolicy.refuses_of_settles (settles fetch known inside) (inOrder fetch known inside)
  | wlfu policy =>
    exact (wlfu_refuses policy).mpr fun known inside => HeapCachingPolicy.refuses_of_settles (settles known inside)
      (inOrder known inside)
  | belady policy => exact belady_refuses policy

end Ordered

section Examples

def segmentSizes (key : String) : Option Nat := if key = "c" then some 2 else some 1

/-- Two keys are cached. A third one is used more for its size than the first and less than the second, and there is no room for
it beside the second. -/
def twoCached : List (LFUSCachingPolicy.Call String) :=
  [.onLoad "a" 0,.onStore true "a" 1,.onLoad "b" 0,.onLoad "b" 0,.onStore true "b" 1,.onLoad "c" 0,.onLoad "c" 0]

theorem first_put_back : ∃ policy next : HeapCachingPolicy String ℕ,
    Run Step (make .lfus 2 segmentSizes) (twoCached.map .lfus) (.lfus policy) ∧
    LFUSCachingPolicy.onStore true policy "c" 2 = .ok (none,next) ∧ (lfus policy).Unchanged (.lfus next) := by
  have called : ∃ policy ∈ (twoCached.foldlM LFUSCachingPolicy.call
      (HeapCachingPolicy.make 2 segmentSizes : HeapCachingPolicy String ℕ)).toOption,
      (∀ known ∈ policy.realKey "c" 2, known.2.Settles ValuedMetadata.perSizeFreq known.1 ∧
        known.2.InOrder ValuedMetadata.perSizeFreq known.1) ∧
        ∃ stored ∈ (LFUSCachingPolicy.onStore true policy "c" 2).toOption, stored.1 = none := by decide +kernel
  obtain ⟨policy,made,settles,⟨removableKeys,next⟩,stored,rfl⟩ := called
  have run : Run Step (make .lfus 2 segmentSizes) (twoCached.map .lfus) (.lfus policy) := run_lfus (eq_ok_of_mem made)
  have refused := eq_ok_of_mem stored
  have kept := (refused_unchanged run true "c" 2).1
      (fun _ known inside => (settles known inside).1) fun _ known inside => (settles known inside).2
  refine ⟨policy,next,run,refused,kept.unchanged _ ?_⟩
  change (LFUSCachingPolicy.onStore true policy "c" 2).map _ = _
  rw [refused]
  rfl

/-- A key that is stored twice takes its room twice, and once it is loaded it gives it back only once. -/
def storedTwice : List (LFUSCachingPolicy.Call String) :=
  [.onLoad "a" 0,.onStore true "a" 1,.onStore true "a" 1,.onLoad "a" 0] ++ List.replicate 6 (.onLoad "c" 0)

def weighted : List (WLFUCachingPolicy.Call String ℕ) :=
  [.onLoad "a" 0,.onStore "a" 1,.onStore "a" 1,.onLoad "a" 0,.onLoad "c" 0,.onWeight [("c",1)]]

/-- The cached keys get their weights when they are in the heap already. -/
def reweighted : List (WLFUCachingPolicy.Call String ℕ) :=
  ["a","b","c","s"].flatMap (fun key => [.onLoad key 0,.onStore key 1]) ++
    [.onWeight [("a",11),("b",2),("c",3),("s",30)],.onLoad "x" 0,.onWeight [("x",20)]]

/-- In the three policies that pop, nothing is left before there is room: in the queue a key has been removed and its room has not.
Where weights have come to keys in the heap, a refused store puts them into another order. -/
theorem empty_popped :
    (∃ policy : LRUCachingPolicy String,
      Run Step (make .lru 1 segmentSizes : CachingPolicy String ℕ) [.lru (.onStore "a" 1),.lru (.onRemove "a")]
      (.lru policy) ∧
      (lru policy : CachingPolicy String ℕ).PopsEmpty true "b" 1) ∧
    (∃ policy : HeapCachingPolicy String ℕ, Run Step (make .lfus 2 segmentSizes) (storedTwice.map .lfus) (.lfus policy) ∧
      (lfus policy).PopsEmpty true "c" 2) ∧
    (∃ policy : HeapCachingPolicy String ℕ, Run Step (make .wlfu 2 segmentSizes) (weighted.map .wlfu) (.wlfu policy) ∧
      (wlfu policy).PopsEmpty true "c" 2) ∧
    ∃ policy next : HeapCachingPolicy String ℕ, Run Step (make .wlfu 4 segmentSizes) (reweighted.map .wlfu)
    (.wlfu policy) ∧
      WLFUCachingPolicy.onStore policy "x" 4 = .ok (none,next) ∧
      policy.order ValuedMetadata.value policy.keysInCache = [11,2,3,30] ∧
      next.order ValuedMetadata.value next.keysInCache = [2,3,11,30] ∧ ¬ (wlfu policy).Unchanged (.wlfu next) := by
  refine ⟨⟨_,@run_lru _ ℕ _ _ _ _ _ _ _ [.onStore "a" 1,.onRemove "a"] _ _ rfl,rfl⟩,?_,?_,?_⟩
  · have called :
      ∃ policy ∈ (storedTwice.foldlM LFUSCachingPolicy.call
        (HeapCachingPolicy.make 2 segmentSizes : HeapCachingPolicy String ℕ)).toOption,
        LFUSCachingPolicy.onStore true policy "c" 2 = .error .undefined := by decide +kernel
    obtain ⟨policy,made,empty⟩ := called
    exact ⟨policy,run_lfus (eq_ok_of_mem made),empty⟩
  · have called : ∃ policy ∈ (weighted.foldlM WLFUCachingPolicy.call (HeapCachingPolicy.make 2 segmentSizes)).toOption,
        WLFUCachingPolicy.onStore policy "c" 2 = .error .undefined := by decide +kernel
    obtain ⟨policy,made,empty⟩ := called
    exact ⟨policy,run_wlfu (eq_ok_of_mem made),empty⟩
  · have called : ∃ policy ∈ (reweighted.foldlM WLFUCachingPolicy.call
        (HeapCachingPolicy.make 4 segmentSizes)).toOption,
        ∃ stored ∈ (WLFUCachingPolicy.onStore policy "x" 4).toOption, stored.1 = none ∧
          policy.order ValuedMetadata.value policy.keysInCache = [11,2,3,30] ∧
          stored.2.order ValuedMetadata.value stored.2.keysInCache = [2,3,11,30] := by decide +kernel
    obtain ⟨policy,made,⟨removableKeys,next⟩,stored,rfl,before,after⟩ := called
    refine ⟨policy,next,run_wlfu (eq_ok_of_mem made),eq_ok_of_mem stored,before,after,fun ⟨_,_,order⟩ => ?_⟩
    exact absurd (after.symm.trans (order.order.trans before)) (by decide)

end Examples

end CachingPolicy
end Hermes.Cache
