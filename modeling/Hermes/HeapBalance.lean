import Hermes.HeapSearch
import Hermes.Library.BoundedCache

/-! The valid keys in the heap are those of the set, and their sizes with the free size are the whole. -/
namespace Hermes.Cache
open Library.BinaryHeap Library.RecentUse Library.BoundedCache
variable {κ ν : Type}

namespace HeapCachingPolicy

def validKeys (policy : HeapCachingPolicy κ ν) : List (SegmentKeyPtr κ) :=
  policy.keysInCache.filter fun key => decide (policy.Valid key)

def entries (policy : HeapCachingPolicy κ ν) : Entries κ :=
  policy.validKeys.map fun key => (key.key,(policy.metadata key.object).size)

/-- The set holds the valid keys of the heap, each of them the object that is known for its key. -/
structure Kept (policy : HeapCachingPolicy κ ν) : Prop where
  set : ∀ key, policy.keySetInCache key.key = some key.object ↔ key ∈ policy.validKeys
  once : policy.validKeys.Nodup
  known : ∀ key object, policy.keySetInCache key = some object → policy.keySet key = some object
  real : ∀ key object, policy.keySet key = some object → object < policy.objects ∧ (policy.metadata object).valid = true
  own : ∀ key other object, policy.keySet key = some object → policy.keySet other = some object → key = other
  fresh : ∀ key ∈ policy.keysInCache, key.object < policy.objects

section Keys
variable {policy next : HeapCachingPolicy κ ν} {key : SegmentKeyPtr κ}

theorem mem_validKeys : key ∈ policy.validKeys ↔ key ∈ policy.keysInCache ∧ policy.Valid key := by
  rw [validKeys,List.mem_filter,decide_eq_true_eq]

theorem keys_entries (policy : HeapCachingPolicy κ ν) :
    keys policy.entries = policy.validKeys.map SegmentKeyPtr.key := by
  rw [keys,entries,List.map_map]
  rfl

theorem Kept.mem_keys (kept : policy.Kept) {key : κ} : key ∈ keys policy.entries ↔
    (policy.keySetInCache key).isSome = true := by
  rw [keys_entries,List.mem_map,Option.isSome_iff_exists]
  constructor
  · rintro ⟨found,inside,rfl⟩
    exact ⟨found.object,(kept.set found).mpr inside⟩
  · rintro ⟨object,there⟩
    exact ⟨⟨object,key⟩,(kept.set ⟨object,key⟩).mp there,rfl⟩

theorem Kept.key_eq (kept : policy.Kept) (inside : key ∈ policy.validKeys) {other : κ}
    (known : policy.keySet other = some key.object) : key.key = other :=
  kept.own key.key other key.object (kept.known _ _ ((kept.set key).mpr inside)) known

theorem Kept.keys_nodup (kept : policy.Kept) : (keys policy.entries).Nodup := by
  rw [keys_entries]
  refine List.pairwise_map.mpr (kept.once.imp_of_mem ?_)
  intro first second inside inside' differ same
  have here := (kept.set first).mpr inside
  rw [same,(kept.set second).mpr inside'] at here
  obtain ⟨object,name⟩ := first
  obtain ⟨object',name'⟩ := second
  obtain rfl : name = name' := same
  obtain rfl : object' = object := Option.some.inj here
  exact differ rfl

theorem validKeys_perm {stale : List (SegmentKeyPtr κ)} (heap : (next.keysInCache ++ stale).Perm policy.keysInCache)
    (invalid : ∀ key ∈ stale, ¬ policy.Valid key)
    (same : ∀ key ∈ policy.keysInCache, next.Valid key ↔ policy.Valid key) :
    next.validKeys.Perm policy.validKeys := by
  have order := heap.filter fun key => decide (policy.Valid key)
  have nothing : stale.filter (fun key => decide (policy.Valid key)) = [] :=
    List.filter_eq_nil_iff.mpr fun key inside valid => invalid key inside (of_decide_eq_true valid)
  rw [List.filter_append,nothing,List.append_nil] at order
  refine List.Perm.trans (List.Perm.of_eq ?_) order
  apply List.filter_congr
  intro key inside
  exact decide_eq_decide.mpr (same key (heap.mem_iff.mp (List.mem_append_left _ inside)))

theorem entries_perm (order : next.validKeys.Perm policy.validKeys)
    (same : ∀ key ∈ policy.validKeys, (next.metadata key.object).size = (policy.metadata key.object).size) :
    next.entries.Perm policy.entries := by
  refine (order.map _).trans (List.Perm.of_eq ?_)
  apply List.map_congr_left
  intro key inside
  rw [same key inside]

end Keys

section Search
variable [LT ν] [DecidableLT ν] [DecidableEq κ] {policy : HeapCachingPolicy κ ν} {value : ValuedMetadata ν → ν}
  {realKey : SegmentKeyPtr κ} {segmentSize : Nat}

def without (gone : List (SegmentKeyPtr κ)) (set : κ → Option Nat) : κ → Option Nat :=
  fun key => if key ∈ gone.map SegmentKeyPtr.key then none else set key

omit [LT ν] [DecidableLT ν] in
theorem without_cons (key : SegmentKeyPtr κ) (gone : List (SegmentKeyPtr κ)) (set : κ → Option Nat) :
    without gone (Function.update set key.key none) = without (key::gone) set := by
  funext other
  by_cases here : other = key.key
  · simp [without,here]
  · simp [without,here]

theorem restored {gone : List (SegmentKeyPtr κ)} {set : κ → Option Nat} (once : (gone.map SegmentKeyPtr.key).Nodup)
    (held : ∀ key ∈ gone, set key.key = some key.object) : gone.foldl emplace (without gone set) = set := by
  induction gone generalizing set with
  | nil => rfl
  | cons key gone ih =>
    obtain ⟨here,later⟩ := List.forall_mem_cons.mp held
    obtain ⟨apart,once⟩ := List.nodup_cons.mp once
    have vacant : without (key::gone) set key.key = none := if_pos List.mem_cons_self
    have back : emplace (without (key::gone) set) key = without gone set := by
      funext other
      rw [emplace,vacant,if_neg (by decide)]
      by_cases same : other = key.key
      · rw [same,Function.update_self,without,if_neg apart,here]
      · rw [Function.update_of_ne same]
        simp [without,same]
    rw [List.foldl_cons,back]
    exact ih once later

variable (policy value segmentSize) in
/-- What a search takes out of the heap: stale keys, and valid ones that are given up or put back. -/
inductive Takes (keysInCache : List (SegmentKeyPtr κ)) (set : κ → Option Nat) (tmpFreeSize : Nat)
    (removableKeys : List (SegmentKeyPtr κ)) : Searched κ → Prop
  | room {gone stale kept : List (SegmentKeyPtr κ)} (parts : keysInCache.Perm (kept ++ (stale ++ gone)))
      (invalid : ∀ key ∈ stale, ¬ policy.Valid key) (valid : ∀ key ∈ gone, policy.Valid key)
      (enough : segmentSize ≤ tmpFreeSize+policy.size gone) :
      Takes keysInCache set tmpFreeSize removableKeys ⟨kept,without gone set,
        some (removableKeys ++ gone,tmpFreeSize+policy.size gone)⟩
  | refused {gone stale kept : List (SegmentKeyPtr κ)} (parts : keysInCache.Perm (kept ++ (stale ++ gone)))
      (invalid : ∀ key ∈ stale, ¬ policy.Valid key) (valid : ∀ key ∈ gone, policy.Valid key) :
      Takes keysInCache set tmpFreeSize removableKeys (policy.restore value (removableKeys ++ gone) kept (without gone set))

section Takes
variable {key : SegmentKeyPtr κ} {rest popped removableKeys : List (SegmentKeyPtr κ)} {set : κ → Option Nat}
    {tmpFreeSize : Nat}
  {searched : Searched κ}

theorem Takes.stale (stale : ¬ policy.Valid key) (same : popped.Perm rest)
    (takes : Takes policy value segmentSize popped set tmpFreeSize removableKeys searched) :
    Takes policy value segmentSize (key::rest) set tmpFreeSize removableKeys searched := by
  have whole {gone stale kept : List (SegmentKeyPtr κ)} (parts : popped.Perm (kept ++ (stale ++ gone))) :
      (key::rest).Perm (kept ++ (key::stale ++ gone)) :=
    ((same.symm.trans parts).cons key).trans List.perm_middle.symm
  cases takes with
  | room parts invalid valid enough => exact .room (whole parts) (List.forall_mem_cons.mpr ⟨stale,invalid⟩) valid enough
  | refused parts invalid valid => exact .refused (whole parts) (List.forall_mem_cons.mpr ⟨stale,invalid⟩) valid

theorem Takes.less (valid : policy.Valid key) (same : popped.Perm rest)
    (takes : Takes policy value segmentSize popped (Function.update set key.key none)
      (tmpFreeSize+(policy.metadata key.object).size) (removableKeys ++ [key]) searched) :
    Takes policy value segmentSize (key::rest) set tmpFreeSize removableKeys searched := by
  have whole {gone stale kept : List (SegmentKeyPtr κ)} (parts : popped.Perm (kept ++ (stale ++ gone))) :
      (key::rest).Perm (kept ++ (stale ++ key::gone)) := by
    refine ((same.symm.trans parts).cons key).trans ?_
    rw [← List.append_assoc,← List.append_assoc]
    exact List.perm_middle.symm
  have sizes (gone : List (SegmentKeyPtr κ)) :
      tmpFreeSize+(policy.metadata key.object).size+policy.size gone = tmpFreeSize+policy.size (key::gone) := by
    rw [size,size,List.map_cons,List.sum_cons,Nat.add_assoc]
  cases takes with
  | room parts invalid others enough =>
    rw [without_cons,List.append_assoc,List.singleton_append,sizes]
    exact .room (whole parts) invalid (List.forall_mem_cons.mpr ⟨valid,others⟩) (sizes _ ▸ enough)
  | refused parts invalid others =>
    rw [without_cons,List.append_assoc,List.singleton_append]
    exact .refused (whole parts) invalid (List.forall_mem_cons.mpr ⟨valid,others⟩)

theorem Takes.here (enough : segmentSize ≤ tmpFreeSize) (keysInCache : List (SegmentKeyPtr κ)) :
    Takes policy value segmentSize keysInCache set tmpFreeSize removableKeys ⟨keysInCache,set,some (removableKeys,tmpFreeSize)⟩ := by
  have room := @Takes.room κ ν _ _ _ policy value segmentSize keysInCache set tmpFreeSize removableKeys [] [] keysInCache
    (by rw [List.append_nil,List.append_nil]) (List.forall_mem_nil _) (List.forall_mem_nil _) enough
  rw [List.append_nil] at room
  exact room

end Takes

theorem search_takes {numKeys : Nat} {keysInCache : List (SegmentKeyPtr κ)} (count : keysInCache.length = numKeys)
    {set : κ → Option Nat} {tmpFreeSize : Nat} {removableKeys : List (SegmentKeyPtr κ)} {searched : Searched κ}
    (found : policy.search value realKey segmentSize numKeys keysInCache set tmpFreeSize removableKeys = some searched) :
    Takes policy value segmentSize keysInCache set tmpFreeSize removableKeys searched := by
  induction numKeys generalizing keysInCache set tmpFreeSize removableKeys with
  | zero =>
    obtain rfl := List.length_eq_zero_iff.mp count
    rw [search_nil] at found
    by_cases short : tmpFreeSize < segmentSize
    · rw [if_pos short] at found
      cases found
    · rw [if_neg short] at found
      rw [← Option.some.inj found]
      exact .here (Nat.le_of_not_lt short) []
  | succ numKeys ih =>
    obtain ⟨key,rest,rfl⟩ := List.exists_cons_of_length_eq_add_one count
    have same := @pop_perm _ _ _ _ policy value key rest
    have fewer : (policy.pop value (key::rest)).length = numKeys := by
      rw [same.length_eq]
      exact Nat.succ.inj count
    rw [search] at found
    split at found
    · dsimp only at found
      by_cases valid : policy.Valid key
      · rw [if_neg (ne_false_of_eq_true valid)] at found
        by_cases less : policy.lessValue value key realKey = true
        · rw [if_pos less] at found
          exact (ih fewer found).less valid same
        · rw [if_neg less] at found
          rw [← Option.some.inj found]
          have refused := @Takes.refused κ ν _ _ _ policy value segmentSize
              (key::rest) set tmpFreeSize removableKeys [] [] (key::rest)
            (by rw [List.append_nil,List.append_nil]) (List.forall_mem_nil _) (List.forall_mem_nil _)
          rw [List.append_nil] at refused
          exact refused
      · rw [if_pos (Bool.eq_false_of_not_eq_true valid)] at found
        exact (ih fewer found).stale valid same
    · rename_i enough
      rw [← Option.some.inj found]
      exact .here (Nat.le_of_not_lt enough) (key::rest)

omit [LT ν] [DecidableLT ν] [DecidableEq κ] in
theorem size_perm {first second : List (SegmentKeyPtr κ)} (order : first.Perm second) :
    policy.size first = policy.size second := by
  rw [size,size,(order.map _).sum_nat]

theorem search_defined {numKeys : Nat} {keysInCache : List (SegmentKeyPtr κ)} (count : keysInCache.length = numKeys)
    {set : κ → Option Nat} {tmpFreeSize : Nat} {removableKeys : List (SegmentKeyPtr κ)}
    (enough : segmentSize ≤ tmpFreeSize+policy.size (keysInCache.filter fun key => decide (policy.Valid key))) :
    policy.search value realKey segmentSize numKeys keysInCache set tmpFreeSize removableKeys ≠ none := by
  induction numKeys generalizing keysInCache set tmpFreeSize removableKeys with
  | zero =>
    obtain rfl := List.length_eq_zero_iff.mp count
    rw [List.filter_nil] at enough
    have room : ¬ tmpFreeSize < segmentSize := Nat.not_lt.mpr enough
    rw [search_nil,if_neg room]
    exact Option.some_ne_none _
  | succ numKeys ih =>
    obtain ⟨key,rest,rfl⟩ := List.exists_cons_of_length_eq_add_one count
    have same := @pop_perm _ _ _ _ policy value key rest
    have fewer : (policy.pop value (key::rest)).length = numKeys := by
      rw [same.length_eq]
      exact Nat.succ.inj count
    have sizes := @size_perm κ ν policy _ _ (same.filter fun key => decide (policy.Valid key))
    rw [search]
    split
    · dsimp only
      by_cases valid : policy.Valid key
      · have more : policy.size ((key::rest).filter fun key => decide (policy.Valid key)) =
            (policy.metadata key.object).size+
            policy.size ((policy.pop value (key::rest)).filter fun key => decide (policy.Valid key)) := by
          rw [List.filter_cons,if_pos (decide_eq_true valid),sizes,size,List.map_cons,List.sum_cons,← size]
        rw [more,← Nat.add_assoc] at enough
        rw [if_neg (ne_false_of_eq_true valid)]
        by_cases less : policy.lessValue value key realKey = true
        · rw [if_pos less]
          exact ih fewer enough
        · rw [if_neg less]
          exact Option.some_ne_none _
      · rw [List.filter_cons,if_neg (mt of_decide_eq_true valid),← sizes] at enough
        rw [if_pos (Bool.eq_false_of_not_eq_true valid)]
        exact ih fewer enough
    · exact Option.some_ne_none _

end Search
section Load
variable {maxSize : Nat} {policy next : HeapCachingPolicy κ ν} {value : ValuedMetadata ν → ν} {key : κ}

structure Holds (policy : HeapCachingPolicy κ ν) (maxSize : Nat) : Prop where
  maxSize_eq : policy.maxSize = maxSize
  kept : policy.Kept
  balanced : Balanced maxSize policy.freeSize policy.entries

theorem validKeys_eq (heap : next.keysInCache = policy.keysInCache)
    (same : ∀ key ∈ policy.keysInCache, next.Valid key ↔ policy.Valid key) :
    next.validKeys = policy.validKeys := by
  rw [validKeys,validKeys,heap]
  exact List.filter_congr fun key inside => decide_eq_decide.mpr (same key inside)

theorem Holds.metadata (holds : policy.Holds maxSize) {metadata : Nat → ValuedMetadata ν}
    (valid : ∀ object, (metadata object).valid = (policy.metadata object).valid)
    (sizes : ∀ key ∈ policy.validKeys, (metadata key.object).size = (policy.metadata key.object).size) :
    Holds {policy with metadata} maxSize ∧ Kept {policy with metadata} ∧
    entries {policy with metadata} = policy.entries := by
  have same : validKeys {policy with metadata} = policy.validKeys := by
    refine @validKeys_eq κ ν policy _ rfl ?_
    intro key _
    change (metadata key.object).valid = true ↔ _
    rw [valid]
    rfl
  have whole : entries {policy with metadata} = policy.entries := by
    rw [entries,same]
    apply List.map_congr_left
    intro key inside
    rw [← sizes key inside]
  have kept : Kept {policy with metadata} := by
    refine ⟨?_,?_,holds.kept.known,?_,holds.kept.own,holds.kept.fresh⟩
    · rw [same]
      exact holds.kept.set
    · rw [same]
      exact holds.kept.once
    · intro key object known
      refine ⟨(holds.kept.real key object known).1,?_⟩
      change (metadata object).valid = true
      rw [valid]
      exact (holds.kept.real key object known).2
  refine ⟨⟨holds.maxSize_eq,kept,?_⟩,kept,whole⟩
  rw [whole]
  exact holds.balanced

theorem Holds.update (holds : policy.Holds maxSize) {object : Nat} {metadata : ValuedMetadata ν}
    (valid : metadata.valid = (policy.metadata object).valid)
    (size : ∀ key ∈ policy.validKeys, key.object = object → metadata.size = (policy.metadata object).size) :
    Holds {policy with metadata := Function.update policy.metadata object metadata} maxSize ∧
      entries {policy with metadata := Function.update policy.metadata object metadata} = policy.entries := by
  obtain ⟨after,_,whole⟩ := @Holds.metadata κ ν maxSize policy holds (Function.update policy.metadata object metadata)
    (fun other => by
      by_cases here : other = object
      · rw [here,Function.update_self,valid]
      · rw [Function.update_of_ne here])
    (fun key inside => by
      by_cases here : key.object = object
      · rw [here,Function.update_self,size key inside here]
      · rw [Function.update_of_ne here])
  exact ⟨after,whole⟩

/-- What is known of a key goes to a new object. -/
def remember [DecidableEq κ] (policy : HeapCachingPolicy κ ν) (key : κ) (metadata : ValuedMetadata ν) :
    HeapCachingPolicy κ ν :=
  {policy with
    keySet := Function.update policy.keySet key (some policy.objects)
    metadata := Function.update policy.metadata policy.objects metadata
    objects := policy.objects+1}

theorem Holds.remember [DecidableEq κ] (holds : policy.Holds maxSize) (unknown : policy.keySet key = none)
    {metadata : ValuedMetadata ν} (valid : metadata.valid = true) :
    Holds (policy.remember key metadata) maxSize ∧ entries (policy.remember key metadata) = policy.entries := by
  have old : ∀ object, object < policy.objects → Function.update policy.metadata policy.objects metadata object =
      policy.metadata object :=
    fun object less => Function.update_of_ne (Nat.ne_of_lt less) ..
  have same : validKeys (policy.remember key metadata) = policy.validKeys := by
    refine @validKeys_eq κ ν policy _ rfl ?_
    intro found inside
    change (Function.update policy.metadata policy.objects metadata found.object).valid = true ↔ _
    rw [old _ (holds.kept.fresh found inside)]
    rfl
  have whole : entries (policy.remember key metadata) = policy.entries := by
    rw [entries,same]
    apply List.map_congr_left
    intro found inside
    dsimp only [HeapCachingPolicy.remember]
    rw [old _ (holds.kept.fresh found (mem_validKeys.mp inside).1)]
  have kept : Kept (policy.remember key metadata) := by
    refine ⟨?_,?_,?_,?_,?_,fun found inside => Nat.lt_succ_of_lt (holds.kept.fresh found inside)⟩
    · rw [same]
      exact holds.kept.set
    · rw [same]
      exact holds.kept.once
    · intro other object there
      have known := holds.kept.known other object there
      dsimp only [HeapCachingPolicy.remember]
      rw [Function.update_of_ne,known]
      rintro rfl
      rw [unknown] at known
      cases known
    · intro other object known
      dsimp only [HeapCachingPolicy.remember] at known ⊢
      by_cases here : other = key
      · rw [here,Function.update_self] at known
        rw [← Option.some.inj known,Function.update_self]
        exact ⟨Nat.lt_succ_self _,valid⟩
      · rw [Function.update_of_ne here] at known
        obtain ⟨less,stays⟩ := holds.kept.real other object known
        rw [old object less]
        exact ⟨Nat.lt_succ_of_lt less,stays⟩
    · intro first second object known known'
      dsimp only [HeapCachingPolicy.remember] at known known'
      by_cases here : first = key
      · by_cases there : second = key
        · rw [here,there]
        · rw [here,Function.update_self] at known
          rw [Function.update_of_ne there] at known'
          exact absurd (holds.kept.real second object known').1 (by rw [← Option.some.inj known]; exact Nat.lt_irrefl _)
      · rw [Function.update_of_ne here] at known
        by_cases there : second = key
        · rw [there,Function.update_self] at known'
          exact absurd (holds.kept.real first object known).1 (by rw [← Option.some.inj known']; exact Nat.lt_irrefl _)
        · rw [Function.update_of_ne there] at known'
          exact holds.kept.own first second object known known'
  refine ⟨⟨holds.maxSize_eq,kept,?_⟩,whole⟩
  rw [whole]
  exact holds.balanced

variable [DecidableEq κ]

/-- A cached key gets a new object, and the old one is stale. -/
def reload (policy : HeapCachingPolicy κ ν) (key : κ) (object : Nat) (metadata : ValuedMetadata ν)
    (keysInCache : List (SegmentKeyPtr κ)) :
    HeapCachingPolicy κ ν :=
  {policy with
    keysInCache
    keySetInCache := Function.update policy.keySetInCache key (some policy.objects)
    keySet := Function.update policy.keySet key (some policy.objects)
    metadata := Function.update (Function.update policy.metadata object {metadata with valid := false}) policy.objects
      {metadata with valid := true}
    objects := policy.objects+1}

section Reload
variable {object : Nat} {metadata : ValuedMetadata ν} {keysInCache : List (SegmentKeyPtr κ)}

theorem reload_metadata {other : Nat} (less : other < policy.objects) (differ : other ≠ object) :
    (policy.reload key object metadata keysInCache).metadata other = policy.metadata other := by
  dsimp only [reload]
  rw [Function.update_of_ne (Nat.ne_of_lt less),Function.update_of_ne differ]

theorem reload_stale (less : object < policy.objects) :
    ((policy.reload key object metadata keysInCache).metadata object).valid = false := by
  dsimp only [reload]
  rw [Function.update_of_ne (Nat.ne_of_lt less),Function.update_self]

theorem reload_new : (policy.reload key object metadata keysInCache).metadata policy.objects =
    {metadata with valid := true} :=
  Function.update_self ..

theorem reload_validKeys (kept : policy.Kept) (cached : policy.keySetInCache key = some object)
    (heap : keysInCache.Perm (policy.keysInCache ++ [⟨policy.objects,key⟩])) :
    (policy.reload key object metadata keysInCache).validKeys.Perm (⟨policy.objects,
      key⟩::policy.validKeys.erase ⟨object,key⟩) := by
  have known := kept.known key object cached
  have less := (kept.real key object known).1
  have order : (policy.reload key object metadata keysInCache).validKeys.Perm
      ((policy.keysInCache ++ [(⟨policy.objects,key⟩ : SegmentKeyPtr κ)]).filter fun key' =>
        decide ((policy.reload key object metadata keysInCache).Valid key')) :=
    heap.filter _
  have new : (policy.reload key object metadata keysInCache).Valid ⟨policy.objects,key⟩ := by
    change ((policy.reload key object metadata keysInCache).metadata policy.objects).valid = true
    rw [reload_new]
  have others : (policy.keysInCache.filter fun key' => decide
      ((policy.reload key object metadata keysInCache).Valid key')) =
      policy.validKeys.erase ⟨object,key⟩ := by
    rw [kept.once.erase_eq_filter,validKeys,List.filter_filter]
    apply List.filter_congr
    intro found inside
    rw [Bool.eq_iff_iff,Bool.and_eq_true,decide_eq_true_eq,decide_eq_true_eq,bne_iff_ne]
    by_cases same : found.object = object
    · have stale : ¬ (policy.reload key object metadata keysInCache).Valid found := by
        change ¬ ((policy.reload key object metadata keysInCache).metadata found.object).valid = true
        rw [same,reload_stale less]
        exact Bool.false_ne_true
      refine iff_of_false stale ?_
      rintro ⟨differ,valid⟩
      have own := kept.key_eq (mem_validKeys.mpr ⟨inside,valid⟩) (same ▸ known)
      apply differ
      obtain ⟨object',name⟩ := found
      obtain rfl : object' = object := same
      obtain rfl : name = key := own
      rfl
    · have unchanged : (policy.reload key object metadata keysInCache).Valid found ↔ policy.Valid found := by
        change ((policy.reload key object metadata keysInCache).metadata found.object).valid = true ↔ _
        rw [reload_metadata (kept.fresh found inside) same]
        rfl
      rw [unchanged]
      exact ⟨fun valid => ⟨fun here => same (congrArg SegmentKeyPtr.object here),valid⟩,And.right⟩
  rw [List.filter_append,others,List.filter_singleton,decide_eq_true new] at order
  exact order.trans (List.perm_append_singleton _ _)

theorem mem_erase_validKeys (kept : policy.Kept) (cached : policy.keySetInCache key = some object)
    {found : SegmentKeyPtr κ} :
    found ∈ policy.validKeys.erase ⟨object,key⟩ ↔ found ∈ policy.validKeys ∧ found.key ≠ key := by
  rw [kept.once.mem_erase_iff,and_comm]
  refine and_congr_right fun inside => not_congr (Iff.intro (fun same => congrArg SegmentKeyPtr.key same) ?_)
  intro same
  have here := (kept.set found).mpr inside
  rw [same,cached] at here
  obtain ⟨object',name⟩ := found
  obtain rfl : name = key := same
  obtain rfl : object = object' := Option.some.inj here
  rfl

theorem Holds.reload (holds : policy.Holds maxSize) (cached : policy.keySetInCache key = some object)
    (size : metadata.size = (policy.metadata object).size)
    (heap : keysInCache.Perm (policy.keysInCache ++ [⟨policy.objects,key⟩])) :
    Holds (policy.reload key object metadata keysInCache) maxSize ∧
      (policy.reload key object metadata keysInCache).entries.Perm policy.entries := by
  have kept := holds.kept
  have known := kept.known key object cached
  have inside := (kept.set ⟨object,key⟩).mp cached
  have order := @reload_validKeys κ ν policy key _ object metadata keysInCache kept cached heap
  have others : ∀ found ∈ policy.validKeys.erase ⟨object,key⟩,
      (policy.reload key object metadata keysInCache).metadata found.object = policy.metadata found.object := by
    intro found member
    obtain ⟨valid,differ⟩ := (mem_erase_validKeys kept cached).mp member
    apply reload_metadata (kept.fresh found (mem_validKeys.mp valid).1)
    rintro same
    exact differ (kept.key_eq valid (same ▸ known))
  have whole : (policy.reload key object metadata keysInCache).entries.Perm policy.entries := by
    refine (order.map _).trans (List.Perm.trans (List.Perm.of_eq ?_) ((List.perm_cons_erase inside).map _).symm)
    rw [List.map_cons,List.map_cons,reload_new,← size]
    congr 1
    apply List.map_congr_left
    intro found member
    rw [others found member]
  have unused : ∀ other, policy.keySet other ≠ some policy.objects :=
    fun other there => Nat.lt_irrefl _ (kept.real other _ there).1
  refine ⟨⟨holds.maxSize_eq,⟨?_,?_,?_,?_,?_,?_⟩,holds.balanced.perm whole⟩,whole⟩
  · intro found
    rw [order.mem_iff,List.mem_cons,mem_erase_validKeys kept cached]
    dsimp only [HeapCachingPolicy.reload]
    by_cases same : found.key = key
    · rw [same,Function.update_self]
      obtain ⟨object',name⟩ := found
      obtain rfl : name = key := same
      simp [eq_comm]
    · rw [Function.update_of_ne same,kept.set]
      constructor
      · exact fun valid => .inr ⟨valid,same⟩
      · rintro (rfl | ⟨valid,_⟩)
        · exact absurd rfl same
        · exact valid
  · refine order.nodup_iff.mpr (List.nodup_cons.mpr ⟨?_,kept.once.erase _⟩)
    intro member
    exact ((mem_erase_validKeys kept cached).mp member).2 rfl
  · intro other number there
    dsimp only [HeapCachingPolicy.reload] at there ⊢
    by_cases same : other = key
    · rw [same,Function.update_self] at there ⊢
      exact there
    · rw [Function.update_of_ne same] at there ⊢
      exact kept.known other number there
  · intro other number there
    dsimp only [HeapCachingPolicy.reload] at there
    by_cases same : other = key
    · rw [same,Function.update_self] at there
      rw [← Option.some.inj there,reload_new]
      exact ⟨Nat.lt_succ_self _,rfl⟩
    · rw [Function.update_of_ne same] at there
      obtain ⟨less,valid⟩ := kept.real other number there
      rw [reload_metadata less]
      · exact ⟨Nat.lt_succ_of_lt less,valid⟩
      · rintro rfl
        exact same (kept.own other key number there known)
  · intro first second number there there'
    dsimp only [HeapCachingPolicy.reload] at there there'
    by_cases here : first = key
    · by_cases here' : second = key
      · rw [here,here']
      · rw [here,Function.update_self] at there
        rw [Function.update_of_ne here',← there] at there'
        exact absurd there' (unused second)
    · rw [Function.update_of_ne here] at there
      by_cases here' : second = key
      · rw [here',Function.update_self] at there'
        rw [← there'] at there
        exact absurd there (unused first)
      · rw [Function.update_of_ne here'] at there'
        exact kept.own first second number there there'
  · intro found member
    rcases List.mem_append.mp (heap.mem_iff.mp member) with old | last
    · exact Nat.lt_succ_of_lt (kept.fresh found old)
    · rw [List.mem_singleton.mp last]
      exact Nat.lt_succ_self _

end Reload
section Call
variable [ToString κ] [NatCast ν] [Div ν] [LT ν] [DecidableLT ν]

omit [DecidableEq κ] [ToString κ] [LT ν] [DecidableLT ν] in
theorem incHitNum_ok {metadata after : ValuedMetadata ν} {size : Nat} (ok : metadata.incHitNum size = .ok after) :
    after.size = metadata.size ∧ after.valid = metadata.valid := by
  rw [ValuedMetadata.incHitNum] at ok
  split at ok
  · rw [← Except.ok.inj ok]
    exact ⟨rfl,rfl⟩
  · cases ok

theorem onLoad_holds (holds : policy.Holds maxSize) {size : Nat} (loaded : policy.onLoad value key size = .ok next) :
    next.Holds maxSize ∧ next.entries.Perm policy.entries := by
  rw [onLoad] at loaded
  cases known : policy.keySet key with
  | none =>
    rw [known] at loaded
    obtain ⟨remembered,whole⟩ := @Holds.remember κ ν maxSize policy key _ holds known (ValuedMetadata.make size) rfl
    rw [← Except.ok.inj loaded]
    exact ⟨remembered,List.Perm.of_eq whole⟩
  | some realKey =>
    rw [known] at loaded
    obtain ⟨segmentSize,_,loaded⟩ := Library.Fallible.bind_eq_ok.mp loaded
    obtain ⟨metadata,counted,loaded⟩ := Library.Fallible.bind_eq_ok.mp loaded
    obtain ⟨size,valid⟩ := incHitNum_ok counted
    split at loaded
    · rename_i cached
      obtain ⟨object,there⟩ := Option.isSome_iff_exists.mp cached
      obtain rfl : realKey = object := Option.some.inj (known.symm.trans (holds.kept.known key object there))
      rw [← Except.ok.inj loaded]
      exact holds.reload there size (pushHeap_perm _)
    · obtain ⟨same,whole⟩ := holds.update valid fun _ _ _ => size
      rw [← Except.ok.inj loaded]
      exact ⟨same,List.Perm.of_eq whole⟩

end Call

section Store
variable {realKey : SegmentKeyPtr κ} {gone stale kept stays : List (SegmentKeyPtr κ)}

omit [DecidableEq κ] in
theorem total_entries (policy : HeapCachingPolicy κ ν) : total policy.entries = policy.size policy.validKeys := by
  rw [total,entries,List.map_map,size]
  rfl

omit [DecidableEq κ] in
theorem validKeys_parts (parts : policy.keysInCache.Perm (kept ++ (stale ++ gone)))
    (invalid : ∀ key ∈ stale, ¬ policy.Valid key) (valid : ∀ key ∈ gone, policy.Valid key) :
    policy.validKeys.Perm ((kept.filter fun key => decide (policy.Valid key)) ++ gone) := by
  have order := parts.filter fun key => decide (policy.Valid key)
  have nothing : stale.filter (fun key => decide (policy.Valid key)) = [] :=
    List.filter_eq_nil_iff.mpr fun key inside valid => invalid key inside (of_decide_eq_true valid)
  have all : gone.filter (fun key => decide (policy.Valid key)) = gone :=
    List.filter_eq_self.mpr fun key inside => decide_eq_true (valid key inside)
  rw [List.filter_append,List.filter_append,nothing,List.nil_append,all] at order
  exact order

omit [DecidableEq κ] in
theorem Kept.gone_nodup (kept : policy.Kept) (order : policy.validKeys.Perm (stays ++ gone)) :
    (gone.map SegmentKeyPtr.key).Nodup ∧ ∀ key ∈ stays, key.key ∉ gone.map SegmentKeyPtr.key := by
  have once := kept.keys_nodup
  rw [keys_entries,(order.map SegmentKeyPtr.key).nodup_iff,List.map_append] at once
  obtain ⟨_,unique,apart⟩ := List.nodup_append.mp once
  exact ⟨unique,fun key inside there => apart _ (List.mem_map_of_mem inside) _ there rfl⟩

omit [DecidableEq κ] in
theorem Holds.reorder (holds : policy.Holds maxSize) {keysInCache : List (SegmentKeyPtr κ)}
    (heap : (keysInCache ++ stale).Perm policy.keysInCache) (invalid : ∀ key ∈ stale, ¬ policy.Valid key) :
    Holds {policy with keysInCache} maxSize ∧ (entries {policy with keysInCache}).Perm policy.entries := by
  have order : (validKeys {policy with keysInCache}).Perm policy.validKeys :=
    @validKeys_perm κ ν policy {policy with keysInCache} stale heap invalid fun _ _ => Iff.rfl
  have whole := @entries_perm κ ν policy {policy with keysInCache} order fun _ _ => rfl
  refine ⟨⟨holds.maxSize_eq,⟨?_,order.nodup_iff.mpr holds.kept.once,holds.kept.known,holds.kept.real,holds.kept.own,?_⟩,?_⟩,whole⟩
  · intro key
    rw [order.mem_iff]
    exact holds.kept.set key
  · intro key inside
    exact holds.kept.fresh key (heap.mem_iff.mp (List.mem_append_left _ inside))
  · exact holds.balanced.perm whole

/-- A known key in the place of some of the cached ones. -/
def exchange (policy : HeapCachingPolicy κ ν) (gone : List (SegmentKeyPtr κ)) (realKey : SegmentKeyPtr κ)
    (keysInCache : List (SegmentKeyPtr κ)) : HeapCachingPolicy κ ν :=
  {policy with
    freeSize := policy.freeSize+policy.size gone-(policy.metadata realKey.object).size
    keysInCache
    keySetInCache := Function.update (without gone policy.keySetInCache) realKey.key (some realKey.object)}

section Exchange
variable {keysInCache : List (SegmentKeyPtr κ)}

theorem exchange_validKeys (gone : List (SegmentKeyPtr κ)) (valid : policy.Valid realKey)
    (heap : keysInCache.Perm (kept ++ [realKey])) :
    (policy.exchange gone realKey keysInCache).validKeys.Perm (realKey::kept.filter fun key => decide (policy.Valid key)) := by
  have filtered : (policy.exchange gone realKey keysInCache).validKeys.Perm
      ((kept ++ [realKey]).filter fun key => decide (policy.Valid key)) := heap.filter _
  rw [List.filter_append,List.filter_singleton,decide_eq_true valid] at filtered
  exact filtered.trans (List.perm_append_singleton _ _)

theorem exchange_set (holds : policy.Kept) (order : policy.validKeys.Perm (stays ++ gone))
    (vacant : policy.keySetInCache realKey.key = none) (key : SegmentKeyPtr κ) :
    (policy.exchange gone realKey keysInCache).keySetInCache key.key = some key.object ↔ key ∈ realKey::stays := by
  dsimp only [exchange]
  rw [List.mem_cons]
  by_cases same : key.key = realKey.key
  · rw [same,Function.update_self]
    constructor
    · intro here
      obtain ⟨object,name⟩ := key
      obtain rfl : name = realKey.key := same
      obtain rfl : realKey.object = object := Option.some.inj here
      exact .inl rfl
    · rintro (rfl | inside)
      · rfl
      · have there := (holds.set key).mpr (order.mem_iff.mpr (List.mem_append_left _ inside))
        rw [same,vacant] at there
        cases there
  · rw [Function.update_of_ne same,without]
    have differ : key ≠ realKey := fun here => same (congrArg SegmentKeyPtr.key here)
    by_cases leaves : key.key ∈ gone.map SegmentKeyPtr.key
    · rw [if_pos leaves]
      refine ⟨nofun,fun either => ?_⟩
      exact absurd leaves ((holds.gone_nodup order).2 key (either.resolve_left differ))
    · rw [if_neg leaves,holds.set,order.mem_iff,List.mem_append]
      constructor
      · exact fun either => .inr (either.resolve_right fun inside => leaves (List.mem_map_of_mem inside))
      · exact fun either => .inl (either.resolve_left differ)

theorem Kept.exchange (holds : policy.Kept) (parts : policy.keysInCache.Perm (kept ++ (stale ++ gone)))
    (invalid : ∀ key ∈ stale, ¬ policy.Valid key) (others : ∀ key ∈ gone, policy.Valid key)
    (known : policy.keySet realKey.key = some realKey.object) (vacant : policy.keySetInCache realKey.key = none)
    (heap : keysInCache.Perm (kept ++ [realKey])) : Kept (policy.exchange gone realKey keysInCache) := by
  have order := validKeys_parts parts invalid others
  obtain ⟨less,valid⟩ := holds.real realKey.key realKey.object known
  have filled := exchange_validKeys gone valid heap
  refine ⟨?_,?_,?_,holds.real,holds.own,?_⟩
  · intro key
    rw [filled.mem_iff]
    exact exchange_set holds order vacant key
  · refine filled.nodup_iff.mpr (List.nodup_cons.mpr ⟨fun inside => ?_,
      (List.nodup_append.mp (order.nodup_iff.mp holds.once)).1⟩)
    have there := (holds.set realKey).mpr (order.mem_iff.mpr (List.mem_append_left _ inside))
    rw [vacant] at there
    cases there
  · intro key object cached
    dsimp only [HeapCachingPolicy.exchange] at cached ⊢
    by_cases same : key = realKey.key
    · rw [same,Function.update_self] at cached
      rw [same,known]
      exact cached
    · rw [Function.update_of_ne same,without] at cached
      split at cached
      · cases cached
      · exact holds.known key object cached
  · intro key inside
    rcases List.mem_append.mp (heap.mem_iff.mp inside) with old | last
    · exact holds.fresh key (parts.mem_iff.mpr (List.mem_append_left _ old))
    · rw [List.mem_singleton.mp last]
      exact less

theorem Holds.exchange (holds : policy.Holds maxSize) (parts : policy.keysInCache.Perm (kept ++ (stale ++ gone)))
    (invalid : ∀ key ∈ stale, ¬ policy.Valid key) (others : ∀ key ∈ gone, policy.Valid key)
    (known : policy.keySet realKey.key = some realKey.object) (vacant : policy.keySetInCache realKey.key = none)
    (heap : keysInCache.Perm (kept ++ [realKey]))
    (enough : (policy.metadata realKey.object).size ≤ policy.freeSize+policy.size gone) :
    Holds (policy.exchange gone realKey keysInCache) maxSize ∧
    Admits policy.entries (gone.map SegmentKeyPtr.key) realKey.key
      (policy.metadata realKey.object).size (policy.exchange gone realKey keysInCache).entries := by
  have order := validKeys_parts parts invalid others
  have filled := exchange_validKeys gone (holds.kept.real realKey.key realKey.object known).2 heap
  let entry := fun key : SegmentKeyPtr κ => (key.key,(policy.metadata key.object).size)
  have before : policy.entries.Perm (gone.map entry ++
      (kept.filter fun key => decide (policy.Valid key)).map entry) := by
    refine (order.map entry).trans ?_
    rw [List.map_append]
    exact List.perm_append_comm
  have after : (policy.exchange gone realKey keysInCache).entries.Perm
      ((realKey.key,(policy.metadata realKey.object).size)::(kept.filter fun key => decide (policy.Valid key)).map entry) :=
    filled.map entry
  have names : gone.map SegmentKeyPtr.key = keys (gone.map entry) := by
    rw [keys,List.map_map]
    rfl
  have sizes : policy.size gone = total (gone.map entry) := by
    rw [total,List.map_map,size]
    rfl
  have absent : realKey.key ∉ keys policy.entries := by
    rw [holds.kept.mem_keys,vacant]
    exact Bool.false_ne_true
  refine ⟨⟨holds.maxSize_eq,holds.kept.exchange parts invalid others known vacant heap,?_⟩,⟨_,_,before,?_,after⟩⟩
  · refine (holds.balanced.exchange before absent ?_).perm after
    rw [← sizes]
    exact Nat.sub_add_cancel enough
  · intro other
    rw [names]

end Exchange

variable [LT ν] [DecidableLT ν] {removableKeys : List (SegmentKeyPtr κ)} {segmentSize : Nat}

/-- What a decision comes to where the keys hold together. -/
inductive Decided (policy : HeapCachingPolicy κ ν) (maxSize : Nat) (key : κ) (size : Nat) :
    Except Failure (Option (List (SegmentKeyPtr κ)) × HeapCachingPolicy κ ν) → Prop
  | refused {next : HeapCachingPolicy κ ν} (holds : next.Holds maxSize) (same : next.entries.Perm policy.entries) :
      Decided policy maxSize key size (.ok (none,next))
  | stored {next : HeapCachingPolicy κ ν} {removableKeys : List (SegmentKeyPtr κ)} (holds : next.Holds maxSize)
      (admits : Admits policy.entries (removableKeys.map SegmentKeyPtr.key) key size next.entries) :
      Decided policy maxSize key size (.ok (some removableKeys,next))

omit [LT ν] [DecidableLT ν] [DecidableEq κ] in
theorem Decided.before {before : HeapCachingPolicy κ ν} (same : policy.entries = before.entries) {size : Nat}
    {result : Except Failure (Option (List (SegmentKeyPtr κ)) × HeapCachingPolicy κ ν)}
    (decided : Decided policy maxSize key size result) :
    Decided before maxSize key size result := by
  cases decided with
  | refused holds order => exact .refused holds (same ▸ order)
  | stored holds admits => exact .stored holds (same ▸ admits)

theorem decideStore_decided (holds : policy.Holds maxSize) (known : policy.keySet realKey.key = some realKey.object)
    (vacant : policy.keySetInCache realKey.key = none) :
    Decided policy maxSize realKey.key (policy.metadata realKey.object).size (policy.decideStore value realKey) := by
  rw [decideStore]
  by_cases large : policy.maxSize < (policy.metadata realKey.object).size
  · rw [if_pos large]
    exact .refused holds (List.Perm.refl _)
  · rw [if_neg large]
    have whole := holds.balanced.whole
    rw [total_entries,← holds.maxSize_eq] at whole
    have enough : (policy.metadata realKey.object).size ≤ policy.freeSize+policy.size policy.validKeys :=
      (Nat.le_of_not_lt large).trans (Nat.le_of_eq whole.symm)
    obtain ⟨searched,found⟩ := Option.ne_none_iff_exists'.mp
      (@search_defined κ ν _ _ _ policy value realKey _ _ policy.keysInCache rfl policy.keySetInCache policy.freeSize [] enough)
    have takes := search_takes rfl found
    rw [found]
    cases takes with
    | @room gone stale kept parts invalid others enough =>
      have emplaced : emplace (without gone policy.keySetInCache) realKey =
          Function.update (without gone policy.keySetInCache) realKey.key (some realKey.object) := by
        rw [emplace,without,vacant,ite_self]
        rfl
      obtain ⟨after,admits⟩ := holds.exchange parts invalid others known vacant (pushHeap_perm _) enough
      rw [List.nil_append]
      dsimp only
      rw [emplaced]
      exact .stored after admits
    | @refused gone stale kept parts invalid others =>
      obtain ⟨once,_⟩ := holds.kept.gone_nodup (validKeys_parts parts invalid others)
      have held : ∀ key ∈ gone, policy.keySetInCache key.key = some key.object := fun key inside =>
        (holds.kept.set key).mpr (mem_validKeys.mpr
          ⟨parts.mem_iff.mpr (List.mem_append_right _ (List.mem_append_right _ inside)),others key inside⟩)
      have back : (policy.restore value gone kept (without gone policy.keySetInCache)).keysInCache.Perm
          (kept ++ gone) :=
        restore_perm gone kept _
      have set : (policy.restore value gone kept (without gone policy.keySetInCache)).keySetInCache =
          policy.keySetInCache :=
        restored once held
      have heap : ((policy.restore value gone kept (without gone policy.keySetInCache)).keysInCache ++
          stale).Perm policy.keysInCache := by
        refine (back.append_right stale).trans (List.Perm.trans ?_ parts.symm)
        rw [List.append_assoc]
        exact List.perm_append_comm.append_left kept
      obtain ⟨after,same⟩ := holds.reorder heap invalid
      have none : (policy.restore value gone kept (without gone policy.keySetInCache)).room = none := rfl
      rw [List.nil_append]
      generalize policy.restore value gone kept (without gone policy.keySetInCache) = searched at set after same none ⊢
      obtain ⟨keysInCache,keySetInCache,room⟩ := searched
      obtain rfl : keySetInCache = policy.keySetInCache := set
      obtain rfl : room = _ := none
      exact .refused after same

def storedSize (policy : HeapCachingPolicy κ ν) (object segmentSize : Nat) : Nat :=
  if (policy.metadata object).size = 0 then segmentSize else (policy.metadata object).size

theorem onStore_decided (holds : policy.Holds maxSize) {object : Nat} (known : policy.keySet key = some object)
    (vacant : policy.keySetInCache key = none) :
    Decided policy maxSize key (policy.storedSize object segmentSize) (policy.onStore value key segmentSize) := by
  let metadata := if (policy.metadata object).size = 0 then {policy.metadata object with size := segmentSize} else policy.metadata object
  have valid : metadata.valid = (policy.metadata object).valid := by
    dsimp only [metadata]
    split <;> rfl
  have stored : metadata.size = policy.storedSize object segmentSize := by
    dsimp only [metadata]
    rw [storedSize]
    split <;> rfl
  have other : ∀ found ∈ policy.validKeys, found.object = object → metadata.size = (policy.metadata object).size := by
    rintro found inside rfl
    have cached := (holds.kept.set found).mpr inside
    rw [holds.kept.key_eq inside known,vacant] at cached
    cases cached
  obtain ⟨after,whole⟩ := holds.update valid other
  have decided := @decideStore_decided κ ν maxSize _ value _ ⟨object,key⟩ _ _ after known vacant
  dsimp only at decided
  rw [Function.update_self,stored] at decided
  rw [onStore,HeapCachingPolicy.realKey,known]
  dsimp only [Option.map_some]
  exact decided.before whole

end Store
end Load

section Weight
variable [DecidableEq κ] [Add ν] {maxSize : Nat} {policy : HeapCachingPolicy κ ν}

theorem onWeight_holds (holds : policy.Holds maxSize) (weightMap : List (κ × ν)) :
    (WLFUCachingPolicy.onWeight policy weightMap).1.Holds maxSize ∧
      (WLFUCachingPolicy.onWeight policy weightMap).1.entries = policy.entries := by
  induction weightMap generalizing policy with
  | nil => exact ⟨holds,rfl⟩
  | cons entry weightMap ih =>
    obtain ⟨key,weight⟩ := entry
    rw [WLFUCachingPolicy.onWeight]
    split
    · exact ih holds
    · split
      · exact ⟨holds,rfl⟩
      · rename_i realKey _
        obtain ⟨after,whole⟩ := @Holds.update κ ν maxSize policy holds realKey {policy.metadata realKey with
          value := (policy.metadata realKey).value+weight} rfl fun _ _ _ => rfl
        have noted : Holds {policy with
            metadata := Function.update policy.metadata realKey {policy.metadata realKey with value := (policy.metadata realKey).value+weight}
            weightUpdatedKeys := key::policy.weightUpdatedKeys} maxSize :=
          ⟨after.maxSize_eq,⟨after.kept.set,after.kept.once,after.kept.known,after.kept.real,after.kept.own,
            after.kept.fresh⟩,after.balanced⟩
        obtain ⟨last,later⟩ := ih noted
        exact ⟨last,later.trans whole⟩

omit [DecidableEq κ] [Add ν] in
theorem onNewQuery_holds (holds : policy.Holds maxSize) : (WLFUCachingPolicy.onNewQuery policy).Holds maxSize :=
  ⟨holds.maxSize_eq,⟨holds.kept.set,holds.kept.once,holds.kept.known,holds.kept.real,holds.kept.own,holds.kept.fresh⟩,
    holds.balanced⟩

omit [DecidableEq κ] [Add ν] in
theorem holds_make [NatCast ν] (maxSize : Nat) (segmentSizeMap : κ → Option Nat) :
    (make maxSize segmentSizeMap : HeapCachingPolicy κ ν).Holds maxSize := by
  refine ⟨rfl,⟨?_,List.nodup_nil,nofun,nofun,nofun,nofun⟩,List.nodup_nil,rfl⟩
  exact fun _ => ⟨nofun,fun inside => absurd inside List.not_mem_nil⟩

end Weight
end HeapCachingPolicy
end Hermes.Cache
