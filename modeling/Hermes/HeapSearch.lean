import Hermes.HeapCachingPolicy
import Mathlib.Data.List.Sort
import Mathlib.Data.List.TakeWhile

/-! What the search of the heap policies comes to, told by the keys that come out of the heap first. -/
namespace Hermes.Cache
open Library.BinaryHeap
variable {κ ν : Type} [LT ν] [DecidableLT ν]

namespace HeapCachingPolicy

section Order
variable (policy : HeapCachingPolicy κ ν) (value : ValuedMetadata ν → ν)

def Valid (key : SegmentKeyPtr κ) : Prop := (policy.metadata key.object).valid = true

instance : DecidablePred policy.Valid :=
    fun key => inferInstanceAs (Decidable ((policy.metadata key.object).valid = true))

def size (keys : List (SegmentKeyPtr κ)) : Nat := (keys.map fun key => (policy.metadata key.object).size).sum

def drained : Nat → List (SegmentKeyPtr κ) → List (SegmentKeyPtr κ)
  | numKeys+1,key::keysInCache => key::drained numKeys (policy.pop value (key::keysInCache))
  | _,_ => []

/-- The values of the valid keys in the order in which the keys come out. -/
def order (keys : List (SegmentKeyPtr κ)) : List ν :=
  ((policy.drained value keys.length keys).filter fun key => decide (policy.Valid key)).map fun key => value
    (policy.metadata key.object)

def ahead (realKey : SegmentKeyPtr κ) (keys : List (SegmentKeyPtr κ)) : List (SegmentKeyPtr κ) :=
  (keys.takeWhile fun key => decide (policy.Valid key →
    policy.lessValue value key realKey = true)).filter fun key => decide (policy.Valid key)

variable {policy value} {realKey key : SegmentKeyPtr κ} {keys : List (SegmentKeyPtr κ)}

theorem pop_perm (key : SegmentKeyPtr κ) (keysInCache : List (SegmentKeyPtr κ)) :
    (policy.pop value (key::keysInCache)).Perm keysInCache := by
  obtain ⟨kept,popped,same⟩ := @popHeap_cons _ (policy.comp value) key keysInCache
  rw [pop,popped,List.dropLast_concat]
  exact same

theorem order_stale (stale : ¬ policy.Valid key) :
    policy.order value (key::keys) = policy.order value (policy.pop value (key::keys)) := by
  rw [order,List.length_cons,drained,List.filter_cons,if_neg (mt of_decide_eq_true stale),order,
    (pop_perm key keys).length_eq]

theorem drained_perm {numKeys : Nat} (count : keys.length = numKeys) :
    (policy.drained value numKeys keys).Perm keys := by
  induction numKeys generalizing keys with
  | zero =>
    obtain rfl := List.length_eq_zero_iff.mp count
    exact List.Perm.refl []
  | succ numKeys ih =>
    obtain ⟨key,rest,rfl⟩ := List.exists_cons_of_length_eq_add_one count
    have same := @pop_perm _ _ _ _ policy value key rest
    exact ((ih (same.length_eq.trans (Nat.succ.inj count))).trans same).cons key

theorem drained_congr {next : HeapCachingPolicy κ ν} (same : next.comp value = policy.comp value) (numKeys : Nat)
    (keys : List (SegmentKeyPtr κ)) :
    next.drained value numKeys keys = policy.drained value numKeys keys := by
  induction numKeys generalizing keys with
  | zero => rfl
  | succ numKeys ih =>
    cases keys with
    | nil => rfl
    | cons key keys =>
      have popped : next.pop value (key::keys) = policy.pop value (key::keys) := by rw [pop,pop,same]
      rw [drained,drained,ih,popped]

theorem order_congr {next : HeapCachingPolicy κ ν}
    (same : ∀ object, value (next.metadata object) = value (policy.metadata object) ∧
      (next.metadata object).valid = (policy.metadata object).valid)
    (keys : List (SegmentKeyPtr κ)) : next.order value keys = policy.order value keys := by
  have values (object : Nat) := (same object).1
  have compared : next.comp value = policy.comp value := by
    funext key1 key2
    rw [comp,comp,values,values]
  have valid : (fun key => decide (next.Valid key)) = fun key => decide (policy.Valid key) := by
    funext key
    exact decide_eq_decide.mpr (iff_of_eq (congrArg (· = true) (same key.object).2))
  rw [order,order,drained_congr compared,valid]
  exact List.map_congr_left fun key _ => values key.object

theorem ahead_stale (stale : ¬ policy.Valid key) :
    policy.ahead value realKey (key::keys) = policy.ahead value realKey keys := by
  rw [ahead,List.takeWhile_cons,if_pos (decide_eq_true fun valid => absurd valid stale),List.filter_cons,
    if_neg (mt of_decide_eq_true stale),ahead]

theorem ahead_less (valid : policy.Valid key) (less : policy.lessValue value key realKey = true) :
    policy.ahead value realKey (key::keys) = key::policy.ahead value realKey keys := by
  rw [ahead,List.takeWhile_cons,if_pos (decide_eq_true fun _ => less),List.filter_cons,
    if_pos (decide_eq_true valid),ahead]

theorem ahead_stop (valid : policy.Valid key) (large : ¬ policy.lessValue value key realKey = true) :
    policy.ahead value realKey (key::keys) = [] := by
  have stops : ¬ (policy.Valid key → policy.lessValue value key realKey = true) := fun less => large (less valid)
  rw [ahead,List.takeWhile_cons,if_neg (mt of_decide_eq_true stops),List.filter_nil]

end Order

section Sorted
variable {ν : Type} [LinearOrder ν] {policy : HeapCachingPolicy κ ν} {value : ValuedMetadata ν → ν}
    {keys : List (SegmentKeyPtr κ)}

theorem comp_eq_false {key1 key2 : SegmentKeyPtr κ} :
    policy.comp value key1 key2 = false ↔ value (policy.metadata key1.object) ≤ value (policy.metadata key2.object) :=
  decide_eq_false_iff_not.trans not_lt

theorem strictWeak_comp : StrictWeak (policy.comp value) where
  asymm less := comp_eq_false.mpr (of_decide_eq_true less).le
  trans first second := comp_eq_false.mpr ((comp_eq_false.mp first).trans (comp_eq_false.mp second))

theorem drained_sorted {numKeys : Nat} (count : keys.length = numKeys) (heaped : IsHeap (policy.comp value) keys) :
    (policy.drained value numKeys keys).Pairwise fun key1 key2 => policy.comp value key1 key2 = false := by
  induction numKeys generalizing keys with
  | zero =>
    rw [drained]
    · exact List.Pairwise.nil
    · exact nofun
  | succ numKeys ih =>
    obtain ⟨key,rest,rfl⟩ := List.exists_cons_of_length_eq_add_one count
    have same := @pop_perm _ _ _ _ policy value key rest
    have fewer := same.length_eq.trans (Nat.succ.inj count)
    rw [drained]
    refine List.Pairwise.cons (fun other inside => ?_) (ih fewer (popHeap_isHeap strictWeak_comp heaped))
    exact heaped.first strictWeak_comp (same.mem_iff.mp ((drained_perm fewer).mem_iff.mp inside))

/-- A heap in order gives its valid keys by their values. -/
theorem order_sorted (heaped : IsHeap (policy.comp value) keys) : (policy.order value keys).Pairwise (· ≤ ·) :=
  List.pairwise_map.mpr (((drained_sorted rfl heaped).imp comp_eq_false.mp).filter _)

/-- Two heaps in order with the same valid keys give them in the same order. -/
theorem order_eq {other stale : List (SegmentKeyPtr κ)} (heaped : IsHeap (policy.comp value) keys)
    (heaped' : IsHeap (policy.comp value) other)
    (invalid : ∀ key ∈ stale, ¬ policy.Valid key) (same : (other ++ stale).Perm keys) :
    policy.order value other = policy.order value keys := by
  refine List.Perm.eq_of_pairwise' (order_sorted heaped') (order_sorted heaped) (List.Perm.map _ ?_)
  have none : (stale.filter fun key => decide (policy.Valid key)) = [] :=
    List.filter_eq_nil_iff.mpr fun key inside valid => invalid key inside (of_decide_eq_true valid)
  have kept := same.filter fun key => decide (policy.Valid key)
  rw [List.filter_append,none,List.append_nil] at kept
  exact ((drained_perm rfl).filter _).trans (kept.trans ((drained_perm rfl).filter _).symm)

end Sorted

section Search
variable {policy : HeapCachingPolicy κ ν} {value : ValuedMetadata ν → ν} {realKey : SegmentKeyPtr κ} {segmentSize : Nat}

variable (policy value realKey segmentSize) in
/-- How a search ends: with room for the segment, at a key that is not less, or with nothing left. -/
inductive Ends (keysInCache : List (SegmentKeyPtr κ)) (keySetInCache : κ → Option Nat) (tmpFreeSize : Nat)
    (removableKeys ahead : List (SegmentKeyPtr κ)) : Option (Searched κ) → Prop
  | room {searched : Searched κ} (admitted : searched.room.isSome = true)
    (enough : segmentSize ≤ tmpFreeSize+policy.size ahead) :
      Ends keysInCache keySetInCache tmpFreeSize removableKeys ahead (some searched)
  | refused {searched : Searched κ} (refused : searched.room = none)
    (short : tmpFreeSize+policy.size ahead < segmentSize)
      (large : ∃ key ∈ keysInCache, policy.Valid key ∧ ¬ policy.lessValue value key realKey = true)
      (heap : ∃ stale, (∀ key ∈ stale, ¬ policy.Valid key) ∧
        (searched.keysInCache ++ stale).Perm (keysInCache ++ removableKeys))
      (set : ∀ key, (searched.keySetInCache key).isSome = true ↔
        key ∈ (removableKeys ++ ahead).map SegmentKeyPtr.key ∨ (keySetInCache key).isSome = true)
      (ordered : StrictWeak (policy.comp value) → IsHeap (policy.comp value) keysInCache →
        IsHeap (policy.comp value) searched.keysInCache)
      (untouched : removableKeys = [] → ahead = [] →
        policy.order value searched.keysInCache = policy.order value keysInCache) :
      Ends keysInCache keySetInCache tmpFreeSize removableKeys ahead (some searched)
  | empty (short : tmpFreeSize+policy.size ahead < segmentSize)
      (less : ∀ key ∈ keysInCache, policy.Valid key → policy.lessValue value key realKey = true) :
      Ends keysInCache keySetInCache tmpFreeSize removableKeys ahead none

theorem Ends.stale {key : SegmentKeyPtr κ} {rest removableKeys ahead : List (SegmentKeyPtr κ)}
    {keySetInCache : κ → Option Nat} {tmpFreeSize : Nat} {result : Option (Searched κ)} (stale : ¬ policy.Valid key)
    (ends : Ends policy value realKey segmentSize (policy.pop value (key::rest)) keySetInCache tmpFreeSize removableKeys ahead result) :
    Ends policy value realKey segmentSize (key::rest) keySetInCache tmpFreeSize removableKeys ahead result := by
  have same := @pop_perm _ _ _ _ policy value key rest
  cases ends with
  | room admitted enough => exact .room admitted enough
  | refused none short large heap set ordered untouched =>
    obtain ⟨other,inside,found⟩ := large
    obtain ⟨gone,invalid,kept⟩ := heap
    refine .refused none short ⟨other,List.mem_cons_of_mem _ (same.mem_iff.mp inside),found⟩ ⟨key::gone,?_,?_⟩ set ?_ ?_
    · exact List.forall_mem_cons.mpr ⟨stale,invalid⟩
    · exact List.perm_middle.trans ((kept.trans (same.append_right removableKeys)).cons key)
    · exact fun order heaped => ordered order (popHeap_isHeap order heaped)
    · exact fun none nothing => (untouched none nothing).trans (order_stale stale).symm
  | empty short less =>
    refine .empty short (List.forall_mem_cons.mpr ⟨fun valid => absurd valid stale,?_⟩)
    exact fun other inside => less other (same.mem_iff.mpr inside)

variable [DecidableEq κ]

theorem emplace_isSome (keySet : κ → Option Nat) (key : SegmentKeyPtr κ) (other : κ) :
    (emplace keySet key other).isSome = true ↔ other = key.key ∨ (keySet other).isSome = true := by
  rw [emplace]
  by_cases same : other = key.key
  · subst same
    split
    · rename_i there
      simp [there]
    · simp
  · split
    · simp [same]
    · simp [same]

theorem restore_perm (removableKeys keysInCache : List (SegmentKeyPtr κ)) (keySetInCache : κ → Option Nat) :
    (policy.restore value removableKeys keysInCache keySetInCache).keysInCache.Perm (keysInCache ++ removableKeys) := by
  rw [restore]
  dsimp only
  induction removableKeys generalizing keysInCache with
  | nil => rw [List.append_nil,List.foldl_nil]
  | cons key removableKeys ih =>
    rw [List.foldl_cons]
    refine (ih _).trans (((pushHeap_perm _).append_right removableKeys).trans ?_)
    rw [List.append_assoc,List.singleton_append]

theorem restore_isHeap (order : StrictWeak (policy.comp value)) {keysInCache : List (SegmentKeyPtr κ)}
    (heaped : IsHeap (policy.comp value) keysInCache) (removableKeys : List (SegmentKeyPtr κ))
    (keySetInCache : κ → Option Nat) :
    IsHeap (policy.comp value) (policy.restore value removableKeys keysInCache keySetInCache).keysInCache :=
  List.foldlRecOn removableKeys _ heaped fun _ heaped key _ => pushHeap_isHeap order heaped key

theorem restore_set (removableKeys keysInCache : List (SegmentKeyPtr κ)) (keySetInCache : κ → Option Nat) (other : κ) :
    ((policy.restore value removableKeys keysInCache keySetInCache).keySetInCache other).isSome = true ↔
      other ∈ removableKeys.map SegmentKeyPtr.key ∨ (keySetInCache other).isSome = true := by
  rw [restore]
  dsimp only
  induction removableKeys generalizing keySetInCache with
  | nil => simp
  | cons key removableKeys ih =>
    rw [List.foldl_cons,ih,emplace_isSome,List.map_cons,List.mem_cons]
    tauto

theorem Ends.less {key : SegmentKeyPtr κ} {rest removableKeys ahead : List (SegmentKeyPtr κ)}
    {keySetInCache : κ → Option Nat}
    {tmpFreeSize : Nat} {result : Option (Searched κ)} (less : policy.lessValue value key realKey = true)
    (ends : Ends policy value realKey segmentSize (policy.pop value (key::rest)) (Function.update keySetInCache key.key none)
      (tmpFreeSize+(policy.metadata key.object).size) (removableKeys ++ [key]) ahead result) :
    Ends policy value realKey segmentSize (key::rest) keySetInCache tmpFreeSize removableKeys (key::ahead) result := by
  have sizes : tmpFreeSize+(policy.metadata key.object).size+policy.size ahead = tmpFreeSize+policy.size
      (key::ahead) := by
    rw [size,size,List.map_cons,List.sum_cons,Nat.add_assoc]
  have same := @pop_perm _ _ _ _ policy value key rest
  cases ends with
  | room admitted enough => exact .room admitted (sizes ▸ enough)
  | refused none short large heap set ordered =>
    obtain ⟨other,inside,found⟩ := large
    obtain ⟨gone,invalid,kept⟩ := heap
    refine .refused none (sizes ▸ short) ⟨other,List.mem_cons_of_mem _ (same.mem_iff.mp inside),
      found⟩ ⟨gone,invalid,?_⟩ ?_ ?_ nofun
    · refine kept.trans ((same.append_right _).trans ?_)
      rw [← List.append_assoc]
      exact List.perm_append_singleton key (rest ++ removableKeys)
    · intro other
      rw [set,← List.append_cons]
      by_cases here : other = key.key
      · simp [here]
      · rw [Function.update_of_ne here]
    · exact fun order heaped => ordered order (popHeap_isHeap order heaped)
  | empty short lesser =>
    refine .empty (sizes ▸ short) (List.forall_mem_cons.mpr ⟨fun _ => less,?_⟩)
    exact fun other inside => lesser other (same.mem_iff.mpr inside)

theorem search_nil {keySetInCache : κ → Option Nat} {tmpFreeSize : Nat} {removableKeys : List (SegmentKeyPtr κ)} :
    policy.search value realKey segmentSize 0 [] keySetInCache tmpFreeSize removableKeys =
      if tmpFreeSize < segmentSize then none else some ⟨[],keySetInCache,some (removableKeys,tmpFreeSize)⟩ := by
  rw [search]
  exact fun _ _ _ none => absurd none.symm (Nat.succ_ne_zero _)

theorem search_ends {numKeys : Nat} {keysInCache : List (SegmentKeyPtr κ)} (count : keysInCache.length = numKeys)
    (keySetInCache : κ → Option Nat) (tmpFreeSize : Nat) (removableKeys : List (SegmentKeyPtr κ)) :
    Ends policy value realKey segmentSize keysInCache keySetInCache tmpFreeSize removableKeys
      (policy.ahead value realKey (policy.drained value numKeys keysInCache))
      (policy.search value realKey segmentSize numKeys keysInCache keySetInCache tmpFreeSize removableKeys) := by
  induction numKeys generalizing keysInCache keySetInCache tmpFreeSize removableKeys with
  | zero =>
    obtain rfl := List.length_eq_zero_iff.mp count
    rw [search_nil]
    by_cases short : tmpFreeSize < segmentSize
    · rw [if_pos short]
      exact .empty short nofun
    · rw [if_neg short]
      exact .room rfl (Nat.le_of_not_lt short)
  | succ numKeys ih =>
    obtain ⟨key,rest,rfl⟩ := List.exists_cons_of_length_eq_add_one count
    have same := @pop_perm _ _ _ _ policy value key rest
    have fewer : (policy.pop value (key::rest)).length = numKeys := by
      rw [same.length_eq]
      exact Nat.succ.inj count
    rw [search,drained]
    split
    · rename_i short
      dsimp only
      by_cases valid : policy.Valid key
      · rw [if_neg (ne_false_of_eq_true valid)]
        by_cases less : policy.lessValue value key realKey = true
        · rw [if_pos less,ahead_less valid less]
          exact (ih fewer _ _ _).less less
        · rw [if_neg less,ahead_stop valid less]
          refine .refused rfl short ⟨key,List.mem_cons_self,valid,less⟩ ⟨[],nofun,?_⟩ ?_
            (fun order heaped => restore_isHeap order heaped _ _) ?_
          · rw [List.append_nil]
            exact restore_perm _ _ _
          · rw [List.append_nil]
            exact restore_set _ _ _
          · rintro rfl _
            rfl
      · rw [if_pos (Bool.eq_false_of_not_eq_true valid),ahead_stale valid]
        exact (ih fewer _ _ _).stale valid
    · rename_i enough
      exact .room rfl ((Nat.le_of_not_lt enough).trans (Nat.le_add_right _ _))

end Search

section Store
variable {ν : Type} [LT ν] [DecidableLT ν] {policy sized : HeapCachingPolicy κ ν} {value : ValuedMetadata ν → ν}
    {key : κ}
  {realKey : SegmentKeyPtr κ} {segmentSize : Nat}

/-- The heap is as before, except that stale keys may be gone, the keys compare as before, and those that are valid come out
in the same order. -/
structure SameOrder (value : ValuedMetadata ν → ν) (policy next : HeapCachingPolicy κ ν) : Prop where
  heap : ∃ stale, (∀ key ∈ stale, ¬ policy.Valid key) ∧ (next.keysInCache ++ stale).Perm policy.keysInCache
  compared : ∀ object, value (next.metadata object) = value (policy.metadata object) ∧
    (next.metadata object).valid = (policy.metadata object).valid
  order : next.order value next.keysInCache = policy.order value policy.keysInCache

/-- A refused store leaves set, free size and heap as they are. -/
structure Unchanged (value : ValuedMetadata ν → ν) (policy next : HeapCachingPolicy κ ν) : Prop where
  set : ∀ other, (next.keySetInCache other).isSome = true ↔ (policy.keySetInCache other).isSome = true
  freeSize : next.freeSize = policy.freeSize
  order : policy.SameOrder value next

theorem Unchanged.refl (policy : HeapCachingPolicy κ ν) : policy.Unchanged value policy :=
  ⟨fun _ => Iff.rfl,rfl,⟨[],nofun,by rw [List.append_nil]⟩,fun _ => ⟨rfl,rfl⟩,rfl⟩

theorem Unchanged.trans {first second third : HeapCachingPolicy κ ν} (here : first.Unchanged value second)
    (later : second.Unchanged value third) :
    first.Unchanged value third := by
  obtain ⟨stale,invalid,heap⟩ := here.order.heap
  obtain ⟨stale',invalid',heap'⟩ := later.order.heap
  refine ⟨fun other => (later.set other).trans (here.set other),later.freeSize.trans here.freeSize,
    ⟨stale' ++ stale,?_,?_⟩,?_,?_⟩
  · refine List.forall_mem_append.mpr ⟨fun key inside valid => invalid' key inside ?_,invalid⟩
    exact (here.order.compared key.object).2.trans valid
  · rw [← List.append_assoc]
    exact (heap'.append_right stale).trans heap
  · intro object
    obtain ⟨weight,valid⟩ := here.order.compared object
    obtain ⟨weight',valid'⟩ := later.order.compared object
    exact ⟨weight'.trans weight,valid'.trans valid⟩
  · exact later.order.order.trans here.order.order

/-- The size of a key is not among what it is compared by. -/
def Sizeless (value : ValuedMetadata ν → ν) : Prop :=
  ∀ (metadata : ValuedMetadata ν) (size : Nat), value {metadata with size := size} = value metadata

omit [LT ν] [DecidableLT ν] in
theorem realKey_compared (sizeless : Sizeless value) (known : policy.realKey key segmentSize = some (realKey,sized))
    (object : Nat) :
    value (sized.metadata object) = value (policy.metadata object) ∧
    (sized.metadata object).valid = (policy.metadata object).valid := by
  obtain ⟨found,_,same⟩ := Option.map_eq_some_iff.mp known
  obtain ⟨_,rfl⟩ := Prod.mk.inj same
  dsimp only
  by_cases here : object = found
  · rw [here,Function.update_self]
    split
    · exact ⟨sizeless _ _,rfl⟩
    · exact ⟨rfl,rfl⟩
  · rw [Function.update_of_ne here]
    exact ⟨rfl,rfl⟩

/-- A policy and what is left of it once the key has its size are the same but for that size. -/
theorem realKey_unchanged (sizeless : Sizeless value) (known : policy.realKey key segmentSize = some (realKey,sized)) :
    policy.Unchanged value sized ∧ sized.Unchanged value policy := by
  have compared := realKey_compared sizeless known
  have back (object : Nat) : value (policy.metadata object) = value (sized.metadata object) ∧
      (policy.metadata object).valid = (sized.metadata object).valid := ⟨(compared object).1.symm,
        (compared object).2.symm⟩
  have order := order_congr compared policy.keysInCache
  obtain ⟨found,_,same⟩ := Option.map_eq_some_iff.mp known
  obtain ⟨_,rfl⟩ := Prod.mk.inj same
  have heap : (policy.keysInCache ++ []).Perm policy.keysInCache := by rw [List.append_nil]
  exact ⟨⟨fun _ => Iff.rfl,rfl,⟨[],nofun,heap⟩,compared,order⟩,⟨fun _ => Iff.rfl,rfl,⟨[],nofun,heap⟩,back,order.symm⟩⟩

/-- A key that is not too large finds room in what the keys take that come out of the heap before one that is valid and
not less. Or else there is such a key, and those before it are in the set. -/
def Settles (policy : HeapCachingPolicy κ ν) (value : ValuedMetadata ν → ν) (realKey : SegmentKeyPtr κ) : Prop :=
  let segmentSize := (policy.metadata realKey.object).size
  let ahead := policy.ahead value realKey (policy.drained value policy.keysInCache.length policy.keysInCache)
  segmentSize ≤ policy.maxSize →
    segmentSize ≤ policy.freeSize+policy.size ahead ∨
    (∃ other ∈ policy.keysInCache, policy.Valid other ∧ ¬ policy.lessValue value other realKey = true) ∧
      ∀ other ∈ ahead, (policy.keySetInCache other.key).isSome = true

instance (policy : HeapCachingPolicy κ ν) (value : ValuedMetadata ν → ν) (realKey : SegmentKeyPtr κ) :
    Decidable (policy.Settles value realKey) :=
  inferInstanceAs (Decidable (_ → _ ∨ _))

/-- Where the room does not suffice, the heap is in order or gives no valid key before one that is not less. -/
def InOrder (policy : HeapCachingPolicy κ ν) (value : ValuedMetadata ν → ν) (realKey : SegmentKeyPtr κ) : Prop :=
  let segmentSize := (policy.metadata realKey.object).size
  let ahead := policy.ahead value realKey (policy.drained value policy.keysInCache.length policy.keysInCache)
  segmentSize ≤ policy.maxSize → policy.freeSize+policy.size ahead < segmentSize → ahead = [] ∨
    IsHeap (policy.comp value) policy.keysInCache

instance (policy : HeapCachingPolicy κ ν) (value : ValuedMetadata ν → ν) (realKey : SegmentKeyPtr κ) :
    Decidable (policy.InOrder value realKey) :=
  inferInstanceAs (Decidable (_ → _ → _ ∨ _))

variable (policy value key segmentSize) in
/-- A store does not ask an empty heap for its front, and leaves all as it is if it refuses. -/
def Refuses (stored : Except Failure (Option (List (SegmentKeyPtr κ)) × HeapCachingPolicy κ ν)) : Prop :=
  stored ≠ .error .undefined ∧ ∀ next, stored = .ok (none,next) → policy.Unchanged value next

variable [DecidableEq κ]

theorem settles_of_refuses (refuses : policy.Refuses value (policy.decideStore value realKey)) :
    policy.Settles value realKey := by
  obtain ⟨defined,unchanged⟩ := refuses
  intro small
  rw [decideStore,if_neg (Nat.not_lt.mpr small)] at defined unchanged
  have ends := @search_ends _ _ _ _ policy value realKey
      (policy.metadata realKey.object).size _ _ policy.keysInCache rfl
    policy.keySetInCache policy.freeSize []
  generalize policy.search value realKey _ _ _ _ _ _ = result at ends defined unchanged
  cases ends with
  | room admitted enough => exact .inl enough
  | @refused searched none short other heap set =>
    obtain ⟨keysInCache,keySetInCache,found⟩ := searched
    obtain rfl : found = _ := none
    refine .inr ⟨other,fun ahead inside => ?_⟩
    exact ((unchanged _ rfl).set ahead.key).mp ((set ahead.key).mpr (.inl (List.mem_map_of_mem inside)))
  | empty short less => exact absurd rfl defined

section Ordered
variable {ν : Type} [LinearOrder ν] {policy : HeapCachingPolicy κ ν} {value : ValuedMetadata ν → ν}
    {realKey : SegmentKeyPtr κ}

theorem refuses_of_settles (settles : policy.Settles value realKey) (inOrder : policy.InOrder value realKey) :
    policy.Refuses value (policy.decideStore value realKey) := by
  rw [decideStore]
  by_cases large : policy.maxSize < (policy.metadata realKey.object).size
  · rw [if_pos large]
    refine ⟨nofun,?_⟩
    rintro _ ⟨rfl⟩
    exact Unchanged.refl policy
  · rw [if_neg large]
    have small := Nat.le_of_not_lt large
    have ends := @search_ends _ _ _ _ policy value realKey
        (policy.metadata realKey.object).size _ _ policy.keysInCache rfl
      policy.keySetInCache policy.freeSize []
    generalize policy.search value realKey _ _ _ _ _ _ = result at ends ⊢
    cases ends with
    | @room searched admitted enough =>
      obtain ⟨keysInCache,keySetInCache,found⟩ := searched
      obtain ⟨found,rfl⟩ := Option.isSome_iff_exists.mp admitted
      exact ⟨nofun,nofun⟩
    | @refused searched none short other heap set ordered untouched =>
      obtain ⟨keysInCache,keySetInCache,found⟩ := searched
      obtain rfl : found = _ := none
      have held := ((settles small).resolve_left (Nat.not_le.mpr short)).2
      obtain ⟨stale,invalid,same⟩ := heap
      rw [List.append_nil] at same
      refine ⟨nofun,?_⟩
      rintro _ ⟨rfl⟩
      refine ⟨fun key => (set key).trans ⟨fun either => either.elim (fun inside => ?_) id,.inr⟩,rfl,
        ⟨stale,invalid,same⟩,fun _ => ⟨rfl,rfl⟩,?_⟩
      · obtain ⟨ahead,member,rfl⟩ := List.mem_map.mp inside
        exact held ahead member
      · refine (@order_congr _ _ _ _ policy value {policy with keysInCache,keySetInCache}
          (fun _ => ⟨rfl,rfl⟩) keysInCache).trans ?_
        rcases inOrder small short with nothing | heaped
        · exact untouched rfl nothing
        · exact order_eq heaped (ordered strictWeak_comp heaped) invalid same
    | empty short less =>
      obtain ⟨⟨other,inside,valid,large⟩,_⟩ := (settles small).resolve_left (Nat.not_le.mpr short)
      exact absurd (less other inside valid) large

end Ordered

theorem refuses_onStore_iff (sizeless : Sizeless value) : policy.Refuses value (policy.onStore value key segmentSize) ↔
    ∀ known ∈ policy.realKey key segmentSize, known.2.Refuses value (known.2.decideStore value known.1) := by
  rw [onStore]
  cases known : policy.realKey key segmentSize with
  | none => exact ⟨fun _ => nofun,fun _ => ⟨nofun,nofun⟩⟩
  | some found =>
    obtain ⟨here,there⟩ := realKey_unchanged sizeless known
    dsimp only
    constructor
    · rintro ⟨defined,kept⟩ _ ⟨rfl⟩
      exact ⟨defined,fun next refused => there.trans (kept next refused)⟩
    · intro each
      obtain ⟨defined,kept⟩ := each found rfl
      exact ⟨defined,fun next refused => here.trans (kept next refused)⟩

end Store

end HeapCachingPolicy
end Hermes.Cache
