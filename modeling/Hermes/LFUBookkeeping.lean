import Hermes.LFUVictims
import Hermes.Library.Transition
import Mathlib.Data.List.Induction

/-! The bookkeeping of the LFU policy over the runs of its calls. -/
namespace Hermes.Cache
open Library.Fallible Library.Transition
variable {κ : Type} [DecidableEq κ]

namespace LFUCachingPolicy

inductive Call (κ : Type) where
  | onLoad (key : κ)
  | onStore (key : κ) (segmentSize : Nat)
  | onRemove (key : κ) (hitNum : Nat)

/-- What is left after a call that is not undefined; a call that throws leaves all as it is. -/
def call (policy : LFUCachingPolicy κ) (label : Call κ) : Except Failure (LFUCachingPolicy κ) :=
  match label with
  | .onLoad key => policy.onLoad key
  | .onStore key segmentSize => (policy.onStore key segmentSize).map Prod.snd
  | .onRemove key hitNum => policy.onRemove key hitNum

def Step (policy : LFUCachingPolicy κ) (label : Call κ) (next : LFUCachingPolicy κ) : Prop :=
  policy.call label = .ok next ∨ (∃ message, policy.call label = .error (.error message)) ∧ next = policy

/-- A cached key that is loaded is not alone with the least hit number, unless another one has just
one more. A key that is let in is not cached, and a key that is not used more stays. A key that is
removed has the hit number that is said, and another one stays. -/
def Meets (policy : LFUCachingPolicy κ) : Call κ → Prop
  | .onLoad key => policy.hitNum key < maxHitNum ∧ (key ∈ policy.order →
    ∃ other ∈ policy.order, other ≠ key ∧ policy.hitNum other ≤ policy.hitNum key+1)
  | .onStore key segmentSize => (policy.keySet key).isSome = true → policy.storedSize key segmentSize ≤ policy.maxSize →
    policy.storedSize key segmentSize ≤ policy.freeSize+policy.total (policy.order.filter fun other => policy.hitNum other < policy.hitNum key) →
    key ∉ policy.order ∧ (policy.order = [] ∨ ∃ before other later, policy.order = before ++ other::later ∧
      policy.hitNum other ≤ policy.hitNum key ∧ policy.storedSize key segmentSize ≤ policy.freeSize+policy.total before)
  | .onRemove key hitNum => key ∈ policy.order → hitNum = policy.hitNum key ∧ ∃ other ∈ policy.order, other ≠ key

section Calls
variable {policy next : LFUCachingPolicy κ} {key : κ}

theorem removeAll_consistent (consistent : policy.Consistent) {keys : List κ} (once : keys.Nodup)
    (cached : ∀ other ∈ keys, (policy.keyMap other).isSome = true)
    (left : keys ≠ [] → ∃ other ∉ keys, (policy.keyMap other).isSome = true) :
    ∃ next, policy.removeAll keys = .ok next ∧ next.Consistent ∧ next.keySet = policy.keySet ∧
      ∀ other, next.keyMap other = if other ∈ keys then none else policy.keyMap other := by
  induction keys generalizing policy with
  | nil => exact ⟨policy,rfl,consistent,rfl,fun _ => rfl⟩
  | cons first keys ih =>
    obtain ⟨new,once⟩ := List.nodup_cons.mp once
    obtain ⟨here,later⟩ := List.forall_mem_cons.mp cached
    obtain ⟨it,found⟩ := Option.isSome_iff_exists.mp here
    obtain ⟨other,apart,stays⟩ := left (List.cons_ne_nil _ _)
    obtain ⟨differ,apart⟩ := not_or.mp (mt List.mem_cons.mpr apart)
    obtain ⟨middle,erased⟩ := evict_defined consistent found differ stays
    have rest := (eraseFreqMap_ok erased).2.2
    have kept : ∀ key, key ≠ first → Function.update middle.keyMap first none key = policy.keyMap key := by
      intro key differ
      rw [Function.update_of_ne differ,rest]
    have others : ∀ key ∈ keys, (Function.update middle.keyMap first none key).isSome = true := by
      intro key inside
      rw [kept key fun same => new (same ▸ inside)]
      exact later key inside
    have left : (Function.update middle.keyMap first none other).isSome = true := by
      rw [kept other differ]
      exact stays
    obtain ⟨next,removed,after,sets,maps⟩ := ih (evict_consistent consistent found erased) once others fun _ => ⟨other,apart,left⟩
    refine ⟨next,?_,after,?_,?_⟩
    · rw [removeAll,found]
      dsimp only
      rw [erased]
      exact removed
    · rw [sets,rest]
    · intro key
      rw [maps]
      dsimp only
      by_cases same : key = first
      · simp [same]
      · rw [kept key same]
        simp [same]

theorem onLoad_consistent (consistent : policy.Consistent) (meets : policy.Meets (.onLoad key)) :
    ∃ next, policy.onLoad key = .ok next ∧ next.Consistent := by
  obtain ⟨small,others⟩ := meets
  rw [onLoad]
  cases known : policy.keySet key with
  | none =>
    have uncached := uncached_of_unknown consistent known
    exact ⟨_,by rw [moveCached,uncached],update_consistent consistent uncached Nat.one_pos⟩
  | some metadata =>
    have hit := hitNum_known known
    rw [hit] at small others
    dsimp only
    rw [if_pos small,moveCached]
    cases cached : policy.keyMap key with
    | none => exact ⟨_,rfl,update_consistent consistent cached (Nat.succ_pos _)⟩
    | some it =>
      obtain ⟨other,inside,differ,close⟩ := others (mem_keyMap consistent cached)
      obtain ⟨found,there⟩ := Option.isSome_iff_exists.mp (consistent.mem_order.mp inside)
      obtain ⟨middle,erased⟩ := evict_defined consistent cached differ (consistent.mem_order.mp inside)
      have rest := (eraseFreqMap_ok erased).2.2
      have evicted := evict_consistent consistent cached erased
      have vacant : Function.update middle.keyMap key none key = none := Function.update_self ..
      have stays : Function.update middle.keyMap key none other = some found := by
        rw [Function.update_of_ne differ,rest]
        exact there
      have lower := minFreq_le evicted stays
      rw [hit] at erased
      dsimp only
      rw [Nat.add_sub_cancel,eraseFreqMap_keySet,erased]
      refine ⟨_,rfl,?_⟩
      have sets : middle.keySet = policy.keySet := by rw [rest]
      have hits : hitNum {middle with keyMap := Function.update middle.keyMap key none} other =
          policy.hitNum other := by
        rw [hitNum,hitNum,sets]
      have relabelled := @update_consistent _ _ _ _ evicted vacant ⟨metadata.size,metadata.hitNum+1⟩ (Nat.succ_pos _)
      have inserted := @insert_consistent _ _ _ key relabelled vacant ⟨metadata.size,metadata.hitNum+1⟩
          (Function.update_self ..)
        (.inr (lower.trans (hits.trans_le close)))
      dsimp only at inserted
      rw [sets] at inserted
      rw [← insert_keyMap]
      exact inserted

theorem onRemove_consistent (consistent : policy.Consistent) {hitNum : Nat}
    (meets : policy.Meets (.onRemove key hitNum)) :
    ∃ next, policy.onRemove key hitNum = .ok next ∧ next.Consistent := by
  rw [onRemove]
  cases cached : policy.keyMap key with
  | none => exact ⟨policy,rfl,consistent⟩
  | some it =>
    obtain ⟨rfl,other,inside,differ⟩ := meets (mem_keyMap consistent cached)
    obtain ⟨next,erased⟩ := evict_defined consistent cached differ (consistent.mem_order.mp inside)
    dsimp only
    rw [erased]
    exact ⟨_,rfl,evict_consistent consistent cached erased⟩

theorem admit_consistent (consistent : policy.Consistent) (uncached : policy.keyMap key = none)
    {metadata : SegmentMetadata} (known : policy.keySet key = some metadata) {victims : List κ} (once : victims.Nodup)
    (inside : ∀ victim ∈ victims, victim ∈ policy.order)
    (left : policy.order = [] ∨ ∃ other ∈ policy.order, other ∉ victims ∧ policy.hitNum other ≤ metadata.hitNum) :
    ∃ next, policy.removeAll victims = .ok next ∧ (next.insert metadata.hitNum key).Consistent := by
  have nothing : policy.order = [] → victims = [] := by
    intro empty
    apply List.eq_nil_iff_forall_not_mem.mpr
    intro victim member
    have ordered := inside victim member
    rw [empty] at ordered
    exact List.not_mem_nil ordered
  have stays : victims ≠ [] → ∃ other ∉ victims, (policy.keyMap other).isSome = true := by
    intro some
    obtain ⟨other,member,apart,_⟩ := left.resolve_left fun empty => some (nothing empty)
    exact ⟨other,apart,consistent.mem_order.mp member⟩
  obtain ⟨next,removed,after,sets,maps⟩ := removeAll_consistent consistent once
    (fun victim member => consistent.mem_order.mp (inside victim member)) stays
  refine ⟨next,removed,insert_consistent after ?_ (by rw [sets]; exact known) ?_⟩
  · rw [maps,uncached]
    exact ite_self none
  · rcases left with empty | ⟨other,member,apart,close⟩
    · rw [nothing empty] at removed
      obtain rfl := Except.ok.inj removed
      exact .inl (order_eq_nil after empty)
    · obtain ⟨it,found⟩ := Option.isSome_iff_exists.mp (consistent.mem_order.mp member)
      have cached : next.keyMap other = some it := by
        rw [maps,if_neg apart]
        exact found
      have hits : next.hitNum other = policy.hitNum other := by rw [hitNum,sets,hitNum]
      exact .inr ((minFreq_le after cached).trans (hits.trans_le close))

section Store
variable {segmentSize : Nat} {metadata : SegmentMetadata} {victims : List κ}

theorem admitted (consistent : policy.Consistent) (meets : policy.Meets (.onStore key segmentSize))
    (known : policy.keySet key = some metadata) (small : policy.storedSize key segmentSize ≤ policy.maxSize)
    {gathered : Nat}
    (found : (policy.sized key metadata segmentSize).Gathered metadata.hitNum (policy.storedSize key segmentSize) 0 policy.order
      victims gathered .sufficient) :
    ∃ next, (policy.sized key metadata segmentSize).removeAll victims = .ok next ∧
    (next.insert metadata.hitNum key).Consistent := by
  have used := leastUsed consistent known found
  obtain ⟨⟨kept,parts,_⟩,_⟩ := found
  have fits : policy.storedSize key segmentSize ≤
      policy.freeSize+policy.total (policy.order.filter fun other => policy.hitNum other < policy.hitNum key) := by
    rw [parts,List.filter_append,List.filter_eq_self.mpr fun victim member => decide_eq_true
      (used.less victim member),total_append]
    exact used.enough.trans (Nat.add_le_add_left (Nat.le_add_right _ _) _)
  obtain ⟨uncached,left⟩ := meets (by rw [known]; rfl) small fits
  have sizedConsistent := @sized_consistent κ _ policy key segmentSize metadata consistent known
  refine admit_consistent sizedConsistent ?_ (Function.update_self ..) ?_ ?_ ?_
  · by_contra cached
    exact uncached (consistent.mem_order.mpr (Option.isSome_iff_ne_none.mpr cached))
  · have once := consistent.order_nodup
    rw [parts] at once
    exact (List.nodup_append.mp once).1
  · intro victim member
    change victim ∈ policy.order
    rw [parts]
    exact List.mem_append_left _ member
  · rcases left with empty | ⟨before,other,later,stands,close,room⟩
    · exact .inl empty
    · refine .inr ⟨other,?_,used.stays consistent parts stands room,?_⟩
      · change other ∈ policy.order
        rw [stands]
        exact List.mem_append_right _ List.mem_cons_self
      · rw [hitNum_sized known,← hitNum_known known]
        exact close

theorem onStore_consistent (consistent : policy.Consistent) (meets : policy.Meets (.onStore key segmentSize)) :
    policy.onStore key segmentSize = .error (.error "onStore: Key should exist in keySet_") ∨
      ∃ result next, policy.onStore key segmentSize = .ok (result,next) ∧ next.Consistent := by
  cases known : policy.keySet key with
  | none => exact .inl (onStore_unknown known)
  | some metadata =>
    have kept := @sized_consistent κ _ policy key segmentSize metadata consistent known
    refine .inr ?_
    by_cases small : policy.storedSize key segmentSize ≤ policy.maxSize
    · obtain ⟨victims,gathered,res,found,store⟩ := onStore_small known small consistent.frequencies
      rw [store]
      cases res with
      | sufficient =>
        obtain ⟨next,removed,after⟩ := admitted consistent meets known small found
        rw [removed]
        exact ⟨_,_,rfl,freeSize_consistent after _⟩
      | insufficient => exact ⟨none,_,rfl,kept⟩
      | unknown => exact ⟨none,_,rfl,kept⟩
    · exact ⟨none,_,onStore_large known (Nat.lt_of_not_le small),kept⟩

end Store

theorem call_consistent (consistent : policy.Consistent) {label : Call κ} (meets : policy.Meets label) :
    policy.call label ≠ .error .undefined ∧ ∀ next, policy.Step label next → next.Consistent := by
  have done : ∀ {result : Except Failure (LFUCachingPolicy κ)}, (∃ next, result = .ok next ∧ next.Consistent) →
      policy.call label = result →
      policy.call label ≠ .error .undefined ∧ ∀ next, policy.Step label next → next.Consistent := by
    rintro _ ⟨after,rfl,kept⟩ called
    refine ⟨by rw [called]; nofun,?_⟩
    rintro next (same | ⟨⟨_,wrong⟩,_⟩)
    · rw [called] at same
      rw [← Except.ok.inj same]
      exact kept
    · rw [called] at wrong
      cases wrong
  cases label with
  | onLoad key => exact done (onLoad_consistent consistent meets) rfl
  | onRemove key hitNum => exact done (onRemove_consistent consistent meets) rfl
  | onStore key segmentSize =>
    rcases onStore_consistent consistent meets with throws | ⟨result,after,stored,kept⟩
    · have called : policy.call (.onStore key segmentSize) =
          .error (.error "onStore: Key should exist in keySet_") := by
        rw [call,throws]
        rfl
      refine ⟨by rw [called]; nofun,?_⟩
      rintro next (wrong | ⟨_,rfl⟩)
      · rw [called] at wrong
        cases wrong
      · exact consistent
    · refine done ⟨after,rfl,kept⟩ ?_
      rw [call,stored]
      rfl

end Calls

/-- Each cached key has its own node in the list of its hit number, no list is empty, the set has the
frequencies of the lists, and the least of them is noted whenever something is cached. -/
structure Bookkept (policy : LFUCachingPolicy κ) : Prop where
  keyed : ∀ key, ∀ it ∈ policy.keyMap key, it.key = key ∧ ∃ list ∈ policy.freqMap (policy.hitNum key), it ∈ list
  own : ∀ key other, ∀ it ∈ policy.keyMap key, it ∈ policy.keyMap other → key = other
  filled : ∀ freq, policy.freqMap freq ≠ some []
  set : ∀ freq, freq ∈ policy.freqSet ↔ (policy.freqMap freq).isSome = true
  least : ∀ key, (policy.keyMap key).isSome = true → policy.minFreq ∈ policy.freqSet ∧
    ∀ freq ∈ policy.freqSet, policy.minFreq ≤ freq

section Runs
variable {maxSize : Nat} {calls : List (Call κ)} {policy : LFUCachingPolicy κ}

omit [DecidableEq κ] in
theorem consistent_make : (make maxSize : LFUCachingPolicy κ).Consistent := by
  refine ⟨⟨nofun,fun _ => ⟨nofun,nofun⟩,fun wrong => absurd rfl wrong,fun _ => rfl,nofun,List.nodup_nil⟩,nofun,?_,nofun,
    fun _ => List.Pairwise.nil,nofun,nofun⟩
  intro key it
  exact ⟨nofun,fun both => absurd both.2 List.not_mem_nil⟩

theorem run_consistent (run : Run (Meeting Meets Step) (make maxSize) calls policy) : policy.Consistent := by
  refine run.invariant Consistent consistent_make ?_
  rintro before label next kept ⟨meets,step⟩
  exact (call_consistent kept meets).2 next step

omit [DecidableEq κ] in
theorem Consistent.bookkept (consistent : policy.Consistent) : policy.Bookkept := by
  refine ⟨?_,?_,consistent.frequencies.filled,consistent.frequencies.set,?_⟩
  · intro key it cached
    have inside := consistent.mem_listOf cached
    rw [listOf] at inside
    cases here : policy.freqMap (policy.hitNum key) with
    | none =>
      rw [here] at inside
      exact absurd inside List.not_mem_nil
    | some list =>
      rw [here] at inside
      exact ⟨consistent.key_eq cached,list,rfl,inside⟩
  · intro key other it cached cached'
    exact (consistent.key_eq cached).symm.trans (consistent.key_eq cached')
  · intro key cached
    obtain ⟨it,found⟩ := Option.isSome_iff_exists.mp cached
    exact ⟨consistent.frequencies.noted (List.ne_nil_of_mem (consistent.mem_freqSet found)),consistent.least⟩

/-- In every run whose calls meet the condition the books are right, and no call that meets it is undefined. -/
theorem lfu_bookkept (run : Run (Meeting Meets Step) (make maxSize) calls policy) :
    policy.Bookkept ∧ ∀ label, policy.Meets label → policy.call label ≠ .error .undefined := by
  have consistent := run_consistent run
  exact ⟨consistent.bookkept,fun label meets => (call_consistent consistent meets).1⟩

/-- In every such run a store that lets a key in takes the place of keys that are used least. -/
theorem lfu_least_used (run : Run (Meeting Meets Step) (make maxSize) calls policy) {key : κ} {segmentSize : Nat}
    {victims : List κ}
    {next : LFUCachingPolicy κ} (stored : policy.onStore key segmentSize = .ok (some victims,next)) :
    policy.LeastUsed key segmentSize victims :=
  onStore_leastUsed (run_consistent run) stored

theorem run_calls {start : LFUCachingPolicy κ} (called : calls.foldlM call start = .ok policy) :
    Run Step start calls policy := by
  have run := @Run.of_foldlM _ _ _ _ _ call Step id id (fun _ _ _ made => .inl made) calls start policy called
  rw [List.map_id] at run
  exact run

end Runs

section Examples

/-- Two keys are cached and one of them is used again; a third one is used twice. -/
def three : List (Call String) := [.onLoad "a",.onStore "a" 6,.onLoad "b",.onStore "b" 4,.onLoad "a",.onLoad "c",
      .onLoad "c"]

theorem run_three : ∃ policy next, Run (Meeting Meets Step) (make 10) three policy ∧
    policy.onStore "c" 3 = .ok (some ["b"],next) := by
  have first := (@Run.nil _ _ (Meeting Meets Step) (make 10 : LFUCachingPolicy String)).meet (.onLoad "a")
    ⟨by decide,fun inside => absurd inside (by decide)⟩ (.inl rfl)
  have stored := first.meet (.onStore "a" 6) (fun _ _ _ => ⟨by decide,.inl rfl⟩) (.inl rfl)
  have second := stored.meet (.onLoad "b") ⟨by decide,fun inside => absurd inside (by decide)⟩ (.inl rfl)
  have both := second.meet (.onStore "b" 4) (fun _ _ _ => ⟨by decide,.inr ⟨[],"a",[],rfl,by decide,by decide⟩⟩)
      (.inl rfl)
  have again := both.meet (.onLoad "a") ⟨by decide,fun _ => ⟨"b",by decide,by decide,by decide⟩⟩ (.inl rfl)
  have third := again.meet (.onLoad "c") ⟨by decide,fun inside => absurd inside (by decide)⟩ (.inl rfl)
  have twice := third.meet (.onLoad "c") ⟨by decide,fun inside => absurd inside (by decide)⟩ (.inl rfl)
  exact ⟨_,_,twice,rfl⟩

theorem three_bookkept : ∃ policy : LFUCachingPolicy String, Run (Meeting Meets Step) (make 10) three policy ∧
    policy.Bookkept := by
  obtain ⟨policy,_,run,_⟩ := run_three
  exact ⟨policy,run,(lfu_bookkept run).1⟩

/-- The key that was used once goes. -/
theorem once_used_goes : ∃ policy next : LFUCachingPolicy String, policy.onStore "c" 3 = .ok (some ["b"],next) ∧
    policy.LeastUsed "c" 3 ["b"] := by
  obtain ⟨policy,next,run,stored⟩ := run_three
  exact ⟨policy,next,stored,lfu_least_used run stored⟩

/-- The only cached key is loaded. -/
theorem only_key_loaded : ∃ policy : LFUCachingPolicy String, Run Step (make 10) [.onLoad "k",.onStore "k" 4] policy ∧
    policy.call (.onLoad "k") = .error .undefined :=
  ⟨_,run_calls rfl,rfl⟩

/-- A key with five hits is cached, then one with one, and the least hit number stays at five. -/
def fiveAndOne : List (Call String) :=
  List.replicate 5 (.onLoad "a") ++ [.onStore "a" 5,.onLoad "b",.onStore "b" 5] ++ List.replicate 6 (.onLoad "c")

theorem five_goes_before_one : ∃ policy next : LFUCachingPolicy String, Run Step (make 10) fiveAndOne policy ∧
    policy.onStore "c" 5 = .ok (some ["a"],next) ∧ (policy.keyMap "b").isSome = true ∧
    policy.hitNum "b" < policy.hitNum "a" :=
  ⟨_,_,run_calls rfl,rfl,rfl,by decide⟩

end Examples

end LFUCachingPolicy
end Hermes.Cache
