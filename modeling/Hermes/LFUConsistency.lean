import Hermes.LFUCachingPolicy
import Hermes.Library.Fallible

/-! What the four structures of the LFU policy say about each other, and what erasing and inserting
a key keeps of it. -/
namespace Hermes.Cache
open Library.Fallible
variable {κ : Type} [DecidableEq κ]

namespace LFUCachingPolicy

/-- No list is empty, the set has the frequencies that have lists, and one of them is noted. -/
structure Listing (freqMap : Nat → Option (List (ListNode κ))) (minFreq : Nat) (freqSet : List Nat) : Prop where
  filled : ∀ freq, freqMap freq ≠ some []
  set : ∀ freq, freq ∈ freqSet ↔ (freqMap freq).isSome = true
  noted : freqSet ≠ [] → minFreq ∈ freqSet
  unset : freqSet = [] → minFreq = 0
  positive : 0 ∉ freqSet
  distinct : freqSet.Nodup

abbrev Frequencies (policy : LFUCachingPolicy κ) : Prop := Listing policy.freqMap policy.minFreq policy.freqSet

def Least (policy : LFUCachingPolicy κ) : Prop := ∀ freq ∈ policy.freqSet, policy.minFreq ≤ freq

/-- Each cached key has its own node, in the list of its hit number. -/
structure Consistent (policy : LFUCachingPolicy κ) : Prop where
  frequencies : policy.Frequencies
  least : policy.Least
  keyed : ∀ key it, policy.keyMap key = some it ↔ it.key = key ∧ it ∈ policy.listOf (policy.hitNum key)
  listed : ∀ freq, ∀ it ∈ policy.listOf freq, policy.hitNum it.key = freq
  ascending : ∀ freq, (policy.listOf freq).Pairwise fun older younger => older.node < younger.node
  fresh : ∀ freq, ∀ it ∈ policy.listOf freq, it.node < policy.nodes
  hits : ∀ key metadata, policy.keySet key = some metadata → 0 < metadata.hitNum

section Frequencies
variable {policy next : LFUCachingPolicy κ} {freq : Nat} {it : ListNode κ}

omit [DecidableEq κ] in
theorem mem_freqSet (frequencies : policy.Frequencies) : freq ∈ policy.freqSet ↔ policy.listOf freq ≠ [] := by
  rw [frequencies.set,listOf]
  cases here : policy.freqMap freq with
  | none => simp
  | some list =>
    refine ⟨fun _ empty => frequencies.filled freq ?_,fun _ => rfl⟩
    rw [here]
    exact congrArg some empty

theorem mem_without {freqSet : List Nat} {other : Nat} :
    other ∈ freqSet.filter (fun other => decide (other ≠ freq)) ↔ other ∈ freqSet ∧ other ≠ freq := by
  rw [List.mem_filter,decide_eq_true_eq]

omit [DecidableEq κ] in
theorem listOf_update (policy : LFUCachingPolicy κ) (freq other : Nat) (list : Option (List (ListNode κ))) :
    listOf {policy with freqMap := Function.update policy.freqMap freq list} other =
      if other = freq then list.getD [] else policy.listOf other := by
  by_cases same : other = freq
  · simp [listOf,same]
  · simp [listOf,same]

theorem eraseFreqMap_ok (ok : policy.eraseFreqMap freq it = .ok next) :
    it ∈ policy.listOf freq ∧
      (∀ other, next.listOf other = if other = freq then (policy.listOf freq).erase it else policy.listOf other) ∧
      next = {policy with freqMap := next.freqMap,minFreq := next.minFreq,freqSet := next.freqSet} := by
  rw [eraseFreqMap] at ok
  split at ok
  · rename_i inside
    refine ⟨inside,?_⟩
    dsimp only at ok
    split at ok
    · rename_i empty
      have lists := listOf_update policy freq
      split at ok
      · split at ok
        · cases ok
        · rw [← Except.ok.inj ok]
          refine ⟨?_,rfl⟩
          intro other
          rw [empty]
          exact lists other none
      · rw [← Except.ok.inj ok]
        refine ⟨?_,rfl⟩
        intro other
        rw [empty]
        exact lists other none
    · rw [← Except.ok.inj ok]
      exact ⟨fun other => listOf_update policy freq other _,rfl⟩
  · cases ok

theorem eraseFreqMap_frequencies (frequencies : policy.Frequencies) (ok : policy.eraseFreqMap freq it = .ok next) :
    next.Frequencies := by
  have member : freq ∈ policy.freqSet := (mem_freqSet frequencies).mpr (List.ne_nil_of_mem (eraseFreqMap_ok ok).1)
  have noted := frequencies.noted (List.ne_nil_of_mem member)
  have filled : ∀ list, list ≠ some [] → ∀ other, Function.update policy.freqMap freq list other ≠ some [] := by
    intro list some other
    by_cases same : other = freq
    · rw [same,Function.update_self]
      exact some
    · rw [Function.update_of_ne same]
      exact frequencies.filled other
  have without : ∀ other, other ∈ policy.freqSet.filter (fun other => decide (other ≠ freq)) ↔
      (Function.update policy.freqMap freq none other).isSome = true := by
    intro other
    rw [mem_without,frequencies.set]
    by_cases same : other = freq
    · simp [same]
    · simp [same]
  have positive : 0 ∉ policy.freqSet.filter fun other => decide (other ≠ freq) :=
    fun zero => frequencies.positive (List.mem_of_mem_filter zero)
  rw [eraseFreqMap] at ok
  split at ok
  · dsimp only at ok
    split at ok
    · split at ok
      · split at ok
        · cases ok
        · rename_i minFreq least
          rw [← Except.ok.inj ok]
          have stays := List.min?_mem least
          exact ⟨filled none nofun,without,fun _ => stays,
            fun empty => absurd stays (List.eq_nil_iff_forall_not_mem.mp empty minFreq),
            positive,frequencies.distinct.filter _⟩
      · rename_i other
        rw [← Except.ok.inj ok]
        have stays := mem_without.mpr ⟨noted,other⟩
        exact ⟨filled none nofun,without,fun _ => stays,
          fun empty => absurd stays (List.eq_nil_iff_forall_not_mem.mp empty _),
          positive,frequencies.distinct.filter _⟩
    · rename_i some
      rw [← Except.ok.inj ok]
      refine ⟨filled _ fun empty => some (Option.some.inj empty),?_,frequencies.noted,frequencies.unset,
        frequencies.positive,
        frequencies.distinct⟩
      intro other
      rw [frequencies.set]
      by_cases same : other = freq
      · simp [same,(frequencies.set freq).mp member]
      · simp [same]
  · cases ok

theorem eraseFreqMap_least (least : policy.Least) (ok : policy.eraseFreqMap freq it = .ok next) : next.Least := by
  rw [eraseFreqMap] at ok
  split at ok
  · dsimp only at ok
    split at ok
    · split at ok
      · split at ok
        · cases ok
        · rename_i minFreq found
          rw [← Except.ok.inj ok]
          exact (List.min?_eq_some_iff.mp found).2
      · rw [← Except.ok.inj ok]
        exact fun other inside => least other (List.mem_of_mem_filter inside)
    · rw [← Except.ok.inj ok]
      exact least
  · cases ok

theorem eraseFreqMap_defined (inside : it ∈ policy.listOf freq)
    (left : (policy.listOf freq).erase it ≠ [] ∨ ∃ other ∈ policy.freqSet, other ≠ freq) :
    ∃ next, policy.eraseFreqMap freq it = .ok next := by
  rw [eraseFreqMap,if_pos inside]
  dsimp only
  split
  · rename_i empty
    obtain ⟨other,member,differ⟩ := left.resolve_left (not_not.mpr empty)
    split
    · split
      · rename_i none
        have stays := mem_without.mpr ⟨member,differ⟩
        rw [List.min?_eq_none_iff.mp none] at stays
        exact absurd stays List.not_mem_nil
      · exact ⟨_,rfl⟩
    · exact ⟨_,rfl⟩
  · exact ⟨_,rfl⟩

theorem mem_freqSet_insert {key : κ} {other : Nat} : other ∈ (policy.insert freq key).freqSet ↔ other = freq ∨
    other ∈ policy.freqSet := by
  change (other ∈ if freq ∈ policy.freqSet then policy.freqSet else freq::policy.freqSet) ↔ _
  split
  · rename_i there
    exact ⟨.inr,fun either => either.elim (· ▸ there) id⟩
  · exact List.mem_cons

omit [DecidableEq κ] in
theorem minFreq_eq_zero (frequencies : policy.Frequencies) : policy.minFreq = 0 ↔ policy.freqSet = [] := by
  refine ⟨fun zero => ?_,frequencies.unset⟩
  by_contra some
  exact frequencies.positive (zero ▸ frequencies.noted some)

theorem insert_frequencies (frequencies : policy.Frequencies) (positive : 0 < freq) (key : κ) :
    (policy.insert freq key).Frequencies := by
  have here : freq ∈ (policy.insert freq key).freqSet := mem_freqSet_insert.mpr (.inl rfl)
  refine ⟨?_,?_,?_,fun empty => absurd here (List.eq_nil_iff_forall_not_mem.mp empty freq),?_,?_⟩
  · intro other
    change Function.update policy.freqMap freq _ other ≠ _
    by_cases same : other = freq
    · simp [same]
    · rw [Function.update_of_ne same]
      exact frequencies.filled other
  · intro other
    rw [mem_freqSet_insert,frequencies.set]
    change _ ↔ (Function.update policy.freqMap freq _ other).isSome = true
    by_cases same : other = freq
    · simp [same]
    · simp [same]
  · intro _
    rw [mem_freqSet_insert]
    change (if policy.minFreq = 0 then freq else policy.minFreq) = freq ∨
      (if policy.minFreq = 0 then freq else policy.minFreq) ∈ policy.freqSet
    split
    · exact .inl rfl
    · rename_i some
      exact .inr (frequencies.noted fun empty => some (frequencies.unset empty))
  · intro zero
    rcases mem_freqSet_insert.mp zero with same | there
    · omega
    · exact frequencies.positive there
  · change (if freq ∈ policy.freqSet then policy.freqSet else freq::policy.freqSet).Nodup
    split
    · exact frequencies.distinct
    · exact List.nodup_cons.mpr ⟨‹_›,frequencies.distinct⟩

theorem insert_least (frequencies : policy.Frequencies) (least : policy.Least)
    (lower : policy.freqSet = [] ∨ policy.minFreq ≤ freq) (key : κ) : (policy.insert freq key).Least := by
  intro other inside
  change (if policy.minFreq = 0 then freq else policy.minFreq) ≤ other
  rcases mem_freqSet_insert.mp inside with same | there
  · split
    · omega
    · rename_i some
      have lower := lower.resolve_left fun empty => some (frequencies.unset empty)
      omega
  · have some : policy.minFreq ≠ 0 := fun zero => absurd there
        (List.eq_nil_iff_forall_not_mem.mp ((minFreq_eq_zero frequencies).mp zero) other)
    rw [if_neg some]
    exact least other there

end Frequencies

section Consistency
variable {policy next : LFUCachingPolicy κ} {key : κ} {it : ListNode κ}

omit [DecidableEq κ] in
theorem Consistent.key_eq (consistent : policy.Consistent) (cached : policy.keyMap key = some it) : it.key = key :=
  ((consistent.keyed key it).mp cached).1

omit [DecidableEq κ] in
theorem Consistent.mem_listOf (consistent : policy.Consistent) (cached : policy.keyMap key = some it) :
    it ∈ policy.listOf (policy.hitNum key) :=
  ((consistent.keyed key it).mp cached).2

omit [DecidableEq κ] in
theorem Consistent.once (consistent : policy.Consistent) (freq : Nat) : (policy.listOf freq).Nodup := by
  refine (consistent.ascending freq).imp ?_
  rintro older younger less rfl
  exact Nat.lt_irrefl _ less

omit [DecidableEq κ] in
theorem Consistent.cached (consistent : policy.Consistent) {freq : Nat} (inside : it ∈ policy.listOf freq) :
    policy.keyMap it.key = some it := by
  refine (consistent.keyed it.key it).mpr ⟨rfl,?_⟩
  rw [consistent.listed freq it inside]
  exact inside

omit [DecidableEq κ] in
theorem Consistent.mem_freqSet (consistent : policy.Consistent) (cached : policy.keyMap key = some it) :
    policy.hitNum key ∈ policy.freqSet :=
  (LFUCachingPolicy.mem_freqSet consistent.frequencies).mpr (List.ne_nil_of_mem (consistent.mem_listOf cached))

theorem evict_defined (consistent : policy.Consistent) (cached : policy.keyMap key = some it) {other : κ}
    (differ : other ≠ key)
    (stays : (policy.keyMap other).isSome = true) : ∃ next, policy.eraseFreqMap (policy.hitNum key) it = .ok next := by
  refine eraseFreqMap_defined (consistent.mem_listOf cached) ?_
  obtain ⟨found,there⟩ := Option.isSome_iff_exists.mp stays
  by_cases same : policy.hitNum other = policy.hitNum key
  · have inside := consistent.mem_listOf there
    have apart : found ≠ it := by
      rintro rfl
      exact differ ((consistent.key_eq there).symm.trans (consistent.key_eq cached))
    rw [same] at inside
    exact .inl (List.ne_nil_of_mem ((List.mem_erase_of_ne apart).mpr inside))
  · exact .inr ⟨_,consistent.mem_freqSet there,same⟩

theorem evict_consistent (consistent : policy.Consistent) (cached : policy.keyMap key = some it)
    (ok : policy.eraseFreqMap (policy.hitNum key) it = .ok next) :
    Consistent {next with keyMap := Function.update next.keyMap key none} := by
  obtain ⟨inside,lists,rest⟩ := eraseFreqMap_ok ok
  have once := consistent.once (policy.hitNum key)
  have sublist : ∀ freq, (next.listOf freq).Sublist (policy.listOf freq) := by
    intro freq
    rw [lists]
    split
    · rename_i same
      rw [same]
      exact List.erase_sublist
    · exact List.Sublist.refl _
  have keySet : next.keySet = policy.keySet := by rw [rest]
  have keyMap : next.keyMap = policy.keyMap := by rw [rest]
  have frequencies := eraseFreqMap_frequencies consistent.frequencies ok
  have least := eraseFreqMap_least consistent.least ok
  have hits : next.hitNum = policy.hitNum := by
    funext other
    rw [hitNum,keySet,hitNum]
  refine ⟨frequencies,least,?_,?_,
    fun freq => (consistent.ascending freq).sublist (sublist freq),?_,?_⟩
  · intro other found
    change Function.update next.keyMap key none other = some found ↔ found.key = other ∧
      found ∈ next.listOf (next.hitNum other)
    rw [hits,lists,keyMap]
    by_cases same : other = key
    · rw [same,Function.update_self,if_pos rfl]
      refine ⟨nofun,?_⟩
      rintro ⟨named,member⟩
      have again := consistent.cached (List.mem_of_mem_erase member)
      rw [named] at again
      obtain rfl := Option.some.inj (cached.symm.trans again)
      exact absurd member once.not_mem_erase
    · rw [Function.update_of_ne same,consistent.keyed]
      refine and_congr_right fun named => ?_
      split
      · rename_i hit
        rw [hit,List.mem_erase_of_ne]
        rintro rfl
        exact same (named.symm.trans (consistent.key_eq cached))
      · exact Iff.rfl
  · intro freq found member
    change next.hitNum found.key = freq
    rw [hits]
    exact consistent.listed freq found ((sublist freq).subset member)
  · intro freq found member
    change found.node < next.nodes
    rw [rest]
    exact consistent.fresh freq found ((sublist freq).subset member)
  · intro other metadata known
    change next.keySet other = some metadata at known
    rw [keySet] at known
    exact consistent.hits other metadata known

omit [DecidableEq κ] in
theorem keySet_consistent (consistent : policy.Consistent) {keySet : κ → Option SegmentMetadata}
    (same : ∀ other it, policy.keyMap other = some it → hitNum {policy with keySet} other = policy.hitNum other)
    (hits : ∀ other metadata, keySet other = some metadata → 0 < metadata.hitNum) :
    Consistent {policy with keySet} := by
  refine ⟨consistent.frequencies,consistent.least,?_,?_,consistent.ascending,consistent.fresh,hits⟩
  · intro other it
    change policy.keyMap other = some it ↔ it.key = other ∧ it ∈ policy.listOf (hitNum {policy with keySet} other)
    constructor
    · intro cached
      rw [same other it cached]
      exact (consistent.keyed other it).mp cached
    · rintro ⟨rfl,inside⟩
      exact consistent.cached inside
  · intro freq it inside
    exact (same it.key it (consistent.cached inside)).trans (consistent.listed freq it inside)

omit [DecidableEq κ] in
theorem hitNum_known {metadata : SegmentMetadata} (known : policy.keySet key = some metadata) :
    policy.hitNum key = metadata.hitNum := by
  rw [hitNum,known]
  rfl

theorem insert_consistent (consistent : policy.Consistent) (uncached : policy.keyMap key = none)
    {metadata : SegmentMetadata}
    (known : policy.keySet key = some metadata) (lower : policy.freqSet = [] ∨ policy.minFreq ≤ metadata.hitNum) :
    (policy.insert metadata.hitNum key).Consistent := by
  have lists : ∀ freq, (policy.insert metadata.hitNum key).listOf freq =
      if freq = metadata.hitNum then policy.listOf metadata.hitNum ++ [⟨policy.nodes,key⟩] else policy.listOf freq :=
    fun freq => listOf_update policy metadata.hitNum freq _
  have unlisted : ∀ freq, ∀ it ∈ policy.listOf freq, it.key ≠ key := by
    rintro freq it inside rfl
    have cached := consistent.cached inside
    rw [uncached] at cached
    cases cached
  have hit := hitNum_known known
  refine ⟨insert_frequencies consistent.frequencies (consistent.hits key metadata known) key,
    insert_least consistent.frequencies consistent.least lower key,?_,?_,?_,?_,consistent.hits⟩
  · intro other it
    change Function.update policy.keyMap key _ other = some it ↔
      it.key = other ∧ it ∈ (policy.insert metadata.hitNum key).listOf (policy.hitNum other)
    rw [lists]
    by_cases same : other = key
    · rw [same,Function.update_self,hit,if_pos rfl,List.mem_append,List.mem_singleton]
      constructor
      · rintro ⟨rfl⟩
        exact ⟨rfl,.inr rfl⟩
      · rintro ⟨named,inside | rfl⟩
        · exact absurd named (unlisted _ it inside)
        · rfl
    · rw [Function.update_of_ne same,consistent.keyed]
      refine and_congr_right fun named => ?_
      split
      · rename_i freq
        rw [freq,List.mem_append,List.mem_singleton]
        refine ⟨.inl,fun either => either.resolve_right ?_⟩
        rintro rfl
        exact same named.symm
      · exact Iff.rfl
  · intro freq it inside
    change policy.hitNum it.key = freq
    rw [lists] at inside
    split at inside
    · rename_i same
      rcases List.mem_append.mp inside with old | last
      · rw [same]
        exact consistent.listed _ it old
      · rw [List.mem_singleton.mp last,same]
        exact hit
    · exact consistent.listed freq it inside
  · intro freq
    rw [lists]
    split
    · refine List.pairwise_append.mpr ⟨consistent.ascending _,List.pairwise_singleton _ _,?_⟩
      intro it inside _ last
      rw [List.mem_singleton.mp last]
      exact consistent.fresh _ it inside
    · exact consistent.ascending freq
  · intro freq it inside
    change it.node < policy.nodes+1
    rw [lists] at inside
    split at inside
    · rcases List.mem_append.mp inside with old | last
      · exact Nat.lt_succ_of_lt (consistent.fresh _ it old)
      · rw [List.mem_singleton.mp last]
        exact Nat.lt_succ_self _
    · exact Nat.lt_succ_of_lt (consistent.fresh freq it inside)

omit [DecidableEq κ] in
theorem uncached_of_unknown (consistent : policy.Consistent) (unknown : policy.keySet key = none) :
    policy.keyMap key = none := by
  by_contra cached
  obtain ⟨it,found⟩ := Option.ne_none_iff_exists'.mp cached
  have hit : policy.hitNum key = 0 := by
    rw [hitNum,unknown]
    rfl
  have member := consistent.mem_freqSet found
  rw [hit] at member
  exact consistent.frequencies.positive member

theorem hitNum_update {keySet : κ → Option SegmentMetadata} {metadata : SegmentMetadata} (other : κ) :
    hitNum {policy with keySet := Function.update keySet key (some metadata)} other =
      if other = key then metadata.hitNum else hitNum {policy with keySet} other := by
  by_cases same : other = key
  · simp [hitNum,same]
  · simp [hitNum,same]

theorem hits_update (hits : ∀ other metadata, policy.keySet other = some metadata → 0 < metadata.hitNum)
    {metadata : SegmentMetadata} (positive : 0 < metadata.hitNum) :
    ∀ other found, Function.update policy.keySet key (some metadata) other = some found → 0 < found.hitNum := by
  intro other found known
  by_cases same : other = key
  · rw [same,Function.update_self] at known
    obtain rfl := Option.some.inj known
    exact positive
  · rw [Function.update_of_ne same] at known
    exact hits other found known

theorem update_consistent (consistent : policy.Consistent) (uncached : policy.keyMap key = none)
    {metadata : SegmentMetadata} (positive : 0 < metadata.hitNum) :
    Consistent {policy with keySet := Function.update policy.keySet key (some metadata)} := by
  refine keySet_consistent consistent ?_ (hits_update consistent.hits positive)
  intro other it cached
  rw [hitNum_update,if_neg]
  rintro rfl
  rw [uncached] at cached
  cases cached

theorem eraseFreqMap_keySet (policy : LFUCachingPolicy κ) (keySet : κ → Option SegmentMetadata) (freq : Nat)
    (it : ListNode κ) :
    eraseFreqMap {policy with keySet} freq it = (policy.eraseFreqMap freq it).map fun next => {next with keySet} := by
  have lists : listOf {policy with keySet} freq = policy.listOf freq := rfl
  rw [eraseFreqMap,eraseFreqMap,lists]
  by_cases inside : it ∈ policy.listOf freq
  · by_cases empty : (policy.listOf freq).erase it = []
    · by_cases noted : policy.minFreq = freq
      · simp only [if_pos inside,if_pos empty,if_pos noted]
        split <;> rfl
      · simp only [if_pos inside,if_pos empty,if_neg noted]
        rfl
    · simp only [if_pos inside,if_neg empty]
      rfl
  · simp only [if_neg inside]
    rfl

theorem insert_keyMap (policy : LFUCachingPolicy κ) (freq : Nat) (key : κ) :
    insert {policy with keyMap := Function.update policy.keyMap key none} freq key = policy.insert freq key := by
  simp only [insert,Function.update_idem]
  rfl

omit [DecidableEq κ] in
theorem minFreq_le (consistent : policy.Consistent) {it : ListNode κ} (cached : policy.keyMap key = some it) :
    policy.minFreq ≤ policy.hitNum key :=
  consistent.least _ (consistent.mem_freqSet cached)

omit [DecidableEq κ] in
theorem freeSize_consistent (consistent : policy.Consistent) (freeSize : Nat) : Consistent {policy with freeSize} :=
  ⟨consistent.frequencies,consistent.least,consistent.keyed,consistent.listed,consistent.ascending,consistent.fresh,
    consistent.hits⟩

end Consistency

section Order

/-- The cached keys, those of the least hit number first and the older ones first. -/
def order (policy : LFUCachingPolicy κ) : List κ := (policy.rounds.flatMap policy.listOf).map ListNode.key

variable {policy : LFUCachingPolicy κ} {key : κ}

def Before (policy : LFUCachingPolicy κ) (first second : ListNode κ) : Prop :=
  policy.hitNum first.key < policy.hitNum second.key ∨ policy.hitNum first.key = policy.hitNum second.key ∧
    first.node < second.node

omit [DecidableEq κ] in
theorem mem_rounds (frequencies : policy.Frequencies) {freq : Nat} : freq ∈ policy.rounds ↔ freq ∈ policy.freqSet := by
  rw [rounds]
  split
  · rename_i empty
    rw [empty]
  · rename_i first others some
    have noted := frequencies.noted (by rw [some]; exact List.cons_ne_nil _ _)
    rw [List.mem_cons,List.mem_insertionSort,mem_without]
    constructor
    · rintro (rfl | ⟨inside,_⟩)
      · exact noted
      · exact inside
    · intro inside
      by_cases same : freq = policy.minFreq
      · exact .inl same
      · exact .inr ⟨inside,same⟩

omit [DecidableEq κ] in
theorem rounds_ascending (frequencies : policy.Frequencies) (least : policy.Least) :
    policy.rounds.Pairwise (· < ·) := by
  rw [rounds]
  split
  · exact List.Pairwise.nil
  · have order := List.perm_insertionSort (· ≤ ·) (policy.freqSet.filter fun freq => decide (freq ≠ policy.minFreq))
    have distinct := order.nodup_iff.mpr (frequencies.distinct.filter _)
    refine List.pairwise_cons.mpr ⟨?_,?_⟩
    · intro freq inside
      obtain ⟨member,differ⟩ := mem_without.mp (order.mem_iff.mp inside)
      exact Nat.lt_of_le_of_ne (least freq member) (Ne.symm differ)
    · exact ((List.pairwise_insertionSort (· ≤ ·) _).and distinct).imp fun both => Nat.lt_of_le_of_ne both.1 both.2

omit [DecidableEq κ] in
theorem Consistent.mem_candidates (consistent : policy.Consistent) {it : ListNode κ} :
    it ∈ policy.rounds.flatMap policy.listOf ↔ policy.keyMap it.key = some it := by
  rw [List.mem_flatMap]
  constructor
  · rintro ⟨freq,_,inside⟩
    exact consistent.cached inside
  · intro cached
    exact ⟨_,(mem_rounds consistent.frequencies).mpr (consistent.mem_freqSet cached),consistent.mem_listOf cached⟩

omit [DecidableEq κ] in
theorem Consistent.order_before (consistent : policy.Consistent) :
    (policy.rounds.flatMap policy.listOf).Pairwise policy.Before := by
  refine List.pairwise_flatMap.mpr ⟨?_,?_⟩
  · intro freq _
    refine (consistent.ascending freq).imp_of_mem ?_
    intro older younger first second less
    exact .inr ⟨(consistent.listed freq older first).trans (consistent.listed freq younger second).symm,less⟩
  · refine (rounds_ascending consistent.frequencies consistent.least).imp ?_
    intro lower higher less older first younger second
    refine .inl ?_
    rw [consistent.listed lower older first,consistent.listed higher younger second]
    exact less

omit [DecidableEq κ] in
theorem Consistent.mem_order (consistent : policy.Consistent) : key ∈ policy.order ↔
    (policy.keyMap key).isSome = true := by
  rw [order,List.mem_map,Option.isSome_iff_exists]
  constructor
  · rintro ⟨it,inside,rfl⟩
    exact ⟨it,consistent.mem_candidates.mp inside⟩
  · rintro ⟨it,cached⟩
    refine ⟨it,consistent.mem_candidates.mpr ?_,consistent.key_eq cached⟩
    rw [consistent.key_eq cached]
    exact cached

omit [DecidableEq κ] in
theorem Consistent.order_nodup (consistent : policy.Consistent) : policy.order.Nodup := by
  refine List.pairwise_map.mpr (consistent.order_before.imp_of_mem ?_)
  intro first second inside inside' before same
  have cached := consistent.mem_candidates.mp inside
  rw [same,consistent.mem_candidates.mp inside'] at cached
  obtain rfl := Option.some.inj cached
  rcases before with less | ⟨_,less⟩
  · exact Nat.lt_irrefl _ less
  · exact Nat.lt_irrefl _ less

omit [DecidableEq κ] in
theorem mem_keyMap (consistent : policy.Consistent) {it : ListNode κ} (cached : policy.keyMap key = some it) :
    key ∈ policy.order :=
  consistent.mem_order.mpr (Option.isSome_iff_exists.mpr ⟨it,cached⟩)

omit [DecidableEq κ] in
theorem order_eq_nil (consistent : policy.Consistent) : policy.order = [] → policy.freqSet = [] := by
  intro empty
  by_contra some
  obtain ⟨freq,member⟩ := List.exists_mem_of_ne_nil _ some
  obtain ⟨it,inside⟩ := List.exists_mem_of_ne_nil _ ((mem_freqSet consistent.frequencies).mp member)
  have ordered := mem_keyMap consistent (consistent.cached inside)
  rw [empty] at ordered
  exact List.not_mem_nil ordered

end Order

end LFUCachingPolicy
end Hermes.Cache
