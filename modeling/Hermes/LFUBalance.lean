import Hermes.Library.BoundedCache
import Hermes.RefusedStores

/-! The keys in the lists of the LFU policy, and the room that they take, in every state that is not undefined. -/
namespace Hermes.Cache
open Library.Fallible Library.RecentUse Library.BoundedCache
variable {κ : Type} [DecidableEq κ]

namespace LFUCachingPolicy

def held (policy : LFUCachingPolicy κ) : List (ListNode κ) := policy.freqSet.flatMap policy.listOf

def entries (policy : LFUCachingPolicy κ) : Entries κ := policy.held.map fun it => (it.key,policy.size it.key)

/-- A key has at most one node in the lists, and is known. -/
structure Kept (policy : LFUCachingPolicy κ) : Prop where
  tidy : policy.Tidy
  once : (policy.held.map ListNode.key).Nodup
  keyed : ∀ key it, policy.keyMap key = some it ↔ it ∈ policy.held ∧ it.key = key
  known : ∀ it ∈ policy.held, (policy.keySet it.key).isSome = true

structure Holds (policy : LFUCachingPolicy κ) (maxSize : Nat) : Prop where
  maxSize_eq : policy.maxSize = maxSize
  kept : policy.Kept
  balanced : Balanced maxSize policy.freeSize policy.entries

section Lists
variable {policy next : LFUCachingPolicy κ} {freq : Nat} {it : ListNode κ} {key : κ}

omit [DecidableEq κ] in
theorem flatMap_parts {freqs : List Nat} (inside : freq ∈ freqs) (lists : Nat → List (ListNode κ)) :
    (freqs.flatMap lists).Perm (lists freq ++ (freqs.erase freq).flatMap lists) :=
  (List.perm_cons_erase inside).flatMap_right lists

theorem eraseFreqMap_held (frequencies : policy.Frequencies) (ok : policy.eraseFreqMap freq it = .ok next) :
    policy.held.Perm (it::next.held) := by
  obtain ⟨inside,lists,_⟩ := eraseFreqMap_ok ok
  have after := eraseFreqMap_frequencies frequencies ok
  have member : freq ∈ policy.freqSet := (mem_freqSet frequencies).mpr (List.ne_nil_of_mem inside)
  have here : next.listOf freq = (policy.listOf freq).erase it := (lists freq).trans (if_pos rfl)
  have others : (policy.freqSet.erase freq).flatMap next.listOf =
      (policy.freqSet.erase freq).flatMap policy.listOf := by
    apply List.flatMap_congr
    intro other stays
    exact (lists other).trans (if_neg (frequencies.distinct.mem_erase_iff.mp stays).1)
  have elsewhere : ∀ other, other ≠ freq → (other ∈ next.freqSet ↔ other ∈ policy.freqSet) := by
    intro other differ
    rw [mem_freqSet after,mem_freqSet frequencies,lists,if_neg differ]
  have left : next.held.Perm ((policy.listOf freq).erase it ++ (policy.freqSet.erase freq).flatMap policy.listOf) := by
    by_cases empty : (policy.listOf freq).erase it = []
    · have order : next.freqSet.Perm (policy.freqSet.erase freq) := by
        refine (List.perm_ext_iff_of_nodup after.distinct (frequencies.distinct.erase _)).mpr ?_
        intro other
        rw [frequencies.distinct.mem_erase_iff]
        by_cases same : other = freq
        · rw [same,mem_freqSet after,here,empty]
          simp
        · rw [elsewhere other same]
          exact ⟨fun there => ⟨same,there⟩,And.right⟩
      rw [empty,List.nil_append,← others]
      exact order.flatMap_right _
    · have order : next.freqSet.Perm policy.freqSet := by
        refine (List.perm_ext_iff_of_nodup after.distinct frequencies.distinct).mpr ?_
        intro other
        by_cases same : other = freq
        · rw [same,mem_freqSet after,here]
          exact iff_of_true empty member
        · exact elsewhere other same
      rw [← others,← here]
      exact (order.flatMap_right _).trans (flatMap_parts member _)
  refine (flatMap_parts member policy.listOf).trans (List.Perm.trans ?_ (left.cons it).symm)
  exact (List.perm_cons_erase inside).append_right _

theorem insert_held (frequencies : policy.Frequencies) (freq : Nat) (key : κ) :
    (policy.insert freq key).held.Perm (⟨policy.nodes,key⟩::policy.held) := by
  have lists : ∀ other, (policy.insert freq key).listOf other =
      if other = freq then policy.listOf freq ++ [⟨policy.nodes,key⟩] else policy.listOf other :=
    fun other => listOf_update policy freq other _
  have here := (lists freq).trans (if_pos rfl)
  by_cases member : freq ∈ policy.freqSet
  · have set : (policy.insert freq key).freqSet = policy.freqSet := if_pos member
    have others : (policy.freqSet.erase freq).flatMap (policy.insert freq key).listOf =
        (policy.freqSet.erase freq).flatMap policy.listOf := by
      apply List.flatMap_congr
      intro other stays
      exact (lists other).trans (if_neg (frequencies.distinct.mem_erase_iff.mp stays).1)
    have parts := flatMap_parts member (policy.insert freq key).listOf
    rw [here,others,List.append_assoc] at parts
    rw [held,set]
    exact parts.trans (List.perm_middle.trans ((flatMap_parts member policy.listOf).symm.cons _))
  · have set : (policy.insert freq key).freqSet = freq::policy.freqSet := if_neg member
    have empty : policy.listOf freq = [] := by
      by_contra filled
      exact member ((mem_freqSet frequencies).mpr filled)
    have others : policy.freqSet.flatMap (policy.insert freq key).listOf = policy.freqSet.flatMap policy.listOf := by
      apply List.flatMap_congr
      intro other there
      refine (lists other).trans (if_neg ?_)
      rintro rfl
      exact member there
    rw [held,set,List.flatMap_cons,others,here,empty]
    exact List.Perm.refl _

omit [DecidableEq κ] in
theorem keys_entries (policy : LFUCachingPolicy κ) : keys policy.entries = policy.held.map ListNode.key := by
  rw [keys,entries,List.map_map]
  rfl

omit [DecidableEq κ] in
theorem Kept.mem_keys (kept : policy.Kept) : key ∈ keys policy.entries ↔ (policy.keyMap key).isSome = true := by
  rw [keys_entries,List.mem_map,Option.isSome_iff_exists]
  constructor
  · rintro ⟨it,inside,rfl⟩
    exact ⟨it,(kept.keyed it.key it).mpr ⟨inside,rfl⟩⟩
  · rintro ⟨it,cached⟩
    exact ⟨it,(kept.keyed key it).mp cached⟩

theorem Kept.evict (kept : policy.Kept) (cached : policy.keyMap key = some it)
    (ok : policy.eraseFreqMap freq it = .ok next) :
    Kept {next with keyMap := Function.update next.keyMap key none} ∧ policy.held.Perm (it::next.held) := by
  have order := eraseFreqMap_held kept.tidy.frequencies ok
  have tidy := eraseFreqMap_tidy kept.tidy ok
  obtain ⟨_,_,rest⟩ := eraseFreqMap_ok ok
  have maps : next.keyMap = policy.keyMap := by rw [rest]
  have sets : next.keySet = policy.keySet := by rw [rest]
  obtain ⟨inside,rfl⟩ := (kept.keyed key it).mp cached
  have once := (order.map ListNode.key).nodup_iff.mp kept.once
  obtain ⟨apart,once⟩ := List.nodup_cons.mp once
  refine ⟨⟨⟨tidy.frequencies,tidy.hits⟩,once,?_,?_⟩,order⟩
  · intro other found
    change Function.update next.keyMap it.key none other = some found ↔ found ∈ next.held ∧ found.key = other
    rw [maps]
    by_cases same : other = it.key
    · rw [same,Function.update_self]
      refine ⟨nofun,?_⟩
      rintro ⟨there,named⟩
      exact absurd (named ▸ List.mem_map_of_mem there) apart
    · rw [Function.update_of_ne same,kept.keyed,order.mem_iff,List.mem_cons]
      refine and_congr_left fun named => ⟨fun either => either.resolve_left ?_,.inr⟩
      rintro rfl
      exact same named.symm
  · intro found there
    change (next.keySet found.key).isSome = true
    rw [sets]
    exact kept.known found (order.mem_iff.mpr (List.mem_cons_of_mem _ there))

theorem Kept.insert (kept : policy.Kept) (absent : key ∉ keys policy.entries)
    (known : (policy.keySet key).isSome = true) (positive : 0 < freq) : (policy.insert freq key).Kept := by
  have order := insert_held kept.tidy.frequencies freq key
  rw [keys_entries] at absent
  refine ⟨insert_tidy kept.tidy positive key,?_,?_,?_⟩
  · exact (order.map ListNode.key).nodup_iff.mpr (List.nodup_cons.mpr ⟨absent,kept.once⟩)
  · intro other found
    change Function.update policy.keyMap key _ other = some found ↔ _
    rw [order.mem_iff,List.mem_cons]
    by_cases same : other = key
    · rw [same,Function.update_self]
      constructor
      · rintro ⟨rfl⟩
        exact ⟨.inl rfl,rfl⟩
      · rintro ⟨rfl | there,named⟩
        · rfl
        · exact absurd (named ▸ List.mem_map_of_mem there) absent
    · rw [Function.update_of_ne same,kept.keyed]
      refine and_congr_left fun named => ⟨.inr,fun either => either.resolve_left ?_⟩
      rintro rfl
      exact same named.symm
  · intro found there
    rcases List.mem_cons.mp (order.mem_iff.mp there) with rfl | old
    · exact known
    · exact kept.known found old

end Lists

section Calls
variable {maxSize : Nat} {policy next : LFUCachingPolicy κ} {key : κ}

omit [DecidableEq κ] in
theorem holds_make (maxSize : Nat) : (make maxSize : LFUCachingPolicy κ).Holds maxSize := by
  refine ⟨rfl,⟨tidy_make maxSize,List.nodup_nil,?_,nofun⟩,List.nodup_nil,rfl⟩
  exact fun _ _ => ⟨nofun,fun both => absurd both.1 List.not_mem_nil⟩

theorem Holds.update (holds : policy.Holds maxSize) {metadata : SegmentMetadata} (positive : 0 < metadata.hitNum)
    (size : key ∈ keys policy.entries → metadata.size = policy.size key) :
    Holds {policy with keySet := Function.update policy.keySet key (some metadata)} maxSize ∧
      entries {policy with keySet := Function.update policy.keySet key (some metadata)} = policy.entries := by
  have whole : entries {policy with keySet := Function.update policy.keySet key (some metadata)} = policy.entries := by
    apply List.map_congr_left
    intro it inside
    by_cases same : it.key = key
    · have cached : key ∈ keys policy.entries := by
        rw [keys_entries,← same]
        exact List.mem_map_of_mem inside
      rw [LFUCachingPolicy.size,same,← size cached]
      dsimp only
      rw [Function.update_self]
      rfl
    · rw [LFUCachingPolicy.size,LFUCachingPolicy.size]
      dsimp only
      rw [Function.update_of_ne same]
  refine ⟨⟨holds.maxSize_eq,⟨update_tidy holds.kept.tidy positive,holds.kept.once,holds.kept.keyed,?_⟩,?_⟩,whole⟩
  · intro it inside
    dsimp only
    by_cases same : it.key = key
    · rw [same,Function.update_self]
      rfl
    · rw [Function.update_of_ne same]
      exact holds.kept.known it inside
  · rw [whole]
    exact holds.balanced

theorem moveCached_holds (holds : policy.Holds maxSize) {freq : Nat} (positive : 0 < freq)
    (moved : policy.moveCached key freq = .ok next) :
    next.Holds maxSize ∧ next.entries.Perm policy.entries := by
  rw [moveCached] at moved
  split at moved
  · rw [← Except.ok.inj moved]
    exact ⟨holds,List.Perm.refl _⟩
  · rename_i it cached
    obtain ⟨middle,erased,done⟩ := bind_eq_ok.mp moved
    obtain ⟨without,order⟩ := holds.kept.evict cached erased
    obtain ⟨inside,rfl⟩ := (holds.kept.keyed key it).mp cached
    obtain ⟨_,_,rest⟩ := eraseFreqMap_ok erased
    have sets : middle.keySet = policy.keySet := by rw [rest]
    have free : middle.freeSize = policy.freeSize := by rw [rest]
    have whole : middle.maxSize = policy.maxSize := by rw [rest]
    have absent : it.key ∉ keys (entries {middle with keyMap := Function.update middle.keyMap it.key none}) := by
      rw [without.mem_keys]
      dsimp only
      rw [Function.update_self]
      exact Bool.false_ne_true
    have known : (middle.keySet it.key).isSome = true := sets ▸ holds.kept.known it inside
    have kept := without.insert absent known positive
    have filled := insert_held without.tidy.frequencies freq it.key
    rw [insert_keyMap] at kept filled
    rw [← Except.ok.inj done]
    have same : (middle.insert freq it.key).entries.Perm policy.entries := by
      have sizes : (middle.insert freq it.key).size = policy.size := by
        funext other
        rw [LFUCachingPolicy.size,LFUCachingPolicy.size,← sets]
        rfl
      rw [entries,entries,sizes]
      refine (filled.map _).trans ?_
      exact (order.map fun found => (found.key,policy.size found.key)).symm
    exact ⟨⟨whole.trans holds.maxSize_eq,kept,free ▸ holds.balanced.perm same⟩,same⟩

theorem onLoad_holds (holds : policy.Holds maxSize) (loaded : policy.onLoad key = .ok next) :
    next.Holds maxSize ∧ next.entries.Perm policy.entries := by
  rw [onLoad] at loaded
  cases known : policy.keySet key with
  | none =>
    rw [known] at loaded
    have uncached : key ∉ keys policy.entries := by
      rw [keys_entries,List.mem_map]
      rintro ⟨it,inside,rfl⟩
      have there := holds.kept.known it inside
      rw [known] at there
      cases there
    obtain ⟨after,whole⟩ := @Holds.update κ _ maxSize policy key holds
      ⟨0,1⟩ Nat.one_pos fun inside => absurd inside uncached
    obtain ⟨last,same⟩ := moveCached_holds after Nat.one_pos loaded
    exact ⟨last,whole ▸ same⟩
  | some metadata =>
    rw [known] at loaded
    dsimp only at loaded
    split at loaded
    · have size : policy.size key = metadata.size := by
        rw [LFUCachingPolicy.size,known]
        rfl
      obtain ⟨after,whole⟩ := @Holds.update κ _ maxSize policy key holds {metadata with hitNum := metadata.hitNum+1}
        (Nat.succ_pos _)
        fun _ => size.symm
      obtain ⟨last,same⟩ := moveCached_holds after (Nat.succ_pos _) loaded
      exact ⟨last,whole ▸ same⟩
    · cases loaded

theorem removeAll_held (kept : policy.Kept) {removableKeys : List κ}
    (removed : policy.removeAll removableKeys = .ok next) :
    next.Kept ∧ (∃ gone, policy.held.Perm (gone ++ next.held) ∧ gone.map ListNode.key = removableKeys) ∧
      next.keySet = policy.keySet ∧ next.freeSize = policy.freeSize ∧ next.maxSize = policy.maxSize := by
  induction removableKeys generalizing policy with
  | nil =>
    rw [← Except.ok.inj removed]
    exact ⟨kept,⟨[],List.Perm.refl _,rfl⟩,rfl,rfl,rfl⟩
  | cons removableKey removableKeys ih =>
    rw [removeAll] at removed
    split at removed
    · cases removed
    · rename_i it cached
      obtain ⟨middle,erased,later⟩ := bind_eq_ok.mp removed
      obtain ⟨without,order⟩ := kept.evict cached erased
      obtain ⟨_,_,rest⟩ := eraseFreqMap_ok erased
      obtain ⟨last,⟨gone,parts,names⟩,sets,free,whole⟩ := ih without later
      refine ⟨last,⟨it::gone,order.trans (parts.cons it),?_⟩,?_,?_,?_⟩
      · rw [List.map_cons,names,((kept.keyed removableKey it).mp cached).2]
      · rw [sets,rest]
      · rw [free,rest]
      · rw [whole,rest]

variable {segmentSize : Nat} {metadata : SegmentMetadata}

theorem sized_holds (holds : policy.Holds maxSize) (known : policy.keySet key = some metadata)
    (absent : key ∉ keys policy.entries) :
    (policy.sized key metadata segmentSize).Holds maxSize ∧
    (policy.sized key metadata segmentSize).entries = policy.entries :=
  holds.update (holds.kept.tidy.hits key metadata known) fun inside => absurd inside absent

theorem admitted_holds (holds : policy.Holds maxSize) (known : policy.keySet key = some metadata)
    (absent : key ∉ keys policy.entries)
    {victims : List κ} {gathered : Nat} (sum : gathered = 0+(policy.sized key metadata segmentSize).total victims)
    (enough : policy.storedSize key segmentSize ≤ gathered+(policy.sized key metadata segmentSize).freeSize)
    (removed : (policy.sized key metadata segmentSize).removeAll victims = .ok next) :
    Holds {next.insert metadata.hitNum key with freeSize := next.freeSize+gathered-policy.storedSize key segmentSize} maxSize ∧
      Admits policy.entries victims key (policy.storedSize key segmentSize)
        (entries {next.insert metadata.hitNum key with freeSize := next.freeSize+gathered-policy.storedSize key segmentSize}) := by
  obtain ⟨after,whole⟩ := @sized_holds κ _ maxSize policy key segmentSize metadata holds known absent
  obtain ⟨kept,⟨gone,parts,names⟩,sets,free,large⟩ := removeAll_held after.kept removed
  have sizes : next.size = (policy.sized key metadata segmentSize).size := by
    funext other
    rw [LFUCachingPolicy.size,LFUCachingPolicy.size,sets]
  let entry := fun it : ListNode κ => (it.key,(policy.sized key metadata segmentSize).size it.key)
  have before : policy.entries.Perm (gone.map entry ++ next.held.map entry) := by
    rw [← whole,← List.map_append]
    exact parts.map entry
  have out : keys (gone.map entry) = victims := by
    rw [keys,List.map_map,← names]
    rfl
  have room : Library.RecentUse.total (gone.map entry) = (policy.sized key metadata segmentSize).total victims := by
    rw [Library.RecentUse.total,List.map_map,← names,LFUCachingPolicy.total,List.map_map]
    rfl
  have stored : (policy.sized key metadata segmentSize).size key = policy.storedSize key segmentSize := by
    rw [LFUCachingPolicy.size,sized]
    dsimp only
    rw [Function.update_self]
    rfl
  have filled : (entries {next.insert metadata.hitNum key with
      freeSize := next.freeSize+gathered-policy.storedSize key segmentSize}).Perm
      ((key,policy.storedSize key segmentSize)::next.held.map entry) := by
    have order := (insert_held kept.tidy.frequencies metadata.hitNum key).map entry
    rw [List.map_cons] at order
    dsimp only [entry] at order
    rw [stored] at order
    refine List.Perm.trans (List.Perm.of_eq ?_) order
    apply List.map_congr_left
    intro it _
    rw [← sizes]
    rfl
  have left : key ∉ keys next.entries := by
    intro stays
    apply absent
    rw [mem_keys_perm before,keys,List.map_append,List.mem_append]
    refine .inr ?_
    rw [keys_entries] at stays
    rw [List.map_map]
    exact stays
  have inserted : (next.insert metadata.hitNum key).Kept := by
    refine kept.insert left ?_ (holds.kept.tidy.hits key metadata known)
    rw [sets,sized]
    dsimp only
    rw [Function.update_self]
    rfl
  refine ⟨⟨large.trans after.maxSize_eq,⟨⟨inserted.tidy.frequencies,inserted.tidy.hits⟩,inserted.once,inserted.keyed,inserted.known⟩,?_⟩,
    ⟨_,_,before,?_,filled⟩⟩
  · refine (holds.balanced.exchange before absent ?_).perm filled
    have same : next.freeSize = policy.freeSize := free
    have enough : policy.storedSize key segmentSize ≤ gathered+policy.freeSize := enough
    dsimp only
    rw [room]
    omega
  · intro other
    rw [out]

theorem onStore_holds (holds : policy.Holds maxSize) (absent : key ∉ keys policy.entries) {result : Option (List κ)}
    (stored : policy.onStore key segmentSize = .ok (result,next)) :
    next.Holds maxSize ∧ Stores policy.entries key (policy.storedSize key segmentSize) next.entries result := by
  cases known : policy.keySet key with
  | none =>
    rw [onStore_unknown known] at stored
    cases stored
  | some metadata =>
    obtain ⟨after,whole⟩ := @sized_holds κ _ maxSize policy key segmentSize metadata holds known absent
    have refused : Except.ok (none,policy.sized key metadata segmentSize) = (.ok (result,next) : Except Failure _) →
        next.Holds maxSize ∧ Stores policy.entries key (policy.storedSize key segmentSize) next.entries result := by
      rintro ⟨rfl,rfl⟩
      exact ⟨after,List.Perm.of_eq whole⟩
    by_cases small : policy.storedSize key segmentSize ≤ policy.maxSize
    · obtain ⟨victims,gathered,res,found,store⟩ := onStore_small known small holds.kept.tidy.frequencies
      rw [store] at stored
      cases res with
      | sufficient =>
        obtain ⟨removed,gone,done⟩ := map_eq_ok.mp stored
        obtain ⟨rfl,rfl⟩ := Prod.mk.inj done
        exact admitted_holds holds known absent found.sum (found.enough rfl) gone
      | insufficient => exact refused stored
      | unknown => exact refused stored
    · rw [onStore_large known (Nat.lt_of_not_le small)] at stored
      exact refused stored

end Calls
end LFUCachingPolicy
end Hermes.Cache
