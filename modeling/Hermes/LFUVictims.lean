import Hermes.LFUConsistency

/-! The search of the LFU policy for room: which keys it takes, and that they are those that are
used least. -/
namespace Hermes.Cache
open Library.Fallible
variable {κ : Type} [DecidableEq κ]

namespace LFUCachingPolicy

section Space
variable (policy : LFUCachingPolicy κ)

def total (keys : List κ) : Nat := (keys.map policy.size).sum

/-- What is gathered of the candidates: all are less, none could be left out, and either they are
enough, or there is no other one, or the next one is not less. -/
structure Gathered (hitNum segmentSize lowSegmentSize : Nat) (candidates removableKeys : List κ) (gathered : Nat)
    (res : Result) : Prop where
  rest : ∃ kept, candidates = removableKeys ++ kept ∧ (res = .unknown → kept = []) ∧
    (res = .insufficient → ∃ next ∈ kept.head?, hitNum ≤ policy.hitNum next)
  less : ∀ key ∈ removableKeys, policy.hitNum key < hitNum
  sum : gathered = lowSegmentSize+policy.total removableKeys
  enough : res = .sufficient → segmentSize ≤ gathered+policy.freeSize
  short : res ≠ .sufficient → gathered+policy.freeSize < segmentSize
  needed : ∀ others last, removableKeys = others ++ [last] →
    lowSegmentSize+policy.total others+policy.freeSize < segmentSize

variable {policy} {hitNum segmentSize lowSegmentSize : Nat}

omit [DecidableEq κ] in
theorem total_append (first second : List κ) :
    policy.total (first ++ second) = policy.total first+policy.total second := by
  rw [total,List.map_append,List.sum_append,total,total]

omit [DecidableEq κ] in
theorem Gathered.nothing (short : lowSegmentSize+policy.freeSize < segmentSize) :
    policy.Gathered hitNum segmentSize lowSegmentSize [] [] lowSegmentSize .unknown := by
  refine ⟨⟨[],rfl,fun _ => rfl,?_⟩,List.forall_mem_nil _,rfl,?_,fun _ => short,?_⟩
  · intro wrong
    cases wrong
  · intro wrong
    cases wrong
  · intro others last parts
    simp at parts

omit [DecidableEq κ] in
theorem gather_spec (candidates : List (ListNode κ)) (short : lowSegmentSize+policy.freeSize < segmentSize) :
    policy.Gathered hitNum segmentSize lowSegmentSize (candidates.map ListNode.key)
      (policy.gather hitNum segmentSize candidates lowSegmentSize).1 (policy.gather hitNum segmentSize candidates lowSegmentSize).2.1
      (policy.gather hitNum segmentSize candidates lowSegmentSize).2.2 := by
  induction candidates generalizing lowSegmentSize with
  | nil => exact Gathered.nothing short
  | cons candidate candidates ih =>
    rw [gather]
    split
    · rename_i less
      dsimp only
      split
      · rename_i enough
        refine ⟨⟨_,rfl,nofun,nofun⟩,List.forall_mem_singleton.mpr less,rfl,fun _ => enough,
          fun wrong => absurd rfl wrong,?_⟩
        intro others last whole
        cases others with
        | nil => exact short
        | cons first others => simp at whole
      · rename_i more
        obtain ⟨⟨kept,parts,none,next⟩,lesser,sum,enough,still,needed⟩ := ih (Nat.lt_of_not_le more)
        refine ⟨⟨kept,congrArg (candidate.key :: ·) parts,none,next⟩,List.forall_mem_cons.mpr ⟨less,lesser⟩,?_,enough,
          still,?_⟩
        · rw [sum,total,total,List.map_cons,List.sum_cons,Nat.add_assoc]
        · intro others last whole
          cases others with
          | nil => exact short
          | cons first others =>
            obtain ⟨rfl,later⟩ := List.cons.inj whole
            have before := needed others last later
            rw [total,List.map_cons,List.sum_cons]
            rw [total] at before
            omega
    · rename_i large
      exact ⟨⟨_,rfl,nofun,fun _ => ⟨_,rfl,Nat.le_of_not_lt large⟩⟩,nofun,rfl,nofun,fun _ => short,
        fun others last parts => by
        simp at parts⟩

omit [DecidableEq κ] in
theorem Gathered.append {first second keys more : List κ} {middle gathered : Nat} {res : Result}
    (here : policy.Gathered hitNum segmentSize lowSegmentSize first keys middle .unknown)
    (later : policy.Gathered hitNum segmentSize middle second more gathered res) :
    policy.Gathered hitNum segmentSize lowSegmentSize (first ++ second) (keys ++ more) gathered res := by
  obtain ⟨⟨kept,parts,none,_⟩,less,sum,_,_,needed⟩ := here
  obtain ⟨⟨kept',parts',none',next'⟩,less',sum',enough',short',needed'⟩ := later
  obtain rfl := none rfl
  rw [List.append_nil] at parts
  refine ⟨⟨kept',?_,none',next'⟩,List.forall_mem_append.mpr ⟨less,less'⟩,?_,enough',short',?_⟩
  · rw [parts,parts',List.append_assoc]
  · rw [sum',sum,total_append,Nat.add_assoc]
  · intro others last whole
    rcases List.eq_nil_or_concat more with empty | ⟨init,final,ends⟩
    · rw [empty,List.append_nil] at whole
      exact needed others last whole
    · rw [ends,List.concat_eq_append,← List.append_assoc] at whole
      obtain ⟨rfl,_⟩ := List.append_inj' whole rfl
      have before := needed' init final (by rw [ends,List.concat_eq_append])
      rw [total_append]
      omega

omit [DecidableEq κ] in
theorem Gathered.settled {first keys : List κ} {gathered : Nat} {res : Result}
    (here : policy.Gathered hitNum segmentSize lowSegmentSize first keys gathered res) (settled : res ≠ .unknown)
    (second : List κ) :
    policy.Gathered hitNum segmentSize lowSegmentSize (first ++ second) keys gathered res := by
  obtain ⟨⟨kept,parts,_,next⟩,less,sum,enough,short,needed⟩ := here
  refine ⟨⟨kept ++ second,?_,fun unknown => absurd unknown settled,?_⟩,less,sum,enough,short,needed⟩
  · rw [parts,List.append_assoc]
  · intro insufficient
    obtain ⟨candidate,head,large⟩ := next insufficient
    rw [List.head?_append,Option.mem_def.mp head]
    exact ⟨candidate,rfl,large⟩

omit [DecidableEq κ] in
theorem findSpace_spec (freqs : List Nat) (listed : ∀ freq ∈ freqs, (policy.freqMap freq).isSome = true)
    (short : lowSegmentSize+policy.freeSize < segmentSize) :
    ∃ removableKeys gathered res, policy.findSpace hitNum segmentSize freqs lowSegmentSize =
    (removableKeys,gathered,res,policy) ∧
      policy.Gathered hitNum segmentSize lowSegmentSize ((freqs.flatMap policy.listOf).map ListNode.key) removableKeys gathered res := by
  induction freqs generalizing lowSegmentSize with
  | nil => exact ⟨[],lowSegmentSize,.unknown,rfl,Gathered.nothing short⟩
  | cons freq freqs ih =>
    obtain ⟨here,later⟩ := List.forall_mem_cons.mp listed
    have visited : {policy with freqMap := Function.update policy.freqMap freq (some (policy.listOf freq))} =
        policy := by
      obtain ⟨list,found⟩ := Option.isSome_iff_exists.mp here
      have same : some (policy.listOf freq) = policy.freqMap freq := by
        rw [listOf,found]
        rfl
      rw [same,Function.update_eq_self]
    have gathered : policy.Gathered hitNum segmentSize lowSegmentSize ((policy.listOf freq).map ListNode.key) _ _ _ :=
      gather_spec (policy.listOf freq) short
    rw [findSpace]
    dsimp only
    rw [visited,List.flatMap_cons,List.map_append]
    split
    · rename_i keys middle same
      rw [same] at gathered
      obtain ⟨more,total,res,found,rest⟩ := ih later (gathered.short fun wrong => by cases wrong)
      rw [found]
      exact ⟨_,_,_,rfl,gathered.append rest⟩
    · rename_i keys middle settled differ same
      rw [same] at gathered
      exact ⟨_,_,_,rfl,gathered.settled differ _⟩

end Space

def storedSize (policy : LFUCachingPolicy κ) (key : κ) (segmentSize : Nat) : Nat :=
  if policy.size key = 0 then segmentSize else policy.size key

/-- The victims come first in the order, are used less than the key, are enough, and all are needed. -/
structure LeastUsed (policy : LFUCachingPolicy κ) (key : κ) (segmentSize : Nat) (victims : List κ) : Prop where
  less : ∀ victim ∈ victims, policy.hitNum victim < policy.hitNum key
  first : ∀ victim ∈ victims, ∀ other ∉ victims, ∀ it ∈ policy.keyMap victim, ∀ it' ∈ policy.keyMap other,
    policy.hitNum victim < policy.hitNum other ∨ policy.hitNum victim = policy.hitNum other ∧ it.node < it'.node
  enough : policy.storedSize key segmentSize ≤ policy.freeSize+policy.total victims
  needed : ∀ others last, victims = others ++ [last] →
    policy.freeSize+policy.total others < policy.storedSize key segmentSize

section Store
variable {policy next : LFUCachingPolicy κ} {key : κ} {segmentSize : Nat} {metadata : SegmentMetadata}
    {victims : List κ}

def sized (policy : LFUCachingPolicy κ) (key : κ) (metadata : SegmentMetadata) (segmentSize : Nat) :
    LFUCachingPolicy κ :=
  {policy with keySet := Function.update policy.keySet key (some ⟨policy.storedSize key segmentSize,metadata.hitNum⟩)}

theorem realKey_eq (known : policy.keySet key = some metadata) : policy.realKey key segmentSize =
    some (⟨policy.storedSize key segmentSize,metadata.hitNum⟩,policy.sized key metadata segmentSize) := by
  have stored : (if metadata.size = 0 then {metadata with size := segmentSize} else metadata) =
      (⟨policy.storedSize key segmentSize,metadata.hitNum⟩ : SegmentMetadata) := by
    rw [storedSize,size,known]
    change _ = (⟨if metadata.size = 0 then segmentSize else metadata.size,metadata.hitNum⟩ : SegmentMetadata)
    split <;> rfl
  rw [realKey,known,Option.map_some]
  dsimp only
  rw [stored]
  rfl

theorem hitNum_sized (known : policy.keySet key = some metadata) (other : κ) :
    (policy.sized key metadata segmentSize).hitNum other = policy.hitNum other := by
  rw [sized,hitNum_update]
  split
  · rename_i same
    rw [same,hitNum_known known]
  · rfl

theorem size_sized {other : κ} (differ : other ≠ key) :
    (policy.sized key metadata segmentSize).size other = policy.size other := by
  rw [size,sized,size]
  dsimp only
  rw [Function.update_of_ne differ]

theorem sized_consistent (consistent : policy.Consistent) (known : policy.keySet key = some metadata) :
    (policy.sized key metadata segmentSize).Consistent :=
  keySet_consistent consistent (fun other _ _ => hitNum_sized known other)
    (@hits_update κ _ policy key consistent.hits ⟨policy.storedSize key segmentSize,metadata.hitNum⟩
      (consistent.hits key metadata known))

theorem total_sized {keys : List κ} (apart : ∀ other ∈ keys, other ≠ key) :
    (policy.sized key metadata segmentSize).total keys = policy.total keys := by
  rw [total,total,List.map_congr_left fun other inside => size_sized (apart other inside)]

omit [DecidableEq κ] in
theorem Consistent.first (consistent : policy.Consistent) {kept : List κ} (parts : policy.order = victims ++ kept)
    {victim other : κ} (member : victim ∈ victims) (apart : other ∉ victims) {it it' : ListNode κ}
    (cached : policy.keyMap victim = some it) (cached' : policy.keyMap other = some it') : policy.Before it it' := by
  have once := consistent.order_nodup
  rw [parts] at once
  obtain ⟨gone,left,nodes,rfl,rfl⟩ := List.map_eq_append_iff.mp parts
  have before := consistent.order_before
  have candidates := fun it => @Consistent.mem_candidates κ policy consistent it
  rw [nodes] at before candidates
  have here : it ∈ gone := by
    refine (List.mem_append.mp ((candidates it).mpr ?_)).resolve_right ?_
    · rw [consistent.key_eq cached]
      exact cached
    · intro stays
      exact (List.nodup_append.mp once).2.2 victim member _ (List.mem_map_of_mem stays) (consistent.key_eq cached).symm
  have there : it' ∈ left := by
    refine (List.mem_append.mp ((candidates it').mpr ?_)).resolve_left ?_
    · rw [consistent.key_eq cached']
      exact cached'
    · intro went
      exact apart (consistent.key_eq cached' ▸ List.mem_map_of_mem went)
  exact (List.pairwise_append.mp before).2.2 it here it' there

theorem leastUsed (consistent : policy.Consistent) (known : policy.keySet key = some metadata) {gathered : Nat}
    (found : (policy.sized key metadata segmentSize).Gathered metadata.hitNum (policy.storedSize key segmentSize) 0 policy.order
      victims gathered .sufficient) : policy.LeastUsed key segmentSize victims := by
  obtain ⟨⟨kept,parts,_,_⟩,less,sum,enough,_,needed⟩ := found
  have lower : ∀ victim ∈ victims, policy.hitNum victim < policy.hitNum key := by
    intro victim member
    rw [hitNum_known known,← hitNum_sized known]
    exact less victim member
  have apart : ∀ victim ∈ victims, victim ≠ key := by
    rintro victim member rfl
    exact Nat.lt_irrefl _ (lower victim member)
  have enough := enough rfl
  rw [sum,Nat.zero_add,total_sized apart,Nat.add_comm] at enough
  refine ⟨lower,?_,enough,?_⟩
  · intro victim member other differ it cached it' cached'
    have before := consistent.first parts member differ cached cached'
    rw [Before,consistent.key_eq cached,consistent.key_eq cached'] at before
    exact before
  · intro others last whole
    have before := needed others last whole
    rw [Nat.zero_add,total_sized,Nat.add_comm] at before
    · exact before
    · intro other member
      exact apart other (whole ▸ List.mem_append_left _ member)

omit [DecidableEq κ] in
theorem LeastUsed.stays (used : policy.LeastUsed key segmentSize victims) (consistent : policy.Consistent)
    {kept before later : List κ}
    {other : κ} (parts : policy.order = victims ++ kept) (stands : policy.order = before ++ other::later)
    (room : policy.storedSize key segmentSize ≤ policy.freeSize+policy.total before) : other ∉ victims := by
  have once := consistent.order_nodup
  rw [stands] at once
  have prefixes := List.prefix_or_prefix_of_prefix (stands ▸ List.prefix_append before _)
      (parts ▸ List.prefix_append victims kept)
  rcases prefixes with ⟨more,rfl⟩ | short
  · rcases List.eq_nil_or_concat more with empty | ⟨init,last,ends⟩
    · rw [empty,List.append_nil]
      exact fun inside => (List.nodup_append.mp once).2.2 other inside other List.mem_cons_self rfl
    · have less := used.needed (before ++ init) last (by rw [ends,List.concat_eq_append,List.append_assoc])
      rw [total_append] at less
      omega
  · exact fun inside => (List.nodup_append.mp once).2.2 other (short.subset inside) other List.mem_cons_self rfl

theorem onStore_small (known : policy.keySet key = some metadata)
    (small : policy.storedSize key segmentSize ≤ policy.maxSize) (frequencies : policy.Frequencies) :
    ∃ victims gathered res, (policy.sized key metadata segmentSize).Gathered metadata.hitNum (policy.storedSize key segmentSize) 0
        policy.order victims gathered res ∧
      policy.onStore key segmentSize = match res with
        | .sufficient => ((policy.sized key metadata segmentSize).removeAll victims).map fun next => (some victims,
            {next.insert metadata.hitNum key with freeSize := next.freeSize+gathered-policy.storedSize key segmentSize})
        | _ => .ok (none,policy.sized key metadata segmentSize) := by
  rw [onStore,realKey_eq known]
  have large : ¬ (policy.sized key metadata segmentSize).maxSize < policy.storedSize key segmentSize :=
      Nat.not_lt.mpr small
  dsimp only
  rw [if_neg large]
  by_cases free : policy.storedSize key segmentSize ≤ (policy.sized key metadata segmentSize).freeSize
  · refine ⟨[],0,.sufficient,⟨⟨_,rfl,nofun,nofun⟩,nofun,rfl,fun _ => ?_,fun wrong => absurd rfl wrong,
      fun others last none => by
      simp at none⟩,?_⟩
    · rw [Nat.zero_add]
      exact free
    · rw [if_pos free]
      rfl
  · obtain ⟨victims,gathered,res,found,spec⟩ := @findSpace_spec κ
      (policy.sized key metadata segmentSize) metadata.hitNum
      (policy.storedSize key segmentSize) 0 policy.rounds
        (fun freq inside => (frequencies.set freq).mp ((mem_rounds frequencies).mp inside))
      (by rw [Nat.zero_add]; exact Nat.lt_of_not_le free)
    refine ⟨victims,gathered,res,spec,?_⟩
    have rounds : (policy.sized key metadata segmentSize).rounds = policy.rounds := rfl
    rw [if_neg free,rounds,found]
    cases res with
    | sufficient => exact bind_ok _ _
    | insufficient => rfl
    | unknown => rfl

theorem onStore_unknown (unknown : policy.keySet key = none) :
    policy.onStore key segmentSize = .error (.error "onStore: Key should exist in keySet_") := by
  rw [onStore,realKey,unknown]
  rfl

theorem onStore_large (known : policy.keySet key = some metadata)
    (large : policy.maxSize < policy.storedSize key segmentSize) :
    policy.onStore key segmentSize = .ok (none,policy.sized key metadata segmentSize) := by
  have large : (policy.sized key metadata segmentSize).maxSize < policy.storedSize key segmentSize := large
  rw [onStore,realKey_eq known]
  dsimp only
  rw [if_pos large]

theorem onStore_leastUsed (consistent : policy.Consistent)
    (stored : policy.onStore key segmentSize = .ok (some victims,next)) :
    policy.LeastUsed key segmentSize victims := by
  cases known : policy.keySet key with
  | none =>
    rw [onStore_unknown known] at stored
    cases stored
  | some metadata =>
    by_cases small : policy.storedSize key segmentSize ≤ policy.maxSize
    · obtain ⟨found,gathered,res,spec,store⟩ := onStore_small known small consistent.frequencies
      rw [store] at stored
      cases res with
      | sufficient =>
        obtain ⟨removed,_,done⟩ := map_eq_ok.mp stored
        obtain ⟨same,_⟩ := Prod.mk.inj done
        obtain rfl := Option.some.inj same
        exact leastUsed consistent known spec
      | insufficient => cases stored
      | unknown => cases stored
    · rw [onStore_large known (Nat.lt_of_not_le small)] at stored
      cases stored

end Store

end LFUCachingPolicy
end Hermes.Cache
