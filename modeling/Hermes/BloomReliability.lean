import Hermes.SlicedBloomFilter

/-! When the sliced filter has no false negative: only the first two bits of a slice are ever set, the first one by
the first key, the second one by a later key that hashes to the first bit. -/
namespace Hermes.Bloom.SlicedBloomFilter
open UniversalHashFunction

section
variable (function : UniversalHashFunction) (size : Nat)

def Hits (place : Nat) (key : Int) : Prop := function.hash (toInt key) = some place

instance (place : Nat) (key : Int) : Decidable (Hits function place key) :=
  inferInstanceAs (Decidable (function.hash (toInt key) = some place))

def InSlice (key : Int) : Prop := ∃ h,h < size ∧ Hits function h key

def Second (keys : List Int) : Prop := ∃ key ∈ keys.tail,Hits function 0 key

instance (keys : List Int) : Decidable (Second function keys) :=
  inferInstanceAs (Decidable (∃ key ∈ keys.tail,Hits function 0 key))

def isSet (keys : List Int) (place : Nat) : Bool :=
  decide (place = 0 ∧ keys ≠ [] ∨ place = 1 ∧ Second function keys)

def slice (keys : List Int) : List Bool := (List.range size).map (isSet function keys)

def bitOf (keys : List Int) (key : Int) : Bool :=
  decide (Hits function 0 key ∧ keys ≠ [] ∨ Hits function 1 key ∧ Second function keys)

end

section
variable {function : UniversalHashFunction} {size : Nat} {keys : List Int} {key : Int}

theorem slice_length : (slice function size keys).length = size := by
  rw [slice,List.length_map,List.length_range]

theorem slice_nil : slice function size [] = List.replicate size false := by
  have unset : isSet function [] = fun _ => false := by
    ext1 place
    rw [isSet,decide_eq_false_iff_not]
    rintro (⟨_,filled⟩ | ⟨_,_,inside,_⟩)
    · exact filled rfl
    · cases inside
  rw [slice,unset,List.map_const',List.length_range]

theorem slice_getElem? {place : Nat} (within : place < size) :
    (slice function size keys)[place]? = some (isSet function keys place) := by
  rw [slice,List.getElem?_map,List.getElem?_range within]
  rfl

theorem isSet_hash {h : Nat} (hit : Hits function h key) : isSet function keys h = bitOf function keys key := by
  have other : ∀ place,Hits function place key ↔ h = place := by
    intro place
    rw [Hits,hit,Option.some.injEq]
  rw [bitOf,isSet]
  simp only [other]

theorem second_concat : Second function (keys ++ [key]) ↔ Second function keys ∨ keys ≠ [] ∧ Hits function 0 key := by
  rw [Second,Second]
  cases keys with
  | nil =>
    rw [List.nil_append,List.tail_cons,List.tail_nil]
    exact ⟨fun ⟨_,inside,_⟩ => absurd inside List.not_mem_nil,fun either => either.elim
      (fun ⟨_,inside,_⟩ => absurd inside List.not_mem_nil) fun filled => absurd rfl filled.1⟩
  | cons first keys =>
    rw [List.cons_append,List.tail_cons,List.tail_cons]
    simp only [List.mem_append,List.mem_singleton,or_and_right,exists_or,exists_eq_left,ne_eq,reduceCtorEq,
      not_false_eq_true,
      true_and]

theorem Second.ne_nil (second : Second function keys) : keys ≠ [] := by
  rintro rfl
  obtain ⟨_,inside,_⟩ := second
  cases inside

theorem isSet_concat (place : Nat) : isSet function (keys ++ [key]) place = true ↔
    place = (bitOf function keys key).toNat ∨ isSet function keys place = true := by
  have filled : keys ++ [key] ≠ [] := List.append_ne_nil_of_right_ne_nil keys (List.cons_ne_nil key [])
  rw [isSet,isSet,decide_eq_true_eq,decide_eq_true_eq,second_concat]
  by_cases found : Hits function 0 key ∧ keys ≠ [] ∨ Hits function 1 key ∧ Second function keys
  · have bit : bitOf function keys key = true := decide_eq_true found
    have before : keys ≠ [] := found.elim And.right fun one => one.2.ne_nil
    have second : Second function keys ∨ keys ≠ [] ∧ Hits function 0 key := found.elim
      (fun zero => Or.inr ⟨before,zero.1⟩) fun one => Or.inl one.2
    rw [bit,Bool.toNat_true]
    simp only [filled,before,ne_eq,not_false_eq_true,and_true]
    tauto
  · have bit : bitOf function keys key = false := decide_eq_false found
    have zero : ¬(keys ≠ [] ∧ Hits function 0 key) := fun both => found (Or.inl both.symm)
    rw [bit,Bool.toNat_false]
    simp only [filled,zero,ne_eq,not_false_eq_true,and_true,or_false]
    tauto

theorem slice_set : (slice function size keys).set (bitOf function keys key).toNat true =
    slice function size (keys ++ [key]) := by
  apply List.ext_getElem
  · rw [List.length_set,slice_length,slice_length]
  · intro place before after
    rw [List.getElem_set]
    simp only [slice,List.getElem_map,List.getElem_range]
    rw [Bool.eq_iff_iff,isSet_concat]
    split
    next same => simp [same]
    next other => simp [Ne.symm other]

theorem hashesOf_slices (functions : List UniversalHashFunction) (hs : List Bool) :
    hashesOf key functions (functions.map fun function => slice function size keys) = some hs ↔
      (∀ function ∈ functions,InSlice function size key) ∧
      functions.map (fun function => bitOf function keys key) = hs := by
  induction functions generalizing hs with
  | nil => simp [hashesOf]
  | cons function functions ih =>
    rw [List.map_cons,List.map_cons,hashesOf,List.forall_mem_cons]
    cases hashed : function.hash (toInt key) with
    | none =>
      refine ⟨fun failed => (by cases failed),fun ⟨⟨⟨h,_,hit⟩,_⟩,_⟩ => ?_⟩
      rw [Hits,hashed] at hit
      cases hit
    | some h =>
      dsimp only [bind,Option.bind]
      by_cases within : h < size
      · have inSlice : InSlice function size key := ⟨h,within,hashed⟩
        rw [slice_getElem? within,isSet_hash hashed]
        dsimp only
        cases later : hashesOf key functions (functions.map fun function => slice function size keys) with
        | none =>
          refine ⟨fun failed => (by cases failed),fun both => ?_⟩
          rw [(ih _).mpr ⟨both.1.2,rfl⟩] at later
          cases later
        | some found =>
          obtain ⟨all,rfl⟩ := (ih _).mp later
          exact ⟨fun same => ⟨⟨inSlice,all⟩,Option.some.inj same⟩,fun both => congrArg some both.2⟩
      · have outside : (slice function size keys)[h]? = none := by
          rw [List.getElem?_eq_none_iff,slice_length]
          exact Nat.not_lt.mp within
        rw [outside]
        refine ⟨fun failed => (by cases failed),fun ⟨⟨⟨other,less,hit⟩,_⟩,_⟩ => ?_⟩
        rw [Hits,hashed,Option.some.injEq] at hit
        exact absurd (hit ▸ less) within

theorem setBits_slices (functions : List UniversalHashFunction) (found : Bool) :
    (∀ function ∈ functions,(bitOf function keys key).toNat < size) →
    ∃ result,setBits found (functions.map fun function => slice function size keys)
      (functions.map fun function => bitOf function keys key) =
        some (result,functions.map fun function => slice function size (keys ++ [key])) := by
  intro settable
  induction functions generalizing found with
  | nil => exact ⟨found,rfl⟩
  | cons function functions ih =>
    rw [List.forall_mem_cons] at settable
    rw [List.map_cons,List.map_cons,setBits,slice_length,if_pos settable.1,slice_set,List.map_cons]
    obtain ⟨result,done⟩ := ih (found && (slice function size keys)[(bitOf function keys key).toNat]?.getD false) settable.2
    rw [done]
    exact ⟨result,rfl⟩

theorem setBits_settable (functions : List UniversalHashFunction) (found : Bool) {result : Bool × List (List Bool)}
    (done : setBits found (functions.map fun function => slice function size keys)
      (functions.map fun function => bitOf function keys key) = some result) :
    ∀ function ∈ functions,(bitOf function keys key).toNat < size := by
  induction functions generalizing found result with
  | nil => exact fun _ inside => absurd inside List.not_mem_nil
  | cons function functions ih =>
    rw [List.map_cons,List.map_cons,setBits,slice_length] at done
    by_cases within : (bitOf function keys key).toNat < size
    · rw [if_pos within] at done
      cases later : setBits (found && (slice function size keys)[(bitOf function keys key).toNat]?.getD false)
          (functions.map fun function => slice function size keys)
            (functions.map fun function => bitOf function keys key) with
      | none =>
        rw [later] at done
        cases done
      | some result => exact List.forall_mem_cons.mpr ⟨within,ih _ later⟩
    · rw [if_neg within] at done
      cases done

theorem checkBits_slices (functions : List UniversalHashFunction)
    (settable : ∀ function ∈ functions,(bitOf function keys key).toNat < size) :
    checkBits (functions.map fun function => slice function size keys)
    (functions.map fun function => bitOf function keys key) =
      some (functions.all fun function => isSet function keys (bitOf function keys key).toNat) := by
  induction functions with
  | nil => rfl
  | cons function functions ih =>
    rw [List.forall_mem_cons] at settable
    rw [List.map_cons,List.map_cons,checkBits,slice_getElem? settable.1,List.all_cons,ih settable.2]
    cases isSet function keys (bitOf function keys key).toNat <;> rfl

/-- What a filter is after keys were added to the fresh one. -/
structure After (fresh state : SlicedBloomFilter) (keys : List Int) : Prop where
  capacity : state.capacity = fresh.capacity
  hashFunctions : state.hashFunctions = fresh.hashFunctions
  bitArrays : state.bitArrays = fresh.hashFunctions.map fun function => slice function fresh.numBitsPerSlice keys

/-- The key is added after the keys within the slices. -/
structure Addable (fresh : SlicedBloomFilter) (keys : List Int) (key : Int) : Prop where
  capacity : 0 < fresh.capacity
  inside : ∀ function ∈ fresh.hashFunctions,InSlice function fresh.numBitsPerSlice key
  settable : ∀ function ∈ fresh.hashFunctions,(bitOf function keys key).toNat < fresh.numBitsPerSlice

variable {fresh state final : SlicedBloomFilter}

theorem After.hashes (after : After fresh state keys) (hs : List Bool) :
    state.hashes key = some hs ↔ (∀ function ∈ fresh.hashFunctions,InSlice function fresh.numBitsPerSlice key) ∧
      fresh.hashFunctions.map (fun function => bitOf function keys key) = hs := by
  rw [SlicedBloomFilter.hashes,after.hashFunctions,after.bitArrays]
  exact hashesOf_slices fresh.hashFunctions hs

theorem After.add (after : After fresh state keys) (addable : Addable fresh keys key) :
    ∃ found next,state.add key = some (found,next) ∧ After fresh next (keys ++ [key]) := by
  obtain ⟨result,done⟩ := setBits_slices fresh.hashFunctions true addable.settable
  have step : state.add key = some (result,{state with
      count := if result then state.count else state.count+1
      bitArrays := fresh.hashFunctions.map fun function => slice function fresh.numBitsPerSlice (keys ++ [key])}) := by
    rw [SlicedBloomFilter.add,if_neg (by rw [after.capacity]; exact Int.not_le.mpr addable.capacity),
      (after.hashes _).mpr ⟨addable.inside,rfl⟩]
    dsimp only [bind,Option.bind]
    rw [after.bitArrays,done]
  exact ⟨result,_,step,⟨after.capacity,after.hashFunctions,rfl⟩⟩

theorem After.addable (after : After fresh state keys) {result : Bool × SlicedBloomFilter}
    (added : state.add key = some result) :
    Addable fresh keys key := by
  rw [SlicedBloomFilter.add,after.capacity] at added
  by_cases positive : fresh.capacity ≤ 0
  · rw [if_pos positive] at added
    cases added
  · rw [if_neg positive] at added
    cases found : state.hashes key with
    | none =>
      rw [found] at added
      cases added
    | some hs =>
      obtain ⟨inside,rfl⟩ := (after.hashes hs).mp found
      rw [found,after.bitArrays] at added
      dsimp only [bind,Option.bind] at added
      refine ⟨Int.not_le.mp positive,inside,?_⟩
      cases done : setBits true (fresh.hashFunctions.map fun function => slice function fresh.numBitsPerSlice keys)
          (fresh.hashFunctions.map fun function => bitOf function keys key) with
      | none =>
        rw [done] at added
        cases added
      | some result => exact setBits_settable _ _ done

theorem After.addAll_iff (after : After fresh state keys) (later : List Int) :
    (∀ front key back,later = front ++ key::back → Addable fresh (keys ++ front) key) ↔
    (state.addAll later).isSome := by
  induction later generalizing state keys with
  | nil => exact ⟨fun _ => rfl,fun _ front key back cut => by cases front <;> cases cut⟩
  | cons first later ih =>
    rw [addAll]
    cases step : state.add first with
    | none =>
      refine ⟨fun all => ?_,fun failed => (by cases failed)⟩
      have addable := all [] first later rfl
      rw [List.append_nil] at addable
      obtain ⟨_,_,added,_⟩ := after.add addable
      rw [step] at added
      cases added
    | some result =>
      have addable := after.addable step
      obtain ⟨found,next,added,holds⟩ := after.add addable
      rw [step,Option.some.injEq] at added
      subst added
      dsimp only [bind,Option.bind]
      rw [← ih holds]
      constructor
      · intro all front key back cut
        have one := all (first::front) key back (by rw [cut,List.cons_append])
        rwa [List.append_cons] at one
      · intro all front key back cut
        cases front with
        | nil =>
          obtain ⟨rfl,_⟩ := List.cons_eq_cons.mp cut
          rw [List.append_nil]
          exact addable
        | cons other front =>
          obtain ⟨rfl,rest⟩ := List.cons_eq_cons.mp cut
          rw [List.append_cons]
          exact all front key back rest

theorem After.addAll (after : After fresh state keys) {later : List Int} (added : state.addAll later = some final) :
    After fresh final (keys ++ later) := by
  induction later generalizing state keys with
  | nil =>
    cases added
    rw [List.append_nil]
    exact after
  | cons first later ih =>
    rw [SlicedBloomFilter.addAll] at added
    cases step : state.add first with
    | none =>
      rw [step] at added
      cases added
    | some result =>
      obtain ⟨found,next,same,holds⟩ := after.add (after.addable step)
      rw [step,Option.some.injEq] at same
      subst same
      rw [step] at added
      rw [List.append_cons]
      exact ih holds added

/-- The condition on the hashes in one slice: they lie in it, and the first key at the first bit comes behind other
keys, none of which is at the second bit. -/
structure Separated (function : UniversalHashFunction) (size : Nat) (keys asked : List Int) : Prop where
  inside : ∀ key ∈ keys ++ asked,InSlice function size key
  order : ∀ front key back,keys = front ++ key::back → Hits function 0 key →
    (∀ earlier ∈ front,¬Hits function 0 earlier) →
    front ≠ [] ∧ ∀ earlier ∈ front,¬Hits function 1 earlier

theorem Hits.unique {place other : Nat} (hit : Hits function place key) (again : Hits function other key) :
    place = other :=
  Option.some.inj (hit.symm.trans again)

theorem first_hit (some : ∃ key ∈ keys,Hits function 0 key) :
    ∃ front key back,keys = front ++ key::back ∧ Hits function 0 key ∧ ∀ earlier ∈ front,¬Hits function 0 earlier := by
  induction keys with
  | nil =>
    obtain ⟨_,inside,_⟩ := some
    cases inside
  | cons first keys ih =>
    by_cases hit : Hits function 0 first
    · exact ⟨[],first,keys,rfl,hit,fun _ inside => absurd inside List.not_mem_nil⟩
    · obtain ⟨key,inside,zero⟩ := some
      have later : key ∈ keys := (List.mem_cons.mp inside).resolve_left fun same => hit (same ▸ zero)
      obtain ⟨front,key,back,rfl,zero,none⟩ := ih ⟨key,later,zero⟩
      exact ⟨first::front,key,back,rfl,zero,List.forall_mem_cons.mpr ⟨hit,none⟩⟩

theorem bitOf_nil : bitOf function [] key = false := by
  rw [bitOf,decide_eq_false_iff_not]
  rintro (⟨_,filled⟩ | ⟨_,second⟩)
  · exact filled rfl
  · exact second.ne_nil rfl

theorem bitOf_iff : bitOf function keys key = true ↔ Hits function 0 key ∧ keys ≠ [] ∨ Hits function 1 key ∧
    Second function keys :=
  decide_eq_true_iff

variable {asked : List Int}

theorem Separated.two_le (separated : Separated function size keys asked) (filled : keys ≠ []) : 2 ≤ size := by
  obtain ⟨first,rest,rfl⟩ := List.exists_cons_of_ne_nil filled
  obtain ⟨h,within,hit⟩ := separated.inside first List.mem_cons_self
  have later : h ≠ 0 := by
    rintro rfl
    exact (separated.order [] first rest rfl hit fun _ inside => absurd inside List.not_mem_nil).1 rfl
  omega

theorem Separated.settable (separated : Separated function size keys asked) {front : List Int}
    (part : front ≠ [] → keys ≠ [])
    (inSlice : InSlice function size key) : (bitOf function front key).toNat < size := by
  by_cases filled : front = []
  · obtain ⟨h,within,_⟩ := inSlice
    rw [filled,bitOf_nil]
    exact Nat.lt_of_le_of_lt (Nat.zero_le h) within
  · have large := separated.two_le (part filled)
    have small := Bool.toNat_lt (bitOf function front key)
    omega

theorem Separated.second (separated : Separated function size keys asked) (inside : key ∈ keys)
    (hit : Hits function 0 key) :
    Second function keys := by
  obtain ⟨front,first,back,rfl,zero,none⟩ := first_hit ⟨key,inside,hit⟩
  obtain ⟨filled,_⟩ := separated.order front first back rfl zero none
  obtain ⟨a,front,rfl⟩ := List.exists_cons_of_ne_nil filled
  exact ⟨first,List.mem_append_right _ List.mem_cons_self,zero⟩

theorem Separated.contained (separated : Separated function size keys asked) (inside : key ∈ keys) :
    isSet function keys (bitOf function keys key).toNat = true := by
  rw [isSet,decide_eq_true_eq]
  cases bit : bitOf function keys key with
  | false => exact Or.inl ⟨rfl,List.ne_nil_of_mem inside⟩
  | true => exact Or.inr ⟨rfl,(bitOf_iff.mp bit).elim (fun zero => separated.second inside zero.1) And.right⟩

theorem Separated.same (separated : Separated function size keys asked) {front back : List Int}
    (cut : keys = front ++ key::back) :
    bitOf function front key = bitOf function keys key := by
  have inside : key ∈ keys := cut ▸ List.mem_append_right _ List.mem_cons_self
  rw [Bool.eq_iff_iff,bitOf_iff,bitOf_iff]
  by_cases zero : Hits function 0 key
  · have filled : front ≠ [] := by
      rintro rfl
      exact (separated.order [] key back cut zero fun _ inside => absurd inside List.not_mem_nil).1 rfl
    exact ⟨fun _ => Or.inl ⟨zero,List.ne_nil_of_mem inside⟩,fun _ => Or.inl ⟨zero,filled⟩⟩
  · have second : Hits function 1 key → (Second function front ↔ Second function keys) := by
      intro one
      constructor
      · rintro ⟨other,later,hit⟩
        have longer : other ∈ front := List.mem_of_mem_tail later
        exact separated.second (cut ▸ List.mem_append_left _ longer) hit
      · rintro ⟨other,later,hit⟩
        obtain ⟨before,first,rest,whole,hits,none⟩ := first_hit ⟨other,List.mem_of_mem_tail later,hit⟩
        obtain ⟨filled,apart⟩ := separated.order before first rest whole hits none
        rw [cut] at whole
        obtain ⟨middle,longer,same⟩ | ⟨middle,longer,same⟩ := List.append_eq_append_iff.mp whole
        · cases middle with
          | nil => exact absurd ((List.cons_eq_cons.mp same).1 ▸ hits) zero
          | cons b middle =>
            have member : key ∈ before := by
              rw [longer,(List.cons_eq_cons.mp same).1]
              exact List.mem_append_right _ List.mem_cons_self
            exact absurd one (apart key member)
        · cases middle with
          | nil => exact absurd ((List.cons_eq_cons.mp same).1 ▸ hits) zero
          | cons b middle =>
            obtain ⟨a,before,rfl⟩ := List.exists_cons_of_ne_nil filled
            refine ⟨first,?_,hits⟩
            rw [longer,(List.cons_eq_cons.mp same).1]
            exact List.mem_append_right _ List.mem_cons_self
    simp only [zero,false_and,false_or]
    exact and_congr_right second

theorem order_of_same (same : ∀ front key back,keys = front ++ key::back →
      bitOf function front key = bitOf function keys key)
    {front back : List Int} (cut : keys = front ++ key::back) (zero : Hits function 0 key)
    (none : ∀ earlier ∈ front,¬Hits function 0 earlier) : front ≠ [] ∧ ∀ earlier ∈ front,¬Hits function 1 earlier := by
  have inside : key ∈ keys := cut ▸ List.mem_append_right _ List.mem_cons_self
  have found : bitOf function keys key = true := bitOf_iff.mpr (Or.inl ⟨zero,List.ne_nil_of_mem inside⟩)
  have filled : front ≠ [] := by
    rintro rfl
    rw [← same [] key back cut,bitOf_nil] at found
    cases found
  have second : Second function keys := by
    obtain ⟨a,front,rfl⟩ := List.exists_cons_of_ne_nil filled
    rw [cut]
    exact ⟨key,List.mem_append_right _ List.mem_cons_self,zero⟩
  refine ⟨filled,fun earlier member one => ?_⟩
  obtain ⟨before,between,rfl⟩ := List.append_of_mem member
  have later : bitOf function keys earlier = true := bitOf_iff.mpr (Or.inr ⟨one,second⟩)
  rw [← same before earlier (between ++ key::back) (by rw [cut,List.append_assoc,List.cons_append]),bitOf_iff] at later
  rcases later with ⟨hit,_⟩ | ⟨_,other,tail,hit⟩
  · exact none earlier member hit
  · exact none other (List.mem_append_left _ (List.mem_of_mem_tail tail)) hit

end

section
variable {capacity : Int} {rate : Rate} {hashFunctions : List UniversalHashFunction}

theorem make_after (makes : MakesHashFunctions capacity rate hashFunctions) :
    After (make capacity rate hashFunctions) (make capacity rate hashFunctions) [] where
  capacity := rfl
  hashFunctions := rfl
  bitArrays := by
    have empty : (fun function => slice function (make capacity rate hashFunctions).numBitsPerSlice []) =
        fun _ => List.replicate (make capacity rate hashFunctions).numBitsPerSlice false := by
      ext1 function
      exact slice_nil
    rw [empty,List.map_const']
    have count : (make capacity rate hashFunctions).hashFunctions.length = kFromNp rate capacity := makes.length
    rw [count]
    rfl

/-- The filter is reliable for the keys exactly where their hashes are apart in each slice. -/
theorem reliable_iff (makes : MakesHashFunctions capacity rate hashFunctions) (keys asked : List Int) :
    (∃ final,Reliable (make capacity rate hashFunctions) final keys asked) ↔
      (keys ≠ [] → 0 < capacity) ∧ ∀ function ∈ hashFunctions,
        Separated function (make capacity rate hashFunctions).numBitsPerSlice keys asked := by
  have start := make_after makes
  have addable := start.addAll_iff keys
  constructor
  · rintro ⟨final,reliable⟩
    have after := start.addAll reliable.added
    have each := addable.mpr (Option.isSome_iff_exists.mpr ⟨final,reliable.added⟩)
    simp only [List.nil_append] at after each
    refine ⟨fun filled => ?_,fun function member => ⟨fun key inside => ?_,fun front key back cut zero none => ?_⟩⟩
    · obtain ⟨first,rest,rfl⟩ := List.exists_cons_of_ne_nil filled
      exact (each [] first rest rfl).capacity
    · rcases List.mem_append.mp inside with added | questioned
      · obtain ⟨front,back,cut⟩ := List.append_of_mem added
        exact (each front key back cut).inside function member
      · have answered := reliable.inside key questioned
        have kept : final.capacity = capacity := after.capacity
        rw [contains,kept] at answered
        by_cases zero : capacity = 0
        · have empty := makes.length
          rw [kFromNp,if_pos zero,List.length_eq_zero_iff] at empty
          rw [empty] at member
          cases member
        · rw [if_neg zero] at answered
          cases found : final.hashes key with
          | none =>
            rw [found] at answered
            cases answered
          | some hs => exact ((after.hashes hs).mp found).1 function member
    · refine order_of_same (fun front key back cut => ?_) cut zero none
      obtain ⟨before,added⟩ := Option.isSome_iff_exists.mp ((start.addAll_iff front).mp fun a b c part =>
        each a b (c ++ key::back) (by rw [cut,part,List.append_assoc,List.cons_append]))
      have within := (each front key back cut).inside
      have earlier := ((start.addAll added).hashes _).mpr ⟨within,rfl⟩
      rw [reliable.same front key back before cut added,(after.hashes _).mpr ⟨within,rfl⟩,Option.some.injEq] at earlier
      exact (List.map_inj_left.mp earlier function member).symm
  · rintro ⟨positive,separated⟩
    have each : ∀ front key back,keys = front ++ key::back → Addable (make capacity rate hashFunctions) front key := by
      intro front key back cut
      have inside : key ∈ keys := cut ▸ List.mem_append_right _ List.mem_cons_self
      have within : ∀ function ∈ hashFunctions,InSlice function
          (make capacity rate hashFunctions).numBitsPerSlice key :=
        fun function member => (separated function member).inside key (List.mem_append_left _ inside)
      exact ⟨positive (List.ne_nil_of_mem inside),within,fun function member =>
        (separated function member).settable (fun _ => List.ne_nil_of_mem inside) (within function member)⟩
    obtain ⟨final,added⟩ := Option.isSome_iff_exists.mp (addable.mp each)
    have after := start.addAll added
    rw [List.nil_append] at after
    have kept : final.capacity = capacity := after.capacity
    have answer : ∀ key ∈ keys ++ asked,capacity ≠ 0 → final.contains key =
        some (hashFunctions.all fun function => isSet function keys (bitOf function keys key).toNat) := by
      intro key member nonzero
      have within : ∀ function ∈ hashFunctions,InSlice function
          (make capacity rate hashFunctions).numBitsPerSlice key :=
        fun function inside => (separated function inside).inside key member
      have settable : ∀ function ∈ hashFunctions,(bitOf function keys key).toNat < (make capacity rate hashFunctions).numBitsPerSlice :=
        fun function inside => (separated function inside).settable id (within function inside)
      rw [contains,kept,if_neg nonzero,(after.hashes _).mpr ⟨within,rfl⟩,after.bitArrays]
      exact checkBits_slices hashFunctions settable
    refine ⟨final,added,fun key inside => ?_,fun key questioned => ?_,fun front key back before cut run => ?_⟩
    · have nonzero : capacity ≠ 0 := Int.ne_of_gt (positive (List.ne_nil_of_mem inside))
      rw [answer key (List.mem_append_left _ inside) nonzero,Option.some.injEq,List.all_eq_true]
      exact fun function member => (separated function member).contained inside
    · by_cases zero : capacity = 0
      · rw [contains,kept,if_pos zero]
        rfl
      · rw [answer key (List.mem_append_right _ questioned) zero]
        rfl
    · have within := (each front key back cut).inside
      rw [((start.addAll run).hashes _).mpr ⟨within,rfl⟩,(after.hashes _).mpr ⟨within,rfl⟩]
      exact congrArg some (List.map_congr_left fun function member => (separated function member).same cut)

end

section
/-- One slice of two bits, as for the capacity 1 at the rate 0.5. -/
def half : Rate := ⟨fun _ => 1,fun _ _ => 2⟩

/-- Two slices of two bits, as for the capacity 1 at the rate 0.25. -/
def quarter : Rate := ⟨fun _ => 2,fun _ _ => 2⟩

theorem half_makes : MakesHashFunctions 1 half [⟨1,0,2,3⟩] where
  length := rfl
  made := by
    have bins : mFromKo 1 2 = 2 := by decide +kernel
    intro function inside
    rw [List.mem_singleton.mp inside]
    change UniversalHashFunction.MadeFor (mFromKo 1 2) _
    rw [bins]
    exact ⟨by decide,rfl,⟨3,by decide,by decide,Int.le_refl 3,Nat.prime_three,fun q least _ => least⟩,
      by decide,by decide⟩

/-- A key at the second bit of the only slice. -/
theorem one_reliable : ∃ final,Reliable (make 1 half [⟨1,0,2,3⟩]) final [1] [4] := by
  refine (reliable_iff half_makes [1] [4]).mpr ⟨by decide,fun function member => ?_⟩
  rw [List.mem_singleton.mp member]
  refine ⟨fun key inside => ?_,fun front key back cut zero none => ?_⟩
  · simp only [List.singleton_append,List.mem_cons,List.not_mem_nil,or_false] at inside
    rcases inside with rfl | rfl
    · exact ⟨1,by decide,by decide +kernel⟩
    · exact ⟨1,by decide,by decide +kernel⟩
  · have only : key ∈ [1] := cut ▸ List.mem_append_right _ List.mem_cons_self
    rw [List.mem_singleton.mp only] at zero
    exact absurd zero (by decide +kernel)

/-- The only key added is not contained, a negative key is at no bit, and a hash lies behind its slice. -/
theorem key_lost :
    (((make 1 half [⟨1,0,2,3⟩]).addAll [3]).bind fun final => final.contains 3) = some false ∧
    ((make 1 half [⟨1,0,2,3⟩]).addAll [-1]).isNone ∧
    ((make 1 quarter [⟨1,0,4,5⟩,⟨1,0,4,5⟩]).addAll [3]).isNone ∧
    ¬∃ final,Reliable (make 1 half [⟨1,0,2,3⟩]) final [3] [] := by
  refine ⟨by decide +kernel,by decide +kernel,by decide +kernel,?_⟩
  rintro ⟨final,reliable⟩
  have lost : (((make 1 half [⟨1,0,2,3⟩]).addAll [3]).bind fun final => final.contains 3) =
      some false := by decide +kernel
  rw [reliable.added,Option.bind_some,reliable.contained 3 List.mem_cons_self] at lost
  cases lost

end
end Hermes.Bloom.SlicedBloomFilter
