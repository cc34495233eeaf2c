import Hermes.BeladyCachingPolicy
import Hermes.Library.Transition
import Mathlib.Data.List.Induction
import Mathlib.Data.List.Perm.Subperm
import Mathlib.Algebra.Order.Group.Nat

/-! The room that the segments of the Belady policy take, over the runs of its calls. -/
namespace Hermes.Cache
open Library.Fallible Library.Transition
variable {κ : Type} [DecidableEq κ] [ToString κ]

namespace BeladyCachingPolicy

/-- The calls of the policy, and those that set the query and make the decisions. -/
inductive Call (κ : Type) where
  | generateCacheDecisions (involved : BeladyCachingPolicyHelper.Involved κ) (iteration : List κ → List κ)
    (numQueries : Nat)
  | setCurrentQueryNum (queryNum : Nat)
  | onLoad (key : κ)
  | onStore (key : κ) (segmentSize : Nat)
  | onRemove (key : κ)
  | onToCache (segmentKeys : List κ)
  | onNewQuery

/-- The policy, and the segments that it has admitted and not given up. -/
structure Holding (κ : Type) where
  policy : BeladyCachingPolicy κ
  held : List (κ × Nat)

/-- A call that throws leaves all as it is. -/
def call (holding : Holding κ) : Call κ → Holding κ
  | .generateCacheDecisions involved iteration numQueries =>
    {holding with policy := {holding.policy with
      queryNumToKeysInCache := (generateCacheDecisions holding.policy.segmentSizeMap holding.policy.maxSize involved iteration
        numQueries holding.policy.queryNumToKeysInCache).1
      currentQueryNum := lastQueryNum holding.policy.segmentSizeMap holding.policy.maxSize involved iteration numQueries
        holding.policy.currentQueryNum}}
  | .setCurrentQueryNum queryNum => {holding with policy := {holding.policy with currentQueryNum := queryNum}}
  | .onStore key segmentSize =>
    match onStore holding.policy key segmentSize with
    | .ok (some removableKeys,policy) =>
      ⟨policy,insert key segmentSize (holding.held.filter fun segment => segment.1 ∉ removableKeys)⟩
    | .ok (none,policy) => ⟨policy,holding.held⟩
    | .error _ => holding
  | .onRemove key => ⟨onRemove holding.policy key,holding.held.filter fun segment => segment.1 ≠ key⟩
  | .onLoad _ => holding
  | .onToCache _ => holding
  | .onNewQuery => holding

def Step (holding : Holding κ) (label : Call κ) (next : Holding κ) : Prop := next = call holding label

def start (maxSize : Nat) (segmentSizeMap : κ → Option Nat) : Holding κ := ⟨make maxSize segmentSizeMap,[]⟩

def tableSize (segmentSizeMap : κ → Option Nat) (key : κ) : Nat := (segmentSizeMap key).getD 0

/-- A segment that is stored has the size of the table up to a hundredth of it. -/
def WithinOnePercent (segmentSizeMap : κ → Option Nat) : Call κ → Prop
  | .onStore key segmentSize =>
    100*((segmentSize : Int)-tableSize segmentSizeMap key).natAbs ≤ tableSize segmentSizeMap key
  | _ => True

/-- What a segment is stored with does not take the free size below zero. -/
def NoWrap (holding : Holding κ) : Call κ → Prop
  | .onStore key segmentSize => ∀ keysThatShouldBeCached,
    holding.policy.queryNumToKeysInCache.lookup holding.policy.currentQueryNum = some keysThatShouldBeCached →
    key ∈ keysThatShouldBeCached → segmentSize ≤ holding.policy.maxSize → holding.policy.freeSize ≤ segmentSize →
    segmentSize ≤ holding.policy.freeSize+total (removable keysThatShouldBeCached holding.policy.keysInCache)
  | _ => True

/-- No segment is stored that is there, and none is removed. -/
def Fresh (holding : Holding κ) : Call κ → Prop
  | .onStore key _ => key ∉ holding.policy.keysInCache.map Prod.fst
  | .onRemove _ => False
  | _ => True

section Decisions
variable {segmentSizeMap : κ → Option Nat} {maxSize : Nat} {involved : BeladyCachingPolicyHelper.Involved κ}
  {iteration : List κ → List κ}

theorem candidate_size {queryNum : Nat} {key : κ} {found : Candidate κ}
    (ok : candidate segmentSizeMap involved queryNum key = .ok found) :
    tableSize segmentSizeMap found.key = found.size := by
  rw [candidate,bind_eq_ok] at ok
  obtain ⟨size,sized,ok⟩ := ok
  obtain ⟨nextUse,_,done⟩ := bind_eq_ok.mp ok
  rw [← Except.ok.inj done,tableSize]
  rw [getSegmentSize] at sized
  cases known : segmentSizeMap key with
  | none =>
    rw [known] at sized
    cases sized
  | some other =>
    rw [known] at sized
    exact Except.ok.inj sized

omit [DecidableEq κ] [ToString κ] in
theorem keysToKeep_sum {candidates : List (Candidate κ)}
    (sized : ∀ candidate ∈ candidates,tableSize segmentSizeMap candidate.key = candidate.size)
    (remainingCacheSize : Nat) :
    ((keysToKeep remainingCacheSize candidates).map (tableSize segmentSizeMap)).sum ≤ remainingCacheSize := by
  induction candidates generalizing remainingCacheSize with
  | nil => exact Nat.zero_le _
  | cons candidate candidates ih =>
    rw [List.forall_mem_cons] at sized
    rw [keysToKeep]
    split
    · rename_i room
      have later := ih sized.2 (remainingCacheSize-candidate.size)
      rw [List.map_cons,List.sum_cons,sized.1]
      omega
    · exact ih sized.2 remainingCacheSize

theorem decideQuery_sum {queryNum : Nat} {keysInCache keys : List κ}
    (ok : decideQuery segmentSizeMap maxSize involved iteration queryNum keysInCache = .ok keys) :
    (keys.map (tableSize segmentSizeMap)).sum ≤ plannedSize maxSize := by
  rw [decideQuery,bind_eq_ok] at ok
  obtain ⟨_,_,ok⟩ := ok
  obtain ⟨candidates,found,done⟩ := bind_eq_ok.mp ok
  rw [← Except.ok.inj done]
  refine keysToKeep_sum (fun candidate inside => ?_) _
  rw [ordered,List.mem_reverse,List.mem_insertionSort] at inside
  obtain ⟨_,_,read⟩ := forall₂_mem_right (mapM_eq_ok.mp found) candidate inside
  exact candidate_size read

theorem decideQueries_sum (numQueries queryNum : Nat) (keysInCache : List κ) :
    ∀ decision ∈ (decideQueries segmentSizeMap maxSize involved iteration numQueries queryNum keysInCache).1,
      (decision.2.map (tableSize segmentSizeMap)).sum ≤ plannedSize maxSize := by
  induction numQueries generalizing queryNum keysInCache with
  | zero => exact fun _ inside => absurd inside List.not_mem_nil
  | succ numQueries ih =>
    rw [decideQueries]
    cases decided : decideQuery segmentSizeMap maxSize involved iteration queryNum keysInCache with
    | error error => exact fun _ inside => absurd inside List.not_mem_nil
    | ok keys => exact List.forall_mem_cons.mpr ⟨decideQuery_sum decided,ih (queryNum+1) keys⟩

end Decisions

section Segments
variable {segments : List (κ × Nat)} {key : κ} {size : Nat} {keys : List κ}

omit [ToString κ] in
theorem total_insert_le : total (insert key size segments) ≤ size+total segments := by
  rw [insert]
  split
  · exact Nat.le_add_left _ _
  · exact Nat.le_refl _

omit [ToString κ] in
theorem insert_new (absent : key ∉ segments.map Prod.fst) : insert key size segments = (key,size)::segments :=
    if_neg absent

omit [ToString κ] in
theorem nodup_insert (distinct : (segments.map Prod.fst).Nodup) : ((insert key size segments).map Prod.fst).Nodup := by
  rw [insert]
  split
  · exact distinct
  · rename_i absent
    exact List.nodup_cons.mpr ⟨absent,distinct⟩

omit [ToString κ] in
theorem mem_insert {segment : κ × Nat} (inside : segment ∈ insert key size segments) : segment = (key,size) ∨
    segment ∈ segments := by
  rw [insert] at inside
  split at inside
  · exact Or.inr inside
  · exact List.mem_cons.mp inside

omit [ToString κ] in
theorem total_removable : total (removable keys segments)+total (segments.filter fun segment => segment.1 ∈ keys) =
    total segments := by
  induction segments with
  | nil => rfl
  | cons segment segments ih =>
    simp only [removable,total] at ih ⊢
    by_cases inside : segment.1 ∈ keys
    · rw [List.filter_cons_of_neg (by simp [inside]),List.filter_cons_of_pos (by simp [inside])]
      simp only [List.map_cons,List.sum_cons]
      omega
    · rw [List.filter_cons_of_pos (by simp [inside]),List.filter_cons_of_neg (by simp [inside])]
      simp only [List.map_cons,List.sum_cons]
      omega

omit [ToString κ] in
theorem filter_removable : (segments.filter fun segment => segment.1 ∉ (removable keys segments).map Prod.fst) =
    segments.filter fun segment => segment.1 ∈ keys := by
  refine List.filter_congr fun segment inside => decide_eq_decide.mpr ?_
  rw [← not_iff_not,not_not,List.mem_map]
  constructor
  · rintro ⟨other,removed,same⟩
    rw [← same]
    exact of_decide_eq_true (List.mem_filter.mp removed).2
  · exact fun absent => ⟨segment,List.mem_filter.mpr ⟨inside,decide_eq_true absent⟩,rfl⟩

omit [DecidableEq κ] [ToString κ] in
theorem tableSize_sum_le {segmentSizeMap : κ → Option Nat} {some all : List κ} (distinct : some.Nodup)
    (inside : some ⊆ all) :
    (some.map (tableSize segmentSizeMap)).sum ≤ (all.map (tableSize segmentSizeMap)).sum := by
  obtain ⟨middle,order,sublist⟩ := List.Nodup.subperm distinct inside
  rw [← (order.map _).sum_eq]
  exact (sublist.map _).sum_le_sum fun _ _ => Nat.zero_le _

omit [DecidableEq κ] [ToString κ] in
theorem total_le_tableSize {segmentSizeMap : κ → Option Nat}
    (tolerated : ∀ segment ∈ segments,99*segment.2 ≤ 100*tableSize segmentSizeMap segment.1) :
    99*total segments ≤ 100*((segments.map Prod.fst).map (tableSize segmentSizeMap)).sum := by
  induction segments with
  | nil => exact Nat.le_refl 0
  | cons segment segments ih =>
    rw [List.forall_mem_cons] at tolerated
    have here := tolerated.1
    have later := ih tolerated.2
    simp only [total,List.map_cons,List.sum_cons] at later ⊢
    omega

end Segments

section Store
variable {policy next : BeladyCachingPolicy κ} {key : κ} {segmentSize : Nat} {keys : List κ}

theorem onStore_cases {result : Option (List κ)} (ok : onStore policy key segmentSize = .ok (result,next)) :
    (result = none ∧ next = policy) ∨ ∃ keys,policy.queryNumToKeysInCache.lookup policy.currentQueryNum = some keys ∧
      key ∈ keys ∧ segmentSize ≤ policy.maxSize ∧ result = some (bringIn policy keys key segmentSize).1 ∧
      next = (bringIn policy keys key segmentSize).2 := by
  rw [onStore,bind_eq_ok] at ok
  obtain ⟨preComputedSize,_,ok⟩ := ok
  split at ok
  · cases ok
  · split at ok
    · cases ok
      exact Or.inl ⟨rfl,rfl⟩
    · rename_i bounded
      split at ok
      · cases ok
      · rename_i keys decided
        split at ok
        · rename_i inside
          cases ok
          exact Or.inr ⟨keys,decided,inside,Nat.le_of_not_lt bounded,rfl,rfl⟩
        · cases ok
          exact Or.inl ⟨rfl,rfl⟩

omit [ToString κ] in
theorem bringIn_spec (small : policy.freeSize+total policy.keysInCache < 2^64)
    (fits : policy.freeSize ≤ segmentSize → segmentSize ≤ policy.freeSize+total (removable keys policy.keysInCache)) :
    ∃ removed kept freeSize,bringIn policy keys key segmentSize =
        (removed,{policy with keysInCache := insert key segmentSize kept,freeSize := freeSize}) ∧
      kept = (policy.keysInCache.filter fun segment => segment.1 ∉ removed) ∧
        removed ⊆ policy.keysInCache.map Prod.fst ∧
      freeSize+segmentSize+total kept = policy.freeSize+total policy.keysInCache := by
  rw [bringIn]
  split
  · rename_i room
    refine ⟨[],policy.keysInCache,policy.freeSize-segmentSize,rfl,?_,List.nil_subset _,?_⟩
    · exact (List.filter_eq_self.mpr fun segment _ => decide_eq_true List.not_mem_nil).symm
    · omega
  · rename_i full
    have fits := fits (Nat.le_of_not_lt full)
    have parts := @total_removable κ _ policy.keysInCache keys
    have added : (policy.freeSize+total (removable keys policy.keysInCache)) % 2^64 =
        policy.freeSize+total (removable keys policy.keysInCache) := Nat.mod_eq_of_lt (by omega)
    have taken : (policy.freeSize+total (removable keys policy.keysInCache)+(2^64-segmentSize)) % 2^64 =
        policy.freeSize+total (removable keys policy.keysInCache)-segmentSize := by omega
    refine ⟨_,policy.keysInCache.filter fun segment => segment.1 ∉ (removable keys policy.keysInCache).map Prod.fst,
      policy.freeSize+total (removable keys policy.keysInCache)-segmentSize,?_,rfl,?_,?_⟩
    · dsimp only
      rw [added,taken]
    · exact List.map_subset _ fun _ => List.mem_of_mem_filter
    · rw [filter_removable]
      omega

end Store

section Runs
variable {maxSize : Nat} {segmentSizeMap : κ → Option Nat} {holding : Holding κ} {label : Call κ}

/-- What holds in every state, whatever the free size is. -/
structure Planned (maxSize : Nat) (segmentSizeMap : κ → Option Nat) (holding : Holding κ) : Prop where
  sameMaxSize : holding.policy.maxSize = maxSize
  sameSizes : holding.policy.segmentSizeMap = segmentSizeMap
  held : holding.held = holding.policy.keysInCache
  planned : ∀ decision ∈ holding.policy.queryNumToKeysInCache,
    (decision.2.map (tableSize segmentSizeMap)).sum ≤ plannedSize maxSize
  distinct : (holding.policy.keysInCache.map Prod.fst).Nodup
  tolerated : ∀ segment ∈ holding.policy.keysInCache,99*segment.2 ≤ 100*tableSize segmentSizeMap segment.1
  room : holding.policy.freeSize+total holding.policy.keysInCache ≤ maxSize

omit [DecidableEq κ] [ToString κ] in
theorem planned_start : Planned maxSize segmentSizeMap (start maxSize segmentSizeMap) where
  sameMaxSize := rfl
  sameSizes := rfl
  held := rfl
  planned := fun _ inside => absurd inside List.not_mem_nil
  distinct := List.nodup_nil
  tolerated := fun _ inside => absurd inside List.not_mem_nil
  room := Nat.le_refl _

omit [DecidableEq κ] [ToString κ] in
theorem tolerated_of_within {key : κ} {segmentSize : Nat}
    (within : WithinOnePercent segmentSizeMap (.onStore key segmentSize)) :
    99*segmentSize ≤ 100*tableSize segmentSizeMap key := by
  rw [WithinOnePercent] at within
  omega

theorem call_onStore {key : κ} {segmentSize : Nat} (small : maxSize < 2^64)
    (planned : Planned maxSize segmentSizeMap holding) (noWrap : NoWrap holding (.onStore key segmentSize)) :
    call holding (.onStore key segmentSize) = holding ∨ ∃ (removed : List κ) (kept : List (κ × Nat)) (freeSize : Nat),
      call holding (.onStore key segmentSize) = ⟨{holding.policy with
        keysInCache := insert key segmentSize kept,freeSize := freeSize},insert key segmentSize kept⟩ ∧
      kept = (holding.policy.keysInCache.filter fun segment => segment.1 ∉ removed) ∧
      freeSize+segmentSize+total kept = holding.policy.freeSize+total holding.policy.keysInCache := by
  rw [call]
  cases stored : onStore holding.policy key segmentSize with
  | error error => exact Or.inl rfl
  | ok outcome =>
    obtain ⟨result,next⟩ := outcome
    rcases onStore_cases stored with ⟨rfl,rfl⟩ | ⟨keys,decided,inside,bounded,rfl,rfl⟩
    · exact Or.inl rfl
    · obtain ⟨removed,kept,freeSize,same,keeps,_,sizes⟩ := bringIn_spec
        (Nat.lt_of_le_of_lt planned.room small) (noWrap keys decided inside bounded)
      refine Or.inr ⟨removed,kept,freeSize,?_,keeps,sizes⟩
      rw [same,planned.held,keeps]

theorem call_planned (small : maxSize < 2^64) (planned : Planned maxSize segmentSizeMap holding)
    (within : WithinOnePercent segmentSizeMap label) (noWrap : NoWrap holding label) :
    Planned maxSize segmentSizeMap (call holding label) := by
  cases label with
  | generateCacheDecisions involved iteration numQueries =>
    refine {planned with planned := ?_}
    intro decision inside
    have decided := @decideQueries_sum κ _ _ segmentSizeMap maxSize involved iteration numQueries 1 []
    rw [← planned.sameMaxSize,← planned.sameSizes] at decided ⊢
    rcases List.mem_append.mp inside with before | generated
    · have := planned.planned decision before
      rwa [← planned.sameMaxSize,← planned.sameSizes] at this
    · exact decided decision generated
  | setCurrentQueryNum queryNum => exact {planned with}
  | onLoad key => exact planned
  | onStore key segmentSize =>
    rcases call_onStore small planned noWrap with same | ⟨removed,kept,freeSize,same,keeps,sizes⟩
    · rw [same]
      exact planned
    · rw [same]
      have sublist : kept.Sublist holding.policy.keysInCache := keeps ▸ List.filter_sublist
      refine {planned with held := rfl,distinct := ?_,tolerated := ?_,room := ?_}
      · exact nodup_insert (planned.distinct.sublist (sublist.map _))
      · intro segment inside
        rcases mem_insert inside with rfl | before
        · exact tolerated_of_within within
        · exact planned.tolerated segment (sublist.subset before)
      · have added := @total_insert_le κ _ kept key segmentSize
        have room := planned.room
        dsimp only
        omega
  | onRemove key =>
    have sublist : (holding.policy.keysInCache.filter fun segment => segment.1 ≠ key).Sublist holding.policy.keysInCache :=
      List.filter_sublist
    refine {planned with held := ?_,distinct := ?_,tolerated := ?_,room := ?_}
    · exact congrArg (List.filter _) planned.held
    · exact planned.distinct.sublist (sublist.map _)
    · exact fun segment inside => planned.tolerated segment (sublist.subset inside)
    · have less : total (holding.policy.keysInCache.filter fun segment => segment.1 ≠ key) ≤ total holding.policy.keysInCache :=
        (sublist.map _).sum_le_sum fun _ _ => Nat.zero_le _
      exact (Nat.add_le_add_left less _).trans planned.room
  | onToCache segmentKeys => exact planned
  | onNewQuery => exact planned

/-- Where no segment is stored twice and none is removed, the free size is what the segments leave of the whole. -/
def Exact (maxSize : Nat) (holding : Holding κ) : Prop :=
    holding.policy.freeSize+total holding.policy.keysInCache = maxSize

omit [ToString κ] in
theorem noWrap_of_fresh (planned : Planned maxSize segmentSizeMap holding) (whole : Exact maxSize holding)
    (within : WithinOnePercent segmentSizeMap label) (fresh : Fresh holding label) : NoWrap holding label := by
  cases label with
  | onStore key segmentSize =>
    intro keys decided inside _ _
    have distinct : (key::(holding.policy.keysInCache.filter fun segment => segment.1 ∈ keys).map Prod.fst).Nodup := by
      refine List.nodup_cons.mpr ⟨fun held => fresh ?_,planned.distinct.sublist (List.filter_sublist.map _)⟩
      exact List.map_subset _ (fun _ => List.mem_of_mem_filter) held
    have named : key::(holding.policy.keysInCache.filter fun segment => segment.1 ∈ keys).map Prod.fst ⊆ keys := by
      refine List.cons_subset.mpr ⟨inside,fun other held => ?_⟩
      obtain ⟨segment,kept,rfl⟩ := List.mem_map.mp held
      exact of_decide_eq_true (List.mem_filter.mp kept).2
    obtain ⟨earlier,later,decisions,_⟩ := List.lookup_eq_some_iff.mp decided
    have decision := planned.planned (_,keys) (decisions ▸ List.mem_append_right _ List.mem_cons_self)
    have sizes := (@tableSize_sum_le κ segmentSizeMap _ _ distinct named).trans decision
    have tolerated := @total_le_tableSize κ (holding.policy.keysInCache.filter fun segment => segment.1 ∈ keys) segmentSizeMap
      fun segment kept => planned.tolerated segment (List.mem_of_mem_filter kept)
    have stored := tolerated_of_within within
    have parts := @total_removable κ _ holding.policy.keysInCache keys
    rw [List.map_cons,List.sum_cons,plannedSize] at sizes
    rw [Exact] at whole
    omega
  | _ => trivial

theorem call_exact (small : maxSize < 2^64) (planned : Planned maxSize segmentSizeMap holding)
    (whole : Exact maxSize holding)
    (fresh : Fresh holding label) (noWrap : NoWrap holding label) : Exact maxSize (call holding label) := by
  cases label with
  | onStore key segmentSize =>
    rcases call_onStore small planned noWrap with same | ⟨removed,kept,freeSize,same,keeps,sizes⟩
    · rw [same]
      exact whole
    · have absent : key ∉ kept.map Prod.fst := fun held => fresh
        (List.map_subset _ (keeps ▸ fun _ => List.mem_of_mem_filter) held)
      rw [same,Exact]
      dsimp only
      rw [insert_new absent]
      rw [Exact] at whole
      simp only [total,List.map_cons,List.sum_cons] at sizes whole ⊢
      omega
  | onRemove key => exact absurd fresh id
  | _ => exact whole

theorem run_calls {condition : Call κ → Prop} {first : Holding κ} (calls : List (Call κ))
    (meets : ∀ label ∈ calls,condition label) :
    Run (Meeting (fun _ => condition) Step) first calls (calls.foldl call first) := by
  induction calls using List.reverseRecOn with
  | nil => exact Run.nil
  | append_singleton calls label ih =>
    rw [List.foldl_append]
    refine (ih fun other inside => meets other (List.mem_append_left _ inside)).meet label ?_ rfl
    exact meets label (List.mem_append_right _ List.mem_cons_self)

theorem run_planned (small : maxSize < 2^64) {calls : List (Call κ)}
    (run : Run (Meeting (fun holding label => WithinOnePercent segmentSizeMap label ∧ NoWrap holding label) Step)
      (start maxSize segmentSizeMap) calls holding) : Planned maxSize segmentSizeMap holding := by
  refine run.invariant (Planned maxSize segmentSizeMap) planned_start ?_
  rintro holding label _ planned ⟨⟨within,noWrap⟩,rfl⟩
  exact call_planned small planned within noWrap

theorem removed_subset {key : κ} {segmentSize : Nat} {removed : List κ} {next : BeladyCachingPolicy κ}
    (stored : onStore holding.policy key segmentSize = .ok (some removed,next)) :
    removed ⊆ holding.policy.keysInCache.map Prod.fst := by
  rcases onStore_cases stored with ⟨wrong,_⟩ | ⟨keys,_,_,_,same,_⟩
  · cases wrong
  · rw [Option.some.inj same,bringIn]
    split
    · exact List.nil_subset _
    · exact List.map_subset _ fun _ => List.mem_of_mem_filter

theorem belady_fits (small : maxSize < 2^64) :
    (∀ (involved : BeladyCachingPolicyHelper.Involved κ) (iteration : List κ → List κ) (numQueries : Nat),
        ∀ decision ∈ (generateCacheDecisions segmentSizeMap maxSize involved iteration numQueries []).1,
          (decision.2.map (tableSize segmentSizeMap)).sum ≤ maxSize) ∧
      (∀ (calls : List (Call κ)) (holding : Holding κ),
        Run (Meeting (fun holding label => WithinOnePercent segmentSizeMap label ∧ NoWrap holding label) Step)
          (start maxSize segmentSizeMap) calls holding →
        total holding.held ≤ maxSize ∧ ∀ key segmentSize removed next,
          onStore holding.policy key segmentSize = .ok (some removed,next) → removed ⊆ holding.held.map Prod.fst) ∧
      (∀ (calls : List (Call κ)) (holding : Holding κ),
        Run (Meeting (fun holding label => WithinOnePercent segmentSizeMap label ∧ Fresh holding label) Step)
          (start maxSize segmentSizeMap) calls holding →
        Run (Meeting (fun holding label => WithinOnePercent segmentSizeMap label ∧ NoWrap holding label) Step)
          (start maxSize segmentSizeMap) calls holding) := by
  refine ⟨?_,?_,?_⟩
  · intro involved iteration numQueries decision inside
    have planned := decideQueries_sum numQueries 1 [] decision inside
    rw [plannedSize] at planned
    omega
  · intro calls holding run
    have planned := run_planned small run
    rw [planned.held]
    exact ⟨(Nat.le_add_left _ _).trans planned.room,fun _ _ _ _ stored => removed_subset stored⟩
  · intro calls holding run
    suffices both : Exact maxSize holding ∧
        Run (Meeting (fun holding label => WithinOnePercent segmentSizeMap label ∧ NoWrap holding label) Step)
          (start maxSize segmentSizeMap) calls holding from both.2
    induction run with
    | nil => exact ⟨rfl,Run.nil⟩
    | snoc _ step ih =>
      obtain ⟨whole,before⟩ := ih
      obtain ⟨⟨within,fresh⟩,rfl⟩ := step
      have planned := run_planned small before
      have noWrap := noWrap_of_fresh planned whole within fresh
      exact ⟨call_exact small planned whole fresh noWrap,before.meet _ ⟨within,noWrap⟩ rfl⟩

end Runs

/-- The queries of two segments, one used by the first two, the other by the second and third. -/
def twoSegments : BeladyCachingPolicyHelper.Involved String := [(1,"k"),(2,"k"),(2,"m"),(3,"m")]

def twoSizes (key : String) : Option Nat := if key = "k" then some 60 else if key = "m" then some 90 else none

theorem second_replaces_first :
    total ([Call.generateCacheDecisions twoSegments id 2,.setCurrentQueryNum 1,.onStore "k" 60,
    .setCurrentQueryNum 2,.onStore "m" 90].foldl call (start 100 twoSizes)).held ≤ 100 := by
  have fits := @belady_fits String _ _ 100 twoSizes (by decide)
  have generated := @Run.nil _ _ (Meeting (fun holding label => WithinOnePercent twoSizes label ∧
      Fresh holding label) Step) (start 100 twoSizes)
  have ready := (generated.meet (.generateCacheDecisions twoSegments id 2) ⟨trivial,trivial⟩ rfl).meet
      (.setCurrentQueryNum 1)
    ⟨trivial,trivial⟩ rfl
  have stored := ready.meet (.onStore "k" 60) ⟨by rw [WithinOnePercent]; decide,by rw [Fresh]; decide⟩ rfl
  have replaced := (stored.meet (.setCurrentQueryNum 2) ⟨trivial,trivial⟩ rfl).meet (.onStore "m" 90)
    ⟨by rw [WithinOnePercent]; decide,by rw [Fresh]; decide⟩ rfl
  exact (fits.2.1 _ _ (fits.2.2 _ _ replaced)).1

/-- A segment that is stored twice takes the free size below zero, and the next one is stored without a removal. -/
theorem stored_twice : ∃ calls holding,
    Run (Meeting (fun _ => WithinOnePercent twoSizes) Step) (start 100 twoSizes) calls holding ∧
    total holding.held = 150 := by
  refine ⟨[.generateCacheDecisions twoSegments id 2,.setCurrentQueryNum 1,.onStore "k" 60,.onStore "k" 60,
    .setCurrentQueryNum 2,.onStore "m" 90],_,run_calls _ ?_,?_⟩
  · simp only [List.forall_mem_cons,WithinOnePercent]
    exact ⟨trivial,trivial,by decide,by decide,trivial,by decide,fun _ inside => absurd inside List.not_mem_nil⟩
  · rfl

end BeladyCachingPolicy
end Hermes.Cache
