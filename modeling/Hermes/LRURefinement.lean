import Hermes.LRUCachingPolicy
import Mathlib.Data.List.TakeWhile

/-! The segment cache with the LRU policy, over the runs of its loads and stores, and the cache
that gives up what was used least recently. -/
namespace Hermes.Cache
open Library.RecentUse Library.Transition
variable {κ δ : Type} [DecidableEq κ] [ToString κ]

namespace QueueNode

def entry (node : QueueNode κ) : κ × Nat := (node.key,node.size)

end QueueNode

namespace SegmentCache

inductive Event (κ δ : Type) where
  | load (key : κ) (result : Except String δ)
  | store (key : κ) (segmentSize : Nat) (data : δ) (removableKeys : Option (List κ))

def Event.use : Event κ δ → Use κ
  | .load key _ => .load key
  | .store key segmentSize _ removableKeys => .store key segmentSize removableKeys

def Step (cache : SegmentCache κ δ) : Event κ δ → SegmentCache κ δ → Prop
  | .load key result,next => cache.load key = some (result,next)
  | .store key segmentSize data removableKeys,next => cache.store key segmentSize data = some (removableKeys,next)

/-- A segment that is stored is not there, or goes before there is room for it. -/
def Leaves (cache : SegmentCache κ δ) : Event κ δ → Prop
  | .load _ _ => True
  | .store key segmentSize _ _ =>
    let usageQueue := cache.cachingPolicy.usageQueue
    key ∈ usageQueue.map QueueNode.key →
      cache.cachingPolicy.freeSize+LRUCachingPolicy.size
        (usageQueue.takeWhile fun node => decide (node.key ≠ key)) < segmentSize

/-- Queue, index and map say what the entries say. -/
structure Represents (maxSize : Nat) (cache : SegmentCache κ δ) (entries : Entries κ) : Prop where
  maxSize_eq : cache.cachingPolicy.maxSize = maxSize
  order : cache.cachingPolicy.usageQueue.map QueueNode.entry = entries
  once : (cache.cachingPolicy.usageQueue.map QueueNode.key).Nodup
  nodes : (cache.cachingPolicy.usageQueue.map QueueNode.node).Nodup
  fresh : ∀ node ∈ cache.cachingPolicy.usageQueue, node.node < cache.cachingPolicy.nodes
  indexed : ∀ key number, cache.cachingPolicy.keyIndexMap key = some number ↔
    ∃ node ∈ cache.cachingPolicy.usageQueue, node.key = key ∧ node.node = number
  room : cache.cachingPolicy.freeSize+LRUCachingPolicy.size cache.cachingPolicy.usageQueue = maxSize
  held : ∀ key, (cache.map key).isSome = true ↔ key ∈ cache.cachingPolicy.usageQueue.map QueueNode.key

end SegmentCache

namespace LRUCachingPolicy
variable {maxSize segmentSize : Nat}

omit [DecidableEq κ] [ToString κ] in
theorem size_entries (usageQueue : List (QueueNode κ)) : total (usageQueue.map QueueNode.entry) = size usageQueue := by
  rw [total,List.map_map,size]
  rfl

omit [DecidableEq κ] [ToString κ] in
theorem size_append (first second : List (QueueNode κ)) : size (first ++ second) = size first+size second := by
  rw [size,List.map_append,List.sum_append,size,size]

omit [ToString κ] in
theorem makeRoom_eq (fits : segmentSize ≤ maxSize) {usageQueue : List (QueueNode κ)} {freeSize : Nat}
    (room : freeSize+size usageQueue = maxSize) (keyIndexMap : κ → Option Nat) :
    ∃ gone kept, usageQueue = gone ++ kept ∧
      fit (maxSize-segmentSize) (usageQueue.map QueueNode.entry) = (gone.map QueueNode.entry,kept.map QueueNode.entry) ∧
      makeRoom segmentSize usageQueue freeSize keyIndexMap = some (gone.map QueueNode.key,kept,freeSize+size gone,
        fun key => if key ∈ gone.map QueueNode.key then none else keyIndexMap key) := by
  induction usageQueue generalizing freeSize keyIndexMap with
  | nil =>
    refine ⟨[],[],rfl,rfl,?_⟩
    have enough : ¬ freeSize < segmentSize := by
      change freeSize+0 = maxSize at room
      omega
    rw [makeRoom,if_neg enough]
    rfl
  | cons node usageQueue ih =>
    have sizes : size (node::usageQueue) = node.size+size usageQueue := rfl
    rw [List.map_cons,fit,makeRoom]
    have whole : total (node.entry::usageQueue.map QueueNode.entry) = node.size+size usageQueue :=
        size_entries (node::usageQueue)
    rw [whole]
    by_cases less : freeSize < segmentSize
    · have large : ¬ node.size+size usageQueue ≤ maxSize-segmentSize := by omega
      have more : freeSize+node.size+size usageQueue = maxSize := by omega
      obtain ⟨gone,kept,rfl,fitted,made⟩ := ih more (Function.update keyIndexMap node.key none)
      refine ⟨node::gone,kept,rfl,?_,?_⟩
      · rw [if_neg large,fitted]
        rfl
      · have index : (fun key => if key ∈ gone.map QueueNode.key then none else Function.update keyIndexMap node.key none key) =
            fun key => if key ∈ (node::gone).map QueueNode.key then none else keyIndexMap key := by
          funext key
          by_cases same : key = node.key
          · simp [same]
          · simp [same]
        rw [if_pos less,made,Option.map_some,index,Nat.add_assoc]
        rfl
    · have within : node.size+size usageQueue ≤ maxSize-segmentSize := by omega
      refine ⟨[],node::usageQueue,rfl,?_,?_⟩
      · rw [if_pos within]
        rfl
      · rw [if_neg less]
        rfl

omit [ToString κ] in
theorem not_kept {gone kept : List (QueueNode κ)} {freeSize : Nat} {key : κ}
    (once : ((gone ++ kept).map QueueNode.key).Nodup)
    (enough : segmentSize ≤ freeSize+size gone)
    (leaves : key ∈ (gone ++ kept).map QueueNode.key →
      freeSize+size ((gone ++ kept).takeWhile fun node => decide (node.key ≠ key)) < segmentSize) :
    key ∉ kept.map QueueNode.key := by
  intro stays
  rw [List.map_append] at once leaves
  have apart : ∀ node ∈ gone, decide (node.key ≠ key) = true := by
    intro node inside
    exact decide_eq_true ((List.nodup_append.mp once).2.2 _ (List.mem_map_of_mem inside) key stays)
  have less := leaves (List.mem_append_right _ stays)
  rw [List.takeWhile_append_of_pos apart,size_append] at less
  omega

omit [ToString κ] in
theorem emplace_indexed {keyIndexMap : κ → Option Nat} {gone kept : List (QueueNode κ)} {key : κ}
    (once : ((gone ++ kept).map QueueNode.key).Nodup)
    (indexed : ∀ other number, keyIndexMap other = some number ↔ ∃ node ∈ gone ++ kept, node.key = other ∧
      node.node = number)
    (absent : key ∉ kept.map QueueNode.key) (node segmentSize : Nat) (other : κ) (number : Nat) :
    emplace (fun other => if other ∈ gone.map QueueNode.key then none else keyIndexMap other) key node other =
    some number ↔
      ∃ found ∈ kept ++ [(⟨node,key,segmentSize⟩ : QueueNode κ)], found.key = other ∧ found.node = number := by
  rw [List.map_append] at once
  have vacant : (if key ∈ gone.map QueueNode.key then none else keyIndexMap key) = none := by
    split
    · rfl
    · rename_i stays
      by_contra there
      obtain ⟨number,found⟩ := Option.ne_none_iff_exists'.mp there
      obtain ⟨other,inside,rfl,_⟩ := (indexed key number).mp found
      rcases List.mem_append.mp inside with went | kept
      · exact stays (List.mem_map_of_mem went)
      · exact absent (List.mem_map_of_mem kept)
  rw [emplace,vacant,if_neg (by decide)]
  by_cases same : other = key
  · subst same
    rw [Function.update_self]
    constructor
    · rintro ⟨rfl⟩
      exact ⟨_,List.mem_append_right _ (List.mem_singleton_self _),rfl,rfl⟩
    · rintro ⟨found,inside,named,rfl⟩
      rcases List.mem_append.mp inside with kept | last
      · exact absurd (named ▸ List.mem_map_of_mem kept) absent
      · rw [List.mem_singleton.mp last]
  · rw [Function.update_of_ne same]
    constructor
    · intro there
      split at there
      · cases there
      · rename_i stays
        obtain ⟨found,inside,rfl,rfl⟩ := (indexed other number).mp there
        rcases List.mem_append.mp inside with went | kept
        · exact absurd (List.mem_map_of_mem went) stays
        · exact ⟨found,List.mem_append_left _ kept,rfl,rfl⟩
    · rintro ⟨found,inside,rfl,rfl⟩
      rcases List.mem_append.mp inside with kept | last
      · rw [if_neg fun went => (List.nodup_append.mp once).2.2 _ went _ (List.mem_map_of_mem kept) rfl]
        exact (indexed _ _).mpr ⟨found,List.mem_append_right _ kept,rfl,rfl⟩
      · rw [List.mem_singleton.mp last] at same
        exact absurd rfl same

end LRUCachingPolicy

namespace SegmentCache
variable {maxSize : Nat} {cache next : SegmentCache κ δ} {entries : Entries κ}

omit [DecidableEq κ] [ToString κ] in
theorem represents_start : Represents maxSize (make maxSize : SegmentCache κ δ) [] := by
  refine ⟨rfl,rfl,List.nodup_nil,List.nodup_nil,nofun,?_,rfl,?_⟩
  · intro key number
    exact ⟨nofun,fun ⟨_,inside,_⟩ => absurd inside List.not_mem_nil⟩
  · intro key
    exact ⟨nofun,fun inside => absurd inside List.not_mem_nil⟩

omit [ToString κ] in
theorem store_held {map : κ → Option δ} {gone kept : List (QueueNode κ)} {key : κ}
    (once : ((gone ++ kept).map QueueNode.key).Nodup)
    (held : ∀ other, (map other).isSome = true ↔ other ∈ (gone ++ kept).map QueueNode.key)
    (absent : key ∉ kept.map QueueNode.key) (node segmentSize : Nat) (data : δ) (other : κ) :
    let erased := fun other => if other ∈ gone.map QueueNode.key then none else map other
    ((if (erased key).isSome then erased else Function.update erased key (some data)) other).isSome = true ↔
      other ∈ (kept ++ [(⟨node,key,segmentSize⟩ : QueueNode κ)]).map QueueNode.key := by
  intro erased
  rw [List.map_append] at once held ⊢
  rw [List.mem_append,List.map_singleton,List.mem_singleton]
  have stays : ∀ other, (erased other).isSome = true ↔ other ∈ kept.map QueueNode.key := by
    intro other
    by_cases went : other ∈ gone.map QueueNode.key
    · have apart : other ∉ kept.map QueueNode.key := fun inside => (List.nodup_append.mp once).2.2 _ went _ inside rfl
      simp only [erased,if_pos went]
      exact ⟨nofun,fun inside => absurd inside apart⟩
    · simp only [erased,if_neg went]
      rw [held,List.mem_append]
      exact ⟨fun inside => inside.resolve_left went,.inr⟩
  split
  · rename_i there
    exact absurd ((stays key).mp there) absent
  · by_cases same : other = key
    · rw [same,Function.update_self]
      exact ⟨fun _ => .inr rfl,fun _ => rfl⟩
    · rw [Function.update_of_ne same,stays]
      exact ⟨.inl,fun inside => inside.resolve_right same⟩

theorem load_represents (represents : Represents maxSize cache entries) (key : κ) :
    ∃ result next, cache.load key = some (result,next) ∧ Represents maxSize next (touch key entries) := by
  rw [load,LRUCachingPolicy.onLoad]
  cases found : cache.cachingPolicy.keyIndexMap key with
  | none =>
    refine ⟨_,_,rfl,?_⟩
    have missing : ∀ node ∈ cache.cachingPolicy.usageQueue, node.key ≠ key := by
      intro node inside same
      rw [(represents.indexed key node.node).mpr ⟨node,inside,same,rfl⟩] at found
      cases found
    have untouched : key ∉ keys entries := by
      rw [← represents.order,keys,List.map_map]
      intro inside
      obtain ⟨node,member,same⟩ := List.mem_map.mp inside
      exact missing node member same
    rw [touch_missing untouched]
    exact represents
  | some number =>
    obtain ⟨node,inside,rfl,rfl⟩ := (represents.indexed key number).mp found
    obtain ⟨before,later,queue⟩ := List.append_of_mem inside
    have once := represents.once
    have nodes := represents.nodes
    rw [queue] at once nodes
    have others := (filter_others nodes).1
    have here : (before ++ node::later).find? (fun other => decide (other.node = node.node)) = some node := by
      rw [← List.head?_filter,(filter_others nodes).2]
      rfl
    rw [queue]
    dsimp only
    rw [here,others]
    refine ⟨_,_,rfl,?_⟩
    have moved : (before ++ later ++ [node]).map QueueNode.entry = touch node.key entries := by
      have unique : (keys ((before ++ node::later).map QueueNode.entry)).Nodup := by
        rw [keys,List.map_map]
        exact once
      rw [← represents.order,queue]
      simp only [List.map_append,List.map_cons,List.map_nil] at unique ⊢
      exact (touch_present unique).symm
    have order : (before ++ later ++ [node]).Perm cache.cachingPolicy.usageQueue := by
      rw [queue,List.append_assoc]
      exact (List.perm_append_singleton node later).append_left before
    have same : ∀ {β : Type} (value : QueueNode κ → β) (result : β),
        result ∈ (before ++ later ++ [node]).map value ↔ result ∈ cache.cachingPolicy.usageQueue.map value :=
      fun value _ => (order.map value).mem_iff
    refine ⟨represents.maxSize_eq,moved,(order.map _).nodup_iff.mpr represents.once,
      (order.map _).nodup_iff.mpr represents.nodes,
      fun other member => represents.fresh other (order.mem_iff.mp member),?_,?_,?_⟩
    · intro key number
      rw [represents.indexed]
      simp only [order.mem_iff]
    · exact (congrArg _ (order.map QueueNode.size).sum_nat).trans represents.room
    · intro key
      rw [represents.held,← same]

omit [ToString κ] in
theorem store_represents (represents : Represents maxSize cache entries) {key : κ} {segmentSize : Nat} {data : δ}
    (leaves : cache.Leaves (.store key segmentSize data none)) :
    ∃ removableKeys next, cache.store key segmentSize data = some (removableKeys,next) ∧
      ∃ later, Library.RecentUse.Step maxSize entries (.store key segmentSize removableKeys) later ∧
      Represents maxSize next later := by
  rw [store,LRUCachingPolicy.onStore,represents.maxSize_eq]
  by_cases large : maxSize < segmentSize
  · rw [if_pos large]
    refine ⟨none,_,rfl,entries,.refused ?_,represents⟩
    rw [Library.RecentUse.store,if_pos large]
  · rw [if_neg large]
    obtain ⟨gone,kept,queue,fitted,made⟩ := LRUCachingPolicy.makeRoom_eq (Nat.le_of_not_lt large) represents.room
      cache.cachingPolicy.keyIndexMap
    have once := represents.once
    have nodes := represents.nodes
    have fresh := represents.fresh
    have indexed := represents.indexed
    have room := represents.room
    have held := represents.held
    rw [Leaves] at leaves
    rw [represents.order] at fitted
    rw [made]
    rw [queue] at once nodes fresh room leaves
    simp only [queue] at indexed held
    have within := fit_total (maxSize-segmentSize) entries
    rw [fitted,LRUCachingPolicy.size_entries] at within
    rw [LRUCachingPolicy.size_append] at room
    have absent := LRUCachingPolicy.not_kept once (by omega) leaves
    have index := LRUCachingPolicy.emplace_indexed once indexed absent cache.cachingPolicy.nodes segmentSize
    have map := store_held once held absent cache.cachingPolicy.nodes segmentSize data
    refine ⟨_,_,rfl,kept.map QueueNode.entry ++ [(key,segmentSize)],.stored ?_,?_⟩
    · have others : ∀ entry ∈ kept.map QueueNode.entry, decide (entry.1 ≠ key) = true := by
        intro entry inside
        obtain ⟨node,member,rfl⟩ := List.mem_map.mp inside
        exact decide_eq_true fun same => absent (same ▸ List.mem_map_of_mem member)
      rw [Library.RecentUse.store,if_neg large,fitted]
      dsimp only
      rw [List.filter_eq_self.mpr others,keys,List.map_map]
      rfl
    · rw [List.map_append] at once nodes
      obtain ⟨earlier,later⟩ := List.forall_mem_append.mp fresh
      refine ⟨rfl,List.map_append,?_,?_,?_,index,?_,map⟩
      · rw [List.map_append]
        refine List.nodup_append.mpr ⟨(List.nodup_append.mp once).2.1,List.nodup_singleton _,?_⟩
        rintro other inside _ last rfl
        obtain rfl := List.mem_singleton.mp last
        exact absent inside
      · rw [List.map_append]
        refine List.nodup_append.mpr ⟨(List.nodup_append.mp nodes).2.1,List.nodup_singleton _,?_⟩
        rintro other inside _ last rfl
        obtain ⟨node,member,same⟩ := List.mem_map.mp inside
        have old := later node member
        rw [same,List.mem_singleton.mp last] at old
        exact Nat.lt_irrefl _ old
      · refine List.forall_mem_append.mpr ⟨fun node member => Nat.lt_succ_of_lt (later node member),?_⟩
        intro node last
        rw [List.mem_singleton.mp last]
        exact Nat.lt_succ_self _
      · dsimp only
        rw [LRUCachingPolicy.size_append]
        change _+(_+segmentSize) = maxSize
        omega

theorem step_represents (represents : Represents maxSize cache entries) {event : Event κ δ}
    (leaves : cache.Leaves event)
    (step : Step cache event next) : ∃ later, Library.RecentUse.Step maxSize entries event.use later ∧
    Represents maxSize next later := by
  cases event with
  | load key result =>
    obtain ⟨_,_,loaded,kept⟩ := load_represents represents key
    obtain ⟨rfl,rfl⟩ := Prod.mk.inj (Option.some.inj (loaded.symm.trans step))
    exact ⟨_,.load key,kept⟩
  | store key segmentSize data removableKeys =>
    obtain ⟨_,_,stored,later,made,kept⟩ := store_represents represents leaves
    obtain ⟨rfl,rfl⟩ := Prod.mk.inj (Option.some.inj (stored.symm.trans step))
    exact ⟨later,made,kept⟩

theorem run_represents {events : List (Event κ δ)} (run : Run (Meeting Leaves Step) (make maxSize) events cache) :
    ∃ entries, Run (Library.RecentUse.Step maxSize) [] (events.map Event.use) entries ∧
    Represents maxSize cache entries := by
  induction run with
  | nil => exact ⟨[],Run.nil,represents_start⟩
  | snoc _ step ih =>
    obtain ⟨entries,before,represents⟩ := ih
    obtain ⟨later,made,kept⟩ := step_represents represents step.1 step.2
    rw [List.map_append]
    exact ⟨later,before.snoc made,kept⟩

/-- A run of the cache is a run of the one that gives up what was used least recently, with the
same victims, and both hold the same keys in the same order. -/
theorem lru_refines {events : List (Event κ δ)} (run : Run (Meeting Leaves Step) (make maxSize) events cache) :
    (∃ entries, Run (Library.RecentUse.Step maxSize) [] (events.map Event.use) entries ∧
      cache.cachingPolicy.usageQueue.map QueueNode.entry = entries ∧
      (∀ key, (cache.map key).isSome = true ↔ key ∈ keys entries) ∧ (keys entries).Nodup ∧ total entries ≤ maxSize ∧
      ∀ key, evictions key (events.map Event.use)+(keys entries).count key ≤ admissions key (events.map Event.use)) ∧
    (∀ key, ∃ result next, cache.load key = some (result,next)) ∧
    ∀ key segmentSize data, cache.Leaves (.store key segmentSize data none) →
      ∃ removableKeys next, cache.store key segmentSize data = some (removableKeys,next) := by
  obtain ⟨entries,made,represents⟩ := run_represents run
  have sound := run_sound made
  refine ⟨⟨entries,made,represents.order,?_,sound.once,sound.room,sound.admitted⟩,?_,?_⟩
  · intro key
    rw [represents.held,← represents.order,keys,List.map_map]
    rfl
  · intro key
    obtain ⟨result,next,loaded,_⟩ := load_represents represents key
    exact ⟨result,next,loaded⟩
  · intro key segmentSize data leaves
    obtain ⟨removableKeys,next,stored,_⟩ := store_represents represents leaves
    exact ⟨removableKeys,next,stored⟩

/-- Two segments fill the cache, the first one is used again, and the second one goes. -/
def usedAgain : List (Event String Unit) :=
  [.store "k" 1 () (some []),.store "j" 1 () (some []),.load "k" (.ok ()),.store "l" 1 () (some ["j"])]

theorem second_goes : ∃ entries, Run (Library.RecentUse.Step 2) [] (usedAgain.map Event.use) entries := by
  have first := (@Run.nil _ _ (Meeting Leaves Step) (make 2 : SegmentCache String Unit)).meet
      (.store "k" 1 () (some [])) nofun rfl
  have second := first.meet (.store "j" 1 () (some [])) (by rw [Leaves]; decide) rfl
  have again := second.meet (.load "k" (.ok ())) trivial rfl
  have last := again.meet (.store "l" 1 () (some ["j"])) (by rw [Leaves]; decide) rfl
  obtain ⟨⟨entries,made,_⟩,_⟩ := lru_refines last
  exact ⟨entries,made⟩

/-- A segment that is stored twice has two nodes. The next store evicts it although there would be
room, and the cache loses it. -/
theorem stored_twice_evicted : ∃ (cache : SegmentCache String Unit) (entries : Entries String),
    Run Step (make 2) [.store "k" 1 () (some []),.store "k" 1 () (some []),.store "j" 1 () (some ["k"])] cache ∧
    cache.map "k" = none ∧
      Run (Library.RecentUse.Step 2) [] [.store "k" 1 (some []),.store "k" 1 (some [])] entries ∧
      Library.RecentUse.store 2 "j" 1 entries = some ([],[("k",1),("j",1)]) := by
  have once := @Run.snoc _ _ Step (make 2 : SegmentCache String Unit) _ _ _ (.store "k" 1 () (some [])) Run.nil rfl
  have twice := @Run.snoc _ _ Step _ _ _ _ (.store "k" 1 () (some [])) once rfl
  have third := @Run.snoc _ _ Step _ _ _ _ (.store "j" 1 () (some ["k"])) twice rfl
  exact ⟨_,_,third,rfl,(Run.nil.snoc (.stored rfl)).snoc (.stored rfl),rfl⟩

end SegmentCache
end Hermes.Cache
