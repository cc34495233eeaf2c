import Hermes.BatchedDeltaMerge
import Hermes.DeltaCacheSystem

/-! Stable bitmaps across the switch to batched merging.
A bitmap is shared: the cache and the operators hold a handle on it. An unbatched
merge sends a new one with its merged delta, a batched one clears bits of the
one its operator has loaded, and nothing else makes one. -/
namespace Hermes.BitmapAvailability
open Hermes.Tuple Hermes.Delta Hermes.DeleteMapGeneratorKernel Hermes.KeepMapCacheMode
open Hermes.DeltaMergePOp Hermes.DeltaCacheActor Hermes.DeltaCacheSystem Hermes.BatchedDeltaMerge
open Hermes.Library.Transition Hermes.Library.SortedMap
variable {τ ω : Type} [DecidableEq τ] [DecidableEq ω] {n : τ → Nat} {α : τ → Type}

abbrev Deltas (n : τ → Nat) (α : τ → Type) (table : τ) := TupleSet (DeltaRow (n table) (α table))

abbrev Stables (n : τ → Nat) (α : τ → Type) := (table : τ) → Int → TupleSet (Row (n table) (α table))

/-- The bitmaps by handle, the switch, and how it stood when each operator started.
`merged` and `mergedBefore` record the partitions for which an unbatched merge has
been stored, so far and before an operator's load. -/
structure Server (ω : Type) (n : τ → Nat) (α : τ → Type) where
  system : System ω (Deltas n α) Nat
  heap : List (List Bool)
  flag : Bool
  batched : ω → Bool
  merged : τ → Int → Prop
  mergedBefore : ω → Prop

def Server.initial (ω : Type) (n : τ → Nat) (α : τ → Type) : Server ω n α :=
  ⟨System.initial ω (Deltas n α) Nat,[],false,fun _ => false,fun _ _ => False,fun _ => False⟩

inductive Event (ω : Type) (n : τ → Nat) (α : τ → Type)
  | loadMemoryDelta (op : ω) (msg : LoadDeltaRequestMessage τ) (pump : Pump (Deltas n α))
    (deltas : List (DeltaCacheData (Deltas n α msg.table)))
  | deltaPump (pump : Pump (Deltas n α))
  | switch
  | deltaMerge (op : ω) (held : Held (Deltas n α) Nat)
  | stablesBatchedDeltaMerge (op : ω) (held : Held (Deltas n α) Nat)
    (batch : TupleSet (Row (n held.table) (α held.table))) (batchCnt : Nat)
  | deltasDeltaMerge (op : ω) (held : Held (Deltas n α) Nat)

def read (heap : List (List Bool)) (stableBm : Option Nat) : Option (List Bool) := stableBm.bind (heap[·]?)

def write (heap : List (List Bool)) (stableBm : Option Nat) (bits : Option (List Bool)) : List (List Bool) :=
  match stableBm, bits with
  | some handle, some bits => heap.set handle bits
  | _, _ => heap

/-- The switch is turned between queries, so an operator merges the way it started.
What a batched operator keeps besides the bitmap is left open. -/
inductive StepTo (stable : Stables n α) : Server ω n α → Event ω n α → Server ω n α → Prop
  | loadMemoryDelta {server : Server ω n α} {op : ω} {msg : LoadDeltaRequestMessage τ}
      {pump : Pump (Deltas n α)} {deltas : List (DeltaCacheData (Deltas n α msg.table))}
      {next : System ω (Deltas n α) Nat}
      (moves : Step server.system (.loadMemoryDelta op msg pump deltas) next) :
      StepTo stable server (.loadMemoryDelta op msg pump deltas)
        {server with
          system := next
          batched := Function.update server.batched op server.flag
          mergedBefore := Function.update server.mergedBefore op (server.merged msg.table msg.deltaKey)}
  | deltaPump {server : Server ω n α} {pump : Pump (Deltas n α)} {next : System ω (Deltas n α) Nat}
      (moves : Step server.system (.deltaPump pump) next) :
      StepTo stable server (.deltaPump pump) {server with system := next}
  | switch {server : Server ω n α} : StepTo stable server .switch {server with flag := true}
  | deltaMerge {server : Server ω n α} {op : ω} {held : Held (Deltas n α) Nat} {σ : Type}
      (reader : TableBatchReader) (project : Row (n held.table) (α held.table) → σ)
      {chunks : List (List σ)} {mergedDelta : Deltas n α held.table} {bits : List Bool}
      {next : System ω (Deltas n α) Nat} (unbatched : server.batched op = false)
      (returns : deltaMerge reader project held.deltas [stable held.table held.partition] =
        some (chunks,some ⟨mergedDelta,some bits⟩))
      (moves : Step server.system (.storeMergedDelta op held ⟨mergedDelta,some server.heap.length⟩) next) :
      StepTo stable server (.deltaMerge op held)
        {server with
          system := next
          heap := server.heap ++ [bits]
          merged := fun table partition => server.merged table partition ∨
            (table = held.table ∧ partition = held.partition)}
  | stablesBatchedDeltaMerge {server : Server ω n α} {op : ω} {held : Held (Deltas n α) Nat} {σ : Type}
      (reader : TableBatchReader) (project : Row (n held.table) (α held.table) → σ)
      {before after : BatchedState (n held.table) (α held.table) σ}
      {batch : TupleSet (Row (n held.table) (α held.table))} {batchCnt : Nat} {chunks : List (List σ)}
      (batched : server.batched op = true) (loaded : server.system.held op = some held)
      (shared : before.stableBm = read server.heap held.stableBm)
      (returns : stablesBatchedDeltaMerge reader project held.deltas before batch batchCnt =
        some (chunks,after)) :
      StepTo stable server (.stablesBatchedDeltaMerge op held batch batchCnt)
        {server with heap := write server.heap held.stableBm after.stableBm}
  | deltasDeltaMerge {server : Server ω n α} {op : ω} {held : Held (Deltas n α) Nat} {σ : Type}
      (reader : TableBatchReader) (project : Row (n held.table) (α held.table) → σ)
      {before : BatchedState (n held.table) (α held.table) σ} {batchCounter : Nat}
      {chunks : List (List σ)} {mergedDelta : Deltas n α held.table} {next : System ω (Deltas n α) Nat}
      (batched : server.batched op = true) (shared : before.stableBm = read server.heap held.stableBm)
      (returns : deltasDeltaMerge reader project held.deltas before batchCounter =
        some (chunks,some ⟨mergedDelta,none⟩))
      (moves : Step server.system (.storeMergedDelta op held ⟨mergedDelta,none⟩) next) :
      StepTo stable server (.deltasDeltaMerge op held) {server with system := next}

/-- However the table is cut, the bits a batch reads are as many as its rows. -/
def CutsTo {ρ : Type} (bits : List Bool) (stable : TupleSet ρ) : Prop :=
  ∀ batches : List (TupleSet ρ), Cut batches → batches.flatMap TupleSet.rows = stable.rows →
    ∀ b batch, batches[b]? = some batch →
      ((bits.drop (DefaultChunkSize*b)).take
        (min bits.length (DefaultChunkSize*(b+1))-DefaultChunkSize*b)).length = batch.numRows

def Delivered (heap : List (List Bool)) (size : Nat) (stableBm : Option Nat) : Prop :=
  ∃ bits, read heap stableBm = some bits ∧ bits.length = size

/-- A bitmap is there if an unbatched merge was stored, and no handle if none was. -/
structure Tracks (heap : List (List Bool)) (size : Nat) (stableBm : Option Nat) (merged : Prop) : Prop where
  delivered : merged → Delivered heap size stableBm
  missing : ¬merged → stableBm = none

structure Tracked (stable : Stables n α) (server : Server ω n α) : Prop where
  cached : ∀ table partition, Tracks server.heap (stable table partition).numRows
    ((server.system.actor.stableBmCache table).load partition) (server.merged table partition)
  held : ∀ op held, server.system.held op = some held →
    Tracks server.heap (stable held.table held.partition).numRows held.stableBm (server.mergedBefore op)

section Bitmaps
variable {m : Nat} {ε σ : Type}

theorem getDeleteMap_length {deltas : List (DeltaVersion m ε)} {stable : TupleSet (Row m ε)}
    {positions : List Nat} {bits : List Bool} (returns : getDeleteMap deltas [stable] = some (positions,bits)) :
    bits.length = stable.numRows := by
  unfold getDeleteMap at returns
  simp only [List.getElem?_cons_zero,Option.bind_eq_bind,Option.bind_some] at returns
  split at returns
  · cases returns
  · obtain ⟨_,_,returns⟩ := Option.bind_eq_some_iff.mp returns
    cases Option.some.inj returns
    simp

theorem visitTailRow_length {deltaCount : Nat} {batch : List (Row m ε)} {batchCounter : Nat}
    {r : DeltaRow m ε} {visit visit' : Visit m ε}
    (returns : visitTailRow deltaCount batch batchCounter r visit = some visit') :
    visit'.stableBm.map List.length = visit.stableBm.map List.length := by
  unfold visitTailRow at returns
  split at returns
  · rw [Option.some.inj returns]
  · obtain ⟨max,_,returns⟩ := Option.bind_eq_some_iff.mp returns
    generalize (if deltaCount > 1 then find Prod.fst (keyPrefix r.key) visit.deltasKm else none) = hit at returns
    cases hit with
    | some _ => rw [← Option.some.inj returns]
    | none =>
      dsimp only at returns
      split at returns
      next => rw [← Option.some.inj returns]
      next bits bitmap =>
        split at returns
        · obtain ⟨pos,_,returns⟩ := Option.bind_eq_some_iff.mp returns
          split at returns
          · rw [← Option.some.inj returns]
          · split at returns
            · rw [← Option.some.inj returns,bitmap]
              simp
            · cases returns
        · rw [← Option.some.inj returns]

theorem visitTail_length {deltaCount : Nat} {batch : List (Row m ε)} {batchCounter : Nat}
    {tail : List (DeltaRow m ε)} {seen flags : List Bool} {keepMap keepMap' : KeepMap m ε}
    {stableBm stableBm' : Option (List Bool)}
    (returns : visitTail deltaCount batch batchCounter tail seen keepMap stableBm =
      some (flags,keepMap',stableBm')) : stableBm'.map List.length = stableBm.map List.length := by
  induction tail generalizing seen flags keepMap stableBm with
  | nil =>
    cases (Option.some.inj returns)
    rfl
  | cons r tail ih =>
    cases seen with
    | nil =>
      cases (Option.some.inj returns)
      rfl
    | cons flag seen =>
      unfold visitTail at returns
      obtain ⟨visit,visited,returns⟩ := Option.bind_eq_some_iff.mp returns
      obtain ⟨⟨rest,keepMap₁,stableBm₁⟩,recursed,returns⟩ := Option.bind_eq_some_iff.mp returns
      cases Option.some.inj returns
      rw [ih recursed,visitTailRow_length visited]

theorem getBatchedKeepMap_length {keepMap keepMap' : KeepMap m ε} {deltas : List (DeltaVersion m ε)}
    {batch : Option (TupleSet (Row m ε))} {stableBm stableBm' : Option (List Bool)} {batchCounter : Nat}
    {lastBatch : Bool} {positions : List Nat}
    (returns : getBatchedKeepMap keepMap deltas batch stableBm batchCounter lastBatch =
      some (keepMap',positions,stableBm')) : stableBm'.map List.length = stableBm.map List.length := by
  unfold getBatchedKeepMap at returns
  obtain ⟨keepMap₁,_,returns⟩ := Option.bind_eq_some_iff.mp returns
  split at returns
  · cases Option.some.inj returns
    rfl
  · obtain ⟨batch,_,returns⟩ := Option.bind_eq_some_iff.mp returns
    simp only [Option.bind_eq_bind,Option.bind_none] at returns
    split at returns
    · cases returns
    · split at returns
      · cases returns
      · obtain ⟨⟨flags,keepMap₂,stableBm₂⟩,visited,returns⟩ := Option.bind_eq_some_iff.mp returns
        cases Option.some.inj returns
        exact visitTail_length visited

theorem stablesBatchedDeltaMerge_length {reader : TableBatchReader} {project : Row m ε → σ}
    {deltas : List (DeltaVersion m ε)} {before after : BatchedState m ε σ} {batch : TupleSet (Row m ε)}
    {batchCnt : Nat} {chunks : List (List σ)}
    (returns : stablesBatchedDeltaMerge reader project deltas before batch batchCnt = some (chunks,after)) :
    after.stableBm.map List.length = before.stableBm.map List.length ∧
      (deltas ≠ [] → before.stableBm.isSome) := by
  unfold stablesBatchedDeltaMerge at returns
  by_cases empty : deltas = []
  · subst empty
    cases Option.some.inj returns
    exact ⟨rfl,fun some_ => absurd rfl some_⟩
  have some_ : deltas.isEmpty = false := by simpa using empty
  simp only [some_,Bool.false_eq_true,if_false,Option.bind_eq_bind,Option.bind_none] at returns
  obtain ⟨⟨mode,positions,stableBm⟩,kept,returns⟩ := Option.bind_eq_some_iff.mp returns
  obtain ⟨bits,bitmap,returns⟩ := Option.bind_eq_some_iff.mp returns
  generalize (if bits.length < DefaultChunkSize*batchCnt then bits.length
    else DefaultChunkSize*batchCnt) = batchEnd at returns
  have same := getBatchedKeepMap_length kept
  rw [show stableBm = some bits from bitmap] at same
  split at returns
  · cases returns
  · obtain ⟨tuple,_,returns⟩ := Option.bind_eq_some_iff.mp returns
    cases Option.some.inj returns
    refine ⟨same,fun _ => ?_⟩
    rw [← Option.isSome_map (f := List.length),← same]
    rfl

theorem stablesBatchedDeltaMerge_stuck (reader : TableBatchReader) (project : Row m ε → σ)
    {deltas : List (DeltaVersion m ε)} {before : BatchedState m ε σ} (batch : TupleSet (Row m ε))
    (batchCnt : Nat) (nonempty : deltas ≠ []) (null : before.stableBm = none) :
    stablesBatchedDeltaMerge reader project deltas before batch batchCnt = none := by
  rw [Option.eq_none_iff_forall_ne_some]
  rintro ⟨chunks,after⟩ returns
  have some_ := (stablesBatchedDeltaMerge_length returns).2 nonempty
  rw [null] at some_
  cases some_

theorem deltaMerge_bitmap {reader : TableBatchReader} {project : Row m ε → σ}
    {deltas : List (DeltaVersion m ε)} {stable : TupleSet (Row m ε)} {chunks : List (List σ)}
    {mergedDelta : TupleSet (DeltaRow m ε)} {bits : List Bool}
    (returns : deltaMerge reader project deltas [stable] = some (chunks,some ⟨mergedDelta,some bits⟩)) :
    bits.length = stable.numRows := by
  obtain ⟨positions,bitmap,_,kernel,same,_⟩ := deltaMerge_returns returns
  rw [Option.some.inj same]
  exact getDeleteMap_length kernel

theorem Cut.batch_at {ρ : Type} {batches : List (TupleSet ρ)} (cut : Cut batches) {b : Nat} {batch : TupleSet ρ}
    (found : batches[b]? = some batch) : batch.numRows ≤ DefaultChunkSize ∧
      DefaultChunkSize*b+batch.numRows ≤ (batches.flatMap TupleSet.rows).length ∧
      (batch.numRows = DefaultChunkSize ∨
        (batches.flatMap TupleSet.rows).length = DefaultChunkSize*b+batch.numRows) := by
  induction batches generalizing b with
  | nil => simp at found
  | cons first batches ih =>
    obtain ⟨some_,small,full,rest⟩ := cut
    have size : first.rows.length = first.numRows := rfl
    rw [List.flatMap_cons,List.length_append,size]
    cases b with
    | zero =>
      obtain rfl : first = batch := by simpa using found
      refine ⟨small,by omega,?_⟩
      rcases batches with _ | ⟨next,batches⟩
      · exact Or.inr (by simp)
      · exact Or.inl (full (List.cons_ne_nil _ _))
    | succ b =>
      rw [List.getElem?_cons_succ] at found
      have whole : first.numRows = DefaultChunkSize := by
        apply full
        rintro rfl
        simp at found
      obtain ⟨bound,room,last⟩ := ih rest found
      rw [Nat.mul_succ]
      exact ⟨bound,by omega,by omega⟩

theorem cutsTo_of_length {ρ : Type} {bits : List Bool} {stable : TupleSet ρ}
    (size : bits.length = stable.numRows) : CutsTo bits stable := by
  intro batches cut rows b batch found
  obtain ⟨small,room,last⟩ := Cut.batch_at cut found
  rw [rows,show stable.rows.length = bits.length from size.symm] at room last
  rw [List.length_take,List.length_drop,Nat.mul_succ]
  omega

end Bitmaps

section Heap
variable {heap heap' : List (List Bool)} {size : Nat} {stableBm : Option Nat} {merged : Prop}

def Keeps (heap heap' : List (List Bool)) : Prop :=
  ∀ stableBm, (read heap stableBm).isSome → (read heap' stableBm).map List.length = (read heap stableBm).map List.length

theorem Tracks.length_eq (tracks : Tracks heap size stableBm merged) {bits : List Bool}
    (found : read heap stableBm = some bits) : bits.length = size := by
  by_cases stored : merged
  · obtain ⟨bits',found',length⟩ := tracks.delivered stored
    rw [Option.some.inj (found.symm.trans found'),length]
  · rw [tracks.missing stored] at found
    cases found

theorem Tracks.keeps (tracks : Tracks heap size stableBm merged) (keeps : Keeps heap heap') :
    Tracks heap' size stableBm merged := by
  refine ⟨?_,tracks.missing⟩
  intro stored
  obtain ⟨bits,found,length⟩ := tracks.delivered stored
  have same := keeps stableBm (by rw [found]; rfl)
  rw [found,Option.map_some] at same
  obtain ⟨bits',found',length'⟩ := Option.map_eq_some_iff.mp same
  exact ⟨bits',found',length'.trans length⟩

theorem keeps_append (bits : List Bool) : Keeps heap (heap ++ [bits]) := by
  intro stableBm some_
  cases stableBm with
  | none => rfl
  | some handle =>
    have inside : handle < heap.length := by simpa [read] using some_
    simp [read,List.getElem?_append_left inside]

theorem keeps_write {bits' : Option (List Bool)}
    (same : bits'.map List.length = (read heap stableBm).map List.length) :
    Keeps heap (write heap stableBm bits') := by
  intro other some_
  cases stableBm with
  | none => rfl
  | some handle =>
    cases bits' with
    | none => rfl
    | some bits =>
      cases other with
      | none => rfl
      | some place =>
        by_cases here : place = handle
        · subst here
          have inside : place < heap.length := by simpa [read] using some_
          simp [read,write,inside] at same ⊢
          exact same
        · simp [read,write,List.getElem?_set_ne (Ne.symm here)]

theorem read_append (bits : List Bool) : read (heap ++ [bits]) (some heap.length) = some bits := by
  simp [read]

end Heap

section Steps
variable {stable : Stables n α} {before after : Server ω n α} {event : Event ω n α}

/-- The server once an operator has loaded, all versions in the order they are cached. -/
def Server.afterLoad (server : Server ω n α) (op : ω) (msg : LoadDeltaRequestMessage τ)
    (pump : Pump (Deltas n α)) : Server ω n α :=
  let response := loadMemoryDelta server.system.actor msg pump
  {server with
    system := ⟨response.1,Function.update server.system.held op
      (some ⟨msg.table,msg.deltaKey,response.2.deltas,response.2.stableBm⟩)⟩
    batched := Function.update server.batched op server.flag
    mergedBefore := Function.update server.mergedBefore op (server.merged msg.table msg.deltaKey)}

theorem step_afterLoad (stable : Stables n α) (server : Server ω n α) (op : ω) (msg : LoadDeltaRequestMessage τ)
    (pump : Pump (Deltas n α)) : StepTo stable server
      (.loadMemoryDelta op msg pump (loadMemoryDelta server.system.actor msg pump).2.deltas)
      (server.afterLoad op msg pump) :=
  StepTo.loadMemoryDelta (Step.loadMemoryDelta op msg pump (List.Perm.refl _))

/-- The server once the message of an unbatched merge is stored. -/
def Server.afterMerge (server : Server ω n α) (op : ω) (held : Held (Deltas n α) Nat)
    (mergedDelta : Deltas n α held.table) (bits : List Bool) : Server ω n α :=
  {server with
    system := ⟨storeMergedDelta server.system.actor held.table held.partition
      ⟨mergedDelta,some server.heap.length⟩,Function.update server.system.held op none⟩
    heap := server.heap ++ [bits]
    merged := fun table partition => server.merged table partition ∨
      (table = held.table ∧ partition = held.partition)}

theorem step_afterMerge {server : Server ω n α} {op : ω} {held : Held (Deltas n α) Nat}
    {mergedDelta : Deltas n α held.table} {bits : List Bool} {chunks : List (List (Row _ _))}
    (unbatched : server.batched op = false) (loaded : server.system.held op = some held)
    (some_ : held.deltas ≠ []) (returns : deltaMerge .chunked id held.deltas
      [stable held.table held.partition] = some (chunks,some ⟨mergedDelta,some bits⟩)) :
    StepTo stable server (.deltaMerge op held) (server.afterMerge op held mergedDelta bits) :=
  StepTo.deltaMerge .chunked id unbatched returns (Step.storeMergedDelta op _ loaded some_)

omit [DecidableEq τ] [DecidableEq ω] in
theorem tracked_initial : Tracked stable (Server.initial ω n α) := by
  refine ⟨?_,?_⟩
  · intro table partition
    exact ⟨False.elim,fun _ => rfl⟩
  · intro op held found
    cases found

theorem held_store (tracked : Tracked stable before) {op : ω} {next : System ω (Deltas n α) Nat}
    {held : Held (Deltas n α) Nat} {msg : MergedDeltaMessage (Deltas n α held.table) Nat}
    (moves : Step before.system (.storeMergedDelta op held msg) next) {op' : ω} {held' : Held (Deltas n α) Nat}
    (found : next.held op' = some held') :
    Tracks before.heap (stable held'.table held'.partition).numRows held'.stableBm (before.mergedBefore op') := by
  rcases moves.held found with ⟨old,_⟩ | ⟨⟨msg',pump,deltas,other⟩,_⟩
  · exact tracked.held op' held' old
  · cases other

theorem tracked_step (tracked : Tracked stable before) (step : StepTo stable before event after) :
    Tracked stable after := by
  cases step with
  | @loadMemoryDelta op msg pump deltas next moves =>
    cases moves with
    | loadMemoryDelta _ _ _ order =>
    have cached : ∀ table partition, Tracks before.heap (stable table partition).numRows
        (((loadMemoryDelta before.system.actor msg pump).1.stableBmCache table).load partition)
        (before.merged table partition) := by
      rw [stableBm_loadMemoryDelta]
      exact tracked.cached
    refine ⟨cached,?_⟩
    intro op' held found
    change Function.update before.system.held op _ op' = some held at found
    by_cases same : op' = op
    · subst same
      rw [Function.update_self,Option.some.injEq] at found
      subst found
      have response : (loadMemoryDelta before.system.actor msg pump).2.stableBm = _ := respond_stableBm _ _ _
      simp only [Function.update_self]
      rw [response]
      exact cached msg.table msg.deltaKey
    · rw [Function.update_of_ne same] at found
      simp only [Function.update_of_ne same]
      exact tracked.held op' held found
  | deltaPump moves =>
    cases moves with
    | deltaPump pump => exact ⟨tracked.cached,tracked.held⟩
  | switch => exact ⟨tracked.cached,tracked.held⟩
  | @deltaMerge op held σ reader project chunks mergedDelta bits next unbatched returns moves =>
    have keeps : Keeps before.heap (before.heap ++ [bits]) := keeps_append bits
    refine ⟨?_,fun op' held' found => (held_store tracked moves found).keeps keeps⟩
    intro table partition
    cases moves with
    | storeMergedDelta _ _ loaded some_ =>
    simp only [stableBm_storeMergedDelta_some]
    by_cases here : table = held.table ∧ partition = held.partition
    · rw [if_pos here]
      obtain ⟨rfl,rfl⟩ := here
      refine ⟨fun _ => ⟨bits,read_append bits,deltaMerge_bitmap returns⟩,?_⟩
      intro never
      exact absurd (Or.inr ⟨rfl,rfl⟩) never
    · rw [if_neg here]
      have old := (tracked.cached table partition).keeps keeps
      simp only [here,or_false]
      exact old
  | stablesBatchedDeltaMerge reader project batched loaded shared returns =>
    have keeps : Keeps before.heap (write before.heap _ _) :=
      keeps_write ((stablesBatchedDeltaMerge_length returns).1.trans (by rw [shared]))
    exact ⟨fun table partition => (tracked.cached table partition).keeps keeps,
      fun op held found => (tracked.held op held found).keeps keeps⟩
  | deltasDeltaMerge reader project batched shared returns moves =>
    refine ⟨?_,fun op' held' found => held_store tracked moves found⟩
    cases moves with
    | storeMergedDelta _ _ loaded some_ => exact tracked.cached

end Steps

/-- The bitmap an operator has been delivered has a bit for every row of its
partition, and so the slice of every batch has one for every row of the batch. -/
def BitmapAvailable (stable : Stables n α) (server : Server ω n α) (held : Held (Deltas n α) Nat) : Prop :=
  ∃ bits, read server.heap held.stableBm = some bits ∧
    bits.length = (stable held.table held.partition).numRows ∧ CutsTo bits (stable held.table held.partition)

/-- In every reachable state an operator has its bitmap exactly if an unbatched
merge of its partition was stored before its load, and else no call on a batch returns. -/
theorem bitmap_available_iff {stable : Stables n α} {events : List (Event ω n α)} {server : Server ω n α}
    (run : Run (StepTo stable) (Server.initial ω n α) events server) {op : ω} {held : Held (Deltas n α) Nat}
    (loaded : server.system.held op = some held) :
    (BitmapAvailable stable server held ↔ server.mergedBefore op) ∧
      (held.deltas ≠ [] → ¬server.mergedBefore op → ∀ {σ : Type} reader
        (project : Row (n held.table) (α held.table) → σ) before batch batchCnt,
        before.stableBm = read server.heap held.stableBm →
        stablesBatchedDeltaMerge reader project held.deltas before batch batchCnt = none) := by
  have tracked : Tracked stable server := run.invariant (Tracked stable) tracked_initial
    (fun before event after tracked step => tracked_step tracked step)
  have tracks := tracked.held op held loaded
  refine ⟨⟨?_,?_⟩,?_⟩
  · rintro ⟨bits,found,_⟩
    by_contra never
    rw [tracks.missing never] at found
    cases found
  · intro merged
    obtain ⟨bits,found,size⟩ := tracks.delivered merged
    exact ⟨bits,found,size,cutsTo_of_length size⟩
  · intro nonempty never σ reader project before batch batchCnt shared
    rw [tracks.missing never] at shared
    exact stablesBatchedDeltaMerge_stuck reader project batch batchCnt nonempty shared

section Examples

abbrev OneTable := Server Nat (fun _ : Unit => 1) (fun _ : Unit => Unit)

def oneRow : Stables (fun _ : Unit => 1) (fun _ : Unit => Unit) := fun _ _ => .ofRows [⟨singleKey 1,()⟩]

def insertTwo : TupleSet (DeltaRow 1 Unit) := .ofRows [⟨⟨singleKey 2,()⟩,.insert⟩]

/-- A pump with a new row for partition 0, and one that finds no event. -/
def pumpRow : Pump (Deltas (fun _ : Unit => 1) (fun _ : Unit => Unit)) := ⟨fun _ => [(0,insertTwo)],1000,by simp⟩

def pumpNothing : Pump (Deltas (fun _ : Unit => 1) (fun _ : Unit => Unit)) := ⟨fun _ => [],0,by simp⟩

def switched (server : OneTable) : OneTable := {server with flag := true}

def firstQuery : OneTable := (Server.initial Nat _ _).afterLoad 1 ⟨(),0,1⟩ pumpNothing

/-- After the switch the second query finds the first delta of the partition, and its
batched merge reads a null bitmap. -/
theorem first_delta_after_switch : ∃ events server held, Run (StepTo oneRow) (Server.initial Nat _ _) events server ∧
    server.system.held 2 = some held ∧ server.batched 2 = true ∧ held.deltas ≠ [] ∧
    ¬BitmapAvailable oneRow server held ∧ ∀ {σ : Type} reader
      (project : Row 1 Unit → σ) before batch batchCnt, before.stableBm = read server.heap held.stableBm →
      stablesBatchedDeltaMerge reader project held.deltas before batch batchCnt = none := by
  have first := step_afterLoad oneRow (Server.initial Nat _ _) 1 ⟨(),0,1⟩ pumpNothing
  have second := step_afterLoad oneRow (switched firstQuery) 2 ⟨(),0,2⟩ pumpRow
  refine ⟨_,_,⟨(),0,[⟨insertTwo,1000⟩],none⟩,((Run.nil.snoc first).snoc StepTo.switch).snoc second,rfl,rfl,
    List.cons_ne_nil _ _,?_,?_⟩
  · rintro ⟨bits,found,_⟩
    cases found
  · intro σ reader project before batch batchCnt shared
    exact stablesBatchedDeltaMerge_stuck reader project batch batchCnt (List.cons_ne_nil _ _) shared

def heldRow : Held (Deltas (fun _ : Unit => 1) (fun _ : Unit => Unit)) Nat := ⟨(),0,[⟨insertTwo,1000⟩],none⟩

/-- The first query merges what it finds, and the second one starts after the switch. -/
def mergingQuery : OneTable := (Server.initial Nat _ _).afterLoad 1 ⟨(),0,1⟩ pumpRow

def batchedQuery : OneTable :=
  (switched (mergingQuery.afterMerge 1 heldRow insertTwo [true])).afterLoad 2 ⟨(),0,2⟩ pumpNothing

private theorem run_batchedQuery : ∃ events, Run (StepTo oneRow) (Server.initial Nat _ _) events batchedQuery := by
  have load := step_afterLoad oneRow (Server.initial Nat _ _) 1 ⟨(),0,1⟩ pumpRow
  have merges : deltaMerge .chunked id heldRow.deltas [oneRow () 0] =
      some ([[⟨singleKey 1,()⟩,⟨singleKey 2,()⟩]],some ⟨insertTwo,some [true]⟩) := by decide
  have merge : StepTo oneRow mergingQuery (.deltaMerge 1 heldRow) _ :=
    step_afterMerge rfl rfl (List.cons_ne_nil _ _) merges
  exact ⟨_,(((Run.nil.snoc load).snoc merge).snoc StepTo.switch).snoc (step_afterLoad oneRow _ 2 ⟨(),0,2⟩ pumpNothing)⟩

def heldMerged : Held (Deltas (fun _ : Unit => 1) (fun _ : Unit => Unit)) Nat :=
  ⟨(),0,[⟨insertTwo,1000⟩],some 0⟩

/-- After an unbatched merge the switch finds its bitmap. -/
theorem merged_before_switch : BitmapAvailable oneRow batchedQuery heldMerged := by
  obtain ⟨events,run⟩ := run_batchedQuery
  have stored : batchedQuery.mergedBefore 2 := Or.inr ⟨rfl,rfl⟩
  have loaded : batchedQuery.system.held 2 = some heldMerged := rfl
  exact (bitmap_available_iff run loaded).1.mpr stored

end Examples

end Hermes.BitmapAvailability
