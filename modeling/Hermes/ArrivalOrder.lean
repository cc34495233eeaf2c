import Hermes.DeltaMergeArrival
import Hermes.StableSearch

/-! What the order of the stable batches changes.
Every batch is filtered by its own slice of the bitmap. An UPDATE of the tail
clears a bit in the first batch, in the order they are merged, where the search
for its first column hits, so the order decides which of several hits counts. -/
namespace Hermes.ArrivalOrder
open Hermes.Tuple Hermes.Delta Hermes.DeleteMapGeneratorKernel Hermes.KeepMapCacheMode
open Hermes.DeltaMergeFilter Hermes.DeltaMergePOp Hermes.BatchedKeepMap Hermes.BatchedDeltaMerge
open Hermes.BitmapAvailability Hermes.SortedVersions Hermes.DeltaMergeArrival Hermes.StableSearch
open Hermes.Library.KeyOrder
variable {n : Nat} {α σ : Type}

def start (entry : TupleSet (Row n α) × Nat) : Nat := DefaultChunkSize*(entry.2-1)

def sliceOf (bits : List Bool) (entry : TupleSet (Row n α) × Nat) : List Bool :=
  (bits.drop (start entry)).take entry.1.rows.length

/-- The stable row found for a first column when the batches are merged in this order. -/
def orderHit : List (TupleSet (Row n α) × Nat) → Int32 → Option Nat
  | [], _ => none
  | entry::order, num =>
    match batchHit entry.1.rows num with
    | some pos => some (start entry+pos)
    | none => orderHit order num

def foundIn (order : List (TupleSet (Row n α) × Nat)) (rows : List (DeltaRow n α)) : List Nat :=
  rows.filterMap (fun t => orderHit order (firstColumn t.key))

def keptIn (bits : List Bool) (order : List (TupleSet (Row n α) × Nat)) : List (Row n α) :=
  order.flatMap (fun entry => keepRows (sliceOf bits entry) entry.1.rows)

/-- The place of a batch in a table of `size` rows. -/
structure Placed (size : Nat) (entry : TupleSet (Row n α) × Nat) : Prop where
  counted : 1 ≤ entry.2
  room : start entry+entry.1.numRows ≤ size
  nonempty : 0 < entry.1.numRows
  small : entry.1.numRows ≤ DefaultChunkSize
  cut : entry.1.numRows = DefaultChunkSize ∨ size = start entry+entry.1.numRows

def Within (entry : TupleSet (Row n α) × Nat) (s : Nat) : Prop :=
  start entry ≤ s ∧ s < start entry+entry.1.rows.length

section Slices
variable {size : Nat} {entry other : TupleSet (Row n α) × Nat} {order : List (TupleSet (Row n α) × Nat)}

theorem Placed.disjoint (first : Placed size entry) (second : Placed size other) (differ : entry.2 ≠ other.2)
    {s : Nat} (inside : Within entry s) : ¬Within other s := by
  rintro ⟨low,high⟩
  have small₁ := first.small
  have small₂ := second.small
  have counted₁ := first.counted
  have counted₂ := second.counted
  unfold Within start at inside
  unfold start at low high
  unfold TupleSet.numRows at small₁ small₂
  rcases Nat.lt_or_gt_of_ne differ with before | after
  · have next : DefaultChunkSize*(entry.2-1)+DefaultChunkSize ≤ DefaultChunkSize*(other.2-1) := by
      rw [← Nat.mul_succ]
      exact Nat.mul_le_mul_left _ (by omega)
    omega
  · have next : DefaultChunkSize*(other.2-1)+DefaultChunkSize ≤ DefaultChunkSize*(entry.2-1) := by
      rw [← Nat.mul_succ]
      exact Nat.mul_le_mul_left _ (by omega)
    omega

theorem sliceOf_clearBits_congr {bits bits' : List Bool} (same : sliceOf bits entry = sliceOf bits' entry)
    {hits hits' : List Nat} (agree : ∀ s, Within entry s → (s ∈ hits ↔ s ∈ hits')) :
    sliceOf (clearBits hits bits) entry = sliceOf (clearBits hits' bits') entry := by
  apply List.ext_getElem?
  intro i
  have bit := congrArg (·[i]?) same
  simp only [sliceOf,List.getElem?_take,List.getElem?_drop] at bit ⊢
  split
  next inside =>
    rw [if_pos inside,if_pos inside] at bit
    rw [getElem?_clearBits,getElem?_clearBits,bit]
    simp only [agree (start entry+i) ⟨Nat.le_add_right _ _,by omega⟩]
  next => rfl

theorem sliceOf_clearBits_outside {hits : List Nat} (outside : ∀ s ∈ hits, ¬Within entry s) (bits : List Bool) :
    sliceOf (clearBits hits bits) entry = sliceOf bits entry := by
  have none_ : sliceOf (clearBits hits bits) entry = sliceOf (clearBits [] bits) entry := by
    apply sliceOf_clearBits_congr rfl
    intro s inside
    exact iff_of_false (fun member => outside s member inside) List.not_mem_nil
  exact none_

theorem batchHits_within {rows : List (DeltaRow n α)} {s : Nat}
    (member : s ∈ batchHits entry.1.rows (start entry) rows) : Within entry s := by
  obtain ⟨t,_,hit⟩ := List.mem_filterMap.mp member
  obtain ⟨pos,found,rfl⟩ := Option.map_eq_some_iff.mp hit
  exact ⟨Nat.le_add_right _ _,Nat.add_lt_add_left (batchHit_lt found) _⟩

theorem orderHit_of_hit {batch : TupleSet (Row n α)} {num : Int32} {pos : Nat}
    (hit : batchHit batch.rows num = some pos) (count : Nat) :
    orderHit ((batch,count)::order) num = some (start (batch,count)+pos) := by
  rw [orderHit,hit]

theorem orderHit_of_miss {batch : TupleSet (Row n α)} {num : Int32} (missed : batchHit batch.rows num = none)
    (count : Nat) : orderHit ((batch,count)::order) num = orderHit order num := by
  rw [orderHit,missed]

theorem orderHit_within {num : Int32} {s : Nat} (hit : orderHit order num = some s) :
    ∃ entry ∈ order, Within entry s := by
  induction order with
  | nil => cases hit
  | cons entry order ih =>
    unfold orderHit at hit
    split at hit
    next pos found =>
      rw [← Option.some.inj hit]
      exact ⟨entry,List.mem_cons_self,Nat.le_add_right _ _,Nat.add_lt_add_left (batchHit_lt found) _⟩
    next missed =>
      obtain ⟨other,member,inside⟩ := ih hit
      exact ⟨other,List.mem_cons_of_mem _ member,inside⟩

theorem mem_foundIn {rows : List (DeltaRow n α)} {s : Nat} :
    s ∈ foundIn order rows ↔ ∃ t ∈ rows, orderHit order (firstColumn t.key) = some s := List.mem_filterMap

theorem mem_foundIn_head (apart : ∀ other ∈ order, ∀ s, Within entry s → ¬Within other s)
    (rows : List (DeltaRow n α)) {s : Nat} (inside : Within entry s) :
    s ∈ foundIn (entry::order) rows ↔ s ∈ batchHits entry.1.rows (start entry) rows := by
  rw [mem_foundIn,batchHits,List.mem_filterMap]
  apply exists_congr
  intro t
  apply and_congr_right
  intro _
  rw [orderHit]
  cases batchHit entry.1.rows (firstColumn t.key) with
  | some pos => rfl
  | none =>
    simp only [Option.map_none,reduceCtorEq,iff_false]
    intro later
    obtain ⟨other,member,beyond⟩ := orderHit_within later
    exact apart other member s inside beyond

theorem mem_foundIn_tail {rows : List (DeltaRow n α)} {s : Nat} (outside : ¬Within entry s) :
    s ∈ foundIn (entry::order) rows ↔
      s ∈ foundIn order (rows.filter (fun t => (batchHit entry.1.rows (firstColumn t.key)).isNone)) := by
  rw [mem_foundIn,mem_foundIn]
  apply exists_congr
  intro t
  rw [List.mem_filter,and_assoc]
  apply and_congr_right
  intro _
  rw [orderHit]
  cases found : batchHit entry.1.rows (firstColumn t.key) with
  | none => simp
  | some pos =>
    simp only [Option.isNone_some,Bool.false_eq_true,false_and,iff_false,Option.some.injEq]
    rintro rfl
    exact outside ⟨Nat.le_add_right _ _,Nat.add_lt_add_left (batchHit_lt found) _⟩

end Slices

section Run
variable {deltas : List (DeltaVersion n α)}
  {tail left : List (DeltaRow n α)} {positions : List (Nat × List Int32)} {bits : List Bool}
  {order : List (TupleSet (Row n α) × Nat)}

/-- The queue holds what has been merged so far, but for the rows of the last chunk. -/
def Pushed (merge : Merge n α σ) : Prop :=
  merge.batched.chunkCounter*DefaultChunkSize ≤ (merge.batched.evaluatedData.getD []).length ∧
    merge.batchQueue.flatten =
      (merge.batched.evaluatedData.getD []).take (merge.batched.chunkCounter*DefaultChunkSize)

/-- The merge before the batches of `order`, none of which it has touched. -/
structure Before (deltas : List (DeltaVersion n α)) (tail left : List (DeltaRow n α))
    (positions : List (Nat × List Int32)) (bits : List Bool) (order : List (TupleSet (Row n α) × Nat))
    (merge : Merge n α σ) : Prop where
  placed : ∀ entry ∈ order, Placed bits.length entry
  apart : (order.map Prod.snd).Nodup
  bitmap : ∃ current, merge.batched.stableBm = some current ∧ current.length = bits.length ∧
    ∀ entry ∈ order, sliceOf current entry = sliceOf bits entry
  pushed : Pushed merge
  mode : ∃ keepMap, (∀ entry ∈ order.head?, (if entry.2 = 1 then firstBatch deltas merge.batched.keepMapCacheMode
    else some merge.batched.keepMapCacheMode) = some keepMap) ∧ Ready tail left positions keepMap
  later : ∀ entry ∈ order.tail, entry.2 ≠ 1

private theorem Before.disjoint {entry : TupleSet (Row n α) × Nat} {merge : Merge n α σ}
    (before : Before deltas tail left positions bits (entry::order) merge) :
    ∀ other ∈ order, ∀ s, Within entry s → ¬Within other s := by
  intro other member s inside
  apply (before.placed entry List.mem_cons_self).disjoint (before.placed other (List.mem_cons_of_mem _ member)) _
    inside
  intro same
  have distinct := before.apart
  rw [List.map_cons,List.nodup_cons] at distinct
  exact distinct.1 (List.mem_map.mpr ⟨other,member,same.symm⟩)

private theorem before_step {reader : TableBatchReader} {project : Row n α → σ} (columns : 0 < n)
    (nonempty : deltas ≠ []) (several : tail = [] ∨ 1 < deltas.length) {entry : TupleSet (Row n α) × Nat}
    {merge : Merge n α σ} (before : Before deltas tail left positions bits (entry::order) merge)
    (filled : Filled reader (entry.1.projectExist project)) :
    ∃ merge', merge.mergeBatch reader project deltas entry.1 entry.2 = some merge' ∧
      Before deltas tail (left.filter (fun t => (batchHit entry.1.rows (firstColumn t.key)).isNone)) positions bits
        order merge' ∧
      merge'.batched.evaluatedData = some (merge.batched.evaluatedData.getD [] ++
        (keepRows (sliceOf (clearBits (foundIn (entry::order) left) bits) entry) entry.1.rows).map project) ∧
      merge'.batched.keepMapCacheMode.deltasPos = positions := by
  obtain ⟨current,bitmap,size,slices⟩ := before.bitmap
  obtain ⟨keepMap,prepared,ready⟩ := before.mode
  have here := before.placed entry List.mem_cons_self
  have head : entry ∈ (entry::order).head? := rfl
  obtain ⟨pushed,op',returned,bitmap',data,chunk,ready',left_,front⟩ := stablesBatchedDeltaMerge_batch
    columns nonempty several bitmap before.pushed.1 (prepared entry head) ready here.counted rfl
    (by rw [size]; exact here.room) here.nonempty here.small (by rw [size]; exact here.cut) filled
  have disjoint := before.disjoint
  have own : sliceOf (clearBits (batchHits entry.1.rows (start entry) left) current) entry =
      sliceOf (clearBits (foundIn (entry::order) left) bits) entry := by
    apply sliceOf_clearBits_congr (slices entry List.mem_cons_self)
    intro s inside
    exact (mem_foundIn_head disjoint left inside).symm
  rw [← own]
  refine ⟨_,by rw [Merge.mergeBatch,returned]; rfl,?_,data,left_⟩
  have apart := before.apart
  rw [List.map_cons,List.nodup_cons] at apart
  refine ⟨fun other member => before.placed other (List.mem_cons_of_mem _ member),apart.2,⟨_,bitmap',?_,?_⟩,
    ⟨chunk,?_⟩,⟨op'.keepMapCacheMode,?_,ready'⟩,fun other member => before.later other (List.mem_of_mem_tail member)⟩
  · rw [length_clearBits,size]
  · intro other member
    rw [← slices other (List.mem_cons_of_mem _ member)]
    apply sliceOf_clearBits_outside
    intro s hit
    exact disjoint other member s (batchHits_within hit)
  · rw [List.flatten_append,before.pushed.2]
    exact front
  · intro other member
    rw [if_neg (before.later other (List.mem_of_mem_head? member))]

theorem mergeBatches_rows {reader : TableBatchReader} {project : Row n α → σ} (columns : 0 < n)
    (nonempty : deltas ≠ []) (several : tail = [] ∨ 1 < deltas.length) {merge : Merge n α σ}
    (before : Before deltas tail left positions bits order merge)
    (filled : ∀ entry ∈ order, Filled reader (entry.1.projectExist project)) :
    ∃ merge', mergeBatches reader project deltas merge order = some merge' ∧ Pushed merge' ∧
      merge'.batched.evaluatedData.getD [] = merge.batched.evaluatedData.getD [] ++
        (keptIn (clearBits (foundIn order left) bits) order).map project ∧
      (order ≠ [] → merge'.batched.keepMapCacheMode.deltasPos = positions ∧
        merge'.batched.evaluatedData.isSome) ∧
      (order = [] → merge' = merge) := by
  induction order generalizing merge left with
  | nil => exact ⟨merge,rfl,before.pushed,by simp [keptIn],fun none_ => absurd rfl none_,fun _ => rfl⟩
  | cons entry order ih =>
    obtain ⟨here,later⟩ := List.forall_mem_cons.mp filled
    obtain ⟨merge₁,returned,before₁,data,left_⟩ := before_step columns nonempty several before here
    obtain ⟨merge₂,returned₂,pushed,data₂,ran,idle⟩ := ih before₁ later
    refine ⟨merge₂,?_,pushed,?_,?_,fun nil => absurd nil (List.cons_ne_nil _ _)⟩
    · rw [mergeBatches,returned]
      exact returned₂
    · have rest : keptIn (clearBits (foundIn order
            (left.filter (fun t => (batchHit entry.1.rows (firstColumn t.key)).isNone))) bits) order =
          keptIn (clearBits (foundIn (entry::order) left) bits) order := by
        apply List.flatMap_congr
        intro other member
        congr 1
        apply sliceOf_clearBits_congr rfl
        intro s inside
        exact (mem_foundIn_tail (fun beyond => before.disjoint other member s beyond inside)).symm
      rw [data₂,data,Option.getD_some,rest,List.append_assoc,← List.map_append]
      rfl
    · intro _
      by_cases last : order = []
      · rw [idle last]
        exact ⟨left_,by rw [data]; rfl⟩
      · exact ran last

end Run

section Scan
variable {batches : List (TupleSet (Row n α))}

private theorem cut_nonempty {ρ : Type} {batches : List (TupleSet ρ)} (cut : Cut batches) {batch : TupleSet ρ}
    (member : batch ∈ batches) : 0 < batch.numRows := by
  induction batches with
  | nil => cases member
  | cons first batches ih =>
    obtain ⟨some_,_,_,rest⟩ := cut
    rcases List.mem_cons.mp member with rfl | later
    · exact some_
    · exact ih rest later

theorem numbered_placed (cut : Cut batches) {entry : TupleSet (Row n α) × Nat} (member : entry ∈ numbered batches) :
    Placed (batches.flatMap TupleSet.rows).length entry := by
  obtain ⟨batch,count⟩ := entry
  obtain ⟨counted,found⟩ := List.mk_mem_zipIdx_iff_le_and_getElem?_sub.mp member
  obtain ⟨small,room,last⟩ := Cut.batch_at cut found
  exact ⟨counted,room,cut_nonempty cut (List.mem_of_getElem? found),small,last⟩

theorem mem_of_numbered {entry : TupleSet (Row n α) × Nat} (member : entry ∈ numbered batches) : entry.1 ∈ batches := by
  obtain ⟨batch,count⟩ := entry
  exact List.fst_mem_of_mem_zipIdx member

theorem numbered_counts (batches : List (TupleSet (Row n α))) :
    (numbered batches).map Prod.snd = List.range' 1 batches.length := by
  simp [numbered]

private theorem keptIn_zipIdx (cut : Cut batches) (bits : List Bool) {first : Nat}
    (size : DefaultChunkSize*first+(batches.flatMap TupleSet.rows).length = bits.length) :
    keptIn bits (batches.zipIdx (first+1)) =
      keepRows (bits.drop (DefaultChunkSize*first)) (batches.flatMap TupleSet.rows) := by
  induction batches generalizing first with
  | nil => rfl
  | cons batch batches ih =>
    obtain ⟨_,_,full,rest⟩ := cut
    rw [List.flatMap_cons,List.length_append] at size
    rw [List.zipIdx_cons,keptIn,List.flatMap_cons,List.flatMap_cons,keepRows_append _ _ _ (by
      rw [List.length_drop]
      omega)]
    congr 1
    cases batches with
    | nil => rfl
    | cons next batches =>
      have whole : batch.rows.length = DefaultChunkSize := full (List.cons_ne_nil _ _)
      rw [List.drop_drop,whole,← Nat.mul_succ]
      apply ih rest
      rw [Nat.mul_succ]
      omega

theorem keptIn_numbered (cut : Cut batches) {bits : List Bool}
    (size : bits.length = (batches.flatMap TupleSet.rows).length) :
    keptIn bits (numbered batches) = keepRows bits (batches.flatMap TupleSet.rows) := by
  have origin : DefaultChunkSize*0+(batches.flatMap TupleSet.rows).length = bits.length := by
    rw [Nat.mul_zero,Nat.zero_add,size]
  exact keptIn_zipIdx cut bits origin

theorem mergeOrder_perm (batches : List (TupleSet (Row n α))) (early : Nat) :
    (mergeOrder batches early).Perm (numbered batches) := by
  have front := List.take_append_drop 1 ((numbered batches).take early)
  have whole := List.take_append_drop early (numbered batches)
  have swapped : (mergeOrder batches early).Perm (((numbered batches).take early).take 1 ++
      (((numbered batches).take early).drop 1 ++ (numbered batches).drop early)) := by
    rw [mergeOrder,List.append_assoc]
    exact List.Perm.append_left _ List.perm_append_comm
  rwa [← List.append_assoc,front,whole] at swapped

theorem mergeOrder_cons (batch : TupleSet (Row n α)) (batches : List (TupleSet (Row n α))) (early : Nat) :
    ∃ rest, mergeOrder (batch::batches) early = (batch,1)::rest := by
  cases early with
  | zero => exact ⟨_,rfl⟩
  | succ early => exact ⟨_,rfl⟩

end Scan

section Whole
variable {deltas : List (DeltaVersion n α)} {mem tail : List (DeltaRow n α)} {batches : List (TupleSet (Row n α))}
  {bits : List Bool}

private theorem before_all (cut : Cut batches) (size : bits.length = (batches.flatMap TupleSet.rows).length)
    (early : Nat) {keepMap : KeepMap n α} {positions : List (Nat × List Int32)} {left : List (DeltaRow n α)}
    (prepared : firstBatch deltas (.empty n α) = some keepMap) (ready : Ready tail left positions keepMap) :
    Before deltas tail left positions bits (mergeOrder batches early)
      (.start (some bits) : Merge n α σ) := by
  have perm := mergeOrder_perm batches early
  have counts : ((mergeOrder batches early).map Prod.snd).Nodup := by
    rw [(perm.map Prod.snd).nodup_iff,numbered_counts]
    exact List.nodup_range'
  have ones : ∀ entry ∈ (mergeOrder batches early).head?, entry.2 = 1 := by
    intro entry head
    cases batches with
    | nil => simp [mergeOrder,numbered] at head
    | cons batch batches =>
      obtain ⟨rest,order⟩ := mergeOrder_cons batch batches early
      rw [order] at head
      obtain rfl : (batch,1) = entry := by simpa using head
      rfl
  refine ⟨?_,counts,⟨bits,rfl,rfl,fun _ _ => rfl⟩,⟨by simp [Merge.start,BatchedState.start],
    by simp [Merge.start,BatchedState.start]⟩,⟨keepMap,?_,ready⟩,?_⟩
  · intro entry member
    rw [size]
    exact numbered_placed cut (perm.mem_iff.mp member)
  · intro entry head
    rw [if_pos (ones entry head)]
    exact prepared
  · intro entry later one
    cases found : mergeOrder batches early with
    | nil =>
      rw [found] at later
      cases later
    | cons first rest =>
      rw [found] at counts later ones
      have head : first.2 = 1 := ones first rfl
      rw [List.map_cons,List.nodup_cons] at counts
      exact counts.1 (List.mem_map.mpr ⟨entry,later,one.trans head.symm⟩)

private theorem calls_mergeBatches {reader : TableBatchReader} {project : Row n α → σ}
    {order : List (TupleSet (Row n α) × Nat)} {merge merge' : Merge n α σ}
    (returned : mergeBatches reader project deltas merge order = some merge') :
    merge'.calls = merge.calls ++ order.map (fun entry => .stablesBatchedDeltaMerge entry.1 entry.2) := by
  induction order generalizing merge with
  | nil =>
    rw [mergeBatches,Option.some.injEq] at returned
    rw [← returned,List.map_nil,List.append_nil]
  | cons entry order ih =>
    obtain ⟨merge₁,one,rest⟩ := Option.bind_eq_some_iff.mp returned
    obtain ⟨⟨pushed,batched⟩,_,own⟩ := Option.bind_eq_some_iff.mp one
    rw [ih rest,← Option.some.inj own,List.map_cons,List.append_assoc]
    rfl

private theorem mergeBatches_unfilled {reader : TableBatchReader} {project : Row n α → σ} (nonempty : deltas ≠ [])
    {order : List (TupleSet (Row n α) × Nat)} {entry : TupleSet (Row n α) × Nat} (member : entry ∈ order)
    (unfilled : ¬Filled reader (entry.1.projectExist project)) (merge : Merge n α σ) :
    mergeBatches reader project deltas merge order = none := by
  induction order generalizing merge with
  | nil => cases member
  | cons first order ih =>
    rw [mergeBatches,Merge.mergeBatch]
    rcases List.mem_cons.mp member with rfl | later
    · rw [stablesBatchedDeltaMerge_unfilled nonempty unfilled]
      rfl
    · cases stablesBatchedDeltaMerge reader project deltas merge.batched first.1 first.2 with
      | none => rfl
      | some result => exact ih later _

/-- All merges of one operator, in any order of its batches: they stop where the last one
reads what is not there, and otherwise push the kept stable rows and the delta rows. -/
theorem mergeAll_spec {reader : TableBatchReader} {project : Row n α → σ} (columns : 0 < n) (nonempty : deltas ≠ [])
    (sets : SetsUp deltas mem tail) (cut : Cut batches) (size : bits.length = (batches.flatMap TupleSet.rows).length)
    (filled : BatchesFilled reader project batches) (early : Nat) :
    (Completes reader deltas mem tail batches.length → ∃ merge tuple,
      (mergeBatches reader project deltas (.start (some bits)) (mergeOrder batches early)).bind
        (Merge.mergeDeltas reader project deltas batches.length) = some merge ∧
      tuple = lastKept deltas mem tail batches.length ++ firstRows deltas ∧
      merge.calls = (mergeOrder batches early).map (fun entry => .stablesBatchedDeltaMerge entry.1 entry.2) ++
        [.deltasDeltaMerge] ∧
      merge.batchQueue.flatten = (keptIn (clearBits (foundIn (mergeOrder batches early) (asked mem tail)) bits)
        (mergeOrder batches early) ++ tuple.map (·.toRow)).map project) ∧
    (¬Completes reader deltas mem tail batches.length →
      (mergeBatches reader project deltas (.start (some bits)) (mergeOrder batches early)).bind
        (Merge.mergeDeltas reader project deltas batches.length) = none) := by
  obtain ⟨keepMap,prepared,ready⟩ := ready_start sets
  have before := before_all (σ := σ) cut size early prepared ready
  have each : ∀ entry ∈ mergeOrder batches early, Filled reader (entry.1.projectExist project) := fun entry member =>
    filled _ (mem_of_numbered ((mergeOrder_perm batches early).mem_iff.mp member))
  obtain ⟨merge,returned,pushed,data,ran,idle⟩ := mergeBatches_rows columns nonempty sets.several before each
  have empty : batches.length = 0 → mergeOrder batches early = [] := by
    intro zero
    rw [List.length_eq_zero_iff.mp zero]
    simp [mergeOrder,numbered]
  have some_ : batches.length ≠ 0 → mergeOrder batches early ≠ [] := by
    intro some_ none_
    have perm := mergeOrder_perm batches early
    rw [none_] at perm
    exact some_ (List.length_eq_zero_iff.mpr (List.zipIdx_eq_nil_iff.mp perm.nil_eq.symm))
  obtain ⟨completed,stuck⟩ := deltasDeltaMerge_spec reader project nonempty (fun _ => sets) pushed.1
    (fun zero => by rw [idle (empty zero)]; exact ⟨rfl,rfl⟩) (fun more => ran (some_ more))
  rw [returned,Option.bind_some]
  constructor
  · intro completes
    obtain ⟨chunks,tuple,called,rows,all⟩ := completed completes
    refine ⟨_,tuple.rows,by rw [Merge.mergeDeltas,called]; rfl,rows,?_,?_⟩
    · change merge.calls ++ _ = _
      rw [calls_mergeBatches returned]
      rfl
    · change (merge.batchQueue ++ chunks).flatten = _
      rw [List.flatten_append,pushed.2,all,data,List.map_append]
      rfl
  · intro open_
    rw [Merge.mergeDeltas,stuck open_]
    rfl

end Whole

section Claim
variable (reader : TableBatchReader) (project : Row n α → σ) (deltas : List (DeltaVersion n α))
  (stableBm : Option (List Bool)) (batches : List (TupleSet (Row n α)))

/-- Every batch is merged once, with its position in the scan, the first one before the
others, and the deltas are merged once, after all batches. -/
def RunsAll (calls : List (Call n α)) : Prop :=
  ∃ order : List (TupleSet (Row n α) × Nat), order.Perm (numbered batches) ∧ order.head? = (numbered batches).head? ∧
    calls = order.map (fun entry => .stablesBatchedDeltaMerge entry.1 entry.2) ++ [.deltasDeltaMerge]

/-- The operator runs all merges, and queues what it queues when the deltas come first. -/
def ArrivalIndependent (early others : Nat) : Prop :=
  ∃ first op, receiveAll reader project true .initial (arrivals deltas stableBm batches 0 others) = some first ∧
    receiveAll reader project true .initial (arrivals deltas stableBm batches early others) = some op ∧
    RunsAll batches op.merge.calls ∧ op.merge.batchQueue.flatten.Perm first.merge.batchQueue.flatten

/-- The merge finds what it reads: no record batch of a stable batch is empty, and there
are the memory delta and the tail, a bitmap, and rows left in the record batches of the
last delta. -/
def Mergeable : Prop :=
  deltas = [] ∨ (BatchesFilled reader project batches ∧
    (batches ≠ [] → (firstBatch deltas (.empty n α)).isSome ∧ stableBm.isSome) ∧
    Completes reader deltas (memOf deltas) (tailOf deltas) batches.length)

def columnsOf (batches : List (TupleSet (Row n α))) : List Int32 :=
  (batches.flatMap TupleSet.rows).map (fun row => firstColumn row.key)

/-- A first column with rows on both sides of the deltas, though none in the first batch. -/
def Straddles (early : Nat) (num : Int32) : Prop :=
  num ∉ columnsOf (batches.take 1) ∧ num ∈ columnsOf ((batches.take early).drop 1) ∧
    num ∈ columnsOf (batches.drop early)

def setRow (s : Nat) : Option (Row n α) :=
  if (stableBm.getD [])[s]? = some true then (batches.flatMap TupleSet.rows)[s]? else none

/-- A tail row that is searched for and straddles the deltas takes the same row away
whether the search begins with all batches or with those behind the deltas. -/
def SameRowTaken (early : Nat) : Prop :=
  ∀ t, SearchedFor (memOf deltas) (tailOf deltas) t → Straddles batches early (firstColumn t.key) →
    (((landingRow 0 batches (firstColumn t.key)).bind (setRow stableBm batches)).map project =
      ((landingRow (DefaultChunkSize*early) (batches.drop early) (firstColumn t.key)).bind
        (setRow stableBm batches)).map project)

/-- The stable rows that tail UPDATEs find, of those whose bit is set, when the batches
are searched in this order. -/
def foundRows (order : List (TupleSet (Row n α) × Nat)) : List (Row n α) :=
  keepRows (((stableBm.getD []).zipIdx).map (fun (bit,s) =>
    bit && decide (s ∈ foundIn order (asked (memOf deltas) (tailOf deltas))))) (batches.flatMap TupleSet.rows)

end Claim

section Partition
variable {ρ : Type}

private theorem clearBits_eq_map (hits : List Nat) (bits : List Bool) :
    clearBits hits bits = bits.zipIdx.map (fun (bit,s) => bit && decide (s ∉ hits)) := by
  apply List.ext_getElem?
  intro s
  rw [getElem?_clearBits,List.getElem?_map,List.getElem?_zipIdx]
  simp [Function.comp_def]

private theorem keepRows_partition (hits : List Nat) (bits : List Bool) (rows : List ρ) :
    (keepRows (clearBits hits bits) rows ++
      keepRows (bits.zipIdx.map (fun (bit,s) => bit && decide (s ∈ hits))) rows).Perm (keepRows bits rows) := by
  rw [clearBits_eq_map]
  generalize 0 = first
  induction rows generalizing bits first with
  | nil => simp [keepRows]
  | cons row rows ih =>
    cases bits with
    | nil => simp [keepRows]
    | cons bit bits =>
      have rest := ih bits (first+1)
      unfold keepRows at rest ⊢
      simp only [List.zipIdx_cons,List.map_cons,List.zip_cons_cons,List.filterMap_cons]
      cases bit with
      | false => simpa using rest
      | true =>
        by_cases hit : first ∈ hits
        · simp only [hit,not_true_eq_false,decide_false,Bool.and_false,Bool.false_eq_true,if_false,decide_true,
            Bool.and_true,if_true]
          exact List.perm_middle.trans (List.Perm.cons row rest)
        · simp only [hit,not_false_eq_true,decide_true,Bool.and_true,if_true,decide_false,Bool.and_false,
            Bool.false_eq_true,if_false,List.cons_append]
          exact List.Perm.cons row rest

private theorem perm_iff_rest {kept found kept' found' whole : List ρ} (first : (kept ++ found).Perm whole)
    (second : (kept' ++ found').Perm whole) : kept.Perm kept' ↔ found.Perm found' := by
  have both : (kept ++ found).Perm (kept' ++ found') := first.trans second.symm
  constructor
  · intro same
    exact (List.perm_append_left_iff kept).mp (both.trans (same.symm.append_right found'))
  · intro same
    exact (List.perm_append_right_iff found).mp (both.trans (same.symm.append_left kept'))

end Partition

section Independence
variable {reader : TableBatchReader} {project : Row n α → σ} {deltas : List (DeltaVersion n α)}
  {stableBm : Option (List Bool)} {batches : List (TupleSet (Row n α))} {early : Nat}

/-- All merges of an operator with that many early batches. -/
def allMerges (reader : TableBatchReader) (project : Row n α → σ) (deltas : List (DeltaVersion n α))
    (stableBm : Option (List Bool)) (batches : List (TupleSet (Row n α))) (early : Nat) : Option (Merge n α σ) :=
  (mergeBatches reader project deltas (.start stableBm) (mergeOrder batches early)).bind
    (Merge.mergeDeltas reader project deltas batches.length)

private theorem mem_foundRows {order : List (TupleSet (Row n α) × Nat)} {row : Row n α} :
    row ∈ foundRows deltas stableBm batches order ↔ ∃ s, (batches.flatMap TupleSet.rows)[s]? = some row ∧
      (stableBm.getD [])[s]? = some true ∧ s ∈ foundIn order (asked (memOf deltas) (tailOf deltas)) := by
  rw [foundRows,mem_keepRows]
  apply exists_congr
  intro s
  apply and_congr_right
  intro _
  rw [List.getElem?_map,List.getElem?_zipIdx]
  cases (stableBm.getD [])[s]? <;> simp

private theorem independent_iff (arrived : early ≤ batches.length) (others : Nat) :
    ArrivalIndependent reader project deltas stableBm batches early others ↔
      ∃ first merge, allMerges reader project deltas stableBm batches 0 = some first ∧
        allMerges reader project deltas stableBm batches early = some merge ∧ RunsAll batches merge.calls ∧
        merge.batchQueue.flatten.Perm first.batchQueue.flatten := by
  have scan := receiveAll_arrivals reader project deltas stableBm batches (Nat.zero_le _) others
  have parked := receiveAll_arrivals reader project deltas stableBm batches arrived others
  change _ = allMerges reader project deltas stableBm batches 0 at scan
  change _ = allMerges reader project deltas stableBm batches early at parked
  constructor
  · rintro ⟨first,op,received,received',runs,queue⟩
    rw [received,Option.map_some] at scan
    rw [received',Option.map_some] at parked
    exact ⟨first.merge,op.merge,scan.symm,parked.symm,runs,queue⟩
  · rintro ⟨first,merge,merged,merged',runs,queue⟩
    rw [merged] at scan
    rw [merged'] at parked
    obtain ⟨op,received,rfl⟩ := Option.map_eq_some_iff.mp scan
    obtain ⟨op',received',rfl⟩ := Option.map_eq_some_iff.mp parked
    exact ⟨op,op',received,received',runs,queue⟩

private theorem runsAll_mergeOrder (batches : List (TupleSet (Row n α))) (early : Nat) :
    RunsAll batches ((mergeOrder batches early).map
      (fun entry => (.stablesBatchedDeltaMerge entry.1 entry.2 : Call n α)) ++ [.deltasDeltaMerge]) := by
  refine ⟨mergeOrder batches early,mergeOrder_perm batches early,?_,rfl⟩
  cases batches with
  | nil => simp [mergeOrder,numbered]
  | cons batch batches =>
    obtain ⟨rest,order⟩ := mergeOrder_cons batch batches early
    rw [order]
    rfl

private theorem mergeBatches_noDeltas (reader : TableBatchReader) (project : Row n α → σ)
    (merge : Merge n α σ) (order : List (TupleSet (Row n α) × Nat)) :
    ∃ merge', mergeBatches reader project [] merge order = some merge' ∧
      merge'.batchQueue.flatten = merge.batchQueue.flatten ++
        (order.flatMap (fun entry => entry.1.rows)).map project := by
  induction order generalizing merge with
  | nil => exact ⟨merge,rfl,by simp⟩
  | cons entry order ih =>
    obtain ⟨merge',returned,rows⟩ := ih
      {merge with
        batchQueue := merge.batchQueue ++ [(entry.1.projectExist project).rows]
        calls := merge.calls ++ [.stablesBatchedDeltaMerge entry.1 entry.2]}
    refine ⟨merge',returned,?_⟩
    rw [rows]
    simp

private theorem allMerges_noDeltas (reader : TableBatchReader) (project : Row n α → σ) (stableBm : Option (List Bool))
    (batches : List (TupleSet (Row n α))) (early : Nat) :
    ∃ merge, allMerges reader project [] stableBm batches early = some merge ∧ RunsAll batches merge.calls ∧
      merge.batchQueue.flatten = ((mergeOrder batches early).flatMap (fun entry => entry.1.rows)).map project := by
  obtain ⟨merge,returned,rows⟩ := mergeBatches_noDeltas reader project (.start stableBm) (mergeOrder batches early)
  refine ⟨_,by rw [allMerges,returned]; rfl,?_,?_⟩
  · change RunsAll batches (merge.calls ++ [.deltasDeltaMerge])
    rw [calls_mergeBatches returned]
    exact runsAll_mergeOrder batches early
  · change (merge.batchQueue ++ []).flatten = _
    rw [List.append_nil,rows]
    rfl

private theorem allMerges_stuck (nonempty : deltas ≠ []) (some_ : batches ≠ [])
    (unready : ¬((firstBatch deltas (.empty n α)).isSome ∧ stableBm.isSome)) (early : Nat) :
    allMerges reader project deltas stableBm batches early = none := by
  obtain ⟨batch,batches,rfl⟩ := List.exists_cons_of_ne_nil some_
  obtain ⟨rest,order⟩ := mergeOrder_cons batch batches early
  rw [allMerges,order,mergeBatches,Merge.mergeBatch]
  cases returned : stablesBatchedDeltaMerge reader project deltas
      (Merge.start stableBm : Merge n α σ).batched batch 1 with
  | none => rfl
  | some result =>
    obtain ⟨bitmap,sets⟩ := first_call nonempty returned
    obtain ⟨fresh,prepared,_⟩ := sets.setup (.empty n α)
    exact absurd ⟨by rw [prepared]; rfl,bitmap⟩ unready

private theorem allMerges_unfilled (nonempty : deltas ≠ []) (unfilled : ¬BatchesFilled reader project batches)
    (early : Nat) : allMerges reader project deltas stableBm batches early = none := by
  unfold BatchesFilled at unfilled
  push Not at unfilled
  obtain ⟨batch,member,unfilled⟩ := unfilled
  obtain ⟨i,found⟩ := List.mem_iff_getElem?.mp member
  have entry : (batch,1+i) ∈ mergeOrder batches early :=
    (mergeOrder_perm batches early).mem_iff.mpr (List.mk_mem_zipIdx_iff_le_and_getElem?_sub.mpr
      ⟨by omega,by simpa using found⟩)
  rw [allMerges,mergeBatches_unfilled nonempty entry unfilled]
  rfl

private theorem allMerges_deltas (columns : 0 < n) (nonempty : deltas ≠ []) (cut : Cut batches)
    (size : ∀ bits ∈ stableBm, bits.length = (batches.flatMap TupleSet.rows).length)
    (filled : BatchesFilled reader project batches)
    (found : batches ≠ [] → (firstBatch deltas (.empty n α)).isSome ∧ stableBm.isSome)
    (arrived : early ≤ batches.length) :
    (Completes reader deltas (memOf deltas) (tailOf deltas) batches.length → ∃ merge,
      allMerges reader project deltas stableBm batches early = some merge ∧ RunsAll batches merge.calls ∧
      merge.batchQueue.flatten = (keptIn (clearBits (foundIn (mergeOrder batches early)
        (asked (memOf deltas) (tailOf deltas))) (stableBm.getD [])) (mergeOrder batches early) ++
        (lastKept deltas (memOf deltas) (tailOf deltas) batches.length ++
          firstRows deltas).map (·.toRow)).map project) ∧
    (¬Completes reader deltas (memOf deltas) (tailOf deltas) batches.length →
      allMerges reader project deltas stableBm batches early = none) := by
  by_cases some_ : batches = []
  · subst some_
    obtain rfl : early = 0 := Nat.le_zero.mp arrived
    have sets : ([] : List (TupleSet (Row n α))).length ≠ 0 → SetsUp deltas (memOf deltas) (tailOf deltas) :=
      fun none_ => absurd rfl none_
    have chunk : (BatchedState.start stableBm : BatchedState n α σ).chunkCounter*DefaultChunkSize ≤
        ((BatchedState.start stableBm : BatchedState n α σ).evaluatedData.getD []).length := by
      simp [BatchedState.start]
    have only : allMerges reader project deltas stableBm [] 0 =
        Merge.mergeDeltas reader project deltas 0 (.start stableBm) := rfl
    obtain ⟨completed,stuck⟩ := deltasDeltaMerge_spec reader project nonempty sets chunk (fun _ => ⟨rfl,rfl⟩)
      (fun none_ => absurd rfl none_)
    rw [only]
    constructor
    · intro completes
      obtain ⟨chunks,tuple,called,rows,all⟩ := completed completes
      refine ⟨_,by rw [Merge.mergeDeltas]; exact congrArg (Option.bind · _) called,runsAll_mergeOrder [] 0,?_⟩
      rw [← rows]
      simpa [Merge.start,BatchedState.start,keptIn,mergeOrder,numbered] using all
    · intro open_
      rw [Merge.mergeDeltas]
      exact congrArg (Option.bind · _) (stuck open_)
  · obtain ⟨prepared,bitmap⟩ := found some_
    obtain ⟨keepMap,prepared⟩ := Option.isSome_iff_exists.mp prepared
    obtain ⟨bits,rfl⟩ := Option.isSome_iff_exists.mp bitmap
    obtain ⟨completed,stuck⟩ := mergeAll_spec columns nonempty (setsUp_of_firstBatch nonempty prepared)
      cut (size bits rfl) filled early
    refine ⟨?_,stuck⟩
    intro completes
    obtain ⟨merge,tuple,returned,rfl,calls,rows⟩ := completed completes
    refine ⟨merge,returned,?_,rows⟩
    rw [calls]
    exact runsAll_mergeOrder batches early

private theorem kept_partition (deltas : List (DeltaVersion n α)) (cut : Cut batches)
    (size : (stableBm.getD []).length = (batches.flatMap TupleSet.rows).length) (early : Nat) :
    (keptIn (clearBits (foundIn (mergeOrder batches early) (asked (memOf deltas) (tailOf deltas)))
        (stableBm.getD [])) (mergeOrder batches early) ++
      foundRows deltas stableBm batches (mergeOrder batches early)).Perm
      (keepRows (stableBm.getD []) (batches.flatMap TupleSet.rows)) := by
  refine List.Perm.trans ?_ (keepRows_partition (foundIn (mergeOrder batches early)
    (asked (memOf deltas) (tailOf deltas))) (stableBm.getD []) (batches.flatMap TupleSet.rows))
  apply List.Perm.append_right
  rw [← keptIn_numbered cut (by rw [length_clearBits,size])]
  exact (mergeOrder_perm batches early).flatMap_right _

private theorem mergeable_of_returned (columns : 0 < n) (cut : Cut batches)
    (size : ∀ bits ∈ stableBm, bits.length = (batches.flatMap TupleSet.rows).length) (arrived : early ≤ batches.length)
    {merge : Merge n α σ} (merged : allMerges reader project deltas stableBm batches early = some merge) :
    Mergeable reader project deltas stableBm batches := by
  by_cases nonempty : deltas = []
  · exact Or.inl nonempty
  have filled : BatchesFilled reader project batches := by
    by_contra unfilled
    rw [allMerges_unfilled nonempty unfilled early] at merged
    cases merged
  by_cases found : batches ≠ [] → (firstBatch deltas (.empty n α)).isSome ∧ stableBm.isSome
  · obtain ⟨_,stuck⟩ := allMerges_deltas columns nonempty cut size filled found arrived
    refine Or.inr ⟨filled,found,?_⟩
    by_contra open_
    rw [stuck open_] at merged
    cases merged
  · obtain ⟨some_,unready⟩ := Classical.not_imp.mp found
    rw [allMerges_stuck nonempty some_ unready early] at merged
    cases merged

private theorem returned_of_mergeable (columns : 0 < n) (cut : Cut batches)
    (size : ∀ bits ∈ stableBm, bits.length = (batches.flatMap TupleSet.rows).length) (arrived : early ≤ batches.length)
    (nonempty : deltas ≠ []) (mergeable : Mergeable reader project deltas stableBm batches) :
    ∃ merge kept, allMerges reader project deltas stableBm batches early = some merge ∧ RunsAll batches merge.calls ∧
      merge.batchQueue.flatten = kept ++ ((lastKept deltas (memOf deltas) (tailOf deltas) batches.length ++
        firstRows deltas).map (·.toRow)).map project ∧
      (kept ++ (foundRows deltas stableBm batches (mergeOrder batches early)).map project).Perm
        ((keepRows (stableBm.getD []) (batches.flatMap TupleSet.rows)).map project) := by
  obtain ⟨filled,found,completes⟩ := mergeable.resolve_left nonempty
  obtain ⟨completed,_⟩ := allMerges_deltas columns nonempty cut size filled found arrived
  obtain ⟨merge,merged,runs,rows⟩ := completed completes
  have whole : (stableBm.getD []).length = (batches.flatMap TupleSet.rows).length := by
    cases stableBm with
    | none =>
      have none_ : batches = [] := not_not.mp (fun some_ => absurd (found some_).2 Bool.false_ne_true)
      rw [none_]
      rfl
    | some bits => exact size bits rfl
  refine ⟨merge,_,merged,runs,by rw [rows,List.map_append],?_⟩
  rw [← List.map_append]
  exact (kept_partition deltas cut whole early).map project

private theorem independent_of_mergeable (columns : 0 < n) (cut : Cut batches)
    (size : ∀ bits ∈ stableBm, bits.length = (batches.flatMap TupleSet.rows).length) (arrived : early ≤ batches.length)
    (others : Nat) (mergeable : Mergeable reader project deltas stableBm batches) :
    ArrivalIndependent reader project deltas stableBm batches early others ↔
      ((foundRows deltas stableBm batches (mergeOrder batches early)).map project).Perm
        ((foundRows deltas stableBm batches (mergeOrder batches 0)).map project) := by
  rw [independent_iff arrived others]
  by_cases nonempty : deltas = []
  · subst nonempty
    obtain ⟨first,merged₀,_,rows₀⟩ := allMerges_noDeltas reader project stableBm batches 0
    obtain ⟨merge,merged,runs,rows⟩ := allMerges_noDeltas reader project stableBm batches early
    refine iff_of_true ⟨first,merge,merged₀,merged,runs,?_⟩ (List.Perm.refl _)
    rw [rows,rows₀]
    exact (((mergeOrder_perm batches early).trans (mergeOrder_perm batches 0).symm).flatMap_right _).map project
  obtain ⟨merge,kept,merged,runs,rows,part⟩ := returned_of_mergeable columns cut size arrived
    nonempty mergeable
  obtain ⟨first,kept₀,merged₀,_,rows₀,part₀⟩ := returned_of_mergeable columns cut size
    (Nat.zero_le _) nonempty mergeable
  have queues : merge.batchQueue.flatten.Perm first.batchQueue.flatten ↔
      ((foundRows deltas stableBm batches (mergeOrder batches early)).map project).Perm
        ((foundRows deltas stableBm batches (mergeOrder batches 0)).map project) := by
    rw [rows,rows₀,List.perm_append_right_iff]
    exact perm_iff_rest part part₀
  constructor
  · rintro ⟨first',merge',returned₀,returned,_,queue⟩
    obtain rfl : first = first' := Option.some.inj (merged₀.symm.trans returned₀)
    obtain rfl : merge = merge' := Option.some.inj (merged.symm.trans returned)
    exact queues.mp queue
  · intro same
    exact ⟨first,merge,merged₀,merged,runs,queues.mpr same⟩

end Independence

section Border
variable {σ : Type} {project : Row n α → σ} {deltas : List (DeltaVersion n α)} {stableBm : Option (List Bool)}
  {batches : List (TupleSet (Row n α))} {early : Nat} {num : Int32}

theorem orderHit_append (first second : List (TupleSet (Row n α) × Nat)) (num : Int32) :
    orderHit (first ++ second) num = (orderHit first num).or (orderHit second num) := by
  induction first with
  | nil => rfl
  | cons entry first ih =>
    rw [List.cons_append,orderHit,orderHit]
    cases batchHit entry.1.rows num with
    | none => exact ih
    | some pos => rfl

theorem orderHit_zipIdx (sorted : ∀ batch ∈ batches,
    (batch.rows.map (fun row => firstColumn row.key)).Pairwise (· ≤ ·)) (first : Nat) (num : Int32) :
    orderHit (batches.zipIdx (first+1)) num = landingRow (DefaultChunkSize*first) batches num := by
  induction batches generalizing first with
  | nil => rfl
  | cons batch batches ih =>
    obtain ⟨here,later⟩ := List.forall_mem_cons.mp sorted
    rw [List.zipIdx_cons,orderHit,landingRow,batchHit_landing here]
    cases landing batch.rows num with
    | some pos => rfl
    | none => exact ih later (first+1)

theorem orderHit_parts (sorted : ∀ batch ∈ batches,
    (batch.rows.map (fun row => firstColumn row.key)).Pairwise (· ≤ ·)) (early : Nat) (num : Int32) :
    orderHit (mergeOrder batches early) num =
        ((landingRow 0 ((batches.take early).take 1) num).or (landingRow (DefaultChunkSize*early) (batches.drop early) num)).or
          (landingRow DefaultChunkSize ((batches.take early).drop 1) num) ∧
      landingRow 0 batches num =
        ((landingRow 0 ((batches.take early).take 1) num).or (landingRow DefaultChunkSize ((batches.take early).drop 1) num)).or
          (landingRow (DefaultChunkSize*early) (batches.drop early) num) := by
  have taken : ∀ batch ∈ batches.take early, (batch.rows.map (fun row => firstColumn row.key)).Pairwise (· ≤ ·) :=
    fun batch member => sorted batch (List.mem_of_mem_take member)
  have first : orderHit (((numbered batches).take early).take 1) num =
      landingRow 0 ((batches.take early).take 1) num := by
    rw [numbered,take_zipIdx,take_zipIdx,orderHit_zipIdx
      (fun batch member => taken batch (List.mem_of_mem_take member)),
      Nat.mul_zero]
  have middle : orderHit (((numbered batches).take early).drop 1) num =
      landingRow DefaultChunkSize ((batches.take early).drop 1) num := by
    rw [numbered,take_zipIdx,drop_zipIdx,orderHit_zipIdx
      (fun batch member => taken batch (List.mem_of_mem_drop member)),
      Nat.mul_one]
  have late : orderHit ((numbered batches).drop early) num =
      landingRow (DefaultChunkSize*early) (batches.drop early) num := by
    rw [numbered,drop_zipIdx,Nat.add_comm,orderHit_zipIdx
      (fun batch member => sorted batch (List.mem_of_mem_drop member))]
  constructor
  · rw [mergeOrder,orderHit_append,orderHit_append,first,middle,late]
  · have scan : orderHit (numbered batches) num = landingRow 0 batches num := by
      rw [numbered,orderHit_zipIdx sorted,Nat.mul_zero]
    rw [← scan,← List.take_append_drop early (numbered batches),orderHit_append,late,
      ← List.take_append_drop 1 ((numbered batches).take early),orderHit_append,first,middle]

theorem orderHit_scan_order (sorted : ∀ batch ∈ batches,
    (batch.rows.map (fun row => firstColumn row.key)).Pairwise (· ≤ ·)) (num : Int32) :
    orderHit (mergeOrder batches 0) num = landingRow 0 batches num := by
  have parts := (orderHit_parts sorted 0 num).1
  simpa [landingRow] using parts

theorem orderHit_of_not_straddles (sorted : ∀ batch ∈ batches,
    (batch.rows.map (fun row => firstColumn row.key)).Pairwise (· ≤ ·)) (within : ¬Straddles batches early num) :
    orderHit (mergeOrder batches early) num = landingRow 0 batches num := by
  obtain ⟨parked,scan⟩ := orderHit_parts sorted early num
  have taken : ∀ batch ∈ batches.take early, (batch.rows.map (fun row => firstColumn row.key)).Pairwise (· ≤ ·) :=
    fun batch member => sorted batch (List.mem_of_mem_take member)
  rw [parked,scan]
  by_cases middle : num ∈ columnsOf ((batches.take early).drop 1)
  · by_cases late : num ∈ columnsOf (batches.drop early)
    · have first : num ∈ columnsOf (batches.take 1) := by
        by_contra absent
        exact within ⟨absent,middle,late⟩
      have front : (batches.take early).take 1 = batches.take 1 := by
        rw [List.take_take]
        congr 1
        cases early with
        | zero => simp [columnsOf] at middle
        | succ early => omega
      cases found : landingRow 0 (batches.take 1) num with
      | none =>
        exact absurd first ((landingRow_eq_none (fun batch member => sorted batch (List.mem_of_mem_take member)) 0).mp found)
      | some s => rw [front,found]; rfl
    · rw [(landingRow_eq_none (fun batch member => sorted batch (List.mem_of_mem_drop member)) _).mpr late]
      simp
  · rw [(landingRow_eq_none (fun batch member => taken batch (List.mem_of_mem_drop member)) _).mpr middle]
    simp

theorem orderHit_of_straddles (sorted : ∀ batch ∈ batches,
    (batch.rows.map (fun row => firstColumn row.key)).Pairwise (· ≤ ·)) (straddles : Straddles batches early num) :
    orderHit (mergeOrder batches early) num = landingRow (DefaultChunkSize*early) (batches.drop early) num := by
  obtain ⟨first,_,late⟩ := straddles
  have front : num ∉ columnsOf ((batches.take early).take 1) := by
    intro member
    obtain ⟨row,inside,same⟩ := List.mem_map.mp member
    obtain ⟨batch,taken,own⟩ := List.mem_flatMap.mp inside
    rw [List.take_take,Nat.min_comm,← List.take_take] at taken
    exact first (List.mem_map.mpr ⟨row,List.mem_flatMap.mpr ⟨batch,List.mem_of_mem_take taken,own⟩,same⟩)
  have missed : landingRow 0 ((batches.take early).take 1) num = none :=
    (landingRow_eq_none (fun batch member => sorted batch (List.mem_of_mem_take (List.mem_of_mem_take member))) 0).mpr front
  rw [(orderHit_parts sorted early num).1,missed,Option.none_or]
  cases found : landingRow (DefaultChunkSize*early) (batches.drop early) num with
  | none =>
    exact absurd late ((landingRow_eq_none (fun batch member => sorted batch (List.mem_of_mem_drop member)) _).mp found)
  | some s => rfl

theorem straddles_unique (ascending : Ascending Row.key (batches.flatMap TupleSet.rows)) {num num' : Int32}
    (first : Straddles batches early num) (second : Straddles batches early num') : num = num' := by
  have below : ∀ {a b : Int32}, a ∈ columnsOf ((batches.take early).drop 1) → b ∈ columnsOf (batches.drop early) →
      a ≤ b := by
    intro a b front behind
    rw [← List.take_append_drop early batches,List.flatMap_append] at ascending
    obtain ⟨x,inside,rfl⟩ := List.mem_map.mp front
    obtain ⟨y,inside',rfl⟩ := List.mem_map.mp behind
    obtain ⟨batch,dropped,own⟩ := List.mem_flatMap.mp inside
    exact firstColumn_le ((List.pairwise_append.mp ascending).2.2 x
      (List.mem_flatMap.mpr ⟨batch,List.mem_of_mem_drop dropped,own⟩) y inside')
  exact le_antisymm (below first.2.1 second.2.2) (below second.2.1 first.2.2)

private theorem numbered_row (cut : Cut batches) {i : Nat} {batch : TupleSet (Row n α)}
    (found : batches[i]? = some batch) {pos : Nat} (inside : pos < batch.rows.length) :
    (batches.flatMap TupleSet.rows)[DefaultChunkSize*i+pos]? = batch.rows[pos]? := by
  induction batches generalizing i with
  | nil => cases found
  | cons first batches ih =>
    obtain ⟨_,_,full,rest⟩ := cut
    rw [List.flatMap_cons]
    cases i with
    | zero =>
      obtain rfl : first = batch := by simpa using found
      rw [Nat.mul_zero,Nat.zero_add,List.getElem?_append_left inside]
    | succ i =>
      have width : first.rows.length = DefaultChunkSize := full (by rintro rfl; cases found)
      rw [Nat.mul_succ,List.getElem?_append_right (by omega),width]
      have place : DefaultChunkSize*i+DefaultChunkSize+pos-DefaultChunkSize = DefaultChunkSize*i+pos := by omega
      rw [place]
      exact ih rest found

private theorem orderHit_row (ascending : Ascending Row.key (batches.flatMap TupleSet.rows)) (cut : Cut batches)
    {order : List (TupleSet (Row n α) × Nat)} (scanned : ∀ entry ∈ order, entry ∈ numbered batches) {s : Nat}
    (hit : orderHit order num = some s) :
    ∃ row, (batches.flatMap TupleSet.rows)[s]? = some row ∧ firstColumn row.key = num := by
  induction order with
  | nil => cases hit
  | cons entry order ih =>
    obtain ⟨here,later⟩ := List.forall_mem_cons.mp scanned
    obtain ⟨batch,count⟩ := entry
    obtain ⟨_,found⟩ := List.mk_mem_zipIdx_iff_le_and_getElem?_sub.mp here
    unfold orderHit at hit
    rw [batchHit_landing (batch_sorted ascending batch (List.mem_of_getElem? found))] at hit
    split at hit
    next pos lands =>
      obtain ⟨row,read,column⟩ := landing_row (batch_sorted ascending batch (List.mem_of_getElem? found)) lands
      refine ⟨row,?_,column⟩
      rw [← Option.some.inj hit,← read]
      exact numbered_row cut found (List.getElem?_eq_some_iff.mp read).1
    next => exact ih later hit

end Border

section Rows
variable {σ : Type} {project : Row n α → σ} {deltas : List (DeltaVersion n α)} {stableBm : Option (List Bool)}
  {batches : List (TupleSet (Row n α))} {early : Nat}

private theorem toList_perm_iff {ρ : Type} {a b : Option ρ} : a.toList.Perm b.toList ↔ a = b := by
  cases a <;> cases b <;> simp

private theorem nodup_toList {ρ : Type} (a : Option ρ) : a.toList.Nodup := by
  cases a <;> simp

private theorem mem_setRow {place : Option Nat} {row : Row n α} :
    place.bind (setRow stableBm batches) = some row ↔
      ∃ s, place = some s ∧ (batches.flatMap TupleSet.rows)[s]? = some row ∧ (stableBm.getD [])[s]? = some true := by
  rw [Option.bind_eq_some_iff]
  refine exists_congr (fun s => and_congr_right (fun _ => ?_))
  unfold setRow
  split
  next bit => simp [bit]
  next clear => simp [clear]

private theorem mem_foundRows_order (early : Nat) {row : Row n α} :
    row ∈ foundRows deltas stableBm batches (mergeOrder batches early) ↔
      ∃ t, SearchedFor (memOf deltas) (tailOf deltas) t ∧
        (orderHit (mergeOrder batches early) (firstColumn t.key)).bind (setRow stableBm batches) = some row := by
  rw [← exists_asked (fun num => (orderHit (mergeOrder batches early) num).bind (setRow stableBm batches) = some row),
    mem_foundRows]
  simp only [mem_foundIn,mem_setRow]
  constructor
  · rintro ⟨s,read,bit,t,asked,hit⟩
    exact ⟨t,asked,s,hit,read,bit⟩
  · rintro ⟨t,asked,s,hit,read,bit⟩
    exact ⟨s,read,bit,t,asked,hit⟩

variable (stableBm) (ascending : Ascending Row.key (batches.flatMap TupleSet.rows)) (cut : Cut batches)
include ascending cut

variable {stableBm} in
private theorem column_of_hit (early : Nat) {num : Int32} {row : Row n α}
    (hit : (orderHit (mergeOrder batches early) num).bind (setRow stableBm batches) = some row) :
    firstColumn row.key = num := by
  obtain ⟨s,place,read,_⟩ := mem_setRow.mp hit
  obtain ⟨row',read',column⟩ := orderHit_row ascending cut (fun _ => (mergeOrder_perm batches early).mem_iff.mp) place
  rw [read,Option.some.injEq] at read'
  rw [read',column]

variable {stableBm} in
omit cut in
private theorem foundRows_nodup (order : List (TupleSet (Row n α) × Nat)) :
    (foundRows deltas stableBm batches order).Nodup :=
  (ascending.nodup_keys.of_map _).sublist (keepRows_sublist _ _)

/-- What is found in any order are the rows of the other first columns, and the one that
the search for a first column that straddles the deltas comes to. -/
private theorem foundRows_split {t : DeltaRow n α} (searched : SearchedFor (memOf deltas) (tailOf deltas) t)
    (straddles : Straddles batches early (firstColumn t.key)) {k : Nat} (order : k = early ∨ k = 0) :
    (foundRows deltas stableBm batches (mergeOrder batches k)).Perm
      ((foundRows deltas stableBm batches (mergeOrder batches 0)).filter (fun row => firstColumn row.key ≠ firstColumn t.key) ++
        ((orderHit (mergeOrder batches k) (firstColumn t.key)).bind (setRow stableBm batches)).toList) := by
  have sorted := batch_sorted ascending
  have same : ∀ t' : DeltaRow n α, firstColumn t'.key ≠ firstColumn t.key →
      orderHit (mergeOrder batches k) (firstColumn t'.key) = orderHit (mergeOrder batches 0) (firstColumn t'.key) := by
    intro t' other
    rcases order with rfl | rfl
    · rw [orderHit_scan_order sorted]
      exact orderHit_of_not_straddles sorted (fun too => other (straddles_unique ascending too straddles))
    · rfl
  rw [List.perm_ext_iff_of_nodup (foundRows_nodup ascending _)]
  · intro row
    simp only [List.mem_append,List.mem_filter,mem_foundRows_order,Option.mem_toList,decide_eq_true_eq]
    constructor
    · rintro ⟨t',searched',hit⟩
      have column := column_of_hit ascending cut k hit
      by_cases own : firstColumn t'.key = firstColumn t.key
      · exact Or.inr (own ▸ hit)
      · exact Or.inl ⟨⟨t',searched',same t' own ▸ hit⟩,column ▸ own⟩
    · rintro (⟨⟨t',searched',hit⟩,other⟩ | hit)
      · have column := column_of_hit ascending cut 0 hit
        exact ⟨t',searched',(same t' (column ▸ other)).symm ▸ hit⟩
      · exact ⟨t,searched,hit⟩
  · refine List.nodup_append'.mpr ⟨(foundRows_nodup ascending _).filter _,nodup_toList _,?_⟩
    intro row left right
    have other := of_decide_eq_true (List.mem_filter.mp left).2
    exact other (column_of_hit ascending cut k (Option.mem_toList.mp right))

variable {stableBm} in
theorem foundRows_perm_iff :
    ((foundRows deltas stableBm batches (mergeOrder batches early)).map project).Perm
        ((foundRows deltas stableBm batches (mergeOrder batches 0)).map project) ↔
      SameRowTaken project deltas stableBm batches early := by
  have sorted := batch_sorted ascending
  by_cases some_ : ∃ t, SearchedFor (memOf deltas) (tailOf deltas) t ∧ Straddles batches early (firstColumn t.key)
  · obtain ⟨t,searched,straddles⟩ := some_
    have parked := (foundRows_split stableBm ascending cut searched straddles (Or.inl rfl)).map project
    have scan := (foundRows_split stableBm ascending cut searched straddles (Or.inr rfl)).map project
    rw [List.map_append] at parked scan
    rw [orderHit_of_straddles sorted straddles] at parked
    rw [orderHit_scan_order sorted] at scan
    rw [parked.congr_left,scan.congr_right,List.perm_append_left_iff,← Option.toList_map,← Option.toList_map,
      toList_perm_iff]
    constructor
    · intro same t' _ straddles'
      rw [straddles_unique ascending straddles' straddles]
      exact same.symm
    · exact fun taken => (taken t searched straddles).symm
  · refine iff_of_true ?_ (fun t searched straddles => absurd ⟨t,searched,straddles⟩ some_)
    apply List.Perm.map
    rw [List.perm_ext_iff_of_nodup (foundRows_nodup ascending _) (foundRows_nodup ascending _)]
    intro row
    simp only [mem_foundRows_order]
    refine exists_congr (fun t => and_congr_right (fun searched => ?_))
    rw [orderHit_scan_order sorted,orderHit_of_not_straddles sorted (fun straddles => some_ ⟨t,searched,straddles⟩)]

end Rows

/-- Whatever number of batches arrives early, the operator runs all merges and queues the
rows it queues when the deltas come first, exactly when the merge finds what it reads and
a tail row that is searched for on both sides of the deltas takes the same row away. -/
theorem arrivalIndependent_iff {reader : TableBatchReader} {project : Row n α → σ} {deltas : List (DeltaVersion n α)}
    {stableBm : Option (List Bool)} {batches : List (TupleSet (Row n α))} (columns : 0 < n)
    (ascending : Ascending Row.key (batches.flatMap TupleSet.rows)) (cut : Cut batches)
    (size : ∀ bits ∈ stableBm, bits.length = (batches.flatMap TupleSet.rows).length) {early : Nat}
    (arrived : early ≤ batches.length) (others : Nat) :
    ArrivalIndependent reader project deltas stableBm batches early others ↔
      Mergeable reader project deltas stableBm batches ∧ SameRowTaken project deltas stableBm batches early := by
  have independent : Mergeable reader project deltas stableBm batches →
      (ArrivalIndependent reader project deltas stableBm
      batches early others ↔ SameRowTaken project deltas stableBm batches early) := fun mergeable =>
    (independent_of_mergeable columns cut size arrived others mergeable).trans (foundRows_perm_iff ascending cut)
  constructor
  · intro same
    obtain ⟨_,merge,_,merged,_⟩ := (independent_iff arrived others).mp same
    have mergeable := mergeable_of_returned columns cut size arrived merged
    exact ⟨mergeable,(independent mergeable).mp same⟩
  · rintro ⟨mergeable,rows⟩
    exact (independent mergeable).mpr rows

section Examples

def block (first : Int32) (size : Nat) : TupleSet (Row 2 Unit) :=
  .ofRows ((List.range size).map (fun i => ⟨pairKey first (Int32.ofNat i),()⟩))

theorem getElem?_block {size i : Nat} (inside : i < size) (first : Int32) :
    (block first size).rows[i]? = some ⟨pairKey first (Int32.ofNat i),()⟩ := by
  simp [block,inside]

theorem length_block (first : Int32) (size : Nat) : (block first size).rows.length = size := by
  simp [block]

private theorem getLast?_block {size : Nat} (some_ : 0 < size) (first : Int32) :
    (block first size).rows.getLast? = some ⟨pairKey first (Int32.ofNat (size-1)),()⟩ := by
  rw [List.getLast?_eq_getElem?,← getElem?_block (Nat.sub_lt some_ Nat.one_pos) first]
  exact congrArg (fun length => (block first size).rows[length-1]?) (length_block first size)

theorem batchHit_block {size : Nat} (some_ : 0 < size) (first : Int32) :
    batchHit (block first size).rows first = some ((size-1)/2) := by
  have probe : (((0 : Int)+((size : Int)-1))/2).toNat = (size-1)/2 := by omega
  have read := getElem?_block (show (size-1)/2 < size by omega) first
  have searched : search (block first size).rows first = some ((0+((size : Int)-1))/2) := by
    rw [search,if_pos Nat.one_lt_two,length_block,binarySearch,if_pos (by omega)]
    simp only [probe,List.getElem?_map,read,Option.map_some,Option.bind_eq_bind,Option.bind_some]
    exact if_pos rfl
  rw [batchHit,getLast?_block some_ first,searched]
  simp only [Option.bind_eq_bind,Option.bind_some]
  rw [if_pos (show firstColumn (pairKey first _) ≥ first from le_refl first),if_neg (by omega),probe]

theorem batchHit_block_above {size : Nat} (some_ : 0 < size) {first num : Int32} (above : first < num) :
    batchHit (block first size).rows num = none := by
  rw [batchHit,getLast?_block some_ first]
  exact if_neg (not_le.mpr above)

def lastOrder : Row 2 Unit := ⟨pairKey 1 100000,()⟩

/-- Lines (0,0) to (0,99999), then (1,0) to (1,99999), then (1,100000). -/
def orderLines : List (TupleSet (Row 2 Unit)) :=
  [block 0 DefaultChunkSize,block 1 DefaultChunkSize,.ofRows [lastOrder]]

def orderBits : List Bool := List.replicate (2*DefaultChunkSize+1) true

/-- The tail updates line (1,100000), the memory delta inserts another one. -/
def orderDeltas : List (DeltaVersion 2 Unit) :=
  [⟨.ofRows [⟨lastOrder,.update⟩],2⟩,⟨.ofRows [⟨⟨pairKey 2 0,()⟩,.insert⟩],1⟩]

private theorem cut_orderLines : Cut orderLines := by
  refine ⟨?_,?_,?_,?_,?_,?_,⟨by decide,by decide,fun none_ => absurd rfl none_,trivial⟩⟩
  all_goals rw [TupleSet.numRows,length_block]
  · exact defaultChunkSize_pos
  · exact fun _ => rfl
  · exact defaultChunkSize_pos
  · exact fun _ => rfl

private theorem ofNat_lt {i j : Nat} (less : i < j) (small : j < 2^31) : Int32.ofNat i < Int32.ofNat j := by
  rw [Int32.lt_iff_toInt_lt,Int32.toInt_ofNat_of_lt (by omega),Int32.toInt_ofNat_of_lt small]
  exact Int.ofNat_lt.mpr less

private theorem ascending_block (first : Int32) {size : Nat} (small : size ≤ 2^31) :
    Ascending Row.key (block first size).rows := by
  rw [block,TupleSet.rows_ofRows]
  refine List.pairwise_map.mpr (List.pairwise_lt_range.imp_of_mem ?_)
  intro i j _ inside less
  refine List.cons_lt_cons_iff.mpr (Or.inr ⟨rfl,List.cons_lt_cons_iff.mpr (Or.inl ?_)⟩)
  exact ofNat_lt less (lt_of_lt_of_le (List.mem_range.mp inside) small)

private theorem block_row {first : Int32} {size : Nat} {row : Row 2 Unit} (inside : row ∈ (block first size).rows) :
    ∃ i < size, row = ⟨pairKey first (Int32.ofNat i),()⟩ := by
  rw [block,TupleSet.rows_ofRows,List.mem_map] at inside
  obtain ⟨i,member,rfl⟩ := inside
  exact ⟨i,List.mem_range.mp member,rfl⟩

private theorem ascending_orderLines : Ascending Row.key (orderLines.flatMap TupleSet.rows) := by
  have next : Ascending Row.key ((block 1 DefaultChunkSize).rows ++ [lastOrder]) := by
    refine List.pairwise_append.mpr ⟨ascending_block 1 (by decide),List.pairwise_singleton _ _,?_⟩
    intro row inside last only
    obtain ⟨i,less,rfl⟩ := block_row inside
    obtain rfl := List.mem_singleton.mp only
    exact List.cons_lt_cons_iff.mpr (Or.inr ⟨rfl,List.cons_lt_cons_iff.mpr (Or.inl (ofNat_lt less (by decide)))⟩)
  have whole : Ascending Row.key ((block 0 DefaultChunkSize).rows ++
      ((block 1 DefaultChunkSize).rows ++ [lastOrder])) := by
    refine List.pairwise_append.mpr ⟨ascending_block 0 (by decide),next,?_⟩
    intro row inside later member
    obtain ⟨i,_,rfl⟩ := block_row inside
    have column : ∃ c, later.key = pairKey 1 c := by
      rcases List.mem_append.mp member with here | only
      · obtain ⟨j,_,rfl⟩ := block_row here
        exact ⟨_,rfl⟩
      · exact ⟨_,congrArg Row.key (List.mem_singleton.mp only)⟩
    obtain ⟨c,key⟩ := column
    change _ < later.key
    rw [key]
    exact List.cons_lt_cons_iff.mpr (Or.inl (by decide))
  simpa [orderLines] using whole

private theorem size_orderLines : ∀ bits ∈ some orderBits, bits.length = (orderLines.flatMap TupleSet.rows).length := by
  rintro _ ⟨⟩
  simp only [orderBits,List.length_replicate,orderLines,List.flatMap_cons,List.flatMap_nil,List.length_append,
    length_block,
    TupleSet.rows_ofRows,List.length_singleton,List.length_nil]
  omega

private theorem mergeable_orderLines : Mergeable .chunked id orderDeltas (some orderBits) orderLines := by
  refine Or.inr ⟨?_,fun _ => ⟨by decide,rfl⟩,Or.inr ⟨⟨0,⟨by decide,by decide⟩,by decide,by decide⟩,trivial⟩⟩
  intro batch member
  have some_ : ∀ batch ∈ orderLines, ∀ rows ∈ batch.chunks, rows ≠ [] := by
    simp [orderLines,block,TupleSet.ofRows,List.range_eq_nil,DefaultChunkSize]
  refine Or.inr (fun rows inside => ?_)
  obtain ⟨chunk,own,rfl⟩ := List.mem_map.mp inside
  simpa using some_ batch member chunk own

private theorem asked_orderDeltas : asked (memOf orderDeltas) (tailOf orderDeltas) = [⟨lastOrder,.update⟩] := by decide

private theorem mergeOrder_three (first second third : TupleSet (Row n α)) :
    mergeOrder [first,second,third] 0 = [(first,1),(second,2),(third,3)] ∧
      mergeOrder [first,second,third] 2 = [(first,1),(third,3),(second,2)] := ⟨rfl,rfl⟩

private theorem missed_first : batchHit (block 0 DefaultChunkSize).rows 1 = none :=
  batchHit_block_above defaultChunkSize_pos (by decide)

private theorem orderHit_scan : orderHit (mergeOrder orderLines 0) 1 =
    some (DefaultChunkSize+(DefaultChunkSize-1)/2) := by
  rw [orderLines,(mergeOrder_three _ _ _).1,orderHit_of_miss missed_first,
    orderHit_of_hit (batchHit_block defaultChunkSize_pos 1),start,Nat.add_one_sub_one,Nat.mul_one]

private theorem orderHit_parked : orderHit (mergeOrder orderLines 2) 1 = some (2*DefaultChunkSize) := by
  have last : batchHit (TupleSet.ofRows [lastOrder]).rows 1 = some 0 := by decide
  rw [orderLines,(mergeOrder_three _ _ _).2,orderHit_of_miss missed_first,orderHit_of_hit last,start,
    Nat.add_one_sub_one,Nat.mul_comm,Nat.add_zero]

/-- Two batches before the deltas, and another row of the stable table is dropped. -/
theorem parked_batch_changes_rows :
    ¬ArrivalIndependent .chunked id orderDeltas (some orderBits) orderLines 2 0 := by
  rw [independent_of_mergeable Nat.two_pos cut_orderLines size_orderLines (by decide) 0 mergeable_orderLines,
    List.map_id,List.map_id]
  intro same
  have parked : lastOrder ∈ foundRows orderDeltas (some orderBits) orderLines (mergeOrder orderLines 2) := by
    rw [mem_foundRows,asked_orderDeltas]
    refine ⟨2*DefaultChunkSize,?_,?_,mem_foundIn.mpr ⟨_,List.mem_singleton_self _,orderHit_parked⟩⟩
    · have first : DefaultChunkSize ≤ 2*DefaultChunkSize := by omega
      have second : 2*DefaultChunkSize-DefaultChunkSize = DefaultChunkSize := by omega
      rw [orderLines,List.flatMap_cons,List.getElem?_append_right (by rw [length_block]; exact first),
        length_block,second,
        List.flatMap_cons,List.getElem?_append_right (by rw [length_block]),length_block,Nat.sub_self]
      rfl
    · exact List.getElem?_replicate_of_lt (Nat.lt_succ_self _)
  obtain ⟨s,row,_,found⟩ := mem_foundRows.mp (same.mem_iff.mp parked)
  rw [asked_orderDeltas] at found
  obtain ⟨t,only,hit⟩ := mem_foundIn.mp found
  obtain rfl := List.mem_singleton.mp only
  obtain rfl := Option.some.inj (orderHit_scan.symm.trans hit)
  rw [orderLines,List.flatMap_cons,List.getElem?_append_right (by rw [length_block]; exact Nat.le_add_right _ _),
    length_block,
    Nat.add_sub_cancel_left,List.flatMap_cons,List.getElem?_append_left (by rw [length_block]; decide),
    getElem?_block (by decide)] at row
  exact absurd row (by decide)

theorem one_parked_batch_same_rows :
    ArrivalIndependent .chunked id orderDeltas (some orderBits) orderLines 1 0 :=
  (arrivalIndependent_iff Nat.two_pos ascending_orderLines cut_orderLines size_orderLines (by decide) 0).mpr
    ⟨mergeable_orderLines,fun _ _ straddles => absurd straddles.2.1 List.not_mem_nil⟩

end Examples

end Hermes.ArrivalOrder
