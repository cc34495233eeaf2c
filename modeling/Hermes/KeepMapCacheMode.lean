import Hermes.DeleteMapGeneratorKernel
import Hermes.Library.SortedMap

/-! The keep map of the batched mode.
The maps over the memory delta are built with the first batch and shrink batch
by batch, and the stable bitmap is cleared in place. A key of more than one
column is looked up by its first two. A read outside a table or a vector is
`none`; the position read through an end iterator, which is never used, is left
out. -/
namespace Hermes.KeepMapCacheMode
open Hermes.Tuple Hermes.Delta Hermes.DeleteMapGeneratorKernel Hermes.Library.SortedMap
variable {n : Nat} {α : Type}

def keyPrefix (k : PrimaryKey n) : List Int32 := k.1.take 2

def firstColumn (k : PrimaryKey n) : Int32 := k.1.headD 0

structure KeepMap (n : Nat) (α : Type) where
  primaryKeyColumnNames : Nat
  tail : List (DeltaRow n α)
  seen : List Bool
  deltasKm : List (List Int32 × Nat)
  deltasPos : List (Nat × List Int32)

def KeepMap.empty (n : Nat) (α : Type) : KeepMap n α := ⟨0,[],[],[],[]⟩

/-- The loop of `positionTailAndMemDelta` from version `i` on. -/
def positionLoop : Nat → Int → Int → Option Nat → Option Nat → List Int → Option Nat × Option Nat
  | _, _, _, posMem, posTail, [] => (posMem,posTail)
  | i, maxDeltaTimeStamp, minDeltaTimeStamp, posMem, posTail, timestamp::timestamps =>
    let newTail := timestamp > maxDeltaTimeStamp
    let newMem := timestamp < minDeltaTimeStamp
    positionLoop (i+1) (if newTail then timestamp else maxDeltaTimeStamp)
      (if newMem then timestamp else minDeltaTimeStamp) (if newMem then some i else posMem)
      (if newTail then some i else posTail) timestamps

/-- The positions of the memory delta and of the tail delta, -1 being `none`. -/
def positionTailAndMemDelta (timestamps : List Int) : Option Nat × Option Nat :=
  if timestamps.length ≠ 1 then positionLoop 0 0 5000000000000 none none timestamps else (some 0,none)

/-- The index of `num` between `p` and `r`, or -1. -/
def binarySearch (stablesPKColumn : List Int32) (num : Int32) : Nat → Int → Int → Option Int
  | 0, _, _ => none
  | fuel+1, p, r =>
    if p ≤ r then do
      let mid := (p+r)/2
      let curr ← stablesPKColumn[mid.toNat]?
      if curr = num then some mid
      else if curr > num then binarySearch stablesPKColumn num fuel p (mid-1)
      else binarySearch stablesPKColumn num fuel (mid+1) r
    else some (-1)

def emplaceAll (mem : List (DeltaRow n α)) (keepMap : KeepMap n α) : KeepMap n α :=
  mem.zipIdx.foldl (fun keepMap (r,m) =>
    { keepMap with
      deltasKm := emplace Prod.fst (keyPrefix r.key,m) keepMap.deltasKm
      deltasPos := emplace Prod.fst (m,keyPrefix r.key) keepMap.deltasPos }) keepMap

/-- What the first batch sets up. A second version without a tail is a null table. -/
def firstBatch (deltas : List (DeltaVersion n α)) (keepMap : KeepMap n α) : Option (KeepMap n α) := do
  let (posMem,posTail) := positionTailAndMemDelta (deltas.map (·.timestamp))
  let mem ← posMem.bind (deltas[·]?)
  match posTail with
  | some j =>
    let tail ← deltas[j]?
    let keepMap := {keepMap with
      primaryKeyColumnNames := n
      tail := tail.delta.rows
      seen := tail.delta.rows.map (fun _ => false)}
    some (emplaceAll mem.delta.rows keepMap)
  | none =>
    if deltas.length > 1 then none
    else some (emplaceAll mem.delta.rows {keepMap with primaryKeyColumnNames := n, seen := []})

structure Visit (n : Nat) (α : Type) where
  seen : Bool
  deltasKm : List (List Int32 × Nat)
  deltasPos : List (Nat × List Int32)
  stableBm : Option (List Bool)

/-- An unseen UPDATE takes the memory row of its key away, or else clears the bit
of a row of this batch that has its first column. -/
def visitTailRow (deltaCount : Nat) (batch : List (Row n α)) (batchCounter : Nat) (r : DeltaRow n α)
    (visit : Visit n α) : Option (Visit n α) :=
  if visit.seen || r.type ≠ .update then some visit
  else do
    let max ← (batch.getLast?).map (fun last => firstColumn last.key)
    let hit := if deltaCount > 1 then find Prod.fst (keyPrefix r.key) visit.deltasKm else none
    match hit with
    | some (_,toDelete) =>
      let deltasKm := erase Prod.fst (keyPrefix r.key) visit.deltasKm
      let deltasPos := erase Prod.fst toDelete visit.deltasPos
      some {visit with seen := true, deltasKm := deltasKm, deltasPos := deltasPos}
    | none =>
      match visit.stableBm with
      | none => some visit
      | some bits =>
        if max ≥ firstColumn r.key then do
          let pos ← binarySearch (batch.map (fun row => firstColumn row.key)) (firstColumn r.key)
            (batch.length+2) 0 (if n > 1 then batch.length-1 else batch.length)
          if pos = -1 then some visit
          else
            let bit := (batchCounter-1)*DefaultChunkSize+pos.toNat
            if bit < bits.length then some {visit with seen := true, stableBm := some (bits.set bit false)}
            else none
        else some visit

def visitTail (deltaCount : Nat) (batch : List (Row n α)) (batchCounter : Nat) :
    List (DeltaRow n α) → List Bool → KeepMap n α → Option (List Bool) →
      Option (List Bool × KeepMap n α × Option (List Bool))
  | r::tail, seen::flags, keepMap, stableBm => do
    let visit ← visitTailRow deltaCount batch batchCounter r
      ⟨seen,keepMap.deltasKm,keepMap.deltasPos,stableBm⟩
    let (rest,keepMap,stableBm) ← visitTail deltaCount batch batchCounter tail flags
      {keepMap with deltasKm := visit.deltasKm, deltasPos := visit.deltasPos} visit.stableBm
    some (visit.seen::rest,keepMap,stableBm)
  | _, _, keepMap, stableBm => some ([],keepMap,stableBm)

/-- One call with a stable batch, or the last call, which has none and returns the
positions left in the memory delta. -/
def getBatchedKeepMap (keepMap : KeepMap n α) (deltas : List (DeltaVersion n α))
    (batch : Option (TupleSet (Row n α))) (stableBm : Option (List Bool)) (batchCounter : Nat)
    (lastBatch : Bool) : Option (KeepMap n α × List Nat × Option (List Bool)) := do
  let keepMap ← (if batchCounter = 1 then firstBatch deltas keepMap else some keepMap)
  if lastBatch then some (keepMap,keepMap.deltasPos.map (·.1),stableBm)
  else
    let batch ← batch
    if keepMap.primaryKeyColumnNames = 0 then none
    if keepMap.primaryKeyColumnNames > 1 ∧ batch.rows = [] then none
    let (seen,keepMap,stableBm) ← visitTail deltas.length batch.rows batchCounter keepMap.tail
      keepMap.seen keepMap stableBm
    some ({keepMap with seen := seen},[],stableBm)

section Positions
variable {timestamps : List Int} {t : Int}

private theorem positionLoop_settled (i : Nat) (maxDeltaTimeStamp minDeltaTimeStamp : Int)
    (posMem posTail : Option Nat) :
    ((∀ x ∈ timestamps, x ≤ maxDeltaTimeStamp) →
      (positionLoop i maxDeltaTimeStamp minDeltaTimeStamp posMem posTail timestamps).2 = posTail) ∧
    ((∀ x ∈ timestamps, minDeltaTimeStamp ≤ x) →
      (positionLoop i maxDeltaTimeStamp minDeltaTimeStamp posMem posTail timestamps).1 = posMem) := by
  induction timestamps generalizing i maxDeltaTimeStamp minDeltaTimeStamp posMem posTail with
  | nil => exact ⟨fun _ => rfl,fun _ => rfl⟩
  | cons x timestamps ih =>
    unfold positionLoop
    constructor
    · intro settled
      have stale : ¬x > maxDeltaTimeStamp := Int.not_lt.mpr (settled x List.mem_cons_self)
      simp only [if_neg stale]
      exact (ih _ _ _ _ _).1 (fun y member => settled y (List.mem_cons_of_mem _ member))
    · intro settled
      have stale : ¬x < minDeltaTimeStamp := Int.not_lt.mpr (settled x List.mem_cons_self)
      simp only [if_neg stale]
      exact (ih _ _ _ _ _).2 (fun y member => settled y (List.mem_cons_of_mem _ member))

private theorem positionLoop_tail {j : Nat} (read : timestamps[j]? = some t)
    (earlier : ∀ j' < j, ∀ x, timestamps[j']? = some x → x < t) (newest : ∀ x ∈ timestamps, x ≤ t)
    (i : Nat) {maxDeltaTimeStamp : Int} (fresh : maxDeltaTimeStamp < t) (minDeltaTimeStamp : Int)
    (posMem posTail : Option Nat) :
    (positionLoop i maxDeltaTimeStamp minDeltaTimeStamp posMem posTail timestamps).2 = some (i+j) := by
  induction timestamps generalizing j i maxDeltaTimeStamp minDeltaTimeStamp posMem posTail with
  | nil => simp at read
  | cons x timestamps ih =>
    have rest : ∀ y ∈ timestamps, y ≤ t := fun y member => newest y (List.mem_cons_of_mem _ member)
    unfold positionLoop
    cases j with
    | zero =>
      rw [List.getElem?_cons_zero,Option.some.injEq] at read
      subst read
      simp only [if_pos fresh]
      exact (positionLoop_settled _ _ _ _ _).1 rest
    | succ j =>
      rw [show i+(j+1) = i+1+j by omega]
      apply ih (by simpa using read) (fun j' before y found => earlier (j'+1) (by omega) y (by simpa using found)) rest
      have older : x < t := earlier 0 (by omega) x (by simp)
      split <;> assumption

private theorem positionLoop_mem {j : Nat} (read : timestamps[j]? = some t)
    (earlier : ∀ j' < j, ∀ x, timestamps[j']? = some x → t < x) (oldest : ∀ x ∈ timestamps, t ≤ x)
    (i : Nat) {minDeltaTimeStamp : Int} (fresh : t < minDeltaTimeStamp) (maxDeltaTimeStamp : Int)
    (posMem posTail : Option Nat) :
    (positionLoop i maxDeltaTimeStamp minDeltaTimeStamp posMem posTail timestamps).1 = some (i+j) := by
  induction timestamps generalizing j i maxDeltaTimeStamp minDeltaTimeStamp posMem posTail with
  | nil => simp at read
  | cons x timestamps ih =>
    have rest : ∀ y ∈ timestamps, t ≤ y := fun y member => oldest y (List.mem_cons_of_mem _ member)
    unfold positionLoop
    cases j with
    | zero =>
      rw [List.getElem?_cons_zero,Option.some.injEq] at read
      subst read
      simp only [if_pos fresh]
      exact (positionLoop_settled _ _ _ _ _).2 rest
    | succ j =>
      rw [show i+(j+1) = i+1+j by omega]
      apply ih (by simpa using read) (fun j' before y found => earlier (j'+1) (by omega) y (by simpa using found)) rest
      have newer : t < x := earlier 0 (by omega) x (by simp)
      split <;> assumption

/-- Of several versions with distinct timestamps the newest is the tail, if it is
stamped after 0, and the oldest is the memory delta, if it is stamped early enough. -/
theorem positionTailAndMemDelta_spec (several : timestamps.length ≠ 1) (distinct : timestamps.Nodup)
    {i j : Nat} {oldest newest : Int} (mem : timestamps[i]? = some oldest)
    (tail : timestamps[j]? = some newest) (least : ∀ x ∈ timestamps, oldest ≤ x)
    (greatest : ∀ x ∈ timestamps, x ≤ newest) (early : oldest < 5000000000000) (late : 0 < newest) :
    positionTailAndMemDelta timestamps = (some i,some j) := by
  have differ : ∀ {a b : Nat} {x y : Int}, timestamps[a]? = some x → timestamps[b]? = some y → a < b → x ≠ y := by
    intro a b x y left right before same
    subst same
    have equal := (List.getElem?_inj (List.getElem?_eq_some_iff.mp left).1 distinct).mp (left.trans right.symm)
    omega
  rw [positionTailAndMemDelta,if_pos several]
  apply Prod.ext
  · rw [positionLoop_mem mem ?_ least 0 early,Nat.zero_add]
    intro j' before x read
    exact Int.lt_iff_le_and_ne.mpr ⟨least x (List.mem_of_getElem? read),(differ read mem before).symm⟩
  · rw [positionLoop_tail tail ?_ greatest 0 late,Nat.zero_add]
    intro j' before x read
    exact Int.lt_iff_le_and_ne.mpr ⟨greatest x (List.mem_of_getElem? read),differ read tail before⟩

end Positions

end Hermes.KeepMapCacheMode
