import Hermes.DeltaCache
import Hermes.Tuple
import Mathlib.Algebra.Ring.Nat

/-! The k-way merge of the unbatched mode, as the kernel computes it.
Undefined behaviour (a read outside a vector) is `none`. The stable keep map of
the source is written but never returned and is left out. -/
namespace Hermes.DeleteMapGeneratorKernel
open Hermes.Tuple Hermes.Delta
variable {n : Nat} {α : Type}

abbrev DeltaVersion (n : Nat) (α : Type) := DeltaCacheData (TupleSet (DeltaRow n α))

def checkIfAllRecordsWereVisited (deltaScanIndexTracker stableScanIndexTracker
    deltaSizes stableSizes : List Nat) : Bool :=
  (deltaScanIndexTracker.zip deltaSizes).all (fun (i,size) => !decide (i < size)) &&
    (stableScanIndexTracker.zip stableSizes).all (fun (i,size) => !decide (i < size))

def comparePrimaryKey : List Int32 → List Int32 → Int
  | a::as, b::bs => if a < b then -1 else if a > b then 1 else comparePrimaryKey as bs
  | _, _ => 0

def maxKey (n : Nat) : PrimaryKey n := ⟨List.replicate n Int32.maxValue,by simp⟩

/-- Step 1 over one group of inputs: the smallest key among the heads, below the
one found so far. An exhausted input is skipped. -/
def smallestKey {ρ : Type} (key : ρ → PrimaryKey n) :
    List (List ρ) → List Nat → PrimaryKey n → PrimaryKey n
  | rows::inputs, i::indices, currPK =>
    match rows[i]? with
    | none => smallestKey key inputs indices currPK
    | some r => smallestKey key inputs indices
        (if comparePrimaryKey (key r).1 currPK.1 < 0 then key r else currPK)
  | _, _, currPK => currPK

/-- The tracker updates of the two matching loops: an input whose head has the
current key moves on by one. -/
def advanceTracker {ρ : Type} (key : ρ → PrimaryKey n) (currPK : PrimaryKey n) :
    List (List ρ) → List Nat → List Nat
  | rows::inputs, i::indices =>
    (match rows[i]? with
      | none => i
      | some r => if comparePrimaryKey currPK.1 (key r).1 = 0 then i+1 else i) ::
    advanceTracker key currPK inputs indices
  | _, _ => []

/-- `deleteFlag`, `minTimeStamp` and `position` of one round. -/
structure Match where
  deleteFlag : Bool
  minTimeStamp : Int
  position : Nat × Nat
deriving DecidableEq

def matchStables (currPK : PrimaryKey n) : Nat → List (List (Row n α)) → List Nat → Match → Match
  | s, rows::stables, i::indices, found =>
    matchStables currPK (s+1) stables indices <|
      match rows[i]? with
      | none => found
      | some r => if comparePrimaryKey currPK.1 r.key.1 = 0 then {found with position := (s,i)} else found
  | _, _, _, found => found

def deleteFlagAfter : EventType → Bool → Bool
  | .delete, _ => true
  | .insert, _ => false
  | .update, deleteFlag => deleteFlag

/-- One delta row with the current key: the newer record decides, and an UPDATE
leaves the delete flag as it is. `s` is the table number of the delta. -/
def matchRow (s i : Nat) (timestamp : Int) (r : DeltaRow n α) (found : Match) : Match :=
  if timestamp > found.minTimeStamp then
    { deleteFlag := deleteFlagAfter r.type found.deleteFlag
      minTimeStamp := timestamp
      position := (s,i) }
  else found

def matchDeltas (currPK : PrimaryKey n) : Nat → List (DeltaVersion n α) → List Nat → Match → Match
  | s, d::deltas, i::indices, found =>
    matchDeltas currPK (s+1) deltas indices <|
      match d.delta.rows[i]? with
      | none => found
      | some r => if comparePrimaryKey currPK.1 r.key.1 = 0 then matchRow s i d.timestamp r found else found
  | _, _, _, found => found

structure ScanState where
  stableScanIndexTracker : List Nat
  deltaScanIndexTracker : List Nat
  deltasPositions : List Nat
  stableDm : List Nat
deriving DecidableEq

/-- The position of a kept record, translated by the kernel's own cases. -/
def keepRecord (deltaSizes : List Nat) (found : Match) (state : ScanState) : Option ScanState :=
  if found.deleteFlag then some state
  else if found.position.1 = 0 then
    some {state with stableDm := state.stableDm ++ [found.position.2]}
  else if found.position.1 = deltaSizes.length+1 then do
    let first ← deltaSizes[0]?
    let second ← deltaSizes[1]?
    some {state with deltasPositions := state.deltasPositions ++ [found.position.2+first+second]}
  else if found.position.1 = deltaSizes.length then
    some {state with deltasPositions := state.deltasPositions ++ [found.position.2]}
  else some {state with deltasPositions := state.deltasPositions ++ [found.position.2]}

def deltaRows (deltas : List (DeltaVersion n α)) : List (List (DeltaRow n α)) :=
  deltas.map (·.delta.rows)

def currentKey (deltas : List (DeltaVersion n α)) (stables : List (TupleSet (Row n α)))
    (state : ScanState) : PrimaryKey n :=
  smallestKey (·.key) (deltaRows deltas) state.deltaScanIndexTracker
    (smallestKey (·.key) (stables.map TupleSet.rows) state.stableScanIndexTracker (maxKey n))

def visited (deltas : List (DeltaVersion n α)) (stables : List (TupleSet (Row n α)))
    (state : ScanState) : Bool :=
  checkIfAllRecordsWereVisited state.deltaScanIndexTracker state.stableScanIndexTracker
    (deltas.map (·.delta.numRows)) (stables.map TupleSet.numRows)

/-- One round of the main loop. -/
def mergeStep (deltas : List (DeltaVersion n α)) (stables : List (TupleSet (Row n α)))
    (state : ScanState) : Option ScanState :=
  let currPK := currentKey deltas stables state
  let found := matchDeltas currPK stables.length deltas state.deltaScanIndexTracker
    (matchStables currPK 0 (stables.map TupleSet.rows) state.stableScanIndexTracker ⟨false,0,(0,0)⟩)
  keepRecord (deltas.map (·.delta.numRows)) found
    { state with
      stableScanIndexTracker := advanceTracker (·.key) currPK (stables.map TupleSet.rows)
        state.stableScanIndexTracker
      deltaScanIndexTracker := advanceTracker (·.key) currPK (deltaRows deltas)
        state.deltaScanIndexTracker }

/-- The main loop. Every round moves some index, so the total number of rows is
fuel enough (`mergeLoop_visited`). -/
def mergeLoop (deltas : List (DeltaVersion n α)) (stables : List (TupleSet (Row n α))) :
    Nat → ScanState → Option ScanState
  | 0, state => some state
  | fuel+1, state =>
    if visited deltas stables state then some state
    else (mergeStep deltas stables state).bind (mergeLoop deltas stables fuel)

def initialState (deltas : List (DeltaVersion n α)) (stables : List (TupleSet (Row n α))) : ScanState :=
  ⟨stables.map (fun _ => 0),deltas.map (fun _ => 0),[],[]⟩

def totalRows (deltas : List (DeltaVersion n α)) (stables : List (TupleSet (Row n α))) : Nat :=
  (stables.map TupleSet.numRows).sum + (deltas.map (·.delta.numRows)).sum

/-- The kept positions in the deltas and the bitmap of the first stable table,
whose first primary-key column is read before anything else. -/
def getDeleteMap (deltas : List (DeltaVersion n α)) (stables : List (TupleSet (Row n α))) :
    Option (List Nat × List Bool) := do
  let stable ← stables[0]?
  if n = 0 then none
  let final ← mergeLoop deltas stables (totalRows deltas stables) (initialState deltas stables)
  some (final.deltasPositions,(List.range stable.numRows).map (fun s => decide (s ∈ final.stableDm)))

end Hermes.DeleteMapGeneratorKernel
