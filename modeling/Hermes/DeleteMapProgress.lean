import Hermes.DeleteMapMerge

/-! The rounds of the main loop of `getDeleteMap` on tables in any order: each of them moves an index, and the loop ends
with every index at the end of its table, unless a position is translated with sizes that are not there. -/
namespace Hermes.DeleteMapProgress
open Hermes.Tuple Hermes.Delta Hermes.DeleteMapGeneratorKernel Hermes.DeleteMapMerge Hermes.Library.Scan
variable {n : Nat} {α : Type}

section
variable (deltas : List (DeltaVersion n α)) (stables : List (TupleSet (Row n α)))

/-- The states in which a round begins or the loop ends. -/
inductive Reachable : ScanState → Prop where
  | start : Reachable (initialState deltas stables)
  | step {state next : ScanState} (reached : Reachable state) (pending : visited deltas stables state = false)
      (stepped : mergeStep deltas stables state = some next) : Reachable next

def sizes : List Nat := stables.map TupleSet.numRows ++ deltas.map (·.delta.numRows)

/-- `deleteFlag` and `position` at the end of a round. -/
def lastMatch (state : ScanState) : Match :=
  matchDeltas (currentKey deltas stables state) stables.length deltas state.deltaScanIndexTracker
    (matchStables (currentKey deltas stables state) 0 (stables.map TupleSet.rows) state.stableScanIndexTracker
      ⟨false,0,(0,0)⟩)

/-- Where a round takes the branch that reads the sizes of the first two deltas, there are two deltas. -/
def Translatable (state : ScanState) : Prop :=
  (lastMatch deltas stables state).deleteFlag = false →
    (lastMatch deltas stables state).position.1 = deltas.length+1 → 2 ≤ deltas.length

/-- The merge returns, each round of it moves an index, none beyond its table, and at the end all are at the end of theirs.
An index is an int. -/
structure Merges : Prop where
  returns : (getDeleteMap deltas stables).isSome
  moves : ∀ state, Reachable deltas stables state → visited deltas stables state = false →
    ∃ next, mergeStep deltas stables state = some next ∧ Moved (indices state) (indices next)
  within : ∀ state, Reachable deltas stables state →
    List.Forall₂ (fun i size => i ≤ size) (indices state) (sizes deltas stables)
  ends : ∃ fuel final, mergeLoop deltas stables fuel (initialState deltas stables) = some final ∧
    Reachable deltas stables final ∧ visited deltas stables final = true ∧ indices final = sizes deltas stables ∧
    ∀ i ∈ indices final, i < 2^31

end

section
variable {deltas : List (DeltaVersion n α)} {stables : List (TupleSet (Row n α))} {state next : ScanState}

theorem keepRecord_trackers {deltaSizes : List Nat} {found : Match}
    (kept : keepRecord deltaSizes found state = some next) :
    next.stableScanIndexTracker = state.stableScanIndexTracker ∧
    next.deltaScanIndexTracker = state.deltaScanIndexTracker := by
  unfold keepRecord at kept
  split at kept
  · cases kept
    exact ⟨rfl,rfl⟩
  split at kept
  · cases kept
    exact ⟨rfl,rfl⟩
  split at kept
  · obtain ⟨first,_,kept⟩ := Option.bind_eq_some_iff.mp kept
    obtain ⟨second,_,kept⟩ := Option.bind_eq_some_iff.mp kept
    cases kept
    exact ⟨rfl,rfl⟩
  split at kept <;>
  · cases kept
    exact ⟨rfl,rfl⟩

theorem keepRecord_isSome {deltaSizes : List Nat} {found : Match} : (keepRecord deltaSizes found state).isSome ↔
    (found.deleteFlag = false → found.position.1 = deltaSizes.length+1 → 2 ≤ deltaSizes.length) := by
  unfold keepRecord
  by_cases deleted : found.deleteFlag = true
  · rw [if_pos deleted,deleted]
    exact iff_of_true rfl fun kept => by cases kept
  · rw [if_neg deleted]
    have kept : found.deleteFlag = false := Bool.eq_false_iff.mpr deleted
    by_cases stable : found.position.1 = 0
    · rw [if_pos stable]
      exact iff_of_true rfl fun _ combined => by omega
    · rw [if_neg stable]
      by_cases combined : found.position.1 = deltaSizes.length+1
      · rw [if_pos combined]
        cases deltaSizes with
        | nil => simp [kept,combined]
        | cons first deltaSizes =>
          cases deltaSizes with
          | nil => simp [kept,combined]
          | cons second deltaSizes => simp
      · rw [if_neg combined]
        split <;> exact iff_of_true rfl fun _ other => absurd other combined

theorem sizes_eq : sizes deltas stables = (keyLists deltas stables).map List.length := by
  rw [sizes,keyLists,List.map_append,List.map_map,List.map_map]
  simp only [Function.comp_def,List.length_map]
  rfl

theorem totalRows_eq : totalRows deltas stables = ((keyLists deltas stables).map List.length).sum := by
  rw [← sizes_eq,sizes,List.sum_append]
  rfl

theorem mergeStep_indices (stableSize : state.stableScanIndexTracker.length = stables.length)
    (stepped : mergeStep deltas stables state = some next) :
    next.stableScanIndexTracker.length = stables.length ∧
      indices next = List.zipWith (advance (currentKey deltas stables state)) (keyLists deltas stables)
      (indices state) := by
  obtain ⟨stableMoved,deltaMoved⟩ := keepRecord_trackers stepped
  dsimp only at stableMoved deltaMoved
  rw [advanceTracker_eq] at stableMoved deltaMoved
  constructor
  · rw [stableMoved,List.length_zipWith,List.length_map,List.length_map,stableSize,Nat.min_self]
  · rw [indices,stableMoved,deltaMoved,keyLists,indices,List.zipWith_append (by rw [List.length_map,stableSize]),
      List.map_map,
      deltaRows,List.map_map]
    rfl

structure Scanning (deltas : List (DeltaVersion n α)) (stables : List (TupleSet (Row n α)))
    (state : ScanState) : Prop where
  stableSize : state.stableScanIndexTracker.length = stables.length
  within : Within (keyLists deltas stables) (indices state)

theorem scanning_start : Scanning deltas stables (initialState deltas stables) := by
  have start := within_initial (keyLists deltas stables)
  refine ⟨List.length_map _,?_⟩
  rwa [keyLists,List.map_append,List.map_map,List.map_map] at start

theorem Scanning.attained (scanning : Scanning deltas stables state) (pending : visited deltas stables state = false) :
    ∃ pair ∈ (keyLists deltas stables).zip (indices state), pair.1[pair.2]? =
    some (currentKey deltas stables state) := by
  refine (currentKey_least deltas stables state scanning.stableSize ?_).attained
  by_contra closed
  have done := (visited_iff deltas stables state scanning.stableSize).mpr fun pair member =>
    not_lt.mp fun less => closed ⟨pair,member,less⟩
  rw [pending] at done
  cases done

theorem Scanning.step (scanning : Scanning deltas stables state) (pending : visited deltas stables state = false)
    (stepped : mergeStep deltas stables state = some next) :
    Scanning deltas stables next ∧ Moved (indices state) (indices next) := by
  obtain ⟨stableSize,moved⟩ := mergeStep_indices scanning.stableSize stepped
  rw [moved]
  refine ⟨⟨stableSize,?_⟩,scanning.within.moved (scanning.attained pending)⟩
  rw [moved]
  exact scanning.within.step _

theorem Reachable.scanning (reached : Reachable deltas stables state) : Scanning deltas stables state := by
  induction reached with
  | start => exact scanning_start
  | step _ pending stepped ih => exact (ih.step pending stepped).1

theorem Scanning.ended (scanning : Scanning deltas stables state) (done : visited deltas stables state = true) :
    indices state = sizes deltas stables := by
  rw [sizes_eq]
  exact scanning.within.ended ((visited_iff deltas stables state scanning.stableSize).mp done)

theorem mergeLoop_ends (translatable : ∀ state, Reachable deltas stables state → visited deltas stables state = false →
      Translatable deltas stables state) (fuel : Nat) (reached : Reachable deltas stables state)
    (room : totalRows deltas stables ≤ (indices state).sum+fuel) :
    ∃ final, mergeLoop deltas stables fuel state = some final ∧
      Reachable deltas stables final ∧ visited deltas stables final = true := by
  have stepped : ∀ state, Reachable deltas stables state → visited deltas stables state = false →
      ∃ next, mergeStep deltas stables state = some next ∧ Reachable deltas stables next ∧
        (indices state).sum < (indices next).sum := by
    intro state reached pending
    have kept : (mergeStep deltas stables state).isSome := by
      refine keepRecord_isSome.mpr ?_
      rw [List.length_map]
      exact translatable state reached pending
    obtain ⟨next,stepped⟩ := Option.isSome_iff_exists.mp kept
    exact ⟨next,stepped,reached.step pending stepped,(reached.scanning.step pending stepped).2.sum_lt⟩
  induction fuel generalizing state with
  | zero =>
    refine ⟨state,rfl,reached,?_⟩
    by_contra open'
    obtain ⟨next,_,later,more⟩ := stepped state reached (Bool.eq_false_iff.mpr open')
    have most := later.scanning.within.sum_le
    rw [← totalRows_eq] at most
    omega
  | succ fuel ih =>
    rw [mergeLoop]
    by_cases done : visited deltas stables state = true
    · rw [if_pos done]
      exact ⟨state,rfl,reached,done⟩
    · obtain ⟨next,step,later,more⟩ := stepped state reached (Bool.eq_false_iff.mpr done)
      rw [if_neg done,step,Option.bind_some]
      exact ih later (by omega)

theorem matchStables_table (currPK : PrimaryKey n) (s : Nat) (inputs : List (List (Row n α))) (trackers : List Nat)
    (found : Match) : (matchStables currPK s inputs trackers found).position.1 = found.position.1 ∨
      (matchStables currPK s inputs trackers found).position.1 < s+inputs.length := by
  induction inputs generalizing s trackers found with
  | nil => exact .inl rfl
  | cons rows inputs ih =>
    cases trackers with
    | nil => exact .inl rfl
    | cons i trackers =>
      unfold matchStables
      rw [List.length_cons]
      cases rows[i]? with
      | none =>
        have rest := ih (s+1) trackers found
        dsimp only
        omega
      | some r =>
        dsimp only
        split
        next =>
          have rest := ih (s+1) trackers {found with position := (s,i)}
          dsimp only at rest
          omega
        next =>
          have rest := ih (s+1) trackers found
          omega

theorem matchDeltas_table (currPK : PrimaryKey n) (s : Nat) (deltas : List (DeltaVersion n α)) (trackers : List Nat)
    (found : Match) : (matchDeltas currPK s deltas trackers found).position.1 = found.position.1 ∨
      (matchDeltas currPK s deltas trackers found).position.1 < s+deltas.length := by
  induction deltas generalizing s trackers found with
  | nil => exact .inl rfl
  | cons d deltas ih =>
    cases trackers with
    | nil => exact .inl rfl
    | cons i trackers =>
      unfold matchDeltas
      rw [List.length_cons]
      cases d.delta.rows[i]? with
      | none =>
        have rest := ih (s+1) trackers found
        dsimp only
        omega
      | some r =>
        dsimp only
        split
        next =>
          have rest := ih (s+1) trackers (matchRow s i d.timestamp r found)
          have here := matchRow_table s i d.timestamp r found
          omega
        next =>
          have rest := ih (s+1) trackers found
          omega

theorem translatable_of_shape (shape : stables.length = 1 ∨ 2 ≤ deltas.length) (state : ScanState) :
    Translatable deltas stables state := by
  rcases shape with single | both
  · intro _ combined
    have stable := matchStables_table (currentKey deltas stables state) 0 (stables.map TupleSet.rows)
      state.stableScanIndexTracker ⟨false,0,(0,0)⟩
    rw [List.length_map] at stable
    have delta := matchDeltas_table (currentKey deltas stables state) stables.length deltas state.deltaScanIndexTracker
      (matchStables (currentKey deltas stables state) 0 (stables.map TupleSet.rows) state.stableScanIndexTracker
        ⟨false,0,(0,0)⟩)
    unfold lastMatch at combined
    dsimp only at stable
    omega
  · exact fun _ _ => both

/-- The merge is right exactly where there is a stable table, the sizes are of the type int, and no round translates a position
with sizes that are missing. -/
theorem merges_iff (deltas : List (DeltaVersion n α)) (stables : List (TupleSet (Row n α))) (keyed : n ≠ 0) :
    Merges deltas stables ↔ stables ≠ [] ∧ (∀ size ∈ sizes deltas stables, size < 2^31) ∧
    ∀ state, Reachable deltas stables state →
      visited deltas stables state = false → Translatable deltas stables state := by
  constructor
  · intro merges
    refine ⟨?_,?_,?_⟩
    · rintro rfl
      cases merges.returns
    · obtain ⟨_,final,_,_,_,ended,small⟩ := merges.ends
      exact ended ▸ small
    · intro state reached pending
      obtain ⟨next,stepped,_⟩ := merges.moves state reached pending
      have kept := keepRecord_isSome.mp (Option.isSome_of_mem stepped)
      rwa [List.length_map] at kept
  · rintro ⟨some,small,translatable⟩
    have ends := mergeLoop_ends translatable (totalRows deltas stables) .start (Nat.le_add_left _ _)
    obtain ⟨final,loop,reached,done⟩ := ends
    have ended := reached.scanning.ended done
    refine ⟨?_,?_,?_,totalRows deltas stables,final,loop,reached,done,ended,ended ▸ small⟩
    · obtain ⟨stable,stables,rfl⟩ := List.exists_cons_of_ne_nil some
      simp [getDeleteMap,keyed,loop]
    · intro state reached pending
      have kept : (mergeStep deltas stables state).isSome := by
        refine keepRecord_isSome.mpr ?_
        rw [List.length_map]
        exact translatable state reached pending
      obtain ⟨next,stepped⟩ := Option.isSome_iff_exists.mp kept
      exact ⟨next,stepped,(reached.scanning.step pending stepped).2⟩
    · intro state reached
      rw [sizes_eq,List.forall₂_map_right_iff]
      exact reached.scanning.within.flip

end

section Tables

def stableOf (keys : List Int32) : TupleSet (Row 1 Unit) := .ofRows (keys.map fun key => ⟨singleKey key,()⟩)

/-- Unsorted rows, a repeated key and the greatest key. -/
theorem unsorted_merges : Merges (n := 1) (α := Unit) [] [stableOf [Int32.maxValue,3,3]] :=
  (merges_iff [] [stableOf [Int32.maxValue,3,3]] (by decide)).mpr
    ⟨List.cons_ne_nil _ _,by decide,fun state _ _ => translatable_of_shape (.inl rfl) state⟩

/-- The row of the second of two stable tables is translated with the sizes of two deltas where there are none. -/
theorem two_stables_do_not_merge : ¬Merges (n := 1) (α := Unit) [] [stableOf [],stableOf [5]] := by
  intro merges
  obtain ⟨next,stepped,_⟩ := merges.moves _ .start (by decide)
  have missing : mergeStep (n := 1) (α := Unit) [] [stableOf [],stableOf [5]]
    (initialState [] [stableOf [],stableOf [5]]) = none := by decide
  rw [missing] at stepped
  cases stepped

end Tables

end Hermes.DeleteMapProgress
