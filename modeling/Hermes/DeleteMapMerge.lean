import Hermes.DeleteMapGeneratorKernel
import Hermes.Library.KeyOrder
import Hermes.Library.Scan
import Mathlib.Data.List.Perm.Subperm
import Mathlib.Order.MinMax

/-! What the k-way merge computes on ascending inputs.
Its rounds visit the keys of all inputs once each, in ascending order, and what
a round does depends on the key alone. -/
namespace Hermes.DeleteMapMerge
open Hermes.Tuple Hermes.Delta Hermes.DeleteMapGeneratorKernel
open Hermes.Library.KeyOrder Hermes.Library.Scan
variable {n : Nat} {α ρ : Type}

theorem comparePrimaryKey_eq_zero {first second : List Int32} (size : first.length = second.length) :
    comparePrimaryKey first second = 0 ↔ first = second := by
  induction first generalizing second with
  | nil =>
    cases second with
    | nil => simp [comparePrimaryKey]
    | cons b second => simp at size
  | cons a first ih =>
    cases second with
    | nil => simp at size
    | cons b second =>
      unfold comparePrimaryKey
      split
      next less => simpa using fun same : a = b => absurd less (same ▸ lt_irrefl a)
      next notLess =>
        split
        next greater => simpa using fun same : a = b => absurd greater (same ▸ lt_irrefl a)
        next notGreater =>
          have same : a = b := le_antisymm (not_lt.mp notGreater) (not_lt.mp notLess)
          rw [ih (by simpa using size)]
          simp [same]

theorem comparePrimaryKey_neg {first second : List Int32} (size : first.length = second.length) :
    comparePrimaryKey first second < 0 ↔ first < second := by
  induction first generalizing second with
  | nil =>
    cases second with
    | nil => simp [comparePrimaryKey]
    | cons b second => simp at size
  | cons a first ih =>
    cases second with
    | nil => simp at size
    | cons b second =>
      unfold comparePrimaryKey
      rw [List.cons_lt_cons_iff]
      split
      next less => simp [less]
      next notLess =>
        split
        next greater => simpa [notLess] using fun same : a = b => absurd greater (same ▸ lt_irrefl a)
        next notGreater =>
          have same : a = b := le_antisymm (not_lt.mp notGreater) (not_lt.mp notLess)
          rw [ih (by simpa using size)]
          simp [same]

theorem compareKeys_eq_zero (k l : PrimaryKey n) : comparePrimaryKey k.1 l.1 = 0 ↔ k = l :=
  (comparePrimaryKey_eq_zero (k.2.trans l.2.symm)).trans Subtype.ext_iff.symm

theorem compareKeys_neg (k l : PrimaryKey n) : comparePrimaryKey k.1 l.1 < 0 ↔ k < l :=
  comparePrimaryKey_neg (k.2.trans l.2.symm)

private theorem le_replicate_maxValue (columns : List Int32) :
    columns ≤ List.replicate columns.length Int32.maxValue := by
  induction columns with
  | nil => exact le_refl _
  | cons a columns ih =>
    have top : a ≤ Int32.maxValue := Int32.le_maxValue a
    rw [List.length_cons,List.replicate_succ]
    apply not_lt.mp
    intro above
    rcases List.cons_lt_cons_iff.mp above with less | ⟨_,rest⟩
    · exact absurd less (not_lt.mpr top)
    · exact absurd rest (not_lt.mpr ih)

theorem le_maxKey (k : PrimaryKey n) : k ≤ maxKey n := by
  have below := le_replicate_maxValue k.1
  rw [k.2] at below
  exact below

section Heads
variable (key : ρ → PrimaryKey n)

private theorem smallestKey_head (rows : List ρ) (inputs : List (List ρ)) (i : Nat) (indices : List Nat)
    (currPK : PrimaryKey n) :
    smallestKey key (rows::inputs) (i::indices) currPK =
      smallestKey key inputs indices
        (match rows[i]? with | none => currPK | some r => min (key r) currPK) := by
  rw [smallestKey]
  cases rows[i]? with
  | none => rfl
  | some r =>
    have smaller : (if comparePrimaryKey (key r).1 currPK.1 < 0 then key r else currPK) =
        min (key r) currPK := by
      by_cases less : key r < currPK
      · rw [if_pos ((compareKeys_neg _ _).mpr less),min_eq_left (le_of_lt less)]
      · rw [if_neg (fun h => less ((compareKeys_neg _ _).mp h)),min_eq_right (not_lt.mp less)]
    simp only [smaller]

theorem smallestKey_le (inputs : List (List ρ)) (indices : List Nat) (currPK : PrimaryKey n) :
    smallestKey key inputs indices currPK ≤ currPK ∧
      ∀ pair ∈ inputs.zip indices, ∀ r, pair.1[pair.2]? = some r →
        smallestKey key inputs indices currPK ≤ key r := by
  induction inputs generalizing indices currPK with
  | nil => exact ⟨by simp [smallestKey],by simp⟩
  | cons rows inputs ih =>
    cases indices with
    | nil => exact ⟨by simp [smallestKey],by simp⟩
    | cons i indices =>
      rw [smallestKey_head]
      cases read : rows[i]? with
      | none =>
        obtain ⟨below,heads⟩ := ih indices currPK
        refine ⟨below,?_⟩
        intro pair member r head
        rcases List.mem_cons.mp member with rfl | inside
        · simp [read] at head
        · exact heads pair inside r head
      | some s =>
        obtain ⟨below,heads⟩ := ih indices (min (key s) currPK)
        refine ⟨below.trans (min_le_right _ _),?_⟩
        intro pair member r head
        rcases List.mem_cons.mp member with rfl | inside
        · rw [read,Option.some.injEq] at head
          exact head ▸ below.trans (min_le_left _ _)
        · exact heads pair inside r head

theorem smallestKey_attained (inputs : List (List ρ)) (indices : List Nat) (currPK : PrimaryKey n) :
    smallestKey key inputs indices currPK = currPK ∨
      ∃ pair ∈ inputs.zip indices, ∃ r, pair.1[pair.2]? = some r ∧
        key r = smallestKey key inputs indices currPK := by
  induction inputs generalizing indices currPK with
  | nil => exact Or.inl (by simp [smallestKey])
  | cons rows inputs ih =>
    cases indices with
    | nil => exact Or.inl (by simp [smallestKey])
    | cons i indices =>
      rw [smallestKey_head]
      cases read : rows[i]? with
      | none =>
        rcases ih indices currPK with same | ⟨pair,inside,found⟩
        · exact Or.inl same
        · exact Or.inr ⟨pair,by simp [inside],found⟩
      | some s =>
        rcases ih indices (min (key s) currPK) with same | ⟨pair,inside,found⟩
        · rcases min_choice (key s) currPK with here | kept
          · exact Or.inr ⟨(rows,i),by simp,s,read,(same.trans here).symm⟩
          · exact Or.inl (same.trans kept)
        · exact Or.inr ⟨pair,by simp [inside],found⟩

theorem advanceTracker_eq (currPK : PrimaryKey n) (inputs : List (List ρ)) (indices : List Nat) :
    advanceTracker key currPK inputs indices =
      List.zipWith (advance currPK) (inputs.map (List.map key)) indices := by
  induction inputs generalizing indices with
  | nil => simp [advanceTracker]
  | cons rows inputs ih =>
    cases indices with
    | nil => simp [advanceTracker]
    | cons i indices =>
      unfold advanceTracker
      rw [ih,List.map_cons,List.zipWith_cons_cons]
      congr 1
      unfold advance
      rw [List.getElem?_map]
      cases rows[i]? with
      | none => simp
      | some r =>
        simp only [compareKeys_eq_zero,Option.map_some,Option.some.injEq,eq_comm (a := key r)]

end Heads

def keyLists (deltas : List (DeltaVersion n α)) (stables : List (TupleSet (Row n α))) :
    List (List (PrimaryKey n)) :=
  stables.map (fun stable => stable.rows.map Row.key) ++
    deltas.map (fun d => d.delta.rows.map (·.key))

def indices (state : ScanState) : List Nat :=
  state.stableScanIndexTracker ++ state.deltaScanIndexTracker

private theorem mem_zip_keys (key : ρ → PrimaryKey n) {inputs : List (List ρ)} {trackers : List Nat}
    {pair : List (PrimaryKey n) × Nat} :
    pair ∈ (inputs.map (List.map key)).zip trackers ↔
      ∃ source ∈ inputs.zip trackers, (source.1.map key,source.2) = pair := by
  rw [List.zip_map_left,List.mem_map]
  rfl

private theorem smallestKey_heads (key : ρ → PrimaryKey n) (inputs : List (List ρ))
    (trackers : List Nat) (currPK : PrimaryKey n) :
    (∀ pair ∈ (inputs.map (List.map key)).zip trackers, ∀ x, pair.1[pair.2]? = some x →
        smallestKey key inputs trackers currPK ≤ x) ∧
      (smallestKey key inputs trackers currPK = currPK ∨
        ∃ pair ∈ (inputs.map (List.map key)).zip trackers,
          pair.1[pair.2]? = some (smallestKey key inputs trackers currPK)) := by
  constructor
  · intro pair member x head
    obtain ⟨source,inside,rfl⟩ := (mem_zip_keys key).mp member
    rw [List.getElem?_map,Option.map_eq_some_iff] at head
    obtain ⟨r,read,rfl⟩ := head
    exact (smallestKey_le key inputs trackers currPK).2 source inside r read
  · rcases smallestKey_attained key inputs trackers currPK with same | ⟨source,inside,r,read,found⟩
    · exact Or.inl same
    · refine Or.inr ⟨_,(mem_zip_keys key).mpr ⟨source,inside,rfl⟩,?_⟩
      simp [List.getElem?_map,read,found]

theorem currentKey_least (deltas : List (DeltaVersion n α)) (stables : List (TupleSet (Row n α)))
    (state : ScanState) (size : state.stableScanIndexTracker.length = stables.length)
    (open_ : ∃ pair ∈ (keyLists deltas stables).zip (indices state), pair.2 < pair.1.length) :
    Least (keyLists deltas stables) (indices state) (currentKey deltas stables state) := by
  let stableKey := smallestKey Row.key (stables.map TupleSet.rows) state.stableScanIndexTracker (maxKey n)
  have stableHeads := smallestKey_heads Row.key (stables.map TupleSet.rows)
    state.stableScanIndexTracker (maxKey n)
  have deltaHeads := smallestKey_heads (fun r : DeltaRow n α => r.key) (deltaRows deltas)
    state.deltaScanIndexTracker stableKey
  have below : currentKey deltas stables state ≤ stableKey :=
    (smallestKey_le (fun r : DeltaRow n α => r.key) (deltaRows deltas) state.deltaScanIndexTracker stableKey).1
  have zipped : (keyLists deltas stables).zip (indices state) =
      ((stables.map TupleSet.rows).map (List.map Row.key)).zip state.stableScanIndexTracker ++
        ((deltaRows deltas).map (List.map (fun r : DeltaRow n α => r.key))).zip
          state.deltaScanIndexTracker := by
    unfold keyLists indices deltaRows
    rw [List.zip_append (by simp [size])]
    simp [List.map_map,Function.comp_def]
  have least : ∀ pair ∈ (keyLists deltas stables).zip (indices state), ∀ x,
      pair.1[pair.2]? = some x → currentKey deltas stables state ≤ x := by
    intro pair member x head
    rw [zipped] at member
    rcases List.mem_append.mp member with inside | inside
    · exact below.trans (stableHeads.1 pair inside x head)
    · exact deltaHeads.1 pair inside x head
  refine ⟨?_,least⟩
  rcases deltaHeads.2 with same | ⟨pair,inside,head⟩
  · rcases stableHeads.2 with sentinel | ⟨pair,inside,head⟩
    · -- every head is at most the sentinel, and some input still has one
      obtain ⟨pair,inside,bound⟩ := open_
      have top : currentKey deltas stables state = maxKey n := same.trans sentinel
      refine ⟨pair,inside,?_⟩
      rw [List.getElem?_eq_getElem bound,top,Option.some.injEq]
      apply le_antisymm (le_maxKey _)
      exact top ▸ least pair inside _ (List.getElem?_eq_getElem bound)
    · refine ⟨pair,zipped ▸ List.mem_append_left _ inside,?_⟩
      exact head.trans (congrArg some same.symm)
  · exact ⟨pair,zipped ▸ List.mem_append_right _ inside,head⟩

private theorem all_visited_iff (lists : List (List ρ)) (trackers : List Nat) :
    (trackers.zip (lists.map List.length)).all (fun (i,size) => !decide (i < size)) = true ↔
      ∀ pair ∈ lists.zip trackers, pair.1.length ≤ pair.2 := by
  induction lists generalizing trackers with
  | nil => simp
  | cons rows lists ih =>
    cases trackers with
    | nil => simp
    | cons i trackers => simpa using fun _ => by simpa using ih trackers

theorem visited_iff (deltas : List (DeltaVersion n α)) (stables : List (TupleSet (Row n α)))
    (state : ScanState) (size : state.stableScanIndexTracker.length = stables.length) :
    visited deltas stables state = true ↔
      ∀ pair ∈ (keyLists deltas stables).zip (indices state), pair.1.length ≤ pair.2 := by
  have stableSizes : stables.map TupleSet.numRows =
      (stables.map (fun stable => stable.rows.map Row.key)).map List.length := by
    simp [List.map_map,Function.comp_def,TupleSet.numRows]
  have deltaSizes : deltas.map (·.delta.numRows) =
      (deltas.map (fun d => d.delta.rows.map (·.key))).map List.length := by
    simp [List.map_map,Function.comp_def,TupleSet.numRows]
  unfold visited checkIfAllRecordsWereVisited keyLists indices
  rw [List.zip_append (by simp [size]),Bool.and_eq_true,deltaSizes,stableSizes,
    all_visited_iff,all_visited_iff]
  simp only [List.mem_append,or_imp,forall_and]
  exact and_comm

/-- The round of key `k`, read off the deltas. -/
def matchKey (k : PrimaryKey n) : Nat → List (DeltaVersion n α) → Match → Match
  | s, d::deltas, found =>
    matchKey k (s+1) deltas <|
      match locate (·.key) k d.delta.rows with
      | none => found
      | some (r,i) => matchRow s i d.timestamp r found
  | _, [], found => found

def stableMatch (stable : TupleSet (Row n α)) (k : PrimaryKey n) : Match :=
  ⟨false,0,(0,match locate Row.key k stable.rows with | none => 0 | some (_,i) => i)⟩

def keyMatch (deltas : List (DeltaVersion n α)) (stable : TupleSet (Row n α)) (k : PrimaryKey n) : Match :=
  matchKey k 1 deltas (stableMatch stable k)

private theorem head_locate {key : ρ → PrimaryKey n} {rows : List ρ} (ascending : Ascending key rows)
    {k : PrimaryKey n} {i : Nat} (head : (rows.map key)[i]? = some k ↔ k ∈ rows.map key) :
    locate key k rows =
      match rows[i]? with
      | none => none
      | some r => if key r = k then some (r,i) else none := by
  have absent : (rows.map key)[i]? ≠ some k → locate key k rows = none := by
    intro other
    apply locate_eq_none.mpr
    intro r member same
    exact other (head.mpr (List.mem_map.mpr ⟨r,member,same⟩))
  rw [List.getElem?_map] at absent
  cases read : rows[i]? with
  | none => exact absent (by simp [read])
  | some r =>
    by_cases same : key r = k
    · simp only [same,if_true]
      exact ascending.locate_eq_some.mpr ⟨read,same⟩
    · simp only [same,if_false]
      exact absent (by simp [read,same])

private theorem matchDeltas_eq {k : PrimaryKey n} {deltas : List (DeltaVersion n α)} {trackers : List Nat}
    (size : trackers.length = deltas.length)
    (ascending : ∀ d ∈ deltas, Ascending (·.key) d.delta.rows)
    (heads : ∀ pair ∈ (deltas.map (fun d => d.delta.rows.map (·.key))).zip trackers,
      pair.1[pair.2]? = some k ↔ k ∈ pair.1) (s : Nat) (found : Match) :
    matchDeltas k s deltas trackers found = matchKey k s deltas found := by
  induction deltas generalizing trackers s found with
  | nil => simp [matchDeltas,matchKey]
  | cons d deltas ih =>
    cases trackers with
    | nil => simp at size
    | cons i trackers =>
      have head := head_locate (ascending d (by simp)) (heads (_,i) (by simp))
      unfold matchDeltas matchKey
      rw [ih (by simpa using size) (fun d' member => ascending d' (by simp [member]))
        (fun pair member => heads pair (by simp [member])),head]
      congr 1
      cases d.delta.rows[i]? with
      | none => rfl
      | some r =>
        by_cases same : r.key = k
        · simp [same,compareKeys_eq_zero]
        · simp [same,compareKeys_eq_zero,Ne.symm same]

private theorem matchStables_eq {k : PrimaryKey n} {stable : TupleSet (Row n α)} {i : Nat}
    (ascending : Ascending Row.key stable.rows)
    (head : (stable.rows.map Row.key)[i]? = some k ↔ k ∈ stable.rows.map Row.key) :
    matchStables k 0 [stable.rows] [i] ⟨false,0,(0,0)⟩ = stableMatch stable k := by
  have located := head_locate ascending head
  unfold matchStables stableMatch
  rw [located]
  cases stable.rows[i]? with
  | none => rfl
  | some r =>
    by_cases same : r.key = k
    · simp [same,compareKeys_eq_zero,matchStables]
    · simp [same,compareKeys_eq_zero,matchStables,Ne.symm same]

def keptPosition (deltas : List (DeltaVersion n α)) (stable : TupleSet (Row n α)) (k : PrimaryKey n) :
    Option Nat :=
  let found := keyMatch deltas stable k
  if found.deleteFlag || found.position.1 = 0 then none else some found.position.2

def keptStable (deltas : List (DeltaVersion n α)) (stable : TupleSet (Row n α)) (k : PrimaryKey n) :
    Option Nat :=
  let found := keyMatch deltas stable k
  if !found.deleteFlag && found.position.1 = 0 then some found.position.2 else none

theorem matchRow_table (s i : Nat) (timestamp : Int) (r : DeltaRow n α) (found : Match) :
    (matchRow s i timestamp r found).position.1 = found.position.1 ∨
      (matchRow s i timestamp r found).position.1 = s := by
  unfold matchRow
  split
  · exact Or.inr rfl
  · exact Or.inl rfl

private theorem matchKey_table (k : PrimaryKey n) (s : Nat) (deltas : List (DeltaVersion n α))
    (found : Match) :
    (matchKey k s deltas found).position.1 = found.position.1 ∨
      (s ≤ (matchKey k s deltas found).position.1 ∧
        (matchKey k s deltas found).position.1 < s + deltas.length) := by
  induction deltas generalizing s found with
  | nil => exact Or.inl rfl
  | cons d deltas ih =>
    unfold matchKey
    cases locate (·.key) k d.delta.rows with
    | none =>
      have rest := ih (s+1) found
      simp only [List.length_cons]
      omega
    | some entry =>
      have rest := ih (s+1) (matchRow s entry.2 d.timestamp entry.1 found)
      have here := matchRow_table s entry.2 d.timestamp entry.1 found
      simp only [List.length_cons]
      omega

private theorem keepRecord_eq (deltas : List (DeltaVersion n α)) (stable : TupleSet (Row n α))
    (k : PrimaryKey n) (state : ScanState) :
    keepRecord (deltas.map (·.delta.numRows)) (keyMatch deltas stable k) state =
      some {state with
        deltasPositions := state.deltasPositions ++ (keptPosition deltas stable k).toList
        stableDm := state.stableDm ++ (keptStable deltas stable k).toList} := by
  have table : (keyMatch deltas stable k).position.1 ≠ deltas.length+1 := by
    have range := matchKey_table k 1 deltas (stableMatch stable k)
    unfold keyMatch
    simp only [stableMatch] at range ⊢
    omega
  unfold keepRecord keptPosition keptStable
  cases deleted : (keyMatch deltas stable k).deleteFlag with
  | true => simp [deleted]
  | false =>
    by_cases stableKept : (keyMatch deltas stable k).position.1 = 0
    · simp [deleted,stableKept]
    · simp [deleted,stableKept,table]

/-- The loop after the rounds of `taken`. -/
structure Progress (deltas : List (DeltaVersion n α)) (stable : TupleSet (Row n α))
    (state : ScanState) (taken : List (PrimaryKey n)) : Prop where
  scans : Scans (keyLists deltas [stable]) (indices state) taken
  stableSize : state.stableScanIndexTracker.length = 1
  deltaSize : state.deltaScanIndexTracker.length = deltas.length
  positions : state.deltasPositions = taken.filterMap (keptPosition deltas stable)
  kept : state.stableDm = taken.filterMap (keptStable deltas stable)

section Loop
variable {deltas : List (DeltaVersion n α)} {stable : TupleSet (Row n α)}

theorem progress_initial : Progress deltas stable (initialState deltas [stable]) [] := by
  refine ⟨?_,rfl,by simp [initialState],rfl,rfl⟩
  have start := scans_initial (keyLists deltas [stable])
  simpa [keyLists,indices,initialState,List.map_map,Function.comp_def] using start

private theorem keyLists_ascending (stableOrder : Ascending Row.key stable.rows)
    (deltaOrder : ∀ d ∈ deltas, Ascending (·.key) d.delta.rows) :
    ∀ keys ∈ keyLists deltas [stable], keys.Pairwise (· < ·) := by
  intro keys member
  rcases List.mem_append.mp member with inside | inside
  · rw [List.mem_singleton.mp inside]
    exact stableOrder.keys
  · obtain ⟨d,here,rfl⟩ := List.mem_map.mp inside
    exact (deltaOrder d here).keys

theorem progress_step {state : ScanState} {taken : List (PrimaryKey n)}
    (stableOrder : Ascending Row.key stable.rows)
    (deltaOrder : ∀ d ∈ deltas, Ascending (·.key) d.delta.rows)
    (progress : Progress deltas stable state taken)
    (pending : visited deltas [stable] state = false) :
    ∃ next k, mergeStep deltas [stable] state = some next ∧
      Progress deltas stable next (taken ++ [k]) := by
  obtain ⟨scans,stableSize,deltaSize,positions,kept⟩ := progress
  have sorted := keyLists_ascending stableOrder deltaOrder
  have open_ : ∃ pair ∈ (keyLists deltas [stable]).zip (indices state), pair.2 < pair.1.length := by
    by_contra closed
    have all := (visited_iff deltas [stable] state stableSize).mpr
      (fun pair member => not_lt.mp (fun less => closed ⟨pair,member,less⟩))
    simp [pending] at all
  have least := currentKey_least deltas [stable] state stableSize open_
  generalize current : currentKey deltas [stable] state = k at least
  obtain ⟨i,single⟩ : ∃ i, state.stableScanIndexTracker = [i] := List.length_eq_one_iff.mp stableSize
  have zipped : (keyLists deltas [stable]).zip (indices state) =
      (stable.rows.map Row.key,i) ::
        (deltas.map (fun d => d.delta.rows.map (·.key))).zip state.deltaScanIndexTracker := by
    simp [keyLists,indices,single]
  have heads : ∀ pair ∈ (keyLists deltas [stable]).zip (indices state),
      (pair.1[pair.2]? = some k ↔ k ∈ pair.1) :=
    fun pair member => scans.head_iff least sorted member
  have stableMatched : matchStables k 0 [stable.rows] [i] ⟨false,0,(0,0)⟩ = stableMatch stable k :=
    matchStables_eq stableOrder (heads _ (zipped ▸ List.mem_cons_self))
  have deltaMatched := matchDeltas_eq deltaSize deltaOrder
    (fun pair member => heads pair (zipped ▸ List.mem_cons_of_mem _ member)) 1 (stableMatch stable k)
  have found : matchDeltas k 1 deltas state.deltaScanIndexTracker
      (matchStables k 0 [stable.rows] [i] ⟨false,0,(0,0)⟩) = keyMatch deltas stable k := by
    rw [stableMatched,deltaMatched,keyMatch]
  have step : mergeStep deltas [stable] state = some {
      stableScanIndexTracker := advanceTracker (·.key) k [stable.rows] [i]
      deltaScanIndexTracker := advanceTracker (·.key) k (deltaRows deltas) state.deltaScanIndexTracker
      deltasPositions := state.deltasPositions ++ (keptPosition deltas stable k).toList
      stableDm := state.stableDm ++ (keptStable deltas stable k).toList} := by
    unfold mergeStep
    simp only [current,single,List.map_cons,List.map_nil,List.length_cons,List.length_nil,Nat.zero_add,
      found,keepRecord_eq]
  refine ⟨_,k,step,?_,?_,?_,?_,?_⟩
  · have moved := scans.step least sorted
    have trackers : List.zipWith (advance k) (keyLists deltas [stable]) (indices state) =
        advanceTracker (·.key) k [stable.rows] [i] ++
          advanceTracker (fun r : DeltaRow n α => r.key) k (deltaRows deltas)
            state.deltaScanIndexTracker := by
      rw [advanceTracker_eq,advanceTracker_eq]
      simp [keyLists,indices,single,deltaRows,List.map_map,Function.comp_def]
    rw [trackers] at moved
    exact moved
  · simp [advanceTracker_eq]
  · simp [advanceTracker_eq,deltaRows,deltaSize]
  · simp [positions,List.filterMap_cons]
    cases keptPosition deltas stable k <;> rfl
  · simp [kept,List.filterMap_cons]
    cases keptStable deltas stable k <;> rfl

private theorem taken_bound {state : ScanState} {taken : List (PrimaryKey n)}
    (progress : Progress deltas stable state taken) : taken.length ≤ totalRows deltas [stable] := by
  have distinct : taken.Nodup := progress.scans.ascending.imp ne_of_lt
  have inside : taken ⊆ (keyLists deltas [stable]).flatten := by
    intro k member
    obtain ⟨keys,here,found⟩ := progress.scans.sound k member
    exact List.mem_flatten.mpr ⟨keys,here,found⟩
  have bound := (List.subperm_of_subset distinct inside).length_le
  have total : (keyLists deltas [stable]).flatten.length = totalRows deltas [stable] := by
    simp [keyLists,totalRows,List.length_flatten,TupleSet.numRows,List.map_map,Function.comp_def]
  omega

theorem mergeLoop_visited (stableOrder : Ascending Row.key stable.rows)
    (deltaOrder : ∀ d ∈ deltas, Ascending (·.key) d.delta.rows)
    (fuel : Nat) {state : ScanState} {taken : List (PrimaryKey n)}
    (progress : Progress deltas stable state taken)
    (enough : totalRows deltas [stable] ≤ taken.length + fuel) :
    ∃ final keys, mergeLoop deltas [stable] fuel state = some final ∧
      Progress deltas stable final keys ∧ visited deltas [stable] final = true := by
  induction fuel generalizing state taken with
  | zero =>
    refine ⟨state,taken,rfl,progress,?_⟩
    by_contra pending
    obtain ⟨next,k,_,further⟩ := progress_step stableOrder deltaOrder progress (by simpa using pending)
    have bound := taken_bound further
    simp only [List.length_append,List.length_singleton] at bound
    omega
  | succ fuel ih =>
    unfold mergeLoop
    split
    next done => exact ⟨state,taken,rfl,progress,done⟩
    next pending =>
      obtain ⟨next,k,step,further⟩ :=
        progress_step stableOrder deltaOrder progress (by simpa using pending)
      rw [step,Option.bind_some]
      apply ih further
      simp only [List.length_append,List.length_singleton]
      omega

end Loop

/-- The keys of all inputs, in the order of the merge. -/
structure MergeKeys (deltas : List (DeltaVersion n α)) (stable : TupleSet (Row n α))
    (keys : List (PrimaryKey n)) : Prop where
  ascending : keys.Pairwise (· < ·)
  mem_iff : ∀ k, k ∈ keys ↔
    (∃ r ∈ stable.rows, r.key = k) ∨ ∃ d ∈ deltas, ∃ r ∈ d.delta.rows, r.key = k

theorem getDeleteMap_eq {deltas : List (DeltaVersion n α)} {stable : TupleSet (Row n α)} (columns : 0 < n)
    (stableOrder : Ascending Row.key stable.rows)
    (deltaOrder : ∀ d ∈ deltas, Ascending (·.key) d.delta.rows) :
    ∃ keys, MergeKeys deltas stable keys ∧
      getDeleteMap deltas [stable] = some (keys.filterMap (keptPosition deltas stable),
        (List.range stable.numRows).map (fun s => decide (s ∈ keys.filterMap (keptStable deltas stable)))) := by
  obtain ⟨final,keys,loop,progress,done⟩ := mergeLoop_visited stableOrder deltaOrder
    (totalRows deltas [stable]) progress_initial (by simp)
  refine ⟨keys,⟨progress.scans.ascending,?_⟩,?_⟩
  · intro k
    rw [progress.scans.complete ((visited_iff deltas [stable] final progress.stableSize).mp done) k]
    simp [keyLists]
  · unfold getDeleteMap
    have some_columns : ¬n = 0 := by omega
    simp [some_columns,loop,progress.positions,progress.kept]

end Hermes.DeleteMapMerge
