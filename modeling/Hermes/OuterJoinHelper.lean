import Hermes.TupleSetIndex
import Hermes.Library.ListJoin

/-! The columns a join puts out, the join it should compute, and the helper that
pads the unmatched rows of an outer side. -/
namespace Hermes.Join
open Hermes.Tuple Hermes.Library.ListJoin

abbrev NeededColumn (left right : Schema) := Fin left.length ⊕ Fin right.length

abbrev OutputRow (ν : Type) := List (Option ν)

def sideColumns (schema : Schema) (neededColumnNames : List String) : List (Fin schema.length) :=
  (List.finRange schema.length).filter fun c => schema.get c ∈ neededColumnNames

/-- `neededColumnIndice_` as `bufferOutputSchema` fills it. -/
def neededColumnIndice (left right : Schema) (neededColumnNames : List String) :
    List (NeededColumn left right) :=
  (sideColumns left neededColumnNames).map .inl ++ (sideColumns right neededColumnNames).map .inr

/-- `outputSchema_` as `bufferOutputSchema` fills it. -/
def outputFields (left right : Schema) (neededColumnNames : List String) : Schema :=
  (neededColumnIndice left right neededColumnNames).map (Sum.elim left.get right.get)

section
variable {ν : Type} {left right : Schema}

def outputRow (needed : List (NeededColumn left right)) (leftRow : Record ν left)
    (rightRow : Record ν right) : OutputRow ν :=
  needed.map (Sum.elim leftRow rightRow)

def nullRow (schema : Schema) : Record ν schema := fun _ => none

def leftMatched (matching : Record ν left → Record ν right → Bool) (rightRows : List (Record ν right))
    (row : Record ν left) : Prop :=
  ∃ other ∈ rightRows, matching row other

def rightMatched (matching : Record ν left → Record ν right → Bool) (leftRows : List (Record ν left))
    (row : Record ν right) : Prop :=
  ∃ other ∈ leftRows, matching other row

instance (matching : Record ν left → Record ν right → Bool) (rightRows : List (Record ν right)) :
    DecidablePred (leftMatched matching rightRows) :=
  fun row => inferInstanceAs (Decidable (∃ other ∈ rightRows, matching row other))

instance (matching : Record ν left → Record ν right → Bool) (leftRows : List (Record ν left)) :
    DecidablePred (rightMatched matching leftRows) :=
  fun row => inferInstanceAs (Decidable (∃ other ∈ leftRows, matching other row))

/-- The join by definition: the matching pairs, and for an outer side its rows
without any match next to nulls. -/
def referenceJoin (needed : List (NeededColumn left right)) (matching : Record ν left → Record ν right → Bool)
    (isLeft isRight : Bool) (leftRows : List (Record ν left)) (rightRows : List (Record ν right)) :
    List (OutputRow ν) :=
  (pairs matching leftRows rightRows).map (fun pair => outputRow needed pair.1 pair.2) ++
  (if isLeft then (leftRows.filter fun row => ¬leftMatched matching rightRows row).map fun row =>
    outputRow needed row (nullRow right) else []) ++
  (if isRight then (rightRows.filter fun row => ¬rightMatched matching leftRows row).map
    (outputRow needed (nullRow left)) else [])

theorem referenceJoin_congr (needed : List (NeededColumn left right))
    {matching other : Record ν left → Record ν right → Bool} (isLeft isRight : Bool)
    {leftRows : List (Record ν left)} {rightRows : List (Record ν right)}
    (same : ∀ l ∈ leftRows, ∀ r ∈ rightRows, matching l r = other l r) :
    referenceJoin needed matching isLeft isRight leftRows rightRows =
      referenceJoin needed other isLeft isRight leftRows rightRows := by
  have joined : pairs matching leftRows rightRows = pairs other leftRows rightRows := by
    apply List.flatMap_congr
    intro r inRight
    apply congrArg
    apply List.filter_congr
    intro l inLeft
    exact same l inLeft r inRight
  have lefts : (leftRows.filter fun row => ¬leftMatched matching rightRows row) =
      leftRows.filter fun row => ¬leftMatched other rightRows row := by
    apply List.filter_congr
    intro l inLeft
    have here : leftMatched matching rightRows l ↔ leftMatched other rightRows l := by
      apply exists_congr
      intro r
      apply and_congr_right
      intro inRight
      rw [same l inLeft r inRight]
    simp only [here]
  have rights : (rightRows.filter fun row => ¬rightMatched matching leftRows row) =
      rightRows.filter fun row => ¬rightMatched other leftRows row := by
    apply List.filter_congr
    intro r inRight
    have here : rightMatched matching leftRows r ↔ rightMatched other leftRows r := by
      apply exists_congr
      intro l
      apply and_congr_right
      intro inLeft
      rw [same l inLeft r inRight]
    simp only [here]
  rw [referenceJoin,joined,lefts,rights,referenceJoin]

end

structure OuterJoinHelper (left right : Schema) where
  isLeft : Bool
  outputSchema : Schema
  neededColumnIndice : List (NeededColumn left right)
  rowMatchIndexes : Option (Finset Nat)

namespace OuterJoinHelper
variable {ν : Type} {left right : Schema}

def make (isLeft : Bool) (outputSchema : Schema) (neededColumnIndice : List (NeededColumn left right)) :
    OuterJoinHelper left right :=
  ⟨isLeft,outputSchema,neededColumnIndice,none⟩

def putRowMatchIndexes (helper : OuterJoinHelper left right) (newRowMatchIndexes : Finset Nat) :
    OuterJoinHelper left right :=
  match helper.rowMatchIndexes with
  | none => {helper with rowMatchIndexes := some newRowMatchIndexes}
  | some rowMatchIndexes => {helper with rowMatchIndexes := some (rowMatchIndexes ∪ newRowMatchIndexes)}

@[simp] theorem isLeft_putRowMatchIndexes (helper : OuterJoinHelper left right) (newRowMatchIndexes : Finset Nat) :
    (helper.putRowMatchIndexes newRowMatchIndexes).isLeft = helper.isLeft := by
  unfold putRowMatchIndexes
  split <;> rfl

@[simp] theorem neededColumnIndice_putRowMatchIndexes (helper : OuterJoinHelper left right)
    (newRowMatchIndexes : Finset Nat) :
    (helper.putRowMatchIndexes newRowMatchIndexes).neededColumnIndice = helper.neededColumnIndice := by
  unfold putRowMatchIndexes
  split <;> rfl

@[simp] theorem getD_putRowMatchIndexes (helper : OuterJoinHelper left right) (newRowMatchIndexes : Finset Nat) :
    (helper.putRowMatchIndexes newRowMatchIndexes).rowMatchIndexes.getD ∅ =
      helper.rowMatchIndexes.getD ∅ ∪ newRowMatchIndexes := by
  unfold putRowMatchIndexes
  split
  next none => simp [none]
  next rowMatchIndexes some => simp [some]

def keepColumnIds (helper : OuterJoinHelper left right) : List Nat :=
  helper.neededColumnIndice.filterMap fun
    | .inl c => if helper.isLeft then some c.val else none
    | .inr c => if helper.isLeft then none else some c.val

def discardNumColumns (helper : OuterJoinHelper left right) : Nat :=
  helper.neededColumnIndice.countP fun
    | .inl _ => !helper.isLeft
    | .inr _ => helper.isLeft

/-- `TupleSet::project`, one row at a time: the ids must be columns of the table. -/
def projectIds (schema : Schema) (columnIds : List Nat) : Except Failure (List (Fin schema.length)) :=
  columnIds.mapM fun id =>
    if inside : id < schema.length then .ok ⟨id,inside⟩
    else .error (.error s!"Invalid column index {id} to select columns.")

/-- The rows of the helper's side that are not in the set, cut to the needed
columns; `none` where no column of that side is needed. The first chunk of a
column that has none is read all the same. -/
def computeKeepSide (helper : OuterJoinHelper left right) {schema : Schema}
    (tupleSet : TupleSet (Record ν schema)) : Except Failure (Option (List (OutputRow ν))) :=
  if helper.keepColumnIds.isEmpty then .ok none
  else do
    let columnIds ← projectIds schema helper.keepColumnIds
    match tupleSet.combine.chunks with
    | [] => .error .undefined
    | chunk::_ =>
      let inputRows := chunk.map fun row => columnIds.map row
      let matched := helper.rowMatchIndexes.getD ∅
      if matched = ∅ then .ok (some inputRows)
      else
        -- the selection vector has room for as many rows as the set leaves over
        let vectorLength : Int := tupleSet.numRows-matched.card
        if (unmarked inputRows matched).length = vectorLength then .ok (some (unmarked inputRows matched))
        else .error .undefined

/-- The nulls on the other side; `none` where no column of that side is needed. -/
def computeDiscardSide (helper : OuterJoinHelper left right) {schema : Schema}
    (keepTupleSet : TupleSet (Record ν schema)) : Except Failure (Option (List (OutputRow ν))) :=
  if helper.discardNumColumns = 0 then .ok none
  else
    let length : Int := keepTupleSet.numRows-(helper.rowMatchIndexes.getD ∅).card
    if length < 0 then .error .undefined
    else .ok (some (List.replicate length.toNat (List.replicate helper.discardNumColumns none)))

/-- The rows of the columns of both sides; a table without columns has no rows. -/
def zipColumns (isLeft : Bool) : Option (List (OutputRow ν)) → Option (List (OutputRow ν)) → List (OutputRow ν)
  | none,none => []
  | some keep,none => keep
  | none,some discard => discard
  | some keep,some discard =>
    if isLeft then keep.zipWith (· ++ ·) discard else discard.zipWith (· ++ ·) keep

def compute (helper : OuterJoinHelper left right) {schema : Schema}
    (tupleSet : TupleSet (Record ν schema)) : Except Failure (TupleSet (OutputRow ν)) := do
  let keep ← helper.computeKeepSide tupleSet
  let discard ← helper.computeDiscardSide tupleSet
  .ok (TupleSet.ofRows (zipColumns helper.isLeft keep discard))

theorem projectIds_val (schema : Schema) (columns : List (Fin schema.length)) :
    projectIds schema (columns.map Fin.val) = .ok columns := by
  induction columns with
  | nil => rfl
  | cons c columns ih =>
    unfold projectIds at ih ⊢
    rw [List.map_cons,List.mapM_cons,ih,dif_pos c.isLt]
    rfl

/-- A row of the helper's side next to nulls. -/
def padded (isLeft : Bool) {schema : Schema} (keep : List (Fin schema.length)) (discard : Nat)
    (row : Record ν schema) : OutputRow ν :=
  if isLeft then keep.map row ++ List.replicate discard none
  else List.replicate discard none ++ keep.map row

theorem zipColumns_padded (isLeft : Bool) {schema : Schema} (keep : List (Fin schema.length)) (discard : Nat)
    (rows : List (Record ν schema)) :
    zipColumns isLeft (if keep = [] then none else some (rows.map fun row => keep.map row))
      (if discard = 0 then none else some (List.replicate rows.length (List.replicate discard none))) =
      if keep = [] ∧ discard = 0 then [] else rows.map (padded isLeft keep discard) := by
  by_cases unneeded : keep = []
  · subst unneeded
    by_cases nothing : discard = 0
    · simp [nothing,zipColumns]
    · have nulls : padded isLeft [] discard = fun _ : Record ν schema => List.replicate discard none := by
        ext1 row
        cases isLeft <;> simp [padded]
      simp [nothing,zipColumns,nulls]
  · by_cases nothing : discard = 0
    · subst nothing
      have kept : padded isLeft keep 0 = fun row : Record ν schema => keep.map row := by
        ext1 row
        cases isLeft <;> simp [padded]
      simp [unneeded,zipColumns,kept]
    · simp only [unneeded,nothing,false_and,if_false]
      induction rows with
      | nil => cases isLeft <;> rfl
      | cons row rows ih =>
        cases isLeft with
        | false => simpa [zipColumns,padded,List.replicate_succ] using ih
        | true => simpa [zipColumns,padded,List.replicate_succ] using ih

section
variable (helper : OuterJoinHelper left right) {schema : Schema} (tupleSet : TupleSet (Record ν schema))
variable {keep : List (Fin schema.length)} {chosen : Record ν schema → Prop} [DecidablePred chosen]

theorem computeKeepSide_eq (columns : helper.keepColumnIds = keep.map Fin.val)
    (marked : Marks chosen tupleSet.rows (helper.rowMatchIndexes.getD ∅)) :
    helper.computeKeepSide tupleSet =
      if keep ≠ [] ∧ tupleSet.chunks = [] then .error .undefined
      else .ok (if keep = [] then none
        else some ((tupleSet.rows.filter fun row => ¬chosen row).map fun row => keep.map row)) := by
  unfold computeKeepSide
  rw [columns,List.isEmpty_map,projectIds_val]
  by_cases unneeded : keep = []
  · simp [unneeded]
  · rw [if_neg (by simpa using unneeded),if_neg unneeded]
    by_cases bare : tupleSet.chunks = []
    · simp [TupleSet.combine,bare,unneeded,bind,Except.bind]
    · have combined : tupleSet.combine.chunks = [tupleSet.rows] := by
        simp [TupleSet.combine,bare,TupleSet.ofRows]
      rw [if_neg (fun both => bare both.2)]
      simp only [combined,bind,Except.bind]
      split
      next none =>
        rw [← marked.unmarked_eq,none,unmarked_empty]
      next some =>
        have count := marked.card_add_unmarked
        rw [unmarked_map,List.length_map,if_pos (by rw [TupleSet.numRows]; omega),marked.unmarked_eq]

theorem computeDiscardSide_eq
    (marked : Marks chosen tupleSet.rows (helper.rowMatchIndexes.getD ∅)) :
    helper.computeDiscardSide tupleSet = .ok (if helper.discardNumColumns = 0 then none
      else some (List.replicate (tupleSet.rows.filter fun row => ¬chosen row).length
        (List.replicate helper.discardNumColumns none))) := by
  have count := marked.card_add_unmarked
  have length : (tupleSet.numRows : Int)-(helper.rowMatchIndexes.getD ∅).card =
      (tupleSet.rows.filter fun row => ¬chosen row).length := by
    rw [← marked.unmarked_eq,TupleSet.numRows]
    omega
  unfold computeDiscardSide
  rw [length,if_neg (Int.not_lt.mpr (Int.natCast_nonneg _)),Int.toNat_natCast]
  split <;> rfl

theorem compute_eq (columns : helper.keepColumnIds = keep.map Fin.val)
    (marked : Marks chosen tupleSet.rows (helper.rowMatchIndexes.getD ∅)) :
    helper.compute tupleSet =
      if keep ≠ [] ∧ tupleSet.chunks = [] then .error .undefined
      else .ok (TupleSet.ofRows (if keep = [] ∧ helper.discardNumColumns = 0 then []
        else (tupleSet.rows.filter fun row => ¬chosen row).map
          (padded helper.isLeft keep helper.discardNumColumns))) := by
  unfold compute
  rw [computeKeepSide_eq helper tupleSet columns marked,computeDiscardSide_eq helper tupleSet marked]
  split
  next bare => rfl
  next readable =>
    rw [← zipColumns_padded]
    rfl

end

section
variable {names : List String} {helper : OuterJoinHelper left right}

@[simp] theorem map_nullRow (schema : Schema) (columns : List (Fin schema.length)) :
    columns.map (nullRow schema : Record ν schema) = List.replicate columns.length none := by
  exact List.map_const'

theorem padded_left :
    padded true (sideColumns left names) (sideColumns right names).length = fun row : Record ν left =>
      outputRow (Join.neededColumnIndice left right names) row (nullRow right) := by
  ext1 row
  rw [outputRow,Join.neededColumnIndice,List.map_append,List.map_map,List.map_map]
  exact congrArg _ (map_nullRow right (sideColumns right names)).symm

theorem padded_right :
    padded false (sideColumns right names) (sideColumns left names).length = fun row : Record ν right =>
      outputRow (Join.neededColumnIndice left right names) (nullRow left) row := by
  ext1 row
  rw [outputRow,Join.neededColumnIndice,List.map_append,List.map_map,List.map_map]
  exact congrArg (· ++ _) (map_nullRow left (sideColumns left names)).symm

theorem neededColumnIndice_eq_nil :
    Join.neededColumnIndice left right names = [] ↔
      sideColumns left names = [] ∧ (sideColumns right names).length = 0 := by
  simp [Join.neededColumnIndice]

theorem keepColumnIds_left (side : helper.isLeft = true)
    (needed : helper.neededColumnIndice = Join.neededColumnIndice left right names) :
    helper.keepColumnIds = (sideColumns left names).map Fin.val := by
  simp [keepColumnIds,side,needed,Join.neededColumnIndice,List.filterMap_append,List.filterMap_map]

theorem keepColumnIds_right (side : helper.isLeft = false)
    (needed : helper.neededColumnIndice = Join.neededColumnIndice left right names) :
    helper.keepColumnIds = (sideColumns right names).map Fin.val := by
  simp [keepColumnIds,side,needed,Join.neededColumnIndice,List.filterMap_append,List.filterMap_map]

theorem compute_left (side : helper.isLeft = true)
    (needed : helper.neededColumnIndice = Join.neededColumnIndice left right names)
    (tupleSet : TupleSet (Record ν left)) {chosen : Record ν left → Prop} [DecidablePred chosen]
    (marked : Marks chosen tupleSet.rows (helper.rowMatchIndexes.getD ∅)) :
    helper.compute tupleSet =
      if sideColumns left names ≠ [] ∧ tupleSet.chunks = [] then .error .undefined
      else .ok (TupleSet.ofRows (if Join.neededColumnIndice left right names = [] then []
        else (tupleSet.rows.filter fun row => ¬chosen row).map fun row =>
          outputRow (Join.neededColumnIndice left right names) row (nullRow right))) := by
  have discard : helper.discardNumColumns = (sideColumns right names).length := by
    simp [discardNumColumns,side,needed,Join.neededColumnIndice,List.countP_map,Function.comp_def]
  rw [compute_eq helper tupleSet (keepColumnIds_left side needed) marked,side,discard]
  simp only [padded_left,neededColumnIndice_eq_nil]

theorem compute_right (side : helper.isLeft = false)
    (needed : helper.neededColumnIndice = Join.neededColumnIndice left right names)
    (tupleSet : TupleSet (Record ν right)) {chosen : Record ν right → Prop} [DecidablePred chosen]
    (marked : Marks chosen tupleSet.rows (helper.rowMatchIndexes.getD ∅)) :
    helper.compute tupleSet =
      if sideColumns right names ≠ [] ∧ tupleSet.chunks = [] then .error .undefined
      else .ok (TupleSet.ofRows (if Join.neededColumnIndice left right names = [] then []
        else (tupleSet.rows.filter fun row => ¬chosen row).map
          (outputRow (Join.neededColumnIndice left right names) (nullRow left)))) := by
  have discard : helper.discardNumColumns = (sideColumns left names).length := by
    simp [discardNumColumns,side,needed,Join.neededColumnIndice,List.countP_map,Function.comp_def]
  have nothing : (sideColumns right names = [] ∧ (sideColumns left names).length = 0) ↔
      (sideColumns left names = [] ∧ (sideColumns right names).length = 0) := by
    simp [and_comm]
  rw [compute_eq helper tupleSet (keepColumnIds_right side needed) marked,side,discard]
  simp only [padded_right,neededColumnIndice_eq_nil,nothing]

end

end OuterJoinHelper

/-- The helper of a side is there exactly if the side is an outer one, and its set
holds the rows of the side that have been matched. -/
def Tracks {left right : Schema} (outer isLeft : Bool) (needed : List (NeededColumn left right)) {ρ : Type}
    (chosen : ρ → Prop) (rows : List ρ) : Option (OuterJoinHelper left right) → Prop
  | none => outer = false
  | some helper => outer = true ∧ helper.isLeft = isLeft ∧ helper.neededColumnIndice = needed ∧
      Marks chosen rows (helper.rowMatchIndexes.getD ∅)

section
variable {left right : Schema} {outer isLeft : Bool} {needed : List (NeededColumn left right)}
variable {ρ : Type} {chosen other : ρ → Prop} {rows more : List ρ} {helper : Option (OuterJoinHelper left right)}

theorem Tracks.isSome (tracks : Tracks outer isLeft needed chosen rows helper) : helper.isSome = outer := by
  cases helper with
  | none => exact tracks.symm
  | some helper => exact tracks.1.symm

theorem Tracks.mono (tracks : Tracks outer isLeft needed chosen rows helper)
    (carried : ∀ marks, Marks chosen rows marks → Marks other more marks) :
    Tracks outer isLeft needed other more helper := by
  cases helper with
  | none => exact tracks
  | some helper => exact ⟨tracks.1,tracks.2.1,tracks.2.2.1,carried _ tracks.2.2.2⟩

theorem Tracks.put (tracks : Tracks outer isLeft needed chosen rows helper) (newRowMatchIndexes : Finset Nat)
    (carried : ∀ marks, Marks chosen rows marks → Marks other more (marks ∪ newRowMatchIndexes)) :
    Tracks outer isLeft needed other more (helper.map (·.putRowMatchIndexes newRowMatchIndexes)) := by
  cases helper with
  | none => exact tracks
  | some helper =>
    obtain ⟨wanted,side,columns,marked⟩ := tracks
    refine ⟨wanted,?_,?_,?_⟩
    · rw [OuterJoinHelper.isLeft_putRowMatchIndexes,side]
    · rw [OuterJoinHelper.neededColumnIndice_putRowMatchIndexes,columns]
    · rw [OuterJoinHelper.getD_putRowMatchIndexes]
      exact carried _ marked

theorem Tracks.make (outputSchema : Schema) (never : ∀ row ∈ rows, ¬chosen row) :
    Tracks outer isLeft needed chosen rows
      (if outer then some (OuterJoinHelper.make isLeft outputSchema needed) else none) := by
  cases outer with
  | false => rfl
  | true => exact ⟨rfl,rfl,rfl,Marks.none never⟩

end

section
variable {ν : Type} {left right : Schema} {matching : Record ν left → Record ν right → Bool}

theorem leftMatched_append (rightRows more : List (Record ν right)) (row : Record ν left) :
    leftMatched matching rightRows row ∨ leftMatched matching more row ↔
      leftMatched matching (rightRows ++ more) row := by
  simp [leftMatched,or_and_right,exists_or]

theorem rightMatched_append (leftRows more : List (Record ν left)) (row : Record ν right) :
    rightMatched matching leftRows row ∨ rightMatched matching more row ↔
      rightMatched matching (leftRows ++ more) row := by
  simp [rightMatched,or_and_right,exists_or]

theorem leftMatched_marks {leftRows : List (Record ν left)} {rightRows more : List (Record ν right)}
    {new : Finset Nat} (added : Marks (leftMatched matching more) leftRows new) (marks : Finset Nat)
    (marked : Marks (leftMatched matching rightRows) leftRows marks) :
    Marks (leftMatched matching (rightRows ++ more)) leftRows (marks ∪ new) :=
  (marked.union added).congr fun row _ => leftMatched_append rightRows more row

theorem rightMatched_marks {leftRows more : List (Record ν left)} {rightRows : List (Record ν right)}
    {new : Finset Nat} (added : Marks (rightMatched matching more) rightRows new) (marks : Finset Nat)
    (marked : Marks (rightMatched matching leftRows) rightRows marks) :
    Marks (rightMatched matching (leftRows ++ more)) rightRows (marks ∪ new) :=
  (marked.union added).congr fun row _ => rightMatched_append leftRows more row

end
end Hermes.Join
