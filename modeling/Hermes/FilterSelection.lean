import Hermes.DeltaMergeFilter

/-! Which filters select the rows they are asked for.
Positions need one in every record batch. A bitmap needs rows in every record batch. -/
namespace Hermes.FilterSelection
open Hermes.Tuple Hermes.DeltaMergeFilter
variable {ρ : Type} (reader : TableBatchReader) (keepPosDelta : List Nat) (stableBm : Option (List Bool))
  (tupleSet : TupleSet ρ)

/-- The rows that are asked for. -/
def listedRows (rows : List ρ) : List ρ :=
  match stableBm with
  | some bits => keepRows bits rows
  | none => keepPosDelta.filterMap (rows[·]?)

/-- A bitmap has a bit for each row, positions are ascending and inside. -/
def Fits : Prop :=
  match stableBm with
  | some bits => bits.length = tupleSet.numRows
  | none => keepPosDelta.Pairwise (· ≤ ·) ∧ ∀ p ∈ keepPosDelta, p < tupleSet.numRows

/-- Every record batch has a row to select from. -/
def Fills (batches : List (List ρ)) : Prop :=
  match stableBm with
  | some _ => ∀ batch ∈ batches, batch ≠ []
  | none => Covers (· ∈ keepPosDelta) 0 batches

theorem evaluate_some (keepPosDelta : List Nat) (bits : List Bool) (tupleSet : TupleSet ρ) :
    evaluate reader keepPosDelta (some bits) tupleSet = evaluate reader [] (some bits) tupleSet := by
  have batches : ∀ (batches : List (List ρ)) (startPos : Nat), evaluateBatches keepPosDelta
      (some bits) startPos batches =
      evaluateBatches [] (some bits) startPos batches := by
    intro batches
    induction batches with
    | nil => exact fun _ => rfl
    | cons batch batches ih => simp only [evaluateBatches,batchSelection,generateSelectionVector,ih,implies_true]
  rw [evaluate,evaluate,batches]

variable {keepPosDelta stableBm tupleSet}

theorem evaluate_empty (empty : tupleSet.rows = []) :
    evaluate reader keepPosDelta stableBm tupleSet = some tupleSet := by
  have none_ : tupleSet.numRows = 0 := by simp [TupleSet.numRows,empty]
  rw [evaluate,if_pos none_]

theorem listedRows_nil : listedRows keepPosDelta stableBm ([] : List ρ) = [] := by
  cases stableBm <;> simp [listedRows,keepRows]

/-- A filter returns the listed rows exactly where every record batch can be selected from. -/
theorem evaluate_selects_iff (keepPosDelta : List Nat) (stableBm : Option (List Bool)) (tupleSet : TupleSet ρ)
    (fits : Fits keepPosDelta stableBm tupleSet) :
    (∃ kept, evaluate reader keepPosDelta stableBm tupleSet = some kept ∧
      kept.rows = listedRows keepPosDelta stableBm tupleSet.rows) ↔
    tupleSet.rows = [] ∨ Fills keepPosDelta stableBm (reader.batches tupleSet) := by
  by_cases empty : tupleSet.rows = []
  · simp [evaluate_empty reader empty,empty,listedRows_nil]
  simp only [empty,false_or]
  cases stableBm with
  | some bits =>
    have filled_iff : Filled reader tupleSet ↔ ∀ batch ∈ reader.batches tupleSet, batch ≠ [] := by simp [Filled,empty]
    rw [evaluate_some]
    by_cases filled : Filled reader tupleSet
    · exact iff_of_true (evaluate_bitmap bits (Nat.le_of_eq fits.symm) filled) (filled_iff.mp filled)
    · apply iff_of_false _ (mt filled_iff.mpr filled)
      simp [evaluate_unfilled bits filled]
  | none =>
    obtain ⟨covered,uncovered⟩ := evaluate_positions reader tupleSet fits.1
    simp only [empty,false_or] at covered uncovered
    by_cases hits : Covers (· ∈ keepPosDelta) 0 (reader.batches tupleSet)
    · exact iff_of_true (covered hits) hits
    · apply iff_of_false _ hits
      simp [uncovered hits]

/-- Two record batches, and a position in each of them. -/
theorem two_batches_selected :
    ∃ kept, evaluate .chunked [0,2] none (⟨[["a","b"],["c"]]⟩ : TupleSet String) = some kept ∧
      kept.rows = ["a","c"] := by
  apply (evaluate_selects_iff .chunked [0,2] none _ ?_).mpr
  · right
    simp [Fills,Covers,TableBatchReader.chunked]
  · simp [Fits,TupleSet.numRows,TupleSet.rows]

/-- No position is left: there is no selection vector to ask for its mode. -/
theorem no_position_stuck :
    Fits [] none (⟨[["a"]]⟩ : TupleSet String) ∧
    ¬∃ kept, evaluate .chunked [] none (⟨[["a"]]⟩ : TupleSet String) = some kept ∧
      kept.rows = listedRows [] none ["a"] := by
  have stuck : evaluate .chunked [] none (⟨[["a"]]⟩ : TupleSet String) = none := by decide
  simp [Fits,stuck]

end Hermes.FilterSelection
