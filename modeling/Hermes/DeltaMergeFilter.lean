import Hermes.Tuple

/-! Filtering a table by a bitmap or by a vector of kept positions.
The table is read batch by batch. Positions are cut by binary search, and a
batch that keeps no position makes `generateSelectionVector` run off its end.
Undefined behaviour and exceptions are `none`. -/
namespace Hermes.DeltaMergeFilter
open Hermes.Tuple
variable {ρ : Type}

/-- `PopulateFromBitMap` refuses the last index `-1` of an empty bitmap. -/
def generateSelectionVector (keepPosDelta : List Nat) (stableBm : Option (List Bool)) :
    Option (List Nat) :=
  match stableBm with
  | some bits =>
    if bits.isEmpty then none
    else some (bits.zipIdx.filterMap (fun (bit,j) => if bit then some j else none))
  | none => if keepPosDelta.isEmpty then none else some keepPosDelta

/-- `std::lower_bound` and `std::upper_bound`: the length of the prefix that
satisfies `before`. The vector has to be partitioned by it. -/
def partitionPoint (before : Nat → Bool) (keepPosDelta : List Nat) : Option Nat :=
  if (keepPosDelta.dropWhile before).all (fun p => !before p) then
    some (keepPosDelta.takeWhile before).length
  else none

/-- The positions of one batch, relative to its first row. -/
def batchKeepPosDelta (keepPosDelta : List Nat) (startPos batchRows : Nat) : Option (List Nat) := do
  let start ← partitionPoint (fun p => p < startPos) keepPosDelta
  let stop ← partitionPoint (fun p => p < startPos+batchRows) keepPosDelta
  some (((keepPosDelta.drop start).take (stop-start)).map (fun p => p-startPos))

/-- The selection of the batch that starts at `startPos`. A bitmap that is too
short is read past its end; without bitmap and positions there is no selection
vector at all. -/
def batchSelection (keepPosDelta : List Nat) (stableBm : Option (List Bool)) (startPos batchRows : Nat) :
    Option (List Nat) :=
  match stableBm with
  | some bits =>
    if startPos+batchRows ≤ bits.length then
      generateSelectionVector keepPosDelta (some ((bits.drop startPos).take batchRows))
    else none
  | none => do
    if keepPosDelta.isEmpty then none
    let positions ← batchKeepPosDelta keepPosDelta startPos batchRows
    generateSelectionVector positions none

def evaluateBatches (keepPosDelta : List Nat) (stableBm : Option (List Bool)) :
    Nat → List (List ρ) → Option (List (List ρ))
  | _, [] => some []
  | startPos, batch::batches => do
    let selection ← batchSelection keepPosDelta stableBm startPos batch.length
    let rest ← evaluateBatches keepPosDelta stableBm (startPos+batch.length) batches
    some (selection.filterMap (batch[·]?) :: rest)

def evaluate (reader : TableBatchReader) (keepPosDelta : List Nat) (stableBm : Option (List Bool))
    (tupleSet : TupleSet ρ) : Option (TupleSet ρ) :=
  if tupleSet.numRows = 0 then some tupleSet
  else (evaluateBatches keepPosDelta stableBm 0 (reader.batches tupleSet)).map TupleSet.mk

def keepRows (bits : List Bool) (rows : List ρ) : List ρ :=
  (rows.zip bits).filterMap (fun (r,bit) => if bit then some r else none)

/-- Every batch holds a position that satisfies `P`. -/
def Covers (P : Nat → Prop) : Nat → List (List ρ) → Prop
  | _, [] => True
  | startPos, batch::batches =>
    (∃ p, P p ∧ startPos ≤ p ∧ p < startPos+batch.length) ∧ Covers P (startPos+batch.length) batches

section Positions
variable {positions : List Nat}

private theorem filter_split (sorted : positions.Pairwise (· ≤ ·)) (v : Nat) :
    positions = positions.filter (· < v) ++ positions.filter (fun p => !decide (p < v)) := by
  induction positions with
  | nil => rfl
  | cons p positions ih =>
    obtain ⟨above,rest⟩ := List.pairwise_cons.mp sorted
    by_cases less : p < v
    · rw [List.filter_cons_of_pos (by simpa using less),List.filter_cons_of_neg (by simp [less]),
        List.cons_append,← ih rest]
    · have none_below : (p::positions).filter (· < v) = [] := by
        rw [List.filter_eq_nil_iff]
        intro q member
        have bound : p ≤ q := by
          rcases List.mem_cons.mp member with rfl | inside
          · exact le_refl _
          · exact above q inside
        simpa using le_trans (not_lt.mp less) bound
      rw [none_below,List.nil_append]
      symm
      rw [List.filter_eq_self]
      intro q member
      have absent := List.filter_eq_nil_iff.mp none_below q member
      simpa using absent

private theorem filter_not_lt (positions : List Nat) (v : Nat) :
    positions.filter (fun p => !decide (p < v)) = positions.filter (fun p => v ≤ p) := by
  apply List.filter_congr
  intro p _
  rw [← decide_not,decide_eq_decide]
  exact not_lt

private theorem takeWhile_sorted (sorted : positions.Pairwise (· ≤ ·)) (v : Nat) :
    positions.takeWhile (· < v) = positions.filter (· < v) ∧
      positions.dropWhile (· < v) = positions.filter (fun p => !decide (p < v)) := by
  have below : ∀ p ∈ positions.filter (· < v), decide (p < v) = true :=
    fun p member => (List.mem_filter.mp member).2
  have stop : (positions.filter (fun p => !decide (p < v))).takeWhile (· < v) = [] ∧
      (positions.filter (fun p => !decide (p < v))).dropWhile (· < v) =
        positions.filter (fun p => !decide (p < v)) := by
    cases rest : positions.filter (fun p => !decide (p < v)) with
    | nil => exact ⟨rfl,rfl⟩
    | cons p others =>
      have member : p ∈ positions.filter (fun p => !decide (p < v)) := by rw [rest]; simp
      have above : decide (p < v) = false := by simpa using (List.mem_filter.mp member).2
      rw [List.takeWhile_cons_of_neg (by simp [above]),List.dropWhile_cons_of_neg (by simp [above])]
      exact ⟨rfl,rfl⟩
  have split := filter_split sorted v
  constructor
  · conv_lhs => rw [split]
    rw [List.takeWhile_append_of_pos below,stop.1,List.append_nil]
  · conv_lhs => rw [split]
    rw [List.dropWhile_append_of_pos below,stop.2]

private theorem partitionPoint_sorted (sorted : positions.Pairwise (· ≤ ·)) (v : Nat) :
    partitionPoint (fun p => p < v) positions = some (positions.filter (· < v)).length := by
  unfold partitionPoint
  rw [(takeWhile_sorted sorted v).1,(takeWhile_sorted sorted v).2,if_pos]
  rw [List.all_eq_true]
  exact fun p member => (List.mem_filter.mp member).2

def window (positions : List Nat) (startPos batchRows : Nat) : List Nat :=
  positions.filter (fun p => decide (startPos ≤ p) && decide (p < startPos+batchRows))

private theorem window_split (sorted : positions.Pairwise (· ≤ ·)) (startPos batchRows : Nat) :
    positions = positions.filter (· < startPos) ++ window positions startPos batchRows ++
      positions.filter (fun p => startPos+batchRows ≤ p) := by
  have outer := filter_split sorted (startPos+batchRows)
  have inner := filter_split (sorted.sublist (List.filter_sublist (p := (· < startPos+batchRows)))) startPos
  rw [List.filter_filter,List.filter_filter] at inner
  have low : positions.filter (fun p => decide (p < startPos) && decide (p < startPos+batchRows)) =
      positions.filter (· < startPos) := by
    apply List.filter_congr
    intro p _
    by_cases less : p < startPos
    · simp [less,show p < startPos+batchRows by omega]
    · simp [less]
  have middle : positions.filter (fun p => !decide (p < startPos) && decide (p < startPos+batchRows)) =
      window positions startPos batchRows := by
    apply List.filter_congr
    intro p _
    by_cases less : p < startPos
    · simp [less,not_le.mpr less]
    · simp [less,not_lt.mp less]
  rw [low,middle] at inner
  rw [filter_not_lt,inner] at outer
  exact outer

theorem batchKeepPosDelta_sorted (sorted : positions.Pairwise (· ≤ ·)) (startPos batchRows : Nat) :
    batchKeepPosDelta positions startPos batchRows =
      some ((window positions startPos batchRows).map (fun p => p-startPos)) := by
  have split := window_split sorted startPos batchRows
  have upto : (positions.filter (· < startPos+batchRows)).length =
      (positions.filter (· < startPos)).length + (window positions startPos batchRows).length := by
    have outer := congrArg List.length (filter_split sorted (startPos+batchRows))
    have whole := congrArg List.length split
    rw [filter_not_lt] at outer
    simp only [List.length_append] at outer whole
    omega
  unfold batchKeepPosDelta
  rw [partitionPoint_sorted sorted,partitionPoint_sorted sorted]
  simp only [Option.bind_eq_bind,Option.bind_some,upto,Nat.add_sub_cancel_left]
  have cut : ((positions.filter (· < startPos) ++ (window positions startPos batchRows ++
      positions.filter (fun p => startPos+batchRows ≤ p))).drop
        (positions.filter (· < startPos)).length).take (window positions startPos batchRows).length =
      window positions startPos batchRows := by
    rw [List.drop_left,List.take_left]
  rw [← List.append_assoc,← split] at cut
  rw [cut]

private theorem window_nonempty (startPos batchRows : Nat) :
    window positions startPos batchRows ≠ [] ↔
      ∃ p, p ∈ positions ∧ startPos ≤ p ∧ p < startPos+batchRows := by
  rw [ne_eq,window,List.filter_eq_nil_iff]
  simp only [not_forall,Bool.and_eq_true,decide_eq_true_eq,not_not,exists_prop]

private theorem batchSelection_positions (sorted : positions.Pairwise (· ≤ ·)) (startPos batchRows : Nat) :
    batchSelection positions none startPos batchRows =
      if window positions startPos batchRows = [] then none
      else some ((window positions startPos batchRows).map (fun p => p-startPos)) := by
  unfold batchSelection
  by_cases empty : positions = []
  · simp [empty,window]
  · have some_ : positions.isEmpty = false := by simpa using empty
    simp only [some_,batchKeepPosDelta_sorted sorted,generateSelectionVector,Option.bind_eq_bind,
      Option.bind_some,List.isEmpty_iff,List.map_eq_nil_iff,Bool.false_eq_true,if_false]

theorem evaluateBatches_positions (sorted : positions.Pairwise (· ≤ ·)) (startPos : Nat)
    (batches : List (List ρ)) :
    (Covers (· ∈ positions) startPos batches →
      ∃ kept, evaluateBatches positions none startPos batches = some kept ∧
        kept.flatten = (positions.filter (fun p => startPos ≤ p)).filterMap
          (fun p => batches.flatten[p-startPos]?)) ∧
    (¬Covers (· ∈ positions) startPos batches → evaluateBatches positions none startPos batches = none) := by
  induction batches generalizing startPos with
  | nil => simp [Covers,evaluateBatches]
  | cons batch batches ih =>
    unfold Covers evaluateBatches
    rw [batchSelection_positions sorted,← window_nonempty]
    obtain ⟨covered,uncovered⟩ := ih (startPos+batch.length)
    constructor
    · rintro ⟨hit,rest⟩
      obtain ⟨kept,returned,rows⟩ := covered rest
      rw [if_neg hit,returned]
      refine ⟨_,rfl,?_⟩
      rw [List.flatten_cons,rows,List.filterMap_map]
      have split := window_split sorted startPos batch.length
      have from_ : positions.filter (fun p => startPos ≤ p) =
          window positions startPos batch.length ++ positions.filter (fun p => startPos+batch.length ≤ p) := by
        conv_lhs => rw [split]
        rw [List.filter_append,List.filter_append,List.filter_filter]
        have low : positions.filter (fun p => decide (startPos ≤ p) && decide (p < startPos)) = [] := by
          rw [List.filter_eq_nil_iff]
          intro p _
          simp only [Bool.and_eq_true,decide_eq_true_eq]
          omega
        rw [low,List.nil_append]
        congr 1
        · rw [List.filter_eq_self]
          intro p member
          have bounds := (List.mem_filter.mp member).2
          simp only [Bool.and_eq_true,decide_eq_true_eq] at bounds
          exact decide_eq_true bounds.1
        · rw [List.filter_eq_self]
          intro p member
          have bound := (List.mem_filter.mp member).2
          simp only [decide_eq_true_eq] at bound ⊢
          omega
      rw [from_,List.filterMap_append,List.flatten_cons]
      congr 1
      · apply List.filterMap_congr
        intro p member
        have bounds := (List.mem_filter.mp member).2
        simp only [Bool.and_eq_true,decide_eq_true_eq] at bounds
        change batch[p-startPos]? = _
        rw [List.getElem?_append_left (by omega)]
      · apply List.filterMap_congr
        intro p member
        have bound := (List.mem_filter.mp member).2
        simp only [decide_eq_true_eq] at bound
        rw [List.getElem?_append_right (by omega)]
        congr 1
        omega
    · intro open_
      by_cases hit : window positions startPos batch.length = []
      · rw [if_pos hit]
        rfl
      · rw [if_neg hit,uncovered (fun rest => open_ ⟨hit,rest⟩)]
        rfl

theorem evaluate_positions (reader : TableBatchReader) (table : TupleSet ρ)
    (sorted : positions.Pairwise (· ≤ ·)) :
    (table.rows = [] ∨ Covers (· ∈ positions) 0 (reader.batches table) →
      ∃ kept, evaluate reader positions none table = some kept ∧
        kept.rows = positions.filterMap (table.rows[·]?)) ∧
    (¬(table.rows = [] ∨ Covers (· ∈ positions) 0 (reader.batches table)) →
      evaluate reader positions none table = none) := by
  obtain ⟨covered,uncovered⟩ := evaluateBatches_positions sorted 0 (reader.batches table)
  have all : positions.filter (fun p => decide (0 ≤ p)) = positions := by simp
  unfold evaluate
  by_cases empty : table.rows = []
  · rw [if_pos (by simp [TupleSet.numRows,empty])]
    exact ⟨fun _ => ⟨table,rfl,by simp [empty]⟩,fun open_ => absurd (Or.inl empty) open_⟩
  · rw [if_neg (by simpa [TupleSet.numRows] using empty)]
    constructor
    · intro condition
      obtain ⟨kept,returned,rows⟩ := covered (condition.resolve_left empty)
      rw [returned]
      refine ⟨_,rfl,?_⟩
      rw [TupleSet.rows,rows,all,reader.flatten_batches]
      rfl
    · intro open_
      rw [uncovered (fun rest => open_ (Or.inr rest))]
      rfl

end Positions

section Bitmap
variable {bits : List Bool}

private theorem selectBits_eq (bits : List Bool) (batch before : List ρ) (size : bits.length = batch.length) :
    ((bits.zipIdx before.length).filterMap (fun (bit,j) => if bit then some j else none)).filterMap
      ((before ++ batch)[·]?) = keepRows bits batch := by
  induction bits generalizing batch before with
  | nil =>
    have empty : batch = [] := List.length_eq_zero_iff.mp size.symm
    simp [empty,keepRows]
  | cons bit bits ih =>
    cases batch with
    | nil => simp at size
    | cons r batch =>
      have rest := ih batch (before ++ [r]) (by simpa using size)
      rw [List.length_append,List.length_singleton,List.append_assoc,List.singleton_append] at rest
      unfold keepRows at rest ⊢
      rw [List.zipIdx_cons,List.zip_cons_cons]
      cases bit with
      | false => simpa using rest
      | true => simpa using rest

theorem keepRows_append (first second : List ρ) (bits : List Bool) (bound : first.length ≤ bits.length) :
    keepRows bits (first ++ second) =
      keepRows (bits.take first.length) first ++ keepRows (bits.drop first.length) second := by
  unfold keepRows
  conv_lhs => rw [← List.take_append_drop first.length bits]
  rw [List.zip_append (by simp [bound]),List.filterMap_append]

private theorem batchSelection_bitmap {startPos batchRows : Nat} (bound : startPos+batchRows ≤ bits.length) :
    batchSelection [] (some bits) startPos batchRows = if batchRows = 0 then none
      else some (((bits.drop startPos).take batchRows).zipIdx.filterMap
        (fun (bit,j) => if bit then some j else none)) := by
  simp only [batchSelection,if_pos bound,generateSelectionVector]
  by_cases empty : batchRows = 0
  · simp [empty]
  · have some_ : ((bits.drop startPos).take batchRows).isEmpty = false := by
      rw [List.isEmpty_eq_false_iff,← List.length_pos_iff,List.length_take,List.length_drop]
      omega
    rw [some_,if_neg empty]
    rfl

theorem evaluateBatches_bitmap (bits : List Bool) (startPos : Nat) (batches : List (List ρ))
    (bound : startPos + batches.flatten.length ≤ bits.length) (filled : ∀ batch ∈ batches, batch ≠ []) :
    ∃ kept, evaluateBatches [] (some bits) startPos batches = some kept ∧
      kept.flatten = keepRows (bits.drop startPos) batches.flatten := by
  induction batches generalizing startPos with
  | nil => exact ⟨[],rfl,by simp [keepRows]⟩
  | cons batch batches ih =>
    rw [List.flatten_cons,List.length_append] at bound
    obtain ⟨some_,others⟩ := List.forall_mem_cons.mp filled
    obtain ⟨kept,returned,rows⟩ := ih (startPos+batch.length) (by omega) others
    have size : ((bits.drop startPos).take batch.length).length = batch.length := by
      simp only [List.length_take,List.length_drop]
      omega
    have inside : startPos+batch.length ≤ bits.length := by omega
    rw [evaluateBatches,batchSelection_bitmap inside,if_neg (mt List.length_eq_zero_iff.mp some_),returned]
    refine ⟨_,rfl,?_⟩
    rw [List.flatten_cons,List.flatten_cons,rows,keepRows_append _ _ _ (by simp only [List.length_drop]; omega),
      List.drop_drop]
    congr 1
    exact selectBits_eq _ batch [] size

theorem evaluateBatches_unfilled (bits : List Bool) (startPos : Nat) (batches : List (List ρ))
    (unfilled : ¬∀ batch ∈ batches, batch ≠ []) : evaluateBatches [] (some bits) startPos batches = none := by
  induction batches generalizing startPos with
  | nil => exact absurd (fun batch member => absurd member List.not_mem_nil) unfilled
  | cons batch batches ih =>
    rw [evaluateBatches]
    by_cases empty : batch = []
    · have refused : batchSelection [] (some bits) startPos batch.length = none := by
        simp [batchSelection,generateSelectionVector,empty]
      rw [refused]
      rfl
    · rw [ih _ (fun others => unfilled (List.forall_mem_cons.mpr ⟨empty,others⟩))]
      cases batchSelection [] (some bits) startPos batch.length <;> rfl

def Filled (reader : TableBatchReader) (table : TupleSet ρ) : Prop :=
  table.rows = [] ∨ ∀ batch ∈ reader.batches table, batch ≠ []

theorem evaluate_bitmap {reader : TableBatchReader} (bits : List Bool) {table : TupleSet ρ}
    (size : table.numRows ≤ bits.length) (filled : Filled reader table) :
    ∃ kept, evaluate reader [] (some bits) table = some kept ∧ kept.rows = keepRows bits table.rows := by
  unfold evaluate
  by_cases empty : table.rows = []
  · rw [if_pos (by simp [TupleSet.numRows,empty])]
    exact ⟨table,rfl,by simp [empty,keepRows]⟩
  · rw [if_neg (by simpa [TupleSet.numRows] using empty)]
    obtain ⟨kept,returned,rows⟩ := evaluateBatches_bitmap bits 0 (reader.batches table)
      (by rw [reader.flatten_batches]; simpa [TupleSet.numRows] using size) (filled.resolve_left empty)
    rw [returned]
    refine ⟨_,rfl,?_⟩
    rw [TupleSet.rows,rows,reader.flatten_batches]
    rfl

theorem evaluate_unfilled {reader : TableBatchReader} (bits : List Bool) {table : TupleSet ρ}
    (unfilled : ¬Filled reader table) : evaluate reader [] (some bits) table = none := by
  obtain ⟨some_,batches⟩ := not_or.mp unfilled
  rw [evaluate,if_neg (by simpa [TupleSet.numRows] using some_),evaluateBatches_unfilled bits 0 _ batches]
  rfl

theorem keepRows_map {σ : Type} (keep : ρ → Bool) (project : ρ → σ) (rows : List ρ) :
    keepRows (rows.map keep) (rows.map project) = (rows.filter keep).map project := by
  unfold keepRows
  induction rows with
  | nil => rfl
  | cons r rows ih =>
    simp only [List.map_cons,List.zip_cons_cons,List.filterMap_cons,List.filter_cons,ih]
    cases keep r <;> rfl

theorem keepRows_project {σ : Type} (bits : List Bool) (project : ρ → σ) (rows : List ρ) :
    keepRows bits (rows.map project) = (keepRows bits rows).map project := by
  unfold keepRows
  rw [List.zip_map_left,List.filterMap_map,List.map_filterMap]
  apply List.filterMap_congr
  rintro ⟨r,bit⟩ _
  cases bit <;> rfl

theorem keepRows_take (bits : List Bool) (rows : List ρ) :
    keepRows (bits.take rows.length) rows = keepRows bits rows := by
  unfold keepRows
  congr 1
  induction rows generalizing bits with
  | nil => rfl
  | cons r rows ih =>
    cases bits with
    | nil => rfl
    | cons bit bits => exact congrArg ((r,bit) :: ·) (ih bits)

theorem mem_keepRows {bits : List Bool} {rows : List ρ} {r : ρ} :
    r ∈ keepRows bits rows ↔ ∃ s : Nat, rows[s]? = some r ∧ bits[s]? = some true := by
  unfold keepRows
  rw [List.mem_filterMap]
  constructor
  · rintro ⟨⟨x,bit⟩,member,chosen⟩
    obtain ⟨s,read⟩ := List.mem_iff_getElem?.mp member
    obtain ⟨row,here⟩ := List.getElem?_zip_eq_some.mp read
    cases bit with
    | false => simp at chosen
    | true => exact ⟨s,by simpa using chosen ▸ row,here⟩
  · rintro ⟨s,row,here⟩
    exact ⟨(r,true),List.mem_of_getElem? (List.getElem?_zip_eq_some.mpr ⟨row,here⟩),rfl⟩

theorem keepRows_sublist (bits : List Bool) (rows : List ρ) : (keepRows bits rows).Sublist rows := by
  unfold keepRows
  induction rows generalizing bits with
  | nil => simp
  | cons r rows ih =>
    cases bits with
    | nil => simp
    | cons bit bits =>
      rw [List.zip_cons_cons,List.filterMap_cons]
      cases bit with
      | false => exact (ih bits).cons r
      | true => exact (ih bits).cons_cons r

end Bitmap

end Hermes.DeltaMergeFilter
