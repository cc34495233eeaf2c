import Hermes.AggregateFunction
import Hermes.Library.Pieces
import Mathlib.Algebra.BigOperators.Ring.Finset
import Mathlib.Data.Rat.Lemmas
import Mathlib.Tactic.NormNum.OfScientific

/-! When partial aggregation gives what complete aggregation gives. The partial sums of a
type must have that type again, and an average survives only if the last division is exact. -/
namespace Hermes.Aggregate
open Hermes.Tuples Hermes.Library.Pieces
variable {ρ : Type}

def Integral (number : ℚ) : Prop := ∃ z : ℤ, number = z

theorem integral_of_den {number : ℚ} (den : number.den = 1) : Integral number :=
  ⟨number.num,((Rat.den_eq_one_iff number).mp den).symm⟩

theorem integral_sum {numbers : List ℚ} (integral : ∀ number ∈ numbers, Integral number) : Integral numbers.sum := by
  induction numbers with
  | nil => exact ⟨0,rfl⟩
  | cons number numbers ih =>
    obtain ⟨z,same⟩ := integral number List.mem_cons_self
    obtain ⟨w,rest⟩ := ih fun later inside => integral later (List.mem_cons_of_mem _ inside)
    refine ⟨z+w,?_⟩
    rw [List.sum_cons,same,rest]
    push_cast
    rfl

namespace Accumulator
variable {accumulator : Accumulator}

theorem integral_wrap {number : ℚ} (integral : accumulator ≠ .floating → Integral number)
    (integer : accumulator ≠ .floating) :
    Integral (accumulator.wrap number) := by
  cases accumulator with
  | signed => exact ⟨_,rfl⟩
  | unsigned => exact ⟨_,rfl⟩
  | floating => exact integral integer

theorem wrap_add {left right : ℚ} (first : accumulator ≠ .floating → Integral left)
    (second : accumulator ≠ .floating → Integral right) :
    accumulator.wrap (accumulator.wrap left+right) = accumulator.wrap (left+right) := by
  cases accumulator with
  | floating => rfl
  | signed =>
    obtain ⟨a,rfl⟩ := first (by intro wrong; cases wrong)
    obtain ⟨b,rfl⟩ := second (by intro wrong; cases wrong)
    simp only [wrap,← Int.cast_add,Rat.num_intCast,Int.bmod_add_bmod]
  | unsigned =>
    obtain ⟨a,rfl⟩ := first (by intro wrong; cases wrong)
    obtain ⟨b,rfl⟩ := second (by intro wrong; cases wrong)
    simp only [wrap,← Int.cast_add,Rat.num_intCast,Int.emod_add_emod]

theorem wrap_sums {parts : List ℚ} (integral : accumulator ≠ .floating → ∀ part ∈ parts, Integral part) :
    accumulator.wrap (parts.map accumulator.wrap).sum = accumulator.wrap parts.sum := by
  induction parts with
  | nil => rfl
  | cons part parts ih =>
    have later : accumulator ≠ .floating → ∀ other ∈ parts, Integral other :=
      fun integer other inside => integral integer other (List.mem_cons_of_mem _ inside)
    have here : accumulator ≠ .floating → Integral part := fun integer => integral integer part List.mem_cons_self
    have wrapped : accumulator ≠ .floating → Integral (parts.map accumulator.wrap).sum := by
      intro integer
      apply integral_sum
      intro number inside
      obtain ⟨other,member,rfl⟩ := List.mem_map.mp inside
      exact integral_wrap (fun _ => later integer other member) integer
    have rest : accumulator ≠ .floating → Integral parts.sum := fun integer => integral_sum (later integer)
    rw [List.map_cons,List.sum_cons,List.sum_cons,wrap_add here wrapped,add_comm,← wrap_add wrapped here,ih later,
      wrap_add rest here,add_comm]

@[simp]
theorem wrap_zero : accumulator.wrap 0 = 0 := by
  cases accumulator with
  | signed => rfl
  | unsigned => rfl
  | floating => rfl

theorem wrap_pieces {pieces : List (List ℚ)}
    (integral : accumulator ≠ .floating → ∀ piece ∈ pieces, ∀ number ∈ piece, Integral number) :
    accumulator.wrap (pieces.filterMap fun piece =>
      if piece = [] then none else some (accumulator.wrap piece.sum)).sum = accumulator.wrap pieces.flatten.sum := by
  have dropped : (pieces.filterMap fun piece => if piece = [] then none else some (accumulator.wrap piece.sum)).sum =
      ((pieces.map List.sum).map accumulator.wrap).sum := by
    clear integral
    induction pieces with
    | nil => rfl
    | cons piece pieces ih =>
      rw [List.filterMap_cons,List.map_cons,List.map_cons,List.sum_cons,← ih]
      by_cases blank : piece = []
      · rw [if_pos blank,blank,List.sum_nil,wrap_zero,zero_add]
      · rw [if_neg blank,List.sum_cons]
  rw [dropped,List.sum_flatten]
  apply wrap_sums
  intro integer sum inside
  obtain ⟨piece,member,rfl⟩ := List.mem_map.mp inside
  exact integral_sum (integral integer piece member)

end Accumulator

def numbers (expression : Expression ρ) (rows : List ρ) : List ℚ := rows.filterMap expression.value

def total (accumulator : Accumulator) (values : List ℚ) : Option ℚ :=
  if values = [] then none else some (accumulator.wrap values.sum)

theorem mapM_ok {α β : Type} {step : α → Except String β} {value : α → β} {elements : List α}
    (done : ∀ element ∈ elements, step element = .ok (value element)) :
    elements.mapM step = .ok (elements.map value) := by
  induction elements with
  | nil => rfl
  | cons element elements ih =>
    rw [List.mapM_cons,done element List.mem_cons_self,
      ih fun later inside => done later (List.mem_cons_of_mem _ inside)]
    rfl

theorem build_ok {α : Type} (key : String) (type : DataType) (result : α → AggregateResult) (value : α → Option ℚ)
    (found : ∀ element, (result element).get key = .ok ⟨type,value element⟩) (elements : List α) :
    buildFinalizeInputArray key type (elements.map result) = .ok ⟨type,elements.map value⟩ := by
  induction elements with
  | nil => rfl
  | cons element elements ih =>
    rw [List.map_cons,buildFinalizeInputArray,found]
    simp only [if_true,ih,List.map_cons]

theorem build_mismatch {α : Type} (key : String) {type type' : DataType} (result : α → AggregateResult)
    (value : α → Option ℚ) (found : ∀ element, (result element).get key = .ok ⟨type',value element⟩)
    (differ : type' ≠ type) {elements : List α} (some : elements ≠ []) :
    ∃ message, buildFinalizeInputArray key type (elements.map result) = .error message := by
  obtain ⟨element,elements,rfl⟩ := List.exists_cons_of_ne_nil some
  rw [List.map_cons,buildFinalizeInputArray,found]
  simp only [if_neg differ]
  exact ⟨_,rfl⟩

section
variable {expression : Expression ρ} {accumulator' : Accumulator}

theorem valid_evaluate (expression : Expression ρ) (rows : List ρ) :
    (expression.evaluate rows).valid = numbers expression rows := by
  rw [ChunkedArray.valid,Expression.evaluate,List.filterMap_map]
  rfl

theorem numbers_flatten (expression : Expression ρ) (pieces : List (List ρ)) :
    numbers expression pieces.flatten = (pieces.map (numbers expression)).flatten := by
  rw [numbers,List.filterMap_flatten]
  rfl

theorem integral_numbers (accumulates : accumulator expression.type = some accumulator')
    (integer : accumulator' ≠ .floating) (rows : List ρ) : ∀ number ∈ numbers expression rows, Integral number := by
  intro number inside
  obtain ⟨row,_,found⟩ := List.mem_filterMap.mp inside
  apply integral_of_den
  refine expression.integral ?_ row number found
  rw [accumulates]
  intro same
  exact integer (Option.some.inj same)

theorem sum_evaluate (accumulates : accumulator expression.type = some accumulator') (rows : List ρ) :
    Compute.sum (expression.evaluate rows) = .ok ⟨accumulator'.type,total accumulator' (numbers expression rows)⟩ := by
  rw [Compute.sum,valid_evaluate,show (expression.evaluate rows).type = expression.type from rfl,accumulates]
  rfl

theorem accumulator_type (a : Accumulator) : accumulator a.type = some a := by
  cases a with
  | signed => rfl
  | unsigned => rfl
  | floating => rfl

theorem sum_totals (accumulates : accumulator expression.type = some accumulator') (pieces : List (List ρ)) :
    Compute.sum ⟨accumulator'.type,pieces.map fun piece => total accumulator' (numbers expression piece)⟩ =
      .ok ⟨accumulator'.type,total accumulator' (numbers expression pieces.flatten)⟩ := by
  have valid : ChunkedArray.valid ⟨accumulator'.type,
      pieces.map fun piece => total accumulator' (numbers expression piece)⟩ =
      (pieces.map (numbers expression)).filterMap (total accumulator') := by
    rw [ChunkedArray.valid,List.filterMap_map,List.filterMap_map]
    rfl
  have blank : (pieces.map (numbers expression)).filterMap (total accumulator') = [] ↔
      numbers expression pieces.flatten = [] := by
    rw [numbers_flatten,List.filterMap_eq_nil_iff,List.flatten_eq_nil_iff]
    apply forall₂_congr
    intro piece inside
    simp [total]
  have integral : accumulator' ≠ .floating → ∀ piece ∈ pieces.map (numbers expression), ∀ number ∈ piece,
      Integral number := by
    intro integer piece inside
    obtain ⟨rows,_,rfl⟩ := List.mem_map.mp inside
    exact integral_numbers accumulates integer rows
  have whole : accumulator'.wrap ((pieces.map (numbers expression)).filterMap (total accumulator')).sum = _ :=
    Accumulator.wrap_pieces integral
  rw [Compute.sum,valid,accumulator_type]
  dsimp only
  rw [whole,← numbers_flatten]
  simp only [blank]
  rw [total]

/-- What `SUM` has of a piece. -/
def sumResult (accumulator' : Accumulator) (expression : Expression ρ) (piece : List ρ) : AggregateResult :=
  AggregateResult.put [] "SUM" ⟨accumulator'.type,total accumulator' (numbers expression piece)⟩

theorem sum_partials (accumulates : accumulator expression.type = some accumulator') (pieces : List (List ρ)) :
    pieces.mapM (AggregateFunction.sum expression).computePartial =
    .ok (pieces.map (sumResult accumulator' expression)) := by
  apply mapM_ok
  intro piece _
  rw [AggregateFunction.computePartial,AggregateFunction.computeComplete,sum_evaluate accumulates]
  rfl

theorem sum_compose (accumulates : accumulator expression.type = some accumulator')
    (wide : accumulator'.type = expression.type) (pieces : List (List ρ)) :
    (AggregateFunction.sum expression).compose pieces =
      .ok ⟨accumulator'.type,total accumulator' (numbers expression pieces.flatten)⟩ := by
  have array := build_ok "SUM" accumulator'.type (sumResult accumulator' expression)
    (fun piece => total accumulator' (numbers expression piece)) (fun _ => rfl) pieces
  rw [AggregateFunction.compose,sum_partials accumulates]
  change (do let array ← buildFinalizeInputArray "SUM" expression.type _; Compute.sum array) = _
  rw [← wide,array]
  exact sum_totals accumulates pieces

theorem sum_compose_narrow (accumulates : accumulator expression.type = some accumulator')
    (narrow : accumulator'.type ≠ expression.type) {pieces : List (List ρ)} (some : pieces ≠ []) :
    ∃ message, (AggregateFunction.sum expression).compose pieces = .error message := by
  obtain ⟨message,failed⟩ := build_mismatch "SUM" (sumResult accumulator' expression)
    (fun piece => total accumulator' (numbers expression piece)) (fun _ => rfl) narrow some
  rw [AggregateFunction.compose,sum_partials accumulates]
  refine ⟨message,?_⟩
  change (do let array ← buildFinalizeInputArray "SUM" expression.type _; Compute.sum array) = _
  rw [failed]
  rfl

end

theorem wrap_natCast {n : ℕ} (small : n < 2^63) : Accumulator.signed.wrap n = n := by
  have same : (n : ℤ).bmod (2^64) = n := by
    apply Int.bmod_eq_of_le_mul_two
    · push_cast
      omega
    · push_cast
      omega
  rw [Accumulator.wrap,Rat.num_natCast,same,Int.cast_natCast]

theorem sum_counts {α : Type} (count : α → ℕ) {elements : List α} (some' : elements ≠ [])
    (small : (elements.map count).sum < 2^63) :
    Compute.sum ⟨.int64,elements.map fun element => some (count element : ℚ)⟩ =
      .ok ⟨.int64,some ((elements.map count).sum : ℕ)⟩ := by
  have valid : ChunkedArray.valid ⟨.int64,elements.map fun element => some (count element : ℚ)⟩ =
      elements.map fun element => (count element : ℚ) := by
    rw [ChunkedArray.valid,List.filterMap_map,← List.filterMap_eq_map]
    rfl
  have whole : (elements.map fun element => (count element : ℚ)).sum = ((elements.map count).sum : ℕ) := by
    rw [Nat.cast_list_sum,List.map_map]
    rfl
  rw [Compute.sum,valid]
  dsimp only [accumulator]
  rw [if_neg (by simpa using some'),whole,wrap_natCast small]
  rfl

/-- The count that `COUNT` has of some rows. -/
def counted (expression : Option (Expression ρ)) (rows : List ρ) : ℕ :=
  match expression with
  | none => rows.length
  | some expression => (numbers expression rows).length

theorem count_complete (expression : Option (Expression ρ)) (rows : List ρ) :
    (AggregateFunction.count expression).computeComplete rows = .ok ⟨.int64,some (counted expression rows)⟩ := by
  cases expression with
  | none => rfl
  | some expression =>
    rw [AggregateFunction.computeComplete,Compute.count,valid_evaluate]
    rfl

theorem counted_flatten (expression : Option (Expression ρ)) (pieces : List (List ρ)) :
    (pieces.map (counted expression)).sum = counted expression pieces.flatten := by
  cases expression with
  | none => exact List.length_flatten.symm
  | some expression =>
    rw [counted,numbers_flatten,List.length_flatten,List.map_map]
    rfl

theorem counted_le (expression : Option (Expression ρ)) (rows : List ρ) : counted expression rows ≤ rows.length := by
  cases expression with
  | none => exact Nat.le_refl _
  | some expression => exact List.length_filterMap_le _ _

theorem count_compose (expression : Option (Expression ρ)) {pieces : List (List ρ)} (some' : pieces ≠ [])
    (small : pieces.flatten.length < 2^63) :
    (AggregateFunction.count expression).compose pieces = .ok ⟨.int64,some (counted expression pieces.flatten)⟩ := by
  have partials : pieces.mapM (AggregateFunction.count expression).computePartial =
      .ok (pieces.map fun piece => AggregateResult.put [] "COUNT" ⟨.int64,some (counted expression piece)⟩) := by
    apply mapM_ok
    intro piece _
    rw [AggregateFunction.computePartial,count_complete]
    rfl
  have array := build_ok "COUNT" .int64
    (fun piece => AggregateResult.put [] "COUNT" ⟨.int64,some (counted expression piece)⟩)
    (fun piece => some (counted expression piece : ℚ)) (fun _ => rfl) pieces
  rw [AggregateFunction.compose,partials]
  change (do let array ← buildFinalizeInputArray "COUNT" .int64 _; Compute.sum array) = _
  rw [array,← counted_flatten]
  refine sum_counts (counted expression) some' ?_
  rw [counted_flatten]
  exact Nat.lt_of_le_of_lt (counted_le expression _) small

theorem minMax_compose (isMin : Bool) (expression : Expression ρ) (pieces : List (List ρ)) :
    (AggregateFunction.minMax isMin expression).compose pieces =
      .ok ⟨expression.type,if isMin then (numbers expression pieces.flatten).min? else (numbers expression pieces.flatten).max?⟩ := by
  have partials : pieces.mapM (AggregateFunction.minMax isMin expression).computePartial = .ok (pieces.map fun piece =>
      AggregateResult.put [] (minMaxKey isMin) ⟨expression.type,
        if isMin then (numbers expression piece).min? else (numbers expression piece).max?⟩) := by
    apply mapM_ok
    intro piece _
    rw [AggregateFunction.computePartial,AggregateFunction.computeComplete,Compute.minMax,valid_evaluate]
    cases isMin with
    | true => rfl
    | false => rfl
  have array := build_ok (minMaxKey isMin) expression.type
    (fun piece => AggregateResult.put [] (minMaxKey isMin) ⟨expression.type,
      if isMin then (numbers expression piece).min? else (numbers expression piece).max?⟩)
    (fun piece => if isMin then (numbers expression piece).min? else (numbers expression piece).max?)
    (fun _ => by cases isMin <;> rfl) pieces
  rw [AggregateFunction.compose,partials]
  change (do
    let array ← buildFinalizeInputArray (minMaxKey isMin) expression.type _
    return if isMin then (Compute.minMax array).1 else (Compute.minMax array).2) = _
  rw [array,numbers_flatten,← min?_pieces,← max?_pieces]
  cases isMin with
  | true =>
    have valid : ChunkedArray.valid ⟨expression.type,pieces.map fun piece => (numbers expression piece).min?⟩ =
        (pieces.map (numbers expression)).filterMap List.min? := by
      rw [ChunkedArray.valid,List.filterMap_map,List.filterMap_map]
      rfl
    change Except.ok (Compute.minMax ⟨expression.type,pieces.map fun piece => (numbers expression piece).min?⟩).1 = _
    rw [Compute.minMax,valid]
    rfl
  | false =>
    have valid : ChunkedArray.valid ⟨expression.type,pieces.map fun piece => (numbers expression piece).max?⟩ =
        (pieces.map (numbers expression)).filterMap List.max? := by
      rw [ChunkedArray.valid,List.filterMap_map,List.filterMap_map]
      rfl
    change Except.ok (Compute.minMax ⟨expression.type,pieces.map fun piece => (numbers expression piece).max?⟩).2 = _
    rw [Compute.minMax,valid]
    rfl

def quotient (accumulator' : Accumulator) (sum : Option ℚ) (count : ℚ) : Except String Scalar := do
  let avg ← Compute.divide ⟨accumulator'.type,sum⟩ ⟨.int64,some count⟩
  Compute.castDouble avg

theorem finalizeAvg_eq (type : DataType) {sums counts : List (Option ℚ)} {results : List AggregateResult}
    {sum count : Scalar} (sumArray : buildFinalizeInputArray "SUM" type results = .ok ⟨type,sums⟩)
    (countArray : buildFinalizeInputArray "COUNT" .int64 results = .ok ⟨.int64,counts⟩)
    (summed : Compute.sum ⟨type,sums⟩ = .ok sum) (all : Compute.sum ⟨.int64,counts⟩ = .ok count) :
    finalizeAvg type results = (do let avg ← Compute.divide sum count; Compute.castDouble avg) := by
  rw [finalizeAvg,sumArray,countArray]
  change (do
    let finalSum ← Compute.sum ⟨type,sums⟩
    let finalCount ← Compute.sum ⟨.int64,counts⟩
    let avg ← Compute.divide finalSum finalCount
    Compute.castDouble avg) = _
  rw [summed,all]
  rfl

section
variable {expression : Expression ρ} {accumulator' : Accumulator}

/-- What `AVG` has of a piece. -/
def avgResult (accumulator' : Accumulator) (expression : Expression ρ) (piece : List ρ) : AggregateResult :=
  (sumResult accumulator' expression piece).put "COUNT" ⟨.int64,some (numbers expression piece).length⟩

theorem avg_partials (accumulates : accumulator expression.type = some accumulator') (pieces : List (List ρ)) :
    pieces.mapM (AggregateFunction.avg expression).computePartial =
    .ok (pieces.map (avgResult accumulator' expression)) := by
  apply mapM_ok
  intro piece _
  rw [AggregateFunction.computePartial,sum_evaluate accumulates,Compute.count,valid_evaluate]
  rfl

theorem avg_compose (accumulates : accumulator expression.type = some accumulator')
    (wide : accumulator'.type = expression.type) {pieces : List (List ρ)} (some' : pieces ≠ [])
    (small : pieces.flatten.length < 2^63) :
    (AggregateFunction.avg expression).compose pieces = quotient accumulator'
      (total accumulator' (numbers expression pieces.flatten)) (numbers expression pieces.flatten).length := by
  have sums := build_ok "SUM" accumulator'.type (avgResult accumulator' expression)
    (fun piece => total accumulator' (numbers expression piece)) (fun _ => rfl) pieces
  have counts := build_ok "COUNT" .int64 (avgResult accumulator' expression)
    (fun piece => some ((numbers expression piece).length : ℚ)) (fun _ => rfl) pieces
  have all := sum_counts (counted (some expression)) some' (by
    rw [counted_flatten]
    exact Nat.lt_of_le_of_lt (counted_le (some expression) _) small)
  rw [counted_flatten] at all
  rw [AggregateFunction.compose,avg_partials accumulates]
  change finalizeAvg expression.type _ = _
  rw [← wide]
  exact finalizeAvg_eq accumulator'.type sums counts (sum_totals accumulates pieces) all

theorem avg_compose_narrow (accumulates : accumulator expression.type = some accumulator')
    (narrow : accumulator'.type ≠ expression.type) {pieces : List (List ρ)} (some' : pieces ≠ []) :
    ∃ message, (AggregateFunction.avg expression).compose pieces = .error message := by
  obtain ⟨message,failed⟩ := build_mismatch "SUM" (avgResult accumulator' expression)
    (fun piece => total accumulator' (numbers expression piece)) (fun _ => rfl) narrow some'
  refine ⟨message,?_⟩
  rw [AggregateFunction.compose,avg_partials accumulates]
  change finalizeAvg expression.type _ = _
  rw [finalizeAvg,failed]
  rfl

theorem total_getD (accumulator' : Accumulator) (values : List ℚ) :
    (total accumulator' values).getD 0 = accumulator'.wrap values.sum := by
  unfold total
  split
  next blank => rw [blank,List.sum_nil,Accumulator.wrap_zero,Option.getD_none]
  next => rfl

theorem instanceColumns_eq (accumulates : accumulator expression.type = some accumulator')
    (wide : accumulator'.type = expression.type) (column : accumulator' ≠ .unsigned) {pieces : List (List ρ)}
    (some' : pieces ≠ []) (small : pieces.flatten.length < 2^63) :
    instanceColumns expression pieces =
      .ok (⟨accumulator'.type,[some (accumulator'.wrap (numbers expression pieces.flatten).sum)]⟩,
        ⟨.int64,[some ((numbers expression pieces.flatten).length : ℚ)]⟩) := by
  have made : makeColumn expression.type ⟨accumulator'.type,total accumulator' (numbers expression pieces.flatten)⟩ =
      .ok ⟨accumulator'.type,[some (accumulator'.wrap (numbers expression pieces.flatten).sum)]⟩ := by
    rw [makeColumn,← wide,total_getD,if_pos]
    cases accumulator' with
    | signed => exact .inr (.inl rfl)
    | unsigned => exact absurd rfl column
    | floating => exact .inr (.inr rfl)
  rw [instanceColumns,sum_compose accumulates wide,count_compose (some expression) some' small]
  change (do
    let sumColumn ← makeColumn expression.type ⟨accumulator'.type,
      total accumulator' (numbers expression pieces.flatten)⟩
    let countColumn ← makeColumn .int64 ⟨.int64,some (counted (some expression) pieces.flatten)⟩
    return (sumColumn,countColumn)) = _
  rw [made]
  rfl

/-- What is reduced of an instance. -/
def reduceResult (accumulator' : Accumulator) (expression : Expression ρ) (pieces : List (List ρ)) : AggregateResult :=
  (AggregateResult.put [] "SUM" ⟨accumulator'.type,
    some (accumulator'.wrap (numbers expression pieces.flatten).sum)⟩).put "COUNT"
      ⟨.int64,some ((numbers expression pieces.flatten).length : ℚ)⟩

theorem sum_singleton (accumulator' : Accumulator) (number : ℚ) :
    Compute.sum ⟨accumulator'.type,[some number]⟩ = .ok ⟨accumulator'.type,some (accumulator'.wrap number)⟩ := by
  have valid : ChunkedArray.valid ⟨accumulator'.type,[some number]⟩ = [number] := rfl
  rw [Compute.sum,valid,accumulator_type,List.sum_singleton]
  rfl

theorem wrap_wrap {number : ℚ} (integral : accumulator' ≠ .floating → Integral number) :
    accumulator'.wrap (accumulator'.wrap number) = accumulator'.wrap number := by
  have added := @Accumulator.wrap_add accumulator' number 0 integral fun _ => ⟨0,rfl⟩
  rw [add_zero,add_zero] at added
  exact added

theorem integral_total (accumulates : accumulator expression.type = some accumulator') (rows : List ρ) :
    accumulator' ≠ .floating → Integral (numbers expression rows).sum := fun integer =>
  integral_sum (integral_numbers accumulates integer rows)

theorem reduce_partial (accumulates : accumulator expression.type = some accumulator') {pieces : List (List ρ)}
    (small : pieces.flatten.length < 2^63) :
    AvgReduce.computePartial (⟨accumulator'.type,[some (accumulator'.wrap (numbers expression pieces.flatten).sum)]⟩,
      ⟨.int64,[some ((numbers expression pieces.flatten).length : ℚ)]⟩) =
        .ok (reduceResult accumulator' expression pieces) := by
  have count : Compute.sum ⟨.int64,[some ((numbers expression pieces.flatten).length : ℚ)]⟩ =
      .ok ⟨.int64,some ((numbers expression pieces.flatten).length : ℚ)⟩ := by
    have fits : (numbers expression pieces.flatten).length < 2^63 :=
      Nat.lt_of_le_of_lt (counted_le (some expression) pieces.flatten) small
    have single := sum_singleton .signed ((numbers expression pieces.flatten).length : ℚ)
    rw [wrap_natCast fits] at single
    exact single
  rw [AvgReduce.computePartial,sum_singleton,wrap_wrap (integral_total accumulates pieces.flatten),count]
  rfl

theorem mapM_error {α β : Type} {step : α → Except String β} {elements : List α} (some' : elements ≠ [])
    (failed : ∀ element ∈ elements, ∃ message, step element = .error message) :
    ∃ message, elements.mapM step = .error message := by
  obtain ⟨element,elements,rfl⟩ := List.exists_cons_of_ne_nil some'
  obtain ⟨message,first⟩ := failed element List.mem_cons_self
  refine ⟨message,?_⟩
  rw [List.mapM_cons,first]
  rfl

theorem averagePlan_several (expression : Expression ρ) {instances : List (List (List ρ))}
    (several : instances.length ≠ 1) :
    averagePlan expression instances = (do
      let inputs ← instances.mapM (instanceColumns expression)
      let aggregateResults ← inputs.mapM AvgReduce.computePartial
      finalizeAvg expression.type aggregateResults) := by
  unfold averagePlan
  split
  next => exact absurd rfl several
  next => rfl

theorem length_piece_le {instances : List (List (List ρ))} {pieces : List (List ρ)} (inside : pieces ∈ instances) :
    pieces.flatten.length ≤ instances.flatten.flatten.length := by
  induction instances with
  | nil => cases inside
  | cons first instances ih =>
    rw [List.flatten_cons,List.flatten_append,List.length_append]
    obtain rfl | later := List.mem_cons.mp inside
    · exact Nat.le_add_right _ _
    · exact Nat.le_trans (ih later) (Nat.le_add_left _ _)

theorem averagePlan_reduced (accumulates : accumulator expression.type = some accumulator')
    (wide : accumulator'.type = expression.type) (column : accumulator' ≠ .unsigned) {instances : List (List (List ρ))}
    (several : instances.length ≠ 1) (some' : instances ≠ []) (each : ∀ pieces ∈ instances, pieces ≠ [])
    (small : instances.flatten.flatten.length < 2^63) :
    averagePlan expression instances = quotient accumulator'
      (some (accumulator'.wrap (numbers expression instances.flatten.flatten).sum))
        (numbers expression instances.flatten.flatten).length := by
  have part : ∀ pieces ∈ instances, pieces.flatten.length < 2^63 := fun pieces inside =>
    Nat.lt_of_le_of_lt (length_piece_le inside) small
  have inputs := mapM_ok fun pieces inside => instanceColumns_eq accumulates wide column (each pieces inside)
      (part pieces inside)
  have partials : (instances.map fun pieces =>
      ((⟨accumulator'.type,[some (accumulator'.wrap (numbers expression pieces.flatten).sum)]⟩ : ChunkedArray),
        (⟨.int64,[some ((numbers expression pieces.flatten).length : ℚ)]⟩ : ChunkedArray))).mapM AvgReduce.computePartial =
      .ok (instances.map (reduceResult accumulator' expression)) := by
    rw [List.mapM_map]
    exact mapM_ok fun pieces inside => reduce_partial accumulates (part pieces inside)
  have sums := build_ok "SUM" accumulator'.type (reduceResult accumulator' expression)
    (fun pieces => some (accumulator'.wrap (numbers expression pieces.flatten).sum)) (fun _ => rfl) instances
  have counts := build_ok "COUNT" .int64 (reduceResult accumulator' expression)
    (fun pieces => some ((numbers expression pieces.flatten).length : ℚ)) (fun _ => rfl) instances
  have flat : (instances.map List.flatten).flatten = instances.flatten.flatten := List.flatten_flatten.symm
  have summed : Compute.sum ⟨accumulator'.type,instances.map fun pieces =>
      some (accumulator'.wrap (numbers expression pieces.flatten).sum)⟩ =
        .ok ⟨accumulator'.type,some (accumulator'.wrap (numbers expression instances.flatten.flatten).sum)⟩ := by
    have valid : ChunkedArray.valid ⟨accumulator'.type,instances.map fun pieces =>
        some (accumulator'.wrap (numbers expression pieces.flatten).sum)⟩ =
          (instances.map fun pieces => (numbers expression pieces.flatten).sum).map accumulator'.wrap := by
      rw [ChunkedArray.valid,List.filterMap_map,List.map_map,← List.filterMap_eq_map]
      rfl
    have whole : (instances.map fun pieces => (numbers expression pieces.flatten).sum).sum =
        (numbers expression instances.flatten.flatten).sum := by
      rw [← flat,numbers_flatten,List.sum_flatten,List.map_map,List.map_map]
      rfl
    have integral : accumulator' ≠ .floating →
        ∀ sum ∈ instances.map (fun pieces => (numbers expression pieces.flatten).sum), Integral sum := by
      intro integer sum inside
      obtain ⟨pieces,_,rfl⟩ := List.mem_map.mp inside
      exact integral_total accumulates pieces.flatten integer
    have wrapped := Accumulator.wrap_sums integral
    rw [Compute.sum,valid,accumulator_type]
    dsimp only
    rw [if_neg (by simpa using some'),wrapped,whole]
  have counted := sum_counts (fun pieces => (numbers expression pieces.flatten).length) some'
  have length : (instances.map fun pieces => (numbers expression pieces.flatten).length).sum =
      (numbers expression instances.flatten.flatten).length := by
    rw [← flat,numbers_flatten,List.length_flatten,List.map_map,List.map_map]
    rfl
  rw [length] at counted
  have all := counted (Nat.lt_of_le_of_lt (counted_le (some expression) instances.flatten.flatten) small)
  rw [averagePlan_several expression several,inputs]
  change (do
    let aggregateResults ← (instances.map _).mapM AvgReduce.computePartial
    finalizeAvg expression.type aggregateResults) = _
  rw [partials]
  change finalizeAvg expression.type _ = _
  rw [← wide]
  exact finalizeAvg_eq accumulator'.type sums counts summed all

theorem averagePlan_failed (accumulates : accumulator expression.type = some accumulator')
    (fails : accumulator'.type ≠ expression.type ∨ accumulator' = .unsigned) {instances : List (List (List ρ))}
    (several : instances.length ≠ 1) (some' : instances ≠ []) (each : ∀ pieces ∈ instances, pieces ≠ [])
    (small : instances.flatten.flatten.length < 2^63) :
    ∃ message, averagePlan expression instances = .error message := by
  have failed : ∀ pieces ∈ instances, ∃ message, instanceColumns expression pieces = .error message := by
    intro pieces inside
    by_cases wide : accumulator'.type = expression.type
    · obtain rfl := fails.resolve_left (not_not_intro wide)
      have part : pieces.flatten.length < 2^63 := Nat.lt_of_le_of_lt (length_piece_le inside) small
      refine ⟨"Unsupported aggregate output field type uint64",?_⟩
      rw [instanceColumns,sum_compose accumulates wide,count_compose (some expression) (each pieces inside) part,← wide]
      rfl
    · obtain ⟨message,error⟩ := sum_compose_narrow accumulates wide (each pieces inside)
      refine ⟨message,?_⟩
      rw [instanceColumns,error]
      rfl
  obtain ⟨message,error⟩ := mapM_error some' failed
  refine ⟨message,?_⟩
  rw [averagePlan_several expression several,error]
  rfl

end

/-- When the quotient of a sum and a count is a double: counts are converted for floating
sums, and integer sums must be divided without a rest. -/
def Divides (accumulator' : Accumulator) (sum : ℚ) (count : ℕ) : Prop :=
  (accumulator' = .floating → Compute.Representable count) ∧
    (accumulator' ≠ .floating → sum < 2^63 ∧ Integral (sum/count) ∧ Compute.Representable (sum/count))

theorem truncate_eq_self {number : ℚ} : Compute.truncate number = number ↔ Integral number := by
  constructor
  · intro same
    unfold Compute.truncate at same
    split at same
    next => exact ⟨_,same.symm⟩
    next => exact ⟨_,same.symm⟩
  · rintro ⟨z,rfl⟩
    unfold Compute.truncate
    rw [Int.floor_intCast,Int.ceil_intCast,ite_self]

theorem quotient_none (accumulator' : Accumulator) (count : ℚ) :
    quotient accumulator' none count = .ok ⟨.double,none⟩ := by
  cases accumulator' with
  | signed => rfl
  | unsigned => rfl
  | floating => rfl

theorem quotient_floating (sum count : ℚ) : quotient .floating (some sum) count =
    if ¬Compute.Representable count then .error "Integer value not in range"
    else if count = 0 then .error "not a finite number"
    else .ok ⟨.double,some (sum/count)⟩ := by
  have divided : Compute.divide ⟨.double,some sum⟩ ⟨.int64,some count⟩ =
      if ¬Compute.Representable count then .error "Integer value not in range"
      else if count = 0 then .error "not a finite number"
      else .ok ⟨.double,some (sum/count)⟩ := rfl
  rw [quotient,Accumulator.type,divided]
  split
  next => rfl
  next =>
    split
    next => rfl
    next =>
      change Compute.castDouble ⟨.double,some (sum/count)⟩ = _
      simp [Compute.castDouble]

theorem quotient_integer {accumulator' : Accumulator} (integer : accumulator' ≠ .floating) (sum count : ℚ) :
    quotient accumulator' (some sum) count =
      if 2^63 ≤ sum then .error "Integer value not in range"
      else if count = 0 then .error "divide by zero"
      else if Compute.Representable (Compute.truncate (sum/count)) then
        .ok ⟨.double,some (Compute.truncate (sum/count))⟩
      else .error "Integer value not in range" := by
  have divided : Compute.divide ⟨accumulator'.type,some sum⟩ ⟨.int64,some count⟩ =
      if 2^63 ≤ sum then .error "Integer value not in range"
      else if count = 0 then .error "divide by zero"
      else .ok ⟨.int64,some (Compute.truncate (sum/count))⟩ := by
    cases accumulator' with
    | signed => rfl
    | unsigned => rfl
    | floating => exact absurd rfl integer
  rw [quotient,divided]
  split
  next => rfl
  next =>
    split
    next => rfl
    next =>
      change Compute.castDouble ⟨.int64,some (Compute.truncate (sum/count))⟩ = _
      simp [Compute.castDouble]

theorem quotient_zero (accumulator' : Accumulator) (sum : ℚ) :
    ∃ message, quotient accumulator' (some sum) 0 = .error message := by
  by_cases floating : accumulator' = .floating
  · have fits : Compute.Representable 0 := by
      unfold Compute.Representable
      norm_num
    rw [floating,quotient_floating,if_neg (not_not_intro fits),if_pos rfl]
    exact ⟨_,rfl⟩
  · rw [quotient_integer floating]
    split
    next => exact ⟨_,rfl⟩
    next => exact ⟨_,if_pos rfl⟩

theorem quotient_exact (accumulator' : Accumulator) (sum : ℚ) {count : ℕ} (positive : 0 < count) :
    quotient accumulator' (some sum) count = .ok ⟨.double,some (sum/count)⟩ ↔ Divides accumulator' sum count := by
  have nonzero : (count : ℚ) ≠ 0 := Nat.cast_ne_zero.mpr (Nat.pos_iff_ne_zero.mp positive)
  by_cases floating : accumulator' = .floating
  · rw [floating,quotient_floating,if_neg nonzero]
    by_cases fits : Compute.Representable count
    · rw [if_neg (not_not_intro fits)]
      exact ⟨fun _ => ⟨fun _ => fits,fun other => absurd rfl other⟩,fun _ => rfl⟩
    · rw [if_pos fits]
      exact ⟨(by intro wrong; cases wrong),fun divides => absurd (divides.1 rfl) fits⟩
  · rw [quotient_integer floating,if_neg nonzero]
    constructor
    · intro same
      refine ⟨fun wrong => absurd wrong floating,fun _ => ?_⟩
      split at same
      next => cases same
      next below =>
        split at same
        next fits =>
          have exact' : Compute.truncate (sum/count) = sum/count := by simpa using same
          rw [exact'] at fits
          exact ⟨lt_of_not_ge below,truncate_eq_self.mp exact',fits⟩
        next => cases same
    · intro divides
      obtain ⟨below,whole,fits⟩ := divides.2 floating
      rw [if_neg (not_le_of_gt below),truncate_eq_self.mpr whole,if_pos fits]

/-- The value of an aggregate, without accumulators and types. -/
def exactValue (function : AggregateFunction ρ) (rows : List ρ) : Option ℚ :=
  match function with
  | .sum expression => if numbers expression rows = [] then none else some (numbers expression rows).sum
  | .count expression => some (counted expression rows)
  | .minMax isMin expression => if isMin then (numbers expression rows).min? else (numbers expression rows).max?
  | .avg expression => if numbers expression rows = [] then none else
      some ((numbers expression rows).sum/(numbers expression rows).length)

/-- Partial results of the pieces of some instances give the result of the whole, which is
the exact value; an average also in the plan with a reduction. -/
def Composes (function : AggregateFunction ρ) (instances : List (List (List ρ))) : Prop :=
  ∃ result, function.computeComplete instances.flatten.flatten = .ok result ∧
    function.compose instances.flatten = .ok result ∧ result.value = exactValue function instances.flatten.flatten ∧
      ∀ expression, function = .avg expression → averagePlan expression instances = .ok result

def Summable (expression : Expression ρ) (rows : List ρ) (accumulator' : Accumulator) : Prop :=
  accumulator expression.type = some accumulator' ∧ accumulator'.type = expression.type ∧
    accumulator'.wrap (numbers expression rows).sum = (numbers expression rows).sum

def HoldsWhen (function : AggregateFunction ρ) (instances : List (List (List ρ))) : Prop :=
  match function with
  | .sum expression => ∃ accumulator', Summable expression instances.flatten.flatten accumulator'
  | .count _ => True
  | .minMax _ _ => True
  | .avg expression => ∃ accumulator', Summable expression instances.flatten.flatten accumulator' ∧
      (numbers expression instances.flatten.flatten ≠ [] →
        Divides accumulator' (numbers expression instances.flatten.flatten).sum
          (numbers expression instances.flatten.flatten).length) ∧
      (instances.length ≠ 1 → numbers expression instances.flatten.flatten ≠ [] ∧ accumulator' ≠ .unsigned)

section
variable {expression : Expression ρ} {instances : List (List (List ρ))}

theorem flatten_ne_nil (some' : instances ≠ []) (each : ∀ pieces ∈ instances, pieces ≠ []) :
    instances.flatten ≠ [] := by
  intro none
  obtain ⟨pieces,others,rfl⟩ := List.exists_cons_of_ne_nil some'
  exact each pieces List.mem_cons_self (List.flatten_eq_nil_iff.mp none pieces List.mem_cons_self)

theorem sum_composes_iff (some' : instances ≠ []) (each : ∀ pieces ∈ instances, pieces ≠ []) :
    Composes (.sum expression) instances ↔ HoldsWhen (.sum expression) instances := by
  obtain ⟨accumulator',accumulates⟩ := expression.numeric
  have complete : (AggregateFunction.sum expression).computeComplete instances.flatten.flatten = .ok ⟨accumulator'.type,
      total accumulator' (numbers expression instances.flatten.flatten)⟩ := sum_evaluate accumulates _
  have exact' : total accumulator' (numbers expression instances.flatten.flatten) =
      exactValue (.sum expression) instances.flatten.flatten ↔
        accumulator'.wrap (numbers expression instances.flatten.flatten).sum =
          (numbers expression instances.flatten.flatten).sum := by
    rw [total,exactValue]
    by_cases blank : numbers expression instances.flatten.flatten = []
    · simp [blank]
    · simp [blank]
  constructor
  · rintro ⟨result,whole,composed,value,_⟩
    rw [complete] at whole
    obtain rfl := Except.ok.inj whole
    refine ⟨accumulator',accumulates,?_,exact'.mp value⟩
    by_contra narrow
    obtain ⟨message,failed⟩ := sum_compose_narrow accumulates narrow (flatten_ne_nil some' each)
    rw [failed] at composed
    cases composed
  · rintro ⟨other,same,wide,fits⟩
    rw [accumulates] at same
    obtain rfl := Option.some.inj same
    exact ⟨_,complete,sum_compose accumulates wide instances.flatten,exact'.mpr fits,fun _ wrong => by cases wrong⟩

theorem avg_complete {accumulator' : Accumulator} (accumulates : accumulator expression.type = some accumulator')
    (rows : List ρ) : (AggregateFunction.avg expression).computeComplete rows = .ok ⟨.double,
      if numbers expression rows = [] then none
      else some (accumulator'.wrap (numbers expression rows).sum/(numbers expression rows).length)⟩ := by
  rw [AggregateFunction.computeComplete,Compute.mean,valid_evaluate,
    show (expression.evaluate rows).type = expression.type from rfl,accumulates]
  change Compute.castDouble _ = _
  unfold Compute.castDouble
  by_cases blank : numbers expression rows = []
  · simp [blank]
  · simp [blank]

theorem avg_compose_iff {accumulator' : Accumulator}
    (summable : Summable expression instances.flatten.flatten accumulator')
    (some' : instances.flatten ≠ []) (small : instances.flatten.flatten.length < 2^63) :
    (AggregateFunction.avg expression).compose instances.flatten =
        .ok ⟨.double,exactValue (.avg expression) instances.flatten.flatten⟩ ↔
      (numbers expression instances.flatten.flatten ≠ [] →
        Divides accumulator' (numbers expression instances.flatten.flatten).sum
          (numbers expression instances.flatten.flatten).length) := by
  obtain ⟨accumulates,wide,fits⟩ := summable
  rw [avg_compose accumulates wide some' small,total,exactValue,fits]
  by_cases blank : numbers expression instances.flatten.flatten = []
  · rw [if_pos blank,if_pos blank,quotient_none]
    exact ⟨fun _ some'' => absurd blank some'',fun _ => rfl⟩
  · rw [if_neg blank,if_neg blank,quotient_exact accumulator' _ (List.length_pos_iff.mpr blank)]
    exact ⟨fun divides _ => divides,fun divides => divides blank⟩

theorem avg_composes_iff (some' : instances ≠ []) (each : ∀ pieces ∈ instances, pieces ≠ [])
    (small : instances.flatten.flatten.length < 2^63) :
    Composes (.avg expression) instances ↔ HoldsWhen (.avg expression) instances := by
  obtain ⟨accumulator',accumulates⟩ := expression.numeric
  have pieces := flatten_ne_nil some' each
  have complete := avg_complete accumulates instances.flatten.flatten
  have exact' : (if numbers expression instances.flatten.flatten = [] then none
      else some (accumulator'.wrap (numbers expression instances.flatten.flatten).sum/
        (numbers expression instances.flatten.flatten).length)) = exactValue
          (.avg expression) instances.flatten.flatten ↔
        accumulator'.wrap (numbers expression instances.flatten.flatten).sum =
          (numbers expression instances.flatten.flatten).sum := by
    rw [exactValue]
    by_cases blank : numbers expression instances.flatten.flatten = []
    · simp [blank]
    · have nonzero : ((numbers expression instances.flatten.flatten).length : ℚ) ≠ 0 := by
        simpa using blank
      simp [blank,div_left_inj' nonzero]
  constructor
  · rintro ⟨result,whole,composed,value,plan⟩
    rw [complete] at whole
    obtain rfl := Except.ok.inj whole
    have fits := exact'.mp value
    have wide : accumulator'.type = expression.type := by
      by_contra narrow
      obtain ⟨message,failed⟩ := avg_compose_narrow accumulates narrow pieces
      rw [failed] at composed
      cases composed
    have summable : Summable expression instances.flatten.flatten accumulator' := ⟨accumulates,wide,fits⟩
    have planned := plan expression rfl
    rw [exact'.mpr fits] at composed
    refine ⟨accumulator',summable,(avg_compose_iff summable pieces small).mp composed,?_⟩
    intro several
    have column : accumulator' ≠ .unsigned := by
      intro unsigned
      obtain ⟨message,failed⟩ := averagePlan_failed accumulates (.inr unsigned) several some' each small
      rw [failed] at planned
      cases planned
    refine ⟨?_,column⟩
    intro blank
    rw [averagePlan_reduced accumulates wide column several some' each small,blank] at planned
    obtain ⟨message,failed⟩ := quotient_zero accumulator' (accumulator'.wrap ([] : List ℚ).sum)
    rw [List.length_nil,Nat.cast_zero,failed] at planned
    cases planned
  · rintro ⟨other,summable,divides,reduced⟩
    have same := summable.1
    rw [accumulates] at same
    obtain rfl := Option.some.inj same
    have composed := (avg_compose_iff summable pieces small).mpr divides
    refine ⟨_,complete,?_,exact'.mpr summable.2.2,?_⟩
    · rw [exact'.mpr summable.2.2]
      exact composed
    · intro other same
      cases same
      rw [exact'.mpr summable.2.2]
      by_cases several : instances.length = 1
      · obtain ⟨only,rfl⟩ := List.length_eq_one_iff.mp several
        rw [List.flatten_singleton] at composed
        rw [List.flatten_singleton]
        exact composed
      · obtain ⟨some'',column⟩ := reduced several
        rw [averagePlan_reduced accumulates summable.2.1 column several some' each small,summable.2.2,exactValue,
          if_neg some'']
        exact (quotient_exact accumulator' _ (List.length_pos_iff.mpr some'')).mpr (divides some'')

end

/-- Partial aggregation composes exactly in these cases: always for counts, least and
greatest values; for sums if their type is the type of the input and they fit it; for
averages if moreover the division has no rest, and in a reduced plan there is a value. -/
theorem aggregation_composes_iff (function : AggregateFunction ρ) (instances : List (List (List ρ)))
    (some' : instances ≠ [])
    (each : ∀ pieces ∈ instances, pieces ≠ []) (small : instances.flatten.flatten.length < 2^63) :
    Composes function instances ↔ HoldsWhen function instances := by
  have pieces := flatten_ne_nil some' each
  cases function with
  | sum expression => exact sum_composes_iff some' each
  | avg expression => exact avg_composes_iff some' each small
  | count expression =>
    refine ⟨fun _ => trivial,fun _ => ⟨_,count_complete expression _,count_compose expression pieces small,rfl,?_⟩⟩
    intro _ wrong
    cases wrong
  | minMax isMin expression =>
    refine ⟨fun _ => trivial,fun _ => ⟨_,?_,minMax_compose isMin expression instances.flatten,rfl,?_⟩⟩
    · rw [AggregateFunction.computeComplete,Compute.minMax,valid_evaluate]
      cases isMin with
      | true => rfl
      | false => rfl
    · intro _ wrong
      cases wrong

/-- A column of integers of a signed type. -/
def integerColumn (type : DataType) (signed : accumulator type = some .signed) : Expression ℤ where
  type := type
  value row := some row
  numeric := ⟨.signed,signed⟩
  integral := by
    intro _ row number found
    rw [← Option.some.inj found]
    exact Rat.den_intCast row

/-- Two instances whose average is an integer. -/
theorem average_of_three : Composes (.avg (integerColumn .int64 rfl)) [[[1,2]],[[3]]] := by
  apply (aggregation_composes_iff (.avg (integerColumn .int64 rfl)) [[[1,2]],[[3]]] (by simp) (by simp) (by simp)).mpr
  have sum : (numbers (integerColumn .int64 rfl) [1,2,3]).sum = 6 := by decide +kernel
  have length : (numbers (integerColumn .int64 rfl) [1,2,3]).length = 3 := rfl
  refine ⟨.signed,⟨rfl,rfl,by decide +kernel⟩,?_,?_⟩
  · intro _
    refine ⟨(by intro wrong; cases wrong),?_⟩
    intro _
    change (numbers (integerColumn .int64 rfl) [1,2,3]).sum < 2^63 ∧
      Integral ((numbers (integerColumn .int64 rfl) [1,2,3]).sum/(3 : ℕ)) ∧
        Compute.Representable ((numbers (integerColumn .int64 rfl) [1,2,3]).sum/(3 : ℕ))
    rw [sum]
    refine ⟨by norm_num,⟨2,by norm_num⟩,?_⟩
    unfold Compute.Representable
    norm_num
  · intro _
    exact ⟨by simp [numbers,integerColumn],(by intro wrong; cases wrong)⟩

/-- The sum of two pieces of an `int32` column is a type error, and the average of 1 and 2
in two pieces of an `int64` column is 1. -/
theorem partial_aggregation_fails :
    (AggregateFunction.sum (integerColumn .int32 rfl)).computeComplete [1,2] = .ok ⟨.int64,some 3⟩ ∧
      (AggregateFunction.sum (integerColumn .int32 rfl)).compose [[1],[2]] =
        .error "Cannot append scalar of type int64 to builder for type int32" ∧
      (AggregateFunction.avg (integerColumn .int64 rfl)).computeComplete [1,2] = .ok ⟨.double,some (3/2)⟩ ∧
      (AggregateFunction.avg (integerColumn .int64 rfl)).compose [[1],[2]] = .ok ⟨.double,some 1⟩ ∧
      ¬Composes (.sum (integerColumn .int32 rfl)) [[[1],[2]]] ∧ ¬Composes (.avg (integerColumn .int64 rfl))
      [[[1],[2]]] := by
  have sum : (AggregateFunction.sum (integerColumn .int32 rfl)).compose [[1],[2]] =
      .error "Cannot append scalar of type int64 to builder for type int32" := by decide +kernel
  have whole : (AggregateFunction.avg (integerColumn .int64 rfl)).computeComplete [1,2] = .ok ⟨.double,some (3/2)⟩ := by
    decide +kernel
  have avg : (AggregateFunction.avg (integerColumn .int64 rfl)).compose [[1],[2]] = .ok ⟨.double,some 1⟩ := by
    decide +kernel
  refine ⟨by decide +kernel,sum,whole,avg,?_,?_⟩
  · rintro ⟨result,_,composed,_⟩
    cases sum.symm.trans composed
  · rintro ⟨result,complete,composed,_⟩
    have same := (whole.symm.trans complete).trans (composed.symm.trans avg)
    simp at same
    norm_num at same

end Hermes.Aggregate
