import Hermes.JoinExtraction
import Hermes.Library.JoinFilter
import Hermes.SimpleExpressionCanonicalizer

/-! `EnhancedFilterJoinRule`: the condition of a filter above a join and that of the join are taken apart, and what
can be decided on one input goes below the join. What Calcite finds out about the join is given: the join type that
filters above leave, whether a condition is one of equal keys, what holds on an input, and what a search stands for. -/
namespace Hermes.Calcite.EnhancedFilterJoinRule
open RexFilter EnhancedFilterJoinPruner SimpleExpressionCanonicalizer Library.ListJoin
open EnhancedFilterJoinExtractor (Holds Extractable MadeOf)
variable {σ τ : Type}

/-- An expression or a predicate by what it makes of columns, and the columns in the order in which they occur. -/
structure Applied (σ : Type) where
  symbol : σ
  columns : List Nat
deriving DecidableEq

def Applied.shift (f : Nat → Nat) (applied : Applied σ) : Applied σ := {applied with columns := applied.columns.map f}

abbrev Leaf (σ τ : Type) := Predicate (Applied σ) (Applied τ)

abbrev Condition (σ τ : Type) := RexFilter (Leaf σ τ)

def inputs : Leaf σ τ → List Nat
  | .comparison compared => compared.left.columns ++ compared.right.columns
  | .other predicate => predicate.columns

def shiftLeaf (f : Nat → Nat) : Leaf σ τ → Leaf σ τ
  | .comparison compared => .comparison ⟨compared.kind,compared.left.shift f,compared.right.shift f,compared.compares⟩
  | .other predicate => .other (predicate.shift f)

/-- The input references from `start` on are moved. -/
def shiftFilter (start finish : Nat) (offset : Int) (filter : Condition σ τ) : Condition σ τ :=
  mapLeaves (shiftLeaf fun i => if start ≤ i ∧ i < finish then (i+offset).toNat else i) filter

structure JoinRel (σ τ : Type) where
  joinType : JoinRelType
  condition : Condition σ τ
  nFieldsLeft : Nat
  nFieldsRight : Nat

structure Metadata (σ τ : Type) where
  compareTo : Finset Nat → Finset Nat → Int
  simplifyJoin : List (Condition σ τ) → JoinRelType → JoinRelType
  equalIsNotDistinctFrom : Condition σ τ → Bool
  pulledUpLeft : List (Condition σ τ)
  pulledUpRight : List (Condition σ τ)
  expandSearch : Leaf σ τ → Option (Condition σ τ)

structure EnhancedFilterJoinExtraction (σ τ : Type) where
  inputFilterConditionPruned : Condition σ τ
  inputJoinConditionPruned : Condition σ τ
  joinCondition : Condition σ τ
  leftPushdownPredicate : Condition σ τ
  rightPushdownPredicate : Condition σ τ
  remainingFilterCondition : Condition σ τ
  simplifiedJoinType : JoinRelType
deriving DecidableEq

/-- A join between two filters on its inputs and a filter above it. -/
structure Rewrite (σ τ : Type) where
  leftFilter : Condition σ τ
  rightFilter : Condition σ τ
  joinType : JoinRelType
  joinCondition : Condition σ τ
  remainingFilter : Condition σ τ
deriving DecidableEq

section Rule
variable [DecidableEq σ] [DecidableEq τ] (metadata : Metadata σ τ) (filterRel : Option (Condition σ τ))
    (joinRel : JoinRel σ τ)

/-- An input condition, canonicalized, in negation normal form and pruned down to its leaves. -/
def conditionNnf (condition : Condition σ τ) : Condition σ τ :=
  toNnf (canonicalizeExpression (fun applied => applied.columns.toFinset) metadata.compareTo condition)

def inputFilterConditionPruned :
    Condition σ τ := pruneSuperset true (conditionNnf metadata (filterRel.getD (.literal true)))

def inputJoinConditionPruned : Condition σ τ := pruneSuperset true (conditionNnf metadata joinRel.condition)

def leftBitSet : List Nat := List.range joinRel.nFieldsLeft

def rightBitSet : List Nat := List.range' joinRel.nFieldsLeft joinRel.nFieldsRight

omit [DecidableEq σ] [DecidableEq τ] in
def contains (targetBitSet : List Nat) (filter : Condition σ τ) : Bool := inputsOf inputs filter ⊆ targetBitSet

omit [DecidableEq σ] [DecidableEq τ] in
/-- `EQUAL_IS_NOT_DISTINCT_FROM`: above an outer join every condition stays in it. -/
def predicate (joinType : JoinRelType) (filter : Condition σ τ) : Bool :=
  joinType ≠ .inner || metadata.equalIsNotDistinctFrom filter

def extractJoinCondition (inputFilter : Condition σ τ) (joinType : JoinRelType) : Condition σ τ × Condition σ τ :=
  EnhancedFilterJoinExtractor.extract (fun leafFilter => !contains (leftBitSet joinRel) leafFilter && !contains
    (rightBitSet joinRel) leafFilter)
    (predicate metadata joinType) true inputFilter

def extractPushdownPredicates (inputFilter : Condition σ τ) (joinType : JoinRelType) (targetBitSet : List Nat) :
    Condition σ τ × Condition σ τ :=
  EnhancedFilterJoinExtractor.extract (contains targetBitSet) (predicate metadata joinType) false inputFilter

def inputConditionPruned : Condition σ τ := pruneSuperset false
  (composeConDisjunction .and [inputFilterConditionPruned metadata filterRel,inputJoinConditionPruned metadata joinRel])

def extractInnerJoin : EnhancedFilterJoinExtraction σ τ :=
  let (joinCondition,remainingFilter) := extractJoinCondition metadata joinRel
    (inputConditionPruned metadata filterRel joinRel) .inner
  let (leftPushdownPredicate,remainingFilter) := extractPushdownPredicates metadata remainingFilter .inner
    (leftBitSet joinRel)
  let (rightPushdownPredicate,remainingFilter) :=
    extractPushdownPredicates metadata remainingFilter .inner (rightBitSet joinRel)
  ⟨inputFilterConditionPruned metadata filterRel,inputJoinConditionPruned metadata joinRel,joinCondition,
    leftPushdownPredicate,rightPushdownPredicate,remainingFilter,.inner⟩

def extractLeftOuterJoin : EnhancedFilterJoinExtraction σ τ :=
  let (leftPushdownPredicate,remainingFilterCondition) :=
    extractPushdownPredicates metadata (inputFilterConditionPruned metadata filterRel) .left (leftBitSet joinRel)
  let (rightPushdownPredicate,remainingJoinCondition) :=
    extractPushdownPredicates metadata (inputJoinConditionPruned metadata joinRel) .left (rightBitSet joinRel)
  ⟨inputFilterConditionPruned metadata filterRel,inputJoinConditionPruned metadata joinRel,remainingJoinCondition,
    leftPushdownPredicate,rightPushdownPredicate,remainingFilterCondition,.left⟩

def extractRightOuterJoin : EnhancedFilterJoinExtraction σ τ :=
  let (leftPushdownPredicate,remainingJoinCondition) :=
    extractPushdownPredicates metadata (inputJoinConditionPruned metadata joinRel) .right (leftBitSet joinRel)
  let (rightPushdownPredicate,remainingFilterCondition) :=
    extractPushdownPredicates metadata (inputFilterConditionPruned metadata filterRel) .right (rightBitSet joinRel)
  ⟨inputFilterConditionPruned metadata filterRel,inputJoinConditionPruned metadata joinRel,remainingJoinCondition,
    leftPushdownPredicate,rightPushdownPredicate,remainingFilterCondition,.right⟩

def extractFullOuterJoin : EnhancedFilterJoinExtraction σ τ :=
  ⟨inputFilterConditionPruned metadata filterRel,inputJoinConditionPruned metadata joinRel,
    inputJoinConditionPruned metadata joinRel,
    .literal true,.literal true,inputFilterConditionPruned metadata filterRel,.full⟩

def simplifiedJoinType : JoinRelType :=
  let aboveFilters := conDisjunctions .and (inputFilterConditionPruned metadata filterRel)
  if aboveFilters ≠ [] ∧ joinRel.joinType ≠ .inner then metadata.simplifyJoin aboveFilters joinRel.joinType else joinRel.joinType

def extract : Option (EnhancedFilterJoinExtraction σ τ) :=
  match simplifiedJoinType metadata filterRel joinRel with
  | .inner => some (extractInnerJoin metadata filterRel joinRel)
  | .left => some (extractLeftOuterJoin metadata filterRel joinRel)
  | .right => some (extractRightOuterJoin metadata filterRel joinRel)
  | .full => some (extractFullOuterJoin metadata filterRel joinRel)
  | _ => none

/-- The predicates for the inputs, in the inputs' own columns and without what holds there already. -/
def leftPushdownPredicatePruned (leftPushdownPredicate : Condition σ τ) : Condition σ τ :=
  prunePushdown inputs metadata.expandSearch (shiftFilter 0 joinRel.nFieldsLeft 0 leftPushdownPredicate) metadata.pulledUpLeft

def rightPushdownPredicatePruned (rightPushdownPredicate : Condition σ τ) : Condition σ τ :=
  prunePushdown inputs metadata.expandSearch
    (shiftFilter joinRel.nFieldsLeft (joinRel.nFieldsLeft+joinRel.nFieldsRight)
      (-joinRel.nFieldsLeft) rightPushdownPredicate)
    metadata.pulledUpRight

/-- None is no rewrite. -/
def doMatch : Option (Rewrite σ τ) := do
  let extraction ← extract metadata filterRel joinRel
  let left := leftPushdownPredicatePruned metadata joinRel extraction.leftPushdownPredicate
  let right := rightPushdownPredicatePruned metadata joinRel extraction.rightPushdownPredicate
  if isAlwaysTrue left && isAlwaysTrue right && (isAlwaysTrue extraction.joinCondition ||
      (extraction.joinCondition = extraction.inputJoinConditionPruned &&
        extraction.remainingFilterCondition = extraction.inputFilterConditionPruned)) then none
  else some ⟨left,right,extraction.simplifiedJoinType,extraction.joinCondition,extraction.remainingFilterCondition⟩

end Rule

section Meaning
variable (V : Type)

/-- The values of expressions and the truth of predicates, from the values of their columns. -/
structure Meaning (V σ τ : Type) where
  value : σ → List (Option V) → Option V
  truth : τ → List (Option V) → Option Bool

variable {V} [LT V] [LE V] [DecidableEq V] [DecidableLT V] [DecidableLE V] (meaning : Meaning V σ τ)

abbrev Row (V : Type) := List (Option V)

def column (row : Row V) (i : Nat) : Option V := row[i]?.join

def truthOn (row : Row V) : Leaf σ τ → Option Bool :=
  truthOf (fun applied => meaning.value applied.symbol (applied.columns.map (column row)))
    fun applied => meaning.truth applied.symbol (applied.columns.map (column row))

def holds (condition : Condition σ τ) (row : Row V) : Bool := eval (truthOn meaning row) condition = some true

def generatesNullsOnLeft : JoinRelType → Bool
  | .right => true
  | .full => true
  | _ => false

def generatesNullsOnRight : JoinRelType → Bool
  | .left => true
  | .full => true
  | _ => false

def joinRows (joinRel : JoinRel σ τ) (left right : List (Row V)) : List (Row V) :=
  let on := fun l r => holds meaning joinRel.condition (l ++ r)
  match joinRel.joinType with
  | .semi => left.filter fun l => right.any (on l)
  | .anti => left.filter fun l => !right.any (on l)
  | joinType => outerJoin on (· ++ ·) (· ++ List.replicate joinRel.nFieldsRight none) (List.replicate joinRel.nFieldsLeft none ++ ·)
      (generatesNullsOnRight joinType) (generatesNullsOnLeft joinType) left right

def filterRows (filterRel : Option (Condition σ τ)) (rows : List (Row V)) : List (Row V) :=
  rows.filter (holds meaning (filterRel.getD (.literal true)))

def Rewrite.rows (rewrite : Rewrite σ τ) (joinRel : JoinRel σ τ) (left right : List (Row V)) : List (Row V) :=
  (joinRows meaning {joinRel with joinType := rewrite.joinType, condition := rewrite.joinCondition}
    (left.filter (holds meaning rewrite.leftFilter)) (right.filter (holds meaning rewrite.rightFilter))).filter
      (holds meaning rewrite.remainingFilter)

end Meaning

section Truth
variable {V : Type} [LT V] [LE V] [DecidableEq V] [DecidableLT V] [DecidableLE V] {meaning : Meaning V σ τ}
  {condition : Condition σ τ} {row other : Row V}

theorem holds_iff : holds meaning condition row = true ↔ Holds (truthOn meaning row) condition := decide_eq_true_iff

theorem truthOn_shiftLeaf {f : Nat → Nat} {leaf : Leaf σ τ}
    (same : ∀ i ∈ inputs leaf, column row (f i) = column other i) :
    truthOn meaning row (shiftLeaf f leaf) = truthOn meaning other leaf := by
  have columns : ∀ {ρ : Type} (applied : Applied ρ), (∀ i ∈ applied.columns, column row (f i) = column other i) →
      (applied.shift f).columns.map (column row) = applied.columns.map (column other) := by
    intro ρ applied each
    rw [Applied.shift,List.map_map]
    exact List.map_congr_left each
  cases leaf with
  | comparison compared =>
    have left := columns compared.left fun i inside => same i (List.mem_append_left _ inside)
    have right := columns compared.right fun i inside => same i (List.mem_append_right _ inside)
    simp only [truthOn,shiftLeaf,truthOf,left,right]
    rfl
  | other predicate =>
    have all := columns predicate same
    simp only [truthOn,shiftLeaf,truthOf,all]
    rfl

theorem inputsOf_junction {kind : Connective} (operands : List (Condition σ τ)) :
    inputsOf inputs (.junction kind operands) = operands.flatMap (inputsOf inputs) := by
  rw [inputsOf]
  induction operands with
  | nil => rfl
  | cons operand operands ih => rw [inputsOfAll,ih,List.flatMap_cons]

theorem eval_shift {f : Nat → Nat} (same : ∀ i ∈ inputsOf inputs condition, column row (f i) = column other i) :
    eval (truthOn meaning row) (mapLeaves (shiftLeaf f) condition) = eval (truthOn meaning other) condition := by
  induction condition using RexFilter.ind with
  | junction kind operands each =>
    rw [inputsOf_junction] at same
    rw [mapLeaves_junction,eval_junction,eval_junction,List.map_map]
    congr 1
    apply List.map_congr_left
    intro operand inside
    exact each operand inside fun i there => same i (List.mem_flatMap.mpr ⟨operand,inside,there⟩)
  | not operand ih => rw [mapLeaves,eval,ih same,eval]
  | leaf predicate => exact truthOn_shiftLeaf same
  | literal value => rfl

theorem inputsOf_of_madeOf {targetBitSet : List Nat}
    (made : MadeOf (fun leaf => contains targetBitSet leaf = true) condition) :
    ∀ i ∈ inputsOf inputs condition, i ∈ targetBitSet := by
  have alone : ∀ node : Condition σ τ, EnhancedFilterJoinExtractor.leaves node = [node] →
      MadeOf (fun leaf => contains targetBitSet leaf = true) node → ∀ i ∈ inputsOf inputs node, i ∈ targetBitSet := by
    intro node single each i inside
    rcases each node (by rw [single]; exact List.mem_singleton_self node) with within | ⟨value,rfl⟩
    · exact of_decide_eq_true within inside
    · exact absurd inside List.not_mem_nil
  induction condition using RexFilter.ind with
  | junction kind operands each =>
    rw [inputsOf_junction]
    intro i inside
    obtain ⟨operand,there,input⟩ := List.mem_flatMap.mp inside
    refine each operand there ?_ i input
    intro leaf below
    apply made leaf
    rw [EnhancedFilterJoinExtractor.leaves_junction]
    exact List.mem_flatMap.mpr ⟨operand,there,below⟩
  | not operand => exact alone _ rfl made
  | leaf predicate => exact alone _ rfl made
  | literal value => exact alone _ rfl made

variable {joinRel : JoinRel σ τ} {l r : Row V}

theorem holds_left (width : l.length = joinRel.nFieldsLeft)
    (made : MadeOf (fun leaf => contains (leftBitSet joinRel) leaf = true) condition) :
    holds meaning (shiftFilter 0 joinRel.nFieldsLeft 0 condition) l = holds meaning condition (l ++ r) := by
  unfold holds shiftFilter
  rw [eval_shift]
  intro i inside
  have bound := List.mem_range.mp (inputsOf_of_madeOf made i inside)
  rw [if_pos ⟨Nat.zero_le i,bound⟩,Int.add_zero,Int.toNat_natCast,column,column,
    List.getElem?_append_left (width.symm ▸ bound)]

theorem holds_right (width : l.length = joinRel.nFieldsLeft)
    (made : MadeOf (fun leaf => contains (rightBitSet joinRel) leaf = true) condition) :
    holds meaning (shiftFilter joinRel.nFieldsLeft (joinRel.nFieldsLeft+joinRel.nFieldsRight) (-joinRel.nFieldsLeft) condition) r =
      holds meaning condition (l ++ r) := by
  unfold holds shiftFilter
  rw [eval_shift]
  intro i inside
  obtain ⟨from_,bound⟩ := List.mem_range'_1.mp (inputsOf_of_madeOf made i inside)
  have place : ((i : Int)+(-joinRel.nFieldsLeft)).toNat = i-joinRel.nFieldsLeft := by omega
  rw [if_pos ⟨from_,bound⟩,place,column,column,List.getElem?_append_right (width.symm ▸ from_),width]

variable [DecidableEq σ] [DecidableEq τ] {metadata : Metadata σ τ}

theorem holds_prunePushdown {known : List (Condition σ τ)}
    (expands : ∀ leaf expanded, metadata.expandSearch leaf = some expanded →
      eval (truthOn meaning row) expanded = truthOn meaning row leaf)
    (all : ∀ pushedFilter ∈ known, eval (truthOn meaning row) pushedFilter = some true) :
    holds meaning (prunePushdown inputs metadata.expandSearch condition known) row = holds meaning condition row := by
  rw [Bool.eq_iff_iff,holds_iff,holds_iff,prunePushdown,EnhancedFilterJoinExtractor.holds_composeConjunction,
    EnhancedFilterJoinExtractor.holds_conjunctions]
  constructor
  · intro kept conjunct inside
    by_cases pushed : known.any (isPushed inputs metadata.expandSearch conjunct) = true
    · obtain ⟨pushedFilter,there,gives⟩ := List.any_eq_true.mp pushed
      exact eval_of_isPushed gives expands (all pushedFilter there)
    · exact kept conjunct (List.mem_filter.mpr ⟨inside,by rw [Bool.not_eq_true] at pushed; rw [pushed]; rfl⟩)
  · exact fun each conjunct inside => each conjunct (List.mem_of_mem_filter inside)

theorem holds_pruned (resolves : ResolvesToLeaf (conditionNnf metadata condition)) :
    holds meaning (pruneSuperset true (conditionNnf metadata condition)) row = holds meaning condition row := by
  unfold holds
  rw [eval_pruneSuperset_toLeaf resolves,conditionNnf,eval_toNnf,canonicalizeExpression,eval_mapLeaves]
  have same : truthOn meaning row ∘ canonicalizePredicate (fun applied => applied.columns.toFinset) metadata.compareTo =
      truthOn meaning row := by
    funext predicate
    rw [Function.comp_apply,truthOn,truthOf_canonicalizePredicate]
  rw [same]

end Truth

section Extraction
variable {β : Type} [DecidableEq β] {leafValidator predicate : RexFilter β → Bool} {pushToJoin : Bool}
    {filter : RexFilter β}
open EnhancedFilterJoinExtractor in
theorem holds_extract {assignment : β → Option Bool}
    (extractable : Extractable leafValidator predicate pushToJoin filter) :
    Holds assignment filter ↔
    Holds assignment (EnhancedFilterJoinExtractor.extract leafValidator predicate pushToJoin filter).1 ∧
      Holds assignment (EnhancedFilterJoinExtractor.extract leafValidator predicate pushToJoin filter).2 := by
  have atom (node : RexFilter β) : Holds assignment node ↔
      Holds assignment (extractLeaf leafValidator predicate pushToJoin true node).1 ∧
      Holds assignment (extractLeaf leafValidator predicate pushToJoin true node).2 := by
    unfold extractLeaf
    split
    next => exact ⟨fun holds => ⟨holds,rfl⟩,And.left⟩
    next => exact ⟨fun holds => ⟨rfl,holds⟩,And.right⟩
  cases filter with
  | junction kind operands =>
    obtain ⟨below,here⟩ := extractable kind operands rfl
    exact extractCall_fits here fun child inside => known_of_keepsTruthBelow (below child inside)
  | not operand => exact atom _
  | leaf predicate' => exact atom _
  | literal value => exact atom _

open EnhancedFilterJoinExtractor in
theorem madeOf_extract : MadeOf (fun leaf => leafValidator leaf = true)
    (EnhancedFilterJoinExtractor.extract leafValidator predicate pushToJoin filter).1 := by
  cases filter with
  | junction kind operands => exact madeOf_extractCall (List.forall_mem_map.mpr fun child _ => madeOf_extractBelow child)
  | not operand => exact @madeOf_extractLeaf _ leafValidator predicate pushToJoin true (.not operand) rfl
  | leaf predicate' => exact @madeOf_extractLeaf _ leafValidator predicate pushToJoin true (.leaf predicate') rfl
  | literal value => exact @madeOf_extractLeaf _ leafValidator predicate pushToJoin true (.literal value) rfl

end Extraction

section Preserved
variable {V : Type} [LT V] [LE V] [DecidableEq V] [DecidableLT V] [DecidableLE V] [DecidableEq σ] [DecidableEq τ]

/-- The join type that filters above leave: nulls are no longer made on a side only if some filter takes no row on
which that side is null. -/
structure SimplifiesJoin (meaning : Meaning V σ τ) (metadata : Metadata σ τ) (joinRel : JoinRel σ τ) : Prop where
  outer : ∀ filters joinType, metadata.simplifyJoin filters joinType = joinType ∨
    (joinType ∈ [JoinRelType.left,.right,.full] ∧ metadata.simplifyJoin filters joinType ∈ [JoinRelType.inner,.left,
      .right,.full])
  left : ∀ filters joinType, generatesNullsOnLeft
    (metadata.simplifyJoin filters joinType) ≠ generatesNullsOnLeft joinType →
    ∃ filter ∈ filters, ∀ r : Row V, holds meaning filter (List.replicate joinRel.nFieldsLeft none ++ r) = false
  right : ∀ filters joinType, generatesNullsOnRight
    (metadata.simplifyJoin filters joinType) ≠ generatesNullsOnRight joinType →
    ∃ filter ∈ filters, ∀ l : Row V, l.length = joinRel.nFieldsLeft →
      holds meaning filter (l ++ List.replicate joinRel.nFieldsRight none) = false

/-- What the optimizer is told is right for the rows of the inputs. -/
structure Informed (meaning : Meaning V σ τ) (metadata : Metadata σ τ) (joinRel : JoinRel σ τ)
    (left right : List (Row V)) : Prop where
  lefts : ∀ l ∈ left, l.length = joinRel.nFieldsLeft
  simplifies : SimplifiesJoin meaning metadata joinRel
  expands : ∀ (row : Row V) leaf expanded, metadata.expandSearch leaf = some expanded →
    eval (truthOn meaning row) expanded = truthOn meaning row leaf
  pulledUpLeft : ∀ l ∈ left, ∀ known ∈ metadata.pulledUpLeft, eval (truthOn meaning l) known = some true
  pulledUpRight : ∀ r ∈ right, ∀ known ∈ metadata.pulledUpRight, eval (truthOn meaning r) known = some true

variable (metadata : Metadata σ τ) (filterRel : Option (Condition σ τ)) (joinRel : JoinRel σ τ)

/-- Neither pruning nor extracting goes wrong on the parts of the conditions that the join type lets through. -/
structure Separable : Prop where
  filter : ResolvesToLeaf (conditionNnf metadata (filterRel.getD (.literal true)))
  join : ResolvesToLeaf (conditionNnf metadata joinRel.condition)
  inner : simplifiedJoinType metadata filterRel joinRel = .inner →
    Prunable false (composeConDisjunction .and [inputFilterConditionPruned metadata filterRel,
      inputJoinConditionPruned metadata joinRel]) ∧
    Extractable (fun leafFilter => !contains (leftBitSet joinRel) leafFilter && !contains
      (rightBitSet joinRel) leafFilter)
      (predicate metadata .inner) true (inputConditionPruned metadata filterRel joinRel) ∧
    Extractable (contains (leftBitSet joinRel)) (predicate metadata .inner) false
      (extractJoinCondition metadata joinRel (inputConditionPruned metadata filterRel joinRel) .inner).2 ∧
    Extractable (contains (rightBitSet joinRel)) (predicate metadata .inner) false
      (extractPushdownPredicates metadata (extractJoinCondition metadata joinRel (inputConditionPruned metadata filterRel joinRel) .inner).2
        .inner (leftBitSet joinRel)).2
  left : simplifiedJoinType metadata filterRel joinRel = .left →
    Extractable (contains (leftBitSet joinRel)) (predicate metadata .left) false
      (inputFilterConditionPruned metadata filterRel) ∧
    Extractable (contains (rightBitSet joinRel)) (predicate metadata .left) false
      (inputJoinConditionPruned metadata joinRel)
  right : simplifiedJoinType metadata filterRel joinRel = .right →
    Extractable (contains (leftBitSet joinRel)) (predicate metadata .right) false
      (inputJoinConditionPruned metadata joinRel) ∧
    Extractable (contains (rightBitSet joinRel)) (predicate metadata .right) false
      (inputFilterConditionPruned metadata filterRel)

variable {meaning : Meaning V σ τ} {metadata filterRel joinRel} {left right : List (Row V)}

omit [DecidableEq σ] [DecidableEq τ] in
theorem joinRows_eq {joinType : JoinRelType} (pads : joinType ∈ [JoinRelType.inner,.left,.right,.full])
    {condition : Condition σ τ} :
    joinRows meaning {joinRel with joinType, condition} left right =
      outerJoin (fun l r => holds meaning condition (l ++ r)) (· ++ ·) (· ++ List.replicate joinRel.nFieldsRight none)
        (List.replicate joinRel.nFieldsLeft none ++ ·) (generatesNullsOnRight joinType)
        (generatesNullsOnLeft joinType) left right := by
  cases joinType with
  | semi => simp at pads
  | anti => simp at pads
  | _ => rfl

omit [DecidableEq σ] [DecidableEq τ] in
theorem holds_of_conjunct {filter condition : Condition σ τ} {row : Row V}
    (inside : filter ∈ conDisjunctions .and condition)
    (never : holds meaning filter row = false) : holds meaning condition row = false := by
  rw [Bool.eq_false_iff] at never ⊢
  rw [Ne,holds_iff] at never ⊢
  exact fun all => never (EnhancedFilterJoinExtractor.holds_conjunctions.mp all filter inside)

theorem filterRows_simplified (informed : Informed meaning metadata joinRel left right)
    (separable : Separable metadata filterRel joinRel)
    (pads : simplifiedJoinType metadata filterRel joinRel ∈ [JoinRelType.inner,.left,.right,.full]) :
    filterRows meaning filterRel (joinRows meaning joinRel left right) =
      (outerJoin (fun l r => holds meaning (inputJoinConditionPruned metadata joinRel) (l ++ r)) (· ++ ·)
        (· ++ List.replicate joinRel.nFieldsRight none) (List.replicate joinRel.nFieldsLeft none ++ ·)
        (generatesNullsOnRight (simplifiedJoinType metadata filterRel joinRel))
        (generatesNullsOnLeft (simplifiedJoinType metadata filterRel joinRel)) left right).filter
          (holds meaning (inputFilterConditionPruned metadata filterRel)) := by
  have conditions : (fun l r : Row V => holds meaning (inputJoinConditionPruned metadata joinRel) (l ++ r)) =
      fun l r => holds meaning joinRel.condition (l ++ r) := by
    funext l r
    exact holds_pruned separable.join
  have filters : holds meaning (inputFilterConditionPruned metadata filterRel) = holds meaning
      (filterRel.getD (.literal true)) := by
    funext row
    exact holds_pruned separable.filter
  rw [conditions,filterRows,← filters]
  have given : joinRel.joinType ∈ [JoinRelType.inner,.left,.right,.full] := by
    unfold simplifiedJoinType at pads
    dsimp only at pads
    split at pads
    · rcases informed.simplifies.outer (conDisjunctions .and
        (inputFilterConditionPruned metadata filterRel)) joinRel.joinType with same | ⟨outer,_⟩
      · rwa [same] at pads
      · exact List.mem_cons_of_mem _ outer
    · exact pads
  rw [joinRows_eq given]
  apply filter_cancel
  · intro differ l inside
    unfold simplifiedJoinType at differ
    dsimp only at differ
    split at differ
    · obtain ⟨filter,member,never⟩ := informed.simplifies.right _ _ differ
      exact holds_of_conjunct member (never l (informed.lefts l inside))
    · exact absurd rfl differ
  · intro differ r inside
    unfold simplifiedJoinType at differ
    dsimp only at differ
    split at differ
    · obtain ⟨filter,member,never⟩ := informed.simplifies.left _ _ differ
      exact holds_of_conjunct member (never r)
    · exact absurd rfl differ

theorem holds_leftPushed (informed : Informed meaning metadata joinRel left right) {pushed : Condition σ τ}
    (made : MadeOf (fun leaf => contains (leftBitSet joinRel) leaf = true) pushed) {l : Row V} (inside : l ∈ left)
    (r : Row V) :
    holds meaning (leftPushdownPredicatePruned metadata joinRel pushed) l = holds meaning pushed (l ++ r) := by
  rw [leftPushdownPredicatePruned,holds_prunePushdown (informed.expands l) (informed.pulledUpLeft l inside),
    holds_left (informed.lefts l inside) made]

theorem holds_rightPushed (informed : Informed meaning metadata joinRel left right) {pushed : Condition σ τ}
    (made : MadeOf (fun leaf => contains (rightBitSet joinRel) leaf = true) pushed) {l r : Row V}
    (width : l.length = joinRel.nFieldsLeft) (inside : r ∈ right) :
    holds meaning (rightPushdownPredicatePruned metadata joinRel pushed) r = holds meaning pushed (l ++ r) := by
  rw [rightPushdownPredicatePruned,holds_prunePushdown (informed.expands r) (informed.pulledUpRight r inside),
    holds_right width made]

omit [DecidableEq σ] [DecidableEq τ] in
theorem holds_and {first second whole : Condition σ τ} {row : Row V} (split : Holds (truthOn meaning row) whole ↔
    Holds (truthOn meaning row) first ∧ Holds (truthOn meaning row) second) :
    holds meaning whole row = (holds meaning first row && holds meaning second row) := by
  rw [Bool.eq_iff_iff,Bool.and_eq_true,holds_iff,holds_iff,holds_iff,split]

omit V [LT V] [LE V] [DecidableEq V] [DecidableLT V] [DecidableLE V] in
theorem madeOf_pushed {inputFilter : Condition σ τ} {joinType : JoinRelType} {targetBitSet : List Nat} :
    MadeOf (fun leaf => contains targetBitSet leaf = true)
    (extractPushdownPredicates metadata inputFilter joinType targetBitSet).1 :=
  madeOf_extract

theorem holds_pushed {inputFilter : Condition σ τ} {joinType : JoinRelType} {targetBitSet : List Nat} {row : Row V}
    (extractable : Extractable (contains targetBitSet) (predicate metadata joinType) false inputFilter) :
    holds meaning inputFilter row =
    (holds meaning (extractPushdownPredicates metadata inputFilter joinType targetBitSet).1 row &&
      holds meaning (extractPushdownPredicates metadata inputFilter joinType targetBitSet).2 row) :=
  holds_and (holds_extract extractable)

variable (metadata joinRel) in
def rewriteOf (extraction : EnhancedFilterJoinExtraction σ τ) : Rewrite σ τ :=
  ⟨leftPushdownPredicatePruned metadata joinRel extraction.leftPushdownPredicate,
    rightPushdownPredicatePruned metadata joinRel extraction.rightPushdownPredicate,
    extraction.simplifiedJoinType,extraction.joinCondition,extraction.remainingFilterCondition⟩

theorem rewriteOf_doMatch {rewrite : Rewrite σ τ} (matched : doMatch metadata filterRel joinRel = some rewrite) :
    ∃ extraction, extract metadata filterRel joinRel = some extraction ∧
    rewrite = rewriteOf metadata joinRel extraction := by
  obtain ⟨extraction,found,made⟩ := Option.bind_eq_some_iff.mp matched
  dsimp only at made
  split at made
  · cases made
  · exact ⟨extraction,found,(Option.some.inj made).symm⟩

theorem extractInnerJoin_rows (informed : Informed meaning metadata joinRel left right)
    (separable : Separable metadata filterRel joinRel) (type : simplifiedJoinType metadata filterRel joinRel = .inner) :
    (rewriteOf metadata joinRel (extractInnerJoin metadata filterRel joinRel)).rows meaning joinRel left right =
      (outerJoin (fun l r => holds meaning (inputJoinConditionPruned metadata joinRel) (l ++ r)) (· ++ ·)
        (· ++ List.replicate joinRel.nFieldsRight none)
        (List.replicate joinRel.nFieldsLeft none ++ ·) false false left right).filter
          (holds meaning (inputFilterConditionPruned metadata filterRel)) := by
  obtain ⟨prunes,joins,lefts,rights⟩ := separable.inner type
  rw [Rewrite.rows,joinRows_eq (by simp [rewriteOf,extractInnerJoin])]
  symm
  apply filter_inner
  intro l inLeft r inRight
  rw [rewriteOf]
  dsimp only [extractInnerJoin]
  rw [holds_leftPushed informed madeOf_pushed inLeft r,
    holds_rightPushed informed madeOf_pushed (informed.lefts l inLeft) inRight]
  have whole : holds meaning (inputConditionPruned metadata filterRel joinRel) (l ++ r) =
      (holds meaning (inputFilterConditionPruned metadata filterRel) (l ++ r) &&
        holds meaning (inputJoinConditionPruned metadata joinRel) (l ++ r)) := by
    apply holds_and
    rw [inputConditionPruned,EnhancedFilterJoinExtractor.holds_pruneSuperset prunes,
      EnhancedFilterJoinExtractor.holds_composeConjunction]
    simp
  have join : holds meaning (inputConditionPruned metadata filterRel joinRel) (l ++ r) =
      (holds meaning (extractJoinCondition metadata joinRel (inputConditionPruned metadata filterRel joinRel) .inner).1 (l ++ r) &&
        holds meaning (extractJoinCondition metadata joinRel
          (inputConditionPruned metadata filterRel joinRel) .inner).2 (l ++ r)) :=
    holds_and (holds_extract joins)
  rw [← Bool.and_eq_true,Bool.and_comm,← whole,join,holds_pushed lefts,holds_pushed rights]
  simp only [Bool.and_eq_true]
  tauto

theorem extractLeftOuterJoin_rows (informed : Informed meaning metadata joinRel left right)
    (separable : Separable metadata filterRel joinRel) (type : simplifiedJoinType metadata filterRel joinRel = .left) :
    (rewriteOf metadata joinRel (extractLeftOuterJoin metadata filterRel joinRel)).rows meaning joinRel left right =
      (outerJoin (fun l r => holds meaning (inputJoinConditionPruned metadata joinRel) (l ++ r)) (· ++ ·)
        (· ++ List.replicate joinRel.nFieldsRight none)
        (List.replicate joinRel.nFieldsLeft none ++ ·) true false left right).filter
          (holds meaning (inputFilterConditionPruned metadata filterRel)) := by
  obtain ⟨lefts,rights⟩ := separable.left type
  rw [Rewrite.rows,joinRows_eq (by simp [rewriteOf,extractLeftOuterJoin])]
  symm
  apply filter_left
  · intro l inLeft r inRight
    rw [rewriteOf]
    dsimp only [extractLeftOuterJoin]
    rw [holds_rightPushed informed madeOf_pushed (informed.lefts l inLeft) inRight]
    exact holds_pushed rights
  · intro l inLeft r _
    rw [rewriteOf]
    dsimp only [extractLeftOuterJoin]
    rw [holds_leftPushed informed madeOf_pushed inLeft r]
    exact holds_pushed lefts
  · intro l inLeft
    rw [rewriteOf]
    dsimp only [extractLeftOuterJoin]
    rw [holds_leftPushed informed madeOf_pushed inLeft (List.replicate joinRel.nFieldsRight none)]
    exact holds_pushed lefts

theorem extractRightOuterJoin_rows (informed : Informed meaning metadata joinRel left right)
    (separable : Separable metadata filterRel joinRel) (type : simplifiedJoinType metadata filterRel joinRel = .right) :
    (rewriteOf metadata joinRel (extractRightOuterJoin metadata filterRel joinRel)).rows meaning joinRel left right =
      (outerJoin (fun l r => holds meaning (inputJoinConditionPruned metadata joinRel) (l ++ r)) (· ++ ·)
        (· ++ List.replicate joinRel.nFieldsRight none)
        (List.replicate joinRel.nFieldsLeft none ++ ·) false true left right).filter
          (holds meaning (inputFilterConditionPruned metadata filterRel)) := by
  obtain ⟨lefts,rights⟩ := separable.right type
  rw [Rewrite.rows,joinRows_eq (by simp [rewriteOf,extractRightOuterJoin])]
  symm
  apply filter_right
  · intro l inLeft r _
    rw [rewriteOf]
    dsimp only [extractRightOuterJoin]
    rw [holds_leftPushed informed madeOf_pushed inLeft r]
    exact holds_pushed lefts
  · intro l inLeft r inRight
    rw [rewriteOf]
    dsimp only [extractRightOuterJoin]
    rw [holds_rightPushed informed madeOf_pushed (informed.lefts l inLeft) inRight]
    exact holds_pushed rights
  · intro r inRight
    rw [rewriteOf]
    dsimp only [extractRightOuterJoin]
    rw [holds_rightPushed informed madeOf_pushed (List.length_replicate : (List.replicate joinRel.nFieldsLeft (none : Option V)).length = _) inRight]
    exact holds_pushed rights

theorem extractFullOuterJoin_rows (informed : Informed meaning metadata joinRel left right) :
    (rewriteOf metadata joinRel (extractFullOuterJoin metadata filterRel joinRel)).rows meaning joinRel left right =
      (outerJoin (fun l r => holds meaning (inputJoinConditionPruned metadata joinRel) (l ++ r)) (· ++ ·)
        (· ++ List.replicate joinRel.nFieldsRight none)
        (List.replicate joinRel.nFieldsLeft none ++ ·) true true left right).filter
          (holds meaning (inputFilterConditionPruned metadata filterRel)) := by
  have made : ∀ good : Condition σ τ → Prop, MadeOf good (.literal true) := fun _ => MadeOf.literal true
  have lefts : left.filter (holds meaning (leftPushdownPredicatePruned metadata joinRel (.literal true))) = left := by
    rw [List.filter_eq_self]
    intro l inside
    rw [holds_leftPushed informed (made _) inside []]
    rfl
  have rights : right.filter (holds meaning (rightPushdownPredicatePruned metadata joinRel (.literal true))) =
      right := by
    rw [List.filter_eq_self]
    intro r inside
    rw [holds_rightPushed informed (made _)
      (List.length_replicate : (List.replicate joinRel.nFieldsLeft (none : Option V)).length = _) inside]
    rfl
  rw [Rewrite.rows,joinRows_eq (by simp [rewriteOf,extractFullOuterJoin])]
  rw [rewriteOf]
  dsimp only [extractFullOuterJoin]
  rw [lefts,rights]
  rfl

/-- A rewritten filter and join gives the rows of the filter above the join. -/
theorem doMatch_preserves {rewrite : Rewrite σ τ} (informed : Informed meaning metadata joinRel left right)
    (separable : Separable metadata filterRel joinRel) (matched : doMatch metadata filterRel joinRel = some rewrite) :
    rewrite.rows meaning joinRel left right = filterRows meaning filterRel (joinRows meaning joinRel left right) := by
  obtain ⟨extraction,found,rfl⟩ := rewriteOf_doMatch matched
  unfold extract at found
  have same := fun pads : simplifiedJoinType metadata filterRel joinRel ∈ _ => filterRows_simplified informed separable pads
  cases type : simplifiedJoinType metadata filterRel joinRel with
  | inner =>
    rw [type] at found same
    obtain rfl := Option.some.inj found
    rw [same (by simp)]
    exact extractInnerJoin_rows informed separable type
  | left =>
    rw [type] at found same
    obtain rfl := Option.some.inj found
    rw [same (by simp)]
    exact extractLeftOuterJoin_rows informed separable type
  | right =>
    rw [type] at found same
    obtain rfl := Option.some.inj found
    rw [same (by simp)]
    exact extractRightOuterJoin_rows informed separable type
  | full =>
    rw [type] at found same
    obtain rfl := Option.some.inj found
    rw [same (by simp)]
    exact extractFullOuterJoin_rows informed
  | semi =>
    rw [type] at found
    cases found
  | anti =>
    rw [type] at found
    cases found

end Preserved
section Example

def notNull (column : Nat) : Condition Unit Unit := .leaf (.other ⟨(),[column]⟩)

def equalKeys : Condition Unit Unit := .leaf (.comparison ⟨.equals,⟨(),[0]⟩,⟨(),[1]⟩,rfl⟩)

def columnMeaning : Meaning Nat Unit Unit := ⟨fun _ values => values.head?.join,
      fun _ values => some (values.all Option.isSome)⟩

def filteredJoin : JoinRel Unit Unit := ⟨.left,equalKeys,1,2⟩

/-- A left join is an inner one if the last column must not be null. -/
def outerToInner : Metadata Unit Unit where
  compareTo _ _ := 0
  simplifyJoin filters joinType := if joinType = .left ∧ notNull 2 ∈ filters then .inner else joinType
  equalIsNotDistinctFrom _ := true
  pulledUpLeft := []
  pulledUpRight := []
  expandSearch _ := none

theorem conditionNnf_leaf [DecidableEq σ] [DecidableEq τ] (predicate : Leaf σ τ) (metadata : Metadata σ τ) :
    conditionNnf metadata (.leaf predicate) =
    .leaf (canonicalizePredicate (fun applied => applied.columns.toFinset) metadata.compareTo predicate) := by
  rw [conditionNnf,canonicalizeExpression,mapLeaves,toNnf]

theorem inputFilter_notNull : inputFilterConditionPruned outerToInner (some (notNull 2)) = notNull 2 := by
  rw [inputFilterConditionPruned,Option.getD_some,notNull,conditionNnf_leaf]
  decide

theorem inputJoin_equalKeys : inputJoinConditionPruned outerToInner filteredJoin = equalKeys := by
  rw [inputJoinConditionPruned,filteredJoin,equalKeys,conditionNnf_leaf]
  decide

theorem inputCondition_both :
    inputConditionPruned outerToInner (some (notNull 2)) filteredJoin = .junction .and [notNull 2,equalKeys] := by
  rw [inputConditionPruned,inputFilter_notNull,inputJoin_equalKeys]
  decide

theorem simplifiedJoinType_inner : simplifiedJoinType outerToInner (some (notNull 2)) filteredJoin = .inner := by
  rw [simplifiedJoinType,inputFilter_notNull]
  decide

theorem extract_pushes : extract outerToInner (some (notNull 2)) filteredJoin =
    some ⟨notNull 2,equalKeys,equalKeys,.literal true,notNull 2,.literal true,.inner⟩ := by
  rw [extract,simplifiedJoinType_inner]
  change some (extractInnerJoin outerToInner (some (notNull 2)) filteredJoin) = _
  rw [extractInnerJoin,inputCondition_both,inputFilter_notNull,inputJoin_equalKeys]
  decide

theorem doMatch_pushes : doMatch outerToInner (some (notNull 2)) filteredJoin =
    some ⟨.literal true,notNull 1,.inner,equalKeys,.literal true⟩ := by
  rw [doMatch,extract_pushes]
  decide

theorem holds_notNull {row : Row Nat} {i : Nat} : holds columnMeaning (notNull i) row = (column row i).isSome := by
  cases known : column row i <;> simp [holds,notNull,eval,truthOn,truthOf,columnMeaning,known]

theorem outerToInner_simplifies : SimplifiesJoin columnMeaning outerToInner filteredJoin := by
  refine ⟨?_,?_,?_⟩
  · intro filters joinType
    rw [outerToInner]
    dsimp only
    split
    next met => exact .inr ⟨by simp [met.1],by simp⟩
    next => exact .inl rfl
  · intro filters joinType differ
    rw [outerToInner] at differ
    dsimp only at differ
    split at differ
    next met => exact absurd (by rw [met.1]; rfl) differ
    next => exact absurd rfl differ
  · intro filters joinType differ
    rw [outerToInner] at differ
    dsimp only at differ
    split at differ
    next met =>
      refine ⟨notNull 2,met.2,fun l width => ?_⟩
      rw [holds_notNull,column,List.getElem?_append_right (by rw [width]; decide),width]
      rfl
    next => exact absurd rfl differ

theorem outerToInner_separable : Separable outerToInner (some (notNull 2)) filteredJoin := by
  have atom {leafValidator predicate : Condition Unit Unit → Bool} {pushToJoin : Bool} (leaf : Leaf Unit Unit) :
      Extractable leafValidator predicate pushToJoin (.leaf leaf) := by
    intro kind operands same
    cases same
  have both : composeConDisjunction .and [notNull 2,equalKeys] = .junction .and [notNull 2,equalKeys] := by decide
  have join : (extractJoinCondition outerToInner filteredJoin (.junction .and [notNull 2,equalKeys]) .inner).2 =
      notNull 2 := by decide
  have below : (extractPushdownPredicates outerToInner (notNull 2) .inner (leftBitSet filteredJoin)).2 =
      notNull 2 := by decide
  have others : simplifiedJoinType outerToInner (some (notNull 2)) filteredJoin ∉ [JoinRelType.left,.right] := by
    rw [simplifiedJoinType_inner]
    decide
  refine ⟨?_,?_,fun _ => ⟨?_,?_,?_,?_⟩,fun type => ?_,fun type => ?_⟩
  · rw [Option.getD_some,notNull,conditionNnf_leaf]
    exact .leaf _
  · rw [filteredJoin,equalKeys,conditionNnf_leaf]
    exact .leaf _
  · rw [inputFilter_notNull,inputJoin_equalKeys]
    intro kind operands same
    obtain ⟨rfl,rfl⟩ : Connective.and = kind ∧ [notNull 2,equalKeys] = operands := by
      rw [both] at same
      injection same with kinds lists
      exact ⟨kinds,lists⟩
    decide
  · rw [inputCondition_both]
    intro kind operands same
    injection same with kinds lists
    subst kinds lists
    have listed (child : Condition Unit Unit) (inside : child ∈ conDisjunctions .and
        (.junction .and [notNull 2,equalKeys])) :
        child = notNull 2 ∨ child = equalKeys := by
      have kept : conDisjunctions .and (.junction .and [notNull 2,equalKeys]) = [notNull 2,equalKeys] := rfl
      rwa [kept,List.mem_pair] at inside
    refine ⟨fun child inside => ?_,fun _ child inside refused => ?_,.inr ⟨?_,?_⟩⟩
    · obtain rfl | rfl := listed child inside
      · exact .leaf _
      · exact .leaf _
    · exact absurd refused.2 Bool.noConfusion
    · intro kind operands same
      cases same
    · intro kind operands same
      cases same
  · rw [inputCondition_both,join]
    exact atom _
  · rw [inputCondition_both,join,below]
    exact atom _
  · exact absurd (by rw [type]; simp) others
  · exact absurd (by rw [type]; simp) others

/-- What is asked of the last column turns the join into an inner one and goes to its right input. -/
theorem right_filter_pushed :
    Rewrite.rows columnMeaning ⟨.literal true,notNull 1,.inner,equalKeys,.literal true⟩ filteredJoin
        [[some 1],[some 2]] [[some 1,some 7],[some 2,none]] =
      filterRows columnMeaning (some (notNull 2))
      (joinRows columnMeaning filteredJoin [[some 1],[some 2]] [[some 1,some 7],[some 2,none]]) := by
  have widths : ∀ l ∈ [[some 1],[some 2]], (l : Row Nat).length = filteredJoin.nFieldsLeft := by decide
  have expands : ∀ (row : Row Nat) leaf expanded, outerToInner.expandSearch leaf = some expanded →
      eval (truthOn columnMeaning row) expanded = truthOn columnMeaning row leaf := by
    intro row leaf expanded never
    cases never
  have nothing : ∀ {rows : List (Row Nat)}, ∀ row ∈ rows, ∀ known ∈ ([] : List (Condition Unit Unit)),
      eval (truthOn columnMeaning row) known = some true := fun _ _ _ inside => absurd inside List.not_mem_nil
  exact doMatch_preserves ⟨widths,outerToInner_simplifies,expands,nothing,nothing⟩ outerToInner_separable doMatch_pushes

end Example
end Hermes.Calcite.EnhancedFilterJoinRule
