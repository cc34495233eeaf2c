import Hermes.Tuple
import Hermes.Library.PredicateTree
import Hermes.Library.Fallible
import Mathlib.Data.String.Basic
import Mathlib.Algebra.Order.Ring.Rat

/-! Pruning partitions by the minima and maxima of their columns.
A predicate is pruned by one column after the other, in the order in which the
zone map hands them out. The canonical form of the predicate is computed and
not used, so a comparison with the literal on the left is left as it is. -/
namespace Hermes.PartitionPruner
open Hermes.Library.PredicateTree Hermes.Library.PredicateTree.Tree Hermes.Library.Fallible

instance instLinearOrderInt64 : LinearOrder Int64 where
  le_refl _ := Int64.le_refl _
  le_trans _ _ _ := Int64.le_trans
  lt_iff_le_not_ge a b := by
    rw [Int64.not_le]
    exact ⟨fun less => ⟨Int64.le_of_lt less,less⟩,fun both => both.2⟩
  le_antisymm _ _ := Int64.le_antisymm
  le_total := Int64.le_total
  toDecidableLE := inferInstance
  toDecidableEq := inferInstance
  toDecidableLT := inferInstance

inductive DataType where
  | int32
  | int64
  | float64
  | utf8
  | boolean
  | date64
deriving DecidableEq

/-- The values of a type, doubles as exact numbers. -/
def DataType.Value : DataType → Type
  | .int32 => Int32
  | .int64 => Int64
  | .float64 => Rat
  | .utf8 => String
  | .boolean => Bool
  | .date64 => Int64

instance : (type : DataType) → LinearOrder type.Value
  | .int32 => inferInstanceAs (LinearOrder Int32)
  | .int64 => inferInstanceAs (LinearOrder Int64)
  | .float64 => inferInstanceAs (LinearOrder Rat)
  | .utf8 => inferInstanceAs (LinearOrder String)
  | .boolean => inferInstanceAs (LinearOrder Bool)
  | .date64 => inferInstanceAs (LinearOrder Int64)

structure Scalar where
  type : DataType
  value : type.Value

/-- The types `lt` and `lte` know. -/
def DataType.Ordered : DataType → Bool
  | .int32 | .int64 | .float64 | .utf8 => true
  | .boolean | .date64 => false

inductive PruneError where
  | inconsistentMax (predicate stats : DataType)
  | inconsistentMin (predicate stats : DataType)
  | unsupportedType (type : DataType)
  | nullPointer
deriving DecidableEq

namespace Scalar

def below (v1 v2 : Scalar) : Bool :=
  if same : v1.type = v2.type then decide (same ▸ v1.value < v2.value) else false

def atMost (v1 v2 : Scalar) : Bool :=
  if same : v1.type = v2.type then decide (same ▸ v1.value ≤ v2.value) else false

@[simp] theorem below_mk {type : DataType} (a b : type.Value) : below ⟨type,a⟩ ⟨type,b⟩ = decide (a < b) := by
  simp [below]

@[simp] theorem atMost_mk {type : DataType} (a b : type.Value) : atMost ⟨type,a⟩ ⟨type,b⟩ = decide (a ≤ b) := by
  simp [atMost]

theorem type_of_atMost {v1 v2 : Scalar} (least : atMost v1 v2 = true) : v1.type = v2.type := by
  by_contra differ
  rw [atMost,dif_neg differ] at least
  cases least

def lt (v1 v2 : Scalar) : Except PruneError Bool :=
  if v1.type.Ordered then .ok (v1.below v2) else .error (.unsupportedType v1.type)

def lte (v1 v2 : Scalar) : Except PruneError Bool :=
  if v1.type.Ordered then .ok (v1.atMost v2) else .error (.unsupportedType v1.type)

end Scalar

inductive Literal where
  | string (value : Option String)
  | int32 (value : Option Int32)
  | int64 (value : Option Int64)
  | double (value : Option Rat)
  | boolean (value : Option Bool)
  | date64 (value : Option Int64)

namespace Literal

def scalar : Literal → Option Scalar
  | .string value => value.map (⟨.utf8,·⟩)
  | .int32 value => value.map (⟨.int32,·⟩)
  | .int64 value => value.map (⟨.int64,·⟩)
  | .double value => value.map (⟨.float64,·⟩)
  | .boolean value => value.map (⟨.boolean,·⟩)
  | .date64 value => value.map (⟨.date64,·⟩)

/-- Null literals and those of other types give no scalar. -/
def litToScalar : Literal → Option Scalar
  | .string value => value.map (⟨.utf8,·⟩)
  | .int32 value => value.map (⟨.int32,·⟩)
  | .int64 value => value.map (⟨.int64,·⟩)
  | .double value => value.map (⟨.float64,·⟩)
  | _ => none

theorem scalar_of_litToScalar {literal : Literal} {v : Scalar} (read : literal.litToScalar = some v) :
    literal.scalar = some v ∧ v.type.Ordered = true := by
  cases literal with
  | boolean => cases read
  | date64 => cases read
  | _ value =>
    refine ⟨read,?_⟩
    obtain ⟨_,_,rfl⟩ := Option.map_eq_some_iff.mp read
    rfl

end Literal

inductive ComparisonType where
  | equalTo
  | lessThan
  | lessThanOrEqualTo
  | greaterThan
  | greaterThanOrEqualTo
deriving DecidableEq

def ComparisonType.holds {β : Type} [LinearOrder β] : ComparisonType → β → β → Bool
  | .equalTo, a, b => decide (a = b)
  | .lessThan, a, b => decide (a < b)
  | .lessThanOrEqualTo, a, b => decide (a ≤ b)
  | .greaterThan, a, b => decide (b < a)
  | .greaterThanOrEqualTo, a, b => decide (b ≤ a)

abbrev Row := String → Option Scalar

inductive Operand where
  | column (columnName : String)
  | literal (literal : Literal)
  | other (value : Row → Option Scalar)

def Operand.value (row : Row) : Operand → Option Scalar
  | .column columnName => row columnName
  | .literal value => value.scalar
  | .other value => value row

/-- What is neither a conjunction nor a disjunction; `other` is never looked into. -/
inductive Leaf where
  | comparison (type : ComparisonType) (left right : Operand)
  | other (truth : Row → Option Bool)

abbrev Expression := Hermes.Library.PredicateTree.Tree Leaf

section Truth
variable (mixed : ComparisonType → Scalar → Scalar → Option Bool)

def compareScalars (type : ComparisonType) (a b : Scalar) : Option Bool :=
  if same : a.type = b.type then some (type.holds (same ▸ a.value) b.value) else mixed type a b

def Leaf.truth (row : Row) : Leaf → Option Bool
  | .comparison type left right =>
    (left.value row).bind (fun a => (right.value row).bind (fun b => compareScalars mixed type a b))
  | .other truth => truth row

end Truth

/-- The least and the greatest value of a column in a partition. -/
structure MinMax where
  columnName : String
  statsMin : Scalar
  statsMax : Scalar

/-- The first half of `checkValid`. -/
def checkPredMin (predMin : Option Scalar) (predMinOpen : Bool) (statsMax : Scalar) : Except PruneError Bool :=
  match predMin with
  | none => .ok true
  | some predMin =>
    if predMin.type ≠ statsMax.type then .error (.inconsistentMax predMin.type statsMax.type)
    else (!·) <$> if predMinOpen then statsMax.lte predMin else statsMax.lt predMin

/-- The second half. -/
def checkPredMax (predMax : Option Scalar) (predMaxOpen : Bool) (statsMin : Scalar) : Except PruneError Bool :=
  match predMax with
  | none => .ok true
  | some predMax =>
    if predMax.type ≠ statsMin.type then .error (.inconsistentMin predMax.type statsMin.type)
    else (!·) <$> if predMaxOpen then predMax.lte statsMin else predMax.lt statsMin

def checkValid (predMin predMax : Option Scalar) (predMinOpen predMaxOpen : Bool) (statsMin statsMax : Scalar) :
    Except PruneError Bool := do
  if ← checkPredMin predMin predMinOpen statsMax then checkPredMax predMax predMaxOpen statsMin
  else .ok false

def checkComparison (type : ComparisonType) (litScalar : Option Scalar) (statsMin statsMax : Scalar) :
    Except PruneError Bool :=
  match type with
  | .equalTo => checkValid litScalar litScalar false false statsMin statsMax
  | .lessThan => checkValid none litScalar false true statsMin statsMax
  | .lessThanOrEqualTo => checkValid none litScalar false false statsMin statsMax
  | .greaterThan => checkValid litScalar none true false statsMin statsMax
  | .greaterThanOrEqualTo => checkValid litScalar none false false statsMin statsMax

def pruneLeaf (stats : MinMax) : Leaf → Except PruneError (Option Expression)
  | .comparison type (.column columnName) (.literal literal) =>
    if columnName ≠ stats.columnName then .ok (some (.leaf (.comparison type (.column columnName) (.literal literal))))
    else do
      let valid ← checkComparison type literal.litToScalar stats.statsMin stats.statsMax
      .ok (if valid then some (.leaf (.comparison type (.column columnName) (.literal literal))) else none)
  | predicate => .ok (some (.leaf predicate))

mutual

def prunePredicate (stats : MinMax) : Expression → Except PruneError (Option Expression)
  | .and_ exprs => (Option.map .and_) <$> pruneAndExprs stats exprs
  | .or_ exprs => disjunction <$> pruneOrExprs stats exprs
  | .leaf predicate => pruneLeaf stats predicate

/-- The children of an `And`, up to the first that is pruned. -/
def pruneAndExprs (stats : MinMax) : List Expression → Except PruneError (Option (List Expression))
  | [] => .ok (some [])
  | childExpr::exprs => do
    match ← prunePredicate stats childExpr with
    | none => .ok none
    | some prunedChildExpr => (Option.map (prunedChildExpr::·)) <$> pruneAndExprs stats exprs

def pruneOrExprs (stats : MinMax) : List Expression → Except PruneError (List Expression)
  | [] => .ok []
  | childExpr::exprs => do
    let prunedChildExpr ← prunePredicate stats childExpr
    (prunedChildExpr.toList ++ ·) <$> pruneOrExprs stats exprs

end

/-- The loop over the zone map; a predicate that is gone is dereferenced again. -/
def pruneColumns : List MinMax → Option Expression → Except PruneError (Option Expression)
  | [], prunedPredicate => .ok prunedPredicate
  | _::_, none => .error .nullPointer
  | stats::zoneMap, some prunedPredicate => do
    pruneColumns zoneMap (← prunePredicate stats prunedPredicate)

/-- A partition is told apart by its name, and hands out its zone map in some order. -/
structure Partition (ι : Type) where
  name : ι
  zoneMap : List MinMax

section Prune
variable {ι : Type} [DecidableEq ι]

def emplace (pruneRes : List (Partition ι × Option Expression)) (partition : Partition ι)
    (predicate : Option Expression) : List (Partition ι × Option Expression) :=
  if ∃ entry ∈ pruneRes, entry.1.name = partition.name then pruneRes else pruneRes ++ [(partition,predicate)]

def prunePartitions (predicate : Expression) : List (Partition ι) → List (Partition ι × Option Expression) →
    Except PruneError (List (Partition ι × Option Expression))
  | [], pruneRes => .ok pruneRes
  | partition::partitions, pruneRes => do
    let prunedPredicate ← pruneColumns partition.zoneMap (some predicate)
    prunePartitions predicate partitions
      (if prunedPredicate.isSome then emplace pruneRes partition prunedPredicate else pruneRes)

def prune (partitions : List (Partition ι)) : Option Expression →
    Except PruneError (List (Partition ι × Option Expression))
  | none => .ok (partitions.foldl (fun pruneRes partition => emplace pruneRes partition none) [])
  | some predicate => prunePartitions predicate partitions []

end Prune

/-- Some value between the bounds may compare so with the literal. -/
def ComparisonType.admits (type : ComparisonType) (v statsMin statsMax : Scalar) : Bool :=
  match type with
  | .equalTo => !statsMax.below v && !v.below statsMin
  | .lessThan => !v.atMost statsMin
  | .lessThanOrEqualTo => !v.below statsMin
  | .greaterThan => !statsMax.atMost v
  | .greaterThanOrEqualTo => !statsMax.below v

/-- Only a comparison of the column with a literal to its right can be ruled out. -/
def keeps (stats : MinMax) : Leaf → Bool
  | .comparison type (.column columnName) (.literal literal) =>
    columnName ≠ stats.columnName || literal.litToScalar.all (type.admits · stats.statsMin stats.statsMax)
  | _ => true

/-- A literal compared with the column has the type of its statistics. -/
def Typed (stats : MinMax) : Leaf → Prop
  | .comparison _ (.column columnName) (.literal literal) => columnName = stats.columnName →
    ∀ v ∈ literal.litToScalar, v.type = stats.statsMin.type ∧ v.type = stats.statsMax.type
  | _ => True

def TypedAll (zoneMap : List MinMax) (leaf : Leaf) : Prop := ∀ stats ∈ zoneMap, Typed stats leaf

def MinMax.Bounds (stats : MinMax) (row : Row) : Prop :=
  ∃ v, row stats.columnName = some v ∧ stats.statsMin.atMost v = true ∧ v.atMost stats.statsMax = true

section Leaves
variable {stats : MinMax}

theorem not_compared_eq {v1 v2 : Scalar} (ordered : v1.type.Ordered = true) (open_ : Bool) :
    ((!·) <$> if open_ then v1.lte v2 else v1.lt v2 : Except PruneError Bool) =
      .ok (!if open_ then v1.atMost v2 else v1.below v2) := by
  rw [Scalar.lte,Scalar.lt,if_pos ordered,if_pos ordered]
  cases open_ <;> rfl

theorem checkPredMin_eq {predMin : Option Scalar} (predMinOpen : Bool) {statsMax : Scalar}
    (typed : ∀ v ∈ predMin, v.type = statsMax.type ∧ v.type.Ordered = true) :
    checkPredMin predMin predMinOpen statsMax = .ok
      (predMin.all (fun v => !if predMinOpen then statsMax.atMost v else statsMax.below v)) := by
  cases predMin with
  | none => rfl
  | some v =>
    obtain ⟨same,ordered⟩ := typed v rfl
    rw [checkPredMin,if_neg (not_not.mpr same)]
    exact not_compared_eq (same ▸ ordered) predMinOpen

theorem checkPredMax_eq {predMax : Option Scalar} (predMaxOpen : Bool) {statsMin : Scalar}
    (typed : ∀ v ∈ predMax, v.type = statsMin.type ∧ v.type.Ordered = true) :
    checkPredMax predMax predMaxOpen statsMin = .ok
      (predMax.all (fun v => !if predMaxOpen then v.atMost statsMin else v.below statsMin)) := by
  cases predMax with
  | none => rfl
  | some v =>
    obtain ⟨same,ordered⟩ := typed v rfl
    rw [checkPredMax,if_neg (not_not.mpr same)]
    exact not_compared_eq ordered predMaxOpen

theorem checkValid_eq {predMin predMax : Option Scalar} (predMinOpen predMaxOpen : Bool) {statsMin statsMax : Scalar}
    (greatest : ∀ v ∈ predMin, v.type = statsMax.type ∧ v.type.Ordered = true)
    (least : ∀ v ∈ predMax, v.type = statsMin.type ∧ v.type.Ordered = true) :
    checkValid predMin predMax predMinOpen predMaxOpen statsMin statsMax = .ok
      (predMin.all (fun v => !if predMinOpen then statsMax.atMost v else statsMax.below v) &&
        predMax.all (fun v => !if predMaxOpen then v.atMost statsMin else v.below statsMin)) := by
  rw [checkValid,checkPredMin_eq predMinOpen greatest,checkPredMax_eq predMaxOpen least]
  cases predMin.all (fun v => !if predMinOpen then statsMax.atMost v else statsMax.below v) <;> rfl

theorem checkComparison_eq (type : ComparisonType) {literal : Option Scalar} {statsMin statsMax : Scalar}
    (typed : ∀ v ∈ literal, v.type = statsMin.type ∧ v.type = statsMax.type ∧ v.type.Ordered = true) :
    checkComparison type literal statsMin statsMax = .ok (literal.all (type.admits · statsMin statsMax)) := by
  have greatest : ∀ v ∈ literal, v.type = statsMax.type ∧ v.type.Ordered = true := fun v bound => (typed v bound).2
  have least : ∀ v ∈ literal, v.type = statsMin.type ∧ v.type.Ordered = true :=
    fun v bound => ⟨(typed v bound).1,(typed v bound).2.2⟩
  have unbounded : ∀ {P : Scalar → Prop}, ∀ v ∈ (none : Option Scalar), P v := by
    intro P v member
    cases member
  cases type with
  | equalTo =>
    change checkValid literal literal false false statsMin statsMax = _
    rw [checkValid_eq false false greatest least]
    cases literal <;> rfl
  | lessThan =>
    change checkValid none literal false true statsMin statsMax = _
    rw [checkValid_eq false true unbounded least]
    cases literal <;> rfl
  | lessThanOrEqualTo =>
    change checkValid none literal false false statsMin statsMax = _
    rw [checkValid_eq false false unbounded least]
    cases literal <;> rfl
  | greaterThan =>
    change checkValid literal none true false statsMin statsMax = _
    rw [checkValid_eq true false greatest unbounded,Option.all_none,Bool.and_true]
    cases literal <;> rfl
  | greaterThanOrEqualTo =>
    change checkValid literal none false false statsMin statsMax = _
    rw [checkValid_eq false false greatest unbounded,Option.all_none,Bool.and_true]
    cases literal <;> rfl

theorem pruneLeaf_eq {leaf : Leaf} (typed : Typed stats leaf) :
    pruneLeaf stats leaf = .ok (Tree.prune (keeps stats) (.leaf leaf)) := by
  unfold pruneLeaf
  split
  next type columnName literal =>
    rw [Tree.prune,keeps]
    split
    next differ => rw [decide_eq_true differ,Bool.true_or,if_pos rfl]
    next same =>
      rw [decide_eq_false same,Bool.false_or,checkComparison_eq]
      · rfl
      · intro v read
        obtain ⟨least,greatest⟩ := typed (not_not.mp same) v read
        exact ⟨least,greatest,(Literal.scalar_of_litToScalar read).2⟩
  next others =>
    rw [Tree.prune,if_pos]
    unfold keeps
    split
    next type columnName literal => exact absurd rfl (others type columnName literal)
    next => rfl

theorem Scalar.lt_ok {v1 v2 : Scalar} {less : Bool} (ok : v1.lt v2 = .ok less) : less = v1.below v2 := by
  unfold Scalar.lt at ok
  split at ok
  · exact (Except.ok.inj ok).symm
  · cases ok

theorem Scalar.lte_ok {v1 v2 : Scalar} {less : Bool} (ok : v1.lte v2 = .ok less) : less = v1.atMost v2 := by
  unfold Scalar.lte at ok
  split at ok
  · exact (Except.ok.inj ok).symm
  · cases ok

theorem not_compared_ok {v1 v2 : Scalar} {open_ valid : Bool}
    (ok : ((!·) <$> if open_ then v1.lte v2 else v1.lt v2 : Except PruneError Bool) = .ok valid) :
    valid = !if open_ then v1.atMost v2 else v1.below v2 := by
  obtain ⟨less,compared,rfl⟩ := map_eq_ok.mp ok
  cases open_ with
  | false => rw [Scalar.lt_ok compared]; rfl
  | true => rw [Scalar.lte_ok compared]; rfl

theorem checkPredMin_ok {predMin : Option Scalar} {predMinOpen : Bool} {statsMax : Scalar} {valid : Bool}
    (ok : checkPredMin predMin predMinOpen statsMax = .ok valid) :
    valid = predMin.all (fun v => !if predMinOpen then statsMax.atMost v else statsMax.below v) := by
  cases predMin with
  | none => exact (Except.ok.inj ok).symm
  | some v =>
    rw [checkPredMin] at ok
    split at ok
    · cases ok
    · exact not_compared_ok ok

theorem checkPredMax_ok {predMax : Option Scalar} {predMaxOpen : Bool} {statsMin : Scalar} {valid : Bool}
    (ok : checkPredMax predMax predMaxOpen statsMin = .ok valid) :
    valid = predMax.all (fun v => !if predMaxOpen then v.atMost statsMin else v.below statsMin) := by
  cases predMax with
  | none => exact (Except.ok.inj ok).symm
  | some v =>
    rw [checkPredMax] at ok
    split at ok
    · cases ok
    · exact not_compared_ok ok

theorem checkValid_ok {predMin predMax : Option Scalar} {predMinOpen predMaxOpen valid : Bool}
    {statsMin statsMax : Scalar}
    (ok : checkValid predMin predMax predMinOpen predMaxOpen statsMin statsMax = .ok valid) :
    valid = (predMin.all (fun v => !if predMinOpen then statsMax.atMost v else statsMax.below v) &&
      predMax.all (fun v => !if predMaxOpen then v.atMost statsMin else v.below statsMin)) := by
  obtain ⟨above,least,rest⟩ := bind_eq_ok.mp ok
  rw [← checkPredMin_ok least]
  cases above with
  | false => exact (Except.ok.inj rest).symm
  | true => exact checkPredMax_ok rest

theorem checkComparison_ok {type : ComparisonType} {literal : Option Scalar} {statsMin statsMax : Scalar} {valid : Bool}
    (ok : checkComparison type literal statsMin statsMax = .ok valid) :
    valid = literal.all (type.admits · statsMin statsMax) := by
  cases type with
  | equalTo => rw [checkValid_ok ok]; cases literal <;> rfl
  | lessThan => rw [checkValid_ok ok]; cases literal <;> rfl
  | lessThanOrEqualTo => rw [checkValid_ok ok]; cases literal <;> rfl
  | greaterThan => rw [checkValid_ok ok,Option.all_none,Bool.and_true]; cases literal <;> rfl
  | greaterThanOrEqualTo => rw [checkValid_ok ok,Option.all_none,Bool.and_true]; cases literal <;> rfl

theorem pruneLeaf_ok {leaf : Leaf} {left : Option Expression} (ok : pruneLeaf stats leaf = .ok left) :
    left = Tree.prune (keeps stats) (.leaf leaf) := by
  unfold pruneLeaf at ok
  rw [Tree.prune]
  split at ok
  next type columnName literal =>
    rw [keeps]
    split at ok
    next differ => rw [decide_eq_true differ,Bool.true_or,if_pos rfl,Except.ok.inj ok]
    next same =>
      obtain ⟨valid,checked,done⟩ := bind_eq_ok.mp ok
      rw [decide_eq_false same,Bool.false_or,← checkComparison_ok checked]
      exact (Except.ok.inj done).symm
  next others =>
    rw [if_pos,Except.ok.inj ok]
    unfold keeps
    split
    next type columnName literal => exact absurd rfl (others type columnName literal)
    next => rfl

private theorem holds_of_not_admits_mk (type : ComparisonType) {t : DataType} {v least greatest value : t.Value}
    (low : least ≤ value) (high : value ≤ greatest) (out : type.admits ⟨t,v⟩ ⟨t,least⟩ ⟨t,greatest⟩ = false) :
    type.holds value v = false := by
  cases type with
  | equalTo =>
    simp only [ComparisonType.admits,Scalar.below_mk,Bool.and_eq_false_iff,Bool.not_eq_false',decide_eq_true_eq] at out
    apply decide_eq_false
    rintro rfl
    exact out.elim (not_lt.mpr high) (not_lt.mpr low)
  | lessThan =>
    simp only [ComparisonType.admits,Scalar.atMost_mk,Bool.not_eq_false',decide_eq_true_eq] at out
    exact decide_eq_false (not_lt.mpr (out.trans low))
  | lessThanOrEqualTo =>
    simp only [ComparisonType.admits,Scalar.below_mk,Bool.not_eq_false',decide_eq_true_eq] at out
    exact decide_eq_false (not_le.mpr (out.trans_le low))
  | greaterThan =>
    simp only [ComparisonType.admits,Scalar.atMost_mk,Bool.not_eq_false',decide_eq_true_eq] at out
    exact decide_eq_false (not_lt.mpr (high.trans out))
  | greaterThanOrEqualTo =>
    simp only [ComparisonType.admits,Scalar.below_mk,Bool.not_eq_false',decide_eq_true_eq] at out
    exact decide_eq_false (not_le.mpr (high.trans_lt out))

theorem holds_of_not_admits {type : ComparisonType} {v least greatest value : Scalar} (low : least.atMost value = true)
    (high : value.atMost greatest = true) (same : value.type = v.type)
    (out : type.admits v least greatest = false) (mixed : ComparisonType → Scalar → Scalar → Option Bool) :
    compareScalars mixed type value v = some false := by
  have lowType := Scalar.type_of_atMost low
  have highType := Scalar.type_of_atMost high
  obtain ⟨t,value⟩ := value
  obtain ⟨_,v⟩ := v
  obtain ⟨_,least⟩ := least
  obtain ⟨_,greatest⟩ := greatest
  dsimp only at same lowType highType
  subst same lowType highType
  rw [Scalar.atMost_mk,decide_eq_true_eq] at low high
  rw [compareScalars,dif_pos rfl]
  exact congrArg some (holds_of_not_admits_mk type low high out)

theorem truth_of_not_keeps {leaf : Leaf} {row : Row} (typed : Typed stats leaf) (bounds : stats.Bounds row)
    (dropped : keeps stats leaf = false) (mixed : ComparisonType → Scalar → Scalar → Option Bool) :
    leaf.truth mixed row = some false := by
  unfold keeps at dropped
  split at dropped
  next type columnName literal =>
    rw [Bool.or_eq_false_iff,decide_eq_false_iff_not,not_not] at dropped
    obtain ⟨same,out⟩ := dropped
    cases read : literal.litToScalar with
    | none =>
      rw [read] at out
      cases out
    | some v =>
      rw [read] at out
      obtain ⟨value,present,low,high⟩ := bounds
      have sameType : value.type = v.type := ((typed same v read).1.trans (Scalar.type_of_atMost low)).symm
      have column : (Operand.column columnName).value row = some value := by
        rw [← present,← same]
        rfl
      have right : (Operand.literal literal).value row = some v := (Literal.scalar_of_litToScalar read).1
      rw [Leaf.truth,column,right]
      exact holds_of_not_admits low high sameType out mixed
  next => cases dropped

end Leaves

section Trees
variable {stats : MinMax} {zoneMap : List MinMax} {predicate : Expression}

theorem prunePredicate_eq (typed : Every (Typed stats) predicate) :
    prunePredicate stats predicate = .ok (Tree.prune (keeps stats) predicate) := by
  induction predicate using Tree.ind with
  | and_ children each =>
    have all : pruneAndExprs stats children = .ok (Tree.pruneAnd (keeps stats) children) := by
      rw [Every] at typed
      induction children with
      | nil => rfl
      | cons child children ih =>
        rw [pruneAndExprs,Tree.pruneAnd,each child List.mem_cons_self typed.1]
        cases Tree.prune (keeps stats) child with
        | none => rfl
        | some pruned =>
          change _ <$> pruneAndExprs stats children = _
          rw [ih (fun other member => each other (List.mem_cons_of_mem _ member)) typed.2]
          rfl
    rw [prunePredicate,all,Tree.prune]
    rfl
  | or_ children each =>
    have all : pruneOrExprs stats children = .ok (Tree.pruneOr (keeps stats) children) := by
      rw [Every] at typed
      induction children with
      | nil => rfl
      | cons child children ih =>
        rw [pruneOrExprs,Tree.pruneOr,each child List.mem_cons_self typed.1,
          ih (fun other member => each other (List.mem_cons_of_mem _ member)) typed.2]
        rfl
    rw [prunePredicate,all,Tree.prune]
    rfl
  | leaf content => exact pruneLeaf_eq typed

theorem prunePredicate_ok {left : Option Expression} (ok : prunePredicate stats predicate = .ok left) :
    left = Tree.prune (keeps stats) predicate := by
  induction predicate using Tree.ind generalizing left with
  | and_ children each =>
    have all : ∀ pruned, pruneAndExprs stats children = .ok pruned → pruned = Tree.pruneAnd (keeps stats) children := by
      clear ok
      induction children with
      | nil => exact fun _ done => (Except.ok.inj done).symm
      | cons child children ih =>
        intro pruned done
        rw [pruneAndExprs] at done
        obtain ⟨first,here,rest⟩ := bind_eq_ok.mp done
        rw [Tree.pruneAnd,← each child List.mem_cons_self here]
        cases first with
        | none => exact (Except.ok.inj rest).symm
        | some prunedChildExpr =>
          obtain ⟨others,later,same⟩ := map_eq_ok.mp rest
          rw [← ih (fun other member => each other (List.mem_cons_of_mem _ member)) others later,Option.bind_some]
          exact same.symm
    rw [prunePredicate] at ok
    obtain ⟨pruned,done,same⟩ := map_eq_ok.mp ok
    rw [Tree.prune,← all pruned done,same]
  | or_ children each =>
    have all : ∀ pruned, pruneOrExprs stats children = .ok pruned → pruned = Tree.pruneOr (keeps stats) children := by
      clear ok
      induction children with
      | nil => exact fun _ done => (Except.ok.inj done).symm
      | cons child children ih =>
        intro pruned done
        rw [pruneOrExprs] at done
        obtain ⟨first,here,rest⟩ := bind_eq_ok.mp done
        obtain ⟨others,later,same⟩ := map_eq_ok.mp rest
        rw [Tree.pruneOr,← each child List.mem_cons_self here,
          ← ih (fun other member => each other (List.mem_cons_of_mem _ member)) others later]
        exact same.symm
    rw [prunePredicate] at ok
    obtain ⟨pruned,done,same⟩ := map_eq_ok.mp ok
    rw [Tree.prune,← all pruned done,same]
  | leaf content => exact pruneLeaf_ok ok

private theorem none_of_none {other : MinMax} {left : Option Expression}
    (ok : prunePredicate stats predicate = .ok none)
    {pruned : Expression} (before : prunePredicate other predicate = .ok (some pruned))
    (again : prunePredicate stats pruned = .ok left) : left = none := by
  have one := Tree.prune_prune (keeps stats) (keeps other) predicate
  have two := Tree.prune_prune (keeps other) (keeps stats) predicate
  rw [← prunePredicate_ok ok,Option.bind_none] at one
  rw [← prunePredicate_ok before,Option.bind_some,← prunePredicate_ok again] at two
  have same : both (keeps other) (keeps stats) = both (keeps stats) (keeps other) := funext fun _ => Bool.and_comm _ _
  rw [two,same,← one]

theorem prunePredicate_again {other : MinMax} {left : Option Expression}
    (ok : prunePredicate stats predicate = .ok left)
    {pruned : Expression} (before : prunePredicate other predicate = .ok (some pruned)) :
    ∃ again, prunePredicate stats pruned = .ok again := by
  induction predicate using Tree.ind generalizing left pruned with
  | and_ children each =>
    have all : ∀ {first kept}, pruneAndExprs stats children = .ok first →
        pruneAndExprs other children = .ok (some kept) →
        ∃ again, pruneAndExprs stats kept = .ok again := by
      clear ok before
      induction children with
      | nil =>
        intro first kept _ done
        rw [← Option.some.inj (Except.ok.inj done)]
        exact ⟨_,rfl⟩
      | cons child children ih =>
        intro first kept done done'
        rw [pruneAndExprs] at done done'
        obtain ⟨here,first,rest⟩ := bind_eq_ok.mp done
        obtain ⟨here',first',rest'⟩ := bind_eq_ok.mp done'
        cases here' with
        | none => cases rest'
        | some keptChild =>
          obtain ⟨others,later,same⟩ := map_eq_ok.mp rest'
          obtain ⟨keptOthers,rfl,rfl⟩ := Option.map_eq_some_iff.mp same
          obtain ⟨again,applied⟩ := each child List.mem_cons_self first first'
          rw [pruneAndExprs,applied]
          cases again with
          | none => exact ⟨none,rfl⟩
          | some _ =>
            cases here with
            | none => cases none_of_none first first' applied
            | some _ =>
              obtain ⟨others,laterToo,_⟩ := map_eq_ok.mp rest
              obtain ⟨againOthers,appliedOthers⟩ :=
                ih (fun child member => each child (List.mem_cons_of_mem _ member)) laterToo later
              exact ⟨_,map_eq_ok.mpr ⟨againOthers,appliedOthers,rfl⟩⟩
    rw [prunePredicate] at ok before
    obtain ⟨first,done,_⟩ := map_eq_ok.mp ok
    obtain ⟨kept,done',same⟩ := map_eq_ok.mp before
    obtain ⟨keptChildren,rfl,rfl⟩ := Option.map_eq_some_iff.mp same
    obtain ⟨again,applied⟩ := all done done'
    exact ⟨_,by rw [prunePredicate,applied]; rfl⟩
  | or_ children each =>
    have all : ∀ {first kept}, pruneOrExprs stats children = .ok first → pruneOrExprs other children = .ok kept →
        ∃ again, pruneOrExprs stats kept = .ok again := by
      clear ok before
      induction children with
      | nil =>
        intro first kept _ done
        rw [← Except.ok.inj done]
        exact ⟨_,rfl⟩
      | cons child children ih =>
        intro first kept done done'
        rw [pruneOrExprs] at done done'
        obtain ⟨here,first,rest⟩ := bind_eq_ok.mp done
        obtain ⟨here',first',rest'⟩ := bind_eq_ok.mp done'
        obtain ⟨others,later,_⟩ := map_eq_ok.mp rest
        obtain ⟨others',later',rfl⟩ := map_eq_ok.mp rest'
        obtain ⟨againOthers,appliedOthers⟩ :=
          ih (fun child member => each child (List.mem_cons_of_mem _ member)) later later'
        cases here' with
        | none => exact ⟨againOthers,appliedOthers⟩
        | some keptChild =>
          obtain ⟨again,applied⟩ := each child List.mem_cons_self first first'
          refine ⟨again.toList ++ againOthers,?_⟩
          change pruneOrExprs stats (keptChild::others') = _
          rw [pruneOrExprs,applied]
          exact map_eq_ok.mpr ⟨againOthers,appliedOthers,rfl⟩
    rw [prunePredicate] at ok before
    obtain ⟨first,done,_⟩ := map_eq_ok.mp ok
    obtain ⟨kept,done',joined⟩ := map_eq_ok.mp before
    obtain ⟨again,applied⟩ := all done done'
    cases kept with
    | nil => cases joined
    | cons only rest =>
      cases rest with
      | nil =>
        rw [← Option.some.inj joined]
        rw [pruneOrExprs] at applied
        obtain ⟨left,here,_⟩ := bind_eq_ok.mp applied
        exact ⟨left,here⟩
      | cons second rest =>
        rw [← Option.some.inj joined,prunePredicate,applied]
        exact ⟨_,rfl⟩
  | leaf content =>
    have kept := prunePredicate_ok before
    rw [Tree.prune] at kept
    split at kept
    · rw [Option.some.inj kept]
      exact ⟨left,ok⟩
    · cases kept

def keepsAll (zoneMap : List MinMax) (leaf : Leaf) : Bool := zoneMap.all (fun stats => keeps stats leaf)

def RuledOut (zoneMap : List MinMax) (predicate : Expression) : Prop :=
  zoneMap ≠ [] ∧ excluded (keepsAll zoneMap) predicate = true

instance (zoneMap : List MinMax) (predicate : Expression) : Decidable (RuledOut zoneMap predicate) := by
  unfold RuledOut; infer_instance

theorem keepsAll_cons (stats : MinMax) (zoneMap : List MinMax) :
    keepsAll (stats::zoneMap) = both (keeps stats) (keepsAll zoneMap) := rfl

private theorem prune_keepsAll_nil {pruned : Expression} (left : Tree.prune (keeps stats) predicate = some pruned) :
    Tree.prune (keepsAll []) pruned = some pruned := by
  have twice := Tree.prune_prune (keeps stats) (keepsAll []) predicate
  have once : both (keeps stats) (keepsAll []) = keeps stats := by
    funext leaf
    exact Bool.and_true _
  rwa [once,left,Option.bind_some] at twice

theorem pruneColumns_of_ok (nonempty : zoneMap ≠ [])
    (applies : ∀ stats ∈ zoneMap, ∃ left, prunePredicate stats predicate = .ok left) :
    pruneColumns zoneMap (some predicate) = if RuledOut zoneMap.dropLast predicate then .error .nullPointer
      else .ok (Tree.prune (keepsAll zoneMap) predicate) := by
  induction zoneMap generalizing predicate with
  | nil => exact absurd rfl nonempty
  | cons stats zoneMap ih =>
    have twice := Tree.prune_prune (keeps stats) (keepsAll zoneMap) predicate
    obtain ⟨first,ok⟩ := applies stats List.mem_cons_self
    obtain rfl := prunePredicate_ok ok
    rw [pruneColumns,ok,keepsAll_cons,← twice]
    change pruneColumns zoneMap (Tree.prune (keeps stats) predicate) = _
    cases zoneMap with
    | nil =>
      rw [if_neg (fun out : RuledOut [stats].dropLast predicate => out.1 rfl)]
      cases left : Tree.prune (keeps stats) predicate with
      | none => rfl
      | some pruned =>
        rw [Option.bind_some,prune_keepsAll_nil left]
        rfl
    | cons next zoneMap =>
      have early := Tree.prune_prune (keeps stats) (keepsAll (next::zoneMap).dropLast) predicate
      have front : (stats::next::zoneMap).dropLast = stats::(next::zoneMap).dropLast := rfl
      have ruled : RuledOut (stats::(next::zoneMap).dropLast) predicate ↔
          (Tree.prune (keeps stats) predicate).bind (Tree.prune (keepsAll (next::zoneMap).dropLast)) = none := by
        rw [RuledOut,← prune_eq_none,keepsAll_cons,early]
        exact and_iff_right (List.cons_ne_nil _ _)
      rw [front]
      cases left : Tree.prune (keeps stats) predicate with
      | none =>
        rw [left] at ruled
        rw [if_pos (ruled.mpr rfl)]
        rfl
      | some pruned =>
        rw [left] at ok
        have rest : ∀ other ∈ next::zoneMap, ∃ again, prunePredicate other pruned = .ok again := by
          intro other member
          obtain ⟨_,alone⟩ := applies other (List.mem_cons_of_mem _ member)
          exact prunePredicate_again alone ok
        have same : RuledOut (stats::(next::zoneMap).dropLast) predicate ↔
            RuledOut (next::zoneMap).dropLast pruned := by
          rw [ruled,left,Option.bind_some,RuledOut,← prune_eq_none]
          constructor
          · intro gone
            refine ⟨?_,gone⟩
            intro last
            rw [last,prune_keepsAll_nil left] at gone
            cases gone
          · exact fun out => out.2
        rw [ih (List.cons_ne_nil _ _) rest,Option.bind_some]
        exact if_congr same.symm rfl rfl

/-- The residual of a zone map has the truth value of the predicate on every row that
the zone map bounds, and a predicate without one holds on none. -/
theorem agrees_keepsAll (typed : Every (TypedAll zoneMap) predicate)
    (mixed : ComparisonType → Scalar → Scalar → Option Bool) {row : Row}
    (bounds : ∀ stats ∈ zoneMap, stats.Bounds row) :
    Agrees (Leaf.truth mixed row) predicate (Tree.prune (keepsAll zoneMap) predicate) := by
  apply agrees_prune
  apply typed.imp
  intro leaf all dropped
  obtain ⟨stats,member,out⟩ := List.all_eq_false.mp dropped
  exact truth_of_not_keeps (all stats member) (bounds stats member) (Bool.eq_false_iff.mpr out) mixed

end Trees

section Partitions
variable {ι : Type} [DecidableEq ι] {partitions : List (Partition ι)} {predicate : Expression}

def residual (zoneMap : List MinMax) (predicate : Expression) : Option Expression :=
  if zoneMap = [] then some predicate else Tree.prune (keepsAll zoneMap) predicate

theorem pruneColumns_residual_of_ok {zoneMap : List MinMax}
    (applies : ∀ stats ∈ zoneMap, ∃ left, prunePredicate stats predicate = .ok left) :
    pruneColumns zoneMap (some predicate) = if RuledOut zoneMap.dropLast predicate then .error .nullPointer
      else .ok (residual zoneMap predicate) := by
  cases zoneMap with
  | nil => rfl
  | cons stats zoneMap => exact pruneColumns_of_ok (List.cons_ne_nil _ _) applies

theorem pruneColumns_residual {zoneMap : List MinMax} (typed : Every (TypedAll zoneMap) predicate) :
    pruneColumns zoneMap (some predicate) = if RuledOut zoneMap.dropLast predicate then .error .nullPointer
      else .ok (residual zoneMap predicate) := by
  apply pruneColumns_residual_of_ok
  intro stats member
  exact ⟨_,prunePredicate_eq (typed.imp (fun _ all => all stats member))⟩

omit [DecidableEq ι] in
theorem agrees_residual {zoneMap : List MinMax} (typed : Every (TypedAll zoneMap) predicate)
    (mixed : ComparisonType → Scalar → Scalar → Option Bool) {row : Row}
    (bounds : ∀ stats ∈ zoneMap, stats.Bounds row) :
    Agrees (Leaf.truth mixed row) predicate (residual zoneMap predicate) := by
  unfold residual
  split
  next => exact (rfl : eval _ predicate = eval _ predicate)
  next => exact agrees_keepsAll typed mixed bounds

theorem mem_emplace {pruneRes : List (Partition ι × Option Expression)} {partition : Partition ι}
    {left : Option Expression} {entry : Partition ι × Option Expression}
    (member : entry ∈ emplace pruneRes partition left) :
    entry ∈ pruneRes ∨ entry = (partition,left) := by
  unfold emplace at member
  split at member
  next => exact Or.inl member
  next => exact (List.mem_append.mp member).imp_right List.mem_singleton.mp

theorem emplace_keeps {pruneRes : List (Partition ι × Option Expression)} (partition : Partition ι)
    (left : Option Expression) {entry : Partition ι × Option Expression} (member : entry ∈ pruneRes) :
    entry ∈ emplace pruneRes partition left := by
  unfold emplace
  split
  next => exact member
  next => exact List.mem_append_left _ member

theorem emplace_names (pruneRes : List (Partition ι × Option Expression)) (partition : Partition ι)
    (left : Option Expression) : ∃ entry ∈ emplace pruneRes partition left, entry.1.name = partition.name := by
  unfold emplace
  split
  next present => exact present
  next => exact ⟨_,List.mem_append_right _ (List.mem_singleton_self _),rfl⟩

theorem prunePartitions_ok (typed : ∀ partition ∈ partitions, Every (TypedAll partition.zoneMap) predicate)
    (open_ : ∀ partition ∈ partitions, ¬RuledOut partition.zoneMap.dropLast predicate)
    (pruneRes : List (Partition ι × Option Expression)) :
    ∃ result, prunePartitions predicate partitions pruneRes = .ok result ∧ (∀ entry ∈ pruneRes, entry ∈ result) ∧
      (∀ entry ∈ result, entry ∈ pruneRes ∨
        (entry.1 ∈ partitions ∧ entry.2.isSome ∧ entry.2 = residual entry.1.zoneMap predicate)) ∧
      ∀ partition ∈ partitions, (residual partition.zoneMap predicate).isSome →
        ∃ entry ∈ result, entry.1.name = partition.name := by
  induction partitions generalizing pruneRes with
  | nil => exact ⟨pruneRes,rfl,fun _ member => member,fun _ member => Or.inl member,nofun⟩
  | cons partition partitions ih =>
    obtain ⟨result,returned,kept,origin,names⟩ := ih (fun other member => typed other (List.mem_cons_of_mem _ member))
      (fun other member => open_ other (List.mem_cons_of_mem _ member))
      (if (residual partition.zoneMap predicate).isSome then
        emplace pruneRes partition (residual partition.zoneMap predicate) else pruneRes)
    refine ⟨result,?_,?_,?_,?_⟩
    · rw [prunePartitions,pruneColumns_residual (typed partition List.mem_cons_self),
        if_neg (open_ partition List.mem_cons_self)]
      exact returned
    · intro entry member
      apply kept
      split
      next => exact emplace_keeps _ _ member
      next => exact member
    · intro entry member
      rcases origin entry member with before | ⟨later,left⟩
      · split at before
        next some_ =>
          rcases mem_emplace before with old | rfl
          · exact Or.inl old
          · exact Or.inr ⟨List.mem_cons_self,some_,rfl⟩
        next => exact Or.inl before
      · exact Or.inr ⟨List.mem_cons_of_mem _ later,left⟩
    · intro other member some_
      rcases List.mem_cons.mp member with rfl | later
      · rw [if_pos some_] at kept
        obtain ⟨entry,here,name⟩ := emplace_names pruneRes other (residual other.zoneMap predicate)
        exact ⟨entry,kept entry here,name⟩
      · exact names other later some_

theorem prunePartitions_error (typed : ∀ partition ∈ partitions, Every (TypedAll partition.zoneMap) predicate)
    (ruled : ∃ partition ∈ partitions, RuledOut partition.zoneMap.dropLast predicate)
    (pruneRes : List (Partition ι × Option Expression)) :
    prunePartitions predicate partitions pruneRes = .error .nullPointer := by
  induction partitions generalizing pruneRes with
  | nil =>
    obtain ⟨_,member,_⟩ := ruled
    cases member
  | cons partition partitions ih =>
    rw [prunePartitions,pruneColumns_residual (typed partition List.mem_cons_self)]
    split
    next => rfl
    next open_ =>
      obtain ⟨other,member,out⟩ := ruled
      rcases List.mem_cons.mp member with rfl | later
      · exact absurd out open_
      · exact ih (fun other member => typed other (List.mem_cons_of_mem _ member)) ⟨other,later,out⟩ _

/-- Every partition is kept that has a matching row, and a kept one carries a predicate
that its rows cannot tell from the original. -/
def Sound (mixed : ComparisonType → Scalar → Scalar → Option Bool) (partitions : List (Partition ι))
    (predicate : Expression) : Prop :=
  ∃ pruneRes, prune partitions (some predicate) = .ok pruneRes ∧
    (∀ partition ∈ partitions, ∀ row, (∀ stats ∈ partition.zoneMap, stats.Bounds row) →
      eval (Leaf.truth mixed row) predicate = some true → ∃ entry ∈ pruneRes, entry.1.name = partition.name) ∧
    ∀ entry ∈ pruneRes, entry.1 ∈ partitions ∧ ∃ left, entry.2 = some left ∧
      ∀ row, (∀ stats ∈ entry.1.zoneMap, stats.Bounds row) →
        eval (Leaf.truth mixed row) left = eval (Leaf.truth mixed row) predicate

theorem sound_iff (mixed : ComparisonType → Scalar → Scalar → Option Bool)
    (typed : ∀ partition ∈ partitions, Every (TypedAll partition.zoneMap) predicate) :
    Sound mixed partitions predicate ↔
      ∀ partition ∈ partitions, ¬RuledOut partition.zoneMap.dropLast predicate := by
  constructor
  · rintro ⟨pruneRes,returned,_⟩ partition member out
    rw [prune,prunePartitions_error typed ⟨partition,member,out⟩] at returned
    cases returned
  · intro open_
    obtain ⟨pruneRes,returned,_,origin,names⟩ := prunePartitions_ok typed open_ []
    refine ⟨pruneRes,returned,?_,?_⟩
    · intro partition member row bounds matches_
      have agrees := agrees_residual (typed partition member) mixed bounds
      apply names partition member
      cases left : residual partition.zoneMap predicate with
      | some pruned => rfl
      | none =>
        rw [left] at agrees
        exact absurd (matches_.symm.trans agrees) (by decide)
    · intro entry member
      obtain ⟨here,some_,left⟩ := (origin entry member).resolve_left List.not_mem_nil
      obtain ⟨pruned,kept⟩ := Option.isSome_iff_exists.mp some_
      refine ⟨here,pruned,kept,?_⟩
      intro row bounds
      have agrees := agrees_residual (typed entry.1 here) mixed bounds
      rw [← left,kept] at agrees
      exact agrees

end Partitions

section Examples

def int (value : Int32) : Scalar := ⟨.int32,value⟩

def greater (columnName : String) (value : Int32) : Expression :=
  .leaf (.comparison .greaterThan (.column columnName) (.literal (.int32 (some value))))

/-- `a > 5 and b > 50` -/
def bothGreater : Expression := .and_ [greater "a" 5,greater "b" 50]

def smallPartition : Partition Nat := ⟨0,[⟨"a",int 0,int 0⟩,⟨"b",int 0,int 9⟩]⟩

def largePartition : Partition Nat := ⟨1,[⟨"a",int 0,int 10⟩,⟨"b",int 0,int 99⟩]⟩

def noCast (_ : ComparisonType) (_ _ : Scalar) : Option Bool := none

/-- The small partition is pruned by its first column and read again for its second. -/
theorem pruned_partition_read_again : ¬Sound noCast [smallPartition,largePartition] bothGreater := by
  rintro ⟨_,returned,_⟩
  have stopped : prune [smallPartition,largePartition] (some bothGreater) = .error .nullPointer := rfl
  rw [stopped] at returned
  cases returned

private theorem typed_greater (columnName : String) (value : Int32) {zoneMap : List MinMax}
    (ints : ∀ stats ∈ zoneMap, stats.statsMin.type = .int32 ∧ stats.statsMax.type = .int32) :
    Every (TypedAll zoneMap) (greater columnName value) := by
  intro stats member _ v read
  obtain ⟨least,greatest⟩ := ints stats member
  obtain rfl := Option.mem_some_iff.mp read
  exact ⟨least.symm,greatest.symm⟩

theorem large_partition_kept : Sound noCast [largePartition] bothGreater := by
  have typed : ∀ partition ∈ [largePartition], Every (TypedAll partition.zoneMap) bothGreater := by
    intro partition member
    obtain rfl := List.mem_singleton.mp member
    have ints : ∀ stats ∈ largePartition.zoneMap, stats.statsMin.type = .int32 ∧ stats.statsMax.type = .int32 := by
      decide
    exact ⟨typed_greater "a" 5 ints,typed_greater "b" 50 ints,trivial⟩
  apply (sound_iff noCast typed).mpr
  decide

end Examples

end Hermes.PartitionPruner
