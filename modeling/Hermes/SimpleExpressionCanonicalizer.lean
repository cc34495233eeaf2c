import Hermes.RexFilter
import Hermes.JoinSerializer
import Mathlib.Data.Finset.Defs

/-! `SimpleExpressionCanonicalizer`: comparisons are turned so that columns stand left, and NOTs are
moved down through AND and OR. A NOT on a NOT stays where it is, on whatever comes of the one below. -/
namespace Hermes.Calcite

structure Comparison (ε : Type) where
  kind : SqlKind
  left : ε
  right : ε
  compares : SimpleExpressionCanonicalizer.isComparison kind = true
  deriving DecidableEq

/-- A leaf of a filter is a comparison or any other predicate. -/
inductive Predicate (ε β : Type) where
  | comparison (compared : Comparison ε)
  | other (predicate : β)
  deriving DecidableEq

namespace RexFilter
open Library.ThreeValued
variable {β γ : Type}

mutual
/-- The filter with other leaves. -/
def mapLeaves (f : β → γ) : RexFilter β → RexFilter γ
  | .junction kind operands => .junction kind (mapAllLeaves f operands)
  | .not operand => .not (mapLeaves f operand)
  | .leaf predicate => .leaf (f predicate)
  | .literal value => .literal value
  termination_by structural node => node

def mapAllLeaves (f : β → γ) : List (RexFilter β) → List (RexFilter γ)
  | [] => []
  | operand::operands => mapLeaves f operand::mapAllLeaves f operands
  termination_by structural operands => operands
end

theorem mapLeaves_junction (f : β → γ) (kind : Connective) (operands : List (RexFilter β)) :
    mapLeaves f (.junction kind operands) = .junction kind (operands.map (mapLeaves f)) := by
  rw [mapLeaves]
  congr 1
  induction operands with
  | nil => rfl
  | cons operand operands ih => rw [mapAllLeaves,ih,List.map_cons]

theorem eval_mapLeaves (f : β → γ) (assignment : γ → Option Bool) (node : RexFilter β) :
    eval assignment (mapLeaves f node) = eval (assignment ∘ f) node := by
  induction node using ind with
  | junction kind operands each =>
    rw [mapLeaves_junction,eval_junction,eval_junction,List.map_map]
    exact congrArg _ (List.map_congr_left each)
  | not operand ih => rw [mapLeaves,eval,ih,eval]
  | leaf predicate => rfl
  | literal value => rfl

variable {kind : Connective}

theorem listed_ind (kind : Connective) {holds : RexFilter β → Prop}
    (call : ∀ operands, (∀ operand ∈ operands, holds operand) → holds (.junction kind operands))
    (dropped : ∀ node, constant? node = some kind.neutral → conDisjunctions kind node = [] → holds node)
    (listed : ∀ node, constant? node ≠ some kind.neutral → conDisjunctions kind node = [node] → holds node)
    (node : RexFilter β) : holds node := by
  induction node using ind with
  | junction kind' operands each =>
    by_cases same : kind' = kind
    · subst same
      exact call operands each
    · exact listed _ (Option.some_ne_none _).symm (by rw [conDisjunctions,if_neg same])
  | not operand _ =>
    by_cases known : constant? (.not operand) = some kind.neutral
    · exact dropped _ known (by rw [conDisjunctions,if_pos known])
    · exact listed _ known (by rw [conDisjunctions,if_neg known])
  | leaf predicate => exact listed _ (Option.some_ne_none _).symm rfl
  | literal value =>
    by_cases same : value = kind.neutral
    · exact dropped _ (congrArg some same) (by rw [conDisjunctions,if_pos same])
    · exact listed _ (fun known => same (Option.some.inj known)) (by rw [conDisjunctions,if_neg same])

theorem conDisjunctions_neutral {node : RexFilter β} (known : constant? node = some kind.neutral) :
    conDisjunctions kind node = [] := by
  induction node using listed_ind kind with
  | call operands _ => cases known
  | dropped node _ none_ => exact none_
  | listed node varies _ => exact absurd known varies

theorem conDisjunctions_absorbing {node : RexFilter β} (known : constant? node = some (!kind.neutral)) :
    conDisjunctions kind node = [node] := by
  induction node using listed_ind kind with
  | call operands _ => cases known
  | dropped node neutral _ => exact absurd (known.symm.trans neutral) (opposite_ne _)
  | listed node _ self => exact self

theorem sizeOf_conDisjunctions {node child : RexFilter β} (inside : child ∈ conDisjunctions kind node) :
    sizeOf child ≤ sizeOf node := by
  induction node using listed_ind kind with
  | call operands each =>
    rw [conDisjunctions_junction] at inside
    obtain ⟨operand,there,listed⟩ := List.mem_flatMap.mp inside
    have smaller := List.sizeOf_lt_of_mem there
    have below := each operand there listed
    rw [junction.sizeOf_spec]
    omega
  | dropped node _ none_ => simp [none_] at inside
  | listed node _ self =>
    rw [self,List.mem_singleton] at inside
    rw [inside]

theorem sizeOf_listed {operands : List (RexFilter β)} {child : RexFilter β}
    (inside : child ∈ conDisjunctions kind (.junction kind operands)) :
    sizeOf child < sizeOf (junction kind operands) := by
  rw [conDisjunctions_junction] at inside
  obtain ⟨operand,there,listed⟩ := List.mem_flatMap.mp inside
  have smaller := List.sizeOf_lt_of_mem there
  have below := sizeOf_conDisjunctions listed
  rw [junction.sizeOf_spec]
  omega

end RexFilter

namespace SimpleExpressionCanonicalizer
open RexFilter Library.ThreeValued
variable {ε β : Type}

theorem mirrorOperation_compares {kind : SqlKind} (compares : isComparison kind = true) :
    isComparison (mirrorOperation kind) = true := by
  cases kind <;> trivial

def mirror (compared : Comparison ε) : Comparison ε :=
  ⟨mirrorOperation compared.kind,compared.right,compared.left,mirrorOperation_compares compared.compares⟩

/-- `columns` are the input columns of an expression, and `compareTo` the order of bit sets. -/
def canonicalizePredicate (columns : ε → Finset Nat) (compareTo : Finset Nat → Finset Nat → Int) :
    Predicate ε β → Predicate ε β
  | .comparison compared =>
    let leftBitSet := columns compared.left
    let rightBitSet := columns compared.right
    if leftBitSet = ∅ ∧ rightBitSet ≠ ∅ then .comparison (mirror compared)
    else if leftBitSet ≠ ∅ ∧ rightBitSet ≠ ∅ then
      if compareTo leftBitSet rightBitSet > 0 then .comparison (mirror compared) else .comparison compared
    else .comparison compared
  | .other predicate => .other predicate

def canonicalizeExpression (columns : ε → Finset Nat) (compareTo : Finset Nat → Finset Nat → Int) :
    RexFilter (Predicate ε β) → RexFilter (Predicate ε β) :=
  mapLeaves (canonicalizePredicate columns compareTo)

/-- NOTs go down through AND and OR. Below a NOT on any other node the shuttle just goes on. -/
def toNnf [DecidableEq β] : RexFilter β → RexFilter β
  | .junction kind operands =>
    composeConDisjunction kind ((conDisjunctions kind (.junction kind operands)).attach.map
      fun ⟨node,_⟩ => toNnf node)
  | .not (.junction kind operands) =>
    composeConDisjunction kind.other ((conDisjunctions kind (.junction kind operands)).attach.map
      fun ⟨node,_⟩ => toNnf (.not node))
  | .not operand => .not (toNnf operand)
  | .leaf predicate => .leaf predicate
  | .literal value => .literal value
  termination_by node => sizeOf node
  decreasing_by
    · exact sizeOf_listed ‹_›
    · have smaller := sizeOf_listed ‹_›
      rw [not.sizeOf_spec,not.sizeOf_spec]
      omega
    · rw [not.sizeOf_spec]
      omega

section Nnf
variable [DecidableEq β] {kind : Connective}

theorem toNnf_step (node : RexFilter β) : toNnf node = match node with
    | .junction kind operands => composeConDisjunction kind ((conDisjunctions kind (.junction kind operands)).map toNnf)
    | .not (.junction kind operands) =>
      composeConDisjunction kind.other ((conDisjunctions kind (.junction kind operands)).map fun node => toNnf (.not node))
    | .not operand => .not (toNnf operand)
    | node => node := by
  rw [toNnf.eq_def]
  cases node with
  | junction kind operands => simp
  | not operand =>
    cases operand with
    | junction kind operands => simp
    | not operand => rfl
    | leaf predicate => rfl
    | literal value => rfl
  | leaf predicate => rfl
  | literal value => rfl

theorem toNnf_junction (operands : List (RexFilter β)) : toNnf (.junction kind operands) =
    composeConDisjunction kind ((conDisjunctions kind (.junction kind operands)).map toNnf) :=
  toNnf_step _

theorem toNnf_not_junction (operands : List (RexFilter β)) : toNnf (.not (.junction kind operands)) =
    composeConDisjunction kind.other ((conDisjunctions kind (.junction kind operands)).map fun node => toNnf (.not node)) :=
  toNnf_step _

@[simp] theorem toNnf_leaf (predicate : β) : toNnf (.leaf predicate) = .leaf predicate := toNnf_step _

@[simp] theorem toNnf_literal (value : Bool) : toNnf (.literal value : RexFilter β) = .literal value := toNnf_step _

@[simp] theorem toNnf_not_leaf (predicate : β) : toNnf (.not (.leaf predicate)) = .not (.leaf predicate) :=
  (toNnf_step _).trans (congrArg RexFilter.not (toNnf_leaf predicate))

@[simp] theorem toNnf_not_literal (value : Bool) :
    toNnf (.not (.literal value) : RexFilter β) = .not (.literal value) :=
  (toNnf_step _).trans (congrArg RexFilter.not (toNnf_literal value))

theorem toNnf_not_not (operand : RexFilter β) : toNnf (.not (.not operand)) = .not (toNnf (.not operand)) :=
    toNnf_step _

omit [DecidableEq β] in
theorem nnf_ind {holds : RexFilter β → Prop}
    (junction : ∀ kind operands, (∀ node ∈ conDisjunctions kind (.junction kind operands), holds node) →
      holds (.junction kind operands))
    (notJunction : ∀ kind operands, (∀ node ∈ conDisjunctions kind (.junction kind operands), holds (.not node)) →
      holds (.not (.junction kind operands)))
    (notNot : ∀ operand, holds (.not operand) → holds (.not (.not operand)))
    (notLeaf : ∀ predicate, holds (.not (.leaf predicate))) (notLiteral : ∀ value, holds (.not (.literal value)))
    (leaf : ∀ predicate, holds (.leaf predicate)) (literal : ∀ value, holds (.literal value))
    (node : RexFilter β) : holds node := by
  induction node using toNnf.induct with
  | case1 kind operands each => exact junction kind operands each
  | case2 kind operands each => exact notJunction kind operands each
  | case3 operand other ih =>
    cases operand with
    | junction kind operands => exact absurd rfl (other kind operands)
    | not operand => exact notNot operand ih
    | leaf predicate => exact notLeaf predicate
    | literal value => exact notLiteral value
  | case4 predicate => exact leaf predicate
  | case5 value => exact literal value

theorem eval_toNnf (assignment : β → Option Bool) (node : RexFilter β) :
    eval assignment (toNnf node) = eval assignment node := by
  induction node using nnf_ind with
  | junction kind operands each =>
    have whole : combine kind.neutral ((conDisjunctions kind (.junction kind operands)).map (eval assignment)) =
      eval assignment (.junction kind operands) := combine_conDisjunctions _
    rw [toNnf_junction,eval_composeConDisjunction,List.map_map,← whole]
    exact congrArg _ (List.map_congr_left each)
  | notJunction kind operands each =>
    have whole : combine kind.neutral ((conDisjunctions kind (.junction kind operands)).map (eval assignment)) =
      eval assignment (.junction kind operands) := combine_conDisjunctions _
    rw [toNnf_not_junction,eval_composeConDisjunction,List.map_map,Connective.neutral_other,eval,← whole,
      ← combine_not,List.map_map]
    exact congrArg _ (List.map_congr_left each)
  | notNot operand ih =>
    rw [toNnf_not_not]
    exact congrArg (Option.map (!·)) ih
  | notLeaf predicate => rw [toNnf_not_leaf]
  | notLiteral value => rw [toNnf_not_literal]
  | leaf predicate => rw [toNnf_leaf]
  | literal value => rw [toNnf_literal]

end Nnf

section Truth
variable {V : Type} [LT V] [LE V] [DecidableEq V] [DecidableLT V] [DecidableLE V]

def compareValues : SqlKind → V → V → Bool
  | .lessThan, left, right => left < right
  | .greaterThan, left, right => left > right
  | .lessThanOrEqual, left, right => left ≤ right
  | .greaterThanOrEqual, left, right => left ≥ right
  | .equals, left, right => left = right
  | .notEquals, left, right => left ≠ right
  | _, _, _ => false

/-- The truth value on a row: unknown where an expression is null. -/
def truthOf (value : ε → Option V) (truth : β → Option Bool) : Predicate ε β → Option Bool
  | .comparison compared => do
    let left ← value compared.left
    let right ← value compared.right
    some (compareValues compared.kind left right)
  | .other predicate => truth predicate

theorem compareValues_mirror {kind : SqlKind} (left right : V) :
    compareValues (mirrorOperation kind) right left = compareValues kind left right := by
  cases kind <;> simp [compareValues,mirrorOperation,eq_comm]

theorem truthOf_mirror (value : ε → Option V) (truth : β → Option Bool) (compared : Comparison ε) :
    truthOf value truth (.comparison (mirror compared)) = truthOf value truth (.comparison compared) := by
  simp only [truthOf,mirror]
  generalize value compared.left = left
  generalize value compared.right = right
  cases left <;> cases right <;> simp [compareValues_mirror]

variable {columns : ε → Finset Nat} {compareTo : Finset Nat → Finset Nat → Int}

theorem truthOf_canonicalizePredicate (value : ε → Option V) (truth : β → Option Bool) (predicate : Predicate ε β) :
    truthOf value truth (canonicalizePredicate columns compareTo predicate) = truthOf value truth predicate := by
  cases predicate with
  | comparison compared =>
    unfold canonicalizePredicate
    dsimp only
    split
    · exact truthOf_mirror value truth compared
    · split
      · split
        · exact truthOf_mirror value truth compared
        · rfl
      · rfl
  | other predicate => rfl

/-- Of an expression with columns and one without the one with columns is the left one. -/
def Oriented (columns : ε → Finset Nat) (compared : Comparison ε) : Prop :=
  columns compared.left = ∅ → columns compared.right = ∅

theorem canonicalizePredicate_oriented {predicate : Predicate ε β} {compared : Comparison ε}
    (result : canonicalizePredicate columns compareTo predicate = .comparison compared) :
    Oriented columns compared := by
  cases predicate with
  | comparison given =>
    unfold canonicalizePredicate at result
    dsimp only at result
    split at result
    next turned =>
      cases result
      exact fun empty => absurd empty turned.2
    next kept =>
      have stays : columns given.left = ∅ → columns given.right = ∅ :=
          fun left => by_contra fun right => kept ⟨left,right⟩
      split at result
      next both =>
        split at result
        · cases result
          exact fun empty => absurd empty both.2
        · cases result
          exact stays
      next =>
        cases result
        exact stays
  | other predicate => cases result

end Truth

end SimpleExpressionCanonicalizer
end Hermes.Calcite
