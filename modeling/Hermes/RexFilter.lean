import Hermes.Library.ThreeValued

/-! Filter conditions as the optimizer's rules take them apart: trees of conjunctions, disjunctions and
negations over leaves, with Calcite's functions that list the operands of a node and put operands together. -/
namespace Hermes.Calcite
open Library.ThreeValued

inductive Connective where
  | and
  | or
  deriving DecidableEq

namespace Connective

def neutral : Connective → Bool
  | and => true
  | or => false

def other : Connective → Connective
  | and => or
  | or => and

theorem neutral_other (kind : Connective) : kind.other.neutral = !kind.neutral := by
  cases kind <;> rfl

end Connective

/-- A leaf is any other predicate that is not always true or always false. -/
inductive RexFilter (β : Type) where
  | junction (kind : Connective) (operands : List (RexFilter β))
  | not (operand : RexFilter β)
  | leaf (predicate : β)
  | literal (value : Bool)

namespace RexFilter
variable {β : Type}

theorem ind {holds : RexFilter β → Prop}
    (junction : ∀ kind operands, (∀ operand ∈ operands, holds operand) → holds (.junction kind operands))
    (not : ∀ operand, holds operand → holds (.not operand)) (leaf : ∀ predicate, holds (.leaf predicate))
    (literal : ∀ value, holds (.literal value)) (node : RexFilter β) : holds node :=
  @RexFilter.rec β holds (fun operands => ∀ operand ∈ operands, holds operand) junction not leaf literal
    (fun _ member => absurd member List.not_mem_nil)
    (fun _ _ first rest => List.forall_mem_cons.mpr ⟨first,rest⟩) node

section Equality
variable [DecidableEq β]

mutual
/-- Two nodes of the same digest. -/
def same : RexFilter β → RexFilter β → Bool
  | .junction kind operands,.junction kind' operands' => kind = kind' && sameAll operands operands'
  | .not operand,.not operand' => same operand operand'
  | .leaf predicate,.leaf predicate' => predicate = predicate'
  | .literal value,.literal value' => value = value'
  | _,_ => false
  termination_by structural node => node

def sameAll : List (RexFilter β) → List (RexFilter β) → Bool
  | [],[] => true
  | operand::operands,operand'::operands' => same operand operand' && sameAll operands operands'
  | _,_ => false
  termination_by structural operands => operands
end

theorem same_iff (node node' : RexFilter β) : same node node' = true ↔ node = node' := by
  induction node using ind generalizing node' with
  | junction kind operands each =>
    cases node' with
    | junction kind' operands' =>
      have all : sameAll operands operands' = true ↔ operands = operands' := by
        induction operands generalizing operands' with
        | nil => cases operands' <;> simp [sameAll]
        | cons operand operands ih =>
          cases operands' with
          | nil => simp [sameAll]
          | cons operand' operands' =>
            rw [sameAll,Bool.and_eq_true,each operand List.mem_cons_self,
              ih (fun later inside => each later (List.mem_cons_of_mem _ inside)),List.cons.injEq]
      rw [same,Bool.and_eq_true,decide_eq_true_iff,all,junction.injEq]
    | _ => simp [same]
  | not operand ih =>
    cases node' with
    | not operand' => rw [same,ih,not.injEq]
    | _ => simp [same]
  | leaf predicate => cases node' <;> simp [same]
  | literal value => cases node' <;> simp [same]

instance instDecidableEq : DecidableEq (RexFilter β) := fun node node' => decidable_of_iff _ (same_iff node node')

instance instLawfulBEq : LawfulBEq (RexFilter β) := inferInstance

end Equality

/-- The value of a node that is always true or always false. -/
def constant? : RexFilter β → Option Bool
  | .literal value => some value
  | .not operand => operand.constant?.map (!·)
  | _ => none

mutual
/-- `RelOptUtil.conjunctions` and `disjunctions`: the operands of nested calls of the same kind. -/
def conDisjunctions (kind : Connective) : RexFilter β → List (RexFilter β)
  | .junction kind' operands => if kind' = kind then allConDisjunctions kind operands else [.junction kind' operands]
  | .not operand => if constant? (.not operand) = some kind.neutral then [] else [.not operand]
  | .leaf predicate => [.leaf predicate]
  | .literal value => if value = kind.neutral then [] else [.literal value]
  termination_by structural node => node

def allConDisjunctions (kind : Connective) : List (RexFilter β) → List (RexFilter β)
  | [] => []
  | operand::operands => conDisjunctions kind operand ++ allConDisjunctions kind operands
  termination_by structural operands => operands
end

section Fold
variable {γ : Type} (call : Connective → List (RexFilter β) → List (RexFilter β × γ) → γ) (atom : RexFilter β → γ)

mutual
def foldOperands (kind : Connective) : RexFilter β → List (RexFilter β × γ)
  | .junction kind' operands =>
    if kind' = kind then foldAllOperands kind operands
    else [(.junction kind' operands,call kind' operands (foldAllOperands kind' operands))]
  | .not operand => if constant? (.not operand) = some kind.neutral then [] else [(.not operand,atom (.not operand))]
  | .leaf predicate => [(.leaf predicate,atom (.leaf predicate))]
  | .literal value => if value = kind.neutral then [] else [(.literal value,atom (.literal value))]
  termination_by structural node => node

def foldAllOperands (kind : Connective) : List (RexFilter β) → List (RexFilter β × γ)
  | [] => []
  | operand::operands => foldOperands kind operand ++ foldAllOperands kind operands
  termination_by structural operands => operands
end

/-- A recursion over the operands that `conDisjunctions` lists, down to the nodes that are no calls of either kind. -/
def fold : RexFilter β → γ
  | .junction kind operands => call kind operands (foldAllOperands call atom kind operands)
  | node => atom node

end Fold

section Meaning
variable (assignment : β → Option Bool)

mutual
def eval : RexFilter β → Option Bool
  | .junction kind operands => combine kind.neutral (evalAll operands)
  | .not operand => (eval operand).map (!·)
  | .leaf predicate => assignment predicate
  | .literal value => some value
  termination_by structural node => node

def evalAll : List (RexFilter β) → List (Option Bool)
  | [] => []
  | operand::operands => eval operand::evalAll operands
  termination_by structural operands => operands
end

end Meaning

/-- `RexUtil.composeConjunction` and `composeDisjunction`, as Calcite documents them. -/
def composeConDisjunction [DecidableEq β] (kind : Connective) (nodes : List (RexFilter β)) : RexFilter β :=
  match (nodes.flatMap (conDisjunctions kind)).eraseDups with
  | [] => .literal kind.neutral
  | [node] => node
  | operands => if operands.any fun operand => constant? operand = some (!kind.neutral) then .literal (!kind.neutral) else .junction kind operands

section Lemmas
variable {kind : Connective} {assignment : β → Option Bool}

theorem allConDisjunctions_eq (operands : List (RexFilter β)) :
    allConDisjunctions kind operands = operands.flatMap (conDisjunctions kind) := by
  induction operands with
  | nil => rfl
  | cons operand operands ih => rw [allConDisjunctions,ih,List.flatMap_cons]

theorem evalAll_eq (operands : List (RexFilter β)) : evalAll assignment operands = operands.map (eval assignment) := by
  induction operands with
  | nil => rfl
  | cons operand operands ih => rw [evalAll,ih,List.map_cons]

theorem eval_junction (operands : List (RexFilter β)) :
    eval assignment (.junction kind operands) = combine kind.neutral (operands.map (eval assignment)) := by
  rw [eval,evalAll_eq]

theorem conDisjunctions_junction (operands : List (RexFilter β)) :
    conDisjunctions kind (.junction kind operands) = operands.flatMap (conDisjunctions kind) := by
  rw [conDisjunctions,if_pos rfl,allConDisjunctions_eq]

theorem eval_of_constant {node : RexFilter β} {value : Bool} (known : constant? node = some value) :
    eval assignment node = some value := by
  induction node using ind generalizing value with
  | junction kind operands _ => cases known
  | not operand ih =>
    obtain ⟨inner,found,rfl⟩ := Option.map_eq_some_iff.mp known
    rw [eval,ih found]
    rfl
  | leaf predicate => cases known
  | literal value => exact known

theorem combine_conDisjunctions (node : RexFilter β) :
    combine kind.neutral ((conDisjunctions kind node).map (eval assignment)) = eval assignment node := by
  induction node using ind with
  | junction kind' operands each =>
    by_cases same : kind' = kind
    · subst same
      rw [conDisjunctions_junction,List.map_flatMap,combine_flatMap,eval_junction]
      exact congrArg _ (List.map_congr_left each)
    · rw [conDisjunctions,if_neg same,List.map_singleton,combine_singleton]
  | not operand _ =>
    rw [conDisjunctions]
    split
    next known => rw [List.map_nil,combine_nil,eval_of_constant known]
    next => rw [List.map_singleton,combine_singleton]
  | leaf predicate => rw [conDisjunctions,List.map_singleton,combine_singleton]
  | literal value =>
    rw [conDisjunctions]
    split
    next same => rw [same,List.map_nil,combine_nil,eval]
    next => rw [List.map_singleton,combine_singleton]

theorem conDisjunctions_ind {holds : RexFilter β → Prop}
    (junction : ∀ kind operands, (∀ child ∈ conDisjunctions kind (.junction kind operands), holds child) →
      holds (.junction kind operands))
    (not : ∀ operand, holds (.not operand)) (leaf : ∀ predicate, holds (.leaf predicate))
    (literal : ∀ value, holds (.literal value)) (node : RexFilter β) : holds node := by
  have both : holds node ∧ ∀ kind, ∀ child ∈ conDisjunctions kind node, holds child := by
    induction node using ind with
    | junction kind operands each =>
      have listed : ∀ kind', ∀ child ∈ conDisjunctions kind' (.junction kind' operands), holds child := by
        intro kind' child inside
        rw [conDisjunctions_junction] at inside
        obtain ⟨operand,there,listed⟩ := List.mem_flatMap.mp inside
        exact (each operand there).2 kind' child listed
      have whole := junction kind operands (listed kind)
      refine ⟨whole,fun kind' child inside => ?_⟩
      rw [conDisjunctions] at inside
      split at inside
      next same =>
        subst same
        exact listed kind child (conDisjunctions_junction operands ▸ allConDisjunctions_eq operands ▸ inside)
      next => exact List.mem_singleton.mp inside ▸ whole
    | not operand _ =>
      refine ⟨not operand,fun kind child inside => ?_⟩
      rw [conDisjunctions] at inside
      split at inside
      next => exact absurd inside List.not_mem_nil
      next => exact List.mem_singleton.mp inside ▸ not operand
    | leaf predicate => exact ⟨leaf predicate,fun kind child inside => List.mem_singleton.mp inside ▸ leaf predicate⟩
    | literal value =>
      refine ⟨literal value,fun kind child inside => ?_⟩
      rw [conDisjunctions] at inside
      split at inside
      next => exact absurd inside List.not_mem_nil
      next => exact List.mem_singleton.mp inside ▸ literal value
  exact both.1

section Folded
variable {γ : Type} {call : Connective → List (RexFilter β) → List (RexFilter β × γ) → γ} {atom : RexFilter β → γ}

theorem foldOperands_eq (node : RexFilter β) :
    foldOperands call atom kind node = (conDisjunctions kind node).map fun child => (child,fold call atom child) := by
  induction node using ind with
  | junction kind' operands each =>
    rw [foldOperands,conDisjunctions]
    split
    next same =>
      clear same
      induction operands with
      | nil => rfl
      | cons operand operands ih =>
        rw [foldAllOperands,allConDisjunctions,List.map_append,each operand List.mem_cons_self,
          ih fun later inside => each later (List.mem_cons_of_mem _ inside)]
    next => rfl
  | not operand _ =>
    rw [foldOperands,conDisjunctions]
    split <;> rfl
  | leaf predicate => rfl
  | literal value =>
    rw [foldOperands,conDisjunctions]
    split <;> rfl

theorem fold_junction (operands : List (RexFilter β)) : fold call atom (.junction kind operands) =
    call kind operands ((conDisjunctions kind (.junction kind operands)).map fun child => (child,fold call atom child)) := by
  rw [fold,conDisjunctions_junction]
  apply congrArg
  induction operands with
  | nil => rfl
  | cons operand operands ih => rw [foldAllOperands,foldOperands_eq,ih,List.flatMap_cons,List.map_append]

end Folded

theorem conDisjunctions_of_mem {node child : RexFilter β} (inside : child ∈ conDisjunctions kind node) :
    conDisjunctions kind child = [child] := by
  induction node using ind with
  | junction kind' operands each =>
    by_cases same : kind' = kind
    · subst same
      rw [conDisjunctions_junction] at inside
      obtain ⟨operand,there,listed⟩ := List.mem_flatMap.mp inside
      exact each operand there listed
    · rw [conDisjunctions,if_neg same] at inside
      rw [List.mem_singleton.mp inside,conDisjunctions,if_neg same]
  | not operand _ =>
    rw [conDisjunctions] at inside
    split at inside
    next => exact absurd inside List.not_mem_nil
    next varies => rw [List.mem_singleton.mp inside,conDisjunctions,if_neg varies]
  | leaf predicate => rw [List.mem_singleton.mp inside,conDisjunctions]
  | literal value =>
    rw [conDisjunctions] at inside
    split at inside
    next => exact absurd inside List.not_mem_nil
    next varies => rw [List.mem_singleton.mp inside,conDisjunctions,if_neg varies]

variable [DecidableEq β]

theorem eval_composeConDisjunction (nodes : List (RexFilter β)) :
    eval assignment (composeConDisjunction kind nodes) = combine kind.neutral (nodes.map (eval assignment)) := by
  have flat : combine kind.neutral ((nodes.flatMap (conDisjunctions kind)).eraseDups.map (eval assignment)) =
      combine kind.neutral (nodes.map (eval assignment)) := by
    have parts : nodes.map (eval assignment) =
        nodes.map fun node => combine kind.neutral ((conDisjunctions kind node).map (eval assignment)) :=
      List.map_congr_left fun node _ => (combine_conDisjunctions node).symm
    rw [parts,← combine_flatMap,← List.map_flatMap]
    apply combine_of_mem_iff
    intro truth
    rw [List.mem_map,List.mem_map]
    exact exists_congr fun node => and_congr List.mem_eraseDups Iff.rfl
  rw [← flat]
  unfold composeConDisjunction
  split
  next none => rw [none,List.map_nil,combine_nil,eval]
  next node one => rw [one,List.map_singleton,combine_singleton]
  next operands _ _ =>
    split
    next absorbing =>
      obtain ⟨operand,inside,known⟩ := List.any_eq_true.mp absorbing
      rw [eval,eq_comm,combine_eq_absorbing]
      exact List.mem_map.mpr ⟨operand,inside,eval_of_constant (of_decide_eq_true known)⟩
    next => rw [eval_junction]

theorem conDisjunctions_composeConDisjunction {nodes : List (RexFilter β)}
    (flat : ∀ node ∈ nodes, conDisjunctions kind node = [node]) :
    conDisjunctions kind (composeConDisjunction kind nodes) = nodes.eraseDups ∨
      (∃ node ∈ nodes, constant? node = some (!kind.neutral)) ∧
      composeConDisjunction kind nodes = .literal (!kind.neutral) := by
  have whole : ∀ some : List (RexFilter β), (∀ node ∈ some, node ∈ nodes) →
      some.flatMap (conDisjunctions kind) = some := by
    intro some fewer
    rw [List.flatMap_congr fun node inside => flat node (fewer node inside)]
    exact List.flatMap_singleton' some
  have fewer : ∀ node ∈ nodes.eraseDups, node ∈ nodes := fun node inside => List.mem_eraseDups.mp inside
  unfold composeConDisjunction
  rw [whole nodes fun _ inside => inside]
  revert fewer
  generalize nodes.eraseDups = operands
  intro fewer
  split
  next =>
    rw [conDisjunctions,if_pos rfl]
    exact .inl rfl
  next node => exact .inl (flat node (fewer node List.mem_cons_self))
  next =>
    split
    next absorbing =>
      obtain ⟨operand,inside,known⟩ := List.any_eq_true.mp absorbing
      exact .inr ⟨⟨operand,fewer operand inside,of_decide_eq_true known⟩,rfl⟩
    next => exact .inl ((conDisjunctions_junction _).trans (whole _ fewer))

end Lemmas
end RexFilter
end Hermes.Calcite
