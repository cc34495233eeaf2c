import Mathlib.Data.List.Basic

/-! Trees of conjunctions and disjunctions over leaves that may be unknown.
Pruning drops leaves that are known to be false: a conjunction with such a
branch goes away, a disjunction loses the branch. -/
namespace Hermes.Library.PredicateTree
variable {β : Type}

def kand : Option Bool → Option Bool → Option Bool
  | some false, _ => some false
  | _, some false => some false
  | some true, some true => some true
  | _, _ => none

def kor : Option Bool → Option Bool → Option Bool
  | some true, _ => some true
  | _, some true => some true
  | some false, some false => some false
  | _, _ => none

@[simp] theorem kand_false (truth : Option Bool) : kand truth (some false) = some false := by
  rcases truth with _ | _ | _ <;> rfl

@[simp] theorem false_kand (truth : Option Bool) : kand (some false) truth = some false := rfl

@[simp] theorem false_kor (truth : Option Bool) : kor (some false) truth = truth := by
  rcases truth with _ | _ | _ <;> rfl

@[simp] theorem kor_false (truth : Option Bool) : kor truth (some false) = truth := by
  rcases truth with _ | _ | _ <;> rfl

inductive Tree (β : Type) where
  | and_ (children : List (Tree β))
  | or_ (children : List (Tree β))
  | leaf (content : β)

namespace Tree

theorem ind {holds : Tree β → Prop} (and_ : ∀ children, (∀ child ∈ children, holds child) → holds (.and_ children))
    (or_ : ∀ children, (∀ child ∈ children, holds child) → holds (.or_ children))
    (leaf : ∀ content, holds (.leaf content)) (tree : Tree β) : holds tree :=
  @Tree.rec β holds (fun children => ∀ child ∈ children, holds child) and_ or_ leaf
    (fun _ member => absurd member List.not_mem_nil)
    (fun _ _ first rest child member => (List.mem_cons.mp member).elim (fun same => same ▸ first) (rest child)) tree

section Definitions
variable (truth : β → Option Bool) (keep : β → Bool)

mutual

def eval : Tree β → Option Bool
  | .and_ children => evalAnd children
  | .or_ children => evalOr children
  | .leaf content => truth content

def evalAnd : List (Tree β) → Option Bool
  | [] => some true
  | child::children => kand (eval child) (evalAnd children)

def evalOr : List (Tree β) → Option Bool
  | [] => some false
  | child::children => kor (eval child) (evalOr children)

end

def disjunction : List (Tree β) → Option (Tree β)
  | [] => none
  | [only] => some only
  | several => some (.or_ several)

mutual

def prune : Tree β → Option (Tree β)
  | .and_ children => (pruneAnd children).map .and_
  | .or_ children => disjunction (pruneOr children)
  | .leaf content => if keep content then some (.leaf content) else none

def pruneAnd : List (Tree β) → Option (List (Tree β))
  | [] => some []
  | child::children => (prune child).bind (fun pruned => (pruneAnd children).map (pruned::·))

def pruneOr : List (Tree β) → List (Tree β)
  | [] => []
  | child::children => (prune child).toList ++ pruneOr children

end

mutual

/-- The tree is false because of leaves that are not kept. -/
def excluded : Tree β → Bool
  | .and_ children => excludedAny children
  | .or_ children => excludedAll children
  | .leaf content => !keep content

def excludedAny : List (Tree β) → Bool
  | [] => false
  | child::children => excluded child || excludedAny children

def excludedAll : List (Tree β) → Bool
  | [] => true
  | child::children => excluded child && excludedAll children

end

mutual

/-- Every leaf satisfies `P`. -/
def Every (P : β → Prop) : Tree β → Prop
  | .and_ children => EveryOf P children
  | .or_ children => EveryOf P children
  | .leaf content => P content

def EveryOf (P : β → Prop) : List (Tree β) → Prop
  | [] => True
  | child::children => Every P child ∧ EveryOf P children

end

end Definitions

section Truth
variable {truth : β → Option Bool} {keep : β → Bool}

theorem everyOf_iff {P : β → Prop} {children : List (Tree β)} :
    EveryOf P children ↔ ∀ child ∈ children, Every P child := by
  induction children with
  | nil => simp [EveryOf]
  | cons child children ih => simp [EveryOf,ih]

theorem Every.imp {P Q : β → Prop} (weaker : ∀ content, P content → Q content) {tree : Tree β} (every : Every P tree) :
    Every Q tree := by
  induction tree using ind with
  | and_ children each =>
    rw [Every,everyOf_iff] at every ⊢
    exact fun child member => each child member (every child member)
  | or_ children each =>
    rw [Every,everyOf_iff] at every ⊢
    exact fun child member => each child member (every child member)
  | leaf content => exact weaker content every

theorem eval_disjunction {children : List (Tree β)} {tree : Tree β} (joined : disjunction children = some tree) :
    eval truth tree = evalOr truth children := by
  match children with
  | [] => cases joined
  | [only] =>
    rw [← Option.some.inj joined]
    simp [evalOr]
  | first::second::rest =>
    rw [← Option.some.inj joined]
    rfl

theorem disjunction_eq_none {children : List (Tree β)} : disjunction children = none ↔ children = [] := by
  match children with
  | [] => simp [disjunction]
  | [only] => simp [disjunction]
  | first::second::rest => simp [disjunction]

/-- What is left of a tree has its truth value, and a tree that is pruned away is false. -/
def Agrees (truth : β → Option Bool) (tree : Tree β) : Option (Tree β) → Prop
  | some pruned => eval truth pruned = eval truth tree
  | none => eval truth tree = some false

private theorem agrees_and {children : List (Tree β)}
    (each : ∀ child ∈ children, Agrees truth child (prune keep child)) :
    match pruneAnd keep children with
    | some pruned => evalAnd truth pruned = evalAnd truth children
    | none => evalAnd truth children = some false := by
  induction children with
  | nil => rfl
  | cons child children ih =>
    have first := each child List.mem_cons_self
    have rest := ih (fun other member => each other (List.mem_cons_of_mem _ member))
    unfold pruneAnd
    cases pruned : prune keep child with
    | none =>
      rw [pruned] at first
      change evalAnd truth (child::children) = some false
      rw [evalAnd,show eval truth child = some false from first,false_kand]
    | some kept =>
      rw [pruned] at first
      have same : eval truth kept = eval truth child := first
      cases others : pruneAnd keep children with
      | none =>
        rw [others] at rest
        change evalAnd truth (child::children) = some false
        rw [evalAnd,show evalAnd truth children = some false from rest,kand_false]
      | some more =>
        rw [others] at rest
        change evalAnd truth (kept::more) = evalAnd truth (child::children)
        rw [evalAnd,evalAnd,same,show evalAnd truth more = evalAnd truth children from rest]

private theorem agrees_or {children : List (Tree β)}
    (each : ∀ child ∈ children, Agrees truth child (prune keep child)) :
    evalOr truth (pruneOr keep children) = evalOr truth children := by
  induction children with
  | nil => rfl
  | cons child children ih =>
    have first := each child List.mem_cons_self
    have rest := ih (fun other member => each other (List.mem_cons_of_mem _ member))
    rw [pruneOr]
    cases pruned : prune keep child with
    | none =>
      rw [pruned] at first
      rw [evalOr,show eval truth child = some false from first,false_kor]
      exact rest
    | some kept =>
      rw [pruned] at first
      change evalOr truth (kept::pruneOr keep children) = _
      rw [evalOr,evalOr,rest,show eval truth kept = eval truth child from first]

theorem agrees_prune {tree : Tree β}
    (false_ : Every (fun content => keep content = false → truth content = some false) tree) :
    Agrees truth tree (prune keep tree) := by
  induction tree using ind with
  | and_ children each =>
    rw [Every,everyOf_iff] at false_
    have all := agrees_and (fun child member => each child member (false_ child member))
    rw [prune]
    cases pruned : pruneAnd keep children with
    | none => rwa [pruned] at all
    | some kept => rwa [pruned] at all
  | or_ children each =>
    rw [Every,everyOf_iff] at false_
    have all := agrees_or (fun child member => each child member (false_ child member))
    rw [prune]
    cases joined : disjunction (pruneOr keep children) with
    | none =>
      rw [disjunction_eq_none.mp joined] at all
      exact all.symm
    | some pruned => exact (eval_disjunction joined).trans all
  | leaf content =>
    rw [prune]
    split
    next => rfl
    next dropped => exact false_ (Bool.eq_false_iff.mpr dropped)

end Truth

section Exclusion
variable {keep : β → Bool}

theorem prune_eq_none (tree : Tree β) : prune keep tree = none ↔ excluded keep tree = true := by
  induction tree using ind with
  | and_ children each =>
    rw [prune,excluded,Option.map_eq_none_iff]
    induction children with
    | nil => simp [pruneAnd,excludedAny]
    | cons child children ih =>
      have first := each child List.mem_cons_self
      have rest := ih (fun other member => each other (List.mem_cons_of_mem _ member))
      rw [pruneAnd,excludedAny,Bool.or_eq_true,← first,← rest]
      cases prune keep child <;> simp
  | or_ children each =>
    rw [prune,excluded,disjunction_eq_none]
    induction children with
    | nil => simp [pruneOr,excludedAll]
    | cons child children ih =>
      have first := each child List.mem_cons_self
      have rest := ih (fun other member => each other (List.mem_cons_of_mem _ member))
      rw [pruneOr,excludedAll,Bool.and_eq_true,← first,← rest]
      cases prune keep child <;> simp
  | leaf content => simp [prune,excluded]

end Exclusion

section Twice
variable (first second : β → Bool)

/-- Leaves that both passes keep. -/
def both (content : β) : Bool := first content && second content

private theorem pruneOr_eq (keep : β → Bool) (children : List (Tree β)) :
    pruneOr keep children = children.flatMap (fun child => (prune keep child).toList) := by
  induction children with
  | nil => rfl
  | cons child children ih => rw [pruneOr,ih,List.flatMap_cons]

private theorem prune_disjunction (children : List (Tree β)) :
    (disjunction children).bind (prune second) = disjunction (pruneOr second children) := by
  match children with
  | [] => rfl
  | [only] =>
    rw [pruneOr,pruneOr,List.append_nil]
    change prune second only = _
    cases prune second only <;> rfl
  | one::other::rest => rfl

theorem prune_prune (tree : Tree β) : (prune first tree).bind (prune second) = prune (both first second) tree := by
  induction tree using ind with
  | and_ children each =>
    have all : (pruneAnd first children).bind (pruneAnd second) = pruneAnd (both first second) children := by
      induction children with
      | nil => rfl
      | cons child children ih =>
        have one := each child List.mem_cons_self
        have rest := ih (fun other member => each other (List.mem_cons_of_mem _ member))
        rw [pruneAnd,pruneAnd,← one,← rest]
        cases prune first child with
        | none => rfl
        | some pruned =>
          cases pruneAnd first children with
          | none =>
            rw [Option.bind_some,Option.bind_some]
            cases prune second pruned <;> rfl
          | some others => rfl
    rw [prune,prune,← all]
    cases pruneAnd first children <;> rfl
  | or_ children each =>
    rw [prune,prune,prune_disjunction]
    congr 1
    rw [pruneOr_eq,pruneOr_eq,pruneOr_eq,List.flatMap_assoc]
    apply List.flatMap_congr
    intro child member
    rw [← each child member]
    cases prune first child <;> simp
  | leaf content =>
    rw [prune,prune,both]
    cases kept : first content <;> simp [prune]

end Twice

end Tree

end Hermes.Library.PredicateTree
