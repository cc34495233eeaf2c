import Hermes.RexFilter

/-! `EnhancedFilterJoinPruner`: operands of a condition that contain all operands of another one are
left out, and predicates that have already been pushed below a join are not pushed again. -/
namespace Hermes.Calcite.EnhancedFilterJoinPruner
open RexFilter Library.ThreeValued
variable {β : Type} [DecidableEq β]

def childNodes (kind : Connective) : RexFilter β → List (RexFilter β)
  | .junction kind' operands => if kind' = kind then conDisjunctions kind (.junction kind' operands) else [.junction kind' operands]
  | node => [node]

def isSuperset (e1 e2 : RexFilter β) (kind : Connective) : Bool :=
  (childNodes kind e2).all fun childNode => childNode ∈ childNodes kind e1

/-- The operands that are left: one of each digest, and none that contains another one. -/
def pruneChildNodes (kind : Connective) (childNodes : List (RexFilter β)) : List (RexFilter β) :=
  childNodes.eraseDups.filter fun childNode =>
    !childNodes.eraseDups.any fun nodeToCompare => nodeToCompare ≠ childNode && isSuperset childNode nodeToCompare kind.other

def prune (kind : Connective) (childNodes : List (RexFilter β)) : RexFilter β :=
  composeConDisjunction kind (pruneChildNodes kind childNodes)

def pruneSuperset (toLeaf : Bool) (node : RexFilter β) : RexFilter β :=
  if toLeaf then fold (fun kind _ children => prune kind (children.map Prod.snd)) id node
  else
    match node with
    | .junction kind operands => prune kind (conDisjunctions kind (.junction kind operands))
    | node => node

section Truth
variable {kind : Connective} {assignment : β → Option Bool}

def Resolves (kind : Connective) (childNodes : List (RexFilter β)) : Prop :=
  ∀ childNode ∈ childNodes, ∃ kept ∈ childNodes, isSuperset childNode kept kind.other = true ∧
    ∀ nodeToCompare ∈ childNodes, nodeToCompare ≠ kept → isSuperset kept nodeToCompare kind.other = false

instance instDecidableResolves (kind : Connective) (childNodes : List (RexFilter β)) :
    Decidable (Resolves kind childNodes) :=
  inferInstanceAs (Decidable (∀ childNode ∈ childNodes, ∃ kept ∈ childNodes, isSuperset childNode kept kind.other = true ∧
    ∀ nodeToCompare ∈ childNodes, nodeToCompare ≠ kept → isSuperset kept nodeToCompare kind.other = false))

/-- What is compared at every node that is pruned resolves. -/
inductive ResolvesToLeaf : RexFilter β → Prop where
  | junction (kind : Connective) (operands : List (RexFilter β))
      (here : Resolves kind ((conDisjunctions kind (.junction kind operands)).map (pruneSuperset true)))
      (below : ∀ child ∈ conDisjunctions kind (.junction kind operands), ResolvesToLeaf child) :
      ResolvesToLeaf (.junction kind operands)
  | not (operand : RexFilter β) : ResolvesToLeaf (.not operand)
  | leaf (predicate : β) : ResolvesToLeaf (.leaf predicate)
  | literal (value : Bool) : ResolvesToLeaf (.literal value)

def Prunable (toLeaf : Bool) (node : RexFilter β) : Prop :=
  if toLeaf then ResolvesToLeaf node
  else ∀ kind operands, node = .junction kind operands → Resolves kind (conDisjunctions kind node)

theorem pruneSuperset_true (kind : Connective) (operands : List (RexFilter β)) :
    pruneSuperset true (.junction kind operands) =
    prune kind ((conDisjunctions kind (.junction kind operands)).map (pruneSuperset true)) := by
  rw [pruneSuperset,if_pos rfl,fold_junction,List.map_map]
  rfl

omit [DecidableEq β] in
theorem combine_childNodes (node : RexFilter β) :
    combine kind.neutral ((childNodes kind node).map (eval assignment)) = eval assignment node := by
  cases node with
  | junction kind' operands =>
    rw [childNodes]
    split
    next => exact combine_conDisjunctions _
    next => rw [List.map_singleton,combine_singleton]
  | _ => exact combine_singleton _

theorem covers_of_isSuperset {e1 e2 : RexFilter β} (contains : isSuperset e1 e2 kind.other = true) :
    Covers kind.neutral (eval assignment e2) (eval assignment e1) := by
  rw [← @combine_childNodes _ kind.other assignment e1,← @combine_childNodes _ kind.other assignment e2,
    Connective.neutral_other]
  apply covers_of_subset
  intro truth inside
  obtain ⟨childNode,there,rfl⟩ := List.mem_map.mp inside
  exact List.mem_map_of_mem (of_decide_eq_true (List.all_eq_true.mp contains childNode there))

theorem mem_pruneChildNodes {childNodes : List (RexFilter β)} {childNode : RexFilter β} :
    childNode ∈ pruneChildNodes kind childNodes ↔ childNode ∈ childNodes ∧
      ∀ nodeToCompare ∈ childNodes, nodeToCompare ≠ childNode →
      isSuperset childNode nodeToCompare kind.other = false := by
  rw [pruneChildNodes,List.mem_filter,List.mem_eraseDups,Bool.not_eq_true',List.any_eq_false]
  refine and_congr_right' (forall_congr' fun nodeToCompare => imp_congr List.mem_eraseDups ?_)
  rw [Bool.and_eq_true,not_and,decide_eq_true_iff,Bool.not_eq_true]

theorem eval_prune {childNodes : List (RexFilter β)} (resolves : Resolves kind childNodes) :
    eval assignment (prune kind childNodes) = combine kind.neutral (childNodes.map (eval assignment)) := by
  rw [prune,eval_composeConDisjunction]
  apply combine_covered
  · intro truth inside
    obtain ⟨childNode,kept,rfl⟩ := List.mem_map.mp inside
    exact List.mem_map_of_mem (mem_pruneChildNodes.mp kept).1
  · intro truth inside
    obtain ⟨childNode,there,rfl⟩ := List.mem_map.mp inside
    obtain ⟨kept,member,contains,minimal⟩ := resolves childNode there
    exact ⟨_,List.mem_map_of_mem (mem_pruneChildNodes.mpr ⟨member,minimal⟩),covers_of_isSuperset contains⟩

theorem eval_pruneSuperset_level {node : RexFilter β}
    (resolves : ∀ kind operands, node = .junction kind operands → Resolves kind (conDisjunctions kind node)) :
    eval assignment (pruneSuperset false node) = eval assignment node := by
  cases node with
  | junction kind operands => exact (eval_prune (resolves kind operands rfl)).trans (combine_conDisjunctions _)
  | _ => rfl

theorem eval_pruneSuperset_toLeaf {node : RexFilter β} (resolves : ResolvesToLeaf node) :
    eval assignment (pruneSuperset true node) = eval assignment node := by
  induction resolves with
  | junction kind operands here _ ih =>
    rw [pruneSuperset_true,eval_prune here,List.map_map,← @combine_conDisjunctions _ kind]
    exact congrArg _ (List.map_congr_left ih)
  | _ => rfl

/-- Pruning keeps the truth value under every assignment. -/
theorem eval_pruneSuperset {toLeaf : Bool} {node : RexFilter β} (prunable : Prunable toLeaf node) :
    eval assignment (pruneSuperset toLeaf node) = eval assignment node := by
  cases toLeaf with
  | false => exact eval_pruneSuperset_level prunable
  | true => exact eval_pruneSuperset_toLeaf prunable

/-- Of `a` and `a OR b` the first one is left. -/
theorem absorbed_pruned : eval (fun _ => none)
    (pruneSuperset true (.junction .and [.leaf 0,.junction .or [.leaf 0,.leaf 1]])) =
    eval (fun _ => none) (.junction .and [.leaf 0,.junction .or [.leaf 0,.leaf 1]]) := by
  apply eval_pruneSuperset
  refine .junction .and _ (by decide) ?_
  intro child inside
  have listed : child = .leaf 0 ∨ child = .junction .or [.leaf 0,.leaf 1] := by
    simpa [conDisjunctions,allConDisjunctions] using inside
  obtain rfl | rfl := listed
  · exact .leaf 0
  · refine .junction .or _ (by decide) ?_
    intro child inside
    have listed : child = .leaf 0 ∨ child = .leaf 1 := by
      simpa [conDisjunctions,allConDisjunctions] using inside
    obtain rfl | rfl := listed
    · exact .leaf 0
    · exact .leaf 1

/-- Two disjunctions of the same operands in another order remove each other. -/
theorem swapped_not_pruned : ¬∀ (toLeaf : Bool) (node : RexFilter Nat) (assignment : Nat → Option Bool),
    eval assignment (pruneSuperset toLeaf node) = eval assignment node := by
  intro keeps
  have wrong := keeps true (.junction .and [.junction .or [.leaf 0,.leaf 1],
      .junction .or [.leaf 1,.leaf 0]]) fun _ => some false
  revert wrong
  decide

end Truth

section Pushdown
-- the columns of a leaf, and what a search is expanded to
variable (inputs : β → List Nat) (expandSearch : β → Option (RexFilter β))

mutual
/-- `RelOptUtil.InputFinder`. -/
def inputsOf : RexFilter β → List Nat
  | .junction _ operands => inputsOfAll operands
  | .not operand => inputsOf operand
  | .leaf predicate => inputs predicate
  | .literal _ => []
  termination_by structural node => node

def inputsOfAll : List (RexFilter β) → List Nat
  | [] => []
  | operand::operands => inputsOf operand ++ inputsOfAll operands
  termination_by structural operands => operands
end

def isAlwaysTrue (node : RexFilter β) : Bool := constant? node = some true

/-- A disjunction of which one part cannot be told from the columns is not narrowed to the other parts. -/
def extractFromChildNodes (kind : Connective) (extracted : List (RexFilter β)) : RexFilter β :=
  if kind = .or ∧ extracted.any isAlwaysTrue then .literal true
  else composeConDisjunction kind (extracted.filter fun node => !isAlwaysTrue node)

def extractFromBitSet (targetBitSet : List Nat) (node : RexFilter β) : RexFilter β :=
  fold (fun kind _ children => extractFromChildNodes kind (children.map Prod.snd))
    (fun node => if inputsOf inputs node ⊆ targetBitSet then node else .literal true) node

/-- Whether a predicate that holds already gives the conjunct, if need be with its search expanded. -/
def isPushed (conjunct pushedFilter : RexFilter β) : Bool :=
  extractFromBitSet inputs (inputsOf inputs conjunct) pushedFilter = conjunct ||
    match pushedFilter with
    | .leaf predicate => (expandSearch predicate).any fun searchExpandedFilter =>
        extractFromBitSet inputs (inputsOf inputs conjunct) searchExpandedFilter = conjunct
    | _ => false

def prunedPredicates (predicates : RexFilter β) (pulledUpPredicates : List (RexFilter β)) : List (RexFilter β) :=
  (conDisjunctions .and predicates).filter fun conjunct => !pulledUpPredicates.any
    (isPushed inputs expandSearch conjunct)

def prunePushdown (predicates : RexFilter β) (pulledUpPredicates : List (RexFilter β)) : RexFilter β :=
  composeConDisjunction .and (prunedPredicates inputs expandSearch predicates pulledUpPredicates)

variable {inputs expandSearch} {assignment : β → Option Bool}

theorem extractFromBitSet_junction (targetBitSet : List Nat) (kind : Connective) (operands : List (RexFilter β)) :
    extractFromBitSet inputs targetBitSet (.junction kind operands) = extractFromChildNodes kind
      ((conDisjunctions kind (.junction kind operands)).map (extractFromBitSet inputs targetBitSet)) := by
  rw [extractFromBitSet,fold_junction,List.map_map]
  rfl

omit [DecidableEq β] in
theorem eval_narrowed {targetBitSet : List Nat} {node : RexFilter β} (holds : eval assignment node = some true) :
    eval assignment (if inputsOf inputs node ⊆ targetBitSet then node else .literal true) = some true := by
  split
  next => exact holds
  next => rfl

theorem extractFromBitSet_implied (targetBitSet : List Nat) (node : RexFilter β)
    (holds : eval assignment node = some true) :
    eval assignment (extractFromBitSet inputs targetBitSet node) = some true := by
  induction node using conDisjunctions_ind with
  | junction kind operands each =>
    rw [extractFromBitSet_junction,extractFromChildNodes]
    rw [← @combine_conDisjunctions _ kind] at holds
    split
    next => rfl
    next expressible =>
      rw [eval_composeConDisjunction]
      cases kind with
      | and =>
        have all := combine_eq_neutral.mp holds
        apply combine_eq_neutral.mpr
        intro truth inside
        obtain ⟨extracted,kept,rfl⟩ := List.mem_map.mp inside
        obtain ⟨child,there,rfl⟩ := List.mem_map.mp (List.mem_of_mem_filter kept)
        exact each child there (all _ (List.mem_map_of_mem there))
      | or =>
        obtain ⟨child,there,true_⟩ := List.mem_map.mp ((@combine_eq_absorbing false _).mp holds)
        have extracted := List.mem_map_of_mem (f := extractFromBitSet inputs targetBitSet) there
        refine (@combine_eq_absorbing false _).mpr (List.mem_map.mpr ⟨_,List.mem_filter.mpr ⟨extracted,?_⟩,
          each child there true_⟩)
        rw [Bool.not_eq_true',Bool.eq_false_iff]
        exact fun always => expressible ⟨rfl,List.any_eq_true.mpr ⟨_,extracted,always⟩⟩
  | not operand => exact eval_narrowed holds
  | leaf predicate => exact eval_narrowed holds
  | literal value => exact @eval_narrowed _ inputs _ targetBitSet _ holds

theorem eval_of_isPushed {conjunct pushedFilter : RexFilter β}
    (pushed : isPushed inputs expandSearch conjunct pushedFilter = true)
    (expands : ∀ predicate expanded, expandSearch predicate = some expanded →
      eval assignment expanded = assignment predicate)
    (known : eval assignment pushedFilter = some true) : eval assignment conjunct = some true := by
  obtain here | searched := (Bool.or_eq_true _ _).mp pushed
  · rw [← of_decide_eq_true here]
    exact extractFromBitSet_implied _ _ known
  · split at searched
    next predicate =>
      obtain ⟨expanded,found,same⟩ := (Option.any_eq_true _ _).mp searched
      rw [← of_decide_eq_true same]
      exact extractFromBitSet_implied _ _ ((expands predicate expanded found).trans known)
    next => cases searched

/-- A conjunct that is dropped holds where all predicates hold that were pushed before; the others stay in order. -/
theorem prunePushdown_drops_implied {ρ : Type} (truth : ρ → β → Option Bool)
    (expands : ∀ row predicate expanded, expandSearch predicate = some expanded →
      eval (truth row) expanded = truth row predicate)
    (predicates : RexFilter β) (pulledUpPredicates : List (RexFilter β)) :
    (∀ conjunct ∈ conDisjunctions .and predicates,
      conjunct ∉ prunedPredicates inputs expandSearch predicates pulledUpPredicates →
      ∀ row, (∀ known ∈ pulledUpPredicates, eval (truth row) known = some true) →
      eval (truth row) conjunct = some true) ∧
    (∀ targetBitSet known row, eval (truth row) known = some true →
      eval (truth row) (extractFromBitSet inputs targetBitSet known) = some true) ∧
    (prunedPredicates inputs expandSearch predicates pulledUpPredicates).Sublist (conDisjunctions .and predicates) ∧
    (conDisjunctions .and (prunePushdown inputs expandSearch predicates pulledUpPredicates) =
        (prunedPredicates inputs expandSearch predicates pulledUpPredicates).eraseDups ∨
      (∃ conjunct ∈ prunedPredicates inputs expandSearch predicates pulledUpPredicates,
        constant? conjunct = some false) ∧
        prunePushdown inputs expandSearch predicates pulledUpPredicates = .literal false) := by
  have fewer : (prunedPredicates inputs expandSearch predicates pulledUpPredicates).Sublist
      (conDisjunctions .and predicates) :=
    List.filter_sublist
  refine ⟨?_,fun targetBitSet known row => extractFromBitSet_implied targetBitSet known,fewer,?_⟩
  · intro conjunct inside dropped row known
    rw [prunedPredicates,List.mem_filter,not_and,Bool.not_eq_true',Bool.not_eq_false] at dropped
    obtain ⟨pushedFilter,there,pushed⟩ := List.any_eq_true.mp (dropped inside)
    exact eval_of_isPushed pushed (expands row) (known pushedFilter there)
  · exact conDisjunctions_composeConDisjunction fun node inside => conDisjunctions_of_mem (fewer.mem inside)

/-- A row of one number, where a search stands for two equalities. -/
def numberRow (number : Nat) (predicate : String) : Option Bool :=
  if predicate = "$0 = 1" then some (number == 1)
  else if predicate = "$0 = 2" then some (number == 2)
  else some (number == 1 || number == 2)

def numberSearch (predicate : String) : Option (RexFilter String) :=
  if predicate = "SEARCH($0, [1, 2])" then some (.junction .or [.leaf "$0 = 1",.leaf "$0 = 2"]) else none

theorem searched_dropped : eval (numberRow 2) (.junction .or [.leaf "$0 = 1",.leaf "$0 = 2"]) = some true := by
  have expands : ∀ row predicate expanded, numberSearch predicate = some expanded →
      eval (numberRow row) expanded = numberRow row predicate := by
    intro row predicate expanded found
    rw [numberSearch] at found
    split at found
    next same =>
      rw [← Option.some.inj found,same]
      simp only [eval,evalAll,numberRow,Connective.neutral]
      cases row == 1 <;> cases row == 2 <;> rfl
    next => cases found
  apply (prunePushdown_drops_implied numberRow expands (.junction .or [.leaf "$0 = 1",.leaf "$0 = 2"])
    [.leaf "SEARCH($0, [1, 2])"]).1 _ (by decide +kernel)
  · have none : prunedPredicates (fun _ => [0]) numberSearch (.junction .or [.leaf "$0 = 1",.leaf "$0 = 2"])
        [.leaf "SEARCH($0, [1, 2])"] = [] := by decide +kernel
    rw [none]
    exact List.not_mem_nil
  · intro known inside
    rw [List.mem_singleton.mp inside]
    decide +kernel

end Pushdown
end Hermes.Calcite.EnhancedFilterJoinPruner
