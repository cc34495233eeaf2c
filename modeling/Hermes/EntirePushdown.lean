import Hermes.EnhancedFilterJoinExtractor

/-! A filter that is extracted as it is: then each of its operands is. Neither composing, nor pruning, nor
extracting makes a filter larger, and each of them leaves a filter of the same size as it is. -/
namespace Hermes.Calcite
variable {β : Type}

namespace RexFilter

mutual
/-- The number of nodes down to the leaves. -/
def weight : RexFilter β → Nat
  | .junction _ operands => weightAll operands + 1
  | .not _ => 1
  | .leaf _ => 1
  | .literal _ => 1
  termination_by structural node => node

def weightAll : List (RexFilter β) → Nat
  | [] => 0
  | operand::operands => weight operand + weightAll operands
  termination_by structural operands => operands
end

theorem weight_pos (node : RexFilter β) : 0 < node.weight := by
  cases node <;> exact Nat.succ_pos _

theorem weightAll_append (first second : List (RexFilter β)) :
    weightAll (first ++ second) = weightAll first + weightAll second := by
  induction first with
  | nil => exact (Nat.zero_add _).symm
  | cons operand operands ih => rw [List.cons_append,weightAll,weightAll,ih,Nat.add_assoc]

theorem weightAll_sublist {fewer operands : List (RexFilter β)} (some : fewer.Sublist operands) :
    weightAll fewer ≤ weightAll operands ∧ (weightAll fewer = weightAll operands → fewer = operands) := by
  induction some with
  | slnil => exact ⟨Nat.le_refl _,fun _ => rfl⟩
  | cons operand _ ih =>
    have positive := weight_pos operand
    rw [weightAll]
    refine ⟨by omega,fun equal => ?_⟩
    omega
  | cons_cons operand _ ih =>
    rw [weightAll,weightAll]
    refine ⟨by omega,fun equal => ?_⟩
    rw [ih.2 (by omega)]

theorem eraseDups_sublist [DecidableEq β] (operands : List (RexFilter β)) : operands.eraseDups.Sublist operands := by
  induction length : operands.length using Nat.strong_induction_on generalizing operands with
  | _ n ih =>
    cases operands with
    | nil => exact List.Sublist.refl _
    | cons operand operands =>
      rw [List.eraseDups_cons]
      have shorter : (operands.filter fun other => !other == operand).length < n := by
        rw [← length,List.length_cons]
        exact Nat.lt_succ_of_le (List.length_filter_le _ _)
      exact ((ih _ shorter _ rfl).trans List.filter_sublist).cons_cons operand

section Listing
variable {kind : Connective}

theorem weightAll_conDisjunctions (node : RexFilter β) : weightAll (conDisjunctions kind node) ≤ node.weight ∧
    (weightAll (conDisjunctions kind node) = node.weight → conDisjunctions kind node = [node]) := by
  induction node using ind with
  | junction kind' operands each =>
    rw [conDisjunctions,allConDisjunctions_eq]
    have all : weightAll (operands.flatMap (conDisjunctions kind)) ≤ weightAll operands := by
      induction operands with
      | nil => exact Nat.le_refl _
      | cons operand operands ih =>
        have here := (each operand List.mem_cons_self).1
        have later := ih fun other inside => each other (List.mem_cons_of_mem _ inside)
        rw [List.flatMap_cons,weightAll_append,weightAll]
        omega
    split
    next =>
      rw [weight]
      refine ⟨by omega,fun equal => ?_⟩
      omega
    next => exact ⟨Nat.le_refl _,fun _ => rfl⟩
  | not operand _ =>
    rw [conDisjunctions]
    split
    next => exact ⟨Nat.zero_le _,fun equal => by cases equal⟩
    next => exact ⟨Nat.le_refl _,fun _ => rfl⟩
  | leaf predicate => exact ⟨Nat.le_refl _,fun _ => rfl⟩
  | literal value =>
    rw [conDisjunctions]
    split
    next => exact ⟨Nat.zero_le _,fun equal => by cases equal⟩
    next => exact ⟨Nat.le_refl _,fun _ => rfl⟩

theorem weightAll_flatMap (nodes : List (RexFilter β)) :
    weightAll (nodes.flatMap (conDisjunctions kind)) ≤ weightAll nodes ∧
    (weightAll (nodes.flatMap (conDisjunctions kind)) = weightAll nodes →
      nodes.flatMap (conDisjunctions kind) = nodes) := by
  induction nodes with
  | nil => exact ⟨Nat.le_refl _,fun _ => rfl⟩
  | cons node nodes ih =>
    have here := @weightAll_conDisjunctions _ kind node
    rw [List.flatMap_cons,weightAll_append,weightAll]
    refine ⟨by omega,fun equal => ?_⟩
    rw [here.2 (by omega),ih.2 (by omega)]
    rfl

variable [DecidableEq β]

theorem weight_composeConDisjunction (nodes : List (RexFilter β)) :
    (composeConDisjunction kind nodes).weight ≤ weightAll nodes + 1 ∧
      ((composeConDisjunction kind nodes).weight = weightAll nodes + 1 → nodes ≠ [] →
        composeConDisjunction kind nodes = .junction kind nodes ∧ nodes.flatMap (conDisjunctions kind) = nodes) := by
  have flat := @weightAll_flatMap _ kind nodes
  have distinct := weightAll_sublist (eraseDups_sublist (nodes.flatMap (conDisjunctions kind)))
  unfold composeConDisjunction
  split
  next none =>
    refine ⟨Nat.le_add_left 1 _,fun equal filled => ?_⟩
    obtain ⟨node,others,rfl⟩ := List.exists_cons_of_ne_nil filled
    have positive := weight_pos node
    rw [weight,weightAll] at equal
    omega
  next node one =>
    rw [one,weightAll,weightAll] at distinct
    refine ⟨by omega,fun equal _ => ?_⟩
    omega
  next operands _ several =>
    split
    next =>
      refine ⟨Nat.le_add_left 1 _,fun equal filled => ?_⟩
      obtain ⟨node,others,rfl⟩ := List.exists_cons_of_ne_nil filled
      have positive := weight_pos node
      rw [weight,weightAll] at equal
      omega
    next =>
      rw [weight]
      refine ⟨by omega,fun equal _ => ?_⟩
      have whole := flat.2 (by omega)
      rw [distinct.2 (by omega),whole]
      exact ⟨rfl,rfl⟩

end Listing
end RexFilter

open RexFilter EnhancedFilterJoinPruner EnhancedFilterJoinSimplifier EnhancedFilterJoinExtractor
variable [DecidableEq β] {leafValidator predicate : RexFilter β → Bool} {pushToJoin : Bool} {kind : Connective}
  {operands : List (RexFilter β)}

theorem pruneChildNodes_sublist (nodes : List (RexFilter β)) : (pruneChildNodes kind nodes).Sublist nodes :=
  List.filter_sublist.trans (eraseDups_sublist nodes)

theorem weight_pruneSuperset (node : RexFilter β) : (pruneSuperset false node).weight ≤ node.weight := by
  cases node with
  | junction kind operands =>
    have composed := (@weight_composeConDisjunction _ kind _ (pruneChildNodes kind (conDisjunctions kind (.junction kind operands)))).1
    have kept := (weightAll_sublist (@pruneChildNodes_sublist _ _ kind (conDisjunctions kind (.junction kind operands)))).1
    have flat := (@weightAll_flatMap _ kind operands).1
    rw [← conDisjunctions_junction] at flat
    refine Nat.le_trans composed ?_
    rw [weight]
    omega
  | _ => exact Nat.le_refl _

theorem pruneSuperset_whole (flat : operands.flatMap (conDisjunctions kind) = operands) (filled : operands ≠ [])
    (whole : (pruneSuperset false (.junction kind operands)).weight = (RexFilter.junction kind operands).weight) :
    pruneSuperset false (.junction kind operands) = .junction kind operands := by
  have pruned : pruneSuperset false (.junction kind operands) = composeConDisjunction kind
      (pruneChildNodes kind operands) := by
    change prune kind (conDisjunctions kind (.junction kind operands)) = _
    rw [conDisjunctions_junction,flat]
    rfl
  have composed := @weight_composeConDisjunction _ kind _ (pruneChildNodes kind operands)
  have kept := weightAll_sublist (@pruneChildNodes_sublist _ _ kind operands)
  rw [pruned,weight] at whole
  have same := kept.2 (by omega)
  rw [same] at composed
  rw [pruned,same]
  exact (composed.2 (by rw [same] at whole; omega) filled).1

omit [DecidableEq β] in
theorem weightAll_map {change : RexFilter β → RexFilter β} {nodes : List (RexFilter β)}
    (smaller : ∀ node ∈ nodes, (change node).weight ≤ node.weight) :
    weightAll (nodes.map change) ≤ weightAll nodes := by
  induction nodes with
  | nil => exact Nat.le_refl _
  | cons node nodes ih =>
    obtain ⟨here,later⟩ := List.forall_mem_cons.mp smaller
    have rest := ih later
    rw [List.map_cons,weightAll,weightAll]
    omega

variable (leafValidator predicate pushToJoin) in
def extractedParts (kind : Connective) (operands : List (RexFilter β)) : List (RexFilter β) :=
  (((conDisjunctions kind (.junction kind operands)).map (extractionOf leafValidator predicate pushToJoin)).filter
    (isExtracted predicate pushToJoin)).map Extraction.key

theorem extractedParts_sublist : (extractedParts leafValidator predicate pushToJoin kind operands).Sublist
    ((conDisjunctions kind (.junction kind operands)).map fun child => (extractBelow leafValidator predicate pushToJoin child).1) := by
  have keys : ((conDisjunctions kind (.junction kind operands)).map fun child => (extractBelow leafValidator predicate pushToJoin child).1) =
      ((conDisjunctions kind (.junction kind operands)).map
        (extractionOf leafValidator predicate pushToJoin)).map Extraction.key := by
    rw [List.map_map]
    rfl
  rw [keys]
  exact List.filter_sublist.map _

theorem extractCall_fst (isRoot : Bool) (extractions : List (Extraction β)) :
    (extractCall predicate pushToJoin isRoot kind operands extractions).1 = .literal true ∨
      (extractCall predicate pushToJoin isRoot kind operands extractions).1 =
      pruneSuperset false (composeConDisjunction kind
        ((extractions.filter (isExtracted predicate pushToJoin)).map Extraction.key)) := by
  unfold extractCall
  split
  next => exact .inl rfl
  next => exact .inr rfl

theorem weight_extractBelow (filter : RexFilter β) :
    (extractBelow leafValidator predicate pushToJoin filter).1.weight ≤ filter.weight := by
  induction filter using conDisjunctions_ind with
  | junction kind operands each =>
    have composed := (@weight_composeConDisjunction _ kind _ (extractedParts leafValidator predicate pushToJoin kind operands)).1
    have kept := (weightAll_sublist (@extractedParts_sublist _ _ leafValidator predicate pushToJoin kind operands)).1
    have below := weightAll_map each
    have flat := (@weightAll_flatMap _ kind operands).1
    rw [← conDisjunctions_junction] at flat
    rw [extractBelow_junction]
    obtain all | parts := @extractCall_fst _ _ predicate pushToJoin kind operands false
      ((conDisjunctions kind (.junction kind operands)).map (extractionOf leafValidator predicate pushToJoin))
    · rw [all]
      exact Nat.le_add_left 1 _
    · rw [parts]
      refine Nat.le_trans (weight_pruneSuperset _) (Nat.le_trans composed ?_)
      rw [weight]
      omega
  | _ =>
    change (extractLeaf leafValidator predicate pushToJoin false _).1.weight ≤ _
    unfold extractLeaf
    split <;> exact Nat.le_refl _

theorem extractBelow_entire
    (entire : (extractBelow leafValidator predicate pushToJoin (.junction kind operands)).1 = .junction kind operands) :
    ∀ child ∈ conDisjunctions kind (.junction kind operands),
    (extractBelow leafValidator predicate pushToJoin child).1 = child := by
  have composed := @weight_composeConDisjunction _ kind _ (extractedParts leafValidator predicate pushToJoin kind operands)
  have kept := weightAll_sublist (@extractedParts_sublist _ _ leafValidator predicate pushToJoin kind operands)
  have below := weightAll_map fun child (_ : child ∈ conDisjunctions kind (.junction kind operands)) =>
    @weight_extractBelow _ _ leafValidator predicate pushToJoin child
  have flat := @weightAll_flatMap _ kind operands
  rw [← conDisjunctions_junction] at flat
  rw [extractBelow_junction] at entire
  obtain all | parts := @extractCall_fst _ _ predicate pushToJoin kind operands false
    ((conDisjunctions kind (.junction kind operands)).map (extractionOf leafValidator predicate pushToJoin))
  · rw [all] at entire
    cases entire
  · rw [parts] at entire
    change pruneSuperset false (composeConDisjunction kind
      (extractedParts leafValidator predicate pushToJoin kind operands)) = _ at entire
    have filled : extractedParts leafValidator predicate pushToJoin kind operands ≠ [] := by
      intro none
      rw [none] at entire
      cases entire
    have pruned := weight_pruneSuperset (composeConDisjunction kind
        (extractedParts leafValidator predicate pushToJoin kind operands))
    have size := congrArg weight entire
    rw [weight] at size
    -- so nothing is lost on the way
    have total : weightAll (extractedParts leafValidator predicate pushToJoin kind operands) =
        weightAll operands := by omega
    have fixed := kept.2 (by omega)
    obtain ⟨call,listed⟩ := composed.2 (by omega) filled
    rw [call] at entire
    have whole := pruneSuperset_whole listed filled (by rw [entire,weight,weight,total])
    rw [whole] at entire
    have same : extractedParts leafValidator predicate pushToJoin kind operands = operands :=
        (RexFilter.junction.inj entire).2
    have children : conDisjunctions kind (.junction kind operands) = operands := by
      rw [conDisjunctions_junction,← same,listed]
    rw [same,children] at fixed
    rw [children]
    intro child inside
    have each : operands.map id = operands.map fun child => (extractBelow leafValidator predicate pushToJoin child).1 :=
      (List.map_id _).trans fixed
    exact (List.map_inj_left.mp each child inside).symm

end Hermes.Calcite
