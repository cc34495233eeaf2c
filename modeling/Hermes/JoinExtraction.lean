import Hermes.EntirePushdown

/-! When the extraction of a filter loses nothing: a row satisfies the filter exactly if it satisfies what
was extracted and what remains. The parts that were left out of what remains are those that were extracted. -/
namespace Hermes.Calcite.EnhancedFilterJoinExtractor
open RexFilter EnhancedFilterJoinPruner EnhancedFilterJoinSimplifier Library.ThreeValued
variable {β : Type}

section Truth
variable (assignment : β → Option Bool)

def Holds (node : RexFilter β) : Prop := eval assignment node = some true

def Fits (extraction : Extraction β) : Prop :=
  Holds assignment extraction.original ↔ Holds assignment extraction.key ∧ Holds assignment extraction.value

variable {assignment}

theorem holds_conjunctions {node : RexFilter β} :
    Holds assignment node ↔ ∀ child ∈ conDisjunctions .and node, Holds assignment child := by
  rw [Holds,← @combine_conDisjunctions _ .and,show some true = some (Connective.neutral .and) from rfl,
    combine_eq_neutral,
    List.forall_mem_map]
  rfl

theorem holds_disjunctions {node : RexFilter β} :
    Holds assignment node ↔ ∃ child ∈ conDisjunctions .or node, Holds assignment child := by
  rw [Holds,← @combine_conDisjunctions _ .or,show some true = some (!Connective.neutral .or) from rfl,
    combine_eq_absorbing,
    List.mem_map]
  rfl

theorem holds_childNodes {node : RexFilter β} : Holds assignment node ↔
    ∀ child ∈ childNodes .and node, Holds assignment child := by
  rw [Holds,← @combine_childNodes _ .and,show some true = some (Connective.neutral .and) from rfl,combine_eq_neutral,
    List.forall_mem_map]
  rfl

variable [DecidableEq β]

theorem holds_composeConjunction {nodes : List (RexFilter β)} :
    Holds assignment (composeConDisjunction .and nodes) ↔ ∀ node ∈ nodes, Holds assignment node := by
  rw [Holds,eval_composeConDisjunction,show some true = some (Connective.neutral .and) from rfl,combine_eq_neutral,
    List.forall_mem_map]
  rfl

theorem holds_composeDisjunction {nodes : List (RexFilter β)} :
    Holds assignment (composeConDisjunction .or nodes) ↔ ∃ node ∈ nodes, Holds assignment node := by
  rw [Holds,eval_composeConDisjunction,show some true = some (!Connective.neutral .or) from rfl,combine_eq_absorbing,
    List.mem_map]
  rfl

theorem holds_pruneSuperset {node : RexFilter β} (prunable : Prunable false node) :
    Holds assignment (pruneSuperset false node) ↔ Holds assignment node := by
  rw [Holds,eval_pruneSuperset_level prunable,Holds]

omit [DecidableEq β] in
theorem holds_of_isAlwaysTrue {node : RexFilter β} (known : isAlwaysTrue node = true) : Holds assignment node :=
  eval_of_constant (of_decide_eq_true known)

end Truth

section Simplification
variable [DecidableEq β] {assignment : β → Option Bool}

theorem holds_getCommonChildNodes {e1 e2 : RexFilter β} (one : Holds assignment e1 ∨ Holds assignment e2) :
    Holds assignment (getCommonChildNodes e1 e2) := by
  apply holds_composeConjunction.mpr
  intro child common
  obtain ⟨first,second⟩ := List.mem_filter.mp common
  obtain here | here := one
  · exact holds_childNodes.mp here child (List.mem_eraseDups.mp first)
  · exact holds_childNodes.mp here child (of_decide_eq_true second)

theorem holds_commonExtractedFilter {first : Extraction β} {others : List (Extraction β)}
    (one : ∃ extraction ∈ first::others, Holds assignment extraction.key) :
    Holds assignment (commonExtractedFilter first others) := by
  have folded : ∀ common : RexFilter β, (Holds assignment common ∨
      ∃ extraction ∈ others, Holds assignment extraction.key) →
      Holds assignment (others.foldl (fun common extraction => getCommonChildNodes common extraction.key) common) := by
    clear one
    induction others with
    | nil =>
      rintro common (here | ⟨_,inside,_⟩)
      · exact here
      · exact absurd inside List.not_mem_nil
    | cons other others ih =>
      intro common one
      apply ih
      obtain here | ⟨extraction,inside,holds⟩ := one
      · exact .inl (holds_getCommonChildNodes (.inl here))
      · obtain rfl | later := List.mem_cons.mp inside
        · exact .inl (holds_getCommonChildNodes (.inr holds))
        · exact .inr ⟨extraction,later,holds⟩
  apply folded
  obtain ⟨extraction,inside,holds⟩ := one
  obtain rfl | later := List.mem_cons.mp inside
  · exact .inl holds
  · exact .inr ⟨extraction,later,holds⟩

theorem holds_removeChildNodes {parentNode nodeToRemove : RexFilter β} (removed : Holds assignment nodeToRemove) :
    Holds assignment (removeChildNodes parentNode nodeToRemove) ↔ Holds assignment parentNode := by
  rw [removeChildNodes,holds_composeConjunction,holds_childNodes]
  constructor
  · intro rest child inside
    by_cases gone : child ∈ childNodes .and nodeToRemove
    · exact holds_childNodes.mp removed child gone
    · exact rest child (List.mem_filter.mpr ⟨inside,decide_eq_true gone⟩)
  · exact fun all child kept => all child (List.mem_of_mem_filter kept)

theorem holds_removeChildNodes_of_holds {parentNode nodeToRemove : RexFilter β} (parent : Holds assignment parentNode) :
    Holds assignment (removeChildNodes parentNode nodeToRemove) :=
  holds_composeConjunction.mpr fun child kept => holds_childNodes.mp parent child (List.mem_of_mem_filter kept)

theorem holds_simplified {common : RexFilter β} {extraction : Extraction β} (removed : Holds assignment common) :
    Holds assignment (simplified common extraction) ↔ Holds assignment extraction.value ∧
    Holds assignment extraction.key := by
  rw [simplified,holds_composeConjunction,List.forall_mem_cons,List.forall_mem_singleton,holds_removeChildNodes removed,
    holds_removeChildNodes removed]

theorem mem_sortSimplified {extractions : List (Extraction β)} {recorded : List (RexFilter β × RexFilter β)}
    {node : RexFilter β} :
    node ∈ sortSimplified extractions recorded ↔ ∃ pair ∈ recorded, pair.1 = node := by
  rw [sortSimplified,(List.perm_insertionSort _ _).mem_iff,List.mem_map]

/-- Whether a common part is taken out of a disjunction of these operands. -/
def narrowed (extractions : List (Extraction β)) : Bool :=
  match extractions.filter fun extraction => extraction.original ≠ extraction.key with
  | [] => false
  | first::others => !isAlwaysTrue (commonExtractedFilter first others)

variable {extractions : List (Extraction β)}

theorem holds_simplifyDisjunction (isRoot : Bool) (fits : ∀ extraction ∈ extractions, Fits assignment extraction)
    (entire : ∀ extraction ∈ extractions, extraction.original = extraction.key → Holds assignment extraction.value →
      Holds assignment extraction.original) :
    (∃ extraction ∈ extractions, Holds assignment extraction.original) ↔
      (∃ extraction ∈ extractions, Holds assignment extraction.key) ∧
        Holds assignment (simplifyDisjunction extractions isRoot) := by
  have key : (∃ extraction ∈ extractions, Holds assignment extraction.original) →
      ∃ extraction ∈ extractions, Holds assignment extraction.key := by
    rintro ⟨extraction,inside,holds⟩
    exact ⟨extraction,inside,((fits extraction inside).mp holds).1⟩
  have mem (extraction : Extraction β) : extraction ∈ (extractions.filter fun extraction => extraction.original ≠ extraction.key) ↔
      extraction ∈ extractions ∧ extraction.original ≠ extraction.key := by
    rw [List.mem_filter,decide_eq_true_iff]
  unfold simplifyDisjunction
  dsimp only
  revert mem
  generalize (extractions.filter fun extraction => extraction.original ≠ extraction.key) = partly
  intro mem
  have entirely (extraction : Extraction β) : extraction ∈ (extractions.filter fun extraction => extraction.original = extraction.key) ↔
      extraction ∈ extractions ∧ extraction.original = extraction.key := by
    rw [List.mem_filter,decide_eq_true_iff]
  cases partly with
  | nil =>
    have all : ∀ extraction ∈ extractions, extraction.original = extraction.key := by
      intro extraction inside
      by_contra differ
      exact absurd ((mem extraction).mpr ⟨inside,differ⟩) List.not_mem_nil
    refine ⟨fun holds => ⟨key holds,?_⟩,?_⟩
    · dsimp only
      split
      next => rfl
      next =>
        obtain ⟨extraction,inside,holds⟩ := holds
        exact holds_composeDisjunction.mpr ⟨_,List.mem_map_of_mem
          ((entirely extraction).mpr ⟨inside,all extraction inside⟩),
          ((fits extraction inside).mp holds).2⟩
    · rintro ⟨⟨extraction,inside,holds⟩,_⟩
      exact ⟨extraction,inside,all extraction inside ▸ holds⟩
  | cons first others =>
    dsimp only
    split
    next =>
      refine ⟨fun holds => ⟨key holds,?_⟩,?_⟩
      · obtain ⟨extraction,inside,holds⟩ := holds
        exact holds_composeDisjunction.mpr ⟨_,List.mem_map_of_mem inside,holds⟩
      · rintro ⟨_,remaining⟩
        obtain ⟨node,inside,holds⟩ := holds_composeDisjunction.mp remaining
        obtain ⟨extraction,there,rfl⟩ := List.mem_map.mp inside
        exact ⟨extraction,there,holds⟩
    next =>
      refine ⟨fun holds => ⟨key holds,?_⟩,?_⟩
      · obtain ⟨extraction,inside,holds⟩ := holds
        obtain ⟨pushed,remains⟩ := (fits extraction inside).mp holds
        apply holds_composeDisjunction.mpr
        by_cases same : extraction.original = extraction.key
        · exact ⟨_,mem_sortSimplified.mpr ⟨_,List.mem_append_right _ (List.mem_map_of_mem ((entirely extraction).mpr ⟨inside,same⟩)),rfl⟩,
            remains⟩
        · refine ⟨_,mem_sortSimplified.mpr ⟨_,List.mem_append_left _ (List.mem_map_of_mem ((mem extraction).mpr ⟨inside,same⟩)),rfl⟩,?_⟩
          refine holds_composeConjunction.mpr (List.forall_mem_cons.mpr ⟨?_,List.forall_mem_singleton.mpr ?_⟩)
          · exact holds_removeChildNodes_of_holds remains
          · exact holds_removeChildNodes_of_holds pushed
      · rintro ⟨⟨pushed,inside,holds⟩,remaining⟩
        by_cases same : pushed.original = pushed.key
        · exact ⟨pushed,inside,same ▸ holds⟩
        · -- the common part holds, as a part of what was extracted from this operand
          have common := holds_commonExtractedFilter ⟨pushed,(mem pushed).mpr ⟨inside,same⟩,holds⟩
          obtain ⟨node,sorted,satisfied⟩ := holds_composeDisjunction.mp remaining
          obtain ⟨pair,recorded,rfl⟩ := mem_sortSimplified.mp sorted
          obtain partly | whole := List.mem_append.mp recorded
          · obtain ⟨extraction,there,rfl⟩ := List.mem_map.mp partly
            have within := ((mem extraction).mp there).1
            exact ⟨extraction,within,(fits extraction within).mpr ((holds_simplified common).mp satisfied).symm⟩
          · obtain ⟨extraction,there,rfl⟩ := List.mem_map.mp whole
            obtain ⟨within,equal⟩ := (entirely extraction).mp there
            exact ⟨extraction,within,entire extraction within equal satisfied⟩

variable {predicate : RexFilter β → Bool} {pushToJoin : Bool}

variable (predicate pushToJoin) in
def Refused (extraction : Extraction β) : Prop :=
  isAlwaysTrue extraction.key = false ∧ accepts predicate pushToJoin extraction.key = false

theorem holds_simplifyConjunction (isRoot : Bool) (fits : ∀ extraction ∈ extractions, Fits assignment extraction)
    (varies : ∀ extraction ∈ extractions, isAlwaysTrue extraction.original = false)
    (refused : ∀ extraction ∈ extractions, Refused predicate pushToJoin extraction →
      (Holds assignment extraction.value → Holds assignment extraction.original) ∧
      (isRoot = true → extraction.original ≠ extraction.key)) :
    (∀ extraction ∈ extractions, Holds assignment extraction.original) ↔
      (∀ extraction ∈ extractions, isExtracted predicate pushToJoin extraction = true →
        Holds assignment extraction.key) ∧
        Holds assignment (simplifyConjunction extractions isRoot) := by
  rw [simplifyConjunction,holds_composeConjunction]
  constructor
  · intro all
    refine ⟨fun extraction inside _ => ((fits extraction inside).mp (all extraction inside)).1,fun node remains => ?_⟩
    obtain ⟨extraction,kept,rfl⟩ := List.mem_map.mp remains
    have inside := List.mem_of_mem_filter kept
    exact ((fits extraction inside).mp (all extraction inside)).2
  · rintro ⟨pushed,remaining⟩ extraction inside
    by_cases dropped : isRoot = true ∧ extraction.original = extraction.key
    · obtain ⟨root,entire⟩ := dropped
      rw [entire]
      apply pushed extraction inside
      have some : isAlwaysTrue extraction.key = false := entire ▸ varies extraction inside
      cases passes : accepts predicate pushToJoin extraction.key with
      | true => rw [isExtracted,some,passes]; rfl
      | false => exact absurd entire ((refused extraction inside ⟨some,passes⟩).2 root)
    · have remains : Holds assignment extraction.value := by
        refine remaining _ (List.mem_map_of_mem (List.mem_filter.mpr ⟨inside,?_⟩))
        rw [Bool.not_eq_true',Bool.and_eq_false_iff]
        by_contra both
        apply dropped
        simpa using both
      cases some : isAlwaysTrue extraction.key with
      | true => exact (fits extraction inside).mpr ⟨holds_of_isAlwaysTrue some,remains⟩
      | false =>
        cases passes : accepts predicate pushToJoin extraction.key with
        | true => exact (fits extraction inside).mpr ⟨pushed extraction inside (by rw [isExtracted,some,passes]; rfl),
          remains⟩
        | false => exact (refused extraction inside ⟨some,passes⟩).1 remains

end Simplification

section Lossless
variable [DecidableEq β] (leafValidator predicate : RexFilter β → Bool) (pushToJoin : Bool)

def childExtractions (kind : Connective) (operands : List (RexFilter β)) : List (Extraction β) :=
  (conDisjunctions kind (.junction kind operands)).map (extractionOf leafValidator predicate pushToJoin)

/-- The filter that remains is the filter itself or made of operands of which the same can be said: no common part was taken out. -/
inductive Unsimplified : RexFilter β → Prop where
  | and (operands : List (RexFilter β))
    (each : ∀ child ∈ conDisjunctions .and (.junction .and operands), Unsimplified child) :
      Unsimplified (.junction .and operands)
  | kept (operands : List (RexFilter β))
      (some : ∃ extraction ∈ childExtractions leafValidator predicate pushToJoin .or operands,
        isExtracted predicate pushToJoin extraction = false) : Unsimplified (.junction .or operands)
  | or (operands : List (RexFilter β))
    (whole : narrowed (childExtractions leafValidator predicate pushToJoin .or operands) = false) :
      Unsimplified (.junction .or operands)
  | not (operand : RexFilter β) : Unsimplified (.not operand)
  | leaf (predicate : β) : Unsimplified (.leaf predicate)
  | literal (value : Bool) : Unsimplified (.literal value)

/-- No operand of a conjunction needs an extracted part that is refused, and pruning keeps the truth of what a call gives. -/
structure KeepsTruth (isRoot : Bool) (kind : Connective) (operands : List (RexFilter β)) : Prop where
  refused : kind = .and → ∀ child ∈ conDisjunctions .and (.junction .and operands),
    Refused predicate pushToJoin (extractionOf leafValidator predicate pushToJoin child) →
      Unsimplified leafValidator predicate pushToJoin child ∧
        (isRoot = true → child ≠ (extractBelow leafValidator predicate pushToJoin child).1)
  prunes : (kind = .or ∧ ∃ extraction ∈ childExtractions leafValidator predicate pushToJoin kind operands,
      isExtracted predicate pushToJoin extraction = false) ∨
    Prunable false (composeConDisjunction kind (((childExtractions leafValidator predicate pushToJoin kind operands).filter
      (isExtracted predicate pushToJoin)).map Extraction.key)) ∧
    Prunable false (simplifyConDisjunction kind (childExtractions leafValidator predicate pushToJoin kind operands) isRoot)

inductive KeepsTruthBelow : RexFilter β → Prop where
  | junction (kind : Connective) (operands : List (RexFilter β))
      (below : ∀ child ∈ conDisjunctions kind (.junction kind operands), KeepsTruthBelow child)
      (here : KeepsTruth leafValidator predicate pushToJoin false kind operands) :
        KeepsTruthBelow (.junction kind operands)
  | not (operand : RexFilter β) : KeepsTruthBelow (.not operand)
  | leaf (predicate : β) : KeepsTruthBelow (.leaf predicate)
  | literal (value : Bool) : KeepsTruthBelow (.literal value)

/-- The extraction of the filter does not go wrong anywhere. -/
def Extractable (filter : RexFilter β) : Prop :=
  ∀ kind operands, filter = .junction kind operands →
    (∀ child ∈ conDisjunctions kind (.junction kind operands),
      KeepsTruthBelow leafValidator predicate pushToJoin child) ∧
      KeepsTruth leafValidator predicate pushToJoin true kind operands

variable {leafValidator predicate pushToJoin} {assignment : β → Option Bool} {kind : Connective}
    {operands : List (RexFilter β)}

theorem holds_of_simplifyConjunction {extractions : List (Extraction β)}
    (remaining : Holds assignment (simplifyConjunction extractions false)) :
    ∀ extraction ∈ extractions, Holds assignment extraction.value := by
  intro extraction inside
  exact holds_composeConjunction.mp remaining _ (List.mem_map_of_mem (List.mem_filter.mpr ⟨inside,rfl⟩))

theorem holds_of_simplifyDisjunction {extractions : List (Extraction β)} (whole : narrowed extractions = false)
    (entire : ∀ extraction ∈ extractions, extraction.original = extraction.key → Holds assignment extraction.value →
      Holds assignment extraction.original)
    (remaining : Holds assignment (simplifyDisjunction extractions false)) :
    ∃ extraction ∈ extractions, Holds assignment extraction.original := by
  unfold narrowed at whole
  unfold simplifyDisjunction at remaining
  split at whole
  next none =>
    rw [none] at remaining
    obtain ⟨node,inside,holds⟩ := holds_composeDisjunction.mp remaining
    obtain ⟨extraction,kept,rfl⟩ := List.mem_map.mp inside
    obtain ⟨within,same⟩ := List.mem_filter.mp kept
    exact ⟨extraction,within,entire extraction within (of_decide_eq_true same) holds⟩
  next first others some =>
    rw [some] at remaining
    dsimp only at remaining
    rw [Bool.not_eq_false'] at whole
    rw [if_pos whole] at remaining
    obtain ⟨node,inside,holds⟩ := holds_composeDisjunction.mp remaining
    obtain ⟨extraction,within,rfl⟩ := List.mem_map.mp inside
    exact ⟨extraction,within,holds⟩

omit [DecidableEq β] in
theorem isAlwaysTrue_of_mem_conjunctions {node child : RexFilter β} (inside : child ∈ conDisjunctions .and node) :
    isAlwaysTrue child = false := by
  have listed := conDisjunctions_of_mem inside
  rw [isAlwaysTrue,decide_eq_false_iff_not]
  intro known
  cases child with
  | junction => cases known
  | not operand =>
    rw [conDisjunctions,if_pos (show constant? (.not operand) = some (Connective.neutral .and) from known)] at listed
    cases listed
  | leaf => cases known
  | literal value =>
    rw [conDisjunctions,if_pos (show value = Connective.neutral .and from Option.some.inj known)] at listed
    cases listed

/-- What is known of an operand: it fits, and alone its remaining part is enough where it is pushed as it is, or was not simplified. -/
structure Known (assignment : β → Option Bool) (child : RexFilter β) : Prop where
  fits : Fits assignment (extractionOf leafValidator predicate pushToJoin child)
  entire : child = (extractBelow leafValidator predicate pushToJoin child).1 →
    Holds assignment (extractBelow leafValidator predicate pushToJoin child).2 → Holds assignment child
  unsimplified : Unsimplified leafValidator predicate pushToJoin child →
    Holds assignment (extractBelow leafValidator predicate pushToJoin child).2 → Holds assignment child

theorem extractCall_fits {isRoot : Bool} (keeps : KeepsTruth leafValidator predicate pushToJoin isRoot kind operands)
    (known : ∀ child ∈ conDisjunctions kind (.junction kind operands),
      @Known _ _ leafValidator predicate pushToJoin assignment child) :
    Holds assignment (.junction kind operands) ↔
      Holds assignment (extractCall predicate pushToJoin isRoot kind operands (childExtractions leafValidator predicate pushToJoin kind operands)).1 ∧
      Holds assignment (extractCall predicate pushToJoin isRoot kind operands (childExtractions leafValidator predicate pushToJoin kind operands)).2 := by
  have fits : ∀ extraction ∈ childExtractions leafValidator predicate pushToJoin kind operands,
      Fits assignment extraction :=
    List.forall_mem_map.mpr fun child inside => (known child inside).fits
  have entire : ∀ extraction ∈ childExtractions leafValidator predicate pushToJoin kind operands,
      extraction.original = extraction.key → Holds assignment extraction.value → Holds assignment extraction.original :=
    List.forall_mem_map.mpr fun child inside => (known child inside).entire
  unfold extractCall
  split
  next => exact ⟨fun holds => ⟨rfl,holds⟩,And.right⟩
  next all =>
    obtain ⟨extracted,remaining⟩ := keeps.prunes.resolve_left all
    rw [holds_pruneSuperset extracted,holds_pruneSuperset remaining]
    cases kind with
    | and =>
      have refused : ∀ extraction ∈ childExtractions leafValidator predicate pushToJoin .and operands,
          Refused predicate pushToJoin extraction →
            (Holds assignment extraction.value → Holds assignment extraction.original) ∧
            (isRoot = true → extraction.original ≠ extraction.key) := by
        intro extraction inside stopped
        obtain ⟨child,there,rfl⟩ := List.mem_map.mp inside
        obtain ⟨stays,differs⟩ := keeps.refused rfl child there stopped
        exact ⟨(known child there).unsimplified stays,differs⟩
      have varies : ∀ extraction ∈ childExtractions leafValidator predicate pushToJoin .and operands,
          isAlwaysTrue extraction.original = false :=
        List.forall_mem_map.mpr fun child inside => isAlwaysTrue_of_mem_conjunctions inside
      have call := holds_simplifyConjunction isRoot fits varies refused
      rw [holds_conjunctions,holds_composeConjunction,List.forall_mem_map]
      rw [childExtractions,List.forall_mem_map] at call
      refine call.trans (and_congr (forall_congr' fun extraction => ?_) Iff.rfl)
      rw [List.mem_filter,and_imp]
      rfl
    | or =>
      have taken : (childExtractions leafValidator predicate pushToJoin .or operands).filter
          (isExtracted predicate pushToJoin) =
          childExtractions leafValidator predicate pushToJoin .or operands := by
        apply List.filter_eq_self.mpr
        intro extraction inside
        by_contra stopped
        exact all ⟨rfl,extraction,inside,Bool.eq_false_iff.mpr stopped⟩
      have call := holds_simplifyDisjunction isRoot fits entire
      rw [holds_disjunctions,holds_composeDisjunction,taken]
      have parts : (∃ node ∈ (childExtractions leafValidator predicate pushToJoin .or operands).map Extraction.key,
          Holds assignment node) ↔
          ∃ extraction ∈ childExtractions leafValidator predicate pushToJoin .or operands,
            Holds assignment extraction.key := by
        simp only [List.mem_map,exists_exists_and_eq_and]
      rw [parts]
      refine Iff.trans ?_ call
      simp only [childExtractions,List.mem_map,exists_exists_and_eq_and]
      rfl

theorem extractCall_alone (keeps : KeepsTruth leafValidator predicate pushToJoin false kind operands)
    (known : ∀ child ∈ conDisjunctions kind (.junction kind operands),
      @Known _ _ leafValidator predicate pushToJoin assignment child)
    (each : kind = .and → ∀ child ∈ conDisjunctions .and (.junction .and operands),
      Holds assignment (extractBelow leafValidator predicate pushToJoin child).2 → Holds assignment child)
    (whole : kind = .or → (∃ extraction ∈ childExtractions leafValidator predicate pushToJoin .or operands,
      isExtracted predicate pushToJoin extraction = false) ∨
      narrowed (childExtractions leafValidator predicate pushToJoin .or operands) = false)
    (remains : Holds assignment
      (extractCall predicate pushToJoin false kind operands (childExtractions leafValidator predicate pushToJoin kind operands)).2) :
    Holds assignment (.junction kind operands) := by
  unfold extractCall at remains
  split at remains
  next => exact remains
  next all =>
    obtain ⟨_,prunable⟩ := keeps.prunes.resolve_left all
    have remaining := (holds_pruneSuperset prunable).mp remains
    cases kind with
    | and =>
      have values := holds_of_simplifyConjunction remaining
      rw [childExtractions,List.forall_mem_map] at values
      exact holds_conjunctions.mpr fun child inside => each rfl child inside (values child inside)
    | or =>
      obtain stopped | plain := whole rfl
      · exact absurd ⟨rfl,stopped⟩ all
      · have entire : ∀ extraction ∈ childExtractions leafValidator predicate pushToJoin .or operands,
            extraction.original = extraction.key → Holds assignment extraction.value →
              Holds assignment extraction.original :=
          List.forall_mem_map.mpr fun child inside => (known child inside).entire
        obtain ⟨extraction,inside,holds⟩ := holds_of_simplifyDisjunction plain entire remaining
        obtain ⟨child,there,rfl⟩ := List.mem_map.mp inside
        exact holds_disjunctions.mpr ⟨child,there,holds⟩

theorem known_of_keepsTruthBelow {filter : RexFilter β}
    (keeps : KeepsTruthBelow leafValidator predicate pushToJoin filter) :
    @Known _ _ leafValidator predicate pushToJoin assignment filter := by
  have leaf (node : RexFilter β) (below : extractBelow leafValidator predicate pushToJoin node =
      extractLeaf leafValidator predicate pushToJoin false node) :
        @Known _ _ leafValidator predicate pushToJoin assignment node := by
    have remains : (extractBelow leafValidator predicate pushToJoin node).2 = node := by
      rw [below,extractLeaf]
      split <;> rfl
    refine ⟨?_,fun _ holds => remains ▸ holds,fun _ holds => remains ▸ holds⟩
    change Holds assignment node ↔ Holds assignment (extractBelow leafValidator predicate pushToJoin node).1 ∧
      Holds assignment (extractBelow leafValidator predicate pushToJoin node).2
    rw [remains,below,extractLeaf]
    split
    next => exact (and_self_iff).symm
    next => exact ⟨fun holds => ⟨rfl,holds⟩,And.right⟩
  induction keeps with
  | junction kind operands _ here ih =>
    have parts := @extractBelow_junction _ _ leafValidator predicate pushToJoin kind operands
    refine ⟨?_,?_,?_⟩
    · change Holds assignment _ ↔ Holds assignment
        (extractBelow leafValidator predicate pushToJoin (.junction kind operands)).1 ∧
        Holds assignment (extractBelow leafValidator predicate pushToJoin (.junction kind operands)).2
      rw [parts]
      exact extractCall_fits here ih
    · intro entire remains
      have each := extractBelow_entire entire.symm
      rw [parts] at remains
      refine extractCall_alone here ih ?_ ?_ remains
      · rintro rfl child inside
        exact (ih child inside).entire (each child inside).symm
      · rintro rfl
        have none : ((childExtractions leafValidator predicate pushToJoin .or operands).filter
            fun extraction => extraction.original ≠ extraction.key) = [] := by
          apply List.filter_eq_nil_iff.mpr
          intro extraction inside
          obtain ⟨child,there,rfl⟩ := List.mem_map.mp inside
          exact fun differ => of_decide_eq_true differ (each child there).symm
        exact .inr (by rw [narrowed,none])
    · intro plain remains
      rw [parts] at remains
      refine extractCall_alone here ih ?_ ?_ remains
      · rintro rfl child inside
        cases plain with
        | and _ each => exact (ih child inside).unsimplified (each child inside)
      · rintro rfl
        cases plain with
        | kept _ some => exact .inl some
        | or _ whole => exact .inr whole
  | not operand => exact leaf _ rfl
  | leaf predicate => exact leaf _ rfl
  | literal value => exact leaf _ rfl

end Lossless

section Leaves

mutual
/-- The nodes under the conjunctions and disjunctions of a filter. -/
def leaves : RexFilter β → List (RexFilter β)
  | .junction _ operands => leavesOfAll operands
  | .not operand => [.not operand]
  | .leaf predicate => [.leaf predicate]
  | .literal value => [.literal value]
  termination_by structural node => node

def leavesOfAll : List (RexFilter β) → List (RexFilter β)
  | [] => []
  | operand::operands => leaves operand ++ leavesOfAll operands
  termination_by structural operands => operands
end

variable {kind : Connective}

theorem leaves_junction (operands : List (RexFilter β)) :
    leaves (.junction kind operands) = operands.flatMap leaves := by
  rw [leaves]
  induction operands with
  | nil => rfl
  | cons operand operands ih => rw [leavesOfAll,ih,List.flatMap_cons]

theorem mem_leaves_of_mem_conDisjunctions {node child leaf : RexFilter β} (inside : child ∈ conDisjunctions kind node)
    (below : leaf ∈ leaves child) : leaf ∈ leaves node := by
  induction node using ind with
  | junction kind' operands each =>
    by_cases same : kind' = kind
    · subst same
      rw [conDisjunctions_junction] at inside
      obtain ⟨operand,there,listed⟩ := List.mem_flatMap.mp inside
      rw [leaves_junction]
      exact List.mem_flatMap.mpr ⟨operand,there,each operand there listed⟩
    · rw [conDisjunctions,if_neg same] at inside
      rwa [← List.mem_singleton.mp inside]
  | not operand _ =>
    rw [conDisjunctions] at inside
    split at inside
    next => exact absurd inside List.not_mem_nil
    next => rwa [← List.mem_singleton.mp inside]
  | leaf predicate => rwa [← List.mem_singleton.mp inside]
  | literal value =>
    rw [conDisjunctions] at inside
    split at inside
    next => exact absurd inside List.not_mem_nil
    next => rwa [← List.mem_singleton.mp inside]

variable [DecidableEq β]

def MadeOf (good : RexFilter β → Prop) (node : RexFilter β) : Prop :=
  ∀ leaf ∈ leaves node, good leaf ∨ ∃ value, leaf = .literal value

variable {good : RexFilter β → Prop}

omit [DecidableEq β] in
theorem MadeOf.literal (value : Bool) : MadeOf good (.literal value) := by
  intro leaf inside
  exact .inr ⟨value,List.mem_singleton.mp inside⟩

theorem MadeOf.composeConDisjunction {nodes : List (RexFilter β)} (each : ∀ node ∈ nodes, MadeOf good node) :
    MadeOf good (composeConDisjunction kind nodes) := by
  have listed : ∀ child ∈ (nodes.flatMap (conDisjunctions kind)).eraseDups, MadeOf good child := by
    intro child inside leaf below
    obtain ⟨node,there,part⟩ := List.mem_flatMap.mp (List.mem_eraseDups.mp inside)
    exact each node there leaf (mem_leaves_of_mem_conDisjunctions part below)
  unfold RexFilter.composeConDisjunction
  split
  next => exact .literal _
  next node one => exact listed node (by rw [one]; exact List.mem_singleton_self node)
  next =>
    split
    next => exact .literal _
    next =>
      intro leaf inside
      rw [leaves_junction] at inside
      obtain ⟨child,there,below⟩ := List.mem_flatMap.mp inside
      exact listed child there leaf below

theorem MadeOf.pruneSuperset {node : RexFilter β} (whole : MadeOf good node) :
    MadeOf good (EnhancedFilterJoinPruner.pruneSuperset false node) := by
  cases node with
  | junction kind operands =>
    apply MadeOf.composeConDisjunction
    intro child kept leaf below
    exact whole leaf (mem_leaves_of_mem_conDisjunctions (mem_pruneChildNodes.mp kept).1 below)
  | _ => exact whole

variable {leafValidator predicate : RexFilter β → Bool} {pushToJoin : Bool} {operands : List (RexFilter β)}

theorem madeOf_extractCall {isRoot : Bool} {extractions : List (Extraction β)}
    (each : ∀ extraction ∈ extractions, MadeOf good extraction.key) :
    MadeOf good (extractCall predicate pushToJoin isRoot kind operands extractions).1 := by
  unfold extractCall
  split
  next => exact .literal _
  next =>
    apply MadeOf.pruneSuperset
    apply MadeOf.composeConDisjunction
    intro node inside
    obtain ⟨extraction,kept,rfl⟩ := List.mem_map.mp inside
    exact each extraction (List.mem_of_mem_filter kept)

omit [DecidableEq β] in
theorem madeOf_extractLeaf {isRoot : Bool} {node : RexFilter β} (alone : leaves node = [node]) :
    MadeOf (fun leaf => leafValidator leaf = true) (extractLeaf leafValidator predicate pushToJoin isRoot node).1 := by
  unfold extractLeaf
  split
  next valid =>
    intro leaf inside
    rw [alone] at inside
    rw [List.mem_singleton.mp inside]
    exact .inl (Bool.and_eq_true_iff.mp valid).1
  next => exact .literal _

theorem madeOf_extractBelow (filter : RexFilter β) :
    MadeOf (fun leaf => leafValidator leaf = true) (extractBelow leafValidator predicate pushToJoin filter).1 := by
  induction filter using conDisjunctions_ind with
  | junction kind operands each =>
    rw [extractBelow_junction]
    exact madeOf_extractCall (List.forall_mem_map.mpr each)
  | not operand => exact @madeOf_extractLeaf _ leafValidator predicate pushToJoin false (.not operand) rfl
  | leaf atom => exact @madeOf_extractLeaf _ leafValidator predicate pushToJoin false (.leaf atom) rfl
  | literal value => exact @madeOf_extractLeaf _ leafValidator predicate pushToJoin false (.literal value) rfl

end Leaves
end Hermes.Calcite.EnhancedFilterJoinExtractor
