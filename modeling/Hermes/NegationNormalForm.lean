import Hermes.SimpleExpressionCanonicalizer

/-! Which conditions `toNnf` takes to negation normal form.
A NOT on a NOT is not taken away: it stays on the call that comes of the one below, so that all
is well only where no call comes of it. That is where a single leaf is left below. -/
namespace Hermes.Calcite.NegationNormalForm
open RexFilter SimpleExpressionCanonicalizer Library.ThreeValued
variable {ε β : Type}

section Form
variable {γ : Type} {kind : Connective}

inductive NegationNormal : RexFilter β → Prop where
  | junction (kind : Connective) (operands : List (RexFilter β)) (each : ∀ operand ∈ operands, NegationNormal operand) :
      NegationNormal (.junction kind operands)
  | not (operand : RexFilter β) (apart : ∀ kind operands, operand ≠ .junction kind operands)
      (below : NegationNormal operand) : NegationNormal (.not operand)
  | leaf (predicate : β) : NegationNormal (.leaf predicate)
  | literal (value : Bool) : NegationNormal (.literal value)

def Decided (node : RexFilter β) : Prop := eval (fun _ => none) node ≠ none

/-- A leaf under a number of NOTs, with nothing above it that is decided. -/
inductive Occurs : RexFilter β → Nat → β → Prop where
  | leaf (predicate : β) : Occurs (.leaf predicate) 0 predicate
  | not {operand : RexFilter β} {nots : Nat} {predicate : β} (below : Occurs operand nots predicate) :
      Occurs (.not operand) (nots+1) predicate
  | junction {kind : Connective} {operands : List (RexFilter β)} {operand : RexFilter β} {nots : Nat} {predicate : β}
      (free : ¬Decided (.junction kind operands)) (inside : operand ∈ operands)
        (below : Occurs operand nots predicate) :
      Occurs (.junction kind operands) nots predicate

/-- What is left of the node is one leaf, up to its form, and always under as many NOTs. -/
def SingleLeaf (form : β → γ) (node : RexFilter β) : Prop :=
  ∃ nots predicate, ∀ nots' predicate', Occurs node nots' predicate' → nots' = nots ∧ form predicate' = predicate

/-- Where two NOTs follow each other there is a single leaf below, or a decided node
here or above. The flag tells that a NOT stands above the node. -/
inductive Normal (form : β → γ) : Bool → RexFilter β → Prop where
  | decided {negated : Bool} {node : RexFilter β} (decides : Decided node) : Normal form negated node
  | junction {negated : Bool} {kind : Connective} {operands : List (RexFilter β)}
      (each : ∀ operand ∈ operands, Normal form negated operand) : Normal form negated (.junction kind operands)
  | not {operand : RexFilter β} (below : Normal form true operand) : Normal form false (.not operand)
  | doubleNot {operand : RexFilter β} (single : SingleLeaf form operand) : Normal form true (.not operand)
  | leaf {negated : Bool} (predicate : β) : Normal form negated (.leaf predicate)

variable {node : RexFilter β}

@[simp] theorem decided_not : Decided (.not node) ↔ Decided node := by
  rw [Decided,Decided,eval,ne_eq,ne_eq,Option.map_eq_none_iff]

theorem decided_of_constant {value : Bool} (known : constant? node = some value) : Decided node := by
  rw [Decided,eval_of_constant known]
  exact Option.some_ne_none value

theorem undecided_leaf (predicate : β) : ¬Decided (.leaf predicate) := fun decides => decides rfl

theorem undecided_of_occurs {nots : Nat} {predicate : β} (occurs : Occurs node nots predicate) : ¬Decided node := by
  induction occurs with
  | leaf predicate => exact undecided_leaf predicate
  | not _ ih => rwa [decided_not]
  | junction free => exact free

theorem undecided_junction (operands : List (RexFilter β)) : ¬Decided (.junction kind operands) ↔
    eval (fun _ => none) (.junction kind operands) ≠ some (!kind.neutral) ∧ ∃ operand ∈ operands, ¬Decided operand := by
  rw [Decided,not_not,eval_junction,combine_eq_none,ne_eq,combine_eq_absorbing,List.mem_map (b := none)]
  simp only [Decided,ne_eq,not_not]

theorem operand_free {operands : List (RexFilter β)} {operand : RexFilter β}
    (free : eval (fun _ => none) (.junction kind operands) ≠ some (!kind.neutral)) (inside : operand ∈ operands) :
    eval (fun _ => none) operand ≠ some (!kind.neutral) := by
  rw [eval_junction,ne_eq,combine_eq_absorbing] at free
  exact fun absorbing => free (List.mem_map.mpr ⟨operand,inside,absorbing⟩)

theorem occurs_of_undecided (open_ : ¬Decided node) : ∃ nots predicate, Occurs node nots predicate := by
  induction node using ind with
  | junction kind operands each =>
    obtain ⟨_,operand,inside,below⟩ := (undecided_junction operands).mp open_
    obtain ⟨nots,predicate,occurs⟩ := each operand inside below
    exact ⟨nots,predicate,.junction open_ inside occurs⟩
  | not operand ih =>
    rw [decided_not] at open_
    obtain ⟨nots,predicate,occurs⟩ := ih open_
    exact ⟨nots+1,predicate,.not occurs⟩
  | leaf predicate => exact ⟨0,predicate,.leaf predicate⟩
  | literal value => exact absurd (Option.some_ne_none value) open_

theorem occurs_listed (free : eval (fun _ => none) node ≠ some (!kind.neutral)) (nots : Nat) (predicate : β) :
    Occurs node nots predicate ↔ ∃ child ∈ conDisjunctions kind node, Occurs child nots predicate := by
  induction node using listed_ind kind with
  | call operands each =>
    rw [conDisjunctions_junction]
    constructor
    · rintro (_ | _ | ⟨_,inside,below⟩)
      obtain ⟨child,listed,occurs⟩ := (each _ inside (operand_free free inside)).mp below
      exact ⟨child,List.mem_flatMap.mpr ⟨_,inside,listed⟩,occurs⟩
    · rintro ⟨child,listed,occurs⟩
      obtain ⟨operand,inside,listed⟩ := List.mem_flatMap.mp listed
      have below := (each operand inside (operand_free free inside)).mpr ⟨child,listed,occurs⟩
      exact .junction ((undecided_junction operands).mpr ⟨free,operand,inside,undecided_of_occurs below⟩) inside below
  | dropped node known none_ =>
    rw [none_]
    exact iff_of_false (fun occurs => undecided_of_occurs occurs (decided_of_constant known)) (by simp)
  | listed node _ self => simp [self]

theorem normal_listed {form : β → γ} {negated : Bool} (free : eval (fun _ => none) node ≠ some (!kind.neutral)) :
    Normal form negated node ↔ ∀ child ∈ conDisjunctions kind node, Normal form negated child := by
  induction node using listed_ind kind with
  | call operands each =>
    constructor
    · rintro (decides | below) child listed
      · have whole : combine kind.neutral ((conDisjunctions kind (.junction kind operands)).map (eval fun _ => none)) =
          eval (fun _ => none) (.junction kind operands) := combine_conDisjunctions _
        refine .decided fun unknown => decides ?_
        rw [← whole,combine_eq_none]
        refine ⟨?_,List.mem_map.mpr ⟨child,listed,unknown⟩⟩
        rwa [← combine_eq_absorbing,whole]
      · rw [conDisjunctions_junction] at listed
        obtain ⟨operand,inside,listed⟩ := List.mem_flatMap.mp listed
        exact (each operand inside (operand_free free inside)).mp (below operand inside) child listed
    · intro all
      rw [conDisjunctions_junction] at all
      refine .junction fun operand inside => (each operand inside (operand_free free inside)).mpr fun child listed => ?_
      exact all child (List.mem_flatMap.mpr ⟨operand,inside,listed⟩)
  | dropped node known none_ =>
    rw [none_]
    exact iff_of_true (.decided (decided_of_constant known)) (by simp)
  | listed node _ self => simp [self]

theorem normal_junction {form : β → γ} {negated : Bool} (operands : List (RexFilter β)) :
    Normal form negated (.junction kind operands) ↔ Decided (.junction kind operands) ∨
      ∀ child ∈ conDisjunctions kind (.junction kind operands), Normal form negated child := by
  by_cases decides : Decided (.junction kind operands)
  · exact iff_of_true (.decided decides) (.inl decides)
  · rw [normal_listed ((undecided_junction operands).mp decides).1,or_iff_right decides]

theorem normal_not {form : β → γ} (operand : RexFilter β) : Normal form false (.not operand) ↔
    Normal form true operand := by
  constructor
  · rintro (decides | _ | below)
    · exact .decided (decided_not.mp decides)
    · exact below
  · exact .not

theorem normal_doubleNot {form : β → γ} (operand : RexFilter β) :
    Normal form true (.not operand) ↔ Decided operand ∨ SingleLeaf form operand := by
  constructor
  · rintro (decides | _ | _ | single)
    · exact .inl (decided_not.mp decides)
    · exact .inr single
  · rintro (decides | single)
    · exact .decided (decided_not.mpr decides)
    · exact .doubleNot single

/-- A NOT over NOTs over a leaf or a literal. -/
def JunctionFree : RexFilter β → Prop
  | .junction _ _ => False
  | .not operand => JunctionFree operand
  | .leaf _ => True
  | .literal _ => True

theorem junctionFree_of_constant {value : Bool} (known : constant? node = some value) : JunctionFree node := by
  induction node using ind generalizing value with
  | junction kind operands _ => cases known
  | not operand ih =>
    obtain ⟨inner,found,_⟩ := Option.map_eq_some_iff.mp known
    exact ih found
  | leaf predicate => trivial
  | literal value => trivial

theorem negationNormal_not (operand : RexFilter β) : NegationNormal (.not operand) ↔ JunctionFree operand := by
  induction operand using ind with
  | junction kind operands _ =>
    refine iff_of_false ?_ id
    rintro (_ | ⟨_,apart,_⟩)
    exact apart kind operands rfl
  | not operand ih =>
    constructor
    · rintro (_ | ⟨_,_,below⟩)
      exact ih.mp below
    · exact fun free => .not _ (fun _ _ => nofun) (ih.mpr free)
  | leaf predicate => exact iff_of_true (.not _ (fun _ _ => nofun) (.leaf predicate)) trivial
  | literal value => exact iff_of_true (.not _ (fun _ _ => nofun) (.literal value)) trivial

theorem JunctionFree.negationNormal (free : JunctionFree node) : NegationNormal node := by
  cases node with
  | junction kind operands => exact free.elim
  | not operand => exact (negationNormal_not operand).mpr free
  | leaf predicate => exact .leaf predicate
  | literal value => exact .literal value

theorem negationNormal_junction (operands : List (RexFilter β)) :
    NegationNormal (.junction kind operands) ↔ ∀ operand ∈ operands, NegationNormal operand := by
  constructor
  · intro normal
    cases normal with
    | junction _ _ each => exact each
  · exact .junction kind operands

theorem negationNormal_listed (kind : Connective) :
    NegationNormal node ↔ ∀ child ∈ conDisjunctions kind node, NegationNormal child := by
  induction node using listed_ind kind with
  | call operands each =>
    rw [negationNormal_junction,conDisjunctions_junction,List.forall_mem_flatMap]
    exact forall₂_congr each
  | dropped node known none_ =>
    rw [none_]
    exact iff_of_true (junctionFree_of_constant known).negationNormal (by simp)
  | listed node _ self => simp [self]

theorem JunctionFree.listed (free : JunctionFree node) {child : RexFilter β}
    (inside : child ∈ conDisjunctions kind node) :
    child = node := by
  induction node using listed_ind kind with
  | call operands _ => exact free.elim
  | dropped node _ none_ => simp [none_] at inside
  | listed node _ self => simpa [self] using inside

def underNots : Nat → RexFilter β → RexFilter β
  | 0, node => node
  | nots+1, node => .not (underNots nots node)

theorem junctionFree_underNots (nots : Nat) (predicate : β) : JunctionFree (underNots nots (.leaf predicate)) := by
  induction nots with
  | zero => trivial
  | succ nots ih => exact ih

theorem JunctionFree.underNots (free : JunctionFree node) (open_ : ¬Decided node) :
    ∃ nots predicate, node = NegationNormalForm.underNots nots (.leaf predicate) := by
  induction node using ind with
  | junction kind operands _ => exact free.elim
  | not operand ih =>
    rw [decided_not] at open_
    obtain ⟨nots,predicate,rfl⟩ := ih free open_
    exact ⟨nots+1,predicate,rfl⟩
  | leaf predicate => exact ⟨0,predicate,rfl⟩
  | literal value => exact absurd (Option.some_ne_none value) open_

/-- Where the value of a node is the same whatever the leaves are, it is seen to be so. -/
def Settles (node : RexFilter β) : Prop := ∀ value, eval (fun _ => none) node = some value → constant? node = some value

/-- Every call has two different operands to list. -/
inductive Tidy : RexFilter β → Prop where
  | junction (kind : Connective) (operands : List (RexFilter β))
      (two : ∃ first ∈ conDisjunctions kind (.junction kind operands),
        ∃ second ∈ conDisjunctions kind (.junction kind operands), first ≠ second)
      (each : ∀ operand ∈ operands, Tidy operand) : Tidy (.junction kind operands)
  | not (operand : RexFilter β) : Tidy (.not operand)
  | leaf (predicate : β) : Tidy (.leaf predicate)
  | literal (value : Bool) : Tidy (.literal value)

theorem Tidy.listed (tidy : Tidy node) : ∀ child ∈ conDisjunctions kind node, Tidy child := by
  induction node using listed_ind kind with
  | call operands each =>
    cases tidy with
    | junction _ _ two below =>
      rw [conDisjunctions_junction,List.forall_mem_flatMap]
      exact fun operand inside => each operand inside (below operand inside)
  | dropped node _ none_ => simp [none_]
  | listed node _ self => simpa [self] using tidy

theorem Tidy.eq_of_listed (tidy : Tidy node) (open_ : ¬Decided node) {single : RexFilter β}
    (all : ∀ child ∈ conDisjunctions kind node, child = single) : node = single := by
  induction node using listed_ind kind with
  | call operands _ =>
    cases tidy with
    | junction _ _ two _ =>
      obtain ⟨first,inside,second,inside',differs⟩ := two
      exact absurd ((all first inside).trans (all second inside').symm) differs
  | dropped node known _ => exact absurd (decided_of_constant known) open_
  | listed node _ self => exact all node (by simp [self])

end Form

section Compose
variable [DecidableEq β] {kind : Connective} {nodes : List (RexFilter β)}

def together (kind : Connective) (nodes : List (RexFilter β)) : List (RexFilter β) :=
  (nodes.flatMap (conDisjunctions kind)).eraseDups

inductive Composed (kind : Connective) (operands : List (RexFilter β)) : RexFilter β → Prop where
  | empty (none_ : operands = []) : Composed kind operands (.literal kind.neutral)
  | single {operand : RexFilter β} (one : operands = [operand]) : Composed kind operands operand
  | absorbed {operand : RexFilter β} (inside : operand ∈ operands) (known : constant? operand = some (!kind.neutral)) :
      Composed kind operands (.literal (!kind.neutral))
  | call {first second : RexFilter β} {rest : List (RexFilter β)} (several : operands = first::second::rest)
      (differs : first ≠ second) (free : ∀ operand ∈ operands, constant? operand ≠ some (!kind.neutral)) :
      Composed kind operands (.junction kind operands)

theorem ne_of_eraseDups {first second : RexFilter β} {rest : List (RexFilter β)}
    (erased : nodes.eraseDups = first::second::rest) : first ≠ second := by
  cases nodes with
  | nil => cases erased
  | cons node nodes =>
    rw [List.eraseDups_cons,List.cons.injEq] at erased
    have inside : second ∈ (nodes.filter fun other => !other == node).eraseDups := by simp [erased.2]
    rw [List.mem_eraseDups,List.mem_filter] at inside
    rintro rfl
    simp [erased.1] at inside

theorem composed (kind : Connective) (nodes : List (RexFilter β)) :
    Composed kind (together kind nodes) (composeConDisjunction kind nodes) := by
  unfold composeConDisjunction
  rw [← together]
  split
  next none_ => exact .empty none_
  next node one => exact .single one
  next others several =>
    split
    next absorbing =>
      obtain ⟨operand,inside,known⟩ := List.any_eq_true.mp absorbing
      exact .absorbed inside (of_decide_eq_true known)
    next free =>
      cases operands : together kind nodes with
      | nil => exact absurd operands others
      | cons first rest =>
        cases rest with
        | nil => exact absurd operands (several first)
        | cons second rest =>
          refine .call rfl (ne_of_eraseDups operands) fun operand inside known => free ?_
          exact List.any_eq_true.mpr ⟨operand,operands ▸ inside,decide_eq_true known⟩

theorem mem_together {child : RexFilter β} :
    child ∈ together kind nodes ↔ ∃ node ∈ nodes, child ∈ conDisjunctions kind node := by
  rw [together,List.mem_eraseDups,List.mem_flatMap]

theorem together_listed : (together kind nodes).flatMap (conDisjunctions kind) = together kind nodes := by
  have self : ∀ child ∈ together kind nodes, conDisjunctions kind child = [child] := by
    intro child inside
    obtain ⟨node,_,listed⟩ := mem_together.mp inside
    exact conDisjunctions_of_mem listed
  rw [List.flatMap_congr self]
  exact List.flatMap_singleton' _

theorem Tidy.compose (each : ∀ node ∈ nodes, Tidy node) : Tidy (composeConDisjunction kind nodes) := by
  have tidy : ∀ child ∈ together kind nodes, Tidy child := by
    intro child inside
    obtain ⟨node,there,listed⟩ := mem_together.mp inside
    exact (each node there).listed child listed
  have listing : (together kind nodes).flatMap (conDisjunctions kind) = together kind nodes := together_listed
  have shape := composed kind nodes
  revert shape
  generalize composeConDisjunction kind nodes = result
  rintro (_ | one | _ | ⟨several,differs,_⟩)
  · exact .literal _
  · exact tidy _ (by simp [one])
  · exact .literal _
  · refine .junction kind _ ?_ tidy
    rw [conDisjunctions_junction,listing,several]
    exact ⟨_,List.mem_cons_self,_,List.mem_cons_of_mem _ List.mem_cons_self,differs⟩

theorem Settles.compose (each : ∀ node ∈ nodes, Settles node) : Settles (composeConDisjunction kind nodes) := by
  intro value known
  have whole : eval (fun _ => none) (composeConDisjunction kind nodes) = combine kind.neutral
      (nodes.map (eval fun _ => none)) :=
    eval_composeConDisjunction nodes
  rw [known,eq_comm] at whole
  rcases Bool.eq_or_eq_not value kind.neutral with rfl | rfl
  · have empty : together kind nodes = [] := by
      apply List.eq_nil_iff_forall_not_mem.mpr
      intro child inside
      obtain ⟨node,there,listed⟩ := mem_together.mp inside
      have constant := each node there _ (combine_eq_neutral.mp whole _ (List.mem_map.mpr ⟨node,there,rfl⟩))
      rw [conDisjunctions_neutral constant] at listed
      exact List.not_mem_nil listed
    unfold together at empty
    rw [composeConDisjunction,empty]
    rfl
  · obtain ⟨node,there,absorbing⟩ := List.mem_map.mp (combine_eq_absorbing.mp whole)
    have constant := each node there _ absorbing
    have inside : node ∈ together kind nodes :=
      mem_together.mpr ⟨node,there,by rw [conDisjunctions_absorbing constant]; exact List.mem_singleton_self _⟩
    have shape := composed kind nodes
    revert shape
    generalize composeConDisjunction kind nodes = result
    rintro (none_ | one | _ | ⟨_,_,free⟩)
    · simp [none_] at inside
    · rw [one,List.mem_singleton] at inside
      rw [← inside,constant]
    · rfl
    · exact absurd constant (free node inside)

theorem negationNormal_compose (each : ∀ node ∈ nodes, Settles node) :
    NegationNormal (composeConDisjunction kind nodes) ↔
      Decided (composeConDisjunction kind nodes) ∨ ∀ node ∈ nodes, NegationNormal node := by
  by_cases decides : Decided (composeConDisjunction kind nodes)
  · obtain ⟨value,known⟩ := Option.ne_none_iff_exists'.mp decides
    exact iff_of_true (junctionFree_of_constant (Settles.compose each value known)).negationNormal (.inl decides)
  · have parts : (∀ node ∈ nodes, NegationNormal node) ↔ ∀ child ∈ together kind nodes, NegationNormal child := by
      simp only [together,List.mem_eraseDups,List.forall_mem_flatMap]
      exact forall₂_congr fun node _ => negationNormal_listed kind
    rw [or_iff_right decides,parts]
    have shape := composed kind nodes
    revert shape decides
    generalize composeConDisjunction kind nodes = result
    rintro decides (_ | one | _ | _)
    · exact absurd (decided_of_constant rfl) decides
    · simp [one]
    · exact absurd (decided_of_constant rfl) decides
    · exact negationNormal_junction _

theorem composeConDisjunction_eq_iff (settles : ∀ node ∈ nodes, Settles node) (tidy : ∀ node ∈ nodes, Tidy node)
    (open_ : ¬Decided (composeConDisjunction kind nodes)) {single : RexFilter β} (free : JunctionFree single) :
    composeConDisjunction kind nodes = single ↔ ∀ node ∈ nodes, ¬Decided node → node = single := by
  have whole : eval (fun _ => none) (composeConDisjunction kind nodes) = combine kind.neutral
      (nodes.map (eval fun _ => none)) :=
    eval_composeConDisjunction nodes
  rw [not_not.mp open_,eq_comm,combine_eq_none] at whole
  have shape := composed kind nodes
  have member : ∀ child, child ∈ together kind nodes ↔ ∃ node ∈ nodes, child ∈ conDisjunctions kind node :=
      fun _ => mem_together
  revert shape open_
  generalize composeConDisjunction kind nodes = result
  intro open_ shape
  constructor
  · rintro rfl node there opens
    refine (tidy node there).eq_of_listed opens fun child (listed : child ∈ conDisjunctions kind node) => ?_
    have inside := (member child).mpr ⟨node,there,listed⟩
    cases shape with
    | empty => exact absurd (decided_of_constant rfl) open_
    | single one => simpa [one] using inside
    | absorbed => exact absurd (decided_of_constant rfl) open_
    | call => exact free.elim
  · intro all
    have same : ∀ child ∈ together kind nodes, child = single := by
      intro child inside
      obtain ⟨node,there,listed⟩ := (member child).mp inside
      by_cases decides : Decided node
      · obtain ⟨value,known⟩ := Option.ne_none_iff_exists'.mp decides
        have constant := settles node there value known
        rcases Bool.eq_or_eq_not value kind.neutral with rfl | rfl
        · rw [conDisjunctions_neutral constant] at listed
          exact absurd listed List.not_mem_nil
        · exact absurd (List.mem_map.mpr ⟨node,there,known⟩) whole.1
      · rw [all node there decides] at listed
        exact free.listed listed
    cases shape with
    | empty => exact absurd (decided_of_constant rfl) open_
    | single one => exact same _ (by simp [one])
    | absorbed => exact absurd (decided_of_constant rfl) open_
    | call several differs =>
      have first := same _ (by rw [several]; exact List.mem_cons_self)
      have second := same _ (by rw [several]; exact List.mem_cons_of_mem _ List.mem_cons_self)
      exact absurd (first.trans second.symm) differs

end Compose

section Negated
variable {γ : Type} {node : RexFilter β}

theorem Settles.not (settles : Settles node) : Settles (.not node) := by
  intro value known
  obtain ⟨inner,found,rfl⟩ := Option.map_eq_some_iff.mp known
  rw [constant?,settles inner found]
  rfl

theorem settles_leaf (predicate : β) : Settles (.leaf predicate) := fun _ known => nomatch known

theorem settles_literal (value : Bool) : Settles (.literal value : RexFilter β) := fun _ known => known

variable [DecidableEq β]

theorem settles_toNnf (node : RexFilter β) : Settles (toNnf node) := by
  induction node using nnf_ind with
  | junction kind operands each =>
    rw [toNnf_junction]
    exact Settles.compose (List.forall_mem_map.mpr each)
  | notJunction kind operands each =>
    rw [toNnf_not_junction]
    exact Settles.compose (List.forall_mem_map.mpr each)
  | notNot operand ih =>
    rw [toNnf_not_not]
    exact ih.not
  | notLeaf predicate => simpa using (settles_leaf predicate).not
  | notLiteral value => simpa using (settles_literal value).not
  | leaf predicate => simpa using settles_leaf predicate
  | literal value => simpa using settles_literal value

theorem tidy_toNnf (node : RexFilter β) : Tidy (toNnf node) := by
  induction node using nnf_ind with
  | junction kind operands each =>
    rw [toNnf_junction]
    exact Tidy.compose (List.forall_mem_map.mpr each)
  | notJunction kind operands each =>
    rw [toNnf_not_junction]
    exact Tidy.compose (List.forall_mem_map.mpr each)
  | notNot operand _ =>
    rw [toNnf_not_not]
    exact .not _
  | notLeaf predicate => simpa using Tidy.not (.leaf predicate)
  | notLiteral value => simpa using Tidy.not (.literal value)
  | leaf predicate => simpa using Tidy.leaf predicate
  | literal value => simpa using Tidy.literal value

@[simp] theorem decided_toNnf : Decided (toNnf node) ↔ Decided node := by
  rw [Decided,eval_toNnf,Decided]

theorem toNnf_not_eq_iff (node : RexFilter β) (open_ : ¬Decided node) (nots : Nat) (predicate : β) :
    toNnf (.not node) = underNots nots (.leaf predicate) ↔
      ∀ nots' predicate', Occurs node nots' predicate' → nots'+1 = nots ∧ predicate' = predicate := by
  suffices negated : ∀ target : RexFilter β, ∀ node, target = .not node → ¬Decided node → ∀ nots,
      (toNnf target = underNots nots (.leaf predicate) ↔
        ∀ nots' predicate', Occurs node nots' predicate' → nots'+1 = nots ∧ predicate' = predicate) from
    negated _ node rfl open_ nots
  intro target
  induction target using nnf_ind with
  | junction kind operands _ => nofun
  | notJunction kind operands each =>
    rintro _ ⟨rfl⟩ opens nots
    have whole : ¬Decided (toNnf (.not (.junction kind operands))) := by simpa using opens
    have open_ := ((undecided_junction operands).mp opens).1
    rw [toNnf_not_junction] at whole ⊢
    rw [composeConDisjunction_eq_iff (List.forall_mem_map.mpr fun node _ => settles_toNnf _)
      (List.forall_mem_map.mpr fun node _ => tidy_toNnf _) whole
        (junctionFree_underNots nots predicate),List.forall_mem_map]
    simp only [decided_toNnf,decided_not]
    constructor
    · intro all nots' predicate' occurs
      obtain ⟨child,listed,below⟩ := (occurs_listed open_ nots' predicate').mp occurs
      have opens' := undecided_of_occurs below
      exact (each child listed child rfl opens' nots).mp (all child listed opens') nots' predicate' below
    · intro all child listed opens'
      refine (each child listed child rfl opens' nots).mpr fun nots' predicate' below => ?_
      exact all nots' predicate' ((occurs_listed open_ nots' predicate').mpr ⟨child,listed,below⟩)
  | notNot operand ih =>
    rintro _ ⟨rfl⟩ opens nots
    rw [toNnf_not_not]
    rw [decided_not] at opens
    cases nots with
    | zero =>
      obtain ⟨nots,predicate',occurs⟩ := occurs_of_undecided opens
      exact iff_of_false nofun fun all => absurd (all _ _ occurs.not).1 (Nat.succ_ne_zero _)
    | succ nots =>
      rw [underNots,RexFilter.not.injEq,ih operand rfl opens nots]
      constructor
      · rintro all _ predicate' (_ | below)
        exact ⟨congrArg (·+1) (all _ predicate' below).1,(all _ predicate' below).2⟩
      · intro all nots' predicate' below
        have above := all _ predicate' below.not
        exact ⟨Nat.succ_injective above.1,above.2⟩
  | notLeaf predicate' =>
    rintro _ ⟨rfl⟩ _ nots
    have only : (∀ nots' other, Occurs (.leaf predicate') nots' other → nots'+1 = nots ∧ other = predicate) ↔
        1 = nots ∧ predicate' = predicate := by
      constructor
      · exact fun all => all _ _ (.leaf predicate')
      · rintro same nots' other (_ | _)
        exact same
    rw [only,toNnf_not_leaf]
    match nots with
    | 0 => simp [underNots]
    | 1 => simp [underNots]
    | nots+2 => simp [underNots]
  | notLiteral value =>
    rintro _ ⟨rfl⟩ opens
    exact absurd (decided_of_constant rfl) opens
  | leaf predicate => nofun
  | literal value => nofun

theorem junctionFree_toNnf_not (open_ : ¬Decided node) : JunctionFree (toNnf (.not node)) ↔ SingleLeaf id node := by
  constructor
  · intro free
    obtain ⟨nots,predicate,result⟩ := free.underNots (by simpa using open_)
    have all := (toNnf_not_eq_iff node open_ nots predicate).mp result
    obtain ⟨nots',predicate',occurs⟩ := occurs_of_undecided open_
    refine ⟨nots',predicate,fun nots'' predicate'' occurs' => ?_⟩
    have first := all _ _ occurs
    have second := all _ _ occurs'
    exact ⟨by omega,second.2⟩
  · rintro ⟨nots,predicate,all⟩
    rw [(toNnf_not_eq_iff node open_ (nots+1) predicate).mpr fun nots' predicate' occurs =>
      ⟨congrArg (·+1) (all _ _ occurs).1,(all _ _ occurs).2⟩]
    exact junctionFree_underNots _ _

theorem negationNormal_toNnf (node : RexFilter β) : NegationNormal (toNnf node) ↔ Normal id false node := by
  induction node using nnf_ind with
  | junction kind operands each =>
    rw [toNnf_junction,negationNormal_compose (List.forall_mem_map.mpr fun node _ => settles_toNnf _),
      ← toNnf_junction,decided_toNnf,
      List.forall_mem_map,normal_junction]
    exact or_congr Iff.rfl (forall₂_congr each)
  | notJunction kind operands each =>
    rw [toNnf_not_junction,negationNormal_compose (List.forall_mem_map.mpr fun node _ => settles_toNnf _),
      ← toNnf_not_junction,
      decided_toNnf,decided_not,List.forall_mem_map,normal_not,normal_junction]
    exact or_congr Iff.rfl (forall₂_congr fun node inside => (each node inside).trans (normal_not node))
  | notNot operand _ =>
    rw [toNnf_not_not,negationNormal_not,normal_not,normal_doubleNot]
    by_cases decides : Decided operand
    · obtain ⟨value,known⟩ := Option.ne_none_iff_exists'.mp (decided_toNnf.mpr (decided_not.mpr decides))
      exact iff_of_true (junctionFree_of_constant (settles_toNnf _ value known)) (.inl decides)
    · rw [junctionFree_toNnf_not decides,or_iff_right decides]
  | notLeaf predicate =>
    rw [toNnf_not_leaf,negationNormal_not]
    exact iff_of_true trivial (.not (.leaf predicate))
  | notLiteral value =>
    rw [toNnf_not_literal,negationNormal_not]
    exact iff_of_true trivial (.not (.decided (decided_of_constant rfl)))
  | leaf predicate =>
    rw [toNnf_leaf]
    exact iff_of_true (.leaf predicate) (.leaf predicate)
  | literal value =>
    rw [toNnf_literal]
    exact iff_of_true (.literal value) (.decided (decided_of_constant rfl))

end Negated

section Leaves
variable {γ : Type} {kind : Connective} {node : RexFilter β} {form : β → γ}

inductive Mentions : RexFilter β → β → Prop where
  | leaf (predicate : β) : Mentions (.leaf predicate) predicate
  | not {operand : RexFilter β} {predicate : β} (below : Mentions operand predicate) : Mentions (.not operand) predicate
  | junction {kind : Connective} {operands : List (RexFilter β)} {operand : RexFilter β} {predicate : β}
      (inside : operand ∈ operands) (below : Mentions operand predicate) : Mentions (.junction kind operands) predicate

theorem Mentions.of_listed {child : RexFilter β} {predicate : β} (inside : child ∈ conDisjunctions kind node)
    (mentions : Mentions child predicate) : Mentions node predicate := by
  induction node using listed_ind kind with
  | call operands each =>
    rw [conDisjunctions_junction] at inside
    obtain ⟨operand,there,listed⟩ := List.mem_flatMap.mp inside
    exact .junction there (each operand there listed)
  | dropped node _ none_ => simp [none_] at inside
  | listed node _ self =>
    rw [self,List.mem_singleton] at inside
    rwa [← inside]

theorem decided_mapLeaves : Decided (mapLeaves form node) ↔ Decided node := by
  rw [Decided,eval_mapLeaves]
  rfl

theorem occurs_mapLeaves (nots : Nat) (predicate : γ) :
    Occurs (mapLeaves form node) nots predicate ↔ ∃ predicate', Occurs node nots predicate' ∧
    form predicate' = predicate := by
  induction node using ind generalizing nots with
  | junction kind operands each =>
    have whole : Decided (mapLeaves form (.junction kind operands)) ↔ Decided (.junction kind operands) :=
        decided_mapLeaves
    rw [mapLeaves_junction] at whole ⊢
    constructor
    · rintro (_ | _ | ⟨free,inside,below⟩)
      obtain ⟨operand,there,rfl⟩ := List.mem_map.mp inside
      obtain ⟨predicate',occurs,same⟩ := (each operand there nots).mp below
      exact ⟨predicate',.junction (fun decides => free (whole.mpr decides)) there occurs,same⟩
    · rintro ⟨predicate',_ | _ | ⟨free,inside,below⟩,same⟩
      exact .junction (fun decides => free (whole.mp decides)) (List.mem_map.mpr ⟨_,inside,rfl⟩)
        ((each _ inside nots).mpr ⟨predicate',below,same⟩)
  | not operand ih =>
    constructor
    · rintro (_ | below)
      obtain ⟨predicate',occurs,same⟩ := (ih _).mp below
      exact ⟨predicate',.not occurs,same⟩
    · rintro ⟨predicate',_ | below,same⟩
      exact .not ((ih _).mpr ⟨predicate',below,same⟩)
  | leaf predicate' =>
    constructor
    · rintro (_ | _)
      exact ⟨predicate',.leaf _,rfl⟩
    · rintro ⟨_,_ | _,rfl⟩
      exact .leaf _
  | literal value =>
    constructor
    · nofun
    · rintro ⟨_,occurs,_⟩
      cases occurs

theorem singleLeaf_mapLeaves : SingleLeaf id (mapLeaves form node) ↔ SingleLeaf form node := by
  refine exists₂_congr fun nots predicate => forall_congr' fun nots' => ?_
  constructor
  · intro all predicate' occurs
    exact all _ ((occurs_mapLeaves nots' _).mpr ⟨predicate',occurs,rfl⟩)
  · intro all _ occurs
    obtain ⟨predicate',below,rfl⟩ := (occurs_mapLeaves nots' _).mp occurs
    exact all predicate' below

theorem normal_mapLeaves {negated : Bool} : Normal id negated (mapLeaves form node) ↔ Normal form negated node := by
  induction node using ind generalizing negated with
  | junction kind operands each =>
    have whole : Decided (mapLeaves form (.junction kind operands)) ↔ Decided (.junction kind operands) :=
        decided_mapLeaves
    rw [mapLeaves_junction] at whole ⊢
    constructor
    · rintro (decides | below)
      · exact .decided (whole.mp decides)
      · exact .junction fun operand inside => (each operand inside).mp (below _ (List.mem_map.mpr ⟨operand,inside,rfl⟩))
    · rintro (decides | below)
      · exact .decided (whole.mpr decides)
      · exact .junction (List.forall_mem_map.mpr fun operand inside => (each operand inside).mpr (below operand inside))
  | not operand ih =>
    rw [mapLeaves]
    cases negated with
    | false => rw [normal_not,normal_not,ih]
    | true =>
      rw [normal_doubleNot,normal_doubleNot,decided_mapLeaves,singleLeaf_mapLeaves]
  | leaf predicate => exact iff_of_true (.leaf _) (.leaf _)
  | literal value => exact iff_of_true (.decided (decided_of_constant rfl)) (.decided (decided_of_constant rfl))

theorem Mentions.of_mapLeaves {predicate : γ} (mentions : Mentions (mapLeaves form node) predicate) :
    ∃ predicate', form predicate' = predicate := by
  induction node using ind with
  | junction kind operands each =>
    rw [mapLeaves_junction] at mentions
    obtain _ | _ | ⟨inside,below⟩ := mentions
    obtain ⟨operand,there,rfl⟩ := List.mem_map.mp inside
    exact each operand there below
  | not operand ih =>
    obtain _ | below := mentions
    exact ih below
  | leaf predicate' =>
    obtain _ | _ := mentions
    exact ⟨predicate',rfl⟩
  | literal value => cases mentions

variable [DecidableEq β]

theorem Mentions.of_compose {nodes : List (RexFilter β)} {predicate : β}
    (mentions : Mentions (composeConDisjunction kind nodes) predicate) : ∃ node ∈ nodes, Mentions node predicate := by
  have member : ∀ child, child ∈ together kind nodes ↔ ∃ node ∈ nodes, child ∈ conDisjunctions kind node :=
      fun _ => mem_together
  have inside : ∃ child ∈ together kind nodes, Mentions child predicate := by
    have shape := composed kind nodes
    revert shape mentions
    generalize composeConDisjunction kind nodes = result
    rintro mentions (_ | one | _ | _)
    · cases mentions
    · exact ⟨_,by simp [one],mentions⟩
    · cases mentions
    · obtain _ | _ | ⟨inside,below⟩ := mentions
      exact ⟨_,inside,below⟩
  obtain ⟨child,there,below⟩ := inside
  obtain ⟨node,inside,listed⟩ := (member child).mp there
  exact ⟨node,inside,below.of_listed listed⟩

theorem Mentions.of_toNnf {predicate : β} (mentions : Mentions (toNnf node) predicate) : Mentions node predicate := by
  induction node using nnf_ind with
  | junction kind operands each =>
    rw [toNnf_junction] at mentions
    obtain ⟨_,inside,below⟩ := mentions.of_compose
    obtain ⟨child,listed,rfl⟩ := List.mem_map.mp inside
    exact (each child listed below).of_listed listed
  | notJunction kind operands each =>
    rw [toNnf_not_junction] at mentions
    obtain ⟨_,inside,below⟩ := mentions.of_compose
    obtain ⟨child,listed,rfl⟩ := List.mem_map.mp inside
    obtain _ | below := each child listed below
    exact .not (below.of_listed listed)
  | notNot operand ih =>
    rw [toNnf_not_not] at mentions
    obtain _ | below := mentions
    exact .not (ih below)
  | notLeaf predicate' => rwa [toNnf_not_leaf] at mentions
  | notLiteral value => rwa [toNnf_not_literal] at mentions
  | leaf predicate' => rwa [toNnf_leaf] at mentions
  | literal value => rwa [toNnf_literal] at mentions

end Leaves

section Normalising
variable (V : Type) [LT V] [LE V] [DecidableEq V] [DecidableLT V] [DecidableLE V] [DecidableEq ε] [DecidableEq β]
  {columns : ε → Finset Nat} {compareTo : Finset Nat → Finset Nat → Int}

/-- What normalising a condition is for: the same value on every row, no NOT above an
AND or OR, and columns on the left. -/
structure Normalises (columns : ε → Finset Nat) (compareTo : Finset Nat → Finset Nat → Int)
    (node : RexFilter (Predicate ε β)) : Prop where
  preserves : ∀ (value : ε → Option V) (truth : β → Option Bool),
    eval (truthOf value truth) (toNnf (canonicalizeExpression columns compareTo node)) = eval (truthOf value truth) node
  normal : NegationNormal (toNnf (canonicalizeExpression columns compareTo node))
  oriented : ∀ compared, Mentions (toNnf (canonicalizeExpression columns compareTo node)) (.comparison compared) →
    Oriented columns compared

/-- A condition is normalised exactly if below each NOT on a NOT a single leaf is left. -/
theorem normalises_iff (node : RexFilter (Predicate ε β)) : Normalises V columns compareTo node ↔
    Normal (canonicalizePredicate columns compareTo) false node := by
  have normal := (negationNormal_toNnf (canonicalizeExpression columns compareTo node)).trans normal_mapLeaves
  constructor
  · exact fun normalises => normal.mp normalises.normal
  · intro single
    refine ⟨fun value truth => ?_,normal.mpr single,fun compared mentions => ?_⟩
    · rw [eval_toNnf,canonicalizeExpression,eval_mapLeaves]
      congr 1
      funext predicate
      exact truthOf_canonicalizePredicate value truth predicate
    · obtain ⟨predicate,result⟩ := mentions.of_toNnf.of_mapLeaves
      exact canonicalizePredicate_oriented result

end Normalising

section Examples

def firstLeaf : RexFilter (Predicate Nat Nat) := .leaf (.other 1)

def secondLeaf : RexFilter (Predicate Nat Nat) := .leaf (.other 2)

/-- A NOT on a NOT on an AND ends up on an OR. -/
theorem double_negation_kept :
    ¬Normalises Nat (fun _ => ∅) (fun _ _ => 0) (.not (.not (.junction .and [firstLeaf,secondLeaf]))) := by
  intro normalises
  have below : toNnf (.not (.junction .and [firstLeaf,secondLeaf])) = .junction .or [.not firstLeaf,
      .not secondLeaf] := by
    have operands : conDisjunctions .and (.junction .and [firstLeaf,secondLeaf]) = [firstLeaf,secondLeaf] := rfl
    rw [toNnf_not_junction,operands,List.map_cons,List.map_cons,List.map_nil,firstLeaf,secondLeaf,toNnf_not_leaf,
      toNnf_not_leaf]
    decide
  have normal := normalises.normal
  change NegationNormal (toNnf (.not (.not (.junction .and [firstLeaf,secondLeaf])))) at normal
  rwa [toNnf_not_not,negationNormal_not,below] at normal

end Examples

end Hermes.Calcite.NegationNormalForm
