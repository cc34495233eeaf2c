import Hermes.PartitionPruner

/-! The order in which a zone map hands out its columns. A rewrite that leaves no predicate
must be the last one, so what `prune` does depends on that order. -/
namespace Hermes.PartitionPruner
open Hermes.Library.PredicateTree Hermes.Library.PredicateTree.Tree Hermes.Library.Fallible
variable {ι : Type} [DecidableEq ι] {partitions : List (Partition ι)} {predicate : Expression}

/-- The same partition, with its zone map in another order. -/
structure Reordered (partition other : Partition ι) : Prop where
  name : other.name = partition.name
  zoneMap : other.zoneMap.Perm partition.zoneMap

/-- The partitions that are kept, by name, and what is left of the predicate for each. -/
def outcome (partitions : List (Partition ι)) (predicate : Expression) :
    Except PruneError (List (ι × Option Expression)) :=
  (prune partitions (some predicate)).map fun pruneRes => pruneRes.map fun entry => (entry.1.name,entry.2)

/-- Pruning returns, with the same result in whatever order the zone maps are gone through. -/
def EveryOrder (partitions : List (Partition ι)) (predicate : Expression) : Prop :=
  ∃ kept, ∀ others, List.Forall₂ Reordered partitions others → outcome others predicate = .ok kept

section Types

/-- The literal is compared with statistics of its type. The minimum is only looked at where
the maximum has not settled the question. -/
def ComparisonType.Comparable (type : ComparisonType) (v statsMin statsMax : Scalar) : Prop :=
  match type with
  | .equalTo => v.type = statsMax.type ∧ (statsMax.below v = true ∨ v.type = statsMin.type)
  | .lessThan | .lessThanOrEqualTo => v.type = statsMin.type
  | .greaterThan | .greaterThanOrEqualTo => v.type = statsMax.type

def Leaf.Comparable (stats : MinMax) : Leaf → Prop
  | .comparison type (.column columnName) (.literal literal) => columnName = stats.columnName →
    ∀ v ∈ literal.litToScalar, type.Comparable v stats.statsMin stats.statsMax
  | _ => True

mutual

/-- The comparisons that the rewrite by a column comes to. -/
def Comparable (stats : MinMax) : Expression → Prop
  | .and_ exprs => ComparableAnd stats exprs
  | .or_ exprs => ComparableOr stats exprs
  | .leaf predicate => predicate.Comparable stats

def ComparableAnd (stats : MinMax) : List Expression → Prop
  | [] => True
  | childExpr::exprs => Comparable stats childExpr ∧
    (excluded (keeps stats) childExpr = true ∨ ComparableAnd stats exprs)

def ComparableOr (stats : MinMax) : List Expression → Prop
  | [] => True
  | childExpr::exprs => Comparable stats childExpr ∧ ComparableOr stats exprs

end

variable {stats : MinMax}

theorem checkPredMin_iff {v statsMax : Scalar} (ordered : v.type.Ordered = true) (predMinOpen : Bool) :
    (∃ valid, checkPredMin (some v) predMinOpen statsMax = .ok valid) ↔ v.type = statsMax.type := by
  constructor
  · rintro ⟨valid,ok⟩
    rw [checkPredMin] at ok
    split at ok
    · cases ok
    · rename_i same
      exact not_not.mp same
  · intro same
    refine ⟨_,checkPredMin_eq predMinOpen ?_⟩
    rintro _ ⟨rfl⟩
    exact ⟨same,ordered⟩

theorem checkPredMax_iff {v statsMin : Scalar} (ordered : v.type.Ordered = true) (predMaxOpen : Bool) :
    (∃ valid, checkPredMax (some v) predMaxOpen statsMin = .ok valid) ↔ v.type = statsMin.type := by
  constructor
  · rintro ⟨valid,ok⟩
    rw [checkPredMax] at ok
    split at ok
    · cases ok
    · rename_i same
      exact not_not.mp same
  · intro same
    refine ⟨_,checkPredMax_eq predMaxOpen ?_⟩
    rintro _ ⟨rfl⟩
    exact ⟨same,ordered⟩

theorem checkValid_iff {predMin predMax : Option Scalar} {predMinOpen predMaxOpen : Bool} {statsMin statsMax : Scalar} :
    (∃ valid, checkValid predMin predMax predMinOpen predMaxOpen statsMin statsMax = .ok valid) ↔
      ∃ least, checkPredMin predMin predMinOpen statsMax = .ok least ∧
        (least = false ∨ ∃ valid, checkPredMax predMax predMaxOpen statsMin = .ok valid) := by
  constructor
  · rintro ⟨valid,ok⟩
    obtain ⟨least,first,rest⟩ := bind_eq_ok.mp ok
    refine ⟨least,first,?_⟩
    cases least with
    | false => exact Or.inl rfl
    | true => exact Or.inr ⟨valid,rest⟩
  · rintro ⟨least,first,rfl | ⟨valid,second⟩⟩
    · exact ⟨false,bind_eq_ok.mpr ⟨false,first,rfl⟩⟩
    · cases least with
      | false => exact ⟨false,bind_eq_ok.mpr ⟨false,first,rfl⟩⟩
      | true => exact ⟨valid,bind_eq_ok.mpr ⟨true,first,second⟩⟩

theorem checkComparison_iff {type : ComparisonType} {v statsMin statsMax : Scalar} (ordered : v.type.Ordered = true) :
    (∃ valid, checkComparison type (some v) statsMin statsMax = .ok valid) ↔ type.Comparable v statsMin statsMax := by
  have below (open_ : Bool) : (∃ valid, checkValid none (some v) false open_ statsMin statsMax = .ok valid) ↔
      v.type = statsMin.type := by
    rw [checkValid_iff,← checkPredMax_iff ordered open_]
    constructor
    · rintro ⟨least,first,rfl | second⟩
      · cases first
      · exact second
    · exact fun second => ⟨true,rfl,Or.inr second⟩
  have above (open_ : Bool) : (∃ valid, checkValid (some v) none open_ false statsMin statsMax = .ok valid) ↔
      v.type = statsMax.type := by
    rw [checkValid_iff,← checkPredMin_iff ordered open_]
    exact ⟨fun ⟨least,first,_⟩ => ⟨least,first⟩,fun ⟨least,first⟩ => ⟨least,first,Or.inr ⟨true,rfl⟩⟩⟩
  cases type with
  | equalTo =>
    change (∃ valid, checkValid (some v) (some v) false false statsMin statsMax = .ok valid) ↔ _ ∧ _
    rw [checkValid_iff,← checkPredMin_iff ordered false,← checkPredMax_iff ordered false]
    constructor
    · rintro ⟨least,first,second⟩
      have value := checkPredMin_ok first
      refine ⟨⟨least,first⟩,second.imp_left ?_⟩
      rintro rfl
      simpa using value.symm
    · rintro ⟨⟨least,first⟩,second⟩
      refine ⟨least,first,second.imp_left ?_⟩
      intro beyond
      rw [checkPredMin_ok first]
      simpa using beyond
  | lessThan => exact below true
  | lessThanOrEqualTo => exact below false
  | greaterThan => exact above true
  | greaterThanOrEqualTo => exact above false

theorem pruneLeaf_iff {leaf : Leaf} : (∃ left, pruneLeaf stats leaf = .ok left) ↔ leaf.Comparable stats := by
  cases leaf with
  | other truth => exact iff_of_true ⟨_,rfl⟩ trivial
  | comparison type first second =>
    cases first with
    | literal literal => exact iff_of_true ⟨_,rfl⟩ trivial
    | other value => exact iff_of_true ⟨_,rfl⟩ trivial
    | column columnName =>
      cases second with
      | column other => exact iff_of_true ⟨_,rfl⟩ trivial
      | other value => exact iff_of_true ⟨_,rfl⟩ trivial
      | literal literal =>
        rw [pruneLeaf,Leaf.Comparable]
        split
        next differ => exact iff_of_true ⟨_,rfl⟩ fun same => absurd same differ
        next same =>
          rw [forall_prop_of_true (not_not.mp same)]
          cases read : literal.litToScalar with
          | none =>
            have checked : ∃ valid, checkComparison type none stats.statsMin stats.statsMax = .ok valid := by
              cases type <;> exact ⟨true,rfl⟩
            obtain ⟨valid,checked⟩ := checked
            refine iff_of_true ⟨_,bind_eq_ok.mpr ⟨valid,checked,rfl⟩⟩ ?_
            intro v wrong
            cases wrong
          | some v =>
            simp only [Option.mem_some_iff,forall_eq']
            rw [← checkComparison_iff (Literal.scalar_of_litToScalar read).2]
            constructor
            · rintro ⟨left,ok⟩
              obtain ⟨valid,checked,_⟩ := bind_eq_ok.mp ok
              exact ⟨valid,checked⟩
            · rintro ⟨valid,checked⟩
              exact ⟨_,bind_eq_ok.mpr ⟨valid,checked,rfl⟩⟩

theorem prunePredicate_iff {predicate : Expression} :
    (∃ left, prunePredicate stats predicate = .ok left) ↔ Comparable stats predicate := by
  induction predicate using Tree.ind with
  | and_ children each =>
    have all : (∃ left, pruneAndExprs stats children = .ok left) ↔ ComparableAnd stats children := by
      induction children with
      | nil => exact iff_of_true ⟨_,rfl⟩ trivial
      | cons child children ih =>
        have rest := ih fun other member => each other (List.mem_cons_of_mem _ member)
        rw [pruneAndExprs,ComparableAnd,← each child List.mem_cons_self,← rest]
        constructor
        · rintro ⟨left,ok⟩
          obtain ⟨first,here,later⟩ := bind_eq_ok.mp ok
          refine ⟨⟨first,here⟩,?_⟩
          cases first with
          | none => exact Or.inl ((prune_eq_none child).mp (prunePredicate_ok here).symm)
          | some _ =>
            obtain ⟨others,done,_⟩ := map_eq_ok.mp later
            exact Or.inr ⟨others,done⟩
        · rintro ⟨⟨first,here⟩,later⟩
          cases first with
          | none => exact ⟨none,bind_eq_ok.mpr ⟨none,here,rfl⟩⟩
          | some kept =>
            rcases later with out | ⟨others,done⟩
            · have gone := prunePredicate_ok here
              rw [(prune_eq_none child).mpr out] at gone
              cases gone
            · exact ⟨_,bind_eq_ok.mpr ⟨some kept,here,map_eq_ok.mpr ⟨others,done,rfl⟩⟩⟩
    rw [Comparable,← all,prunePredicate]
    exact exists_map_eq_ok
  | or_ children each =>
    have all : (∃ left, pruneOrExprs stats children = .ok left) ↔ ComparableOr stats children := by
      induction children with
      | nil => exact iff_of_true ⟨_,rfl⟩ trivial
      | cons child children ih =>
        have rest := ih fun other member => each other (List.mem_cons_of_mem _ member)
        rw [pruneOrExprs,ComparableOr,← each child List.mem_cons_self,← rest]
        constructor
        · rintro ⟨left,ok⟩
          obtain ⟨first,here,later⟩ := bind_eq_ok.mp ok
          obtain ⟨others,done,_⟩ := map_eq_ok.mp later
          exact ⟨⟨first,here⟩,others,done⟩
        · rintro ⟨⟨first,here⟩,others,done⟩
          exact ⟨_,bind_eq_ok.mpr ⟨first,here,map_eq_ok.mpr ⟨others,done,rfl⟩⟩⟩
    rw [Comparable,← all,prunePredicate]
    exact exists_map_eq_ok
  | leaf content => exact pruneLeaf_iff

end Types

section Results

def emplaceName (kept : List (ι × Option Expression)) (name : ι) (left : Option Expression) :
    List (ι × Option Expression) :=
  if ∃ entry ∈ kept, entry.1 = name then kept else kept ++ [(name,left)]

theorem map_emplace (pruneRes : List (Partition ι × Option Expression)) (partition : Partition ι)
    (left : Option Expression) :
    (emplace pruneRes partition left).map (fun entry => (entry.1.name,entry.2)) =
      emplaceName (pruneRes.map fun entry => (entry.1.name,entry.2)) partition.name left := by
  unfold emplace emplaceName
  have same : (∃ entry ∈ pruneRes.map fun entry => (entry.1.name,entry.2), entry.1 = partition.name) ↔
      ∃ entry ∈ pruneRes, entry.1.name = partition.name := by
    constructor
    · rintro ⟨_,member,same⟩
      obtain ⟨entry,inside,rfl⟩ := List.mem_map.mp member
      exact ⟨entry,inside,same⟩
    · rintro ⟨entry,inside,same⟩
      exact ⟨_,List.mem_map_of_mem inside,same⟩
  simp only [same]
  split <;> simp

def collect (kept : List (ι × Option Expression)) (results : List (ι × Option Expression)) :
    List (ι × Option Expression) :=
  results.foldl (fun kept (name,left) => if left.isSome then emplaceName kept name left else kept) kept

theorem prunePartitions_eq_ok {pruneRes : List (Partition ι × Option Expression)}
    {kept : List (ι × Option Expression)} :
    (prunePartitions predicate partitions pruneRes).map (fun pruneRes => pruneRes.map fun entry => (entry.1.name,entry.2)) =
        .ok kept ↔
      ∃ results, List.Forall₂ (fun partition (result : ι × Option Expression) => result.1 = partition.name ∧
          pruneColumns partition.zoneMap (some predicate) = .ok result.2) partitions results ∧
        kept = collect (pruneRes.map fun entry => (entry.1.name,entry.2)) results := by
  induction partitions generalizing pruneRes with
  | nil =>
    simp only [List.forall₂_nil_left_iff]
    constructor
    · intro done
      exact ⟨[],rfl,(Except.ok.inj done).symm⟩
    · rintro ⟨_,rfl,rfl⟩
      rfl
  | cons partition partitions ih =>
    have step : ∀ left : Option Expression,
        ((if left.isSome then emplace pruneRes partition left else pruneRes).map fun entry => (entry.1.name,entry.2)) =
          if left.isSome then emplaceName (pruneRes.map fun entry => (entry.1.name,entry.2)) partition.name left
          else pruneRes.map fun entry => (entry.1.name,entry.2) := by
      intro left
      split
      · exact map_emplace pruneRes partition left
      · rfl
    rw [prunePartitions]
    cases here : pruneColumns partition.zoneMap (some predicate) with
    | error error =>
      refine iff_of_false ?_ ?_
      · intro wrong
        cases wrong
      · rintro ⟨results,all,_⟩
        obtain ⟨_,_,⟨_,wrong⟩,_⟩ := List.forall₂_cons_left_iff.mp all
        rw [here] at wrong
        cases wrong
    | ok left =>
      change (prunePartitions predicate partitions _).map _ = _ ↔ _
      rw [ih,step]
      constructor
      · rintro ⟨results,all,rfl⟩
        exact ⟨(partition.name,left)::results,List.Forall₂.cons ⟨rfl,here⟩ all,rfl⟩
      · rintro ⟨results,all,rfl⟩
        obtain ⟨result,rest,⟨name,same⟩,others,rfl⟩ := List.forall₂_cons_left_iff.mp all
        rw [here] at same
        obtain ⟨_,_⟩ := result
        obtain rfl := Except.ok.inj same
        dsimp only at name
        subst name
        exact ⟨rest,others,rfl⟩

end Results

section Order

theorem ruledOut_perm {first second : List MinMax} (order : first.Perm second) :
    RuledOut first predicate ↔ RuledOut second predicate := by
  have same : keepsAll first = keepsAll second := funext fun _ => order.all_eq
  have empty : first = [] ↔ second = [] := by
    rw [← List.length_eq_zero_iff,← List.length_eq_zero_iff,order.length_eq]
  rw [RuledOut,RuledOut,same,ne_eq,ne_eq,empty]

theorem residual_perm {first second : List MinMax} (order : first.Perm second) :
    residual first predicate = residual second predicate := by
  have same : keepsAll first = keepsAll second := funext fun _ => order.all_eq
  have empty : first = [] ↔ second = [] := by
    rw [← List.length_eq_zero_iff,← List.length_eq_zero_iff,order.length_eq]
  simp only [residual,same,empty]

/-- No comparison that a column comes to is of another type than its statistics, and no column
leaves the others to rule the predicate out. -/
def Prunable (zoneMap : List MinMax) (predicate : Expression) : Prop :=
  (∀ stats ∈ zoneMap, Comparable stats predicate) ∧
    ∀ before stats after, zoneMap = before ++ stats::after → ¬RuledOut (before ++ after) predicate

theorem pruneColumns_order {zoneMap order : List MinMax} (prunable : Prunable zoneMap predicate)
    (perm : order.Perm zoneMap) :
    pruneColumns order (some predicate) = .ok (residual zoneMap predicate) := by
  rw [pruneColumns_residual_of_ok fun stats member => prunePredicate_iff.mpr
    (prunable.1 stats (perm.mem_iff.mp member)),
    residual_perm perm,if_neg]
  intro out
  have nonempty : order ≠ [] := by
    rintro rfl
    exact out.1 rfl
  have whole := List.dropLast_append_getLast nonempty
  obtain ⟨before,after,split⟩ := List.append_of_mem (perm.mem_iff.mp (List.getLast_mem nonempty))
  refine prunable.2 before _ after split ((ruledOut_perm ?_).mp out)
  have moved := (List.perm_append_comm.trans (List.Perm.of_eq whole)).trans (perm.trans (split ▸ List.perm_middle))
  exact (List.perm_cons _).mp moved

theorem prunable_of_orders {zoneMap : List MinMax}
    (returns : ∀ order : List MinMax, order.Perm zoneMap → ∃ left, pruneColumns order (some predicate) = .ok left) :
    Prunable zoneMap predicate := by
  have applies : ∀ stats ∈ zoneMap, ∃ left, prunePredicate stats predicate = .ok left := by
    intro stats member
    obtain ⟨before,after,split⟩ := List.append_of_mem member
    obtain ⟨_,done⟩ := returns (stats::(before ++ after)) (split ▸ List.perm_middle.symm)
    rw [pruneColumns] at done
    obtain ⟨left,here,_⟩ := bind_eq_ok.mp done
    exact ⟨left,here⟩
  refine ⟨fun stats member => prunePredicate_iff.mp (applies stats member),?_⟩
  intro before stats after split out
  have perm : ((before ++ after) ++ [stats]).Perm zoneMap := by
    have front : (stats::(before ++ after)).Perm (before ++ stats::after) := List.perm_middle.symm
    rw [split]
    exact List.perm_append_comm.trans front
  obtain ⟨left,done⟩ := returns _ perm
  rw [pruneColumns_residual_of_ok fun other member => applies other (perm.mem_iff.mp member),List.dropLast_concat,
    if_pos out] at done
  cases done

omit [DecidableEq ι] in
theorem reordered_refl (partitions : List (Partition ι)) : List.Forall₂ Reordered partitions partitions :=
  List.forall₂_same.mpr fun _ _ => ⟨rfl,List.Perm.refl _⟩

end Order

theorem everyOrder_iff : EveryOrder partitions predicate ↔
    ∀ partition ∈ partitions, Prunable partition.zoneMap predicate := by
  constructor
  · rintro ⟨kept,returns⟩ partition member
    apply prunable_of_orders
    intro order perm
    obtain ⟨before,after,rfl⟩ := List.append_of_mem member
    have done := returns (before ++ ⟨partition.name,order⟩::after)
      (List.rel_append (reordered_refl before) (List.Forall₂.cons ⟨rfl,perm⟩ (reordered_refl after)))
    obtain ⟨results,all,_⟩ := prunePartitions_eq_ok.mp done
    obtain ⟨result,_,_,here⟩ := forall₂_mem_left all ⟨partition.name,order⟩ (by simp)
    exact ⟨result.2,here⟩
  · intro prunable
    refine ⟨collect [] (partitions.map fun partition => (partition.name,residual partition.zoneMap predicate)),?_⟩
    intro others reordered
    refine prunePartitions_eq_ok.mpr ⟨_,?_,rfl⟩
    induction reordered with
    | nil => exact List.Forall₂.nil
    | cons same _ ih =>
      rw [List.forall_mem_cons] at prunable
      exact List.Forall₂.cons ⟨same.name.symm,pruneColumns_order prunable.1 same.zoneMap⟩ (ih prunable.2)

/-- Only `a` leaves no row. -/
def onlyFirst : Partition Nat := ⟨0,[⟨"a",int 0,int 0⟩,⟨"b",int 0,int 99⟩]⟩

/-- With `a` first the null predicate is read for `b`, with `b` first the partition is pruned. -/
theorem order_decides : outcome [onlyFirst] bothGreater = .error .nullPointer ∧
    outcome [⟨onlyFirst.name,onlyFirst.zoneMap.reverse⟩] bothGreater = .ok [] ∧
    ¬EveryOrder [onlyFirst] bothGreater := by
  have stopped : outcome [onlyFirst] bothGreater = .error .nullPointer := rfl
  refine ⟨stopped,rfl,?_⟩
  rintro ⟨kept,returns⟩
  have done := returns [onlyFirst] (reordered_refl _)
  rw [stopped] at done
  cases done

end Hermes.PartitionPruner
