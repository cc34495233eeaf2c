import Hermes.PlanMeaning
import Mathlib.Data.List.Forall2

/-! Rows that agree on some of their columns, and what the operators of a plan make of them. -/
namespace Hermes.Prephysical
open Gandiva Join
variable {ν : Type}

def Agree (keep : String → Bool) (first second : Record ν) : Prop := ∀ name,keep name = true → first name = second name

theorem Agree.mono {keep other : String → Bool} {first second : Record ν} (agree : Agree keep first second)
    (less : ∀ name,other name = true → keep name = true) : Agree other first second :=
  fun name kept => agree name (less name kept)

theorem Agree.map_eq {keep : String → Bool} {first second : Record ν} (agree : Agree keep first second)
    {names : List String} (kept : ∀ name ∈ names,keep name = true) : names.map first = names.map second :=
  List.map_congr_left fun name inside => agree name (kept name inside)

theorem Agree.merge {keep : String → Bool} {left left' right right' : Record ν} (agreeLeft : Agree keep left left')
    (agreeRight : Agree keep right right') : Agree keep (left.merge right) (left'.merge right') := by
  intro name kept
  rw [Record.merge,Record.merge,agreeLeft name kept,agreeRight name kept]

variable {keep : String → Bool} {first second : List (Record ν)}

theorem map_eq_of_agree {α : Type} {f : Record ν → α} (rows : List.Forall₂ (Agree keep) first second)
    (same : ∀ row other,Agree keep row other → f row = f other) : first.map f = second.map f := by
  induction rows with
  | nil => rfl
  | cons here _ ih => rw [List.map_cons,List.map_cons,same _ _ here,ih]

theorem eq_of_agree (rows : List.Forall₂ (Agree fun _ => true) first second) : first = second := by
  induction rows with
  | nil => rfl
  | cons here _ ih => exact congrArg₂ List.cons (funext fun name => here name rfl) ih

theorem any_eq_of_agree {f g : Record ν → Bool} (rows : List.Forall₂ (Agree keep) first second)
    (same : ∀ row other,Agree keep row other → f row = g other) : first.any f = second.any g := by
  induction rows with
  | nil => rfl
  | cons here _ ih => rw [List.any_cons,List.any_cons,same _ _ here,ih]

theorem filter_agree {p q : Record ν → Bool} (rows : List.Forall₂ (Agree keep) first second)
    (same : ∀ row other,Agree keep row other → p row = q other) :
    List.Forall₂ (Agree keep) (first.filter p) (second.filter q) :=
  List.rel_filter (fun row other agree => iff_of_eq
    (congrArg (fun decided => decided = true) (same row other agree))) rows

theorem orderedInsert_agree {order : Record ν → Record ν → Prop} [DecidableRel order] {row other : Record ν}
    (same : ∀ a a' b b',Agree keep a a' → Agree keep b b' → (order a b ↔ order a' b')) (here : Agree keep row other)
    (rows : List.Forall₂ (Agree keep) first second) :
    List.Forall₂ (Agree keep) (first.orderedInsert order row) (second.orderedInsert order other) := by
  induction rows with
  | nil => exact List.Forall₂.cons here List.Forall₂.nil
  | @cons head head' _ _ agree later ih =>
    rw [List.orderedInsert,List.orderedInsert]
    by_cases before : order row head
    · rw [if_pos before,if_pos ((same _ _ _ _ here agree).mp before)]
      exact List.Forall₂.cons here (List.Forall₂.cons agree later)
    · rw [if_neg before,if_neg fun wrong => before ((same _ _ _ _ here agree).mpr wrong)]
      exact List.Forall₂.cons agree ih

theorem insertionSort_agree {order : Record ν → Record ν → Prop} [DecidableRel order]
    (same : ∀ a a' b b',Agree keep a a' → Agree keep b b' → (order a b ↔ order a' b'))
    (rows : List.Forall₂ (Agree keep) first second) :
    List.Forall₂ (Agree keep) (first.insertionSort order) (second.insertionSort order) := by
  induction rows with
  | nil => exact List.Forall₂.nil
  | cons here _ ih => exact orderedInsert_agree same here ih

theorem joinRows_agree (joinType : JoinType) {matching matching' : Record ν → Record ν → Bool}
    {left left' right right' : List (Record ν)}
    (same : ∀ l l' r r',Agree keep l l' → Agree keep r r' → matching l r = matching' l' r')
    (lefts : List.Forall₂ (Agree keep) left left') (rights : List.Forall₂ (Agree keep) right right') :
    List.Forall₂ (Agree keep) (joinRows joinType matching left right) (joinRows joinType matching' left' right') := by
  have matched : List.Forall₂ (Agree keep) (left.flatMap fun l => (right.filter (matching l)).map l.merge)
      (left'.flatMap fun l => (right'.filter (matching' l)).map l.merge) := by
    refine List.rel_flatMap lefts fun l l' agreeLeft => ?_
    exact List.rel_map (fun r r' agreeRight => agreeLeft.merge agreeRight)
      (filter_agree rights fun r r' agreeRight => same l l' r r' agreeLeft agreeRight)
  have anyRight : ∀ l l',Agree keep l l' → right.any (matching l) = right'.any (matching' l') :=
    fun l l' agreeLeft => any_eq_of_agree rights fun r r' agreeRight => same l l' r r' agreeLeft agreeRight
  have leftOnly : List.Forall₂ (Agree keep) (left.filter fun l => !right.any (matching l))
      (left'.filter fun l => !right'.any (matching' l)) :=
    filter_agree lefts fun l l' agreeLeft => by rw [anyRight l l' agreeLeft]
  have rightOnly : List.Forall₂ (Agree keep) (right.filter fun r => !left.any fun l => matching l r)
      (right'.filter fun r => !left'.any fun l => matching' l r) :=
    filter_agree rights fun r r' agreeRight => by
      rw [any_eq_of_agree lefts fun l l' agreeLeft => same l l' r r' agreeLeft agreeRight]
  cases joinType with
  | inner => exact matched
  | left => exact List.rel_append matched leftOnly
  | right => exact List.rel_append matched rightOnly
  | full => exact List.rel_append (List.rel_append matched leftOnly) rightOnly
  | semi => exact filter_agree lefts anyRight

theorem emit_agree {down : String → Bool} {names names' : List String}
    (rows : List.Forall₂ (Agree names'.contains) first second)
    (columns : ∀ name,down name = true → (name ∈ names ↔ name ∈ names'))
    (some : names ≠ []) (some' : names' ≠ []) : List.Forall₂ (Agree down) (emit names first) (emit names' second) := by
  rw [emit,emit,if_neg some,if_neg some']
  refine List.rel_map (fun row other agree => ?_) rows
  intro name kept
  rw [Record.restrict,Record.restrict]
  by_cases inside : name ∈ names'
  · rw [if_pos (List.elem_iff.mpr inside),if_pos (List.elem_iff.mpr ((columns name kept).mpr inside))]
    exact agree name (List.elem_iff.mpr inside)
  · rw [if_neg fun wrong => inside (List.elem_iff.mp wrong),
      if_neg fun wrong => inside ((columns name kept).mp (List.elem_iff.mp wrong))]

namespace Meaning
variable (meaning : Meaning ν)

theorem sorted_agree {sortKeys : List SortKey} (kept : ∀ name ∈ sortKeys.map SortKey.name,keep name = true)
    (rows : List.Forall₂ (Agree keep) first second) :
    List.Forall₂ (Agree keep) (meaning.sorted sortKeys first) (meaning.sorted sortKeys second) := by
  refine insertionSort_agree (fun a a' b b' agree agree' => ?_) rows
  have keys := fun (row row' : Record ν) (same : Agree keep row row') => same.map_eq kept
  simp only [List.map_map] at keys
  have sameFirst := keys a a' agree
  have sameSecond := keys b b' agree'
  simp only [Function.comp_def] at sameFirst sameSecond
  rw [sameFirst,sameSecond]

theorem functionValue_eq {function : AggregatePrePFunction}
    (kept : ∀ name ∈ function.involvedColumnNames,keep name = true) (rows : List.Forall₂ (Agree keep) first second) :
    meaning.functionValue first function = meaning.functionValue second function := by
  rw [functionValue,functionValue]
  rw [AggregatePrePFunction.involvedColumnNames] at kept
  cases involved : function.expression with
  | none =>
    dsimp only
    rw [rows.length_eq]
  | some expression =>
    rw [involved] at kept
    dsimp only
    rw [map_eq_of_agree rows fun row other agree =>
      meaning.value_congr expression row other fun name inside => agree name (kept name inside)]

theorem aggregated_eq {outputs : List String} {functions : List AggregatePrePFunction}
    (kept : ∀ function ∈ functions,∀ name ∈ function.involvedColumnNames,keep name = true)
    (rows : List.Forall₂ (Agree keep) first second) :
    meaning.aggregated outputs functions first = meaning.aggregated outputs functions second := by
  rw [aggregated,aggregated]
  exact congrArg _ (List.map_congr_left fun function inside => meaning.functionValue_eq (kept function inside) rows)

theorem grouped_eq [DecidableEq ν] {groupColumnNames outputs : List String} {functions : List AggregatePrePFunction}
    (keptGroups : ∀ name ∈ groupColumnNames,keep name = true)
    (kept : ∀ function ∈ functions,∀ name ∈ function.involvedColumnNames,keep name = true)
    (rows : List.Forall₂ (Agree keep) first second) :
    meaning.grouped groupColumnNames outputs functions first =
    meaning.grouped groupColumnNames outputs functions second := by
  rw [grouped,grouped,map_eq_of_agree rows fun row other agree => agree.map_eq keptGroups]
  refine List.map_congr_left fun key _ => ?_
  rw [meaning.aggregated_eq kept (filter_agree rows fun row other agree => by rw [agree.map_eq keptGroups])]

theorem keysMatch_eq {leftColumnNames rightColumnNames : List String}
    (keptLeft : ∀ name ∈ leftColumnNames,keep name = true)
    (keptRight : ∀ name ∈ rightColumnNames,keep name = true) (l l' r r' : Record ν) (agreeLeft : Agree keep l l')
    (agreeRight : Agree keep r r') :
    meaning.keysMatch leftColumnNames rightColumnNames l r =
    meaning.keysMatch leftColumnNames rightColumnNames l' r' := by
  rw [keysMatch,keysMatch,agreeLeft.map_eq keptLeft,agreeRight.map_eq keptRight]

theorem predicateMatches_eq {predicate : Option Expression}
    (kept : ∀ expression ∈ predicate,∀ name ∈ expression.involvedColumnNames,keep name = true) (l l' r r' : Record ν)
    (agreeLeft : Agree keep l l') (agreeRight : Agree keep r r') :
    meaning.predicateMatches predicate l r = meaning.predicateMatches predicate l' r' := by
  cases predicate with
  | none => rfl
  | some expression =>
    refine meaning.holds_congr expression _ _ fun name inside => ?_
    exact agreeLeft.merge agreeRight name (kept expression rfl name inside)

end Meaning
end Hermes.Prephysical
