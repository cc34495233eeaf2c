import Mathlib.Data.List.Basic

/-! Conjunction and disjunction of truth values that may be unknown. Both are one connective:
a neutral value, which all have to take, and its opposite, which one is enough for. -/
namespace Hermes.Library.ThreeValued

def combine (neutral : Bool) (truths : List (Option Bool)) : Option Bool :=
  if some (!neutral) ∈ truths then some (!neutral)
  else if truths.all (fun truth => truth = some neutral) then some neutral
  else none

variable {neutral : Bool} {first second : Option Bool} {truths others : List (Option Bool)}

theorem opposite_ne (neutral : Bool) : some (!neutral) ≠ some neutral := by
  cases neutral <;> simp

theorem combine_eq_neutral : combine neutral truths = some neutral ↔ ∀ truth ∈ truths, truth = some neutral := by
  unfold combine
  split
  next absorbing =>
    exact iff_of_false (opposite_ne neutral) fun all => opposite_ne neutral (all _ absorbing)
  next =>
    split
    next all => exact iff_of_true rfl fun truth inside => of_decide_eq_true (List.all_eq_true.mp all truth inside)
    next other =>
      refine iff_of_false (Option.some_ne_none _).symm fun all => other ?_
      exact List.all_eq_true.mpr fun truth inside => decide_eq_true (all truth inside)

theorem combine_eq_absorbing : combine neutral truths = some (!neutral) ↔ some (!neutral) ∈ truths := by
  unfold combine
  split
  next absorbing => exact iff_of_true rfl absorbing
  next free =>
    refine iff_of_false ?_ free
    split
    next => exact (opposite_ne neutral).symm
    next => exact (Option.some_ne_none _).symm

theorem combine_eq_none : combine neutral truths = none ↔ some (!neutral) ∉ truths ∧ none ∈ truths := by
  unfold combine
  split
  next absorbing => exact iff_of_false (Option.some_ne_none _) fun unknown => unknown.1 absorbing
  next free =>
    have values : ∀ truth ∈ truths, truth = some neutral ∨ truth = none := by
      intro truth inside
      have other : truth ≠ some (!neutral) := fun same => free (same ▸ inside)
      revert other
      cases neutral <;> rcases truth with _ | _ | _ <;> simp
    split
    next all =>
      refine iff_of_false (Option.some_ne_none _) fun unknown => ?_
      exact Option.some_ne_none neutral (of_decide_eq_true (List.all_eq_true.mp all none unknown.2)).symm
    next open_ =>
      refine iff_of_true rfl ⟨free,?_⟩
      by_contra known
      apply open_
      rw [List.all_eq_true]
      intro truth inside
      exact decide_eq_true ((values truth inside).resolve_right fun unknown => known (unknown ▸ inside))

theorem eq_of_neutral_iff (neutral : Bool) (same : first = some neutral ↔ second = some neutral)
    (opposite : first = some (!neutral) ↔ second = some (!neutral)) : first = second := by
  revert same opposite
  cases neutral <;> rcases first with _ | _ | _ <;> rcases second with _ | _ | _ <;> simp

@[simp] theorem combine_nil : combine neutral [] = some neutral :=
  combine_eq_neutral.mpr fun _ inside => absurd inside List.not_mem_nil

@[simp] theorem combine_singleton (truth : Option Bool) : combine neutral [truth] = truth := by
  apply eq_of_neutral_iff neutral
  · rw [combine_eq_neutral,List.forall_mem_singleton]
  · rw [combine_eq_absorbing,List.mem_singleton]
    exact eq_comm

theorem combine_of_mem_iff (same : ∀ truth, truth ∈ truths ↔ truth ∈ others) :
    combine neutral truths = combine neutral others := by
  apply eq_of_neutral_iff neutral
  · rw [combine_eq_neutral,combine_eq_neutral]
    exact forall_congr' fun truth => imp_congr (same truth) Iff.rfl
  · rw [combine_eq_absorbing,combine_eq_absorbing,same]

theorem combine_flatMap {α : Type} (parts : α → List (Option Bool)) (elements : List α) :
    combine neutral (elements.flatMap parts) =
    combine neutral (elements.map fun element => combine neutral (parts element)) := by
  apply eq_of_neutral_iff neutral
  · rw [combine_eq_neutral,combine_eq_neutral,List.forall_mem_flatMap,List.forall_mem_map]
    exact forall_congr' fun element => imp_congr Iff.rfl combine_eq_neutral.symm
  · rw [combine_eq_absorbing,combine_eq_absorbing,List.mem_flatMap,List.mem_map]
    exact exists_congr fun element => and_congr Iff.rfl combine_eq_absorbing.symm

theorem combine_not (truths : List (Option Bool)) :
    combine (!neutral) (truths.map (Option.map (!·))) = (combine neutral truths).map (!·) := by
  have flip : ∀ (truth : Option Bool) (value : Bool), truth.map (!·) = some (!value) ↔ truth = some value := by
    intro truth value
    cases truth <;> simp
  apply eq_of_neutral_iff (!neutral)
  · rw [flip,combine_eq_neutral,combine_eq_neutral,List.forall_mem_map]
    exact forall₂_congr fun truth _ => flip truth neutral
  · rw [flip,combine_eq_absorbing,combine_eq_absorbing,List.mem_map]
    constructor
    · rintro ⟨truth,inside,same⟩
      exact (flip truth _).mp same ▸ inside
    · exact fun inside => ⟨_,inside,rfl⟩

/-- A value adds nothing beside another one that is neutral only where it is, and its opposite wherever it is. -/
def Covers (neutral : Bool) (first second : Option Bool) : Prop :=
  (first = some neutral → second = some neutral) ∧ (second = some (!neutral) → first = some (!neutral))

theorem Covers.refl (truth : Option Bool) : Covers neutral truth truth := ⟨id,id⟩

theorem combine_covered (fewer : ∀ truth ∈ others, truth ∈ truths)
    (covered : ∀ truth ∈ truths, ∃ other ∈ others, Covers neutral other truth) :
    combine neutral others = combine neutral truths := by
  apply eq_of_neutral_iff neutral
  · rw [combine_eq_neutral,combine_eq_neutral]
    refine ⟨fun all truth inside => ?_,fun all truth inside => all truth (fewer truth inside)⟩
    obtain ⟨other,there,covers⟩ := covered truth inside
    exact covers.1 (all other there)
  · rw [combine_eq_absorbing,combine_eq_absorbing]
    refine ⟨fewer _,fun inside => ?_⟩
    obtain ⟨other,there,covers⟩ := covered _ inside
    rwa [covers.2 rfl] at there

theorem covers_of_subset (fewer : ∀ truth ∈ others, truth ∈ truths) :
    Covers neutral (combine (!neutral) others) (combine (!neutral) truths) := by
  refine ⟨fun one => ?_,fun all => ?_⟩
  · have found := combine_eq_absorbing.mp (Eq.trans one (congrArg some (Bool.not_not neutral).symm))
    exact (combine_eq_absorbing.mpr (fewer _ found)).trans (congrArg some (Bool.not_not neutral))
  · exact combine_eq_neutral.mpr fun truth inside => combine_eq_neutral.mp all truth (fewer truth inside)

end Hermes.Library.ThreeValued
