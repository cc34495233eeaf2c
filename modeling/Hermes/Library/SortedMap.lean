import Hermes.Library.KeyOrder

/-! Ordered containers as ascending lists.
`emplace` is that of `std::set` and `std::map`: an element whose key is there
already is dropped. -/
namespace Hermes.Library.SortedMap
open Hermes.Library.KeyOrder
variable {κ ρ : Type} [LinearOrder κ] {key : ρ → κ}

def emplace (key : ρ → κ) (x : ρ) : List ρ → List ρ
  | [] => [x]
  | y::ys =>
    if key x < key y then x::y::ys
    else if key y < key x then y :: emplace key x ys
    else y::ys

def erase (key : ρ → κ) (k : κ) (entries : List ρ) : List ρ := entries.filter (fun x => key x ≠ k)

def find (key : ρ → κ) (k : κ) (entries : List ρ) : Option ρ := entries.find? (fun x => key x = k)

theorem emplace_mem {entries : List ρ} {x y : ρ} (member : y ∈ emplace key x entries) :
    y = x ∨ y ∈ entries := by
  induction entries with
  | nil => exact Or.inl (List.mem_singleton.mp member)
  | cons z entries ih =>
    unfold emplace at member
    split at member
    next less => simpa using member
    next notLess =>
      split at member
      next greater =>
        rcases List.mem_cons.mp member with rfl | inside
        · exact Or.inr List.mem_cons_self
        · exact (ih inside).imp_right (List.mem_cons_of_mem _)
      next same => exact Or.inr member

theorem emplace_ascending {entries : List ρ} (ascending : Ascending key entries) (x : ρ) :
    Ascending key (emplace key x entries) := by
  induction entries with
  | nil => exact List.pairwise_singleton _ _
  | cons y entries ih =>
    obtain ⟨above,rest⟩ := List.pairwise_cons.mp ascending
    unfold emplace
    split
    next less =>
      refine List.pairwise_cons.mpr ⟨?_,ascending⟩
      intro z member
      rcases List.mem_cons.mp member with rfl | inside
      · exact less
      · exact less.trans (above z inside)
    next notLess =>
      split
      next greater =>
        refine List.pairwise_cons.mpr ⟨?_,ih rest⟩
        intro z member
        rcases emplace_mem member with rfl | inside
        · exact greater
        · exact above z inside
      next same => exact ascending

theorem mem_emplace {entries : List ρ} (ascending : Ascending key entries) (x y : ρ) :
    y ∈ emplace key x entries ↔ y ∈ entries ∨ (y = x ∧ ∀ z ∈ entries, key z ≠ key x) := by
  induction entries with
  | nil => simp [emplace]
  | cons z entries ih =>
    obtain ⟨above,rest⟩ := List.pairwise_cons.mp ascending
    unfold emplace
    split
    next less =>
      have fresh : ∀ w ∈ z::entries, key w ≠ key x := by
        intro w member
        rcases List.mem_cons.mp member with rfl | inside
        · exact ne_of_gt less
        · exact ne_of_gt (less.trans (above w inside))
      rw [List.mem_cons,or_comm]
      exact or_congr Iff.rfl ⟨fun same => ⟨same,fresh⟩,And.left⟩
    next notLess =>
      split
      next greater =>
        rw [List.mem_cons,ih rest,List.mem_cons,or_assoc]
        refine or_congr Iff.rfl (or_congr Iff.rfl (and_congr Iff.rfl ?_))
        constructor
        · intro fresh w member
          rcases List.mem_cons.mp member with rfl | inside
          · exact ne_of_lt greater
          · exact fresh w inside
        · exact fun fresh w inside => fresh w (List.mem_cons_of_mem _ inside)
      next same =>
        have equal : key z = key x := le_antisymm (not_lt.mp notLess) (not_lt.mp same)
        constructor
        · exact Or.inl
        · rintro (member | ⟨_,fresh⟩)
          · exact member
          · exact absurd equal (fresh z List.mem_cons_self)

def emplaceAll (key : ρ → κ) (entries : List ρ) (container : List ρ) : List ρ :=
  entries.foldl (fun container x => emplace key x container) container

theorem emplaceAll_ascending {container : List ρ} (ascending : Ascending key container) (entries : List ρ) :
    Ascending key (emplaceAll key entries container) := by
  induction entries generalizing container with
  | nil => exact ascending
  | cons x entries ih => exact ih (emplace_ascending ascending x)

theorem mem_emplaceAll {container : List ρ} (ascending : Ascending key container) (entries : List ρ) (y : ρ) :
    y ∈ emplaceAll key entries container ↔
      y ∈ container ∨ ((∀ z ∈ container, key z ≠ key y) ∧
        entries.find? (fun x => key x = key y) = some y) := by
  induction entries generalizing container with
  | nil => simp [emplaceAll]
  | cons x entries ih =>
    change y ∈ emplaceAll key entries (emplace key x container) ↔ _
    rw [ih (emplace_ascending ascending x),mem_emplace ascending]
    have fresh : (∀ z ∈ emplace key x container, key z ≠ key y) ↔
        (∀ z ∈ container, key z ≠ key y) ∧ ¬(key x = key y) := by
      constructor
      · intro absent
        refine ⟨fun z member => absent z ((mem_emplace ascending x z).mpr (Or.inl member)),?_⟩
        intro same
        by_cases new : ∀ z ∈ container, key z ≠ key x
        · exact absent x ((mem_emplace ascending x x).mpr (Or.inr ⟨rfl,new⟩)) same
        · simp only [not_forall,ne_eq,not_not] at new
          obtain ⟨z,member,equal⟩ := new
          exact absent z ((mem_emplace ascending x z).mpr (Or.inl member)) (equal.trans same)
      · rintro ⟨absent,other⟩ z member
        rcases (mem_emplace ascending x z).mp member with old | ⟨rfl,_⟩
        · exact absent z old
        · exact other
    rw [fresh]
    by_cases same : key x = key y
    · rw [List.find?_cons_of_pos (by simpa using same),Option.some.injEq]
      constructor
      · rintro ((old | ⟨rfl,new⟩) | ⟨⟨_,other⟩,_⟩)
        · exact Or.inl old
        · exact Or.inr ⟨new,rfl⟩
        · exact absurd same other
      · rintro (old | ⟨new,rfl⟩)
        · exact Or.inl (Or.inl old)
        · exact Or.inl (Or.inr ⟨rfl,new⟩)
    · rw [List.find?_cons_of_neg (by simpa using same)]
      constructor
      · rintro ((old | ⟨rfl,_⟩) | ⟨⟨new,_⟩,found⟩)
        · exact Or.inl old
        · exact absurd rfl same
        · exact Or.inr ⟨new,found⟩
      · rintro (old | ⟨new,found⟩)
        · exact Or.inl (Or.inl old)
        · exact Or.inr ⟨⟨new,same⟩,found⟩

theorem find_eq_some {container : List ρ} (ascending : Ascending key container) {k : κ} {x : ρ} :
    find key k container = some x ↔ x ∈ container ∧ key x = k := by
  constructor
  · intro found
    exact ⟨List.mem_of_find?_eq_some found,by simpa using List.find?_some found⟩
  · rintro ⟨member,rfl⟩
    cases found : find key (key x) container with
    | none => simpa using List.find?_eq_none.mp found x member
    | some y =>
      have same : key y = key x := by simpa using List.find?_some found
      rw [ascending.unique (List.mem_of_find?_eq_some found) member same]

theorem find_eq_none {container : List ρ} {k : κ} :
    find key k container = none ↔ ∀ x ∈ container, key x ≠ k := by
  simp [find,List.find?_eq_none]

end Hermes.Library.SortedMap
