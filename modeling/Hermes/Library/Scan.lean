import Mathlib.Data.List.Forall2
import Mathlib.Data.List.Pairwise
import Mathlib.Algebra.Order.Ring.Nat
import Mathlib.Order.Lattice

/-! Several strictly ascending lists scanned side by side.
Every round takes the least of the current heads and moves each list that
starts with it by one. The keys taken so far are kept as a list, and the
relation below says what the scan indices know about them. -/
namespace Hermes.Library.Scan
variable {κ : Type} [LinearOrder κ]

/-- One list, scanned up to index `i`, against the keys taken so far. -/
structure Scanned (taken : List κ) (list : List κ) (i : Nat) : Prop where
  bound : i ≤ list.length
  before : ∀ k ∈ list.take i, k ∈ taken
  after : ∀ k ∈ taken, ∀ x ∈ list.drop i, k < x

structure Scans (lists : List (List κ)) (indices : List Nat) (taken : List κ) : Prop where
  ascending : taken.Pairwise (· < ·)
  sound : ∀ k ∈ taken, ∃ list ∈ lists, k ∈ list
  each : List.Forall₂ (Scanned taken) lists indices

/-- `k` is the least key some list is currently at. -/
structure Least (lists : List (List κ)) (indices : List Nat) (k : κ) : Prop where
  attained : ∃ pair ∈ lists.zip indices, pair.1[pair.2]? = some k
  least : ∀ pair ∈ lists.zip indices, ∀ x, pair.1[pair.2]? = some x → k ≤ x

def advance (k : κ) (list : List κ) (i : Nat) : Nat := if list[i]? = some k then i+1 else i

theorem scans_initial (lists : List (List κ)) :
    Scans lists (lists.map (fun _ => 0)) [] := by
  refine ⟨List.Pairwise.nil,by simp,?_⟩
  induction lists with
  | nil => exact .nil
  | cons list lists ih => exact .cons ⟨by simp,by simp,by simp⟩ ih

private theorem zip_scanned {taken : List κ} {lists : List (List κ)} {indices : List Nat}
    (each : List.Forall₂ (Scanned taken) lists indices) :
    ∀ pair ∈ lists.zip indices, Scanned taken pair.1 pair.2 := by
  induction each with
  | nil => simp
  | cons head tail ih =>
    intro pair member
    rcases List.mem_cons.mp member with rfl | inside
    · exact head
    · exact ih pair inside

theorem Scans.taken_lt {lists : List (List κ)} {indices : List Nat} {taken : List κ} {k : κ}
    (scans : Scans lists indices taken) (least : Least lists indices k) :
    ∀ old ∈ taken, old < k := by
  intro old member
  obtain ⟨pair,inside,read⟩ := least.attained
  have scanned := zip_scanned scans.each pair inside
  exact scanned.after old member k (List.mem_of_getElem? (i := 0) (by simpa using read))

private theorem head_le_drop {list : List κ} (ascending : list.Pairwise (· < ·)) {i : Nat} {h x : κ}
    (read : list[i]? = some h) (member : x ∈ list.drop i) : h ≤ x := by
  obtain ⟨bound,value⟩ := List.getElem?_eq_some_iff.mp read
  have split : list.drop i = h :: list.drop (i+1) := by
    rw [List.drop_eq_getElem_cons bound,value]
  have sorted : (list.drop i).Pairwise (· < ·) := ascending.sublist (List.drop_sublist i list)
  rw [split] at member sorted
  rcases List.mem_cons.mp member with rfl | tail
  · exact le_refl _
  · exact le_of_lt ((List.pairwise_cons.mp sorted).1 x tail)

theorem Scans.head_iff {lists : List (List κ)} {indices : List Nat} {taken : List κ} {k : κ}
    (scans : Scans lists indices taken) (least : Least lists indices k)
    (ascending : ∀ list ∈ lists, list.Pairwise (· < ·))
    {list : List κ} {i : Nat} (pair : (list,i) ∈ lists.zip indices) :
    list[i]? = some k ↔ k ∈ list := by
  constructor
  · exact List.mem_of_getElem?
  · intro member
    have scanned := zip_scanned scans.each _ pair
    have fresh : k ∉ list.take i := fun early =>
      lt_irrefl k (scans.taken_lt least k (scanned.before k early))
    have late : k ∈ list.drop i := by
      have split : k ∈ list.take i ++ list.drop i := by rw [List.take_append_drop]; exact member
      exact (List.mem_append.mp split).resolve_left fresh
    cases read : list[i]? with
    | none => simp [List.drop_eq_nil_of_le (List.getElem?_eq_none_iff.mp read)] at late
    | some h =>
      have below : h ≤ k := head_le_drop (ascending list (List.of_mem_zip pair).1) read late
      exact congrArg some (le_antisymm below (least.least _ pair h read))

private theorem scanned_advance {taken : List κ} {list : List κ} {i : Nat} {k : κ}
    (scanned : Scanned taken list i) (sorted : list.Pairwise (· < ·))
    (above : ∀ x, list[i]? = some x → k ≤ x) :
    Scanned (taken ++ [k]) list (advance k list i) := by
  unfold advance
  split
  next read =>
    obtain ⟨bound,value⟩ := List.getElem?_eq_some_iff.mp read
    refine ⟨bound,?_,?_⟩
    · intro x member
      rw [List.take_succ_eq_append_getElem bound,value] at member
      rcases List.mem_append.mp member with old | new
      · exact List.mem_append_left _ (scanned.before x old)
      · exact List.mem_append_right _ new
    · intro old member x late
      have split : list.drop i = k :: list.drop (i+1) := by
        rw [List.drop_eq_getElem_cons bound,value]
      have rest : (k :: list.drop (i+1)).Pairwise (· < ·) :=
        split ▸ sorted.sublist (List.drop_sublist i list)
      have step : k < x := (List.pairwise_cons.mp rest).1 x late
      rcases List.mem_append.mp member with earlier | new
      · exact scanned.after old earlier x (split ▸ List.mem_cons_of_mem _ late)
      · exact (List.mem_singleton.mp new) ▸ step
  next other =>
    refine ⟨scanned.bound,fun x member => List.mem_append_left _ (scanned.before x member),?_⟩
    intro old member x late
    rcases List.mem_append.mp member with earlier | new
    · exact scanned.after old earlier x late
    · rw [List.mem_singleton.mp new]
      cases read : list[i]? with
      | none => simp [List.drop_eq_nil_of_le (List.getElem?_eq_none_iff.mp read)] at late
      | some h =>
        have differ : k ≠ h := fun same => other (by rw [read,same])
        exact lt_of_lt_of_le (lt_of_le_of_ne (above h read) differ) (head_le_drop sorted read late)

private theorem forall₂_advance {taken : List κ} {lists : List (List κ)} {indices : List Nat} {k : κ}
    (each : List.Forall₂ (Scanned taken) lists indices)
    (sorted : ∀ list ∈ lists, list.Pairwise (· < ·))
    (above : ∀ pair ∈ lists.zip indices, ∀ x, pair.1[pair.2]? = some x → k ≤ x) :
    List.Forall₂ (Scanned (taken ++ [k])) lists (List.zipWith (advance k) lists indices) := by
  induction each with
  | nil => exact .nil
  | @cons list i lists indices head tail ih =>
    refine .cons (scanned_advance head (sorted list (by simp)) (above (list,i) (by simp))) ?_
    exact ih (fun l member => sorted l (by simp [member])) (fun p member => above p (by simp [member]))

theorem Scans.step {lists : List (List κ)} {indices : List Nat} {taken : List κ} {k : κ}
    (scans : Scans lists indices taken) (least : Least lists indices k)
    (sorted : ∀ list ∈ lists, list.Pairwise (· < ·)) :
    Scans lists (List.zipWith (advance k) lists indices) (taken ++ [k]) := by
  refine ⟨?_,?_,forall₂_advance scans.each sorted least.least⟩
  · exact List.pairwise_append.mpr ⟨scans.ascending,by simp,
      fun old member x single => (List.mem_singleton.mp single) ▸ scans.taken_lt least old member⟩
  · intro x member
    rcases List.mem_append.mp member with old | new
    · exact scans.sound x old
    · obtain ⟨pair,inside,read⟩ := least.attained
      exact ⟨pair.1,(List.of_mem_zip inside).1,
        (List.mem_singleton.mp new) ▸ List.mem_of_getElem? read⟩

theorem Scans.complete {lists : List (List κ)} {indices : List Nat} {taken : List κ}
    (scans : Scans lists indices taken)
    (visited : ∀ pair ∈ lists.zip indices, pair.1.length ≤ pair.2) (k : κ) :
    k ∈ taken ↔ ∃ list ∈ lists, k ∈ list := by
  constructor
  · exact scans.sound k
  · rintro ⟨list,member,inside⟩
    have size : lists.length = indices.length := scans.each.length_eq
    obtain ⟨place,bound,value⟩ := List.mem_iff_getElem.mp member
    have pair : (list,indices.get ⟨place,by omega⟩) ∈ lists.zip indices := by
      rw [List.mem_iff_getElem]
      exact ⟨place,by simp; omega,by simp [value]⟩
    apply (zip_scanned scans.each _ pair).before
    rw [List.take_of_length_le (visited _ pair)]
    exact inside

/-! Lists in any order: an index moves by one where its list starts with the key, and never beyond the end. -/

/-- No index is beyond the end of its list. -/
def Within (lists : List (List κ)) (indices : List Nat) : Prop :=
  List.Forall₂ (fun list i => i ≤ list.length) lists indices

/-- Indices that have moved by one, at least one of them, or not at all. -/
structure Moved (before after : List Nat) : Prop where
  each : List.Forall₂ (fun i j => j = i ∨ j = i+1) before after
  one : ∃ place i : Nat, before[place]? = some i ∧ after[place]? = some (i+1)

section AnyOrder
variable {lists : List (List κ)} {indices before after : List Nat}

theorem within_initial {ρ : Type} (lists : List (List ρ)) : Within lists (lists.map fun _ => 0) := by
  rw [Within,List.forall₂_map_right_iff,List.forall₂_same]
  exact fun list _ => Nat.zero_le _

theorem Within.step (within : Within lists indices) (k : κ) :
    Within lists (List.zipWith (advance k) lists indices) := by
  induction within with
  | nil => exact .nil
  | @cons list i lists indices bound _ ih =>
    refine .cons ?_ ih
    unfold advance
    split
    next head => exact (List.getElem?_eq_some_iff.mp head).1
    next => exact bound

theorem Within.moved (within : Within lists indices) {k : κ}
    (attained : ∃ pair ∈ lists.zip indices, pair.1[pair.2]? = some k) :
    Moved indices (List.zipWith (advance k) lists indices) := by
  constructor
  · clear attained
    induction within with
    | nil => exact .nil
    | cons _ _ ih =>
      refine .cons ?_ ih
      unfold advance
      split
      next => exact .inr rfl
      next => exact .inl rfl
  · obtain ⟨pair,inside,head⟩ := attained
    obtain ⟨place,there⟩ := List.mem_iff_getElem?.mp inside
    obtain ⟨list,index⟩ := List.getElem?_zip_eq_some.mp there
    refine ⟨place,pair.2,index,?_⟩
    rw [List.getElem?_zipWith,list,index]
    exact congrArg some (if_pos head)

theorem Moved.sum_lt (moved : Moved before after) : before.sum < after.sum := by
  obtain ⟨each,place,i,here,there⟩ := moved
  induction each generalizing place with
  | nil => cases here
  | @cons a b before after step rest ih =>
    have later : before.sum ≤ after.sum := by
      clear ih here there
      induction rest with
      | nil => exact Nat.le_refl _
      | cons step _ ih =>
        rw [List.sum_cons,List.sum_cons]
        omega
    rw [List.sum_cons,List.sum_cons]
    cases place with
    | zero =>
      rw [List.getElem?_cons_zero,Option.some.injEq] at here there
      omega
    | succ place =>
      have more := ih place here there
      omega

theorem Within.sum_le {ρ : Type} {lists : List (List ρ)} (within : Within lists indices) :
    indices.sum ≤ (lists.map List.length).sum := by
  induction within with
  | nil => exact Nat.le_refl _
  | cons bound _ ih =>
    rw [List.map_cons,List.sum_cons,List.sum_cons]
    omega

theorem Within.ended {ρ : Type} {lists : List (List ρ)} (within : Within lists indices)
    (visited : ∀ pair ∈ lists.zip indices, pair.1.length ≤ pair.2) :
    indices = lists.map List.length := by
  induction within with
  | nil => rfl
  | cons bound _ ih =>
    obtain ⟨here,later⟩ := List.forall_mem_cons.mp visited
    rw [List.map_cons,ih later,Nat.le_antisymm bound here]

end AnyOrder

end Hermes.Library.Scan
