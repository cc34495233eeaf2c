import Mathlib.Data.Bool.Basic
import Mathlib.Data.List.Perm.Basic
import Mathlib.Logic.Equiv.Basic

/-! The algorithms of a binary heap that is kept in a list. They keep the heap in order where the comparison is a strict weak
order. Where the elements have changed under the heap, all that is left is that none is lost. -/
namespace Hermes.Library.BinaryHeap
variable {α : Type} (comp : α → α → Bool)

def swap (heap : List α) (i j : Nat) : List α :=
  match heap[i]?,heap[j]? with
  | some first,some second => (heap.set i second).set j first
  | _,_ => heap

def compAt (heap : List α) (i j : Nat) : Bool :=
  match heap[i]?,heap[j]? with
  | some first,some second => comp first second
  | _,_ => false

/-- No element is less than one below it. -/
def IsHeap (heap : List α) : Prop := ∀ i < heap.length, 0 < i → compAt comp heap ((i-1)/2) i = false

instance (heap : List α) : Decidable (IsHeap comp heap) :=
  inferInstanceAs (Decidable (∀ i < heap.length, 0 < i → compAt comp heap ((i-1)/2) i = false))

/-- The element at a place changes places with its parents as long as they are less. The count bounds the places. -/
def siftUp : Nat → List α → Nat → List α
  | 0,heap,_ => heap
  | count+1,heap,hole =>
    let parent := (hole-1)/2
    if 0 < hole ∧ compAt comp heap parent hole then siftUp count (swap heap parent hole) parent else heap

/-- The element at a place changes places with the greater child, down to a leaf. -/
def siftDown : Nat → List α → Nat → List α × Nat
  | 0,heap,hole => (heap,hole)
  | count+1,heap,hole =>
    let right := 2*(hole+1)
    if right < heap.length then
      let child := if compAt comp heap right (right-1) then right-1 else right
      siftDown count (swap heap hole child) child
    else if right = heap.length then (swap heap hole (right-1),right-1)
    else (heap,hole)

/-- The last element goes up to its place. -/
def pushHeap (heap : List α) : List α := siftUp comp heap.length heap (heap.length-1)

/-- The last element takes the place of the first. -/
def refill (rest : List α) : List α :=
  match rest.getLast? with
  | none => []
  | some last => last::rest.dropLast

/-- The first element goes to the end, and the last one goes from the top to a leaf and up to its place. -/
def popHeap : List α → List α
  | [] => []
  | first::rest =>
    let (sifted,hole) := siftDown comp rest.length (refill rest) 0
    siftUp comp rest.length sifted hole ++ [first]

variable {comp}

theorem swap_perm (heap : List α) (i j : Nat) : (swap heap i j).Perm heap := by
  rw [swap]
  split
  · rename_i first second here there
    obtain ⟨inside,rfl⟩ := List.getElem?_eq_some_iff.mp here
    obtain ⟨inside',rfl⟩ := List.getElem?_eq_some_iff.mp there
    exact List.set_set_perm inside inside'
  · exact List.Perm.refl heap

theorem siftUp_perm (count : Nat) (heap : List α) (hole : Nat) : (siftUp comp count heap hole).Perm heap := by
  induction count generalizing heap hole with
  | zero => exact List.Perm.refl heap
  | succ count ih =>
    rw [siftUp]
    split
    · exact (ih _ _).trans (swap_perm heap _ _)
    · exact List.Perm.refl heap

theorem siftDown_perm (count : Nat) (heap : List α) (hole : Nat) : (siftDown comp count heap hole).1.Perm heap := by
  induction count generalizing heap hole with
  | zero => exact List.Perm.refl heap
  | succ count ih =>
    rw [siftDown]
    dsimp only
    split
    · exact (ih _ _).trans (swap_perm heap _ _)
    · split
      · exact swap_perm heap _ _
      · exact List.Perm.refl heap

theorem pushHeap_perm (heap : List α) : (pushHeap comp heap).Perm heap := siftUp_perm _ _ _

theorem refill_perm (rest : List α) : (refill rest).Perm rest := by
  rw [refill]
  rcases List.eq_nil_or_concat rest with rfl | ⟨init,last,rfl⟩
  · exact List.Perm.refl []
  · rw [List.concat_eq_append,List.getLast?_concat,List.dropLast_concat]
    exact (List.perm_append_singleton last init).symm

theorem popHeap_cons (first : α) (rest : List α) : ∃ kept, popHeap comp (first::rest) = kept ++ [first] ∧
    kept.Perm rest :=
  ⟨_,rfl,((siftUp_perm _ _ _).trans (siftDown_perm _ _ _)).trans (refill_perm rest)⟩

section Order

/-- A strict weak order: what is not comparable is equal. -/
structure StrictWeak (comp : α → α → Bool) : Prop where
  asymm : ∀ {x y : α}, comp x y = true → comp y x = false
  trans : ∀ {x y z : α}, comp x y = false → comp y z = false → comp x z = false

theorem StrictWeak.irrefl (order : StrictWeak comp) (x : α) : comp x x = false := by
  by_contra less
  have less := Bool.eq_true_of_not_eq_false less
  exact Bool.false_ne_true ((order.asymm less).symm.trans less)

theorem compAt_eq {heap : List α} {i j : Nat} {x y : α} (here : heap[i]? = some x) (there : heap[j]? = some y) :
    compAt comp heap i j = comp x y := by
  rw [compAt,here,there]

theorem compAt_outside {heap : List α} (i : Nat) {j : Nat} (outside : heap.length ≤ j) :
    compAt comp heap i j = false := by
  rw [compAt,List.getElem?_eq_none outside]
  split
  · rename_i nowhere
    cases nowhere
  · rfl

theorem compAt_congr {heap other : List α} {i j i' j' : Nat} (first : heap[i]? = other[i']?)
    (second : heap[j]? = other[j']?) :
    compAt comp heap i j = compAt comp other i' j' := by
  rw [compAt,compAt,first,second]

theorem StrictWeak.compAt_asymm (order : StrictWeak comp) {heap : List α} {i j : Nat}
    (less : compAt comp heap i j = true) :
    compAt comp heap j i = false := by
  rw [compAt] at less
  split at less
  · rename_i first second here there
    rw [compAt_eq there here]
    exact order.asymm less
  · cases less

theorem StrictWeak.compAt_trans (order : StrictWeak comp) {heap : List α} {i j k : Nat} (inside : j < heap.length)
    (first : compAt comp heap i j = false) (second : compAt comp heap j k = false) : compAt comp heap i k = false := by
  rw [compAt]
  split
  · rename_i x z here there
    have middle := List.getElem?_eq_getElem inside
    rw [compAt_eq here middle] at first
    rw [compAt_eq middle there] at second
    exact order.trans first second
  · rfl

theorem isHeap_iff {heap : List α} : IsHeap comp heap ↔ ∀ i, 0 < i → compAt comp heap ((i-1)/2) i = false := by
  refine ⟨fun heaped i positive => ?_,fun heaped i _ positive => heaped i positive⟩
  by_cases inside : i < heap.length
  · exact heaped i inside positive
  · exact compAt_outside _ (Nat.le_of_not_lt inside)

theorem swap_length (heap : List α) (i j : Nat) : (swap heap i j).length = heap.length := (swap_perm heap i j).length_eq

theorem swap_getElem? {heap : List α} {i j : Nat} (first : i < heap.length) (second : j < heap.length) (k : Nat) :
    (swap heap i j)[k]? = heap[Equiv.swap i j k]? := by
  rw [swap,List.getElem?_eq_getElem first,List.getElem?_eq_getElem second]
  dsimp only
  rw [List.getElem?_set,List.length_set,List.getElem?_set,Equiv.swap_apply_def]
  by_cases last : k = j
  · subst last
    by_cases same : k = i
    · subst same
      rw [if_pos rfl,if_pos first,if_pos rfl,List.getElem?_eq_getElem first]
    · rw [if_pos rfl,if_pos second,if_neg same,if_pos rfl,List.getElem?_eq_getElem first]
  · rw [if_neg (Ne.symm last)]
    by_cases here : k = i
    · subst here
      rw [if_pos rfl,if_pos first,if_pos rfl,List.getElem?_eq_getElem second]
    · rw [if_neg (Ne.symm here),if_neg here,if_neg last]

theorem compAt_swap {heap : List α} {i j : Nat} (first : i < heap.length) (second : j < heap.length) (k l : Nat) :
    compAt comp (swap heap i j) k l = compAt comp heap (Equiv.swap i j k) (Equiv.swap i j l) :=
  compAt_congr (swap_getElem? first second k) (swap_getElem? first second l)

/-- A heap in order but for the element at the hole, which may go up. -/
structure UpTo (comp : α → α → Bool) (heap : List α) (hole : Nat) : Prop where
  others : ∀ i, 0 < i → i ≠ hole → compAt comp heap ((i-1)/2) i = false
  grand : ∀ i, 0 < hole → 0 < i → (i-1)/2 = hole → compAt comp heap ((hole-1)/2) i = false

/-- A heap in order but for the element at the hole, which may go down or up. -/
structure Around (comp : α → α → Bool) (heap : List α) (hole : Nat) : Prop where
  others : ∀ i, 0 < i → i ≠ hole → (i-1)/2 ≠ hole → compAt comp heap ((i-1)/2) i = false
  grand : ∀ i, 0 < hole → 0 < i → (i-1)/2 = hole → compAt comp heap ((hole-1)/2) i = false

variable {heap : List α} {hole count : Nat}

theorem UpTo.up (order : StrictWeak comp) (upTo : UpTo comp heap hole) (positive : 0 < hole)
    (inside : hole < heap.length)
    (less : compAt comp heap ((hole-1)/2) hole = true) : UpTo comp (swap heap ((hole-1)/2) hole) ((hole-1)/2) := by
  have lower : (hole-1)/2 < hole := by omega
  have above := order.compAt_asymm less
  have swapped := @compAt_swap _ comp _ _ _ (Nat.lt_trans lower inside) inside
  generalize up : (hole-1)/2 = parent at *
  constructor
  · intro i positive' other
    rw [swapped]
    by_cases here : i = hole
    · rw [here,up,Equiv.swap_apply_left,Equiv.swap_apply_right]
      exact above
    · rw [Equiv.swap_apply_of_ne_of_ne other here]
      by_cases child : (i-1)/2 = hole
      · rw [child,Equiv.swap_apply_right,← up]
        exact upTo.grand i positive positive' child
      · by_cases sibling : (i-1)/2 = parent
        · rw [sibling,Equiv.swap_apply_left]
          exact order.compAt_trans (Nat.lt_trans lower inside) above (sibling ▸ upTo.others i positive' here)
        · rw [Equiv.swap_apply_of_ne_of_ne sibling child]
          exact upTo.others i positive' here
  · intro i positive' positive'' child
    have kept := upTo.others parent positive' (Nat.ne_of_lt lower)
    rw [swapped,Equiv.swap_apply_of_ne_of_ne (by omega) (by omega)]
    by_cases here : i = hole
    · rw [here,Equiv.swap_apply_right]
      exact kept
    · rw [Equiv.swap_apply_of_ne_of_ne (by omega) here]
      exact order.compAt_trans (Nat.lt_trans lower inside) kept (child ▸ upTo.others i positive'' here)

/-- Once the element has gone up as far as it goes, the heap is in order. -/
theorem siftUp_isHeap (order : StrictWeak comp) (upTo : UpTo comp heap hole) (enough : hole ≤ count) :
    IsHeap comp (siftUp comp count heap hole) := by
  have stays {heap : List α} {hole : Nat} (upTo : UpTo comp heap hole)
      (top : ¬ (0 < hole ∧ compAt comp heap ((hole-1)/2) hole = true)) :
      IsHeap comp heap := by
    refine isHeap_iff.mpr fun i positive => ?_
    by_cases here : i = hole
    · subst here
      exact Bool.eq_false_of_not_eq_true fun less => top ⟨positive,less⟩
    · exact upTo.others i positive here
  induction count generalizing heap hole with
  | zero => exact stays upTo fun ⟨positive,_⟩ => absurd enough (Nat.not_le.mpr positive)
  | succ count ih =>
    rw [siftUp]
    split
    · rename_i up
      have inside : hole < heap.length := by
        by_contra outside
        exact Bool.false_ne_true ((compAt_outside _ (Nat.le_of_not_lt outside)).symm.trans up.2)
      exact ih (upTo.up order up.1 inside up.2) (by omega)
    · rename_i top
      exact stays upTo top

theorem pushHeap_isHeap (order : StrictWeak comp) (heaped : IsHeap comp heap) (element : α) :
    IsHeap comp (pushHeap comp (heap ++ [element])) := by
  rw [pushHeap]
  refine siftUp_isHeap order ⟨fun i positive other => ?_,fun i positive positive' child => ?_⟩ (Nat.sub_le _ _)
  · rw [List.length_append,List.length_singleton,Nat.add_sub_cancel] at other
    rcases Nat.lt_or_gt_of_ne other with inside | outside
    · rw [compAt_congr (List.getElem?_append_left (by omega)) (List.getElem?_append_left inside)]
      exact heaped i inside positive
    · exact compAt_outside _ (by rw [List.length_append,List.length_singleton]; omega)
  · exact compAt_outside _ (by rw [List.length_append,List.length_singleton] at child ⊢; omega)

/-- The hole goes down to a child that is not less than the other one. -/
theorem Around.down {child : Nat} (around : Around comp heap hole) (below : (child-1)/2 = hole)
    (positive : 0 < child) (inside : child < heap.length)
    (greater : ∀ i, 0 < i → (i-1)/2 = hole → i ≠ child → compAt comp heap child i = false) :
    Around comp (swap heap hole child) child := by
  have lower : hole < child := by omega
  have swapped := @compAt_swap _ comp _ _ _ (Nat.lt_trans lower inside) inside
  constructor
  · intro i positive' other apart
    rw [swapped]
    by_cases here : i = hole
    · subst here
      rw [Equiv.swap_apply_left,Equiv.swap_apply_of_ne_of_ne (by omega) apart]
      exact around.grand child positive' positive below
    · rw [Equiv.swap_apply_of_ne_of_ne here other]
      by_cases sibling : (i-1)/2 = hole
      · rw [sibling,Equiv.swap_apply_left]
        exact greater i positive' sibling other
      · rw [Equiv.swap_apply_of_ne_of_ne sibling apart]
        exact around.others i positive' here sibling
  · intro i _ positive' grandchild
    rw [swapped,below,Equiv.swap_apply_left,Equiv.swap_apply_of_ne_of_ne (by omega) (by omega)]
    exact grandchild ▸ around.others i positive' (by omega) (by omega)

theorem Around.leaf (around : Around comp heap hole) (last : heap.length ≤ 2*hole+1) : UpTo comp heap hole := by
  refine ⟨fun i positive other => ?_,around.grand⟩
  by_cases child : (i-1)/2 = hole
  · exact compAt_outside _ (by omega)
  · exact around.others i positive other child

/-- Once the hole is at a leaf, the element in it may only go up. -/
theorem siftDown_upTo (order : StrictWeak comp) (around : Around comp heap hole) (enough : heap.length ≤ count+hole) :
    UpTo comp (siftDown comp count heap hole).1 (siftDown comp count heap hole).2 := by
  induction count generalizing heap hole with
  | zero => exact around.leaf (by omega)
  | succ count ih =>
    rw [siftDown]
    dsimp only
    split
    · rename_i two
      by_cases less : compAt comp heap (2*(hole+1)) (2*(hole+1)-1) = true
      · rw [if_pos less]
        refine ih (around.down (by omega) (by omega) (by omega) fun i positive child other => ?_)
          (by rw [swap_length]; omega)
        obtain rfl : i = 2*(hole+1) := by omega
        exact order.compAt_asymm less
      · rw [if_neg less]
        refine ih (around.down (by omega) (by omega) two fun i positive child other => ?_) (by rw [swap_length]; omega)
        obtain rfl : i = 2*(hole+1)-1 := by omega
        exact Bool.eq_false_of_not_eq_true less
    · split
      · rename_i one
        refine (around.down (by omega) (by omega) (by omega) fun i positive child other => ?_).leaf
          (by rw [swap_length]; omega)
        exact compAt_outside _ (by omega)
      · exact around.leaf (by omega)

theorem siftDown_inside (inside : hole ≤ heap.length) : (siftDown comp count heap hole).2 ≤ heap.length := by
  induction count generalizing heap hole with
  | zero => exact inside
  | succ count ih =>
    rw [siftDown]
    dsimp only
    split
    · split
      · exact swap_length heap _ _ ▸ ih (by rw [swap_length]; omega)
      · exact swap_length heap _ _ ▸ ih (by rw [swap_length]; omega)
    · split
      · dsimp only
        omega
      · exact inside

theorem refill_around {first : α} {rest : List α} (heaped : IsHeap comp (first::rest)) :
    Around comp (refill rest) 0 := by
  refine ⟨fun i positive _ below => ?_,fun i top => absurd top (Nat.lt_irrefl 0)⟩
  rcases List.eq_nil_or_concat rest with rfl | ⟨init,last,rfl⟩
  · exact compAt_outside _ (Nat.zero_le _)
  · rw [List.concat_eq_append] at *
    have kept {k : Nat} (positive : 0 < k) (inside : k ≤ init.length) :
        (refill (init ++ [last]))[k]? = (first::(init ++ [last]))[k]? := by
      rw [refill,List.getLast?_concat]
      dsimp only
      rw [List.dropLast_concat]
      obtain ⟨k,rfl⟩ := Nat.exists_eq_succ_of_ne_zero (Nat.ne_of_gt positive)
      rw [List.getElem?_cons_succ,List.getElem?_cons_succ,List.getElem?_append_left inside]
    by_cases inside : i ≤ init.length
    · rw [compAt_congr (kept (Nat.pos_of_ne_zero below) (by omega)) (kept positive inside)]
      exact isHeap_iff.mp heaped i positive
    · refine compAt_outside _ ?_
      rw [(refill_perm _).length_eq,List.length_append,List.length_singleton]
      omega

/-- The heap without its first element. -/
theorem popHeap_isHeap (order : StrictWeak comp) {first : α} {rest : List α} (heaped : IsHeap comp (first::rest)) :
    IsHeap comp (popHeap comp (first::rest)).dropLast := by
  rw [popHeap]
  dsimp only
  rw [List.dropLast_concat]
  have length := (refill_perm rest).length_eq
  exact siftUp_isHeap order (siftDown_upTo order (refill_around heaped) (Nat.le_of_eq length))
    (length ▸ siftDown_inside (Nat.zero_le _))

/-- No element is before the first. -/
theorem IsHeap.first (order : StrictWeak comp) {first element : α} {rest : List α}
    (heaped : IsHeap comp (first::rest)) (inside : element ∈ rest) :
    comp first element = false := by
  have least (i : Nat) : i < (first::rest).length → compAt comp (first::rest) 0 i = false := by
    induction i using Nat.strongRecOn with
    | ind i ih =>
      intro inside
      rcases Nat.eq_zero_or_pos i with rfl | positive
      · rw [compAt_eq List.getElem?_cons_zero List.getElem?_cons_zero]
        exact order.irrefl first
      · have above : (i-1)/2 < i := by omega
        exact order.compAt_trans (Nat.lt_trans above inside) (ih _ above (Nat.lt_trans above inside))
          (heaped i inside positive)
  obtain ⟨i,there⟩ := List.mem_iff_getElem?.mp inside
  have within := (List.getElem?_eq_some_iff.mp there).1
  rw [← @compAt_eq _ comp (first::rest) 0 (i+1) _ _ List.getElem?_cons_zero (List.getElem?_cons_succ.trans there)]
  exact least (i+1) (Nat.succ_lt_succ within)

end Order

end Hermes.Library.BinaryHeap
