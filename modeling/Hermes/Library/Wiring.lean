import Mathlib.Data.Finset.Lattice.Fold
import Mathlib.Data.List.Nodup
import Mathlib.Data.List.Range
import Mathlib.Logic.Relation

/-! Graphs that are built stage by stage: nodes in a list, edges between their positions and the positions whose
edges are still to come. A stage is new nodes with edges into them, from the open ends and from one another. -/
namespace Hermes.Library
variable {α : Type}

structure Wiring (α : Type) where
  nodes : List α
  edges : List (Nat × Nat)
  ends : List Nat

namespace Wiring
variable {w w' : Wiring α} {fresh : List α} {edges : List (Nat × Nat)} {ends : List Nat} {needs : α → Prop}

/-- Edges go up in some order of the nodes, and the open ends are the nodes that no edge leaves. -/
structure Layered (w : Wiring α) : Prop where
  inside : ∀ i j, (i,j) ∈ w.edges → i < w.nodes.length ∧ j < w.nodes.length
  ranked : ∃ rank : Nat → Nat, ∀ i j, (i,j) ∈ w.edges → rank i < rank j
  ends_nodup : w.ends.Nodup
  mem_ends : ∀ i, i ∈ w.ends ↔ i < w.nodes.length ∧ ∀ j, (i,j) ∉ w.edges

/-- Every node that needs an edge into it has one. -/
def Fed (needs : α → Prop) (w : Wiring α) : Prop :=
  ∀ i node, w.nodes[i]? = some node → needs node → ∃ j, (j,i) ∈ w.edges

def empty : Wiring α := ⟨[],[],[]⟩

def shift (n : Nat) (edges : List (Nat × Nat)) : List (Nat × Nat) := edges.map fun edge => (n+edge.1,n+edge.2)

def beside (w w' : Wiring α) : Wiring α :=
  ⟨w.nodes ++ w'.nodes,w.edges ++ shift w.nodes.length w'.edges,w.ends ++ w'.ends.map (w.nodes.length + ·)⟩

def stage (w : Wiring α) (fresh : List α) (edges : List (Nat × Nat)) (ends : List Nat) : Wiring α :=
  ⟨w.nodes ++ fresh,w.edges ++ edges,ends⟩

theorem mem_shift {n i j : Nat} : (i,j) ∈ shift n edges ↔ ∃ k l, (k,l) ∈ edges ∧ i = n+k ∧ j = n+l := by
  rw [shift,List.mem_map]
  constructor
  · rintro ⟨⟨k,l⟩,inside,same⟩
    obtain ⟨first,second⟩ := Prod.mk.inj same
    exact ⟨k,l,inside,first.symm,second.symm⟩
  · rintro ⟨k,l,inside,rfl,rfl⟩
    exact ⟨(k,l),inside,rfl⟩

theorem mem_shift_add {n k l : Nat} : (n+k,n+l) ∈ shift n edges ↔ (k,l) ∈ edges := by
  rw [mem_shift]
  constructor
  · rintro ⟨k',l',inside,first,second⟩
    rwa [Nat.add_left_cancel first,Nat.add_left_cancel second]
  · exact fun inside => ⟨k,l,inside,rfl,rfl⟩

theorem Layered.empty : (empty : Wiring α).Layered where
  inside _ _ edge := absurd edge List.not_mem_nil
  ranked := ⟨id,fun _ _ edge => absurd edge List.not_mem_nil⟩
  ends_nodup := List.nodup_nil
  mem_ends _ := iff_of_false List.not_mem_nil fun here => Nat.not_lt_zero _ here.1

theorem Layered.of_forall (rank : Nat → Nat)
    (edges : ∀ edge ∈ w.edges, (edge.1 < w.nodes.length ∧ edge.2 < w.nodes.length) ∧ rank edge.1 < rank edge.2)
    (nodup : w.ends.Nodup) (ends : ∀ i ∈ w.ends, i < w.nodes.length)
    (free : ∀ i < w.nodes.length, i ∈ w.ends ↔ ∀ edge ∈ w.edges, edge.1 ≠ i) : w.Layered where
  inside i j edge := (edges (i,j) edge).1
  ranked := ⟨rank,fun i j edge => (edges (i,j) edge).2⟩
  ends_nodup := nodup
  mem_ends i := by
    constructor
    · intro inside
      refine ⟨ends i inside,fun j edge => ?_⟩
      exact (free i (ends i inside)).mp inside (i,j) edge rfl
    · rintro ⟨bound,none⟩
      refine (free i bound).mpr fun edge inside same => ?_
      exact none edge.2 (same ▸ inside)

theorem Layered.no_cycle (layered : w.Layered) (i : Nat) : ¬Relation.TransGen (fun i j => (i,j) ∈ w.edges) i i := by
  obtain ⟨rank,up⟩ := layered.ranked
  have climbs : ∀ j, Relation.TransGen (fun i j => (i,j) ∈ w.edges) i j → rank i < rank j := by
    intro j path
    induction path with
    | single edge => exact up _ _ edge
    | tail _ edge ih => exact ih.trans (up _ _ edge)
  exact fun cycle => Nat.lt_irrefl _ (climbs i cycle)

theorem Layered.induct (layered : w.Layered) {holds : Nat → Prop}
    (step : ∀ i, (∀ j, (j,i) ∈ w.edges → holds j) → holds i) (i : Nat) : holds i := by
  obtain ⟨rank,up⟩ := layered.ranked
  induction known : rank i using Nat.strong_induction_on generalizing i with
  | _ r ih => exact step i fun j edge => ih (rank j) (known ▸ up j i edge) j rfl

theorem mem_beside_left {i j : Nat} (here : i < w.nodes.length ∨ j < w.nodes.length) :
    (i,j) ∈ (w.beside w').edges ↔ (i,j) ∈ w.edges := by
  refine ⟨fun edge => ?_,fun edge => List.mem_append_left _ edge⟩
  rcases List.mem_append.mp edge with edge | edge
  · exact edge
  · obtain ⟨k,l,_,rfl,rfl⟩ := mem_shift.mp edge
    omega

theorem mem_beside_right (layered : w.Layered) {i j : Nat} (there : w.nodes.length ≤ i ∨ w.nodes.length ≤ j) :
    (i,j) ∈ (w.beside w').edges ↔ (i,j) ∈ shift w.nodes.length w'.edges := by
  refine ⟨fun edge => ?_,fun edge => List.mem_append_right _ edge⟩
  rcases List.mem_append.mp edge with edge | edge
  · have bounds := layered.inside i j edge
    omega
  · exact edge

theorem Layered.beside (layered : w.Layered) (layered' : w'.Layered) : (w.beside w').Layered where
  inside := by
    intro i j edge
    rw [Wiring.beside,List.length_append]
    rcases List.mem_append.mp edge with edge | edge
    · have bounds := layered.inside i j edge
      omega
    · obtain ⟨k,l,within,rfl,rfl⟩ := mem_shift.mp edge
      have bounds := layered'.inside k l within
      omega
  ranked := by
    obtain ⟨rank,up⟩ := layered.ranked
    obtain ⟨rank',up'⟩ := layered'.ranked
    refine ⟨fun i => if i < w.nodes.length then rank i else rank' (i-w.nodes.length),?_⟩
    intro i j edge
    beta_reduce
    rcases List.mem_append.mp edge with edge | edge
    · obtain ⟨first,second⟩ := layered.inside i j edge
      rw [if_pos first,if_pos second]
      exact up i j edge
    · obtain ⟨k,l,within,rfl,rfl⟩ := mem_shift.mp edge
      rw [if_neg (by omega),if_neg (by omega),Nat.add_sub_cancel_left,Nat.add_sub_cancel_left]
      exact up' k l within
  ends_nodup := by
    refine List.nodup_append.mpr ⟨layered.ends_nodup,
      layered'.ends_nodup.map fun k l same => Nat.add_left_cancel same,?_⟩
    intro i here j there same
    obtain ⟨k,_,shifted⟩ := List.mem_map.mp there
    have bound := ((layered.mem_ends i).mp here).1
    omega
  mem_ends := by
    intro i
    rw [show (w.beside w').ends = w.ends ++ w'.ends.map (w.nodes.length + ·) from rfl,List.mem_append,List.mem_map,
      show (w.beside w').nodes = w.nodes ++ w'.nodes from rfl,List.length_append]
    by_cases here : i < w.nodes.length
    · have notThere : ¬∃ k, k ∈ w'.ends ∧ w.nodes.length+k = i := by
        rintro ⟨k,_,rfl⟩
        omega
      simp only [notThere,or_false,layered.mem_ends,mem_beside_left (Or.inl here)]
      exact and_congr_left fun _ => iff_of_true here (by omega)
    · obtain ⟨k,rfl⟩ := Nat.exists_eq_add_of_le (Nat.le_of_not_lt here)
      have notHere : w.nodes.length+k ∉ w.ends := fun inside => here ((layered.mem_ends _).mp inside).1
      have shifted : (∃ l, l ∈ w'.ends ∧ w.nodes.length+l = w.nodes.length+k) ↔ k ∈ w'.ends := by simp
      rw [shifted,or_iff_right notHere,layered'.mem_ends,Nat.add_lt_add_iff_left]
      refine and_congr_right fun _ => ?_
      constructor
      · intro free j edge
        obtain ⟨k',l,edge,same,_⟩ := mem_shift.mp ((mem_beside_right layered (Or.inl (Nat.le_add_right _ _))).mp edge)
        exact free l (Nat.add_left_cancel same ▸ edge)
      · exact fun free l edge => free (w.nodes.length+l) (List.mem_append_right _ (mem_shift_add.mpr edge))

theorem fed_beside (layered : w.Layered) : (w.beside w').Fed needs ↔ w.Fed needs ∧ w'.Fed needs := by
  have nodes : (w.beside w').nodes = w.nodes ++ w'.nodes := rfl
  constructor
  · intro fed
    refine ⟨?_,?_⟩
    · intro i node at' need
      have here : i < w.nodes.length := (List.getElem?_eq_some_iff.mp at').1
      obtain ⟨j,edge⟩ := fed i node (by rw [nodes,List.getElem?_append_left here,at']) need
      exact ⟨j,(mem_beside_left (Or.inr here)).mp edge⟩
    · intro k node at' need
      obtain ⟨j,edge⟩ := fed (w.nodes.length+k) node
        (by rw [nodes,List.getElem?_append_right (Nat.le_add_right _ _),Nat.add_sub_cancel_left,at']) need
      obtain ⟨j',k',edge,_,same⟩ := mem_shift.mp ((mem_beside_right layered (Or.inr (Nat.le_add_right _ _))).mp edge)
      exact ⟨j',Nat.add_left_cancel same ▸ edge⟩
  · rintro ⟨fed,fed'⟩ i node at' need
    rw [nodes] at at'
    by_cases here : i < w.nodes.length
    · rw [List.getElem?_append_left here] at at'
      obtain ⟨j,edge⟩ := fed i node at' need
      exact ⟨j,List.mem_append_left _ edge⟩
    · rw [List.getElem?_append_right (Nat.le_of_not_lt here)] at at'
      obtain ⟨j,edge⟩ := fed' _ node at' need
      refine ⟨w.nodes.length+j,List.mem_append_right _ ?_⟩
      rw [← Nat.add_sub_of_le (Nat.le_of_not_lt here)]
      exact mem_shift_add.mpr edge

/-- Edges of a stage: into its nodes, and from the open ends or up within the stage. -/
structure Stage (w : Wiring α) (fresh : List α) (edges : List (Nat × Nat)) (ends : List Nat) : Prop where
  target : ∀ i j, (i,j) ∈ edges → w.nodes.length ≤ j ∧ j < w.nodes.length+fresh.length
  source : ∃ level : Nat → Nat, ∀ i j, (i,j) ∈ edges →
    i ∈ w.ends ∨ w.nodes.length ≤ i ∧ i < w.nodes.length+fresh.length ∧ level i < level j
  taken : ∀ i ∈ w.ends, ∃ j, (i,j) ∈ edges
  ends_nodup : ends.Nodup
  mem_ends : ∀ i, i ∈ ends ↔ (w.nodes.length ≤ i ∧ i < w.nodes.length+fresh.length) ∧ ∀ j, (i,j) ∉ edges

theorem Layered.stage (layered : w.Layered) (new : Stage w fresh edges ends) : (w.stage fresh edges ends).Layered where
  inside := by
    intro i j edge
    rw [Wiring.stage,List.length_append]
    rcases List.mem_append.mp edge with edge | edge
    · have bounds := layered.inside i j edge
      omega
    · have target := new.target i j edge
      obtain ⟨level,source⟩ := new.source
      rcases source i j edge with old | ⟨_,bound,_⟩
      · have bound := ((layered.mem_ends i).mp old).1
        omega
      · omega
  ranked := by
    obtain ⟨rank,up⟩ := layered.ranked
    obtain ⟨level,source⟩ := new.source
    -- the stage is above all that was there
    let top := (Finset.range w.nodes.length).sup rank
    have below : ∀ i < w.nodes.length, rank i ≤ top := fun i bound => Finset.le_sup (Finset.mem_range.mpr bound)
    refine ⟨fun i => if i < w.nodes.length then rank i else top+1+level i,?_⟩
    intro i j edge
    beta_reduce
    rcases List.mem_append.mp edge with edge | edge
    · obtain ⟨first,second⟩ := layered.inside i j edge
      rw [if_pos first,if_pos second]
      exact up i j edge
    · have target := new.target i j edge
      rw [if_neg (by omega : ¬j < w.nodes.length)]
      rcases source i j edge with old | ⟨here,_,climbs⟩
      · have bound := ((layered.mem_ends i).mp old).1
        have low := below i bound
        rw [if_pos bound]
        omega
      · rw [if_neg (by omega)]
        omega
  ends_nodup := new.ends_nodup
  mem_ends := by
    intro i
    rw [show (w.stage fresh edges ends).ends = ends from rfl,
      show (w.stage fresh edges ends).nodes = w.nodes ++ fresh from rfl,
      List.length_append,new.mem_ends i]
    constructor
    · rintro ⟨bounds,free⟩
      refine ⟨bounds.2,fun j edge => ?_⟩
      rcases List.mem_append.mp edge with edge | edge
      · have bound := (layered.inside i j edge).1
        omega
      · exact free j edge
    · rintro ⟨bound,free⟩
      have late : w.nodes.length ≤ i := by
        by_contra early
        have isEnd : i ∈ w.ends :=
          (layered.mem_ends i).mpr ⟨Nat.lt_of_not_le early,fun j edge => free j (List.mem_append_left _ edge)⟩
        obtain ⟨j,edge⟩ := new.taken i isEnd
        exact free j (List.mem_append_right _ edge)
      exact ⟨⟨late,bound⟩,fun j edge => free j (List.mem_append_right _ edge)⟩

theorem fed_stage (layered : w.Layered) (new : Stage w fresh edges ends) : (w.stage fresh edges ends).Fed needs ↔
    w.Fed needs ∧ ∀ k node, fresh[k]? = some node → needs node → ∃ j, (j,w.nodes.length+k) ∈ edges := by
  have nodes : (w.stage fresh edges ends).nodes = w.nodes ++ fresh := rfl
  constructor
  · intro fed
    refine ⟨?_,?_⟩
    · intro i node at' need
      have here : i < w.nodes.length := (List.getElem?_eq_some_iff.mp at').1
      obtain ⟨j,edge⟩ := fed i node (by rw [nodes,List.getElem?_append_left here,at']) need
      rcases List.mem_append.mp edge with edge | edge
      · exact ⟨j,edge⟩
      · have target := new.target j i edge
        omega
    · intro k node at' need
      obtain ⟨j,edge⟩ := fed (w.nodes.length+k) node
        (by rw [nodes,List.getElem?_append_right (Nat.le_add_right _ _),Nat.add_sub_cancel_left,at']) need
      rcases List.mem_append.mp edge with edge | edge
      · have bound := (layered.inside j _ edge).2
        omega
      · exact ⟨j,edge⟩
  · rintro ⟨fed,fedNew⟩ i node at' need
    rw [nodes] at at'
    by_cases here : i < w.nodes.length
    · rw [List.getElem?_append_left here] at at'
      obtain ⟨j,edge⟩ := fed i node at' need
      exact ⟨j,List.mem_append_left _ edge⟩
    · rw [List.getElem?_append_right (Nat.le_of_not_lt here)] at at'
      obtain ⟨j,edge⟩ := fedNew _ node at' need
      rw [Nat.add_sub_of_le (Nat.le_of_not_lt here)] at edge
      exact ⟨j,List.mem_append_right _ edge⟩

section Zip
variable {β : Type} {lefts : List α} {rights : List β}

theorem exists_mem_zip_left (size : lefts.length = rights.length) {left : α} (inside : left ∈ lefts) :
    ∃ right, (left,right) ∈ lefts.zip rights := by
  obtain ⟨k,bound,rfl⟩ := List.mem_iff_getElem.mp inside
  refine ⟨rights[k],List.mem_iff_getElem.mpr ⟨k,?_,List.getElem_zip⟩⟩
  rw [List.length_zip]
  omega

theorem exists_mem_zip_right (size : lefts.length = rights.length) {right : β} (inside : right ∈ rights) :
    ∃ left, (left,right) ∈ lefts.zip rights := by
  obtain ⟨k,bound,rfl⟩ := List.mem_iff_getElem.mp inside
  refine ⟨lefts[k],List.mem_iff_getElem.mpr ⟨k,?_,List.getElem_zip⟩⟩
  rw [List.length_zip]
  omega

end Zip

end Wiring
end Hermes.Library
