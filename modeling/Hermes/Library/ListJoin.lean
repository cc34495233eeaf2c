import Mathlib.Data.Finset.Card
import Mathlib.Data.Finset.Sort
import Mathlib.Data.List.Nodup
import Mathlib.Data.List.Perm.Basic
import Mathlib.Data.List.Range

/-! Joins of two lists under a matching relation, and sets of row positions.
A join computed piecewise marks the positions of the rows it has matched; what is
left unmarked at the end is what an outer join pads. -/
namespace Hermes.Library.ListJoin
variable {β π α : Type}

def pairs (matching : β → π → Bool) (build : List β) (probe : List π) : List (β × π) :=
  probe.flatMap fun p => (build.filter fun b => matching b p).map fun b => (b,p)

@[simp] theorem pairs_nil_probe (matching : β → π → Bool) (build : List β) :
    pairs matching build [] = [] := rfl

@[simp] theorem pairs_nil_build (matching : β → π → Bool) (probe : List π) :
    pairs matching [] probe = [] := by
  simp [pairs]

theorem pairs_append_probe (matching : β → π → Bool) (build : List β) (probe more : List π) :
    pairs matching build (probe ++ more) = pairs matching build probe ++ pairs matching build more := by
  simp [pairs]

theorem pairs_append_build (matching : β → π → Bool) (build more : List β) (probe : List π) :
    (pairs matching (build ++ more) probe).Perm
      (pairs matching build probe ++ pairs matching more probe) := by
  induction probe with
  | nil => apply List.Perm.refl
  | cons p probe ih =>
    have head (rows : List β) (tail : List π) : pairs matching rows (p::tail) =
        (rows.filter fun b => matching b p).map (fun b => (b,p)) ++ pairs matching rows tail := by
      simp [pairs]
    rw [head,head,head,List.filter_append,List.map_append,List.append_assoc,List.append_assoc]
    apply List.Perm.append_left
    exact (List.Perm.append_left _ ih).trans (List.perm_append_comm_assoc _ _ _)

theorem pairs_perm (matching : β → π → Bool) {build others : List β} {probe more : List π}
    (builds : build.Perm others) (probes : probe.Perm more) :
    (pairs matching build probe).Perm (pairs matching others more) := by
  refine (probes.flatMap_right _).trans (List.Perm.flatMap_left _ ?_)
  intro p _
  exact (builds.filter _).map _

theorem pairs_flatMap_probe {κ : Type} (matching : β → π → Bool) (build : List β) (indices : List κ)
    (probe : κ → List π) :
    pairs matching build (indices.flatMap probe) = indices.flatMap fun i => pairs matching build (probe i) := by
  rw [pairs,List.flatMap_assoc]
  rfl

theorem flatMap_swap {κ μ : Type} (outer : List κ) (inner : List μ) (body : κ → μ → List α) :
    (outer.flatMap fun i => inner.flatMap (body i)).Perm (inner.flatMap fun j => outer.flatMap fun i => body i j) := by
  induction inner with
  | nil => simp
  | cons j inner ih =>
    simp only [List.flatMap_cons]
    exact (List.flatMap_append_perm outer _ _).symm.trans (ih.append_left _)

/-- The rows whose position is not in the set. -/
def unmarked (rows : List α) (marks : Finset Nat) : List α :=
  (rows.zipIdx.filter fun entry => entry.2 ∉ marks).map Prod.fst

@[simp] theorem unmarked_empty (rows : List α) : unmarked rows ∅ = rows := by
  simp [unmarked]

theorem unmarked_map (f : α → β) (rows : List α) (marks : Finset Nat) :
    unmarked (rows.map f) marks = (unmarked rows marks).map f := by
  rw [unmarked,List.zipIdx_map,List.filter_map,List.map_map,unmarked,List.map_map]
  rfl

/-- The set holds exactly the positions of the chosen rows. -/
def Marks (chosen : α → Prop) (rows : List α) (marks : Finset Nat) : Prop :=
  ∀ i, i ∈ marks ↔ ∃ row, rows[i]? = some row ∧ chosen row

theorem marks_iff {chosen : α → Prop} {rows : List α} {marks : Finset Nat} :
    Marks chosen rows marks ↔ ∀ i, i ∈ marks ↔ ∃ k row, rows[k]? = some row ∧ chosen row ∧ i = k := by
  apply forall_congr'
  intro i
  have place : (∃ row, rows[i]? = some row ∧ chosen row) ↔
      ∃ k row, rows[k]? = some row ∧ chosen row ∧ i = k := by
    constructor
    · intro ⟨row,found,holds⟩
      exact ⟨i,row,found,holds,rfl⟩
    · intro ⟨k,row,found,holds,same⟩
      exact ⟨row,same ▸ found,holds⟩
  rw [place]

theorem Marks.congr {chosen other : α → Prop} {rows : List α} {marks : Finset Nat}
    (marked : Marks chosen rows marks) (same : ∀ row ∈ rows, chosen row ↔ other row) :
    Marks other rows marks := by
  intro i
  rw [marked i]
  apply exists_congr
  intro row
  apply and_congr_right
  intro found
  exact same row (List.mem_of_getElem? found)

theorem Marks.none {chosen : α → Prop} {rows : List α} (never : ∀ row ∈ rows, ¬chosen row) :
    Marks chosen rows ∅ := by
  intro i
  constructor
  · intro member
    exact absurd member (Finset.notMem_empty i)
  · intro ⟨row,found,holds⟩
    exact absurd holds (never row (List.mem_of_getElem? found))

theorem Marks.union {chosen other : α → Prop} {rows : List α} {marks more : Finset Nat}
    (first : Marks chosen rows marks) (second : Marks other rows more) :
    Marks (fun row => chosen row ∨ other row) rows (marks ∪ more) := by
  intro i
  rw [Finset.mem_union,first i,second i,← exists_or]
  apply exists_congr
  intro row
  tauto

theorem exists_getElem?_append (rows more : List α) (holds : Nat → α → Prop) :
    (∃ i row, (rows ++ more)[i]? = some row ∧ holds i row) ↔
      (∃ i row, rows[i]? = some row ∧ holds i row) ∨
        ∃ k row, more[k]? = some row ∧ holds (rows.length+k) row := by
  constructor
  · intro ⟨i,row,found,here⟩
    rw [List.getElem?_append] at found
    split at found
    next inside => exact Or.inl ⟨i,row,found,here⟩
    next outside =>
      refine Or.inr ⟨i-rows.length,row,found,?_⟩
      rw [Nat.add_sub_cancel' (Nat.le_of_not_lt outside)]
      exact here
  · intro either
    rcases either with ⟨i,row,found,here⟩ | ⟨k,row,found,here⟩
    · have inside : i < rows.length := (List.getElem?_eq_some_iff.mp found).1
      exact ⟨i,row,by rw [List.getElem?_append_left inside,found],here⟩
    · refine ⟨rows.length+k,row,?_,here⟩
      rw [List.getElem?_append_right (Nat.le_add_right _ _),Nat.add_sub_cancel_left,found]

theorem Marks.append {chosen : α → Prop} {rows more : List α} {marks shifted : Finset Nat}
    (first : Marks chosen rows marks)
    (second : ∀ i, i ∈ shifted ↔ ∃ k row, more[k]? = some row ∧ chosen row ∧ i = rows.length+k) :
    Marks chosen (rows ++ more) (marks ∪ shifted) := by
  rw [marks_iff] at first ⊢
  intro i
  rw [Finset.mem_union,first i,second i]
  exact (exists_getElem?_append rows more fun k row => chosen row ∧ i = k).symm

theorem Marks.append_none {chosen : α → Prop} {rows more : List α} {marks : Finset Nat}
    (first : Marks chosen rows marks) (never : ∀ row ∈ more, ¬chosen row) :
    Marks chosen (rows ++ more) marks := by
  rw [← Finset.union_empty marks]
  apply first.append
  intro i
  constructor
  · intro member
    exact absurd member (Finset.notMem_empty i)
  · intro ⟨k,row,found,holds,_⟩
    exact absurd holds (never row (List.mem_of_getElem? found))

theorem Marks.unmarked_eq {chosen : α → Prop} [DecidablePred chosen] {rows : List α} {marks : Finset Nat}
    (marked : Marks chosen rows marks) : unmarked rows marks = rows.filter fun row => ¬chosen row := by
  have same : (rows.zipIdx.filter fun entry => entry.2 ∉ marks) =
      rows.zipIdx.filter fun entry => ¬chosen entry.1 := by
    apply List.filter_congr
    intro entry member
    have found : rows[entry.2]? = some entry.1 := List.mem_zipIdx_iff_getElem?.mp member
    have here : entry.2 ∈ marks ↔ chosen entry.1 := by
      simp [marked entry.2,found]
    simp [here]
  have whole : rows.zipIdx.map Prod.fst = rows := List.zipIdx_map_fst 0 rows
  conv_rhs => rw [← whole]
  rw [unmarked,same,List.filter_map]
  rfl

theorem Marks.card_add_unmarked {chosen : α → Prop} {rows : List α} {marks : Finset Nat}
    (marked : Marks chosen rows marks) : marks.card+(unmarked rows marks).length = rows.length := by
  have positions : ((rows.zipIdx.filter fun entry => entry.2 ∈ marks).map Prod.snd).toFinset = marks := by
    ext i
    simp only [List.mem_toFinset,List.mem_map,List.mem_filter,decide_eq_true_eq]
    constructor
    · rintro ⟨entry,⟨_,inside⟩,rfl⟩
      exact inside
    · intro member
      obtain ⟨row,found,_⟩ := (marked i).mp member
      exact ⟨(row,i),⟨List.mem_zipIdx_iff_getElem?.mpr found,member⟩,rfl⟩
  have distinct : ((rows.zipIdx.filter fun entry => entry.2 ∈ marks).map Prod.snd).Nodup := by
    apply (List.filter_sublist.map Prod.snd).nodup
    rw [List.zipIdx_map_snd]
    exact List.nodup_range'
  have size : marks.card = (rows.zipIdx.filter fun entry => entry.2 ∈ marks).length := by
    rw [← positions,List.toFinset_card_of_nodup distinct,List.length_map,positions]
  rw [size,unmarked,List.length_map]
  have parts := List.length_eq_length_filter_add (l := rows.zipIdx) (fun entry => decide (entry.2 ∈ marks))
  rw [List.length_zipIdx] at parts
  simpa using parts.symm

/-- The positions of the chosen rows. -/
def positions (chosen : α → Prop) [DecidablePred chosen] (rows : List α) : List Nat :=
  (rows.zipIdx.filter fun entry => chosen entry.1).map Prod.snd

theorem filterMap_positions (chosen : α → Prop) [DecidablePred chosen] (rows : List α) :
    (positions chosen rows).filterMap (rows[·]?) = rows.filter fun row => chosen row := by
  have whole : rows.zipIdx.map Prod.fst = rows := List.zipIdx_map_fst 0 rows
  have read : ((rows.zipIdx.filter fun entry => chosen entry.1).filterMap fun entry => rows[entry.2]?) =
      (rows.zipIdx.filter fun entry => chosen entry.1).map Prod.fst := by
    apply List.filterMap_eq_map_iff_forall_eq_some.mpr
    intro entry member
    exact List.mem_zipIdx_iff_getElem?.mp (List.mem_of_mem_filter member)
  rw [positions,List.filterMap_map]
  conv_rhs => rw [← whole,List.filter_map]
  exact read

theorem marks_positions (chosen : α → Prop) [DecidablePred chosen] (rows : List α) :
    Marks chosen rows (positions chosen rows).toFinset := by
  intro i
  simp only [positions,List.mem_toFinset,List.mem_map,List.mem_filter,decide_eq_true_eq]
  constructor
  · intro ⟨entry,⟨member,holds⟩,place⟩
    exact ⟨entry.1,place ▸ List.mem_zipIdx_iff_getElem?.mp member,holds⟩
  · intro ⟨row,found,holds⟩
    exact ⟨(row,i),⟨List.mem_zipIdx_iff_getElem?.mpr found,holds⟩,rfl⟩

theorem positions_ascending (chosen : α → Prop) [DecidablePred chosen] (rows : List α) :
    (positions chosen rows).Pairwise (· < ·) := by
  apply List.Pairwise.sublist (List.filter_sublist.map Prod.snd)
  rw [List.zipIdx_map_snd]
  exact List.pairwise_lt_range'

theorem Marks.unique {chosen : α → Prop} {rows : List α} {marks others : Finset Nat}
    (first : Marks chosen rows marks) (second : Marks chosen rows others) : marks = others := by
  ext i
  rw [first i,second i]

theorem Marks.sort_eq {chosen : α → Prop} [DecidablePred chosen] {rows : List α} {marks : Finset Nat}
    (marked : Marks chosen rows marks) : marks.sort = positions chosen rows := by
  have ascending := positions_ascending chosen rows
  rw [marked.unique (marks_positions chosen rows)]
  exact (List.toFinset_sort (· ≤ ·) (ascending.imp fun less => Nat.ne_of_lt less)).mpr
    (ascending.imp Nat.le_of_lt)

theorem Marks.lookup_sorted {chosen : α → Prop} [DecidablePred chosen] {rows : List α} {marks : Finset Nat}
    (marked : Marks chosen rows marks) :
    marks.sort.mapM (rows[·]?) = some (rows.filter fun row => chosen row) := by
  have lookup (entries : List (α × Nat)) (found : ∀ entry ∈ entries, rows[entry.2]? = some entry.1) :
      (entries.map Prod.snd).mapM (rows[·]?) = some (entries.map Prod.fst) := by
    induction entries with
    | nil => rfl
    | cons entry entries ih =>
      rw [List.map_cons,List.mapM_cons,found entry List.mem_cons_self,
        ih fun other member => found other (List.mem_cons_of_mem entry member)]
      rfl
  rw [marked.sort_eq,positions,lookup _ fun entry member =>
    List.mem_zipIdx_iff_getElem?.mp (List.mem_of_mem_filter member)]
  have whole : rows.zipIdx.map Prod.fst = rows := List.zipIdx_map_fst 0 rows
  conv_rhs => rw [← whole,List.filter_map]
  rfl

theorem length_lookup {keys : List β} {find : β → Option α} {found : List α}
    (looked : keys.mapM find = some found) : found.length = keys.length := by
  induction keys generalizing found with
  | nil =>
    rw [← Option.some.inj looked]
    rfl
  | cons key keys ih =>
    rw [List.mapM_cons] at looked
    obtain ⟨row,_,rest⟩ := Option.bind_eq_some_iff.mp looked
    obtain ⟨rows,others,same⟩ := Option.bind_eq_some_iff.mp rest
    rw [← Option.some.inj same,List.length_cons,List.length_cons,ih others]

theorem Marks.card_eq {chosen : α → Prop} [DecidablePred chosen] {rows : List α} {marks : Finset Nat}
    (marked : Marks chosen rows marks) : marks.card = (rows.filter fun row => chosen row).length := by
  have count := marked.card_add_unmarked
  have parts := List.length_eq_length_filter_add (l := rows) (fun row => decide (chosen row))
  rw [marked.unmarked_eq] at count
  simp only [decide_not] at count parts
  omega

end Hermes.Library.ListJoin
