import Mathlib.Data.List.Nodup
import Mathlib.Data.List.Pairwise
import Mathlib.Order.Lattice

/-! Lists strictly ascending by a key.
Such a list holds a key at one index at most, so a row can be looked up by its
key and the lookup says where the row stands. -/
namespace Hermes.Library.KeyOrder
variable {κ ρ : Type} [LinearOrder κ] {key : ρ → κ}

def Ascending (key : ρ → κ) (rows : List ρ) : Prop := rows.Pairwise (fun r s => key r < key s)

instance (rows : List ρ) : Decidable (Ascending key rows) :=
  inferInstanceAs (Decidable (rows.Pairwise _))

/-- The row with key `k` and its index. -/
def locate (key : ρ → κ) (k : κ) (rows : List ρ) : Option (ρ × Nat) :=
  rows.zipIdx.find? (fun entry => key entry.1 = k)

theorem Ascending.keys {rows : List ρ} (ascending : Ascending key rows) :
    (rows.map key).Pairwise (· < ·) :=
  List.pairwise_map.mpr ascending

theorem Ascending.nodup_keys {rows : List ρ} (ascending : Ascending key rows) :
    (rows.map key).Nodup :=
  ascending.keys.imp ne_of_lt

theorem Ascending.sublist {rows kept : List ρ} (ascending : Ascending key rows)
    (sublist : kept.Sublist rows) : Ascending key kept :=
  List.Pairwise.sublist sublist ascending

theorem Ascending.unique {rows : List ρ} (ascending : Ascending key rows) {r s : ρ}
    (left : r ∈ rows) (right : s ∈ rows) (same : key r = key s) : r = s :=
  List.inj_on_of_nodup_map ascending.nodup_keys left right same

theorem Ascending.index_lt {rows : List ρ} (ascending : Ascending key rows) {i j : Nat} {r s : ρ}
    (left : rows[i]? = some r) (right : rows[j]? = some s) : i < j ↔ key r < key s := by
  obtain ⟨leftBound,rfl⟩ := List.getElem?_eq_some_iff.mp left
  obtain ⟨rightBound,rfl⟩ := List.getElem?_eq_some_iff.mp right
  constructor
  · intro before
    exact List.pairwise_iff_getElem.mp ascending i j leftBound rightBound before
  · intro less
    rcases Nat.lt_trichotomy i j with before | same | after
    · exact before
    · subst same
      exact absurd less (lt_irrefl _)
    · exact absurd less (lt_asymm
        (List.pairwise_iff_getElem.mp ascending j i rightBound leftBound after))

theorem Ascending.index_unique {rows : List ρ} (ascending : Ascending key rows) {i j : Nat} {r s : ρ}
    (left : rows[i]? = some r) (right : rows[j]? = some s) (same : key r = key s) : i = j := by
  have notBefore : ¬i < j := fun before =>
    lt_irrefl (key s) (same ▸ (ascending.index_lt left right).mp before)
  have notAfter : ¬j < i := fun after =>
    lt_irrefl (key s) (same ▸ (ascending.index_lt right left).mp after)
  omega

theorem locate_eq_none {k : κ} {rows : List ρ} :
    locate key k rows = none ↔ ∀ r ∈ rows, key r ≠ k := by
  unfold locate
  rw [List.find?_eq_none]
  constructor
  · intro absent r member
    obtain ⟨i,read⟩ := List.mem_iff_getElem?.mp member
    simpa using absent (r,i) (List.mk_mem_zipIdx_iff_getElem?.mpr read)
  · intro absent entry member
    have read : rows[entry.2]? = some entry.1 := List.mk_mem_zipIdx_iff_getElem?.mp member
    simpa using absent entry.1 (List.mem_of_getElem? read)

theorem locate_sound {k : κ} {rows : List ρ} {r : ρ} {i : Nat}
    (found : locate key k rows = some (r,i)) : rows[i]? = some r ∧ key r = k :=
  ⟨List.mk_mem_zipIdx_iff_getElem?.mp (List.mem_of_find?_eq_some found),
    by simpa using List.find?_some found⟩

theorem Ascending.locate_eq_some {rows : List ρ} (ascending : Ascending key rows)
    {k : κ} {r : ρ} {i : Nat} :
    locate key k rows = some (r,i) ↔ rows[i]? = some r ∧ key r = k := by
  constructor
  · exact locate_sound
  · rintro ⟨read,same⟩
    cases found : locate key k rows with
    | none => exact absurd same (locate_eq_none.mp found r (List.mem_of_getElem? read))
    | some entry =>
      obtain ⟨s,j⟩ := entry
      obtain ⟨other,key'⟩ := locate_sound found
      have index : i = j := ascending.index_unique read other (same.trans key'.symm)
      subst index
      rw [read,Option.some.injEq] at other
      rw [other]

theorem Ascending.eq_of_mem_iff {first second : List ρ} (left : Ascending key first)
    (right : Ascending key second) (same : ∀ r, r ∈ first ↔ r ∈ second) : first = second := by
  have perm : first.Perm second := (List.perm_ext_iff_of_nodup left.nodup_keys.of_map
    right.nodup_keys.of_map).mpr same
  apply List.Perm.eq_of_pairwise _ left right perm
  intro r s _ _ less greater
  exact absurd less (lt_asymm greater)

end Hermes.Library.KeyOrder
