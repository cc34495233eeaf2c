import Mathlib.Data.List.Dedup
import Mathlib.Data.List.Induction

/-! Rows gathered under their keys, in a map that is searched with a comparison. Keys that
compare equal are equal; a key need not compare equal to itself, and every row of such a
key starts a group of its own. -/
namespace Hermes.Library.Grouping
variable {κ ρ : Type} {equals : κ → κ → Bool} {entries : List (κ × List ρ)} {rows : List (κ × ρ)}

/-- One row into the map. -/
def add (equals : κ → κ → Bool) (key : κ) (row : ρ) : List (κ × List ρ) → List (κ × List ρ)
  | [] => [(key,[row])]
  | entry::entries =>
    if equals entry.1 key then (entry.1,entry.2 ++ [row])::entries
    else entry::add equals key row entries

theorem add_cases (equals : κ → κ → Bool) (key : κ) (row : ρ) (entries : List (κ × List ρ)) :
    ((∀ entry ∈ entries, equals entry.1 key = false) ∧ add equals key row entries = entries ++ [(key,[row])]) ∨
      ∃ before entry after, entries = before ++ entry::after ∧ equals entry.1 key = true ∧
        add equals key row entries = before ++ (entry.1,entry.2 ++ [row])::after := by
  induction entries with
  | nil => exact .inl ⟨fun _ inside => absurd inside List.not_mem_nil,rfl⟩
  | cons first entries ih =>
    rw [add]
    cases same : equals first.1 key with
    | true => exact .inr ⟨[],first,entries,rfl,same,rfl⟩
    | false =>
      rw [if_neg Bool.false_ne_true]
      obtain ⟨new,added⟩ | ⟨before,entry,after,rfl,found,added⟩ := ih
      · exact .inl ⟨List.forall_mem_cons.mpr ⟨same,new⟩,by rw [added,List.cons_append]⟩
      · exact .inr ⟨first::before,entry,after,rfl,found,by rw [added,List.cons_append]⟩

/-- The groups of some rows. -/
structure Gathered [DecidableEq κ] (equals : κ → κ → Bool) (entries : List (κ × List ρ))
    (rows : List (κ × ρ)) : Prop where
  distinct : entries.Pairwise fun first second => equals first.1 second.1 = false
  values : ∀ entry ∈ entries, equals entry.1 entry.1 = true →
    entry.2 = (rows.filter fun row => row.1 = entry.1).map Prod.snd
  covers : ∀ key, key ∈ entries.map Prod.fst ↔ key ∈ rows.map Prod.fst
  single : ∀ key, equals key key = false →
    (entries.filter fun entry => entry.1 = key).length = (rows.filter fun row => row.1 = key).length

namespace Gathered
variable [DecidableEq κ]

theorem empty : Gathered equals ([] : List (κ × List ρ)) [] where
  distinct := List.Pairwise.nil
  values := fun _ inside => absurd inside List.not_mem_nil
  covers := fun _ => Iff.rfl
  single := fun _ _ => rfl

theorem add_new (gathered : Gathered equals entries rows) {key : κ} (row : ρ)
    (new : ∀ entry ∈ entries, equals entry.1 key = false) :
    Gathered equals (entries ++ [(key,[row])]) (rows ++ [(key,row)]) where
  distinct := by
    refine List.pairwise_append.mpr ⟨gathered.distinct,List.pairwise_singleton _ _,?_⟩
    intro entry inside last there
    rw [List.mem_singleton.mp there]
    exact new entry inside
  values := by
    intro entry inside ordinary
    obtain old | last := List.mem_append.mp inside
    · have other : key ≠ entry.1 := by
        intro same
        have never := new entry old
        rw [same,ordinary] at never
        cases never
      rw [gathered.values entry old ordinary,List.filter_append,List.filter_cons_of_neg (by simpa using other)]
      simp
    · obtain rfl := List.mem_singleton.mp last
      have none : rows.filter (fun row => row.1 = key) = [] := by
        rw [List.filter_eq_nil_iff]
        intro earlier member same
        obtain ⟨entry,there,key'⟩ := List.mem_map.mp ((gathered.covers key).mpr
          (List.mem_map.mpr ⟨earlier,member,by simpa using same⟩))
        have never := new entry there
        rw [key',ordinary] at never
        cases never
      rw [List.filter_append,none]
      simp
  covers := by
    intro other
    have before := gathered.covers other
    simp only [List.map_append,List.mem_append,before]
    simp
  single := by
    intro other odd
    rw [List.filter_append,List.filter_append,List.length_append,List.length_append,gathered.single other odd]
    by_cases same : key = other
    · simp [same]
    · simp [same]

theorem add_found {before after : List (κ × List ρ)} {entry : κ × List ρ}
    (gathered : Gathered equals (before ++ entry::after) rows) (row : ρ) (found : equals entry.1 entry.1 = true) :
    Gathered equals (before ++ (entry.1,entry.2 ++ [row])::after) (rows ++ [(entry.1,row)]) := by
  have keys : (before ++ (entry.1,entry.2 ++ [row])::after).map Prod.fst =
      (before ++ entry::after).map Prod.fst := by simp
  refine ⟨?_,?_,?_,?_⟩
  · have order := gathered.distinct
    rw [List.pairwise_append,List.pairwise_cons] at order ⊢
    obtain ⟨first,⟨here,last⟩,across⟩ := order
    refine ⟨first,⟨here,last⟩,?_⟩
    intro one inside other there
    obtain rfl | there := List.mem_cons.mp there
    · exact across one inside entry List.mem_cons_self
    · exact across one inside other (List.mem_cons_of_mem _ there)
  · have order := gathered.distinct
    rw [List.pairwise_append,List.pairwise_cons] at order
    -- every other group has another key
    have others : ∀ other, (other ∈ before ∨ other ∈ after) → other.1 ≠ entry.1 := by
      intro other place same
      obtain place | place := place
      · have differ := order.2.2 other place entry List.mem_cons_self
        rw [same,found] at differ
        cases differ
      · have differ := order.2.1.1 other place
        rw [same,found] at differ
        cases differ
    intro other inside ordinary
    rw [List.filter_append,List.map_append]
    obtain place | place := List.mem_append.mp inside
    · rw [gathered.values other (List.mem_append_left _ place) ordinary,
        List.filter_cons_of_neg (by simpa using (others other (.inl place)).symm)]
      simp
    · obtain rfl | place := List.mem_cons.mp place
      · rw [gathered.values entry (List.mem_append_right _ List.mem_cons_self) found]
        simp
      · rw [gathered.values other (List.mem_append_right _ (List.mem_cons_of_mem _ place)) ordinary,
          List.filter_cons_of_neg (by simpa using (others other (.inr place)).symm)]
        simp
  · intro other
    rw [keys,gathered.covers other,List.map_append,List.mem_append]
    refine ⟨Or.inl,?_⟩
    rintro (old | last)
    · exact old
    · obtain rfl : other = entry.1 := by simpa using last
      exact (gathered.covers entry.1).mp (by simp)
  · intro other odd
    have differ : entry.1 ≠ other := by
      intro same
      rw [← same,found] at odd
      cases odd
    have before := gathered.single other odd
    simpa [differ] using before

theorem add (gathered : Gathered equals entries rows) {key : κ} (row : ρ)
    (sound : ∀ entry ∈ entries, equals entry.1 key = true → entry.1 = key) :
    Gathered equals (Grouping.add equals key row entries) (rows ++ [(key,row)]) := by
  obtain ⟨new,added⟩ | ⟨before,entry,after,rfl,found,added⟩ := add_cases equals key row entries
  · rw [added]
    exact gathered.add_new row new
  · rw [added]
    obtain rfl := sound entry (by simp) found
    exact gathered.add_found row found

theorem foldl {α : Type} (key : α → κ) (row : α → ρ) (elements : List α)
    (sound : ∀ first ∈ elements, ∀ second ∈ elements, equals (key first) (key second) = true → key first = key second) :
    Gathered equals (elements.foldl (fun entries element => Grouping.add equals (key element) (row element) entries) [])
      (elements.map fun element => (key element,row element)) := by
  induction elements using List.reverseRecOn with
  | nil => exact empty
  | append_singleton elements last ih =>
    have before := ih fun first inside second there =>
      sound first (List.mem_append_left _ inside) second (List.mem_append_left _ there)
    rw [List.foldl_append,List.map_append]
    apply before.add
    intro entry inside same
    obtain ⟨pair,there,key'⟩ := List.mem_map.mp ((before.covers entry.1).mp (List.mem_map_of_mem inside))
    obtain ⟨element,member,rfl⟩ := List.mem_map.mp there
    rw [← key'] at same ⊢
    exact sound element (List.mem_append_left _ member) last (by simp) same

theorem nodup_keys : (entries.map Prod.fst).Nodup ↔ ∀ key, (entries.filter fun entry => entry.1 = key).length ≤ 1 := by
  rw [List.nodup_iff_count_le_one]
  apply forall_congr'
  intro key
  rw [List.count,List.countP_map,List.countP_eq_length_filter]
  exact Iff.rfl

theorem nodup_iff (gathered : Gathered equals entries rows) : (entries.map Prod.fst).Nodup ↔
    ∀ row ∈ rows, equals row.1 row.1 = false → (rows.filter fun other => other.1 = row.1).length = 1 := by
  rw [nodup_keys]
  constructor
  · intro once row inside odd
    have most := once row.1
    have least : 0 < (rows.filter fun other => other.1 = row.1).length :=
      List.length_pos_of_mem (List.mem_filter.mpr ⟨inside,decide_eq_true rfl⟩)
    rw [gathered.single row.1 odd] at most
    omega
  · intro once key
    cases odd : equals key key with
    | false =>
      rw [gathered.single key odd]
      cases found : rows.filter fun row => row.1 = key with
      | nil => exact Nat.zero_le 1
      | cons row later =>
        obtain ⟨inside,same⟩ := List.mem_filter.mp
          (found ▸ List.mem_cons_self : row ∈ rows.filter fun row => row.1 = key)
        obtain rfl := of_decide_eq_true same
        rw [← found]
        exact Nat.le_of_eq (once row inside odd)
    | true =>
      -- two groups of a key that compares equal to itself would not be distinct
      have distinct := gathered.distinct.filter fun entry => entry.1 = key
      have own : ∀ entry ∈ entries.filter fun entry => entry.1 = key, entry.1 = key :=
        fun entry inside => of_decide_eq_true (List.mem_filter.mp inside).2
      generalize entries.filter (fun entry => entry.1 = key) = found at distinct own
      cases found with
      | nil => exact Nat.zero_le 1
      | cons first others =>
        cases others with
        | nil => exact Nat.le_refl 1
        | cons second _ =>
          have differ := (List.pairwise_cons.mp distinct).1 second List.mem_cons_self
          rw [own first List.mem_cons_self,own second (by simp),odd] at differ
          cases differ

theorem keys_perm (gathered : Gathered equals entries rows) (unique : (entries.map Prod.fst).Nodup) :
    (entries.map Prod.fst).Perm (rows.map Prod.fst).dedup := by
  refine (List.perm_ext_iff_of_nodup unique (List.nodup_dedup _)).mpr ?_
  intro key
  rw [List.mem_dedup,gathered.covers key]

end Gathered
end Hermes.Library.Grouping
