import Mathlib.Data.List.Induction
import Mathlib.Data.List.Perm.Basic
import Mathlib.Data.List.Nodup

/-! Keyed tables and the changes laid over them.
A change names a key and carries its new row, or none when it deletes the key.
Laying versions over a base one after another makes the newest change of a key
decide, and a key no version mentions keeps its base row. -/
namespace Hermes.Library.Overlay

/-- How rows `ρ` and changes `δ` are keyed by `κ`. -/
structure Keyed (κ ρ δ : Type) where
  row : ρ → κ
  change : δ → κ
  image : δ → Option ρ
  row_image : ∀ c r, image c = some r → row r = change c

variable {κ ρ δ : Type} [DecidableEq κ] (K : Keyed κ ρ δ)

def lookup (version : List δ) (k : κ) : Option δ := version.find? (fun c => K.change c = k)

/-- The change of `k` in the last version that has one; versions run oldest first. -/
def newest (versions : List (List δ)) (k : κ) : Option δ :=
  versions.foldl (fun found version => (lookup K version k).or found) none

def overlay (base : List ρ) (version : List δ) : List ρ :=
  base.filter (fun r => K.row r ∉ version.map K.change) ++ version.filterMap K.image

def replay (base : List ρ) (versions : List (List δ)) : List ρ := versions.foldl (overlay K) base

@[simp] theorem replay_nil (base : List ρ) : replay K base [] = base := rfl

theorem replay_concat (base : List ρ) (versions : List (List δ)) (version : List δ) :
    replay K base (versions ++ [version]) = overlay K (replay K base versions) version := by
  simp [replay]

theorem newest_concat (versions : List (List δ)) (version : List δ) (k : κ) :
    newest K (versions ++ [version]) k = (lookup K version k).or (newest K versions k) := by
  simp [newest]

theorem lookup_eq_some {version : List δ} (distinct : (version.map K.change).Nodup) {k : κ} {c : δ} :
    lookup K version k = some c ↔ c ∈ version ∧ K.change c = k := by
  constructor
  · intro found
    exact ⟨List.mem_of_find?_eq_some found,by simpa using List.find?_some found⟩
  · rintro ⟨member,same⟩
    cases found : lookup K version k with
    | none => simpa [same] using List.find?_eq_none.mp found c member
    | some d =>
      have key : K.change d = k := by simpa using List.find?_some found
      have equal := List.inj_on_of_nodup_map distinct (List.mem_of_find?_eq_some found) member
        (key.trans same.symm)
      rw [equal]

theorem lookup_eq_none {version : List δ} {k : κ} :
    lookup K version k = none ↔ k ∉ version.map K.change := by
  simp [lookup,List.find?_eq_none]

theorem overlay_distinct {base : List ρ} {version : List δ}
    (rows : (base.map K.row).Nodup) (changes : (version.map K.change).Nodup) :
    ((overlay K base version).map K.row).Nodup := by
  have images : ((version.filterMap K.image).map K.row).Sublist (version.map K.change) := by
    clear rows changes
    induction version with
    | nil => exact .slnil
    | cons c version ih =>
      rw [List.filterMap_cons]
      cases found : K.image c with
      | none => exact ih.cons _
      | some r => simpa [K.row_image c r found] using ih.cons_cons (K.change c)
  rw [overlay,List.map_append]
  refine List.nodup_append'.mpr ⟨rows.sublist (List.filter_sublist.map _),changes.sublist images,?_⟩
  intro k left right
  obtain ⟨r,kept,rfl⟩ := List.mem_map.mp left
  have fresh : K.row r ∉ version.map K.change := by simpa using (List.mem_filter.mp kept).2
  exact fresh (images.subset right)

theorem replay_distinct {base : List ρ} {versions : List (List δ)}
    (rows : (base.map K.row).Nodup) (changes : ∀ version ∈ versions, (version.map K.change).Nodup) :
    ((replay K base versions).map K.row).Nodup := by
  induction versions using List.reverseRecOn with
  | nil => exact rows
  | append_singleton versions version ih =>
    rw [replay_concat]
    exact overlay_distinct K (ih (fun v member => changes v (by simp [member])))
      (changes version (by simp))

theorem mem_overlay {base : List ρ} {version : List δ} (changes : (version.map K.change).Nodup)
    (r : ρ) : r ∈ overlay K base version ↔
      match lookup K version (K.row r) with
      | some c => K.image c = some r
      | none => r ∈ base := by
  cases found : lookup K version (K.row r) with
  | none =>
    have absent := (lookup_eq_none K).mp found
    simp only [overlay,List.mem_append,List.mem_filter,List.mem_filterMap]
    constructor
    · rintro (kept | ⟨c,member,image⟩)
      · exact kept.1
      · exact absurd (List.mem_map.mpr ⟨c,member,(K.row_image c r image).symm⟩) absent
    · intro member
      exact Or.inl ⟨member,by simpa using absent⟩
  | some c =>
    obtain ⟨member,same⟩ := (lookup_eq_some K changes).mp found
    simp only [overlay,List.mem_append,List.mem_filter,List.mem_filterMap]
    constructor
    · rintro (kept | ⟨d,inside,image⟩)
      · exact absurd (List.mem_map.mpr ⟨c,member,same⟩) (by simpa using kept.2)
      · have equal := List.inj_on_of_nodup_map changes inside member
          ((K.row_image d r image).symm.trans same.symm)
        rw [← equal]
        exact image
    · intro image
      exact Or.inr ⟨c,member,image⟩

theorem mem_replay {base : List ρ} {versions : List (List δ)}
    (changes : ∀ version ∈ versions, (version.map K.change).Nodup) (r : ρ) :
    r ∈ replay K base versions ↔
      match newest K versions (K.row r) with
      | some c => K.image c = some r
      | none => r ∈ base := by
  induction versions using List.reverseRecOn with
  | nil => simp [newest]
  | append_singleton versions version ih =>
    rw [replay_concat,newest_concat,mem_overlay K (changes version (by simp))]
    cases lookup K version (K.row r) with
    | some c => rfl
    | none => exact ih (fun v member => changes v (by simp [member]))

theorem newest_mem {versions : List (List δ)} {k : κ} {c : δ} (found : newest K versions k = some c) :
    (∃ version ∈ versions, c ∈ version) ∧ K.change c = k := by
  induction versions using List.reverseRecOn with
  | nil => simp [newest] at found
  | append_singleton versions version ih =>
    rw [newest_concat] at found
    cases last : lookup K version k with
    | some d =>
      rw [last,Option.some_or,Option.some.injEq] at found
      subst found
      exact ⟨⟨version,by simp,List.mem_of_find?_eq_some last⟩,by simpa using List.find?_some last⟩
    | none =>
      rw [last,Option.none_or] at found
      obtain ⟨⟨v,member,inside⟩,key⟩ := ih found
      exact ⟨⟨v,by simp [member],inside⟩,key⟩

theorem newest_isSome {versions : List (List δ)} {version : List δ} (member : version ∈ versions) {c : δ}
    (inside : c ∈ version) : (newest K versions (K.change c)).isSome := by
  induction versions using List.reverseRecOn with
  | nil => cases member
  | append_singleton versions last ih =>
    rw [newest_concat]
    rcases List.mem_append.mp member with early | final
    · rw [Option.isSome_or,ih early,Bool.or_true]
    · rw [List.mem_singleton.mp final] at inside
      cases found : lookup K last (K.change c) with
      | some d => rfl
      | none => exact absurd (List.mem_map.mpr ⟨c,inside,rfl⟩) ((lookup_eq_none K).mp found)

omit [DecidableEq κ] in
theorem perm_of_mem_iff {first second : List ρ} (left : (first.map K.row).Nodup)
    (right : (second.map K.row).Nodup) (same : ∀ r, r ∈ first ↔ r ∈ second) : first.Perm second :=
  (List.perm_ext_iff_of_nodup left.of_map right.of_map).mpr same

/-- When a base and the rows of a version are a table as they stand, and laying the
version over the base gives that table again: nothing of the version is dead or
twice there, and the two parts have no key in common. -/
theorem emitted_overlay_iff {emit : δ → ρ} (emits : ∀ c, K.row (emit c) = K.change c)
    {base latest : List ρ} {version : List δ} (rows : (base.map K.row).Nodup)
    (distinct : (latest.map K.row).Nodup) :
    ((base ++ version.map emit).Perm latest ∧ (version.map K.change).Nodup ∧
      (overlay K base version).Perm latest) ↔
    ((version.map K.change).Nodup ∧ (∀ c ∈ version, K.image c = some (emit c) ∧ emit c ∈ latest) ∧
      (∀ r ∈ base, r ∈ latest ∧ K.row r ∉ version.map K.change) ∧
      ∀ r ∈ latest, r ∈ base ∨ K.row r ∈ version.map K.change) := by
  have keys : (version.map emit).map K.row = version.map K.change := by
    rw [List.map_map]
    exact List.map_congr_left (fun c _ => emits c)
  constructor
  · rintro ⟨perm,changes,overlaid⟩
    have together := (perm.map K.row).nodup_iff.mpr distinct
    rw [List.map_append,keys] at together
    have apart := (List.nodup_append'.mp together).2.2
    refine ⟨changes,?_,?_,?_⟩
    · intro c member
      have inside : emit c ∈ latest :=
        perm.subset (List.mem_append_right _ (List.mem_map.mpr ⟨c,member,rfl⟩))
      have decided := (mem_overlay K changes (emit c)).mp (overlaid.mem_iff.mpr inside)
      rw [(lookup_eq_some K changes).mpr ⟨member,(emits c).symm⟩] at decided
      exact ⟨decided,inside⟩
    · intro r member
      exact ⟨perm.subset (List.mem_append_left _ member),
        fun hit => apart (List.mem_map.mpr ⟨r,member,rfl⟩) hit⟩
    · intro r member
      rcases List.mem_append.mp (perm.mem_iff.mpr member) with base_ | changed
      · exact Or.inl base_
      · exact Or.inr (keys ▸ List.mem_map.mpr ⟨r,changed,rfl⟩)
  · rintro ⟨changes,lives,stays,covers⟩
    have disjoint : (base.map K.row).Disjoint (version.map K.change) := by
      intro k left right
      obtain ⟨r,member,rfl⟩ := List.mem_map.mp left
      exact (stays r member).2 right
    have found : ∀ r ∈ latest, K.row r ∈ version.map K.change → ∃ c ∈ version, emit c = r := by
      intro r member changed
      obtain ⟨c,inside,same⟩ := List.mem_map.mp changed
      refine ⟨c,inside,?_⟩
      exact List.inj_on_of_nodup_map distinct (lives c inside).2 member ((emits c).trans same)
    refine ⟨perm_of_mem_iff K ?_ distinct ?_,changes,
      perm_of_mem_iff K (overlay_distinct K rows changes) distinct ?_⟩
    · rw [List.map_append,keys]
      exact List.nodup_append'.mpr ⟨rows,changes,disjoint⟩
    · intro r
      rw [List.mem_append,List.mem_map]
      constructor
      · rintro (member | ⟨c,member,rfl⟩)
        · exact (stays r member).1
        · exact (lives c member).2
      · intro member
        exact (covers r member).imp_right (found r member)
    · intro r
      rw [mem_overlay K changes]
      constructor
      · intro decided
        cases change : lookup K version (K.row r) with
        | none =>
          rw [change] at decided
          exact (stays r decided).1
        | some c =>
          rw [change] at decided
          obtain ⟨member,_⟩ := (lookup_eq_some K changes).mp change
          have live := lives c member
          exact Option.some.inj (live.1.symm.trans decided) ▸ live.2
      · intro member
        cases change : lookup K version (K.row r) with
        | none => exact (covers r member).resolve_right ((lookup_eq_none K).mp change)
        | some c =>
          obtain ⟨inside,same⟩ := (lookup_eq_some K changes).mp change
          have live := lives c inside
          have equal := List.inj_on_of_nodup_map distinct live.2 member ((emits c).trans same)
          exact live.1.trans (congrArg some equal)

end Hermes.Library.Overlay
