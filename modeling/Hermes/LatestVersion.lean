import Hermes.DeleteMapMerge
import Hermes.Library.Overlay
import Mathlib.Data.List.Induction

/-! Latest version wins, and when the kernel's result says so.
The version with the greatest timestamp decides a key; the kernel agrees up to
two slips: an UPDATE does not lift the delete flag of an older DELETE, and the
position of a kept row is its index in its own delta. -/
namespace Hermes.LatestVersion
open Hermes.Tuple Hermes.Delta Hermes.DeleteMapGeneratorKernel Hermes.DeleteMapMerge
open Hermes.Library.KeyOrder Hermes.Library.Overlay
variable {n : Nat} {α : Type}

def image (r : DeltaRow n α) : Option (Row n α) := if r.type = .delete then none else some r.toRow

def keyed (n : Nat) (α : Type) : Keyed (PrimaryKey n) (Row n α) (DeltaRow n α) where
  row := Row.key
  change := fun r => r.key
  image := image
  row_image := by
    intro c r found
    unfold image at found
    split at found
    · cases found
    · rw [← Option.some.inj found]

/-- No version has a row of `k` newer than `timestamp`. -/
def Newest (deltas : List (DeltaVersion n α)) (timestamp : Int) (k : PrimaryKey n) : Prop :=
  ∀ d ∈ deltas, ∀ r ∈ d.delta.rows, r.key = k → d.timestamp ≤ timestamp

def Unchanged (deltas : List (DeltaVersion n α)) (k : PrimaryKey n) : Prop :=
  ∀ d ∈ deltas, ∀ r ∈ d.delta.rows, r.key ≠ k

instance (deltas : List (DeltaVersion n α)) (timestamp : Int) (k : PrimaryKey n) :
    Decidable (Newest deltas timestamp k) := by unfold Newest; infer_instance

instance (deltas : List (DeltaVersion n α)) (k : PrimaryKey n) : Decidable (Unchanged deltas k) := by
  unfold Unchanged; infer_instance

structure SortedInput (deltas : List (DeltaVersion n α)) (stable : TupleSet (Row n α)) : Prop where
  columns : 0 < n
  stableOrder : Ascending Row.key stable.rows
  deltaOrder : ∀ d ∈ deltas, Ascending (·.key) d.delta.rows

/-- Ascending inputs with distinct timestamps, positive where there are rows. -/
structure MergeInput (deltas : List (DeltaVersion n α)) (stable : TupleSet (Row n α)) : Prop
    extends SortedInput deltas stable where
  distinct : (deltas.map (·.timestamp)).Nodup
  positive : ∀ d ∈ deltas, d.delta.rows ≠ [] → 0 < d.timestamp

/-- Row `i` of version `j` is the row the timestamps pick for its key: the first
with the greatest one, if that is positive. -/
structure Wins (deltas : List (DeltaVersion n α)) (j : Nat) (d : DeltaVersion n α) (i : Nat)
    (r : DeltaRow n α) : Prop where
  version : deltas[j]? = some d
  row : d.delta.rows[i]? = some r
  positive : 0 < d.timestamp
  earlier : ∀ j' < j, ∀ d', deltas[j']? = some d' → ∀ r' ∈ d'.delta.rows, r'.key = r.key →
    d'.timestamp < d.timestamp
  newest : Newest deltas d.timestamp r.key

private theorem matchKey_older {k : PrimaryKey n} {deltas : List (DeltaVersion n α)} {found : Match}
    (older : ∀ d ∈ deltas, ∀ r ∈ d.delta.rows, r.key = k → d.timestamp ≤ found.minTimeStamp) (s : Nat) :
    matchKey k s deltas found = found := by
  induction deltas generalizing s with
  | nil => rfl
  | cons d deltas ih =>
    unfold matchKey
    have rest := ih (fun d' member => older d' (List.mem_cons_of_mem _ member)) (s+1)
    cases located : locate (·.key) k d.delta.rows with
    | none => exact rest
    | some entry =>
      obtain ⟨read,same⟩ := locate_sound located
      have stale := older d List.mem_cons_self entry.1 (List.mem_of_getElem? read) same
      have skipped : matchRow s entry.2 d.timestamp entry.1 found = found := by
        unfold matchRow
        rw [if_neg (not_lt.mpr stale)]
      simp only [skipped]
      exact rest

private theorem matchKey_wins {k : PrimaryKey n} {deltas : List (DeltaVersion n α)} {j : Nat}
    {d : DeltaVersion n α} {i : Nat} {r : DeltaRow n α}
    (version : deltas[j]? = some d) (located : locate (·.key) k d.delta.rows = some (r,i))
    (earlier : ∀ j' < j, ∀ d', deltas[j']? = some d' → ∀ r' ∈ d'.delta.rows, r'.key = k →
      d'.timestamp < d.timestamp)
    (newest : Newest deltas d.timestamp k)
    (s : Nat) (found : Match) (fresh : found.minTimeStamp < d.timestamp) :
    matchKey k s deltas found =
        matchRow (s+j) i d.timestamp r (matchKey k s (deltas.take j) found) ∧
      (matchKey k s (deltas.take j) found).minTimeStamp < d.timestamp := by
  induction deltas generalizing j s found with
  | nil => simp at version
  | cons first deltas ih =>
    have rest : Newest deltas d.timestamp k := fun d' member => newest d' (List.mem_cons_of_mem _ member)
    cases j with
    | zero =>
      rw [List.getElem?_cons_zero,Option.some.injEq] at version
      subst version
      refine ⟨?_,fresh⟩
      rw [matchKey,located]
      apply matchKey_older
      simp only [matchRow,if_pos fresh]
      exact rest
    | succ j =>
      rw [List.getElem?_cons_succ] at version
      rw [List.take_succ_cons,matchKey,matchKey]
      rw [show s+(j+1) = s+1+j by omega]
      apply ih version (fun j' before d' read => earlier (j'+1) (by omega) d' (by simpa using read)) rest
      cases here : locate (fun r : DeltaRow n α => r.key) k first.delta.rows with
      | none => exact fresh
      | some entry =>
        obtain ⟨read,key⟩ := locate_sound here
        have older := earlier 0 (by omega) first (by simp) entry.1 (List.mem_of_getElem? read) key
        simp only [matchRow]
        split
        next newer => exact older
        next stale => exact fresh

section Decision
variable {deltas : List (DeltaVersion n α)} {stable : TupleSet (Row n α)}

theorem keyMatch_unstamped {k : PrimaryKey n}
    (unstamped : ∀ d ∈ deltas, ∀ r ∈ d.delta.rows, r.key = k → d.timestamp ≤ 0) :
    keyMatch deltas stable k = stableMatch stable k :=
  matchKey_older unstamped 1

theorem keyMatch_unchanged {k : PrimaryKey n} (unchanged : Unchanged deltas k) :
    keyMatch deltas stable k = stableMatch stable k :=
  keyMatch_unstamped (fun d member r inside same => absurd same (unchanged d member r inside))

theorem keyMatch_wins (input : SortedInput deltas stable) {j i : Nat} {d : DeltaVersion n α}
    {r : DeltaRow n α} (wins : Wins deltas j d i r) :
    keyMatch deltas stable r.key =
      { deleteFlag := deleteFlagAfter r.type (keyMatch (deltas.take j) stable r.key).deleteFlag
        minTimeStamp := d.timestamp
        position := (1+j,i) } := by
  have located := (input.deltaOrder d (List.mem_of_getElem? wins.version)).locate_eq_some.mpr ⟨wins.row,rfl⟩
  obtain ⟨equal,fresh⟩ := matchKey_wins wins.version located wins.earlier wins.newest 1
    (stableMatch stable r.key) wins.positive
  unfold keyMatch
  rw [equal]
  unfold matchRow
  rw [if_pos fresh]

private theorem exists_first_newest (versions : List (DeltaVersion n α)) (has : DeltaVersion n α → Prop)
    {d : DeltaVersion n α} (member : d ∈ versions) (holds : has d) :
    ∃ (j : Nat) (top : DeltaVersion n α), versions[j]? = some top ∧ has top ∧ d.timestamp ≤ top.timestamp ∧
      (∀ j' < j, ∀ other, versions[j']? = some other → has other → other.timestamp < top.timestamp) ∧
      ∀ other ∈ versions, has other → other.timestamp ≤ top.timestamp := by
  induction versions using List.reverseRecOn generalizing d with
  | nil => simp at member
  | append_singleton versions last ih =>
    by_cases some_ : ∃ d ∈ versions, has d
    · obtain ⟨d',inside,holds'⟩ := some_
      obtain ⟨j,top,read,hasTop,_,first,greatest⟩ := ih inside holds'
      have bound := (List.getElem?_eq_some_iff.mp read).1
      by_cases newer : has last ∧ top.timestamp < last.timestamp
      · refine ⟨versions.length,last,by simp,newer.1,?_,?_,?_⟩
        · rcases List.mem_append.mp member with old | single
          · exact le_of_lt (lt_of_le_of_lt (greatest d old holds) newer.2)
          · rw [List.mem_singleton.mp single]
        · intro j' before other here hasOther
          rw [List.getElem?_append_left before] at here
          exact lt_of_le_of_lt (greatest other (List.mem_of_getElem? here) hasOther) newer.2
        · intro other inside' hasOther
          rcases List.mem_append.mp inside' with old | single
          · exact le_of_lt (lt_of_le_of_lt (greatest other old hasOther) newer.2)
          · rw [List.mem_singleton.mp single]
      · have all : ∀ other ∈ versions ++ [last], has other → other.timestamp ≤ top.timestamp := by
          intro other inside' hasOther
          rcases List.mem_append.mp inside' with old | single
          · exact greatest other old hasOther
          · rw [List.mem_singleton] at single
            subst single
            exact not_lt.mp (fun less => newer ⟨hasOther,less⟩)
        refine ⟨j,top,by rw [List.getElem?_append_left bound,read],hasTop,all d member holds,?_,all⟩
        intro j' before other here
        rw [List.getElem?_append_left (by omega)] at here
        exact first j' before other here
    · have single : d = last := by
        rcases List.mem_append.mp member with old | single
        · exact absurd ⟨d,old,holds⟩ some_
        · exact List.mem_singleton.mp single
      subst single
      refine ⟨versions.length,d,by simp,holds,le_refl _,?_,?_⟩
      · intro j' before other here hasOther
        rw [List.getElem?_append_left before] at here
        exact absurd ⟨other,List.mem_of_getElem? here,hasOther⟩ some_
      · intro other inside hasOther
        rcases List.mem_append.mp inside with old | same
        · exact absurd ⟨other,old,hasOther⟩ some_
        · rw [List.mem_singleton.mp same]

theorem exists_wins {d : DeltaVersion n α} (member : d ∈ deltas) (stamped : 0 < d.timestamp)
    {r : DeltaRow n α} (inside : r ∈ d.delta.rows) :
    ∃ j d' i r', Wins deltas j d' i r' ∧ r'.key = r.key := by
  obtain ⟨j,top,version,⟨r',within,same⟩,above,first,greatest⟩ := exists_first_newest deltas
    (fun v => ∃ r' ∈ v.delta.rows, r'.key = r.key) member ⟨r,inside,rfl⟩
  obtain ⟨i,row⟩ := List.mem_iff_getElem?.mp within
  refine ⟨j,top,i,r',⟨version,row,lt_of_lt_of_le stamped above,?_,?_⟩,same⟩
  · intro j' before other here r'' inside' key
    exact first j' before other here ⟨r'',inside',key.trans same⟩
  · intro other member' r'' inside' key
    exact greatest other member' ⟨r'',inside',key.trans same⟩

theorem MergeInput.timestamp_unique (input : MergeInput deltas stable) {j j' : Nat}
    {d d' : DeltaVersion n α} (left : deltas[j]? = some d) (right : deltas[j']? = some d')
    (same : d.timestamp = d'.timestamp) : j = j' := by
  have stamp : (deltas.map (·.timestamp))[j]? = some d.timestamp := by rw [List.getElem?_map,left]; rfl
  have stamp' : (deltas.map (·.timestamp))[j']? = some d.timestamp := by
    rw [List.getElem?_map,right,same]
    rfl
  exact (List.getElem?_inj (List.getElem?_eq_some_iff.mp stamp).1 input.distinct).mp
    (stamp.trans stamp'.symm)

theorem MergeInput.wins (input : MergeInput deltas stable) {j i : Nat} {d : DeltaVersion n α}
    {r : DeltaRow n α} (version : deltas[j]? = some d) (row : d.delta.rows[i]? = some r)
    (newest : Newest deltas d.timestamp r.key) : Wins deltas j d i r := by
  have nonempty : d.delta.rows ≠ [] := List.ne_nil_of_mem (List.mem_of_getElem? row)
  refine ⟨version,row,input.positive d (List.mem_of_getElem? version) nonempty,?_,newest⟩
  intro j' before d' read r' inside same
  apply lt_of_le_of_ne (newest d' (List.mem_of_getElem? read) r' inside same)
  intro equal
  have index := input.timestamp_unique read version equal
  omega

theorem MergeInput.exists_wins (input : MergeInput deltas stable) {d : DeltaVersion n α} (member : d ∈ deltas)
    {r : DeltaRow n α} (inside : r ∈ d.delta.rows) :
    ∃ j d' i r', Wins deltas j d' i r' ∧ r'.key = r.key :=
  LatestVersion.exists_wins member (input.positive d member (List.ne_nil_of_mem inside)) inside

def Survives (deltas : List (DeltaVersion n α)) (stable : TupleSet (Row n α)) (j : Nat)
    (r : DeltaRow n α) : Prop :=
  deleteFlagAfter r.type (keyMatch (deltas.take j) stable r.key).deleteFlag = false

theorem Survives.live {j : Nat} {r : DeltaRow n α} (survives : Survives deltas stable j r) :
    r.type ≠ .delete := by
  intro deleted
  simp [Survives,deleted,deleteFlagAfter] at survives

theorem survives_of_unchanged {j : Nat} {r : DeltaRow n α}
    (unchanged : Unchanged (deltas.take j) r.key) (live : r.type ≠ .delete) :
    Survives deltas stable j r := by
  unfold Survives
  rw [keyMatch_unchanged unchanged]
  cases type : r.type with
  | insert => rfl
  | update => rfl
  | delete => exact absurd type live

theorem keptPosition_eq_some (input : SortedInput deltas stable) (k : PrimaryKey n) (p : Nat) :
    keptPosition deltas stable k = some p ↔
      ∃ j d r, Wins deltas j d p r ∧ r.key = k ∧ Survives deltas stable j r := by
  unfold keptPosition
  constructor
  · intro found
    simp only [Option.ite_none_left_eq_some,Bool.or_eq_true,decide_eq_true_eq,not_or,
      Bool.not_eq_true,Option.some.injEq] at found
    obtain ⟨⟨kept,table⟩,index⟩ := found
    have stamped : ¬∀ d ∈ deltas, ∀ r ∈ d.delta.rows, r.key = k → d.timestamp ≤ 0 := fun unstamped =>
      table (by rw [keyMatch_unstamped unstamped,stableMatch])
    simp only [not_forall,not_le,exists_prop] at stamped
    obtain ⟨d,member,r,inside,rfl,positive⟩ := stamped
    obtain ⟨j,d',i,r',wins,same⟩ := exists_wins member positive inside
    rw [← same,keyMatch_wins input wins] at kept index
    exact ⟨j,d',r',index ▸ wins,same,kept⟩
  · rintro ⟨j,d,r,wins,rfl,survives⟩
    unfold Survives at survives
    rw [keyMatch_wins input wins]
    simp [survives]

theorem keptStable_eq_some (input : MergeInput deltas stable) {k : PrimaryKey n} {s : Nat}
    (located : ∃ r, locate Row.key k stable.rows = some (r,s)) :
    keptStable deltas stable k = some s ↔ Unchanged deltas k := by
  obtain ⟨r,here⟩ := located
  unfold keptStable
  constructor
  · intro found d member r inside same
    obtain ⟨j,d',i,r',wins,key⟩ := input.exists_wins member inside
    rw [← same,← key,keyMatch_wins input.toSortedInput wins] at found
    simp at found
  · intro unchanged
    rw [keyMatch_unchanged unchanged]
    simp [stableMatch,here]

private theorem keptStable_locates (input : MergeInput deltas stable) {keys : List (PrimaryKey n)}
    (merge : MergeKeys deltas stable keys) {k : PrimaryKey n} (member : k ∈ keys) {s : Nat}
    (kept : keptStable deltas stable k = some s) : ∃ r, locate Row.key k stable.rows = some (r,s) := by
  have unchanged : Unchanged deltas k := by
    intro d inside r row same
    obtain ⟨j,d',i,r',wins,key⟩ := input.exists_wins inside row
    rw [← same,← key,keptStable,keyMatch_wins input.toSortedInput wins] at kept
    simp at kept
  rcases (merge.mem_iff k).mp member with ⟨r,row,rfl⟩ | ⟨d,inside,r,row,same⟩
  · obtain ⟨i,read⟩ := List.mem_iff_getElem?.mp row
    have located := input.stableOrder.locate_eq_some.mpr ⟨read,rfl⟩
    rw [keptStable,keyMatch_unchanged unchanged,stableMatch,located] at kept
    simp only [Bool.not_false,decide_true,Bool.and_self,if_true,Option.some.injEq] at kept
    exact ⟨r,kept ▸ located⟩
  · exact absurd same (unchanged d inside r row)

def keptRows (deltas : List (DeltaVersion n α)) (stable : TupleSet (Row n α)) : List Bool :=
  stable.rows.map (fun r => decide (Unchanged deltas r.key))

theorem getDeleteMap_spec (input : MergeInput deltas stable) :
    ∃ keys, MergeKeys deltas stable keys ∧ getDeleteMap deltas [stable] =
      some (keys.filterMap (keptPosition deltas stable),keptRows deltas stable) := by
  obtain ⟨keys,merge,result⟩ := getDeleteMap_eq input.columns input.stableOrder input.deltaOrder
  refine ⟨keys,merge,result.trans ?_⟩
  congr 2
  apply List.ext_getElem (by simp [keptRows,TupleSet.numRows])
  intro s left right
  have bound : s < stable.rows.length := by simpa [keptRows] using right
  have located : locate Row.key (stable.rows[s]).key stable.rows = some (stable.rows[s],s) :=
    input.stableOrder.locate_eq_some.mpr ⟨List.getElem?_eq_getElem bound,rfl⟩
  simp only [List.getElem_map,List.getElem_range,keptRows,decide_eq_decide,List.mem_filterMap]
  constructor
  · rintro ⟨k,member,kept⟩
    obtain ⟨r,here⟩ := keptStable_locates input merge member kept
    obtain ⟨read,rfl⟩ := locate_sound here
    rw [List.getElem?_eq_getElem bound,Option.some.injEq] at read
    rw [read]
    exact (keptStable_eq_some input ⟨r,here⟩).mp kept
  · intro unchanged
    refine ⟨(stable.rows[s]).key,?_,(keptStable_eq_some input ⟨_,located⟩).mpr unchanged⟩
    exact (merge.mem_iff _).mpr (Or.inl ⟨stable.rows[s],List.getElem_mem bound,rfl⟩)

end Decision

end Hermes.LatestVersion
