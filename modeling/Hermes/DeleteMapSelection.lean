import Hermes.LatestVersion

/-! The rows the kernel's result selects.
The positions point into the concatenation of the first and the last delta. The
selection is the latest version of every key exactly when all kept rows come
from one delta that the concatenation starts with. -/
namespace Hermes.DeleteMapSelection
open Hermes.Tuple Hermes.Delta Hermes.DeleteMapGeneratorKernel Hermes.DeleteMapMerge
open Hermes.Library.KeyOrder Hermes.LatestVersion
variable {n : Nat} {α : Type} {deltas : List (DeltaVersion n α)} {stable : TupleSet (Row n α)}

/-- The versions `deltaMerge` concatenates: the first and, if there is another, the last. -/
def combinedVersions (deltas : List (DeltaVersion n α)) : List (DeltaVersion n α) :=
  deltas.take 1 ++ (deltas.drop 1).getLast?.toList

def stampedRows (d : DeltaVersion n α) : List (Int × DeltaRow n α) :=
  d.delta.rows.map (fun r => (d.timestamp,r))

def combinedRows (deltas : List (DeltaVersion n α)) : List (Int × DeltaRow n α) :=
  (combinedVersions deltas).flatMap stampedRows

def Keeps (deltas : List (DeltaVersion n α)) (timestamp : Int) (r : DeltaRow n α) : Prop :=
  r.type ≠ .delete ∧ Newest deltas timestamp r.key

instance (timestamp : Int) (r : DeltaRow n α) : Decidable (Keeps deltas timestamp r) :=
  inferInstanceAs (Decidable (_ ∧ _))

/-- The selected rows are one row for each live key: the newest delta row unless
it is a DELETE, and the stable row of a key no delta has. -/
structure SelectsLatest (deltas : List (DeltaVersion n α)) (stable : TupleSet (Row n α))
    (positions : List Nat) (bitmap : List Bool) : Prop where
  ascending : positions.Pairwise (· < ·)
  chosen : ∀ p, p ∈ positions ↔
    ∃ timestamp r, (combinedRows deltas)[p]? = some (timestamp,r) ∧ Keeps deltas timestamp r
  complete : ∀ d ∈ deltas, ∀ r ∈ d.delta.rows, Keeps deltas d.timestamp r →
    (d.timestamp,r) ∈ combinedRows deltas
  kept : bitmap = keptRows deltas stable

def Contributes (deltas : List (DeltaVersion n α)) (d : DeltaVersion n α) : Prop :=
  ∃ r ∈ d.delta.rows, Keeps deltas d.timestamp r

/-- The events of `k` that are newer than all earlier ones, in load order. -/
def recordEvents (k : PrimaryKey n) : Int → List (DeltaVersion n α) → List EventType
  | _, [] => []
  | minTimeStamp, d::deltas =>
    match locate (·.key) k d.delta.rows with
    | none => recordEvents k minTimeStamp deltas
    | some (r,_) =>
      if d.timestamp > minTimeStamp then r.type :: recordEvents k d.timestamp deltas
      else recordEvents k minTimeStamp deltas

def deleteHeld (deltas : List (DeltaVersion n α)) (k : PrimaryKey n) : Bool :=
  (recordEvents k 0 deltas).foldl (fun held type => deleteFlagAfter type held) false

private theorem matchKey_deleteFlag (k : PrimaryKey n) (deltas : List (DeltaVersion n α)) (s : Nat)
    (found : Match) :
    (matchKey k s deltas found).deleteFlag =
      (recordEvents k found.minTimeStamp deltas).foldl (fun held type => deleteFlagAfter type held)
        found.deleteFlag := by
  induction deltas generalizing s found with
  | nil => rfl
  | cons d deltas ih =>
    unfold matchKey recordEvents
    cases locate (fun r : DeltaRow n α => r.key) k d.delta.rows with
    | none => exact ih (s+1) found
    | some entry =>
      rw [ih]
      by_cases newer : d.timestamp > found.minTimeStamp
      · simp only [matchRow,if_pos newer,List.foldl_cons]
      · simp only [matchRow,if_neg newer]

theorem keyMatch_deleteFlag (k : PrimaryKey n) :
    (keyMatch deltas stable k).deleteFlag = deleteHeld deltas k :=
  matchKey_deleteFlag k deltas 1 (stableMatch stable k)

/-- All kept rows come from the first version, or the first version is empty, they
all come from the last one, and no DELETE is held against them. -/
def KeptFromOne (deltas : List (DeltaVersion n α)) : Prop :=
  match deltas with
  | [] => True
  | first::rest => (∀ d ∈ rest, ¬Contributes deltas d) ∨
    (first.delta.rows = [] ∧ ∃ middle last, rest = middle ++ [last] ∧
      (∀ d ∈ middle, ¬Contributes deltas d) ∧
      ∀ r ∈ last.delta.rows, Keeps deltas last.timestamp r →
        deleteFlagAfter r.type (deleteHeld (first::middle) r.key) = false)

private theorem stampedRows_getElem? (d : DeltaVersion n α) (p : Nat) (timestamp : Int) (r : DeltaRow n α) :
    (stampedRows d)[p]? = some (timestamp,r) ↔ d.delta.rows[p]? = some r ∧ d.timestamp = timestamp := by
  unfold stampedRows
  rw [List.getElem?_map,Option.map_eq_some_iff]
  constructor
  · rintro ⟨r',read,same⟩
    obtain ⟨stamp,rfl⟩ := Prod.mk.inj same
    exact ⟨read,stamp⟩
  · rintro ⟨read,rfl⟩
    exact ⟨r,read,rfl⟩

/-- All live winning rows stand in version `j`, which the concatenation starts with. -/
structure OneVersion (deltas : List (DeltaVersion n α)) (j : Nat) (d : DeltaVersion n α)
    (rest : List (Int × DeltaRow n α)) : Prop where
  version : deltas[j]? = some d
  layout : combinedRows deltas = stampedRows d ++ rest
  only : ∀ j' d' i r, Wins deltas j' d' i r → r.type ≠ .delete → j' = j

/-- Besides, no DELETE is held against these rows, and no other row has to be kept. -/
structure SingleSource (deltas : List (DeltaVersion n α)) (stable : TupleSet (Row n α)) (j : Nat)
    (d : DeltaVersion n α) (rest : List (Int × DeltaRow n α)) : Prop extends OneVersion deltas j d rest where
  flag : ∀ i r, Wins deltas j d i r → r.type ≠ .delete → Survives deltas stable j r
  others : ∀ pair ∈ rest, ¬Keeps deltas pair.1 pair.2

private theorem combinedRows_last (first last : DeltaVersion n α) (middle : List (DeltaVersion n α)) :
    combinedRows (first::(middle ++ [last])) = stampedRows first ++ stampedRows last := by
  simp [combinedRows,combinedVersions]

private theorem wins_contributes {j i : Nat} {d : DeltaVersion n α} {r : DeltaRow n α}
    (wins : Wins deltas j d i r) (live : r.type ≠ .delete) : Contributes deltas d :=
  ⟨r,List.mem_of_getElem? wins.row,live,wins.newest⟩

theorem singleSource_first {first : DeltaVersion n α} {rest : List (DeltaVersion n α)}
    (covered : ∀ d ∈ rest, ¬Contributes (first::rest) d) :
    SingleSource (first::rest) stable 0 first (rest.getLast?.toList.flatMap stampedRows) := by
  refine ⟨⟨rfl,?_,?_⟩,?_,?_⟩
  · simp [combinedRows,combinedVersions]
  · intro j' d' i r wins live
    cases j' with
    | zero => rfl
    | succ j' =>
      have inside : d' ∈ rest := List.mem_of_getElem? (by simpa using wins.version)
      exact absurd (wins_contributes wins live) (covered d' inside)
  · exact fun i r _ live => survives_of_unchanged (by simp [Unchanged]) live
  · intro pair member keeps
    obtain ⟨last,here,inside⟩ := List.mem_flatMap.mp member
    obtain ⟨r,row,rfl⟩ := List.mem_map.mp inside
    exact covered last (List.mem_of_getLast? (by simpa using here)) ⟨r,row,keeps⟩

theorem singleSource_last {first last : DeltaVersion n α} {middle : List (DeltaVersion n α)}
    (empty : first.delta.rows = [])
    (covered : ∀ d ∈ middle, ¬Contributes (first::(middle ++ [last])) d)
    (lifted : ∀ r ∈ last.delta.rows, Keeps (first::(middle ++ [last])) last.timestamp r →
      deleteFlagAfter r.type (deleteHeld (first::middle) r.key) = false) :
    SingleSource (first::(middle ++ [last])) stable (middle.length+1) last [] := by
  refine ⟨⟨by simp,?_,?_⟩,?_,by simp⟩
  · simp [combinedRows_last,stampedRows,empty]
  · intro j' d' i r wins live
    have read := wins.version
    cases j' with
    | zero =>
      rw [List.getElem?_cons_zero,Option.some.injEq] at read
      simpa [← read,empty] using wins.row
    | succ j' =>
      rw [List.getElem?_cons_succ] at read
      have bound := (List.getElem?_eq_some_iff.mp read).1
      rw [List.length_append,List.length_singleton] at bound
      by_cases before : j' < middle.length
      · rw [List.getElem?_append_left before] at read
        exact absurd (wins_contributes wins live) (covered d' (List.mem_of_getElem? read))
      · omega
  · intro i r wins live
    have prefix_ : (first::(middle ++ [last])).take (middle.length+1) = first::middle := by simp
    unfold Survives
    rw [prefix_,keyMatch_deleteFlag]
    exact lifted r (List.mem_of_getElem? wins.row) ⟨live,wins.newest⟩

theorem exists_singleSource (stable : TupleSet (Row n α)) (nonempty : deltas ≠ []) (condition : KeptFromOne deltas) :
    ∃ j d rest, SingleSource deltas stable j d rest := by
  cases deltas with
  | nil => exact absurd rfl nonempty
  | cons first rest =>
    rcases condition with covered | ⟨empty,middle,last,rfl,covered,lifted⟩
    · exact ⟨0,first,_,singleSource_first covered⟩
    · exact ⟨middle.length+1,last,[],singleSource_last empty covered lifted⟩

theorem mem_positions {keys : List (PrimaryKey n)} (input : SortedInput deltas stable)
    (merge : MergeKeys deltas stable keys) (p : Nat) :
    p ∈ keys.filterMap (keptPosition deltas stable) ↔
      ∃ j d r, Wins deltas j d p r ∧ Survives deltas stable j r := by
  rw [List.mem_filterMap]
  constructor
  · rintro ⟨k,_,kept⟩
    obtain ⟨j,d,r,wins,_,survives⟩ := (keptPosition_eq_some input k p).mp kept
    exact ⟨j,d,r,wins,survives⟩
  · rintro ⟨j,d,r,wins,survives⟩
    refine ⟨r.key,(merge.mem_iff _).mpr (Or.inr ?_),
      (keptPosition_eq_some input r.key p).mpr ⟨j,d,r,wins,rfl,survives⟩⟩
    exact ⟨d,List.mem_of_getElem? wins.version,r,List.mem_of_getElem? wins.row,rfl⟩

namespace OneVersion
variable {j : Nat} {d : DeltaVersion n α} {rest : List (Int × DeltaRow n α)}
  (source : OneVersion deltas j d rest)
include source

private theorem located {j' p : Nat} {d' : DeltaVersion n α} {r : DeltaRow n α}
    (wins : Wins deltas j' d' p r) (live : r.type ≠ .delete) : d' = d := by
  have here := source.only j' d' p r wins live
  subst here
  exact Option.some.inj (wins.version.symm.trans source.version)

theorem ascending {keys : List (PrimaryKey n)} (input : SortedInput deltas stable)
    (merge : MergeKeys deltas stable keys) :
    (keys.filterMap (keptPosition deltas stable)).Pairwise (· < ·) := by
  have order := input.deltaOrder d (List.mem_of_getElem? source.version)
  rw [List.pairwise_filterMap]
  apply merge.ascending.imp
  intro k k' less p kept p' kept'
  obtain ⟨j₁,d₁,r,wins,rfl,survives⟩ := (keptPosition_eq_some input k p).mp kept
  obtain ⟨j₂,d₂,r',wins',rfl,survives'⟩ := (keptPosition_eq_some input k' p').mp kept'
  obtain rfl := source.located wins survives.live
  obtain rfl := source.located wins' survives'.live
  exact (order.index_lt wins.row wins'.row).mpr less

theorem rows_ascending {keys : List (PrimaryKey n)} (input : SortedInput deltas stable)
    (merge : MergeKeys deltas stable keys) :
    Ascending (·.key) ((keys.filterMap (keptPosition deltas stable)).filterMap
      (((combinedRows deltas).map (·.2))[·]?)) := by
  have order := input.deltaOrder d (List.mem_of_getElem? source.version)
  have read : ∀ p ∈ keys.filterMap (keptPosition deltas stable), ∀ r,
      ((combinedRows deltas).map (·.2))[p]? = some r → d.delta.rows[p]? = some r := by
    intro p member r found
    obtain ⟨j',d',r',wins,survives⟩ := (mem_positions input merge p).mp member
    obtain rfl := source.located wins survives.live
    rw [source.layout,List.map_append,List.getElem?_append_left] at found
    · simpa [stampedRows,Function.comp_def] using found
    · simpa [stampedRows] using (List.getElem?_eq_some_iff.mp wins.row).1
  unfold Ascending
  rw [List.pairwise_filterMap]
  refine List.Pairwise.imp_of_mem ?_ (source.ascending input merge)
  intro p p' member member' less r found r' found'
  exact (order.index_lt (read p member r found) (read p' member' r' found')).mp less

end OneVersion

namespace SingleSource
variable {j : Nat} {d : DeltaVersion n α} {rest : List (Int × DeltaRow n α)}
  (source : SingleSource deltas stable j d rest)
include source

theorem positions_iff {keys : List (PrimaryKey n)} (input : MergeInput deltas stable)
    (merge : MergeKeys deltas stable keys) (p : Nat) :
    p ∈ keys.filterMap (keptPosition deltas stable) ↔
      ∃ r, d.delta.rows[p]? = some r ∧ Keeps deltas d.timestamp r := by
  rw [mem_positions input.toSortedInput merge]
  constructor
  · rintro ⟨j',d',r,wins,survives⟩
    obtain rfl := source.located wins survives.live
    exact ⟨r,wins.row,survives.live,wins.newest⟩
  · rintro ⟨r,row,live,newest⟩
    have wins : Wins deltas j d p r := input.wins source.version row newest
    exact ⟨j,d,r,wins,source.flag p r wins live⟩

theorem selects {keys : List (PrimaryKey n)} (input : MergeInput deltas stable)
    (merge : MergeKeys deltas stable keys) :
    SelectsLatest deltas stable (keys.filterMap (keptPosition deltas stable)) (keptRows deltas stable) := by
  refine ⟨source.ascending input.toSortedInput merge,?_,?_,rfl⟩
  · intro p
    rw [source.positions_iff input merge,source.layout]
    constructor
    · rintro ⟨r,row,keeps⟩
      have read := (stampedRows_getElem? d p d.timestamp r).mpr ⟨row,rfl⟩
      refine ⟨d.timestamp,r,?_,keeps⟩
      rw [List.getElem?_append_left (List.getElem?_eq_some_iff.mp read).1]
      exact read
    · rintro ⟨timestamp,r,read,keeps⟩
      by_cases inside : p < (stampedRows d).length
      · rw [List.getElem?_append_left inside] at read
        obtain ⟨row,rfl⟩ := (stampedRows_getElem? d p timestamp r).mp read
        exact ⟨r,row,keeps⟩
      · rw [List.getElem?_append_right (not_lt.mp inside)] at read
        exact absurd keeps (source.others (timestamp,r) (List.mem_of_getElem? read))
  · intro d' member r inside keeps
    obtain ⟨j',version⟩ := List.mem_iff_getElem?.mp member
    obtain ⟨i,row⟩ := List.mem_iff_getElem?.mp inside
    obtain rfl := source.located (input.wins version row keeps.2) keeps.1
    rw [source.layout]
    exact List.mem_append_left _ (List.mem_map.mpr ⟨r,inside,rfl⟩)

end SingleSource

/-- A row to be kept from the last of several versions would need a position past
all others when the first version has rows. -/
private theorem not_keeps_last {keys : List (PrimaryKey n)} {first last : DeltaVersion n α}
    {middle : List (DeltaVersion n α)} (input : MergeInput (first::(middle ++ [last])) stable)
    (merge : MergeKeys (first::(middle ++ [last])) stable keys)
    (chosen : ∀ p r, (combinedRows (first::(middle ++ [last])))[p]? = some (last.timestamp,r) →
      Keeps (first::(middle ++ [last])) last.timestamp r →
      p ∈ keys.filterMap (keptPosition (first::(middle ++ [last])) stable))
    (covered : ∀ d ∈ middle, ¬Contributes (first::(middle ++ [last])) d)
    (nonempty : first.delta.rows ≠ []) (room i : Nat) (short : last.delta.rows.length - i ≤ room)
    {r : DeltaRow n α} (read : last.delta.rows[i]? = some r) :
    ¬Keeps (first::(middle ++ [last])) last.timestamp r := by
  intro keeps
  induction room generalizing i r with
  | zero =>
    have bound := (List.getElem?_eq_some_iff.mp read).1
    omega
  | succ room ih =>
    have size : 0 < first.delta.rows.length := List.length_pos_iff.mpr nonempty
    have place : (combinedRows (first::(middle ++ [last])))[first.delta.rows.length+i]? =
        some (last.timestamp,r) := by
      rw [combinedRows_last,List.getElem?_append_right (by simp [stampedRows])]
      apply (stampedRows_getElem? last _ last.timestamp r).mpr
      simpa [stampedRows] using read
    obtain ⟨j,d,r',wins,survives⟩ := (mem_positions input.toSortedInput merge _).mp (chosen _ r place keeps)
    have row := wins.row
    have version := wins.version
    cases j with
    | zero =>
      rw [List.getElem?_cons_zero,Option.some.injEq] at version
      subst version
      have bound := (List.getElem?_eq_some_iff.mp row).1
      omega
    | succ j =>
      rw [List.getElem?_cons_succ] at version
      rcases List.mem_append.mp (List.mem_of_getElem? version) with inside | single
      · exact covered d inside (wins_contributes wins survives.live)
      · rw [List.mem_singleton] at single
        subst single
        exact ih _ (by omega) row ⟨survives.live,wins.newest⟩

private theorem keptFromOne_of_selects {keys : List (PrimaryKey n)} (input : MergeInput deltas stable)
    (merge : MergeKeys deltas stable keys)
    (selects : SelectsLatest deltas stable (keys.filterMap (keptPosition deltas stable))
      (keptRows deltas stable)) : KeptFromOne deltas := by
  cases deltas with
  | nil => trivial
  | cons first rest =>
    rcases List.eq_nil_or_concat rest with rfl | ⟨middle,last,rfl⟩
    · exact Or.inl (by simp)
    · rw [List.concat_eq_append] at *
      have covered : ∀ d ∈ middle, ¬Contributes (first::(middle ++ [last])) d := by
        rintro d inside ⟨r,member,keeps⟩
        obtain ⟨j,read⟩ := List.mem_iff_getElem?.mp inside
        have bound := (List.getElem?_eq_some_iff.mp read).1
        have version : (first::(middle ++ [last]))[j+1]? = some d := by
          rw [List.getElem?_cons_succ,List.getElem?_append_left bound,read]
        have found := selects.complete d (by simp [inside]) r member keeps
        rw [combinedRows_last] at found
        rcases List.mem_append.mp found with here | here
        · obtain ⟨_,_,stamp⟩ := List.mem_map.mp here
          have zero := input.timestamp_unique (j := 0) rfl version (Prod.mk.inj stamp).1
          omega
        · obtain ⟨_,_,stamp⟩ := List.mem_map.mp here
          have final : (first::(middle ++ [last]))[middle.length+1]? = some last := by simp
          have index := input.timestamp_unique final version (Prod.mk.inj stamp).1
          omega
      by_cases empty : first.delta.rows = []
      · refine Or.inr ⟨empty,middle,last,rfl,covered,?_⟩
        intro r member keeps
        obtain ⟨i,row⟩ := List.mem_iff_getElem?.mp member
        have place : (combinedRows (first::(middle ++ [last])))[i]? = some (last.timestamp,r) := by
          rw [combinedRows_last]
          simpa [stampedRows,empty] using row
        obtain ⟨j,d,r',wins,survives⟩ :=
          (mem_positions input.toSortedInput merge i).mp ((selects.chosen i).mpr ⟨last.timestamp,r,place,keeps⟩)
        have version := wins.version
        cases j with
        | zero =>
          rw [List.getElem?_cons_zero,Option.some.injEq] at version
          simpa [← version,empty] using wins.row
        | succ j =>
          rw [List.getElem?_cons_succ] at version
          have bound := (List.getElem?_eq_some_iff.mp version).1
          rw [List.length_append,List.length_singleton] at bound
          by_cases before : j < middle.length
          · rw [List.getElem?_append_left before] at version
            exact absurd (wins_contributes wins survives.live) (covered d (List.mem_of_getElem? version))
          · have index : j = middle.length := by omega
            subst index
            have final : last = d := by simpa using version
            subst final
            have same : r' = r := Option.some.inj (wins.row.symm.trans row)
            subst same
            have prefix_ : (first::(middle ++ [last])).take (middle.length+1) = first::middle := by simp
            unfold Survives at survives
            rw [prefix_,keyMatch_deleteFlag] at survives
            exact survives
      · refine Or.inl ?_
        intro d inside contributes
        rcases List.mem_append.mp inside with within | single
        · exact covered d within contributes
        · rw [List.mem_singleton.mp single] at contributes
          obtain ⟨r,member,keeps⟩ := contributes
          obtain ⟨i,row⟩ := List.mem_iff_getElem?.mp member
          exact not_keeps_last input merge (fun p r read keeps => (selects.chosen p).mpr ⟨_,r,read,keeps⟩)
            covered empty _ i (le_refl _) row keeps

/-- Any number of versions: the kernel selects the latest version of every key
exactly when all kept rows come from one version the concatenation starts with. -/
theorem selectsLatest_iff (input : MergeInput deltas stable) (nonempty : deltas ≠ []) :
    (∃ positions bitmap, getDeleteMap deltas [stable] = some (positions,bitmap) ∧
      SelectsLatest deltas stable positions bitmap) ↔ KeptFromOne deltas := by
  obtain ⟨keys,merge,result⟩ := getDeleteMap_spec input
  constructor
  · rintro ⟨positions,bitmap,returned,selects⟩
    rw [result,Option.some.injEq,Prod.mk.injEq] at returned
    obtain ⟨rfl,rfl⟩ := returned
    exact keptFromOne_of_selects input merge selects
  · intro condition
    obtain ⟨j,d,rest,source⟩ := exists_singleSource stable nonempty condition
    exact ⟨_,_,result,source.selects input merge⟩

/-- Nothing has to be kept from a second delta that follows a non-empty one. -/
def KeptFromFirst : List (DeltaVersion n α) → Prop
  | [first,second] => first.delta.rows = [] ∨ ∀ r ∈ second.delta.rows,
      r.type = .delete ∨ ∃ r' ∈ first.delta.rows, r'.key = r.key ∧ second.timestamp < first.timestamp
  | _ => True

theorem keptFromOne_iff (versions : deltas.length = 1 ∨ deltas.length = 2) :
    KeptFromOne deltas ↔ KeptFromFirst deltas := by
  rcases versions with one | two
  · obtain ⟨d,rfl⟩ := List.length_eq_one_iff.mp one
    simp [KeptFromOne,KeptFromFirst]
  · obtain ⟨first,second,rfl⟩ := List.length_eq_two.mp two
    have stale : (∀ r ∈ second.delta.rows, r.type = .delete ∨ ∃ r' ∈ first.delta.rows,
        r'.key = r.key ∧ second.timestamp < first.timestamp) ↔ ¬Contributes [first,second] second := by
      simp only [Contributes,Keeps,Newest,List.mem_cons,List.not_mem_nil,or_false,forall_eq_or_imp,
        forall_eq,not_exists,not_and,not_forall,not_le,le_refl,implies_true,and_true,exists_prop]
      apply forall_congr'
      intro r
      apply forall_congr'
      intro _
      exact or_iff_not_imp_left
    constructor
    · rintro (covered | ⟨empty,_⟩)
      · exact Or.inr (stale.mpr (covered second (by simp)))
      · exact Or.inl empty
    · rintro (empty | covered)
      · refine Or.inr ⟨empty,[],second,rfl,by simp,?_⟩
        intro r _ keeps
        have none_held : deleteHeld [first] r.key = false := by
          simp [deleteHeld,recordEvents,locate,empty]
        rw [none_held]
        cases type : r.type with
        | insert => rfl
        | update => rfl
        | delete => exact absurd type keeps.1
      · exact Or.inl (by simpa using stale.mp covered)

section Examples

/-- A stable table with key 1, an older delta that inserts key 7 and a newer one
that inserts key 5, the newer first. -/
def newerThenOlder : List (DeltaVersion 1 Unit) :=
  [⟨.ofRows [⟨⟨singleKey 5,()⟩,.insert⟩],2⟩,⟨.ofRows [⟨⟨singleKey 7,()⟩,.insert⟩],1⟩]

def oneStableRow : TupleSet (Row 1 Unit) := .ofRows [⟨singleKey 1,()⟩]

theorem newerThenOlder_input : MergeInput newerThenOlder oneStableRow :=
  ⟨⟨by decide,by decide,by decide⟩,by decide,by decide⟩

theorem getDeleteMap_newerThenOlder :
    getDeleteMap newerThenOlder [oneStableRow] = some ([0,0],[true]) := by decide

def updatedInNewer : List (DeltaVersion 1 Unit) :=
  [⟨.ofRows [⟨⟨singleKey 5,()⟩,.update⟩,⟨⟨singleKey 7,()⟩,.insert⟩],2⟩,
    ⟨.ofRows [⟨⟨singleKey 5,()⟩,.insert⟩],1⟩]

end Examples

end Hermes.DeleteMapSelection
