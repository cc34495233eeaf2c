import Hermes.DeltaCacheActor
import Hermes.DeltaMergeResult
import Hermes.Library.Transition

/-! Rounds of pump, merge and store for one partition.
The cache keeps the merged delta of the last round only, so a round is right
when that delta still stands for everything pumped before it. -/
namespace Hermes.DeltaMergeRounds
open Hermes.Tuple Hermes.Delta Hermes.DeleteMapGeneratorKernel Hermes.DeltaMergePOp Hermes.DeltaCacheActor
open Hermes.LatestVersion Hermes.DeleteMapSelection Hermes.DeltaMergeResult
open Hermes.Library.KeyOrder Hermes.Library.Overlay Hermes.Library.Transition
variable {τ : Type} [DecidableEq τ] {columns : τ → Nat} {payload : τ → Type} {σ : Type}

/-- The deltas of the tables: `columns` gives the width of a table's key. -/
abbrev TableDelta (columns : τ → Nat) (payload : τ → Type) (table : τ) : Type :=
  TupleSet (DeltaRow (columns table) (payload table))

abbrev ActorState (columns : τ → Nat) (payload : τ → Type) :=
  DeltaCacheActorState (TableDelta columns payload) (List Bool)

/-- One round: what the pump finds, and the order in which the versions are loaded. -/
structure Round (columns : τ → Nat) (payload : τ → Type) (table : τ) where
  pump : Pump (TableDelta columns payload)
  loaded : List (DeltaVersion (columns table) (payload table))

variable {table : τ} (reader : TableBatchReader) (project : Row (columns table) (payload table) → σ)
  (stable : TupleSet (Row (columns table) (payload table))) (partition : Int)

/-- The batches a round emits and the state it leaves. -/
def mergeRound (state : ActorState columns payload) (round : Round columns payload table) :
    Option (List (List σ) × ActorState columns payload) := do
  let pumped := deltaPump state round.pump
  let (emitted,merged) ← deltaMerge reader project round.loaded [stable]
  some (emitted,match merged with
    | none => pumped
    | some msg => storeMergedDelta pumped table partition msg)

/-- All deltas pumped for the partition, oldest first, and the latest timestamp seen. -/
structure Log (columns : τ → Nat) (payload : τ → Type) (table : τ) where
  versions : List (List (DeltaRow (columns table) (payload table)))
  clock : Int

def pumped (round : Round columns payload table) : List (List (DeltaRow (columns table) (payload table))) :=
  (round.pump.delta table partition).toList.map TupleSet.rows

def Log.after (log : Log columns payload table) (round : Round columns payload table) :
    Log columns payload table :=
  ⟨log.versions ++ pumped partition round,max log.clock round.pump.timestamp⟩

/-- The rounds that can occur: a delta is ascending and newer than all before,
and the merge loads what is cached, in some order. -/
structure Occurs (state : ActorState columns payload) (log : Log columns payload table)
    (round : Round columns payload table) : Prop where
  order : ∀ version ∈ pumped partition round, Ascending (·.key) version
  newer : round.pump.delta table partition ≠ none → log.clock < round.pump.timestamp
  stamp : round.pump.timestamp = 0 ∨ log.clock < round.pump.timestamp
  loaded : round.loaded.Perm (((deltaPump state round.pump).cache table).load partition)

/-- When a round is right: no record batch of the stable table is empty where
deltas are merged into it, no loaded version is stamped 0, all kept delta rows
come from one version, every record batch keeps a row, and no stable row whose
DELETE was merged in an earlier round is left without a new event. -/
structure Mergeable (log : Log columns payload table) (round : Round columns payload table) : Prop where
  filled : round.loaded ≠ [] → StableFilled reader stable
  positive : ∀ d ∈ round.loaded, d.delta.rows ≠ [] → 0 < d.timestamp
  one : KeptFromOne round.loaded
  batches : EveryBatchKeeps reader round.loaded
  deleted : ∀ r ∈ stable.rows, ∀ c, newest (keyed _ _) log.versions r.key = some c → c.type = .delete →
    ∃ version ∈ pumped partition round, r.key ∈ version.map (·.key)

def latest (log : Log columns payload table) : List (Row (columns table) (payload table)) :=
  replay (keyed _ _) stable.rows log.versions

def RoundTo (before : ActorState columns payload × Log columns payload table)
    (round : Round columns payload table) (after : ActorState columns payload × Log columns payload table) : Prop :=
  Occurs partition before.1 before.2 round ∧
    (∃ emitted, mergeRound reader project stable partition before.1 round = some (emitted,after.1)) ∧
      after.2 = before.2.after partition round

/-- What is cached stands for everything pumped: the live newest rows. -/
structure Tracks (state : ActorState columns payload) (log : Log columns payload table) : Prop where
  versions : ∀ version ∈ log.versions, Ascending (·.key) version
  single : ((state.cache table).load partition).length ≤ 1
  ascending : ∀ d ∈ (state.cache table).load partition, Ascending (·.key) d.delta.rows
  rows : ∀ r, (∃ d ∈ (state.cache table).load partition, r ∈ d.delta.rows) ↔
    newest (keyed _ _) log.versions r.key = some r ∧ r.type ≠ .delete
  empty : (state.cache table).load partition = [] → log.versions = []
  stamped : ∀ d ∈ (state.cache table).load partition, d.timestamp ≤ log.clock
  last : state.lastTimestamp ≤ log.clock
  clock : 0 ≤ log.clock

omit [DecidableEq τ] in
theorem tracks_initial : Tracks partition (makeBehaviour (TableDelta columns payload) (List Bool))
    (⟨[],0⟩ : Log columns payload table) := by
  refine ⟨by simp,by simp [makeBehaviour],by simp [makeBehaviour],?_,fun _ => rfl,
    by simp [makeBehaviour],by simp [makeBehaviour],le_refl _⟩
  simp [makeBehaviour,newest]

section Step
variable {reader project stable partition}
variable {state : ActorState columns payload} {log : Log columns payload table}
  {round : Round columns payload table}

omit [DecidableEq τ] in
private theorem mem_loaded (occurs : Occurs partition state log round)
    (d : DeltaVersion (columns table) (payload table)) :
    d ∈ round.loaded ↔ (∃ delta, round.pump.delta table partition = some delta ∧
      d = ⟨delta,round.pump.timestamp⟩) ∨ d ∈ (state.cache table).load partition := by
  rw [occurs.loaded.mem_iff,load_deltaPump]
  simp [eq_comm]

omit [DecidableEq τ] in
private theorem mem_pumped (version : List (DeltaRow (columns table) (payload table))) :
    version ∈ pumped partition round ↔
      ∃ delta, round.pump.delta table partition = some delta ∧ version = delta.rows := by
  simp [pumped,eq_comm]

omit [DecidableEq τ] in
theorem loaded_input (width : 0 < columns table) (order : Ascending Row.key stable.rows)
    (tracks : Tracks partition state log) (occurs : Occurs partition state log round)
    (positive : ∀ d ∈ round.loaded, d.delta.rows ≠ [] → 0 < d.timestamp) :
    MergeInput round.loaded stable := by
  refine ⟨⟨width,order,?_⟩,?_,positive⟩
  · intro d member
    rcases (mem_loaded occurs d).mp member with ⟨delta,found,rfl⟩ | cached
    · exact occurs.order _ ((mem_pumped _).mpr ⟨delta,found,rfl⟩)
    · exact tracks.ascending d cached
  · rw [(occurs.loaded.map _).nodup_iff,load_deltaPump]
    have old : (((state.cache table).load partition).map (·.timestamp)).Nodup := by
      have single := tracks.single
      match (state.cache table).load partition, single with
      | [], _ => simp
      | [d], _ => simp
    cases found : round.pump.delta table partition with
    | none => simpa using old
    | some delta =>
      refine List.nodup_cons.mpr ⟨?_,old⟩
      intro member
      obtain ⟨d,cached,same⟩ := List.mem_map.mp member
      have newer := occurs.newer (by simp [found])
      have bound := tracks.stamped d cached
      simp only at same
      omega

omit [DecidableEq τ] in
private theorem keeps_iff (tracks : Tracks partition state log) (occurs : Occurs partition state log round)
    (r : DeltaRow (columns table) (payload table)) :
    (∃ d ∈ round.loaded, r ∈ d.delta.rows ∧ Keeps round.loaded d.timestamp r) ↔
      newest (keyed _ _) (log.versions ++ pumped partition round) r.key = some r ∧ r.type ≠ .delete := by
  have cachedNewest : ∀ d ∈ (state.cache table).load partition,
      (Newest round.loaded d.timestamp r.key ↔
        ∀ delta, round.pump.delta table partition = some delta → r.key ∉ delta.rows.map (·.key)) := by
    intro d cached
    constructor
    · intro newest delta found member
      obtain ⟨r',inside,same⟩ := List.mem_map.mp member
      have bound := newest ⟨delta,round.pump.timestamp⟩
        ((mem_loaded occurs _).mpr (Or.inl ⟨delta,found,rfl⟩)) r' inside same
      have newer := occurs.newer (by simp [found])
      have old := tracks.stamped d cached
      simp only at bound
      omega
    · intro absent d' member r' inside same
      rcases (mem_loaded occurs d').mp member with ⟨delta,found,rfl⟩ | cached'
      · exact absurd (List.mem_map.mpr ⟨r',inside,same⟩) (absent delta found)
      · have equal : d' = d := by
          have single := tracks.single
          obtain ⟨i,read⟩ := List.mem_iff_getElem?.mp cached
          obtain ⟨j,read'⟩ := List.mem_iff_getElem?.mp cached'
          have left := (List.getElem?_eq_some_iff.mp read).1
          have right := (List.getElem?_eq_some_iff.mp read').1
          have index : i = j := by omega
          subst index
          exact Option.some.inj (read'.symm.trans read)
        rw [equal]
  cases found : round.pump.delta table partition with
  | none =>
    have nothing : pumped partition round = [] := by simp [pumped,found]
    rw [nothing,List.append_nil,← tracks.rows r]
    constructor
    · rintro ⟨d,member,inside,_⟩
      rcases (mem_loaded occurs d).mp member with ⟨delta,some_,_⟩ | cached
      · simp [found] at some_
      · exact ⟨d,cached,inside⟩
    · rintro ⟨d,cached,inside⟩
      refine ⟨d,(mem_loaded occurs d).mpr (Or.inr cached),inside,?_,?_⟩
      · exact ((tracks.rows r).mp ⟨d,cached,inside⟩).2
      · exact (cachedNewest d cached).mpr (by simp [found])
  | some delta =>
    have one : pumped partition round = [delta.rows] := by simp [pumped,found]
    have order := occurs.order delta.rows (by simp [one])
    have freshNewest : Newest round.loaded round.pump.timestamp r.key := by
      intro d member r' _ _
      rcases (mem_loaded occurs d).mp member with ⟨_,_,rfl⟩ | cached
      · exact le_refl _
      · have newer := occurs.newer (by simp [found])
        have old := tracks.stamped d cached
        omega
    rw [one,newest_concat]
    constructor
    · rintro ⟨d,member,inside,live,newest⟩
      rcases (mem_loaded occurs d).mp member with ⟨delta',same,rfl⟩ | cached
      · rw [found,Option.some.injEq] at same
        subst same
        have here := (lookup_eq_some (keyed _ _) order.nodup_keys).mpr ⟨inside,rfl⟩
        rw [show r.key = (keyed _ _).change r from rfl,here]
        exact ⟨rfl,live⟩
      · have absent := (cachedNewest d cached).mp newest delta found
        have missing : lookup (keyed _ _) delta.rows r.key = none :=
          (lookup_eq_none (keyed _ _)).mpr absent
        rw [missing,Option.none_or]
        exact (tracks.rows r).mp ⟨d,cached,inside⟩
    · rintro ⟨same,live⟩
      cases here : lookup (keyed _ _) delta.rows r.key with
      | some c =>
        rw [here,Option.some_or,Option.some.injEq] at same
        subst same
        have inside := ((lookup_eq_some (keyed _ _) order.nodup_keys).mp here).1
        exact ⟨⟨delta,round.pump.timestamp⟩,(mem_loaded occurs _).mpr (Or.inl ⟨delta,found,rfl⟩),
          inside,live,freshNewest⟩
      | none =>
        rw [here,Option.none_or] at same
        obtain ⟨d,cached,inside⟩ := (tracks.rows r).mpr ⟨same,live⟩
        refine ⟨d,(mem_loaded occurs d).mpr (Or.inr cached),inside,live,(cachedNewest d cached).mpr ?_⟩
        intro delta' some_
        rw [found,Option.some.injEq] at some_
        subst some_
        exact (lookup_eq_none (keyed _ _)).mp here

omit [DecidableEq τ] in
private theorem unchanged_iff (tracks : Tracks partition state log)
    (occurs : Occurs partition state log round) (mergeable : Mergeable reader stable partition log round)
    {r : Row (columns table) (payload table)} (member : r ∈ stable.rows) :
    Unchanged round.loaded r.key ↔
      newest (keyed _ _) (log.versions ++ pumped partition round) r.key = none := by
  have fresh : (∀ version ∈ pumped partition round, r.key ∉ version.map (·.key)) →
      newest (keyed _ _) (log.versions ++ pumped partition round) r.key =
        newest (keyed _ _) log.versions r.key := by
    intro absent
    cases found : round.pump.delta table partition with
    | none => simp [pumped,found]
    | some delta =>
      have one : pumped partition round = [delta.rows] := by simp [pumped,found]
      have missing : lookup (keyed _ _) delta.rows r.key = none :=
        (lookup_eq_none (keyed _ _)).mpr (absent delta.rows (by simp [one]))
      rw [one,newest_concat,missing,Option.none_or]
  constructor
  · intro unchanged
    have absent : ∀ version ∈ pumped partition round, r.key ∉ version.map (·.key) := by
      intro version inside touched
      obtain ⟨delta,found,rfl⟩ := (mem_pumped version).mp inside
      obtain ⟨r',row,same⟩ := List.mem_map.mp touched
      exact unchanged _ ((mem_loaded occurs _).mpr (Or.inl ⟨delta,found,rfl⟩)) r' row same
    rw [fresh absent]
    cases old : newest (keyed _ _) log.versions r.key with
    | none => rfl
    | some c =>
      by_cases live : c.type = .delete
      · obtain ⟨version,inside,touched⟩ := mergeable.deleted r member c old live
        exact absurd touched (absent version inside)
      · have key : c.key = r.key := (newest_mem (keyed _ _) old).2
        obtain ⟨d,cached,row⟩ := (tracks.rows c).mpr ⟨by rw [key]; exact old,live⟩
        exact absurd key (unchanged d ((mem_loaded occurs d).mpr (Or.inr cached)) c row)
  · intro nothing d inside r' row same
    rcases (mem_loaded occurs d).mp inside with ⟨delta,found,rfl⟩ | cached
    · have one : pumped partition round = [delta.rows] := by simp [pumped,found]
      rw [one,newest_concat,Option.or_eq_none_iff] at nothing
      exact (lookup_eq_none (keyed _ _)).mp nothing.1 (List.mem_map.mpr ⟨r',row,same⟩)
    · have old := ((tracks.rows r').mp ⟨d,cached,row⟩).1
      have absent : ∀ version ∈ pumped partition round, r.key ∉ version.map (·.key) := by
        intro version within touched
        obtain ⟨delta,found,rfl⟩ := (mem_pumped version).mp within
        have one : pumped partition round = [delta.rows] := by simp [pumped,found]
        rw [one,newest_concat,Option.or_eq_none_iff] at nothing
        exact (lookup_eq_none (keyed _ _)).mp nothing.1 touched
      rw [fresh absent,← same,old] at nothing
      cases nothing

omit [DecidableEq τ] in
private theorem emitted_latest (order : Ascending Row.key stable.rows) (tracks : Tracks partition state log)
    (occurs : Occurs partition state log round) (mergeable : Mergeable reader stable partition log round)
    {kept : List (DeltaRow (columns table) (payload table))} (ascending : Ascending (·.key) kept)
    (rows : ∀ r, r ∈ kept ↔ ∃ d ∈ round.loaded, r ∈ d.delta.rows ∧ Keeps round.loaded d.timestamp r) :
    (stable.rows.filter (fun r => Unchanged round.loaded r.key) ++ kept.map (·.toRow)).Perm
      (latest stable (log.after partition round)) := by
  have changes : ∀ version ∈ (log.after partition round).versions,
      (version.map (keyed (columns table) (payload table)).change).Nodup := by
    intro version member
    rcases List.mem_append.mp member with old | new
    · exact (tracks.versions version old).nodup_keys
    · exact (occurs.order version new).nodup_keys
  have keptKeys : (kept.map (·.toRow)).map Row.key = kept.map (·.key) := by simp [Function.comp_def]
  apply perm_of_mem_iff (keyed _ _)
  · change ((stable.rows.filter (fun r => Unchanged round.loaded r.key) ++ kept.map (·.toRow)).map
      Row.key).Nodup
    rw [List.map_append,keptKeys]
    refine List.nodup_append'.mpr
      ⟨order.nodup_keys.sublist (List.filter_sublist.map _),ascending.nodup_keys,?_⟩
    intro k left right
    obtain ⟨r,member,rfl⟩ := List.mem_map.mp left
    obtain ⟨c,inside,same⟩ := List.mem_map.mp right
    obtain ⟨d,here,row,_⟩ := (rows c).mp inside
    have unchanged : Unchanged round.loaded r.key := by simpa using (List.mem_filter.mp member).2
    exact unchanged d here c row same
  · exact replay_distinct (keyed _ _) order.nodup_keys changes
  · intro r
    rw [latest,mem_replay (keyed _ _) changes,List.mem_append,List.mem_filter,List.mem_map]
    have keptRow : ∀ c ∈ kept,
        newest (keyed _ _) (log.versions ++ pumped partition round) c.key = some c ∧ c.type ≠ .delete :=
      fun c inside => (keeps_iff tracks occurs c).mp ((rows c).mp inside)
    cases found : newest (keyed _ _) (log.versions ++ pumped partition round) r.key with
    | none =>
      have after : newest (keyed _ _) (log.after partition round).versions ((keyed _ _).row r) = none := found
      rw [after]
      constructor
      · rintro (⟨member,_⟩ | ⟨c,inside,rfl⟩)
        · exact member
        · rw [(keptRow c inside).1] at found
          cases found
      · intro member
        exact Or.inl ⟨member,by simpa using (unchanged_iff tracks occurs mergeable member).mpr found⟩
    | some c =>
      have after : newest (keyed _ _) (log.after partition round).versions ((keyed _ _).row r) = some c :=
        found
      rw [after]
      change _ ↔ image c = some r
      constructor
      · rintro (⟨member,unchanged⟩ | ⟨c',inside,rfl⟩)
        · rw [(unchanged_iff tracks occurs mergeable member).mp (by simpa using unchanged)] at found
          cases found
        · rw [(keptRow c' inside).1,Option.some.injEq] at found
          subst found
          exact if_neg (keptRow c' inside).2
      · intro result
        unfold image at result
        split at result
        next deleted => cases result
        next live =>
          have same := Option.some.inj result
          have key : c.key = r.key := by rw [← same]
          exact Or.inr ⟨c,(rows c).mpr ((keeps_iff tracks occurs c).mpr ⟨key ▸ found,live⟩),same⟩

private theorem tracks_stored (tracks : Tracks partition state log)
    (occurs : Occurs partition state log round) {tuple : TableDelta columns payload table}
    (bitmap : Option (List Bool)) (ascending : Ascending (·.key) tuple.rows)
    (rows : ∀ r, r ∈ tuple.rows ↔ ∃ d ∈ round.loaded, r ∈ d.delta.rows ∧ Keeps round.loaded d.timestamp r) :
    Tracks partition (storeMergedDelta (deltaPump state round.pump) table partition ⟨tuple,bitmap⟩)
      (log.after partition round) := by
  refine ⟨?_,by simp,by simpa using ascending,?_,by simp,?_,?_,?_⟩
  · intro version member
    rcases List.mem_append.mp member with old | new
    · exact tracks.versions version old
    · exact occurs.order version new
  · intro r
    rw [load_storeMergedDelta_self]
    simp only [List.mem_singleton,exists_eq_left,rows r]
    exact keeps_iff tracks occurs r
  · intro d member
    rw [load_storeMergedDelta_self,List.mem_singleton] at member
    rw [member]
    exact le_max_right _ _
  · exact le_max_right _ _
  · exact le_trans tracks.clock (le_max_left _ _)

theorem round_step (project : Row (columns table) (payload table) → σ) (width : 0 < columns table)
    (order : Ascending Row.key stable.rows)
    (tracks : Tracks partition state log) (occurs : Occurs partition state log round)
    (mergeable : Mergeable reader stable partition log round) :
    ∃ emitted next, mergeRound reader project stable partition state round = some (emitted,next) ∧
      emitted.flatten.Perm ((latest stable (log.after partition round)).map project) ∧
      Tracks partition next (log.after partition round) := by
  by_cases nonempty : round.loaded = []
  · have nothing : ((deltaPump state round.pump).cache table).load partition = [] := by
      have perm := occurs.loaded
      rw [nonempty] at perm
      exact perm.nil_eq.symm
    have split := nothing
    rw [load_deltaPump,List.append_eq_nil_iff] at split
    have versions : (log.after partition round).versions = [] := by
      simp only [Log.after,pumped,tracks.empty split.2,List.nil_append]
      simpa using split.1
    refine ⟨noMerge project stable,deltaPump state round.pump,?_,?_,?_⟩
    · simp [mergeRound,deltaMerge,nonempty]
    · rw [noMerge_rows,latest,versions,replay_nil]
    · refine ⟨by simp [versions],by simp [nothing],by simp [nothing],?_,fun _ => versions,
        by simp [nothing],le_max_right _ _,le_trans tracks.clock (le_max_left _ _)⟩
      simp [nothing,versions,newest]
  · obtain ⟨chunks,tuple,result,flattened,ascending,rows⟩ := deltaMerge_spec
      (loaded_input width order tracks occurs mergeable.positive) nonempty (mergeable.filled nonempty σ project)
      mergeable.one mergeable.batches
    refine ⟨chunks,_,?_,?_,tracks_stored tracks occurs
      (some (keptRows round.loaded stable)) ascending rows⟩
    · simp [mergeRound,result]
    · have perm := (emitted_latest order tracks occurs mergeable ascending rows).map project
      rw [List.map_append,List.map_map] at perm
      rw [flattened]
      exact perm

end Step

section Examples

private abbrev OneTable := ActorState (fun _ : Unit => 1) (fun _ => Nat)
private abbrev OneRound := Round (fun _ : Unit => 1) (fun _ => Nat) ()

def change (type : EventType) (k : Int32) (value : Nat) : DeltaRow 1 Nat := ⟨⟨singleKey k,value⟩,type⟩

def twoStableRows : TupleSet (Row 1 Nat) := .ofRows [⟨singleKey 1,10⟩,⟨singleKey 2,20⟩]

/-- A pump that finds `rows` for partition 0. -/
def pumpOf (rows : List (DeltaRow 1 Nat)) (timestamp : Int) : Pump (TableDelta (fun _ : Unit => 1) (fun _ => Nat)) :=
  ⟨fun _ => [(0,.ofRows rows)],timestamp,fun _ => by simp⟩

/-- A pump that finds an event of partition 1 only. -/
def pumpElsewhere (timestamp : Int) : Pump (TableDelta (fun _ : Unit => 1) (fun _ => Nat)) :=
  ⟨fun _ => [(1,.ofRows [change .insert 90 90])],timestamp,fun _ => by simp⟩

def deleteRound : OneRound :=
  ⟨pumpOf [change .delete 1 0,change .insert 3 30] 1,[⟨.ofRows [change .delete 1 0,change .insert 3 30],1⟩]⟩

def quietRound : OneRound := ⟨pumpElsewhere 2,[⟨⟨[[change .insert 3 30]]⟩,1⟩]⟩

def updatedRows : List (DeltaRow 1 Nat) := [change .update 1 11,change .insert 3 30]

def updateRound : OneRound := ⟨pumpOf updatedRows 1,[⟨.ofRows updatedRows,1⟩]⟩

def updateThenQuiet : OneRound := ⟨pumpElsewhere 2,[⟨⟨[updatedRows]⟩,1⟩]⟩

private theorem everyBatchKeeps_updated : EveryBatchKeeps .chunked [⟨⟨[updatedRows]⟩,(1 : Int)⟩] := by
  intro combined found
  cases found
  exact Or.inr ⟨⟨0,⟨1,change .update 1 11,by decide,by decide⟩,by decide,by decide⟩,trivial⟩

private theorem filled_twoStableRows : StableFilled .chunked twoStableRows := by
  intro σ project
  exact Or.inr (by simp [TableBatchReader.chunked,TupleSet.projectExist,twoStableRows,TupleSet.ofRows])

end Examples

end Hermes.DeltaMergeRounds
