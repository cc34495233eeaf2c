import Hermes.BinlogParser
import Hermes.DeltaCacheSystem
import Hermes.DeltaMergeResult
import Hermes.Library.ChangeLog

/-! What queries read while the log is pumped: the records of the log go into the delta cache, the merge operators
load, merge and store back what is cached, and what they emit is compared with the table that the records make. -/
namespace Hermes.FreshReads
open Hermes.Tuple Hermes.Delta Hermes.DeltaMergePOp Hermes.DeltaCacheActor Hermes.DeltaCacheSystem
open Hermes.LatestVersion Hermes.DeleteMapSelection Hermes.DeltaMergeResult Hermes.BinlogParser
open Hermes.DeleteMapGeneratorKernel (DeltaVersion)
open Hermes.Library.KeyOrder Hermes.Library.Overlay Hermes.Library.Transition

section Partition
variable {n : Nat} {α σ : Type} {versions others : List (DeltaVersion n α)} {log more : List (DeltaRow n α)}
  {stable : TupleSet (Row n α)}

/-- The newest rows of the versions are those of the log, and the keys that no version has are deleted there. -/
structure Stands (versions : List (DeltaVersion n α)) (log : List (DeltaRow n α)) : Prop where
  ascending : ∀ d ∈ versions, Ascending (·.key) d.delta.rows
  distinct : (versions.map (·.timestamp)).Nodup
  newest : ∀ d ∈ versions, ∀ r ∈ d.delta.rows, Newest versions d.timestamp r.key →
    lastChange (keyed n α) log r.key = some r
  gone : ∀ k, Unchanged versions k → ∀ c, lastChange (keyed n α) log k = some c → c.type = .delete

/-- When a merge of the versions into a stable table comes to its end with the rows it should. -/
structure Mergeable (reader : TableBatchReader) (stable : TupleSet (Row n α)) (versions : List (DeltaVersion n α)) :
    Prop where
  filled : versions ≠ [] → StableFilled reader stable
  positive : ∀ d ∈ versions, d.delta.rows ≠ [] → 0 < d.timestamp
  one : KeptFromOne versions
  batches : EveryBatchKeeps reader versions

/-- Each stable row that no version has is in the table still: no DELETE of it has been merged. -/
def Undeleted (stable : TupleSet (Row n α)) (versions : List (DeltaVersion n α))
    (log : List (DeltaRow n α)) : Prop :=
  ∀ r ∈ stable.rows, Unchanged versions r.key → lastChange (keyed n α) log r.key = none

theorem stands_nil : Stands ([] : List (DeltaVersion n α)) [] where
  ascending _ inside := absurd inside List.not_mem_nil
  distinct := List.nodup_nil
  newest _ inside := absurd inside List.not_mem_nil
  gone _ _ _ found := by cases found

theorem newest_perm (same : versions.Perm others) (timestamp : Int) (k : PrimaryKey n) :
    Newest versions timestamp k ↔ Newest others timestamp k :=
  forall_congr' fun _ => imp_congr same.mem_iff Iff.rfl

theorem Stands.perm (stands : Stands versions log) (same : versions.Perm others) : Stands others log where
  ascending d inside := stands.ascending d (same.mem_iff.mpr inside)
  distinct := (same.map _).nodup_iff.mp stands.distinct
  newest d inside r row top := stands.newest d (same.mem_iff.mpr inside) r row ((newest_perm same _ _).mpr top)
  gone k unchanged := stands.gone k fun d inside => unchanged d (same.mem_iff.mp inside)

theorem Stands.pumped (stands : Stands versions log) {version : TupleSet (DeltaRow n α)} {timestamp : Int}
    (newer : ∀ d ∈ versions, d.timestamp < timestamp) (ascending : Ascending (·.key) version.rows)
    (rows : ∀ r, r ∈ version.rows ↔ lastChange (keyed n α) more r.key = some r) :
    Stands (⟨version,timestamp⟩::versions) (log ++ more) := by
  have absent : ∀ k, (∀ r ∈ version.rows, r.key ≠ k) → lastChange (keyed n α) more k = none := by
    intro k missing
    by_contra there
    obtain ⟨c,found⟩ := Option.ne_none_iff_exists'.mp there
    have same : c.key = k := (lastChange_mem (keyed n α) found).2
    exact missing c ((rows c).mpr (same ▸ found)) same
  refine ⟨List.forall_mem_cons.mpr ⟨ascending,stands.ascending⟩,?_,?_,?_⟩
  · refine List.nodup_cons.mpr ⟨?_,stands.distinct⟩
    intro inside
    obtain ⟨d,member,same⟩ := List.mem_map.mp inside
    exact absurd same (ne_of_lt (newer d member))
  · intro d inside r row top
    rw [lastChange_append]
    rcases List.mem_cons.mp inside with rfl | old
    · rw [(rows r).mp row,Option.some_or]
    · have missing : lastChange (keyed n α) more r.key = none := by
        apply absent
        intro r' fresh same
        exact absurd (top _ List.mem_cons_self r' fresh same) (not_le.mpr (newer d old))
      rw [missing,Option.none_or]
      exact stands.newest d old r row fun e member => top e (List.mem_cons_of_mem _ member)
  · intro k unchanged c found
    rw [lastChange_append,absent k fun r row => unchanged _ List.mem_cons_self r row,Option.none_or] at found
    exact stands.gone k (fun d member => unchanged d (List.mem_cons_of_mem _ member)) c found

theorem Stands.input (stands : Stands versions log) (width : 0 < n) (order : Ascending Row.key stable.rows)
    (positive : ∀ d ∈ versions, d.delta.rows ≠ [] → 0 < d.timestamp) : MergeInput versions stable :=
  ⟨⟨width,order,stands.ascending⟩,stands.distinct,positive⟩

theorem Stands.last (stands : Stands versions log) (input : MergeInput versions stable) {k : PrimaryKey n}
    (changed : ¬Unchanged versions k) :
    ∃ d ∈ versions, ∃ r ∈ d.delta.rows, r.key = k ∧ Newest versions d.timestamp r.key ∧
    lastChange (keyed n α) log k = some r := by
  simp only [Unchanged,not_forall,not_not] at changed
  obtain ⟨d,inside,r,row,rfl⟩ := changed
  obtain ⟨_,top,_,r',wins,same⟩ := input.exists_wins inside row
  have version := List.mem_of_getElem? wins.version
  have found := stands.newest top version r' (List.mem_of_getElem? wins.row) wins.newest
  exact ⟨top,version,r',List.mem_of_getElem? wins.row,same,wins.newest,same ▸ found⟩

theorem Stands.keeps_iff (stands : Stands versions log) (input : MergeInput versions stable) (r : DeltaRow n α) :
    (∃ d ∈ versions, r ∈ d.delta.rows ∧ Keeps versions d.timestamp r) ↔
      lastChange (keyed n α) log r.key = some r ∧ r.type ≠ .delete := by
  constructor
  · intro ⟨d,inside,row,live,top⟩
    exact ⟨stands.newest d inside r row top,live⟩
  · intro ⟨found,live⟩
    have changed : ¬Unchanged versions r.key := fun unchanged => live (stands.gone r.key unchanged r found)
    obtain ⟨d,inside,r',row,_,top,last⟩ := stands.last input changed
    obtain rfl := Option.some.inj (last.symm.trans found)
    exact ⟨d,inside,row,live,top⟩

theorem Stands.merged (stands : Stands versions log) (input : MergeInput versions stable)
    {tuple : TupleSet (DeltaRow n α)} (ascending : Ascending (·.key) tuple.rows)
    (rows : ∀ r, r ∈ tuple.rows ↔ ∃ d ∈ versions, r ∈ d.delta.rows ∧ Keeps versions d.timestamp r) (timestamp : Int) :
    Stands [⟨tuple,timestamp⟩] log where
  ascending := List.forall_mem_singleton.mpr ascending
  distinct := List.nodup_singleton _
  newest d inside r row _ := by
    obtain rfl := List.mem_singleton.mp inside
    exact ((stands.keeps_iff input r).mp ((rows r).mp row)).1
  gone k unchanged c found := by
    by_contra live
    have same : c.key = k := (lastChange_mem (keyed n α) found).2
    have kept := (rows c).mpr ((stands.keeps_iff input c).mpr ⟨same.symm ▸ found,live⟩)
    exact unchanged _ (List.mem_singleton_self _) c kept same

structure Emits (versions : List (DeltaVersion n α)) (log : List (DeltaRow n α))
    (stable : TupleSet (Row n α)) (rows : List (Row n α)) : Prop where
  distinct : (rows.map Row.key).Nodup
  mem_iff : ∀ r, r ∈ rows ↔ (r ∈ stable.rows ∧ Unchanged versions r.key) ∨
    ∃ c, lastChange (keyed n α) log r.key = some c ∧ image c = some r

theorem emits_of_kept (order : Ascending Row.key stable.rows) {kept : List (DeltaRow n α)}
    (ascending : Ascending (·.key) kept)
    (rows : ∀ r, r ∈ kept ↔ lastChange (keyed n α) log r.key = some r ∧ r.type ≠ .delete)
    (fresh : ∀ r ∈ kept, ¬Unchanged versions r.key) :
    Emits versions log stable (stable.rows.filter (fun r => Unchanged versions r.key) ++ kept.map (·.toRow)) where
  distinct := by
    have keys : (kept.map (·.toRow)).map Row.key = kept.map (·.key) := by simp [Function.comp_def]
    rw [List.map_append,keys]
    refine List.nodup_append'.mpr ⟨(order.sublist List.filter_sublist).nodup_keys,ascending.nodup_keys,?_⟩
    intro k left right
    obtain ⟨r,member,rfl⟩ := List.mem_map.mp left
    obtain ⟨c,inside,same⟩ := List.mem_map.mp right
    exact fresh c inside (same ▸ of_decide_eq_true (List.mem_filter.mp member).2)
  mem_iff r := by
    rw [List.mem_append,List.mem_filter,decide_eq_true_eq,List.mem_map]
    refine or_congr_right ⟨?_,?_⟩
    · rintro ⟨c,inside,rfl⟩
      obtain ⟨found,live⟩ := (rows c).mp inside
      exact ⟨c,found,if_neg live⟩
    · intro ⟨c,found,leaves⟩
      unfold image at leaves
      split at leaves
      next => cases leaves
      next live =>
        have same : c.key = r.key := (lastChange_mem (keyed n α) found).2
        exact ⟨c,(rows c).mpr ⟨same.symm ▸ found,live⟩,Option.some.inj leaves⟩

theorem Stands.deltaMerge (stands : Stands versions log) (width : 0 < n) (order : Ascending Row.key stable.rows)
    {reader : TableBatchReader} (mergeable : Mergeable reader stable versions) (project : Row n α → σ) :
    ∃ emitted merged rows, DeltaMergePOp.deltaMerge reader project versions [stable] = some (emitted,merged) ∧
      emitted.flatten = rows.map project ∧ Emits versions log stable rows ∧
      (versions ≠ [] → ∃ tuple bitmap, merged = some ⟨tuple,some bitmap⟩ ∧
        ∀ timestamp, Stands [⟨tuple,timestamp⟩] log) := by
  have input : MergeInput versions stable := stands.input width order mergeable.positive
  by_cases nothing : versions = []
  · subst nothing
    have all : Emits [] log stable
        (stable.rows.filter (fun r => @Unchanged n α [] r.key) ++ ([] : List (DeltaRow n α)).map (·.toRow)) := by
      apply emits_of_kept order List.Pairwise.nil
      · intro r
        refine ⟨fun inside => absurd inside List.not_mem_nil,fun ⟨found,live⟩ => ?_⟩
        exact absurd (stands.gone r.key (fun _ inside => absurd inside List.not_mem_nil) r found) live
      · exact fun _ inside => absurd inside List.not_mem_nil
    refine ⟨noMerge project stable,none,_,?_,?_,all,fun filled => absurd rfl filled⟩
    · simp [DeltaMergePOp.deltaMerge]
    · rw [noMerge_rows]
      simp [Unchanged]
  · obtain ⟨chunks,tuple,result,flattened,ascending,rows⟩ :=
      deltaMerge_spec input nothing (mergeable.filled nothing σ project) mergeable.one mergeable.batches
    refine ⟨chunks,_,_,result,?_,emits_of_kept order ascending ?_ ?_,
      fun _ => ⟨tuple,_,rfl,stands.merged input ascending rows⟩⟩
    · rw [flattened,List.map_append,List.map_map]
      rfl
    · exact fun r => (rows r).trans (stands.keeps_iff input r)
    · intro r inside unchanged
      obtain ⟨d,member,row,_⟩ := (rows r).mp inside
      exact unchanged d member r row rfl

theorem Stands.unlogged (stands : Stands versions log) {r : Row n α} (unchanged : Unchanged versions r.key)
    (leaves : ∀ c, lastChange (keyed n α) log r.key = some c → image c = some r) :
    lastChange (keyed n α) log r.key = none := by
  cases found : lastChange (keyed n α) log r.key with
  | none => rfl
  | some c =>
    have left := leaves c found
    rw [image,if_pos (stands.gone r.key unchanged c found)] at left
    cases left

theorem Emits.perm_applyLog {rows : List (Row n α)} (emits : Emits versions log stable rows)
    (stands : Stands versions log) (input : MergeInput versions stable) (undeleted : Undeleted stable versions log) :
    rows.Perm (applyLog (keyed n α) stable.rows log) := by
  apply perm_of_mem_iff (keyed n α) emits.distinct (applyLog_distinct (keyed n α) input.stableOrder.nodup_keys log)
  intro r
  rw [emits.mem_iff]
  cases found : lastChange (keyed n α) log r.key with
  | none =>
    have unchanged : Unchanged versions r.key := by
      by_contra changed
      obtain ⟨_,_,_,_,_,_,last⟩ := stands.last input changed
      rw [found] at last
      cases last
    rw [mem_applyLog_of_none (keyed n α) found]
    simp [unchanged]
  | some c =>
    have changed : ¬(r ∈ stable.rows ∧ Unchanged versions r.key) := by
      intro ⟨row,unchanged⟩
      rw [undeleted r row unchanged] at found
      cases found
    rw [mem_applyLog_of_some (keyed n α) found]
    simp [changed,keyed]

end Partition

section Pump
variable {table : Table} {α : Type} {records : List (DeltaRow table.primaryKeyColumns α)}
  {deltas : List (Int × TupleSet (DeltaRow table.primaryKeyColumns α))}

def partitionLog (table : Table) (partition : Int) (records : List (DeltaRow table.primaryKeyColumns α)) :
    List (DeltaRow table.primaryKeyColumns α) :=
  partLog (keyed table.primaryKeyColumns α) (partitionOf table) partition records

theorem partitionLog_append (partition : Int) (log more : List (DeltaRow table.primaryKeyColumns α)) :
    partitionLog table partition (log ++ more) = partitionLog table partition log ++
    partitionLog table partition more :=
  partLog_append _ _ partition log more

theorem lastChange_partitionLog {partition : Int} {k : PrimaryKey table.primaryKeyColumns}
    (here : partitionOf table k = some partition) (log : List (DeltaRow table.primaryKeyColumns α)) :
    lastChange (keyed _ α) (partitionLog table partition log) k = lastChange (keyed _ α) log k :=
  lastChange_partLog (keyed table.primaryKeyColumns α) (partitionOf table) here log

theorem pump_collected (pumped : BinlogParser.pump table records = some deltas)
    (same : ∀ k, firstEvent records k = lastEvent records k) :
    Collected (partitionOf table) (lastEvent records) (deltas.map fun entry => (entry.1,entry.2.rows)) := by
  obtain ⟨recordMap,parsed,rfl⟩ := Option.map_eq_some_iff.mp pumped
  obtain ⟨routed,unrouted⟩ := parse_first (partitionOf table) records
  have all : ∀ r ∈ records, (partitionOf table r.key).isSome := by
    by_contra unplaced
    rw [unrouted unplaced] at parsed
    cases parsed
  obtain ⟨recordMap',parsed',first⟩ := routed all
  obtain rfl := Option.some.inj (parsed'.symm.trans parsed)
  have tables : (dispatch recordMap').map (fun entry => (entry.1,entry.2.rows)) = recordMap' := by
    simp [dispatch,Function.comp_def]
  rw [tables,← funext same]
  exact first

theorem collected_distinct {chosen : PrimaryKey table.primaryKeyColumns → Option (DeltaRow table.primaryKeyColumns α)}
    (collected : Collected (partitionOf table) chosen (deltas.map fun entry => (entry.1,entry.2.rows))) :
    (deltas.map Prod.fst).Nodup := by
  have partitions := collected.partitions
  rw [List.map_map] at partitions
  exact partitions

theorem mem_version (pumped : BinlogParser.pump table records = some deltas)
    (same : ∀ k, firstEvent records k = lastEvent records k)
    {partition : Int} {version : TupleSet (DeltaRow table.primaryKeyColumns α)}
    (found : deltas.lookup partition = some version) (r : DeltaRow table.primaryKeyColumns α) :
    r ∈ version.rows ↔ lastChange (keyed _ α) (partitionLog table partition records) r.key = some r := by
  have collected := pump_collected pumped same
  have here : (∃ rows, (partition,rows) ∈ deltas.map (fun entry => (entry.1,entry.2.rows)) ∧ r ∈ rows) ↔
      r ∈ version.rows := by
    obtain ⟨before,after,split,_⟩ := List.lookup_eq_some_iff.mp found
    have inside : (partition,version) ∈ deltas := by simp [split]
    constructor
    · intro ⟨rows,member,row⟩
      obtain ⟨entry,there,equal⟩ := List.mem_map.mp member
      have entryEq : entry = (partition,version) :=
        List.inj_on_of_nodup_map (collected_distinct collected) there inside (Prod.mk.inj equal).1
      rw [entryEq] at equal
      exact (Prod.mk.inj equal).2 ▸ row
    · exact fun row => ⟨_,List.mem_map.mpr ⟨_,inside,rfl⟩,row⟩
  rw [← here,collected.rows]
  constructor
  · intro ⟨last,place⟩
    rw [lastChange_partitionLog place]
    exact last
  · intro last
    have place : partitionOf table r.key = some partition := by
      by_contra elsewhere
      have missing := lastChange_elsewhere (keyed table.primaryKeyColumns α) (partitionOf table) elsewhere records
      exact Option.some_ne_none _ (last.symm.trans missing)
    rw [lastChange_partitionLog place] at last
    exact ⟨last,place⟩

theorem partitionLog_nil (pumped : BinlogParser.pump table records = some deltas)
    (same : ∀ k, firstEvent records k = lastEvent records k)
    {partition : Int} (missing : deltas.lookup partition = none) : partitionLog table partition records = [] := by
  have collected := pump_collected pumped same
  rw [partitionLog,partLog,List.filter_eq_nil_iff]
  intro r inside place
  obtain ⟨last,found⟩ : ∃ last, lastEvent records r.key = some last := by
    cases found : lastEvent records r.key with
    | none => exact absurd rfl (lastEvent_eq_none.mp found r inside)
    | some last => exact ⟨last,rfl⟩
  have key : last.key = r.key := (lastChange_mem (keyed table.primaryKeyColumns α) found).2
  obtain ⟨rows,member,_⟩ := (collected.rows partition last).mpr ⟨key.symm ▸ found,key.symm ▸ of_decide_eq_true place⟩
  obtain ⟨entry,there,equal⟩ := List.mem_map.mp member
  have absent := List.lookup_eq_none_iff.mp missing entry there
  rw [(Prod.mk.inj equal).1] at absent
  simp at absent

end Pump

section System
variable {payload : Table → Type} {ω : Type}

abbrev Deltas (payload : Table → Type)
    (table : Table) : Type := TupleSet (DeltaRow table.primaryKeyColumns (payload table))

abbrev Records (payload : Table → Type) := (table : Table) → List (DeltaRow table.primaryKeyColumns (payload table))

/-- A message that the actor handles, and what the log parser hands out if it is asked meanwhile. -/
structure Handled (ω : Type) (payload : Table → Type) where
  action : Action ω (Deltas payload) (List Bool)
  records : Records payload

/-- The records pumped so far, the latest timestamp, and the records that had been pumped when an operator loaded. -/
structure History (ω : Type) (payload : Table → Type) where
  log : Records payload
  clock : Int
  seen : ω → Records payload

abbrev State (ω : Type) (payload : Table → Type) := System ω (Deltas payload) (List Bool) × History ω payload

def State.initial (ω : Type) (payload : Table → Type) : State ω payload :=
  (System.initial ω (Deltas payload) (List Bool),⟨fun _ => [],0,fun _ _ => []⟩)

def logAfter (log records : Records payload) : Option (Pump (Deltas payload)) → Records payload
  | none => log
  | some _ => fun table => log table ++ records table

def clockAfter (clock : Int) : Option (Pump (Deltas payload)) → Int
  | none => clock
  | some pump => max clock pump.timestamp

def History.after [DecidableEq ω] (history : History ω payload) (system : System ω (Deltas payload) (List Bool))
    (handled : Handled ω payload) : History ω payload where
  log := logAfter history.log handled.records (handled.action.pump system)
  clock := clockAfter history.clock (handled.action.pump system)
  seen := match handled.action with
    | .loadMemoryDelta op _ _ _ =>
      Function.update history.seen op (logAfter history.log handled.records (handled.action.pump system))
    | _ => history.seen

variable (reader : TableBatchReader)
    (stable : (table : Table) → Int → TupleSet (Row table.primaryKeyColumns (payload table)))

/-- What an operator stores is what its merge sends back, whatever columns its query asks for. -/
def Merges : Action ω (Deltas payload) (List Bool) → Prop
  | .storeMergedDelta _ held msg => ∃ (σ : Type) (project : Row held.table.primaryKeyColumns (payload held.table) → σ)
      (chunks : List (List σ)), deltaMerge reader project held.deltas [stable held.table held.partition] =
      some (chunks,some msg)
  | _ => True

structure StepTo [DecidableEq ω] (before : State ω payload) (handled : Handled ω payload)
    (after : State ω payload) : Prop where
  moves : Step before.1 handled.action after.1
  pumped : ∀ pump ∈ handled.action.pump before.1, ∀ table,
    BinlogParser.pump table (handled.records table) = some (pump.deltas table)
  merges : Merges reader stable handled.action
  history : after.2 = before.2.after before.1 handled

/-- The stores of what was merged right, before another record of the partition was pumped. -/
def Storable (history : History ω payload) : Action ω (Deltas payload) (List Bool) → Prop
  | .storeMergedDelta op held _ => Mergeable reader (stable held.table held.partition) held.deltas ∧
      partitionLog held.table held.partition (history.log held.table) =
        partitionLog held.table held.partition (history.seen op held.table)
  | _ => True

/-- No pump has two different records of a key that it begins and ends with, and what it finds is newer than all before. -/
structure Meets (before : State ω payload) (handled : Handled ω payload) : Prop where
  single : ∀ pump ∈ handled.action.pump before.1, ∀ table k,
    firstEvent (handled.records table) k = lastEvent (handled.records table) k
  newer : ∀ pump ∈ handled.action.pump before.1, ∀ table partition, pump.delta table partition ≠ none →
    before.2.clock < pump.timestamp
  store : Storable reader stable before.2 handled.action

/-- What is cached stands for all that was pumped, and what an operator holds for what had been pumped when it loaded. -/
structure Fresh (state : State ω payload) : Prop where
  stands : ∀ table partition, Stands (state.1.cached table partition) (partitionLog table partition (state.2.log table))
  stamped : ∀ table partition, ∀ d ∈ state.1.cached table partition, d.timestamp ≤ state.2.clock
  last : state.1.actor.lastTimestamp ≤ state.2.clock
  held : ∀ op held, state.1.held op = some held →
    Stands held.deltas (partitionLog held.table held.partition (state.2.seen op held.table))

theorem fresh_initial : Fresh (State.initial ω payload) where
  stands _ _ := stands_nil
  stamped _ _ _ inside := absurd inside List.not_mem_nil
  last := le_refl _
  held _ _ found := by cases found

section Step
variable [DecidableEq ω] {reader stable} {before after : State ω payload} {handled : Handled ω payload}

omit [DecidableEq ω] in
theorem Fresh.added (fresh : Fresh before) (meets : Meets reader stable before handled)
    (pumped : ∀ pump ∈ handled.action.pump before.1, ∀ table,
      BinlogParser.pump table (handled.records table) = some (pump.deltas table)) (table : Table) (partition : Int) :
    Stands (handled.action.added before.1 table partition ++ before.1.cached table partition)
        (partitionLog table partition (logAfter before.2.log handled.records (handled.action.pump before.1) table)) ∧
      ∀ d ∈ handled.action.added before.1 table partition ++ before.1.cached table partition,
        d.timestamp ≤ clockAfter before.2.clock (handled.action.pump before.1) := by
  cases made : handled.action.pump before.1 with
  | none =>
    have nothing : handled.action.added before.1 table partition = [] := by simp [Action.added,made]
    rw [nothing,List.nil_append]
    exact ⟨fresh.stands table partition,fresh.stamped table partition⟩
  | some pump =>
    have parsed := pumped pump (Option.mem_def.mpr made) table
    have single := meets.single pump (Option.mem_def.mpr made) table
    have adds : handled.action.added before.1 table partition =
        (pump.delta table partition).toList.map fun delta => ⟨delta,pump.timestamp⟩ := by simp [Action.added,made]
    have older : ∀ d ∈ before.1.cached table partition, d.timestamp ≤ max before.2.clock pump.timestamp :=
        fun d inside =>
      (fresh.stamped table partition d inside).trans (le_max_left _ _)
    rw [logAfter,partitionLog_append,adds]
    cases found : pump.delta table partition with
    | none =>
      rw [partitionLog_nil parsed single found,List.append_nil]
      exact ⟨fresh.stands table partition,older⟩
    | some version =>
      have newer := meets.newer pump (Option.mem_def.mpr made) table partition (by simp [found])
      obtain ⟨first,rest,split,_⟩ := List.lookup_eq_some_iff.mp found
      have entry : (partition,version) ∈ pump.deltas table := by simp [split]
      refine ⟨(fresh.stands table partition).pumped ?_ (pump_ascending parsed _ entry)
        (mem_version parsed single found),?_⟩
      · exact fun d inside => (fresh.stamped table partition d inside).trans_lt newer
      · exact List.forall_mem_cons.mpr ⟨le_max_right _ _,older⟩

theorem last_step (moves : Step before.1 handled.action after.1)
    (bound : before.1.actor.lastTimestamp ≤ before.2.clock) :
    after.1.actor.lastTimestamp ≤ clockAfter before.2.clock (handled.action.pump before.1) := by
  obtain ⟨system,_⟩ := after
  obtain ⟨action,_⟩ := handled
  cases moves with
  | loadMemoryDelta op msg pump order =>
    by_cases new : msg.queryId ≠ before.1.actor.queryId
    · simp [loadMemoryDelta,Action.pump,new,clockAfter,deltaPump]
    · simpa [loadMemoryDelta,Action.pump,new,clockAfter] using bound
  | deltaPump pump => exact le_max_right _ _
  | storeMergedDelta op msg loaded filled => exact bound

omit [DecidableEq ω] in
theorem Fresh.stored (fresh : Fresh before)
    (order : ∀ table partition, Ascending Row.key (stable table partition).rows) {op : ω}
    {held : Held (Deltas payload) (List Bool)} {msg : MergedDeltaMessage (Deltas payload held.table) (List Bool)}
    (loaded : before.1.held op = some held) (filled : held.deltas ≠ [])
    (storable : Storable reader stable before.2 (.storeMergedDelta op held msg))
    (merges : Merges reader stable (.storeMergedDelta op held msg)) (timestamp : Int) :
    Stands [⟨msg.mergedDelta,timestamp⟩] (partitionLog held.table held.partition (before.2.log held.table)) := by
  obtain ⟨mergeable,same⟩ := storable
  obtain ⟨σ,project,chunks,sent⟩ := merges
  obtain ⟨_,merged,_,returned,_,_,keeps⟩ :=
    (fresh.held op held loaded).deltaMerge held.table.primaryKeyColumns_pos
      (order held.table held.partition) mergeable project
  obtain ⟨tuple,bitmap,rfl,stands⟩ := keeps filled
  have equal := (Prod.mk.inj (Option.some.inj (sent.symm.trans returned))).2
  rw [Option.some.inj equal,same]
  exact stands timestamp

theorem filled_of_store {system next : System ω (Deltas payload) (List Bool)} {op : ω}
    {held : Held (Deltas payload) (List Bool)} {msg : MergedDeltaMessage (Deltas payload held.table) (List Bool)}
    (moves : Step system (.storeMergedDelta op held msg) next) :
    held.deltas ≠ [] := by
  cases moves with
  | storeMergedDelta _ _ _ filled => exact filled

theorem seen_other {op : ω} (other : ∀ msg pump deltas, handled.action ≠ .loadMemoryDelta op msg pump deltas) :
    (before.2.after before.1 handled).seen op = before.2.seen op := by
  obtain ⟨action,records⟩ := handled
  cases action with
  | loadMemoryDelta op' msg pump deltas =>
    refine Function.update_of_ne ?_ _ _
    rintro rfl
    exact other msg pump deltas rfl
  | deltaPump pump => rfl
  | storeMergedDelta op' held msg => rfl

theorem fresh_step (order : ∀ table partition, Ascending Row.key (stable table partition).rows) (fresh : Fresh before)
    (meets : Meets reader stable before handled) (step : StepTo reader stable before handled after) : Fresh after := by
  have stands : ∀ table partition, Stands (after.1.cached table partition)
      (partitionLog table partition (after.2.log table)) ∧
      ∀ d ∈ after.1.cached table partition, d.timestamp ≤ after.2.clock := by
    intro table partition
    rw [step.history]
    by_cases stores : handled.action.StoresTo table partition
    · obtain ⟨moves,_,merges,_⟩ := step
      obtain ⟨action,records⟩ := handled
      cases action with
      | loadMemoryDelta op msg pump deltas => exact stores.elim
      | deltaPump pump => exact stores.elim
      | storeMergedDelta op held msg =>
        obtain ⟨rfl,rfl⟩ := stores
        rw [moves.cached_store]
        refine ⟨fresh.stored order moves.held_of_store (filled_of_store moves) meets.store merges _,?_⟩
        exact List.forall_mem_singleton.mpr fresh.last
    · rw [step.moves.cached stores]
      exact fresh.added meets step.pumped table partition
  refine ⟨fun table partition => (stands table partition).1,fun table partition => (stands table partition).2,?_,?_⟩
  · rw [step.history]
    exact last_step step.moves fresh.last
  · intro op held found
    rcases step.moves.held found with ⟨old,other⟩ | ⟨⟨msg,pump,deltas,now⟩,all⟩
    · rw [step.history,seen_other other]
      exact fresh.held op held old
    · have seen : after.2.seen op = after.2.log := by
        rw [step.history]
        obtain ⟨action,records⟩ := handled
        subst now
        exact Function.update_self _ _ _
      rw [seen]
      exact (stands held.table held.partition).1.perm all.symm

theorem run_fresh (order : ∀ table partition, Ascending Row.key (stable table partition).rows)
    {messages : List (Handled ω payload)}
    {state : State ω payload}
    (run : Run (Meeting (Meets reader stable) (StepTo reader stable)) (State.initial ω payload) messages state) :
    Fresh state :=
  run.invariant Fresh fresh_initial fun _ _ _ fresh meeting => fresh_step order fresh meeting.1 meeting.2

end Step

/-- The operators of a query for the partitions of a table, which have loaded when the same records had been pumped. -/
structure Query (state : State ω payload) (table : Table) (ops : List ω) (partition : ω → Int)
    (deltas : ω → List (DeltaCacheData (Deltas payload table)))
    (log : List (DeltaRow table.primaryKeyColumns (payload table))) : Prop where
  once : (ops.map partition).Nodup
  loaded : ∀ op ∈ ops, ∃ stableBm, state.1.held op = some ⟨table,partition op,deltas op,stableBm⟩
  seen : ∀ op ∈ ops, state.2.seen op table = log
  covered : ∀ r ∈ log, ∃ op ∈ ops, partitionOf table r.key = some (partition op)
  placed : ∀ op ∈ ops, ∀ r ∈ (stable table (partition op)).rows, partitionOf table r.key = some (partition op)
  mergeable : ∀ op ∈ ops, Mergeable reader (stable table (partition op)) (deltas op)

/-- The merges come to their end, and what they emit is the stable table after the records, whatever the columns asked for. -/
def Reads (table : Table) (ops : List ω) (partition : ω → Int)
    (deltas : ω → List (DeltaCacheData (Deltas payload table)))
    (log : List (DeltaRow table.primaryKeyColumns (payload table))) : Prop :=
  ∀ (σ : Type) (project : Row table.primaryKeyColumns (payload table) → σ), ∃ emitted : ω → List (List σ),
    (∀ op ∈ ops, ∃ merged, deltaMerge reader project
      (deltas op) [stable table (partition op)] = some (emitted op,merged)) ∧
    (ops.flatMap fun op => (emitted op).flatten).Perm
      ((applyLog (keyed _ _) (ops.flatMap fun op => (stable table (partition op)).rows) log).map project)

section Query
variable [DecidableEq ω] {reader stable} {state : State ω payload} {table : Table} {ops : List ω} {partition : ω → Int}
  {deltas : ω → List (DeltaCacheData (Deltas payload table))}
    {log : List (DeltaRow table.primaryKeyColumns (payload table))}

omit [DecidableEq ω] in
theorem Query.stands (query : Query reader stable state table ops partition deltas log) (fresh : Fresh state) {op : ω}
    (member : op ∈ ops) : Stands (deltas op) (partitionLog table (partition op) log) := by
  obtain ⟨stableBm,loaded⟩ := query.loaded op member
  have stands := fresh.held op _ loaded
  rw [query.seen op member] at stands
  exact stands

omit [DecidableEq ω] in
theorem reads_of_undeleted (query : Query reader stable state table ops partition deltas log) (fresh : Fresh state)
    (order : ∀ table partition, Ascending Row.key (stable table partition).rows)
    (undeleted : ∀ op ∈ ops, Undeleted (stable table (partition op)) (deltas op) (partitionLog table (partition op) log)) :
    Reads reader stable table ops partition deltas log := by
  intro σ project
  have each : ∀ op ∈ ops, ∃ emitted merged, ∃ rows : List (Row table.primaryKeyColumns (payload table)),
      deltaMerge reader project (deltas op) [stable table (partition op)] = some (emitted,merged) ∧
        emitted.flatten = rows.map project ∧
        rows.Perm (applyLog (keyed _ _) (stable table (partition op)).rows
          (partitionLog table (partition op) log)) := by
    intro op member
    have stands := query.stands fresh member
    have mergeable := query.mergeable op member
    obtain ⟨emitted,merged,rows,returned,flattened,emits,_⟩ :=
      stands.deltaMerge table.primaryKeyColumns_pos (order table (partition op)) mergeable project
    have input := stands.input table.primaryKeyColumns_pos (order table (partition op)) mergeable.positive
    exact ⟨emitted,merged,rows,returned,flattened,emits.perm_applyLog stands input (undeleted op member)⟩
  choose! emitted merged rows returned flattened tables using each
  refine ⟨emitted,fun op member => ⟨_,returned op member⟩,?_⟩
  have parts : ((ops.map partition).flatMap fun place => applyLog (keyed _ _) (stable table place).rows
      (partitionLog table place log)).Perm
      (applyLog (keyed _ _) ((ops.map partition).flatMap fun place => (stable table place).rows) log) := by
    apply applyLog_parts (keyed table.primaryKeyColumns (payload table)) (partitionOf table) query.once
    · exact fun place _ => (order table place).nodup_keys
    · intro place known r inside
      obtain ⟨op,member,rfl⟩ := List.mem_map.mp known
      exact query.placed op member r inside
    · intro r inside
      obtain ⟨op,member,here⟩ := query.covered r inside
      exact ⟨partition op,List.mem_map_of_mem member,here⟩
  rw [List.flatMap_map,List.flatMap_map] at parts
  rw [List.flatMap_congr flattened,← List.map_flatMap]
  exact ((List.Perm.flatMap_left ops tables).trans parts).map project

omit [DecidableEq ω] in
theorem undeleted_of_reads (query : Query reader stable state table ops partition deltas log) (fresh : Fresh state)
    (order : ∀ table partition, Ascending Row.key (stable table partition).rows)
    (reads : Reads reader stable table ops partition deltas log) :
    ∀ op ∈ ops, Undeleted (stable table (partition op)) (deltas op) (partitionLog table (partition op) log) := by
  intro op member r row unchanged
  have stands := query.stands fresh member
  obtain ⟨emitted,ended,all⟩ := reads _ id
  obtain ⟨_,returned⟩ := ended op member
  obtain ⟨_,_,rows,returned',flattened,emits,_⟩ :=
    stands.deltaMerge table.primaryKeyColumns_pos (order table (partition op)) (query.mergeable op member) id
  rw [returned] at returned'
  rw [← (Prod.mk.inj (Option.some.inj returned')).1,List.map_id] at flattened
  have inside : r ∈ applyLog (keyed _ _) (ops.flatMap fun op => (stable table (partition op)).rows) log := by
    have there : r ∈ (emitted op).flatten := flattened ▸ (emits.mem_iff r).mpr (.inl ⟨row,unchanged⟩)
    have somewhere := all.mem_iff.mp (List.mem_flatMap.mpr ⟨op,member,there⟩)
    rwa [List.map_id] at somewhere
  apply stands.unlogged unchanged
  intro c found
  rw [lastChange_partitionLog (query.placed op member r row)] at found
  exact (mem_applyLog_of_some (keyed _ _) found).mp inside

end Query
end System

section Examples

theorem single_of_distinct {n : Nat} {α : Type} {records : List (DeltaRow n α)} (distinct : (records.map (·.key)).Nodup)
    (k : PrimaryKey n) : firstEvent records k = lastEvent records k := by
  have reversed : (records.reverse.map (·.key)).Nodup := (records.reverse_perm.map _).nodup_iff.mpr distinct
  apply Option.ext
  intro c
  have first : lookup (keyed n α) records k = some c ↔ c ∈ records ∧ c.key = k := lookup_eq_some (keyed n α) distinct
  have last : lookup (keyed n α) records.reverse k = some c ↔ c ∈ records.reverse ∧ c.key = k :=
    lookup_eq_some (keyed n α) reversed
  rw [List.mem_reverse] at last
  exact first.trans last.symm

abbrev plain : Table → Type := fun _ => Nat

def changed (type : EventType) (k : Int32) (value : Nat) : DeltaRow 1 Nat := ⟨⟨singleKey k,value⟩,type⟩

def updates : List (DeltaRow 1 Nat) := [changed .update 1 11,changed .insert 3 30]

def twoCustomers : TupleSet (Row 1 Nat) := .ofRows [⟨singleKey 1,10⟩,⟨singleKey 2,20⟩]

/-- Two customers, and nothing else. -/
def customers : (table : Table) → TupleSet (Row table.primaryKeyColumns Nat)
  | .customer => twoCustomers
  | .lineorder => .ofRows []
  | .supplier => .ofRows []
  | .part => .ofRows []
  | .date => .ofRows []

def customerRecords : Records plain
  | .customer => updates
  | .lineorder => []
  | .supplier => []
  | .part => []
  | .date => []

def supplierRecords : Records plain
  | .supplier => [changed .insert 5 50]
  | .lineorder => []
  | .customer => []
  | .part => []
  | .date => []

def customerPump : Pump (Deltas plain) where
  deltas
    | .customer => [(0,.ofRows updates)]
    | .lineorder => []
    | .supplier => []
    | .part => []
    | .date => []
  timestamp := 1
  distinct table := by cases table <;> decide

def supplierPump : Pump (Deltas plain) where
  deltas
    | .supplier => [(0,.ofRows [changed .insert 5 50])]
    | .lineorder => []
    | .customer => []
    | .part => []
    | .date => []
  timestamp := 2
  distinct table := by cases table <;> decide

def firstHeld : Held (Deltas plain) (List Bool) := ⟨.customer,0,[⟨.ofRows updates,1⟩],none⟩

def firstMerged : MergedDeltaMessage (Deltas plain .customer) (List Bool) := ⟨⟨[updates]⟩,some [false,true]⟩

def firstLoad : Handled Nat plain := ⟨.loadMemoryDelta 0 ⟨.customer,0,1⟩ customerPump firstHeld.deltas,customerRecords⟩

def firstStore : Handled Nat plain := ⟨.storeMergedDelta 0 firstHeld firstMerged,fun _ => []⟩

def secondLoad : Handled Nat plain :=
  ⟨.loadMemoryDelta 1 ⟨.customer,0,2⟩ supplierPump [⟨⟨[updates]⟩,1⟩],supplierRecords⟩

def handle (before : State Nat plain) (handled : Handled Nat plain) : State Nat plain :=
  (match handled.action with
    | .loadMemoryDelta op msg pump deltas => ⟨(loadMemoryDelta before.1.actor msg pump).1,
      Function.update before.1.held op
        (some ⟨msg.table,msg.deltaKey,deltas,(loadMemoryDelta before.1.actor msg pump).2.stableBm⟩)⟩
    | .deltaPump pump => ⟨deltaPump before.1.actor pump,before.1.held⟩
    | .storeMergedDelta op held msg =>
      ⟨storeMergedDelta before.1.actor held.table held.partition msg,Function.update before.1.held op none⟩,
    before.2.after before.1 handled)

def secondLoaded : State Nat plain := handle (handle (handle (State.initial Nat plain) firstLoad) firstStore) secondLoad

theorem customers_order (table : Table) (_ : Int) : Ascending Row.key (customers table).rows := by
  cases table <;> decide

theorem updates_mergeable : Mergeable .chunked twoCustomers [(⟨⟨[updates]⟩,1⟩ : DeltaVersion 1 Nat)] where
  filled _ σ project := .inr (by simp [TableBatchReader.chunked,TupleSet.projectExist,twoCustomers,TupleSet.ofRows])
  positive := by decide
  one := .inl (by simp)
  batches combined found := by
    cases found
    exact .inr ⟨⟨0,⟨1,changed .update 1 11,by decide,by decide⟩,by decide,by decide⟩,trivial⟩

theorem run_secondLoaded : Run (Meeting
      (Meets .chunked fun table _ => customers table) (StepTo .chunked fun table _ => customers table))
      (State.initial Nat plain)
    [firstLoad,firstStore,secondLoad] secondLoaded := by
  have pumped : ∀ table, BinlogParser.pump table (customerRecords table) = some (customerPump.deltas table) := by
    intro table
    cases table <;> rfl
  have later : ∀ table, BinlogParser.pump table (supplierRecords table) = some (supplierPump.deltas table) := by
    intro table
    cases table <;> rfl
  have once : ∀ table, ((customerRecords table).map (·.key)).Nodup ∧ ((supplierRecords table).map (·.key)).Nodup := by
    intro table
    cases table <;> decide
  have load : Meeting
      (Meets .chunked fun table _ => customers table) (StepTo .chunked fun table _ => customers table)
        (State.initial Nat plain) firstLoad
      (handle (State.initial Nat plain) firstLoad) := by
    refine ⟨⟨?_,?_,trivial⟩,⟨Step.loadMemoryDelta 0 ⟨.customer,0,1⟩ customerPump (.refl _),?_,trivial,rfl⟩⟩
    · exact fun _ _ table => single_of_distinct (once table).1
    · intro pump made table partition _
      obtain rfl := Option.some.inj made
      exact Int.zero_lt_one
    · intro pump made
      obtain rfl := Option.some.inj made
      exact pumped
  have moves : Step (handle (State.initial Nat plain) firstLoad).1 (.storeMergedDelta 0 firstHeld firstMerged)
      (handle (handle (State.initial Nat plain) firstLoad) firstStore).1 :=
    @Step.storeMergedDelta _ _ _ _ _ _ (handle (State.initial Nat plain) firstLoad).1 0 firstHeld firstMerged rfl
      (List.cons_ne_nil _ _)
  have unpumped : ∀ pump, pump ∉ firstStore.action.pump (handle (State.initial Nat plain) firstLoad).1 :=
      fun pump made =>
    Option.some_ne_none pump (Option.mem_def.mp made).symm
  have store : Meeting
      (Meets .chunked fun table _ => customers table) (StepTo .chunked fun table _ => customers table)
        (handle (State.initial Nat plain) firstLoad)
      firstStore (handle (handle (State.initial Nat plain) firstLoad) firstStore) :=
    ⟨⟨fun _ made => absurd made (unpumped _),fun _ made => absurd made (unpumped _),updates_mergeable,rfl⟩,
      ⟨moves,fun _ made => absurd made (unpumped _),⟨Row 1 Nat,id,_,rfl⟩,rfl⟩⟩
  have again : Meeting (Meets .chunked fun table _ => customers table) (StepTo .chunked fun table _ => customers table)
      (handle (handle (State.initial Nat plain) firstLoad) firstStore) secondLoad secondLoaded := by
    refine ⟨⟨?_,?_,trivial⟩,⟨Step.loadMemoryDelta 1 ⟨.customer,0,2⟩ supplierPump (.refl _),?_,trivial,rfl⟩⟩
    · exact fun _ _ table => single_of_distinct (once table).2
    · intro pump made table partition _
      obtain rfl := Option.some.inj made
      exact Int.lt_succ 1
    · intro pump made
      obtain rfl := Option.some.inj made
      exact later
  exact ((Run.nil.snoc load).snoc store).snoc again

theorem query_secondLoaded : Query .chunked (fun table _ => customers table) secondLoaded .customer [1] (fun _ => 0)
    (fun _ => [⟨⟨[updates]⟩,1⟩]) updates where
  once := List.nodup_singleton _
  loaded := List.forall_mem_singleton.mpr ⟨_,rfl⟩
  seen := List.forall_mem_singleton.mpr rfl
  covered _ _ := ⟨1,List.mem_singleton_self _,rfl⟩
  placed := List.forall_mem_singleton.mpr fun _ _ => rfl
  mergeable := List.forall_mem_singleton.mpr updates_mergeable

end Examples
end Hermes.FreshReads
