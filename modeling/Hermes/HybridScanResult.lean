import Hermes.HybridScanOutput

/-! When a hybrid scan emits what a plain filtered scan would. -/
namespace Hermes.HybridScan
open Hermes.Tuples Hermes.Operators Hermes.Library.Network Hermes.Library.Transition
variable {ν : Type}

namespace PartitionScan

def Known (plan : PartitionScan ν) (columnName : String) : Prop :=
  plan.cached columnName = true ∨ plan.mayCache columnName = true

/-- There is no predicate; some projected column, with Airmettle every one, is a hit or may
be cached; and where the partition has no row all projected columns are hits. -/
structure Served (plan : PartitionScan ν) : Prop where
  unfiltered : plan.predicate = none
  projects : plan.projectColumnNames ≠ []
  known : if plan.s3ClientType ≠ .AIRMETTLE then ∃ columnName ∈ plan.projectColumnNames, plan.Known columnName
    else ∀ columnName ∈ plan.projectColumnNames, plan.Known columnName
  rows : plan.partition.records ≠ [] ∨ ∀ columnName ∈ plan.projectColumnNames, plan.cached columnName = true

variable {plan : PartitionScan ν}

theorem mem_projPred_unfiltered (unfiltered : plan.predicate = none) {columnName : String} :
    columnName ∈ plan.projPredColumnNames ↔ columnName ∈ plan.projectColumnNames := by
  rw [mem_projPred,predicateColumnNames,unfiltered]
  simp

theorem known_iff {columnName : String} (inside : columnName ∈ plan.projPredColumnNames) :
    plan.Known columnName ↔ columnName ∈ plan.hits ∨ columnName ∈ plan.toCache := by
  rw [Known,mem_hits,mem_toCache]
  cases plan.cached columnName <;> simp [inside]

theorem lengths_iff : plan.hits.length + plan.toCache.length = plan.projPredColumnNames.length ↔
    ∀ columnName ∈ plan.projPredColumnNames, plan.Known columnName := by
  have split : plan.hits.length + (plan.projPredColumnNames.filter fun key => !plan.cached key).length =
      plan.projPredColumnNames.length := by
    have parts := List.length_eq_length_filter_add (l := plan.projPredColumnNames) plan.cached
    exact parts.symm
  rw [← split,Nat.add_left_cancel_iff,toCache,List.length_filter_eq_length_iff]
  simp only [List.mem_filter,Bool.not_eq_true',Known]
  constructor
  · intro granted columnName inside
    cases cached : plan.cached columnName with
    | true => exact .inl rfl
    | false => exact .inr (granted columnName ⟨inside,cached⟩)
  · rintro known columnName ⟨inside,missed⟩
    refine (known columnName inside).resolve_left ?_
    rw [missed]
    exact Bool.false_ne_true

theorem needed_iff (unfiltered : plan.predicate = none) : plan.needed = true ↔
    if plan.s3ClientType ≠ .AIRMETTLE then ∃ columnName ∈ plan.projectColumnNames, plan.Known columnName
    else ∀ columnName ∈ plan.projectColumnNames, plan.Known columnName := by
  rw [needed,CacheLoadPOp.cachingResultNeeded,hitColumnNames_hits]
  change (if plan.s3ClientType ≠ .AIRMETTLE then plan.predicateColumnNames.all _ && plan.projectColumnNames.any _ else
    decide (plan.hits.length + plan.toCache.length = plan.projPredColumnNames.length)) = true ↔ _
  split
  next =>
    have none : plan.predicateColumnNames = [] := by
      rw [predicateColumnNames,unfiltered]
      rfl
    rw [none,List.all_nil,Bool.true_and,List.any_eq_true]
    apply exists_congr
    intro columnName
    apply and_congr_right
    intro inside
    rw [decide_eq_true_eq,known_iff ((mem_projPred_unfiltered unfiltered).mpr inside)]
  next =>
    rw [decide_eq_true_eq,lengths_iff]
    simp only [mem_projPred_unfiltered unfiltered]

theorem served_iff (unfiltered : plan.predicate = none) : plan.Served ↔ plan.localColumns ≠ [] ∧
    ∀ columnName ∈ plan.projectColumnNames, columnName ∈ plan.localColumns ++ plan.pushedColumns := by
  constructor
  · intro served
    have needed := (needed_iff unfiltered).mpr served.known
    have cached : plan.cachedColumns = plan.hits := by rw [cachedColumns,if_pos needed]
    have hitLocal : ∀ columnName ∈ plan.projectColumnNames, plan.cached columnName = true →
        columnName ∈ plan.localColumns := by
      intro columnName inside hit
      rw [mem_local,cached]
      exact List.mem_append_left _ (plan.mem_hits.mpr ⟨(mem_projPred_unfiltered unfiltered).mpr inside,hit⟩)
    obtain ⟨some,projected⟩ := List.exists_mem_of_ne_nil _ served.projects
    by_cases blank : plan.partition.records = []
    · have allHits := served.rows.resolve_left (not_not.mpr blank)
      refine ⟨List.ne_nil_of_mem (hitLocal some projected (allHits some projected)),?_⟩
      intro columnName inside
      exact List.mem_append_left _ (hitLocal columnName inside (allHits columnName inside))
    · have filled : plan.partition.records.isEmpty = false := by simpa using blank
      have read : plan.readColumns = plan.toCache := by
        rw [readColumns,needed,filled]
        rfl
      have knownLocal : ∀ columnName ∈ plan.projectColumnNames, plan.Known columnName →
          columnName ∈ plan.localColumns := by
        intro columnName inside known
        rw [mem_local,cached,read,List.mem_append]
        exact (known_iff ((mem_projPred_unfiltered unfiltered).mpr inside)).mp known
      have anyKnown : ∃ columnName ∈ plan.projectColumnNames, plan.Known columnName := by
        have known := served.known
        split at known
        next => exact known
        next => exact ⟨some,projected,known some projected⟩
      obtain ⟨columnName,inside,known⟩ := anyKnown
      refine ⟨List.ne_nil_of_mem (knownLocal columnName inside known),?_⟩
      intro other inside
      rw [List.mem_append]
      by_cases known : plan.Known other
      · exact .inl (knownLocal other inside known)
      · right
        have asked := (mem_projPred_unfiltered unfiltered).mpr inside
        rw [known_iff asked,not_or] at known
        rw [pushedColumns,filled,if_neg Bool.false_ne_true,pushed,if_pos needed]
        exact List.mem_filter.mpr ⟨asked,decide_eq_true known⟩
  · rintro ⟨some,arrive⟩
    obtain ⟨columnName,inside⟩ := List.exists_mem_of_ne_nil _ some
    have projected := (mem_projPred_unfiltered unfiltered).mp (List.mem_of_mem_filter inside)
    refine ⟨unfiltered,List.ne_nil_of_mem projected,(needed_iff unfiltered).mp (plan.needed_of_local some),?_⟩
    by_cases blank : plan.partition.records = []
    · right
      intro other there
      have none : plan.partition.records.isEmpty = true := by simpa using blank
      have arrived := arrive other there
      rw [pushedColumns,none,if_pos rfl,List.append_nil,mem_local,readColumns,none,Bool.not_true,Bool.and_false,
        if_neg Bool.false_ne_true,List.append_nil] at arrived
      exact (plan.mem_hits.mp (plan.hits_sublist.subset arrived)).2
    · exact .inl blank

theorem expected_unfiltered (unfiltered : plan.predicate = none) :
    plan.expected = plan.partition.part plan.projectColumnNames := by
  rw [expected,unfiltered]
  rfl

variable {configuration : Configuration plan.nodes} {histories : HybridPOp → List (HybridPOp × Message ν)}

theorem sent_downstream (process : Process (MergePOp ν) Unit (Table ν)) {table : Table ν}
    (acts : process.ctx.acts = [.tell table,.notifyComplete]) :
    plan.sent .merge2 process .downstream = [.tuple (some table),.complete] := by
  change reaching _ (plan.connected .merge2 .downstream) _ process.ctx.acts = _
  rw [acts]
  rfl

theorem silent_merge {process : Process (MergePOp ν) Unit (Table ν)} {table : Table ν}
    (outcome : process.fault = none ∧ process.ctx.acts = [.tell table,.notifyComplete]) : Process.Silent process := by
  refine ⟨outcome.1,?_⟩
  rw [outcome.2]
  simp

theorem Settled.filter_silent (settled : plan.Settled configuration histories) (unfiltered : plan.predicate = none) :
    NoError .filter (configuration.states .filter) := by
  have apart : ∀ other, .filter ∉ plan.consumers other := by
    intro other
    cases other <;> simp [consumers,unfiltered]
  have heard := settled.heard_only .merge1 .filter fun other _ => ⟨apart other,fun _ => by decide⟩
  have nothing : plan.sent .merge1 (configuration.states .merge1) .filter = [] :=
    plan.sent_unconnected _ (apart .merge1) fun wrong => by cases wrong
  rw [nothing] at heard
  rw [settled.states,heard]
  exact ⟨rfl,fun _ => List.not_mem_nil⟩

theorem Settled.cacheLoad_silent (settled : plan.Settled configuration histories) :
    NoError .cacheLoad (configuration.states .cacheLoad) := by
  rw [settled.cacheLoad_state]
  refine ⟨rfl,?_⟩
  intro content
  simp [cacheLoadAnswered,answerActs,ctx]

theorem Settled.exact_iff (settled : plan.Settled configuration histories) (unfiltered : plan.predicate = none) :
    plan.Exact configuration ↔ plan.localColumns ≠ [] ∧
      ∀ columnName ∈ plan.projectColumnNames, columnName ∈ plan.localColumns ++ plan.pushedColumns := by
  have emittedKnown : ∀ columnName ∈ plan.emittedColumns, columnName ∈ plan.partition.columnNames :=
      fun columnName inside =>
    plan.projected columnName (List.mem_of_mem_filter inside)
  constructor
  · rintro ⟨noError,tables,told,fields,-⟩
    have first : Process.Silent _ := noError .merge1
    refine ⟨(settled.merge1_silent rfl first).1,?_⟩
    have second : Process.Silent _ := noError .merge2
    have outcome := settled.merge2_state unfiltered rfl first rfl
    split at outcome
    next =>
      rw [second.1] at outcome
      cases outcome
    next =>
      rw [sent_downstream _ outcome.2] at told
      have one : [.tuple (some (plan.partition.part plan.emittedColumns))] =
          tables.map fun table => (.tuple (some table) : Message ν) := List.append_cancel_right told
      obtain ⟨table,rfl,same⟩ := List.map_eq_singleton_iff.mp one.symm
      have names := congrArg (List.map Field.name) (fields table List.mem_cons_self)
      injection same with same
      rw [Option.some.inj same,expected_unfiltered unfiltered,S3Partition.part_names emittedKnown,
        S3Partition.part_names plan.projected] at names
      intro columnName inside
      rw [← names] at inside
      exact of_decide_eq_true (List.mem_filter.mp inside).2
  · rintro ⟨some,arrive⟩
    have whole : plan.emittedColumns = plan.projectColumnNames := by
      rw [emittedColumns,List.filter_eq_self]
      exact fun columnName inside => decide_eq_true (arrive columnName inside)
    have projects : plan.projectColumnNames ≠ [] := by
      obtain ⟨columnName,inside⟩ := List.exists_mem_of_ne_nil _ some
      exact List.ne_nil_of_mem ((mem_projPred_unfiltered unfiltered).mp (List.mem_of_mem_filter inside))
    have outcome := settled.merge1_state rfl
    rw [if_neg (by simpa using some)] at outcome
    have first := silent_merge outcome
    have outcome' := settled.merge2_state unfiltered rfl first rfl
    rw [whole,if_neg (by simpa using projects)] at outcome'
    refine ⟨?_,[plan.partition.part plan.projectColumnNames],?_,?_,?_⟩
    · intro op
      cases op with
      | segmentCache => trivial
      | downstream => trivial
      | cacheLoad => exact settled.cacheLoad_silent
      | scan => exact settled.scan_state.1
      | merge1 => exact first
      | filter => exact settled.filter_silent unfiltered
      | select => exact settled.select_state.1
      | merge2 => exact silent_merge outcome'
    · exact sent_downstream _ outcome'.2
    · intro table inside
      rw [List.mem_singleton.mp inside,expected_unfiltered unfiltered]
    · rw [List.flatMap_singleton,expected_unfiltered unfiltered]

end PartitionScan

/-- Whatever the order of the messages, once none is on its way the hybrid scan of a
partition has emitted what a plain filtered scan would, without an error, exactly if
there is no predicate, some projected column (with Airmettle every one) is a hit or may
be cached, and the partition has a row or every projected column is a hit. -/
theorem hybrid_scan_exact_iff (plan : PartitionScan ν) {channels : List (HybridPOp × HybridPOp)}
    {configuration : Configuration plan.nodes} (run : Run Delivers (initial plan.nodes) channels configuration)
    (quiet : configuration.Quiet) : plan.Exact configuration ↔ plan.Served := by
  obtain ⟨histories,states,heard⟩ := settled run quiet
  have settled : plan.Settled configuration histories := ⟨states,heard⟩
  by_cases unfiltered : plan.predicate = none
  · rw [settled.exact_iff unfiltered,PartitionScan.served_iff unfiltered]
  · refine ⟨fun exact => ?_,fun served => absurd served.unfiltered unfiltered⟩
    have filtered : plan.predicate.isSome = true := Option.isSome_iff_ne_none.mpr unfiltered
    exact absurd (exact.noError .filter) (settled.filter_fails filtered rfl (exact.noError .merge1))

def cell (n : Int) : Slot Int := ⟨true,n⟩

/-- Two columns and two rows. -/
def twoColumns : S3Partition Int where
  bucket := "bucket"
  object := "object.csv"
  numBytes := 12
  fields := [⟨"a",.int64⟩,⟨"b",.int64⟩]
  records := [(4,[cell 1,cell 2]),(8,[cell 3,cell 4])]
  shaped := by decide
  inside := by decide
  ascending := by decide
  canonical := by decide
  unique := by decide

/-- Both columns without a predicate. The policy lets nothing in. -/
def scanTwoColumns (cached : String → Bool) : PartitionScan Int where
  prePOpId := 0
  partition := twoColumns
  projectColumnNames := ["a","b"]
  predicate := none
  s3ClientType := .S3
  cached := cached
  mayCache := fun _ => false
  projected := by decide
  involved := by decide

def operators : List HybridPOp := [.segmentCache,.cacheLoad,.scan,.merge1,.filter,.select,.merge2,.downstream]

theorem quiet_of_all {plan : PartitionScan ν} {configuration : Configuration plan.nodes}
    (all : (operators.all fun sender => operators.all fun recipient => (configuration.pending sender recipient).isNone) = true) :
    configuration.Quiet := by
  have every : ∀ op, op ∈ operators := by
    intro op
    cases op <;> decide
  intro sender recipient
  exact Option.isNone_iff_eq_none.mp (List.all_eq_true.mp (List.all_eq_true.mp all sender (every sender)) recipient
    (every recipient))

def answered : List (HybridPOp × HybridPOp) :=
  [(.segmentCache,.cacheLoad),(.cacheLoad,.merge1),(.cacheLoad,.scan),(.cacheLoad,.select),(.cacheLoad,.merge1),
    (.cacheLoad,.scan),(.cacheLoad,.select),(.scan,.merge1),(.select,.merge2),(.scan,.merge1),(.select,.merge2)]

/-- The column `a` is cached, and `b` is pushed down. -/
theorem half_cached_exact : ∃ channels configuration,
    Run Delivers (initial (scanTwoColumns (· == "a")).nodes) channels configuration ∧ configuration.Quiet ∧
      (scanTwoColumns (· == "a")).Exact configuration := by
  obtain ⟨configuration,run,all⟩ := @exists_run _ _ _ (scanTwoColumns (· == "a")).nodes
    (answered ++ [(.merge1,.merge2),(.merge1,.merge2),(.merge2,.downstream),(.merge2,.downstream)])
    (fun configuration => operators.all fun sender => operators.all fun recipient =>
      (configuration.pending sender recipient).isNone) (by decide +kernel)
  have served : (scanTwoColumns (· == "a")).Served := by
    refine ⟨rfl,by decide,?_,.inl (by decide)⟩
    exact ⟨"a",by decide,.inl (by decide)⟩
  exact ⟨_,configuration,run,quiet_of_all all,(hybrid_scan_exact_iff _ run (quiet_of_all all)).mpr served⟩

/-- Nothing is cached and nothing may be: the first merge has no column to project on. -/
theorem uncached_not_exact : ¬∀ (plan : PartitionScan Int) (channels : List (HybridPOp × HybridPOp))
    (configuration : Configuration plan.nodes), Run Delivers (initial plan.nodes) channels configuration →
      configuration.Quiet → plan.Exact configuration := by
  obtain ⟨configuration,run,checked⟩ := @exists_run _ _ _ (scanTwoColumns fun _ => false).nodes answered
    (fun configuration => (operators.all fun sender => operators.all fun recipient =>
      (configuration.pending sender recipient).isNone) &&
        decide (@Process.fault _ _ _ (configuration.states .merge1) = some .exception)) (by decide +kernel)
  rw [Bool.and_eq_true,decide_eq_true_eq] at checked
  intro exact'
  have silent : Process.Silent _ := (exact' _ _ configuration run (quiet_of_all checked.1)).noError .merge1
  have failed := checked.2
  rw [silent.1] at failed
  cases failed

end Hermes.HybridScan
