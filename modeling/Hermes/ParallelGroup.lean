import Hermes.GroupOutput
import Hermes.ShuffleRuns

/-! A grouping in several instances, as `transformGroup` wires it: what is to be grouped is shuffled on the group
columns, and the instances together give what one gives. -/
namespace Hermes.Group
open Hermes.Tuples Hermes.Library Hermes.Library.Fallible Hermes.Library.ListJoin
open Hermes.Shuffle (ShuffleRun allSent allReceived route)
variable {α ν : Type} [DecidableEq ν]

/-- The kernel comes to its end with a table of these rows. -/
def GivesRows (groupColumnNames : List String) (aggregateFunctions : List (AggregateFunction ν)) (runtime : Runtime ν)
    (pieces : List (Table ν)) (answer : List (List (Option ν))) : Prop :=
  ∃ columns, GroupKernel.groupAll runtime (.make groupColumnNames aggregateFunctions) (pieces.map some) = .ok columns ∧
    columns.map ColumnBuilder.name =
      groupColumnNames.map canonicalize ++ aggregateFunctions.map AggregateFunction.outputColumnName ∧
    columns.map ColumnBuilder.values = (List.range (groupColumnNames.length+aggregateFunctions.length)).map fun c =>
      answer.map fun row => row[c]?.join

def Unordered (function : AggregateFunction ν) : Prop :=
  ∀ types rows others, List.Perm rows others → function.compute types rows = function.compute types others

/-- The operators of a grouping in several instances, with what each instance gets. -/
structure ParallelGroup (α ν : Type) where
  shufflePOps : List (ShuffleRun α ν)
  groupPOps : List String
  pieces : Nat → List (Table ν)

section
variable {groupColumnNames : List String} {aggregateFunctions : List (AggregateFunction ν)} {fields : List Field}
  {all own : List (Record ν)} {runtime : Runtime ν}

omit [DecidableEq ν] in
theorem aggregate_perm {function : AggregateFunction ν} (unordered : Unordered function)
    {group others : List (Record ν)}
    (same : group.Perm others) : aggregate fields function group = aggregate fields function others :=
  unordered _ _ _ (same.map _)

theorem rowOf_perm (unordered : ∀ function ∈ aggregateFunctions, Unordered function)
    {key : List (List (DataType × Option ν))}
    (whole : (own.filter fun record => keyOf groupColumnNames record = key).Perm
      (all.filter fun record => keyOf groupColumnNames record = key)) :
    rowOf groupColumnNames aggregateFunctions fields own key =
    rowOf groupColumnNames aggregateFunctions fields all key := by
  have each : ∀ function ∈ aggregateFunctions,
      aggregate fields function (own.filter fun record => keyOf groupColumnNames record = key) =
        aggregate fields function (all.filter fun record => keyOf groupColumnNames record = key) :=
    fun function inside => aggregate_perm (unordered function inside) whole
  rw [rowOf,rowOf,mapM_congr each]

theorem gives_of_holds {pieces : List (Table ν)} (same : ∀ piece ∈ pieces, piece.fields = fields)
    (holds : HoldsWhen groupColumnNames aggregateFunctions fields runtime pieces) :
    ∃ rows answer, GivesRows groupColumnNames aggregateFunctions runtime pieces answer ∧ answer.Perm rows ∧
      ((records pieces).map (keyOf groupColumnNames)).dedup.mapM
        (rowOf groupColumnNames aggregateFunctions fields (records pieces)) = .ok rows := by
  cases pieces with
  | nil => exact absurd rfl holds.piece
  | cons piece pieces =>
    obtain ⟨rfl,later⟩ := List.forall_mem_cons.mp same
    obtain ⟨columns,rows,answer,ran,made,order,names,values⟩ := groupsBy_of_holds later holds
    exact ⟨rows,answer,⟨columns,ran,names,values⟩,order,made⟩

theorem HoldsWhen.part {pieces parts : List (Table ν)}
    (holds : HoldsWhen groupColumnNames aggregateFunctions fields runtime pieces)
    (unordered : ∀ function ∈ aggregateFunctions, Unordered function) (canonical : canonicalSchema fields = fields)
    (piece : parts ≠ []) (inside : ∀ record ∈ records parts, record ∈ records pieces)
    (whole : ∀ record ∈ records parts, ((records parts).filter fun other => keyOf groupColumnNames other = keyOf groupColumnNames record).Perm
      ((records pieces).filter fun other => keyOf groupColumnNames other = keyOf groupColumnNames record)) :
    HoldsWhen groupColumnNames aggregateFunctions fields runtime parts := by
  have present : records parts ≠ [] → records pieces ≠ [] := by
    intro nonempty
    obtain ⟨record,there⟩ := List.exists_mem_of_ne_nil _ nonempty
    exact List.ne_nil_of_mem (inside record there)
  refine ⟨piece,fun _ => canonical,holds.groupColumns,holds.aggregateColumns,?_,holds.someColumn,
    fun nonempty => holds.keyTypes (present nonempty),fun nonempty => holds.appenders (present nonempty),
    fun nonempty => holds.firstColumn (present nonempty),?_,?_⟩
  · exact fun function member either => holds.spelled function member (either.imp_right present)
  · intro record there cell member
    obtain ⟨type,value,same,number⟩ := holds.keys record (inside record there) cell member
    refine ⟨type,value,same,fun isNaN => ?_⟩
    obtain ⟨none,once⟩ := number isNaN
    exact ⟨none,(whole record there).length_eq.trans once⟩
  · intro record there function member
    obtain ⟨type,value,made,typed⟩ := holds.results record (inside record there) function member
    exact ⟨type,value,(aggregate_perm (unordered function member) (whole record there)).trans made,typed⟩

end

namespace ParallelGroup
variable (plan : ParallelGroup α ν)

/-- The instances get what the shuffles send to them, in any order and cut. -/
structure Wired (runtime : Shuffle.Runtime ν) (under : DataType → ν) (groupColumnNames : List String)
    (fields : List Field) : Prop where
  instances : plan.groupPOps ≠ []
  canonical : canonicalSchema fields = fields
  distributes : ∀ run ∈ plan.shufflePOps, run.Distributes under groupColumnNames plan.groupPOps fields
  fields : ∀ k, ∀ piece ∈ plan.pieces k, piece.fields = fields
  sent : ∀ (k : Nat) name, plan.groupPOps[k]? = some name →
    plan.pieces k ≠ [] ∧ (records (plan.pieces k)).Perm (allSent runtime plan.shufflePOps name)

variable {plan} {runtime : Shuffle.Runtime ν} {under : DataType → ν} {groupColumnNames : List String}
    {fields : List Field}
  {aggregateFunctions : List (AggregateFunction ν)} {rt : Runtime ν}

omit [DecidableEq ν] in
theorem Wired.records (wired : plan.Wired runtime under groupColumnNames fields) {k : Nat}
    (bound : k < plan.groupPOps.length) :
    (records (plan.pieces k)).Perm ((allReceived plan.shufflePOps).filter fun record =>
      route runtime under groupColumnNames plan.groupPOps.length record == k) := by
  have sent := (wired.sent k _ (List.getElem?_eq_getElem bound)).2
  rw [Shuffle.allSent_eq wired.distributes runtime (List.getElem?_eq_getElem bound)] at sent
  exact sent

theorem Wired.whole (wired : plan.Wired runtime under groupColumnNames fields) {k : Nat}
    (bound : k < plan.groupPOps.length) {record : Record ν} (inside : record ∈ Group.records (plan.pieces k)) :
    ((Group.records (plan.pieces k)).filter fun other => keyOf groupColumnNames other = keyOf groupColumnNames record).Perm
      ((allReceived plan.shufflePOps).filter fun other => keyOf groupColumnNames other = keyOf groupColumnNames record) := by
  have here := beq_iff_eq.mp (List.mem_filter.mp ((wired.records bound).mem_iff.mp inside)).2
  refine ((wired.records bound).filter _).trans (List.Perm.of_eq ?_)
  rw [List.filter_filter]
  apply List.filter_congr
  intro other _
  by_cases same : keyOf groupColumnNames other = keyOf groupColumnNames record
  · have routed : route runtime under groupColumnNames plan.groupPOps.length other = k := by
      rw [← here,route,route]
      exact congrArg (fun key => (Shuffle.hashKey runtime under key).toNat % plan.groupPOps.length) same
    rw [routed,beq_self_eq_true,Bool.and_true]
  · rw [decide_eq_false same,Bool.false_and]

theorem Wired.keys (wired : plan.Wired runtime under groupColumnNames fields) :
    ((List.range plan.groupPOps.length).flatMap fun k => ((Group.records (plan.pieces k)).map (keyOf groupColumnNames)).dedup).Perm
      ((allReceived plan.shufflePOps).map (keyOf groupColumnNames)).dedup := by
  have together : ∀ record ∈ allReceived plan.shufflePOps, ∀ other ∈ allReceived plan.shufflePOps,
      keyOf groupColumnNames record = keyOf groupColumnNames other →
        route runtime under groupColumnNames plan.groupPOps.length record =
          route runtime under groupColumnNames plan.groupPOps.length other := by
    intro record _ other _ same
    rw [route,route]
    exact congrArg (fun key => (Shuffle.hashKey runtime under key).toNat % plan.groupPOps.length) same
  refine List.Perm.trans (List.Perm.flatMap_left _ ?_) (dedup_parts together fun record _ =>
    Shuffle.route_lt runtime under groupColumnNames wired.instances record)
  exact fun k inside => ((wired.records (List.mem_range.mp inside)).map _).dedup

/-- Where one instance would give its rows, all give theirs, and together the same. -/
theorem parallel_group {single : List (Table ν)} (wired : plan.Wired runtime under groupColumnNames fields)
    (unordered : ∀ function ∈ aggregateFunctions, Unordered function) (same : ∀ piece ∈ single, piece.fields = fields)
    (received : (Group.records single).Perm (allReceived plan.shufflePOps))
    (holds : HoldsWhen groupColumnNames aggregateFunctions fields rt single) :
    ∃ answers : Nat → List (List (Option ν)), ∃ answer,
      (∀ k < plan.groupPOps.length, GivesRows groupColumnNames aggregateFunctions rt (plan.pieces k) (answers k)) ∧
      GivesRows groupColumnNames aggregateFunctions rt single answer ∧
      ((List.range plan.groupPOps.length).flatMap answers).Perm answer := by
  have whole : ∀ k < plan.groupPOps.length, ∀ record ∈ Group.records (plan.pieces k),
      ((Group.records (plan.pieces k)).filter fun other => keyOf groupColumnNames other = keyOf groupColumnNames record).Perm
        ((Group.records single).filter fun other => keyOf groupColumnNames other = keyOf groupColumnNames record) :=
    fun k bound record inside => (wired.whole bound inside).trans (received.symm.filter _)
  have each : ∀ k < plan.groupPOps.length, ∃ rows answer,
      GivesRows groupColumnNames aggregateFunctions rt (plan.pieces k) answer ∧ answer.Perm rows ∧
        ((Group.records (plan.pieces k)).map (keyOf groupColumnNames)).dedup.mapM
          (rowOf groupColumnNames aggregateFunctions fields (Group.records single)) = .ok rows := by
    intro k bound
    have inside : ∀ record ∈ Group.records (plan.pieces k), record ∈ Group.records single := fun record there =>
      received.mem_iff.mpr (List.mem_of_mem_filter ((wired.records bound).mem_iff.mp there))
    have part := holds.part unordered wired.canonical (wired.sent k _ (List.getElem?_eq_getElem bound)).1 inside
        (whole k bound)
    obtain ⟨rows,answer,gives,order,made⟩ := gives_of_holds (wired.fields k) part
    refine ⟨rows,answer,gives,order,Eq.trans (mapM_congr fun key member => ?_) made⟩
    obtain ⟨record,there,rfl⟩ := List.mem_map.mp (List.mem_dedup.mp member)
    exact (rowOf_perm unordered (whole k bound record there)).symm
  obtain ⟨rows,answer,gives,order,made⟩ := gives_of_holds same holds
  choose! parts answers given orders mades using each
  refine ⟨answers,answer,given,gives,?_⟩
  have parted : ((List.range plan.groupPOps.length).flatMap parts).Perm rows := by
    have all := (mapM_eq_ok.mp made)
    rw [eq_filterMap_of_ok all]
    refine List.Perm.trans (List.Perm.of_eq ?_) ((wired.keys.trans (received.symm.map _).dedup).filterMap _)
    rw [List.filterMap_flatMap]
    apply List.flatMap_congr
    exact fun k inside => eq_filterMap_of_ok (mapM_eq_ok.mp (mades k (List.mem_range.mp inside)))
  exact (List.Perm.flatMap_left _ fun k inside => orders k (List.mem_range.mp inside)).trans (parted.trans order.symm)

end ParallelGroup

section Examples

theorem unordered_countStar (outputColumnName : String) : Unordered (countStar outputColumnName) := by
  intro types rows others same
  simp only [countStar,same.length_eq]

theorem unordered_sumOf (outputColumnName columnName : String) : Unordered (sumOf outputColumnName columnName) := by
  intro types rows others same
  have values : (⟨types.headD .int64,rows.map fun row => row.head?.join⟩ : Aggregate.ChunkedArray).valid.Perm
      (⟨types.headD .int64,others.map fun row => row.head?.join⟩ : Aggregate.ChunkedArray).valid :=
        (same.map _).filterMap _
  simp only [sumOf,onColumn,Aggregate.Compute.sum,values.sum_eq]
  have none : (⟨types.headD .int64,rows.map fun row => row.head?.join⟩ : Aggregate.ChunkedArray).valid = [] ↔
      (⟨types.headD .int64,others.map fun row => row.head?.join⟩ : Aggregate.ChunkedArray).valid = [] :=
    ⟨fun empty => by rw [empty] at values; exact values.nil_eq.symm,fun empty => by rw [empty] at values; exact values.eq_nil⟩
  simp only [none]

/-- Numbers that hash to their numerators, tables of one batch. -/
def hashRuntime : Shuffle.Runtime ℚ where
  hash _ value := UInt64.ofNat value.num.toNat
  blank _ := 0
  batches table := [table.rows.attach.map fun row => ⟨row.1,table.shaped row.1 row.2⟩]
  batches_flatten table := by simp

def sales : Table ℚ := keyed "k" "v" [(some 1,some 10),(some 2,some 20),(some 1,some 30)]

def shuffledSales : ShuffleRun Unit ℚ :=
  ⟨Shuffle.shuffleBetween ["k"] ["scan"] ["group0","group1"],(· ∈ ["scan"]),
    [.content "scan" (some sales),.complete "scan"]⟩

/-- The rows of one instance. -/
def salesPart (k : Nat) : Table ℚ where
  fields := sales.fields
  rows := sales.rows.filter fun row => route hashRuntime (fun _ => 0) ["k"] 2 (recordOf sales.fields row) == k
  shaped row inside := sales.shaped row (List.mem_of_mem_filter inside)

def twoGroups : ParallelGroup Unit ℚ := ⟨[shuffledSales],["group0","group1"],fun k => [salesPart k]⟩

theorem shuffledSales_distributes : shuffledSales.Distributes (fun _ => 0) ["k"] ["group0","group1"] sales.fields where
  fresh := Shuffle.shuffleBetween_started _ (List.cons_ne_nil _ _) (List.nodup_singleton _) (by decide) (by decide)
  hashes := rfl
  feeds := rfl
  produced := ⟨by simp [shuffledSales,Operators.Waiting.sender],by simp [shuffledSales,Operators.Waiting.sender]⟩
  acceptable := by
    intro sender tupleSet inside
    simp only [shuffledSales,List.mem_cons,List.not_mem_nil,or_false,Operators.Waiting.content.injEq,
      reduceCtorEq] at inside
    obtain ⟨_,rfl⟩ := inside
    refine ⟨_,rfl,.inl rfl,.inr ⟨?_,by decide,by simp [sales,keyed]⟩⟩
    intro name asked
    refine ⟨0,⟨"k",.int64⟩,?_,rfl,rfl,?_⟩
    · rw [List.mem_singleton.mp asked]
      exact (by decide : getFieldIndex [⟨"k",.int64⟩,⟨"v",.int64⟩] (canonicalize "k") = some 0)
    · decide +kernel
  finished := by
    intro producer known
    rw [List.mem_singleton.mp known]
    simp [shuffledSales]

theorem twoGroups_wired : twoGroups.Wired hashRuntime (fun _ => 0) ["k"] sales.fields where
  instances := List.cons_ne_nil _ _
  canonical := by decide
  distributes := List.forall_mem_singleton.mpr shuffledSales_distributes
  fields k := List.forall_mem_singleton.mpr rfl
  sent k name here := by
    refine ⟨List.cons_ne_nil _ _,?_⟩
    have sent := Shuffle.allSent_eq (List.forall_mem_singleton.mpr shuffledSales_distributes) hashRuntime here
    have all : allReceived [shuffledSales] = sales.rows.map (recordOf sales.fields) := rfl
    rw [all,List.filter_map] at sent
    refine List.Perm.trans (List.Perm.of_eq ?_) (List.Perm.of_eq sent.symm)
    exact List.append_nil _

theorem sales_holds : HoldsWhen ["k"] [sumOf "s" "v",countStar "c"] sales.fields plainRuntime [sales] := by
  have same : records [sales] =
      [(1,10),(2,20),(1,30)].map fun row : ℚ × ℚ => recordOf sales.fields [⟨true,row.1⟩,⟨true,row.2⟩] := rfl
  refine ⟨List.cons_ne_nil _ _,fun _ => by decide +kernel,by decide +kernel,by decide +kernel,?_,by decide,?_,?_,
    ?_,?_,?_⟩
  · intro function inside _
    revert function
    decide +kernel
  · intro _
    decide +kernel
  · intro _
    decide +kernel
  · intro _
    decide +kernel
  · rw [same]
    intro record member cell inside
    obtain ⟨row,_,rfl⟩ := List.mem_map.mp member
    exact ⟨.int64,row.1,List.mem_singleton.mp inside,fun wrong => absurd wrong Bool.false_ne_true⟩
  · rw [same]
    refine List.forall_mem_cons.mpr ⟨?_,List.forall_mem_cons.mpr ⟨?_,List.forall_mem_singleton.mpr ?_⟩⟩
    · refine List.forall_mem_cons.mpr ⟨⟨.int64,40,?_⟩,List.forall_mem_singleton.mpr ⟨.int64,2,?_⟩⟩ <;> decide +kernel
    · refine List.forall_mem_cons.mpr ⟨⟨.int64,20,?_⟩,List.forall_mem_singleton.mpr ⟨.int64,1,?_⟩⟩ <;> decide +kernel
    · refine List.forall_mem_cons.mpr ⟨⟨.int64,40,?_⟩,List.forall_mem_singleton.mpr ⟨.int64,2,?_⟩⟩ <;> decide +kernel

theorem twoGroups_group : ∃ answers : Nat → List (List (Option ℚ)), ∃ answer,
    (∀ k < 2, GivesRows ["k"] [sumOf "s" "v",countStar "c"] plainRuntime [salesPart k] (answers k)) ∧
      GivesRows ["k"] [sumOf "s" "v",countStar "c"] plainRuntime [sales] answer ∧
        ((List.range 2).flatMap answers).Perm answer := by
  apply ParallelGroup.parallel_group twoGroups_wired
  · exact List.forall_mem_cons.mpr ⟨unordered_sumOf _ _,List.forall_mem_singleton.mpr (unordered_countStar _)⟩
  · exact List.forall_mem_singleton.mpr rfl
  · exact List.Perm.of_eq (List.append_nil _)
  · exact sales_holds

end Examples
end Hermes.Group
