import Hermes.CacheLoadPOp
import Mathlib.Data.List.Infix

/-! `S3SelectPOp`: the columns it is told to read, of the rows its filter keeps, in one
request or in ranges one after another; and what it does with a scan message. -/
namespace Hermes.HybridScan
open Hermes.Tuples Hermes.Operators
variable {ν : Type}

/-- A predicate of a scan: the columns it reads, and the rows of the partition it holds for. -/
structure Predicate (ν : Type) where
  columnNames : List String
  holds : List (Slot ν) → Bool

/-- `DefaultS3RangeSize`. -/
def defaultS3RangeSize : Nat := 15*1024*1024

/-- Where a request of `s3SelectParallelReqs` ends; a small rest is taken along. -/
def reqEndOffset (finishOffset currentStartOffset : Nat) : Nat :=
  let ended := min (currentStartOffset + defaultS3RangeSize) finishOffset
  if 10*(finishOffset-ended) < 3*defaultS3RangeSize then finishOffset else ended

theorem le_reqEndOffset {finishOffset currentStartOffset : Nat} (more : currentStartOffset < finishOffset) :
    currentStartOffset ≤ reqEndOffset finishOffset currentStartOffset := by
  unfold reqEndOffset
  dsimp only
  split <;> omega

/-- The ranges of the requests, both ends in, over exact numbers: what the loop over 64-bit
offsets makes as long as nothing in it overflows (`Unsigned.parallelReqs_runs`). -/
def requestRanges (finishOffset currentStartOffset : Nat) : List (Nat × Nat) :=
  if more : currentStartOffset < finishOffset then
    (currentStartOffset,reqEndOffset finishOffset currentStartOffset)::
      requestRanges finishOffset (reqEndOffset finishOffset currentStartOffset + 1)
  else []
termination_by finishOffset - currentStartOffset
decreasing_by
  have := le_reqEndOffset more
  omega

structure S3SelectPOp (ν : Type) where
  name : String
  projectColumnNames : List String
  partition : S3Partition ν
  filterSql : Option (Predicate ν)
  startOffset : Nat
  finishOffset : Nat
  s3ClientType : S3ClientType
  scanOnStart : Bool
  toCache : Bool
  weightedSegmentKeys : List String

/-- The results of the requests in one table; those without a row are left out. `none` is an
abort, where Arrow refuses. -/
def joinTables (tables : List (Table ν)) : Option (Table ν) :=
  match tables.filter fun table => decide (0 < table.numRows) with
  | [] => some .empty
  | [table] => some table
  | table::others => (table.concatenateTables others).toOption

namespace S3SelectPOp

def keeps (op : S3SelectPOp ν) (row : List (Slot ν)) : Bool :=
  match op.filterSql with
  | some predicate => predicate.holds row
  | none => true

def scanRangeSupported (op : S3SelectPOp ν) : Bool :=
  !decide ("gz".toList <:+: op.partition.object.toList) && !decide ("bz2".toList <:+: op.partition.object.toList)

/-- One request: S3 answers with the rows that begin in the range, if one is given. Without
a row there is no payload, and the parser that is never initialized has no columns. -/
def s3Select (op : S3SelectPOp ν) (startOffset endOffset : Nat) : Table ν :=
  let selected := fun record : Nat × List (Slot ν) => op.keeps record.2 &&
    (op.s3ClientType == .AIRMETTLE || !op.scanRangeSupported || decide (startOffset ≤ record.1 ∧ record.1 ≤ endOffset))
  if (op.partition.records.filter selected).isEmpty then .empty
  else op.partition.cut selected op.projectColumnNames

def s3SelectParallelReqs (op : S3SelectPOp ν) : Option (Table ν) :=
  joinTables ((requestRanges op.finishOffset 0).map fun range => op.s3Select range.1 range.2)

/-- `none` is an abort. -/
def readTuples (op : S3SelectPOp ν) : Option (Table ν) :=
  if op.projectColumnNames.isEmpty then some .empty
  else if op.s3ClientType = .S3 ∧ op.scanRangeSupported ∧ defaultS3RangeSize < op.finishOffset-op.startOffset then
    op.s3SelectParallelReqs
  else some (op.s3Select op.startOffset op.finishOffset)

/-- The rest of `readTuples`: what was read goes to the cache, or the weights of the segments do. -/
def afterRead (op : S3SelectPOp ν) (ctx : POpContext Unit (Message ν)) (readTupleSet : Table ν) :
    POpContext Unit (Message ν) :=
  if op.projectColumnNames.isEmpty then ctx
  else if op.toCache then sendToCache ctx (.storeRequest (readTupleSet.fields.map Field.name))
  else if !op.weightedSegmentKeys.isEmpty && decide (0 < op.finishOffset-op.startOffset) then
    sendToCache ctx (.weightRequest op.weightedSegmentKeys)
  else ctx

def readAndSendTuples (op : S3SelectPOp ν) (ctx : POpContext Unit (Message ν)) :
    Process (S3SelectPOp ν) Unit (Message ν) :=
  match op.readTuples with
  | some readTupleSet =>
    ⟨op,((op.afterRead ctx readTupleSet).tell (.tuple (some readTupleSet))).notifyComplete,none⟩
  | none => ⟨op,ctx,some .exception⟩

def processScanMessage (op : S3SelectPOp ν) (columnNames : List String) : S3SelectPOp ν :=
  {op with projectColumnNames := columnNames}

/-- Where the result is not needed, it is read for the cache after the operator is complete. -/
def onCacheLoadResponse (op : S3SelectPOp ν) (ctx : POpContext Unit (Message ν)) (columnNames : List String)
    (resultNeeded : Bool) : Process (S3SelectPOp ν) Unit (Message ν) :=
  let op := op.processScanMessage columnNames
  if resultNeeded then op.readAndSendTuples ctx
  else
    let told := (ctx.tell (.tuple (some .empty))).notifyComplete
    match op.readTuples with
    | some readTupleSet => ⟨op,op.afterRead told readTupleSet,none⟩
    | none => ⟨op,told,some .exception⟩

def onStart (op : S3SelectPOp ν) (ctx : POpContext Unit (Message ν)) : Process (S3SelectPOp ν) Unit (Message ν) :=
  if op.scanOnStart then op.readAndSendTuples ctx else ⟨op,ctx,none⟩

def onReceive (op : S3SelectPOp ν) (ctx : POpContext Unit (Message ν)) :
    Waiting (Message ν) → Process (S3SelectPOp ν) Unit (Message ν)
  | .content _ (.scan columnNames resultNeeded) => op.onCacheLoadResponse ctx columnNames resultNeeded
  | .content _ message =>
    ⟨op,ctx.notifyError ("Unrecognized message type: " ++ message.getTypeString ++ ", " ++ op.name),none⟩
  | .complete _ => ⟨op,ctx,none⟩

end S3SelectPOp

theorem filter_ranges {ρ : Type} {startOffset endOffset : Nat} (bound : startOffset ≤ endOffset)
    (records : List (Nat × ρ)) (ascending : records.Pairwise fun earlier later => earlier.1 < later.1) :
    (records.filter fun record => decide (startOffset ≤ record.1 ∧ record.1 ≤ endOffset)) ++
        (records.filter fun record => decide (endOffset+1 ≤ record.1)) =
      records.filter fun record => decide (startOffset ≤ record.1) := by
  induction records with
  | nil => rfl
  | cons record records ih =>
    obtain ⟨below,ascending⟩ := List.pairwise_cons.mp ascending
    by_cases early : record.1 ≤ endOffset
    · have notLater : ¬endOffset+1 ≤ record.1 := by omega
      have unfolded := ih ascending
      by_cases begun : startOffset ≤ record.1
      · simp only [List.filter_cons,begun,early,notLater,and_self,decide_true,decide_false,if_true,
          Bool.false_eq_true,if_false,List.cons_append,unfolded]
      · simp only [List.filter_cons,begun,notLater,false_and,decide_false,Bool.false_eq_true,if_false,unfolded]
    · have none : (record::records).filter (fun record => decide (startOffset ≤ record.1 ∧ record.1 ≤ endOffset)) =
          [] := by
        rw [List.filter_eq_nil_iff]
        intro later member
        simp only [decide_eq_true_eq]
        rcases List.mem_cons.mp member with rfl | member
        · omega
        · have := below later member
          omega
      rw [none,List.nil_append]
      apply List.filter_congr
      intro later member
      rw [decide_eq_decide]
      rcases List.mem_cons.mp member with rfl | member
      · omega
      · have := below later member
        omega

theorem filter_requestRanges {ρ : Type} (records : List (Nat × ρ))
    (ascending : records.Pairwise fun earlier later => earlier.1 < later.1) (finishOffset currentStartOffset : Nat)
    (inside : ∀ record ∈ records, record.1 < finishOffset) :
    (requestRanges finishOffset currentStartOffset).flatMap (fun range =>
        records.filter fun record => decide (range.1 ≤ record.1 ∧ record.1 ≤ range.2)) =
      records.filter fun record => decide (currentStartOffset ≤ record.1) := by
  induction currentStartOffset using requestRanges.induct finishOffset with
  | case1 currentStartOffset more ih =>
    rw [requestRanges,dif_pos more,List.flatMap_cons,ih]
    exact filter_ranges (le_reqEndOffset more) records ascending
  | case2 currentStartOffset done =>
    rw [requestRanges,dif_neg done,List.flatMap_nil]
    symm
    rw [List.filter_eq_nil_iff]
    intro record member
    have := inside record member
    simp only [decide_eq_true_eq]
    omega

theorem table_ext {table other : Table ν} (fields : table.fields = other.fields) (rows : table.rows = other.rows) :
    table = other := by
  cases table
  cases other
  subst fields
  subst rows
  rfl

theorem flatMap_rows_filter (tables : List (Table ν)) :
    (tables.filter fun table => decide (0 < table.numRows)).flatMap Table.rows = tables.flatMap Table.rows := by
  induction tables with
  | nil => rfl
  | cons table tables ih =>
    rw [List.filter_cons,List.flatMap_cons]
    split
    next => rw [List.flatMap_cons,ih]
    next blank =>
      have none : table.rows = [] := by
        have zero : ¬0 < table.numRows := fun some => blank (decide_eq_true some)
        exact List.eq_nil_of_length_eq_zero (Nat.eq_zero_of_not_pos zero)
      rw [none,List.nil_append,ih]

theorem joinTables_rows {fields : List Field} {tables : List (Table ν)}
    (same : ∀ table ∈ tables, table.rows ≠ [] → table.fields = fields) :
    ∃ joined, joinTables tables = some joined ∧ joined.rows = tables.flatMap Table.rows ∧
      joined.fields = if (tables.flatMap Table.rows).isEmpty then [] else fields := by
  rw [← flatMap_rows_filter tables,joinTables]
  have full : ∀ table ∈ tables.filter (fun table => decide (0 < table.numRows)), table.rows ≠ [] ∧
      table.fields = fields := by
    intro table member
    obtain ⟨inside,some⟩ := List.mem_filter.mp member
    have rows : table.rows ≠ [] := List.length_pos_iff.mp (of_decide_eq_true some)
    exact ⟨rows,same table inside rows⟩
  generalize tables.filter (fun table => decide (0 < table.numRows)) = kept at full
  cases kept with
  | nil => exact ⟨_,rfl,rfl,rfl⟩
  | cons table others =>
    obtain ⟨rows,here⟩ := full table List.mem_cons_self
    have some : (((table::others).flatMap Table.rows).isEmpty) = false := by
      rw [List.flatMap_cons,List.isEmpty_eq_false_iff]
      exact List.append_ne_nil_of_left_ne_nil rows _
    rw [some]
    cases others with
    | nil => exact ⟨table,rfl,by simp,here⟩
    | cons other others =>
      have agree : ∀ later ∈ other::others, later.fields = table.fields := fun later member =>
        ((full later (List.mem_cons_of_mem _ member)).2).trans here.symm
      refine ⟨_,congrArg Except.toOption (dif_pos agree),?_,here⟩
      rfl

section
variable (op : S3SelectPOp ν)

def S3SelectPOp.selection : List (Nat × List (Slot ν)) := op.partition.records.filter fun record => op.keeps record.2

/-- What a scan of the whole partition reads: without a row or without a column, no columns. -/
def S3SelectPOp.whole : Table ν :=
  if op.projectColumnNames.isEmpty || op.selection.isEmpty then .empty
  else op.partition.cut (fun record => op.keeps record.2) op.projectColumnNames

theorem cut_fields (partition : S3Partition ν) (keeps other : Nat × List (Slot ν) → Bool) (columnNames : List String) :
    (partition.cut keeps columnNames).fields = (partition.cut other columnNames).fields := rfl

theorem cut_rows (partition : S3Partition ν) (keeps : Nat × List (Slot ν) → Bool) (columnNames : List String) :
    (partition.cut keeps columnNames).rows = if (partition.columns columnNames).isEmpty then [] else
      (partition.records.filter keeps).map fun record =>
        (partition.columns columnNames).filterMap fun column => record.2[column.2]? := by
  unfold S3Partition.cut Table.make S3Partition.restrict
  dsimp only
  rw [List.map_map]
  rfl

theorem cut_of_none (partition : S3Partition ν) {keeps : Nat × List (Slot ν) → Bool} (columnNames : List String)
    (none : partition.records.filter keeps = []) : (partition.cut keeps columnNames).rows = [] := by
  rw [cut_rows,none]
  split <;> rfl

theorem s3Select_whole (start : op.startOffset = 0) (finish : op.finishOffset = op.partition.numBytes)
    (columns : op.projectColumnNames ≠ []) : op.s3Select op.startOffset op.finishOffset = op.whole := by
  have all : ∀ record ∈ op.partition.records, (op.keeps record.2 && (op.s3ClientType == .AIRMETTLE ||
      !op.scanRangeSupported || decide (op.startOffset ≤ record.1 ∧ record.1 ≤ op.finishOffset))) =
        op.keeps record.2 := by
    intro record member
    have bound := op.partition.inside record member
    have within : op.startOffset ≤ record.1 ∧ record.1 ≤ op.finishOffset := by omega
    simp [within]
  have selected := List.filter_congr all
  rw [S3SelectPOp.s3Select,S3SelectPOp.whole,selected]
  have some : op.projectColumnNames.isEmpty = false := by simpa using columns
  rw [some,Bool.false_or]
  change (if op.selection.isEmpty then _ else _) = _
  split
  next => rfl
  next =>
    apply table_ext (cut_fields _ _ _ _)
    rw [cut_rows,cut_rows,selected]

theorem s3Select_rows (client : op.s3ClientType = .S3) (supported : op.scanRangeSupported = true)
    (startOffset endOffset : Nat) :
    (op.s3Select startOffset endOffset).rows = if (op.partition.columns op.projectColumnNames).isEmpty then [] else
      (op.selection.filter fun record => decide (startOffset ≤ record.1 ∧ record.1 ≤ endOffset)).map fun record =>
        (op.partition.columns op.projectColumnNames).filterMap fun column => record.2[column.2]? := by
  have ranged : ∀ record : Nat × List (Slot ν), (op.keeps record.2 && (op.s3ClientType == .AIRMETTLE ||
      !op.scanRangeSupported || decide (startOffset ≤ record.1 ∧ record.1 ≤ endOffset))) =
        (decide (startOffset ≤ record.1 ∧ record.1 ≤ endOffset) && op.keeps record.2) := by
    intro record
    rw [client,supported,Bool.and_comm]
    rfl
  rw [S3SelectPOp.s3Select,S3SelectPOp.selection,List.filter_filter]
  simp only [ranged]
  split
  next none =>
    rw [List.isEmpty_iff.mp none]
    split <;> rfl
  next => rw [cut_rows]

theorem s3Select_fields {startOffset endOffset : Nat} (some : (op.s3Select startOffset endOffset).rows ≠ []) :
    (op.s3Select startOffset endOffset).fields = (op.partition.cut (fun _ => true) op.projectColumnNames).fields := by
  unfold S3SelectPOp.s3Select at some ⊢
  dsimp only at some ⊢
  split
  next none =>
    rw [if_pos none] at some
    exact absurd rfl some
  next => exact cut_fields _ _ _ _

theorem s3SelectParallelReqs_whole (finish : op.finishOffset = op.partition.numBytes) (client : op.s3ClientType = .S3)
    (supported : op.scanRangeSupported = true) (columns : op.projectColumnNames ≠ []) :
    op.s3SelectParallelReqs = some op.whole := by
  have ascending : op.selection.Pairwise fun earlier later => earlier.1 < later.1 := op.partition.ascending.filter _
  have inside : ∀ record ∈ op.selection, record.1 < op.finishOffset := by
    intro record member
    rw [finish]
    exact op.partition.inside record (List.mem_of_mem_filter member)
  have same : ∀ table ∈ (requestRanges op.finishOffset 0).map fun range => op.s3Select range.1 range.2,
      table.rows ≠ [] → table.fields = (op.partition.cut (fun _ => true) op.projectColumnNames).fields := by
    intro table member some
    obtain ⟨range,_,rfl⟩ := List.mem_map.mp member
    exact s3Select_fields op some
  obtain ⟨joined,result,rows,fields⟩ := joinTables_rows same
  have all : ((requestRanges op.finishOffset 0).map fun range => op.s3Select range.1 range.2).flatMap Table.rows =
      (op.partition.cut (fun record => op.keeps record.2) op.projectColumnNames).rows := by
    rw [List.flatMap_map,cut_rows]
    simp only [s3Select_rows op client supported]
    split
    next => simp
    next =>
      rw [← List.map_flatMap,filter_requestRanges op.selection ascending op.finishOffset 0 inside]
      simp [S3SelectPOp.selection]
  rw [all] at rows fields
  rw [S3SelectPOp.s3SelectParallelReqs,result,Option.some.injEq,S3SelectPOp.whole]
  have named : op.projectColumnNames.isEmpty = false := by simpa using columns
  rw [named,Bool.false_or]
  split
  next none =>
    have blank := cut_of_none op.partition op.projectColumnNames (List.isEmpty_iff.mp none)
    rw [blank] at rows fields
    exact table_ext fields rows
  next some =>
    refine table_ext ?_ rows
    rw [fields]
    split
    next none =>
      rw [cut_rows] at none
      split at none
      next unknown =>
        change _ = (op.partition.columns op.projectColumnNames).filterMap _
        rw [List.isEmpty_iff.mp unknown]
        rfl
      next =>
        rw [List.isEmpty_iff,List.map_eq_nil_iff] at none
        exact absurd (List.isEmpty_iff.mpr none) some
    next => exact cut_fields _ _ _ _

theorem readTuples_whole (start : op.startOffset = 0) (finish : op.finishOffset = op.partition.numBytes) :
    op.readTuples = some op.whole := by
  rw [S3SelectPOp.readTuples]
  split
  next none =>
    rw [S3SelectPOp.whole,none,Bool.true_or]
    rfl
  next some =>
    have columns : op.projectColumnNames ≠ [] := by simpa using some
    split
    next parallel => exact s3SelectParallelReqs_whole op finish parallel.1 parallel.2.1 columns
    next => rw [s3Select_whole op start finish columns]

end
end Hermes.HybridScan
