import Hermes.OuterJoinHelper

/-! What the probe kernels of the hash join and of the hash semi-join share: the
buffered inputs of the two sides, the output schema and the messages. -/
namespace Hermes.Join
open Hermes.Tuple Hermes.Library.ListJoin

/-- An equi-join predicate on columns that the two relations have. -/
structure HashJoinPredicate (left right : Schema) where
  leftColumnNames : List String
  rightColumnNames : List String
  leftColumns : List (Fin left.length)
  rightColumns : List (Fin right.length)
  leftResolved : fieldIndexes left leftColumnNames = .ok leftColumns
  rightResolved : fieldIndexes right rightColumnNames = .ok rightColumns

section
variable {ν : Type} {left right : Schema}

def joinKey {schema : Schema} (columns : List (Fin schema.length)) (row : Record ν schema) :
    Option (TupleKey ν) :=
  columns.mapM row

def HashJoinPredicate.holds [DecidableEq ν] (pred : HashJoinPredicate left right)
    (leftRow : Record ν left) (rightRow : Record ν right) : Bool :=
  (joinKey pred.leftColumns leftRow).any fun key => joinKey pred.rightColumns rightRow = some key

theorem makeKey_of_joinKey {schema : Schema} (blank : ν) (columns : List (Fin schema.length))
    (row : Record ν schema) {key : TupleKey ν} (present : joinKey columns row = some key) :
    makeKey blank columns row = key := by
  induction columns generalizing key with
  | nil => simpa [joinKey,makeKey] using present
  | cons c columns ih =>
    unfold joinKey at present ih
    rw [List.mapM_cons] at present
    cases cell : row c with
    | none => simp [cell] at present
    | some value =>
      cases rest : columns.mapM row with
      | none => simp [cell,rest] at present
      | some values =>
        have same : value::values = key := by simpa [cell,rest] using present
        rw [← same,← ih rest]
        simp [makeKey,cell]

def sameKey [DecidableEq ν] (blank : ν) (pred : HashJoinPredicate left right) (leftRow : Record ν left)
    (rightRow : Record ν right) : Bool :=
  makeKey blank pred.leftColumns leftRow = makeKey blank pred.rightColumns rightRow

theorem sameKey_eq_holds [DecidableEq ν] (blank : ν) (pred : HashJoinPredicate left right)
    {leftRow : Record ν left} {rightRow : Record ν right}
    (leftPresent : (joinKey pred.leftColumns leftRow).isSome)
    (rightPresent : (joinKey pred.rightColumns rightRow).isSome) :
    sameKey blank pred leftRow rightRow = pred.holds leftRow rightRow := by
  obtain ⟨leftKey,leftFound⟩ := Option.isSome_iff_exists.mp leftPresent
  obtain ⟨rightKey,rightFound⟩ := Option.isSome_iff_exists.mp rightPresent
  rw [sameKey,makeKey_of_joinKey blank pred.leftColumns leftRow leftFound,
    makeKey_of_joinKey blank pred.rightColumns rightRow rightFound]
  simp [HashJoinPredicate.holds,leftFound,rightFound,eq_comm]

theorem sameKey_of_holds [DecidableEq ν] {blank : ν} {pred : HashJoinPredicate left right}
    {leftRow : Record ν left} {rightRow : Record ν right} (matching : pred.holds leftRow rightRow) :
    sameKey blank pred leftRow rightRow := by
  obtain ⟨key,leftFound,rightFound⟩ : ∃ key, joinKey pred.leftColumns leftRow = some key ∧
      joinKey pred.rightColumns rightRow = some key := by
    simpa [HashJoinPredicate.holds,Option.any_eq_true] using matching
  rw [sameKey,makeKey_of_joinKey blank pred.leftColumns leftRow leftFound,
    makeKey_of_joinKey blank pred.rightColumns rightRow rightFound]
  exact decide_eq_true rfl

end

abbrev BuildIndex (ν : Type) {left right : Schema} (blank : ν) (pred : HashJoinPredicate left right) :=
  TupleSetIndex ν left blank pred.leftColumnNames

theorem key_eq {ν : Type} {left right : Schema} {blank : ν} {pred : HashJoinPredicate left right}
    (index : BuildIndex ν blank pred) (row : Record ν left) :
    index.key row = makeKey blank pred.leftColumns row := by
  have columns : index.columnIndexes = pred.leftColumns :=
    Except.ok.inj (index.resolved.symm.trans pred.leftResolved)
  rw [TupleSetIndex.key,columns]

structure HashJoinProbeAbstractKernel (ν : Type) {left right : Schema} (blank : ν)
    (pred : HashJoinPredicate left right) where
  buildTupleSetIndex : Option (BuildIndex ν blank pred)
  probeTupleSet : Option (TupleSet (Record ν right))
  outputSchema : Option Schema
  neededColumnIndice : List (NeededColumn left right)
  buffer : Option (TupleSet (OutputRow ν))

def validateColumnNames (schema : Schema) (columnNames : List String) : Except String Unit :=
  match fieldIndexes schema columnNames with
  | .error columnName => .error ("Column '" ++ columnName ++ "' does not exist.")
  | .ok _ => .ok ()

namespace HashJoinProbeAbstractKernel
variable {ν : Type} {left right : Schema} {blank : ν} {pred : HashJoinPredicate left right}

def make : HashJoinProbeAbstractKernel ν blank pred := ⟨none,none,none,[],none⟩

def putBuildTupleSetIndex (multimap : UnorderedMultimap) (kernel : HashJoinProbeAbstractKernel ν blank pred)
    (tupleSetIndex : BuildIndex ν blank pred) : Except Failure (HashJoinProbeAbstractKernel ν blank pred) :=
  match validateColumnNames left pred.leftColumnNames with
  | .error message =>
    .error (.error s!"Cannot put build tuple set index into probe kernel. {message}")
  | .ok _ =>
    match kernel.buildTupleSetIndex with
    | none => .ok {kernel with buildTupleSetIndex := some tupleSetIndex}
    | some buildTupleSetIndex =>
      if tupleSetIndex.size > 0 then
        .ok {kernel with buildTupleSetIndex := some (buildTupleSetIndex.merge multimap tupleSetIndex)}
      else .ok kernel

def putProbeTupleSet (kernel : HashJoinProbeAbstractKernel ν blank pred)
    (tupleSet : TupleSet (Record ν right)) : Except Failure (HashJoinProbeAbstractKernel ν blank pred) :=
  match validateColumnNames right pred.rightColumnNames with
  | .error message => .error (.error s!"Cannot put probe tuple set into probe kernel. {message}")
  | .ok _ =>
    match kernel.probeTupleSet with
    | none => .ok {kernel with probeTupleSet := some tupleSet}
    | some probeTupleSet =>
      if tupleSet.numRows > 0 then .ok {kernel with probeTupleSet := some (probeTupleSet.append tupleSet)}
      else .ok kernel

def bufferOutputSchema (neededColumnNames : List String) (kernel : HashJoinProbeAbstractKernel ν blank pred) :
    HashJoinProbeAbstractKernel ν blank pred :=
  match kernel.outputSchema with
  | some _ => kernel
  | none =>
    {kernel with
      neededColumnIndice := kernel.neededColumnIndice ++ Join.neededColumnIndice left right neededColumnNames
      outputSchema := some (outputFields left right neededColumnNames)}

def bufferOutput (kernel : HashJoinProbeAbstractKernel ν blank pred) (tupleSet : TupleSet (OutputRow ν)) :
    HashJoinProbeAbstractKernel ν blank pred :=
  match kernel.buffer with
  | none => {kernel with buffer := some tupleSet}
  | some buffered => {kernel with buffer := some (TupleSet.concatenate [buffered,tupleSet])}

@[simp] theorem outputSchema_bufferOutput (kernel : HashJoinProbeAbstractKernel ν blank pred)
    (tupleSet : TupleSet (OutputRow ν)) : (kernel.bufferOutput tupleSet).outputSchema = kernel.outputSchema := by
  unfold bufferOutput
  split <;> rfl

@[simp] theorem neededColumnIndice_bufferOutput (kernel : HashJoinProbeAbstractKernel ν blank pred)
    (tupleSet : TupleSet (OutputRow ν)) :
    (kernel.bufferOutput tupleSet).neededColumnIndice = kernel.neededColumnIndice := by
  unfold bufferOutput
  split <;> rfl

@[simp] theorem buildTupleSetIndex_bufferOutput (kernel : HashJoinProbeAbstractKernel ν blank pred)
    (tupleSet : TupleSet (OutputRow ν)) :
    (kernel.bufferOutput tupleSet).buildTupleSetIndex = kernel.buildTupleSetIndex := by
  unfold bufferOutput
  split <;> rfl

@[simp] theorem probeTupleSet_bufferOutput (kernel : HashJoinProbeAbstractKernel ν blank pred)
    (tupleSet : TupleSet (OutputRow ν)) :
    (kernel.bufferOutput tupleSet).probeTupleSet = kernel.probeTupleSet := by
  unfold bufferOutput
  split <;> rfl

def bufferedRows (kernel : HashJoinProbeAbstractKernel ν blank pred) : List (OutputRow ν) :=
  kernel.buffer.elim [] TupleSet.rows

@[simp] theorem bufferedRows_bufferOutput (kernel : HashJoinProbeAbstractKernel ν blank pred)
    (tupleSet : TupleSet (OutputRow ν)) :
    (kernel.bufferOutput tupleSet).bufferedRows = kernel.bufferedRows ++ tupleSet.rows := by
  unfold bufferOutput bufferedRows
  cases kernel.buffer <;> simp

end HashJoinProbeAbstractKernel

section
variable {ρ : Type}

/-- A side keeps its first message and, behind it, the later ones that have rows. -/
def keepTable (kept : Option (TupleSet ρ)) (incoming : TupleSet ρ) : TupleSet ρ :=
  match kept with
  | none => incoming
  | some table => if incoming.numRows > 0 then table.append incoming else table

def keptTable (tables : List (TupleSet ρ)) : Option (TupleSet ρ) :=
  tables.foldl (fun kept incoming => some (keepTable kept incoming)) none

def rowsOf (tables : List (TupleSet ρ)) : List ρ := tables.flatMap TupleSet.rows

def Chunkless : List (TupleSet ρ) → Prop
  | [] => False
  | first::rest => first.chunks = [] ∧ rowsOf (first::rest) = []

@[simp] theorem keptTable_append (tables : List (TupleSet ρ)) (incoming : TupleSet ρ) :
    keptTable (tables ++ [incoming]) = some (keepTable (keptTable tables) incoming) := by
  simp [keptTable]

theorem keptTable_eq_none (tables : List (TupleSet ρ)) : keptTable tables = none ↔ tables = [] := by
  cases tables using List.reverseRecOn with
  | nil => simp [keptTable]
  | append_singleton tables incoming => simp

theorem rows_keepTable (kept : Option (TupleSet ρ)) (incoming : TupleSet ρ) :
    (keepTable kept incoming).rows = kept.elim [] TupleSet.rows ++ incoming.rows := by
  cases kept with
  | none => rfl
  | some table =>
    unfold keepTable
    dsimp only
    split
    next rows => exact TupleSet.rows_append table incoming
    next empty =>
      have none : incoming.rows = [] := List.eq_nil_of_length_eq_zero (Nat.eq_zero_of_not_pos empty)
      simp [none]

theorem rows_keptTable (tables : List (TupleSet ρ)) :
    (keptTable tables).elim [] TupleSet.rows = rowsOf tables := by
  induction tables using List.reverseRecOn with
  | nil => rfl
  | append_singleton tables incoming ih =>
    rw [keptTable_append,Option.elim_some,rows_keepTable,ih]
    simp [rowsOf]

theorem chunks_keepTable (table incoming : TupleSet ρ) :
    (keepTable (some table) incoming).chunks = [] ↔ table.chunks = [] ∧ incoming.rows = [] := by
  unfold keepTable
  dsimp only
  split
  next rows =>
    have some : incoming.rows ≠ [] := List.ne_nil_of_length_pos rows
    have chunked : incoming.chunks ≠ [] := by
      intro bare
      exact some (by rw [TupleSet.rows,bare]; rfl)
    simp [TupleSet.append,TupleSet.concatenate,some,chunked]
  next empty =>
    have none : incoming.rows = [] := List.eq_nil_of_length_eq_zero (Nat.eq_zero_of_not_pos empty)
    simp [none]

theorem chunks_keptTable {tables : List (TupleSet ρ)} {table : TupleSet ρ}
    (kept : keptTable tables = some table) : table.chunks = [] ↔ Chunkless tables := by
  induction tables using List.reverseRecOn generalizing table with
  | nil => simp [keptTable] at kept
  | append_singleton tables incoming ih =>
    rw [keptTable_append] at kept
    cases Option.some.inj kept
    cases before : keptTable tables with
    | none =>
      have first : tables = [] := (keptTable_eq_none tables).mp before
      subst first
      have rows (bare : incoming.chunks = []) : incoming.rows = [] := by
        rw [TupleSet.rows,bare]
        rfl
      simpa [keepTable,Chunkless,rowsOf] using rows
    | some earlier =>
      rw [chunks_keepTable,ih before]
      cases tables with
      | nil => simp [keptTable] at before
      | cons first rest => simp [Chunkless,rowsOf,and_assoc]

end

namespace HashJoinProbeAbstractKernel
variable {ν : Type} {left right : Schema} {blank : ν} {pred : HashJoinPredicate left right}

/-- The index that is kept for the build side when one more arrives. -/
def keepIndex (multimap : UnorderedMultimap) (kept : Option (BuildIndex ν blank pred))
    (incoming : BuildIndex ν blank pred) : BuildIndex ν blank pred :=
  match kept with
  | none => incoming
  | some index => if incoming.size > 0 then index.merge multimap incoming else index

theorem tupleSet_keepIndex (multimap : UnorderedMultimap) (kept : Option (BuildIndex ν blank pred))
    (incoming : BuildIndex ν blank pred) :
    (keepIndex multimap kept incoming).tupleSet =
      keepTable (kept.map TupleSetIndex.tupleSet) incoming.tupleSet := by
  cases kept with
  | none => rfl
  | some index =>
    unfold keepIndex keepTable
    dsimp only [Option.map_some]
    split
    next rows => exact (if_pos rows).symm
    next empty => exact (if_neg empty).symm

theorem putBuildTupleSetIndex_eq (multimap : UnorderedMultimap)
    (kernel : HashJoinProbeAbstractKernel ν blank pred) (incoming : BuildIndex ν blank pred) :
    kernel.putBuildTupleSetIndex multimap incoming =
      .ok {kernel with buildTupleSetIndex := some (keepIndex multimap kernel.buildTupleSetIndex incoming)} := by
  unfold putBuildTupleSetIndex validateColumnNames
  rw [pred.leftResolved]
  cases kernel with
  | mk build probe schema needed buffer =>
    cases build with
    | none => rfl
    | some index =>
      dsimp only [keepIndex]
      split <;> rfl

theorem putProbeTupleSet_eq (kernel : HashJoinProbeAbstractKernel ν blank pred)
    (incoming : TupleSet (Record ν right)) :
    kernel.putProbeTupleSet incoming =
      .ok {kernel with probeTupleSet := some (keepTable kernel.probeTupleSet incoming)} := by
  unfold putProbeTupleSet validateColumnNames
  rw [pred.rightResolved]
  cases kernel with
  | mk build probe schema needed buffer =>
    cases probe with
    | none => rfl
    | some table =>
      dsimp only [keepTable]
      split <;> rfl

end HashJoinProbeAbstractKernel

inductive ProbeMessage (ν : Type) {left right : Schema} (blank : ν) (pred : HashJoinPredicate left right) where
  | build (tupleSetIndex : BuildIndex ν blank pred)
  | probe (tupleSet : TupleSet (Record ν right))

section
variable {ν : Type} {left right : Schema} {blank : ν} {pred : HashJoinPredicate left right}

def buildTables (messages : List (ProbeMessage ν blank pred)) : List (TupleSet (Record ν left)) :=
  messages.filterMap fun
    | .build tupleSetIndex => some tupleSetIndex.tupleSet
    | .probe _ => none

def probeTables (messages : List (ProbeMessage ν blank pred)) : List (TupleSet (Record ν right)) :=
  messages.filterMap fun
    | .build _ => none
    | .probe tupleSet => some tupleSet

@[simp] theorem buildTables_build (messages : List (ProbeMessage ν blank pred)) (index : BuildIndex ν blank pred) :
    buildTables (messages ++ [.build index]) = buildTables messages ++ [index.tupleSet] := by
  simp [buildTables]

@[simp] theorem buildTables_probe (messages : List (ProbeMessage ν blank pred))
    (tupleSet : TupleSet (Record ν right)) :
    buildTables (messages ++ [.probe tupleSet]) = buildTables messages := by
  simp [buildTables]

@[simp] theorem probeTables_build (messages : List (ProbeMessage ν blank pred)) (index : BuildIndex ν blank pred) :
    probeTables (messages ++ [.build index]) = probeTables messages := by
  simp [probeTables]

@[simp] theorem probeTables_probe (messages : List (ProbeMessage ν blank pred))
    (tupleSet : TupleSet (Record ν right)) :
    probeTables (messages ++ [.probe tupleSet]) = probeTables messages ++ [tupleSet] := by
  simp [probeTables]

def buildRows (messages : List (ProbeMessage ν blank pred)) : List (Record ν left) :=
  rowsOf (buildTables messages)

def probeRows (messages : List (ProbeMessage ν blank pred)) : List (Record ν right) :=
  rowsOf (probeTables messages)

/-- No row of either relation has a null in a key column. -/
structure NonNullKeys (messages : List (ProbeMessage ν blank pred)) : Prop where
  build : ∀ row ∈ buildRows messages, (joinKey pred.leftColumns row).isSome
  probe : ∀ row ∈ probeRows messages, (joinKey pred.rightColumns row).isSome

theorem sameKey_eq [DecidableEq ν] {messages : List (ProbeMessage ν blank pred)} (nonNull : NonNullKeys messages)
    {leftRow : Record ν left} {rightRow : Record ν right} (inLeft : leftRow ∈ buildRows messages)
    (inRight : rightRow ∈ probeRows messages) : sameKey blank pred leftRow rightRow = pred.holds leftRow rightRow :=
  sameKey_eq_holds blank pred (nonNull.build leftRow inLeft) (nonNull.probe rightRow inRight)

/-- The kernel keeps of each side what its messages have brought. -/
structure Buffers (messages : List (ProbeMessage ν blank pred))
    (kernel : HashJoinProbeAbstractKernel ν blank pred) : Prop where
  build : kernel.buildTupleSetIndex.map TupleSetIndex.tupleSet = keptTable (buildTables messages)
  probe : kernel.probeTupleSet = keptTable (probeTables messages)

section
variable {messages : List (ProbeMessage ν blank pred)} {kernel : HashJoinProbeAbstractKernel ν blank pred}

theorem Buffers.probe_rows (buffers : Buffers messages kernel) :
    kernel.probeTupleSet.elim [] TupleSet.rows = probeRows messages := by
  rw [buffers.probe,rows_keptTable,probeRows]

theorem Buffers.build_rows (buffers : Buffers messages kernel) :
    kernel.buildTupleSetIndex.elim [] TupleSetIndex.rows = buildRows messages := by
  rw [buildRows,← rows_keptTable,← buffers.build,Option.elim_map]
  rfl

theorem Buffers.build_size (buffers : Buffers messages kernel) :
    kernel.buildTupleSetIndex.elim 0 TupleSetIndex.size = (buildRows messages).length := by
  rw [← buffers.build_rows]
  cases kernel.buildTupleSetIndex <;> rfl

theorem Buffers.probe_size (buffers : Buffers messages kernel) :
    kernel.probeTupleSet.elim 0 TupleSet.numRows = (probeRows messages).length := by
  rw [← buffers.probe_rows]
  cases kernel.probeTupleSet <;> rfl

theorem Buffers.build_none (buffers : Buffers messages kernel) :
    kernel.buildTupleSetIndex = none ↔ buildTables messages = [] := by
  rw [← keptTable_eq_none,← buffers.build,Option.map_eq_none_iff]

theorem Buffers.probe_none (buffers : Buffers messages kernel) :
    kernel.probeTupleSet = none ↔ probeTables messages = [] := by
  rw [← keptTable_eq_none,← buffers.probe]

theorem Buffers.put_build (multimap : UnorderedMultimap) (buffers : Buffers messages kernel)
    (index : BuildIndex ν blank pred) {after : HashJoinProbeAbstractKernel ν blank pred}
    (build : after.buildTupleSetIndex =
      some (HashJoinProbeAbstractKernel.keepIndex multimap kernel.buildTupleSetIndex index))
    (probe : after.probeTupleSet = kernel.probeTupleSet) : Buffers (messages ++ [.build index]) after where
  build := by
    rw [build,Option.map_some,HashJoinProbeAbstractKernel.tupleSet_keepIndex,buffers.build,buildTables_build,
      keptTable_append]
  probe := by
    rw [probe,buffers.probe,probeTables_build]

theorem Buffers.put_probe (buffers : Buffers messages kernel) (tupleSet : TupleSet (Record ν right))
    {after : HashJoinProbeAbstractKernel ν blank pred}
    (build : after.buildTupleSetIndex = kernel.buildTupleSetIndex)
    (probe : after.probeTupleSet = some (keepTable kernel.probeTupleSet tupleSet)) :
    Buffers (messages ++ [.probe tupleSet]) after where
  build := by
    rw [build,buffers.build,buildTables_probe]
  probe := by
    rw [probe,buffers.probe,probeTables_probe,keptTable_append]

end

@[simp] theorem buildRows_build (messages : List (ProbeMessage ν blank pred)) (index : BuildIndex ν blank pred) :
    buildRows (messages ++ [.build index]) = buildRows messages ++ index.rows := by
  simp [buildRows,rowsOf,TupleSetIndex.rows]

@[simp] theorem buildRows_probe (messages : List (ProbeMessage ν blank pred))
    (tupleSet : TupleSet (Record ν right)) :
    buildRows (messages ++ [.probe tupleSet]) = buildRows messages := by
  rw [buildRows,buildTables_probe,buildRows]

@[simp] theorem probeRows_build (messages : List (ProbeMessage ν blank pred)) (index : BuildIndex ν blank pred) :
    probeRows (messages ++ [.build index]) = probeRows messages := by
  rw [probeRows,probeTables_build,probeRows]

@[simp] theorem probeRows_probe (messages : List (ProbeMessage ν blank pred))
    (tupleSet : TupleSet (Record ν right)) :
    probeRows (messages ++ [.probe tupleSet]) = probeRows messages ++ tupleSet.rows := by
  simp [probeRows,rowsOf]

end
/-- `a = b` over two relations of one column each. -/
def onlyColumn : HashJoinPredicate ["a"] ["b"] := ⟨["a"],["b"],[0],[0],by decide,by decide⟩

def indexed (tupleSet : TupleSet (Record Nat ["a"])) : BuildIndex Nat 0 onlyColumn :=
  ⟨[0],tupleSet,(tupleSet.rows.map (makeKey 0 [0])).zipIdx,by decide,.refl _⟩

end Hermes.Join
