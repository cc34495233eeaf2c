import Hermes.DeleteMapGeneratorKernel
import Hermes.DeltaMergeFilter
import Hermes.KeepMapCacheMode
import Hermes.Library.Chunks

/-! The merges of the delta-merge operator, unbatched and batched.
`project` is the choice of the query's columns. A projection of columns that are
already projected changes nothing and is left out. -/
namespace Hermes.DeltaMergePOp
open Hermes.Tuple Hermes.Delta Hermes.DeleteMapGeneratorKernel Hermes.DeltaMergeFilter
open Hermes.KeepMapCacheMode Hermes.Library.Chunks
variable {n : Nat} {α σ : Type}

structure MergedDeltaMessage (δ β : Type) where
  mergedDelta : δ
  stableBm : Option β
deriving DecidableEq

def fullChunk (rows : List σ) (chunkCounter : Nat) : Bool := (chunkCounter+1)*DefaultChunkSize ≤ rows.length

/-- Without deltas the first stable table goes out as it is, chunk after chunk. -/
def noMerge (project : Row n α → σ) (stable : TupleSet (Row n α)) : List (List σ) :=
  let projected := (stable.projectExist project).rows
  pushAll (fun iter => (iter+1)*DefaultChunkSize < projected.length) DefaultChunkSize projected
    projected.length 0

/-- The first delta and, if there is another, the last one behind it. -/
def combinedMemoryDelta (deltas : List (DeltaVersion n α)) : Option (TupleSet (DeltaRow n α)) := do
  let first ← deltas[0]?
  if deltas.length > 1 then
    let last ← deltas[deltas.length-1]?
    some (TupleSet.concatenate [TupleSet.concatenate [first.delta],last.delta])
  else some (TupleSet.concatenate [first.delta])

/-- The batches pushed to the queue and the message to the delta cache. -/
def deltaMerge (reader : TableBatchReader) (project : Row n α → σ) (deltas : List (DeltaVersion n α))
    (stables : List (TupleSet (Row n α))) :
    Option (List (List σ) × Option (MergedDeltaMessage (TupleSet (DeltaRow n α)) (List Bool))) := do
  let stable ← stables[0]?
  if deltas.isEmpty then some (noMerge project stable,none)
  else
    let (positions,bitmap) ← getDeleteMap deltas stables
    let evaluatedStables ← evaluate reader [] (some bitmap) (stable.projectExist project)
    let (stableChunks,iterStables) := pushWhile (fullChunk evaluatedStables.rows) DefaultChunkSize
      evaluatedStables.rows evaluatedStables.numRows 0
    let combined ← combinedMemoryDelta deltas
    let tuple ← evaluate reader positions none combined
    let evaluatedDeltas := evaluatedStables.rows.drop (iterStables*DefaultChunkSize) ++
      (tuple.projectExist (fun r => project r.toRow)).rows
    some (stableChunks ++ pushAll (fullChunk evaluatedDeltas) DefaultChunkSize evaluatedDeltas
        evaluatedDeltas.length 0,
      some ⟨tuple,some bitmap⟩)

/-- What the operator keeps between its batches. The bitmap is the one the cache
holds, changed in place. -/
structure BatchedState (n : Nat) (α σ : Type) where
  keepMapCacheMode : KeepMap n α
  stableBm : Option (List Bool)
  evaluatedData : Option (List σ)
  chunkCounter : Nat

def BatchedState.start (stableBm : Option (List Bool)) : BatchedState n α σ :=
  ⟨.empty n α,stableBm,none,0⟩

def stablesBatchedDeltaMerge (reader : TableBatchReader) (project : Row n α → σ)
    (deltas : List (DeltaVersion n α)) (op : BatchedState n α σ) (batch : TupleSet (Row n α))
    (batchCnt : Nat) : Option (List (List σ) × BatchedState n α σ) := do
  if deltas.isEmpty then some ([(batch.projectExist project).rows],op)
  else
    let (mode,_,stableBm) ← getBatchedKeepMap op.keepMapCacheMode deltas (some batch) op.stableBm
      batchCnt false
    let bits ← stableBm
    let batchBegin := DefaultChunkSize*(batchCnt-1)
    let batchEnd := if bits.length < DefaultChunkSize*batchCnt then bits.length
      else DefaultChunkSize*batchCnt
    if batchEnd < batchBegin then none
    let subStableBM := (bits.drop batchBegin).take (batchEnd-batchBegin)
    let tuple ← evaluate reader [] (some subStableBM) (batch.projectExist project)
    let evaluatedData := op.evaluatedData.getD [] ++ tuple.rows
    let full := fullChunk evaluatedData op.chunkCounter
    some (if full then [slice DefaultChunkSize evaluatedData op.chunkCounter] else [],
      ⟨mode,some bits,some evaluatedData,if full then op.chunkCounter+1 else op.chunkCounter⟩)

/-- The last call: the memory rows left, and the first delta behind them as it is. -/
def deltasDeltaMerge (reader : TableBatchReader) (project : Row n α → σ)
    (deltas : List (DeltaVersion n α)) (op : BatchedState n α σ) (batchCounter : Nat) :
    Option (List (List σ) × Option (MergedDeltaMessage (TupleSet (DeltaRow n α)) (List Bool))) := do
  if deltas.isEmpty then some ([],none)
  else
    let (_,positions,_) ← getBatchedKeepMap op.keepMapCacheMode deltas none op.stableBm batchCounter true
    let first ← deltas[0]?
    if deltas.length > 1 then
      let last ← deltas[deltas.length-1]?
      let tuple ← evaluate reader positions none last.delta
      let evaluatedData := op.evaluatedData.getD [] ++
        (tuple.projectExist (fun r => project r.toRow)).rows ++
        (first.delta.projectExist (fun r => project r.toRow)).rows
      some (pushAll (fullChunk evaluatedData) DefaultChunkSize evaluatedData evaluatedData.length
          op.chunkCounter,
        some ⟨(tuple.append first.delta).combine,none⟩)
    else
      let stables ← op.evaluatedData
      let evaluatedData := stables ++ (first.delta.projectExist (fun r => project r.toRow)).rows
      some (pushAll (fullChunk evaluatedData) DefaultChunkSize evaluatedData evaluatedData.length
          op.chunkCounter,
        some ⟨first.delta.combine,none⟩)

def batchedStables (reader : TableBatchReader) (project : Row n α → σ) (deltas : List (DeltaVersion n α)) :
    BatchedState n α σ → Nat → List (TupleSet (Row n α)) → Option (List (List σ) × BatchedState n α σ)
  | op, _, [] => some ([],op)
  | op, batchCnt, batch::batches => do
    let (pushed,op) ← stablesBatchedDeltaMerge reader project deltas op batch batchCnt
    let (rest,op) ← batchedStables reader project deltas op (batchCnt+1) batches
    some (pushed ++ rest,op)

/-- All batches pushed by one operator, its message, and the bitmap it leaves. -/
structure BatchedResult (n : Nat) (α σ : Type) where
  chunks : List (List σ)
  message : Option (MergedDeltaMessage (TupleSet (DeltaRow n α)) (List Bool))
  stableBm : Option (List Bool)

/-- The calls of one batched operator: its stable batches in order, then the last call. -/
def batchedDeltaMerge (reader : TableBatchReader) (project : Row n α → σ) (deltas : List (DeltaVersion n α))
    (stableBm : Option (List Bool)) (batches : List (TupleSet (Row n α))) : Option (BatchedResult n α σ) := do
  let (pushed,op) ← batchedStables reader project deltas (.start stableBm) 1 batches
  let (rest,message) ← deltasDeltaMerge reader project deltas op batches.length
  some ⟨pushed ++ rest,message,op.stableBm⟩

theorem noMerge_rows (project : Row n α → σ) (stable : TupleSet (Row n α)) :
    (noMerge project stable).flatten = stable.rows.map project := by
  simp [noMerge]

theorem deltaMerge_rows {reader : TableBatchReader} (project : Row n α → σ)
    {deltas : List (DeltaVersion n α)} {stable : TupleSet (Row n α)} {positions : List Nat}
    {bitmap : List Bool} {evaluatedStables : TupleSet σ} {combined tuple : TupleSet (DeltaRow n α)}
    (nonempty : deltas ≠ [])
    (kernel : getDeleteMap deltas [stable] = some (positions,bitmap))
    (stables : evaluate reader [] (some bitmap) (stable.projectExist project) = some evaluatedStables)
    (concatenated : combinedMemoryDelta deltas = some combined)
    (kept : evaluate reader positions none combined = some tuple) :
    ∃ chunks, deltaMerge reader project deltas [stable] = some (chunks,some ⟨tuple,some bitmap⟩) ∧
      chunks.flatten = evaluatedStables.rows ++ tuple.rows.map (fun r => project r.toRow) := by
  have some_ : deltas.isEmpty = false := by simpa using nonempty
  unfold deltaMerge
  simp only [List.getElem?_cons_zero,some_,kernel,stables,concatenated,kept,Option.bind_eq_bind,
    Option.bind_some,Bool.false_eq_true,if_false]
  refine ⟨_,rfl,?_⟩
  have pushed := pushWhile_flatten (fullChunk evaluatedStables.rows) DefaultChunkSize
    evaluatedStables.rows evaluatedStables.numRows 0
  rw [List.flatten_append,pushAll_flatten,Nat.zero_mul,List.drop_zero,← List.append_assoc,pushed]
  simp

theorem deltaMerge_stuck (reader : TableBatchReader) (project : Row n α → σ)
    {deltas : List (DeltaVersion n α)} {stable : TupleSet (Row n α)} {positions : List Nat}
    {bitmap : List Bool} {combined : TupleSet (DeltaRow n α)} (nonempty : deltas ≠ [])
    (kernel : getDeleteMap deltas [stable] = some (positions,bitmap))
    (concatenated : combinedMemoryDelta deltas = some combined)
    (stuck : evaluate reader positions none combined = none) :
    deltaMerge reader project deltas [stable] = none := by
  have some_ : deltas.isEmpty = false := by simpa using nonempty
  unfold deltaMerge
  cases evaluate reader [] (some bitmap) (stable.projectExist project) <;>
    simp [some_,kernel,concatenated,stuck]

/-- Every record batch of the stable table has a row, whatever columns are asked for. -/
def StableFilled (reader : TableBatchReader) (stable : TupleSet (Row n α)) : Prop :=
  ∀ (σ : Type) (project : Row n α → σ), Filled reader (stable.projectExist project)

theorem deltaMerge_unfilled {reader : TableBatchReader} {project : Row n α → σ} {deltas : List (DeltaVersion n α)}
    {stable : TupleSet (Row n α)} (nonempty : deltas ≠ []) (unfilled : ¬Filled reader (stable.projectExist project))
    (others : List (TupleSet (Row n α))) : deltaMerge reader project deltas (stable::others) = none := by
  have some_ : deltas.isEmpty = false := by simpa using nonempty
  unfold deltaMerge
  cases getDeleteMap deltas (stable::others) <;> simp [some_,evaluate_unfilled _ unfilled]

theorem stablesBatchedDeltaMerge_unfilled {reader : TableBatchReader} {project : Row n α → σ}
    {deltas : List (DeltaVersion n α)} (nonempty : deltas ≠ []) {batch : TupleSet (Row n α)}
    (unfilled : ¬Filled reader (batch.projectExist project)) (op : BatchedState n α σ) (batchCnt : Nat) :
    stablesBatchedDeltaMerge reader project deltas op batch batchCnt = none := by
  have some_ : deltas.isEmpty = false := by simpa using nonempty
  unfold stablesBatchedDeltaMerge
  simp only [some_,Bool.false_eq_true,if_false,evaluate_unfilled _ unfilled]
  cases getBatchedKeepMap op.keepMapCacheMode deltas (some batch) op.stableBm batchCnt false with
  | none => rfl
  | some kept =>
    obtain ⟨_,_,stableBm⟩ := kept
    cases stableBm with
    | none => rfl
    | some bits =>
      simp

def BatchesFilled (reader : TableBatchReader) (project : Row n α → σ) (batches : List (TupleSet (Row n α))) : Prop :=
  ∀ batch ∈ batches, Filled reader (batch.projectExist project)

theorem batchedStables_unfilled {reader : TableBatchReader} {project : Row n α → σ}
    {deltas : List (DeltaVersion n α)} (nonempty : deltas ≠ []) {batches : List (TupleSet (Row n α))}
    (unfilled : ¬BatchesFilled reader project batches) (op : BatchedState n α σ) (batchCnt : Nat) :
    batchedStables reader project deltas op batchCnt batches = none := by
  induction batches generalizing op batchCnt with
  | nil => exact absurd (fun batch member => absurd member List.not_mem_nil) unfilled
  | cons batch batches ih =>
    rw [batchedStables]
    by_cases filled : Filled reader (batch.projectExist project)
    · have others : ¬BatchesFilled reader project batches :=
        fun rest => unfilled (List.forall_mem_cons.mpr ⟨filled,rest⟩)
      cases stablesBatchedDeltaMerge reader project deltas op batch batchCnt with
      | none => rfl
      | some result => simp [ih others]
    · rw [stablesBatchedDeltaMerge_unfilled nonempty filled]
      rfl

theorem deltaMerge_returns {reader : TableBatchReader} {project : Row n α → σ}
    {deltas : List (DeltaVersion n α)} {stable : TupleSet (Row n α)} {chunks : List (List σ)}
    {tuple : TupleSet (DeltaRow n α)} {stableBm : Option (List Bool)}
    (returns : deltaMerge reader project deltas [stable] = some (chunks,some ⟨tuple,stableBm⟩)) :
    ∃ positions bitmap combined, getDeleteMap deltas [stable] = some (positions,bitmap) ∧
      stableBm = some bitmap ∧ combinedMemoryDelta deltas = some combined ∧
      evaluate reader positions none combined = some tuple := by
  unfold deltaMerge at returns
  simp only [List.getElem?_cons_zero,Option.bind_eq_bind,Option.bind_some] at returns
  split at returns
  · cases Option.some.inj returns
  · obtain ⟨⟨positions,bitmap⟩,kernel,returns⟩ := Option.bind_eq_some_iff.mp returns
    obtain ⟨_,_,returns⟩ := Option.bind_eq_some_iff.mp returns
    obtain ⟨combined,concatenated,returns⟩ := Option.bind_eq_some_iff.mp returns
    obtain ⟨tuple',kept,returns⟩ := Option.bind_eq_some_iff.mp returns
    cases Option.some.inj returns
    exact ⟨positions,bitmap,combined,kernel,rfl,concatenated,kept⟩

end Hermes.DeltaMergePOp
