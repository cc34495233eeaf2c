import Hermes.BatchedDeltaMerge

/-! What goes out in chunks, over the rows that the filters leave.
Every path cuts these rows into slices of `DefaultChunkSize`. What can go wrong is a
table that is not there or has an empty record batch, and batches that go out uncut. -/
namespace Hermes.ChunkEmission
open Hermes.Tuple Hermes.Delta Hermes.DeleteMapGeneratorKernel Hermes.KeepMapCacheMode
open Hermes.DeltaMergeFilter Hermes.DeltaMergePOp Hermes.BatchedDeltaMerge Hermes.Library.Chunks
variable {n : Nat} {α σ : Type} {reader : TableBatchReader} {project : Row n α → σ}
  {deltas : List (DeltaVersion n α)}

/-- The stable rows of the operator: the tables received, or the batches with the bitmap they share. -/
inductive Stables (n : Nat) (α : Type)
  | whole (stables : List (TupleSet (Row n α)))
  | batched (stableBm : Option (List Bool)) (batches : List (TupleSet (Row n α)))

/-- The batches pushed to the queue. -/
def pushed (reader : TableBatchReader) (project : Row n α → σ) (deltas : List (DeltaVersion n α)) :
    Stables n α → Option (List (List σ))
  | .whole stables => (deltaMerge reader project deltas stables).map Prod.fst
  | .batched stableBm batches => (batchedDeltaMerge reader project deltas stableBm batches).map BatchedResult.chunks

def setRows (bits : List Bool) (rows : List σ) : Option (List σ) :=
  if rows.length ≤ bits.length then some (keepRows bits rows) else none

theorem evaluate_setRows {bits : List Bool} {table : TupleSet σ} {rows : List σ} (filled : Filled reader table)
    (kept : setRows bits table.rows = some rows) :
    ∃ tuple, evaluate reader [] (some bits) table = some tuple ∧ tuple.rows = rows := by
  unfold setRows at kept
  split at kept
  next bound =>
    obtain ⟨tuple,returned,same⟩ := evaluate_bitmap bits bound filled
    exact ⟨tuple,returned,same.trans (Option.some.inj kept)⟩
  next => cases kept

section Evaluated
variable (reader project deltas)

/-- Without a stable table there are no stable rows. -/
def evaluatedWhole (stables : List (TupleSet (Row n α))) : Option (List σ × List σ) := do
  let stables := if stables.isEmpty then [⟨[]⟩] else stables
  let stable ← stables[0]?
  if deltas.isEmpty then some ((stable.projectExist project).rows,[])
  else
    let (positions,bitmap) ← getDeleteMap deltas stables
    let evaluatedStables ← setRows bitmap (stable.projectExist project).rows
    let combined ← combinedMemoryDelta deltas
    let tuple ← evaluate reader positions none combined
    some (evaluatedStables,(tuple.projectExist (fun r => project r.toRow)).rows)

/-- The rows one batch leaves, with the keep map and the bitmap behind it. -/
def evaluatedBatch (mode : KeepMap n α) (stableBm : Option (List Bool)) (batch : TupleSet (Row n α))
    (batchCnt : Nat) : Option (List σ × KeepMap n α × Option (List Bool)) := do
  let (mode,_,stableBm) ← getBatchedKeepMap mode deltas (some batch) stableBm batchCnt false
  let bits ← stableBm
  let batchBegin := DefaultChunkSize*(batchCnt-1)
  let batchEnd := if bits.length < DefaultChunkSize*batchCnt then bits.length
    else DefaultChunkSize*batchCnt
  if batchEnd < batchBegin then none
  let rows ← setRows ((bits.drop batchBegin).take (batchEnd-batchBegin)) (batch.projectExist project).rows
  some (rows,mode,some bits)

def evaluatedBatches : KeepMap n α → Option (List Bool) → Nat → List (TupleSet (Row n α)) →
    Option (List σ × KeepMap n α × Option (List Bool))
  | mode, stableBm, _, [] => some ([],mode,stableBm)
  | mode, stableBm, batchCnt, batch::batches => do
    let (rows,mode,stableBm) ← evaluatedBatch project deltas mode stableBm batch batchCnt
    let (rest,mode,stableBm) ← evaluatedBatches mode stableBm (batchCnt+1) batches
    some (rows ++ rest,mode,stableBm)

/-- The rows of the last delta that are kept, and the first delta as it is. -/
def evaluatedDeltas (mode : KeepMap n α) (stableBm : Option (List Bool)) (batchCounter : Nat) :
    Option (List σ) := do
  let (_,positions,_) ← getBatchedKeepMap mode deltas none stableBm batchCounter true
  let first ← deltas[0]?
  if deltas.length > 1 then
    let last ← deltas[deltas.length-1]?
    let tuple ← evaluate reader positions none last.delta
    some ((tuple.projectExist (fun r => project r.toRow)).rows ++
      (first.delta.projectExist (fun r => project r.toRow)).rows)
  else some (first.delta.projectExist (fun r => project r.toRow)).rows

/-- The stable rows whose bit is set and the delta rows that the filter returns. -/
def evaluated : Stables n α → Option (List σ × List σ)
  | .whole stables => evaluatedWhole reader project deltas stables
  | .batched stableBm batches =>
    if deltas.isEmpty then some (batches.flatMap (fun batch => (batch.projectExist project).rows),[])
    else do
      let (stableRows,mode,stableBm) ← evaluatedBatches project deltas (.empty n α) stableBm 1 batches
      let deltaRows ← evaluatedDeltas reader project deltas mode stableBm batches.length
      some (stableRows,deltaRows)

end Evaluated

/-- The table that the emission starts from is there, batches that go out as they are come
cut, and what a bitmap filters has no empty record batch. -/
def Emittable (reader : TableBatchReader) (project : Row n α → σ) (deltas : List (DeltaVersion n α)) :
    Stables n α → Prop
  | .whole stables => ∃ stable ∈ stables.head?, deltas ≠ [] → Filled reader (stable.projectExist project)
  | .batched _ batches => (deltas = [] ∧ Cut batches) ∨
    (deltas ≠ [] ∧ (batches ≠ [] ∨ 1 < deltas.length) ∧ BatchesFilled reader project batches)

section Slicing

theorem fullChunk_fits {rows : List σ} (counter : Nat) (full : fullChunk rows counter = true) :
    (counter+1)*DefaultChunkSize ≤ rows.length := of_decide_eq_true full

theorem fullChunk_leaves {rows : List σ} (counter : Nat) (short : fullChunk rows counter = false) :
    rows.length ≤ (counter+1)*DefaultChunkSize := le_of_lt (not_le.mp (of_decide_eq_false short))

theorem pushAll_fullChunk (rows : List σ) (counter : Nat) :
    Slices DefaultChunkSize (pushAll (fullChunk rows) DefaultChunkSize rows rows.length counter) := by
  apply pushAll_slices defaultChunkSize_pos fullChunk_fits fullChunk_leaves
  omega

theorem noMerge_slices (project : Row n α → σ) (stable : TupleSet (Row n α)) :
    Slices DefaultChunkSize (noMerge project stable) := by
  apply pushAll_slices defaultChunkSize_pos
  · intro counter more
    exact le_of_lt (of_decide_eq_true more)
  · intro counter less
    exact not_lt.mp (of_decide_eq_false less)
  · omega

theorem slices_cut (project : Row n α → σ) (batches : List (TupleSet (Row n α))) :
    Slices DefaultChunkSize (batches.map (fun batch => (batch.projectExist project).rows)) ↔ Cut batches := by
  induction batches with
  | nil => simp [Slices,Cut]
  | cons batch batches ih =>
    simp only [List.map_cons,Slices,Cut,ih]
    simp [TupleSet.numRows]

end Slicing

section Whole

theorem deltaMerge_slices {stable : TupleSet (Row n α)} {others : List (TupleSet (Row n α))}
    {stableRows deltaRows : List σ} (filled : deltas ≠ [] → Filled reader (stable.projectExist project))
    (rows : evaluatedWhole reader project deltas (stable::others) = some (stableRows,deltaRows)) :
    ∃ chunks, pushed reader project deltas (.whole (stable::others)) = some chunks ∧
      chunks.flatten = stableRows ++ deltaRows ∧ Slices DefaultChunkSize chunks := by
  simp only [evaluatedWhole,List.isEmpty_cons,Bool.false_eq_true,if_false,List.getElem?_cons_zero,
    Option.bind_eq_bind,Option.bind_some] at rows
  simp only [pushed,deltaMerge,List.getElem?_cons_zero,Option.bind_eq_bind,Option.bind_some]
  split at rows
  next none_ =>
    cases rows
    exact ⟨_,by rw [if_pos none_]; rfl,by simp [noMerge_rows],noMerge_slices project stable⟩
  next some_ =>
    obtain ⟨⟨positions,bitmap⟩,kernel,rows⟩ := Option.bind_eq_some_iff.mp rows
    obtain ⟨_,setStables,rows⟩ := Option.bind_eq_some_iff.mp rows
    obtain ⟨evaluatedStables,keptStables,rfl⟩ := evaluate_setRows (filled (by simpa using some_)) setStables
    obtain ⟨combined,concatenated,rows⟩ := Option.bind_eq_some_iff.mp rows
    obtain ⟨tuple,kept,rows⟩ := Option.bind_eq_some_iff.mp rows
    cases rows
    rw [if_neg some_,kernel,Option.bind_some,keptStables,Option.bind_some,concatenated,Option.bind_some,
      kept,Option.bind_some]
    refine ⟨_,rfl,?_,?_⟩
    · have flat := pushWhile_flatten (fullChunk evaluatedStables.rows) DefaultChunkSize
        evaluatedStables.rows evaluatedStables.numRows 0
      rw [List.flatten_append,pushAll_flatten,Nat.zero_mul,List.drop_zero,← List.append_assoc,flat]
      simp
    · exact slices_append defaultChunkSize_pos (pushWhile_full fullChunk_fits _ 0) (pushAll_fullChunk _ 0)

end Whole

section Batched

/-- Between two calls everything that fills a chunk has gone out, in full chunks. -/
structure Pushing (op : BatchedState n α σ) (stableRows : List σ) (chunks : List (List σ)) : Prop where
  data : op.evaluatedData.getD [] = stableRows
  full : ∀ chunk ∈ chunks, chunk.length = DefaultChunkSize
  flatten : chunks.flatten ++ stableRows.drop (op.chunkCounter*DefaultChunkSize) = stableRows
  fits : op.chunkCounter*DefaultChunkSize ≤ stableRows.length

theorem pushing_start (stableBm : Option (List Bool)) :
    Pushing (.start stableBm : BatchedState n α σ) [] [] := by
  constructor <;> simp [BatchedState.start]

theorem stablesBatchedDeltaMerge_pushes (nonempty : deltas ≠ []) {op : BatchedState n α σ}
    {stableRows rows : List σ} {chunks : List (List σ)} {mode : KeepMap n α} {stableBm : Option (List Bool)}
    {batch : TupleSet (Row n α)} {batchCnt : Nat} (pushing : Pushing op stableRows chunks)
    (filled : Filled reader (batch.projectExist project))
    (filtered : evaluatedBatch project deltas op.keepMapCacheMode op.stableBm batch batchCnt =
      some (rows,mode,stableBm)) :
    ∃ next op', stablesBatchedDeltaMerge reader project deltas op batch batchCnt = some (next,op') ∧
      Pushing op' (stableRows ++ rows) (chunks ++ next) ∧ op'.keepMapCacheMode = mode ∧
      op'.stableBm = stableBm ∧ op'.evaluatedData.isSome := by
  have some_ : deltas.isEmpty = false := by simpa using nonempty
  obtain ⟨⟨mode',_,stableBm'⟩,kept,filtered⟩ := Option.bind_eq_some_iff.mp filtered
  obtain ⟨bits,bitmap,filtered⟩ := Option.bind_eq_some_iff.mp filtered
  unfold stablesBatchedDeltaMerge
  simp only [some_,Bool.false_eq_true,if_false,kept,Option.bind_eq_bind,Option.bind_some] at filtered bitmap ⊢
  rw [bitmap,Option.bind_some]
  generalize (if bits.length < DefaultChunkSize*batchCnt then bits.length else DefaultChunkSize*batchCnt)
    = batchEnd at filtered ⊢
  split at filtered
  next outside => cases filtered
  next inside =>
    obtain ⟨_,set,filtered⟩ := Option.bind_eq_some_iff.mp filtered
    cases filtered
    obtain ⟨tuple,evaluated,rfl⟩ := evaluate_setRows filled set
    rw [if_neg inside,evaluated,Option.bind_some,pushing.data]
    refine ⟨_,_,rfl,?_,rfl,rfl,rfl⟩
    have before : chunks.flatten ++ (stableRows ++ tuple.rows).drop (op.chunkCounter*DefaultChunkSize) =
        stableRows ++ tuple.rows := by
      rw [List.drop_append_of_le_length pushing.fits,← List.append_assoc,pushing.flatten]
    cases full : fullChunk (stableRows ++ tuple.rows) op.chunkCounter with
    | false =>
      refine ⟨rfl,by simpa using pushing.full,by simpa using before,?_⟩
      have fits := pushing.fits
      simp only [List.length_append]
      simp
      omega
    | true =>
      have fits := fullChunk_fits _ full
      refine ⟨rfl,?_,?_,by simpa using fits⟩
      · intro chunk member
        rcases List.mem_append.mp member with earlier | now
        · exact pushing.full chunk earlier
        · rw [if_pos rfl,List.mem_singleton] at now
          rw [now,length_slice fits]
      · have next := slice_append_drop DefaultChunkSize (stableRows ++ tuple.rows) op.chunkCounter
        rw [← next,← List.append_assoc] at before
        simpa using before

theorem batchedStables_pushes (nonempty : deltas ≠ []) {batches : List (TupleSet (Row n α))}
    (filled : BatchesFilled reader project batches) :
    ∀ {op : BatchedState n α σ} {stableRows rows : List σ} {chunks : List (List σ)} {mode : KeepMap n α}
      {stableBm : Option (List Bool)} {batchCnt : Nat}, Pushing op stableRows chunks →
      evaluatedBatches project deltas op.keepMapCacheMode op.stableBm batchCnt batches =
        some (rows,mode,stableBm) →
      ∃ next op', batchedStables reader project deltas op batchCnt batches = some (next,op') ∧
        Pushing op' (stableRows ++ rows) (chunks ++ next) ∧ op'.keepMapCacheMode = mode ∧
        op'.stableBm = stableBm ∧ (op.evaluatedData.isSome ∨ batches ≠ [] → op'.evaluatedData.isSome) := by
  induction batches with
  | nil =>
    intro op stableRows rows chunks mode stableBm batchCnt pushing filtered
    cases filtered
    exact ⟨[],op,rfl,by simpa using pushing,rfl,rfl,by simp⟩
  | cons batch batches ih =>
    intro op stableRows rows chunks mode stableBm batchCnt pushing filtered
    obtain ⟨⟨here,mode',stableBm'⟩,first,filtered⟩ := Option.bind_eq_some_iff.mp filtered
    obtain ⟨⟨rest,mode'',stableBm''⟩,later,filtered⟩ := Option.bind_eq_some_iff.mp filtered
    cases filtered
    obtain ⟨own,behind⟩ := List.forall_mem_cons.mp filled
    obtain ⟨next,op',returned,pushing',rfl,rfl,holds⟩ := stablesBatchedDeltaMerge_pushes nonempty pushing own first
    obtain ⟨others,op'',returned',pushing'',modes,bitmaps,stays⟩ := ih behind pushing' later
    refine ⟨next ++ others,op'',?_,?_,modes,bitmaps,fun _ => stays (Or.inl holds)⟩
    · simp [batchedStables,returned,returned']
    · simpa [List.append_assoc] using pushing''

theorem deltasDeltaMerge_pushes (nonempty : deltas ≠ []) {op : BatchedState n α σ}
    {stableRows deltaRows : List σ} {chunks : List (List σ)} {batchCounter : Nat}
    (pushing : Pushing op stableRows chunks) (present : op.evaluatedData.isSome ∨ 1 < deltas.length)
    (filtered : evaluatedDeltas reader project deltas op.keepMapCacheMode op.stableBm batchCounter =
      some deltaRows) :
    ∃ next message, deltasDeltaMerge reader project deltas op batchCounter = some (next,message) ∧
      (chunks ++ next).flatten = stableRows ++ deltaRows ∧ Slices DefaultChunkSize (chunks ++ next) := by
  have some_ : deltas.isEmpty = false := by simpa using nonempty
  have rest : ∀ rows, (chunks ++ pushAll (fullChunk (stableRows ++ rows)) DefaultChunkSize (stableRows ++ rows)
      (stableRows ++ rows).length op.chunkCounter).flatten = stableRows ++ rows := by
    intro rows
    rw [List.flatten_append,pushAll_flatten,List.drop_append_of_le_length pushing.fits,← List.append_assoc,
      pushing.flatten]
  have slices : ∀ rows, Slices DefaultChunkSize (chunks ++ pushAll (fullChunk rows) DefaultChunkSize rows
      rows.length op.chunkCounter) :=
    fun rows => slices_append defaultChunkSize_pos pushing.full (pushAll_fullChunk rows _)
  unfold deltasDeltaMerge
  unfold evaluatedDeltas at filtered
  rw [some_,if_neg Bool.false_ne_true]
  obtain ⟨⟨mode,positions,bitmap⟩,kept,filtered⟩ := Option.bind_eq_some_iff.mp filtered
  obtain ⟨first,head,filtered⟩ := Option.bind_eq_some_iff.mp filtered
  simp only [Option.bind_eq_bind,kept,Option.bind_some,head] at filtered ⊢
  split at filtered
  next several =>
    obtain ⟨last,final,filtered⟩ := Option.bind_eq_some_iff.mp filtered
    obtain ⟨tuple,evaluated,filtered⟩ := Option.bind_eq_some_iff.mp filtered
    cases filtered
    rw [if_pos several,final,Option.bind_some,evaluated,Option.bind_some,pushing.data,List.append_assoc]
    exact ⟨_,_,rfl,rest _,slices _⟩
  next single =>
    cases filtered
    obtain ⟨data,evaluated⟩ := Option.isSome_iff_exists.mp (present.resolve_right single)
    have same : data = stableRows := by simpa [evaluated] using pushing.data
    rw [if_neg single,evaluated,Option.bind_some,same]
    exact ⟨_,_,rfl,rest _,slices _⟩

theorem deltasDeltaMerge_null (reader : TableBatchReader) (project : Row n α → σ) {op : BatchedState n α σ}
    (batchCounter : Nat) (nonempty : deltas ≠ [])
    (single : ¬1 < deltas.length) (null : op.evaluatedData = none) :
    deltasDeltaMerge reader project deltas op batchCounter = none := by
  have some_ : deltas.isEmpty = false := by simpa using nonempty
  unfold deltasDeltaMerge
  simp only [some_,Bool.false_eq_true,if_false,if_neg single,null,Option.bind_eq_bind,Option.bind_none]
  simp

theorem batchedStables_uncut (op : BatchedState n α σ) (batchCnt : Nat) (batches : List (TupleSet (Row n α))) :
    batchedStables reader project [] op batchCnt batches =
      some (batches.map (fun batch => (batch.projectExist project).rows),op) := by
  induction batches generalizing batchCnt with
  | nil => rfl
  | cons batch batches ih =>
    have here : stablesBatchedDeltaMerge reader project [] op batch batchCnt =
        some ([(batch.projectExist project).rows],op) := rfl
    simp [batchedStables,here,ih]

theorem batched_slices (nonempty : deltas ≠ []) {stableBm : Option (List Bool)}
    {batches : List (TupleSet (Row n α))} {stableRows deltaRows : List σ}
    (rows : evaluated reader project deltas (.batched stableBm batches) = some (stableRows,deltaRows))
    (present : batches ≠ [] ∨ 1 < deltas.length) (filled : BatchesFilled reader project batches) :
    ∃ chunks, pushed reader project deltas (.batched stableBm batches) = some chunks ∧
      chunks.flatten = stableRows ++ deltaRows ∧ Slices DefaultChunkSize chunks := by
  have some_ : deltas.isEmpty = false := by simpa using nonempty
  simp only [evaluated,some_,Bool.false_eq_true,if_false] at rows
  obtain ⟨⟨stable,mode,bitmap⟩,filtered,rows⟩ := Option.bind_eq_some_iff.mp rows
  obtain ⟨delta,filteredDeltas,rows⟩ := Option.bind_eq_some_iff.mp rows
  cases rows
  obtain ⟨next,op,returned,pushing,rfl,rfl,holds⟩ :=
    batchedStables_pushes nonempty filled (pushing_start stableBm) filtered
  obtain ⟨rest,message,returned',flatten,slices⟩ := deltasDeltaMerge_pushes nonempty pushing
    (present.imp_left (fun some_ => holds (Or.inr some_))) filteredDeltas
  refine ⟨next ++ rest,?_,by simpa using flatten,by simpa using slices⟩
  simp [pushed,batchedDeltaMerge,returned,returned']

end Batched

section Inputs

def insertedThree : DeltaVersion 1 Nat := ⟨.ofRows [⟨⟨singleKey 3,30⟩,.insert⟩],1⟩

end Inputs

end Hermes.ChunkEmission
