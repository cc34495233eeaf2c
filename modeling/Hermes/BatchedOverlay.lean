import Hermes.StableSearch
import Hermes.LatestVersion

/-! When a batched merge is the latest-version-wins merge.
It is right for the rows it emits as they are only if these are live and newest,
and for all other keys only if the stable rows left are what the newest change
of the key says. -/
namespace Hermes.BatchedOverlay
open Hermes.Tuple Hermes.Delta Hermes.DeleteMapGeneratorKernel Hermes.KeepMapCacheMode
open Hermes.DeltaMergeFilter Hermes.DeltaMergePOp Hermes.BatchedKeepMap Hermes.BatchedDeltaMerge Hermes.StableSearch
open Hermes.LatestVersion Hermes.Library Hermes.Library.KeyOrder Hermes.Library.Overlay
variable {n : Nat} {α : Type} {deltas committed : List (DeltaVersion n α)}
  {batches : List (TupleSet (Row n α))} {bits : List Bool}

def memRows (committed : List (DeltaVersion n α)) : List (DeltaRow n α) :=
  (committed.take 1).flatMap (fun d => d.delta.rows)

def tailRows (committed : List (DeltaVersion n α)) : List (DeltaRow n α) :=
  (committed.drop 1).getLast?.toList.flatMap (fun d => d.delta.rows)

def versions (committed : List (DeltaVersion n α)) : List (List (DeltaRow n α)) :=
  committed.map (fun d => d.delta.rows)

/-- Versions in the order of their timestamps, loaded in any order, with a stable
table in batches and a bitmap as long as it is. -/
structure BatchedInput (deltas committed : List (DeltaVersion n α)) (batches : List (TupleSet (Row n α)))
    (bits : List Bool) : Prop where
  columns : 0 < n
  nonempty : committed ≠ []
  loaded : deltas.Perm committed
  order : committed.Pairwise (fun d e => d.timestamp < e.timestamp)
  stamped : ∀ d ∈ committed, 0 ≤ d.timestamp ∧ d.timestamp < 5000000000000
  unique : ∀ d ∈ committed, (d.delta.rows.map (·.key)).Nodup
  stableOrder : Ascending Row.key (batches.flatMap TupleSet.rows)
  cut : Cut batches
  size : bits.length = (batches.flatMap TupleSet.rows).length

def latest (committed : List (DeltaVersion n α)) (batches : List (TupleSet (Row n α))) (bits : List Bool) :
    List (Row n α) :=
  replay (keyed n α) (keepRows bits (batches.flatMap TupleSet.rows)) (versions committed)

/-- The call emits `rows`, and laying the delta it sends back over the stable rows
whose bit it leaves gives them too. -/
def MergesTo (reader : TableBatchReader) (deltas : List (DeltaVersion n α))
    (batches : List (TupleSet (Row n α))) (bits : List Bool) (rows : List (Row n α)) : Prop :=
  ∀ (σ : Type) (project : Row n α → σ), ∃ chunks tuple left,
    batchedDeltaMerge reader project deltas (some bits) batches = some ⟨chunks,some ⟨tuple,none⟩,some left⟩ ∧
    chunks.flatten.Perm (rows.map project) ∧ (tuple.rows.map (·.key)).Nodup ∧
    (overlay (keyed n α) (keepRows left (batches.flatMap TupleSet.rows)) tuple.rows).Perm rows

/-- A delta row that goes out as it is: one of the first delta, or one of the last
delta at the index of a surviving memory row. -/
def Emits (deltas committed : List (DeltaVersion n α)) (count : Nat) (r : DeltaRow n α) : Prop :=
  r ∈ lastKept deltas (memRows committed) (tailRows committed) count ++ firstRows deltas

/-- A stable row whose bit stays set: no tail row is searched for whose first column lands at it. -/
def StaysSet (committed : List (DeltaVersion n α)) (batches : List (TupleSet (Row n α))) (bits : List Bool)
    (x : Row n α) : Prop :=
  ∃ s : Nat, (batches.flatMap TupleSet.rows)[s]? = some x ∧ bits[s]? = some true ∧
    ∀ t, SearchedFor (memRows committed) (tailRows committed) t → landingRow 0 batches (firstColumn t.key) ≠ some s

/-- When a batched merge is right. No record batch of a stable batch is empty and the
last call finds what it reads; the delta rows
that go out are live and newest, and no key is in both deltas they come from; a
stable row whose bit stays set has none of their keys; a key of no row that goes
out has the stable row its newest change leaves; and only rows with a change lose
their bit. -/
structure BatchedOverlays (reader : TableBatchReader) (deltas committed : List (DeltaVersion n α))
    (batches : List (TupleSet (Row n α))) (bits : List Bool) : Prop where
  filled : ∀ batch ∈ batches, StableFilled reader batch
  completes : Completes reader deltas (memRows committed) (tailRows committed) batches.length
  live : ∀ r, Emits deltas committed batches.length r → r.type ≠ .delete ∧
    ∀ c, newest (keyed n α) (versions committed) r.key = some c → image c = some r.toRow
  once : ∀ r ∈ lastKept deltas (memRows committed) (tailRows committed) batches.length,
    r.key ∉ (firstRows deltas).map (·.key)
  apart : ∀ x, StaysSet committed batches bits x → ∀ r, Emits deltas committed batches.length r → r.key ≠ x.key
  left : ∀ c, newest (keyed n α) (versions committed) c.key = some c →
    (∀ r, Emits deltas committed batches.length r → r.key ≠ c.key) →
    ∀ x : Row n α, x.key = c.key → (StaysSet committed batches bits x ↔ image c = some x)
  unchanged : ∀ x ∈ keepRows bits (batches.flatMap TupleSet.rows),
    newest (keyed n α) (versions committed) x.key = none → StaysSet committed batches bits x

theorem mem_cleared (ascending : Ascending Row.key (batches.flatMap TupleSet.rows)) {x : Row n α} :
    x ∈ keepRows (clearBits (hits (memRows committed) (tailRows committed) batches) bits)
        (batches.flatMap TupleSet.rows) ↔ StaysSet committed batches bits x := by
  rw [mem_keepRows]
  refine exists_congr (fun s => and_congr_right (fun _ => ?_))
  rw [getElem?_clearBits]
  cases bits[s]? with
  | none => simp
  | some bit => cases bit <;> simp [mem_hits ascending]

section Loaded

theorem timestamps_distinct (loaded : deltas.Perm committed)
    (order : committed.Pairwise (fun d e => d.timestamp < e.timestamp)) : (deltas.map (·.timestamp)).Nodup := by
  rw [(loaded.map _).nodup_iff]
  exact (List.pairwise_map.mpr order).imp ne_of_lt

theorem setsUp_loaded (nonempty : committed ≠ []) (loaded : deltas.Perm committed)
    (order : committed.Pairwise (fun d e => d.timestamp < e.timestamp))
    (stamped : ∀ d ∈ committed, 0 ≤ d.timestamp ∧ d.timestamp < 5000000000000) :
    SetsUp deltas (memRows committed) (tailRows committed) := by
  have distinct := timestamps_distinct loaded order
  cases committed with
  | nil => exact absurd rfl nonempty
  | cons oldest rest =>
    rcases List.eq_nil_or_concat rest with rfl | ⟨middle,newest,rfl⟩
    · rw [List.perm_singleton.mp loaded]
      simpa [memRows,tailRows] using setsUp_single oldest
    · rw [List.concat_eq_append] at loaded order stamped ⊢
      obtain ⟨above,inner⟩ := List.pairwise_cons.mp order
      have below := (List.pairwise_append.mp inner).2.2
      have size : deltas.length = middle.length+2 := by simpa using loaded.length_eq
      obtain ⟨i,memVersion⟩ := List.mem_iff_getElem?.mp (loaded.mem_iff.mpr List.mem_cons_self)
      obtain ⟨j,tailVersion⟩ := List.mem_iff_getElem?.mp (loaded.mem_iff.mpr
        (List.mem_cons_of_mem oldest (List.mem_append_right middle (List.mem_singleton_self newest))))
      have between := above newest (by simp)
      have positions : positionTailAndMemDelta (deltas.map (·.timestamp)) = (some i,some j) := by
        have mem : (deltas.map (·.timestamp))[i]? = some oldest.timestamp := by simp [memVersion]
        have tail : (deltas.map (·.timestamp))[j]? = some newest.timestamp := by simp [tailVersion]
        apply positionTailAndMemDelta_spec (by simp [size]) distinct mem tail
        · intro t member
          obtain ⟨d,inside,rfl⟩ := List.mem_map.mp member
          rcases List.mem_cons.mp (loaded.mem_iff.mp inside) with rfl | later
          · exact le_refl _
          · exact le_of_lt (above d later)
        · intro t member
          obtain ⟨d,inside,rfl⟩ := List.mem_map.mp member
          rcases List.mem_cons.mp (loaded.mem_iff.mp inside) with rfl | later
          · exact le_of_lt between
          · rcases List.mem_append.mp later with early | final
            · exact le_of_lt (below d early newest (by simp))
            · rw [List.mem_singleton.mp final]
        · exact (stamped oldest List.mem_cons_self).2
        · exact lt_of_le_of_lt (stamped oldest List.mem_cons_self).1 between
      have sets := setsUp_several (by omega) positions memVersion tailVersion
      simpa [memRows,tailRows] using sets

end Loaded

section Input
variable (input : BatchedInput deltas committed batches bits)
include input

theorem BatchedInput.setsUp : SetsUp deltas (memRows committed) (tailRows committed) :=
  setsUp_loaded input.nonempty input.loaded input.order input.stamped

theorem BatchedInput.base_distinct : ((keepRows bits (batches.flatMap TupleSet.rows)).map Row.key).Nodup :=
  (input.stableOrder.sublist (keepRows_sublist _ _)).nodup_keys

theorem BatchedInput.versions_distinct :
    ∀ version ∈ versions committed, (version.map (keyed n α).change).Nodup := by
  intro version member
  obtain ⟨d,inside,rfl⟩ := List.mem_map.mp member
  exact input.unique d inside

theorem BatchedInput.emits_version {count : Nat} {r : DeltaRow n α} (emits : Emits deltas committed count r) :
    ∃ d ∈ committed, r ∈ d.delta.rows := by
  rcases List.mem_append.mp emits with kept | first
  · obtain ⟨last,found,member⟩ := List.mem_flatMap.mp kept
    obtain ⟨i,_,read⟩ := List.mem_filterMap.mp member
    have version : last ∈ deltas :=
      List.mem_of_mem_drop (List.mem_of_getLast? (Option.mem_toList.mp found))
    exact ⟨last,input.loaded.mem_iff.mp version,List.mem_of_getElem? read⟩
  · obtain ⟨d,member,inside⟩ := List.mem_flatMap.mp first
    exact ⟨d,input.loaded.mem_iff.mp (List.mem_of_mem_take member),inside⟩

theorem BatchedInput.merged_nodup (count : Nat) :
    ((lastKept deltas (memRows committed) (tailRows committed) count ++ firstRows deltas).map (·.key)).Nodup ↔
      ∀ r ∈ lastKept deltas (memRows committed) (tailRows committed) count,
        r.key ∉ (firstRows deltas).map (·.key) := by
  have unique : ∀ d ∈ deltas, (d.delta.rows.map (·.key)).Nodup :=
    fun d member => input.unique d (input.loaded.mem_iff.mp member)
  have first : ((firstRows deltas).map (·.key)).Nodup := by
    cases deltas with
    | nil => simp [firstRows]
    | cons d rest => simpa [firstRows] using unique d List.mem_cons_self
  have last : ((lastKept deltas (memRows committed) (tailRows committed) count).map (·.key)).Nodup := by
    unfold lastKept
    cases found : (deltas.drop 1).getLast? with
    | none => simp
    | some d =>
      have version : d ∈ deltas := List.mem_of_mem_drop (List.mem_of_getLast? found)
      rw [Option.toList_some,List.flatMap_singleton]
      unfold List.Nodup
      rw [List.pairwise_map,List.pairwise_filterMap]
      refine (survivors_sorted _ _ _).imp (fun {i j} before r read r' read' same => ?_)
      have left : (d.delta.rows.map (·.key))[i]? = some r.key := by rw [List.getElem?_map,read]; rfl
      have right : (d.delta.rows.map (·.key))[j]? = some r.key := by rw [List.getElem?_map,read',same]; rfl
      have index := (List.getElem?_inj (List.getElem?_eq_some_iff.mp left).1 (unique d version)).mp
        (left.trans right.symm)
      omega
  rw [List.map_append,List.nodup_append']
  constructor
  · rintro ⟨_,_,apart⟩ r member
    exact apart (List.mem_map.mpr ⟨r,member,rfl⟩)
  · intro once
    refine ⟨last,first,?_⟩
    intro k left right
    obtain ⟨r,member,rfl⟩ := List.mem_map.mp left
    exact once r member right

theorem BatchedInput.mem_latest_changed {x : Row n α} {c : DeltaRow n α}
    (found : newest (keyed n α) (versions committed) x.key = some c) :
    x ∈ latest committed batches bits ↔ image c = some x := by
  rw [latest,mem_replay _ input.versions_distinct]
  change newest (keyed n α) (versions committed) ((keyed n α).row x) = some c at found
  rw [found]
  rfl

theorem BatchedInput.mem_latest_unchanged {x : Row n α}
    (found : newest (keyed n α) (versions committed) x.key = none) :
    x ∈ latest committed batches bits ↔ x ∈ keepRows bits (batches.flatMap TupleSet.rows) := by
  rw [latest,mem_replay _ input.versions_distinct]
  change newest (keyed n α) (versions committed) ((keyed n α).row x) = none at found
  rw [found]

theorem BatchedInput.latest_distinct : ((latest committed batches bits).map Row.key).Nodup :=
  replay_distinct (keyed n α) input.base_distinct input.versions_distinct

theorem BatchedInput.newest_isSome {count : Nat} {r : DeltaRow n α} (emits : Emits deltas committed count r) :
    ∃ c, newest (keyed n α) (versions committed) r.key = some c := by
  obtain ⟨d,member,inside⟩ := input.emits_version emits
  exact Option.isSome_iff_exists.mp (Overlay.newest_isSome (keyed n α)
    (List.mem_map.mpr ⟨d,member,rfl⟩) inside)

private theorem live_iff {count : Nat} {r : DeltaRow n α} (emits : Emits deltas committed count r) :
    (image r = some r.toRow ∧ r.toRow ∈ latest committed batches bits) ↔
      (r.type ≠ .delete ∧
        ∀ c, newest (keyed n α) (versions committed) r.key = some c → image c = some r.toRow) := by
  obtain ⟨c,found⟩ := input.newest_isSome emits
  have live : image r = some r.toRow ↔ r.type ≠ .delete := by simp [image]
  rw [live,input.mem_latest_changed (x := r.toRow) found,found]
  simp

private theorem mergesTo_parts (reader : TableBatchReader) :
    MergesTo reader deltas batches bits (latest committed batches bits) ↔
      ((∀ batch ∈ batches, StableFilled reader batch) ∧
        Completes reader deltas (memRows committed) (tailRows committed) batches.length) ∧
      ((keepRows (clearBits (hits (memRows committed) (tailRows committed) batches) bits)
          (batches.flatMap TupleSet.rows) ++ (lastKept deltas (memRows committed) (tailRows committed)
            batches.length ++ firstRows deltas).map (·.toRow)).Perm (latest committed batches bits) ∧
        ((lastKept deltas (memRows committed) (tailRows committed) batches.length ++
          firstRows deltas).map (·.key)).Nodup ∧
        (overlay (keyed n α) (keepRows (clearBits (hits (memRows committed) (tailRows committed) batches) bits)
          (batches.flatMap TupleSet.rows)) (lastKept deltas (memRows committed) (tailRows committed)
            batches.length ++ firstRows deltas)).Perm (latest committed batches bits)) := by
  have nonempty : deltas ≠ [] := by
    rintro rfl
    exact input.nonempty input.loaded.nil_eq.symm
  constructor
  · intro merges
    have returns : ∀ (σ : Type) (project : Row n α → σ), BatchesFilled reader project batches ∧
        Completes reader deltas (memRows committed) (tailRows committed) batches.length := by
      intro σ project
      by_contra open_
      obtain ⟨chunks,tuple,left,returned,_⟩ := merges σ project
      rw [(batchedDeltaMerge_spec reader project input.columns nonempty input.setsUp input.cut input.size).2 open_]
        at returned
      cases returned
    obtain ⟨chunks,tuple,left,returned,emitted,unique,overlaid⟩ := merges (Row n α) id
    obtain ⟨filled,completes⟩ := returns (Row n α) id
    obtain ⟨chunks',tuple',returned',rows,flattened⟩ := (batchedDeltaMerge_spec reader id input.columns nonempty
      input.setsUp input.cut input.size).1 filled completes
    rw [returned',Option.some.injEq,BatchedResult.mk.injEq,Option.some.injEq,MergedDeltaMessage.mk.injEq,
      Option.some.injEq] at returned
    obtain ⟨rfl,⟨rfl,_⟩,rfl⟩ := returned
    rw [List.map_id,rows] at flattened
    rw [List.map_id,flattened] at emitted
    rw [rows] at unique overlaid
    exact ⟨⟨fun batch member σ project => (returns σ project).1 batch member,completes⟩,emitted,unique,overlaid⟩
  · rintro ⟨⟨filled,completes⟩,emitted,unique,overlaid⟩ σ project
    obtain ⟨chunks,tuple,returned,rows,flattened⟩ := (batchedDeltaMerge_spec reader project input.columns
      nonempty input.setsUp input.cut input.size).1 (fun batch member => filled batch member σ project) completes
    refine ⟨chunks,tuple,_,returned,?_,?_,?_⟩
    · rw [flattened,rows]
      exact emitted.map project
    · rw [rows]
      exact unique
    · rw [rows]
      exact overlaid

theorem mergesTo_iff (reader : TableBatchReader) :
    MergesTo reader deltas batches bits (latest committed batches bits) ↔
      BatchedOverlays reader deltas committed batches bits := by
  have stays : ∀ x, StaysSet committed batches bits x → x ∈ keepRows bits (batches.flatMap TupleSet.rows) := by
    rintro x ⟨s,read,bit,_⟩
    exact mem_keepRows.mpr ⟨s,read,bit⟩
  have outgoing : ∀ k, k ∈ (lastKept deltas (memRows committed) (tailRows committed) batches.length ++
      firstRows deltas).map (·.key) ↔ ∃ r, Emits deltas committed batches.length r ∧ r.key = k :=
    fun k => List.mem_map
  have emits : ∀ c : DeltaRow n α, (keyed n α).row c.toRow = (keyed n α).change c := fun _ => rfl
  refine (mergesTo_parts input reader).trans ((and_congr_right (fun _ => emitted_overlay_iff (keyed n α) emits
    (input.stableOrder.sublist (keepRows_sublist _ _)).nodup_keys input.latest_distinct)).trans ?_)
  constructor
  · rintro ⟨⟨filled,completes⟩,unique,lives,kept,covers⟩
    refine ⟨filled,completes,fun r emits => (live_iff input emits).mp (lives r emits),
      (input.merged_nodup _).mp unique,?_,?_,?_⟩
    · intro x set r emits same
      exact (kept x ((mem_cleared input.stableOrder).mpr set)).2 ((outgoing _).mpr ⟨r,emits,same⟩)
    · intro c found fresh x same
      have decided := input.mem_latest_changed (x := x) (same ▸ found)
      constructor
      · exact fun set => decided.mp (kept x ((mem_cleared input.stableOrder).mpr set)).1
      · intro leaves
        refine (mem_cleared input.stableOrder).mp ((covers x (decided.mpr leaves)).resolve_right ?_)
        intro hit
        obtain ⟨r,emits,key⟩ := (outgoing _).mp hit
        exact fresh r emits (key.trans same)
    · intro x base unchanged
      refine (mem_cleared input.stableOrder).mp ((covers x ((input.mem_latest_unchanged unchanged).mpr base)).resolve_right ?_)
      intro hit
      obtain ⟨r,emits,key⟩ := (outgoing _).mp hit
      obtain ⟨c,found⟩ := input.newest_isSome emits
      change r.key = x.key at key
      rw [key,unchanged] at found
      cases found
  · intro overlays
    refine ⟨⟨overlays.filled,overlays.completes⟩,(input.merged_nodup _).mpr overlays.once,
      fun r emits => (live_iff input emits).mpr (overlays.live r emits),?_,?_⟩
    · intro x member
      have set := (mem_cleared input.stableOrder).mp member
      have fresh : ∀ r, Emits deltas committed batches.length r → r.key ≠ x.key := overlays.apart x set
      refine ⟨?_,?_⟩
      · cases found : newest (keyed n α) (versions committed) x.key with
        | none => exact (input.mem_latest_unchanged found).mpr (stays x set)
        | some c =>
          have key : c.key = x.key := (newest_mem (keyed n α) found).2
          refine (input.mem_latest_changed found).mpr ?_
          exact (overlays.left c (by rw [key]; exact found) (by rw [key]; exact fresh) x key.symm).mp set
      · intro hit
        obtain ⟨r,emits,key⟩ := (outgoing _).mp hit
        exact fresh r emits key
    · intro x member
      by_cases hit : ∃ r, Emits deltas committed batches.length r ∧ r.key = x.key
      · exact Or.inr ((outgoing _).mpr hit)
      · have fresh : ∀ r, Emits deltas committed batches.length r → r.key ≠ x.key :=
          fun r emits key => hit ⟨r,emits,key⟩
        refine Or.inl ((mem_cleared input.stableOrder).mpr ?_)
        cases found : newest (keyed n α) (versions committed) x.key with
        | none => exact overlays.unchanged x ((input.mem_latest_unchanged found).mp member) found
        | some c =>
          have key : c.key = x.key := (newest_mem (keyed n α) found).2
          refine (overlays.left c (by rw [key]; exact found) (by rw [key]; exact fresh) x key.symm).mpr ?_
          exact (input.mem_latest_changed found).mp member

end Input

section TwoVersions
variable {mem tail : DeltaVersion n α}

/-- The condition for a memory delta and a newer tail, in either load order: delta rows
that go out are live, agree with the tail, and share no key with each other or with
a stable row whose bit stays set; for other keys these stable rows are what the
tail leaves, or else the memory delta; and the rows of no delta key stay set. -/
structure TailOverMemory (reader : TableBatchReader) (deltas : List (DeltaVersion n α))
    (mem tail : DeltaVersion n α) (batches : List (TupleSet (Row n α))) (bits : List Bool) : Prop where
  filled : ∀ batch ∈ batches, StableFilled reader batch
  completes : Completes reader deltas mem.delta.rows tail.delta.rows batches.length
  live : ∀ r, Emits deltas [mem,tail] batches.length r → r.type ≠ .delete ∧
    ∀ t ∈ tail.delta.rows, t.key = r.key → image t = some r.toRow
  once : ∀ r ∈ lastKept deltas mem.delta.rows tail.delta.rows batches.length,
    r.key ∉ (firstRows deltas).map (·.key)
  apart : ∀ x, StaysSet [mem,tail] batches bits x →
    ∀ r, Emits deltas [mem,tail] batches.length r → r.key ≠ x.key
  tailLeaves : ∀ t ∈ tail.delta.rows, (∀ r, Emits deltas [mem,tail] batches.length r → r.key ≠ t.key) →
    ∀ x : Row n α, x.key = t.key → (StaysSet [mem,tail] batches bits x ↔ image t = some x)
  memLeaves : ∀ m ∈ mem.delta.rows, m.key ∉ tail.delta.rows.map (·.key) →
    (∀ r, Emits deltas [mem,tail] batches.length r → r.key ≠ m.key) →
    ∀ x : Row n α, x.key = m.key → (StaysSet [mem,tail] batches bits x ↔ image m = some x)
  unchanged : ∀ x ∈ keepRows bits (batches.flatMap TupleSet.rows), x.key ∉ mem.delta.rows.map (·.key) →
    x.key ∉ tail.delta.rows.map (·.key) → StaysSet [mem,tail] batches bits x

section Newest
variable (input : BatchedInput deltas [mem,tail] batches bits)
include input

private theorem newest_tail {t : DeltaRow n α} (member : t ∈ tail.delta.rows) :
    newest (keyed n α) (versions [mem,tail]) t.key = some t := by
  have found : lookup (keyed n α) tail.delta.rows t.key = some t :=
    (lookup_eq_some _ (input.unique tail (by simp))).mpr ⟨member,rfl⟩
  simp [newest,versions,found]

private theorem newest_mem_of_absent {m : DeltaRow n α} (member : m ∈ mem.delta.rows)
    (absent : m.key ∉ tail.delta.rows.map (·.key)) :
    newest (keyed n α) (versions [mem,tail]) m.key = some m := by
  have none_ : lookup (keyed n α) tail.delta.rows m.key = none := (lookup_eq_none _).mpr absent
  have found : lookup (keyed n α) mem.delta.rows m.key = some m :=
    (lookup_eq_some _ (input.unique mem (by simp))).mpr ⟨member,rfl⟩
  simp [newest,versions,none_,found]

omit input in
private theorem newest_cases (mem tail : DeltaVersion n α) (k : PrimaryKey n) :
    (∃ t ∈ tail.delta.rows, t.key = k) ∨
      (k ∉ tail.delta.rows.map (·.key) ∧ ∃ m ∈ mem.delta.rows, m.key = k) ∨
      (k ∉ tail.delta.rows.map (·.key) ∧ k ∉ mem.delta.rows.map (·.key) ∧
        newest (keyed n α) (versions [mem,tail]) k = none) := by
  by_cases inTail : k ∈ tail.delta.rows.map (·.key)
  · exact Or.inl (List.mem_map.mp inTail)
  · by_cases inMem : k ∈ mem.delta.rows.map (·.key)
    · exact Or.inr (Or.inl ⟨inTail,List.mem_map.mp inMem⟩)
    · refine Or.inr (Or.inr ⟨inTail,inMem,?_⟩)
      have none_ : lookup (keyed n α) tail.delta.rows k = none := (lookup_eq_none _).mpr inTail
      have none' : lookup (keyed n α) mem.delta.rows k = none := (lookup_eq_none _).mpr inMem
      simp [newest,versions,none_,none']

theorem batchedOverlays_two (reader : TableBatchReader) :
    BatchedOverlays reader deltas [mem,tail] batches bits ↔
      TailOverMemory reader deltas mem tail batches bits := by
  have rows : memRows [mem,tail] = mem.delta.rows ∧ tailRows [mem,tail] = tail.delta.rows := by
    simp [memRows,tailRows]
  constructor
  · intro overlays
    have completes := overlays.completes
    have once := overlays.once
    rw [rows.1,rows.2] at completes once
    refine ⟨overlays.filled,completes,?_,once,overlays.apart,?_,?_,?_⟩
    · intro r emits
      obtain ⟨live,decided⟩ := overlays.live r emits
      exact ⟨live,fun t member same => decided t (same ▸ newest_tail input member)⟩
    · exact fun t member => overlays.left t (newest_tail input member)
    · exact fun m member absent => overlays.left m (newest_mem_of_absent input member absent)
    · intro x base noMem noTail
      apply overlays.unchanged x base
      rcases newest_cases mem tail x.key with ⟨t,member,same⟩ | ⟨_,m,member,same⟩ | ⟨_,_,none_⟩
      · exact absurd (List.mem_map.mpr ⟨t,member,same⟩) noTail
      · exact absurd (List.mem_map.mpr ⟨m,member,same⟩) noMem
      · exact none_
  · intro two
    have completes := two.completes
    have once := two.once
    rw [← rows.1,← rows.2] at completes once
    refine ⟨two.filled,completes,?_,once,two.apart,?_,?_⟩
    · intro r emits
      obtain ⟨live,agrees⟩ := two.live r emits
      refine ⟨live,?_⟩
      intro c found
      rcases newest_cases mem tail r.key with ⟨t,member,same⟩ | ⟨absent,_⟩ | ⟨_,_,none_⟩
      · have newer := newest_tail input member
        rw [same,found,Option.some.injEq] at newer
        rw [newer]
        exact agrees t member same
      · obtain ⟨d,version,inside⟩ := input.emits_version emits
        rcases List.mem_cons.mp version with rfl | last
        · have own := newest_mem_of_absent input inside absent
          rw [found,Option.some.injEq] at own
          rw [own]
          simp [image,live]
        · rw [List.mem_singleton.mp last] at inside
          exact absurd (List.mem_map.mpr ⟨r,inside,rfl⟩) absent
      · rw [none_] at found
        cases found
    · intro c found
      rcases newest_cases mem tail c.key with ⟨t,member,same⟩ | ⟨absent,m,member,same⟩ | ⟨_,_,none_⟩
      · have newer := newest_tail input member
        rw [same,found,Option.some.injEq] at newer
        rw [newer]
        exact two.tailLeaves t member
      · have own := newest_mem_of_absent input member (by rw [same]; exact absent)
        rw [same,found,Option.some.injEq] at own
        rw [own]
        exact two.memLeaves m member (by rw [same]; exact absent)
      · rw [none_] at found
        cases found
    · intro x base none_
      rcases newest_cases mem tail x.key with ⟨t,member,same⟩ | ⟨absent,m,member,same⟩ | ⟨noTail,noMem,_⟩
      · rw [← same,newest_tail input member] at none_
        cases none_
      · rw [← same,newest_mem_of_absent input member (by rw [same]; exact absent)] at none_
        cases none_
      · exact two.unchanged x base noMem noTail

end Newest

/-- The batched merge of a memory delta and a newer tail is the latest-version-wins
merge exactly under the condition. -/
theorem batchedMerge_overlays_iff (input : BatchedInput deltas [mem,tail] batches bits)
    (reader : TableBatchReader) :
    MergesTo reader deltas batches bits (latest [mem,tail] batches bits) ↔
      TailOverMemory reader deltas mem tail batches bits :=
  (mergesTo_iff input reader).trans (batchedOverlays_two input reader)

end TwoVersions

section Examples

def twoRowBatch : List (TupleSet (Row 1 Nat)) := [.ofRows [⟨singleKey 1,10⟩,⟨singleKey 2,20⟩]]

def insertedThree : DeltaVersion 1 Nat := ⟨.ofRows [⟨⟨singleKey 3,30⟩,.insert⟩],1⟩

def deletedOne : DeltaVersion 1 Nat := ⟨.ofRows [⟨⟨singleKey 1,10⟩,.delete⟩],2⟩

def updatedOne : DeltaVersion 1 Nat := ⟨.ofRows [⟨⟨singleKey 1,11⟩,.update⟩],2⟩

private theorem two_input {tail : DeltaVersion 1 Nat} (stamp : tail.timestamp = 2)
    (unique : (tail.delta.rows.map (·.key)).Nodup) :
    BatchedInput [tail,insertedThree] [insertedThree,tail] twoRowBatch [true,true] := by
  refine ⟨by decide,by simp,List.Perm.swap _ _ _,?_,?_,?_,by decide,?_,by decide⟩
  · simp [insertedThree,stamp]
  · simp [insertedThree,stamp]
  · intro d member
    simp only [List.mem_cons,List.not_mem_nil,or_false] at member
    rcases member with rfl | rfl
    · decide
    · exact unique
  · simp [Cut,twoRowBatch,TupleSet.numRows,DefaultChunkSize]

/-- The row of a DELETE goes out as a live row, and so does the stable row it deletes. -/
theorem deleted_in_tail_emitted :
    BatchedInput [deletedOne,insertedThree] [insertedThree,deletedOne] twoRowBatch [true,true] ∧
      ¬MergesTo .chunked [deletedOne,insertedThree] twoRowBatch [true,true]
        (latest [insertedThree,deletedOne] twoRowBatch [true,true]) := by
  refine ⟨two_input rfl (by decide),?_⟩
  intro merges
  obtain ⟨chunks,tuple,left,returned,emitted,_⟩ := merges (Row 1 Nat) id
  have rows : (batchedDeltaMerge .chunked id [deletedOne,insertedThree] (some [true,true]) twoRowBatch).map
      (fun result => result.chunks.flatten.length) = some 4 := by decide
  rw [returned] at rows
  have size := emitted.length_eq
  have expected : ((latest [insertedThree,deletedOne] twoRowBatch [true,true]).map id).length = 2 := by decide
  simp only [Option.map_some,Option.some.injEq] at rows
  omega

theorem filled_twoRowBatch : ∀ batch ∈ twoRowBatch, StableFilled .chunked batch := by
  intro batch member σ project
  rw [List.mem_singleton.mp member]
  exact Or.inr (by simp [TableBatchReader.chunked,TupleSet.projectExist,TupleSet.ofRows])

/-- An UPDATE of a stable row next to a memory INSERT is merged as it should be. -/
theorem updated_in_tail_merged :
    MergesTo .chunked [updatedOne,insertedThree] twoRowBatch [true,true]
      (latest [insertedThree,updatedOne] twoRowBatch [true,true]) := by
  have outgoing : ∀ r, Emits [updatedOne,insertedThree] [insertedThree,updatedOne] twoRowBatch.length r ↔
      r = ⟨⟨singleKey 3,30⟩,.insert⟩ ∨ r = ⟨⟨singleKey 1,11⟩,.update⟩ := by
    intro r
    have rows : lastKept [updatedOne,insertedThree] (memRows [insertedThree,updatedOne])
        (tailRows [insertedThree,updatedOne]) twoRowBatch.length ++ firstRows [updatedOne,insertedThree] =
        [⟨⟨singleKey 3,30⟩,.insert⟩,⟨⟨singleKey 1,11⟩,.update⟩] := by decide
    rw [Emits,rows]
    simp
  have set : ∀ x, StaysSet [insertedThree,updatedOne] twoRowBatch [true,true] x ↔ x = ⟨singleKey 2,20⟩ := by
    intro x
    have rows : keepRows (clearBits (hits (memRows [insertedThree,updatedOne])
        (tailRows [insertedThree,updatedOne]) twoRowBatch) [true,true]) (twoRowBatch.flatMap TupleSet.rows) =
        [⟨singleKey 2,20⟩] := by decide
    rw [← mem_cleared (by decide),rows,List.mem_singleton]
  refine (batchedMerge_overlays_iff (two_input rfl (by decide)) .chunked).mpr
    ⟨filled_twoRowBatch,?_,?_,by decide,?_,?_,?_,?_⟩
  · exact Or.inr ⟨⟨0,by decide,by decide,by decide⟩,trivial⟩
  · intro r emits
    rcases (outgoing r).mp emits with rfl | rfl
    · decide
    · decide
  · intro x stays r emits
    rw [(set x).mp stays]
    rcases (outgoing r).mp emits with rfl | rfl
    · decide
    · decide
  · intro t member fresh
    obtain rfl : t = ⟨⟨singleKey 1,11⟩,.update⟩ := by simpa [updatedOne] using member
    exact absurd rfl (fresh _ ((outgoing _).mpr (Or.inr rfl)))
  · intro m member _ fresh
    obtain rfl : m = ⟨⟨singleKey 3,30⟩,.insert⟩ := by simpa [insertedThree] using member
    exact absurd rfl (fresh _ ((outgoing _).mpr (Or.inl rfl)))
  · intro x base _ noTail
    have rows : keepRows [true,true] (twoRowBatch.flatMap TupleSet.rows) =
        [⟨singleKey 1,10⟩,⟨singleKey 2,20⟩] := by decide
    rw [rows,List.mem_cons,List.mem_singleton] at base
    rcases base with rfl | rfl
    · exact absurd (by decide) noTail
    · exact (set _).mpr rfl

end Examples

end Hermes.BatchedOverlay
