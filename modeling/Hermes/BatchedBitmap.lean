import Hermes.BatchedOverlay

/-! Which bits the calls on all batches clear.
A tail UPDATE is searched for by its first key column, and the bit that goes is that of the
row where halving a batch first lands among the rows with this column. With two key columns
that need not be the row that is updated. -/
namespace Hermes.BatchedBitmap
open Hermes.Tuple Hermes.Delta Hermes.DeleteMapGeneratorKernel Hermes.KeepMapCacheMode
open Hermes.BatchedKeepMap Hermes.BatchedDeltaMerge Hermes.StableSearch Hermes.BatchedOverlay
open Hermes.Library Hermes.Library.KeyOrder
variable {n : Nat} {α : Type}

/-- The bitmap after the calls of `getBatchedKeepMap` on the batches from number `batchCounter` on. -/
def stableBmAfter (deltas : List (DeltaVersion n α)) : KeepMap n α → Nat → List (TupleSet (Row n α)) →
    List Bool → Option (List Bool)
  | _, _, [], bits => some bits
  | keepMap, batchCounter, batch::batches, bits => do
    let (keepMap,_,stableBm) ← getBatchedKeepMap keepMap deltas (some batch) (some bits) batchCounter false
    let bits ← stableBm
    stableBmAfter deltas keepMap (batchCounter+1) batches bits

section Run
variable {deltas : List (DeltaVersion n α)} {tail left : List (DeltaRow n α)} {positions : List (Nat × List Int32)}

theorem stableBmAfter_run (columns : 0 < n) (several : tail = [] ∨ 1 < deltas.length)
    (batches : List (TupleSet (Row n α))) :
    ∀ {left : List (DeltaRow n α)} {before keepMap : KeepMap n α} {batchCounter : Nat} {bits : List Bool},
      (if batchCounter = 1 then firstBatch deltas before else some before) = some keepMap →
      Ready tail left positions keepMap → 1 ≤ batchCounter → Cut batches →
      bits.length = (batchCounter-1)*DefaultChunkSize+(batches.flatMap TupleSet.rows).length →
      stableBmAfter deltas before batchCounter batches bits =
        some (clearBits (hitsFrom ((batchCounter-1)*DefaultChunkSize) batches left) bits) := by
  induction batches with
  | nil => intros; rfl
  | cons batch batches ih =>
    intro left before keepMap batchCounter bits prepared ready counted cut size
    obtain ⟨some_,small,full,rest⟩ := cut
    rw [List.flatMap_cons,List.length_append] at size
    have room : (batchCounter-1)*DefaultChunkSize+batch.rows.length ≤ bits.length := by omega
    obtain ⟨keepMap',returned,ready',_⟩ := ready.getBatchedKeepMap columns several prepared
      (List.ne_nil_of_length_pos some_) room
    rw [stableBmAfter,returned,Option.bind_eq_bind,Option.bind_some]
    simp only [Option.bind_eq_bind,Option.bind_some]
    cases batches with
    | nil => simp [stableBmAfter,hitsFrom]
    | cons next batches =>
      have next_ : (batchCounter+1-1)*DefaultChunkSize = (batchCounter-1)*DefaultChunkSize+DefaultChunkSize := by
        rw [← Nat.succ_mul]
        congr 1
        omega
      have width : batch.rows.length = DefaultChunkSize := full (List.cons_ne_nil _ _)
      rw [hitsFrom,clearBits_append,← next_]
      exact ih (by rw [if_neg (by omega)]) ready' (by omega) rest (by rw [length_clearBits,next_]; omega)

end Run

section Searched
variable {mem tail : List (DeltaRow n α)}

def Updates (tail : List (DeltaRow n α)) (k : PrimaryKey n) : Prop := ∃ t ∈ tail, t.type = .update ∧ t.key = k

/-- A row with the key is superseded: a tail row updates it, and the memory delta has no row of it. -/
def Supersedes (mem tail : List (DeltaRow n α)) (k : PrimaryKey n) : Prop :=
  Updates tail k ∧ k ∉ mem.map (·.key)

/-- The key is searched for. The memory row of a key is taken away once, by the first UPDATE. -/
def Searched (mem tail : List (DeltaRow n α)) (k : PrimaryKey n) : Prop :=
  Updates tail k ∧ (k ∈ mem.map (·.key) → 1 < ((tail.filter (fun t => t.type = .update)).map (·.key)).count k)

theorem firstColumn_injective (single : n = 1) : Function.Injective (firstColumn (n := n)) := by
  subst single
  rintro ⟨first,size⟩ ⟨second,size'⟩ same
  obtain ⟨c,rfl⟩ := List.length_eq_one_iff.mp size
  obtain ⟨d,rfl⟩ := List.length_eq_one_iff.mp size'
  apply Subtype.ext
  simpa [firstColumn] using same

theorem keyPrefix_injective (few : n ≤ 2) : Function.Injective (keyPrefix (n := n)) := by
  intro k k' same
  have whole : ∀ k : PrimaryKey n, keyPrefix k = k.1 := fun k => List.take_of_length_le (by rw [k.2]; exact few)
  rw [whole,whole] at same
  exact Subtype.ext same

theorem prefixes_map (rows : List (DeltaRow n α)) : prefixes rows = (rows.map (·.key)).map keyPrefix := by
  rw [List.map_map]
  rfl

theorem mem_asked (few : n ≤ 2) (k : PrimaryKey n) :
    k ∈ (asked mem tail).map (·.key) ↔ Searched mem tail k := by
  have injective := keyPrefix_injective few
  have updates : Updates tail k ↔ k ∈ (tail.filter (fun t => t.type = .update)).map (·.key) := by
    simp [Updates,and_assoc]
  rw [Searched,updates,← List.mem_map_of_injective injective,← prefixes_map,asked,mem_searched,mem_firstKm_keys,
    prefixes_map,prefixes_map,List.mem_map_of_injective injective,List.mem_map_of_injective injective,
    List.count_map_of_injective _ _ injective]

end Searched

section Exact
variable {mem tail : List (DeltaRow n α)} {batches : List (TupleSet (Row n α))} {bits : List Bool}

theorem mem_hits (few : n ≤ 2) (ascending : Ascending Row.key (batches.flatMap TupleSet.rows)) {s : Nat} :
    s ∈ hits mem tail batches ↔ ∃ k, Searched mem tail k ∧ landingRow 0 batches (firstColumn k) = some s := by
  rw [hits,List.mem_filterMap]
  simp only [stableHit_landing (batch_sorted ascending),← mem_asked few,List.mem_map]
  constructor
  · rintro ⟨t,member,found⟩
    exact ⟨t.key,⟨t,member,rfl⟩,found⟩
  · rintro ⟨_,⟨t,member,rfl⟩,found⟩
    exact ⟨t,member,found⟩

/-- The bits of the superseded rows are cleared, and no other bit changes. -/
def ClearsExactly (deltas : List (DeltaVersion n α)) (mem tail : List (DeltaRow n α))
    (batches : List (TupleSet (Row n α))) (bits : List Bool) : Prop :=
  ∃ left, stableBmAfter deltas (.empty n α) 1 batches bits = some left ∧ left.length = bits.length ∧
    ∀ (s : Nat) (x : Row n α), (batches.flatMap TupleSet.rows)[s]? = some x →
      (bits[s]? = some true → (left[s]? = some false ↔ Supersedes mem tail x.key)) ∧
      (bits[s]? = some false → left[s]? = some false)

/-- Of the rows that share a first key column with a key that is searched for, halving
first lands at the one that is superseded, and at this one only. -/
def LandsOnSuperseded (mem tail : List (DeltaRow n α)) (batches : List (TupleSet (Row n α))) (bits : List Bool) :
    Prop :=
  ∀ (s : Nat) (x : Row n α), (batches.flatMap TupleSet.rows)[s]? = some x → bits[s]? = some true →
    (∃ k, Searched mem tail k ∧ firstColumn k = firstColumn x.key) →
    (Supersedes mem tail x.key ↔ landingRow 0 batches (firstColumn x.key) = some s)

/-- One or two key columns, versions in the order of their timestamps and loaded in any
order, and a stable table in batches with a bitmap as long as it is. -/
structure BitmapInput (deltas committed : List (DeltaVersion n α)) (batches : List (TupleSet (Row n α)))
    (bits : List Bool) : Prop where
  columns : 0 < n
  few : n ≤ 2
  nonempty : committed ≠ []
  loaded : deltas.Perm committed
  order : committed.Pairwise (fun d e => d.timestamp < e.timestamp)
  stamped : ∀ d ∈ committed, 0 ≤ d.timestamp ∧ d.timestamp < 5000000000000
  stableOrder : Ascending Row.key (batches.flatMap TupleSet.rows)
  cut : Cut batches
  size : bits.length = (batches.flatMap TupleSet.rows).length

variable {deltas committed : List (DeltaVersion n α)}

theorem BitmapInput.stableBmAfter_eq (input : BitmapInput deltas committed batches bits) :
    stableBmAfter deltas (.empty n α) 1 batches bits =
      some (clearBits (hits (memRows committed) (tailRows committed) batches) bits) := by
  have sets := setsUp_loaded input.nonempty input.loaded input.order input.stamped
  obtain ⟨keepMap,prepared,ready⟩ := ready_start sets
  rw [stableBmAfter_run input.columns sets.several batches (by rw [if_pos rfl]; exact prepared) ready (Nat.le_refl 1)
    input.cut (by simpa using input.size)]
  simpa using clearBits_hits _ _ _ _

theorem BitmapInput.mem_hits_row (input : BitmapInput deltas committed batches bits) {s : Nat} {x : Row n α}
    (read : (batches.flatMap TupleSet.rows)[s]? = some x) :
    s ∈ hits mem tail batches ↔ (∃ k, Searched mem tail k ∧ firstColumn k = firstColumn x.key) ∧
      landingRow 0 batches (firstColumn x.key) = some s := by
  rw [mem_hits input.few input.stableOrder]
  constructor
  · rintro ⟨k,searched,lands⟩
    obtain ⟨i,y,place,read',column⟩ := landingRow_row (batch_sorted input.stableOrder) input.cut lands
    rw [Nat.zero_add] at place
    subst place
    rw [read,Option.some.injEq] at read'
    subst read'
    rw [← column] at lands
    exact ⟨⟨k,searched,column.symm⟩,lands⟩
  · rintro ⟨⟨k,searched,column⟩,lands⟩
    rw [← column] at lands
    exact ⟨k,searched,lands⟩

/-- The calls clear the bits of the superseded rows and no others exactly where halving
by the first key column lands on these rows. -/
theorem clearsExactly_iff (input : BitmapInput deltas committed batches bits) :
    ClearsExactly deltas (memRows committed) (tailRows committed) batches bits ↔
      LandsOnSuperseded (memRows committed) (tailRows committed) batches bits := by
  unfold ClearsExactly LandsOnSuperseded
  have cleared : ∀ s : Nat, bits[s]? = some true →
      ((clearBits (hits (memRows committed) (tailRows committed) batches) bits)[s]? = some false ↔
        s ∈ hits (memRows committed) (tailRows committed) batches) := by
    intro s bit
    rw [getElem?_clearBits,bit]
    simp
  constructor
  · rintro ⟨left,returned,_,changes⟩ s x read bit searched
    rw [input.stableBmAfter_eq,Option.some.injEq] at returned
    subst returned
    rw [← (changes s x read).1 bit,cleared s bit,input.mem_hits_row read,and_iff_right searched]
  · intro lands
    refine ⟨_,input.stableBmAfter_eq,length_clearBits _ _,fun s x read => ⟨fun bit => ?_,fun bit => ?_⟩⟩
    · rw [cleared s bit,input.mem_hits_row read]
      constructor
      · rintro ⟨searched,place⟩
        exact (lands s x read bit searched).mpr place
      · intro supersedes
        have searched : Searched (memRows committed) (tailRows committed) x.key :=
          ⟨supersedes.1,fun inside => absurd inside supersedes.2⟩
        have shared : ∃ k, Searched (memRows committed) (tailRows committed) k ∧ firstColumn k = firstColumn x.key :=
          ⟨_,searched,rfl⟩
        exact ⟨shared,(lands s x read bit shared).mp supersedes⟩
    · rw [getElem?_clearBits,bit,Option.map_some,Bool.false_and]

theorem landingRow_index (ascending : Ascending Row.key (batches.flatMap TupleSet.rows)) (cut : Cut batches)
    (single : n = 1) {s : Nat} {x : Row n α} (read : (batches.flatMap TupleSet.rows)[s]? = some x) :
    landingRow 0 batches (firstColumn x.key) = some s := by
  obtain ⟨s',lands⟩ := landingRow_found (batch_sorted ascending) 0 (List.mem_of_getElem? read)
  obtain ⟨i,y,place,read',column⟩ := landingRow_row (batch_sorted ascending) cut lands
  have keys : y.key = x.key := firstColumn_injective single column
  have first : ((batches.flatMap TupleSet.rows).map Row.key)[i]? = some x.key := by
    rw [List.getElem?_map,read',Option.map_some,keys]
  have second : ((batches.flatMap TupleSet.rows).map Row.key)[s]? = some x.key := by
    rw [List.getElem?_map,read,Option.map_some]
  have index := (List.getElem?_inj (List.getElem?_eq_some_iff.mp first).1 ascending.nodup_keys).mp
    (first.trans second.symm)
  rw [lands,place,index,Nat.zero_add]

theorem landsOnSuperseded_single (ascending : Ascending Row.key (batches.flatMap TupleSet.rows)) (cut : Cut batches)
    (single : n = 1) (once : ((tail.filter (fun t => t.type = .update)).map (·.key)).Nodup) :
    LandsOnSuperseded mem tail batches bits := by
  rintro s x read _ ⟨k,⟨updates,twice⟩,column⟩
  have same : k = x.key := firstColumn_injective single column
  subst same
  have fresh : x.key ∉ mem.map (·.key) := by
    intro inside
    have few := List.nodup_iff_count_le_one.mp once x.key
    have many := twice inside
    omega
  simp [landingRow_index ascending cut single read,Supersedes,updates,fresh]

end Exact

section Examples

def threePairs : List (TupleSet (Row 2 Nat)) := [.ofRows [⟨pairKey 1 1,10⟩,⟨pairKey 1 2,20⟩,⟨pairKey 1 3,30⟩]]

def insertedPair : DeltaVersion 2 Nat := ⟨.ofRows [⟨⟨pairKey 2 1,40⟩,.insert⟩],1⟩

def updatedPair (second : Int32) : DeltaVersion 2 Nat := ⟨.ofRows [⟨⟨pairKey 1 second,11⟩,.update⟩],2⟩

theorem pairs_input (second : Int32) :
    BitmapInput [updatedPair second,insertedPair] [insertedPair,updatedPair second] threePairs [true,true,true] := by
  refine ⟨by decide,by decide,by simp,List.Perm.swap _ _ _,?_,?_,by decide,?_,by decide⟩
  · simp [insertedPair,updatedPair]
  · simp [insertedPair,updatedPair]
  · simp [Cut,threePairs,TupleSet.numRows,DefaultChunkSize]

/-- The update of the middle pair clears its own bit. -/
theorem middle_pair_cleared :
    ClearsExactly [updatedPair 2,insertedPair] (memRows [insertedPair,updatedPair 2])
      (tailRows [insertedPair,updatedPair 2]) threePairs [true,true,true] := by
  refine (clearsExactly_iff (pairs_input 2)).mpr ?_
  have lands : landingRow 0 threePairs 1 = some 1 := by decide
  have superseded : ∀ second, Supersedes (memRows [insertedPair,updatedPair 2]) (tailRows [insertedPair,updatedPair 2])
      (pairKey 1 second) ↔ second = 2 := by
    intro second
    simp [Supersedes,Updates,memRows,tailRows,insertedPair,updatedPair,pairKey,eq_comm]
  intro s x read _ _
  have row : (s = 0 ∧ x = ⟨pairKey 1 1,10⟩) ∨ (s = 1 ∧ x = ⟨pairKey 1 2,20⟩) ∨ (s = 2 ∧ x = ⟨pairKey 1 3,30⟩) := by
    obtain _ | _ | _ | s := s
    · exact Or.inl ⟨rfl,(Option.some.inj read).symm⟩
    · exact Or.inr (Or.inl ⟨rfl,(Option.some.inj read).symm⟩)
    · exact Or.inr (Or.inr ⟨rfl,(Option.some.inj read).symm⟩)
    · cases read
  rcases row with ⟨rfl,rfl⟩ | ⟨rfl,rfl⟩ | ⟨rfl,rfl⟩
  all_goals
    rw [superseded]
    change _ ↔ landingRow 0 threePairs 1 = _
    rw [lands]
    decide

/-- The update of the last pair clears the bit of the middle one. -/
theorem last_pair_missed :
    BitmapInput [updatedPair 3,insertedPair] [insertedPair,updatedPair 3] threePairs [true,true,true] ∧
      ¬ClearsExactly [updatedPair 3,insertedPair] (memRows [insertedPair,updatedPair 3])
        (tailRows [insertedPair,updatedPair 3]) threePairs [true,true,true] := by
  refine ⟨pairs_input 3,?_⟩
  rintro ⟨left,returned,_,cleared⟩
  have bits : stableBmAfter [updatedPair 3,insertedPair] (.empty 2 Nat) 1 threePairs [true,true,true] =
      some [true,false,true] := by decide
  rw [bits,Option.some.injEq] at returned
  subst returned
  have last := (cleared 2 ⟨pairKey 1 3,30⟩ rfl).1 rfl
  have updates : Supersedes (memRows [insertedPair,updatedPair 3]) (tailRows [insertedPair,updatedPair 3])
      (pairKey 1 3) := ⟨⟨_,List.mem_singleton_self _,rfl,rfl⟩,by decide⟩
  exact absurd (last.mpr updates) (by decide)

end Examples

end Hermes.BatchedBitmap
