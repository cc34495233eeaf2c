import Hermes.KeepMapCacheMode

/-! What one batch does to the keep map.
The UPDATEs of the tail fall into those that take a memory row away and those
that are searched for in the stable rows, where one that hits a row clears its
bit and is done. -/
namespace Hermes.BatchedKeepMap
open Hermes.Tuple Hermes.Delta Hermes.DeleteMapGeneratorKernel Hermes.KeepMapCacheMode
open Hermes.Library Hermes.Library.KeyOrder Hermes.Library.SortedMap
variable {n : Nat} {α : Type}

section Search
variable {column : List Int32} {num : Int32}

theorem binarySearch_returns {last : Int32} (final : column.getLast? = some last) (reached : last ≥ num)
    (fuel : Nat) (p r : Int) (low : 0 ≤ p) (inside : p < column.length) (high : r ≤ column.length)
    (near : p ≤ r+1) (enough : r-p+2 ≤ fuel) :
    ∃ pos, binarySearch column num fuel p r = some pos ∧
      (pos = -1 ∨ (0 ≤ pos ∧ pos < column.length)) := by
  induction fuel generalizing p r with
  | zero => omega
  | succ fuel ih =>
    unfold binarySearch
    by_cases more : p ≤ r
    · rw [if_pos more]
      have bound : ((p+r)/2).toNat < column.length := by omega
      have read : column[((p+r)/2).toNat]? = some (column.get ⟨_,bound⟩) := List.getElem?_eq_getElem bound
      simp only [read,Option.bind_eq_bind,Option.bind_some]
      split
      next found => exact ⟨_,rfl,Or.inr ⟨by omega,by omega⟩⟩
      next differs =>
        split
        next greater => exact ih p ((p+r)/2-1) low inside (by omega) (by omega) (by omega)
        next notGreater =>
          have notFinal : (p+r)/2+1 < column.length := by
            by_contra beyond
            have place : ((p+r)/2).toNat = column.length-1 := by omega
            rw [List.getLast?_eq_getElem?,← place,read,Option.some.injEq] at final
            exact differs (le_antisymm (not_lt.mp notGreater) (by rw [final]; exact reached))
          exact ih ((p+r)/2+1) r (by omega) notFinal high (by omega) (by omega)
    · rw [if_neg more]
      exact ⟨-1,rfl,Or.inl rfl⟩

/-- The call on one batch: of a two-column key the last index is passed, of one column the length. -/
def search (batch : List (Row n α)) (num : Int32) : Option Int :=
  binarySearch (batch.map (fun row => firstColumn row.key)) num (batch.length+2) 0
    (if n > 1 then batch.length-1 else batch.length)

theorem search_returns {batch : List (Row n α)} {last : Row n α} (final : batch.getLast? = some last)
    (reached : firstColumn last.key ≥ num) :
    ∃ pos, search batch num = some pos ∧ (pos = -1 ∨ (0 ≤ pos ∧ pos < batch.length)) := by
  have nonempty : batch ≠ [] := by rintro rfl; simp at final
  have size : 0 < batch.length := List.length_pos_of_ne_nil nonempty
  have columns : (batch.map (fun row => firstColumn row.key)).length = batch.length := List.length_map _
  rw [← columns]
  have reaches : (batch.map (fun row => firstColumn row.key)).getLast? = some (firstColumn last.key) := by
    simp [final]
  apply binarySearch_returns reaches reached
  · exact Int.le_refl 0
  · omega
  all_goals split <;> omega

/-- The row of a batch that is found by its first column. -/
def batchHit (batch : List (Row n α)) (num : Int32) : Option Nat := do
  let last ← batch.getLast?
  if firstColumn last.key ≥ num then
    let pos ← search batch num
    if pos = -1 then none else some pos.toNat
  else none

theorem batchHit_lt {batch : List (Row n α)} {pos : Nat} (hit : batchHit batch num = some pos) :
    pos < batch.length := by
  unfold batchHit at hit
  cases final : batch.getLast? with
  | none => simp [final] at hit
  | some last =>
    simp only [final,Option.bind_eq_bind,Option.bind_some] at hit
    split at hit
    next reached =>
      obtain ⟨found,returned,place⟩ := search_returns final reached
      rw [returned,Option.bind_some] at hit
      split at hit
      next missing => cases hit
      next present =>
        rw [Option.some.injEq] at hit
        omega
    next short => cases hit

end Search

section Clearing

def clearBits (hits : List Nat) (bits : List Bool) : List Bool :=
  hits.foldl (fun bits s => bits.set s false) bits

@[simp] theorem length_clearBits (hits : List Nat) (bits : List Bool) :
    (clearBits hits bits).length = bits.length := by
  induction hits generalizing bits with
  | nil => rfl
  | cons s hits ih => exact (ih _).trans (List.length_set)

theorem getElem?_clearBits (hits : List Nat) (bits : List Bool) (s : Nat) :
    (clearBits hits bits)[s]? = bits[s]?.map (fun bit => bit && decide (s ∉ hits)) := by
  induction hits generalizing bits with
  | nil => simp [clearBits]
  | cons t hits ih =>
    have rest := ih (bits.set t false)
    change (clearBits hits (bits.set t false))[s]? = _
    rw [rest,List.getElem?_set]
    by_cases same : t = s
    · subst same
      by_cases bound : t < bits.length
      · simp [bound]
      · simp [bound]
    · have other : s ≠ t := Ne.symm same
      simp [same,other]

theorem clearBits_append (first second : List Nat) (bits : List Bool) :
    clearBits (first ++ second) bits = clearBits second (clearBits first bits) :=
  List.foldl_append

theorem take_clearBits {hits : List Nat} {m : Nat} (above : ∀ s ∈ hits, m ≤ s) (bits : List Bool) :
    (clearBits hits bits).take m = bits.take m := by
  apply List.ext_getElem?
  intro s
  rw [List.getElem?_take,List.getElem?_take]
  split
  next below =>
    have fresh : s ∉ hits := fun member => absurd (above s member) (by omega)
    simp [getElem?_clearBits,fresh]
  next => rfl

end Clearing

section Tail

def prefixes (rows : List (DeltaRow n α)) : List (List Int32) := rows.map (fun r => keyPrefix r.key)

def pending (tail : List (DeltaRow n α)) (seen : List Bool) : List (DeltaRow n α) :=
  (tail.zip seen).filterMap (fun (r,seen) => if seen || r.type ≠ .update then none else some r)

/-- The rows that take no memory row away, for memory keys `keys`: a key is taken once. -/
def searched : List (List Int32) → List (DeltaRow n α) → List (DeltaRow n α)
  | _, [] => []
  | keys, r::rows =>
    if keyPrefix r.key ∈ keys then searched (keys.filter (· ≠ keyPrefix r.key)) rows
    else r :: searched keys rows

def keptKm (rows : List (DeltaRow n α)) (deltasKm : List (List Int32 × Nat)) : List (List Int32 × Nat) :=
  deltasKm.filter (fun x => x.1 ∉ prefixes rows)

def keptPos (rows : List (DeltaRow n α)) (deltasKm : List (List Int32 × Nat))
    (deltasPos : List (Nat × List Int32)) : List (Nat × List Int32) :=
  deltasPos.filter (fun y => ∀ x ∈ deltasKm, x.2 = y.1 → x.1 ∉ prefixes rows)

theorem searched_subset (keys : List (List Int32)) (rows : List (DeltaRow n α)) :
    searched keys rows ⊆ rows := by
  induction rows generalizing keys with
  | nil => exact fun _ => id
  | cons r rows ih =>
    unfold searched
    split
    next taken => exact fun t member => List.mem_cons_of_mem _ (ih _ member)
    next other => exact List.cons_subset_cons _ (ih keys)

theorem searched_of_disjoint {keys : List (List Int32)} {rows : List (DeltaRow n α)}
    (disjoint : ∀ r ∈ rows, keyPrefix r.key ∉ keys) : searched keys rows = rows := by
  induction rows with
  | nil => rfl
  | cons r rows ih =>
    rw [searched,if_neg (disjoint r List.mem_cons_self),
      ih (fun t member => disjoint t (List.mem_cons_of_mem _ member))]

private theorem erase_map (k : List Int32) (deltasKm : List (List Int32 × Nat)) :
    (erase Prod.fst k deltasKm).map Prod.fst = (deltasKm.map Prod.fst).filter (· ≠ k) := by
  unfold erase
  rw [List.filter_map]
  congr 1
  apply List.filter_congr
  intro x _
  simp

private theorem keptKm_cons (r : DeltaRow n α) (rows : List (DeltaRow n α))
    (deltasKm : List (List Int32 × Nat)) :
    keptKm (r::rows) deltasKm = keptKm rows (erase Prod.fst (keyPrefix r.key) deltasKm) := by
  unfold keptKm erase
  rw [List.filter_filter]
  apply List.filter_congr
  intro x _
  rw [← Bool.decide_and,decide_eq_decide]
  simp [prefixes,and_comm]

private theorem keptKm_cons_absent (r : DeltaRow n α) (rows : List (DeltaRow n α))
    {deltasKm : List (List Int32 × Nat)} (absent : ∀ x ∈ deltasKm, x.1 ≠ keyPrefix r.key) :
    keptKm (r::rows) deltasKm = keptKm rows deltasKm := by
  unfold keptKm
  apply List.filter_congr
  intro x member
  simp [prefixes,absent x member]

private theorem keptPos_cons_absent (r : DeltaRow n α) (rows : List (DeltaRow n α))
    {deltasKm : List (List Int32 × Nat)} (deltasPos : List (Nat × List Int32))
    (absent : ∀ x ∈ deltasKm, x.1 ≠ keyPrefix r.key) :
    keptPos (r::rows) deltasKm deltasPos = keptPos rows deltasKm deltasPos := by
  unfold keptPos
  apply List.filter_congr
  intro y _
  rw [decide_eq_decide]
  refine forall₂_congr (fun x member => ?_)
  simp [prefixes,absent x member]

private theorem keptPos_cons {r : DeltaRow n α} (rows : List (DeltaRow n α))
    {deltasKm : List (List Int32 × Nat)} (ascending : Ascending Prod.fst deltasKm)
    (deltasPos : List (Nat × List Int32)) {m : Nat} (member : (keyPrefix r.key,m) ∈ deltasKm) :
    keptPos (r::rows) deltasKm deltasPos =
      keptPos rows (erase Prod.fst (keyPrefix r.key) deltasKm) (erase Prod.fst m deltasPos) := by
  unfold keptPos erase
  rw [List.filter_filter]
  apply List.filter_congr
  intro y _
  rw [← Bool.decide_and,decide_eq_decide]
  constructor
  · intro kept
    constructor
    · intro x inside same
      have away := kept x (List.mem_filter.mp inside).1 same
      exact fun late => away (List.mem_cons_of_mem _ late)
    · rintro same
      exact kept _ member same.symm List.mem_cons_self
  · rintro ⟨kept,other⟩ x inside same hit
    rcases List.mem_cons.mp hit with first | late
    · have equal : x = (keyPrefix r.key,m) := ascending.unique inside member first
      subst equal
      exact other same.symm
    · by_cases first : x.1 = keyPrefix r.key
      · have equal : x = (keyPrefix r.key,m) := ascending.unique inside member first
        subst equal
        exact other same.symm
      · exact kept x (List.mem_filter.mpr ⟨inside,by simpa using first⟩) same late

end Tail

section Setup
variable {mem tail : List (DeltaRow n α)}

/-- The entry of `deltasPos` for every memory row. -/
def allPos (mem : List (DeltaRow n α)) : List (Nat × List Int32) :=
  mem.zipIdx.map (fun (r,m) => (m,keyPrefix r.key))

def firstKm (mem : List (DeltaRow n α)) : List (List Int32 × Nat) :=
  SortedMap.emplaceAll Prod.fst (mem.zipIdx.map (fun (r,m) => (keyPrefix r.key,m))) []

/-- Memory row `i` is the first of its key, and the tail updates that key. -/
def Superseded (mem tail : List (DeltaRow n α)) (i : Nat) : Prop :=
  ∃ t ∈ tail, t.type = .update ∧
    (locate (fun r => keyPrefix r.key) (keyPrefix t.key) mem).map (·.2) = some i

instance (mem tail : List (DeltaRow n α)) (i : Nat) : Decidable (Superseded mem tail i) := by
  unfold Superseded; infer_instance

theorem emplaceAll_eq (mem : List (DeltaRow n α)) (keepMap : KeepMap n α) :
    KeepMapCacheMode.emplaceAll mem keepMap =
      {keepMap with
        deltasKm := SortedMap.emplaceAll Prod.fst (mem.zipIdx.map (fun (r,m) => (keyPrefix r.key,m)))
          keepMap.deltasKm
        deltasPos := SortedMap.emplaceAll Prod.fst (allPos mem) keepMap.deltasPos} := by
  unfold KeepMapCacheMode.emplaceAll allPos
  generalize mem.zipIdx = entries
  induction entries generalizing keepMap with
  | nil => rfl
  | cons entry entries ih =>
    rw [List.foldl_cons,ih]
    rfl

theorem allPos_ascending (mem : List (DeltaRow n α)) : Ascending Prod.fst (allPos mem) := by
  unfold Ascending allPos
  rw [List.pairwise_map,List.pairwise_iff_getElem]
  intro i j _ _ before
  simpa using before

theorem allPos_fst (mem : List (DeltaRow n α)) : (allPos mem).map Prod.fst = List.range mem.length := by
  simp [allPos,List.range_eq_range',Function.comp_def]

theorem emplaceAll_allPos {deltasPos : List (Nat × List Int32)} (sublist : deltasPos.Sublist (allPos mem)) :
    SortedMap.emplaceAll Prod.fst (allPos mem) deltasPos = allPos mem := by
  have ascending := (allPos_ascending mem).sublist sublist
  apply Ascending.eq_of_mem_iff (emplaceAll_ascending ascending _) (allPos_ascending mem)
  intro y
  rw [mem_emplaceAll ascending]
  have located := find_eq_some (allPos_ascending mem) (k := y.1) (x := y)
  constructor
  · rintro (old | ⟨_,found⟩)
    · exact sublist.subset old
    · exact (located.mp found).1
  · intro member
    by_cases old : y ∈ deltasPos
    · exact Or.inl old
    · refine Or.inr ⟨?_,located.mpr ⟨member,rfl⟩⟩
      intro z inside same
      exact old ((allPos_ascending mem).unique (sublist.subset inside) member same ▸ inside)

theorem firstKm_ascending (mem : List (DeltaRow n α)) : Ascending Prod.fst (firstKm mem) :=
  emplaceAll_ascending List.Pairwise.nil _

theorem mem_firstKm (k : List Int32) (m : Nat) :
    (k,m) ∈ firstKm mem ↔ (locate (fun r => keyPrefix r.key) k mem).map (·.2) = some m := by
  unfold firstKm
  rw [mem_emplaceAll List.Pairwise.nil,List.find?_map]
  change _ ∨ _ ∧ (locate (fun r => keyPrefix r.key) k mem).map _ = _ ↔ _
  cases found : locate (fun r : DeltaRow n α => keyPrefix r.key) k mem with
  | none => simp
  | some entry => simp [(locate_sound found).2]

theorem keptPos_updates (mem tail : List (DeltaRow n α)) :
    (keptPos (tail.filter (fun t => t.type = .update)) (firstKm mem) (allPos mem)).map Prod.fst =
      (List.range mem.length).filter (fun i => ¬Superseded mem tail i) := by
  rw [← allPos_fst,List.filter_map]
  congr 1
  unfold keptPos
  apply List.filter_congr
  rintro ⟨i,k⟩ _
  rw [Function.comp_apply,decide_eq_decide]
  constructor
  · rintro kept ⟨t,member,update,found⟩
    refine kept (keyPrefix t.key,i) ((mem_firstKm _ _).mpr found) rfl ?_
    exact List.mem_map.mpr ⟨t,List.mem_filter.mpr ⟨member,by simpa using update⟩,rfl⟩
  · rintro free ⟨k',m⟩ entry rfl hit
    obtain ⟨t,member,rfl⟩ := List.mem_map.mp hit
    obtain ⟨inside,update⟩ := List.mem_filter.mp member
    exact free ⟨t,inside,by simpa using update,(mem_firstKm _ _).mp entry⟩

theorem pending_fresh (tail : List (DeltaRow n α)) :
    pending tail (tail.map (fun _ => false)) = tail.filter (fun t => t.type = .update) := by
  unfold pending
  induction tail with
  | nil => rfl
  | cons t tail ih =>
    rw [List.map_cons,List.zip_cons_cons,List.filterMap_cons,ih,List.filter_cons]
    by_cases update : t.type = .update
    · simp [update]
    · simp [update]

end Setup

section Visit
variable {deltaCount batchCounter : Nat} {batch : List (Row n α)} {r : DeltaRow n α}
  {deltasKm : List (List Int32 × Nat)} {deltasPos : List (Nat × List Int32)} {bits : List Bool}

def batchHits (batch : List (Row n α)) (start : Nat) (rows : List (DeltaRow n α)) : List Nat :=
  rows.filterMap (fun t => (batchHit batch (firstColumn t.key)).map (start + ·))

private theorem visitTailRow_done {visit : Visit n α} (done : (visit.seen || r.type ≠ .update) = true) :
    visitTailRow deltaCount batch batchCounter r visit = some visit := by
  rw [visitTailRow,if_pos done]

private theorem visitTailRow_taken (several : 1 < deltaCount) (nonempty : batch ≠ [])
    (update : r.type = .update) {m : Nat}
    (found : find Prod.fst (keyPrefix r.key) deltasKm = some (keyPrefix r.key,m))
    (stableBm : Option (List Bool)) :
    visitTailRow deltaCount batch batchCounter r ⟨false,deltasKm,deltasPos,stableBm⟩ =
      some ⟨true,erase Prod.fst (keyPrefix r.key) deltasKm,erase Prod.fst m deltasPos,stableBm⟩ := by
  cases final : batch.getLast? with
  | none => exact absurd (List.getLast?_eq_none_iff.mp final) nonempty
  | some last => simp [visitTailRow,update,final,several,found]

private theorem visitTailRow_searched (several : 1 < deltaCount) (nonempty : batch ≠ [])
    (update : r.type = .update) (absent : find Prod.fst (keyPrefix r.key) deltasKm = none)
    (room : (batchCounter-1)*DefaultChunkSize+batch.length ≤ bits.length) :
    visitTailRow deltaCount batch batchCounter r ⟨false,deltasKm,deltasPos,some bits⟩ =
      match batchHit batch (firstColumn r.key) with
      | some pos =>
        some ⟨true,deltasKm,deltasPos,some (bits.set ((batchCounter-1)*DefaultChunkSize+pos) false)⟩
      | none => some ⟨false,deltasKm,deltasPos,some bits⟩ := by
  cases final : batch.getLast? with
  | none => exact absurd (List.getLast?_eq_none_iff.mp final) nonempty
  | some last =>
    by_cases reached : firstColumn last.key ≥ firstColumn r.key
    · obtain ⟨pos,returned,place⟩ := search_returns final reached
      have called := returned
      have reached' : firstColumn r.key ≤ firstColumn last.key := reached
      unfold search at called
      rcases place with rfl | ⟨low,high⟩
      · simp [visitTailRow,batchHit,update,final,several,absent,returned,called]
      · have present : pos ≠ -1 := by omega
        have inside : (batchCounter-1)*DefaultChunkSize+pos.toNat < bits.length := by omega
        simp [visitTailRow,batchHit,update,final,several,absent,reached',returned,called,present,inside]
    · simp [visitTailRow,batchHit,update,final,several,absent,reached]

theorem visitTail_spec (nonempty : batch ≠ []) (tail : List (DeltaRow n α))
    (several : tail = [] ∨ 1 < deltaCount) (seen : List Bool) (size : seen.length = tail.length) (keepMap : KeepMap n α)
    (ascending : Ascending Prod.fst keepMap.deltasKm)
    (room : (batchCounter-1)*DefaultChunkSize+batch.length ≤ bits.length) :
    ∃ seen', visitTail deltaCount batch batchCounter tail seen keepMap (some bits) =
        some (seen',
          {keepMap with
            deltasKm := keptKm (pending tail seen) keepMap.deltasKm
            deltasPos := keptPos (pending tail seen) keepMap.deltasKm keepMap.deltasPos},
          some (clearBits (batchHits batch ((batchCounter-1)*DefaultChunkSize)
            (searched (keepMap.deltasKm.map Prod.fst) (pending tail seen))) bits)) ∧
      seen'.length = tail.length ∧
      pending tail seen' = (searched (keepMap.deltasKm.map Prod.fst) (pending tail seen)).filter
        (fun t => (batchHit batch (firstColumn t.key)).isNone) := by
  induction tail generalizing seen keepMap bits with
  | nil =>
    refine ⟨[],?_,rfl,rfl⟩
    simp [visitTail,pending,keptKm,keptPos,prefixes,searched,batchHits,clearBits]
  | cons r tail ih =>
    have many : 1 < deltaCount := several.resolve_left (List.cons_ne_nil _ _)
    cases seen with
    | nil => simp at size
    | cons s seen =>
      have rest : seen.length = tail.length := by simpa using size
      unfold visitTail
      by_cases done : (s || r.type ≠ .update) = true
      · have skipped : pending (r::tail) (s::seen) = pending tail seen := by
          simp only [pending,List.zip_cons_cons,List.filterMap_cons,if_pos done]
        obtain ⟨seen',returned,length,left⟩ := ih (Or.inr many) seen rest keepMap ascending room
        refine ⟨s::seen',?_,by simpa using length,?_⟩
        · have same : visitTailRow deltaCount batch batchCounter r
              ⟨s,keepMap.deltasKm,keepMap.deltasPos,some bits⟩ = _ := visitTailRow_done done
          rw [same,skipped]
          simp only [Option.bind_eq_bind,Option.bind_some,returned]
        · rw [skipped,← left]
          simp only [pending,List.zip_cons_cons,List.filterMap_cons,if_pos done]
      · have fresh : s = false ∧ r.type = .update := by simpa using done
        obtain ⟨rfl,update⟩ := fresh
        have next : pending (r::tail) (false::seen) = r :: pending tail seen := by
          simp only [pending,List.zip_cons_cons,List.filterMap_cons,if_neg done]
        have finished : ∀ seen', pending (r::tail) (true::seen') = pending tail seen' := by
          intro seen'
          simp [pending]
        rw [next]
        cases found : find Prod.fst (keyPrefix r.key) keepMap.deltasKm with
        | some entry =>
          obtain ⟨member,same⟩ := (find_eq_some ascending).mp found
          obtain ⟨k,m⟩ := entry
          have key : k = keyPrefix r.key := same
          subst key
          obtain ⟨seen',returned,length,left⟩ := ih (Or.inr many) seen rest
            {keepMap with
              deltasKm := erase Prod.fst (keyPrefix r.key) keepMap.deltasKm
              deltasPos := erase Prod.fst m keepMap.deltasPos}
            (ascending.sublist List.filter_sublist) room
          have taken : keyPrefix r.key ∈ keepMap.deltasKm.map Prod.fst :=
            List.mem_map.mpr ⟨_,member,rfl⟩
          rw [erase_map] at returned left
          refine ⟨true::seen',?_,by simpa using length,?_⟩
          · rw [visitTailRow_taken many nonempty update found,keptKm_cons,
              keptPos_cons _ ascending _ member,searched,if_pos taken]
            simp only [Option.bind_eq_bind,Option.bind_some,returned]
          · rw [finished,left,searched,if_pos taken]
        | none =>
          have absent := find_eq_none.mp found
          have free : keyPrefix r.key ∉ keepMap.deltasKm.map Prod.fst := by
            intro member
            obtain ⟨x,inside,same⟩ := List.mem_map.mp member
            exact absent x inside same
          rw [visitTailRow_searched many nonempty update found room,keptKm_cons_absent _ _ absent,
            keptPos_cons_absent _ _ _ absent,searched,if_neg free]
          cases hit : batchHit batch (firstColumn r.key) with
          | some pos =>
            have room' : (batchCounter-1)*DefaultChunkSize+batch.length ≤
                (bits.set ((batchCounter-1)*DefaultChunkSize+pos) false).length := by simpa using room
            obtain ⟨seen',returned,length,left⟩ := ih (Or.inr many) seen rest keepMap ascending room'
            refine ⟨true::seen',?_,by simpa using length,?_⟩
            · simp only [Option.bind_eq_bind,Option.bind_some,returned,batchHits,List.filterMap_cons,hit,
                Option.map_some]
              rfl
            · rw [finished,left,List.filter_cons_of_neg (by simp [hit])]
          | none =>
            obtain ⟨seen',returned,length,left⟩ := ih (Or.inr many) seen rest keepMap ascending room
            refine ⟨false::seen',?_,by simpa using length,?_⟩
            · simp only [Option.bind_eq_bind,Option.bind_some,returned,batchHits,List.filterMap_cons,hit,
                Option.map_none]
            · rw [List.filter_cons_of_pos (by simp [hit]),← left]
              simp only [pending,List.zip_cons_cons,List.filterMap_cons,if_neg done]

end Visit

section Batch
variable {tail left : List (DeltaRow n α)} {keepMap : KeepMap n α} {positions : List (Nat × List Int32)}

/-- A keep map between two batches: `left` are the tail rows still searched for,
and `positions` what the whole tail leaves of the memory rows. -/
structure Ready (tail left : List (DeltaRow n α)) (positions : List (Nat × List Int32))
    (keepMap : KeepMap n α) : Prop where
  names : keepMap.primaryKeyColumnNames = n
  rows : keepMap.tail = tail
  size : keepMap.seen.length = tail.length
  ascending : Ascending Prod.fst keepMap.deltasKm
  searches : searched (keepMap.deltasKm.map Prod.fst) (pending tail keepMap.seen) = left
  keeps : keptPos (pending tail keepMap.seen) keepMap.deltasKm keepMap.deltasPos = positions

theorem Ready.getBatchedKeepMap (ready : Ready tail left positions keepMap) (columns : 0 < n)
    {deltas : List (DeltaVersion n α)} (several : tail = [] ∨ 1 < deltas.length)
    {before : KeepMap n α} {batchCounter : Nat}
    (prepared : (if batchCounter = 1 then firstBatch deltas before else some before) = some keepMap)
    {batch : TupleSet (Row n α)} (nonempty : batch.rows ≠ []) {bits : List Bool}
    (room : (batchCounter-1)*DefaultChunkSize+batch.rows.length ≤ bits.length) :
    ∃ keepMap', KeepMapCacheMode.getBatchedKeepMap before deltas (some batch) (some bits) batchCounter false =
        some (keepMap',[],some (clearBits (batchHits batch.rows ((batchCounter-1)*DefaultChunkSize) left) bits)) ∧
      Ready tail (left.filter (fun t => (batchHit batch.rows (firstColumn t.key)).isNone)) positions keepMap' ∧
      keepMap'.deltasPos = positions := by
  obtain ⟨seen',returned,length,rest⟩ := visitTail_spec nonempty tail several keepMap.seen
    ready.size keepMap ready.ascending room
  rw [ready.searches,ready.keeps] at returned
  rw [ready.searches] at rest
  have subset : pending tail seen' ⊆ pending tail keepMap.seen := by
    rw [rest,← ready.searches]
    exact fun t member => searched_subset _ _ (List.mem_filter.mp member).1
  -- the tail keys are out of the map, so what is left of the tail takes nothing more
  have disjoint : ∀ x ∈ keptKm (pending tail keepMap.seen) keepMap.deltasKm,
      x.1 ∉ prefixes (pending tail seen') := by
    intro x member hit
    have away : x.1 ∉ prefixes (pending tail keepMap.seen) := by
      simpa using (List.mem_filter.mp member).2
    obtain ⟨t,inside,same⟩ := List.mem_map.mp hit
    exact away (List.mem_map.mpr ⟨t,subset inside,same⟩)
  refine ⟨{keepMap with
      seen := seen'
      deltasKm := keptKm (pending tail keepMap.seen) keepMap.deltasKm
      deltasPos := positions},?_,
    ⟨ready.names,ready.rows,length,ready.ascending.sublist List.filter_sublist,?_,?_⟩,rfl⟩
  rotate_left
  · rw [← rest]
    apply searched_of_disjoint
    intro t member hit
    obtain ⟨x,inside,same⟩ := List.mem_map.mp hit
    exact disjoint x inside (same ▸ List.mem_map.mpr ⟨t,member,rfl⟩)
  · unfold keptPos
    rw [List.filter_eq_self]
    intro y _
    simpa using fun x k inside _ => disjoint (x,k) inside
  · have some_ : n ≠ 0 := by omega
    unfold KeepMapCacheMode.getBatchedKeepMap
    rw [prepared]
    simp only [Option.bind_eq_bind,Option.bind_some,ready.names,ready.rows,if_neg some_,nonempty,and_false,
      Bool.false_eq_true,if_false,returned]

end Batch

end Hermes.BatchedKeepMap
