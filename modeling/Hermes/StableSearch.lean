import Hermes.BatchedDeltaMerge
import Hermes.Library.Bisection
import Mathlib.Data.List.Count

/-! Which stable rows the tail takes away.
Over ascending rows the search for a first key column lands where halving a batch first
falls into the run of this column, so what is cleared can be said of keys alone. -/
namespace Hermes.StableSearch
open Hermes.Tuple Hermes.Delta Hermes.DeleteMapGeneratorKernel Hermes.KeepMapCacheMode
open Hermes.DeltaMergePOp Hermes.BatchedKeepMap Hermes.BatchedDeltaMerge
open Hermes.Library Hermes.Library.KeyOrder Hermes.Library.Bisection
variable {n : Nat} {α : Type}

section Search

/-- The row of a batch where halving it first lands among the rows with a first key column. -/
def landing (batch : List (Row n α)) (num : Int32) : Option Nat :=
  let column := batch.map (fun row => firstColumn row.key)
  firstMidpoint (below column num) (upto column num) (batch.length+2) 0
    (if n > 1 then (batch.length : Int)-1 else batch.length)

/-- In the first batch that has such a row. -/
def landingRow : Nat → List (TupleSet (Row n α)) → Int32 → Option Nat
  | _, [], _ => none
  | start, batch::batches, num =>
    match landing batch.rows num with
    | some pos => some (start+pos)
    | none => landingRow (start+DefaultChunkSize) batches num

theorem binarySearch_midpoint {column : List Int32} {num : Int32} (sorted : column.Pairwise (· ≤ ·)) (fuel : Nat) :
    ∀ {p r pos : Int}, 0 ≤ p → binarySearch column num fuel p r = some pos →
      firstMidpoint (below column num) (upto column num) fuel p r = if pos = -1 then none else some pos.toNat := by
  induction fuel with
  | zero => intro p r pos _ found; cases found
  | succ fuel ih =>
    intro p r pos low found
    unfold binarySearch at found
    unfold firstMidpoint
    split at found
    next more =>
      obtain ⟨curr,read,stops⟩ := Option.bind_eq_some_iff.mp found
      have less := lt_iff_below sorted num read
      have most := le_iff_upto sorted num read
      rw [if_pos more]
      dsimp only
      split at stops
      next equal =>
        rw [Option.some.injEq] at stops
        simp only [equal,lt_irrefl,false_iff,le_refl,true_iff] at less most
        rw [if_neg (by omega),if_pos (by omega),← stops,if_neg (by omega)]
      next differs =>
        split at stops
        next greater =>
          have beyond : ¬((p+r)/2).toNat < upto column num := fun inside => not_le.mpr greater (most.mpr inside)
          have above : ¬((p+r)/2).toNat < below column num :=
              fun inside => not_lt.mpr (le_of_lt greater) (less.mpr inside)
          rw [if_neg (by omega),if_neg (by omega)]
          exact ih low stops
        next notGreater =>
          have inside := less.mp (lt_of_le_of_ne (not_lt.mp notGreater) differs)
          rw [if_pos (by omega)]
          exact ih (by omega) stops
    next none_ =>
      rw [Option.some.injEq] at found
      rw [if_neg none_,← found,if_pos rfl]

variable {batch : List (Row n α)} {num : Int32}

theorem batchHit_landing (sorted : (batch.map (fun row => firstColumn row.key)).Pairwise (· ≤ ·)) (num : Int32) :
    batchHit batch num = landing batch num := by
  unfold batchHit
  cases final : batch.getLast? with
  | none =>
    have empty := List.getLast?_eq_none_iff.mp final
    subst empty
    symm
    exact firstMidpoint_empty (by simp [upto]) _ _ _
  | some last =>
    simp only [Option.bind_eq_bind,Option.bind_some]
    split
    next reached =>
      obtain ⟨pos,returned,_⟩ := search_returns final reached
      rw [returned,Option.bind_some]
      exact (binarySearch_midpoint sorted _ (Int.le_refl 0) returned).symm
    next short =>
      symm
      apply firstMidpoint_empty
      apply upto_le_below
      intro member
      obtain ⟨before,rows⟩ := List.getLast?_eq_some_iff.mp final
      have highest : num ≤ firstColumn last.key := by
        rw [rows,List.map_append,List.pairwise_append] at sorted
        rw [rows,List.map_append,List.mem_append] at member
        rcases member with early | same
        · exact sorted.2.2 num early _ (by simp)
        · exact le_of_eq (by simpa using same)
      exact short highest

theorem landing_row (sorted : (batch.map (fun row => firstColumn row.key)).Pairwise (· ≤ ·)) {pos : Nat}
    (lands : landing batch num = some pos) :
    ∃ x, batch[pos]? = some x ∧ firstColumn x.key = num := by
  obtain ⟨low,high⟩ := firstMidpoint_mem lands
  have bound := upto_le (batch.map (fun row => firstColumn row.key)) num
  rw [List.length_map] at bound
  have read : batch[pos]? = some (batch.get ⟨pos,by omega⟩) := List.getElem?_eq_getElem (by omega)
  have column : (batch.map (fun row => firstColumn row.key))[pos]? =
      some (firstColumn (batch.get ⟨pos,by omega⟩).key) := by rw [List.getElem?_map,read]; rfl
  refine ⟨_,read,le_antisymm ((le_iff_upto sorted num column).mpr high) (not_lt.mp ?_)⟩
  intro less
  have before := (lt_iff_below sorted num column).mp less
  omega

theorem landing_found (sorted : (batch.map (fun row => firstColumn row.key)).Pairwise (· ≤ ·))
    (member : num ∈ batch.map (fun row => firstColumn row.key)) : ∃ pos, landing batch num = some pos := by
  have bound := upto_le (batch.map (fun row => firstColumn row.key)) num
  rw [List.length_map] at bound
  apply firstMidpoint_lands (below_lt_upto sorted member)
  · omega
  · split <;> omega
  · split <;> omega

end Search

section Rows
variable {batches : List (TupleSet (Row n α))}

theorem firstColumn_le {a b : PrimaryKey n} (less : a < b) : firstColumn a ≤ firstColumn b := by
  obtain ⟨first,size⟩ := a
  obtain ⟨second,size'⟩ := b
  change first < second at less
  cases first with
  | nil =>
    cases second with
    | nil => exact le_refl _
    | cons d second => simp only [List.length_nil,List.length_cons] at size size'; omega
  | cons c first =>
    cases second with
    | nil => simp only [List.length_nil,List.length_cons] at size size'; omega
    | cons d second =>
      rcases List.cons_lt_cons_iff.mp less with lower | ⟨same,_⟩
      · exact le_of_lt lower
      · exact le_of_eq same

theorem firstColumns_sorted {rows : List (Row n α)} (ascending : Ascending Row.key rows) :
    (rows.map (fun row => firstColumn row.key)).Pairwise (· ≤ ·) :=
  List.pairwise_map.mpr (ascending.imp firstColumn_le)

theorem batch_sorted (ascending : Ascending Row.key (batches.flatMap TupleSet.rows)) :
    ∀ batch ∈ batches, (batch.rows.map (fun row => firstColumn row.key)).Pairwise (· ≤ ·) := by
  intro batch member
  obtain ⟨before,after,rfl⟩ := List.mem_iff_append.mp member
  apply firstColumns_sorted
  apply ascending.sublist
  simp

theorem stableHit_landing (sorted : ∀ batch ∈ batches,
    (batch.rows.map (fun row => firstColumn row.key)).Pairwise (· ≤ ·)) (start : Nat) (num : Int32) :
    stableHit start batches num = landingRow start batches num := by
  induction batches generalizing start with
  | nil => rfl
  | cons batch batches ih =>
    obtain ⟨here,later⟩ := List.forall_mem_cons.mp sorted
    rw [stableHit,landingRow,batchHit_landing here]
    cases landing batch.rows num with
    | none => exact ih later _
    | some pos => rfl

theorem landingRow_row (sorted : ∀ batch ∈ batches,
    (batch.rows.map (fun row => firstColumn row.key)).Pairwise (· ≤ ·)) (cut : Cut batches) {start s : Nat}
    {num : Int32} (lands : landingRow start batches num = some s) :
    ∃ i x, s = start+i ∧ (batches.flatMap TupleSet.rows)[i]? = some x ∧ firstColumn x.key = num := by
  induction batches generalizing start with
  | nil => cases lands
  | cons batch batches ih =>
    obtain ⟨here,later⟩ := List.forall_mem_cons.mp sorted
    obtain ⟨_,_,full,rest⟩ := cut
    unfold landingRow at lands
    split at lands
    next pos found =>
      obtain ⟨x,read,column⟩ := landing_row here found
      have bound := (List.getElem?_eq_some_iff.mp read).1
      refine ⟨pos,x,(Option.some.inj lands).symm,?_,column⟩
      rw [List.flatMap_cons,List.getElem?_append_left bound,read]
    next missed =>
      obtain ⟨i,x,rfl,read,column⟩ := ih later rest lands
      have some_ : batches ≠ [] := by rintro rfl; cases lands
      have width : batch.rows.length = DefaultChunkSize := full some_
      refine ⟨DefaultChunkSize+i,x,Nat.add_assoc _ _ _,?_,column⟩
      rw [List.flatMap_cons,List.getElem?_append_right (by omega),width,Nat.add_sub_cancel_left,read]

theorem landingRow_found (sorted : ∀ batch ∈ batches,
    (batch.rows.map (fun row => firstColumn row.key)).Pairwise (· ≤ ·)) (start : Nat) {x : Row n α}
    (member : x ∈ batches.flatMap TupleSet.rows) : ∃ s, landingRow start batches (firstColumn x.key) = some s := by
  induction batches generalizing start with
  | nil => simp at member
  | cons batch batches ih =>
    obtain ⟨here,later⟩ := List.forall_mem_cons.mp sorted
    unfold landingRow
    cases found : landing batch.rows (firstColumn x.key) with
    | some pos => exact ⟨_,rfl⟩
    | none =>
      rw [List.flatMap_cons,List.mem_append] at member
      rcases member with inside | behind
      · obtain ⟨pos,lands⟩ := landing_found here (List.mem_map.mpr ⟨x,inside,rfl⟩)
        rw [found] at lands
        cases lands
      · exact ih later (start+DefaultChunkSize) behind

theorem landingRow_eq_none (sorted : ∀ batch ∈ batches,
    (batch.rows.map (fun row => firstColumn row.key)).Pairwise (· ≤ ·)) (start : Nat) {num : Int32} :
    landingRow start batches num = none ↔
      num ∉ (batches.flatMap TupleSet.rows).map (fun row => firstColumn row.key) := by
  constructor
  · intro missed member
    obtain ⟨x,inside,rfl⟩ := List.mem_map.mp member
    obtain ⟨s,lands⟩ := landingRow_found sorted start inside
    rw [missed] at lands
    cases lands
  · intro absent
    induction batches generalizing start with
    | nil => rfl
    | cons batch batches ih =>
      obtain ⟨here,later⟩ := List.forall_mem_cons.mp sorted
      rw [List.flatMap_cons,List.map_append,List.mem_append,not_or] at absent
      unfold landingRow
      cases found : landing batch.rows num with
      | none => exact ih later (start+DefaultChunkSize) absent.2
      | some pos =>
        obtain ⟨x,read,column⟩ := landing_row here found
        exact absurd (List.mem_map.mpr ⟨x,List.mem_of_getElem? read,column⟩) absent.1

end Rows

section Searched
variable {mem tail : List (DeltaRow n α)}

theorem mem_searched (keys : List (List Int32)) (rows : List (DeltaRow n α)) (k : List Int32) :
    k ∈ prefixes (searched keys rows) ↔ k ∈ prefixes rows ∧ (k ∈ keys → 1 < (prefixes rows).count k) := by
  induction rows generalizing keys with
  | nil => simp [prefixes,searched]
  | cons r rows ih =>
    have head : prefixes (r::rows) = keyPrefix r.key::prefixes rows := rfl
    rw [searched,head,List.count_cons,List.mem_cons]
    split
    next taken =>
      rw [ih,List.mem_filter]
      by_cases same : k = keyPrefix r.key
      · subst same
        simp [taken,List.count_pos_iff]
      · have other : keyPrefix r.key ≠ k := Ne.symm same
        simp [same,other]
    next fresh =>
      have head : prefixes (r::searched keys rows) = keyPrefix r.key::prefixes (searched keys rows) := rfl
      rw [head,List.mem_cons,ih]
      by_cases same : k = keyPrefix r.key
      · subst same
        simp [fresh]
      · have other : keyPrefix r.key ≠ k := Ne.symm same
        simp [same,other]

theorem mem_firstKm_keys (mem : List (DeltaRow n α)) (k : List Int32) :
    k ∈ (firstKm mem).map Prod.fst ↔ k ∈ prefixes mem := by
  constructor
  · intro member
    obtain ⟨⟨_,m⟩,entry,rfl⟩ := List.mem_map.mp member
    obtain ⟨⟨r,_⟩,found,_⟩ := Option.map_eq_some_iff.mp ((mem_firstKm _ _).mp entry)
    obtain ⟨inside,same⟩ := locate_sound found
    exact List.mem_map.mpr ⟨r,List.mem_of_getElem? inside,same⟩
  · intro member
    cases found : locate (fun r : DeltaRow n α => keyPrefix r.key) k mem with
    | none =>
      obtain ⟨r,inside,same⟩ := List.mem_map.mp member
      exact absurd same (locate_eq_none.mp found r inside)
    | some entry =>
      exact List.mem_map.mpr ⟨(k,entry.2),(mem_firstKm _ _).mpr (by rw [found]; rfl),rfl⟩

/-- The tail row is searched for in the stable rows: it is an UPDATE, and if a memory row
has the first two columns of its key, then so has another UPDATE, which takes that row away. -/
def SearchedFor (mem tail : List (DeltaRow n α)) (t : DeltaRow n α) : Prop :=
  t ∈ tail ∧ t.type = .update ∧
    (keyPrefix t.key ∈ prefixes mem →
      1 < (prefixes (tail.filter (fun t => t.type = .update))).count (keyPrefix t.key))

theorem searched_sublist (keys : List (List Int32)) (rows : List (DeltaRow n α)) :
    (searched keys rows).Sublist rows := by
  induction rows generalizing keys with
  | nil => exact .slnil
  | cons r rows ih =>
    rw [searched]
    split
    · exact (ih _).cons r
    · exact (ih _).cons_cons r

theorem searchedFor_of_asked {t : DeltaRow n α} (member : t ∈ asked mem tail) : SearchedFor mem tail t := by
  obtain ⟨inside,update⟩ := List.mem_filter.mp ((searched_sublist _ _).subset member)
  refine ⟨inside,by simpa using update,?_⟩
  have kept := ((mem_searched _ _ _).mp (List.mem_map.mpr ⟨t,member,rfl⟩)).2
  rwa [mem_firstKm_keys] at kept

theorem SearchedFor.asked {t : DeltaRow n α} (searched : SearchedFor mem tail t) :
    ∃ t' ∈ asked mem tail, keyPrefix t'.key = keyPrefix t.key := by
  obtain ⟨inside,update,twice⟩ := searched
  apply List.mem_map.mp
  refine (mem_searched _ _ _).mpr ⟨List.mem_map.mpr ⟨t,List.mem_filter.mpr ⟨inside,by simpa using update⟩,rfl⟩,?_⟩
  rwa [mem_firstKm_keys]

theorem firstColumn_keyPrefix (k : PrimaryKey n) : (keyPrefix k).headD 0 = firstColumn k := by
  obtain ⟨columns,size⟩ := k
  cases columns with
  | nil => rfl
  | cons c columns => rfl

theorem firstColumn_eq {k k' : PrimaryKey n} (same : keyPrefix k = keyPrefix k') : firstColumn k = firstColumn k' := by
  rw [← firstColumn_keyPrefix,same,firstColumn_keyPrefix]

theorem exists_asked (P : Int32 → Prop) :
    (∃ t ∈ asked mem tail, P (firstColumn t.key)) ↔ ∃ t, SearchedFor mem tail t ∧ P (firstColumn t.key) := by
  constructor
  · rintro ⟨t,member,holds⟩
    exact ⟨t,searchedFor_of_asked member,holds⟩
  · rintro ⟨t,searched,holds⟩
    obtain ⟨t',member,same⟩ := searched.asked
    exact ⟨t',member,by rw [firstColumn_eq same]; exact holds⟩

theorem mem_hits {batches : List (TupleSet (Row n α))}
    (ascending : Ascending Row.key (batches.flatMap TupleSet.rows)) {s : Nat} :
    s ∈ hits mem tail batches ↔
      ∃ t, SearchedFor mem tail t ∧ landingRow 0 batches (firstColumn t.key) = some s := by
  rw [hits,List.mem_filterMap]
  simp only [stableHit_landing (batch_sorted ascending)]
  exact exists_asked (fun num => landingRow 0 batches num = some s)

end Searched

end Hermes.StableSearch
