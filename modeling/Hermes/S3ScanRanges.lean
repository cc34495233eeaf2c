import Hermes.S3SelectPOp
import Hermes.Library.Ranges
import Hermes.Library.Entries
import Mathlib.Algebra.Ring.Nat

/-! The ranges that `s3SelectParallelReqs` and `s3GetParallelReqs` cut an object into, with
the offsets and the counters the code has, and the scan of the first.
The first range begins at 0, whatever `startOffset_` is, the end of a range is computed
modulo 2^64, and the requests are counted by an `int`. -/
namespace Hermes.HybridScan.Unsigned
open Hermes.Tuples Hermes.HybridScan Hermes.Library.Ranges Hermes.Library.Entries
variable {ν : Type}

/-- Both differences are far below 2^53 where the comparison of doubles is close. -/
def reqEndOffset (finishOffset currentStartOffset : UInt64) : UInt64 :=
  let ended := currentStartOffset+15728640
  let ended := if ended > finishOffset then finishOffset else ended
  if 10*(finishOffset-ended).toNat < 3*defaultS3RangeSize then finishOffset else ended

/-- The greatest `int`. -/
def intMax : Nat := 2^31-1

/-- The loop, of at most so many steps; the number of a request has to be an `int`. -/
def parallelReqs (finishOffset : UInt64) : Nat → Nat → UInt64 → Option (List (Nat × UInt64 × UInt64))
  | 0, _, _ => none
  | fuel+1, totalReqs, currentStartOffset =>
    if currentStartOffset < finishOffset then
      if totalReqs < intMax then
        let ended := reqEndOffset finishOffset currentStartOffset
        (parallelReqs finishOffset fuel (totalReqs+1) (ended+1)).map ((totalReqs+1,currentStartOffset,ended) :: ·)
      else none
    else some []

/-- The ranges alone, were there no bound on their number. -/
def requestRanges (finishOffset : UInt64) : Nat → UInt64 → Option (List (UInt64 × UInt64))
  | 0, _ => none
  | fuel+1, currentStartOffset =>
    if currentStartOffset < finishOffset then
      let ended := reqEndOffset finishOffset currentStartOffset
      (requestRanges finishOffset fuel (ended+1)).map ((currentStartOffset,ended) :: ·)
    else some []

def spans (ranges : List (UInt64 × UInt64)) : List (Nat × Nat) := ranges.map fun range => (range.1.toNat,range.2.toNat)

def requests (op : S3SelectPOp ν) (reqs : List (Nat × UInt64 × UInt64)) : List (Nat × Table ν) :=
  reqs.map fun (reqNum,startOffset,endOffset) => (reqNum,op.s3Select startOffset.toNat endOffset.toNat)

/-- `for (int i = 1; i <= totalReqs; i++)`: behind the last request `i` is still an `int`. -/
def reqNums (totalReqs : Nat) : Option (List Nat) :=
  if totalReqs < intMax then some (List.range' 1 totalReqs) else none

/-- `splitReqNumToTable_`, as the threads have filled it, read by number; a number that is
missing is a null pointer. -/
def splitTables (totalReqs : Nat) (splitReqNumToTable : List (Nat × Table ν)) : Option (List (Table ν)) := do
  let nums ← reqNums totalReqs
  nums.mapM fun i => splitReqNumToTable.lookup i

def wrapOffset : Nat := 2^64-5771830

/-- From here on there are more requests than an `int` can count to. -/
def requestLimit : Nat := (defaultS3RangeSize+1)*(intMax-2)+20447232

section Arithmetic
variable (finishOffset : UInt64) {currentStartOffset : UInt64}

theorem reqEndOffset_toNat (room : currentStartOffset.toNat+defaultS3RangeSize < 2^64) :
    (reqEndOffset finishOffset currentStartOffset).toNat =
      HybridScan.reqEndOffset finishOffset.toNat currentStartOffset.toNat := by
  have sum : (currentStartOffset+15728640).toNat = currentStartOffset.toNat+defaultS3RangeSize := by
    rw [UInt64.toNat_add]
    exact Nat.mod_eq_of_lt room
  have ended : (if currentStartOffset+15728640 > finishOffset then finishOffset
      else currentStartOffset+15728640).toNat =
      min (currentStartOffset.toNat+defaultS3RangeSize) finishOffset.toNat := by
    have compared : finishOffset < currentStartOffset+15728640 ↔ _ := UInt64.lt_iff_toNat_lt
    rw [sum] at compared
    split
    next beyond => rw [Nat.min_eq_right (le_of_lt (compared.mp beyond))]
    next inside => rw [sum,Nat.min_eq_left (not_lt.mp (fun beyond => inside (compared.mpr beyond)))]
  unfold reqEndOffset HybridScan.reqEndOffset
  dsimp only
  generalize (if currentStartOffset+15728640 > finishOffset then finishOffset
    else currentStartOffset+15728640) = last at ended ⊢
  have bound : last ≤ finishOffset := by
    rw [UInt64.le_iff_toNat_le,ended]
    exact Nat.min_le_right _ _
  rw [UInt64.toNat_sub_of_le _ _ bound,ended]
  split
  · rfl
  · exact ended

theorem reqEndOffset_wraps (wraps : 2^64 ≤ currentStartOffset.toNat+defaultS3RangeSize)
    (room : currentStartOffset.toNat+defaultS3RangeSize-2^64+3*defaultS3RangeSize ≤ finishOffset.toNat) :
    (reqEndOffset finishOffset currentStartOffset).toNat = currentStartOffset.toNat+defaultS3RangeSize-2^64 := by
  have top := currentStartOffset.toNat_lt
  have sum : (currentStartOffset+15728640).toNat = currentStartOffset.toNat+defaultS3RangeSize-2^64 := by
    rw [UInt64.toNat_add]
    change (currentStartOffset.toNat+defaultS3RangeSize)%2^64 = _
    rw [Nat.mod_eq_sub_mod wraps,Nat.mod_eq_of_lt]
    unfold defaultS3RangeSize
    omega
  have below : ¬currentStartOffset+15728640 > finishOffset := by
    rw [gt_iff_lt,UInt64.lt_iff_toNat_lt,sum]
    omega
  have order : currentStartOffset+15728640 ≤ finishOffset := by
    rw [UInt64.le_iff_toNat_le,sum]
    omega
  unfold reqEndOffset
  dsimp only
  rw [if_neg below,UInt64.toNat_sub_of_le _ _ order,sum,if_neg]
  · exact sum
  · omega

end Arithmetic

theorem reqEndOffset_cases (finishOffset currentStartOffset : Nat) :
    HybridScan.reqEndOffset finishOffset currentStartOffset = finishOffset ∨
    (HybridScan.reqEndOffset finishOffset currentStartOffset = currentStartOffset+defaultS3RangeSize ∧
      currentStartOffset+defaultS3RangeSize+4718592 ≤ finishOffset) := by
  unfold HybridScan.reqEndOffset defaultS3RangeSize
  dsimp only
  split <;> omega

section Loop
variable {finishOffset : UInt64}

theorem requestRanges_runs (low : finishOffset.toNat < wrapOffset) (n : Nat) :
    ∀ currentStartOffset : UInt64, currentStartOffset.toNat = n →
      (n < finishOffset.toNat → defaultS3RangeSize+1 ∣ n ∧ n+defaultS3RangeSize < 2^64) →
      ∃ fuel ranges, requestRanges finishOffset fuel currentStartOffset = some ranges ∧
        spans ranges = HybridScan.requestRanges finishOffset.toNat n := by
  induction n using HybridScan.requestRanges.induct finishOffset.toNat with
  | case1 n more ih =>
    rintro currentStartOffset rfl room
    obtain ⟨⟨k,multiple⟩,fits⟩ := room more
    have ended := reqEndOffset_toNat finishOffset fits
    have split := reqEndOffset_cases finishOffset.toNat currentStartOffset.toNat
    have next : (reqEndOffset finishOffset currentStartOffset+1).toNat =
        HybridScan.reqEndOffset finishOffset.toNat currentStartOffset.toNat+1 := by
      rw [UInt64.toNat_add,ended,UInt64.toNat_one]
      unfold wrapOffset at low
      exact Nat.mod_eq_of_lt (by omega)
    obtain ⟨fuel,ranges,run,same⟩ := ih _ next (by
      intro further
      unfold wrapOffset at low
      rcases split with last | ⟨inner,apart⟩
      · omega
      · rw [inner]
        unfold defaultS3RangeSize at multiple apart ⊢
        refine ⟨⟨k+1,by omega⟩,?_⟩
        omega)
    refine ⟨fuel+1,(currentStartOffset,reqEndOffset finishOffset currentStartOffset)::ranges,?_,?_⟩
    · simp [requestRanges,UInt64.lt_iff_toNat_lt.mpr more,run]
    · rw [HybridScan.requestRanges,dif_pos more,← same]
      simp [spans,ended]
  | case2 n done =>
    rintro currentStartOffset rfl _
    refine ⟨1,[],?_,?_⟩
    · rw [requestRanges,if_neg (fun more => done (UInt64.lt_iff_toNat_lt.mp more))]
    · rw [HybridScan.requestRanges,dif_neg done]
      rfl

theorem requestRanges_first {fuel : Nat} {ranges : List (UInt64 × UInt64)} (more : 0 < finishOffset)
    (run : requestRanges finishOffset fuel 0 = some ranges) :
    ∃ ended rest, ranges = (0,ended)::rest := by
  cases fuel with
  | zero => cases run
  | succ fuel =>
    rw [requestRanges,if_pos more] at run
    obtain ⟨rest,_,rfl⟩ := Option.map_eq_some_iff.mp run
    exact ⟨_,rest,rfl⟩

theorem requestRanges_wraps (high : wrapOffset ≤ finishOffset.toNat) (fuel : Nat) :
    ∀ (currentStartOffset : UInt64) (k : Nat), currentStartOffset.toNat = (defaultS3RangeSize+1)*k →
      k ≤ 1172812328395 → ∀ ranges, requestRanges finishOffset fuel currentStartOffset = some ranges →
      ∃ range ∈ ranges, range.2.toNat < range.1.toNat := by
  induction fuel with
  | zero =>
    intro currentStartOffset k _ _ ranges run
    cases run
  | succ fuel ih =>
    intro currentStartOffset k multiple most ranges run
    unfold wrapOffset at high
    have size : defaultS3RangeSize = 15728640 := rfl
    have top := finishOffset.toNat_lt
    rw [size] at multiple
    have more : currentStartOffset < finishOffset := by
      rw [UInt64.lt_iff_toNat_lt]
      omega
    rw [requestRanges,if_pos more] at run
    obtain ⟨rest,later,rfl⟩ := Option.map_eq_some_iff.mp run
    by_cases last : k = 1172812328395
    · have wrapped : (reqEndOffset finishOffset currentStartOffset).toNat = _ :=
        reqEndOffset_wraps finishOffset (by omega) (by omega)
      refine ⟨_,List.mem_cons_self,?_⟩
      dsimp only
      omega
    · have ended : (reqEndOffset finishOffset currentStartOffset).toNat = _ :=
        reqEndOffset_toNat finishOffset (by omega)
      have inner : HybridScan.reqEndOffset finishOffset.toNat currentStartOffset.toNat =
          currentStartOffset.toNat+defaultS3RangeSize := by
        unfold HybridScan.reqEndOffset
        dsimp only
        rw [Nat.min_eq_left (by omega),if_neg (by omega)]
      have next : (reqEndOffset finishOffset currentStartOffset+1).toNat = (defaultS3RangeSize+1)*(k+1) := by
        have sum : (reqEndOffset finishOffset currentStartOffset+1).toNat =
            currentStartOffset.toNat+defaultS3RangeSize+1 := by
          rw [UInt64.toNat_add,ended,inner,UInt64.toNat_one]
          exact Nat.mod_eq_of_lt (by omega)
        rw [sum,multiple,size]
        omega
      obtain ⟨range,member,backward⟩ := ih _ (k+1) next (by omega) rest later
      exact ⟨range,List.mem_cons_of_mem _ member,backward⟩

theorem requestRanges_tiles (finishOffset : Nat) (currentStartOffset : Nat) (more : currentStartOffset < finishOffset) :
    Tiles currentStartOffset finishOffset (HybridScan.requestRanges finishOffset currentStartOffset) := by
  induction currentStartOffset using HybridScan.requestRanges.induct finishOffset with
  | case1 currentStartOffset _ ih =>
    have bound := le_reqEndOffset more
    have ends := reqEndOffset_cases finishOffset currentStartOffset
    rw [HybridScan.requestRanges,dif_pos more]
    generalize HybridScan.reqEndOffset finishOffset currentStartOffset = ended at bound ends ih ⊢
    apply Tiles.cons bound
    rcases ends with rfl | ⟨inner,apart⟩
    · rw [HybridScan.requestRanges,dif_neg (by omega)]
      exact Tiles.nil ended
    · exact ih (by omega)
  | case2 currentStartOffset done => exact absurd more done

def numbered (totalReqs : Nat) (ranges : List (UInt64 × UInt64)) : List (Nat × UInt64 × UInt64) :=
  (ranges.zipIdx (totalReqs+1)).map Prod.swap

theorem parallelReqs_eq (finishOffset : UInt64) (fuel totalReqs : Nat) (currentStartOffset : UInt64)
    (room : totalReqs ≤ intMax) : parallelReqs finishOffset fuel totalReqs currentStartOffset =
      (requestRanges finishOffset fuel currentStartOffset).bind fun ranges =>
        if totalReqs+ranges.length ≤ intMax then some (numbered totalReqs ranges) else none := by
  induction fuel generalizing totalReqs currentStartOffset with
  | zero => rfl
  | succ fuel ih =>
    rw [parallelReqs,requestRanges]
    by_cases more : currentStartOffset < finishOffset
    · rw [if_pos more,if_pos more]
      dsimp only
      by_cases next : totalReqs < intMax
      · rw [if_pos next,ih _ _ next]
        cases requestRanges finishOffset fuel (reqEndOffset finishOffset currentStartOffset+1) with
        | none => rfl
        | some ranges =>
          have shifted : totalReqs+1+ranges.length = totalReqs+(ranges.length+1) := by omega
          simp only [Option.map_some,Option.bind_some,List.length_cons,shifted]
          split <;> rfl
      · rw [if_neg next]
        cases requestRanges finishOffset fuel (reqEndOffset finishOffset currentStartOffset+1) with
        | none => rfl
        | some ranges =>
          rw [Option.map_some,Option.bind_some,if_neg]
          rw [List.length_cons]
          omega
    · rw [if_neg more,if_neg more,Option.bind_some,if_pos (by exact room)]
      rfl

theorem requestRanges_unique {fuel : Nat} {currentStartOffset : UInt64} {ranges : List (UInt64 × UInt64)}
    (run : requestRanges finishOffset fuel currentStartOffset = some ranges) {fuel' : Nat}
    {ranges' : List (UInt64 × UInt64)} (run' : requestRanges finishOffset fuel' currentStartOffset = some ranges') :
    ranges = ranges' := by
  induction fuel generalizing currentStartOffset ranges fuel' ranges' with
  | zero => cases run
  | succ fuel ih =>
    cases fuel' with
    | zero => cases run'
    | succ fuel' =>
      rw [requestRanges] at run run'
      by_cases more : currentStartOffset < finishOffset
      · rw [if_pos more] at run run'
        obtain ⟨rest,later,rfl⟩ := Option.map_eq_some_iff.mp run
        obtain ⟨rest',later',rfl⟩ := Option.map_eq_some_iff.mp run'
        rw [ih later later']
      · rw [if_neg more] at run run'
        rw [← Option.some.inj run,← Option.some.inj run']

theorem length_requestRanges_le (finish n : Nat) : ∀ start, finish < start+(defaultS3RangeSize+1)*n+20447232 →
    (HybridScan.requestRanges finish start).length ≤ n+1 := by
  induction n with
  | zero =>
    intro start few
    rw [HybridScan.requestRanges]
    split
    next more =>
      have ended := reqEndOffset_cases finish start
      unfold defaultS3RangeSize at ended
      rw [HybridScan.requestRanges,dif_neg (by omega)]
      exact Nat.le_refl _
    next => exact Nat.zero_le _
  | succ n ih =>
    intro start few
    rw [HybridScan.requestRanges]
    split
    next more =>
      have later := ih (HybridScan.reqEndOffset finish start+1) (by
        have ended := reqEndOffset_cases finish start
        unfold defaultS3RangeSize at ended few ⊢
        omega)
      rw [List.length_cons]
      omega
    next => exact Nat.zero_le _

theorem lt_length_requestRanges (finish n : Nat) : ∀ start, start+(defaultS3RangeSize+1)*n+20447232 ≤ finish →
    n+1 < (HybridScan.requestRanges finish start).length := by
  have inner : ∀ start, start+20447232 ≤ finish → start < finish ∧
      HybridScan.reqEndOffset finish start+1 = start+(defaultS3RangeSize+1) := by
    intro start many
    refine ⟨by omega,?_⟩
    unfold HybridScan.reqEndOffset defaultS3RangeSize
    dsimp only
    rw [Nat.min_eq_left (by omega),if_neg (by omega)]
  induction n with
  | zero =>
    intro start many
    obtain ⟨more,next⟩ := inner start many
    have further : start+(defaultS3RangeSize+1) < finish := by
      unfold defaultS3RangeSize
      omega
    rw [HybridScan.requestRanges,dif_pos more,next,HybridScan.requestRanges,dif_pos further,List.length_cons,
      List.length_cons]
    omega
  | succ n ih =>
    intro start many
    obtain ⟨more,next⟩ := inner start (by omega)
    have later := ih (start+(defaultS3RangeSize+1)) (by
      unfold defaultS3RangeSize at many ⊢
      omega)
    rw [HybridScan.requestRanges,dif_pos more,next,List.length_cons]
    omega

theorem ranges_numbered (n : Nat) (ranges : List (UInt64 × UInt64)) : (numbered n ranges).map Prod.snd = ranges := by
  rw [numbered,List.map_map]
  exact List.zipIdx_map_fst _ _

theorem length_numbered (n : Nat) (ranges : List (UInt64 × UInt64)) : (numbered n ranges).length = ranges.length := by
  rw [numbered,List.length_map,List.length_zipIdx]

theorem numbers (n : Nat) (ranges : List (UInt64 × UInt64)) :
    (numbered n ranges).map Prod.fst = List.range' (n+1) ranges.length := by
  rw [numbered,List.map_map]
  exact List.zipIdx_map_snd _ _

theorem parallelReqs_some {fuel : Nat} {reqs : List (Nat × UInt64 × UInt64)}
    (run : parallelReqs finishOffset fuel 0 0 = some reqs) :
    ∃ ranges, requestRanges finishOffset fuel 0 = some ranges ∧ ranges.length ≤ intMax ∧ reqs = numbered 0 ranges := by
  rw [parallelReqs_eq _ _ _ _ (Nat.zero_le _)] at run
  obtain ⟨ranges,listed,cut⟩ := Option.bind_eq_some_iff.mp run
  rw [Nat.zero_add] at cut
  split at cut
  next few => exact ⟨ranges,listed,few,(Option.some.inj cut).symm⟩
  next => cases cut

theorem parallelReqs_runs (below : finishOffset.toNat < requestLimit) :
    ∃ fuel ranges, parallelReqs finishOffset fuel 0 0 = some (numbered 0 ranges) ∧ ranges.length < intMax ∧
      spans ranges = HybridScan.requestRanges finishOffset.toNat 0 := by
  have limit : requestLimit < wrapOffset := by decide
  obtain ⟨fuel,ranges,listed,same⟩ :=
    requestRanges_runs (below.trans limit) 0 0 UInt64.toNat_zero fun _ => ⟨Nat.dvd_zero _,by decide⟩
  have few : (spans ranges).length < intMax := by
    rw [same]
    refine Nat.lt_of_le_of_lt (length_requestRanges_le finishOffset.toNat (intMax-2) 0 ?_) (by decide)
    rw [Nat.zero_add]
    exact below
  rw [spans,List.length_map] at few
  refine ⟨fuel,ranges,?_,few,same⟩
  rw [parallelReqs_eq _ _ _ _ (Nat.zero_le _),listed,Option.bind_some,if_pos (by omega)]

theorem intMax_le_of_forward (high : requestLimit ≤ finishOffset.toNat) {fuel : Nat} {ranges : List (UInt64 × UInt64)}
    (listed : requestRanges finishOffset fuel 0 = some ranges)
    (forward : ∀ range ∈ ranges, range.1.toNat ≤ range.2.toNat) : intMax ≤ ranges.length := by
  have low : finishOffset.toNat < wrapOffset := by
    by_contra wraps
    obtain ⟨range,member,backward⟩ :=
      requestRanges_wraps (not_lt.mp wraps) fuel 0 0 (by simp) (Nat.zero_le _) ranges listed
    exact absurd backward (not_lt.mpr (forward range member))
  obtain ⟨fuel',ranges',listed',same⟩ :=
    requestRanges_runs low 0 0 UInt64.toNat_zero fun _ => ⟨Nat.dvd_zero _,by decide⟩
  rw [requestRanges_unique listed' listed] at same
  have longer := lt_length_requestRanges finishOffset.toNat (intMax-2) 0 (by
    rw [Nat.zero_add]
    exact high)
  rw [← same,spans,List.length_map] at longer
  have counted : intMax-2+1 = intMax-1 := rfl
  omega

end Loop

section Join

theorem reqNums_eq {totalReqs : Nat} (few : totalReqs < intMax) : reqNums totalReqs = some (List.range' 1 totalReqs) :=
  if_pos few

theorem splitTables_perm (op : S3SelectPOp ν) {ranges : List (UInt64 × UInt64)} (few : ranges.length < intMax)
    {completed : List (Nat × Table ν)} (finished : completed.Perm (requests op (numbered 0 ranges))) :
    splitTables (numbered 0 ranges).length completed =
      some ((spans ranges).map fun range => op.s3Select range.1 range.2) := by
  have nums : (requests op (numbered 0 ranges)).map Prod.fst = List.range' 1 ranges.length := by
    rw [← numbers 0 ranges,requests,List.map_map]
    rfl
  have tables : (requests op (numbered 0 ranges)).map Prod.snd =
      (spans ranges).map fun range => op.s3Select range.1 range.2 := by
    conv_rhs => rw [← ranges_numbered 0 ranges]
    rw [requests,spans,List.map_map,List.map_map,List.map_map]
    rfl
  have distinct : (completed.map Prod.fst).Nodup := by
    rw [(finished.map Prod.fst).nodup_iff,nums]
    exact List.nodup_range'
  rw [splitTables,length_numbered,reqNums_eq few,Option.bind_eq_bind,Option.bind_some,← nums,← tables]
  generalize requests op (numbered 0 ranges) = listed at finished
  have found : ∀ entry ∈ listed, completed.lookup entry.1 = some entry.2 :=
    fun entry member => lookup_mem distinct (finished.mem_iff.mpr member)
  clear finished
  induction listed with
  | nil => rfl
  | cons entry listed ih =>
    have rest := ih (fun other member => found other (List.mem_cons_of_mem _ member))
    simp [found entry List.mem_cons_self,rest]

def projectRecords (op : S3SelectPOp ν) (records : List (Nat × List (Slot ν))) : List (List (Slot ν)) :=
  if (op.partition.columns op.projectColumnNames).isEmpty then []
  else records.map fun record => (op.partition.columns op.projectColumnNames).filterMap fun column => record.2[column.2]?

theorem joinTables_tiles (op : S3SelectPOp ν) (client : op.s3ClientType = .S3)
    (supported : op.scanRangeSupported = true)
    {lo hi : Nat} {ranges : List (Nat × Nat)} (tiles : Tiles lo hi ranges) :
    ∃ joined, joinTables (ranges.map fun range => op.s3Select range.1 range.2) = some joined ∧
      joined.rows = projectRecords op (op.selection.filter fun record => within record.1 (lo,hi)) := by
  have same : ∀ table ∈ ranges.map fun range => op.s3Select range.1 range.2,
      table.rows ≠ [] → table.fields = (op.partition.cut (fun _ => true) op.projectColumnNames).fields := by
    intro table member some
    obtain ⟨range,_,rfl⟩ := List.mem_map.mp member
    exact s3Select_fields op some
  obtain ⟨joined,result,rows,_⟩ := joinTables_rows same
  refine ⟨joined,result,?_⟩
  have ascending : op.selection.Pairwise fun earlier later => earlier.1 < later.1 := op.partition.ascending.filter _
  rw [rows,List.flatMap_map]
  simp only [s3Select_rows op client supported,projectRecords]
  split
  next => simp
  next =>
    rw [← List.map_flatMap]
    congr 1
    exact tiles.flatMap_filter ascending

end Join

structure Scans (op : S3SelectPOp ν) (startOffset finishOffset : UInt64)
    (reqs : List (Nat × UInt64 × UInt64)) : Prop where
  tiles : Tiles startOffset.toNat finishOffset.toNat (spans (reqs.map Prod.snd))
  once : ∀ record ∈ op.partition.records, ((spans (reqs.map Prod.snd)).filter (within record.1)).length =
    if startOffset.toNat ≤ record.1 ∧ record.1 ≤ finishOffset.toNat then 1 else 0
  ordered : ∀ completed : List (Nat × Table ν), completed.Perm (requests op reqs) →
    ∃ tables joined, splitTables reqs.length completed = some tables ∧ joinTables tables = some joined ∧
      joined.rows = projectRecords op
        (op.selection.filter fun record => within record.1 (startOffset.toNat,finishOffset.toNat))

theorem scans_of_tiles (op : S3SelectPOp ν) (client : op.s3ClientType = .S3) (supported : op.scanRangeSupported = true)
    {startOffset finishOffset : UInt64} {ranges : List (UInt64 × UInt64)} (few : ranges.length < intMax)
    (tiles : Tiles startOffset.toNat finishOffset.toNat (spans ranges)) :
    Scans op startOffset finishOffset (numbered 0 ranges) where
  tiles := by rwa [ranges_numbered]
  once record _ := by
    rw [ranges_numbered]
    exact tiles.within_once record.1
  ordered completed finished := by
    obtain ⟨joined,result,rows⟩ := joinTables_tiles op client supported tiles
    exact ⟨_,joined,splitTables_perm op few finished,result,rows⟩

/-- The loops end with ranges that tile the scan exactly where the scan begins at 0 and an `int`
can count beyond the requests. -/
theorem parallelReqs_scan_iff (op : S3SelectPOp ν) (client : op.s3ClientType = .S3)
    (supported : op.scanRangeSupported = true) (startOffset finishOffset : UInt64)
    (ordered : startOffset ≤ finishOffset) (large : defaultS3RangeSize < (finishOffset-startOffset).toNat) :
    (∃ fuel reqs, parallelReqs finishOffset fuel 0 0 = some reqs ∧ Scans op startOffset finishOffset reqs) ↔
      startOffset = 0 ∧ finishOffset.toNat < requestLimit := by
  rw [UInt64.toNat_sub_of_le _ _ ordered] at large
  constructor
  · rintro ⟨fuel,reqs,run,scans⟩
    obtain ⟨ranges,listed,_,rfl⟩ := parallelReqs_some run
    have tiles := scans.tiles
    rw [ranges_numbered] at tiles
    constructor
    · have more : (0 : UInt64) < finishOffset := by
        rw [UInt64.lt_iff_toNat_lt,UInt64.toNat_zero]
        omega
      obtain ⟨_,_,rfl⟩ := requestRanges_first more listed
      have first : (0 : UInt64).toNat = startOffset.toNat := tiles.1
      exact (UInt64.toNat_inj.mp first).symm
    · by_contra high
      have many := intMax_le_of_forward (not_lt.mp high) listed
        (fun range member => tiles.forward (List.mem_map.mpr ⟨range,member,rfl⟩))
      obtain ⟨_,_,read,_⟩ := scans.ordered _ (List.Perm.refl _)
      rw [splitTables,length_numbered,reqNums,if_neg (not_lt.mpr many)] at read
      cases read
  · rintro ⟨rfl,below⟩
    obtain ⟨fuel,ranges,run,few,same⟩ := parallelReqs_runs below
    refine ⟨fuel,_,run,scans_of_tiles op client supported few ?_⟩
    rw [same,UInt64.toNat_zero]
    exact requestRanges_tiles finishOffset.toNat 0 (by omega)

section Inputs

/-- An object of one column, with a record at the start of each third. -/
def lineorder : S3Partition Nat where
  bucket := "b"
  object := "ssb/lineorder.tbl"
  numBytes := 40000001
  fields := [⟨"lo_orderkey",.int32⟩]
  records := [(0,[⟨true,1⟩]),(15728641,[⟨true,2⟩]),(40000000,[⟨true,3⟩])]
  shaped := by simp
  inside := by simp
  ascending := by simp
  canonical := by decide
  unique := by simp

def lineorderScan : S3SelectPOp Nat where
  name := "select"
  projectColumnNames := ["lo_orderkey"]
  partition := lineorder
  filterSql := none
  startOffset := 0
  finishOffset := 40000000
  s3ClientType := .S3
  scanOnStart := true
  toCache := false
  weightedSegmentKeys := []

theorem lineorderScan_supported : lineorderScan.scanRangeSupported = true := by decide

theorem lineorderScan_scans :
    ∃ fuel reqs, parallelReqs 40000000 fuel 0 0 = some reqs ∧ Scans lineorderScan 0 40000000 reqs :=
  (parallelReqs_scan_iff lineorderScan rfl lineorderScan_supported 0 40000000 (by decide) (by decide)).mpr
    ⟨rfl,by decide⟩

/-- A scan from 1 on reads the record that begins at 0. -/
theorem scan_from_one_starts_at_zero :
    defaultS3RangeSize < (40000000-1 : UInt64).toNat ∧
    ¬∃ fuel reqs, parallelReqs 40000000 fuel 0 0 = some reqs ∧ Scans lineorderScan 1 40000000 reqs := by
  refine ⟨by decide,?_⟩
  rintro ⟨fuel,reqs,run,scans⟩
  obtain ⟨ranges,listed,_,rfl⟩ := parallelReqs_some run
  obtain ⟨_,_,rfl⟩ := requestRanges_first (by decide) listed
  have first : (0 : UInt64).toNat = (1 : UInt64).toNat := scans.tiles.1
  exact absurd first (by decide)

end Inputs

end Hermes.HybridScan.Unsigned
