import Hermes.CSVParser
import Hermes.Library.Fallible
import Hermes.S3ScanRanges
import Mathlib.Data.List.GetD

/-! `s3GetParallelReqs`: an object is cut into ranges, each downloaded and parsed in a thread of its own; what a range has of
the line before it goes to the parser of the range before. -/
namespace Hermes.S3Get
open HybridScan (defaultS3RangeSize)
open HybridScan.Unsigned Csv Library.Entries Library.Fallible Library.Ranges

/-- What a thread puts into a map while it holds the lock; a parser stands for the bytes it was given. -/
inductive Insertion where
  | additionalOutput (reqNum : Nat) (bytes : List UInt8)
  | parser (reqNum : Nat) (bytes : List UInt8)

structure Maps where
  reqNumToAdditionalOutput : List (Nat × List UInt8)
  reqNumToParser : List (Nat × List UInt8)

/-- `unordered_map::insert`. -/
def insertNew (map : List (Nat × List UInt8)) (entry : Nat × List UInt8) : List (Nat × List UInt8) :=
  if entry.1 ∈ map.map Prod.fst then map else map ++ [entry]

def Maps.insert (maps : Maps) : Insertion → Maps
  | .additionalOutput reqNum bytes =>
    {maps with reqNumToAdditionalOutput := insertNew maps.reqNumToAdditionalOutput (reqNum,bytes)}
  | .parser reqNum bytes => {maps with reqNumToParser := insertNew maps.reqNumToParser (reqNum,bytes)}

def prevPartialResult (body : List UInt8) : List UInt8 := body.takeWhile (· != newline)

def remaining (body : List UInt8) : List UInt8 := (body.dropWhile (· != newline)).tail

section
variable (s3GetRequestOnly : UInt64 → UInt64 → List UInt8)

def s3GetIndividualReq (reqNum : Nat) (startOffset endOffset : UInt64) : List Insertion :=
  let body := s3GetRequestOnly startOffset endOffset
  (if reqNum ≠ 1 then [.additionalOutput (reqNum-1) (prevPartialResult body)] else []) ++
    [.parser reqNum (remaining body)]

def insertions (reqs : List (Nat × UInt64 × UInt64)) : List Insertion :=
  reqs.flatMap fun req => s3GetIndividualReq s3GetRequestOnly req.1 req.2.1 req.2.2

/-- What each parser has parsed and what it is given when it is completed; a parser that is missing is a null pointer. -/
def combined (totalReqs : Nat) (maps : Maps) : Option (List (List UInt8 × List UInt8)) := do
  let nums ← reqNums totalReqs
  nums.mapM fun i => (maps.reqNumToParser.lookup i).map fun parser =>
    (parser,if i < totalReqs then (maps.reqNumToAdditionalOutput.lookup i).getD [] else [])

def allotment (reqs : List (Nat × UInt64 × UInt64)) : List (List UInt8 × List UInt8) :=
  let bodies := reqs.map fun req => s3GetRequestOnly req.2.1 req.2.2
  (bodies.map remaining).zip ((bodies.map prevPartialResult).tail ++ [[]])

end

/-- The requested bytes are those before the finish, which is the size where the object is read as a whole. -/
def Covers (start finish : Nat) (ranges : List (Nat × Nat)) : Prop :=
  (start = finish ∧ ranges = []) ∨ ∃ last, last ≤ finish ∧ finish ≤ last+1 ∧ Tiles start last ranges

/-- What the ranges of a download promise, in whatever order the threads get hold of the lock. -/
structure Downloads (s3GetRequestOnly : UInt64 → UInt64 → List UInt8) (startOffset finishOffset : UInt64)
    (reqs : List (Nat × UInt64 × UInt64)) : Prop where
  covers : Covers startOffset.toNat finishOffset.toNat (spans (reqs.map Prod.snd))
  once : ∀ byte, startOffset.toNat ≤ byte → byte < finishOffset.toNat →
    ((spans (reqs.map Prod.snd)).filter (within byte)).length = 1
  inside : ∀ byte, byte < startOffset.toNat ∨ finishOffset.toNat < byte →
    ((spans (reqs.map Prod.snd)).filter (within byte)).length = 0
  allotted : ∀ completed : List Insertion, completed.Perm (insertions s3GetRequestOnly reqs) →
    combined reqs.length (completed.foldl Maps.insert ⟨[],[]⟩) = some (allotment s3GetRequestOnly reqs)

section Allotment
variable (s3GetRequestOnly : UInt64 → UInt64 → List UInt8) {reqs : List (Nat × UInt64 × UInt64)}

def outputOf : Insertion → Option (Nat × List UInt8)
  | .additionalOutput reqNum bytes => some (reqNum,bytes)
  | .parser _ _ => none

def parserOf : Insertion → Option (Nat × List UInt8)
  | .additionalOutput _ _ => none
  | .parser reqNum bytes => some (reqNum,bytes)

theorem foldl_insert (completed : List Insertion) (maps : Maps)
    (outputs : ((maps.reqNumToAdditionalOutput ++ completed.filterMap outputOf).map Prod.fst).Nodup)
    (parsers : ((maps.reqNumToParser ++ completed.filterMap parserOf).map Prod.fst).Nodup) :
    completed.foldl Maps.insert maps =
      ⟨maps.reqNumToAdditionalOutput ++ completed.filterMap outputOf,
        maps.reqNumToParser ++ completed.filterMap parserOf⟩ := by
  have fresh : ∀ (map rest : List (Nat × List UInt8)) (entry : Nat × List UInt8),
      ((map ++ entry::rest).map Prod.fst).Nodup → insertNew map entry = map ++ [entry] := by
    intro map rest entry distinct
    rw [List.map_append,List.map_cons,List.nodup_middle] at distinct
    exact if_neg fun inside => (List.nodup_cons.mp distinct).1 (List.mem_append_left _ inside)
  induction completed generalizing maps with
  | nil =>
    rw [List.filterMap_nil,List.filterMap_nil,List.append_nil,List.append_nil]
    rfl
  | cons insertion completed ih =>
    cases insertion with
    | additionalOutput reqNum bytes =>
      simp only [List.filterMap_cons,outputOf,parserOf] at outputs parsers ⊢
      rw [List.foldl_cons,Maps.insert,fresh _ _ _ outputs]
      rw [List.append_cons _ _ (completed.filterMap outputOf)] at outputs ⊢
      exact ih ⟨maps.reqNumToAdditionalOutput ++ [(reqNum,bytes)],maps.reqNumToParser⟩ outputs parsers
    | parser reqNum bytes =>
      simp only [List.filterMap_cons,outputOf,parserOf] at outputs parsers ⊢
      rw [List.foldl_cons,Maps.insert,fresh _ _ _ parsers]
      rw [List.append_cons _ _ (completed.filterMap parserOf)] at parsers ⊢
      exact ih ⟨maps.reqNumToAdditionalOutput,maps.reqNumToParser ++ [(reqNum,bytes)]⟩ outputs parsers

theorem insertions_numbered (ranges : List (UInt64 × UInt64)) (n : Nat) :
    (insertions s3GetRequestOnly (numbered n ranges)).filterMap parserOf =
      (numbered n ranges).map (fun req => (req.1,remaining (s3GetRequestOnly req.2.1 req.2.2))) ∧
    (insertions s3GetRequestOnly (numbered n ranges)).filterMap outputOf =
      (if n = 0 then (numbered n ranges).tail else numbered n ranges).map
        fun req => (req.1-1,prevPartialResult (s3GetRequestOnly req.2.1 req.2.2)) := by
  induction ranges generalizing n with
  | nil =>
    refine ⟨rfl,?_⟩
    split <;> rfl
  | cons range ranges ih =>
    obtain ⟨parsers,outputs⟩ := ih (n+1)
    rw [if_neg (Nat.succ_ne_zero n)] at outputs
    have first : insertions s3GetRequestOnly (numbered n (range::ranges)) =
        s3GetIndividualReq s3GetRequestOnly (n+1) range.1 range.2 ++
          insertions s3GetRequestOnly (numbered (n+1) ranges) := rfl
    have split : numbered n (range::ranges) = (n+1,range)::numbered (n+1) ranges := rfl
    rw [first,List.filterMap_append,List.filterMap_append,parsers,outputs,split,List.map_cons,List.tail_cons,
      s3GetIndividualReq]
    refine ⟨?_,?_⟩
    · split <;> rfl
    · by_cases zero : n = 0
      · rw [zero]
        rfl
      · rw [if_pos (by omega),if_neg zero]
        rfl

theorem getElem_numbered {n i : Nat} {ranges : List (UInt64 × UInt64)} (inside : i < (numbered n ranges).length)
    (inside' : i < ranges.length) : (numbered n ranges)[i] = (n+1+i,ranges[i]) := by
  simp [numbered]

theorem mem_numbered {n i : Nat} {ranges : List (UInt64 × UInt64)} (inside : i < ranges.length) :
    (n+1+i,ranges[i]) ∈ numbered n ranges := by
  have known : i < (numbered n ranges).length := (length_numbered n ranges).symm ▸ inside
  rw [← getElem_numbered known inside]
  exact List.getElem_mem known

theorem mem_tail_numbered {i : Nat} {ranges : List (UInt64 × UInt64)} (inside : 1+i < ranges.length) :
    (1+1+i,ranges[1+i]) ∈ (numbered 0 ranges).tail := by
  cases ranges with
  | nil => cases inside
  | cons range ranges =>
    have known : i < ranges.length := by
      rw [List.length_cons] at inside
      omega
    have listed := mem_numbered (n := 1) known
    have split : (numbered 0 (range::ranges)).tail = numbered 1 ranges := rfl
    rw [split]
    simpa only [Nat.add_comm 1 i,List.getElem_cons_succ] using listed

theorem allotment_numbered (ranges : List (UInt64 × UInt64)) : allotment s3GetRequestOnly (numbered 0 ranges) =
    (List.range' 1 ranges.length).map fun i =>
      (remaining (s3GetRequestOnly (ranges.getD (i-1) (0,0)).1 (ranges.getD (i-1) (0,0)).2),
        if i < ranges.length then
          prevPartialResult (s3GetRequestOnly (ranges.getD i (0,0)).1 (ranges.getD i (0,0)).2)
        else []) := by
  have bodies : (numbered 0 ranges).map (fun req => s3GetRequestOnly req.2.1 req.2.2) =
      ranges.map fun range => s3GetRequestOnly range.1 range.2 := by
    rw [numbered,List.map_map]
    conv_rhs => rw [← List.zipIdx_map_fst 1 ranges,List.map_map]
    rfl
  rw [allotment,bodies]
  apply List.ext_getElem
  · cases ranges <;> simp
  · intro i inside inside'
    rw [List.length_map,List.length_range'] at inside'
    have next : 1+i-1 = i := Nat.add_sub_cancel_left 1 i
    simp only [List.getElem_zip,List.getElem_map,List.getElem_range',Nat.one_mul,next]
    by_cases later : 1+i < ranges.length
    · have partials : i < ((ranges.map fun range => s3GetRequestOnly range.1 range.2).map prevPartialResult).tail.length := by
        rw [List.length_tail,List.length_map,List.length_map]
        omega
      rw [if_pos later,List.getElem_append_left partials,List.getElem_tail,List.getElem_map,List.getElem_map,
        List.getD_eq_getElem _ _ later,List.getD_eq_getElem _ _ inside']
      simp only [Nat.add_comm]
    · rw [if_neg later,List.getElem_append_right (by
        rw [List.length_tail,List.length_map,List.length_map]
        omega),List.getElem_singleton,List.getD_eq_getElem _ _ inside']

theorem combined_perm {ranges : List (UInt64 × UInt64)} (few : ranges.length < intMax) {completed : List Insertion}
    (finished : completed.Perm (insertions s3GetRequestOnly (numbered 0 ranges))) :
    combined (numbered 0 ranges).length (completed.foldl Maps.insert ⟨[],[]⟩) =
      some (allotment s3GetRequestOnly (numbered 0 ranges)) := by
  obtain ⟨parsers,outputs⟩ := insertions_numbered s3GetRequestOnly ranges 0
  rw [if_pos rfl] at outputs
  have parsers' := (finished.filterMap parserOf).trans (List.Perm.of_eq parsers)
  have outputs' := (finished.filterMap outputOf).trans (List.Perm.of_eq outputs)
  have distinct : ((completed.filterMap parserOf).map Prod.fst).Nodup := by
    rw [(parsers'.map Prod.fst).nodup_iff,List.map_map]
    change ((numbered 0 ranges).map Prod.fst).Nodup
    rw [numbers]
    exact List.nodup_range'
  have distinct' : ((completed.filterMap outputOf).map Prod.fst).Nodup := by
    rw [(outputs'.map Prod.fst).nodup_iff,List.map_map]
    change ((numbered 0 ranges).tail.map ((·-1) ∘ Prod.fst)).Nodup
    rw [← List.map_map,List.map_tail,numbers,List.tail_range',List.map_sub_range' (by omega)]
    exact List.nodup_range'
  rw [foldl_insert completed ⟨[],[]⟩ distinct' distinct,combined,length_numbered,allotment_numbered,reqNums_eq few,
    Option.bind_eq_bind,Option.bind_some]
  apply mapM_some
  intro i inside
  obtain ⟨first,last⟩ := List.mem_range'_1.mp inside
  obtain ⟨k,rfl⟩ := Nat.exists_eq_add_of_le first
  have known : k < ranges.length := by omega
  have listed := mem_numbered (n := 0) known
  rw [Nat.zero_add] at listed
  have parser : (completed.filterMap parserOf).lookup
      (1+k) = some (remaining (s3GetRequestOnly ranges[k].1 ranges[k].2)) :=
    lookup_mem distinct (parsers'.mem_iff.mpr (List.mem_map_of_mem listed))
  dsimp only
  rw [List.nil_append,List.nil_append,parser,Option.map_some,Nat.add_sub_cancel_left,List.getD_eq_getElem _ _ known]
  by_cases later : 1+k < ranges.length
  · have output : (completed.filterMap outputOf).lookup (1+k) =
        some (prevPartialResult (s3GetRequestOnly ranges[1+k].1 ranges[1+k].2)) := by
      have moved : 1+1+k-1 = 1+k := by omega
      have found := lookup_mem distinct' (outputs'.mem_iff.mpr (List.mem_map_of_mem (mem_tail_numbered later)))
      rwa [moved] at found
    rw [if_pos later,if_pos later,output,Option.getD_some,List.getD_eq_getElem _ _ later]
  · rw [if_neg later,if_neg later]

end Allotment

section Downloads
variable {s3GetRequestOnly : UInt64 → UInt64 → List UInt8} {startOffset finishOffset : UInt64}
  {ranges : List (UInt64 × UInt64)}

theorem Covers.once {start finish : Nat} {ranges : List (Nat × Nat)} (covers : Covers start finish ranges) {byte : Nat}
    (after : start ≤ byte) (before : byte < finish) : (ranges.filter (within byte)).length = 1 := by
  rcases covers with ⟨same,_⟩ | ⟨last,_,reached,tiles⟩
  · omega
  · rw [tiles.within_once,if_pos (by omega)]

theorem Covers.inside {start finish : Nat} {ranges : List (Nat × Nat)} (covers : Covers start finish ranges)
    {byte : Nat} (outside : byte < start ∨ finish < byte) : (ranges.filter (within byte)).length = 0 := by
  rcases covers with ⟨_,empty⟩ | ⟨last,below,_,tiles⟩
  · rw [empty]
    rfl
  · rw [tiles.within_once,if_neg (by omega)]

theorem downloads_of_covers (few : ranges.length < intMax)
    (covers : Covers startOffset.toNat finishOffset.toNat (spans ranges)) :
    Downloads s3GetRequestOnly startOffset finishOffset (numbered 0 ranges) := by
  rw [← ranges_numbered 0 ranges] at covers
  exact ⟨covers,fun _ => covers.once,fun _ => covers.inside,fun _ => combined_perm s3GetRequestOnly few⟩

/-- The loops end with ranges that cover what was requested exactly where the download begins at 0 and an `int` can count
beyond the requests. -/
theorem parallelReqs_downloads_iff (s3GetRequestOnly : UInt64 → UInt64 → List UInt8) (startOffset finishOffset : UInt64)
    (ordered : startOffset ≤ finishOffset) :
    (∃ fuel reqs, parallelReqs finishOffset fuel 0 0 = some reqs ∧
      Downloads s3GetRequestOnly startOffset finishOffset reqs) ↔
    startOffset = 0 ∧ finishOffset.toNat < requestLimit := by
  constructor
  · rintro ⟨fuel,reqs,run,downloads⟩
    obtain ⟨ranges,listed,_,rfl⟩ := parallelReqs_some run
    have covers := downloads.covers
    rw [ranges_numbered] at covers
    constructor
    · by_cases more : 0 < finishOffset
      · obtain ⟨ended,rest,rfl⟩ := requestRanges_first more listed
        rcases covers with ⟨_,empty⟩ | ⟨_,_,_,tiles⟩
        · cases empty
        · exact (UInt64.toNat_inj.mp tiles.1).symm
      · rw [UInt64.le_iff_toNat_le] at ordered
        rw [UInt64.lt_iff_toNat_lt,UInt64.toNat_zero] at more
        rw [← UInt64.toNat_inj,UInt64.toNat_zero]
        omega
    · by_contra high
      have forward : ∀ range ∈ ranges, range.1.toNat ≤ range.2.toNat := by
        intro range member
        rcases covers with ⟨_,empty⟩ | ⟨_,_,_,tiles⟩
        · rw [spans,List.map_eq_nil_iff] at empty
          rw [empty] at member
          cases member
        · exact tiles.forward (List.mem_map.mpr ⟨range,member,rfl⟩)
      have many := intMax_le_of_forward (not_lt.mp high) listed forward
      have read := downloads.allotted _ (List.Perm.refl _)
      rw [combined,length_numbered,reqNums,if_neg (not_lt.mpr many)] at read
      cases read
  · rintro ⟨rfl,below⟩
    obtain ⟨fuel,ranges,run,few,same⟩ := parallelReqs_runs below
    refine ⟨fuel,_,run,downloads_of_covers few ?_⟩
    rw [same,UInt64.toNat_zero]
    by_cases more : 0 < finishOffset.toNat
    · exact .inr ⟨_,Nat.le_refl _,Nat.le_succ _,requestRanges_tiles finishOffset.toNat 0 more⟩
    · rw [HybridScan.requestRanges,dif_neg more]
      exact .inl ⟨by omega,rfl⟩

theorem download_of_40000000 : (0 : UInt64) ≤ 40000000 ∧ ∃ fuel reqs, parallelReqs 40000000 fuel 0 0 = some reqs ∧
    Downloads (fun _ _ => [0x31,newline]) 0 40000000 reqs :=
  ⟨by decide,(parallelReqs_downloads_iff _ 0 40000000 (by decide)).mpr ⟨rfl,by decide⟩⟩

/-- A download from 1 on requests the byte before. -/
theorem download_from_one_starts_at_zero : defaultS3RangeSize < (40000000-1 : UInt64).toNat ∧
    ¬∃ fuel reqs, parallelReqs 40000000 fuel 0 0 = some reqs ∧ Downloads (fun _ _ => []) 1 40000000 reqs := by
  refine ⟨by decide,?_⟩
  rintro ⟨fuel,reqs,run,downloads⟩
  obtain ⟨ranges,listed,_,rfl⟩ := parallelReqs_some run
  obtain ⟨ended,rest,rfl⟩ := requestRanges_first (by decide) listed
  have covers := downloads.covers
  rw [ranges_numbered] at covers
  rcases covers with ⟨same,_⟩ | ⟨_,_,_,tiles⟩
  · exact absurd same (by decide)
  · have first : (0 : UInt64).toNat = (1 : UInt64).toNat := tiles.1
    exact absurd first (by decide)

end Downloads

end Hermes.S3Get
