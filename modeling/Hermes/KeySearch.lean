import Hermes.KeepMapCacheMode
import Mathlib.Algebra.Order.Ring.Int

/-! `binarySearch` with the `int` that it counts in and the rows that it reads, on a column in ascending order. -/
namespace Hermes.KeySearch

inductive SearchFault where
  | overflow
  | rowDoesNotExist
  | readOutside
deriving DecidableEq, Repr

/-- `Column::element` and what its callers make of it: the row behind the last one passes the check and is read. -/
def element (column : List Int32) (index : Int) : Except SearchFault Int32 :=
  if index > column.length then .error .rowDoesNotExist
  else if index < 0 then .error .readOutside
  else
    match column[index.toNat]? with
    | some value => .ok value
    | none => .error .readOutside

theorem mid_between {p r : Int} (ordered : p ≤ r) : p ≤ (p+r).tdiv 2 ∧ (p+r).tdiv 2 ≤ r := by
  rcases le_total 0 (p+r) with positive | negative
  · rw [Int.tdiv_eq_ediv_of_nonneg positive]
    omega
  · have other : (-(p+r)).tdiv 2 = -(p+r)/2 := Int.tdiv_eq_ediv_of_nonneg (by omega)
    rw [Int.neg_tdiv] at other
    omega

def binarySearch (stablesPKColumn : List Int32) (p r : Int) (num : Int32) : Except SearchFault Int :=
  if ordered : p ≤ r then
    if -2^31 ≤ p+r ∧ p+r < 2^31 then
      let mid := (p+r).tdiv 2
      match element stablesPKColumn mid with
      | .error fault => .error fault
      | .ok curr =>
        if curr = num then .ok mid
        else if curr > num then binarySearch stablesPKColumn p (mid-1) num
        else if curr < num then binarySearch stablesPKColumn (mid+1) r num
        else .ok (-1)
    else .error .overflow
  else .ok (-1)
termination_by (r+1-p).toNat
decreasing_by
  all_goals
    have between := mid_between ordered
    omega

/-- The place of a key, or -1. -/
def position (column : List Int32) (key : Int32) : Int := if key ∈ column then column.idxOf key else -1

section
variable {column : List Int32} {key last : Int32} {p r : Int}

theorem element_eq {m : Nat} {value : Int32} (read : column[m]? = some value) : element column m = .ok value := by
  obtain ⟨inside,_⟩ := List.getElem?_eq_some_iff.mp read
  rw [element,if_neg (by omega),if_neg (by omega),Int.toNat_natCast,read]

theorem binarySearch_read {m : Nat} {curr : Int32} (ordered : p ≤ r) (fits : -2^31 ≤ p+r ∧ p+r < 2^31)
    (mid : (p+r).tdiv 2 = m) (read : column[m]? = some curr) : binarySearch column p r key =
      if curr = key then .ok m
      else if curr > key then binarySearch column p (m-1) key
      else binarySearch column (m+1) r key := by
  rw [binarySearch,dif_pos ordered,if_pos fits,mid]
  dsimp only
  rw [element_eq read]
  dsimp only
  by_cases same : curr = key
  · rw [if_pos same,if_pos same]
  · rw [if_neg same,if_neg same]
    by_cases greater : curr > key
    · rw [if_pos greater,if_pos greater]
    · rw [if_neg greater,if_neg greater,if_pos (lt_of_le_of_ne (not_lt.mp greater) same)]

theorem position_eq (ascending : column.Pairwise (· < ·)) {m : Nat} (read : column[m]? = some key) :
    position column key = m := by
  obtain ⟨inside,value⟩ := List.getElem?_eq_some_iff.mp read
  have distinct : column.Nodup := ascending.imp fun less => ne_of_lt less
  rw [position,if_pos (List.mem_of_getElem? read),← value,distinct.idxOf_getElem]

/-- Everything before the window is below the key, everything behind it above. -/
structure Window (column : List Int32) (key : Int32) (p r : Int) : Prop where
  low : 0 ≤ p
  high : r ≤ column.length
  before : ∀ (i : Nat) (value : Int32), column[i]? = some value → i < p → value < key
  behind : ∀ (i : Nat) (value : Int32), column[i]? = some value → r < i → key < value

theorem ordered_of_read (ascending : column.Pairwise (· < ·)) {i m : Nat} {value curr : Int32}
    (here : column[i]? = some value) (there : column[m]? = some curr) : i ≤ m → value ≤ curr := by
  intro order
  obtain ⟨first,rfl⟩ := List.getElem?_eq_some_iff.mp here
  obtain ⟨second,rfl⟩ := List.getElem?_eq_some_iff.mp there
  rcases Nat.eq_or_lt_of_le order with rfl | less
  · exact le_refl _
  · exact le_of_lt (List.pairwise_iff_getElem.mp ascending i m first second less)

theorem binarySearch_finds (ascending : column.Pairwise (· < ·)) (final : column.getLast? = some last)
    (reached : key ≤ last) (few : column.length ≤ 2^30) (window : Window column key p r) :
    binarySearch column p r key = .ok (position column key) := by
  induction size : (r+1-p).toNat using Nat.strong_induction_on generalizing p r with
  | _ size ih =>
    obtain ⟨low,high,before,behind⟩ := window
    by_cases ordered : p ≤ r
    · rw [List.getLast?_eq_getElem?] at final
      have inside : p < column.length := by
        by_contra beyond
        have less := before (column.length-1) last final (by
          obtain ⟨some,_⟩ := List.getElem?_eq_some_iff.mp final
          omega)
        exact absurd reached (not_le.mpr less)
      obtain ⟨m,mid⟩ : ∃ m : Nat, (p+r).tdiv 2 = m := by
        rw [Int.tdiv_eq_ediv_of_nonneg (by omega)]
        exact ⟨((p+r)/2).toNat,by omega⟩
      have between := mid_between ordered
      have bound : m < column.length := by
        rw [Int.tdiv_eq_ediv_of_nonneg (by omega)] at mid
        omega
      have read : column[m]? = some column[m] := List.getElem?_eq_getElem bound
      rw [binarySearch_read ordered (by omega) mid read]
      by_cases same : column[m] = key
      · rw [if_pos same,position_eq ascending (by rw [read,same])]
      · rw [if_neg same]
        by_cases greater : column[m] > key
        · rw [if_pos greater]
          refine ih _ ?_ ⟨low,by omega,before,?_⟩ rfl
          · omega
          · intro i value here later
            exact lt_of_lt_of_le greater (ordered_of_read ascending read here (by omega))
        · rw [if_neg greater]
          refine ih _ ?_ ⟨by omega,high,?_,behind⟩ rfl
          · omega
          · intro i value here earlier
            exact lt_of_le_of_lt (ordered_of_read ascending here read (by omega))
              (lt_of_le_of_ne (not_lt.mp greater) same)
    · have absent : key ∉ column := by
        intro member
        obtain ⟨i,here⟩ := List.mem_iff_getElem?.mp member
        by_cases early : (i : Int) < p
        · exact lt_irrefl key (before i key here early)
        · exact lt_irrefl key (behind i key here (by omega))
      rw [binarySearch,dif_neg ordered,position,if_neg absent]

theorem binarySearch_overflows (ascending : column.Pairwise (· < ·)) (final : column.getLast? = some last)
    (many : 2^30 < column.length) (low : 0 ≤ p) (inside : p < column.length)
    (passed : r = column.length ∨ r = column.length-1) : binarySearch column p r last = .error .overflow := by
  have place : column[column.length-1]? = some last := by rw [← List.getLast?_eq_getElem?,final]
  induction size : (column.length-p).toNat using Nat.strong_induction_on generalizing p with
  | _ size ih =>
    by_cases fits : p+r < 2^31
    · obtain ⟨m,mid⟩ : ∃ m : Nat, (p+r).tdiv 2 = m := by
        rw [Int.tdiv_eq_ediv_of_nonneg (by omega)]
        exact ⟨((p+r)/2).toNat,by omega⟩
      have between := mid_between (p := p) (r := r) (by omega)
      have bound : m < column.length-1 := by
        rw [Int.tdiv_eq_ediv_of_nonneg (by omega)] at mid
        omega
      have here : m < column.length := by omega
      have read : column[m]? = some column[m] := List.getElem?_eq_getElem here
      have less : column[m] < last := by
        obtain ⟨there,value⟩ := List.getElem?_eq_some_iff.mp place
        rw [← value]
        exact List.pairwise_iff_getElem.mp ascending m (column.length-1) here there bound
      rw [binarySearch_read (by omega) (by omega) mid read,if_neg (ne_of_lt less),if_neg (not_lt.mpr (le_of_lt less))]
      exact ih _ (by omega) (by omega) (by omega) rfl
    · rw [binarySearch,dif_pos (by omega),if_neg (by omega)]

theorem binarySearch_agrees (few : column.length ≤ 2^30) (fuel : Nat) (low : 0 ≤ p) (high : r ≤ column.length)
    (near : p ≤ r+1) (enough : r-p+2 ≤ fuel) :
    KeepMapCacheMode.binarySearch column key fuel p r = (binarySearch column p r key).toOption := by
  induction fuel generalizing p r with
  | zero => omega
  | succ fuel ih =>
    rw [KeepMapCacheMode.binarySearch]
    by_cases ordered : p ≤ r
    · obtain ⟨m,mid⟩ : ∃ m : Nat, (p+r)/2 = m := ⟨((p+r)/2).toNat,by omega⟩
      have mid' : (p+r).tdiv 2 = m := by rw [Int.tdiv_eq_ediv_of_nonneg (by omega),mid]
      rw [if_pos ordered]
      dsimp only
      rw [mid,Int.toNat_natCast]
      cases read : column[m]? with
      | none =>
        have beyond := List.getElem?_eq_none_iff.mp read
        have failed : (element column m).toOption = none := by
          rw [element,if_neg (by omega),if_neg (by omega),Int.toNat_natCast,read]
          rfl
        rw [binarySearch,dif_pos ordered]
        split
        next =>
          rw [mid']
          dsimp only
          cases result : element column m with
          | error fault => rfl
          | ok value =>
            rw [result] at failed
            cases failed
        next => rfl
      | some curr =>
        obtain ⟨bound,_⟩ := List.getElem?_eq_some_iff.mp read
        rw [binarySearch_read ordered (by omega) mid' read]
        change (if curr = key then some (m : Int) else if curr > key then KeepMapCacheMode.binarySearch column key fuel p (m-1)
          else KeepMapCacheMode.binarySearch column key fuel (m+1) r) = _
        split
        next => rfl
        next =>
          split
          next => exact ih low (by omega) (by omega) (by omega)
          next => exact ih (by omega) high (by omega) (by omega)
    · rw [if_neg ordered,binarySearch,dif_neg ordered]
      rfl

end

/-- The search is exact for every key up to the last row where the column has at most 2^30 rows, and only there. -/
theorem binarySearch_exact_iff {column : List Int32} {last : Int32} (ascending : column.Pairwise (· < ·))
    (final : column.getLast? = some last) {r : Int} (passed : r = column.length ∨ r = column.length-1) :
    (∀ key ≤ last, binarySearch column 0 r key = .ok (position column key)) ↔ column.length ≤ 2^30 := by
  have filled : 0 < column.length := by
    rw [List.length_pos_iff]
    rintro rfl
    cases final
  constructor
  · intro exactly
    by_contra many
    have overflows := binarySearch_overflows (p := 0) ascending final (not_le.mp many) (le_refl _) (by omega) passed
    rw [exactly last (le_refl _)] at overflows
    cases overflows
  · intro few key reached
    refine binarySearch_finds ascending final reached few ⟨le_refl _,by omega,?_,?_⟩
    · intro i value _ earlier
      omega
    · intro i value here later
      obtain ⟨inside,_⟩ := List.getElem?_eq_some_iff.mp here
      omega

theorem three_rows_exact : binarySearch [1,5,9] 0 3 6 = .ok (position [1,5,9] 6) :=
  (binarySearch_exact_iff (by decide) rfl (.inl rfl)).mpr (by decide) 6 (by decide)

/-- The keys from 0 on. -/
def keysFrom0 (count : Nat) : List Int32 := (List.range count).map Int32.ofNat

theorem keysFrom0_ascending {count : Nat} (few : count ≤ 2^31) : (keysFrom0 count).Pairwise (· < ·) := by
  rw [keysFrom0,List.pairwise_map]
  refine List.pairwise_lt_range.imp_of_mem ?_
  intro i j first second less
  rw [List.mem_range] at first second
  rw [Int32.lt_iff_toInt_lt,Int32.toInt_ofNat_of_lt (by omega),Int32.toInt_ofNat_of_lt (by omega)]
  omega

theorem keysFrom0_last (count : Nat) : (keysFrom0 (count+1)).getLast? = some (Int32.ofNat count) := by
  rw [keysFrom0,List.range_succ,List.map_append]
  exact List.getLast?_concat

/-- The last of 2^30+1 keys is not found. -/
theorem long_column_overflows : (keysFrom0 (2^30+1)).Pairwise (· < ·) ∧
    (keysFrom0 (2^30+1)).getLast? = some (Int32.ofNat (2^30)) ∧
    binarySearch (keysFrom0 (2^30+1)) 0 (2^30+1) (Int32.ofNat (2^30)) = .error .overflow := by
  have ascending : (keysFrom0 (2^30+1)).Pairwise (· < ·) := keysFrom0_ascending (by omega)
  have final := keysFrom0_last (2^30)
  have rows : (keysFrom0 (2^30+1)).length = 2^30+1 := by rw [keysFrom0,List.length_map,List.length_range]
  refine ⟨ascending,final,binarySearch_overflows ascending final (by rw [rows]; omega) (le_refl _)
    (by rw [rows]; omega) ?_⟩
  exact .inl (by rw [rows]; rfl)

end Hermes.KeySearch
