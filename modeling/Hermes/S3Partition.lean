import Hermes.DeltaCacheActor
import Mathlib.Algebra.Ring.Int.Defs
import Mathlib.Data.List.TakeWhile

/-! Partition numbers and the names of S3 objects.
The catalogue reader writes the number behind the last dot of a name, and leaves it out of
the name of an only partition. `toRawPartition` tells the two apart by the number of dots. -/
namespace Hermes.S3Partition
open Hermes.Delta Hermes.DeltaCacheActor

inductive Format
  | csv
  | parquet
deriving DecidableEq

def s3ObjectSuffix : Format → String
  | .csv => ".tbl"
  | .parquet => ".parquet"

/-- The objects of one table, in `readSchema`'s order. -/
def s3Objects (schemaName tableName : String) (format : Format) (numPartitions : Int32) : List String :=
  if numPartitions = 1 then [schemaName ++ tableName ++ s3ObjectSuffix format]
  else
    let s3ObjectDir := schemaName ++ tableName ++ "_sharded/"
    (List.range numPartitions.toInt.toNat).map fun i =>
      s3ObjectDir ++ tableName ++ s3ObjectSuffix format ++ "." ++ toString i

/-- The segments `getline` reads up to each dot. At the end of the stream it reads a last one
unless nothing is left. -/
def segmentList (segment : List Char) : List Char → List (List Char)
  | [] => if segment.isEmpty then [] else [segment]
  | c::s => if c = '.' then segment :: segmentList [] s else segmentList (segment ++ [c]) s

/-- `std::stol`: white space, a sign and the digits that follow; without digits, or out of the
range of `long`, it throws. -/
def stol (s : List Char) : Option Int :=
  let s := s.dropWhile Char.isWhitespace
  let digits := (match s with | '-'::s => s | '+'::s => s | s => s).takeWhile Char.isDigit
  if digits.isEmpty then none
  else
    let magnitude : Int := Nat.ofDigitChars 10 digits 0
    let v := if s.head? = some '-' then -magnitude else magnitude
    if -2^63 ≤ v ∧ v < 2^63 then some v else none

def toRawPartition (s3Object : String) : Option Int :=
  let segmentList := segmentList [] s3Object.toList
  if segmentList.length ≤ 2 then some 0
  else segmentList.getLast?.bind stol

section Segments

theorem segmentList_dot (first second segment : List Char) :
    segmentList segment (first ++ '.' :: second) = segmentList segment (first ++ ['.']) ++ segmentList [] second := by
  induction first generalizing segment with
  | nil => simp [segmentList]
  | cons c first ih =>
    by_cases dot : c = '.'
    · simp [segmentList,dot,ih]
    · simp [segmentList,dot,ih]

theorem length_segmentList_dot (first segment : List Char) :
    (segmentList segment (first ++ ['.'])).length = first.count '.' + 1 := by
  induction first generalizing segment with
  | nil => simp [segmentList]
  | cons c first ih =>
    by_cases dot : c = '.'
    · simp [segmentList,dot,ih]
    · simp [segmentList,dot,ih]

theorem segmentList_plain {s : List Char} (noDot : '.' ∉ s) (segment : List Char) (nonempty : segment ++ s ≠ []) :
    segmentList segment s = [segment ++ s] := by
  induction s generalizing segment with
  | nil =>
    rw [List.append_nil] at nonempty
    simp [segmentList,nonempty]
  | cons c s ih =>
    simp only [List.mem_cons,not_or] at noDot
    rw [segmentList,if_neg (Ne.symm noDot.1),ih noDot.2 (segment ++ [c]) (by simp)]
    simp

theorem toRawPartition_dot (s3Object : String) (first : List Char) {last : List Char} (noDot : '.' ∉ last)
    (nonempty : last ≠ []) (split : s3Object.toList = first ++ '.' :: last) :
    toRawPartition s3Object = if '.' ∈ first then stol last else some 0 := by
  have segments : segmentList [] s3Object.toList = segmentList [] (first ++ ['.']) ++ [last] := by
    rw [split,segmentList_dot,segmentList_plain noDot [] (by simpa using nonempty),List.nil_append]
  simp only [toRawPartition,segments,List.length_append,length_segmentList_dot,List.length_singleton]
  by_cases dot : '.' ∈ first
  · have dots := List.count_pos_iff.mpr dot
    rw [if_neg (by omega),if_pos dot]
    simp
  · simp [List.count_eq_zero.mpr dot,dot]

end Segments

section Numbers

theorem digit_plain {c : Char} {i : Nat} (member : c ∈ Nat.toDigits 10 i) : c.isDigit = true :=
  Nat.isDigit_of_mem_toDigits (by decide) (by decide) member

theorem stol_toDigits {i : Nat} (fits : (i : Int) < 2^63) : stol (Nat.toDigits 10 i) = some (i : Int) := by
  have digits : ∀ c ∈ Nat.toDigits 10 i, c.isDigit = true := fun c member => digit_plain member
  have value : Nat.ofDigitChars 10 (Nat.toDigits 10 i) 0 = i := Nat.ofDigitChars_ten_toDigits
  cases number : Nat.toDigits 10 i with
  | nil => simp at number
  | cons c s =>
    rw [number] at digits value
    have head := digits c List.mem_cons_self
    have noSpace : c.isWhitespace = false := by
      rw [Char.isWhitespace]
      simp only [Bool.or_eq_false_iff,decide_eq_false_iff_not]
      refine ⟨⟨⟨?_,?_⟩,?_⟩,?_⟩ <;> rintro rfl <;> simp at head
    have noMinus : c ≠ '-' := by rintro rfl; simp at head
    have noPlus : c ≠ '+' := by rintro rfl; simp at head
    have all : (c::s).takeWhile Char.isDigit = c::s := by
      exact List.takeWhile_eq_self_iff.mpr digits
    have inside : -2^63 ≤ (i : Int) ∧ (i : Int) < 2^63 := ⟨by omega,fits⟩
    simp only [stol,List.dropWhile_cons,noSpace,Bool.false_eq_true,if_false]
    split
    · simp_all
    · simp_all
    · simp only [all,value,List.head?_cons,Option.some.injEq,noMinus,if_false,if_pos inside]
      simp

end Numbers

section RoundTrip
variable (schemaName : String) {tableName : String}

theorem suffix_letters (format : Format) :
    ∃ letters, (s3ObjectSuffix format).toList = '.' :: letters ∧ letters ≠ [] ∧ '.' ∉ letters ∧
      stol letters = none := by
  cases format
  · exact ⟨"tbl".toList,by decide,by decide,by decide,by decide⟩
  · exact ⟨"parquet".toList,by decide,by decide,by decide,by decide⟩

theorem toRawPartition_only (noDot : '.' ∉ tableName.toList) (format : Format) :
    toRawPartition (schemaName ++ tableName ++ s3ObjectSuffix format) =
      if '.' ∈ schemaName.toList then none else some 0 := by
  obtain ⟨letters,suffix,nonempty,plain,refused⟩ := suffix_letters format
  have read := toRawPartition_dot (schemaName ++ tableName ++ s3ObjectSuffix format)
    (schemaName.toList ++ tableName.toList) plain nonempty (by simp [suffix])
  simpa [noDot,refused] using read

theorem toRawPartition_sharded (s3ObjectDir tableName : String) (format : Format) {i : Nat} (fits : (i : Int) < 2^63) :
    toRawPartition (s3ObjectDir ++ tableName ++ s3ObjectSuffix format ++ "." ++ toString i) = some (i : Int) := by
  obtain ⟨letters,suffix,_⟩ := suffix_letters format
  have plain : '.' ∉ Nat.toDigits 10 i := by
    intro inside
    exact absurd (digit_plain inside) (by decide)
  have read := toRawPartition_dot (s3ObjectDir ++ tableName ++ s3ObjectSuffix format ++ "." ++ toString i)
    (s3ObjectDir.toList ++ tableName.toList ++ '.' :: letters) plain (by simp) (by simp [suffix])
  rw [read,if_pos (by simp),stol_toDigits fits]

variable {τ : Type} {δ : τ → Type} {β : Type}

/-- What the numbers of a table's objects promise. A merge of object `i` asks the cache with the
object's number and gets what is pumped for raw partition `i`, before what is there already. -/
structure RoundTrips (δ : τ → Type) (β : Type) (s3Objects : List String) : Prop where
  number : ∀ (i : Nat) (s3Object : String), s3Objects[i]? = some s3Object →
    toRawPartition s3Object = some (i : Int)
  distinct : ∀ (i j : Nat) (first second : String), s3Objects[i]? = some first → s3Objects[j]? = some second →
    toRawPartition first = toRawPartition second → i = j
  meets : ∀ (i : Nat) (s3Object : String), s3Objects[i]? = some s3Object →
    ∃ rawPartition, toRawPartition s3Object = some rawPartition ∧
      ∀ (state : DeltaCacheActorState δ β) (pump : Pump δ) (table : τ),
        ((deltaPump state pump).cache table).load rawPartition =
          (pump.delta table i).toList.map (fun delta => ⟨delta,pump.timestamp⟩) ++
            (state.cache table).load i

theorem roundTrips_of_numbers {s3Objects : List String}
    (number : ∀ (i : Nat) (s3Object : String), s3Objects[i]? = some s3Object →
      toRawPartition s3Object = some (i : Int)) : RoundTrips δ β s3Objects where
  number := number
  distinct i j first second readFirst readSecond same := by
    rw [number i first readFirst,number j second readSecond,Option.some.injEq] at same
    exact Int.ofNat.inj same
  meets i s3Object read :=
    ⟨i,number i s3Object read,fun state pump table => load_deltaPump state pump table i⟩

/-- The numbers round-trip for several partitions, and for one unless the schema's name has a dot. -/
theorem s3Objects_roundTrip_iff (δ : τ → Type) (β : Type)
    (noDot : '.' ∉ tableName.toList) (format : Format) (numPartitions : Int32) :
    RoundTrips δ β (s3Objects schemaName tableName format numPartitions) ↔
      numPartitions ≠ 1 ∨ '.' ∉ schemaName.toList := by
  by_cases single : numPartitions = 1
  · have only := toRawPartition_only schemaName noDot format
    simp only [single,s3Objects,if_true,ne_eq,not_true,false_or]
    constructor
    · intro trips dot
      rw [if_pos dot] at only
      have number := trips.number 0 _ rfl
      rw [only] at number
      cases number
    · intro plain
      rw [if_neg plain] at only
      apply roundTrips_of_numbers
      intro i s3Object read
      rw [List.getElem?_singleton] at read
      split at read
      next first =>
        cases read
        rw [only,first]
        rfl
      next => cases read
  · refine iff_of_true ?_ (Or.inl single)
    apply roundTrips_of_numbers
    intro i s3Object read
    rw [s3Objects,if_neg single,List.getElem?_map] at read
    obtain ⟨place,listed,rfl⟩ := Option.map_eq_some_iff.mp read
    obtain ⟨bound,rfl⟩ := List.getElem?_eq_some_iff.mp listed
    have most := Int32.toInt_lt numPartitions
    rw [List.length_range] at bound
    rw [List.getElem_range,toRawPartition_sharded _ _ _ (by omega)]

/-- Two shards in a schema that is named after a scale factor. -/
theorem two_shards_roundTrip :
    RoundTrips (fun _ : Unit => Nat) Unit (s3Objects "ssb-sf0.01/" "lineorder" .parquet 2) :=
  (s3Objects_roundTrip_iff _ _ _ (by decide) _ _).mpr (Or.inl (by decide))

/-- One object in such a schema: what follows the last dot is no number. -/
theorem dotted_schema_throws :
    '.' ∉ "date".toList ∧
    toRawPartition "ssb-sf0.01/date.tbl" = none ∧
    ¬RoundTrips (fun _ : Unit => Nat) Unit (s3Objects "ssb-sf0.01/" "date" .csv 1) := by
  have thrown : toRawPartition "ssb-sf0.01/date.tbl" = none := by decide
  refine ⟨by decide,thrown,?_⟩
  intro trips
  have number := trips.number 0 "ssb-sf0.01/date.tbl" (by decide)
  rw [thrown] at number
  cases number

end RoundTrip

end Hermes.S3Partition
