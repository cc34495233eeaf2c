import Hermes.S3Partition
import Mathlib.Tactic.IntervalCases

/-! The object that a scan asks for. With the global flag set it takes the partition's number
off the name of a `lineorder` object, one or two characters of it, and writes it behind again. -/
namespace Hermes.BatchedObjectKey

/-- The name without its last characters, and the number they are read as. `back` of an empty
string is undefined. -/
def takePartition (s3Object : List Char) : Option (List Char × Int) := do
  let partition_a ← s3Object.getLast?
  let s3Object := s3Object.dropLast
  let partition_b ← s3Object.getLast?
  if partition_b ≠ '.' then
    some (s3Object.dropLast,((partition_b.toNat : Int)-48)*10+(partition_a.toNat : Int)-48)
  else some (s3Object,(partition_a.toNat : Int)-48)

def offsets : List Int := [0]

/-- The keys that `readAndSendTuples` requests, and `s3Object_` behind the last request. -/
def requestedKeys (flag : Bool) (tableName s3Object : String) : Option (List String × String) :=
  if !flag then some ([s3Object],s3Object)
  else if tableName = "lineorder" then
    (takePartition s3Object.toList).map fun (s3ObjectPath,partition) =>
      let keys := offsets.map fun offset => String.ofList s3ObjectPath ++ toString (partition+offset)
      (keys,keys.getLast?.getD (String.ofList s3ObjectPath))
  else some ([s3Object],s3Object)

section Digits

theorem digitChar_toNat {d : Nat} (digit : d < 10) : ((Nat.digitChar d).toNat : Int) = 48+d := by
  rw [Nat.toNat_digitChar_of_lt_ten digit]
  omega

theorem digitChar_ne_dot {d : Nat} (digit : d < 10) : Nat.digitChar d ≠ '.' := by
  intro same
  have value := digitChar_toNat digit
  rw [same] at value
  have code : (('.' : Char).toNat : Int) = 46 := by decide
  omega

theorem takePartition_one (first : List Char) {d : Nat} (digit : d < 10) :
    takePartition (first ++ ['.',Nat.digitChar d]) = some (first ++ ['.'],(d : Int)) := by
  have split : first ++ ['.',Nat.digitChar d] = (first ++ ['.']) ++ [Nat.digitChar d] := by simp
  have value := digitChar_toNat digit
  rw [takePartition,split,List.getLast?_concat,List.dropLast_concat]
  simp only [Option.bind_eq_bind,Option.bind_some,List.getLast?_concat,ne_eq,not_true_eq_false,if_false,
    Option.some.injEq,
    Prod.mk.injEq,true_and]
  omega

theorem takePartition_two (first : List Char) {d e : Nat} (tens : d < 10) (ones : e < 10) :
    takePartition (first ++ [Nat.digitChar d,Nat.digitChar e]) = some (first,((10*d+e : Nat) : Int)) := by
  have split : first ++ [Nat.digitChar d,Nat.digitChar e] = (first ++ [Nat.digitChar d]) ++ [Nat.digitChar e] := by simp
  have high := digitChar_toNat tens
  have low := digitChar_toNat ones
  rw [takePartition,split,List.getLast?_concat,List.dropLast_concat]
  simp only [Option.bind_eq_bind,Option.bind_some,List.getLast?_concat,ne_eq,digitChar_ne_dot tens,not_false_eq_true,
    if_true,
    List.dropLast_concat,Option.some.injEq,Prod.mk.injEq,true_and]
  omega

theorem toDigits_hundreds {i : Nat} (large : 100 ≤ i) :
    Nat.toDigits 10 i = Nat.toDigits 10 (i/100) ++ [Nat.digitChar (i%100/10),Nat.digitChar (i%10)] := by
  rw [Nat.toDigits_of_base_le (by decide) (by omega : 10 ≤ i),
    Nat.toDigits_of_base_le (by decide) (by omega : 10 ≤ i/10),
    List.append_assoc,Nat.div_div_eq_div_mul]
  have tens : i/10%10 = i%100/10 := by omega
  rw [tens]
  rfl

theorem toDigits_two {i : Nat} (low : 10 ≤ i) (high : i < 100) :
    Nat.toDigits 10 i = [Nat.digitChar (i/10),Nat.digitChar (i%10)] := by
  rw [Nat.toDigits_of_base_le (by decide) low,Nat.toDigits_of_lt_base (by omega : i/10 < 10)]
  rfl

end Digits

section Names

theorem requestedKeys_eq {s3Object : String} {s3ObjectPath : List Char} {partition : Nat}
    (taken : takePartition s3Object.toList = some (s3ObjectPath,(partition : Int))) :
    requestedKeys true "lineorder" s3Object =
      some ([String.ofList s3ObjectPath ++ toString partition],String.ofList s3ObjectPath ++ toString partition) := by
  have same : Int.repr (partition : Int) = Nat.repr partition := rfl
  simp [requestedKeys,taken,offsets,same]

variable (first : String) {i : Nat}

theorem toList_numbered : (first ++ "." ++ toString i).toList = first.toList ++ '.' :: Nat.toDigits 10 i := by simp

theorem requestedKeys_small (small : i < 100) :
    requestedKeys true "lineorder" (first ++ "." ++ toString i) =
      some ([first ++ "." ++ toString i],first ++ "." ++ toString i) := by
  have whole : String.ofList (first.toList ++ ['.']) = first ++ "." := by
    apply String.toList_inj.mp
    simp
  by_cases low : i < 10
  · have taken := takePartition_one first.toList low
    rw [← Nat.toDigits_of_lt_base (b := 10) low,← toList_numbered] at taken
    rw [requestedKeys_eq taken,whole]
  · have taken := takePartition_two (first.toList ++ ['.']) (by omega : i/10 < 10) (by omega : i%10 < 10)
    rw [List.append_assoc,List.singleton_append,← toDigits_two (by omega) small,← toList_numbered,
      Nat.div_add_mod] at taken
    rw [requestedKeys_eq taken,whole]

theorem requestedKeys_large (large : 100 ≤ i) :
    requestedKeys true "lineorder" (first ++ "." ++ toString i) =
      some ([first ++ "." ++ toString (i/100) ++ toString (i%100)],first ++ "." ++ toString (i/100) ++
        toString (i%100)) := by
  have taken := takePartition_two (first.toList ++ '.' :: Nat.toDigits 10 (i/100)) (by omega : i%100/10 < 10)
      (by omega : i%10 < 10)
  rw [List.append_assoc,List.cons_append,← toDigits_hundreds large,← toList_numbered] at taken
  have number : 10*(i%100/10)+i%10 = i%100 := by omega
  have path : String.ofList (first.toList ++ '.' :: Nat.toDigits 10 (i/100)) = first ++ "." ++ toString (i/100) := by
    apply String.toList_inj.mp
    simp
  rw [number] at taken
  rw [requestedKeys_eq taken,path]

/-- The key is the name again unless the last two digits of a longer number begin with a zero. -/
theorem rebuilt_iff (partition : Nat) :
    requestedKeys true "lineorder" (first ++ "." ++ toString partition) =
        requestedKeys false "lineorder" (first ++ "." ++ toString partition) ↔
      partition < 100 ∨ 10 ≤ partition%100 := by
  have direct : requestedKeys false "lineorder" (first ++ "." ++ toString partition) =
    some ([first ++ "." ++ toString partition],first ++ "." ++ toString partition) := rfl
  rw [direct]
  rcases Nat.lt_or_ge partition 100 with small | large
  · exact iff_of_true (requestedKeys_small first small) (Or.inl small)
  · rw [requestedKeys_large first large,Option.some.injEq,Prod.mk.injEq,List.cons.injEq,and_iff_left rfl,and_self,
      or_iff_right (Nat.not_lt.mpr large),← String.toList_inj,toList_numbered]
    have digits : (first ++ "." ++ toString (partition/100) ++ toString (partition%100)).toList =
        first.toList ++ '.' :: (Nat.toDigits 10 (partition/100) ++ Nat.toDigits 10 (partition%100)) := by simp
    rw [digits,toDigits_hundreds large,List.append_cancel_left_eq,List.cons.injEq,and_iff_right rfl,
      List.append_cancel_left_eq]
    rcases Nat.lt_or_ge (partition%100) 10 with short | long
    · rw [Nat.toDigits_of_lt_base short]
      exact iff_of_false (by simp) (Nat.not_le.mpr short)
    · have ones : partition%100%10 = partition%10 := by omega
      rw [toDigits_two long (Nat.mod_lt _ (by decide)),ones]
      exact iff_of_true rfl long

end Names

/-- Partition 105 is asked for as partition 15. -/
theorem partition_105_read_as_15 :
    requestedKeys true "lineorder" "lineorder.parquet.105" = some (["lineorder.parquet.15"],"lineorder.parquet.15") ∧
    requestedKeys true "lineorder" ("lineorder.parquet" ++ "." ++ toString 105) ≠
      requestedKeys false "lineorder" ("lineorder.parquet" ++ "." ++ toString 105) := by
  decide

end Hermes.BatchedObjectKey
