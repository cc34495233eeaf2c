import Hermes.GroupKernel
import Hermes.Library.Fallible
import Mathlib.Algebra.Order.Ring.Nat

/-! The keys of rows for joins and groups, with the values of their types.
`TupleKeyElementBuilder` reads the value of an array at a row without asking whether it is null. -/
namespace Hermes.TupleKeys
open Hermes.Tuples Hermes.Group Hermes.Library.Fallible

/-- The C type of an Arrow type: floating-point numbers by their bits, a string by its bytes. Of
the types that make no key nothing is said. -/
def CType : DataType → Type
  | .int16 => Int16
  | .int32 => Int32
  | .int64 => Int64
  | .float => BitVec 32
  | .double => BitVec 64
  | .date64 => Int64
  | .string => List UInt8
  | _ => Unit

section Values

def magnitude {width : Nat} (bits : BitVec width) : Nat := bits.toNat%2^(width-1)

/-- `==` of floating-point numbers, by the bits of infinity: a NaN equals nothing, and the zeros
are equal. -/
def floatEquals {width : Nat} (infinity : Nat) (a b : BitVec width) : Bool :=
  decide (magnitude a ≤ infinity) && decide (magnitude b ≤ infinity) &&
    (decide (a = b) || decide (magnitude a = 0) && decide (magnitude b = 0))

def floatInfinity : Nat := 0x7f800000

def doubleInfinity : Nat := 0x7ff0000000000000

def same {α : Type} [DecidableEq α] (a b : α) : Bool := decide (a = b)

/-- `==` of the values of a type. -/
def equal : (type : DataType) → CType type → CType type → Bool
  | .int16,a,b => @same Int16 _ a b
  | .int32,a,b => @same Int32 _ a b
  | .int64,a,b => @same Int64 _ a b
  | .float,a,b => @floatEquals 32 floatInfinity a b
  | .double,a,b => @floatEquals 64 doubleInfinity a b
  | .date64,a,b => @same Int64 _ a b
  | .string,a,b => @same (List UInt8) _ a b
  | .boolean,_,_ | .int8,_,_ | .uint8,_,_ | .uint16,_,_ | .uint32,_,_ | .uint64,_,_ | .date32,_,_ => true

def bytes {width : Nat} (bits : BitVec width) : List UInt8 :=
  (List.range (width/8)).map fun i => UInt8.ofNat (bits.toNat/2^(8*i))

/-- `std::hash` of a floating-point number gives both zeros one hash. -/
def floatHash (hashBytes : List UInt8 → UInt64) {width : Nat} (value : BitVec width) : UInt64 :=
  if magnitude value = 0 then 0 else hashBytes (bytes value)

/-- `std::hash`, by what it makes of a string of bytes; an integer is its own hash. -/
def hashValue (hashBytes : List UInt8 → UInt64) : (type : DataType) → CType type → UInt64
  | .int16,a => (a : Int16).toInt64.toUInt64
  | .int32,a => (a : Int32).toInt64.toUInt64
  | .int64,a => (a : Int64).toUInt64
  | .float,a => @floatHash hashBytes 32 a
  | .double,a => @floatHash hashBytes 64 a
  | .date64,a => (a : Int64).toUInt64
  | .string,a => hashBytes a
  | .boolean,_ | .int8,_ | .uint8,_ | .uint16,_ | .uint32,_ | .uint64,_ | .date32,_ => 0

end Values

structure TupleKeyElement where
  type : DataType
  value : CType type

namespace TupleKeyElement

/-- The other element is cast to the type of this one; of another type it would be read as
something that it is not. -/
def equals (element other : TupleKeyElement) : Bool :=
  if same : other.type = element.type then equal element.type element.value (same ▸ other.value) else false

def hash (hashBytes : List UInt8 → UInt64) (element : TupleKeyElement) : UInt64 :=
  hashValue hashBytes element.type element.value

end TupleKeyElement

abbrev TupleKey := List TupleKeyElement

namespace TupleKey

def hash (hashBytes : List UInt8 → UInt64) (key : TupleKey) : UInt64 :=
  hashCombine (key.map (TupleKeyElement.hash hashBytes))

/-- `operator==`; the other key has as many elements. -/
def equals : TupleKey → TupleKey → Bool
  | [],_ => true
  | _::_,[] => false
  | element::elements,other::others => element.equals other && equals elements others

end TupleKey

/-- A record batch by its arrays; under a null an array still has a value. -/
structure RecordBatch (schema : List DataType) where
  numRows : Nat
  column : (c : Fin schema.length) → Fin numRows → Slot (CType (schema.get c))

variable {schema : List DataType}

/-- `TupleKeyElementBuilder::make`. -/
def makeElement (recordBatch : RecordBatch schema) (row : Fin recordBatch.numRows) (c : Fin schema.length) :
    Except String TupleKeyElement :=
  if keyable (schema.get c) then .ok ⟨schema.get c,(recordBatch.column c row).raw⟩
  else .error ("Unrecognized type " ++ typeName (schema.get c))

/-- `TupleKeyBuilder::make`. -/
def make (row : (recordBatch : RecordBatch schema) × Fin recordBatch.numRows)
    (columnIndices : List (Fin schema.length)) :
    Except String TupleKey :=
  columnIndices.mapM (makeElement row.1 row.2)

section Equality

theorem floatHash_eq {hashBytes : List UInt8 → UInt64} {width infinity : Nat} {a b : BitVec width}
    (equal : floatEquals infinity a b = true) : floatHash hashBytes a = floatHash hashBytes b := by
  simp only [floatEquals,Bool.and_eq_true,Bool.or_eq_true,decide_eq_true_eq] at equal
  rcases equal.2 with bits | ⟨zero,zero'⟩
  · rw [bits]
  · rw [floatHash,floatHash,if_pos zero,if_pos zero']

theorem hashValue_eq (hashBytes : List UInt8 → UInt64) {type : DataType} {a b : CType type}
    (equals : equal type a b = true) :
    hashValue hashBytes type a = hashValue hashBytes type b := by
  have bytewise {α : Type} [DecidableEq α] {x y : α} (both : same x y = true) : x = y := of_decide_eq_true both
  cases type with
  | float => exact floatHash_eq equals
  | double => exact floatHash_eq equals
  | int16 => rw [bytewise equals]
  | int32 => rw [bytewise equals]
  | int64 => rw [bytewise equals]
  | date64 => rw [bytewise equals]
  | string => rw [bytewise equals]
  | _ => rfl

theorem TupleKey.hash_eq (hashBytes : List UInt8 → UInt64) {key other : TupleKey} (lengths : key.length = other.length)
    (same : key.equals other = true) : key.hash hashBytes = other.hash hashBytes := by
  suffices hashes : key.map (TupleKeyElement.hash hashBytes) = other.map (TupleKeyElement.hash hashBytes) by
    rw [TupleKey.hash,TupleKey.hash,hashes]
  induction key generalizing other with
  | nil => rw [List.length_eq_zero_iff.mp lengths.symm]
  | cons element key ih =>
    cases other with
    | nil => cases lengths
    | cons other others =>
      rw [TupleKey.equals,Bool.and_eq_true,TupleKeyElement.equals] at same
      obtain ⟨here,later⟩ := same
      split at here
      · rename_i type
        obtain ⟨_,value⟩ := other
        dsimp only at type here
        subst type
        rw [List.map_cons,List.map_cons,ih (Nat.succ.inj lengths) later]
        exact congrArg (· :: _) (hashValue_eq hashBytes here)
      · cases here

end Equality

section Rows
variable (schema) in
abbrev BatchRow := (recordBatch : RecordBatch schema) × Fin recordBatch.numRows

def BatchRow.slot (row : BatchRow schema) (c : Fin schema.length) : Slot (CType (schema.get c)) := row.1.column c row.2

def RawEqual (row other : BatchRow schema) (c : Fin schema.length) : Prop :=
  equal (schema.get c) (row.slot c).raw (other.slot c).raw = true

/-- Both rows are null in the column, or both have values there and these are equal. -/
def Agree (row other : BatchRow schema) (c : Fin schema.length) : Prop :=
  (row.slot c).isValid = (other.slot c).isValid ∧ ((row.slot c).isValid = true → RawEqual row other c)

variable {row other : BatchRow schema} {columnIndices : List (Fin schema.length)}

theorem make_ok (keyed : ∀ c ∈ columnIndices, keyable (schema.get c) = true) (row : BatchRow schema) :
    make row columnIndices = .ok (columnIndices.map fun c => ⟨schema.get c,(row.slot c).raw⟩) := by
  refine mapM_eq_ok.mpr (List.forall₂_map_right_iff.mpr (List.forall₂_same.mpr ?_))
  intro c member
  rw [makeElement,if_pos (keyed c member)]
  rfl

theorem keyed_of_make {key : TupleKey} (made : make row columnIndices = .ok key) :
    ∀ c ∈ columnIndices, keyable (schema.get c) = true := by
  intro c member
  obtain ⟨_,_,here⟩ := forall₂_mem_left (mapM_eq_ok.mp made) c member
  rw [makeElement] at here
  split at here
  · assumption
  · cases here

theorem equals_iff : TupleKey.equals (columnIndices.map fun c => ⟨schema.get c,(row.slot c).raw⟩)
      (columnIndices.map fun c => ⟨schema.get c,(other.slot c).raw⟩) = true ↔
    ∀ c ∈ columnIndices, RawEqual row other c := by
  induction columnIndices with
  | nil => simp [TupleKey.equals]
  | cons c columnIndices ih =>
    rw [List.map_cons,List.map_cons,TupleKey.equals,Bool.and_eq_true,ih,List.forall_mem_cons,TupleKeyElement.equals,
      dif_pos rfl]
    rfl

variable (row other columnIndices) in
/-- The keys that are built for two rows are equal exactly if the rows agree, and equal ones have
one hash. -/
def RespectsNull (hashBytes : List UInt8 → UInt64) : Prop :=
  ∀ key key', make row columnIndices = .ok key → make other columnIndices = .ok key' →
    (key.equals key' = true ↔ ∀ c ∈ columnIndices, Agree row other c) ∧
      (key.equals key' = true → key.hash hashBytes = key'.hash hashBytes)

variable (row other columnIndices) in
/-- Rows that agree have equal values under their nulls, and rows whose arrays are equal have
their nulls in the same columns. -/
structure NullsTold : Prop where
  agreeing : (∀ c ∈ columnIndices, Agree row other c) → ∀ c ∈ columnIndices, (row.slot c).isValid = false →
    RawEqual row other c
  differing : (∀ c ∈ columnIndices, RawEqual row other c) →
    ∀ c ∈ columnIndices, (row.slot c).isValid = (other.slot c).isValid

theorem respectsNull_iff (hashBytes : List UInt8 → UInt64) : RespectsNull row other columnIndices hashBytes ↔
    ((∀ c ∈ columnIndices, keyable (schema.get c) = true) → NullsTold row other columnIndices) := by
  constructor
  · intro respects keyed
    obtain ⟨decides,_⟩ := respects _ _ (make_ok keyed row) (make_ok keyed other)
    rw [equals_iff] at decides
    refine ⟨?_,?_⟩
    · intro agree c member _
      exact decides.mpr agree c member
    · intro equal c member
      exact (decides.mp equal c member).1
  · intro told key key' made made'
    have keyed := keyed_of_make made
    obtain ⟨agreeing,differing⟩ := told keyed
    obtain rfl := Except.ok.inj ((make_ok keyed row).symm.trans made)
    obtain rfl := Except.ok.inj ((make_ok keyed other).symm.trans made')
    refine ⟨?_,TupleKey.hash_eq hashBytes (by rw [List.length_map,List.length_map])⟩
    rw [equals_iff]
    constructor
    · intro equal c member
      exact ⟨differing equal c member,fun _ => equal c member⟩
    · intro agree c member
      cases valid : (row.slot c).isValid with
      | true => exact (agree c member).2 valid
      | false => exact agreeing agree c member valid

end Rows

/-- An int32 column with a null over 0, the value 0 and a null over 7. -/
def nullsAndZero : RecordBatch [.int32] where
  numRows := 3
  column c row :=
    match c with
    | ⟨0,_⟩ => ⟨decide (row.val = 1),if row.val = 2 then (7 : Int32) else (0 : Int32)⟩

def rowOf (row : Fin 3) : BatchRow [.int32] := ⟨nullsAndZero,row⟩

def keyColumn : Fin [DataType.int32].length := Fin.mk 0 (by decide)

/-- The null over 0 has the key of the value 0, and not that of the other null. -/
theorem null_key_is_zero_key :
    ¬RespectsNull (rowOf (Fin.mk 0 (by decide))) (rowOf (Fin.mk 1 (by decide))) [keyColumn] (fun _ => 0) ∧
    ¬RespectsNull (rowOf (Fin.mk 0 (by decide))) (rowOf (Fin.mk 2 (by decide))) [keyColumn] (fun _ => 0) := by
  have key (row : Fin 3) : make (rowOf row) [keyColumn] =
      .ok [⟨.int32,((rowOf row).slot keyColumn).raw⟩] := rfl
  constructor
  · intro respects
    have agree := (respects _ _ (key _) (key _)).1.mp rfl keyColumn (by simp)
    exact absurd agree.1 (by decide)
  · intro respects
    have agree : ∀ c ∈ [keyColumn], Agree (rowOf (Fin.mk 0 (by decide))) (rowOf (Fin.mk 2 (by decide))) c := by
      intro c member
      rw [List.mem_singleton.mp member]
      exact ⟨rfl,fun wrong => absurd wrong (by decide)⟩
    have equal := (respects _ _ (key _) (key _)).1.mpr agree
    exact absurd equal (by decide)

end Hermes.TupleKeys
