import Hermes.Table
import Mathlib.Algebra.Order.Ring.Rat
import Mathlib.Data.Rat.Floor

/-! The aggregate functions, each with its three ways: complete, partial, and partial
results finalized; and the plan that takes an average apart over several instances.
Numbers are rationals, which for integer columns are integers; the sums of Arrow wrap
around as its accumulators do. -/
namespace Hermes.Aggregate
open Hermes.Tuples
variable {ρ : Type}

structure Scalar where
  type : DataType
  value : Option ℚ
deriving DecidableEq

structure ChunkedArray where
  type : DataType
  values : List (Option ℚ)
deriving DecidableEq

def ChunkedArray.valid (array : ChunkedArray) : List ℚ := array.values.filterMap id

inductive Accumulator where
  | signed
  | unsigned
  | floating
deriving DecidableEq

/-- The accumulator of a numeric type. -/
def accumulator : DataType → Option Accumulator
  | .int8 | .int16 | .int32 | .int64 => some .signed
  | .uint8 | .uint16 | .uint32 | .uint64 => some .unsigned
  | .float | .double => some .floating
  | _ => none

namespace Accumulator

def type : Accumulator → DataType
  | .signed => .int64
  | .unsigned => .uint64
  | .floating => .double

def wrap : Accumulator → ℚ → ℚ
  | .signed,number => (number.num.bmod (2^64) : ℤ)
  | .unsigned,number => (number.num%2^64 : ℤ)
  | .floating,number => number

end Accumulator

namespace Compute

def sum (array : ChunkedArray) : Except String Scalar :=
  match accumulator array.type with
  | none => .error "Function 'sum' has no kernel matching input types"
  | some accumulator => .ok ⟨accumulator.type,
      if array.valid = [] then none else some (accumulator.wrap array.valid.sum)⟩

def count (array : ChunkedArray) : Scalar := ⟨.int64,some array.valid.length⟩

def mean (array : ChunkedArray) : Except String Scalar :=
  match accumulator array.type with
  | none => .error "Function 'mean' has no kernel matching input types"
  | some accumulator => .ok ⟨.double,
      if array.valid = [] then none else some (accumulator.wrap array.valid.sum/array.valid.length)⟩

def minMax (array : ChunkedArray) : Scalar × Scalar := (⟨array.type,array.valid.min?⟩,⟨array.type,array.valid.max?⟩)

def truncate (number : ℚ) : ℚ := if 0 ≤ number then ⌊number⌋ else ⌈number⌉

def Representable (number : ℚ) : Prop := -2^53 ≤ number ∧ number ≤ 2^53

instance instDecidableRepresentable (number : ℚ) : Decidable (Representable number) :=
  inferInstanceAs (Decidable (_ ∧ _))

/-- `divide` by an `int64`. Integers are divided as `int64` and truncated. For a floating
quotient by zero there is no rational; it is an error here. -/
def divide (dividend divisor : Scalar) : Except String Scalar :=
  match accumulator dividend.type with
  | none => .error "Function 'divide' has no kernel matching input types"
  | some .floating =>
    match dividend.value,divisor.value with
    | some a,some b =>
      if ¬Representable b then .error "Integer value not in range"
      else if b = 0 then .error "not a finite number"
      else .ok ⟨.double,some (a/b)⟩
    | _,_ => .ok ⟨.double,none⟩
  | some _ =>
    match dividend.value,divisor.value with
    | some a,some b =>
      if 2^63 ≤ a then .error "Integer value not in range"
      else if b = 0 then .error "divide by zero"
      else .ok ⟨.int64,some (truncate (a/b))⟩
    | _,_ => .ok ⟨.int64,none⟩

/-- `Cast` to `float64`. -/
def castDouble (scalar : Scalar) : Except String Scalar :=
  match scalar.value with
  | none => .ok ⟨.double,none⟩
  | some number =>
    if scalar.type = .double ∨ Representable number then .ok ⟨.double,some number⟩
    else .error "Integer value not in range"

end Compute

/-- `AggregateResult`: scalars under keys. -/
abbrev AggregateResult := List (String × Scalar)

namespace AggregateResult

def put (result : AggregateResult) (key : String) (value : Scalar) : AggregateResult :=
  (key,value)::result.filter fun entry => !(entry.1 == key)

def get (result : AggregateResult) (key : String) : Except String Scalar :=
  match result.find? fun entry => entry.1 == key with
  | none => .error ("Aggregate result key not found: " ++ key)
  | some entry => .ok entry.2

end AggregateResult

/-- An expression with its type, evaluated row by row. Values of integer type are integers. -/
structure Expression (ρ : Type) where
  type : DataType
  value : ρ → Option ℚ
  numeric : ∃ accumulator', accumulator type = some accumulator'
  integral : accumulator type ≠ some .floating → ∀ row number, value row = some number → number.den = 1

/-- `evaluateExpr`. -/
def Expression.evaluate (expression : Expression ρ) (tupleSet : List ρ) : ChunkedArray :=
  ⟨expression.type,tupleSet.map expression.value⟩

/-- `COUNT` without an expression is `count(*)`. -/
inductive AggregateFunction (ρ : Type) where
  | sum (expression : Expression ρ)
  | count (expression : Option (Expression ρ))
  | minMax (isMin : Bool) (expression : Expression ρ)
  | avg (expression : Expression ρ)

/-- An array of the given type. A scalar of another type is not appended. -/
def buildFinalizeInputArray (key : String) (type : DataType) : List AggregateResult → Except String ChunkedArray
  | [] => .ok ⟨type,[]⟩
  | aggregateResult::aggregateResults =>
    match aggregateResult.get key with
    | .error message => .error message
    | .ok scalar =>
      if scalar.type = type then
        match buildFinalizeInputArray key type aggregateResults with
        | .error message => .error message
        | .ok array => .ok ⟨type,scalar.value::array.values⟩
      else .error ("Cannot append scalar of type " ++ typeText scalar.type ++ " to builder for type " ++
        typeText type)

def minMaxKey (isMin : Bool) : String := if isMin then "MIN" else "MAX"

/-- `AvgBase::finalize`, for partial sums of the type `aggColumnDataType`. -/
def finalizeAvg (aggColumnDataType : DataType) (aggregateResults : List AggregateResult) : Except String Scalar := do
  let sums ← buildFinalizeInputArray "SUM" aggColumnDataType aggregateResults
  let counts ← buildFinalizeInputArray "COUNT" .int64 aggregateResults
  let finalSum ← Compute.sum sums
  let finalCount ← Compute.sum counts
  let avg ← Compute.divide finalSum finalCount
  Compute.castDouble avg

namespace AggregateFunction

def computeComplete (function : AggregateFunction ρ) (tupleSet : List ρ) : Except String Scalar :=
  match function with
  | .sum expression => Compute.sum (expression.evaluate tupleSet)
  | .count none => .ok ⟨.int64,some tupleSet.length⟩
  | .count (some expression) => .ok (Compute.count (expression.evaluate tupleSet))
  | .minMax isMin expression =>
    let result := Compute.minMax (expression.evaluate tupleSet)
    .ok (if isMin then result.1 else result.2)
  | .avg expression => do
    let avg ← Compute.mean (expression.evaluate tupleSet)
    Compute.castDouble avg

def computePartial (function : AggregateFunction ρ) (tupleSet : List ρ) : Except String AggregateResult :=
  match function with
  | .sum _ => do
    let result ← function.computeComplete tupleSet
    return AggregateResult.put [] "SUM" result
  | .count _ => do
    let result ← function.computeComplete tupleSet
    return AggregateResult.put [] "COUNT" result
  | .minMax isMin _ => do
    let result ← function.computeComplete tupleSet
    return AggregateResult.put [] (minMaxKey isMin) result
  | .avg expression => do
    let sum ← Compute.sum (expression.evaluate tupleSet)
    return (AggregateResult.put [] "SUM" sum).put "COUNT" (Compute.count (expression.evaluate tupleSet))

def finalize (function : AggregateFunction ρ) (aggregateResults : List AggregateResult) : Except String Scalar :=
  match function with
  | .sum expression => do
    let array ← buildFinalizeInputArray "SUM" expression.type aggregateResults
    Compute.sum array
  | .count _ => do
    let array ← buildFinalizeInputArray "COUNT" .int64 aggregateResults
    Compute.sum array
  | .minMax isMin expression => do
    let array ← buildFinalizeInputArray (minMaxKey isMin) expression.type aggregateResults
    return if isMin then (Compute.minMax array).1 else (Compute.minMax array).2
  | .avg expression => finalizeAvg expression.type aggregateResults

def compose (function : AggregateFunction ρ) (pieces : List (List ρ)) : Except String Scalar := do
  let aggregateResults ← pieces.mapM function.computePartial
  function.finalize aggregateResults

end AggregateFunction

/-- A column of one row, as `AggregatePOp::finalize` makes it of a final result: of three
types only, and with the scalar's value also where it is null. -/
def makeColumn (type : DataType) (finalResult : Scalar) : Except String ChunkedArray :=
  if type = .int32 ∨ type = .int64 ∨ type = .double then .ok ⟨type,[some (finalResult.value.getD 0)]⟩
  else .error ("Unsupported aggregate output field type " ++ typeName type)

/-- The sum and the count that one instance hands on. -/
def instanceColumns (expression : Expression ρ) (pieces : List (List ρ)) :
    Except String (ChunkedArray × ChunkedArray) := do
  let sum ← (AggregateFunction.sum expression).compose pieces
  let count ← (AggregateFunction.count (some expression)).compose pieces
  let sumColumn ← makeColumn expression.type sum
  let countColumn ← makeColumn .int64 count
  return (sumColumn,countColumn)

namespace AvgReduce

def computePartial (input : ChunkedArray × ChunkedArray) : Except String AggregateResult := do
  let sum ← Compute.sum input.1
  let count ← Compute.sum input.2
  return (AggregateResult.put [] "SUM" sum).put "COUNT" count

end AvgReduce

/-- The plan of `transformAggregate` for an average: one instance averages by itself, the
results of several are reduced. -/
def averagePlan (expression : Expression ρ) (instances : List (List (List ρ))) : Except String Scalar :=
  match instances with
  | [pieces] => (AggregateFunction.avg expression).compose pieces
  | instances => do
    let inputs ← instances.mapM (instanceColumns expression)
    let aggregateResults ← inputs.mapM AvgReduce.computePartial
    finalizeAvg expression.type aggregateResults

end Hermes.Aggregate
