import Hermes.GandivaExpression
import Hermes.RexNode
import Hermes.Table

/-! The expression that the executor reads from the JSON of the optimizer. An error is an exception of the C++ code, or
the use of an operand that is not there. -/
namespace Hermes.Calcite.CalcitePlanJsonDeserializer
open Gandiva Tuples

/-- A number that is read into a C++ integer of the given width. -/
def getInteger (width : Nat) : JsonValue → Except String (Option Int)
  | .null => .ok none
  | .integer value => .ok (some (value.bmod (2^width)))
  | .double value => .ok (some ((value.num.tdiv value.den).bmod (2^width)))
  | _ => .error "type_error"

def getDouble : JsonValue → Except String (Option ℚ)
  | .null => .ok none
  | .integer value => .ok (some value)
  | .double value => .ok (some value)
  | _ => .error "type_error"

def getString : JsonValue → Except String (Option String)
  | .null => .ok none
  | .string value => .ok (some value)
  | _ => .error "type_error"

def getBoolean : JsonValue → Except String (Option Bool)
  | .null => .ok none
  | .boolean value => .ok (some value)
  | _ => .error "type_error"

/-- Integers of all widths become 64-bit literals. -/
def deserializeLiteral (type : String) (value : JsonValue) : Except String Expression :=
  if type = "CHAR" ∨ type = "VARCHAR" then do .ok (.literal (.string (← getString value)))
  else if type = "INTEGER" then do .ok (.literal (.int64 (← getInteger 32 value)))
  else if type = "BIGINT" then do .ok (.literal (.int64 (← getInteger 64 value)))
  else if type = "DOUBLE" ∨ type = "DECIMAL" then do .ok (.literal (.double (← getDouble value)))
  else if type = "BOOLEAN" then do .ok (.literal (.boolean (← getBoolean value)))
  else if type = "DATE_MS" then do .ok (.literal (.date64 (← getInteger 64 value)))
  else if type = "INTERVAL_DAY" then do .ok (.literal (.int32 (← getInteger 32 value) (some .day)))
  else if type = "INTERVAL_MONTH" then do .ok (.literal (.int32 (← getInteger 32 value) (some .month)))
  else .error ("Unsupported literal type, " ++ type)

def isDate64 : Expression → Bool
  | .literal (.date64 _) => true
  | _ => false

/-- The value and the interval of an Int32 literal. -/
def int32Literal? : Expression → Option (Option Int × Option DateIntervalType)
  | .literal (.int32 value intervalType) => some (value,intervalType)
  | _ => none

def datePlusMinus (opName : String) (leftExpr rightExpr : Expression) : Except String Expression :=
  match (int32Literal? leftExpr).or (int32Literal? rightExpr) with
  | none => .error "not an interval literal"
  | some (_,none) => .error "Invalid date plus/minus operation, interval not found"
  | some (_,some intervalType) =>
    if opName = "MINUS" then
      match rightExpr with
      | .literal (.int32 (some value) interval) =>
        .ok (.dateAdd leftExpr (.literal (.int32 (some (-value)) interval)) intervalType)
      | .literal (.int32 none _) => .error "Cannot make opposite on null literal"
      | _ => .error "Invalid date minus operation, subtrahend is not an interval"
    else .ok (.dateAdd leftExpr rightExpr intervalType)

/-- The operations of two operands, apart from dates. -/
def binaryKind? (opName : String) : Option BinaryKind :=
  if opName = "PLUS" then some .add
  else if opName = "MINUS" then some .subtract
  else if opName = "TIMES" then some .multiply
  else if opName = "DIVIDE" then some .divide
  else if opName = "EQUALS" then some .equalTo
  else if opName = "NOT_EQUALS" then some .notEqualTo
  else if opName = "LESS_THAN" then some .lessThan
  else if opName = "GREATER_THAN" then some .greaterThan
  else if opName = "LESS_THAN_OR_EQUAL" then some .lessThanOrEqualTo
  else if opName = "GREATER_THAN_OR_EQUAL" then some .greaterThanOrEqualTo
  else if opName = "LIKE" then some .like
  else none

def operand (exprs : List (Except String Expression)) (place : Nat) : Except String Expression :=
  exprs[place]?.getD (.error "no such operand")

def deserializeBinaryOperation (opName : String) (kind : BinaryKind) (exprs : List (Except String Expression)) :
    Except String Expression := do
  let leftExpr ← operand exprs 0
  let rightExpr ← operand exprs 1
  if (opName = "PLUS" ∨ opName = "MINUS") ∧ (isDate64 leftExpr ∨ isDate64 rightExpr) then
    datePlusMinus opName leftExpr rightExpr
  else .ok (.binary kind leftExpr rightExpr)

def inValues (type : String) (values : List JsonValue) : Except String InValues :=
  if type = "CHAR" ∨ type = "VARCHAR" then do
    .ok (.string ((← values.mapM getString).filterMap id))
  else if type = "INTEGER" ∨ type = "BIGINT" then do
    .ok (.int64 ((← values.mapM (getInteger 64)).filterMap id))
  else if type = "DECIMAL" then do
    .ok (.double ((← values.mapM getDouble).filterMap id))
  else if type = "DATE_MS" then do
    .ok (.date64 ((← values.mapM (getInteger 64)).filterMap id))
  else .error ("Unsupported literal type, " ++ type)

def deserializeInOperation (operands : List RexJson) (exprs : List (Except String Expression)) :
    Except String Expression := do
  let leftExpr ← operand exprs 0
  match operands with
  | _::.literals type values::_ => do .ok (.in leftExpr (← inValues type values))
  | _ => .error "type_error"

def deserializeExtractOperation (operands : List RexJson) (exprs : List (Except String Expression)) :
    Except String Expression := do
  let dateExpr ← operand exprs 1
  match operands with
  | .literal type value::_ =>
    if type = "SYMBOL" then
      if value = .string "DAY" then .ok (.dateExtract dateExpr .day)
      else if value = .string "MONTH" then .ok (.dateExtract dateExpr .month)
      else if value = .string "YEAR" then .ok (.dateExtract dateExpr .year)
      else .error "Unsupported extract literal symbol"
    else .error "Unsupported extract, extract literal type is not symbol"
  | _ => .error "Unsupported extract, no literal to extract"

/-- An operation from its operands and what is made of each of them. -/
def deserializeOperation (opName : String) (operands : List RexJson) (exprs : List (Except String Expression)) :
    Except String Expression :=
  if opName = "AND" then do .ok (.and (← exprs.mapM id))
  else if opName = "OR" then do .ok (.or (← exprs.mapM id))
  else if opName = "NOT" then do .ok (.not (← operand exprs 0))
  else
    match binaryKind? opName with
    | some kind => deserializeBinaryOperation opName kind exprs
    | none =>
      if opName = "IN" then deserializeInOperation operands exprs
      else if opName = "EXTRACT" then deserializeExtractOperation operands exprs
      else if opName = "IS_NULL" then do .ok (.isNull (← operand exprs 0))
      else if opName = "SUBSTRING" then do .ok (.substr (← operand exprs 0) (← operand exprs 1) (← operand exprs 2))
      else .error ("Unsupported expression type, " ++ opName)

mutual
def deserializeExpression : RexJson → Except String Expression
  | .inputRef name => .ok (.column (canonicalize name))
  | .literal type value => deserializeLiteral type value
  | .operation opName operands => deserializeOperation opName operands (deserializeAll operands)
  | .conditional opName (.branches ifJson thenJson elseJson) => do
    if opName = "CASE" then
      .ok (.if (← deserializeExpression ifJson) (← deserializeExpression thenJson) (← deserializeExpression elseJson))
    else .error ("Unsupported expression type, " ++ opName)
  | .conditional _ _ => .error "type_error"
  | .literals _ _ => .error "Unsupported expression type, only column, literal and operation are supported"
  | .branches _ _ _ => .error "Unsupported expression type, only column, literal and operation are supported"
  termination_by structural json => json

def deserializeAll : List RexJson → List (Except String Expression)
  | [] => []
  | json::operands => deserializeExpression json::deserializeAll operands
  termination_by structural operands => operands
end

end Hermes.Calcite.CalcitePlanJsonDeserializer
