import Mathlib.Algebra.Order.Ring.Rat

/-! Row expressions of the optimizer, and the JSON objects they are sent as. -/
namespace Hermes.Calcite

inductive SqlTypeName where
  | char
  | varchar
  | integer
  | bigint
  | double
  | decimal
  | boolean
  | date
  | intervalDay
  | intervalYear
  | intervalMonth
  | symbol
  | other (name : String)
  deriving DecidableEq

namespace SqlTypeName

def name : SqlTypeName → String
  | char => "CHAR"
  | varchar => "VARCHAR"
  | integer => "INTEGER"
  | bigint => "BIGINT"
  | double => "DOUBLE"
  | decimal => "DECIMAL"
  | boolean => "BOOLEAN"
  | date => "DATE"
  | intervalDay => "INTERVAL_DAY"
  | intervalYear => "INTERVAL_YEAR"
  | intervalMonth => "INTERVAL_MONTH"
  | symbol => "SYMBOL"
  | other name => name

end SqlTypeName

/-- The value of a literal: a number is exact, a date counts milliseconds, an interval milliseconds or months. -/
inductive RexValue where
  | string (value : String)
  | number (value : ℚ)
  | boolean (value : Bool)
  | date (millisSinceEpoch : Int)
  | timeUnitRange (name : String)
  deriving DecidableEq

inductive BoundType where
  | open
  | closed
  deriving DecidableEq

structure Range where
  lower : Option (RexValue × BoundType)
  upper : Option (RexValue × BoundType)
  deriving DecidableEq

/-- What a search is for a null: the unknown value, or a fixed one. -/
inductive NullAs where
  | unknown
  | true
  | false
  deriving DecidableEq

structure Sarg where
  rangeSet : List Range
  nullAs : NullAs
  deriving DecidableEq

inductive SqlKind where
  | lessThan
  | greaterThan
  | lessThanOrEqual
  | greaterThanOrEqual
  | equals
  | notEquals
  | and
  | or
  | not
  | plus
  | minus
  | times
  | divide
  | like
  | extract
  | isNull
  | case
  | isTrue
  | isFalse
  | isNotTrue
  | isNotFalse
  | in
  | other (name : String)
  deriving DecidableEq

namespace SqlKind

def name : SqlKind → String
  | lessThan => "LESS_THAN"
  | greaterThan => "GREATER_THAN"
  | lessThanOrEqual => "LESS_THAN_OR_EQUAL"
  | greaterThanOrEqual => "GREATER_THAN_OR_EQUAL"
  | equals => "EQUALS"
  | notEquals => "NOT_EQUALS"
  | and => "AND"
  | or => "OR"
  | not => "NOT"
  | plus => "PLUS"
  | minus => "MINUS"
  | times => "TIMES"
  | divide => "DIVIDE"
  | like => "LIKE"
  | extract => "EXTRACT"
  | isNull => "IS_NULL"
  | case => "CASE"
  | isTrue => "IS_TRUE"
  | isFalse => "IS_FALSE"
  | isNotTrue => "IS_NOT_TRUE"
  | isNotFalse => "IS_NOT_FALSE"
  | .in => "IN"
  | other name => name

end SqlKind

inductive RexNode where
  | inputRef (index : Nat)
  | literal (typeName : SqlTypeName) (value : Option RexValue)
  | call (kind : SqlKind) (operands : List RexNode)
  | otherFunction (name : String) (operands : List RexNode)
  | search (operand : RexNode) (typeName : SqlTypeName) (sarg : Option Sarg)

inductive JsonValue where
  | string (value : String)
  | integer (value : Int)
  | double (value : ℚ)
  | boolean (value : Bool)
  | null
  deriving DecidableEq

/-- The objects that stand for an expression or a part of one, by the keys they have. -/
inductive RexJson where
  | inputRef (name : String)
  | literal (type : String) (value : JsonValue)
  | literals (type : String) (values : List JsonValue)
  | operation (op : String) (operands : List RexJson)
  | conditional (op : String) (condition : RexJson)
  | branches (ifJson thenJson elseJson : RexJson)

end Hermes.Calcite
