import Mathlib.Data.List.Basic
import Mathlib.Data.Rat.Defs

/-! The expressions that the executor evaluates. -/
namespace Hermes.Gandiva

inductive DateIntervalType where
  | day
  | month
  | year
  deriving DecidableEq

/-- The literals by their Arrow type; a value that is absent is null. -/
inductive Literal where
  | string (value : Option String)
  | int32 (value : Option Int) (intervalType : Option DateIntervalType)
  | int64 (value : Option Int)
  | double (value : Option ℚ)
  | boolean (value : Option Bool)
  | date64 (value : Option Int)
  deriving DecidableEq

/-- The values of an `In`, whose C++ set has no order. -/
inductive InValues where
  | int32 (values : List Int)
  | int64 (values : List Int)
  | double (values : List ℚ)
  | string (values : List String)
  | date64 (values : List Int)
  deriving DecidableEq

inductive BinaryKind where
  | add
  | subtract
  | multiply
  | divide
  | equalTo
  | notEqualTo
  | lessThan
  | greaterThan
  | lessThanOrEqualTo
  | greaterThanOrEqualTo
  | like
  deriving DecidableEq

inductive Expression where
  | column (columnName : String)
  | literal (value : Literal)
  | and (exprs : List Expression)
  | or (exprs : List Expression)
  | not (expr : Expression)
  | binary (kind : BinaryKind) (left right : Expression)
  | dateAdd (left right : Expression) (intervalType : DateIntervalType)
  | in (left : Expression) (values : InValues)
  | if (ifExpr thenExpr elseExpr : Expression)
  | dateExtract (dateExpr : Expression) (intervalType : DateIntervalType)
  | isNull (expr : Expression)
  | substr (expr fromLit forLit : Expression)

namespace Expression

mutual
/-- The C++ set is the list of its names. -/
def involvedColumnNames : Expression → List String
  | column columnName => [columnName]
  | literal _ => []
  | and exprs => involvedOfAll exprs
  | or exprs => involvedOfAll exprs
  | not expr => involvedColumnNames expr
  | binary _ left right => involvedColumnNames left ∪ involvedColumnNames right
  | dateAdd left right _ => involvedColumnNames left ∪ involvedColumnNames right
  | .in left _ => involvedColumnNames left
  | .if ifExpr thenExpr elseExpr =>
    involvedColumnNames ifExpr ∪ involvedColumnNames thenExpr ∪ involvedColumnNames elseExpr
  | dateExtract dateExpr _ => involvedColumnNames dateExpr
  | isNull expr => involvedColumnNames expr
  | substr expr fromLit forLit =>
    involvedColumnNames expr ∪ involvedColumnNames fromLit ∪ involvedColumnNames forLit
  termination_by structural expression => expression

def involvedOfAll : List Expression → List String
  | [] => []
  | expr::exprs => involvedColumnNames expr ∪ involvedOfAll exprs
  termination_by structural exprs => exprs
end

end Expression
end Hermes.Gandiva
