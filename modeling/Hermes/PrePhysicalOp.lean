import Hermes.GandivaExpression
import Hermes.NestedLoopJoinKernel
import Mathlib.Data.List.Dedup

/-! The operators of a plan before it is made physical. A C++ set of column names is the list of its names. -/
namespace Hermes.Prephysical
open Gandiva Join

structure Table where
  name : String
  columnNames : List String
  deriving DecidableEq

inductive SortOrder where
  | ascending
  | descending
  deriving DecidableEq

structure SortKey where
  name : String
  order : SortOrder
  deriving DecidableEq

inductive AggregatePrePFunctionType where
  | sum
  | count
  | max
  | min
  | avg
  deriving DecidableEq

structure AggregatePrePFunction where
  type : AggregatePrePFunctionType
  expression : Option Expression

def countStarColumn : String := "COUNT_*"

/-- Without an expression only a count is of anything. -/
def AggregatePrePFunction.involvedColumnNames (function : AggregatePrePFunction) : List String :=
  match function.expression with
  | some expression => expression.involvedColumnNames
  | none => if function.type = .count then [countStarColumn] else []

/-- An operator with its project columns and its producers. -/
inductive PrePhysicalOp where
  | sort (projectColumnNames : List String) (sortKeys : List SortKey) (producer : PrePhysicalOp)
  | limitSort (projectColumnNames : List String) (k : Int) (sortKeys : List SortKey) (producer : PrePhysicalOp)
  | aggregate (projectColumnNames aggOutputColumnNames : List String) (functions : List AggregatePrePFunction)
    (producer : PrePhysicalOp)
  | group (projectColumnNames groupColumnNames aggOutputColumnNames : List String)
    (functions : List AggregatePrePFunction) (producer : PrePhysicalOp)
  | project (projectColumnNames : List String) (exprs : List Expression) (exprNames : List String)
    (projectColumnNamePairs : List (String × String)) (producer : PrePhysicalOp)
  | filter (projectColumnNames : List String) (predicate : Expression) (producer : PrePhysicalOp)
  | hashJoin (projectColumnNames : List String) (joinType : JoinType) (leftColumnNames rightColumnNames : List String)
    (left right : PrePhysicalOp)
  | nestedLoopJoin (projectColumnNames : List String) (joinType : JoinType) (predicate : Option Expression)
    (left right : PrePhysicalOp)
  | filterableScan (projectColumnNames : List String) (table : Table) (predicate : Option Expression)

namespace PrePhysicalOp

def getProjectColumnNames : PrePhysicalOp → List String
  | sort names _ _ => names
  | limitSort names _ _ _ => names
  | aggregate names _ _ _ => names
  | group names _ _ _ _ => names
  | project names _ _ _ _ => names
  | filter names _ _ => names
  | hashJoin names _ _ _ _ _ => names
  | nestedLoopJoin names _ _ _ _ => names
  | filterableScan names _ _ => names

def involvedOfFunctions (functions : List AggregatePrePFunction) : List String :=
  functions.flatMap AggregatePrePFunction.involvedColumnNames

def getUsedColumnNames : PrePhysicalOp → List String
  | sort names sortKeys _ => names ++ sortKeys.map SortKey.name
  | limitSort names _ sortKeys _ => names ++ sortKeys.map SortKey.name
  | aggregate _ _ functions _ => involvedOfFunctions functions
  | group _ groupColumnNames _ functions _ => groupColumnNames ++ involvedOfFunctions functions
  | project names exprs _ pairs _ => names ++ pairs.map Prod.fst ++ exprs.flatMap Expression.involvedColumnNames
  | filter names predicate _ => names ++ predicate.involvedColumnNames
  | hashJoin names _ leftColumnNames rightColumnNames _ _ => names ++ leftColumnNames ++ rightColumnNames
  | nestedLoopJoin names _ predicate _ _ => names ++ (predicate.map Expression.involvedColumnNames).getD []
  | filterableScan names _ predicate => names ++ (predicate.map Expression.involvedColumnNames).getD []

/-- Names that no pair or expression gives are passed on as they are, and pairs whose name is not asked for are dropped. -/
def updateProjectColumnNamePairs (exprNames : List String) (pairs : List (String × String)) (names : List String) :
    List (String × String) :=
  let columnFromNamePairsAndExprs := exprNames ++ pairs.map Prod.snd
  let added := (names.filter fun name => !columnFromNamePairsAndExprs.contains name).dedup
  (pairs ++ added.map fun name => (name,name)).filter fun pair => names.contains pair.2

/-- A scan of no column reads the first one. -/
def setProjectColumnNames (names : List String) : PrePhysicalOp → PrePhysicalOp
  | sort _ sortKeys producer => sort names sortKeys producer
  | limitSort _ k sortKeys producer => limitSort names k sortKeys producer
  | aggregate _ outputs functions producer => aggregate names outputs functions producer
  | group _ groupColumnNames outputs functions producer => group names groupColumnNames outputs functions producer
  | project _ exprs exprNames pairs producer =>
    project names exprs exprNames (updateProjectColumnNamePairs exprNames pairs names) producer
  | filter _ predicate producer => filter names predicate producer
  | hashJoin _ joinType leftColumnNames rightColumnNames left right =>
    hashJoin names joinType leftColumnNames rightColumnNames left right
  | nestedLoopJoin _ joinType predicate left right => nestedLoopJoin names joinType predicate left right
  | filterableScan _ table predicate =>
    filterableScan (if names = [] then table.columnNames.take 1 else names) table predicate

section Pairs
variable {exprNames names : List String} {pairs : List (String × String)}

theorem updateProjectColumnNamePairs_given (given : names ⊆ exprNames ++ pairs.map Prod.snd) :
    updateProjectColumnNamePairs exprNames pairs names = pairs.filter fun pair => names.contains pair.2 := by
  have known : names.filter (fun name => !(exprNames ++ pairs.map Prod.snd).contains name) = [] := by
    refine List.filter_eq_nil_iff.mpr fun name inside => ?_
    have here : (exprNames ++ pairs.map Prod.snd).contains name = true := List.elem_iff.mpr (given inside)
    rw [here]
    exact Bool.false_ne_true
  rw [updateProjectColumnNamePairs,known,List.dedup_nil,List.map_nil,List.append_nil]

theorem updateProjectColumnNamePairs_named (same : ∀ name, name ∈ names ↔ name ∈ exprNames ++ pairs.map Prod.snd) :
    updateProjectColumnNamePairs exprNames pairs names = pairs := by
  rw [updateProjectColumnNamePairs_given fun name => (same name).mp,List.filter_eq_self]
  intro pair inside
  exact List.elem_iff.mpr ((same _).mpr (List.mem_append_right _ (List.mem_map_of_mem inside)))

end Pairs

end PrePhysicalOp
end Hermes.Prephysical
