import Hermes.PrePhysicalOp
import Mathlib.Data.List.Sort

/-! What a plan is for: the rows that its operators give, whatever the expressions, the aggregates and the order of values are. -/
namespace Hermes.Prephysical
open Gandiva Join

abbrev Record (ν : Type) := String → Option ν

namespace Record
variable {ν : Type}

def restrict (keep : String → Bool) (record : Record ν) :
    Record ν := fun name => if keep name then record name else none

def merge (left right : Record ν) : Record ν := fun name => (left name).or (right name)

def ofColumns (columns : List (String × Option ν)) : Record ν := fun name => (columns.lookup name).join

end Record

/-- The parts of a query's meaning that do not depend on the plan. -/
structure Meaning (ν : Type) where
  scan : Table → List (Record ν)
  value : Expression → Record ν → Option ν
  holds : Expression → Record ν → Bool
  aggregate : AggregatePrePFunctionType → List (Option ν) → Option ν
  count : Nat → Option ν
  inOrder : List SortKey → List (Option ν) → List (Option ν) → Bool
  sameKeys : List (Option ν) → List (Option ν) → Bool
  value_congr : ∀ expression first second,
    (∀ name ∈ expression.involvedColumnNames,first name = second name) →
      value expression first = value expression second
  holds_congr : ∀ expression first second,
    (∀ name ∈ expression.involvedColumnNames,first name = second name) →
      holds expression first = holds expression second

variable {ν : Type}

def emit (names : List String) (rows : List (Record ν)) : List (Record ν) :=
  if names = [] then [] else rows.map (Record.restrict names.contains)

def joinRows (joinType : JoinType) (matching : Record ν → Record ν → Bool) (left right : List (Record ν)) :
    List (Record ν) :=
  let matched := left.flatMap fun l => (right.filter (matching l)).map l.merge
  let leftOnly := left.filter fun l => !right.any (matching l)
  let rightOnly := right.filter fun r => !left.any fun l => matching l r
  match joinType with
  | .inner => matched
  | .left => matched ++ leftOnly
  | .right => matched ++ rightOnly
  | .full => matched ++ leftOnly ++ rightOnly
  | .semi => left.filter fun l => right.any (matching l)

namespace Meaning
variable (meaning : Meaning ν)

def sorted (sortKeys : List SortKey) (rows : List (Record ν)) : List (Record ν) :=
  rows.insertionSort fun first second =>
    meaning.inOrder sortKeys (sortKeys.map fun key => first key.name) (sortKeys.map fun key => second key.name) = true

def functionValue (rows : List (Record ν)) (function : AggregatePrePFunction) : Option ν :=
  match function.expression with
  | some expression => meaning.aggregate function.type (rows.map (meaning.value expression))
  | none => if function.type = .count then meaning.count rows.length else none

def aggregated (outputs : List String) (functions : List AggregatePrePFunction) (rows : List (Record ν)) :
    List (String × Option ν) :=
  outputs.zip (functions.map (meaning.functionValue rows))

def grouped [DecidableEq ν] (groupColumnNames outputs : List String) (functions : List AggregatePrePFunction)
    (rows : List (Record ν)) : List (Record ν) :=
  (rows.map fun row => groupColumnNames.map row).dedup.map fun key =>
    Record.ofColumns (meaning.aggregated outputs functions (rows.filter fun row => groupColumnNames.map row = key) ++
      groupColumnNames.zip key)

def projected (exprs : List Expression) (exprNames : List String) (pairs : List (String × String)) (row : Record ν) :
    Record ν :=
  Record.ofColumns (exprNames.zip (exprs.map fun expr => meaning.value expr row) ++
    pairs.map fun pair => (pair.2,row pair.1))

def keysMatch (leftColumnNames rightColumnNames : List String) (left right : Record ν) : Bool :=
  meaning.sameKeys (leftColumnNames.map left) (rightColumnNames.map right)

def predicateMatches (predicate : Option Expression) (left right : Record ν) : Bool :=
  predicate.all fun expression => meaning.holds expression (left.merge right)

/-- The rows of an operator, under its project columns. -/
def rows [DecidableEq ν] : PrePhysicalOp → List (Record ν)
  | .sort names sortKeys producer => emit names (meaning.sorted sortKeys (rows producer))
  | .limitSort names k sortKeys producer => emit names ((meaning.sorted sortKeys (rows producer)).take k.toNat)
  | .aggregate names outputs functions producer =>
    emit names [Record.ofColumns (meaning.aggregated outputs functions (rows producer))]
  | .group names groupColumnNames outputs functions producer =>
    emit names (meaning.grouped groupColumnNames outputs functions (rows producer))
  | .project names exprs exprNames pairs producer => emit names ((rows producer).map (meaning.projected exprs exprNames pairs))
  | .filter names predicate producer => emit names ((rows producer).filter (meaning.holds predicate))
  | .hashJoin names joinType leftColumnNames rightColumnNames left right =>
    emit names (joinRows joinType (meaning.keysMatch leftColumnNames rightColumnNames) (rows left) (rows right))
  | .nestedLoopJoin names joinType predicate left right =>
    emit names (joinRows joinType (meaning.predicateMatches predicate) (rows left) (rows right))
  | .filterableScan names table predicate =>
    emit names ((meaning.scan table).filter fun row => predicate.all fun expression => meaning.holds expression row)

end Meaning
end Hermes.Prephysical
