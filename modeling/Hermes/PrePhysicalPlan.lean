import Hermes.PrePhysicalOp

/-! The project columns of a plan are filled in from its leaves up, and trimmed from its root down. -/
namespace Hermes.Prephysical
open Gandiva

def dummyColumnPrefix : String := "dummy"

namespace PrePhysicalOp

/-- The operator over other producers. -/
def setProducers (left right : PrePhysicalOp) : PrePhysicalOp → PrePhysicalOp
  | sort names sortKeys _ => sort names sortKeys left
  | limitSort names k sortKeys _ => limitSort names k sortKeys left
  | aggregate names outputs functions _ => aggregate names outputs functions left
  | group names groupColumnNames outputs functions _ => group names groupColumnNames outputs functions left
  | project names exprs exprNames pairs _ => project names exprs exprNames pairs left
  | filter names predicate _ => filter names predicate left
  | hashJoin names joinType leftColumnNames rightColumnNames _ _ => hashJoin names joinType leftColumnNames rightColumnNames left right
  | nestedLoopJoin names joinType predicate _ _ => nestedLoopJoin names joinType predicate left right
  | filterableScan names table predicate => filterableScan names table predicate

end PrePhysicalOp

namespace PrePhysicalPlan
open PrePhysicalOp

/-- The project columns are set if they are not, and are passed on to the consumer. -/
def populateSelf (upProjectColumns : List String) (op : PrePhysicalOp) : PrePhysicalOp × List String :=
  if op.getProjectColumnNames = [] then (op.setProjectColumnNames upProjectColumns,upProjectColumns)
  else (op,op.getProjectColumnNames)

def populateUnary (op : PrePhysicalOp) (producer : PrePhysicalOp × List String) : PrePhysicalOp × List String :=
  let populated := populateSelf producer.2 op
  (setProducers producer.1 producer.1 populated.1,populated.2)

def populateBinary (op : PrePhysicalOp) (left right : PrePhysicalOp × List String) : PrePhysicalOp × List String :=
  let populated := populateSelf (left.2 ++ right.2) op
  (setProducers left.1 right.1 populated.1,populated.2)

def populateProjectColumnsDfs : PrePhysicalOp → PrePhysicalOp × List String
  | sort names sortKeys producer => populateUnary (sort names sortKeys producer) (populateProjectColumnsDfs producer)
  | limitSort names k sortKeys producer => populateUnary (limitSort names k sortKeys producer)
    (populateProjectColumnsDfs producer)
  | aggregate names outputs functions producer =>
    populateUnary (aggregate names outputs functions producer) (populateProjectColumnsDfs producer)
  | group names groupColumnNames outputs functions producer =>
    populateUnary (group names groupColumnNames outputs functions producer) (populateProjectColumnsDfs producer)
  | project names exprs exprNames pairs producer =>
    populateUnary (project names exprs exprNames pairs producer) (populateProjectColumnsDfs producer)
  | filter names predicate producer => populateUnary (filter names predicate producer)
    (populateProjectColumnsDfs producer)
  | hashJoin names joinType leftColumnNames rightColumnNames left right =>
    populateBinary (hashJoin names joinType leftColumnNames rightColumnNames left right)
    (populateProjectColumnsDfs left)
      (populateProjectColumnsDfs right)
  | nestedLoopJoin names joinType predicate left right =>
    populateBinary (nestedLoopJoin names joinType predicate left right) (populateProjectColumnsDfs left)
      (populateProjectColumnsDfs right)
  | filterableScan names table predicate => populateSelf [] (filterableScan names table predicate)

/-- A column is left to an operator if its consumer uses it, or counts the rows. -/
def kept (downUsedColumns : List String) (column : String) : Bool :=
  downUsedColumns.contains countStarColumn || dummyColumnPrefix.toList.isPrefixOf column.toList || downUsedColumns.contains column

/-- The root has no consumer. -/
def trimSelf (optDownUsedColumns : Option (List String)) (op : PrePhysicalOp) : PrePhysicalOp :=
  match optDownUsedColumns with
  | none => op
  | some downUsedColumns => op.setProjectColumnNames (op.getProjectColumnNames.filter (kept downUsedColumns))

def usedColumns (optDownUsedColumns : Option (List String)) (op : PrePhysicalOp) : List String :=
  (trimSelf optDownUsedColumns op).getUsedColumnNames

def trimProjectColumnsDfs : Option (List String) → PrePhysicalOp → PrePhysicalOp
  | down,sort names sortKeys producer =>
    let op := sort names sortKeys producer
    let trimmed := trimProjectColumnsDfs (some (usedColumns down op)) producer
    setProducers trimmed trimmed (trimSelf down op)
  | down,limitSort names k sortKeys producer =>
    let op := limitSort names k sortKeys producer
    let trimmed := trimProjectColumnsDfs (some (usedColumns down op)) producer
    setProducers trimmed trimmed (trimSelf down op)
  | down,aggregate names outputs functions producer =>
    let op := aggregate names outputs functions producer
    let trimmed := trimProjectColumnsDfs (some (usedColumns down op)) producer
    setProducers trimmed trimmed (trimSelf down op)
  | down,group names groupColumnNames outputs functions producer =>
    let op := group names groupColumnNames outputs functions producer
    let trimmed := trimProjectColumnsDfs (some (usedColumns down op)) producer
    setProducers trimmed trimmed (trimSelf down op)
  | down,project names exprs exprNames pairs producer =>
    let op := project names exprs exprNames pairs producer
    let trimmed := trimProjectColumnsDfs (some (usedColumns down op)) producer
    setProducers trimmed trimmed (trimSelf down op)
  | down,filter names predicate producer =>
    let op := filter names predicate producer
    let trimmed := trimProjectColumnsDfs (some (usedColumns down op)) producer
    setProducers trimmed trimmed (trimSelf down op)
  | down,hashJoin names joinType leftColumnNames rightColumnNames left right =>
    let op := hashJoin names joinType leftColumnNames rightColumnNames left right
    let trimmedLeft := trimProjectColumnsDfs (some (usedColumns down op)) left
    let trimmedRight := trimProjectColumnsDfs (some (usedColumns down op)) right
    setProducers trimmedLeft trimmedRight (trimSelf down op)
  | down,nestedLoopJoin names joinType predicate left right =>
    let op := nestedLoopJoin names joinType predicate left right
    let trimmedLeft := trimProjectColumnsDfs (some (usedColumns down op)) left
    let trimmedRight := trimProjectColumnsDfs (some (usedColumns down op)) right
    setProducers trimmedLeft trimmedRight (trimSelf down op)
  | down,filterableScan names table predicate => trimSelf down (filterableScan names table predicate)

def populateAndTrimProjectColumns (rootOp : PrePhysicalOp) : PrePhysicalOp :=
  trimProjectColumnsDfs none (populateProjectColumnsDfs rootOp).1

end PrePhysicalPlan
end Hermes.Prephysical
