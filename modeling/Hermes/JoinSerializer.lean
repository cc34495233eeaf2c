import Hermes.RexJsonSerializer
import Hermes.PlanDeserializer

/-! The JSON that the optimizer writes for a join, and the rule that puts the smaller input left. -/
namespace Hermes.Calcite

inductive JoinRelType where
  | inner
  | left
  | right
  | full
  | semi
  | anti
  deriving DecidableEq

namespace JoinRelType

def name : JoinRelType → String
  | inner => "INNER"
  | left => "LEFT"
  | right => "RIGHT"
  | full => "FULL"
  | semi => "SEMI"
  | anti => "ANTI"

def projectsRight : JoinRelType → Bool
  | semi => false
  | anti => false
  | _ => true

def swap : JoinRelType → JoinRelType
  | left => right
  | right => left
  | joinType => joinType

theorem projectsRight_swap (joinType : JoinRelType) : joinType.swap.projectsRight = joinType.projectsRight := by
  cases joinType <;> rfl

end JoinRelType

/-- A join with the names of its inputs' fields and of its own, of which there is one for each field. -/
structure Join where
  joinType : JoinRelType
  leftFieldNames : List String
  rightFieldNames : List String
  outputFieldNames : List String
  condition : RexNode
  width : outputFieldNames.length = leftFieldNames.length + if joinType.projectsRight then rightFieldNames.length else 0

structure JoinJson where
  joinType : String
  condition : Option RexJson
  leftFieldRenames : Option FieldRenames
  rightFieldRenames : Option FieldRenames

namespace RelJsonSerializer

def fieldRenames (inputFieldNames outputFieldNames : List String) : Option FieldRenames :=
  let renames := (inputFieldNames.zip outputFieldNames).filter fun names => names.1 ≠ names.2
  if renames = [] then none else some ⟨renames,inputFieldNames⟩

/-- The names that the condition is written with. -/
def inputFieldNames (join : Join) : List String :=
  if join.outputFieldNames.length < join.leftFieldNames.length + join.rightFieldNames.length then
    join.outputFieldNames ++ join.rightFieldNames
  else join.outputFieldNames

def serializeJoin (doubleValue : ℚ → ℚ) (isAlwaysTrue : RexNode → Bool) (join : Join) : Except String JoinJson := do
  let leftFieldRenames := fieldRenames join.leftFieldNames join.outputFieldNames
  let rightFieldRenames := fieldRenames join.rightFieldNames (join.outputFieldNames.drop join.leftFieldNames.length)
  if isAlwaysTrue join.condition then .ok ⟨join.joinType.name,none,leftFieldRenames,rightFieldRenames⟩
  else
    let condition ← RexJsonSerializer.serialize doubleValue (inputFieldNames join) join.condition
    .ok ⟨join.joinType.name,some condition,leftFieldRenames,rightFieldRenames⟩

end RelJsonSerializer

namespace SimpleExpressionCanonicalizer

def mirrorOperation : SqlKind → SqlKind
  | .lessThan => .greaterThan
  | .greaterThan => .lessThan
  | .lessThanOrEqual => .greaterThanOrEqual
  | .greaterThanOrEqual => .lessThanOrEqual
  | kind => kind

/-- The comparisons, which are what is mirrored. -/
def isComparison : SqlKind → Bool
  | .lessThan => true
  | .greaterThan => true
  | .lessThanOrEqual => true
  | .greaterThanOrEqual => true
  | .equals => true
  | .notEquals => true
  | _ => false

def mirrorOperands : List RexNode → List RexNode
  | leftOp::rightOp::_ => [rightOp,leftOp]
  | operands => operands

mutual
def mirrorRexNode : RexNode → RexNode
  | .inputRef index => .inputRef index
  | .literal typeName value => .literal typeName value
  | .call kind operands =>
    if isComparison kind then .call (mirrorOperation kind) (mirrorOperands operands) else .call kind (mirrorRexNodes operands)
  | .otherFunction name operands => .otherFunction name (mirrorRexNodes operands)
  | .search operand typeName sarg => .search (mirrorRexNode operand) typeName sarg
  termination_by structural node => node

def mirrorRexNodes : List RexNode → List RexNode
  | [] => []
  | node::nodes => mirrorRexNode node::mirrorRexNodes nodes
  termination_by structural nodes => nodes
end

end SimpleExpressionCanonicalizer

-- the inputs of a join change places
namespace JoinCommuteRule

def swapIndex (leftFieldCount rightFieldCount index : Nat) : Nat :=
  if index < leftFieldCount then index + rightFieldCount else index - leftFieldCount

variable (leftFieldCount rightFieldCount : Nat)

mutual
def swapRefs : RexNode → RexNode
  | .inputRef index => .inputRef (swapIndex leftFieldCount rightFieldCount index)
  | .literal typeName value => .literal typeName value
  | .call kind operands => .call kind (swapAllRefs operands)
  | .otherFunction name operands => .otherFunction name (swapAllRefs operands)
  | .search operand typeName sarg => .search (swapRefs operand) typeName sarg
  termination_by structural node => node

def swapAllRefs : List RexNode → List RexNode
  | [] => []
  | node::nodes => swapRefs node::swapAllRefs nodes
  termination_by structural nodes => nodes
end

end JoinCommuteRule

namespace JoinSmallLeftRule
open SimpleExpressionCanonicalizer JoinCommuteRule

/-- The join that the rule makes. Its fields get their names from the inputs in their new order. -/
def swapped (join : Join) (outputFieldNames : List String)
    (width : outputFieldNames.length =
      join.rightFieldNames.length + if join.joinType.projectsRight then join.leftFieldNames.length else 0) : Join where
  joinType := join.joinType.swap
  leftFieldNames := join.rightFieldNames
  rightFieldNames := join.leftFieldNames
  outputFieldNames := outputFieldNames
  condition := mirrorRexNode (swapRefs join.leftFieldNames.length join.rightFieldNames.length join.condition)
  width := by rw [JoinRelType.projectsRight_swap]; exact width

/-- The join below the projection that is put back. Nothing is made of a semi join, or where the left input is estimated
to be no larger. -/
def onMatch (leftRowCount rightRowCount : ℚ) (join : Join) (outputFieldNames : List String)
    (width : outputFieldNames.length =
      join.rightFieldNames.length + if join.joinType.projectsRight then join.leftFieldNames.length else 0) : Option Join :=
  if join.joinType = .semi ∨ join.joinType = .anti then none
  else if rightRowCount < leftRowCount then some (swapped join outputFieldNames width) else none

end JoinSmallLeftRule
end Hermes.Calcite
