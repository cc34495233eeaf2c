import Hermes.ExpressionDeserializer
import Hermes.PrePhysicalOp
import Hermes.Library.Fallible

/-! The plan that the executor reads from the JSON of the optimizer. -/
namespace Hermes.Calcite
open Gandiva Prephysical Join Tuples Library.Fallible

structure Aggregation where
  aggFunction : String
  aggOutputField : String
  aggInputField : Option String

/-- The names of a join input, with those that the join renames. -/
structure FieldRenames where
  fieldRenames : List (String × String)
  fieldNames : List String

inductive RelJson where
  | sort (sortFields : List (String × String)) (input : RelJson)
  | limitSort (sortFields : List (String × String)) (limit : RexJson) (input : RelJson)
  | aggregate (groupFields : List String) (aggregations : List Aggregation) (input : RelJson)
  | project (fields : List (String × RexJson)) (input : RelJson)
  | hashJoin (joinType : String) (condition : Option RexJson) (leftRenames rightRenames : Option FieldRenames)
    (left right : RelJson)
  | nestedLoopJoin (joinType : String) (condition : Option RexJson) (leftRenames rightRenames : Option FieldRenames)
    (left right : RelJson)
  | filter (condition : RexJson) (input : RelJson)
  | tableScan (table : String)

namespace CalcitePlanJsonDeserializer

def deserializeColumnRenames (renames : List (String × String)) : List (String × String) :=
  renames.map fun rename => (canonicalize rename.1,canonicalize rename.2)

/-- Two operands of an `AND` are read, and the columns of an `EQUALS` in its order. -/
def deserializeHashJoinCondition : RexJson → Except String (List String × List String)
  | .operation opName [] =>
    if opName = "AND" ∨ opName = "EQUALS" then .error "no such operand" else .error ("Invalid hash join condition operation type, " ++ opName)
  | .operation opName [_] =>
    if opName = "AND" ∨ opName = "EQUALS" then .error "no such operand" else .error ("Invalid hash join condition operation type, " ++ opName)
  | .operation opName (child1::child2::_) => do
    if opName = "AND" then
      let childJoinColumns1 ← deserializeHashJoinCondition child1
      let childJoinColumns2 ← deserializeHashJoinCondition child2
      .ok (childJoinColumns1.1 ++ childJoinColumns2.1,childJoinColumns1.2 ++ childJoinColumns2.2)
    else if opName = "EQUALS" then
      match child1,child2 with
      | .inputRef leftName,.inputRef rightName => .ok ([canonicalize leftName],[canonicalize rightName])
      | _,_ => .error "type_error"
    else .error ("Invalid hash join condition operation type, " ++ opName)
  | .conditional opName _ => .error ("Invalid hash join condition operation type, " ++ opName)
  | _ => .error "type_error"

/-- The column pairs of the projection that renames a join input: a rename is looked up by the name as it is written. -/
def renamePairs (renames : FieldRenames) : List (String × String) :=
  renames.fieldNames.map fun column =>
    (canonicalize column,match (deserializeColumnRenames renames.fieldRenames).lookup column with
      | none => canonicalize column
      | some renamed => canonicalize renamed)

def addProjectForJoinColumnRenames (renames : Option FieldRenames) (producer : PrePhysicalOp) : PrePhysicalOp :=
  match renames with
  | none => producer
  | some renames =>
    let pairs := renamePairs renames
    .project (pairs.map Prod.snd) [] [] (PrePhysicalOp.updateProjectColumnNamePairs [] pairs
      (pairs.map Prod.snd)) producer

def deserializeSortKeys (sortFields : List (String × String)) : List SortKey :=
  sortFields.map fun field => ⟨canonicalize field.1,if field.2 = "ASCENDING" then .ascending else .descending⟩

def aggregateFunctionType (aggFunction : String) : Except String AggregatePrePFunctionType :=
  if aggFunction = "SUM0" ∨ aggFunction = "SUM" then .ok .sum
  else if aggFunction = "MIN" then .ok .min
  else if aggFunction = "MAX" then .ok .max
  else if aggFunction = "AVG" then .ok .avg
  else if aggFunction = "COUNT" then .ok .count
  else .error ("Unsupported aggregation function type, " ++ aggFunction)

def projectFields : RelJson → Option (List (String × RexJson))
  | .project fields _ => some fields
  | _ => none

/-- The number behind the first two letters of a name, as `stoul` reads it. -/
def fieldId (name : String) : Option Nat :=
  let digits := (name.toList.drop 2).takeWhile Char.isDigit
  if digits = [] then none
  else some (digits.foldl (fun id digit => id*10+(digit.toNat-48)) 0)

/-- The expression of an aggregate's input, with the field of the projection below that it takes. -/
def aggInputField (input : RelJson) (name : String) : Except String (Expression × List Nat) :=
  let aggInputColumnName := canonicalize name
  if aggInputColumnName.toList.take 2 = ['$','f'] then
    match fieldId aggInputColumnName with
    | none => .error "stoul"
    | some id =>
      match (projectFields input).bind fun fields => fields[id]? with
      | none => .error "type_error"
      | some field => do
        let expression ← deserializeExpression field.2
        .ok (expression,[id])
  else .ok (.column aggInputColumnName,[])

/-- The functions of an aggregate, and the fields of the projection below that they consume. -/
def deserializeAggregations (input : RelJson) : List Aggregation → Except String (List AggregatePrePFunction × List Nat)
  | [] => .ok ([],[])
  | aggregation::aggregations => do
    let type ← aggregateFunctionType aggregation.aggFunction
    match aggregation.aggInputField with
    | none =>
      let (functions,consumed) ← deserializeAggregations input aggregations
      .ok (⟨type,none⟩::functions,consumed)
    | some name =>
      let (expression,ids) ← aggInputField input name
      let (functions,consumed) ← deserializeAggregations input aggregations
      .ok (⟨type,some expression⟩::functions,ids ++ consumed)

/-- What is collected over the fields of a projection. -/
structure ProjectFields where
  skipSelf : Bool
  usedColumnNames : List String
  projectColumnNames : List String
  projectColumnNamePairs : List (String × String)
  exprs : List Expression
  exprNames : List String

/-- The fields from an id on. A field that the consumer has taken stands for the columns of its expression. -/
def deserializeFields (consumedFieldsId : List Nat) : Nat → List (String × RexJson) → Except String ProjectFields
  | _,[] => .ok ⟨true,[],[],[],[],[]⟩
  | fieldId,(name,expr)::fields => do
    let outputColumnName := canonicalize name
    match expr with
    | .inputRef ref =>
      let inputColumnName := canonicalize ref
      let later ← deserializeFields consumedFieldsId (fieldId+1) fields
      .ok {later with
        skipSelf := decide (inputColumnName = outputColumnName) && later.skipSelf
        usedColumnNames := inputColumnName::later.usedColumnNames
        projectColumnNames := outputColumnName::later.projectColumnNames
        projectColumnNamePairs := (inputColumnName,outputColumnName)::later.projectColumnNamePairs}
    | .literals _ _ => .error "Invalid project field, only column or expr are valid"
    | .branches _ _ _ => .error "Invalid project field, only column or expr are valid"
    | expr =>
      let expr ← deserializeExpression expr
      let exprUsedColumnNames := expr.involvedColumnNames
      let later ← deserializeFields consumedFieldsId (fieldId+1) fields
      if consumedFieldsId.contains fieldId then
        let canonColumnNames := exprUsedColumnNames.map canonicalize
        .ok {later with
          usedColumnNames := exprUsedColumnNames ++ later.usedColumnNames
          projectColumnNames := canonColumnNames ++ later.projectColumnNames
          projectColumnNamePairs := (canonColumnNames.map fun name => (name,name)) ++ later.projectColumnNamePairs}
      else
        .ok {later with
          skipSelf := false
          usedColumnNames := exprUsedColumnNames ++ later.usedColumnNames
          projectColumnNames := outputColumnName::later.projectColumnNames
          exprs := expr::later.exprs
          exprNames := outputColumnName::later.exprNames}

/-- A projection of columns under their own names is left out, and the operator below it gets its columns. -/
def deserializeProject (consumedFieldsId : List Nat) (fields : List (String × RexJson))
    (producer : Except String PrePhysicalOp) :
    Except String PrePhysicalOp := do
  let collected ← deserializeFields consumedFieldsId 0 fields
  if collected.skipSelf then
    let producer ← producer
    .ok (producer.setProjectColumnNames collected.usedColumnNames)
  else
    let producer ← producer
    .ok (.project collected.projectColumnNames collected.exprs collected.exprNames
      (PrePhysicalOp.updateProjectColumnNamePairs collected.exprNames collected.projectColumnNamePairs collected.projectColumnNames)
      producer)

def joinType (semi : Bool) (joinTypeStr : String) : Except String JoinType :=
  if joinTypeStr = "INNER" then .ok .inner
  else if joinTypeStr = "LEFT" then .ok .left
  else if joinTypeStr = "RIGHT" then .ok .right
  else if joinTypeStr = "FULL" then .ok .full
  else if semi ∧ joinTypeStr = "SEMI" then .ok .semi
  else .error ("Unsupported join type, " ++ joinTypeStr)

/-- A filter over a scan becomes the predicate of the scan, in the place of the one it has. -/
def deserializeFilterOrFilterableScan (predicate : Expression) (producer : PrePhysicalOp) : PrePhysicalOp :=
  match producer with
  | .filterableScan names table _ => .filterableScan names table (some predicate)
  | producer => .filter [] predicate producer

def limit : RexJson → Except String Int
  | .literal type value =>
    if type = "INTEGER" then do
      match ← getInteger 64 value with
      | some value => .ok value
      | none => .error "type_error"
    else .error "Invalid sort limit literal, not an integer"
  | _ => .error "Invalid sort limit, not an literal"

variable (catalogueEntry : String → Option Table)

def deserializeTableScan (tableName : String) : Except String PrePhysicalOp :=
  match catalogueEntry tableName with
  | some table => .ok (PrePhysicalOp.setProjectColumnNames table.columnNames (.filterableScan [] table none))
  | none => .error "no such table"

/-- The ids are those of the fields that the consumer has taken from a projection. -/
def deserializeDfs (consumedFieldsId : List Nat) : RelJson → Except String PrePhysicalOp
  | .sort sortFields input => do
    let producer ← deserializeDfs [] input
    .ok (.sort [] (deserializeSortKeys sortFields) producer)
  | .limitSort sortFields limitJson input => do
    let k ← limit limitJson
    let producer ← deserializeDfs [] input
    .ok (.limitSort [] k (deserializeSortKeys sortFields) producer)
  | .aggregate groupFields aggregations input => do
    let groupColumnNames := groupFields.map canonicalize
    let aggOutputColumnNames := aggregations.map fun aggregation => canonicalize aggregation.aggOutputField
    let (functions,consumed) ← deserializeAggregations input aggregations
    let producer ← deserializeDfs consumed input
    if groupColumnNames = [] then
      .ok (.aggregate aggOutputColumnNames aggOutputColumnNames functions producer)
    else
      .ok (.group (aggOutputColumnNames ++ groupColumnNames) groupColumnNames aggOutputColumnNames functions producer)
  | .project fields input => deserializeProject consumedFieldsId fields (deserializeDfs [] input)
  | .hashJoin joinTypeStr condition leftRenames rightRenames left right => do
    let type ← joinType true joinTypeStr
    match condition with
    | none => .error "Invalid hash join, no join condition"
    | some condition =>
      let (leftColumnNames,rightColumnNames) ← deserializeHashJoinCondition condition
      let leftProducer ← deserializeDfs [] left
      let rightProducer ← deserializeDfs [] right
      .ok (.hashJoin [] type leftColumnNames rightColumnNames (addProjectForJoinColumnRenames leftRenames leftProducer)
        (addProjectForJoinColumnRenames rightRenames rightProducer))
  | .nestedLoopJoin joinTypeStr condition leftRenames rightRenames left right => do
    let type ← joinType false joinTypeStr
    let predicate ← condition.mapM deserializeExpression
    let leftProducer ← deserializeDfs [] left
    let rightProducer ← deserializeDfs [] right
    .ok (.nestedLoopJoin [] type predicate (addProjectForJoinColumnRenames leftRenames leftProducer)
      (addProjectForJoinColumnRenames rightRenames rightProducer))
  | .filter condition input => do
    let predicate ← deserializeExpression condition
    let producer ← deserializeDfs [] input
    .ok (deserializeFilterOrFilterableScan predicate producer)
  | .tableScan tableName => deserializeTableScan catalogueEntry tableName

section
variable {catalogueEntry} {consumed : List Nat} {op : PrePhysicalOp} {input left right : RelJson}
attribute [local simp] deserializeDfs

theorem deserializeDfs_sort {sortFields : List (String × String)}
    (ok : deserializeDfs catalogueEntry consumed (.sort sortFields input) = .ok op) :
    ∃ producer, deserializeDfs catalogueEntry [] input = .ok producer ∧ op = .sort []
    (deserializeSortKeys sortFields) producer := by
  rw [deserializeDfs,bind_eq_ok] at ok
  obtain ⟨producer,below,done⟩ := ok
  exact ⟨producer,below,(Except.ok.inj done).symm⟩

theorem deserializeDfs_limitSort {sortFields : List (String × String)} {limitJson : RexJson}
    (ok : deserializeDfs catalogueEntry consumed (.limitSort sortFields limitJson input) = .ok op) :
    ∃ k producer, deserializeDfs catalogueEntry [] input = .ok producer ∧
      op = .limitSort [] k (deserializeSortKeys sortFields) producer := by
  rw [deserializeDfs,bind_eq_ok] at ok
  obtain ⟨k,_,ok⟩ := ok
  obtain ⟨producer,below,done⟩ := bind_eq_ok.mp ok
  exact ⟨k,producer,below,(Except.ok.inj done).symm⟩

theorem deserializeDfs_aggregate {groupFields : List String} {aggregations : List Aggregation}
    (ok : deserializeDfs catalogueEntry consumed (.aggregate groupFields aggregations input) = .ok op) :
    ∃ consumed' functions outputs names producer, deserializeDfs catalogueEntry consumed' input = .ok producer ∧
      (op = .aggregate names outputs functions producer ∨
        op = .group names (groupFields.map canonicalize) outputs functions producer) := by
  rw [deserializeDfs,bind_eq_ok] at ok
  obtain ⟨⟨functions,consumed'⟩,_,ok⟩ := ok
  obtain ⟨producer,below,done⟩ := bind_eq_ok.mp ok
  split at done
  · exact ⟨consumed',functions,_,_,producer,below,Or.inl (Except.ok.inj done).symm⟩
  · exact ⟨consumed',functions,_,_,producer,below,Or.inr (Except.ok.inj done).symm⟩

theorem deserializeDfs_project {fields : List (String × RexJson)}
    (ok : deserializeDfs catalogueEntry consumed (.project fields input) = .ok op) :
    ∃ collected producer, deserializeFields consumed 0 fields = .ok collected ∧
    deserializeDfs catalogueEntry [] input = .ok producer ∧
      op = if collected.skipSelf then producer.setProjectColumnNames collected.usedColumnNames
        else .project collected.projectColumnNames collected.exprs collected.exprNames
          (PrePhysicalOp.updateProjectColumnNamePairs collected.exprNames collected.projectColumnNamePairs collected.projectColumnNames)
          producer := by
  rw [deserializeDfs,deserializeProject,bind_eq_ok] at ok
  obtain ⟨collected,read,ok⟩ := ok
  split at ok
  · rename_i skip
    obtain ⟨producer,below,done⟩ := bind_eq_ok.mp ok
    exact ⟨collected,producer,read,below,by rw [if_pos skip]; exact (Except.ok.inj done).symm⟩
  · rename_i stays
    obtain ⟨producer,below,done⟩ := bind_eq_ok.mp ok
    exact ⟨collected,producer,read,below,by rw [if_neg stays]; exact (Except.ok.inj done).symm⟩

theorem deserializeDfs_hashJoin {joinTypeStr : String} {condition : Option RexJson}
    {leftRenames rightRenames : Option FieldRenames}
    (ok : deserializeDfs catalogueEntry consumed (.hashJoin joinTypeStr condition leftRenames rightRenames left right) = .ok op) :
    ∃ type leftNames rightNames leftProducer rightProducer,
      deserializeDfs catalogueEntry [] left = .ok leftProducer ∧
      deserializeDfs catalogueEntry [] right = .ok rightProducer ∧
      op = .hashJoin [] type leftNames rightNames (addProjectForJoinColumnRenames leftRenames leftProducer)
        (addProjectForJoinColumnRenames rightRenames rightProducer) := by
  rw [deserializeDfs,bind_eq_ok] at ok
  obtain ⟨type,_,ok⟩ := ok
  cases condition with
  | none => cases ok
  | some condition =>
    obtain ⟨⟨leftNames,rightNames⟩,_,ok⟩ := bind_eq_ok.mp ok
    obtain ⟨leftProducer,belowLeft,ok⟩ := bind_eq_ok.mp ok
    obtain ⟨rightProducer,belowRight,done⟩ := bind_eq_ok.mp ok
    exact ⟨type,leftNames,rightNames,leftProducer,rightProducer,belowLeft,belowRight,(Except.ok.inj done).symm⟩

theorem deserializeDfs_nestedLoopJoin {joinTypeStr : String} {condition : Option RexJson}
    {leftRenames rightRenames : Option FieldRenames}
    (ok : deserializeDfs catalogueEntry consumed (.nestedLoopJoin joinTypeStr condition leftRenames rightRenames left right) = .ok op) :
    ∃ type predicate leftProducer rightProducer,
      deserializeDfs catalogueEntry [] left = .ok leftProducer ∧
      deserializeDfs catalogueEntry [] right = .ok rightProducer ∧
      op = .nestedLoopJoin [] type predicate (addProjectForJoinColumnRenames leftRenames leftProducer)
        (addProjectForJoinColumnRenames rightRenames rightProducer) := by
  rw [deserializeDfs,bind_eq_ok] at ok
  obtain ⟨type,_,ok⟩ := ok
  obtain ⟨predicate,_,ok⟩ := bind_eq_ok.mp ok
  obtain ⟨leftProducer,belowLeft,ok⟩ := bind_eq_ok.mp ok
  obtain ⟨rightProducer,belowRight,done⟩ := bind_eq_ok.mp ok
  exact ⟨type,predicate,leftProducer,rightProducer,belowLeft,belowRight,(Except.ok.inj done).symm⟩

theorem deserializeDfs_filter {condition : RexJson}
    (ok : deserializeDfs catalogueEntry consumed (.filter condition input) = .ok op) :
    ∃ predicate producer, deserializeExpression condition = .ok predicate ∧
    deserializeDfs catalogueEntry [] input = .ok producer ∧
      op = deserializeFilterOrFilterableScan predicate producer := by
  rw [deserializeDfs,bind_eq_ok] at ok
  obtain ⟨predicate,read,ok⟩ := ok
  obtain ⟨producer,below,done⟩ := bind_eq_ok.mp ok
  exact ⟨predicate,producer,read,below,(Except.ok.inj done).symm⟩

theorem deserializeDfs_tableScan {tableName : String}
    (ok : deserializeDfs catalogueEntry consumed (.tableScan tableName) = .ok op) :
    ∃ table, catalogueEntry tableName = some table ∧
      op = PrePhysicalOp.setProjectColumnNames table.columnNames (.filterableScan [] table none) := by
  rw [deserializeDfs,deserializeTableScan] at ok
  cases known : catalogueEntry tableName with
  | none =>
    rw [known] at ok
    cases ok
  | some table =>
    rw [known] at ok
    exact ⟨table,rfl,(Except.ok.inj ok).symm⟩

end

end CalcitePlanJsonDeserializer
end Hermes.Calcite
