import Hermes.Table
import Hermes.Library.Grouping
import Mathlib.Data.List.Sort

/-! `GroupKernel`: rows go to a group for their key, and at the end every aggregate function
is computed on every group. -/
namespace Hermes.Group
open Hermes.Tuples Hermes.Library
variable {ν : Type} [DecidableEq ν]

/-- An element of `TupleKey` with its type. -/
abbrev TupleKey (ν : Type) := List (DataType × ν)

/-- What the kernel uses of the language and of Arrow: which values of a type are not equal to
themselves, the value that a null scalar carries, how a table is read in batches, and the
order in which a map is gone through. -/
structure Runtime (ν : Type) where
  isNaN : DataType → ν → Bool
  blank : DataType → ν
  batches : Table ν → List (List (List (Slot ν)))
  batches_flatten : ∀ table, (batches table).flatten = table.rows
  iterate : {β : Type} → List (TupleKey ν × β) → List (TupleKey ν × β)
  iterate_perm : ∀ {β : Type} (entries : List (TupleKey ν × β)), (iterate entries).Perm entries

structure Scalar (ν : Type) where
  type : DataType
  value : Option ν
deriving DecidableEq

def COUNT_STAR_COLUMN : String := "COUNT_*"

/-- An aggregate function, given by what it makes of the columns it names. `compiled` says
that `compile` looks for the columns, and `absent` what becomes of one that is not there. -/
structure AggregateFunction (ν : Type) where
  outputColumnName : String
  involvedColumnNames : List String
  compiled : Bool
  absent : String → Failure
  returnType : List DataType → DataType
  compute : List DataType → List (List (Option ν)) → Except String (Scalar ν)

/-- `Count` without an expression names a column that there is not. -/
def AggregateFunction.columnNames (function : AggregateFunction ν) : List String :=
  function.involvedColumnNames.filter fun columnName => columnName != COUNT_STAR_COLUMN

structure GroupKernel (ν : Type) where
  groupColumnNames : List String
  aggregateFunctions : List (AggregateFunction ν)
  groupColumnIndices : List Nat
  aggregateColumnIndices : List Nat
  inputSchema : Option (List Field)
  aggregateInputSchema : Option (List Field)
  groupArrayAppenderVectorMap : List (TupleKey ν × List (List (Option ν)))

/-- The types of which `TupleKeyElementBuilder::make` makes a key element. -/
def keyable : DataType → Bool
  | .int16 | .int32 | .int64 | .float | .double | .date64 | .string => true
  | _ => false

/-- The types that `ColumnBuilder::append` takes. -/
def buildable : DataType → Bool
  | .int32 | .int64 | .double | .boolean | .date64 | .string => true
  | _ => false

def canonicalSchema (fields : List Field) :
    List Field := fields.map fun field => {field with name := canonicalize field.name}

def schemaToString (fields : List Field) : String :=
  "\n".intercalate (fields.map fun field => field.name ++ ": " ++ typeText field.type)

def select (row : List (Option ν)) (indices : List Nat) : List (Option ν) := indices.map fun c => row[c]?.join

namespace TupleKey

/-- `TupleKey::operator==`. -/
def equals (runtime : Runtime ν) : TupleKey ν → TupleKey ν → Bool
  | [],_ => true
  | _::_,[] => false
  | element::elements,other::others =>
    decide (element = other) && !runtime.isNaN element.1 element.2 && equals runtime elements others

/-- `TupleKeyBuilder::make`: the values of the key columns, whatever lies under a null. -/
def make (fields : List Field) (row : List (Slot ν)) : List Nat → Except String (TupleKey ν)
  | [] => .ok []
  | columnIndex::columnIndices =>
    match fields[columnIndex]?,row[columnIndex]? with
    | some field,some slot =>
      if keyable field.type then
        match make fields row columnIndices with
        | .error error => .error error
        | .ok elements => .ok ((field.type,slot.raw)::elements)
      else .error ("Unrecognized type " ++ typeName field.type)
    | _,_ => .ok []

end TupleKey

namespace AggregateFunction

def indices (schema : List Field) (columnNames : List String) : List Nat := columnNames.filterMap (getFieldIndex schema)

def types (schema : List Field) (columnNames : List String) : List DataType :=
  (indices schema columnNames).filterMap fun c => schema[c]?.map Field.type

def missing (function : AggregateFunction ν) (schema : List Field) : Option String :=
  function.columnNames.find? fun columnName => (getFieldIndex schema columnName).isNone

def compile (function : AggregateFunction ν) (schema : List Field) : Except Failure DataType :=
  match if function.compiled then function.missing schema else none with
  | some columnName => .error (function.absent columnName)
  | none => .ok (function.returnType (types schema function.columnNames))

def computeComplete (function : AggregateFunction ν) (schema : List Field) (rows : List (List (Option ν))) :
    Except Failure (Scalar ν) :=
  match function.missing schema with
  | some columnName => .error (function.absent columnName)
  | none =>
    match function.compute (types schema function.columnNames)
        (rows.map fun row => select row (indices schema function.columnNames)) with
    | .error error => .error (.error error)
    | .ok scalar => .ok scalar

end AggregateFunction

structure ColumnBuilder (ν : Type) where
  name : String
  type : DataType
  values : List (Option ν)
deriving DecidableEq

/-- `append`, whose error nobody looks at. The builder is taken to be of the scalar's type, and
a null scalar is appended as the value it carries. -/
def ColumnBuilder.append (runtime : Runtime ν) (builder : ColumnBuilder ν) (scalar : Scalar ν) :
    Except Failure (ColumnBuilder ν) :=
  if buildable scalar.type then
    if scalar.type = builder.type then
      .ok {builder with values := builder.values ++ [some (scalar.value.getD (runtime.blank scalar.type))]}
    else .error .exception
  else .ok builder

namespace GroupKernel

def getAggregateColumnNames (kernel : GroupKernel ν) : List String :=
  (kernel.aggregateFunctions.flatMap AggregateFunction.involvedColumnNames).dedup.insertionSort (· ≤ ·)

/-- The indices of some columns, or the error of the first that is not found. -/
def fieldIndices (kind : String) (inputSchema : List Field) : List String → Except String (List Nat)
  | [] => .ok []
  | columnName::columnNames =>
    match getFieldIndex inputSchema columnName with
    | none => .error (kind ++ " column '" ++ columnName ++ "' not found in input schema")
    | some fieldIndex =>
      match fieldIndices kind inputSchema columnNames with
      | .error error => .error error
      | .ok indices => .ok (fieldIndex::indices)

/-- The fields at some indices; there may be none. -/
def fieldsAt (fields : List Field) : List Nat → Option (List Field)
  | [] => some []
  | c::indices =>
    match fields[c]?,fieldsAt fields indices with
    | some field,some later => some (field::later)
    | _,_ => none

/-- The first tuple set's schema is kept with canonical names, except for the aggregate
columns, and that of every later one is compared with it. An error ends the query, and what the kernel is
then is left out. -/
def cache (kernel : GroupKernel ν) (table : Table ν) : Except Failure (GroupKernel ν) :=
  match kernel.inputSchema with
  | none =>
    match fieldIndices "Group" (canonicalSchema table.fields) kernel.groupColumnNames with
    | .error error => .error (.error error)
    | .ok groupColumnIndices =>
      match fieldIndices "Aggregate" (canonicalSchema table.fields)
          (kernel.getAggregateColumnNames.filter fun columnName => columnName != COUNT_STAR_COLUMN) with
      | .error error => .error (.error error)
      | .ok found =>
        let aggregateColumnIndices := if found.isEmpty && !kernel.aggregateFunctions.isEmpty then [0] else found
        match fieldsAt table.fields aggregateColumnIndices with
        | none => .error .exception
        | some aggregateFields =>
          .ok {kernel with
            groupColumnIndices := groupColumnIndices
            aggregateColumnIndices := aggregateColumnIndices
            inputSchema := some (canonicalSchema table.fields)
            aggregateInputSchema := some aggregateFields}
  | some inputSchema =>
    if inputSchema = table.fields then .ok kernel
    else .error (.error ("Input tuple set schema does not match cached input tuple set schema. \nschema:\n" ++
      schemaToString inputSchema ++ "\ncached schema:\n" ++ schemaToString table.fields))

/-- One row of `groupRecordBatch`. A new group needs an appender for every aggregate column. -/
def groupRow (runtime : Runtime ν) (kernel : GroupKernel ν) (fields : List Field)
    (groups : List (TupleKey ν × List (List (Option ν)))) (row : List (Slot ν)) :
    Except String (List (TupleKey ν × List (List (Option ν)))) :=
  match TupleKey.make fields row kernel.groupColumnIndices with
  | .error error => .error error
  | .ok groupKey =>
    let unknown := if groups.any fun group => TupleKey.equals runtime group.1 groupKey then none
      else kernel.aggregateColumnIndices.find? fun c => fields[c]?.any fun field => !appendable field.type
    match unknown with
    | some c => .error ("ArrayAppender not implemented for type '" ++
      ((fields[c]?.map fun field => typeName field.type).getD "") ++ "'")
    | none => .ok (Grouping.add (TupleKey.equals runtime) groupKey
      (select (row.map Slot.value) kernel.aggregateColumnIndices) groups)

def groupRecordBatch (runtime : Runtime ν) (kernel : GroupKernel ν) (fields : List Field)
    (groups : List (TupleKey ν × List (List (Option ν)))) (recordBatch : List (List (Slot ν))) :
    Except String (List (TupleKey ν × List (List (Option ν)))) :=
  recordBatch.foldlM (groupRow runtime kernel fields) groups

def groupTable (runtime : Runtime ν) (kernel : GroupKernel ν) (table : Table ν) : Except Failure (GroupKernel ν) :=
  match (runtime.batches table).foldlM (groupRecordBatch runtime kernel table.fields) kernel.groupArrayAppenderVectorMap with
  | .error error => .error (.error error)
  | .ok groups => .ok {kernel with groupArrayAppenderVectorMap := groups}

def group (runtime : Runtime ν) (kernel : GroupKernel ν) (tupleSet : TupleSet ν) : Except Failure (GroupKernel ν) :=
  match tupleSet with
  | none => .error (.error "Input tuple set table is undefined")
  | some table =>
    match kernel.cache table with
    | .error failure => .error failure
    | .ok cached => cached.groupTable runtime table

/-- The aggregate results of one group. Each is stored under the key of the group, which is
searched for. -/
def computeGroup (runtime : Runtime ν) (schema : List Field) (groupKey : TupleKey ν) (rows : List (List (Option ν))) :
    List (AggregateFunction ν) → Except Failure (List (Scalar ν))
  | [] => .ok []
  | function::functions =>
    match function.computeComplete schema rows with
    | .error failure => .error failure
    | .ok result =>
      if TupleKey.equals runtime groupKey groupKey then
        match computeGroup runtime schema groupKey rows functions with
        | .error failure => .error failure
        | .ok results => .ok (result::results)
      else .error .exception

def computeGroupAggregates (runtime : Runtime ν) (kernel : GroupKernel ν) (schema : List Field) :
    List (TupleKey ν × List (List (Option ν))) → Except Failure (List (TupleKey ν × List (Scalar ν)))
  | [] => .ok []
  | group::groups =>
    match computeGroup runtime schema group.1 group.2 kernel.aggregateFunctions with
    | .error failure => .error failure
    | .ok results =>
      match computeGroupAggregates runtime kernel schema groups with
      | .error failure => .error failure
      | .ok later => .ok ((group.1,results)::later)

/-- The scalars of one row to the builders. -/
def appendRow (runtime : Runtime ν) : List (ColumnBuilder ν) → List (Scalar ν) → Except Failure (List (ColumnBuilder ν))
  | builder::builders,scalar::scalars =>
    match builder.append runtime scalar with
    | .error failure => .error failure
    | .ok appended =>
      match appendRow runtime builders scalars with
      | .error failure => .error failure
      | .ok later => .ok (appended::later)
  | builders,_ => .ok builders

/-- `TupleKey::getScalars`. -/
def getScalars (groupKey : TupleKey ν) : List (Scalar ν) := groupKey.map fun element => ⟨element.1,some element.2⟩

/-- Builders for the group columns and the aggregate columns. -/
def makeBuilders (kernel : GroupKernel ν) (inputSchema aggregateInputSchema : List Field) : List (ColumnBuilder ν) :=
  kernel.groupColumnIndices.filterMap (fun c => inputSchema[c]?.map fun field => ⟨field.name,field.type,[]⟩) ++
    kernel.aggregateFunctions.map fun function =>
      ⟨function.outputColumnName,function.returnType
        (AggregateFunction.types aggregateInputSchema function.columnNames),[]⟩

def finaliseEmpty (kernel : GroupKernel ν) : Except Failure (List (ColumnBuilder ν)) :=
  match kernel.inputSchema,kernel.aggregateInputSchema with
  | some inputSchema,some aggregateInputSchema =>
    match kernel.aggregateFunctions.mapM fun function => function.compile aggregateInputSchema with
    | .error failure => .error failure
    | .ok _ => .ok (kernel.makeBuilders inputSchema aggregateInputSchema)
  | none,_ => .error (.error "InputSchema not set")
  | _,none => .error (.error "AggregateInputSchema not set")

/-- The finished columns. -/
def finalise (runtime : Runtime ν) (kernel : GroupKernel ν) : Except Failure (List (ColumnBuilder ν)) :=
  if kernel.groupArrayAppenderVectorMap.isEmpty then kernel.finaliseEmpty
  else
    match kernel.inputSchema,kernel.aggregateInputSchema with
    | some inputSchema,some aggregateInputSchema =>
      match computeGroupAggregates runtime kernel aggregateInputSchema
          (runtime.iterate kernel.groupArrayAppenderVectorMap) with
      | .error failure => .error failure
      | .ok results => (runtime.iterate results).foldlM (fun builders result =>
          appendRow runtime builders (getScalars result.1 ++ result.2))
            (kernel.makeBuilders inputSchema aggregateInputSchema)
    | _,_ => .error .exception

def make (groupColumnNames : List String) (aggregateFunctions : List (AggregateFunction ν)) : GroupKernel ν :=
  ⟨groupColumnNames.map canonicalize,aggregateFunctions,[],[],none,none,[]⟩

/-- Some tuple sets, one after the other, and then the result. -/
def groupAll (runtime : Runtime ν) (kernel : GroupKernel ν) (pieces : List (TupleSet ν)) :
    Except Failure (List (ColumnBuilder ν)) :=
  match pieces.foldlM (group runtime) kernel with
  | .error failure => .error failure
  | .ok grouped => grouped.finalise runtime

end GroupKernel
end Hermes.Group
