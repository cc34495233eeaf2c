import Hermes.RexNode

/-! The JSON that the optimizer writes for a row expression. An error is an exception of the Java code. -/
namespace Hermes.Calcite

namespace RexValue

def toInteger (value : ℚ) : Int := value.num.tdiv value.den

end RexValue

namespace Range

def isPoint (range : Range) : Bool :=
  range.lower.any fun lower => lower.2 = .closed ∧ range.upper = some lower

end Range

namespace Sarg

def isPoints (sarg : Sarg) : Bool := sarg.rangeSet.all Range.isPoint

/-- Whether each range ends where the next one starts, without the point between them. -/
def pointsBetween : List Range → Bool
  | [] => false
  | [range] => range.upper.isNone
  | range::next::ranges =>
    (range.upper.any fun upper => upper.2 = .open ∧ next.lower = some upper) && pointsBetween (next::ranges)

def isComplementedPoints (sarg : Sarg) : Bool :=
  (sarg.rangeSet.head?.any fun range => range.lower.isNone) && pointsBetween sarg.rangeSet

end Sarg

namespace RexJsonSerializer

-- the rounding of a decimal to a Java double
variable (doubleValue : ℚ → ℚ)

def getValueAs (typeName : SqlTypeName) (value : Option RexValue) : Except String (String × JsonValue) :=
  match typeName,value with
  | .char,some (.string value) => .ok ("CHAR",.string value)
  | .char,none => .ok ("CHAR",.null)
  | .varchar,some (.string value) => .ok ("VARCHAR",.string value)
  | .varchar,none => .ok ("VARCHAR",.null)
  | .integer,some (.number value) => .ok ("INTEGER",.integer ((RexValue.toInteger value).bmod (2^32)))
  | .integer,none => .ok ("INTEGER",.null)
  | .bigint,some (.number value) => .ok ("BIGINT",.integer ((RexValue.toInteger value).bmod (2^64)))
  | .bigint,none => .ok ("BIGINT",.null)
  | .double,some (.number value) => .ok ("DOUBLE",.double (doubleValue value))
  | .double,none => .ok ("DOUBLE",.null)
  | .decimal,some (.number value) => .ok ("DECIMAL",.double (doubleValue value))
  | .decimal,none => .ok ("DECIMAL",.null)
  | .boolean,some (.boolean value) => .ok ("BOOLEAN",.boolean value)
  | .boolean,none => .ok ("BOOLEAN",.null)
  | .date,some (.date millisSinceEpoch) => .ok ("DATE_MS",.integer millisSinceEpoch)
  | .date,none => .error "NullPointerException"
  | .intervalDay,some (.number value) =>
    .ok ("INTERVAL_DAY",.integer (((RexValue.toInteger value).bmod (2^64)).tdiv 86400000))
  | .intervalDay,none => .error "NullPointerException"
  | .intervalYear,some (.number value) => .ok ("INTERVAL_MONTH",.integer ((RexValue.toInteger value).bmod (2^32)))
  | .intervalYear,none => .ok ("INTERVAL_MONTH",.null)
  | .intervalMonth,some (.number value) => .ok ("INTERVAL_MONTH",.integer ((RexValue.toInteger value).bmod (2^32)))
  | .intervalMonth,none => .ok ("INTERVAL_MONTH",.null)
  | .symbol,some (.timeUnitRange name) => .ok ("SYMBOL",.string name)
  | .symbol,none => .ok ("SYMBOL",.null)
  | .other name,_ => .error ("Serialize unsupported RexLiteral with basicTypeName: " ++ name)
  | _,_ => .error "ClassCastException"

def visitLiteral (typeName : SqlTypeName) (value : Option RexValue) : Except String RexJson := do
  let (type,value) ← getValueAs doubleValue typeName value
  .ok (.literal type value)

def serializeSargEndPoint (typeName : SqlTypeName) (endpoint : RexValue) : Except String JsonValue :=
  match typeName,endpoint with
  | .char,.string value => .ok (.string value)
  | .varchar,.string value => .ok (.string value)
  | .integer,.number value => .ok (.integer ((RexValue.toInteger value).bmod (2^32)))
  | .bigint,.number value => .ok (.integer ((RexValue.toInteger value).bmod (2^64)))
  | .double,.number value => .ok (.double (doubleValue value))
  | .decimal,.number value => .ok (.double (doubleValue value))
  | .date,.date millisSinceEpoch => .ok (.integer millisSinceEpoch)
  | typeName,_ => .error ("Serialize unsupported RexLiteral with basicTypeName: " ++ typeName.name)

/-- The lower end points of the ranges that have one. -/
def serializeSargPoints (typeName : SqlTypeName) : List Range → Except String (List JsonValue)
  | [] => .ok []
  | range::ranges => do
    match range.lower with
    | some lower =>
      let value ← serializeSargEndPoint doubleValue typeName lower.1
      let values ← serializeSargPoints typeName ranges
      .ok (value::values)
    | none => serializeSargPoints typeName ranges

def basicTypeNameStr (typeName : SqlTypeName) : String :=
  if typeName = .date then "DATE_MS" else typeName.name

def comparison (kind : SqlKind) (fieldName type : String) (value : JsonValue) : RexJson :=
  .operation kind.name [.inputRef fieldName,.literal type value]

/-- The type of a bound that the range does not have is an exception of its own. -/
def serializeRange (fieldName : String) (typeName : SqlTypeName) (range : Range) : Except String RexJson := do
  let lowerValue ← range.lower.mapM fun lower => serializeSargEndPoint doubleValue typeName lower.1
  let upperValue ← range.upper.mapM fun upper => serializeSargEndPoint doubleValue typeName upper.1
  match lowerValue,upperValue,range.lower,range.upper with
  | some lowerValue,some upperValue,some lower,some upper =>
    if lowerValue = upperValue then
      .ok (comparison .equals fieldName (basicTypeNameStr typeName) lowerValue)
    else
      let lowerOp := if lower.2 = .open then SqlKind.greaterThan else SqlKind.greaterThanOrEqual
      let upperOp := if upper.2 = .open then SqlKind.lessThan else SqlKind.lessThanOrEqual
      .ok (.operation SqlKind.and.name [comparison lowerOp fieldName (basicTypeNameStr typeName) lowerValue,
        comparison upperOp fieldName (basicTypeNameStr typeName) upperValue])
  | _,_,_,_ => .error "IllegalStateException"

/-- The ranges behind the first one are each put into an `OR` with what is there. -/
def serializeRanges (fieldName : String) (typeName : SqlTypeName) (rangeSet : RexJson) : List Range →
    Except String RexJson
  | [] => .ok rangeSet
  | range::ranges => do
    let json ← serializeRange doubleValue fieldName typeName range
    serializeRanges fieldName typeName (.operation SqlKind.or.name [rangeSet,json]) ranges

def serializeSearch (fieldName : String) (typeName : SqlTypeName) (sarg : Sarg) : Except String RexJson :=
  if sarg.isPoints then do
    let values ← serializeSargPoints doubleValue typeName sarg.rangeSet
    .ok (.operation SqlKind.in.name [.inputRef fieldName,.literals (basicTypeNameStr typeName) values])
  else if sarg.isComplementedPoints then do
    let values ← serializeSargPoints doubleValue typeName sarg.rangeSet
    .ok (.operation SqlKind.not.name [.operation SqlKind.in.name [.inputRef fieldName,
      .literals (basicTypeNameStr typeName) values]])
  else
    match sarg.rangeSet with
    | [] => .error "NullPointerException"
    | range::ranges => do
      let first ← serializeRange doubleValue fieldName typeName range
      serializeRanges doubleValue fieldName typeName first ranges

/-- A condition, a value and what is to be done else, from the operands of a `CASE`. -/
def visitCaseOperands : List RexJson → Except String RexJson
  | [ifJson,thenJson,elseJson] => .ok (.branches ifJson thenJson elseJson)
  | ifJson::thenJson::later => do
    let elseJson ← visitCaseOperands later
    .ok (.branches ifJson thenJson elseJson)
  | _ => .error "IndexOutOfBoundsException"

/-- What is made of the operands of a call. -/
def visitCall (kind : SqlKind) (operands : List RexJson) : Except String RexJson :=
  match kind,operands with
  | .case,operands => do
    let condition ← visitCaseOperands operands
    .ok (.conditional SqlKind.case.name condition)
  | .isTrue,operand::_ => .ok (.operation SqlKind.equals.name [operand,.literal "BOOLEAN" (.boolean true)])
  | .isFalse,operand::_ => .ok (.operation SqlKind.equals.name [operand,.literal "BOOLEAN" (.boolean false)])
  | .isNotTrue,operand::_ =>
    .ok (.operation SqlKind.or.name [.operation SqlKind.isNull.name [operand],
      .operation SqlKind.equals.name [operand,.literal "BOOLEAN" (.boolean false)]])
  | .isNotFalse,operand::_ =>
    .ok (.operation SqlKind.or.name [.operation SqlKind.isNull.name [operand],
      .operation SqlKind.equals.name [operand,.literal "BOOLEAN" (.boolean true)]])
  | .isTrue,[] => .error "IndexOutOfBoundsException"
  | .isFalse,[] => .error "IndexOutOfBoundsException"
  | .isNotTrue,[] => .error "IndexOutOfBoundsException"
  | .isNotFalse,[] => .error "IndexOutOfBoundsException"
  | kind,operands => .ok (.operation kind.name operands)

/-- The kinds that no case is for are refused before their operands are visited. -/
def checkKind : SqlKind → Except String Unit
  | .in => .error ("Serialize unsupported RexCall: " ++ SqlKind.in.name)
  | .other name => .error ("Serialize unsupported RexCall: " ++ name)
  | _ => .ok ()

def checkOtherFunction (name : String) : Except String Unit :=
  if name = "SUBSTRING" then .ok () else .error ("Serialize unsupported OTHER_FUNCTION: " ++ name)

def visitInputRef (fieldNames : List String) (index : Nat) : Except String String :=
  match fieldNames[index]? with
  | some fieldName => .ok fieldName
  | none => .error "IndexOutOfBoundsException"

variable (fieldNames : List String)

/-- A search is written for a column and a literal that is not null. -/
def visitSearch (operand : RexNode) (typeName : SqlTypeName) (sarg : Option Sarg) : Except String RexJson :=
  match operand,sarg with
  | .inputRef index,some sarg => do
    let fieldName ← visitInputRef fieldNames index
    serializeSearch doubleValue fieldName typeName sarg
  | .inputRef _,none => .error "Invalid Sarg: null"
  | _,_ => .error "ClassCastException"

mutual
def serialize : RexNode → Except String RexJson
  | .inputRef index => do
    let fieldName ← visitInputRef fieldNames index
    .ok (.inputRef fieldName)
  | .literal typeName value => visitLiteral doubleValue typeName value
  | .call kind operands => do
    checkKind kind
    let operandsJArr ← serializeAll operands
    visitCall kind operandsJArr
  | .otherFunction name operands => do
    checkOtherFunction name
    let operandsJArr ← serializeAll operands
    .ok (.operation name operandsJArr)
  | .search operand typeName sarg => visitSearch doubleValue fieldNames operand typeName sarg
  termination_by structural node => node

def serializeAll : List RexNode → Except String (List RexJson)
  | [] => .ok []
  | operand::operands => do
    let json ← serialize operand
    let later ← serializeAll operands
    .ok (json::later)
  termination_by structural operands => operands
end

end RexJsonSerializer
end Hermes.Calcite
