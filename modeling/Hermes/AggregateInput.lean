import Hermes.PlanMeaning
import Hermes.SentColumns

/-! What an aggregate reads. The number in a generated name is taken as the place of a field in a projection right
below; that field's expression is computed in the aggregate, and the projection passes its columns on instead. -/
namespace Hermes.Calcite.AggregateInput
open Gandiva Prephysical Library.Fallible CalcitePlanJsonDeserializer CollectedFields SentColumns
open Tuples (canonicalize canonicalize_canonicalize)
variable {ν : Type}

structure AggregateCall (fields : Nat) where
  aggFunction : String
  outputField : String
  argument : Option (Fin fields)

/-- An aggregate of the optimizer, with the names of its input's fields. Group fields and
arguments are places among them. -/
structure EnumerableAggregate where
  input : RelJson
  inputFieldNames : List String
  groupSet : List (Fin inputFieldNames.length)
  aggCallList : List (AggregateCall inputFieldNames.length)
  named : ∀ fields, projectFields input = some fields → inputFieldNames = fields.map Prod.fst

namespace EnumerableAggregate
variable (aggregate : EnumerableAggregate)

def groupFields : List String := aggregate.groupSet.map aggregate.inputFieldNames.get

def serializeCall (call : AggregateCall aggregate.inputFieldNames.length) : Aggregation :=
  ⟨call.aggFunction,call.outputField,call.argument.map aggregate.inputFieldNames.get⟩

def serializeEnumerableAggregate : RelJson :=
  .aggregate aggregate.groupFields (aggregate.aggCallList.map aggregate.serializeCall) aggregate.input

/-- The expression of an input field over the rows below: that of the projection, or the
column of the field's name where the input is no projection. -/
def Source (field : Fin aggregate.inputFieldNames.length) (source : Expression) : Prop :=
  match projectFields aggregate.input with
  | some fields => ∃ name json, fields[(field : Nat)]? = some (name,json) ∧ deserializeExpression json = .ok source
  | none => source = .column (canonicalize (aggregate.inputFieldNames.get field))

end EnumerableAggregate

section Reads

/-- A column under its own name has its value, whatever the other expressions mean. -/
def Lawful (meaning : Meaning ν) : Prop := ∀ name row, meaning.value (.column name) row = row name

def sentRow (meaning : Meaning ν) (produced : Produced) (row : Record ν) : Record ν :=
  fun name => (produced name).bind fun source => meaning.value source row

/-- On the rows that are sent the expression has the value that the source has below, and all its columns are there. -/
def Reads (produced : Produced) (expression source : Expression) : Prop :=
  (∀ name ∈ expression.involvedColumnNames, produced name ≠ none) ∧
    ∀ (ν : Type) (meaning : Meaning ν), Lawful meaning → ∀ row,
      meaning.value expression (sentRow meaning produced row) = meaning.value source row

def columnName? : Expression → Option String
  | .column name => some name
  | _ => none

theorem columnName?_eq {expression : Expression} {name : String} :
    columnName? expression = some name ↔ expression = .column name := by
  cases expression <;> simp [columnName?]

/-- A column is replaced by what is sent under its name; an expression is the source itself,
and its columns are sent as they are. -/
def ReadsAs (sent : String → Expression → Prop) (expression source : Expression) : Prop :=
  match columnName? expression with
  | some name => sent name source
  | none => expression = source ∧ ∀ name ∈ expression.involvedColumnNames, sent name (.column name)

inductive Term where
  | atom (name : String)
  | node (expression : Expression) (arguments : List (Option Term))

/-- Every expression has its own value. -/
def termMeaning : Meaning Term where
  scan _ := []
  value expression row :=
    match columnName? expression with
    | some name => row name
    | none => some (.node expression (expression.involvedColumnNames.map row))
  holds _ _ := true
  aggregate _ _ := none
  count _ := none
  inOrder _ _ _ := true
  sameKeys _ _ := true
  value_congr expression first second same := by
    cases column : columnName? expression with
    | some name =>
      obtain rfl := columnName?_eq.mp column
      exact same name (List.mem_singleton_self name)
    | none =>
      simp only [List.map_congr_left same]
  holds_congr _ _ _ _ := rfl

theorem termMeaning_lawful : Lawful termMeaning := fun _ _ => rfl

theorem termMeaning_value {expression : Expression} (computed : columnName? expression = none) (row : Record Term) :
    termMeaning.value expression row = some (.node expression (expression.involvedColumnNames.map row)) := by
  simp only [termMeaning,computed]

def atoms : Record Term := fun name => some (.atom name)

theorem termMeaning_injective {first second : Expression}
    (same : termMeaning.value first atoms = termMeaning.value second atoms) : first = second := by
  cases column : columnName? first with
  | some name =>
    obtain rfl := columnName?_eq.mp column
    cases column' : columnName? second with
    | some name' =>
      obtain rfl := columnName?_eq.mp column'
      rw [termMeaning_lawful,termMeaning_lawful,atoms,atoms,Option.some.injEq,Term.atom.injEq] at same
      rw [same]
    | none =>
      rw [termMeaning_lawful,termMeaning_value column',atoms,Option.some.injEq] at same
      cases same
  | none =>
    cases column' : columnName? second with
    | some name' =>
      obtain rfl := columnName?_eq.mp column'
      rw [termMeaning_lawful,termMeaning_value column,atoms,Option.some.injEq] at same
      cases same
    | none =>
      rw [termMeaning_value column,termMeaning_value column',Option.some.injEq,Term.node.injEq] at same
      exact same.1

theorem reads_iff {produced : Produced} {expression source : Expression} :
    Reads produced expression source ↔ ReadsAs (fun name source => produced name = some source) expression source := by
  unfold Reads ReadsAs
  cases column : columnName? expression with
  | some name =>
    obtain rfl := columnName?_eq.mp column
    constructor
    · rintro ⟨there,same⟩
      obtain ⟨sent,found⟩ := Option.ne_none_iff_exists'.mp (there name (List.mem_singleton_self name))
      have value := same Term termMeaning termMeaning_lawful atoms
      rw [termMeaning_lawful,sentRow,found,Option.bind_some] at value
      rw [← termMeaning_injective value]
      exact found
    · intro found
      refine ⟨fun other inside => ?_,fun ν meaning lawful row => ?_⟩
      · rw [List.mem_singleton.mp inside,found]
        exact Option.some_ne_none _
      · rw [lawful,sentRow,found,Option.bind_some]
  | none =>
    constructor
    · rintro ⟨there,same⟩
      have value := same Term termMeaning termMeaning_lawful atoms
      have source_ : expression = source := by
        cases column' : columnName? source with
        | some name' =>
          obtain rfl := columnName?_eq.mp column'
          rw [termMeaning_lawful,termMeaning_value column,atoms,Option.some.injEq] at value
          cases value
        | none =>
          rw [termMeaning_value column,termMeaning_value column',Option.some.injEq,Term.node.injEq] at value
          exact value.1
      refine ⟨source_,fun name inside => ?_⟩
      rw [← source_,termMeaning_value column,termMeaning_value column,Option.some.injEq,Term.node.injEq] at value
      have entry := List.map_inj_left.mp value.2 name inside
      obtain ⟨sent,found⟩ := Option.ne_none_iff_exists'.mp (there name inside)
      rw [sentRow,found,Option.bind_some,← termMeaning_lawful name atoms] at entry
      rw [← termMeaning_injective entry]
      exact found
    · rintro ⟨rfl,sent⟩
      refine ⟨fun name inside => ?_,fun ν meaning lawful row => ?_⟩
      · rw [sent name inside]
        exact Option.some_ne_none _
      · apply meaning.value_congr
        intro name inside
        rw [sentRow,sent name inside,Option.bind_some,lawful]

end Reads

section Aggregations
variable {input : RelJson} {name : String} {aggregations : List Aggregation}

def Generated (name : String) : Prop := (canonicalize name).toList.take 2 = ['$','f']

instance : Decidable (Generated name) := inferInstanceAs (Decidable (_ = _))

theorem aggInputField_eq_ok {expression : Expression} {ids : List Nat} :
    aggInputField input name = .ok (expression,ids) ↔
    if Generated name then ∃ fields id field, projectFields input = some fields ∧
    fieldId (canonicalize name) = some id ∧
      fields[id]? = some field ∧ deserializeExpression field.2 = .ok expression ∧ ids = [id]
    else expression = .column (canonicalize name) ∧ ids = [] := by
  simp only [aggInputField]
  by_cases generated : Generated name
  · have spelt : (canonicalize name).toList.take 2 = ['$','f'] := generated
    rw [if_pos generated,if_pos spelt]
    cases number : fieldId (canonicalize name) with
    | none => simp
    | some id =>
      cases below : projectFields input with
      | none => simp
      | some fields =>
        cases place : fields[id]? with
        | none => simp [place]
        | some field =>
          simp only [Option.bind_some,place,bind_eq_ok,Except.ok.injEq,Prod.mk.injEq,Option.some.injEq]
          constructor
          · rintro ⟨_,read,rfl,rfl⟩
            exact ⟨_,_,_,rfl,rfl,place,read,rfl⟩
          · rintro ⟨_,_,field',rfl,rfl,found,read,rfl⟩
            obtain rfl := Option.some.inj (place.symm.trans found)
            exact ⟨_,read,rfl,rfl⟩
  · have spelt : ¬(canonicalize name).toList.take 2 = ['$','f'] := generated
    rw [if_neg generated,if_neg spelt,Except.ok.injEq,Prod.mk.injEq,@eq_comm _ expression,@eq_comm _ ids]

/-- A function, with the ids of the fields that its argument consumes. -/
def Deserializes (input : RelJson) (aggregation : Aggregation) (result : AggregatePrePFunction × List Nat) : Prop :=
  aggregateFunctionType aggregation.aggFunction = .ok result.1.type ∧
    match aggregation.aggInputField with
    | none => result.1.expression = none ∧ result.2 = []
    | some name => ∃ expression, result.1.expression = some expression ∧ aggInputField input name = .ok (expression,result.2)

theorem deserializeAggregations_eq_ok {functions : List AggregatePrePFunction} {consumed : List Nat} :
    deserializeAggregations input aggregations = .ok (functions,consumed) ↔
      ∃ results, List.Forall₂ (Deserializes input) aggregations results ∧ functions = results.map Prod.fst ∧
        consumed = results.flatMap Prod.snd := by
  induction aggregations generalizing functions consumed with
  | nil => simp [deserializeAggregations,eq_comm]
  | cons aggregation aggregations ih =>
    obtain ⟨aggFunction,aggOutputField,argument⟩ := aggregation
    simp only [List.forall₂_cons_left_iff]
    rw [deserializeAggregations,bind_eq_ok]
    cases argument with
    | none =>
      constructor
      · rintro ⟨type,known,read⟩
        obtain ⟨⟨functions',consumed'⟩,later,done⟩ := bind_eq_ok.mp read
        obtain ⟨results,all,rfl,rfl⟩ := ih.mp later
        cases done
        exact ⟨_,⟨(⟨type,none⟩,[]),results,⟨known,rfl,rfl⟩,all,rfl⟩,rfl,rfl⟩
      · rintro ⟨_,⟨⟨⟨type,_⟩,_⟩,results,⟨known,rfl,rfl⟩,all,rfl⟩,rfl,rfl⟩
        exact ⟨type,known,bind_eq_ok.mpr ⟨_,ih.mpr ⟨results,all,rfl,rfl⟩,rfl⟩⟩
    | some name =>
      constructor
      · rintro ⟨type,known,read⟩
        obtain ⟨⟨expression,ids⟩,here,read⟩ := bind_eq_ok.mp read
        obtain ⟨⟨functions',consumed'⟩,later,done⟩ := bind_eq_ok.mp read
        obtain ⟨results,all,rfl,rfl⟩ := ih.mp later
        cases done
        exact ⟨_,⟨(⟨type,some expression⟩,ids),results,⟨known,_,rfl,here⟩,all,rfl⟩,rfl,rfl⟩
      · rintro ⟨_,⟨⟨⟨type,_⟩,ids⟩,results,⟨known,expression,rfl,here⟩,all,rfl⟩,rfl,rfl⟩
        exact ⟨type,known,bind_eq_ok.mpr ⟨_,here,bind_eq_ok.mpr ⟨_,ih.mpr ⟨results,all,rfl,rfl⟩,rfl⟩⟩⟩

end Aggregations

section Reading
variable {catalogueEntry : String → Option Table} {aggregate : EnumerableAggregate}

def Taken (aggregate : EnumerableAggregate) (id : Nat) : Prop :=
  ∃ call ∈ aggregate.aggCallList, ∃ field ∈ call.argument,
    Generated (aggregate.inputFieldNames.get field) ∧
      fieldId (canonicalize (aggregate.inputFieldNames.get field)) = some id

/-- What goes out to the aggregate under a name, as an expression over the rows below its input. -/
def InputSends (catalogueEntry : String → Option Table) (aggregate : EnumerableAggregate) (name : String)
    (source : Expression) : Prop :=
  match projectFields aggregate.input with
  | some fields => Sends (Taken aggregate) fields name source
  | none => name ∈ sentColumns catalogueEntry aggregate.input ∧ source = .column name

def FieldSent (catalogueEntry : String → Option Table) (aggregate : EnumerableAggregate)
    (field : Fin aggregate.inputFieldNames.length) : Prop :=
  ∃ source, aggregate.Source field source ∧
    InputSends catalogueEntry aggregate (canonicalize (aggregate.inputFieldNames.get field)) source

/-- A generated name numbers a field whose expression is right, and what that expression reads goes out. -/
def ArgumentSent (catalogueEntry : String → Option Table) (aggregate : EnumerableAggregate)
    (argument : Fin aggregate.inputFieldNames.length) : Prop :=
  if Generated (aggregate.inputFieldNames.get argument) then
    ∃ fields id field, projectFields aggregate.input = some fields ∧
      fieldId (canonicalize (aggregate.inputFieldNames.get argument)) = some id ∧ fields[id]? = some field ∧
      ∃ expression source, deserializeExpression field.2 = .ok expression ∧ aggregate.Source argument source ∧
        ReadsAs (InputSends catalogueEntry aggregate) expression source
  else FieldSent catalogueEntry aggregate argument

/-- The parts of the operator of an aggregate, with or without group columns. -/
inductive AggregateOrGroup : PrePhysicalOp → List String → List AggregatePrePFunction → PrePhysicalOp → Prop
  | aggregate {names outputs : List String} {functions : List AggregatePrePFunction} {producer : PrePhysicalOp} :
    AggregateOrGroup (.aggregate names outputs functions producer) [] functions producer
  | group {names groupColumnNames outputs : List String} {functions : List AggregatePrePFunction}
    {producer : PrePhysicalOp} :
    AggregateOrGroup (.group names groupColumnNames outputs functions producer) groupColumnNames functions producer

def passedColumns (producer : PrePhysicalOp) : Produced :=
  fun name => if name ∈ columns producer then some (.column name) else none

/-- What the producer of an aggregate sends: over the rows below a projection, and otherwise over its own. -/
def SentBy (catalogueEntry : String → Option Table) (consumed : List Nat) (producer : PrePhysicalOp)
    (sent : Produced) : RelJson → Prop
  | .project fields input => ∃ collected below, deserializeFields consumed 0 fields = .ok collected ∧
    deserializeDfs catalogueEntry [] input = .ok below ∧ producer = projectOp collected below ∧
    sent = produced collected
  | _ => sent = passedColumns producer

/-- Every function gets the value of its argument's field, and every group column that of its field. -/
structure Reading (aggregate : EnumerableAggregate) (sent : Produced) (functions : List AggregatePrePFunction)
    (groupColumnNames : List String) : Prop where
  functions : List.Forall₂ (fun call function => match call.argument with
    | none => function.expression = none
    | some argument => ∃ expression source, function.expression = some expression ∧ aggregate.Source argument source ∧
      Reads sent expression source) aggregate.aggCallList functions
  groups : List.Forall₂ (fun field name => ∃ source, aggregate.Source field source ∧ Reads sent (.column name) source)
    aggregate.groupSet groupColumnNames

def ReadsInput (catalogueEntry : String → Option Table) (aggregate : EnumerableAggregate) : Prop :=
  ∃ op groupColumnNames functions consumed producer sent,
    deserializeDfs catalogueEntry [] aggregate.serializeEnumerableAggregate = .ok op ∧
    AggregateOrGroup op groupColumnNames functions producer ∧
    deserializeAggregations aggregate.input (aggregate.aggCallList.map aggregate.serializeCall) =
      .ok (functions,consumed) ∧
    deserializeDfs catalogueEntry consumed aggregate.input = .ok producer ∧
    SentBy catalogueEntry consumed producer sent aggregate.input ∧ Reading aggregate sent functions groupColumnNames

theorem deserializeDfs_consumed (consumed : List Nat) {input : RelJson} (other : projectFields input = none) :
    deserializeDfs catalogueEntry consumed input = deserializeDfs catalogueEntry [] input := by
  cases input with
  | project => cases other
  | _ => simp only [deserializeDfs]

theorem sentBy_other {consumed : List Nat} {producer : PrePhysicalOp} {sent : Produced} {input : RelJson}
    (other : projectFields input = none) : SentBy catalogueEntry consumed producer sent input ↔
    sent = passedColumns producer := by
  cases input with
  | project => cases other
  | _ => exact Iff.rfl

theorem deserializeDfs_projectOp {consumed : List Nat} {fields : List (String × RexJson)} {input : RelJson}
    {collected : ProjectFields} {below : PrePhysicalOp}
    (collecting : deserializeFields consumed 0 fields = .ok collected)
    (beneath : deserializeDfs catalogueEntry [] input = .ok below) :
    deserializeDfs catalogueEntry consumed (.project fields input) = .ok (projectOp collected below) := by
  rw [deserializeDfs,deserializeProject,collecting,beneath,projectOp]
  cases skips : collected.skipSelf <;> simp [bind,Except.bind,skips]

theorem sentBy_exists {input : RelJson} (read : ∃ op, deserializeDfs catalogueEntry [] input = .ok op)
    (consumed : List Nat) :
    ∃ producer sent, deserializeDfs catalogueEntry consumed input = .ok producer ∧
      SentBy catalogueEntry consumed producer sent input := by
  obtain ⟨op,read⟩ := read
  cases below : projectFields input with
  | none => exact ⟨op,_,(deserializeDfs_consumed consumed below).trans read,(sentBy_other below).mpr rfl⟩
  | some fields =>
    cases input with
    | project fields input =>
      obtain ⟨_,producer,collecting,beneath,_⟩ := deserializeDfs_project read
      obtain ⟨collected,collecting',_⟩ := deserializeFields_spec (readable_of_deserializeFields collecting) consumed 0
      exact ⟨_,_,deserializeDfs_projectOp collecting' beneath,collected,producer,collecting',beneath,rfl,rfl⟩
    | _ => cases below

theorem sent_iff {consumed : List Nat} {producer : PrePhysicalOp} {sent : Produced} (fields : HasFields aggregate.input)
    (read : deserializeDfs catalogueEntry consumed aggregate.input = .ok producer)
    (sends : SentBy catalogueEntry consumed producer sent aggregate.input)
    (taken : ∀ id, id ∈ consumed ↔ Taken aggregate id) {name : String} {source : Expression} :
    sent name = some source ↔ InputSends catalogueEntry aggregate name source := by
  unfold InputSends
  cases below : projectFields aggregate.input with
  | none =>
    rw [(sentBy_other below).mp sends,passedColumns,
      ← mem_columns fields ((deserializeDfs_consumed consumed below).symm.trans read)]
    split
    next inside => simp [inside,eq_comm]
    next outside => simp [outside]
  | some fields' =>
    obtain ⟨input,same⟩ : ∃ input, aggregate.input = .project fields' input := by
      cases own : aggregate.input with
      | project fields'' input =>
        rw [own] at below
        cases below
        exact ⟨input,rfl⟩
      | _ =>
        rw [own] at below
        cases below
    rw [same] at sends
    obtain ⟨collected,_,collecting,_,_,rfl⟩ := sends
    obtain ⟨_,collecting',collects⟩ := deserializeFields_spec (readable_of_deserializeFields collecting) consumed 0
    obtain rfl := Except.ok.inj (collecting.symm.trans collecting')
    have same : (· ∈ consumed) = Taken aggregate := funext fun id => propext (taken id)
    rw [produced_iff collects,same]

theorem mem_consumed {results : List (AggregatePrePFunction × List Nat)}
    (all : List.Forall₂ (Deserializes aggregate.input) (aggregate.aggCallList.map aggregate.serializeCall) results)
    (id : Nat) :
    id ∈ results.flatMap Prod.snd ↔ Taken aggregate id := by
  rw [List.forall₂_map_left_iff] at all
  rw [List.mem_flatMap]
  constructor
  · rintro ⟨result,member,inside⟩
    obtain ⟨call,there,_,argument⟩ := forall₂_mem_right all result member
    simp only [EnumerableAggregate.serializeCall] at argument
    cases own : call.argument with
    | none =>
      rw [own] at argument
      rw [argument.2] at inside
      cases inside
    | some field =>
      rw [own] at argument
      obtain ⟨expression,_,read⟩ := argument
      rw [aggInputField_eq_ok] at read
      split at read
      next generated =>
        obtain ⟨_,id',_,_,number,_,_,ids⟩ := read
        rw [ids,List.mem_singleton] at inside
        exact ⟨call,there,field,own,generated,inside ▸ number⟩
      next =>
        rw [read.2] at inside
        cases inside
  · rintro ⟨call,there,field,own,generated,number⟩
    obtain ⟨result,member,_,argument⟩ := forall₂_mem_left all call there
    simp only [EnumerableAggregate.serializeCall,Option.mem_def.mp own,Option.map_some] at argument
    obtain ⟨expression,_,read⟩ := argument
    rw [aggInputField_eq_ok,if_pos generated] at read
    obtain ⟨_,id',_,_,number',_,_,ids⟩ := read
    refine ⟨result,member,?_⟩
    rw [ids,Option.some.inj (number.symm.trans number')]
    exact List.mem_singleton_self _

theorem argumentSent_iff {argument : Fin aggregate.inputFieldNames.length} :
    ArgumentSent catalogueEntry aggregate argument ↔
      ∃ expression ids, aggInputField aggregate.input (aggregate.inputFieldNames.get argument) = .ok (expression,ids) ∧
        ∃ source, aggregate.Source argument source ∧
        ReadsAs (InputSends catalogueEntry aggregate) expression source := by
  simp only [ArgumentSent,aggInputField_eq_ok]
  split
  next =>
    constructor
    · rintro ⟨fields,id,field,below,number,place,expression,source,read,own,reads⟩
      exact ⟨expression,[id],⟨fields,id,field,below,number,place,read,rfl⟩,source,own,reads⟩
    · rintro ⟨expression,_,⟨fields,id,field,below,number,place,read,_⟩,source,own,reads⟩
      exact ⟨fields,id,field,below,number,place,expression,source,read,own,reads⟩
  next =>
    constructor
    · rintro ⟨source,own,sent⟩
      exact ⟨_,_,⟨rfl,rfl⟩,source,own,sent⟩
    · rintro ⟨_,_,⟨rfl,_⟩,source,own,sent⟩
      exact ⟨source,own,sent⟩

theorem reading_iff {results : List (AggregatePrePFunction × List Nat)} {sent : Produced}
    (all : List.Forall₂ (Deserializes aggregate.input) (aggregate.aggCallList.map aggregate.serializeCall) results)
    (sends : ∀ name source, sent name = some source ↔ InputSends catalogueEntry aggregate name source) :
    Reading aggregate sent (results.map Prod.fst) (aggregate.groupFields.map canonicalize) ↔
      (∀ field ∈ aggregate.groupSet, FieldSent catalogueEntry aggregate field) ∧
        ∀ call ∈ aggregate.aggCallList, ∀ argument ∈ call.argument, ArgumentSent catalogueEntry aggregate argument := by
  have reads : ∀ expression source, Reads sent expression source ↔
      ReadsAs (InputSends catalogueEntry aggregate) expression source := by
    intro expression source
    have same : (fun name source => sent name = some source) = InputSends catalogueEntry aggregate :=
      funext fun name => funext fun source => propext (sends name source)
    rw [reads_iff,same]
  have groups : List.Forall₂ (fun field name => ∃ source, aggregate.Source field source ∧
      Reads sent (.column name) source)
      aggregate.groupSet (aggregate.groupFields.map canonicalize) ↔
        ∀ field ∈ aggregate.groupSet, FieldSent catalogueEntry aggregate field := by
    rw [EnumerableAggregate.groupFields,List.map_map,List.forall₂_map_right_iff,List.forall₂_same]
    simp only [reads]
    exact Iff.rfl
  have functions : List.Forall₂ (fun call function => match call.argument with
      | none => function.expression = none
      | some argument => ∃ expression source, function.expression = some expression ∧ aggregate.Source argument source ∧
        Reads sent expression source) aggregate.aggCallList (results.map Prod.fst) ↔
          ∀ call ∈ aggregate.aggCallList, ∀ argument ∈ call.argument,
            ArgumentSent catalogueEntry aggregate argument := by
    rw [List.forall₂_map_right_iff]
    apply forall₂_iff_forall_mem (List.forall₂_map_left_iff.mp all)
    rintro ⟨aggFunction,outputField,argument⟩ result ⟨_,own⟩
    cases argument with
    | none => exact ⟨fun _ _ none_ => absurd none_ (by simp),fun _ => own.1⟩
    | some argument =>
      obtain ⟨expression,given,read⟩ := own
      simp only [given,Option.some.injEq,reads,Option.mem_def,forall_eq',argumentSent_iff]
      constructor
      · rintro ⟨_,source,rfl,sends⟩
        exact ⟨_,_,read,source,sends⟩
      · rintro ⟨_,_,read',source,sends⟩
        cases read.symm.trans read'
        exact ⟨_,source,rfl,sends⟩
  rw [← groups,← functions]
  constructor
  · intro reading
    exact ⟨reading.groups,reading.functions⟩
  · rintro ⟨fieldsRead,argumentsRead⟩
    exact ⟨argumentsRead,fieldsRead⟩

theorem aggregateOrGroup_iff {functions : List AggregatePrePFunction} {consumed : List Nat} {producer : PrePhysicalOp}
    (aggregations : deserializeAggregations aggregate.input (aggregate.aggCallList.map aggregate.serializeCall) =
      .ok (functions,consumed))
    (read : deserializeDfs catalogueEntry consumed aggregate.input = .ok producer) (groupColumnNames : List String) :
    (∃ op, deserializeDfs catalogueEntry [] aggregate.serializeEnumerableAggregate = .ok op ∧
      AggregateOrGroup op groupColumnNames functions producer) ↔
      groupColumnNames = aggregate.groupFields.map canonicalize := by
  rw [EnumerableAggregate.serializeEnumerableAggregate,deserializeDfs,aggregations]
  simp only [bind,Except.bind,read]
  split
  next none_ =>
    rw [none_]
    constructor
    · rintro ⟨_,⟨⟩,⟨⟩⟩
      rfl
    · rintro rfl
      exact ⟨_,rfl,.aggregate⟩
  next =>
    constructor
    · rintro ⟨_,⟨⟩,⟨⟩⟩
      rfl
    · rintro rfl
      exact ⟨_,rfl,.group⟩

theorem aggregations_exist (supported : ∀ call ∈ aggregate.aggCallList, ∃ type,
      aggregateFunctionType call.aggFunction = .ok type)
    (sent : ∀ call ∈ aggregate.aggCallList, ∀ argument ∈ call.argument,
      ArgumentSent catalogueEntry aggregate argument) :
    ∃ results, List.Forall₂ (Deserializes aggregate.input)
    (aggregate.aggCallList.map aggregate.serializeCall) results := by
  apply exists_forall₂
  intro aggregation member
  obtain ⟨⟨aggFunction,outputField,argument⟩,inside,rfl⟩ := List.mem_map.mp member
  obtain ⟨type,known⟩ := supported _ inside
  cases argument with
  | none => exact ⟨(⟨type,none⟩,[]),known,rfl,rfl⟩
  | some argument =>
    obtain ⟨expression,ids,read,_⟩ := argumentSent_iff.mp (sent _ inside argument rfl)
    exact ⟨(⟨type,some expression⟩,ids),known,expression,rfl,read⟩

theorem sent_of_readsInput (fields : HasFields aggregate.input) (reads : ReadsInput catalogueEntry aggregate) :
    (∀ field ∈ aggregate.groupSet, FieldSent catalogueEntry aggregate field) ∧
      ∀ call ∈ aggregate.aggCallList, ∀ argument ∈ call.argument, ArgumentSent catalogueEntry aggregate argument := by
  obtain ⟨op,groupColumnNames,functions,consumed,producer,sent,reading,parts,aggregations,below,sends,reads⟩ := reads
  obtain rfl := (aggregateOrGroup_iff aggregations below groupColumnNames).mp ⟨op,reading,parts⟩
  obtain ⟨results,all,rfl,rfl⟩ := deserializeAggregations_eq_ok.mp aggregations
  exact (reading_iff all fun name source => sent_iff fields below sends (mem_consumed all)).mp reads

/-- An aggregate reads its fields exactly if every group field and every argument is sent to it: a field that has been
taken for its number only where nothing else needs it, and the columns that are computed with as they are. -/
theorem readsInput_iff (supported : ∀ call ∈ aggregate.aggCallList, ∃ type, aggregateFunctionType call.aggFunction = .ok type)
    (fields : HasFields aggregate.input) (read : ∃ op, deserializeDfs catalogueEntry [] aggregate.input = .ok op) :
    ReadsInput catalogueEntry aggregate ↔
      (∀ field ∈ aggregate.groupSet, FieldSent catalogueEntry aggregate field) ∧
        ∀ call ∈ aggregate.aggCallList, ∀ argument ∈ call.argument, ArgumentSent catalogueEntry aggregate argument := by
  refine ⟨sent_of_readsInput fields,fun sent => ?_⟩
  obtain ⟨results,all⟩ := aggregations_exist supported sent.2
  have aggregations := deserializeAggregations_eq_ok.mpr ⟨results,all,rfl,rfl⟩
  obtain ⟨producer,columns,below,sends⟩ := sentBy_exists read (results.flatMap Prod.snd)
  obtain ⟨op,reading,parts⟩ := (aggregateOrGroup_iff aggregations below _).mpr rfl
  exact ⟨op,_,_,_,producer,columns,reading,parts,aggregations,below,sends,
    (reading_iff all fun name source => sent_iff fields below sends (mem_consumed all)).mpr sent⟩

end Reading

section Examples

def product : RexJson := .operation "TIMES" [.inputRef "price",.inputRef "count"]

def productExpression : Expression := .binary .multiply (.column "price") (.column "count")

theorem product_read : deserializeExpression product = .ok productExpression := rfl

def orders (name : String) : Option Table := some ⟨name,["id","price","count"]⟩

def sumById : EnumerableAggregate :=
  ⟨.project [("id",.inputRef "id"),("$f1",product)] (.tableScan "orders"),["id","$f1"],[Fin.mk 0 Nat.zero_lt_two],
    [⟨"SUM","total",some (Fin.mk 1 Nat.one_lt_two)⟩],
    fun _ same => by cases same; rfl⟩

def sumByProduct : EnumerableAggregate :=
  ⟨.project [("$f0",product)] (.tableScan "orders"),["$f0"],[Fin.mk 0 Nat.zero_lt_one],
    [⟨"SUM","total",some (Fin.mk 0 Nat.zero_lt_one)⟩],
    fun _ same => by cases same; rfl⟩

theorem sumById_read : ∃ op, deserializeDfs orders [] sumById.input = .ok op := ⟨_,rfl⟩

theorem taken_sumById : Taken sumById 1 := ⟨_,List.mem_singleton_self _,Fin.mk 1 Nat.one_lt_two,rfl,by decide,by decide⟩

theorem leftOut_sumById : LeftOut (Taken sumById) [("id",.inputRef "id"),("$f1",product)] := by
  intro field inside
  rcases List.mem_cons.mp inside with rfl | later
  · exact .inl ⟨"id",rfl,rfl⟩
  · obtain rfl := List.mem_singleton.mp later
    exact .inr ⟨rfl,taken_sumById⟩

theorem sumById_reads : ReadsInput orders sumById := by
  refine (readsInput_iff ?_ ?_ sumById_read).mpr ⟨?_,?_⟩
  · intro call inside
    obtain rfl := List.mem_singleton.mp inside
    exact ⟨.sum,rfl⟩
  · exact List.cons_ne_nil _ _
  · intro field inside
    obtain rfl := List.mem_singleton.mp inside
    exact ⟨.column "id",⟨_,_,rfl,rfl⟩,_,List.mem_cons_self,.own (.inl rfl) rfl,.inl leftOut_sumById⟩
  · intro call inside argument given
    obtain rfl := List.mem_singleton.mp inside
    obtain rfl := Option.mem_some.mp given
    refine (if_pos (by decide)).mpr ⟨_,1,_,rfl,by decide,rfl,productExpression,productExpression,product_read,
      ⟨_,_,rfl,product_read⟩,rfl,?_⟩
    intro name involved
    exact ⟨_,List.mem_cons_of_mem _ (List.mem_singleton_self _),.column rfl taken_sumById product_read involved,
      .inl leftOut_sumById⟩

/-- The product is computed in the aggregate, and no column of the products is left to group by. -/
theorem sumByProduct_misses : ¬ReadsInput orders sumByProduct := by
  intro reads
  have fields : HasFields sumByProduct.input := List.cons_ne_nil _ _
  obtain ⟨source,own,sent⟩ := (sent_of_readsInput fields reads).1 (Fin.mk 0 Nat.zero_lt_one) (List.mem_singleton_self _)
  have computed : source = productExpression := by
    obtain ⟨_,_,⟨⟩,read⟩ := own
    exact Except.ok.inj (read.symm.trans product_read)
  obtain ⟨field,inside,puts,_⟩ := sent
  obtain rfl := List.mem_singleton.mp inside
  have taken : Taken sumByProduct 0 := ⟨_,List.mem_singleton_self _,Fin.mk 0 Nat.zero_lt_one,rfl,by decide,by decide⟩
  rcases puts with ⟨stays,_⟩ | _
  · rcases stays with ref | free
    · cases ref
    · exact free taken
  · cases computed

end Examples

end Hermes.Calcite.AggregateInput
