import Hermes.PlanDeserializer
import Hermes.ExpressionColumns
import Hermes.Library.Entries

/-! What a projection sends when some of its fields have been taken by the aggregate above it. A taken field stands for
the columns of its expression, and a projection of columns under their own names is left out. -/
namespace Hermes.Calcite.CollectedFields
open Gandiva Prephysical Library.Fallible Library.Entries CalcitePlanJsonDeserializer
open Tuples (canonicalize canonicalize_canonicalize)

section Fields
variable {consumed : List Nat} {fields : List (String × RexJson)} {fieldId : Nat} {name : String} {json : RexJson}

def isInputRef : RexJson → Bool
  | .inputRef _ => true
  | _ => false

/-- The columns of a field's output: those of its expression if it has been taken, and otherwise its own. -/
def fieldColumns (consumed : List Nat) (field : (String × RexJson) × Nat) : List (String × Expression) :=
  match deserializeExpression field.1.2 with
  | .error _ => []
  | .ok expression =>
    if isInputRef field.1.2 = false ∧ field.2 ∈ consumed then
      expression.involvedColumnNames.map fun name => (name,.column name)
    else [(canonicalize field.1.1,expression)]

def Passes (consumed : List Nat) (field : (String × RexJson) × Nat) : Prop :=
  (∃ ref, field.1.2 = .inputRef ref ∧ canonicalize ref = canonicalize field.1.1) ∨
    (isInputRef field.1.2 = false ∧ field.2 ∈ consumed)

structure Collects (consumed : List Nat) (fieldId : Nat) (fields : List (String × RexJson))
    (collected : ProjectFields) : Prop where
  skips : collected.skipSelf = true ↔ ∀ field ∈ fields.zipIdx fieldId, Passes consumed field
  uses : ∀ name, name ∈ collected.usedColumnNames ↔
    ∃ field ∈ fields, ∃ expression, deserializeExpression field.2 = .ok expression ∧
      name ∈ expression.involvedColumnNames
  width : collected.exprNames.length = collected.exprs.length
  names : ∀ name, name ∈ collected.projectColumnNames ↔
    name ∈ collected.exprNames ++ collected.projectColumnNamePairs.map Prod.snd
  columns : (collected.projectColumnNamePairs.map (fun pair => (pair.2,Expression.column pair.1)) ++
    collected.exprNames.zip collected.exprs).Perm ((fields.zipIdx fieldId).flatMap (fieldColumns consumed))

def addRef (name ref : String) (later : ProjectFields) : ProjectFields :=
  {later with
    skipSelf := decide (canonicalize ref = canonicalize name) && later.skipSelf
    usedColumnNames := canonicalize ref::later.usedColumnNames
    projectColumnNames := canonicalize name::later.projectColumnNames
    projectColumnNamePairs := (canonicalize ref,canonicalize name)::later.projectColumnNamePairs}

def addTaken (expression : Expression) (later : ProjectFields) : ProjectFields :=
  {later with
    usedColumnNames := expression.involvedColumnNames ++ later.usedColumnNames
    projectColumnNames := expression.involvedColumnNames ++ later.projectColumnNames
    projectColumnNamePairs := (expression.involvedColumnNames.map fun name => (name,name)) ++
      later.projectColumnNamePairs}

def addExpression (name : String) (expression : Expression) (later : ProjectFields) : ProjectFields :=
  {later with
    skipSelf := false
    usedColumnNames := expression.involvedColumnNames ++ later.usedColumnNames
    projectColumnNames := canonicalize name::later.projectColumnNames
    exprs := expression::later.exprs
    exprNames := canonicalize name::later.exprNames}

theorem deserializeFields_ref (ref : String) : deserializeFields consumed fieldId ((name,.inputRef ref)::fields) =
    (deserializeFields consumed (fieldId+1) fields).map (addRef name ref) := by
  rw [deserializeFields]
  exact bind_ok _ _

theorem deserializeFields_expression {expression : Expression} (computed : isInputRef json = false)
    (read : deserializeExpression json = .ok expression) :
    deserializeFields consumed fieldId ((name,json)::fields) = (deserializeFields consumed (fieldId+1) fields).map
      (if fieldId ∈ consumed then addTaken expression else addExpression name expression) := by
  have canonical : expression.involvedColumnNames.map canonicalize = expression.involvedColumnNames := by
    rw [List.map_congr_left (canonical_expression read),List.map_id']
  have step : deserializeFields consumed fieldId ((name,json)::fields) =
      (deserializeFields consumed (fieldId+1) fields).bind fun later =>
        if consumed.contains fieldId then .ok (addTaken expression later) else .ok (addExpression name expression later) := by
    cases json with
    | inputRef ref => cases computed
    | literals type values => cases read
    | branches ifJson thenJson elseJson => cases read
    | _ =>
      rw [deserializeFields,read]
      · simp only [bind,Except.bind,canonical,addTaken,addExpression]
      all_goals nofun
  rw [step]
  cases deserializeFields consumed (fieldId+1) fields with
  | error _ => rfl
  | ok later =>
    by_cases taken : fieldId ∈ consumed
    · rw [if_pos taken]
      exact if_pos (List.elem_iff.mpr taken)
    · rw [if_neg taken]
      exact if_neg (fun inside => taken (List.elem_iff.mp inside))

theorem fieldColumns_eq {expression : Expression} (read : deserializeExpression json = .ok expression) :
    fieldColumns consumed ((name,json),fieldId) =
      if isInputRef json = false ∧ fieldId ∈ consumed then expression.involvedColumnNames.map fun name => (name,.column name)
      else [(canonicalize name,expression)] := by
  rw [fieldColumns,read]

variable {later : ProjectFields}

theorem Collects.ref (collects : Collects consumed (fieldId+1) fields later) (ref : String) :
    Collects consumed fieldId ((name,.inputRef ref)::fields) (addRef name ref later) := by
  have own : fieldColumns consumed ((name,.inputRef ref),fieldId) =
      [(canonicalize name,.column (canonicalize ref))] := by
    rw [fieldColumns_eq rfl,if_neg (by simp [isInputRef])]
  refine ⟨?_,?_,collects.width,?_,?_⟩
  · rw [List.zipIdx_cons,List.forall_mem_cons,← collects.skips]
    simp [addRef,Passes,isInputRef]
  · intro other
    simp [addRef,collects.uses,deserializeExpression,Expression.involvedColumnNames]
  · intro other
    simp only [addRef,List.mem_cons,collects.names,List.mem_append,List.map_cons]
    tauto
  · rw [List.zipIdx_cons,List.flatMap_cons,own]
    exact collects.columns.cons _

theorem Collects.taken (collects : Collects consumed (fieldId+1) fields later) {expression : Expression}
    (computed : isInputRef json = false) (read : deserializeExpression json = .ok expression)
    (inside : fieldId ∈ consumed) :
    Collects consumed fieldId ((name,json)::fields) (addTaken expression later) := by
  have columns : fieldColumns consumed ((name,json),fieldId) =
      expression.involvedColumnNames.map fun name => (name,.column name) := by
    rw [fieldColumns_eq read,if_pos ⟨computed,inside⟩]
  refine ⟨?_,?_,collects.width,?_,?_⟩
  · rw [List.zipIdx_cons,List.forall_mem_cons,← collects.skips]
    simp [addTaken,Passes,computed,inside]
  · intro other
    simp [addTaken,collects.uses,read]
  · intro other
    simp only [addTaken,List.mem_append,collects.names,List.map_append,List.map_map,Function.comp_def,List.map_id']
    tauto
  · rw [List.zipIdx_cons,List.flatMap_cons,columns]
    simpa [addTaken,Function.comp_def] using collects.columns.append_left _

theorem Collects.expression (collects : Collects consumed (fieldId+1) fields later) {expression : Expression}
    (computed : isInputRef json = false) (read : deserializeExpression json = .ok expression)
    (free : fieldId ∉ consumed) :
    Collects consumed fieldId ((name,json)::fields) (addExpression name expression later) := by
  have own : fieldColumns consumed ((name,json),fieldId) = [(canonicalize name,expression)] := by
    rw [fieldColumns_eq read,if_neg (fun taken => free taken.2)]
  refine ⟨?_,?_,?_,?_,?_⟩
  · rw [List.zipIdx_cons,List.forall_mem_cons]
    refine iff_of_false Bool.false_ne_true ?_
    rintro ⟨⟨ref,same,_⟩ | ⟨_,inside⟩,_⟩
    · change json = _ at same
      rw [same] at computed
      cases computed
    · exact free inside
  · intro other
    simp [addExpression,collects.uses,read]
  · simp [addExpression,collects.width]
  · intro other
    simp only [addExpression,List.mem_cons,collects.names,List.mem_append]
    tauto
  · rw [List.zipIdx_cons,List.flatMap_cons,own]
    exact List.perm_middle.trans (collects.columns.cons _)

theorem deserializeFields_spec
    (readable : ∀ field ∈ fields, ∃ expression, deserializeExpression field.2 = .ok expression)
    (consumed : List Nat) (fieldId : Nat) :
    ∃ collected, deserializeFields consumed fieldId fields = .ok collected ∧
    Collects consumed fieldId fields collected := by
  induction fields generalizing fieldId with
  | nil => exact ⟨_,rfl,⟨by simp,by simp,rfl,by simp,by simp⟩⟩
  | cons field fields ih =>
    obtain ⟨name,json⟩ := field
    obtain ⟨⟨expression,read⟩,rest⟩ := List.forall_mem_cons.mp readable
    obtain ⟨later,below,collects⟩ := ih rest (fieldId+1)
    cases computed : isInputRef json with
    | true =>
      cases json with
      | inputRef ref => exact ⟨_,by rw [deserializeFields_ref,below]; rfl,collects.ref ref⟩
      | _ => cases computed
    | false =>
      by_cases inside : fieldId ∈ consumed
      · exact ⟨_,by rw [deserializeFields_expression computed read,below,
          if_pos inside]; rfl,collects.taken computed read inside⟩
      · exact ⟨_,by rw [deserializeFields_expression computed read,below,if_neg inside]; rfl,
          collects.expression computed read inside⟩

theorem readable_of_deserializeFields {collected : ProjectFields}
    (read : deserializeFields consumed fieldId fields = .ok collected) :
    ∀ field ∈ fields, ∃ expression, deserializeExpression field.2 = .ok expression := by
  induction fields generalizing fieldId collected with
  | nil => simp
  | cons field fields ih =>
    obtain ⟨name,json⟩ := field
    rw [List.forall_mem_cons]
    cases json with
    | inputRef ref =>
      rw [deserializeFields] at read
      obtain ⟨later,below,_⟩ := bind_eq_ok.mp read
      exact ⟨⟨_,rfl⟩,ih below⟩
    | literals type values => cases read
    | branches ifJson thenJson elseJson => cases read
    | _ =>
      rw [deserializeFields] at read
      · obtain ⟨expression,here,rest⟩ := bind_eq_ok.mp read
        obtain ⟨later,below,_⟩ := bind_eq_ok.mp rest
        exact ⟨⟨expression,here⟩,ih below⟩
      all_goals nofun

end Fields

section Produced

/-- The columns that a producer sends, each with its expression over the rows below. -/
abbrev Produced := String → Option Expression

variable {consumed : List Nat} {fields : List (String × RexJson)} {collected : ProjectFields}

/-- What is made of the projection: the operator below it, asked for the columns in use, or a projection. -/
def projectOp (collected : ProjectFields) (producer : PrePhysicalOp) : PrePhysicalOp :=
  if collected.skipSelf then producer.setProjectColumnNames collected.usedColumnNames
  else .project collected.projectColumnNames collected.exprs collected.exprNames
    (PrePhysicalOp.updateProjectColumnNamePairs collected.exprNames collected.projectColumnNamePairs collected.projectColumnNames)
    producer

/-- The columns that a projection sends: those of the pairs and then those of the expressions. -/
def projectColumns (collected : ProjectFields) : List (String × Expression) :=
  (PrePhysicalOp.updateProjectColumnNamePairs collected.exprNames collected.projectColumnNamePairs
      collected.projectColumnNames).map (fun pair => (pair.2,.column pair.1)) ++ collected.exprNames.zip collected.exprs

/-- The one column of the name; Arrow finds none where several have it. -/
def sole (columns : List (String × Expression)) : Produced := fun name =>
  match columns.filter fun column => column.1 = name with
  | [column] => some column.2
  | _ => none

def produced (collected : ProjectFields) : Produced :=
  if collected.skipSelf then fun name => if name ∈ collected.usedColumnNames then some (.column name) else none
  else sole (projectColumns collected)

theorem sole_eq_some {columns : List (String × Expression)} {name : String} {source : Expression} :
    sole columns name = some source ↔ (columns.filter fun column => column.1 = name) = [(name,source)] := by
  unfold sole
  constructor
  · intro found
    split at found
    next column one =>
      have member : column ∈ columns.filter fun column => column.1 =
          name := by rw [one]; exact List.mem_singleton_self _
      rw [one,← Option.some.inj found,← of_decide_eq_true (List.mem_filter.mp member).2]
    next => cases found
  · intro one
    rw [one]

theorem sole_perm {columns columns' : List (String × Expression)} (same : columns.Perm columns') :
    sole columns = sole columns' := by
  funext name
  apply Option.ext
  intro source
  rw [sole_eq_some,sole_eq_some]
  have filtered := same.filter fun column => column.1 = name
  constructor
  · intro one
    rw [one] at filtered
    exact (List.singleton_perm.mp filtered).symm
  · intro one
    rw [one] at filtered
    exact List.perm_singleton.mp filtered

theorem projectColumns_perm (collects : Collects consumed 0 fields collected) :
    (projectColumns collected).Perm (fields.zipIdx.flatMap (fieldColumns consumed)) := by
  rw [projectColumns,PrePhysicalOp.updateProjectColumnNamePairs_named collects.names]
  exact collects.columns

/-- A field puts out a column with its expression over the rows below: its own, unless it has been
taken by the aggregate; then the columns of its expression, each as it is. -/
inductive PutsOut (taken : Nat → Prop) : (String × RexJson) × Nat → String → Expression → Prop where
  | own {name : String} {json : RexJson} {fieldId : Nat} {expression : Expression}
      (stays : isInputRef json = true ∨ ¬taken fieldId) (read : deserializeExpression json = .ok expression) :
      PutsOut taken ((name,json),fieldId) (canonicalize name) expression
  | column {name : String} {json : RexJson} {fieldId : Nat} {expression : Expression} {columnName : String}
      (computed : isInputRef json = false) (takes : taken fieldId) (read : deserializeExpression json = .ok expression)
      (involved : columnName ∈ expression.involvedColumnNames) :
      PutsOut taken ((name,json),fieldId) columnName (.column columnName)

/-- The projection is left out: all that is not taken are columns under their own names. -/
def LeftOut (taken : Nat → Prop) (fields : List (String × RexJson)) : Prop :=
  ∀ field ∈ fields.zipIdx, (∃ ref, field.1.2 = .inputRef ref ∧ canonicalize ref = canonicalize field.1.1) ∨
    (isInputRef field.1.2 = false ∧ taken field.2)

/-- Under the name goes out the expression, by one field only unless the projection is left out. -/
def Sends (taken : Nat → Prop) (fields : List (String × RexJson)) (name : String) (source : Expression) : Prop :=
  ∃ field ∈ fields.zipIdx, PutsOut taken field name source ∧
    (LeftOut taken fields ∨ ∀ other ∈ fields.zipIdx, (∃ source', PutsOut taken other name source') → other = field)

theorem mem_fieldColumns {field : (String × RexJson) × Nat} {name : String} {source : Expression} :
    (name,source) ∈ fieldColumns consumed field ↔ PutsOut (· ∈ consumed) field name source := by
  obtain ⟨⟨fieldName,json⟩,fieldId⟩ := field
  cases read : deserializeExpression json with
  | error failure =>
    rw [fieldColumns,read]
    refine iff_of_false List.not_mem_nil ?_
    rintro (⟨_,found⟩ | ⟨_,_,found,_⟩)
    · rw [read] at found
      cases found
    · rw [read] at found
      cases found
  | ok expression =>
    rw [fieldColumns_eq read]
    split
    next takes =>
      rw [List.mem_map]
      constructor
      · rintro ⟨_,involved,rfl,rfl⟩
        exact .column takes.1 takes.2 read involved
      · rintro (⟨stays,_⟩ | ⟨_,_,found,involved⟩)
        · rcases stays with ref | free
          · exact absurd (ref.symm.trans takes.1) (by simp)
          · exact absurd takes.2 free
        · rw [read,Except.ok.injEq] at found
          exact ⟨_,found ▸ involved,rfl⟩
    next stays =>
      rw [List.mem_singleton]
      constructor
      · rintro ⟨rfl,rfl⟩
        refine .own ?_ read
        by_contra both
        push Not at both
        exact stays ⟨Bool.eq_false_iff.mpr both.1,both.2⟩
      · rintro (⟨_,found⟩ | ⟨computed,takes,_⟩)
        · rw [read,Except.ok.injEq] at found
          rw [found]
        · exact absurd ⟨computed,takes⟩ stays

theorem fieldColumns_nodup (field : (String × RexJson) × Nat) : ((fieldColumns consumed field).map Prod.fst).Nodup := by
  unfold fieldColumns
  split
  · exact List.nodup_nil
  · split
    · rw [List.map_map]
      simpa [Function.comp_def] using Expression.involvedColumnNames_nodup _
    · exact List.nodup_singleton _

theorem leftOut_iff (collects : Collects consumed 0 fields collected) :
    collected.skipSelf = true ↔ LeftOut (· ∈ consumed) fields := collects.skips

theorem putsOut_leftOut (collects : Collects consumed 0 fields collected) (out : LeftOut (· ∈ consumed) fields)
    {name : String} {source : Expression} : (∃ field ∈ fields.zipIdx, PutsOut (· ∈ consumed) field name source) ↔
      name ∈ collected.usedColumnNames ∧ source = .column name := by
  rw [collects.uses]
  constructor
  · rintro ⟨field,inside,puts⟩
    have member := List.fst_mem_of_mem_zipIdx inside
    obtain ⟨stays,read⟩ | ⟨_,_,read,involved⟩ := puts
    · rcases out _ inside with ⟨ref,rfl,same⟩ | ⟨computed,takes⟩
      · cases read
        exact ⟨⟨_,member,_,rfl,by rw [same]; exact List.mem_singleton_self _⟩,by rw [same]⟩
      · rcases stays with isRef | free
        · exact absurd (isRef.symm.trans computed) (by simp)
        · exact absurd takes free
    · exact ⟨⟨_,member,_,read,involved⟩,rfl⟩
  · rintro ⟨⟨⟨fieldName,json⟩,member,expression,read,involved⟩,rfl⟩
    obtain ⟨fieldId,place⟩ := List.mem_iff_getElem?.mp member
    have inside : ((fieldName,json),fieldId) ∈ fields.zipIdx := by
      rw [List.mem_zipIdx_iff_getElem?]
      exact place
    refine ⟨_,inside,?_⟩
    rcases out _ inside with ⟨ref,same,names⟩ | ⟨computed,takes⟩
    · change json = .inputRef ref at same
      subst same
      cases read
      rw [List.mem_singleton.mp involved]
      have puts : PutsOut (· ∈ consumed) ((fieldName,.inputRef ref),fieldId) (canonicalize fieldName)
        (.column (canonicalize ref)) := .own (.inl rfl) rfl
      rwa [← names] at puts
    · exact .column computed takes read involved

theorem mem_projectColumnNames (collects : Collects consumed 0 fields collected) (name : String) :
    name ∈ collected.projectColumnNames ↔
    ∃ field ∈ fields.zipIdx, ∃ source, PutsOut (· ∈ consumed) field name source := by
  have columns := (collects.columns.map Prod.fst).mem_iff (a := name)
  rw [List.map_append,List.map_map,List.map_fst_zip collects.width.le,List.map_flatMap,List.mem_flatMap] at columns
  rw [collects.names,List.mem_append,or_comm,← List.mem_append]
  refine columns.trans (exists_congr fun field => and_congr_right fun _ => ?_)
  simp only [List.mem_map,Prod.exists,exists_and_right,exists_eq_right,mem_fieldColumns]

theorem produced_iff (collects : Collects consumed 0 fields collected) {name : String} {source : Expression} :
    produced collected name = some source ↔ Sends (· ∈ consumed) fields name source := by
  unfold produced Sends
  by_cases skips : collected.skipSelf = true
  · have out := (leftOut_iff collects).mp skips
    rw [if_pos skips]
    simp only [out,true_or,and_true]
    rw [putsOut_leftOut collects out]
    split
    next used => simp [used,eq_comm]
    next unused => simp [unused]
  · have stays : ¬LeftOut (· ∈ consumed) fields := fun out => skips ((leftOut_iff collects).mpr out)
    have apart : fields.zipIdx.Nodup := by
      apply List.Nodup.of_map Prod.snd
      rw [List.zipIdx_map_snd]
      exact List.nodup_range'
    rw [if_neg skips,sole_perm (projectColumns_perm collects),sole_eq_some,
      filter_flatMap_iff apart (fun field _ => fieldColumns_nodup field)]
    simp only [mem_fieldColumns,List.mem_map,Prod.exists,exists_and_right,exists_eq_right,stays,false_or]

end Produced

end Hermes.Calcite.CollectedFields
