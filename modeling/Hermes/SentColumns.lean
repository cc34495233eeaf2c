import Hermes.CollectedFields
import Hermes.PrePhysicalPlan

/-! The columns that the operator of a plan passes on, told from the plan's JSON. -/
namespace Hermes.Calcite.SentColumns
open Prephysical Prephysical.PrePhysicalOp Prephysical.PrePhysicalPlan CalcitePlanJsonDeserializer CollectedFields
open Library.Fallible
open Tuples (canonicalize)
variable {catalogueEntry : String → Option Table} {input : RelJson} {op producer : PrePhysicalOp} {names : List String}

def columns (op : PrePhysicalOp) : List String := (populateProjectColumnsDfs op).2

def renamedColumns (renames : Option FieldRenames) (names : List String) : List String :=
  match renames with
  | none => names
  | some renames => (renamePairs renames).map Prod.snd

def sentColumns (catalogueEntry : String → Option Table) : RelJson → List String
  | .sort _ input => sentColumns catalogueEntry input
  | .limitSort _ _ input => sentColumns catalogueEntry input
  | .aggregate groupFields aggregations _ =>
    aggregations.map (fun aggregation => canonicalize aggregation.aggOutputField) ++ groupFields.map canonicalize
  | .project fields _ => fields.map fun field => canonicalize field.1
  | .hashJoin _ _ leftRenames rightRenames left right =>
    renamedColumns leftRenames (sentColumns catalogueEntry left) ++
    renamedColumns rightRenames (sentColumns catalogueEntry right)
  | .nestedLoopJoin _ _ leftRenames rightRenames left right =>
    renamedColumns leftRenames (sentColumns catalogueEntry left) ++
    renamedColumns rightRenames (sentColumns catalogueEntry right)
  | .filter _ input => sentColumns catalogueEntry input
  | .tableScan table => ((catalogueEntry table).map Table.columnNames).getD []

/-- The optimizer gives every node a field. -/
def HasFields : RelJson → Prop
  | .sort _ input => HasFields input
  | .limitSort _ _ input => HasFields input
  | .aggregate groupFields aggregations _ => aggregations ≠ [] ∨ groupFields ≠ []
  | .project fields _ => fields ≠ []
  | .hashJoin _ _ leftRenames rightRenames left right =>
    ((∀ renames ∈ leftRenames, renames.fieldNames ≠ []) ∧ HasFields left) ∧
      (∀ renames ∈ rightRenames, renames.fieldNames ≠ []) ∧ HasFields right
  | .nestedLoopJoin _ _ leftRenames rightRenames left right =>
    ((∀ renames ∈ leftRenames, renames.fieldNames ≠ []) ∧ HasFields left) ∧
      (∀ renames ∈ rightRenames, renames.fieldNames ≠ []) ∧ HasFields right
  | .filter _ input => HasFields input
  | .tableScan _ => True

theorem columns_of_names (given : op.getProjectColumnNames ≠ []) : columns op = op.getProjectColumnNames := by
  have self : ∀ up, (populateSelf up op).2 = op.getProjectColumnNames := by
    intro up
    simp only [populateSelf,if_neg given]
  cases op <;> exact self _

theorem columns_hashJoin (joinType : Join.JoinType) (leftNames rightNames : List String) (left right : PrePhysicalOp) :
    columns (.hashJoin [] joinType leftNames rightNames left right) = columns left ++ columns right := rfl

theorem columns_nestedLoopJoin (joinType : Join.JoinType) (predicate : Option Gandiva.Expression)
    (left right : PrePhysicalOp) :
    columns (.nestedLoopJoin [] joinType predicate left right) = columns left ++ columns right := rfl

theorem columns_filterableScan (table : Table) (predicate : Option Gandiva.Expression) :
    columns (.filterableScan names table predicate) = names := by
  cases names <;> rfl

theorem columns_filter (predicate : Gandiva.Expression) :
    columns (deserializeFilterOrFilterableScan predicate producer) = columns producer := by
  cases producer with
  | filterableScan names table own => exact (columns_filterableScan _ _).trans (columns_filterableScan _ _).symm
  | _ => rfl

theorem columns_set (given : names ≠ []) : columns (producer.setProjectColumnNames names) = names := by
  have set : (producer.setProjectColumnNames names).getProjectColumnNames = names := by
    cases producer with
    | filterableScan projected table predicate => exact if_neg given
    | _ => rfl
  rw [columns_of_names (by rw [set]; exact given),set]

theorem columns_rename {renames : Option FieldRenames} (fields : ∀ renames' ∈ renames, renames'.fieldNames ≠ []) :
    columns (addProjectForJoinColumnRenames renames producer) = renamedColumns renames (columns producer) := by
  cases renames with
  | none => rfl
  | some renames =>
    apply columns_of_names
    simpa [addProjectForJoinColumnRenames,getProjectColumnNames,renamePairs] using fields renames rfl

theorem mem_renamedColumns {renames : Option FieldRenames} {first second : List String}
    (same : ∀ name, name ∈ first ↔ name ∈ second)
    (name : String) : name ∈ renamedColumns renames first ↔ name ∈ renamedColumns renames second := by
  cases renames with
  | none => exact same name
  | some renames => exact Iff.rfl

variable {fields : List (String × RexJson)} {collected : ProjectFields}

theorem putsOut_untaken (readable : ∀ field ∈ fields, ∃ expression, deserializeExpression field.2 = .ok expression)
    (name : String) : (∃ field ∈ fields.zipIdx, ∃ source, PutsOut (· ∈ []) field name source) ↔
      name ∈ fields.map fun field => canonicalize field.1 := by
  rw [List.mem_map]
  constructor
  · rintro ⟨_,inside,_,_ | ⟨_,taken,_,_⟩⟩
    · exact ⟨_,List.fst_mem_of_mem_zipIdx inside,rfl⟩
    · exact absurd taken List.not_mem_nil
  · rintro ⟨field,member,rfl⟩
    obtain ⟨expression,read⟩ := readable field member
    obtain ⟨fieldId,place⟩ := List.mem_iff_getElem?.mp member
    exact ⟨(field,fieldId),List.mem_zipIdx_iff_getElem?.mpr place,expression,.own (.inr List.not_mem_nil) read⟩

theorem mem_columns_project (given : fields ≠ []) (collecting : deserializeFields [] 0 fields = .ok collected)
    (name : String) :
    name ∈ columns (projectOp collected producer) ↔ name ∈ fields.map fun field => canonicalize field.1 := by
  have readable := readable_of_deserializeFields collecting
  obtain ⟨_,collecting',collects⟩ := deserializeFields_spec readable [] 0
  obtain rfl := Except.ok.inj (collecting.symm.trans collecting')
  obtain ⟨field,fields',rfl⟩ := List.exists_cons_of_ne_nil given
  have own := putsOut_untaken readable
  by_cases skips : collected.skipSelf = true
  · have used : ∀ name, name ∈ collected.usedColumnNames ↔
        name ∈ (field::fields').map fun field => canonicalize field.1 := by
      intro name
      rw [← own name]
      have out : ∀ source, (∃ place ∈ (field::fields').zipIdx, PutsOut (· ∈ []) place name source) ↔
          name ∈ collected.usedColumnNames ∧ source = .column name :=
        fun _ => putsOut_leftOut collects ((leftOut_iff collects).mp skips)
      constructor
      · intro inside
        obtain ⟨field,there,puts⟩ := (out _).mpr ⟨inside,rfl⟩
        exact ⟨field,there,_,puts⟩
      · rintro ⟨field,there,source,puts⟩
        exact ((out source).mp ⟨field,there,puts⟩).1
    have some_ := List.ne_nil_of_mem ((used _).mpr List.mem_cons_self)
    rw [projectOp,if_pos skips,columns_set some_,used]
  · have names := fun name => (mem_projectColumnNames collects name).trans (own name)
    have some_ := List.ne_nil_of_mem ((names _).mpr List.mem_cons_self)
    rw [projectOp,if_neg skips,columns_of_names]
    · exact names name
    · exact some_

theorem mem_columns (fields : HasFields input) (read : deserializeDfs catalogueEntry [] input = .ok op)
    (name : String) :
    name ∈ columns op ↔ name ∈ sentColumns catalogueEntry input := by
  induction input generalizing op name with
  | sort sortFields input ih =>
    obtain ⟨producer,below,rfl⟩ := deserializeDfs_sort read
    exact ih fields below name
  | limitSort sortFields limit input ih =>
    obtain ⟨k,producer,below,rfl⟩ := deserializeDfs_limitSort read
    exact ih fields below name
  | aggregate groupFields aggregations input _ =>
    rw [deserializeDfs] at read
    obtain ⟨⟨functions,consumed⟩,_,read⟩ := bind_eq_ok.mp read
    obtain ⟨producer,_,read⟩ := bind_eq_ok.mp read
    split at read
    next none_ =>
      cases read
      have some_ : aggregations ≠ [] := fields.resolve_right fun given => given (List.map_eq_nil_iff.mp none_)
      rw [sentColumns,none_,List.append_nil]
      exact iff_of_eq (congrArg _ (columns_of_names (by simpa [getProjectColumnNames] using some_)))
    next given =>
      cases read
      rw [sentColumns]
      exact iff_of_eq (congrArg _ (columns_of_names (by simpa [getProjectColumnNames] using fun _ => given)))
  | project fields' input _ =>
    obtain ⟨collected,producer,collecting,below,rfl⟩ := deserializeDfs_project read
    exact mem_columns_project fields collecting name
  | hashJoin joinTypeStr condition leftRenames rightRenames left right ihLeft ihRight =>
    obtain ⟨type,leftNames,rightNames,leftProducer,rightProducer,belowLeft,belowRight,rfl⟩ :=
      deserializeDfs_hashJoin read
    rw [columns_hashJoin,columns_rename fields.1.1,columns_rename fields.2.1,sentColumns,List.mem_append,
      List.mem_append,
      mem_renamedColumns (ihLeft fields.1.2 belowLeft),mem_renamedColumns (ihRight fields.2.2 belowRight)]
  | nestedLoopJoin joinTypeStr condition leftRenames rightRenames left right ihLeft ihRight =>
    obtain ⟨type,predicate,leftProducer,rightProducer,belowLeft,belowRight,rfl⟩ := deserializeDfs_nestedLoopJoin read
    rw [columns_nestedLoopJoin,columns_rename fields.1.1,columns_rename fields.2.1,sentColumns,List.mem_append,
      List.mem_append,
      mem_renamedColumns (ihLeft fields.1.2 belowLeft),mem_renamedColumns (ihRight fields.2.2 belowRight)]
  | filter condition input ih =>
    obtain ⟨predicate,producer,_,below,rfl⟩ := deserializeDfs_filter read
    rw [columns_filter]
    exact ih fields below name
  | tableScan tableName =>
    obtain ⟨table,known,rfl⟩ := deserializeDfs_tableScan read
    rw [sentColumns,known,setProjectColumnNames,columns_filterableScan,Option.map_some,Option.getD_some]
    split
    next empty => rw [empty,List.take_nil]
    next => rfl

end Hermes.Calcite.SentColumns
