import Hermes.HybridScan
import Mathlib.Data.Finset.Max
import Mathlib.Data.List.Infix
import Mathlib.Data.List.Pairwise

/-! The column lists of `transformFilterableScanPullup`, put into the order of the schema by a search in the printed fields. -/
namespace Hermes.OrderedScan
open HybridScan (union mem_union nodup_union)

/-- A field with the text of its type, which ends in " not null" where the field may not be null. -/
structure SchemaField where
  name : String
  type : String

namespace SchemaField

def toString (field : SchemaField) : String := field.name ++ ": " ++ field.type

end SchemaField

/-- `find` is not `npos`. -/
def find (text pattern : String) : Bool := decide (pattern.toList <:+: text.toList)

/-- A scan of a table, with the columns that it asks for. -/
structure FilterableScan where
  tableName : String
  schema : List SchemaField
  primaryKeyColumnNames : List String
  projectColumnNames : List String
  predicateColumnNames : List String
  distinct : (schema.map SchemaField.name).Nodup
  projected : projectColumnNames ⊆ schema.map SchemaField.name
  involved : predicateColumnNames ⊆ schema.map SchemaField.name
  keys : primaryKeyColumnNames ⊆ schema.map SchemaField.name

def orderedColumns (pattern : String → String) (column : SchemaField → String → String) (schema : List SchemaField)
    (columns : List String) : List String :=
  schema.flatMap fun field => (columns.filter fun name => find field.toString (pattern name)).map (column field)

namespace FilterableScan
variable (scan : FilterableScan)

def columnNames : List String := scan.schema.map SchemaField.name

def deltaTable : Bool := ["lineorder","supplier","customer","part","date"].contains scan.tableName

def deltaMergeColumns : List String := union scan.projectColumnNames scan.predicateColumnNames

def scanColumns : List String := union scan.deltaMergeColumns scan.primaryKeyColumnNames

def orderedDeltaMergeColumns :
    List String := orderedColumns (· ++ ":") (fun _ name => name) scan.schema scan.deltaMergeColumns

def orderedScanColumns : List String := orderedColumns (· ++ ":") (fun _ name => name) scan.schema scan.scanColumns

def projPredColumnNames : List String := union scan.projectColumnNames scan.predicateColumnNames

def orderedProjPredColumnNames : List String :=
  orderedColumns id (fun field _ => field.toString) scan.schema scan.projPredColumnNames

end FilterableScan

/-- The columns of the operators that read a partition. -/
inductive ScanColumns where
  | delta (deltaMerge stableScan : List String)
  | other (scan : List String)

def transformFilterableScanPullup (scan : FilterableScan) : ScanColumns :=
  if scan.deltaTable then .delta scan.orderedDeltaMergeColumns scan.orderedScanColumns
  else .other scan.orderedProjPredColumnNames

/-- The requested columns, each once and in the order of the schema, and nothing else. -/
structure Exactly (columnNames requested columns : List String) : Prop where
  once : ∀ name ∈ requested, columns.count name = 1
  only : columns ⊆ requested
  valid : columns ⊆ columnNames
  inOrder : columns.Sublist columnNames

def RightColumns (scan : FilterableScan) : ScanColumns → Prop
  | .delta deltaMerge stableScan =>
    Exactly scan.columnNames (scan.projectColumnNames ++ scan.predicateColumnNames) deltaMerge ∧
      Exactly scan.columnNames (scan.projectColumnNames ++ scan.predicateColumnNames ++
        scan.primaryKeyColumnNames) stableScan
  | .other columns => Exactly scan.columnNames (scan.projectColumnNames ++ scan.predicateColumnNames) columns

/-- A column with a colon behind it is found in the field of this name and in no other. -/
def Unmistakable (schema : List SchemaField) (requested : List String) : Prop :=
  ∀ field ∈ schema, ∀ name ∈ requested, find field.toString (name ++ ":") → field.name = name

def Searchable (scan : FilterableScan) : Prop :=
  if scan.deltaTable then
    Unmistakable scan.schema (scan.projectColumnNames ++ scan.predicateColumnNames ++ scan.primaryKeyColumnNames)
  else scan.projectColumnNames ++ scan.predicateColumnNames = []

section Search
variable {schema : List SchemaField} {columns requested : List String}

theorem find_own (field : SchemaField) : find field.toString (field.name ++ ":") = true := by
  rw [find,decide_eq_true_eq]
  refine ⟨[],' '::field.type.toList,?_⟩
  simp [SchemaField.toString]

theorem find_name (field : SchemaField) : find field.toString field.name = true := by
  rw [find,decide_eq_true_eq]
  refine ⟨[],':' :: ' ' :: field.type.toList,?_⟩
  simp [SchemaField.toString]

theorem filter_find (distinct : columns.Nodup) (unmistakable : Unmistakable schema columns) {field : SchemaField}
    (inside : field ∈ schema) : (columns.filter fun name => find field.toString (name ++ ":")) =
      if field.name ∈ columns then [field.name] else [] := by
  have own : ∀ name ∈ columns, find field.toString (name ++ ":") = decide (name = field.name) := by
    intro name requested
    by_cases same : name = field.name
    · rw [same,find_own,decide_eq_true rfl]
    · rw [decide_eq_false same]
      exact Bool.eq_false_iff.mpr fun found => same (unmistakable field inside name requested found).symm
  rw [List.filter_congr own]
  split
  next requested =>
    rw [List.filter_eq,List.count_eq_one_of_mem distinct requested]
    rfl
  next missing =>
    rw [List.filter_eq_nil_iff]
    intro name requested same
    exact missing (of_decide_eq_true same ▸ requested)

theorem orderedColumns_eq (distinct : columns.Nodup) (unmistakable : Unmistakable schema columns) :
    orderedColumns (· ++ ":") (fun _ name => name) schema columns =
      (schema.map SchemaField.name).filter fun name => decide (name ∈ columns) := by
  have each : orderedColumns (· ++ ":") (fun _ name => name) schema columns =
      schema.flatMap fun field => if field.name ∈ columns then [field.name] else [] := by
    apply List.flatMap_congr
    intro field inside
    rw [List.map_id',filter_find distinct unmistakable inside]
  rw [each]
  clear each unmistakable
  induction schema with
  | nil => rfl
  | cons field schema ih =>
    rw [List.flatMap_cons,ih,List.map_cons,List.filter_cons]
    by_cases requested : field.name ∈ columns
    · rw [if_pos requested,if_pos (decide_eq_true requested)]
      rfl
    · rw [if_neg requested,if_neg (by rw [decide_eq_false requested]; exact Bool.false_ne_true)]
      rfl

theorem exactly_colon_iff (distinct : (schema.map SchemaField.name).Nodup) (once : columns.Nodup)
    (same : ∀ name, name ∈ columns ↔ name ∈ requested) (known : requested ⊆ schema.map SchemaField.name) :
    Exactly (schema.map SchemaField.name) requested (orderedColumns (· ++ ":") (fun _ name => name) schema columns) ↔
      Unmistakable schema requested := by
  constructor
  · intro exactly field inside name asked found
    obtain ⟨own,there,named⟩ := List.mem_map.mp (known asked)
    by_contra differ
    obtain ⟨_,apart⟩ := List.nodup_flatMap.mp (exactly.inOrder.nodup distinct)
    have symmetric : ∀ found : SchemaField → List String, Std.Symm (Function.onFun List.Disjoint found) :=
      fun _ => ⟨fun _ _ disjoint => disjoint.symm⟩
    have disjoint := apart.forall inside there fun equal => differ (equal ▸ named)
    refine disjoint (a := name) ?_ ?_
    · exact List.mem_map.mpr ⟨name,List.mem_filter.mpr ⟨(same name).mpr asked,found⟩,rfl⟩
    · refine List.mem_map.mpr ⟨name,List.mem_filter.mpr ⟨(same name).mpr asked,?_⟩,rfl⟩
      rw [← named]
      exact find_own own
  · intro unmistakable
    rw [orderedColumns_eq once fun field inside name asked => unmistakable field inside name ((same name).mp asked)]
    refine ⟨?_,?_,List.filter_subset_self _,List.filter_sublist⟩
    · intro name asked
      refine List.count_eq_one_of_mem (distinct.filter _) (List.mem_filter.mpr ⟨known asked,?_⟩)
      exact decide_eq_true ((same name).mpr asked)
    · intro name listed
      exact (same name).mp (of_decide_eq_true (List.mem_filter.mp listed).2)

theorem exactly_printed_iff (same : ∀ name, name ∈ columns ↔ name ∈ requested)
    (known : requested ⊆ schema.map SchemaField.name) :
    Exactly (schema.map SchemaField.name) requested (orderedColumns id (fun field _ => field.toString) schema columns) ↔
      requested = [] := by
  constructor
  · intro exactly
    by_contra some
    obtain ⟨name,asked,longest⟩ := requested.toFinset.exists_max_image String.length
      (List.toFinset_nonempty_iff requested |>.mpr some)
    rw [List.mem_toFinset] at asked
    obtain ⟨own,there,rfl⟩ := List.mem_map.mp (known asked)
    have listed : own.toString ∈ orderedColumns id (fun field _ => field.toString) schema columns :=
      List.mem_flatMap.mpr ⟨own,there,List.mem_map.mpr
        ⟨own.name,List.mem_filter.mpr ⟨(same own.name).mpr asked,find_name own⟩,rfl⟩⟩
    have shorter := longest own.toString (List.mem_toFinset.mpr (exactly.only listed))
    simp only [SchemaField.toString,String.length_append] at shorter
    have two : ": ".length = 2 := rfl
    omega
  · rintro rfl
    have none : columns = [] := List.eq_nil_iff_forall_not_mem.mpr fun name inside =>
      List.not_mem_nil ((same name).mp inside)
    have blank : orderedColumns id (fun field _ => field.toString) schema columns = [] := by
      rw [none]
      exact List.flatMap_eq_nil_iff.mpr fun _ _ => rfl
    rw [blank]
    exact ⟨fun _ asked => absurd asked List.not_mem_nil,List.nil_subset _,List.nil_subset _,List.nil_sublist _⟩

end Search

section
variable (scan : FilterableScan)

theorem requested_known : scan.projectColumnNames ++ scan.predicateColumnNames ++
    scan.primaryKeyColumnNames ⊆ scan.columnNames :=
  List.append_subset.mpr ⟨List.append_subset.mpr ⟨scan.projected,scan.involved⟩,scan.keys⟩

theorem mem_deltaMergeColumns (name : String) :
    name ∈ scan.deltaMergeColumns ↔ name ∈ scan.projectColumnNames ++ scan.predicateColumnNames := by
  rw [FilterableScan.deltaMergeColumns,mem_union,List.mem_append]

theorem mem_scanColumns (name : String) : name ∈ scan.scanColumns ↔
    name ∈ scan.projectColumnNames ++ scan.predicateColumnNames ++ scan.primaryKeyColumnNames := by
  rw [FilterableScan.scanColumns,mem_union,mem_deltaMergeColumns,← List.mem_append]

/-- The lists are right exactly where the search cannot mistake a column; of a table without deltas, only where nothing is
requested. -/
theorem transformFilterableScanPullup_right_iff : RightColumns scan (transformFilterableScanPullup scan) ↔
    Searchable scan := by
  have known := requested_known scan
  have known' : scan.projectColumnNames ++ scan.predicateColumnNames ⊆ scan.columnNames :=
    (List.append_subset.mp known).1
  rw [transformFilterableScanPullup,Searchable]
  by_cases deltas : scan.deltaTable = true
  · rw [if_pos deltas,if_pos deltas]
    have merged := exactly_colon_iff scan.distinct (nodup_union _ _) (mem_deltaMergeColumns scan) known'
    have stable := exactly_colon_iff scan.distinct (nodup_union _ _) (mem_scanColumns scan) known
    constructor
    · rintro ⟨_,right⟩
      exact stable.mp right
    · intro unmistakable
      refine ⟨merged.mpr ?_,stable.mpr unmistakable⟩
      exact fun field inside name asked => unmistakable field inside name (List.mem_append_left _ asked)
  · rw [if_neg deltas,if_neg deltas]
    exact exactly_printed_iff (mem_deltaMergeColumns scan) known'

end

/-- A table without deltas. -/
def nation : FilterableScan where
  tableName := "nation"
  schema := [⟨"n_nationkey","int32"⟩,⟨"n_name","string"⟩]
  primaryKeyColumnNames := ["n_nationkey"]
  projectColumnNames := ["n_name"]
  predicateColumnNames := []
  distinct := by simp
  projected := by simp
  involved := by simp
  keys := by simp

/-- A table with deltas, of which a column ends in the name of another one. -/
def customer : FilterableScan where
  tableName := "customer"
  schema := [⟨"custkey","int32"⟩,⟨"nation_name","string"⟩,⟨"name","string"⟩]
  primaryKeyColumnNames := ["custkey"]
  projectColumnNames := ["name"]
  predicateColumnNames := []
  distinct := by simp
  projected := by simp
  involved := by simp
  keys := by simp

/-- The scan of `nation` asks for the column "n_name: string", that of `customer` for "name" twice. -/
theorem nation_and_customer_wrong : ¬RightColumns nation (transformFilterableScanPullup nation) ∧
    ¬RightColumns customer (transformFilterableScanPullup customer) := by
  constructor
  · intro right
    rw [transformFilterableScanPullup,if_neg (by simp [FilterableScan.deltaTable,nation])] at right
    have empty := (exactly_printed_iff (mem_deltaMergeColumns nation)
        (List.append_subset.mpr ⟨nation.projected,nation.involved⟩)).mp
      right
    simp [nation] at empty
  · intro right
    rw [transformFilterableScanPullup,if_pos (by simp [FilterableScan.deltaTable,customer])] at right
    have unmistakable := (exactly_colon_iff customer.distinct (nodup_union _ _) (mem_scanColumns customer)
      (requested_known customer)).mp right.2
    have found : find (SchemaField.toString ⟨"nation_name","string"⟩) ("name" ++ ":") := by
      rw [find,decide_eq_true_eq]
      exact ⟨"nation_".toList,' '::"string".toList,by simp [SchemaField.toString]⟩
    have same := unmistakable ⟨"nation_name","string"⟩ (by simp [customer]) "name" (by simp [customer]) found
    simp at same

end Hermes.OrderedScan
