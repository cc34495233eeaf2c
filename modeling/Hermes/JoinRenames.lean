import Hermes.JoinKeys
import Hermes.Library.Entries

/-! Which columns reach a join. An input whose names the join changes gets a projection that renames its
columns; the new names are stored under canonicalized names and looked up by the names as they are written. -/
namespace Hermes.Calcite.JoinRenames
open Tuples Prephysical Library.Fallible Library.Entries CalcitePlanJsonDeserializer RelJsonSerializer
variable {ν : Type}

/-- `TupleSet::getColumnByName`: no column is found where several have the name. -/
def getColumnByName (columns : List (String × ν)) (name : String) : Except String ν :=
  match columns.filter fun column => column.1 = canonicalize name with
  | [column] => .ok column.2
  | _ => .error ("Column '" ++ canonicalize name ++ "' does not exist")

/-- What a projection without expressions sends for the columns of its producer. -/
def projectTuples (projectColumnNamePairs : List (String × String)) (columns : List (String × ν)) :
    Except String (List (String × ν)) :=
  projectColumnNamePairs.mapM fun projectColumnPair => do
    let column ← getColumnByName columns projectColumnPair.1
    .ok (projectColumnPair.2,column)

/-- The columns of an input that reach the join: as the producer sends them, or through the projection over it. -/
def Reaches (renames : Option FieldRenames) (columns reached : List (String × ν)) : Prop :=
  ∀ producer, (addProjectForJoinColumnRenames renames producer = producer ∧ reached = columns) ∨
    ∃ names pairs, addProjectForJoinColumnRenames renames producer = .project names [] [] pairs producer ∧
      projectTuples pairs columns = .ok reached

section Reaching
variable {columns reached : List (String × ν)}

theorem project_ne (names : List String) (pairs : List (String × String)) (producer : PrePhysicalOp) :
    PrePhysicalOp.project names [] [] pairs producer ≠ producer := by
  intro same
  have size := congrArg sizeOf same
  rw [PrePhysicalOp.project.sizeOf_spec] at size
  omega

theorem reaches_none : Reaches none columns reached ↔ reached = columns := by
  constructor
  · intro reaches
    rcases reaches (.filterableScan [] ⟨"",[]⟩ none) with ⟨_,same⟩ | ⟨names,pairs,same,_⟩
    · exact same
    · exact absurd same.symm (project_ne names pairs _)
  · exact fun same _ => .inl ⟨rfl,same⟩

theorem reaches_some (renames : FieldRenames) : Reaches (some renames) columns reached ↔
    projectTuples (renames.fieldNames.map fun column => (canonicalize column,renamedColumn (some renames) column)) columns =
      .ok reached := by
  constructor
  · intro reaches
    rcases reaches (.filterableScan [] ⟨"",[]⟩ none) with ⟨same,_⟩ | ⟨names,pairs,same,sent⟩
    · rw [addProjectForJoinColumnRenames_eq] at same
      exact absurd same (project_ne _ _ _)
    · rw [addProjectForJoinColumnRenames_eq,PrePhysicalOp.project.injEq] at same
      rw [same.2.2.2.1]
      exact sent
  · exact fun sent producer => .inr ⟨_,_,addProjectForJoinColumnRenames_eq renames producer,sent⟩

end Reaching

section Columns
variable {columns : List (String × ν)} {value : ν}

theorem getColumnByName_of_mem (distinct : (columns.map Prod.fst).Nodup) {name : String}
    (member : (canonicalize name,value) ∈ columns) : getColumnByName columns name = .ok value := by
  rw [getColumnByName,filter_mem distinct member]

theorem count_of_getColumnByName {name : String} (found : getColumnByName columns name = .ok value) :
    (columns.map Prod.fst).count (canonicalize name) = 1 := by
  unfold getColumnByName at found
  split at found
  next column one => exact count_filter one
  next => cases found

variable {input : List String} {values : List ν}

theorem columnNames (width : values.length = input.length) :
    ((input.map canonicalize).zip values).map Prod.fst = input.map canonicalize :=
  List.map_fst_zip (by simp [width])

theorem projectTuples_iff (rename : String → String) (width : values.length = input.length)
    {reached : List (String × ν)} :
    projectTuples (input.map fun column => (canonicalize column,rename column)) ((input.map canonicalize).zip values) =
      .ok reached ↔ (input.map canonicalize).Nodup ∧ reached = (input.map rename).zip values := by
  have through : (input.map canonicalize).Nodup →
      projectTuples (input.map fun column => (canonicalize column,rename column)) ((input.map canonicalize).zip values) =
        .ok ((input.map rename).zip values) := by
    intro distinct
    rw [projectTuples,mapM_eq_ok,List.forall₂_iff_get]
    refine ⟨by simp [width],fun i inside there => ?_⟩
    rw [List.length_map] at inside
    have member : (canonicalize (canonicalize input[i]),values[i]) ∈ (input.map canonicalize).zip values := by
      rw [canonicalize_canonicalize,List.mem_iff_getElem]
      exact ⟨i,by simp [inside,width],by simp⟩
    have column := getColumnByName_of_mem (by rw [columnNames width]; exact distinct) member
    simp [column,bind,Except.bind]
  constructor
  · intro sent
    have distinct : (input.map canonicalize).Nodup := by
      rw [List.nodup_iff_count_eq_one]
      intro name inside
      obtain ⟨column,there,rfl⟩ := List.mem_map.mp inside
      obtain ⟨_,_,step⟩ := forall₂_mem_left (mapM_eq_ok.mp sent) _ (List.mem_map_of_mem there)
      obtain ⟨value,found,_⟩ := bind_eq_ok.mp step
      have once := count_of_getColumnByName found
      rwa [columnNames width,canonicalize_canonicalize] at once
    rw [through distinct] at sent
    exact ⟨distinct,(Except.ok.inj sent).symm⟩
  · rintro ⟨distinct,rfl⟩
    exact through distinct

end Columns

section Names
variable {input output : List String}

theorem zip_unique (distinct : (input.map canonicalize).Nodup) (fits : input.length ≤ output.length)
    {names other : String × String} (inside : names ∈ input.zip output) (there : other ∈ input.zip output)
    (same : canonicalize names.1 = canonicalize other.1) : names = other := by
  rw [← List.map_fst_zip fits,List.map_map] at distinct
  exact List.inj_on_of_nodup_map distinct inside there same

theorem lookup_renames (distinct : (input.map canonicalize).Nodup) (fits : input.length ≤ output.length)
    {names : String × String} (inside : names ∈ input.zip output) :
    (deserializeColumnRenames ((input.zip output).filter fun names => names.1 ≠ names.2)).lookup names.1 =
      if canonicalize names.1 = names.1 ∧ names.1 ≠ names.2 then some (canonicalize names.2) else none := by
  split
  next found =>
    have keys : ((deserializeColumnRenames ((input.zip output).filter fun names => names.1 ≠ names.2)).map Prod.fst).Nodup := by
      rw [deserializeColumnRenames,List.map_map]
      refine List.Nodup.sublist (List.filter_sublist.map _) ?_
      rw [← List.map_fst_zip fits,List.map_map] at distinct
      exact distinct
    have member : (canonicalize names.1,canonicalize names.2) ∈
        deserializeColumnRenames ((input.zip output).filter fun names => names.1 ≠ names.2) :=
      List.mem_map.mpr ⟨names,List.mem_filter.mpr ⟨inside,by simpa using found.2⟩,rfl⟩
    rw [← found.1]
    exact lookup_mem keys member
  next missed =>
    rw [List.lookup_eq_none_iff]
    intro rename member
    obtain ⟨other,kept,rfl⟩ := List.mem_map.mp member
    obtain ⟨there,differs⟩ := List.mem_filter.mp kept
    rw [bne_iff_ne]
    intro same
    have equal := zip_unique distinct fits inside there (by rw [same,canonicalize_canonicalize])
    subst equal
    exact missed ⟨same.symm,by simpa using differs⟩

theorem renamedColumn_iff (distinct : (input.map canonicalize).Nodup) (fits : input.length ≤ output.length)
    {names : String × String} (inside : names ∈ input.zip output) {renames : FieldRenames}
    (renamed : renames.fieldRenames = (input.zip output).filter fun names => names.1 ≠ names.2) :
    renamedColumn (some renames) names.1 = canonicalize names.2 ↔
      (canonicalize names.1 ≠ canonicalize names.2 → canonicalize names.1 = names.1) := by
  rw [renamedColumn,renamed,lookup_renames distinct fits inside]
  by_cases lower : canonicalize names.1 = names.1
  · by_cases same : names.1 = names.2
    · simp [same]
    · simp [lower,same,canonicalize_canonicalize]
  · simp [lower]

/-- The names of an input can be changed: none is, or no two are one in lower case and each that
changes beyond its letter case is written in lower case. -/
def Renamable (input output : List String) : Prop :=
  (∀ names ∈ input.zip output, names.1 = names.2) ∨
    ((input.map canonicalize).Nodup ∧
      ∀ names ∈ input.zip output, canonicalize names.1 ≠ canonicalize names.2 → canonicalize names.1 = names.1)

theorem map_zip_iff (fits : input.length ≤ output.length) (first second : String → String) :
    input.map first = (output.take input.length).map second ↔ ∀ names ∈ input.zip output, first names.1 = second names.2 := by
  induction input generalizing output with
  | nil => simp
  | cons column input ih =>
    cases output with
    | nil => simp at fits
    | cons renamed output =>
      rw [List.map_cons,List.length_cons,List.take_succ_cons,List.map_cons,List.cons.injEq,ih (Nat.le_of_succ_le_succ fits),
        List.zip_cons_cons,List.forall_mem_cons]

variable {values : List ν} {reached : List (String × ν)}

theorem reaches_iff (fits : input.length ≤ output.length) (width : values.length = input.length) :
    Reaches (fieldRenames input output) ((input.map canonicalize).zip values)
      (((output.take input.length).map canonicalize).zip values) ↔ Renamable input output := by
  unfold fieldRenames
  dsimp only
  split
  next none_ =>
    have kept : ∀ names ∈ input.zip output, names.1 = names.2 := by simpa [List.filter_eq_nil_iff] using none_
    have same : input.map canonicalize = (output.take input.length).map canonicalize :=
      (map_zip_iff fits _ _).mpr fun names inside => congrArg canonicalize (kept names inside)
    exact iff_of_true (reaches_none.mpr (by rw [same])) (.inl kept)
  next some_ =>
    have changed : ¬∀ names ∈ input.zip output, names.1 = names.2 := by simpa [List.filter_eq_nil_iff] using some_
    rw [reaches_some,projectTuples_iff _ width,Renamable,or_iff_right changed]
    refine and_congr_right fun distinct => ?_
    have same := (map_zip_iff fits (renamedColumn (some ⟨(input.zip output).filter fun names => names.1 ≠ names.2,input⟩))
      canonicalize).trans (forall₂_congr fun names inside => renamedColumn_iff distinct fits inside rfl)
    rw [← same]
    constructor
    · intro columns
      have names := congrArg (List.map Prod.fst) columns
      rw [List.map_fst_zip (by simp [width]),List.map_fst_zip (by simp [width])] at names
      exact names.symm
    · exact fun names => by rw [names]

theorem length_reaches {columns : List (String × ν)} {renames : Option FieldRenames}
    (names : ∀ given, renames = some given → given.fieldNames.length = columns.length) (reaches : Reaches renames columns reached) :
    reached.length = columns.length := by
  cases renames with
  | none => rw [reaches_none.mp reaches]
  | some renames =>
    have sent := mapM_eq_ok.mp ((reaches_some renames).mp reaches)
    rw [← sent.length_eq,List.length_map,names renames rfl]

end Names

section Complete
variable (join : Join)

def leftRenames : Option FieldRenames := fieldRenames join.leftFieldNames join.outputFieldNames

def rightRenames : Option FieldRenames :=
  fieldRenames join.rightFieldNames (join.outputFieldNames.drop join.leftFieldNames.length)

/-- Whatever columns the inputs send, those that reach the join have its output names, each
with the column of the field at its place, and no two have the same name. The right input
of a semi join is not part of the output. -/
def RenamesComplete : Prop :=
  (join.outputFieldNames.map canonicalize).Nodup ∧
    ∀ (ν : Type) (left right : List ν), left.length = join.leftFieldNames.length → right.length = join.rightFieldNames.length →
      ∃ leftColumns rightColumns,
        Reaches (leftRenames join) ((join.leftFieldNames.map canonicalize).zip left) leftColumns ∧
        Reaches (rightRenames join) ((join.rightFieldNames.map canonicalize).zip right) rightColumns ∧
        leftColumns ++ (if join.joinType.projectsRight then rightColumns else []) =
          (join.outputFieldNames.map canonicalize).zip (left ++ right)

variable {join}

theorem left_fits : join.leftFieldNames.length ≤ join.outputFieldNames.length := by
  rw [join.width]
  exact Nat.le_add_right _ _

theorem right_width (projects : join.joinType.projectsRight = true) :
    (join.outputFieldNames.drop join.leftFieldNames.length).length = join.rightFieldNames.length := by
  have width := join.width
  rw [projects,if_pos rfl] at width
  rw [List.length_drop,width,Nat.add_sub_cancel_left]

theorem right_empty (semi : join.joinType.projectsRight = false) :
    join.outputFieldNames.drop join.leftFieldNames.length = [] := by
  have width := join.width
  rw [semi,if_neg Bool.false_ne_true,Nat.add_zero] at width
  rw [← width,List.drop_length]

theorem right_reaches_iff {right : List ν} (width : right.length = join.rightFieldNames.length)
    (projects : join.joinType.projectsRight = true) :
    Reaches (rightRenames join) ((join.rightFieldNames.map canonicalize).zip right)
      (((join.outputFieldNames.drop join.leftFieldNames.length).map canonicalize).zip right) ↔
        Renamable join.rightFieldNames (join.outputFieldNames.drop join.leftFieldNames.length) := by
  have fits := right_width projects
  have side := reaches_iff (le_of_eq fits.symm) width
  rwa [← fits,List.take_length] at side

theorem output_zip {left : List ν} (width : left.length = join.leftFieldNames.length) (right : List ν) :
    (join.outputFieldNames.map canonicalize).zip (left ++ right) =
      ((join.outputFieldNames.take join.leftFieldNames.length).map canonicalize).zip left ++
        ((join.outputFieldNames.drop join.leftFieldNames.length).map canonicalize).zip right := by
  have fits : join.leftFieldNames.length ≤ join.outputFieldNames.length := left_fits
  rw [← List.zip_append (by simp [width,fits]),← List.map_append,List.take_append_drop]

/-- The columns of a join are complete exactly if its output names stay apart in lower case
and the names of each input can be changed. -/
theorem renamesComplete_iff : RenamesComplete join ↔
    (join.outputFieldNames.map canonicalize).Nodup ∧ Renamable join.leftFieldNames join.outputFieldNames ∧
      Renamable join.rightFieldNames (join.outputFieldNames.drop join.leftFieldNames.length) := by
  refine and_congr_right fun _ => ?_
  have fits : join.leftFieldNames.length ≤ join.outputFieldNames.length := left_fits
  constructor
  · intro complete
    obtain ⟨leftColumns,rightColumns,reachesLeft,reachesRight,output⟩ := complete Unit
      (List.replicate join.leftFieldNames.length ()) (List.replicate join.rightFieldNames.length ()) (by simp) (by simp)
    rw [output_zip (by simp)] at output
    have width : leftColumns.length = (((join.outputFieldNames.take join.leftFieldNames.length).map canonicalize).zip
        (List.replicate join.leftFieldNames.length ())).length := by
      rw [length_reaches ?_ reachesLeft]
      · simp [fits]
      · intro given same
        rw [leftRenames,fieldRenames,ite_eq_iff] at same
        obtain ⟨_,same⟩ | ⟨_,same⟩ := same
        · cases same
        · cases same
          simp
    obtain ⟨left,right⟩ := List.append_inj output width
    rw [left] at reachesLeft
    refine ⟨(reaches_iff fits (by simp)).mp reachesLeft,?_⟩
    cases projects : join.joinType.projectsRight with
    | true =>
      rw [projects,if_pos rfl] at right
      rw [right] at reachesRight
      exact (right_reaches_iff (by simp) projects).mp reachesRight
    | false =>
      rw [right_empty projects]
      exact .inl (by simp)
  · rintro ⟨renamesLeft,renamesRight⟩ ν left right widthLeft widthRight
    have reachesLeft := (reaches_iff fits widthLeft).mpr renamesLeft
    rw [output_zip widthLeft]
    cases projects : join.joinType.projectsRight with
    | true => exact ⟨_,_,reachesLeft,(right_reaches_iff widthRight projects).mpr renamesRight,by rw [if_pos rfl]⟩
    | false =>
      have kept : rightRenames join = none := by rw [rightRenames,right_empty projects,fieldRenames,List.zip_nil_right]; rfl
      refine ⟨_,_,reachesLeft,by rw [kept]; exact reaches_none.mpr rfl,?_⟩
      rw [right_empty projects,if_neg Bool.false_ne_true]
      rfl

theorem renamable_lower {input : List String} (output : List String) (lower : ∀ name ∈ input, canonicalize name = name)
    (distinct : input.Nodup) : Renamable input output := by
  refine .inr ⟨?_,fun names inside _ => lower _ (List.of_mem_zip inside).1⟩
  rw [List.map_congr_left lower,List.map_id']
  exact distinct

end Complete

section Examples

def generatedJoin : Join := ⟨.inner,["EXPR$0"],["EXPR$0"],["EXPR$0","EXPR$00"],.call .equals [.inputRef 0,.inputRef 1],rfl⟩

/-- The generated name of the right input is not found among its renames and stays. -/
theorem generated_name_kept : ¬RenamesComplete generatedJoin := by
  rintro ⟨_,complete⟩
  obtain ⟨leftColumns,rightColumns,reachesLeft,reachesRight,output⟩ := complete Nat [1] [2] rfl rfl
  have left : leftColumns = [("expr$0",1)] := reaches_none.mp reachesLeft
  have right : projectTuples [("expr$0","expr$0")] [("expr$0",2)] = .ok rightColumns := (reaches_some _).mp reachesRight
  have sent : projectTuples [("expr$0","expr$0")] [("expr$0",2)] = .ok [("expr$0",2)] := rfl
  rw [sent,Except.ok.injEq] at right
  subst left right
  have names := congrArg (List.map Prod.fst) output
  exact absurd names (by decide)

end Examples

end Hermes.Calcite.JoinRenames
