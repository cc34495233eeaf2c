import Hermes.PlanDeserializer
import Hermes.Library.Fallible

/-! Which filters of a plan are left when its JSON is read: of the filters that are stacked over a scan, with nothing
between them but projections that are left out, the scan keeps the uppermost one. -/
namespace Hermes.Calcite.CalcitePlanJsonDeserializer
open Gandiva Prephysical Library.Fallible

/-- Whether a projection is left out, below a consumer that takes none of its fields. -/
def skips (fields : List (String × RexJson)) : Bool :=
  match deserializeFields [] 0 fields with
  | .ok collected => collected.skipSelf
  | .error _ => false

/-- The conditions of the filters stacked over a scan, from the uppermost one down. -/
def stacked : RelJson → Option (List RexJson)
  | .tableScan _ => some []
  | .filter condition input => (stacked input).map (condition::·)
  | .project fields input => if skips fields then stacked input else none
  | _ => none

/-- For each scan of a plan the conditions stacked over it. -/
def scanConditions : RelJson → List (List RexJson)
  | .tableScan _ => [[]]
  | .filter condition input =>
    match stacked input with
    | some conditions => [condition::conditions]
    | none => scanConditions input
  | .project _ input => scanConditions input
  | .sort _ input => scanConditions input
  | .limitSort _ _ input => scanConditions input
  | .aggregate _ _ input => scanConditions input
  | .hashJoin _ _ _ _ left right => scanConditions left ++ scanConditions right
  | .nestedLoopJoin _ _ _ _ left right => scanConditions left ++ scanConditions right

/-- The conditions of the other filters. -/
def standingConditions : RelJson → List RexJson
  | .tableScan _ => []
  | .filter condition input =>
    match stacked input with
    | some _ => []
    | none => condition::standingConditions input
  | .project _ input => standingConditions input
  | .sort _ input => standingConditions input
  | .limitSort _ _ input => standingConditions input
  | .aggregate _ _ input => standingConditions input
  | .hashJoin _ _ _ _ left right => standingConditions left ++ standingConditions right
  | .nestedLoopJoin _ _ _ _ left right => standingConditions left ++ standingConditions right

/-- The predicates of the scans of a plan that has been read. -/
def scanPredicates : PrePhysicalOp → List (Option Expression)
  | .sort _ _ producer => scanPredicates producer
  | .limitSort _ _ _ producer => scanPredicates producer
  | .aggregate _ _ _ producer => scanPredicates producer
  | .group _ _ _ _ producer => scanPredicates producer
  | .project _ _ _ _ producer => scanPredicates producer
  | .filter _ _ producer => scanPredicates producer
  | .hashJoin _ _ _ _ left right => scanPredicates left ++ scanPredicates right
  | .nestedLoopJoin _ _ _ left right => scanPredicates left ++ scanPredicates right
  | .filterableScan _ _ predicate => [predicate]

def filterPredicates : PrePhysicalOp → List Expression
  | .sort _ _ producer => filterPredicates producer
  | .limitSort _ _ _ producer => filterPredicates producer
  | .aggregate _ _ _ producer => filterPredicates producer
  | .group _ _ _ _ producer => filterPredicates producer
  | .project _ _ _ _ producer => filterPredicates producer
  | .filter _ predicate producer => predicate::filterPredicates producer
  | .hashJoin _ _ _ _ left right => filterPredicates left ++ filterPredicates right
  | .nestedLoopJoin _ _ _ left right => filterPredicates left ++ filterPredicates right
  | .filterableScan _ _ _ => []

section
variable {ρ : Type} (holds : Expression → ρ → Prop)

def Satisfied (condition : RexJson)
    (row : ρ) : Prop := ∃ expression,deserializeExpression condition = .ok expression ∧ holds expression row

/-- Each scan lets the rows through that satisfy all conditions stacked over it, and each other filter is there. -/
structure KeepsFilters (rel : RelJson) (op : PrePhysicalOp) : Prop where
  scans : List.Forall₂ (fun conditions predicate => ∀ row : ρ,(∀ expression ∈ predicate,holds expression row) ↔
    ∀ condition ∈ conditions,Satisfied holds condition row) (scanConditions rel) (scanPredicates op)
  filters : List.Forall₂ (fun condition predicate => deserializeExpression condition = .ok predicate)
    (standingConditions rel) (filterPredicates op)

end

def Uppermost (conditions : List RexJson) (predicate : Option Expression) : Prop :=
  conditions.head?.map deserializeExpression = predicate.map Except.ok

def UppermostImplies {ρ : Type} (holds : Expression → ρ → Prop) (conditions : List RexJson) : Prop :=
  ∀ uppermost ∈ conditions.head?, ∀ row,Satisfied holds uppermost row →
    ∀ condition ∈ conditions.tail,Satisfied holds condition row

variable {catalogueEntry : String → Option Table} {consumed : List Nat} {rel : RelJson} {op producer : PrePhysicalOp}
  {conditions : List RexJson} {predicate : Expression}

theorem scanPredicates_setProjectColumnNames (names : List String) :
    scanPredicates (op.setProjectColumnNames names) = scanPredicates op := by
  cases op <;> rfl

theorem filterPredicates_setProjectColumnNames (names : List String) :
    filterPredicates (op.setProjectColumnNames names) = filterPredicates op := by
  cases op <;> rfl

theorem scanPredicates_renamed (renames : Option FieldRenames) :
    scanPredicates (addProjectForJoinColumnRenames renames op) = scanPredicates op := by
  cases renames <;> rfl

theorem filterPredicates_renamed (renames : Option FieldRenames) :
    filterPredicates (addProjectForJoinColumnRenames renames op) = filterPredicates op := by
  cases renames <;> rfl

def isScan : PrePhysicalOp → Bool
  | .filterableScan _ _ _ => true
  | _ => false

theorem isScan_setProjectColumnNames (names : List String) : isScan (op.setProjectColumnNames names) = isScan op := by
  cases op <;> rfl

theorem isScan_filter : isScan (deserializeFilterOrFilterableScan predicate producer) = isScan producer := by
  cases producer <;> rfl

theorem scanPredicates_filter : scanPredicates (deserializeFilterOrFilterableScan predicate producer) =
    if isScan producer then [some predicate] else scanPredicates producer := by
  cases producer <;> rfl

theorem filterPredicates_filter : filterPredicates (deserializeFilterOrFilterableScan predicate producer) =
    if isScan producer then [] else predicate::filterPredicates producer := by
  cases producer <;> rfl

theorem skips_of_read {fields : List (String × RexJson)} {collected : ProjectFields}
    (read : deserializeFields [] 0 fields = .ok collected) : skips fields = collected.skipSelf := by
  rw [skips,read]

theorem isScan_eq (ok : deserializeDfs catalogueEntry [] rel = .ok op) : isScan op = (stacked rel).isSome := by
  induction rel generalizing op with
  | tableScan table =>
    obtain ⟨table,_,rfl⟩ := deserializeDfs_tableScan ok
    rfl
  | filter condition input ih =>
    obtain ⟨predicate,producer,_,below,rfl⟩ := deserializeDfs_filter ok
    rw [isScan_filter,stacked,Option.isSome_map]
    exact ih below
  | project fields input ih =>
    obtain ⟨collected,producer,read,below,rfl⟩ := deserializeDfs_project ok
    rw [stacked,skips_of_read read]
    split
    · rw [isScan_setProjectColumnNames]
      exact ih below
    · rfl
  | sort sortFields input ih =>
    obtain ⟨_,_,rfl⟩ := deserializeDfs_sort ok
    rfl
  | limitSort sortFields limitJson input ih =>
    obtain ⟨_,_,_,rfl⟩ := deserializeDfs_limitSort ok
    rfl
  | aggregate groupFields aggregations input ih =>
    obtain ⟨_,_,_,_,_,_,rfl | rfl⟩ := deserializeDfs_aggregate ok
    · rfl
    · rfl
  | hashJoin joinTypeStr condition leftRenames rightRenames left right =>
    obtain ⟨_,_,_,_,_,_,_,rfl⟩ := deserializeDfs_hashJoin ok
    rfl
  | nestedLoopJoin joinTypeStr condition leftRenames rightRenames left right =>
    obtain ⟨_,_,_,_,_,_,rfl⟩ := deserializeDfs_nestedLoopJoin ok
    rfl

theorem predicates_read (ok : deserializeDfs catalogueEntry consumed rel = .ok op) :
    List.Forall₂ Uppermost (scanConditions rel) (scanPredicates op) ∧
      List.Forall₂ (fun condition predicate => deserializeExpression condition = .ok predicate)
        (standingConditions rel) (filterPredicates op) := by
  induction rel generalizing op consumed with
  | tableScan table =>
    obtain ⟨table,_,rfl⟩ := deserializeDfs_tableScan ok
    exact ⟨List.Forall₂.cons rfl List.Forall₂.nil,List.Forall₂.nil⟩
  | filter condition input ih =>
    obtain ⟨predicate,producer,read,below,rfl⟩ := deserializeDfs_filter ok
    rw [scanConditions,standingConditions,scanPredicates_filter,filterPredicates_filter,isScan_eq below]
    cases stack : stacked input with
    | none => exact ⟨(ih below).1,List.Forall₂.cons read (ih below).2⟩
    | some conditions => exact ⟨List.Forall₂.cons (congrArg some read) List.Forall₂.nil,List.Forall₂.nil⟩
  | project fields input ih =>
    obtain ⟨collected,producer,_,below,rfl⟩ := deserializeDfs_project ok
    split
    · rw [scanPredicates_setProjectColumnNames,filterPredicates_setProjectColumnNames]
      exact ⟨(ih below).1,(ih below).2⟩
    · exact ⟨(ih below).1,(ih below).2⟩
  | sort sortFields input ih =>
    obtain ⟨_,below,rfl⟩ := deserializeDfs_sort ok
    exact ⟨(ih below).1,(ih below).2⟩
  | limitSort sortFields limitJson input ih =>
    obtain ⟨_,_,below,rfl⟩ := deserializeDfs_limitSort ok
    exact ⟨(ih below).1,(ih below).2⟩
  | aggregate groupFields aggregations input ih =>
    obtain ⟨_,_,_,_,_,below,rfl | rfl⟩ := deserializeDfs_aggregate ok
    · exact ⟨(ih below).1,(ih below).2⟩
    · exact ⟨(ih below).1,(ih below).2⟩
  | hashJoin joinTypeStr condition leftRenames rightRenames left right ihLeft ihRight =>
    obtain ⟨_,_,_,_,_,belowLeft,belowRight,rfl⟩ := deserializeDfs_hashJoin ok
    rw [scanPredicates,filterPredicates,scanPredicates_renamed,scanPredicates_renamed,filterPredicates_renamed,
      filterPredicates_renamed]
    exact ⟨List.rel_append (ihLeft belowLeft).1 (ihRight belowRight).1,
      List.rel_append (ihLeft belowLeft).2 (ihRight belowRight).2⟩
  | nestedLoopJoin joinTypeStr condition leftRenames rightRenames left right ihLeft ihRight =>
    obtain ⟨_,_,_,_,belowLeft,belowRight,rfl⟩ := deserializeDfs_nestedLoopJoin ok
    rw [scanPredicates,filterPredicates,scanPredicates_renamed,scanPredicates_renamed,filterPredicates_renamed,
      filterPredicates_renamed]
    exact ⟨List.rel_append (ihLeft belowLeft).1 (ihRight belowRight).1,
      List.rel_append (ihLeft belowLeft).2 (ihRight belowRight).2⟩

section
variable {ρ : Type} {holds : Expression → ρ → Prop}

theorem satisfied_iff {condition : RexJson} {row : ρ} (read : deserializeExpression condition = .ok predicate) :
    Satisfied holds condition row ↔ holds predicate row := by
  refine ⟨?_,fun true => ⟨predicate,read,true⟩⟩
  rintro ⟨other,same,true⟩
  rw [Except.ok.inj (read.symm.trans same)]
  exact true

theorem stands_for_stack {conditions : List RexJson} {predicate : Option Expression}
    (uppermost : Uppermost conditions predicate) :
    (∀ row : ρ,(∀ expression ∈ predicate,holds expression row) ↔
      ∀ condition ∈ conditions,Satisfied holds condition row) ↔
      UppermostImplies holds conditions := by
  cases conditions with
  | nil =>
    cases predicate with
    | some predicate => cases uppermost
    | none =>
      refine iff_of_true (fun row => iff_of_true ?_ ?_) ?_
      · exact fun expression inside => absurd inside (Option.not_mem_none expression)
      · exact fun condition inside => absurd inside List.not_mem_nil
      · exact fun condition inside => absurd inside (Option.not_mem_none condition)
  | cons first rest =>
    cases predicate with
    | none => cases uppermost
    | some predicate =>
      have read : deserializeExpression first = .ok predicate := Option.some.inj uppermost
      simp only [UppermostImplies,Option.mem_some_iff,forall_eq',List.mem_cons,forall_eq_or_imp,List.head?_cons,
        List.tail_cons,
        satisfied_iff read]
      refine forall_congr' fun row => ?_
      exact ⟨fun both true => (both.mp true).2,fun implies => ⟨fun true => ⟨true,implies true⟩,And.left⟩⟩

theorem keepsFilters_iff (ok : deserializeDfs catalogueEntry consumed rel = .ok op) :
    KeepsFilters holds rel op ↔ ∀ conditions ∈ scanConditions rel,UppermostImplies holds conditions := by
  obtain ⟨scans,filters⟩ := predicates_read ok
  have byScan : List.Forall₂ (fun conditions predicate => ∀ row : ρ,(∀ expression ∈ predicate,holds expression row) ↔
      ∀ condition ∈ conditions,Satisfied holds condition row) (scanConditions rel) (scanPredicates op) ↔
      ∀ conditions ∈ scanConditions rel,UppermostImplies holds conditions := by
    clear ok filters
    revert scans
    generalize scanConditions rel = stacksOf,scanPredicates op = predicates
    intro scans
    induction scans with
    | nil => exact iff_of_true List.Forall₂.nil fun _ inside => absurd inside List.not_mem_nil
    | cons uppermost _ ih => rw [List.forall₂_cons,List.forall_mem_cons,stands_for_stack uppermost,ih]
  exact ⟨fun keeps => byScan.mp keeps.scans,fun implies => ⟨byScan.mpr implies,filters⟩⟩

end

def IsTrue : Expression → (String → Bool) → Prop
  | .column name,row => row name = true
  | _,_ => False

def twoColumns : Table := ⟨"t",["a","b"]⟩

theorem keepsFilters_one : KeepsFilters IsTrue (.filter (.inputRef "a") (.tableScan "t"))
    (.filterableScan ["a","b"] twoColumns (some (.column "a"))) :=
  (@keepsFilters_iff (fun _ => some twoColumns) [] _ _ _ _ rfl).mpr fun conditions inside => by
    rw [List.mem_singleton.mp inside]
    exact fun _ _ _ _ _ other => absurd other List.not_mem_nil

/-- Of two filters with a projection between them that is left out only the upper one is read. -/
theorem lower_condition_lost :
    deserializeDfs (fun _ => some twoColumns) []
        (.filter (.inputRef "a") (.project [("b",.inputRef "b"),
          ("a",.inputRef "a")] (.filter (.inputRef "b") (.tableScan "t")))) =
      .ok (.filterableScan ["b","a"] twoColumns (some (.column "a"))) ∧
    ¬KeepsFilters IsTrue
        (.filter (.inputRef "a") (.project [("b",.inputRef "b"),
          ("a",.inputRef "a")] (.filter (.inputRef "b") (.tableScan "t"))))
        (.filterableScan ["b","a"] twoColumns (some (.column "a"))) := by
  refine ⟨rfl,fun keeps => ?_⟩
  have through := (List.forall₂_cons.mp keeps.scans).1 fun name => name == "a"
  have satisfied : Satisfied IsTrue (.inputRef "b") fun name => name == "a" :=
    through.mp (fun expression same => by rw [← Option.mem_some_iff.mp same]; rfl) _ (List.mem_cons_of_mem _ List.mem_cons_self)
  have read : deserializeExpression (.inputRef "b") = .ok (.column "b") := rfl
  have wrong : ("b" == "a") = true := (satisfied_iff read).mp satisfied
  cases wrong

end Hermes.Calcite.CalcitePlanJsonDeserializer
