import Hermes.PrePhysicalPlan
import Hermes.RecordAgreement

/-! What trimming the project columns of a plan keeps: the columns that are used, the columns of the root, and the rows as long
as no operator is left without a column. -/
namespace Hermes.Prephysical
open Gandiva Join

namespace PrePhysicalPlan
open PrePhysicalOp

/-- What holds of every operator with a consumer, and of the columns that its consumer uses once trimmed. -/
def EachProducer (edge : List String → PrePhysicalOp → Prop) : Option (List String) → PrePhysicalOp → Prop
  | down,sort names sortKeys producer =>
    let used := usedColumns down (sort names sortKeys producer)
    edge used producer ∧ EachProducer edge (some used) producer
  | down,limitSort names k sortKeys producer =>
    let used := usedColumns down (limitSort names k sortKeys producer)
    edge used producer ∧ EachProducer edge (some used) producer
  | down,aggregate names outputs functions producer =>
    let used := usedColumns down (aggregate names outputs functions producer)
    edge used producer ∧ EachProducer edge (some used) producer
  | down,group names groupColumnNames outputs functions producer =>
    let used := usedColumns down (group names groupColumnNames outputs functions producer)
    edge used producer ∧ EachProducer edge (some used) producer
  | down,project names exprs exprNames pairs producer =>
    let used := usedColumns down (project names exprs exprNames pairs producer)
    edge used producer ∧ EachProducer edge (some used) producer
  | down,filter names predicate producer =>
    let used := usedColumns down (filter names predicate producer)
    edge used producer ∧ EachProducer edge (some used) producer
  | down,hashJoin names joinType leftColumnNames rightColumnNames left right =>
    let used := usedColumns down (hashJoin names joinType leftColumnNames rightColumnNames left right)
    (edge used left ∧ EachProducer edge (some used) left) ∧ edge used right ∧ EachProducer edge (some used) right
  | down,nestedLoopJoin names joinType predicate left right =>
    let used := usedColumns down (nestedLoopJoin names joinType predicate left right)
    (edge used left ∧ EachProducer edge (some used) left) ∧ edge used right ∧ EachProducer edge (some used) right
  | _,filterableScan _ _ _ => True

/-- The first column of a scan's table, which it reads where it is left without any. -/
def fallback : PrePhysicalOp → Option String
  | filterableScan _ table _ => table.columnNames.head?
  | _ => none

def Filled (downUsedColumns : List String) (producer : PrePhysicalOp) : Prop :=
  (∃ name ∈ producer.getProjectColumnNames,kept downUsedColumns name = true) ∨ (fallback producer).isSome

/-- A scan without such a column does not read one that its consumer uses of another. -/
def Fed (downUsedColumns : List String) (producer : PrePhysicalOp) : Prop :=
  (∃ name ∈ producer.getProjectColumnNames,kept downUsedColumns name = true) ∨
    ∃ first ∈ fallback producer,kept downUsedColumns first = false

/-- The columns of a projection are given by its expressions and pairs, and a scan has columns, as its table has. -/
def WellFormed : PrePhysicalOp → Prop
  | sort _ _ producer => WellFormed producer
  | limitSort _ _ _ producer => WellFormed producer
  | aggregate _ _ _ producer => WellFormed producer
  | group _ _ _ _ producer => WellFormed producer
  | project names _ exprNames pairs producer => names ⊆ exprNames ++ pairs.map Prod.snd ∧ WellFormed producer
  | filter _ _ producer => WellFormed producer
  | hashJoin _ _ _ _ left right => WellFormed left ∧ WellFormed right
  | nestedLoopJoin _ _ _ left right => WellFormed left ∧ WellFormed right
  | filterableScan names table _ => names ≠ [] ∧ table.columnNames ≠ []

/-- Every operator has its project columns. -/
def Populated : PrePhysicalOp → Prop
  | sort names _ producer => names ≠ [] ∧ Populated producer
  | limitSort names _ _ producer => names ≠ [] ∧ Populated producer
  | aggregate names _ _ producer => names ≠ [] ∧ Populated producer
  | group names _ _ _ producer => names ≠ [] ∧ Populated producer
  | project names _ _ _ producer => names ≠ [] ∧ Populated producer
  | filter names _ producer => names ≠ [] ∧ Populated producer
  | hashJoin names _ _ _ left right => names ≠ [] ∧ Populated left ∧ Populated right
  | nestedLoopJoin names _ _ left right => names ≠ [] ∧ Populated left ∧ Populated right
  | filterableScan names _ _ => names ≠ []

/-- What the trimmed plan owes to the plan before it. -/
structure TrimKeeps (rootOp : PrePhysicalOp) : Prop where
  used : EachProducer (fun used producer => ∀ name ∈ used,name ∈ producer.getProjectColumnNames →
    name ∈ (trimProjectColumnsDfs (some used) producer).getProjectColumnNames) none (populateProjectColumnsDfs rootOp).1
  outputs : (populateAndTrimProjectColumns rootOp).getProjectColumnNames =
    (populateProjectColumnsDfs rootOp).1.getProjectColumnNames
  counted : EachProducer (fun used producer =>
    (trimProjectColumnsDfs (some used) producer).getProjectColumnNames ≠ []) none (populateProjectColumnsDfs rootOp).1
  rows : ∀ (ν : Type) (decide : DecidableEq ν) (meaning : Meaning ν),
    @Meaning.rows ν meaning decide (populateAndTrimProjectColumns rootOp) =
      @Meaning.rows ν meaning decide (populateProjectColumnsDfs rootOp).1

section Columns
variable {down : Option (List String)} {used names : List String} {op : PrePhysicalOp}
    {edge other : List String → PrePhysicalOp → Prop}

theorem EachProducer.imp (all : EachProducer edge down op) (populated : Populated op) (wellFormed : WellFormed op)
    (also : ∀ used producer,Populated producer → WellFormed producer → edge used producer → other used producer) :
    EachProducer other down op := by
  induction op generalizing down with
  | sort names sortKeys producer ih => exact ⟨also _ _ populated.2 wellFormed all.1,ih all.2 populated.2 wellFormed⟩
  | limitSort names k sortKeys producer ih => exact ⟨also _ _ populated.2 wellFormed all.1,
    ih all.2 populated.2 wellFormed⟩
  | aggregate names outputs functions producer ih =>
    exact ⟨also _ _ populated.2 wellFormed all.1,ih all.2 populated.2 wellFormed⟩
  | group names groupColumnNames outputs functions producer ih =>
    exact ⟨also _ _ populated.2 wellFormed all.1,ih all.2 populated.2 wellFormed⟩
  | project names exprs exprNames pairs producer ih =>
    exact ⟨also _ _ populated.2 wellFormed.2 all.1,ih all.2 populated.2 wellFormed.2⟩
  | filter names predicate producer ih => exact ⟨also _ _ populated.2 wellFormed all.1,ih all.2 populated.2 wellFormed⟩
  | hashJoin names joinType leftColumnNames rightColumnNames left right ihLeft ihRight =>
    exact ⟨⟨also _ _ populated.2.1 wellFormed.1 all.1.1,ihLeft all.1.2 populated.2.1 wellFormed.1⟩,
      also _ _ populated.2.2 wellFormed.2 all.2.1,ihRight all.2.2 populated.2.2 wellFormed.2⟩
  | nestedLoopJoin names joinType predicate left right ihLeft ihRight =>
    exact ⟨⟨also _ _ populated.2.1 wellFormed.1 all.1.1,ihLeft all.1.2 populated.2.1 wellFormed.1⟩,
      also _ _ populated.2.2 wellFormed.2 all.2.1,ihRight all.2.2 populated.2.2 wellFormed.2⟩
  | filterableScan names table predicate => trivial

theorem getProjectColumnNames_setProducers (left right : PrePhysicalOp) :
    (setProducers left right op).getProjectColumnNames = op.getProjectColumnNames := by
  cases op <;> rfl

theorem getProjectColumnNames_trim :
    (trimProjectColumnsDfs down op).getProjectColumnNames = (trimSelf down op).getProjectColumnNames := by
  cases op with
  | filterableScan names table predicate => rfl
  | _ => exact getProjectColumnNames_setProducers _ _

theorem getProjectColumnNames_set : (op.setProjectColumnNames names).getProjectColumnNames = names ∨
    names = [] ∧ ∃ projected table predicate,op = filterableScan projected table predicate ∧
      (op.setProjectColumnNames names).getProjectColumnNames = table.columnNames.take 1 := by
  cases op with
  | filterableScan projected table predicate =>
    by_cases empty : names = []
    · exact Or.inr ⟨empty,projected,table,predicate,rfl,if_pos empty⟩
    · exact Or.inl (if_neg empty)
  | _ => exact Or.inl rfl

def keptBy : Option (List String) → String → Bool
  | none => fun _ => true
  | some downUsedColumns => kept downUsedColumns

theorem trimSelf_columns (fed : ∀ downUsedColumns ∈ down,Fed downUsedColumns op)
    (some : op.getProjectColumnNames ≠ []) :
    (∀ name,keptBy down name = true →
      (name ∈ op.getProjectColumnNames ↔ name ∈ (trimSelf down op).getProjectColumnNames)) ∧
      (trimSelf down op).getProjectColumnNames ≠ [] := by
  cases down with
  | none => exact ⟨fun _ _ => Iff.rfl,some⟩
  | some downUsedColumns =>
    have fed := fed downUsedColumns rfl
    rw [trimSelf]
    by_cases empty : op.getProjectColumnNames.filter (kept downUsedColumns) = []
    · have none : ∀ name ∈ op.getProjectColumnNames,¬kept downUsedColumns name = true := List.filter_eq_nil_iff.mp empty
      rcases fed with ⟨name,inside,used⟩ | ⟨first,scans,unused⟩
      · exact absurd used (none name inside)
      · cases op with
        | filterableScan projected table predicate =>
          have read : (PrePhysicalOp.setProjectColumnNames (projected.filter (kept downUsedColumns))
              (filterableScan projected table predicate)).getProjectColumnNames = [first] := by
            rw [getProjectColumnNames] at empty
            rw [PrePhysicalOp.setProjectColumnNames,getProjectColumnNames,if_pos empty,List.take_one]
            exact congrArg Option.toList scans
          rw [getProjectColumnNames,read]
          refine ⟨fun name used => iff_of_false (fun inside => none name inside used) fun inside => ?_,
            List.cons_ne_nil _ _⟩
          rw [List.mem_singleton.mp inside,keptBy,unused] at used
          cases used
        | _ => cases scans
    · have read : (op.setProjectColumnNames (op.getProjectColumnNames.filter (kept downUsedColumns))).getProjectColumnNames =
          op.getProjectColumnNames.filter (kept downUsedColumns) :=
        getProjectColumnNames_set.resolve_right fun wrong => empty wrong.1
      rw [read]
      exact ⟨fun name used => ⟨fun inside => List.mem_filter.mpr ⟨inside,used⟩,List.mem_of_mem_filter⟩,empty⟩

end Columns

section Pairs
variable {exprNames names : List String} {pairs : List (String × String)}

theorem given_updateProjectColumnNamePairs :
    names ⊆ exprNames ++ (updateProjectColumnNamePairs exprNames pairs names).map Prod.snd := by
  intro name inside
  rw [List.mem_append]
  by_cases known : name ∈ exprNames ++ pairs.map Prod.snd
  · rcases List.mem_append.mp known with here | there
    · exact Or.inl here
    · obtain ⟨pair,member,rfl⟩ := List.mem_map.mp there
      refine Or.inr (List.mem_map_of_mem (List.mem_filter.mpr ⟨List.mem_append_left _ member,List.elem_iff.mpr inside⟩))
  · refine Or.inr (List.mem_map.mpr ⟨(name,name),List.mem_filter.mpr ⟨List.mem_append_right _ ?_,List.elem_iff.mpr inside⟩,rfl⟩)
    refine List.mem_map_of_mem (List.mem_dedup.mpr (List.mem_filter.mpr ⟨inside,?_⟩))
    rw [Bool.not_eq_true',← Bool.not_eq_true]
    exact fun wrong => known (List.elem_iff.mp wrong)

theorem lookup_filter {ν : Type} (f : String × String → Option ν) {name : String}
    (inside : names.contains name = true) :
    ((pairs.filter fun pair => names.contains pair.2).map fun pair => (pair.2,f pair)).lookup name =
      (pairs.map fun pair => (pair.2,f pair)).lookup name := by
  induction pairs with
  | nil => rfl
  | cons pair pairs ih =>
    rw [List.filter_cons]
    split
    · rw [List.map_cons,List.map_cons,List.lookup_cons,List.lookup_cons,ih]
    · rename_i dropped
      have other : (name == pair.2) = false := beq_false_of_ne fun same => dropped (same ▸ inside)
      rw [List.map_cons,List.lookup_cons,other,ih]

end Pairs

section Populate
variable {op : PrePhysicalOp}

theorem populate_spec (wellFormed : WellFormed op) : Populated (populateProjectColumnsDfs op).1 ∧
    WellFormed (populateProjectColumnsDfs op).1 ∧ (populateProjectColumnsDfs op).2 ≠ [] := by
  induction op with
  | sort names sortKeys producer ih =>
    obtain ⟨populated,formed,some⟩ := ih wellFormed
    rw [populateProjectColumnsDfs,populateUnary,populateSelf,getProjectColumnNames]
    split
    · exact ⟨⟨some,populated⟩,formed,some⟩
    · exact ⟨⟨‹_›,populated⟩,formed,‹_›⟩
  | limitSort names k sortKeys producer ih =>
    obtain ⟨populated,formed,some⟩ := ih wellFormed
    rw [populateProjectColumnsDfs,populateUnary,populateSelf,getProjectColumnNames]
    split
    · exact ⟨⟨some,populated⟩,formed,some⟩
    · exact ⟨⟨‹_›,populated⟩,formed,‹_›⟩
  | aggregate names outputs functions producer ih =>
    obtain ⟨populated,formed,some⟩ := ih wellFormed
    rw [populateProjectColumnsDfs,populateUnary,populateSelf,getProjectColumnNames]
    split
    · exact ⟨⟨some,populated⟩,formed,some⟩
    · exact ⟨⟨‹_›,populated⟩,formed,‹_›⟩
  | group names groupColumnNames outputs functions producer ih =>
    obtain ⟨populated,formed,some⟩ := ih wellFormed
    rw [populateProjectColumnsDfs,populateUnary,populateSelf,getProjectColumnNames]
    split
    · exact ⟨⟨some,populated⟩,formed,some⟩
    · exact ⟨⟨‹_›,populated⟩,formed,‹_›⟩
  | project names exprs exprNames pairs producer ih =>
    obtain ⟨populated,formed,some⟩ := ih wellFormed.2
    rw [populateProjectColumnsDfs,populateUnary,populateSelf,getProjectColumnNames]
    split
    · exact ⟨⟨some,populated⟩,⟨given_updateProjectColumnNamePairs,formed⟩,some⟩
    · exact ⟨⟨‹_›,populated⟩,⟨wellFormed.1,formed⟩,‹_›⟩
  | filter names predicate producer ih =>
    obtain ⟨populated,formed,some⟩ := ih wellFormed
    rw [populateProjectColumnsDfs,populateUnary,populateSelf,getProjectColumnNames]
    split
    · exact ⟨⟨some,populated⟩,formed,some⟩
    · exact ⟨⟨‹_›,populated⟩,formed,‹_›⟩
  | hashJoin names joinType leftColumnNames rightColumnNames left right ihLeft ihRight =>
    obtain ⟨populatedLeft,formedLeft,some⟩ := ihLeft wellFormed.1
    obtain ⟨populatedRight,formedRight,_⟩ := ihRight wellFormed.2
    rw [populateProjectColumnsDfs,populateBinary,populateSelf,getProjectColumnNames]
    split
    · exact ⟨⟨List.append_ne_nil_of_left_ne_nil some _,populatedLeft,populatedRight⟩,⟨formedLeft,formedRight⟩,
        List.append_ne_nil_of_left_ne_nil some _⟩
    · exact ⟨⟨‹_›,populatedLeft,populatedRight⟩,⟨formedLeft,formedRight⟩,‹_›⟩
  | nestedLoopJoin names joinType predicate left right ihLeft ihRight =>
    obtain ⟨populatedLeft,formedLeft,some⟩ := ihLeft wellFormed.1
    obtain ⟨populatedRight,formedRight,_⟩ := ihRight wellFormed.2
    rw [populateProjectColumnsDfs,populateBinary,populateSelf,getProjectColumnNames]
    split
    · exact ⟨⟨List.append_ne_nil_of_left_ne_nil some _,populatedLeft,populatedRight⟩,⟨formedLeft,formedRight⟩,
        List.append_ne_nil_of_left_ne_nil some _⟩
    · exact ⟨⟨‹_›,populatedLeft,populatedRight⟩,⟨formedLeft,formedRight⟩,‹_›⟩
  | filterableScan names table predicate =>
    rw [populateProjectColumnsDfs,populateSelf,getProjectColumnNames,if_neg wellFormed.1]
    exact ⟨wellFormed.1,wellFormed,wellFormed.1⟩

end Populate

section Rows
variable {ν : Type} [DecidableEq ν] {meaning : Meaning ν} {first second : List (Record ν)} {names used : List String}

omit [DecidableEq ν] in
theorem agree_refl (keep : String → Bool) (rows : List (Record ν)) : List.Forall₂ (Agree keep) rows rows :=
  List.forall₂_same.mpr fun _ _ _ _ => rfl

omit [DecidableEq ν] in
theorem agree_of_used (rows : List.Forall₂ (Agree (kept used)) first second) (inside : names ⊆ used) :
    List.Forall₂ (Agree names.contains) first second := by
  refine rows.imp fun row other agree => agree.mono fun name projected => ?_
  rw [kept,Bool.or_eq_true]
  exact Or.inr (List.elem_iff.mpr (inside (List.elem_iff.mp projected)))

theorem kept_of_mem {name : String} (inside : name ∈ used) : kept used name = true := by
  rw [kept,Bool.or_eq_true]
  exact Or.inr (List.elem_iff.mpr inside)

theorem kept_of_involved {functions : List AggregatePrePFunction} (inside : involvedOfFunctions functions ⊆ used) :
    ∀ function ∈ functions,∀ name ∈ function.involvedColumnNames,kept used name = true :=
  fun _ member _ involved => kept_of_mem (inside (List.mem_flatMap.mpr ⟨_,member,involved⟩))

theorem kept_of_predicate {predicate : Option Expression}
    (inside : (predicate.map Expression.involvedColumnNames).getD [] ⊆ used) :
    ∀ expression ∈ predicate,∀ name ∈ expression.involvedColumnNames,kept used name = true := by
  intro expression some name involved
  rw [Option.mem_def.mp some] at inside
  exact kept_of_mem (inside involved)

omit [DecidableEq ν] in
theorem projected_agree {exprs : List Expression} {exprNames : List String} {pairs pairs' : List (String × String)}
    (rows : List.Forall₂ (Agree (kept used)) first second)
    (involved : exprs.flatMap Expression.involvedColumnNames ⊆ used) (sources : pairs'.map Prod.fst ⊆ used)
    (given : ∀ (f : String × String → Option ν) (name : String),names.contains name = true →
      (pairs'.map fun pair => (pair.2,f pair)).lookup name = (pairs.map fun pair => (pair.2,f pair)).lookup name) :
    List.Forall₂ (Agree names.contains) (first.map (meaning.projected exprs exprNames pairs))
      (second.map (meaning.projected exprs exprNames pairs')) := by
  refine List.rel_map (fun row other agree => ?_) rows
  intro name inside
  have values : (exprs.map fun expr => meaning.value expr row) = exprs.map fun expr => meaning.value expr other := by
    refine List.map_congr_left fun expr member => meaning.value_congr expr row other fun column used => ?_
    exact agree column (kept_of_mem (involved (List.mem_flatMap.mpr ⟨expr,member,used⟩)))
  have moved : (pairs'.map fun pair => (pair.2,row pair.1)) = pairs'.map fun pair => (pair.2,other pair.1) := by
    refine List.map_congr_left fun pair member => ?_
    rw [agree pair.1 (kept_of_mem (sources (List.mem_map_of_mem member)))]
  rw [Meaning.projected,Meaning.projected,Record.ofColumns,Record.ofColumns,List.lookup_append,
    List.lookup_append,values,
    ← given (fun pair => row pair.1) name inside,moved]

theorem trim_rows {op : PrePhysicalOp} {down : Option (List String)} (populated : Populated op)
    (wellFormed : WellFormed op)
    (fed : ∀ downUsedColumns ∈ down,Fed downUsedColumns op) (all : EachProducer Fed down op) :
    List.Forall₂ (Agree (keptBy down)) (meaning.rows op) (meaning.rows (trimProjectColumnsDfs down op)) := by
  induction op generalizing down with
  | sort names sortKeys producer ih =>
    obtain ⟨columns,some⟩ := trimSelf_columns fed populated.1
    obtain ⟨names',same⟩ : ∃ names',trimSelf down (sort names sortKeys producer) = sort names' sortKeys producer := by
      cases down <;> exact ⟨_,rfl⟩
    have below := ih populated.2 wellFormed (fun used asked => Option.some.inj asked ▸ all.1) all.2
    rw [trimProjectColumnsDfs]
    rw [same] at columns some
    rw [usedColumns,same] at below ⊢
    refine emit_agree (agree_of_used (meaning.sorted_agree (fun name inside => ?_) below) ?_) columns populated.1 some
    · exact kept_of_mem (List.mem_append_right _ inside)
    · exact List.subset_append_left _ _
  | limitSort names k sortKeys producer ih =>
    obtain ⟨columns,some⟩ := trimSelf_columns fed populated.1
    obtain ⟨names',same⟩ : ∃ names',trimSelf down (limitSort names k sortKeys producer) =
      limitSort names' k sortKeys producer := by
      cases down <;> exact ⟨_,rfl⟩
    have below := ih populated.2 wellFormed (fun used asked => Option.some.inj asked ▸ all.1) all.2
    rw [trimProjectColumnsDfs]
    rw [same] at columns some
    rw [usedColumns,same] at below ⊢
    refine emit_agree (agree_of_used (List.forall₂_take _ (meaning.sorted_agree (fun name inside => ?_) below)) ?_) columns
      populated.1 some
    · exact kept_of_mem (List.mem_append_right _ inside)
    · exact List.subset_append_left _ _
  | aggregate names outputs functions producer ih =>
    obtain ⟨columns,some⟩ := trimSelf_columns fed populated.1
    obtain ⟨names',same⟩ : ∃ names',trimSelf down (aggregate names outputs functions producer) =
        aggregate names' outputs functions producer := by
      cases down <;> exact ⟨_,rfl⟩
    have below := ih populated.2 wellFormed (fun used asked => Option.some.inj asked ▸ all.1) all.2
    rw [trimProjectColumnsDfs]
    rw [same] at columns some
    rw [usedColumns,same] at below ⊢
    refine emit_agree ?_ columns populated.1 some
    rw [meaning.aggregated_eq (kept_of_involved fun _ => id) below]
    exact agree_refl _ _
  | group names groupColumnNames outputs functions producer ih =>
    obtain ⟨columns,some⟩ := trimSelf_columns fed populated.1
    obtain ⟨names',same⟩ : ∃ names',trimSelf down (group names groupColumnNames outputs functions producer) =
        group names' groupColumnNames outputs functions producer := by
      cases down <;> exact ⟨_,rfl⟩
    have below := ih populated.2 wellFormed (fun used asked => Option.some.inj asked ▸ all.1) all.2
    rw [trimProjectColumnsDfs]
    rw [same] at columns some
    rw [usedColumns,same] at below ⊢
    refine emit_agree ?_ columns populated.1 some
    rw [meaning.grouped_eq (fun name inside => kept_of_mem (List.mem_append_left _ inside))
      (kept_of_involved (List.subset_append_right _ _)) below]
    exact agree_refl _ _
  | project names exprs exprNames pairs producer ih =>
    obtain ⟨columns,some⟩ := trimSelf_columns fed populated.1
    obtain ⟨names',pairs',same,given⟩ : ∃ names' pairs',trimSelf down (project names exprs exprNames pairs producer) =
        project names' exprs exprNames pairs' producer ∧
        ∀ (f : String × String → Option ν) (name : String),names'.contains name = true →
          (pairs'.map fun pair => (pair.2,f pair)).lookup name =
            (pairs.map fun pair => (pair.2,f pair)).lookup name := by
      cases down with
      | none => exact ⟨names,pairs,rfl,fun _ _ _ => rfl⟩
      | some downUsedColumns =>
        refine ⟨_,_,rfl,fun f name inside => ?_⟩
        rw [getProjectColumnNames,updateProjectColumnNamePairs_given
          (List.Subset.trans (fun _ => List.mem_of_mem_filter) wellFormed.1)]
        exact lookup_filter f inside
    have below := ih populated.2 wellFormed.2 (fun used asked => Option.some.inj asked ▸ all.1) all.2
    rw [trimProjectColumnsDfs]
    rw [same] at columns some
    rw [usedColumns,same] at below ⊢
    refine emit_agree (projected_agree below ?_ ?_ given) columns populated.1 some
    · exact List.subset_append_right _ _
    · exact List.Subset.trans (List.subset_append_right _ _) (List.subset_append_left _ _)
  | filter names predicate producer ih =>
    obtain ⟨columns,some⟩ := trimSelf_columns fed populated.1
    obtain ⟨names',same⟩ : ∃ names',trimSelf down (filter names predicate producer) =
      filter names' predicate producer := by
      cases down <;> exact ⟨_,rfl⟩
    have below := ih populated.2 wellFormed (fun used asked => Option.some.inj asked ▸ all.1) all.2
    rw [trimProjectColumnsDfs]
    rw [same] at columns some
    rw [usedColumns,same] at below ⊢
    refine emit_agree (agree_of_used (filter_agree below fun row other agree => ?_)
      (List.subset_append_left _ _)) columns
      populated.1 some
    exact meaning.holds_congr predicate row other fun name inside => agree name
      (kept_of_mem (List.mem_append_right _ inside))
  | hashJoin names joinType leftColumnNames rightColumnNames left right ihLeft ihRight =>
    obtain ⟨columns,some⟩ := trimSelf_columns fed populated.1
    obtain ⟨names',same⟩ : ∃ names',trimSelf down
      (hashJoin names joinType leftColumnNames rightColumnNames left right) =
        hashJoin names' joinType leftColumnNames rightColumnNames left right := by
      cases down <;> exact ⟨_,rfl⟩
    have lefts := ihLeft populated.2.1 wellFormed.1 (fun used asked => Option.some.inj asked ▸ all.1.1) all.1.2
    have rights := ihRight populated.2.2 wellFormed.2 (fun used asked => Option.some.inj asked ▸ all.2.1) all.2.2
    rw [trimProjectColumnsDfs]
    rw [same] at columns some
    rw [usedColumns,same] at lefts rights ⊢
    refine emit_agree (agree_of_used (joinRows_agree joinType (meaning.keysMatch_eq ?_ ?_) lefts rights) ?_) columns populated.1 some
    · exact fun name inside => kept_of_mem (List.mem_append_left _ (List.mem_append_right _ inside))
    · exact fun name inside => kept_of_mem (List.mem_append_right _ inside)
    · exact List.Subset.trans (List.subset_append_left _ _) (List.subset_append_left _ _)
  | nestedLoopJoin names joinType predicate left right ihLeft ihRight =>
    obtain ⟨columns,some⟩ := trimSelf_columns fed populated.1
    obtain ⟨names',same⟩ : ∃ names',trimSelf down (nestedLoopJoin names joinType predicate left right) =
        nestedLoopJoin names' joinType predicate left right := by
      cases down <;> exact ⟨_,rfl⟩
    have lefts := ihLeft populated.2.1 wellFormed.1 (fun used asked => Option.some.inj asked ▸ all.1.1) all.1.2
    have rights := ihRight populated.2.2 wellFormed.2 (fun used asked => Option.some.inj asked ▸ all.2.1) all.2.2
    rw [trimProjectColumnsDfs]
    rw [same] at columns some
    rw [usedColumns,same] at lefts rights ⊢
    refine emit_agree (agree_of_used (joinRows_agree joinType (meaning.predicateMatches_eq ?_) lefts rights) ?_) columns
      populated.1 some
    · exact kept_of_predicate (List.subset_append_right _ _)
    · exact List.subset_append_left _ _
  | filterableScan names table predicate =>
    obtain ⟨columns,some⟩ := trimSelf_columns fed populated
    obtain ⟨names',same⟩ : ∃ names',trimSelf down (filterableScan names table predicate) =
      filterableScan names' table predicate := by
      cases down <;> exact ⟨_,rfl⟩
    rw [trimProjectColumnsDfs]
    rw [same] at columns some ⊢
    exact emit_agree (agree_refl _ _) columns populated some

end Rows

section Trimmed
variable {used : List String} {producer rootOp : PrePhysicalOp}

theorem names_of_populated (populated : Populated producer) : producer.getProjectColumnNames ≠ [] := by
  cases producer with
  | filterableScan names table predicate => exact populated
  | _ => exact populated.1

theorem used_kept {name : String} (asked : name ∈ used) (inside : name ∈ producer.getProjectColumnNames) :
    name ∈ (trimProjectColumnsDfs (some used) producer).getProjectColumnNames := by
  have member : name ∈ producer.getProjectColumnNames.filter (kept used) := List.mem_filter.mpr ⟨inside,
      kept_of_mem asked⟩
  rw [getProjectColumnNames_trim,trimSelf]
  rcases @getProjectColumnNames_set (producer.getProjectColumnNames.filter (kept used)) producer with same | ⟨empty,_⟩
  · rw [same]
    exact member
  · rw [empty] at member
    cases member

theorem filled_of_counted (wellFormed : WellFormed producer)
    (counted : (trimProjectColumnsDfs (some used) producer).getProjectColumnNames ≠ []) : Filled used producer := by
  rw [getProjectColumnNames_trim,trimSelf] at counted
  rcases @getProjectColumnNames_set (producer.getProjectColumnNames.filter (kept used)) producer with same | ⟨_,scan⟩
  · rw [same] at counted
    obtain ⟨name,inside⟩ := List.exists_mem_of_ne_nil _ counted
    exact Or.inl ⟨name,List.mem_of_mem_filter inside,(List.mem_filter.mp inside).2⟩
  · obtain ⟨projected,table,predicate,rfl,_⟩ := scan
    exact Or.inr (List.isSome_head?.mpr wellFormed.2)

theorem counted_of_fed (populated : Populated producer) (fed : Fed used producer) :
    (trimProjectColumnsDfs (some used) producer).getProjectColumnNames ≠ [] := by
  rw [getProjectColumnNames_trim]
  exact (trimSelf_columns (fun other asked => Option.some.inj asked ▸ fed) (names_of_populated populated)).2

/-- With columns for every operator the trimmed plan has the rows of the plan, and it keeps the columns only then. -/
theorem trimKeeps_of_fed (wellFormed : WellFormed rootOp) :
    (EachProducer Fed none (populateProjectColumnsDfs rootOp).1 → TrimKeeps rootOp) ∧
      (TrimKeeps rootOp → EachProducer Filled none (populateProjectColumnsDfs rootOp).1) := by
  obtain ⟨populated,formed,_⟩ := populate_spec wellFormed
  refine ⟨fun fed => ⟨?_,?_,?_,?_⟩,fun keeps => ?_⟩
  · exact fed.imp populated formed fun _ _ _ _ _ _ asked inside => used_kept asked inside
  · exact getProjectColumnNames_trim
  · exact fed.imp populated formed fun _ _ ready _ here => counted_of_fed ready here
  · intro ν decide meaning
    have same := @trim_rows ν decide meaning _ none populated formed
        (fun _ asked => absurd asked (Option.not_mem_none _)) fed
    exact (eq_of_agree same).symm
  · exact keeps.counted.imp populated formed fun _ _ _ ready here => filled_of_counted ready here

end Trimmed

def renamedKey : PrePhysicalOp :=
  project ["key"] [] [] [("a","key")]
    (hashJoin [] .inner ["a"] ["b"] (filterableScan ["a","c"] ⟨"left",["a","c"]⟩ none)
      (filterableScan ["b"] ⟨"right",["b"]⟩ none))

theorem renamedKey_kept : TrimKeeps renamedKey := by
  have wellFormed : WellFormed renamedKey := ⟨by decide,⟨by decide,by decide⟩,by decide,by decide⟩
  refine (trimKeeps_of_fed wellFormed).1 ⟨?_,⟨?_,trivial⟩,?_,trivial⟩
  · exact Or.inl ⟨"a",by decide,by decide⟩
  · exact Or.inl ⟨"a",by decide,by decide⟩
  · exact Or.inl ⟨"b",by decide,by decide⟩

def constantOverJoin : PrePhysicalOp :=
  project ["one"] [.literal (.int64 (some 1))] ["one"] []
    (hashJoin [] .inner ["a"] ["b"] (filterableScan ["a"] ⟨"left",["a"]⟩ none)
      (filterableScan ["b"] ⟨"right",["b"]⟩ none))

def unusedRight : PrePhysicalOp :=
  nestedLoopJoin ["a"] .inner none (filterableScan ["a"] ⟨"left",["a"]⟩ none)
    (project ["a0"] [] [] [("a","a0")] (filterableScan ["a"] ⟨"right",["a"]⟩ none))

/-- The join below a constant, and the renamed input of a join, are left without a column. -/
theorem left_without_columns :
    (WellFormed constantOverJoin ∧ ¬TrimKeeps constantOverJoin) ∧
      (WellFormed unusedRight ∧ ¬TrimKeeps unusedRight) := by
  refine ⟨⟨⟨by decide,⟨by decide,by decide⟩,by decide,by decide⟩,fun keeps => ?_⟩,
    ⟨⟨by decide,by decide⟩,by decide,by decide,by decide⟩,fun keeps => ?_⟩
  · exact keeps.counted.1 (by decide)
  · exact keeps.counted.2.1 (by decide)

end PrePhysicalPlan
end Hermes.Prephysical
