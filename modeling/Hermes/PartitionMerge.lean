import Hermes.HybridScan

/-! A merge of one tuple set from each side, and what it makes of some columns of a
partition and some others of it. -/
namespace Hermes.HybridScan
open Hermes.Tuples Hermes.Operators Hermes.Library.Pairing
variable {ν : Type}

section
variable {α : Type} {started : Process (MergePOp ν) α (Table ν)} {messages : List (Waiting (TupleSet ν))}
  {left right merged : Table ν}

theorem merged_unique {other : Table ν} (combined : MergeKernel.merge (some left) (some right) = .ok merged)
    (sideBySide : SideBySide (some left) (some right) other) (columns : 0 < left.numColumns ∨ 0 < right.numColumns) :
    other = merged := by
  have mergeable : Mergeable (some left) (some right) := by
    by_contra clash
    obtain ⟨message,failed⟩ := merge_clash clash
    rw [failed] at combined
    cases combined
  obtain ⟨merged',combined',same⟩ := merge_mergeable mergeable
  rw [combined] at combined'
  injection combined' with equal
  subst equal
  apply table_ext (sideBySide.fields.trans same.fields.symm)
  by_cases l : 0 < left.numColumns
  · by_cases r : 0 < right.numColumns
    · exact (sideBySide.both l r).trans (same.both l r).symm
    · exact (sideBySide.leftOnly l (Nat.eq_zero_of_not_pos r)).trans (same.leftOnly l (Nat.eq_zero_of_not_pos r)).symm
  · have r := columns.resolve_left l
    exact (sideBySide.rightOnly (Nat.eq_zero_of_not_pos l) r).trans (same.rightOnly (Nat.eq_zero_of_not_pos l) r).symm

theorem receive_fault {σ γ β : Type} {onReceive : σ → POpContext α γ → Waiting β → Process σ α γ}
    {process : Process σ α γ} (failed : process.fault.isSome = true) (message : Waiting β) :
    (process.receive onReceive message).fault.isSome = true := by
  unfold Process.receive
  rw [if_pos failed]
  exact failed

theorem projectable_of_ok {projectColumnNames : List String} {projected : Table ν}
    (combined : MergeKernel.merge (some left) (some right) = .ok merged)
    (projection : merged.projectExist projectColumnNames = .ok projected) :
    Projectable projectColumnNames (some left) (some right) ∧ (0 < left.numColumns ∨ 0 < right.numColumns) := by
  have some : merged.existing projectColumnNames ≠ [] := by
    intro none
    rw [Table.projectExist,if_pos (List.isEmpty_iff.mpr none)] at projection
    cases projection
  obtain ⟨column,inside⟩ := List.exists_mem_of_ne_nil _ some
  obtain ⟨columnName,asked,found⟩ := List.mem_filterMap.mp inside
  obtain ⟨c,there,-⟩ := Option.map_eq_some_iff.mp found
  have fields : merged.fields = left.fields ++ right.fields := by
    rw [MergeKernel.merge] at combined
    split at combined
    next => cases combined
    next =>
      split at combined
      next blank =>
        injection combined with equal
        rw [← equal]
        exact (List.isEmpty_iff.mp blank).symm
      next =>
        injection combined with equal
        rw [← equal]
        rfl
  have bound := getFieldIndex_lt there
  rw [fields] at there bound
  refine ⟨⟨columnName,asked,Option.isSome_iff_exists.mpr ⟨c,there⟩⟩,?_⟩
  rw [List.length_append] at bound
  simp only [Table.numColumns]
  omega

theorem merge_told (fresh : Started started) (produced : FromProducers started.operator.Producer messages)
    (lefts : sent started.operator.leftProducerName messages = [some left])
    (rights : sent started.operator.rightProducerName messages = [some right])
    (finished : Finished started.operator.Producer messages)
    (combined : MergeKernel.merge (some left) (some right) = .ok merged) {projected : Table ν}
    (projection : merged.projectExist started.operator.projectColumnNames = .ok projected) :
    (started.run MergePOp.onReceive messages).fault = none ∧
      (started.run MergePOp.onReceive messages).ctx.acts = [.tell projected,.notifyComplete] := by
  obtain ⟨projectable,columns⟩ := projectable_of_ok combined projection
  have only : ∀ pair ∈ (sent started.operator.leftProducerName messages).zip
      (sent started.operator.rightProducerName messages),
      Mergeable pair.1 pair.2 → Projectable started.operator.projectColumnNames pair.1 pair.2 := by
    rw [lefts,rights]
    intro pair inside _
    rw [List.mem_singleton.mp inside]
    exact projectable
  obtain ⟨acts,paired⟩ := fresh.paired produced only
  refine ⟨paired.alive,?_⟩
  have answered := paired.answered
  rw [lefts,rights,List.zip_cons_cons,List.zip_nil_left,List.forall₂_cons_left_iff] at answered
  obtain ⟨act,rest,answer,none,rfl⟩ := answered
  rw [List.forall₂_nil_left_iff] at none
  subst none
  rw [(paired.finished finished).1]
  cases answer with
  | told merged' projected' mergeable sideBySide projection' =>
    rw [merged_unique combined sideBySide columns,projection] at projection'
    injection projection' with same
    rw [same]
    rfl
  | refused message clash =>
    obtain ⟨text,failed⟩ := merge_clash clash
    rw [failed] at combined
    cases combined

theorem merge_fails (fresh : Started started) (produced : FromProducers started.operator.Producer messages)
    (lefts : sent started.operator.leftProducerName messages = [some left])
    (rights : sent started.operator.rightProducerName messages = [some right])
    (combined : MergeKernel.merge (some left) (some right) = .ok merged) {error : String}
    (projection : merged.projectExist started.operator.projectColumnNames = .error error) :
    (started.run MergePOp.onReceive messages).fault.isSome = true := by
  suffices whole : ∀ more, sent started.operator.leftProducerName (messages ++ more) = [some left] →
      sent started.operator.rightProducerName (messages ++ more) = [some right] →
      (sent started.operator.leftProducerName messages).zip (sent started.operator.rightProducerName messages) = [] ∨
        (started.run MergePOp.onReceive messages).fault.isSome = true by
    have both := whole [] (by rw [List.append_nil]; exact lefts) (by rw [List.append_nil]; exact rights)
    rw [lefts,rights] at both
    exact both.resolve_left (List.cons_ne_nil _ _)
  clear lefts rights
  induction messages using List.reverseRecOn with
  | nil => exact fun _ _ _ => .inl rfl
  | append_singleton messages message ih =>
    intro more lefts rights
    obtain ⟨before,known,missing⟩ := produced.init
    rw [List.append_assoc] at lefts rights
    obtain waits | failed := ih before (message::more) lefts rights
    · have vacuous : ∀ pair ∈ (sent started.operator.leftProducerName messages).zip
          (sent started.operator.rightProducerName messages),
          Mergeable pair.1 pair.2 → Projectable started.operator.projectColumnNames pair.1 pair.2 := by
        rw [waits]
        exact fun _ inside => absurd inside List.not_mem_nil
      obtain ⟨acts,paired⟩ := fresh.paired before vacuous
      cases message with
      | complete sender =>
        left
        rw [sent_complete,sent_complete]
        exact waits
      | content sender tupleSet =>
        rw [List.zip_eq_nil_iff] at waits
        rw [← List.append_assoc,sent_append] at lefts rights
        obtain ⟨_,queues⟩ := paired.running (Finished.not_of_missing known missing)
        rw [Process.run_snoc,Process.receive_content paired.alive,MergePOp.onReceive,
          onTuple_eq _ (by rw [queues]; exact fresh.distinct) _ (by rw [queues]; exact known),queues]
        rw [sent_content] at lefts rights ⊢
        rw [sent_content]
        have here : ∀ before other : List (TupleSet ν), before = [] ∨ other = [] →
            before.drop other.length = before := by
          rintro before other (rfl | rfl)
          · exact List.drop_nil
          · rfl
        rw [here _ _ waits,here _ _ waits.symm]
        generalize sent started.operator.leftProducerName messages ++
          (if sender = started.operator.leftProducerName then [tupleSet] else []) = arrived at lefts
        generalize sent started.operator.rightProducerName messages ++
          (if sender = started.operator.rightProducerName then [tupleSet] else []) = arrived' at rights
        rcases List.append_eq_cons_iff.mp lefts with ⟨rfl,_⟩ | ⟨_,rfl,blank⟩
        · exact .inl rfl
        · rcases List.append_eq_cons_iff.mp rights with ⟨rfl,_⟩ | ⟨_,rfl,blank'⟩
          · exact .inl List.zip_nil_right
          · right
            rw [(List.append_eq_nil_iff.mp blank.symm).1,(List.append_eq_nil_iff.mp blank'.symm).1,MergePOp.merge,
              combined]
            dsimp only
            rw [projection]
            rfl
    · right
      rw [Process.run_snoc]
      exact receive_fault failed message
end

namespace S3Partition
variable (partition : S3Partition ν)

def part (columnNames : List String) : Table ν := partition.cut (fun _ => true) columnNames

def place (columnName : String) : Nat := (getFieldIndex partition.fields columnName).getD 0

def field (columnName : String) : Option Field :=
  partition.fields[partition.place columnName]?.map fun field => ⟨columnName,field.type⟩

variable {partition} {columnNames : List String}

theorem place_found {columnName : String} (known : columnName ∈ partition.columnNames) :
    getFieldIndex partition.fields columnName = some (partition.place columnName) := by
  obtain ⟨field,inside,rfl⟩ := List.mem_map.mp known
  obtain ⟨c,bound,rfl⟩ := List.mem_iff_getElem.mp inside
  have found := getFieldIndex_of_unique partition.unique bound
  rw [place,found]
  rfl

theorem place_lt {columnName : String} (known : columnName ∈ partition.columnNames) :
    partition.place columnName < partition.fields.length := getFieldIndex_lt (place_found known)

theorem field_found {columnName : String} (known : columnName ∈ partition.columnNames) :
    (partition.field columnName).isSome := by
  rw [field,List.getElem?_eq_getElem (place_lt known)]
  rfl

theorem columns_known (known : ∀ columnName ∈ columnNames, columnName ∈ partition.columnNames) :
    partition.columns columnNames = columnNames.map fun columnName => (columnName,partition.place columnName) := by
  rw [columns,← List.filterMap_eq_map]
  apply List.filterMap_congr
  intro columnName inside
  rw [place_found (known columnName inside)]
  rfl

theorem part_fields (known : ∀ columnName ∈ columnNames, columnName ∈ partition.columnNames) :
    (partition.part columnNames).fields = columnNames.filterMap partition.field := by
  change (partition.columns columnNames).filterMap _ = _
  rw [columns_known known,List.filterMap_map]
  rfl

theorem part_rows (known : ∀ columnName ∈ columnNames, columnName ∈ partition.columnNames) :
    (partition.part columnNames).rows = if columnNames.isEmpty then [] else
      partition.records.map fun record => columnNames.filterMap fun columnName => record.2[partition.place columnName]? := by
  rw [part,cut_rows,columns_known known,List.isEmpty_map]
  simp only [List.filterMap_map,List.filter_true]
  rfl

theorem part_nil : partition.part [] = .empty := rfl

theorem slot_found {record : Nat × List (Slot ν)} (inside : record ∈ partition.records) {columnName : String}
    (known : columnName ∈ partition.columnNames) : (record.2[partition.place columnName]?).isSome := by
  rw [List.getElem?_eq_getElem]
  · rfl
  · rw [partition.shaped record inside]
    exact place_lt known

theorem part_numColumns (known : ∀ columnName ∈ columnNames, columnName ∈ partition.columnNames) :
    (partition.part columnNames).numColumns = columnNames.length := by
  rw [Table.numColumns,part_fields known]
  exact Table.length_filterMap_of_found _ _ fun columnName inside => field_found (known columnName inside)

theorem part_names (known : ∀ columnName ∈ columnNames, columnName ∈ partition.columnNames) :
    (partition.part columnNames).fields.map Field.name = columnNames := by
  rw [part_fields known,List.map_filterMap]
  refine (List.filterMap_congr ?_).trans List.filterMap_some
  intro columnName inside
  obtain ⟨there,found⟩ := Option.isSome_iff_exists.mp (field_found (known columnName inside))
  rw [found]
  rw [field] at found
  obtain ⟨_,_,rfl⟩ := Option.map_eq_some_iff.mp found
  rfl

theorem name_of_mem {field : Field} (known : ∀ columnName ∈ columnNames, columnName ∈ partition.columnNames)
    (inside : field ∈ (partition.part columnNames).fields) : field.name ∈ columnNames := by
  rw [← part_names known]
  exact List.mem_map_of_mem inside

theorem merge_parts {others : List String} (known : ∀ columnName ∈ columnNames, columnName ∈ partition.columnNames)
    (known' : ∀ columnName ∈ others, columnName ∈ partition.columnNames)
    (apart : ∀ columnName ∈ columnNames, columnName ∉ others) :
    MergeKernel.merge (some (partition.part columnNames)) (some (partition.part others)) =
      .ok (partition.part (columnNames ++ others)) := by
  have left := part_numColumns known
  have right := part_numColumns known'
  have rows := part_rows known
  have rows' := part_rows known'
  have mergeable : Mergeable (some (partition.part columnNames)) (some (partition.part others)) := by
    by_cases none : columnNames = []
    · subst none
      exact .inl left
    · by_cases none' : others = []
      · subst none'
        exact .inr (.inl right)
      · refine .inr (.inr ⟨?_,?_⟩)
        · change (partition.part columnNames).rows.length = (partition.part others).rows.length
          rw [rows,rows',if_neg (by simpa using none),if_neg (by simpa using none'),List.length_map,List.length_map]
        · intro field1 inside1 field2 inside2 same
          have taken := name_of_mem known' inside2
          rw [← same] at taken
          exact apart _ (name_of_mem known inside1) taken
  obtain ⟨merged,combined,sideBySide⟩ := merge_mergeable mergeable
  rw [combined]
  apply congrArg
  have known'' : ∀ columnName ∈ columnNames ++ others, columnName ∈ partition.columnNames := fun columnName inside =>
    (List.mem_append.mp inside).elim (known columnName) (known' columnName)
  apply table_ext
  · rw [sideBySide.fields,part_fields known'',List.filterMap_append]
    exact congrArg₂ _ (part_fields known) (part_fields known')
  · by_cases none : columnNames = []
    · subst none
      by_cases none' : others = []
      · subst none'
        have blank : merged = .empty := by
          rw [MergeKernel.merge] at combined
          split at combined
          next => cases combined
          next => exact (Except.ok.inj combined).symm
        rw [blank]
        rfl
      · exact sideBySide.rightOnly left (by
          change 0 < (partition.part others).numColumns
          rw [right]
          exact List.length_pos_iff.mpr none')
    · have some : 0 < (partition.part columnNames).numColumns := by
        rw [left]
        exact List.length_pos_iff.mpr none
      by_cases none' : others = []
      · subst none'
        rw [List.append_nil]
        exact sideBySide.leftOnly some right
      · have some' : 0 < (partition.part others).numColumns := by
          rw [right]
          exact List.length_pos_iff.mpr none'
        rw [sideBySide.both some some',part_rows known'']
        change List.zipWith _ (partition.part columnNames).rows (partition.part others).rows = _
        rw [rows,rows',if_neg (by simpa using none),if_neg (by simpa using none'),if_neg (by simp [none])]
        rw [List.zipWith_map,List.zipWith_self]
        simp only [List.filterMap_append]

theorem part_index (known : ∀ columnName ∈ columnNames, columnName ∈ partition.columnNames) (unique : columnNames.Nodup)
    (columnName : String) : getFieldIndex (partition.part columnNames).fields columnName =
      if columnName ∈ columnNames then some (columnNames.idxOf columnName) else none := by
  have named : ∀ c : Nat, ((partition.part columnNames).fields[c]?).map Field.name = columnNames[c]? := by
    intro c
    rw [← List.getElem?_map,part_names known]
  split
  next inside =>
    have here := List.getElem?_idxOf inside
    rw [getFieldIndex_iff]
    constructor
    · rw [← named] at here
      exact Option.map_eq_some_iff.mp here
    · intro other field there same
      have again := named other
      rw [there,Option.map_some,same] at again
      have bound := (List.getElem?_eq_some_iff.mp again.symm).1
      exact (List.getElem?_inj bound unique).mp (again.symm.trans here.symm)
  next outside =>
    rw [Option.eq_none_iff_forall_ne_some]
    intro c found
    obtain ⟨⟨field,there,rfl⟩,_⟩ := getFieldIndex_iff.mp found
    exact outside (name_of_mem known (List.mem_of_getElem? there))

theorem canonicalize_known {columnName : String} (known : columnName ∈ partition.columnNames) :
    canonicalize columnName = columnName := by
  obtain ⟨field,inside,rfl⟩ := List.mem_map.mp known
  exact partition.canonical field inside

theorem project_part {asked : List String} (known : ∀ columnName ∈ columnNames, columnName ∈ partition.columnNames)
    (known' : ∀ columnName ∈ asked, columnName ∈ partition.columnNames) (unique : columnNames.Nodup) :
    (partition.part columnNames).projectExist asked =
      if (asked.filter fun columnName => decide (columnName ∈ columnNames)).isEmpty then .error "No column exists."
      else .ok (partition.part (asked.filter fun columnName => decide (columnName ∈ columnNames))) := by
  have existing : (partition.part columnNames).existing asked =
      (asked.filter fun columnName => decide (columnName ∈ columnNames)).map fun columnName =>
        (columnName,columnNames.idxOf columnName) := by
    rw [Table.existing,← List.filterMap_eq_map,List.filterMap_filter]
    apply List.filterMap_congr
    intro columnName inside
    rw [canonicalize_known (known' columnName inside),part_index known unique]
    by_cases there : columnName ∈ columnNames
    · rw [if_pos there,if_pos (decide_eq_true there)]
      rfl
    · rw [if_neg there,if_neg (by simpa using there)]
      rfl
  have inside : ∀ columnName ∈ asked.filter (fun columnName => decide (columnName ∈ columnNames)),
      columnName ∈ columnNames := fun columnName member => of_decide_eq_true (List.mem_filter.mp member).2
  generalize asked.filter (fun columnName => decide (columnName ∈ columnNames)) = kept at existing inside
  have none : ((partition.part columnNames).existing asked).isEmpty = kept.isEmpty := by rw [existing,List.isEmpty_map]
  rw [Table.projectExist,none]
  split
  next => rfl
  next some =>
    apply congrArg
    have keptKnown : ∀ columnName ∈ kept, columnName ∈ partition.columnNames := fun columnName member =>
      known columnName (inside columnName member)
    apply table_ext
    · change ((partition.part columnNames).existing asked).filterMap _ = _
      rw [existing,part_fields keptKnown,List.filterMap_map]
      apply List.filterMap_congr
      intro columnName member
      have there := List.getElem?_idxOf (inside columnName member)
      dsimp only [Function.comp]
      rw [part_fields known,Table.getElem?_filterMap_of_found fun columnName member => field_found
        (known columnName member),
        there,Option.bind_some]
      obtain ⟨found,here⟩ := Option.isSome_iff_exists.mp (field_found (keptKnown columnName member))
      rw [here]
      rw [field] at here
      obtain ⟨_,_,rfl⟩ := Option.map_eq_some_iff.mp here
      rfl
    · change (if ((partition.part columnNames).existing asked).isEmpty then [] else _) = _
      have full : columnNames.isEmpty = false := by
        obtain ⟨columnName,member⟩ := List.exists_mem_of_ne_nil kept (by simpa using some)
        simpa using List.ne_nil_of_mem (inside columnName member)
      rw [none,if_neg some,part_rows keptKnown,if_neg some,part_rows known,full,if_neg Bool.false_ne_true,List.map_map]
      apply List.map_congr_left
      intro record recorded
      dsimp only [Function.comp]
      rw [existing,List.filterMap_map]
      apply List.filterMap_congr
      intro columnName member
      dsimp only [Function.comp]
      rw [Table.getElem?_filterMap_of_found fun columnName member => slot_found recorded (known columnName member),
        List.getElem?_idxOf (inside columnName member),Option.bind_some]

end S3Partition
end Hermes.HybridScan
