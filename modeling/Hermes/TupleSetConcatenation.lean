import Hermes.Table
import Mathlib.Data.List.Forall2

/-! When `TupleSet::concatenate` matches columns by name: an input whose schema is not that of the
first one is put into its order, where a name is asked for as it is and looked up in canonical form. -/
namespace Hermes.Tuples
variable {ν : Type}

/-- `TupleSet::append`: the table is replaced once the concatenation is there. -/
def append (tupleSet : TupleSet ν) (tupleSets : List (TupleSet ν)) : TupleSet ν × Except Failure Unit :=
  match concatenate (tupleSet::tupleSets) with
  | .error failure => (tupleSet,.error failure)
  | .ok table => (some table,.ok ())

/-- Inputs of the same columns are joined, each value under its column; others are an error. -/
structure ConcatenatesCleanly (first : Table ν) (others : List (Table ν)) : Prop where
  joined : (∀ table ∈ others, table.fields.Perm first.fields) →
    ∃ joined, concatenate (some first::others.map some) = .ok joined ∧
    joined.fields = first.fields ∧ joined.records = first.records ++ others.flatMap Table.records
  refused : (¬∀ table ∈ others, table.fields.Perm first.fields) →
    ∃ message, concatenate (some first::others.map some) = .error (.error message)
  kept : ∀ failure, (append (some first) (others.map some)).2 = .error failure →
    (append (some first) (others.map some)).1 = some first

def named (fields : List Field) (name : String) : Bool := fields.any fun field => field.name == name

/-- The first column of a schema that another one does not have under its name and under the canonical form of it. -/
def unfound (fields fields1 : List Field) : Option Field :=
  fields1.find? fun field1 => !(named fields field1.name && named fields (canonicalize field1.name))

def unordered (fields1 fields : List Field) : Bool := fields ≠ fields1 ∧ (unfound fields fields1).isSome

/-- A schema that is taken for the first one: the same, or one with all its columns, of canonical names. -/
def Taken (fields1 fields : List Field) : Prop :=
  fields = fields1 ∨ ∀ field1 ∈ fields1, canonicalize field1.name = field1.name ∧ field1 ∈ fields

/-- The first input that cannot be put into order lacks a column; or there is none, and the schemas that are taken
for the first one are all schemas exactly if all have the same columns. -/
def Distinguishes (first : Table ν) (others : List (Table ν)) : Prop :=
  match others.find? fun table => unordered first.fields table.fields with
  | some table => ∃ field ∈ unfound table.fields first.fields, named table.fields field.name = false
  | none => (∀ table ∈ others, table.fields.Perm first.fields) ↔ ∀ table ∈ others, Taken first.fields table.fields

section Schemas
variable {fields fields1 : List Field}

theorem getFieldIndex_of_named (unique : (fields.map Field.name).Nodup) {name : String}
    (has : named fields name = true) :
    ∃ (c : Nat) (bound : c < fields.length), getFieldIndex fields name = some c ∧ fields[c].name = name := by
  obtain ⟨field,inside,same⟩ := List.any_eq_true.mp has
  obtain ⟨c,bound,rfl⟩ := List.mem_iff_getElem.mp inside
  have name := eq_of_beq same
  refine ⟨c,bound,?_,name⟩
  rw [← name]
  exact getFieldIndex_of_unique unique bound

theorem getFieldIndex_of_not_named {name : String} (missing : named fields name = false) :
    getFieldIndex fields name = none := by
  apply Option.eq_none_iff_forall_ne_some.mpr
  intro c found
  obtain ⟨⟨field,here,same⟩,_⟩ := getFieldIndex_iff.mp found
  rw [named,List.any_eq_false] at missing
  exact missing field (List.mem_of_getElem? here) (beq_of_eq same)

theorem reorderedColumns_cons (field1 : Field) : reorderedColumns fields (field1::fields1) =
    if named fields field1.name then
      match getFieldIndex fields (canonicalize field1.name) with
      | none => .error .exception
      | some c =>
        match reorderedColumns fields fields1 with
        | .error failure => .error failure
        | .ok columns => .ok ((canonicalize field1.name,c)::columns)
    else .error (.error "Cannot concatenate tuple sets with different schemas") := rfl

theorem reorderedColumns_unfound (unique : (fields.map Field.name).Nodup) {field1 : Field}
    (missing : unfound fields fields1 = some field1) :
    reorderedColumns fields fields1 = .error (if named fields field1.name then .exception
      else .error "Cannot concatenate tuple sets with different schemas") := by
  induction fields1 with
  | nil => cases missing
  | cons field fields1 ih =>
    rw [unfound,List.find?_cons] at missing
    rw [reorderedColumns_cons]
    cases spelled : named fields field.name with
    | false =>
      rw [spelled] at missing
      rw [← Option.some.inj missing,spelled]
      rfl
    | true =>
      cases canonical : named fields (canonicalize field.name) with
      | false =>
        rw [spelled,canonical] at missing
        rw [← Option.some.inj missing,spelled,if_pos rfl,if_pos rfl,getFieldIndex_of_not_named canonical]
      | true =>
        rw [spelled,canonical] at missing
        obtain ⟨c,_,found,_⟩ := getFieldIndex_of_named unique canonical
        rw [if_pos rfl,found,ih missing]

theorem reorderedColumns_ordered (unique : (fields.map Field.name).Nodup) (all : unfound fields fields1 = none) :
    ∃ columns, reorderedColumns fields fields1 = .ok columns ∧
      ((columns.filterMap fun column => fields[column.2]?.map fun field => ⟨column.1,field.type⟩) = fields1 ↔
        ∀ field1 ∈ fields1, canonicalize field1.name = field1.name ∧ field1 ∈ fields) := by
  induction fields1 with
  | nil => exact ⟨[],rfl,by simp⟩
  | cons field1 fields1 ih =>
    rw [unfound,List.find?_cons] at all
    split at all
    next => cases all
    next both =>
      obtain ⟨spelled,canonical⟩ := (Bool.and_eq_true _ _).mp (Bool.not_eq_false' .. ▸ both)
      obtain ⟨columns,reordered,same⟩ := ih all
      obtain ⟨c,bound,found,name⟩ := getFieldIndex_of_named unique canonical
      refine ⟨(canonicalize field1.name,c)::columns,?_,?_⟩
      · rw [reorderedColumns_cons,if_pos spelled,found,reordered]
      · have picked : fields[c]?.map (fun field => (⟨canonicalize field1.name,field.type⟩ : Field)) =
            some fields[c] := by
          rw [List.getElem?_eq_getElem bound,Option.map_some,← name]
        rw [List.filterMap_cons,picked,List.cons.injEq,same,List.forall_mem_cons]
        refine and_congr_left' ?_
        constructor
        · intro there
          exact ⟨name.symm.trans (congrArg Field.name there),there ▸ List.getElem_mem bound⟩
        · rintro ⟨lower,inside⟩
          obtain ⟨d,bound',rfl⟩ := List.mem_iff_getElem.mp inside
          have other := getFieldIndex_of_unique unique bound'
          rw [lower,other] at found
          obtain rfl := Option.some.inj found
          rfl

end Schemas

section Reordering
variable {fields1 : List Field} {table : Table ν}

theorem reorder_unordered (unique : (table.fields.map Field.name).Nodup) {field1 : Field}
    (differ : table.fields ≠ fields1) (missing : unfound table.fields fields1 = some field1) : table.reorder fields1 =
      .error (if named table.fields field1.name then .exception else .error "Cannot concatenate tuple sets with different schemas") := by
  have failed := reorderedColumns_unfound unique missing
  rw [Table.reorder,if_neg differ]
  split
  next failure found => exact congrArg _ (Except.error.inj (found.symm.trans failed))
  next columns found =>
    rw [failed] at found
    cases found

theorem reorder_ordered (unique : (table.fields.map Field.name).Nodup)
    (ordered : unordered fields1 table.fields = false) :
    ∃ reordered, table.reorder fields1 = .ok reordered ∧ (reordered.fields = fields1 ↔ Taken fields1 table.fields) := by
  by_cases same : table.fields = fields1
  · refine ⟨table,?_,iff_of_true same (.inl same)⟩
    rw [Table.reorder,if_pos same]
  · have all : unfound table.fields fields1 = none := by
      rw [unordered,decide_eq_false_iff_not] at ordered
      exact Option.not_isSome_iff_eq_none.mp fun some => ordered ⟨same,some⟩
    obtain ⟨columns,found,picked⟩ := reorderedColumns_ordered unique all
    rw [Table.reorder,if_neg same,Taken,or_iff_right same,← picked]
    split
    next failure failed =>
      rw [found] at failed
      cases failed
    next chosen reordered =>
      rw [found] at reordered
      obtain rfl := Except.ok.inj reordered
      exact ⟨_,rfl,Iff.rfl⟩

theorem reorderAll_unordered {others : List (Table ν)} (unique : ∀ table ∈ others, (table.fields.map Field.name).Nodup)
    (first : (others.find? fun table => unordered fields1 table.fields) = some table) {failure : Failure}
    (failed : table.reorder fields1 = .error failure) : reorderAll fields1 (others.map some) = .error failure := by
  induction others with
  | nil => cases first
  | cons other others ih =>
    rw [List.find?_cons] at first
    rw [List.map_cons,reorderAll]
    split at first
    next =>
      rw [Option.some.inj first,failed]
    next ordered =>
      obtain ⟨reordered,done,_⟩ := reorder_ordered (unique other List.mem_cons_self) ordered
      rw [done,ih (fun later inside => unique later (List.mem_cons_of_mem _ inside)) first]

theorem reorderAll_ordered {others : List (Table ν)} (unique : ∀ table ∈ others, (table.fields.map Field.name).Nodup)
    (none : (others.find? fun table => unordered fields1 table.fields) = none) :
    ∃ tables, reorderAll fields1 (others.map some) = .ok tables ∧
      List.Forall₂ (fun other reordered => other.reorder fields1 = .ok reordered ∧
        (reordered.fields = fields1 ↔ Taken fields1 other.fields))
        others tables := by
  induction others with
  | nil => exact ⟨[],rfl,List.Forall₂.nil⟩
  | cons other others ih =>
    rw [List.find?_cons] at none
    split at none
    next => cases none
    next ordered =>
      obtain ⟨reordered,done,same⟩ := reorder_ordered (unique other List.mem_cons_self) ordered
      obtain ⟨tables,later,each⟩ := ih (fun later inside => unique later (List.mem_cons_of_mem _ inside)) none
      refine ⟨reordered::tables,?_,List.Forall₂.cons ⟨done,same⟩ each⟩
      rw [List.map_cons,reorderAll,done,later]

theorem records_reordered (unique : (fields1.map Field.name).Nodup) {others tables : List (Table ν)}
    (each : List.Forall₂ (fun other reordered => other.reorder fields1 = .ok reordered) others tables)
    (taken : ∀ other ∈ others, Taken fields1 other.fields) (same : ∀ other ∈ others, other.fields.Perm fields1) :
    (∀ reordered ∈ tables, reordered.fields = fields1) ∧
      (tables.flatMap Table.rows).map (recordOf fields1) = others.flatMap Table.records := by
  induction each with
  | nil => exact ⟨fun _ inside => absurd inside List.not_mem_nil,rfl⟩
  | @cons other reordered others tables here _ ih =>
    obtain ⟨fields,records⟩ := ih (fun later inside => taken later (List.mem_cons_of_mem _ inside))
      fun later inside => same later (List.mem_cons_of_mem _ inside)
    have columns : SameColumns fields1 other.fields :=
      (taken other List.mem_cons_self).imp_right fun canonical =>
        ⟨same other List.mem_cons_self,unique,fun field inside => (canonical field inside).1⟩
    obtain ⟨chosen,done,own,kept⟩ := reorder_same columns
    rw [here] at done
    obtain rfl := Except.ok.inj done
    refine ⟨List.forall_mem_cons.mpr ⟨own,fields⟩,?_⟩
    rw [List.flatMap_cons,List.flatMap_cons,List.map_append,records,← kept,Table.records,own]

end Reordering

section Concatenation
variable {first : Table ν} {others : List (Table ν)}

theorem append_failed {tupleSet : TupleSet ν} {tupleSets : List (TupleSet ν)} {failure : Failure}
    (failed : (append tupleSet tupleSets).2 = .error failure) : (append tupleSet tupleSets).1 = tupleSet := by
  unfold append at failed ⊢
  split at failed
  next => rfl
  next => cases failed

theorem concatenate_unordered (unique : ∀ table ∈ others, (table.fields.map Field.name).Nodup) {table : Table ν}
    (stops : (others.find? fun table => unordered first.fields table.fields) = some table) :
    ∃ field ∈ unfound table.fields first.fields, concatenate (some first::others.map some) = .error
      (if named table.fields field.name then .exception else .error "Cannot concatenate tuple sets with different schemas") := by
  have stuck : unordered first.fields table.fields = true :=
    @List.find?_some _ (fun table : Table ν => unordered first.fields table.fields) _ _ stops
  obtain ⟨differ,some⟩ := of_decide_eq_true stuck
  obtain ⟨field,missing⟩ := Option.isSome_iff_exists.mp some
  have failed := reorder_unordered (unique table (List.mem_of_find?_eq_some stops)) differ missing
  refine ⟨field,missing,?_⟩
  rw [concatenate,reorderAll_unordered unique stops failed]

theorem concatenate_ordered (unique : ∀ table ∈ others, (table.fields.map Field.name).Nodup)
    (ordered : (others.find? fun table => unordered first.fields table.fields) = none) :
    (∃ joined, concatenate (some first::others.map some) = .ok joined) ∧
    (∀ table ∈ others, Taken first.fields table.fields) ∨
      (∃ message, concatenate (some first::others.map some) = .error (.error message)) ∧
        ¬∀ table ∈ others, Taken first.fields table.fields := by
  obtain ⟨tables,done,each⟩ := reorderAll_ordered unique ordered
  have same : (∀ reordered ∈ tables, reordered.fields = first.fields) ↔
      ∀ table ∈ others, Taken first.fields table.fields := by
    clear done ordered unique
    induction each with
    | nil => simp
    | cons here _ ih => rw [List.forall_mem_cons,List.forall_mem_cons,here.2,ih]
  rw [concatenate,done]
  by_cases fields : ∀ reordered ∈ tables, reordered.fields = first.fields
  · exact .inl ⟨⟨_,dif_pos fields⟩,same.mp fields⟩
  · exact .inr ⟨⟨_,dif_neg fields⟩,fun taken => fields (same.mpr taken)⟩

theorem concatenate_records (unique : (first.fields.map Field.name).Nodup)
    (distinct : ∀ table ∈ others, (table.fields.map Field.name).Nodup)
    (ordered : (others.find? fun table => unordered first.fields table.fields) = none)
    (taken : ∀ table ∈ others, Taken first.fields table.fields)
    (same : ∀ table ∈ others, table.fields.Perm first.fields) :
    ∃ joined, concatenate (some first::others.map some) = .ok joined ∧ joined.fields = first.fields ∧
      joined.records = first.records ++ others.flatMap Table.records := by
  obtain ⟨tables,done,each⟩ := reorderAll_ordered distinct ordered
  obtain ⟨fields,records⟩ := records_reordered unique (each.imp fun _ _ both => both.1) taken same
  rw [concatenate,done]
  refine ⟨_,dif_pos fields,rfl,?_⟩
  rw [Table.records,List.map_append,records]
  rfl

/-- Column names are told apart by their letters, so two inputs may have the same name in different case. -/
theorem concatenatesCleanly_iff (unique : ∀ table ∈ first::others, (table.fields.map Field.name).Nodup) :
    ConcatenatesCleanly first others ↔ Distinguishes first others := by
  obtain ⟨own,distinct⟩ := List.forall_mem_cons.mp unique
  unfold Distinguishes
  split
  next table stops =>
    obtain ⟨field,missing,failed⟩ := concatenate_unordered distinct stops
    have lacks (spelled : named table.fields field.name = false) :
        ¬∀ table ∈ others, table.fields.Perm first.fields := by
      intro same
      have there := (same table (List.mem_of_find?_eq_some stops)).mem_iff.mpr (List.mem_of_find?_eq_some missing)
      rw [named,List.any_eq_false] at spelled
      exact spelled field there (beq_self_eq_true _)
    cases spelled : named table.fields field.name with
    | false =>
      rw [spelled] at failed
      refine iff_of_true ⟨fun same => absurd same (lacks spelled),fun _ => ⟨_,failed⟩,
        fun _ => append_failed⟩ ⟨field,missing,spelled⟩
    | true =>
      rw [spelled] at failed
      refine iff_of_false ?_ ?_
      · intro clean
        by_cases same : ∀ table ∈ others, table.fields.Perm first.fields
        · obtain ⟨joined,done,_⟩ := clean.joined same
          rw [failed] at done
          cases done
        · obtain ⟨message,done⟩ := clean.refused same
          rw [failed] at done
          cases done
      · rintro ⟨other,found,absent⟩
        rw [missing] at found
        obtain rfl := Option.some.inj found
        rw [spelled] at absent
        cases absent
  next ordered =>
    obtain ⟨⟨joined,done⟩,taken⟩ | ⟨⟨message,failed⟩,apart⟩ := concatenate_ordered distinct ordered
    · constructor
      · intro clean
        refine iff_of_true (Classical.not_not.mp fun differ => ?_) taken
        obtain ⟨message,failed⟩ := clean.refused differ
        rw [done] at failed
        cases failed
      · intro same
        have columns := same.mpr taken
        exact ⟨fun _ => concatenate_records own distinct ordered taken columns,fun differ => absurd columns differ,
          fun _ => append_failed⟩
    · constructor
      · intro clean
        refine iff_of_false ?_ apart
        intro same
        obtain ⟨joined,done,_⟩ := clean.joined same
        rw [failed] at done
        cases done
      · intro same
        have differ := fun columns => apart (same.mp columns)
        exact ⟨fun columns => absurd columns differ,fun _ => ⟨message,failed⟩,fun _ => append_failed⟩

end Concatenation

/-- A table of integer columns under some names, with one row of ones. -/
def oneRow (names : List String) : Table Int where
  fields := names.map fun name => ⟨name,.int64⟩
  rows := [names.map fun _ => ⟨true,1⟩]
  shaped := by simp

theorem swapped_columns_concatenated : ConcatenatesCleanly (oneRow ["a","b"]) [oneRow ["b","a"]] := by
  apply (concatenatesCleanly_iff (by decide +kernel)).mpr
  have none : ([oneRow ["b","a"]].find? fun table => unordered (oneRow ["a","b"]).fields table.fields) =
      none := by decide +kernel
  rw [Distinguishes,none]
  refine iff_of_true ?_ ?_
  · intro table inside
    rw [List.mem_singleton.mp inside]
    exact List.Perm.swap _ _ _
  · intro table inside
    rw [List.mem_singleton.mp inside]
    exact .inr (by decide +kernel)

/-- The extra column of the second table is dropped without a word. -/
theorem extra_column_dropped : ¬ConcatenatesCleanly (oneRow ["a"]) [oneRow ["a","b"]] := by
  intro clean
  obtain ⟨message,failed⟩ := clean.refused (by decide +kernel)
  have joined : (concatenate [some (oneRow ["a"]),some (oneRow ["a","b"])]).toBool = true := by decide +kernel
  rw [show concatenate [some (oneRow ["a"]),some (oneRow ["a","b"])] = _ from failed] at joined
  cases joined

end Hermes.Tuples
