import Hermes.JoinSerializer

/-! The keys of a hash join, from the condition of the optimizer's join to the column names that the executor reads. -/
namespace Hermes.Calcite
open Tuples Library.Fallible CalcitePlanJsonDeserializer RelJsonSerializer RexJsonSerializer

structure Equality (left right : Nat) where
  leftField : Fin left
  rightField : Fin right
  leftFirst : Bool

inductive KeyCondition (left right : Nat) where
  | equality (key : Equality left right)
  | and (first : KeyCondition left right) (rest : List (KeyCondition left right))

variable {left right : Nat}

def Equality.toRexNode (key : Equality left right) : RexNode :=
  if key.leftFirst then .call .equals [.inputRef key.leftField,.inputRef (left+key.rightField)]
  else .call .equals [.inputRef (left+key.rightField),.inputRef key.leftField]

def Equality.swapped (key : Equality left right) : Equality right left := ⟨key.rightField,key.leftField,key.leftFirst⟩

namespace KeyCondition

mutual
def toRexNode : KeyCondition left right → RexNode
  | equality key => key.toRexNode
  | and first rest => .call .and (first.toRexNode::toRexNodes rest)
  termination_by structural condition => condition

def toRexNodes : List (KeyCondition left right) → List RexNode
  | [] => []
  | condition::conditions => condition.toRexNode::toRexNodes conditions
  termination_by structural conditions => conditions
end

mutual
def conjuncts : KeyCondition left right → List (Equality left right)
  | equality key => [key]
  | and first rest => first.conjuncts ++ conjunctsOfAll rest
  termination_by structural condition => condition

def conjunctsOfAll : List (KeyCondition left right) → List (Equality left right)
  | [] => []
  | condition::conditions => condition.conjuncts ++ conjunctsOfAll conditions
  termination_by structural conditions => conditions
end

mutual
/-- Each conjunction is of two operands. -/
def OfTwo : KeyCondition left right → Prop
  | equality _ => True
  | and first rest => rest.length = 1 ∧ first.OfTwo ∧ AllOfTwo rest
  termination_by structural condition => condition

def AllOfTwo : List (KeyCondition left right) → Prop
  | [] => True
  | condition::conditions => condition.OfTwo ∧ AllOfTwo conditions
  termination_by structural conditions => conditions
end

mutual
/-- The condition over the inputs in their new order. -/
def swapped : KeyCondition left right → KeyCondition right left
  | equality key => equality key.swapped
  | and first rest => and first.swapped (allSwapped rest)
  termination_by structural condition => condition

def allSwapped : List (KeyCondition left right) → List (KeyCondition right left)
  | [] => []
  | condition::conditions => condition.swapped::allSwapped conditions
  termination_by structural conditions => conditions
end

@[elab_as_elim]
theorem inductionOn {motive : KeyCondition left right → Prop} (condition : KeyCondition left right)
    (equality : ∀ key,motive (equality key))
    (and : ∀ first rest,motive first → (∀ other ∈ rest,motive other) → motive (and first rest)) : motive condition :=
  @KeyCondition.rec left right motive (fun rest => ∀ other ∈ rest,motive other) equality and
    (fun _ inside => absurd inside List.not_mem_nil)
    (fun _ _ here later => List.forall_mem_cons.mpr ⟨here,later⟩) condition

theorem conjunctsOfAll_eq (conditions : List (KeyCondition left right)) :
    conjunctsOfAll conditions = conditions.flatMap conjuncts := by
  induction conditions with
  | nil => rfl
  | cons condition conditions ih => exact congrArg _ ih

theorem allSwapped_eq (conditions : List (KeyCondition left right)) :
    allSwapped conditions = conditions.map swapped := by
  induction conditions with
  | nil => rfl
  | cons condition conditions ih => exact congrArg _ ih

theorem allOfTwo_iff (conditions : List (KeyCondition left right)) :
    AllOfTwo conditions ↔ ∀ condition ∈ conditions,condition.OfTwo := by
  induction conditions with
  | nil => exact iff_of_true trivial fun _ inside => absurd inside List.not_mem_nil
  | cons condition conditions ih => rw [AllOfTwo,ih,List.forall_mem_cons]

theorem conjuncts_pos (condition : KeyCondition left right) : 0 < condition.conjuncts.length := by
  induction condition using inductionOn with
  | equality key => exact Nat.one_pos
  | and first rest ihFirst _ =>
    rw [conjuncts,List.length_append]
    omega

theorem ofTwo_swapped (condition : KeyCondition left right) : condition.swapped.OfTwo ↔ condition.OfTwo := by
  induction condition using inductionOn with
  | equality key => rfl
  | and first rest ihFirst ihRest =>
    rw [swapped,OfTwo,OfTwo,ihFirst,allSwapped_eq,List.length_map,allOfTwo_iff,allOfTwo_iff,List.forall_mem_map]
    exact and_congr_right fun _ => and_congr_right fun _ => forall₂_congr ihRest

theorem conjuncts_swapped (condition : KeyCondition left right) :
    condition.swapped.conjuncts = condition.conjuncts.map Equality.swapped := by
  induction condition using inductionOn with
  | equality key => rfl
  | and first rest ihFirst ihRest =>
    rw [swapped,conjuncts,conjuncts,ihFirst,allSwapped_eq,conjunctsOfAll_eq,conjunctsOfAll_eq,List.map_append,
      List.flatMap_map,
      List.map_flatMap]
    exact congrArg _ (List.flatMap_congr ihRest)

end KeyCondition

section Mirror
open SimpleExpressionCanonicalizer JoinCommuteRule

theorem swapIndex_left (field : Fin left) : swapIndex left right field = right+field := by
  rw [swapIndex,if_pos field.isLt,Nat.add_comm]

theorem swapIndex_right (field : Fin right) : swapIndex left right (left+field) = field := by
  rw [swapIndex,if_neg (Nat.not_lt.mpr (Nat.le_add_right _ _)),Nat.add_sub_cancel_left]

theorem mirror_equality (key : Equality left right) :
    mirrorRexNode (swapRefs left right key.toRexNode) = key.swapped.toRexNode := by
  cases first : key.leftFirst with
  | true =>
    rw [Equality.toRexNode,if_pos first,Equality.toRexNode,Equality.swapped,if_pos first]
    simp only [swapRefs,swapAllRefs,swapIndex_left,swapIndex_right]
    rfl
  | false =>
    rw [Equality.toRexNode,first,Equality.toRexNode,Equality.swapped]
    simp only [first,Bool.false_eq_true,if_false,swapRefs,swapAllRefs,swapIndex_left,swapIndex_right]
    rfl

theorem mirror_swapRefs (condition : KeyCondition left right) :
    mirrorRexNode (swapRefs left right condition.toRexNode) = condition.swapped.toRexNode := by
  induction condition using KeyCondition.inductionOn with
  | equality key => exact mirror_equality key
  | and first rest ihFirst ihRest =>
    have later : mirrorRexNodes (swapAllRefs left right (KeyCondition.toRexNodes rest)) =
        KeyCondition.toRexNodes (KeyCondition.allSwapped rest) := by
      induction rest with
      | nil => rfl
      | cons condition conditions ih =>
        rw [List.forall_mem_cons] at ihRest
        exact congrArg₂ List.cons ihRest.1 (ih ihRest.2)
    exact congrArg (RexNode.call .and) (congrArg₂ List.cons ihFirst later)

end Mirror

section Names
variable (names : Nat → String)

def Equality.pair (key : Equality left right) : String × String :=
  if key.leftFirst then (names key.leftField,names (left+key.rightField)) else (names
    (left+key.rightField),names key.leftField)

namespace KeyCondition

mutual
def toJson : KeyCondition left right → RexJson
  | equality key => .operation "EQUALS" [.inputRef (key.pair names).1,.inputRef (key.pair names).2]
  | and first rest => .operation "AND" (first.toJson::allToJson rest)
  termination_by structural condition => condition

def allToJson : List (KeyCondition left right) → List RexJson
  | [] => []
  | condition::conditions => condition.toJson::allToJson conditions
  termination_by structural conditions => conditions
end

def written (condition : KeyCondition left right) : List (String × String) :=
  condition.conjuncts.map fun key => (canonicalize (key.pair names).1,canonicalize (key.pair names).2)

end KeyCondition

variable {names} {doubleValue : ℚ → ℚ} {fieldNames : List String}

theorem serialize_inputRefs {kind : SqlKind} {first second : Nat} (kindEquals : kind = .equals)
    (here : fieldNames[first]? = some (names first)) (there : fieldNames[second]? = some (names second)) :
    serialize doubleValue fieldNames (.call kind [.inputRef first,.inputRef second]) =
      .ok (.operation "EQUALS" [.inputRef (names first),.inputRef (names second)]) := by
  subst kindEquals
  simp only [serialize,serializeAll,visitInputRef,here,there]
  rfl

theorem serialize_condition (named : ∀ index < left+right,fieldNames[index]? = some (names index))
    (condition : KeyCondition left right) :
    serialize doubleValue fieldNames condition.toRexNode = .ok (condition.toJson names) := by
  induction condition using KeyCondition.inductionOn with
  | equality key =>
    have leftName := named key.leftField (Nat.lt_add_right _ key.leftField.isLt)
    have rightName := named (left+key.rightField) (Nat.add_lt_add_left key.rightField.isLt _)
    rw [KeyCondition.toRexNode,KeyCondition.toJson,Equality.toRexNode,Equality.pair]
    cases key.leftFirst with
    | true => exact serialize_inputRefs rfl leftName rightName
    | false => exact serialize_inputRefs rfl rightName leftName
  | and first rest ihFirst ihRest =>
    have later : serializeAll doubleValue fieldNames (KeyCondition.toRexNodes rest) =
        .ok (KeyCondition.allToJson names rest) := by
      induction rest with
      | nil => rfl
      | cons condition conditions ih =>
        rw [List.forall_mem_cons] at ihRest
        rw [KeyCondition.toRexNodes,serializeAll,ihRest.1,ih ihRest.2]
        rfl
    rw [KeyCondition.toRexNode,serialize,serializeAll,ihFirst,later]
    rfl

theorem read_equality (key : Equality left right) :
    deserializeHashJoinCondition ((KeyCondition.equality key).toJson names) =
    .ok ([canonicalize (key.pair names).1],[canonicalize (key.pair names).2]) := by
  rw [KeyCondition.toJson,deserializeHashJoinCondition,if_neg (by decide),if_pos rfl]

theorem read_and (first second : RexJson) (later : List RexJson) :
    deserializeHashJoinCondition (.operation "AND" (first::second::later)) =
      deserializeHashJoinCondition first >>= fun columns1 => deserializeHashJoinCondition second >>= fun columns2 =>
        .ok (columns1.1 ++ columns2.1,columns1.2 ++ columns2.2) := by
  exact if_pos rfl

theorem read_ofTwo (condition : KeyCondition left right) (ofTwo : condition.OfTwo) :
    deserializeHashJoinCondition (condition.toJson names) =
      .ok ((condition.written names).map Prod.fst,(condition.written names).map Prod.snd) := by
  induction condition using KeyCondition.inductionOn with
  | equality key => exact read_equality key
  | and first rest ihFirst ihRest =>
    obtain ⟨single,twoFirst,twoRest⟩ := ofTwo
    obtain ⟨second,rfl⟩ := List.length_eq_one_iff.mp single
    rw [KeyCondition.toJson,KeyCondition.allToJson,read_and,ihFirst twoFirst,
      ihRest second List.mem_cons_self ((KeyCondition.allOfTwo_iff _).mp twoRest second List.mem_cons_self)]
    simp only [KeyCondition.written,KeyCondition.conjuncts,KeyCondition.conjunctsOfAll,List.append_nil,List.map_append]
    rfl

theorem read_length (condition : KeyCondition left right) {columns : List String × List String}
    (ok : deserializeHashJoinCondition (condition.toJson names) = .ok columns) :
    columns.1.length ≤ condition.conjuncts.length ∧
    (columns.1.length = condition.conjuncts.length → condition.OfTwo) := by
  induction condition using KeyCondition.inductionOn generalizing columns with
  | equality key =>
    rw [read_equality] at ok
    rw [← Except.ok.inj ok]
    exact ⟨Nat.le_refl _,fun _ => trivial⟩
  | and first rest ihFirst ihRest =>
    cases rest with
    | nil => cases ok
    | cons second later =>
      rw [KeyCondition.toJson,KeyCondition.allToJson,read_and] at ok
      obtain ⟨columns1,read1,ok⟩ := bind_eq_ok.mp ok
      obtain ⟨columns2,read2,done⟩ := bind_eq_ok.mp ok
      obtain ⟨bound1,two1⟩ := ihFirst read1
      obtain ⟨bound2,two2⟩ := ihRest second List.mem_cons_self read2
      rw [← Except.ok.inj done,KeyCondition.conjuncts,KeyCondition.conjunctsOfAll,List.length_append,List.length_append,
        List.length_append]
      refine ⟨by omega,fun all => ?_⟩
      have noneLater : (KeyCondition.conjunctsOfAll later).length = 0 := by omega
      cases later with
      | nil => exact ⟨rfl,two1 (by omega),two2 (by omega),trivial⟩
      | cons third later =>
        rw [KeyCondition.conjunctsOfAll,List.length_append] at noneLater
        have some := third.conjuncts_pos
        omega

end Names

/-- The name that a column of a join input gets. -/
def renamedColumn (renames : Option FieldRenames) (column : String) : String :=
  match renames with
  | none => canonicalize column
  | some renames =>
    match (deserializeColumnRenames renames.fieldRenames).lookup column with
    | none => canonicalize column
    | some renamed => canonicalize renamed

theorem addProjectForJoinColumnRenames_eq (renames : FieldRenames) (producer : Prephysical.PrePhysicalOp) :
    addProjectForJoinColumnRenames (some renames) producer =
    .project (renames.fieldNames.map (renamedColumn (some renames))) [] []
      (renames.fieldNames.map fun column => (canonicalize column,renamedColumn (some renames) column)) producer := by
  have names : (renamePairs renames).map Prod.snd = renames.fieldNames.map (renamedColumn (some renames)) :=
      List.map_map
  have kept : Prephysical.PrePhysicalOp.updateProjectColumnNamePairs [] (renamePairs renames)
      ((renamePairs renames).map Prod.snd) =
    renamePairs renames := Prephysical.PrePhysicalOp.updateProjectColumnNamePairs_named fun _ => Iff.rfl
  rw [addProjectForJoinColumnRenames,kept,names]
  rfl

def conditionName (join : Join) (index : Nat) : String := (inputFieldNames join)[index]?.getD ""

/-- The columns of an equality, each with the name that it has in its own input. -/
def sided (join : Join) (key : Equality join.leftFieldNames.length join.rightFieldNames.length) : String × String :=
  (renamedColumn (fieldRenames join.leftFieldNames join.outputFieldNames) (join.leftFieldNames.get key.leftField),
    renamedColumn (fieldRenames join.rightFieldNames (join.outputFieldNames.drop join.leftFieldNames.length))
      (join.rightFieldNames.get key.rightField))

section Keys
variable (doubleValue : ℚ → ℚ) (isAlwaysTrue : RexNode → Bool)

/-- What is read of a join's JSON are the columns of its equalities: as many as there are equalities, each pair those of one
of them, under the names that they have in the inputs. -/
def KeepsKeys (join : Join) (keys : KeyCondition join.leftFieldNames.length join.rightFieldNames.length) : Prop :=
  ∃ json leftNames rightNames,serializeJoin doubleValue isAlwaysTrue join = .ok json ∧
    json.condition.map deserializeHashJoinCondition = some (.ok (leftNames,rightNames)) ∧
    leftNames.length = keys.conjuncts.length ∧ rightNames.length = keys.conjuncts.length ∧
    (leftNames.zip rightNames).Perm (keys.conjuncts.map fun key =>
      (renamedColumn json.leftFieldRenames (join.leftFieldNames.get key.leftField),
        renamedColumn json.rightFieldRenames (join.rightFieldNames.get key.rightField)))

variable {doubleValue isAlwaysTrue}
variable {join : Join} {keys : KeyCondition join.leftFieldNames.length join.rightFieldNames.length}

theorem conditionName_eq {index : Nat} (bound : index < join.leftFieldNames.length+join.rightFieldNames.length) :
    (inputFieldNames join)[index]? = some (conditionName join index) := by
  have inside : index < (inputFieldNames join).length := by
    rw [inputFieldNames]
    have width := join.width
    split
    · rename_i short
      rw [List.length_append]
      cases projects : join.joinType.projectsRight with
      | true =>
        rw [projects,if_pos rfl] at width
        omega
      | false =>
        rw [projects,if_neg Bool.false_ne_true] at width
        omega
    · omega
  rw [conditionName,List.getElem?_eq_getElem inside]
  rfl

theorem keepsKeys_written (equi : join.condition = keys.toRexNode) (notTrue : isAlwaysTrue join.condition = false) :
    KeepsKeys doubleValue isAlwaysTrue join keys ↔
      keys.OfTwo ∧ (keys.written (conditionName join)).Perm (keys.conjuncts.map (sided join)) := by
  have serialized : serializeJoin doubleValue isAlwaysTrue join =
      .ok ⟨join.joinType.name,some (keys.toJson (conditionName join)),
      fieldRenames join.leftFieldNames join.outputFieldNames,
      fieldRenames join.rightFieldNames (join.outputFieldNames.drop join.leftFieldNames.length)⟩ := by
    rw [serializeJoin,notTrue,equi,serialize_condition fun index bound => conditionName_eq bound]
    rfl
  constructor
  · rintro ⟨json,leftNames,rightNames,ok,read,leftLength,rightLength,same⟩
    rw [serialized] at ok
    rw [← Except.ok.inj ok] at read same
    have read := Option.some.inj read
    have ofTwo := (read_length keys read).2 leftLength
    rw [read_ofTwo keys ofTwo] at read
    rw [← List.zip_of_prod (congrArg Prod.fst (Except.ok.inj read)) (congrArg Prod.snd (Except.ok.inj read))] at same
    exact ⟨ofTwo,same⟩
  · rintro ⟨ofTwo,same⟩
    refine ⟨_,_,_,serialized,congrArg some (read_ofTwo keys ofTwo),?_,?_,?_⟩
    · rw [List.length_map,KeyCondition.written,List.length_map]
    · rw [List.length_map,KeyCondition.written,List.length_map]
    · rw [← List.zip_of_prod rfl rfl]
      exact same

section LeftFirst
variable {input output : List String}

theorem renames_absent {name : String} (lower : ∀ other ∈ input,canonicalize other = other) (absent : name ∉ input) :
    (deserializeColumnRenames ((input.zip output).filter fun names => names.1 ≠ names.2)).lookup name = none := by
  rw [List.lookup_eq_none_iff]
  intro rename inside
  obtain ⟨names,kept,rfl⟩ := List.mem_map.mp inside
  have member := (List.of_mem_zip (List.mem_filter.mp kept).1).1
  rw [lower _ member,bne_iff_ne]
  rintro rfl
  exact absent member

theorem renames_lookup (lower : ∀ other ∈ input,canonicalize other = other) (distinct : input.Nodup) {index : Nat}
    (inside : index < input.length) (there : index < output.length) :
    (deserializeColumnRenames ((input.zip output).filter fun names => names.1 ≠ names.2)).lookup input[index] =
      if input[index] = output[index] then none else some (canonicalize output[index]) := by
  induction input generalizing output index with
  | nil => cases inside
  | cons first input ih =>
    cases output with
    | nil => cases there
    | cons renamed output =>
      rw [List.forall_mem_cons] at lower
      obtain ⟨fresh,distinct⟩ := List.nodup_cons.mp distinct
      cases index with
      | zero =>
        change List.lookup first _ = if first = renamed then none else some (canonicalize renamed)
        rw [List.zip_cons_cons]
        by_cases same : first = renamed
        · rw [if_pos same,List.filter_cons_of_neg (by simp [same])]
          exact renames_absent lower.2 fresh
        · rw [if_neg same,List.filter_cons_of_pos (by simp [same]),deserializeColumnRenames,List.map_cons,lower.1]
          exact List.lookup_cons_self
      | succ index =>
        have here : index < input.length := Nat.lt_of_succ_lt_succ inside
        have there : index < output.length := Nat.lt_of_succ_lt_succ there
        have other : input[index] ≠ first := fun same => fresh (same ▸ List.getElem_mem here)
        change List.lookup input[index] _ = if input[index] = output[index] then none else some (canonicalize output[index])
        rw [List.zip_cons_cons,← ih lower.2 distinct here there]
        by_cases same : first = renamed
        · rw [List.filter_cons_of_neg (by simp [same])]
        · rw [List.filter_cons_of_pos (by simp [same]),deserializeColumnRenames,List.map_cons,lower.1,List.lookup_cons,
            beq_false_of_ne other]
          rfl

theorem renamedColumn_eq (lower : ∀ name ∈ input,canonicalize name = name) (distinct : input.Nodup) {index : Nat}
    (inside : index < input.length) (there : index < output.length) :
    renamedColumn (fieldRenames input output) input[index] = canonicalize output[index] := by
  have found := renames_lookup lower distinct inside there
  rw [fieldRenames]
  split
  · rename_i none
    rw [none] at found
    by_cases same : input[index] = output[index]
    · rw [renamedColumn,same]
    · rw [if_neg same] at found
      cases found
  · rw [renamedColumn]
    dsimp only
    rw [found]
    by_cases same : input[index] = output[index]
    · rw [if_pos same,same]
    · rw [if_neg same]
      exact canonicalize_canonicalize _

theorem conditionName_output {index : Nat} (inside : index < join.outputFieldNames.length) :
    conditionName join index = join.outputFieldNames[index] := by
  rw [conditionName,inputFieldNames]
  split
  · rw [List.getElem?_append_left inside,List.getElem?_eq_getElem inside]
    rfl
  · rw [List.getElem?_eq_getElem inside]
    rfl

theorem conditionName_semi (semi : join.joinType.projectsRight = false) {index : Nat}
    (inside : index < join.rightFieldNames.length) :
    conditionName join (join.leftFieldNames.length+index) = join.rightFieldNames[index] := by
  have width := join.width
  rw [semi,if_neg Bool.false_ne_true,Nat.add_zero] at width
  rw [conditionName,inputFieldNames,if_pos (by omega),← width,List.getElem?_append_right (Nat.le_add_right _ _),
    Nat.add_sub_cancel_left,List.getElem?_eq_getElem inside]
  rfl

/-- Where every equality has its left column first and the inputs have distinct names in lower case, what is written are the
names in the inputs. -/
theorem written_eq_sided (leftFirst : ∀ key ∈ keys.conjuncts,key.leftFirst = true)
    (lowerLeft : ∀ name ∈ join.leftFieldNames,canonicalize name = name) (distinctLeft : join.leftFieldNames.Nodup)
    (lowerRight : ∀ name ∈ join.rightFieldNames,canonicalize name = name) (distinctRight : join.rightFieldNames.Nodup) :
    keys.written (conditionName join) = keys.conjuncts.map (sided join) := by
  refine List.map_congr_left fun key inside => ?_
  have width := join.width
  rw [Equality.pair,if_pos (leftFirst key inside),sided]
  refine Prod.ext ?_ ?_
  · have there : (key.leftField : Nat) < join.outputFieldNames.length := by omega
    exact (congrArg canonicalize (conditionName_output there)).trans
      (renamedColumn_eq lowerLeft distinctLeft key.leftField.isLt there).symm
  · cases projects : join.joinType.projectsRight with
    | false =>
      rw [projects,if_neg Bool.false_ne_true,Nat.add_zero] at width
      have noOutput : join.outputFieldNames.drop join.leftFieldNames.length = [] := by rw [← width,List.drop_length]
      dsimp only
      rw [conditionName_semi projects key.rightField.isLt,noOutput,fieldRenames,List.zip_nil_right]
      rfl
    | true =>
      rw [projects,if_pos rfl] at width
      have behind : join.leftFieldNames.length+key.rightField < join.outputFieldNames.length := by omega
      have there : (key.rightField : Nat) < (join.outputFieldNames.drop join.leftFieldNames.length).length := by
        rw [List.length_drop]
        omega
      have renamed := renamedColumn_eq lowerRight distinctRight key.rightField.isLt there
      rw [List.getElem_drop] at renamed
      exact (congrArg canonicalize (conditionName_output behind)).trans renamed.symm

theorem keepsKeys_leftFirst (equi : join.condition = keys.toRexNode) (notTrue : isAlwaysTrue join.condition = false)
    (ofTwo : keys.OfTwo) (leftFirst : ∀ key ∈ keys.conjuncts,key.leftFirst = true)
    (lowerLeft : ∀ name ∈ join.leftFieldNames,canonicalize name = name) (distinctLeft : join.leftFieldNames.Nodup)
    (lowerRight : ∀ name ∈ join.rightFieldNames,canonicalize name = name) (distinctRight : join.rightFieldNames.Nodup) :
    KeepsKeys doubleValue isAlwaysTrue join keys := by
  refine (keepsKeys_written equi notTrue).mpr ⟨ofTwo,?_⟩
  rw [written_eq_sided leftFirst lowerLeft distinctLeft lowerRight distinctRight]

end LeftFirst

section Swapped
open JoinSmallLeftRule
variable {outputFieldNames : List String} {width : outputFieldNames.length =
  join.rightFieldNames.length + if join.joinType.projectsRight then join.leftFieldNames.length else 0}

theorem swapped_condition (equi : join.condition = keys.toRexNode) :
    (swapped join outputFieldNames width).condition = keys.swapped.toRexNode := by
  rw [swapped,equi]
  exact mirror_swapRefs keys

/-- What the rule makes of a join is the join over the inputs in their new order, under a condition of the same equalities. -/
theorem onMatch_swapped {leftRowCount rightRowCount : ℚ} {rewritten : Join} (equi : join.condition = keys.toRexNode)
    (made : onMatch leftRowCount rightRowCount join outputFieldNames width = some rewritten) :
    rewritten = swapped join outputFieldNames width ∧ rewritten.condition = keys.swapped.toRexNode ∧
      keys.swapped.conjuncts = keys.conjuncts.map Equality.swapped := by
  rw [onMatch] at made
  split at made
  · cases made
  · split at made
    · rw [← Option.some.inj made]
      exact ⟨rfl,swapped_condition equi,KeyCondition.conjuncts_swapped keys⟩
    · cases made

theorem keepsKeys_iff (equi : join.condition = keys.toRexNode)
    (notTrue : ∀ left right,∀ condition : KeyCondition left right,isAlwaysTrue condition.toRexNode = false) :
    (KeepsKeys doubleValue isAlwaysTrue join keys ↔
        keys.OfTwo ∧ (keys.written (conditionName join)).Perm (keys.conjuncts.map (sided join))) ∧
      (KeepsKeys doubleValue isAlwaysTrue (swapped join outputFieldNames width) keys.swapped ↔
        keys.OfTwo ∧ (keys.swapped.written (conditionName (swapped join outputFieldNames width))).Perm
          (keys.swapped.conjuncts.map (sided (swapped join outputFieldNames width)))) := by
  have mirrored : (swapped join outputFieldNames width).condition = keys.swapped.toRexNode := swapped_condition equi
  refine ⟨keepsKeys_written equi (equi ▸ notTrue _ _ keys),?_⟩
  exact (keepsKeys_written mirrored (mirrored ▸ notTrue _ _ keys.swapped)).trans
    (and_congr_left' (KeyCondition.ofTwo_swapped keys))

end Swapped

end Keys

section Examples
open JoinSmallLeftRule

/-- A join on `a = m` and `k = a0`, where `a0` is the right input's `a`. -/
def twoKeys : KeyCondition 2 2 :=
  .and (.equality ⟨(Fin.last 0).castSucc,Fin.last 1,true⟩) [.equality ⟨Fin.last 1,(Fin.last 0).castSucc,true⟩]

def twoKeysJoin : Join := ⟨.inner,["a","k"],["a","m"],["a","k","a0","m"],twoKeys.toRexNode,rfl⟩

theorem twoKeys_kept : KeepsKeys id (fun _ => false) twoKeysJoin twoKeys ∧
    KeepsKeys id (fun _ => false) (swapped twoKeysJoin ["a","m","a0","k"] rfl) twoKeys.swapped := by
  obtain ⟨plain,mirrored⟩ := @keepsKeys_iff id (fun _ => false) twoKeysJoin twoKeys ["a","m","a0",
    "k"] rfl rfl fun _ _ _ => rfl
  exact ⟨plain.mpr ⟨⟨rfl,trivial,trivial,trivial⟩,by decide⟩,mirrored.mpr ⟨⟨rfl,trivial,trivial,trivial⟩,by decide⟩⟩

def threeKeys : KeyCondition 3 3 := .and (.equality ⟨0,0,true⟩) [.equality ⟨1,1,true⟩,.equality ⟨2,2,true⟩]

/-- The third equality of a flat conjunction is dropped, an equality with its right column first is read the wrong way round,
and a renamed column in upper case is not renamed in its input. -/
theorem keys_lost :
    ¬KeepsKeys id (fun _ => false) ⟨.inner,["a","b","c"],["x","y","z"],["a","b","c","x","y","z"],threeKeys.toRexNode,
      rfl⟩ threeKeys ∧
    ¬KeepsKeys id (fun _ => false) ⟨.inner,["a"],["x"],["a","x"],
      (KeyCondition.equality ⟨0,0,false⟩ : KeyCondition 1 1).toRexNode,rfl⟩
      (.equality ⟨0,0,false⟩) ∧
    ¬KeepsKeys id (fun _ => false) ⟨.inner,["X"],["X"],["X","X0"],
      (KeyCondition.equality ⟨0,0,true⟩ : KeyCondition 1 1).toRexNode,rfl⟩
      (.equality ⟨0,0,true⟩) := by
  refine ⟨fun keeps => ?_,fun keeps => ?_,fun keeps => ?_⟩
  · exact absurd ((keepsKeys_written rfl rfl).mp keeps).1.1 (by decide)
  · exact absurd ((keepsKeys_written rfl rfl).mp keeps).2 (by decide)
  · exact absurd ((keepsKeys_written rfl rfl).mp keeps).2 (by decide)

end Examples
end Hermes.Calcite
