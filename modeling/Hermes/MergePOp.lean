import Hermes.POpContext
import Hermes.Table
import Hermes.Library.Pairing
import Mathlib.Data.List.Induction

/-! `MergePOp` and `MergeKernel`: the columns of two streams of tuple sets side by side.
What arrives waits in the queue of its side until the other side has a partner. -/
namespace Hermes.Operators
open Hermes.Tuples Hermes.Library.Pairing
variable {α ν : Type}

namespace MergeKernel

def duplicate (tupleSet1 tupleSet2 : TupleSet ν) : Option String :=
  (tupleSet1.fields.find? fun field1 => tupleSet2.fields.any fun field2 => field1.name == field2.name).map Field.name

def validateTupleSets (tupleSet1 tupleSet2 : TupleSet ν) : Except String Unit :=
  -- a tuple set without columns is discarded
  if 0 < tupleSet1.numColumns ∧ 0 < tupleSet2.numColumns then
    if tupleSet1.numRows ≠ tupleSet2.numRows then
      .error ("Cannot merge TupleSets, number of rows must be equal. tupleSet1.numRows: " ++
        toString tupleSet1.numRows ++
        " != tupleSet2.numRows: " ++ toString tupleSet2.numRows)
    else
      match duplicate tupleSet1 tupleSet2 with
      | some name => .error ("Cannot merge TupleSets, field names must not contain duplicates. " ++
          "Multiple fields with name: " ++ name)
      | none => .ok ()
  else .ok ()

def mergeSchema (tupleSet1 tupleSet2 : TupleSet ν) : List Field := tupleSet1.fields ++ tupleSet2.fields

/-- The arrays of both, read row by row. -/
def mergeArrays (tupleSet1 tupleSet2 : TupleSet ν) : List (List (Slot ν)) :=
  if tupleSet1.numColumns = 0 then tupleSet2.rows
  else if tupleSet2.numColumns = 0 then tupleSet1.rows
  else List.zipWith (· ++ ·) tupleSet1.rows tupleSet2.rows

theorem mergeArrays_shaped (tupleSet1 tupleSet2 : TupleSet ν) :
    ∀ row ∈ mergeArrays tupleSet1 tupleSet2, row.length = (mergeSchema tupleSet1 tupleSet2).length := by
  intro row inside
  rw [mergeSchema,List.length_append,← TupleSet.numColumns_eq,← TupleSet.numColumns_eq]
  unfold mergeArrays at inside
  split at inside
  next none =>
    rw [none,Nat.zero_add]
    exact tupleSet2.shaped row inside
  next some =>
    split at inside
    next none =>
      rw [none,Nat.add_zero]
      exact tupleSet1.shaped row inside
    next =>
      obtain ⟨k,bound,rfl⟩ := List.mem_iff_getElem.mp inside
      rw [List.getElem_zipWith,List.length_append,tupleSet1.shaped _ (List.getElem_mem _),
        tupleSet2.shaped _ (List.getElem_mem _)]

def merge (tupleSet1 tupleSet2 : TupleSet ν) : Except String (Table ν) :=
  match validateTupleSets tupleSet1 tupleSet2 with
  | .error message => .error message
  | .ok _ =>
    if (mergeSchema tupleSet1 tupleSet2).isEmpty then .ok .empty
    else .ok ⟨mergeSchema tupleSet1 tupleSet2,mergeArrays tupleSet1 tupleSet2,mergeArrays_shaped tupleSet1 tupleSet2⟩

end MergeKernel

structure MergePOp (ν : Type) where
  leftProducerName : String
  rightProducerName : String
  projectColumnNames : List String
  leftTupleSets : List (TupleSet ν)
  rightTupleSets : List (TupleSet ν)
deriving DecidableEq

namespace MergePOp

def clear (op : MergePOp ν) : MergePOp ν := {op with leftTupleSets := [], rightTupleSets := []}

/-- The loop on the two queues. The projected tuple set is asked for its value also
where there is none, with both tuple sets still in the queues. -/
def merge (op : MergePOp ν) (ctx : POpContext α (Table ν)) :
    List (TupleSet ν) → List (TupleSet ν) → Process (MergePOp ν) α (Table ν)
  | [],rightTupleSets => ⟨{op with leftTupleSets := [], rightTupleSets := rightTupleSets},ctx,none⟩
  | leftTupleSets,[] => ⟨{op with leftTupleSets := leftTupleSets, rightTupleSets := []},ctx,none⟩
  | leftTupleSet::leftTupleSets,rightTupleSet::rightTupleSets =>
    match MergeKernel.merge leftTupleSet rightTupleSet with
    | .error error => merge op (ctx.notifyError (error ++ ".\n leftOp: " ++ op.leftProducerName ++
        "\n rightOp: " ++ op.rightProducerName)) leftTupleSets rightTupleSets
    | .ok merged =>
      match merged.projectExist op.projectColumnNames with
      | .error error => ⟨{op with
            leftTupleSets := leftTupleSet::leftTupleSets
            rightTupleSets := rightTupleSet::rightTupleSets},ctx.notifyError error,some .exception⟩
      | .ok projected => merge op (ctx.tell projected) leftTupleSets rightTupleSets

def onTuple (op : MergePOp ν) (ctx : POpContext α (Table ν)) (sender : String) (tupleSet : TupleSet ν) :
    Process (MergePOp ν) α (Table ν) :=
  if sender = op.leftProducerName then op.merge ctx (op.leftTupleSets ++ [tupleSet]) op.rightTupleSets
  else if sender = op.rightProducerName then op.merge ctx op.leftTupleSets (op.rightTupleSets ++ [tupleSet])
  else op.merge (ctx.notifyError ("Unrecognized producer " ++ sender ++ ", left: " ++ op.leftProducerName ++
    ", right: " ++ op.rightProducerName)) op.leftTupleSets op.rightTupleSets

def onComplete (op : MergePOp ν) (ctx : POpContext α (Table ν)) : Process (MergePOp ν) α (Table ν) :=
  if !ctx.complete && ctx.operatorMap.allComplete .producer then ⟨op.clear,ctx.notifyComplete,none⟩
  else ⟨op,ctx,none⟩

def onReceive (op : MergePOp ν) (ctx : POpContext α (Table ν)) :
    Waiting (TupleSet ν) → Process (MergePOp ν) α (Table ν)
  | .content sender tupleSet => op.onTuple ctx sender tupleSet
  | .complete _ => op.onComplete ctx

end MergePOp

/-- Tuple sets that may stand side by side: they have as many rows and no name in
common, or one of them has no columns. -/
def Mergeable (left right : TupleSet ν) : Prop :=
  left.numColumns = 0 ∨ right.numColumns = 0 ∨
    left.numRows = right.numRows ∧ ∀ field1 ∈ left.fields, ∀ field2 ∈ right.fields, field1.name ≠ field2.name

/-- The columns of both, row by row. One without columns is discarded. -/
structure SideBySide (left right : TupleSet ν) (merged : Table ν) : Prop where
  fields : merged.fields = left.fields ++ right.fields
  both : 0 < left.numColumns → 0 < right.numColumns → merged.rows = List.zipWith (· ++ ·) left.rows right.rows
  leftOnly : 0 < left.numColumns → right.numColumns = 0 → merged.rows = left.rows
  rightOnly : left.numColumns = 0 → 0 < right.numColumns → merged.rows = right.rows

inductive Answers (projectColumnNames : List String) (left right : TupleSet ν) : Act (Table ν) → Prop
  | told (merged projected : Table ν) (mergeable : Mergeable left right) (sideBySide : SideBySide left right merged)
      (projection : merged.projectExist projectColumnNames = .ok projected) :
      Answers projectColumnNames left right (.tell projected)
  | refused (message : String) (clash : ¬Mergeable left right) :
      Answers projectColumnNames left right (.notifyError message)

def Projectable (projectColumnNames : List String) (left right : TupleSet ν) : Prop :=
  ∃ columnName ∈ projectColumnNames, (getFieldIndex (left.fields ++ right.fields) (canonicalize columnName)).isSome

theorem duplicate_eq_none {left right : TupleSet ν} : MergeKernel.duplicate left right = none ↔
    ∀ field1 ∈ left.fields, ∀ field2 ∈ right.fields, field1.name ≠ field2.name := by
  simp [MergeKernel.duplicate]

theorem merge_mergeable {left right : TupleSet ν} (mergeable : Mergeable left right) :
    ∃ merged, MergeKernel.merge left right = .ok merged ∧ SideBySide left right merged := by
  have valid : MergeKernel.validateTupleSets left right = .ok () := by
    unfold MergeKernel.validateTupleSets
    split
    next both =>
      have same : left.numRows = right.numRows ∧ MergeKernel.duplicate left right = none := by
        rw [duplicate_eq_none]
        obtain none | none | same := mergeable
        · omega
        · omega
        · exact same
      simp [same]
    next => rfl
  unfold MergeKernel.merge
  rw [valid]
  dsimp only
  split
  next blank =>
    have blank' : left.fields = [] ∧ right.fields = [] := by simpa [MergeKernel.mergeSchema] using blank
    have columns : left.numColumns = 0 ∧ right.numColumns = 0 := by
      rw [TupleSet.numColumns_eq,TupleSet.numColumns_eq,blank'.1,blank'.2]
      exact ⟨rfl,rfl⟩
    refine ⟨_,rfl,?_,by omega,by omega,by omega⟩
    rw [blank'.1,blank'.2]
    rfl
  next =>
    refine ⟨_,rfl,rfl,?_,?_,?_⟩
    · intro some more
      exact (if_neg (by omega)).trans (if_neg (by omega))
    · intro some none
      exact (if_neg (by omega)).trans (if_pos none)
    · intro none some
      exact if_pos none

theorem merge_clash {left right : TupleSet ν} (clash : ¬Mergeable left right) :
    ∃ message, MergeKernel.merge left right = .error message := by
  unfold Mergeable at clash
  rw [← duplicate_eq_none] at clash
  push Not at clash
  obtain ⟨some,more,differ⟩ := clash
  have invalid : ∃ message, MergeKernel.validateTupleSets left right = .error message := by
    unfold MergeKernel.validateTupleSets
    rw [if_pos ⟨Nat.pos_of_ne_zero some,Nat.pos_of_ne_zero more⟩]
    split
    next => exact ⟨_,rfl⟩
    next same =>
      obtain ⟨name,found⟩ := Option.ne_none_iff_exists'.mp (differ (by simpa using same))
      rw [found]
      exact ⟨_,rfl⟩
  obtain ⟨message,failed⟩ := invalid
  rw [MergeKernel.merge,failed]
  exact ⟨message,rfl⟩

theorem projectExist_ok {projectColumnNames : List String} {left right : TupleSet ν} {merged : Table ν}
    (projectable : Projectable projectColumnNames left right) (sideBySide : SideBySide left right merged) :
    ∃ projected, merged.projectExist projectColumnNames = .ok projected := by
  obtain ⟨columnName,asked,found⟩ := projectable
  obtain ⟨c,there⟩ := Option.isSome_iff_exists.mp found
  rw [← sideBySide.fields] at there
  have some : merged.existing projectColumnNames ≠ [] := by
    have inside : (canonicalize columnName,c) ∈ merged.existing projectColumnNames :=
      List.mem_filterMap.mpr ⟨columnName,asked,by rw [there]; rfl⟩
    exact List.ne_nil_of_mem inside
  rw [Table.projectExist,if_neg (by simpa using some)]
  exact ⟨_,rfl⟩

theorem merge_drains (op : MergePOp ν) (ctx : POpContext α (Table ν)) (incomplete : ctx.complete = false)
    (lefts rights : List (TupleSet ν))
    (projectable : ∀ pair ∈ lefts.zip rights, Mergeable pair.1 pair.2 →
      Projectable op.projectColumnNames pair.1 pair.2) :
    ∃ acts, op.merge ctx lefts rights = ⟨{op with
          leftTupleSets := lefts.drop rights.length
          rightTupleSets := rights.drop lefts.length},ctx.record acts,none⟩ ∧
      List.Forall₂ (fun pair => Answers op.projectColumnNames pair.1 pair.2) (lefts.zip rights) acts := by
  induction lefts generalizing rights ctx with
  | nil =>
    refine ⟨[],?_,.nil⟩
    simp [MergePOp.merge]
  | cons left lefts ih =>
    cases rights with
    | nil =>
      refine ⟨[],?_,.nil⟩
      simp [MergePOp.merge]
    | cons right rights =>
      have later : ∀ pair ∈ lefts.zip rights, Mergeable pair.1 pair.2 →
          Projectable op.projectColumnNames pair.1 pair.2 :=
        fun pair inside => projectable pair (List.mem_cons_of_mem _ inside)
      rw [MergePOp.merge,List.zip_cons_cons]
      by_cases mergeable : Mergeable left right
      · obtain ⟨merged,combined,sideBySide⟩ := merge_mergeable mergeable
        obtain ⟨projected,projection⟩ := projectExist_ok
          (projectable (left,right) List.mem_cons_self mergeable) sideBySide
        obtain ⟨acts,drained,answered⟩ := ih (ctx.tell projected)
          (by rw [ctx.tell_incomplete incomplete]; exact incomplete)
          rights later
        refine ⟨.tell projected::acts,?_,.cons (.told merged projected mergeable sideBySide projection) answered⟩
        simp only [combined,projection]
        rw [drained,ctx.tell_incomplete incomplete]
        simp
      · obtain ⟨message,failed⟩ := merge_clash mergeable
        simp only [failed]
        generalize message ++ ".\n leftOp: " ++ op.leftProducerName ++ "\n rightOp: " ++ op.rightProducerName = content
        obtain ⟨acts,drained,answered⟩ := ih (ctx.notifyError content) incomplete rights later
        refine ⟨.notifyError content::acts,?_,.cons (.refused content mergeable) answered⟩
        rw [drained,POpContext.notifyError]
        simp

/-- The tuple sets of a sender, in order. -/
def sent (sender : String) (messages : List (Waiting (TupleSet ν))) : List (TupleSet ν) :=
  messages.filterMap fun message =>
    match message with
    | .content name tupleSet => if name = sender then some tupleSet else none
    | .complete _ => none

theorem sent_append (sender : String) (messages more : List (Waiting (TupleSet ν))) :
    sent sender (messages ++ more) = sent sender messages ++ sent sender more :=
  List.filterMap_append

theorem sent_content (sender name : String) (messages : List (Waiting (TupleSet ν))) (tupleSet : TupleSet ν) :
    sent sender (messages ++ [.content name tupleSet]) =
      sent sender messages ++ if name = sender then [tupleSet] else [] := by
  rw [sent_append]
  by_cases same : name = sender <;> simp [same,sent]

theorem sent_complete (sender name : String) (messages : List (Waiting (TupleSet ν))) :
    sent sender (messages ++ [.complete name]) = sent sender messages := by
  simp [sent]

def MergePOp.Producer (op : MergePOp ν) (name : String) : Prop := name = op.leftProducerName ∨
    name = op.rightProducerName

/-- An operator on two producers that both are still awaited. -/
structure Started (process : Process (MergePOp ν) α (Table ν)) : Prop where
  distinct : process.operator.leftProducerName ≠ process.operator.rightProducerName
  alive : process.fault = none
  blank : process.operator.clear = process.operator
  incomplete : process.ctx.complete = false
  silent : process.ctx.acts = []
  awaiting : process.ctx.operatorMap.Awaiting process.operator.Producer

/-- What an operator has done and still holds after some messages. -/
structure Paired (op : MergePOp ν) (messages : List (Waiting (TupleSet ν))) (process : Process (MergePOp ν) α (Table ν))
    (acts : List (Act (Table ν))) : Prop where
  alive : process.fault = none
  answered : List.Forall₂ (fun pair => Answers op.projectColumnNames pair.1 pair.2)
    ((sent op.leftProducerName messages).zip (sent op.rightProducerName messages)) acts
  running : ¬Finished op.Producer messages → process.ctx.acts = acts ∧ process.operator = {op with
    leftTupleSets := (sent op.leftProducerName messages).drop (sent op.rightProducerName messages).length
    rightTupleSets := (sent op.rightProducerName messages).drop (sent op.leftProducerName messages).length}
  finished : Finished op.Producer messages → process.ctx.acts = acts ++ [.notifyComplete] ∧ process.operator = op.clear
  complete : process.ctx.complete = true ↔ Finished op.Producer messages
  expecting : Expecting op.Producer messages process.ctx.operatorMap

theorem onTuple_eq (op : MergePOp ν) (distinct : op.leftProducerName ≠ op.rightProducerName)
    (ctx : POpContext α (Table ν)) {sender : String} (known : op.Producer sender) (tupleSet : TupleSet ν) :
    op.onTuple ctx sender tupleSet = op.merge ctx
      (op.leftTupleSets ++ if sender = op.leftProducerName then [tupleSet] else [])
      (op.rightTupleSets ++ if sender = op.rightProducerName then [tupleSet] else []) := by
  unfold MergePOp.onTuple
  obtain left | right := known
  · have other : sender ≠ op.rightProducerName := fun same => distinct (left.symm.trans same)
    rw [if_pos left,if_pos left,if_neg other,List.append_nil]
  · have other : sender ≠ op.leftProducerName := fun same => distinct (same.symm.trans right)
    rw [if_neg other,if_pos right,if_neg other,if_pos right,List.append_nil]

section
variable {op : MergePOp ν} {messages : List (Waiting (TupleSet ν))} {process : Process (MergePOp ν) α (Table ν)}
  {acts : List (Act (Table ν))} {sender : String}

theorem Paired.content (paired : Paired op messages process acts)
    (distinct : op.leftProducerName ≠ op.rightProducerName)
    (known : op.Producer sender) (missing : .complete sender ∉ messages)
    (tupleSet : TupleSet ν)
    (projectable : ∀ pair ∈ (sent op.leftProducerName (messages ++ [.content sender tupleSet])).zip
        (sent op.rightProducerName (messages ++ [.content sender tupleSet])),
      Mergeable pair.1 pair.2 → Projectable op.projectColumnNames pair.1 pair.2) :
    ∃ acts, Paired op (messages ++ [.content sender tupleSet])
      (process.receive MergePOp.onReceive (.content sender tupleSet)) acts := by
  have unfinished := Finished.not_of_missing known missing
  obtain ⟨logged,queues⟩ := paired.running unfinished
  have incomplete : process.ctx.complete = false := by
    rw [← Bool.not_eq_true,paired.complete]
    exact unfinished
  rw [sent_content,sent_content,zip_append_waiting] at projectable
  rw [Process.receive_content paired.alive,MergePOp.onReceive,
    onTuple_eq process.operator (by rw [queues]; exact distinct)
    process.ctx (by rw [queues]; exact known),queues]
  obtain ⟨more,drained,answered⟩ := merge_drains {op with
      leftTupleSets := (sent op.leftProducerName messages).drop (sent op.rightProducerName messages).length
      rightTupleSets := (sent op.rightProducerName messages).drop (sent op.leftProducerName messages).length}
    process.ctx incomplete _ _ fun pair inside => projectable pair (List.mem_append_right _ inside)
  rw [drained]
  refine ⟨acts ++ more,rfl,?_,?_,?_,?_,?_⟩
  · rw [sent_content,sent_content,zip_append_waiting]
    exact List.rel_append paired.answered answered
  · intro unfinished
    rw [sent_content,sent_content,drop_waiting,drop_waiting,POpContext.record_acts,logged]
    exact ⟨rfl,rfl⟩
  · intro finished
    exact absurd ((finished_append_content _ _).mp finished) unfinished
  · rw [POpContext.record_complete,paired.complete,finished_append_content]
  · exact paired.expecting.content _ _

theorem Paired.complete_one (paired : Paired op messages process acts)
    (known : op.Producer sender) (missing : .complete sender ∉ messages) :
    Paired op (messages ++ [.complete sender]) (process.receive MergePOp.onReceive (.complete sender)) acts := by
  have unfinished := Finished.not_of_missing known missing
  obtain ⟨logged,queues⟩ := paired.running unfinished
  have incomplete : process.ctx.complete = false := by
    rw [← Bool.not_eq_true,paired.complete]
    exact unfinished
  obtain ⟨taken,expecting,all⟩ := paired.expecting.complete known missing
  rw [Process.receive_complete paired.alive taken,MergePOp.onReceive,MergePOp.onComplete]
  by_cases finished : Finished op.Producer (messages ++ [.complete sender])
  · rw [if_pos (by simp [incomplete,all.mpr finished]),POpContext.notifyComplete_incomplete _ (by exact incomplete)]
    refine ⟨rfl,?_,fun other => absurd finished other,?_,?_,expecting⟩
    · rw [sent_complete,sent_complete]
      exact paired.answered
    · intro _
      refine ⟨?_,?_⟩
      · rw [← logged]
        rfl
      · rw [queues]
        rfl
    · exact ⟨fun _ => finished,fun _ => rfl⟩
  · rw [if_neg (by simp [incomplete,all,finished])]
    refine ⟨rfl,?_,?_,fun other => absurd other finished,?_,expecting⟩
    · rw [sent_complete,sent_complete]
      exact paired.answered
    · intro _
      rw [sent_complete,sent_complete]
      exact ⟨logged,queues⟩
    · dsimp only
      rw [incomplete]
      exact ⟨fun wrong => absurd wrong Bool.false_ne_true,fun wrong => absurd wrong finished⟩

end

theorem Started.paired {started : Process (MergePOp ν) α (Table ν)} (fresh : Started started)
    {messages : List (Waiting (TupleSet ν))} (produced : FromProducers started.operator.Producer messages)
    (projectable : ∀ pair ∈ (sent started.operator.leftProducerName messages).zip
        (sent started.operator.rightProducerName messages),
      Mergeable pair.1 pair.2 → Projectable started.operator.projectColumnNames pair.1 pair.2) :
    ∃ acts, Paired started.operator messages (started.run MergePOp.onReceive messages) acts := by
  induction messages using List.reverseRecOn with
  | nil =>
    have unfinished : ¬Finished started.operator.Producer ([] : List (Waiting (TupleSet ν))) :=
      Finished.not_of_missing (.inl rfl) List.not_mem_nil
    refine ⟨[],fresh.alive,.nil,?_,fun finished => absurd finished unfinished,?_,?_⟩
    · intro _
      exact ⟨fresh.silent,fresh.blank.symm⟩
    · change started.ctx.complete = true ↔ _
      rw [fresh.incomplete]
      exact ⟨fun wrong => absurd wrong Bool.false_ne_true,fun wrong => absurd wrong unfinished⟩
    · exact expecting_nil fresh.awaiting
  | append_singleton messages message ih =>
    obtain ⟨before,known,missing⟩ := produced.init
    have earlier : ∀ pair ∈ (sent started.operator.leftProducerName messages).zip
        (sent started.operator.rightProducerName messages),
        Mergeable pair.1 pair.2 → Projectable started.operator.projectColumnNames pair.1 pair.2 := by
      intro pair inside
      apply projectable
      rw [sent_append,sent_append,zip_append_waiting]
      exact List.mem_append_left _ inside
    obtain ⟨acts,paired⟩ := ih before earlier
    rw [Process.run_snoc]
    cases message with
    | content sender tupleSet => exact paired.content fresh.distinct known missing tupleSet projectable
    | complete sender => exact ⟨acts,paired.complete_one known missing⟩

/-- A merge of the columns `a` and `b` of two producers, before any message. -/
def mergeStarted : Process (MergePOp Int) Unit (Table Int) where
  operator := ⟨"left","right",["a","b"],[],[]⟩
  ctx := ⟨1,"merge",((LocalPOpDirectory.make.insert ⟨"left",(),.producer,false⟩).1.insert ⟨"right",(),.producer,false⟩).1,
    false,[]⟩
  fault := none

theorem mergeStarted_started : Started mergeStarted where
  distinct := by decide
  alive := rfl
  blank := rfl
  incomplete := rfl
  silent := rfl
  awaiting := by
    have both := ((LocalPOpDirectory.awaiting_make (α := Unit)).insert "left" rfl ()).insert "right" rfl ()
    simp only [or_false,@or_comm (_ = "right")] at both
    exact both

/-- The left tuple set has no columns, the right one a row: they are merged all the same. -/
theorem columnless_discarded :
    TupleSet.numRows (some Table.empty : TupleSet Int) ≠ TupleSet.numRows (some (column "b" [3])) ∧
      (mergeStarted.run MergePOp.onReceive
        [.content "left" (some .empty),.content "right" (some (column "b" [3]))]).ctx.acts =
          [.tell (column "b" [3])] := by
  decide

end Hermes.Operators
