import Hermes.MergePOp
import Hermes.OperatorContract

/-! What the others hear of `MergePOp`: an error takes the handles of its actor away, so that nothing behind it arrives. -/
namespace Hermes.Operators
open Hermes.Tuples Hermes.Executor
variable {α ν : Type}

def MergedTo (projectColumnNames : List String) (pairs : List (TupleSet ν × TupleSet ν))
    (projected : List (Table ν)) : Prop :=
  List.Forall₂ (fun pair table => Answers projectColumnNames pair.1 pair.2 (.tell table)) pairs projected

/-- What the consumers and the root get to know. The first pair that is refused is the last of which they do. -/
inductive Heard (own : String) (projectColumnNames : List String) (pairs : List (TupleSet ν × TupleSet ν))
    (ending : List (Mail (Table ν))) (acts : List (Act (Table ν))) : Prop
  | merged (projected : List (Table ν)) (told : MergedTo projectColumnNames pairs projected)
      (consumers : ∀ consumer, outbox own true consumer acts = tuples own projected ++ ending)
      (root : reports own acts = ending) : Heard own projectColumnNames pairs ending acts
  | refused (before after : List (TupleSet ν × TupleSet ν)) (clash : TupleSet ν × TupleSet ν)
      (cut : pairs = before ++ clash::after) (apart : ¬Mergeable clash.1 clash.2) (projected : List (Table ν))
      (told : MergedTo projectColumnNames before projected)
      (consumers : ∀ consumer, outbox own true consumer acts = tuples own projected) (content : String)
      (root : reports own acts = [.error own content]) : Heard own projectColumnNames pairs ending acts

section
variable {own : String} {projectColumnNames : List String} {pairs : List (TupleSet ν × TupleSet ν)}
  {ending : List (Mail (Table ν))} {acts : List (Act (Table ν))}

theorem Heard.tell (heard : Heard own projectColumnNames pairs ending acts) {pair : TupleSet ν × TupleSet ν}
    {table : Table ν} (answered : Answers projectColumnNames pair.1 pair.2 (.tell table)) :
    Heard own projectColumnNames (pair::pairs) ending (.tell table::acts) := by
  cases heard with
  | merged projected told consumers root =>
    refine .merged (table::projected) (.cons answered told) (fun consumer => ?_) root
    exact congrArg (List.cons (.waiting (.content own table))) (consumers consumer)
  | refused before after clash cut apart projected told consumers content root =>
    refine .refused (pair::before) after clash (congrArg (List.cons pair) cut) apart (table::projected)
      (.cons answered told)
      (fun consumer => ?_) content root
    exact congrArg (List.cons (.waiting (.content own table))) (consumers consumer)

theorem heard_of_answered (answered : List.Forall₂ (fun pair => Answers projectColumnNames pair.1 pair.2) pairs acts)
    {last : List (Act (Table ν))} (consumers : ∀ consumer, outbox own true consumer last = ending)
    (root : reports own last = ending) : Heard own projectColumnNames pairs ending (acts ++ last) := by
  induction answered with
  | nil => exact .merged [] .nil consumers root
  | cons answer _ ih =>
    cases answer with
    | told merged projected mergeable sideBySide projection =>
      exact ih.tell (.told merged projected mergeable sideBySide projection)
    | refused message clash => exact .refused [] _ _ rfl clash [] .nil (fun _ => rfl) message rfl

end

/-- In every run of two streams of tuple sets, the k-th thing done is about the k-th pair:
a pair that may stand side by side is told with its columns side by side, any other is
refused with an error, behind which nobody hears of the others. What has no partner waits until both producers are done. -/
theorem merge_pairs_in_order (started : Process (MergePOp ν) α (Table ν)) (fresh : Started started)
    (messages : List (Waiting (TupleSet ν)))
    (produced : FromProducers started.operator.Producer messages)
    (projectable : ∀ pair ∈ (sent started.operator.leftProducerName messages).zip
        (sent started.operator.rightProducerName messages),
      Mergeable pair.1 pair.2 → Projectable started.operator.projectColumnNames pair.1 pair.2) :
    ∃ acts, Paired started.operator messages (started.run MergePOp.onReceive messages) acts ∧
      acts.length = min (sent started.operator.leftProducerName messages).length
        (sent started.operator.rightProducerName messages).length ∧
      ∀ own,
        (¬Finished started.operator.Producer messages → Heard own started.operator.projectColumnNames
          ((sent started.operator.leftProducerName messages).zip (sent started.operator.rightProducerName messages)) []
          (started.run MergePOp.onReceive messages).ctx.acts) ∧
        (Finished started.operator.Producer messages → Heard own started.operator.projectColumnNames
          ((sent started.operator.leftProducerName messages).zip (sent started.operator.rightProducerName messages))
          [.waiting (.complete own)] (started.run MergePOp.onReceive messages).ctx.acts) := by
  obtain ⟨acts,paired⟩ := fresh.paired produced projectable
  refine ⟨acts,paired,?_,fun own => ⟨fun unfinished => ?_,fun finished => ?_⟩⟩
  · rw [← paired.answered.length_eq,List.length_zip]
  · rw [(paired.running unfinished).1,← List.append_nil acts]
    exact heard_of_answered paired.answered (fun _ => rfl) rfl
  · rw [(paired.finished finished).1]
    exact heard_of_answered paired.answered (fun _ => rfl) rfl

/-- Two rows on the left, then two and one on the right, whose producer is done first. -/
theorem two_columns_merged : ∃ acts, Paired mergeStarted.operator
      [.content "left" (some (column "a" [1,2])),.content "right" (some (column "b" [3,4])),
        .content "right" (some (column "b" [5])),.complete "right",.complete "left"]
      (mergeStarted.run MergePOp.onReceive
        [.content "left" (some (column "a" [1,2])),.content "right" (some (column "b" [3,4])),
          .content "right" (some (column "b" [5])),.complete "right",.complete "left"]) acts ∧ acts.length = 1 := by
  obtain ⟨acts,paired,count,_⟩ := merge_pairs_in_order mergeStarted mergeStarted_started
    [.content "left" (some (column "a" [1,2])),.content "right" (some (column "b" [3,4])),
      .content "right" (some (column "b" [5])),.complete "right",.complete "left"]
    ⟨by simp [Waiting.sender,mergeStarted,MergePOp.Producer],by simp [Waiting.sender]⟩ (by
      intro pair inside mergeable
      have same : pair = (some (column "a" [1,2]),some (column "b" [3,4])) := by simpa [sent,mergeStarted] using inside
      rw [same]
      exact ⟨"a",by simp [mergeStarted],by decide⟩)
  exact ⟨acts,paired,count⟩

end Hermes.Operators
