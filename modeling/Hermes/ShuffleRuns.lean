import Hermes.ShuffleOutput

/-! Several shuffles in front of the same consumers, each after its last producer. -/
namespace Hermes.Shuffle
open Hermes.Tuples Hermes.Operators
open Hermes.Library.ListJoin
variable {α ν : Type}

theorem shuffled_run (runtime : Runtime ν) {under : DataType → ν} {isProducer : String → Prop} {fields : List Field}
    {started : Process (ShufflePOp ν) α (TupleSet ν)} (fresh : Started isProducer started)
    {messages : List (Waiting (TupleSet ν))} (produced : FromProducers isProducer messages)
    (acceptable : ∀ sender tupleSet, .content sender tupleSet ∈ messages →
      Acceptable under started.operator.shuffleColumnNames fields tupleSet) :
    ∃ sends, Shuffled runtime under isProducer fields started.operator messages
      (started.run (ShufflePOp.onReceive runtime) messages) sends := by
  induction messages using List.reverseRecOn with
  | nil =>
    obtain ⟨name,produces⟩ := fresh.produces
    have unfinished : ¬Finished isProducer ([] : List (Waiting (TupleSet ν))) :=
      Finished.not_of_missing produces List.not_mem_nil
    have empty : ∀ before ∈ started.operator.buffers, before = none := by
      intro before inside
      rw [fresh.buffers] at inside
      exact List.eq_of_mem_replicate inside
    refine ⟨[],fresh.alive,fun _ inside => absurd inside List.not_mem_nil,?_,fun finished => absurd finished unfinished,
      ?_,fresh.connected,expecting_nil fresh.awaiting⟩
    · intro _
      refine ⟨fresh.silent,rfl,rfl,?_,?_,?_⟩
      · change started.operator.buffers.length = _
        rw [fresh.buffers,List.length_replicate]
      · intro before inside tupleSet found
        rw [empty before inside] at found
        cases found
      · intro p consumer before _ was
        rw [empty before (List.mem_of_getElem? was)]
        rfl
    · change started.ctx.complete = true ↔ _
      rw [fresh.incomplete]
      exact ⟨fun wrong => absurd wrong Bool.false_ne_true,fun wrong => absurd wrong unfinished⟩
  | append_singleton messages message ih =>
    obtain ⟨before,known,missing⟩ := produced.init
    obtain ⟨sends,shuffled⟩ := ih before fun sender tupleSet inside =>
      acceptable sender tupleSet (List.mem_append_left _ inside)
    rw [Process.run_snoc]
    cases message with
    | content sender tupleSet =>
      exact shuffled.content fresh.distinct known missing
        (acceptable sender tupleSet (List.mem_append_right _ List.mem_cons_self))
    | complete sender => exact shuffled.complete_one fresh.distinct known missing

/-- A shuffle between its producers and consumers, after START. -/
def shuffleBetween (columnNames producers consumers : List String) : Process (ShufflePOp ν) Unit (TupleSet ν) where
  operator := ⟨columnNames,consumers,List.replicate consumers.length none⟩
  ctx := ⟨0,"shuffle",consumers.foldl (fun directory name => (directory.insert ⟨name,(),.consumer,false⟩).1)
    (producers.foldl (fun directory name => (directory.insert ⟨name,(),.producer,false⟩).1) .make),false,[]⟩
  fault := none

theorem shuffleBetween_started (columnNames : List String) {producers consumers : List String}
    (produces : producers ≠ [])
    (unique : producers.Nodup) (distinct : consumers.Nodup) (disjoint : ∀ name ∈ consumers, name ∉ producers) :
    Started (· ∈ producers) (shuffleBetween columnNames producers consumers : Process (ShufflePOp ν) _ _) where
  alive := rfl
  buffers := rfl
  incomplete := rfl
  silent := rfl
  distinct := distinct
  connected := by
    intro consumer inside
    refine entryOf_isSome.mpr ((mem_names_connect .consumer consumers _ consumer).mpr (.inl ?_))
    rw [List.map_id']
    exact inside
  produces := List.exists_mem_of_ne_nil _ produces
  awaiting := by
    have awaited := @awaiting_producers Unit String id () producers .make _ LocalPOpDirectory.awaiting_make
      (by rwa [List.map_id]) fun name _ => List.not_mem_nil
    simp only [List.map_id,or_false] at awaited
    refine awaiting_consumers consumers awaited (by rwa [List.map_id']) ?_
    intro name inside known
    rw [List.map_id'] at inside
    rcases (mem_names_connect .producer producers .make name).mp known with member | nothing
    · exact disjoint name inside (by rwa [List.map_id'] at member)
    · exact List.not_mem_nil nothing

structure ShuffleRun (α ν : Type) where
  started : Process (ShufflePOp ν) α (TupleSet ν)
  isProducer : String → Prop
  messages : List (Waiting (TupleSet ν))

def ShuffleRun.sent (runtime : Runtime ν) (run : ShuffleRun α ν) (consumer : String) : List (Record ν) :=
  sentTo consumer (run.started.run (ShufflePOp.onReceive runtime) run.messages).ctx.acts

/-- The shuffle is one in front of the consumers, and it has got all. -/
structure ShuffleRun.Distributes (under : DataType → ν) (columnNames consumers : List String) (fields : List Field)
    (run : ShuffleRun α ν) : Prop where
  fresh : Started run.isProducer run.started
  hashes : run.started.operator.shuffleColumnNames = columnNames
  feeds : run.started.operator.consumerVec = consumers
  produced : FromProducers run.isProducer run.messages
  acceptable : ∀ sender tupleSet, .content sender tupleSet ∈ run.messages → Acceptable under columnNames fields tupleSet
  finished : Finished run.isProducer run.messages

section
variable {runtime : Runtime ν} {under : DataType → ν} {columnNames consumers : List String} {fields : List Field}

theorem ShuffleRun.Distributes.sent_eq {run : ShuffleRun α ν}
    (distributes : run.Distributes under columnNames consumers fields)
    (runtime : Runtime ν) {k : Nat} {consumer : String} (here : consumers[k]? = some consumer) :
    run.sent runtime consumer =
      (received run.messages).filter fun record => route runtime under columnNames consumers.length record == k := by
  have acceptable := distributes.acceptable
  rw [← distributes.hashes] at acceptable
  obtain ⟨sends,shuffled⟩ := shuffled_run runtime distributes.fresh distributes.produced acceptable
  obtain ⟨acts,flows⟩ := shuffled.finished distributes.finished
  rw [distributes.hashes,distributes.feeds] at flows
  rw [ShuffleRun.sent,acts,sentTo_append]
  exact (List.append_nil _).trans (flows k consumer here)

def allReceived (runs : List (ShuffleRun α ν)) : List (Record ν) := runs.flatMap fun run => received run.messages

def allSent (runtime : Runtime ν) (runs : List (ShuffleRun α ν)) (consumer : String) : List (Record ν) :=
  runs.flatMap fun run => run.sent runtime consumer

theorem allSent_eq {runs : List (ShuffleRun α ν)}
    (distribute : ∀ run ∈ runs, run.Distributes under columnNames consumers fields)
    (runtime : Runtime ν) {k : Nat} {consumer : String} (here : consumers[k]? = some consumer) :
    allSent runtime runs consumer =
      (allReceived runs).filter fun record => route runtime under columnNames consumers.length record == k := by
  rw [allSent,allReceived,List.filter_flatMap]
  apply List.flatMap_congr
  exact fun run inside => (distribute run inside).sent_eq runtime here

theorem route_lt (runtime : Runtime ν) (under : DataType → ν) (columnNames : List String) (feeds : consumers ≠ [])
    (record : Record ν) : route runtime under columnNames consumers.length record < consumers.length :=
  Nat.mod_lt _ (List.length_pos_iff.mpr feeds)

end
end Hermes.Shuffle
