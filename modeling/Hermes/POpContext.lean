import Hermes.POpActor

/-! `POpContext`, through which an operator reaches its consumers and the root, and the
life of an operator behind its actor after START: every message goes to `onReceive`, a
COMPLETE only if the directory takes it. -/
namespace Hermes.Operators
variable {α β γ σ : Type}

namespace LocalPOpDirectory

/-- A directory whose awaited producers are known by name. -/
structure Awaiting (directory : LocalPOpDirectory α) (open' : String → Prop) : Prop where
  balanced : directory.Balanced
  unique : (directory.entries.map (·.name)).Nodup
  exactly : ∀ name, open' name ↔ ∃ entry ∈ directory.entries, entry.name = name ∧ awaited .producer entry = true

variable {directory : LocalPOpDirectory α} {open' : String → Prop}

theorem Awaiting.allComplete_iff (awaiting : directory.Awaiting open') :
    directory.allComplete .producer = true ↔ ∀ name, ¬open' name := by
  rw [awaiting.balanced.exact .producer]
  constructor
  · intro complete name isOpen
    obtain ⟨entry,inside,_,isAwaited⟩ := (awaiting.exactly name).mp isOpen
    rw [awaited_eq_false.mpr (complete entry inside)] at isAwaited
    cases isAwaited
  · intro closed entry inside
    apply awaited_eq_false.mp
    rw [← Bool.not_eq_true]
    intro isAwaited
    exact closed entry.name ((awaiting.exactly entry.name).mpr ⟨entry,inside,rfl,isAwaited⟩)

theorem find_unique {entries : List (LocalPOpDirectoryEntry α)} (unique : (entries.map (·.name)).Nodup)
    {entry : LocalPOpDirectoryEntry α} (inside : entry ∈ entries) : find (·.name) entries entry.name = some entry := by
  induction entries with
  | nil => cases inside
  | cons head entries ih =>
    rw [List.map_cons,List.nodup_cons] at unique
    rw [find,List.find?_cons]
    rcases List.mem_cons.mp inside with same | later
    · simp [same]
    · have differ : head.name ≠ entry.name := fun same =>
        unique.1 (List.mem_map.mpr ⟨entry,later,same.symm⟩)
      rw [show (head.name == entry.name) = false by simpa using differ]
      exact ih unique.2 later

theorem Awaiting.setComplete (awaiting : directory.Awaiting open') (name : String) (isOpen : open' name) :
    (directory.setComplete name).2 = .ok () ∧
      (directory.setComplete name).1.Awaiting fun other => open' other ∧ other ≠ name := by
  obtain ⟨entry,inside,named,isAwaited⟩ := (awaiting.exactly name).mp isOpen
  have found : find (·.name) directory.entries name = some entry := by
    rw [← named]
    exact find_unique awaiting.unique inside
  have producer : entry.relationshipType = .producer ∧ entry.complete = false := by simpa [awaited] using isAwaited
  have marked : directory.setComplete name = ({directory with
      entries := update (·.name) (fun entry => {entry with complete := true}) name directory.entries
      numProducersComplete := directory.numProducersComplete+1},.ok ()) := by
    simp [LocalPOpDirectory.setComplete,found,producer]
  have balanced := setComplete_balanced awaiting.balanced name
  rw [marked] at balanced ⊢
  obtain ⟨others,before,after⟩ := update_perm found fun entry :
    LocalPOpDirectoryEntry α => {entry with complete := true}
  have apart : ((entry::others).map (·.name)).Nodup := ((before.map (·.name)).nodup_iff).mp awaiting.unique
  rw [List.map_cons,named,List.nodup_cons] at apart
  refine ⟨rfl,balanced,?_,?_⟩
  · refine ((after.map (·.name)).nodup_iff).mpr ?_
    rw [List.map_cons,named]
    exact List.nodup_cons.mpr apart
  · intro other
    simp only [awaiting.exactly,after.mem_iff,before.mem_iff,List.mem_cons]
    constructor
    · rintro ⟨⟨there,rfl | later,rfl,still⟩,differ⟩
      · exact absurd named differ
      · exact ⟨there,.inr later,rfl,still⟩
    · rintro ⟨there,rfl | later,rfl,still⟩
      · simp [awaited] at still
      · exact ⟨⟨there,.inr later,rfl,still⟩,fun same => apart.1 (List.mem_map.mpr ⟨there,later,same⟩)⟩

theorem awaiting_make : (make : LocalPOpDirectory α).Awaiting fun _ => False where
  balanced := make_balanced
  unique := .nil
  exactly := by simp [make]

theorem Awaiting.insert (awaiting : directory.Awaiting open') (name : String)
    (fresh : find (·.name) directory.entries name = none) (actor : α) :
    (directory.insert ⟨name,actor,.producer,false⟩).1.Awaiting fun other => other = name ∨ open' other := by
  have balanced : (directory.insert ⟨name,actor,.producer,false⟩).1.Balanced :=
    insert_balanced awaiting.balanced fun complete => by cases complete
  have inserted : directory.insert ⟨name,actor,.producer,false⟩ = ({directory with
      entries := ⟨name,actor,.producer,false⟩::directory.entries
      numProducers := directory.numProducers+1},.ok ()) := by
    rw [LocalPOpDirectory.insert,fresh]
  rw [inserted] at balanced ⊢
  have missing : ∀ entry ∈ directory.entries, entry.name ≠ name := by simpa [find] using fresh
  refine ⟨balanced,?_,?_⟩
  · rw [List.map_cons,List.nodup_cons]
    refine ⟨?_,awaiting.unique⟩
    intro inside
    obtain ⟨entry,there,same⟩ := List.mem_map.mp inside
    exact missing entry there same
  · intro other
    simp only [awaiting.exactly,List.mem_cons,or_and_right,exists_or,exists_eq_left]
    rw [@eq_comm _ other name]
    simp [awaited]

theorem Awaiting.insert_consumer (awaiting : directory.Awaiting open') (name : String)
    (fresh : find (·.name) directory.entries name = none) (actor : α) :
    (directory.insert ⟨name,actor,.consumer,false⟩).1.Awaiting open' := by
  have balanced : (directory.insert ⟨name,actor,.consumer,false⟩).1.Balanced :=
    insert_balanced awaiting.balanced fun complete => by cases complete
  have inserted : directory.insert ⟨name,actor,.consumer,false⟩ = ({directory with
      entries := ⟨name,actor,.consumer,false⟩::directory.entries
      numConsumers := directory.numConsumers+1},.ok ()) := by
    rw [LocalPOpDirectory.insert,fresh]
  rw [inserted] at balanced ⊢
  have missing : ∀ entry ∈ directory.entries, entry.name ≠ name := by simpa [find] using fresh
  refine ⟨balanced,?_,?_⟩
  · rw [List.map_cons,List.nodup_cons]
    refine ⟨?_,awaiting.unique⟩
    intro inside
    obtain ⟨entry,there,same⟩ := List.mem_map.mp inside
    exact missing entry there same
  · intro other
    simp only [awaiting.exactly,List.mem_cons,or_and_right,exists_or,exists_eq_left]
    simp [awaited]

theorem connected_setComplete {consumer : String} (connected : (directory.entryOf consumer).isSome) (name : String) :
    ((directory.setComplete name).1.entryOf consumer).isSome := by
  rw [directory.entryOf_setComplete]
  split
  next =>
    rw [Option.isSome_map]
    exact connected
  next => exact connected

end LocalPOpDirectory

section

theorem find_eq_none {entries : List (LocalPOpDirectoryEntry α)} {name : String} :
    find (·.name) entries name = none ↔ name ∉ entries.map (·.name) := by
  simp [find]

theorem mem_names_insert {directory : LocalPOpDirectory α} {entry : LocalPOpDirectoryEntry α} {name : String} :
    name ∈ (directory.insert entry).1.entries.map (·.name) ↔
      name = entry.name ∨ name ∈ directory.entries.map (·.name) := by
  unfold LocalPOpDirectory.insert
  split
  next there found =>
    have named : entry.name ∈ directory.entries.map (·.name) := by
      by_contra missing
      rw [find_eq_none.mpr missing] at found
      cases found
    refine ⟨.inr,?_⟩
    rintro (rfl | inside)
    · exact named
    · exact inside
  next =>
    dsimp only
    split <;> exact List.mem_cons

theorem entryOf_isSome {directory : LocalPOpDirectory α} {name : String} :
    (directory.entryOf name).isSome = true ↔ name ∈ directory.entries.map (·.name) := by
  rw [LocalPOpDirectory.entryOf,Option.isSome_iff_ne_none,Ne,find_eq_none,not_not]

variable {ι : Type} {nameOf : ι → String} {actor : α}

theorem mem_names_connect (type : POpRelationshipType) (ops : List ι) (directory : LocalPOpDirectory α)
    (name : String) :
    name ∈ (ops.foldl (fun directory op => (directory.insert ⟨nameOf op,actor,type,false⟩).1) directory).entries.map (·.name) ↔
      name ∈ ops.map nameOf ∨ name ∈ directory.entries.map (·.name) := by
  induction ops generalizing directory with
  | nil => simp
  | cons op ops ih =>
    rw [List.foldl_cons,ih,mem_names_insert,List.map_cons,List.mem_cons]
    tauto

theorem awaiting_producers (ops : List ι) {directory : LocalPOpDirectory α} {open' : String → Prop}
    (awaiting : directory.Awaiting open') (unique : (ops.map nameOf).Nodup)
    (fresh : ∀ name ∈ ops.map nameOf, name ∉ directory.entries.map (·.name)) :
    (ops.foldl (fun directory op => (directory.insert ⟨nameOf op,actor,.producer,false⟩).1) directory).Awaiting
      fun name => name ∈ ops.map nameOf ∨ open' name := by
  induction ops generalizing directory open' with
  | nil => simpa using awaiting
  | cons op ops ih =>
    obtain ⟨new,unique⟩ := List.nodup_cons.mp unique
    have inserted := awaiting.insert (nameOf op) (find_eq_none.mpr (fresh _ List.mem_cons_self)) actor
    have later : ∀ name ∈ ops.map nameOf,
        name ∉ (directory.insert ⟨nameOf op,actor,.producer,false⟩).1.entries.map (·.name) := by
      intro name inside
      rw [mem_names_insert,not_or]
      refine ⟨?_,fresh name (List.mem_cons_of_mem _ inside)⟩
      rintro rfl
      exact new inside
    have all := ih inserted unique later
    simp only [List.map_cons,List.mem_cons,or_assoc,or_left_comm] at all ⊢
    exact all

theorem awaiting_consumers (ops : List ι) {directory : LocalPOpDirectory α} {open' : String → Prop}
    (awaiting : directory.Awaiting open') (unique : (ops.map nameOf).Nodup)
    (fresh : ∀ name ∈ ops.map nameOf, name ∉ directory.entries.map (·.name)) :
    (ops.foldl (fun directory op => (directory.insert ⟨nameOf op,actor,.consumer,false⟩).1) directory).Awaiting open' := by
  induction ops generalizing directory with
  | nil => exact awaiting
  | cons op ops ih =>
    obtain ⟨new,unique⟩ := List.nodup_cons.mp unique
    apply ih (awaiting.insert_consumer (nameOf op) (find_eq_none.mpr (fresh _ List.mem_cons_self)) actor) unique
    intro name inside
    rw [mem_names_insert,not_or]
    refine ⟨?_,fresh name (List.mem_cons_of_mem _ inside)⟩
    rintro rfl
    exact new inside

end

/-- What an operator does through its context, in order. An error makes the context let
its actor handles go, so that what comes after it reaches nobody. -/
inductive Act (γ : Type) where
  | tell (message : γ)
  | send (recipientId : String) (message : γ)
  | notifyComplete
  | notifyError (content : String)
deriving DecidableEq

structure POpContext (α γ : Type) where
  id : Nat
  name : String
  operatorMap : LocalPOpDirectory α
  complete : Bool
  acts : List (Act γ)
deriving DecidableEq

namespace POpContext

def record (ctx : POpContext α γ) (acts : List (Act γ)) : POpContext α γ := {ctx with acts := ctx.acts ++ acts}

def notifyError (ctx : POpContext α γ) (content : String) : POpContext α γ := ctx.record [.notifyError content]

@[simp]
theorem record_nil (ctx : POpContext α γ) : ctx.record [] = ctx := by rw [record,List.append_nil]

@[simp]
theorem record_record (ctx : POpContext α γ) (acts more : List (Act γ)) :
    (ctx.record acts).record more = ctx.record (acts ++ more) := by
  rw [record,record,record,List.append_assoc]

@[simp]
theorem record_complete (ctx : POpContext α γ) (acts : List (Act γ)) : (ctx.record acts).complete = ctx.complete := rfl

@[simp]
theorem record_operatorMap (ctx : POpContext α γ) (acts : List (Act γ)) :
    (ctx.record acts).operatorMap = ctx.operatorMap := rfl

@[simp]
theorem record_acts (ctx : POpContext α γ) (acts : List (Act γ)) : (ctx.record acts).acts = ctx.acts ++ acts := rfl

/-- A complete operator still tells, after an error. -/
def tell (ctx : POpContext α γ) (message : γ) : POpContext α γ :=
  let warned := if ctx.complete then ctx.notifyError ("Cannot tell message to consumers, operator " ++
    toString ctx.id ++
    " ('" ++ ctx.name ++ "') is complete") else ctx
  warned.record [.tell message]

/-- A message to one other operator, complete or not. -/
def send (ctx : POpContext α γ) (message : γ) (recipientId : String) : POpContext α γ :=
  match ctx.operatorMap.entryOf recipientId with
  | some _ => ctx.record [.send recipientId message]
  | none => ctx.notifyError ("Actor with id '" ++ recipientId ++ "' not found")

/-- The context's part; the operator's `clear` comes with it. -/
def notifyComplete (ctx : POpContext α γ) : POpContext α γ :=
  let warned := if ctx.complete then ctx.notifyError ("Cannot complete already completed operator " ++
    toString ctx.id ++ " ('" ++ ctx.name ++ "')") else ctx
  {warned.record [.notifyComplete] with complete := true}

theorem tell_incomplete (ctx : POpContext α γ) (incomplete : ctx.complete = false) (message : γ) :
    ctx.tell message = ctx.record [.tell message] := by
  rw [tell,incomplete]
  rfl

theorem notifyComplete_incomplete (ctx : POpContext α γ) (incomplete : ctx.complete = false) :
    ctx.notifyComplete = {ctx.record [.notifyComplete] with complete := true} := by
  rw [notifyComplete,incomplete]
  rfl

end POpContext

/-- How a handler can end other than by returning. -/
inductive Fault where
  | exception
  | nullDereference
deriving DecidableEq, Repr

/-- An operator and its context. After a fault the actor is gone. -/
structure Process (σ α γ : Type) where
  operator : σ
  ctx : POpContext α γ
  fault : Option Fault
deriving DecidableEq

namespace Process

def receive (onReceive : σ → POpContext α γ → Waiting β → Process σ α γ) (process : Process σ α γ)
    (message : Waiting β) : Process σ α γ :=
  if process.fault.isSome then process
  else
    match message with
    | .complete sender =>
      let marked := process.ctx.operatorMap.setComplete sender
      match marked.2 with
      | .error error => {process with ctx := process.ctx.notifyError error}
      | .ok _ => onReceive process.operator {process.ctx with operatorMap := marked.1} message
    | .content _ _ => onReceive process.operator process.ctx message

def andThen (process : Process σ α γ) (next : σ → POpContext α γ → Process σ α γ) : Process σ α γ :=
  if process.fault.isSome then process else next process.operator process.ctx

def run (onReceive : σ → POpContext α γ → Waiting β → Process σ α γ) (started : Process σ α γ)
    (messages : List (Waiting β)) : Process σ α γ :=
  messages.foldl (receive onReceive) started

section
variable {onReceive : σ → POpContext α γ → Waiting β → Process σ α γ} {process : Process σ α γ}

@[simp]
theorem andThen_returned (operator : σ) (ctx : POpContext α γ) (next : σ → POpContext α γ → Process σ α γ) :
    (⟨operator,ctx,none⟩ : Process σ α γ).andThen next = next operator ctx := rfl

theorem run_snoc (started : Process σ α γ) (messages : List (Waiting β)) (message : Waiting β) :
    run onReceive started (messages ++ [message]) = (run onReceive started messages).receive onReceive message := by
  rw [run,List.foldl_append]
  rfl

theorem run_append (started : Process σ α γ) (messages more : List (Waiting β)) :
    run onReceive started (messages ++ more) = run onReceive (run onReceive started messages) more := List.foldl_append

theorem run_faulted (faulted : process.fault.isSome = true) (messages : List (Waiting β)) :
    run onReceive process messages = process := by
  induction messages with
  | nil => rfl
  | cons message messages ih =>
    have still : process.receive onReceive message = process := if_pos faulted
    rw [run,List.foldl_cons,still]
    exact ih

theorem receive_content (alive : process.fault = none) (sender : String) (content : β) :
    process.receive onReceive (.content sender content) =
    onReceive process.operator process.ctx (.content sender content) := by
  rw [receive,alive]
  rfl

theorem receive_complete (alive : process.fault = none) {sender : String}
    (taken : (process.ctx.operatorMap.setComplete sender).2 = .ok ()) :
    process.receive onReceive (.complete sender) = onReceive process.operator
      {process.ctx with operatorMap := (process.ctx.operatorMap.setComplete sender).1} (.complete sender) := by
  rw [receive,alive]
  simp [taken]

end
end Process

section
variable (ctx : POpContext α γ)

theorem acts_record (acts : List (Act γ)) : ctx.acts <+: (ctx.record acts).acts := List.prefix_append _ _

theorem acts_tell (message : γ) : ctx.acts <+: (ctx.tell message).acts := by
  unfold POpContext.tell
  split
  next => exact (acts_record ctx _).trans (acts_record _ _)
  next => exact acts_record ctx _

theorem acts_send (message : γ) (recipientId : String) : ctx.acts <+: (ctx.send message recipientId).acts := by
  unfold POpContext.send
  split <;> exact acts_record ctx _

theorem acts_notifyComplete : ctx.acts <+: ctx.notifyComplete.acts := by
  unfold POpContext.notifyComplete
  split
  next => exact (acts_record ctx _).trans (acts_record _ _)
  next => exact acts_record ctx _

theorem acts_receive {onReceive : σ → POpContext α γ → Waiting β → Process σ α γ}
    (kept : ∀ operator ctx message, ctx.acts <+: (onReceive operator ctx message).ctx.acts) (process : Process σ α γ)
    (message : Waiting β) : process.ctx.acts <+: (process.receive onReceive message).ctx.acts := by
  unfold Process.receive
  split
  next => exact List.prefix_rfl
  next =>
    split
    next sender =>
      dsimp only
      split
      next => exact acts_record _ _
      next => exact kept process.operator {process.ctx with
        operatorMap := (process.ctx.operatorMap.setComplete sender).1} _
    next => exact kept process.operator process.ctx _

end

/-- What producers may send: nothing follows their own COMPLETE. -/
structure FromProducers (isProducer : String → Prop) (messages : List (Waiting β)) : Prop where
  senders : ∀ message ∈ messages, isProducer message.sender
  quiet : messages.Pairwise fun earlier later => ∀ sender, earlier = .complete sender → later.sender ≠ sender

def Finished (isProducer : String → Prop) (messages : List (Waiting β)) : Prop :=
  ∀ name, isProducer name → .complete name ∈ messages

section
variable {isProducer : String → Prop} {messages : List (Waiting β)}

theorem FromProducers.init {message : Waiting β} (produced : FromProducers isProducer (messages ++ [message])) :
    FromProducers isProducer messages ∧ isProducer message.sender ∧ .complete message.sender ∉ messages := by
  obtain ⟨earlier,_,apart⟩ := List.pairwise_append.mp produced.quiet
  refine ⟨⟨fun other inside => produced.senders other (List.mem_append_left _ inside),earlier⟩,
    produced.senders message (List.mem_append_right _ List.mem_cons_self),?_⟩
  intro before
  exact apart _ before message List.mem_cons_self message.sender rfl rfl

theorem Finished.not_of_missing {sender : String} (known : isProducer sender) (missing : .complete sender ∉ messages) :
    ¬Finished isProducer messages := fun finished => missing (finished sender known)

theorem mem_append_content (name sender : String) (content : β) :
    .complete name ∈ messages ++ [.content sender content] ↔ .complete name ∈ messages := by
  simp

theorem finished_append_content (sender : String) (content : β) :
    Finished isProducer (messages ++ [.content sender content]) ↔ Finished isProducer messages := by
  simp only [Finished,mem_append_content]

abbrev Expecting (isProducer : String → Prop) (messages : List (Waiting β))
    (operatorMap : LocalPOpDirectory α) : Prop :=
  operatorMap.Awaiting fun name => isProducer name ∧ .complete name ∉ messages

theorem expecting_nil {operatorMap : LocalPOpDirectory α} (awaiting : operatorMap.Awaiting isProducer) :
    Expecting isProducer ([] : List (Waiting β)) operatorMap := by
  unfold Expecting
  simp only [List.not_mem_nil,not_false_iff,and_true]
  exact awaiting

theorem Expecting.content {operatorMap : LocalPOpDirectory α} (expecting : Expecting isProducer messages operatorMap)
    (sender : String) (content : β) : Expecting isProducer (messages ++ [.content sender content]) operatorMap := by
  unfold Expecting
  simp only [mem_append_content]
  exact expecting

theorem Expecting.complete {operatorMap : LocalPOpDirectory α} (expecting : Expecting isProducer messages operatorMap)
    {sender : String} (known : isProducer sender) (missing : .complete sender ∉ messages) :
    (operatorMap.setComplete sender).2 = .ok () ∧
      Expecting isProducer (messages ++ [.complete sender]) (operatorMap.setComplete sender).1 ∧
      ((operatorMap.setComplete sender).1.allComplete .producer = true ↔
        Finished isProducer (messages ++ [.complete sender])) := by
  obtain ⟨taken,awaiting⟩ := expecting.setComplete sender ⟨known,missing⟩
  have open' : ∀ name, (isProducer name ∧ .complete name ∉ messages) ∧ name ≠ sender ↔
      isProducer name ∧ .complete name ∉ messages ++ [.complete sender] := by
    intro name
    simp only [List.mem_append,List.mem_singleton,Waiting.complete.injEq,not_or,and_assoc]
  simp only [open'] at awaiting
  refine ⟨taken,awaiting,?_⟩
  rw [awaiting.allComplete_iff]
  simp only [Finished,not_and_not_right]

theorem Expecting.waits {operatorMap : LocalPOpDirectory α} (expecting : Expecting isProducer messages operatorMap)
    {sender : String} (known : isProducer sender) (missing : .complete sender ∉ messages)
    (more : ¬Finished isProducer (messages ++ [.complete sender])) :
    (operatorMap.setComplete sender).2 = .ok () ∧
      Expecting isProducer (messages ++ [.complete sender]) (operatorMap.setComplete sender).1 ∧
      (operatorMap.setComplete sender).1.allComplete .producer = false := by
  obtain ⟨taken,after,all⟩ := expecting.complete known missing
  exact ⟨taken,after,Bool.eq_false_iff.mpr fun done => more (all.mp done)⟩

end
end Hermes.Operators
