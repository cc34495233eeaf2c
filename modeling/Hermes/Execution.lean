import Hermes.Library.Dataflow
import Hermes.POpContext
import Hermes.TransformedPlan
import Mathlib.Data.Fintype.Sum
import Mathlib.Tactic.DeriveFintype

/-! `Execution`: the actors of a plan's operators, each behind its own mailbox, and the root actor, which connects
and starts them and then waits in `join` until all of them have completed. What an operator does about a message
is a parameter, the class of the operator. -/
namespace Hermes.Executor
open Hermes.Operators Hermes.Library.Network
open Hermes.Serialization (Values PhysicalOp)
open Hermes.Transform (boot)
variable {V : Values} {γ : Type}

/-- A class of operators: what its objects are and its part of `onReceive`. Nothing that was sent is taken back. -/
structure Behaviour (γ : Type) where
  State : Type
  create : State
  onStart : State → POpContext Unit γ → Process State Unit γ
  onReceive : State → POpContext Unit γ → Waiting γ → Process State Unit γ
  unrecognized : String → String
  onStart_acts : ∀ state ctx, ctx.acts <+: (onStart state ctx).ctx.acts
  onReceive_acts : ∀ state ctx message, ctx.acts <+: (onReceive state ctx message).ctx.acts

inductive Mail (γ : Type) where
  | connect (connections : List (POpConnection Unit))
  | start
  | waiting (message : Waiting γ)
  | error (sender content : String)
deriving DecidableEq

/-- `POpActor` with the operator in it. An operator that has faulted takes its actor along. -/
structure Actor (behaviour : Behaviour γ) where
  running : Bool
  buffer : List (Waiting γ)
  process : Process behaviour.State Unit γ

namespace Actor
variable {behaviour : Behaviour γ}

def make (behaviour : Behaviour γ) (id : Nat) (name : String) : Actor behaviour :=
  ⟨false,[],behaviour.create,⟨id,name,.make,false,[]⟩,none⟩

def connect (ctx : POpContext Unit γ) (element : POpConnection Unit) : POpContext Unit γ :=
  let inserted := ctx.operatorMap.insert ⟨element.name,element.actorHandle,element.connectionType,false⟩
  match inserted.2 with
  | .ok _ => {ctx with operatorMap := inserted.1}
  | .error message => {ctx with operatorMap := inserted.1}.notifyError message

def handle (actor : Actor behaviour) (message : Waiting γ) : Actor behaviour :=
  if actor.running then {actor with process := actor.process.receive behaviour.onReceive message}
  else {actor with buffer := actor.buffer ++ [message]}

/-- The loop of the START branch. -/
def replay : Nat → Actor behaviour → Actor behaviour
  | 0,actor => actor
  | turns+1,actor =>
    match actor.buffer with
    | [] => actor
    | item::_ =>
      let handled := actor.handle item
      replay turns {handled with buffer := handled.buffer.tail}

def receive (actor : Actor behaviour) (mail : Mail γ) : Actor behaviour :=
  if actor.process.fault.isSome then actor
  else
    match mail with
    | .connect connections => {actor with process := {actor.process with ctx := connections.foldl connect actor.process.ctx}}
    | .start =>
      let started := {actor with running := true, process := actor.process.andThen behaviour.onStart}
      replay started.buffer.length started
    | .waiting message => actor.handle message
    | .error _ _ =>
      {actor with process := {actor.process with
        ctx := actor.process.ctx.notifyError (behaviour.unrecognized "ErrorMessage")}}

end Actor

/-- The root actor in `join`, and how it has left the loop. -/
structure Root where
  opDirectory : POpDirectory Unit
  returned : Option (Except String Unit)

/-- A query: the operators, their classes, and how the classes of the messages are called. -/
structure Execution (V : Values) (γ : Type) where
  physicalPlan : List (PhysicalOp V)
  behaviour : PhysicalOp V → Behaviour γ
  getTypeString : γ → String

inductive Party (n : Nat) where
  | start
  | operator (i : Fin n)
  | join
deriving DecidableEq, Fintype

/-- What an operator's acts send to an actor with a name. After an error it has no handles any more. -/
def delivered (own : String) (isConsumer : Bool) (name : String) : Act γ → List (Mail γ)
  | .tell content => if isConsumer then [.waiting (.content own content)] else []
  | .send recipientId content => if recipientId = name then [.waiting (.content own content)] else []
  | .notifyComplete => if isConsumer then [.waiting (.complete own)] else []
  | .notifyError _ => []

def outbox (own : String) (isConsumer : Bool) (name : String) : List (Act γ) → List (Mail γ)
  | [] => []
  | .notifyError _::_ => []
  | act::acts => delivered own isConsumer name act ++ outbox own isConsumer name acts

/-- What the root hears of an operator: that it completes, and its first error. -/
def reports (own : String) : List (Act γ) → List (Mail γ)
  | [] => []
  | .notifyError content::_ => [.error own content]
  | .notifyComplete::acts => .waiting (.complete own)::reports own acts
  | _::acts => reports own acts

theorem outbox_mono {acts more : List (Act γ)} (grows : acts <+: more) (own : String) (isConsumer : Bool)
    (name : String) :
    outbox own isConsumer name acts <+: outbox own isConsumer name more := by
  obtain ⟨rest,rfl⟩ := grows
  induction acts with
  | nil => exact List.nil_prefix
  | cons act acts ih =>
    cases act with
    | notifyError content => exact List.prefix_rfl
    | tell content => exact List.prefix_append_right_inj _ |>.mpr ih
    | send recipientId content => exact List.prefix_append_right_inj _ |>.mpr ih
    | notifyComplete => exact List.prefix_append_right_inj _ |>.mpr ih

theorem reports_mono {acts more : List (Act γ)} (grows : acts <+: more) (own : String) :
    reports own acts <+: reports own more := by
  obtain ⟨rest,rfl⟩ := grows
  induction acts with
  | nil => exact List.nil_prefix
  | cons act acts ih =>
    cases act with
    | notifyError content => exact List.prefix_rfl
    | tell content => exact ih
    | send recipientId content => exact ih
    | notifyComplete => exact (List.prefix_cons_inj _).mpr ih

section Acts
variable {behaviour : Behaviour γ}

theorem connect_acts (ctx : POpContext Unit γ) (connections : List (POpConnection Unit)) :
    ctx.acts <+: (connections.foldl Actor.connect ctx).acts := by
  induction connections generalizing ctx with
  | nil => exact List.prefix_rfl
  | cons element connections ih =>
    refine List.IsPrefix.trans ?_ (ih (Actor.connect ctx element))
    unfold Actor.connect
    dsimp only
    split
    next => exact List.prefix_rfl
    next => exact acts_record _ _

theorem handle_acts (actor : Actor behaviour) (message : Waiting γ) :
    actor.process.ctx.acts <+: (actor.handle message).process.ctx.acts := by
  unfold Actor.handle
  split
  next => exact acts_receive behaviour.onReceive_acts _ _
  next => exact List.prefix_rfl

theorem replay_acts (turns : Nat) (actor : Actor behaviour) :
    actor.process.ctx.acts <+: (actor.replay turns).process.ctx.acts := by
  induction turns generalizing actor with
  | zero => exact List.prefix_rfl
  | succ turns ih =>
    rw [Actor.replay]
    split
    next => exact List.prefix_rfl
    next item _ _ => exact (handle_acts actor item).trans (ih {actor.handle item with buffer := (actor.handle item).buffer.tail})

theorem receive_acts (actor : Actor behaviour) (mail : Mail γ) :
    actor.process.ctx.acts <+: (actor.receive mail).process.ctx.acts := by
  unfold Actor.receive
  split
  next => exact List.prefix_rfl
  next =>
    split
    next connections => exact connect_acts _ _
    next =>
      refine List.IsPrefix.trans ?_ (replay_acts _ _)
      unfold Process.andThen
      split
      next => exact List.prefix_rfl
      next => exact behaviour.onStart_acts _ _
    next message => exact handle_acts actor message
    next => exact acts_record _ _

end Acts

namespace Execution
variable (execution : Execution V γ)

def op (i : Fin execution.physicalPlan.length) : PhysicalOp V := execution.physicalPlan[i]

/-- What `start` tells an actor about the others. Their handles are as good as their names. -/
def connections (pOp : PhysicalOp V) : List (POpConnection Unit) :=
  pOp.producers.map (fun producer => ⟨producer,(),.producer⟩) ++
    pOp.consumers.map fun consumer => ⟨consumer,(),.consumer⟩

/-- A message to the root while it is in the loop of `join`. -/
def joins (root : Root) (mail : Mail γ) : Root :=
  if root.returned.isSome then root
  else
    match mail with
    | .waiting (.complete sender) =>
      let marked := root.opDirectory.setComplete sender
      match marked.2 with
      | .error message => ⟨marked.1,some (.error message)⟩
      | .ok _ => ⟨marked.1,if marked.1.allComplete then some (.ok ()) else none⟩
    | .error sender content => {root with returned := some (.error ("ERROR: " ++ content ++ ", from " ++ sender))}
    | .waiting (.content sender content) => {root with returned := some (.error
        ("Invalid message type sent to the root actor: " ++ execution.getTypeString content ++ ", from " ++ sender))}
    | .connect _ => {root with returned := some (.error
        "Invalid message type sent to the root actor: ConnectMessage, from root")}
    | .start => {root with returned := some (.error "Invalid message type sent to the root actor: StartMessage, from root")}

/-- The directory that `boot` fills and `start` marks incomplete. -/
def opDirectory : POpDirectory Unit :=
  match boot execution.physicalPlan with
  | .ok directory => directory.setIncomplete
  | .error _ => .make

/-- What each party is. -/
def State : Party execution.physicalPlan.length → Type
  | .start => Unit
  | .operator i => Actor (execution.behaviour (execution.op i))
  | .join => Root

def begin : ∀ party, execution.State party
  | .start => ()
  | .operator i => .make _ i (execution.op i).name
  | .join => ⟨execution.opDirectory,none⟩

def receive : ∀ party, execution.State party → Party execution.physicalPlan.length → Mail γ → execution.State party
  | .start,_,_,_ => ()
  | .operator _,actor,_,mail => Actor.receive actor mail
  | .join,root,_,mail => execution.joins root mail

def sent : ∀ party, execution.State party → Party execution.physicalPlan.length → List (Mail γ)
  | .start,_,.operator i => [.connect (connections (execution.op i)),.start]
  | .start,_,_ => []
  | .operator i,actor,.operator j => outbox (execution.op i).name (decide ((execution.op j).name ∈ (execution.op i).consumers))
      (execution.op j).name actor.process.ctx.acts
  | .operator i,actor,.join => reports (execution.op i).name actor.process.ctx.acts
  | .operator _,_,.start => []
  | .join,_,_ => []

theorem sent_grows (party : Party execution.physicalPlan.length) (state : execution.State party)
    (sender : Party execution.physicalPlan.length) (mail : Mail γ) (recipient : Party execution.physicalPlan.length) :
    execution.sent party state recipient <+: execution.sent party (execution.receive party state sender mail) recipient := by
  cases party with
  | start => exact List.prefix_rfl
  | join => exact List.prefix_rfl
  | operator i =>
    cases recipient with
    | start => exact List.prefix_rfl
    | operator j => exact outbox_mono (receive_acts _ mail) _ _ _
    | join => exact reports_mono (receive_acts _ mail) _

/-- The query's actors and the messages between them. -/
def nodes : Nodes (Party execution.physicalPlan.length) (Mail γ) where
  State := execution.State
  start := execution.begin
  receive := execution.receive
  sent := execution.sent
  grows := execution.sent_grows

end Execution
end Hermes.Executor
