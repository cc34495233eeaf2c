import Hermes.NestedLoopJoinPOp
import Hermes.SplitPOp

/-! A nested-loop join as `transformNestedLoopJoin` wires it, in any order of deliveries.
The left tuple sets go to every instance as they are, so that the instances of one node
share the objects; the right ones are split. -/
namespace Hermes.Join
open Hermes.Tuple Hermes.Operators Hermes.Library.ListJoin

variable {α ν : Type} {left right : Schema}

structure PhysicalOp where
  name : String
  nodeId : Nat

structure PlannedJoin where
  name : String
  nodeId : Nat
  leftProducerNames : List String
  rightProducerNames : List String

structure PlannedSplit where
  name : String
  nodeId : Nat
  upstream : String
  consumerVec : List String

section
variable (prePOpId parallelDegree numNodes : Nat) (leftPOps rightPOps : List PhysicalOp)

def nestedLoopJoinName (i : Nat) : String := "NestedLoopJoin[" ++ toString prePOpId ++ "]-" ++ toString i

def splitName (upRightConnPOp : PhysicalOp) : String := "Split[" ++ toString prePOpId ++ "]-" ++ upRightConnPOp.name

def plannedJoin (i : Nat) : PlannedJoin where
  name := nestedLoopJoinName prePOpId i
  nodeId := i%numNodes
  leftProducerNames := leftPOps.map PhysicalOp.name
  rightProducerNames :=
    if parallelDegree*numNodes = 1 then rightPOps.map PhysicalOp.name else rightPOps.map (splitName prePOpId)

def plannedSplit (upRightConnPOp : PhysicalOp) : PlannedSplit where
  name := splitName prePOpId upRightConnPOp
  nodeId := upRightConnPOp.nodeId
  upstream := upRightConnPOp.name
  consumerVec := (List.range (parallelDegree*numNodes)).map (nestedLoopJoinName prePOpId)

/-- The instances, and a split operator for every right producer unless there is one instance only. -/
def transformNestedLoopJoin : List PlannedJoin × List PlannedSplit :=
  ((List.range (parallelDegree*numNodes)).map
      (plannedJoin prePOpId parallelDegree numNodes leftPOps rightPOps),
    if parallelDegree*numNodes = 1 then [] else
      rightPOps.map (plannedSplit prePOpId parallelDegree numNodes))

theorem nestedLoopJoinName_injective : Function.Injective (nestedLoopJoinName prePOpId) := by
  intro i j same
  have digits := (String.append_right_inj ("NestedLoopJoin[" ++ toString prePOpId ++ "]-")).mp same
  have values := congrArg (fun text => Nat.ofDigitChars 10 text.toList 0) digits
  simpa using values

end

/-- A message for an instance; a left tuple set is named by its place among all of them. -/
structure Delivery (n m : Nat) (ν : Type) (right : Schema) where
  recipient : Fin n
  message : Operators.Waiting (Fin m ⊕ TupleSet (Record ν right))

/-- The instances, the objects of the left tuple sets on each node, and which of them an
instance has made its own buffer. -/
structure JoinSystem (α ν : Type) (left right : Schema) (n m : Nat) where
  instances : Fin n → Process (NestedLoopJoinPOp ν left right) α (TupleSet (OutputRow ν))
  objects : Nat → Fin m → TupleSet (Record ν left)
  kept : Fin n → Option (Fin m)

/-- What an operator tells, row by row. -/
def told {ρ : Type} (acts : List (Act (TupleSet ρ))) : List ρ :=
  acts.flatMap fun act =>
    match act with
    | .tell tupleSet => tupleSet.rows
    | _ => []

theorem told_tables {ρ : Type} (tables : List (TupleSet ρ)) :
    told (tables.map .tell ++ [.notifyComplete]) = tables.flatMap TupleSet.rows := by
  rw [told,List.flatMap_append,List.flatMap_map]
  exact List.append_nil _

namespace JoinSystem
variable {n m : Nat}

/-- The kernel of an instance with its buffer as the object now is. -/
def load (nodeOf : Fin n → Nat) (system : JoinSystem α ν left right n m) (i : Fin n) :
    Process (NestedLoopJoinPOp ν left right) α (TupleSet (OutputRow ν)) :=
  let process := system.instances i
  {process with operator := {process.operator with kernel := {process.operator.kernel with
    leftTupleSet := (system.kept i).map (system.objects (nodeOf i))}}}

/-- `bufferInput` keeps the first tuple set as it is and appends the later ones to it in place. -/
def bufferLeft (nodeOf : Fin n → Nat) (system : JoinSystem α ν left right n m) (i : Fin n) (incoming : Fin m) :
    JoinSystem α ν left right n m :=
  match system.kept i with
  | none => {system with kept := Function.update system.kept i (some incoming)}
  | some buffer => {system with objects := Function.update system.objects (nodeOf i) (Function.update
      (system.objects (nodeOf i)) buffer (keepTable (some (system.objects (nodeOf i) buffer))
        (system.objects (nodeOf i) incoming)))}

/-- The handler of an instance on a message, with the rest of the system as it then is. -/
def handle (reader : TableBatchReader) (nodeOf : Fin n → Nat) (system next : JoinSystem α ν left right n m) (i : Fin n)
    (message : Operators.Waiting (JoinMessage ν left right)) : JoinSystem α ν left right n m :=
  let process := (system.load nodeOf i).receive (NestedLoopJoinPOp.onReceive reader) message
  {next with instances := Function.update next.instances i process}

def deliver (reader : TableBatchReader) (nodeOf : Fin n → Nat) (system : JoinSystem α ν left right n m)
    (delivery : Delivery n m ν right) : JoinSystem α ν left right n m :=
  let i := delivery.recipient
  match delivery.message with
  | .complete sender => handle reader nodeOf system system i (.complete sender)
  | .content sender (.inr tupleSet) => handle reader nodeOf system system i (.content sender (.right tupleSet))
  | .content sender (.inl incoming) =>
    handle reader nodeOf system
      (if (system.instances i).fault.isSome then system else system.bufferLeft nodeOf i incoming)
      i (.content sender (.left (system.objects (nodeOf i) incoming)))

def run (reader : TableBatchReader) (nodeOf : Fin n → Nat) (system : JoinSystem α ν left right n m)
    (deliveries : List (Delivery n m ν right)) : JoinSystem α ν left right n m :=
  deliveries.foldl (deliver reader nodeOf) system

def Completed (system : JoinSystem α ν left right n m) : Prop :=
  ∀ i, (system.instances i).fault = none ∧
    ∃ tables : List (TupleSet (OutputRow ν)), (system.instances i).ctx.acts = tables.map .tell ++ [.notifyComplete]

def outputs (system : JoinSystem α ν left right n m) : List (OutputRow ν) :=
  (List.finRange n).flatMap fun i => told (system.instances i).ctx.acts

end JoinSystem

section
variable {n m : Nat}

/-- A delivery as its producer has sent it. -/
def asSent (lefts : Fin m → TupleSet (Record ν left)) :
    Operators.Waiting (Fin m ⊕ TupleSet (Record ν right)) → Operators.Waiting (JoinMessage ν left right)
  | .complete sender => .complete sender
  | .content sender (.inl incoming) => .content sender (.left (lefts incoming))
  | .content sender (.inr tupleSet) => .content sender (.right tupleSet)

def own (lefts : Fin m → TupleSet (Record ν left)) (i : Fin n) (deliveries : List (Delivery n m ν right)) :
    List (Operators.Waiting (JoinMessage ν left right)) :=
  deliveries.filterMap fun delivery => if delivery.recipient = i then some (asSent lefts delivery.message) else none

/-- The left tuple sets an instance has got. -/
def received (i : Fin n) (deliveries : List (Delivery n m ν right)) : List (Fin m) :=
  deliveries.filterMap fun delivery =>
    match delivery.message with
    | .content _ (.inl incoming) => if delivery.recipient = i then some incoming else none
    | _ => none

variable {lefts : Fin m → TupleSet (Record ν left)} {deliveries : List (Delivery n m ν right)} {i r : Fin n}

theorem own_self (message : Operators.Waiting (Fin m ⊕ TupleSet (Record ν right))) :
    own lefts i (deliveries ++ [⟨i,message⟩]) = own lefts i deliveries ++ [asSent lefts message] := by
  simp [own]

theorem own_other (differ : r ≠ i) (message : Operators.Waiting (Fin m ⊕ TupleSet (Record ν right))) :
    own lefts i (deliveries ++ [⟨r,message⟩]) = own lefts i deliveries := by
  simp [own,differ]

theorem received_left (sender : String) (incoming : Fin m) :
    received i (deliveries ++ [⟨r,.content sender (.inl incoming)⟩]) =
    received i deliveries ++ if r = i then [incoming] else [] := by
  by_cases same : r = i <;> simp [received,same]

theorem received_right (sender : String) (tupleSet : TupleSet (Record ν right)) :
    received i (deliveries ++ [⟨r,.content sender (.inr tupleSet)⟩]) = received i deliveries := by
  simp [received]

theorem received_complete (sender : String) :
    received i (deliveries ++ [⟨r,.complete sender⟩]) = received i deliveries := by
  simp [received]

theorem leftTables_own (i : Fin n) (deliveries : List (Delivery n m ν right)) :
    leftTables (contents (own lefts i deliveries)) = (received i deliveries).map lefts := by
  induction deliveries using List.reverseRecOn with
  | nil => rfl
  | append_singleton deliveries delivery ih =>
    obtain ⟨r,message⟩ := delivery
    by_cases same : r = i
    · subst same
      rw [own_self]
      cases message with
      | complete sender =>
        rw [asSent,contents_complete,ih,received_complete]
      | content sender content =>
        cases content with
        | inl incoming =>
          rw [asSent,contents_content,leftTables_left,ih,received_left,if_pos rfl,List.map_append,List.map_singleton]
        | inr tupleSet =>
          rw [asSent,contents_content,leftTables_right,ih,received_right]
    · rw [own_other same,ih]
      cases message with
      | complete sender => rw [received_complete]
      | content sender content =>
        cases content with
        | inl incoming => rw [received_left,if_neg same,List.append_nil]
        | inr tupleSet => rw [received_right]

/-- No instance appends rows to an object that another instance of its node shares. -/
def Unshared (nodeOf : Fin n → Nat) (lefts : Fin m → TupleSet (Record ν left))
    (deliveries : List (Delivery n m ν right)) : Prop :=
  ∀ before r sender incoming after, deliveries = before ++ ⟨r,.content sender (.inl incoming)⟩::after →
    received r before ≠ [] → (lefts incoming).rows ≠ [] → ∀ i, nodeOf i = nodeOf r → i = r

theorem Unshared.init {nodeOf : Fin n → Nat} {delivery : Delivery n m ν right}
    (unshared : Unshared nodeOf lefts (deliveries ++ [delivery])) : Unshared nodeOf lefts deliveries := by
  intro before r sender incoming after whole
  apply unshared before r sender incoming (after ++ [delivery])
  rw [whole,List.append_assoc]
  rfl

end

/-- Every instance has done what it would have done alone, on what was sent to it. -/
structure Isolated {n m : Nat} (reader : TableBatchReader) (nodeOf : Fin n → Nat)
    (lefts : Fin m → TupleSet (Record ν left)) (isProducer : String → Prop)
    (started system : JoinSystem α ν left right n m) (deliveries : List (Delivery n m ν right)) : Prop where
  instances : ∀ i, system.instances i =
    (started.instances i).run (NestedLoopJoinPOp.onReceive reader) (own lefts i deliveries)
  buffers : ∀ i, ¬Finished isProducer (own lefts i deliveries) →
    (system.kept i).map (system.objects (nodeOf i)) = keptTable ((received i deliveries).map lefts)
  objects : ∀ i j, j ∉ received i deliveries → system.objects (nodeOf i) j = lefts j
  kept : ∀ i j, system.kept i = some j → j ∈ received i deliveries

structure JoinStarted {n m : Nat} (lefts : Fin m → TupleSet (Record ν left)) (isProducer : String → Prop)
    (op : NestedLoopJoinPOp ν left right) (system : JoinSystem α ν left right n m) : Prop where
  instances : ∀ i, Started isProducer op (system.instances i)
  objects : ∀ node j, system.objects node j = lefts j
  kept : ∀ i, system.kept i = none

/-- What is asked of a run: an instance gets each left tuple set at most once, nothing after a
COMPLETE of its sender, and chunks that can be joined. -/
structure Orderly {n m : Nat} (lefts : Fin m → TupleSet (Record ν left)) (isProducer : String → Prop)
    (op : NestedLoopJoinPOp ν left right) (deliveries : List (Delivery n m ν right)) : Prop where
  produced : ∀ i, FromProducers isProducer (own lefts i deliveries)
  once : ∀ i, (received i deliveries).Nodup
  joinable : ∀ i, Joinable op.arguments (contents (own lefts i deliveries))

section
variable {n m : Nat} {reader : TableBatchReader} {nodeOf : Fin n → Nat} {lefts : Fin m → TupleSet (Record ν left)}
  {isProducer : String → Prop} {op : NestedLoopJoinPOp ν left right} {started system : JoinSystem α ν left right n m}
  {deliveries : List (Delivery n m ν right)} {r : Fin n}
    {message : Operators.Waiting (Fin m ⊕ TupleSet (Record ν right))}

theorem Orderly.init (orderly : Orderly lefts isProducer op (deliveries ++ [⟨r,message⟩])) :
    Orderly lefts isProducer op deliveries := by
  refine ⟨?_,?_,?_⟩
  · intro i
    have produced := orderly.produced i
    by_cases same : r = i
    · subst same
      rw [own_self] at produced
      exact produced.init.1
    · rw [own_other same] at produced
      exact produced
  · intro i
    have once := orderly.once i
    rw [received,List.filterMap_append] at once
    exact once.of_append_left
  · intro i
    have joinable := orderly.joinable i
    by_cases same : r = i
    · subst same
      rw [own_self] at joinable
      cases message with
      | complete sender =>
        rw [asSent,contents_complete] at joinable
        exact joinable
      | content sender content =>
        cases content with
        | inl incoming =>
          rw [asSent,contents_content] at joinable
          exact joinable.init
        | inr tupleSet =>
          rw [asSent,contents_content] at joinable
          exact joinable.init
    · rw [own_other same] at joinable
      exact joinable

theorem Isolated.load (isolated : Isolated reader nodeOf lefts isProducer started system deliveries)
    (cuts : CutsFilled reader) (fresh : JoinStarted lefts isProducer op started) (projectable : Projectable op)
    (orderly : Orderly lefts isProducer op (deliveries ++ [⟨r,message⟩])) :
    ¬Finished isProducer (own lefts r deliveries) ∧ (system.instances r).fault = none ∧
      system.load nodeOf r = system.instances r := by
  have produced := orderly.produced r
  rw [own_self] at produced
  obtain ⟨before,known,missing⟩ := produced.init
  have unfinished := Finished.not_of_missing known missing
  have running := run_running reader cuts (fresh.instances r) projectable before (orderly.init.joinable r) unfinished
  rw [← isolated.instances r] at running
  obtain ⟨whole,buffer,sent,reflects,isNow,_⟩ := running.telling
  have kept : (system.kept r).map (system.objects (nodeOf r)) = (system.instances r).operator.kernel.leftTupleSet := by
    rw [isolated.buffers r unfinished,← leftTables_own,← reflects.leftTable,isNow]
    rfl
  refine ⟨unfinished,running.alive,?_⟩
  rw [JoinSystem.load]
  dsimp only
  rw [kept]

theorem Isolated.handle (isolated : Isolated reader nodeOf lefts isProducer started system deliveries)
    {next : JoinSystem α ν left right n m} (same : next.instances = system.instances)
    (loaded : system.load nodeOf r = system.instances r) (i : Fin n) :
    (JoinSystem.handle reader nodeOf system next r (asSent lefts message)).instances i =
      (started.instances i).run (NestedLoopJoinPOp.onReceive reader) (own lefts i (deliveries ++ [⟨r,message⟩])) := by
  rw [JoinSystem.handle]
  dsimp only
  rw [same,loaded]
  by_cases own : r = i
  · subst own
    rw [Function.update_self,own_self,Process.run_snoc,isolated.instances r]
  · rw [Function.update_of_ne (Ne.symm own),own_other own,isolated.instances i]

theorem JoinSystem.instances_bufferLeft (incoming : Fin m) :
    (system.bufferLeft nodeOf r incoming).instances = system.instances := by
  unfold JoinSystem.bufferLeft
  split <;> rfl

theorem Isolated.others (isolated : Isolated reader nodeOf lefts isProducer started system deliveries) {sender : String}
    {incoming : Fin m} (sentAs : system.objects (nodeOf r) incoming = lefts incoming)
    (unshared : Unshared nodeOf lefts (deliveries ++ [⟨r,.content sender (.inl incoming)⟩])) {i : Fin n}
    (differ : i ≠ r) :
    (system.bufferLeft nodeOf r incoming).objects (nodeOf i) = system.objects (nodeOf i) ∧
      (system.bufferLeft nodeOf r incoming).kept i = system.kept i := by
  unfold JoinSystem.bufferLeft
  cases kept : system.kept r with
  | none =>
    refine ⟨rfl,?_⟩
    dsimp only
    rw [Function.update_of_ne differ]
  | some buffer =>
    refine ⟨?_,rfl⟩
    dsimp only
    by_cases node : nodeOf i = nodeOf r
    · have some : received r deliveries ≠ [] := List.ne_nil_of_mem (isolated.kept r buffer kept)
      have rowless : (lefts incoming).numRows = 0 := by
        by_contra rows
        have full : (lefts incoming).rows ≠ [] := fun none => rows (by rw [TupleSet.numRows,none]; rfl)
        exact differ (unshared deliveries r sender incoming [] rfl some full i node)
      rw [node,Function.update_self,sentAs,keepTable,rowless,if_neg (Nat.lt_irrefl 0),Function.update_eq_self]
    · rw [Function.update_of_ne node]

theorem Isolated.self (isolated : Isolated reader nodeOf lefts isProducer started system deliveries) {incoming : Fin m}
    (sentAs : system.objects (nodeOf r) incoming = lefts incoming)
    (unfinished : ¬Finished isProducer (own lefts r deliveries)) :
    ((system.bufferLeft nodeOf r incoming).kept r).map ((system.bufferLeft nodeOf r incoming).objects (nodeOf r)) =
        keptTable ((received r deliveries).map lefts ++ [lefts incoming]) ∧
      ∀ j ∉ received r deliveries, (system.bufferLeft nodeOf r incoming).objects (nodeOf r) j = lefts j := by
  have before := isolated.buffers r unfinished
  rw [keptTable_append,← before]
  unfold JoinSystem.bufferLeft
  cases kept : system.kept r with
  | none =>
    refine ⟨?_,fun j => isolated.objects r j⟩
    dsimp only
    rw [Function.update_self,Option.map_some,sentAs]
    rfl
  | some buffer =>
    dsimp only
    refine ⟨?_,?_⟩
    · rw [kept,Option.map_some,Function.update_self,Function.update_self,sentAs]
      rfl
    · intro j missing
      have differ : j ≠ buffer := by
        intro same
        exact missing (same ▸ isolated.kept r buffer kept)
      rw [Function.update_self,Function.update_of_ne differ]
      exact isolated.objects r j missing

theorem Isolated.kept_bufferLeft (isolated : Isolated reader nodeOf lefts isProducer started system deliveries)
    {incoming j : Fin m} (now : (system.bufferLeft nodeOf r incoming).kept r = some j) :
    j ∈ received r deliveries ∨ j = incoming := by
  unfold JoinSystem.bufferLeft at now
  cases kept : system.kept r with
  | none =>
    rw [kept] at now
    dsimp only at now
    rw [Function.update_self] at now
    exact .inr (Option.some.inj now).symm
  | some buffer =>
    rw [kept] at now
    exact .inl (isolated.kept r j now)

theorem Isolated.deliver (isolated : Isolated reader nodeOf lefts isProducer started system deliveries)
    (cuts : CutsFilled reader) (fresh : JoinStarted lefts isProducer op started) (projectable : Projectable op)
    (orderly : Orderly lefts isProducer op (deliveries ++ [⟨r,message⟩]))
    (unshared : Unshared nodeOf lefts (deliveries ++ [⟨r,message⟩])) :
    Isolated reader nodeOf lefts isProducer started (system.deliver reader nodeOf ⟨r,message⟩)
      (deliveries ++ [⟨r,message⟩]) := by
  obtain ⟨unfinished,alive,loaded⟩ := isolated.load cuts fresh projectable orderly
  have earlier : ∀ i, ¬Finished isProducer (own lefts i (deliveries ++ [⟨r,message⟩])) →
      ¬Finished isProducer (own lefts i deliveries) := by
    intro i unfinished finished
    apply unfinished
    intro name known
    have there := finished name known
    rw [own,List.filterMap_append]
    exact List.mem_append_left _ there
  cases message with
  | complete sender =>
    have step : system.deliver reader nodeOf ⟨r,.complete sender⟩ =
      JoinSystem.handle reader nodeOf system system r (asSent lefts (.complete sender)) := rfl
    rw [step]
    refine ⟨isolated.handle rfl loaded,?_,?_,?_⟩
    · intro i later
      rw [received_complete]
      exact isolated.buffers i (earlier i later)
    · intro i j
      rw [received_complete]
      exact isolated.objects i j
    · intro i j
      rw [received_complete]
      exact isolated.kept i j
  | content sender content =>
    cases content with
    | inr tupleSet =>
      have step : system.deliver reader nodeOf ⟨r,.content sender (.inr tupleSet)⟩ =
        JoinSystem.handle reader nodeOf system system r (asSent lefts (.content sender (.inr tupleSet))) := rfl
      rw [step]
      refine ⟨isolated.handle rfl loaded,?_,?_,?_⟩
      · intro i later
        rw [received_right]
        exact isolated.buffers i (earlier i later)
      · intro i j
        rw [received_right]
        exact isolated.objects i j
      · intro i j
        rw [received_right]
        exact isolated.kept i j
    | inl incoming =>
      have once := orderly.once r
      rw [received_left,if_pos rfl] at once
      have sentAs : system.objects (nodeOf r) incoming = lefts incoming := by
        apply isolated.objects
        intro before
        exact (List.disjoint_of_nodup_append once) before List.mem_cons_self
      have step : system.deliver reader nodeOf ⟨r,.content sender (.inl incoming)⟩ =
          JoinSystem.handle reader nodeOf system
          (system.bufferLeft nodeOf r incoming) r (asSent lefts (.content sender (.inl incoming))) := by
        rw [JoinSystem.deliver,asSent]
        dsimp only
        rw [alive,sentAs]
        rfl
      obtain ⟨buffers,objects⟩ := isolated.self sentAs unfinished
      rw [step]
      refine ⟨isolated.handle (JoinSystem.instances_bufferLeft incoming) loaded,?_,?_,?_⟩
      · intro i later
        rw [received_left]
        by_cases same : r = i
        · subst same
          rw [if_pos rfl,List.map_append,List.map_singleton]
          exact buffers
        · obtain ⟨objectsSame,keptSame⟩ := isolated.others sentAs unshared (Ne.symm same)
          rw [if_neg same,List.append_nil,← isolated.buffers i (earlier i later),← objectsSame,← keptSame]
          rfl
      · intro i j
        rw [received_left]
        by_cases same : r = i
        · subst same
          intro missing
          rw [List.mem_append,not_or] at missing
          exact objects j missing.1
        · rw [if_neg same,List.append_nil]
          intro missing
          rw [← isolated.objects i j missing,← (isolated.others sentAs unshared (Ne.symm same)).1]
          rfl
      · intro i j now
        rw [received_left]
        by_cases same : r = i
        · subst same
          rw [if_pos rfl,List.mem_append,List.mem_singleton]
          exact isolated.kept_bufferLeft now
        · rw [if_neg same,List.append_nil]
          apply isolated.kept i j
          rw [← (isolated.others sentAs unshared (Ne.symm same)).2]
          exact now

theorem run_isolated (cuts : CutsFilled reader) (fresh : JoinStarted lefts isProducer op started)
    (projectable : Projectable op)
    (orderly : Orderly lefts isProducer op deliveries) (unshared : Unshared nodeOf lefts deliveries) :
    Isolated reader nodeOf lefts isProducer started (started.run reader nodeOf deliveries) deliveries := by
  induction deliveries using List.reverseRecOn with
  | nil =>
    refine ⟨fun _ => rfl,?_,fun i j _ => fresh.objects _ j,?_⟩
    · intro i _
      change (started.kept i).map _ = _
      rw [fresh.kept i]
      rfl
    · intro i j kept
      change started.kept i = some j at kept
      rw [fresh.kept i] at kept
      cases kept
  | append_singleton deliveries delivery ih =>
    obtain ⟨r,message⟩ := delivery
    rw [JoinSystem.run,List.foldl_append]
    exact (ih orderly.init unshared.init).deliver cuts fresh projectable orderly unshared

end
/-- What a join is fed with: the operators of both sides and what they tell. -/
structure JoinInputs (ν : Type) (left right : Schema) where
  prePOpId : Nat
  leftPOps : List PhysicalOp
  rightPOps : List PhysicalOp
  leftTupleSets : List (TupleSet (Record ν left))
  rightTupleSets : Fin rightPOps.length → List (TupleSet (Record ν right))

namespace JoinInputs
variable (inputs : JoinInputs ν left right) (parallelDegree numNodes : Nat)

def leftRelation : List (Record ν left) := inputs.leftTupleSets.flatMap TupleSet.rows

def rightRelation : List (Record ν right) :=
  (List.finRange inputs.rightPOps.length).flatMap fun p => (inputs.rightTupleSets p).flatMap TupleSet.rows

def planned (i : Nat) : PlannedJoin :=
  plannedJoin inputs.prePOpId parallelDegree numNodes inputs.leftPOps inputs.rightPOps i

def nodeOf (i : Fin (parallelDegree*numNodes)) : Nat := (inputs.planned parallelDegree numNodes i).nodeId

def Producer (name : String) : Prop :=
  name ∈ (inputs.planned parallelDegree numNodes 0).leftProducerNames ∨
    name ∈ (inputs.planned parallelDegree numNodes 0).rightProducerNames

/-- What the operators of the right side send to an instance, each through its split operator
unless there is one instance only. -/
def rightInputs (splits : Fin inputs.rightPOps.length →
      Process (Split.SplitPOp (Record ν right)) α (TupleSet (Record ν right)))
    (i : Nat) : List (TupleSet (Record ν right)) :=
  (List.finRange inputs.rightPOps.length).flatMap fun p =>
    if parallelDegree*numNodes = 1 then inputs.rightTupleSets p
    else Split.sentTo (nestedLoopJoinName inputs.prePOpId i) ((splits p).run Split.SplitPOp.onReceive
      ((inputs.rightTupleSets p).map (fun tupleSet => .content inputs.rightPOps[p].name (some tupleSet)) ++
        [.complete inputs.rightPOps[p].name])).ctx.acts

end JoinInputs

/-- A run of the plan to its end, in any order of deliveries. -/
structure PlanRun (α : Type) (inputs : JoinInputs ν left right) (parallelDegree numNodes : Nat)
    (op : NestedLoopJoinPOp ν left right) where
  started : JoinSystem α ν left right (parallelDegree*numNodes) inputs.leftTupleSets.length
  splits : Fin inputs.rightPOps.length → Process (Split.SplitPOp (Record ν right)) α (TupleSet (Record ν right))
  deliveries : List (Delivery (parallelDegree*numNodes) inputs.leftTupleSets.length ν right)
  joinStarted : JoinStarted inputs.leftTupleSets.get (inputs.Producer parallelDegree numNodes) op started
  splitStarted : ∀ p, Split.Started inputs.rightPOps[p].name (splits p)
  splitWired : ∀ p, (splits p).operator.consumerVec =
    (plannedSplit inputs.prePOpId parallelDegree numNodes inputs.rightPOps[p]).consumerVec
  produced : ∀ i, FromProducers (inputs.Producer parallelDegree numNodes) (own inputs.leftTupleSets.get i deliveries)
  finished : ∀ i, Finished (inputs.Producer parallelDegree numNodes) (own inputs.leftTupleSets.get i deliveries)
  broadcast : ∀ i, (received i deliveries).Perm (List.finRange inputs.leftTupleSets.length)
  rights : ∀ i, (rightTables (contents (own inputs.leftTupleSets.get i deliveries))).Perm
    (inputs.rightInputs parallelDegree numNodes splits i)

namespace PlanRun
variable {inputs : JoinInputs ν left right} {parallelDegree numNodes : Nat} {op : NestedLoopJoinPOp ν left right}

def final (reader : TableBatchReader) (run : PlanRun α inputs parallelDegree numNodes op) :
    JoinSystem α ν left right (parallelDegree*numNodes) inputs.leftTupleSets.length :=
  run.started.run reader (inputs.nodeOf parallelDegree numNodes) run.deliveries

/-- Every instance gets something of each side that its kernel can read, in objects of its own. -/
structure Undisturbed (run : PlanRun α inputs parallelDegree numNodes op) : Prop where
  lefts : inputs.leftTupleSets ≠ []
  rights : ∃ p, ∃ tupleSet ∈ inputs.rightTupleSets p, parallelDegree*numNodes = 1 ∨ tupleSet.rows ≠ []
  joinable : ∀ i, Joinable op.arguments (contents (own inputs.leftTupleSets.get i run.deliveries))
  unshared : Unshared (inputs.nodeOf parallelDegree numNodes) inputs.leftTupleSets.get run.deliveries

variable (run : PlanRun α inputs parallelDegree numNodes op)

theorem consumerVec_eq (p : Fin inputs.rightPOps.length) : (run.splits p).operator.consumerVec =
    (List.range (parallelDegree*numNodes)).map (nestedLoopJoinName inputs.prePOpId) := run.splitWired p

theorem rows_rightInputs (some : 0 < parallelDegree*numNodes) :
    ((List.range (parallelDegree*numNodes)).flatMap fun i =>
      (inputs.rightInputs parallelDegree numNodes run.splits i).flatMap TupleSet.rows).Perm inputs.rightRelation := by
  unfold JoinInputs.rightInputs JoinInputs.rightRelation
  simp only [List.flatMap_assoc]
  refine (flatMap_swap _ _ _).trans (List.Perm.flatMap_left _ ?_)
  intro p _
  by_cases single : parallelDegree*numNodes = 1
  · simp [single]
  · have kept := Split.split_keeps_rows inputs.rightPOps[p].name (run.splits p) (run.splitStarted p)
      (by
        rw [run.consumerVec_eq p]
        exact List.nodup_range.map (nestedLoopJoinName_injective inputs.prePOpId))
      (by
        rw [run.consumerVec_eq p]
        simpa using Nat.pos_iff_ne_zero.mp some)
      (inputs.rightTupleSets p)
    rw [run.consumerVec_eq p,List.flatMap_map] at kept
    simp only [if_neg single]
    exact kept

theorem rightInputs_ne_nil (undisturbed : run.Undisturbed) (i : Fin (parallelDegree*numNodes)) :
    inputs.rightInputs parallelDegree numNodes run.splits i ≠ [] := by
  obtain ⟨p,tupleSet,inside,reaches⟩ := undisturbed.rights
  intro none
  have nothing := List.flatMap_eq_nil_iff.mp none p (List.mem_finRange p)
  by_cases single : parallelDegree*numNodes = 1
  · rw [if_pos single] at nothing
    rw [nothing] at inside
    cases inside
  · rw [if_neg single] at nothing
    have rows : tupleSet.rows ≠ [] := reaches.resolve_left single
    obtain ⟨pieces,whole,acts⟩ := Split.split_pieces inputs.rightPOps[p].name (run.splits p) (run.splitStarted p)
      (inputs.rightTupleSets p)
    have here : (run.splits p).operator.consumerVec[i.val]? = some (nestedLoopJoinName inputs.prePOpId i) := by
      rw [run.consumerVec_eq p,List.getElem?_map,List.getElem?_range i.isLt]
      rfl
    have distinct : (run.splits p).operator.consumerVec.Nodup := by
      rw [run.consumerVec_eq p]
      exact List.nodup_range.map (nestedLoopJoinName_injective inputs.prePOpId)
    rw [acts,Split.sentTo_append,Split.sentTo_sends distinct here,List.append_eq_nil_iff,List.map_eq_nil_iff] at nothing
    rw [nothing.1,List.flatten_nil] at whole
    exact rows (List.flatMap_eq_nil_iff.mp whole.symm tupleSet inside)

theorem plan_output (reader : TableBatchReader) (cuts : CutsFilled reader) (some : 0 < parallelDegree*numNodes)
    (projectable : Projectable op) (undisturbed : run.Undisturbed)
    (straight : op.arguments.predicate = none ∨ op.arguments.isLeft = false ∧ op.arguments.isRight = false) :
    (run.final reader).Completed ∧
      (run.final reader).outputs.Perm ((joinedPairs op.arguments inputs.leftRelation inputs.rightRelation).map
        (projectRow (projectedColumns (outputFields left right op.arguments.neededColumnNames) op.projectColumnNames))) := by
  have orderly : Orderly inputs.leftTupleSets.get (inputs.Producer parallelDegree numNodes) op run.deliveries :=
    ⟨run.produced,fun i => ((run.broadcast i).nodup_iff).mpr (List.nodup_finRange _),undisturbed.joinable⟩
  have isolated := run_isolated cuts run.joinStarted projectable orderly undisturbed.unshared
  have each : ∀ i, (((run.final reader).instances i).fault = none ∧ ∃ tables : List (TupleSet (OutputRow ν)),
        ((run.final reader).instances i).ctx.acts = tables.map .tell ++ [.notifyComplete]) ∧
      (told ((run.final reader).instances i).ctx.acts).Perm ((joinedPairs op.arguments inputs.leftRelation
        ((inputs.rightInputs parallelDegree numNodes run.splits i).flatMap TupleSet.rows)).map (projectRow
          (projectedColumns (outputFields left right op.arguments.neededColumnNames) op.projectColumnNames))) := by
    intro i
    have lefts : leftTables (contents (own inputs.leftTupleSets.get i run.deliveries)) ≠ [] := by
      rw [leftTables_own]
      intro none
      have count := (run.broadcast i).length_eq
      rw [List.map_eq_nil_iff.mp none,List.length_finRange] at count
      exact undisturbed.lefts (List.eq_nil_of_length_eq_zero count.symm)
    have rights : rightTables (contents (own inputs.leftTupleSets.get i run.deliveries)) ≠ [] := by
      intro none
      have same := run.rights i
      rw [none] at same
      exact run.rightInputs_ne_nil undisturbed i same.symm.eq_nil
    have inner : ¬Swapped op.arguments (contents (own inputs.leftTupleSets.get i run.deliveries)) := by
      intro swapped
      obtain none | ⟨noLeft,noRight⟩ := straight
      · exact swapped.1 none
      · obtain outer | outer := swapped.2.1
        · rw [noLeft] at outer
          cases outer
        · rw [noRight] at outer
          cases outer
    obtain ⟨tables,acts,alive,rows⟩ := instance_output reader cuts (run.joinStarted.instances i) projectable
      (run.produced i)
      (run.finished i) (undisturbed.joinable i) inner lefts rights
    rw [← isolated.instances i] at acts alive
    have told' : told ((run.final reader).instances i).ctx.acts = tables.flatMap TupleSet.rows := by
      rw [← told_tables tables]
      exact congrArg told acts
    have leftSame : (leftRows (contents (own inputs.leftTupleSets.get i run.deliveries))).Perm inputs.leftRelation := by
      rw [leftRows,leftTables_own,rowsOf,JoinInputs.leftRelation]
      refine List.Perm.flatMap_right _ ?_
      exact ((run.broadcast i).map _).trans (List.Perm.of_eq (List.map_get_finRange inputs.leftTupleSets))
    have rightSame : (rightRows (contents (own inputs.leftTupleSets.get i run.deliveries))).Perm
        ((inputs.rightInputs parallelDegree numNodes run.splits i).flatMap TupleSet.rows) :=
      (run.rights i).flatMap_right _
    refine ⟨⟨alive,tables,acts⟩,?_⟩
    rw [told']
    exact rows.trans (((pairs_perm op.arguments.matching leftSame rightSame).map _).map _)
  refine ⟨fun i => (each i).1,(List.Perm.flatMap_left _ fun i _ => (each i).2).trans ?_⟩
  unfold joinedPairs
  rw [← List.map_flatMap,← List.map_flatMap,← pairs_flatMap_probe]
  refine ((pairs_perm op.arguments.matching (List.Perm.refl _) ?_).map _).map _
  have indices : (List.finRange (parallelDegree*numNodes)).map Fin.val = List.range (parallelDegree*numNodes) := by
    apply List.ext_getElem
    · rw [List.length_map,List.length_finRange,List.length_range]
    · simp
  refine List.Perm.trans (List.Perm.of_eq ?_) (run.rows_rightInputs some)
  rw [← indices,List.flatMap_map]

end PlanRun

/-- Runs of the parallel and of the single-instance plan, each in any order: where nothing is padded
and no instance is disturbed, both put out the same rows. -/
theorem parallel_join_equals_single (reader : TableBatchReader) (cuts : CutsFilled reader)
    (predicate : Option (NestedLoopPredicate ν left right)) (projectColumnNames : List String) (joinType : JoinType)
    (arguments : NestedLoopJoinArguments ν left right)
    (made : NestedLoopJoinArguments.makeKernel predicate projectColumnNames joinType = .ok arguments)
    (inputs : JoinInputs ν left right) (parallelDegree numNodes : Nat) (instances : 0 < parallelDegree*numNodes)
    (run : PlanRun α inputs parallelDegree numNodes (.make projectColumnNames arguments))
    (single : PlanRun α inputs 1 1 (.make projectColumnNames arguments))
    (unpadded : predicate = none ∨ joinType = .inner)
    (projectable : Projectable (.make projectColumnNames arguments))
    (undisturbed : run.Undisturbed) (alone : single.Undisturbed) :
    (run.final reader).Completed ∧ (single.final reader).Completed ∧
      (run.final reader).outputs.Perm (single.final reader).outputs := by
  have straight : arguments.predicate = none ∨ arguments.isLeft = false ∧ arguments.isRight = false := by
    cases joinType with
    | semi => cases made
    | inner =>
      cases made
      exact .inr ⟨rfl,rfl⟩
    | left =>
      cases made
      exact .inl (unpadded.resolve_right (by decide))
    | right =>
      cases made
      exact .inl (unpadded.resolve_right (by decide))
    | full =>
      cases made
      exact .inl (unpadded.resolve_right (by decide))
  obtain ⟨completed,rows⟩ := run.plan_output reader cuts instances projectable undisturbed straight
  obtain ⟨completedAlone,rowsAlone⟩ := single.plan_output reader cuts (by decide) projectable alone straight
  exact ⟨completed,completedAlone,rows.trans rowsAlone.symm⟩

theorem two_producers {β : Type} {isProducer : String → Prop} {first second : String} (differ : first ≠ second)
    (known : ∀ name, isProducer name ↔ name = first ∨ name = second) (one other : β) :
    FromProducers isProducer [.content first one,.complete first,.content second other,.complete second] ∧
      Finished isProducer [.content first one,.complete first,.content second other,.complete second] := by
  refine ⟨⟨?_,?_⟩,?_⟩
  · simp [known,Operators.Waiting.sender]
  · simp [Operators.Waiting.sender,differ.symm]
  · intro name isProducer
    obtain rfl | rfl := (known name).mp isProducer
    · simp
    · simp

/-- The join `a = b` of the given type on needed columns `a` and `b`. -/
def joinOnValue (isLeft : Bool) : NestedLoopJoinArguments Nat ["a"] ["b"] where
  predicate := (sameValue isLeft).predicate
  neededColumnNames := ["a","b","a","b"]
  isLeft := isLeft
  isRight := false
  involved := by
    intro predicate there name inside
    have needed := (sameValue isLeft).involved predicate there name inside
    exact List.mem_append_left ["a","b"] needed

/-- A left row that has a partner in each half of the right rows. -/
def oneLeftFourRight : JoinInputs Nat ["a"] ["b"] where
  prePOpId := 0
  leftPOps := [⟨"left",0⟩]
  rightPOps := [⟨"right",0⟩]
  leftTupleSets := [⟨[[fun _ => some 1]]⟩]
  rightTupleSets := fun _ => [⟨[[fun _ => some 1,fun _ => some 5,fun _ => some 1,fun _ => some 7]]⟩]

def instanceStarted (rightProducer : String) (isLeft : Bool) :
    Process (NestedLoopJoinPOp Nat ["a"] ["b"]) Unit (TupleSet (OutputRow Nat)) where
  operator := .make ["a","b"] (joinOnValue isLeft)
  ctx := ⟨1,"join",((LocalPOpDirectory.make.insert ⟨rightProducer,(),.producer,false⟩).1.insert
    ⟨"left",(),.producer,false⟩).1,false,[]⟩
  fault := none

theorem instanceStarted_started {rightProducer : String} (differ : rightProducer ≠ "left") (isLeft : Bool)
    {isProducer : String → Prop} (known : ∀ name, isProducer name ↔ name = "left" ∨ name = rightProducer) :
    Started isProducer (.make ["a","b"] (joinOnValue isLeft)) (instanceStarted rightProducer isLeft) where
  operator := rfl
  blank := ⟨rfl,rfl⟩
  alive := rfl
  incomplete := rfl
  silent := rfl
  awaiting := by
    have both := ((LocalPOpDirectory.awaiting_make (α := Unit)).insert rightProducer rfl ()).insert "left"
      (by simp [LocalPOpDirectory.make,LocalPOpDirectory.insert,find,differ]) ()
    simp only [or_false,← known] at both
    exact both

def splitStarted (numInstances : Nat) :
    Process (Split.SplitPOp (Record Nat ["b"])) Unit (TupleSet (Record Nat ["b"])) where
  operator := ⟨(List.range numInstances).map (nestedLoopJoinName 0),none⟩
  ctx := ⟨2,"split",(((LocalPOpDirectory.make.insert ⟨"right",(),.producer,false⟩).1.insert
    ⟨nestedLoopJoinName 0 0,(),.consumer,false⟩).1.insert ⟨nestedLoopJoinName 0 1,(),.consumer,false⟩).1,false,[]⟩
  fault := none

theorem splitStarted_started {numInstances : Nat} (few : numInstances ≤ 2) :
    Split.Started "right" (splitStarted numInstances) where
  alive := rfl
  blank := rfl
  incomplete := rfl
  silent := rfl
  awaiting := by
    have connected := (((LocalPOpDirectory.awaiting_make (α := Unit)).insert "right" rfl ()).insert_consumer
      (nestedLoopJoinName 0 0) (by decide) ()).insert_consumer (nestedLoopJoinName 0 1) (by decide) ()
    simp only [or_false] at connected
    exact connected
  connected := by
    intro consumer inside
    obtain ⟨i,bound,rfl⟩ := List.mem_map.mp inside
    have small : i < 2 := lt_of_lt_of_le (List.mem_range.mp bound) few
    have both : ((splitStarted 2).ctx.operatorMap.entryOf (nestedLoopJoinName 0 0)).isSome ∧
        ((splitStarted 2).ctx.operatorMap.entryOf (nestedLoopJoinName 0 1)).isSome := by decide
    obtain rfl | rfl : i = 0 ∨ i = 1 := by omega
    · exact both.1
    · exact both.2

def inTurn {n : Nat} (rightProducer : String) (i : Fin n) (slice : List (Record Nat ["b"])) :
    List (Delivery n 1 Nat ["b"]) :=
  [⟨i,.content "left" (.inl 0)⟩,⟨i,.complete "left"⟩,⟨i,.content rightProducer (.inr ⟨[slice]⟩)⟩,
    ⟨i,.complete rightProducer⟩]

def ownInTurn (rightProducer : String) (slice : List (Record Nat ["b"])) :
    List (Operators.Waiting (JoinMessage Nat ["a"] ["b"])) :=
  [.content "left" (.left ⟨[[fun _ => some 1]]⟩),.complete "left",.content rightProducer (.right ⟨[slice]⟩),
    .complete rightProducer]

theorem own_inTurn {n : Nat} (rightProducer : String) (i r : Fin n) (slice : List (Record Nat ["b"])) :
    own oneLeftFourRight.leftTupleSets.get i (inTurn rightProducer r slice) =
      if r = i then ownInTurn rightProducer slice else [] := by
  by_cases same : r = i
  · simp [own,inTurn,ownInTurn,asSent,same,oneLeftFourRight]
  · simp [own,inTurn,same,oneLeftFourRight]

theorem producer_iff (parallelDegree numNodes : Nat) (name : String) :
    oneLeftFourRight.Producer parallelDegree numNodes name ↔
      name = "left" ∨ name = if parallelDegree*numNodes = 1 then "right" else "Split[0]-right" := by
  have split : splitName 0 ⟨"right",0⟩ = "Split[0]-right" := by decide
  unfold JoinInputs.Producer JoinInputs.planned plannedJoin oneLeftFourRight
  dsimp only
  by_cases single : parallelDegree*numNodes = 1
  · simp [single]
  · simp [single,split]

def inHalves : List (Delivery 2 1 Nat ["b"]) :=
  inTurn "Split[0]-right" 0 [fun _ => some 1,fun _ => some 5] ++ inTurn "Split[0]-right" 1 [fun _ => some 1,
    fun _ => some 7]

theorem own_inHalves (i : Fin 2) :
    own oneLeftFourRight.leftTupleSets.get i inHalves = ownInTurn "Split[0]-right" [fun _ => some 1,
      fun _ => some (5+2*i.val)] := by
  have parts : own oneLeftFourRight.leftTupleSets.get i inHalves =
      own oneLeftFourRight.leftTupleSets.get i (inTurn "Split[0]-right" 0 [fun _ => some 1,fun _ => some 5]) ++
        own oneLeftFourRight.leftTupleSets.get i (inTurn "Split[0]-right" 1 [fun _ => some 1,fun _ => some 7]) :=
          List.filterMap_append
  rw [parts,own_inTurn,own_inTurn]
  clear parts
  revert i
  exact Fin.forall_fin_two.mpr ⟨rfl,rfl⟩

def halvesRun (isLeft : Bool) : PlanRun Unit oneLeftFourRight 2 1 (.make ["a","b"] (joinOnValue isLeft)) where
  started := ⟨fun _ => instanceStarted "Split[0]-right" isLeft,fun _ => oneLeftFourRight.leftTupleSets.get,
    fun _ => none⟩
  splits := fun _ => splitStarted 2
  deliveries := inHalves
  joinStarted := ⟨fun _ => instanceStarted_started (by decide) isLeft (producer_iff 2 1),fun _ _ => rfl,fun _ => rfl⟩
  splitStarted := Fin.forall_fin_one.mpr (splitStarted_started (le_refl 2))
  splitWired := fun _ => rfl
  produced := by
    intro i
    rw [own_inHalves]
    exact (two_producers (by decide) (producer_iff 2 1) _ _).1
  finished := by
    intro i
    rw [own_inHalves]
    exact (two_producers (by decide) (producer_iff 2 1) _ _).2
  broadcast := by decide
  rights := by
    intro i
    rw [own_inHalves]
    revert i
    exact Fin.forall_fin_two.mpr ⟨List.Perm.of_eq rfl,List.Perm.of_eq rfl⟩

/-- All right rows for the only instance. -/
def wholeRun (isLeft : Bool) : PlanRun Unit oneLeftFourRight 1 1 (.make ["a","b"] (joinOnValue isLeft)) where
  started := ⟨fun _ => instanceStarted "right" isLeft,fun _ => oneLeftFourRight.leftTupleSets.get,fun _ => none⟩
  splits := fun _ => splitStarted 1
  deliveries := inTurn "right" 0 [fun _ => some 1,fun _ => some 5,fun _ => some 1,fun _ => some 7]
  joinStarted := ⟨fun _ => instanceStarted_started (by decide) isLeft (producer_iff 1 1),fun _ _ => rfl,fun _ => rfl⟩
  splitStarted := Fin.forall_fin_one.mpr (splitStarted_started (Nat.le_succ 1))
  splitWired := fun _ => rfl
  produced := Fin.forall_fin_one.mpr (two_producers (by decide) (producer_iff 1 1) _ _).1
  finished := Fin.forall_fin_one.mpr (two_producers (by decide) (producer_iff 1 1) _ _).2
  broadcast := by decide
  rights := Fin.forall_fin_one.mpr (List.Perm.of_eq rfl)

/-- The left join of a row 1 with the rows 1, 5, 1 and 7: each instance pads for itself. -/
theorem left_join_padded_apart :
    NestedLoopJoinArguments.makeKernel (sameValue true).predicate ["a","b"] .left = .ok (joinOnValue true) ∧
    ((halvesRun true).final .chunked).Completed ∧ ((wholeRun true).final .chunked).Completed ∧
    ((halvesRun true).final .chunked).outputs = [[some 1,some 1],[some 1,none],[some 1,some 1],[some 1,none]] ∧
    ((wholeRun true).final .chunked).outputs =
      [[some 1,some 1],[some 1,some 1],[some 1,none],[some 1,none],[some 7,none]] ∧
    ¬((halvesRun true).final .chunked).outputs.Perm ((wholeRun true).final .chunked).outputs := by
  have halves : ((halvesRun true).final .chunked).outputs =
      [[some 1,some 1],[some 1,none],[some 1,some 1],[some 1,none]] := by decide
  have whole : ((wholeRun true).final .chunked).outputs =
      [[some 1,some 1],[some 1,some 1],[some 1,none],[some 1,none],[some 7,none]] := by decide
  refine ⟨rfl,?_,?_,halves,whole,?_⟩
  · exact Fin.forall_fin_two.mpr
      ⟨⟨rfl,[⟨[[[some 1,some 1]],[[some 1,none]]]⟩],rfl⟩,⟨rfl,[⟨[[[some 1,some 1]],[[some 1,none]]]⟩],rfl⟩⟩
  · exact Fin.forall_fin_one.mpr
      ⟨rfl,[⟨[[[some 1,some 1],[some 1,some 1]],[[some 1,none],[some 1,none],[some 7,none]]]⟩],rfl⟩
  · rw [halves,whole]
    decide

theorem unshared_of_once {n m : Nat} {nodeOf : Fin n → Nat} {lefts : Fin m → TupleSet (Record ν left)}
    {deliveries : List (Delivery n m ν right)} (few : ∀ i, (received i deliveries).length ≤ 1) :
    Unshared nodeOf lefts deliveries := by
  intro before r sender incoming after whole some
  have count := few r
  have parts : received r deliveries = received r before ++ incoming::received r after := by
    rw [whole,received,List.filterMap_append,List.filterMap_cons]
    simp [received]
  rw [parts,List.length_append,List.length_cons] at count
  exact absurd (List.eq_nil_of_length_eq_zero (by omega)) some

theorem joinable_inTurn (rightProducer : String) {slice : List (Record Nat ["b"])} (some : slice ≠ []) :
    Joinable (joinOnValue false) (contents (ownInTurn rightProducer slice)) := by
  have lefts : leftTables (contents (ownInTurn rightProducer slice)) = [⟨[[fun _ => Option.some 1]]⟩] := rfl
  have rights : rightTables (contents (ownInTurn rightProducer slice)) = [⟨[slice]⟩] := rfl
  refine ⟨fun _ _ => by decide,?_,?_⟩
  · intro _ _ _ table kept
    rw [lefts] at kept
    rw [← Option.some.inj kept]
    simp [keepTable]
  · intro _ _ _ table kept
    rw [rights] at kept
    rw [← Option.some.inj kept]
    simpa [keepTable] using some

/-- The inner join of the same rows. -/
theorem inner_join_in_halves :
    ((halvesRun false).final .chunked).Completed ∧ ((wholeRun false).final .chunked).Completed ∧
      ((halvesRun false).final .chunked).outputs.Perm ((wholeRun false).final .chunked).outputs := by
  apply parallel_join_equals_single .chunked (fun _ filled => filled) (sameValue false).predicate ["a","b"] .inner
    (joinOnValue false) rfl oneLeftFourRight 2 1 (by decide) (halvesRun false) (wholeRun false) (.inr rfl)
  · unfold Projectable
    decide
  · refine ⟨List.cons_ne_nil _ _,⟨⟨0,Nat.zero_lt_one⟩,_,List.mem_cons_self,.inr (List.cons_ne_nil _ _)⟩,?_,?_⟩
    · intro i
      change Joinable (joinOnValue false) (contents (own oneLeftFourRight.leftTupleSets.get i inHalves))
      rw [own_inHalves]
      exact joinable_inTurn _ (List.cons_ne_nil _ _)
    · apply unshared_of_once
      intro i
      rw [((halvesRun false).broadcast i).length_eq]
      decide
  · refine ⟨List.cons_ne_nil _ _,⟨⟨0,Nat.zero_lt_one⟩,_,List.mem_cons_self,.inl rfl⟩,?_,?_⟩
    · exact Fin.forall_fin_one.mpr (joinable_inTurn "right" (List.cons_ne_nil _ _))
    · apply unshared_of_once
      intro i
      rw [((wholeRun false).broadcast i).length_eq]
      decide

end Hermes.Join
