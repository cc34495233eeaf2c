import Hermes.QueryExecution

/-! Classes of operators that ignore what they are told, and scans that read when they start: a query of only these
is over in every order of its messages. -/
namespace Hermes.Executor
open Hermes.Operators Hermes.Library.Network Hermes.Library.Transition
open Hermes.Serialization (Values PhysicalOp POpType)
open Hermes.Transform
open Hermes.Library
variable {V : Values} {γ τ E : Type}

/-- An `onReceive` that answers tuple sets by at most a fixed message, and completes after the last producer. -/
def relayed (reply : Option γ) (_ : Unit) (ctx : POpContext Unit γ) : Waiting γ → Process Unit Unit γ
  | .content _ _ => ⟨(),(reply.map ctx.tell).getD ctx,none⟩
  | .complete _ =>
    if !ctx.complete && ctx.operatorMap.allComplete .producer then ⟨(),ctx.notifyComplete,none⟩ else ⟨(),ctx,none⟩

theorem relayed_acts (reply : Option γ) (state : Unit) (ctx : POpContext Unit γ) (message : Waiting γ) :
    ctx.acts <+: (relayed reply state ctx message).ctx.acts := by
  cases message with
  | content sender content =>
    cases reply with
    | none => exact List.prefix_rfl
    | some answer => exact acts_tell ctx answer
  | complete sender =>
    rw [relayed]
    split
    next => exact acts_notifyComplete ctx
    next => exact List.prefix_rfl

def relay (reply : Option γ) (unrecognized : String → String) : Behaviour γ where
  State := Unit
  create := ()
  onStart state ctx := ⟨state,ctx,none⟩
  onReceive := relayed reply
  unrecognized := unrecognized
  onStart_acts _ _ := List.prefix_rfl
  onReceive_acts := relayed_acts reply

/-- What is sent between these operators is a pointer to a tuple set, which may be null. -/
def SortPOp : Behaviour (Option τ) := relay none ("Unrecognized message type " ++ ·)

def AggregatePOp : Behaviour (Option τ) := relay none ("Unrecognized message type " ++ ·)

def GroupPOp : Behaviour (Option τ) := relay none ("Unrecognized message type " ++ ·)

def ProjectPOp : Behaviour (Option τ) := relay none ("Unrecognized message type " ++ ·)

def CollatePOp : Behaviour (Option τ) := relay none ("Unrecognized message type " ++ ·)

def HashJoinBuildPOp (name : String) : Behaviour (Option τ) :=
  relay (some none) fun type => "Unrecognized message type: " ++ type ++ ", " ++ name

def HashJoinProbePOp (name : String) : Behaviour (Option τ) :=
  relay (some none) fun type => "Unrecognized message type: " ++ type ++ ", " ++ name

/-- `S3SelectScanAbstractPOp` that scans when it starts, with what `readTuples` returns. -/
def S3SelectScanAbstractPOp (name : String) (readTupleSet : τ) : Behaviour (Option τ) where
  State := Unit
  create := ()
  onStart state ctx := ⟨state,(ctx.tell (some readTupleSet)).notifyComplete,none⟩
  onReceive state ctx
    | .content _ _ => ⟨state,ctx.notifyError ("Unrecognized message type: TupleMessage, " ++ name),none⟩
    | .complete _ => ⟨state,ctx,none⟩
  unrecognized type := "Unrecognized message type: " ++ type ++ ", " ++ name
  onStart_acts _ ctx := (acts_tell ctx _).trans (acts_notifyComplete _)
  onReceive_acts _ ctx message := by
    cases message with
    | content sender content => exact acts_record ctx _
    | complete sender => exact List.prefix_rfl

/-- Whatever the others do. -/
def classOf (readTuples : PhysicalOp V → τ) (others : PhysicalOp V → Behaviour (Option τ)) (pOp : PhysicalOp V) :
    Behaviour (Option τ) :=
  match pOp.type with
  | .sort => SortPOp
  | .aggregate => AggregatePOp
  | .group => GroupPOp
  | .project => ProjectPOp
  | .collate => CollatePOp
  | .hashJoinBuild => HashJoinBuildPOp pOp.name
  | .hashJoinProbe => HashJoinProbePOp pOp.name
  | .s3Get => S3SelectScanAbstractPOp pOp.name (readTuples pOp)
  | .s3Select => S3SelectScanAbstractPOp pOp.name (readTuples pOp)
  | _ => others pOp

def execution (plan : List (PhysicalOp V)) (readTuples : PhysicalOp V → τ)
    (others : PhysicalOp V → Behaviour (Option τ)) :
    Execution V (Option τ) := ⟨plan,classOf readTuples others,fun _ => "TupleMessage"⟩

def relays : POpType → Bool
  | .sort | .aggregate | .group | .project | .collate | .hashJoinBuild | .hashJoinProbe => true
  | _ => false

section Relay
variable {isProducer : String → Prop} {messages : List (Waiting γ)} {process : Process Unit Unit γ}

/-- An operator of such a class after some messages. -/
structure Relaying (isProducer : String → Prop) (messages : List (Waiting γ))
    (process : Process Unit Unit γ) : Prop where
  alive : process.fault = none
  expecting : Expecting isProducer messages process.ctx.operatorMap
  acts : ∃ told, (∀ act ∈ told, ∃ content, act = .tell content) ∧
    (¬Finished isProducer messages ∧ process.ctx.complete = false ∧ process.ctx.acts = told ∨
      Finished isProducer messages ∧ process.ctx.complete = true ∧ process.ctx.acts = told ++ [.notifyComplete])

variable {reply : Option γ}

theorem Relaying.content (relaying : Relaying isProducer messages process) {sender : String} (known : isProducer sender)
    (missing : .complete sender ∉ messages) (content : γ) :
    Relaying isProducer (messages ++ [.content sender content])
    (process.receive (relayed reply) (.content sender content)) := by
  obtain ⟨told,tells,⟨unfinished,incomplete,same⟩ | ⟨finished,_⟩⟩ := relaying.acts
  · rw [Process.receive_content relaying.alive]
    have still := mt (finished_append_content sender content).mp unfinished
    cases reply with
    | none => exact ⟨rfl,relaying.expecting.content sender content,told,tells,.inl ⟨still,incomplete,same⟩⟩
    | some answer =>
      change Relaying isProducer _ ⟨(),process.ctx.tell answer,none⟩
      rw [POpContext.tell_incomplete _ incomplete]
      refine ⟨rfl,relaying.expecting.content sender content,told ++ [.tell answer],?_,.inl ⟨still,incomplete,?_⟩⟩
      · intro act inside
        rcases List.mem_append.mp inside with inside | last
        · exact tells act inside
        · exact ⟨answer,List.mem_singleton.mp last⟩
      · rw [POpContext.record_acts,same]
  · exact absurd finished (Finished.not_of_missing known missing)

theorem Relaying.complete (relaying : Relaying isProducer messages process) {sender : String}
    (known : isProducer sender) (missing : .complete sender ∉ messages) :
    Relaying isProducer (messages ++ [.complete sender]) (process.receive (relayed reply) (.complete sender)) := by
  obtain ⟨told,tells,⟨_,incomplete,same⟩ | ⟨finished,_⟩⟩ := relaying.acts
  · obtain ⟨taken,expecting,all⟩ := relaying.expecting.complete known missing
    rw [Process.receive_complete relaying.alive taken,relayed]
    by_cases finished : Finished isProducer (messages ++ [.complete sender])
    · rw [if_pos (by simp [incomplete,all.mpr finished]),POpContext.notifyComplete_incomplete _ (by exact incomplete)]
      refine ⟨rfl,expecting,told,tells,.inr ⟨finished,rfl,?_⟩⟩
      rw [POpContext.record_acts,same]
    · rw [if_neg (by simp [mt all.mp finished])]
      exact ⟨rfl,expecting,told,tells,.inl ⟨finished,incomplete,same⟩⟩
  · exact absurd finished (Finished.not_of_missing known missing)

theorem relaying_run {pOp : PhysicalOp V} (fed : pOp.producers ≠ []) {ctx : POpContext Unit γ}
    (connected : Connected pOp ctx)
    (messages : List (Waiting γ)) (produced : FromProducers (· ∈ pOp.producers) messages) :
    Relaying (· ∈ pOp.producers) messages (Process.run (relayed reply) ⟨(),ctx,none⟩ messages) := by
  induction messages using List.reverseRecOn with
  | nil =>
    obtain ⟨producer,known⟩ := List.exists_mem_of_ne_nil _ fed
    refine ⟨rfl,expecting_nil connected.awaiting,[],fun act inside => absurd inside List.not_mem_nil,.inl ⟨?_,?_,?_⟩⟩
    · exact Finished.not_of_missing known List.not_mem_nil
    · exact connected.incomplete
    · exact connected.silent
  | append_singleton messages message ih =>
    obtain ⟨before,known,missing⟩ := produced.init
    rw [Process.run_snoc]
    cases message with
    | content sender content => exact (ih before).content known missing content
    | complete sender => exact (ih before).complete known missing

theorem relay_obliging (reply : Option γ) (unrecognized : String → String) (pOp : PhysicalOp V)
    (fed : pOp.producers ≠ []) :
    Obliging Traffic.any pOp (relay reply unrecognized) := by
  intro ctx connected messages produced _
  obtain ⟨alive,_,told,tells,acts⟩ := @relaying_run _ _ reply _ fed _ connected messages produced
  refine Fulfils.of_acts alive (fun act inside => .inl (tells act inside)) ?_ fun _ _ => trivial
  exact acts.imp (fun early => ⟨early.1,early.2.2⟩) fun late => ⟨late.1,late.2.2⟩

end Relay

theorem scan_obliging (name : String) (readTupleSet : τ) (pOp : PhysicalOp V) (first : pOp.producers = []) :
    Obliging Traffic.any pOp (S3SelectScanAbstractPOp name readTupleSet) := by
  intro ctx connected messages produced _
  have none : messages = [] := by
    refine List.eq_nil_iff_forall_not_mem.mpr fun message inside => ?_
    have known := produced.senders message inside
    rw [first] at known
    exact absurd known List.not_mem_nil
  rw [none]
  have acts : ((S3SelectScanAbstractPOp name readTupleSet).run ctx []).ctx.acts =
      [.tell (some readTupleSet)] ++ [.notifyComplete] := by
    change ((ctx.tell (some readTupleSet)).notifyComplete).acts = _
    rw [POpContext.tell_incomplete _ connected.incomplete,
      POpContext.notifyComplete_incomplete _ (by exact connected.incomplete)]
    simp [connected.silent]
  have finished : Finished (· ∈ pOp.producers) ([] : List (Waiting (Option τ))) := by
    intro producer known
    rw [first] at known
    exact absurd known List.not_mem_nil
  refine Fulfils.of_acts rfl ?_ (.inr ⟨finished,acts⟩) fun _ _ => trivial
  exact fun act inside => .inl ⟨_,List.mem_singleton.mp inside⟩

theorem classOf_obliging (readTuples : PhysicalOp V → τ) (others : PhysicalOp V → Behaviour (Option τ))
    (pOp : PhysicalOp V) (fed : completesOnProducers pOp.type = true → pOp.producers ≠ [])
    (type : relays pOp.type = true ∨ (pOp.type = .s3Get ∨ pOp.type = .s3Select) ∧ pOp.producers = []) :
    Obliging Traffic.any pOp (classOf readTuples others pOp) := by
  rcases type with type | ⟨type | type,first⟩
  · have waits : completesOnProducers pOp.type = true := by
      cases known : pOp.type <;> simp [known,relays] at type <;> rfl
    unfold classOf
    cases known : pOp.type <;> simp [known,relays] at type <;> exact relay_obliging _ _ _ (fed waits)
  · unfold classOf
    rw [type]
    exact scan_obliging _ _ _ first
  · unfold classOf
    rw [type]
    exact scan_obliging _ _ _ first

section Transformed
variable {w : Wiring (PhysicalOp V)} {plan : List (PhysicalOp V)}

def Sets (plan : List (PhysicalOp V)) : Prop := ∀ pOp ∈ plan, pOp.producers.Nodup ∧ pOp.consumers.Nodup

theorem nodup_emplace {names : List String} (once : names.Nodup) (name : String) :
    (PhysicalOp.emplace names name).Nodup := by
  unfold PhysicalOp.emplace
  split
  next => exact once
  next new => exact List.nodup_append.mpr ⟨once,List.nodup_singleton _,fun other inside last same both =>
      new (by rw [List.mem_singleton.mp same] at both; exact both ▸ inside)⟩

theorem Sets.modify {change : PhysicalOp V → PhysicalOp V} (sets : Sets plan)
    (keeps : ∀ pOp, pOp.producers.Nodup ∧ pOp.consumers.Nodup → (change pOp).producers.Nodup ∧
      (change pOp).consumers.Nodup)
    (i : Nat) : Sets (plan.modify i change) := by
  intro pOp inside
  obtain ⟨j,bound,rfl⟩ := List.mem_iff_getElem.mp inside
  rw [List.getElem_modify]
  rw [List.length_modify] at bound
  have kept := sets _ (List.getElem_mem bound)
  split
  next => exact keeps _ kept
  next => exact kept

theorem Sets.connect (sets : Sets plan) (edge : Nat × Nat) : Sets (connect plan edge) := by
  refine Sets.modify (Sets.modify sets ?_ _) ?_ _
  · exact fun pOp kept => ⟨kept.1,nodup_emplace kept.2 _⟩
  · exact fun pOp kept => ⟨nodup_emplace kept.1 _,kept.2⟩

theorem Sets.foldl_connect (sets : Sets plan) (edges : List (Nat × Nat)) :
    Sets (edges.foldl Transform.connect plan) := by
  induction edges generalizing plan with
  | nil => exact sets
  | cons edge edges ih => exact ih (sets.connect edge)

theorem wired_of_transform {transformer : PrePToPTransformer E} {rootOp : PrePhysicalOp E} (distinct : rootOp.ids.Nodup)
    (positive : 0 < transformer.degree) {outputColumnNames : List String}
    (ok : transformer.transform rootOp outputColumnNames = .ok plan)
    (supplied : transformer.Supplied rootOp ∧ transformer.Sends rootOp) : Wired plan := by
  refine ⟨?_,?_⟩
  · obtain ⟨made,same,wellFormed⟩ := PrePToPTransformer.transform_spec transformer distinct positive outputColumnNames
    obtain rfl := Except.ok.inj (same.symm.trans ok)
    exact wellFormed.mpr supplied
  · obtain ⟨res,made,w,same,sound,_⟩ := @PrePToPTransformer.transformDfs_spec V E transformer rootOp distinct positive
    have first : Sets res.allPOps := by
      rw [same]
      refine Sets.foldl_connect ?_ _
      intro pOp inside
      rw [(sound.bare pOp inside).1,(sound.bare pOp inside).2]
      exact ⟨List.nodup_nil,List.nodup_nil⟩
    rw [PrePToPTransformer.transform,made] at ok
    rw [← Except.ok.inj ok]
    refine Sets.foldl_connect ?_ _
    intro pOp inside
    rcases List.mem_append.mp inside with old | last
    · exact first pOp old
    · rw [List.mem_singleton.mp last]
      exact ⟨List.nodup_nil,List.nodup_nil⟩

end Transformed

/-- A query of scans on start and operators that relay is over in every order of its messages. -/
theorem relayed_query_ends {transformer : PrePToPTransformer E} {rootOp : PrePhysicalOp E} (distinct : rootOp.ids.Nodup)
    (positive : 0 < transformer.degree) {outputColumnNames : List String} {plan : List (PhysicalOp V)}
    (ok : transformer.transform rootOp outputColumnNames = .ok plan)
    (supplied : transformer.Supplied rootOp ∧ transformer.Sends rootOp)
    (types : ∀ pOp ∈ plan, relays pOp.type = true ∨ (pOp.type = .s3Get ∨ pOp.type = .s3Select) ∧ pOp.producers = [])
    (readTuples : PhysicalOp V → τ) (others : PhysicalOp V → Behaviour (Option τ)) :
    (∀ channels configuration, Run Delivers (initial (execution plan readTuples others).nodes) channels configuration →
      Execution.Safe configuration ∧ (configuration.Quiet → Execution.Ended configuration)) ∧
    ¬∃ configurations : Nat → Configuration (execution plan readTuples others).nodes,
      configurations 0 = initial (execution plan readTuples others).nodes ∧
        ∀ n, ∃ channel, Delivers (configurations n) channel (configurations (n+1)) := by
  have wired := wired_of_transform distinct positive ok supplied
  have obliging : ∀ pOp ∈ plan, Obliging Traffic.any pOp (classOf readTuples others pOp) := fun pOp inside =>
    classOf_obliging readTuples others pOp (wired.wellFormed.fed pOp inside) (types pOp inside)
  have wired' : Wired (execution plan readTuples others).physicalPlan := wired
  refine ⟨fun channels configuration run => ⟨?_,fun quiet => ?_⟩,?_⟩
  · exact Execution.safe_of_run wired' obliging run
  · exact Execution.ended_of_quiet wired' obliging run quiet
  · exact Execution.no_endless_run wired' obliging

section Examples

def joined : PrePhysicalOp Unit :=
  .hashJoin 0 ["d_year"] ["d_year"] ["d_year"] (.filterableScan 1 ["d_year"] dates none)
    (.filterableScan 2 ["d_year"] dates none)

/-- Without shuffles. -/
def single : PrePToPTransformer Unit := {pruning with parallelDegree := 1}

def joinedPlan : List (PhysicalOp plainValues) :=
  let left := "S3Select[1]-ssb/dates.csv"
  let right := "S3Select[2]-ssb/dates.csv"
  let build := "HashJoinBuild[0]-d_year-d_year-0"
  let probe := "HashJoinProbe[0]-d_year-d_year-0"
  [⟨left,.s3Select,["d_year"],0,0,none,[],[build]⟩,⟨right,.s3Select,["d_year"],0,0,none,[],[probe]⟩,
    ⟨build,.hashJoinBuild,["d_year"],0,0,none,[left],[probe]⟩,⟨probe,.hashJoinProbe,["d_year"],0,0,none,[build,right],
      ["collate"]⟩,
    ⟨"collate",.collate,["d_year"],0,0,none,[probe],[]⟩]

theorem joined_transform : single.transform joined ["d_year"] = .ok joinedPlan := rfl

theorem joined_supplied : single.Supplied joined ∧ single.Sends joined := ⟨⟨List.cons_ne_nil _ _,trivial,trivial⟩,
      trivial⟩

theorem joined_wired : Wired joinedPlan := wired_of_transform (by decide) (by decide) joined_transform joined_supplied

abbrev joinedExecution : Execution plainValues (Option Nat) := execution joinedPlan (fun _ => 7) fun _ => SortPOp

theorem joined_types : ∀ pOp ∈ joinedPlan,
    relays pOp.type = true ∨ (pOp.type = .s3Get ∨ pOp.type = .s3Select) ∧ pOp.producers = [] := by
  intro pOp inside
  simp only [joinedPlan,List.mem_cons,List.not_mem_nil,or_false] at inside
  rcases inside with rfl | rfl | rfl | rfl | rfl
  · exact .inr ⟨.inr rfl,rfl⟩
  · exact .inr ⟨.inr rfl,rfl⟩
  · exact .inl rfl
  · exact .inl rfl
  · exact .inl rfl

theorem joined_obliging : ∀ pOp ∈ joinedPlan, Obliging Traffic.any pOp (joinedExecution.behaviour pOp) :=
    fun pOp inside =>
  classOf_obliging _ _ _ (joined_wired.wellFormed.fed pOp inside) (joined_types pOp inside)

/-- The scan of the right side is over before that of the left side is started. -/
def deliveries : List (Party 5 × Party 5) :=
  let left := .operator ⟨0,by decide⟩
  let right := .operator ⟨1,by decide⟩
  let build := .operator ⟨2,by decide⟩
  let probe := .operator ⟨3,by decide⟩
  let collate := .operator ⟨4,by decide⟩
  [(.start,collate),(.start,collate),(.start,probe),(.start,probe),(.start,build),(.start,build),(.start,right),
    (.start,right),
    (right,probe),(probe,collate),(right,probe),(right,.join),(.start,left),(.start,left),(left,build),(build,probe),
    (probe,collate),(left,build),(build,probe),(probe,collate),(collate,.join),(probe,.join),(build,.join),(left,.join)]

def returned (configuration : Configuration joinedExecution.nodes) : Bool :=
  (Execution.root configuration).returned.any fun result => result.toBool

def settled (configuration : Configuration joinedExecution.nodes) : Bool :=
  decide (∀ sender recipient : Party 5, (configuration.pending sender recipient).isNone = true)

theorem joined_reached : ∃ configuration, Run Delivers (initial joinedExecution.nodes) deliveries configuration ∧
    returned configuration = true ∧ configuration.Quiet := by
  obtain ⟨configuration,run,checked⟩ := @exists_run _ _ _ joinedExecution.nodes deliveries
    (fun configuration => returned configuration && settled configuration) (by decide)
  obtain ⟨back,still⟩ := Bool.and_eq_true_iff.mp checked
  refine ⟨configuration,run,back,fun sender recipient => ?_⟩
  exact Option.isNone_iff_eq_none.mp (of_decide_eq_true still sender recipient)

theorem joined_safe : ∃ configuration, Run Delivers (initial joinedExecution.nodes) deliveries configuration ∧
    returned configuration = true ∧ Execution.Safe configuration := by
  obtain ⟨configuration,run,back,_⟩ := joined_reached
  exact ⟨configuration,run,back,(Execution.execution_safe joined_wired joined_obliging run).1⟩

theorem joined_ends : ∃ configuration, Run Delivers (initial joinedExecution.nodes) deliveries configuration ∧
    Execution.Ended configuration := by
  obtain ⟨configuration,run,_,quiet⟩ := joined_reached
  exact ⟨configuration,run,(Execution.execution_ends joined_wired joined_obliging).2 _ _ run quiet⟩

theorem joined_relayed : ∃ configuration, Run Delivers (initial joinedExecution.nodes) deliveries configuration ∧
    Execution.Ended configuration := by
  obtain ⟨configuration,run,_,quiet⟩ := joined_reached
  exact ⟨configuration,run,((relayed_query_ends (by decide) (by decide) joined_transform joined_supplied joined_types
    (fun _ => 7) fun _ => SortPOp).1 _ _ run).2 quiet⟩

end Examples
end Hermes.Executor
