import Hermes.PartitionMerge
import Mathlib.Data.List.Dedup
import Mathlib.Data.List.TakeWhile

/-! What the hybrid scan of a partition emits once no message is on its way, in whatever
order the messages came. -/
namespace Hermes.HybridScan
open Hermes.Tuples Hermes.Operators Hermes.Library.Network Hermes.Library.Transition
variable {ν : Type}

def CacheOnly (acts : List (Act (Message ν))) : Prop := ∀ act ∈ acts, ∃ message, act = .send "SegmentCache" message

theorem afterRead_eq (op : S3SelectPOp ν) (ctx : POpContext Unit (Message ν)) (readTupleSet : Table ν) :
    ∃ acts, CacheOnly acts ∧ op.afterRead ctx readTupleSet = ctx.record acts := by
  have none : ∃ acts, CacheOnly acts ∧ ctx = ctx.record (acts : List (Act (Message ν))) :=
    ⟨[],fun _ inside => absurd inside List.not_mem_nil,ctx.record_nil.symm⟩
  have one : ∀ message, ∃ acts, CacheOnly acts ∧ sendToCache ctx message = ctx.record acts := fun message =>
    ⟨_,fun _ inside => ⟨message,List.mem_singleton.mp inside⟩,rfl⟩
  unfold S3SelectPOp.afterRead
  split
  next => exact none
  next =>
    split
    next => exact one _
    next =>
      split
      next => exact one _
      next => exact none

/-- What `S3SelectPOp` answers a scan message with. -/
def S3SelectPOp.answer (op : S3SelectPOp ν) (columnNames : List String) (resultNeeded : Bool) : Table ν :=
  if resultNeeded then (op.processScanMessage columnNames).whole else .empty

theorem onScan_eq {op : S3SelectPOp ν} (start : op.startOffset = 0) (finish : op.finishOffset = op.partition.numBytes)
    {ctx : POpContext Unit (Message ν)} (incomplete : ctx.complete = false) (columnNames : List String)
    (resultNeeded : Bool) :
    ∃ before after, CacheOnly before ∧ CacheOnly after ∧ op.onCacheLoadResponse ctx columnNames resultNeeded =
      ⟨op.processScanMessage columnNames,{ctx.record (before ++ [.tell (.tuple (some (op.answer columnNames resultNeeded))),
        .notifyComplete] ++ after) with complete := true},none⟩ := by
  have read := readTuples_whole (op.processScanMessage columnNames) start finish
  have none : CacheOnly ([] : List (Act (Message ν))) := fun _ inside => absurd inside List.not_mem_nil
  unfold S3SelectPOp.onCacheLoadResponse S3SelectPOp.answer
  dsimp only
  cases resultNeeded with
  | true =>
    obtain ⟨before,cacheOnly,sends⟩ := afterRead_eq (op.processScanMessage columnNames) ctx
      (op.processScanMessage columnNames).whole
    refine ⟨before,[],cacheOnly,none,?_⟩
    rw [if_pos rfl,if_pos rfl,S3SelectPOp.readAndSendTuples,read]
    dsimp only
    rw [sends,POpContext.tell_incomplete (ctx.record before) incomplete,POpContext.record_record,
      POpContext.notifyComplete_incomplete (ctx.record _) incomplete,POpContext.record_record,List.append_nil,
      List.append_assoc]
    rfl
  | false =>
    obtain ⟨later,cacheOnly,sends⟩ := afterRead_eq (op.processScanMessage columnNames)
      (ctx.tell (.tuple (some .empty))).notifyComplete (op.processScanMessage columnNames).whole
    refine ⟨[],later,none,cacheOnly,?_⟩
    rw [if_neg Bool.false_ne_true,if_neg Bool.false_ne_true,read]
    dsimp only
    rw [sends,POpContext.tell_incomplete ctx incomplete,POpContext.notifyComplete_incomplete (ctx.record _) incomplete]
    simp [POpContext.record]

theorem scanned {op : S3SelectPOp ν} (start : op.startOffset = 0) (finish : op.finishOffset = op.partition.numBytes)
    {ctx : POpContext Unit (Message ν)} (incomplete : ctx.complete = false) {open' : String → Prop}
    (awaiting : ctx.operatorMap.Awaiting open') {sender : String} (isOpen : open' sender) (columnNames : List String)
    (resultNeeded : Bool) :
    ∃ before after, CacheOnly before ∧ CacheOnly after ∧
      ((Process.receive S3SelectPOp.onReceive (Process.receive S3SelectPOp.onReceive ⟨op,ctx,none⟩
        (.content sender (.scan columnNames resultNeeded))) (.complete sender)).fault = none ∧
      (Process.receive S3SelectPOp.onReceive (Process.receive S3SelectPOp.onReceive ⟨op,ctx,none⟩
        (.content sender (.scan columnNames resultNeeded))) (.complete sender)).ctx.acts = ctx.acts ++
          (before ++ [.tell (.tuple (some (op.answer columnNames resultNeeded))),.notifyComplete] ++ after)) := by
  obtain ⟨before,later,cacheOnly,cacheOnly',answered⟩ := onScan_eq start finish incomplete columnNames resultNeeded
  refine ⟨before,later,cacheOnly,cacheOnly',?_⟩
  have first : Process.receive S3SelectPOp.onReceive ⟨op,ctx,none⟩ (.content sender (.scan columnNames resultNeeded)) =
      op.onCacheLoadResponse ctx columnNames resultNeeded := rfl
  rw [first,answered,Process.receive_complete rfl (awaiting.setComplete sender isOpen).1]
  exact ⟨rfl,rfl⟩

namespace PartitionScan
variable (plan : PartitionScan ν)

/-- A name up to the bracket after it. -/
def kindOf : HybridPOp → String
  | .segmentCache => "SegmentCache"
  | .cacheLoad => "CacheLoad"
  | .scan => "S3Select(cache)"
  | .merge1 => "merge1"
  | .filter => "Filter"
  | .select => "S3Select(pushdown)"
  | .merge2 => "merge2"
  | .downstream => "downstream"

theorem suffix_toList : ∃ rest, plan.suffix.toList = '['::rest := by
  rw [suffix,String.toList_append,String.toList_append,String.toList_append,String.toList_append,String.toList_append]
  exact ⟨_,rfl⟩

theorem takeWhile_kind (kind : String) (plain : kind.toList.all fun c => c ≠ '[') :
    (kind ++ plan.suffix).toList.takeWhile (fun c => decide (c ≠ '[')) = kind.toList := by
  obtain ⟨rest,bracket⟩ := plan.suffix_toList
  rw [String.toList_append,bracket,List.takeWhile_append_of_pos (by simpa using plain),
    List.takeWhile_cons_of_neg (by simp),
    List.append_nil]

theorem name_kind (op : HybridPOp) :
    (plan.name op).toList.takeWhile (fun c => decide (c ≠ '[')) = (kindOf op).toList := by
  cases op with
  | segmentCache =>
    show "SegmentCache".toList.takeWhile (fun c => decide (c ≠ '[')) = "SegmentCache".toList
    decide
  | cacheLoad => exact plan.takeWhile_kind "CacheLoad" (by decide)
  | scan => exact plan.takeWhile_kind "S3Select(cache)" (by decide)
  | merge1 => exact plan.takeWhile_kind "merge1" (by decide)
  | filter => exact plan.takeWhile_kind "Filter" (by decide)
  | select => exact plan.takeWhile_kind "S3Select(pushdown)" (by decide)
  | merge2 => exact plan.takeWhile_kind "merge2" (by decide)
  | downstream => exact plan.takeWhile_kind "downstream" (by decide)

theorem kindOf_injective : Function.Injective kindOf := by
  intro op other same
  cases op <;> cases other <;> first | rfl | exact absurd same (by decide)

theorem name_injective : Function.Injective plan.name := by
  intro op other same
  have kinds := plan.name_kind op
  rw [same,plan.name_kind other] at kinds
  exact kindOf_injective (String.toList_injective kinds.symm)

theorem awaiting_operatorMap (op : HybridPOp) :
    (plan.operatorMap op).Awaiting fun name => name ∈ (plan.producers op).map plan.name := by
  have producersOnce : (plan.producers op).Nodup := by
    cases op <;> simp only [producers,localResult] <;> first | decide | (split <;> decide)
  have consumersOnce : (plan.consumers op).Nodup := by
    cases op <;> simp only [consumers] <;> first | decide | (split <;> decide)
  have apart : ∀ consumer ∈ plan.consumers op, consumer ∉ plan.producers op := by
    cases op <;> simp only [consumers,producers,localResult] <;> first | decide | (split <;> decide)
  have producing : ((plan.producers op).foldl (fun (directory : LocalPOpDirectory Unit) producer =>
      (directory.insert ⟨plan.name producer,(),.producer,false⟩).1) .make).Awaiting fun name =>
        name ∈ (plan.producers op).map plan.name ∨ False :=
    awaiting_producers _ LocalPOpDirectory.awaiting_make ((List.nodup_map_iff plan.name_injective).mpr producersOnce)
      (by simp [LocalPOpDirectory.make])
  simp only [or_false] at producing
  apply awaiting_consumers _ producing ((List.nodup_map_iff plan.name_injective).mpr consumersOnce)
  intro name inside
  obtain ⟨consumer,member,rfl⟩ := List.mem_map.mp inside
  rw [mem_names_connect,not_or]
  refine ⟨?_,by simp [LocalPOpDirectory.make]⟩
  rw [List.mem_map_of_injective plan.name_injective]
  exact apart consumer member

theorem connected_operatorMap {op recipient : HybridPOp} (connected : recipient ∈ plan.consumers op) :
    ((plan.operatorMap op).entryOf (plan.name recipient)).isSome = true := by
  rw [entryOf_isSome,operatorMap,mem_names_connect]
  exact .inl (List.mem_map_of_mem connected)

/-- The columns that are hit, those that are read for the cache, and those that are pushed down. -/
def hits : List String := plan.projPredColumnNames.filter plan.cached

def toCache : List String := (plan.projPredColumnNames.filter fun key => !plan.cached key).filter plan.mayCache

def needed : Bool := plan.cacheLoadPOp.cachingResultNeeded plan.hits plan.toCache

def pushed : List String :=
  if plan.needed then plan.cacheLoadPOp.missedPushdownColumnNames plan.hits plan.toCache else plan.projectColumnNames

theorem send_connected {γ : Type} {ctx : POpContext Unit γ} {recipientId : String}
    (connected : (ctx.operatorMap.entryOf recipientId).isSome = true) (message : γ) :
    ctx.send message recipientId = ctx.record [.send recipientId message] := by
  obtain ⟨entry,found⟩ := Option.isSome_iff_exists.mp connected
  rw [POpContext.send,found]

theorem send_more {γ : Type} {ctx : POpContext Unit γ} {recipientId : String}
    (connected : (ctx.operatorMap.entryOf recipientId).isSome = true) (acts : List (Act γ)) (message : γ) :
    (ctx.record acts).send message recipientId = ctx.record (acts ++ [.send recipientId message]) := by
  rw [← POpContext.record_record]
  exact @send_connected γ (ctx.record acts) recipientId connected message

/-- What `CacheLoadPOp` does with an answer. -/
def responseActs (segments segmentKeysToCache : List String) : List (Act (Message ν)) :=
  let needed := plan.cacheLoadPOp.cachingResultNeeded segments segmentKeysToCache
  [.send (plan.name .merge1) (.tuple (some (plan.cacheLoadPOp.hitTupleSet segments segmentKeysToCache))),
    .send (plan.name .scan) (.scan segmentKeysToCache needed),
    .send (plan.name .select) (.scan (if needed then plan.cacheLoadPOp.missedPushdownColumnNames segments segmentKeysToCache
      else plan.projectColumnNames) true),
    .send "SegmentCache" (plan.cacheLoadPOp.metrics segments segmentKeysToCache),
    .notifyComplete]

theorem onCacheLoadResponse_acts {ctx : POpContext Unit (Message ν)} (incomplete : ctx.complete = false)
    (connected : ∀ recipient ∈ plan.consumers .cacheLoad, (ctx.operatorMap.entryOf (plan.name recipient)).isSome = true)
    (segments segmentKeysToCache : List String) :
    plan.cacheLoadPOp.onCacheLoadResponse ctx segments segmentKeysToCache =
      ⟨plan.cacheLoadPOp,{ctx.record (plan.responseActs segments segmentKeysToCache) with complete := true},none⟩ := by
  simp only [consumers,List.mem_cons,List.not_mem_nil,or_false,forall_eq_or_imp,forall_eq] at connected
  obtain ⟨merge1,scan,select⟩ := connected
  unfold CacheLoadPOp.onCacheLoadResponse
  dsimp only [cacheLoadPOp] at merge1 scan select ⊢
  rw [send_connected merge1,send_more scan,send_more select,sendToCache,POpContext.record_record,
    POpContext.notifyComplete_incomplete (ctx.record _) (by exact incomplete),POpContext.record_record]
  rfl

/-- The state of `CacheLoadPOp` after an answer. -/
def responded (segments segmentKeysToCache : List String) : Process (CacheLoadPOp ν) Unit (Message ν) where
  operator := plan.cacheLoadPOp
  ctx := {(plan.ctx .cacheLoad).record (.send "SegmentCache" (.loadRequest plan.projPredColumnNames)::
    plan.responseActs segments segmentKeysToCache) with complete := true}
  fault := none

theorem cacheLoad_responded (sender : HybridPOp) (segments segmentKeysToCache : List String) :
    plan.receive .cacheLoad (plan.start .cacheLoad) sender (.loadResponse segments segmentKeysToCache) =
      plan.responded segments segmentKeysToCache :=
  @onCacheLoadResponse_acts ν plan
    ((plan.ctx .cacheLoad).record [.send "SegmentCache" (.loadRequest plan.projPredColumnNames)]) rfl
    (fun _ => plan.connected_operatorMap) segments segmentKeysToCache

/-- What `CacheLoadPOp` does with its answer. -/
def answerActs : List (Act (Message ν)) :=
  [.send (plan.name .merge1) (.tuple (some (plan.cacheLoadPOp.hitTupleSet plan.hits plan.toCache))),
    .send (plan.name .scan) (.scan plan.toCache plan.needed),
    .send (plan.name .select) (.scan plan.pushed true),
    .send "SegmentCache" (plan.cacheLoadPOp.metrics plan.hits plan.toCache),
    .notifyComplete]

/-- The state of `CacheLoadPOp` once it has its answer. -/
def cacheLoadAnswered : Process (CacheLoadPOp ν) Unit (Message ν) where
  operator := plan.cacheLoadPOp
  ctx := {(plan.ctx .cacheLoad).record (.send "SegmentCache" (.loadRequest plan.projPredColumnNames)::plan.answerActs) with
    complete := true}
  fault := none

theorem cacheLoad_answered (sender : HybridPOp) :
    plan.receive .cacheLoad (plan.start .cacheLoad) sender (load plan.cached plan.mayCache plan.projPredColumnNames) =
      plan.cacheLoadAnswered :=
  plan.cacheLoad_responded sender plan.hits plan.toCache

end PartitionScan

section
variable {γ : Type} {message : γ → Message ν} {name : String} {acts : List (Act γ)}

theorem reaching_silent (silent : ∀ content, .notifyError content ∉ acts) (connected : Bool) :
    reaching message connected name acts = acts.flatMap (sentBy message connected name) := by
  rw [reaching,List.takeWhile_eq_self_iff.mpr]
  intro act inside
  cases act with
  | notifyError content => exact absurd inside (silent content)
  | tell content => rfl
  | send recipientId content => rfl
  | notifyComplete => rfl

theorem reaching_unconnected : reaching message false name acts = [] := by
  rw [reaching,List.flatMap_eq_nil_iff]
  intro act inside
  cases act <;> simp [sentBy]

end

theorem CacheOnly.silent {acts : List (Act (Message ν))} (cacheOnly : CacheOnly acts) (content : String) :
    .notifyError content ∉ acts := by
  intro inside
  obtain ⟨message,wrong⟩ := cacheOnly _ inside
  cases wrong

theorem CacheOnly.unheard {acts : List (Act (Message ν))} (cacheOnly : CacheOnly acts) {name : String}
    (other : "SegmentCache" ≠ name) (connected : Bool) : acts.flatMap (sentBy id connected name) = [] := by
  rw [List.flatMap_eq_nil_iff]
  intro act inside
  obtain ⟨message,rfl⟩ := cacheOnly act inside
  simp [sentBy,other]

/-- A merge sees what an operator sends it as a tuple set or as the end of that operator. -/
def tupleWaiting (sender : String) : Message ν → Waiting (TupleSet ν)
  | .tuple tuples => .content sender tuples
  | _ => .complete sender

/-- What a merge hears from its two producers: a table and the end from each. -/
structure TwoTables (history : List (HybridPOp × Message ν)) (l r : HybridPOp) (left right : Table ν) : Prop where
  distinct : l ≠ r
  lefts : heardFrom l history = [.tuple (some left),.complete]
  rights : heardFrom r history = [.tuple (some right),.complete]
  others : ∀ sender, sender ≠ l → sender ≠ r → heardFrom sender history = []

theorem mem_heardFrom {sender : HybridPOp} {message : Message ν} {history : List (HybridPOp × Message ν)} :
    message ∈ heardFrom sender history ↔ (sender,message) ∈ history := by
  simp [heardFrom]

namespace TwoTables
variable {history : List (HybridPOp × Message ν)} {l r : HybridPOp} {left right : Table ν}

theorem senders (two : TwoTables history l r left right) {heard : HybridPOp × Message ν} (inside : heard ∈ history) :
    heard.1 = l ∨ heard.1 = r := by
  by_contra neither
  rw [not_or] at neither
  have member := mem_heardFrom.mpr inside
  rw [two.others heard.1 neither.1 neither.2] at member
  exact List.not_mem_nil member

theorem contents (two : TwoTables history l r left right) {heard : HybridPOp × Message ν} (inside : heard ∈ history) :
    (∃ table, heard.2 = .tuple (some table)) ∨ heard.2 = .complete := by
  have member := mem_heardFrom.mpr inside
  obtain same | same := two.senders inside
  · rw [same,two.lefts,List.mem_pair] at member
    exact member.imp (fun equal => ⟨left,equal⟩) id
  · rw [same,two.rights,List.mem_pair] at member
    exact member.imp (fun equal => ⟨right,equal⟩) id

theorem first_is_table (two : TwoTables history l r left right) {earlier later : HybridPOp × Message ν}
    (order : [earlier,later].Sublist history) (same : later.1 = earlier.1) : earlier.2 ≠ .complete := by
  have both : [earlier.2,later.2].Sublist (heardFrom earlier.1 history) := by
    have kept := (order.filter fun heard => decide (heard.1 = earlier.1)).map Prod.snd
    simpa [same,heardFrom] using kept
  obtain side | side := two.senders (order.subset List.mem_cons_self)
  · rw [side,two.lefts] at both
    have equal := both.eq_of_length rfl
    rw [(List.cons.inj equal).1]
    exact fun wrong => by cases wrong
  · rw [side,two.rights] at both
    have equal := both.eq_of_length rfl
    rw [(List.cons.inj equal).1]
    exact fun wrong => by cases wrong

variable {nameOf : HybridPOp → String}

theorem sent_eq (injective : Function.Injective nameOf) (sender : HybridPOp) (history : List (HybridPOp × Message ν)) :
    Operators.sent (nameOf sender) (history.map fun heard => tupleWaiting (nameOf heard.1) heard.2) =
      (heardFrom sender history).filterMap fun message =>
        match message with
        | .tuple tuples => some tuples
        | _ => none := by
  induction history with
  | nil => rfl
  | cons heard history ih =>
    obtain ⟨other,message⟩ := heard
    rw [List.map_cons,← List.singleton_append,sent_append,ih]
    by_cases same : other = sender
    · subst same
      cases message <;> simp [heardFrom,tupleWaiting,Operators.sent]
    · have differ : nameOf other ≠ nameOf sender := fun equal => same (injective equal)
      cases message <;> simp [heardFrom,tupleWaiting,Operators.sent,same,differ]

theorem produced (injective : Function.Injective nameOf) (two : TwoTables history l r left right) :
    FromProducers (fun name => name = nameOf l ∨ name = nameOf r)
      (history.map fun heard => tupleWaiting (nameOf heard.1) heard.2) := by
  have named : ∀ heard : HybridPOp × Message ν, (tupleWaiting (nameOf heard.1) heard.2).sender = nameOf heard.1 := by
    rintro ⟨sender,message⟩
    cases message <;> rfl
  refine ⟨?_,?_⟩
  · intro message inside
    obtain ⟨heard,member,rfl⟩ := List.mem_map.mp inside
    rw [named]
    exact (two.senders member).imp (congrArg nameOf) (congrArg nameOf)
  · rw [List.pairwise_map,List.pairwise_iff_forall_sublist]
    intro earlier later order sender ended same
    rw [named] at same
    have ender : earlier.2 = .complete ∧ nameOf earlier.1 = sender := by
      obtain ⟨table,content⟩ | content := two.contents (order.subset List.mem_cons_self)
      · rw [content] at ended
        cases ended
      · rw [content] at ended
        exact ⟨content,by injection ended⟩
    exact two.first_is_table order (injective (same.trans ender.2.symm)) ender.1

theorem finished (two : TwoTables history l r left right) (nameOf : HybridPOp → String) :
    Finished (fun name => name = nameOf l ∨ name = nameOf r)
    (history.map fun heard => tupleWaiting (nameOf heard.1) heard.2) := by
  have ends : ∀ sender, .complete ∈ heardFrom sender history → (.complete (nameOf sender) : Waiting (TupleSet ν)) ∈
      history.map fun heard => tupleWaiting (nameOf heard.1) heard.2 := fun sender inside =>
    List.mem_map.mpr ⟨_,mem_heardFrom.mp inside,rfl⟩
  rintro name (rfl | rfl)
  · exact ends l (by rw [two.lefts]; simp)
  · exact ends r (by rw [two.rights]; simp)

theorem merged (two : TwoTables history l r left right) (start : Process (MergePOp ν) Unit (Table ν)) :
    history.foldl (fun process heard => mergeReceive process (nameOf heard.1) heard.2) start =
      start.run MergePOp.onReceive (history.map fun heard => tupleWaiting (nameOf heard.1) heard.2) := by
  have contents : ∀ heard ∈ history, (∃ table, heard.2 = .tuple (some table)) ∨ heard.2 = .complete :=
      fun _ => two.contents
  clear two
  induction history generalizing start with
  | nil => rfl
  | cons heard history ih =>
    obtain ⟨sender,message⟩ := heard
    have later := ih (mergeReceive start (nameOf sender) message) fun other inside =>
      contents other (List.mem_cons_of_mem _ inside)
    rw [List.foldl_cons,later,List.map_cons,Process.run,Process.run,List.foldl_cons]
    obtain ⟨table,rfl⟩ | rfl := contents _ List.mem_cons_self
    · rfl
    · rfl

theorem parts (injective : Function.Injective nameOf) {partition : S3Partition ν} {columnNames others : List String}
    (two : TwoTables history l r (partition.part columnNames) (partition.part others))
    {start : Process (MergePOp ν) Unit (Table ν)} (fresh : Started start)
    (left : start.operator.leftProducerName = nameOf l) (right : start.operator.rightProducerName = nameOf r)
    (known : ∀ columnName ∈ columnNames ++ others, columnName ∈ partition.columnNames)
    (asked : ∀ columnName ∈ start.operator.projectColumnNames, columnName ∈ partition.columnNames)
    (unique : (columnNames ++ others).Nodup) :
    if (start.operator.projectColumnNames.filter fun columnName => decide (columnName ∈ columnNames ++ others)).isEmpty then
      (history.foldl (fun process heard => mergeReceive process (nameOf heard.1) heard.2) start).fault.isSome = true
    else
      (history.foldl (fun process heard => mergeReceive process (nameOf heard.1) heard.2) start).fault = none ∧
      (history.foldl (fun process heard => mergeReceive process (nameOf heard.1) heard.2) start).ctx.acts =
        [.tell (partition.part (start.operator.projectColumnNames.filter fun columnName =>
          decide (columnName ∈ columnNames ++ others))),.notifyComplete] := by
  have lefts := sent_eq injective l history
  have rights := sent_eq injective r history
  rw [two.lefts,← left] at lefts
  rw [two.rights,← right] at rights
  have produced := two.produced injective
  have finished := two.finished nameOf
  have producer : (fun name => name = nameOf l ∨ name = nameOf r) = start.operator.Producer := by
    funext name
    rw [MergePOp.Producer,left,right]
  rw [producer] at produced
  rw [producer] at finished
  have apart : ∀ columnName ∈ columnNames, columnName ∉ others := fun columnName inside outside =>
    (List.nodup_append.mp unique).2.2 columnName inside columnName outside rfl
  have combined := S3Partition.merge_parts (fun columnName inside => known columnName (List.mem_append_left _ inside))
    (fun columnName inside => known columnName (List.mem_append_right _ inside)) apart
  have projection := S3Partition.project_part known asked unique
  rw [two.merged start]
  split
  next none =>
    rw [if_pos none] at projection
    exact merge_fails fresh produced lefts rights combined projection
  next some =>
    rw [if_neg some] at projection
    exact merge_told fresh produced lefts rights finished combined projection

end TwoTables

def Process.Silent {σ γ : Type} (process : Process σ Unit γ) : Prop :=
  process.fault = none ∧ ∀ content, .notifyError content ∉ process.ctx.acts

def NoError : ∀ op, State ν op → Prop
  | .segmentCache,_ => True
  | .cacheLoad,process => Process.Silent process
  | .scan,process => Process.Silent process
  | .merge1,process => Process.Silent process
  | .filter,process => Process.Silent process
  | .select,process => Process.Silent process
  | .merge2,process => Process.Silent process
  | .downstream,_ => True

namespace PartitionScan
variable (plan : PartitionScan ν)

def expected : Table ν :=
  plan.partition.cut (fun record => (plan.predicate.map fun predicate => predicate.holds record.2).getD true)
    plan.projectColumnNames

/-- No operator reports an error, and what is emitted is the expected table. -/
structure Exact (configuration : Configuration plan.nodes) : Prop where
  noError : ∀ op, NoError op (configuration.states op)
  emitted : ∃ tables : List (Table ν),
    plan.sent .merge2 (configuration.states .merge2) .downstream =
      tables.map (fun table => .tuple (some table)) ++ [.complete] ∧
    (∀ table ∈ tables, table.fields = plan.expected.fields) ∧ tables.flatMap Table.rows = plan.expected.rows

theorem sent_unconnected {op : HybridPOp} (state : State ν op) {recipient : HybridPOp}
    (apart : recipient ∉ plan.consumers op)
    (other : op = .segmentCache → recipient ≠ .cacheLoad) : plan.sent op state recipient = [] := by
  have unconnected : plan.connected op recipient = false := decide_eq_false apart
  cases op with
  | segmentCache => exact if_neg (other rfl)
  | downstream => rfl
  | cacheLoad | scan | merge1 | filter | select | merge2 =>
    rw [sent,unconnected]
    exact reaching_unconnected

theorem cache_name {other : HybridPOp} (differ : other ≠ .segmentCache) : "SegmentCache" ≠ plan.name other :=
    fun same =>
  differ (plan.name_injective (show plan.name other = plan.name .segmentCache from same.symm))

theorem sent_responded (segments segmentKeysToCache : List String) :
    plan.sent .cacheLoad (plan.responded segments segmentKeysToCache) .merge1 =
      [.tuple (some (plan.cacheLoadPOp.hitTupleSet segments segmentKeysToCache)),.complete] ∧
    plan.sent .cacheLoad (plan.responded segments segmentKeysToCache) .scan =
      [.scan segmentKeysToCache (plan.cacheLoadPOp.cachingResultNeeded segments segmentKeysToCache),.complete] ∧
    plan.sent .cacheLoad (plan.responded segments segmentKeysToCache) .select =
      [.scan (if plan.cacheLoadPOp.cachingResultNeeded segments segmentKeysToCache then
        plan.cacheLoadPOp.missedPushdownColumnNames segments segmentKeysToCache else plan.projectColumnNames) true,.complete] := by
  have others : ∀ other, other ≠ .segmentCache → "SegmentCache" ≠ plan.name other := fun _ => plan.cache_name
  simp only [ne_eq] at others
  simp [sent,connected,consumers,responded,responseActs,POpContext.record,ctx,reaching,sentBy,
    plan.name_injective.eq_iff,others]

theorem sent_cacheLoad : plan.sent .cacheLoad plan.cacheLoadAnswered .merge1 =
      [.tuple (some (plan.cacheLoadPOp.hitTupleSet plan.hits plan.toCache)),.complete] ∧
    plan.sent .cacheLoad plan.cacheLoadAnswered .scan = [.scan plan.toCache plan.needed,.complete] ∧
    plan.sent .cacheLoad plan.cacheLoadAnswered .select = [.scan plan.pushed true,.complete] :=
  plan.sent_responded plan.hits plan.toCache

/-- Every operator after what it has heard, and what it has heard is what was sent to it. -/
structure Settled (configuration : Configuration plan.nodes) (histories : HybridPOp → List (HybridPOp × Message ν)) :
    Prop where
  states : ∀ node, configuration.states node = after plan.nodes node (histories node)
  channels : ∀ sender recipient, heardFrom sender (histories recipient) =
    plan.sent sender (configuration.states sender) recipient

variable {plan} {configuration : Configuration plan.nodes} {histories : HybridPOp → List (HybridPOp × Message ν)}

namespace Settled

theorem unheard (settled : plan.Settled configuration histories) {sender recipient : HybridPOp}
    (apart : recipient ∉ plan.consumers sender) (other : sender = .segmentCache → recipient ≠ .cacheLoad) :
    heardFrom sender (histories recipient) = [] := by
  rw [settled.channels]
  exact plan.sent_unconnected _ apart other

theorem heard_only (settled : plan.Settled configuration histories) (sender recipient : HybridPOp)
    (only : ∀ other, other ≠ sender → recipient ∉ plan.consumers other ∧
      (other = .segmentCache → recipient ≠ .cacheLoad)) :
    histories recipient = (plan.sent sender (configuration.states sender) recipient).map (sender,·) := by
  rw [← settled.channels]
  exact eq_of_only fun other differ => settled.unheard (only other differ).1 (only other differ).2

theorem cacheLoad_state (settled : plan.Settled configuration histories) :
    configuration.states .cacheLoad = plan.cacheLoadAnswered := by
  have heard := settled.heard_only .segmentCache .cacheLoad (by
    intro other differ
    refine ⟨?_,fun same => absurd same differ⟩
    cases other <;> simp only [consumers] <;> first | decide | (split <;> decide))
  rw [settled.states,heard]
  exact plan.cacheLoad_answered .segmentCache

theorem scan_acts {op : S3SelectPOp ν} (start : op.startOffset = 0) (finish : op.finishOffset = op.partition.numBytes)
    (node : HybridPOp) (producers : plan.producers node = [.cacheLoad]) (columnNames : List String)
    (resultNeeded : Bool) :
    let process := Process.receive S3SelectPOp.onReceive (Process.receive S3SelectPOp.onReceive ⟨op,plan.ctx node,none⟩
      (waiting (plan.name .cacheLoad) (.scan columnNames resultNeeded))) (waiting (plan.name .cacheLoad) .complete)
    Process.Silent process ∧ ∀ recipient, recipient ≠ .segmentCache →
      reaching id true (plan.name recipient) process.ctx.acts =
        [.tuple (some (op.answer columnNames resultNeeded)),.complete] := by
  have awaiting := plan.awaiting_operatorMap node
  have isOpen : plan.name .cacheLoad ∈ (plan.producers node).map plan.name := by
    rw [producers]
    exact List.mem_singleton_self _
  obtain ⟨before,later,cacheOnly,cacheOnly',alive,acts⟩ := scanned start finish
    (show (plan.ctx node).complete = false from rfl) awaiting isOpen columnNames resultNeeded
  have silent : ∀ content, .notifyError content ∉ (plan.ctx node).acts ++
      (before ++ [.tell (.tuple (some (op.answer columnNames resultNeeded))),.notifyComplete] ++ later) := by
    intro content
    simp [ctx,cacheOnly.silent content,cacheOnly'.silent content]
  dsimp only [waiting]
  refine ⟨⟨alive,?_⟩,?_⟩
  · rw [acts]
    exact silent
  · intro recipient differ
    have other := plan.cache_name differ
    rw [acts,reaching_silent silent]
    simp only [List.flatMap_append,cacheOnly.unheard other,cacheOnly'.unheard other]
    rfl

theorem scan_state (settled : plan.Settled configuration histories) : NoError .scan (configuration.states .scan) ∧
    plan.sent .scan (configuration.states .scan) .merge1 =
      [.tuple (some (plan.scanPOp.answer plan.toCache plan.needed)),.complete] := by
  have heard := settled.heard_only .cacheLoad .scan (by
    intro other differ
    refine ⟨?_,fun _ => by decide⟩
    cases other <;> simp only [consumers] <;> first | decide | (split <;> decide) | exact absurd rfl differ)
  rw [settled.cacheLoad_state,plan.sent_cacheLoad.2.1] at heard
  rw [settled.states,heard]
  obtain ⟨silent,saying⟩ := @scan_acts ν plan plan.scanPOp rfl rfl .scan rfl plan.toCache plan.needed
  exact ⟨silent,saying .merge1 (by decide)⟩

theorem select_state (settled : plan.Settled configuration histories) : NoError .select (configuration.states .select) ∧
    plan.sent .select (configuration.states .select) .merge2 =
      [.tuple (some (plan.selectPOp.answer plan.pushed true)),.complete] := by
  have heard := settled.heard_only .cacheLoad .select (by
    intro other differ
    refine ⟨?_,fun _ => by decide⟩
    cases other <;> simp only [consumers] <;> first | decide | (split <;> decide) | exact absurd rfl differ)
  rw [settled.cacheLoad_state,plan.sent_cacheLoad.2.2] at heard
  rw [settled.states,heard]
  obtain ⟨silent,saying⟩ := @scan_acts ν plan plan.selectPOp rfl rfl .select rfl plan.pushed true
  exact ⟨silent,saying .merge2 (by decide)⟩

end Settled

variable (plan)

theorem mem_projPred {columnName : String} : columnName ∈ plan.projPredColumnNames ↔
    columnName ∈ plan.projectColumnNames ∨ columnName ∈ plan.predicateColumnNames := mem_union

theorem projPred_nodup : plan.projPredColumnNames.Nodup := nodup_union _ _

theorem projPred_known {columnName : String} (inside : columnName ∈ plan.projPredColumnNames) :
    columnName ∈ plan.partition.columnNames :=
  (plan.mem_projPred.mp inside).elim (plan.projected columnName) (plan.involved columnName)

def cachedColumns : List String := if plan.needed then plan.hits else []

def readColumns : List String := if plan.needed && !plan.partition.records.isEmpty then plan.toCache else []

def localColumns : List String :=
  plan.projPredColumnNames.filter fun columnName => decide (columnName ∈ plan.cachedColumns ++ plan.readColumns)

theorem hitColumnNames_hits : plan.cacheLoadPOp.hitColumnNames plan.hits = plan.hits := by
  change plan.projPredColumnNames.filter _ = plan.projPredColumnNames.filter plan.cached
  apply List.filter_congr
  intro columnName inside
  simp [hits,inside]

theorem hit_part : plan.cacheLoadPOp.hitTupleSet plan.hits plan.toCache = plan.partition.part plan.cachedColumns := by
  rw [CacheLoadPOp.hitTupleSet,hitColumnNames_hits,cachedColumns]
  change (if plan.needed then plan.partition.part plan.hits else .empty) = _
  split <;> rfl

theorem whole_part {op : S3SelectPOp ν} (filterSql : op.filterSql = none) : op.whole =
    op.partition.part (if op.partition.records.isEmpty then [] else op.projectColumnNames) := by
  have all : ∀ row, op.keeps row = true := by
    intro row
    rw [S3SelectPOp.keeps,filterSql]
  have selection : op.selection = op.partition.records := by
    simp only [S3SelectPOp.selection,all,List.filter_true]
  rw [S3SelectPOp.whole,selection]
  simp only [all]
  by_cases none : op.projectColumnNames = []
  · rw [none]
    simp [S3Partition.part_nil]
  · by_cases blank : op.partition.records = []
    · rw [blank]
      simp [S3Partition.part_nil]
    · simp [none,blank,S3Partition.part]

theorem scanned_part : plan.scanPOp.answer plan.toCache plan.needed = plan.partition.part plan.readColumns := by
  rw [S3SelectPOp.answer,readColumns]
  cases plan.needed with
  | false => rfl
  | true =>
    rw [if_pos rfl,whole_part rfl]
    change plan.partition.part (if plan.partition.records.isEmpty then [] else plan.toCache) = _
    cases plan.partition.records.isEmpty <;> rfl

theorem hits_sublist : plan.cachedColumns.Sublist plan.hits := by
  unfold cachedColumns
  split
  next => exact List.Sublist.refl _
  next => exact List.nil_sublist _

theorem toCache_sublist : plan.readColumns.Sublist plan.toCache := by
  unfold readColumns
  split
  next => exact List.Sublist.refl _
  next => exact List.nil_sublist _

theorem mem_hits {columnName : String} : columnName ∈ plan.hits ↔
    columnName ∈ plan.projPredColumnNames ∧ plan.cached columnName = true := List.mem_filter

theorem mem_toCache {columnName : String} : columnName ∈ plan.toCache ↔
    columnName ∈ plan.projPredColumnNames ∧ plan.cached columnName = false ∧ plan.mayCache columnName = true := by
  rw [toCache,List.mem_filter,List.mem_filter,and_assoc,Bool.not_eq_true']

theorem local_nodup : (plan.cachedColumns ++ plan.readColumns).Nodup := by
  refine List.nodup_append.mpr ⟨?_,?_,?_⟩
  · exact (plan.hits_sublist.trans List.filter_sublist).nodup plan.projPred_nodup
  · exact (plan.toCache_sublist.trans (List.filter_sublist.trans List.filter_sublist)).nodup plan.projPred_nodup
  · rintro columnName hit _ read rfl
    have cached := (plan.mem_hits.mp (plan.hits_sublist.subset hit)).2
    have missed := (plan.mem_toCache.mp (plan.toCache_sublist.subset read)).2.1
    rw [cached] at missed
    cases missed

theorem local_known {columnName : String} (inside : columnName ∈ plan.cachedColumns ++ plan.readColumns) :
    columnName ∈ plan.projPredColumnNames := by
  rcases List.mem_append.mp inside with hit | read
  · exact (plan.mem_hits.mp (plan.hits_sublist.subset hit)).1
  · exact (plan.mem_toCache.mp (plan.toCache_sublist.subset read)).1

theorem merge_started (node l r : HybridPOp) (differ : l ≠ r) (producers : plan.producers node = [l,r])
    (columnNames : List String) : Started (⟨⟨plan.name l,plan.name r,columnNames,[],[]⟩,plan.ctx node,none⟩ :
      Process (MergePOp ν) Unit (Table ν)) where
  distinct same := differ (plan.name_injective same)
  alive := rfl
  blank := rfl
  incomplete := rfl
  silent := rfl
  awaiting := by
    have awaiting := plan.awaiting_operatorMap node
    rw [producers] at awaiting
    simp only [List.map_cons,List.map_nil,List.mem_pair] at awaiting
    exact awaiting

variable {plan}

namespace Settled

theorem merge1_heard (settled : plan.Settled configuration histories) : TwoTables (histories .merge1) .cacheLoad .scan
    (plan.partition.part plan.cachedColumns) (plan.partition.part plan.readColumns) where
  distinct := by decide
  lefts := by rw [settled.channels,settled.cacheLoad_state,plan.sent_cacheLoad.1,hit_part]
  rights := by rw [settled.channels,settled.scan_state.2,scanned_part]
  others sender notLeft notRight := by
    apply settled.unheard _ fun _ => by decide
    cases sender <;> simp only [consumers] <;>
      first | decide | (split <;> decide) | exact absurd rfl notLeft | exact absurd rfl notRight

theorem merge1_state (settled : plan.Settled configuration histories) {process : Process (MergePOp ν) Unit (Table ν)}
    (here : configuration.states .merge1 = process) : if plan.localColumns.isEmpty then process.fault.isSome = true else
      process.fault = none ∧ process.ctx.acts = [.tell (plan.partition.part plan.localColumns),.notifyComplete] := by
  have outcome := settled.merge1_heard.parts plan.name_injective
    (plan.merge_started .merge1 .cacheLoad .scan (by decide) rfl plan.projPredColumnNames) rfl rfl
    (fun columnName inside => plan.projPred_known (plan.local_known inside))
      (fun _ => plan.projPred_known) plan.local_nodup
  rw [← here,settled.states]
  exact outcome

theorem merge1_silent (settled : plan.Settled configuration histories) {process : Process (MergePOp ν) Unit (Table ν)}
    (here : configuration.states .merge1 = process) (silent : Process.Silent process) : plan.localColumns ≠ [] ∧
      process.ctx.acts = [.tell (plan.partition.part plan.localColumns),.notifyComplete] := by
  have outcome := settled.merge1_state here
  split at outcome
  next =>
    rw [silent.1] at outcome
    cases outcome
  next some => exact ⟨by simpa using some,outcome.2⟩

end Settled

variable (plan) in
def filterEnded (tuples : TupleSet ν) : Process (FilterPOp ν) Unit (Message ν) :=
  Process.receive FilterPOp.onReceive (Process.receive FilterPOp.onReceive ⟨plan.filterPOp,plan.ctx .filter,none⟩
    (.content (plan.name .merge1) (.tuple tuples))) (.complete (plan.name .merge1))

variable (plan) in
theorem filterEnded_fault (tuples : TupleSet ν) : (plan.filterEnded tuples).fault = some .nullDereference := by
  have taken := ((plan.awaiting_operatorMap .filter).setComplete (plan.name .merge1) (List.mem_singleton_self _)).1
  have told : Process.receive FilterPOp.onReceive ⟨plan.filterPOp,plan.ctx .filter,none⟩
      (.content (plan.name .merge1) (.tuple tuples)) = ⟨plan.filterPOp.clear,{(plan.ctx .filter).record
        [.tell (.tuple (some .empty)),.notifyComplete] with complete := true},none⟩ := rfl
  rw [filterEnded,told,Process.receive_complete rfl taken]
  rfl

namespace Settled

theorem filter_fails (settled : plan.Settled configuration histories) (filtered : plan.predicate.isSome = true)
    {process : Process (MergePOp ν) Unit (Table ν)} (here : configuration.states .merge1 = process)
    (silent : Process.Silent process) : ¬NoError .filter (configuration.states .filter) := by
  have heard := settled.heard_only .merge1 .filter (by
    intro other differ
    refine ⟨?_,fun _ => by decide⟩
    cases other <;> simp only [consumers] <;> first | decide | (split <;> decide) | exact absurd rfl differ)
  have connected : plan.connected .merge1 .filter = true := by
    rw [PartitionScan.connected,consumers,if_pos filtered]
    decide
  have said : plan.sent .merge1 process .filter = [.tuple (some (plan.partition.part plan.localColumns)),
      .complete] := by
    change reaching _ (plan.connected .merge1 .filter) _ process.ctx.acts = _
    rw [connected,(settled.merge1_silent here silent).2]
    rfl
  rw [here,said] at heard
  rw [settled.states,heard]
  intro noError
  have alive : (plan.filterEnded (some (plan.partition.part plan.localColumns))).fault = none := noError.1
  rw [filterEnded_fault] at alive
  cases alive

end Settled

variable (plan)

def pushedColumns : List String := if plan.partition.records.isEmpty then [] else plan.pushed

def emittedColumns : List String :=
  plan.projectColumnNames.filter fun columnName => decide (columnName ∈ plan.localColumns ++ plan.pushedColumns)

theorem needed_of_local (some : plan.localColumns ≠ []) : plan.needed = true := by
  by_contra unneeded
  apply some
  rw [Bool.not_eq_true] at unneeded
  rw [localColumns,cachedColumns,readColumns,unneeded]
  simp

theorem mem_local {columnName : String} : columnName ∈ plan.localColumns ↔
    columnName ∈ plan.cachedColumns ++ plan.readColumns := by
  rw [localColumns,List.mem_filter,decide_eq_true_eq]
  exact ⟨fun both => both.2,fun inside => ⟨plan.local_known inside,inside⟩⟩

theorem pushed_apart (some : plan.localColumns ≠ []) {columnName : String} (inside : columnName ∈ plan.localColumns) :
    columnName ∉ plan.pushed := by
  rw [pushed,if_pos (plan.needed_of_local some),CacheLoadPOp.missedPushdownColumnNames,List.mem_filter,
    decide_eq_true_eq]
  rintro ⟨_,notHit,notRead⟩
  rcases List.mem_append.mp (plan.mem_local.mp inside) with hit | read
  · exact notHit (plan.hits_sublist.subset hit)
  · exact notRead (plan.toCache_sublist.subset read)

theorem pushed_known (some : plan.localColumns ≠ []) : plan.pushed.Sublist plan.projPredColumnNames := by
  rw [pushed,if_pos (plan.needed_of_local some)]
  exact List.filter_sublist

theorem pushed_sublist : plan.pushedColumns.Sublist plan.pushed := by
  unfold pushedColumns
  split
  next => exact List.nil_sublist _
  next => exact List.Sublist.refl _

theorem emitted_nodup (some : plan.localColumns ≠ []) : (plan.localColumns ++ plan.pushedColumns).Nodup := by
  refine List.nodup_append.mpr ⟨plan.projPred_nodup.filter _,?_,?_⟩
  · exact (plan.pushed_sublist.trans (plan.pushed_known some)).nodup plan.projPred_nodup
  · rintro columnName here _ there rfl
    exact plan.pushed_apart some here (plan.pushed_sublist.subset there)

theorem emitted_known (some : plan.localColumns ≠ []) {columnName : String}
    (inside : columnName ∈ plan.localColumns ++ plan.pushedColumns) : columnName ∈ plan.partition.columnNames := by
  rcases List.mem_append.mp inside with here | there
  · exact plan.projPred_known (List.mem_of_mem_filter here)
  · exact plan.projPred_known ((plan.pushed_sublist.trans (plan.pushed_known some)).subset there)

variable {plan}

namespace Settled

theorem merge2_heard (settled : plan.Settled configuration histories) (unfiltered : plan.predicate = none)
    {process : Process (MergePOp ν) Unit (Table ν)} (here : configuration.states .merge1 = process)
    (silent : Process.Silent process) : TwoTables (histories .merge2) .merge1 .select
      (plan.partition.part plan.localColumns) (plan.partition.part plan.pushedColumns) where
  distinct := by decide
  lefts := by
    have connected : plan.connected .merge1 .merge2 = true := by
      rw [PartitionScan.connected,consumers,unfiltered]
      rfl
    rw [settled.channels,here]
    change reaching _ (plan.connected .merge1 .merge2) _ process.ctx.acts = _
    rw [connected,(settled.merge1_silent here silent).2]
    rfl
  rights := by
    rw [settled.channels,settled.select_state.2,S3SelectPOp.answer,if_pos rfl,whole_part (by exact unfiltered)]
    rfl
  others sender notLeft notRight := by
    apply settled.unheard _ fun _ => by decide
    cases sender <;> simp only [consumers,unfiltered,Option.isSome_none,Bool.false_eq_true,if_false] <;>
      first | decide | exact absurd rfl notLeft | exact absurd rfl notRight

theorem merge2_state (settled : plan.Settled configuration histories) (unfiltered : plan.predicate = none)
    {first process : Process (MergePOp ν) Unit (Table ν)} (before : configuration.states .merge1 = first)
    (silent : Process.Silent first) (here : configuration.states .merge2 = process) :
    if plan.emittedColumns.isEmpty then process.fault.isSome = true else
      process.fault = none ∧ process.ctx.acts = [.tell (plan.partition.part plan.emittedColumns),.notifyComplete] := by
  have some := (settled.merge1_silent before silent).1
  have localResult : plan.localResult = .merge1 := by
    rw [PartitionScan.localResult,unfiltered]
    rfl
  have producers : plan.producers .merge2 = [.merge1,.select] := by rw [PartitionScan.producers,localResult]
  have outcome := (settled.merge2_heard unfiltered before silent).parts plan.name_injective
    (plan.merge_started .merge2 .merge1 .select (by decide) producers plan.projectColumnNames) rfl rfl
    (fun _ => plan.emitted_known some) plan.projected (plan.emitted_nodup some)
  have start : plan.start .merge2 = ⟨⟨plan.name .merge1,plan.name .select,plan.projectColumnNames,[],[]⟩,
      plan.ctx .merge2,none⟩ := by
    rw [PartitionScan.start,mergePOp2,localResult]
  rw [← here,settled.states]
  have after : after plan.nodes .merge2 (histories .merge2) =
      (histories .merge2).foldl (fun process heard => mergeReceive process (plan.name heard.1) heard.2)
        (plan.start .merge2) := rfl
  rw [after,start]
  exact outcome

end Settled
end PartitionScan

end Hermes.HybridScan
