import Hermes.Library.ListJoin
import Hermes.ShufflePOp
import Hermes.Tuple
import Mathlib.Data.List.Induction

/-! `SplitPOp`: what is buffered is cut into consecutive slices, one for each consumer. -/
namespace Hermes.Split
open Hermes.Tuple Hermes.Operators Hermes.Library.ListJoin
open Hermes.Shuffle (DefaultBufferSize)
variable {α ρ : Type}

structure SplitPOp (ρ : Type) where
  consumerVec : List String
  inputTupleSet : Option (TupleSet ρ)

def splitArray (array : List ρ) (n : Nat) : List (List ρ) :=
  (List.range n).map fun i =>
    if i < n-1 then (array.drop (i*(array.length/n))).take (array.length/n) else array.drop (i*(array.length/n))

namespace SplitPOp

def bufferInput (op : SplitPOp ρ) (tupleSet : TupleSet ρ) : SplitPOp ρ :=
  match op.inputTupleSet with
  | none => {op with inputTupleSet := some tupleSet}
  | some inputTupleSet => {op with inputTupleSet := some (inputTupleSet.append tupleSet)}

/-- All columns are cut in the same places. -/
def split (op : SplitPOp ρ) : Except String (List (TupleSet ρ)) :=
  match op.inputTupleSet with
  | none => .error "No input tupleSet to split"
  | some inputTupleSet => .ok ((splitArray inputTupleSet.rows op.consumerVec.length).map TupleSet.ofRows)

def send (ctx : POpContext α (TupleSet ρ)) : List String → List (TupleSet ρ) → POpContext α (TupleSet ρ)
  | consumer::consumerVec,tupleSet::tupleSets => send (ctx.send tupleSet consumer) consumerVec tupleSets
  | _,_ => ctx

def clear (op : SplitPOp ρ) : SplitPOp ρ := {op with inputTupleSet := none}

/-- The callers do not look at the error. -/
def splitAndSend (op : SplitPOp ρ) (ctx : POpContext α (TupleSet ρ)) : SplitPOp ρ × POpContext α (TupleSet ρ) :=
  match op.split with
  | .error _ => (op,ctx)
  | .ok tupleSets => (op.clear,send ctx op.consumerVec tupleSets)

/-- A tuple set without rows is dropped. The rows are counted before it is known that there is a tuple set. -/
def onTuple (op : SplitPOp ρ) (ctx : POpContext α (TupleSet ρ)) : Option (TupleSet ρ) →
    Process (SplitPOp ρ) α (TupleSet ρ)
  | none => ⟨op,ctx,some .nullDereference⟩
  | some tupleSet =>
    if tupleSet.numRows = 0 then ⟨op,ctx,none⟩
    else
      let buffered := op.bufferInput tupleSet
      if buffered.inputTupleSet.any fun inputTupleSet =>
          decide (DefaultBufferSize*op.consumerVec.length ≤ inputTupleSet.numRows) then
        let sent := buffered.splitAndSend ctx
        ⟨sent.1,sent.2,none⟩
      else ⟨buffered,ctx,none⟩

def onComplete (op : SplitPOp ρ) (ctx : POpContext α (TupleSet ρ)) : Process (SplitPOp ρ) α (TupleSet ρ) :=
  if !ctx.complete && ctx.operatorMap.allComplete .producer then
    let sent := if op.inputTupleSet.any fun inputTupleSet => decide (0 < inputTupleSet.numRows) then op.splitAndSend ctx
      else (op,ctx)
    ⟨sent.1.clear,sent.2.notifyComplete,none⟩
  else ⟨op,ctx,none⟩

def onReceive (op : SplitPOp ρ) (ctx : POpContext α (TupleSet ρ)) :
    Waiting (Option (TupleSet ρ)) → Process (SplitPOp ρ) α (TupleSet ρ)
  | .content _ message => op.onTuple ctx message
  | .complete _ => op.onComplete ctx

end SplitPOp

theorem length_splitArray (array : List ρ) (n : Nat) : (splitArray array n).length = n := by
  simp [splitArray]

theorem flatten_front (array : List ρ) (size count : Nat) (fits : count*size ≤ array.length) :
    ((List.range count).map fun i => (array.drop (i*size)).take size).flatten = array.take (count*size) := by
  induction count with
  | zero => simp
  | succ count ih =>
    have shorter : count*size ≤ array.length := le_trans (Nat.mul_le_mul_right size (Nat.le_succ count)) fits
    rw [List.range_succ,List.map_append,List.flatten_append,ih shorter,List.map_singleton,List.flatten_singleton,
      Nat.succ_mul,List.take_add]

theorem flatten_splitArray (array : List ρ) {n : Nat} (some : 0 < n) : (splitArray array n).flatten = array := by
  obtain ⟨m,rfl⟩ := Nat.exists_eq_succ_of_ne_zero (Nat.pos_iff_ne_zero.mp some)
  have front : (List.range m).map (fun i => if i < m+1-1 then
        (array.drop (i*(array.length/(m+1)))).take (array.length/(m+1)) else array.drop (i*(array.length/(m+1)))) =
      (List.range m).map fun i => (array.drop (i*(array.length/(m+1)))).take (array.length/(m+1)) := by
    apply List.map_congr_left
    intro i inside
    exact if_pos (List.mem_range.mp inside)
  have fits : m*(array.length/(m+1)) ≤ array.length :=
    le_trans (Nat.mul_le_mul_right _ (Nat.le_succ m)) (Nat.mul_div_le array.length (m+1))
  rw [splitArray,List.range_succ,List.map_append,front,List.flatten_append,flatten_front array _ m fits,
    List.map_singleton,
    if_neg (by omega),List.flatten_singleton,List.take_append_drop]

def sends (consumerVec : List String) (rows : List ρ) : List (Act (TupleSet ρ)) :=
  List.zipWith (fun consumer slice => .send consumer (TupleSet.ofRows slice)) consumerVec
    (splitArray rows consumerVec.length)

/-- The tuple sets for one consumer, in order. -/
def sentTo (consumer : String) (acts : List (Act (TupleSet ρ))) : List (TupleSet ρ) :=
  acts.filterMap fun act =>
    match act with
    | .send recipientId tupleSet => if recipientId = consumer then some tupleSet else none
    | _ => none

theorem sentTo_append (consumer : String) (acts more : List (Act (TupleSet ρ))) :
    sentTo consumer (acts ++ more) = sentTo consumer acts ++ sentTo consumer more :=
  List.filterMap_append

def Connected (consumerVec : List String) (operatorMap : LocalPOpDirectory α) : Prop :=
  ∀ consumer ∈ consumerVec, (operatorMap.entryOf consumer).isSome

theorem send_eq (ctx : POpContext α (TupleSet ρ)) (consumerVec : List String) (slices : List (List ρ))
    (connected : Connected consumerVec ctx.operatorMap) :
    SplitPOp.send ctx consumerVec (slices.map TupleSet.ofRows) =
      ctx.record (List.zipWith (fun consumer slice => .send consumer (TupleSet.ofRows slice)) consumerVec slices) := by
  induction consumerVec generalizing ctx slices with
  | nil => simp [SplitPOp.send]
  | cons consumer consumerVec ih =>
    cases slices with
    | nil => simp [SplitPOp.send]
    | cons slice slices =>
      obtain ⟨entry,found⟩ := Option.isSome_iff_exists.mp (connected consumer List.mem_cons_self)
      have direct : ctx.send (TupleSet.ofRows slice) consumer =
          ctx.record [.send consumer (TupleSet.ofRows slice)] := by
        rw [POpContext.send,found]
      have later := ih (ctx.record [.send consumer (TupleSet.ofRows slice)]) slices
        fun other inside => connected other (List.mem_cons_of_mem _ inside)
      rw [List.map_cons,SplitPOp.send,direct,later,POpContext.record_record]
      rfl

theorem splitAndSend_eq (op : SplitPOp ρ) (ctx : POpContext α (TupleSet ρ)) {tupleSet : TupleSet ρ}
    (buffered : op.inputTupleSet = some tupleSet) (connected : Connected op.consumerVec ctx.operatorMap) :
    op.splitAndSend ctx = (op.clear,ctx.record (sends op.consumerVec tupleSet.rows)) := by
  rw [SplitPOp.splitAndSend,SplitPOp.split,buffered]
  dsimp only
  rw [send_eq ctx op.consumerVec _ connected]
  rfl

def held (op : SplitPOp ρ) : List ρ := op.inputTupleSet.elim [] TupleSet.rows

theorem held_bufferInput (op : SplitPOp ρ) (tupleSet : TupleSet ρ) :
    ∃ buffered, (op.bufferInput tupleSet).inputTupleSet = some buffered ∧ buffered.rows = held op ++ tupleSet.rows ∧
      (op.bufferInput tupleSet).consumerVec = op.consumerVec := by
  unfold SplitPOp.bufferInput held
  cases op.inputTupleSet with
  | none => exact ⟨tupleSet,rfl,rfl,rfl⟩
  | some inputTupleSet => exact ⟨inputTupleSet.append tupleSet,rfl,TupleSet.rows_append inputTupleSet tupleSet,rfl⟩

theorem onTuple_eq (op : SplitPOp ρ) (ctx : POpContext α (TupleSet ρ)) (tupleSet : TupleSet ρ)
    (connected : Connected op.consumerVec ctx.operatorMap) :
    ∃ (op' : SplitPOp ρ) (pieces : List (List ρ)),
      op.onTuple ctx (some tupleSet) = ⟨op',ctx.record (pieces.flatMap (sends op.consumerVec)),none⟩ ∧
      op'.consumerVec = op.consumerVec ∧ pieces.flatten ++ held op' = held op ++ tupleSet.rows := by
  rw [SplitPOp.onTuple]
  by_cases empty : tupleSet.numRows = 0
  · have none : tupleSet.rows = [] := List.eq_nil_of_length_eq_zero empty
    rw [if_pos empty,none,List.append_nil]
    refine ⟨op,[],?_,rfl,rfl⟩
    rw [List.flatMap_nil,POpContext.record_nil]
  · obtain ⟨buffered,isBuffered,whole,consumers⟩ := held_bufferInput op tupleSet
    rw [if_neg empty]
    dsimp only
    split
    next =>
      refine ⟨(op.bufferInput tupleSet).clear,[buffered.rows],?_,consumers,?_⟩
      · rw [splitAndSend_eq _ ctx isBuffered (by rw [consumers]; exact connected),consumers,List.flatMap_singleton]
      · rw [← whole,List.flatten_singleton]
        exact List.append_nil _
    next =>
      refine ⟨op.bufferInput tupleSet,[],?_,consumers,?_⟩
      · rw [List.flatMap_nil,POpContext.record_nil]
      · rw [← whole,held,isBuffered]
        rfl

theorem onComplete_eq (op : SplitPOp ρ) (ctx : POpContext α (TupleSet ρ)) (incomplete : ctx.complete = false)
    (all : ctx.operatorMap.allComplete .producer = true) (connected : Connected op.consumerVec ctx.operatorMap) :
    ∃ pieces : List (List ρ), op.onComplete ctx =
      ⟨op.clear,{ctx.record (pieces.flatMap (sends op.consumerVec) ++ [.notifyComplete]) with complete := true},none⟩ ∧
      pieces.flatten = held op := by
  rw [SplitPOp.onComplete,if_pos (by rw [incomplete,all]; rfl)]
  dsimp only
  split
  next some =>
    obtain ⟨tupleSet,buffered,_⟩ := (Option.any_eq_true _ _).mp some
    refine ⟨[tupleSet.rows],?_,?_⟩
    · rw [splitAndSend_eq op ctx buffered connected,POpContext.notifyComplete_incomplete _ (by exact incomplete),
        POpContext.record_record,List.flatMap_singleton]
      rfl
    · rw [held,buffered]
      exact List.flatten_singleton
  next empty =>
    refine ⟨[],?_,?_⟩
    · rw [POpContext.notifyComplete_incomplete _ incomplete]
      rfl
    · unfold held
      cases buffered : op.inputTupleSet with
      | none => rfl
      | some tupleSet =>
        rw [buffered,Option.any_some,decide_eq_true_eq] at empty
        exact (List.eq_nil_of_length_eq_zero (Nat.eq_zero_of_not_pos empty)).symm

/-- A split operator on its upstream, before any message. -/
structure Started (upstream : String) (process : Process (SplitPOp ρ) α (TupleSet ρ)) : Prop where
  alive : process.fault = none
  blank : process.operator.inputTupleSet = none
  incomplete : process.ctx.complete = false
  silent : process.ctx.acts = []
  awaiting : process.ctx.operatorMap.Awaiting (· = upstream)
  connected : Connected process.operator.consumerVec process.ctx.operatorMap

/-- While it runs: every row is in a piece that has been split or is still held. -/
structure Splitting (upstream : String) (consumerVec : List String) (rows : List ρ) (pieces : List (List ρ))
    (process : Process (SplitPOp ρ) α (TupleSet ρ)) : Prop where
  alive : process.fault = none
  incomplete : process.ctx.complete = false
  awaiting : process.ctx.operatorMap.Awaiting (· = upstream)
  connected : Connected consumerVec process.ctx.operatorMap
  consumers : process.operator.consumerVec = consumerVec
  acts : process.ctx.acts = pieces.flatMap (sends consumerVec)
  flow : pieces.flatten ++ held process.operator = rows

section
variable {upstream : String} {consumerVec : List String} {rows : List ρ} {pieces : List (List ρ)}
  {process : Process (SplitPOp ρ) α (TupleSet ρ)}

theorem Splitting.content (splitting : Splitting upstream consumerVec rows pieces process) (tupleSet : TupleSet ρ) :
    ∃ pieces, Splitting upstream consumerVec (rows ++ tupleSet.rows) pieces
      (process.receive SplitPOp.onReceive (.content upstream (some tupleSet))) := by
  have connected : Connected process.operator.consumerVec process.ctx.operatorMap := by
    rw [splitting.consumers]
    exact splitting.connected
  obtain ⟨op',more,handled,consumers,flow⟩ := onTuple_eq process.operator process.ctx tupleSet connected
  rw [Process.receive_content splitting.alive,SplitPOp.onReceive,handled]
  refine ⟨pieces ++ more,rfl,splitting.incomplete,splitting.awaiting,splitting.connected,
    consumers.trans splitting.consumers,
    ?_,?_⟩
  · rw [POpContext.record_acts,splitting.acts,splitting.consumers,List.flatMap_append]
  · rw [List.flatten_append,List.append_assoc,flow,← List.append_assoc,splitting.flow]

theorem Splitting.contents (splitting : Splitting upstream consumerVec rows pieces process)
    (tupleSets : List (TupleSet ρ)) :
    ∃ pieces, Splitting upstream consumerVec (rows ++ tupleSets.flatMap TupleSet.rows) pieces
      (process.run SplitPOp.onReceive (tupleSets.map fun tupleSet => .content upstream (some tupleSet))) := by
  induction tupleSets using List.reverseRecOn with
  | nil =>
    refine ⟨pieces,?_⟩
    rw [List.flatMap_nil,List.append_nil]
    exact splitting
  | append_singleton tupleSets tupleSet ih =>
    obtain ⟨before,earlier⟩ := ih
    rw [List.map_append,List.map_singleton,Process.run_snoc,List.flatMap_append,List.flatMap_singleton,
      ← List.append_assoc]
    exact earlier.content tupleSet

end

theorem split_pieces (upstream : String) (started : Process (SplitPOp ρ) α (TupleSet ρ))
    (fresh : Started upstream started) (tupleSets : List (TupleSet ρ)) :
    ∃ pieces : List (List ρ), pieces.flatten = tupleSets.flatMap TupleSet.rows ∧
      (started.run SplitPOp.onReceive
          (tupleSets.map (fun tupleSet => .content upstream (some tupleSet)) ++ [.complete upstream])).ctx.acts =
        pieces.flatMap (sends started.operator.consumerVec) ++ [.notifyComplete] := by
  have first : Splitting upstream started.operator.consumerVec [] [] started :=
    ⟨fresh.alive,fresh.incomplete,fresh.awaiting,fresh.connected,rfl,fresh.silent,by rw [held,fresh.blank]; rfl⟩
  obtain ⟨pieces,splitting⟩ := first.contents tupleSets
  rw [Process.run_snoc]
  rw [List.nil_append] at splitting
  generalize started.run SplitPOp.onReceive (tupleSets.map fun tupleSet => .content upstream (some tupleSet)) = process
    at splitting ⊢
  obtain ⟨taken,awaiting⟩ := splitting.awaiting.setComplete upstream rfl
  have all : (process.ctx.operatorMap.setComplete upstream).1.allComplete .producer = true :=
    awaiting.allComplete_iff.mpr fun name both => both.2 both.1
  have connected : Connected process.operator.consumerVec (process.ctx.operatorMap.setComplete upstream).1 := by
    rw [splitting.consumers]
    exact fun consumer inside => LocalPOpDirectory.connected_setComplete (splitting.connected consumer inside) upstream
  obtain ⟨more,handled,rest⟩ := onComplete_eq process.operator
    {process.ctx with operatorMap := (process.ctx.operatorMap.setComplete upstream).1} splitting.incomplete all connected
  rw [Process.receive_complete splitting.alive taken,SplitPOp.onReceive,handled]
  refine ⟨pieces ++ more,?_,?_⟩
  · rw [List.flatten_append,rest,splitting.flow]
  · change process.ctx.acts ++ _ = _
    rw [splitting.acts,splitting.consumers,List.flatMap_append,List.append_assoc]

section
variable {consumerVec : List String} {p : Nat} {consumer : String}

def slice (consumerVec : List String) (p : Nat) (rows : List ρ) : List ρ :=
  (splitArray rows consumerVec.length)[p]?.getD []

theorem sentTo_missing (missing : consumer ∉ consumerVec) (slices : List (List ρ)) :
    sentTo consumer (List.zipWith (fun consumer slice => .send consumer (TupleSet.ofRows slice)) consumerVec slices) = [] := by
  induction consumerVec generalizing slices with
  | nil => rfl
  | cons other consumerVec ih =>
    cases slices with
    | nil => rfl
    | cons slice slices =>
      rw [List.mem_cons,not_or] at missing
      rw [List.zipWith_cons_cons,sentTo,List.filterMap_cons]
      dsimp only
      rw [if_neg (Ne.symm missing.1)]
      exact ih missing.2 slices

theorem sentTo_zipWith (distinct : consumerVec.Nodup) (here : consumerVec[p]? = some consumer) (slices : List (List ρ))
    (enough : slices.length = consumerVec.length) :
    sentTo consumer (List.zipWith (fun consumer slice => .send consumer (TupleSet.ofRows slice)) consumerVec slices) =
      [TupleSet.ofRows (slices[p]?.getD [])] := by
  induction consumerVec generalizing p slices with
  | nil => cases here
  | cons other consumerVec ih =>
    cases slices with
    | nil => cases enough
    | cons slice slices =>
      rw [List.nodup_cons] at distinct
      rw [List.zipWith_cons_cons,sentTo,List.filterMap_cons]
      dsimp only
      cases p with
      | zero =>
        cases here
        rw [if_pos rfl]
        exact congrArg (List.cons _) (sentTo_missing distinct.1 slices)
      | succ p =>
        have differ : other ≠ consumer := by
          intro same
          exact distinct.1 (same ▸ List.mem_of_getElem? here)
        rw [if_neg differ]
        exact ih distinct.2 here slices (Nat.succ.inj enough)

theorem sentTo_sends (distinct : consumerVec.Nodup) (here : consumerVec[p]? = some consumer) (pieces : List (List ρ)) :
    sentTo consumer (pieces.flatMap (sends consumerVec)) =
      pieces.map fun rows => TupleSet.ofRows (slice consumerVec p rows) := by
  induction pieces with
  | nil => rfl
  | cons rows pieces ih =>
    rw [List.flatMap_cons,sentTo_append,ih,sends,sentTo_zipWith distinct here _ (length_splitArray rows _)]
    rfl

end

theorem flatMap_slice {consumerVec : List String} (some : consumerVec ≠ []) (rows : List ρ) :
    ((List.range consumerVec.length).flatMap fun p => slice consumerVec p rows) = rows := by
  have slices : (List.range consumerVec.length).map (fun p => slice consumerVec p rows) =
      splitArray rows consumerVec.length := by
    apply List.ext_getElem
    · rw [List.length_map,List.length_range,length_splitArray]
    · intro p _ inside
      rw [List.getElem_map,List.getElem_range,slice,List.getElem?_eq_getElem inside]
      rfl
  rw [List.flatMap_def,slices,flatten_splitArray rows (List.length_pos_iff.mpr some)]

theorem split_keeps_rows (upstream : String) (started : Process (SplitPOp ρ) α (TupleSet ρ))
    (fresh : Started upstream started)
    (distinct : started.operator.consumerVec.Nodup) (some : started.operator.consumerVec ≠ [])
    (tupleSets : List (TupleSet ρ)) :
    (started.operator.consumerVec.flatMap fun consumer => (sentTo consumer (started.run SplitPOp.onReceive
      (tupleSets.map (fun tupleSet => .content upstream (.some tupleSet)) ++ [.complete upstream])).ctx.acts).flatMap
        TupleSet.rows).Perm
        (tupleSets.flatMap TupleSet.rows) := by
  obtain ⟨pieces,whole,acts⟩ := split_pieces upstream started fresh tupleSets
  have received : ∀ consumer, sentTo consumer (pieces.flatMap (sends started.operator.consumerVec) ++
      [.notifyComplete]) =
      sentTo consumer (pieces.flatMap (sends started.operator.consumerVec)) := by
    intro consumer
    rw [sentTo_append]
    exact List.append_nil _
  have indexed : (started.operator.consumerVec.map fun consumer =>
        (sentTo consumer (pieces.flatMap (sends started.operator.consumerVec))).flatMap TupleSet.rows) =
      (List.range started.operator.consumerVec.length).map fun p =>
        pieces.flatMap fun rows => slice started.operator.consumerVec p rows := by
    apply List.ext_getElem
    · rw [List.length_map,List.length_map,List.length_range]
    · intro p inside _
      rw [List.length_map] at inside
      rw [List.getElem_map,List.getElem_map,List.getElem_range,
        sentTo_sends distinct (List.getElem?_eq_getElem inside),List.flatMap_map]
      simp only [TupleSet.rows_ofRows]
  simp only [acts,received]
  rw [← whole,List.flatMap_def,indexed,← List.flatMap_def]
  refine (flatMap_swap _ pieces fun p rows => slice started.operator.consumerVec p rows).trans (List.Perm.of_eq ?_)
  simp only [flatMap_slice some,List.flatMap_id']

/-- The rows that go out, each with its consumer. -/
def sentRows (acts : List (Act (TupleSet ρ))) : List (String × ρ) :=
  acts.flatMap fun act =>
    match act with
    | .send recipientId tupleSet => tupleSet.rows.map (recipientId,·)
    | _ => []

/-- The rows of the tuple sets among the messages. -/
def received (messages : List (Waiting (Option (TupleSet ρ)))) : List ρ :=
  messages.flatMap fun message =>
    match message with
    | .content _ tupleSet => tupleSet.elim [] TupleSet.rows
    | .complete _ => []

def Present (messages : List (Waiting (Option (TupleSet ρ)))) : Prop := ∀ sender, .content sender none ∉ messages

/-- What a split operator has done when all of its producers are done. A piece is what was buffered when it was split. -/
structure Conserved (consumerVec : List String) (rows : List ρ) (process : Process (SplitPOp ρ) α (TupleSet ρ))
    (pieces : List (List ρ)) : Prop where
  alive : process.fault = none
  drained : held process.operator = []
  whole : pieces.flatten = rows
  acts : process.ctx.acts = pieces.flatMap (sends consumerVec) ++ [.notifyComplete]
  slices : ∀ piece ∈ pieces, (splitArray piece consumerVec.length).flatten = piece
  sizes : ∀ piece ∈ pieces, (splitArray piece consumerVec.length).map List.length =
    List.replicate (consumerVec.length-1) (piece.length/consumerVec.length) ++
      [piece.length/consumerVec.length+piece.length%consumerVec.length]
  once : (sentRows process.ctx.acts).map Prod.snd = rows
  known : ∀ sent ∈ sentRows process.ctx.acts, sent.1 ∈ consumerVec

theorem lengths_splitArray (array : List ρ) {n : Nat} (some : 0 < n) : (splitArray array n).map List.length =
    List.replicate (n-1) (array.length/n) ++ [array.length/n+array.length%n] := by
  obtain ⟨m,rfl⟩ := Nat.exists_eq_succ_of_ne_zero (Nat.pos_iff_ne_zero.mp some)
  have parts := Nat.div_add_mod array.length (m+1)
  rw [Nat.succ_mul] at parts
  rw [Nat.succ_eq_add_one,Nat.add_sub_cancel,splitArray,List.map_map,List.range_succ,List.map_append,List.map_singleton]
  congr 1
  · rw [← List.length_range (n := m),← List.map_const',List.length_range]
    apply List.map_congr_left
    intro i inside
    have before := List.mem_range.mp inside
    have fits : (i+1)*(array.length/(m+1)) ≤ m*(array.length/(m+1)) := Nat.mul_le_mul_right _ before
    rw [Nat.succ_mul] at fits
    rw [Function.comp_apply,if_pos (by omega),List.length_take,List.length_drop]
    omega
  · rw [Function.comp_apply,if_neg (by omega),List.length_drop]
    congr 1
    generalize m*(array.length/(m+1)) = front at parts ⊢
    generalize array.length/(m+1) = size at parts ⊢
    omega

section
variable {consumerVec : List String}

theorem sentRows_append (acts more : List (Act (TupleSet ρ))) :
    sentRows (acts ++ more) = sentRows acts ++ sentRows more :=
  List.flatMap_append

theorem sentRows_zipWith (slices : List (List ρ)) (enough : slices.length = consumerVec.length) :
    sentRows (List.zipWith (fun consumer slice => .send consumer (TupleSet.ofRows slice)) consumerVec slices) =
      (consumerVec.zip slices).flatMap fun sent => sent.2.map (sent.1,·) := by
  induction consumerVec generalizing slices with
  | nil => rfl
  | cons consumer consumerVec ih =>
    cases slices with
    | nil => cases enough
    | cons slice slices =>
      have first : sentRows [.send consumer (TupleSet.ofRows slice)] = slice.map (consumer,·) := by
        rw [sentRows,List.flatMap_singleton]
        exact congrArg (List.map (consumer,·)) (TupleSet.rows_ofRows slice)
      rw [List.zipWith_cons_cons,← List.singleton_append,sentRows_append,first,ih slices (Nat.succ.inj enough)]
      rfl

theorem sentRows_sends (piece : List ρ) (some : consumerVec ≠ []) :
    (sentRows (sends consumerVec piece)).map Prod.snd = piece ∧
      ∀ sent ∈ sentRows (sends consumerVec piece), sent.1 ∈ consumerVec := by
  have enough : (splitArray piece consumerVec.length).length = consumerVec.length := length_splitArray piece _
  rw [sends,sentRows_zipWith _ enough]
  constructor
  · rw [List.map_flatMap]
    simp only [List.map_map,Function.comp_def,List.map_id']
    rw [List.flatMap_def,List.map_snd_zip (Nat.le_of_eq enough),flatten_splitArray piece (List.length_pos_iff.mpr some)]
  · intro sent inside
    obtain ⟨slice,paired,taken⟩ := List.mem_flatMap.mp inside
    obtain ⟨row,_,rfl⟩ := List.mem_map.mp taken
    exact (List.of_mem_zip paired).1

theorem sentRows_flatMap (pieces : List (List ρ)) (some : consumerVec ≠ []) :
    (sentRows (pieces.flatMap (sends consumerVec) ++ [.notifyComplete])).map Prod.snd = pieces.flatten ∧
      ∀ sent ∈ sentRows (pieces.flatMap (sends consumerVec) ++ [.notifyComplete]), sent.1 ∈ consumerVec := by
  induction pieces with
  | nil => exact ⟨rfl,fun _ inside => absurd inside List.not_mem_nil⟩
  | cons piece pieces ih =>
    obtain ⟨rows,known⟩ := sentRows_sends piece some
    rw [List.flatMap_cons,List.append_assoc,sentRows_append,List.map_append,rows,ih.1]
    refine ⟨rfl,?_⟩
    intro sent inside
    rcases List.mem_append.mp inside with first | later
    · exact known sent first
    · exact ih.2 sent later

end

/-- A split operator on its producers, before any message. -/
structure Launched (isProducer : String → Prop) (process : Process (SplitPOp ρ) α (TupleSet ρ)) : Prop where
  alive : process.fault = none
  blank : process.operator.inputTupleSet = none
  incomplete : process.ctx.complete = false
  silent : process.ctx.acts = []
  awaiting : process.ctx.operatorMap.Awaiting isProducer
  connected : Connected process.operator.consumerVec process.ctx.operatorMap

/-- While it runs: every row received is in a piece that has been split or is still held. -/
structure Buffering (isProducer : String → Prop) (consumerVec : List String)
    (messages : List (Waiting (Option (TupleSet ρ))))
    (pieces : List (List ρ)) (process : Process (SplitPOp ρ) α (TupleSet ρ)) : Prop where
  alive : process.fault = none
  incomplete : process.ctx.complete = false
  expecting : Expecting isProducer messages process.ctx.operatorMap
  connected : Connected consumerVec process.ctx.operatorMap
  consumers : process.operator.consumerVec = consumerVec
  acts : process.ctx.acts = pieces.flatMap (sends consumerVec)
  flow : pieces.flatten ++ held process.operator = received messages

section
variable {isProducer : String → Prop} {consumerVec : List String} {messages : List (Waiting (Option (TupleSet ρ)))}
  {pieces : List (List ρ)} {process : Process (SplitPOp ρ) α (TupleSet ρ)}

theorem Buffering.content (buffering : Buffering isProducer consumerVec messages pieces process) (sender : String)
    (tupleSet : TupleSet ρ) :
    ∃ pieces, Buffering isProducer consumerVec (messages ++ [.content sender (some tupleSet)]) pieces
      (process.receive SplitPOp.onReceive (.content sender (some tupleSet))) := by
  have connected : Connected process.operator.consumerVec process.ctx.operatorMap := by
    rw [buffering.consumers]
    exact buffering.connected
  obtain ⟨op',more,handled,consumers,flow⟩ := onTuple_eq process.operator process.ctx tupleSet connected
  have expecting := buffering.expecting
  rw [Process.receive_content buffering.alive,SplitPOp.onReceive,handled]
  refine ⟨pieces ++ more,rfl,buffering.incomplete,?_,buffering.connected,consumers.trans buffering.consumers,?_,?_⟩
  · exact expecting.content _ _
  · rw [POpContext.record_acts,buffering.acts,buffering.consumers,List.flatMap_append]
  · rw [List.flatten_append,List.append_assoc,flow,← List.append_assoc,buffering.flow,received,received,
      List.flatMap_append,
      List.flatMap_singleton]
    rfl

theorem Buffering.complete (buffering : Buffering isProducer consumerVec messages pieces process) {sender : String}
    (known : isProducer sender) (missing : .complete sender ∉ messages)
    (more : ¬Finished isProducer (messages ++ [.complete sender])) :
    Buffering isProducer consumerVec (messages ++ [.complete sender]) pieces
      (process.receive SplitPOp.onReceive (.complete sender)) := by
  obtain ⟨taken,expecting,waits⟩ := buffering.expecting.waits known missing more
  have idle : process.receive SplitPOp.onReceive (.complete sender) =
      ⟨process.operator,{process.ctx with operatorMap := (process.ctx.operatorMap.setComplete sender).1},none⟩ := by
    rw [Process.receive_complete buffering.alive taken,SplitPOp.onReceive,SplitPOp.onComplete,if_neg]
    rw [waits,Bool.and_false]
    exact Bool.false_ne_true
  rw [idle]
  refine ⟨rfl,buffering.incomplete,expecting,?_,buffering.consumers,buffering.acts,?_⟩
  · exact fun consumer inside => LocalPOpDirectory.connected_setComplete (buffering.connected consumer inside) sender
  · rw [buffering.flow,received,received,List.flatMap_append,List.flatMap_singleton,List.append_nil]

theorem Buffering.finish (buffering : Buffering isProducer consumerVec messages pieces process)
    (some : consumerVec ≠ []) {sender : String} (known : isProducer sender) (missing : .complete sender ∉ messages)
    (finished : Finished isProducer (messages ++ [.complete sender])) :
    ∃ pieces, Conserved consumerVec (received messages)
    (process.receive SplitPOp.onReceive (.complete sender)) pieces := by
  obtain ⟨taken,_,all⟩ := buffering.expecting.complete known missing
  have connected : Connected process.operator.consumerVec (process.ctx.operatorMap.setComplete sender).1 := by
    rw [buffering.consumers]
    exact fun consumer inside => LocalPOpDirectory.connected_setComplete (buffering.connected consumer inside) sender
  obtain ⟨more,handled,rest⟩ := onComplete_eq process.operator
    {process.ctx with operatorMap := (process.ctx.operatorMap.setComplete sender).1} buffering.incomplete
      (all.mpr finished)
    connected
  have whole : (pieces ++ more).flatten = received messages := by
    rw [List.flatten_append,rest,buffering.flow]
  have acts : (process.receive SplitPOp.onReceive (.complete sender)).ctx.acts =
      (pieces ++ more).flatMap (sends consumerVec) ++ [.notifyComplete] := by
    rw [Process.receive_complete buffering.alive taken,SplitPOp.onReceive,handled]
    change process.ctx.acts ++ _ = _
    rw [buffering.acts,buffering.consumers,List.flatMap_append,List.append_assoc]
  obtain ⟨once,consumers⟩ := sentRows_flatMap (pieces ++ more) some
  refine ⟨pieces ++ more,?_,?_,whole,acts,?_,?_,?_,?_⟩
  · rw [Process.receive_complete buffering.alive taken,SplitPOp.onReceive,handled]
  · rw [Process.receive_complete buffering.alive taken,SplitPOp.onReceive,handled]
    rfl
  · exact fun piece _ => flatten_splitArray piece (List.length_pos_iff.mpr some)
  · exact fun piece _ => lengths_splitArray piece (List.length_pos_iff.mpr some)
  · rw [acts,once,whole]
  · rw [acts]
    exact consumers

theorem buffering_run {started : Process (SplitPOp ρ) α (TupleSet ρ)} (launched : Launched isProducer started)
    (messages : List (Waiting (Option (TupleSet ρ)))) (produced : FromProducers isProducer messages)
    (more : ¬Finished isProducer messages) (present : Present messages) : ∃ pieces,
      Buffering isProducer started.operator.consumerVec messages pieces (started.run SplitPOp.onReceive messages) := by
  induction messages using List.reverseRecOn with
  | nil =>
    have awaiting := launched.awaiting
    refine ⟨[],launched.alive,launched.incomplete,?_,launched.connected,rfl,launched.silent,?_⟩
    · exact expecting_nil awaiting
    · change held started.operator = []
      rw [held,launched.blank]
      rfl
  | append_singleton messages message ih =>
    obtain ⟨earlier,known,missing⟩ := produced.init
    obtain ⟨pieces,buffering⟩ := ih earlier (Finished.not_of_missing known missing)
      fun sender inside => present sender (List.mem_append_left _ inside)
    rw [Process.run_snoc]
    cases message with
    | content sender tupleSet =>
      cases tupleSet with
      | none => exact absurd (List.mem_append_right _ List.mem_cons_self) (present sender)
      | some tupleSet => exact buffering.content sender tupleSet
    | complete sender => exact ⟨pieces,buffering.complete known missing more⟩

end

/-- Whoever the producers are and in whatever order their messages come, every row received goes to one consumer, if and
only if none of the messages comes without a tuple set. -/
theorem split_conserves_iff (isProducer : String → Prop) (started : Process (SplitPOp ρ) α (TupleSet ρ))
    (launched : Launched isProducer started) (some : started.operator.consumerVec ≠ [])
    (messages : List (Waiting (Option (TupleSet ρ)))) (last : String)
    (produced : FromProducers isProducer (messages ++ [.complete last]))
    (finished : Finished isProducer (messages ++ [.complete last])) :
    (∃ pieces, Conserved started.operator.consumerVec (received messages)
      (started.run SplitPOp.onReceive (messages ++ [.complete last])) pieces) ↔ Present messages := by
  constructor
  · rintro ⟨pieces,conserved⟩ sender inside
    obtain ⟨before,after,rfl⟩ := List.append_of_mem inside
    have dead : (started.run SplitPOp.onReceive (before ++ [.content sender none])).fault.isSome = true := by
      rw [Process.run_snoc,Process.receive]
      split
      next faulted => exact faulted
      next => rfl
    have whole : before ++ .content sender none::after ++ [.complete last] =
        before ++ [.content sender none] ++ (after ++ [.complete last]) := by simp
    have alive := conserved.alive
    rw [whole,Process.run_append,Process.run_faulted dead] at alive
    rw [alive] at dead
    cases dead
  · intro present
    obtain ⟨earlier,known,missing⟩ := produced.init
    obtain ⟨pieces,buffering⟩ := buffering_run launched messages earlier (Finished.not_of_missing known missing) present
    rw [Process.run_snoc]
    exact buffering.finish some known missing finished

/-- One producer and two consumers. -/
def scanned : Process (SplitPOp Nat) Unit (TupleSet Nat) where
  operator := ⟨["left","right"],none⟩
  ctx := ⟨0,"split",(((LocalPOpDirectory.make.insert ⟨"scan",(),.producer,false⟩).1.insert ⟨"left",(),.consumer,false⟩).1.insert
    ⟨"right",(),.consumer,false⟩).1,false,[]⟩
  fault := none

theorem scanned_launched : Launched (fun name => name = "scan" ∨ False) scanned where
  alive := rfl
  blank := rfl
  incomplete := rfl
  silent := rfl
  awaiting := ((LocalPOpDirectory.awaiting_make.insert "scan" rfl ()).insert_consumer "left" rfl ()).insert_consumer
    "right" rfl ()
  connected := by
    intro consumer inside
    simp only [scanned,List.mem_cons,List.not_mem_nil,or_false] at inside
    obtain rfl | rfl := inside <;> rfl

theorem scanned_conserves : ∃ pieces, Conserved ["left","right"] [1,2,3] (scanned.run SplitPOp.onReceive
    [.content "scan" (some (.ofRows [1,2])),.content "scan" (some (.ofRows [])),.content "scan" (some (.ofRows [3])),
      .complete "scan"]) pieces :=
  (split_conserves_iff _ scanned scanned_launched (List.cons_ne_nil _ _)
    [.content "scan" (some (.ofRows [1,2])),.content "scan" (some (.ofRows [])),
      .content "scan" (some (.ofRows [3]))] "scan"
    ⟨by simp [Waiting.sender],by simp⟩ (by simp [Finished])).mpr (by simp [Present])

/-- Two rows are buffered when a message comes without a tuple set: the operator is gone, and nobody gets them. -/
theorem buffered_rows_lost :
    (scanned.run SplitPOp.onReceive [.content "scan" (some (.ofRows [1,2])),.content "scan" none,
      .complete "scan"]).fault =
        some .nullDereference ∧
      (scanned.run SplitPOp.onReceive [.content "scan" (some (.ofRows [1,2])),.content "scan" none,
        .complete "scan"]).ctx.acts = [] ∧
      ¬∃ pieces, Conserved ["left","right"] [1,2] (scanned.run SplitPOp.onReceive
        [.content "scan" (some (.ofRows [1,2])),.content "scan" none,.complete "scan"]) pieces := by
  refine ⟨rfl,rfl,?_⟩
  rintro ⟨pieces,conserved⟩
  cases conserved.alive

end Hermes.Split
