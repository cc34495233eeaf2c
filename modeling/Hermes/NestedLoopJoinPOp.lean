import Hermes.NestedLoopJoinOutput
import Hermes.ShufflePOp

/-! `NestedLoopJoinPOp` around its kernel: what has been joined is told whenever enough is
buffered, and the rest when all producers are done. -/
namespace Hermes.Join
open Hermes.Tuple Hermes.Operators
open Hermes.Shuffle (DefaultBufferSize)
open Hermes.Tuples (canonicalize)

variable {α ν : Type} {left right : Schema}

structure NestedLoopJoinPOp (ν : Type) (left right : Schema) where
  projectColumnNames : List String
  arguments : NestedLoopJoinArguments ν left right
  kernel : NestedLoopJoinKernel ν left right
  sentResult : Bool

def projectedColumns (schema : Schema) (columnNames : List String) : List (Fin schema.length) :=
  columnNames.filterMap fun columnName => getFieldIndex schema (canonicalize columnName)

def projectRow {schema : Schema} (columns : List (Fin schema.length)) (row : OutputRow ν) : OutputRow ν :=
  columns.map fun c => row[c.val]?.join

def projectExist (schema : Schema) (columnNames : List String) (tupleSet : TupleSet (OutputRow ν)) :
    Except String (TupleSet (OutputRow ν)) :=
  if (projectedColumns schema columnNames).isEmpty then .error "No column exists."
  else .ok (tupleSet.projectExist (projectRow (projectedColumns schema columnNames)))

def NestedLoopJoinKernel.clear (kernel : NestedLoopJoinKernel ν left right) : NestedLoopJoinKernel ν left right :=
  {kernel with leftTupleSet := none, rightTupleSet := none, buffer := none, leftJoinHelper := none, rightJoinHelper := none}

namespace NestedLoopJoinPOp

def make (projectColumnNames : List String) (arguments : NestedLoopJoinArguments ν left right) :
    NestedLoopJoinPOp ν left right :=
  ⟨projectColumnNames,arguments,.make,false⟩

def clear (op : NestedLoopJoinPOp ν left right) : NestedLoopJoinPOp ν left right := {op with kernel := op.kernel.clear}

/-- A projection that failed is still asked for its value. -/
def send (op : NestedLoopJoinPOp ν left right) (ctx : POpContext α (TupleSet (OutputRow ν))) (force : Bool) :
    Process (NestedLoopJoinPOp ν left right) α (TupleSet (OutputRow ν)) :=
  match op.kernel.buffer with
  | none => ⟨op,ctx,none⟩
  | some buffer =>
    if DefaultBufferSize ≤ buffer.numRows ∨ (force = true ∧ 0 < buffer.numRows) then
      match projectExist (op.kernel.outputSchema.getD []) op.projectColumnNames buffer with
      | .error error => ⟨op,ctx.notifyError error,some .exception⟩
      | .ok projectTupleSet =>
        ⟨{op with kernel := {op.kernel with buffer := none}, sentResult := true},ctx.tell projectTupleSet,none⟩
    else ⟨op,ctx,none⟩

/-- The output schema is asked for also where there is none. -/
def sendEmpty (op : NestedLoopJoinPOp ν left right) (ctx : POpContext α (TupleSet (OutputRow ν))) :
    Process (NestedLoopJoinPOp ν left right) α (TupleSet (OutputRow ν)) :=
  match op.kernel.outputSchema with
  | none => ⟨op,ctx.notifyError "OutputSchema not set yet",some .exception⟩
  | some outputSchema =>
    match projectExist outputSchema op.projectColumnNames ⟨[[]]⟩ with
    | .error error => ⟨op,ctx.notifyError error,some .exception⟩
    | .ok projectTupleSet => ⟨op,ctx.tell projectTupleSet,none⟩

/-- The operator with the kernel that a call left. After an error nothing the kernel
holds is read by anyone but this operator, which reaches nobody any more. -/
def update (op : NestedLoopJoinPOp ν left right) (ctx : POpContext α (TupleSet (OutputRow ν)))
    (result : Except Failure (NestedLoopJoinKernel ν left right)) :
    Process (NestedLoopJoinPOp ν left right) α (TupleSet (OutputRow ν)) :=
  match result with
  | .ok kernel => ⟨{op with kernel := kernel},ctx,none⟩
  | .error (.error message) => ⟨op,ctx.notifyError message,none⟩
  | .error .undefined => ⟨op,ctx,some .nullDereference⟩

/-- The constructor of the message says in which set of producer names its sender is. -/
def onTuple (reader : TableBatchReader) (op : NestedLoopJoinPOp ν left right)
    (ctx : POpContext α (TupleSet (OutputRow ν))) (message : JoinMessage ν left right) :
    Process (NestedLoopJoinPOp ν left right) α (TupleSet (OutputRow ν)) :=
  (op.update ctx (op.kernel.receive reader op.arguments message)).andThen fun op ctx => op.send ctx false

def onComplete (op : NestedLoopJoinPOp ν left right) (ctx : POpContext α (TupleSet (OutputRow ν))) :
    Process (NestedLoopJoinPOp ν left right) α (TupleSet (OutputRow ν)) :=
  if !ctx.complete && ctx.operatorMap.allComplete .producer then
    (((op.update ctx (op.kernel.finalize op.arguments)).andThen fun op ctx => op.send ctx true).andThen
      fun op ctx => if op.sentResult then ⟨op,ctx,none⟩ else op.sendEmpty ctx).andThen
        fun op ctx => ⟨op.clear,ctx.notifyComplete,none⟩
  else ⟨op,ctx,none⟩

def onReceive (reader : TableBatchReader) (op : NestedLoopJoinPOp ν left right)
    (ctx : POpContext α (TupleSet (OutputRow ν))) :
    Operators.Waiting (JoinMessage ν left right) → Process (NestedLoopJoinPOp ν left right) α (TupleSet (OutputRow ν))
  | .content _ message => op.onTuple reader ctx message
  | .complete _ => op.onComplete ctx

end NestedLoopJoinPOp

namespace NestedLoopJoinKernel

def withBuffer (kernel : NestedLoopJoinKernel ν left right) (buffer : Option (TupleSet (OutputRow ν))) :
    NestedLoopJoinKernel ν left right := {kernel with buffer := buffer}

/-- A call puts out the same rows whatever is buffered. -/
def Puts (call : NestedLoopJoinKernel ν left right → Except Failure (NestedLoopJoinKernel ν left right))
    (kernel after : NestedLoopJoinKernel ν left right) (more : List (OutputRow ν)) : Prop :=
  after.bufferedRows = kernel.bufferedRows ++ more ∧
    ∀ buffer, ∃ next, call (kernel.withBuffer buffer) = .ok (after.withBuffer next) ∧
      (after.withBuffer next).bufferedRows = (kernel.withBuffer buffer).bufferedRows ++ more

section
variable {reader : TableBatchReader} {arguments : NestedLoopJoinArguments ν left right}
  {kernel after : NestedLoopJoinKernel ν left right}

theorem bufferOutputSchema_withBuffer (kernel : NestedLoopJoinKernel ν left right)
    (buffer : Option (TupleSet (OutputRow ν))) :
    (kernel.bufferOutputSchema arguments).bufferedRows = kernel.bufferedRows ∧
      (kernel.withBuffer buffer).bufferOutputSchema arguments =
      (kernel.bufferOutputSchema arguments).withBuffer buffer := by
  obtain ⟨_,_,outputSchema,_,_,_,_,_⟩ := kernel
  cases outputSchema <;> exact ⟨rfl,rfl⟩

theorem makeOuterJoinHelpers_withBuffer (made : makeOuterJoinHelpers arguments kernel = .ok after)
    (buffer : Option (TupleSet (OutputRow ν))) :
    after.bufferedRows = kernel.bufferedRows ∧
      makeOuterJoinHelpers arguments (kernel.withBuffer buffer) = .ok (after.withBuffer buffer) := by
  obtain ⟨leftTupleSet,rightTupleSet,outputSchema,needed,leftJoinHelper,rightJoinHelper,created,buffered⟩ := kernel
  unfold makeOuterJoinHelpers at made ⊢
  cases created with
  | true =>
    cases made
    exact ⟨rfl,rfl⟩
  | false =>
    cases outputSchema with
    | none => cases made
    | some outputSchema =>
      cases made
      exact ⟨rfl,rfl⟩

theorem Puts.none {call : NestedLoopJoinKernel ν left right → Except Failure (NestedLoopJoinKernel ν left right)}
    (rows : after.bufferedRows = kernel.bufferedRows)
    (same : ∀ buffer, call (kernel.withBuffer buffer) = .ok (after.withBuffer buffer)) : Puts call kernel after [] := by
  refine ⟨by rw [rows,List.append_nil],?_⟩
  intro buffer
  exact ⟨buffer,same buffer,(List.append_nil _).symm⟩

theorem Puts.of_step {call next : NestedLoopJoinKernel ν left right →
      Except Failure (NestedLoopJoinKernel ν left right)}
    {middle : NestedLoopJoinKernel ν left right} {more : List (OutputRow ν)} (puts : Puts next middle after more)
    (rows : middle.bufferedRows = kernel.bufferedRows)
    (same : ∀ buffer, call (kernel.withBuffer buffer) = next (middle.withBuffer buffer)) :
    Puts call kernel after more := by
  refine ⟨by rw [← rows,puts.1],?_⟩
  intro buffer
  rw [same buffer]
  exact puts.2 buffer

theorem bufferOutput_puts (kernel : NestedLoopJoinKernel ν left right) (tupleSet : TupleSet (OutputRow ν)) :
    Puts (fun kernel => .ok (kernel.bufferOutput tupleSet)) kernel (kernel.bufferOutput tupleSet) tupleSet.rows := by
  have same (buffer : Option (TupleSet (OutputRow ν))) :
      (kernel.bufferOutput tupleSet).withBuffer ((kernel.withBuffer buffer).bufferOutput tupleSet).buffer =
        (kernel.withBuffer buffer).bufferOutput tupleSet := by
    rw [bufferOutput_eq kernel,bufferOutput_eq (kernel.withBuffer buffer)]
    rfl
  refine ⟨bufferedRows_bufferOutput kernel tupleSet,?_⟩
  intro buffer
  refine ⟨((kernel.withBuffer buffer).bufferOutput tupleSet).buffer,?_,?_⟩
  · rw [same buffer]
  · rw [same buffer,bufferedRows_bufferOutput]

theorem join_puts {leftTupleSet : TupleSet (Record ν left)} {rightTupleSet : TupleSet (Record ν right)}
    (joined : kernel.join reader arguments leftTupleSet rightTupleSet = .ok after) :
    ∃ more, Puts (fun kernel => kernel.join reader arguments leftTupleSet rightTupleSet) kernel after more := by
  obtain ⟨keptLeft,keptRight,outputSchema,needed,leftJoinHelper,rightJoinHelper,created,buffered⟩ := kernel
  unfold join at joined
  cases outputSchema with
  | none => cases joined
  | some outputSchema =>
    dsimp only at joined
    cases result : (RecordBatchNestedLoopJoiner.make arguments.predicate outputSchema needed).joinBatches
        (reader.batches rightTupleSet) (keptLeft.elim 0 TupleSet.numRows) (keptRight.elim 0 TupleSet.numRows)
        (reader.batches leftTupleSet) with
    | error failure =>
      rw [result] at joined
      cases joined
    | ok joiner =>
      rw [result] at joined
      cases joined
      refine ⟨joiner.toTupleSet.rows,(bufferOutput_puts _ joiner.toTupleSet).of_step rfl ?_⟩
      intro buffer
      unfold join withBuffer
      dsimp only
      rw [result]
      rfl

theorem join_if_puts {leftTupleSet : TupleSet (Record ν left)} {rightTupleSet : TupleSet (Record ν right)}
    {empty : Prop} [Decidable empty]
    (joined : (if empty then .ok kernel else kernel.join reader arguments leftTupleSet rightTupleSet) = .ok after) :
    ∃ more, Puts (fun kernel => if empty then .ok kernel else kernel.join reader arguments leftTupleSet rightTupleSet)
      kernel after more := by
  by_cases nothing : empty
  · rw [if_pos nothing] at joined
    cases joined
    simp only [if_pos nothing]
    exact ⟨[],Puts.none rfl fun _ => rfl⟩
  · rw [if_neg nothing] at joined
    simp only [if_neg nothing]
    exact join_puts joined

theorem prepare_puts {call : NestedLoopJoinKernel ν left right → Except Failure (NestedLoopJoinKernel ν left right)}
    (each : ∀ {kernel after : NestedLoopJoinKernel ν left right}, call kernel = .ok after →
      ∃ more, Puts call kernel after more)
    (joined : (makeOuterJoinHelpers arguments (kernel.bufferOutputSchema arguments) >>= call) = .ok after) :
    ∃ more, Puts (fun kernel => makeOuterJoinHelpers arguments (kernel.bufferOutputSchema arguments) >>= call)
      kernel after more := by
  cases made : makeOuterJoinHelpers arguments (kernel.bufferOutputSchema arguments) with
  | error failure =>
    rw [made] at joined
    cases joined
  | ok prepared =>
    rw [made] at joined
    obtain ⟨more,puts⟩ := each joined
    refine ⟨more,puts.of_step ?_ ?_⟩
    · rw [(makeOuterJoinHelpers_withBuffer made none).1]
      exact (bufferOutputSchema_withBuffer kernel none).1
    · intro buffer
      rw [(bufferOutputSchema_withBuffer kernel buffer).2,(makeOuterJoinHelpers_withBuffer made buffer).2]
      rfl

theorem receive_puts {message : JoinMessage ν left right}
    (received : kernel.receive reader arguments message = .ok after) :
    ∃ more, Puts (fun kernel => kernel.receive reader arguments message) kernel after more := by
  obtain ⟨keptLeft,keptRight,outputSchema,needed,leftJoinHelper,rightJoinHelper,created,buffered⟩ := kernel
  cases message with
  | left incomingLeft =>
    cases keptRight with
    | none =>
      cases received
      exact ⟨[],Puts.none rfl fun _ => rfl⟩
    | some rightTupleSet =>
      have reached : (makeOuterJoinHelpers arguments (bufferOutputSchema arguments ⟨bufferInput keptLeft incomingLeft,
          some rightTupleSet,outputSchema,needed,leftJoinHelper,rightJoinHelper,created,buffered⟩) >>= fun kernel =>
          if rightTupleSet.numRows = 0 ∨ incomingLeft.numRows = 0 then .ok kernel
          else kernel.join reader arguments incomingLeft rightTupleSet) = .ok after := received
      obtain ⟨more,puts⟩ := prepare_puts join_if_puts reached
      exact ⟨more,puts.of_step rfl fun _ => rfl⟩
  | right incomingRight =>
    cases keptLeft with
    | none =>
      cases received
      exact ⟨[],Puts.none rfl fun _ => rfl⟩
    | some leftTupleSet =>
      have reached : (makeOuterJoinHelpers arguments (bufferOutputSchema arguments ⟨some leftTupleSet,
          bufferInput keptRight incomingRight,outputSchema,needed,leftJoinHelper,rightJoinHelper,created,buffered⟩) >>=
          fun kernel => if leftTupleSet.numRows = 0 ∨ incomingRight.numRows = 0 then .ok kernel
          else kernel.join reader arguments leftTupleSet incomingRight) = .ok after := received
      obtain ⟨more,puts⟩ := prepare_puts join_if_puts reached
      exact ⟨more,puts.of_step rfl fun _ => rfl⟩

end
end NestedLoopJoinKernel

/-- What has come, without the senders. -/
def contents (messages : List (Operators.Waiting (JoinMessage ν left right))) : List (JoinMessage ν left right) :=
  messages.filterMap fun message =>
    match message with
    | .content _ content => some content
    | .complete _ => none

theorem contents_content (messages : List (Operators.Waiting (JoinMessage ν left right))) (sender : String)
    (message : JoinMessage ν left right) :
    contents (messages ++ [.content sender message]) = contents messages ++ [message] :=
  List.filterMap_append

theorem contents_complete (messages : List (Operators.Waiting (JoinMessage ν left right))) (sender : String) :
    contents (messages ++ [.complete sender]) = contents messages := by
  simp [contents]

/-- An instance that both sides can be joined on: the projection finds a column. -/
def Projectable (op : NestedLoopJoinPOp ν left right) : Prop :=
  projectedColumns (outputFields left right op.arguments.neededColumnNames) op.projectColumnNames ≠ []

def projected (op : NestedLoopJoinPOp ν left right) (tupleSet : TupleSet (OutputRow ν)) : TupleSet (OutputRow ν) :=
  tupleSet.projectExist (projectRow
    (projectedColumns (outputFields left right op.arguments.neededColumnNames) op.projectColumnNames))

/-- A kernel that is never emptied would hold what has been told and what is still buffered. -/
def Telling (op : NestedLoopJoinPOp ν left right) (messages : List (JoinMessage ν left right))
    (acts : List (Act (TupleSet (OutputRow ν)))) (now : NestedLoopJoinPOp ν left right) : Prop :=
  ∃ (whole : NestedLoopJoinKernel ν left right) (buffer : Option (TupleSet (OutputRow ν)))
    (sent : List (TupleSet (OutputRow ν))), NestedReflects op.arguments messages whole ∧
      now = {op with kernel := whole.withBuffer buffer, sentResult := !sent.isEmpty} ∧
      acts = sent.map (fun tupleSet => .tell (projected op tupleSet)) ∧
      whole.bufferedRows = sent.flatMap TupleSet.rows ++ (whole.withBuffer buffer).bufferedRows

section
variable {op now : NestedLoopJoinPOp ν left right} {messages : List (JoinMessage ν left right)}
  {acts : List (Act (TupleSet (OutputRow ν)))}

theorem NestedReflects.schema {arguments : NestedLoopJoinArguments ν left right}
    {kernel : NestedLoopJoinKernel ν left right}
    (reflects : NestedReflects arguments messages kernel) (some : kernel.bufferedRows ≠ []) :
    kernel.outputSchema = Option.some (outputFields left right arguments.neededColumnNames) := by
  by_cases empty : leftTables messages = [] ∨ rightTables messages = []
  · have idle := reflects.idle empty
    unfold Idle at idle
    rw [idle] at some
    exact absurd rfl some
  · rw [not_or] at empty
    exact (reflects.multiplied empty.1 empty.2).schema

theorem Telling.send (telling : Telling op messages acts now) (projectable : Projectable op)
    (ctx : POpContext α (TupleSet (OutputRow ν))) (incomplete : ctx.complete = false) (force : Bool) :
    ∃ more after, now.send ctx force = ⟨after,ctx.record more,none⟩ ∧ Telling op messages (acts ++ more) after ∧
      (force = true → after.kernel.bufferedRows = []) := by
  have kept := telling
  obtain ⟨whole,buffer,sent,reflects,isNow,told,rows⟩ := telling
  subst isNow
  cases buffer with
  | none =>
    refine ⟨[],_,by rw [POpContext.record_nil]; rfl,?_,fun _ => rfl⟩
    rw [List.append_nil]
    exact kept
  | some buffer =>
    have held : (whole.withBuffer (some buffer)).bufferedRows = buffer.rows := rfl
    rw [NestedLoopJoinPOp.send]
    dsimp only [NestedLoopJoinKernel.withBuffer]
    split
    next must =>
      have some : buffer.rows ≠ [] := by
        intro none
        have empty : buffer.numRows = 0 := by rw [TupleSet.numRows,none]; rfl
        rw [empty] at must
        exact must.elim (by decide) fun both => absurd both.2 (Nat.lt_irrefl 0)
      have schema := reflects.schema (by
        rw [rows,held]
        exact List.append_ne_nil_of_right_ne_nil _ some)
      have found : (projectedColumns (outputFields left right op.arguments.neededColumnNames)
          op.projectColumnNames).isEmpty = false := by simpa [Projectable] using projectable
      rw [schema,Option.getD_some,projectExist,found]
      refine ⟨[.tell (projected op buffer)],_,?_,⟨whole,none,sent ++ [buffer],reflects,rfl,?_,?_⟩,fun _ => rfl⟩
      · rw [← ctx.tell_incomplete incomplete]
        simp [projected,NestedLoopJoinKernel.withBuffer,schema]
      · rw [told,List.map_append]
        rfl
      · rw [rows,held,List.flatMap_append,List.flatMap_singleton]
        exact (List.append_nil _).symm
    next keep =>
      refine ⟨[],_,by rw [POpContext.record_nil],?_,?_⟩
      · rw [List.append_nil]
        exact kept
      · intro forced
        rw [not_or,not_and] at keep
        exact List.eq_nil_of_length_eq_zero (Nat.eq_zero_of_not_pos (keep.2 forced))

theorem Joinable.init {arguments : NestedLoopJoinArguments ν left right} {message : JoinMessage ν left right}
    (joinable : Joinable arguments (messages ++ [message])) : Joinable arguments messages := by
  cases message with
  | left table => exact joinable.of_left
  | right table => exact joinable.of_right

theorem receive_nested (reader : TableBatchReader) (cuts : CutsFilled reader)
    {arguments : NestedLoopJoinArguments ν left right} {kernel : NestedLoopJoinKernel ν left right}
    (reflects : NestedReflects arguments messages kernel) {message : JoinMessage ν left right}
    (joinable : Joinable arguments (messages ++ [message])) :
    ∃ after, kernel.receive reader arguments message = .ok after ∧
    NestedReflects arguments (messages ++ [message]) after := by
  cases message with
  | left table => exact receive_left reader cuts reflects joinable
  | right table => exact receive_right reader cuts reflects joinable

theorem Telling.onTuple (reader : TableBatchReader) (cuts : CutsFilled reader) (telling : Telling op messages acts now)
    (projectable : Projectable op) {message : JoinMessage ν left right}
    (joinable : Joinable op.arguments (messages ++ [message])) (ctx : POpContext α (TupleSet (OutputRow ν)))
    (incomplete : ctx.complete = false) :
    ∃ more after, now.onTuple reader ctx message = ⟨after,ctx.record more,none⟩ ∧
      Telling op (messages ++ [message]) (acts ++ more) after := by
  obtain ⟨whole,buffer,sent,reflects,isNow,told,rows⟩ := telling
  obtain ⟨next,received,reflects⟩ := receive_nested reader cuts reflects joinable
  obtain ⟨more,out,puts⟩ := NestedLoopJoinKernel.receive_puts received
  obtain ⟨nextBuffer,done,out'⟩ := puts buffer
  have later : Telling op (messages ++ [message]) acts {now with kernel := next.withBuffer nextBuffer} := by
    refine ⟨next,nextBuffer,sent,reflects,?_,told,?_⟩
    · rw [isNow]
    · rw [out,out',rows,List.append_assoc]
  obtain ⟨acts',after,isSent,telling,_⟩ := later.send projectable ctx incomplete false
  refine ⟨acts',after,?_,telling⟩
  have call : now.kernel.receive reader now.arguments message = .ok (next.withBuffer nextBuffer) := by
    rw [isNow]
    exact done
  rw [NestedLoopJoinPOp.onTuple,call]
  exact isSent

theorem rows_projected (op : NestedLoopJoinPOp ν left right) (tables : List (TupleSet (OutputRow ν))) :
    (tables.map (projected op)).flatMap TupleSet.rows = (tables.flatMap TupleSet.rows).map (projectRow
      (projectedColumns (outputFields left right op.arguments.neededColumnNames) op.projectColumnNames)) := by
  rw [List.flatMap_map,List.map_flatMap]
  simp only [projected,TupleSet.rows_projectExist]

theorem sendEmpty_projected (projectable : Projectable op) {kernel : NestedLoopJoinKernel ν left right}
    (schema : kernel.outputSchema = some (outputFields left right op.arguments.neededColumnNames)) (sentResult : Bool)
    (ctx : POpContext α (TupleSet (OutputRow ν))) (incomplete : ctx.complete = false) :
    ({op with kernel := kernel, sentResult := sentResult} : NestedLoopJoinPOp ν left right).sendEmpty ctx =
      ⟨{op with kernel := kernel, sentResult := sentResult},ctx.record [.tell (projected op ⟨[[]]⟩)],none⟩ := by
  have found : (projectedColumns (outputFields left right op.arguments.neededColumnNames)
      op.projectColumnNames).isEmpty = false := by simpa [Projectable] using projectable
  rw [NestedLoopJoinPOp.sendEmpty]
  dsimp only
  rw [schema]
  dsimp only
  rw [projectExist,found,← ctx.tell_incomplete incomplete]
  rfl

theorem Telling.onComplete (telling : Telling op messages acts now) (projectable : Projectable op)
    (straight : ¬Swapped op.arguments messages) (lefts : leftTables messages ≠ []) (rights : rightTables messages ≠ [])
    (ctx : POpContext α (TupleSet (OutputRow ν))) (incomplete : ctx.complete = false)
    (all : ctx.operatorMap.allComplete .producer = true) :
    ∃ (after : NestedLoopJoinPOp ν left right) (more : List (Act (TupleSet (OutputRow ν))))
      (tables : List (TupleSet (OutputRow ν))), now.onComplete ctx =
      ⟨after,{ctx.record more with complete := true},none⟩ ∧
      acts ++ more = tables.map .tell ++ [.notifyComplete] ∧
      (tables.flatMap TupleSet.rows).Perm ((joinedPairs op.arguments (leftRows messages) (rightRows messages)).map
        (projectRow (projectedColumns (outputFields left right op.arguments.neededColumnNames) op.projectColumnNames))) := by
  have finalized : now.kernel.finalize now.arguments = .ok now.kernel := by
    obtain ⟨whole,buffer,sent,reflects,isNow,_⟩ := telling
    rw [isNow]
    have helpless : Helpless op.arguments (whole.withBuffer buffer) := reflects.helpless straight
    exact finalize_helpless helpless
  obtain ⟨more,after,isSent,telling,emptied⟩ := telling.send projectable ctx incomplete true
  obtain ⟨whole,buffer,sent,reflects,isAfter,told,rows⟩ := telling
  have output : (sent.flatMap TupleSet.rows).Perm
      (joinedPairs op.arguments (leftRows messages) (rightRows messages)) := by
    have nothing : (whole.withBuffer buffer).bufferedRows = [] := by
      have empty := emptied rfl
      rw [isAfter] at empty
      exact empty
    rw [nothing,List.append_nil] at rows
    rw [← rows]
    exact reflects.rows
  have recorded : (ctx.record more).complete = false := incomplete
  rw [NestedLoopJoinPOp.onComplete,if_pos (by simp [incomplete,all]),finalized,NestedLoopJoinPOp.update,
    Process.andThen_returned,isSent,Process.andThen_returned,isAfter]
  cases sent with
  | nil =>
    have schema : (whole.withBuffer buffer).outputSchema =
        some (outputFields left right op.arguments.neededColumnNames) := (reflects.multiplied lefts rights).schema
    rw [if_neg (by simp),sendEmpty_projected projectable schema _ _ recorded,Process.andThen_returned,
      POpContext.notifyComplete_incomplete _ (by exact incomplete),POpContext.record_record,POpContext.record_record]
    refine ⟨_,_,[projected op ⟨[[]]⟩],rfl,?_,?_⟩
    · rw [← List.append_assoc,← List.append_assoc,told]
      rfl
    · rw [← List.map_singleton,rows_projected]
      exact output.map _
  | cons first sent =>
    rw [if_pos (by simp),Process.andThen_returned,POpContext.notifyComplete_incomplete _ recorded,
      POpContext.record_record]
    refine ⟨_,_,(first::sent).map (projected op),rfl,?_,?_⟩
    · rw [← List.append_assoc,told,List.map_map]
      rfl
    · rw [rows_projected]
      exact output.map _

end

structure Started (isProducer : String → Prop) (op : NestedLoopJoinPOp ν left right)
    (process : Process (NestedLoopJoinPOp ν left right) α (TupleSet (OutputRow ν))) : Prop where
  operator : process.operator = op
  blank : op.kernel = .make ∧ op.sentResult = false
  alive : process.fault = none
  incomplete : process.ctx.complete = false
  silent : process.ctx.acts = []
  awaiting : process.ctx.operatorMap.Awaiting isProducer

structure Running (isProducer : String → Prop) (op : NestedLoopJoinPOp ν left right)
    (messages : List (Operators.Waiting (JoinMessage ν left right)))
    (process : Process (NestedLoopJoinPOp ν left right) α (TupleSet (OutputRow ν))) : Prop where
  alive : process.fault = none
  incomplete : process.ctx.complete = false
  expecting : Expecting isProducer messages process.ctx.operatorMap
  telling : Telling op (contents messages) process.ctx.acts process.operator

section
variable {isProducer : String → Prop} {op : NestedLoopJoinPOp ν left right}
  {messages : List (Operators.Waiting (JoinMessage ν left right))}
  {process : Process (NestedLoopJoinPOp ν left right) α (TupleSet (OutputRow ν))}

theorem Started.running (fresh : Started isProducer op process) : Running isProducer op [] process := by
  refine ⟨fresh.alive,fresh.incomplete,?_,?_⟩
  · exact expecting_nil fresh.awaiting
  · refine ⟨.make,none,[],⟨rfl,rfl,fun _ => rfl,fun some => absurd rfl some⟩,?_,?_,rfl⟩
    · rw [fresh.operator]
      obtain ⟨projectColumnNames,arguments,kernel,sentResult⟩ := op
      obtain ⟨isMade,unsent⟩ := fresh.blank
      dsimp only at isMade unsent
      rw [isMade,unsent]
      rfl
    · rw [fresh.silent]
      rfl

theorem Running.content (reader : TableBatchReader) (cuts : CutsFilled reader)
    (running : Running isProducer op messages process)
    (projectable : Projectable op) {sender : String} {message : JoinMessage ν left right}
    (joinable : Joinable op.arguments (contents messages ++ [message])) :
    Running isProducer op (messages ++ [.content sender message])
      (process.receive (NestedLoopJoinPOp.onReceive reader) (.content sender message)) := by
  obtain ⟨more,after,done,telling⟩ :=
    running.telling.onTuple reader cuts projectable joinable process.ctx running.incomplete
  rw [Process.receive_content running.alive,NestedLoopJoinPOp.onReceive,done]
  refine ⟨rfl,running.incomplete,?_,?_⟩
  · exact running.expecting.content _ _
  · rw [contents_content]
    exact telling

theorem run_running (reader : TableBatchReader) (cuts : CutsFilled reader)
    (fresh : Started isProducer op process) (projectable : Projectable op)
    (produced : FromProducers isProducer messages) (joinable : Joinable op.arguments (contents messages))
    (unfinished : ¬Finished isProducer messages) :
    Running isProducer op messages (process.run (NestedLoopJoinPOp.onReceive reader) messages) := by
  induction messages using List.reverseRecOn with
  | nil => exact fresh.running
  | append_singleton messages message ih =>
    obtain ⟨before,known,missing⟩ := produced.init
    have earlier := Finished.not_of_missing known missing
    rw [Process.run_snoc]
    cases message with
    | content sender message =>
      rw [contents_content] at joinable
      exact (ih before joinable.init earlier).content reader cuts projectable joinable
    | complete sender =>
      rw [contents_complete] at joinable
      have running := ih before joinable earlier
      change isProducer sender at known
      change .complete sender ∉ messages at missing
      obtain ⟨taken,expecting,all⟩ := running.expecting.complete known missing
      have incomplete := running.incomplete
      rw [Process.receive_complete running.alive taken,NestedLoopJoinPOp.onReceive,NestedLoopJoinPOp.onComplete,
        if_neg (by simp [all,unfinished])]
      refine ⟨rfl,incomplete,expecting,?_⟩
      rw [contents_complete]
      exact running.telling

theorem finished_last (produced : FromProducers isProducer messages) (finished : Finished isProducer messages)
    (some : messages ≠ []) : ∃ before sender, messages = before ++ [.complete sender] ∧ isProducer sender ∧
      .complete sender ∉ before ∧ ¬Finished isProducer before := by
  cases messages using List.reverseRecOn with
  | nil => exact absurd rfl some
  | append_singleton before message =>
    obtain ⟨_,known,missing⟩ := produced.init
    have earlier := Finished.not_of_missing known missing
    cases message with
    | content sender message => exact absurd ((finished_append_content _ _).mp finished) earlier
    | complete sender => exact ⟨before,sender,rfl,known,missing,earlier⟩

theorem instance_output (reader : TableBatchReader) (cuts : CutsFilled reader)
    (fresh : Started isProducer op process) (projectable : Projectable op)
    (produced : FromProducers isProducer messages) (finished : Finished isProducer messages)
    (joinable : Joinable op.arguments (contents messages)) (straight : ¬Swapped op.arguments (contents messages))
    (lefts : leftTables (contents messages) ≠ []) (rights : rightTables (contents messages) ≠ []) :
    ∃ tables : List (TupleSet (OutputRow ν)),
      (process.run (NestedLoopJoinPOp.onReceive reader) messages).ctx.acts = tables.map .tell ++ [.notifyComplete] ∧
      (process.run (NestedLoopJoinPOp.onReceive reader) messages).fault = none ∧
      (tables.flatMap TupleSet.rows).Perm ((joinedPairs op.arguments (leftRows (contents messages))
        (rightRows (contents messages))).map (projectRow (projectedColumns
          (outputFields left right op.arguments.neededColumnNames) op.projectColumnNames))) := by
  have some : messages ≠ [] := by
    intro none
    rw [none] at lefts
    exact lefts rfl
  obtain ⟨before,sender,rfl,known,missing,earlier⟩ := finished_last produced finished some
  rw [contents_complete] at joinable straight lefts rights ⊢
  have running := run_running reader cuts fresh projectable produced.init.1 joinable earlier
  rw [Process.run_snoc]
  generalize process.run (NestedLoopJoinPOp.onReceive reader) before = now at running ⊢
  obtain ⟨taken,_,all⟩ := running.expecting.complete known missing
  obtain ⟨after,more,tables,done,acts,rows⟩ := running.telling.onComplete projectable straight lefts rights
    {now.ctx with operatorMap := (now.ctx.operatorMap.setComplete sender).1} running.incomplete (all.mpr finished)
  rw [Process.receive_complete running.alive taken,NestedLoopJoinPOp.onReceive,done]
  exact ⟨tables,acts,rfl,rows⟩

end
end Hermes.Join
