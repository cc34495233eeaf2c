import Hermes.Library.Cutting

/-! `ArrowAWSGZIPInputStream2::Read`: compressed bytes are refilled from a file and inflated until as many
bytes are there as were asked for. `inflate` itself is a parameter that behaves as its documentation says. -/
namespace Hermes.Tuples.ArrowAWSGZIPInputStream2
open Library.Cutting

inductive InflateCode where
  | streamEnd
  | ok
  | bufError
  | dataError
deriving DecidableEq

structure Inflated (σ : Type) where
  state : σ
  consumed : Nat
  output : List UInt8
  code : InflateCode

/-- `zng_inflate` with `Z_SYNC_FLUSH`: from a state, the bytes at `next_in` and the space at `next_out`. -/
abbrev Inflate (σ : Type) := σ → List UInt8 → Nat → Inflated σ

/-- `next_in` lists the `avail_in` bytes that are there. -/
structure ZStream (σ : Type) where
  state : σ
  nextIn : List UInt8
  availOut : Nat
  totalOut : Nat

structure Stream (σ : Type) where
  underlyingFile : List UInt8
  processedCompressedBytes : Nat
  returnedUncompressedBytes : Nat
  underlyingFileEmpty : Bool
  currentZStream : ZStream σ

variable {σ : Type}

def open_ (start : σ) (file : List UInt8) : Stream σ := ⟨file,0,0,false,⟨start,[],0,0⟩⟩

/-- `avail_in` and `avail_out` have 32 bits. -/
def toUInt32 (count : Nat) : Nat := count % 4294967296

def resetZStream (bytesToRead : Nat) (stream : Stream σ) : Stream σ :=
  let compressedBytes := stream.underlyingFile.take bytesToRead
  { stream with
    underlyingFile := stream.underlyingFile.drop bytesToRead
    underlyingFileEmpty := stream.underlyingFileEmpty || compressedBytes.length < bytesToRead
    processedCompressedBytes := stream.processedCompressedBytes + compressedBytes.length
    currentZStream := { stream.currentZStream with nextIn := compressedBytes.take (toUInt32 compressedBytes.length) } }

-- the stream after a call of `zng_inflate`, which leaves in place what it has not consumed
def inflated (result : Inflated σ) (stream : Stream σ) : Stream σ :=
  { stream with
    currentZStream := {
      state := result.state
      nextIn := stream.currentZStream.nextIn.drop result.consumed
      availOut := stream.currentZStream.availOut - result.output.length
      totalOut := stream.currentZStream.totalOut + result.output.length } }

def setAvailOut (availOut : Nat) (stream : Stream σ) : Stream σ :=
  { stream with currentZStream := { stream.currentZStream with availOut := toUInt32 availOut } }

variable (inflate : Inflate σ)

/-- The loop, if it ends within some iterations; it has written `out` so far. -/
def readLoop (nbytes : Nat) : Nat → Stream σ → List UInt8 → Option (Except String (List UInt8 × Stream σ))
  | 0,_,_ => none
  | iterations+1,stream,out =>
    if out.length < nbytes ∧ (0 < stream.currentZStream.nextIn.length ∨ stream.underlyingFileEmpty = false) then
      let result := inflate stream.currentZStream.state stream.currentZStream.nextIn stream.currentZStream.availOut
      let stream := setAvailOut (nbytes - (out ++ result.output).length) (inflated result stream)
      if result.code = .streamEnd ∨ stream.currentZStream.nextIn.length = 0 then
        readLoop nbytes iterations (setAvailOut (nbytes - (out ++ result.output).length)
          (resetZStream nbytes stream)) (out ++ result.output)
      else if result.code ≠ .ok then some (.error "Error reading zstream")
      else readLoop nbytes iterations stream (out ++ result.output)
    else some (.ok (out,{ stream with returnedUncompressedBytes := stream.returnedUncompressedBytes + out.length }))

/-- An iteration takes a byte of the input or gives one of the output, so that more of them than there are bytes are not needed. -/
def read (nbytes : Nat) (stream : Stream σ) : Option (Except String (List UInt8 × Stream σ)) :=
  let stream := if stream.currentZStream.nextIn.length = 0 then resetZStream nbytes stream else stream
  readLoop inflate nbytes (stream.currentZStream.nextIn.length + stream.underlyingFile.length + nbytes + 1)
    (setAvailOut nbytes stream) []

/-- Calls of `Read`, one for each size. -/
def reads : List Nat → Stream σ → Option (Except String (List (List UInt8) × Stream σ))
  | [],stream => some (.ok ([],stream))
  | nbytes::sizes,stream =>
    match read inflate nbytes stream with
    | some (.ok (out,stream)) =>
      match reads sizes stream with
      | some (.ok (outputs,stream)) => some (.ok (out::outputs,stream))
      | other => other
    | some (.error message) => some (.error message)
    | none => none

section Documented
variable (member content : List UInt8)

/-- A call of `inflate` after `consumed` bytes of a gzip member and `delivered` bytes of its content, as documented: it stops only
where the input is used up, the space is full or the member ends, and it does not go on to another member. -/
structure Call (consumed delivered : Nat) (input : List UInt8) (availOut : Nat) (result : Inflated σ) : Prop where
  within : result.consumed ≤ input.length
  inside : consumed + result.consumed ≤ member.length
  fits : result.output.length ≤ availOut
  gives : result.output = (content.drop delivered).take result.output.length
  stops : result.output.length < availOut → result.consumed = input.length ∨ consumed + result.consumed = member.length
  flushed : result.output.length < availOut → consumed + result.consumed = member.length →
    delivered + result.output.length = content.length
  code : result.code = if consumed + result.consumed = member.length ∧ delivered + result.output.length = content.length then .streamEnd
    else if result.consumed = 0 ∧ result.output = [] then .bufError else .ok

/-- `At` says how far `inflate` is in a state; what it gets is what follows in the member, and then anything. -/
def Behaves (At : σ → Nat → Nat → Prop) : Prop :=
  ∀ state consumed delivered input availOut, At state consumed delivered →
    (∃ following, input <+: member.drop consumed ++ following) →
    @Call σ member content consumed delivered input availOut (inflate state input availOut) ∧
      At (inflate state input availOut).state (consumed + (inflate state input availOut).consumed)
        (delivered + (inflate state input availOut).output.length)

def Decompresses (start : σ) : Prop := ∃ At : σ → Nat → Nat → Prop, At start 0 0 ∧ Behaves inflate member content At

end Documented

variable {inflate : Inflate σ} {member content : List UInt8} {At : σ → Nat → Nat → Prop}
    {consumed delivered nbytes : Nat} {stream : Stream σ}

-- where the stream is: what follows in the buffer and the file is what follows in the member, until the member is used up
variable (member content At) in
structure Going (consumed delivered : Nat) (stream : Stream σ) : Prop where
  state : At stream.currentZStream.state consumed delivered
  inside : consumed ≤ member.length
  given : delivered ≤ content.length
  total : stream.currentZStream.totalOut = delivered
  rest : consumed < member.length →
    ∃ following, stream.currentZStream.nextIn ++ stream.underlyingFile = member.drop consumed ++ following
  empty : stream.underlyingFileEmpty = true → stream.underlyingFile = []

def Refilled (stream : Stream σ) : Prop := stream.currentZStream.nextIn = [] → stream.underlyingFileEmpty = true

theorem take_toUInt32 {bytes : List UInt8} (narrow : bytes.length < 4294967296) :
    bytes.take (toUInt32 bytes.length) = bytes := by
  rw [toUInt32,Nat.mod_eq_of_lt narrow,List.take_length]

theorem resetZStream_nextIn (narrow : nbytes < 4294967296) :
    (resetZStream nbytes stream).currentZStream.nextIn = stream.underlyingFile.take nbytes := by
  apply take_toUInt32
  exact Nat.lt_of_le_of_lt (List.length_take_le _ _) narrow

theorem resetZStream_refilled (positive : 0 < nbytes) (narrow : nbytes < 4294967296) :
    Refilled (resetZStream nbytes stream) := by
  intro none
  rw [resetZStream_nextIn narrow] at none
  change (stream.underlyingFileEmpty || decide ((stream.underlyingFile.take nbytes).length < nbytes)) = true
  rw [none,Bool.or_eq_true,decide_eq_true_iff]
  exact .inr positive

theorem Going.resetZStream (going : Going member content At consumed delivered stream) (narrow : nbytes < 4294967296)
    (used : stream.currentZStream.nextIn = [] ∨ consumed = member.length) :
    Going member content At consumed delivered (resetZStream nbytes stream) := by
  refine ⟨going.state,going.inside,going.given,going.total,fun more => ?_,fun ended => ?_⟩
  · obtain ⟨following,rest⟩ := going.rest more
    rw [used.resolve_right (Nat.ne_of_lt more),List.nil_append] at rest
    refine ⟨following,?_⟩
    rw [resetZStream_nextIn narrow,← rest]
    exact List.take_append_drop nbytes _
  · change stream.underlyingFile.drop nbytes = []
    change (stream.underlyingFileEmpty || decide ((stream.underlyingFile.take nbytes).length < nbytes)) = true at ended
    rw [Bool.or_eq_true,decide_eq_true_iff,List.length_take] at ended
    obtain earlier | fewer := ended
    · rw [going.empty earlier,List.drop_nil]
    · apply List.drop_eq_nil_of_le
      omega

theorem Going.setAvailOut (going : Going member content At consumed delivered stream) (availOut : Nat) :
    Going member content At consumed delivered (setAvailOut availOut stream) :=
  ⟨going.state,going.inside,going.given,going.total,going.rest,going.empty⟩

theorem Call.delivered_le {input : List UInt8} {availOut : Nat} {result : Inflated σ}
    (call : Call member content consumed delivered input availOut result) (given : delivered ≤ content.length) :
    delivered + result.output.length ≤ content.length := by
  have length := congrArg List.length call.gives
  rw [List.length_take,List.length_drop] at length
  omega

theorem Going.inflated {result : Inflated σ} {availOut : Nat}
    (going : Going member content At consumed delivered stream)
    (call : Call member content consumed delivered stream.currentZStream.nextIn availOut result)
    (state : At result.state (consumed + result.consumed) (delivered + result.output.length)) :
    Going member content At (consumed + result.consumed) (delivered + result.output.length)
    (inflated result stream) := by
  refine ⟨state,call.inside,call.delivered_le going.given,congrArg (· + _) going.total,fun more => ?_,going.empty⟩
  obtain ⟨following,rest⟩ := going.rest (by omega)
  refine ⟨following,?_⟩
  have later := congrArg (List.drop result.consumed) rest
  rw [List.drop_append_of_le_length call.within,List.drop_append_of_le_length (by rw [List.length_drop]; omega),
    List.drop_drop] at later
  exact later

theorem Going.follows (going : Going member content At consumed delivered stream) :
    ∃ following, stream.currentZStream.nextIn <+: member.drop consumed ++ following := by
  obtain more | used := Nat.lt_or_eq_of_le going.inside
  · obtain ⟨following,rest⟩ := going.rest more
    exact ⟨following,rest ▸ List.prefix_append _ _⟩
  · refine ⟨stream.currentZStream.nextIn,?_⟩
    rw [used,List.drop_length]
    exact List.prefix_rfl

variable {input : List UInt8} {availOut : Nat} {result : Inflated σ}

theorem Call.ended (call : Call member content consumed delivered input availOut result)
    (done : result.code = .streamEnd) :
    consumed + result.consumed = member.length ∧ delivered + result.output.length = content.length := by
  rw [call.code] at done
  split at done
  next all => exact all
  next => split at done <;> cases done

theorem Call.progress (call : Call member content consumed delivered input availOut result) (some : input ≠ [])
    (space : 0 < availOut)
    (more : result.code ≠ .streamEnd) : result.code = .ok ∧ 0 < result.consumed + result.output.length := by
  have code := call.code
  split at code
  next => exact absurd code more
  next rest =>
    have moved : 0 < result.consumed + result.output.length := by
      by_contra none
      have read := List.length_pos_iff.mpr some
      have short : result.output.length < availOut := by omega
      obtain used | ends := call.stops short
      · omega
      · exact rest ⟨ends,call.flushed short ends⟩
    refine ⟨?_,moved⟩
    rw [code]
    apply if_neg
    rintro ⟨none,empty⟩
    rw [none,empty] at moved
    exact Nat.lt_irrefl _ moved

/-- No compressed byte is left, in the buffer or in the file, but there is content that has not been given. -/
def Stranded (content : List UInt8) (stream : Stream σ) : Prop :=
  stream.currentZStream.nextIn = [] ∧ stream.underlyingFile = [] ∧ stream.currentZStream.totalOut < content.length

theorem not_stranded (going : Going member content At consumed delivered stream) (all : delivered = content.length) :
    ¬Stranded content stream := by
  rintro ⟨_,_,more⟩
  rw [going.total,all] at more
  exact Nat.lt_irrefl _ more

theorem resetZStream_length (narrow : nbytes < 4294967296) :
    (resetZStream nbytes stream).currentZStream.nextIn.length + (resetZStream nbytes stream).underlyingFile.length =
      stream.underlyingFile.length := by
  rw [resetZStream_nextIn narrow]
  change (stream.underlyingFile.take nbytes).length + (stream.underlyingFile.drop nbytes).length = _
  rw [← List.length_append,List.take_append_drop]

theorem resetZStream_not_stranded (going : Going member content At consumed delivered stream)
    (narrow : nbytes < 4294967296)
    (used : stream.currentZStream.nextIn = []) (flushed : consumed = member.length → delivered = content.length) :
    ¬Stranded content (resetZStream nbytes stream) := by
  rintro ⟨none,drained,more⟩
  rw [resetZStream_nextIn narrow] at none
  have file : stream.underlyingFile = [] := by
    rw [← List.take_append_drop nbytes stream.underlyingFile,none]
    exact drained
  obtain before | after := Nat.lt_or_eq_of_le going.inside
  · obtain ⟨following,rest⟩ := going.rest before
    rw [used,file] at rest
    have left := List.drop_eq_nil_iff.mp (List.append_eq_nil_iff.mp rest.symm).1
    omega
  · exact not_stranded going (flushed after) ⟨used,file,more⟩

theorem take_append_take {out output : List UInt8} (gives : output = (content.drop delivered).take output.length)
    (fits : out.length + output.length ≤ nbytes) :
    (out ++ output) ++ (content.drop (delivered + output.length)).take (nbytes - (out ++ output).length) =
      out ++ (content.drop delivered).take (nbytes - out.length) := by
  have space : nbytes - out.length = output.length + (nbytes - (out.length + output.length)) := by omega
  rw [List.append_assoc,List.length_append,space,List.take_add,← gives,List.drop_drop]

theorem readLoop_spec (behaves : Behaves inflate member content At) (positive : 0 < nbytes)
    (narrow : nbytes < 4294967296)
    {iterations : Nat} {out : List UInt8} (going : Going member content At consumed delivered stream)
    (refilled : Refilled stream)
    (space : stream.currentZStream.availOut = nbytes - out.length) (within : out.length ≤ nbytes)
    (unstranded : out.length < nbytes → ¬Stranded content stream)
    (enough : stream.currentZStream.nextIn.length + stream.underlyingFile.length + (nbytes - out.length) < iterations) :
    ∃ consumed' stream', readLoop inflate nbytes iterations stream out =
        some (.ok (out ++ (content.drop delivered).take (nbytes - out.length),stream')) ∧
      Going member content At consumed' (min (delivered + (nbytes - out.length)) content.length) stream' := by
  induction iterations generalizing consumed delivered stream out with
  | zero => exact absurd enough (Nat.not_lt_zero _)
  | succ iterations ih =>
    unfold readLoop
    split
    next more =>
      obtain ⟨room,continues⟩ := more
      have some : stream.currentZStream.nextIn ≠ [] := by
        intro none
        rw [none,refilled none] at continues
        exact continues.elim (Nat.lt_irrefl _) Bool.noConfusion
      have read := List.length_pos_iff.mpr some
      obtain ⟨call,state⟩ := behaves _ _ _ _ stream.currentZStream.availOut going.state going.follows
      dsimp only
      revert call state
      generalize inflate stream.currentZStream.state stream.currentZStream.nextIn stream.currentZStream.availOut = result
      intro call state
      have after := (going.inflated call state).setAvailOut (nbytes - (out ++ result.output).length)
      have fits := call.fits
      rw [space] at fits
      have written : (out ++ result.output).length = out.length + result.output.length := List.length_append
      have narrowed : toUInt32 (nbytes - (out ++ result.output).length) = nbytes - (out ++ result.output).length :=
        Nat.mod_eq_of_lt (by omega)
      have sum : delivered + result.output.length + (nbytes - (out ++ result.output).length) =
          delivered + (nbytes - out.length) := by omega
      have taken := @take_append_take content delivered nbytes out result.output call.gives (by omega)
      have left : (inflated result stream).currentZStream.nextIn.length =
          stream.currentZStream.nextIn.length - result.consumed :=
        List.length_drop
      split
      next refill =>
        have used : (inflated result stream).currentZStream.nextIn = [] ∨ consumed + result.consumed = member.length :=
          refill.elim (fun ends => .inr (call.ended ends).1) fun none => .inl (List.eq_nil_of_length_eq_zero none)
        have reset := (after.resetZStream narrow used).setAvailOut (nbytes - (out ++ result.output).length)
        have size := @resetZStream_length _ nbytes
            (setAvailOut (nbytes - (out ++ result.output).length) (inflated result stream)) narrow
        have next := @ih _ _ _ (out ++ result.output) reset (resetZStream_refilled positive narrow) narrowed
            (by omega) ?_ ?_
        · rwa [sum,taken] at next
        · intro further
          by_cases ends : result.code = .streamEnd
          · exact not_stranded reset (call.ended ends).2
          · have none := List.eq_nil_of_length_eq_zero (refill.resolve_left ends)
            exact resetZStream_not_stranded after narrow none (call.flushed (by omega))
        · change _ + _ + _ < _ at enough
          have file : (setAvailOut (nbytes - (out ++ result.output).length)
              (inflated result stream)).underlyingFile.length =
            stream.underlyingFile.length := rfl
          change (resetZStream _ _).currentZStream.nextIn.length + (resetZStream _ _).underlyingFile.length + _ < _
          omega
      next stays =>
        obtain ⟨more,left'⟩ := not_or.mp stays
        obtain ⟨ok,moved⟩ := call.progress some (by omega) more
        rw [if_neg (not_not.mpr ok)]
        have filled : (inflated result stream).currentZStream.nextIn ≠ [] :=
            fun none => left' (congrArg List.length none)
        have next := @ih _ _ _ (out ++ result.output) after (fun none => absurd none filled) narrowed (by omega)
          (fun _ stuck => filled stuck.1) ?_
        · rwa [sum,taken] at next
        · change (inflated result stream).currentZStream.nextIn.length + stream.underlyingFile.length + _ < _
          have bound := call.within
          omega
    next stop =>
      have given := going.given
      have done : nbytes - out.length = 0 ∨ delivered = content.length := by
        by_cases room : out.length < nbytes
        · obtain ⟨none,ended⟩ := not_or.mp fun continues => stop ⟨room,continues⟩
          have used := List.eq_nil_of_length_eq_zero (Nat.eq_zero_of_not_pos none)
          have drained := going.empty (eq_true_of_ne_false ended)
          have stuck : ¬stream.currentZStream.totalOut < content.length :=
              fun more => unstranded room ⟨used,drained,more⟩
          rw [going.total] at stuck
          exact .inr (by omega)
        · exact .inl (by omega)
      have nothing : (content.drop delivered).take (nbytes - out.length) = [] := by
        obtain full | all := done
        · rw [full,List.take_zero]
        · rw [all,List.drop_length,List.take_nil]
      have still : min (delivered + (nbytes - out.length)) content.length = delivered := by omega
      rw [nothing,List.append_nil,still]
      exact ⟨consumed,_,rfl,going.state,going.inside,going.given,going.total,going.rest,going.empty⟩

theorem read_spec (behaves : Behaves inflate member content At) (positive : 0 < nbytes) (narrow : nbytes < 4294967296)
    (going : Going member content At consumed delivered stream) (unstranded : ¬Stranded content stream) :
    ∃ consumed' stream', read inflate nbytes stream = some (.ok ((content.drop delivered).take nbytes,stream')) ∧
      Going member content At consumed' (min (delivered + nbytes) content.length) stream' := by
  have space : toUInt32 nbytes = nbytes - ([] : List UInt8).length := Nat.mod_eq_of_lt narrow
  unfold read
  split
  next none =>
    have used := List.eq_nil_of_length_eq_zero none
    have reset := going.resetZStream narrow (.inl used)
    have fresh : ¬Stranded content (resetZStream nbytes stream) := by
      rintro ⟨none,drained,more⟩
      rw [resetZStream_nextIn narrow] at none
      refine unstranded ⟨used,?_,more⟩
      rw [← List.take_append_drop nbytes stream.underlyingFile,none]
      exact drained
    exact readLoop_spec behaves positive narrow (reset.setAvailOut nbytes) (resetZStream_refilled positive narrow) space
      (Nat.zero_le _) (fun _ => fresh) (Nat.lt_succ_self _)
  next some =>
    have filled : stream.currentZStream.nextIn ≠ [] := fun none => some (congrArg List.length none)
    exact readLoop_spec behaves positive narrow (going.setAvailOut nbytes) (fun none => absurd none filled) space
      (Nat.zero_le _) (fun _ => unstranded) (Nat.lt_succ_self _)

-- no call starts where no compressed byte is left but content is
variable (inflate content) in
def NeverStranded (sizes : List Nat) (stream : Stream σ) : Prop :=
  ∀ earlier size later outputs stream', sizes = earlier ++ size::later →
    reads inflate earlier stream = some (.ok (outputs,stream')) →
    ¬Stranded content stream'

theorem reads_spec (behaves : Behaves inflate member content At) {sizes : List Nat}
    (positive : ∀ size ∈ sizes, 0 < size)
    (narrow : ∀ size ∈ sizes, size < 4294967296) (going : Going member content At consumed delivered stream)
    (unstranded : NeverStranded inflate content sizes stream) :
    ∃ stream', reads inflate sizes stream = some (.ok (cut (content.drop delivered) sizes,stream')) := by
  induction sizes generalizing consumed delivered stream with
  | nil => exact ⟨stream,rfl⟩
  | cons nbytes sizes ih =>
    obtain ⟨first,positive⟩ := List.forall_mem_cons.mp positive
    obtain ⟨small,narrow⟩ := List.forall_mem_cons.mp narrow
    obtain ⟨consumed',next,given,after⟩ := read_spec behaves first small going
      (unstranded [] nbytes sizes [] stream rfl rfl)
    have later : NeverStranded inflate content sizes next := by
      intro earlier size later outputs stream' same run
      refine unstranded (nbytes::earlier) size later ((content.drop delivered).take nbytes::outputs) stream' ?_ ?_
      · rw [same,List.cons_append]
      · rw [reads,given]
        dsimp only
        rw [run]
    obtain ⟨last,rest⟩ := ih positive narrow after later
    have dropped : content.drop (min (delivered + nbytes) content.length) = (content.drop delivered).drop nbytes := by
      rw [List.drop_drop]
      obtain less | more := Nat.le_total (delivered + nbytes) content.length
      · rw [Nat.min_eq_left less]
      · rw [Nat.min_eq_right more,List.drop_length,List.drop_eq_nil_of_le more]
    refine ⟨last,?_⟩
    rw [reads,given]
    dsimp only
    rw [rest,dropped,cut]

/-- What is read until nothing more comes is the content, and a call gives less than it was asked for only at the end. -/
structure GivesAll (content : List UInt8) (sizes : List Nat) (outputs : List (List UInt8)) : Prop where
  ends : content.length < sizes.length → [] ∈ outputs
  all : [] ∈ outputs → outputs.flatten = content
  short : ∀ (call size : Nat) (output : List UInt8), sizes[call]? = some size → outputs[call]? = some output →
    output.length < size →
    (outputs.take (call+1)).flatten = content

/-- A compressed content is one gzip member or several, which `inflate` decompresses one by one. Of the members after the first the
content is given only if there is none. -/
theorem reads_givesAll {start : σ} {first : List UInt8 × List UInt8} {others : List (List UInt8 × List UInt8)}
    {sizes : List Nat}
    (members : ∀ one ∈ first::others, Decompresses inflate one.1 one.2 start) (positive : ∀ size ∈ sizes, 0 < size)
    (narrow : ∀ size ∈ sizes, size < 4294967296) (alone : ∀ other ∈ others, other.2 = [])
    (unstranded : NeverStranded inflate first.2 sizes (open_ start ((first::others).flatMap Prod.fst))) :
    ∃ outputs stream, reads inflate sizes (open_ start ((first::others).flatMap Prod.fst)) =
    some (.ok (outputs,stream)) ∧
      GivesAll ((first::others).flatMap Prod.snd) sizes outputs := by
  obtain ⟨At,starts,behaves⟩ := members first List.mem_cons_self
  have opened : Going first.1 first.2 At 0 0 (open_ start ((first::others).flatMap Prod.fst)) :=
    ⟨starts,Nat.zero_le _,Nat.zero_le _,rfl,fun _ => ⟨others.flatMap Prod.fst,List.flatMap_cons⟩,
      fun ended => by cases ended⟩
  obtain ⟨stream,run⟩ := reads_spec behaves positive narrow opened unstranded
  have content : (first::others).flatMap Prod.snd = first.2 := by
    rw [List.flatMap_cons,List.flatMap_eq_nil_iff.mpr alone,List.append_nil]
  rw [content]
  exact ⟨_,stream,run,nil_mem_cut positive,cut_done positive,fun _ _ _ => cut_short⟩

/-- An `inflate` that takes in a member before it gives its content. -/
def inflateMember (member content : List UInt8) : Inflate (Nat × Nat) := fun state input availOut =>
  let consumed := min input.length (member.length - state.1)
  let output := if state.1 + consumed = member.length then (content.drop state.2).take availOut else []
  { state := (state.1 + consumed,state.2 + output.length)
    consumed := consumed
    output := output
    code := if state.1 + consumed = member.length ∧ state.2 + output.length = content.length then .streamEnd
      else if consumed = 0 ∧ output = [] then .bufError else .ok }

theorem inflateMember_decompresses : Decompresses (inflateMember member content) member content (0,0) := by
  refine ⟨fun state consumed delivered => state = (consumed,delivered) ∧ consumed ≤ member.length ∧
    delivered ≤ content.length,
    ⟨rfl,Nat.zero_le _,Nat.zero_le _⟩,?_⟩
  rintro _ consumed delivered input availOut ⟨rfl,inside,given⟩ _
  have bound : min input.length (member.length - consumed) ≤ member.length - consumed := Nat.min_le_right _ _
  have call : Call member content consumed delivered input availOut
      (inflateMember member content (consumed,delivered) input availOut) := by
    refine ⟨Nat.min_le_left _ _,?_,?_,?_,?_,?_,rfl⟩
    · change consumed + min input.length (member.length - consumed) ≤ member.length
      omega
    · dsimp only [inflateMember]
      split
      next => exact List.length_take_le _ _
      next => exact Nat.zero_le _
    · dsimp only [inflateMember]
      split
      next => rw [List.length_take,← List.take_take,List.take_length]
      next => rfl
    · intro _
      change min input.length (member.length - consumed) = _ ∨
        consumed + min input.length (member.length - consumed) = _
      omega
    · intro short ends
      dsimp only [inflateMember] at short ends ⊢
      rw [if_pos ends] at short ⊢
      rw [List.length_take,List.length_drop] at short ⊢
      omega
  exact ⟨call,rfl,call.inside,call.delivered_le given⟩

/-- A member with the content `a` in a stored block. -/
def storedMember : List UInt8 × List UInt8 :=
  ([0x1f,0x8b,8,0,0,0,0,0,0,3,1,1,0,0xfe,0xff,0x61,0x43,0xbe,0xb7,0xe8,1,0,0,0],[0x61])

theorem storedMember_read : ∃ outputs stream, reads (inflateMember storedMember.1 storedMember.2) [100,100]
      (open_ (0,0) ([storedMember].flatMap Prod.fst)) = some (.ok (outputs,stream)) ∧
    GivesAll ([storedMember].flatMap Prod.snd) [100,100] outputs := by
  apply reads_givesAll
  · exact List.forall_mem_singleton.mpr inflateMember_decompresses
  · decide
  · decide
  · exact List.forall_mem_nil _
  · intro earlier size later outputs stream same run stuck
    obtain ⟨_,drained,more⟩ := stuck
    cases earlier with
    | nil =>
      cases run
      cases drained
    | cons first earlier =>
      obtain ⟨rfl,other⟩ := List.cons.inj same
      cases earlier with
      | nil =>
        have given : (reads (inflateMember storedMember.1 storedMember.2) [100] (open_ (0,0) storedMember.1)).map
            (fun read => read.toOption.map fun read => read.2.currentZStream.totalOut) =
              some (some 1) := by decide +kernel
        rw [show reads _ [100] (open_ (0,0) storedMember.1) = _ from run] at given
        have all : stream.currentZStream.totalOut = 1 := Option.some.inj (Option.some.inj given)
        rw [all] at more
        exact absurd more (Nat.lt_irrefl _)
      | cons second earlier =>
        have none := (List.cons.inj other).2
        exact absurd (List.append_eq_nil_iff.mp none.symm).2 (List.cons_ne_nil _ _)

/-- Of two members the second one is dropped. -/
theorem second_member_dropped : ¬∀ (σ : Type) (inflate : Inflate σ) (start : σ)
    (members : List (List UInt8 × List UInt8)) (sizes : List Nat),
    members ≠ [] → (∀ one ∈ members, Decompresses inflate one.1 one.2 start) → (∀ size ∈ sizes, 0 < size) →
    ∃ outputs stream, reads inflate sizes (open_ start (members.flatMap Prod.fst)) = some (.ok (outputs,stream)) ∧
      GivesAll (members.flatMap Prod.snd) sizes outputs := by
  intro claim
  obtain ⟨outputs,stream,run,gives⟩ := claim _ (inflateMember storedMember.1 storedMember.2) (0,0) [storedMember,
    storedMember]
    [100,100] (List.cons_ne_nil _ _)
    (List.forall_mem_cons.mpr ⟨inflateMember_decompresses,List.forall_mem_singleton.mpr inflateMember_decompresses⟩)
      (by decide)
  have given : (reads (inflateMember storedMember.1 storedMember.2) [100,100]
      (open_ (0,0) ([storedMember,storedMember].flatMap Prod.fst))).map
      (fun read => read.toOption.map Prod.fst) = some (some [[0x61],[]]) := by decide +kernel
  rw [run] at given
  cases given
  exact absurd (gives.all (by decide)) (by decide)

end Hermes.Tuples.ArrowAWSGZIPInputStream2
