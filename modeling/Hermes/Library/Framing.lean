import Mathlib.Data.List.Basic

/-! Streams of self-delimiting frames.
A frame is read back from the front of any stream, and a frame that is cut short
is not read at all, so a stream has at most one reading. -/
namespace Hermes.Library.Framing
variable {ε β : Type}

structure FrameCode (ε β : Type) where
  encode : ε → List β
  read : List β → Option (ε × List β)
  nonempty : ∀ frame, encode frame ≠ []
  read_encode : ∀ frame rest, read (encode frame ++ rest) = some (frame,rest)
  read_cut : ∀ frame front, front <+: encode frame → front ≠ encode frame → read front = none

namespace FrameCode
variable (code : FrameCode ε β)

def encodes (frames : List ε) : List β := frames.flatMap code.encode

/-- The frames at the front of a stream, up to the first that cannot be read. -/
def readAll : Nat → List β → List ε
  | 0, _ => []
  | fuel+1, bytes =>
    match code.read bytes with
    | none => []
    | some (frame,rest) => frame :: readAll fuel rest

/-- Too little for a frame: nothing, or a frame that is cut short. -/
def Cut (tail : List β) : Prop :=
  tail = [] ∨ ∃ frame, tail <+: code.encode frame ∧ tail ≠ code.encode frame

@[simp] theorem encodes_nil : code.encodes [] = [] := rfl

@[simp] theorem encodes_cons (frame : ε) (frames : List ε) :
    code.encodes (frame::frames) = code.encode frame ++ code.encodes frames := rfl

theorem encodes_append (first second : List ε) :
    code.encodes (first ++ second) = code.encodes first ++ code.encodes second :=
  List.flatMap_append

theorem length_le_encodes (frames : List ε) : frames.length ≤ (code.encodes frames).length := by
  induction frames with
  | nil => simp
  | cons frame frames ih =>
    have some_ := List.length_pos_iff.mpr (code.nonempty frame)
    rw [encodes_cons,List.length_append,List.length_cons]
    omega

theorem read_of_cut {tail : List β} (cut : code.Cut tail) : code.read tail = none := by
  rcases cut with rfl | ⟨frame,front,proper⟩
  · cases found : code.read [] with
    | none => rfl
    | some pair =>
      have none_ := code.read_cut pair.1 [] (List.nil_prefix) (code.nonempty pair.1).symm
      rw [none_] at found
      cases found
  · exact code.read_cut frame tail front proper

theorem readAll_encodes {tail : List β} (cut : code.Cut tail) (frames : List ε) {fuel : Nat}
    (enough : frames.length ≤ fuel) : code.readAll fuel (code.encodes frames ++ tail) = frames := by
  induction frames generalizing fuel with
  | nil =>
    cases fuel with
    | zero => rfl
    | succ fuel =>
      unfold readAll
      rw [encodes_nil,List.nil_append,code.read_of_cut cut]
  | cons frame frames ih =>
    cases fuel with
    | zero => simp at enough
    | succ fuel =>
      unfold readAll
      rw [encodes_cons,List.append_assoc,code.read_encode]
      exact congrArg (frame :: ·) (ih (Nat.le_of_succ_le_succ enough))

theorem prefix_of_encodes {first second : List ε} (front : code.encodes first <+: code.encodes second) :
    first <+: second := by
  induction first generalizing second with
  | nil => exact List.nil_prefix
  | cons frame first ih =>
    obtain ⟨rest,whole⟩ := front
    rw [encodes_cons,List.append_assoc] at whole
    cases second with
    | nil =>
      have empty := (List.append_eq_nil_iff.mp whole).1
      exact absurd empty (code.nonempty frame)
    | cons frame' second =>
      have read := code.read_encode frame (code.encodes first ++ rest)
      rw [whole,encodes_cons,code.read_encode,Option.some.injEq,Prod.mk.injEq] at read
      obtain ⟨rfl,remains⟩ := read
      exact List.cons_prefix_cons.mpr ⟨rfl,ih ⟨rest,remains.symm⟩⟩

end FrameCode
end Hermes.Library.Framing
