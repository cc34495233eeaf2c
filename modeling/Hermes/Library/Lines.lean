import Mathlib.Data.List.Basic
import Mathlib.Data.List.DropRight
import Mathlib.Data.List.Infix

/-! Lists cut at a separator: the lines that a separator ends, and the places where a line starts. -/
namespace Hermes.Library.Lines
variable {α : Type} [DecidableEq α] (sep : α)

/-- The lines that a separator ends, without it; what follows the last separator is not one. -/
def ended (whole : List α) : List (List α) := (whole.splitOn sep).dropLast

/-- The length of the first line with its separator, or of the whole where there is no separator. -/
def lineEnd (whole : List α) : Nat :=
  if sep ∈ whole then whole.idxOf sep+1 else whole.length

/-- The first place that is not before the given one and at which a line starts, or the end. -/
def nextStart (whole : List α) (place : Nat) : Nat :=
  if place = 0 then 0 else place-1+lineEnd sep (whole.drop (place-1))

/-- Empty, or with the separator at its end. -/
def Closed (whole : List α) : Prop := whole = [] ∨ whole.getLast? = some sep

/-- The lines that a separator ends are shorter than a buffer, and what follows the last one is not longer. -/
def LinesFit (size : Nat) (whole : List α) : Prop :=
  (∀ line ∈ ended sep whole, line.length < size) ∧ (whole.rtakeWhile (· != sep)).length ≤ size

instance (size : Nat) (whole : List α) : Decidable (LinesFit sep size whole) := inferInstanceAs (Decidable (_ ∧ _))

variable {sep} {line front rest whole : List α}

theorem ended_of_not_mem (missing : sep ∉ line) : ended sep line = [] := by
  rw [ended,List.splitOn_eq_singleton missing]
  rfl

theorem ended_append (front rest : List α) :
    ended sep (front ++ sep::rest) = front.splitOn sep ++ ended sep rest := by
  rw [ended,List.splitOn_append_cons_self,List.dropLast_append_of_ne_nil (List.splitOn_ne_nil sep rest)]
  rfl

theorem ended_line (missing : sep ∉ line) (rest : List α) : ended sep (line ++ sep::rest) = line::ended sep rest := by
  rw [ended_append,List.splitOn_eq_singleton missing]
  rfl

theorem ended_closed (front rest : List α) :
    ended sep (front ++ [sep] ++ rest) = ended sep (front ++ [sep]) ++ ended sep rest := by
  have alone : ended sep ([] : List α) = [] := rfl
  rw [List.append_assoc,List.singleton_append,ended_append,ended_append,alone,List.append_nil]

theorem ended_cons {a : α} (different : a ≠ sep) (rest : List α) :
    ended sep (a::rest) = (ended sep rest).modifyHead (a::·) := by
  rw [ended,ended,List.splitOn_cons_eq_if_modifyHead,if_neg (by simpa using different)]
  cases List.splitOn sep rest with
  | nil => rfl
  | cons first lines => cases lines <;> rfl

theorem ended_append_of_not_mem (front : List α) (missing : sep ∉ rest) :
    ended sep (front ++ rest) = ended sep front := by
  induction front with
  | nil => exact ended_of_not_mem missing
  | cons a front ih =>
    by_cases same : a = sep
    · subst a
      rw [List.cons_append,← List.nil_append (sep::(front ++ rest)),ended_line List.not_mem_nil,ih,
        ← ended_line List.not_mem_nil,List.nil_append]
    · rw [List.cons_append,ended_cons same,ended_cons same,ih]

theorem ended_flatten {pieces : List (List α)} (closed : ∀ piece ∈ pieces, piece.getLast? = some sep) :
    ended sep pieces.flatten = pieces.flatMap (ended sep) := by
  induction pieces with
  | nil => rfl
  | cons piece pieces ih =>
    obtain ⟨here,later⟩ := List.forall_mem_cons.mp closed
    obtain ⟨front,rfl⟩ := List.getLast?_eq_some_iff.mp here
    rw [List.flatten_cons,ended_closed,ih later,List.flatMap_cons]

theorem getLast?_rdropWhile (filled : whole.rdropWhile (· != sep) ≠ []) :
    (whole.rdropWhile (· != sep)).getLast? = some sep := by
  have last := List.rdropWhile_last_not (· != sep) whole filled
  rw [Bool.not_eq_true,bne_eq_false_iff_eq] at last
  rw [List.getLast?_eq_some_getLast filled,last]

theorem not_mem_rtakeWhile : sep ∉ whole.rtakeWhile (· != sep) := by
  intro inside
  have other := List.mem_rtakeWhile_imp inside
  rw [bne_self_eq_false] at other
  cases other

theorem ended_subset : ended sep whole ⊆ whole.splitOn sep := List.dropLast_subset _

theorem mem_splitOn (inside : line ∈ whole.splitOn sep) : sep ∉ line ∧ line ⊆ whole := by
  induction whole generalizing line with
  | nil =>
    rw [List.mem_singleton.mp inside]
    exact ⟨List.not_mem_nil,List.nil_subset _⟩
  | cons a whole ih =>
    rw [List.splitOn_cons_eq_if_modifyHead] at inside
    split at inside
    next =>
      obtain rfl | later := List.mem_cons.mp inside
      · exact ⟨List.not_mem_nil,List.nil_subset _⟩
      · exact ⟨(ih later).1,List.subset_cons_of_subset _ (ih later).2⟩
    next different =>
      obtain ⟨first,rest,cut⟩ := List.exists_cons_of_ne_nil (List.splitOn_ne_nil sep whole)
      rw [cut] at inside ih
      obtain rfl | later := List.mem_cons.mp inside
      · obtain ⟨missing,part⟩ := ih List.mem_cons_self
        refine ⟨?_,List.cons_subset_cons a part⟩
        rw [List.mem_cons,not_or]
        exact ⟨fun same => different (beq_iff_eq.mpr same.symm),missing⟩
      · obtain ⟨missing,part⟩ := ih (List.mem_cons_of_mem _ later)
        exact ⟨missing,List.subset_cons_of_subset _ part⟩

theorem flatMap_ended (closed : ∀ filled : whole ≠ [], whole.getLast filled = sep) :
    (ended sep whole).flatMap (fun line => line ++ [sep]) = whole := by
  induction length : whole.length using Nat.strong_induction_on generalizing whole with
  | _ length' ih =>
    by_cases filled : whole = []
    · rw [filled]
      rfl
    · have inside : sep ∈ whole := closed filled ▸ List.getLast_mem filled
      obtain ⟨line,rest,cut,missing⟩ := List.eq_append_cons_of_mem inside
      subst cut
      rw [ended_line missing,List.flatMap_cons]
      have shorter : rest.length < length' := by
        rw [← length,List.length_append,List.length_cons]
        omega
      have later := ih rest.length shorter (by
        intro some
        have last := closed filled
        rwa [List.getLast_append_of_ne_nil _ (List.cons_ne_nil _ _),List.getLast_cons some] at last) rfl
      rw [later,List.append_assoc,List.singleton_append]

theorem exists_line (inside : sep ∈ whole) :
    ∃ line rest, whole = line ++ sep::rest ∧ sep ∉ line ∧ lineEnd sep whole = line.length+1 := by
  obtain ⟨line,rest,cut,missing⟩ := List.eq_append_cons_of_mem inside
  refine ⟨line,rest,cut,missing,?_⟩
  rw [lineEnd,if_pos inside,cut,List.idxOf_append_of_notMem missing,List.idxOf_cons_self]

theorem lineEnd_of_not_mem (missing : sep ∉ whole) : lineEnd sep whole = whole.length := if_neg missing

theorem lineEnd_append_of_not_mem (missing : sep ∉ front) (rest : List α) :
    lineEnd sep (front ++ rest) = front.length+lineEnd sep rest := by
  rw [lineEnd,lineEnd,List.idxOf_append_of_notMem missing]
  simp only [List.mem_append,missing,false_or,List.length_append]
  split <;> omega

theorem lineEnd_append_of_mem (inside : sep ∈ front) (rest : List α) :
    lineEnd sep (front ++ rest) = lineEnd sep front := by
  rw [lineEnd,lineEnd,if_pos inside,if_pos (List.mem_append_left rest inside),List.idxOf_append_of_mem inside]

theorem lineEnd_le (whole : List α) : lineEnd sep whole ≤ whole.length := by
  rw [lineEnd]
  split
  next inside => exact List.idxOf_lt_length_of_mem inside
  next => exact Nat.le_refl _

theorem lineEnd_pos (filled : whole ≠ []) : 0 < lineEnd sep whole := by
  rw [lineEnd]
  split
  next => exact Nat.succ_pos _
  next => exact List.length_pos_iff.mpr filled

theorem le_nextStart {place : Nat} (inside : place ≤ whole.length) : place ≤ nextStart sep whole place := by
  rw [nextStart]
  split
  next first => exact Nat.le_of_eq first
  next later =>
    have filled : whole.drop (place-1) ≠ [] := by
      rw [Ne,List.drop_eq_nil_iff]
      omega
    have moved : 0 < lineEnd sep (whole.drop (place-1)) := lineEnd_pos filled
    omega

theorem nextStart_le {place : Nat} (inside : place ≤ whole.length) : nextStart sep whole place ≤ whole.length := by
  rw [nextStart]
  split
  next => exact Nat.zero_le _
  next =>
    have stays : lineEnd sep (whole.drop (place-1)) ≤ _ := lineEnd_le _
    rw [List.length_drop] at stays
    omega

theorem nextStart_append (front rest : List α) (place : Nat) :
    nextStart sep (front ++ sep::rest) (front.length+1+place) = front.length+1+nextStart sep rest place := by
  rw [nextStart,if_neg (by omega),nextStart]
  split
  next first =>
    rw [first,Nat.add_zero,Nat.add_sub_cancel,List.drop_left]
    have starts : lineEnd sep (sep::rest) = 1 := by
      rw [lineEnd,if_pos List.mem_cons_self,List.idxOf_cons_self]
    rw [starts]
  next later =>
    have skipped : (front ++ sep::rest).drop (front.length+1+place-1) = rest.drop (place-1) := by
      rw [List.drop_append,List.drop_eq_nil_of_le (by omega),List.nil_append,
        show front.length+1+place-1-front.length = place-1+1 by omega,List.drop_succ_cons]
    rw [skipped]
    omega

theorem lineEnd_line (missing : sep ∉ line) (rest : List α) : lineEnd sep (line ++ sep::rest) = line.length+1 := by
  rw [lineEnd_append_of_not_mem missing,lineEnd,if_pos List.mem_cons_self,List.idxOf_cons_self]

theorem lineEnd_drop {count : Nat} (before : count < lineEnd sep whole) :
    lineEnd sep (whole.drop count) = lineEnd sep whole-count := by
  by_cases inside : sep ∈ whole
  · obtain ⟨line,rest,cut,missing,ends⟩ := exists_line inside
    rw [ends] at before ⊢
    have shorter : sep ∉ line.drop count := fun found => missing (List.mem_of_mem_drop found)
    rw [cut,List.drop_append_of_le_length (by omega),lineEnd_line shorter,List.length_drop]
    omega
  · have shorter : sep ∉ whole.drop count := fun found => inside (List.mem_of_mem_drop found)
    rw [lineEnd_of_not_mem inside,lineEnd_of_not_mem shorter,List.length_drop]

theorem nextStart_eq {low high : Nat} (ordered : low ≤ high) (below : high ≤ nextStart sep whole low) :
    nextStart sep whole high = nextStart sep whole low := by
  by_cases first : low = 0
  · have still : nextStart sep whole low = 0 := if_pos first
    rw [still,Nat.le_zero] at below
    rw [below,first]
  · rw [nextStart,if_neg first] at below
    rw [nextStart,if_neg (by omega),nextStart,if_neg first]
    have place : high-1 = low-1+(high-low) := by omega
    rw [place,← List.drop_drop,lineEnd_drop (by omega)]
    omega

theorem nextStart_closed (front rest : List α) :
    nextStart sep (front ++ [sep] ++ rest) (front ++ [sep]).length = (front ++ [sep]).length := by
  rw [List.append_assoc,List.singleton_append,List.length_append]
  exact nextStart_append front rest 0

theorem nextStart_open {last : α} (inner : last ≠ sep) (front rest : List α) :
    nextStart sep (front ++ [last] ++ rest) (front ++ [last]).length = (front ++ [last]).length+lineEnd sep rest := by
  have missing : sep ∉ [last] := fun found => inner (List.mem_singleton.mp found).symm
  rw [List.length_append,List.length_singleton,nextStart,if_neg (Nat.succ_ne_zero _),Nat.add_sub_cancel,
    List.append_assoc,List.drop_left,lineEnd_append_of_not_mem missing,List.length_singleton,Nat.add_assoc]

section Fit
variable {size : Nat}

theorem closed_rdropWhile (whole : List α) : Closed sep (whole.rdropWhile (· != sep)) :=
  or_iff_not_imp_left.mpr getLast?_rdropWhile

omit [DecidableEq α] in
theorem closed_replicate (size : Nat) : Closed sep (List.replicate size sep) := by
  cases size with
  | zero => exact .inl rfl
  | succ size =>
    rw [List.replicate_succ']
    exact .inr List.getLast?_concat

theorem rtakeWhile_of_not_mem (missing : sep ∉ whole) : whole.rtakeWhile (· != sep) = whole := by
  rw [List.rtakeWhile_eq_self_iff]
  intro a inside
  exact bne_iff_ne.mpr fun same => missing (same ▸ inside)

theorem Closed.ended_append (closed : Closed sep front) (rest : List α) :
    ended sep (front ++ rest) = ended sep front ++ ended sep rest := by
  obtain rfl | last := closed
  · rfl
  · obtain ⟨inner,rfl⟩ := List.getLast?_eq_some_iff.mp last
    exact ended_closed inner rest

theorem Closed.rtakeWhile_append (closed : Closed sep front) (rest : List α) :
    (front ++ rest).rtakeWhile (· != sep) = rest.rtakeWhile (· != sep) := by
  obtain rfl | last := closed
  · rfl
  · obtain ⟨inner,rfl⟩ := List.getLast?_eq_some_iff.mp last
    rw [List.rtakeWhile,List.rtakeWhile,List.reverse_append,List.takeWhile_append,List.reverse_append,
      List.reverse_singleton,
      List.singleton_append,List.takeWhile_cons_of_neg (by simp),List.append_nil]
    split
    next all => rw [(List.takeWhile_sublist _).eq_of_length all]
    next => rfl

theorem Closed.linesFit_append (closed : Closed sep front) : LinesFit sep size (front ++ rest) ↔
    (∀ line ∈ ended sep front, line.length < size) ∧ LinesFit sep size rest := by
  rw [LinesFit,closed.ended_append,closed.rtakeWhile_append,List.forall_mem_append,and_assoc]
  rfl

theorem Closed.flatMap_ended (closed : Closed sep whole) :
    (ended sep whole).flatMap (fun line => line ++ [sep]) = whole := by
  refine Lines.flatMap_ended fun filled => ?_
  have last := closed.resolve_left filled
  rwa [List.getLast?_eq_some_getLast filled,Option.some_inj] at last

theorem Closed.length_lt (closed : Closed sep whole) (inside : line ∈ ended sep whole) :
    line.length < whole.length := by
  have cut := closed.flatMap_ended
  have part := List.sublist_flatten_of_mem (List.mem_map_of_mem (f := fun line => line ++ [sep]) inside)
  rw [← List.flatMap_def,cut] at part
  have less := part.length_le
  rwa [List.length_append] at less

theorem linesFit_of_not_mem (missing : sep ∉ whole) (few : whole.length ≤ size) : LinesFit sep size whole := by
  rw [LinesFit,ended_of_not_mem missing,rtakeWhile_of_not_mem missing]
  exact ⟨List.forall_mem_nil _,few⟩

theorem not_linesFit (missing : sep ∉ line) (long : size ≤ line.length) (more : rest ≠ []) :
    ¬LinesFit sep size (line ++ rest) := by
  rintro ⟨short,few⟩
  by_cases inside : sep ∈ rest
  · obtain ⟨first,behind,rfl,other,_⟩ := exists_line inside
    have whole : sep ∉ line ++ first := List.not_mem_append missing other
    rw [← List.append_assoc,ended_line whole] at short
    have less := short _ List.mem_cons_self
    rw [List.length_append] at less
    omega
  · rw [rtakeWhile_of_not_mem (List.not_mem_append missing inside),List.length_append] at few
    have positive := List.length_pos_iff.mpr more
    omega

end Fit

end Hermes.Library.Lines
