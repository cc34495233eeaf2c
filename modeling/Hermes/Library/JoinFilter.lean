import Hermes.Library.Parts

/-! A selection above a join: which part of it the inputs or the join may make instead, and when it leaves nothing
of what an outer join pads. -/
namespace Hermes.Library.ListJoin
variable {α β π : Type}

theorem mem_pairs {matching : β → π → Bool} {build : List β} {probe : List π} {pair : β × π} :
    pair ∈ pairs matching build probe ↔ pair.1 ∈ build ∧ pair.2 ∈ probe ∧ matching pair.1 pair.2 = true := by
  obtain ⟨b,p⟩ := pair
  simp only [pairs,List.mem_flatMap,List.mem_map,List.mem_filter,Prod.mk.injEq]
  constructor
  · rintro ⟨p',probed,b',⟨built,matched⟩,rfl,rfl⟩
    exact ⟨built,probed,matched⟩
  · rintro ⟨built,probed,matched⟩
    exact ⟨p,probed,b,⟨built,matched⟩,rfl,rfl⟩

theorem pairs_cons (matching : β → π → Bool) (build : List β) (p : π) (probe : List π) :
    pairs matching build (p::probe) = (build.filter fun b => matching b p).map (fun b => (b,p)) ++
    pairs matching build probe := rfl

theorem pairs_filter (matching : β → π → Bool) (first : β → Bool) (second : π → Bool) (build : List β)
    (probe : List π) :
    pairs matching (build.filter first) (probe.filter second) =
      (pairs (fun _ _ => true) build probe).filter fun pair => first pair.1 && second pair.2 && matching pair.1 pair.2 := by
  induction probe with
  | nil => rfl
  | cons p probe ih =>
    have here : ((build.filter fun _ => true).map fun b => (b,p)).filter
        (fun pair => first pair.1 && second pair.2 && matching pair.1 pair.2) =
          (build.filter fun b => first b && second p && matching b p).map fun b => (b,p) := by
      rw [List.filter_map,List.filter_true]
      rfl
    rw [pairs_cons,List.filter_append,← ih,here]
    by_cases chosen : second p = true
    · rw [List.filter_cons_of_pos chosen,pairs_cons,List.filter_filter]
      congr 2
      apply List.filter_congr
      intro b _
      rw [chosen,Bool.and_true,Bool.and_comm]
    · have none_ : (build.filter fun b => first b && second p && matching b p) = [] := by
        rw [List.filter_eq_nil_iff]
        intro b _ holds
        exact chosen (Bool.and_eq_true_iff.mp (Bool.and_eq_true_iff.mp holds).1).2
      rw [List.filter_cons_of_neg chosen,none_]
      rfl

theorem pairs_eq_filter (matching : β → π → Bool) (build : List β) (probe : List π) :
    pairs matching build probe = (pairs (fun _ _ => true) build probe).filter fun pair => matching pair.1 pair.2 := by
  have all := pairs_filter matching (fun _ => true) (fun _ => true) build probe
  rw [List.filter_true,List.filter_true] at all
  rw [all]
  simp

section
variable {matching other : β → π → Bool} {joined : β → π → α} {padLeft : β → α} {padRight : π → α}
    {isLeft isRight : Bool}
  {keep rest : α → Bool} {first : β → Bool} {second : π → Bool} {build : List β} {probe : List π}

theorem filter_pairs (split : ∀ b ∈ build, ∀ p ∈ probe, (matching b p = true ∧ keep (joined b p) = true) ↔
      (first b = true ∧ second p = true ∧ other b p = true ∧ rest (joined b p) = true)) :
    ((pairs matching build probe).map fun pair => joined pair.1 pair.2).filter keep =
      ((pairs other (build.filter first) (probe.filter second)).map fun pair => joined pair.1 pair.2).filter rest := by
  rw [pairs_filter,pairs_eq_filter matching,List.filter_map,List.filter_map,List.filter_filter,List.filter_filter]
  congr 1
  apply List.filter_congr
  intro pair inside
  obtain ⟨built,probed,_⟩ := mem_pairs.mp inside
  rw [Bool.eq_iff_iff]
  simp only [Bool.and_eq_true,Function.comp_apply]
  have both := split pair.1 built pair.2 probed
  tauto

theorem filter_inner (split : ∀ b ∈ build, ∀ p ∈ probe, (matching b p = true ∧ keep (joined b p) = true) ↔
      (first b = true ∧ second p = true ∧ other b p = true ∧ rest (joined b p) = true)) :
    (outerJoin matching joined padLeft padRight false false build probe).filter keep =
      (outerJoin other joined padLeft padRight false false (build.filter first) (probe.filter second)).filter rest := by
  simp only [outerJoin,Bool.false_eq_true,if_false,List.append_nil]
  exact filter_pairs split

/-- Below a padding side goes what is selected of it above, and from the other side what the join matches. -/
theorem filter_left (matches_ : ∀ b ∈ build, ∀ p ∈ probe, matching b p = (second p && other b p))
    (kept : ∀ b ∈ build, ∀ p ∈ probe, keep (joined b p) = (first b && rest (joined b p)))
    (padded : ∀ b ∈ build, keep (padLeft b) = (first b && rest (padLeft b))) :
    (outerJoin matching joined padLeft padRight true false build probe).filter keep =
      (outerJoin other joined padLeft padRight true false (build.filter first) (probe.filter second)).filter rest := by
  simp only [outerJoin,Bool.false_eq_true,if_false,if_true,List.append_nil,List.filter_append]
  congr 1
  · apply filter_pairs
    intro b built p probed
    rw [matches_ b built p probed,kept b built p probed,Bool.and_eq_true,Bool.and_eq_true]
    tauto
  · rw [List.filter_map,List.filter_map,List.filter_filter,List.filter_filter,List.filter_filter]
    congr 1
    apply List.filter_congr
    intro b built
    have unmatched : (probe.any fun p => matching b p) = ((probe.filter second).any fun p => other b p) := by
      rw [List.any_filter,Bool.eq_iff_iff,List.any_eq_true,List.any_eq_true]
      refine exists_congr fun p => and_congr_right fun probed => ?_
      rw [matches_ b built p probed]
    rw [unmatched,Function.comp_apply,Function.comp_apply,padded b built]
    cases first b <;> simp [Bool.and_comm]

theorem filter_right (matches_ : ∀ b ∈ build, ∀ p ∈ probe, matching b p = (first b && other b p))
    (kept : ∀ b ∈ build, ∀ p ∈ probe, keep (joined b p) = (second p && rest (joined b p)))
    (padded : ∀ p ∈ probe, keep (padRight p) = (second p && rest (padRight p))) :
    (outerJoin matching joined padLeft padRight false true build probe).filter keep =
      (outerJoin other joined padLeft padRight false true (build.filter first) (probe.filter second)).filter rest := by
  simp only [outerJoin,Bool.false_eq_true,if_false,if_true,List.append_nil,List.filter_append]
  congr 1
  · apply filter_pairs
    intro b built p probed
    rw [matches_ b built p probed,kept b built p probed,Bool.and_eq_true,Bool.and_eq_true]
    tauto
  · rw [List.filter_map,List.filter_map,List.filter_filter,List.filter_filter,List.filter_filter]
    congr 1
    apply List.filter_congr
    intro p probed
    have unmatched : (build.any fun b => matching b p) = ((build.filter first).any fun b => other b p) := by
      rw [List.any_filter,Bool.eq_iff_iff,List.any_eq_true,List.any_eq_true]
      refine exists_congr fun b => and_congr_right fun built => ?_
      rw [matches_ b built p probed]
    rw [unmatched,Function.comp_apply,Function.comp_apply,padded p probed]
    cases second p <;> simp [Bool.and_comm]

theorem filter_cancel {keepsLeft keepsRight : Bool} (lefts : keepsLeft ≠ isLeft → ∀ b ∈ build, keep (padLeft b) = false)
    (rights : keepsRight ≠ isRight → ∀ p ∈ probe, keep (padRight p) = false) :
    (outerJoin matching joined padLeft padRight isLeft isRight build probe).filter keep =
      (outerJoin matching joined padLeft padRight keepsLeft keepsRight build probe).filter keep := by
  have empty : ∀ {κ : Type} (pad : κ → α) (rows chosen : List κ) (is keeps : Bool), (∀ row ∈ chosen, row ∈ rows) →
      (keeps ≠ is → ∀ row ∈ rows, keep (pad row) = false) →
        (if is then chosen.map pad else []).filter keep = (if keeps then chosen.map pad else []).filter keep := by
    intro κ pad rows chosen is keeps fewer never
    by_cases same : keeps = is
    · rw [same]
    · have nothing : (chosen.map pad).filter keep = [] := by
        rw [List.filter_eq_nil_iff]
        intro row inside
        obtain ⟨source,there,rfl⟩ := List.mem_map.mp inside
        rw [never same source (fewer source there)]
        exact Bool.false_ne_true
      cases is <;> cases keeps <;> simp_all
  rw [outerJoin,outerJoin,List.filter_append,List.filter_append,List.filter_append,List.filter_append,
    empty padLeft build _ isLeft keepsLeft (fun _ => List.mem_of_mem_filter) lefts,
    empty padRight probe _ isRight keepsRight (fun _ => List.mem_of_mem_filter) rights]

end
end Hermes.Library.ListJoin
