import Mathlib.Data.List.Forall2

/-! Calls that may fail, one after the other. -/
namespace Hermes.Library.Fallible
variable {σ α β ε : Type}

/-- Whether a call fails with an error can be decided although its results cannot be compared. -/
instance decidableEqError [DecidableEq ε] (result : Except ε α) (error : ε) : Decidable (result = .error error) :=
  match result with
  | .ok _ => isFalse nofun
  | .error other => decidable_of_iff (other = error) ⟨congrArg _,Except.error.inj⟩

theorem eq_ok_of_mem {result : Except ε α} {value : α} (inside : value ∈ result.toOption) : result = .ok value := by
  cases result with
  | error error => cases inside
  | ok other => rw [Option.some.inj inside]

theorem bind_eq_ok {first : Except ε α} {next : α → Except ε β} {result : β} :
    first >>= next = .ok result ↔ ∃ value, first = .ok value ∧ next value = .ok result := by
  cases first with
  | error error =>
    refine iff_of_false ?_ ?_
    · intro wrong
      cases wrong
    · rintro ⟨_,wrong,_⟩
      cases wrong
  | ok value =>
    refine ⟨fun done => ⟨value,rfl,done⟩,?_⟩
    rintro ⟨_,same,done⟩
    rw [← Except.ok.inj same] at done
    exact done

theorem ok_of_check {failed : Prop} [Decidable failed] {error : ε} {value result : α}
    (done : (if failed then .error error else .ok value : Except ε α) = .ok result) : value = result := by
  by_cases wrong : failed
  · rw [if_pos wrong] at done
    cases done
  · rw [if_neg wrong] at done
    exact Except.ok.inj done

theorem map_eq_ok {first : Except ε α} {change : α → β} {result : β} :
    change <$> first = .ok result ↔ ∃ value, first = .ok value ∧ change value = result := by
  cases first with
  | error error =>
    refine iff_of_false ?_ ?_
    · intro wrong
      cases wrong
    · rintro ⟨_,wrong,_⟩
      cases wrong
  | ok value =>
    refine ⟨fun done => ⟨value,rfl,Except.ok.inj done⟩,?_⟩
    rintro ⟨_,same,rfl⟩
    rw [← Except.ok.inj same]
    rfl

theorem exists_map_eq_ok {first : Except ε α} {change : α → β} :
    (∃ result, change <$> first = .ok result) ↔ ∃ value, first = .ok value := by
  constructor
  · rintro ⟨_,ok⟩
    obtain ⟨value,done,_⟩ := map_eq_ok.mp ok
    exact ⟨value,done⟩
  · rintro ⟨value,done⟩
    exact ⟨_,map_eq_ok.mpr ⟨value,done,rfl⟩⟩

theorem mapM_congr {step other : α → Except ε β} {elements : List α}
    (same : ∀ element ∈ elements, step element = other element) :
    elements.mapM step = elements.mapM other := by
  induction elements with
  | nil => rfl
  | cons element elements ih =>
    rw [List.mapM_cons,List.mapM_cons,same element List.mem_cons_self,
      ih fun later inside => same later (List.mem_cons_of_mem _ inside)]

theorem mapM_eq_ok {step : α → Except ε β} {elements : List α} {results : List β} :
    elements.mapM step = .ok results ↔
    List.Forall₂ (fun element result => step element = .ok result) elements results := by
  induction elements generalizing results with
  | nil =>
    rw [List.forall₂_nil_left_iff]
    refine ⟨fun done => (Except.ok.inj done).symm,?_⟩
    rintro rfl
    rfl
  | cons element elements ih =>
    rw [List.mapM_cons,bind_eq_ok,List.forall₂_cons_left_iff]
    constructor
    · rintro ⟨value,here,done⟩
      obtain ⟨later,rest,same⟩ := bind_eq_ok.mp done
      exact ⟨value,later,here,ih.mp rest,(Except.ok.inj same).symm⟩
    · rintro ⟨value,later,here,rest,rfl⟩
      exact ⟨value,here,bind_eq_ok.mpr ⟨later,ih.mpr rest,rfl⟩⟩

theorem mapM_some {step : α → Option β} {after : α → β} (elements : List α)
    (each : ∀ element ∈ elements, step element = some (after element)) :
    elements.mapM step = some (elements.map after) := by
  induction elements with
  | nil => rfl
  | cons element elements ih =>
    obtain ⟨here,later⟩ := List.forall_mem_cons.mp each
    simp [here,ih later]

theorem bind_ne_error {first : Except ε α} {next : α → Except ε β} {error : ε} (here : first ≠ .error error)
    (later : ∀ value, first = .ok value → next value ≠ .error error) : first >>= next ≠ .error error := by
  cases first with
  | error other => exact fun same => here (congrArg _ (Except.error.inj same))
  | ok value => exact later value rfl

theorem map_eq_error {result : Except ε α} {change : α → β} {error : ε} :
    result.map change = .error error ↔ result = .error error := by
  cases result with
  | error other => exact ⟨fun same => congrArg _ (Except.error.inj same),fun same => congrArg _ (Except.error.inj same)⟩
  | ok value =>
    refine ⟨fun wrong => ?_,fun wrong => ?_⟩
    · cases wrong
    · cases wrong

theorem bind_ok (first : Except ε α) (change : α → β) :
    (first >>= fun value => .ok (change value)) = first.map change := by
  cases first <;> rfl

theorem mapM_ne_error {step : α → Except ε β} {elements : List α} {error : ε}
    (each : ∀ element ∈ elements, step element ≠ .error error) : elements.mapM step ≠ .error error := by
  induction elements with
  | nil =>
    intro wrong
    cases wrong
  | cons element elements ih =>
    obtain ⟨here,later⟩ := List.forall_mem_cons.mp each
    rw [List.mapM_cons]
    apply bind_ne_error here
    intro value _
    apply bind_ne_error (ih later)
    intro values _ wrong
    cases wrong

theorem exists_forall₂ {related : α → β → Prop} {elements : List α}
    (each : ∀ element ∈ elements, ∃ result, related element result) :
    ∃ results, List.Forall₂ related elements results := by
  induction elements with
  | nil => exact ⟨[],List.Forall₂.nil⟩
  | cons element elements ih =>
    obtain ⟨result,here⟩ := each element List.mem_cons_self
    obtain ⟨results,later⟩ := ih fun other inside => each other (List.mem_cons_of_mem _ inside)
    exact ⟨result::results,List.Forall₂.cons here later⟩

theorem forall₂_mem_right {related : α → β → Prop} {elements : List α} {results : List β}
    (all : List.Forall₂ related elements results) :
    ∀ result ∈ results, ∃ element ∈ elements, related element result := by
  induction all with
  | nil => exact fun _ inside => absurd inside List.not_mem_nil
  | @cons element _ _ _ here _ ih =>
    refine List.forall_mem_cons.mpr ⟨⟨element,List.mem_cons_self,here⟩,?_⟩
    intro result inside
    obtain ⟨other,there,holds⟩ := ih result inside
    exact ⟨other,List.mem_cons_of_mem _ there,holds⟩

theorem forall₂_mem_left {related : α → β → Prop} {elements : List α} {results : List β}
    (all : List.Forall₂ related elements results) : ∀ element ∈ elements, ∃ result ∈ results, related element result :=
  forall₂_mem_right all.flip

theorem forall₂_getElem? {related : α → β → Prop} {elements : List α} {results : List β}
    (all : List.Forall₂ related elements results) (i : Nat) {result : β} (here : results[i]? = some result) :
    ∃ element, elements[i]? = some element ∧ related element result := by
  induction all generalizing i with
  | nil => cases here
  | cons holds _ ih =>
    cases i with
    | zero =>
      obtain rfl := Option.some.inj here
      exact ⟨_,rfl,holds⟩
    | succ i => exact ih i here

theorem forall₂_iff_forall_mem {related holds : α → β → Prop} {each : α → Prop} {elements : List α} {results : List β}
    (all : List.Forall₂ related elements results)
    (same : ∀ element result, related element result → (holds element result ↔ each element)) :
    List.Forall₂ holds elements results ↔ ∀ element ∈ elements, each element := by
  induction all with
  | nil => simp
  | cons here _ ih => rw [List.forall₂_cons,List.forall_mem_cons,same _ _ here,ih]

theorem eq_filterMap_of_ok {step : α → Except ε β} {elements : List α} {results : List β}
    (all : List.Forall₂ (fun element result => step element = .ok result) elements results) :
    results = elements.filterMap fun element => (step element).toOption := by
  induction all with
  | nil => rfl
  | cons here _ ih => rw [List.filterMap_cons_some (by rw [here]; rfl),← ih]

theorem perm_of_ok {step : α → Except ε β} {first second : List α} {results results' : List β}
    (order : first.Perm second) (all : List.Forall₂ (fun element result => step element = .ok result) first results)
    (all' : List.Forall₂ (fun element result => step element = .ok result) second results') :
    results.Perm results' := by
  rw [eq_filterMap_of_ok all,eq_filterMap_of_ok all']
  exact order.filterMap _

theorem foldlM_cons_eq_ok {step : σ → α → Except ε σ} {element : α} {elements : List α} {state result : σ} :
    (element::elements).foldlM step state = .ok result ↔
      ∃ next, step state element = .ok next ∧ elements.foldlM step next = .ok result := by
  rw [List.foldlM_cons]
  exact bind_eq_ok

theorem foldlM_append_eq_ok {step : σ → α → Except ε σ} {first second : List α} {state result : σ} :
    (first ++ second).foldlM step state = .ok result ↔
      ∃ next, first.foldlM step state = .ok next ∧ second.foldlM step next = .ok result := by
  rw [List.foldlM_append]
  exact bind_eq_ok

theorem foldlM_flatten (step : σ → α → Except ε σ) (lists : List (List α)) (state : σ) :
    lists.foldlM (fun state list => list.foldlM step state) state = lists.flatten.foldlM step state := by
  induction lists generalizing state with
  | nil => rfl
  | cons list lists ih =>
    rw [List.foldlM_cons,List.flatten_cons,List.foldlM_append]
    exact congrArg _ (funext ih)

end Hermes.Library.Fallible
