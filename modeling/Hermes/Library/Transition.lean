import Hermes.Library.Fallible
import Mathlib.Data.List.Induction

/-! Runs of a labelled transition relation, and what holds along them. -/
namespace Hermes.Library.Transition
open Fallible
variable {σ ℓ : Type}

inductive Run (step : σ → ℓ → σ → Prop) (start : σ) : List ℓ → σ → Prop
  | nil : Run step start [] start
  | snoc {labels : List ℓ} {state next : σ} {label : ℓ} :
      Run step start labels state → step state label next → Run step start (labels ++ [label]) next

/-- The steps that meet a condition on the state before and the label. -/
def Meeting (condition : σ → ℓ → Prop) (step : σ → ℓ → σ → Prop) (state : σ) (label : ℓ) (next : σ) : Prop :=
  condition state label ∧ step state label next

theorem Run.meet {condition : σ → ℓ → Prop} {step : σ → ℓ → σ → Prop} {start state next : σ} {labels : List ℓ}
    (run : Run (Meeting condition step) start labels state) (label : ℓ) (meets : condition state label)
    (steps : step state label next) : Run (Meeting condition step) start (labels ++ [label]) next :=
  run.snoc ⟨meets,steps⟩

theorem Run.append {step : σ → ℓ → σ → Prop} {start middle last : σ} {labels more : List ℓ}
    (run : Run step start labels middle)
    (onward : Run step middle more last) : Run step start (labels ++ more) last := by
  induction onward with
  | nil => rwa [List.append_nil]
  | snoc _ steps ih =>
    rw [← List.append_assoc]
    exact ih.snoc steps

theorem Run.invariant_labels {step : σ → ℓ → σ → Prop} {start : σ} (holds : List ℓ → σ → Prop)
    (initial : holds [] start)
    (kept : ∀ labels state label next, holds labels state → step state label next → holds (labels ++ [label]) next)
    {labels : List ℓ} {state : σ} (run : Run step start labels state) : holds labels state := by
  induction run with
  | nil => exact initial
  | snoc _ step ih => exact kept _ _ _ _ ih step

theorem Run.invariant {step : σ → ℓ → σ → Prop} {start : σ} (holds : σ → Prop) (initial : holds start)
    (kept : ∀ state label next, holds state → step state label next → holds next)
    {labels : List ℓ} {state : σ} (run : Run step start labels state) : holds state :=
  run.invariant_labels (fun _ => holds) initial (fun _ => kept)

theorem Run.of_foldlM {τ ρ ε : Type} {call : τ → ρ → Except ε τ} {step : σ → ℓ → σ → Prop} {state : τ → σ}
    {label : ρ → ℓ}
    (made : ∀ before next called, call before called = .ok next → step (state before) (label called) (state next))
    {calls : List ρ} {start last : τ} (ok : calls.foldlM call start = .ok last) :
    Run step (state start) (calls.map label) (state last) := by
  induction calls using List.reverseRecOn generalizing last with
  | nil =>
    obtain rfl := Except.ok.inj ok
    exact Run.nil
  | append_singleton calls called ih =>
    obtain ⟨middle,before,later⟩ := foldlM_append_eq_ok.mp ok
    obtain ⟨_,here,done⟩ := foldlM_cons_eq_ok.mp later
    obtain rfl := Except.ok.inj done
    rw [List.map_append]
    exact (ih before).snoc (made _ _ _ here)

end Hermes.Library.Transition
