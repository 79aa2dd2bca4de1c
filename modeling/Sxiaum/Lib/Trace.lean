import Mathlib.Data.List.Basic

/-!
# Runs with their history

A state machine takes one event after the other, and whether an event may come next can depend on
the events before it. An invariant holds along every run if each step keeps it; two conditions on
the steps that agree where the invariant holds allow the same runs.
-/

/-- A run from a state: the events so far and the state they lead to. -/
inductive Trace {σ ε : Type} (step : List ε → σ → ε → σ → Prop) (s₀ : σ) : List ε → σ → Prop
  | start : Trace step s₀ [] s₀
  | snoc {history : List ε} {s s' : σ} {e : ε} :
    Trace step s₀ history s → step history s e s' → Trace step s₀ (history ++ [e]) s'

namespace Trace

variable {σ ε : Type} {step step' : List ε → σ → ε → σ → Prop} {s₀ s : σ} {history : List ε}
  {I : List ε → σ → Prop}

theorem invariant (h : Trace step s₀ history s) (hstart : I [] s₀)
    (hstep : ∀ {history s e s'}, I history s → step history s e s' → I (history ++ [e]) s') :
    I history s := by
  induction h with
  | start => exact hstart
  | snoc _ he ih => exact hstep ih he

/-- A run whose steps are steps of another kind, as long as an invariant holds. -/
theorem mono_of_invariant (h : Trace step s₀ history s) (hstart : I [] s₀)
    (hstep : ∀ {history s e s'}, I history s → step history s e s' → I (history ++ [e]) s')
    (himp : ∀ {history s e s'}, I history s → step history s e s' → step' history s e s') :
    Trace step' s₀ history s := by
  induction h with
  | start => exact .start
  | snoc hrun he ih => exact .snoc ih (himp (hrun.invariant hstart hstep) he)

end Trace
