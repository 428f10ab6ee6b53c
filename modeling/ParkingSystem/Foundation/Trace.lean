import Mathlib.Tactic

/-!
# Runs of a labelled transition system

A system is a partial step function: `step s e` is the state after the event `e`, or `none` when
`e` cannot happen in `s`.  `Trace step ok s₀ es s` says that the events `es`, each taken in a state
that satisfies the side condition `ok`, lead from `s₀` to `s`.  `Trace.invariant` is the induction
rule: what holds at the start and is kept by every step holds in every state reached.
-/

namespace Foundation

variable {σ ε : Type*} {step : σ → ε → Option σ} {ok ok' : σ → ε → Prop} {s₀ s : σ} {es : List ε}

/-- The runs of a partial step function from `s₀`, with a side condition on each step. -/
inductive Trace (step : σ → ε → Option σ) (ok : σ → ε → Prop) (s₀ : σ) : List ε → σ → Prop
  /-- The run without events stays where it starts. -/
  | nil : Trace step ok s₀ [] s₀
  /-- A run may be extended by an event that is possible and allowed in its last state. -/
  | snoc {es : List ε} {s s' : σ} {e : ε} :
      Trace step ok s₀ es s → ok s e → step s e = some s' → Trace step ok s₀ (es ++ [e]) s'

namespace Trace

/-- **Invariants hold along every run.** -/
theorem invariant {Inv : σ → Prop} (h : Trace step ok s₀ es s) (h₀ : Inv s₀)
    (hstep : ∀ s e s', Inv s → ok s e → step s e = some s' → Inv s') : Inv s := by
  induction h with
  | nil => exact h₀
  | snoc _ hok hs ih => exact hstep _ _ _ ih hok hs

/-- An invariant may speak about the events of the run as well as about the state reached. -/
theorem invariant_events {P : List ε → σ → Prop} (h : Trace step ok s₀ es s) (h₀ : P [] s₀)
    (hstep : ∀ es s e s', P es s → ok s e → step s e = some s' → P (es ++ [e]) s') :
    P es s := by
  induction h with
  | nil => exact h₀
  | snoc _ hok hs ih => exact hstep _ _ _ _ ih hok hs

/-- A run under a strong side condition is a run under a weaker one. -/
theorem mono (h : Trace step ok s₀ es s) (himp : ∀ s e, ok s e → ok' s e) :
    Trace step ok' s₀ es s := by
  induction h with
  | nil => exact .nil
  | snoc _ hok hs ih => exact .snoc ih (himp _ _ hok) hs

/-- A run may be extended by an event before its first state. -/
theorem cons {s₁ : σ} {e : ε} (hok : ok s₀ e) (hs : step s₀ e = some s₁)
    (h : Trace step ok s₁ es s) : Trace step ok s₀ (e :: es) s := by
  induction h with
  | nil => exact .snoc .nil hok hs
  | snoc _ hok' hs' ih => exact .snoc ih hok' hs'

/-- A run may be continued by a run from its last state. -/
theorem append {s' : σ} {es' : List ε} (h : Trace step ok s₀ es s) (h' : Trace step ok s es' s') :
    Trace step ok s₀ (es ++ es') s' := by
  induction h' with
  | nil => rwa [List.append_nil]
  | snoc _ hok hs ih =>
    rw [← List.append_assoc]
    exact .snoc ih hok hs

/-- **Forward simulation.**  Seen through `abs`, a step of the finer system is one step of the
coarser system or none, and so is a whole run. -/
theorem simulate {τ δ : Type*} {step' : τ → δ → Option τ} {okAbs : τ → δ → Prop}
    {Inv : σ → Prop} (h : Trace step ok s₀ es s) (abs : σ → τ) (event : ε → Option δ) (h₀ : Inv s₀)
    (hstep : ∀ s e s', Inv s → ok s e → step s e = some s' → Inv s')
    (hsim : ∀ s e s', Inv s → ok s e → step s e = some s' →
      (∀ d, event e = some d → okAbs (abs s) d ∧ step' (abs s) d = some (abs s')) ∧
        (event e = none → abs s' = abs s)) :
    Trace step' okAbs (abs s₀) (es.filterMap event) (abs s) := by
  induction h with
  | nil => exact .nil
  | @snoc es s s' e hrun hok hs ih =>
    obtain ⟨hsome, hnone⟩ := hsim s e s' (hrun.invariant h₀ hstep) hok hs
    rw [List.filterMap_append]
    cases he : event e with
    | none =>
      rw [hnone he]
      simpa [he] using ih
    | some d =>
      obtain ⟨hokAbs, hsAbs⟩ := hsome d he
      simpa [he] using ih.snoc hokAbs hsAbs

end Trace

/-! ## Computing a run -/

section Compute

variable (step ok) [∀ s e, Decidable (ok s e)]

/-- Take the events one after the other, checking the side condition before each step. -/
def replayEvents : σ → List ε → Option σ
  | s, [] => some s
  | s, e :: es => if ok s e then (step s e).bind fun s' => replayEvents s' es else none

variable {step ok}

/-- A computed run is a run. -/
theorem Trace.of_replayEvents (h : replayEvents step ok s₀ es = some s) :
    Trace step ok s₀ es s := by
  induction es generalizing s₀ with
  | nil =>
    obtain rfl := Option.some.inj h
    exact .nil
  | cons e es ih =>
    rw [replayEvents] at h
    split_ifs at h with hok
    obtain ⟨s₁, hs, h⟩ := Option.bind_eq_some_iff.mp h
    exact .cons hok hs (ih h)

end Compute

end Foundation
