import Mathlib.Tactic

/-!
# Machines with outputs

A machine is a function `step : σ → α → σ × List β` that takes a state and an input to a new state
and a list of outputs.  `runMachine` feeds it a list of inputs.  `histories` pairs each input of a
list with the inputs before it; by `outputs_eq_of_invariant`, whoever knows what the state says
about the inputs read so far knows each output from the input and its history.
-/

namespace Foundation

variable {σ α β : Type*}

/-- Feed a list of inputs to a machine; the outputs are collected in order. -/
def runMachine (step : σ → α → σ × List β) : σ → List α → σ × List β
  | s, [] => (s, [])
  | s, a :: as =>
    let (s, out) := step s a
    let (s, outs) := runMachine step s as
    (s, out ++ outs)

variable (step : σ → α → σ × List β)

@[simp] lemma runMachine_nil (s : σ) : runMachine step s [] = (s, []) := rfl

/-- Feeding two lists one after the other is feeding them at once. -/
lemma runMachine_append (s : σ) (l l' : List α) :
    runMachine step s (l ++ l') =
      ((runMachine step (runMachine step s l).1 l').1,
        (runMachine step s l).2 ++ (runMachine step (runMachine step s l).1 l').2) := by
  induction l generalizing s with
  | nil => simp
  | cons a l ih => simp [runMachine, ih]

/-- The state and the outputs after one more input. -/
lemma runMachine_concat (s : σ) (l : List α) (a : α) :
    runMachine step s (l ++ [a]) =
      ((step (runMachine step s l).1 a).1,
        (runMachine step s l).2 ++ (step (runMachine step s l).1 a).2) := by
  simp [runMachine_append, runMachine]

/-- A machine that translates its inputs first runs on the translated list. -/
lemma runMachine_map {γ : Type*} (f : γ → α) (s : σ) (l : List γ) :
    runMachine step s (l.map f) = runMachine (fun s c => step s (f c)) s l := by
  induction l generalizing s with
  | nil => rfl
  | cons c l ih => simp [runMachine, ih]

/-- Every output of a run is an output of some step. -/
lemma exists_step_of_mem_outputs {s : σ} {l : List α} {b : β} (h : b ∈ (runMachine step s l).2) :
    ∃ s' a, a ∈ l ∧ b ∈ (step s' a).2 := by
  induction l generalizing s with
  | nil => simp at h
  | cons a l ih =>
    rcases List.mem_append.mp h with h | h
    · exact ⟨s, a, List.mem_cons_self, h⟩
    · obtain ⟨s', a', ha', hb⟩ := ih h
      exact ⟨s', a', List.mem_cons_of_mem _ ha', hb⟩

/-! ## Histories -/

/-- Each element of a list, with `h` and the elements of the list before it. -/
def historiesFrom (h : List α) : List α → List (List α × α)
  | [] => []
  | a :: l => (h, a) :: historiesFrom (h ++ [a]) l

/-- Each element of a list, with the elements before it. -/
def histories (l : List α) : List (List α × α) := historiesFrom [] l

lemma historiesFrom_concat (h l : List α) (a : α) :
    historiesFrom h (l ++ [a]) = historiesFrom h l ++ [(h ++ l, a)] := by
  induction l generalizing h with
  | nil => simp [historiesFrom]
  | cons b l ih => simp [historiesFrom, ih]

/-- The last element has the whole rest of the list before it. -/
@[simp] lemma histories_concat (l : List α) (a : α) :
    histories (l ++ [a]) = histories l ++ [(l, a)] :=
  historiesFrom_concat [] l a

/-- **Outputs from histories.**  If `Inv` relates the inputs read so far to the state, and the
outputs of a step are determined by the input and the inputs before it, then so are the outputs of
a run. -/
theorem outputs_eq_of_invariant {Inv : List α → σ → Prop} {spec : List α → α → List β} {s₀ : σ}
    (h₀ : Inv [] s₀)
    (hstep : ∀ l s a, Inv l s → Inv (l ++ [a]) (step s a).1 ∧ (step s a).2 = spec l a)
    (l : List α) :
    Inv l (runMachine step s₀ l).1 ∧
      (runMachine step s₀ l).2 = (histories l).flatMap fun p => spec p.1 p.2 := by
  induction l using List.reverseRecOn with
  | nil => exact ⟨h₀, rfl⟩
  | append_singleton l a ih =>
    obtain ⟨hinv, hout⟩ := ih
    obtain ⟨hinv', hout'⟩ := hstep l _ a hinv
    rw [runMachine_concat]
    refine ⟨hinv', ?_⟩
    rw [hout, hout', histories_concat, List.flatMap_append]
    simp

end Foundation
