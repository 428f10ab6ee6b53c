import ParkingSystem.Foundation.Machine

/-!
# Unwinding

`outputsBy` keeps, for a run of a machine, each input together with its outputs.  `outputsBy_purge`
is the unwinding rule of noninterference: if two related states stay related when one of them takes
a hidden input, stay related when both take the same other input, and give the same outputs to a
visible input, then deleting the hidden inputs of a run does not change what is visible of it.
`filter_outputs_of_party` is the same for a run in which each input belongs to some party.
-/

namespace Foundation

variable {σ α β : Type*} (step : σ → α → σ × List β)

/-- Each input of a run with its outputs. -/
def outputsBy : σ → List α → List (α × List β)
  | _, [] => []
  | s, a :: as => (a, (step s a).2) :: outputsBy (step s a).1 as

variable {step}

/-- **Unwinding.**  `R` relates the states of the two runs, with and without the hidden inputs. -/
theorem outputsBy_purge (R : σ → σ → Prop) {hidden visible : α → Bool}
    (hdisjoint : ∀ a, visible a → hidden a = false)
    (hhidden : ∀ s t a, R s t → hidden a → R (step s a).1 t)
    (hkept : ∀ s t a, R s t → hidden a = false → R (step s a).1 (step t a).1)
    (hvisible : ∀ s t a, R s t → visible a → (step s a).2 = (step t a).2)
    {s t : σ} (hR : R s t) (as : List α) :
    (outputsBy step s as).filter (fun p => visible p.1) =
      (outputsBy step t (as.filter fun a => !hidden a)).filter fun p => visible p.1 := by
  induction as generalizing s t with
  | nil => rfl
  | cons a as ih =>
    cases hid : hidden a with
    | true =>
      have hvis : visible a = false := by
        by_contra hvis
        rw [hdisjoint a (by simpa using hvis)] at hid
        exact absurd hid (by decide)
      rw [outputsBy, List.filter_cons_of_neg (by simp [hvis]),
        List.filter_cons_of_neg (by simp [hid])]
      exact ih (hhidden s t a hR hid)
    | false =>
      have htail := ih (hkept s t a hR hid)
      rw [List.filter_cons_of_pos (by simp [hid]), outputsBy, outputsBy]
      cases hvis : visible a with
      | true =>
        rw [List.filter_cons_of_pos (by exact hvis), List.filter_cons_of_pos (by exact hvis),
          hvisible s t a hR hvis, htail]
      | false =>
        rw [List.filter_cons_of_neg (by simp [hvis]), List.filter_cons_of_neg (by simp [hvis]),
          htail]

/-- **The outputs of one party.**  If a part `R` of the state is moved by the inputs of one party
only, and their outputs depend on this part only, then the outputs of this party in a run are those
of the run on its inputs alone.  `of` tells the outputs of the party from those of the others. -/
theorem filter_outputs_of_party (R : σ → σ → Prop) {mine : α → Bool} {of : β → Bool}
    {as : List α} (hother : ∀ a ∈ as, mine a = false → ∀ s t, R s t → R (step s a).1 t)
    (hmine : ∀ a ∈ as, mine a → ∀ s t, R s t →
      R (step s a).1 (step t a).1 ∧ (step s a).2 = (step t a).2)
    (hof : ∀ a ∈ as, ∀ s, ∀ b ∈ (step s a).2, of b = mine a) {s t : σ} (hR : R s t) :
    (runMachine step s as).2.filter of = (runMachine step t (as.filter mine)).2 := by
  induction as generalizing s t with
  | nil => rfl
  | cons a as ih =>
    have ih := @ih (fun a ha => hother a (List.mem_cons_of_mem _ ha))
      (fun a ha => hmine a (List.mem_cons_of_mem _ ha))
      (fun a ha => hof a (List.mem_cons_of_mem _ ha))
    have hout := hof a List.mem_cons_self s
    simp only [runMachine, List.filter_append]
    cases hm : mine a with
    | true =>
      obtain ⟨hR', heq⟩ := hmine a List.mem_cons_self hm s t hR
      rw [List.filter_cons_of_pos hm, ih hR', heq, List.filter_eq_self.mpr]
      · rfl
      · intro b hb
        rw [hout b (heq ▸ hb), hm]
    | false =>
      rw [List.filter_cons_of_neg (by simp [hm]), ih (hother a List.mem_cons_self hm s t hR),
        List.filter_eq_nil_iff.mpr]
      · rfl
      · intro b hb
        simp [hout b hb, hm]

end Foundation
