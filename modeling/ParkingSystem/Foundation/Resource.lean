import Mathlib.Tactic

/-!
# Resources that are acquired and released

A list of calls acquires, uses and releases resources by their names.  `Proper kind held calls` says
that, from the resources `held` on, no call acquires what is held, and none uses or releases what is
not.  By `Proper.count_acquire` such calls acquire a resource as often as they release it, and once
more while it is held.
-/

namespace Foundation

/-- What a call does to a resource. -/
inductive ResourceUse (κ : Type*) where
  | acquire (k : κ)
  | use (k : κ)
  | release (k : κ)
  /-- Nothing. -/
  | other
deriving DecidableEq

namespace ResourceUse

variable {κ : Type*}

/-- Whether the call may be made while the resources `held` are held. -/
def Allowed (held : Set κ) : ResourceUse κ → Prop
  | acquire k => k ∉ held
  | use k => k ∈ held
  | release k => k ∈ held
  | other => True

/-- The resources that are held after the call. -/
def after (held : Set κ) : ResourceUse κ → Set κ
  | acquire k => insert k held
  | release k => held \ {k}
  | _ => held

end ResourceUse

section Proper

variable {α κ : Type*} (kind : α → ResourceUse κ)

/-- The resources that are held after the calls. -/
def heldAfter (held : Set κ) (calls : List α) : Set κ :=
  calls.foldl (fun held a => (kind a).after held) held

/-- Each call is made while it may be made. -/
def Proper : Set κ → List α → Prop
  | _, [] => True
  | held, a :: calls => (kind a).Allowed held ∧ Proper ((kind a).after held) calls

variable {kind} {held : Set κ} {calls calls' : List α} {a : α} {k : κ}

@[simp] lemma heldAfter_nil : heldAfter kind held [] = held := rfl

@[simp] lemma heldAfter_append :
    heldAfter kind held (calls ++ calls') = heldAfter kind (heldAfter kind held calls) calls' :=
  List.foldl_append

@[simp] lemma proper_nil : Proper kind held [] := trivial

lemma proper_append_iff :
    Proper kind held (calls ++ calls') ↔
      Proper kind held calls ∧ Proper kind (heldAfter kind held calls) calls' := by
  induction calls generalizing held with
  | nil => simp [heldAfter]
  | cons a calls ih =>
    simp only [List.cons_append, Proper, ih, heldAfter, List.foldl_cons, and_assoc]

/-- A call among proper calls is made while it may be made. -/
lemma Proper.allowed (h : Proper kind held (calls ++ a :: calls')) :
    (kind a).Allowed (heldAfter kind held calls) :=
  (proper_append_iff.mp h).2.1

/-- Calls that only use what is held are proper, and acquire and release nothing. -/
lemma proper_of_use (h : ∀ a ∈ calls, kind a = .use k ∨ kind a = .other) (hk : k ∈ held) :
    Proper kind held calls ∧ heldAfter kind held calls = held := by
  induction calls with
  | nil => exact ⟨trivial, rfl⟩
  | cons a calls ih =>
    obtain ⟨hproper, hheld⟩ := ih fun b hb => h b (List.mem_cons_of_mem _ hb)
    rcases h a List.mem_cons_self with ha | ha
    · exact ⟨⟨by rw [ha]; exact hk, by rw [ha]; exact hproper⟩, by
        rw [heldAfter, List.foldl_cons, ha]; exact hheld⟩
    · exact ⟨⟨by rw [ha]; trivial, by rw [ha]; exact hproper⟩, by
        rw [heldAfter, List.foldl_cons, ha]; exact hheld⟩

/-- **Acquisitions and releases.**  When nothing is held at the start, a resource is acquired as
often as it is released, and once more while it is held. -/
theorem Proper.count_acquire [DecidableEq κ] (h : Proper kind ∅ calls) (k : κ) :
    (k ∈ heldAfter kind ∅ calls → calls.countP (fun a => kind a = .acquire k) =
        calls.countP (fun a => kind a = .release k) + 1) ∧
      (k ∉ heldAfter kind ∅ calls → calls.countP (fun a => kind a = .acquire k) =
        calls.countP (fun a => kind a = .release k)) := by
  induction calls using List.reverseRecOn with
  | nil => simp
  | append_singleton calls a ih =>
    obtain ⟨hcalls, hallowed, -⟩ := proper_append_iff.mp h
    obtain ⟨hheld, hfree⟩ := ih hcalls
    have hafter : heldAfter kind ∅ (calls ++ [a]) = (kind a).after (heldAfter kind ∅ calls) := by
      simp [heldAfter]
    rw [hafter, List.countP_append, List.countP_append]
    cases hkind : kind a with
    | acquire j =>
      rw [hkind] at hallowed
      by_cases hj : j = k
      · subst hj
        simp [ResourceUse.after, hkind, hfree hallowed]
      · have hne : k ≠ j := Ne.symm hj
        simpa [ResourceUse.after, hkind, hj, hne] using ⟨hheld, hfree⟩
    | release j =>
      rw [hkind] at hallowed
      by_cases hj : j = k
      · subst hj
        simp [ResourceUse.after, hkind, hheld hallowed]
      · have hne : k ≠ j := Ne.symm hj
        simpa [ResourceUse.after, hkind, hj, hne] using ⟨hheld, hfree⟩
    | use j => simpa [ResourceUse.after, hkind] using ⟨hheld, hfree⟩
    | other => simpa [ResourceUse.after, hkind] using ⟨hheld, hfree⟩

end Proper

end Foundation
