import ParkingSystem.Bbg.Tcp

/-!
# Delivery without a gap

Which lines reach the server is decided by the outcomes of `connect` and `send` alone, since no line
is offered twice.  The lines delivered in full have no gap, and no partial line is continued by
another one, if and only if the process never recovers from a failure: a failed call, or a short
`send`, is followed by failures only.
-/

namespace ParkingSystem

open Foundation

namespace Attempt

/-! ## What the server gets -/

/-- The line is delivered in full. -/
def Full (a : Attempt) : Prop := ∃ c, a.sent = some (c, a.line ++ [lf])

/-- A part of the line stands on a connection. -/
def PartialOn (c : ℕ) (a : Attempt) : Prop :=
  ∃ bytes, a.sent = some (c, bytes) ∧ bytes ≠ [] ∧ bytes ≠ a.line ++ [lf]

/-- The line is started on a connection. -/
def StartedOn (c : ℕ) (a : Attempt) : Prop := ∃ bytes, a.sent = some (c, bytes) ∧ bytes ≠ []

/-! ## What `send` accepts -/

/-- A `send` accepts the whole line and its newline. -/
def Whole (a : Attempt) : Prop := ∃ n, a.outcome = .accepts n ∧ a.line.length < n

/-- A `send` accepts a part of the line. -/
def Short (a : Attempt) : Prop := ∃ n, a.outcome = .accepts n ∧ 0 < n ∧ n ≤ a.line.length

/-- A `send` accepts something. -/
def AcceptsSome (a : Attempt) : Prop := ∃ n, a.outcome = .accepts n ∧ 0 < n

section

variable {a : Attempt} {c c' : ℕ}

lemma AcceptsSome.outcome_ne (h : a.AcceptsSome) : a.outcome ≠ .sendFails := by
  obtain ⟨n, hout, -⟩ := h
  simp [hout]

lemma Short.outcome_ne (h : a.Short) : a.outcome ≠ .sendFails := by
  obtain ⟨n, hout, -⟩ := h
  simp [hout]

/-- A line is delivered in full if `send` accepts the whole of it. -/
lemma full_iff (h : a.sent = a.outcome.sent c (a.line ++ [lf])) : a.Full ↔ a.Whole := by
  cases hout : a.outcome with
  | accepts n =>
    simp [Full, Whole, h, hout, Outcome.sent]
  | _ => simp [Full, Whole, h, hout, Outcome.sent]

/-- A part of a line is on the connection of its time if `send` is short. -/
lemma partialOn_iff (h : a.sent = a.outcome.sent c (a.line ++ [lf])) :
    a.PartialOn c' ↔ c' = c ∧ a.Short := by
  cases hout : a.outcome with
  | accepts n =>
    simp only [PartialOn, Short, h, hout, Outcome.sent, Option.some.injEq, Prod.mk.injEq,
      Outcome.accepts.injEq]
    constructor
    · rintro ⟨bytes, ⟨rfl, rfl⟩, hne, hne'⟩
      simp at hne hne'
      exact ⟨rfl, n, rfl, by omega, by omega⟩
    · rintro ⟨rfl, m, rfl, hpos, hle⟩
      refine ⟨_, ⟨rfl, rfl⟩, ?_, ?_⟩
      · simpa using hpos.ne'
      · simpa using hle
  | _ => simp [PartialOn, Short, h, hout, Outcome.sent]

/-- A line is started on the connection of its time if `send` accepts something. -/
lemma startedOn_iff (h : a.sent = a.outcome.sent c (a.line ++ [lf])) :
    a.StartedOn c' ↔ c' = c ∧ a.AcceptsSome := by
  cases hout : a.outcome with
  | accepts n =>
    simp only [StartedOn, AcceptsSome, h, hout, Outcome.sent, Option.some.injEq, Prod.mk.injEq,
      Outcome.accepts.injEq]
    constructor
    · rintro ⟨bytes, ⟨rfl, rfl⟩, hne⟩
      exact ⟨rfl, n, rfl, Nat.pos_of_ne_zero (by simpa using hne)⟩
    · rintro ⟨rfl, m, rfl, hpos⟩
      exact ⟨_, ⟨rfl, rfl⟩, by simpa using hpos.ne'⟩
  | _ => simp [StartedOn, AcceptsSome, h, hout, Outcome.sent]

end

end Attempt

/-- Whenever a line is delivered in full, so is every line before it. -/
def NoGap (attempts : List Attempt) : Prop := attempts.Pairwise fun a b => b.Full → a.Full

/-- No partial line is followed on the same connection by the start of another one. -/
def NoSplice (attempts : List Attempt) : Prop :=
  ∀ a later, a :: later <:+ attempts → ∀ c, a.PartialOn c → ∀ b ∈ later, ¬ b.StartedOn c

/-- The process never recovers from a failure: once `connect` or `send` fails or `send` is short, no
later `send` accepts a whole line, and after a short `send` nothing is accepted before a `send`
fails. -/
structure NeverRecovers (attempts : List Attempt) : Prop where
  whole : attempts.Pairwise fun a b => b.Whole → a.Whole
  short : ∀ a later, a :: later <:+ attempts → a.Short →
    ∀ b ∈ later.takeWhile fun b => b.outcome ≠ .sendFails, ¬ b.AcceptsSome

/-! ## The two agree -/

section Runs

variable {es : List ForwarderEvent} {s : Forwarder}

/-- Lines are delivered without a gap if no later `send` accepts a whole line. -/
lemma noGap_iff (hinv : ForwarderInv s) :
    NoGap s.attempts ↔ s.attempts.Pairwise fun a b => b.Whole → a.Whole := by
  have hfull : ∀ a ∈ s.attempts, (a.Full ↔ a.Whole) := by
    intro a ha
    obtain ⟨earlier, later, heq⟩ := List.append_of_mem ha
    exact Attempt.full_iff (hinv.sent_eq earlier a later heq)
  apply List.Pairwise.iff_of_mem
  intro a b ha hb
  rw [hfull a ha, hfull b hb]

/-- What a later line leaves on a connection. -/
lemma sent_of_later (hinv : ForwarderInv s) {earlier between rest : List Attempt} {a b : Attempt}
    (heq : earlier ++ a :: (between ++ b :: rest) = s.attempts) :
    b.sent =
      b.outcome.sent (failedSends earlier + failedSends (a :: between)) (b.line ++ [lf]) := by
  rw [← failedSends_append]
  exact hinv.sent_eq (earlier ++ a :: between) b rest (by rw [← heq]; simp)

/-- No partial line is continued by another one if nothing is accepted between a short `send` and a
failed one. -/
lemma noSplice_iff (hinv : ForwarderInv s) :
    NoSplice s.attempts ↔ ∀ a later, a :: later <:+ s.attempts → a.Short →
      ∀ b ∈ later.takeWhile fun b => b.outcome ≠ .sendFails, ¬ b.AcceptsSome := by
  constructor
  · intro h a later hsuffix hshort b hb hsome
    obtain ⟨earlier, heq⟩ := hsuffix
    have hpartial : a.PartialOn (failedSends earlier) :=
      (Attempt.partialOn_iff (hinv.sent_eq earlier a later heq.symm)).mpr ⟨rfl, hshort⟩
    obtain ⟨between, rest, htake⟩ := List.append_of_mem hb
    have hlater : later =
        between ++ b :: (rest ++ later.dropWhile fun b => b.outcome ≠ .sendFails) := by
      conv_lhs => rw [← List.takeWhile_append_dropWhile (l := later)
        (p := fun b => b.outcome ≠ .sendFails), htake]
      simp
    -- no `send` fails from the short one to the one of the later line
    have hopen : failedSends (a :: between) = 0 := by
      apply failedSends_eq_zero_iff.mpr
      intro m hm
      rcases List.mem_cons.mp hm with rfl | hm
      · exact hshort.outcome_ne
      · have hmem : m ∈ later.takeWhile fun b => b.outcome ≠ .sendFails := by
          rw [htake]
          exact List.mem_append_left _ hm
        simpa using List.mem_takeWhile_imp hmem
    have hstarted : b.StartedOn (failedSends earlier) := by
      rw [Attempt.startedOn_iff (sent_of_later hinv (hlater ▸ heq)), hopen]
      exact ⟨rfl, hsome⟩
    exact h a later ⟨earlier, heq⟩ _ hpartial b (List.takeWhile_subset _ hb) hstarted
  · intro h a later hsuffix c hpartial b hb hstarted
    obtain ⟨earlier, heq⟩ := hsuffix
    obtain ⟨rfl, hshort⟩ :=
      (Attempt.partialOn_iff (hinv.sent_eq earlier a later heq.symm)).mp hpartial
    obtain ⟨between, rest, rfl⟩ := List.append_of_mem hb
    obtain ⟨hconn, hsome⟩ := (Attempt.startedOn_iff (sent_of_later hinv heq)).mp hstarted
    have hopen : failedSends (a :: between) = 0 := by omega
    have hbetween : ∀ m ∈ between, m.outcome ≠ .sendFails := by
      intro m hm
      exact failedSends_eq_zero_iff.mp hopen m (List.mem_cons_of_mem _ hm)
    refine h a _ ⟨earlier, heq⟩ hshort b ?_ hsome
    rw [List.takeWhile_append_of_pos (by simpa using hbetween),
      List.takeWhile_cons_of_pos (by simpa using hsome.outcome_ne)]
    exact List.mem_append_right _ List.mem_cons_self

/-- **Delivery without a gap.**  In every run, the lines delivered in full have no gap and no
partial line is followed on its connection by another line if and only if the process never
recovers from a failure. -/
theorem delivered_without_gap_iff (h : Trace forwarderStep (fun _ _ => True) .init es s) :
    NoGap s.attempts ∧ NoSplice s.attempts ↔ NeverRecovers s.attempts := by
  have hinv := forwarderInv_of_trace h
  rw [noGap_iff hinv, noSplice_iff hinv]
  exact ⟨fun ⟨hwhole, hshort⟩ => ⟨hwhole, hshort⟩, fun h => ⟨h.whole, h.short⟩⟩

/-- Two lines are read at once, and the server goes away before the second one. -/
theorem delivered_without_gap_iff_twoLines :
    ∃ s : Forwarder, s.attempts.map Attempt.sent = [some (0, ascii "A\n"), none] ∧
      NoGap s.attempts ∧ NoSplice s.attempts := by
  have hrun : replayEvents forwarderStep (fun _ _ => True) .init
      [.read (ascii "A\nB\n"), .forward (.accepts 2), .forward .sendFails] =
      some ⟨[], ⟨false, 1⟩, [⟨ascii "A", .accepts 2, some (0, ascii "A\n")⟩,
        ⟨ascii "B", .sendFails, none⟩]⟩ := by decide +kernel
  refine ⟨_, rfl, (delivered_without_gap_iff (Trace.of_replayEvents hrun)).mpr ⟨?_, ?_⟩⟩
  · simp [Attempt.Whole]
  · rintro a later hsuffix ⟨n, hout, hpos, hle⟩
    have ha : a = ⟨ascii "A", .accepts 2, some (0, ascii "A\n")⟩ ∨
        a = ⟨ascii "B", .sendFails, none⟩ := by
      simpa using hsuffix.mem List.mem_cons_self
    rcases ha with rfl | rfl
    · obtain rfl := Outcome.accepts.inj hout
      exact absurd hle (by decide)
    · cases hout

/-- A line is lost when the connection fails, and the next one is delivered. -/
theorem not_every_delivery_without_gap :
    ¬ ∀ (es : List ForwarderEvent) (s : Forwarder),
      Trace forwarderStep (fun _ _ => True) .init es s →
      NoGap s.attempts ∧ NoSplice s.attempts := by
  intro h
  have hrun : replayEvents forwarderStep (fun _ _ => True) .init
      [.read (ascii "A\nB\n"), .forward .connectFails, .forward (.accepts 2)] =
      some ⟨[], ⟨true, 0⟩, [⟨ascii "A", .connectFails, none⟩,
        ⟨ascii "B", .accepts 2, some (0, ascii "B\n")⟩]⟩ := by decide +kernel
  obtain ⟨hgap, -⟩ := h _ _ (Trace.of_replayEvents hrun)
  obtain ⟨c, hsent⟩ := (List.pairwise_pair.mp hgap) ⟨0, rfl⟩
  cases hsent

end Runs

end ParkingSystem
