import ParkingSystem.Foundation.Resource
import ParkingSystem.Server.Descriptors

/-!
# The life of the client descriptors

`TcpServer::run` from its call to its return: `running_` is set, the passes of the loop follow, each
begun with a test of `running_`, and at the end all clients are closed.  `poll` may be interrupted
by a signal or fail, and the signal handler may clear `running_` at any time.

In all runs a descriptor is used only while it is open, and when `run` has returned, each descriptor
that was accepted has been closed, as often as it was accepted.
-/

namespace ParkingSystem

open Foundation

/-! ## The code -/

/-- What `poll` reports. -/
inductive PollResult where
  /-- `EINTR`. -/
  | interrupted
  /-- Another error. -/
  | failed
  /-- The descriptors that are ready; none when the time is over. -/
  | ready (p : PassInput)

/-- Where the server is. -/
inductive ServerPc where
  /-- Before `run` sets `running_`. -/
  | before
  /-- Before the test of `running_`. -/
  | head
  /-- Before `poll`. -/
  | polling
  | returned
deriving DecidableEq

/-- The server process, with the calls that it has made. -/
structure ServerProcess where
  pc : ServerPc
  /-- `running_`. -/
  running : Bool
  run : RunState
  calls : List Call

/-- A step of the server, or a signal. -/
inductive ServerEvent where
  /-- `running_ = true`. -/
  | start
  /-- The test of `running_`. -/
  | test
  /-- `poll`, and the rest of the turn. -/
  | poll (result : PollResult)
  /-- `SIGINT` or `SIGTERM`: the handler calls `stop`. -/
  | stop

/-- `run` closes all clients and returns. -/
def ServerProcess.leave (s : ServerProcess) : ServerProcess :=
  { s with pc := .returned, calls := s.calls ++ s.run.fds.map .close }

/-- What happens at an event. -/
def processStep (stod : Bytes → Option ℚ) (s : ServerProcess) : ServerEvent → Option ServerProcess
  | .start => if s.pc = .before then some { s with pc := .head, running := true } else none
  | .test =>
    if s.pc = .head then some (if s.running then { s with pc := .polling } else s.leave) else none
  | .poll result =>
    if s.pc = .polling then
      match result with
      | .interrupted => some { s with pc := .head }
      | .failed => some s.leave
      | .ready p =>
        let (run, calls) := runPass stod p s.run
        some { s with pc := .head, run := run, calls := s.calls ++ calls }
    else none
  | .stop => some { s with running := false }

/-- The server when `run` is called; its constructor has left `running_` at `false`. -/
def ServerProcess.init : ServerProcess := ⟨.before, false, RunState.init, []⟩

/-- The descriptor that `accept` returns in the turn. -/
def ServerEvent.accepted : ServerEvent → Option ℕ
  | .poll (.ready p) => p.accept.join
  | _ => none

/-- `accept` returns only descriptors that are not open. -/
def AcceptsFree (s : ServerProcess) (e : ServerEvent) : Prop :=
  ∀ cfd ∈ e.accepted, s.calls.count (.accept cfd) = s.calls.count (.close cfd)

instance decidableAcceptsFree (s : ServerProcess) (e : ServerEvent) :
    Decidable (AcceptsFree s e) :=
  inferInstanceAs (Decidable (∀ cfd ∈ e.accepted, _ = _))

/-! ## What the calls do to descriptors -/

/-- The descriptor that a call opens, uses or closes. -/
def Call.resource : Call → ResourceUse ℕ
  | .accept fd => .acquire fd
  | .recv fd _ => .use fd
  | .parse _ _ => .other
  | .storeRecord _ => .other
  | .sendReply fd _ => .use fd
  | .close fd => .release fd

/-- The descriptors with a receive buffer. -/
def TcpServer.openFds (s : TcpServer) : Set ℕ := {fd | fd ∈ s.recvBufs}

/-- A descriptor is acquired by `accept`. -/
lemma Call.resource_eq_acquire_iff {call : Call} {fd : ℕ} :
    call.resource = .acquire fd ↔ call = .accept fd := by
  cases call <;> simp [Call.resource]

/-- It is released by `close`. -/
lemma Call.resource_eq_release_iff {call : Call} {fd : ℕ} :
    call.resource = .release fd ↔ call = .close fd := by
  cases call <;> simp [Call.resource]

/-- Proper calls open a descriptor as often as they close it, and once more while it is open. -/
lemma count_accept {calls : List Call} (h : Proper Call.resource ∅ calls) (fd : ℕ) :
    (fd ∈ heldAfter Call.resource ∅ calls →
        calls.count (.accept fd) = calls.count (.close fd) + 1) ∧
      (fd ∉ heldAfter Call.resource ∅ calls →
        calls.count (.accept fd) = calls.count (.close fd)) := by
  have haccept : calls.countP (fun call => call.resource = .acquire fd) =
      calls.count (.accept fd) := by
    rw [List.count_eq_countP]
    exact List.countP_congr fun call _ => by simp [Call.resource_eq_acquire_iff]
  have hclose : calls.countP (fun call => call.resource = .release fd) =
      calls.count (.close fd) := by
    rw [List.count_eq_countP]
    exact List.countP_congr fun call _ => by simp [Call.resource_eq_release_iff]
  have hcount := h.count_acquire fd
  rwa [haccept, hclose] at hcount

/-- A descriptor is not open after proper calls if they have closed it as often as accepted it. -/
lemma notMem_heldAfter {calls : List Call} (h : Proper Call.resource ∅ calls) {fd : ℕ}
    (hcount : calls.count (.accept fd) = calls.count (.close fd)) :
    fd ∉ heldAfter Call.resource ∅ calls := by
  intro hmem
  have := (count_accept h fd).1 hmem
  omega

/-! ## One pass -/

section Pass

variable (stod : Bytes → Option ℚ) {p : PassInput} {s : TcpServer} {fd : ℕ} {chunk : Bytes}

/-- Calls on an open descriptor that stays open. -/
lemma proper_of_staysOn {calls : List Call} (h : ∀ call ∈ calls, call.StaysOn fd)
    (hfd : fd ∈ s.openFds) :
    Proper Call.resource s.openFds calls ∧ heldAfter Call.resource s.openFds calls = s.openFds := by
  refine proper_of_use (fun call hcall => ?_) hfd
  have hstays := h call hcall
  cases call <;> simp only [Call.StaysOn] at hstays <;> simp [Call.resource, hstays]

/-- The calls of `handleClient` are proper on a client, and keep the open descriptors those with a
receive buffer. -/
lemma handleClient_proper (envs : ℕ → CallEnv) (chunk : Bytes) (hfd : fd ∈ s.recvBufs) :
    Proper Call.resource s.openFds (handleClient stod envs fd chunk s).2 ∧
      heldAfter Call.resource s.openFds (handleClient stod envs fd chunk s).2 =
        (handleClient stod envs fd chunk s).1.openFds := by
  have hopen : (handleClient stod envs fd chunk s).1.openFds =
      {fd' | fd' ∈ s.openFds ∧ ¬(fd' = fd ∧ chunk = [])} := by
    ext fd'
    exact mem_recvBufs_handleClient stod envs chunk hfd fd'
  rw [hopen]
  by_cases hne : chunk = []
  · subst hne
    rw [handleClient_nil]
    refine ⟨⟨hfd, hfd, trivial⟩, ?_⟩
    ext fd'
    simp [heldAfter, Call.resource, ResourceUse.after]
  · obtain ⟨sessions, rbuf, ps, heq⟩ := handleClient_of_ne_nil stod hne envs fd s
    have hstays : ∀ call ∈ (handleClient stod envs fd chunk s).2, call.StaysOn fd := by
      rw [heq]
      intro call hcall
      rcases List.mem_cons.mp hcall with rfl | hcall
      · rfl
      · exact (lineStep_calls stod fd ps s.sessions).1 call hcall
    obtain ⟨hproper, hheld⟩ := proper_of_staysOn hstays hfd
    exact ⟨hproper, by rw [hheld]; simp [hne]⟩

/-- The calls of the scan are proper. -/
lemma clientLoop_proper {fds : List ℕ} (hnodup : fds.Nodup) (hfds : ∀ fd ∈ fds, fd ∈ s.recvBufs) :
    Proper Call.resource s.openFds (clientLoop stod p fds s).2.2 ∧
      heldAfter Call.resource s.openFds (clientLoop stod p fds s).2.2 =
        (clientLoop stod p fds s).2.1.openFds ∧
      ∀ fd, fd ∉ fds → (fd ∈ (clientLoop stod p fds s).2.1.recvBufs ↔ fd ∈ s.recvBufs) := by
  induction fds with
  | nil => exact ⟨trivial, rfl, fun _ _ => Iff.rfl⟩
  | cons fd fds ih =>
    rw [List.nodup_cons] at hnodup
    obtain ⟨hproper, hheld, hothers⟩ :=
      ih hnodup.2 fun fd' hfd' => hfds fd' (List.mem_cons_of_mem _ hfd')
    simp only [clientLoop]
    cases hrecv : p.recv fd with
    | none => exact ⟨hproper, hheld, fun fd' h => hothers fd' fun hin => h (by simp [hin])⟩
    | some chunk =>
      have hfd : fd ∈ (clientLoop stod p fds s).2.1.recvBufs :=
        (hothers fd hnodup.1).mpr (hfds fd List.mem_cons_self)
      obtain ⟨hproper', hheld'⟩ := handleClient_proper stod (p.envs fd) chunk hfd
      refine ⟨proper_append_iff.mpr ⟨hproper, by rwa [hheld]⟩, ?_, fun fd' hfd' => ?_⟩
      · rw [heldAfter_append, hheld, hheld']
      · rw [List.mem_cons, not_or] at hfd'
        rw [mem_recvBufs_handleClient stod (p.envs fd) chunk hfd, ← hothers fd' hfd'.2]
        simp [hfd'.1]

/-- The calls of the check of the listening descriptor are proper. -/
lemma checkListen_proper (hfree : ∀ cfd, p.accept = some (some cfd) → cfd ∉ s.recvBufs) :
    Proper Call.resource s.openFds (checkListen p s).2 ∧
      heldAfter Call.resource s.openFds (checkListen p s).2 = (checkListen p s).1.openFds := by
  unfold checkListen
  rcases hacc : p.accept with _ | _ | cfd
  · exact ⟨trivial, rfl⟩
  · exact ⟨trivial, rfl⟩
  · have hcfd : cfd ∉ s.openFds := hfree cfd hacc
    simp only [acceptClient]
    split_ifs
    · refine ⟨⟨hcfd, Set.mem_insert cfd _, trivial⟩, ?_⟩
      exact Set.insert_sdiff_self_of_notMem hcfd
    · refine ⟨⟨hcfd, trivial⟩, ?_⟩
      ext fd'
      simp [heldAfter, Call.resource, ResourceUse.after, TcpServer.openFds]

/-- **The calls of a pass are proper**, and the descriptors that are open behind it are those with a
receive buffer. -/
lemma runPass_proper {r : ServerRun} (h : DescriptorInv r) (hp : AcceptsClosed r p) :
    Proper Call.resource r.loop.server.openFds (runPass stod p r.loop).2 ∧
      heldAfter Call.resource r.loop.server.openFds (runPass stod p r.loop).2 =
        (runPass stod p r.loop).1.server.openFds := by
  have hfree : ∀ cfd, p.accept = some (some cfd) → cfd ∉ r.loop.server.recvBufs := by
    intro cfd hacc
    rw [← h.opened cfd]
    simp [hp cfd hacc]
  obtain ⟨new, -, -, -, -, hmem, -⟩ := h.checkListen hp
  obtain ⟨hlisten, hheld⟩ := checkListen_proper hfree
  obtain ⟨hscan, hheld', -⟩ := clientLoop_proper stod (p := p) h.nodup
    fun fd hfd => (hmem fd).mpr (.inr hfd)
  have hcalls : (runPass stod p r.loop).2 = (checkListen p r.loop.server).2 ++
      (clientLoop stod p r.loop.fds (checkListen p r.loop.server).1).2.2 := rfl
  rw [hcalls, proper_append_iff, heldAfter_append, hheld, hheld']
  exact ⟨⟨hlisten, hscan⟩, rfl⟩

end Pass

/-- Closing distinct open descriptors is proper. -/
lemma close_proper (held : Set ℕ) {fds : List ℕ} (hnodup : fds.Nodup)
    (hfds : ∀ fd ∈ fds, fd ∈ held) :
    Proper Call.resource held (fds.map .close) ∧
      heldAfter Call.resource held (fds.map .close) = held \ {fd | fd ∈ fds} := by
  induction fds generalizing held with
  | nil => simp
  | cons fd fds ih =>
    rw [List.nodup_cons] at hnodup
    have hrest : ∀ fd' ∈ fds, fd' ∈ held \ {fd} := by
      intro fd' hfd'
      exact ⟨hfds fd' (List.mem_cons_of_mem _ hfd'), fun heq => hnodup.1 (heq ▸ hfd')⟩
    obtain ⟨hproper, hheld⟩ := ih _ hnodup.2 hrest
    refine ⟨⟨hfds fd List.mem_cons_self, hproper⟩, ?_⟩
    refine hheld.trans ?_
    ext fd'
    simp only [Set.mem_sdiff, Set.mem_singleton_iff, Set.mem_ofPred_eq, List.mem_cons, not_or]
    tauto

/-! ## Whole runs -/

/-- The invariant of the server process. -/
structure ProcessInv (s : ServerProcess) : Prop where
  descriptors : s.pc ≠ .returned → DescriptorInv ⟨s.run, Net.init.recordAll s.calls⟩
  proper : Proper Call.resource ∅ s.calls
  held : s.pc ≠ .returned → heldAfter Call.resource ∅ s.calls = s.run.server.openFds
  returned : s.pc = .returned → heldAfter Call.resource ∅ s.calls = ∅

namespace ProcessInv

variable {s s' : ServerProcess}

/-- The invariant holds before `run` is called. -/
lemma init : ProcessInv ServerProcess.init where
  descriptors _ := DescriptorInv.init
  proper := trivial
  held _ := by
    ext fd
    simp [ServerProcess.init, RunState.init, TcpServer.openFds]
  returned := nofun

/-- A step that makes no call. -/
lemma goto (h : ProcessInv s) (hpc : s.pc ≠ .returned) {pc : ServerPc} (hpc' : pc ≠ .returned)
    (running : Bool) : ProcessInv { s with pc := pc, running := running } where
  descriptors _ := h.descriptors hpc
  proper := h.proper
  held _ := h.held hpc
  returned heq := absurd heq hpc'

/-- At the end all clients are closed. -/
lemma leave (h : ProcessInv s) (hpc : s.pc ≠ .returned) : ProcessInv s.leave := by
  have hdesc := h.descriptors hpc
  obtain ⟨hproper, hheld⟩ := close_proper s.run.server.openFds hdesc.nodup
    fun fd hfd => (hdesc.mem_fds fd).mp hfd
  refine ⟨fun hne => absurd rfl hne, ?_, fun hne => absurd rfl hne, fun _ => ?_⟩
  · exact proper_append_iff.mpr ⟨h.proper, by rwa [h.held hpc]⟩
  · change heldAfter Call.resource ∅ (s.calls ++ s.run.fds.map .close) = ∅
    rw [heldAfter_append, h.held hpc, hheld]
    ext fd
    simp only [Set.mem_sdiff, Set.mem_ofPred_eq, Set.mem_empty_iff_false, iff_false, not_and,
      not_not]
    exact (hdesc.mem_fds fd).mpr

/-- A pass. -/
lemma pass (stod : Bytes → Option ℚ) (h : ProcessInv s) (hpc : s.pc ≠ .returned) {p : PassInput}
    (hfree : ∀ cfd, p.accept = some (some cfd) →
      s.calls.count (.accept cfd) = s.calls.count (.close cfd)) :
    ProcessInv { s with
      pc := .head
      run := (runPass stod p s.run).1
      calls := s.calls ++ (runPass stod p s.run).2 } := by
  have hdesc := h.descriptors hpc
  have haccepts : AcceptsClosed ⟨s.run, Net.init.recordAll s.calls⟩ p := by
    intro cfd hacc
    have hnot := notMem_heldAfter h.proper (hfree cfd hacc)
    rw [h.held hpc] at hnot
    have howner := (not_congr (hdesc.opened cfd)).mpr hnot
    simpa [Option.eq_none_iff_forall_not_mem] using howner
  obtain ⟨hproper, hheld⟩ := runPass_proper stod hdesc haccepts
  refine ⟨fun _ => ?_, ?_, fun _ => ?_, nofun⟩
  · rw [Net.recordAll_append]
    exact (hdesc.step stod haccepts).1 _ rfl
  · exact proper_append_iff.mpr ⟨h.proper, by rwa [h.held hpc]⟩
  · rw [heldAfter_append, h.held hpc]
    exact hheld

/-- Every event keeps the invariant. -/
lemma step (stod : Bytes → Option ℚ) (h : ProcessInv s) {e : ServerEvent} (hok : AcceptsFree s e)
    (hs : processStep stod s e = some s') : ProcessInv s' := by
  cases e with
  | start =>
    simp only [processStep, Option.ite_none_right_eq_some, Option.some.injEq] at hs
    obtain ⟨hpc, rfl⟩ := hs
    exact h.goto (by simp [hpc]) (by simp) true
  | test =>
    simp only [processStep, Option.ite_none_right_eq_some, Option.some.injEq] at hs
    obtain ⟨hpc, rfl⟩ := hs
    split_ifs
    · exact h.goto (by simp [hpc]) (by simp) s.running
    · exact h.leave (by simp [hpc])
  | poll result =>
    simp only [processStep, Option.ite_none_right_eq_some] at hs
    obtain ⟨hpc, hs⟩ := hs
    cases result with
    | interrupted =>
      obtain rfl := Option.some.inj hs
      exact h.goto (by simp [hpc]) (by simp) s.running
    | failed =>
      obtain rfl := Option.some.inj hs
      exact h.leave (by simp [hpc])
    | ready p =>
      obtain rfl := Option.some.inj hs
      exact h.pass stod (by simp [hpc]) fun cfd hacc =>
        hok cfd (by simp [ServerEvent.accepted, hacc])
  | stop =>
    obtain rfl := Option.some.inj hs
    exact ⟨h.descriptors, h.proper, h.held, h.returned⟩

end ProcessInv

/-! ## Why the loop ends -/

/-- Behind the start, a signal has come or `poll` has failed. -/
def Ended (es : List ServerEvent) : Prop :=
  ∃ es₁ es₂, es = es₁ ++ .start :: es₂ ∧ (.stop ∈ es₂ ∨ .poll .failed ∈ es₂)

/-- `run` has set `running_`, and the events `es` came behind this. -/
def Started (es : List ServerEvent) (s : ServerProcess) : Prop :=
  ∃ es₁ es₂, es = es₁ ++ .start :: es₂ ∧ (s.running = false → .stop ∈ es₂)

/-- What the events of a run say about where the server is. -/
def EventsMatch (es : List ServerEvent) (s : ServerProcess) : Prop :=
  match s.pc with
  | .before => True
  | .head => Started es s
  | .polling => Started es s
  | .returned => Ended es

section Events

variable {stod : Bytes → Option ℚ} {es : List ServerEvent} {e : ServerEvent} {s s' : ServerProcess}

/-- A step that leaves `running_` alone keeps this. -/
lemma Started.snoc (h : Started es s) (e : ServerEvent) (hrunning : s'.running = s.running) :
    Started (es ++ [e]) s' := by
  obtain ⟨es₁, es₂, rfl, hstop⟩ := h
  refine ⟨es₁, es₂ ++ [e], by simp, fun hfalse => ?_⟩
  exact List.mem_append_left _ (hstop (hrunning ▸ hfalse))

/-- The reason to end stays. -/
lemma Ended.snoc (h : Ended es) (e : ServerEvent) : Ended (es ++ [e]) := by
  obtain ⟨es₁, es₂, rfl, hend⟩ := h
  refine ⟨es₁, es₂ ++ [e], by simp, ?_⟩
  exact hend.imp (List.mem_append_left _) (List.mem_append_left _)

/-- Every event keeps the match. -/
lemma EventsMatch.step (h : EventsMatch es s) (hs : processStep stod s e = some s') :
    EventsMatch (es ++ [e]) s' := by
  cases e with
  | start =>
    simp only [processStep, Option.ite_none_right_eq_some, Option.some.injEq] at hs
    obtain ⟨-, rfl⟩ := hs
    exact ⟨es, [], rfl, nofun⟩
  | test =>
    simp only [processStep, Option.ite_none_right_eq_some, Option.some.injEq] at hs
    obtain ⟨hpc, rfl⟩ := hs
    simp only [EventsMatch, hpc] at h
    split_ifs with hrunning
    · exact h.snoc _ rfl
    · obtain ⟨es₁, es₂, rfl, hstop⟩ := h
      exact Ended.snoc ⟨es₁, es₂, rfl, .inl (hstop (by simpa using hrunning))⟩ _
  | poll result =>
    simp only [processStep, Option.ite_none_right_eq_some] at hs
    obtain ⟨hpc, hs⟩ := hs
    simp only [EventsMatch, hpc] at h
    cases result with
    | interrupted =>
      obtain rfl := Option.some.inj hs
      exact h.snoc _ rfl
    | failed =>
      obtain rfl := Option.some.inj hs
      obtain ⟨es₁, es₂, rfl, -⟩ := h
      exact ⟨es₁, es₂ ++ [.poll .failed], by simp, .inr (by simp)⟩
    | ready p =>
      obtain rfl := Option.some.inj hs
      exact h.snoc _ rfl
  | stop =>
    obtain rfl := Option.some.inj hs
    have hstopped : Started es s → Started (es ++ [.stop]) { s with running := false } := by
      rintro ⟨es₁, es₂, rfl, -⟩
      exact ⟨es₁, es₂ ++ [.stop], by simp, fun _ => by simp⟩
    unfold EventsMatch at h ⊢
    cases hpc : s.pc with
    | before => trivial
    | head =>
      rw [hpc] at h
      exact hstopped h
    | polling =>
      rw [hpc] at h
      exact hstopped h
    | returned =>
      rw [hpc] at h
      exact h.snoc _

end Events

/-- **The life of a descriptor.**  In every run, whatever `poll` reports and whatever the clients
send, a descriptor is received on, answered on and closed only while it has been accepted once more
than closed.  When `run` has returned, each descriptor has been closed as often as accepted, and
behind the assignment of `running_` a signal has come or `poll` has failed. -/
theorem descriptors_closed {stod : Bytes → Option ℚ} {es : List ServerEvent} {s : ServerProcess}
    (hrun : Trace (processStep stod) AcceptsFree ServerProcess.init es s) :
    (∀ calls call calls' fd, s.calls = calls ++ call :: calls' →
        call.resource = .use fd ∨ call = .close fd →
        calls.count (.accept fd) = calls.count (.close fd) + 1) ∧
      (s.pc = .returned →
        (∀ fd, s.calls.count (.accept fd) = s.calls.count (.close fd)) ∧ Ended es) := by
  have hinv : ProcessInv s :=
    hrun.invariant ProcessInv.init fun _ _ _ h hok hs => h.step stod hok hs
  have hevents : EventsMatch es s :=
    hrun.invariant_events trivial fun _ _ _ _ h _ hs => h.step hs
  constructor
  · intro calls call calls' fd hsplit hcall
    have hproper : Proper Call.resource ∅ (calls ++ call :: calls') := hsplit ▸ hinv.proper
    have hopen : fd ∈ heldAfter Call.resource ∅ calls := by
      have hallowed := hproper.allowed
      rcases hcall with huse | rfl
      · rwa [huse] at hallowed
      · exact hallowed
    exact (count_accept (proper_append_iff.mp hproper).1 fd).1 hopen
  · intro hpc
    refine ⟨fun fd => (count_accept hinv.proper fd).2 (by simp [hinv.returned hpc]), ?_⟩
    rwa [EventsMatch, hpc] at hevents

/-- A signal that comes before the start is lost.  Then two clients are accepted, one of them
leaves, and a signal interrupts `poll`. -/
theorem descriptors_closed_signal :
    ∃ s, Trace (processStep readDecimal) AcceptsFree ServerProcess.init
        [.stop, .start, .test, .poll (.ready (acceptPass 5)), .test, .poll (.ready (acceptPass 6)),
          .test, .poll (.ready (recvPass 5 [])), .test, .stop, .poll .interrupted, .test] s ∧
      s.calls = [.accept 5, .accept 6, .recv 5 [], .close 5, .close 6] ∧
      ∀ fd, s.calls.count (.accept fd) = s.calls.count (.close fd) := by
  have hrun : (replayEvents (processStep readDecimal) AcceptsFree ServerProcess.init
      [.stop, .start, .test, .poll (.ready (acceptPass 5)), .test, .poll (.ready (acceptPass 6)),
        .test, .poll (.ready (recvPass 5 [])), .test, .stop, .poll .interrupted, .test]).map
      (fun s => (s.pc, s.calls)) =
      some (.returned, [.accept 5, .accept 6, .recv 5 [], .close 5, .close 6]) := by
    decide +kernel
  obtain ⟨s, hs, hend⟩ := Option.map_eq_some_iff.mp hrun
  obtain ⟨hpc, hcalls⟩ := Prod.mk.inj hend
  have htrace := Trace.of_replayEvents hs
  exact ⟨s, htrace, hcalls, ((descriptors_closed htrace).2 hpc).1⟩

end ParkingSystem
