import ParkingSystem.Server.Framing

/-!
# The descriptors of the event loop

`TcpServer::run` keeps the descriptors of its clients in the vector `fds`, in the keys of
`recvBufs_` and, within a pass, in `pendingFds_`; they are changed by `acceptClient`, `handleClient`
and `disconnectClient` at different places of a pass.  At the end of each pass they agree, whatever
`poll` reports and whatever the clients send.

The scan of the vector goes from the last index to the first and erases entries on its way;
`scanClients_eq` says that this is the loop over a list that `run` is modelled with.
-/

namespace ParkingSystem

open Foundation

/-- The descriptors that `handleClient` is called with, in order: each call begins with its
`recv`. -/
def handled (calls : List Call) : List ℕ :=
  calls.filterMap fun
    | .recv fd _ => some fd
    | _ => none

@[simp] lemma handled_append (l l' : List Call) : handled (l ++ l') = handled l ++ handled l' := by
  simp [handled]

section Scan

variable (stod : Bytes → Option ℚ) (p : PassInput)

/-! ## The scan by index -/

/-- The loop of `run` over the entries of `fds` with an index below `i`, from the last one to the
first, with `erase` at the index of an entry that was disconnected. -/
def scanClients : ℕ → List ℕ → TcpServer → List ℕ × TcpServer × List Call
  | 0, fds, s => (fds, s, [])
  | i + 1, fds, s =>
    match fds[i]? with
    | none => scanClients i fds s
    | some fd =>
      match p.recv fd with
      | none => scanClients i fds s
      | some chunk =>
        let (s, calls) := handleClient stod (p.envs fd) fd chunk s
        let (fds, s, calls') :=
          scanClients i (if fd ∈ s.recvBufs then fds else fds.eraseIdx i) s
        (fds, s, calls ++ calls')

/-- The loop over two lists of descriptors handles the second one first. -/
lemma clientLoop_append (fds fds' : List ℕ) (s : TcpServer) :
    clientLoop stod p (fds ++ fds') s =
      let after := clientLoop stod p fds' s
      let before := clientLoop stod p fds after.2.1
      (before.1 ++ after.1, before.2.1, after.2.2 ++ before.2.2) := by
  induction fds with
  | nil => simp [clientLoop]
  | cons fd fds ih =>
    simp only [List.cons_append, clientLoop, ih]
    cases p.recv fd with
    | none => rfl
    | some chunk =>
      simp only
      split_ifs <;> simp

/-- The scan of the first entries of a vector. -/
lemma scanClients_append (fds rest : List ℕ) (s : TcpServer) :
    scanClients stod p fds.length (fds ++ rest) s =
      ((clientLoop stod p fds s).1 ++ rest, (clientLoop stod p fds s).2) := by
  induction fds using List.reverseRecOn generalizing rest s with
  | nil => rfl
  | append_singleton fds fd ih =>
    have hget : (fds ++ [fd] ++ rest)[fds.length]? = some fd := by simp
    have hlen : (fds ++ [fd]).length = fds.length + 1 := by simp
    rw [hlen, scanClients, hget, clientLoop_append]
    cases hrecv : p.recv fd with
    | none =>
      simp only [clientLoop, hrecv]
      rw [List.append_assoc, ih]
      simp
    | some chunk =>
      simp only [clientLoop, hrecv]
      split_ifs with hopen
      · rw [List.append_assoc, ih]
        simp [hopen]
      · have herase : (fds ++ [fd] ++ rest).eraseIdx fds.length = fds ++ rest := by
          rw [List.append_assoc, List.eraseIdx_append_of_length_le le_rfl]
          simp
        rw [herase, ih]
        simp [hopen]

/-- **The backward scan.**  Erasing on the way does not make the scan miss an entry or meet one
twice. -/
theorem scanClients_eq (fds : List ℕ) (s : TcpServer) :
    scanClients stod p fds.length fds s = clientLoop stod p fds s := by
  have h := scanClients_append stod p fds [] s
  rwa [List.append_nil, List.append_nil] at h

end Scan

/-! ## One client -/

/-- The open descriptors are those with a receive buffer. -/
def OpenMatch (s : TcpServer) (net : Net) : Prop :=
  ∀ fd, (∃ c, net.owner fd = some c) ↔ fd ∈ s.recvBufs

section Client

variable (stod : Bytes → Option ℚ) {p : PassInput} {s : TcpServer} {net : Net} {fd : ℕ}
  {chunk : Bytes}

/-- Handling lines receives nothing. -/
lemma handled_lineStep (fd : ℕ) (ps : List (CallEnv × Bytes)) (sessions : SessionManager) :
    handled (runMachine (lineStep stod fd) sessions ps).2 = [] := by
  induction ps generalizing sessions with
  | nil => rfl
  | cons p ps ih =>
    have hline : handled (lineStep stod fd sessions p).2 = [] := by
      unfold lineStep handleLine
      cases parse stod p.2 with
      | none => rfl
      | some msg =>
        simp only [processMessage]
        cases msg.type with
        | msgStart => rfl
        | msgEnd =>
          rcases sessions.endSession msg.customerId.str with ⟨_ | session, sessions'⟩ <;> rfl
    simp only [runMachine, handled_append, hline, ih, List.append_nil]

/-- A client whose stream has ended is disconnected. -/
lemma handleClient_nil (envs : ℕ → CallEnv) (fd : ℕ) (s : TcpServer) :
    handleClient stod envs fd [] s =
      ({ s with recvBufs := s.recvBufs.erase fd }, [.recv fd [], .close fd]) := rfl

/-- A client that sends something keeps its descriptor. -/
lemma handleClient_of_ne_nil (hne : chunk ≠ []) (envs : ℕ → CallEnv) (fd : ℕ) (s : TcpServer) :
    ∃ sessions rbuf ps, handleClient stod envs fd chunk s =
      ({ s with sessions := sessions, recvBufs := s.recvBufs.insert fd rbuf },
        .recv fd chunk :: (runMachine (lineStep stod fd) s.sessions ps).2) := by
  simp only [handleClient, hne, if_false]
  rw [drainLines_eq stod fd le_rfl]
  exact ⟨_, _, _, rfl⟩

/-- One call of `handleClient`. -/
lemma handled_handleClient (envs : ℕ → CallEnv) (fd : ℕ) (chunk : Bytes) (s : TcpServer) :
    handled (handleClient stod envs fd chunk s).2 = [fd] := by
  by_cases hne : chunk = []
  · rw [hne, handleClient_nil]
    rfl
  · obtain ⟨sessions, rbuf, ps, heq⟩ := handleClient_of_ne_nil stod hne envs fd s
    rw [heq]
    simpa [handled] using handled_lineStep stod fd ps s.sessions

lemma pendingFds_handleClient (envs : ℕ → CallEnv) (fd : ℕ) (chunk : Bytes) (s : TcpServer) :
    (handleClient stod envs fd chunk s).1.pendingFds = s.pendingFds := by
  by_cases hne : chunk = []
  · rw [hne, handleClient_nil]
  · obtain ⟨sessions, rbuf, ps, heq⟩ := handleClient_of_ne_nil stod hne envs fd s
    rw [heq]

/-- The receive buffers after `handleClient`: only a client whose stream has ended loses its own. -/
lemma mem_recvBufs_handleClient (envs : ℕ → CallEnv) (chunk : Bytes) (hfd : fd ∈ s.recvBufs)
    (fd' : ℕ) :
    fd' ∈ (handleClient stod envs fd chunk s).1.recvBufs ↔
      fd' ∈ s.recvBufs ∧ ¬ (fd' = fd ∧ chunk = []) := by
  by_cases hne : chunk = []
  · rw [hne, handleClient_nil]
    simp [and_comm]
  · obtain ⟨sessions, rbuf, ps, heq⟩ := handleClient_of_ne_nil stod hne envs fd s
    rw [heq]
    simp only [AList.mem_insert, hne, and_false, not_false_eq_true, and_true, or_iff_right_iff_imp]
    rintro rfl
    exact hfd

/-- The open descriptors stay those with a receive buffer. -/
lemma OpenMatch.handleClient (h : OpenMatch s net) (envs : ℕ → CallEnv) (hfd : fd ∈ s.recvBufs) :
    OpenMatch (handleClient stod envs fd chunk s).1
      (net.recordAll (handleClient stod envs fd chunk s).2) := by
  obtain ⟨c, howner⟩ := (h fd).mpr hfd
  intro fd'
  rw [mem_recvBufs_handleClient stod envs chunk hfd, ← h fd']
  by_cases hne : chunk = []
  · subst hne
    have hrecv : (net.recordAll [.recv fd []]).owner = net.owner := by
      rw [Net.recordAll_of_owner howner (by simp [Call.StaysOn])]
      rfl
    have hclose : (net.recordAll (ParkingSystem.handleClient stod envs fd [] s).2) =
        (net.recordAll [.recv fd []]).record (.close fd) := rfl
    simp only [hclose, Net.owner_record_close, hrecv, and_true]
    constructor
    · rintro ⟨c', hfd', hc'⟩
      exact ⟨⟨c', hc'⟩, hfd'⟩
    · rintro ⟨⟨c', hc'⟩, hfd'⟩
      exact ⟨c', hfd', hc'⟩
  · obtain ⟨sessions, rbuf, ps, heq⟩ := handleClient_of_ne_nil stod hne envs fd s
    have hstays :
        ∀ call ∈ (ParkingSystem.handleClient stod envs fd chunk s).2, call.StaysOn fd := by
      rw [heq]
      intro call hcall
      rcases List.mem_cons.mp hcall with rfl | hcall
      · exact rfl
      · exact (lineStep_calls stod fd ps s.sessions).1 call hcall
    rw [Net.recordAll_of_owner howner hstays]
    simp [Net.extend, hne]

/-! ## The scan -/

/-- What the scan does to the descriptors: it drops the entries whose stream has ended, and it
handles each entry that is ready once, the last one first. -/
lemma clientLoop_descriptors {fds : List ℕ} (hnodup : fds.Nodup)
    (hfds : ∀ fd ∈ fds, fd ∈ s.recvBufs)
    (h : OpenMatch s net) :
    (clientLoop stod p fds s).1 = fds.filter (fun fd => p.recv fd ≠ some []) ∧
      (∀ fd, fd ∈ (clientLoop stod p fds s).2.1.recvBufs ↔
        fd ∈ s.recvBufs ∧ ¬ (fd ∈ fds ∧ p.recv fd = some [])) ∧
      OpenMatch (clientLoop stod p fds s).2.1 (net.recordAll (clientLoop stod p fds s).2.2) ∧
      (clientLoop stod p fds s).2.1.pendingFds = s.pendingFds ∧
      handled (clientLoop stod p fds s).2.2 =
        (fds.filter fun fd => (p.recv fd).isSome).reverse := by
  induction fds with
  | nil => exact ⟨rfl, by simp [clientLoop], h, rfl, rfl⟩
  | cons fd fds ih =>
    rw [List.nodup_cons] at hnodup
    obtain ⟨hkept, hmem, hopen, hpending, hhandled⟩ :=
      ih hnodup.2 fun fd' hfd' => hfds fd' (List.mem_cons_of_mem _ hfd')
    have hfd : fd ∈ (clientLoop stod p fds s).2.1.recvBufs :=
      (hmem fd).mpr ⟨hfds fd List.mem_cons_self, fun hin => hnodup.1 hin.1⟩
    simp only [clientLoop]
    cases hrecv : p.recv fd with
    | none =>
      refine ⟨?_, fun fd' => ?_, hopen, hpending, ?_⟩
      · rw [List.filter_cons_of_pos (by simp [hrecv]), hkept]
      · rw [hmem fd']
        by_cases hne : fd' = fd
        · simp [hne, hrecv]
        · simp [hne]
      · rw [List.filter_cons_of_neg (by simp [hrecv]), hhandled]
    | some chunk =>
      have hmem' := mem_recvBufs_handleClient stod (p.envs fd) chunk hfd
      refine ⟨?_, fun fd' => ?_, ?_, ?_, ?_⟩
      · simp only [hmem' fd, hfd, true_and, hkept]
        by_cases hchunk : chunk = []
        · rw [List.filter_cons_of_neg (by simp [hrecv, hchunk])]
          simp [hchunk]
        · rw [List.filter_cons_of_pos (by simp [hrecv, hchunk])]
          simp [hchunk]
      · rw [hmem' fd', hmem fd']
        by_cases hne : fd' = fd
        · subst hne
          simp [hrecv, hnodup.1]
        · simp [hne]
      · rw [Net.recordAll_append]
        exact hopen.handleClient stod (p.envs fd) hfd
      · rw [pendingFds_handleClient, hpending]
      · rw [handled_append, handled_handleClient, hhandled,
          List.filter_cons_of_pos (by simp [hrecv]),
          List.reverse_cons]

end Client

/-! ## Passes -/

/-- `accept` returns only descriptors that are not open. -/
def AcceptsClosed (r : ServerRun) (p : PassInput) : Prop :=
  ∀ cfd, p.accept = some (some cfd) → r.net.owner cfd = none

/-- The state at the end of a pass. -/
structure DescriptorInv (r : ServerRun) : Prop where
  nodup : r.loop.fds.Nodup
  mem_fds : ∀ fd, fd ∈ r.loop.fds ↔ fd ∈ r.loop.server.recvBufs
  pending : r.loop.server.pendingFds = []
  length_le : r.loop.fds.length ≤ maxClients
  opened : OpenMatch r.loop.server r.net

namespace DescriptorInv

variable {r r' : ServerRun} {p : PassInput}

lemma init : DescriptorInv ServerRun.init where
  nodup := List.nodup_nil
  mem_fds := by simp [ServerRun.init, RunState.init]
  pending := rfl
  length_le := Nat.zero_le _
  opened := by simp [OpenMatch, ServerRun.init, RunState.init, Net.init]

/-- The polled descriptors are the keys of the receive buffers. -/
lemma perm_keys (h : DescriptorInv r) : r.loop.fds.Perm r.loop.server.recvBufs.keys :=
  (List.perm_ext_iff_of_nodup h.nodup r.loop.server.recvBufs.keys_nodup).mpr h.mem_fds

/-- The check of the listening descriptor opens at most one descriptor, which waits for its
registration; there is room for it. -/
lemma checkListen (h : DescriptorInv r) (hp : AcceptsClosed r p) :
    ∃ new : List ℕ, (checkListen p r.loop.server).1.pendingFds = new ∧ new.Nodup ∧
      (∀ fd ∈ new, fd ∉ r.loop.fds) ∧ r.loop.fds.length + new.length ≤ maxClients ∧
      (∀ fd, fd ∈ (ParkingSystem.checkListen p r.loop.server).1.recvBufs ↔
        fd ∈ new ∨ fd ∈ r.loop.fds) ∧
      OpenMatch (ParkingSystem.checkListen p r.loop.server).1
        (r.net.recordAll (ParkingSystem.checkListen p r.loop.server).2) ∧
      handled (ParkingSystem.checkListen p r.loop.server).2 = [] := by
  have hnone : ∃ new : List ℕ, r.loop.server.pendingFds = new ∧ new.Nodup ∧
      (∀ fd ∈ new, fd ∉ r.loop.fds) ∧ r.loop.fds.length + new.length ≤ maxClients ∧
      ∀ fd, fd ∈ r.loop.server.recvBufs ↔ fd ∈ new ∨ fd ∈ r.loop.fds :=
    ⟨[], h.pending, List.nodup_nil, by simp, h.length_le, by simp [h.mem_fds]⟩
  unfold ParkingSystem.checkListen
  rcases hacc : p.accept with _ | _ | cfd
  · obtain ⟨new, hpend, hnd, hnew, hlen, hmem⟩ := hnone
    exact ⟨new, hpend, hnd, hnew, hlen, hmem, h.opened, rfl⟩
  · obtain ⟨new, hpend, hnd, hnew, hlen, hmem⟩ := hnone
    exact ⟨new, hpend, hnd, hnew, hlen, hmem, h.opened, rfl⟩
  · have hfree := hp cfd hacc
    have hcfd : cfd ∉ r.loop.fds := by
      rw [h.mem_fds, ← h.opened cfd]
      simp [hfree]
    simp only [acceptClient]
    split_ifs with hfull
    · -- the connection is refused
      obtain ⟨new, hpend, hnd, hnew, hlen, hmem⟩ := hnone
      refine ⟨new, hpend, hnd, hnew, hlen, hmem, ?_, rfl⟩
      have howner : Function.update r.net.owner cfd none = r.net.owner :=
        Function.update_eq_self_iff.mpr hfree.symm
      intro fd
      simp only [Net.recordAll, List.foldl_cons, List.foldl_nil, Net.record, Function.update_idem,
        howner]
      exact h.opened fd
    · rw [← h.perm_keys.length_eq] at hfull
      refine ⟨[cfd], by rw [h.pending]; rfl, List.nodup_singleton _, by simpa using hcfd, ?_, ?_,
        ?_,
        rfl⟩
      · rw [List.length_singleton]
        omega
      · intro fd
        rw [AList.mem_insert, List.mem_singleton, h.mem_fds]
      · intro fd
        rw [AList.mem_insert, ← h.opened fd]
        simp only [Net.recordAll, List.foldl_cons, List.foldl_nil, Net.record,
          Function.update_apply]
        by_cases hne : fd = cfd <;> simp [hne]

/-- One pass keeps the invariant, and handles each entry that is ready once, the last one first. -/
lemma step (stod : Bytes → Option ℚ) (h : DescriptorInv r) (hp : AcceptsClosed r p) :
    (∀ r', serverStep stod r p = some r' → DescriptorInv r') ∧
      handled (runPass stod p r.loop).2 =
        (r.loop.fds.filter fun fd => (p.recv fd).isSome).reverse := by
  obtain ⟨new, hpend, hnd, hnew, hlen, hmem, hopen, hnothing⟩ := h.checkListen hp
  obtain ⟨hkept, hmem', hopen', hpend', hhandled⟩ := clientLoop_descriptors stod (p := p) h.nodup
    (fun fd hfd => (hmem fd).mpr (.inr hfd)) hopen
  constructor
  · intro r' hr'
    rw [serverStep_eq, Option.some.injEq] at hr'
    subst hr'
    rw [hpend] at hpend'
    refine ⟨?_, ?_, rfl, ?_, ?_⟩
    · rw [hpend', hkept, List.nodup_append]
      refine ⟨h.nodup.filter _, List.nodup_reverse.mpr hnd, ?_⟩
      rintro fd hfd fd' hfd' rfl
      exact hnew fd (List.mem_reverse.mp hfd') (List.mem_of_mem_filter hfd)
    · intro fd
      simp only [hpend', hkept, List.mem_append, List.mem_reverse, List.mem_filter,
        decide_eq_true_eq]
      rw [hmem' fd, hmem fd]
      by_cases hfd : fd ∈ new
      · simp [hfd, hnew fd hfd]
      · by_cases hold : fd ∈ r.loop.fds <;> simp [hfd, hold]
    · rw [hpend', hkept, List.length_append, List.length_reverse]
      exact (Nat.add_le_add_right (List.length_filter_le _ _) _).trans hlen
    · exact hopen'
  · simp only [runPass, handled_append, hnothing, List.nil_append]
    exact hhandled

end DescriptorInv

/-- **The descriptors agree.**  At the end of each pass of every run, the polled descriptors are
distinct, are the keys of the receive buffers and the open descriptors, at most `MAX_CLIENTS`, and
none waits for its registration; and whatever `poll` reports in the next pass, each entry that is
ready is handled once, and no other one. -/
theorem descriptors_agree (stod : Bytes → Option ℚ) {ps : List PassInput} {r : ServerRun}
    (hrun : Trace (serverStep stod) AcceptsClosed ServerRun.init ps r) :
    r.loop.fds.Nodup ∧ r.loop.fds.Perm r.loop.server.recvBufs.keys ∧
      r.loop.server.pendingFds = [] ∧ r.loop.fds.length ≤ maxClients ∧
      (∀ fd, (∃ c, r.net.owner fd = some c) ↔ fd ∈ r.loop.fds) ∧
      ∀ p, AcceptsClosed r p → ∀ fd, (handled (runPass stod p r.loop).2).count fd =
        if fd ∈ r.loop.fds ∧ (p.recv fd).isSome then 1 else 0 := by
  have hinv : DescriptorInv r :=
    hrun.invariant DescriptorInv.init fun _ _ _ h hp hs => (h.step stod hp).1 _ hs
  refine ⟨hinv.nodup, hinv.perm_keys, hinv.pending, hinv.length_le, ?_, ?_⟩
  · intro fd
    rw [hinv.opened fd, hinv.mem_fds fd]
  · intro p hp fd
    rw [(hinv.step stod hp).2, List.count_reverse]
    split_ifs with hready
    · exact List.count_eq_one_of_mem (hinv.nodup.filter _) (List.mem_filter.mpr hready)
    · exact List.count_eq_zero_of_not_mem fun hmem => hready (List.mem_filter.mp hmem)

/-- A pass in which a client is accepted and the streams of all others have ended. -/
def turnoverPass (cfd : ℕ) : PassInput :=
  ⟨some (some cfd), fun _ => some [], fun _ _ => ⟨0, 0, PriceArea.zero⟩⟩

/-- Two clients leave in the pass in which a third one comes, and a descriptor is used again. -/
theorem descriptors_agree_turnover :
    ∃ r, Trace (serverStep readDecimal) AcceptsClosed ServerRun.init
        [acceptPass 5, acceptPass 6, turnoverPass 7, acceptPass 5] r ∧
      r.loop.fds = [7, 5] ∧ r.loop.fds.Perm r.loop.server.recvBufs.keys := by
  have haccept : ∀ {r : ServerRun} {cfd : ℕ}, r.net.owner cfd = none →
      AcceptsClosed r (acceptPass cfd) := fun h => (acceptPass_valid h).1
  have h0 : Trace (serverStep readDecimal) AcceptsClosed ServerRun.init [] ServerRun.init := .nil
  have h1 := h0.snoc (haccept rfl) (serverStep_eq readDecimal _ (acceptPass 5))
  have h2 := h1.snoc (haccept (by decide +kernel)) (serverStep_eq readDecimal _ (acceptPass 6))
  have h3 := h2.snoc (e := turnoverPass 7) (fun cfd hcfd => by
      obtain rfl : 7 = cfd := by simpa [turnoverPass] using hcfd
      decide +kernel) (serverStep_eq readDecimal _ (turnoverPass 7))
  have h4 := h3.snoc (haccept (by decide +kernel)) (serverStep_eq readDecimal _ (acceptPass 5))
  exact ⟨_, h4, by decide +kernel, (descriptors_agree readDecimal h4).2.1⟩

end ParkingSystem
