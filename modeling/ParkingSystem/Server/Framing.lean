import ParkingSystem.Foundation.Machine
import ParkingSystem.Foundation.Trace
import ParkingSystem.Server.TcpServer

/-!
# Framing of the client streams

A descriptor number is reused by the kernel after it was closed, so the server's calls on one
number may belong to many connections.  `Net` sorts the calls of a run by connection: each
successful `accept` opens a new connection, which owns the descriptor until `close`.

The result is that every connection is framed on its own.  The lines handed to the parser for a
connection are the complete lines of the bytes received on it, and each is answered by one reply
on the same connection.
-/

namespace ParkingSystem

open Foundation

/-! ## The receive loop -/

/-- The lines that are handed to the parser: carriage returns stripped, empty lines skipped. -/
def framedLines (lines : List Bytes) : List Bytes := (lines.map stripCr).filter (· ≠ [])

/-- Lines are stripped and kept one by one. -/
@[simp] lemma framedLines_append (ls ms : List Bytes) :
    framedLines (ls ++ ms) = framedLines ls ++ framedLines ms := by
  simp [framedLines]

section Drain

variable (stod : Bytes → Option ℚ) (fd : ℕ)

/-- Handling one line as a step of a machine on the session store. -/
def lineStep (sessions : SessionManager) (p : CallEnv × Bytes) : SessionManager × List Call :=
  handleLine stod p.1 fd p.2 sessions

/-- The lines with the environments in which they are handled. -/
def withEnvs (envs : ℕ → CallEnv) (lines : List Bytes) : List (CallEnv × Bytes) :=
  lines.mapIdx fun k line => (envs k, line)

/-- Each line keeps its place. -/
lemma map_snd_withEnvs (envs : ℕ → CallEnv) (lines : List Bytes) :
    (withEnvs envs lines).map Prod.snd = lines :=
  List.ext_getElem (by simp [withEnvs]) (by simp [withEnvs])

/-- **The receive loop.**  What stays in the buffer is the unfinished rest, and the complete lines
are handled in order. -/
theorem drainLines_eq {fuel : ℕ} {rbuf : Bytes} (hfuel : rbuf.length ≤ fuel) (envs : ℕ → CallEnv)
    (sessions : SessionManager) :
    drainLines stod fd fuel envs rbuf sessions =
      ((cutLines rbuf).2, runMachine (lineStep stod fd) sessions
        (withEnvs envs (framedLines (cutLines rbuf).1))) := by
  induction fuel generalizing envs rbuf sessions with
  | zero =>
    have hnil : rbuf = [] := List.length_eq_zero_iff.mp (Nat.le_zero.mp hfuel)
    subst hnil
    rfl
  | succ fuel ih =>
    rw [drainLines]
    cases hcut : cutAt lf rbuf with
    | none => simp [cutLines_of_notMem (cutAt_eq_none_iff.mp hcut), framedLines, withEnvs]
    | some p =>
      obtain ⟨line, rest⟩ := p
      have hrest : rest.length ≤ fuel := by
        obtain ⟨rfl, -⟩ := cutAt_eq_some_iff.mp hcut
        simp only [List.length_append, List.length_cons] at hfuel
        omega
      rw [cutLines_of_cutAt hcut]
      by_cases hline : stripCr line = []
      · simp only [hline, if_true, ih hrest]
        simp [framedLines, hline]
      · simp only [hline, if_false, ih hrest]
        simp [framedLines, withEnvs, hline, List.mapIdx_cons, runMachine, lineStep]

/-- Handling a chunk: what is appended to the receive buffer is the C string at its start. -/
lemma handleClient_cstr (envs : ℕ → CallEnv) {chunk : Bytes} {s : TcpServer} (hne : chunk ≠ []) :
    handleClient stod envs fd chunk s =
      let p := cutLines ((s.recvBufs.lookup fd).getD [] ++ cstr chunk)
      let out := runMachine (lineStep stod fd) s.sessions (withEnvs envs (framedLines p.1))
      ({ s with sessions := out.1, recvBufs := s.recvBufs.insert fd p.2 },
        .recv fd chunk :: out.2) := by
  simp only [handleClient, hne, if_false]
  rw [drainLines_eq stod fd le_rfl]

/-- Handling a chunk without NUL of a client whose receive buffer is known. -/
lemma handleClient_eq (envs : ℕ → CallEnv) {rest chunk : Bytes} {s : TcpServer}
    (hbuf : s.recvBufs.lookup fd = some rest) (hne : chunk ≠ []) (h0 : (0 : UInt8) ∉ chunk) :
    handleClient stod envs fd chunk s =
      let p := cutLines (rest ++ chunk)
      let out := runMachine (lineStep stod fd) s.sessions (withEnvs envs (framedLines p.1))
      ({ s with sessions := out.1, recvBufs := s.recvBufs.insert fd p.2 },
        .recv fd chunk :: out.2) := by
  have h := handleClient_cstr stod fd envs (s := s) hne
  rwa [hbuf, Option.getD_some, cstr_eq_self h0] at h

end Drain

/-! ## Connections -/

/-- The calls of a run, sorted by connection. -/
structure Net where
  /-- The connection that owns a descriptor. -/
  owner : ℕ → Option ℕ
  /-- The number of connections opened so far; connections are numbered in this order. -/
  opened : ℕ
  /-- The calls on each connection. -/
  logs : ℕ → List Call
  /-- The calls on descriptors that no connection owns. -/
  stray : List Call

/-- No connection yet. -/
def Net.init : Net := ⟨fun _ => none, 0, fun _ => [], []⟩

/-- Extend the log of a connection. -/
def Net.extend (net : Net) (c : ℕ) (calls : List Call) : Net :=
  { net with logs := Function.update net.logs c (net.logs c ++ calls) }

/-- Note a call on a descriptor. -/
def Net.append (net : Net) (fd : ℕ) (call : Call) : Net :=
  match net.owner fd with
  | some c => net.extend c [call]
  | none => { net with stray := net.stray ++ [call] }

/-- Note a call. -/
def Net.record (net : Net) (call : Call) : Net :=
  match call with
  | .accept fd =>
    { net with owner := Function.update net.owner fd (some net.opened), opened := net.opened + 1 }
  | .close fd => { net with owner := Function.update net.owner fd none }
  | .storeRecord _ => net
  | .recv fd _ => net.append fd call
  | .parse fd _ => net.append fd call
  | .sendReply fd _ => net.append fd call

/-- Note a list of calls. -/
def Net.recordAll (net : Net) (calls : List Call) : Net := calls.foldl Net.record net

section Extend

variable (net : Net) (c : ℕ) (calls : List Call)

/-- The calls are added to the log of the connection. -/
@[simp] lemma Net.logs_extend_self : (net.extend c calls).logs c = net.logs c ++ calls := by
  simp [Net.extend]

/-- The logs of other connections stay. -/
lemma Net.logs_extend_of_ne {c' : ℕ} (h : c' ≠ c) :
    (net.extend c calls).logs c' = net.logs c' := by
  simp [Net.extend, Function.update_of_ne h]

/-- Two extensions of one log are one. -/
lemma Net.extend_extend (calls' : List Call) :
    (net.extend c calls).extend c calls' = net.extend c (calls ++ calls') := by
  simp [Net.extend]

end Extend

/-- Calls are recorded one after the other. -/
@[simp] lemma Net.recordAll_append (net : Net) (l l' : List Call) :
    net.recordAll (l ++ l') = (net.recordAll l).recordAll l' := by
  simp [Net.recordAll]

/-- The bytes received in a log. -/
def receivedBytes (log : List Call) : Bytes :=
  log.flatMap fun
    | .recv _ chunk => chunk
    | _ => []

/-- The lines parsed and the replies sent in a log, in the order in which they occur. -/
def exchange (log : List Call) : List (Bytes ⊕ Bytes) :=
  log.filterMap fun
    | .parse _ line => some (.inl line)
    | .sendReply _ reply => some (.inr reply)
    | _ => none

/-- The lines parsed in a log. -/
def parsedLines (log : List Call) : List Bytes :=
  log.filterMap fun
    | .parse _ line => some line
    | _ => none

/-- Bytes are received one after the other. -/
@[simp] lemma receivedBytes_append (l l' : List Call) :
    receivedBytes (l ++ l') = receivedBytes l ++ receivedBytes l' := by
  simp [receivedBytes]

/-- Lines and replies follow one another. -/
@[simp] lemma exchange_append (l l' : List Call) :
    exchange (l ++ l') = exchange l ++ exchange l' := by
  simp [exchange]

/-- The lines parsed are the left components of the exchange. -/
lemma parsedLines_eq (log : List Call) :
    parsedLines log = (exchange log).filterMap Sum.getLeft? := by
  unfold parsedLines
  rw [exchange, List.filterMap_filterMap]
  congr 1
  funext call
  cases call <;> rfl

/-- Lines and replies in turn, each line followed by its reply. -/
def dialogue (lines replies : List Bytes) : List (Bytes ⊕ Bytes) :=
  (lines.zip replies).flatMap fun p => [.inl p.1, .inr p.2]

/-- Two dialogues in which every line has its reply follow one another. -/
lemma dialogue_append {ls rs ls' rs' : List Bytes} (h : rs.length = ls.length) :
    dialogue ls rs ++ dialogue ls' rs' = dialogue (ls ++ ls') (rs ++ rs') := by
  rw [dialogue, dialogue, dialogue, List.zip_append h.symm, List.flatMap_append]

/-- The lines of a dialogue. -/
lemma filterMap_dialogue {ls rs : List Bytes} (h : rs.length = ls.length) :
    (dialogue ls rs).filterMap Sum.getLeft? = ls := by
  induction ls generalizing rs with
  | nil => rfl
  | cons l ls ih =>
    cases rs with
    | nil => simp at h
    | cons r rs =>
      have ih := ih (Nat.succ.inj h)
      simp only [dialogue, List.zip_cons_cons, List.flatMap_cons, List.filterMap_append] at ih ⊢
      rw [ih]
      rfl

/-- The complete lines received in a log, as they are to be handed to the parser. -/
def completeLines (log : List Call) : List Bytes := framedLines (cutLines (receivedBytes log)).1

/-- The log of a connection is framed: its complete lines are parsed in order, each of them
answered before the next one is parsed. -/
def Framed (log : List Call) : Prop :=
  ∃ replies : List Bytes, replies.length = (completeLines log).length ∧
    exchange log = dialogue (completeLines log) replies

/-! ## Calls on one connection -/

/-- A call that concerns the descriptor while it stays open, or no descriptor at all. -/
def Call.StaysOn (fd : ℕ) : Call → Prop
  | .recv fd' _ => fd' = fd
  | .parse fd' _ => fd' = fd
  | .sendReply fd' _ => fd' = fd
  | .storeRecord _ => True
  | .accept _ => False
  | .close _ => False

/-- The calls that concern a descriptor. -/
def onDescriptor (calls : List Call) : List Call :=
  calls.filter fun
    | .storeRecord _ => false
    | _ => true

/-- A call that stores a record receives nothing. -/
@[simp] lemma receivedBytes_onDescriptor (calls : List Call) :
    receivedBytes (onDescriptor calls) = receivedBytes calls := by
  induction calls with
  | nil => rfl
  | cons call calls ih =>
    cases call <;> simpa [receivedBytes, onDescriptor, List.filter_cons] using ih

/-- Nor does it belong to the exchange with the client. -/
@[simp] lemma exchange_onDescriptor (calls : List Call) :
    exchange (onDescriptor calls) = exchange calls := by
  induction calls with
  | nil => rfl
  | cons call calls ih =>
    cases call <;> simpa [exchange, onDescriptor, List.filter_cons] using ih

/-- A call on a descriptor goes to the log of its connection. -/
lemma Net.append_of_owner {net : Net} {fd c : ℕ} (howner : net.owner fd = some c) (call : Call) :
    net.append fd call = net.extend c [call] := by
  simp only [Net.append, howner]

/-- Calls on a descriptor that a connection owns are noted for this connection, and nothing else
changes. -/
lemma Net.recordAll_of_owner {net : Net} {fd c : ℕ} (howner : net.owner fd = some c)
    {calls : List Call} (hcalls : ∀ call ∈ calls, call.StaysOn fd) :
    net.recordAll calls = net.extend c (onDescriptor calls) := by
  induction calls generalizing net with
  | nil => simp [Net.recordAll, Net.extend, onDescriptor]
  | cons call calls ih =>
    have hcall := hcalls call (by simp)
    have htail : ∀ call ∈ calls, call.StaysOn fd := fun x hx => hcalls x (by simp [hx])
    change (net.record call).recordAll calls = _
    cases call with
    | accept fd' => exact absurd hcall (by simp [Call.StaysOn])
    | close fd' => exact absurd hcall (by simp [Call.StaysOn])
    | storeRecord rec' => rw [Net.record, ih howner htail]; simp [onDescriptor]
    | recv fd' chunk | parse fd' line | sendReply fd' reply =>
      simp only [Call.StaysOn] at hcall
      subst hcall
      have howner' : ∀ calls, (net.extend c calls).owner fd' = some c := fun _ => howner
      rw [Net.record, Net.append_of_owner howner, ih (howner' _) htail, Net.extend_extend]
      simp [onDescriptor]

/-- Handling a line parses it and answers it once, on its own descriptor. -/
lemma handleLine_calls (stod : Bytes → Option ℚ) (env : CallEnv) (fd : ℕ) (line : Bytes)
    (sessions : SessionManager) :
    (∀ call ∈ (handleLine stod env fd line sessions).2, call.StaysOn fd) ∧
      receivedBytes (handleLine stod env fd line sessions).2 = [] ∧
      ∃ reply, exchange (handleLine stod env fd line sessions).2 = [.inl line, .inr reply] := by
  unfold handleLine
  cases parse stod line with
  | none => simp [Call.StaysOn, receivedBytes, exchange]
  | some msg =>
    simp only [processMessage]
    cases msg.type with
    | msgStart => simp [Call.StaysOn, receivedBytes, exchange]
    | msgEnd =>
      rcases sessions.endSession msg.customerId.str with ⟨_ | session, sessions'⟩ <;>
        simp [Call.StaysOn, receivedBytes, exchange]

/-- Handling lines in a row is a dialogue about these lines on one descriptor. -/
lemma lineStep_calls (stod : Bytes → Option ℚ) (fd : ℕ) (ps : List (CallEnv × Bytes))
    (sessions : SessionManager) :
    (∀ call ∈ (runMachine (lineStep stod fd) sessions ps).2, call.StaysOn fd) ∧
      receivedBytes (runMachine (lineStep stod fd) sessions ps).2 = [] ∧
      ∃ replies, replies.length = (ps.map Prod.snd).length ∧
        exchange (runMachine (lineStep stod fd) sessions ps).2 =
          dialogue (ps.map Prod.snd) replies := by
  induction ps generalizing sessions with
  | nil => exact ⟨by simp, rfl, [], rfl, rfl⟩
  | cons p ps ih =>
    obtain ⟨hon, hrecv, reply, hex⟩ := handleLine_calls stod p.1 fd p.2 sessions
    obtain ⟨hon', hrecv', replies, hlen, hex'⟩ := ih (lineStep stod fd sessions p).1
    simp only [runMachine]
    refine ⟨?_, ?_, reply :: replies, by simp [hlen], ?_⟩
    · intro call hcall
      rcases List.mem_append.mp hcall with h | h
      · exact hon call h
      · exact hon' call h
    · rw [receivedBytes_append, hrecv']
      simpa [lineStep] using hrecv
    · rw [exchange_append, hex']
      simp [lineStep, hex, dialogue]

/-! ## The server and its connections -/

/-- The server's state agrees with the connections as the calls made so far show them. -/
structure Consistent (s : TcpServer) (net : Net) : Prop where
  /-- Every receive buffer belongs to an open connection. -/
  owned : ∀ fd ∈ s.recvBufs, ∃ c, net.owner fd = some c
  /-- The receive buffer of an open connection is the unfinished rest of its bytes. -/
  buffer : ∀ fd c, net.owner fd = some c →
    s.recvBufs.lookup fd = some (cutLines (receivedBytes (net.logs c))).2
  /-- A connection owns one descriptor at most. -/
  owner_inj : ∀ fd fd' c, net.owner fd = some c → net.owner fd' = some c → fd = fd'
  /-- Connections are numbered in the order of their opening. -/
  owner_lt : ∀ fd c, net.owner fd = some c → c < net.opened
  /-- A connection that is not open yet has no calls. -/
  fresh : ∀ c, net.opened ≤ c → net.logs c = []
  /-- Every connection is framed on its own. -/
  framed : ∀ c, Framed (net.logs c)
  /-- There is no call on a descriptor that is not open. -/
  no_stray : net.stray = []

/-- Nothing has been received yet, and nothing done. -/
lemma framed_nil : Framed [] := ⟨[], rfl, rfl⟩

/-- A descriptor has a receive buffer exactly when a connection owns it. -/
lemma Consistent.mem_iff {s : TcpServer} {net : Net} (h : Consistent s net) (fd : ℕ) :
    fd ∈ s.recvBufs ↔ ∃ c, net.owner fd = some c := by
  refine ⟨h.owned fd, ?_⟩
  rintro ⟨c, hc⟩
  rw [← AList.lookup_isSome, h.buffer fd c hc]
  rfl

/-- The server starts without connections. -/
lemma consistent_init : Consistent RunState.init.server Net.init where
  owned := by simp [RunState.init]
  buffer := by simp [Net.init]
  owner_inj := by simp [Net.init]
  owner_lt := by simp [Net.init]
  fresh := fun _ _ => rfl
  framed := fun _ => framed_nil
  no_stray := rfl

/-- Reading a chunk of a connection keeps the connection framed, and the unfinished rest becomes
that of the longer stream. -/
lemma Framed.handle {log : List Call} (hlog : Framed log) (fd : ℕ) {chunk : Bytes}
    {lines : List Bytes}
    (hlines : lines = framedLines (cutLines ((cutLines (receivedBytes log)).2 ++ chunk)).1)
    {calls : List Call} (hrecv : receivedBytes calls = [])
    (hcalls : ∃ replies, replies.length = lines.length ∧
      exchange calls = dialogue lines replies) :
    Framed (log ++ onDescriptor (.recv fd chunk :: calls)) ∧
      receivedBytes (log ++ onDescriptor (.recv fd chunk :: calls)) =
        receivedBytes log ++ chunk := by
  obtain ⟨replies, hlen, hex⟩ := hlog
  obtain ⟨replies', hlen', hex'⟩ := hcalls
  have hbytes : receivedBytes (log ++ onDescriptor (.recv fd chunk :: calls)) =
      receivedBytes log ++ chunk := by
    rw [receivedBytes_append, receivedBytes_onDescriptor]
    simpa [receivedBytes] using hrecv
  have hcomplete : completeLines (log ++ onDescriptor (.recv fd chunk :: calls)) =
      completeLines log ++ lines := by
    rw [completeLines, hbytes, cutLines_append, framedLines_append, ← hlines, completeLines]
  refine ⟨⟨replies ++ replies', by rw [hcomplete]; simp [hlen, hlen'], ?_⟩, hbytes⟩
  rw [hcomplete, exchange_append, exchange_onDescriptor, hex, ← dialogue_append hlen]
  exact congrArg _ hex'

/-- The log of one connection may grow, as long as it stays framed and the receive buffer follows
it. -/
lemma Consistent.extend {s s' : TcpServer} {net : Net} (hs : Consistent s net) {fd c : ℕ}
    (howner : net.owner fd = some c) {calls : List Call} (hlog : Framed (net.logs c ++ calls))
    (hfd : s'.recvBufs.lookup fd = some (cutLines (receivedBytes (net.logs c ++ calls))).2)
    (hother : ∀ fd' ≠ fd, s'.recvBufs.lookup fd' = s.recvBufs.lookup fd') :
    Consistent s' (net.extend c calls) where
  owned fd' hmem := by
    by_cases h : fd' = fd
    · exact ⟨c, h ▸ howner⟩
    · rw [← AList.lookup_isSome, hother fd' h, AList.lookup_isSome] at hmem
      exact hs.owned fd' hmem
  buffer fd' c' hc' := by
    by_cases h : fd' = fd
    · subst h
      obtain rfl : c' = c := Option.some.inj (hc'.symm.trans howner)
      rw [hfd, Net.logs_extend_self]
    · have hne : c' ≠ c := fun hcc => h (hs.owner_inj fd' fd c (hcc ▸ hc') howner)
      rw [hother fd' h, hs.buffer fd' c' hc', Net.logs_extend_of_ne _ _ _ hne]
  owner_inj := hs.owner_inj
  owner_lt := hs.owner_lt
  fresh c' hc' := by
    have hne : c' ≠ c := (lt_of_lt_of_le (hs.owner_lt fd c howner) hc').ne'
    rw [Net.logs_extend_of_ne _ _ _ hne]
    exact hs.fresh c' hc'
  framed c' := by
    by_cases h : c' = c
    · subst h
      rwa [Net.logs_extend_self]
    · rw [Net.logs_extend_of_ne _ _ _ h]
      exact hs.framed c'
  no_stray := hs.no_stray

/-- After a close the descriptor is free; the other ones keep their owners. -/
lemma Net.owner_record_close {net : Net} {fd fd' c : ℕ} :
    (net.record (.close fd)).owner fd' = some c ↔ fd' ≠ fd ∧ net.owner fd' = some c := by
  simp only [Net.record, Function.update_apply]
  split_ifs with h <;> simp [h]

/-- A descriptor may be closed when its receive buffer is erased. -/
lemma Consistent.close {s s' : TcpServer} {net : Net} (hs : Consistent s net) {fd : ℕ}
    (hrecv : s'.recvBufs = s.recvBufs.erase fd) :
    Consistent s' (net.record (.close fd)) where
  owned fd' hmem := by
    rw [hrecv, AList.mem_erase] at hmem
    obtain ⟨c, hc⟩ := hs.owned fd' hmem.2
    exact ⟨c, Net.owner_record_close.mpr ⟨hmem.1, hc⟩⟩
  buffer fd' c hc := by
    obtain ⟨hne, hc⟩ := Net.owner_record_close.mp hc
    rw [hrecv, AList.lookup_erase_ne hne]
    exact hs.buffer fd' c hc
  owner_inj fd₁ fd₂ c h₁ h₂ :=
    hs.owner_inj fd₁ fd₂ c (Net.owner_record_close.mp h₁).2 (Net.owner_record_close.mp h₂).2
  owner_lt fd' c hc := hs.owner_lt fd' c (Net.owner_record_close.mp hc).2
  fresh := hs.fresh
  framed := hs.framed
  no_stray := hs.no_stray

/-- A connection may be opened on a free descriptor, with an empty receive buffer. -/
lemma Consistent.accept {s s' : TcpServer} {net : Net} (hs : Consistent s net) {cfd : ℕ}
    (hfree : net.owner cfd = none) (hrecv : s'.recvBufs = s.recvBufs.insert cfd []) :
    Consistent s' (net.record (.accept cfd)) where
  owned fd hmem := by
    by_cases h : fd = cfd
    · exact ⟨net.opened, by simp [Net.record, h]⟩
    · rw [hrecv, AList.mem_insert, or_iff_right h] at hmem
      obtain ⟨c, hc⟩ := hs.owned fd hmem
      exact ⟨c, by simpa [Net.record, Function.update_of_ne h] using hc⟩
  buffer fd c hc := by
    simp only [Net.record] at hc ⊢
    by_cases h : fd = cfd
    · subst h
      rw [Function.update_self, Option.some.injEq] at hc
      rw [← hc, hs.fresh net.opened le_rfl, hrecv, AList.lookup_insert]
      rfl
    · rw [Function.update_of_ne h] at hc
      rw [hrecv, AList.lookup_insert_ne h]
      exact hs.buffer fd c hc
  owner_inj fd₁ fd₂ c h₁ h₂ := by
    simp only [Net.record, Function.update_apply] at h₁ h₂
    split_ifs at h₁ h₂ with e₁ e₂ e₂
    · rw [e₁, e₂]
    · exact absurd (hs.owner_lt fd₂ c h₂) (by simp_all)
    · exact absurd (hs.owner_lt fd₁ c h₁) (by simp_all)
    · exact hs.owner_inj fd₁ fd₂ c h₁ h₂
  owner_lt fd c hc := by
    simp only [Net.record, Function.update_apply] at hc ⊢
    split_ifs at hc with h
    · obtain rfl := Option.some.inj hc
      exact Nat.lt_succ_self _
    · exact Nat.lt_succ_of_lt (hs.owner_lt fd c hc)
  fresh c hc := hs.fresh c (Nat.le_of_succ_le hc)
  framed := hs.framed
  no_stray := hs.no_stray

/-- Handling a client keeps the server consistent with its connections, and touches no other
receive buffer. -/
lemma handleClient_consistent (stod : Bytes → Option ℚ) (envs : ℕ → CallEnv) {fd : ℕ}
    {chunk : Bytes} (h0 : (0 : UInt8) ∉ chunk) {s : TcpServer} {net : Net} (hs : Consistent s net)
    (hfd : fd ∈ s.recvBufs) :
    Consistent (handleClient stod envs fd chunk s).1
        (net.recordAll (handleClient stod envs fd chunk s).2) ∧
      (∀ fd' ≠ fd, fd' ∈ (handleClient stod envs fd chunk s).1.recvBufs ↔ fd' ∈ s.recvBufs) ∧
      (handleClient stod envs fd chunk s).1.pendingFds = s.pendingFds := by
  obtain ⟨c, howner⟩ := hs.owned fd hfd
  have hbuf := hs.buffer fd c howner
  by_cases hchunk : chunk = []
  · -- the end of the stream is noted, and then the descriptor becomes free
    subst hchunk
    have hlines :
        [] = framedLines (cutLines ((cutLines (receivedBytes (net.logs c))).2 ++ [])).1 := by
      simp [framedLines]
    have hnone : ∃ replies, replies.length = ([] : List Bytes).length ∧
        exchange [] = dialogue [] replies := ⟨[], rfl, rfl⟩
    obtain ⟨hframed, hbytes⟩ := (hs.framed c).handle fd hlines rfl hnone
    have hstays : ∀ call ∈ [Call.recv fd []], call.StaysOn fd := by simp [Call.StaysOn]
    have hlog : Consistent s (net.recordAll [.recv fd []]) := by
      rw [Net.recordAll_of_owner howner hstays]
      exact hs.extend howner hframed (by rw [hbytes, List.append_nil, hbuf]) fun _ _ => rfl
    exact ⟨hlog.close rfl, fun fd' h => by simp [handleClient, disconnectClient, h], rfl⟩
  · -- the lines completed by the chunk are handled
    rw [handleClient_eq stod fd envs hbuf hchunk h0]
    set lines := framedLines (cutLines ((cutLines (receivedBytes (net.logs c))).2 ++ chunk)).1
      with hlines
    obtain ⟨hon, hrecv, hdialogue⟩ := lineStep_calls stod fd (withEnvs envs lines) s.sessions
    rw [map_snd_withEnvs] at hdialogue
    obtain ⟨hframed, hbytes⟩ := (hs.framed c).handle fd hlines hrecv hdialogue
    have hon' : ∀ call ∈ Call.recv fd chunk ::
        (runMachine (lineStep stod fd) s.sessions (withEnvs envs lines)).2, call.StaysOn fd := by
      intro call hcall
      rcases List.mem_cons.mp hcall with rfl | h
      · exact rfl
      · exact hon call h
    refine ⟨?_, fun fd' h => by simp [h], rfl⟩
    rw [Net.recordAll_of_owner howner hon']
    refine hs.extend howner hframed ?_ fun fd' h => by simp [AList.lookup_insert_ne h]
    rw [hbytes, cutLines_append (receivedBytes (net.logs c)) chunk, AList.lookup_insert]

/-- A connection may be opened and closed at once. -/
lemma Consistent.refuse {s : TcpServer} {net : Net} (hs : Consistent s net) {cfd : ℕ}
    (hfree : net.owner cfd = none) : Consistent s (net.recordAll [.accept cfd, .close cfd]) := by
  have howner : Function.update net.owner cfd none = net.owner :=
    Function.update_eq_self_iff.mpr hfree.symm
  simp only [Net.recordAll, List.foldl_cons, List.foldl_nil, Net.record, Function.update_idem,
    howner]
  exact {
    owned := hs.owned
    buffer := hs.buffer
    owner_inj := hs.owner_inj
    owner_lt := fun fd c hc => Nat.lt_succ_of_lt (hs.owner_lt fd c hc)
    fresh := fun c hc => hs.fresh c (Nat.le_of_succ_le hc)
    framed := hs.framed
    no_stray := hs.no_stray }

/-- Accepting a client on a free descriptor keeps the server consistent with its connections.  The
descriptor waits for its registration, or it is closed again. -/
lemma acceptClient_consistent {s : TcpServer} {net : Net} (hs : Consistent s net) {cfd : ℕ}
    (hfree : net.owner cfd = none) :
    Consistent (acceptClient cfd s).1 (net.recordAll (acceptClient cfd s).2) ∧
      ((acceptClient cfd s).1 = s ∨
        (acceptClient cfd s).1.pendingFds = s.pendingFds ++ [cfd] ∧
          ∀ fd, fd ∈ (acceptClient cfd s).1.recvBufs ↔ fd = cfd ∨ fd ∈ s.recvBufs) := by
  unfold acceptClient
  split_ifs with hfull
  · exact ⟨hs.refuse hfree, Or.inl rfl⟩
  · exact ⟨hs.accept hfree rfl, Or.inr ⟨rfl, fun fd => by simp⟩⟩

/-! ## Runs -/

/-- The state of a run of the server together with its connections. -/
structure ServerRun where
  loop : RunState
  net : Net

/-- The server when it starts. -/
def ServerRun.init : ServerRun := ⟨RunState.init, Net.init⟩

/-- One pass of the event loop. -/
def serverStep (stod : Bytes → Option ℚ) (r : ServerRun) (p : PassInput) : Option ServerRun :=
  let (loop, calls) := runPass stod p r.loop
  some ⟨loop, r.net.recordAll calls⟩

/-- What the kernel promises: `accept` returns a descriptor that is not open, and `recv` returns
at most as many bytes as were asked for; and no client sends a NUL. -/
def PassInput.Valid (r : ServerRun) (p : PassInput) : Prop :=
  (∀ cfd, p.accept = some (some cfd) → r.net.owner cfd = none) ∧
    ∀ fd chunk, p.recv fd = some chunk → chunk.length ≤ bufSize - 1 ∧ (0 : UInt8) ∉ chunk

/-- The loop over the client descriptors keeps the server consistent with its connections.  It
keeps exactly the entries whose connection is still open. -/
lemma clientLoop_consistent (stod : Bytes → Option ℚ) {p : PassInput}
    (h0 : ∀ fd chunk, p.recv fd = some chunk → (0 : UInt8) ∉ chunk) {fds : List ℕ} {s : TcpServer}
    {net : Net} (hs : Consistent s net) (hnodup : fds.Nodup) (hfds : ∀ fd ∈ fds, fd ∈ s.recvBufs) :
    Consistent (clientLoop stod p fds s).2.1 (net.recordAll (clientLoop stod p fds s).2.2) ∧
      (clientLoop stod p fds s).1.Sublist fds ∧
      (∀ fd ∈ fds, fd ∈ (clientLoop stod p fds s).1 ↔
        fd ∈ (clientLoop stod p fds s).2.1.recvBufs) ∧
      (∀ fd ∉ fds, fd ∈ (clientLoop stod p fds s).2.1.recvBufs ↔ fd ∈ s.recvBufs) ∧
      (clientLoop stod p fds s).2.1.pendingFds = s.pendingFds := by
  induction fds with
  | nil => exact ⟨by simpa [clientLoop, Net.recordAll] using hs, by simp [clientLoop]⟩
  | cons fd fds ih =>
    rw [List.nodup_cons] at hnodup
    obtain ⟨hcons, hsub, hkept, hother, hpend⟩ :=
      ih hnodup.2 fun fd' h => hfds fd' (List.mem_cons_of_mem _ h)
    have hfd : fd ∈ (clientLoop stod p fds s).2.1.recvBufs :=
      (hother fd hnodup.1).mpr (hfds fd List.mem_cons_self)
    rw [clientLoop]
    cases hrecv : p.recv fd with
    | none =>
      simp only
      refine ⟨hcons, hsub.cons_cons fd, ?_, ?_, hpend⟩
      · intro fd' h
        by_cases hne : fd' = fd
        · simp [hne, hfd]
        · rw [List.mem_cons, or_iff_right hne]
          exact hkept fd' ((List.mem_cons.mp h).resolve_left hne)
      · intro fd' h
        exact hother fd' fun hmem => h (List.mem_cons_of_mem _ hmem)
    | some chunk =>
      obtain ⟨hcons', hother', hpend'⟩ :=
        handleClient_consistent stod (p.envs fd) (h0 fd chunk hrecv) hcons hfd
      simp only
      refine ⟨by rw [Net.recordAll_append]; exact hcons', ?_, ?_, ?_, hpend'.trans hpend⟩
      · split_ifs
        · exact hsub.cons_cons fd
        · exact hsub.cons fd
      · intro fd' h
        have hmem : fd ∉ (clientLoop stod p fds s).1 := fun hmem => hnodup.1 (hsub.mem hmem)
        by_cases hne : fd' = fd
        · subst hne
          split_ifs with hopen <;> simp [hopen, hmem]
        · have hfd' := (List.mem_cons.mp h).resolve_left hne
          rw [hother' fd' hne, ← hkept fd' hfd']
          split_ifs <;> simp [hne]
      · intro fd' h
        rw [List.mem_cons, not_or] at h
        rw [hother' fd' h.1]
        exact hother fd' h.2

/-- The state at the end of a pass: the polled descriptors are distinct and are those of the open
connections, and none waits for its registration. -/
structure RunInv (r : ServerRun) : Prop where
  consistent : Consistent r.loop.server r.net
  nodup : r.loop.fds.Nodup
  mem_fds : ∀ fd, fd ∈ r.loop.fds ↔ fd ∈ r.loop.server.recvBufs
  pending : r.loop.server.pendingFds = []

/-- At the start there is no connection. -/
lemma runInv_init : RunInv ServerRun.init where
  consistent := consistent_init
  nodup := List.nodup_nil
  mem_fds := by simp [ServerRun.init, RunState.init]
  pending := rfl

/-- The check of the listening descriptor keeps the server consistent with its connections, and
adds at most one receive buffer, whose descriptor waits for its registration. -/
lemma checkListen_consistent {r : ServerRun} {p : PassInput} (hr : RunInv r) (hp : p.Valid r) :
    Consistent (checkListen p r.loop.server).1 (r.net.recordAll (checkListen p r.loop.server).2) ∧
      ∃ new : List ℕ, (checkListen p r.loop.server).1.pendingFds = new ∧ new.length ≤ 1 ∧
        (∀ fd ∈ new, fd ∉ r.loop.fds) ∧
        ∀ fd, fd ∈ (checkListen p r.loop.server).1.recvBufs ↔ fd ∈ new ∨ fd ∈ r.loop.fds := by
  unfold checkListen
  rcases hacc : p.accept with _ | _ | cfd
  · exact ⟨hr.consistent, [], hr.pending, by simp, by simp, by simp [hr.mem_fds]⟩
  · exact ⟨hr.consistent, [], hr.pending, by simp, by simp, by simp [hr.mem_fds]⟩
  · have hfree := hp.1 cfd hacc
    obtain ⟨hcons, hcase⟩ := acceptClient_consistent hr.consistent hfree
    refine ⟨hcons, ?_⟩
    rcases hcase with hsame | ⟨hpend, hmem⟩
    · simp only [hsame]
      exact ⟨[], hr.pending, by simp, by simp, by simp [hr.mem_fds]⟩
    · refine ⟨[cfd], ?_, le_rfl, ?_, ?_⟩
      · rw [hpend, hr.pending, List.nil_append]
      · intro fd hfd
        rw [List.mem_singleton.mp hfd, hr.mem_fds, hr.consistent.mem_iff]
        simp [hfree]
      · intro fd
        rw [hmem fd, hr.mem_fds, List.mem_singleton]

/-- The state after a pass, phase by phase. -/
lemma serverStep_eq (stod : Bytes → Option ℚ) (r : ServerRun) (p : PassInput) :
    let listened := checkListen p r.loop.server
    let polled := clientLoop stod p r.loop.fds listened.1
    serverStep stod r p = some
      ⟨⟨{ polled.2.1 with pendingFds := [] }, polled.1 ++ polled.2.1.pendingFds.reverse⟩,
        (r.net.recordAll listened.2).recordAll polled.2.2⟩ := by
  simp [serverStep, runPass]

/-- One pass keeps the invariant. -/
lemma runInv_step (stod : Bytes → Option ℚ) {r r' : ServerRun} {p : PassInput} (hr : RunInv r)
    (hp : p.Valid r) (hstep : serverStep stod r p = some r') : RunInv r' := by
  obtain ⟨hs, new, hpending, hlen, hnew, hmem⟩ := checkListen_consistent hr hp
  obtain ⟨hcons, hsub, hkept, hother, hpend⟩ := clientLoop_consistent stod
    (fun fd chunk h => (hp.2 fd chunk h).2) hs hr.nodup fun fd h => (hmem fd).mpr (Or.inr h)
  rw [serverStep_eq, Option.some.injEq] at hstep
  subst hstep
  rw [hpending] at hpend
  refine ⟨{ hcons with }, ?_, ?_, rfl⟩
  · rw [hpend, List.nodup_append, List.nodup_reverse]
    refine ⟨hr.nodup.sublist hsub, ?_, ?_⟩
    · exact List.nodup_iff_count_le_one.mpr fun fd => (List.count_le_length).trans hlen
    · rintro fd hfd fd' hfd' rfl
      exact hnew fd (List.mem_reverse.mp hfd') (hsub.mem hfd)
  · intro fd
    rw [hpend, List.mem_append, List.mem_reverse]
    by_cases hfd : fd ∈ r.loop.fds
    · have hold : fd ∉ new := fun h => hnew fd h hfd
      rw [hkept fd hfd]
      simp [hold]
    · have hgone : fd ∉ (clientLoop stod p r.loop.fds (checkListen p r.loop.server).1).1 := by
        intro h
        exact hfd (hsub.mem h)
      rw [hother fd hfd, hmem fd]
      simp [hfd, hgone]

/-- **Every connection is framed on its own.**  In every run of the server, for every connection:
the lines handed to the parser are the complete lines of the bytes received on it, each answered
by one reply on the same connection before the next one is parsed; and there is no call on a
descriptor that is not open. -/
theorem connections_framed (stod : Bytes → Option ℚ) {ps : List PassInput} {r : ServerRun}
    (hrun : Trace (serverStep stod) PassInput.Valid ServerRun.init ps r) (c : ℕ) :
    parsedLines (r.net.logs c) = framedLines (cutLines (receivedBytes (r.net.logs c))).1 ∧
      (∃ replies : List Bytes, replies.length = (parsedLines (r.net.logs c)).length ∧
        exchange (r.net.logs c) = dialogue (parsedLines (r.net.logs c)) replies) ∧
      r.net.stray = [] := by
  have hinv : RunInv r := hrun.invariant runInv_init fun _ _ _ hr hp hs => runInv_step stod hr hp hs
  obtain ⟨replies, hlen, hex⟩ := hinv.consistent.framed c
  have hparsed : parsedLines (r.net.logs c) = completeLines (r.net.logs c) := by
    rw [parsedLines_eq, hex, filterMap_dialogue hlen]
  exact ⟨hparsed, ⟨replies, by rw [hparsed, hlen], by rw [hparsed, hex]⟩,
    hinv.consistent.no_stray⟩

/-- A pass in which only the listening descriptor is ready. -/
def acceptPass (cfd : ℕ) : PassInput :=
  ⟨some (some cfd), fun _ => none, fun _ _ => ⟨0, 0, PriceArea.zero⟩⟩

/-- A pass in which only one client is ready. -/
def recvPass (fd : ℕ) (chunk : Bytes) : PassInput :=
  ⟨none, fun fd' => if fd' = fd then some chunk else none, fun _ _ => ⟨0, 0, PriceArea.zero⟩⟩

/-- `accept` may return a descriptor that is not open. -/
lemma acceptPass_valid {cfd : ℕ} {r : ServerRun} (h : r.net.owner cfd = none) :
    (acceptPass cfd).Valid r := by
  refine ⟨?_, fun fd chunk h' => by simp [acceptPass] at h'⟩
  intro cfd' hcfd
  obtain rfl : cfd = cfd' := by simpa [acceptPass] using hcfd
  exact h

/-- `recv` may return what fits the buffer. -/
lemma recvPass_valid {fd : ℕ} {chunk : Bytes} {r : ServerRun} (hlen : chunk.length ≤ bufSize - 1)
    (h0 : (0 : UInt8) ∉ chunk) : (recvPass fd chunk).Valid r := by
  refine ⟨fun cfd h => by simp [recvPass] at h, ?_⟩
  intro fd' chunk' h
  simp only [recvPass, Option.ite_none_right_eq_some, Option.some.injEq] at h
  obtain ⟨-, rfl⟩ := h
  exact ⟨hlen, h0⟩

/-- The descriptor 5 is closed and given to the next client: each connection has its own lines. -/
theorem connections_framed_reused_descriptor :
    ∃ r, Trace (serverStep readDecimal) PassInput.Valid ServerRun.init
        [acceptPass 5, recvPass 5 (ascii "ab"), recvPass 5 (ascii "c\r\nd"), recvPass 5 [],
          acceptPass 5, recvPass 5 (ascii "e\n")] r ∧
      parsedLines (r.net.logs 0) = [ascii "abc"] ∧ parsedLines (r.net.logs 1) = [ascii "e"] := by
  have h0 : Trace (serverStep readDecimal) PassInput.Valid ServerRun.init [] ServerRun.init := .nil
  have h1 := h0.snoc (acceptPass_valid rfl) (serverStep_eq readDecimal _ (acceptPass 5))
  have h2 := h1.snoc (recvPass_valid (by decide) (by decide))
    (serverStep_eq readDecimal _ (recvPass 5 (ascii "ab")))
  have h3 := h2.snoc (recvPass_valid (by decide) (by decide))
    (serverStep_eq readDecimal _ (recvPass 5 (ascii "c\r\nd")))
  have h4 := h3.snoc (recvPass_valid (by decide) (by decide))
    (serverStep_eq readDecimal _ (recvPass 5 []))
  have h5 := h4.snoc (acceptPass_valid (by decide +kernel))
    (serverStep_eq readDecimal _ (acceptPass 5))
  have h6 := h5.snoc (recvPass_valid (by decide) (by decide))
    (serverStep_eq readDecimal _ (recvPass 5 (ascii "e\n")))
  refine ⟨_, h6, (connections_framed readDecimal h6 0).1.trans ?_,
    (connections_framed readDecimal h6 1).1.trans ?_⟩
  · decide +kernel
  · decide +kernel

end ParkingSystem
