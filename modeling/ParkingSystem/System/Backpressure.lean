import ParkingSystem.Server.Replies

/-!
# Full sockets

`send` waits while the socket is full, on both sides: `bbg_tcp` sends line after line, and the
server sends a reply to each.  No `send` of the server has a time limit, so that a client whose
replies pile up would stop the server for all clients.

`bbg_tcp` takes up to 127 bytes of the replies after each of its lines, and no reply is longer.  So
what is on its way to a client never exceeds what was still to come at one of its reads, and one
reply more.  Without a bound on that, the server and a client can wait for each other for good, and
then no other client is served either.
-/

namespace ParkingSystem

open Foundation

/-! ## The sockets -/

/-- The connection of a client, with the bytes in the sockets. -/
structure Connection where
  /-- The bytes of the line in `send` that are not in the socket yet. -/
  rest : Bytes
  /-- Whether `send` has returned and `tcp_send` is about to look for a reply. -/
  reading : Bool
  /-- The bytes on their way to the server. -/
  request : Bytes
  /-- The bytes on their way to the client. -/
  reply : Bytes
deriving DecidableEq

/-- A new connection. -/
def Connection.new : Connection := ⟨[], false, [], []⟩

/-- The server with its connections. -/
structure SocketSys where
  server : TcpServer
  /-- The connections of the clients, by the descriptors of the server. -/
  conns : ℕ → Option Connection
  /-- The descriptor of the last `handleClient`. -/
  outFd : ℕ
  /-- The bytes of its replies that are not in the socket yet. -/
  out : Bytes

/-- The server has started, and there are no clients. -/
def SocketSys.init : SocketSys := ⟨⟨SessionManager.empty, ∅, []⟩, fun _ => none, 0, []⟩

/-- The connection on a descriptor becomes another one. -/
def SocketSys.setConn (s : SocketSys) (fd : ℕ) (c : Connection) : SocketSys :=
  { s with conns := Function.update s.conns fd (some c) }

/-- The size of `char reply[128]` in `tcp_send` and in `processMessage`, without the terminator. -/
abbrev replyLen : ℕ := 127

/-- A step of `tcp_send` of a client. -/
inductive ClientEvent where
  /-- `send` is called with a line. -/
  | sendLine (line : Bytes)
  /-- `send` puts bytes into the socket. -/
  | put (k : ℕ)
  /-- `send` returns before the line is complete. -/
  | returnShort
  /-- `recv` looks for a reply, while the last bytes of the replies have not arrived. -/
  | readReply (late : ℕ)

/-- A step of a client or of the server. -/
inductive SocketEvent where
  /-- A client connects, and the server accepts it. -/
  | connect (fd : ℕ)
  /-- A step of the client on a connection. -/
  | client (fd : ℕ) (e : ClientEvent)
  /-- The client ends the connection. -/
  | hangUp (fd : ℕ)
  /-- `handleClient` receives bytes and handles the lines that are complete. -/
  | serve (fd : ℕ) (chunk : Bytes) (envs : ℕ → CallEnv)
  /-- `handleClient` finds the connection ended. -/
  | serveEnd (fd : ℕ)
  /-- `send` of the server puts bytes of the replies into the socket. -/
  | answer (k : ℕ)

/-- A step that the server takes by itself. -/
def SocketEvent.OfServer : SocketEvent → Prop
  | .serve .. | .serveEnd _ | .answer _ => True
  | _ => False

/-- A step of a client, where the socket holds `cap` bytes on their way to the server. -/
def clientStep (cap : ℕ) (c : Connection) : ClientEvent → Option Connection
  | .sendLine line =>
    if c.rest = [] ∧ c.reading = false ∧ lf ∉ line then some { c with rest := line ++ [lf] }
    else none
  | .put k =>
    if 0 < k ∧ k ≤ c.rest.length ∧ c.request.length + k ≤ cap then
      some { c with
        rest := c.rest.drop k
        reading := decide (k = c.rest.length)
        request := c.request ++ c.rest.take k }
    else none
  | .returnShort => if c.rest ≠ [] then some { c with rest := [], reading := true } else none
  | .readReply late =>
    if c.reading = true ∧ late ≤ c.reply.length then
      some { c with reading := false, reply := c.reply.drop (min replyLen (c.reply.length - late)) }
    else none

section Steps

variable (stod : Bytes → Option ℚ) (capRequest capReply : ℕ)

/-- The effect of a step, if it can be taken.  The server is in `send` as long as bytes of its
replies are left, and the socket holds `capReply` bytes on their way to a client; `send` on a
connection that the client has ended fails at once. -/
def socketStep (s : SocketSys) : SocketEvent → Option SocketSys
  | .connect fd =>
    if s.out = [] ∧ s.conns fd = none ∧ fd ∉ s.server.recvBufs then
      let server := (acceptClient fd s.server).1
      if fd ∈ server.recvBufs then some ({ s with server := server }.setConn fd .new)
      else some { s with server := server }
    else none
  | .client fd e => (s.conns fd).bind fun c => (clientStep capRequest c e).map (s.setConn fd)
  | .hangUp fd =>
    if s.conns fd = none then none
    else some { s with
      conns := Function.update s.conns fd none
      out := if s.outFd = fd then [] else s.out }
  | .serve fd chunk envs =>
    (s.conns fd).bind fun c =>
      if s.out = [] ∧ chunk ≠ [] ∧ chunk.length ≤ bufSize - 1 ∧ chunk <+: c.request then
        let (server, calls) := handleClient stod envs fd chunk s.server
        some ({ s with server := server, outFd := fd, out := sentBytes calls }.setConn fd
          { c with request := c.request.drop chunk.length })
      else none
  | .serveEnd fd =>
    if s.out = [] ∧ s.conns fd = none ∧ fd ∈ s.server.recvBufs then
      some { s with server := (disconnectClient fd s.server).1 }
    else none
  | .answer k =>
    (s.conns s.outFd).bind fun c =>
      if 0 < k ∧ k ≤ s.out.length ∧ c.reply.length + k ≤ capReply then
        some ({ s with out := s.out.drop k }.setConn s.outFd
          { c with reply := c.reply ++ s.out.take k })
      else none

end Steps

/-! ## Replies are short -/

/-- A text has as many complete lines as newlines. -/
lemma length_cutLines (text : Bytes) : (cutLines text).1.length = text.count lf := by
  induction text with
  | nil => rfl
  | cons c text ih =>
    rw [List.count_cons, ← ih, cutLines]
    by_cases hc : c = lf
    · simp [hc]
    · rcases hlines : (cutLines text).1 with _ | ⟨line, lines⟩ <;> simp [hc]

/-- Bytes are sent one after the other. -/
@[simp] lemma sentBytes_append (log log' : List Call) :
    sentBytes (log ++ log') = sentBytes log ++ sentBytes log' := by
  simp [sentBytes]

/-- What the server sends for one line fits a buffer of a reply. -/
lemma length_sentBytes_handleLine (stod : Bytes → Option ℚ) (env : CallEnv) (fd : ℕ) (line : Bytes)
    (sessions : SessionManager) :
    (sentBytes (handleLine stod env fd line sessions).2).length ≤ replyLen := by
  have hfee : ∀ fee elapsedMin, (okFee fee elapsedMin).length ≤ replyLen := by
    intro fee elapsedMin
    simp only [okFee, snprintf, List.length_take]
    exact min_le_left _ _
  have hshort : errBadMsg.length ≤ replyLen ∧ okStarted.length ≤ replyLen ∧
      errNoSession.length ≤ replyLen := by decide
  unfold handleLine
  rcases parse stod line with _ | msg
  · simpa [sentBytes] using hshort.1
  · simp only [processMessage]
    rcases msg.type with _ | _
    · simpa [sentBytes] using hshort.2.1
    · rcases sessions.endSession msg.customerId.str with ⟨_ | session, sessions'⟩
      · simpa [sentBytes] using hshort.2.2
      · simpa [sentBytes] using hfee _ _

/-- What the server sends for lines in a row. -/
lemma length_sentBytes_runMachine (stod : Bytes → Option ℚ) (fd : ℕ) (ps : List (CallEnv × Bytes))
    (sessions : SessionManager) :
    (sentBytes (runMachine (lineStep stod fd) sessions ps).2).length ≤ replyLen * ps.length := by
  induction ps generalizing sessions with
  | nil => simp [runMachine, sentBytes]
  | cons p ps ih =>
    have hline := length_sentBytes_handleLine stod p.1 fd p.2 sessions
    have hlines := ih (lineStep stod fd sessions p).1
    simp only [runMachine, sentBytes_append, List.length_append, List.length_cons]
    change (sentBytes (handleLine stod p.1 fd p.2 sessions).2).length + _ ≤ _
    rw [Nat.mul_succ]
    omega

/-- What the server sends for a chunk: at most one reply for each newline in it, if the buffer of
the client held none. -/
lemma length_sentBytes_handleClient (stod : Bytes → Option ℚ) (envs : ℕ → CallEnv) {fd : ℕ}
    {chunk : Bytes} (s : TcpServer) (hne : chunk ≠ [])
    (hbuf : lf ∉ (s.recvBufs.lookup fd).getD []) :
    (sentBytes (handleClient stod envs fd chunk s).2).length ≤ replyLen * chunk.count lf := by
  set lines := (cutLines ((s.recvBufs.lookup fd).getD [] ++ cstr chunk)).1 with hlines
  have hsent := length_sentBytes_runMachine stod fd (withEnvs envs (framedLines lines)) s.sessions
  have hframed : (framedLines lines).length ≤ lines.length := by
    exact (List.length_filter_le _ _).trans_eq (List.length_map _)
  have hcount : lines.length ≤ chunk.count lf := by
    rw [hlines, length_cutLines, List.count_append, List.count_eq_zero_of_not_mem hbuf,
      Nat.zero_add]
    exact (cstr_isPrefix chunk).sublist.count_le lf
  have hlen : (withEnvs envs (framedLines lines)).length = (framedLines lines).length := by
    simp [withEnvs]
  rw [handleClient_cstr stod fd envs hne]
  calc (sentBytes (runMachine (lineStep stod fd) s.sessions
          (withEnvs envs (framedLines lines))).2).length
      ≤ replyLen * (framedLines lines).length := hlen ▸ hsent
    _ ≤ replyLen * chunk.count lf := Nat.mul_le_mul_left _ (hframed.trans hcount)

/-! ## What is on its way to a client -/

/-- What a client is to get: the replies on their way, and 127 bytes for each line that is not
handled yet. -/
def Connection.owed (c : Connection) : ℕ :=
  replyLen * (c.request ++ c.rest).count lf + c.reply.length

/-- The room that is left for the reply to a line that `tcp_send` is about to send. -/
def Connection.spare (c : Connection) : ℕ := if c.rest = [] ∧ c.reading = false then 0 else replyLen

/-- Between two lines no more than `n` replies are due, `extra` bytes counted in that the server is
about to send. -/
structure Connection.Within (cap n extra : ℕ) (c : Connection) : Prop where
  rest_eq_nil : c.reading = true → c.rest = []
  request_le : c.request.length ≤ cap
  owed_le : c.owed + extra ≤ replyLen * n + c.spare

/-- At a read of a reply, no more than `n` replies are still to come. -/
def Connection.Due (n extra : ℕ) (c : Connection) : ClientEvent → Prop
  | .readReply late => replyLen * c.request.count lf + extra + late ≤ replyLen * n
  | _ => True

instance (n extra : ℕ) (c : Connection) : (e : ClientEvent) → Decidable (c.Due n extra e)
  | .readReply late =>
    inferInstanceAs (Decidable (replyLen * c.request.count lf + extra + late ≤ replyLen * n))
  | .sendLine _ | .put _ | .returnShort => .isTrue trivial

section Connections

variable {cap n extra : ℕ} {c c' : Connection} {e : ClientEvent}

/-- Nothing is on a new connection. -/
lemma Connection.within_new (cap n : ℕ) : Connection.new.Within cap n 0 :=
  ⟨nofun, cap.zero_le, by simp [Connection.owed, Connection.new]⟩

/-- Each step of a client keeps the bound.  A read takes 127 bytes, which is the price of the line
before it, or all that has arrived. -/
lemma Connection.Within.step (h : c.Within cap n extra) (hdue : c.Due n extra e)
    (hs : clientStep cap c e = some c') : c'.Within cap n extra := by
  obtain ⟨hread, hrequest, hle⟩ := h
  rcases e with line | k | _ | late
  · simp only [clientStep, Option.ite_none_right_eq_some, Option.some.injEq] at hs
    obtain ⟨⟨hrest, hreading, hlf⟩, rfl⟩ := hs
    have hcount : (c.request ++ (line ++ [lf])).count lf = c.request.count lf + 1 := by
      simp [List.count_eq_zero_of_not_mem hlf]
    refine ⟨fun h => absurd (hreading.symm.trans h) (by simp), hrequest, ?_⟩
    simp only [owed, spare, hrest, hreading, List.append_nil, and_self, if_true, hcount,
      List.append_eq_nil_iff, List.cons_ne_self, and_false, false_and, if_false, Nat.mul_succ]
      at hle ⊢
    omega
  · simp only [clientStep, Option.ite_none_right_eq_some, Option.some.injEq] at hs
    obtain ⟨⟨hpos, hk, hroom⟩, rfl⟩ := hs
    have hne : c.rest ≠ [] := List.length_pos_iff.mp (hpos.trans_le hk)
    have howed : c.request ++ c.rest.take k ++ c.rest.drop k = c.request ++ c.rest := by simp
    refine ⟨fun h => ?_, ?_, ?_⟩
    · rw [decide_eq_true_eq] at h
      exact List.drop_eq_nil_of_le h.ge
    · rwa [List.length_append, List.length_take_of_le hk]
    · simp only [owed, spare, howed, hne, false_and, if_false] at hle ⊢
      have hdone : ¬(c.rest.drop k = [] ∧ decide (k = c.rest.length) = false) := by
        rintro ⟨hnil, hlt⟩
        have := List.drop_eq_nil_iff.mp hnil
        have := of_decide_eq_false hlt
        omega
      rw [if_neg hdone]
      exact hle
  · simp only [clientStep, Option.ite_none_right_eq_some, Option.some.injEq] at hs
    obtain ⟨hne, rfl⟩ := hs
    refine ⟨fun _ => rfl, hrequest, ?_⟩
    simp only [owed, spare, hne, false_and, if_false, List.append_nil, Bool.true_eq_false,
      and_false, List.count_append, Nat.mul_add] at hle ⊢
    omega
  · simp only [clientStep, Option.ite_none_right_eq_some, Option.some.injEq] at hs
    obtain ⟨⟨hreading, hlate⟩, rfl⟩ := hs
    have hrest := hread hreading
    refine ⟨nofun, hrequest, ?_⟩
    simp only [Due] at hdue
    simp only [owed, spare, hrest, hreading, List.append_nil, List.length_drop, and_self, if_true,
      Bool.true_eq_false, and_false, if_false] at hle ⊢
    omega

end Connections

/-- The bytes that the server is about to send on a descriptor. -/
def SocketSys.outOn (s : SocketSys) (fd : ℕ) : Bytes := if s.outFd = fd then s.out else []

/-- At each read of a client, no more than `n` replies are still to come. -/
def RepliesDue (n : ℕ) (s : SocketSys) : SocketEvent → Prop
  | .client fd d => ∀ c ∈ s.conns fd, c.Due n (s.outOn fd).length d
  | _ => True

instance (n : ℕ) (s : SocketSys) : (e : SocketEvent) → Decidable (RepliesDue n s e)
  | .client fd d => inferInstanceAs (Decidable (∀ c ∈ s.conns fd, c.Due n (s.outOn fd).length d))
  | .connect _ | .hangUp _ | .serve .. | .serveEnd _ | .answer _ => .isTrue trivial

/-- The invariant of the sockets. -/
structure SocketInv (cap n : ℕ) (s : SocketSys) : Prop where
  bufs : ∀ fd buf, s.server.recvBufs.lookup fd = some buf → lf ∉ buf
  conn : s.out ≠ [] → ∃ c, s.conns s.outFd = some c
  within : ∀ fd c, s.conns fd = some c → c.Within cap n (s.outOn fd).length

section Steps

variable {stod : Bytes → Option ℚ} {capRequest capReply n fd : ℕ} {s s' : SocketSys}

/-- A step of a client changes its own connection only. -/
lemma socketStep_client {e : ClientEvent} :
    socketStep stod capRequest capReply s (.client fd e) = some s' ↔
      ∃ c c', s.conns fd = some c ∧ clientStep capRequest c e = some c' ∧ s' = s.setConn fd c' := by
  simp only [socketStep, Option.bind_eq_some_iff, Option.map_eq_some_iff]
  constructor
  · rintro ⟨c, hc, c', hc', rfl⟩
    exact ⟨c, c', hc, hc', rfl⟩
  · rintro ⟨c, c', hc, hc', rfl⟩
    exact ⟨c, hc, c', hc', rfl⟩

/-- The server receives when it has answered everything. -/
lemma socketStep_serve {chunk : Bytes} {envs : ℕ → CallEnv} :
    socketStep stod capRequest capReply s (.serve fd chunk envs) = some s' ↔
      ∃ c, s.conns fd = some c ∧
        (s.out = [] ∧ chunk ≠ [] ∧ chunk.length ≤ bufSize - 1 ∧ chunk <+: c.request) ∧
        s' = { s with
          server := (handleClient stod envs fd chunk s.server).1
          outFd := fd
          out := sentBytes (handleClient stod envs fd chunk s.server).2 }.setConn fd
            { c with request := c.request.drop chunk.length } := by
  simp only [socketStep, Option.bind_eq_some_iff, Option.ite_none_right_eq_some, Option.some.injEq,
    @eq_comm _ s']

/-- A `send` of the server takes what there is room for. -/
lemma socketStep_answer {k : ℕ} :
    socketStep stod capRequest capReply s (.answer k) = some s' ↔
      ∃ c, s.conns s.outFd = some c ∧
        (0 < k ∧ k ≤ s.out.length ∧ c.reply.length + k ≤ capReply) ∧
        s' = { s with out := s.out.drop k }.setConn s.outFd
          { c with reply := c.reply ++ s.out.take k } := by
  simp only [socketStep, Option.bind_eq_some_iff, Option.ite_none_right_eq_some, Option.some.injEq,
    @eq_comm _ s']

/-- The buffers of the server hold no complete line after a client was handled. -/
lemma bufs_handleClient {server : TcpServer} {chunk : Bytes} (hne : chunk ≠ [])
    (h : ∀ fd buf, server.recvBufs.lookup fd = some buf → lf ∉ buf) (envs : ℕ → CallEnv)
    (fd' : ℕ) (buf : Bytes)
    (hbuf : (handleClient stod envs fd chunk server).1.recvBufs.lookup fd' = some buf) :
    lf ∉ buf := by
  rw [handleClient_cstr stod fd envs hne] at hbuf
  by_cases heq : fd' = fd
  · subst heq
    rw [AList.lookup_insert, Option.some.injEq] at hbuf
    exact hbuf ▸ notMem_cutLines_rest _
  · rw [AList.lookup_insert_ne heq] at hbuf
    exact h fd' buf hbuf

namespace SocketInv

/-- At the start there is no connection. -/
lemma init (cap n : ℕ) : SocketInv cap n .init where
  bufs fd buf hbuf := by simp [SocketSys.init] at hbuf
  conn h := absurd rfl h
  within fd c hc := by simp [SocketSys.init] at hc

/-- Nothing is due to be sent while `send` does not run. -/
lemma outOn_of_nil (hout : s.out = []) (fd : ℕ) : s.outOn fd = [] := by
  simp [SocketSys.outOn, hout]

/-- A connection changes, and what is sent on the others does not. -/
lemma setConn (h : SocketInv capRequest n s) {t : SocketSys} {c : Connection}
    (hconns : t.conns = s.conns)
    (hbufs : ∀ fd' buf, t.server.recvBufs.lookup fd' = some buf → lf ∉ buf)
    (hconn : t.out ≠ [] → t.outFd = fd ∨ t.outFd = s.outFd ∧ s.out ≠ [])
    (hother : ∀ fd' ≠ fd, (t.outOn fd').length ≤ (s.outOn fd').length)
    (hc : c.Within capRequest n (t.outOn fd).length) :
    SocketInv capRequest n (t.setConn fd c) where
  bufs := hbufs
  conn hout := by
    by_cases hfd : t.outFd = fd
    · exact ⟨c, by simp [SocketSys.setConn, hfd]⟩
    · obtain ⟨heq, hne⟩ := (hconn hout).resolve_left hfd
      obtain ⟨c', hc'⟩ := h.conn hne
      refine ⟨c', ?_⟩
      simp only [SocketSys.setConn, Function.update_of_ne hfd, hconns]
      exact heq ▸ hc'
  within fd' c' hc' := by
    by_cases hfd : fd' = fd
    · subst hfd
      obtain rfl : c = c' := by simpa [SocketSys.setConn] using hc'
      exact hc
    · have hc'' : s.conns fd' = some c' := by
        simpa [SocketSys.setConn, Function.update_of_ne hfd, hconns] using hc'
      obtain ⟨hread, hrequest, hle⟩ := h.within fd' c' hc''
      exact ⟨hread, hrequest, (Nat.add_le_add_left (hother fd' hfd) _).trans hle⟩

/-- **Every step keeps the invariant.** -/
lemma step (h : SocketInv capRequest n s) {e : SocketEvent} (hok : RepliesDue n s e)
    (hs : socketStep stod capRequest capReply s e = some s') : SocketInv capRequest n s' := by
  rcases e with fd | ⟨fd, d⟩ | fd | ⟨fd, chunk, envs⟩ | fd | k
  · -- a client connects
    simp only [socketStep, Option.ite_none_right_eq_some] at hs
    obtain ⟨⟨hout, hnone, hnew⟩, hs⟩ := hs
    have hbufs : ∀ fd' buf, (acceptClient fd s.server).1.recvBufs.lookup fd' = some buf →
        lf ∉ buf := by
      intro fd' buf hbuf
      unfold acceptClient at hbuf
      split_ifs at hbuf
      · exact h.bufs fd' buf hbuf
      · by_cases heq : fd' = fd
        · subst heq
          obtain rfl : [] = buf := by simpa using hbuf
          simp
        · rw [AList.lookup_insert_ne heq] at hbuf
          exact h.bufs fd' buf hbuf
    split_ifs at hs
    · obtain rfl := Option.some.inj hs
      refine h.setConn rfl hbufs (fun hne => absurd hout hne) (fun _ _ => le_rfl) ?_
      simpa [SocketSys.outOn, hout] using Connection.within_new capRequest n
    · obtain rfl := Option.some.inj hs
      exact ⟨hbufs, h.conn, h.within⟩
  · -- a client takes a step
    obtain ⟨c, c', hc, hstep, rfl⟩ := socketStep_client.mp hs
    have hwithin := (h.within fd c hc).step (hok c hc) hstep
    exact h.setConn rfl h.bufs (fun hne => .inr ⟨rfl, hne⟩) (fun _ _ => le_rfl) hwithin
  · -- a client ends its connection
    simp only [socketStep, Option.ite_none_left_eq_some, Option.some.injEq] at hs
    obtain ⟨-, rfl⟩ := hs
    refine ⟨h.bufs, fun hout => ?_, fun fd' c hc => ?_⟩
    · by_cases hfd : s.outFd = fd
      · simp [hfd] at hout
      · simp only [hfd, if_false] at hout
        obtain ⟨c, hc⟩ := h.conn hout
        exact ⟨c, by simpa only [Function.update_of_ne hfd] using hc⟩
    · by_cases hfd : fd' = fd
      · simp [hfd] at hc
      · simp only [Function.update_of_ne hfd] at hc
        have hsame : (if s.outFd = fd' then if s.outFd = fd then [] else s.out else []) =
            s.outOn fd' := by
          by_cases heq : s.outFd = fd'
          · simp [SocketSys.outOn, heq, hfd]
          · simp [SocketSys.outOn, heq]
        obtain ⟨hread, hrequest, hle⟩ := h.within fd' c hc
        exact ⟨hread, hrequest, by simpa only [SocketSys.outOn, hsame] using hle⟩
  · -- the server handles a client
    obtain ⟨c, hc, ⟨hout, hne, -, hprefix⟩, rfl⟩ := socketStep_serve.mp hs
    obtain ⟨rest, hrest⟩ := hprefix
    have hbuf : lf ∉ (s.server.recvBufs.lookup fd).getD [] := by
      rcases hlookup : s.server.recvBufs.lookup fd with _ | buf
      · simp
      · simpa using h.bufs fd buf hlookup
    have hsent := length_sentBytes_handleClient stod envs s.server hne hbuf
    refine h.setConn rfl (bufs_handleClient hne h.bufs envs) (fun _ => .inl rfl) ?_ ?_
    · intro fd' hfd
      simp [SocketSys.outOn, hfd.symm]
    · obtain ⟨hread, hrequest, hle⟩ := h.within fd c hc
      refine ⟨hread, (List.drop_sublist _ _).length_le.trans hrequest, ?_⟩
      rw [outOn_of_nil hout, List.length_nil, Nat.add_zero] at hle
      simp only [Connection.owed, Connection.spare, SocketSys.outOn, if_true, ← hrest,
        List.drop_left, List.append_assoc, List.count_append, Nat.mul_add] at hle ⊢
      omega
  · -- the server finds a connection ended
    simp only [socketStep, Option.ite_none_right_eq_some, Option.some.injEq] at hs
    obtain ⟨-, rfl⟩ := hs
    refine ⟨fun fd' buf hbuf => ?_, h.conn, h.within⟩
    by_cases heq : fd' = fd
    · subst heq
      simp [disconnectClient] at hbuf
    · simp only [disconnectClient, AList.lookup_erase_ne heq] at hbuf
      exact h.bufs fd' buf hbuf
  · -- the server puts bytes of a reply into the socket
    obtain ⟨c, hc, ⟨hpos, hk, -⟩, rfl⟩ := socketStep_answer.mp hs
    have hne : s.out ≠ [] := List.length_pos_iff.mp (hpos.trans_le hk)
    refine h.setConn rfl h.bufs (fun _ => .inr ⟨rfl, hne⟩) (fun fd' hfd => ?_) ?_
    · simp [SocketSys.outOn, hfd.symm]
    · obtain ⟨hread, hrequest, hle⟩ := h.within s.outFd c hc
      refine ⟨hread, hrequest, ?_⟩
      simp only [Connection.owed, Connection.spare, SocketSys.outOn, if_true, List.length_append,
        List.length_take, List.length_drop] at hle ⊢
      omega

/-- The replies that are on their way to a client or about to be sent to it. -/
lemma reply_le (h : SocketInv capRequest n s) {c : Connection} (hc : s.conns fd = some c) :
    c.reply.length + (s.outOn fd).length ≤ replyLen * (n + 1) := by
  obtain ⟨-, -, hle⟩ := h.within fd c hc
  have hspare : c.spare ≤ replyLen := by
    unfold Connection.spare
    split_ifs <;> omega
  simp only [Connection.owed] at hle
  rw [Nat.mul_succ]
  omega

/-- There is room for the replies of the server. -/
lemma exists_answer (h : SocketInv capRequest n s) (stod : Bytes → Option ℚ)
    (hcap : replyLen * (n + 1) ≤ capReply) (hout : s.out ≠ []) :
    ∃ s', socketStep stod capRequest capReply s (.answer s.out.length) = some s' ∧ s'.out = [] ∧
      ∀ fd c, s.conns fd = some c →
        ∃ c', s'.conns fd = some c' ∧ c'.rest = c.rest ∧ c'.request = c.request := by
  obtain ⟨c, hc⟩ := h.conn hout
  have hroom := h.reply_le hc
  rw [SocketSys.outOn, if_pos rfl] at hroom
  refine ⟨_, socketStep_answer.mpr
    ⟨c, hc, ⟨List.length_pos_iff.mpr hout, le_rfl, hroom.trans hcap⟩, rfl⟩, ?_, ?_⟩
  · simp [SocketSys.setConn]
  · intro fd c' hc'
    by_cases hfd : fd = s.outFd
    · subst hfd
      obtain rfl : c = c' := Option.some.inj (hc.symm.trans hc')
      exact ⟨{ c with reply := c.reply ++ s.out.take s.out.length },
        by simp [SocketSys.setConn], rfl, rfl⟩
    · exact ⟨c', by simpa [SocketSys.setConn, Function.update_of_ne hfd] using hc', rfl, rfl⟩

/-- The server makes room for the line of a client while it is not in `send`. -/
lemma exists_room (h : SocketInv capRequest n s) (stod : Bytes → Option ℚ) (capReply : ℕ)
    (hreq : 0 < capRequest) (hout : s.out = []) {c : Connection} (hc : s.conns fd = some c) :
    ∃ es s' c', es.length ≤ 1 ∧ (∀ e ∈ es, e.OfServer) ∧
      Trace (socketStep stod capRequest capReply) (RepliesDue n) s es s' ∧
      s'.conns fd = some c' ∧ c'.rest = c.rest ∧ c'.request.length < capRequest := by
  rcases lt_or_ge c.request.length capRequest with hlt | hge
  · exact ⟨[], s, c, Nat.zero_le 1, by simp, .nil, hc, rfl, hlt⟩
  · have hle := (h.within fd c hc).request_le
    have hbuf : 0 < bufSize - 1 := by norm_num
    set chunk := c.request.take (bufSize - 1) with hchunk
    have hpos : 0 < chunk.length := by
      rw [hchunk, List.length_take]
      omega
    refine ⟨[.serve fd chunk fun _ => ⟨0, 0, .zero⟩], _,
      { c with request := c.request.drop chunk.length }, le_rfl, by simp [SocketEvent.OfServer],
      .cons trivial (socketStep_serve.mpr ⟨c, hc, ⟨hout, List.length_pos_iff.mp hpos,
        List.length_take_le _ _, List.take_prefix _ _⟩, rfl⟩) .nil, Function.update_self .., rfl,
      ?_⟩
    rw [List.length_drop]
    omega

end SocketInv

/-- **The server never waits for `bbg_tcp`.**  For all capacities and any number of clients: if at
each read of a reply no more than `n` replies are still to come, then on every connection at most
`n + 1` replies are on their way or about to be sent.  If the sockets hold that much, the server is
never kept in `send`, and it takes it at most two steps to make room for a client in `send`. -/
theorem server_never_waits (hcap : replyLen * (n + 1) ≤ capReply) (hreq : 0 < capRequest)
    {es : List SocketEvent}
    (h : Trace (socketStep stod capRequest capReply) (RepliesDue n) .init es s) :
    (∀ fd c, s.conns fd = some c → c.reply.length + (s.outOn fd).length ≤ replyLen * (n + 1)) ∧
      (s.out ≠ [] → ∃ s',
        socketStep stod capRequest capReply s (.answer s.out.length) = some s' ∧ s'.out = []) ∧
      ∀ fd c, s.conns fd = some c → ∃ es' s' c', es'.length ≤ 2 ∧ (∀ e ∈ es', e.OfServer) ∧
        Trace (socketStep stod capRequest capReply) (RepliesDue n) s es' s' ∧
        s'.conns fd = some c' ∧ c'.rest = c.rest ∧ c'.request.length < capRequest := by
  have hinv : SocketInv capRequest n s :=
    h.invariant (.init capRequest n) fun _ _ _ hs hok hstep => hs.step hok hstep
  refine ⟨fun fd c hc => hinv.reply_le hc, fun hout => ?_, fun fd c hc => ?_⟩
  · obtain ⟨s', hs, hout', -⟩ := hinv.exists_answer stod hcap hout
    exact ⟨s', hs, hout'⟩
  · by_cases hout : s.out = []
    · obtain ⟨es', s', c', hlen, hroom⟩ := hinv.exists_room stod capReply hreq hout hc
      exact ⟨es', s', c', hlen.trans one_le_two, hroom⟩
    · obtain ⟨s₁, hs, hout₁, hconns⟩ := hinv.exists_answer stod hcap hout
      obtain ⟨c₁, hc₁, hrest, hrequest⟩ := hconns fd c hc
      have hinv₁ := hinv.step (e := .answer s.out.length) trivial hs
      obtain ⟨es', s', c', hlen, hall, htrace, hc', hrest', hlt⟩ :=
        hinv₁.exists_room stod capReply hreq hout₁ hc₁
      refine ⟨.answer s.out.length :: es', s', c', ?_, ?_, .cons trivial hs htrace, hc',
        hrest'.trans hrest, hlt⟩
      · rw [List.length_cons]
        omega
      · exact List.forall_mem_cons.mpr ⟨trivial, hall⟩

/-- A start frame is sent and handled, and there is room for its reply. -/
theorem server_never_waits_start :
    ∃ s, s.out = okStarted ∧
      (∀ fd c, s.conns fd = some c → c.reply.length + (s.outOn fd).length ≤ replyLen * 2) ∧
      (s.out ≠ [] → ∃ s', socketStep readDecimal 20 254 s (.answer s.out.length) = some s' ∧
        s'.out = []) ∧
      ∀ fd c, s.conns fd = some c → ∃ es' s' c', es'.length ≤ 2 ∧ (∀ e ∈ es', e.OfServer) ∧
        Trace (socketStep readDecimal 20 254) (RepliesDue 1) s es' s' ∧
        s'.conns fd = some c' ∧ c'.rest = c.rest ∧ c'.request.length < 20 := by
  have hrun : ((replayEvents (socketStep readDecimal 20 254) (RepliesDue 1) .init
      [.connect 5, .client 5 (.sendLine (ascii "S|CAR|1,2|Haifa")), .client 5 (.put 16),
        .client 5 (.readReply 0),
        .serve 5 (ascii "S|CAR|1,2|Haifa\n") fun _ => ⟨0, 0, .zero⟩]).any fun s =>
      decide (s.out = okStarted)) = true := by decide +kernel
  obtain ⟨s, hs, hout⟩ := (Option.any_eq_true _ _).mp hrun
  exact ⟨s, of_decide_eq_true hout,
    server_never_waits (by norm_num) (by norm_num) (.of_replayEvents hs)⟩

/-! ## Waiting for each other -/

/-- The server waits in `send` for the client on the descriptor, and that client waits in `send` for
the server. -/
structure Blocked (capRequest capReply fd : ℕ) (c : Connection) (s : SocketSys) : Prop where
  conn : s.conns fd = some c
  outFd : s.outFd = fd
  out : s.out ≠ []
  reply : capReply ≤ c.reply.length
  rest : c.rest ≠ []
  reading : c.reading = false
  request : capRequest ≤ c.request.length

/-- The client on the descriptor neither ends the connection nor is interrupted. -/
def StaysInSend (fd : ℕ) (_ : SocketSys) (e : SocketEvent) : Prop :=
  e ≠ .hangUp fd ∧ e ≠ .client fd .returnShort

/-- What stays as it is while the two wait for each other. -/
structure Frozen (capRequest capReply fd : ℕ) (c : Connection) (s₀ s : SocketSys) : Prop where
  blocked : Blocked capRequest capReply fd c s
  server : s.server = s₀.server
  out : s.out = s₀.out
  others : ∀ fd' c', s.conns fd' = some c' →
    ∃ c₀, s₀.conns fd' = some c₀ ∧ c'.reply <:+ c₀.reply

/-- A client that waits in `send` takes no step. -/
lemma Blocked.clientStep_eq_none {c : Connection} (h : Blocked capRequest capReply fd c s)
    {e : ClientEvent} (he : e ≠ .returnShort) : clientStep capRequest c e = none := by
  rcases e with line | k | _ | late
  · simp [clientStep, h.rest]
  · have hfull := h.request
    rw [clientStep, if_neg]
    omega
  · exact absurd rfl he
  · simp [clientStep, h.reading]

/-- A step of a client only takes replies. -/
lemma reply_suffix {cap : ℕ} {c c' : Connection} {e : ClientEvent}
    (hs : clientStep cap c e = some c') : c'.reply <:+ c.reply := by
  rcases e with line | k | _ | late <;>
    simp only [clientStep, Option.ite_none_right_eq_some, Option.some.injEq] at hs <;>
    obtain ⟨-, rfl⟩ := hs
  · exact List.suffix_rfl
  · exact List.suffix_rfl
  · exact List.suffix_rfl
  · exact List.drop_suffix _ _

/-- Every step leaves it so. -/
lemma Frozen.step {c : Connection} {s₀ : SocketSys} (h : Frozen capRequest capReply fd c s₀ s)
    {e : SocketEvent} (hok : StaysInSend fd s e)
    (hs : socketStep stod capRequest capReply s e = some s') :
    Frozen capRequest capReply fd c s₀ s' := by
  obtain ⟨hblocked, hserver, hout, hothers⟩ := h
  rcases e with fd' | ⟨fd', d⟩ | fd' | ⟨fd', chunk, envs⟩ | fd' | k
  · simp [socketStep, hblocked.out] at hs
  · obtain ⟨c₁, c₂, hc₁, hstep, rfl⟩ := socketStep_client.mp hs
    have hfd : fd ≠ fd' := by
      rintro rfl
      obtain rfl : c₁ = c := Option.some.inj (hc₁.symm.trans hblocked.conn)
      rw [hblocked.clientStep_eq_none fun hd => hok.2 (by rw [hd])] at hstep
      exact absurd hstep (by simp)
    refine ⟨{ hblocked with conn := ?_ }, hserver, hout, fun fd₂ c' hc' => ?_⟩
    · simpa [SocketSys.setConn, Function.update_of_ne hfd] using hblocked.conn
    · by_cases heq : fd₂ = fd'
      · subst heq
        obtain rfl : c₂ = c' := by simpa [SocketSys.setConn] using hc'
        obtain ⟨c₀, hc₀, hsuffix⟩ := hothers fd₂ c₁ hc₁
        exact ⟨c₀, hc₀, (reply_suffix hstep).trans hsuffix⟩
      · apply hothers fd₂ c'
        simpa [SocketSys.setConn, Function.update_of_ne heq] using hc'
  · simp only [socketStep, Option.ite_none_left_eq_some, Option.some.injEq] at hs
    obtain ⟨-, rfl⟩ := hs
    have hfd : fd ≠ fd' := by
      rintro rfl
      exact hok.1 rfl
    have hsame : (if s.outFd = fd' then [] else s.out) = s.out := by
      rw [hblocked.outFd, if_neg hfd]
    refine ⟨{ hblocked with conn := ?_, out := ?_ }, hserver, hsame.trans hout,
      fun fd₂ c' hc' => ?_⟩
    · simpa [Function.update_of_ne hfd] using hblocked.conn
    · simpa only [hsame] using hblocked.out
    · by_cases heq : fd₂ = fd'
      · simp [heq] at hc'
      · apply hothers fd₂ c'
        simpa [Function.update_of_ne heq] using hc'
  · obtain ⟨_, _, hcond, -⟩ := socketStep_serve.mp hs
    exact absurd hcond.1 hblocked.out
  · simp [socketStep, hblocked.out] at hs
  · obtain ⟨c₁, hc₁, ⟨hpos, -, hroom⟩, -⟩ := socketStep_answer.mp hs
    rw [hblocked.outFd] at hc₁
    obtain rfl : c₁ = c := Option.some.inj (hc₁.symm.trans hblocked.conn)
    have hfull := hblocked.reply
    omega

/-- Steps of a client are steps of the system. -/
lemma client_trace {c c' : Connection} {ds : List ClientEvent} (hc : s.conns fd = some c)
    (h : Trace (clientStep capRequest) (fun _ _ => True) c ds c') (stod : Bytes → Option ℚ)
    (capReply : ℕ) :
    Trace (socketStep stod capRequest capReply) (fun _ _ => True) s (ds.map (.client fd))
      (s.setConn fd c') := by
  induction h with
  | nil =>
    have hself : s.setConn fd c = s := by
      simp only [SocketSys.setConn, ← hc, Function.update_eq_self]
    rw [hself]
    exact .nil
  | @snoc ds c₁ c₂ d _ _ hs ih =>
    rw [List.map_append]
    refine ih.snoc trivial (socketStep_client.mpr ⟨c₁, c₂, ?_, hs, ?_⟩)
    · simp [SocketSys.setConn]
    · simp [SocketSys.setConn]

/-- A client between two lines calls `send`. -/
lemma clientStep_sendLine (cap : ℕ) (request reply : Bytes) :
    clientStep cap ⟨[], false, request, reply⟩ (.sendLine (ascii "x")) =
      some ⟨ascii "x\n", false, request, reply⟩ := by
  have hline : lf ∉ ascii "x" ∧ ascii "x" ++ [lf] = ascii "x\n" := by decide
  simp [clientStep, hline]

/-- A client sends a line, and sees no reply. -/
lemma exists_sendLine {cap : ℕ} {request : Bytes} (reply : Bytes)
    (hroom : request.length + 2 ≤ cap) :
    ∃ ds, Trace (clientStep cap) (fun _ _ => True) ⟨[], false, request, reply⟩ ds
      ⟨[], false, request ++ ascii "x\n", reply⟩ := by
  have hsend := clientStep_sendLine cap request reply
  have hlen : (ascii "x\n").length = 2 := by decide
  have hput : clientStep cap ⟨ascii "x\n", false, request, reply⟩ (.put 2) =
      some ⟨[], true, request ++ ascii "x\n", reply⟩ := by
    simp [clientStep, hlen, hroom]
  have hread : clientStep cap ⟨[], true, request ++ ascii "x\n", reply⟩
      (.readReply reply.length) = some ⟨[], false, request ++ ascii "x\n", reply⟩ := by
    simp [clientStep]
  exact ⟨_, .cons trivial hsend (.cons trivial hput (.cons trivial hread .nil))⟩

/-- The client on the descriptor is between two lines, and the server has handled all that it has
sent. -/
structure Quiet (fd : ℕ) (reply : Bytes) (s : SocketSys) : Prop where
  conn : s.conns fd = some ⟨[], false, [], reply⟩
  buf : s.server.recvBufs.lookup fd = some []
  out : s.out = []

/-- A line that is no message is answered as soon as it is received. -/
lemma exists_reply (stod : Bytes → Option ℚ) (capReply : ℕ) (hreq : 2 ≤ capRequest) {reply : Bytes}
    (h : Quiet fd reply s) :
    ∃ es s', Trace (socketStep stod capRequest capReply) (fun _ _ => True) s es s' ∧
      s'.conns fd = some ⟨[], false, [], reply⟩ ∧ s'.server.recvBufs.lookup fd = some [] ∧
      s'.outFd = fd ∧ s'.out = errBadMsg := by
  have hroom : ([] : Bytes).length + 2 ≤ capRequest := hreq
  obtain ⟨ds, hds⟩ := exists_sendLine reply hroom
  have hsent := client_trace h.conn hds stod capReply
  have hout : (s.setConn fd ⟨[], false, [] ++ ascii "x\n", reply⟩).out = [] := h.out
  have hcut : cutLines (ascii "x\n") = ([ascii "x"], []) := by decide
  have hframed : framedLines [ascii "x"] = [ascii "x"] := by decide
  have hparse : parse stod (ascii "x") = none := rfl
  have hhandle : ∀ envs, handleClient stod envs fd (ascii "x\n") s.server =
      ({ s.server with recvBufs := s.server.recvBufs.insert fd [] },
        [.recv fd (ascii "x\n"), .parse fd (ascii "x"), .sendReply fd errBadMsg]) := by
    intro envs
    rw [handleClient_eq stod fd envs h.buf (by decide) (by decide)]
    simp [hcut, hframed, withEnvs, runMachine, lineStep, handleLine, hparse]
  have hchunk : ascii "x\n" ≠ [] ∧ (ascii "x\n").length ≤ bufSize - 1 := by decide
  have hserved := hsent.snoc (e := .serve fd (ascii "x\n") fun _ => ⟨0, 0, .zero⟩) trivial
    (socketStep_serve.mpr ⟨⟨[], false, ascii "x\n", reply⟩, Function.update_self ..,
      ⟨hout, hchunk.1, hchunk.2, List.prefix_rfl⟩, rfl⟩)
  refine ⟨_, _, hserved, ?_, ?_, rfl, ?_⟩
  · simp [SocketSys.setConn]
  · simp [SocketSys.setConn, hhandle]
  · simp [SocketSys.setConn, hhandle, sentBytes]

/-- The replies pile up until the server waits. -/
lemma exists_full (stod : Bytes → Option ℚ) (capReply : ℕ) (hreq : 2 ≤ capRequest) {reply : Bytes}
    (h : Quiet fd reply s) :
    ∃ es s' reply', Trace (socketStep stod capRequest capReply) (fun _ _ => True) s es s' ∧
      s'.conns fd = some ⟨[], false, [], reply'⟩ ∧ capReply ≤ reply'.length ∧ s'.outFd = fd ∧
      s'.out ≠ [] := by
  induction hroom : capReply - reply.length using Nat.strong_induction_on generalizing s reply with
  | _ room ih =>
    obtain ⟨es, s₁, hes, hconn, hbuf, houtFd, hout⟩ := exists_reply stod capReply hreq h
    have hlen : errBadMsg.length = 12 := by decide
    have hne : s₁.out ≠ [] := by
      rw [hout]
      decide
    rcases Nat.eq_zero_or_pos room with hzero | hpos
    · exact ⟨es, s₁, reply, hes, hconn, by omega, houtFd, hne⟩
    · -- as much of the reply as there is room for
      set k := min room 12 with hk
      have hcond : 0 < k ∧ k ≤ s₁.out.length ∧ reply.length + k ≤ capReply := by
        rw [hout, hlen]
        omega
      have hput := hes.snoc (e := .answer k) trivial
        (socketStep_answer.mpr ⟨_, houtFd ▸ hconn, hcond, rfl⟩)
      set reply' := reply ++ s₁.out.take k with hreply
      have hlen' : reply'.length = reply.length + k := by
        rw [hreply, List.length_append, List.length_take_of_le hcond.2.1]
      have hconn' : (({ s₁ with out := s₁.out.drop k } : SocketSys).setConn s₁.outFd
          ⟨[], false, [], reply'⟩).conns fd = some ⟨[], false, [], reply'⟩ := by
        simp [SocketSys.setConn, houtFd]
      by_cases hlt : room < 12
      · refine ⟨_, _, reply', hput, hconn', by omega, houtFd, ?_⟩
        apply List.ne_nil_of_length_pos
        change 0 < (s₁.out.drop k).length
        rw [List.length_drop, hout, hlen]
        omega
      · have hquiet : Quiet fd reply' (({ s₁ with out := s₁.out.drop k } : SocketSys).setConn
            s₁.outFd ⟨[], false, [], reply'⟩) := by
          refine ⟨hconn', hbuf, List.drop_eq_nil_of_le ?_⟩
          rw [hout, hlen]
          omega
        obtain ⟨es', s', reply'', htrace, hend⟩ :=
          ih (capReply - reply'.length) (by omega) hquiet rfl
        exact ⟨_, s', reply'', hput.append htrace, hend⟩

/-- The lines pile up until the client waits too. -/
lemma exists_blocked (stod : Bytes → Option ℚ) {request reply : Bytes}
    (hconn : s.conns fd = some ⟨[], false, request, reply⟩) (hfull : capReply ≤ reply.length)
    (houtFd : s.outFd = fd) (hout : s.out ≠ []) :
    ∃ es s' c, Trace (socketStep stod capRequest capReply) (fun _ _ => True) s es s' ∧
      Blocked capRequest capReply fd c s' := by
  induction hroom : capRequest - request.length using Nat.strong_induction_on
    generalizing s request with
  | _ room ih =>
    have hsend := clientStep_sendLine capRequest request reply
    have hlen : (ascii "x\n").length = 2 := by decide
    have hblocked : ∀ c, c.reply = reply → c.rest ≠ [] → c.reading = false →
        capRequest ≤ c.request.length → Blocked capRequest capReply fd c (s.setConn fd c) :=
      fun c hreply hrest hreading hrequest => ⟨by simp [SocketSys.setConn], houtFd, hout,
        hreply ▸ hfull, hrest, hreading, hrequest⟩
    rcases (by omega : room = 0 ∨ room = 1 ∨ 2 ≤ room) with hzero | hone | htwo
    · refine ⟨_, _, ⟨ascii "x\n", false, request, reply⟩,
        client_trace hconn (.snoc .nil trivial hsend) stod capReply,
        hblocked _ rfl (by simp only; decide) rfl (by simp only; omega)⟩
    · have hput : clientStep capRequest ⟨ascii "x\n", false, request, reply⟩ (.put 1) =
          some ⟨[lf], false, request ++ ascii "x", reply⟩ := by
        have hsplit : (ascii "x\n").take 1 = ascii "x" ∧ (ascii "x\n").drop 1 = [lf] := by decide
        have hle : request.length + 1 ≤ capRequest := by omega
        simp [clientStep, hlen, hsplit, hle]
      have hlen' : (ascii "x").length = 1 := by decide
      refine ⟨_, _, ⟨[lf], false, request ++ ascii "x", reply⟩,
        client_trace hconn (.snoc (.snoc .nil trivial hsend) trivial hput) stod capReply,
        hblocked _ rfl (List.cons_ne_nil _ _) rfl ?_⟩
      rw [List.length_append, hlen']
      omega
    · have hle : request.length + 2 ≤ capRequest := by omega
      obtain ⟨ds, hds⟩ := exists_sendLine reply hle
      have hsent := client_trace hconn hds stod capReply
      obtain ⟨es, s', c, htrace, hend⟩ := ih (capRequest - (request ++ ascii "x\n").length)
        (by rw [List.length_append, hlen]; omega)
        (s := s.setConn fd ⟨[], false, request ++ ascii "x\n", reply⟩)
        (by simp [SocketSys.setConn]) houtFd hout rfl
      exact ⟨_, s', c, hsent.append htrace, hend⟩

/-- **The server and a client can wait for each other for good.**  For all capacities, that for the
requests of at least two bytes, a run leads to a state in which both are in `send` and there is room
for neither.  From such a state on, until the client is interrupted or ends the connection, the
server does nothing, whatever happens: it receives from no other client, and none gets another
reply. -/
theorem blocked_for_good (stod : Bytes → Option ℚ) (capReply fd : ℕ) (hreq : 2 ≤ capRequest) :
    (∃ es s c, Trace (socketStep stod capRequest capReply) (fun _ _ => True) .init es s ∧
      Blocked capRequest capReply fd c s) ∧
    ∀ s c, Blocked capRequest capReply fd c s → ∀ es s',
      Trace (socketStep stod capRequest capReply) (StaysInSend fd) s es s' →
        Frozen capRequest capReply fd c s s' := by
  constructor
  · set s₀ : SocketSys :=
      { SocketSys.init with server := (acceptClient fd SocketSys.init.server).1 } with hs₀
    have hbufs : s₀.server.recvBufs = (∅ : AList fun _ : ℕ => Bytes).insert fd [] := rfl
    have hconnect : Trace (socketStep stod capRequest capReply) (fun _ _ => True) .init
        [.connect fd] (s₀.setConn fd .new) := by
      apply Trace.cons trivial _ .nil
      have hmem : fd ∈ s₀.server.recvBufs := by
        rw [hbufs]
        exact AList.mem_insert _ |>.mpr (.inl rfl)
      simp only [socketStep, ← hs₀]
      rw [if_pos ⟨rfl, rfl, AList.notMem_empty fd⟩, if_pos hmem]
    have hquiet : Quiet fd [] (s₀.setConn fd .new) :=
      ⟨Function.update_self .., (congrArg (AList.lookup fd) hbufs).trans (AList.lookup_insert _),
        rfl⟩
    obtain ⟨es, s₁, reply, hes, hconn, hfull, houtFd, hout⟩ :=
      exists_full stod capReply hreq hquiet
    obtain ⟨es', s₂, c, hes', hblocked⟩ := exists_blocked stod hconn hfull houtFd hout
    exact ⟨_, s₂, c, (hconnect.append hes).append hes', hblocked⟩
  · intro s c hblocked es s' htrace
    have hfrozen : Frozen capRequest capReply fd c s s :=
      ⟨hblocked, rfl, rfl, fun _ c' hc' => ⟨c', hc', List.suffix_rfl⟩⟩
    exact htrace.invariant hfrozen fun _ _ _ hs hok hstep => hs.step hok hstep

/-- With sockets of ten bytes. -/
theorem blocked_for_good_ten :
    (∃ es s c, Trace (socketStep readDecimal 10 10) (fun _ _ => True) .init es s ∧
      Blocked 10 10 5 c s) ∧
    ∀ s c, Blocked 10 10 5 c s → ∀ es s',
      Trace (socketStep readDecimal 10 10) (StaysInSend 5) s es s' → Frozen 10 10 5 c s s' :=
  blocked_for_good readDecimal 10 5 (by norm_num)

end Steps

end ParkingSystem
