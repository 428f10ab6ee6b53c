import ParkingSystem.Foundation.Lines
import ParkingSystem.Foundation.Trace
import ParkingSystem.Common

/-!
# The pipe-to-server process

`bbg_tcp.c` reads wire messages from a pipe and forwards each complete line to the server:
`tcp_send` with its connection, and the main loop with its receive buffer.  A line is offered to
`tcp_send` once; whatever the outcome, the loop goes on with the next one.

The connections are numbered in the order in which they are made.  What a line leaves on a
connection is recorded with the line, together with the outcome of the calls of `connect` and
`send` that were made for it.
-/

namespace ParkingSystem

open Foundation

/-- `BUF_SIZE` of the pipe-to-server process. -/
abbrev pipeBufSize : ℕ := 256

/-! ## `tcp_send` -/

/-- The outcome of the calls of `connect` and `send` for one line. -/
inductive Outcome where
  /-- There is no connection, and `connect` fails. -/
  | connectFails
  /-- There is a connection, perhaps a new one, and `send` fails. -/
  | sendFails
  /-- There is a connection, perhaps a new one, and `send` accepts this number of bytes. -/
  | accepts (n : ℕ)
deriving DecidableEq

/-- The connection of the process. -/
structure TcpClient where
  /-- Whether `g_tcp_fd` is a descriptor. -/
  connected : Bool
  /-- The number of the connection, or of the next one if there is none. -/
  connection : ℕ
deriving DecidableEq

/-- `tcp_send`: the result, the connection afterwards, and the bytes that it put on a connection,
with the number of the latter. -/
def tcpSend (outcome : Outcome) (msg : Bytes) (c : TcpClient) :
    Option (ℤ × TcpClient × Option (ℕ × Bytes)) :=
  match outcome with
  | .connectFails => if c.connected then none else some (-1, c, none)
  | .sendFails => some (-1, ⟨false, c.connection + 1⟩, none)
  | .accepts n =>
    if n ≤ msg.length then some (0, ⟨true, c.connection⟩, some (c.connection, msg.take n))
    else none

/-! ## The main loop -/

/-- A line that was taken from the pipe and offered to `tcp_send`. -/
structure Attempt where
  /-- The line, without its newline. -/
  line : Bytes
  outcome : Outcome
  /-- The bytes that were put on a connection, with its number. -/
  sent : Option (ℕ × Bytes)
deriving DecidableEq

/-- The state of the process, with the lines that it has offered, oldest first. -/
structure Forwarder where
  /-- The first `buf_len` bytes of the receive buffer. -/
  buf : Bytes
  tcp : TcpClient
  attempts : List Attempt
deriving DecidableEq

/-- A step of the main loop. -/
inductive ForwarderEvent where
  /-- `read` returns bytes. -/
  | read (chunk : Bytes)
  /-- `read` returns nothing, and the pipe is opened again. -/
  | pipeClosed
  /-- A complete line is taken off the buffer and offered to `tcp_send`. -/
  | forward (outcome : Outcome)
deriving DecidableEq

/-- The effect of a step, if it can be taken.  The buffer is used as a C string, so that bytes from
a zero byte on are never seen again. -/
def forwarderStep (s : Forwarder) : ForwarderEvent → Option Forwarder
  | .read chunk =>
    if lf ∉ s.buf ∧ chunk ≠ [] ∧ chunk.length ≤ pipeBufSize - s.buf.length - 1 then
      some { s with buf := cstr (s.buf ++ chunk) }
    else none
  | .pipeClosed => if lf ∉ s.buf then some { s with buf := [] } else none
  | .forward outcome =>
    match cutAt lf s.buf with
    | none => none
    | some (line, rest) =>
      (tcpSend outcome (line ++ [lf]) s.tcp).map fun (_, tcp, sent) =>
        ⟨rest, tcp, s.attempts ++ [⟨line, outcome, sent⟩]⟩

section Cases

variable {s s' : Forwarder} {chunk : Bytes} {outcome : Outcome}

/-- `read` is called when there is no line left in the buffer, with the space behind it. -/
lemma forwarderStep_read : forwarderStep s (.read chunk) = some s' ↔
    (lf ∉ s.buf ∧ chunk ≠ [] ∧ chunk.length ≤ pipeBufSize - s.buf.length - 1) ∧
      s' = { s with buf := cstr (s.buf ++ chunk) } := by
  simp only [forwarderStep, Option.ite_none_right_eq_some, Option.some.injEq]
  exact and_congr_right fun _ => eq_comm

/-- When the pipe is opened again, what is left in the buffer is dropped. -/
lemma forwarderStep_pipeClosed : forwarderStep s .pipeClosed = some s' ↔
    lf ∉ s.buf ∧ s' = { s with buf := [] } := by
  simp only [forwarderStep, Option.ite_none_right_eq_some, Option.some.injEq]
  exact and_congr_right fun _ => eq_comm

/-- A line is offered to `tcp_send` once. -/
lemma forwarderStep_forward : forwarderStep s (.forward outcome) = some s' ↔
    ∃ line rest res tcp sent, cutAt lf s.buf = some (line, rest) ∧
      tcpSend outcome (line ++ [lf]) s.tcp = some (res, tcp, sent) ∧
      s' = ⟨rest, tcp, s.attempts ++ [⟨line, outcome, sent⟩]⟩ := by
  cases hcut : cutAt lf s.buf with
  | none => simp [forwarderStep, hcut]
  | some p =>
    obtain ⟨line, rest⟩ := p
    simp only [forwarderStep, hcut, Option.map_eq_some_iff, Prod.exists, Option.some.injEq,
      Prod.mk.injEq]
    constructor
    · rintro ⟨res, tcp, sent, hsend, rfl⟩
      exact ⟨_, _, res, tcp, sent, ⟨rfl, rfl⟩, hsend, rfl⟩
    · rintro ⟨_, _, res, tcp, sent, ⟨rfl, rfl⟩, hsend, rfl⟩
      exact ⟨res, tcp, sent, hsend, rfl⟩

end Cases

/-- The process has started: the buffer is empty, and there is no connection. -/
def Forwarder.init : Forwarder := ⟨[], ⟨false, 0⟩, []⟩

/-! ## What is on the connections -/

/-- What a call of `tcp_send` puts on a connection. -/
def Outcome.sent (connection : ℕ) (msg : Bytes) : Outcome → Option (ℕ × Bytes)
  | accepts n => some (connection, msg.take n)
  | connectFails | sendFails => none

/-- What `tcp_send` does: only a failed `send` ends the connection. -/
lemma tcpSend_spec {outcome : Outcome} {msg : Bytes} {c c' : TcpClient} {res : ℤ}
    {sent : Option (ℕ × Bytes)} (h : tcpSend outcome msg c = some (res, c', sent)) :
    sent = outcome.sent c.connection msg ∧
      c'.connection = if outcome = .sendFails then c.connection + 1 else c.connection := by
  cases outcome with
  | connectFails =>
    simp only [tcpSend, Option.ite_none_left_eq_some, Option.some.injEq, Prod.mk.injEq] at h
    obtain ⟨-, -, rfl, rfl⟩ := h
    simp [Outcome.sent]
  | sendFails =>
    simp only [tcpSend, Option.some.injEq, Prod.mk.injEq] at h
    obtain ⟨-, rfl, rfl⟩ := h
    simp [Outcome.sent]
  | accepts n =>
    simp only [tcpSend, Option.ite_none_right_eq_some, Option.some.injEq, Prod.mk.injEq] at h
    obtain ⟨-, -, rfl, rfl⟩ := h
    simp [Outcome.sent]

/-- The number of failed calls of `send`. -/
def failedSends (attempts : List Attempt) : ℕ := attempts.countP fun a => a.outcome = .sendFails

/-- Failed calls are counted one after the other. -/
@[simp] lemma failedSends_append (l l' : List Attempt) :
    failedSends (l ++ l') = failedSends l + failedSends l' := List.countP_append

/-- None is counted if none has failed. -/
lemma failedSends_eq_zero_iff {attempts : List Attempt} :
    failedSends attempts = 0 ↔ ∀ a ∈ attempts, a.outcome ≠ .sendFails := by
  simp [failedSends, List.countP_eq_zero]

/-- **What is on the connections**: each connection but the last was ended by a failed `send`, and
every line was offered to the connection of its time. -/
structure ForwarderInv (s : Forwarder) : Prop where
  connection_eq : s.tcp.connection = failedSends s.attempts
  sent_eq : ∀ earlier a later, s.attempts = earlier ++ a :: later →
    a.sent = a.outcome.sent (failedSends earlier) (a.line ++ [lf])

/-- Every step keeps this. -/
lemma ForwarderInv.step {s s' : Forwarder} {e : ForwarderEvent} (h : ForwarderInv s)
    (hs : forwarderStep s e = some s') : ForwarderInv s' := by
  cases e with
  | read chunk =>
    obtain ⟨-, rfl⟩ := forwarderStep_read.mp hs
    exact ⟨h.connection_eq, h.sent_eq⟩
  | pipeClosed =>
    obtain ⟨-, rfl⟩ := forwarderStep_pipeClosed.mp hs
    exact ⟨h.connection_eq, h.sent_eq⟩
  | forward outcome =>
    obtain ⟨line, rest, res, tcp, sent, -, hsend, rfl⟩ := forwarderStep_forward.mp hs
    obtain ⟨hsent, hconn⟩ := tcpSend_spec hsend
    constructor
    · simp only [hconn, failedSends_append, h.connection_eq]
      by_cases hout : outcome = .sendFails <;> simp [failedSends, hout]
    · intro earlier a later heq
      rcases List.eq_nil_or_concat later with rfl | ⟨later', b, rfl⟩
      · -- the last line
        obtain ⟨hearlier, ha⟩ := List.append_inj' heq rfl
        obtain rfl := List.singleton_inj.mp ha
        rw [← hearlier, ← h.connection_eq]
        exact hsent
      · rw [List.concat_eq_append, ← List.cons_append, ← List.append_assoc] at heq
        exact h.sent_eq earlier a later' (List.append_inj' heq rfl).1

/-- It holds in every run. -/
lemma forwarderInv_of_trace {es : List ForwarderEvent} {s : Forwarder}
    (h : Trace forwarderStep (fun _ _ => True) .init es s) : ForwarderInv s :=
  h.invariant ⟨rfl, by simp [Forwarder.init]⟩ fun _ _ _ hs _ hstep => hs.step hstep

end ParkingSystem
