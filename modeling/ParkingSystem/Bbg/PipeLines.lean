import ParkingSystem.Bbg.Tcp

/-!
# The lines of the pipe

The main loop of `bbg_tcp.c` reads the pipe in pieces of any size, forwards the complete lines of
its buffer, and moves the unfinished line to the front for the next read.  As long as no line has
more than 254 bytes, the calls of `tcp_send` are the lines of the bytes read, and there is always
room for at least one more byte when `read` is called.
-/

namespace ParkingSystem

open Foundation

/-- The bytes that `read` has returned. -/
def bytesRead (es : List ForwarderEvent) : Bytes :=
  es.flatMap fun
    | .read chunk => chunk
    | _ => []

/-- The messages with which `tcp_send` was called. -/
def Forwarder.tcpCalls (s : Forwarder) : List Bytes := s.attempts.map fun a => a.line ++ [lf]

/-- The number of bytes that the next call of `read` asks for. -/
def Forwarder.readSize (s : Forwarder) : ℕ := pipeBufSize - s.buf.length - 1

/-- The pipe is not closed. -/
def PipeOpen (_ : Forwarder) (e : ForwarderEvent) : Prop := e ≠ .pipeClosed

instance (s : Forwarder) (e : ForwarderEvent) : Decidable (PipeOpen s e) :=
  inferInstanceAs (Decidable (e ≠ .pipeClosed))

@[simp] lemma bytesRead_concat (es : List ForwarderEvent) (e : ForwarderEvent) :
    bytesRead (es ++ [e]) = bytesRead es ++ bytesRead [e] := by
  simp [bytesRead]

/-- The bytes read are the lines forwarded and the buffer. -/
structure Forwarded (es : List ForwarderEvent) (s : Forwarder) : Prop where
  bytesRead_eq : bytesRead es = unlines (s.attempts.map Attempt.line) ++ s.buf
  lf_notMem : ∀ line ∈ s.attempts.map Attempt.line, lf ∉ line

section Forwarded

variable {es : List ForwarderEvent} {s s' : Forwarder} {e : ForwarderEvent} {stream : Bytes}

/-- Every step of the loop keeps this, as long as no NUL is read. -/
lemma Forwarded.step (h : Forwarded es s) (h0 : (0 : UInt8) ∉ bytesRead (es ++ [e]))
    (he : e ≠ .pipeClosed) (hs : forwarderStep s e = some s') : Forwarded (es ++ [e]) s' := by
  rw [bytesRead_concat] at h0
  cases e with
  | read chunk =>
    obtain ⟨-, rfl⟩ := forwarderStep_read.mp hs
    -- the buffer is used as a C string, which loses nothing
    have hbuf : (0 : UInt8) ∉ s.buf ++ chunk := by
      intro hmem
      rw [h.bytesRead_eq, List.append_assoc] at h0
      exact h0 (List.mem_append_right _ (by simpa [bytesRead] using hmem))
    refine ⟨?_, h.lf_notMem⟩
    rw [bytesRead_concat, h.bytesRead_eq, cstr_eq_self hbuf]
    simp [bytesRead]
  | pipeClosed => exact absurd rfl he
  | forward outcome =>
    obtain ⟨line, rest, res, tcp, sent, hcut, -, rfl⟩ := forwarderStep_forward.mp hs
    obtain ⟨hbuf, hline⟩ := cutAt_eq_some_iff.mp hcut
    constructor
    · rw [bytesRead_concat, h.bytesRead_eq, hbuf]
      simp [bytesRead]
    · rw [List.map_append]
      exact List.forall_mem_append.mpr ⟨h.lf_notMem, List.forall_mem_singleton.mpr hline⟩

/-- It holds in every run that reads no NUL. -/
lemma forwarded_of_trace (hrun : Trace forwarderStep PipeOpen .init es s)
    (h0 : (0 : UInt8) ∉ bytesRead es) : Forwarded es s := by
  revert h0
  refine hrun.invariant_events (P := fun es s => (0 : UInt8) ∉ bytesRead es → Forwarded es s)
    (fun _ => ⟨rfl, by simp [Forwarder.init]⟩) ?_
  intro es s e s' ih he hs h0
  have hprev : (0 : UInt8) ∉ bytesRead es := by
    intro hmem
    rw [bytesRead_concat] at h0
    exact h0 (List.mem_append_left _ hmem)
  exact (ih hprev).step h0 he hs

/-- The lines forwarded and the lines in the buffer are the lines of the bytes read. -/
lemma Forwarded.cutLines_bytesRead (h : Forwarded es s) :
    cutLines (bytesRead es) =
      (s.attempts.map Attempt.line ++ (cutLines s.buf).1, (cutLines s.buf).2) := by
  rw [h.bytesRead_eq, cutLines_unlines h.lf_notMem]

/-- The unfinished line fits the buffer if every line of the stream does. -/
lemma length_rest_le (hlines : ∀ line ∈ (cutLines stream).1, line.length ≤ 254)
    (hrest : (cutLines stream).2.length ≤ 254) {s : Bytes} (hs : s <+: stream) :
    (cutLines s).2.length ≤ 254 := by
  obtain ⟨t, rfl⟩ := hs
  rcases cutLines_rest_isPrefix s t with ⟨line, hline, hpre⟩ | hpre
  · exact hpre.length_le.trans (hlines line hline)
  · exact hpre.length_le.trans hrest

/-- **The calls of `tcp_send` are the lines of the pipe.**  In every run on a stream whose lines
fit the buffer, the calls made so far are the first lines of the bytes read.  When `read` is called,
they are all of them, the buffer is the unfinished line, and the call asks for at least one
byte. -/
theorem tcpCalls_lines (h0 : (0 : UInt8) ∉ stream)
    (hlines : ∀ line ∈ (cutLines stream).1, line.length ≤ 254)
    (hrest : (cutLines stream).2.length ≤ 254) (hrun : Trace forwarderStep PipeOpen .init es s)
    (hbytes : bytesRead es <+: stream) :
    s.tcpCalls <+: (cutLines (bytesRead es)).1.map (· ++ [lf]) ∧
      (lf ∉ s.buf →
        s.tcpCalls = (cutLines (bytesRead es)).1.map (· ++ [lf]) ∧
        s.buf = (cutLines (bytesRead es)).2 ∧ s.buf.length ≤ 254 ∧ 1 ≤ s.readSize) := by
  have hfwd : Forwarded es s := forwarded_of_trace hrun fun hmem => h0 (hbytes.mem hmem)
  have hcalls : s.tcpCalls = (s.attempts.map Attempt.line).map (· ++ [lf]) := by
    simp [Forwarder.tcpCalls]
  have hcut := hfwd.cutLines_bytesRead
  constructor
  · rw [hcut, hcalls, List.map_append]
    exact List.prefix_append _ _
  · intro hread
    have hlen := length_rest_le hlines hrest hbytes
    rw [cutLines_of_notMem hread, List.append_nil] at hcut
    rw [hcut] at hlen ⊢
    have hlen : s.buf.length ≤ 254 := hlen
    exact ⟨hcalls, rfl, hlen, by simp only [Forwarder.readSize, pipeBufSize]; omega⟩

/-- A line fills the buffer, and its newline arrives alone. -/
theorem tcpCalls_lines_full :
    ∃ s : Forwarder, s.tcpCalls = [List.replicate 254 65 ++ [lf]] ∧ s.readSize = 254 ∧
      s.buf = [66] := by
  obtain ⟨s, hs, hread⟩ : ∃ s, replayEvents forwarderStep PipeOpen .init
      [.read (List.replicate 254 65), .read [lf], .forward (.accepts 255), .read [66]] = some s ∧
      lf ∉ s.buf :=
    ⟨⟨[66], ⟨true, 0⟩, [⟨List.replicate 254 65, .accepts 255,
      some (0, List.replicate 254 65 ++ [lf])⟩]⟩, by decide +kernel, by decide⟩
  have hread' := (@tcpCalls_lines _ _ (List.replicate 254 65 ++ [lf, 66]) (by decide +kernel)
    (by decide +kernel) (by decide +kernel) (Trace.of_replayEvents hs) (by decide +kernel)).2 hread
  refine ⟨s, hread'.1.trans (by decide +kernel), ?_, hread'.2.1.trans (by decide +kernel)⟩
  rw [Forwarder.readSize, hread'.2.1]
  decide +kernel

end Forwarded

end ParkingSystem
