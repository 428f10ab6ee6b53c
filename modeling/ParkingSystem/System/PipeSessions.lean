import ParkingSystem.Foundation.Fifo
import ParkingSystem.Bbg.PipeLines
import ParkingSystem.System.FrameToMessage

/-!
# Restarts of the processes at the pipe

The processes `bbg_i2c` and `bbg_tcp` are started and stopped at any time, and `bbg_tcp` opens the
pipe again whenever a read finds that its writer is gone.  Opening one end of the pipe waits for the
other end; a write to a pipe without reader kills the writer, and what is in the pipe when both ends
are closed is discarded.

While `bbg_tcp` runs, only whole lines are forwarded, each once and in the order of the writes; a
line that is not forwarded was discarded as a whole.  That can only happen to a writer that opens
the pipe between the read that finds it empty and the close that follows.  If `bbg_tcp` is restarted
as well, the end of a line may be forwarded, but it is never taken for a message.
-/

namespace ParkingSystem

open Foundation

/-- Where the process `bbg_i2c` is. -/
inductive I2cPc where
  /-- It does not run. -/
  | stopped
  /-- It waits in `open` for a reader; whether there has been one since. -/
  | opening (met : Bool)
  /-- It is in its main loop. -/
  | running
deriving DecidableEq

/-- Where the process `bbg_tcp` is. -/
inductive TcpPc where
  /-- It has not opened the pipe, or has closed it. -/
  | closed
  /-- It waits in `open` for a writer; whether there has been one since. -/
  | opening (met : Bool)
  /-- It is in its main loop. -/
  | reading
  /-- A `read` has returned 0, and the pipe is about to be closed. -/
  | hungUp
deriving DecidableEq

/-- A reader has opened the pipe. -/
def I2cPc.meet : I2cPc → I2cPc
  | opening _ => opening true
  | pc => pc

/-- A writer has opened the pipe. -/
def TcpPc.meet : TcpPc → TcpPc
  | opening _ => opening true
  | pc => pc

/-- A reader does not start `bbg_i2c`. -/
@[simp] lemma I2cPc.meet_eq_stopped_iff {pc : I2cPc} : pc.meet = stopped ↔ pc = stopped := by
  cases pc <;> simp [meet]

/-- A writer does not open the pipe for `bbg_tcp`. -/
@[simp] lemma TcpPc.meet_eq_closed_iff {pc : TcpPc} : pc.meet = closed ↔ pc = closed := by
  cases pc <;> simp [meet]

/-- Nor does it bring it into its main loop. -/
@[simp] lemma TcpPc.meet_eq_reading_iff {pc : TcpPc} : pc.meet = reading ↔ pc = reading := by
  cases pc <;> simp [meet]

/-- The pipe with its two processes, and what has become of the lines. -/
structure PipeRun where
  fifo : Fifo UInt8
  i2c : I2cPc
  tcp : TcpPc
  forwarder : Forwarder
  /-- The lines that were written to the pipe. -/
  written : List Bytes
  /-- The lines that were discarded with the pipe. -/
  lost : List Bytes
  /-- The number of times that a write has killed `bbg_i2c`. -/
  killed : ℕ

/-- A step of one of the processes. -/
inductive PipeEvent where
  /-- `bbg_i2c` is started, and begins to open the pipe. -/
  | startI2c
  /-- Its `open` returns. -/
  | i2cOpened
  /-- One pass of its main loop, with the bytes read from the bus. -/
  | i2cPass (buf : Bytes)
  /-- It ends. -/
  | stopI2c
  /-- `bbg_tcp` begins to open the pipe. -/
  | openTcp
  /-- Its `open` returns. -/
  | tcpOpened
  /-- `read` returns this number of bytes, or all that are there. -/
  | read (n : ℕ)
  /-- `read` returns 0. -/
  | readNothing
  /-- The pipe is closed after that. -/
  | closeTcp
  /-- `bbg_tcp` ends, wherever it is. -/
  | stopTcp
  /-- A complete line is taken off the buffer and offered to `tcp_send`. -/
  | forward (outcome : Outcome)
deriving DecidableEq

namespace PipeRun

/-- Neither process has been started. -/
def init : PipeRun := ⟨.closed, .stopped, .closed, .init, [], [], 0⟩

/-- The lines that were forwarded. -/
def lines (s : PipeRun) : List Bytes := s.forwarder.attempts.map Attempt.line

/-- The lines that were forwarded, and those that are on the way. -/
def seen (s : PipeRun) : List Bytes :=
  s.lines ++ (cutLines (s.forwarder.buf ++ s.fifo.buffer)).1

/-- The descriptor of `bbg_i2c` is closed with the process. -/
def endI2c (s : PipeRun) : PipeRun :=
  { s with
    fifo := s.fifo.closeWrite
    i2c := .stopped
    lost := s.lost ++ if s.fifo.readEnd then [] else (cutLines s.fifo.buffer).1 }

/-- The descriptor of `bbg_tcp` is closed, by the process or with it. -/
def closeTcp (s : PipeRun) : PipeRun :=
  { s with
    fifo := s.fifo.closeRead
    tcp := .closed
    lost := s.lost ++ if s.fifo.writeEnd then [] else (cutLines s.fifo.buffer).1 }

end PipeRun

/-- The effect of a step, if it can be taken.  What `bbg_i2c` writes in one call is no longer than
`PIPE_BUF`, so that it gets into the pipe as a whole. -/
def pipeStep (s : PipeRun) : PipeEvent → Option PipeRun
  | .startI2c => match s.i2c with
    | .stopped => some { s with
        fifo := s.fifo.openWrite
        i2c := .opening s.fifo.readEnd
        tcp := s.tcp.meet }
    | _ => none
  | .i2cOpened => match s.i2c with
    | .opening true => some { s with i2c := .running }
    | _ => none
  | .i2cPass buf => match s.i2c with
    | .running => match i2cForward buf with
      | none => some s
      | some text =>
        if h : s.fifo.readEnd = true then
          some { s with
            fifo := s.fifo.write text h
            written := s.written ++ (cutLines text).1 }
        else some { s.endI2c with killed := s.killed + 1 }
    | _ => none
  | .stopI2c => match s.i2c with
    | .stopped => none
    | _ => some s.endI2c
  | .openTcp => match s.tcp with
    | .closed => some { s with
        fifo := s.fifo.openRead
        i2c := s.i2c.meet
        tcp := .opening s.fifo.writeEnd }
    | _ => none
  | .tcpOpened => match s.tcp with
    | .opening true => (forwarderStep s.forwarder .pipeClosed).map fun forwarder =>
        { s with tcp := .reading, forwarder := forwarder }
    | _ => none
  | .read n => match s.tcp with
    | .reading => (forwarderStep s.forwarder (.read (s.fifo.buffer.take n))).map fun forwarder =>
        { s with fifo := s.fifo.drop n, forwarder := forwarder }
    | _ => none
  | .readNothing => match s.tcp with
    | .reading =>
      if lf ∉ s.forwarder.buf ∧
          (s.forwarder.readSize = 0 ∨ s.fifo.buffer = [] ∧ s.fifo.writeEnd = false) then
        some { s with tcp := .hungUp }
      else none
    | _ => none
  | .closeTcp => match s.tcp with
    | .hungUp => some s.closeTcp
    | _ => none
  | .stopTcp => match s.tcp with
    | .closed => none
    | _ => some { s.closeTcp with
        forwarder := ⟨[], ⟨false, s.forwarder.tcp.connection + 1⟩, s.forwarder.attempts⟩ }
  | .forward outcome => match s.tcp with
    | .reading => (forwarderStep s.forwarder (.forward outcome)).map fun forwarder =>
        { s with forwarder := forwarder }
    | _ => none

section Cases

variable {s s' : PipeRun} {buf : Bytes} {n : ℕ} {outcome : Outcome}

/-- `bbg_i2c` is started when it does not run; it waits for a reader unless there is one. -/
lemma pipeStep_startI2c : pipeStep s .startI2c = some s' ↔ s.i2c = .stopped ∧
    s' = { s with
      fifo := s.fifo.openWrite
      i2c := .opening s.fifo.readEnd
      tcp := s.tcp.meet } := by
  cases h : s.i2c <;> simp [pipeStep, h, @eq_comm _ s']

/-- Its `open` returns once there has been a reader. -/
lemma pipeStep_i2cOpened : pipeStep s .i2cOpened = some s' ↔
    s.i2c = .opening true ∧ s' = { s with i2c := .running } := by
  rcases h : s.i2c with _ | ⟨_ | _⟩ | _ <;> simp [pipeStep, h, @eq_comm _ s']

/-- A pass writes what the bytes read are printed as; without a reader the write kills the process.
-/
lemma pipeStep_i2cPass (hs : pipeStep s (.i2cPass buf) = some s') : s.i2c = .running ∧
    (i2cForward buf = none ∧ s' = s ∨
      ∃ text, i2cForward buf = some text ∧
        ((∃ h : s.fifo.readEnd = true, s' = { s with
            fifo := s.fifo.write text h
            written := s.written ++ (cutLines text).1 }) ∨
          s.fifo.readEnd = false ∧ s' = { s.endI2c with killed := s.killed + 1 })) := by
  cases h : s.i2c <;> simp only [pipeStep, h, reduceCtorEq] at hs
  refine ⟨rfl, ?_⟩
  cases htext : i2cForward buf with
  | none =>
    simp only [htext, Option.some.injEq] at hs
    exact .inl ⟨rfl, hs.symm⟩
  | some text =>
    simp only [htext] at hs
    refine .inr ⟨text, rfl, ?_⟩
    split_ifs at hs with hread
    · exact .inl ⟨hread, (Option.some.inj hs).symm⟩
    · exact .inr ⟨by simpa using hread, (Option.some.inj hs).symm⟩

/-- It may end wherever it is. -/
lemma pipeStep_stopI2c : pipeStep s .stopI2c = some s' ↔ s.i2c ≠ .stopped ∧ s' = s.endI2c := by
  cases h : s.i2c <;> simp [pipeStep, h, @eq_comm _ s']

/-- `bbg_tcp` opens the pipe when it is closed, and waits for a writer unless there is one. -/
lemma pipeStep_openTcp : pipeStep s .openTcp = some s' ↔ s.tcp = .closed ∧
    s' = { s with
      fifo := s.fifo.openRead
      i2c := s.i2c.meet
      tcp := .opening s.fifo.writeEnd } := by
  cases h : s.tcp <;> simp [pipeStep, h, @eq_comm _ s']

/-- Its `open` returns once there has been a writer. -/
lemma pipeStep_tcpOpened : pipeStep s .tcpOpened = some s' ↔ s.tcp = .opening true ∧
    ∃ forwarder, forwarderStep s.forwarder .pipeClosed = some forwarder ∧
      s' = { s with tcp := .reading, forwarder := forwarder } := by
  rcases h : s.tcp with _ | ⟨_ | _⟩ | _ | _ <;> simp [pipeStep, h, @eq_comm _ s']

/-- It reads from the pipe in its main loop. -/
lemma pipeStep_read : pipeStep s (.read n) = some s' ↔ s.tcp = .reading ∧
    ∃ forwarder, forwarderStep s.forwarder (.read (s.fifo.buffer.take n)) = some forwarder ∧
      s' = { s with fifo := s.fifo.drop n, forwarder := forwarder } := by
  cases h : s.tcp <;> simp [pipeStep, h, @eq_comm _ s']

/-- `read` returns 0 when there is no space left, or at an empty pipe without writer. -/
lemma pipeStep_readNothing : pipeStep s .readNothing = some s' ↔ s.tcp = .reading ∧
    lf ∉ s.forwarder.buf ∧
      (s.forwarder.readSize = 0 ∨ s.fifo.buffer = [] ∧ s.fifo.writeEnd = false) ∧
      s' = { s with tcp := .hungUp } := by
  cases h : s.tcp <;> simp [pipeStep, h, @eq_comm _ s', and_assoc]

/-- Then the pipe is closed. -/
lemma pipeStep_closeTcp : pipeStep s .closeTcp = some s' ↔
    s.tcp = .hungUp ∧ s' = s.closeTcp := by
  cases h : s.tcp <;> simp [pipeStep, h, @eq_comm _ s']

/-- `bbg_tcp` may end wherever it has the pipe open. -/
lemma pipeStep_stopTcp : pipeStep s .stopTcp = some s' ↔ s.tcp ≠ .closed ∧
    s' = { s.closeTcp with
      forwarder := ⟨[], ⟨false, s.forwarder.tcp.connection + 1⟩, s.forwarder.attempts⟩ } := by
  cases h : s.tcp <;> simp [pipeStep, h, @eq_comm _ s']

/-- In its main loop it forwards the lines that it has. -/
lemma pipeStep_forward : pipeStep s (.forward outcome) = some s' ↔ s.tcp = .reading ∧
    ∃ forwarder, forwarderStep s.forwarder (.forward outcome) = some forwarder ∧
      s' = { s with forwarder := forwarder } := by
  cases h : s.tcp <;> simp [pipeStep, h, @eq_comm _ s']

end Cases

/-! ## What has become of the lines -/

/-- A line that `bbg_i2c` writes: no NUL, no newline, and short. -/
structure PipeLine (line : Bytes) : Prop where
  lf_notMem : lf ∉ line
  zero_notMem : (0 : UInt8) ∉ line
  length_le : line.length ≤ 48

/-- The end of such a line is one too. -/
lemma PipeLine.of_suffix {line line' : Bytes} (h : PipeLine line) (hs : line' <:+ line) :
    PipeLine line' :=
  ⟨fun hmem => h.lf_notMem (hs.mem hmem), fun hmem => h.zero_notMem (hs.mem hmem),
    hs.length_le.trans h.length_le⟩

/-- The ends of such lines are such lines. -/
lemma pipeLines_of_suffixes {rest rest' : List Bytes} (hs : List.Forall₂ (· <:+ ·) rest' rest)
    (h : ∀ line ∈ rest, PipeLine line) : ∀ line ∈ rest', PipeLine line := by
  induction hs with
  | nil => exact h
  | cons hs _ ih =>
    rw [List.forall_mem_cons] at h ⊢
    exact ⟨h.1.of_suffix hs, ih h.2⟩

/-- What is written for a buffer read from the bus is made of complete lines. -/
lemma pipeLines_of_i2cForward {buf text : Bytes} (h : i2cForward buf = some text) :
    (cutLines text).2 = [] ∧ ∀ line ∈ (cutLines text).1, PipeLine line := by
  obtain ⟨hlen, htype, rfl⟩ := i2cForward_eq_some_iff.mp h
  have hrest : (cutLines (wireText (readFrame buf hlen))).2 = [] := by
    rw [wireText_eq, cutLines_append, cutLines_line (notMem_cutLines_rest _)]
    rfl
  have hunlines := unlines_cutLines (wireText (readFrame buf hlen))
  rw [hrest, List.append_nil] at hunlines
  refine ⟨hrest, fun line hline => ⟨notMem_of_mem_cutLines hline, fun h0 => ?_, ?_⟩⟩
  · exact zero_notMem_wireText htype (mem_of_mem_cutLines hline h0)
  · have hle := length_wireText_le (readFrame buf hlen)
    have hmem : line ++ [lf] ∈ (cutLines (wireText (readFrame buf hlen))).1.map (· ++ [lf]) := by
      exact List.mem_map_of_mem hline
    have hsub := (List.sublist_flatten_of_mem hmem).length_le
    rw [← unlines, hunlines] at hsub
    simp only [List.length_append, List.length_singleton] at hsub
    omega

/-- **The invariant of the pipe**: what is on the way is made of complete lines. -/
structure PipeInv (s : PipeRun) : Prop where
  readEnd : s.fifo.readEnd = true ↔ s.tcp ≠ .closed
  writeEnd : s.fifo.writeEnd = true ↔ s.i2c ≠ .stopped
  seen : ∀ line ∈ s.seen, PipeLine line
  rest_eq_nil : (cutLines (s.forwarder.buf ++ s.fifo.buffer)).2 = []
  buf_eq_nil : s.tcp ≠ .reading → s.forwarder.buf = []

/-- What a step does to the lines. -/
inductive LineStep (e : PipeEvent) (s s' : PipeRun) : Prop
  /-- They stay. -/
  | same (hseen : s'.seen = s.seen) (hwritten : s'.written = s.written) (hlost : s'.lost = s.lost)
  /-- Lines are written. -/
  | write (buf text : Bytes) (he : e = .i2cPass buf) (htext : i2cForward buf = some text)
      (hseen : s'.seen = s.seen ++ (cutLines text).1)
      (hwritten : s'.written = s.written ++ (cutLines text).1) (hlost : s'.lost = s.lost)
  /-- The lines in the pipe are discarded. -/
  | discard (lines : List Bytes) (hseen : s.seen = s'.seen ++ lines)
      (hwritten : s'.written = s.written) (hlost : s'.lost = s.lost ++ lines)
  /-- The lines in the buffer are gone, and perhaps the beginning of the next one. -/
  | tear (he : e = .stopTcp) (gone rest rest' : List Bytes)
      (hseen : s.seen = s.lines ++ (gone ++ rest)) (hseen' : s'.seen = s.lines ++ rest')
      (hrest : List.Forall₂ (· <:+ ·) rest' rest)
      (hwritten : s'.written = s.written)

namespace PipeInv

variable {s s' : PipeRun} {e : PipeEvent}

/-- The invariant holds at the start. -/
lemma init : PipeInv .init where
  readEnd := by simp [PipeRun.init, Fifo.closed]
  writeEnd := by simp [PipeRun.init, Fifo.closed]
  seen := by simp [PipeRun.init, PipeRun.seen, PipeRun.lines, Forwarder.init, Fifo.closed, cutLines]
  rest_eq_nil := by simp [PipeRun.init, Forwarder.init, Fifo.closed, cutLines]
  buf_eq_nil _ := rfl

/-- There is always room for another byte when `bbg_tcp` reads. -/
lemma readSize_pos (h : PipeInv s) (hlf : lf ∉ s.forwarder.buf) : 0 < s.forwarder.readSize := by
  have hcut : (cutLines s.forwarder.buf).2 = s.forwarder.buf := by rw [cutLines_of_notMem hlf]
  have hlen : s.forwarder.buf.length ≤ 48 := by
    rcases cutLines_rest_isPrefix s.forwarder.buf s.fifo.buffer with ⟨line, hline, hpre⟩ | hpre
    · rw [hcut] at hpre
      exact hpre.length_le.trans (h.seen line (List.mem_append_right _ hline)).length_le
    · rw [h.rest_eq_nil, hcut] at hpre
      simp [List.prefix_nil.mp hpre]
  simp only [Forwarder.readSize, pipeBufSize]
  omega

/-- Nothing is left of a line in the buffer when the pipe is empty. -/
lemma buf_eq_nil_of_empty (h : PipeInv s) (hlf : lf ∉ s.forwarder.buf)
    (hempty : s.fifo.buffer = []) : s.forwarder.buf = [] := by
  have hrest := h.rest_eq_nil
  rwa [hempty, List.append_nil, cutLines_of_notMem hlf] at hrest

/-- The bytes on the way are no NUL. -/
lemma zero_notMem (h : PipeInv s) : (0 : UInt8) ∉ s.forwarder.buf ++ s.fifo.buffer := by
  rw [← unlines_cutLines (s.forwarder.buf ++ s.fifo.buffer), h.rest_eq_nil, List.append_nil]
  intro hmem
  obtain ⟨line, hline, h0⟩ := List.mem_flatten.mp hmem
  obtain ⟨l, hl, rfl⟩ := List.mem_map.mp hline
  rcases List.mem_append.mp h0 with h0 | h0
  · exact (h.seen l (List.mem_append_right _ hl)).zero_notMem h0
  · revert h0
    decide

/-- While the buffer is empty, the lines in the pipe are those on the way. -/
lemma seen_of_buf (h : s.forwarder.buf = []) : s.seen = s.lines ++ (cutLines s.fifo.buffer).1 := by
  rw [PipeRun.seen, h, List.nil_append]

/-- A step that leaves the bytes on the way alone. -/
lemma same (h : PipeInv s) (hread : s'.fifo.readEnd = true ↔ s'.tcp ≠ .closed)
    (hwrite : s'.fifo.writeEnd = true ↔ s'.i2c ≠ .stopped)
    (hbytes : s'.forwarder.buf ++ s'.fifo.buffer = s.forwarder.buf ++ s.fifo.buffer)
    (hlines : s'.lines = s.lines) (hbuf : s'.tcp ≠ .reading → s'.forwarder.buf = [])
    (hwritten : s'.written = s.written) (hlost : s'.lost = s.lost) :
    PipeInv s' ∧ LineStep e s s' := by
  have hseen : s'.seen = s.seen := by rw [PipeRun.seen, PipeRun.seen, hbytes, hlines]
  exact ⟨⟨hread, hwrite, hseen ▸ h.seen, hbytes ▸ h.rest_eq_nil, hbuf⟩, .same hseen hwritten hlost⟩

/-- The end of `bbg_i2c`. -/
lemma endI2c (h : PipeInv s) (killed : ℕ) : PipeInv { s.endI2c with killed := killed } ∧
    LineStep e s { s.endI2c with killed := killed } := by
  by_cases hread : s.fifo.readEnd = true
  · refine h.same h.readEnd ?_ ?_ rfl h.buf_eq_nil rfl ?_ <;>
      simp [PipeRun.endI2c, Fifo.closeWrite, hread]
  · have hclosed : s.tcp = .closed := by
      by_contra hne
      exact hread (h.readEnd.mpr hne)
    have hbuf := h.buf_eq_nil (by simp [hclosed])
    have hseen : { s.endI2c with killed := killed }.seen = s.lines := by
      simp [PipeRun.seen, PipeRun.lines, PipeRun.endI2c, Fifo.closeWrite, hread, hbuf, cutLines]
    refine ⟨⟨h.readEnd, by simp [PipeRun.endI2c, Fifo.closeWrite], ?_, ?_, h.buf_eq_nil⟩, ?_⟩
    · rw [hseen]
      exact fun line hline => h.seen line (List.mem_append_left _ hline)
    · simp [PipeRun.endI2c, Fifo.closeWrite, hread, hbuf, cutLines]
    · refine .discard (cutLines s.fifo.buffer).1 ?_ rfl (by simp [PipeRun.endI2c, hread])
      rw [hseen, seen_of_buf hbuf]

/-- The pipe is closed by `bbg_tcp` when there is nothing in its buffer. -/
lemma closeTcp (h : PipeInv s) (hbuf : s.forwarder.buf = []) :
    PipeInv s.closeTcp ∧ LineStep e s s.closeTcp := by
  by_cases hwrite : s.fifo.writeEnd = true
  · refine h.same (by simp [PipeRun.closeTcp, Fifo.closeRead]) h.writeEnd ?_ rfl (fun _ => hbuf) rfl
      ?_ <;> simp [PipeRun.closeTcp, Fifo.closeRead, hwrite]
  · have hseen : s.closeTcp.seen = s.lines := by
      simp [PipeRun.seen, PipeRun.lines, PipeRun.closeTcp, Fifo.closeRead, hwrite, hbuf, cutLines]
    refine ⟨⟨by simp [PipeRun.closeTcp, Fifo.closeRead], h.writeEnd, ?_, ?_, fun _ => hbuf⟩, ?_⟩
    · rw [hseen]
      exact fun line hline => h.seen line (List.mem_append_left _ hline)
    · simp [PipeRun.closeTcp, Fifo.closeRead, hwrite, hbuf, cutLines]
    · refine .discard (cutLines s.fifo.buffer).1 ?_ rfl (by simp [PipeRun.closeTcp, hwrite])
      rw [hseen, seen_of_buf hbuf]

/-- The end of `bbg_tcp`, with what is in its buffer. -/
lemma stopTcp (h : PipeInv s) (client : TcpClient) :
    PipeInv { s.closeTcp with forwarder := ⟨[], client, s.forwarder.attempts⟩ } ∧
      LineStep .stopTcp s { s.closeTcp with forwarder := ⟨[], client, s.forwarder.attempts⟩ } := by
  have hcut := cutLines_append s.forwarder.buf s.fifo.buffer
  have hrest := h.rest_eq_nil
  rw [hcut] at hrest
  obtain ⟨hnil, hsuffix⟩ := forall₂_suffix_cutLines (notMem_cutLines_rest _) hrest
  have hseen : s.seen = s.lines ++ ((cutLines s.forwarder.buf).1 ++
      (cutLines ((cutLines s.forwarder.buf).2 ++ s.fifo.buffer)).1) := by
    rw [PipeRun.seen, hcut]
  have htear : ∃ gone rest rest', s.seen = s.lines ++ (gone ++ rest) ∧
      List.Forall₂ (· <:+ ·) rest' rest ∧ cutLines s.closeTcp.fifo.buffer = (rest', []) := by
    by_cases hwrite : s.fifo.writeEnd = true
    · refine ⟨_, _, _, hseen, hsuffix, ?_⟩
      simp only [PipeRun.closeTcp, Fifo.closeRead, hwrite, if_true]
      rw [← hnil]
    · refine ⟨_, [], [], by rw [List.append_nil]; exact hseen, .nil, ?_⟩
      simp [PipeRun.closeTcp, Fifo.closeRead, hwrite, cutLines]
  obtain ⟨gone, rest, rest', hseen, hsuffix, hfifo⟩ := htear
  have hseen' : { s.closeTcp with forwarder := ⟨[], client, s.forwarder.attempts⟩ }.seen =
      s.lines ++ rest' := by
    rw [PipeRun.seen, List.nil_append, hfifo]
    rfl
  have hlines : ∀ line ∈ s.lines ++ (gone ++ rest), PipeLine line := hseen ▸ h.seen
  refine ⟨⟨by simp [PipeRun.closeTcp, Fifo.closeRead], h.writeEnd, ?_, ?_, fun _ => rfl⟩,
    .tear rfl gone rest rest' hseen hseen' hsuffix rfl⟩
  · rw [hseen']
    obtain ⟨hold, hnew⟩ := List.forall_mem_append.mp hlines
    exact List.forall_mem_append.mpr
      ⟨hold, pipeLines_of_suffixes hsuffix (List.forall_mem_append.mp hnew).2⟩
  · rw [List.nil_append, hfifo]

/-- **What a step can do**: it keeps the invariant, and does one of four things to the lines. -/
lemma step (h : PipeInv s) (hs : pipeStep s e = some s') : PipeInv s' ∧ LineStep e s s' := by
  cases e with
  | startI2c =>
    obtain ⟨-, rfl⟩ := pipeStep_startI2c.mp hs
    exact h.same (by simpa [Fifo.openWrite] using h.readEnd) (by simp [Fifo.openWrite]) rfl rfl
      (by simpa using h.buf_eq_nil) rfl rfl
  | i2cOpened =>
    obtain ⟨hpc, rfl⟩ := pipeStep_i2cOpened.mp hs
    exact h.same h.readEnd (by simpa [hpc] using h.writeEnd) rfl rfl h.buf_eq_nil rfl rfl
  | i2cPass buf =>
    obtain ⟨-, ⟨-, rfl⟩ | ⟨text, htext, ⟨hread, rfl⟩ | ⟨-, rfl⟩⟩⟩ := pipeStep_i2cPass hs
    · exact ⟨h, .same rfl rfl rfl⟩
    · obtain ⟨hnil, hlines⟩ := pipeLines_of_i2cForward htext
      have hcut : cutLines (s.forwarder.buf ++ (s.fifo.buffer ++ text)) =
          ((cutLines (s.forwarder.buf ++ s.fifo.buffer)).1 ++ (cutLines text).1, []) := by
        rw [← List.append_assoc, cutLines_append, h.rest_eq_nil, List.nil_append, hnil]
      have hseen : PipeRun.seen { s with
          fifo := s.fifo.write text hread
          written := s.written ++ (cutLines text).1 } = s.seen ++ (cutLines text).1 := by
        simp only [PipeRun.seen, Fifo.write, hcut, List.append_assoc]
        rfl
      refine ⟨⟨h.readEnd, h.writeEnd, ?_, congrArg Prod.snd hcut, h.buf_eq_nil⟩,
        .write buf text rfl htext hseen rfl rfl⟩
      rw [hseen]
      exact List.forall_mem_append.mpr ⟨h.seen, hlines⟩
    · exact h.endI2c _
  | stopI2c =>
    obtain ⟨-, rfl⟩ := pipeStep_stopI2c.mp hs
    exact h.endI2c _
  | openTcp =>
    obtain ⟨hpc, rfl⟩ := pipeStep_openTcp.mp hs
    exact h.same (by simp [Fifo.openRead]) (by simpa [Fifo.openRead] using h.writeEnd) rfl rfl
      (fun _ => h.buf_eq_nil (by simp [hpc])) rfl rfl
  | tcpOpened =>
    obtain ⟨hpc, forwarder, hfwd, rfl⟩ := pipeStep_tcpOpened.mp hs
    obtain ⟨-, rfl⟩ := forwarderStep_pipeClosed.mp hfwd
    have hbuf := h.buf_eq_nil (by simp [hpc])
    exact h.same (by simpa [hpc] using h.readEnd) h.writeEnd (by rw [hbuf]) rfl
      (fun hne => absurd rfl hne) rfl rfl
  | read n =>
    obtain ⟨hpc, forwarder, hfwd, rfl⟩ := pipeStep_read.mp hs
    obtain ⟨-, rfl⟩ := forwarderStep_read.mp hfwd
    have h0 : (0 : UInt8) ∉ s.forwarder.buf ++ s.fifo.buffer.take n := by
      intro hmem
      have hpre : s.forwarder.buf ++ s.fifo.buffer.take n <+: s.forwarder.buf ++ s.fifo.buffer :=
        List.prefix_append_right_inj _ |>.mpr (List.take_prefix _ _)
      exact h.zero_notMem (hpre.mem hmem)
    exact h.same h.readEnd h.writeEnd (by simp [Fifo.drop, cstr_eq_self h0]) rfl
      (fun hne => absurd hpc hne) rfl rfl
  | readNothing =>
    obtain ⟨hpc, hlf, hnothing, rfl⟩ := pipeStep_readNothing.mp hs
    have hempty := (hnothing.resolve_left (h.readSize_pos hlf).ne').1
    exact h.same (by simpa [hpc] using h.readEnd) h.writeEnd rfl rfl
      (fun _ => h.buf_eq_nil_of_empty hlf hempty) rfl rfl
  | closeTcp =>
    obtain ⟨hpc, rfl⟩ := pipeStep_closeTcp.mp hs
    exact h.closeTcp (h.buf_eq_nil (by simp [hpc]))
  | stopTcp =>
    obtain ⟨-, rfl⟩ := pipeStep_stopTcp.mp hs
    exact h.stopTcp _
  | forward outcome =>
    obtain ⟨hpc, forwarder, hfwd, rfl⟩ := pipeStep_forward.mp hs
    obtain ⟨line, rest, res, tcp, sent, hcut, -, rfl⟩ := forwarderStep_forward.mp hfwd
    obtain ⟨hbuf, hline⟩ := cutAt_eq_some_iff.mp hcut
    have hcut : cutLines (s.forwarder.buf ++ s.fifo.buffer) =
        (line :: (cutLines (rest ++ s.fifo.buffer)).1, (cutLines (rest ++ s.fifo.buffer)).2) := by
      rw [hbuf, List.append_assoc, List.cons_append, cutLines_line hline]
    have hseen : (s.lines ++ [line]) ++ (cutLines (rest ++ s.fifo.buffer)).1 = s.seen := by
      rw [PipeRun.seen, hcut, List.append_assoc, List.singleton_append]
    have hlines : PipeRun.lines { s with
        forwarder := ⟨rest, tcp, s.forwarder.attempts ++ [⟨line, outcome, sent⟩]⟩ } =
          s.lines ++ [line] := by
      simp [PipeRun.lines]
    have hseen' : PipeRun.seen { s with
        forwarder := ⟨rest, tcp, s.forwarder.attempts ++ [⟨line, outcome, sent⟩]⟩ } = s.seen := by
      rw [PipeRun.seen, hlines]
      exact hseen
    refine ⟨⟨h.readEnd, h.writeEnd, hseen' ▸ h.seen, ?_, fun hne => absurd hpc hne⟩,
      .same hseen' rfl rfl⟩
    rw [← h.rest_eq_nil, hcut]

end PipeInv

/-! ## Whole lines -/

/-- `bbg_tcp` is not stopped. -/
def TcpStays (_ : PipeRun) (e : PipeEvent) : Prop := e ≠ .stopTcp

instance (s : PipeRun) (e : PipeEvent) : Decidable (TcpStays s e) :=
  inferInstanceAs (Decidable (e ≠ .stopTcp))

/-- What holds as long as `bbg_tcp` runs: a line that is not discarded is seen by `bbg_tcp`. -/
structure Accounted (s : PipeRun) : Prop where
  inv : PipeInv s
  sublist : s.seen.Sublist s.written
  perm : s.written.Perm (s.seen ++ s.lost)

/-- Every step keeps this. -/
lemma Accounted.step {s s' : PipeRun} {e : PipeEvent} (h : Accounted s) (hok : TcpStays s e)
    (hs : pipeStep s e = some s') : Accounted s' := by
  obtain ⟨hinv, hlines⟩ := h.inv.step hs
  refine ⟨hinv, ?_, ?_⟩
  · cases hlines with
    | same hseen hwritten hlost =>
      rw [hseen, hwritten]
      exact h.sublist
    | write buf text he htext hseen hwritten hlost =>
      rw [hseen, hwritten]
      exact h.sublist.append (.refl _)
    | discard lines hseen hwritten hlost =>
      rw [hwritten]
      exact ((List.sublist_append_left _ _).trans (by rw [hseen])).trans h.sublist
    | tear he => exact absurd he hok
  · cases hlines with
    | same hseen hwritten hlost =>
      rw [hseen, hwritten, hlost]
      exact h.perm
    | write buf text he htext hseen hwritten hlost =>
      rw [hseen, hwritten, hlost, List.append_assoc]
      refine (h.perm.append_right _).trans ?_
      rw [List.append_assoc]
      exact List.perm_append_comm.append_left _
    | discard lines hseen hwritten hlost =>
      rw [hwritten, hlost]
      refine h.perm.trans ?_
      rw [hseen, List.append_assoc]
      exact List.perm_append_comm.append_left _
    | tear he => exact absurd he hok

/-- It holds at the start. -/
lemma Accounted.init : Accounted .init where
  inv := .init
  sublist := by
    simp [PipeRun.init, PipeRun.seen, PipeRun.lines, Forwarder.init, Fifo.closed, cutLines]
  perm := by
    simp [PipeRun.init, PipeRun.seen, PipeRun.lines, Forwarder.init, Fifo.closed, cutLines]

/-- **What becomes of the lines of the pipe**, while `bbg_tcp` runs.  However often and whenever
`bbg_i2c` is started, stopped or killed: the lines written are the lines discarded and the lines
that `bbg_tcp` sees, in their order; of these the first are forwarded, each once, and they are all
of them when `bbg_tcp` waits at an empty pipe. -/
theorem pipe_lines_accounted {es : List PipeEvent} {s : PipeRun}
    (h : Trace pipeStep TcpStays .init es s) :
    s.seen.Sublist s.written ∧ s.written.Perm (s.seen ++ s.lost) ∧ s.lines <+: s.seen ∧
      (lf ∉ s.forwarder.buf → s.fifo.buffer = [] → s.lines = s.seen) := by
  have hinv : Accounted s := h.invariant .init fun _ _ _ hs hok hstep => hs.step hok hstep
  refine ⟨hinv.sublist, hinv.perm, List.prefix_append _ _, fun hlf hempty => ?_⟩
  rw [PipeRun.seen, hempty, hinv.inv.buf_eq_nil_of_empty hlf hempty]
  simp [cutLines]

/-- A start frame is forwarded, and an end frame is lost by a writer that comes too early. -/
theorem pipe_lines_accounted_two :
    ∃ s : PipeRun, s.written.length = 2 ∧ s.lines = s.written.take 1 ∧ s.lost = s.written.drop 1 ∧
      s.seen.Sublist s.written ∧ s.written.Perm (s.seen ++ s.lost) ∧ s.lines <+: s.seen ∧
        (lf ∉ s.forwarder.buf → s.fifo.buffer = [] → s.lines = s.seen) := by
  have hrun : ((replayEvents pipeStep TcpStays .init
      [.openTcp, .startI2c, .i2cOpened, .tcpOpened,
        .i2cPass (buildFrame gVehicles 0 .msgStart).bytes, .read 10, .read 200,
        .forward (.accepts 10), .stopI2c, .readNothing, .startI2c, .i2cOpened,
        .i2cPass (buildFrame gVehicles 0 .msgEnd).bytes, .closeTcp, .stopI2c]).any fun s =>
      decide (s.written.length = 2 ∧ s.lines = s.written.take 1 ∧ s.lost = s.written.drop 1)) =
      true := by decide +kernel
  obtain ⟨s, hs, hend⟩ := (Option.any_eq_true _ _).mp hrun
  obtain ⟨hwritten, hlines, hlost⟩ := of_decide_eq_true hend
  exact ⟨s, hwritten, hlines, hlost, pipe_lines_accounted (.of_replayEvents hs)⟩

/-! ## When nothing is lost -/

/-- `bbg_tcp` is not stopped, and `bbg_i2c` is not started between the read that finds the pipe
empty and the close that follows. -/
def StartsInTurn (s : PipeRun) (e : PipeEvent) : Prop :=
  TcpStays s e ∧ (e = .startI2c → s.tcp ≠ .hungUp)

/-- What holds as long as `bbg_i2c` is started in turn: nobody writes while the pipe is being closed
or is closed. -/
structure PipeLosesNothing (s : PipeRun) : Prop where
  accounted : Accounted s
  lost_eq_nil : s.lost = []
  killed_eq_zero : s.killed = 0
  hungUp : s.tcp = .hungUp → s.i2c = .stopped
  closed : s.tcp = .closed → s.i2c = .stopped ∨ s.i2c = .opening false
  empty : s.tcp = .hungUp ∨ s.tcp = .closed → s.fifo.buffer = []

namespace PipeLosesNothing

variable {s s' : PipeRun} {e : PipeEvent}

/-- A process `bbg_i2c` that runs has a reader. -/
lemma reads_of_running (h : PipeLosesNothing s) (hpc : s.i2c = .running ∨ s.i2c = .opening true) :
    s.tcp ≠ .hungUp ∧ s.tcp ≠ .closed := by
  constructor <;> intro htcp
  · rcases hpc with hpc | hpc <;> simpa [hpc] using h.hungUp htcp
  · rcases hpc with hpc | hpc <;> simpa [hpc] using h.closed htcp

/-- Every step keeps this. -/
lemma step (h : PipeLosesNothing s) (hok : StartsInTurn s e) (hs : pipeStep s e = some s') :
    PipeLosesNothing s' := by
  have hacc := h.accounted.step hok.1 hs
  have hinv := h.accounted.inv
  cases e with
  | startI2c =>
    obtain ⟨-, rfl⟩ := pipeStep_startI2c.mp hs
    have hne : s.tcp.meet ≠ .hungUp := by
      have := hok.2 rfl
      cases hpc : s.tcp <;> simp_all [TcpPc.meet]
    refine ⟨hacc, h.lost_eq_nil, h.killed_eq_zero, fun hpc => absurd hpc hne, fun hpc => ?_, ?_⟩
    · have hread : s.fifo.readEnd = false := by
        simpa [TcpPc.meet_eq_closed_iff.mp hpc] using hinv.readEnd
      exact .inr (by rw [hread])
    · rintro (hpc | hpc)
      · exact absurd hpc hne
      · exact h.empty (.inr (TcpPc.meet_eq_closed_iff.mp hpc))
  | i2cOpened =>
    obtain ⟨hpc, rfl⟩ := pipeStep_i2cOpened.mp hs
    obtain ⟨hhungUp, hclosed⟩ := h.reads_of_running (.inr hpc)
    exact ⟨hacc, h.lost_eq_nil, h.killed_eq_zero, fun htcp => absurd htcp hhungUp,
      fun htcp => absurd htcp hclosed, h.empty⟩
  | i2cPass buf =>
    obtain ⟨hpc, hcases⟩ := pipeStep_i2cPass hs
    obtain ⟨hhungUp, hclosed⟩ := h.reads_of_running (.inl hpc)
    obtain ⟨-, rfl⟩ | ⟨text, htext, ⟨hread, rfl⟩ | ⟨hread, rfl⟩⟩ := hcases
    · exact h
    · exact ⟨hacc, h.lost_eq_nil, h.killed_eq_zero, fun htcp => absurd htcp hhungUp,
        fun htcp => absurd htcp hclosed, fun htcp => (htcp.elim hhungUp hclosed).elim⟩
    · -- the pipe has a reader
      rw [hinv.readEnd.mpr hclosed] at hread
      cases hread
  | stopI2c =>
    obtain ⟨-, rfl⟩ := pipeStep_stopI2c.mp hs
    refine ⟨hacc, ?_, h.killed_eq_zero, fun _ => rfl, fun _ => .inl rfl, fun hpc => ?_⟩
    · by_cases hread : s.fifo.readEnd = true
      · simp [PipeRun.endI2c, hread, h.lost_eq_nil]
      · have hclosed : s.tcp = .closed := by
          by_contra hne
          exact hread (hinv.readEnd.mpr hne)
        simp [PipeRun.endI2c, hread, h.lost_eq_nil, h.empty (.inr hclosed), cutLines]
    · simp [PipeRun.endI2c, Fifo.closeWrite, h.empty hpc]
  | openTcp =>
    obtain ⟨-, rfl⟩ := pipeStep_openTcp.mp hs
    exact ⟨hacc, h.lost_eq_nil, h.killed_eq_zero, by simp, by simp, by simp⟩
  | tcpOpened =>
    obtain ⟨-, forwarder, -, rfl⟩ := pipeStep_tcpOpened.mp hs
    exact ⟨hacc, h.lost_eq_nil, h.killed_eq_zero, by simp, by simp, by simp⟩
  | read n =>
    obtain ⟨hpc, forwarder, -, rfl⟩ := pipeStep_read.mp hs
    exact ⟨hacc, h.lost_eq_nil, h.killed_eq_zero, h.hungUp, h.closed, by simp [hpc]⟩
  | readNothing =>
    obtain ⟨-, hlf, hnothing, rfl⟩ := pipeStep_readNothing.mp hs
    obtain ⟨hempty, hwrite⟩ := hnothing.resolve_left (hinv.readSize_pos hlf).ne'
    have hstopped : s.i2c = .stopped := by simpa [hwrite] using hinv.writeEnd
    exact ⟨hacc, h.lost_eq_nil, h.killed_eq_zero, fun _ => hstopped, by simp, fun _ => hempty⟩
  | closeTcp =>
    obtain ⟨hpc, rfl⟩ := pipeStep_closeTcp.mp hs
    have hempty := h.empty (.inl hpc)
    refine ⟨hacc, ?_, h.killed_eq_zero, by simp [PipeRun.closeTcp],
      fun _ => .inl (h.hungUp hpc), fun _ => ?_⟩
    · simp [PipeRun.closeTcp, h.lost_eq_nil, hempty, cutLines]
    · simp [PipeRun.closeTcp, Fifo.closeRead, hempty]
  | stopTcp => exact absurd rfl hok.1
  | forward outcome =>
    obtain ⟨hpc, forwarder, -, rfl⟩ := pipeStep_forward.mp hs
    exact ⟨hacc, h.lost_eq_nil, h.killed_eq_zero, h.hungUp, h.closed, by simp [hpc]⟩

end PipeLosesNothing

/-- The run in which `bbg_i2c` is started again before `bbg_tcp` closes the pipe, writes, and ends
after the pipe is closed. -/
def startBetween (buf : Bytes) : List PipeEvent :=
  [.openTcp, .startI2c, .i2cOpened, .tcpOpened, .stopI2c, .readNothing, .startI2c, .i2cOpened,
    .i2cPass buf, .closeTcp, .stopI2c]

/-- **When no line of the pipe is lost.**  As long as `bbg_tcp` runs and `bbg_i2c` is not started
between the read that finds the pipe empty and the close that follows, no line is discarded, no
write kills `bbg_i2c`, and the lines forwarded are the first lines written.  If it is started just
then, whatever it writes may be lost. -/
theorem pipe_restarts :
    (∀ es s, Trace pipeStep StartsInTurn .init es s →
      s.lost = [] ∧ s.killed = 0 ∧ s.lines <+: s.written) ∧
    ∀ buf text, i2cForward buf = some text → ∃ s, Trace pipeStep TcpStays .init
      (startBetween buf) s ∧ s.written = (cutLines text).1 ∧ s.lost = s.written ∧ s.lines = [] := by
  constructor
  · intro es s h
    have hinv : PipeLosesNothing s := by
      refine h.invariant ⟨.init, rfl, rfl, nofun, fun _ => .inl rfl, fun _ => rfl⟩ ?_
      intro s e s' hs hok hstep
      exact hs.step hok hstep
    have hperm := hinv.accounted.perm
    rw [hinv.lost_eq_nil, List.append_nil] at hperm
    rw [← hinv.accounted.sublist.eq_of_length hperm.length_eq.symm]
    exact ⟨hinv.lost_eq_nil, hinv.killed_eq_zero, List.prefix_append _ _⟩
  · intro buf text htext
    have hrun : replayEvents pipeStep TcpStays .init (startBetween buf) =
        some { PipeRun.init with written := (cutLines text).1, lost := (cutLines text).1 } := by
      simp [replayEvents, startBetween, TcpStays, pipeStep, forwarderStep, htext, PipeRun.init,
        PipeRun.endI2c, PipeRun.closeTcp, Forwarder.init, Forwarder.readSize, TcpPc.meet,
        I2cPc.meet, Fifo.closed, Fifo.openRead, Fifo.openWrite, Fifo.closeRead, Fifo.closeWrite,
        Fifo.write]
    exact ⟨_, .of_replayEvents hrun, rfl, rfl, rfl⟩

/-! ## Ends of lines -/

/-- Ends of some of the lines are ends of lines. -/
lemma sublistForall₂_of_sublist {lines lines' written : List Bytes} (h : lines.Sublist lines')
    (hends : List.SublistForall₂ (· <:+ ·) lines' written) :
    List.SublistForall₂ (· <:+ ·) lines written := by
  have hself : List.SublistForall₂ (· <:+ ·) lines lines' := h.sublistForall₂
  exact Trans.trans hself hends

/-- The lines on the way are ends of lines written, in their order. -/
structure EndsOfLines (s : PipeRun) : Prop where
  inv : PipeInv s
  ends : List.SublistForall₂ (· <:+ ·) s.seen s.written

/-- Every step keeps this. -/
lemma EndsOfLines.step {s s' : PipeRun} {e : PipeEvent} (h : EndsOfLines s)
    (hs : pipeStep s e = some s') : EndsOfLines s' := by
  obtain ⟨hinv, hlines⟩ := h.inv.step hs
  refine ⟨hinv, ?_⟩
  cases hlines with
  | same hseen hwritten hlost =>
    rw [hseen, hwritten]
    exact h.ends
  | write buf text he htext hseen hwritten hlost =>
    obtain ⟨kept, hends, hkept⟩ := List.sublistForall₂_iff.mp h.ends
    rw [hseen, hwritten]
    exact List.sublistForall₂_iff.mpr ⟨kept ++ (cutLines text).1,
      List.rel_append hends (List.forall₂_same.mpr fun l _ => l.suffix_refl),
      hkept.append (.refl _)⟩
  | discard lines hseen hwritten hlost =>
    rw [hwritten]
    exact sublistForall₂_of_sublist (hseen ▸ List.sublist_append_left _ _) h.ends
  | tear he gone rest rest' hseen hseen' hrest hwritten =>
    have hkept : (s.lines ++ rest).Sublist s.seen := by
      rw [hseen]
      exact (List.Sublist.refl _).append (List.sublist_append_right _ _)
    have htorn : List.SublistForall₂ (· <:+ ·) (s.lines ++ rest') (s.lines ++ rest) :=
      List.sublistForall₂_iff.mpr ⟨s.lines ++ rest,
        List.rel_append (List.forall₂_same.mpr fun l _ => l.suffix_refl) hrest, .refl _⟩
    rw [hseen', hwritten]
    exact Trans.trans htorn (sublistForall₂_of_sublist hkept h.ends)

/-- The texts of a frame have no `|`. -/
def GpsFrame.BarFree (f : GpsFrame) : Prop :=
  ∀ text ∈ [f.customerId.str, f.latitude.str, f.longitude.str, f.city.str], bar ∉ text

/-- The text of a frame has three `|` if there is none in its fields. -/
lemma GpsFrame.BarFree.count_bar {f : GpsFrame} (h : f.BarFree)
    (hf : f.type = byteS ∨ f.type = byteE) : (wireText f).count bar = 3 := by
  simp only [GpsFrame.BarFree, List.mem_cons, List.not_mem_nil, or_false, forall_eq_or_imp,
    forall_eq] at h
  obtain ⟨hid, hlat, hlon, hcity⟩ := h
  have hcomma : (comma == bar) = false := by decide
  have hlf : (lf == bar) = false := by decide
  have htype : (f.type == bar) = false := by
    rcases hf with hf | hf <;> rw [hf] <;> decide
  simp [wireText, List.count_append, List.count_cons, hcomma, hlf, htype,
    List.count_eq_zero_of_not_mem hid, List.count_eq_zero_of_not_mem hlat,
    List.count_eq_zero_of_not_mem hlon, List.count_eq_zero_of_not_mem hcity]

/-- A line that the parser accepts begins with a type byte and has three `|`. -/
lemma three_bars_of_parse {stod : Bytes → Option ℚ} {line : Bytes} (hlf : lf ∉ line)
    (h : (parse stod (stripCr line)).isSome) : line.head? ≠ some bar ∧ 3 ≤ line.count bar := by
  have hstrip := stripCr_isPrefix line
  obtain ⟨msg, hmsg⟩ := Option.isSome_iff_exists.mp h
  obtain ⟨type, id, latText, lonText, city, -, -, hline, -⟩ :=
    (parse_eq_some_iff fun hmem => hlf (hstrip.mem hmem)).mp hmsg
  obtain ⟨tail, htail⟩ := hstrip
  rw [← htail, hline]
  constructor
  · cases type <;> simp [MsgType.byte] <;> decide
  · simp only [List.cons_append, List.append_assoc, List.count_append, List.count_cons,
      beq_self_eq_true, if_true]
    omega

/-- **An end of a line of such a frame is not a message**, unless it is the whole line. -/
lemma GpsFrame.BarFree.eq_of_parse {f : GpsFrame} (hf : f.BarFree)
    (htype : f.type = byteS ∨ f.type = byteE) {stod : Bytes → Option ℚ} {line line' : Bytes}
    (hline : line ∈ (cutLines (wireText f)).1) (hs : line' <:+ line)
    (hparse : (parse stod (stripCr line')).isSome) : line' = line := by
  obtain ⟨front, rfl⟩ := hs
  obtain ⟨before, after, htext⟩ := isInfix_of_mem_cutLines hline
  have hlf : lf ∉ line' := fun hmem =>
    notMem_of_mem_cutLines hline (List.mem_append_right _ hmem)
  obtain ⟨hhead, hbars⟩ := three_bars_of_parse hlf hparse
  -- all the separators are in the end, so at most the type byte can stand before it
  have hcount : (before ++ front).count bar = 0 := by
    have hthree := hf.count_bar htype
    rw [← htext] at hthree
    simp only [List.count_append] at hthree ⊢
    omega
  have hfront : before ++ front = [] := by
    cases hbefore : before ++ front with
    | nil => rfl
    | cons b rest =>
      rw [hbefore] at hcount
      have htext' : b :: (rest ++ (line' ++ after)) = wireText f := by
        rw [← htext, ← List.cons_append, ← hbefore]
        simp only [List.append_assoc]
      have hrest := (List.cons.inj htext').2
      cases rest with
      | nil =>
        -- the end would begin with a separator
        cases line' with
        | nil => simp at hbars
        | cons b' line' =>
          obtain ⟨rfl, -⟩ := List.cons.inj hrest
          exact absurd rfl hhead
      | cons b' rest =>
        obtain ⟨rfl, -⟩ := List.cons.inj hrest
        exact absurd (by simp) (List.count_eq_zero.mp hcount)
  rw [(List.append_eq_nil_iff.mp hfront).2, List.nil_append]

/-- A well-formed vehicle whose city has no `|` has such frames. -/
lemma Vehicle.WellFormed.barFree {table : VehicleTable} {idx : ℕ}
    (h : (table.vehicle idx).WellFormed) (hbar : bar ∉ (table.vehicle idx).city) (type : MsgType) :
    (buildFrame table idx type).BarFree := by
  obtain ⟨hid, hlat, hlon, hcity⟩ := h.buildFrame_str type
  simp only [GpsFrame.BarFree, hid, hlat, hlon, hcity, List.mem_cons, List.not_mem_nil, or_false,
    forall_eq_or_imp, forall_eq]
  exact ⟨h.bar_customerId, h.bar_latitude, h.bar_longitude, hbar⟩

/-- The bytes read from the bus in a step. -/
def PipeEvent.bus? : PipeEvent → Option Bytes
  | i2cPass buf => some buf
  | _ => none

/-- Of what is read from the bus, `bbg_i2c` lets only frames without a `|` in their texts
through. -/
def LetsBarFreeThrough (_ : PipeRun) (e : PipeEvent) : Prop :=
  ∀ buf ∈ e.bus?, ∀ h : buf.length = frameSize, (i2cForward buf).isSome → (readFrame buf h).BarFree

/-- The lines written are lines of such frames. -/
structure WroteBarFree (s : PipeRun) : Prop where
  inv : PipeInv s
  written : ∀ line ∈ s.written, ∃ f : GpsFrame, f.BarFree ∧ (f.type = byteS ∨ f.type = byteE) ∧
    line ∈ (cutLines (wireText f)).1

/-- Every step keeps this. -/
lemma WroteBarFree.step {s s' : PipeRun} {e : PipeEvent} (h : WroteBarFree s)
    (hok : LetsBarFreeThrough s e) (hs : pipeStep s e = some s') : WroteBarFree s' := by
  obtain ⟨hinv, hlines⟩ := h.inv.step hs
  refine ⟨hinv, ?_⟩
  cases hlines with
  | same hseen hwritten hlost => exact hwritten ▸ h.written
  | write buf text he htext hseen hwritten hlost =>
    obtain ⟨hlen, htype, rfl⟩ := i2cForward_eq_some_iff.mp htext
    have hbar := hok buf (by simp [he, PipeEvent.bus?]) hlen (by simp [htext])
    rw [hwritten]
    exact List.forall_mem_append.mpr
      ⟨h.written, fun line hline => ⟨readFrame buf hlen, hbar, htype, hline⟩⟩
  | discard lines hseen hwritten hlost => exact hwritten ▸ h.written
  | tear he gone rest rest' hseen hseen' hrest hwritten => exact hwritten ▸ h.written

/-- Of lines that are ends of others, those that pass a test which no proper end passes are
whole. -/
lemma filter_sublist_of_ends {ok : Bytes → Bool} {lines written : List Bytes}
    (h : List.SublistForall₂ (· <:+ ·) lines written)
    (hok : ∀ line ∈ written, ∀ line', line' <:+ line → ok line' → line' = line) :
    (lines.filter ok).Sublist written := by
  induction h with
  | nil => exact List.nil_sublist _
  | @cons line' line lines written hend _ ih =>
    rw [List.forall_mem_cons] at hok
    by_cases htest : ok line' = true
    · rw [List.filter_cons_of_pos htest, hok.1 line' hend htest]
      exact (ih hok.2).cons_cons line
    · rw [List.filter_cons_of_neg htest]
      exact (ih hok.2).cons line
  | @cons_right line lines written _ ih => exact (ih (List.forall_mem_cons.mp hok).2).cons line

/-- **No torn line is taken for a message.**  However often and whenever both processes are started
and stopped, every line forwarded is the end of a line written, in their order.  If `bbg_i2c` lets
only frames without a `|` in their texts through, the lines that the server's parser accepts are
whole lines. -/
theorem accepted_lines_whole (stod : Bytes → Option ℚ) {ok : PipeRun → PipeEvent → Prop}
    {es : List PipeEvent} {s : PipeRun} (h : Trace pipeStep ok .init es s) :
    List.SublistForall₂ (· <:+ ·) s.lines s.written ∧
      ((∀ s e, ok s e → LetsBarFreeThrough s e) →
        (s.lines.filter fun line => (parse stod (stripCr line)).isSome).Sublist s.written) := by
  have hinit : List.SublistForall₂ (· <:+ ·) PipeRun.init.seen PipeRun.init.written := by
    simp [PipeRun.init, PipeRun.seen, PipeRun.lines, Forwarder.init, Fifo.closed, cutLines]
    exact .nil
  have hends : EndsOfLines s := h.invariant ⟨.init, hinit⟩ fun _ _ _ hs _ hstep => hs.step hstep
  have hlines : List.SublistForall₂ (· <:+ ·) s.lines s.written :=
    sublistForall₂_of_sublist (List.sublist_append_left _ _) hends.ends
  refine ⟨hlines, fun hok => filter_sublist_of_ends hlines fun line hline line' hend hparse => ?_⟩
  have hwrote : WroteBarFree s := by
    refine h.invariant ⟨.init, by simp [PipeRun.init]⟩ ?_
    intro s e s' hs he hstep
    exact hs.step (hok s e he) hstep
  obtain ⟨f, hbar, htype, hmem⟩ := hwrote.written line hline
  exact hbar.eq_of_parse htype hmem hend hparse

/-- After a short read, `bbg_tcp` is restarted with ten bytes of a start frame in its buffer, and
forwards the rest of it, which is not accepted, before the end frame. -/
theorem accepted_lines_whole_torn :
    ∃ s : PipeRun, s.lines.length = 2 ∧ ¬s.lines <+: s.written ∧
      List.SublistForall₂ (· <:+ ·) s.lines s.written ∧
      (s.lines.filter fun line => (parse readDecimal (stripCr line)).isSome).Sublist s.written := by
  have hcity : ∀ idx, bar ∉ (gVehicles.vehicle idx).city := by
    intro idx
    have hmem := gVehicles.vehicle_mem idx
    simp only [gVehicles, List.mem_cons, List.not_mem_nil, or_false] at hmem
    rcases hmem with h | h | h | h <;> simp only [gVehicles, h] <;> decide
  have hreads : ∀ (s : PipeRun) (e : PipeEvent), (∀ buf ∈ e.bus?, buf = ascii "S|" ∨
      ∃ type ∈ [MsgType.msgStart, .msgEnd], buf = (buildFrame gVehicles 0 type).bytes) →
      LetsBarFreeThrough s e := by
    intro s e he buf hbuf hlen _
    rcases he buf hbuf with rfl | ⟨type, -, rfl⟩
    · exact absurd hlen (by decide)
    · obtain ⟨-, hid, hlat, hlon, hcityStr⟩ := readFrame_bytes (buildFrame gVehicles 0 type)
      have hframe := (gVehicles_wellFormed _ (gVehicles.vehicle_mem 0)).barFree (hcity 0) type
      simpa only [GpsFrame.BarFree, hid, hlat, hlon, hcityStr] using hframe
  have hrun : ((replayEvents pipeStep
      (fun _ e => ∀ buf ∈ e.bus?, buf = ascii "S|" ∨
        ∃ type ∈ [MsgType.msgStart, .msgEnd], buf = (buildFrame gVehicles 0 type).bytes) .init
      [.openTcp, .startI2c, .i2cOpened, .tcpOpened, .i2cPass (ascii "S|"),
        .i2cPass (buildFrame gVehicles 0 .msgStart).bytes, .read 10, .stopTcp, .openTcp, .tcpOpened,
        .i2cPass (buildFrame gVehicles 0 .msgEnd).bytes, .read 200, .forward (.accepts 10),
        .forward (.accepts 10)]).any fun s =>
      decide (s.lines.length = 2 ∧ ¬s.lines <+: s.written)) = true := by decide +kernel
  obtain ⟨s, hs, hend⟩ := (Option.any_eq_true _ _).mp hrun
  obtain ⟨hlength, hprefix⟩ := of_decide_eq_true hend
  obtain ⟨hlines, hwhole⟩ := accepted_lines_whole readDecimal (Trace.of_replayEvents hs)
  exact ⟨s, hlength, hprefix, hlines, hwhole hreads⟩

end ParkingSystem
