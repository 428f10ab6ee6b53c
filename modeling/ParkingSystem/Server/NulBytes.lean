import ParkingSystem.Server.Framing

/-!
# Zero bytes in a client stream

`handleClient` appends what it received as a C string, so that the bytes of a chunk from its first
NUL on are dropped, complete lines among them.  `received` marks which bytes of a stream are kept.

A line without NUL reaches the parser as it was sent if its newline is kept, and if what is pending
in the receive buffer when the line begins makes up for the bytes at its front that are dropped; as
a rule, both are empty.  Otherwise a line is lost or altered because of another one.
-/

namespace ParkingSystem

open Foundation

/-! ## The bytes that are kept -/

/-- A byte received from a client, and whether it is appended to the receive buffer. -/
structure RecvByte where
  byte : UInt8
  kept : Bool
deriving DecidableEq

/-- The bytes of a chunk; `alive` says that no NUL has been seen in it yet. -/
def markFrom : Bool → Bytes → List RecvByte
  | _, [] => []
  | alive, b :: bs =>
    let alive := alive && b ≠ 0
    ⟨b, alive⟩ :: markFrom alive bs

/-- The bytes as they were sent. -/
def textOf (l : List RecvByte) : Bytes := l.map RecvByte.byte

/-- The bytes that are appended to the receive buffer. -/
def keptOf (l : List RecvByte) : Bytes := textOf (l.filter fun b => b.kept)

/-- The bytes that are dropped. -/
def droppedOf (l : List RecvByte) : Bytes := textOf (l.filter fun b => !b.kept)

/-- Only a NUL ends the part of a chunk that is kept. -/
def KeepsOn (x y : RecvByte) : Prop := x.kept = true → y.byte ≠ 0 → y.kept = true

section Marks

/-- Bytes are kept one by one. -/
@[simp] lemma keptOf_append (l l' : List RecvByte) : keptOf (l ++ l') = keptOf l ++ keptOf l' := by
  simp [keptOf, textOf]

/-- Each byte received has its place in the text. -/
@[simp] lemma length_textOf (l : List RecvByte) : (textOf l).length = l.length := List.length_map _

/-- What is kept has been received. -/
lemma mem_textOf_of_mem_keptOf {l : List RecvByte} {b : UInt8} (h : b ∈ keptOf l) :
    b ∈ textOf l := by
  obtain ⟨x, hx, rfl⟩ := List.mem_map.mp h
  exact List.mem_map_of_mem (List.mem_of_mem_filter hx)

/-- The marks do not change the text. -/
@[simp] lemma textOf_markFrom (alive : Bool) (chunk : Bytes) :
    textOf (markFrom alive chunk) = chunk := by
  induction chunk generalizing alive with
  | nil => rfl
  | cons b bs ih => simpa [textOf, markFrom] using ih _

/-- Behind a NUL nothing of a chunk is kept. -/
@[simp] lemma keptOf_markFrom_false (chunk : Bytes) : keptOf (markFrom false chunk) = [] := by
  induction chunk with
  | nil => rfl
  | cons b bs ih => simpa [keptOf, markFrom] using ih

/-- What is kept of a chunk is the C string at its start. -/
@[simp] lemma keptOf_markFrom (chunk : Bytes) : keptOf (markFrom true chunk) = cstr chunk := by
  induction chunk with
  | nil => rfl
  | cons b bs ih =>
    by_cases hb : b = 0
    · have hrest := keptOf_markFrom_false bs
      simp only [keptOf] at hrest
      simp [keptOf, markFrom, hb, cstr, hrest]
    · simp only [keptOf, textOf] at ih
      simp [keptOf, textOf, markFrom, hb, cstr, ih]

/-- Cutting a chunk off cuts its marks off. -/
lemma markFrom_take (alive : Bool) (chunk : Bytes) (n : ℕ) :
    markFrom alive (chunk.take n) = (markFrom alive chunk).take n := by
  induction chunk generalizing alive n with
  | nil => simp [markFrom]
  | cons b bs ih =>
    cases n with
    | zero => rfl
    | succ n => simp [markFrom, ih]

/-- Of a chunk, bytes are kept until a NUL comes. -/
lemma isChain_markFrom (alive : Bool) (chunk : Bytes) :
    (markFrom alive chunk).IsChain KeepsOn ∧
      ∀ y ∈ (markFrom alive chunk).head?, alive = true → y.byte ≠ 0 → y.kept = true := by
  induction chunk generalizing alive with
  | nil => simp [markFrom]
  | cons b bs ih =>
    obtain ⟨hchain, hhead⟩ := ih (alive && b ≠ 0)
    refine ⟨List.isChain_cons.mpr ⟨fun y hy => hhead y hy, hchain⟩, ?_⟩
    intro y hy halive h0
    obtain rfl := Option.some.inj hy
    simpa [halive] using h0

/-- Without a NUL, all bytes behind a byte that is kept are kept. -/
lemma kept_of_isChain {x : RecvByte} {l : List RecvByte} (hchain : (x :: l).IsChain KeepsOn)
    (hx : x.kept = true) (h0 : (0 : UInt8) ∉ textOf l) : ∀ y ∈ l, y.kept = true := by
  induction l generalizing x with
  | nil => simp
  | cons y l ih =>
    simp only [textOf, List.map_cons, List.mem_cons, not_or] at h0
    obtain ⟨hhead, hchain⟩ := List.isChain_cons_cons.mp hchain
    have hy : y.kept = true := hhead hx (Ne.symm h0.1)
    exact List.forall_mem_cons.mpr ⟨hy, ih hchain hy h0.2⟩

/-- Of a stretch without NUL, the bytes at the front are dropped and the others are kept. -/
lemma textOf_eq_dropped_append_kept {l : List RecvByte} (hchain : l.IsChain KeepsOn)
    (h0 : (0 : UInt8) ∉ textOf l) : textOf l = droppedOf l ++ keptOf l := by
  induction l with
  | nil => rfl
  | cons x l ih =>
    simp only [textOf, List.map_cons, List.mem_cons, not_or] at h0
    cases hx : x.kept with
    | false =>
      have ih := ih (List.isChain_cons.mp hchain).2 h0.2
      simp only [textOf, droppedOf, keptOf] at ih
      simp [textOf, droppedOf, keptOf, hx, ih]
    | true =>
      have hall := kept_of_isChain hchain hx h0.2
      have hdropped : l.filter (fun b => !b.kept) = [] := by
        rw [List.filter_eq_nil_iff]
        intro y hy
        simp [hall y hy]
      have hkept : l.filter (fun b => b.kept) = l := List.filter_eq_self.mpr hall
      simp [textOf, droppedOf, keptOf, hx, hdropped, hkept]

end Marks

/-! ## What is handed to the parser -/

/-- A call of `handleClient`. -/
structure RecvEvent where
  /-- The environments of the lines that are handled. -/
  envs : ℕ → CallEnv
  fd : ℕ
  /-- What `recv` returns. -/
  chunk : Bytes

/-- A call of `handleClient` as a step of a machine. -/
def recvStep (stod : Bytes → Option ℚ) (s : TcpServer) (e : RecvEvent) : TcpServer × List Call :=
  handleClient stod e.envs e.fd e.chunk s

/-- The bytes received on a descriptor. -/
def received (fd : ℕ) (es : List RecvEvent) : List RecvByte :=
  (es.filter fun e => e.fd = fd).flatMap fun e => markFrom true e.chunk

/-- The calls up to the byte number `n` on a descriptor, where the chunk of the last call is cut. -/
def untilByte (fd : ℕ) : ℕ → List RecvEvent → List RecvEvent
  | _, [] => []
  | n, e :: es =>
    if e.fd = fd then
      if n = 0 then []
      else if e.chunk.length ≤ n then e :: untilByte fd (n - e.chunk.length) es
      else [{ e with chunk := e.chunk.take n }]
    else e :: untilByte fd n es

/-- The lines handed to the parser for a descriptor. -/
def parsedOn (fd : ℕ) (calls : List Call) : List Bytes :=
  calls.filterMap fun
    | .parse fd' line => if fd' = fd then some line else none
    | _ => none

/-- The lines handed to the parser by the time when `n` bytes are received on the descriptor. -/
def handedAt (stod : Bytes → Option ℚ) (s : TcpServer) (fd : ℕ) (es : List RecvEvent) (n : ℕ) :
    List Bytes :=
  parsedOn fd (runMachine (recvStep stod) s (untilByte fd n es)).2

section Handed

variable {stod : Bytes → Option ℚ} {s : TcpServer} {fd : ℕ} {es : List RecvEvent}

/-- Lines are parsed one after the other. -/
@[simp] lemma parsedOn_append (fd : ℕ) (l l' : List Call) :
    parsedOn fd (l ++ l') = parsedOn fd l ++ parsedOn fd l' := by
  simp [parsedOn]

/-- `recv` parses no line. -/
@[simp] lemma parsedOn_cons_recv (fd fd' : ℕ) (chunk : Bytes) (l : List Call) :
    parsedOn fd (.recv fd' chunk :: l) = parsedOn fd l := rfl

/-- Calls on one descriptor parse lines of this descriptor only. -/
lemma parsedOn_of_staysOn {fd' : ℕ} {calls : List Call}
    (h : ∀ call ∈ calls, call.StaysOn fd') :
    parsedOn fd calls = if fd' = fd then parsedLines calls else [] := by
  induction calls with
  | nil => simp [parsedOn, parsedLines]
  | cons call calls ih =>
    obtain ⟨hcall, hcalls⟩ := List.forall_mem_cons.mp h
    have ih := ih hcalls
    simp only [parsedOn, parsedLines] at ih ⊢
    cases call with
    | parse fd'' line =>
      obtain rfl : fd'' = fd' := hcall
      by_cases hfd : fd'' = fd <;> simp [hfd] at ih ⊢ <;> exact ih
    | _ => simpa using ih

/-- The lines that are handled in a row are handed to the parser. -/
lemma parsedOn_lineStep (fd fd' : ℕ) (envs : ℕ → CallEnv) (lines : List Bytes)
    (sessions : SessionManager) :
    parsedOn fd (runMachine (lineStep stod fd') sessions (withEnvs envs lines)).2 =
      if fd' = fd then lines else [] := by
  obtain ⟨hon, -, replies, hlen, hex⟩ := lineStep_calls stod fd' (withEnvs envs lines) sessions
  rw [map_snd_withEnvs] at hlen hex
  rw [parsedOn_of_staysOn hon, parsedLines_eq, hex, filterMap_dialogue hlen]

/-- A call of `handleClient` for another client. -/
lemma recvStep_of_ne (stod : Bytes → Option ℚ) (s : TcpServer) {e : RecvEvent} (hne : e.fd ≠ fd) :
    (recvStep stod s e).1.recvBufs.lookup fd = s.recvBufs.lookup fd ∧
      parsedOn fd (recvStep stod s e).2 = [] := by
  by_cases hchunk : e.chunk = []
  · simp only [recvStep, handleClient, hchunk, if_true, disconnectClient]
    exact ⟨AList.lookup_erase_ne hne.symm, rfl⟩
  · rw [recvStep, handleClient_cstr stod e.fd e.envs hchunk]
    refine ⟨AList.lookup_insert_ne hne.symm, ?_⟩
    rw [parsedOn_cons_recv, parsedOn_lineStep, if_neg hne]

/-- A call of `handleClient` that receives something of the client. -/
lemma recvStep_of_eq (stod : Bytes → Option ℚ) {e : RecvEvent} {rest : Bytes}
    (hfd : e.fd = fd) (hchunk : e.chunk ≠ []) (hbuf : s.recvBufs.lookup fd = some rest) :
    (recvStep stod s e).1.recvBufs.lookup fd = some (cutLines (rest ++ cstr e.chunk)).2 ∧
      parsedOn fd (recvStep stod s e).2 = framedLines (cutLines (rest ++ cstr e.chunk)).1 := by
  subst hfd
  rw [recvStep, handleClient_cstr stod e.fd e.envs hchunk, hbuf]
  refine ⟨AList.lookup_insert _, ?_⟩
  rw [parsedOn_cons_recv, parsedOn_lineStep, if_pos rfl]
  rfl

/-- The bytes received, one call after the other. -/
lemma received_cons (fd : ℕ) (e : RecvEvent) (es : List RecvEvent) :
    received fd (e :: es) =
      (if e.fd = fd then markFrom true e.chunk else []) ++ received fd es := by
  by_cases hfd : e.fd = fd <;> simp [received, hfd]

/-- **The parser gets the lines of the bytes that are kept.** -/
lemma parsedOn_run {rest : Bytes} (hrecv : ∀ e ∈ es, e.fd = fd → e.chunk ≠ [])
    (hbuf : s.recvBufs.lookup fd = some rest) (hrest : lf ∉ rest) :
    parsedOn fd (runMachine (recvStep stod) s es).2 =
      framedLines (cutLines (rest ++ keptOf (received fd es))).1 := by
  induction es generalizing s rest with
  | nil => simp [received, keptOf, textOf, cutLines_of_notMem hrest, framedLines, parsedOn]
  | cons e es ih =>
    obtain ⟨hchunk, hrecv⟩ := List.forall_mem_cons.mp hrecv
    rw [received_cons, runMachine]
    simp only [parsedOn_append]
    by_cases hfd : e.fd = fd
    · obtain ⟨hbuf', hcalls⟩ := recvStep_of_eq stod hfd (hchunk hfd) hbuf
      rw [hcalls, ih hrecv hbuf' (notMem_cutLines_rest _), if_pos hfd, keptOf_append,
        keptOf_markFrom, ← List.append_assoc rest, cutLines_append (rest ++ cstr e.chunk),
        framedLines_append]
    · obtain ⟨hbuf', hcalls⟩ := recvStep_of_ne stod s hfd
      rw [hcalls, ih hrecv (hbuf'.trans hbuf) hrest, if_neg hfd]
      rfl

/-- The bytes received up to a byte are the first bytes received. -/
lemma received_untilByte (fd n : ℕ) (es : List RecvEvent) :
    received fd (untilByte fd n es) = (received fd es).take n := by
  induction es generalizing n with
  | nil => simp [untilByte, received]
  | cons e es ih =>
    have hlen : (markFrom true e.chunk).length = e.chunk.length := by
      rw [← length_textOf, textOf_markFrom]
    rw [untilByte, received_cons]
    by_cases hfd : e.fd = fd
    · rw [if_pos hfd, if_pos hfd, List.take_append, hlen]
      split_ifs with hn hle
      · simp [hn, received]
      · rw [received_cons, if_pos hfd, ih, List.take_of_length_le (hlen.trans_le hle)]
      · rw [received_cons, if_pos hfd, markFrom_take, Nat.sub_eq_zero_of_le (not_le.mp hle).le]
        simp [received]
    · rw [if_neg hfd, if_neg hfd, received_cons, if_neg hfd, ih]
      rfl

/-- No chunk before a byte is empty. -/
lemma chunk_ne_nil_of_mem_untilByte (hrecv : ∀ e ∈ es, e.fd = fd → e.chunk ≠ []) (n : ℕ) :
    ∀ e ∈ untilByte fd n es, e.fd = fd → e.chunk ≠ [] := by
  induction es generalizing n with
  | nil => simp [untilByte]
  | cons e es ih =>
    obtain ⟨hchunk, hrecv⟩ := List.forall_mem_cons.mp hrecv
    rw [untilByte]
    split_ifs with hfd hn hle
    · simp
    · exact List.forall_mem_cons.mpr ⟨hchunk, ih hrecv _⟩
    · refine List.forall_mem_singleton.mpr fun _ hnil => ?_
      rw [List.take_eq_nil_iff] at hnil
      exact hnil.elim hn (hchunk hfd)
    · exact List.forall_mem_cons.mpr ⟨hchunk, ih hrecv _⟩

/-- The lines handed to the parser up to a byte are those of the bytes kept up to it. -/
lemma handedAt_eq (hrecv : ∀ e ∈ es, e.fd = fd → e.chunk ≠ [])
    (hbuf : s.recvBufs.lookup fd = some []) (n : ℕ) :
    handedAt stod s fd es n =
      framedLines (cutLines (keptOf ((received fd es).take n))).1 := by
  rw [handedAt, parsedOn_run (chunk_ne_nil_of_mem_untilByte hrecv n) hbuf (by simp),
    List.nil_append, received_untilByte]

/-- Only a NUL ends a stretch of bytes that are kept. -/
lemma isChain_received (fd : ℕ) (es : List RecvEvent) :
    (received fd es).IsChain KeepsOn ∧
      ∀ y ∈ (received fd es).head?, y.byte ≠ 0 → y.kept = true := by
  induction es with
  | nil => simp [received]
  | cons e es ih =>
    obtain ⟨hchain, hhead⟩ := ih
    rw [received_cons]
    split_ifs with hfd
    · obtain ⟨hchain', hhead'⟩ := isChain_markFrom true e.chunk
      refine ⟨List.isChain_append.mpr ⟨hchain', hchain, fun x _ y hy _ => hhead y hy⟩, ?_⟩
      intro y hy
      rw [List.head?_append] at hy
      cases hmark : (markFrom true e.chunk).head? with
      | none =>
        rw [hmark, Option.none_or] at hy
        exact hhead y hy
      | some z =>
        rw [hmark, Option.some_or] at hy
        exact hhead' y (hmark.trans hy) rfl
    · exact ⟨hchain, hhead⟩

end Handed

/-! ## Lines without NUL -/

/-- A line without NUL in a stream: it starts where a line starts, and it is not skipped. -/
structure LineAt (stream before line : List RecvByte) (newline : RecvByte)
    (after : List RecvByte) : Prop where
  stream_eq : stream = before ++ (line ++ newline :: after)
  starts : (cutLines (textOf before)).2 = []
  ends : newline.byte = lf
  lf_notMem : lf ∉ textOf line
  zero_notMem : (0 : UInt8) ∉ textOf line
  not_skipped : stripCr (textOf line) ≠ []

/-- Every line without NUL is handed to the parser when it is received, once and as it was sent. -/
def LinesIntact (stod : Bytes → Option ℚ) (s : TcpServer) (fd : ℕ) (es : List RecvEvent) : Prop :=
  ∀ before line newline after, LineAt (received fd es) before line newline after →
    handedAt stod s fd es (before.length + (line.length + 1)) =
      handedAt stod s fd es before.length ++ [stripCr (textOf line)]

/-- The newline of every line without NUL is kept, and what is pending before the line makes up for
the bytes of the line that are dropped. -/
def LinesKept (fd : ℕ) (es : List RecvEvent) : Prop :=
  ∀ before line newline after, LineAt (received fd es) before line newline after →
    let pending := (cutLines (keptOf before)).2
    newline.kept = true ∧
      (pending = droppedOf line ∨ keptOf line = [] ∧ stripCr pending = stripCr (textOf line))

section Lines

variable {stod : Bytes → Option ℚ} {s : TcpServer} {fd : ℕ} {es : List RecvEvent}
  {before line after : List RecvByte} {newline : RecvByte}

/-- A carriage return is stripped from what stands last. -/
lemma stripCr_append {c : Bytes} (hc : c ≠ []) (a : Bytes) : stripCr (a ++ c) = a ++ stripCr c := by
  unfold stripCr
  rw [List.getLast?_append_of_ne_nil a hc, List.dropLast_append_of_ne_nil hc]
  split_ifs <;> rfl

/-- Two lines with the same end are handed over alike if their fronts are the same, or if there is
nothing but the fronts. -/
lemma stripCr_append_eq_iff {a b c : Bytes} :
    stripCr (a ++ c) = stripCr (b ++ c) ↔ a = b ∨ c = [] ∧ stripCr a = stripCr b := by
  by_cases hc : c = []
  · subst hc
    simp only [List.append_nil, true_and]
    exact ⟨.inr, fun h => h.elim (congrArg stripCr) id⟩
  · rw [stripCr_append hc, stripCr_append hc]
    simp [hc]

/-- The lines handed to the parser when a line without NUL has been received: one more if its
newline is kept. -/
lemma LineAt.handedAt_line (h : LineAt (received fd es) before line newline after)
    (hrecv : ∀ e ∈ es, e.fd = fd → e.chunk ≠ []) (hbuf : s.recvBufs.lookup fd = some []) :
    handedAt stod s fd es (before.length + (line.length + 1)) =
      handedAt stod s fd es before.length ++
        if newline.kept then framedLines [(cutLines (keptOf before)).2 ++ keptOf line] else [] := by
  have hlf : lf ∉ keptOf line := fun hmem => h.lf_notMem (mem_textOf_of_mem_keptOf hmem)
  have hpending : lf ∉ (cutLines (keptOf before)).2 ++ keptOf line := by
    exact List.not_mem_append (notMem_cutLines_rest _) hlf
  have htake : (received fd es).take before.length = before := by
    rw [h.stream_eq, List.take_left]
  have htake' : (received fd es).take (before.length + (line.length + 1)) =
      before ++ (line ++ [newline]) := by
    rw [h.stream_eq, List.take_length_add_append, List.take_length_add_append]
    rfl
  rw [handedAt_eq hrecv hbuf, handedAt_eq hrecv hbuf, htake, htake', keptOf_append,
    cutLines_append, framedLines_append, keptOf_append]
  congr 1
  cases hkept : newline.kept with
  | true =>
    have hnewline : keptOf [newline] = [lf] := by simp [keptOf, textOf, hkept, h.ends]
    rw [hnewline, ← List.append_assoc, cutLines_line hpending]
    rfl
  | false =>
    have hnewline : keptOf [newline] = [] := by simp [keptOf, textOf, hkept]
    rw [hnewline, List.append_nil, cutLines_of_notMem hpending]
    rfl

/-- **When the lines without NUL are intact.**  Each of them reaches the parser as it was sent if
and only if its newline is kept, and what is pending in the receive buffer before it makes up for
the bytes of it that are dropped. -/
theorem linesIntact_iff (hrecv : ∀ e ∈ es, e.fd = fd → e.chunk ≠ [])
    (hbuf : s.recvBufs.lookup fd = some []) :
    LinesIntact stod s fd es ↔ LinesKept fd es := by
  unfold LinesIntact LinesKept
  refine forall₄_congr fun before line newline after => forall_congr' fun h => ?_
  have hchain : line.IsChain KeepsOn := by
    have hall := (isChain_received fd es).1
    rw [h.stream_eq] at hall
    exact hall.right_of_append.left_of_append
  rw [h.handedAt_line hrecv hbuf, List.append_cancel_left_eq]
  cases hkept : newline.kept with
  | false => simp
  | true =>
    have hframed : framedLines [(cutLines (keptOf before)).2 ++ keptOf line] =
          [stripCr (textOf line)] ↔
        stripCr ((cutLines (keptOf before)).2 ++ keptOf line) = stripCr (textOf line) := by
      by_cases hnil : stripCr ((cutLines (keptOf before)).2 ++ keptOf line) = []
      · simp [framedLines, hnil, h.not_skipped.symm]
      · simp [framedLines, hnil]
    have htext := textOf_eq_dropped_append_kept hchain h.zero_notMem
    rw [if_pos rfl, hframed, htext, stripCr_append_eq_iff]
    simp only [true_and]
    refine or_congr_right (and_congr_right fun hnone => ?_)
    rw [hnone, List.append_nil]

/-- The server with one client that has sent nothing. -/
def clientOn (fd : ℕ) : TcpServer := ⟨SessionManager.empty, AList.singleton fd [], []⟩

/-- A client that sends the chunks. -/
def sends (fd : ℕ) (chunks : List Bytes) : List RecvEvent :=
  chunks.map fun chunk => ⟨fun _ => ⟨0, 0, .zero⟩, fd, chunk⟩

/-- The rest of a line arrives in the chunk after its NUL. -/
theorem linesIntact_iff_next_chunk :
    LinesIntact readDecimal (clientOn 4) 4 (sends 4 [ascii "ab\x00cd", ascii "ef\nGOOD\n"]) ↔
      LinesKept 4 (sends 4 [ascii "ab\x00cd", ascii "ef\nGOOD\n"]) :=
  linesIntact_iff (by simp [sends]; decide) rfl

/-- A NUL in a line drops the complete line behind it. -/
theorem not_every_line_intact :
    ¬ ∀ (stod : Bytes → Option ℚ) (s : TcpServer) (fd : ℕ) (es : List RecvEvent),
      (∀ e ∈ es, e.fd = fd → e.chunk ≠ []) → s.recvBufs.lookup fd = some [] →
        LinesIntact stod s fd es := by
  intro h
  have hrecv : ∀ e ∈ sends 4 [ascii "ab\x00cd\nGOOD\n"], e.fd = 4 → e.chunk ≠ [] := by
    simp [sends]
    decide
  have hbuf : (clientOn 4).recvBufs.lookup 4 = some [] := rfl
  have hline : LineAt (received 4 (sends 4 [ascii "ab\x00cd\nGOOD\n"]))
      ((markFrom true (ascii "ab\x00cd\nGOOD\n")).take 6) (markFrom false (ascii "GOOD"))
      ⟨lf, false⟩ [] :=
    ⟨by decide +kernel, by decide +kernel, rfl, by decide, by decide, by decide⟩
  have hgood := h readDecimal (clientOn 4) 4 _ hrecv hbuf _ _ _ _ hline
  rw [handedAt_eq hrecv hbuf, handedAt_eq hrecv hbuf] at hgood
  revert hgood
  decide +kernel

end Lines

end ParkingSystem
