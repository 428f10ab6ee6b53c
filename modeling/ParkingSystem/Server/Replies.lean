import ParkingSystem.Server.Descriptors

/-!
# What a client reads

The server answers each line of a client by a reply on its connection, printed into a buffer of 128
bytes when it is about a fee.  With a 64-bit clock and prices up to `10 ^ 64` no reply is cut off.
Then a client that cuts the stream of the replies at the newlines gets one answer for each of its
lines, in order, and each answer says whether the line was a message, and of which type.
-/

namespace ParkingSystem

open Foundation

/-! ## Answers -/

/-- The bytes sent in a log. -/
def sentBytes (log : List Call) : Bytes :=
  log.flatMap fun
    | .sendReply _ reply => reply
    | _ => []

/-- The answer about a fee. -/
def feeText (fee elapsedMin : ℚ) : Bytes :=
  ascii "OK:fee=" ++ printFixed 2 fee ++ ascii ":elapsed=" ++ printFixed 1 elapsedMin ++ ascii "min"

/-- The text is an answer to the line. -/
def Answers (stod : Bytes → Option ℚ) (line text : Bytes) : Prop :=
  match parse stod line with
  | none => text = ascii "ERR:bad_msg"
  | some msg =>
    match msg.type with
    | .msgStart => text = ascii "OK:started"
    | .msgEnd => text = ascii "ERR:no_session" ∨ ∃ fee elapsedMin, text = feeText fee elapsedMin

/-- A printed number holds no newline. -/
lemma lf_notMem_printFixed (d : ℕ) (q : ℚ) : lf ∉ printFixed d q := by
  intro hmem
  rcases mem_printFixed hmem with ⟨h, -⟩ | h | h <;> exact absurd h (by decide)

/-- An answer holds no newline. -/
lemma Answers.lf_notMem {stod : Bytes → Option ℚ} {line text : Bytes} (h : Answers stod line text) :
    lf ∉ text := by
  have hfee : ∀ fee elapsedMin, lf ∉ feeText fee elapsedMin := by
    intro fee elapsedMin
    simp only [feeText, List.mem_append, not_or]
    exact ⟨⟨⟨⟨by decide, lf_notMem_printFixed 2 fee⟩, by decide⟩,
      lf_notMem_printFixed 1 elapsedMin⟩, by decide⟩
  unfold Answers at h
  cases hparse : parse stod line with
  | none =>
    rw [hparse] at h
    subst h
    decide
  | some msg =>
    cases htype : msg.type with
    | msgStart =>
      simp only [hparse, htype] at h
      subst h
      decide
    | msgEnd =>
      simp only [hparse, htype] at h
      rcases h with rfl | ⟨fee, elapsedMin, rfl⟩
      · decide
      · exact hfee fee elapsedMin

/-! ## Replies that are not cut off -/

/-- A 64-bit clock, and prices whose fees fit the buffer of the reply. -/
structure CallEnv.Moderate (env : CallEnv) : Prop where
  now : |env.now| ≤ 2 ^ 63
  prices : ∀ row ∈ env.prices.live, row.pricePerMinute ≤ 10 ^ 64

/-- The sessions were started by a 64-bit clock. -/
def SessionManager.Moderate (m : SessionManager) : Prop :=
  ∀ id s, m.find id = some s → |s.startTime| ≤ 2 ^ 63

/-- The price of a lookup is that of a row. -/
lemma lookup_le {area : PriceArea} {b : ℚ} (hb : 0 ≤ b)
    (h : ∀ row ∈ area.live, row.pricePerMinute ≤ b) (city : Bytes) : lookup area city ≤ b := by
  unfold lookup
  split
  · rename_i row hrow
    exact h row (List.mem_of_find?_eq_some hrow)
  · linarith

/-- A fee over the time between two readings of a 64-bit clock is printed in full. -/
lemma okFee_eq {minutes price : ℚ} (hminutes : |minutes| ≤ 2 ^ 64 / 60) (hprice : 0 ≤ price)
    (hprice' : price ≤ 10 ^ 64) :
    okFee (minutes * price) minutes = feeText (minutes * price) minutes ++ [lf] := by
  have hfee : |minutes * price| ≤ 10 ^ 82 - 1 := by
    rw [abs_mul, abs_of_nonneg hprice]
    calc |minutes| * price ≤ 2 ^ 64 / 60 * 10 ^ 64 := by gcongr
      _ ≤ 10 ^ 82 - 1 := by norm_num
  have hminutes' : |minutes| ≤ 10 ^ 18 - 1 := hminutes.trans (by norm_num)
  have hlen := length_printFixed_le (d := 2) (by norm_num) hfee
  have hlen' := length_printFixed_le (d := 1) (by norm_num) hminutes'
  have htext : ascii "OK:fee=" ++ printFixed 2 (minutes * price) ++ ascii ":elapsed=" ++
      printFixed 1 minutes ++ ascii "min\n" = feeText (minutes * price) minutes ++ [lf] := by
    have hmin : ascii "min\n" = ascii "min" ++ [lf] := by decide
    simp only [feeText, hmin, List.append_assoc]
  unfold okFee
  rw [htext, snprintf_of_lt]
  have hparts : (ascii "OK:fee=").length = 7 ∧ (ascii ":elapsed=").length = 9 ∧
      (ascii "min").length = 3 := by decide
  simp only [feeText, List.length_append, hparts.1, hparts.2.1, hparts.2.2, List.length_singleton]
  omega

/-! ## Logs -/

/-- The lines of a log are answered one by one. -/
def LogAnswered (stod : Bytes → Option ℚ) (log : List Call) : Prop :=
  ∃ answers : List (Bytes × Bytes),
    exchange log = answers.flatMap (fun a => [.inl a.1, .inr (a.2 ++ [lf])]) ∧
      ∀ a ∈ answers, Answers stod a.1 a.2

section Log

variable {stod : Bytes → Option ℚ} {log log' : List Call} {sessions : SessionManager}

/-- Where no line has been parsed, nothing is sent. -/
lemma logAnswered_nil : LogAnswered stod [] := ⟨[], rfl, by simp⟩

/-- Answered calls may follow one another. -/
lemma LogAnswered.append (h : LogAnswered stod log) (h' : LogAnswered stod log') :
    LogAnswered stod (log ++ log') := by
  obtain ⟨answers, hex, hall⟩ := h
  obtain ⟨answers', hex', hall'⟩ := h'
  refine ⟨answers ++ answers', by rw [exchange_append, hex, hex', List.flatMap_append], ?_⟩
  exact List.forall_mem_append.mpr ⟨hall, hall'⟩

/-- What was exchanged is all that counts. -/
lemma LogAnswered.of_exchange (h : LogAnswered stod log) (hex : exchange log' = exchange log) :
    LogAnswered stod log' := by
  obtain ⟨answers, heq, hall⟩ := h
  exact ⟨answers, hex.trans heq, hall⟩

/-- A line is parsed and then answered. -/
lemma logAnswered_handleLine (hsessions : sessions.Moderate) {env : CallEnv} (henv : env.Moderate)
    (fd : ℕ) (line : Bytes) :
    LogAnswered stod (handleLine stod env fd line sessions).2 ∧
      (handleLine stod env fd line sessions).1.Moderate := by
  have hone : ∀ text reply, Answers stod line text → reply = text ++ [lf] →
      ∀ calls, exchange calls = [.inr reply] → LogAnswered stod (.parse fd line :: calls) := by
    rintro text _ htext rfl calls hcalls
    refine ⟨[(line, text)], ?_, by simpa using htext⟩
    rw [← List.singleton_append, exchange_append, hcalls]
    rfl
  unfold handleLine
  cases hparse : parse stod line with
  | none =>
    have htext : Answers stod line (ascii "ERR:bad_msg") := by simp [Answers, hparse]
    exact ⟨hone _ errBadMsg htext (by decide) _ rfl, hsessions⟩
  | some msg =>
    simp only [processMessage]
    cases htype : msg.type with
    | msgStart =>
      have htext : Answers stod line (ascii "OK:started") := by simp [Answers, hparse, htype]
      refine ⟨hone _ okStarted htext (by decide) _ rfl, ?_⟩
      intro id s hfind
      rw [SessionManager.find_start] at hfind
      split_ifs at hfind
      · obtain rfl := Option.some.inj hfind
        exact henv.now
      · exact hsessions id s hfind
    | msgEnd =>
      have hkept : (sessions.endSession msg.customerId.str).2.Moderate := by
        intro id s hfind
        rw [SessionManager.find_endSession] at hfind
        split_ifs at hfind
        exact hsessions id s hfind
      have hfound := sessions.endSession_fst msg.customerId.str
      rcases hend : sessions.endSession msg.customerId.str with ⟨_ | session, sessions'⟩
      · rw [hend] at hkept
        have htext : Answers stod line (ascii "ERR:no_session") := by simp [Answers, hparse, htype]
        exact ⟨hone _ errNoSession htext (by decide) _ rfl, hkept⟩
      · rw [hend] at hkept hfound
        -- the session was started by a 64-bit clock too
        have hminutes : |session.elapsedMinutes env.now| ≤ 2 ^ 64 / 60 := by
          have hstart : |session.startTime| ≤ 2 ^ 63 := hsessions _ session hfound.symm
          have hdiff : |env.now - session.startTime| ≤ 2 ^ 64 := by
            have hnow := henv.now
            rw [abs_le] at hnow hstart ⊢
            omega
          have hcast : |((env.now - session.startTime : ℤ) : ℚ)| ≤ 2 ^ 64 := by exact_mod_cast hdiff
          rw [Session.elapsedMinutes, abs_div, abs_of_pos (show (0 : ℚ) < 60 by norm_num)]
          gcongr
        have hprice : (if lookup env.prices session.city < 0 then 0
            else lookup env.prices session.city) ≤ 10 ^ 64 := by
          have hle := lookup_le (by norm_num) henv.prices session.city
          split_ifs
          · norm_num
          · exact hle
        have hnonneg : 0 ≤ (if lookup env.prices session.city < 0 then 0
            else lookup env.prices session.city) := by
          split_ifs with hneg
          · exact le_rfl
          · exact not_lt.mp hneg
        refine ⟨hone _ _ ?_ (okFee_eq hminutes hnonneg hprice) _ rfl, hkept⟩
        simp only [Answers, hparse, htype]
        exact .inr ⟨_, _, rfl⟩

/-- Lines that are handled in a row are answered one by one. -/
lemma logAnswered_runMachine (stod : Bytes → Option ℚ) (hsessions : sessions.Moderate) (fd : ℕ)
    {ps : List (CallEnv × Bytes)} (hps : ∀ p ∈ ps, p.1.Moderate) :
    LogAnswered stod (runMachine (lineStep stod fd) sessions ps).2 ∧
      (runMachine (lineStep stod fd) sessions ps).1.Moderate := by
  induction ps generalizing sessions with
  | nil => exact ⟨logAnswered_nil, hsessions⟩
  | cons p ps ih =>
    obtain ⟨hp, hps⟩ := List.forall_mem_cons.mp hps
    obtain ⟨hline, hsessions'⟩ := logAnswered_handleLine hsessions hp fd p.2
    obtain ⟨hlines, hend⟩ := ih hsessions' hps
    exact ⟨hline.append hlines, hend⟩

/-- The stream of the replies in an answered log. -/
lemma LogAnswered.streams (h : LogAnswered stod log) :
    ∃ answers : List (Bytes × Bytes), parsedLines log = answers.map Prod.fst ∧
      exchange log = dialogue (parsedLines log) (answers.map fun a => a.2 ++ [lf]) ∧
      cutLines (sentBytes log) = (answers.map Prod.snd, []) ∧
      ∀ a ∈ answers, Answers stod a.1 a.2 := by
  obtain ⟨answers, hex, hall⟩ := h
  have hparsed : parsedLines log = answers.map Prod.fst := by
    rw [parsedLines_eq, hex]
    clear hex hall
    induction answers with
    | nil => rfl
    | cons a answers ih => simpa [List.filterMap_cons] using ih
  have hdialogue : dialogue (answers.map Prod.fst) (answers.map fun a => a.2 ++ [lf]) =
      answers.flatMap fun a => [.inl a.1, .inr (a.2 ++ [lf])] := by
    clear hex hall hparsed
    induction answers with
    | nil => rfl
    | cons a answers ih =>
      simp only [dialogue, List.map_cons, List.zip_cons_cons, List.flatMap_cons] at ih ⊢
      rw [ih]
  have hsent : sentBytes log = unlines (answers.map Prod.snd) := by
    have hbytes : sentBytes log = (exchange log).flatMap (Sum.elim (fun _ => []) id) := by
      clear hex hall hparsed hdialogue
      induction log with
      | nil => rfl
      | cons call log ih => cases call <;> simpa [sentBytes, exchange] using ih
    rw [hbytes, hex]
    clear hbytes hex hall hparsed hdialogue
    induction answers with
    | nil => rfl
    | cons a answers ih => simpa using ih
  refine ⟨answers, hparsed, by rw [hparsed, hdialogue, hex], ?_, hall⟩
  have hlines : ∀ text ∈ answers.map Prod.snd, lf ∉ text := by
    intro text htext
    obtain ⟨a, ha, rfl⟩ := List.mem_map.mp htext
    exact (hall a ha).lf_notMem
  have hcut := cutLines_unlines hlines []
  rw [List.append_nil] at hcut
  rw [hsent, hcut]
  simp [cutLines]

end Log

/-! ## Runs -/

/-- `accept` returns only descriptors that are not open, and the lines are handled with a 64-bit
clock and moderate prices. -/
def PassInput.Moderate (r : ServerRun) (p : PassInput) : Prop :=
  AcceptsClosed r p ∧ ∀ fd k, (p.envs fd k).Moderate

/-- The logs of the connections are answered, and the sessions were started by a 64-bit clock. -/
def AllAnswered (stod : Bytes → Option ℚ) (s : TcpServer) (net : Net) : Prop :=
  s.sessions.Moderate ∧ ∀ c, LogAnswered stod (net.logs c)

section Runs

variable {stod : Bytes → Option ℚ} {s : TcpServer} {net : Net} {p : PassInput}

/-- The log of one connection grows. -/
lemma logAnswered_extend (h : ∀ c, LogAnswered stod (net.logs c)) {c : ℕ} {calls : List Call}
    (hcalls : LogAnswered stod calls) (c' : ℕ) :
    LogAnswered stod ((net.extend c (onDescriptor calls)).logs c') := by
  by_cases hc : c' = c
  · subst hc
    rw [Net.logs_extend_self]
    exact (h c').append (hcalls.of_exchange (exchange_onDescriptor calls))
  · rw [Net.logs_extend_of_ne _ _ _ hc]
    exact h c'

/-- Handling a client answers its lines. -/
lemma AllAnswered.handleClient (h : AllAnswered stod s net) {envs : ℕ → CallEnv}
    (henvs : ∀ k, (envs k).Moderate) {fd c : ℕ} (howner : net.owner fd = some c) (chunk : Bytes) :
    AllAnswered stod (handleClient stod envs fd chunk s).1
      (net.recordAll (handleClient stod envs fd chunk s).2) := by
  by_cases hne : chunk = []
  · subst hne
    rw [handleClient_nil]
    refine ⟨h.1, fun c' => ?_⟩
    have hrecv : net.recordAll [.recv fd []] = net.extend c (onDescriptor [.recv fd []]) :=
      Net.recordAll_of_owner howner (by simp [Call.StaysOn])
    have hlogs : (net.recordAll [.recv fd [], .close fd]).logs =
        (net.recordAll [.recv fd []]).logs := rfl
    have hnone : LogAnswered stod [.recv fd []] := logAnswered_nil.of_exchange rfl
    rw [hlogs, hrecv]
    exact logAnswered_extend h.2 hnone c'
  · rw [handleClient_cstr stod fd envs hne]
    set ps := withEnvs envs
      (framedLines (cutLines ((s.recvBufs.lookup fd).getD [] ++ cstr chunk)).1) with hps
    have hmoderate : ∀ p ∈ ps, p.1.Moderate := by
      intro p hp
      rw [hps, withEnvs, List.mem_mapIdx] at hp
      obtain ⟨k, -, rfl⟩ := hp
      exact henvs k
    obtain ⟨hanswered, hsessions⟩ := logAnswered_runMachine stod h.1 fd hmoderate
    refine ⟨hsessions, fun c' => ?_⟩
    have hstays : ∀ call ∈ Call.recv fd chunk :: (runMachine (lineStep stod fd) s.sessions ps).2,
        call.StaysOn fd := by
      intro call hcall
      rcases List.mem_cons.mp hcall with rfl | hcall
      · rfl
      · exact (lineStep_calls stod fd ps s.sessions).1 call hcall
    have hcalls : LogAnswered stod
        (.recv fd chunk :: (runMachine (lineStep stod fd) s.sessions ps).2) :=
      hanswered.of_exchange rfl
    rw [Net.recordAll_of_owner howner hstays]
    exact logAnswered_extend h.2 hcalls c'

/-- The scan answers the lines of all clients that are ready. -/
lemma AllAnswered.clientLoop (h : AllAnswered stod s net) (henvs : ∀ fd k, (p.envs fd k).Moderate)
    {fds : List ℕ} (hnodup : fds.Nodup) (hfds : ∀ fd ∈ fds, fd ∈ s.recvBufs)
    (hopen : OpenMatch s net) :
    AllAnswered stod (clientLoop stod p fds s).2.1
      (net.recordAll (clientLoop stod p fds s).2.2) := by
  induction fds with
  | nil => exact h
  | cons fd fds ih =>
    rw [List.nodup_cons] at hnodup
    have hfds' : ∀ fd' ∈ fds, fd' ∈ s.recvBufs :=
      fun fd' hfd' => hfds fd' (List.mem_cons_of_mem _ hfd')
    have ih := ih hnodup.2 hfds'
    obtain ⟨-, hmem, hopen', -⟩ := clientLoop_descriptors stod (p := p) hnodup.2 hfds' hopen
    simp only [ParkingSystem.clientLoop]
    cases hrecv : p.recv fd with
    | none => exact ih
    | some chunk =>
      obtain ⟨c, howner⟩ := (hopen' fd).mpr
        ((hmem fd).mpr ⟨hfds fd List.mem_cons_self, fun hin => hnodup.1 hin.1⟩)
      rw [Net.recordAll_append]
      exact ih.handleClient (henvs fd) howner chunk

/-- The check of the listening descriptor answers nothing. -/
lemma AllAnswered.checkListen (h : AllAnswered stod s net) :
    AllAnswered stod (checkListen p s).1 (net.recordAll (checkListen p s).2) := by
  unfold ParkingSystem.checkListen
  rcases p.accept with _ | _ | cfd
  · exact h
  · exact h
  · simp only [acceptClient]
    split_ifs
    · exact ⟨h.1, h.2⟩
    · exact ⟨h.1, h.2⟩

/-- The state at the end of a pass. -/
structure AnswerInv (stod : Bytes → Option ℚ) (r : ServerRun) : Prop where
  descriptors : DescriptorInv r
  answered : AllAnswered stod r.loop.server r.net

/-- At the start nothing has been sent. -/
lemma AnswerInv.init : AnswerInv stod ServerRun.init where
  descriptors := DescriptorInv.init
  answered := by
    refine ⟨fun id s hfind => ?_, fun c => logAnswered_nil⟩
    simp [ServerRun.init, RunState.init] at hfind

/-- One pass keeps all logs answered. -/
lemma AnswerInv.step {r r' : ServerRun} (h : AnswerInv stod r) (hp : p.Moderate r)
    (hs : serverStep stod r p = some r') : AnswerInv stod r' := by
  obtain ⟨new, -, -, -, -, hmem, hopen, -⟩ := h.descriptors.checkListen hp.1
  have hend := (h.answered.checkListen (p := p)).clientLoop hp.2 h.descriptors.nodup
    (fun fd hfd => (hmem fd).mpr (.inr hfd)) hopen
  refine ⟨(h.descriptors.step stod hp.1).1 _ hs, ?_⟩
  rw [serverStep_eq, Option.some.injEq] at hs
  subst hs
  exact hend

end Runs

/-- **One answer for each line.**  In every run with a 64-bit clock and prices up to `10 ^ 64`, the
bytes sent on a connection, cut at the newlines, are one answer for each line that was parsed on it,
in order and with nothing left over; and each answer fits its line. -/
theorem replies_are_answers {stod : Bytes → Option ℚ} {ps : List PassInput} {r : ServerRun}
    (hrun : Trace (serverStep stod) PassInput.Moderate ServerRun.init ps r) (c : ℕ) :
    ∃ answers : List (Bytes × Bytes), parsedLines (r.net.logs c) = answers.map Prod.fst ∧
      exchange (r.net.logs c) =
        dialogue (parsedLines (r.net.logs c)) (answers.map fun a => a.2 ++ [lf]) ∧
      cutLines (sentBytes (r.net.logs c)) = (answers.map Prod.snd, []) ∧
      ∀ a ∈ answers, Answers stod a.1 a.2 := by
  have hinv : AnswerInv stod r :=
    hrun.invariant AnswerInv.init fun _ _ _ h hp hs => h.step hp hs
  exact (hinv.answered.2 c).streams

/-- A pass in which only one client is ready, at a time, and without prices. -/
def timedPass (fd : ℕ) (chunk : Bytes) (now : ℤ) : PassInput :=
  ⟨none, fun fd' => if fd' = fd then some chunk else none, fun _ _ => ⟨now, now, PriceArea.zero⟩⟩

/-- An empty price table is moderate. -/
lemma moderate_zero {now : ℤ} (hnow : |now| ≤ 2 ^ 63) (nowEnd : ℤ) :
    (⟨now, nowEnd, PriceArea.zero⟩ : CallEnv).Moderate :=
  ⟨hnow, by simp [PriceArea.live, PriceArea.zero]⟩

/-- So is a pass with this table. -/
lemma timedPass_moderate {r : ServerRun} (fd : ℕ) (chunk : Bytes) {now : ℤ}
    (hnow : |now| ≤ 2 ^ 63) : (timedPass fd chunk now).Moderate r :=
  ⟨fun cfd hcfd => by simp [timedPass] at hcfd, fun _ _ => moderate_zero hnow now⟩

/-- A start, a line that is no message, and an end ten minutes later, in two chunks. -/
theorem replies_are_answers_chunks :
    ∃ r, Trace (serverStep readDecimal) PassInput.Moderate ServerRun.init
        [acceptPass 5, timedPass 5 (ascii "S|CAR|1,2|Haifa\nhello\nE|C") 0,
          timedPass 5 (ascii "AR|1,2|Haifa\n") 600] r ∧
      ∃ texts, texts.length = 3 ∧ cutLines (sentBytes (r.net.logs 0)) = (texts, []) := by
  have h0 : Trace (serverStep readDecimal) PassInput.Moderate ServerRun.init [] ServerRun.init :=
    .nil
  have haccept : (acceptPass 5).Moderate ServerRun.init :=
    ⟨(acceptPass_valid rfl).1, fun _ _ => moderate_zero (by norm_num) 0⟩
  have h1 := h0.snoc haccept (serverStep_eq readDecimal _ (acceptPass 5))
  have h2 := h1.snoc (timedPass_moderate 5 (ascii "S|CAR|1,2|Haifa\nhello\nE|C")
    (show |(0 : ℤ)| ≤ 2 ^ 63 by norm_num)) (serverStep_eq readDecimal _ _)
  have h3 := h2.snoc (timedPass_moderate 5 (ascii "AR|1,2|Haifa\n")
    (show |(600 : ℤ)| ≤ 2 ^ 63 by norm_num)) (serverStep_eq readDecimal _ _)
  refine ⟨_, h3, ?_⟩
  obtain ⟨answers, hparsed, -, hcut, -⟩ := replies_are_answers h3 0
  refine ⟨answers.map Prod.snd, ?_, hcut⟩
  have hlen := congrArg List.length hparsed
  rw [List.length_map] at hlen ⊢
  rw [← hlen]
  decide +kernel

end ParkingSystem
