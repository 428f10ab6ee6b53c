import ParkingSystem.Foundation.Unwinding
import ParkingSystem.Server.Framing

/-!
# Isolation of customers

The parser copies the ID field of a line into `char customer_id[64]`, and the sessions are stored
under what this array holds.  So lines of two customers share a session exactly when their IDs agree
as C strings in the first 63 bytes; lines of other customers do not influence each other, neither
through the session store nor in what the server answers and records.
-/

namespace ParkingSystem

open Foundation

/-- A line that reaches the parser, with its descriptor and the environment of its handling. -/
structure WireLine where
  env : CallEnv
  fd : ℕ
  line : Bytes

/-- The ID field of a line, as it appears on the wire. -/
def idField (line : Bytes) : Option Bytes := do
  let (_, ss) ← getline bar line
  let (id, _) ← getline bar ss
  some id

/-- What is kept of an ID in a message, and the key of its session. -/
def keptId (id : Bytes) : Bytes := (strncpy customerIdLen id).str

section Isolation

variable (stod : Bytes → Option ℚ)

/-- The line is accepted and carries the ID. -/
def WireLine.carries (id : Bytes) (w : WireLine) : Bool :=
  (parse stod w.line).isSome && idField w.line = some id

/-- Handling a line as a step of a machine on the session store. -/
def wireStep (sessions : SessionManager) (w : WireLine) : SessionManager × List Call :=
  handleLine stod w.env w.fd w.line sessions

/-- The session store after a run of lines. -/
def sessionsAfter (ws : List WireLine) : SessionManager :=
  (runMachine (wireStep stod) SessionManager.empty ws).1

/-- The calls made for the lines of one ID in a run. -/
def callsOf (id : Bytes) (ws : List WireLine) : List (WireLine × List Call) :=
  (outputsBy (wireStep stod) SessionManager.empty ws).filter fun p => p.1.carries stod id

variable {stod} {w : WireLine} {msg : WireMsg} {c d id : Bytes} {m m' : SessionManager}

/-! ## One line -/

/-- The message holds what is kept of the ID field. -/
lemma exists_idField (h : parse stod w.line = some msg) :
    ∃ id, idField w.line = some id ∧ msg.customerId.str = keptId id := by
  obtain ⟨token, ss, -, id, ss', -, -, -, -, -, -, -, -, htoken, -, hid, -, -, -, -, -, -, -,
    rfl⟩ := parse_cases h
  refine ⟨id, ?_, rfl⟩
  simp [idField, htoken, hid]

lemma WireLine.carries_iff :
    w.carries stod id ↔ ∃ msg, parse stod w.line = some msg ∧ idField w.line = some id ∧
      msg.customerId.str = keptId id := by
  unfold carries
  rw [Bool.and_eq_true, Option.isSome_iff_exists, decide_eq_true_iff]
  constructor
  · rintro ⟨⟨msg, hmsg⟩, hid⟩
    obtain ⟨id', hid', hkept⟩ := exists_idField hmsg
    obtain rfl : id' = id := Option.some.inj (hid'.symm.trans hid)
    exact ⟨msg, hmsg, hid, hkept⟩
  · rintro ⟨msg, hmsg, hid, -⟩
    exact ⟨⟨msg, hmsg⟩, hid⟩

/-- A line that is not accepted leaves the sessions alone. -/
lemma wireStep_of_none (h : parse stod w.line = none) (m : SessionManager) :
    wireStep stod m w = (m, [.parse w.fd w.line, .sendReply w.fd errBadMsg]) := by
  simp [wireStep, handleLine, h]

/-- A line that is accepted is processed as its message. -/
lemma wireStep_of_some (h : parse stod w.line = some msg) (m : SessionManager) :
    wireStep stod m w =
      ((processMessage w.env w.fd msg m).1,
        .parse w.fd w.line :: (processMessage w.env w.fd msg m).2) := by
  simp [wireStep, handleLine, h]

/-- The session of a key after a message depends on the session before it only, and the message
reaches the session of its own customer only. -/
lemma find_processMessage (env : CallEnv) (fd : ℕ) (msg : WireMsg) (m : SessionManager)
    (key : Bytes) :
    (processMessage env fd msg m).1.find key =
      if key = msg.customerId.str then
        match msg.type with
        | .msgStart => some ⟨msg.customerId.str, msg.lat, msg.lon, msg.city.str, env.now⟩
        | .msgEnd => none
      else m.find key := by
  unfold processMessage
  cases msg.type with
  | msgStart => exact m.find_start _ key
  | msgEnd =>
    have hend := m.find_endSession msg.customerId.str key
    cases hpair : m.endSession msg.customerId.str with
    | mk found m' =>
      rw [hpair] at hend
      simp only [hpair]
      cases found <;> exact hend

/-- What the server does about a message depends on the session of its customer only. -/
lemma calls_processMessage (env : CallEnv) (fd : ℕ) (h : m.find msg.customerId.str =
    m'.find msg.customerId.str) :
    (processMessage env fd msg m).2 = (processMessage env fd msg m').2 := by
  unfold processMessage
  cases msg.type with
  | msgStart => rfl
  | msgEnd =>
    rw [← m.endSession_fst, ← m'.endSession_fst] at h
    cases hpair : m.endSession msg.customerId.str with
    | mk found rest =>
      cases hpair' : m'.endSession msg.customerId.str with
      | mk found' rest' =>
        rw [hpair, hpair'] at h
        obtain rfl : found = found' := h
        simp only [hpair, hpair']
        cases found <;> rfl

/-- A line does not reach the session of an ID of which something else is kept. -/
lemma find_wireStep_of_carries (hcd : keptId c ≠ keptId d) (hw : w.carries stod d)
    (m : SessionManager) : (wireStep stod m w).1.find (keptId c) = m.find (keptId c) := by
  obtain ⟨msg, hmsg, -, hkept⟩ := WireLine.carries_iff.mp hw
  rw [wireStep_of_some hmsg, find_processMessage, hkept, if_neg hcd]

/-- A line makes the same of equal sessions. -/
lemma find_wireStep_congr (h : m.find id = m'.find id) :
    (wireStep stod m w).1.find id = (wireStep stod m' w).1.find id := by
  cases hmsg : parse stod w.line with
  | none => rw [wireStep_of_none hmsg, wireStep_of_none hmsg, h]
  | some msg =>
    rw [wireStep_of_some hmsg, wireStep_of_some hmsg, find_processMessage, find_processMessage, h]

/-- The calls for a line depend on the session of its ID only. -/
lemma calls_wireStep_congr (hw : w.carries stod c) (h : m.find (keptId c) = m'.find (keptId c)) :
    (wireStep stod m w).2 = (wireStep stod m' w).2 := by
  obtain ⟨msg, hmsg, -, hkept⟩ := WireLine.carries_iff.mp hw
  rw [wireStep_of_some hmsg, wireStep_of_some hmsg,
    calls_processMessage w.env w.fd (hkept.symm ▸ h)]

/-! ## Runs -/

/-- **Isolation.**  If different strings are kept of two IDs, a line of the second one never
touches the session of the first, and without the lines of the second ID the records and replies of
the first are the same. -/
theorem customers_isolated (hcd : keptId c ≠ keptId d) (ws : List WireLine) :
    (∀ before w, before ++ [w] <+: ws → w.carries stod d →
        (sessionsAfter stod (before ++ [w])).find (keptId c) =
          (sessionsAfter stod before).find (keptId c)) ∧
      callsOf stod c ws = callsOf stod c (ws.filter fun w => !w.carries stod d) := by
  constructor
  · intro before w _ hw
    unfold sessionsAfter
    rw [runMachine_concat]
    exact find_wireStep_of_carries hcd hw _
  · refine outputsBy_purge (fun m m' => m.find (keptId c) = m'.find (keptId c)) ?_ ?_ ?_ ?_
      rfl ws
    · intro w hc
      by_contra hd
      obtain ⟨-, -, hidc, -⟩ := WireLine.carries_iff.mp hc
      obtain ⟨-, -, hidd, -⟩ := WireLine.carries_iff.mp (by simpa using hd)
      exact hcd (congrArg keptId (Option.some.inj (hidc.symm.trans hidd)))
    · intro m m' w h hd
      exact (find_wireStep_of_carries hcd hd m).trans h
    · intro m m' w h _
      exact find_wireStep_congr h
    · intro m m' w h hc
      exact calls_wireStep_congr hc h

end Isolation

/-! ## IDs that agree in 63 bytes -/

/-- A line of a customer at a clock reading. -/
def telAvivLine (type : MsgType) (id : Bytes) (now : ℤ) : WireLine :=
  ⟨⟨now, now, .zero⟩, 5,
    type.byte :: bar ::
      (id ++ bar :: (ascii "32.08" ++ comma :: (ascii "34.78" ++ bar :: ascii "TelAviv")))⟩

/-- The lines of `CAR-001` are answered the same without those of `CAR-002`. -/
theorem customers_isolated_two_cars :
    let ws := [telAvivLine .msgStart (ascii "CAR-001") 0, telAvivLine .msgEnd (ascii "CAR-002") 60,
      telAvivLine .msgEnd (ascii "CAR-001") 120]
    callsOf readDecimal (ascii "CAR-001") ws =
      callsOf readDecimal (ascii "CAR-001")
        (ws.filter fun w => !w.carries readDecimal (ascii "CAR-002")) :=
  (customers_isolated (show keptId (ascii "CAR-001") ≠ keptId (ascii "CAR-002") by decide) _).2

/-- Two IDs of 64 bytes that differ in the last one share a session: the line of the second one ends
the session of the first. -/
theorem not_every_customer_isolated :
    ¬ ∀ (c d : Bytes) (ws : List WireLine), c ≠ d →
      callsOf readDecimal c ws =
        callsOf readDecimal c (ws.filter fun w => !w.carries readDecimal d) := by
  intro h
  let c := List.replicate 63 byteS ++ [byteS]
  let d := List.replicate 63 byteS ++ [byteE]
  have hcalls := h c d
    [telAvivLine .msgStart c 0, telAvivLine .msgEnd d 60, telAvivLine .msgEnd c 120] (by decide)
  have hreplies := congrArg (List.map fun p => sentReplies p.2) hcalls
  revert hreplies
  decide +kernel

end ParkingSystem
