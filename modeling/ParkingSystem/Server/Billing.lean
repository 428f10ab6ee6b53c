import ParkingSystem.Foundation.Machine
import ParkingSystem.Server.TcpServer

/-!
# Billing from the message history

The records that the server stores and the replies that it sends are determined by the messages
alone: an end message is billed against the most recent start message of the same customer after
that customer's previous end message.  The invariant behind it says that the session of a customer
is this start message.
-/

namespace ParkingSystem

open Foundation

/-- A decoded message with the descriptor it came from and the environment of its handling. -/
structure Delivery where
  env : CallEnv
  fd : ℕ
  msg : WireMsg

namespace Delivery

/-- The customer of a message. -/
def customer (d : Delivery) : Bytes := d.msg.customerId.str

/-- Whether the message is a start message of the customer. -/
def isStartOf (id : Bytes) (d : Delivery) : Bool := d.msg.type = .msgStart ∧ d.customer = id

/-- Whether the message is an end message of the customer. -/
def isEndOf (id : Bytes) (d : Delivery) : Bool := d.msg.type = .msgEnd ∧ d.customer = id

end Delivery

/-- The most recent start message of a customer since the customer's last end message. -/
def openStart (id : Bytes) (h : List Delivery) : Option Delivery :=
  (h.reverse.takeWhile fun d => !d.isEndOf id).find? fun d => d.isStartOf id

/-- The open start message after one more message. -/
lemma openStart_concat (id : Bytes) (h : List Delivery) (d : Delivery) :
    openStart id (h ++ [d]) =
      if d.isEndOf id then none else if d.isStartOf id then some d else openStart id h := by
  unfold openStart
  rw [List.reverse_append, List.reverse_singleton, List.singleton_append, List.takeWhile_cons]
  by_cases hend : d.isEndOf id
  · simp [hend]
  · by_cases hstart : d.isStartOf id <;> simp [hend, hstart]

/-! ## The bill -/

/-- The minutes from a start message to the handling of an end message. -/
def billedMinutes (start stop : Delivery) : ℚ := ((stop.env.now - start.env.now : ℤ) : ℚ) / 60

/-- The fee for the time from a start message to an end message, at the price that the city of
the start message has when the end message is handled; an unknown city is free. -/
def billedFee (start stop : Delivery) : ℚ :=
  billedMinutes start stop * max (lookup stop.env.prices start.msg.city.str) 0

/-- The record of a parking session from a start message to an end message. -/
def billRecord (start stop : Delivery) : ParkingRecord where
  customerId := strncpy customerIdLen stop.customer
  startLat := start.msg.lat
  startLon := start.msg.lon
  endLat := stop.msg.lat
  endLon := stop.msg.lon
  startTime := start.env.now
  endTime := stop.env.nowEnd
  totalFee := billedFee start stop
  city := strncpy cityNameLen start.msg.city.str
  complete := true

/-- The record that a message calls for, given the messages before it. -/
def expectedRecord (h : List Delivery) (d : Delivery) : Option ParkingRecord :=
  match d.msg.type with
  | .msgStart => none
  | .msgEnd => (openStart d.customer h).map fun start => billRecord start d

/-- The reply that a message calls for, given the messages before it. -/
def expectedReply (h : List Delivery) (d : Delivery) : Bytes :=
  match d.msg.type with
  | .msgStart => okStarted
  | .msgEnd =>
    match openStart d.customer h with
    | some start => okFee (billedFee start d) (billedMinutes start d)
    | none => errNoSession

/-- The calls that a message calls for, given the messages before it. -/
def expectedCalls (h : List Delivery) (d : Delivery) : List Call :=
  ((expectedRecord h d).map Call.storeRecord).toList ++ [.sendReply d.fd (expectedReply h d)]

/-! ## The server against the history -/

/-- Handle one message. -/
def deliver (sessions : SessionManager) (d : Delivery) : SessionManager × List Call :=
  processMessage d.env d.fd d.msg sessions

/-- The session that a start message opens. -/
def Delivery.session (d : Delivery) : Session :=
  ⟨d.customer, d.msg.lat, d.msg.lon, d.msg.city.str, d.env.now⟩

/-- The sessions are the open start messages. -/
def SessionsMatch (h : List Delivery) (m : SessionManager) : Prop :=
  ∀ id, m.find id = (openStart id h).map Delivery.session

/-- A start message opens its session and is acknowledged. -/
lemma deliver_of_start {d : Delivery} (hd : d.msg.type = .msgStart) (m : SessionManager) :
    deliver m d = (m.start d.session, [.sendReply d.fd okStarted]) := by
  simp [deliver, processMessage, hd, Delivery.session, Delivery.customer]

/-- An end message without a session is refused. -/
lemma deliver_of_end_none {d : Delivery} (hd : d.msg.type = .msgEnd) {m : SessionManager}
    (hfind : m.find d.customer = none) :
    (deliver m d).1 = (m.endSession d.customer).2 ∧
      (deliver m d).2 = [.sendReply d.fd errNoSession] := by
  have hfst : (m.endSession d.customer).1 = none := by rw [m.endSession_fst, hfind]
  cases hend : m.endSession d.customer with
  | mk found m' =>
    rw [hend] at hfst
    subst hfst
    rw [Delivery.customer] at hend
    simp [deliver, processMessage, hd, hend]

/-- An end message that closes the session of a start message is billed. -/
lemma deliver_of_end_some {d start : Delivery} (hd : d.msg.type = .msgEnd) {m : SessionManager}
    (hfind : m.find d.customer = some start.session) :
    (deliver m d).1 = (m.endSession d.customer).2 ∧
      (deliver m d).2 = [.storeRecord (billRecord start d),
        .sendReply d.fd (okFee (billedFee start d) (billedMinutes start d))] := by
  have hfst : (m.endSession d.customer).1 = some start.session := by rw [m.endSession_fst, hfind]
  have hprice : ∀ p : ℚ, (if p < 0 then 0 else p) = max p 0 := by
    intro p
    split_ifs with h
    · exact (max_eq_right h.le).symm
    · exact (max_eq_left (not_lt.mp h)).symm
  cases hend : m.endSession d.customer with
  | mk found m' =>
    rw [hend] at hfst
    subst hfst
    rw [Delivery.customer] at hend
    simp [deliver, processMessage, hd, hend, hprice, billRecord, billedFee, billedMinutes,
      Delivery.session, Session.elapsedMinutes, Delivery.customer]

/-- One message keeps the sessions in step with the history, and the calls made for it are those
that the history asks for. -/
lemma deliver_step (h : List Delivery) (m : SessionManager) (d : Delivery)
    (hm : SessionsMatch h m) :
    SessionsMatch (h ++ [d]) (deliver m d).1 ∧ (deliver m d).2 = expectedCalls h d := by
  cases hd : d.msg.type with
  | msgStart =>
    rw [deliver_of_start hd]
    refine ⟨?_, by simp [expectedCalls, expectedRecord, expectedReply, hd]⟩
    intro id
    rw [SessionManager.find_start, openStart_concat, hm id]
    have hend : d.isEndOf id = false := by simp [Delivery.isEndOf, hd]
    by_cases hid : id = d.customer
    · subst hid
      simp [hend, Delivery.isStartOf, hd, Delivery.session]
    · simp [hend, Delivery.isStartOf, hd, Ne.symm hid, hid, Delivery.session]
  | msgEnd =>
    -- whether or not there was a session, there is none afterwards
    have hmatch : SessionsMatch (h ++ [d]) (m.endSession d.customer).2 := by
      intro id
      rw [SessionManager.find_endSession, openStart_concat, hm id]
      have hstart : d.isStartOf id = false := by simp [Delivery.isStartOf, hd]
      by_cases hid : id = d.customer
      · simp [Delivery.isEndOf, hd, hid]
      · simp [hstart, Delivery.isEndOf, hd, hid, Ne.symm hid]
    cases hopen : openStart d.customer h with
    | none =>
      have hfind : m.find d.customer = none := by rw [hm, hopen]; rfl
      obtain ⟨hstate, hcalls⟩ := deliver_of_end_none hd hfind
      rw [hstate, hcalls]
      exact ⟨hmatch, by simp [expectedCalls, expectedRecord, expectedReply, hd, hopen]⟩
    | some start =>
      have hfind : m.find d.customer = some start.session := by rw [hm, hopen]; rfl
      obtain ⟨hstate, hcalls⟩ := deliver_of_end_some hd hfind
      rw [hstate, hcalls]
      exact ⟨hmatch, by simp [expectedCalls, expectedRecord, expectedReply, hd, hopen]⟩

/-- Handle a sequence of messages, starting without sessions. -/
def processMessages (ds : List Delivery) : SessionManager × List Call :=
  runMachine deliver SessionManager.empty ds

/-- After any sequence of messages the sessions are the open start messages, and the calls are
those that the history asks for. -/
theorem processMessages_eq (ds : List Delivery) :
    SessionsMatch ds (processMessages ds).1 ∧
      (processMessages ds).2 = (histories ds).flatMap fun p => expectedCalls p.1 p.2 :=
  outputs_eq_of_invariant deliver (fun id => by simp [openStart]) (fun h m d => deliver_step h m d)
    ds

/-- **Billing follows the history.**  The records stored are, in order, one for each end message
with an open start message and none otherwise, and every message gets the reply that its history
asks for. -/
theorem records_and_replies_of_history (ds : List Delivery) :
    storedRecords (processMessages ds).2 =
        (histories ds).filterMap (fun p => expectedRecord p.1 p.2) ∧
      sentReplies (processMessages ds).2 =
        (histories ds).map (fun p => (p.2.fd, expectedReply p.1 p.2)) := by
  rw [(processMessages_eq ds).2]
  induction histories ds with
  | nil => exact ⟨rfl, rfl⟩
  | cons p ps ih =>
    obtain ⟨hrec, hrep⟩ := ih
    rw [List.flatMap_cons, storedRecords_append, sentReplies_append, hrec, hrep]
    constructor
    · cases hr : expectedRecord p.1 p.2 <;>
        simp [expectedCalls, hr, storedRecords]
    · cases hr : expectedRecord p.1 p.2 <;>
        simp [expectedCalls, hr, sentReplies]

end ParkingSystem
