import ParkingSystem.Db.Database
import ParkingSystem.Server.TcpServer

/-!
# Auditing a record

An end message reads the clock twice: for the elapsed time, from which the fee is calculated, and,
after the price lookup, for the end time of the record.  So the fee of a record is that of its own
start and end times if and only if the two readings are the same.

The row of the record in `customer_data` has its times as local times, without the time zone.  An
audit that is given the price used finds the fee in the row if, besides, the local time is as far
ahead of UTC at the end as at the start, or the parking was free.
-/

namespace ParkingSystem

open Foundation

/-- The local variables of the end branch of `processMessage`. -/
structure EndCharge where
  elapsedMin : ℚ
  pricePerMin : ℚ
  fee : ℚ

/-- What an end message charges for the session that it closes. -/
def endCharge (env : CallEnv) (session : Session) : EndCharge :=
  let elapsedMin := session.elapsedMinutes env.now
  let price := lookup env.prices session.city
  let pricePerMin := if price < 0 then 0 else price
  ⟨elapsedMin, pricePerMin, elapsedMin * pricePerMin⟩

/-- The minutes between the start and the end time of a record. -/
def ParkingRecord.minutes (rec' : ParkingRecord) : ℚ :=
  ((rec'.endTime - rec'.startTime : ℤ) : ℚ) / 60

/-- The record explains the charge: its fee is that of its own times at the price used, and the
reply names its minutes and its fee. -/
structure SelfConsistent (rec' : ParkingRecord) (charge : EndCharge) : Prop where
  totalFee_eq : rec'.totalFee = rec'.minutes * charge.pricePerMin
  elapsedMin_eq : charge.elapsedMin = rec'.minutes
  fee_eq : charge.fee = rec'.totalFee

/-- The record that an end message stores for the session that it closes. -/
def endRecord (env : CallEnv) (msg : WireMsg) (session : Session) : ParkingRecord where
  customerId := strncpy customerIdLen msg.customerId.str
  startLat := session.startLat
  startLon := session.startLon
  endLat := msg.lat
  endLon := msg.lon
  startTime := session.startTime
  endTime := env.nowEnd
  totalFee := (endCharge env session).fee
  city := strncpy cityNameLen session.city
  complete := true

/-- The minutes between the start and the end time that a row shows. -/
def CustomerRow.minutes (row : CustomerRow) : ℚ :=
  ((readTime row.endTime - readTime row.startTime : ℤ) : ℚ) / 60

/-- The fee that an audit calculates from the times of a row, at a price that it has from
elsewhere. -/
def CustomerRow.auditFee (row : CustomerRow) (pricePerMin : ℚ) : ℚ := row.minutes * pricePerMin

/-- The end message stores a record that explains the charge, and replies with the charge; and an
audit of the row of the record, whenever it is inserted, finds the fee charged. -/
def EndConsistent (zone : ℤ → ℤ) (env : CallEnv) (fd : ℕ) (msg : WireMsg)
    (sessions : SessionManager) (session : Session) : Prop :=
  ∃ rec', (processMessage env fd msg sessions).2 =
      [.storeRecord rec', .sendReply fd
        (okFee (endCharge env session).fee (endCharge env session).elapsedMin)] ∧
    SelfConsistent rec' (endCharge env session) ∧
    ∀ now, (customerRow zone now rec').auditFee (endCharge env session).pricePerMin =
      (endCharge env session).fee

section Audit

variable {env : CallEnv} {fd : ℕ} {msg : WireMsg} {sessions : SessionManager} {session : Session}

/-- The calls of an end message that closes a session. -/
lemma processMessage_end (hend : msg.type = .msgEnd)
    (hopen : sessions.find msg.customerId.str = some session) :
    (processMessage env fd msg sessions).2 =
      [.storeRecord (endRecord env msg session), .sendReply fd
        (okFee (endCharge env session).fee (endCharge env session).elapsedMin)] := by
  have hfst := sessions.endSession_fst msg.customerId.str
  rw [hopen] at hfst
  cases hsession : sessions.endSession msg.customerId.str with
  | mk found rest =>
    rw [hsession] at hfst
    subst hfst
    simp only [processMessage, hend, hsession]
    rfl

/-- The record explains the charge exactly when both clock readings are the same. -/
lemma selfConsistent_endRecord_iff (env : CallEnv) (msg : WireMsg) (session : Session) :
    SelfConsistent (endRecord env msg session) (endCharge env session) ↔ env.nowEnd = env.now := by
  have hminutes : (endRecord env msg session).minutes =
      ((env.nowEnd - session.startTime : ℤ) : ℚ) / 60 := rfl
  have helapsed : (endCharge env session).elapsedMin =
      ((env.now - session.startTime : ℤ) : ℚ) / 60 := rfl
  constructor
  · intro h
    have heq := h.elapsedMin_eq
    rw [hminutes, helapsed, div_left_inj' (by norm_num), Int.cast_inj] at heq
    omega
  · intro heq
    have hsame : (endCharge env session).elapsedMin = (endRecord env msg session).minutes := by
      rw [hminutes, helapsed, heq]
    refine ⟨?_, hsame, rfl⟩
    rw [← hsame]
    rfl

/-- The price used is not below zero, and zero if the table has no price above it. -/
lemma pricePerMin_eq_zero_iff (env : CallEnv) (session : Session) :
    (endCharge env session).pricePerMin = 0 ↔ lookup env.prices session.city ≤ 0 := by
  change (if lookup env.prices session.city < 0 then 0 else lookup env.prices session.city) = 0 ↔ _
  split_ifs with hneg
  · simp [hneg.le]
  · exact ⟨fun h => h.le, fun h => le_antisymm h (not_lt.mp hneg)⟩

/-- A row shows the minutes between the local times. -/
lemma minutes_customerRow (zone : ℤ → ℤ) (now : ℤ) (rec' : ParkingRecord) :
    (customerRow zone now rec').minutes =
      ((rec'.endTime + zone rec'.endTime - (rec'.startTime + zone rec'.startTime) : ℤ) : ℚ) /
        60 := by
  simp only [CustomerRow.minutes, customerRow, fmtTime, readTime_showTime]

/-- If both clock readings are the same, the audit finds the fee exactly when the local time is as
far ahead at the end as at the start, or the parking was free. -/
lemma auditFee_endRecord_iff (zone : ℤ → ℤ) (hsame : env.nowEnd = env.now) (now : ℤ) :
    (customerRow zone now (endRecord env msg session)).auditFee
        (endCharge env session).pricePerMin = (endCharge env session).fee ↔
      zone session.startTime = zone env.now ∨ lookup env.prices session.city ≤ 0 := by
  have hfee : (endCharge env session).fee =
      ((env.now - session.startTime : ℤ) : ℚ) / 60 * (endCharge env session).pricePerMin := rfl
  have hminutes : (customerRow zone now (endRecord env msg session)).minutes =
      ((env.now + zone env.now - (session.startTime + zone session.startTime) : ℤ) : ℚ) / 60 := by
    rw [minutes_customerRow]
    simp only [endRecord, hsame]
  rw [CustomerRow.auditFee, hminutes, hfee, mul_eq_mul_right_iff, pricePerMin_eq_zero_iff,
    div_left_inj' (by norm_num), Int.cast_inj]
  refine or_congr_left ?_
  omega

/-- **When a record can be audited.**  An end message stores a record that explains its charge, and
whose row does so at the price used, if and only if both clock readings are the same, and the local
time is as far ahead of UTC then as at the start or the parking is free. -/
theorem endConsistent_iff {zone : ℤ → ℤ} (hend : msg.type = .msgEnd)
    (hopen : sessions.find msg.customerId.str = some session) :
    EndConsistent zone env fd msg sessions session ↔ env.nowEnd = env.now ∧
      (zone session.startTime = zone env.now ∨ lookup env.prices session.city ≤ 0) := by
  constructor
  · rintro ⟨rec', hcalls, hrec, haudit⟩
    rw [processMessage_end hend hopen] at hcalls
    obtain rfl := Call.storeRecord.inj (List.cons.inj hcalls).1
    have hsame := (selfConsistent_endRecord_iff env msg session).mp hrec
    exact ⟨hsame, (auditFee_endRecord_iff zone hsame 0).mp (haudit 0)⟩
  · rintro ⟨hsame, hzone⟩
    have hrec := (selfConsistent_endRecord_iff env msg session).mpr hsame
    exact ⟨_, processMessage_end hend hopen, hrec,
      fun now => (auditFee_endRecord_iff zone hsame now).mpr hzone⟩

/-- The store of the session of one car. -/
def oneSession (startTime : ℤ) : SessionManager :=
  SessionManager.empty.start ⟨ascii "CAR", 1, 2, ascii "Haifa", startTime⟩

/-- The end message of the car. -/
def carEnd : WireMsg := ⟨.msgEnd, strncpy customerIdLen (ascii "CAR"), 1, 2, strncpy cityNameLen []⟩

/-- A price table with one row. -/
def haifaPrices : PriceArea :=
  PriceArea.zero.push ⟨strncpy cityNameLen (ascii "Haifa"), 3 / 10, true⟩
    PriceArea.priceCount_zero_lt

/-- The local time is two hours ahead until the second 30, and three hours from then on; the parking
begins after that. -/
theorem endConsistent_iff_same_second :
    EndConsistent (fun t => if t < 30 then 7200 else 10800) ⟨120, 120, haifaPrices⟩ 5 carEnd
      (oneSession 60) ⟨ascii "CAR", 1, 2, ascii "Haifa", 60⟩ :=
  (endConsistent_iff rfl (by decide +kernel)).mpr ⟨rfl, .inl rfl⟩

/-- The clock goes on between the fee and the end time. -/
theorem not_every_end_consistent :
    ¬ ∀ (zone : ℤ → ℤ) (env : CallEnv) (fd : ℕ) (msg : WireMsg) (sessions : SessionManager)
      (session : Session), msg.type = .msgEnd →
        sessions.find msg.customerId.str = some session →
        session.startTime ≤ env.now → env.now ≤ env.nowEnd →
        EndConsistent zone env fd msg sessions session := by
  intro h
  have hopen : (oneSession 0).find carEnd.customerId.str =
      some ⟨ascii "CAR", 1, 2, ascii "Haifa", 0⟩ := by decide +kernel
  obtain ⟨rec', hcalls, hrec, -⟩ := h (fun _ => 0) ⟨60, 61, haifaPrices⟩ 5 carEnd (oneSession 0) _
    rfl hopen (by decide) (by decide)
  rw [processMessage_end rfl hopen] at hcalls
  obtain rfl := Call.storeRecord.inj (List.cons.inj hcalls).1
  have hsame := (selfConsistent_endRecord_iff _ _ _).mp hrec
  revert hsame
  decide

end Audit

end ParkingSystem
