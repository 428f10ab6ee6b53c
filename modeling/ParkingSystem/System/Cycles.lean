import ParkingSystem.Foundation.Trace
import ParkingSystem.Server.Billing
import ParkingSystem.Stm32.Ticks
import ParkingSystem.System.FrameToMessage

/-!
# Parking cycles across the system

The STM32, the reader of the BeagleBone and the server as one system: a step is a tick of the
STM32, or a poll, in which the frame exposed at the moment is read, forwarded and handled by the
server.  The system keeps a record of the polls of each parking cycle, apart from what the server
knows.

The server bills a finished cycle from the *last* poll of its start frame, since each start
message overwrites the session.  The bill is the one from the first poll exactly when the clock
did not move between the two.
-/

namespace ParkingSystem

open Foundation

/-! ## The system -/

/-- The polls during one parking cycle. -/
structure Cycle where
  /-- The number of the vehicle. -/
  idx : ℕ
  /-- The polls of the start frame, with the environment in which the server handles each. -/
  starts : List CallEnv
  /-- The polls of the end frame. -/
  stops : List CallEnv

/-- The three components, the calls of the server so far, and the history of the polls. -/
structure ParkingSys where
  stm : Stm32
  server : TcpServer
  calls : List Call
  /-- The cycles before the current one. -/
  past : List Cycle
  current : Cycle
  /-- The last clock reading. -/
  clock : ℤ

/-- A step of the system. -/
inductive SysEvent where
  /-- The main loop of the STM32 handles a tick. -/
  | tick
  /-- The BeagleBone reads the exposed frame, and the server handles what it forwards. -/
  | poll (env : CallEnv)

section System

variable (stod : Bytes → Option ℚ) (table : VehicleTable) (fd : ℕ)

/-- The system at power on; the BeagleBone is connected on the descriptor `fd`. -/
def ParkingSys.init (clock : ℤ) : ParkingSys where
  stm := Stm32.powerOn table
  server := ⟨SessionManager.empty, AList.insert fd [] ∅, []⟩
  calls := []
  past := []
  current := ⟨0, [], []⟩
  clock := clock

/-- A tick.  A start frame after an end frame begins the next cycle. -/
def ParkingSys.tick (s : ParkingSys) : ParkingSys :=
  let stm := s.stm.onTick table
  if s.stm.frame.type = byteE ∧ stm.frame.type = byteS then
    { s with stm := stm, past := s.past ++ [s.current], current := ⟨s.stm.vehicleIdx, [], []⟩ }
  else { s with stm := stm }

/-- A poll: one pass of the main loop of `bbg_i2c`, whose output reaches the server. -/
def ParkingSys.poll (s : ParkingSys) (env : CallEnv) : ParkingSys :=
  let (server, calls) := match i2cForward s.stm.frame.bytes with
    | some text => handleClient stod (fun _ => env) fd text s.server
    | none => (s.server, [])
  { s with
    server := server
    calls := s.calls ++ calls
    current := if s.stm.frame.type = byteS
      then { s.current with starts := s.current.starts ++ [env] }
      else { s.current with stops := s.current.stops ++ [env] }
    clock := env.nowEnd }

/-- The step function of the system. -/
def sysStep (s : ParkingSys) : SysEvent → Option ParkingSys
  | .tick => some (s.tick table)
  | .poll env => some (s.poll stod fd env)

/-- The side conditions of a step: the clock does not go back, and a frame is read at least once
before another one replaces it. -/
def SysValid (s : ParkingSys) : SysEvent → Prop
  | .tick => (s.stm.onTick table).frame.type ≠ s.stm.frame.type →
      if s.stm.frame.type = byteS then s.current.starts ≠ [] else s.current.stops ≠ []
  | .poll env => s.clock ≤ env.now ∧ env.now ≤ env.nowEnd

instance (s : ParkingSys) (e : SysEvent) : Decidable (SysValid table s e) := by
  cases e <;> unfold SysValid <;> infer_instance

/-! ## The bill of a cycle -/

/-- The message that a frame of the vehicle is decoded into. -/
def vehicleMsg (type : MsgType) (v : Vehicle) : WireMsg where
  type := type
  customerId := strncpy customerIdLen v.customerId
  lat := (stod v.latitude).getD 0
  lon := (stod v.longitude).getD 0
  city := strncpy cityNameLen v.city

/-- The message of the vehicle number `idx` as it is handled in an environment. -/
def frameDelivery (idx : ℕ) (type : MsgType) (env : CallEnv) : Delivery :=
  ⟨env, fd, vehicleMsg stod type (table.vehicle idx)⟩

/-- The record of a cycle that is billed from the given poll of its start frame to the first poll
of its end frame. -/
def Cycle.bill (c : Cycle) (start : Option CallEnv) : Option ParkingRecord := do
  let start ← start
  let stop ← c.stops.head?
  some (billRecord (frameDelivery stod table fd c.idx .msgStart start)
    (frameDelivery stod table fd c.idx .msgEnd stop))

/-- The cycles whose end frame has been read. -/
def ParkingSys.finished (s : ParkingSys) : List Cycle :=
  s.past ++ if s.current.stops = [] then [] else [s.current]

/-! ## The invariant -/

/-- What holds in every state reached. -/
structure SysInv (s : ParkingSys) : Prop where
  /-- The exposed frame is one of the current cycle, whose end frame is not read before it is
  exposed, and whose start frame has been read by then. -/
  inCycle : ∃ type, s.stm.InCycle table s.current.idx type ∧
    (type = .msgStart → s.current.stops = []) ∧ (type = .msgEnd → s.current.starts ≠ [])
  /-- The server keeps no partial line. -/
  buffer : s.server.recvBufs.lookup fd = some []
  /-- The only session is that of the current cycle, from the last poll of its start frame. -/
  sessions : ∀ id, s.server.sessions.find id =
    if id = (table.vehicle s.current.idx).customerId ∧ s.current.stops = [] then
      s.current.starts.getLast?.map fun env =>
        (frameDelivery stod table fd s.current.idx .msgStart env).session
    else none
  /-- Both frames of a past cycle have been read. -/
  read : ∀ c ∈ s.past, c.starts ≠ [] ∧ c.stops ≠ []
  /-- There is one record for each finished cycle, billed from the last poll of its start frame. -/
  records : (storedRecords s.calls).map some =
    s.finished.map fun c => c.bill stod table fd c.starts.getLast?

lemma sysInv_init (clock : ℤ) : SysInv stod table fd (ParkingSys.init table fd clock) where
  inCycle := ⟨.msgStart, Stm32.inCycle_powerOn table, fun _ => rfl, by simp⟩
  buffer := AList.lookup_insert _
  sessions := by simp [ParkingSys.init]
  read := by simp [ParkingSys.init]
  records := by simp [ParkingSys.init, ParkingSys.finished]

variable {stod table fd}

/-- A tick keeps the invariant: it changes the exposed frame only after the frame has been read. -/
lemma sysInv_tick {s : ParkingSys} (hs : SysInv stod table fd s)
    (hok : SysValid table s .tick) : SysInv stod table fd (s.tick table) := by
  obtain ⟨type, hin, hstops, hstarts⟩ := hs.inCycle
  rcases Stm32.onTick_cases hin with hsame | ⟨rfl, hend⟩ | ⟨rfl, hnext⟩
  · -- the frame stays
    have hkeep : ¬(s.stm.frame.type = byteE ∧ (s.stm.onTick table).frame.type = byteS) := by
      simp only [hin.frame_eq, hsame.frame_eq, buildFrame_type]
      rintro ⟨hE, hS⟩
      exact byteE_ne_byteS (hE.symm.trans hS)
    unfold ParkingSys.tick
    rw [if_neg hkeep]
    exact { hs with inCycle := ⟨type, hsame, hstops, hstarts⟩ }
  · -- the end frame is exposed
    have hread : s.current.starts ≠ [] := by
      simpa [SysValid, hin.frame_eq, hend.frame_eq, MsgType.byte] using hok
    have hkeep : ¬(s.stm.frame.type = byteE ∧ (s.stm.onTick table).frame.type = byteS) := by
      simp [hend.frame_eq]
    unfold ParkingSys.tick
    rw [if_neg hkeep]
    exact { hs with inCycle := ⟨.msgEnd, hend, by simp, fun _ => hread⟩ }
  · -- the next cycle begins
    have hread : s.current.stops ≠ [] := by
      simpa [SysValid, hin.frame_eq, hnext.frame_eq, MsgType.byte, byteE_ne_byteS.symm] using hok
    have hbegin : s.stm.frame.type = byteE ∧ (s.stm.onTick table).frame.type = byteS := by
      simp [hin.frame_eq, hnext.frame_eq]
    unfold ParkingSys.tick
    rw [if_pos hbegin]
    exact {
      inCycle := ⟨.msgStart, hnext, fun _ => rfl, by simp⟩
      buffer := hs.buffer
      sessions := fun id => by simp [hs.sessions id, hread]
      read := List.forall_mem_append.mpr
        ⟨hs.read, List.forall_mem_singleton.mpr ⟨hstarts rfl, hread⟩⟩
      records := by simpa [ParkingSys.finished, hread] using hs.records }

/-- The vehicles are well formed, and their coordinates are numbers for the server. -/
def VehicleTable.Decodable (stod : Bytes → Option ℚ) (table : VehicleTable) : Prop :=
  ∀ v ∈ table.rows, v.WellFormed ∧ (stod v.latitude).isSome ∧ (stod v.longitude).isSome

/-- What a poll does: the server handles the message of the exposed frame. -/
lemma poll_eq (htable : table.Decodable stod) {s : ParkingSys} {type : MsgType}
    (hframe : s.stm.frame = buildFrame table s.current.idx type)
    (hbuf : s.server.recvBufs.lookup fd = some []) (env : CallEnv) :
    let d := frameDelivery stod table fd s.current.idx type env
    s.poll stod fd env = { s with
      server := { s.server with
        sessions := (deliver s.server.sessions d).1
        recvBufs := s.server.recvBufs.insert fd [] }
      calls := s.calls ++ .recv fd (wireText s.stm.frame) :: .parse fd (wireLine s.stm.frame) ::
        (deliver s.server.sessions d).2
      current := match type with
        | .msgStart => { s.current with starts := s.current.starts ++ [env] }
        | .msgEnd => { s.current with stops := s.current.stops ++ [env] }
      clock := env.nowEnd } := by
  obtain ⟨hwf, hlat, hlon⟩ := htable _ (table.vehicle_mem s.current.idx)
  obtain ⟨lat, hlat⟩ := Option.isSome_iff_exists.mp hlat
  obtain ⟨lon, hlon⟩ := Option.isSome_iff_exists.mp hlon
  have htype := buildFrame_type_accepted table s.current.idx type
  have hhandle := (hwf.separable type).handleClient_wireText htype stod hbuf fun _ => env
  have hparse := hwf.parse_wireLine type hlat hlon
  simp only [ParkingSys.poll, hframe, (i2cForward_bytes _ htype).1, hhandle, handleLine, hparse]
  cases type <;> simp [deliver, frameDelivery, vehicleMsg, hlat, hlon, MsgType.byte]

/-- The customer of a cycle's messages is its vehicle. -/
lemma customer_frameDelivery (htable : table.Decodable stod) (fd idx : ℕ) (type : MsgType)
    (env : CallEnv) :
    (frameDelivery stod table fd idx type env).customer = (table.vehicle idx).customerId := by
  obtain ⟨hwf, -⟩ := htable _ (table.vehicle_mem idx)
  exact str_strncpy_of_lt (hwf.no_control _ (by simp)).1
    (hwf.length_customerId.2.trans_lt (by norm_num))

/-- Polling the start frame opens the session anew, and stores no record. -/
lemma sysInv_poll_start (htable : table.Decodable stod) {s : ParkingSys}
    (hs : SysInv stod table fd s) (hin : s.stm.InCycle table s.current.idx .msgStart)
    (hstops : s.current.stops = []) (env : CallEnv) :
    SysInv stod table fd (s.poll stod fd env) := by
  have hid := customer_frameDelivery htable fd s.current.idx .msgStart env
  rw [poll_eq htable hin.frame_eq hs.buffer, deliver_of_start rfl]
  exact {
    inCycle := ⟨.msgStart, hin, fun _ => hstops, by simp⟩
    buffer := AList.lookup_insert _
    sessions := by
      intro id
      simp only [SessionManager.find_start, hs.sessions id, hstops, and_true]
      by_cases h : id = (table.vehicle s.current.idx).customerId
      · subst h
        simp [Delivery.session, hid]
      · simp [h, Delivery.session, hid]
    read := hs.read
    records := by
      simpa [ParkingSys.finished, hstops] using hs.records }

/-- Polling the end frame closes the session, if it is still open, and then stores its record. -/
lemma sysInv_poll_end (htable : table.Decodable stod) {s : ParkingSys}
    (hs : SysInv stod table fd s) (hin : s.stm.InCycle table s.current.idx .msgEnd)
    (hstarts : s.current.starts ≠ []) (env : CallEnv) :
    SysInv stod table fd (s.poll stod fd env) := by
  have hid := customer_frameDelivery htable fd s.current.idx .msgEnd env
  obtain ⟨last, hlast⟩ : ∃ last, s.current.starts.getLast? = some last :=
    Option.ne_none_iff_exists'.mp (by simpa using hstarts)
  rw [poll_eq htable hin.frame_eq hs.buffer]
  have hfind := hs.sessions (table.vehicle s.current.idx).customerId
  rw [← hid] at hfind
  -- either this is the first poll of the end frame, or the session is closed already
  by_cases hstops : s.current.stops = []
  · simp only [hstops, and_self, if_true, hlast, Option.map_some] at hfind
    obtain ⟨hstate, hcalls⟩ := deliver_of_end_some rfl hfind
    simp only [hstate, hcalls]
    exact {
      inCycle := ⟨.msgEnd, hin, by simp, fun _ => hstarts⟩
      buffer := AList.lookup_insert _
      sessions := by
        intro id
        simp only [SessionManager.find_endSession, hs.sessions id, hid]
        by_cases h : id = (table.vehicle s.current.idx).customerId <;> simp [h]
      read := hs.read
      records := by
        have hrec := hs.records
        simp only [ParkingSys.finished, hstops, if_true, List.append_nil] at hrec
        simp [ParkingSys.finished, hstops, hrec, Cycle.bill, hlast] }
  · simp only [hstops, and_false, if_false] at hfind
    obtain ⟨hstate, hcalls⟩ := deliver_of_end_none rfl hfind
    simp only [hstate, hcalls]
    obtain ⟨first, rest, hcons⟩ := List.exists_cons_of_ne_nil hstops
    exact {
      inCycle := ⟨.msgEnd, hin, by simp, fun _ => hstarts⟩
      buffer := AList.lookup_insert _
      sessions := by
        intro id
        simp [SessionManager.find_endSession, hs.sessions id, hstops]
      read := hs.read
      records := by
        have hrec := hs.records
        simp only [ParkingSys.finished, hstops, if_false] at hrec
        simp [ParkingSys.finished, hrec, Cycle.bill, hcons] }

/-- Every step keeps the invariant. -/
lemma sysInv_step (htable : table.Decodable stod) {s s' : ParkingSys} {e : SysEvent}
    (hs : SysInv stod table fd s) (hok : SysValid table s e)
    (hstep : sysStep stod table fd s e = some s') : SysInv stod table fd s' := by
  cases e with
  | tick =>
    obtain rfl := Option.some.inj hstep
    exact sysInv_tick hs hok
  | poll env =>
    obtain rfl := Option.some.inj hstep
    obtain ⟨type, hin, hstops, hstarts⟩ := hs.inCycle
    cases type with
    | msgStart => exact sysInv_poll_start htable hs hin (hstops rfl) env
    | msgEnd => exact sysInv_poll_end htable hs hin (hstarts rfl) env

/-- Both frames of a finished cycle have been read. -/
lemma SysInv.finished_read {s : ParkingSys} (hs : SysInv stod table fd s) {c : Cycle}
    (hc : c ∈ s.finished) : c.starts ≠ [] ∧ c.stops ≠ [] := by
  rw [ParkingSys.finished, List.mem_append] at hc
  rcases hc with hc | hc
  · exact hs.read c hc
  · split_ifs at hc with hstops
    · simp at hc
    · rw [List.mem_singleton.mp hc]
      obtain ⟨type, -, hnone, hread⟩ := hs.inCycle
      cases type with
      | msgStart => exact absurd (hnone rfl) hstops
      | msgEnd => exact ⟨hread rfl, hstops⟩

/-- The bill of a finished cycle depends on the clock reading at the poll of the start frame from
which it is billed, and on nothing else about this poll. -/
lemma Cycle.bill_eq_bill_iff {c : Cycle} (hstops : c.stops ≠ []) (a b : CallEnv) :
    c.bill stod table fd (some a) = c.bill stod table fd (some b) ↔ a.now = b.now := by
  obtain ⟨stop, rest, hcons⟩ := List.exists_cons_of_ne_nil hstops
  simp only [Cycle.bill, hcons, List.head?_cons, Option.bind_eq_bind, Option.bind_some,
    Option.some.injEq]
  constructor
  · intro h
    exact congrArg ParkingRecord.startTime h
  · intro h
    simp [billRecord, billedFee, billedMinutes, frameDelivery, h]

/-- **When re-reading a start frame is harmless.**  In every run of the system in which every
exposed frame is read before it is replaced, the records are those of the finished cycles, each
billed from the first poll of its start frame to the first poll of its end frame, if and only if in
every finished cycle the clock showed the same time at the last poll of the start frame as at the
first one. -/
theorem records_from_first_start_iff (htable : table.Decodable stod) {clock : ℤ}
    {es : List SysEvent} {s : ParkingSys}
    (hrun : Trace (sysStep stod table fd) (SysValid table) (ParkingSys.init table fd clock) es s) :
    (storedRecords s.calls).map some =
        s.finished.map (fun c => c.bill stod table fd c.starts.head?) ↔
      ∀ c ∈ s.finished, c.starts.head?.map CallEnv.now = c.starts.getLast?.map CallEnv.now := by
  have hinv : SysInv stod table fd s :=
    hrun.invariant (sysInv_init stod table fd clock) fun _ _ _ hs hok hstep =>
      sysInv_step htable hs hok hstep
  rw [hinv.records, List.map_inj_left]
  refine forall₂_congr ?_
  intro c hc
  obtain ⟨hstarts, hstops⟩ := hinv.finished_read hc
  rw [List.head?_eq_some_head hstarts, List.getLast?_eq_some_getLast hstarts,
    Cycle.bill_eq_bill_iff hstops]
  simp [eq_comm]

end System

/-! ## A minute of parking -/

/-- Half a unit a minute in Tel Aviv, at the given clock reading. -/
def telAvivAt (now : ℤ) : CallEnv :=
  ⟨now, now, PriceArea.zero.push ⟨strncpy cityNameLen (ascii "TelAviv"), 1 / 2, true⟩ (by decide)⟩

/-- The start frame of the first vehicle is read at the given times; eleven ticks later the end
frame is exposed, and it is read after a minute. -/
def minuteRun (starts : List ℤ) : List SysEvent :=
  starts.map (fun now => .poll (telAvivAt now)) ++ List.replicate 12 .tick ++ [.poll (telAvivAt 60)]

lemma gVehicles_decodable : gVehicles.Decodable readDecimal := by
  refine fun v hv => ⟨gVehicles_wellFormed v hv, ?_⟩
  simp only [gVehicles, List.mem_cons, List.not_mem_nil, or_false] at hv
  rcases hv with rfl | rfl | rfl | rfl <;> decide +kernel

/-- Re-reading a start frame changes the bill: a minute of parking is billed from the last poll. -/
theorem not_every_run_from_first_start :
    ¬ ∀ (stod : Bytes → Option ℚ) (table : VehicleTable) (fd : ℕ), table.Decodable stod →
      ∀ (clock : ℤ) (es : List SysEvent) (s : ParkingSys),
        Trace (sysStep stod table fd) (SysValid table) (ParkingSys.init table fd clock) es s →
        (storedRecords s.calls).map some =
          s.finished.map (fun c => c.bill stod table fd c.starts.head?) := by
  intro h
  have hfails : (replayEvents (sysStep readDecimal gVehicles 5) (SysValid gVehicles)
      (ParkingSys.init gVehicles 5 0) (minuteRun [0, 60])).map (fun s =>
        decide ((storedRecords s.calls).map some =
          s.finished.map (fun c => c.bill readDecimal gVehicles 5 c.starts.head?))) =
      some false := by decide +kernel
  obtain ⟨s, hs, hfalse⟩ := Option.map_eq_some_iff.mp hfails
  exact of_decide_eq_false hfalse
    (h readDecimal gVehicles 5 gVehicles_decodable 0 _ s (Trace.of_replayEvents hs))

theorem records_from_first_start_iff_minute :
    ∃ s, Trace (sysStep readDecimal gVehicles 5) (SysValid gVehicles)
        (ParkingSys.init gVehicles 5 0) (minuteRun [0]) s ∧
      (storedRecords s.calls).map some =
        s.finished.map (fun c => c.bill readDecimal gVehicles 5 c.starts.head?) := by
  have hsame : (replayEvents (sysStep readDecimal gVehicles 5) (SysValid gVehicles)
      (ParkingSys.init gVehicles 5 0) (minuteRun [0])).map (fun s => s.finished.map (fun c =>
        (c.starts.head?.map CallEnv.now, c.starts.getLast?.map CallEnv.now))) =
      some [(some 0, some 0)] := by decide +kernel
  obtain ⟨s, hs, hnow⟩ := Option.map_eq_some_iff.mp hsame
  have hrun := Trace.of_replayEvents hs
  refine ⟨s, hrun, (records_from_first_start_iff gVehicles_decodable hrun).mpr ?_⟩
  intro c hc
  have hmem := List.mem_map_of_mem (f := fun c : Cycle =>
    (c.starts.head?.map CallEnv.now, c.starts.getLast?.map CallEnv.now)) hc
  rw [hnow, List.mem_singleton, Prod.mk.injEq] at hmem
  rw [hmem.1, hmem.2]

end ParkingSystem
