import ParkingSystem.System.FleetBilling
import ParkingSystem.System.RecordRing

/-!
# From the frame to the row

The fleet of `System/Fleet`, the ring of records and the database process as one system.  The server
is a single thread: the records of the lines that it has handled go into the ring, one after the
other, before it turns to the next client, while the boards and the poller go on.

As long as no call fails, and whatever the order of the steps, the rows that the database holds for
the vehicles of a board are the bills of its finished parking cycles, in their order and each of
them once, up to those that are still on the way.
-/

namespace ParkingSystem

open Foundation

/-- A step of the installation. -/
inductive PlantEvent (ι : Type*) where
  /-- A step of a board, or of the server outside `storeRecord`. -/
  | fleet (e : FleetEvent ι)
  /-- A step of the server in `storeRecord`, or of the database process. -/
  | ring (e : RingEvent)

/-- The installation: boards, server, ring and database. -/
structure Plant (ι : Type*) where
  fleet : Fleet ι
  ring : RingSys
  /-- The records of the lines handled for which `storeRecord` is still to be called. -/
  todo : List ParkingRecord

/-- The step is one of the server. -/
def FleetEvent.ofServer {ι : Type*} : FleetEvent ι → Bool
  | .board _ _ => false
  | .accept _ _ _ => true
  | .recv _ _ _ _ => true
  | .hangUp _ _ => true

/-- The record that `storeRecord` is at work on. -/
def StorePc.inHand : StorePc → List ParkingRecord
  | idle => []
  | entered rec _ => [rec]
  | written rec => [rec]

section Plant

variable {ι : Type*} [DecidableEq ι] (stod : Bytes → Option ℚ) (tables : ι → VehicleTable)
  (fds : ι → ℕ)

/-- The installation at power on. -/
def Plant.init (area : RecordArea) (db : Database) : Plant ι :=
  ⟨.init tables, .init area db, []⟩

/-- The step function of the installation. -/
def plantStep (s : Plant ι) : PlantEvent ι → Option (Plant ι)
  | .fleet e =>
    if e.ofServer ∧ (s.todo ≠ [] ∨ s.ring.store.inHand ≠ []) then none
    else (fleetStep stod tables s.fleet e).map fun fleet => { s with
      fleet := fleet
      todo := s.todo ++ storedRecords (fleet.calls.drop s.fleet.calls.length) }
  | .ring (.storeRecord rec) =>
    if s.todo.head? = some rec then
      (ringStep s.ring (.storeRecord rec)).map fun ring =>
        { s with ring := ring, todo := s.todo.tail }
    else none
  | .ring e => (ringStep s.ring e).map fun ring => { s with ring := ring }

/-- No call of the boards and of the server fails, every frame is read before it is replaced, and
the poller is less than `SHM_MAX_RECORDS` records behind when a slot is written. -/
def PlantOk (s : Plant ι) : PlantEvent ι → Prop
  | .fleet e => FleetInTime tables fds s.fleet e
  | .ring .writeSlot => s.ring.shm.recordCount - s.ring.lastSeen < shmMaxRecords
  | .ring _ => True

instance (s : Plant ι) (e : PlantEvent ι) : Decidable (PlantOk tables fds s e) := by
  unfold PlantOk
  split <;> infer_instance

end Plant

section Runs

variable {ι : Type*} [DecidableEq ι] {stod : Bytes → Option ℚ} {tables : ι → VehicleTable}
  {fds : ι → ℕ} {area : RecordArea} {db : Database} {s s' : Plant ι} {es : List (PlantEvent ι)}

/-- The records of the lines that a step of the fleet handles wait for `storeRecord`. -/
lemma plantStep_fleet {e : FleetEvent ι}
    (hs : plantStep stod tables s (.fleet e) = some s') :
    ∃ fleet, fleetStep stod tables s.fleet e = some fleet ∧
      s' = { s with
        fleet := fleet
        todo := s.todo ++ storedRecords (fleet.calls.drop s.fleet.calls.length) } := by
  simp only [plantStep, Option.ite_none_left_eq_some, Option.map_eq_some_iff] at hs
  obtain ⟨-, fleet, hfleet, rfl⟩ := hs
  exact ⟨fleet, hfleet, rfl⟩

/-- `storeRecord` is called with the first of these records; the other steps of the ring are free.
-/
lemma plantStep_ring {e : RingEvent} (hs : plantStep stod tables s (.ring e) = some s') :
    ∃ ring, ringStep s.ring e = some ring ∧
      ((∃ rec, e = .storeRecord rec ∧ s.todo = rec :: s'.todo) ∨
        (∀ rec, e ≠ .storeRecord rec) ∧ s'.todo = s.todo) ∧
      s'.fleet = s.fleet ∧ s'.ring = ring := by
  cases e with
  | storeRecord rec =>
    simp only [plantStep, Option.ite_none_right_eq_some, Option.map_eq_some_iff] at hs
    obtain ⟨htodo, ring, hring, rfl⟩ := hs
    refine ⟨ring, hring, Or.inl ⟨rec, rfl, ?_⟩, rfl, rfl⟩
    exact (List.cons_head?_tail htodo).symm
  | _ =>
    obtain ⟨ring, hring, rfl⟩ := Option.map_eq_some_iff.mp hs
    exact ⟨ring, hring, Or.inr ⟨fun rec => by simp, rfl⟩, rfl, rfl⟩

/-- The calls made so far stay. -/
lemma fleetStep_calls {f f' : Fleet ι} {e : FleetEvent ι}
    (hs : fleetStep stod tables f e = some f') : f.calls <+: f'.calls := by
  rcases fleetStep_cases hs with ⟨i, e', b, -, -, rfl⟩ | ⟨i, k, socket, calls, -, hcalls⟩
  · exact List.prefix_rfl
  · rw [hcalls]
    exact List.prefix_append _ _

/-- `storeRecord` takes a record in hand and stores it; no other step has to do with that. -/
lemma ringStep_inHand {r r' : RingSys} {e : RingEvent} (hs : ringStep r e = some r') :
    r'.stored ++ r'.store.inHand = r.stored ++ r.store.inHand ++
      (match e with | .storeRecord rec => [rec] | _ => []) := by
  cases e with
  | storeRecord rec =>
    obtain ⟨hidle, rfl⟩ := ringStep_storeRecord.mp hs
    simp [hidle, StorePc.inHand]
  | writeSlot =>
    obtain ⟨rec, idx, hentered, rfl⟩ := ringStep_writeSlot.mp hs
    simp [hentered, StorePc.inHand]
  | increment =>
    obtain ⟨rec, hwritten, -, rfl⟩ := ringStep_increment.mp hs
    simp [hwritten, StorePc.inHand]
  | snapshot =>
    obtain ⟨-, rfl⟩ := ringStep_snapshot.mp hs
    simp
  | readSlot =>
    obtain ⟨current, -, -, rfl⟩ := ringStep_readSlot.mp hs
    simp
  | insert =>
    obtain ⟨current, rec, -, ⟨-, rfl⟩ | ⟨-, rfl⟩⟩ := ringStep_insert.mp hs <;> simp
  | advance =>
    obtain ⟨current, -, rfl⟩ := ringStep_advance.mp hs
    simp
  | pollReturn =>
    obtain ⟨current, -, -, rfl⟩ := ringStep_pollReturn.mp hs
    simp

/-- What holds in every state of the installation: the records of the server are stored, in hand or
waiting, and the poller has inserted the first of them. -/
structure PlantInv (stod : Bytes → Option ℚ) (tables : ι → VehicleTable) (fds : ι → ℕ)
    (db : Database) (s : Plant ι) : Prop where
  fleet : ∃ es', Trace (fleetStep stod tables) (FleetInTime tables fds) (Fleet.init tables) es'
    s.fleet
  records : storedRecords s.fleet.calls = s.ring.stored ++ s.ring.store.inHand ++ s.todo
  ring : PollInv db s.ring

/-- Every step keeps this. -/
lemma PlantInv.step (htables : ∀ i, (tables i).Decodable stod) (hfds : Function.Injective fds)
    (h : PlantInv stod tables fds db s) {e : PlantEvent ι}
    (hok : PlantOk tables fds s e) (hs : plantStep stod tables s e = some s') :
    PlantInv stod tables fds db s' := by
  obtain ⟨es', hrun⟩ := h.fleet
  cases e with
  | fleet e =>
    obtain ⟨fleet, hfleet, rfl⟩ := plantStep_fleet hs
    refine ⟨⟨_, hrun.snoc hok hfleet⟩, ?_, h.ring⟩
    rw [← List.prefix_iff_eq_append.mp (fleetStep_calls hfleet), storedRecords_append, h.records]
    simp
  | ring e =>
    obtain ⟨ring, hring, htodo, hsame, rfl⟩ := plantStep_ring hs
    have hringOk : RingOk s.ring.lastSeen s.ring e := by
      rcases htodo with ⟨rec, rfl, htodo⟩ | ⟨hne, -⟩
      · refine (handled_of_trace htables hfds (hrun.mono fun _ _ h => h.nothingFails)).complete ?_
        rw [h.records, htodo]
        simp
      · cases e with
        | storeRecord rec => exact absurd rfl (hne rec)
        | writeSlot => exact hok
        | _ => trivial
    refine ⟨hsame ▸ h.fleet, ?_, h.ring.step hringOk hring⟩
    rw [hsame, h.records, ringStep_inHand hring]
    rcases htodo with ⟨rec, rfl, htodo⟩ | ⟨hne, htodo⟩
    · simp [htodo]
    · cases e with
      | storeRecord rec => exact absurd rfl (hne rec)
      | _ => simp [htodo]

/-- The records among the calls that concern a board are those of its customers. -/
lemma storedRecords_concerns (table : VehicleTable) (fd : ℕ) (calls : List Call) :
    storedRecords (calls.filter (Call.concerns table fd)) =
      recordsOf table (storedRecords calls) := by
  induction calls with
  | nil => rfl
  | cons call calls ih =>
    cases call with
    | storeRecord rec =>
      by_cases hrec : rec.customerId.str ∈ table.customers <;>
        simpa [recordsOf, Call.concerns, List.filter_cons, hrec] using ih
    | parse fd' line | sendReply fd' reply =>
      by_cases hfd : fd' = fd <;>
        simpa [recordsOf, Call.concerns, List.filter_cons, hfd] using ih
    | _ => simpa [recordsOf, Call.concerns, List.filter_cons] using ih

/-- **Every row is the bill of a parking cycle.**  In every run of the installation in which no call
of the boards and of the server fails, the poller keeps up and the ring is empty at the start, the
rows inserted into `customer_data` for the vehicles of a board are the first of the bills of the
finished cycles of this board, in order.  Once a poll has returned that saw all the records, they
are all of them.  The finished cycles are those of a run of the board with a server of its own: the
server has done for the board what it does in that run, which has reached the state of the board's
STM32 when all the frames read on the board have been parsed. -/
theorem rows_are_bills (htables : ∀ i, (tables i).Decodable stod) (hfds : Function.Injective fds)
    (hdisjoint : DisjointTables tables) (hcount : area.recordCount = 0)
    (hrun : Trace (plantStep stod tables) (PlantOk tables fds) (Plant.init tables area db) es s)
    (i : ι) (clock : ℤ) :
    ∃ es' p rows, Trace (sysStep stod (tables i) (fds i)) (SysInTime (tables i))
        (ParkingSys.init (tables i) (fds i) clock) es' p ∧
      s.fleet.calls.filter (Call.concerns (tables i) (fds i)) = handlingCalls p.calls ∧
      (parsedOn (fds i) s.fleet.calls = (s.fleet.boards i).sensor.frames.map wireLine →
        p.stm = (s.fleet.boards i).sensor.stm) ∧
      s.ring.db.customerData = db.customerData ++ rows ∧
      (recordsOf (tables i) rows).map some <+:
        p.finished.map (fun c => c.bill stod (tables i) (fds i) c.starts.getLast?) ∧
      ((storedRecords s.fleet.calls).length ∈ s.ring.polled →
        (recordsOf (tables i) rows).map some =
          p.finished.map (fun c => c.bill stod (tables i) (fds i) c.starts.getLast?)) := by
  have hinv : PlantInv stod tables fds db s := by
    refine hrun.invariant ⟨⟨[], .nil⟩, rfl, .init hcount db, rfl, ?_⟩ ?_
    · simp [Plant.init, RingSys.init]
    · exact fun _ _ _ hs hok hstep => hs.step htables hfds hok hstep
  obtain ⟨es₁, hfleet⟩ := hinv.fleet
  obtain ⟨es', b, p, hp, hmirrors, hcalls, hall⟩ :=
    exists_system htables hfds hdisjoint hfleet i clock
  have hbills : (recordsOf (tables i) (storedRecords s.fleet.calls)).map some =
      p.finished.map (fun c => c.bill stod (tables i) (fds i) c.starts.getLast?) := by
    rw [← storedRecords_concerns _ (fds i), hcalls, storedRecords_handlingCalls,
      hmirrors.inv.records]
  refine ⟨es', p, s.ring.stored.take s.ring.progress, hp, hcalls, fun h => ?_,
    hinv.ring.ring.customerData_eq hinv.ring.inserted_eq, ?_, fun hpolled => ?_⟩
  · rw [hmirrors.stm, hall h]
  · rw [← hbills, hinv.records, List.append_assoc]
    exact (((List.take_prefix _ _).trans (List.prefix_append _ _)).filter _).map _
  · -- the poll saw every record of the server, and it has dealt with all of them
    have hle := (hinv.ring.polled_le _ hpolled).trans hinv.ring.ring.progress_le
    have hprogress := hinv.ring.polled_le _ hpolled
    rw [← hbills, hinv.records]
    rw [hinv.records, List.length_append, List.length_append] at hle hprogress
    have hnil : s.ring.store.inHand = [] ∧ s.todo = [] :=
      ⟨List.length_eq_zero_iff.mp (by omega), List.length_eq_zero_iff.mp (by omega)⟩
    rw [hnil.1, hnil.2, List.append_nil, List.append_nil, List.take_of_length_le (by omega)]

/-- The bill of the car that parks for a minute. -/
def minuteBill : ParkingRecord :=
  billRecord (frameDelivery readDecimal gVehicles 5 0 .msgStart (telAvivAt 0))
    (frameDelivery readDecimal gVehicles 5 0 .msgEnd (telAvivAt 60))

/-- The car and the van of two boards, and then a poll of the database process. -/
def twoBoardsPolled : List (PlantEvent Bool) :=
  twoBoardsMinute.map .fleet ++
    [.ring (.storeRecord minuteBill), .ring .writeSlot, .ring .increment, .ring .snapshot,
      .ring .readSlot, .ring .insert, .ring .advance, .ring .pollReturn]

/-- The row of the car is the bill of its minute. -/
theorem rows_are_bills_two_boards :
    ∃ s, Trace (plantStep readDecimal twoTables) (PlantOk twoTables twoFds)
        (Plant.init twoTables .zero ⟨fun _ => none, []⟩) twoBoardsPolled s ∧
      s.ring.db.customerData = [minuteBill] ∧
      ∃ es' p rows, Trace (sysStep readDecimal gVehicles 5) (SysInTime gVehicles)
          (ParkingSys.init gVehicles 5 0) es' p ∧
        s.ring.db.customerData = [] ++ rows ∧
        (recordsOf gVehicles rows).map some =
          p.finished.map (fun c => c.bill readDecimal gVehicles 5 c.starts.getLast?) := by
  have hrows : (replayEvents (plantStep readDecimal twoTables) (PlantOk twoTables twoFds)
      (Plant.init twoTables .zero ⟨fun _ => none, []⟩) twoBoardsPolled).map (fun s =>
        (s.ring.db.customerData, decide ((storedRecords s.fleet.calls).length ∈ s.ring.polled))) =
      some ([minuteBill], true) := by decide +kernel
  obtain ⟨s, hs, hrows⟩ := Option.map_eq_some_iff.mp hrows
  obtain ⟨hrows, hpolled⟩ := Prod.mk.inj hrows
  have hrun := Trace.of_replayEvents hs
  obtain ⟨es', p, rows, hp, -, -, hdata, -, hall⟩ :=
    rows_are_bills twoTables_decodable twoFds_injective twoTables_disjoint rfl hrun true 0
  exact ⟨s, hrun, hrows, es', p, rows, hp, hdata, hall (of_decide_eq_true hpolled)⟩

end Runs

end ParkingSystem
