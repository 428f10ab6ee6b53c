import ParkingSystem.Foundation.Unwinding
import ParkingSystem.System.Fleet

/-!
# The fleet as separate systems

In a fleet the frames of a board wait in buffers, and the server handles the lines of the boards in
any order.  Still, as long as no call fails, each board by itself behaves as the system of
`System/Cycles`, in which a poll is handled at once and the server has no other client: what the
server does for the board is what it does in a run of that system, on the frames that have got
through so far.  So the bills of a board depend on the moments at which its own messages are
handled, and on nothing else.
-/

namespace ParkingSystem

open Foundation

/-! ## The calls that handle lines -/

/-- A call made for a line, which is neither `accept` nor `recv` nor `close`. -/
def Call.isHandling : Call → Bool
  | .parse _ _ => true
  | .storeRecord _ => true
  | .sendReply _ _ => true
  | _ => false

/-- The calls made for lines. -/
def handlingCalls (calls : List Call) : List Call := calls.filter Call.isHandling

/-- Lines are handled one after the other. -/
@[simp] lemma handlingCalls_append (l l' : List Call) :
    handlingCalls (l ++ l') = handlingCalls l ++ handlingCalls l' := by
  simp [handlingCalls]

/-- `recv` is no call for a line. -/
@[simp] lemma handlingCalls_recv (fd : ℕ) (chunk : Bytes) (l : List Call) :
    handlingCalls (.recv fd chunk :: l) = handlingCalls l := rfl

/-- The customers of a table. -/
def VehicleTable.customers (table : VehicleTable) : List Bytes :=
  table.rows.map Vehicle.customerId

/-- The call is made for a line of a board, or stores a record of one of its customers. -/
def Call.concerns (table : VehicleTable) (fd : ℕ) : Call → Bool
  | .parse fd' _ => fd' = fd
  | .sendReply fd' _ => fd' = fd
  | .storeRecord rec => rec.customerId.str ∈ table.customers
  | _ => false

/-- The records of a table's customers. -/
def recordsOf (table : VehicleTable) (records : List ParkingRecord) : List ParkingRecord :=
  records.filter fun rec => rec.customerId.str ∈ table.customers

/-- A call that concerns a board is made for a line. -/
lemma Call.isHandling_of_concerns {table : VehicleTable} {fd : ℕ} {call : Call}
    (h : call.concerns table fd) : call.isHandling := by
  cases call <;> simp_all [concerns, isHandling]

/-- Records, replies and lines are found among the calls that handle lines. -/
lemma storedRecords_handlingCalls (calls : List Call) :
    storedRecords (handlingCalls calls) = storedRecords calls := by
  induction calls with
  | nil => rfl
  | cons call calls ih =>
    cases call <;> simpa [handlingCalls, Call.isHandling, List.filter_cons] using ih

section Lines

variable {stod : Bytes → Option ℚ}

/-- The calls that process a message: replies to its client, and a record of its customer. -/
lemma call_processMessage {env : CallEnv} {fd : ℕ} {msg : WireMsg} {sessions : SessionManager}
    {call : Call} (h : call ∈ (processMessage env fd msg sessions).2) :
    (∃ reply, call = .sendReply fd reply) ∨
      ∃ rec, call = .storeRecord rec ∧
        rec.customerId = strncpy customerIdLen msg.customerId.str ∧ rec.complete = true := by
  simp only [processMessage] at h
  cases hmsg : msg.type with
  | msgStart => exact Or.inl ⟨okStarted, by simpa [hmsg] using h⟩
  | msgEnd =>
    rcases hend : sessions.endSession msg.customerId.str with ⟨_ | session, sessions'⟩
    · exact Or.inl ⟨errNoSession, by simpa [hmsg, hend] using h⟩
    · simp only [hmsg, hend, List.mem_cons, List.not_mem_nil, or_false] at h
      rcases h with rfl | rfl
      · exact Or.inr ⟨_, rfl, rfl, rfl⟩
      · exact Or.inl ⟨_, rfl⟩

/-- The calls that handle a line. -/
lemma call_wireStep {sessions : SessionManager} {w : WireLine} {call : Call}
    (h : call ∈ (wireStep stod sessions w).2) :
    call = .parse w.fd w.line ∨ (∃ reply, call = .sendReply w.fd reply) ∨
      ∃ msg rec, parse stod w.line = some msg ∧ call = .storeRecord rec ∧
        rec.customerId = strncpy customerIdLen msg.customerId.str ∧ rec.complete = true := by
  cases hmsg : parse stod w.line with
  | none =>
    rw [wireStep_of_none hmsg] at h
    rcases List.mem_pair.mp h with rfl | rfl
    · exact Or.inl rfl
    · exact Or.inr (Or.inl ⟨_, rfl⟩)
  | some msg =>
    rw [wireStep_of_some hmsg] at h
    rcases List.mem_cons.mp h with rfl | h
    · exact Or.inl rfl
    · rcases call_processMessage h with hreply | ⟨rec, rfl, hrec⟩
      · exact Or.inr (Or.inl hreply)
      · exact Or.inr (Or.inr ⟨msg, rec, rfl, rfl, hrec⟩)

/-- They are calls for lines. -/
lemma handlingCalls_wireStep (sessions : SessionManager) (w : WireLine) :
    handlingCalls (wireStep stod sessions w).2 = (wireStep stod sessions w).2 := by
  apply List.filter_eq_self.mpr
  intro call hcall
  rcases call_wireStep hcall with rfl | ⟨reply, rfl⟩ | ⟨msg, rec, -, rfl, -⟩ <;> rfl

/-- The same for lines that are handled one after the other. -/
lemma handlingCalls_runMachine (sessions : SessionManager) (ws : List WireLine) :
    handlingCalls (runMachine (wireStep stod) sessions ws).2 =
      (runMachine (wireStep stod) sessions ws).2 := by
  induction ws generalizing sessions with
  | nil => rfl
  | cons w ws ih =>
    simp only [runMachine, handlingCalls_append, handlingCalls_wireStep, ih]

/-- Handling the lines of a client is handling them with their descriptor. -/
lemma runMachine_wireLines (sessions : SessionManager) (envs : ℕ → CallEnv) (fd : ℕ)
    (lines : List Bytes) :
    runMachine (wireStep stod) sessions (wireLines envs fd lines) =
      runMachine (lineStep stod fd) sessions (withEnvs envs lines) := by
  rw [wireLines, runMachine_map]
  rfl

end Lines

/-! ## The lines that the server has handled -/

section Handled

variable {ι : Type*} [DecidableEq ι] {stod : Bytes → Option ℚ} {tables : ι → VehicleTable}
  {fds : ι → ℕ} {s s' : Fleet ι}

/-- The lines of a descriptor. -/
def linesOf (fd : ℕ) (ws : List WireLine) : List WireLine := ws.filter fun w => w.fd = fd

/-- What the server has done is the handling of the lines handled, which are those parsed on the
connections of the boards. -/
structure Handled (stod : Bytes → Option ℚ) (fds : ι → ℕ) (s : Fleet ι) : Prop where
  fd_mem : ∀ w ∈ s.handled, ∃ i, w.fd = fds i
  lines : ∀ i, (linesOf (fds i) s.handled).map WireLine.line = parsedOn (fds i) s.calls
  sessions : s.server.sessions = (runMachine (wireStep stod) SessionManager.empty s.handled).1
  calls : handlingCalls s.calls = (runMachine (wireStep stod) SessionManager.empty s.handled).2

/-- The lines of one client, sorted by descriptor. -/
lemma linesOf_wireLines (envs : ℕ → CallEnv) (fd fd' : ℕ) (lines : List Bytes) :
    (linesOf fd' (wireLines envs fd lines)).map WireLine.line = if fd = fd' then lines else [] := by
  by_cases h : fd = fd'
  · simp [linesOf, wireLines, List.filter_map, Function.comp_def, h, map_snd_withEnvs]
  · simp [linesOf, wireLines, List.filter_map, Function.comp_def, h]

/-- Every step keeps this. -/
lemma handled_step (h : Handled stod fds s) (hlinked : Linked tables fds s) {e : FleetEvent ι}
    (hok : NothingFails fds s e) (hs : fleetStep stod tables s e = some s') :
    Handled stod fds s' := by
  cases e with
  | board i e =>
    obtain ⟨b, -, rfl⟩ := fleetStep_board.mp hs
    exact ⟨h.fd_mem, h.lines, h.sessions, h.calls⟩
  | accept i k cfd =>
    obtain ⟨-, rfl⟩ := hlinked.fleetStep_accept hok hs
    refine ⟨h.fd_mem, fun j => ?_, h.sessions, ?_⟩
    · simpa [parsedOn] using h.lines j
    · simpa [handlingCalls, Call.isHandling] using h.calls
  | recv i k n envs =>
    obtain ⟨-, rfl⟩ := hlinked.fleetStep_recv hs
    have hrun : runMachine (wireStep stod) s.server.sessions
        (wireLines envs (fds i) (framedLines (s.received fds i n).1)) =
        s.handling stod fds i n envs := runMachine_wireLines _ _ _ _
    rw [h.sessions] at hrun
    refine ⟨?_, ?_, ?_, ?_⟩
    · refine List.forall_mem_append.mpr ⟨h.fd_mem, ?_⟩
      intro w hw
      obtain ⟨p, -, rfl⟩ := List.mem_map.mp hw
      exact ⟨i, rfl⟩
    · intro j
      simp only [linesOf, List.filter_append, List.map_append, parsedOn_append]
      congr 1
      · exact h.lines j
      · exact (linesOf_wireLines _ _ _ _).trans (parsedOn_lineStep _ _ _ _ _).symm
    · rw [runMachine_append, hrun]
    · rw [runMachine_append, hrun, handlingCalls_append, handlingCalls_recv, h.calls, ← hrun,
        handlingCalls_runMachine]
  | hangUp i k => exact hok.elim

/-- It holds in every run without failures. -/
lemma handled_of_trace (htables : ∀ i, (tables i).Decodable stod) (hfds : Function.Injective fds)
    {es : List (FleetEvent ι)}
    (hrun : Trace (fleetStep stod tables) (NothingFails fds) (Fleet.init tables) es s) :
    Handled stod fds s := by
  induction hrun with
  | nil => exact ⟨by simp [Fleet.init], fun i => rfl, rfl, rfl⟩
  | snoc hrun hok hs ih => exact handled_step ih (linked_of_trace htables hfds hrun) hok hs

end Handled

/-! ## One board of many -/

section Party

variable {ι : Type*} {stod : Bytes → Option ℚ} {tables : ι → VehicleTable} {fds : ι → ℕ}
  {s : Fleet ι} {i : ι}

/-- The message that the line of a frame is parsed into. -/
lemma parse_frame {table : VehicleTable} (htable : table.Decodable stod) (idx : ℕ)
    (type : MsgType) :
    parse stod (wireLine (buildFrame table idx type)) =
      some (vehicleMsg stod type (table.vehicle idx)) := by
  obtain ⟨hwf, hlat, hlon⟩ := htable _ (table.vehicle_mem idx)
  obtain ⟨lat, hlat⟩ := Option.isSome_iff_exists.mp hlat
  obtain ⟨lon, hlon⟩ := Option.isSome_iff_exists.mp hlon
  rw [hwf.parse_wireLine type hlat hlon]
  simp [vehicleMsg, hlat, hlon]

/-- The line of a frame carries a customer of the table. -/
lemma VehicleTable.Builds.parse {table : VehicleTable} {f : GpsFrame} (h : table.Builds f)
    (htable : table.Decodable stod) :
    ∃ msg, parse stod (wireLine f) = some msg ∧ msg.customerId.str ∈ table.customers ∧
      (strncpy customerIdLen msg.customerId.str).str = msg.customerId.str := by
  obtain ⟨idx, type, rfl⟩ := h
  have hid : (vehicleMsg stod type (table.vehicle idx)).customerId.str =
      (table.vehicle idx).customerId := customer_frameDelivery htable 0 idx type ⟨0, 0, .zero⟩
  obtain ⟨hwf, -⟩ := htable _ (table.vehicle_mem idx)
  refine ⟨_, parse_frame htable idx type, ?_, ?_⟩
  · exact List.mem_map.mpr ⟨_, table.vehicle_mem idx, hid.symm⟩
  · rw [hid]
    exact str_strncpy_of_lt (hwf.no_control _ (by simp)).1
      (hwf.length_customerId.2.trans_lt (by norm_num))

/-- No vehicle is in the tables of two boards. -/
def DisjointTables (tables : ι → VehicleTable) : Prop :=
  ∀ i j, i ≠ j → ∀ id ∈ (tables i).customers, id ∉ (tables j).customers

/-- Every line handled is that of a frame of the board whose descriptor it has. -/
lemma Handled.exists_builds (h : Handled stod fds s) (htables : ∀ i, (tables i).Decodable stod)
    (hlinked : Linked tables fds s) {w : WireLine} (hw : w ∈ s.handled) :
    ∃ j f, w.fd = fds j ∧ (tables j).Builds f ∧ w.line = wireLine f := by
  obtain ⟨j, hj⟩ := h.fd_mem w hw
  have hline : w.line ∈ parsedOn (fds j) s.calls := by
    rw [← h.lines j]
    exact List.mem_map_of_mem (List.mem_filter.mpr ⟨hw, by simpa using hj⟩)
  obtain ⟨waiting, heq, -⟩ := (hlinked.link j).exists_waiting (htables j)
  obtain ⟨f, hf, hfline⟩ := List.mem_map.mp (heq ▸ List.mem_append_left _ hline)
  exact ⟨j, f, hj, (hlinked.link j).builds f hf, hfline.symm⟩

/-- The records that the server stores are complete. -/
lemma Handled.complete (h : Handled stod fds s) {rec : ParkingRecord}
    (hrec : rec ∈ storedRecords s.calls) : rec.complete = true := by
  rw [← storedRecords_handlingCalls, h.calls] at hrec
  obtain ⟨call, hcall, heq⟩ := List.mem_filterMap.mp hrec
  obtain ⟨m, w, -, hmem⟩ := exists_step_of_mem_outputs _ hcall
  rcases call_wireStep hmem with rfl | ⟨reply, rfl⟩ | ⟨msg, rec', -, rfl, -, hcomplete⟩
  · simp at heq
  · simp at heq
  · obtain rfl := Option.some.inj heq
    exact hcomplete

/-- **One board of many.**  The calls that concern a board are those made when its lines alone are
handled. -/
lemma Handled.calls_of_board (h : Handled stod fds s) (htables : ∀ i, (tables i).Decodable stod)
    (hfds : Function.Injective fds) (hdisjoint : DisjointTables tables)
    (hlinked : Linked tables fds s) (i : ι) :
    s.calls.filter (Call.concerns (tables i) (fds i)) =
      (runMachine (wireStep stod) SessionManager.empty (linesOf (fds i) s.handled)).2 := by
  have hhandling : s.calls.filter (Call.concerns (tables i) (fds i)) =
      (handlingCalls s.calls).filter (Call.concerns (tables i) (fds i)) := by
    rw [handlingCalls, List.filter_filter]
    congr 1
    funext call
    cases hc : call.concerns (tables i) (fds i) with
    | true => simp [Call.isHandling_of_concerns hc]
    | false => rfl
  rw [hhandling, h.calls]
  refine filter_outputs_of_party
    (fun m m' => ∀ id ∈ (tables i).customers, m.find id = m'.find id) ?_ ?_ ?_ fun _ _ => rfl
  · -- a line of another board does not touch the customers of this one
    intro w hw hfd m m' hm id hid
    obtain ⟨j, f, hj, hf, hline⟩ := h.exists_builds htables hlinked hw
    obtain ⟨msg, hmsg, hcustomer, -⟩ := hf.parse (htables j)
    have hij : i ≠ j := by
      rintro rfl
      simp [hj] at hfd
    rw [wireStep_of_some (hline ▸ hmsg), find_processMessage, if_neg]
    · exact hm id hid
    · rintro rfl
      exact hdisjoint i j hij _ hid hcustomer
  · -- a line of this board finds the same session of its customer
    intro w hw hfd m m' hm
    obtain ⟨j, f, hj, hf, hline⟩ := h.exists_builds htables hlinked hw
    obtain rfl : j = i := hfds (by rw [← hj]; simpa using hfd)
    obtain ⟨msg, hmsg, hcustomer, -⟩ := hf.parse (htables j)
    rw [← hline] at hmsg
    rw [wireStep_of_some hmsg, wireStep_of_some hmsg]
    refine ⟨fun id hid => ?_, ?_⟩
    · rw [find_processMessage, find_processMessage, hm id hid]
    · exact congrArg (Call.parse w.fd w.line :: ·)
        (calls_processMessage w.env w.fd (hm _ hcustomer))
  · -- what is done for a line concerns its own board
    intro w hw m call hcall
    obtain ⟨j, f, hj, hf, hline⟩ := h.exists_builds htables hlinked hw
    obtain ⟨msg, hmsg, hcustomer, hstr⟩ := hf.parse (htables j)
    rw [← hline] at hmsg
    rcases call_wireStep hcall with rfl | ⟨reply, rfl⟩ | ⟨msg', rec, hmsg', rfl, hid, -⟩
    · rfl
    · rfl
    · obtain rfl := Option.some.inj (hmsg.symm.trans hmsg')
      simp only [Call.concerns, hid, hstr, hj]
      by_cases hij : j = i
      · subst hij
        simp [hcustomer]
      · have hne : fds j ≠ fds i := fun heq => hij (hfds heq)
        simp [hne, hdisjoint j i hij _ hcustomer]

end Party

/-! ## The board as a system of its own -/

section System

variable {stod : Bytes → Option ℚ} {table : VehicleTable} {fd : ℕ}

/-- Every frame is read before it is replaced; the clock may show anything. -/
def SysInTime (table : VehicleTable) (p : ParkingSys) (e : SysEvent) : Prop :=
  e = .tick → SysValid table p .tick

/-- A system in which the server has handled the lines `ws` of the frames read, up to the state of
the STM32 and its reader. -/
structure Mirrors (stod : Bytes → Option ℚ) (table : VehicleTable) (fd : ℕ) (b : Sensor)
    (ws : List WireLine) (p : ParkingSys) : Prop where
  inv : SysInv stod table fd p
  stm : p.stm = b.stm
  seen : b.seen ↔ if p.stm.frame.type = byteS then p.current.starts ≠ [] else p.current.stops ≠ []
  sessions : p.server.sessions = (runMachine (wireStep stod) SessionManager.empty ws).1
  calls : handlingCalls p.calls = (runMachine (wireStep stod) SessionManager.empty ws).2

/-- At power on nothing has been handled. -/
lemma mirrors_init (clock : ℤ) :
    Mirrors stod table fd (.init table) [] (ParkingSys.init table fd clock) where
  inv := sysInv_init stod table fd clock
  stm := rfl
  seen := by simp [Sensor.init, ParkingSys.init, Stm32.powerOn, MsgType.byte]
  sessions := rfl
  calls := rfl

/-- A tick is one of the STM32. -/
lemma ParkingSys.tick_stm (table : VehicleTable) (p : ParkingSys) :
    (p.tick table).stm = p.stm.onTick table := by
  unfold ParkingSys.tick
  dsimp only
  split_ifs <;> rfl

/-- It does not touch the server. -/
lemma ParkingSys.tick_server (table : VehicleTable) (p : ParkingSys) :
    (p.tick table).server = p.server ∧ (p.tick table).calls = p.calls := by
  unfold ParkingSys.tick
  dsimp only
  split_ifs <;> exact ⟨rfl, rfl⟩

/-- It begins a cycle when a start frame follows an end frame. -/
lemma ParkingSys.tick_current (table : VehicleTable) (p : ParkingSys) :
    (p.tick table).current =
      if p.stm.frame.type = byteE ∧ (p.stm.onTick table).frame.type = byteS then
        ⟨p.stm.vehicleIdx, [], []⟩
      else p.current := by
  unfold ParkingSys.tick
  dsimp only
  split_ifs <;> rfl

/-- A tick keeps the two together. -/
lemma Mirrors.tick {b b' : Sensor} {ws : List WireLine} {p : ParkingSys}
    (h : Mirrors stod table fd b ws p) (hok : SensorInTime table b .tick)
    (hs : sensorStep table b .tick = some b') :
    SysInTime table p .tick ∧ Mirrors stod table fd b' ws (p.tick table) := by
  obtain rfl := Option.some.inj hs
  have hvalid : SysValid table p .tick := by
    intro htype
    rw [h.stm] at htype
    exact h.seen.mp (hok htype)
  obtain ⟨hserver, hcalls⟩ := p.tick_server table
  refine ⟨fun _ => hvalid, sysInv_tick h.inv hvalid, ?_, ?_, ?_, ?_⟩
  · rw [ParkingSys.tick_stm, h.stm]
  · rw [ParkingSys.tick_stm, ParkingSys.tick_current, ← h.stm, Bool.decide_and, Bool.and_eq_true,
      Bool.decide_eq_true, h.seen, decide_eq_true_iff]
    obtain ⟨type, hin, hstops, -⟩ := h.inv.inCycle
    rcases Stm32.onTick_cases hin with hsame | ⟨rfl, hend⟩ | ⟨rfl, hnext⟩
    · -- the frame stays
      cases type <;>
        simp [hin.frame_eq, hsame.frame_eq, MsgType.byte, byteE_ne_byteS, byteE_ne_byteS.symm]
    · -- the end frame has not been read
      simp [hin.frame_eq, hend.frame_eq, MsgType.byte, byteE_ne_byteS, hstops rfl]
    · -- nor has the next start frame
      simp [hin.frame_eq, hnext.frame_eq, MsgType.byte, byteE_ne_byteS.symm]
  · rw [hserver, h.sessions]
  · rw [hcalls, h.calls]

/-- A poll handles the line of the frame. -/
lemma Mirrors.poll (htable : table.Decodable stod) {b : Sensor} {ws : List WireLine}
    {p : ParkingSys} (h : Mirrors stod table fd b ws p) (env : CallEnv) :
    Mirrors stod table fd { b with seen := true, frames := b.frames ++ [b.stm.frame] }
      (ws ++ [⟨env, fd, wireLine b.stm.frame⟩]) (p.poll stod fd env) := by
  obtain ⟨type, hin, hstops, hstarts⟩ := h.inv.inCycle
  have hframe : b.stm.frame = buildFrame table p.current.idx type := by rw [← h.stm, hin.frame_eq]
  have hinv : SysInv stod table fd (p.poll stod fd env) := by
    cases type with
    | msgStart => exact sysInv_poll_start htable h.inv hin (hstops rfl) env
    | msgEnd => exact sysInv_poll_end htable h.inv hin (hstarts rfl) env
  have hpoll := poll_eq htable hin.frame_eq h.inv.buffer env
  have hstep : ∀ m, wireStep stod m ⟨env, fd, wireLine b.stm.frame⟩ =
      ((deliver m (frameDelivery stod table fd p.current.idx type env)).1,
        .parse fd (wireLine b.stm.frame) ::
          (deliver m (frameDelivery stod table fd p.current.idx type env)).2) := by
    intro m
    exact wireStep_of_some (hframe ▸ parse_frame htable p.current.idx type) m
  refine ⟨hinv, ?_, ?_, ?_, ?_⟩
  · rw [hpoll]
    exact h.stm
  · rw [hpoll]
    cases type <;> simp [hin.frame_eq, MsgType.byte, byteE_ne_byteS]
  · rw [runMachine_concat, hstep, hpoll, ← h.sessions]
  · have hcalls : handlingCalls (wireStep stod p.server.sessions
        ⟨env, fd, wireLine b.stm.frame⟩).2 = _ := handlingCalls_wireStep _ _
    rw [runMachine_concat, ← h.sessions, ← h.calls, ← hcalls, hstep, hpoll, ← h.stm]
    simp [handlingCalls, Call.isHandling]

/-- In every run the STM32 is in its cycles. -/
lemma running_of_trace {es : List SensorEvent} {b : Sensor}
    (hrun : Trace (sensorStep table) (SensorInTime table) (Sensor.init table) es b) :
    b.Running table :=
  hrun.invariant (Sensor.running_init table) fun _ _ _ h _ hs => h.step hs

/-- Any first frames read in a run are the frames read in an earlier state of the run. -/
lemma exists_earlier {es : List SensorEvent} {b : Sensor}
    (hrun : Trace (sensorStep table) (SensorInTime table) (Sensor.init table) es b) {m : ℕ}
    (hm : m ≤ b.frames.length) :
    ∃ es' b', Trace (sensorStep table) (SensorInTime table) (Sensor.init table) es' b' ∧
      b'.frames = b.frames.take m ∧ (m = b.frames.length → b' = b) := by
  induction hrun with
  | nil =>
    obtain rfl : m = 0 := by simpa [Sensor.init] using hm
    exact ⟨[], _, .nil, rfl, fun _ => rfl⟩
  | @snoc es b₀ b₁ e hrun hok hs ih =>
    by_cases hall : m = b₁.frames.length
    · exact ⟨_, b₁, hrun.snoc hok hs, by rw [hall, List.take_length], fun _ => rfl⟩
    · -- the step adds one frame at most
      have hframes : b₁.frames = b₀.frames ∨ b₁.frames = b₀.frames ++ [b₀.stm.frame] := by
        cases e with
        | tick =>
          obtain rfl := Option.some.inj hs
          exact Or.inl rfl
        | poll buf =>
          rcases (running_of_trace hrun).poll_cases hok hs with ⟨-, rfl⟩ | ⟨-, rfl⟩
          · exact Or.inl rfl
          · exact Or.inr rfl
      have hle : m ≤ b₀.frames.length := by
        rcases hframes with h | h
        · rwa [h] at hm
        · rw [h, List.length_append, List.length_singleton] at hm hall
          omega
      obtain ⟨es', b', hrun', hb', -⟩ := ih hle
      refine ⟨es', b', hrun', ?_, fun h => absurd h hall⟩
      rw [hb']
      rcases hframes with h | h
      · rw [h]
      · rw [h, List.take_append_of_le_length hle]

/-- **The system that has caught up.**  Lines handled for the frames read are handled in a run of
the system, in which each poll has the environment in which its line is handled. -/
lemma exists_mirrors (htable : table.Decodable stod) (clock : ℤ) {es : List SensorEvent}
    {b : Sensor}
    (hrun : Trace (sensorStep table) (SensorInTime table) (Sensor.init table) es b)
    {ws : List WireLine} (hfd : ∀ w ∈ ws, w.fd = fd)
    (hlines : ws.map WireLine.line = b.frames.map wireLine) :
    ∃ es' p, Trace (sysStep stod table fd) (SysInTime table) (ParkingSys.init table fd clock)
        es' p ∧
      Mirrors stod table fd b ws p := by
  induction hrun generalizing ws with
  | nil =>
    obtain rfl : ws = [] := by simpa [Sensor.init] using hlines
    exact ⟨[], _, .nil, mirrors_init clock⟩
  | @snoc es b₀ b₁ e hrun hok hs ih =>
    cases e with
    | tick =>
      have hframes : b₁.frames = b₀.frames := by
        obtain rfl := Option.some.inj hs
        rfl
      obtain ⟨es', p, hp, hmirrors⟩ := ih hfd (hframes ▸ hlines)
      obtain ⟨hok', hnext⟩ := hmirrors.tick hok hs
      exact ⟨_, _, hp.snoc hok' rfl, hnext⟩
    | poll buf =>
      rcases (running_of_trace hrun).poll_cases hok hs with ⟨-, rfl⟩ | ⟨-, rfl⟩
      · exact ih hfd hlines
      · -- the last line is that of the frame polled
        rw [List.map_append, List.map_eq_append_iff] at hlines
        obtain ⟨ws, ws', rfl, hlines, hlast⟩ := hlines
        obtain ⟨⟨env, fd', line⟩, rfl, hline⟩ := List.map_eq_singleton_iff.mp hlast
        rw [List.forall_mem_append, List.forall_mem_singleton] at hfd
        obtain rfl : line = wireLine b₀.stm.frame := hline
        obtain rfl : fd' = fd := hfd.2
        obtain ⟨es', p, hp, hmirrors⟩ := ih hfd.1 hlines
        exact ⟨es' ++ [.poll env], _, hp.snoc (fun h => absurd h (by simp)) rfl,
          hmirrors.poll htable env⟩

end System

/-! ## The fleet -/

section Fleet

variable {ι : Type*} [DecidableEq ι] {stod : Bytes → Option ℚ} {tables : ι → VehicleTable}
  {fds : ι → ℕ} {s : Fleet ι} {es : List (FleetEvent ι)}

omit [DecidableEq ι] in
/-- A run in which frames are read in time is one without failures. -/
lemma FleetInTime.nothingFails {e : FleetEvent ι} (h : FleetInTime tables fds s e) :
    NothingFails fds s e := by
  cases e with
  | board i e =>
    cases e with
    | sensor e =>
      cases e with
      | tick => trivial
      | poll buf => exact h
    | _ => exact h
  | _ => exact h

/-- A step of the fleet is a step of the STM32 of a board or leaves it alone. -/
lemma fleetStep_sensor {s' : Fleet ι} {e : FleetEvent ι} (hs : fleetStep stod tables s e = some s')
    (i : ι) :
    (∃ e', e = .board i (.sensor e') ∧
      sensorStep (tables i) (s.boards i).sensor e' = some (s'.boards i).sensor) ∨
    (s'.boards i).sensor = (s.boards i).sensor := by
  rcases fleetStep_cases hs with ⟨j, e', b, rfl, hb, rfl⟩ | ⟨j, k, socket, calls, hboards, -⟩
  · by_cases hij : i = j
    · subst hij
      simp only [Function.update_self]
      cases e' with
      | sensor e =>
        obtain ⟨sensor, hstep, rfl⟩ := Option.map_eq_some_iff.mp hb
        exact Or.inl ⟨e, rfl, hstep⟩
      | pipeRead n | forward outcome =>
        obtain ⟨tcp, -, rfl⟩ := Option.map_eq_some_iff.mp hb
        exact Or.inr rfl
    · exact Or.inr (by simp [Function.update_of_ne hij])
  · right
    by_cases hij : i = j
    · subst hij
      simp [hboards]
    · simp [hboards, Function.update_of_ne hij]

/-- What happens at the STM32 of a board in a run of the fleet is a run of its own. -/
lemma sensor_trace (hrun : Trace (fleetStep stod tables) (FleetInTime tables fds)
    (Fleet.init tables) es s) (i : ι) :
    ∃ es', Trace (sensorStep (tables i)) (SensorInTime (tables i)) (Sensor.init (tables i)) es'
      (s.boards i).sensor := by
  induction hrun with
  | nil => exact ⟨[], .nil⟩
  | snoc _ hok hs ih =>
    obtain ⟨es', hsensor⟩ := ih
    rcases fleetStep_sensor hs i with ⟨e', rfl, hstep⟩ | hsame
    · exact ⟨_, hsensor.snoc hok hstep⟩
    · exact ⟨es', hsame ▸ hsensor⟩

/-- A board and a server of its own, in the state up to which the lines of the board have been
handled. -/
lemma exists_system (htables : ∀ i, (tables i).Decodable stod) (hfds : Function.Injective fds)
    (hdisjoint : DisjointTables tables)
    (hrun : Trace (fleetStep stod tables) (FleetInTime tables fds) (Fleet.init tables) es s)
    (i : ι) (clock : ℤ) :
    ∃ es' b p, Trace (sysStep stod (tables i) (fds i)) (SysInTime (tables i))
        (ParkingSys.init (tables i) (fds i) clock) es' p ∧
      Mirrors stod (tables i) (fds i) b (linesOf (fds i) s.handled) p ∧
      s.calls.filter (Call.concerns (tables i) (fds i)) = handlingCalls p.calls ∧
      (parsedOn (fds i) s.calls = (s.boards i).sensor.frames.map wireLine →
        b = (s.boards i).sensor) := by
  have hrun' := hrun.mono fun _ _ h => h.nothingFails
  have hlinked := linked_of_trace htables hfds hrun'
  have hhandled := handled_of_trace htables hfds hrun'
  obtain ⟨es₁, hsensor⟩ := sensor_trace hrun i
  -- the lines handled are those of the first frames
  obtain ⟨lines, heq, -, -⟩ := (hlinked.link i).exists_waiting (htables i)
  obtain ⟨parsed, waiting, hframes, hparsed, -⟩ := List.map_eq_append_iff.mp heq
  obtain ⟨es₂, b, hb, hbframes, hball⟩ := exists_earlier hsensor (m := parsed.length)
    (by rw [hframes, List.length_append]; omega)
  rw [hframes, List.take_left] at hbframes
  have hfd : ∀ w ∈ linesOf (fds i) s.handled, w.fd = fds i := by
    intro w hw
    simpa using (List.mem_filter.mp hw).2
  have hlines : (linesOf (fds i) s.handled).map WireLine.line = b.frames.map wireLine := by
    rw [hhandled.lines i, hbframes, hparsed]
  obtain ⟨es', p, hp, hmirrors⟩ := exists_mirrors (htables i) clock hb hfd hlines
  refine ⟨es', b, p, hp, hmirrors, ?_, fun hall => hball ?_⟩
  · rw [hhandled.calls_of_board htables hfds hdisjoint hlinked, hmirrors.calls]
  · have hlen := congrArg List.length hall
    rwa [← hparsed, List.length_map, List.length_map] at hlen

/-- **The fleet is made of separate systems.**  In every run of the fleet in which no call fails, no
two boards have a vehicle in common and every frame is read before it is replaced, the lines parsed,
the records stored and the replies sent for a board are those of a run of the system that consists
of this board and a server of its own.  So there is one record for each finished cycle of that run,
billed from the handling of the last message of its start frame to that of the first message of its
end frame.  When all the frames read on the board have been parsed, that run has reached the state
of its STM32. -/
theorem fleet_projects (htables : ∀ i, (tables i).Decodable stod) (hfds : Function.Injective fds)
    (hdisjoint : DisjointTables tables)
    (hrun : Trace (fleetStep stod tables) (FleetInTime tables fds) (Fleet.init tables) es s)
    (i : ι) (clock : ℤ) :
    ∃ es' p, Trace (sysStep stod (tables i) (fds i)) (SysInTime (tables i))
        (ParkingSys.init (tables i) (fds i) clock) es' p ∧
      s.calls.filter (Call.concerns (tables i) (fds i)) = handlingCalls p.calls ∧
      (storedRecords (s.calls.filter (Call.concerns (tables i) (fds i)))).map some =
        p.finished.map (fun c => c.bill stod (tables i) (fds i) c.starts.getLast?) ∧
      (∀ c ∈ p.finished, c.starts ≠ [] ∧ c.stops ≠ []) ∧
      (parsedOn (fds i) s.calls = (s.boards i).sensor.frames.map wireLine →
        p.stm = (s.boards i).sensor.stm) := by
  obtain ⟨es', b, p, hp, hmirrors, hcalls, hall⟩ :=
    exists_system htables hfds hdisjoint hrun i clock
  refine ⟨es', p, hp, hcalls, ?_, fun c hc => hmirrors.inv.finished_read hc, fun h => ?_⟩
  · rw [hcalls, storedRecords_handlingCalls, hmirrors.inv.records]
  · rw [hmirrors.stm, hall h]

/-- The two boards have no vehicle in common. -/
lemma twoTables_disjoint : DisjointTables twoTables := by
  intro i j hij
  cases i <;> cases j
  · exact absurd rfl hij
  · decide
  · decide
  · exact absurd rfl hij

/-- The first car parks for a minute while the van arrives; the messages of the two boards reach the
server in turn. -/
def twoBoardsMinute : List (FleetEvent Bool) :=
  [.accept true 0 5, .accept false 0 6, pollFirst true .msgStart, pollFirst false .msgStart] ++
    List.replicate 12 (.board true (.sensor .tick)) ++
    [pollFirst true .msgEnd, .board true (.pipeRead 100), .board false (.pipeRead 100),
      .board true (.forward (.accepts 34)), .board false (.forward (.accepts 34)),
      .recv true 0 511 fun _ => telAvivAt 0, .recv false 0 511 fun _ => telAvivAt 30,
      .board true (.forward (.accepts 34)), .recv true 0 511 fun _ => telAvivAt 60]

/-- The car of the first board is billed for its minute, whatever the van does. -/
theorem fleet_projects_two_boards :
    ∃ s, Trace (fleetStep readDecimal twoTables) (FleetInTime twoTables twoFds)
        (Fleet.init twoTables) twoBoardsMinute s ∧
      ∃ es' p, Trace (sysStep readDecimal gVehicles 5) (SysInTime gVehicles)
          (ParkingSys.init gVehicles 5 0) es' p ∧
        (storedRecords (handlingCalls p.calls)).map ParkingRecord.totalFee = [1 / 2] := by
  have hfee : (replayEvents (fleetStep readDecimal twoTables) (FleetInTime twoTables twoFds)
      (Fleet.init twoTables) twoBoardsMinute).map (fun s =>
        (storedRecords (s.calls.filter (Call.concerns gVehicles 5))).map
          ParkingRecord.totalFee) = some [1 / 2] := by decide +kernel
  obtain ⟨s, hs, hfee⟩ := Option.map_eq_some_iff.mp hfee
  have hrun := Trace.of_replayEvents hs
  obtain ⟨es', p, hp, hcalls, -⟩ :=
    fleet_projects twoTables_decodable twoFds_injective twoTables_disjoint hrun true 0
  exact ⟨s, hrun, es', p, hp, by rw [← hcalls]; exact hfee⟩

end Fleet

end ParkingSystem
