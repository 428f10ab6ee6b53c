import ParkingSystem.Bbg.PipeLines
import ParkingSystem.Server.Isolation
import ParkingSystem.Server.NulBytes
import ParkingSystem.System.Cycles

/-!
# A fleet of boards and one server

Every board has an STM32, the two processes of the BeagleBone with the pipe between them, and its
connections to the server, with the bytes that are on their way.  A tick, a pass of `bbg_i2c`, a
read of the pipe, a `tcp_send`, an `accept` and a `recv` of the server are steps of their own, and
the steps of different boards and of the server come in any order.  Each of them may fail: the bus
may return anything, `connect` and `send` may fail or `send` accept less than a line, the server
refuses a client when it has `MAX_CLIENTS`, and `recv` may find an error or the end of the stream.

In a run in which none of this happens, no byte is lost, doubled or mixed up between the boards: the
lines parsed on the connection of a board are the frames read on this board, in their order, up to
those that are still on the way.  And nothing gets stuck: as long as something is on the way, a step
is possible that brings it closer.
-/

namespace ParkingSystem

open Foundation

/-! ## A board -/

/-- A step of the STM32 or of the reader on its bus. -/
inductive SensorEvent where
  /-- The main loop of the STM32 handles a tick. -/
  | tick
  /-- One pass of the main loop of `bbg_i2c`, with the bytes that it reads from the bus. -/
  | poll (buf : Bytes)
deriving DecidableEq

/-- The STM32, with what has been read from it. -/
structure Sensor where
  stm : Stm32
  /-- Whether the frame exposed has been read since it was exposed. -/
  seen : Bool
  /-- The frames that `bbg_i2c` has written to the pipe. -/
  frames : List GpsFrame

/-- A step of a board. -/
inductive BoardEvent where
  | sensor (e : SensorEvent)
  /-- `bbg_tcp` reads from the pipe, and `read` returns this many bytes, or all that are there. -/
  | pipeRead (n : ℕ)
  /-- `bbg_tcp` takes a line off its buffer and offers it to `tcp_send`, whose calls of `connect`
  and `send` have this outcome. -/
  | forward (outcome : Outcome)
deriving DecidableEq

/-- The server's end of a connection. -/
inductive Peer where
  /-- It has not been accepted yet. -/
  | waiting
  /-- It is open, and this is its descriptor. -/
  | accepted (fd : ℕ)
  /-- It has been closed. -/
  | closed
deriving DecidableEq

/-- A connection of a board to the server. -/
structure Socket where
  /-- The bytes that the board has sent and the server has not received. -/
  bytes : Bytes
  /-- The server's end. -/
  peer : Peer

/-- A board. -/
structure Board where
  sensor : Sensor
  /-- The bytes in the pipe. -/
  pipe : Bytes
  /-- The process `bbg_tcp`. -/
  tcp : Forwarder
  /-- Its connections, numbered in the order in which they are made. -/
  sockets : ℕ → Socket

/-- The STM32 at power on. -/
def Sensor.init (table : VehicleTable) : Sensor := ⟨Stm32.powerOn table, false, []⟩

/-- A board at power on. -/
def Board.init (table : VehicleTable) : Board := ⟨.init table, [], .init, fun _ => ⟨[], .waiting⟩⟩

/-- The step function of the STM32 and its reader. -/
def sensorStep (table : VehicleTable) (s : Sensor) : SensorEvent → Option Sensor
  | .tick => some { s with
      stm := s.stm.onTick table
      seen := s.seen ∧ (s.stm.onTick table).frame.type = s.stm.frame.type }
  | .poll buf =>
    if h : buf.length = frameSize ∧ (i2cForward buf).isSome then
      some { s with
        seen := s.seen ∨ buf = s.stm.frame.bytes
        frames := s.frames ++ [readFrame buf h.1] }
    else some s

/-- The bytes that some lines have left on a connection. -/
def sentOn (k : ℕ) (attempts : List Attempt) : Bytes :=
  attempts.flatMap fun a => match a.sent with
    | some (c, bytes) => if c = k then bytes else []
    | none => []

/-- The step function of a board. -/
def boardStep (table : VehicleTable) (b : Board) : BoardEvent → Option Board
  | .sensor e => (sensorStep table b.sensor e).map fun sensor => { b with
      sensor := sensor
      pipe := match e with
        | .tick => b.pipe
        | .poll buf => b.pipe ++ (i2cForward buf).getD [] }
  | .pipeRead n => (forwarderStep b.tcp (.read (b.pipe.take n))).map fun tcp =>
      { b with tcp := tcp, pipe := b.pipe.drop n }
  | .forward outcome => (forwarderStep b.tcp (.forward outcome)).map fun tcp =>
      { b with
        tcp := tcp
        sockets := fun k => { b.sockets k with
          bytes := (b.sockets k).bytes ++ sentOn k (tcp.attempts.drop b.tcp.attempts.length) } }

/-- What `bbg_i2c` lets through is the frame exposed, read as a whole. -/
def ReadsWhole (s : Sensor) : SensorEvent → Prop
  | .tick => True
  | .poll buf => (i2cForward buf).isSome → buf = s.stm.frame.bytes

instance (s : Sensor) (e : SensorEvent) : Decidable (ReadsWhole s e) := by
  cases e <;> unfold ReadsWhole <;> infer_instance

/-- Besides, a frame is read at least once before another one replaces it. -/
def SensorInTime (table : VehicleTable) (s : Sensor) : SensorEvent → Prop
  | .tick => (s.stm.onTick table).frame.type ≠ s.stm.frame.type → s.seen
  | .poll buf => ReadsWhole s (.poll buf)

instance (table : VehicleTable) (s : Sensor) (e : SensorEvent) :
    Decidable (SensorInTime table s e) := by
  cases e <;> unfold SensorInTime <;> infer_instance

/-- No call of a board fails: `bbg_i2c` reads whole frames, and `send` accepts the whole line that
`bbg_tcp` offers. -/
def BoardSucceeds (b : Board) : BoardEvent → Prop
  | .sensor e => ReadsWhole b.sensor e
  | .pipeRead _ => True
  | .forward outcome => ∀ p ∈ cutAt lf b.tcp.buf, outcome = .accepts (p.1.length + 1)

instance (b : Board) (e : BoardEvent) : Decidable (BoardSucceeds b e) := by
  cases e <;> unfold BoardSucceeds <;> infer_instance

/-! ## The fleet -/

/-- A step of the fleet. -/
inductive FleetEvent (ι : Type*) where
  | board (i : ι) (e : BoardEvent)
  /-- The server accepts a connection of a board, and `accept` returns this descriptor.  Nothing is
  on a connection before the first line is sent, so that it does not matter whether this comes
  before. -/
  | accept (i : ι) (k cfd : ℕ)
  /-- The server handles the descriptor of a connection, and `recv` returns this many bytes, or all
  that are there. -/
  | recv (i : ι) (k n : ℕ) (envs : ℕ → CallEnv)
  /-- The server handles the descriptor of a connection, `recv` returns no positive number, and the
  client is disconnected. -/
  | hangUp (i : ι) (k : ℕ)

/-- The boards and the server, with its calls so far and the lines that it has handled. -/
structure Fleet (ι : Type*) where
  boards : ι → Board
  server : TcpServer
  calls : List Call
  handled : List WireLine

/-- The server's end of a connection with this descriptor, once a client has been accepted or
handled: the entry of `recvBufs_` says whether it is open. -/
def TcpServer.peer (server : TcpServer) (fd : ℕ) : Peer :=
  if fd ∈ server.recvBufs then .accepted fd else .closed

/-- The board with another state of a connection. -/
def Board.setSocket (b : Board) (k : ℕ) (socket : Socket) : Board :=
  { b with sockets := Function.update b.sockets k socket }

section Fleet

variable {ι : Type*} [DecidableEq ι] (stod : Bytes → Option ℚ) (tables : ι → VehicleTable)
  (fds : ι → ℕ)

/-- The boards and the server at power on. -/
def Fleet.init : Fleet ι :=
  ⟨fun i => .init (tables i), RunState.init.server, [], []⟩

/-- Lines of a client that are handled one after the other. -/
def wireLines (envs : ℕ → CallEnv) (fd : ℕ) (lines : List Bytes) : List WireLine :=
  (withEnvs envs lines).map fun p => ⟨p.1, fd, p.2⟩

/-- The step function of the fleet. -/
def fleetStep (s : Fleet ι) : FleetEvent ι → Option (Fleet ι)
  | .board i e => (boardStep (tables i) (s.boards i) e).map fun b =>
      { s with boards := Function.update s.boards i b }
  | .accept i k cfd =>
    let socket := (s.boards i).sockets k
    if socket.peer = .waiting ∧ k ≤ (s.boards i).tcp.tcp.connection ∧ cfd ∉ s.server.recvBufs then
      let (server, calls) := acceptClient cfd s.server
      some { s with
        boards := Function.update s.boards i
          ((s.boards i).setSocket k ⟨socket.bytes, server.peer cfd⟩)
        server := server
        calls := s.calls ++ calls }
    else none
  | .recv i k n envs =>
    let socket := (s.boards i).sockets k
    let chunk := socket.bytes.take n
    match socket.peer with
    | .accepted fd =>
      if chunk ≠ [] ∧ n ≤ bufSize - 1 then
        let (server, calls) := handleClient stod envs fd chunk s.server
        let rest := (s.server.recvBufs.lookup fd).getD []
        some {
          boards := Function.update s.boards i
            ((s.boards i).setSocket k ⟨socket.bytes.drop n, server.peer fd⟩)
          server := server
          calls := s.calls ++ calls
          handled := s.handled ++
            wireLines envs fd (framedLines (cutLines (rest ++ cstr chunk)).1) }
      else none
    | _ => none
  | .hangUp i k =>
    let socket := (s.boards i).sockets k
    match socket.peer with
    | .accepted fd =>
      let (server, calls) := disconnectClient fd s.server
      some { s with
        boards := Function.update s.boards i
          ((s.boards i).setSocket k ⟨socket.bytes, server.peer fd⟩)
        server := server
        calls := s.calls ++ .recv fd [] :: calls }
    | _ => none

/-- No call fails: the boards succeed, the server has room for a board when it accepts its
connection, which gets the descriptor `fds i`, and `recv` returns bytes whenever the server handles
a descriptor. -/
def NothingFails (s : Fleet ι) : FleetEvent ι → Prop
  | .board i e => BoardSucceeds (s.boards i) e
  | .accept i _ cfd => cfd = fds i ∧ s.server.recvBufs.keys.length < maxClients
  | .recv _ _ _ _ => True
  | .hangUp _ _ => False

instance (s : Fleet ι) (e : FleetEvent ι) : Decidable (NothingFails fds s e) := by
  cases e <;> unfold NothingFails <;> infer_instance

/-- Besides, every board's frames are read before they are replaced. -/
def FleetInTime (s : Fleet ι) : FleetEvent ι → Prop
  | .board i (.sensor e) => SensorInTime (tables i) (s.boards i).sensor e
  | e => NothingFails fds s e

instance (s : Fleet ι) (e : FleetEvent ι) : Decidable (FleetInTime tables fds s e) := by
  unfold FleetInTime
  split <;> infer_instance

end Fleet

/-! ## Lines of vehicles -/

/-- The lines that a board writes: they are not touched by the framing of the server, fit all the
buffers, and are parsed. -/
structure BoardLine (stod : Bytes → Option ℚ) (line : Bytes) : Prop where
  lf_notMem : lf ∉ line
  zero_notMem : (0 : UInt8) ∉ line
  framed : framedLines [line] = [line]
  length_le : line.length ≤ 48
  accepted : (parse stod line).isSome

/-- The frame is one of the table. -/
def VehicleTable.Builds (table : VehicleTable) (f : GpsFrame) : Prop :=
  ∃ idx type, f = buildFrame table idx type

section Lines

variable {stod : Bytes → Option ℚ} {table : VehicleTable} {f : GpsFrame}

/-- The reader accepts the type byte of a frame of the table. -/
lemma VehicleTable.Builds.type_accepted (h : table.Builds f) : f.type = byteS ∨ f.type = byteE := by
  obtain ⟨idx, type, rfl⟩ := h
  exact buildFrame_type_accepted table idx type

/-- A frame of a table is printed as a line of the system. -/
lemma VehicleTable.Builds.boardLine (htable : table.Decodable stod) (h : table.Builds f) :
    BoardLine stod (wireLine f) := by
  obtain ⟨idx, type, rfl⟩ := h
  obtain ⟨hwf, hlat, hlon⟩ := htable _ (table.vehicle_mem idx)
  obtain ⟨lat, hlat⟩ := Option.isSome_iff_exists.mp hlat
  obtain ⟨lon, hlon⟩ := Option.isSome_iff_exists.mp hlon
  have htype := buildFrame_type_accepted table idx type
  obtain ⟨hlf, hframed, -⟩ := (hwf.separable type).cutLines_wireText htype
  have h0 := zero_notMem_wireText htype
  have hlen := length_wireText_le (buildFrame table idx type)
  rw [wireText_eq] at hframed h0 hlen
  rw [cutLines_line hlf] at hframed
  exact {
    lf_notMem := hlf
    zero_notMem := fun h => h0 (List.mem_append_left _ h)
    framed := hframed
    length_le := Nat.lt_succ_iff.mp (by simpa using hlen)
    accepted := by simp [hwf.parse_wireLine type hlat hlon] }

/-- The framing of the server leaves such lines alone. -/
lemma framedLines_of_boardLine {lines : List Bytes} (h : ∀ l ∈ lines, BoardLine stod l) :
    framedLines lines = lines := by
  induction lines with
  | nil => rfl
  | cons l lines ih =>
    obtain ⟨hl, hlines⟩ := List.forall_mem_cons.mp h
    rw [← List.singleton_append, framedLines_append, hl.framed, ih hlines]

/-- There is no NUL in a stream of such lines. -/
lemma zero_notMem_unlines {lines : List Bytes} (h : ∀ l ∈ lines, BoardLine stod l) :
    (0 : UInt8) ∉ unlines lines := by
  induction lines with
  | nil => simp
  | cons l lines ih =>
    obtain ⟨hl, hlines⟩ := List.forall_mem_cons.mp h
    rw [unlines_cons, List.mem_append, List.mem_cons]
    rintro (h0 | h0 | h0)
    · exact hl.zero_notMem h0
    · exact absurd h0 (by decide)
    · exact ih hlines h0

/-- A piece of a stream of such lines that holds no newline is short. -/
lemma length_le_of_unlines {lines : List Bytes} (h : ∀ l ∈ lines, BoardLine stod l)
    {a s t : Bytes} (hs : lf ∉ s) (heq : a ++ (s ++ t) = unlines lines) : s.length ≤ 48 := by
  induction lines generalizing a with
  | nil =>
    obtain ⟨-, hst⟩ := List.append_eq_nil_iff.mp heq
    simp [(List.append_eq_nil_iff.mp hst).1]
  | cons l lines ih =>
    obtain ⟨hl, hlines⟩ := List.forall_mem_cons.mp h
    rw [unlines_cons, List.append_eq_append_iff] at heq
    rcases heq with ⟨u, rfl, hst⟩ | ⟨u, rfl, hst⟩
    · -- the piece starts within the first line
      have hlen : s.length ≤ u.length := by
        rcases List.append_eq_append_iff.mp hst with ⟨v, rfl, -⟩ | ⟨_ | ⟨c, v⟩, rfl, hrest⟩
        · simp
        · simp
        · obtain ⟨rfl, -⟩ := List.cons.inj hrest
          exact absurd (List.mem_append_right u List.mem_cons_self) hs
      have hle := hl.length_le
      rw [List.length_append] at hle
      omega
    · -- the piece starts behind the first line
      rcases u with _ | ⟨c, u⟩
      · cases s with
        | nil => simp
        | cons c s =>
          obtain ⟨rfl, -⟩ := List.cons.inj hst
          exact absurd List.mem_cons_self hs
      · exact ih hlines (List.cons.inj hst).2.symm

end Lines

/-- The STM32 is in some cycle of its table. -/
def Sensor.Running (table : VehicleTable) (s : Sensor) : Prop :=
  ∃ idx type, s.stm.InCycle table idx type

section Sensor

variable {table : VehicleTable} {s s' : Sensor} {e : SensorEvent} {buf : Bytes}

/-- At power on the first cycle begins. -/
lemma Sensor.running_init (table : VehicleTable) : (Sensor.init table).Running table :=
  ⟨0, .msgStart, Stm32.inCycle_powerOn table⟩

/-- The frame exposed is one of the table. -/
lemma Sensor.Running.builds (h : s.Running table) : table.Builds s.stm.frame := by
  obtain ⟨idx, type, hin⟩ := h
  exact ⟨idx, type, hin.frame_eq⟩

/-- The STM32 stays in its cycles. -/
lemma Sensor.Running.step (h : s.Running table) (hs : sensorStep table s e = some s') :
    s'.Running table := by
  cases e with
  | tick =>
    obtain rfl := Option.some.inj hs
    obtain ⟨idx, type, hin⟩ := h
    rcases Stm32.onTick_cases hin with hsame | ⟨-, hend⟩ | ⟨-, hnext⟩
    · exact ⟨_, _, hsame⟩
    · exact ⟨_, _, hend⟩
    · exact ⟨_, _, hnext⟩
  | poll buf =>
    simp only [sensorStep] at hs
    split_ifs at hs <;> obtain rfl := Option.some.inj hs <;> exact h

/-- A frame of the table that is read as a whole is read as it is. -/
lemma VehicleTable.Builds.readFrame {f : GpsFrame} (h : table.Builds f) :
    ParkingSystem.readFrame f.bytes f.length_bytes = f := by
  obtain ⟨idx, type, rfl⟩ := h
  exact readFrame_buildFrame table idx type

/-- A poll that succeeds reads the frame exposed, or lets nothing through. -/
lemma Sensor.Running.poll_cases (h : s.Running table) (hok : ReadsWhole s (.poll buf))
    (hs : sensorStep table s (.poll buf) = some s') :
    i2cForward buf = none ∧ s' = s ∨
      i2cForward buf = some (wireText s.stm.frame) ∧
        s' = { s with seen := true, frames := s.frames ++ [s.stm.frame] } := by
  cases hforward : i2cForward buf with
  | none =>
    simp only [sensorStep, hforward, Option.isSome_none, Bool.false_eq_true, and_false,
      dite_false, Option.some.injEq] at hs
    exact .inl ⟨rfl, hs.symm⟩
  | some text =>
    obtain rfl := hok (by simp [hforward])
    obtain ⟨htext, -⟩ := i2cForward_bytes _ h.builds.type_accepted
    simp only [sensorStep, htext, s.stm.frame.length_bytes, Option.isSome_some, and_self,
      dite_true, h.builds.readFrame, or_true, decide_true, Option.some.injEq] at hs
    exact .inr ⟨hforward ▸ htext, hs.symm⟩

end Sensor

/-! ## One connection -/

/-- The bytes on the first connection of the board. -/
def Board.onWay (b : Board) : Bytes := (b.sockets 0).bytes

/-- What is on the way after the first connection has changed. -/
@[simp] lemma Board.onWay_setSocket (b : Board) (socket : Socket) :
    (b.setSocket 0 socket).onWay = socket.bytes := by
  simp [onWay, setSocket]

/-- A change of a connection does not touch the sensor. -/
@[simp] lemma Board.setSocket_sensor (b : Board) (k : ℕ) (socket : Socket) :
    (b.setSocket k socket).sensor = b.sensor := rfl

/-- Nor the pipe. -/
@[simp] lemma Board.setSocket_pipe (b : Board) (k : ℕ) (socket : Socket) :
    (b.setSocket k socket).pipe = b.pipe := rfl

/-- Nor `bbg_tcp`. -/
@[simp] lemma Board.setSocket_tcp (b : Board) (k : ℕ) (socket : Socket) :
    (b.setSocket k socket).tcp = b.tcp := rfl

/-- What holds between a board and the server, which keeps `rest` in the receive buffer of the board
and has parsed `lines`: these lines and the bytes on the way are the frames read, and the board has
its first connection. -/
structure Link (table : VehicleTable) (b : Board) (rest : Bytes) (lines : List Bytes) : Prop where
  bytes_eq : unlines lines ++ (rest ++ (b.onWay ++ (b.tcp.buf ++ b.pipe))) =
    unlines (b.sensor.frames.map wireLine)
  lf_lines : ∀ l ∈ lines, lf ∉ l
  lf_rest : lf ∉ rest
  running : b.sensor.Running table
  builds : ∀ f ∈ b.sensor.frames, table.Builds f
  connection_eq : b.tcp.tcp.connection = 0

/-- A line that is taken off the buffer is put on the first connection. -/
lemma boardStep_forward {table : VehicleTable} {b b' : Board} {outcome : Outcome}
    (hconn : b.tcp.tcp.connection = 0) (hok : BoardSucceeds b (.forward outcome))
    (hs : boardStep table b (.forward outcome) = some b') :
    ∃ line rest, b.tcp.buf = line ++ lf :: rest ∧ b'.sensor = b.sensor ∧ b'.pipe = b.pipe ∧
      b'.tcp.buf = rest ∧ b'.tcp.tcp.connection = 0 ∧ b'.onWay = b.onWay ++ (line ++ [lf]) := by
  obtain ⟨tcp, hforward, rfl⟩ := Option.map_eq_some_iff.mp hs
  obtain ⟨line, rest, res, client, sent, hcut, hsend, rfl⟩ := forwarderStep_forward.mp hforward
  obtain rfl := hok (line, rest) hcut
  obtain ⟨rfl, hconn'⟩ := tcpSend_spec hsend
  refine ⟨line, rest, (cutAt_eq_some_iff.mp hcut).1, rfl, rfl, rfl, ?_, ?_⟩
  · simpa [hconn] using hconn'
  · have htake : (line ++ [lf]).take (line.length + 1) = line ++ [lf] :=
      List.take_of_length_le (by simp)
    simp [Board.onWay, sentOn, Outcome.sent, hconn, htake]

/-- The server's ends are its own affair. -/
lemma boardStep_peer {table : VehicleTable} {b b' : Board} {e : BoardEvent}
    (hs : boardStep table b e = some b') (k : ℕ) : (b'.sockets k).peer = (b.sockets k).peer := by
  cases e <;> obtain ⟨_, -, rfl⟩ := Option.map_eq_some_iff.mp hs <;> rfl

section Link

variable {stod : Bytes → Option ℚ} {table : VehicleTable} {b b' : Board} {rest : Bytes}
  {lines : List Bytes}

/-- The lines of a linked board. -/
lemma Link.boardLine (h : Link table b rest lines) (htable : table.Decodable stod) :
    ∀ l ∈ b.sensor.frames.map wireLine, BoardLine stod l := by
  intro l hl
  obtain ⟨f, hf, rfl⟩ := List.mem_map.mp hl
  exact (h.builds f hf).boardLine htable

/-- The lines parsed are the first frames read, and the bytes on the way are the others. -/
lemma Link.exists_waiting (h : Link table b rest lines) (htable : table.Decodable stod) :
    ∃ waiting, b.sensor.frames.map wireLine = lines ++ waiting ∧
      rest ++ (b.onWay ++ (b.tcp.buf ++ b.pipe)) = unlines waiting ∧
      ∀ l ∈ waiting, BoardLine stod l := by
  have hlines := h.boardLine htable
  obtain ⟨waiting, heq, hrest⟩ := exists_of_unlines_append h.lf_lines
    (fun l hl => (hlines l hl).lf_notMem) h.bytes_eq
  refine ⟨waiting, heq, hrest, fun l hl => hlines l ?_⟩
  rw [heq]
  exact List.mem_append_right _ hl

/-- There is no NUL on the way. -/
lemma Link.zero_notMem (h : Link table b rest lines) (htable : table.Decodable stod) :
    (0 : UInt8) ∉ rest ++ (b.onWay ++ (b.tcp.buf ++ b.pipe)) := by
  obtain ⟨waiting, -, hrest, hlines⟩ := h.exists_waiting htable
  rw [hrest]
  exact zero_notMem_unlines hlines

/-- A step of the STM32 or of its reader keeps the link. -/
lemma Link.sensor (h : Link table b rest lines) {e : SensorEvent} (hok : ReadsWhole b.sensor e)
    (hs : boardStep table b (.sensor e) = some b') : Link table b' rest lines := by
  obtain ⟨sensor, hsensor, rfl⟩ := Option.map_eq_some_iff.mp hs
  have hin := h.running.step hsensor
  cases e with
  | tick =>
    obtain rfl := Option.some.inj hsensor
    exact { h with running := hin }
  | poll buf =>
    rcases h.running.poll_cases hok hsensor with ⟨hnone, rfl⟩ | ⟨htext, rfl⟩
    · refine { h with bytes_eq := ?_ }
      simpa [hnone, Board.onWay] using h.bytes_eq
    · refine { h with bytes_eq := ?_, running := hin, builds := ?_ }
      · have heq := congrArg (· ++ wireText b.sensor.stm.frame) h.bytes_eq
        simpa [htext, wireText_eq, Board.onWay] using heq
      · exact List.forall_mem_append.mpr
          ⟨h.builds, List.forall_mem_singleton.mpr h.running.builds⟩

/-- A step of a board keeps its link. -/
lemma Link.board (htable : table.Decodable stod) (h : Link table b rest lines) {e : BoardEvent}
    (hok : BoardSucceeds b e) (hs : boardStep table b e = some b') : Link table b' rest lines := by
  cases e with
  | sensor e => exact h.sensor hok hs
  | pipeRead n =>
    obtain ⟨tcp, hread, rfl⟩ := Option.map_eq_some_iff.mp hs
    obtain ⟨-, rfl⟩ := forwarderStep_read.mp hread
    -- the buffer is used as a C string, which loses nothing
    have h0 : (0 : UInt8) ∉ b.tcp.buf ++ b.pipe.take n := by
      intro hmem
      refine h.zero_notMem htable ?_
      simp only [List.mem_append] at hmem ⊢
      exact Or.inr (Or.inr (hmem.imp_right List.mem_of_mem_take))
    refine { h with bytes_eq := ?_ }
    simpa [cstr_eq_self h0, Board.onWay] using h.bytes_eq
  | forward outcome =>
    obtain ⟨line, rest, hbuf, hsensor, hpipe, hrest, hconn, honWay⟩ :=
      boardStep_forward h.connection_eq hok hs
    refine ⟨?_, h.lf_lines, h.lf_rest, ?_, ?_, hconn⟩
    · rw [hsensor, hpipe, hrest, honWay, ← h.bytes_eq, hbuf]
      simp
    · rw [hsensor]
      exact h.running
    · rw [hsensor]
      exact h.builds

/-- What becomes of the server's end does not touch the link. -/
lemma Link.setPeer (h : Link table b rest lines) (peer : Peer) :
    Link table (b.setSocket 0 ⟨b.onWay, peer⟩) rest lines :=
  { h with bytes_eq := by simpa using h.bytes_eq }

/-- Receiving keeps the link: the lines that are completed are parsed. -/
lemma Link.recv (htable : table.Decodable stod) (h : Link table b rest lines) (n : ℕ)
    (peer : Peer) :
    let p := cutLines (rest ++ cstr (b.onWay.take n))
    Link table (b.setSocket 0 ⟨b.onWay.drop n, peer⟩) p.2 (lines ++ framedLines p.1) ∧
      framedLines p.1 = p.1 ∧ ∀ l ∈ p.1, BoardLine stod l := by
  obtain ⟨waiting, heq, hrest, hlines⟩ := h.exists_waiting htable
  have hsplit : b.onWay.take n ++ b.onWay.drop n = b.onWay := List.take_append_drop n b.onWay
  have h0 : (0 : UInt8) ∉ b.onWay.take n := by
    intro hmem
    refine h.zero_notMem htable ?_
    simp only [List.mem_append]
    exact Or.inr (Or.inl (List.mem_of_mem_take hmem))
  rw [cstr_eq_self h0]
  obtain ⟨hcut, hlf, hlfRest⟩ := cutLines_spec (rest ++ b.onWay.take n)
  -- the lines completed are lines on the way
  have hbytes : unlines (cutLines (rest ++ b.onWay.take n)).1 ++
      ((cutLines (rest ++ b.onWay.take n)).2 ++ (b.onWay.drop n ++ (b.tcp.buf ++ b.pipe))) =
      unlines waiting := by
    rw [← List.append_assoc, ← hcut, ← hrest, List.append_assoc,
      ← List.append_assoc (b.onWay.take n), hsplit]
  obtain ⟨later, hwaiting, -⟩ := exists_of_unlines_append hlf
    (fun l hl => (hlines l hl).lf_notMem) hbytes
  have hnew : ∀ l ∈ (cutLines (rest ++ b.onWay.take n)).1, BoardLine stod l := by
    intro l hl
    exact hlines l (hwaiting ▸ List.mem_append_left _ hl)
  have hframed := framedLines_of_boardLine hnew
  refine ⟨⟨?_, ?_, hlfRest, h.running, h.builds, h.connection_eq⟩, hframed, hnew⟩
  · rw [hframed, Board.setSocket_sensor, heq, unlines_append, unlines_append, ← hbytes]
    simp
  · rw [hframed]
    exact List.forall_mem_append.mpr ⟨h.lf_lines, hlf⟩

end Link

/-! ## Every connection -/

section Runs

variable {ι : Type*} [DecidableEq ι] {stod : Bytes → Option ℚ} {tables : ι → VehicleTable}
  {fds : ι → ℕ} {s s' : Fleet ι} {i : ι} {k n cfd : ℕ} {envs : ℕ → CallEnv}

/-- A step of a board changes this board only. -/
lemma fleetStep_board {e : BoardEvent} : fleetStep stod tables s (.board i e) = some s' ↔
    ∃ b, boardStep (tables i) (s.boards i) e = some b ∧
      s' = { s with boards := Function.update s.boards i b } := by
  simp only [fleetStep, Option.map_eq_some_iff]
  exact exists_congr fun b => and_congr_right fun _ => eq_comm

/-- What a step does to the boards and to the list of calls: it is a step of a board, or it is one
of the server, which makes some calls and changes the state of a connection. -/
lemma fleetStep_cases {e : FleetEvent ι} (hs : fleetStep stod tables s e = some s') :
    (∃ i e' b, e = .board i e' ∧ boardStep (tables i) (s.boards i) e' = some b ∧
        s' = { s with boards := Function.update s.boards i b }) ∨
      ∃ i k socket calls,
        s'.boards = Function.update s.boards i ((s.boards i).setSocket k socket) ∧
          s'.calls = s.calls ++ calls := by
  cases e with
  | board i e =>
    obtain ⟨b, hb, rfl⟩ := fleetStep_board.mp hs
    exact .inl ⟨i, e, b, rfl, hb, rfl⟩
  | accept i k cfd =>
    simp only [fleetStep, Option.ite_none_right_eq_some, Option.some.injEq] at hs
    obtain ⟨-, rfl⟩ := hs
    exact .inr ⟨i, k, _, _, rfl, rfl⟩
  | recv i k n envs =>
    cases hpeer : ((s.boards i).sockets k).peer with
    | accepted fd =>
      simp only [fleetStep, hpeer, Option.ite_none_right_eq_some, Option.some.injEq] at hs
      obtain ⟨-, rfl⟩ := hs
      exact .inr ⟨i, k, _, _, rfl, rfl⟩
    | _ => simp [fleetStep, hpeer] at hs
  | hangUp i k =>
    cases hpeer : ((s.boards i).sockets k).peer with
    | accepted fd =>
      simp only [fleetStep, hpeer, Option.some.injEq] at hs
      obtain rfl := hs
      exact .inr ⟨i, k, _, _, rfl, rfl⟩
    | _ => simp [fleetStep, hpeer] at hs

/-- The bytes in the receive buffer of a board. -/
def Fleet.rest (fds : ι → ℕ) (s : Fleet ι) (i : ι) : Bytes :=
  (s.server.recvBufs.lookup (fds i)).getD []

/-- The lines completed by the next bytes of a board, and the unfinished rest. -/
def Fleet.received (fds : ι → ℕ) (s : Fleet ι) (i : ι) (n : ℕ) : List Bytes × Bytes :=
  cutLines (s.rest fds i ++ cstr ((s.boards i).onWay.take n))

/-- The sessions after these lines, and the calls made for them. -/
def Fleet.handling (stod : Bytes → Option ℚ) (fds : ι → ℕ) (s : Fleet ι) (i : ι) (n : ℕ)
    (envs : ℕ → CallEnv) : SessionManager × List Call :=
  runMachine (lineStep stod (fds i)) s.server.sessions
    (withEnvs envs (framedLines (s.received fds i n).1))

/-- The boards are linked with the server: each has its first connection only, with its own
descriptor. -/
structure Linked (tables : ι → VehicleTable) (fds : ι → ℕ) (s : Fleet ι) : Prop where
  link : ∀ i, Link (tables i) (s.boards i) (s.rest fds i) (parsedOn (fds i) s.calls)
  first : ∀ i k fd, ((s.boards i).sockets k).peer = .accepted fd → k = 0 ∧ fd = fds i
  accepted : ∀ i, fds i ∈ s.server.recvBufs → ((s.boards i).sockets 0).peer = .accepted (fds i)

/-- The server accepts the first connection of a board. -/
lemma Linked.fleetStep_accept (h : Linked tables fds s)
    (hok : NothingFails fds s (.accept i k cfd))
    (hs : fleetStep stod tables s (.accept i k cfd) = some s') :
    fds i ∉ s.server.recvBufs ∧ s' = { s with
      boards := Function.update s.boards i
        ((s.boards i).setSocket 0 ⟨(s.boards i).onWay, .accepted (fds i)⟩)
      server := { s.server with
        recvBufs := s.server.recvBufs.insert (fds i) []
        pendingFds := s.server.pendingFds ++ [fds i] }
      calls := s.calls ++ [.accept (fds i)] } := by
  obtain ⟨rfl, hroom⟩ := hok
  simp only [fleetStep, acceptClient, if_neg (not_le.mpr hroom),
    Option.ite_none_right_eq_some, Option.some.injEq, (h.link i).connection_eq,
    Nat.le_zero] at hs
  obtain ⟨⟨-, rfl, hnew⟩, rfl⟩ := hs
  refine ⟨hnew, ?_⟩
  simp [TcpServer.peer, Board.onWay]

/-- The server receives on the first connection of a board. -/
lemma Linked.fleetStep_recv (h : Linked tables fds s)
    (hs : fleetStep stod tables s (.recv i k n envs) = some s') :
    ((s.boards i).onWay.take n ≠ [] ∧ n ≤ bufSize - 1) ∧ s' = {
      boards := Function.update s.boards i
        ((s.boards i).setSocket 0 ⟨(s.boards i).onWay.drop n, .accepted (fds i)⟩)
      server := { s.server with
        sessions := (s.handling stod fds i n envs).1
        recvBufs := s.server.recvBufs.insert (fds i) (s.received fds i n).2 }
      calls := s.calls ++
        .recv (fds i) ((s.boards i).onWay.take n) :: (s.handling stod fds i n envs).2
      handled := s.handled ++
        wireLines envs (fds i) (framedLines (s.received fds i n).1) } := by
  cases hpeer : ((s.boards i).sockets k).peer with
  | accepted fd =>
    obtain ⟨rfl, rfl⟩ := h.first i k fd hpeer
    simp only [fleetStep, hpeer, Option.ite_none_right_eq_some, Option.some.injEq] at hs
    obtain ⟨hn, rfl⟩ := hs
    refine ⟨hn, ?_⟩
    rw [handleClient_cstr stod (fds i) envs hn.1]
    simp [TcpServer.peer, Fleet.handling, Fleet.received, Fleet.rest, Board.onWay]
  | _ => simp [fleetStep, hpeer] at hs

omit [DecidableEq ι] in
/-- At power on nothing is on the way. -/
lemma linked_init (tables : ι → VehicleTable) (fds : ι → ℕ) :
    Linked tables fds (Fleet.init tables) where
  link i := {
    bytes_eq := rfl
    lf_lines := by simp [parsedOn, Fleet.init]
    lf_rest := by simp [Fleet.rest, Fleet.init, RunState.init]
    running := Sensor.running_init (tables i)
    builds := by simp [Fleet.init, Board.init, Sensor.init]
    connection_eq := rfl }
  first i k fd hpeer := by simp [Fleet.init, Board.init] at hpeer
  accepted i hmem := by simp [Fleet.init, RunState.init] at hmem

/-- When the first connection of a board is open, the others are as they were. -/
lemma Linked.peers_of_open (h : Linked tables fds s) (hfds : Function.Injective fds) (i : ι)
    (bytes buf : Bytes) :
    let boards := Function.update s.boards i
      ((s.boards i).setSocket 0 ⟨bytes, .accepted (fds i)⟩)
    (∀ j k fd, ((boards j).sockets k).peer = .accepted fd → k = 0 ∧ fd = fds j) ∧
      ∀ j, fds j ∈ s.server.recvBufs.insert (fds i) buf →
        ((boards j).sockets 0).peer = .accepted (fds j) := by
  refine ⟨fun j k fd hpeer => ?_, fun j hmem => ?_⟩
  · by_cases hij : j = i
    · subst hij
      by_cases hk : k = 0
      · subst hk
        simpa [Board.setSocket, eq_comm] using hpeer
      · exact h.first j k fd (by simpa [Board.setSocket, Function.update_of_ne hk] using hpeer)
    · exact h.first j k fd (by simpa [Function.update_of_ne hij] using hpeer)
  · by_cases hij : j = i
    · subst hij
      simp [Board.setSocket]
    · have hne : fds j ≠ fds i := fun heq => hij (hfds heq)
      simpa [Function.update_of_ne hij] using
        h.accepted j ((AList.mem_insert _).mp hmem |>.resolve_left hne)

/-- Every step keeps the links. -/
lemma linked_step (htables : ∀ i, (tables i).Decodable stod) (hfds : Function.Injective fds)
    (h : Linked tables fds s) {e : FleetEvent ι} (hok : NothingFails fds s e)
    (hs : fleetStep stod tables s e = some s') : Linked tables fds s' := by
  cases e with
  | board i e =>
    obtain ⟨b, hb, rfl⟩ := fleetStep_board.mp hs
    have hpeer : ∀ j k, ((Function.update s.boards i b j).sockets k).peer =
        ((s.boards j).sockets k).peer := by
      intro j k
      by_cases hij : j = i
      · subst hij
        simpa using boardStep_peer hb k
      · simp [Function.update_of_ne hij]
    refine ⟨fun j => ?_, fun j k fd hj => h.first j k fd (hpeer j k ▸ hj),
      fun j hj => (hpeer j 0).trans (h.accepted j hj)⟩
    by_cases hij : j = i
    · subst hij
      simpa [Fleet.rest] using (h.link j).board (htables j) hok hb
    · simpa [Fleet.rest, Function.update_of_ne hij] using h.link j
  | accept i k cfd =>
    obtain ⟨hnew, rfl⟩ := h.fleetStep_accept hok hs
    obtain ⟨hfirst, haccepted⟩ := h.peers_of_open hfds i (s.boards i).onWay []
    refine ⟨fun j => ?_, hfirst, haccepted⟩
    have hcalls : parsedOn (fds j) (s.calls ++ [.accept (fds i)]) = parsedOn (fds j) s.calls := by
      simp [parsedOn]
    by_cases hij : j = i
    · subst hij
      have hlookup : s.server.recvBufs.lookup (fds j) = none := AList.lookup_eq_none.mpr hnew
      simpa [Fleet.rest, hcalls, hlookup] using (h.link j).setPeer (.accepted (fds j))
    · have hne : fds j ≠ fds i := fun heq => hij (hfds heq)
      simpa [Fleet.rest, hcalls, Function.update_of_ne hij, AList.lookup_insert_ne hne]
        using h.link j
  | recv i k n envs =>
    obtain ⟨-, rfl⟩ := h.fleetStep_recv hs
    obtain ⟨hfirst, haccepted⟩ :=
      h.peers_of_open hfds i ((s.boards i).onWay.drop n) (s.received fds i n).2
    refine ⟨fun j => ?_, hfirst, haccepted⟩
    have hcalls : ∀ chunk, parsedOn (fds j) (.recv (fds i) chunk ::
        (s.handling stod fds i n envs).2) =
        if fds i = fds j then framedLines (s.received fds i n).1 else [] :=
      fun _ => parsedOn_lineStep _ _ _ _ _
    by_cases hij : j = i
    · subst hij
      have hrecv := ((h.link j).recv (htables j) n (.accepted (fds j))).1
      simpa [Fleet.rest, Fleet.received, hcalls] using hrecv
    · have hne : fds j ≠ fds i := fun heq => hij (hfds heq)
      simpa [Fleet.rest, hcalls, hne.symm, Function.update_of_ne hij, AList.lookup_insert_ne hne]
        using h.link j
  | hangUp i k => exact hok.elim

/-- In every run without failures the boards are linked with the server. -/
lemma linked_of_trace (htables : ∀ i, (tables i).Decodable stod) (hfds : Function.Injective fds)
    {es : List (FleetEvent ι)}
    (hrun : Trace (fleetStep stod tables) (NothingFails fds) (Fleet.init tables) es s) :
    Linked tables fds s :=
  hrun.invariant (linked_init tables fds) fun _ _ _ h hok hs => linked_step htables hfds h hok hs

/-- **Every frame is delivered once and in order.**  In every run of the fleet in which no call
fails, the lines parsed on the connection of a board are the first of the frames read on this board,
and the other frames are the bytes on the way: in the receive buffer of the server, on the
connection, in the buffer of `bbg_tcp` and in the pipe.  All lines are accepted.  An unfinished line
has at most 48 bytes, so that the receive buffer of the server stays that short, and `bbg_tcp` asks
for at least 207 bytes when it reads. -/
theorem fleet_delivers (htables : ∀ i, (tables i).Decodable stod) (hfds : Function.Injective fds)
    {es : List (FleetEvent ι)}
    (hrun : Trace (fleetStep stod tables) (NothingFails fds) (Fleet.init tables) es s) (i : ι) :
    ∃ parsed waiting : List GpsFrame, (s.boards i).sensor.frames = parsed ++ waiting ∧
      parsedOn (fds i) s.calls = parsed.map wireLine ∧
      s.rest fds i ++ ((s.boards i).onWay ++ ((s.boards i).tcp.buf ++ (s.boards i).pipe)) =
        waiting.flatMap wireText ∧
      (∀ line ∈ parsedOn (fds i) s.calls, (parse stod line).isSome) ∧
      (s.rest fds i).length ≤ 48 ∧
      (lf ∉ (s.boards i).tcp.buf → 207 ≤ (s.boards i).tcp.readSize) := by
  have hlink := (linked_of_trace htables hfds hrun).link i
  obtain ⟨lines, heq, hbytes, hlines⟩ := hlink.exists_waiting (htables i)
  obtain ⟨parsed, waiting, hframes, hparsed, rfl⟩ := List.map_eq_append_iff.mp heq
  refine ⟨parsed, waiting, hframes, hparsed.symm, ?_, ?_, ?_, ?_⟩
  · rw [hbytes]
    simp [unlines, List.flatMap_def, Function.comp_def, funext wireText_eq]
  · intro line hline
    exact (hlink.boardLine (htables i) line (heq ▸ List.mem_append_left _ hline)).accepted
  · exact length_le_of_unlines hlines (a := []) hlink.lf_rest hbytes
  · intro hbuf
    have hlen := length_le_of_unlines hlines hbuf
      (show (s.rest fds i ++ (s.boards i).onWay) ++ _ = _ by rwa [List.append_assoc])
    simp only [Forwarder.readSize, pipeBufSize]
    omega

/-- A second yard with one van. -/
def vanTable : VehicleTable where
  rows := [⟨ascii "VAN-001", ascii "32.0853", ascii "34.7817", ascii "TelAviv"⟩]
  rows_ne_nil := by simp

/-- The van is well formed. -/
lemma vanTable_decodable : vanTable.Decodable readDecimal := by
  intro v hv
  obtain rfl := List.mem_singleton.mp hv
  refine ⟨?_, by decide +kernel, by decide +kernel⟩
  constructor <;> decide

/-- Two boards, with their descriptors. -/
def twoTables (i : Bool) : VehicleTable := if i then gVehicles else vanTable

/-- The descriptors of the two boards. -/
def twoFds (i : Bool) : ℕ := if i then 5 else 6

/-- So are the tables of both boards. -/
lemma twoTables_decodable (i : Bool) : (twoTables i).Decodable readDecimal := by
  cases i
  · exact vanTable_decodable
  · exact gVehicles_decodable

/-- The two boards have different descriptors. -/
lemma twoFds_injective : Function.Injective twoFds := by
  intro i j
  cases i <;> cases j <;> simp [twoFds]

/-- The first vehicle of a board is read. -/
def pollFirst (i : Bool) (type : MsgType) : FleetEvent Bool :=
  .board i (.sensor (.poll (buildFrame (twoTables i) 0 type).bytes))

/-- The start frames of both boards are read and sent at the same time, and the server receives the
one of the second board in two pieces. -/
def twoBoardsRun : List (FleetEvent Bool) :=
  [.accept true 0 5, pollFirst true .msgStart, .board true (.sensor (.poll [])),
    pollFirst false .msgStart, .board false (.pipeRead 100), .board true (.pipeRead 100),
    .accept false 0 6, .board true (.forward (.accepts 34)), .board false (.forward (.accepts 34)),
    .recv false 0 10 fun _ => telAvivAt 0, .recv true 0 511 fun _ => telAvivAt 0,
    .recv false 0 511 fun _ => telAvivAt 0, pollFirst true .msgStart]

/-- The server has parsed one of the two frames read on the first board. -/
theorem fleet_delivers_two_boards :
    ∃ s, Trace (fleetStep readDecimal twoTables) (NothingFails twoFds) (Fleet.init twoTables)
        twoBoardsRun s ∧
      ∃ parsed waiting : List GpsFrame, (s.boards true).sensor.frames = parsed ++ waiting ∧
        parsedOn 5 s.calls = parsed.map wireLine ∧ parsed.length = 1 ∧ waiting.length = 1 := by
  have hlen : (replayEvents (fleetStep readDecimal twoTables) (NothingFails twoFds)
      (Fleet.init twoTables) twoBoardsRun).map (fun s =>
        ((s.boards true).sensor.frames.length, (parsedOn 5 s.calls).length)) = some (2, 1) := by
    decide +kernel
  obtain ⟨s, hs, hlen⟩ := Option.map_eq_some_iff.mp hlen
  have hrun := Trace.of_replayEvents hs
  obtain ⟨parsed, waiting, hframes, hparsed, -⟩ :=
    fleet_delivers twoTables_decodable twoFds_injective hrun true
  obtain ⟨htwo, hone⟩ := Prod.mk.inj hlen
  have hone' : parsed.length = 1 := by rw [← hone, ← List.length_map wireLine, ← hparsed]; rfl
  refine ⟨s, hrun, parsed, waiting, hframes, hparsed, hone', ?_⟩
  rw [hframes, List.length_append] at htwo
  omega

/-! ## Nothing gets stuck -/

/-- The step brings bytes of the board closer to the parser. -/
def FleetEvent.deliversFor (i : ι) : FleetEvent ι → Bool
  | .board j (.pipeRead _) => i = j
  | .board j (.forward _) => i = j
  | .recv j _ _ _ => i = j
  | _ => false

/-- The step reads a frame of the board. -/
def FleetEvent.ReadsFrame (i : ι) (e : FleetEvent ι) : Prop :=
  ∃ buf, e = .board i (.sensor (.poll buf)) ∧ (i2cForward buf).isSome

/-- The bytes on the way, each counted once for every step that it may have to wait for. -/
def Board.pending (b : Board) : ℕ := 3 * b.pipe.length + (2 * b.tcp.buf.length + b.onWay.length)

/-- The step is one of the STM32 or of its reader. -/
def BoardEvent.ofSensor : BoardEvent → Bool
  | .sensor _ => true
  | _ => false

/-- A step of a board that reads no frame leaves the frames alone and lets no more bytes wait; it
lets fewer of them wait if it is a delivery. -/
lemma Link.pending {table : VehicleTable} {b b' : Board} {rest : Bytes} {lines : List Bytes}
    (h : Link table b rest lines) {e : BoardEvent} (hok : BoardSucceeds b e)
    (hpoll : ∀ buf, e = .sensor (.poll buf) → i2cForward buf = none)
    (hs : boardStep table b e = some b') :
    b'.sensor.frames = b.sensor.frames ∧
      b'.pending + (if e.ofSensor then 0 else 1) ≤ b.pending := by
  cases e with
  | sensor e =>
    obtain ⟨sensor, hsensor, rfl⟩ := Option.map_eq_some_iff.mp hs
    cases e with
    | tick =>
      obtain rfl := Option.some.inj hsensor
      exact ⟨rfl, le_rfl⟩
    | poll buf =>
      have hnone := hpoll buf rfl
      rcases h.running.poll_cases hok hsensor with ⟨-, rfl⟩ | ⟨hsome, -⟩
      · exact ⟨rfl, by simp [Board.pending, Board.onWay, hnone, BoardEvent.ofSensor]⟩
      · simp [hnone] at hsome
  | pipeRead n =>
    obtain ⟨tcp, hread, rfl⟩ := Option.map_eq_some_iff.mp hs
    obtain ⟨⟨-, hne, -⟩, rfl⟩ := forwarderStep_read.mp hread
    have hle := cstr_length_le (b.tcp.buf ++ b.pipe.take n)
    have hpos := List.length_pos_iff.mpr hne
    simp only [List.length_append, List.length_take] at hle hpos
    refine ⟨rfl, ?_⟩
    simp only [Board.pending, Board.onWay, List.length_drop, BoardEvent.ofSensor,
      Bool.false_eq_true, if_false]
    omega
  | forward outcome =>
    obtain ⟨line, rest, hbuf, hsensor, hpipe, hrest, -, honWay⟩ :=
      boardStep_forward h.connection_eq hok hs
    refine ⟨by rw [hsensor], ?_⟩
    simp only [Board.pending, hpipe, hrest, honWay, hbuf, List.length_append, List.length_cons,
      List.length_nil, BoardEvent.ofSensor, Bool.false_eq_true, if_false]
    omega

/-- The same for a step of the fleet. -/
lemma Linked.pending (h : Linked tables fds s) {e : FleetEvent ι} (hok : NothingFails fds s e)
    (hpoll : ¬e.ReadsFrame i) (hs : fleetStep stod tables s e = some s') :
    (s'.boards i).sensor.frames = (s.boards i).sensor.frames ∧
      (s'.boards i).pending + (if e.deliversFor i then 1 else 0) ≤ (s.boards i).pending := by
  cases e with
  | board j e =>
    obtain ⟨b, hb, rfl⟩ := fleetStep_board.mp hs
    by_cases hij : i = j
    · subst hij
      have hstep := (h.link i).pending hok (fun buf he => by
        by_contra hne
        exact hpoll ⟨buf, by rw [he], Option.isSome_iff_ne_none.mpr hne⟩) hb
      cases e <;> simpa [FleetEvent.deliversFor, BoardEvent.ofSensor] using hstep
    · cases e <;> simp [FleetEvent.deliversFor, hij]
  | accept j k cfd =>
    obtain ⟨-, rfl⟩ := h.fleetStep_accept hok hs
    by_cases hij : i = j
    · subst hij
      simp [FleetEvent.deliversFor, Board.pending]
    · simp [FleetEvent.deliversFor, hij]
  | recv j k n envs =>
    obtain ⟨⟨hne, -⟩, rfl⟩ := h.fleetStep_recv hs
    by_cases hij : i = j
    · subst hij
      have hpos := List.length_pos_iff.mpr hne
      rw [List.length_take] at hpos
      refine ⟨by simp, ?_⟩
      simp only [FleetEvent.deliversFor, Function.update_self, Board.pending, List.length_drop,
        decide_true, if_true, Board.onWay_setSocket, Board.setSocket_pipe, Board.setSocket_tcp]
      omega
    · simp [FleetEvent.deliversFor, hij]
  | hangUp j k => exact hok.elim

/-- If no delivery for a connected board is possible, all its frames have been parsed. -/
lemma Linked.parsed_of_stuck (h : Linked tables fds s) (htable : (tables i).Decodable stod)
    (hopen : fds i ∈ s.server.recvBufs)
    (hstuck : ∀ e : FleetEvent ι, e.deliversFor i → NothingFails fds s e →
      fleetStep stod tables s e = none) :
    parsedOn (fds i) s.calls = (s.boards i).sensor.frames.map wireLine := by
  obtain ⟨waiting, heq, hbytes, hlines⟩ := (h.link i).exists_waiting htable
  have honWay : (s.boards i).onWay = [] := by
    by_contra hne
    have hstep := hstuck (.recv i 0 1 fun _ => ⟨0, 0, .zero⟩) (by simp [FleetEvent.deliversFor])
      trivial
    rw [Board.onWay] at hne
    simp [fleetStep, h.accepted i hopen, hne, bufSize] at hstep
  have hbuf : lf ∉ (s.boards i).tcp.buf := by
    intro hmem
    obtain ⟨p, hp⟩ := Option.ne_none_iff_exists'.mp (mt cutAt_eq_none_iff.mp (not_not.mpr hmem))
    have hstep := hstuck (.board i (.forward (.accepts (p.1.length + 1))))
      (by simp [FleetEvent.deliversFor]) (by
        intro p' hp'
        obtain rfl := Option.some.inj (hp.symm.trans hp')
        rfl)
    simp [fleetStep, boardStep, forwarderStep, hp, tcpSend] at hstep
  have hpipe : (s.boards i).pipe = [] := by
    by_contra hne
    have hlen := length_le_of_unlines hlines hbuf
      (show (s.rest fds i ++ (s.boards i).onWay) ++ _ = _ by rwa [List.append_assoc])
    have hpos := List.length_pos_iff.mpr hne
    have hstep := hstuck (.board i (.pipeRead 1)) (by simp [FleetEvent.deliversFor]) trivial
    simp [fleetStep, boardStep, forwarderStep, hbuf, hne, pipeBufSize] at hstep
    omega
  -- what is left has no newline, so that it holds no line
  have hlf : lf ∉ unlines waiting := by
    rw [← hbytes, honWay, hpipe]
    simpa using ⟨(h.link i).lf_rest, hbuf⟩
  cases waiting with
  | nil => rw [heq, List.append_nil]
  | cons l waiting => simp at hlf

/-- **Nothing gets stuck.**  As long as no call fails and no further frame is read on a board, only
so many deliveries of its bytes can follow.  If the server has accepted the connection of the board
and no delivery can succeed any more, all the frames read on the board have been parsed. -/
theorem fleet_drains (htables : ∀ i, (tables i).Decodable stod) (hfds : Function.Injective fds)
    {es es' : List (FleetEvent ι)}
    (hrun : Trace (fleetStep stod tables) (NothingFails fds) (Fleet.init tables) es s)
    (hrun' : Trace (fleetStep stod tables) (NothingFails fds) s es' s') (i : ι)
    (hpoll : ∀ e ∈ es', ¬e.ReadsFrame i) :
    es'.countP (FleetEvent.deliversFor i) ≤ (s.boards i).pending ∧
      (fds i ∈ s'.server.recvBufs →
        (∀ e : FleetEvent ι, e.deliversFor i → NothingFails fds s' e →
          fleetStep stod tables s' e = none) →
        parsedOn (fds i) s'.calls = (s.boards i).sensor.frames.map wireLine) := by
  have hcount : Linked tables fds s' ∧
      (s'.boards i).sensor.frames = (s.boards i).sensor.frames ∧
      (s'.boards i).pending + es'.countP (FleetEvent.deliversFor i) ≤ (s.boards i).pending := by
    induction hrun' with
    | nil => exact ⟨linked_of_trace htables hfds hrun, rfl, by simp⟩
    | snoc _ hok hs ih =>
      rw [List.forall_mem_append, List.forall_mem_singleton] at hpoll
      obtain ⟨hlinked, hframes, hle⟩ := ih hpoll.1
      obtain ⟨hframes', hle'⟩ := hlinked.pending hok hpoll.2 hs
      refine ⟨linked_step htables hfds hlinked hok hs, hframes'.trans hframes, ?_⟩
      rw [List.countP_append, List.countP_singleton]
      omega
  obtain ⟨hlinked, hframes, hle⟩ := hcount
  refine ⟨by omega, fun hopen hstuck => ?_⟩
  rw [hlinked.parsed_of_stuck (htables i) hopen hstuck, hframes]

/-- The second frame of the first board needs three deliveries. -/
theorem fleet_drains_two_boards :
    ∃ s, Trace (fleetStep readDecimal twoTables) (NothingFails twoFds) (Fleet.init twoTables)
        twoBoardsRun s ∧ 3 ≤ (s.boards true).pending := by
  have hmore : ((replayEvents (fleetStep readDecimal twoTables) (NothingFails twoFds)
      (Fleet.init twoTables) twoBoardsRun).bind fun s =>
        (replayEvents (fleetStep readDecimal twoTables) (NothingFails twoFds) s
          [.board true (.pipeRead 100), .board true (.forward (.accepts 34)),
            .recv true 0 511 fun _ => telAvivAt 1]).map fun _ => ()) = some () := by
    decide +kernel
  obtain ⟨s, hs, hmore⟩ := Option.bind_eq_some_iff.mp hmore
  obtain ⟨s', hs', -⟩ := Option.map_eq_some_iff.mp hmore
  have hrun := Trace.of_replayEvents hs
  have hdrain := fleet_drains twoTables_decodable twoFds_injective hrun
    (Trace.of_replayEvents hs') true (by simp [FleetEvent.ReadsFrame])
  exact ⟨s, hrun, hdrain.1⟩

end Runs

end ParkingSystem
