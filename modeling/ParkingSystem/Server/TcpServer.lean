import ParkingSystem.Foundation.Decimal
import ParkingSystem.Server.MessageParser
import ParkingSystem.Server.PriceTable
import ParkingSystem.Server.Session

/-!
# The TCP server

The functions of `TcpServer`: `processMessage` with its fee calculation, `handleClient` with the
loop that takes complete lines off the receive buffer of a client, `acceptClient`,
`disconnectClient`, and one pass of the event loop `run`.

What the server does to the outside is the list of its calls, in order.  What it gets from the
outside (results of `accept` and `recv`, clock readings, the shared price table at the time of a
lookup) are arguments.
-/

namespace ParkingSystem

open Foundation

/-! ## Messages -/

/-- What the server reads from its environment while it handles one line. -/
structure CallEnv where
  /-- The first clock reading. -/
  now : ℤ
  /-- The second clock reading, taken for the end time of a record. -/
  nowEnd : ℤ
  /-- The pricing table in shared memory. -/
  prices : PriceArea

/-- A call that the server makes. -/
inductive Call where
  /-- `accept` returned the descriptor. -/
  | accept (fd : ℕ)
  /-- `recv` on the descriptor returned these bytes. -/
  | recv (fd : ℕ) (chunk : Bytes)
  /-- `MessageParser::parse` is called with a line received on the descriptor. -/
  | parse (fd : ℕ) (line : Bytes)
  /-- `storeRecord`. -/
  | storeRecord (rec : ParkingRecord)
  /-- `sendReply`. -/
  | sendReply (fd : ℕ) (reply : Bytes)
  /-- `close`. -/
  | close (fd : ℕ)
deriving DecidableEq

/-- The records among the calls. -/
def storedRecords (calls : List Call) : List ParkingRecord :=
  calls.filterMap fun
    | .storeRecord rec => some rec
    | _ => none

/-- The replies among the calls, with their descriptors. -/
def sentReplies (calls : List Call) : List (ℕ × Bytes) :=
  calls.filterMap fun
    | .sendReply fd reply => some (fd, reply)
    | _ => none

@[simp] lemma storedRecords_nil : storedRecords [] = [] := rfl

@[simp] lemma storedRecords_cons (call : Call) (l : List Call) :
    storedRecords (call :: l) = match call with
      | .storeRecord rec => rec :: storedRecords l
      | _ => storedRecords l := by
  cases call <;> rfl

@[simp] lemma storedRecords_append (l l' : List Call) :
    storedRecords (l ++ l') = storedRecords l ++ storedRecords l' := by
  simp [storedRecords]

@[simp] lemma sentReplies_append (l l' : List Call) :
    sentReplies (l ++ l') = sentReplies l ++ sentReplies l' := by
  simp [sentReplies]

/-- The reply to a start message. -/
def okStarted : Bytes := ascii "OK:started\n"

/-- The reply to an end message without a session. -/
def errNoSession : Bytes := ascii "ERR:no_session\n"

/-- The reply to a line that is not a message. -/
def errBadMsg : Bytes := ascii "ERR:bad_msg\n"

/-- The reply `"OK:fee=%.2f:elapsed=%.1fmin\n"`, printed into `char reply[128]`. -/
def okFee (fee elapsedMin : ℚ) : Bytes :=
  (snprintf 128 (ascii "OK:fee=" ++ printFixed 2 fee ++ ascii ":elapsed=" ++
    printFixed 1 elapsedMin ++ ascii "min\n")).1

/-- `TcpServer::processMessage`. -/
def processMessage (env : CallEnv) (fd : ℕ) (msg : WireMsg) (sessions : SessionManager) :
    SessionManager × List Call :=
  let customerId := msg.customerId.str
  let city := msg.city.str
  match msg.type with
  | .msgStart =>
    (sessions.start ⟨customerId, msg.lat, msg.lon, city, env.now⟩, [.sendReply fd okStarted])
  | .msgEnd =>
    match sessions.endSession customerId with
    | (none, sessions) => (sessions, [.sendReply fd errNoSession])
    | (some session, sessions) =>
      let elapsedMin := session.elapsedMinutes env.now
      let price := lookup env.prices session.city
      -- an unknown city is not charged
      let pricePerMin := if price < 0 then 0 else price
      let fee := elapsedMin * pricePerMin
      let rec' : ParkingRecord := {
        customerId := strncpy customerIdLen customerId
        startLat := session.startLat
        startLon := session.startLon
        endLat := msg.lat
        endLon := msg.lon
        startTime := session.startTime
        endTime := env.nowEnd
        totalFee := fee
        city := strncpy cityNameLen session.city
        complete := true }
      (sessions, [.storeRecord rec', .sendReply fd (okFee fee elapsedMin)])

/-! ## Receiving -/

/-- The state of the server besides the descriptors that `run` polls. -/
structure TcpServer where
  sessions : SessionManager
  /-- The partial receive buffers of the clients. -/
  recvBufs : AList fun _ : ℕ => Bytes
  /-- New descriptors, queued for the registration with `poll`. -/
  pendingFds : List ℕ

section Receive

variable (stod : Bytes → Option ℚ)

/-- What `handleClient` does with one line that is not empty: it is parsed, and processed if it is
a message. -/
def handleLine (env : CallEnv) (fd : ℕ) (line : Bytes) (sessions : SessionManager) :
    SessionManager × List Call :=
  match parse stod line with
  | some msg =>
    let (sessions, calls) := processMessage env fd msg sessions
    (sessions, .parse fd line :: calls)
  | none => (sessions, [.parse fd line, .sendReply fd errBadMsg])

/-- The loop of `handleClient`: as long as there is a newline in the buffer, the line before it is
erased from the buffer and handled.  Each turn takes at least one byte, so the length of the
buffer bounds the number of turns.  `envs` holds the environment of each line that is handled. -/
def drainLines (fd : ℕ) : ℕ → (ℕ → CallEnv) → Bytes → SessionManager →
    Bytes × SessionManager × List Call
  | 0, _, rbuf, sessions => (rbuf, sessions, [])
  | fuel + 1, envs, rbuf, sessions =>
    match cutAt lf rbuf with
    | none => (rbuf, sessions, [])
    | some (line, rbuf) =>
      let line := stripCr line
      if line = [] then drainLines fd fuel envs rbuf sessions
      else
        let (sessions, calls) := handleLine stod (envs 0) fd line sessions
        let (rbuf, sessions, calls') :=
          drainLines fd fuel (fun k => envs (k + 1)) rbuf sessions
        (rbuf, sessions, calls ++ calls')

/-- `TcpServer::disconnectClient`. -/
def disconnectClient (fd : ℕ) (s : TcpServer) : TcpServer × List Call :=
  ({ s with recvBufs := s.recvBufs.erase fd }, [.close fd])

/-- `TcpServer::handleClient`; `chunk` is what `recv` put into the buffer, empty when `recv`
returned no positive number.  The bytes are appended as a C string. -/
def handleClient (envs : ℕ → CallEnv) (fd : ℕ) (chunk : Bytes) (s : TcpServer) :
    TcpServer × List Call :=
  if chunk = [] then
    let (s, calls) := disconnectClient fd s
    (s, .recv fd chunk :: calls)
  else
    let rbuf := (s.recvBufs.lookup fd).getD [] ++ cstr chunk
    let (rbuf, sessions, calls) := drainLines stod fd rbuf.length envs rbuf s.sessions
    ({ s with sessions := sessions, recvBufs := s.recvBufs.insert fd rbuf },
      .recv fd chunk :: calls)

/-- `TcpServer::acceptClient` when `accept` returned the descriptor `cfd`. -/
def acceptClient (cfd : ℕ) (s : TcpServer) : TcpServer × List Call :=
  if maxClients ≤ s.recvBufs.keys.length then (s, [.accept cfd, .close cfd])
  else ({ s with recvBufs := s.recvBufs.insert cfd [], pendingFds := s.pendingFds ++ [cfd] },
    [.accept cfd])

/-! ## The event loop -/

/-- What one pass of the event loop gets from the outside. -/
structure PassInput where
  /-- Whether the listening descriptor is ready, and then the descriptor that `accept` returns, if
  it succeeds. -/
  accept : Option (Option ℕ)
  /-- For each client descriptor that is ready, what `recv` will return. -/
  recv : ℕ → Option Bytes
  /-- The environments of the lines handled for a client. -/
  envs : ℕ → ℕ → CallEnv

/-- The state of `run`: the server and the client descriptors `fds[1..]`. -/
structure RunState where
  server : TcpServer
  fds : List ℕ

/-- The server when `run` starts. -/
def RunState.init : RunState := ⟨⟨SessionManager.empty, ∅, []⟩, []⟩

/-- The loop of `run` over the client descriptors, from the last one to the first.  An entry that
`handleClient` disconnected is erased. -/
def clientLoop (p : PassInput) : List ℕ → TcpServer → List ℕ × TcpServer × List Call
  | [], s => ([], s, [])
  | fd :: fds, s =>
    let (fds, s, calls) := clientLoop p fds s
    match p.recv fd with
    | none => (fd :: fds, s, calls)
    | some chunk =>
      let (s, calls') := handleClient stod (p.envs fd) fd chunk s
      (if fd ∈ s.recvBufs then fd :: fds else fds, s, calls ++ calls')

/-- The check of the listening descriptor in `run`. -/
def checkListen (p : PassInput) (s : TcpServer) : TcpServer × List Call :=
  match p.accept with
  | some (some cfd) => acceptClient cfd s
  | _ => (s, [])

/-- One pass of `TcpServer::run`: first the listening descriptor, then the clients; new clients
are registered at the end. -/
def runPass (p : PassInput) (r : RunState) : RunState × List Call :=
  let (s, calls) := checkListen p r.server
  let (fds, s, calls') := clientLoop stod p r.fds s
  (⟨{ s with pendingFds := [] }, fds ++ s.pendingFds.reverse⟩, calls ++ calls')

end Receive

end ParkingSystem
