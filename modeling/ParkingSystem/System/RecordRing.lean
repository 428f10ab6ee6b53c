import ParkingSystem.Foundation.Ring
import ParkingSystem.Foundation.Trace
import ParkingSystem.Db.Database
import ParkingSystem.Server.TcpServer

/-!
# The ring of records between server and database

The server puts completed records into the ring buffer of the shared segment, and the database
process takes them from there into the table `customer_data`.  `TcpServer::storeRecord` and
`ShmPoller::poll` are split into their accesses to the segment, and the accesses of the two
processes interleave freely: no use is made of the lock.

The invariant ties the slots to the absolute numbers of the records: every record that the poller
has not dealt with yet is still in its slot.  It breaks only when a slot is written while the poller
is `SHM_MAX_RECORDS` records behind.
-/

namespace ParkingSystem

open Foundation

/-! ## The shared ring -/

/-- The ring buffer of the shared segment: `record_count` and `records`. -/
structure RecordArea where
  recordCount : ℕ
  records : List ParkingRecord
  /-- The array has its declared size. -/
  length_records : records.length = shmMaxRecords

namespace RecordArea

/-- The slot of the record with an absolute number. -/
def slot (area : RecordArea) (n : ℕ) : ParkingRecord :=
  area.records.get ⟨n % shmMaxRecords, by
    rw [area.length_records]
    exact Nat.mod_lt _ (by norm_num)⟩

/-- `records[idx] = rec`. -/
def write (area : RecordArea) (idx : ℕ) (rec : ParkingRecord) : RecordArea where
  recordCount := area.recordCount
  records := area.records.set idx rec
  length_records := by rw [List.length_set, area.length_records]

/-- `record_count++`. -/
def increment (area : RecordArea) : RecordArea := { area with recordCount := area.recordCount + 1 }

/-- The ring of a newly created segment, which the kernel fills with zeros. -/
def zero : RecordArea := ⟨0, List.replicate shmMaxRecords .zero, List.length_replicate ..⟩

/-- The row with an index modulo the size of the table is the slot. -/
lemma getElem?_records (area : RecordArea) (n : ℕ) :
    area.records[n % shmMaxRecords]? = some (area.slot n) :=
  List.getElem?_eq_getElem _

/-- A slot that is written holds the record. -/
lemma slot_write (area : RecordArea) (n : ℕ) (rec : ParkingRecord) :
    (area.write (n % shmMaxRecords) rec).slot n = rec := by
  simp [slot, write]

end RecordArea

/-- Where the server is in `storeRecord`. -/
inductive StorePc where
  /-- Outside. -/
  | idle
  /-- The index is computed. -/
  | entered (rec : ParkingRecord) (idx : ℕ)
  /-- The slot is written. -/
  | written (rec : ParkingRecord)

/-- Where the database process is in `poll`. -/
inductive PollPc where
  /-- Outside. -/
  | idle
  /-- At the head of the loop, with the snapshot of `record_count`. -/
  | loop (current : ℕ)
  /-- The slot is copied. -/
  | copied (current : ℕ) (rec : ParkingRecord)
  /-- The copy is inserted or passed over. -/
  | handled (current : ℕ)

/-- The shared ring, the two processes and the database.  The last three fields belong to no
process: they record what has happened. -/
structure RingSys where
  shm : RecordArea
  store : StorePc
  /-- `lastSeen_`. -/
  lastSeen : ℕ
  poll : PollPc
  db : Database
  /-- The records whose `storeRecord` is complete, oldest first. -/
  stored : List ParkingRecord
  /-- The value of `lastSeen_` at each call of `insertRecord`. -/
  inserted : List ℕ
  /-- The snapshots of the polls that have returned. -/
  polled : List ℕ

/-- A step of the server or of the database process. -/
inductive RingEvent where
  /-- `storeRecord` is called and computes the index of its slot. -/
  | storeRecord (rec : ParkingRecord)
  /-- `records[idx] = rec`. -/
  | writeSlot
  /-- `record_count++`, and the return from `storeRecord`. -/
  | increment
  /-- `poll` is called and reads `record_count`. -/
  | snapshot
  /-- The body of the loop is entered, and copies the slot. -/
  | readSlot
  /-- `insertRecord`, if the record is complete. -/
  | insert
  /-- `++lastSeen_`. -/
  | advance
  /-- The loop ends and `poll` returns. -/
  | pollReturn
deriving DecidableEq

/-- The effect of a step, if the process can take it.  A count beyond the range of `int` has no
successor. -/
def ringStep (s : RingSys) : RingEvent → Option RingSys
  | .storeRecord rec => match s.store with
    | .idle => some { s with store := .entered rec (s.shm.recordCount % shmMaxRecords) }
    | _ => none
  | .writeSlot => match s.store with
    | .entered rec idx => some { s with shm := s.shm.write idx rec, store := .written rec }
    | _ => none
  | .increment => match s.store with
    | .written rec =>
      if s.shm.recordCount + 1 < 2 ^ 31 then
        some { s with shm := s.shm.increment, store := .idle, stored := s.stored ++ [rec] }
      else none
    | _ => none
  | .snapshot => match s.poll with
    | .idle => some { s with poll := .loop s.shm.recordCount }
    | _ => none
  | .readSlot => match s.poll with
    | .loop current =>
      if s.lastSeen < current then
        some { s with poll := .copied current (s.shm.slot s.lastSeen) }
      else none
    | _ => none
  | .insert => match s.poll with
    | .copied current rec =>
      if rec.complete then
        some { s with
          poll := .handled current
          db := s.db.insertRecord rec
          inserted := s.inserted ++ [s.lastSeen] }
      else some { s with poll := .handled current }
    | _ => none
  | .advance => match s.poll with
    | .handled current => some { s with poll := .loop current, lastSeen := s.lastSeen + 1 }
    | _ => none
  | .pollReturn => match s.poll with
    | .loop current =>
      if s.lastSeen < current then none
      else some { s with poll := .idle, polled := s.polled ++ [current] }
    | _ => none

section Cases

variable {s s' : RingSys} {rec : ParkingRecord}

/-- `storeRecord` may be called when it is not running, and takes the index of its slot. -/
lemma ringStep_storeRecord : ringStep s (.storeRecord rec) = some s' ↔
    s.store = .idle ∧
      s' = { s with store := .entered rec (s.shm.recordCount % shmMaxRecords) } := by
  cases h : s.store <;> simp [ringStep, h, eq_comm]

/-- The slot is written. -/
lemma ringStep_writeSlot : ringStep s .writeSlot = some s' ↔
    ∃ rec idx, s.store = .entered rec idx ∧
      s' = { s with shm := s.shm.write idx rec, store := .written rec } := by
  cases h : s.store <;> simp [ringStep, h, eq_comm]

/-- The counter is incremented when the slot has been written. -/
lemma ringStep_increment : ringStep s .increment = some s' ↔
    ∃ rec, s.store = .written rec ∧ s.shm.recordCount + 1 < 2 ^ 31 ∧
      s' = { s with shm := s.shm.increment, store := .idle, stored := s.stored ++ [rec] } := by
  cases h : s.store <;> simp [ringStep, h, eq_comm]

/-- A poll begins with a copy of the counter. -/
lemma ringStep_snapshot : ringStep s .snapshot = some s' ↔
    s.poll = .idle ∧ s' = { s with poll := .loop s.shm.recordCount } := by
  cases h : s.poll <;> simp [ringStep, h, eq_comm]

/-- A slot is copied while the poller is behind. -/
lemma ringStep_readSlot : ringStep s .readSlot = some s' ↔
    ∃ current, s.poll = .loop current ∧ s.lastSeen < current ∧
      s' = { s with poll := .copied current (s.shm.slot s.lastSeen) } := by
  cases h : s.poll <;> simp [ringStep, h, eq_comm]

/-- A complete record is inserted, another one is skipped. -/
lemma ringStep_insert : ringStep s .insert = some s' ↔
    ∃ current rec, s.poll = .copied current rec ∧
      (rec.complete = true ∧ s' = { s with
          poll := .handled current
          db := s.db.insertRecord rec
          inserted := s.inserted ++ [s.lastSeen] } ∨
        rec.complete = false ∧ s' = { s with poll := .handled current }) := by
  cases h : s.poll with
  | copied current rec =>
    cases hrec : rec.complete <;> simpa [ringStep, h, hrec] using eq_comm
  | _ => simp [ringStep, h]

/-- The watermark moves on by one. -/
lemma ringStep_advance : ringStep s .advance = some s' ↔
    ∃ current, s.poll = .handled current ∧
      s' = { s with poll := .loop current, lastSeen := s.lastSeen + 1 } := by
  cases h : s.poll <;> simp [ringStep, h, eq_comm]

/-- A poll returns when the watermark has reached the copy. -/
lemma ringStep_pollReturn : ringStep s .pollReturn = some s' ↔
    ∃ current, s.poll = .loop current ∧ current ≤ s.lastSeen ∧
      s' = { s with poll := .idle, polled := s.polled ++ [current] } := by
  cases h : s.poll <;> simp [ringStep, h, eq_comm]

end Cases

/-- Both processes have just started. -/
def RingSys.init (area : RecordArea) (db : Database) : RingSys where
  shm := area
  store := .idle
  lastSeen := 0
  poll := .idle
  db := db
  stored := []
  inserted := []
  polled := []

/-- The number of records that the poller has dealt with since it started. -/
def RingSys.progress (s : RingSys) : ℕ :=
  match s.poll with
  | .handled _ => s.lastSeen + 1
  | _ => s.lastSeen

/-! ## The invariant -/

/-- What holds while the server is in `storeRecord`. -/
def StorePc.Ok (area : RecordArea) : StorePc → Prop
  | idle => True
  | entered rec idx => idx = area.recordCount % shmMaxRecords ∧ rec.complete = true
  | written rec => area.slot area.recordCount = rec ∧ rec.complete = true

/-- What holds while the database process is in `poll`. -/
def PollPc.Ok (lastSeen : ℕ) (stored : List ParkingRecord) : PollPc → Prop
  | idle => True
  | loop current => current ≤ stored.length
  | copied current rec =>
    lastSeen < current ∧ current ≤ stored.length ∧ stored[lastSeen]? = some rec
  | handled current => lastSeen < current ∧ current ≤ stored.length

/-- More records do not matter to the poller. -/
lemma PollPc.Ok.concat {lastSeen : ℕ} {stored : List ParkingRecord} {pc : PollPc}
    (h : pc.Ok lastSeen stored) (rec : ParkingRecord) : pc.Ok lastSeen (stored ++ [rec]) := by
  have hlen : stored.length ≤ (stored ++ [rec]).length := by simp
  cases pc with
  | idle => trivial
  | loop current => exact le_trans h hlen
  | copied current rec' =>
    obtain ⟨hlt, hle, hrec⟩ := h
    exact ⟨hlt, hle.trans hlen, by rw [List.getElem?_append_left (by omega), hrec]⟩
  | handled current => exact ⟨h.1, h.2.trans hlen⟩

/-- **The invariant of the ring**, when the table held the rows `base` at the start: the slots hold
the records from number `lo` on, and every row is the record of the number it was inserted for. -/
structure RingInv (base : List ParkingRecord) (lo : ℕ) (s : RingSys) : Prop where
  recordCount_eq : s.shm.recordCount = s.stored.length
  complete : ∀ rec ∈ s.stored, rec.complete = true
  lo_le : lo ≤ s.lastSeen
  lastSeen_le : s.lastSeen ≤ s.stored.length
  window : Window shmMaxRecords s.shm.records s.stored lo s.shm.recordCount
  store : s.store.Ok s.shm
  poll : s.poll.Ok s.lastSeen s.stored
  inserted_lt : ∀ k ∈ s.inserted, k < s.stored.length
  rows : s.db.customerData.map some = base.map some ++ s.inserted.map fun k => s.stored[k]?

/-- What a step needs to keep the invariant: the caller of `storeRecord` hands over a complete
record, and fewer than `SHM_MAX_RECORDS` slots are in use when one is written. -/
def RingOk (lo : ℕ) (s : RingSys) : RingEvent → Prop
  | .storeRecord rec => rec.complete = true
  | .writeSlot => s.shm.recordCount - lo < shmMaxRecords
  | _ => True

instance (lo : ℕ) (s : RingSys) : (e : RingEvent) → Decidable (RingOk lo s e)
  | .storeRecord rec => inferInstanceAs (Decidable (rec.complete = true))
  | .writeSlot => inferInstanceAs (Decidable (s.shm.recordCount - lo < shmMaxRecords))
  | .increment | .snapshot | .readSlot | .insert | .advance | .pollReturn => .isTrue trivial

namespace RingInv

variable {base : List ParkingRecord} {lo : ℕ} {s s' : RingSys}

/-- The invariant holds at the start. -/
lemma init {area : RecordArea} (h : area.recordCount = 0) (db : Database) :
    RingInv db.customerData 0 (.init area db) where
  recordCount_eq := h
  complete := by simp [RingSys.init]
  lo_le := le_rfl
  lastSeen_le := Nat.zero_le _
  window := .empty h.le
  store := trivial
  poll := trivial
  inserted_lt := by simp [RingSys.init]
  rows := by simp [RingSys.init]

/-- Records that the poller has dealt with need no slot. -/
lemma raise (h : RingInv base lo s) : RingInv base s.lastSeen s where
  recordCount_eq := h.recordCount_eq
  complete := h.complete
  lo_le := le_rfl
  lastSeen_le := h.lastSeen_le
  window := h.window.mono h.lo_le
  store := h.store
  poll := h.poll
  inserted_lt := h.inserted_lt
  rows := h.rows

/-- The record in the slot that the poller copies is the one of the number it looks for. -/
lemma slot_eq (h : RingInv base lo s) (hlt : s.lastSeen < s.stored.length) :
    s.stored[s.lastSeen]? = some (s.shm.slot s.lastSeen) := by
  rw [← h.window s.lastSeen h.lo_le (h.recordCount_eq ▸ hlt), RecordArea.getElem?_records]

/-- **Every step keeps the invariant.** -/
lemma step (h : RingInv base lo s) {e : RingEvent} (hok : RingOk lo s e)
    (hs : ringStep s e = some s') : RingInv base lo s' := by
  cases e with
  | storeRecord rec =>
    obtain ⟨-, rfl⟩ := ringStep_storeRecord.mp hs
    exact { h with store := ⟨rfl, hok⟩ }
  | writeSlot =>
    obtain ⟨rec, idx, hstore, rfl⟩ := ringStep_writeSlot.mp hs
    obtain ⟨rfl, hcomplete⟩ : StorePc.Ok s.shm (.entered rec idx) := hstore ▸ h.store
    exact { h with
      window := h.window.set hok
      store := ⟨s.shm.slot_write s.shm.recordCount rec, hcomplete⟩ }
  | increment =>
    obtain ⟨rec, hstore, -, rfl⟩ := ringStep_increment.mp hs
    obtain ⟨hslot, hcomplete⟩ : StorePc.Ok s.shm (.written rec) := hstore ▸ h.store
    have hlen : (s.stored ++ [rec]).length = s.stored.length + 1 := by simp
    exact {
      recordCount_eq := by rw [hlen, ← h.recordCount_eq]; rfl
      complete := by simpa [or_imp, forall_and] using ⟨h.complete, hcomplete⟩
      lo_le := h.lo_le
      lastSeen_le := by rw [hlen]; exact h.lastSeen_le.trans (Nat.le_succ _)
      window := h.window.concat h.recordCount_eq.symm (hslot ▸ s.shm.getElem?_records _)
      store := trivial
      poll := h.poll.concat rec
      inserted_lt := fun k hk => by rw [hlen]; exact (h.inserted_lt k hk).trans (Nat.lt_succ_self _)
      rows := by
        rw [h.rows]
        congr 1
        exact List.map_congr_left fun k hk =>
          (List.getElem?_append_left (h.inserted_lt k hk)).symm }
  | snapshot =>
    obtain ⟨-, rfl⟩ := ringStep_snapshot.mp hs
    exact { h with poll := h.recordCount_eq.le }
  | readSlot =>
    obtain ⟨current, hpoll, hlt, rfl⟩ := ringStep_readSlot.mp hs
    have hle : PollPc.Ok s.lastSeen s.stored (.loop current) := hpoll ▸ h.poll
    exact { h with poll := ⟨hlt, hle, h.slot_eq (hlt.trans_le hle)⟩ }
  | insert =>
    obtain ⟨current, rec, hpoll, hcases⟩ := ringStep_insert.mp hs
    obtain ⟨hlt, hle, hrec⟩ : PollPc.Ok s.lastSeen s.stored (.copied current rec) := hpoll ▸ h.poll
    rcases hcases with ⟨-, rfl⟩ | ⟨-, rfl⟩
    · exact { h with
        poll := ⟨hlt, hle⟩
        inserted_lt := List.forall_mem_append.mpr
          ⟨h.inserted_lt, List.forall_mem_singleton.mpr (hlt.trans_le hle)⟩
        rows := by
          simp only [Database.insertRecord, List.map_append, List.map_cons, List.map_nil, hrec]
          rw [h.rows, List.append_assoc] }
    · exact { h with poll := ⟨hlt, hle⟩ }
  | advance =>
    obtain ⟨current, hpoll, rfl⟩ := ringStep_advance.mp hs
    obtain ⟨hlt, hle⟩ : PollPc.Ok s.lastSeen s.stored (.handled current) := hpoll ▸ h.poll
    exact { h with
      lo_le := h.lo_le.trans (Nat.le_succ _)
      lastSeen_le := hlt.trans_le hle
      poll := hle }
  | pollReturn =>
    obtain ⟨current, hpoll, -, rfl⟩ := ringStep_pollReturn.mp hs
    exact { h with poll := trivial }

/-- The poller has not dealt with more records than there are. -/
lemma progress_le (h : RingInv base lo s) : s.progress ≤ s.stored.length := by
  have hpoll := h.poll
  cases hpc : s.poll with
  | handled current =>
    rw [hpc] at hpoll
    simpa [RingSys.progress, hpc] using hpoll.1.trans_le hpoll.2
  | _ => simpa [RingSys.progress, hpc] using h.lastSeen_le

/-- The poller inserts the next record each time. -/
lemma inserted_of_insert (h : RingInv base lo s) (hs : ringStep s .insert = some s') :
    s'.inserted = s.inserted ++ [s.progress] ∧ s'.progress = s.progress + 1 := by
  obtain ⟨current, rec, hpoll, hcases⟩ := ringStep_insert.mp hs
  obtain ⟨-, -, hrec⟩ : PollPc.Ok s.lastSeen s.stored (.copied current rec) := hpoll ▸ h.poll
  rcases hcases with ⟨-, rfl⟩ | ⟨hfalse, -⟩
  · simp [RingSys.progress, hpoll]
  · rw [h.complete rec (List.mem_of_getElem? hrec)] at hfalse
    exact absurd hfalse (by simp)

/-- The rows of the table are those at the start and the inserted records. -/
lemma customerData_eq (h : RingInv base lo s) (hrange : s.inserted = List.range s.progress) :
    s.db.customerData = base ++ s.stored.take s.progress := by
  have htake : (List.range s.progress).map (fun k => s.stored[k]?) =
      (s.stored.take s.progress).map some := by
    apply List.ext_getElem?
    intro k
    rcases lt_or_ge k s.progress with hk | hk
    · have hlt : k < s.stored.length := hk.trans_le h.progress_le
      simp [hk, hlt]
    · simp [hk]
  have hrows := h.rows
  rw [hrange, htake, ← List.map_append] at hrows
  exact (Option.some_injective _).list_map hrows

end RingInv

section Progress

variable {s s' : RingSys} {e : RingEvent}

/-- **What a step leaves alone**: records are stored by increments only, rows inserted by inserts
only, and polls ended by returns only. -/
lemma ringStep_frame (hs : ringStep s e = some s') :
    (e ≠ .increment → s'.stored = s.stored) ∧
      (e ≠ .insert → s'.inserted = s.inserted ∧ s'.progress = s.progress) ∧
      (e ≠ .pollReturn → s'.polled = s.polled) := by
  cases e with
  | storeRecord rec =>
    obtain ⟨-, rfl⟩ := ringStep_storeRecord.mp hs
    exact ⟨fun _ => rfl, fun _ => ⟨rfl, rfl⟩, fun _ => rfl⟩
  | writeSlot =>
    obtain ⟨rec, idx, -, rfl⟩ := ringStep_writeSlot.mp hs
    exact ⟨fun _ => rfl, fun _ => ⟨rfl, rfl⟩, fun _ => rfl⟩
  | increment =>
    obtain ⟨rec, -, -, rfl⟩ := ringStep_increment.mp hs
    exact ⟨fun h => absurd rfl h, fun _ => ⟨rfl, rfl⟩, fun _ => rfl⟩
  | snapshot =>
    obtain ⟨hpoll, rfl⟩ := ringStep_snapshot.mp hs
    exact ⟨fun _ => rfl, fun _ => ⟨rfl, by simp [RingSys.progress, hpoll]⟩, fun _ => rfl⟩
  | readSlot =>
    obtain ⟨current, hpoll, -, rfl⟩ := ringStep_readSlot.mp hs
    exact ⟨fun _ => rfl, fun _ => ⟨rfl, by simp [RingSys.progress, hpoll]⟩, fun _ => rfl⟩
  | insert =>
    obtain ⟨current, rec, -, ⟨-, rfl⟩ | ⟨-, rfl⟩⟩ := ringStep_insert.mp hs <;>
      exact ⟨fun _ => rfl, fun h => absurd rfl h, fun _ => rfl⟩
  | advance =>
    obtain ⟨current, hpoll, rfl⟩ := ringStep_advance.mp hs
    exact ⟨fun _ => rfl, fun _ => ⟨rfl, by simp [RingSys.progress, hpoll]⟩, fun _ => rfl⟩
  | pollReturn =>
    obtain ⟨current, hpoll, -, rfl⟩ := ringStep_pollReturn.mp hs
    exact ⟨fun _ => rfl, fun _ => ⟨rfl, by simp [RingSys.progress, hpoll]⟩, fun h => absurd rfl h⟩

/-- Stored records stay. -/
lemma stored_isPrefix (hs : ringStep s e = some s') : s.stored <+: s'.stored := by
  by_cases he : e = .increment
  · subst he
    obtain ⟨rec, -, -, rfl⟩ := ringStep_increment.mp hs
    exact List.prefix_append _ _
  · rw [(ringStep_frame hs).1 he]

/-- A poll returns when all records of its snapshot are dealt with. -/
lemma polled_of_pollReturn (hs : ringStep s .pollReturn = some s') :
    ∃ n ≤ s'.progress, s'.polled = s.polled ++ [n] := by
  obtain ⟨current, -, hle, rfl⟩ := ringStep_pollReturn.mp hs
  exact ⟨current, hle, rfl⟩

end Progress

/-! ## One poller that keeps up -/

section Run

variable {area : RecordArea} {db : Database} {es : List RingEvent} {s : RingSys}

/-- What holds in a run in which the poller is started once and keeps up. -/
structure PollInv (db : Database) (s : RingSys) : Prop where
  ring : RingInv db.customerData s.lastSeen s
  inserted_eq : s.inserted = List.range s.progress
  polled_le : ∀ n ∈ s.polled, n ≤ s.progress

/-- Every step of the run keeps this. -/
lemma PollInv.step {s' : RingSys} {e : RingEvent} (h : PollInv db s) (hok : RingOk s.lastSeen s e)
    (hs : ringStep s e = some s') : PollInv db s' := by
  have hprogress : s'.inserted = List.range s'.progress ∧ s.progress ≤ s'.progress := by
    by_cases he : e = .insert
    · subst he
      obtain ⟨hins, hprog⟩ := h.ring.inserted_of_insert hs
      rw [hins, hprog, h.inserted_eq, List.range_succ]
      exact ⟨rfl, Nat.le_succ _⟩
    · obtain ⟨hins, hprog⟩ := (ringStep_frame hs).2.1 he
      rw [hins, hprog]
      exact ⟨h.inserted_eq, le_rfl⟩
  refine ⟨(h.ring.step hok hs).raise, hprogress.1, ?_⟩
  intro n hn
  by_cases he : e = .pollReturn
  · subst he
    obtain ⟨m, hm, hpolled⟩ := polled_of_pollReturn hs
    rcases List.mem_append.mp (hpolled ▸ hn) with hn | hn
    · exact (h.polled_le n hn).trans hprogress.2
    · rw [List.mem_singleton.mp hn]
      exact hm
  · exact (h.polled_le n ((ringStep_frame hs).2.2 he ▸ hn)).trans hprogress.2

/-- **The rows are a prefix of the records stored.**  However the two processes interleave, as long
as the poller is less than `SHM_MAX_RECORDS` records behind at each write of a slot, the rows
inserted are the first records stored, in order; once a poll has returned, they include all
records of its snapshot. -/
theorem rows_prefix_of_stored (hcount : area.recordCount = 0)
    (h : Trace ringStep (fun s => RingOk s.lastSeen s) (.init area db) es s) :
    ∃ rows, s.db.customerData = db.customerData ++ rows ∧ rows <+: s.stored ∧
      ∀ n ∈ s.polled, n ≤ s.stored.length ∧ rows.take n = s.stored.take n := by
  have hinv : PollInv db s := by
    refine h.invariant ⟨.init hcount db, rfl, by simp [RingSys.init]⟩ ?_
    intro s e s' hs hok hstep
    exact hs.step hok hstep
  refine ⟨s.stored.take s.progress, hinv.ring.customerData_eq hinv.inserted_eq,
    List.take_prefix _ _, fun n hn => ?_⟩
  have hle := hinv.polled_le n hn
  exact ⟨hle.trans hinv.ring.progress_le, by rw [List.take_take, min_eq_left hle]⟩

/-- A record is stored while a first poll finds nothing, and a second poll inserts it. -/
theorem rows_prefix_of_stored_one :
    ∃ s : RingSys, s.stored.length = 1 ∧ s.polled = [0, 1] ∧
      ∃ rows, s.db.customerData = [] ++ rows ∧ rows <+: s.stored ∧
        ∀ n ∈ s.polled, n ≤ s.stored.length ∧ rows.take n = s.stored.take n := by
  have hrun : (replayEvents ringStep (fun s => RingOk s.lastSeen s)
      (.init .zero ⟨fun _ => none, []⟩)
      [.storeRecord { ParkingRecord.zero with complete := true }, .writeSlot, .snapshot, .increment,
        .pollReturn, .snapshot, .readSlot, .insert, .advance, .pollReturn]).map
      (fun s => (s.stored.length, s.polled)) = some (1, [0, 1]) := by decide +kernel
  obtain ⟨s, hs, hend⟩ := Option.map_eq_some_iff.mp hrun
  obtain ⟨hlen, hpolled⟩ := Prod.mk.inj hend
  exact ⟨s, hlen, hpolled, rows_prefix_of_stored rfl (Trace.of_replayEvents hs)⟩

end Run

end ParkingSystem
