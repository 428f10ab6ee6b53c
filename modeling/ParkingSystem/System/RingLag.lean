import ParkingSystem.System.RecordRing

/-!
# A poller that falls behind

When the server stores more than `SHM_MAX_RECORDS` records before the poller comes to them, slots
of the ring are overwritten, and the poller finds a later record in a slot than the one it looks
for: the last one written there.  It goes on with the next slot all the same, and so inserts later
records before earlier ones and some of them twice.

`LagSys` follows the numbers of the records through the ring.  A slot read at `lastSeen_ = k`, when
the writer is `n` whole laps ahead, takes the record number `k + SHM_MAX_RECORDS * n`
(`LagInv.number_eq`); so the records are taken in order exactly as long as the number of laps does
not fall from one read to the next.
-/

namespace ParkingSystem

open Foundation

/-- The ring and its two processes, with the numbers of the records. -/
structure LagSys where
  ring : RingSys
  /-- The number of the record in each slot. -/
  numbers : List ℕ
  /-- The number of the record that was copied last. -/
  copiedNo : ℕ
  /-- The number of whole laps that the writer was ahead at the last read of a slot. -/
  laps : ℕ
  /-- The numbers of the records inserted. -/
  rows : List ℕ

/-- The records whose slots are written, oldest first; the last one may not be counted yet. -/
def RingSys.written (s : RingSys) : List ParkingRecord :=
  match s.store with
  | .written rec => s.stored ++ [rec]
  | _ => s.stored

/-- The number of whole laps that the writer is ahead of the poller. -/
def RingSys.lapsAhead (s : RingSys) : ℕ := (s.written.length - 1 - s.lastSeen) / shmMaxRecords

/-- A step of the ring, with what it does to the numbers. -/
def lagStep (s : LagSys) (e : RingEvent) : Option LagSys :=
  (ringStep s.ring e).map fun ring => match e with
    | .writeSlot => { s with
        ring := ring
        numbers := s.numbers.set (s.ring.stored.length % shmMaxRecords) s.ring.stored.length }
    | .readSlot => { s with
        ring := ring
        copiedNo := (s.numbers[s.ring.lastSeen % shmMaxRecords]?).getD 0
        laps := s.ring.lapsAhead }
    | .insert => { s with
        ring := ring
        rows := if ring.inserted = s.ring.inserted then s.rows else s.rows ++ [s.copiedNo] }
    | _ => { s with ring := ring }

/-- Both processes have just started. -/
def LagSys.init (area : RecordArea) (db : Database) : LagSys where
  ring := .init area db
  numbers := List.replicate shmMaxRecords 0
  copiedNo := 0
  laps := 0
  rows := []

/-- The server hands over complete records. -/
def HandsComplete (_ : LagSys) : RingEvent → Prop
  | .storeRecord rec => rec.complete = true
  | _ => True

/-- The server hands over complete records, and the writer is at least as many whole laps ahead at a
read of a slot as at the one before. -/
def LapsKept (s : LagSys) : RingEvent → Prop
  | .storeRecord rec => rec.complete = true
  | .readSlot => s.laps ≤ s.ring.lapsAhead
  | _ => True

/-! ## The numbers of the records -/

/-- The slots hold the records written last, and their numbers. -/
structure SlotsHold (shm : RecordArea) (numbers : List ℕ) (written : List ParkingRecord) :
    Prop where
  length_numbers : numbers.length = shmMaxRecords
  records : Window shmMaxRecords shm.records written (written.length - shmMaxRecords) written.length
  numbers : Window shmMaxRecords numbers (List.range written.length)
    (written.length - shmMaxRecords) written.length

/-- The rows behind `base` are the records with the numbers taken. -/
structure RowsTaken (base table : List ParkingRecord) (rows : List ℕ)
    (written : List ParkingRecord) : Prop where
  table_eq : table.map some = base.map some ++ rows.map fun i => written[i]?
  lt_length : ∀ i ∈ rows, i < written.length

section Slots

variable {shm : RecordArea} {numbers rows : List ℕ} {base table written : List ParkingRecord}
  {rec : ParkingRecord} {k : ℕ}

/-- A record is written to the next slot. -/
lemma SlotsHold.write (h : SlotsHold shm numbers written) (rec : ParkingRecord) :
    SlotsHold (shm.write (written.length % shmMaxRecords) rec)
      (numbers.set (written.length % shmMaxRecords) written.length) (written ++ [rec]) where
  length_numbers := by rw [List.length_set, h.length_numbers]
  records := by
    rw [List.length_append, List.length_singleton]
    exact h.records.write_last rfl (by norm_num) shm.length_records
  numbers := by
    rw [List.length_append, List.length_singleton, List.range_succ]
    exact h.numbers.write_last List.length_range (by norm_num) h.length_numbers

/-- **What a reader finds in a slot**: the record that is whole laps further on. -/
lemma SlotsHold.slot_eq (h : SlotsHold shm numbers written) (hk : k < written.length) :
    numbers[k % shmMaxRecords]? = some (latest shmMaxRecords written.length k) ∧
      written[latest shmMaxRecords written.length k]? = some (shm.slot k) := by
  constructor
  · rw [h.numbers.getElem?_slot (by norm_num) hk, List.getElem?_range (latest_lt hk)]
  · rw [← h.records.getElem?_slot (by norm_num) hk, RecordArea.getElem?_records]

/-- More records do not matter to the rows. -/
lemma RowsTaken.concat (h : RowsTaken base table rows written) (rec : ParkingRecord) :
    RowsTaken base table rows (written ++ [rec]) where
  table_eq := by
    rw [h.table_eq]
    congr 1
    apply List.map_congr_left
    intro i hi
    rw [List.getElem?_append_left (h.lt_length i hi)]
  lt_length i hi := by
    rw [List.length_append]
    exact (h.lt_length i hi).trans_le (Nat.le_add_right _ _)

/-- A record is inserted. -/
lemma RowsTaken.insert (h : RowsTaken base table rows written) (hrec : written[k]? = some rec) :
    RowsTaken base (table ++ [rec]) (rows ++ [k]) written where
  table_eq := by
    rw [List.map_append, h.table_eq]
    simp [hrec]
  lt_length i hi := by
    rcases List.mem_append.mp hi with hi | hi
    · exact h.lt_length i hi
    · rw [List.mem_singleton.mp hi]
      exact (List.getElem?_eq_some_iff.mp hrec).1

end Slots

/-- What holds while the server is in `storeRecord`. -/
def StorePc.LagOk (s : LagSys) : StorePc → Prop
  | idle => True
  | entered rec idx => idx = s.ring.stored.length % shmMaxRecords ∧ rec.complete = true
  | written rec => rec.complete = true

/-- What holds while the database process is in `poll`. -/
def PollPc.LagOk (s : LagSys) : PollPc → Prop
  | idle => True
  | loop current => current ≤ s.ring.stored.length
  | copied current rec =>
    s.ring.lastSeen < current ∧ current ≤ s.ring.stored.length ∧ rec.complete = true ∧
      s.ring.written[s.copiedNo]? = some rec ∧
      s.copiedNo = s.ring.lastSeen + shmMaxRecords * s.laps
  | handled current => s.ring.lastSeen < current ∧ current ≤ s.ring.stored.length

/-- The invariant of the numbers, when the table held the rows `base` at the start. -/
structure LagInv (base : List ParkingRecord) (s : LagSys) : Prop where
  recordCount_eq : s.ring.shm.recordCount = s.ring.stored.length
  complete : ∀ rec ∈ s.ring.written, rec.complete = true
  slots : SlotsHold s.ring.shm s.numbers s.ring.written
  rows : RowsTaken base s.ring.db.customerData s.rows s.ring.written
  store : s.ring.store.LagOk s
  poll : s.ring.poll.LagOk s
  /-- The last row is the record found at the last read. -/
  last : (∀ current rec, s.ring.poll ≠ .copied current rec) →
    s.ring.progress = 0 ∧ s.laps = 0 ∨
      s.rows.getLast? = some (s.ring.progress - 1 + shmMaxRecords * s.laps)

/-- The records written are those counted, and at most one more. -/
lemma stored_isPrefix_written (s : RingSys) : s.stored <+: s.written := by
  unfold RingSys.written
  split
  · exact List.prefix_append _ _
  · exact List.prefix_refl _

/-- More records do not matter to the poller. -/
lemma PollPc.LagOk.mono {s s' : LagSys} {pc : PollPc} (h : pc.LagOk s)
    (hseen : s'.ring.lastSeen = s.ring.lastSeen) (hno : s'.copiedNo = s.copiedNo)
    (hlaps : s'.laps = s.laps) (hstored : s.ring.stored.length ≤ s'.ring.stored.length)
    (hwritten : s.ring.written <+: s'.ring.written) : pc.LagOk s' := by
  cases pc with
  | idle => trivial
  | loop current => exact le_trans h hstored
  | copied current rec =>
    obtain ⟨hlt, hle, hcomplete, hrec, hnumber⟩ := h
    refine ⟨hseen ▸ hlt, hle.trans hstored, hcomplete, ?_, by rw [hno, hseen, hlaps, hnumber]⟩
    obtain ⟨t, ht⟩ := hwritten
    rw [hno, ← ht, List.getElem?_append_left (List.getElem?_eq_some_iff.mp hrec).1, hrec]
  | handled current => exact ⟨hseen ▸ h.1, h.2.trans hstored⟩

namespace LagInv

variable {base : List ParkingRecord} {s s' : LagSys} {e : RingEvent}

lemma init {area : RecordArea} (h : area.recordCount = 0) (db : Database) :
    LagInv db.customerData (.init area db) where
  recordCount_eq := h
  complete := by simp [LagSys.init, RingSys.init, RingSys.written]
  slots := ⟨by simp only [LagSys.init, List.length_replicate], .empty (Nat.zero_le _),
    .empty (Nat.zero_le _)⟩
  rows := ⟨by simp [LagSys.init, RingSys.init], by simp [LagSys.init]⟩
  store := trivial
  poll := trivial
  last := fun _ => .inl ⟨rfl, rfl⟩

/-- **Every step keeps the invariant.** -/
lemma step (h : LagInv base s) (hok : HandsComplete s e) (hs : lagStep s e = some s') :
    LagInv base s' := by
  obtain ⟨ring, hring, rfl⟩ := Option.map_eq_some_iff.mp hs
  cases e with
  | storeRecord rec =>
    obtain ⟨hstore, rfl⟩ := ringStep_storeRecord.mp hring
    have hw : s.ring.written = s.ring.stored := by simp only [RingSys.written, hstore]
    have hcount :
        s.ring.shm.recordCount % shmMaxRecords = s.ring.stored.length % shmMaxRecords := by
      rw [h.recordCount_eq]
    exact {
      recordCount_eq := h.recordCount_eq
      complete := hw ▸ h.complete
      slots := hw ▸ h.slots
      rows := hw ▸ h.rows
      store := ⟨hcount, hok⟩
      poll := h.poll.mono rfl rfl rfl le_rfl (hw ▸ List.prefix_refl _)
      last := h.last }
  | writeSlot =>
    obtain ⟨rec, idx, hstore, rfl⟩ := ringStep_writeSlot.mp hring
    obtain ⟨rfl, hcomplete⟩ : StorePc.LagOk s (.entered rec idx) := hstore ▸ h.store
    have hw : s.ring.written = s.ring.stored := by simp only [RingSys.written, hstore]
    have hold := h.complete
    have hslots := h.slots
    have hrows := h.rows
    rw [hw] at hold hslots hrows
    exact {
      recordCount_eq := h.recordCount_eq
      complete := List.forall_mem_append.mpr ⟨hold, List.forall_mem_singleton.mpr hcomplete⟩
      slots := hslots.write rec
      rows := hrows.concat rec
      store := hcomplete
      poll := h.poll.mono rfl rfl rfl le_rfl (hw ▸ List.prefix_append _ _)
      last := h.last }
  | increment =>
    obtain ⟨rec, hstore, -, rfl⟩ := ringStep_increment.mp hring
    have hw : s.ring.written = s.ring.stored ++ [rec] := by simp only [RingSys.written, hstore]
    exact {
      recordCount_eq := by
        rw [List.length_append, List.length_singleton, ← h.recordCount_eq]
        rfl
      complete := hw ▸ h.complete
      slots := by
        have hslots := h.slots
        rw [hw] at hslots
        exact ⟨hslots.length_numbers, hslots.records, hslots.numbers⟩
      rows := hw ▸ h.rows
      store := trivial
      poll := h.poll.mono rfl rfl rfl (by simp) (hw ▸ List.prefix_refl _)
      last := h.last }
  | snapshot =>
    obtain ⟨hpoll, rfl⟩ := ringStep_snapshot.mp hring
    have hlast := h.last (by simp [hpoll])
    exact { h with
      poll := h.recordCount_eq.le
      last := fun _ => by simpa [RingSys.progress, hpoll] using hlast }
  | readSlot =>
    obtain ⟨current, hpoll, hlt, rfl⟩ := ringStep_readSlot.mp hring
    have hle : current ≤ s.ring.stored.length := by
      have := h.poll
      rwa [hpoll] at this
    obtain ⟨hnumber, hrec⟩ := h.slots.slot_eq
      ((hlt.trans_le hle).trans_le (stored_isPrefix_written s.ring).length_le)
    have hno : (s.numbers[s.ring.lastSeen % shmMaxRecords]?).getD 0 =
        s.ring.lastSeen + shmMaxRecords * s.ring.lapsAhead := by
      rw [hnumber]
      rfl
    exact { h with
      store := h.store
      poll := ⟨hlt, hle, h.complete _ (List.mem_of_getElem? hrec), by rw [hno]; exact hrec, hno⟩
      last := fun hne => absurd rfl (hne current _) }
  | insert =>
    obtain ⟨current, rec, hpoll, hcase⟩ := ringStep_insert.mp hring
    obtain ⟨hlt, hle, hcomplete, hrec, hno⟩ : PollPc.LagOk s (.copied current rec) := hpoll ▸ h.poll
    rcases hcase with ⟨-, rfl⟩ | ⟨hincomplete, -⟩
    · have hnew : s.ring.inserted ++ [s.ring.lastSeen] ≠ s.ring.inserted := by simp
      simp only [hnew, if_false]
      exact {
        recordCount_eq := h.recordCount_eq
        complete := h.complete
        slots := h.slots
        rows := h.rows.insert hrec
        store := h.store
        poll := ⟨hlt, hle⟩
        last := fun _ => .inr (by simp [RingSys.progress, hno]) }
    · rw [hcomplete] at hincomplete
      cases hincomplete
  | advance =>
    obtain ⟨current, hpoll, rfl⟩ := ringStep_advance.mp hring
    obtain ⟨hlt, hle⟩ : PollPc.LagOk s (.handled current) := hpoll ▸ h.poll
    have hlast := h.last (by simp [hpoll])
    exact { h with
      store := h.store
      poll := hle
      last := fun _ => by simpa [RingSys.progress, hpoll] using hlast }
  | pollReturn =>
    obtain ⟨current, hpoll, -, rfl⟩ := ringStep_pollReturn.mp hring
    have hlast := h.last (by simp [hpoll])
    exact { h with
      store := h.store
      poll := trivial
      last := fun _ => by simpa [RingSys.progress, hpoll] using hlast }

end LagInv

/-! ## The order of the rows -/

/-- The rows inserted are records stored, in the order in which they were stored and each at most
once. -/
def InOrder (base : List ParkingRecord) (s : LagSys) : Prop :=
  s.rows.Pairwise (· < ·) ∧ ∃ rows, s.ring.db.customerData = base ++ rows ∧
    rows.map some = (s.rows.map fun i => s.ring.written[i]?) ∧ rows.Sublist s.ring.written

section Order

variable {base table written : List ParkingRecord} {rows : List ℕ} {s s' : LagSys} {e : RingEvent}

/-- Rows with increasing numbers are a part of the records in their order. -/
lemma RowsTaken.sublist (h : RowsTaken base table rows written) (hlt : rows.Pairwise (· < ·)) :
    ∃ l, table = base ++ l ∧ l.map some = (rows.map fun i => written[i]?) ∧ l.Sublist written := by
  obtain ⟨is, rfl⟩ : ∃ is : List (Fin written.length), rows = is.map Fin.val :=
    ⟨rows.pmap Fin.mk h.lt_length, by simp [List.map_pmap]⟩
  rw [List.pairwise_map] at hlt
  have hmap :
      (is.map fun i => written[i]).map some = (is.map Fin.val).map fun i => written[i]? := by
    simp
  refine ⟨is.map fun i => written[i], ?_, hmap, List.map_getElem_sublist hlt⟩
  have htable := h.table_eq
  rw [← hmap, ← List.map_append] at htable
  exact List.map_injective_iff.mpr (Option.some_injective _) htable

/-- Behind the rows there is room for the record of the next read. -/
structure LagOrder (base : List ParkingRecord) (s : LagSys) : Prop where
  inv : LagInv base s
  increasing : s.rows.Pairwise (· < ·)
  rows_lt : ∀ i ∈ s.rows, i < s.ring.progress + shmMaxRecords * s.laps

/-- What a step leaves alone: rows come from inserts only, and the laps change at reads only. -/
lemma lagStep_frame (hs : lagStep s e = some s') :
    ringStep s.ring e = some s'.ring ∧ (e ≠ .insert → s'.rows = s.rows) ∧
      (e ≠ .readSlot → s'.laps = s.laps) := by
  obtain ⟨ring, hring, rfl⟩ := Option.map_eq_some_iff.mp hs
  cases e <;> simp [hring]

/-- What an insert does: the record copied last becomes the last row. -/
lemma LagInv.of_insert (h : LagInv base s) (hs : lagStep s .insert = some s') :
    s'.rows = s.rows ++ [s.copiedNo] ∧ s.copiedNo = s.ring.progress + shmMaxRecords * s.laps ∧
      s'.ring.progress = s.ring.progress + 1 := by
  obtain ⟨ring, hring, rfl⟩ := Option.map_eq_some_iff.mp hs
  obtain ⟨current, rec, hpoll, hcase⟩ := ringStep_insert.mp hring
  obtain ⟨-, -, hrec, -, hno⟩ : PollPc.LagOk s (.copied current rec) := hpoll ▸ h.poll
  obtain ⟨-, rfl⟩ := hcase.resolve_right (by simp [hrec])
  simp [RingSys.progress, hpoll, hno]

/-- A step keeps the order of the rows, unless the number of laps falls. -/
lemma LagOrder.step (h : LagOrder base s) (hok : LapsKept s e) (hs : lagStep s e = some s') :
    LagOrder base s' := by
  have hcomplete : HandsComplete s e := by
    cases e <;> first | exact hok | trivial
  have hinv := h.inv.step hcomplete hs
  obtain ⟨hring, hrows, hlaps⟩ := lagStep_frame hs
  by_cases hins : e = .insert
  · subst hins
    obtain ⟨hrows', hno, hprogress⟩ := h.inv.of_insert hs
    have hlt := h.rows_lt
    rw [← hno] at hlt
    refine ⟨hinv, ?_, ?_⟩
    · rw [hrows', List.pairwise_append]
      exact ⟨h.increasing, List.pairwise_singleton _ _, by simpa using hlt⟩
    · intro i hi
      rw [hrows'] at hi
      rw [hprogress, hlaps (by simp)]
      rcases List.mem_append.mp hi with hi | hi
      · have := hlt i hi
        omega
      · rw [List.mem_singleton.mp hi]
        omega
  · have hprogress := ((ringStep_frame hring).2.1 hins).2
    refine ⟨hinv, (hrows hins).symm ▸ h.increasing, ?_⟩
    intro i hi
    rw [hrows hins] at hi
    rw [hprogress]
    have hlt := h.rows_lt i hi
    have hle : s.laps ≤ s'.laps := by
      by_cases hread : e = .readSlot
      · subst hread
        obtain ⟨ring, -, rfl⟩ := Option.map_eq_some_iff.mp hs
        exact hok
      · exact (hlaps hread).ge
    exact hlt.trans_le (Nat.add_le_add_left (Nat.mul_le_mul_left _ hle) _)

/-- A read at which the number of laps has fallen takes a record with a smaller number than that of
the row before. -/
lemma LagInv.not_increasing (h : LagInv base s) (hfall : s.ring.lapsAhead < s.laps)
    (hread : lagStep s .readSlot = some s') {s'' : LagSys} (hins : lagStep s' .insert = some s'') :
    ¬ s''.rows.Pairwise (· < ·) := by
  have hcomplete : HandsComplete s .readSlot := trivial
  obtain ⟨hrows, hno, -⟩ := (h.step hcomplete hread).of_insert hins
  obtain ⟨hring, hrows', -⟩ := lagStep_frame hread
  have hprogress := ((ringStep_frame hring).2.1 (by simp)).2
  obtain ⟨current, hpoll, -, -⟩ := ringStep_readSlot.mp hring
  have hlaps : s'.laps = s.ring.lapsAhead := by
    obtain ⟨ring, -, rfl⟩ := Option.map_eq_some_iff.mp hread
    rfl
  have hlast : s.rows.getLast? = some (s.ring.progress - 1 + shmMaxRecords * s.laps) := by
    refine (h.last (by simp [hpoll])).resolve_left ?_
    rintro ⟨-, hzero⟩
    omega
  intro hlt
  rw [hrows, hrows' (by simp), List.pairwise_append] at hlt
  have hbefore := hlt.2.2 _ (List.mem_of_getLast? hlast) s'.copiedNo (List.mem_singleton_self _)
  rw [hno, hprogress, hlaps] at hbefore
  have hlap : shmMaxRecords * (s.ring.lapsAhead + 1) ≤ shmMaxRecords * s.laps :=
    Nat.mul_le_mul_left _ hfall
  simp only [shmMaxRecords] at hlap hbefore
  omega

end Order

/-- **A poller that falls behind.**  If the number of laps that the writer is ahead never falls from
one read of a slot to the next, the rows are records stored, in their order and each at most once.
Where it falls, the row that is inserted next breaks the order. -/
theorem rows_in_order {area : RecordArea} (db : Database) (hcount : area.recordCount = 0) :
    (∀ es s, Trace lagStep LapsKept (.init area db) es s → InOrder db.customerData s) ∧
      ∀ es s s' s'', Trace lagStep HandsComplete (.init area db) es s → ¬ LapsKept s .readSlot →
        lagStep s .readSlot = some s' → lagStep s' .insert = some s'' →
        ¬ InOrder db.customerData s'' := by
  have hinit : LagInv db.customerData (.init area db) := .init hcount db
  constructor
  · intro es s h
    have horder : LagOrder db.customerData s :=
      h.invariant ⟨hinit, List.Pairwise.nil, by simp [LagSys.init]⟩
        fun _ _ _ hi hok hs => hi.step hok hs
    exact ⟨horder.increasing, horder.inv.rows.sublist horder.increasing⟩
  · intro es s s' s'' h hfall hread hins horder
    have hinv : LagInv db.customerData s := h.invariant hinit fun _ _ _ hi hok hs => hi.step hok hs
    exact hinv.not_increasing (not_le.mp hfall) hread hins horder.1

/-! ## One record more than there are slots -/

instance (s : LagSys) : (e : RingEvent) → Decidable (HandsComplete s e)
  | .storeRecord rec => inferInstanceAs (Decidable (rec.complete = true))
  | .writeSlot | .increment | .snapshot | .readSlot | .insert | .advance | .pollReturn =>
    .isTrue trivial

instance (s : LagSys) : (e : RingEvent) → Decidable (LapsKept s e)
  | .storeRecord rec => inferInstanceAs (Decidable (rec.complete = true))
  | .readSlot => inferInstanceAs (Decidable (s.laps ≤ s.ring.lapsAhead))
  | .writeSlot | .increment | .snapshot | .insert | .advance | .pollReturn => .isTrue trivial

/-- A number of records is stored, and a poll reads its first slots. -/
def storeThenPoll (records reads : ℕ) : List RingEvent :=
  (List.replicate records
    [.storeRecord { ParkingRecord.zero with complete := true }, .writeSlot, .increment]).flatten ++
    .snapshot :: (List.replicate reads [.readSlot, .insert, .advance]).flatten

/-- The first read of a poller that is 257 records behind takes the last record. -/
theorem rows_in_order_one_read :
    ∃ s : LagSys, s.rows = [256] ∧ InOrder [] s := by
  have hrun : (replayEvents lagStep LapsKept (.init .zero ⟨fun _ => none, []⟩)
      (storeThenPoll 257 1)).map LagSys.rows = some [256] := by decide +kernel
  obtain ⟨s, hs, hrows⟩ := Option.map_eq_some_iff.mp hrun
  exact ⟨s, hrows, (rows_in_order ⟨fun _ => none, []⟩ rfl).1 _ s (.of_replayEvents hs)⟩

/-- The second read takes the second record. -/
theorem not_every_run_in_order :
    ¬ ∀ area db es s, area.recordCount = 0 →
      Trace lagStep HandsComplete (.init area db) es s → InOrder db.customerData s := by
  intro h
  have hrun : (replayEvents lagStep HandsComplete (.init .zero ⟨fun _ => none, []⟩)
      (storeThenPoll 257 2)).map LagSys.rows = some [256, 1] := by decide +kernel
  obtain ⟨s, hs, hrows⟩ := Option.map_eq_some_iff.mp hrun
  have horder := (h .zero _ _ s rfl (.of_replayEvents hs)).1
  rw [hrows] at horder
  revert horder
  decide

end ParkingSystem
