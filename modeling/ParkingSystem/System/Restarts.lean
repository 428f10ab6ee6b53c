import ParkingSystem.System.RecordRing

/-!
# Restarts of the two processes

The shared segment and the database outlive the processes, but `lastSeen_` does not: it is a
member of `ShmPoller` and starts from 0 with every database process.  So each of these processes
inserts the records from the first one on, and the rows of a run are the rows of its database
processes, one after the other (`RestartInv.inserted_eq`).  No record is inserted twice if and only
if at most one of them inserts anything.
-/

namespace ParkingSystem

open Foundation

/-- The ring with the processes that may run. -/
structure RestartSys where
  ring : RingSys
  serverUp : Bool
  dbUp : Bool

/-- A step of a process, or the stop or start of one. -/
inductive RestartEvent where
  /-- A step of the server or of the database process. -/
  | ring (e : RingEvent)
  /-- The server stops, wherever it is. -/
  | serverStop
  /-- The server starts and attaches to the segment. -/
  | serverStart
  /-- The database process stops, wherever it is. -/
  | dbStop
  /-- The database process starts, attaches to the segment and makes a new `ShmPoller`. -/
  | dbStart
deriving DecidableEq

/-- Whether a step is one of the server. -/
def RingEvent.ofServer : RingEvent → Bool
  | storeRecord _ | writeSlot | increment => true
  | snapshot | readSlot | insert | advance | pollReturn => false

/-- The effect of an event, if it can happen. -/
def restartStep (s : RestartSys) : RestartEvent → Option RestartSys
  | .ring e =>
    if (if e.ofServer then s.serverUp else s.dbUp) then
      (ringStep s.ring e).map fun ring => { s with ring := ring }
    else none
  | .serverStop =>
    if s.serverUp then some { s with serverUp := false, ring := { s.ring with store := .idle } }
    else none
  | .serverStart => if s.serverUp then none else some { s with serverUp := true }
  | .dbStop =>
    if s.dbUp then some { s with dbUp := false, ring := { s.ring with poll := .idle } }
    else none
  | .dbStart =>
    if s.dbUp then none
    else some { s with dbUp := true, ring := { s.ring with poll := .idle, lastSeen := 0 } }

/-- The segment is there, and no process runs. -/
def RestartSys.init (area : RecordArea) (db : Database) : RestartSys :=
  ⟨.init area db, false, false⟩

/-- The callers of `storeRecord` hand over complete records. -/
def RestartOk (_ : RestartSys) : RestartEvent → Prop
  | .ring (.storeRecord rec) => rec.complete = true
  | _ => True

instance (s : RestartSys) : (e : RestartEvent) → Decidable (RestartOk s e)
  | .ring (.storeRecord rec) => inferInstanceAs (Decidable (rec.complete = true))
  | .ring .writeSlot | .ring .increment | .ring .snapshot | .ring .readSlot | .ring .insert
  | .ring .advance | .ring .pollReturn => .isTrue trivial
  | .serverStop | .serverStart | .dbStop | .dbStart => .isTrue trivial

/-! ## The database processes of a run -/

/-- The numbers of inserts of the earlier database processes and of the current one. -/
def livesStep : List ℕ × ℕ → RestartEvent → List ℕ × ℕ
  | (earlier, n), .ring .insert => (earlier, n + 1)
  | (earlier, n), .dbStart => (earlier ++ [n], 0)
  | lives, _ => lives

/-- The numbers of inserts so far, with that of the current database process apart. -/
def lives (es : List RestartEvent) : List ℕ × ℕ := es.foldl livesStep ([], 0)

@[simp] lemma lives_concat (es : List RestartEvent) (e : RestartEvent) :
    lives (es ++ [e]) = livesStep (lives es) e := by
  simp [lives]

/-- How many inserts each database process makes in a run; the first number stands for the time
before the first start. -/
def insertsPerLife (es : List RestartEvent) : List ℕ := (lives es).1 ++ [(lives es).2]

/-- Only inserts and starts of the database process change the numbers. -/
lemma livesStep_of_ne {e : RestartEvent} (hins : e ≠ .ring .insert) (hstart : e ≠ .dbStart)
    (p : List ℕ × ℕ) : livesStep p e = p := by
  cases e with
  | ring e => cases e <;> first | rfl | exact absurd rfl hins
  | dbStart => exact absurd rfl hstart
  | _ => rfl

/-- The numbers of the records inserted, if every database process inserts the records from the
first one on. -/
def insertedFrom (p : List ℕ × ℕ) : List ℕ := p.1.flatMap List.range ++ List.range p.2

/-- Only an insert adds a record. -/
lemma insertedFrom_livesStep {e : RestartEvent} (hins : e ≠ .ring .insert) (p : List ℕ × ℕ) :
    insertedFrom (livesStep p e) = insertedFrom p := by
  by_cases hstart : e = .dbStart
  · simp [hstart, livesStep, insertedFrom]
  · rw [livesStep_of_ne hins hstart]

/-! ## The invariant -/

/-- **What holds in a run with restarts** while fewer than `SHM_MAX_RECORDS` records are stored. -/
structure RestartInv (base : List ParkingRecord) (es : List RestartEvent) (s : RestartSys) :
    Prop where
  ring : RingInv base 0 s.ring
  /-- Every database process inserts the records from the first one on. -/
  inserted_eq : s.ring.inserted = insertedFrom (lives es)
  current_eq : s.dbUp = true → (lives es).2 = s.ring.progress
  polled : ∀ n ∈ s.ring.polled, ∀ k < n, k ∈ s.ring.inserted

namespace RestartInv

variable {base : List ParkingRecord} {es : List RestartEvent} {s s' : RestartSys}

/-- The invariant holds at the start. -/
lemma init {area : RecordArea} (h : area.recordCount = 0) (db : Database) :
    RestartInv db.customerData [] (.init area db) where
  ring := .init h db
  inserted_eq := rfl
  current_eq := by simp [RestartSys.init]
  polled := by simp [RestartSys.init, RingSys.init]

/-- The records that the current poller has dealt with are inserted. -/
lemma mem_inserted (h : RestartInv base es s) (hup : s.dbUp = true) {k : ℕ}
    (hk : k < s.ring.progress) : k ∈ s.ring.inserted := by
  rw [h.inserted_eq, insertedFrom, h.current_eq hup]
  exact List.mem_append_right _ (List.mem_range.mpr hk)

/-- A step of a process keeps the invariant. -/
lemma ringStep {ring' : RingSys} {e : RingEvent} (h : RestartInv base es s)
    (hlt : s.ring.stored.length < shmMaxRecords) (hok : RestartOk s (.ring e))
    (hup : e.ofServer = false → s.dbUp = true) (hs : ParkingSystem.ringStep s.ring e = some ring') :
    RestartInv base (es ++ [.ring e]) { s with ring := ring' } := by
  have hringOk : RingOk 0 s.ring e := by
    cases e with
    | storeRecord rec => exact hok
    | writeSlot => exact (h.ring.recordCount_eq.symm ▸ hlt : s.ring.shm.recordCount < shmMaxRecords)
    | _ => trivial
  have hring := h.ring.step hringOk hs
  by_cases hins : e = .insert
  · subst hins
    obtain ⟨hinserted, hprogress⟩ := h.ring.inserted_of_insert hs
    have hcurrent := h.current_eq (hup rfl)
    refine ⟨hring, ?_, ?_, ?_⟩
    · rw [lives_concat, hinserted, h.inserted_eq, ← hcurrent]
      unfold livesStep insertedFrom
      rw [List.range_succ, List.append_assoc]
    · intro _
      simp only [lives_concat, livesStep]
      rw [hcurrent, hprogress]
    · intro n hn k hk
      have hpolled := (ringStep_frame hs).2.2 (by simp)
      rw [hinserted]
      exact List.mem_append_left _ (h.polled n (hpolled ▸ hn) k hk)
  · obtain ⟨hinserted, hprogress⟩ := (ringStep_frame hs).2.1 hins
    have hne : RestartEvent.ring e ≠ .ring .insert := by simpa using hins
    refine ⟨hring, ?_, ?_, ?_⟩
    · rw [lives_concat, insertedFrom_livesStep hne, hinserted, h.inserted_eq]
    · intro hdb
      rw [lives_concat, livesStep_of_ne hne (by simp), hprogress, h.current_eq hdb]
    · intro n hn k hk
      rw [hinserted]
      by_cases hret : e = .pollReturn
      · subst hret
        obtain ⟨m, hm, hpolled⟩ := polled_of_pollReturn hs
        rcases List.mem_append.mp (hpolled ▸ hn) with hn | hn
        · exact h.polled n hn k hk
        · rw [List.mem_singleton.mp hn] at hk
          exact h.mem_inserted (hup rfl) (hk.trans_le (hprogress ▸ hm))
      · exact h.polled n ((ringStep_frame hs).2.2 hret ▸ hn) k hk

/-- **Every event keeps the invariant.** -/
lemma step {e : RestartEvent} (h : RestartInv base es s)
    (hlt : s.ring.stored.length < shmMaxRecords) (hok : RestartOk s e)
    (hs : restartStep s e = some s') : RestartInv base (es ++ [e]) s' := by
  cases e with
  | ring e =>
    simp only [restartStep, Option.ite_none_right_eq_some, Option.map_eq_some_iff] at hs
    obtain ⟨hup, ring', hring, rfl⟩ := hs
    exact h.ringStep hlt hok (fun he => by simpa [he] using hup) hring
  | serverStop =>
    simp only [restartStep, Option.ite_none_right_eq_some, Option.some.injEq] at hs
    obtain ⟨-, rfl⟩ := hs
    exact {
      ring := { h.ring with store := trivial }
      inserted_eq := by rw [lives_concat, insertedFrom_livesStep (by simp), h.inserted_eq]
      current_eq := by
        rw [lives_concat, livesStep_of_ne (by simp) (by simp)]
        exact h.current_eq
      polled := h.polled }
  | serverStart =>
    simp only [restartStep, Option.ite_none_left_eq_some, Option.some.injEq] at hs
    obtain ⟨-, rfl⟩ := hs
    exact {
      ring := h.ring
      inserted_eq := by rw [lives_concat, insertedFrom_livesStep (by simp), h.inserted_eq]
      current_eq := by
        rw [lives_concat, livesStep_of_ne (by simp) (by simp)]
        exact h.current_eq
      polled := h.polled }
  | dbStop =>
    simp only [restartStep, Option.ite_none_right_eq_some, Option.some.injEq] at hs
    obtain ⟨-, rfl⟩ := hs
    exact {
      ring := { h.ring with poll := trivial }
      inserted_eq := by rw [lives_concat, insertedFrom_livesStep (by simp), h.inserted_eq]
      current_eq := by simp
      polled := h.polled }
  | dbStart =>
    simp only [restartStep, Option.ite_none_left_eq_some, Option.some.injEq] at hs
    obtain ⟨-, rfl⟩ := hs
    exact {
      ring := { h.ring with poll := trivial, lo_le := le_rfl, lastSeen_le := Nat.zero_le _ }
      inserted_eq := by rw [lives_concat, insertedFrom_livesStep (by simp), h.inserted_eq]
      current_eq := by simp [livesStep, RingSys.progress]
      polled := h.polled }

end RestartInv

/-- Stored records stay, whatever process is restarted. -/
lemma stored_isPrefix_of_restartStep {s s' : RestartSys} {e : RestartEvent}
    (hs : restartStep s e = some s') : s.ring.stored <+: s'.ring.stored := by
  cases e with
  | ring e =>
    simp only [restartStep, Option.ite_none_right_eq_some, Option.map_eq_some_iff] at hs
    obtain ⟨-, ring', hring, rfl⟩ := hs
    exact stored_isPrefix hring
  | serverStop | dbStop =>
    simp only [restartStep, Option.ite_none_right_eq_some, Option.some.injEq] at hs
    obtain ⟨-, rfl⟩ := hs
    exact List.prefix_rfl
  | serverStart | dbStart =>
    simp only [restartStep, Option.ite_none_left_eq_some, Option.some.injEq] at hs
    obtain ⟨-, rfl⟩ := hs
    exact List.prefix_rfl

/-! ## Each record once -/

/-- Every record is inserted at most once, and exactly once if a poll with a snapshot behind it has
returned. -/
def InsertedOnce (s : RestartSys) : Prop :=
  (∀ k, s.ring.inserted.count k ≤ 1) ∧
    ∀ n ∈ s.ring.polled, ∀ k < n, s.ring.inserted.count k = 1

/-- The records from the first one on are inserted twice if two processes insert anything. -/
lemma nodup_insertedFrom (es : List RestartEvent) :
    (insertedFrom (lives es)).Nodup ↔ (insertsPerLife es).Pairwise fun m n => m = 0 ∨ n = 0 := by
  have hflat : insertedFrom (lives es) = (insertsPerLife es).flatMap List.range := by
    simp [insertedFrom, insertsPerLife]
  have hdisjoint : ∀ m n : ℕ, (List.range m).Disjoint (List.range n) ↔ m = 0 ∨ n = 0 := by
    intro m n
    constructor
    · intro h
      by_contra hne
      push Not at hne
      exact h (List.mem_range.mpr (Nat.pos_of_ne_zero hne.1))
        (List.mem_range.mpr (Nat.pos_of_ne_zero hne.2))
    · rintro (rfl | rfl) <;> simp
  rw [hflat, List.nodup_flatMap]
  simp only [List.nodup_range, implies_true, true_and]
  exact List.Pairwise.iff fun m n => hdisjoint m n

section Run

variable {area : RecordArea} {db : Database} {es : List RestartEvent} {s : RestartSys}

/-- The invariant holds in every run in which fewer than `SHM_MAX_RECORDS` records are stored. -/
lemma restartInv_of_trace (hcount : area.recordCount = 0)
    (h : Trace restartStep RestartOk (.init area db) es s)
    (hlt : s.ring.stored.length < shmMaxRecords) : RestartInv db.customerData es s := by
  refine h.invariant_events (P := fun es s => s.ring.stored.length < shmMaxRecords →
    RestartInv db.customerData es s) (fun _ => .init hcount db) ?_ hlt
  intro es s e s' ih hok hs hlt'
  have hlt : s.ring.stored.length < shmMaxRecords :=
    (stored_isPrefix_of_restartStep hs).length_le.trans_lt hlt'
  exact (ih hlt).step hlt hok hs

/-- **Each record once, if only one database process inserts.**  In every run in which fewer than
`SHM_MAX_RECORDS` records are stored, each row is the record that its poller looked for.  Every
record is inserted at most once, and is inserted when a poll that has seen it returns, if and only
if of any two database processes at most one inserts anything. -/
theorem insertedOnce_iff (hcount : area.recordCount = 0)
    (h : Trace restartStep RestartOk (.init area db) es s)
    (hlt : s.ring.stored.length < shmMaxRecords) :
    s.ring.db.customerData.map some =
        db.customerData.map some ++ s.ring.inserted.map (fun k => s.ring.stored[k]?) ∧
      (InsertedOnce s ↔ (insertsPerLife es).Pairwise fun m n => m = 0 ∨ n = 0) := by
  have hinv := restartInv_of_trace hcount h hlt
  refine ⟨hinv.ring.rows, ?_⟩
  rw [← nodup_insertedFrom, ← hinv.inserted_eq, List.nodup_iff_count_le_one]
  constructor
  · intro honce
    exact honce.1
  · intro hcount
    refine ⟨hcount, ?_⟩
    intro n hn k hk
    exact List.count_eq_one_of_mem (List.nodup_iff_count_le_one.mpr hcount)
      (hinv.polled n hn k hk)

/-- The server stores a record. -/
def storeOne : List RestartEvent :=
  [.ring (.storeRecord { ParkingRecord.zero with complete := true }), .ring .writeSlot,
    .ring .increment]

/-- The database process polls and finds a record. -/
def pollOne : List RestartEvent :=
  [.ring .snapshot, .ring .readSlot, .ring .insert, .ring .advance, .ring .pollReturn]

/-- The server is restarted between two records, and both are inserted once. -/
theorem insertedOnce_iff_serverRestart :
    ∃ s : RestartSys, s.ring.stored.length = 2 ∧ InsertedOnce s := by
  have hrun : (replayEvents restartStep RestartOk (.init .zero ⟨fun _ => none, []⟩)
      ([.dbStart, .serverStart] ++ storeOne ++ pollOne ++ [.serverStop, .serverStart] ++ storeOne ++
        pollOne)).map (fun s => s.ring.stored.length) = some 2 := by decide +kernel
  obtain ⟨s, hs, hlen⟩ := Option.map_eq_some_iff.mp hrun
  exact ⟨s, hlen, (insertedOnce_iff rfl (Trace.of_replayEvents hs) (by rw [hlen]; decide)).2.mpr
    (by decide)⟩

/-- A restart of the database process inserts the same record again. -/
theorem not_every_record_insertedOnce :
    ¬ ∀ (area : RecordArea) (db : Database) (es : List RestartEvent) (s : RestartSys),
      area.recordCount = 0 → Trace restartStep RestartOk (.init area db) es s →
      s.ring.stored.length < shmMaxRecords → InsertedOnce s := by
  intro h
  have hrun : (replayEvents restartStep RestartOk (.init .zero ⟨fun _ => none, []⟩)
      ([.dbStart, .serverStart] ++ storeOne ++ pollOne ++ [.dbStop, .dbStart] ++ pollOne)).map
      (fun s => (s.ring.stored.length, s.ring.inserted.count 0)) = some (1, 2) := by decide +kernel
  obtain ⟨s, hs, hend⟩ := Option.map_eq_some_iff.mp hrun
  obtain ⟨hlen, htwo⟩ := Prod.mk.inj hend
  have hone := (h .zero _ _ s rfl (Trace.of_replayEvents hs) (by rw [hlen]; decide)).1 0
  omega

end Run

end ParkingSystem
