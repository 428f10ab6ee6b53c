import ParkingSystem.Db.Transaction
import ParkingSystem.System.RecordRing

/-!
# Polls whose statements may fail

`Database::insertRecord` only logs a statement that fails, and `ShmPoller::poll` counts the record
and moves its watermark in any case.  So a poll tells the truth, and leaves no completed record
behind it without a row, if and only if the statements of all completed records that it passes
succeed.

Here a call of `poll` is one step.  `poll_of_run` says that the polls which the ring model splits
into their accesses to the segment are such calls.
-/

namespace ParkingSystem

open Foundation

/-- `Database::insertRecord`; a failure is logged. -/
def Database.tryInsertRecord (r : StmtResult) (db : Database) (rec' : ParkingRecord) : Database :=
  match r with
  | .prepareFails => db
  | .stepFails => db
  | .done => db.insertRecord rec'

/-- What a call of `poll` gets from the outside. -/
structure PollEnv where
  /-- `record_count` at the beginning of the call. -/
  current : ℕ
  /-- The ring when the slot of the record with a number is copied. -/
  ring : ℕ → RecordArea
  /-- What becomes of the statement for the record with a number. -/
  stmt : ℕ → StmtResult

/-- The record that is copied for a number. -/
def PollEnv.record (env : PollEnv) (n : ℕ) : ParkingRecord := (env.ring n).slot n

/-- The poller and its database. -/
structure Poller where
  /-- `lastSeen_`. -/
  lastSeen : ℕ
  db : Database

/-- The poller when the process has started. -/
def Poller.init (db : Database) : Poller := ⟨0, db⟩

/-- One turn of the loop of `poll`, with `persisted`. -/
def pollTurn (env : PollEnv) (s : Poller) (persisted : ℕ) : Poller × ℕ :=
  let rec' := env.record s.lastSeen
  if rec'.complete then
    (⟨s.lastSeen + 1, s.db.tryInsertRecord (env.stmt s.lastSeen) rec'⟩, persisted + 1)
  else (⟨s.lastSeen + 1, s.db⟩, persisted)

/-- The loop of `poll`; `fuel` bounds the number of turns. -/
def pollLoop (env : PollEnv) : ℕ → Poller → ℕ → Poller × ℕ
  | 0, s, persisted => (s, persisted)
  | fuel + 1, s, persisted =>
    if s.lastSeen < env.current then
      let (s, persisted) := pollTurn env s persisted
      pollLoop env fuel s persisted
    else (s, persisted)

/-- `ShmPoller::poll`; every turn moves the watermark by one. -/
def poll (env : PollEnv) (s : Poller) : Poller × ℕ := pollLoop env (env.current - s.lastSeen) s 0

/-- The poller after a number of calls. -/
def runPolls (s : Poller) (envs : List PollEnv) : Poller :=
  envs.foldl (fun s env => (poll env s).1) s

/-! ## What a poll does -/

/-- The numbers of the completed records among `count` numbers from `lo` on. -/
def PollEnv.completed (env : PollEnv) (lo count : ℕ) : List ℕ :=
  (List.range' lo count).filter fun n => (env.record n).complete

/-- The numbers of the records whose statements succeed. -/
def PollEnv.added (env : PollEnv) (lo count : ℕ) : List ℕ :=
  (env.completed lo count).filter fun n => env.stmt n = .done

/-- The call is honest: it returns the number of rows that it adds, and every completed record that
the watermark has passed has one of them. -/
def PollOk (env : PollEnv) (s : Poller) : Prop :=
  ∃ rows : List ℕ,
    (poll env s).1.db.customerData = s.db.customerData ++ rows.map env.record ∧
    (poll env s).2 = rows.length ∧
    ∀ n, s.lastSeen ≤ n → n < (poll env s).1.lastSeen → (env.record n).complete = true → n ∈ rows

/-- The statements of all completed records that the call comes to succeed. -/
def InsertsDone (env : PollEnv) (s : Poller) : Prop :=
  ∀ n, s.lastSeen ≤ n → n < env.current → (env.record n).complete = true → env.stmt n = .done

section Poll

variable {env : PollEnv} {s : Poller}

/-- The loop passes all numbers up to the snapshot. -/
lemma pollLoop_eq (fuel persisted : ℕ) (hfuel : fuel = env.current - s.lastSeen) :
    pollLoop env fuel s persisted =
      (⟨s.lastSeen + fuel, { s.db with
          customerData := s.db.customerData ++ (env.added s.lastSeen fuel).map env.record }⟩,
        persisted + (env.completed s.lastSeen fuel).length) := by
  induction fuel generalizing s persisted with
  | zero => simp [pollLoop, PollEnv.added, PollEnv.completed]
  | succ fuel ih =>
    have hlt : s.lastSeen < env.current := by omega
    rw [pollLoop, if_pos hlt]
    simp only [pollTurn, PollEnv.added, PollEnv.completed, List.range'_succ] at ih ⊢
    by_cases hcomplete : (env.record s.lastSeen).complete = true
    · simp only [hcomplete, if_true, List.filter_cons_of_pos]
      rw [ih _ (by simp only; omega)]
      cases hstmt : env.stmt s.lastSeen <;>
        simp [Database.tryInsertRecord, Database.insertRecord, hstmt] <;> omega
    · simp only [hcomplete]
      rw [if_neg (by simp), ih _ (by simp only; omega)]
      simp [hcomplete]
      omega

/-- **What a poll does**: all completed records up to the snapshot are counted, and those whose
statements succeed get a row. -/
lemma poll_spec (env : PollEnv) (s : Poller) :
    poll env s =
      (⟨s.lastSeen + (env.current - s.lastSeen), { s.db with
          customerData := s.db.customerData ++
            (env.added s.lastSeen (env.current - s.lastSeen)).map env.record }⟩,
        (env.completed s.lastSeen (env.current - s.lastSeen)).length) := by
  rw [poll, pollLoop_eq _ _ rfl, Nat.zero_add]

/-- The completed records that a poll comes to. -/
lemma mem_completed_iff {n : ℕ} :
    n ∈ env.completed s.lastSeen (env.current - s.lastSeen) ↔
      s.lastSeen ≤ n ∧ n < env.current ∧ (env.record n).complete = true := by
  rw [PollEnv.completed, List.mem_filter, List.mem_range'_1]
  constructor
  · rintro ⟨⟨hlo, hhi⟩, hcomplete⟩
    exact ⟨hlo, by omega, hcomplete⟩
  · rintro ⟨hlo, hhi, hcomplete⟩
    exact ⟨⟨hlo, by omega⟩, hcomplete⟩

/-- All completed records get a row when their statements succeed. -/
lemma added_eq_completed_iff :
    env.added s.lastSeen (env.current - s.lastSeen) =
        env.completed s.lastSeen (env.current - s.lastSeen) ↔ InsertsDone env s := by
  rw [PollEnv.added, List.filter_eq_self]
  simp only [mem_completed_iff, decide_eq_true_eq, InsertsDone]
  exact ⟨fun h n hlo hhi hc => h n ⟨hlo, hhi, hc⟩, fun h n hn => h n hn.1 hn.2.1 hn.2.2⟩

/-- A poll is honest exactly when its inserts are done. -/
lemma pollOk_iff : PollOk env s ↔ InsertsDone env s := by
  rw [← added_eq_completed_iff, PollOk, poll_spec]
  simp only
  constructor
  · rintro ⟨rows, hrows, -, hpassed⟩
    -- there are as many rows as successes, and at least as many as completed records
    have hlen : (env.added s.lastSeen (env.current - s.lastSeen)).length = rows.length := by
      have := congrArg List.length (List.append_cancel_left hrows)
      simpa using this
    have hsub : env.completed s.lastSeen (env.current - s.lastSeen) ⊆ rows := by
      intro n hn
      obtain ⟨hlo, hhi, hcomplete⟩ := mem_completed_iff.mp hn
      exact hpassed n hlo (by omega) hcomplete
    have hnodup : (env.completed s.lastSeen (env.current - s.lastSeen)).Nodup :=
      List.Nodup.filter _ List.nodup_range'
    have hle := (List.subperm_of_subset hnodup hsub).length_le
    exact List.filter_sublist.eq_of_length_le (hle.trans hlen.ge)
  · intro heq
    refine ⟨_, by rw [heq], rfl, ?_⟩
    intro n hlo hhi hcomplete
    exact mem_completed_iff.mpr ⟨hlo, by omega, hcomplete⟩

/-- **When polls are honest.**  Every call of `poll` in a run returns the number of rows that it
adds and passes no completed record without a row, if and only if all statements of the completed
records that the calls come to succeed. -/
theorem polls_ok_iff (db : Database) (envs : List PollEnv) :
    (∀ earlier env later, envs = earlier ++ env :: later →
        PollOk env (runPolls (.init db) earlier)) ↔
      ∀ earlier env later, envs = earlier ++ env :: later →
        InsertsDone env (runPolls (.init db) earlier) :=
  forall₄_congr fun _ _ _ _ => pollOk_iff

/-- A completed record. -/
def oneRecord : RecordArea :=
  (RecordArea.zero.write 0 { ParkingRecord.zero with complete := true }).increment

/-- A statement fails, and the record is counted and passed all the same. -/
theorem not_every_poll_ok :
    ¬ ∀ (db : Database) (envs : List PollEnv) (earlier : List PollEnv) (env : PollEnv)
        (later : List PollEnv), envs = earlier ++ env :: later →
      PollOk env (runPolls (.init db) earlier) := by
  intro h
  have hok := h ⟨fun _ => none, []⟩ [⟨1, fun _ => oneRecord, fun _ => .stepFails⟩] [] _ [] rfl
  have hdone := pollOk_iff.mp hok 0 le_rfl (by decide) (by decide +kernel)
  revert hdone
  decide

end Poll

/-! ## The polls in a run of the ring -/

/-- The records copied from the numbers from `lo` on, out of the rings at these moments. -/
def copiesOf (lo : ℕ) (areas : List RecordArea) : List ParkingRecord :=
  (areas.zipIdx lo).map fun p => p.1.slot p.2

/-- What a call of `poll` gets from a run in which all its statements succeed. -/
def PollEnv.ofAreas (current lo : ℕ) (areas : List RecordArea) : PollEnv where
  current := current
  ring n := (areas[n - lo]?).getD .zero
  stmt _ := .done

/-- A call of `poll` that was started in `s` has copied the slots out of the rings `areas`. -/
structure PollCopied (s : RingSys) (areas : List RecordArea) (t : RingSys) : Prop where
  db_eq : t.db = { s.db with customerData :=
    s.db.customerData ++ (copiesOf s.lastSeen areas).filter ParkingRecord.complete }
  inserted_eq : t.inserted.length =
    s.inserted.length + ((copiesOf s.lastSeen areas).filter ParkingRecord.complete).length
  count_le : areas.length ≤ s.shm.recordCount - s.lastSeen
  pc : match t.poll with
    | .idle => False
    | .loop current => current = s.shm.recordCount ∧ t.lastSeen = s.lastSeen + areas.length
    | .copied current rec' => current = s.shm.recordCount ∧
        t.lastSeen = s.lastSeen + areas.length ∧ t.lastSeen < current ∧
        ∃ area : RecordArea, rec' = area.slot t.lastSeen
    | .handled current => current = s.shm.recordCount ∧
        t.lastSeen + 1 = s.lastSeen + areas.length

/-- A call of `poll` that was started in `s` is under way. -/
def PollUnderWay (s t : RingSys) : Prop := ∃ areas, PollCopied s areas t

section Run

variable {s t t' : RingSys} {areas : List RecordArea} {e : RingEvent} {es : List RingEvent}

@[simp] lemma copiesOf_concat (lo : ℕ) (areas : List RecordArea) (area : RecordArea) :
    copiesOf lo (areas ++ [area]) = copiesOf lo areas ++ [area.slot (lo + areas.length)] := by
  simp [copiesOf, List.zipIdx_append]

/-- A poll with these rings copies these records. -/
lemma records_ofAreas (current lo : ℕ) (areas : List RecordArea) :
    (List.range' lo areas.length).map (PollEnv.ofAreas current lo areas).record =
      copiesOf lo areas := by
  refine List.ext_getElem (by simp [copiesOf]) fun i hi hi' => ?_
  have hlen : i < areas.length := by simpa using hi
  simp [copiesOf, PollEnv.record, PollEnv.ofAreas, hlen]

/-- The completed ones of these records get a row. -/
lemma completed_ofAreas (current lo : ℕ) (areas : List RecordArea) :
    ((PollEnv.ofAreas current lo areas).completed lo areas.length).map
        (PollEnv.ofAreas current lo areas).record =
      (copiesOf lo areas).filter ParkingRecord.complete := by
  rw [← records_ofAreas current, List.filter_map]
  rfl

/-- Every step but the return keeps this; a step of the loop may add a ring. -/
lemma PollUnderWay.step (h : PollUnderWay s t) (he : e ≠ .pollReturn)
    (hs : ringStep t e = some t') : PollUnderWay s t' := by
  obtain ⟨areas, hdb, hinserted, hle, hpc⟩ := h
  cases e with
  | storeRecord rec' =>
    obtain ⟨-, rfl⟩ := ringStep_storeRecord.mp hs
    exact ⟨areas, hdb, hinserted, hle, hpc⟩
  | writeSlot =>
    obtain ⟨rec', idx, -, rfl⟩ := ringStep_writeSlot.mp hs
    exact ⟨areas, hdb, hinserted, hle, hpc⟩
  | increment =>
    obtain ⟨rec', -, -, rfl⟩ := ringStep_increment.mp hs
    exact ⟨areas, hdb, hinserted, hle, hpc⟩
  | snapshot =>
    obtain ⟨hidle, -⟩ := ringStep_snapshot.mp hs
    rw [hidle] at hpc
    exact hpc.elim
  | readSlot =>
    obtain ⟨current, hloop, hlt, rfl⟩ := ringStep_readSlot.mp hs
    rw [hloop] at hpc
    exact ⟨areas, hdb, hinserted, hle, hpc.1, hpc.2, hlt, t.shm, rfl⟩
  | insert =>
    obtain ⟨current, rec', hcopied, hs⟩ := ringStep_insert.mp hs
    rw [hcopied] at hpc
    obtain ⟨hcurrent, hseen, hlt, area, hrec⟩ := hpc
    have hle' : (areas ++ [area]).length ≤ s.shm.recordCount - s.lastSeen := by
      rw [List.length_append, List.length_singleton]
      omega
    have hseen' : t.lastSeen + 1 = s.lastSeen + (areas ++ [area]).length := by
      rw [List.length_append, List.length_singleton]
      omega
    rw [hseen] at hrec
    rcases hs with ⟨hcomplete, rfl⟩ | ⟨hcomplete, rfl⟩
    · rw [hrec] at hcomplete
      refine ⟨areas ++ [area], ?_, ?_, hle', hcurrent, hseen'⟩
      · simp [Database.insertRecord, hdb, hrec, hcomplete]
      · simp [hinserted, hcomplete, Nat.add_assoc]
    · rw [hrec] at hcomplete
      refine ⟨areas ++ [area], ?_, ?_, hle', hcurrent, hseen'⟩
      · simp [hdb, hcomplete]
      · simp [hinserted, hcomplete]
  | advance =>
    obtain ⟨current, hhandled, rfl⟩ := ringStep_advance.mp hs
    rw [hhandled] at hpc
    exact ⟨areas, hdb, hinserted, hle, hpc⟩
  | pollReturn => exact absurd rfl he

/-- A call that begins has copied nothing. -/
lemma PollUnderWay.begin (s : RingSys) :
    PollUnderWay s { s with poll := .loop s.shm.recordCount } :=
  ⟨[], by simp [copiesOf], by simp [copiesOf], by simp, rfl, rfl⟩

/-- **The polls of a run are calls of `poll`.**  Whatever the server does between the accesses of a
poll, the poll leaves the watermark, the rows and the number of inserts that `poll` gives for some
rings, when all statements succeed. -/
theorem poll_of_run {s₁ : RingSys} (hstart : ringStep s .snapshot = some s₁)
    (hrun : Trace ringStep (fun _ e => e ≠ .pollReturn) s₁ es t)
    (hreturn : ringStep t .pollReturn = some t') :
    ∃ env : PollEnv, env.current = s.shm.recordCount ∧ (∀ n, env.stmt n = .done) ∧
      poll env ⟨s.lastSeen, s.db⟩ =
        (⟨t'.lastSeen, t'.db⟩, t'.inserted.length - s.inserted.length) := by
  obtain ⟨-, rfl⟩ := ringStep_snapshot.mp hstart
  have hend : PollUnderWay s t :=
    hrun.invariant (.begin s) fun _ _ _ h he hs => h.step he hs
  obtain ⟨areas, hdb, hinserted, hle, hpc⟩ := hend
  obtain ⟨current, hloop, hlast, rfl⟩ := ringStep_pollReturn.mp hreturn
  rw [hloop] at hpc
  obtain ⟨rfl, hseen⟩ := hpc
  have hcount : s.shm.recordCount - s.lastSeen = areas.length := by omega
  have hcompleted := completed_ofAreas s.shm.recordCount s.lastSeen areas
  have hlen := congrArg List.length hcompleted
  rw [List.length_map] at hlen
  set env := PollEnv.ofAreas s.shm.recordCount s.lastSeen areas
  have hcurrent : env.current - s.lastSeen = areas.length := hcount
  have hall : env.added s.lastSeen areas.length = env.completed s.lastSeen areas.length := by
    rw [PollEnv.added, List.filter_eq_self]
    exact fun _ _ => decide_eq_true rfl
  refine ⟨env, rfl, fun _ => rfl, ?_⟩
  rw [poll_spec]
  simp only [hcurrent, hall, hcompleted, hlen, hdb, hseen, hinserted, Nat.add_sub_cancel_left]

end Run

end ParkingSystem
