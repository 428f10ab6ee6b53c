import ParkingSystem.Foundation.Decimal
import ParkingSystem.Foundation.Trace
import ParkingSystem.Db.PriceReloader

/-!
# The main loop of the database process

The loop of `db_main.cpp` with its signal handlers.  A `SIGUSR1` asks for a reload of the prices
file; the handler sets the flag `g_reloadPrices`, and the loop tests the flag once in a turn, clears
it and reloads.  A signal may be delivered between any two steps of the process, and signals that
are sent before an earlier one is delivered are delivered with it.

The flag is cleared before the file is opened.  So a signal that is delivered after the clearing
sets the flag again, and one that is delivered before it is answered by the reload that follows.
-/

namespace ParkingSystem

open Foundation

/-- Where the database process is. -/
inductive MainPc where
  /-- Behind the setup of handlers and helpers, before the initial `reload`. -/
  | setup
  /-- Inside the initial `reload` or one of the loop, with the content of the file that it has
  opened. -/
  | reloading (initial : Bool) (file : Option Bytes)
  /-- Before the test of `g_running`. -/
  | loopHead
  /-- Before the test of `g_reloadPrices`. -/
  | testFlag
  /-- Before `g_reloadPrices = 0`. -/
  | clearFlag
  /-- Before `reload`, with the flag cleared. -/
  | cleared
  /-- Before `poll`. -/
  | polling
  /-- In `sleep`. -/
  | sleeping
  /-- Behind the loop. -/
  | exited
deriving DecidableEq

/-- The latest start of a `reload`. -/
structure ReloadStart where
  /-- The number of signals delivered before. -/
  delivered : ℕ
  /-- The version of the prices file that was opened. -/
  version : ℕ
deriving DecidableEq

/-- The database process and the prices file.  The last two fields belong to no process: they record
what has happened. -/
structure MainLoop where
  pc : MainPc
  gRunning : Bool
  gReloadPrices : Bool
  db : Database
  shm : PriceArea
  /-- The version of the file that is at the path. -/
  version : ℕ
  /-- The content of the file, `none` when it cannot be opened. -/
  file : Option Bytes
  /-- A signal that is sent and not yet delivered, with the version that was there when it was sent
  last. -/
  pending : Option ℕ
  /-- The versions that were there when the delivered signals were sent. -/
  signals : List ℕ
  /-- The latest start of a reload. -/
  started : Option ReloadStart

/-- A step of the database process, or something that happens around it. -/
inductive MainEvent where
  /-- The prices file is changed. -/
  | writeFile (file : Option Bytes)
  /-- `SIGUSR1` is sent. -/
  | sendUsr1
  /-- `SIGUSR1` is delivered: `sig_usr1` runs. -/
  | deliverUsr1
  /-- `SIGINT` or `SIGTERM` is delivered: `sig_term` runs. -/
  | deliverTerm
  /-- The next step of `main`. -/
  | step
deriving DecidableEq

section Loop

variable (stod : Bytes → Option ℚ)

/-- `reload` is called: it opens the prices file. -/
def MainLoop.startReload (s : MainLoop) (initial : Bool) : MainLoop :=
  { s with pc := .reloading initial s.file, started := some ⟨s.signals.length, s.version⟩ }

/-- The next step of `main`. -/
def mainStep (s : MainLoop) : Option MainLoop :=
  match s.pc with
  | .setup => some (s.startReload true)
  | .reloading initial file =>
    let (_, db, shm) := reload stod file s.db s.shm
    some { s with pc := if initial then .loopHead else .polling, db := db, shm := shm }
  | .loopHead => some { s with pc := if s.gRunning then .testFlag else .exited }
  | .testFlag => some { s with pc := if s.gReloadPrices then .clearFlag else .polling }
  | .clearFlag => some { s with pc := .cleared, gReloadPrices := false }
  | .cleared => some (s.startReload false)
  | .polling => some { s with pc := .sleeping }
  | .sleeping => some { s with pc := .loopHead }
  | .exited => none

/-- What happens at an event. -/
def loopStep (s : MainLoop) : MainEvent → Option MainLoop
  | .writeFile file => some { s with file := file, version := s.version + 1 }
  | .sendUsr1 => some { s with pending := some s.version }
  | .deliverUsr1 => s.pending.map fun version => { s with
      gReloadPrices := true
      pending := none
      signals := s.signals ++ [version] }
  | .deliverTerm => some { s with gRunning := false }
  | .step => mainStep stod s

/-- The process before its initial reload. -/
def MainLoop.init (file : Option Bytes) (db : Database) (shm : PriceArea) : MainLoop where
  pc := .setup
  gRunning := true
  gReloadPrices := false
  db := db
  shm := shm
  version := 0
  file := file
  pending := none
  signals := []
  started := none

end Loop

/-! ## Signals and reloads -/

/-- The latest reload was started after the last delivered signal, with a version of the file that
is at least as new as those that were there when the signals were sent. -/
def MainLoop.Answered (s : MainLoop) : Prop :=
  ∃ start, s.started = some start ∧ start.delivered = s.signals.length ∧
    ∀ version ∈ s.signals, version ≤ start.version

/-- The invariant of the loop: as long as the flag is not set, and not just cleared, all delivered
signals are answered. -/
structure MainInv (s : MainLoop) : Prop where
  answered : s.gReloadPrices = false → s.pc ≠ .cleared → s.signals = [] ∨ s.Answered
  pending_le : ∀ version ∈ s.pending, version ≤ s.version
  signals_le : ∀ version ∈ s.signals, version ≤ s.version

namespace MainInv

variable {stod : Bytes → Option ℚ} {s s' : MainLoop} {e : MainEvent}

lemma init (file : Option Bytes) (db : Database) (shm : PriceArea) :
    MainInv (MainLoop.init file db shm) where
  answered _ _ := .inl rfl
  pending_le _ h := by cases h
  signals_le _ h := by cases h

/-- A reload that starts answers all signals delivered so far. -/
lemma startReload (h : MainInv s) (initial : Bool) : MainInv (s.startReload initial) where
  answered _ _ := .inr ⟨_, rfl, rfl, h.signals_le⟩
  pending_le := h.pending_le
  signals_le := h.signals_le

/-- A step that neither clears the flag nor starts a reload. -/
lemma goto (h : MainInv s) (hpc : s.pc ≠ .cleared) (pc : MainPc) (db : Database)
    (shm : PriceArea) : MainInv { s with pc := pc, db := db, shm := shm } where
  answered hflag _ := h.answered hflag hpc
  pending_le := h.pending_le
  signals_le := h.signals_le

/-- The steps of `main` keep the invariant. -/
lemma mainStep (h : MainInv s) (hs : mainStep stod s = some s') : MainInv s' := by
  unfold ParkingSystem.mainStep at hs
  cases hpc : s.pc with
  | setup =>
    rw [hpc] at hs
    obtain rfl := Option.some.inj hs
    exact h.startReload true
  | cleared =>
    rw [hpc] at hs
    obtain rfl := Option.some.inj hs
    exact h.startReload false
  | clearFlag =>
    -- now the signals wait for the reload that comes next
    rw [hpc] at hs
    obtain rfl := Option.some.inj hs
    exact ⟨fun _ hne => absurd rfl hne, h.pending_le, h.signals_le⟩
  | exited =>
    rw [hpc] at hs
    cases hs
  | _ =>
    rw [hpc] at hs
    obtain rfl := Option.some.inj hs
    exact h.goto (by rw [hpc]; simp) _ _ _

/-- Every event keeps the invariant. -/
lemma step (h : MainInv s) (hs : loopStep stod s e = some s') : MainInv s' := by
  cases e with
  | writeFile file =>
    obtain rfl := Option.some.inj hs
    exact ⟨h.answered, fun v hv => (h.pending_le v hv).trans (Nat.le_succ _),
      fun v hv => (h.signals_le v hv).trans (Nat.le_succ _)⟩
  | sendUsr1 =>
    obtain rfl := Option.some.inj hs
    refine ⟨h.answered, ?_, h.signals_le⟩
    intro version hversion
    exact (Option.some.inj hversion).symm.le
  | deliverUsr1 =>
    obtain ⟨version, hpending, rfl⟩ := Option.map_eq_some_iff.mp hs
    refine ⟨nofun, nofun, ?_⟩
    exact List.forall_mem_append.mpr
      ⟨h.signals_le, List.forall_mem_singleton.mpr (h.pending_le version hpending)⟩
  | deliverTerm =>
    obtain rfl := Option.some.inj hs
    exact ⟨h.answered, h.pending_le, h.signals_le⟩
  | step => exact h.mainStep hs

end MainInv

/-- **No price change is lost.**  Whenever the flag is not set, and the loop is not between clearing
it and the reload, the latest reload has opened the prices file after the last delivered signal, at
a version at least as new as those that were there when the signals were sent. -/
theorem signals_answered {stod : Bytes → Option ℚ} {file : Option Bytes} {db : Database}
    {shm : PriceArea} {es : List MainEvent} {s : MainLoop}
    (h : Trace (loopStep stod) (fun _ _ => True) (.init file db shm) es s)
    (hflag : s.gReloadPrices = false) (hpc : s.pc ≠ .cleared) : s.signals = [] ∨ s.Answered :=
  have hinv : MainInv s := h.invariant (MainInv.init file db shm) fun _ _ _ hi _ hs => hi.step hs
  hinv.answered hflag hpc

/-- A signal that comes between the test of the flag and its clearing is answered by the reload that
follows. -/
theorem signals_answered_between :
    ∃ s : MainLoop, s.signals = [1, 2] ∧ s.Answered := by
  have hrun : ∃ s, replayEvents (loopStep readDecimal) (fun _ _ => True)
      (.init none ⟨fun _ => none, []⟩ .zero)
      [.step, .step, .writeFile (some (ascii "Haifa,0.3\n")), .sendUsr1, .deliverUsr1, .step, .step,
        .writeFile (some (ascii "Haifa,0.4\n")), .sendUsr1, .deliverUsr1, .step, .step] = some s ∧
      (s.gReloadPrices, s.pc, s.signals) =
        (false, .reloading false (some (ascii "Haifa,0.4\n")), [1, 2]) := by
    rw [← Option.map_eq_some_iff]
    decide +kernel
  obtain ⟨s, hs, hend⟩ := hrun
  simp only [Prod.mk.injEq] at hend
  refine ⟨s, hend.2.2, ?_⟩
  have hanswered := signals_answered (.of_replayEvents hs) hend.1 (by rw [hend.2.1]; simp)
  exact hanswered.resolve_left (by rw [hend.2.2]; simp)

end ParkingSystem
