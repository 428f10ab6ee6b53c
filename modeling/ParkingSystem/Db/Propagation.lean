import ParkingSystem.Foundation.Scan
import ParkingSystem.Db.MainLoop

/-!
# Price changes reach the database process

A price updater changes the prices file, reads the number of the database process from the PID
file and sends it `SIGUSR1`.  The database process installs its handlers, writes the PID file, loads
the prices and enters its loop.  Here any number of updaters run beside the start, the loop and the
end of one database process, and their steps are mixed in any order.

An updater that finds no PID file, or a PID file that is opened and not yet written, sends nothing.
This loses no change, for the initial reload is still to come.  And since the handlers stand before
the PID file, no `SIGUSR1` meets its default action, which would end the process.
-/

namespace ParkingSystem

open Foundation

/-! ## What a reload leaves -/

/-- The prices of the database and the pricing table are what a reload of the file leaves. -/
def MainLoop.Loaded (stod : Bytes → Option ℚ) (s : MainLoop) : Prop :=
  ∃ db shm, (reload stod s.file db shm).2 = (s.db, s.shm)

/-- The file was not changed since the latest reload opened it. -/
def MainLoop.UpToDate (s : MainLoop) : Prop :=
  ∃ start, s.started = some start ∧ start.version = s.version

/-- What the latest reload has to do with the file, as long as the file is not changed; and the loop
ends only when it is told to. -/
structure LoadInv (stod : Bytes → Option ℚ) (s : MainLoop) : Prop where
  version_le : ∀ start ∈ s.started, start.version ≤ s.version
  opened : s.UpToDate → ∀ initial file, s.pc = .reloading initial file → file = s.file
  loaded : s.UpToDate → (∀ initial file, s.pc ≠ .reloading initial file) → s.Loaded stod
  ended : s.pc = .exited → s.gRunning = false

namespace LoadInv

variable {stod : Bytes → Option ℚ} {s s' : MainLoop} {e : MainEvent}

lemma init (file : Option Bytes) (db : Database) (shm : PriceArea) :
    LoadInv stod (MainLoop.init file db shm) where
  version_le := nofun
  opened := nofun
  loaded := nofun
  ended := nofun

/-- A reload that starts opens the file as it is. -/
lemma startReload (s : MainLoop) (initial : Bool) : LoadInv stod (s.startReload initial) where
  version_le _ hstart := (Option.some.inj hstart).symm ▸ le_rfl
  opened _ _ _ hpc := (MainPc.reloading.inj hpc).2.symm
  loaded _ hpc := absurd rfl (hpc initial s.file)
  ended := nofun

/-- A step that leaves the stores alone, outside a reload. -/
lemma goto (h : LoadInv stod s) (hpc : ∀ initial file, s.pc ≠ .reloading initial file) {pc : MainPc}
    (hpc' : ∀ initial file, pc ≠ .reloading initial file)
    (hend : pc = .exited → s.gRunning = false) (flag : Bool) :
    LoadInv stod { s with pc := pc, gReloadPrices := flag } where
  version_le := h.version_le
  opened _ initial file hnew := absurd hnew (hpc' initial file)
  loaded hdate _ := h.loaded hdate hpc
  ended := hend

/-- The steps of `main` keep the invariant. -/
lemma mainStep (h : LoadInv stod s) (hs : mainStep stod s = some s') : LoadInv stod s' := by
  unfold ParkingSystem.mainStep at hs
  cases hpc : s.pc with
  | setup =>
    rw [hpc] at hs
    obtain rfl := Option.some.inj hs
    exact startReload s true
  | cleared =>
    rw [hpc] at hs
    obtain rfl := Option.some.inj hs
    exact startReload s false
  | reloading initial file =>
    rw [hpc] at hs
    obtain rfl := Option.some.inj hs
    refine ⟨h.version_le, ?_, ?_, ?_⟩
    · intro _ initial' file' hnew
      dsimp only at hnew
      split_ifs at hnew
    · intro hdate _
      obtain rfl := h.opened hdate initial file hpc
      exact ⟨s.db, s.shm, rfl⟩
    · intro hend
      dsimp only at hend
      split_ifs at hend
  | loopHead =>
    rw [hpc] at hs
    obtain rfl := Option.some.inj hs
    refine h.goto (by simp [hpc]) (by intro _ _; split_ifs <;> simp) ?_ s.gReloadPrices
    intro hend
    split_ifs at hend with hrunning
    simpa using hrunning
  | testFlag =>
    rw [hpc] at hs
    obtain rfl := Option.some.inj hs
    exact h.goto (by simp [hpc]) (by intro _ _; split_ifs <;> simp) (by split_ifs <;> simp)
      s.gReloadPrices
  | clearFlag =>
    rw [hpc] at hs
    obtain rfl := Option.some.inj hs
    exact h.goto (by simp [hpc]) (by simp) (by simp) false
  | polling =>
    rw [hpc] at hs
    obtain rfl := Option.some.inj hs
    exact h.goto (by simp [hpc]) (by simp) (by simp) s.gReloadPrices
  | sleeping =>
    rw [hpc] at hs
    obtain rfl := Option.some.inj hs
    exact h.goto (by simp [hpc]) (by simp) (by simp) s.gReloadPrices
  | exited =>
    rw [hpc] at hs
    cases hs

/-- Every event of the loop keeps the invariant. -/
lemma step (h : LoadInv stod s) (hs : loopStep stod s e = some s') : LoadInv stod s' := by
  cases e with
  | writeFile file =>
    obtain rfl := Option.some.inj hs
    have hold : ¬({ s with file := file, version := s.version + 1 } : MainLoop).UpToDate := by
      rintro ⟨start, hstart, hversion⟩
      have := h.version_le start hstart
      simp only at hversion
      omega
    refine ⟨fun start hstart => ?_, fun hdate => absurd hdate hold, fun hdate => absurd hdate hold,
      h.ended⟩
    exact (h.version_le start hstart).trans (Nat.le_succ _)
  | sendUsr1 =>
    obtain rfl := Option.some.inj hs
    exact ⟨h.version_le, h.opened, h.loaded, h.ended⟩
  | deliverUsr1 =>
    obtain ⟨version, -, rfl⟩ := Option.map_eq_some_iff.mp hs
    exact ⟨h.version_le, h.opened, h.loaded, h.ended⟩
  | deliverTerm =>
    obtain rfl := Option.some.inj hs
    exact ⟨h.version_le, h.opened, h.loaded, fun _ => rfl⟩
  | step => exact h.mainStep hs

end LoadInv

/-! ## The updaters and the database process -/

/-- How far the database process is with its start and its end. -/
inductive BootPc where
  /-- Before the calls of `signal`. -/
  | atStart
  /-- Before `writePidFile`. -/
  | handlers
  /-- In `writePidFile`, with the file opened. -/
  | pidOpen
  /-- Behind `writePidFile`; what comes next says the program counter of the loop. -/
  | running
  /-- Behind `removePidFile`. -/
  | stopped
  /-- Ended by a `SIGUSR1` that no handler has met. -/
  | killed
deriving DecidableEq

/-- Where a price updater is. -/
inductive NotifyPc where
  /-- The file is not changed yet. -/
  | idle
  /-- The file is changed, and `signal_db` is next. -/
  | changed
  /-- In `signal_db`, before `kill`. -/
  | found (pid : ℤ)
  | done
deriving DecidableEq

/-- A database process, the PID file and price updaters. -/
structure Propagation (ι : Type*) where
  boot : BootPc
  main : MainLoop
  /-- The content of the PID file, `none` when there is none. -/
  pidFile : Option Bytes
  updaters : ι → NotifyPc

/-- A step of the database process or of an updater. -/
inductive PropagationEvent (ι : Type*) where
  /-- The three calls of `signal`. -/
  | installHandlers
  /-- `writePidFile` opens the file, or cannot open it. -/
  | openPid (opened : Bool)
  /-- `writePidFile` writes the file and closes it. -/
  | writePid
  /-- The database or the shared memory cannot be opened: the PID file is removed. -/
  | initFails
  /-- A step from the initial reload on, or `SIGUSR1` or `SIGTERM` is delivered. -/
  | main (e : MainEvent)
  /-- `removePidFile` at the end of `main`. -/
  | removePid
  /-- An updater changes the prices file. -/
  | change (i : ι) (file : Option Bytes)
  /-- `signal_db` reads the PID file. -/
  | readPid (i : ι)
  /-- `signal_db` calls `kill`. -/
  | kill (i : ι)
deriving DecidableEq

/-- The PID file of a process. -/
def pidText (pid : ℤ) : Bytes := printInt pid ++ [lf]

/-- `signal_db` up to `kill`: an updater that finds no number of a process is done. -/
def foundPid (pidFile : Option Bytes) : NotifyPc :=
  match pidFile with
  | none => .done
  | some text =>
    let pid := (scanInt text).getD (-1)
    if pid ≤ 0 then .done else .found pid

section Step

variable {ι : Type*} [DecidableEq ι]

/-- `SIGUSR1` is sent to the process `target`; only the database process `pid` is modelled. -/
def Propagation.signalled (s : Propagation ι) (pid target : ℤ) : Propagation ι :=
  if target ≠ pid then s
  else match s.boot with
    | .atStart => { s with boot := .killed }
    | .stopped | .killed => s
    | _ => { s with main := { s.main with pending := some s.main.version } }

/-- What of the loop can happen at a stage of the start. -/
def BootPc.allows (boot : BootPc) : MainEvent → Bool
  | .deliverUsr1 | .deliverTerm => boot = .handlers || boot = .pidOpen || boot = .running
  | .step => boot = .running
  | .writeFile _ | .sendUsr1 => false

variable (stod : Bytes → Option ℚ) (pid : ℤ)

/-- What happens at an event. -/
def propagationStep (s : Propagation ι) : PropagationEvent ι → Option (Propagation ι)
  | .installHandlers =>
    if s.boot = .atStart then some { s with boot := .handlers } else none
  | .openPid opened =>
    if s.boot = .handlers then
      some (if opened then { s with boot := .pidOpen, pidFile := some [] }
        else { s with boot := .running })
    else none
  | .writePid =>
    if s.boot = .pidOpen then some { s with boot := .running, pidFile := some (pidText pid) }
    else none
  | .initFails =>
    if s.boot = .running ∧ s.main.pc = .setup then
      some { s with boot := .stopped, pidFile := none }
    else none
  | .main e =>
    if s.boot.allows e then (loopStep stod s.main e).map fun main => { s with main := main }
    else none
  | .removePid =>
    if s.boot = .running ∧ s.main.pc = .exited then
      some { s with boot := .stopped, pidFile := none }
    else none
  | .change i file =>
    if s.updaters i = .idle ∨ s.updaters i = .changed then
      (loopStep stod s.main (.writeFile file)).map fun main =>
        { s with main := main, updaters := Function.update s.updaters i .changed }
    else none
  | .readPid i =>
    if s.updaters i = .changed then
      some { s with updaters := Function.update s.updaters i (foundPid s.pidFile) }
    else none
  | .kill i =>
    match s.updaters i with
    | .found target =>
      some { s.signalled pid target with updaters := Function.update s.updaters i .done }
    | _ => none

/-- The database process before its start, with what an earlier one has left, and updaters that
have done nothing yet. -/
def Propagation.init (pidFile file : Option Bytes) (db : Database) (shm : PriceArea) :
    Propagation ι where
  boot := .atStart
  main := .init file db shm
  pidFile := pidFile
  updaters _ := .idle

end Step

/-! ## What the process owes -/

/-- A reload of the prices is still to come. -/
def MainLoop.Owes (s : MainLoop) : Prop :=
  s.pc = .setup ∨ s.pc = .cleared ∨ s.gReloadPrices = true ∨ s.pending.isSome

/-- Unless the file is changed, a loop that is up to date or owes a reload stays so. -/
lemma MainLoop.owes_step {stod : Bytes → Option ℚ} {s s' : MainLoop} {e : MainEvent}
    (h : s.UpToDate ∨ s.Owes) (hs : loopStep stod s e = some s')
    (he : ∀ file, e ≠ .writeFile file) :
    s'.UpToDate ∨ s'.Owes := by
  cases e with
  | writeFile file => exact absurd rfl (he file)
  | sendUsr1 =>
    obtain rfl := Option.some.inj hs
    exact .inr (.inr (.inr (.inr rfl)))
  | deliverUsr1 =>
    obtain ⟨version, -, rfl⟩ := Option.map_eq_some_iff.mp hs
    exact .inr (.inr (.inr (.inl rfl)))
  | deliverTerm =>
    obtain rfl := Option.some.inj hs
    exact h
  | step =>
    rw [loopStep] at hs
    unfold mainStep at hs
    cases hpc : s.pc <;> rw [hpc] at hs
    case exited => cases hs
    case setup | cleared =>
      obtain rfl := Option.some.inj hs
      exact .inl ⟨_, rfl, rfl⟩
    case clearFlag =>
      obtain rfl := Option.some.inj hs
      exact .inr (.inr (.inl rfl))
    all_goals
      obtain rfl := Option.some.inj hs
      rcases h with h | h | h | h | h
      · exact .inl h
      · simp [hpc] at h
      · simp [hpc] at h
      · exact .inr (.inr (.inr (.inl h)))
      · exact .inr (.inr (.inr (.inr h)))

/-- No signal is on its way or waits for its reload, and no reload is under way. -/
structure MainLoop.Settled (s : MainLoop) : Prop where
  pending : s.pending = none
  flag : s.gReloadPrices = false
  pc : s.pc ≠ .setup ∧ s.pc ≠ .cleared
  not_reloading : ∀ initial file, s.pc ≠ .reloading initial file

/-- The prices file is not changed, no other signal is sent and the process is not ended. -/
def Undisturbed (_ : MainLoop) (e : MainEvent) : Prop := e = .deliverUsr1 ∨ e = .step

/-- How many steps of `main` are left before the process has answered its signals and finished its
reload. -/
def MainPc.distance (flag : Bool) : MainPc → ℕ
  | .setup => if flag then 7 else 2
  | .reloading initial _ => if flag then if initial then 6 else 8 else 1
  | .loopHead => if flag then 5 else 0
  | .testFlag => if flag then 4 else 0
  | .clearFlag => if flag then 3 else 0
  | .cleared => if flag then 9 else 2
  | .polling => if flag then 7 else 0
  | .sleeping => if flag then 6 else 0
  | .exited => 0

section Settles

variable {stod : Bytes → Option ℚ} {s : MainLoop}

lemma MainPc.distance_le (flag : Bool) (pc : MainPc) : pc.distance flag ≤ 9 := by
  cases pc <;> simp [distance] <;> split_ifs <;> omega

/-- Nothing is left for a process that runs at distance zero. -/
lemma MainLoop.settled_of_distance (hpc : s.pc ≠ .exited) (hpending : s.pending = none)
    (h : s.pc.distance s.gReloadPrices = 0) : s.Settled := by
  cases hflag : s.gReloadPrices <;> rw [hflag] at h
  case true =>
    cases hs : s.pc <;> simp [hs, MainPc.distance] at h hpc
    split_ifs at h
  case false =>
    refine ⟨hpending, hflag, ?_, ?_⟩ <;> cases hs : s.pc <;> simp [hs, MainPc.distance] at h ⊢

/-- A step of `main` brings the process nearer to its end. -/
lemma exists_mainStep_distance_lt (stod : Bytes → Option ℚ) (hrunning : s.gRunning = true)
    (h : s.pc.distance s.gReloadPrices ≠ 0) :
    ∃ s', mainStep stod s = some s' ∧
      s'.pc.distance s'.gReloadPrices < s.pc.distance s.gReloadPrices ∧
      s'.gRunning = true ∧ s'.pending = s.pending ∧ s'.file = s.file := by
  unfold mainStep
  cases hflag : s.gReloadPrices <;> cases hpc : s.pc <;> rw [hflag, hpc] at h <;>
    simp [MainPc.distance, MainLoop.startReload, hflag, hrunning] at h ⊢
  all_goals split_ifs <;> simp

/-- Without a signal on its way, an undisturbed process settles after as many steps as are left. -/
lemma MainLoop.exists_settled_of_none (hinv : LoadInv stod s) (hrunning : s.gRunning = true)
    (hpending : s.pending = none) :
    ∃ es s', Trace (loopStep stod) Undisturbed s es s' ∧
      es.length ≤ s.pc.distance s.gReloadPrices ∧ s'.Settled ∧ s'.file = s.file := by
  induction hk : s.pc.distance s.gReloadPrices using Nat.strong_induction_on generalizing s with
  | _ k ih =>
    subst hk
    by_cases hzero : s.pc.distance s.gReloadPrices = 0
    · have hpc : s.pc ≠ .exited := by
        intro hpc
        exact absurd hrunning (by simp [hinv.ended hpc])
      exact ⟨[], s, .nil, by simp, MainLoop.settled_of_distance hpc hpending hzero, rfl⟩
    · obtain ⟨s₁, hs, hlt, hrunning₁, hpending₁, hfile₁⟩ :=
        exists_mainStep_distance_lt stod hrunning hzero
      obtain ⟨es, s', htrace, hlen, hsettled, hfile⟩ :=
        ih _ hlt (hinv.mainStep hs) hrunning₁ (hpending₁.trans hpending) rfl
      refine ⟨.step :: es, s', .cons (.inr rfl) hs htrace, ?_, hsettled, hfile.trans hfile₁⟩
      rw [List.length_cons]
      omega

/-- An undisturbed process settles after ten events at most. -/
lemma MainLoop.exists_settled (hinv : LoadInv stod s) (hrunning : s.gRunning = true) :
    ∃ es s', Trace (loopStep stod) Undisturbed s es s' ∧ es.length ≤ 10 ∧ s'.Settled ∧
      s'.file = s.file := by
  cases hpending : s.pending with
  | none =>
    obtain ⟨es, s', htrace, hlen, hrest⟩ := exists_settled_of_none hinv hrunning hpending
    exact ⟨es, s', htrace, hlen.trans ((MainPc.distance_le _ _).trans (by omega)), hrest⟩
  | some version =>
    -- the signal is delivered first
    have hdeliver : loopStep stod s .deliverUsr1 = some { s with
        gReloadPrices := true
        pending := none
        signals := s.signals ++ [version] } := by
      simp [loopStep, hpending]
    obtain ⟨es, s', htrace, hlen, hrest⟩ := exists_settled_of_none (hinv.step hdeliver) hrunning rfl
    refine ⟨.deliverUsr1 :: es, s', .cons (.inl rfl) hdeliver htrace, ?_, hrest⟩
    rw [List.length_cons]
    exact Nat.succ_le_succ (hlen.trans (MainPc.distance_le _ _))

/-- A settled process that owes no reload but the one it has had has loaded the file. -/
lemma MainLoop.Settled.loaded (h : s.Settled) (hinv : LoadInv stod s)
    (howed : s.UpToDate ∨ s.Owes) : s.Loaded stod := by
  have hdate : s.UpToDate := by
    rcases howed with hdate | hpc | hpc | hflag | hpending
    · exact hdate
    · exact absurd hpc h.pc.1
    · exact absurd hpc h.pc.2
    · exact absurd hflag (by simp [h.flag])
    · exact absurd hpending (by simp [h.pending])
  exact hinv.loaded hdate h.not_reloading

end Settles

namespace Propagation

variable {ι : Type*} {stod : Bytes → Option ℚ} {pid : ℤ} {stale : Option Bytes}
  {s s' : Propagation ι}

/-- An updater has still to send its signal. -/
def Sending (s : Propagation ι) (pid : ℤ) : Prop :=
  ∃ i, s.updaters i = .changed ∨ s.updaters i = .found pid

end Propagation

/-- The invariant of the updaters and the database process: as long as the process lives, it is up
to date, or owes a reload, or will be sent a signal. -/
structure PropagationInv {ι : Type*} (stod : Bytes → Option ℚ) (pid : ℤ) (stale : Option Bytes)
    (s : Propagation ι) : Prop where
  load : LoadInv stod s.main
  alive : s.boot ≠ .killed
  setup : s.boot ≠ .running → s.boot ≠ .stopped → s.main.pc = .setup
  stale_eq : s.boot = .atStart ∨ s.boot = .handlers → s.pidFile = stale
  own : s.boot = .running → s.pidFile = some (pidText pid)
  spared : s.boot = .atStart → ∀ i, s.updaters i ≠ .found pid
  owed : s.boot ≠ .stopped → (s.main.UpToDate ∨ s.main.Owes) ∨ s.Sending pid

/-- The number that a process wrote is found in its PID file. -/
lemma foundPid_pidText {pid : ℤ} (hpos : 0 < pid) (hint : pid < 2 ^ 31) :
    foundPid (some (pidText pid)) = .found pid := by
  have hscan : scanInt (pidText pid) = some pid :=
    scanInt_printInt (by omega) hint (by simp; decide)
  simp [foundPid, hscan, hpos]

namespace PropagationInv

variable {ι : Type*} {stod : Bytes → Option ℚ} {pid : ℤ} {stale : Option Bytes}
  {s s' : Propagation ι}

lemma init (stale file : Option Bytes) (db : Database) (shm : PriceArea) :
    PropagationInv stod pid stale (Propagation.init (ι := ι) stale file db shm) where
  load := .init file db shm
  alive := by simp [Propagation.init]
  setup _ _ := rfl
  stale_eq _ := rfl
  own := nofun
  spared _ _ := nofun
  owed _ := .inl (.inr (.inl rfl))

/-- The start and the end of the process, up to the flow of the loop. -/
lemma boot (h : PropagationInv stod pid stale s) {boot : BootPc} {pidFile : Option Bytes}
    (hpc : boot = .stopped ∨ s.main.pc = .setup) (halive : boot ≠ .killed)
    (hstale : boot = .atStart ∨ boot = .handlers → pidFile = stale)
    (hown : boot = .running → pidFile = some (pidText pid)) (hstart : boot ≠ .atStart) :
    PropagationInv stod pid stale { s with boot := boot, pidFile := pidFile } where
  load := h.load
  alive := halive
  setup _ hstop := hpc.resolve_left hstop
  stale_eq := hstale
  own := hown
  spared hboot := absurd hboot hstart
  owed hstop := .inl (.inr (.inl (hpc.resolve_left hstop)))

/-- An event of the loop, or a signal that is delivered. -/
lemma main (h : PropagationInv stod pid stale s) {e : MainEvent} {m : MainLoop}
    (hallows : s.boot.allows e = true) (hs : loopStep stod s.main e = some m) :
    PropagationInv stod pid stale { s with main := m } where
  load := h.load.step hs
  alive := h.alive
  setup hrunning hstop := by
    have hpc : m.pc = s.main.pc := by
      cases e with
      | deliverUsr1 =>
        obtain ⟨version, -, rfl⟩ := Option.map_eq_some_iff.mp hs
        rfl
      | deliverTerm =>
        obtain rfl := Option.some.inj hs
        rfl
      | step => exact absurd (by simpa [BootPc.allows] using hallows) hrunning
      | _ => simp [BootPc.allows] at hallows
    exact hpc.trans (h.setup hrunning hstop)
  stale_eq := h.stale_eq
  own := h.own
  spared := h.spared
  owed hstop := by
    rcases h.owed hstop with howed | hsending
    · refine .inl (MainLoop.owes_step howed hs ?_)
      rintro file rfl
      simp [BootPc.allows] at hallows
    · exact .inr hsending

variable [DecidableEq ι]

/-- An updater changes the prices file, and now it has to send a signal. -/
lemma change (h : PropagationInv stod pid stale s) {i : ι} {file : Option Bytes} {m : MainLoop}
    (hs : loopStep stod s.main (.writeFile file) = some m) :
    PropagationInv stod pid stale
      { s with main := m, updaters := Function.update s.updaters i .changed } where
  load := h.load.step hs
  alive := h.alive
  setup hrunning hstop := by
    obtain rfl := Option.some.inj hs
    exact h.setup hrunning hstop
  stale_eq := h.stale_eq
  own := h.own
  spared hboot j := by
    by_cases hj : j = i
    · simp [hj]
    · simpa [hj] using h.spared hboot j
  owed _ := .inr ⟨i, .inl (Function.update_self ..)⟩

/-- An updater reads the PID file.  It finds the process if it is running, and else the initial
reload is still to come. -/
lemma readPid (h : PropagationInv stod pid stale s) (hpos : 0 < pid) (hint : pid < 2 ^ 31)
    (hstale : foundPid stale ≠ .found pid) {i : ι} :
    PropagationInv stod pid stale
      { s with updaters := Function.update s.updaters i (foundPid s.pidFile) } where
  load := h.load
  alive := h.alive
  setup := h.setup
  stale_eq := h.stale_eq
  own := h.own
  spared hboot j := by
    by_cases hj : j = i
    · simpa [hj, h.stale_eq (.inl hboot)] using hstale
    · simpa [hj] using h.spared hboot j
  owed hstop := by
    by_cases hrunning : s.boot = .running
    · refine .inr ⟨i, .inr ?_⟩
      simpa [h.own hrunning] using foundPid_pidText hpos hint
    · exact .inl (.inr (.inl (h.setup hrunning hstop)))

/-- An updater calls `kill`.  The signal reaches a process that has its handlers, if it is the
database process. -/
lemma kill (h : PropagationInv stod pid stale s) {i : ι} {target : ℤ}
    (hi : s.updaters i = .found target) :
    PropagationInv stod pid stale
      { s.signalled pid target with updaters := Function.update s.updaters i .done } := by
  have hspared : s.boot = .atStart → ∀ j, Function.update s.updaters i .done j ≠ .found pid := by
    intro hboot j
    by_cases hj : j = i
    · simp [hj]
    · simpa [hj] using h.spared hboot j
  by_cases htarget : target = pid
  · subst htarget
    have hsignalled : s.boot ≠ .stopped → s.signalled target target =
        { s with main := { s.main with pending := some s.main.version } } := by
      intro hstop
      unfold Propagation.signalled
      cases hboot : s.boot with
      | atStart => exact absurd hi (h.spared hboot i)
      | stopped => exact absurd hboot hstop
      | killed => exact absurd hboot h.alive
      | _ => simp
    by_cases hstop : s.boot = .stopped
    · have hnone : s.signalled target target = s := by simp [Propagation.signalled, hstop]
      rw [hnone]
      exact ⟨h.load, h.alive, h.setup, h.stale_eq, h.own, hspared, fun hne => absurd hstop hne⟩
    · rw [hsignalled hstop]
      exact ⟨h.load.step (e := .sendUsr1) rfl, h.alive, h.setup, h.stale_eq, h.own, hspared,
        fun _ => .inl (.inr (.inr (.inr (.inr rfl))))⟩
  · have hnone : s.signalled pid target = s := by simp [Propagation.signalled, htarget]
    rw [hnone]
    refine ⟨h.load, h.alive, h.setup, h.stale_eq, h.own, hspared, fun hstop => ?_⟩
    rcases h.owed hstop with howed | ⟨j, hj⟩
    · exact .inl howed
    · refine .inr ⟨j, ?_⟩
      have hne : j ≠ i := by
        rintro rfl
        rw [hi] at hj
        simp [htarget] at hj
      simpa [hne] using hj

/-- Every event keeps the invariant, if the PID file can be opened. -/
lemma step (h : PropagationInv stod pid stale s) (hpos : 0 < pid) (hint : pid < 2 ^ 31)
    (hstale : foundPid stale ≠ .found pid) {e : PropagationEvent ι} (he : e ≠ .openPid false)
    (hs : propagationStep stod pid s e = some s') : PropagationInv stod pid stale s' := by
  cases e with
  | installHandlers =>
    simp only [propagationStep, Option.ite_none_right_eq_some, Option.some.injEq] at hs
    obtain ⟨hboot, rfl⟩ := hs
    exact h.boot (.inr (h.setup (by simp [hboot]) (by simp [hboot]))) (by simp)
      (fun _ => h.stale_eq (.inl hboot)) nofun (by simp)
  | openPid opened =>
    obtain rfl : opened = true := by simpa using he
    simp only [propagationStep, Option.ite_none_right_eq_some, Option.some.injEq, if_true] at hs
    obtain ⟨hboot, rfl⟩ := hs
    exact h.boot (.inr (h.setup (by simp [hboot]) (by simp [hboot]))) (by simp) (by simp) nofun
      (by simp)
  | writePid =>
    simp only [propagationStep, Option.ite_none_right_eq_some, Option.some.injEq] at hs
    obtain ⟨hboot, rfl⟩ := hs
    exact h.boot (.inr (h.setup (by simp [hboot]) (by simp [hboot]))) (by simp) (by simp)
      (fun _ => rfl) (by simp)
  | initFails =>
    simp only [propagationStep, Option.ite_none_right_eq_some, Option.some.injEq] at hs
    obtain ⟨-, rfl⟩ := hs
    exact h.boot (.inl rfl) (by simp) (by simp) nofun (by simp)
  | main e =>
    simp only [propagationStep, Option.ite_none_right_eq_some, Option.map_eq_some_iff] at hs
    obtain ⟨hallows, m, hm, rfl⟩ := hs
    exact h.main hallows hm
  | removePid =>
    simp only [propagationStep, Option.ite_none_right_eq_some, Option.some.injEq] at hs
    obtain ⟨-, rfl⟩ := hs
    exact h.boot (.inl rfl) (by simp) (by simp) nofun (by simp)
  | change i file =>
    simp only [propagationStep, Option.ite_none_right_eq_some, Option.map_eq_some_iff] at hs
    obtain ⟨-, m, hm, rfl⟩ := hs
    exact h.change hm
  | readPid i =>
    simp only [propagationStep, Option.ite_none_right_eq_some, Option.some.injEq] at hs
    obtain ⟨-, rfl⟩ := hs
    exact h.readPid hpos hint hstale
  | kill i =>
    rw [propagationStep] at hs
    cases hi : s.updaters i with
    | found target =>
      rw [hi] at hs
      obtain rfl := Option.some.inj hs
      exact h.kill hi
    | _ =>
      rw [hi] at hs
      cases hs

end PropagationInv

section Propagate

variable {ι : Type*} [DecidableEq ι] {stod : Bytes → Option ℚ} {pid : ℤ}
  {stale file : Option Bytes} {db : Database} {shm : PriceArea} {es : List (PropagationEvent ι)}
  {s : Propagation ι}

end Propagate

end ParkingSystem
