import ParkingSystem.Foundation.IrqFlag
import ParkingSystem.Stm32.Schedule
import ParkingSystem.Stm32.Slave

/-!
# The firmware with its interrupts

The main loop of `main.c` polls two flags, `g_tick` and `g_tx_done`, which interrupt handlers set:
the timer once a second, and the I2C peripheral at the end of a complete transmission.  The loop is
split into its accesses to the flags, so that an interrupt may come between any two of them.

The tick machine and its I2C slave go through the same states as without the flags; each handled
tick stands for one or more interrupts of the timer.  Interrupts are merged if the loop has not
cleared `g_tick` since the last one, and never if it takes seven steps between two of them.
-/

namespace ParkingSystem

open Foundation

/-- Where the main loop is. -/
inductive LoopPc where
  /-- Before `if (g_tx_done)`. -/
  | testTx
  /-- Before `g_tx_done = 0`. -/
  | clearTx
  /-- Before the line about the transmission is printed. -/
  | printTx
  /-- Before `if (!g_tick) continue`. -/
  | testTick
  /-- Before `g_tick = 0`. -/
  | clearTick
  /-- Before the `switch`. -/
  | handle
  /-- Between `build_frame` and `i2c_arm`. -/
  | arm
deriving DecidableEq

/-- The microcontroller. -/
structure Mcu where
  slave : SlaveRun
  /-- `g_tick`. -/
  tick : IrqFlag
  /-- `g_tx_done`. -/
  txDone : IrqFlag
  pc : LoopPc
  /-- The number of ticks handled. -/
  handled : ℕ
  /-- The frames printed as transmitted. -/
  printed : List GpsFrame
  /-- The steps of the main loop since the last interrupt of the timer. -/
  sinceTimer : ℕ

/-- A step of the main loop, or an interrupt. -/
inductive McuEvent where
  /-- The main loop goes on to its next access. -/
  | loop
  /-- `HAL_TIM_PeriodElapsedCallback`. -/
  | timer
  /-- The I2C peripheral asks for the next byte. -/
  | txis
  /-- The master ends the transmission. -/
  | stop
deriving DecidableEq

/-- The timer is started, and the main loop is entered. -/
def Mcu.init (table : VehicleTable) : Mcu :=
  ⟨.init table, .zero, .zero, .testTx, 0, [], 0⟩

/-- One step of the main loop. -/
def Mcu.loop (table : VehicleTable) (s : Mcu) : Option Mcu :=
  match s.pc with
  | .testTx => some { s with pc := if s.txDone.isSet then .clearTx else .testTick }
  | .clearTx => some { s with txDone := s.txDone.clear, pc := .printTx }
  | .printTx => some { s with printed := s.printed ++ [s.slave.stm32.frame], pc := .testTick }
  | .testTick => some { s with pc := if s.tick.isSet then .clearTick else .testTx }
  | .clearTick => some { s with tick := s.tick.clear, pc := .handle }
  | .handle => (slaveStep table s.slave .tick).map fun slave => { s with
      slave := slave
      handled := s.handled + 1
      pc := if slave.arming then .arm else .testTx }
  | .arm => (slaveStep table s.slave .arm).map fun slave => { s with slave := slave, pc := .testTx }

/-- The step function of the microcontroller. -/
def mcuStep (table : VehicleTable) (s : Mcu) : McuEvent → Option Mcu
  | .loop => (s.loop table).map fun s => { s with sinceTimer := s.sinceTimer + 1 }
  | .timer => some { s with tick := s.tick.raise, sinceTimer := 0 }
  | .txis => (slaveStep table s.slave .txis).map fun slave => { s with slave := slave }
  | .stop => (slaveStep table s.slave .stop).map fun slave => { s with
      slave := slave
      -- only a complete transmission ends in `HAL_I2C_SlaveTxCpltCallback`
      txDone := if s.slave.i2c.xferCount = 0 then s.txDone.raise else s.txDone }

/-- The main loop has taken `k` steps since the last interrupt when the timer fires again. -/
def Paced (k : ℕ) (s : Mcu) (e : McuEvent) : Prop :=
  e = .timer → s.tick.raised = 0 ∨ k ≤ s.sinceTimer

instance (k : ℕ) (s : Mcu) (e : McuEvent) : Decidable (Paced k s e) :=
  inferInstanceAs (Decidable (_ → _ ∨ _))

section Firmware

variable {table : VehicleTable} {s s' : Mcu} {e : McuEvent} {es : List McuEvent}

/-- The slave is armed, and every complete transmission but the one that has not ended has raised
`g_tx_done`. -/
structure TxInv (slave : SlaveRun) (txDone : IrqFlag) : Prop where
  armed : slave.i2c.state = .busyTx
  count_eq : slave.sent.length + slave.i2c.xferCount = frameSize
  read : slave.framesRead.length = txDone.raised + if slave.i2c.xferCount = 0 then 1 else 0

lemma TxInv.txis {slave slave' : SlaveRun} {txDone : IrqFlag} (h : TxInv slave txDone)
    (hs : slaveStep table slave .txis = some slave') : TxInv slave' txDone := by
  by_cases hpos : 0 < slave.i2c.xferCount
  · simp only [slaveStep, I2cHandle.txis, hpos, dif_pos, Option.some.injEq] at hs
    subst hs
    have hcount := h.count_eq
    have hread := h.read
    rw [if_neg hpos.ne'] at hread
    refine ⟨h.armed, ?_, ?_⟩
    · simp only [List.length_append, List.length_singleton]
      omega
    · -- the last byte completes the frame
      simp only [List.length_append, List.length_singleton]
      by_cases hlast : slave.i2c.xferCount = 1
      · simp [show slave.sent.length + 1 = frameSize by omega, hlast, hread]
      · simp [show slave.sent.length + 1 ≠ frameSize by omega,
          show slave.i2c.xferCount - 1 ≠ 0 by omega, hread]
  · simp only [slaveStep, I2cHandle.txis, hpos, dif_neg, not_false_eq_true,
      Option.some.injEq] at hs
    exact hs ▸ h

lemma TxInv.stop {slave slave' : SlaveRun} {txDone : IrqFlag} (h : TxInv slave txDone)
    (hs : slaveStep table slave .stop = some slave') :
    TxInv slave' (if slave.i2c.xferCount = 0 then txDone.raise else txDone) := by
  simp only [slaveStep, Option.some.injEq] at hs
  subst hs
  have hread := h.read
  refine ⟨by rw [I2cHandle.itSlaveCplt_eq], by simp [I2cHandle.itSlaveCplt_eq], ?_⟩
  simp only [I2cHandle.itSlaveCplt_eq]
  by_cases hzero : slave.i2c.xferCount = 0 <;> simpa [hzero] using hread

/-- An interrupt of the peripheral leaves the main loop alone. -/
lemma slaveStep_interrupt {slave slave' : SlaveRun} {e : SlaveEvent} (he : e = .txis ∨ e = .stop)
    (hs : slaveStep table slave e = some slave') :
    slave'.stm32 = slave.stm32 ∧ slave'.arming = slave.arming := by
  rcases he with rfl | rfl
  · simp only [slaveStep] at hs
    split at hs <;> obtain rfl := Option.some.inj hs <;> exact ⟨rfl, rfl⟩
  · obtain rfl := Option.some.inj hs
    exact ⟨rfl, rfl⟩

/-- What holds in every state: the main loop stands behind a test of a flag only when the flag is
set, and what it has taken it has dealt with, but for what it is dealing with. -/
structure McuInv (table : VehicleTable) (s : Mcu) : Prop where
  arming : s.slave.arming ↔ s.pc = .arm
  clearTick : s.pc = .clearTick → s.tick.isSet
  clearTx : s.pc = .clearTx → s.txDone.isSet
  stm32 : s.slave.stm32 = Stm32.afterTicks table s.handled
  taken : s.tick.taken = s.handled + if s.pc = .handle then 1 else 0
  takenTx : s.txDone.taken = s.printed.length + if s.pc = .printTx then 1 else 0
  tx : TxInv s.slave s.txDone

lemma mcuInv_init (table : VehicleTable) : McuInv table (.init table) where
  arming := by simp [Mcu.init, SlaveRun.init]
  clearTick := by simp [Mcu.init]
  clearTx := by simp [Mcu.init]
  stm32 := rfl
  taken := rfl
  takenTx := rfl
  tx := ⟨rfl, rfl, rfl⟩

/-- A step of the main loop keeps the invariant. -/
lemma McuInv.loop (h : McuInv table s) (hs : s.loop table = some s') : McuInv table s' := by
  obtain ⟨harming, hclearTick, hclearTx, hstm, htaken, htakenTx, htx⟩ := h
  cases hpc : s.pc with
  | testTx =>
    simp only [Mcu.loop, hpc, Option.some.injEq] at hs
    subst hs
    simp only [hpc, reduceCtorEq, if_false, iff_false] at harming htaken htakenTx
    cases hset : s.txDone.isSet <;>
      exact ⟨by simp [harming], by simp, by simp [hset], hstm, htaken, htakenTx, htx⟩
  | clearTx =>
    simp only [Mcu.loop, hpc, Option.some.injEq] at hs
    subst hs
    simp only [hpc, reduceCtorEq, if_false, iff_false] at harming htaken htakenTx
    refine ⟨by simp [harming], by simp, by simp, hstm, htaken, ?_,
      htx.armed, htx.count_eq, htx.read⟩
    simp [IrqFlag.taken_clear _ (hclearTx hpc), htakenTx]
  | printTx =>
    simp only [Mcu.loop, hpc, Option.some.injEq] at hs
    subst hs
    simp only [hpc, reduceCtorEq, if_false, if_true, iff_false] at harming htaken htakenTx
    exact ⟨by simp [harming], by simp, by simp, hstm, htaken, by simp [htakenTx], htx⟩
  | testTick =>
    simp only [Mcu.loop, hpc, Option.some.injEq] at hs
    subst hs
    simp only [hpc, reduceCtorEq, if_false, iff_false] at harming htaken htakenTx
    cases hset : s.tick.isSet <;>
      exact ⟨by simp [harming], by simp [hset], by simp, hstm, htaken, htakenTx, htx⟩
  | clearTick =>
    simp only [Mcu.loop, hpc, Option.some.injEq] at hs
    subst hs
    simp only [hpc, reduceCtorEq, if_false, iff_false] at harming htaken htakenTx
    refine ⟨by simp [harming], by simp, by simp, hstm, ?_, htakenTx, htx⟩
    simp [IrqFlag.taken_clear _ (hclearTick hpc), htaken]
  | handle =>
    simp only [hpc, reduceCtorEq, if_false, if_true, iff_false, Bool.not_eq_true]
      at harming htaken htakenTx
    simp only [Mcu.loop, hpc, slaveStep, harming, Bool.false_eq_true, if_false, Option.map_some,
      Option.some.injEq] at hs
    subst hs
    cases hbuilds : s.slave.stm32.builds <;>
      exact ⟨by simp, by simp, by simp, by rw [hstm]; rfl, by simpa using htaken,
        by simpa using htakenTx, htx.armed, htx.count_eq, htx.read⟩
  | arm =>
    simp only [hpc, reduceCtorEq, if_false, iff_true] at harming htaken htakenTx
    simp only [Mcu.loop, hpc, slaveStep, harming, if_true, Option.map_some, Option.some.injEq,
      I2cHandle.slaveTransmitIt_of_busyTx htx.armed] at hs
    subst hs
    exact ⟨by simp, by simp, by simp, hstm, htaken, htakenTx, htx.armed, htx.count_eq, htx.read⟩

/-- An interrupt keeps the invariant, too. -/
lemma McuInv.step (h : McuInv table s) (hs : mcuStep table s e = some s') : McuInv table s' := by
  cases e with
  | loop =>
    obtain ⟨s₁, hloop, rfl⟩ := Option.map_eq_some_iff.mp hs
    obtain ⟨harming, hclearTick, hclearTx, hstm, htaken, htakenTx, htx⟩ := h.loop hloop
    exact ⟨harming, hclearTick, hclearTx, hstm, htaken, htakenTx, htx⟩
  | timer =>
    obtain rfl := Option.some.inj hs
    exact { h with clearTick := fun _ => rfl }
  | txis =>
    simp only [mcuStep, Option.map_eq_some_iff] at hs
    obtain ⟨slave, hslave, rfl⟩ := hs
    obtain ⟨hstm, harming⟩ := slaveStep_interrupt (Or.inl rfl) hslave
    exact { h with
      arming := by rw [harming]; exact h.arming
      stm32 := by rw [hstm]; exact h.stm32
      tx := h.tx.txis hslave }
  | stop =>
    simp only [mcuStep, Option.map_eq_some_iff] at hs
    obtain ⟨slave, hslave, rfl⟩ := hs
    obtain ⟨hstm, harming⟩ := slaveStep_interrupt (Or.inr rfl) hslave
    exact { h with
      arming := by rw [harming]; exact h.arming
      clearTx := fun hpc => by
        split_ifs
        · rfl
        · exact h.clearTx hpc
      stm32 := by rw [hstm]; exact h.stm32
      takenTx := by
        simp only [apply_ite IrqFlag.taken, IrqFlag.taken_raise, ite_self]
        exact h.takenTx
      tx := h.tx.stop hslave }

/-- The interrupts of the timer in a run are those that the flag has seen. -/
lemma raised_of_trace {ok : Mcu → McuEvent → Prop}
    (hrun : Trace (mcuStep table) ok (Mcu.init table) es s) : s.tick.raised = es.count .timer := by
  refine hrun.invariant_events (P := fun es s => s.tick.raised = es.count .timer) rfl ?_
  intro es s e s' ih _ hs
  rw [List.count_append, ← ih]
  cases e with
  | timer =>
    obtain rfl := Option.some.inj hs
    rfl
  | loop =>
    obtain ⟨s₁, hloop, rfl⟩ := Option.map_eq_some_iff.mp hs
    cases hpc : s.pc with
    | handle | arm =>
      simp only [Mcu.loop, hpc, Option.map_eq_some_iff] at hloop
      obtain ⟨slave, -, rfl⟩ := hloop
      rfl
    | _ =>
      simp only [Mcu.loop, hpc, Option.some.injEq] at hloop
      subst hloop
      rfl
  | txis | stop =>
    simp only [mcuStep, Option.map_eq_some_iff] at hs
    obtain ⟨slave, -, rfl⟩ := hs
    rfl

/-- Without its flags, the microcontroller is the STM32 with its slave. -/
lemma slave_of_trace {ok : Mcu → McuEvent → Prop}
    (hrun : Trace (mcuStep table) ok (Mcu.init table) es s) :
    ∃ es', Trace (slaveStep table) (fun _ _ => True) (SlaveRun.init table) es' s.slave ∧
      es'.count .tick = s.handled := by
  induction hrun with
  | nil => exact ⟨[], .nil, rfl⟩
  | @snoc es s s' e _ _ hs ih =>
    obtain ⟨es', hslave, hcount⟩ := ih
    cases e with
    | timer =>
      obtain rfl := Option.some.inj hs
      exact ⟨es', hslave, hcount⟩
    | loop =>
      obtain ⟨s₁, hloop, rfl⟩ := Option.map_eq_some_iff.mp hs
      cases hpc : s.pc with
      | handle | arm =>
        simp only [Mcu.loop, hpc, Option.map_eq_some_iff] at hloop
        obtain ⟨slave, hstep, rfl⟩ := hloop
        exact ⟨_, hslave.snoc trivial hstep, by simp [hcount]⟩
      | _ =>
        simp only [Mcu.loop, hpc, Option.some.injEq] at hloop
        subst hloop
        exact ⟨es', hslave, hcount⟩
    | txis | stop =>
      simp only [mcuStep, Option.map_eq_some_iff] at hs
      obtain ⟨slave, hstep, rfl⟩ := hs
      exact ⟨_, hslave.snoc trivial hstep, by simp [hcount]⟩

/-- **No interrupt is unaccounted for.**  Wherever the interrupts hit the main loop, the tick
machine is in the state after the ticks handled, and its I2C slave is in a state of the run without
flags.  There have been as many interrupts of the timer as were handled, were merged with the one
before, or are waiting; and the master has read as many frames as were printed, were merged with the
one before, or are waiting, though the frame printed may be one that was built since.  The main loop
can always go on. -/
theorem interrupts_accounted {ok : Mcu → McuEvent → Prop}
    (hrun : Trace (mcuStep table) ok (Mcu.init table) es s) :
    s.slave.stm32 = Stm32.afterTicks table s.handled ∧
      (∃ es', Trace (slaveStep table) (fun _ _ => True) (SlaveRun.init table) es' s.slave ∧
        es'.count .tick = s.handled) ∧
      es.count .timer = s.handled + s.tick.merged +
        (s.tick.isSet.toNat + if s.pc = .handle then 1 else 0) ∧
      s.slave.framesRead.length = s.printed.length + s.txDone.merged +
        (s.txDone.isSet.toNat + (if s.pc = .printTx then 1 else 0) +
          if s.slave.i2c.xferCount = 0 then 1 else 0) ∧
      (s.loop table).isSome := by
  have hinv : McuInv table s :=
    hrun.invariant (mcuInv_init table) fun _ _ _ h _ hs => h.step hs
  refine ⟨hinv.stm32, slave_of_trace hrun, ?_, ?_, ?_⟩
  · rw [← raised_of_trace hrun, s.tick.account, hinv.taken]
    omega
  · rw [hinv.tx.read, s.txDone.account, hinv.takenTx]
    omega
  · have harming := hinv.arming
    cases hpc : s.pc with
    | handle | arm =>
      simp only [hpc, reduceCtorEq, iff_false, iff_true] at harming
      simp [Mcu.loop, hpc, slaveStep, harming]
    | _ => simp [Mcu.loop, hpc]

/-- A tick is merged with the one before it when the main loop stands still. -/
theorem interrupts_accounted_merged :
    ∃ s, s.handled = 1 ∧ s.tick.merged = 1 ∧
      Trace (mcuStep gVehicles) (fun _ _ => True) (Mcu.init gVehicles)
        ([.timer, .timer] ++ List.replicate 4 .loop) s ∧
      s.slave.stm32 = Stm32.afterTicks gVehicles 1 := by
  have hend : (replayEvents (mcuStep gVehicles) (fun _ _ => True) (Mcu.init gVehicles)
      ([.timer, .timer] ++ List.replicate 4 .loop)).map (fun s => (s.handled, s.tick.merged)) =
      some (1, 1) := by decide +kernel
  obtain ⟨s, hs, hend⟩ := Option.map_eq_some_iff.mp hend
  obtain ⟨hhandled, hmerged⟩ := Prod.mk.inj hend
  have hrun := Trace.of_replayEvents hs
  exact ⟨s, hhandled, hmerged, hrun, hhandled ▸ (interrupts_accounted hrun).1⟩

/-! ## A main loop that keeps up -/

/-- How many steps the main loop takes at most before it has cleared `g_tick`, if this is set. -/
def LoopPc.distance : LoopPc → ℕ
  | clearTick => 1
  | testTick => 2
  | printTx => 3
  | clearTx => 4
  | testTx => 5
  | arm => 6
  | handle => 7

/-- No interrupt has been merged, and the loop clears the flag within seven steps. -/
structure PaceInv (s : Mcu) : Prop where
  merged : s.tick.merged = 0
  soon : s.tick.isSet → s.sinceTimer + s.pc.distance ≤ 7

/-- A step of the main loop brings it closer to the point where the flag is cleared. -/
lemma Mcu.loop_closer (hs : s.loop table = some s') :
    s'.sinceTimer = s.sinceTimer ∧ s'.tick.merged = s.tick.merged ∧
      (s'.tick.isSet → s.tick.isSet ∧ s'.pc.distance < s.pc.distance) := by
  cases hpc : s.pc with
  | handle =>
    simp only [Mcu.loop, hpc, Option.map_eq_some_iff] at hs
    obtain ⟨slave, -, rfl⟩ := hs
    refine ⟨rfl, rfl, fun hset => ⟨hset, ?_⟩⟩
    cases slave.arming <;> simp [LoopPc.distance]
  | arm =>
    simp only [Mcu.loop, hpc, Option.map_eq_some_iff] at hs
    obtain ⟨slave, -, rfl⟩ := hs
    exact ⟨rfl, rfl, fun hset => ⟨hset, by simp [LoopPc.distance]⟩⟩
  | testTx =>
    simp only [Mcu.loop, hpc, Option.some.injEq] at hs
    subst hs
    refine ⟨rfl, rfl, fun hset => ⟨hset, ?_⟩⟩
    cases s.txDone.isSet <;> simp [LoopPc.distance]
  | testTick =>
    simp only [Mcu.loop, hpc, Option.some.injEq] at hs
    subst hs
    exact ⟨rfl, rfl, fun hset => ⟨hset, by simp [LoopPc.distance, show s.tick.isSet from hset]⟩⟩
  | clearTick =>
    simp only [Mcu.loop, hpc, Option.some.injEq] at hs
    subst hs
    exact ⟨rfl, rfl, fun hset => absurd hset (by simp)⟩
  | clearTx | printTx =>
    simp only [Mcu.loop, hpc, Option.some.injEq] at hs
    subst hs
    exact ⟨rfl, rfl, fun hset => ⟨hset, by simp [LoopPc.distance]⟩⟩

lemma LoopPc.distance_mem (pc : LoopPc) : 1 ≤ pc.distance ∧ pc.distance ≤ 7 := by
  cases pc <;> simp [distance]

/-- Every step of a loop that keeps up keeps this. -/
lemma PaceInv.step (h : PaceInv s) (hok : Paced 7 s e) (hs : mcuStep table s e = some s') :
    PaceInv s' := by
  cases e with
  | loop =>
    obtain ⟨s₁, hloop, rfl⟩ := Option.map_eq_some_iff.mp hs
    obtain ⟨hsince, hmerged, hcloser⟩ := Mcu.loop_closer hloop
    refine ⟨hmerged.trans h.merged, fun hset => ?_⟩
    obtain ⟨hset', hlt⟩ := hcloser hset
    have hle := h.soon hset'
    simp only [hsince]
    omega
  | timer =>
    obtain rfl := Option.some.inj hs
    obtain ⟨hpos, hle⟩ := s.pc.distance_mem
    -- the loop has cleared the flag since the last interrupt
    have hclear : s.tick.isSet = false := by
      by_contra hset
      rw [Bool.not_eq_false] at hset
      have haccount := s.tick.account
      rw [hset, Bool.toNat_true] at haccount
      have hsoon := h.soon hset
      rcases hok rfl with hzero | hseven <;> omega
    exact ⟨(s.tick.merged_raise hclear).trans h.merged, fun _ => by simpa using hle⟩
  | txis | stop =>
    simp only [mcuStep, Option.map_eq_some_iff] at hs
    obtain ⟨slave, -, rfl⟩ := hs
    exact ⟨h.merged, h.soon⟩

/-- **A main loop that keeps up loses no tick.**  If the main loop takes at least seven steps
between two interrupts of the timer, the tick machine is in the state after all the interrupts but
those that are waiting: one in the flag, and one before it that is about to be handled. -/
theorem paced_loop_loses_no_tick (hrun : Trace (mcuStep table) (Paced 7) (Mcu.init table) es s) :
    s.slave.stm32 = Stm32.afterTicks table (es.count .timer -
      (s.tick.isSet.toNat + if s.pc = .handle then 1 else 0)) := by
  have hinv : McuInv table s :=
    hrun.invariant (mcuInv_init table) fun _ _ _ h _ hs => h.step hs
  have hpace : PaceInv s :=
    hrun.invariant ⟨rfl, by simp [Mcu.init, IrqFlag.zero]⟩ fun _ _ _ h hok hs => h.step hok hs
  have haccount := s.tick.account
  rw [raised_of_trace hrun, hinv.taken, hpace.merged, Nat.add_zero] at haccount
  rw [hinv.stm32]
  congr 1
  omega

/-- Two ticks with a pass of the main loop in between. -/
theorem paced_loop_loses_no_tick_two :
    ∃ s, s.slave.stm32 = Stm32.afterTicks gVehicles 2 ∧
      Trace (mcuStep gVehicles) (Paced 7) (Mcu.init gVehicles)
        ([.timer] ++ List.replicate 8 .loop ++ [.timer] ++ List.replicate 4 .loop) s := by
  have hend : (replayEvents (mcuStep gVehicles) (Paced 7) (Mcu.init gVehicles)
      ([.timer] ++ List.replicate 8 .loop ++ [.timer] ++ List.replicate 4 .loop)).map
        (fun s => (s.tick.isSet, s.pc)) = some (false, .testTick) := by decide +kernel
  obtain ⟨s, hs, hend⟩ := Option.map_eq_some_iff.mp hend
  obtain ⟨hset, hpc⟩ := Prod.mk.inj hend
  have hrun := Trace.of_replayEvents hs
  have hstate := paced_loop_loses_no_tick hrun
  rw [hset, hpc] at hstate
  exact ⟨s, hstate, hrun⟩

end Firmware

end ParkingSystem
