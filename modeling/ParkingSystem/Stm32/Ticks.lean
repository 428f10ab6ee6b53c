import ParkingSystem.Stm32.Frame

/-!
# The tick machine of the STM32

The main loop of `main.c` handles one timer tick a second.  It exposes a start frame, counts the
parking time, exposes an end frame of the same vehicle, waits, and goes on to the next vehicle.
The I2C slave is armed with the current frame at all times, so that the frame in the state is what
the master reads.
-/

namespace ParkingSystem

open Foundation

/-- `PARK_DURATION_SEC`. -/
abbrev parkDurationSec : ℕ := 10

/-- `WAIT_BETWEEN_SEC`. -/
abbrev waitBetweenSec : ℕ := 5

/-- `app_state_t`. -/
inductive AppState where
  /-- `STATE_PARKING_START`. -/
  | parkingStart
  /-- `STATE_PARKING_ACTIVE`. -/
  | parkingActive
  /-- `STATE_PARKING_END`. -/
  | parkingEnd
  /-- `STATE_PARKING_WAIT`. -/
  | parkingWait
deriving DecidableEq

/-- The variables of the main loop. -/
structure Stm32 where
  /-- `g_park_state`. -/
  parkState : AppState
  /-- `g_sec_count`, which is reset long before it could overflow. -/
  secCount : ℕ
  /-- `g_vehicle_idx`, an unsigned number of 32 bits. -/
  vehicleIdx : ℕ
  /-- `g_frame`. -/
  frame : GpsFrame
deriving DecidableEq

/-- The state when the main loop is entered: a first start frame has been prepared. -/
def Stm32.powerOn (table : VehicleTable) : Stm32 :=
  ⟨.parkingStart, 0, 0, buildFrame table 0 .msgStart⟩

/-- The `switch` of the main loop, executed once for each tick. -/
def Stm32.onTick (table : VehicleTable) (s : Stm32) : Stm32 :=
  match s.parkState with
  | .parkingStart =>
    { s with
      frame := buildFrame table s.vehicleIdx .msgStart
      secCount := 0
      parkState := .parkingActive }
  | .parkingActive =>
    { s with
      secCount := s.secCount + 1
      parkState := if parkDurationSec ≤ s.secCount + 1 then .parkingEnd else .parkingActive }
  | .parkingEnd =>
    { s with
      frame := buildFrame table s.vehicleIdx .msgEnd
      secCount := 0
      parkState := .parkingWait }
  | .parkingWait =>
    if waitBetweenSec ≤ s.secCount + 1 then
      { s with
        secCount := 0
        vehicleIdx := (s.vehicleIdx + 1) % 2 ^ 32
        parkState := .parkingStart }
    else { s with secCount := s.secCount + 1 }

/-- Where the machine is within the parking cycle of the vehicle number `idx`: the frame exposed
is that of the vehicle, and the next frame built will be, too, until the end frame is exposed. -/
inductive Stm32.InCycle (table : VehicleTable) (idx : ℕ) (s : Stm32) : MsgType → Prop
  /-- The start frame is exposed; the vehicle is parked. -/
  | parked : s.frame = buildFrame table idx .msgStart → s.vehicleIdx = idx →
      s.parkState ≠ .parkingWait → InCycle table idx s .msgStart
  /-- The end frame is exposed; the machine waits for the next vehicle. -/
  | ended : s.frame = buildFrame table idx .msgEnd →
      s.parkState = .parkingWait ∨ s.parkState = .parkingStart → InCycle table idx s .msgEnd

section Cycle

variable {table : VehicleTable} {idx : ℕ} {s : Stm32} {type : MsgType}

/-- The frame exposed is that of the vehicle. -/
lemma Stm32.InCycle.frame_eq (h : s.InCycle table idx type) :
    s.frame = buildFrame table idx type := by
  cases h with
  | parked hframe _ _ => exact hframe
  | ended hframe _ => exact hframe

/-- The machine starts in the cycle of the first vehicle. -/
lemma Stm32.inCycle_powerOn (table : VehicleTable) :
    (Stm32.powerOn table).InCycle table 0 .msgStart :=
  .parked rfl rfl (by simp [Stm32.powerOn])

/-- What one tick can do: keep the frame, end the cycle of the vehicle, or begin the next cycle. -/
lemma Stm32.onTick_cases (h : s.InCycle table idx type) :
    ((s.onTick table).InCycle table idx type) ∨
    (type = .msgStart ∧ (s.onTick table).InCycle table idx .msgEnd) ∨
    (type = .msgEnd ∧ (s.onTick table).InCycle table s.vehicleIdx .msgStart) := by
  unfold Stm32.onTick
  cases h with
  | parked hframe hidx hstate =>
    cases hs : s.parkState with
    | parkingStart => exact Or.inl (.parked (by simp [hidx]) hidx (by simp))
    | parkingActive =>
      refine Or.inl (.parked hframe hidx ?_)
      simp only
      split_ifs <;> simp
    | parkingEnd => exact Or.inr (Or.inl ⟨rfl, .ended (by simp [hidx]) (Or.inl rfl)⟩)
    | parkingWait => exact absurd hs hstate
  | ended hframe hstate =>
    rcases hstate with hs | hs
    · rw [hs]
      left
      simp only
      split_ifs
      · exact .ended hframe (Or.inr rfl)
      · exact .ended hframe (Or.inl rfl)
    · rw [hs]
      exact Or.inr (Or.inr ⟨rfl, .parked rfl rfl (by simp)⟩)

end Cycle

end ParkingSystem
