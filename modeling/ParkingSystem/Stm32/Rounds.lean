import ParkingSystem.Stm32.Schedule

/-!
# The schedule without end

`g_vehicle_idx` is an unsigned number of 32 bits, which starts again at zero after `2 ^ 32` cycles.
The tick machine keeps to its schedule over the overflow, with the index taken modulo `2 ^ 32`.  The
vehicles go on to take turns in the order of the table exactly when the number of rows divides
`2 ^ 32`: otherwise the round during the overflow is cut short.
-/

namespace ParkingSystem

open Foundation

section Rounds

variable {table : VehicleTable} {k n : ℕ}

/-- The last tick of a cycle is followed by the first one of the next cycle, also when the index
overflows. -/
lemma Stm32.onTick_inSchedule_overflow (table : VehicleTable) (k : ℕ) :
    (inSchedule table k (cycleTicks - 1)).onTick table =
      inSchedule table ((k + 1) % 2 ^ 32) 0 := by
  simp [inSchedule, onTick, cycleFrame, cycleTicks, parkDurationSec, waitBetweenSec, buildFrame_mod]

/-- **The state at any time.**  After the first tick the machine is in its schedule, in the cycle
whose number is taken modulo `2 ^ 32`. -/
lemma Stm32.afterTicks_succ_mod (table : VehicleTable) (n : ℕ) :
    afterTicks table (n + 1) = inSchedule table (n / cycleTicks % 2 ^ 32) (n % cycleTicks) := by
  induction n with
  | zero => exact onTick_powerOn table
  | succ n ih =>
    rw [afterTicks, ih]
    by_cases hlast : n % cycleTicks + 1 < cycleTicks
    · have hnext : (n + 1) / cycleTicks = n / cycleTicks ∧
          (n + 1) % cycleTicks = n % cycleTicks + 1 := by
        rw [cycleTicks_eq] at hlast ⊢
        omega
      rw [onTick_inSchedule hlast, hnext.1, hnext.2]
    · have hr : n % cycleTicks = cycleTicks - 1 := by
        rw [cycleTicks_eq] at hlast ⊢
        omega
      have hnext : (n + 1) / cycleTicks = n / cycleTicks + 1 ∧ (n + 1) % cycleTicks = 0 := by
        rw [cycleTicks_eq] at hr ⊢
        omega
      rw [hr, onTick_inSchedule_overflow, hnext.1, hnext.2, Nat.mod_add_mod]

/-- The type of the frame exposed at a place of a cycle. -/
def typeAt (r : ℕ) : MsgType := if r ≤ parkDurationSec then .msgStart else .msgEnd

/-- The rows of the table give different frames. -/
def VehicleTable.DistinctFrames (table : VehicleTable) : Prop :=
  ∀ i < table.numVehicles, ∀ j < table.numVehicles,
    buildFrame table i .msgStart = buildFrame table j .msgStart → i = j

/-- **The vehicles take turns for ever if and only if their number divides `2 ^ 32`.**  After any
number of ticks, the frame exposed is that of the vehicle number `n / 17 % 2 ^ 32`, for eleven ticks
with the start type and for six with the end type.  If the rows of the table give different frames,
this is the vehicle whose turn it is in the order of the table, at all times, exactly when the
number of rows divides `2 ^ 32`. -/
theorem exposed_frames_forever (table : VehicleTable) :
    (∀ n, (Stm32.afterTicks table (n + 1)).frame =
        buildFrame table (n / cycleTicks % 2 ^ 32 % table.numVehicles) (typeAt (n % cycleTicks))) ∧
      (table.DistinctFrames →
        ((∀ n, (Stm32.afterTicks table (n + 1)).frame =
            buildFrame table (n / cycleTicks % table.numVehicles) (typeAt (n % cycleTicks))) ↔
          table.numVehicles ∣ 2 ^ 32)) := by
  have hframe : ∀ n, (Stm32.afterTicks table (n + 1)).frame =
      buildFrame table (n / cycleTicks % 2 ^ 32 % table.numVehicles)
        (typeAt (n % cycleTicks)) := by
    intro n
    rw [Stm32.afterTicks_succ_mod]
    rfl
  refine ⟨hframe, fun hdistinct => ⟨?_, ?_⟩⟩
  · intro hturns
    -- the first frame after the overflow is that of the first row
    have hoverflow := (hframe (2 ^ 32 * cycleTicks)).symm.trans (hturns (2 ^ 32 * cycleTicks))
    rw [Nat.mul_div_cancel _ (by norm_num), Nat.mul_mod_left, Nat.mod_self, Nat.zero_mod]
      at hoverflow
    have hrow := hdistinct 0 table.numVehicles_pos _ (Nat.mod_lt _ table.numVehicles_pos) hoverflow
    exact Nat.dvd_of_mod_eq_zero hrow.symm
  · intro hdvd n
    rw [hframe, Nat.mod_mod_of_dvd _ hdvd]

/-- The four cars of the firmware take turns for ever: after the step counter has overflown it is
the turn of the second one. -/
theorem exposed_frames_forever_firmware :
    (Stm32.afterTicks gVehicles (cycleTicks * (2 ^ 32 + 1) + 1)).frame =
      buildFrame gVehicles 1 .msgStart := by
  have hdistinct : gVehicles.DistinctFrames := by
    unfold VehicleTable.DistinctFrames
    decide
  have hturns := ((exposed_frames_forever gVehicles).2 hdistinct).mpr (by decide)
  have hcycle : 0 < cycleTicks := by decide
  rw [hturns, Nat.mul_div_cancel_left _ hcycle, Nat.mul_mod_right]
  rfl

end Rounds

end ParkingSystem
