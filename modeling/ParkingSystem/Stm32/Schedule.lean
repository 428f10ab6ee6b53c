import ParkingSystem.Stm32.Ticks

/-!
# The schedule of the STM32

The tick machine repeats a cycle of `cycleTicks` ticks.  In the cycle number `k` the start frame of
the vehicle number `k` is exposed for the first eleven ticks and its end frame for the other six.
`Stm32.inSchedule` is the state at each place of a cycle.  The vehicle index moves on with the last
tick of the cycle, when the end frame of the old vehicle is still exposed; no frame is built from
the new index before the next cycle begins.
-/

namespace ParkingSystem

open Foundation

/-- The ticks of one parking cycle: one that builds the start frame, the parking time, one that
builds the end frame, and the waiting time. -/
abbrev cycleTicks : ℕ := parkDurationSec + waitBetweenSec + 2

lemma cycleTicks_eq : cycleTicks = 17 := rfl

/-- The state after a number of handled ticks. -/
def Stm32.afterTicks (table : VehicleTable) : ℕ → Stm32
  | 0 => powerOn table
  | n + 1 => (afterTicks table n).onTick table

/-- The frame exposed at the place `r` of the cycle number `k`. -/
def cycleFrame (table : VehicleTable) (k r : ℕ) : GpsFrame :=
  buildFrame table (k % table.numVehicles) (if r ≤ parkDurationSec then .msgStart else .msgEnd)

/-- The frames exposed in the cycle number `k`, one for each tick. -/
def cycleFrames (table : VehicleTable) (k : ℕ) : List GpsFrame :=
  List.replicate (parkDurationSec + 1) (buildFrame table (k % table.numVehicles) .msgStart) ++
    List.replicate (waitBetweenSec + 1) (buildFrame table (k % table.numVehicles) .msgEnd)

/-- The frames exposed after each of the first `n` ticks. -/
def exposures (table : VehicleTable) (n : ℕ) : List GpsFrame :=
  (List.range n).map fun i => (Stm32.afterTicks table (i + 1)).frame

/-- The state at the place `r` of the cycle number `k`. -/
def Stm32.inSchedule (table : VehicleTable) (k r : ℕ) : Stm32 where
  parkState :=
    if r < parkDurationSec then .parkingActive
    else if r = parkDurationSec then .parkingEnd
    else if r < cycleTicks - 1 then .parkingWait
    else .parkingStart
  secCount :=
    if r ≤ parkDurationSec then r
    else if r < cycleTicks - 1 then r - (parkDurationSec + 1)
    else 0
  vehicleIdx := if r < cycleTicks - 1 then k else (k + 1) % 2 ^ 32
  frame := cycleFrame table k r

section Schedule

variable {table : VehicleTable} {k r n : ℕ}

/-- Only the row of the table matters to a frame. -/
lemma buildFrame_mod (table : VehicleTable) (k : ℕ) (type : MsgType) :
    buildFrame table (k % table.numVehicles) type = buildFrame table k type := by
  have hrow : table.vehicle (k % table.numVehicles) = table.vehicle k := by
    unfold VehicleTable.vehicle
    simp only [Nat.mod_mod]
  unfold buildFrame
  rw [hrow]

/-- The first tick begins the first cycle. -/
lemma Stm32.onTick_powerOn (table : VehicleTable) :
    (powerOn table).onTick table = inSchedule table 0 0 := by
  simp [powerOn, onTick, inSchedule, cycleFrame]

/-- A tick within a cycle moves on by one place. -/
lemma Stm32.onTick_inSchedule (h : r + 1 < cycleTicks) :
    (inSchedule table k r).onTick table = inSchedule table k (r + 1) := by
  have hcases : r < 9 ∨ r = 9 ∨ r = 10 ∨ 11 ≤ r ∧ r < 15 ∨ r = 15 := by
    simp only [cycleTicks, parkDurationSec, waitBetweenSec] at h
    omega
  rcases hcases with hr | rfl | rfl | ⟨hlo, hhi⟩ | rfl
  · -- parking
    have hlt : r < 10 := by omega
    have hlt' : r + 1 < 10 := by omega
    have hle : ¬ 10 ≤ r + 1 := by omega
    have hfirst : r ≤ 10 ∧ r + 1 ≤ 10 ∧ r < 16 ∧ r + 1 < 16 := by omega
    simp [inSchedule, onTick, cycleFrame, cycleTicks, parkDurationSec, waitBetweenSec, hlt, hlt',
      hle, hfirst]
  · simp [inSchedule, onTick, cycleFrame, cycleTicks, parkDurationSec, waitBetweenSec]
  · simp [inSchedule, onTick, cycleFrame, cycleTicks, parkDurationSec, waitBetweenSec,
      buildFrame_mod]
  · -- waiting
    have hpark : ¬ r < 10 ∧ r ≠ 10 ∧ ¬ r ≤ 10 ∧ ¬ r + 1 < 10 ∧ r + 1 ≠ 10 ∧ ¬ r + 1 ≤ 10 := by omega
    have hwait : r < 16 ∧ r + 1 < 16 ∧ r - 10 < 5 ∧ r - 11 + 1 = r - 10 := by omega
    simp [inSchedule, onTick, cycleFrame, cycleTicks, parkDurationSec, waitBetweenSec, hpark, hwait]
  · simp [inSchedule, onTick, cycleFrame, cycleTicks, parkDurationSec, waitBetweenSec]

/-- The last tick of a cycle is followed by the first one of the next cycle. -/
lemma Stm32.onTick_inSchedule_last (h : k + 1 < 2 ^ 32) :
    (inSchedule table k (cycleTicks - 1)).onTick table = inSchedule table (k + 1) 0 := by
  have hmod : (k + 1) % 2 ^ 32 = k + 1 := Nat.mod_eq_of_lt h
  simp only [Nat.reducePow] at hmod
  simp [inSchedule, onTick, cycleFrame, cycleTicks, parkDurationSec, waitBetweenSec, hmod,
    buildFrame_mod]

/-- **The machine keeps to the schedule** until the vehicle index overflows. -/
theorem Stm32.afterTicks_succ (hn : n < cycleTicks * 2 ^ 32) :
    afterTicks table (n + 1) = inSchedule table (n / cycleTicks) (n % cycleTicks) := by
  induction n with
  | zero => exact onTick_powerOn table
  | succ n ih =>
    rw [afterTicks, ih (by omega)]
    by_cases hlast : n % cycleTicks + 1 < cycleTicks
    · have hnext : (n + 1) / cycleTicks = n / cycleTicks ∧
          (n + 1) % cycleTicks = n % cycleTicks + 1 := by
        rw [cycleTicks_eq] at hlast ⊢
        omega
      rw [onTick_inSchedule hlast, hnext.1, hnext.2]
    · have hr : n % cycleTicks = cycleTicks - 1 := by
        rw [cycleTicks_eq] at hlast ⊢
        omega
      have hnext : (n + 1) / cycleTicks = n / cycleTicks + 1 ∧ (n + 1) % cycleTicks = 0 ∧
          n / cycleTicks + 1 < 2 ^ 32 := by
        rw [cycleTicks_eq] at hr hn ⊢
        omega
      rw [hr, onTick_inSchedule_last hnext.2.2, hnext.1, hnext.2.1]

/-- The frames of the first cycles, place by place. -/
lemma flatMap_cycleFrames (table : VehicleTable) (m : ℕ) :
    (List.range m).flatMap (cycleFrames table) =
      (List.range (cycleTicks * m)).map fun i =>
        cycleFrame table (i / cycleTicks) (i % cycleTicks) := by
  induction m with
  | zero => rfl
  | succ m ih =>
    have hcycle : cycleFrames table m = (List.range cycleTicks).map (cycleFrame table m) := rfl
    rw [List.range_succ, List.flatMap_append, ih, List.flatMap_singleton, Nat.mul_succ,
      List.range_add, List.map_append, List.map_map, hcycle]
    congr 1
    apply List.map_congr_left
    intro r hr
    have hr : r < cycleTicks := List.mem_range.mp hr
    simp only [Function.comp_apply]
    rw [Nat.mul_add_div (by norm_num), Nat.mul_add_mod, Nat.div_eq_of_lt hr, Nat.mod_eq_of_lt hr,
      Nat.add_zero]

/-- **The exposed frames.**  After `n` ticks the frame exposed is the start or the end frame of the
vehicle whose turn it is.  From the first tick on, the frames exposed are those of the cycles, one
after the other: the start frame of a vehicle for eleven ticks, its end frame for six, and then the
next vehicle of the table. -/
theorem exposed_frames (hpos : 1 ≤ n) (hn : n < cycleTicks * 2 ^ 32) :
    (Stm32.afterTicks table n).frame =
        buildFrame table ((n - 1) / cycleTicks % table.numVehicles)
          (if (n - 1) % cycleTicks ≤ 10 then .msgStart else .msgEnd) ∧
      exposures table n =
        ((List.range ((n - 1) / cycleTicks + 1)).flatMap (cycleFrames table)).take n := by
  obtain ⟨n, rfl⟩ : ∃ m, n = m + 1 := ⟨n - 1, by omega⟩
  rw [Nat.add_sub_cancel]
  constructor
  · rw [Stm32.afterTicks_succ (by omega)]
    rfl
  · have hle : n + 1 ≤ cycleTicks * (n / cycleTicks + 1) :=
      Nat.lt_mul_div_succ n (show 0 < cycleTicks by norm_num)
    rw [flatMap_cycleFrames, ← List.map_take, List.take_range, min_eq_left hle]
    unfold exposures
    apply List.map_congr_left
    intro i hi
    have hi : i < n + 1 := List.mem_range.mp hi
    rw [Stm32.afterTicks_succ (by omega)]
    rfl

/-- The second vehicle of the firmware leaves after eleven ticks. -/
theorem exposed_frames_second_vehicle :
    (Stm32.afterTicks gVehicles 29).frame = buildFrame gVehicles 1 .msgEnd :=
  (exposed_frames (by norm_num) (by norm_num)).1

end Schedule

end ParkingSystem
