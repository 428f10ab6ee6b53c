import ParkingSystem.Common

/-!
# The GPS frame of the STM32

`main.c` of the STM32 keeps a table of simulated vehicles and lays out one of them as a frame of
48 bytes, which the I2C slave sends as it stands.  `buildFrame` is `build_frame`, and
`GpsFrame.bytes` the packed layout of `gps_frame_t`.
-/

namespace ParkingSystem

open Foundation

/-- `vehicle_t`: one row per simulated car. -/
structure Vehicle where
  customerId : Bytes
  latitude : Bytes
  longitude : Bytes
  city : Bytes
deriving DecidableEq

/-- The vehicle table `g_vehicles`, which has at least one row. -/
structure VehicleTable where
  rows : List Vehicle
  rows_ne_nil : rows ≠ []

/-- `NUM_VEHICLES`. -/
def VehicleTable.numVehicles (table : VehicleTable) : ℕ := table.rows.length

lemma VehicleTable.numVehicles_pos (table : VehicleTable) : 0 < table.numVehicles :=
  List.length_pos_iff.mpr table.rows_ne_nil

/-- `g_vehicles[idx % NUM_VEHICLES]`. -/
def VehicleTable.vehicle (table : VehicleTable) (idx : ℕ) : Vehicle :=
  table.rows.get ⟨idx % table.numVehicles, Nat.mod_lt _ table.numVehicles_pos⟩

/-- Every vehicle that the table yields is one of its rows. -/
lemma VehicleTable.vehicle_mem (table : VehicleTable) (idx : ℕ) :
    table.vehicle idx ∈ table.rows := List.get_mem _ _

/-- `g_vehicles`. -/
def gVehicles : VehicleTable where
  rows := [
    ⟨ascii "CAR-001", ascii "32.0853", ascii "34.7817", ascii "TelAviv"⟩,
    ⟨ascii "CAR-002", ascii "31.7683", ascii "35.2137", ascii "Jerusalem"⟩,
    ⟨ascii "CAR-003", ascii "32.7940", ascii "34.9896", ascii "Haifa"⟩,
    ⟨ascii "CAR-004", ascii "31.2518", ascii "34.7913", ascii "BeerSheva"⟩]
  rows_ne_nil := by simp

/-- `FRAME_SIZE`. -/
abbrev frameSize : ℕ := 48

instance neZeroEight : NeZero 8 := ⟨by decide⟩

instance neZeroFifteen : NeZero 15 := ⟨by decide⟩

instance neZeroSixteen : NeZero 16 := ⟨by decide⟩

/-- `gps_frame_t`: the packed frame, byte offsets 0, 1, 16, 24 and 32. -/
structure GpsFrame where
  type : UInt8
  customerId : CharBuf 15
  latitude : CharBuf 8
  longitude : CharBuf 8
  city : CharBuf 16
deriving DecidableEq

/-- The bytes of a frame as they lie in memory. -/
def GpsFrame.bytes (f : GpsFrame) : Bytes :=
  f.type :: (f.customerId.bytes ++ (f.latitude.bytes ++ (f.longitude.bytes ++ f.city.bytes)))

/-- A frame has 48 bytes. -/
lemma GpsFrame.length_bytes (f : GpsFrame) : f.bytes.length = frameSize := by
  simp [GpsFrame.bytes, f.customerId.length_eq, f.latitude.length_eq, f.longitude.length_eq,
    f.city.length_eq]

/-- `build_frame`: the frame is zeroed and filled from the current vehicle and the type byte. -/
def buildFrame (table : VehicleTable) (vehicleIdx : ℕ) (type : MsgType) : GpsFrame where
  type := type.byte
  customerId := strncpy 15 (table.vehicle vehicleIdx).customerId
  latitude := strncpy 8 (table.vehicle vehicleIdx).latitude
  longitude := strncpy 8 (table.vehicle vehicleIdx).longitude
  city := strncpy 16 (table.vehicle vehicleIdx).city

@[simp] lemma buildFrame_type (table : VehicleTable) (vehicleIdx : ℕ) (type : MsgType) :
    (buildFrame table vehicleIdx type).type = type.byte := rfl

end ParkingSystem
