import ParkingSystem.Foundation.Text

/-!
# Shared definitions

The field sizes, limits and structures of `common/common.h`: the pricing rows and the completed
parking records of the shared memory segment, and the decoded wire message.  A `char` array field
is a `CharBuf`, so that a record with an unterminated string cannot be built; the two values of a
message's type byte are the two constructors of `MsgType`.  A `double` is a rational number.
-/

namespace ParkingSystem

open Foundation

/-- `SHM_MAX_CITIES`, the number of city rows in shared memory. -/
abbrev shmMaxCities : ℕ := 64

/-- `SHM_MAX_RECORDS`, the ring-buffer size for session records. -/
abbrev shmMaxRecords : ℕ := 256

/-- `MAX_CLIENTS`. -/
abbrev maxClients : ℕ := 64

/-- `BUF_SIZE` of the server. -/
abbrev bufSize : ℕ := 512

/-- `CITY_NAME_LEN`. -/
abbrev cityNameLen : ℕ := 64

/-- `CUSTOMER_ID_LEN`. -/
abbrev customerIdLen : ℕ := 64

instance neZeroCityNameLen : NeZero cityNameLen := ⟨by decide⟩

/-! ## Bytes of the text formats -/

/-- The field separator of the wire format. -/
abbrev bar : UInt8 := 124

/-- The separator of latitude and longitude, and of city and price. -/
abbrev comma : UInt8 := 44

/-- The first byte of a comment line of the prices file. -/
abbrev hash : UInt8 := 35

/-- The first byte of a line of the prices file that removes a city. -/
abbrev dash : UInt8 := 45

/-- The type byte of a start message. -/
abbrev byteS : UInt8 := 83

/-- The type byte of an end message. -/
abbrev byteE : UInt8 := 69

/-- The type of a message: `MSG_START` or `MSG_END`. -/
inductive MsgType where
  /-- `MSG_START`. -/
  | msgStart
  /-- `MSG_END`. -/
  | msgEnd
deriving DecidableEq

/-- The type byte of a message. -/
def MsgType.byte : MsgType → UInt8
  | msgStart => byteS
  | msgEnd => byteE

@[simp] lemma byteE_ne_byteS : byteE ≠ byteS := by decide

@[simp] lemma MsgType.byte_eq_byteS_iff {type : MsgType} : type.byte = byteS ↔ type = msgStart := by
  cases type <;> simp [MsgType.byte]

@[simp] lemma MsgType.byte_eq_byteE_iff {type : MsgType} : type.byte = byteE ↔ type = msgEnd := by
  cases type <;> simp [MsgType.byte, byteE_ne_byteS.symm]

/-! ## Shared structures -/

/-- `city_price_t`: one row in the city-pricing table. -/
structure CityPrice where
  city : CharBuf cityNameLen
  pricePerMinute : ℚ
  /-- A valid entry, as opposed to a logically deleted one. -/
  active : Bool
deriving DecidableEq

/-- `parking_record_t`: a completed parking session. -/
structure ParkingRecord where
  customerId : CharBuf customerIdLen
  startLat : ℚ
  startLon : ℚ
  endLat : ℚ
  endLon : ℚ
  startTime : ℤ
  endTime : ℤ
  totalFee : ℚ
  city : CharBuf cityNameLen
  /-- Set when the end message is processed. -/
  complete : Bool
deriving DecidableEq

/-- A zeroed `parking_record_t`. -/
def ParkingRecord.zero : ParkingRecord where
  customerId := strncpy customerIdLen []
  startLat := 0
  startLon := 0
  endLat := 0
  endLon := 0
  startTime := 0
  endTime := 0
  totalFee := 0
  city := strncpy cityNameLen []
  complete := false

/-- `wire_msg_t`: a decoded message from a TCP client. -/
structure WireMsg where
  type : MsgType
  customerId : CharBuf customerIdLen
  lat : ℚ
  lon : ℚ
  city : CharBuf cityNameLen
deriving DecidableEq

/-- The pricing table of the shared segment: `price_count` and `prices`. -/
structure PriceArea where
  priceCount : ℕ
  prices : List CityPrice
  /-- The count never exceeds the array. -/
  priceCount_le : priceCount ≤ shmMaxCities
  /-- The array has its declared size. -/
  length_prices : prices.length = shmMaxCities
deriving DecidableEq

/-- A zeroed `city_price_t`. -/
def CityPrice.zero : CityPrice := ⟨strncpy cityNameLen [], 0, false⟩

/-- The pricing table of a newly created segment, which the kernel fills with zeros. -/
def PriceArea.zero : PriceArea :=
  ⟨0, List.replicate shmMaxCities CityPrice.zero, Nat.zero_le _, List.length_replicate ..⟩

/-- A new table has room. -/
lemma PriceArea.priceCount_zero_lt : PriceArea.zero.priceCount < shmMaxCities := by decide

end ParkingSystem
