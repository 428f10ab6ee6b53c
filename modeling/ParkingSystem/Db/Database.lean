import ParkingSystem.Foundation.Calendar
import ParkingSystem.Common

/-!
# The database

The two tables of the SQLite database, as far as the statements of `Database` change them when
they succeed.  The table `prices` has at most one row for a city, since the column is `UNIQUE`, so
it is a partial function.  The table `customer_data` grows by one row for each record; what its
columns hold is `customerRow`.
-/

namespace ParkingSystem

open Foundation

/-- The tables of the database. -/
structure Database where
  /-- The price of each city that has a row in `prices`. -/
  prices : Bytes → Option ℚ
  /-- The records inserted into `customer_data`, oldest first. -/
  customerData : List ParkingRecord

namespace Database

/-- `Database::upsertPrice`; the city is bound as a C string. -/
def upsertPrice (db : Database) (city : Bytes) (pricePerMin : ℚ) : Database :=
  { db with prices := Function.update db.prices (cstr city) (some pricePerMin) }

/-- `Database::deletePrice`. -/
def deletePrice (db : Database) (city : Bytes) : Database :=
  { db with prices := Function.update db.prices (cstr city) none }

/-- `Database::insertRecord`. -/
def insertRecord (db : Database) (rec' : ParkingRecord) : Database :=
  { db with customerData := db.customerData ++ [rec'] }

end Database

/-- The columns of a row of `customer_data`.  There is none for the price. -/
structure CustomerRow where
  customerId : Bytes
  city : Bytes
  startLat : ℚ
  startLon : ℚ
  endLat : ℚ
  endLon : ℚ
  startTime : Bytes
  endTime : Bytes
  totalFee : ℚ
  recordedAt : Bytes

/-- `fmtTime`: the local time as text.  The time zone says how many seconds the local time is ahead
of UTC at a time. -/
def fmtTime (zone : ℤ → ℤ) (t : ℤ) : Bytes := showTime (civilTime (t + zone t))

/-- The row that `Database::insertRecord` inserts for a record at the time `now`. -/
def customerRow (zone : ℤ → ℤ) (now : ℤ) (rec' : ParkingRecord) : CustomerRow where
  customerId := rec'.customerId.str
  city := rec'.city.str
  startLat := rec'.startLat
  startLon := rec'.startLon
  endLat := rec'.endLat
  endLon := rec'.endLon
  startTime := fmtTime zone rec'.startTime
  endTime := fmtTime zone rec'.endTime
  totalFee := rec'.totalFee
  recordedAt := fmtTime zone now

end ParkingSystem
