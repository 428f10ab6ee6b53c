import ParkingSystem.Foundation.Replay
import ParkingSystem.Db.Database
import ParkingSystem.Server.PriceTable

/-!
# The price reloader

`PriceReloader::reload` reads the prices file into a list of changes, applies them to the database
in one transaction, and rebuilds the pricing table in shared memory.  The conversion `std::stod`
is a parameter.
-/

namespace ParkingSystem

open Foundation

/-- `Change`: one line of the prices file. -/
structure Change where
  remove : Bool
  city : Bytes
  price : ℚ
deriving DecidableEq

section Reload

variable (stod : Bytes → Option ℚ)

/-- The body of the reading loop of `reload`: the change that a line asks for. -/
def readChange (line : Bytes) : Option Change :=
  let line := stripCr line
  if line = [] ∨ line.head? = some hash then none
  else if line.head? = some dash then some ⟨true, line.tail, 0⟩
  else match cutAt comma line with
    | none => none
    | some (city, price) => (stod price).map fun price => ⟨false, city, price⟩

/-- The reading loop of `reload`. -/
def readChanges (file : Bytes) : List Change := (getlines file).filterMap (readChange stod)

/-- The transaction of `reload`, all statements succeeding. -/
def applyChanges (db : Database) (changes : List Change) : Database :=
  changes.foldl (fun db c =>
    if c.remove then db.deletePrice c.city else db.upsertPrice c.city c.price) db

/-- The loop of `reload` that fills the pricing table; it ends when the table is full. -/
def fillPrices : PriceArea → List Change → PriceArea
  | area, [] => area
  | area, c :: changes =>
    if c.remove then fillPrices area changes
    else if h : area.priceCount < shmMaxCities then
      fillPrices (area.push ⟨strncpy cityNameLen c.city, c.price, true⟩ h) changes
    else area

/-- `PriceReloader::reload`; the file is `none` when it cannot be opened. -/
def reload (file : Option Bytes) (db : Database) (shm : PriceArea) : ℤ × Database × PriceArea :=
  match file with
  | none => (-1, db, shm)
  | some file =>
    let changes := readChanges stod file
    if changes = [] then (0, db, shm)
    else (changes.length, applyChanges db changes, fillPrices shm.clear changes)

end Reload

/-! ## The changes as operations -/

/-- The operation of a change on the table `prices`. -/
def Change.op (c : Change) : LogOp Bytes ℚ :=
  if c.remove then .del (cstr c.city) else .put (cstr c.city) c.price

/-- The entry of a change for the pricing table. -/
def Change.entry (c : Change) : Option (Bytes × ℚ) :=
  if c.remove then none else some (c.city, c.price)

/-- The transaction replays the changes on the table `prices`. -/
lemma prices_applyChanges (db : Database) (changes : List Change) :
    (applyChanges db changes).prices = replay db.prices (changes.map Change.op) := by
  induction changes generalizing db with
  | nil => rfl
  | cons c changes ih =>
    have hstep :
        (if c.remove then db.deletePrice c.city else db.upsertPrice c.city c.price).prices =
        applyOp db.prices c.op := by
      by_cases hc : c.remove <;>
        simp [hc, Database.deletePrice, Database.upsertPrice, applyOp, Change.op, LogOp.key,
          LogOp.value]
    have htail := ih (if c.remove then db.deletePrice c.city else db.upsertPrice c.city c.price)
    rw [hstep] at htail
    exact htail

/-- A reload replays the changes of the file on the table `prices`. -/
lemma prices_reload (stod : Bytes → Option ℚ) (file : Bytes) (db : Database) (shm : PriceArea) :
    (reload stod (some file) db shm).2.1.prices =
      replay db.prices ((readChanges stod file).map Change.op) := by
  unfold reload
  by_cases h : readChanges stod file = []
  · simp [h]
  · simp only [h, if_false]
    exact prices_applyChanges db _

/-- The filling loop writes the first entries, as many as there is room for. -/
lemma live_fillPrices_take (area : PriceArea) (changes : List Change) :
    (fillPrices area changes).live = area.live ++
      ((changes.filterMap Change.entry).take (shmMaxCities - area.priceCount)).map
        CityPrice.ofEntry := by
  induction changes generalizing area with
  | nil => simp [fillPrices]
  | cons c changes ih =>
    rw [fillPrices]
    by_cases hc : c.remove
    · have hentry : c.entry = none := by simp [Change.entry, hc]
      rw [List.filterMap_cons_none hentry, if_pos hc]
      exact ih area
    · have hentry : c.entry = some (c.city, c.price) := by simp [Change.entry, hc]
      rw [List.filterMap_cons_some hentry, if_neg hc]
      by_cases hroom : area.priceCount < shmMaxCities
      · have hleft : shmMaxCities - area.priceCount = shmMaxCities - (area.priceCount + 1) + 1 := by
          omega
        rw [dif_pos hroom, hleft, List.take_succ_cons, ih]
        simp [CityPrice.ofEntry]
      · rw [dif_neg hroom, Nat.sub_eq_zero_of_le (not_lt.mp hroom)]
        simp

/-- The filling loop writes all entries, if there is room for them. -/
lemma live_fillPrices {area : PriceArea} {changes : List Change}
    (h : area.priceCount + (changes.filterMap Change.entry).length ≤ shmMaxCities) :
    (fillPrices area changes).live =
      area.live ++ (changes.filterMap Change.entry).map CityPrice.ofEntry := by
  rw [live_fillPrices_take, List.take_of_length_le (by omega)]

/-- A lookup after a reload of a file with changes finds the first entry of the city. -/
lemma lookup_reload {stod : Bytes → Option ℚ} {file : Bytes} (hne : readChanges stod file ≠ [])
    (hroom : ((readChanges stod file).filterMap Change.entry).length ≤ shmMaxCities)
    (db : Database) (shm : PriceArea) (city : Bytes) :
    lookup (reload stod (some file) db shm).2.2 city =
      (firstPrice city ((readChanges stod file).filterMap Change.entry)).getD (-1) := by
  refine lookup_eq_firstPrice ?_ city
  simp only [reload, hne, if_false]
  rw [live_fillPrices (by simpa using hroom)]
  simp

end ParkingSystem
