import ParkingSystem.Foundation.Lines
import ParkingSystem.Common

/-!
# The price table of the server

`lookup` and `loadFromFile` of `PriceTable`, on the pricing table in shared memory.  The
conversion `atof` is a parameter.
-/

namespace ParkingSystem

open Foundation

namespace PriceArea

/-- Write the next free row and count it: `prices[price_count++] = cp`. -/
def push (area : PriceArea) (cp : CityPrice) (h : area.priceCount < shmMaxCities) : PriceArea where
  priceCount := area.priceCount + 1
  prices := area.prices.set area.priceCount cp
  priceCount_le := h
  length_prices := by rw [List.length_set, area.length_prices]

/-- `price_count = 0`; the rows keep their bytes. -/
def clear (area : PriceArea) : PriceArea :=
  { area with priceCount := 0, priceCount_le := Nat.zero_le _ }

/-- The rows that are in use. -/
def live (area : PriceArea) : List CityPrice := area.prices.take area.priceCount

@[simp] lemma live_clear (area : PriceArea) : area.clear.live = [] := rfl

@[simp] lemma priceCount_clear (area : PriceArea) : area.clear.priceCount = 0 := rfl

@[simp] lemma priceCount_push (area : PriceArea) (cp : CityPrice)
    (h : area.priceCount < shmMaxCities) : (area.push cp h).priceCount = area.priceCount + 1 := rfl

/-- A new row stands behind the rows in use. -/
@[simp] lemma live_push (area : PriceArea) (cp : CityPrice) (h : area.priceCount < shmMaxCities) :
    (area.push cp h).live = area.live ++ [cp] := by
  have hlen : area.priceCount < area.prices.length := by rw [area.length_prices]; exact h
  simp only [live, push]
  rw [List.take_add_one, List.getElem?_set_self hlen, List.take_set_of_le le_rfl]
  rfl

end PriceArea

/-- `PriceTable::lookup`: the price of the first active row of the city, or -1. -/
def lookup (area : PriceArea) (city : Bytes) : ℚ :=
  match area.live.find? fun cp => cp.active && city = cp.city.str with
  | some cp => cp.pricePerMinute
  | none => -1

/-- The lookups depend on the rows in use only. -/
lemma lookup_congr {area area' : PriceArea} (h : area.live = area'.live) (city : Bytes) :
    lookup area city = lookup area' city := by
  unfold lookup
  rw [h]

/-- The body of the loop of `PriceTable::loadFromFile` for one string read by `fgets`, as long as
there is a free row. -/
def loadLine (atof : Bytes → ℚ) (area : PriceArea) (h : area.priceCount < shmMaxCities)
    (piece : Bytes) : PriceArea :=
  let line := (cstr piece).takeWhile fun b => b ≠ cr ∧ b ≠ lf
  if line.head? = some hash ∨ line = [] then area
  else match cutAt comma line with
    | none => area
    | some (city, price) => area.push ⟨strncpy cityNameLen city, atof price, true⟩ h

/-- The loop of `PriceTable::loadFromFile` over the strings read by `fgets`; it ends when the
table is full. -/
def loadLines (atof : Bytes → ℚ) : PriceArea → List Bytes → PriceArea
  | area, [] => area
  | area, piece :: pieces =>
    if h : area.priceCount < shmMaxCities then loadLines atof (loadLine atof area h piece) pieces
    else area

/-- `PriceTable::loadFromFile` on a file that can be opened: the number of cities loaded and the
new table. -/
def loadFromFile (atof : Bytes → ℚ) (area : PriceArea) (file : Bytes) : ℕ × PriceArea :=
  let area' := loadLines atof area.clear (fgetsAll 256 file)
  (area'.priceCount, area')

/-! ## What the table is loaded with -/

/-- The row that a loader writes for a city and its price. -/
def CityPrice.ofEntry (entry : Bytes × ℚ) : CityPrice :=
  ⟨strncpy cityNameLen entry.1, entry.2, true⟩

/-- The name under which the row of a city is found: the part of it that fits the row. -/
def rowName (city : Bytes) : Bytes := (cstr city).take (cityNameLen - 1)

/-- The price of the first entry whose row has the name of the city. -/
def firstPrice (city : Bytes) (entries : List (Bytes × ℚ)) : Option ℚ :=
  (entries.find? fun entry => rowName entry.1 = city).map Prod.snd

@[simp] lemma firstPrice_nil (city : Bytes) : firstPrice city [] = none := rfl

/-- Entries further in front take precedence. -/
lemma firstPrice_append (city : Bytes) (l l' : List (Bytes × ℚ)) :
    firstPrice city (l ++ l') = (firstPrice city l).or (firstPrice city l') := by
  unfold firstPrice
  rw [List.find?_append]
  cases l.find? fun entry => rowName entry.1 = city <;> rfl

/-- A lookup finds the first entry that was loaded for the city. -/
lemma lookup_eq_firstPrice {area : PriceArea} {entries : List (Bytes × ℚ)}
    (h : area.live = entries.map CityPrice.ofEntry) (city : Bytes) :
    lookup area city = (firstPrice city entries).getD (-1) := by
  have hpred : (fun cp : CityPrice => cp.active && city = cp.city.str) ∘ CityPrice.ofEntry =
      fun entry => decide (rowName entry.1 = city) := by
    funext entry
    simp [CityPrice.ofEntry, rowName, eq_comm]
  have hfind : (area.live.find? fun cp => cp.active && city = cp.city.str) =
      (entries.find? fun entry => rowName entry.1 = city).map CityPrice.ofEntry := by
    rw [h, List.find?_map, hpred]
  unfold lookup
  rw [hfind, firstPrice]
  cases entries.find? fun entry => rowName entry.1 = city <;> rfl

/-- The entry that `PriceTable::loadFromFile` reads from one string read by `fgets`. -/
def loadEntry (atof : Bytes → ℚ) (piece : Bytes) : Option (Bytes × ℚ) :=
  let line := (cstr piece).takeWhile fun b => b ≠ cr ∧ b ≠ lf
  if line.head? = some hash ∨ line = [] then none
  else (cutAt comma line).map fun p => (p.1, atof p.2)

/-- A string without comma has no entry. -/
lemma loadEntry_eq_none {atof : Bytes → ℚ} {piece : Bytes} (h : comma ∉ piece) :
    loadEntry atof piece = none := by
  have hcut : comma ∉ (cstr piece).takeWhile fun b => b ≠ cr ∧ b ≠ lf := by
    intro hmem
    exact h ((cstr_isPrefix piece).mem ((List.takeWhile_prefix _).mem hmem))
  simp only [loadEntry, cutAt_eq_none_iff.mpr hcut, Option.map_none, ite_self]

/-- One turn of the loop loads the entry of the string, if it has one. -/
lemma loadLine_eq (atof : Bytes → ℚ) (area : PriceArea) (h : area.priceCount < shmMaxCities)
    (piece : Bytes) :
    loadLine atof area h piece = match loadEntry atof piece with
      | none => area
      | some entry => area.push (CityPrice.ofEntry entry) h := by
  unfold loadLine loadEntry
  simp only
  split_ifs
  · rfl
  · cases cutAt comma ((cstr piece).takeWhile fun b => b ≠ cr ∧ b ≠ lf) <;> rfl

/-- The rows in use are as many as the count says. -/
lemma PriceArea.length_live (area : PriceArea) : area.live.length = area.priceCount := by
  unfold PriceArea.live
  rw [List.length_take, area.length_prices, min_eq_left area.priceCount_le]

/-- The loop of `loadFromFile` loads the first entries, as many as there is room for. -/
lemma live_loadLines_take (atof : Bytes → ℚ) (area : PriceArea) (pieces : List Bytes) :
    (loadLines atof area pieces).live = area.live ++
      ((pieces.filterMap (loadEntry atof)).take (shmMaxCities - area.priceCount)).map
        CityPrice.ofEntry := by
  induction pieces generalizing area with
  | nil => simp [loadLines]
  | cons piece pieces ih =>
    rw [loadLines]
    by_cases hroom : area.priceCount < shmMaxCities
    · rw [dif_pos hroom, loadLine_eq]
      cases hentry : loadEntry atof piece with
      | none =>
        rw [List.filterMap_cons_none hentry]
        exact ih area
      | some entry =>
        have hleft : shmMaxCities - area.priceCount = shmMaxCities - (area.priceCount + 1) + 1 := by
          omega
        rw [List.filterMap_cons_some hentry, hleft, List.take_succ_cons]
        simp only
        rw [ih]
        simp
    · rw [dif_neg hroom, Nat.sub_eq_zero_of_le (not_lt.mp hroom)]
      simp

/-- The loop of `loadFromFile` loads all entries, if there is room for them. -/
lemma live_loadLines (atof : Bytes → ℚ) {area : PriceArea} {pieces : List Bytes}
    (h : area.priceCount + (pieces.filterMap (loadEntry atof)).length ≤ shmMaxCities) :
    (loadLines atof area pieces).live =
      area.live ++ (pieces.filterMap (loadEntry atof)).map CityPrice.ofEntry := by
  rw [live_loadLines_take, List.take_of_length_le (by omega)]

/-- A lookup after `loadFromFile` finds the first entry of the city. -/
lemma lookup_loadFromFile {atof : Bytes → ℚ} {file : Bytes}
    (hroom : ((fgetsAll 256 file).filterMap (loadEntry atof)).length ≤ shmMaxCities)
    (area : PriceArea) (city : Bytes) :
    lookup (loadFromFile atof area file).2 city =
      (firstPrice city ((fgetsAll 256 file).filterMap (loadEntry atof))).getD (-1) := by
  refine lookup_eq_firstPrice ?_ city
  simp only [loadFromFile]
  rw [live_loadLines atof (by simpa using hroom), PriceArea.live_clear, List.nil_append]

end ParkingSystem
