import ParkingSystem.Foundation.Decimal
import ParkingSystem.Db.PriceReloader

/-!
# The two stores after a reload

A reload replays the lines of the prices file into the table `prices`, where a later line of a city
replaces an earlier one, and appends them to the pricing table in shared memory, which is searched
from the front.  So on a file with several lines for a city the database has the price of the last
one, and the server bills the price of the first one: the two agree if and only if these are the
same.  A reload of a file without entries leaves both stores alone.
-/

namespace ParkingSystem

open Foundation

/-- A prices file without removals that fits the pricing table. -/
@[mk_iff]
structure PlainPrices (changes : List Change) : Prop where
  no_removal : ∀ c ∈ changes, c.remove = false
  room : changes.length ≤ shmMaxCities
  name_le : ∀ c ∈ changes, c.city.length ≤ 63
  price_nonneg : ∀ c ∈ changes, 0 ≤ c.price

instance (changes : List Change) : Decidable (PlainPrices changes) :=
  decidable_of_iff' _ (plainPrices_iff changes)

/-- For every city the price table of the server and the table `prices` have the same price, or
neither has one. -/
def StoresAgree (db : Database) (shm : PriceArea) : Prop :=
  ∀ city p, lookup shm city = p ∧ 0 ≤ p ↔ db.prices city = some p

/-- The cities and prices of the changes. -/
def entriesOf (changes : List Change) : List (Bytes × ℚ) := changes.filterMap Change.entry

section Agree

variable {changes : List Change} {stod : Bytes → Option ℚ} {file : Bytes} {db : Database}
  {shm : PriceArea}

/-- Without removals every change has an entry. -/
lemma entriesOf_eq_map (h : PlainPrices changes) :
    entriesOf changes = changes.map fun c => (c.city, c.price) := by
  rw [entriesOf, ← List.filterMap_eq_map]
  refine List.filterMap_congr fun c hc => ?_
  simp [Change.entry, h.no_removal c hc]

/-- A name that fits a row is found under itself. -/
lemma rowName_of_le {city : Bytes} (h : city.length ≤ 63) : rowName city = cstr city :=
  List.take_of_length_le ((cstr_length_le city).trans h)

/-- The table `prices` has the price of the last line of a city. -/
lemma prices_applyChanges_last (h : PlainPrices changes) (hdb : ∀ city, db.prices city = none)
    (city : Bytes) :
    (applyChanges db changes).prices city = firstPrice city (entriesOf changes).reverse := by
  have hmem : ∀ c ∈ changes.reverse, (fun op : LogOp Bytes ℚ => decide (op.key = city)) c.op =
      ((fun e : Bytes × ℚ => decide (rowName e.1 = city)) ∘ fun c => (c.city, c.price)) c := by
    intro c hc
    have hc := List.mem_reverse.mp hc
    simp [Change.op, h.no_removal c hc, LogOp.key, rowName_of_le (h.name_le c hc)]
  have hfind : (changes.reverse.map Change.op).find? (fun op => op.key = city) =
      (changes.reverse.find? ((fun e : Bytes × ℚ => decide (rowName e.1 = city)) ∘
        fun c => (c.city, c.price))).map Change.op := by
    rw [List.find?_map]
    congr 1
    exact List.find?_congr hmem
  rw [prices_applyChanges, replay_apply, lastWrite_eq_find?, ← List.map_reverse, hfind,
    entriesOf_eq_map h, firstPrice, ← List.map_reverse, List.find?_map, hdb city]
  cases hlast : changes.reverse.find? ((fun e : Bytes × ℚ => decide (rowName e.1 = city)) ∘
      fun c => (c.city, c.price)) with
  | none => rfl
  | some c =>
    have hc := List.mem_reverse.mp (List.mem_of_find?_eq_some hlast)
    simp [Change.op, h.no_removal c hc, LogOp.value]

/-- The price of a line of the file is not negative. -/
lemma firstPrice_nonneg (h : PlainPrices changes) {city : Bytes} {p : ℚ}
    (hp : firstPrice city (entriesOf changes) = some p) : 0 ≤ p := by
  rw [firstPrice, entriesOf_eq_map h] at hp
  obtain ⟨entry, hfind, rfl⟩ := Option.map_eq_some_iff.mp hp
  obtain ⟨c, hc, rfl⟩ := List.mem_map.mp (List.mem_of_find?_eq_some hfind)
  exact h.price_nonneg c hc

/-- **When the two stores agree.**  After a reload into an empty table `prices`, the two stores
agree if and only if the first and the last line of every city have the same price, or the file has
no entries and the server had no prices before. -/
theorem storesAgree_iff (h : PlainPrices (readChanges stod file))
    (hdb : ∀ city, db.prices city = none) :
    StoresAgree (reload stod (some file) db shm).2.1 (reload stod (some file) db shm).2.2 ↔
      (readChanges stod file = [] ∧ ∀ city, lookup shm city < 0) ∨
        (readChanges stod file ≠ [] ∧ ∀ city,
          firstPrice city (entriesOf (readChanges stod file)) =
            firstPrice city (entriesOf (readChanges stod file)).reverse) := by
  by_cases hne : readChanges stod file = []
  · simp only [StoresAgree, reload, hne, if_true, hdb, reduceCtorEq, iff_false, not_and, not_le,
      forall_eq', true_and, ne_eq, not_true_eq_false, false_and, or_false]
  · have hroom : ((readChanges stod file).filterMap Change.entry).length ≤ shmMaxCities :=
      (List.length_filterMap_le _ _).trans h.room
    have hprices : ∀ city, (reload stod (some file) db shm).2.1.prices city =
        firstPrice city (entriesOf (readChanges stod file)).reverse := by
      intro city
      simp only [reload, hne, if_false]
      exact prices_applyChanges_last h hdb city
    have hlookup : ∀ city p, lookup (reload stod (some file) db shm).2.2 city = p ∧ 0 ≤ p ↔
        firstPrice city (entriesOf (readChanges stod file)) = some p := by
      intro city p
      rw [lookup_reload hne hroom]
      change (firstPrice city (entriesOf (readChanges stod file))).getD (-1) = p ∧ _ ↔ _
      cases hfirst : firstPrice city (entriesOf (readChanges stod file)) with
      | none =>
        simp only [Option.getD_none, reduceCtorEq, iff_false, not_and, not_le]
        rintro rfl
        norm_num
      | some q =>
        simp only [Option.getD_some, Option.some.injEq, and_iff_left_iff_imp]
        rintro rfl
        exact firstPrice_nonneg h hfirst
    simp only [StoresAgree, hlookup, hprices, hne, false_and, false_or, ne_eq, not_false_eq_true,
      true_and]
    refine forall_congr' fun city => ?_
    constructor
    · intro hsame
      exact Option.ext hsame
    · intro heq p
      rw [heq]

/-- Two lines for one city with the same price, and one for another city. -/
theorem storesAgree_iff_repeated :
    StoresAgree
      (reload readDecimal (some (ascii "Haifa,0.3\nEilat,0.5\nHaifa,0.30\n"))
        ⟨fun _ => none, []⟩ .zero).2.1
      (reload readDecimal (some (ascii "Haifa,0.3\nEilat,0.5\nHaifa,0.30\n"))
        ⟨fun _ => none, []⟩ .zero).2.2 := by
  refine (storesAgree_iff (by decide +kernel) fun _ => rfl).mpr (.inr ⟨by decide +kernel, ?_⟩)
  have hchanges : entriesOf (readChanges readDecimal (ascii "Haifa,0.3\nEilat,0.5\nHaifa,0.30\n")) =
      [(ascii "Haifa", 3 / 10), (ascii "Eilat", 1 / 2), (ascii "Haifa", 3 / 10)] := by
    decide +kernel
  intro city
  rw [hchanges]
  by_cases hhaifa : rowName (ascii "Haifa") = city <;>
    by_cases heilat : rowName (ascii "Eilat") = city <;>
    simp [firstPrice, hhaifa, heilat]

/-- The database has the price of the second line, and the server bills that of the first. -/
theorem not_every_reload_storesAgree :
    ¬ ∀ (stod : Bytes → Option ℚ) (file : Bytes) (db : Database) (shm : PriceArea),
      PlainPrices (readChanges stod file) → (∀ city, db.prices city = none) →
        StoresAgree (reload stod (some file) db shm).2.1 (reload stod (some file) db shm).2.2 := by
  intro h
  have hagree := h readDecimal (ascii "Haifa,0.3\nHaifa,0.5\n") ⟨fun _ => none, []⟩ .zero
    (by decide +kernel) fun _ => rfl
  have hrow := (hagree (ascii "Haifa") (3 / 10)).mp (by decide +kernel)
  revert hrow
  decide +kernel

end Agree

end ParkingSystem
