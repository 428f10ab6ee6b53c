import ParkingSystem.Db.Transaction

/-!
# Reloading again, and reloading over other prices

A reload replays the changes of the prices file into the table `prices` and rebuilds the pricing
table in shared memory.  A log that is replayed absorbs itself, and the rebuilt rows are those of
the file alone; so a second reload of the same file changes nothing.

A file in which no line is an entry is not applied at all: the reload returns 0 and leaves the rows
of the pricing table that were there before.  Only such a file lets old prices through.
-/

namespace ParkingSystem

open Foundation

/-- A line that a reload takes for an entry: the marker of a removal, or the price of a city. -/
def EntryLine (stod : Bytes → Option ℚ) (line : Bytes) : Prop :=
  (stripCr line).head? = some dash ∨
    (stripCr line).head? ≠ some hash ∧
      ∃ city price, comma ∉ city ∧ stripCr line = city ++ comma :: price ∧ (stod price).isSome

/-- After reloads that do not fail, the lookups are the same whatever the pricing table held
before. -/
def ForgetsPrices (stod : Bytes → Option ℚ) (file : Bytes) (db db' : Database)
    (shm shm' : PriceArea) : Prop :=
  let run := reload stod (some file) db shm
  let run' := reload stod (some file) db' shm'
  0 ≤ run.1 → 0 ≤ run'.1 → ∀ city, lookup run.2.2 city = lookup run'.2.2 city

attribute [ext] Database

section Laws

variable {stod : Bytes → Option ℚ} {file line : Bytes} {db db' : Database} {shm shm' : PriceArea}
  {changes : List Change}

/-! ## Reloading again -/

/-- The transaction leaves the records alone. -/
lemma customerData_applyChanges (db : Database) (changes : List Change) :
    (applyChanges db changes).customerData = db.customerData := by
  induction changes generalizing db with
  | nil => rfl
  | cons c changes ih =>
    have htail := ih (if c.remove then db.deletePrice c.city else db.upsertPrice c.city c.price)
    rw [applyChanges, List.foldl_cons]
    refine htail.trans ?_
    split_ifs <;> rfl

/-- The changes of a file absorb themselves. -/
lemma applyChanges_applyChanges (db : Database) (changes : List Change) :
    applyChanges (applyChanges db changes) changes = applyChanges db changes := by
  have hprices : (applyChanges (applyChanges db changes) changes).prices =
      (applyChanges db changes).prices := by
    rw [prices_applyChanges, prices_applyChanges, replay_replay_self]
  exact Database.ext hprices (customerData_applyChanges _ changes)

/-- The pricing table is rebuilt as it is. -/
lemma fillPrices_fillPrices (shm : PriceArea) (changes : List Change) :
    fillPrices (fillPrices shm.clear changes).clear changes = fillPrices shm.clear changes :=
  fillPrices_clear_eq_self_iff.mpr (live_fillPrices_clear shm changes)

/-- **A reload is idempotent.**  A second reload of the same file returns the same number and leaves
both stores exactly as they are; so does one of a file that cannot be opened. -/
theorem reload_reload (stod : Bytes → Option ℚ) (file : Option Bytes) (db : Database)
    (shm : PriceArea) :
    reload stod file (reload stod file db shm).2.1 (reload stod file db shm).2.2 =
      reload stod file db shm := by
  cases file with
  | none => rfl
  | some file =>
    by_cases hne : readChanges stod file = []
    · simp [reload, hne]
    · simp only [reload, hne, if_false]
      rw [applyChanges_applyChanges, fillPrices_fillPrices]

/-! ## Reloading over other prices -/

/-- The reading loop takes a change from exactly the lines that are entries. -/
lemma isSome_readChange_iff : (readChange stod line).isSome ↔ EntryLine stod line := by
  have hdash : dash ≠ hash := by decide
  unfold readChange EntryLine
  cases htext : stripCr line with
  | nil => simp
  | cons b text =>
    by_cases hb : b = dash
    · simp [hb, hdash]
    by_cases hb' : b = hash
    · simp [hb', hdash.symm]
    simp only [reduceCtorEq, List.head?_cons, Option.some.injEq, hb, hb', or_self, if_false,
      false_or, ne_eq, not_false_eq_true, true_and]
    cases hcut : cutAt comma (b :: text) with
    | none =>
      have hcomma := cutAt_eq_none_iff.mp hcut
      constructor
      · intro h
        cases h
      · rintro ⟨city, price, -, heq, -⟩
        rw [heq] at hcomma
        exact absurd (by simp) hcomma
    | some p =>
      obtain ⟨city, price⟩ := p
      obtain ⟨heq, hcity⟩ := cutAt_eq_some_iff.mp hcut
      simp only [Option.isSome_map]
      constructor
      · intro hprice
        exact ⟨city, price, hcity, heq, hprice⟩
      · rintro ⟨city', price', hcity', heq', hprice⟩
        obtain ⟨-, rfl⟩ := append_cons_inj (heq.symm.trans heq') hcity hcity'
        exact hprice

/-- There are changes exactly when a line of the file is an entry. -/
lemma readChanges_ne_nil_iff :
    readChanges stod file ≠ [] ↔ ∃ line ∈ getlines file, EntryLine stod line := by
  simp only [readChanges, ne_eq, List.filterMap_eq_nil_iff, not_forall, ← isSome_readChange_iff,
    Option.isSome_iff_ne_none, exists_prop]

/-- **When a reload forgets the old prices.**  The lookups after it depend on the file alone if and
only if some line of the file is an entry, or the two tables had the same answers before. -/
theorem forgetsPrices_iff :
    ForgetsPrices stod file db db' shm shm' ↔
      (∃ line ∈ getlines file, EntryLine stod line) ∨
        ∀ city, lookup shm city = lookup shm' city := by
  rw [← readChanges_ne_nil_iff]
  by_cases hne : readChanges stod file = []
  · simp [ForgetsPrices, reload, hne]
  · refine iff_of_true ?_ (.inl hne)
    rintro - - city
    simp only [reload, hne, if_false]
    refine lookup_congr ?_ city
    rw [live_fillPrices_clear, live_fillPrices_clear]

/-- A file with a comment only leaves the price of Haifa that one of the tables has. -/
theorem not_every_reload_forgetsPrices :
    ¬ ∀ (stod : Bytes → Option ℚ) (file : Bytes) (db : Database) (shm shm' : PriceArea),
      ForgetsPrices stod file db db shm shm' := by
  intro h
  have hforgets := h readDecimal (ascii "# closed\n") ⟨fun _ => none, []⟩ .zero
    (PriceArea.zero.push ⟨strncpy cityNameLen (ascii "Haifa"), 3 / 10, true⟩
      PriceArea.priceCount_zero_lt) (by decide +kernel) (by decide +kernel) (ascii "Haifa")
  revert hforgets
  decide +kernel

end Laws

end ParkingSystem
