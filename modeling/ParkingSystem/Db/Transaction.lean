import ParkingSystem.Foundation.Decimal
import ParkingSystem.Db.PriceReloader

/-!
# A reload whose statements may fail

`PriceReloader::reload` applies the changes in one `Database::transaction`, which rolls back when
its body throws.  But `upsertPrice` and `deletePrice` only log a statement that fails, so the body
never throws: the transaction commits the changes whose statements succeeded, and the pricing table
is rebuilt from all of them.
-/

namespace ParkingSystem

open Foundation

/-- What becomes of a prepared statement. -/
inductive StmtResult where
  /-- `sqlite3_step` returns `SQLITE_DONE`. -/
  | done
  /-- `sqlite3_prepare_v2` fails. -/
  | prepareFails
  /-- `sqlite3_step` fails. -/
  | stepFails
deriving DecidableEq

/-- What becomes of the SQL of a reload. -/
structure SqlResults where
  /-- `exec("BEGIN;")` succeeds. -/
  beginOk : Bool
  /-- `exec("COMMIT;")` succeeds. -/
  commitOk : Bool
  /-- The statement for each of the changes. -/
  stmt : ℕ → StmtResult

namespace Database

/-- `Database::upsertPrice`; a failure is logged. -/
def tryUpsertPrice (r : StmtResult) (db : Database) (city : Bytes) (pricePerMin : ℚ) : Database :=
  match r with
  | .prepareFails => db
  | .stepFails => db
  | .done => db.upsertPrice city pricePerMin

/-- `Database::deletePrice`; a failure is logged. -/
def tryDeletePrice (r : StmtResult) (db : Database) (city : Bytes) : Database :=
  match r with
  | .prepareFails => db
  | .stepFails => db
  | .done => db.deletePrice city

/-- `Database::transaction`; the result is `none` when it throws, and then SQLite is as before.  The
body gives `none` when it throws. -/
def transaction (r : SqlResults) (db : Database) (fn : Database → Option Database) :
    Option Database :=
  if r.beginOk then
    match fn db with
    | none => none
    | some db' => if r.commitOk then some db' else none
  else none

end Database

/-- The body of the transaction of `reload`, with the results of its statements. -/
def applyChangesUnder : (ℕ → StmtResult) → Database → List Change → Database
  | _, db, [] => db
  | stmt, db, c :: changes =>
    applyChangesUnder (fun n => stmt (n + 1))
      (if c.remove then db.tryDeletePrice (stmt 0) c.city
        else db.tryUpsertPrice (stmt 0) c.city c.price) changes

/-- `PriceReloader::reload`; the value is `none` when an exception leaves it. -/
def reloadUnder (stod : Bytes → Option ℚ) (r : SqlResults) (file : Option Bytes) (db : Database)
    (shm : PriceArea) : Option ℤ × Database × PriceArea :=
  match file with
  | none => (some (-1), db, shm)
  | some file =>
    let changes := readChanges stod file
    if changes = [] then (some 0, db, shm)
    else
      match db.transaction r fun db => some (applyChangesUnder r.stmt db changes) with
      | none => (none, db, shm)
      | some db => (some changes.length, db, fillPrices shm.clear changes)

/-! ## What is committed -/

/-- The changes whose statements succeed. -/
def succeeded : (ℕ → StmtResult) → List Change → List Change
  | _, [] => []
  | stmt, c :: changes =>
    if stmt 0 = .done then c :: succeeded (fun n => stmt (n + 1)) changes
    else succeeded (fun n => stmt (n + 1)) changes

/-- The changes that a reload commits. -/
def committed (r : SqlResults) (changes : List Change) : List Change :=
  if r.beginOk ∧ r.commitOk then succeeded r.stmt changes else []

section Committed

variable {stmt : ℕ → StmtResult} {r : SqlResults} {changes : List Change} {stod : Bytes → Option ℚ}
  {file : Bytes} {db : Database} {shm : PriceArea}

lemma succeeded_sublist (stmt : ℕ → StmtResult) (changes : List Change) :
    (succeeded stmt changes).Sublist changes := by
  induction changes generalizing stmt with
  | nil => exact .refl _
  | cons c changes ih =>
    rw [succeeded]
    split_ifs
    · exact (ih _).cons_cons c
    · exact (ih _).cons c

/-- All changes succeed when all statements do. -/
lemma succeeded_eq_self_iff :
    succeeded stmt changes = changes ↔ ∀ n < changes.length, stmt n = .done := by
  induction changes generalizing stmt with
  | nil => simp [succeeded]
  | cons c changes ih =>
    rw [succeeded, List.length_cons, Nat.forall_lt_succ_left]
    by_cases h : stmt 0 = .done
    · rw [if_pos h, List.cons.injEq, ih]
      simp [h]
    · rw [if_neg h]
      constructor
      · intro heq
        have hlen := congrArg List.length heq
        have hle := (succeeded_sublist (fun n => stmt (n + 1)) changes).length_le
        rw [List.length_cons] at hlen
        omega
      · rintro ⟨hzero, -⟩
        exact absurd hzero h

/-- No change succeeds when no statement does. -/
lemma succeeded_eq_nil_iff :
    succeeded stmt changes = [] ↔ ∀ n < changes.length, stmt n ≠ .done := by
  induction changes generalizing stmt with
  | nil => simp [succeeded]
  | cons c changes ih =>
    rw [succeeded, List.length_cons, Nat.forall_lt_succ_left]
    by_cases h : stmt 0 = .done
    · simp [h]
    · rw [if_neg h, ih]
      simp [h]

/-- The body of the transaction applies the changes whose statements succeed. -/
lemma applyChangesUnder_eq (stmt : ℕ → StmtResult) (db : Database) (changes : List Change) :
    applyChangesUnder stmt db changes = applyChanges db (succeeded stmt changes) := by
  induction changes generalizing stmt db with
  | nil => rfl
  | cons c changes ih =>
    rw [applyChangesUnder, ih, succeeded]
    cases h : stmt 0 <;> simp [applyChanges, Database.tryDeletePrice, Database.tryUpsertPrice]

/-- What a reload of a file with changes does. -/
lemma reloadUnder_eq (r : SqlResults) (hne : readChanges stod file ≠ []) (db : Database)
    (shm : PriceArea) :
    reloadUnder stod r (some file) db shm =
      if r.beginOk ∧ r.commitOk then
        (some ((readChanges stod file).length : ℤ),
          applyChanges db (succeeded r.stmt (readChanges stod file)),
          fillPrices shm.clear (readChanges stod file))
      else (none, db, shm) := by
  cases hbegin : r.beginOk <;> cases hcommit : r.commitOk <;>
    simp [reloadUnder, hne, Database.transaction, hbegin, hcommit, applyChangesUnder_eq]

end Committed

/-! ## All or nothing -/

/-- A reload is all-or-nothing: either all changes are committed and the shared table holds the new
prices, or nothing is committed and both are as before; and every price that it publishes is the one
that SQLite has for the city of the row. -/
def AllOrNothing (stod : Bytes → Option ℚ) (r : SqlResults) (file : Bytes) (db : Database)
    (shm : PriceArea) : Prop :=
  let changes := readChanges stod file
  let (result, db', shm') := reloadUnder stod r (some file) db shm
  (committed r changes = changes ∧ db' = applyChanges db changes ∧
        shm' = fillPrices shm.clear changes ∨
      committed r changes = [] ∧ db' = db ∧ shm' = shm) ∧
    ((∃ n : ℤ, result = some n ∧ 0 < n) →
      ∀ cp ∈ shm'.live, db'.prices cp.city.str = some cp.pricePerMinute)

/-- The entries that a reload publishes. -/
def publishedEntries (changes : List Change) : List (Bytes × ℚ) :=
  (changes.filterMap Change.entry).take shmMaxCities

/-- What is published are the rows of these entries. -/
lemma live_fillPrices_clear (shm : PriceArea) (changes : List Change) :
    (fillPrices shm.clear changes).live = (publishedEntries changes).map CityPrice.ofEntry := by
  rw [live_fillPrices_take, PriceArea.live_clear, List.nil_append, PriceArea.priceCount_clear]
  rfl

attribute [ext] PriceArea

/-- The filling loop leaves the rows alone that are not in use at its end. -/
lemma drop_fillPrices (area : PriceArea) (changes : List Change) :
    area.priceCount ≤ (fillPrices area changes).priceCount ∧
      (fillPrices area changes).prices.drop (fillPrices area changes).priceCount =
        area.prices.drop (fillPrices area changes).priceCount := by
  induction changes generalizing area with
  | nil => exact ⟨le_rfl, rfl⟩
  | cons c changes ih =>
    rw [fillPrices]
    split_ifs with hremove hroom
    · exact ih area
    · obtain ⟨hle, hdrop⟩ := ih (area.push ⟨strncpy cityNameLen c.city, c.price, true⟩ hroom)
      rw [PriceArea.priceCount_push] at hle
      refine ⟨(Nat.le_succ _).trans hle, hdrop.trans ?_⟩
      exact List.drop_set_of_lt hle
    · exact ⟨le_rfl, rfl⟩

/-- A table that already has the rows of the file is filled with what it holds. -/
lemma fillPrices_clear_eq_self_iff {shm : PriceArea} {changes : List Change} :
    fillPrices shm.clear changes = shm ↔
      shm.live = (publishedEntries changes).map CityPrice.ofEntry := by
  constructor
  · intro heq
    rw [← live_fillPrices_clear shm changes, heq]
  · intro heq
    have hrows : (fillPrices shm.clear changes).live = shm.live :=
      (live_fillPrices_clear shm changes).trans heq.symm
    have hcount : (fillPrices shm.clear changes).priceCount = shm.priceCount := by
      rw [← PriceArea.length_live, ← PriceArea.length_live, hrows]
    obtain ⟨-, hdrop⟩ := drop_fillPrices shm.clear changes
    unfold PriceArea.live at hrows
    rw [hcount] at hrows hdrop
    refine PriceArea.ext hcount ?_
    rw [← List.take_append_drop shm.priceCount (fillPrices shm.clear changes).prices, hrows, hdrop]
    exact List.take_append_drop _ _

section AllOrNothing

variable {stod : Bytes → Option ℚ} {r : SqlResults} {file : Bytes} {db : Database} {shm : PriceArea}

/-- The published rows are held by SQLite when the published entries are what the changes leave
under the names of their rows. -/
lemma forall_live_fillPrices (db : Database) (shm : PriceArea) (applied changes : List Change) :
    (∀ cp ∈ (fillPrices shm.clear changes).live,
        (applyChanges db applied).prices cp.city.str = some cp.pricePerMinute) ↔
      ∀ entry ∈ publishedEntries changes,
        (lastWrite (rowName entry.1) (applied.map Change.op)).getD (db.prices (rowName entry.1)) =
          some entry.2 := by
  rw [live_fillPrices_clear, prices_applyChanges]
  simp only [List.forall_mem_map, replay_apply, CityPrice.ofEntry, str_strncpy, rowName]

/-- What it takes when the transaction is committed. -/
lemma allOrNothing_of_commit (hne : readChanges stod file ≠ []) (hsql : r.beginOk ∧ r.commitOk) :
    AllOrNothing stod r file db shm ↔
      (succeeded r.stmt (readChanges stod file) = readChanges stod file ∨
        succeeded r.stmt (readChanges stod file) = [] ∧
          shm.live = (publishedEntries (readChanges stod file)).map CityPrice.ofEntry) ∧
      ∀ entry ∈ publishedEntries (readChanges stod file),
        (lastWrite (rowName entry.1)
          ((succeeded r.stmt (readChanges stod file)).map Change.op)).getD
          (db.prices (rowName entry.1)) = some entry.2 := by
  have hpublished : ∃ n : ℤ, some ((readChanges stod file).length : ℤ) = some n ∧ 0 < n :=
    ⟨_, rfl, by exact_mod_cast List.length_pos_iff.mpr hne⟩
  simp only [AllOrNothing, reloadUnder_eq r hne, committed, if_pos hsql]
  rw [forall_live_fillPrices, ← fillPrices_clear_eq_self_iff]
  constructor
  · rintro ⟨⟨hall, -⟩ | ⟨hnil, -, hshm⟩, hheld⟩
    · exact ⟨.inl hall, hheld hpublished⟩
    · exact ⟨.inr ⟨hnil, hshm⟩, hheld hpublished⟩
  · rintro ⟨hall | ⟨hnil, hshm⟩, hheld⟩
    · exact ⟨.inl ⟨hall, by rw [hall], trivial⟩, fun _ => hheld⟩
    · exact ⟨.inr ⟨hnil, by rw [hnil]; rfl, hshm⟩, fun _ => hheld⟩

/-- **When a reload is all-or-nothing.**  Unless the file has no changes or the transaction is
rolled back, either all statements have to succeed, or none of them and the table has to have
already the rows of the file; and each published price has to be what SQLite then has for the city
of its row. -/
theorem allOrNothing_iff :
    AllOrNothing stod r file db shm ↔
      readChanges stod file = [] ∨ r.beginOk = false ∨ r.commitOk = false ∨
        (∀ n < (readChanges stod file).length, r.stmt n = .done) ∧
          (∀ entry ∈ publishedEntries (readChanges stod file),
            (lastWrite (rowName entry.1) ((readChanges stod file).map Change.op)).getD
              (db.prices (rowName entry.1)) = some entry.2) ∨
        (∀ n < (readChanges stod file).length, r.stmt n ≠ .done) ∧
          shm.live = (publishedEntries (readChanges stod file)).map CityPrice.ofEntry ∧
          ∀ entry ∈ publishedEntries (readChanges stod file),
            db.prices (rowName entry.1) = some entry.2 := by
  by_cases hne : readChanges stod file = []
  · simp [AllOrNothing, reloadUnder, hne, committed, succeeded]
  by_cases hsql : r.beginOk ∧ r.commitOk
  · rw [allOrNothing_of_commit hne hsql, ← succeeded_eq_self_iff, ← succeeded_eq_nil_iff]
    simp only [hne, hsql.1, hsql.2, Bool.true_eq_false, false_or]
    constructor
    · rintro ⟨hall | ⟨hnil, hshm⟩, hheld⟩
      · rw [hall] at hheld
        exact .inl ⟨hall, hheld⟩
      · rw [hnil] at hheld
        exact .inr ⟨hnil, hshm, hheld⟩
    · rintro (⟨hall, hheld⟩ | ⟨hnil, hshm, hheld⟩)
      · rw [hall]
        exact ⟨.inl rfl, hheld⟩
      · rw [hnil]
        exact ⟨.inr ⟨rfl, hshm⟩, hheld⟩
  · have hfail : r.beginOk = false ∨ r.commitOk = false := by
      cases hbegin : r.beginOk
      · exact .inl rfl
      · exact .inr (by simpa [hbegin] using hsql)
    have hkept : AllOrNothing stod r file db shm := by
      simp [AllOrNothing, reloadUnder_eq r hne, committed, hsql]
    exact iff_of_true hkept (.inr (hfail.elim .inl fun h => .inr (.inl h)))

/-- A statement that fails is left out of the transaction, and its price is published all the
same. -/
theorem not_every_reload_allOrNothing :
    ¬ ∀ (stod : Bytes → Option ℚ) (r : SqlResults) (file : Bytes) (db : Database) (shm : PriceArea),
      AllOrNothing stod r file db shm := by
  intro h
  have hall := h readDecimal ⟨true, true, fun n => if n = 1 then .stepFails else .done⟩
    (ascii "Haifa,0.3\nEilat,0.5\n") ⟨fun _ => none, []⟩ .zero
  rw [allOrNothing_of_commit (by decide +kernel) (by decide)] at hall
  revert hall
  decide +kernel

end AllOrNothing

end ParkingSystem
