import ParkingSystem.Foundation.RwLock
import ParkingSystem.Foundation.Trace
import ParkingSystem.Db.PriceReloader

/-!
# Lookups during a reload

The server looks prices up in the shared pricing table, and the database process rebuilds the table.
`PriceTable::lookup` and the last part of `PriceReloader::reload` are split into their accesses to
the segment, one assignment a step.  Each process passes the lock object `g_shm_lock` of its own
program, a static variable that the other process does not see; so the locks do not order the two
sections, and a lookup may run over a table that is being rebuilt.

What does hold is said in two invariant functions: `RebuildPc.result` is the table that the rest of
a rebuild makes of the present table, and `LookupPc.answer` is the answer that the rest of a lookup
finds in it.  No step of the rebuild changes the former, and no step of the lookup the latter.
-/

namespace ParkingSystem

open Foundation

/-! ## The rebuild -/

namespace PriceArea

/-- A row of the table. -/
def row (area : PriceArea) (i : ℕ) : CityPrice := (area.prices[i]?).getD .zero

/-- `price_count++`. -/
def increment (area : PriceArea) (h : area.priceCount < shmMaxCities) : PriceArea :=
  { area with priceCount := area.priceCount + 1, priceCount_le := h }

/-- An assignment to a field of a row. -/
def modifyRow (area : PriceArea) (i : ℕ) (f : CityPrice → CityPrice) : PriceArea :=
  { area with
    prices := area.prices.modify i f
    length_prices := by rw [List.length_modify, area.length_prices] }

/-- Two changes of a row are one. -/
lemma modifyRow_modifyRow (area : PriceArea) (i : ℕ) (f g : CityPrice → CityPrice) :
    (area.modifyRow i f).modifyRow i g = area.modifyRow i (g ∘ f) := by
  simp [modifyRow, List.modify_modify_eq]

/-- A row is written when all its fields are. -/
lemma push_eq (area : PriceArea) (cp : CityPrice) (h : area.priceCount < shmMaxCities) :
    area.push cp h = (area.increment h).modifyRow area.priceCount fun _ => cp := by
  simp [push, increment, modifyRow, List.set_eq_modify]

end PriceArea

/-- Where the database process is between its `pthread_rwlock_wrlock` and its
`pthread_rwlock_unlock`. -/
inductive RebuildPc where
  /-- Before `price_count = 0`. -/
  | clear (changes : List Change)
  /-- At the head of the loop, with the changes that are left. -/
  | next (changes : List Change)
  /-- The row is counted, but not yet written. -/
  | city (i : ℕ) (c : Change) (changes : List Change)
  /-- Before `cp.city[CITY_NAME_LEN - 1] = '\0'`. -/
  | terminator (i : ℕ) (c : Change) (changes : List Change)
  /-- Before `cp.price_per_minute = c.price`. -/
  | price (i : ℕ) (c : Change) (changes : List Change)
  /-- Before `cp.active = 1`. -/
  | active (i : ℕ) (c : Change) (changes : List Change)
  /-- Behind the loop. -/
  | unlock
deriving DecidableEq

/-- One step of the rebuild. -/
def rebuildStep (area : PriceArea) : RebuildPc → PriceArea × RebuildPc
  | .clear changes => (area.clear, .next changes)
  | .next [] => (area, .unlock)
  | .next (c :: changes) =>
    if c.remove then (area, .next changes)
    else if h : area.priceCount < shmMaxCities then
      (area.increment h, .city area.priceCount c changes)
    else (area, .unlock)
  | .city i c changes =>
    (area.modifyRow i fun cp => { cp with city := strncpy cityNameLen c.city },
      .terminator i c changes)
  | .terminator i c changes =>
    (area.modifyRow i fun cp =>
        { cp with city := terminate cityNameLen cp.city.bytes cp.city.length_eq },
      .price i c changes)
  | .price i c changes =>
    (area.modifyRow i fun cp => { cp with pricePerMinute := c.price }, .active i c changes)
  | .active i _ changes =>
    (area.modifyRow i fun cp => { cp with active := true }, .next changes)
  | .unlock => (area, .unlock)

/-- The table that the rest of the rebuild makes of the present one. -/
def RebuildPc.result (area : PriceArea) : RebuildPc → PriceArea
  | clear changes => fillPrices area.clear changes
  | next changes => fillPrices area changes
  | city i c changes =>
    fillPrices (area.modifyRow i fun _ => ⟨strncpy cityNameLen c.city, c.price, true⟩) changes
  | terminator i c changes =>
    fillPrices (area.modifyRow i fun cp =>
      ⟨terminate cityNameLen cp.city.bytes cp.city.length_eq, c.price, true⟩) changes
  | price i c changes =>
    fillPrices (area.modifyRow i fun cp => ⟨cp.city, c.price, true⟩) changes
  | active i _ changes =>
    fillPrices (area.modifyRow i fun cp => ⟨cp.city, cp.pricePerMinute, true⟩) changes
  | unlock => area

/-- **The rebuild fills the table.**  No step changes what the rebuild ends with. -/
lemma result_rebuildStep (area : PriceArea) (pc : RebuildPc) :
    (rebuildStep area pc).2.result (rebuildStep area pc).1 = pc.result area := by
  cases pc with
  | clear changes => rfl
  | next changes =>
    cases changes with
    | nil => rfl
    | cons c changes =>
      by_cases hc : c.remove
      · simp [rebuildStep, RebuildPc.result, fillPrices, hc]
      · by_cases hroom : area.priceCount < shmMaxCities
        · simp only [rebuildStep, RebuildPc.result, fillPrices, hc, hroom, dite_true,
            PriceArea.push_eq]
          rfl
        · simp [rebuildStep, RebuildPc.result, fillPrices, hc, hroom]
  | city i c changes =>
    simp only [rebuildStep, RebuildPc.result, PriceArea.modifyRow_modifyRow, Function.comp_def,
      terminate_strncpy]
  | terminator i c changes =>
    simp only [rebuildStep, RebuildPc.result, PriceArea.modifyRow_modifyRow, Function.comp_def]
  | price i c changes =>
    simp only [rebuildStep, RebuildPc.result, PriceArea.modifyRow_modifyRow, Function.comp_def]
  | active i c changes => rfl
  | unlock => rfl

/-! ## The lookup -/

/-- Where the server is between its `pthread_rwlock_rdlock` and its `pthread_rwlock_unlock`. -/
inductive LookupPc where
  /-- Before the test `i < price_count`. -/
  | test (i : ℕ)
  /-- Before the read of `cp.active`. -/
  | active (i : ℕ)
  /-- Before the comparison with `cp.city`. -/
  | compare (i : ℕ)
  /-- Before the read of `cp.price_per_minute`. -/
  | price (i : ℕ)
  /-- Behind the loop, with the price to be returned. -/
  | unlock (price : ℚ)
deriving DecidableEq

/-- One step of the lookup of a city. -/
def lookupStep (area : PriceArea) (city : Bytes) : LookupPc → LookupPc
  | .test i => if i < area.priceCount then .active i else .unlock (-1)
  | .active i => if (area.row i).active then .compare i else .test (i + 1)
  | .compare i => if city = (area.row i).city.str then .price i else .test (i + 1)
  | .price i => .unlock (area.row i).pricePerMinute
  | .unlock price => .unlock price

/-- The answer that the rows from `i` on have for a city. -/
def answerFrom (area : PriceArea) (city : Bytes) (i : ℕ) : ℚ :=
  match (area.live.drop i).find? fun cp => cp.active && city = cp.city.str with
  | some cp => cp.pricePerMinute
  | none => -1

/-- The answer that the rest of the lookup finds in the present table. -/
def LookupPc.answer (area : PriceArea) (city : Bytes) : LookupPc → ℚ
  | test i => answerFrom area city i
  | active i =>
    if (area.row i).active ∧ city = (area.row i).city.str then (area.row i).pricePerMinute
    else answerFrom area city (i + 1)
  | compare i =>
    if city = (area.row i).city.str then (area.row i).pricePerMinute
    else answerFrom area city (i + 1)
  | price i => (area.row i).pricePerMinute
  | unlock p => p

/-- The rows in use begin with the row of the index. -/
lemma PriceArea.live_drop {area : PriceArea} {i : ℕ} (h : i < area.priceCount) :
    area.live.drop i = area.row i :: area.live.drop (i + 1) := by
  have hlive : i < area.live.length := by rw [area.length_live]; exact h
  have hprices : i < area.prices.length := by
    rw [area.length_prices]
    exact h.trans_le area.priceCount_le
  rw [List.drop_eq_getElem_cons hlive]
  congr 1
  simp only [PriceArea.live, PriceArea.row, List.getElem_take, List.getElem?_eq_getElem hprices,
    Option.getD_some]

/-- **The lookup searches the table.**  As long as the table stays as it is, no step changes what
the lookup ends with. -/
lemma answer_lookupStep (area : PriceArea) (city : Bytes) (pc : LookupPc) :
    (lookupStep area city pc).answer area city = pc.answer area city := by
  cases pc with
  | test i =>
    by_cases hi : i < area.priceCount
    · simp only [lookupStep, hi, if_true, LookupPc.answer, answerFrom, PriceArea.live_drop hi,
        List.find?_cons]
      by_cases hrow : (area.row i).active ∧ city = (area.row i).city.str
      · simp [hrow]
      · have hneg : ((area.row i).active && decide (city = (area.row i).city.str)) = false := by
          simpa using hrow
        rw [if_neg hrow, hneg]
    · have hnil : area.live.drop i = [] := by
        rw [List.drop_eq_nil_iff, area.length_live]
        exact not_lt.mp hi
      simp [lookupStep, hi, LookupPc.answer, answerFrom, hnil]
  | active i =>
    by_cases hrow : (area.row i).active <;> simp [lookupStep, LookupPc.answer, hrow]
  | compare i =>
    by_cases hrow : city = (area.row i).city.str <;> simp [lookupStep, LookupPc.answer, hrow]
  | price i => rfl
  | unlock price => rfl

/-! ## The two processes -/

/-- What a lookup answered, and the tables that it may be measured against: the table at its
beginning and those that rebuilds overlapping with it begin or end with. -/
structure LookupResult where
  city : Bytes
  tables : List PriceArea
  answer : ℚ

/-- The shared table, the two processes and their locks.  The last four fields belong to no process:
they record what has happened. -/
structure PriceRace where
  area : PriceArea
  /-- The `g_shm_lock` of the server. -/
  serverLock : RwLock
  /-- The `g_shm_lock` of the database process. -/
  dbLock : RwLock
  /-- The city and the place of the lookup that is running. -/
  lookup : Option (Bytes × LookupPc)
  /-- The place of the rebuild that is running. -/
  rebuild : Option RebuildPc
  /-- The table before the latest rebuild. -/
  before : PriceArea
  /-- The table after the latest rebuild. -/
  after : PriceArea
  /-- The tables that the running lookup may be measured against. -/
  tables : List PriceArea
  /-- The lookups that have returned. -/
  results : List LookupResult

/-- A step of the server or of the database process. -/
inductive RaceEvent where
  /-- `lookup` is called and takes the read lock. -/
  | rdlock (city : Bytes)
  /-- The next step of `lookup`. -/
  | lookupStep
  /-- `reload` comes to its last part and takes the write lock. -/
  | wrlock (changes : List Change)
  /-- The next step of the rebuild. -/
  | rebuildStep
deriving DecidableEq

/-- The effect of a step, if the process can take it. -/
def raceStep (s : PriceRace) : RaceEvent → Option PriceRace
  | .rdlock city => match s.lookup with
    | some _ => none
    | none => s.serverLock.rdlock.map fun lock => { s with
        serverLock := lock
        lookup := some (city, .test 0)
        tables := if s.rebuild.isSome then [s.before, s.after] else [s.after] }
  | .lookupStep => match s.lookup with
    | none => none
    | some (city, .unlock answer) => some { s with
        serverLock := s.serverLock.unlock
        lookup := none
        results := s.results ++ [⟨city, s.tables, answer⟩] }
    | some (city, pc) => some { s with lookup := some (city, lookupStep s.area city pc) }
  | .wrlock changes => match s.rebuild with
    | some _ => none
    | none => s.dbLock.wrlock.map fun lock => { s with
        dbLock := lock
        rebuild := some (.clear changes)
        before := s.area
        after := fillPrices s.area.clear changes
        tables := s.tables ++ [fillPrices s.area.clear changes] }
  | .rebuildStep => match s.rebuild with
    | none => none
    | some .unlock => some { s with dbLock := s.dbLock.unlock, rebuild := none }
    | some pc => some { s with
        area := (rebuildStep s.area pc).1
        rebuild := some (rebuildStep s.area pc).2 }

/-- Both processes are outside. -/
def PriceRace.init (area : PriceArea) : PriceRace where
  area := area
  serverLock := .free
  dbLock := .free
  lookup := none
  rebuild := none
  before := area
  after := area
  tables := []
  results := []

section Cases

variable {s s' : PriceRace} {city : Bytes} {changes : List Change}

/-- A lookup begins with the server's own lock. -/
lemma raceStep_rdlock : raceStep s (.rdlock city) = some s' ↔
    s.lookup = none ∧ ∃ lock, s.serverLock.rdlock = some lock ∧
      s' = { s with
        serverLock := lock
        lookup := some (city, .test 0)
        tables := if s.rebuild.isSome then [s.before, s.after] else [s.after] } := by
  cases h : s.lookup <;> simp [raceStep, h, @eq_comm _ s']

/-- It goes on as it does alone, and gives the lock back at the end. -/
lemma raceStep_lookupStep : raceStep s .lookupStep = some s' ↔
    ∃ city pc, s.lookup = some (city, pc) ∧
      ((∃ answer, pc = .unlock answer ∧ s' = { s with
          serverLock := s.serverLock.unlock
          lookup := none
          results := s.results ++ [⟨city, s.tables, answer⟩] }) ∨
        (∀ answer, pc ≠ .unlock answer) ∧
          s' = { s with lookup := some (city, lookupStep s.area city pc) }) := by
  cases h : s.lookup with
  | none => simp [raceStep, h]
  | some p =>
    obtain ⟨city, pc⟩ := p
    cases pc <;> simp [raceStep, h, eq_comm]

/-- A rebuild begins with the lock of the database process. -/
lemma raceStep_wrlock : raceStep s (.wrlock changes) = some s' ↔
    s.rebuild = none ∧ ∃ lock, s.dbLock.wrlock = some lock ∧
      s' = { s with
        dbLock := lock
        rebuild := some (.clear changes)
        before := s.area
        after := fillPrices s.area.clear changes
        tables := s.tables ++ [fillPrices s.area.clear changes] } := by
  cases h : s.rebuild <;> simp [raceStep, h, @eq_comm _ s']

/-- It goes on as it does alone, and gives the lock back at the end. -/
lemma raceStep_rebuildStep : raceStep s .rebuildStep = some s' ↔
    ∃ pc, s.rebuild = some pc ∧
      (pc = .unlock ∧ s' = { s with dbLock := s.dbLock.unlock, rebuild := none } ∨
        pc ≠ .unlock ∧ s' = { s with
          area := (rebuildStep s.area pc).1
          rebuild := some (rebuildStep s.area pc).2 }) := by
  cases h : s.rebuild with
  | none => simp [raceStep, h]
  | some pc => cases pc <;> simp [raceStep, h, eq_comm]

end Cases

/-- Each process holds its own lock exactly inside its section. -/
structure LocksInv (s : PriceRace) : Prop where
  serverLock_eq : s.serverLock = if s.lookup.isSome then ⟨1, false, by simp⟩ else .free
  dbLock_eq : s.dbLock = if s.rebuild.isSome then ⟨0, true, fun _ => rfl⟩ else .free

/-- Every step keeps this. -/
lemma LocksInv.step {s s' : PriceRace} {e : RaceEvent} (h : LocksInv s)
    (hs : raceStep s e = some s') : LocksInv s' := by
  cases e with
  | rdlock city =>
    obtain ⟨hout, lock, hlock, rfl⟩ := raceStep_rdlock.mp hs
    refine ⟨?_, h.dbLock_eq⟩
    rw [h.serverLock_eq, hout] at hlock
    exact (Option.some.inj hlock).symm
  | lookupStep =>
    obtain ⟨city, pc, hpc, ⟨answer, -, rfl⟩ | ⟨-, rfl⟩⟩ := raceStep_lookupStep.mp hs
    · refine ⟨?_, h.dbLock_eq⟩
      simp only [h.serverLock_eq, hpc]
      rfl
    · refine ⟨?_, h.dbLock_eq⟩
      rw [h.serverLock_eq, hpc]
      rfl
  | wrlock changes =>
    obtain ⟨hout, lock, hlock, rfl⟩ := raceStep_wrlock.mp hs
    refine ⟨h.serverLock_eq, ?_⟩
    rw [h.dbLock_eq, hout] at hlock
    exact (Option.some.inj hlock).symm
  | rebuildStep =>
    obtain ⟨pc, hpc, ⟨-, rfl⟩ | ⟨-, rfl⟩⟩ := raceStep_rebuildStep.mp hs
    · refine ⟨h.serverLock_eq, ?_⟩
      simp only [h.dbLock_eq, hpc]
      rfl
    · refine ⟨h.serverLock_eq, ?_⟩
      rw [h.dbLock_eq, hpc]
      rfl

/-- **The locks exclude nobody.**  Wherever the other process is, a process that is outside passes
its lock call. -/
theorem isSome_raceStep_lock {area : PriceArea} {es : List RaceEvent} {s : PriceRace}
    (h : Trace raceStep (fun _ _ => True) (.init area) es s) :
    (s.lookup = none → ∀ city, (raceStep s (.rdlock city)).isSome) ∧
      (s.rebuild = none → ∀ changes, (raceStep s (.wrlock changes)).isSome) := by
  have hlocks : LocksInv s := h.invariant ⟨rfl, rfl⟩ fun _ _ _ hi _ hs => hi.step hs
  constructor
  · intro hout city
    have hfree := hlocks.serverLock_eq
    simp only [hout, Option.isSome_none, Bool.false_eq_true, if_false] at hfree
    simp [raceStep, hout, hfree]
  · intro hout changes
    have hfree := hlocks.dbLock_eq
    simp only [hout, Option.isSome_none, Bool.false_eq_true, if_false] at hfree
    simp [raceStep, hout, hfree]

/-! ## What would be protected -/

/-- A process passes its lock call only while the other one is outside its section. -/
def Alone (s : PriceRace) : RaceEvent → Prop
  | .rdlock _ => s.rebuild = none
  | .wrlock _ => s.lookup = none
  | _ => True

instance (s : PriceRace) (e : RaceEvent) : Decidable (Alone s e) := by
  cases e <;> unfold Alone <;> infer_instance

/-- The answer is that of one of the tables; so a city that all of them price is not reported
unknown. -/
structure LookupResult.Atomic (r : LookupResult) : Prop where
  answer_eq : ∃ table ∈ r.tables, r.answer = ParkingSystem.lookup table r.city
  ne_unknown : (∀ table ∈ r.tables, ParkingSystem.lookup table r.city ≠ -1) → r.answer ≠ -1

/-- What the locks are meant to achieve. -/
structure PriceRace.Protected (s : PriceRace) : Prop where
  /-- The two processes are not inside their sections at once. -/
  exclusive : s.lookup = none ∨ s.rebuild = none
  /-- Every lookup has the answer of the table before or after a reload. -/
  atomic : ∀ r ∈ s.results, r.Atomic

/-- The invariant of the runs in which the sections do not overlap. -/
structure RaceInv (s : PriceRace) : Prop where
  exclusive : s.lookup = none ∨ s.rebuild = none
  /-- An idle database process has left the table as its latest rebuild made it. -/
  area_eq : s.rebuild = none → s.area = s.after
  /-- A rebuild is going to end with the table after it. -/
  result_eq : ∀ pc, s.rebuild = some pc → pc.result s.area = s.after
  /-- A lookup is going to have the answer of the present table. -/
  answer_eq : ∀ city pc, s.lookup = some (city, pc) →
    s.after ∈ s.tables ∧ pc.answer s.area city = ParkingSystem.lookup s.after city
  atomic : ∀ r ∈ s.results, r.Atomic

namespace RaceInv

variable {s s' : PriceRace} {e : RaceEvent}

/-- The invariant holds at the start. -/
lemma init (area : PriceArea) : RaceInv (PriceRace.init area) where
  exclusive := .inl rfl
  area_eq _ := rfl
  result_eq _ h := by cases h
  answer_eq _ _ h := by cases h
  atomic _ h := by cases h

/-- Steps that are taken alone keep the invariant. -/
lemma step (h : RaceInv s) (hok : Alone s e) (hs : raceStep s e = some s') : RaceInv s' := by
  cases e with
  | rdlock city =>
    obtain ⟨-, lock, -, rfl⟩ := raceStep_rdlock.mp hs
    have hout : s.rebuild = none := hok
    refine ⟨.inr hout, h.area_eq, h.result_eq, ?_, h.atomic⟩
    intro city' pc hpc
    obtain ⟨rfl, rfl⟩ := Prod.mk.inj (Option.some.inj hpc)
    refine ⟨by simp [hout], ?_⟩
    rw [← h.area_eq hout]
    rfl
  | lookupStep =>
    obtain ⟨city, pc, hpc, ⟨answer, rfl, rfl⟩ | ⟨-, rfl⟩⟩ := raceStep_lookupStep.mp hs
    · obtain ⟨hmem, hanswer⟩ := h.answer_eq city _ hpc
      refine ⟨.inl rfl, h.area_eq, h.result_eq, nofun, ?_⟩
      intro r hr
      rcases List.mem_append.mp hr with hr | hr
      · exact h.atomic r hr
      · obtain rfl := List.mem_singleton.mp hr
        have hlookup : answer = ParkingSystem.lookup s.after city := hanswer
        exact ⟨⟨s.after, hmem, hlookup⟩, fun hknown => hlookup ▸ hknown s.after hmem⟩
    · have hout : s.rebuild = none := h.exclusive.resolve_left (by simp [hpc])
      refine ⟨.inr hout, h.area_eq, h.result_eq, ?_, h.atomic⟩
      intro city' pc' hpc'
      obtain ⟨rfl, rfl⟩ := Prod.mk.inj (Option.some.inj hpc')
      obtain ⟨hmem, hanswer⟩ := h.answer_eq city pc hpc
      exact ⟨hmem, (answer_lookupStep s.area city pc).trans hanswer⟩
  | wrlock changes =>
    obtain ⟨-, lock, -, rfl⟩ := raceStep_wrlock.mp hs
    have hout : s.lookup = none := hok
    refine ⟨.inl hout, nofun, ?_, ?_, h.atomic⟩
    · intro pc hpc
      obtain rfl := Option.some.inj hpc
      rfl
    · intro city pc hpc
      rw [hout] at hpc
      cases hpc
  | rebuildStep =>
    obtain ⟨pc, hpc, ⟨rfl, rfl⟩ | ⟨-, rfl⟩⟩ := raceStep_rebuildStep.mp hs
    · exact ⟨.inr rfl, fun _ => h.result_eq _ hpc, nofun,
        h.answer_eq, h.atomic⟩
    · have hout : s.lookup = none := h.exclusive.resolve_right (by simp [hpc])
      refine ⟨.inl hout, nofun, ?_, ?_, h.atomic⟩
      · intro pc' hpc'
        obtain rfl := Option.some.inj hpc'
        exact (result_rebuildStep s.area pc).trans (h.result_eq pc hpc)
      · intro city pc hpc
        rw [hout] at hpc
        cases hpc

end RaceInv

/-- **Lookups between reloads.**  In a run in which each process passes its lock call only while the
other one is outside its section, the sections never overlap and every lookup has the answer of the
table before or after a reload. -/
theorem protected_of_alone {area : PriceArea} {es : List RaceEvent} {s : PriceRace}
    (h : Trace raceStep Alone (.init area) es s) : s.Protected :=
  have hinv : RaceInv s := h.invariant (RaceInv.init area) fun _ _ _ hi hok hs => hi.step hok hs
  ⟨hinv.exclusive, hinv.atomic⟩

/-! ## A lookup over a table without rows -/

/-- A table with the price of Haifa. -/
def haifaTable : PriceArea :=
  PriceArea.zero.push ⟨strncpy cityNameLen (ascii "Haifa"), 3 / 10, true⟩
    PriceArea.priceCount_zero_lt

/-- A lookup after a reload has the new price. -/
theorem protected_of_alone_haifa :
    ∃ s, Trace raceStep Alone (.init haifaTable)
        (.wrlock [⟨false, ascii "Haifa", 1 / 2⟩] :: List.replicate 8 .rebuildStep ++
          .rdlock (ascii "Haifa") :: List.replicate 5 .lookupStep) s ∧
      s.results.map LookupResult.answer = [1 / 2] ∧ s.Protected := by
  have hrun : ∃ s, replayEvents raceStep Alone (.init haifaTable)
      (.wrlock [⟨false, ascii "Haifa", 1 / 2⟩] :: List.replicate 8 .rebuildStep ++
          .rdlock (ascii "Haifa") :: List.replicate 5 .lookupStep) = some s ∧
      s.results.map LookupResult.answer = [1 / 2] := by
    rw [← Option.map_eq_some_iff]
    decide +kernel
  obtain ⟨s, hs, hanswer⟩ := hrun
  exact ⟨s, .of_replayEvents hs, hanswer, protected_of_alone (.of_replayEvents hs)⟩

/-- A lookup that tests the count between `price_count = 0` and the first row finds no city,
although Haifa is priced before and after the reload. -/
theorem not_every_run_protected :
    ¬ ∀ area es s, Trace raceStep (fun _ _ => True) (.init area) es s → s.Protected := by
  intro h
  have hrun : (replayEvents raceStep (fun _ _ => True) (.init haifaTable)
      [.wrlock [⟨false, ascii "Haifa", 1 / 2⟩], .rebuildStep, .rdlock (ascii "Haifa"), .lookupStep,
        .lookupStep]).map (fun s => s.results.map fun r =>
          (r.answer, r.tables.map fun table => lookup table r.city)) =
      some [(-1, [3 / 10, 1 / 2])] := by
    decide +kernel
  obtain ⟨s, hs, hresults⟩ := Option.map_eq_some_iff.mp hrun
  obtain ⟨r, hr⟩ := List.map_eq_singleton_iff.mp hresults
  have hatomic := (h haifaTable _ s (.of_replayEvents hs)).atomic r (by simp [hr.1])
  obtain ⟨hanswer, htables⟩ := Prod.mk.inj hr.2
  refine hatomic.ne_unknown ?_ hanswer
  intro table htable
  have hmem : lookup table r.city ∈ [3 / 10, 1 / 2] := htables ▸ List.mem_map_of_mem htable
  intro hunknown
  rw [hunknown] at hmem
  revert hmem
  decide +kernel

end ParkingSystem
