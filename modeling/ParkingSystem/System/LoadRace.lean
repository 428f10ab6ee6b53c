import ParkingSystem.Foundation.Trace
import ParkingSystem.Db.PriceReloader

/-!
# Two processes load the prices

When the system starts, the server loads the prices into the shared table by
`PriceTable::loadFromFile` and the database process by `PriceReloader::reload`.  Each of them locks
the lock of its own process only, so the two loops may be mixed in any order.

Both test that the table has room, and later read `price_count` once more for the index of the row.
In between the other process may have taken the last row.  Then the row is written behind the
table, over `record_count` and the ring buffer.  This cannot happen as long as the files together
have no more cities than the table has rows, or one of them has none; otherwise there is an order of
steps in which it does.
-/

namespace ParkingSystem

open Foundation

/-! ## The code -/

/-- Where the server is in `loadFromFile`.  The assignments to a row are one step. -/
inductive ServerLoadPc where
  /-- Before `price_count = 0`, with the strings that `fgets` will read. -/
  | clear (pieces : List Bytes)
  /-- At the head of the loop. -/
  | head (pieces : List Bytes)
  /-- Before the read of `price_count` for the index of the row. -/
  | index (entry : Bytes × ℚ) (pieces : List Bytes)
  /-- Before the row is written. -/
  | fill (i : ℕ) (entry : Bytes × ℚ) (pieces : List Bytes)
  /-- Before the read of `++price_count`. -/
  | read (pieces : List Bytes)
  /-- Before the write of `++price_count`, with the value read. -/
  | write (count : ℕ) (pieces : List Bytes)
  | done

/-- Where the database process is between the lock and the unlock of `reload`. -/
inductive DbLoadPc where
  /-- Before `price_count = 0`. -/
  | clear (changes : List Change)
  /-- At the head of the loop. -/
  | head (changes : List Change)
  /-- Before the read of `price_count++`. -/
  | read (c : Change) (changes : List Change)
  /-- Before the write of `price_count++`, with the value read. -/
  | write (count : ℕ) (c : Change) (changes : List Change)
  /-- Before the row is written. -/
  | fill (i : ℕ) (c : Change) (changes : List Change)
  | done

/-- The pricing table in the segment, and the two processes.  A row with an index that is too large
lies behind the table. -/
structure LoadRace where
  count : ℕ
  rows : ℕ → CityPrice
  server : ServerLoadPc
  db : DbLoadPc

/-- One of the two processes takes a step. -/
inductive LoadEvent where
  | server
  | db
deriving DecidableEq

section Step

variable (atof : Bytes → ℚ)

/-- The next step of the server. -/
def LoadRace.serverStep (s : LoadRace) : Option LoadRace :=
  match s.server with
  | .clear pieces => some { s with count := 0, server := .head pieces }
  | .head [] => some { s with server := .done }
  | .head (piece :: pieces) =>
    if s.count < shmMaxCities then
      match loadEntry atof piece with
      | none => some { s with server := .head pieces }
      | some entry => some { s with server := .index entry pieces }
    else some { s with server := .done }
  | .index entry pieces => some { s with server := .fill s.count entry pieces }
  | .fill i entry pieces =>
    some { s with rows := Function.update s.rows i (.ofEntry entry), server := .read pieces }
  | .read pieces => some { s with server := .write s.count pieces }
  | .write count pieces => some { s with count := count + 1, server := .head pieces }
  | .done => none

/-- The next step of the database process. -/
def LoadRace.dbStep (s : LoadRace) : Option LoadRace :=
  match s.db with
  | .clear changes => some { s with count := 0, db := .head changes }
  | .head [] => some { s with db := .done }
  | .head (c :: changes) =>
    if c.remove then some { s with db := .head changes }
    else if shmMaxCities ≤ s.count then some { s with db := .done }
    else some { s with db := .read c changes }
  | .read c changes => some { s with db := .write s.count c changes }
  | .write count c changes => some { s with count := count + 1, db := .fill count c changes }
  | .fill i c changes =>
    some { s with
      rows := Function.update s.rows i (.ofEntry (c.city, c.price))
      db := .head changes }
  | .done => none

/-- What happens at an event. -/
def loadStep (s : LoadRace) : LoadEvent → Option LoadRace
  | .server => s.serverStep atof
  | .db => s.dbStep

variable (stod : Bytes → Option ℚ)

/-- The two processes before they load their files, with any table in the segment.  `reload` does
not touch the table if the file has no changes. -/
def LoadRace.init (serverFile dbFile : Bytes) (count : ℕ) (rows : ℕ → CityPrice) : LoadRace where
  count := count
  rows := rows
  server := .clear (fgetsAll 256 serverFile)
  db := if readChanges stod dbFile = [] then .done else .clear (readChanges stod dbFile)

end Step

/-- No process is about to write a row behind the table. -/
def LoadRace.InBounds (s : LoadRace) : Prop :=
  (∀ i entry pieces, s.server = .fill i entry pieces → i < shmMaxCities) ∧
    ∀ i c changes, s.db = .fill i c changes → i < shmMaxCities

/-! ## What is left to load -/

/-- The number of entries in strings. -/
def numEntries (atof : Bytes → ℚ) (pieces : List Bytes) : ℕ :=
  (pieces.filterMap (loadEntry atof)).length

/-- The number of entries in changes. -/
def numAdded (changes : List Change) : ℕ := (changes.filterMap Change.entry).length

/-- How often the server will still increment the counter, at most. -/
def ServerLoadPc.left (atof : Bytes → ℚ) : ServerLoadPc → ℕ
  | clear pieces => numEntries atof pieces
  | head pieces => numEntries atof pieces
  | index _ pieces => numEntries atof pieces + 1
  | fill _ _ pieces => numEntries atof pieces + 1
  | read pieces => numEntries atof pieces + 1
  | write _ pieces => numEntries atof pieces + 1
  | done => 0

/-- How often the database process will still increment the counter, at most. -/
def DbLoadPc.left : DbLoadPc → ℕ
  | clear changes => numAdded changes
  | head changes => numAdded changes
  | read _ changes => numAdded changes + 1
  | write _ _ changes => numAdded changes + 1
  | fill _ _ changes => numAdded changes
  | done => 0

section Left

variable {atof : Bytes → ℚ} {piece : Bytes} {pieces : List Bytes} {c : Change}
  {changes : List Change}

/-- A string that is no entry is not counted. -/
lemma numEntries_of_none (h : loadEntry atof piece = none) :
    numEntries atof (piece :: pieces) = numEntries atof pieces := by
  simp [numEntries, h]

/-- An entry is counted once. -/
lemma numEntries_of_some {entry : Bytes × ℚ} (h : loadEntry atof piece = some entry) :
    numEntries atof (piece :: pieces) = numEntries atof pieces + 1 := by
  simp [numEntries, h]

/-- A removal is not counted. -/
lemma numAdded_of_remove (h : c.remove = true) : numAdded (c :: changes) = numAdded changes := by
  simp [numAdded, Change.entry, h]

/-- Another change is counted once. -/
lemma numAdded_of_not_remove (h : c.remove = false) :
    numAdded (c :: changes) = numAdded changes + 1 := by
  simp [numAdded, Change.entry, h]

end Left

/-! ## Together the files fit the table -/

/-- The value of the counter that the server has read. -/
def ServerLoadPc.held : ServerLoadPc → Option ℕ
  | fill i _ _ => some i
  | write count _ => some count
  | _ => none

/-- The value of the counter that the database process has read, or has just written. -/
def DbLoadPc.held : DbLoadPc → Option ℕ
  | write count _ _ => some count
  | fill i _ _ => some (i + 1)
  | _ => none

/-- A process has set the counter to zero. -/
def LoadRace.Cleared (s : LoadRace) : Prop :=
  (∀ pieces, s.server ≠ .clear pieces) ∨ ∀ changes, s.db ≠ .clear changes

/-- How often the counter will still be incremented, at most. -/
def LoadRace.left (atof : Bytes → ℚ) (s : LoadRace) : ℕ := s.server.left atof + s.db.left

/-- The counter, and what the processes hold of it, leaves room for the increments to come: an
increment that is lost only makes it smaller. -/
structure SumInv (atof : Bytes → ℚ) (total : ℕ) (s : LoadRace) : Prop where
  left_le : s.left atof ≤ total
  count : s.Cleared → s.count + s.left atof ≤ total
  server : ∀ v ∈ s.server.held, v + s.left atof ≤ total
  db : ∀ v ∈ s.db.held, v + s.left atof ≤ total

namespace SumInv

variable {atof : Bytes → ℚ} {total : ℕ} {s s' : LoadRace}

/-- The server goes on without writing the counter, and holds nothing but what it reads. -/
lemma goServer (h : SumInv atof total s) (hne : ∀ pieces, s.server ≠ .clear pieces)
    {pc : ServerLoadPc} (hleft : pc.left atof ≤ s.server.left atof)
    (hheld : ∀ v ∈ pc.held, v = s.count) (rows : ℕ → CityPrice) :
    SumInv atof total { s with rows := rows, server := pc } := by
  have hcount := h.count (.inl hne)
  have hle : LoadRace.left atof { s with rows := rows, server := pc } ≤ s.left atof :=
    Nat.add_le_add_right hleft _
  refine ⟨hle.trans h.left_le, fun _ => (Nat.add_le_add_left hle _).trans hcount, ?_, ?_⟩
  · intro v hv
    obtain rfl := hheld v hv
    exact (Nat.add_le_add_left hle _).trans hcount
  · exact fun v hv => (Nat.add_le_add_left hle _).trans (h.db v hv)

/-- The database process goes on without writing the counter. -/
lemma goDb (h : SumInv atof total s) (hne : ∀ changes, s.db ≠ .clear changes)
    {pc : DbLoadPc} (hleft : pc.left ≤ s.db.left) (hheld : ∀ v ∈ pc.held, v = s.count)
    (rows : ℕ → CityPrice) : SumInv atof total { s with rows := rows, db := pc } := by
  have hcount := h.count (.inr hne)
  have hle : LoadRace.left atof { s with rows := rows, db := pc } ≤ s.left atof :=
    Nat.add_le_add_left hleft _
  refine ⟨hle.trans h.left_le, fun _ => (Nat.add_le_add_left hle _).trans hcount, ?_, ?_⟩
  · exact fun v hv => (Nat.add_le_add_left hle _).trans (h.server v hv)
  · intro v hv
    obtain rfl := hheld v hv
    exact (Nat.add_le_add_left hle _).trans hcount

/-- The steps of the server keep the invariant. -/
lemma serverStep (h : SumInv atof total s) (hs : s.serverStep atof = some s') :
    SumInv atof total s' := by
  have hheld := h.server
  have hleft := h.left_le
  unfold LoadRace.serverStep at hs
  cases hpc : s.server with
  | clear pieces =>
    rw [hpc] at hs
    obtain rfl := Option.some.inj hs
    have hsame : LoadRace.left atof { s with count := 0, server := .head pieces } =
        s.left atof := by
      simp [LoadRace.left, hpc, ServerLoadPc.left]
    refine ⟨by rwa [hsame], fun _ => ?_, nofun, by rw [hsame]; exact h.db⟩
    rw [hsame]
    simpa using hleft
  | head pieces =>
    have hne : ∀ pieces', s.server ≠ .clear pieces' := by simp [hpc]
    cases pieces with
    | nil =>
      rw [hpc] at hs
      obtain rfl := Option.some.inj hs
      exact h.goServer hne (by simp [ServerLoadPc.left]) (by simp [ServerLoadPc.held]) s.rows
    | cons piece pieces =>
      rw [hpc] at hs
      simp only at hs
      split_ifs at hs
      · cases hentry : loadEntry atof piece with
        | none =>
          rw [hentry] at hs
          obtain rfl := Option.some.inj hs
          exact h.goServer hne (by simp [hpc, ServerLoadPc.left, numEntries_of_none hentry])
            (by simp [ServerLoadPc.held]) s.rows
        | some entry =>
          rw [hentry] at hs
          obtain rfl := Option.some.inj hs
          exact h.goServer hne (by simp [hpc, ServerLoadPc.left, numEntries_of_some hentry])
            (by simp [ServerLoadPc.held]) s.rows
      · obtain rfl := Option.some.inj hs
        exact h.goServer hne (by simp [ServerLoadPc.left]) (by simp [ServerLoadPc.held]) s.rows
  | index entry pieces =>
    rw [hpc] at hs
    obtain rfl := Option.some.inj hs
    exact h.goServer (by simp [hpc]) (by simp [hpc, ServerLoadPc.left])
      (by simp [ServerLoadPc.held]) s.rows
  | fill i entry pieces =>
    rw [hpc] at hs
    obtain rfl := Option.some.inj hs
    exact h.goServer (by simp [hpc]) (by simp [hpc, ServerLoadPc.left])
      (by simp [ServerLoadPc.held]) _
  | read pieces =>
    rw [hpc] at hs
    obtain rfl := Option.some.inj hs
    exact h.goServer (by simp [hpc]) (by simp [hpc, ServerLoadPc.left])
      (by simp [ServerLoadPc.held]) s.rows
  | write count pieces =>
    rw [hpc] at hs
    obtain rfl := Option.some.inj hs
    have hwritten := hheld count (by simp [hpc, ServerLoadPc.held])
    have hnext : s.left atof =
        LoadRace.left atof { s with count := count + 1, server := .head pieces } + 1 := by
      simp only [LoadRace.left, hpc, ServerLoadPc.left]
      omega
    refine ⟨by omega, fun _ => by simp only; omega, nofun, fun v hv => ?_⟩
    have := h.db v hv
    omega
  | done =>
    rw [hpc] at hs
    cases hs

/-- The steps of the database process keep the invariant. -/
lemma dbStep (h : SumInv atof total s) (hs : s.dbStep = some s') : SumInv atof total s' := by
  have hheld := h.db
  have hleft := h.left_le
  unfold LoadRace.dbStep at hs
  cases hpc : s.db with
  | clear changes =>
    rw [hpc] at hs
    obtain rfl := Option.some.inj hs
    have hsame : LoadRace.left atof { s with count := 0, db := .head changes } = s.left atof := by
      simp [LoadRace.left, hpc, DbLoadPc.left]
    refine ⟨by rwa [hsame], fun _ => ?_, by rw [hsame]; exact h.server, nofun⟩
    rw [hsame]
    simpa using hleft
  | head changes =>
    have hne : ∀ changes', s.db ≠ .clear changes' := by simp [hpc]
    cases changes with
    | nil =>
      rw [hpc] at hs
      obtain rfl := Option.some.inj hs
      exact h.goDb hne (by simp [DbLoadPc.left]) (by simp [DbLoadPc.held]) s.rows
    | cons c changes =>
      rw [hpc] at hs
      simp only at hs
      split_ifs at hs with hremove
      · obtain rfl := Option.some.inj hs
        exact h.goDb hne (by simp [hpc, DbLoadPc.left, numAdded_of_remove hremove])
          (by simp [DbLoadPc.held]) s.rows
      · obtain rfl := Option.some.inj hs
        exact h.goDb hne (by simp [DbLoadPc.left]) (by simp [DbLoadPc.held]) s.rows
      · obtain rfl := Option.some.inj hs
        have hadd : c.remove = false := by simpa using hremove
        exact h.goDb hne (by simp [hpc, DbLoadPc.left, numAdded_of_not_remove hadd])
          (by simp [DbLoadPc.held]) s.rows
  | read c changes =>
    rw [hpc] at hs
    obtain rfl := Option.some.inj hs
    exact h.goDb (by simp [hpc]) (by simp [hpc, DbLoadPc.left]) (by simp [DbLoadPc.held]) s.rows
  | write count c changes =>
    rw [hpc] at hs
    obtain rfl := Option.some.inj hs
    have hwritten := hheld count (by simp [hpc, DbLoadPc.held])
    have hnext : s.left atof =
        LoadRace.left atof { s with count := count + 1, db := .fill count c changes } + 1 := by
      simp only [LoadRace.left, hpc, DbLoadPc.left]
      omega
    refine ⟨by omega, fun _ => by simp only; omega, fun v hv => ?_, fun v hv => ?_⟩
    · have := h.server v hv
      omega
    · obtain rfl : count + 1 = v := by simpa [DbLoadPc.held] using hv
      omega
  | fill i c changes =>
    rw [hpc] at hs
    obtain rfl := Option.some.inj hs
    exact h.goDb (by simp [hpc]) (by simp [hpc, DbLoadPc.left]) (by simp [DbLoadPc.held]) _
  | done =>
    rw [hpc] at hs
    cases hs

/-- No row behind the table is written when all increments fit it. -/
lemma inBounds (h : SumInv atof total s) (htotal : total ≤ shmMaxCities) : s.InBounds := by
  constructor
  · intro i entry pieces hpc
    have hheld := h.server i (by simp [hpc, ServerLoadPc.held])
    simp only [LoadRace.left, hpc, ServerLoadPc.left] at hheld
    omega
  · intro i c changes hpc
    have hheld := h.db (i + 1) (by simp [hpc, DbLoadPc.held])
    omega

end SumInv

/-! ## One process alone -/

/-- A server without entries does nothing but clear the table. -/
def ServerLoadPc.Idle (atof : Bytes → ℚ) : ServerLoadPc → Prop
  | clear pieces => numEntries atof pieces = 0
  | head pieces => numEntries atof pieces = 0
  | done => True
  | _ => False

/-- A database process without entries does nothing but clear the table. -/
def DbLoadPc.Idle : DbLoadPc → Prop
  | clear changes => numAdded changes = 0
  | head changes => numAdded changes = 0
  | done => True
  | _ => False

/-- What an idle server does. -/
lemma serverStep_idle {atof : Bytes → ℚ} {s s' : LoadRace} (h : s.server.Idle atof)
    (hs : s.serverStep atof = some s') :
    s'.server.Idle atof ∧ s'.db = s.db ∧ (s'.count = s.count ∨ s'.count = 0) := by
  unfold LoadRace.serverStep at hs
  cases hpc : s.server with
  | clear pieces =>
    rw [hpc] at h hs
    obtain rfl := Option.some.inj hs
    exact ⟨h, rfl, .inr rfl⟩
  | head pieces =>
    rw [hpc] at h hs
    cases pieces with
    | nil =>
      obtain rfl := Option.some.inj hs
      exact ⟨trivial, rfl, .inl rfl⟩
    | cons piece pieces =>
      simp only at hs
      split_ifs at hs
      · cases hentry : loadEntry atof piece with
        | none =>
          rw [hentry] at hs
          obtain rfl := Option.some.inj hs
          exact ⟨(numEntries_of_none hentry).symm.trans h, rfl, .inl rfl⟩
        | some entry =>
          rw [ServerLoadPc.Idle, numEntries_of_some hentry] at h
          cases h
      · obtain rfl := Option.some.inj hs
        exact ⟨trivial, rfl, .inl rfl⟩
  | done =>
    rw [hpc] at hs
    cases hs
  | _ =>
    rw [hpc] at h
    exact h.elim

/-- What an idle database process does. -/
lemma dbStep_idle {s s' : LoadRace} (h : s.db.Idle) (hs : s.dbStep = some s') :
    s'.db.Idle ∧ s'.server = s.server ∧ (s'.count = s.count ∨ s'.count = 0) := by
  unfold LoadRace.dbStep at hs
  cases hpc : s.db with
  | clear changes =>
    rw [hpc] at h hs
    obtain rfl := Option.some.inj hs
    exact ⟨h, rfl, .inr rfl⟩
  | head changes =>
    rw [hpc] at h hs
    cases changes with
    | nil =>
      obtain rfl := Option.some.inj hs
      exact ⟨trivial, rfl, .inl rfl⟩
    | cons c changes =>
      simp only at hs
      split_ifs at hs with hremove
      · obtain rfl := Option.some.inj hs
        exact ⟨(numAdded_of_remove hremove).symm.trans h, rfl, .inl rfl⟩
      · obtain rfl := Option.some.inj hs
        exact ⟨trivial, rfl, .inl rfl⟩
      · have hadd : c.remove = false := by simpa using hremove
        rw [DbLoadPc.Idle, numAdded_of_not_remove hadd] at h
        cases h
  | done =>
    rw [hpc] at hs
    cases hs
  | _ =>
    rw [hpc] at h
    exact h.elim

/-- The server fills the table alone: what it has tested stays true. -/
structure ServerAlone (s : LoadRace) : Prop where
  idle : s.db.Idle
  index : ∀ entry pieces, s.server = .index entry pieces → s.count < shmMaxCities
  fill : ∀ i entry pieces, s.server = .fill i entry pieces → i < shmMaxCities

/-- The database process fills the table alone. -/
structure DbAlone (atof : Bytes → ℚ) (s : LoadRace) : Prop where
  idle : s.server.Idle atof
  read : ∀ c changes, s.db = .read c changes → s.count < shmMaxCities
  write : ∀ count c changes, s.db = .write count c changes → count < shmMaxCities
  fill : ∀ i c changes, s.db = .fill i c changes → i < shmMaxCities

section Alone

variable {atof : Bytes → ℚ} {s s' : LoadRace} {e : LoadEvent}

/-- Every step keeps this. -/
lemma ServerAlone.step (h : ServerAlone s) (hs : loadStep atof s e = some s') :
    ServerAlone s' := by
  cases e with
  | db =>
    obtain ⟨hidle, hserver, hcount⟩ := dbStep_idle h.idle hs
    refine ⟨hidle, fun entry pieces hpc => ?_, by rw [hserver]; exact h.fill⟩
    rcases hcount with hcount | hcount
    · rw [hcount]
      exact h.index entry pieces (hserver ▸ hpc)
    · rw [hcount]
      norm_num
  | server =>
    change s.serverStep atof = some s' at hs
    unfold LoadRace.serverStep at hs
    cases hpc : s.server with
    | head pieces =>
      rw [hpc] at hs
      cases pieces with
      | nil =>
        obtain rfl := Option.some.inj hs
        exact ⟨h.idle, nofun, nofun⟩
      | cons piece pieces =>
        simp only at hs
        split_ifs at hs with hroom
        · cases hentry : loadEntry atof piece with
          | none =>
            rw [hentry] at hs
            obtain rfl := Option.some.inj hs
            exact ⟨h.idle, nofun, nofun⟩
          | some entry =>
            rw [hentry] at hs
            obtain rfl := Option.some.inj hs
            exact ⟨h.idle, fun _ _ _ => hroom, nofun⟩
        · obtain rfl := Option.some.inj hs
          exact ⟨h.idle, nofun, nofun⟩
    | index entry pieces =>
      rw [hpc] at hs
      obtain rfl := Option.some.inj hs
      refine ⟨h.idle, nofun, fun i _ _ heq => ?_⟩
      obtain rfl := (ServerLoadPc.fill.inj heq).1
      exact h.index entry pieces hpc
    | done =>
      rw [hpc] at hs
      cases hs
    | _ =>
      rw [hpc] at hs
      obtain rfl := Option.some.inj hs
      exact ⟨h.idle, nofun, nofun⟩

/-- Every step keeps this. -/
lemma DbAlone.step (h : DbAlone atof s) (hs : loadStep atof s e = some s') : DbAlone atof s' := by
  cases e with
  | server =>
    obtain ⟨hidle, hdb, hcount⟩ := serverStep_idle h.idle hs
    refine ⟨hidle, fun c changes hpc => ?_, by rw [hdb]; exact h.write, by rw [hdb]; exact h.fill⟩
    rcases hcount with hcount | hcount
    · rw [hcount]
      exact h.read c changes (hdb ▸ hpc)
    · rw [hcount]
      norm_num
  | db =>
    change s.dbStep = some s' at hs
    unfold LoadRace.dbStep at hs
    cases hpc : s.db with
    | head changes =>
      rw [hpc] at hs
      cases changes with
      | nil =>
        obtain rfl := Option.some.inj hs
        exact ⟨h.idle, nofun, nofun, nofun⟩
      | cons c changes =>
        simp only at hs
        split_ifs at hs with hremove hfull
        · obtain rfl := Option.some.inj hs
          exact ⟨h.idle, nofun, nofun, nofun⟩
        · obtain rfl := Option.some.inj hs
          exact ⟨h.idle, nofun, nofun, nofun⟩
        · obtain rfl := Option.some.inj hs
          exact ⟨h.idle, fun _ _ _ => not_le.mp hfull, nofun, nofun⟩
    | read c changes =>
      rw [hpc] at hs
      obtain rfl := Option.some.inj hs
      refine ⟨h.idle, nofun, fun count _ _ heq => ?_, nofun⟩
      obtain rfl := (DbLoadPc.write.inj heq).1
      exact h.read c changes hpc
    | write count c changes =>
      rw [hpc] at hs
      obtain rfl := Option.some.inj hs
      refine ⟨h.idle, nofun, nofun, fun i _ _ heq => ?_⟩
      obtain rfl := (DbLoadPc.fill.inj heq).1
      exact h.write count c changes hpc
    | done =>
      rw [hpc] at hs
      cases hs
    | _ =>
      rw [hpc] at hs
      obtain rfl := Option.some.inj hs
      exact ⟨h.idle, nofun, nofun, nofun⟩

end Alone

/-! ## An order of steps that leaves the table -/

section Overrun

variable (atof : Bytes → ℚ) {s : LoadRace}

/-- The server can load `k` entries in a row, if there is room for them. -/
lemma exists_server_run {pieces : List Bytes} (hpc : s.server = .head pieces) {k : ℕ}
    (hk : k ≤ numEntries atof pieces) (hroom : s.count + k ≤ shmMaxCities) :
    ∃ es s' pieces', Trace (loadStep atof) (fun _ _ => True) s es s' ∧
      s'.server = .head pieces' ∧ s'.db = s.db ∧ s'.count = s.count + k ∧
      numEntries atof pieces' + k = numEntries atof pieces := by
  induction pieces generalizing s k with
  | nil =>
    obtain rfl : k = 0 := Nat.le_zero.mp hk
    exact ⟨[], s, [], .nil, hpc, rfl, rfl, rfl⟩
  | cons piece pieces ih =>
    rcases Nat.eq_zero_or_pos k with rfl | hpos
    · exact ⟨[], s, piece :: pieces, .nil, hpc, rfl, rfl, rfl⟩
    · have htest : s.count < shmMaxCities := by omega
      cases hentry : loadEntry atof piece with
      | none =>
        rw [numEntries_of_none hentry] at hk ⊢
        have hskip : loadStep atof s .server = some { s with server := .head pieces } := by
          simp [loadStep, LoadRace.serverStep, hpc, htest, hentry]
        obtain ⟨es, s', pieces', htrace, hend⟩ :=
          ih (s := { s with server := .head pieces }) rfl hk hroom
        exact ⟨_, s', pieces', .cons trivial hskip htrace, hend⟩
      | some entry =>
        rw [numEntries_of_some hentry] at hk ⊢
        have hindex : loadStep atof s .server = some { s with server := .index entry pieces } := by
          simp [loadStep, LoadRace.serverStep, hpc, htest, hentry]
        obtain ⟨es, s', pieces', htrace, hserver, hdb, hcount, hleft⟩ :=
          ih (s := { s with
              count := s.count + 1
              rows := Function.update s.rows s.count (.ofEntry entry)
              server := .head pieces }) (k := k - 1) rfl (by omega) (by simp only; omega)
        refine ⟨_, s', pieces', .cons trivial hindex (.cons (e := .server) trivial rfl
          (.cons (e := .server) trivial rfl (.cons (e := .server) trivial rfl
            (.cons (e := .server) trivial rfl htrace)))), hserver, hdb, ?_, ?_⟩
        · simp only at hcount
          omega
        · omega

/-- The database process can load `k` entries in a row, if there is room for them. -/
lemma exists_db_run {changes : List Change} (hpc : s.db = .head changes) {k : ℕ}
    (hk : k ≤ numAdded changes) (hroom : s.count + k ≤ shmMaxCities) :
    ∃ es s' changes', Trace (loadStep atof) (fun _ _ => True) s es s' ∧
      s'.db = .head changes' ∧ s'.server = s.server ∧ s'.count = s.count + k ∧
      numAdded changes' + k = numAdded changes := by
  induction changes generalizing s k with
  | nil =>
    obtain rfl : k = 0 := Nat.le_zero.mp hk
    exact ⟨[], s, [], .nil, hpc, rfl, rfl, rfl⟩
  | cons c changes ih =>
    rcases Nat.eq_zero_or_pos k with rfl | hpos
    · exact ⟨[], s, c :: changes, .nil, hpc, rfl, rfl, rfl⟩
    · have htest : ¬shmMaxCities ≤ s.count := by omega
      cases hremove : c.remove with
      | true =>
        rw [numAdded_of_remove hremove] at hk ⊢
        have hskip : loadStep atof s .db = some { s with db := .head changes } := by
          simp [loadStep, LoadRace.dbStep, hpc, hremove]
        obtain ⟨es, s', changes', htrace, hend⟩ :=
          ih (s := { s with db := .head changes }) rfl hk hroom
        exact ⟨_, s', changes', .cons trivial hskip htrace, hend⟩
      | false =>
        rw [numAdded_of_not_remove hremove] at hk ⊢
        have hread : loadStep atof s .db = some { s with db := .read c changes } := by
          simp [loadStep, LoadRace.dbStep, hpc, hremove, htest]
        obtain ⟨es, s', changes', htrace, hdb, hserver, hcount, hleft⟩ :=
          ih (s := { s with
              count := s.count + 1
              rows := Function.update s.rows s.count (.ofEntry (c.city, c.price))
              db := .head changes }) (k := k - 1) rfl (by omega) (by simp only; omega)
        refine ⟨_, s', changes', .cons trivial hread (.cons (e := .db) trivial rfl
          (.cons (e := .db) trivial rfl (.cons (e := .db) trivial rfl htrace))), hdb, hserver, ?_,
          ?_⟩
        · simp only at hcount
          omega
        · omega

/-- A server with an entry left comes to the read of its index while there is room. -/
lemma exists_server_index {pieces : List Bytes} (hpc : s.server = .head pieces)
    (hk : 0 < numEntries atof pieces) (hroom : s.count < shmMaxCities) :
    ∃ es entry pieces', Trace (loadStep atof) (fun _ _ => True) s es
      { s with server := .index entry pieces' } := by
  induction pieces generalizing s with
  | nil => cases hk
  | cons piece pieces ih =>
    cases hentry : loadEntry atof piece with
    | none =>
      rw [numEntries_of_none hentry] at hk
      have hskip : loadStep atof s .server = some { s with server := .head pieces } := by
        simp [loadStep, LoadRace.serverStep, hpc, hroom, hentry]
      obtain ⟨es, entry, pieces', htrace⟩ :=
        ih (s := { s with server := .head pieces }) rfl hk hroom
      exact ⟨_, entry, pieces', .cons trivial hskip htrace⟩
    | some entry =>
      have hindex : loadStep atof s .server = some { s with server := .index entry pieces } := by
        simp [loadStep, LoadRace.serverStep, hpc, hroom, hentry]
      exact ⟨_, entry, pieces, .snoc .nil trivial hindex⟩

/-- A database process with an entry left comes to the read of its index while there is room. -/
lemma exists_db_read {changes : List Change} (hpc : s.db = .head changes)
    (hk : 0 < numAdded changes) (hroom : s.count < shmMaxCities) :
    ∃ es c changes', Trace (loadStep atof) (fun _ _ => True) s es
      { s with db := .read c changes' } := by
  induction changes generalizing s with
  | nil => cases hk
  | cons c changes ih =>
    cases hremove : c.remove with
    | true =>
      rw [numAdded_of_remove hremove] at hk
      have hskip : loadStep atof s .db = some { s with db := .head changes } := by
        simp [loadStep, LoadRace.dbStep, hpc, hremove]
      obtain ⟨es, c', changes', htrace⟩ := ih (s := { s with db := .head changes }) rfl hk hroom
      exact ⟨_, c', changes', .cons trivial hskip htrace⟩
    | false =>
      have hread : loadStep atof s .db = some { s with db := .read c changes } := by
        simp [loadStep, LoadRace.dbStep, hpc, hremove, hroom]
      exact ⟨_, c, changes, .snoc .nil trivial hread⟩

/-- **The table is left.**  If both files have entries, and together more than the table has rows,
the processes can fill all but one row, test both that there is room, and take both a row. -/
lemma exists_overrun (stod : Bytes → Option ℚ) (serverFile dbFile : Bytes) (count : ℕ)
    (rows : ℕ → CityPrice) (hserver : 0 < numEntries atof (fgetsAll 256 serverFile))
    (hdb : 0 < numAdded (readChanges stod dbFile))
    (htotal : shmMaxCities <
      numEntries atof (fgetsAll 256 serverFile) + numAdded (readChanges stod dbFile)) :
    ∃ es s, Trace (loadStep atof) (fun _ _ => True)
      (.init stod serverFile dbFile count rows) es s ∧ ¬s.InBounds := by
  have hne : readChanges stod dbFile ≠ [] := by
    intro hnil
    rw [hnil] at hdb
    cases hdb
  set pieces := fgetsAll 256 serverFile with hpieces
  set changes := readChanges stod dbFile with hchanges
  -- all but one row are filled, by each process all but one of its entries at most
  obtain ⟨a, b, ha, hb, hab⟩ : ∃ a b, a + 1 ≤ numEntries atof pieces ∧ b + 1 ≤ numAdded changes ∧
      a + b + 1 = shmMaxCities := by
    refine ⟨min (numEntries atof pieces - 1) (shmMaxCities - 1),
      shmMaxCities - 1 - min (numEntries atof pieces - 1) (shmMaxCities - 1), ?_⟩
    have hpos : 0 < shmMaxCities := by norm_num
    omega
  have hstart : Trace (loadStep atof) (fun _ _ => True)
      (.init stod serverFile dbFile count rows) ([] ++ [.db] ++ [.server])
      ⟨0, rows, .head pieces, .head changes⟩ := by
    refine .snoc (s := ⟨0, rows, .clear pieces, .head changes⟩) (.snoc .nil trivial ?_) trivial rfl
    simp [loadStep, LoadRace.dbStep, LoadRace.init, ← hchanges, hne, hpieces]
  obtain ⟨es₁, s₁, pieces₁, htrace₁, hserver₁, hdb₁, hcount₁, hleft₁⟩ :=
    exists_server_run atof (s := ⟨0, rows, .head pieces, .head changes⟩) rfl (k := a)
      (by omega) (by simp only; omega)
  obtain ⟨es₂, s₂, changes₂, htrace₂, hdb₂, hserver₂, hcount₂, hleft₂⟩ :=
    exists_db_run atof (s := s₁) hdb₁ (k := b) (by omega)
      (by simp only at hcount₁; omega)
  simp only at hcount₁
  -- now both find that there is room
  obtain ⟨es₃, entry, pieces₃, htrace₃⟩ :=
    exists_server_index atof (hserver₂.trans hserver₁) (by omega) (by omega)
  obtain ⟨es₄, c, changes₄, htrace₄⟩ :=
    exists_db_read atof (s := { s₂ with server := .index entry pieces₃ }) hdb₂
      (by omega) (by simp only; omega)
  have htable := (((hstart.append htrace₁).append htrace₂).append htrace₃).append htrace₄
  -- the database process takes the last row, and the server the one behind it
  have hlast := ((htable.snoc (e := .db) trivial rfl).snoc (e := .db) trivial rfl).snoc
    (e := .server) trivial rfl
  refine ⟨_, _, hlast, fun hbounds => ?_⟩
  have hi : s₂.count + 1 < shmMaxCities := hbounds.1 _ entry pieces₃ rfl
  omega

end Overrun

/-- **When the loaders stay in the table.**  For all files and all contents of the segment: no order
of the steps of the two processes makes one of them write behind the table if and only if one of the
files has no entries, or together they have no more than the table has rows. -/
theorem loaders_in_bounds_iff (stod : Bytes → Option ℚ) (atof : Bytes → ℚ)
    (serverFile dbFile : Bytes) (count : ℕ) (rows : ℕ → CityPrice) :
    (∀ es s, Trace (loadStep atof) (fun _ _ => True)
        (.init stod serverFile dbFile count rows) es s → s.InBounds) ↔
      numEntries atof (fgetsAll 256 serverFile) = 0 ∨ numAdded (readChanges stod dbFile) = 0 ∨
        numEntries atof (fgetsAll 256 serverFile) + numAdded (readChanges stod dbFile) ≤
          shmMaxCities := by
  constructor
  · intro hbounds
    by_contra! hne
    obtain ⟨es, s, htrace, hout⟩ := exists_overrun atof stod serverFile dbFile count rows
      (Nat.pos_of_ne_zero hne.1) (Nat.pos_of_ne_zero hne.2.1) hne.2.2
    exact hout (hbounds es s htrace)
  · intro hfiles es s htrace
    by_cases hserver : numEntries atof (fgetsAll 256 serverFile) = 0
    · -- only the database process fills the table
      have hinit : DbAlone atof (.init stod serverFile dbFile count rows) := by
        refine ⟨hserver, ?_, ?_, ?_⟩ <;> intros <;> simp only [LoadRace.init] at * <;>
          split_ifs at *
      have halone : DbAlone atof s := htrace.invariant hinit fun _ _ _ h _ hs => h.step hs
      refine ⟨fun i entry pieces hpc => ?_, halone.fill⟩
      exact absurd halone.idle (by simp [hpc, ServerLoadPc.Idle])
    · by_cases hdb : numAdded (readChanges stod dbFile) = 0
      · have hinit : ServerAlone (.init stod serverFile dbFile count rows) := by
          refine ⟨?_, nofun, nofun⟩
          simp only [LoadRace.init]
          split_ifs
          · trivial
          · exact hdb
        have halone : ServerAlone s := htrace.invariant hinit fun _ _ _ h _ hs => h.step hs
        refine ⟨halone.fill, fun i c changes hpc => ?_⟩
        exact absurd halone.idle (by simp [hpc, DbLoadPc.Idle])
      · have hne : readChanges stod dbFile ≠ [] := fun hnil => hdb (by simp [hnil, numAdded])
        have htotal := (hfiles.resolve_left hserver).resolve_left hdb
        have hinit : SumInv atof (numEntries atof (fgetsAll 256 serverFile) +
            numAdded (readChanges stod dbFile)) (.init stod serverFile dbFile count rows) := by
          refine ⟨?_, ?_, nofun, ?_⟩
          · simp [LoadRace.left, LoadRace.init, hne, ServerLoadPc.left, DbLoadPc.left]
          · rintro (hcleared | hcleared)
            · exact absurd rfl (hcleared _)
            · exact absurd (by simp [LoadRace.init, hne]) (hcleared (readChanges stod dbFile))
          · simp [LoadRace.init, hne, DbLoadPc.held]
        have hinv : SumInv atof _ s := htrace.invariant hinit fun _ e _ h _ hs => by
          cases e with
          | server => exact h.serverStep hs
          | db => exact h.dbStep hs
        exact hinv.inBounds htotal

end ParkingSystem
