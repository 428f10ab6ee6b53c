import ParkingSystem.Common
import Mathlib.Data.List.AList

/-!
# Parking sessions

`Session` is one active parking session, and `SessionManager` the store of the active sessions,
keyed by customer id.  That every session is stored under its own customer id is a field of the
store, so that the two operations have to keep it.
-/

namespace ParkingSystem

open Foundation

/-- `Session`: one active parking session. -/
structure Session where
  customerId : Bytes
  startLat : ℚ
  startLon : ℚ
  city : Bytes
  startTime : ℤ
deriving DecidableEq

/-- `Session::elapsedMinutes` at the clock reading `now`. -/
def Session.elapsedMinutes (s : Session) (now : ℤ) : ℚ := ((now - s.startTime : ℤ) : ℚ) / 60

/-- `SessionManager`: the active sessions by customer id. -/
structure SessionManager where
  sessions : AList fun _ : Bytes => Session
  /-- A session is stored under its own customer id. -/
  customerId_eq : ∀ id s, sessions.lookup id = some s → s.customerId = id

namespace SessionManager

variable (m : SessionManager)

/-- The store without sessions. -/
def empty : SessionManager where
  sessions := ∅
  customerId_eq := by simp

/-- The session of a customer, if there is one. -/
def find (id : Bytes) : Option Session := m.sessions.lookup id

/-- `SessionManager::start`: store a new session; it overwrites an existing one for the same id. -/
def start (s : Session) : SessionManager where
  sessions := m.sessions.insert s.customerId s
  customerId_eq := by
    intro id s' h
    by_cases hid : id = s.customerId
    · subst hid
      rw [AList.lookup_insert] at h
      exact congrArg Session.customerId (Option.some.inj h).symm
    · rw [AList.lookup_insert_ne hid] at h
      exact m.customerId_eq id s' h

/-- `SessionManager::end`: remove and return the session of a customer, if it exists. -/
def endSession (id : Bytes) : Option Session × SessionManager :=
  match m.sessions.lookup id with
  | none => (none, m)
  | some s => (some s, {
      sessions := m.sessions.erase id
      customerId_eq := by
        intro id' s' h
        by_cases hid : id' = id
        · rw [hid, AList.lookup_erase] at h
          cases h
        · rw [AList.lookup_erase_ne hid] at h
          exact m.customerId_eq id' s' h })

@[simp] lemma find_empty (id : Bytes) : empty.find id = none := AList.lookup_empty id

/-- After a start the customer has the new session; the other customers keep theirs. -/
lemma find_start (s : Session) (id : Bytes) :
    (m.start s).find id = if id = s.customerId then some s else m.find id := by
  by_cases h : id = s.customerId
  · subst h
    simp [find, start]
  · simp [find, start, h, AList.lookup_insert_ne h]

/-- The removed session is the one that the customer had. -/
@[simp] lemma endSession_fst (id : Bytes) : (m.endSession id).1 = m.find id := by
  unfold endSession find
  split <;> simp_all

/-- After an end the customer has no session; the other customers keep theirs. -/
lemma find_endSession (id id' : Bytes) :
    (m.endSession id).2.find id' = if id' = id then none else m.find id' := by
  unfold endSession find
  split
  · rename_i hnone
    by_cases h : id' = id
    · rw [if_pos h, h, hnone]
    · rw [if_neg h]
  · by_cases h : id' = id
    · subst h
      simp
    · simp [h, AList.lookup_erase_ne h]

end SessionManager

end ParkingSystem
