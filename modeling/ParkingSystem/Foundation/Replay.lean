import Mathlib.Tactic

/-!
# Replaying an update log over a finite map

A log is a list of operations, each of which puts a value under a key or deletes a key.  `replay`
applies a log to a map.  `replay_apply` is the last-writer law: what the map holds under a key
after the replay is what the last operation on that key left, and the old value if there is none.
-/

namespace Foundation

variable {κ ν : Type*} [DecidableEq κ]

/-- One operation of an update log. -/
inductive LogOp (κ ν : Type*) where
  /-- Put the value `v` under the key `k`. -/
  | put (k : κ) (v : ν)
  /-- Delete the key `k`. -/
  | del (k : κ)
deriving DecidableEq

namespace LogOp

/-- The key that an operation writes. -/
def key : LogOp κ ν → κ
  | put k _ => k
  | del k => k

/-- What an operation leaves under its key. -/
def value : LogOp κ ν → Option ν
  | put _ v => some v
  | del _ => none

end LogOp

/-- Apply one operation to a map. -/
def applyOp (t : κ → Option ν) (op : LogOp κ ν) : κ → Option ν :=
  Function.update t op.key op.value

/-- Apply a log to a map, oldest operation first. -/
def replay (t : κ → Option ν) (log : List (LogOp κ ν)) : κ → Option ν := log.foldl applyOp t

/-- What the last operation of a log on the key `k` leaves there, if some operation writes `k`. -/
def lastWrite (k : κ) (log : List (LogOp κ ν)) : Option (Option ν) :=
  (log.filter fun op => op.key = k).getLast?.map LogOp.value

@[simp] lemma replay_nil (t : κ → Option ν) : replay t [] = t := rfl

@[simp] lemma replay_append (t : κ → Option ν) (log log' : List (LogOp κ ν)) :
    replay t (log ++ log') = replay (replay t log) log' := by
  simp [replay]

/-- Appending an operation on the key makes it the last one; other operations do not matter. -/
lemma lastWrite_concat (k : κ) (log : List (LogOp κ ν)) (op : LogOp κ ν) :
    lastWrite k (log ++ [op]) = if op.key = k then some op.value else lastWrite k log := by
  by_cases h : op.key = k <;> simp [lastWrite, List.filter_append, h]

/-- The last operation on a key is in the later log, if that one has any. -/
lemma lastWrite_append (k : κ) (log log' : List (LogOp κ ν)) :
    lastWrite k (log ++ log') = (lastWrite k log').or (lastWrite k log) := by
  simp only [lastWrite, List.filter_append, List.getLast?_append, Option.map_or]

/-- A log without operations on the key has no last one. -/
lemma lastWrite_eq_none_iff {k : κ} {log : List (LogOp κ ν)} :
    lastWrite k log = none ↔ ∀ op ∈ log, op.key ≠ k := by
  simp [lastWrite]

/-- **Last writer wins.** -/
theorem replay_apply (t : κ → Option ν) (log : List (LogOp κ ν)) (k : κ) :
    replay t log k = (lastWrite k log).getD (t k) := by
  induction log using List.reverseRecOn with
  | nil => rfl
  | append_singleton log op ih =>
    rw [replay_append, lastWrite_concat]
    by_cases h : op.key = k
    · subst h
      simp [replay, applyOp]
    · simpa [replay, applyOp, Function.update_of_ne (Ne.symm h), h] using ih

/-- **A log absorbs itself.**  Replaying a log once more changes nothing. -/
theorem replay_replay_self (t : κ → Option ν) (log : List (LogOp κ ν)) :
    replay (replay t log) log = replay t log := by
  funext k
  rw [replay_apply, replay_apply]
  cases lastWrite k log <;> rfl

/-- The last write on a key is found by a search from the end. -/
lemma lastWrite_eq_find? (k : κ) (log : List (LogOp κ ν)) :
    lastWrite k log = (log.reverse.find? fun op => op.key = k).map LogOp.value := by
  rw [← List.head?_filter, List.filter_reverse, List.head?_reverse]
  rfl

/-- The last write on a key depends on the operations on that key only. -/
lemma lastWrite_congr {k : κ} {log log' : List (LogOp κ ν)}
    (h : (log.filter fun op => op.key = k) = log'.filter fun op => op.key = k) :
    lastWrite k log = lastWrite k log' := by
  rw [lastWrite, lastWrite, h]

end Foundation
