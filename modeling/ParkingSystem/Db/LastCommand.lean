import ParkingSystem.Foundation.Trace
import ParkingSystem.Db.PriceFile

/-!
# The table of prices follows the last commands

After any commands, with reloads in between, and a last reload, the row of a city in the table
`prices` is what the last command on the city asks for.  A city that no command names has the row
that a reload of the initial file alone would have left.

The file never forgets a marker, and its entries may stand in front of or behind the markers of
the same city.  What carries the proof is that the last operation of the file on a city is that of
the last command on it.
-/

namespace ParkingSystem

open Foundation

/-! ## The last operation of the file -/

/-- The operation that a command asks for. -/
def Command.op : Command → LogOp Bytes ℚ
  | add city price => .put city (roundTo 6 price)
  | remove city => .del city

/-- The last command on a city. -/
def lastCommand (city : Bytes) (cmds : List Command) : Option Command :=
  (cmds.filter fun cmd => cmd.city = city).getLast?

/-- The operations of initial lines. -/
def lineOps (stod : Bytes → Option ℚ) (lines : List Bytes) : List (LogOp Bytes ℚ) :=
  (lines.filterMap (readChange stod)).map Change.op

/-- The operations of entries. -/
def entryOps (entries : List FileEntry) : List (LogOp Bytes ℚ) :=
  (entries.filterMap FileEntry.change).map Change.op

@[simp] lemma entryOps_append (l l' : List FileEntry) :
    entryOps (l ++ l') = entryOps l ++ entryOps l' := by
  simp [entryOps]

@[simp] lemma Command.key_op (cmd : Command) : cmd.op.key = cmd.city := by
  cases cmd <;> rfl

/-- The last operation that the commands ask for on a city is that of the last command on it. -/
lemma lastWrite_map_op (city : Bytes) (cmds : List Command) :
    lastWrite city (cmds.map Command.op) =
      (lastCommand city cmds).map fun cmd => cmd.op.value := by
  have hfilter : (cmds.map Command.op).filter (fun op => op.key = city) =
      (cmds.filter fun cmd => cmd.city = city).map Command.op := by
    rw [List.filter_map]
    congr 1
    exact List.filter_congr fun cmd _ => by simp
  unfold lastWrite
  rw [hfilter, lastCommand, List.getLast?_map, Option.map_map]
  rfl

section Ops

variable {stod : Bytes → Option ℚ} {P : ℚ → Prop} {cmds : List Command} {lines : List Bytes}
  {city : Bytes}

/-- Replacing the entry of one city keeps the operations on every other city. -/
lemma filter_entryOps_replaced {city' : Bytes} (hne : city' ≠ city) {entries : List FileEntry}
    (hentries : ∀ e ∈ entries, e.Valid P) :
    (entryOps (entries.flatMap (FileEntry.replaced city'))).filter (fun op => op.key = city) =
      (entryOps entries).filter fun op => op.key = city := by
  induction entries with
  | nil => rfl
  | cons e entries ih =>
    have hstep : (entryOps (e.replaced city')).filter (fun op => op.key = city) =
        (entryOps [e]).filter fun op => op.key = city := by
      cases e with
      | added c p =>
        have hcity := (hentries _ List.mem_cons_self).1
        by_cases hc : c = city'
        · subst hc
          have hkey : cstr c = c := cstr_eq_self hcity.zero_notMem
          simp only [FileEntry.replaced, if_true]
          split_ifs <;>
            simp [entryOps, FileEntry.change, Change.op, LogOp.key, hkey, hne]
        · simp [FileEntry.replaced, hc]
      | removed c => rfl
      | remainder text => rfl
    rw [List.flatMap_cons, entryOps_append, List.filter_append, hstep,
      ih fun e' he' => hentries e' (List.mem_cons_of_mem _ he'), ← List.filter_append,
      ← entryOps_append]
    rfl

/-- **The last operation of the entries** on a city is that of the last command on it. -/
lemma lastWrite_entryOps (hcmds : ∀ cmd ∈ cmds, cmd.Valid P) (city : Bytes) :
    lastWrite city (entryOps (entriesAfter cmds)) = lastWrite city (cmds.map Command.op) := by
  induction cmds using List.reverseRecOn with
  | nil => rfl
  | append_singleton cmds cmd ih =>
    have hprev : ∀ c ∈ cmds, c.Valid P := fun c hc => hcmds c (by simp [hc])
    have hkey : cstr cmd.city = cmd.city := cstr_eq_self (hcmds cmd (by simp)).1.zero_notMem
    have ih := ih hprev
    rw [entriesAfter_concat, List.map_append, List.map_singleton, lastWrite_concat]
    cases cmd with
    | remove c =>
      change cstr c = c at hkey
      have hlast : entryOps [.removed c] = [.del c] := by
        simpa [entryOps, FileEntry.change, Change.op] using hkey
      unfold Command.entries
      rw [entryOps_append, hlast, lastWrite_concat, ih]
      rfl
    | add c p =>
      change cstr c = c at hkey
      have hlast : entryOps [.added c p] = [.put c (roundTo 6 p)] := by
        simpa [entryOps, FileEntry.change, Change.op] using hkey
      unfold Command.entries
      rw [entryOps_append, hlast, lastWrite_concat]
      by_cases hc : c = city
      · simp [Command.op, LogOp.key, hc]
      · rw [lastWrite_congr (filter_entryOps_replaced hc (entriesAfter_valid hprev)), ih]
        simp [Command.op, LogOp.key, hc]

/-- The lines that commands leave have the same operations as the initial ones on every city that
no command names. -/
lemma lastWrite_lineOps_survivorsOf (hcmds : ∀ cmd ∈ cmds, cmd.Valid P)
    (huntouched : ∀ cmd ∈ cmds, cmd.city ≠ city) :
    lastWrite city (lineOps stod (survivorsOf cmds lines)) =
      lastWrite city (lineOps stod lines) := by
  induction cmds using List.reverseRecOn with
  | nil => rfl
  | append_singleton cmds cmd ih =>
    rw [survivorsOf_concat,
      ← ih (fun c hc => hcmds c (by simp [hc])) fun c hc => huntouched c (by simp [hc])]
    have hcity := (hcmds cmd (by simp)).1
    have hne := huntouched cmd (by simp)
    cases cmd with
    | remove c => rfl
    | add c p =>
      apply lastWrite_congr
      induction survivorsOf cmds lines with
      | nil => rfl
      | cons line rest ihl =>
        simp only [Command.survivors, lineOps] at ihl ⊢
        by_cases hname : entryName line = some c
        · cases hread : readChange stod line with
          | none => simpa [hname, hread] using ihl
          | some ch =>
            have hkey : ch.op.key ≠ city := by
              rw [key_of_entryName hname hcity.zero_notMem hcity.head_ne_dash hread]
              exact hne
            simpa [hname, hread, hkey] using ihl
        · cases hread : readChange stod line with
          | none => simpa [hname, hread] using ihl
          | some ch =>
            by_cases hkey : ch.op.key = city
            · simpa [hname, hread, hkey] using ihl
            · simpa [hname, hread, hkey] using ihl

/-- A reload of the file after commands leaves for each city what the last command on it asks for,
or else what the lines that are left ask for. -/
lemma prices_reload_fileOf (hlines : ∀ line ∈ lines, InitialLine line)
    (hcmds : ∀ cmd ∈ cmds, cmd.Valid P) (hstod : ∀ price, P price → StodReadsBack stod price)
    (db : Database) (shm : PriceArea) (city : Bytes) :
    (reload stod (some (runCommands cmds (unlines lines))) db shm).2.1.prices city =
      ((lastWrite city (cmds.map Command.op)).or
        (lastWrite city (lineOps stod (survivorsOf cmds lines)))).getD (db.prices city) := by
  have hsurvivors : ∀ line ∈ survivorsOf cmds lines, InitialLine line := by
    intro line hline
    exact hlines line (mem_of_mem_survivorsOf hline)
  rw [prices_reload, runCommands_unlines hlines hcmds,
    readChanges_fileOf hsurvivors (entriesAfter_valid hcmds) hstod, List.map_append, replay_apply]
  have happend := lastWrite_append city (lineOps stod (survivorsOf cmds lines))
    (entryOps (entriesAfter cmds))
  rw [lastWrite_entryOps hcmds] at happend
  rw [← happend]
  rfl

end Ops

/-! ## Runs with reloads -/

/-- The prices file, the database and the pricing table in shared memory. -/
structure PriceSys where
  file : Bytes
  db : Database
  shm : PriceArea

/-- A command of the price updater, or a reload by the database process. -/
inductive PriceEvent where
  /-- A command. -/
  | command (cmd : Command)
  /-- A reload. -/
  | reload

/-- The effect of an event. -/
def PriceSys.step (stod : Bytes → Option ℚ) (s : PriceSys) : PriceEvent → PriceSys
  | .command cmd => { s with file := cmd.run s.file }
  | .reload =>
    let (_, db, shm) := ParkingSystem.reload stod (some s.file) s.db s.shm
    { s with db := db, shm := shm }

/-- The effect of a sequence of events. -/
def PriceSys.run (stod : Bytes → Option ℚ) (s : PriceSys) (events : List PriceEvent) : PriceSys :=
  events.foldl (PriceSys.step stod) s

/-- The commands among the events. -/
def commandsOf (events : List PriceEvent) : List Command :=
  events.filterMap fun
    | .command cmd => some cmd
    | .reload => none

section Run

variable {stod : Bytes → Option ℚ} {lines : List Bytes} {db : Database} {shm : PriceArea}
  {city : Bytes}

/-- The file depends on the commands alone. -/
lemma PriceSys.file_run (s : PriceSys) (events : List PriceEvent) :
    (s.run stod events).file = runCommands (commandsOf events) s.file := by
  induction events using List.reverseRecOn with
  | nil => rfl
  | append_singleton events e ih =>
    simp only [PriceSys.run, List.foldl_append, List.foldl_cons, List.foldl_nil] at ih ⊢
    cases e <;> simp [PriceSys.step, commandsOf, runCommands] at ih ⊢ <;> simp [ih]

/-- As long as no command names a city, its row is the initial one, or the one that a reload of the
initial file leaves. -/
lemma prices_run_untouched (hlines : ∀ line ∈ lines, InitialLine line) {events : List PriceEvent}
    (hcmds : ∀ cmd ∈ commandsOf events, cmd.Valid (StodReadsBack stod))
    (huntouched : ∀ cmd ∈ commandsOf events, cmd.city ≠ city) :
    let row := (PriceSys.run stod ⟨unlines lines, db, shm⟩ events).db.prices city
    row = db.prices city ∨ row = (lastWrite city (lineOps stod lines)).getD (db.prices city) := by
  induction events using List.reverseRecOn with
  | nil => exact Or.inl rfl
  | append_singleton events e ih =>
    have hsplit : commandsOf (events ++ [e]) = commandsOf events ++ commandsOf [e] := by
      simp [commandsOf]
    rw [hsplit] at hcmds huntouched
    have hcmds' : ∀ cmd ∈ commandsOf events, cmd.Valid (StodReadsBack stod) := by
      intro cmd h
      exact hcmds cmd (List.mem_append_left _ h)
    have huntouched' : ∀ cmd ∈ commandsOf events, cmd.city ≠ city := by
      intro cmd h
      exact huntouched cmd (List.mem_append_left _ h)
    have ih := ih hcmds' huntouched'
    set s := PriceSys.run stod ⟨unlines lines, db, shm⟩ events with hs
    have hrun : PriceSys.run stod ⟨unlines lines, db, shm⟩ (events ++ [e]) = s.step stod e := by
      simp [hs, PriceSys.run]
    rw [hrun]
    cases e with
    | command cmd => exact ih
    | reload =>
      have hfile : s.file = runCommands (commandsOf events) (unlines lines) :=
        PriceSys.file_run ⟨unlines lines, db, shm⟩ events
      have hnone : lastWrite city ((commandsOf events).map Command.op) = none := by
        rw [lastWrite_eq_none_iff]
        simpa using huntouched'
      have hrow : (s.step stod .reload).db.prices city =
          (lastWrite city (lineOps stod lines)).getD (s.db.prices city) := by
        simp only [PriceSys.step, hfile]
        rw [prices_reload_fileOf hlines hcmds' (fun _ h => h), hnone, Option.none_or,
          lastWrite_lineOps_survivorsOf hcmds' huntouched']
      simp only [hrow]
      cases hlast : lastWrite city (lineOps stod lines) with
      | none => simpa [hlast] using ih
      | some v => exact Or.inr rfl

/-- **The table of prices follows the last commands.** -/
theorem prices_follow_last_command (hlines : ∀ line ∈ lines, InitialLine line)
    {events : List PriceEvent}
    (hcmds : ∀ cmd ∈ commandsOf events, cmd.Valid (StodReadsBack stod)) (city : Bytes) :
    (PriceSys.run stod ⟨unlines lines, db, shm⟩ (events ++ [.reload])).db.prices city =
      match lastCommand city (commandsOf events) with
      | some (.add _ price) => some (roundTo 6 price)
      | some (.remove _) => none
      | none => (reload stod (some (unlines lines)) db shm).2.1.prices city := by
  set s := PriceSys.run stod ⟨unlines lines, db, shm⟩ events with hs
  have hrun : PriceSys.run stod ⟨unlines lines, db, shm⟩ (events ++ [.reload]) =
      s.step stod .reload := by
    simp [hs, PriceSys.run]
  have hfile : s.file = runCommands (commandsOf events) (unlines lines) :=
    PriceSys.file_run ⟨unlines lines, db, shm⟩ events
  have hrow : (s.step stod .reload).db.prices city =
      ((lastWrite city ((commandsOf events).map Command.op)).or
        (lastWrite city (lineOps stod (survivorsOf (commandsOf events) lines)))).getD
          (s.db.prices city) := by
    simp only [PriceSys.step, hfile]
    exact prices_reload_fileOf hlines hcmds (fun _ h => h) s.db s.shm city
  rw [hrun, hrow, lastWrite_map_op]
  cases hlast : lastCommand city (commandsOf events) with
  | some cmd => cases cmd <;> rfl
  | none =>
    have huntouched : ∀ cmd ∈ commandsOf events, cmd.city ≠ city := by
      rw [lastCommand, List.getLast?_eq_none_iff, List.filter_eq_nil_iff] at hlast
      simpa using hlast
    have hreload : (reload stod (some (unlines lines)) db shm).2.1.prices city =
        (lastWrite city (lineOps stod lines)).getD (db.prices city) :=
      prices_reload_fileOf hlines
        (show ∀ cmd ∈ ([] : List Command), cmd.Valid (StodReadsBack stod) by simp)
        (fun _ h => h) db shm city
    simp only [Option.map_none, Option.none_or]
    rw [lastWrite_lineOps_survivorsOf hcmds huntouched, hreload]
    rcases prices_run_untouched hlines hcmds huntouched with hrow' | hrow'
    · rw [← hs] at hrow'
      rw [hrow']
    · rw [← hs] at hrow'
      rw [hrow']
      cases lastWrite city (lineOps stod lines) <;> rfl

/-- A city is removed and another one added, with a reload between the commands. -/
theorem prices_follow_last_command_removed :
    (PriceSys.run readDecimal ⟨unlines [ascii "Eilat,0.500000"], ⟨fun _ => none, []⟩, .zero⟩
      ([.reload, .command (.remove (ascii "Eilat")), .reload,
        .command (.add (ascii "Netanya") (3 / 10))] ++ [.reload])).db.prices (ascii "Eilat") =
      none := by
  refine prices_follow_last_command (by decide) ?_ (ascii "Eilat")
  intro cmd hcmd
  have hcmd : cmd = .remove (ascii "Eilat") ∨ cmd = .add (ascii "Netanya") (3 / 10) := by
    simpa [commandsOf] using hcmd
  refine ⟨?_, fun _ price _ => readDecimal_printFixed 6 price⟩
  rcases hcmd with rfl | rfl
  · decide
  · decide

end Run

end ParkingSystem
