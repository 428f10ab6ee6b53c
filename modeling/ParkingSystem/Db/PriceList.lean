import ParkingSystem.Db.PriceUpdater
import ParkingSystem.Server.PriceTable

/-!
# The list of the price updater

The command `list` of `price_updater.c` prints the prices file: the entries, and the cities that are
marked as removed.  It reads the file by the same loop as the server does when it starts.

The server does not know the markers, and its table ends after 64 rows.  So the list shows what the
server loads exactly when none of the first 64 lines with a comma is a marker and all the others
are.  A marker with a comma in it is a row for the server.
-/

namespace ParkingSystem

open Foundation

/-! ## The code -/

/-- `%-30s`: the text, filled up with spaces. -/
def padText (text : Bytes) : Bytes := text ++ List.replicate (30 - text.length) 32

/-- The dash `─` of the heading, in UTF-8. -/
def headingDash : Bytes := [0xE2, 0x94, 0x80]

/-- The heading of the list. -/
def listHeading : Bytes :=
  padText (ascii "City") ++ ascii "  Price/min\n" ++
    padText (List.replicate 30 headingDash).flatten ++ ascii "  " ++
    (List.replicate 10 headingDash).flatten ++ [lf]

/-- What the loop of `cmd_list` prints for one string read by `fgets`. -/
def listLine (atof : Bytes → ℚ) (piece : Bytes) : Bytes :=
  let line := (cstr piece).takeWhile fun b => b ≠ cr ∧ b ≠ lf
  if line = [] ∨ line.head? = some hash then []
  else if line.head? = some dash then ascii "  [REMOVED] " ++ line.tail ++ [lf]
  else match cutAt comma line with
    | none => []
    | some (city, price) => padText city ++ ascii "  " ++ printFixed 4 (atof price) ++ [lf]

/-- `cmd_list`: what it prints, where `none` is a file that cannot be opened. -/
def cmdList (atof : Bytes → ℚ) : Option Bytes → Bytes
  | none => []
  | some file => listHeading ++ (fgetsAll maxLine file).flatMap (listLine atof)

/-! ## What the list shows -/

/-- An item of the list. -/
inductive ListItem where
  /-- A city that is marked as removed. -/
  | removed (city : Bytes)
  /-- An entry. -/
  | entry (city : Bytes) (price : ℚ)

namespace ListItem

/-- The line of an item. -/
def text : ListItem → Bytes
  | removed city => ascii "  [REMOVED] " ++ city ++ [lf]
  | entry city price => padText city ++ ascii "  " ++ printFixed 4 price ++ [lf]

/-- The entry of an item that is one. -/
def entry? : ListItem → Option (Bytes × ℚ)
  | removed _ => none
  | entry city price => some (city, price)

end ListItem

/-- The item that a string read by `fgets` makes. -/
def listItem (atof : Bytes → ℚ) (piece : Bytes) : Option ListItem :=
  let line := (cstr piece).takeWhile fun b => b ≠ cr ∧ b ≠ lf
  if line = [] ∨ line.head? = some hash then none
  else if line.head? = some dash then some (.removed line.tail)
  else (cutAt comma line).map fun p => .entry p.1 (atof p.2)

/-- The items of a prices file. -/
def listItems (atof : Bytes → ℚ) (file : Bytes) : List ListItem :=
  (fgetsAll maxLine file).filterMap (listItem atof)

/-- The entry is a marker for the other programs. -/
def IsMarker (e : Bytes × ℚ) : Prop := e.1.head? = some dash

instance : DecidablePred IsMarker := fun e => inferInstanceAs (Decidable (e.1.head? = some dash))

section Listing

variable {α : Type*} {atof : Bytes → ℚ} {piece : Bytes}

/-- The beginning of a list is what a test leaves of it if all of the beginning passes the test, and
nothing of the rest does. -/
lemma take_eq_filter_iff {l : List α} {p : α → Bool} {n : ℕ} :
    l.take n = l.filter p ↔ (∀ a ∈ l.take n, p a) ∧ ∀ a ∈ l.drop n, ¬p a := by
  have hsplit : l.filter p = (l.take n).filter p ++ (l.drop n).filter p := by
    rw [← List.filter_append, List.take_append_drop]
  rw [← List.filter_eq_nil_iff]
  constructor
  · intro heq
    have htake : ∀ a ∈ l.take n, p a := by
      intro a ha
      rw [heq] at ha
      exact List.of_mem_filter ha
    refine ⟨htake, ?_⟩
    rw [List.filter_eq_self.mpr htake, ← heq] at hsplit
    exact List.append_right_eq_self.mp hsplit.symm
  · rintro ⟨htake, hdrop⟩
    rw [hsplit, List.filter_eq_self.mpr htake, hdrop, List.append_nil]

/-- The same of the images of a list, when the test can be made on them. -/
lemma map_take_eq_map_filter_iff {β : Type*} {f : α → β} {l : List α} {p : α → Bool}
    {q : β → Bool} (hq : ∀ a, q (f a) = p a) {n : ℕ} :
    (l.take n).map f = (l.filter p).map f ↔ (∀ a ∈ l.take n, p a) ∧ ∀ a ∈ l.drop n, ¬p a := by
  have hfilter : (l.filter p).map f = (l.map f).filter q := by
    rw [List.filter_map]
    congr 2
    funext a
    exact (hq a).symm
  rw [hfilter, List.map_take, take_eq_filter_iff, ← List.map_take, ← List.map_drop,
    List.forall_mem_map, List.forall_mem_map]
  simp only [hq]

/-- The list prints its items one after the other. -/
lemma cmdList_eq (atof : Bytes → ℚ) (file : Bytes) :
    cmdList atof (some file) = listHeading ++ (listItems atof file).flatMap ListItem.text := by
  have hline : ∀ piece,
      listLine atof piece = ((listItem atof piece).map ListItem.text).getD [] := by
    intro piece
    unfold listLine listItem
    simp only
    split_ifs
    · rfl
    · rfl
    · rcases cutAt comma ((cstr piece).takeWhile fun b => b ≠ cr ∧ b ≠ lf) with _ | p <;> rfl
  rw [cmdList, listItems]
  congr 1
  induction fgetsAll maxLine file with
  | nil => rfl
  | cons piece pieces ih =>
    rw [List.flatMap_cons, ih, hline, List.filterMap_cons]
    rcases listItem atof piece with _ | item <;> rfl

/-- The list shows the entry of a string unless it is a marker. -/
lemma entry?_listItem (atof : Bytes → ℚ) (piece : Bytes) :
    (listItem atof piece).bind ListItem.entry? =
      (loadEntry atof piece).filter fun e => ¬IsMarker e := by
  unfold listItem loadEntry
  simp only
  set line := (cstr piece).takeWhile fun b => b ≠ cr ∧ b ≠ lf
  by_cases hskip : line = [] ∨ line.head? = some hash
  · simp [hskip, hskip.symm]
  · have hskip' : ¬(line.head? = some hash ∨ line = []) := fun h => hskip h.symm
    simp only [hskip, hskip', if_false]
    rcases hcut : cutAt comma line with _ | ⟨city, price⟩
    · split_ifs <;> rfl
    · -- the first byte of the line is that of the city, or there is no city
      obtain ⟨hline, -⟩ := cutAt_eq_some_iff.mp hcut
      have hhead : line.head? = some dash ↔ IsMarker (city, atof price) := by
        rw [hline, IsMarker]
        have hne : comma ≠ dash := by decide
        rcases city with _ | ⟨b, city⟩ <;> simp [hne]
      by_cases hdash : line.head? = some dash
      · simp [hdash, ListItem.entry?, Option.filter, hhead.mp hdash]
      · simp [hdash, ListItem.entry?, Option.filter, mt hhead.mpr hdash]

/-- A row has the first byte of the name of its entry. -/
lemma ofEntry_marker (e : Bytes × ℚ) :
    (CityPrice.ofEntry e).city.str.head? = some dash ↔ IsMarker e := by
  obtain ⟨name, price⟩ := e
  rcases name with _ | ⟨b, name⟩
  · simp [CityPrice.ofEntry, IsMarker, cstr]
  · by_cases hb : b = 0
    · subst hb
      simp [CityPrice.ofEntry, IsMarker, cstr]
      decide
    · simp [CityPrice.ofEntry, IsMarker, cstr, hb, cityNameLen]

/-- **When the list shows what the server loads.**  For every prices file and whatever the table
held: the rows that the server loads are those of the entries that `list` prints exactly when none
of the first 64 lines that the server takes for entries is a marker, and all the others are. -/
theorem list_shows_loaded_iff (atof : Bytes → ℚ) (shm : PriceArea) (file : Bytes) :
    let entries := (fgetsAll maxLine file).filterMap (loadEntry atof)
    let items := listItems atof file
    cmdList atof (some file) = listHeading ++ items.flatMap ListItem.text ∧
      ((loadFromFile atof shm file).2.live =
          (items.filterMap ListItem.entry?).map CityPrice.ofEntry ↔
        (∀ e ∈ entries.take shmMaxCities, ¬IsMarker e) ∧
          ∀ e ∈ entries.drop shmMaxCities, IsMarker e) := by
  intro entries items
  refine ⟨cmdList_eq atof file, ?_⟩
  have hshown : items.filterMap ListItem.entry? = entries.filter fun e => ¬IsMarker e := by
    simp only [items, entries, listItems, List.filterMap_filterMap, entry?_listItem]
    rw [List.filter_filterMap]
  have hlive : (loadFromFile atof shm file).2.live =
      (entries.take shmMaxCities).map CityPrice.ofEntry := by
    rw [loadFromFile, live_loadLines_take]
    simp [entries]
  have hrow : ∀ e : Bytes × ℚ, decide ((CityPrice.ofEntry e).city.str.head? ≠ some dash) =
      decide (¬IsMarker e) := by
    intro e
    simp only [ne_eq, ofEntry_marker]
  rw [hlive, hshown,
    map_take_eq_map_filter_iff (q := fun cp => cp.city.str.head? ≠ some dash) hrow]
  simp

end Listing

end ParkingSystem
