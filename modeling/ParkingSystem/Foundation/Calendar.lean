import ParkingSystem.Foundation.Scan

/-!
# Calendar times as text

`civilTime n` is the date and the time of day that a clock shows `n` seconds after the start of
1970, in the Gregorian calendar, and `secondsOf` goes the way back.  `showTime` is what `strftime`
prints for the format `%Y-%m-%d %H:%M:%S`, and `readTime` the number of seconds that such a text
denotes: `readTime_showTime` says that the text tells the time that the clock shows, and nothing
more.

A year is taken to begin in March, so that the leap day is its last day, and the days are counted in
eras of 400 years, which have 146097 days.
-/

namespace Foundation

/-- A date of the Gregorian calendar, and a time of day. -/
structure CivilTime where
  year : ℤ
  month : ℕ
  day : ℕ
  hour : ℕ
  minute : ℕ
  second : ℕ
deriving DecidableEq

/-! ## Days -/

/-- The year of a day in an era, and the number of the day in this year. -/
def yearAndDay (dayOfEra : ℕ) : ℕ × ℕ :=
  let century := min (dayOfEra / 36524) 3
  let dayOfCentury := dayOfEra - century * 36524
  let four := dayOfCentury / 1461
  let dayOfFour := dayOfCentury - four * 1461
  let year := min (dayOfFour / 365) 3
  (100 * century + 4 * four + year, dayOfFour - year * 365)

/-- The month of a day in a year, where March is 0, and the number of the day in this month. -/
def monthAndDay (dayOfYear : ℕ) : ℕ × ℕ :=
  let month := (5 * dayOfYear + 2) / 153
  (month, dayOfYear - (153 * month + 2) / 5 + 1)

/-- The years of an era have 365 or 366 days, and make up all the days. -/
lemma yearAndDay_spec {n : ℕ} (h : n < 146097) :
    (yearAndDay n).1 < 400 ∧ (yearAndDay n).2 ≤ 365 ∧
      (yearAndDay n).1 * 365 + (yearAndDay n).1 / 4 - (yearAndDay n).1 / 100 +
        (yearAndDay n).2 = n := by
  simp only [yearAndDay]
  obtain ⟨c, hc⟩ : ∃ c, c = min (n / 36524) 3 := ⟨_, rfl⟩
  obtain ⟨d, hd⟩ : ∃ d, d = n - c * 36524 := ⟨_, rfl⟩
  obtain ⟨q, hq⟩ : ∃ q, q = d / 1461 := ⟨_, rfl⟩
  obtain ⟨e, he⟩ : ∃ e, e = d - q * 1461 := ⟨_, rfl⟩
  obtain ⟨y, hy⟩ : ∃ y, y = min (e / 365) 3 := ⟨_, rfl⟩
  rw [← hc, ← hd, ← hq, ← he, ← hy]
  have hc3 : c ≤ 3 := by omega
  have hd' : d ≤ 36524 ∧ n = c * 36524 + d := by omega
  have hq' : q ≤ 24 ∧ e ≤ 1460 ∧ d = q * 1461 + e := by omega
  have hy' : y ≤ 3 ∧ y * 365 ≤ e ∧ e ≤ y * 365 + 365 := by omega
  clear hc hd hq he hy
  have h4 : (100 * c + 4 * q + y) / 4 = 25 * c + q := by omega
  have h100 : (100 * c + 4 * q + y) / 100 = c := by omega
  rw [h4, h100]
  omega

/-- The months of a year have up to 31 days, and make up all the days. -/
lemma monthAndDay_spec {n : ℕ} (h : n ≤ 365) :
    (monthAndDay n).1 ≤ 11 ∧ 1 ≤ (monthAndDay n).2 ∧ (monthAndDay n).2 ≤ 31 ∧
      (153 * (monthAndDay n).1 + 2) / 5 + (monthAndDay n).2 = n + 1 := by
  simp only [monthAndDay]
  omega

/-- The date of a day counted from 1970-01-01, and a time of day. -/
def civilDay (n : ℤ) (hour minute second : ℕ) : CivilTime :=
  let z := n + 719468
  let (year, dayOfYear) := yearAndDay (z % 146097).toNat
  let (month, day) := monthAndDay dayOfYear
  if month < 10 then ⟨z / 146097 * 400 + year, month + 3, day, hour, minute, second⟩
  else ⟨z / 146097 * 400 + year + 1, month - 9, day, hour, minute, second⟩

/-- The number of the day, counted from 1970-01-01. -/
def daysOf (c : CivilTime) : ℤ :=
  let year := if c.month ≤ 2 then c.year - 1 else c.year
  let month := if c.month ≤ 2 then c.month + 9 else c.month - 3
  year / 400 * 146097 + (year % 400 * 365 + year % 400 / 4 - year % 400 / 100) +
    ((153 * month + 2) / 5 + c.day : ℕ) - 719469

/-- The parts of a date are in their ranges. -/
lemma civilDay_le (n : ℤ) (hour minute second : ℕ) :
    (civilDay n hour minute second).month ≤ 12 ∧ (civilDay n hour minute second).day ≤ 31 := by
  obtain ⟨-, hyear, -⟩ := yearAndDay_spec (n := ((n + 719468) % 146097).toNat) (by omega)
  obtain ⟨hmonth, -, hday, -⟩ := monthAndDay_spec hyear
  simp only [civilDay]
  split_ifs <;> exact ⟨by simp only; omega, hday⟩

/-- The date of a day tells the day. -/
lemma daysOf_civilDay (n : ℤ) (hour minute second : ℕ) :
    daysOf (civilDay n hour minute second) = n := by
  obtain ⟨hyear, hday, hall⟩ := yearAndDay_spec (n := ((n + 719468) % 146097).toNat) (by omega)
  obtain ⟨hmonth, hpos, -, hsum⟩ := monthAndDay_spec hday
  simp only [civilDay]
  generalize (monthAndDay (yearAndDay ((n + 719468) % 146097).toNat).2).1 = month at *
  generalize (monthAndDay (yearAndDay ((n + 719468) % 146097).toNat).2).2 = day at *
  generalize (yearAndDay ((n + 719468) % 146097).toNat).2 = dayOfYear at *
  generalize (yearAndDay ((n + 719468) % 146097).toNat).1 = year at *
  have hera : ((n + 719468) / 146097 * 400 + (year : ℤ)) / 400 = (n + 719468) / 146097 ∧
      ((n + 719468) / 146097 * 400 + (year : ℤ)) % 400 = year := by omega
  split_ifs with hlt
  · simp only [daysOf, show ¬ month + 3 ≤ 2 by omega, if_false, hera, Nat.add_sub_cancel, hsum]
    omega
  · simp only [daysOf, show month - 9 ≤ 2 by omega, if_true, add_sub_cancel_right, hera,
      show month - 9 + 9 = month by omega, hsum]
    omega

/-! ## Seconds -/

/-- What a clock shows when `n` seconds have passed since the start of 1970. -/
def civilTime (n : ℤ) : CivilTime :=
  let second := (n % 86400).toNat
  civilDay (n / 86400) (second / 3600) (second / 60 % 60) (second % 60)

/-- The number of seconds since the start of 1970 when a clock shows this. -/
def secondsOf (c : CivilTime) : ℤ :=
  daysOf c * 86400 + (c.hour * 3600 + c.minute * 60 + c.second : ℕ)

/-- The time of day of a date. -/
lemma civilDay_time (n : ℤ) (hour minute second : ℕ) :
    (civilDay n hour minute second).hour = hour ∧ (civilDay n hour minute second).minute = minute ∧
      (civilDay n hour minute second).second = second := by
  simp only [civilDay]
  split_ifs <;> exact ⟨rfl, rfl, rfl⟩

/-- A clock tells the seconds. -/
lemma secondsOf_civilTime (n : ℤ) : secondsOf (civilTime n) = n := by
  simp only [civilTime, secondsOf, daysOf_civilDay, civilDay_time]
  omega

/-- The parts of a time that stand behind the year have two digits. -/
structure CivilTime.TwoDigits (c : CivilTime) : Prop where
  month : c.month < 10 ^ 2
  day : c.day < 10 ^ 2
  hour : c.hour < 10 ^ 2
  minute : c.minute < 10 ^ 2
  second : c.second < 10 ^ 2

/-- So it is for what a clock shows. -/
lemma civilTime_twoDigits (n : ℤ) : (civilTime n).TwoDigits := by
  obtain ⟨hmonth, hday⟩ := civilDay_le (n / 86400) ((n % 86400).toNat / 3600)
    ((n % 86400).toNat / 60 % 60) ((n % 86400).toNat % 60)
  refine ⟨hmonth.trans_lt (by norm_num), hday.trans_lt (by norm_num), ?_, ?_, ?_⟩
  all_goals
    simp only [civilTime, civilDay_time]
    omega

/-! ## Texts -/

variable {c : CivilTime}

/-- The colon. -/
abbrev colon : UInt8 := 58

/-- The blank. -/
abbrev blank : UInt8 := 32

/-- What stands behind the year. -/
def showRest (c : CivilTime) : Bytes :=
  minusByte :: (decDigits 2 c.month ++ minusByte :: (decDigits 2 c.day ++ blank ::
    (decDigits 2 c.hour ++ colon :: (decDigits 2 c.minute ++ colon :: decDigits 2 c.second))))

/-- The text that `strftime` prints for `%Y-%m-%d %H:%M:%S`. -/
def showTime (c : CivilTime) : Bytes := printInt c.year ++ showRest c

/-- The number of seconds since the start of 1970 that a text of this form denotes. -/
def readTime (s : Bytes) : ℤ :=
  let n := s.length - 15
  let part (k : ℕ) := readDigits ((s.drop (n + k)).take 2)
  secondsOf ⟨(strtol (s.take n)).getD 0, part 1, part 4, part 7, part 10, part 13⟩

/-- The parts behind the year are found in their places. -/
lemma CivilTime.TwoDigits.showRest (h : c.TwoDigits) :
    (showRest c).length = 15 ∧ readDigits (((showRest c).drop 1).take 2) = c.month ∧
      readDigits (((showRest c).drop 4).take 2) = c.day ∧
      readDigits (((showRest c).drop 7).take 2) = c.hour ∧
      readDigits (((showRest c).drop 10).take 2) = c.minute ∧
      readDigits (((showRest c).drop 13).take 2) = c.second := by
  have hpair : ∀ {k}, k < 10 ^ 2 → ∃ a b, decDigits 2 k = [a, b] ∧ readDigits [a, b] = k := by
    intro k hk
    obtain ⟨a, b, heq⟩ := List.length_eq_two.mp (length_decDigits_of_lt hk)
    exact ⟨a, b, heq, heq ▸ readDigits_decDigits 2 k⟩
  obtain ⟨_, _, hmonth, hmonth'⟩ := hpair h.month
  obtain ⟨_, _, hday, hday'⟩ := hpair h.day
  obtain ⟨_, _, hhour, hhour'⟩ := hpair h.hour
  obtain ⟨_, _, hminute, hminute'⟩ := hpair h.minute
  obtain ⟨_, _, hsecond, hsecond'⟩ := hpair h.second
  unfold Foundation.showRest
  rw [hmonth, hday, hhour, hminute, hsecond]
  exact ⟨rfl, hmonth', hday', hhour', hminute', hsecond'⟩

/-- **A text tells what the clock shows.** -/
theorem readTime_showTime (n : ℤ) : readTime (showTime (civilTime n)) = n := by
  obtain ⟨hlen, hmonth, hday, hhour, hminute, hsecond⟩ := (civilTime_twoDigits n).showRest
  have hyear : strtol (printInt (civilTime n).year) = some (civilTime n).year := by
    simpa using @strtol_printInt (civilTime n).year [] (by simp)
  have hn : (showTime (civilTime n)).length - 15 = (printInt (civilTime n).year).length := by
    rw [showTime, List.length_append, hlen, Nat.add_sub_cancel]
  simp only [readTime, hn]
  simp only [showTime, List.take_left, List.drop_length_add_append, hyear, hmonth, hday, hhour,
    hminute, hsecond, Option.getD_some]
  exact secondsOf_civilTime n

example : showTime (civilTime 1000000000) = ascii "2001-09-09 01:46:40" := by decide +kernel

end Foundation
