import KwaaiNet.Foundation.Text

/-! # Dates and clock times

A date of the Gregorian calendar, extended to all years, is computed from the number of days since
the start of 1970; the year is taken to start in March, so that a leap day comes last. The number
of days is recovered from the date (`Foundation.CivilDate.toDays_ofDays`). A moment is a number of
seconds, and its text in digits, as in `20250131-235959`, tells it from all others, also with more
text behind it (`Foundation.stamp_append_inj`).
-/

namespace Foundation

open Text List

@[ext]
structure CivilDate where
  year : Int
  month : Nat
  day : Nat
  deriving DecidableEq

/-- A day of the 400 years after which the calendar repeats: the year, counted from March, and the
day in it. -/
structure EraDay where
  year : Nat
  dayOfYear : Nat

/-- Centuries, then four years at a time, then years; the last of each kind may have a day more. -/
def EraDay.ofNat (day : Nat) : EraDay :=
  let century := min (day / 36524) 3
  let dayOfCentury := day - 36524 * century
  let dayOfFour := dayOfCentury % 1461
  let year := min (dayOfFour / 365) 3
  ⟨100 * century + 4 * (dayOfCentury / 1461) + year, dayOfFour - 365 * year⟩

theorem EraDay.ofNat_spec {day : Nat} (within : day < 146097) :
    (ofNat day).year < 400 ∧ (ofNat day).dayOfYear ≤ 365 ∧
      365 * (ofNat day).year + (ofNat day).year / 4 + (ofNat day).dayOfYear =
        day + (ofNat day).year / 100 := by
  simp only [ofNat]
  obtain ⟨century, rest, split, few, short⟩ : ∃ century rest, day = 36524 * century + rest ∧
      century = min (day / 36524) 3 ∧ rest ≤ 36524 :=
    ⟨min (day / 36524) 3, day - 36524 * min (day / 36524) 3, by omega, rfl, by omega⟩
  have left : day - 36524 * century = rest := by omega
  rw [← few, left]
  have fours : rest / 1461 ≤ 24 := by omega
  generalize same : min (rest % 1461 / 365) 3 = year
  have early : year ≤ 3 := by omega
  have leaps : (100 * century + 4 * (rest / 1461) + year) / 4 = 25 * century + rest / 1461 := by
    omega
  have centuries : (100 * century + 4 * (rest / 1461) + year) / 100 = century := by omega
  rw [leaps, centuries]
  omega

namespace CivilDate

def ofEraDay (era : Int) (day : EraDay) : CivilDate :=
  let month := (5 * day.dayOfYear + 2) / 153
  { year := era * 400 + day.year + (if month < 10 then 0 else 1)
    month := if month < 10 then month + 3 else month - 9
    day := day.dayOfYear - (153 * month + 2) / 5 + 1 }

def ofDays (days : Int) : CivilDate :=
  ofEraDay ((days + 719468) / 146097) (EraDay.ofNat ((days + 719468) % 146097).toNat)

def toDays (date : CivilDate) : Int :=
  let year := if date.month ≤ 2 then date.year - 1 else date.year
  let month := if date.month ≤ 2 then date.month + 9 else date.month - 3
  year / 400 * 146097 + (365 * (year % 400) + year % 400 / 4 - year % 400 / 100) +
    ((153 * month + 2) / 5 + date.day - 1 : Nat) - 719468

example : ofDays 19782 = ⟨2024, 2, 29⟩ ∧ ofDays (-719529) = ⟨-1, 12, 31⟩ := by decide

theorem ofEraDay_bounds (era : Int) {day : EraDay} (within : day.dayOfYear ≤ 365) :
    (ofEraDay era day).month < 100 ∧ (ofEraDay era day).day < 100 := by
  simp only [ofEraDay]
  split_ifs <;> omega

theorem ofDays_bounds (days : Int) : (ofDays days).month < 100 ∧ (ofDays days).day < 100 :=
  ofEraDay_bounds _ (EraDay.ofNat_spec (by omega)).2.1

theorem toDays_ofEraDay (era : Int) {day : EraDay} (year : day.year < 400)
    (within : day.dayOfYear ≤ 365) :
    (ofEraDay era day).toDays = era * 146097 +
      (365 * day.year + day.year / 4 - day.year / 100 + day.dayOfYear : Nat) - 719468 := by
  simp only [ofEraDay, toDays]
  by_cases early : (5 * day.dayOfYear + 2) / 153 < 10
  · simp only [if_pos early]
    rw [if_neg (by omega), if_neg (by omega)]
    omega
  · simp only [if_neg early]
    rw [if_pos (by omega), if_pos (by omega)]
    omega

theorem toDays_ofDays (days : Int) : (ofDays days).toDays = days := by
  have within : ((days + 719468) % 146097).toNat < 146097 := by omega
  obtain ⟨year, day, total⟩ := EraDay.ofNat_spec within
  rw [ofDays, toDays_ofEraDay _ year day]
  omega

end CivilDate

def yearSign (year : Int) : List Char :=
  if year < 0 then ['-'] else if year < 10000 then [] else ['+']

/-- `%Y`. -/
def yearText (year : Int) : List Char := yearSign year ++ padded 4 year.natAbs

def dayDigits (date : CivilDate) : List Char := padded 2 date.month ++ padded 2 date.day

/-- `%Y-%m-%d`, of a moment in seconds. -/
def dateText (seconds : Int) : List Char :=
  let date := CivilDate.ofDays (seconds / 86400)
  yearText date.year ++ '-' :: padded 2 date.month ++ '-' :: padded 2 date.day

/-- `%H%M%S`. -/
def clockDigits (seconds : Int) : List Char :=
  let time := (seconds % 86400).toNat
  padded 2 (time / 3600) ++ padded 2 (time / 60 % 60) ++ padded 2 (time % 60)

/-- `%Y%m%d-%H%M%S`. -/
def stamp (seconds : Int) : List Char :=
  let date := CivilDate.ofDays (seconds / 86400)
  yearText date.year ++ dayDigits date ++ '-' :: clockDigits seconds

theorem length_dayDigits (days : Int) : (dayDigits (CivilDate.ofDays days)).length = 4 := by
  obtain ⟨month, day⟩ := CivilDate.ofDays_bounds days
  rw [dayDigits, length_append, length_padded (by decide) month,
    length_padded (by decide) day]

theorem dayDigits_inj {first second : Int}
    (same : dayDigits (CivilDate.ofDays first) = dayDigits (CivilDate.ofDays second)) :
    (CivilDate.ofDays first).month = (CivilDate.ofDays second).month ∧
      (CivilDate.ofDays first).day = (CivilDate.ofDays second).day := by
  have month (days : Int) : (padded 2 (CivilDate.ofDays days).month).length = 2 :=
    length_padded (by decide) (CivilDate.ofDays_bounds days).1
  obtain ⟨months, days⟩ := append_inj same ((month first).trans (month second).symm)
  have number := congrArg decimal months
  have other := congrArg decimal days
  rw [decimal_padded, decimal_padded] at number other
  exact ⟨number, other⟩

theorem length_clockDigits (seconds : Int) : (clockDigits seconds).length = 6 := by
  rw [clockDigits, length_append, length_append, length_padded (by decide) (by omega),
    length_padded (by decide) (by omega), length_padded (by decide) (by omega)]

theorem clockDigits_inj {first second : Int} (same : clockDigits first = clockDigits second) :
    first % 86400 = second % 86400 := by
  have hour (seconds : Int) : (padded 2 ((seconds % 86400).toNat / 3600)).length = 2 :=
    length_padded (by decide) (by omega)
  have minute (seconds : Int) : (padded 2 ((seconds % 86400).toNat / 60 % 60)).length = 2 :=
    length_padded (by decide) (by omega)
  rw [clockDigits, clockDigits, append_assoc, append_assoc] at same
  obtain ⟨hours, rest⟩ := append_inj same ((hour first).trans (hour second).symm)
  obtain ⟨minutes, seconds⟩ := append_inj rest ((minute first).trans (minute second).symm)
  have hours := congrArg decimal hours
  have minutes := congrArg decimal minutes
  have seconds := congrArg decimal seconds
  rw [decimal_padded, decimal_padded] at hours minutes seconds
  omega

theorem takeWhile_yearSign_append (year : Int) (number : Nat) (rest : List Char) :
    (yearSign year ++ (padded 4 number ++ rest)).takeWhile (fun sign => !sign.isDigit) =
      yearSign year := by
  have signs : ∀ sign ∈ yearSign year, (!sign.isDigit) = true := by
    rw [yearSign]
    split_ifs <;> simp
  have digits : (padded 4 number ++ rest).takeWhile (fun sign => !sign.isDigit) = [] := by
    obtain ⟨first, others, starts⟩ := exists_cons_of_ne_nil (padded_ne_nil 4 number)
    have digit : first.isDigit = true :=
      by
      have member : first ∈ padded 4 number := starts ▸ mem_cons_self
      exact isDigit_of_mem_padded member
    rw [starts, cons_append, takeWhile_cons_of_neg (by simp [digit])]
  rw [takeWhile_append_of_pos signs, digits, append_nil]

theorem year_eq_of_sign {first second : Int} (signs : yearSign first = yearSign second)
    (numbers : first.natAbs = second.natAbs) : first = second := by
  have sides : first < 0 ↔ second < 0 := by
    have negative (year : Int) : year < 0 ↔ yearSign year = ['-'] := by
      rw [yearSign]
      split_ifs <;> simp [*]
    rw [negative, negative, signs]
  omega

theorem digits_append_inj {number other : Nat} {first second : Int} {rest more : List Char}
    (same : padded 4 number ++ (dayDigits (CivilDate.ofDays first) ++ '-' :: rest) =
      padded 4 other ++ (dayDigits (CivilDate.ofDays second) ++ '-' :: more)) :
    number = other ∧
      dayDigits (CivilDate.ofDays first) = dayDigits (CivilDate.ofDays second) ∧ rest = more := by
  have clean (number : Nat) (days : Int) :
      '-' ∉ padded 4 number ++ dayDigits (CivilDate.ofDays days) := by
    rw [dayDigits, mem_append, mem_append]
    rintro (year | month | day)
    · exact notMem_padded rfl _ _ year
    · exact notMem_padded rfl _ _ month
    · exact notMem_padded rfl _ _ day
  have split := congrArg (splitOnce '-') same
  rw [← append_assoc, ← append_assoc, splitOnce_append (clean number first),
    splitOnce_append (clean other second)] at split
  obtain ⟨front, behind⟩ := Prod.mk.inj (Option.some.inj split)
  obtain ⟨years, days⟩ := append_inj' front
    ((length_dayDigits first).trans (length_dayDigits second).symm)
  have years := congrArg decimal years
  rw [decimal_padded, decimal_padded] at years
  exact ⟨years, days, behind⟩

/-- **Stamps.** A stamp tells its moment, also with more text behind it. -/
theorem stamp_append_inj {first second : Int} {rest more : List Char}
    (same : stamp first ++ rest = stamp second ++ more) : first = second ∧ rest = more := by
  simp only [stamp, yearText, append_assoc, cons_append] at same
  have signs := congrArg (List.takeWhile fun sign => !sign.isDigit) same
  rw [takeWhile_yearSign_append, takeWhile_yearSign_append] at signs
  rw [signs, append_cancel_left_eq] at same
  obtain ⟨years, days, behind⟩ := digits_append_inj same
  obtain ⟨clocks, others⟩ := append_inj behind
    ((length_clockDigits first).trans (length_clockDigits second).symm)
  have date : CivilDate.ofDays (first / 86400) = CivilDate.ofDays (second / 86400) := by
    obtain ⟨month, day⟩ := dayDigits_inj days
    have year := year_eq_of_sign signs years
    exact CivilDate.ext year month day
  have day : first / 86400 = second / 86400 := by
    rw [← CivilDate.toDays_ofDays (first / 86400), date, CivilDate.toDays_ofDays]
  have clock := clockDigits_inj clocks
  exact ⟨by omega, others⟩

theorem notMem_stamp {character : Char} (digit : character.isDigit = false) (plus : character ≠ '+')
    (minus : character ≠ '-') (seconds : Int) : character ∉ stamp seconds := by
  have sign (year : Int) : character ∉ yearSign year := by
    rw [yearSign]
    split_ifs <;> simp [plus, minus]
  simp only [stamp, yearText, dayDigits, clockDigits, mem_append, mem_cons, sign, minus,
    notMem_padded digit, or_self, not_false_eq_true]

end Foundation
