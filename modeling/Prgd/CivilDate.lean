import Mathlib

/-!
# Civil dates

Days are numbered from 1970 on, and negative before. A year begins at the day that counts 365 for
each year and one more for each leap year before it. The year of a day is the one that has begun and
is not over; its month is the last one of the year that has begun.

A date goes back to its day.
-/
namespace Prgd.CivilDate

/-- The first day of a year. -/
def dayFromYear (y : ℤ) : ℤ :=
  365 * (y - 1970) + (y - 1969) / 4 - (y - 1901) / 100 + (y - 1601) / 400

/-- The year by its mean length, which is off by one at most. -/
def yearGuess (d : ℤ) : ℤ := 1970 + 400 * d / 146097

def yearOf (d : ℤ) : ℤ :=
  let y := yearGuess d
  if d < dayFromYear y then y - 1 else if dayFromYear (y + 1) ≤ d then y + 1 else y

theorem dayFromYear_lt (y : ℤ) : dayFromYear y < dayFromYear (y + 1) := by
  rw [dayFromYear, dayFromYear]
  omega

theorem dayFromYear_yearOf_le (d : ℤ) : dayFromYear (yearOf d) ≤ d := by
  rw [yearOf]
  split_ifs with hlow hhigh
  · rw [yearGuess, dayFromYear]
    omega
  · exact hhigh
  · exact not_lt.mp hlow

def isLeap (y : ℤ) : Bool := y % 4 = 0 ∧ (y % 100 ≠ 0 ∨ y % 400 = 0)

/-- The days of a year before a month, which is numbered from 1. -/
def daysBefore (leap : Bool) (month : ℤ) : ℤ :=
  let days := match month with
    | 1 => 0 | 2 => 31 | 3 => 59 | 4 => 90 | 5 => 120 | 6 => 151
    | 7 => 181 | 8 => 212 | 9 => 243 | 10 => 273 | 11 => 304 | _ => 334
  if leap ∧ 2 < month then days + 1 else days

/-- The last month that has begun on a day of the year, which is numbered from 0. -/
def monthOf (leap : Bool) (dayOfYear : ℤ) : ℤ :=
  (([12, 11, 10, 9, 8, 7, 6, 5, 4, 3, 2].find? fun m => daysBefore leap m ≤ dayOfYear).getD 1)

structure Date where
  year : ℤ
  month : ℤ
  day : ℤ
  deriving DecidableEq

def ofDay (d : ℤ) : Date :=
  let year := yearOf d
  let month := monthOf (isLeap year) (d - dayFromYear year)
  ⟨year, month, d - dayFromYear year - daysBefore (isLeap year) month + 1⟩

def toDay (date : Date) : ℤ :=
  dayFromYear date.year + daysBefore (isLeap date.year) date.month + date.day - 1

example : ofDay 20000 = ⟨2024, 10, 4⟩ := by decide

end Prgd.CivilDate
