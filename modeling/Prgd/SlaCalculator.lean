import Prgd.CivilDate
import Prgd.OpenHours
import Mathlib.Algebra.Order.Floor.Ring
import Mathlib.Data.Rat.Floor
import Mathlib.Tactic.FieldSimp

/-!
# Due times of the service level

`addSlaMinutes` and `slaMinutesBetween` on calendars whose time zone keeps its offset from UTC. Both
look at the local day of an instant, at its window of working time and at the start of the next day,
through the wall clock of the zone.

A day seen this way is a day of the schedule that has the same windows, so the two functions are the
walks over it. Minutes are exact rationals, an instant is its milliseconds since 1970, and a date
cuts what is less than a millisecond off.
-/
namespace Prgd.Sla
open CivilDate OpenHours

inductive Coverage where
  | businessHours | twentyFourSeven
  deriving DecidableEq

inductive CalendarCountry where
  | SA | TR
  deriving DecidableEq

/-- The time zone is its offset from UTC in minutes. -/
structure CalendarRules where
  offset : ℤ
  /-- Working days, 0 = Sunday. -/
  workdays : List ℤ
  startHour : ℕ
  endHour : ℕ
  endHour_le : endHour ≤ 24
  offset_le : -1440 ≤ offset ∧ offset ≤ 1440

structure SlaCalendar where
  coverage : Coverage
  country : CalendarCountry
  /-- Local dates (YYYY-MM-DD). -/
  holidays : List String

def MINUTE : ℤ := 60000
def HOUR : ℤ := 3600000
def DAY : ℤ := 86400000

def MAX_DAYS : ℕ := 3 * 366

/-! ## The wall clock -/

structure LocalParts extends Date where
  hour : ℤ
  minute : ℤ
  second : ℤ

/-- A year before the first one is shown by its number in the other era. -/
def shownYear (year : ℤ) : ℤ := if year ≤ 0 then 1 - year else year

def localParts (offset instant : ℤ) : LocalParts :=
  let wall := instant + offset * MINUTE
  let date := ofDay (wall / DAY)
  { date with
    year := shownYear date.year
    hour := wall % DAY / HOUR
    minute := wall % HOUR / MINUTE
    second := wall % MINUTE / 1000 }

/-- `Date.UTC`, which takes a year below 100 for one of the twentieth century. -/
def utc (date : Date) (hour minute second : ℤ) : ℤ :=
  let year := if 0 ≤ date.year ∧ date.year ≤ 99 then 1900 + date.year else date.year
  toDay { date with year } * DAY + hour * HOUR + minute * MINUTE + second * 1000

/-- With `Math.round` of whole milliseconds in minutes. -/
def offsetMinutes (offset instant : ℤ) : ℤ :=
  let p := localParts offset instant
  let asUtc := utc p.toDate p.hour p.minute p.second
  (asUtc - instant / 1000 * 1000 + MINUTE / 2) / MINUTE

def zonedTime (offset : ℤ) (date : Date) (hour minute : ℤ) : ℤ :=
  let guess := utc date hour minute 0
  let first := guess - offsetMinutes offset guess * MINUTE
  guess - offsetMinutes offset first * MINUTE

def padded (n : ℤ) : String := String.ofList (List.leftpad 2 '0' (toString n).toList)

def dateKey (date : Date) : String :=
  toString date.year ++ "-" ++ padded date.month ++ "-" ++ padded date.day

/-- `getUTCDay` -/
def weekday (instant : ℤ) : ℤ := (instant / DAY + 4) % 7

/-- `new Date(q)` -/
def dateOf (q : ℚ) : ℤ := if 0 ≤ q then ⌊q⌋ else ⌈q⌉

/-- The days with their windows, in UTC. -/
def schedule (rules : CalendarRules) (holidays : List String) : Schedule where
  edge d := d * DAY - rules.offset * MINUTE
  edge_lt d := by
    simp only [DAY]
    omega
  window d :=
    if (d + 4) % 7 ∉ rules.workdays ∨ dateKey (ofDay d) ∈ holidays then none
    else some ⟨d * DAY + rules.startHour * HOUR - rules.offset * MINUTE,
      d * DAY + rules.endHour * HOUR - rules.offset * MINUTE⟩
  le_start d w hw := by
    split_ifs at hw
    cases hw
    simp only [HOUR]
    omega
  stop_le d w hw := by
    have := rules.endHour_le
    split_ifs at hw
    cases hw
    simp only [HOUR, DAY]
    omega

section
variable {calendars : CalendarCountry → CalendarRules} {cal : SlaCalendar}

/-- The number of the local day of an instant. -/
def localDay (rules : CalendarRules) (instant : ℤ) : ℤ := (instant + rules.offset * MINUTE) / DAY

def SlaCalendar.schedule (calendars : CalendarCountry → CalendarRules) (cal : SlaCalendar) :
    Schedule :=
  Sla.schedule (calendars cal.country) cal.holidays

/-- The working time that the loop from an instant counts. -/
def SlaCalendar.worked (calendars : CalendarCountry → CalendarRules) (cal : SlaCalendar)
    (s t : ℤ) : ℤ :=
  (cal.schedule calendars).worked (localDay (calendars cal.country) s) MAX_DAYS s t

end

/-- Working hours in Riyadh without public holidays. -/
def riyadh : SlaCalendar := ⟨.businessHours, .SA, []⟩

end Prgd.Sla
