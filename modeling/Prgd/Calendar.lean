import Mathlib

/-!
# Calendar months in hours

Hours and months are counted from the first of January 1970. A month starts at
an hour, and `startOfMonth` finds the month that an hour lies in: the last one
that has started by then.
-/
namespace Prgd.Calendar

def leap (year : ℕ) : Bool := year % 4 = 0 ∧ (year % 100 ≠ 0 ∨ year % 400 = 0)

def daysIn (month : ℕ) : ℕ :=
  match month % 12 with
  | 1 => if leap (1970 + month / 12) then 29 else 28
  | 3 | 5 | 8 | 10 => 30
  | _ => 31

/-- The first hour of a month. -/
def monthStart : ℕ → ℕ
  | 0 => 0
  | month + 1 => monthStart month + 24 * daysIn month

theorem monthStart_succ (month : ℕ) :
    monthStart (month + 1) = monthStart month + 24 * daysIn month := rfl

/-- The month that an hour lies in. A month has at least 672 hours, which bounds the search. -/
def monthOf (hour : ℕ) : ℕ := Nat.findGreatest (fun month => monthStart month ≤ hour) (hour / 672)

def startOfMonth (hour : ℕ) : ℕ := monthStart (monthOf hour)

theorem le_daysIn (month : ℕ) : 28 ≤ daysIn month := by
  unfold daysIn
  split
  · split_ifs <;> omega
  all_goals omega

theorem monthStart_lt_succ (month : ℕ) : monthStart month < monthStart (month + 1) := by
  have := le_daysIn month
  simp only [monthStart_succ]
  omega

theorem monthStart_strictMono : StrictMono monthStart := strictMono_nat_of_lt_succ monthStart_lt_succ

theorem le_monthStart (month : ℕ) : 672 * month ≤ monthStart month := by
  induction month with
  | zero => exact Nat.zero_le _
  | succ month ih =>
    have := le_daysIn month
    simp only [monthStart_succ]
    omega

theorem startOfMonth_le (hour : ℕ) : startOfMonth hour ≤ hour :=
  Nat.findGreatest_spec (P := fun month => monthStart month ≤ hour) (Nat.zero_le _) (Nat.zero_le _)

theorem lt_monthStart_succ (hour : ℕ) : hour < monthStart (monthOf hour + 1) := by
  by_contra hle
  rw [not_lt] at hle
  have hbound : monthOf hour + 1 ≤ hour / 672 := by
    have := le_monthStart (monthOf hour + 1)
    omega
  have hmax := Nat.le_findGreatest (P := fun month => monthStart month ≤ hour) hbound hle
  unfold monthOf at hmax
  omega

/-- The month of an hour is the one whose start and end it lies between. -/
theorem monthOf_eq {month hour : ℕ} (hle : monthStart month ≤ hour)
    (hlt : hour < monthStart (month + 1)) : monthOf hour = month := by
  have hlow : monthOf hour < month + 1 :=
    monthStart_strictMono.lt_iff_lt.mp (lt_of_le_of_lt (startOfMonth_le hour) hlt)
  have hhigh : month < monthOf hour + 1 :=
    monthStart_strictMono.lt_iff_lt.mp (lt_of_le_of_lt hle (lt_monthStart_succ hour))
  omega

/-- The hours from the start of a month up to one of its hours are in that month. -/
theorem monthOf_eq_of_le {hour earlier : ℕ} (hle : startOfMonth hour ≤ earlier)
    (hlt : earlier ≤ hour) : monthOf earlier = monthOf hour :=
  monthOf_eq hle (lt_of_le_of_lt hlt (lt_monthStart_succ hour))

/-- A month has started by an hour when it is not later than the hour's month. -/
theorem monthStart_le_iff {month hour : ℕ} : monthStart month ≤ hour ↔ month ≤ monthOf hour := by
  constructor
  · intro hle
    have hlt := monthStart_strictMono.lt_iff_lt.mp (lt_of_le_of_lt hle (lt_monthStart_succ hour))
    omega
  · intro hle
    exact le_trans (monthStart_strictMono.monotone hle) (startOfMonth_le hour)

theorem startOfMonth_le_iff {hour earlier : ℕ} (h : earlier ≤ hour) :
    startOfMonth hour ≤ earlier ↔ monthOf earlier = monthOf hour := by
  constructor
  · intro hle
    exact monthOf_eq_of_le hle h
  · intro heq
    have := startOfMonth_le earlier
    rw [startOfMonth, heq] at this
    exact this

end Prgd.Calendar
