import Prgd.Calendar
import Prgd.CronGrammar
import Mathlib.Data.List.Sort
import Mathlib.Tactic.IntervalCases

/-!
# The next run of a cron schedule

`nextRun` in UTC: from the minute after the given instant on, day by day for eight leap
years, and on every day that matches through the hours and the minutes in order. Times
are milliseconds since 1970, and days are numbered from the first of January 1970, a
Thursday.

The first match that is found is the next one, and eight leap years are enough: the longest
wait is the one for a 29 February across a turn of the century that is no leap year.
-/
namespace Prgd.NextRun
open Cron CronGrammar

/-! ## Dates -/

def minuteMs : ℕ := 60000
def dayMs : ℕ := 86400000

/-- The first day of a month. -/
def monthDay (month : ℕ) : ℕ := Calendar.monthStart month / 24

structure Date where
  year : ℕ
  month : ℕ
  day : ℕ
  deriving DecidableEq

/-- `getUTCFullYear`, `getUTCMonth() + 1` and `getUTCDate` of a day. -/
def dateOf (d : ℕ) : Date :=
  let month := Calendar.monthOf (24 * d)
  ⟨1970 + month / 12, month % 12 + 1, d - monthDay month + 1⟩

/-- `Date.UTC(year, month - 1, day)`, as the number of the day. -/
def dayNumber (date : Date) : ℕ :=
  monthDay (12 * (date.year - 1970) + (date.month - 1)) + (date.day - 1)

/-- `getUTCDay` -/
def weekdayOf (d : ℕ) : ℕ := (d + 4) % 7

structure LocalParts where
  date : Date
  hour : ℕ
  minute : ℕ
  deriving DecidableEq

/-- `localParts` in UTC. -/
def localParts (instant : ℕ) : LocalParts where
  date := dateOf (instant / dayMs)
  hour := instant / 3600000 % 24
  minute := instant / minuteMs % 60

/-- `zonedTime` in UTC. -/
def zonedTime (date : Date) (hour minute : ℕ) : ℕ :=
  ((dayNumber date * 24 + hour) * 60 + minute) * minuteMs

/-! ## The search -/

def dayMatches (s : CronSchedule) (date : Date) : Bool :=
  if date.month ∉ s.months then false
  else
    let byDay := decide (date.day ∈ s.days)
    let byWeekday := decide (weekdayOf (dayNumber date) ∈ s.weekdays)
    if s.dayRestricted && s.weekdayRestricted then byDay || byWeekday
    else if s.dayRestricted then byDay
    else if s.weekdayRestricted then byWeekday
    else true

section
variable (s : CronSchedule) (after : ℕ) (p : LocalParts) (i : ℕ) (date : Date)

/-- The loop over the minutes of an hour, on day `i` of the search. -/
def minuteLoop (h : ℕ) : Option ℕ :=
  (s.minutes.insertionSort (· ≤ ·)).findSome? fun m =>
    if i = 0 ∧ h = p.hour ∧ m < p.minute then none
    else if after < zonedTime date h m then some (zonedTime date h m)
    else none

def hourLoop : Option ℕ :=
  (s.hours.insertionSort (· ≤ ·)).findSome? fun h =>
    if i = 0 ∧ h < p.hour then none else minuteLoop s after p i date h

end

/-- The loop over the days. -/
def dayLoop (s : CronSchedule) (after : ℕ) : Option ℕ :=
  let start := after / minuteMs * minuteMs + minuteMs
  let p := localParts start
  (List.range (366 * 8)).findSome? fun i =>
    let date := dateOf (dayNumber p.date + i)
    if dayMatches s date then hourLoop s after p i date else none

def nextRun (expr : Text) (after : ℕ) : Except Text ℕ :=
  match parseCron expr with
  | .error e => .error e
  | .ok s =>
      match dayLoop s after with
      | some t => .ok t
      | none => .error (quoted expr ++ " never runs".toList)

/-! ## What it looks for -/

/-- The documented rule: when both day fields are restricted a day matches either one, else
every restricted one. -/
def DayRule (s : CronSchedule) (day weekday : ℕ) : Prop :=
  if s.dayRestricted = true ∧ s.weekdayRestricted = true then
    day ∈ s.days ∨ weekday ∈ s.weekdays
  else (s.dayRestricted = true → day ∈ s.days) ∧ (s.weekdayRestricted = true → weekday ∈ s.weekdays)

/-- The UTC fields of an instant match the schedule. -/
structure Matches (s : CronSchedule) (instant : ℕ) : Prop where
  minute : (localParts instant).minute ∈ s.minutes
  hour : (localParts instant).hour ∈ s.hours
  month : (localParts instant).date.month ∈ s.months
  day : DayRule s (localParts instant).date.day (weekdayOf (instant / dayMs))

/-! ## Days and months -/

theorem monthStart_eq (month : ℕ) : Calendar.monthStart month = 24 * monthDay month := by
  induction month with
  | zero => rfl
  | succ month ih =>
    unfold monthDay at *
    rw [Calendar.monthStart_succ]
    omega

theorem monthDay_succ (month : ℕ) : monthDay (month + 1) = monthDay month + Calendar.daysIn month := by
  have h := Calendar.monthStart_succ month
  rw [monthStart_eq, monthStart_eq] at h
  omega

theorem monthDay_strictMono : StrictMono monthDay := by
  intro a b hab
  have h := Calendar.monthStart_strictMono hab
  rw [monthStart_eq, monthStart_eq] at h
  omega

/-- The month that a day lies in. -/
theorem monthOf_day (d : ℕ) : monthDay (Calendar.monthOf (24 * d)) ≤ d ∧
    d < monthDay (Calendar.monthOf (24 * d) + 1) := by
  have hle := Calendar.startOfMonth_le (24 * d)
  have hlt := Calendar.lt_monthStart_succ (24 * d)
  rw [Calendar.startOfMonth, monthStart_eq] at hle
  rw [monthStart_eq] at hlt
  omega

theorem monthOf_eq_of_day {month d : ℕ} (hle : monthDay month ≤ d) (hlt : d < monthDay (month + 1)) :
    Calendar.monthOf (24 * d) = month := by
  apply Calendar.monthOf_eq
  · rw [monthStart_eq]
    omega
  · rw [monthStart_eq]
    omega

theorem dayNumber_dateOf (d : ℕ) : dayNumber (dateOf d) = d := by
  have h := (monthOf_day d).1
  have hmonth : 12 * (1970 + Calendar.monthOf (24 * d) / 12 - 1970) +
      (Calendar.monthOf (24 * d) % 12 + 1 - 1) = Calendar.monthOf (24 * d) := by omega
  unfold dayNumber dateOf
  dsimp only
  rw [hmonth]
  omega

/-- The day `j` (from 0) of a month. -/
theorem dateOf_monthDay {month j : ℕ} (hj : j < Calendar.daysIn month) :
    (dateOf (monthDay month + j)).month = month % 12 + 1 ∧
      (dateOf (monthDay month + j)).day = j + 1 := by
  have hmonth : Calendar.monthOf (24 * (monthDay month + j)) = month := by
    apply monthOf_eq_of_day (Nat.le_add_right _ _)
    rw [monthDay_succ]
    omega
  unfold dateOf
  rw [hmonth]
  refine ⟨rfl, ?_⟩
  dsimp only
  omega

/-! ## Times -/

/-- The time of a day. -/
def timeOf (d hour minute : ℕ) : ℕ := ((d * 24 + hour) * 60 + minute) * minuteMs

theorem zonedTime_dateOf (d hour minute : ℕ) :
    zonedTime (dateOf d) hour minute = timeOf d hour minute := by
  rw [zonedTime, dayNumber_dateOf, timeOf]

theorem localParts_timeOf {d hour minute : ℕ} (hh : hour < 24) (hm : minute < 60) :
    localParts (timeOf d hour minute) = ⟨dateOf d, hour, minute⟩ ∧
      timeOf d hour minute / dayMs = d := by
  have hday : timeOf d hour minute / dayMs = d := by
    unfold timeOf minuteMs dayMs
    omega
  have hhour : timeOf d hour minute / 3600000 % 24 = hour := by
    unfold timeOf minuteMs
    omega
  have hminute : timeOf d hour minute / minuteMs % 60 = minute := by
    unfold timeOf minuteMs
    omega
  refine ⟨?_, hday⟩
  rw [localParts, hday, hhour, hminute]

/-- An instant on a whole minute is the time of its day. -/
theorem timeOf_localParts {t : ℕ} (h : t % minuteMs = 0) :
    timeOf (t / dayMs) (localParts t).hour (localParts t).minute = t := by
  unfold localParts timeOf minuteMs dayMs at *
  dsimp only
  omega

theorem timeOf_lt_iff {d hour minute hour' minute' : ℕ} (hm : minute < 60) (hm' : minute' < 60) :
    timeOf d hour minute < timeOf d hour' minute' ↔
      hour < hour' ∨ hour = hour' ∧ minute < minute' := by
  unfold timeOf minuteMs
  omega

/-! ## The loops -/

/-- In a sorted list the first hit is the least one. -/
theorem findSome_least {β : Type} {xs : List ℕ} (hs : xs.Pairwise (· ≤ ·)) {f : ℕ → Option β}
    {b : β} (h : xs.findSome? f = some b) :
    ∃ x ∈ xs, f x = some b ∧ ∀ y ∈ xs, y < x → f y = none := by
  obtain ⟨before, x, rest, rfl, hx, hbefore⟩ := List.findSome?_eq_some_iff.mp h
  refine ⟨x, by simp, hx, fun y hy hlt => ?_⟩
  rcases List.mem_append.mp hy with hy | hy
  · exact hbefore y hy
  · have hsorted := (List.pairwise_append.mp hs).2.1
    rcases List.mem_cons.mp hy with rfl | hy
    · exact absurd hlt (lt_irrefl _)
    · have := (List.pairwise_cons.mp hsorted).1 y hy
      omega

section
variable {s : CronSchedule} {after : ℕ} {p : LocalParts} {i d : ℕ}

/-- The minutes and hours that the first day skips have passed. -/
def SkipsPast (after : ℕ) (p : LocalParts) (i d : ℕ) : Prop :=
  i = 0 → ∀ h m, m < 60 → (h < p.hour ∨ h = p.hour ∧ m < p.minute) → timeOf d h m ≤ after

theorem minuteLoop_none (hmin : ∀ m ∈ s.minutes, m < 60) (hskip : SkipsPast after p i d) {h : ℕ}
    (hrun : minuteLoop s after p i (dateOf d) h = none) :
    ∀ m ∈ s.minutes, timeOf d h m ≤ after := by
  intro m hm
  have hnone := List.findSome?_eq_none_iff.mp hrun m ((List.mem_insertionSort _).mpr hm)
  rw [zonedTime_dateOf] at hnone
  split_ifs at hnone with hskipped hlt
  · exact hskip hskipped.1 h m (hmin m hm) (.inr hskipped.2)
  · omega

theorem minuteLoop_some (hmin : ∀ m ∈ s.minutes, m < 60) (hskip : SkipsPast after p i d) {h t : ℕ}
    (hrun : minuteLoop s after p i (dateOf d) h = some t) :
    after < t ∧ ∃ m ∈ s.minutes, t = timeOf d h m ∧
      ∀ m' ∈ s.minutes, after < timeOf d h m' → m ≤ m' := by
  obtain ⟨m, hm, hsome, hleast⟩ :=
    findSome_least (List.pairwise_insertionSort (· ≤ ·) s.minutes) hrun
  rw [List.mem_insertionSort] at hm
  rw [zonedTime_dateOf] at hsome
  split_ifs at hsome with hskipped hlt
  cases hsome
  refine ⟨hlt, m, hm, rfl, fun m' hm' hlt' => ?_⟩
  by_contra hless
  have hnone := hleast m' ((List.mem_insertionSort _).mpr hm') (by omega)
  rw [zonedTime_dateOf] at hnone
  split_ifs at hnone with hskipped'
  have := hskip hskipped'.1 h m' (hmin m' hm') (.inr hskipped'.2)
  omega

theorem hourLoop_none (hmin : ∀ m ∈ s.minutes, m < 60) (hskip : SkipsPast after p i d)
    (hrun : hourLoop s after p i (dateOf d) = none) :
    ∀ h ∈ s.hours, ∀ m ∈ s.minutes, timeOf d h m ≤ after := by
  intro h hh m hm
  have hnone := List.findSome?_eq_none_iff.mp hrun h ((List.mem_insertionSort _).mpr hh)
  split_ifs at hnone with hskipped
  · exact hskip hskipped.1 h m (hmin m hm) (.inl hskipped.2)
  · exact minuteLoop_none hmin hskip hnone m hm

/-- What the loops over one day find is the first time of the day that matches. -/
theorem hourLoop_some (hmin : ∀ m ∈ s.minutes, m < 60) (hskip : SkipsPast after p i d) {t : ℕ}
    (hrun : hourLoop s after p i (dateOf d) = some t) :
    after < t ∧ ∃ h ∈ s.hours, ∃ m ∈ s.minutes, t = timeOf d h m ∧
      ∀ h' ∈ s.hours, ∀ m' ∈ s.minutes, after < timeOf d h' m' → t ≤ timeOf d h' m' := by
  obtain ⟨h, hh, hsome, hleast⟩ :=
    findSome_least (List.pairwise_insertionSort (· ≤ ·) s.hours) hrun
  rw [List.mem_insertionSort] at hh
  split_ifs at hsome with hskipped
  obtain ⟨hlt, m, hm, rfl, hfirst⟩ := minuteLoop_some hmin hskip hsome
  refine ⟨hlt, h, hh, m, hm, rfl, fun h' hh' m' hm' hlt' => ?_⟩
  by_contra hless
  rcases (timeOf_lt_iff (hmin m' hm') (hmin m hm)).mp (not_le.mp hless) with hhour | ⟨rfl, hminute⟩
  · -- the whole hour has been passed over
    have hnone := hleast h' ((List.mem_insertionSort _).mpr hh') hhour
    have hpast : timeOf d h' m' ≤ after := by
      split_ifs at hnone with hskipped'
      · exact hskip hskipped'.1 h' m' (hmin m' hm') (.inl hskipped'.2)
      · exact minuteLoop_none hmin hskip hnone m' hm'
    omega
  · have := hfirst m' hm' hlt'
    omega

end

theorem dayMatches_dateOf (s : CronSchedule) (d : ℕ) : dayMatches s (dateOf d) = true ↔
    (dateOf d).month ∈ s.months ∧ DayRule s (dateOf d).day (weekdayOf d) := by
  unfold dayMatches DayRule
  rw [dayNumber_dateOf]
  split_ifs with hmonth hboth hboth' hday hweekday hnot <;> simp_all

/-- The first minute after an instant. -/
def startOf (after : ℕ) : ℕ := after / minuteMs * minuteMs + minuteMs

theorem startOf_le {after u : ℕ} (h : after < u) (hu : u % minuteMs = 0) : startOf after ≤ u := by
  unfold startOf minuteMs at *
  omega

theorem timeOf_startOf (after : ℕ) : timeOf (startOf after / dayMs) (localParts (startOf after)).hour
    (localParts (startOf after)).minute = startOf after := by
  apply timeOf_localParts
  unfold startOf minuteMs
  omega

/-- What the first day skips lies before the first minute. -/
theorem skipsPast_start (after i : ℕ) :
    SkipsPast after (localParts (startOf after)) i (startOf after / dayMs + i) := by
  rintro rfl h m hm hbefore
  have hminute : (localParts (startOf after)).minute < 60 := Nat.mod_lt _ (by decide)
  have hlt := (timeOf_lt_iff (d := startOf after / dayMs) hm hminute).mpr hbefore
  rw [timeOf_startOf] at hlt
  rw [Nat.add_zero]
  unfold startOf timeOf minuteMs at *
  omega

theorem dayLoop_eq (s : CronSchedule) (after : ℕ) : dayLoop s after =
    (List.range (366 * 8)).findSome? fun i =>
      if dayMatches s (dateOf (startOf after / dayMs + i)) then
        hourLoop s after (localParts (startOf after)) i (dateOf (startOf after / dayMs + i))
      else none := by
  have hfirst : dayNumber (localParts (startOf after)).date = startOf after / dayMs :=
    dayNumber_dateOf _
  unfold dayLoop
  dsimp only
  rw [show after / minuteMs * minuteMs + minuteMs = startOf after from rfl, hfirst]

/-- Hours and minutes of the clock. -/
structure Clock (s : CronSchedule) : Prop where
  hours : ∀ h ∈ s.hours, h < 24
  minutes : ∀ m ∈ s.minutes, m < 60

theorem matches_timeOf {s : CronSchedule} {d h m : ℕ} (hh : h < 24) (hm : m < 60) :
    Matches s (timeOf d h m) ↔ m ∈ s.minutes ∧ h ∈ s.hours ∧ dayMatches s (dateOf d) = true := by
  obtain ⟨hparts, hday⟩ := localParts_timeOf (d := d) hh hm
  rw [dayMatches_dateOf]
  constructor
  · rintro ⟨hminute, hhour, hmonth, hrule⟩
    rw [hparts] at hminute hhour hmonth hrule
    rw [hday] at hrule
    exact ⟨hminute, hhour, hmonth, hrule⟩
  · rintro ⟨hminute, hhour, hmonth, hrule⟩
    refine ⟨?_, ?_, ?_, ?_⟩
    · rwa [hparts]
    · rwa [hparts]
    · rwa [hparts]
    · rwa [hparts, hday]

/-- The parts of a matching minute. -/
theorem Matches.parts {s : CronSchedule} {u : ℕ} (h : Matches s u) (hu : u % minuteMs = 0) :
    (localParts u).minute ∈ s.minutes ∧ (localParts u).hour ∈ s.hours ∧
      dayMatches s (dateOf (u / dayMs)) = true := by
  have hhour : (localParts u).hour < 24 := Nat.mod_lt _ (by decide)
  have hminute : (localParts u).minute < 60 := Nat.mod_lt _ (by decide)
  rw [← timeOf_localParts hu] at h
  exact (matches_timeOf hhour hminute).mp h

/-- What the search finds is the first matching minute after the instant. -/
theorem dayLoop_some {s : CronSchedule} (hclock : Clock s) {after t : ℕ}
    (hrun : dayLoop s after = some t) :
    after < t ∧ t % minuteMs = 0 ∧ Matches s t ∧
      ∀ u, after < u → u < t → u % minuteMs = 0 → ¬ Matches s u := by
  rw [dayLoop_eq] at hrun
  obtain ⟨i, hi, hsome, hleast⟩ :=
    findSome_least (List.pairwise_lt_range.imp fun h => Nat.le_of_lt h) hrun
  rw [List.mem_range] at hi
  split_ifs at hsome with hmatch
  obtain ⟨hlt, h, hh, m, hm, rfl, hfirst⟩ :=
    hourLoop_some hclock.minutes (skipsPast_start after i) hsome
  refine ⟨hlt, ?_, ?_, fun u hafter hbefore hu hmatches => ?_⟩
  · exact Nat.mul_mod_left _ _
  · exact (matches_timeOf (hclock.hours h hh) (hclock.minutes m hm)).mpr ⟨hm, hh, hmatch⟩
  · obtain ⟨hminute, hhour, hday⟩ := hmatches.parts hu
    have hparts := timeOf_localParts hu
    have hfrom : startOf after / dayMs ≤ u / dayMs :=
      Nat.div_le_div_right (startOf_le hafter hu)
    have hto : u / dayMs ≤ startOf after / dayMs + i := by
      have := Nat.div_le_div_right (c := dayMs) hbefore.le
      rwa [(localParts_timeOf (hclock.hours h hh) (hclock.minutes m hm)).2] at this
    obtain ⟨k, hk⟩ := Nat.exists_eq_add_of_le hfrom
    rcases Nat.lt_or_ge k i with hless | hge
    · -- the search has passed the day over
      have hnone := hleast k (List.mem_range.mpr (lt_trans hless hi)) hless
      rw [← hk, if_pos hday] at hnone
      have hpast := hourLoop_none hclock.minutes (hk ▸ skipsPast_start after k) hnone
        _ hhour _ hminute
      omega
    · have heq : startOf after / dayMs + i = u / dayMs := by omega
      rw [heq] at hfirst hbefore
      have hle := hfirst _ hhour _ hminute (by rwa [hparts])
      omega

/-! ## Eight years -/

/-- The 29 February of a year, or the first of March. -/
def leapDay (year : ℕ) : ℕ := monthDay (12 * (year - 1970) + 1) + 28

theorem daysIn_february (y : ℕ) :
    Calendar.daysIn (12 * y + 1) = if Calendar.leap (1970 + y) then 29 else 28 := by
  have hmod : (12 * y + 1) % 12 = 1 := by omega
  have hdiv : (12 * y + 1) / 12 = y := by omega
  simp only [Calendar.daysIn, hmod, hdiv]

theorem daysIn_later {y n : ℕ} (hlo : 2 ≤ n) (hhi : n ≤ 12) : Calendar.daysIn (12 * y + n) =
    if n = 3 ∨ n = 5 ∨ n = 8 ∨ n = 10 then 30 else 31 := by
  have hmod : (12 * y + n) % 12 = n % 12 := by omega
  simp only [Calendar.daysIn, hmod]
  interval_cases n <;> rfl

/-- From one of these days to the next. -/
theorem leapDay_succ (y : ℕ) : leapDay (1970 + (y + 1)) =
    leapDay (1970 + y) + 365 + if Calendar.leap (1970 + y) then 1 else 0 := by
  have hrest : ∀ n, 2 ≤ n → n ≤ 12 → monthDay (12 * y + n + 1) =
      monthDay (12 * y + n) + if n = 3 ∨ n = 5 ∨ n = 8 ∨ n = 10 then 30 else 31 := by
    intro n hlo hhi
    rw [monthDay_succ, daysIn_later hlo hhi]
  have h1 := monthDay_succ (12 * y + 1)
  have h2 := hrest 2 (by omega) (by omega)
  have h3 := hrest 3 (by omega) (by omega)
  have h4 := hrest 4 (by omega) (by omega)
  have h5 := hrest 5 (by omega) (by omega)
  have h6 := hrest 6 (by omega) (by omega)
  have h7 := hrest 7 (by omega) (by omega)
  have h8 := hrest 8 (by omega) (by omega)
  have h9 := hrest 9 (by omega) (by omega)
  have h10 := hrest 10 (by omega) (by omega)
  have h11 := hrest 11 (by omega) (by omega)
  have h12 := hrest 12 (by omega) (by omega)
  rw [daysIn_february] at h1
  simp only [Nat.add_assoc] at *
  norm_num at *
  unfold leapDay
  rw [show 12 * (1970 + (y + 1) - 1970) + 1 = 12 * y + 13 by omega,
    show 12 * (1970 + y - 1970) + 1 = 12 * y + 1 by omega]
  split_ifs at * <;> omega

/-- Years that are not leap years. -/
theorem leapDay_add {y n : ℕ} (hn : ∀ k < n, Calendar.leap (1970 + (y + k)) = false) :
    leapDay (1970 + (y + n)) = leapDay (1970 + y) + 365 * n := by
  induction n with
  | zero => rfl
  | succ n ih =>
    have hlast := leapDay_succ (y + n)
    rw [hn n (Nat.lt_succ_self n), Nat.add_assoc] at hlast
    rw [hlast, ih fun k hk => hn k (by omega)]
    simp only [Bool.false_eq_true, if_false]
    omega

theorem exists_leap (year : ℕ) : ∃ n < 8, Calendar.leap (year + n) = true := by
  by_cases hfirst : Calendar.leap (year + (3 - (year + 3) % 4)) = true
  · exact ⟨_, by omega, hfirst⟩
  · refine ⟨3 - (year + 3) % 4 + 4, by omega, ?_⟩
    simp only [Calendar.leap, decide_eq_true_eq] at *
    omega

theorem lt_leapDay (d : ℕ) : d < leapDay (1970 + d) := by
  have := monthDay_strictMono.le_apply (x := 12 * d + 1)
  unfold leapDay
  rw [show 12 * (1970 + d - 1970) + 1 = 12 * d + 1 by omega]
  omega

/-- After any day there is a 29 February within eight years and a day. -/
theorem exists_leapDay (d : ℕ) : ∃ y, Calendar.leap (1970 + y) = true ∧ d < leapDay (1970 + y) ∧
    leapDay (1970 + y) ≤ d + 2921 := by
  have hsome : ∃ y, d < leapDay (1970 + y) := ⟨d, lt_leapDay d⟩
  have hleap : ∃ n, Calendar.leap (1970 + (Nat.find hsome + n)) = true := by
    obtain ⟨n, -, hn⟩ := exists_leap (1970 + Nat.find hsome)
    exact ⟨n, by rwa [Nat.add_assoc] at hn⟩
  have hsmall : Nat.find hleap < 8 := by
    obtain ⟨n, hlt, hn⟩ := exists_leap (1970 + Nat.find hsome)
    rw [Nat.add_assoc] at hn
    exact lt_of_le_of_lt (Nat.find_min' hleap hn) hlt
  have hadd : leapDay (1970 + (Nat.find hsome + Nat.find hleap)) =
      leapDay (1970 + Nat.find hsome) + 365 * Nat.find hleap :=
    leapDay_add fun k hk => Bool.eq_false_iff.mpr (Nat.find_min hleap hk)
  have hafter := Nat.find_spec hsome
  have hbefore : leapDay (1970 + Nat.find hsome) ≤ d + 366 := by
    rcases Nat.eq_zero_or_pos (Nat.find hsome) with hzero | hpos
    · have hfirst : leapDay (1970 + 0) = 59 := by decide
      rw [hzero, hfirst]
      omega
    · have hmin := Nat.find_min hsome (Nat.sub_lt hpos Nat.one_pos)
      have hstep := leapDay_succ (Nat.find hsome - 1)
      rw [Nat.sub_add_cancel hpos] at hstep
      split_ifs at hstep <;> omega
  exact ⟨_, Nat.find_spec hleap, by omega, by omega⟩

theorem monthDay_add_le (month n : ℕ) : monthDay (month + n) ≤ monthDay month + 31 * n := by
  induction n with
  | zero => exact le_rfl
  | succ n ih =>
    have hlast := monthDay_succ (month + n)
    have hlen : Calendar.daysIn (month + n) ≤ 31 := by
      unfold Calendar.daysIn
      split
      · split_ifs <;> omega
      all_goals omega
    rw [Nat.add_assoc] at hlast
    omega

theorem daysIn_congr {k month : ℕ} (hmod : k % 12 = month % 12) (hne : month % 12 ≠ 1) :
    Calendar.daysIn k = Calendar.daysIn month := by
  unfold Calendar.daysIn
  rw [hmod]
  split <;> first | rfl | contradiction

/-- A day that a month has in one year and not in another is the 29 February. -/
theorem february_of_longer {k month j : ℕ} (hmod : k % 12 = month % 12)
    (hk : Calendar.daysIn k ≤ j) (hj : j < Calendar.daysIn month) : month % 12 = 1 ∧ j = 28 := by
  by_cases hfeb : month % 12 = 1
  · have hlong : Calendar.daysIn month ≤ 29 := by
      rw [show month = 12 * (month / 12) + 1 by omega, daysIn_february]
      split_ifs <;> omega
    have := Calendar.le_daysIn k
    exact ⟨hfeb, by omega⟩
  · have := daysIn_congr hmod hfeb
    omega

/-- Within a year after a day every month begins. -/
theorem exists_month (d : ℕ) {r : ℕ} (hr : r < 12) :
    ∃ k, k % 12 = r ∧ d < monthDay k ∧ monthDay k ≤ d + 372 := by
  obtain ⟨hle, hlt⟩ := monthOf_day d
  obtain ⟨n, hpos, hmax, hn⟩ : ∃ n, 1 ≤ n ∧ n ≤ 12 ∧ (Calendar.monthOf (24 * d) + n) % 12 = r := by
    refine ⟨(r + 11 - Calendar.monthOf (24 * d) % 12) % 12 + 1, ?_, ?_, ?_⟩ <;> omega
  refine ⟨_, hn, ?_, ?_⟩
  · exact lt_of_lt_of_le hlt (monthDay_strictMono.monotone (by omega))
  · have := monthDay_add_le (Calendar.monthOf (24 * d)) n
    omega

/-- A month and a weekday come round. -/
theorem exists_weekday (d e : ℕ) : ∃ i, 1 ≤ i ∧ i < 2928 ∧
    (dateOf (d + i)).month = (dateOf e).month ∧ weekdayOf (d + i) = weekdayOf e := by
  obtain ⟨k, hmonth, hlt, hle⟩ := exists_month d (Nat.mod_lt (Calendar.monthOf (24 * e))
    (by decide : 12 > 0))
  obtain ⟨j, hj, hweekday⟩ : ∃ j < 7, (monthDay k + j + 4) % 7 = (e + 4) % 7 := by
    refine ⟨(e + 7 - monthDay k % 7) % 7, ?_, ?_⟩ <;> omega
  have hin : j < Calendar.daysIn k := lt_of_lt_of_le hj ((by decide : 7 ≤ 28).trans
    (Calendar.le_daysIn k))
  obtain ⟨i, hi⟩ := Nat.exists_eq_add_of_le hlt.le
  refine ⟨i + j, by omega, by omega, ?_, ?_⟩
  · rw [← Nat.add_assoc, ← hi, (dateOf_monthDay hin).1, hmonth]
    rfl
  · rw [← Nat.add_assoc, ← hi]
    exact hweekday

/-- A month and a day of the month come round. -/
theorem exists_day (d e : ℕ) : ∃ i, 1 ≤ i ∧ i < 2928 ∧
    (dateOf (d + i)).month = (dateOf e).month ∧ (dateOf (d + i)).day = (dateOf e).day := by
  obtain ⟨hle, hlt⟩ := monthOf_day e
  obtain ⟨j, hj⟩ := Nat.exists_eq_add_of_le hle
  have hin : j < Calendar.daysIn (Calendar.monthOf (24 * e)) := by
    have := monthDay_succ (Calendar.monthOf (24 * e))
    omega
  have hdate := dateOf_monthDay hin
  rw [← hj] at hdate
  rw [hdate.1, hdate.2]
  obtain ⟨k, hmonth, hafter, hsoon⟩ := exists_month d (Nat.mod_lt (Calendar.monthOf (24 * e))
    (by decide : 12 > 0))
  by_cases hink : j < Calendar.daysIn k
  · obtain ⟨i, hi⟩ := Nat.exists_eq_add_of_le hafter.le
    have hshort : Calendar.daysIn (Calendar.monthOf (24 * e)) ≤ 31 := by
      have := monthDay_add_le (Calendar.monthOf (24 * e)) 1
      rw [monthDay_succ] at this
      omega
    have hdatek := dateOf_monthDay hink
    rw [hi, Nat.add_assoc] at hdatek
    exact ⟨i + j, by omega, by omega, by rw [hdatek.1, hmonth], hdatek.2⟩
  · -- only the 29 February is in one year and not in another
    have hfeb := february_of_longer hmonth (not_lt.mp hink) hin
    obtain ⟨y, hleap, hlater, hwithin⟩ := exists_leapDay d
    have hiny : 28 < Calendar.daysIn (12 * y + 1) := by
      rw [daysIn_february, hleap]
      decide
    have hdatey := dateOf_monthDay hiny
    unfold leapDay at hlater hwithin
    rw [Nat.add_sub_cancel_left] at hlater hwithin
    obtain ⟨i, hi⟩ := Nat.exists_eq_add_of_le hlater.le
    rw [hi] at hdatey
    refine ⟨i, by omega, by omega, ?_, ?_⟩
    · rw [hdatey.1, hfeb.1]
      omega
    · rw [hdatey.2, hfeb.2]

/-- A schedule with a day that matches has one among the days that are searched. -/
theorem exists_dayMatches {s : CronSchedule} (d : ℕ) {e : ℕ}
    (he : dayMatches s (dateOf e) = true) :
    ∃ i, 1 ≤ i ∧ i < 2928 ∧ dayMatches s (dateOf (d + i)) = true := by
  rw [dayMatches_dateOf] at he
  obtain ⟨hmonth, hrule⟩ := he
  obtain ⟨i, hi, hi', him, hiw⟩ := exists_weekday d e
  obtain ⟨j, hj, hj', hjm, hjd⟩ := exists_day d e
  by_cases hday : s.dayRestricted = true ∧ (dateOf e).day ∈ s.days
  · refine ⟨j, hj, hj', (dayMatches_dateOf s _).mpr ⟨hjm ▸ hmonth, ?_⟩⟩
    unfold DayRule at hrule ⊢
    rw [hjd]
    split_ifs at hrule ⊢ with hboth
    · exact .inl hday.2
    · exact ⟨fun _ => hday.2, fun hweekday => absurd ⟨hday.1, hweekday⟩ hboth⟩
  · refine ⟨i, hi, hi', (dayMatches_dateOf s _).mpr ⟨him ▸ hmonth, ?_⟩⟩
    unfold DayRule at hrule ⊢
    rw [hiw]
    split_ifs at hrule ⊢ with hboth
    · exact .inr (hrule.resolve_left fun hin => hday ⟨hboth.1, hin⟩)
    · exact ⟨fun hres => absurd ⟨hres, hrule.1 hres⟩ hday, hrule.2⟩

/-- When the search finds nothing, nothing matches. -/
theorem dayLoop_none {s : CronSchedule} (hclock : Clock s) {after : ℕ}
    (hrun : dayLoop s after = none) : ∀ u, u % minuteMs = 0 → ¬ Matches s u := by
  rintro u hu hmatches
  obtain ⟨hminute, hhour, hday⟩ := hmatches.parts hu
  rw [dayLoop_eq] at hrun
  obtain ⟨i, hpos, hi, hmatch⟩ := exists_dayMatches (startOf after / dayMs) hday
  have hnone := List.findSome?_eq_none_iff.mp hrun i (List.mem_range.mpr hi)
  rw [if_pos hmatch] at hnone
  have hpast := hourLoop_none hclock.minutes (skipsPast_start after i) hnone _ hhour _ hminute
  unfold timeOf startOf minuteMs dayMs at hpast
  omega

/-! ## The schedules of an expression -/

theorem clock_of_parse {expr : Text} {s : CronSchedule} (hs : parseCron expr = .ok s) :
    Clock s := by
  obtain ⟨m, h, -, -, -, -, -, hm, hh, -⟩ := parseCron_ok hs
  refine ⟨fun n hn => ?_, fun n hn => ?_⟩
  · have := (field_range (f := hourField) ⟨by decide, by decide, by decide⟩ hh hn).2
    exact Nat.lt_succ_of_le this
  · have := (field_range (f := minuteField) ⟨by decide, by decide, by decide⟩ hm hn).2
    exact Nat.lt_succ_of_le this

/-- `nextRun` gives the first matching minute after the instant, and it throws only when no
minute matches. -/
theorem nextRun_first {expr : Text} {s : CronSchedule} (hs : parseCron expr = .ok s) (after : ℕ) :
    (∀ t, nextRun expr after = .ok t → after < t ∧ t % minuteMs = 0 ∧ Matches s t ∧
      ∀ u, after < u → u < t → u % minuteMs = 0 → ¬ Matches s u) ∧
    (∀ e, nextRun expr after = .error e → ∀ u, u % minuteMs = 0 → ¬ Matches s u) := by
  have hclock := clock_of_parse hs
  unfold nextRun
  rw [hs]
  dsimp only
  cases hrun : dayLoop s after with
  | some found =>
    refine ⟨fun t ht => ?_, fun e he => by cases he⟩
    obtain rfl := Except.ok.inj ht
    exact dayLoop_some hclock hrun
  | none => exact ⟨fun t ht => by (cases ht), fun e _ => dayLoop_none hclock hrun⟩

/-- The first Monday of 1970 was the fifth of January. -/
theorem nextRun_first_monday :
    379800000 % minuteMs = 0 ∧
      Matches ⟨[30], [9], List.range' 1 31, List.range' 1 12, [1], false, true⟩ 379800000 ∧
      ¬ Matches ⟨[30], [9], List.range' 1 31, List.range' 1 12, [1], false, true⟩ 379740000 := by
  have hs : parseCron "30 9 * * 1".toList =
      .ok ⟨[30], [9], List.range' 1 31, List.range' 1 12, [1], false, true⟩ := by decide +kernel
  obtain ⟨-, hminute, hmatches, hfirst⟩ :=
    (nextRun_first hs 0).1 379800000 (by decide +kernel)
  exact ⟨hminute, hmatches, hfirst 379740000 (by decide) (by decide) (by decide)⟩

end Prgd.NextRun
