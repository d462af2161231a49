import Prgd.Payouts
import Mathlib.Data.Nat.Count
import Mathlib.Order.Interval.Finset.Nat

/-!
# Night minutes

`nightMinutes` walks over the local clock hours of a stretch of work. In a zone of fixed
offset it counts every minute of the stretch by the local hour in which the minute
begins, whatever the window, so stretches may be cut anywhere and the day and the
night minutes of a payout add up.
-/
namespace Prgd.NightMinutes
open Payouts
open JsNumber (nearest)
open Rating (mathRound)

/-! ## Clocks of a fixed offset -/

/-- The local time in whole minutes since 1970. The offset is in milliseconds. -/
def localMinute (offset : ℤ) (instant : ℕ) : ℤ := ((instant : ℤ) + offset) / 60000

/-- The local hour and minute in zones with the given offsets. -/
def fixedClock (offsetOf : String → ℤ) (zone : String) (instant : ℕ) : ℕ × ℕ :=
  let m := localMinute (offsetOf zone) instant
  ((m / 60 % 24).toNat, (m % 60).toNat)

theorem localMinute_add (offset : ℤ) (instant minutes : ℕ) :
    localMinute offset (instant + minutes * 60000) = localMinute offset instant + minutes := by
  unfold localMinute
  omega

section
variable (offsetOf : String → ℤ) (zone : String)

theorem fixedClock_minute_lt (instant : ℕ) : (fixedClock offsetOf zone instant).2 < 60 := by
  unfold fixedClock
  dsimp only
  omega

/-- The hour stays the same up to its sixtieth minute. -/
theorem fixedClock_hour {instant minutes : ℕ}
    (h : (fixedClock offsetOf zone instant).2 + minutes < 60) :
    (fixedClock offsetOf zone (instant + minutes * 60000)).1 =
      (fixedClock offsetOf zone instant).1 := by
  unfold fixedClock at *
  dsimp only at *
  rw [localMinute_add]
  omega

/-! ## The window -/

/-- The `i`-th minute of a stretch of work begins in an hour of the window. -/
def nightAt (start nightStartHour nightEndHour i : ℕ) : Bool :=
  isNightHour (fixedClock offsetOf zone (start + i * 60000)).1 nightStartHour nightEndHour

/-- The night minutes of a stretch from minute `m` on. -/
def nightFrom (start minutes nightStartHour nightEndHour m : ℕ) : Finset ℕ :=
  (Finset.Ico m minutes).filter fun i => nightAt offsetOf zone start nightStartHour nightEndHour i

/-- The rest of an hour is night or day as a whole. -/
theorem card_nightFrom (start minutes nightStartHour nightEndHour : ℕ) {m span : ℕ}
    (hend : m + span ≤ minutes)
    (hhour : (fixedClock offsetOf zone (start + m * 60000)).2 + span ≤ 60) :
    (nightFrom offsetOf zone start minutes nightStartHour nightEndHour m).card =
      (if nightAt offsetOf zone start nightStartHour nightEndHour m then span else 0) +
        (nightFrom offsetOf zone start minutes nightStartHour nightEndHour (m + span)).card := by
  have hsame : ∀ i ∈ Finset.Ico m (m + span), nightAt offsetOf zone start nightStartHour
      nightEndHour i = nightAt offsetOf zone start nightStartHour nightEndHour m := by
    intro i hi
    rw [Finset.mem_Ico] at hi
    have hinstant : start + i * 60000 = start + m * 60000 + (i - m) * 60000 := by omega
    unfold nightAt
    rw [hinstant, fixedClock_hour offsetOf zone (by omega)]
  have hsplit : Finset.Ico m minutes =
      Finset.Ico m (m + span) ∪ Finset.Ico (m + span) minutes :=
    (Finset.Ico_union_Ico_eq_Ico (by omega) hend).symm
  have hdisjoint := Finset.Ico_disjoint_Ico_consecutive m (m + span) minutes
  have hhead : ((Finset.Ico m (m + span)).filter fun i =>
      nightAt offsetOf zone start nightStartHour nightEndHour i).card =
        if nightAt offsetOf zone start nightStartHour nightEndHour m then span else 0 := by
    rw [Finset.filter_congr fun i hi => by rw [hsame i hi]]
    split_ifs with hnight <;> simp [hnight]
  rw [nightFrom, hsplit, Finset.filter_union,
    Finset.card_union_of_disjoint (Finset.disjoint_filter_filter hdisjoint), hhead]
  rfl

/-- The walk counts the minutes that are left. -/
theorem nightWalk_eq (start minutes nightStartHour nightEndHour : ℕ) {fuel m : ℕ}
    (h : minutes ≤ m + fuel) :
    nightWalk (fixedClock offsetOf) start minutes zone nightStartHour nightEndHour fuel m =
      (nightFrom offsetOf zone start minutes nightStartHour nightEndHour m).card := by
  induction fuel generalizing m with
  | zero =>
    have hempty : Finset.Ico m minutes = ∅ := Finset.Ico_eq_empty (by omega)
    simp [nightWalk, nightFrom, hempty]
  | succ fuel ih =>
    rw [nightWalk]
    split_ifs with hm
    · have hminute := fixedClock_minute_lt offsetOf zone (start + m * 60000)
      dsimp only
      have hend : m + min (60 - (fixedClock offsetOf zone (start + m * 60000)).2) (minutes - m) ≤
          minutes := by
        omega
      rw [ih (by omega), card_nightFrom offsetOf zone start minutes nightStartHour nightEndHour
        hend (by omega)]
      rfl
    · have hempty : Finset.Ico m minutes = ∅ := Finset.Ico_eq_empty (by omega)
      simp [nightFrom, hempty]

/-- The night minutes are the minutes that begin in an hour of the window. -/
theorem nightMinutes_eq (start minutes nightStartHour nightEndHour : ℕ) :
    nightMinutes (fixedClock offsetOf) start minutes zone nightStartHour nightEndHour =
      Nat.count (fun i => nightAt offsetOf zone start nightStartHour nightEndHour i) minutes := by
  rw [nightMinutes, nightWalk_eq offsetOf zone start minutes nightStartHour nightEndHour (by omega),
    nightFrom, ← Finset.range_eq_Ico, Nat.count_eq_card_filter_range]

/-- A stretch may be cut at any of its minutes. -/
theorem nightMinutes_add (start first rest nightStartHour nightEndHour : ℕ) :
    nightMinutes (fixedClock offsetOf) start (first + rest) zone nightStartHour nightEndHour =
      nightMinutes (fixedClock offsetOf) start first zone nightStartHour nightEndHour +
        nightMinutes (fixedClock offsetOf) (start + first * 60000) rest zone nightStartHour
          nightEndHour := by
  have hshift : ∀ i, nightAt offsetOf zone start nightStartHour nightEndHour (first + i) =
      nightAt offsetOf zone (start + first * 60000) nightStartHour nightEndHour i := by
    intro i
    unfold nightAt
    rw [Nat.add_mul, Nat.add_assoc]
  rw [nightMinutes_eq, nightMinutes_eq, nightMinutes_eq, Nat.count_add]
  simp only [hshift]

end

/-! ## The payout -/

theorem count_not_add_count (p : ℕ → Bool) (n : ℕ) :
    Nat.count (fun i => p i = false) n + Nat.count (fun i => p i = true) n = n := by
  induction n with
  | zero => simp
  | succ n ih =>
    rw [Nat.count_succ, Nat.count_succ]
    cases p n <;> simp <;> omega

section
variable (offsetOf : String → ℤ)

/-- The minutes of a worklog that begin outside of the window. -/
def dayMinutes (r : PayoutRates) (w : PayoutWorkLog) : ℕ :=
  Nat.count (fun i => nightAt offsetOf w.timeZone w.startedAt r.nightStartHour r.nightEndHour i =
    false) w.minutes

theorem dayMinutes_add (r : PayoutRates) (w : PayoutWorkLog) :
    dayMinutes offsetOf r w + (payLine (fixedClock offsetOf) r w).nightMinutes = w.minutes := by
  have hnight : (payLine (fixedClock offsetOf) r w).nightMinutes =
      Nat.count (fun i => nightAt offsetOf w.timeZone w.startedAt r.nightStartHour r.nightEndHour i)
        w.minutes :=
    nightMinutes_eq offsetOf w.timeZone w.startedAt w.minutes r.nightStartHour r.nightEndHour
  rw [hnight]
  exact count_not_add_count _ _

/-- A line pays its day minutes at the rate and its night minutes at the raised one. -/
theorem payLine_amountMinor (r : PayoutRates) (w : PayoutWorkLog) :
    (payLine (fixedClock offsetOf) r w).amountMinor =
      mathRound (nearest (nearest ((dayMinutes offsetOf r w * r.hourlyRateMinor : ℕ) +
        nearest (((payLine (fixedClock offsetOf) r w).nightMinutes * r.hourlyRateMinor : ℕ) *
          r.nightMultiplier)) / 60)) := by
  have hday : dayMinutes offsetOf r w =
      w.minutes - (payLine (fixedClock offsetOf) r w).nightMinutes := by
    have := dayMinutes_add offsetOf r w
    omega
  rw [hday]
  rfl

theorem sum_dayMinutes_add (r : PayoutRates) (worklogs : List PayoutWorkLog) :
    (worklogs.map (dayMinutes offsetOf r)).sum +
        ((worklogs.map (payLine (fixedClock offsetOf) r)).map PayLine.nightMinutes).sum =
      (worklogs.map PayoutWorkLog.minutes).sum := by
  induction worklogs with
  | nil => rfl
  | cons w worklogs ih =>
    have hw := dayMinutes_add offsetOf r w
    simp only [List.map_cons, List.sum_cons]
    omega

/-- In zones of fixed offset `nightMinutes` counts the minutes whose local hour lies in the
window, it is additive, and of every worklog and of the whole payout the minutes
outside of the window and the night minutes add up to the minutes worked. -/
theorem computePayout_minutes :
    (∀ zone start minutes nightStartHour nightEndHour,
      nightMinutes (fixedClock offsetOf) start minutes zone nightStartHour nightEndHour =
        Nat.count (fun i => isNightHour (fixedClock offsetOf zone (start + i * 60000)).1
          nightStartHour nightEndHour) minutes) ∧
    (∀ zone start first rest nightStartHour nightEndHour,
      nightMinutes (fixedClock offsetOf) start (first + rest) zone nightStartHour nightEndHour =
        nightMinutes (fixedClock offsetOf) start first zone nightStartHour nightEndHour +
          nightMinutes (fixedClock offsetOf) (start + first * 60000) rest zone nightStartHour
            nightEndHour) ∧
    ∀ worklogs completedShifts r,
      let pay := computePayout (fixedClock offsetOf) worklogs completedShifts r
      (∀ w ∈ worklogs, ∃ line ∈ pay.lines, line.workLogId = w.id ∧ line.minutes = w.minutes ∧
        dayMinutes offsetOf r w + line.nightMinutes = w.minutes ∧
        line.amountMinor = mathRound (nearest (nearest ((dayMinutes offsetOf r w *
          r.hourlyRateMinor : ℕ) + nearest ((line.nightMinutes * r.hourlyRateMinor : ℕ) *
            r.nightMultiplier)) / 60))) ∧
      pay.workedMinutes = (worklogs.map PayoutWorkLog.minutes).sum ∧
      (worklogs.map (dayMinutes offsetOf r)).sum + pay.nightMinutes = pay.workedMinutes := by
  refine ⟨fun zone start minutes a b => nightMinutes_eq offsetOf zone start minutes a b,
    fun zone start first rest a b => nightMinutes_add offsetOf zone start first rest a b, ?_⟩
  intro worklogs completedShifts r pay
  have hworked : pay.workedMinutes = (worklogs.map PayoutWorkLog.minutes).sum := by
    have hlines : (worklogs.map (payLine (fixedClock offsetOf) r)).map PayLine.minutes =
        worklogs.map PayoutWorkLog.minutes := by
      rw [List.map_map]
      rfl
    exact congrArg List.sum hlines
  refine ⟨fun w hw => ?_, hworked, ?_⟩
  · exact ⟨payLine (fixedClock offsetOf) r w, List.mem_map_of_mem hw, rfl, rfl,
      dayMinutes_add offsetOf r w, payLine_amountMinor offsetOf r w⟩
  · rw [hworked]
    exact sum_dayMinutes_add offsetOf r worklogs

end

end Prgd.NightMinutes
