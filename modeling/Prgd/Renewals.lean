import Prgd.Contracts
import Mathlib.Data.List.Induction

/-!
# The term ends of renewals

Two ways to add months to a term end. `addMonthsUtc`, for the daily job, keeps to the last
day of a shorter month; `setUTCMonth`, for staff, runs over into the next one. They agree
exactly on the days that the month they arrive at has.

The job stores every term end it computes and counts the next one from there. So a term
end that was moved to the last day of a short month stays on that day: the term ends of
many runs are those of one run exactly if no run starts from such a day and arrives at a
longer month.

A call here is a read and its write with nothing in between.
-/
namespace Prgd.Renewals
open Contracts

/-! ## Dates -/

/-- The day of the month, from 0. -/
def dayOf (d : ℕ) : ℕ := (utcParts d).2.1

/-- The days of the month that lies `months` after the one of `d`. -/
def daysAfter (d months : ℕ) : ℕ := Calendar.daysIn ((utcParts d).1 + months)

theorem utcParts_dateUtc {month day time : ℕ} (hday : day < Calendar.daysIn month)
    (htime : time < dayMs) : utcParts (dateUtc month day time) = (month, day, time) := by
  have hsucc := Calendar.monthStart_succ month
  have hmonth : Calendar.monthOf (dateUtc month day time / hourMs) = month := by
    apply Calendar.monthOf_eq
    all_goals
      unfold dateUtc hourMs dayMs at *
      omega
  have hin : dateUtc month day time - hourMs * Calendar.monthStart month = dayMs * day + time := by
    unfold dateUtc
    omega
  unfold utcParts
  simp only [hmonth, hin]
  unfold dayMs at *
  refine Prod.ext rfl (Prod.ext ?_ ?_)
  · dsimp only
    omega
  · dsimp only
    omega

/-- A date is made of its parts. -/
theorem utcParts_spec (d : ℕ) : d = dateUtc (utcParts d).1 (utcParts d).2.1 (utcParts d).2.2 ∧
    (utcParts d).2.1 < Calendar.daysIn (utcParts d).1 ∧ (utcParts d).2.2 < dayMs := by
  have hle := Calendar.startOfMonth_le (d / hourMs)
  have hlt := Calendar.lt_monthStart_succ (d / hourMs)
  rw [Calendar.monthStart_succ] at hlt
  unfold Calendar.startOfMonth at hle
  unfold utcParts dateUtc hourMs dayMs at *
  dsimp only
  omega

theorem dateUtc_le_iff {month day day' time : ℕ} :
    dateUtc month day time ≤ dateUtc month day' time ↔ day ≤ day' := by
  unfold dateUtc dayMs
  omega

theorem daysIn_pos (month : ℕ) : 0 < Calendar.daysIn month := by
  have := Calendar.le_daysIn month
  omega

theorem addMonthsUtc_eq (d months : ℕ) : addMonthsUtc d months =
    dateUtc ((utcParts d).1 + months) (min (dayOf d) (daysAfter d months - 1)) (utcParts d).2.2 := rfl

theorem utcParts_addMonthsUtc (d months : ℕ) : utcParts (addMonthsUtc d months) =
    ((utcParts d).1 + months, min (dayOf d) (daysAfter d months - 1), (utcParts d).2.2) := by
  have hpos := daysIn_pos ((utcParts d).1 + months)
  apply utcParts_dateUtc
  · omega
  · exact (utcParts_spec d).2.2

@[simp] theorem dayOf_addMonthsUtc (d months : ℕ) :
    dayOf (addMonthsUtc d months) = min (dayOf d) (daysAfter d months - 1) := by
  rw [dayOf, utcParts_addMonthsUtc]

@[simp] theorem daysAfter_addMonthsUtc (d months more : ℕ) :
    daysAfter (addMonthsUtc d months) more = daysAfter d (months + more) := by
  rw [daysAfter, utcParts_addMonthsUtc, Nat.add_assoc]
  rfl

theorem addMonthsUtc_zero (d : ℕ) : addMonthsUtc d 0 = d := by
  obtain ⟨hparts, hday, -⟩ := utcParts_spec d
  have hmin : min (dayOf d) (daysAfter d 0 - 1) = (utcParts d).2.1 := by
    unfold dayOf daysAfter
    rw [Nat.add_zero]
    omega
  rw [addMonthsUtc_eq, hmin, Nat.add_zero]
  exact hparts.symm

/-- Two additions against one: the day may only get smaller. -/
theorem addMonthsUtc_addMonthsUtc (d months more : ℕ) :
    addMonthsUtc (addMonthsUtc d months) more =
      dateUtc ((utcParts d).1 + (months + more))
        (min (min (dayOf d) (daysAfter d months - 1)) (daysAfter d (months + more) - 1))
        (utcParts d).2.2 := by
  rw [addMonthsUtc_eq, dayOf_addMonthsUtc, daysAfter_addMonthsUtc, utcParts_addMonthsUtc,
    Nat.add_assoc]

theorem addMonthsUtc_addMonthsUtc_le (d months more : ℕ) :
    addMonthsUtc (addMonthsUtc d months) more ≤ addMonthsUtc d (months + more) := by
  rw [addMonthsUtc_addMonthsUtc, addMonthsUtc_eq, dateUtc_le_iff]
  omega

/-- Month after month arrives at the same day unless the first month is too short
for the day and shorter than the last one. -/
theorem addMonthsUtc_addMonthsUtc_iff (d months more : ℕ) :
    addMonthsUtc (addMonthsUtc d months) more = addMonthsUtc d (months + more) ↔
      dayOf d < daysAfter d months ∨ daysAfter d (months + more) ≤ daysAfter d months := by
  have hfirst := daysIn_pos ((utcParts d).1 + months)
  have hlast := daysIn_pos ((utcParts d).1 + (months + more))
  rw [addMonthsUtc_addMonthsUtc, addMonthsUtc_eq, le_antisymm_iff, dateUtc_le_iff, dateUtc_le_iff]
  unfold daysAfter at *
  omega

/-- `setUTCMonth` agrees with `addMonthsUtc` on the days that the new month has. -/
theorem setUtcMonth_eq_iff (d months : ℕ) :
    setUtcMonth d months = addMonthsUtc d months ↔ dayOf d < daysAfter d months := by
  have hpos := daysIn_pos ((utcParts d).1 + months)
  rw [addMonthsUtc_eq, setUtcMonth, le_antisymm_iff, dateUtc_le_iff, dateUtc_le_iff]
  unfold dayOf daysAfter
  omega

/-! ## Calls -/

/-- A call from its read to its write. -/
def call (now : ℕ) (c : Contract) (act : Act) : Contract :=
  match (begin c act).bind (write now ⟨c, []⟩) with
  | some (s, _) => s.contract
  | none => c

/-- Among the steps of the contract, a call that nobody interrupts. -/
theorem run_call (c : Contract) (now : ℕ) {act : Act} (hact : ∀ t, act ≠ .write t) :
    (Interleaving.run step (start c) [(0, act), (0, .write now)]).shared.contract =
      call now c act := by
  have hread : Contracts.trans 0 ⟨c, []⟩ act (.rest none) = (begin c act).map fun pc => (⟨c, []⟩, pc) := by
    cases act with
    | write t => exact absurd rfl (hact t)
    | _ => rfl
  simp only [Interleaving.run_cons, Interleaving.run_nil, call, step, start,
    Interleaving.callerStep, hread]
  have hwrite : ∀ pc, Contracts.trans 0 ⟨c, []⟩ (.write now) pc = write now ⟨c, []⟩ pc :=
    fun _ => rfl
  cases begin c act with
  | none => rfl
  | some pc =>
    simp only [Option.map_some, Option.bind_some, Function.update_self, hwrite]
    cases write now ⟨c, []⟩ pc with
    | none => rfl
    | some r => rfl

/-- Runs of the daily job, one after the other. -/
def runs (c : Contract) (times : List ℕ) : Contract :=
  times.foldl (fun c now => call now c (.runRenewals now)) c

/-- A contract that the job renews: its term runs, renewal is on and nothing is scheduled. -/
structure Renewing (c : Contract) (termEndsAt : ℕ) : Prop where
  running : c.running = true
  autoRenew : c.autoRenew = true
  cancelAt : c.cancelAt = none
  termEndsAt : c.termEndsAt = some termEndsAt
  termMonths : 1 ≤ c.termMonths

/-- The loop finds the first whole number of terms after which the end lies in the future. -/
theorem termEndAfter_spec (termEndsAt months now fuel k : ℕ) :
    ∃ j, k ≤ j ∧ termEndAfter termEndsAt months now fuel k = addMonthsUtc termEndsAt (months * j) ∧
      ∀ i, k ≤ i → i < j → addMonthsUtc termEndsAt (months * i) ≤ now := by
  induction fuel generalizing k with
  | zero => exact ⟨k, le_rfl, rfl, fun i hi hj => by omega⟩
  | succ fuel ih =>
    simp only [termEndAfter]
    split_ifs with hle
    · obtain ⟨j, hkj, heq, hbefore⟩ := ih (k + 1)
      refine ⟨j, by omega, heq, fun i hi hj => ?_⟩
      rcases Nat.eq_or_lt_of_le hi with rfl | hlt
      · exact hle
      · exact hbefore i hlt hj
    · exact ⟨k, le_rfl, rfl, fun i hi hj => by omega⟩

theorem nextTermEnd_spec (termEndsAt now : ℕ) {months : ℕ} (hm : 1 ≤ months) :
    ∃ j, 1 ≤ j ∧ nextTermEnd termEndsAt months now = addMonthsUtc termEndsAt (j * months) ∧
      now < addMonthsUtc termEndsAt (j * months) ∧
      ∀ i, 1 ≤ i → i < j → addMonthsUtc termEndsAt (i * months) ≤ now := by
  have hlt := lt_nextTermEnd termEndsAt months now
  obtain ⟨j, hj, heq, hbefore⟩ := termEndAfter_spec termEndsAt months now
    (Calendar.monthOf (now / hourMs)) 1
  rw [nextTermEnd, max_eq_right hm] at *
  simp only [Nat.mul_comm months] at heq hbefore
  rw [heq] at hlt
  exact ⟨j, hj, heq, hlt, hbefore⟩

/-- What one run makes of the contract: a new end when the old one has been reached,
else at most the mark of a reminder. -/
theorem renewing_call {c : Contract} {termEndsAt : ℕ} (h : Renewing c termEndsAt) (now : ℕ) :
    Renewing (call now c (.runRenewals now))
      (if termEndsAt ≤ now then nextTermEnd termEndsAt c.termMonths now else termEndsAt) ∧
    (call now c (.runRenewals now)).termMonths = c.termMonths := by
  have hdecision : termDecision c now = if termEndsAt ≤ now then
      .renew (nextTermEnd termEndsAt c.termMonths now)
    else if c.renewalNoticeAt.isNone ∧ termEndsAt - now ≤ dayMs * renewalNoticeDays then .notice
    else .none := by
    simp [termDecision, renewOrNotice, h.running, h.autoRenew, h.cancelAt, h.termEndsAt]
  by_cases hle : termEndsAt ≤ now
  · have hdue : due c now = true := by
      have : termEndsAt ≤ now + dayMs * 31 := by omega
      simp [due, h.running, h.termEndsAt, this]
    rw [if_pos hle] at hdecision
    have hcall : call now c (.runRenewals now) = { c with
        termEndsAt := some (nextTermEnd termEndsAt c.termMonths now), renewedAt := some now,
        renewalNoticeAt := none } := by
      simp [call, begin, write, hdue, hdecision, h.running]
    rw [hcall, if_pos hle]
    exact ⟨⟨h.running, h.autoRenew, h.cancelAt, rfl, h.termMonths⟩, rfl⟩
  · rw [if_neg hle] at hdecision
    have hcall : call now c (.runRenewals now) = c ∨
        call now c (.runRenewals now) = { c with renewalNoticeAt := some now } := by
      simp only [call, begin]
      split_ifs at * with hdue hnotice
      · right
        have hnone : c.renewalNoticeAt = none := by simpa using hnotice.1
        simp [hdecision, write, hnone]
      · left
        simp [hdecision, write]
      · left
        rfl
      · left
        rfl
    rw [if_neg hle]
    rcases hcall with heq | heq
    · rw [heq]
      exact ⟨h, rfl⟩
    · rw [heq]
      exact ⟨⟨h.running, h.autoRenew, h.cancelAt, h.termEndsAt, h.termMonths⟩, rfl⟩

/-! ## Many runs -/

/-- The number of terms that `times` have used up: the end after `k` terms is the first
one that lies after all of them. -/
def IsTerm (termEndsAt months : ℕ) (times : List ℕ) (k : ℕ) : Prop :=
  (∀ t ∈ times, t < addMonthsUtc termEndsAt (k * months)) ∧
    ∀ j < k, ∃ t ∈ times, addMonthsUtc termEndsAt (j * months) ≤ t

theorem IsTerm.unique {termEndsAt months : ℕ} {times : List ℕ} {k k' : ℕ}
    (h : IsTerm termEndsAt months times k) (h' : IsTerm termEndsAt months times k') : k = k' := by
  rcases lt_trichotomy k k' with hlt | heq | hlt
  · obtain ⟨t, ht, hle⟩ := h'.2 k hlt
    have := h.1 t ht
    omega
  · exact heq
  · obtain ⟨t, ht, hle⟩ := h.2 k' hlt
    have := h'.1 t ht
    omega

/-- The contract ends at the original end plus `k` whole terms, the first such end after
every run so far. -/
def EndsRight (termEndsAt months : ℕ) (times : List ℕ) (c : Contract) : Prop :=
  ∃ k, IsTerm termEndsAt months times k ∧
    c.termEndsAt = some (addMonthsUtc termEndsAt (k * months))

/-- The next run at `t` does not start in a month that is too short for the original day and
arrive at a longer one. -/
def Unclamped (termEndsAt months : ℕ) (times : List ℕ) (t : ℕ) : Prop :=
  ∀ k k', IsTerm termEndsAt months times k → IsTerm termEndsAt months (times ++ [t]) k' →
    dayOf termEndsAt < daysAfter termEndsAt (k * months) ∨
      daysAfter termEndsAt (k' * months) ≤ daysAfter termEndsAt (k * months)

/-- A run before the term ends uses up no term. -/
theorem IsTerm.idle {termEndsAt months t k : ℕ} {times : List ℕ}
    (h : IsTerm termEndsAt months times k) (ht : t < addMonthsUtc termEndsAt (k * months)) :
    IsTerm termEndsAt months (times ++ [t]) k := by
  refine ⟨?_, fun j hj => ?_⟩
  · intro u hu
    rcases List.mem_append.mp hu with hu | hu
    · exact h.1 u hu
    · rwa [List.mem_singleton.mp hu]
  · obtain ⟨u, hu, hle⟩ := h.2 j hj
    exact ⟨u, List.mem_append_left _ hu, hle⟩

/-- The first whole number of terms from the original end that leads past a run, when the
term has ended. -/
theorem IsTerm.exists_next {termEndsAt months t k : ℕ} {times : List ℕ} (hm : 1 ≤ months)
    (h : IsTerm termEndsAt months times k) (ht : addMonthsUtc termEndsAt (k * months) ≤ t) :
    ∃ j, IsTerm termEndsAt months (times ++ [t]) (k + j) ∧ t < addMonthsUtc termEndsAt ((k + j) * months) ∧
      ∀ i < j, addMonthsUtc termEndsAt ((k + i) * months) ≤ t := by
  have hexists : ∃ j, t < addMonthsUtc termEndsAt ((k + j) * months) := by
    refine ⟨Calendar.monthOf (t / hourMs) + 1, lt_addMonthsUtc ?_⟩
    have := Nat.le_mul_of_pos_right (k + (Calendar.monthOf (t / hourMs) + 1)) hm
    omega
  have hpast := Nat.find_spec hexists
  have hbefore : ∀ i < Nat.find hexists, addMonthsUtc termEndsAt ((k + i) * months) ≤ t :=
    fun i hi => not_lt.mp (Nat.find_min hexists hi)
  refine ⟨Nat.find hexists, ⟨fun u hu => ?_, fun i hi => ?_⟩, hpast, hbefore⟩
  · rcases List.mem_append.mp hu with hu | hu
    · have := h.1 u hu
      omega
    · rwa [List.mem_singleton.mp hu]
  · by_cases hik : i < k
    · obtain ⟨u, hu, hle⟩ := h.2 i hik
      exact ⟨u, List.mem_append_left _ hu, hle⟩
    · have hle := hbefore (i - k) (by omega)
      rw [Nat.add_sub_cancel' (by omega)] at hle
      exact ⟨t, by simp, hle⟩

/-- Renewing a stored end arrives at the right one exactly when the two additions of months
agree; a day that was moved can only make the job count too many terms. -/
theorem nextTermEnd_eq_iff {termEndsAt months t k j : ℕ} (hm : 1 ≤ months)
    (hpast : t < addMonthsUtc termEndsAt ((k + j) * months))
    (hbefore : ∀ i < j, addMonthsUtc termEndsAt ((k + i) * months) ≤ t)
    (hended : addMonthsUtc termEndsAt (k * months) ≤ t) :
    nextTermEnd (addMonthsUtc termEndsAt (k * months)) months t =
        addMonthsUtc termEndsAt ((k + j) * months) ↔
      dayOf termEndsAt < daysAfter termEndsAt (k * months) ∨
        daysAfter termEndsAt ((k + j) * months) ≤ daysAfter termEndsAt (k * months) := by
  obtain ⟨j', hj', heq, hlt, hmin⟩ :=
    nextTermEnd_spec (addMonthsUtc termEndsAt (k * months)) t hm
  have hsame := addMonthsUtc_addMonthsUtc_iff termEndsAt (k * months) (j * months)
  rw [← Nat.add_mul] at hsame
  rw [heq, ← hsame]
  constructor
  · intro hright
    -- equal dates lie in equal months
    have hmonth := congrArg Prod.fst (congrArg utcParts hright)
    rw [utcParts_addMonthsUtc, utcParts_addMonthsUtc, utcParts_addMonthsUtc] at hmonth
    have hmul : j' * months = j * months := by
      rw [Nat.add_mul] at hmonth
      omega
    rwa [Nat.eq_of_mul_eq_mul_right hm hmul] at hright
  · intro hagree
    have hj : j' = j := by
      rcases lt_trichotomy j' j with hless | hj | hmore
      · have hle := addMonthsUtc_addMonthsUtc_le termEndsAt (k * months) (j' * months)
        rw [← Nat.add_mul] at hle
        have := hbefore j' hless
        omega
      · exact hj
      · have hpos : 1 ≤ j := by
          by_contra hzero
          obtain rfl : j = 0 := by omega
          rw [Nat.add_zero] at hpast
          omega
        have := hmin j hpos hmore
        omega
    rw [hj, hagree]

/-- One run: the new end is right exactly if the run does not leave a day at the end of a
short month for a longer one. -/
theorem endsRight_call {c : Contract} {termEndsAt stored : ℕ} {times : List ℕ}
    (hc : Renewing c stored) (h : EndsRight termEndsAt c.termMonths times c) (t : ℕ) :
    EndsRight termEndsAt c.termMonths (times ++ [t]) (call t c (.runRenewals t)) ↔
      Unclamped termEndsAt c.termMonths times t := by
  obtain ⟨k, hk, hend⟩ := h
  have hstored : stored = addMonthsUtc termEndsAt (k * c.termMonths) := by
    rw [hc.termEndsAt] at hend
    exact Option.some.inj hend
  have hnext := (renewing_call hc t).1.termEndsAt
  by_cases hle : stored ≤ t
  · rw [if_pos hle] at hnext
    obtain ⟨j, hj, hpast, hbefore⟩ := hk.exists_next hc.termMonths (hstored ▸ hle)
    have hiff := nextTermEnd_eq_iff hc.termMonths hpast hbefore (hstored ▸ hle)
    rw [← hstored] at hiff
    constructor
    · rintro ⟨k', hk', hright⟩ k₁ k₂ hk₁ hk₂
      rw [hk₁.unique hk, hk₂.unique hj]
      apply hiff.mp
      rw [hnext, hk'.unique hj] at hright
      exact Option.some.inj hright
    · intro hun
      exact ⟨k + j, hj, by rw [hnext, hiff.mpr (hun k (k + j) hk hj)]⟩
  · rw [if_neg hle] at hnext
    have hidle := hk.idle (t := t) (by omega)
    apply iff_of_true
    · exact ⟨k, hidle, by rw [hnext, hstored]⟩
    · intro k₁ k₂ hk₁ hk₂
      rw [hk₁.unique hk, hk₂.unique hidle]
      exact .inr le_rfl

theorem runs_append (c : Contract) (times : List ℕ) (t : ℕ) :
    runs c (times ++ [t]) = call t (runs c times) (.runRenewals t) := by
  simp [runs]

theorem renewing_runs {c : Contract} {termEndsAt : ℕ} (h : Renewing c termEndsAt)
    (times : List ℕ) :
    (∃ stored, Renewing (runs c times) stored) ∧ (runs c times).termMonths = c.termMonths := by
  induction times using List.reverseRecOn with
  | nil => exact ⟨⟨termEndsAt, h⟩, rfl⟩
  | append_singleton times t ih =>
    obtain ⟨⟨stored, hstored⟩, hmonths⟩ := ih
    obtain ⟨hnext, hkeep⟩ := renewing_call hstored t
    rw [runs_append]
    exact ⟨⟨_, hnext⟩, hkeep.trans hmonths⟩

/-- After every run the term ends a whole number of terms after the original end, at the
first such date after the runs, exactly if no run takes a term end that was moved to
the last day of a short month on to a longer month. -/
theorem runs_endsRight_iff (c : Contract) (termEndsAt : ℕ) (times : List ℕ)
    (h : Renewing c termEndsAt) :
    (∀ before, before <+: times → EndsRight termEndsAt c.termMonths before (runs c before)) ↔
      ∀ before t, before ++ [t] <+: times → Unclamped termEndsAt c.termMonths before t := by
  induction times using List.reverseRecOn with
  | nil =>
    apply iff_of_true
    · intro before hbefore
      rw [List.prefix_nil.mp hbefore]
      exact ⟨0, ⟨by simp, by simp⟩, by rw [Nat.zero_mul, addMonthsUtc_zero]; exact h.termEndsAt⟩
    · intro before t hbefore
      simp at hbefore
  | append_singleton times t ih =>
    obtain ⟨⟨stored, hstored⟩, hmonths⟩ := renewing_runs h times
    have hstep := @endsRight_call _ termEndsAt _ times hstored
    rw [hmonths] at hstep
    constructor
    · intro hall before u hbefore
      have hold := ih.mp fun b hb => hall b (hb.trans (List.prefix_append _ _))
      rcases List.prefix_concat_iff.mp hbefore with heq | hshort
      · obtain ⟨rfl, hu⟩ := List.append_inj' heq rfl
        rw [List.singleton_inj.mp hu]
        have hlast := hall (before ++ [t]) (List.prefix_refl _)
        rw [runs_append] at hlast
        exact (hstep (hall before (List.prefix_append _ _)) t).mp hlast
      · exact hold before u hshort
    · intro hall before hbefore
      have hold := ih.mpr fun b u hb => hall b u (hb.trans (List.prefix_append _ _))
      rcases List.prefix_concat_iff.mp hbefore with rfl | hshort
      · rw [runs_append]
        exact (hstep (hold times (List.prefix_refl _)) t).mpr (hall times t (List.prefix_refl _))
      · exact hold before hshort

/-- A monthly contract that ends on 31 January 2026. -/
def january : Contract :=
  { status := .active, termMonths := 1, termEndsAt := some (dateUtc 672 30 0) }

theorem renewing_january : Renewing january (dateUtc 672 30 0) :=
  ⟨rfl, rfl, rfl, rfl, le_rfl⟩

/-- One run on 5 March catches up at once: the term ends on 31 March. -/
theorem runs_endsRight_once :
    EndsRight (dateUtc 672 30 0) 1 [dateUtc 674 4 0] (runs january [dateUtc 674 4 0]) := by
  refine (runs_endsRight_iff january _ _ renewing_january).mpr (fun before t hbefore k k' hk _ => ?_)
    _ (List.prefix_refl _)
  have hnil : before = [] := by
    have hlen := hbefore.length_le
    simp only [List.length_append, List.length_cons, List.length_nil] at hlen
    exact List.eq_nil_of_length_eq_zero (by omega)
  have hzero : k = 0 := by
    by_contra hpos
    obtain ⟨u, hu, -⟩ := hk.2 0 (by omega)
    rw [hnil] at hu
    cases hu
  left
  rw [hzero, Nat.zero_mul]
  decide +kernel

/-- A run on 1 February before it leaves the end on 28 March, which is no whole number of
terms after 31 January. -/
theorem runs_drift :
    (runs january [dateUtc 674 4 0]).termEndsAt = some (dateUtc 674 30 0) ∧
      (runs january [dateUtc 673 0 0, dateUtc 674 4 0]).termEndsAt = some (dateUtc 674 27 0) ∧
      ¬ EndsRight (dateUtc 672 30 0) 1 [dateUtc 673 0 0, dateUtc 674 4 0]
        (runs january [dateUtc 673 0 0, dateUtc 674 4 0]) := by
  have htwice : (runs january [dateUtc 673 0 0, dateUtc 674 4 0]).termEndsAt =
      some (dateUtc 674 27 0) := by decide +kernel
  refine ⟨by decide +kernel, htwice, ?_⟩
  rintro ⟨k, hk, hend⟩
  rw [htwice] at hend
  have hparts := congrArg utcParts (Option.some.inj hend)
  rw [utcParts_addMonthsUtc] at hparts
  have hmonth : (utcParts (dateUtc 674 27 0)).1 = 674 := by decide +kernel
  have hday : (utcParts (dateUtc 674 27 0)).2.1 = 27 := by decide +kernel
  have hfrom : (utcParts (dateUtc 672 30 0)).1 = 672 := by decide +kernel
  have htwo : k = 2 := by
    have := congrArg Prod.fst hparts
    omega
  have hright : min (dayOf (dateUtc 672 30 0)) (daysAfter (dateUtc 672 30 0) (2 * 1) - 1) = 30 := by
    decide +kernel
  have hdays : (utcParts (dateUtc 674 27 0)).2.1 =
      min (dayOf (dateUtc 672 30 0)) (daysAfter (dateUtc 672 30 0) (k * 1) - 1) :=
    congrArg (fun p => p.2.1) hparts
  rw [htwo, hright, hday] at hdays
  omega

/-! ## Renewals by staff -/

/-- A renewal by staff before the term ends arrives where the daily job would exactly if
the month it arrives at has the day. -/
theorem renew_eq_addMonthsUtc_iff (c : Contract) (now termEndsAt : ℕ) (termMonths : Option ℕ)
    (hrunning : c.running = true) (hend : c.termEndsAt = some termEndsAt) (hnow : now < termEndsAt) :
    (call now c (.renew now termMonths)).termEndsAt =
        some (addMonthsUtc termEndsAt (termMonths.getD c.termMonths)) ↔
      dayOf termEndsAt < daysAfter termEndsAt (termMonths.getD c.termMonths) := by
  have hcall : (call now c (.renew now termMonths)).termEndsAt =
      some (setUtcMonth termEndsAt (termMonths.getD c.termMonths)) := by
    simp [call, begin, write, hrunning, renewedEnd, hend, hnow]
  rw [hcall, Option.some.injEq, setUtcMonth_eq_iff]

/-- From 28 February on, a month leads to 28 March on both ways. -/
theorem renew_eq_addMonthsUtc_february :
    (call 0 { january with termEndsAt := some (dateUtc 673 27 0) } (.renew 0 none)).termEndsAt =
      some (addMonthsUtc (dateUtc 673 27 0) 1) :=
  (renew_eq_addMonthsUtc_iff { january with termEndsAt := some (dateUtc 673 27 0) } 0
    (dateUtc 673 27 0) none rfl rfl (by decide +kernel)).mpr (by decide +kernel)

/-- From 31 January on, staff arrives at 3 March and the daily job at 28 February. -/
theorem renew_overflows :
    (call 0 january (.renew 0 none)).termEndsAt = some (dateUtc 674 2 0) ∧
      nextTermEnd (dateUtc 672 30 0) 1 (dateUtc 672 30 0) = dateUtc 673 27 0 ∧
      (call 0 january (.renew 0 none)).termEndsAt ≠ some (addMonthsUtc (dateUtc 672 30 0) 1) := by
  decide +kernel

end Prgd.Renewals
