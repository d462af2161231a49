import Prgd.ApiError
import Prgd.Calendar
import Prgd.Interleaving

/-!
# One managed contract

The operations on the row of a managed contract: `suspend`, `resume`, `cancel`
and `renew` by staff, the scheduled cancellation of the owner and its
withdrawal, the end of the onboarding, and the daily `runRenewals`. Every read
and every write is one step. Times are milliseconds since 1970.

`suspend` and `resume` write without a guard on the status they read, and
`extendTerm` is guarded by the term end but not by the scheduled cancellation.
The module shows what goes wrong and which orders of the steps are safe.
-/
namespace Prgd.Contracts
open Interleaving

/-! ## Dates -/

def hourMs : ℕ := 3600000
def dayMs : ℕ := 86400000

/-- The month, the day in it (from 0) and the time of the day. -/
def utcParts (d : ℕ) : ℕ × ℕ × ℕ :=
  let month := Calendar.monthOf (d / hourMs)
  let inMonth := d - hourMs * Calendar.monthStart month
  (month, inMonth / dayMs, inMonth % dayMs)

/-- `Date.UTC` of a month, a day in it (from 0) and a time of the day. A day past
the end of the month falls into the next one. -/
def dateUtc (month day time : ℕ) : ℕ := hourMs * Calendar.monthStart month + dayMs * day + time

/-- `setUTCMonth(getUTCMonth() + months)`. -/
def setUtcMonth (d months : ℕ) : ℕ :=
  let p := utcParts d
  dateUtc (p.1 + months) p.2.1 p.2.2

def addMonthsUtc (d months : ℕ) : ℕ :=
  let p := utcParts d
  dateUtc (p.1 + months) (min p.2.1 (Calendar.daysIn (p.1 + months) - 1)) p.2.2

/-- The loop of `nextTermEnd`, which counts whole terms from the old end. -/
def termEndAfter (termEndsAt months now : ℕ) : ℕ → ℕ → ℕ
  | 0, k => addMonthsUtc termEndsAt (months * k)
  | fuel + 1, k =>
      let next := addMonthsUtc termEndsAt (months * k)
      if next ≤ now then termEndAfter termEndsAt months now fuel (k + 1) else next

def nextTermEnd (termEndsAt termMonths now : ℕ) : ℕ :=
  termEndAfter termEndsAt (max 1 termMonths) now (Calendar.monthOf (now / hourMs)) 1

theorem lt_addMonthsUtc {now termEndsAt months : ℕ} (h : Calendar.monthOf (now / hourMs) < months) :
    now < addMonthsUtc termEndsAt months := by
  have hnow : now / hourMs < Calendar.monthStart months := by
    have hlt := Calendar.lt_monthStart_succ (now / hourMs)
    have hmono := Calendar.monthStart_strictMono.monotone (Nat.succ_le_of_lt h)
    exact lt_of_lt_of_le hlt hmono
  have hstart := Calendar.monthStart_strictMono.monotone
    (Nat.le_add_left months (utcParts termEndsAt).1)
  have hmul := Nat.mul_le_mul_left hourMs hstart
  have hdiv : now < hourMs * Calendar.monthStart months := by
    rw [Nat.mul_comm]
    exact (Nat.div_lt_iff_lt_mul (by decide)).mp hnow
  unfold addMonthsUtc dateUtc
  dsimp only
  omega

theorem lt_termEndAfter {termEndsAt months now : ℕ} (hm : 1 ≤ months) (fuel k : ℕ)
    (h : Calendar.monthOf (now / hourMs) < fuel + k) :
    now < termEndAfter termEndsAt months now fuel k := by
  induction fuel generalizing k with
  | zero =>
    have hk : k ≤ months * k := Nat.le_mul_of_pos_left k hm
    exact lt_addMonthsUtc (by omega)
  | succ fuel ih =>
    simp only [termEndAfter]
    split_ifs with hle
    · exact ih (k + 1) (by omega)
    · omega

/-- The loop ends: the next term end lies in the future. -/
theorem lt_nextTermEnd (termEndsAt termMonths now : ℕ) :
    now < nextTermEnd termEndsAt termMonths now :=
  lt_termEndAfter (by omega) _ 1 (by omega)

example : nextTermEnd (dateUtc 672 30 0) 1 (dateUtc 674 0 0) = dateUtc 674 30 0 := by
  decide +kernel

/-- When a cancellation of the owner takes effect. -/
def endOfCurrentMonth (now : ℕ) : ℕ := dateUtc ((utcParts now).1 + 1) 0 0

/-! ## The row -/

inductive Status where
  | draft | onboarding | active | suspended | cancelled
  deriving DecidableEq, Repr

def Status.name : Status → String
  | .draft => "DRAFT"
  | .onboarding => "ONBOARDING"
  | .active => "ACTIVE"
  | .suspended => "SUSPENDED"
  | .cancelled => "CANCELLED"

structure Contract where
  status : Status
  autoRenew : Bool := true
  termMonths : ℕ := 12
  termEndsAt : Option ℕ := none
  renewedAt : Option ℕ := none
  cancelAt : Option ℕ := none
  renewalNoticeAt : Option ℕ := none
  activatedAt : Option ℕ := none
  suspendedAt : Option ℕ := none
  suspensions : List (ℕ × ℕ) := []
  cancelledAt : Option ℕ := none
  cancelReason : Option String := none
  deriving DecidableEq, Repr

/-- `status in (ACTIVE, SUSPENDED)`: the term is running. -/
def Contract.running (c : Contract) : Bool := c.status == .active || c.status == .suspended

def notRenewedReason : String := "Not renewed"
def customerCancelReason : String := "Cancelled by the customer"

inductive TermDecision where
  | none
  | renew (termEndsAt : ℕ)
  | cancel (date : ℕ) (notRenewed : Bool)
  | notice
  deriving DecidableEq, Repr

def renewalNoticeDays : ℕ := 30

/-- The last two lines of `termDecision`. -/
def renewOrNotice (c : Contract) (now : ℕ) : TermDecision :=
  match c.cancelAt, c.termEndsAt with
  | .none, some termEndsAt =>
      if termEndsAt ≤ now then
        if c.autoRenew then .renew (nextTermEnd termEndsAt c.termMonths now) else .none
      else if c.renewalNoticeAt.isNone ∧ termEndsAt - now ≤ dayMs * renewalNoticeDays then .notice
      else .none
  | _, _ => .none

def termDecision (c : Contract) (now : ℕ) : TermDecision :=
  if c.running = false then .none
  else
    let termEnd := if c.autoRenew then none else c.termEndsAt
    match c.cancelAt, termEnd with
    | some cancelAt, .none =>
        if cancelAt ≤ now then .cancel cancelAt false else renewOrNotice c now
    | some cancelAt, some termEnd =>
        if cancelAt ≤ termEnd then
          if cancelAt ≤ now then .cancel cancelAt false else renewOrNotice c now
        else if termEnd ≤ now then .cancel termEnd true
        else renewOrNotice c now
    | .none, some termEnd =>
        if termEnd ≤ now then .cancel termEnd true else renewOrNotice c now
    | .none, .none => renewOrNotice c now

/-- The job renews no contract with a scheduled cancellation. -/
theorem termDecision_renew {c : Contract} {now termEndsAt : ℕ}
    (h : termDecision c now = .renew termEndsAt) : c.cancelAt = none := by
  have hlast : ∀ t, renewOrNotice c now = .renew t → c.cancelAt = none := by
    intro t ht
    unfold renewOrNotice at ht
    split at ht
    · assumption
    · cases ht
  unfold termDecision at h
  dsimp only at h
  repeat' split at h
  all_goals first
    | cases h
    | exact hlast _ h

/-! ## Calls -/

/-- A renewal that was stored: the new term end, and the cancellation that was
scheduled at that moment. -/
structure Renewal where
  termEndsAt : ℕ
  cancelAt : Option ℕ
  deriving DecidableEq, Repr

structure Shared where
  contract : Contract
  renewals : List Renewal
  deriving DecidableEq, Repr

/-- The write that a call stands in front of. -/
inductive Pc where
  | rest (error : Option ApiError)
  | suspending
  | resuming (status : Status) (suspensions : List (ℕ × ℕ))
  /-- `endContract`; staff is told when the contract was cancelled already. -/
  | ending (date : ℕ) (reason : Option String) (staff : Bool)
  | scheduling (cancelAt : ℕ) (reason : String)
  | undoing
  /-- `extendTerm`, with the term end that was read. -/
  | extending (read : Option ℕ) (termEndsAt termMonths : ℕ) (staff : Bool)
  | noticing (read : Option ℕ)
  | settingAutoRenew (autoRenew : Bool)
  | activating
  | completing (termEndsAt : ℕ)
  deriving DecidableEq, Repr

/-- The calls, and the write of a call that is under way. The owner's reason is
given without white space around it. -/
inductive Act where
  | suspend
  | resume (now : ℕ)
  | cancel (now : ℕ) (reason : Option String)
  | cancelForTeam (now : ℕ) (reason : Option String)
  | undoCancelForTeam
  | renew (now : ℕ) (termMonths : Option ℕ)
  | runRenewals (now : ℕ)
  | setAutoRenew (autoRenew : Bool)
  | activate
  | activateIfComplete (now : ℕ)
  | write (now : ℕ)
  deriving DecidableEq, Repr

def throws (message : String) : Pc := .rest (some (.invalidState message))

/-- The new end of a renewal by staff: from the current end, or from now when
the term has ended already. -/
def renewedEnd (c : Contract) (now : ℕ) (termMonths : Option ℕ) : ℕ :=
  let base := match c.termEndsAt with
    | some t => if now < t then t else now
    | none => now
  setUtcMonth base (termMonths.getD c.termMonths)

/-- The filter of the job: the term ends within 31 days, or a scheduled
cancellation has been reached. -/
def due (c : Contract) (now : ℕ) : Bool :=
  c.running && ((c.termEndsAt.any fun t => t ≤ now + dayMs * 31) || c.cancelAt.any fun t => t ≤ now)

/-- What a call makes of the row it reads. -/
def begin (c : Contract) : Act → Option Pc
  | .suspend => some (
      if c.status ≠ .active ∧ c.status ≠ .onboarding then
        throws ("Only an ACTIVE or ONBOARDING contract can be suspended (this one is " ++
          c.status.name ++ ")")
      else .suspending)
  | .resume now => some (
      if c.status ≠ .suspended then
        throws ("Only a SUSPENDED contract can be resumed (this one is " ++ c.status.name ++ ")")
      else .resuming (if c.activatedAt.isSome then .active else .onboarding)
        (c.suspensions ++ [(c.suspendedAt.getD now, now)]))
  | .cancel now reason => some (
      if c.status = .cancelled then throws "The contract is already cancelled"
      else .ending now reason true)
  | .cancelForTeam now reason =>
      let why := match reason with
        | some r => if r = "" then customerCancelReason else r
        | none => customerCancelReason
      some (
        if c.status = .cancelled then throws "The contract is already cancelled"
        else if c.status = .draft ∨ c.status = .onboarding then .ending now (some why) false
        else if c.cancelAt.isSome then .rest none
        else .scheduling (endOfCurrentMonth now) why)
  | .undoCancelForTeam => some (
      if c.status = .cancelled then throws "The contract is already cancelled"
      else if c.cancelAt.isNone then throws "No cancellation is scheduled for this contract"
      else .undoing)
  | .renew now termMonths => some (
      if c.running = false then
        throws ("Only an ACTIVE or SUSPENDED contract can be renewed (this one is " ++
          c.status.name ++ ")")
      else .extending c.termEndsAt (renewedEnd c now termMonths) (termMonths.getD c.termMonths) true)
  | .runRenewals now => some (
      if due c now then
        match termDecision c now with
        | .renew termEndsAt => .extending c.termEndsAt termEndsAt c.termMonths false
        | .cancel date notRenewed =>
            .ending date (some (if notRenewed then notRenewedReason
              else c.cancelReason.getD customerCancelReason)) false
        | .notice => .noticing c.termEndsAt
        | .none => .rest none
      else .rest none)
  | .setAutoRenew autoRenew => some (
      if c.status = .cancelled then throws "A cancelled contract cannot change"
      else if c.autoRenew = autoRenew then .rest none
      else .settingAutoRenew autoRenew)
  | .activate => some (
      if c.status = .draft then .activating else throws ("Only a DRAFT contract can be activated (this one is " ++
        c.status.name ++ ")"))
  | .activateIfComplete now => some (
      if c.status = .onboarding then .completing (setUtcMonth now c.termMonths) else .rest none)
  | .write _ => none

/-- The write of a call. Only `suspend`, `resume` and `setAutoRenew` write
whatever the row has become. -/
def write (now : ℕ) (s : Shared) : Pc → Option (Shared × Pc)
  | .rest _ => none
  | .suspending =>
      some ({ s with contract := { s.contract with
        status := .suspended, suspendedAt := some now } }, .rest none)
  | .resuming status suspensions =>
      some ({ s with contract := { s.contract with
        status, suspendedAt := none, suspensions } }, .rest none)
  | .ending date reason staff =>
      if s.contract.status = .cancelled then
        some (s, if staff then throws "The contract is already cancelled" else .rest none)
      else some ({ s with contract := { s.contract with
        status := .cancelled, cancelledAt := some date, cancelReason := reason } }, .rest none)
  | .scheduling cancelAt reason =>
      if s.contract.running ∧ s.contract.cancelAt = none then
        some ({ s with contract := { s.contract with
          cancelAt := some cancelAt, cancelReason := some reason } }, .rest none)
      else some (s, .rest none)
  | .undoing =>
      if s.contract.running ∧ (s.contract.cancelAt.any fun t => now < t) then
        some ({ s with contract := { s.contract with
          cancelAt := none, cancelReason := none } }, .rest none)
      else some (s, throws "The cancellation already took effect")
  | .extending read termEndsAt termMonths staff =>
      if s.contract.running ∧ s.contract.termEndsAt = read then
        some (⟨{ s.contract with
            termEndsAt := some termEndsAt, renewedAt := some now, termMonths,
            renewalNoticeAt := none },
          s.renewals ++ [⟨termEndsAt, s.contract.cancelAt⟩]⟩, .rest none)
      else some (s, if staff then
        throws "The contract changed while renewing; reload and try again" else .rest none)
  | .noticing read =>
      if s.contract.renewalNoticeAt = none ∧ s.contract.termEndsAt = read then
        some ({ s with contract := { s.contract with renewalNoticeAt := some now } }, .rest none)
      else some (s, .rest none)
  | .settingAutoRenew autoRenew =>
      some ({ s with contract := { s.contract with autoRenew } }, .rest none)
  | .activating =>
      if s.contract.status = .draft then
        some ({ s with contract := { s.contract with status := .onboarding } }, .rest none)
      else some (s, throws "The contract changed while activating; reload and try again")
  | .completing termEndsAt =>
      if s.contract.status = .onboarding then
        some ({ s with contract := { s.contract with
          status := .active, activatedAt := some now, termEndsAt := some termEndsAt } }, .rest none)
      else some (s, .rest none)

def trans (_ : ℕ) (s : Shared) (act : Act) (pc : Pc) : Option (Shared × Pc) :=
  match act, pc with
  | .write now, pc => write now s pc
  | act, .rest _ => (begin s.contract act).map fun pc' => (s, pc')
  | _, _ => none

abbrev World := Interleaving.World Shared Pc

def step : World → ℕ × Act → World := callerStep trans

/-- A contract in any state, nobody at work on it. -/
def start (c : Contract) : World := ⟨⟨c, []⟩, fun _ => .rest none⟩

/-! ## Orders of the steps that are safe -/

/-- `suspend` or `resume` between its read and its write. -/
def SettingStatus : Pc → Prop
  | .suspending | .resuming _ _ => True
  | _ => False

/-- No renewal past the date is between its read and its write. -/
def RenewsBy (date : ℕ) : Pc → Prop
  | .extending _ termEndsAt _ _ => termEndsAt ≤ date
  | _ => True

/-- The end of a contract is stored while no `suspend` or `resume` is between
its read and its write; staff renews no contract past a cancellation that it
reads; and a cancellation is scheduled while no renewal past it is between its
read and its write. -/
def Orderly (w : World) (a : ℕ × Act) : Prop :=
  match a.2, w.pc a.1 with
  | .write _, .ending _ _ _ => ∀ q, ¬ SettingStatus (w.pc q)
  | .write _, .scheduling cancelAt _ => ∀ q, RenewsBy cancelAt (w.pc q)
  | .renew now termMonths, .rest _ =>
      ∀ t ∈ w.shared.contract.cancelAt, renewedEnd w.shared.contract now termMonths ≤ t
  | _, _ => True

/-- What is known at the place of a call: a status that is about to be set is
not set on a cancelled contract, and a renewal keeps to the cancellation. -/
def Placed (s : Shared) : Pc → Prop
  | .suspending => s.contract.status ≠ .cancelled
  | .resuming status _ => s.contract.status ≠ .cancelled ∧ status ≠ .cancelled
  | .extending _ termEndsAt _ _ => ∀ t ∈ s.contract.cancelAt, termEndsAt ≤ t
  | _ => True

/-- Every stored renewal kept to the cancellation that was scheduled then. -/
def RenewedInTime (s : Shared) : Prop := ∀ r ∈ s.renewals, ∀ t ∈ r.cancelAt, r.termEndsAt ≤ t

structure Safe (w : World) : Prop where
  placed : ∀ q, Placed w.shared (w.pc q)
  inTime : RenewedInTime w.shared

theorem safe_start (c : Contract) : Safe (start c) where
  placed _ := trivial
  inTime r hr := by simp [start] at hr

/-- The two columns that the places of calls depend on. -/
theorem Placed.mono {s s' : Shared} {pc : Pc} (h : Placed s pc)
    (hstatus : s.contract.status ≠ .cancelled → s'.contract.status ≠ .cancelled)
    (hcancel : ∀ t ∈ s'.contract.cancelAt, t ∈ s.contract.cancelAt) : Placed s' pc := by
  cases pc
  case suspending => exact hstatus h
  case resuming => exact ⟨hstatus h.1, h.2⟩
  case extending read termEndsAt termMonths staff => exact fun t ht => h t (hcancel t ht)
  all_goals trivial

/-- What a call does with the row it read. -/
theorem placed_begin {w : World} {i : ℕ} {act : Act} {pc' : Pc} {e : Option ApiError}
    (hpc : w.pc i = .rest e) (hok : Orderly w (i, act)) (h : begin w.shared.contract act = some pc') :
    Placed w.shared pc' := by
  cases act with
  | suspend =>
    simp only [begin, Option.some.injEq] at h
    subst h
    split_ifs with hst
    · trivial
    · intro hc
      simp [hc] at hst
  | resume now =>
    simp only [begin, Option.some.injEq] at h
    subst h
    split
    · trivial
    · next hst =>
      have hsus : w.shared.contract.status = .suspended := not_not.mp hst
      refine ⟨by simp [hsus], ?_⟩
      split_ifs <;> simp
  | renew now termMonths =>
    simp only [Orderly, hpc] at hok
    simp only [begin, Option.some.injEq] at h
    subst h
    split_ifs
    · trivial
    · exact hok
  | runRenewals now =>
    simp only [begin, Option.some.injEq] at h
    subst h
    split_ifs
    · split
      case h_1 termEndsAt hd =>
        intro t ht
        rw [termDecision_renew hd] at ht
        cases ht
      all_goals trivial
    · trivial
  | write now => cases h
  | _ =>
    simp only [begin, Option.some.injEq] at h
    subst h
    repeat' split
    all_goals trivial

/-- A step is the write of a call that is under way, or the read of a new one. -/
theorem trans_cases {i : ℕ} {s s' : Shared} {act : Act} {pc pc' : Pc}
    (h : trans i s act pc = some (s', pc')) :
    (∃ now, act = .write now ∧ write now s pc = some (s', pc')) ∨
      ∃ e, pc = .rest e ∧ begin s.contract act = some pc' ∧ s' = s := by
  cases act with
  | write now => exact .inl ⟨now, rfl, h⟩
  | _ =>
    right
    cases pc with
    | rest e =>
      simp only [trans] at h
      obtain ⟨pc₁, hbegin, heq⟩ := Option.map_eq_some_iff.mp h
      cases heq
      exact ⟨e, rfl, hbegin, rfl⟩
    | _ => cases h

/-- The row behind a write that neither ends the contract nor schedules its end. -/
theorem write_frame {now : ℕ} {s s' : Shared} {pc pc' : Pc} (h : write now s pc = some (s', pc'))
    (hpc : Placed s pc) (hend : ∀ d r b, pc ≠ .ending d r b) (hsch : ∀ d r, pc ≠ .scheduling d r) :
    (s.contract.status ≠ .cancelled → s'.contract.status ≠ .cancelled) ∧
      ∀ t ∈ s'.contract.cancelAt, t ∈ s.contract.cancelAt := by
  cases pc with
  | rest e => cases h
  | ending d r b => exact (hend d r b rfl).elim
  | scheduling d r => exact (hsch d r rfl).elim
  | resuming status suspensions =>
    cases h
    exact ⟨fun _ => hpc.2, fun t ht => ht⟩
  | _ =>
    simp only [write] at h
    repeat' split at h
    all_goals
      cases h
      constructor
      · intro hst
        simp [hst]
      · intro t ht
        first
          | exact ht
          | cases ht

/-- A write appends to the history only by a renewal, with the cancellation
that is stored then. -/
theorem write_inTime {now : ℕ} {s s' : Shared} {pc pc' : Pc} (h : write now s pc = some (s', pc'))
    (hpc : Placed s pc) (hs : RenewedInTime s) : RenewedInTime s' := by
  cases pc with
  | extending read termEndsAt termMonths staff =>
    simp only [write] at h
    split_ifs at h <;> cases h
    · intro r hr t ht
      rcases List.mem_append.mp hr with hr | hr
      · exact hs r hr t ht
      · obtain rfl := List.mem_singleton.mp hr
        exact hpc t ht
    all_goals exact hs
  | rest e => cases h
  | _ =>
    simp only [write] at h
    repeat' split at h
    all_goals
      cases h
      exact hs

theorem write_rest {now : ℕ} {s s' : Shared} {pc pc' : Pc} (h : write now s pc = some (s', pc')) :
    ∃ e, pc' = .rest e := by
  cases pc with
  | rest e => cases h
  | _ =>
    simp only [write, throws] at h
    repeat' split at h
    all_goals
      cases h
      exact ⟨_, rfl⟩

/-- The places of the other calls behind a write. -/
theorem placed_others {w : World} {i now : ℕ} {s' : Shared} {pc' : Pc}
    (h : write now w.shared (w.pc i) = some (s', pc')) (hok : Orderly w (i, .write now))
    (hw : Safe w) (q : ℕ) : Placed s' (w.pc q) := by
  cases hpc : w.pc i with
  | ending d r b =>
    simp only [Orderly, hpc] at hok
    simp only [write, hpc] at h
    split_ifs at h <;> cases h
    · exact hw.placed q
    · exact hw.placed q
    · have hq := hw.placed q
      have hset := hok q
      cases hpq : w.pc q <;> rw [hpq] at hq hset <;> first | exact (hset trivial).elim | exact hq
  | scheduling cancelAt reason =>
    simp only [Orderly, hpc] at hok
    simp only [write, hpc] at h
    split_ifs at h <;> cases h
    · have hq := hw.placed q
      have hby := hok q
      cases hpq : w.pc q with
      | extending read termEndsAt termMonths staff =>
        rw [hpq] at hby
        intro t ht
        cases ht
        exact hby
      | _ =>
        rw [hpq] at hq
        exact hq
    · exact hw.placed q
  | _ =>
    have hframe := write_frame h (hw.placed i) (by rw [hpc]; nofun) (by rw [hpc]; nofun)
    exact (hw.placed q).mono hframe.1 hframe.2

theorem safe_step (w : World) (a : ℕ × Act) (hok : Orderly w a) (hw : Safe w) : Safe (step w a) := by
  obtain ⟨i, act⟩ := a
  rcases callerStep_cases trans w (i, act) with heq | ⟨s', pc', ht, heq⟩
  · rw [step, heq]
    exact hw
  · rw [step, heq]
    rcases trans_cases ht with ⟨now, rfl, hwrite⟩ | ⟨e, hpc, hbegin, rfl⟩
    · obtain ⟨e, rfl⟩ := write_rest hwrite
      have hothers := placed_others hwrite hok hw
      exact ⟨update_cases (P := fun _ pc => Placed s' pc) trivial fun q _ => hothers q,
        write_inTime hwrite (hw.placed i) hw.inTime⟩
    · exact ⟨update_cases (P := fun _ pc => Placed w.shared pc) (placed_begin hpc hok hbegin)
        fun q _ => hw.placed q, hw.inTime⟩

/-- No step of a safe world takes a contract out of CANCELLED. -/
theorem cancelled_step {w : World} (hw : Safe w) (a : ℕ × Act)
    (hc : w.shared.contract.status = .cancelled) :
    (step w a).shared.contract.status = .cancelled := by
  obtain ⟨i, act⟩ := a
  rcases callerStep_cases trans w (i, act) with heq | ⟨s', pc', ht, heq⟩
  · rw [step, heq]
    exact hc
  · rw [step, heq]
    rcases trans_cases ht with ⟨now, -, hwrite⟩ | ⟨e, -, -, rfl⟩
    · have hplaced := hw.placed i
      cases hpc : w.pc i <;> rw [hpc] at hplaced <;> simp only [hpc, write] at hwrite
      case suspending => exact (hplaced hc).elim
      case resuming => exact (hplaced.1 hc).elim
      case rest => cases hwrite
      all_goals
        repeat' split at hwrite
      all_goals
        cases hwrite
        simp_all [Contract.running]
    · exact hc

theorem cancelled_run {w : World} {schedule : List (ℕ × Act)} (hw : Safe w)
    (h : Meets step Orderly w schedule) (hc : w.shared.contract.status = .cancelled) :
    (run step w schedule).shared.contract.status = .cancelled := by
  have hboth : Safe (run step w schedule) ∧
      (run step w schedule).shared.contract.status = .cancelled :=
    Meets.invariant (I := fun w => Safe w ∧ w.shared.contract.status = .cancelled)
      (fun w a hok hi => ⟨safe_step w a hok hi.1, cancelled_step hi.1 a hi.2⟩) h ⟨hw, hc⟩
  exact hboth.2

/-- On orderly schedules a cancelled contract stays cancelled, and no renewal is
stored that goes past the cancellation scheduled at that moment. -/
theorem cancelled_contract_stays (c : Contract) (before after : List (ℕ × Act))
    (h : Meets step Orderly (start c) (before ++ after)) :
    ((run step (start c) before).shared.contract.status = .cancelled →
      (run step (start c) (before ++ after)).shared.contract.status = .cancelled) ∧
    RenewedInTime (run step (start c) (before ++ after)).shared := by
  have hsplit := meets_append.mp h
  have hbefore : Safe (run step (start c) before) :=
    Meets.invariant safe_step hsplit.1 (safe_start c)
  constructor
  · intro hc
    rw [run_append]
    exact cancelled_run hbefore hsplit.2 hc
  · have hall : Safe (run step (start c) (before ++ after)) :=
      Meets.invariant safe_step h (safe_start c)
    exact hall.inTime

/-! ## Two runs -/

/-- An active contract whose term ends in October 2026. -/
def sample : Contract :=
  { status := .active, termEndsAt := some (dateUtc 681 14 0), activatedAt := some (dateUtc 669 14 0) }

/-- The middle of September 2026. -/
def today : ℕ := dateUtc 680 14 0

/-- Suspended, renewed, cancelled by the owner for the end of the month, and
ended by the job on that day. -/
def orderlyBefore : List (ℕ × Act) :=
  [(0, .suspend), (0, .write today), (0, .renew today none), (0, .write today),
    (1, .cancelForTeam today none), (1, .write today), (2, .runRenewals (dateUtc 681 0 0)),
    (2, .write (dateUtc 681 0 0))]

/-- Staff tries to resume it. -/
def orderlyAfter : List (ℕ × Act) := [(0, .resume today), (0, .write today)]

/-- `Orderly` where only the first three callers act. -/
def orderlyHere (w : World) (a : ℕ × Act) : Bool :=
  match a.2, w.pc a.1 with
  | .write _, .ending _ _ _ => [0, 1, 2].all fun q => match w.pc q with
      | .suspending | .resuming _ _ => false
      | _ => true
  | .write _, .scheduling cancelAt _ => [0, 1, 2].all fun q => match w.pc q with
      | .extending _ termEndsAt _ _ => termEndsAt ≤ cancelAt
      | _ => true
  | .renew now termMonths, .rest _ => w.shared.contract.cancelAt.all fun t =>
      renewedEnd w.shared.contract now termMonths ≤ t
  | _, _ => true

theorem orderly_of_orderlyHere {w : World} {a : ℕ × Act} (h : orderlyHere w a)
    (hidle : ∀ q, 3 ≤ q → w.pc q = .rest none) : Orderly w a := by
  have hfirst : ∀ q, q ∈ [0, 1, 2] ∨ w.pc q = .rest none := by
    intro q
    by_cases hq : 3 ≤ q
    · exact .inr (hidle q hq)
    · left
      simp only [List.mem_cons, List.not_mem_nil, or_false]
      omega
  obtain ⟨i, act⟩ := a
  cases act with
  | write now =>
    cases hpc : w.pc i with
    | ending date reason staff =>
      simp only [orderlyHere, hpc] at h
      simp only [Orderly, hpc]
      intro q hset
      rcases hfirst q with hq | hq
      · have hthis := List.all_eq_true.mp h q hq
        cases hpq : w.pc q <;> rw [hpq] at hthis hset <;> first | exact hset | cases hthis
      · rw [hq] at hset
        exact hset
    | scheduling cancelAt reason =>
      simp only [orderlyHere, hpc] at h
      simp only [Orderly, hpc]
      intro q
      rcases hfirst q with hq | hq
      · have hthis := List.all_eq_true.mp h q hq
        cases hpq : w.pc q <;> rw [hpq] at hthis
        case extending => simpa only [RenewsBy, decide_eq_true_eq] using hthis
        all_goals trivial
      · rw [hq]
        trivial
    | _ => simp only [Orderly, hpc]
  | renew now termMonths =>
    cases hpc : w.pc i with
    | rest e =>
      simp only [orderlyHere, hpc] at h
      simp only [Orderly, hpc]
      intro t ht
      rw [Option.mem_def.mp ht] at h
      simpa only [Option.all_some, decide_eq_true_eq] using h
    | _ => simp only [Orderly, hpc]
  | _ => simp only [Orderly]

theorem sample_runs :
    Meets step (fun w a => orderlyHere w a = true) (start sample)
        (orderlyBefore ++ orderlyAfter) ∧
      (run step (start sample) orderlyBefore).shared.contract.status = .cancelled ∧
      (run step (start sample) [(1, .cancelForTeam today none), (1, .write today),
        (0, .renew today none), (0, .write today)]).shared.renewals =
          [⟨dateUtc 693 14 0, some (dateUtc 681 0 0)⟩] ∧
      ¬ dateUtc 693 14 0 ≤ dateUtc 681 0 0 := by
  decide +kernel

theorem orderly_sample :
    Meets step Orderly (start sample) (orderlyBefore ++ orderlyAfter) := by
  have hidle : Meets step (fun w a => (∀ q, 3 ≤ q → w.pc q = .rest none) → Orderly w a)
      (start sample) (orderlyBefore ++ orderlyAfter) :=
    sample_runs.1.mono fun w a _ h hidle => orderly_of_orderlyHere h hidle
  have hcallers : ∀ a ∈ orderlyBefore ++ orderlyAfter, a.1 < 3 := by decide
  exact Meets.of_idle hidle (fun q _ => rfl) hcallers

theorem cancelled_contract_stays_sample :
    (run step (start sample) (orderlyBefore ++ orderlyAfter)).shared.contract.status =
      .cancelled := by
  exact (cancelled_contract_stays sample orderlyBefore orderlyAfter orderly_sample).1
    sample_runs.2.1

/-- A `suspend` that read an active contract brings a cancelled one back, and
staff renews a contract past the cancellation that its owner has scheduled. -/
theorem cancelled_contract_comes_back :
    ((run step (start sample) [(0, .suspend), (1, .cancel today none), (1, .write today)]
        ).shared.contract.status = .cancelled ∧
      (run step (start sample) ([(0, .suspend), (1, .cancel today none), (1, .write today)] ++
        [(0, .write today)])).shared.contract.status = .suspended) ∧
    ¬ RenewedInTime (run step (start sample) [(1, .cancelForTeam today none), (1, .write today),
      (0, .renew today none), (0, .write today)]).shared := by
  refine ⟨by decide, ?_⟩
  intro h
  have hren : (run step (start sample) [(1, .cancelForTeam today none), (1, .write today),
      (0, .renew today none), (0, .write today)]).shared.renewals =
      [⟨dateUtc 693 14 0, some (dateUtc 681 0 0)⟩] := sample_runs.2.2.1
  have hle := h ⟨dateUtc 693 14 0, some (dateUtc 681 0 0)⟩ (by rw [hren]; simp) _ rfl
  exact absurd hle sample_runs.2.2.2

end Prgd.Contracts
