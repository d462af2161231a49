import Mathlib.Data.List.Sort
import Prgd.Interleaving
import Prgd.Text
import Prgd.WorkLogs

/-!
# Contractor payouts

`PayoutsService` and the edits of `WorkLogsService`, with every query and every
statement as one step. `generateOne` reads the payout outside of its transaction and
the worklogs inside of it, without locking them; `setStatus`, `update` and `remove`
write by id alone, and `editable` looks at the billing and at the state of a worklog
but not at its payout. So a draft can be issued while it is computed anew, and a worklog
that an issued payout has counted can still be changed.

The statements of a transaction show with its commit, which is one step. `clock` is
the local hour and minute of an instant in a zone. The PDF statement, the mails, the
audit log and the currency are left out.
-/
namespace Prgd.Payouts
open Interleaving
open Rating (mathRound)
open JsNumber (nearest)
open WorkLogs (WorkLogStatus WorkLog WorkLogChange Actor checkTicket checkWhen monthMs)

/-! ## The pay of a month -/

/-- `ManagedCalendar`. -/
inductive ManagedCalendar where
  | sa | tr
  deriving DecidableEq

def zoneOf (calendar : ManagedCalendar) : String :=
  if calendar = .tr then "Europe/Istanbul" else "Asia/Riyadh"

structure PayoutWorkLog where
  id : ℕ
  startedAt : ℕ
  minutes : ℕ
  timeZone : String
  deriving DecidableEq

structure PayoutRates where
  hourlyRateMinor : ℕ
  standbyFeeMinor : ℕ
  nightMultiplier : ℚ
  nightStartHour : ℕ
  nightEndHour : ℕ
  deriving DecidableEq

structure PayLine where
  workLogId : ℕ
  startedAt : ℕ
  minutes : ℕ
  nightMinutes : ℕ
  amountMinor : ℤ
  deriving DecidableEq

/-- What `computePayout` returns. -/
structure Pay where
  lines : List PayLine
  workedMinutes : ℕ
  nightMinutes : ℕ
  workMinor : ℤ
  standbyShifts : ℕ
  standbyMinor : ℕ
  totalMinor : ℤ
  deriving DecidableEq

def isNightHour (hour start stop : ℕ) : Bool :=
  if stop < start then start ≤ hour ∨ hour < stop else start ≤ hour ∧ hour < stop

section
variable (clock : String → ℕ → ℕ × ℕ)

/-- The walk over the local clock hours, from minute `m` on. A pass ends an hour, so
there are at most as many of them as minutes. -/
def nightWalk (start minutes : ℕ) (timeZone : String) (nightStartHour nightEndHour : ℕ) :
    ℕ → ℕ → ℕ
  | 0, _ => 0
  | fuel + 1, m =>
      if m < minutes then
        let now := clock timeZone (start + m * 60000)
        let span := min (60 - now.2) (minutes - m)
        (if isNightHour now.1 nightStartHour nightEndHour then span else 0) +
          nightWalk start minutes timeZone nightStartHour nightEndHour fuel (m + span)
      else 0

def nightMinutes (start minutes : ℕ) (timeZone : String) (nightStartHour nightEndHour : ℕ) : ℕ :=
  nightWalk clock start minutes timeZone nightStartHour nightEndHour minutes 0

def payLine (r : PayoutRates) (w : PayoutWorkLog) : PayLine :=
  let night := nightMinutes clock w.startedAt w.minutes w.timeZone r.nightStartHour r.nightEndHour
  let day := w.minutes - night
  { workLogId := w.id
    startedAt := w.startedAt
    minutes := w.minutes
    nightMinutes := night
    amountMinor := mathRound (nearest (nearest ((day * r.hourlyRateMinor : ℕ) +
      nearest ((night * r.hourlyRateMinor : ℕ) * r.nightMultiplier)) / 60)) }

def computePayout (worklogs : List PayoutWorkLog) (completedShifts : ℕ) (r : PayoutRates) : Pay :=
  let lines := worklogs.map (payLine clock r)
  let workMinor := (lines.map PayLine.amountMinor).sum
  let standbyMinor := completedShifts * r.standbyFeeMinor
  { lines
    workedMinutes := (lines.map PayLine.minutes).sum
    nightMinutes := (lines.map PayLine.nightMinutes).sum
    workMinor
    standbyShifts := completedShifts
    standbyMinor
    totalMinor := workMinor + standbyMinor }

/-- Beyond one pass for each minute that is left, more passes change nothing. -/
theorem nightWalk_fuel (hclock : ∀ zone at', (clock zone at').2 < 60)
    (start minutes : ℕ) (zone : String) (from' to' : ℕ) {fuel m : ℕ} (h : minutes ≤ m + fuel) :
    nightWalk clock start minutes zone from' to' (fuel + 1) m =
      nightWalk clock start minutes zone from' to' fuel m := by
  induction fuel generalizing m with
  | zero =>
    have hm : ¬ m < minutes := by omega
    simp [nightWalk, hm]
  | succ fuel ih =>
    rw [nightWalk]
    conv_rhs => rw [nightWalk]
    by_cases hm : m < minutes
    · have hminute := hclock zone (start + m * 60000)
      simp only [if_pos hm]
      rw [ih (by omega)]
    · rw [if_neg hm, if_neg hm]

end

/-! ## The data -/

/-- A worklog with the calendar of its contract. -/
structure Log extends WorkLog where
  calendar : ManagedCalendar
  payoutId : Option ℕ := none
  deriving DecidableEq

structure Shift where
  userId : ℕ
  startsAt : ℕ
  startedAt : Option ℕ
  endedAt : Option ℕ
  payoutId : Option ℕ := none
  deriving DecidableEq

inductive PayoutStatus where
  | draft | issued | paid
  deriving DecidableEq

def PayoutStatus.name : PayoutStatus → String
  | .draft => "draft"
  | .issued => "issued"
  | .paid => "paid"

structure ContractorPayout where
  engineerId : ℕ
  period : ℕ
  userId : ℕ
  hourlyRateMinor : ℕ
  standbyFeeMinor : ℕ
  nightMultiplier : ℚ
  pay : Pay
  shiftIds : List ℕ
  status : PayoutStatus := .draft
  issuedAt : Option ℕ := none
  paidAt : Option ℕ := none
  paidReference : Option String := none
  paidById : Option ℕ := none
  deriving DecidableEq

structure Books where
  logs : Table ℕ Log
  shifts : Table ℕ Shift
  payouts : Table ℕ ContractorPayout
  nextLog : ℕ
  nextPayout : ℕ

/-- An external engineer with a rate. -/
structure Engineer where
  id : ℕ
  userId : ℕ
  hourlyRateMinor : Option ℕ
  standbyFeeMinor : Option ℕ
  nightMultiplier : ℚ
  deriving DecidableEq

/-- A run of `generate`: the engineers that are left and the night hours of the settings. -/
structure Job where
  period : ℕ
  engineers : List Engineer
  nightStartHour : ℕ
  nightEndHour : ℕ
  deriving DecidableEq

/-- The transaction of `generateOne`: the draft it found, the rows it has unlinked from it
and the rows it has read. -/
structure Transaction where
  engineer : Engineer
  existing : Option ℕ
  unlinkedLogs : List ℕ := []
  unlinkedShifts : List ℕ := []
  logs : List (ℕ × Log) := []
  shifts : List (ℕ × Shift) := []
  deriving DecidableEq

inductive StatusChange where
  | issued
  | paid (paidReference : Option String) (paidAt : Option ℕ)
  deriving DecidableEq

inductive Call where
  | generate (job : Job)
  | setStatus (actorId : Option ℕ) (id : ℕ) (dto : StatusChange)
  /-- A new worklog, of staff or of a timer; it is in no payout. -/
  | create (w : WorkLog) (calendar : ManagedCalendar)
  | update (actor : Actor) (id : ℕ) (dto : WorkLogChange)
  | remove (actor : Actor) (id : ℕ)

/-- The statement a call stands in front of, with what it has read. -/
inductive Pc where
  | rest (error : Option ApiError)
  | generating (job : Job)
  | unlinkLogs (job : Job) (t : Transaction)
  | unlinkShifts (job : Job) (t : Transaction)
  | readLogs (job : Job) (t : Transaction)
  | readShifts (job : Job) (t : Transaction)
  | commit (job : Job) (t : Transaction)
  | issuing (id : ℕ)
  | paying (id : ℕ) (read : ContractorPayout) (paidReference : String) (paidAt actorId : Option ℕ)
  | creating (w : WorkLog) (calendar : ManagedCalendar)
  | updating (id : ℕ) (dto : WorkLogChange)
  | removing (id : ℕ)

inductive Act where
  /-- A call, at this time. -/
  | call (now : ℕ) (c : Call)
  | next (now : ℕ)

/-! ## Reads -/

def throws (e : ApiError) : Pc := .rest (some e)

/-- The payout of an engineer and a month: the pair is unique. -/
def payoutOf (s : Books) (engineerId period : ℕ) : Option (ℕ × ContractorPayout) :=
  s.payouts.rows.find? fun e => e.2.engineerId = engineerId ∧ e.2.period = period

/-- `generateOne` up to its transaction: an issued or a paid payout is left alone. -/
def readExisting (s : Books) (job : Job) : Pc :=
  match job.engineers with
  | [] => .rest none
  | e :: engineers =>
      let job' := { job with engineers }
      match payoutOf s e.id job.period with
      | none => .unlinkLogs job' { engineer := e, existing := none }
      | some (id, p) =>
          if p.status ≠ .draft then .generating job'
          else .unlinkLogs job' { engineer := e, existing := some id }

/-- The rows that are linked to the draft. -/
def linkedTo {α : Type} (existing : Option ℕ) (payoutId : α → Option ℕ) (t : Table ℕ α) : List ℕ :=
  (t.rows.filter fun e => existing.isSome ∧ payoutId e.2 = existing).map Prod.fst

/-- A row is in no payout, as the transaction sees it. -/
def unpaid (unlinked : List ℕ) (payoutId : Option ℕ) (id : ℕ) : Bool :=
  payoutId = none ∨ unlinked.contains id

def findLogs (s : Books) (job : Job) (t : Transaction) : List (ℕ × Log) :=
  (s.logs.rows.filter fun e =>
    e.2.userId = t.engineer.userId ∧ e.2.status = .approved ∧
      unpaid t.unlinkedLogs e.2.payoutId e.1 ∧ e.2.workedAt < monthMs (job.period + 1)).insertionSort
    fun a b => a.2.workedAt ≤ b.2.workedAt

def findShifts (s : Books) (job : Job) (t : Transaction) : List (ℕ × Shift) :=
  (s.shifts.rows.filter fun e =>
    e.2.userId = t.engineer.userId ∧ e.2.startedAt.isSome ∧ e.2.endedAt.isSome ∧
      unpaid t.unlinkedShifts e.2.payoutId e.1 ∧
      e.2.startsAt < monthMs (job.period + 1)).insertionSort
    fun a b => a.2.startsAt ≤ b.2.startsAt

/-- A text that is not only white space, without the space around it. -/
def trimmed (text : Option String) : Option String :=
  match text.map fun s => Text.trim s.toList with
  | none | some [] => none
  | some l => some (String.ofList l)

def readStatus (s : Books) (actorId : Option ℕ) (id : ℕ) (dto : StatusChange) : Pc :=
  match s.payouts.find id with
  | none => throws (.notFound "payout" (toString id))
  | some p =>
      match dto with
      | .issued =>
          if p.status ≠ .draft then throws (.invalidState ("The payout is " ++ p.status.name))
          else .issuing id
      | .paid paidReference paidAt =>
          if p.status = .paid then throws (.invalidState "The payout is already paid")
          else match trimmed paidReference with
            | none =>
                throws (.invalid "paidReference (the bank transfer reference) is required" [])
            | some reference => .paying id p reference paidAt actorId

def editable (s : Books) (actor : Actor) (id : ℕ) : Except ApiError Log :=
  match s.logs.find id with
  | none => .error (.notFound "worklog" (toString id))
  | some w =>
      if w.userId ≠ actor.userId ∧ ¬ actor.isLead then
        .error (.forbidden "Only a support lead can change someone else's time")
      else if w.billedPeriod.isSome ∨ w.billedInvoiceId.isSome then
        .error (.invalidState "This entry was already billed; add a correcting entry instead")
      else if w.status = .paid then
        .error (.invalidState "This entry was paid to the engineer; add a correcting entry instead")
      else .ok w

def readUpdate (s : Books) (actor : Actor) (id : ℕ) (dto : WorkLogChange) (now : ℕ) :
    Except ApiError Log := do
  let w ← editable s actor id
  checkTicket dto.ticket
  checkWhen now dto.workedAt
  return w

def begin (s : Books) (now : ℕ) : Call → Pc
  | .generate job => .generating job
  | .setStatus actorId id dto => readStatus s actorId id dto
  | .create w calendar => .creating w calendar
  | .update actor id dto =>
      match readUpdate s actor id dto now with
      | .error e => throws e
      | .ok _ => .updating id dto
  | .remove actor id =>
      match editable s actor id with
      | .error e => throws e
      | .ok _ => .removing id

/-! ## Writes -/

/-- The payout of a row after a transaction that counts `counted` in the payout `id`. -/
def relink (existing : Option ℕ) (unlinked counted : List ℕ) (id row : ℕ) (payoutId : Option ℕ) :
    Option ℕ :=
  if counted.contains row then some id
  else if existing.isSome ∧ payoutId = existing ∧ unlinked.contains row then none
  else payoutId

def Transaction.counted (t : Transaction) : List ℕ := t.logs.map Prod.fst

def link (s : Books) (t : Transaction) (id : ℕ) : Books :=
  { s with
    logs := s.logs.amend fun row w =>
      { w with payoutId := relink t.existing t.unlinkedLogs t.counted id row w.payoutId }
    shifts := s.shifts.amend fun row x =>
      { x with
        payoutId := relink t.existing t.unlinkedShifts (t.shifts.map Prod.fst) id row x.payoutId } }

/-- Deleting a payout unlinks its rows. -/
def deletePayout (s : Books) (id : ℕ) : Books :=
  { s with
    payouts := s.payouts.erase id
    logs := s.logs.amend fun _ w =>
      { w with payoutId := if w.payoutId = some id then none else w.payoutId }
    shifts := s.shifts.amend fun _ x =>
      { x with payoutId := if x.payoutId = some id then none else x.payoutId } }

section
variable (clock : String → ℕ → ℕ × ℕ)

def payOf (job : Job) (t : Transaction) : Pay :=
  computePayout clock
    (t.logs.map fun l => ⟨l.1, l.2.startedAt.getD l.2.workedAt, l.2.minutes, zoneOf l.2.calendar⟩)
    t.shifts.length
    ⟨t.engineer.hourlyRateMinor.getD 0, t.engineer.standbyFeeMinor.getD 0,
      t.engineer.nightMultiplier, job.nightStartHour, job.nightEndHour⟩

/-- The columns that a transaction writes, of a new payout or of the draft. -/
def draftOf (job : Job) (t : Transaction) : ContractorPayout where
  engineerId := t.engineer.id
  period := job.period
  userId := t.engineer.userId
  hourlyRateMinor := t.engineer.hourlyRateMinor.getD 0
  standbyFeeMinor := t.engineer.standbyFeeMinor.getD 0
  nightMultiplier := t.engineer.nightMultiplier
  pay := payOf clock job t
  shiftIds := t.shifts.map Prod.fst

def redraft (job : Job) (t : Transaction) (stored : ContractorPayout) : ContractorPayout :=
  let d := draftOf clock job t
  { stored with
    userId := d.userId, hourlyRateMinor := d.hourlyRateMinor, standbyFeeMinor := d.standbyFeeMinor
    nightMultiplier := d.nightMultiplier, pay := d.pay, shiftIds := d.shiftIds }

/-- The writes of `generateOne`. `none`: the draft is gone, or somebody else has created the
payout, and the transaction is rolled back. -/
def writePayout (s : Books) (job : Job) (t : Transaction) : Option Books :=
  if t.logs = [] ∧ t.shifts = [] then
    match t.existing with
    | none => some s
    | some id => (s.payouts.find id).map fun _ => deletePayout s id
  else
    match t.existing with
    | some id =>
        (s.payouts.find id).map fun stored =>
          link { s with payouts := s.payouts.put id (redraft clock job t stored) } t id
    | none =>
        if (payoutOf s t.engineer.id job.period).isSome then none
        else some (link { s with
          payouts := s.payouts.put s.nextPayout (draftOf clock job t)
          nextPayout := s.nextPayout + 1 } t s.nextPayout)

def writeIssued (now : ℕ) (p : ContractorPayout) : ContractorPayout :=
  { p with status := .issued, issuedAt := some now }

def writePaid (read : ContractorPayout) (paidReference : String) (paidAt actorId : Option ℕ)
    (now : ℕ) (p : ContractorPayout) : ContractorPayout :=
  { p with
    status := .paid, issuedAt := some (read.issuedAt.getD now)
    paidAt := some (paidAt.getD now), paidReference := some paidReference, paidById := actorId }

/-- The worklogs of a payout that is paid. -/
def writeLogsPaid (s : Books) (id : ℕ) : Books :=
  { s with
    logs := s.logs.amend fun _ w =>
      { w with
        status := if w.payoutId = some id ∧ w.status = .approved then .paid else w.status } }

/-- Columns that are not given keep what is stored. -/
def writeLog (dto : WorkLogChange) (w : Log) : Log :=
  { w with
    minutes := dto.minutes.getD w.minutes
    billable := dto.billable.getD w.billable
    workedAt := dto.workedAt.getD w.workedAt }

/-- A row that is gone makes the statement throw. -/
def gone : ApiError := ⟨500, "internal_error", "Something went wrong on our side", []⟩

def next (s : Books) (now : ℕ) : Pc → Option (Books × Pc)
  | .rest _ => none
  | .generating job => some (s, readExisting s job)
  | .unlinkLogs job t =>
      some (s, .unlinkShifts job { t with unlinkedLogs := linkedTo t.existing Log.payoutId s.logs })
  | .unlinkShifts job t =>
      some (s, .readLogs job { t with
        unlinkedShifts := linkedTo t.existing Shift.payoutId s.shifts })
  | .readLogs job t => some (s, .readShifts job { t with logs := findLogs s job t })
  | .readShifts job t => some (s, .commit job { t with shifts := findShifts s job t })
  | .commit job t => some ((writePayout clock s job t).getD s, .generating job)
  | .issuing id =>
      match s.payouts.find id with
      | none => some (s, throws gone)
      | some p => some ({ s with payouts := s.payouts.put id (writeIssued now p) }, .rest none)
  | .paying id read paidReference paidAt actorId =>
      match s.payouts.find id with
      | none => some (s, throws gone)
      | some p =>
          some (writeLogsPaid { s with
            payouts := s.payouts.put id (writePaid read paidReference paidAt actorId now p) } id,
            .rest none)
  | .creating w calendar =>
      some ({ s with logs := s.logs.put s.nextLog { toWorkLog := w, calendar }
                     nextLog := s.nextLog + 1 }, .rest none)
  | .updating id dto =>
      match s.logs.find id with
      | none => some (s, throws gone)
      | some w => some ({ s with logs := s.logs.put id (writeLog dto w) }, .rest none)
  | .removing id =>
      match s.logs.find id with
      | none => some (s, throws gone)
      | some _ => some ({ s with logs := s.logs.erase id }, .rest none)

def trans (_ : ℕ) (s : Books) (act : Act) (pc : Pc) : Option (Books × Pc) :=
  match act, pc with
  | .call now c, .rest _ => some (s, begin s now c)
  | .next now, pc => next clock s now pc
  | _, _ => none

abbrev World := Interleaving.World Books Pc

def step : World → ℕ × Act → World := callerStep (trans clock)

end

/-- Worklogs and shifts of which none is in a payout, no payouts, and nobody under way. -/
def start (logs : Table ℕ Log) (shifts : Table ℕ Shift) : World where
  shared := {
    logs := logs.amend fun _ w => { w with payoutId := none }
    shifts := shifts.amend fun _ x => { x with payoutId := none }
    payouts := .empty
    nextLog := logs.fresh
    nextPayout := 0 }
  pc := fun _ => .rest none

/-! ## Issued payouts are frozen -/

/-- What the write of a call rests on. The payout that is computed anew is still a draft,
the worklogs that were read are there with their minutes and in no other payout, and those
that are linked to the draft were unlinked from it; a worklog that changes its minutes or is
removed is in no payout. -/
def current (s : Books) : Pc → Bool
  | .commit _ t =>
      (t.existing.all fun id => (s.payouts.find id).all fun p => p.status = .draft) ∧
      (t.logs.all fun l => (s.logs.find l.1).any fun w =>
        w.minutes = l.2.minutes ∧ (w.payoutId = none ∨ w.payoutId = t.existing)) ∧
      s.logs.rows.all fun e => e.2.payoutId.isSome ∧ e.2.payoutId = t.existing →
        t.unlinkedLogs.contains e.1 ∨ t.counted.contains e.1
  | .updating id dto => dto.minutes = none ∨ (s.logs.find id).all fun w => w.payoutId = none
  | .removing id => (s.logs.find id).all fun w => w.payoutId = none
  | _ => true

def Current (w : World) (a : ℕ × Act) : Bool := current w.shared (w.pc a.1)

/-- The minutes of the worklogs whose payout is this one. -/
def linkedMinutes (logs : Table ℕ Log) (id : ℕ) : ℤ :=
  logs.sum fun _ w => if w.payoutId = some id then (w.minutes : ℤ) else 0

/-- Every payout, drafts included, counts the worklogs that are linked to it. -/
structure Sound (s : Books) : Prop where
  minutes : ∀ {id p}, s.payouts.find id = some p →
    (p.pay.workedMinutes : ℤ) = linkedMinutes s.logs id
  lines : ∀ {id p}, s.payouts.find id = some p → ∀ l ∈ p.pay.lines,
    ∃ w, s.logs.find l.workLogId = some w ∧ w.payoutId = some id
  linked : ∀ {row w id}, s.logs.find row = some w → w.payoutId = some id →
    ∃ p, s.payouts.find id = some p
  newPayout : ∀ {id}, s.nextPayout ≤ id → s.payouts.find id = none
  newLog : ∀ {row}, s.nextLog ≤ row → s.logs.find row = none

/-- The rows that a transaction has read are distinct. -/
def Distinct : Pc → Prop
  | .readShifts _ t | .commit _ t => t.counted.Nodup
  | _ => True

section
variable {s s' : Books} {t : Transaction} {job : Job} {id now : ℕ} {p : ContractorPayout}
  {clock : String → ℕ → ℕ × ℕ}

theorem workedMinutes_payOf (clock : String → ℕ → ℕ × ℕ) (job : Job) (t : Transaction) :
    ((payOf clock job t).workedMinutes : ℤ) = (t.logs.map fun l => (l.2.minutes : ℤ)).sum := by
  simp only [payOf, computePayout, payLine, List.map_map, Function.comp_def]
  induction t.logs with
  | nil => rfl
  | cons l logs ih =>
    rw [List.map_cons, List.sum_cons, List.map_cons, List.sum_cons, ← ih]
    push_cast
    rfl

theorem mem_lines_payOf {l : PayLine} (h : l ∈ (payOf clock job t).lines) :
    l.workLogId ∈ t.counted := by
  simp only [payOf, computePayout, List.map_map, List.mem_map, Function.comp_apply] at h
  obtain ⟨e, he, rfl⟩ := h
  exact List.mem_map.mpr ⟨e, he, rfl⟩

/-- What a transaction relies on, for the payout `id` that it writes. -/
structure Ready (s : Books) (t : Transaction) (id : ℕ) : Prop where
  existing : t.existing = none ∨ t.existing = some id
  distinct : t.counted.Nodup
  read : ∀ l ∈ t.logs, ∃ w, s.logs.find l.1 = some w ∧ w.minutes = l.2.minutes ∧
    (w.payoutId = none ∨ w.payoutId = some id)
  own : ∀ {row w}, s.logs.find row = some w → w.payoutId = some id →
    t.existing = some id ∧ row ∈ t.unlinkedLogs ∨ row ∈ t.counted

theorem Ready.relink_self (h : Ready s t id) {row : ℕ} {w : Log} (hfind : s.logs.find row = some w) :
    relink t.existing t.unlinkedLogs t.counted id row w.payoutId = some id ↔ row ∈ t.counted := by
  unfold relink
  split_ifs with hcounted hunlinked
  · simpa using hcounted
  · simpa using hcounted
  · constructor
    · intro hid
      rcases h.own hfind hid with ⟨hexisting, hrow⟩ | hrow
      · exact (hunlinked ⟨by simp [hexisting], hid.trans hexisting.symm, by simpa using hrow⟩).elim
      · exact hrow
    · intro hrow
      exact (hcounted (by simpa using hrow)).elim

theorem Ready.relink_other (h : Ready s t id) {row : ℕ} {w : Log} (hfind : s.logs.find row = some w)
    {other : ℕ} (hne : other ≠ id) :
    relink t.existing t.unlinkedLogs t.counted id row w.payoutId = some other ↔
      w.payoutId = some other := by
  unfold relink
  split_ifs with hcounted hunlinked
  · have hrow : row ∈ t.counted := by simpa using hcounted
    obtain ⟨l, hl, rfl⟩ := List.mem_map.mp hrow
    obtain ⟨w', hfind', -, hw'⟩ := h.read l hl
    rw [hfind] at hfind'
    cases hfind'
    rcases hw' with hw' | hw'
    · simp [hw', hne.symm]
    · simp [hw']
  · rcases h.existing with hexisting | hexisting
    · simp [hexisting] at hunlinked
    · rw [hunlinked.2.1, hexisting]
      simp [hne.symm]
  · rfl

theorem Ready.linkedMinutes_self (h : Ready s t id) :
    linkedMinutes (link s t id).logs id = (t.logs.map fun l => (l.2.minutes : ℤ)).sum := by
  have hread : ∀ l ∈ t.logs, ∃ w, s.logs.find l.1 = some w ∧ (w.minutes : ℤ) = l.2.minutes := by
    intro l hl
    obtain ⟨w, hfind, hminutes, -⟩ := h.read l hl
    exact ⟨w, hfind, by rw [hminutes]⟩
  rw [← Table.sum_listed (f := fun _ (w : Log) => (w.minutes : ℤ)) h.distinct hread, linkedMinutes,
    link, Table.sum_amend]
  apply Table.sum_congr
  intro row w hmem
  exact if_congr (h.relink_self (Table.find_of_mem hmem)) rfl rfl

theorem Ready.linkedMinutes_other (h : Ready s t id) {other : ℕ} (hne : other ≠ id) :
    linkedMinutes (link s t id).logs other = linkedMinutes s.logs other := by
  rw [linkedMinutes, link, Table.sum_amend]
  apply Table.sum_congr
  intro row w hmem
  exact if_congr (h.relink_other (Table.find_of_mem hmem) hne) rfl rfl

/-- A worklog that is in the payout after a transaction that is ready was counted. -/
theorem Ready.find_counted (h : Ready s t id) {row : ℕ} (hrow : row ∈ t.counted) :
    ∃ w, (link s t id).logs.find row = some w ∧ w.payoutId = some id := by
  obtain ⟨l, hl, rfl⟩ := List.mem_map.mp hrow
  obtain ⟨w, hfind, -⟩ := h.read l hl
  refine ⟨_, by rw [link, Table.find_amend, hfind]; rfl, ?_⟩
  exact (h.relink_self hfind).mpr hrow

/-- Linking the counted worklogs to the payout that counts them. -/
theorem Sound.link (hs : Sound s) (h : Ready s t id)
    (hpay : p.pay = payOf clock job t) {next : ℕ} (hid : id < next) (hnext : s.nextPayout ≤ next) :
    Sound (link { s with payouts := s.payouts.put id p, nextPayout := next } t id) := by
  have hready : Ready { s with payouts := s.payouts.put id p, nextPayout := next } t id :=
    ⟨h.existing, h.distinct, h.read, h.own⟩
  refine ⟨?_, ?_, ?_, ?_, ?_⟩
  · intro other q hq
    by_cases hne : other = id
    · subst hne
      cases (Table.find_put_self s.payouts other p).symm.trans hq
      rw [hready.linkedMinutes_self, hpay, workedMinutes_payOf]
    · rw [hready.linkedMinutes_other hne]
      exact hs.minutes ((Table.find_put_of_ne s.payouts hne p).symm.trans hq)
  · intro other q hq l hl
    by_cases hne : other = id
    · subst hne
      cases (Table.find_put_self s.payouts other p).symm.trans hq
      rw [hpay] at hl
      exact hready.find_counted (mem_lines_payOf hl)
    · obtain ⟨w, hfind, hw⟩ :=
        hs.lines ((Table.find_put_of_ne s.payouts hne p).symm.trans hq) l hl
      refine ⟨_, by rw [Payouts.link, Table.find_amend, hfind]; rfl, ?_⟩
      exact (h.relink_other hfind hne).mpr hw
  · intro row w other hfind hw
    by_cases hne : other = id
    · subst hne
      exact ⟨p, Table.find_put_self s.payouts other p⟩
    · rw [Payouts.link, Table.find_amend] at hfind
      obtain ⟨w', hfind', rfl⟩ := Option.map_eq_some_iff.mp hfind
      obtain ⟨q, hq⟩ := hs.linked hfind' ((h.relink_other hfind' hne).mp hw)
      exact ⟨q, (Table.find_put_of_ne s.payouts hne p).trans hq⟩
  · intro other hother
    have hle : next ≤ other := hother
    have hne : other ≠ id := by omega
    exact (Table.find_put_of_ne s.payouts hne p).trans (hs.newPayout (by omega))
  · intro row hrow
    rw [Payouts.link, Table.find_amend, hs.newLog hrow]
    rfl

theorem linkedMinutes_deletePayout {other : ℕ} (hne : other ≠ id) :
    linkedMinutes (deletePayout s id).logs other = linkedMinutes s.logs other := by
  rw [linkedMinutes, deletePayout, Table.sum_amend]
  apply Table.sum_congr
  intro row w _
  by_cases hw : w.payoutId = some id
  · simp [hw, hne.symm]
  · simp [hw]

theorem Sound.deletePayout (hs : Sound s) (id : ℕ) : Sound (deletePayout s id) := by
  have hkept : ∀ {other q}, (Payouts.deletePayout s id).payouts.find other = some q →
      other ≠ id ∧ s.payouts.find other = some q := by
    intro other q hq
    simp only [Payouts.deletePayout, Table.find_erase] at hq
    split_ifs at hq with hne
    exact ⟨hne, hq⟩
  refine ⟨?_, ?_, ?_, ?_, ?_⟩
  · intro other q hq
    obtain ⟨hne, hq⟩ := hkept hq
    rw [linkedMinutes_deletePayout hne]
    exact hs.minutes hq
  · intro other q hq l hl
    obtain ⟨hne, hq⟩ := hkept hq
    obtain ⟨w, hfind, hw⟩ := hs.lines hq l hl
    refine ⟨_, by rw [Payouts.deletePayout, Table.find_amend, hfind]; rfl, ?_⟩
    simp [hw, hne]
  · intro row w other hfind hw
    rw [Payouts.deletePayout, Table.find_amend] at hfind
    obtain ⟨w', hfind', rfl⟩ := Option.map_eq_some_iff.mp hfind
    simp only at hw
    split_ifs at hw with hid
    have hne : other ≠ id := by
      rintro rfl
      exact hid hw
    obtain ⟨q, hq⟩ := hs.linked hfind' hw
    exact ⟨q, by rw [Payouts.deletePayout, Table.find_erase, if_neg hne]; exact hq⟩
  · intro other hother
    rw [Payouts.deletePayout, Table.find_erase, hs.newPayout hother, ite_self]
  · intro row hrow
    rw [Payouts.deletePayout, Table.find_amend, hs.newLog hrow]
    rfl

/-- A payout that keeps its figures. -/
theorem Sound.putPayout (hs : Sound s) {q : ContractorPayout} (hfind : s.payouts.find id = some p)
    (hpay : q.pay = p.pay) : Sound { s with payouts := s.payouts.put id q } := by
  have hkept : ∀ {other r}, (s.payouts.put id q).find other = some r →
      ∃ r', s.payouts.find other = some r' ∧ r'.pay = r.pay := by
    intro other r hr
    by_cases hne : other = id
    · subst hne
      rw [Table.find_put_self] at hr
      cases hr
      exact ⟨p, hfind, hpay.symm⟩
    · rw [Table.find_put_of_ne _ hne] at hr
      exact ⟨r, hr, rfl⟩
  refine ⟨?_, ?_, ?_, ?_, hs.newLog⟩
  · intro other r hr
    obtain ⟨r', hr', hsame⟩ := hkept hr
    rw [← hsame]
    exact hs.minutes hr'
  · intro other r hr l hl
    obtain ⟨r', hr', hsame⟩ := hkept hr
    exact hs.lines hr' l (by rwa [hsame])
  · intro row w other hw hother
    by_cases hne : other = id
    · subst hne
      exact ⟨q, Table.find_put_self s.payouts other q⟩
    · obtain ⟨r, hr⟩ := hs.linked hw hother
      exact ⟨r, (Table.find_put_of_ne s.payouts hne q).trans hr⟩
  · intro other hother
    have hne : other ≠ id := by
      rintro rfl
      cases hfind.symm.trans (hs.newPayout hother)
    exact (Table.find_put_of_ne s.payouts hne q).trans (hs.newPayout hother)

/-- A change of the worklogs that keeps the minutes of every payout and every link. -/
theorem Sound.setLogs (hs : Sound s) {logs : Table ℕ Log} {next : ℕ}
    (hminutes : ∀ id, linkedMinutes logs id = linkedMinutes s.logs id)
    (hlinks : ∀ row id, (∃ w, logs.find row = some w ∧ w.payoutId = some id) ↔
      ∃ w, s.logs.find row = some w ∧ w.payoutId = some id)
    (hnew : ∀ row, next ≤ row → logs.find row = none) :
    Sound { s with logs, nextLog := next } := by
  refine ⟨?_, ?_, ?_, hs.newPayout, fun {row} => hnew row⟩
  · intro id p hp
    rw [hminutes]
    exact hs.minutes hp
  · intro id p hp l hl
    exact (hlinks l.workLogId id).mpr (hs.lines hp l hl)
  · intro row w id hfind hw
    obtain ⟨w', hfind', hw'⟩ := (hlinks row id).mp ⟨w, hfind, hw⟩
    exact hs.linked hfind' hw'

/-- A new worklog is in no payout. -/
theorem Sound.create (hs : Sound s) {w : Log} (hw : w.payoutId = none) :
    Sound { s with logs := s.logs.put s.nextLog w, nextLog := s.nextLog + 1 } := by
  have hfresh : s.logs.find s.nextLog = none := hs.newLog (Nat.le_refl _)
  apply hs.setLogs
  · intro id
    rw [linkedMinutes, Table.sum_put, hfresh]
    simp [hw, linkedMinutes]
  · intro row id
    by_cases hne : row = s.nextLog
    · rw [hne, Table.find_put_self, hfresh]
      simp [hw]
    · rw [Table.find_put_of_ne _ hne]
  · intro row hrow
    rw [Table.find_put_of_ne _ (by omega)]
    exact hs.newLog (by omega)

/-- A worklog stays in its payout, and keeps its minutes if it is in one. -/
theorem Sound.update (hs : Sound s) {row : ℕ} {w w' : Log} (hfind : s.logs.find row = some w)
    (hpayout : w'.payoutId = w.payoutId) (hkept : w'.minutes = w.minutes ∨ w.payoutId = none) :
    Sound { s with logs := s.logs.put row w' } := by
  apply hs.setLogs
  · intro id
    rw [linkedMinutes, Table.sum_put, hfind, Option.elim_some, hpayout, ← linkedMinutes]
    rcases hkept with hminutes | hnone
    · rw [hminutes]
      omega
    · simp [hnone]
  · intro row' id
    by_cases hne : row' = row
    · rw [hne, Table.find_put_self, hfind]
      simp [hpayout]
    · rw [Table.find_put_of_ne _ hne]
  · intro row' hrow'
    have hne : row' ≠ row := by
      rintro rfl
      cases hfind.symm.trans (hs.newLog hrow')
    rw [Table.find_put_of_ne _ hne]
    exact hs.newLog hrow'

theorem Sound.remove (hs : Sound s) {row : ℕ} {w : Log} (hfind : s.logs.find row = some w)
    (hnone : w.payoutId = none) : Sound { s with logs := s.logs.erase row } := by
  apply hs.setLogs
  · intro id
    rw [linkedMinutes, Table.sum_erase, hfind]
    simp [hnone, linkedMinutes]
  · intro row' id
    rw [Table.find_erase]
    by_cases hne : row' = row
    · rw [if_pos hne, hne, hfind]
      simp [hnone]
    · rw [if_neg hne]
  · intro row' hrow'
    rw [Table.find_erase, hs.newLog hrow', ite_self]

theorem Sound.logsPaid (hs : Sound s) (id : ℕ) : Sound (writeLogsPaid s id) := by
  apply hs.setLogs
  · intro other
    rw [linkedMinutes, Table.sum_amend, linkedMinutes]
  · intro row other
    rw [Table.find_amend]
    cases s.logs.find row with
    | none => simp
    | some w => simp
  · intro row hrow
    rw [Table.find_amend, hs.newLog hrow]
    rfl

/-! ### One statement -/

theorem ready_of_current (hs : Sound s) (hdistinct : Distinct (.commit job t))
    (hcurrent : current s (.commit job t) = true) {id : ℕ}
    (hid : t.existing = some id ∨ t.existing = none ∧ s.nextPayout ≤ id) : Ready s t id := by
  simp only [current, Bool.decide_and, Bool.and_eq_true, decide_eq_true_eq] at hcurrent
  obtain ⟨-, hread, hown⟩ := hcurrent
  refine ⟨?_, hdistinct, ?_, ?_⟩
  · rcases hid with h | h
    · exact .inr h
    · exact .inl h.1
  · intro l hl
    obtain ⟨w, hfind, hw⟩ := (Option.any_eq_true _ _).mp (List.all_eq_true.mp hread l hl)
    have hw' : w.minutes = l.2.minutes ∧ (w.payoutId = none ∨ w.payoutId = t.existing) := by
      simpa using hw
    refine ⟨w, hfind, hw'.1, ?_⟩
    rcases hw'.2 with hnone | heq
    · exact .inl hnone
    · rcases hid with h | h
      · exact .inr (heq.trans h)
      · exact .inl (heq.trans h.1)
  · intro row w hfind hw
    rcases hid with h | h
    · have hrow := List.all_eq_true.mp hown (row, w) (Table.find_mem hfind)
      have hrow' : row ∈ t.unlinkedLogs ∨ row ∈ t.counted := by
        simpa [hw, h] using hrow
      rcases hrow' with hrow' | hrow'
      · exact .inl ⟨h, hrow'⟩
      · exact .inr hrow'
    · obtain ⟨p, hp⟩ := hs.linked hfind hw
      cases hp.symm.trans (hs.newPayout h.2)

/-- Everything the transaction of `generateOne` can do. -/
theorem writePayout_cases (h : writePayout clock s job t = some s') :
    s' = s ∨
    (∃ id p, t.existing = some id ∧ s.payouts.find id = some p ∧
      (s' = deletePayout s id ∨
        s' = link { s with payouts := s.payouts.put id (redraft clock job t p) } t id)) ∨
    (t.existing = none ∧
      s' = link { s with
        payouts := s.payouts.put s.nextPayout (draftOf clock job t)
        nextPayout := s.nextPayout + 1 } t s.nextPayout) := by
  unfold writePayout at h
  cases hexisting : t.existing with
  | none =>
    rw [hexisting] at h
    simp only at h
    split_ifs at h with hempty htaken
    · cases h
      exact .inl rfl
    · cases h
      exact .inr (.inr ⟨rfl, rfl⟩)
  | some id =>
    rw [hexisting] at h
    simp only at h
    split_ifs at h with hempty
    · obtain ⟨p, hp, rfl⟩ := Option.map_eq_some_iff.mp h
      exact .inr (.inl ⟨id, p, rfl, hp, .inl rfl⟩)
    · obtain ⟨p, hp, rfl⟩ := Option.map_eq_some_iff.mp h
      exact .inr (.inl ⟨id, p, rfl, hp, .inr rfl⟩)

theorem sound_writePayout (hs : Sound s) (hdistinct : Distinct (.commit job t))
    (hcurrent : current s (.commit job t) = true) (h : writePayout clock s job t = some s') :
    Sound s' := by
  rcases writePayout_cases h with rfl | ⟨id, p, hexisting, hp, rfl | rfl⟩ | ⟨hexisting, rfl⟩
  · exact hs
  · exact hs.deletePayout id
  · have hready := ready_of_current hs hdistinct hcurrent (.inl hexisting)
    have hid : id < s.nextPayout := by
      by_contra hle
      cases hp.symm.trans (hs.newPayout (by omega))
    exact hs.link hready rfl hid (Nat.le_refl _)
  · have hready := ready_of_current hs hdistinct hcurrent (.inr ⟨hexisting, Nat.le_refl _⟩)
    exact hs.link hready rfl (Nat.lt_succ_self _) (Nat.le_succ _)

theorem sound_next (hs : Sound s) {pc pc' : Pc} (hdistinct : Distinct pc)
    (hcurrent : current s pc = true) (h : next clock s now pc = some (s', pc')) : Sound s' := by
  cases pc with
  | rest error => cases h
  | generating job | unlinkLogs job t | unlinkShifts job t | readLogs job t | readShifts job t =>
    cases h
    exact hs
  | commit job t =>
    cases h
    cases hwrite : writePayout clock s job t with
    | none => exact hs
    | some s' => exact sound_writePayout hs hdistinct hcurrent hwrite
  | issuing id =>
    simp only [next] at h
    split at h
    · cases h
      exact hs
    · next p hp =>
      cases h
      exact hs.putPayout hp rfl
  | paying id read paidReference paidAt actorId =>
    simp only [next] at h
    split at h
    · cases h
      exact hs
    · next p hp =>
      cases h
      have hput := hs.putPayout (q := writePaid read paidReference paidAt actorId now p) hp rfl
      exact hput.logsPaid id
  | creating w calendar =>
    cases h
    exact hs.create rfl
  | updating id dto =>
    simp only [next] at h
    split at h
    · cases h
      exact hs
    · next w hw =>
      cases h
      have hkept : dto.minutes = none ∨ w.payoutId = none := by
        simpa [current, hw] using hcurrent
      have hpayout : (writeLog dto w).payoutId = w.payoutId := rfl
      apply hs.update hw hpayout
      rcases hkept with hminutes | hnone
      · left
        rw [writeLog, hminutes]
        rfl
      · exact .inr hnone
  | removing id =>
    simp only [next] at h
    split at h
    · cases h
      exact hs
    · next w hw =>
      cases h
      exact hs.remove hw (by simpa [current, hw] using hcurrent)

/-- The draft that is computed anew or deleted is no issued payout. -/
theorem frozen_writePayout (hs : Sound s) (hcurrent : current s (.commit job t) = true)
    (h : writePayout clock s job t = some s') (hfind : s.payouts.find id = some p)
    (hissued : p.status ≠ .draft) :
    ∃ p', s'.payouts.find id = some p' ∧ p'.status ≠ .draft ∧ p'.pay = p.pay := by
  simp only [current, Bool.decide_and, Bool.and_eq_true, decide_eq_true_eq] at hcurrent
  have hne : t.existing ≠ some id := by
    intro hexisting
    have hdraft := hcurrent.1
    simp only [hexisting, Option.all_some, hfind, decide_eq_true_eq] at hdraft
    exact hissued hdraft
  rcases writePayout_cases h with rfl | ⟨other, q, hexisting, hq, rfl | rfl⟩ | ⟨hexisting, rfl⟩
  · exact ⟨p, hfind, hissued, rfl⟩
  · have hother : id ≠ other := by
      rintro rfl
      exact hne hexisting
    exact ⟨p, by rw [deletePayout, Table.find_erase, if_neg hother]; exact hfind, hissued, rfl⟩
  · have hother : id ≠ other := by
      rintro rfl
      exact hne hexisting
    exact ⟨p, (Table.find_put_of_ne _ hother _).trans hfind, hissued, rfl⟩
  · have hother : id ≠ s.nextPayout := by
      rintro rfl
      cases hfind.symm.trans (hs.newPayout (Nat.le_refl _))
    exact ⟨p, (Table.find_put_of_ne _ hother _).trans hfind, hissued, rfl⟩

theorem distinct_next {pc pc' : Pc} (hdistinct : Distinct pc)
    (h : next clock s now pc = some (s', pc')) : Distinct pc' := by
  cases pc with
  | rest error => cases h
  | generating job =>
    cases h
    unfold readExisting
    split
    · trivial
    · simp only
      split
      · trivial
      · split_ifs <;> trivial
  | unlinkLogs job t | unlinkShifts job t | creating w calendar =>
    cases h
    trivial
  | commit job t =>
    cases h
    trivial
  | readLogs job t =>
    cases h
    have hperm := (List.perm_insertionSort
      (fun a b : ℕ × Log => a.2.workedAt ≤ b.2.workedAt) (s.logs.rows.filter fun e =>
        e.2.userId = t.engineer.userId ∧ e.2.status = .approved ∧
          unpaid t.unlinkedLogs e.2.payoutId e.1 ∧ e.2.workedAt < monthMs (job.period + 1))).map
      Prod.fst
    exact hperm.nodup_iff.mpr (s.logs.unique.sublist (List.filter_sublist.map Prod.fst))
  | readShifts job t =>
    cases h
    exact hdistinct
  | issuing id | paying id read paidReference paidAt actorId | updating id dto | removing id =>
    simp only [next] at h
    split at h <;> cases h <;> trivial

theorem distinct_begin (s : Books) (now : ℕ) (c : Call) : Distinct (begin s now c) := by
  cases c with
  | generate job | create w calendar => trivial
  | setStatus actorId id dto =>
    simp only [begin, readStatus]
    split
    · trivial
    · split
      · split_ifs <;> trivial
      · split_ifs
        · trivial
        · split <;> trivial
  | update actor id dto | remove actor id =>
    simp only [begin]
    split <;> trivial

/-- A payout that was issued keeps its figures, and is not a draft again. -/
theorem frozen_next (hs : Sound s) {pc pc' : Pc} (hcurrent : current s pc = true)
    (h : next clock s now pc = some (s', pc')) (hfind : s.payouts.find id = some p)
    (hissued : p.status ≠ .draft) :
    ∃ p', s'.payouts.find id = some p' ∧ p'.status ≠ .draft ∧ p'.pay = p.pay := by
  have hkept : ∃ p', s.payouts.find id = some p' ∧ p'.status ≠ .draft ∧ p'.pay = p.pay :=
    ⟨p, hfind, hissued, rfl⟩
  have hput : ∀ {other : ℕ} {q q' : ContractorPayout}, s.payouts.find other = some q →
      q'.status ≠ .draft → q'.pay = q.pay →
      ∃ p', (s.payouts.put other q').find id = some p' ∧ p'.status ≠ .draft ∧ p'.pay = p.pay := by
    intro other q q' hq hstatus hpay
    by_cases hne : id = other
    · subst hne
      cases hfind.symm.trans hq
      exact ⟨q', Table.find_put_self _ _ _, hstatus, hpay⟩
    · exact ⟨p, (Table.find_put_of_ne _ hne _).trans hfind, hissued, rfl⟩
  cases pc with
  | rest error => cases h
  | generating job | unlinkLogs job t | unlinkShifts job t | readLogs job t | readShifts job t =>
    cases h
    exact hkept
  | commit job t =>
    cases h
    cases hwrite : writePayout clock s job t with
    | none => exact hkept
    | some s' => exact frozen_writePayout hs hcurrent hwrite hfind hissued
  | issuing id' =>
    simp only [next] at h
    split at h
    · cases h
      exact hkept
    · next q hq =>
      cases h
      exact hput hq (by simp [writeIssued]) rfl
  | paying id' read paidReference paidAt actorId =>
    simp only [next] at h
    split at h
    · cases h
      exact hkept
    · next q hq =>
      cases h
      exact hput hq (by simp [writePaid]) rfl
  | creating w calendar =>
    cases h
    exact hkept
  | updating id' dto | removing id' =>
    simp only [next] at h
    split at h <;> cases h <;> exact hkept

end

/-! ### Every interleaving -/

section
variable {clock : String → ℕ → ℕ × ℕ}

/-- What holds of the books and of every call that is under way. -/
def Kept (w : World) : Prop := Sound w.shared ∧ ∀ q, Distinct (w.pc q)

theorem kept_step {w : World} {a : ℕ × Act} (hcurrent : Current w a = true) (h : Kept w) :
    Kept (step clock w a) := by
  rcases callerStep_cases (trans clock) w a with heq | ⟨s, pc, ht, heq⟩
  · rw [step, heq]
    exact h
  · rw [step, heq]
    unfold trans at ht
    split at ht
    · cases ht
      exact ⟨h.1, update_cases (P := fun _ pc => Distinct pc) (distinct_begin _ _ _)
        fun q _ => h.2 q⟩
    · exact ⟨sound_next h.1 (h.2 a.1) hcurrent ht,
        update_cases (P := fun _ pc => Distinct pc) (distinct_next (h.2 a.1) ht) fun q _ => h.2 q⟩
    · cases ht

theorem frozen_step {w : World} {a : ℕ × Act} {id : ℕ} {pay : Pay}
    (hcurrent : Current w a = true) (h : Sound w.shared)
    (hfind : ∃ p, w.shared.payouts.find id = some p ∧ p.status ≠ .draft ∧ p.pay = pay) :
    ∃ p, (step clock w a).shared.payouts.find id = some p ∧ p.status ≠ .draft ∧ p.pay = pay := by
  rcases callerStep_cases (trans clock) w a with heq | ⟨s, pc, ht, heq⟩
  · rw [step, heq]
    exact hfind
  · rw [step, heq]
    unfold trans at ht
    split at ht
    · cases ht
      exact hfind
    · obtain ⟨p, hp, hissued, rfl⟩ := hfind
      exact frozen_next h hcurrent ht hp hissued
    · cases ht

theorem kept_start (logs : Table ℕ Log) (shifts : Table ℕ Shift) : Kept (start logs shifts) := by
  refine ⟨⟨?_, ?_, ?_, fun _ => rfl, ?_⟩, fun _ => trivial⟩
  · intro id p hp
    cases hp
  · intro id p hp
    cases hp
  · intro row w id hfind hw
    rw [start, Table.find_amend] at hfind
    obtain ⟨w', -, rfl⟩ := Option.map_eq_some_iff.mp hfind
    cases hw
  · intro row hrow
    rw [start, Table.find_amend, Option.map_eq_none_iff]
    exact Table.find_of_fresh_le hrow

/-- No worklog is a line of two payouts. -/
theorem Sound.disjoint {s : Books} (hs : Sound s) {id id' : ℕ} {p p' : ContractorPayout}
    (hp : s.payouts.find id = some p) (hp' : s.payouts.find id' = some p') (hne : id ≠ id')
    {l l' : PayLine} (hl : l ∈ p.pay.lines) (hl' : l' ∈ p'.pay.lines) :
    l.workLogId ≠ l'.workLogId := by
  intro heq
  obtain ⟨w, hfind, hw⟩ := hs.lines hp l hl
  obtain ⟨w', hfind', hw'⟩ := hs.lines hp' l' hl'
  rw [heq] at hfind
  cases hfind.symm.trans hfind'
  exact hne (Option.some.inj (hw.symm.trans hw'))

end

/-- In every interleaving in which each write meets what its call has read and no linked
worklog is edited: an issued payout keeps its figures, it counts the minutes of the worklogs
that are linked to it, and no worklog is counted in two payouts. -/
theorem issued_payouts_frozen (clock : String → ℕ → ℕ × ℕ) (logs : Table ℕ Log)
    (shifts : Table ℕ Shift) (acts later : List (ℕ × Act))
    (h : Meets (step clock) (fun w a => Current w a = true) (start logs shifts) (acts ++ later)) :
    let before := (run (step clock) (start logs shifts) acts).shared
    let after := (run (step clock) (start logs shifts) (acts ++ later)).shared
    (∀ id p, before.payouts.find id = some p → p.status ≠ .draft →
      ∃ p', after.payouts.find id = some p' ∧ p'.status ≠ .draft ∧ p'.pay = p.pay) ∧
    (∀ id p, after.payouts.find id = some p → p.status ≠ .draft →
      (p.pay.workedMinutes : ℤ) = linkedMinutes after.logs id) ∧
    ∀ id id' p p', after.payouts.find id = some p → after.payouts.find id' = some p' → id ≠ id' →
      ∀ l ∈ p.pay.lines, ∀ l' ∈ p'.pay.lines, l.workLogId ≠ l'.workLogId := by
  intro before after
  have hstep : ∀ w a, Current w a = true → Kept w → Kept (step clock w a) :=
    fun w a hc hw => kept_step hc hw
  obtain ⟨hacts, hlater⟩ := meets_append.mp h
  have hbefore := hacts.invariant hstep (kept_start logs shifts)
  have hafter := h.invariant hstep (kept_start logs shifts)
  refine ⟨?_, ?_, ?_⟩
  · intro id p hp hissued
    have hboth := hlater.invariant
      (I := fun w : World => Kept w ∧
        ∃ p', w.shared.payouts.find id = some p' ∧ p'.status ≠ .draft ∧ p'.pay = p.pay)
      (fun w a hc hw => ⟨kept_step hc hw.1, frozen_step hc hw.1.1 hw.2⟩)
      ⟨hbefore, p, hp, hissued, rfl⟩
    rw [← run_append] at hboth
    exact hboth.2
  · intro id p hp _
    exact hafter.1.minutes hp
  · intro id id' p p' hp hp' hne l hl l' hl'
    exact hafter.1.disjoint hp hp' hne hl hl'

/-! ## An hour of one engineer -/

/-- Both calendars are three hours ahead of UTC. -/
def threeAhead (_ : String) (at' : ℕ) : ℕ × ℕ := ((at' / 3600000 + 3) % 24, at' / 60000 % 60)

/-- One approved hour, in the day. -/
def oneHour : Table ℕ Log := Table.empty.put 0
  { contractId := 0, userId := 1, minutes := 60, billable := true, status := .approved
    source := .manual, workedAt := 32400000, calendar := .sa }

def january : Job := ⟨0, [⟨5, 1, some 6000, none, 3 / 2⟩], 22, 6⟩

/-- `generate` by this caller, from its call to the read of the draft, and the rest of it. -/
def reading (caller : ℕ) : List (ℕ × Act) :=
  [(caller, .call 0 (.generate january)), (caller, .next 0)]
def writing (caller : ℕ) : List (ℕ × Act) := List.replicate 6 (caller, .next 0)

def issued : List (ℕ × Act) := [(1, .call 1 (.setStatus none 0 .issued)), (1, .next 1)]

/-- The engineer sets the entry to two hours. -/
def edited : List (ℕ × Act) :=
  [(2, .call 2 (.update ⟨1, false⟩ 0 ⟨none, some 120, none, none⟩)), (2, .next 2)]

def books (acts : List (ℕ × Act)) : Books :=
  (run (step threeAhead) (start oneHour .empty) acts).shared

/-- The state, the minutes and the amount of the first payout, and the minutes that are
linked to it. -/
def firstPayout (acts : List (ℕ × Act)) : Option (PayoutStatus × ℕ × ℤ × ℤ) :=
  ((books acts).payouts.find 0).map fun p =>
    (p.status, p.pay.workedMinutes, p.pay.totalMinor, linkedMinutes (books acts).logs 0)

theorem issued_payouts_frozen_one_hour :
    firstPayout (edited ++ reading 0 ++ writing 0 ++ issued) = some (.issued, 120, 12000, 120) ∧
      ∃ p, (books (edited ++ reading 0 ++ writing 0 ++ issued ++
        (reading 3 ++ writing 3))).payouts.find 0 = some p ∧
          p.status ≠ .draft ∧ p.pay.workedMinutes = 120 := by
  have hfirst : firstPayout (edited ++ reading 0 ++ writing 0 ++ issued) =
      some (.issued, 120, 12000, 120) := by decide +kernel
  obtain ⟨p, hp, hfigures⟩ := Option.map_eq_some_iff.mp hfirst
  simp only [Prod.mk.injEq] at hfigures
  obtain ⟨hkept, -⟩ := issued_payouts_frozen threeAhead oneHour .empty
    (edited ++ reading 0 ++ writing 0 ++ issued) (reading 3 ++ writing 3) (by decide)
  obtain ⟨p', hp', hissued, hpay⟩ := hkept 0 p hp (by simp [hfigures.1])
  exact ⟨hfirst, p', hp', hissued, by rw [hpay]; exact hfigures.2.1⟩

/-- The hour is edited after its payout was issued: the payout says one hour, the worklog
two. And where the draft is read before it is issued and computed anew after it, the figures
of an issued payout change. -/
theorem issued_payout_changes :
    firstPayout (reading 0 ++ writing 0 ++ issued ++ edited) = some (.issued, 60, 6000, 120) ∧
      firstPayout (reading 0 ++ writing 0 ++ edited ++ reading 3 ++ issued) =
        some (.issued, 60, 6000, 120) ∧
      firstPayout (reading 0 ++ writing 0 ++ edited ++ reading 3 ++ issued ++ writing 3) =
        some (.issued, 120, 12000, 120) := by
  refine ⟨?_, ?_, ?_⟩
  · decide +kernel
  · decide +kernel
  · decide +kernel

end Prgd.Payouts
