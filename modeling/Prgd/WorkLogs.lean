import Prgd.ApiError
import Prgd.Calendar
import Prgd.Contracts
import Prgd.Rating
import Prgd.Table

/-!
# Engineer time and its billing

The worklogs of managed contracts and everything that writes them: staff entries
(`WorkLogsService`), timers and timesheets with their review, payouts, the monthly
accrual of the managed lines (`ManagedBillingService.accrueContract`) and the
invoice run with `linkManagedWorkLogs`. Each operation is one step; what it asks of
tables that are not part of the model is in its arguments. Times are milliseconds.
-/
namespace Prgd.WorkLogs
open Calendar Rating

inductive WorkLogStatus where
  | draft | submitted | approved | rejected | paid
  deriving DecidableEq, Repr

def WorkLogStatus.name : WorkLogStatus → String
  | .draft => "draft"
  | .submitted => "submitted"
  | .approved => "approved"
  | .rejected => "rejected"
  | .paid => "paid"

/-- `COUNTED_WORKLOG`. -/
def countedWorklog : List WorkLogStatus := [.approved, .paid]

inductive Source where
  | timer | manual
  deriving DecidableEq

structure WorkLog where
  contractId : ℕ
  userId : ℕ
  minutes : ℕ
  billable : Bool
  status : WorkLogStatus
  source : Source
  workedAt : ℕ
  startedAt : Option ℕ := none
  billedPeriod : Option ℕ := none
  billedInvoiceId : Option ℕ := none
  deriving DecidableEq

abbrev Logs := Table ℕ WorkLog

inductive ResourceType where
  | managedPlan | managedOverage
  /-- Servers, volumes and everything else that is rated by the hour. -/
  | metered
  deriving DecidableEq

/-- The unique key of a usage record. -/
structure RecordKey where
  resourceType : ResourceType
  resourceId : ℕ
  hourStart : ℕ
  deriving DecidableEq

structure UsageRecord where
  projectId : ℕ
  quantity : ℚ
  unit : String
  amountMinor : ℤ
  invoiceId : Option ℕ := none
  /-- Not a column: the worklogs, with their minutes, that the amounts were computed from. -/
  counted : List (ℕ × ℕ) := []

abbrev Records := Table RecordKey UsageRecord

/-- What an accrual of a contract counted for a month. -/
structure Accrual where
  contractId : ℕ
  period : ℕ
  counted : List (ℕ × ℕ)

structure Desk where
  logs : Logs
  nextId : ℕ
  records : Records
  /-- The teams and months that have an invoice; the place in the list is its id. -/
  invoices : List (ℕ × ℕ)
  /-- Not tables: every accrual, and every worklog that was linked with its invoice. -/
  accruals : List Accrual
  links : List (ℕ × ℕ)

def Desk.empty : Desk := ⟨.empty, 0, .empty, [], [], []⟩

/-- The first moment of a month. -/
def monthMs (month : ℕ) : ℕ := 3600000 * monthStart month

/-! ## Entries of staff -/

structure Actor where
  userId : ℕ
  isLead : Bool

/-- The result of looking up a ticket that was named: whether it is one of the contract. -/
def checkTicket : Option Bool → Except ApiError Unit
  | some false => .error (.invalid "The ticket does not belong to this contract" [])
  | _ => .ok ()

def checkWhen (now : ℕ) : Option ℕ → Except ApiError Unit
  | some workedAt =>
      if now + 86400000 < workedAt then .error (.invalid "workedAt cannot be in the future" [])
      else .ok ()
  | none => .ok ()

structure WorkLogInput where
  contractId : ℕ
  ticket : Option Bool
  userId : Option ℕ
  minutes : ℕ
  billable : Option Bool
  workedAt : Option ℕ

/-- A new row. -/
def Desk.insert (d : Desk) (w : WorkLog) : Desk :=
  { d with logs := d.logs.put d.nextId w, nextId := d.nextId + 1 }

def create (d : Desk) (actor : Actor) (dto : WorkLogInput) (contract : Option Contracts.Status)
    (now : ℕ) : Except ApiError Desk := do
  match contract with
  | none => throw (.notFound "managed contract" (toString dto.contractId))
  | some .draft => throw (.invalidState "Log time once the contract is onboarding")
  | some _ => pure ()
  let userId := dto.userId.getD actor.userId
  if userId ≠ actor.userId ∧ ¬ actor.isLead then
    throw (.forbidden "Only a support lead can log time for someone else")
  checkTicket dto.ticket
  checkWhen now dto.workedAt
  return d.insert {
    contractId := dto.contractId
    userId := userId
    minutes := dto.minutes
    billable := dto.billable.getD true
    status := .approved
    source := .manual
    workedAt := dto.workedAt.getD now }

def editable (d : Desk) (actor : Actor) (id : ℕ) : Except ApiError WorkLog :=
  match d.logs.find id with
  | none => .error (.notFound "worklog" (toString id))
  | some w =>
      if w.userId ≠ actor.userId ∧ ¬ actor.isLead then
        .error (.forbidden "Only a support lead can change someone else's time")
      else if w.billedPeriod.isSome ∨ w.billedInvoiceId.isSome then
        .error (.invalidState "This entry was already billed; add a correcting entry instead")
      else if w.status = .paid then
        .error (.invalidState "This entry was paid to the engineer; add a correcting entry instead")
      else .ok w

structure WorkLogChange where
  ticket : Option Bool
  minutes : Option ℕ
  billable : Option Bool
  workedAt : Option ℕ

def update (d : Desk) (actor : Actor) (id : ℕ) (dto : WorkLogChange) (now : ℕ) :
    Except ApiError Desk := do
  let w ← editable d actor id
  checkTicket dto.ticket
  checkWhen now dto.workedAt
  return { d with logs := d.logs.put id { w with
    minutes := dto.minutes.getD w.minutes
    billable := dto.billable.getD w.billable
    workedAt := dto.workedAt.getD w.workedAt } }

def remove (d : Desk) (actor : Actor) (id : ℕ) : Except ApiError Desk := do
  let _ ← editable d actor id
  return { d with logs := d.logs.erase id }

/-! ## Timers and timesheets -/

def billedMinutes (start stop : ℕ) : ℕ := max 1 ((stop - start + 59999) / 60000)

/-- Stopping a timer writes a draft. -/
def stopTimer (d : Desk) (contractId userId startedAt stoppedAt : ℕ) (billable : Option Bool) : Desk :=
  d.insert {
    contractId := contractId
    userId := userId
    minutes := billedMinutes startedAt stoppedAt
    billable := billable.getD true
    status := .draft
    source := .timer
    workedAt := startedAt
    startedAt := some startedAt }

structure ManualEntry where
  ticketId : Option ℕ
  maintenanceRunId : Option ℕ
  /-- The contract of the ticket or of the maintenance run. -/
  contractId : ℕ
  minutes : ℕ
  startedAt : ℕ
  billable : Option Bool

def createManual (d : Desk) (userId : ℕ) (dto : ManualEntry) (now : ℕ) : Except ApiError Desk := do
  if dto.ticketId.isSome = dto.maintenanceRunId.isSome then
    throw (.invalid "Pass ticketId or maintenanceRunId" [])
  if now + 60000 < dto.startedAt + 60000 * dto.minutes then
    throw (.invalid "A manual entry cannot end in the future" [])
  return d.insert {
    contractId := dto.contractId
    userId := userId
    minutes := dto.minutes
    billable := dto.billable.getD true
    status := .draft
    source := .manual
    workedAt := dto.startedAt
    startedAt := some dto.startedAt }

/-- The engineer and the contracts it is restricted to. -/
structure OpsContext where
  userId : ℕ
  contractIds : Option (List ℕ)

def contractFilter (ops : OpsContext) (contractId : ℕ) : Bool :=
  match ops.contractIds with
  | none => true
  | some ids => contractId ∈ ids

def own (d : Desk) (ops : OpsContext) (id : ℕ) : Except ApiError WorkLog :=
  match (d.logs.find id).filter fun w => w.userId = ops.userId ∧ contractFilter ops w.contractId with
  | none => .error (.notFound "worklog" (toString id))
  | some w =>
      if w.status ≠ .draft ∧ w.status ≠ .rejected then
        .error (.invalidState ("A " ++ w.status.name ++ " entry cannot be changed"))
      else .ok w

structure EntryChange where
  minutes : Option ℕ
  startedAt : Option ℕ
  billable : Option Bool

def updateEntry (d : Desk) (ops : OpsContext) (id : ℕ) (dto : EntryChange) :
    Except ApiError Desk := do
  let w ← own d ops id
  if w.source = .timer ∧ (dto.minutes.isSome ∨ dto.startedAt.isSome) then
    throw (.invalid
      "Timer entries keep their time; add a manual entry with a reason for a correction" [])
  let startedAt := (dto.startedAt.or w.startedAt).getD w.workedAt
  return { d with logs := d.logs.put id { w with
    minutes := dto.minutes.getD w.minutes
    billable := dto.billable.getD w.billable
    startedAt := some startedAt
    workedAt := startedAt
    status := .draft } }

def deleteEntry (d : Desk) (ops : OpsContext) (id : ℕ) : Except ApiError Desk := do
  let _ ← own d ops id
  return { d with logs := d.logs.erase id }

/-- The half-open range of a month or a week, with its label. -/
structure Range where
  start : ℕ
  stop : ℕ
  label : String

def Range.holds (r : Range) (t : ℕ) : Bool := r.start ≤ t ∧ t < r.stop

def isDraftOf (userId : ℕ) (r : Range) (w : WorkLog) : Bool :=
  w.userId = userId ∧ w.status = .draft ∧ r.holds w.workedAt

/-- Rewrites the rows that a query finds. -/
def Desk.updateMany (d : Desk) (found : ℕ → WorkLog → Bool) (g : WorkLog → WorkLog) : Desk :=
  { d with logs := d.logs.amend fun id w => if found id w then g w else w }

def submit (d : Desk) (ops : OpsContext) (r : Range) : Except ApiError Desk := do
  if ¬ d.logs.rows.any (fun e => isDraftOf ops.userId r e.2) then
    throw (.invalidState ("Nothing to submit for " ++ r.label))
  return d.updateMany (fun _ => isDraftOf ops.userId r) fun w => { w with status := .submitted }

inductive Decision where
  | approved | rejected
  deriving DecidableEq

def Decision.status : Decision → WorkLogStatus
  | .approved => .approved
  | .rejected => .rejected

structure Review where
  decision : Decision
  workLogIds : List ℕ
  month : Option Range
  /-- Whether there is a comment that is not blank. -/
  commented : Bool

def Review.covers (dto : Review) (engineerUserId id : ℕ) (w : WorkLog) : Bool :=
  w.userId = engineerUserId ∧ w.status = .submitted ∧ (dto.workLogIds = [] ∨ id ∈ dto.workLogIds) ∧
    dto.month.all (·.holds w.workedAt)

def review (d : Desk) (actor : Actor) (engineerUserId : ℕ) (dto : Review) :
    Except ApiError Desk := do
  if engineerUserId = actor.userId then throw (.forbidden "You cannot approve your own time")
  if dto.decision = .rejected ∧ ¬ dto.commented then
    throw (.invalid "A rejection needs a comment" [])
  if dto.workLogIds = [] ∧ dto.month = none then
    throw (.invalid "Pass workLogIds or month" [])
  let rows := d.logs.rows.filter fun e => dto.covers engineerUserId e.1 e.2
  if dto.workLogIds ≠ [] ∧ rows.length ≠ dto.workLogIds.dedup.length then
    throw (.invalidState "Only submitted entries of this engineer can be reviewed")
  if rows = [] then throw (.invalidState "Nothing is waiting for review")
  return d.updateMany (dto.covers engineerUserId) fun w => { w with status := dto.decision.status }

/-- The entries of a payout that is paid. -/
def payPayout (d : Desk) (workLogIds : List ℕ) : Desk :=
  d.updateMany (fun id w => id ∈ workLogIds ∧ w.status = .approved) fun w => { w with status := .paid }

/-! ## The monthly accrual -/

/-- One suspension cut out of what is billed. The cuts are sorted by their start. -/
def cut (s : ℤ × ℕ) (c : ℕ × ℕ) : ℤ × ℕ :=
  let start := max c.1 s.2
  if start < c.2 then (s.1 - (c.2 - start), c.2) else s

def billableFraction (start stop : ℕ) (activatedAt : ℕ) (cancelledAt : Option ℕ)
    (suspensions : List (ℕ × Option ℕ)) : ℚ :=
  let first := max start activatedAt
  let last := min stop (cancelledAt.getD stop)
  if last ≤ first then 0
  else
    let cuts := ((suspensions.map fun s => (max first s.1, min last (s.2.getD stop))).filter
      fun s => s.1 < s.2).mergeSort fun a b => a.1 ≤ b.1
    let billed := (cuts.foldl cut ((last : ℤ) - first, first)).1
    max 0 billed / ((stop : ℤ) - start)

structure ContractTerms where
  monthlyFeeMinor : Option ℤ
  hourlyRateMinor : ℤ
  includedEngineerMinutes : ℕ

/-- A contract as the accrual reads it, with its terms and the oldest project of its team. -/
structure Contract where
  id : ℕ
  project : Option ℕ
  terms : ContractTerms
  activatedAt : ℕ
  cancelledAt : Option ℕ
  /-- The closed suspensions, and the one that lasts when there is one. -/
  suspensions : List (ℕ × Option ℕ)
  /-- `convert` to the currency of the team. -/
  toInvoice : ℤ → ℤ

def Contract.fraction (c : Contract) (month : ℕ) : ℚ :=
  billableFraction (monthMs month) (monthMs (month + 1)) c.activatedAt c.cancelledAt c.suspensions

def Contract.planMinor (c : Contract) (month : ℕ) : ℤ :=
  match c.terms.monthlyFeeMinor with
  | none => 0
  | some fee => if fee = 0 then 0 else c.toInvoice (mathRound (fee * c.fraction month))

/-- The filter on the worklogs of a contract that a month counts. -/
def counts (contractId month : ℕ) (w : WorkLog) : Bool :=
  w.contractId = contractId ∧ w.billable ∧ w.status ∈ countedWorklog ∧ w.billedInvoiceId = none ∧
    w.workedAt < monthMs (month + 1) ∧
    (w.billedPeriod = none ∨ w.billedPeriod = some (monthMs month))

def countedLogs (logs : Logs) (contractId month : ℕ) : List (ℕ × ℕ) :=
  (logs.rows.filter fun e => counts contractId month e.2).map fun e => (e.1, e.2.minutes)

/-- Minutes past the included ones. -/
def Contract.overageMinutes (c : Contract) (counted : List (ℕ × ℕ)) : ℕ :=
  (counted.map Prod.snd).sum - c.terms.includedEngineerMinutes

def Contract.overageMinor (c : Contract) (counted : List (ℕ × ℕ)) : ℤ :=
  c.toInvoice (mathRound ((c.overageMinutes counted : ℚ) / 60 * c.terms.hourlyRateMinor))

/-- A managed line of a month: written when there is an amount, else deleted unless invoiced. -/
def upsert (records : Records) (key : RecordKey) (projectId : ℕ) (amountMinor : ℤ) (quantity : ℚ)
    (unit : String) (counted : List (ℕ × ℕ)) : Records :=
  if amountMinor ≤ 0 then
    if (records.find key).any (·.invoiceId.isSome) then records else records.erase key
  else match records.find key with
    | none => records.put key
        { projectId := projectId, quantity := quantity, unit := unit, amountMinor := amountMinor,
          counted := counted }
    | some r => records.put key
        { r with projectId := projectId, quantity := quantity, amountMinor := amountMinor,
                 counted := counted }

def planKey (contractId month : ℕ) : RecordKey := ⟨.managedPlan, contractId, monthMs month⟩
def overageKey (contractId month : ℕ) : RecordKey := ⟨.managedOverage, contractId, monthMs month⟩

def invoiced (records : Records) (contractId month : ℕ) : Bool :=
  (records.find (planKey contractId month)).any (·.invoiceId.isSome) ||
    (records.find (overageKey contractId month)).any (·.invoiceId.isSome)

def roundTo (places : ℕ) (q : ℚ) : ℚ := mathRound (q * places) / places

/-- A contract without a project, or with a line of the month on an invoice, is skipped. -/
def accrueContract (d : Desk) (c : Contract) (month : ℕ) : Desk :=
  match c.project with
  | none => d
  | some projectId =>
      if invoiced d.records c.id month then d
      else
        let counted := countedLogs d.logs c.id month
        let plan := upsert d.records (planKey c.id month) projectId (c.planMinor month)
          (roundTo 10000 (c.fraction month)) "month" counted
        let records := upsert plan (overageKey c.id month) projectId (c.overageMinor counted)
          (roundTo 100 ((c.overageMinutes counted : ℚ) / 60)) "hour" counted
        { d with
          records := records
          logs := d.logs.amend fun id w =>
            if id ∈ counted.map Prod.fst then { w with billedPeriod := some (monthMs month) } else w
          accruals := ⟨c.id, monthMs month, counted⟩ :: d.accruals }

/-! ## The invoice run -/

def isManaged : ResourceType → Bool
  | .managedPlan | .managedOverage => true
  | .metered => false

/-- The filter of the link: counted for the month of a line and on no invoice. -/
def linkable (line : ℕ × ℕ) (w : WorkLog) : Bool :=
  w.contractId = line.1 ∧ w.billedPeriod = some line.2 ∧ w.billedInvoiceId = none

def linkLine (invoiceId : ℕ) (d : Desk) (line : ℕ × ℕ) : Desk :=
  { d.updateMany (fun _ => linkable line) fun w => { w with billedInvoiceId := some invoiceId } with
    links := (d.logs.rows.filter fun e => linkable line e.2).map (fun e => (e.1, invoiceId)) ++ d.links }

local instance lawfulBEqLine : LawfulBEq (ℕ × ℕ) := inferInstance

/-- Each contract and month among the lines is linked once. -/
def linkLines (invoiceId : ℕ) : Desk → List (ℕ × ℕ) → List (ℕ × ℕ) → Desk
  | d, _, [] => d
  | d, seen, line :: lines =>
      if line ∈ seen then linkLines invoiceId d seen lines
      else linkLines invoiceId (linkLine invoiceId d line) (line :: seen) lines

def linkManagedWorkLogs (d : Desk) (invoiceId : ℕ) : Desk :=
  linkLines invoiceId d [] ((d.records.rows.filter fun e =>
    isManaged e.1.resourceType ∧ e.2.invoiceId = some invoiceId).map
      fun e => (e.1.resourceId, e.1.hourStart))

structure Team where
  id : ℕ
  projects : List ℕ

def unbilled (team : Team) (month : ℕ) (k : RecordKey) (r : UsageRecord) : Bool :=
  r.projectId ∈ team.projects ∧ monthMs month ≤ k.hourStart ∧ k.hourStart < monthMs (month + 1) ∧
    r.invoiceId = none

/-- The part of `issueForTeam` that concerns usage records and worklogs. -/
def issueForTeam (d : Desk) (team : Team) (month : ℕ) : Desk :=
  if (team.id, month) ∈ d.invoices then d
  else if ((d.records.rows.filter fun e => unbilled team month e.1 e.2).map
      (·.2.amountMinor)).sum ≤ 0 then d
  else
    let invoiceId := d.invoices.length
    linkManagedWorkLogs
      { d with
        invoices := d.invoices ++ [(team.id, month)]
        records := d.records.amend fun k r =>
          if unbilled team month k r then { r with invoiceId := some invoiceId } else r }
      invoiceId

/-! ## Runs -/

inductive Act where
  | create (actor : Actor) (dto : WorkLogInput) (contract : Option Contracts.Status) (now : ℕ)
  | update (actor : Actor) (id : ℕ) (dto : WorkLogChange) (now : ℕ)
  | remove (actor : Actor) (id : ℕ)
  | stopTimer (contractId userId startedAt stoppedAt : ℕ) (billable : Option Bool)
  | createManual (userId : ℕ) (dto : ManualEntry) (now : ℕ)
  | updateEntry (ops : OpsContext) (id : ℕ) (dto : EntryChange)
  | deleteEntry (ops : OpsContext) (id : ℕ)
  | submit (ops : OpsContext) (r : Range)
  | review (actor : Actor) (engineerUserId : ℕ) (dto : Review)
  | payPayout (workLogIds : List ℕ)
  /-- The rating of a resource that is not managed. -/
  | rate (resourceId hourStart : ℕ) (r : UsageRecord)
  | accrueContract (c : Contract) (month : ℕ)
  | issueForTeam (team : Team) (month : ℕ)

/-- A request that throws leaves everything as it was. -/
def attempt (d : Desk) : Except ApiError Desk → Desk
  | .ok d' => d'
  | .error _ => d

def step (d : Desk) : Act → Desk
  | .create actor dto contract now => attempt d (create d actor dto contract now)
  | .update actor id dto now => attempt d (update d actor id dto now)
  | .remove actor id => attempt d (remove d actor id)
  | .stopTimer contractId userId startedAt stoppedAt billable =>
      stopTimer d contractId userId startedAt stoppedAt billable
  | .createManual userId dto now => attempt d (createManual d userId dto now)
  | .updateEntry ops id dto => attempt d (updateEntry d ops id dto)
  | .deleteEntry ops id => attempt d (deleteEntry d ops id)
  | .submit ops r => attempt d (submit d ops r)
  | .review actor engineerUserId dto => attempt d (review d actor engineerUserId dto)
  | .payPayout workLogIds => payPayout d workLogIds
  | .rate resourceId hourStart r =>
      { d with records := d.records.put ⟨.metered, resourceId, hourStart⟩ r }
  | .accrueContract c month => accrueContract d c month
  | .issueForTeam team month => issueForTeam d team month

end Prgd.WorkLogs
