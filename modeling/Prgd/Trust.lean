import Prgd.Agenda
import Prgd.Billing
import Prgd.Spend
import Prgd.Table
import Prgd.Text

/-!
# Suspensions

`TrustService` and `DunningService`: who suspends a team, who lifts the suspension,
and what happens to its servers meanwhile. Every query and every statement is one
task of an agenda; a mail and the start of a workflow may fail, and the workflows
that were started finish later, one by one. Times are milliseconds.

Events, status messages and the times of suspensions and reminders are written and
never read, and are left out.
-/
namespace Prgd.Trust
open Interleaving Agenda Billing Spend

/-! ## The data -/

structure Team where
  status : AccountStatus
  suspensionReason : Option String := none
  deriving DecidableEq

structure Invoice where
  teamId : ℕ
  number : String
  status : InvoiceStatus
  totalMinor : ℤ
  creditedMinor : ℤ
  dueAt : Option ℕ
  reminderStage : ℕ
  deriving DecidableEq

inductive ServerStatus where
  | new | provisioning | active | off | rebooting | resizing | rebuilding | deleting | deleted
  | failed | suspended
  deriving DecidableEq, Repr

structure Server where
  teamId : ℕ
  status : ServerStatus
  suspendedPoweredOff : Bool
  deleted : Bool
  deriving DecidableEq

inductive Op where
  | start | stop
  deriving DecidableEq

/-- The status a server gets when a power action is recorded. -/
def Op.nextStatus : Op → ServerStatus
  | .start => .provisioning
  | .stop => .active

/-- The status that the finished workflow sets. -/
def Op.done : Op → ServerStatus
  | .start => .active
  | .stop => .off

structure Company where
  teams : Table ℕ Team
  invoices : Table ℕ Invoice
  servers : Table ℕ Server
  /-- The `powerServer` workflows that run. -/
  workflows : List (ℕ × Op)
  /-- Not a table: the reminders whose mails were sent, or tried. -/
  reminders : List (ℕ × ℕ)
  /-- Not a table: the times of the dunning runs that are through their invoices. -/
  ran : List ℕ
  /-- Not a table: the teams for which a suspension was stored that is not for billing. -/
  abused : List ℕ

def Company.setServer (s : Company) (id : ℕ) (g : Server → Server) : Company :=
  { s with servers := s.servers.modify id g }

def Company.setTeam (s : Company) (id : ℕ) (t : Team) : Company :=
  { s with teams := s.teams.modify id fun _ => t }

/-- `BILLING_SUSPENSION`. -/
def billingSuspension : String := "billing:"

def isBilling (reason : String) : Bool := Text.startsWith reason.toList billingSuspension.toList

/-! ## Dunning -/

def day : ℕ := 86400000

def reminderDays : List ℕ := [3, 7, 14]

def suspendAt : ℕ := 14

def reminderStageFor (daysOverdue : ℕ) : ℕ :=
  (reminderDays.reverse.find? fun d => d ≤ daysOverdue).getD 0

def isOverdue (now : ℕ) (inv : Invoice) : Bool :=
  inv.status = .open ∧ inv.dueAt.any (fun d => day * 3 + d < now) ∧ inv.reminderStage < suspendAt

def overdue (invoices : Table ℕ Invoice) (now : ℕ) : List (ℕ × Invoice) :=
  (invoices.rows.filter fun e => isOverdue now e.2).mergeSort
    fun a b => a.2.dueAt.getD 0 ≤ b.2.dueAt.getD 0

def daysOverdue (now : ℕ) (inv : Invoice) : ℕ := (now - inv.dueAt.getD 0) / day

def overdueReason (number : String) (days : ℕ) : String :=
  billingSuspension ++ " invoice " ++ number ++ " is " ++ toString days ++ " days overdue"

/-- What a caller has still to do. -/
inductive Task where
  /-- The queries at the start of a dunning run. -/
  | readOverdue (now : ℕ)
  /-- An invoice as the run read it, with the status of its team. -/
  | claimStage (now id : ℕ) (inv : Invoice) (teamStatus : AccountStatus)
  | remind (id : ℕ) (inv : Invoice) (stage days : ℕ) (teamStatus : AccountStatus)
  /-- The query of `suspend`. -/
  | suspend (teamId : ℕ) (reason : String)
  | storeSuspension (teamId : ℕ) (reason : String)
  | powerOffRunning (teamId : ℕ)
  | markPoweredOff (serverId : ℕ)
  /-- The transaction of `power`. -/
  | power (serverId : ℕ) (op : Op)
  | startWorkflow (serverId : ℕ) (op : Op)
  | undoStart (serverId : ℕ)
  /-- The end of a dunning run: teams whose servers did not all stop. -/
  | retryPowerOff (now : ℕ)
  | enforceSuspension (teamId : ℕ)
  | reinstateIfSettled (teamId : ℕ)
  | countOverdue (teamId : ℕ)
  /-- The statement of `reinstate` that lifts the suspension. -/
  | reinstate (teamId : ℕ)
  | convertSuspended (teamId : ℕ)
  | listPoweredOff (teamId : ℕ)
  /-- A server as `reinstate` read it. -/
  | restore (serverId : ℕ) (status : ServerStatus)
  | unmark (serverId : ℕ)
  deriving DecidableEq

def claimStage (s : Company) (now id : ℕ) (inv : Invoice) (teamStatus : AccountStatus) :
    Company × List Task :=
  let days := daysOverdue now inv
  let stage := reminderStageFor days
  if stage ≤ inv.reminderStage then (s, [])
  else if inv.totalMinor - inv.creditedMinor ≤ 0 then (s, [])
  else if (s.invoices.find id).any (fun row => row.reminderStage = inv.reminderStage) then
    ({ s with invoices := s.invoices.modify id fun row => { row with reminderStage := stage } },
      [.remind id inv stage days teamStatus])
  else (s, [])

/-- Whether the last reminder suspends the team. -/
def suspends (stage : ℕ) (teamStatus : AccountStatus) : Bool :=
  suspendAt ≤ stage ∧ teamStatus ≠ .closed ∧ teamStatus ≠ .suspended

/-! ## Servers -/

def isRunning (teamId : ℕ) (v : Server) : Bool :=
  v.teamId = teamId ∧ v.status = .active ∧ ¬ v.deleted

def running (s : Company) (teamId : ℕ) : List ℕ :=
  (s.servers.rows.filter fun e => isRunning teamId e.2).map Prod.fst

/-- Suspended teams that still have a running server. -/
def stillRunning (s : Company) : List ℕ :=
  (s.teams.rows.filter fun e => e.2.status = .suspended ∧
    s.servers.rows.any fun v => isRunning e.1 v.2).map Prod.fst

/-- Servers from before the mark were left in their own status. -/
def convert (teamId : ℕ) (v : Server) : Server :=
  if v.teamId = teamId ∧ v.status = .suspended ∧ ¬ v.deleted then
    { v with status := .off, suspendedPoweredOff := true }
  else v

def poweredOff (s : Company) (teamId : ℕ) : List (ℕ × Server) :=
  s.servers.rows.filter fun e =>
    e.2.teamId = teamId ∧ e.2.suspendedPoweredOff ∧ ¬ e.2.deleted

def settled (s : Company) (teamId : ℕ) : Bool :=
  ¬ s.invoices.rows.any fun e =>
    e.2.teamId = teamId ∧ e.2.status = .open ∧ 14 ≤ e.2.reminderStage

/-! ## The tasks -/

/-- Servers are started by `reinstate`, which has more to do for them; a stop is
the last thing for its server. -/
def Op.afterwards : Op → Task → List Task
  | .start, next => [next]
  | .stop, _ => []

def exec (s : Company) (ok : Bool) : Task → Company × List Task
  | .readOverdue now =>
      (s, (overdue s.invoices now).filterMap (fun e =>
        (s.teams.find e.2.teamId).map fun t => .claimStage now e.1 e.2 t.status) ++
          [.retryPowerOff now])
  | .claimStage now id inv teamStatus => claimStage s now id inv teamStatus
  | .remind id inv stage days teamStatus =>
      ({ s with reminders := (id, stage) :: s.reminders },
        -- a mail that fails throws: the suspension below it is not reached
        if ok ∧ suspends stage teamStatus then
          [.suspend inv.teamId (overdueReason inv.number days)]
        else [])
  | .suspend teamId reason =>
      match s.teams.find teamId with
      | none => (s, [])
      | some t => (s, if t.status = .closed then [] else [.storeSuspension teamId reason])
  | .storeSuspension teamId reason =>
      ({ s.setTeam teamId ⟨.suspended, some reason⟩ with
          abused := if isBilling reason then s.abused else teamId :: s.abused },
        [.powerOffRunning teamId])
  | .powerOffRunning teamId => (s, (running s teamId).map .markPoweredOff)
  | .markPoweredOff id =>
      (s.setServer id fun v => { v with suspendedPoweredOff := true }, [.power id .stop])
  | .power id op => (s.setServer id fun v => { v with status := op.nextStatus }, [.startWorkflow id op])
  | .startWorkflow id op =>
      if ok then ({ s with workflows := (id, op) :: s.workflows }, op.afterwards (.unmark id))
      else (s, op.afterwards (.undoStart id))
  | .undoStart id => (s.setServer id fun v => { v with status := .off }, [.unmark id])
  | .retryPowerOff now =>
      ({ s with ran := now :: s.ran }, (stillRunning s).map .enforceSuspension)
  | .enforceSuspension teamId =>
      match s.teams.find teamId with
      | none => (s, [])
      | some t => (s, if t.status = .suspended then [.powerOffRunning teamId] else [])
  | .reinstateIfSettled teamId =>
      match s.teams.find teamId with
      | none => (s, [])
      | some t => (s, if t.status = .suspended ∧ t.suspensionReason.any isBilling then
          [.countOverdue teamId] else [])
  | .countOverdue teamId => (s, if settled s teamId then [.reinstate teamId] else [])
  | .reinstate teamId => (s.setTeam teamId ⟨.active, none⟩, [.convertSuspended teamId])
  | .convertSuspended teamId =>
      ({ s with servers := s.servers.amend fun _ => convert teamId }, [.listPoweredOff teamId])
  | .listPoweredOff teamId =>
      (s, (poweredOff s teamId).map fun e => .restore e.1 e.2.status)
  | .restore id status =>
      -- a server that is not off only loses the mark
      if status = .off then (s, [.power id .start])
      else (s.setServer id fun v => { v with suspendedPoweredOff := false }, [])
  | .unmark id => (s.setServer id fun v => { v with suspendedPoweredOff := false }, [])

/-! ## The machine -/

inductive AbuseKind where
  | mining | spam | scanning | ddosSource | phishing | paymentFraud | report

def AbuseKind.name : AbuseKind → String
  | .mining => "mining"
  | .spam => "spam"
  | .scanning => "scanning"
  | .ddosSource => "ddos_source"
  | .phishing => "phishing"
  | .paymentFraud => "payment_fraud"
  | .report => "report"

inductive Proc where
  | dunning (now : ℕ)
  | flag (teamId : ℕ) (kind : AbuseKind) (score : ℕ)
  | suspend (teamId : ℕ) (reason : String)
  | enforceSuspension (teamId : ℕ)
  | reinstateIfSettled (teamId : ℕ)
  | reinstate (teamId : ℕ)

def Proc.tasks : Proc → List Task
  | .dunning now => [.readOverdue now]
  | .flag teamId kind score =>
      if 90 ≤ score then [.suspend teamId ("automatic: " ++ kind.name)] else []
  | .suspend teamId reason => [.suspend teamId reason]
  | .enforceSuspension teamId => [.enforceSuspension teamId]
  | .reinstateIfSettled teamId => [.reinstateIfSettled teamId]
  | .reinstate teamId => [.reinstate teamId]

inductive Event where
  /-- A workflow finishes. -/
  | complete (i : ℕ)
  /-- An invoice is issued, paid, credited or voided. -/
  | bill (id : ℕ) (inv : Invoice)
  | close (teamId : ℕ)
  /-- A customer or an operator changes a server. -/
  | touch (id : ℕ) (status : ServerStatus)

def outside (s : Company) : Event → Company
  | .complete i =>
      match s.workflows[i]? with
      | none => s
      | some (id, op) =>
          { s.setServer id fun v => { v with status := op.done } with
            workflows := s.workflows.eraseIdx i }
  | .bill id inv => { s with invoices := s.invoices.put id inv }
  | .close teamId => { s with teams := s.teams.modify teamId fun t => { t with status := .closed } }
  | .touch id status => s.setServer id fun v => { v with status := status }

def machine : Machine Company Task Proc Bool Event := ⟨Proc.tasks, exec, outside⟩

abbrev Office := Interleaving.World Company (List Task)

abbrev Act := Agenda.Act Proc Bool Event

def step : Office → ℕ × Act → Office := machine.step

/-! ## What follows a task -/

/-- The tasks that a task can leave to do. -/
inductive Follows (s : Company) (ok : Bool) : Task → Task → Prop where
  | claim {now id : ℕ} {inv : Invoice} {team : Team} (hfind : s.invoices.find id = some inv)
      (hover : isOverdue now inv = true) (hteam : s.teams.find inv.teamId = some team) :
      Follows s ok (.readOverdue now) (.claimStage now id inv team.status)
  | retry {now : ℕ} : Follows s ok (.readOverdue now) (.retryPowerOff now)
  | remind {now id : ℕ} {inv : Invoice} {teamStatus : AccountStatus} :
      Follows s ok (.claimStage now id inv teamStatus)
        (.remind id inv (reminderStageFor (daysOverdue now inv)) (daysOverdue now inv) teamStatus)
  | suspend {id stage days : ℕ} {inv : Invoice} {teamStatus : AccountStatus} (hok : ok = true)
      (hsuspends : suspends stage teamStatus = true) :
      Follows s ok (.remind id inv stage days teamStatus)
        (.suspend inv.teamId (overdueReason inv.number days))
  | store {teamId : ℕ} {reason : String} {team : Team} (hteam : s.teams.find teamId = some team)
      (hopen : team.status ≠ .closed) :
      Follows s ok (.suspend teamId reason) (.storeSuspension teamId reason)
  | powerOff {teamId : ℕ} {reason : String} :
      Follows s ok (.storeSuspension teamId reason) (.powerOffRunning teamId)
  | mark {teamId id : ℕ} {v : Server} (hfind : s.servers.find id = some v)
      (hrunning : isRunning teamId v = true) :
      Follows s ok (.powerOffRunning teamId) (.markPoweredOff id)
  | stop {id : ℕ} : Follows s ok (.markPoweredOff id) (.power id .stop)
  | startWorkflow {id : ℕ} {op : Op} : Follows s ok (.power id op) (.startWorkflow id op)
  | started {id : ℕ} (hok : ok = true) : Follows s ok (.startWorkflow id .start) (.unmark id)
  | failed {id : ℕ} (hok : ok = false) : Follows s ok (.startWorkflow id .start) (.undoStart id)
  | undone {id : ℕ} : Follows s ok (.undoStart id) (.unmark id)
  | enforce {now teamId : ℕ} : Follows s ok (.retryPowerOff now) (.enforceSuspension teamId)
  | enforced {teamId : ℕ} {team : Team} (hteam : s.teams.find teamId = some team)
      (hsuspended : team.status = .suspended) :
      Follows s ok (.enforceSuspension teamId) (.powerOffRunning teamId)
  | count {teamId : ℕ} {team : Team} (hteam : s.teams.find teamId = some team)
      (hsuspended : team.status = .suspended) (hbilling : team.suspensionReason.any isBilling = true) :
      Follows s ok (.reinstateIfSettled teamId) (.countOverdue teamId)
  | reinstate {teamId : ℕ} (hsettled : settled s teamId = true) :
      Follows s ok (.countOverdue teamId) (.reinstate teamId)
  | convert {teamId : ℕ} : Follows s ok (.reinstate teamId) (.convertSuspended teamId)
  | list {teamId : ℕ} : Follows s ok (.convertSuspended teamId) (.listPoweredOff teamId)
  | restore {id : ℕ} {v : Server} (hfind : s.servers.find id = some v)
      (hmark : v.suspendedPoweredOff = true) (halive : v.deleted = false) :
      Follows s ok (.listPoweredOff v.teamId) (.restore id v.status)
  | start {id : ℕ} : Follows s ok (.restore id .off) (.power id .start)

section
variable {s : Company} {ok : Bool} {t next : Task} {teamId : ℕ}

theorem mem_overdue {now : ℕ} {e : ℕ × Invoice} :
    e ∈ overdue s.invoices now ↔ s.invoices.find e.1 = some e.2 ∧ isOverdue now e.2 := by
  rw [overdue, List.mem_mergeSort, List.mem_filter]
  constructor
  · rintro ⟨hmem, h⟩
    exact ⟨Table.find_of_mem hmem, h⟩
  · rintro ⟨hfind, h⟩
    exact ⟨Table.find_mem hfind, h⟩

theorem mem_running {id : ℕ} :
    id ∈ running s teamId ↔ ∃ v, s.servers.find id = some v ∧ isRunning teamId v := by
  simp only [running, List.mem_map, List.mem_filter]
  constructor
  · rintro ⟨⟨j, v⟩, ⟨hmem, h⟩, rfl⟩
    exact ⟨v, Table.find_of_mem hmem, h⟩
  · rintro ⟨v, hfind, h⟩
    exact ⟨(id, v), ⟨Table.find_mem hfind, h⟩, rfl⟩

theorem mem_poweredOff {e : ℕ × Server} :
    e ∈ poweredOff s teamId ↔ s.servers.find e.1 = some e.2 ∧ e.2.teamId = teamId ∧
      e.2.suspendedPoweredOff = true ∧ e.2.deleted = false := by
  simp only [poweredOff, List.mem_filter, Bool.decide_and, Bool.and_eq_true, decide_eq_true_eq,
    Bool.not_eq_true]
  constructor
  · rintro ⟨hmem, h⟩
    exact ⟨Table.find_of_mem hmem, h⟩
  · rintro ⟨hfind, h⟩
    exact ⟨Table.find_mem hfind, h⟩

theorem follows_exec (h : next ∈ (exec s ok t).2) : Follows s ok t next := by
  cases t with
  | readOverdue now =>
    simp only [exec, List.mem_append, List.mem_filterMap, List.mem_singleton] at h
    rcases h with ⟨e, he, hnext⟩ | rfl
    · obtain ⟨team, hteam, rfl⟩ := Option.map_eq_some_iff.mp hnext
      obtain ⟨hfind, hover⟩ := mem_overdue.mp he
      exact .claim hfind hover hteam
    · exact .retry
  | claimStage now id inv teamStatus =>
    simp only [exec, claimStage] at h
    split_ifs at h
    · cases h
    · cases h
    · obtain rfl := List.mem_singleton.mp h
      exact .remind
    · cases h
  | remind id inv stage days teamStatus =>
    simp only [exec] at h
    split_ifs at h with hsuspends
    · obtain rfl := List.mem_singleton.mp h
      exact .suspend hsuspends.1 hsuspends.2
    · cases h
  | suspend teamId reason =>
    simp only [exec] at h
    split at h
    · cases h
    · rename_i team hteam
      split_ifs at h with hclosed
      · cases h
      · obtain rfl := List.mem_singleton.mp h
        exact .store hteam hclosed
  | powerOffRunning teamId =>
    obtain ⟨id, hid, rfl⟩ := List.mem_map.mp h
    obtain ⟨v, hv, hrun⟩ := mem_running.mp hid
    exact .mark hv hrun
  | startWorkflow id op =>
    simp only [exec] at h
    cases op with
    | start =>
      split_ifs at h with hok
      · obtain rfl := List.mem_singleton.mp h
        exact .started hok
      · obtain rfl := List.mem_singleton.mp h
        exact .failed (by simpa using hok)
    | stop => split_ifs at h <;> cases h
  | retryPowerOff now =>
    obtain ⟨id, _, rfl⟩ := List.mem_map.mp h
    exact .enforce
  | enforceSuspension teamId =>
    simp only [exec] at h
    split at h
    · cases h
    · rename_i team hteam
      split_ifs at h with hsuspended
      · obtain rfl := List.mem_singleton.mp h
        exact .enforced hteam hsuspended
      · cases h
  | reinstateIfSettled teamId =>
    simp only [exec] at h
    split at h
    · cases h
    · rename_i team hteam
      split_ifs at h with hbilling
      · obtain rfl := List.mem_singleton.mp h
        exact .count hteam hbilling.1 hbilling.2
      · cases h
  | countOverdue teamId =>
    simp only [exec] at h
    split_ifs at h with hsettled
    · obtain rfl := List.mem_singleton.mp h
      exact .reinstate hsettled
    · cases h
  | listPoweredOff teamId =>
    obtain ⟨e, he, rfl⟩ := List.mem_map.mp h
    obtain ⟨hfind, rfl, hmark, halive⟩ := mem_poweredOff.mp he
    exact .restore hfind hmark halive
  | restore id status =>
    simp only [exec] at h
    split_ifs at h with hoff
    · subst hoff
      obtain rfl := List.mem_singleton.mp h
      exact .start
    · cases h
  | storeSuspension _ _ => obtain rfl := List.mem_singleton.mp h; exact .powerOff
  | markPoweredOff _ => obtain rfl := List.mem_singleton.mp h; exact .stop
  | power _ _ => obtain rfl := List.mem_singleton.mp h; exact .startWorkflow
  | undoStart _ => obtain rfl := List.mem_singleton.mp h; exact .undone
  | reinstate _ => obtain rfl := List.mem_singleton.mp h; exact .convert
  | convertSuspended _ => obtain rfl := List.mem_singleton.mp h; exact .list
  | unmark _ => cases h

/-- A team changes when a suspension is stored and when it is lifted. -/
theorem exec_teams (s : Company) (ok : Bool) (t : Task) :
    (exec s ok t).1.teams = s.teams ∨
    (∃ teamId reason, t = .storeSuspension teamId reason ∧
      (exec s ok t).1.teams = s.teams.modify teamId fun _ => ⟨.suspended, some reason⟩) ∨
    ∃ teamId, t = .reinstate teamId ∧
      (exec s ok t).1.teams = s.teams.modify teamId fun _ => ⟨.active, none⟩ := by
  cases t with
  | storeSuspension teamId reason => exact .inr (.inl ⟨teamId, reason, rfl, rfl⟩)
  | reinstate teamId => exact .inr (.inr ⟨teamId, rfl, rfl⟩)
  | claimStage now id inv teamStatus =>
    left
    simp only [exec, claimStage]
    split_ifs <;> rfl
  | suspend teamId reason | enforceSuspension teamId | reinstateIfSettled teamId =>
    left
    simp only [exec]
    split <;> rfl
  | startWorkflow id op | restore id status =>
    left
    simp only [exec]
    split_ifs <;> rfl
  | readOverdue _ | remind _ _ _ _ _ | powerOffRunning _ | markPoweredOff _
  | power _ _ | undoStart _ | retryPowerOff _ | countOverdue _ | convertSuspended _
  | listPoweredOff _ | unmark _ => exact .inl rfl

end

end Prgd.Trust
