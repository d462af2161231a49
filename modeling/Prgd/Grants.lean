import Prgd.ApiError
import Prgd.Interleaving
import Prgd.Table

/-!
# Access grants, terminal sessions and their certificates

`GrantsService` and the part of `SessionsService` that opens, checks and ends
terminal sessions. Every database statement is one step, and any number of
calls interleave: the callers of the API, the workflow of a grant (its
activities are `activate` and `expire`) and the gateway.

A call moves from one statement to the next. What the rest of the platform
answers to a step (settings, eligibility, the workflow engine, the certificate
authority, random values) comes with the step. All calls read one clock.
-/
namespace Prgd.Grants
open Interleaving

/-! ## Approval rules -/

inductive ManagedPriority where
  | p1 | p2 | p3 | p4
  deriving DecidableEq, Repr

def ManagedPriority.name : ManagedPriority → String
  | .p1 => "P1"
  | .p2 => "P2"
  | .p3 => "P3"
  | .p4 => "P4"

structure GrantFacts where
  priority : Option ManagedPriority
  onCall : Bool
  assetAssigned : Bool
  requestedMinutes : ℤ
  deriving DecidableEq, Repr

structure GrantRules where
  autoGrantMinutes : ℤ
  maxGrantMinutes : ℤ
  maxExtensions : ℕ
  deriving DecidableEq, Repr

inductive GrantDecision where
  | refused (code message : String)
  | granted (auto : Bool) (minutes : ℤ) (emergency : Bool) (why : String)
  deriving DecidableEq, Repr

def isUrgent (p : Option ManagedPriority) : Bool := p == some .p1 || p == some .p2

def decideGrant (f : GrantFacts) (r : GrantRules) : GrantDecision :=
  if f.assetAssigned = false then
    .refused "not_assigned" "The asset is not on a contract you are assigned to"
  else if f.requestedMinutes < 1 ∨ r.maxGrantMinutes < f.requestedMinutes then
    .refused "too_long" ("A grant lasts at most " ++ toString r.maxGrantMinutes ++ " minutes")
  else
    let emergency := isUrgent f.priority
    let name := (f.priority.map ManagedPriority.name).getD "null"
    if emergency && f.onCall then
      .granted true r.autoGrantMinutes emergency (name ++ " ticket and the engineer is on call")
    else
      let why := if f.priority.isNone then "maintenance run"
        else if emergency = false then name ++ " ticket"
        else "the engineer is not on call"
      .granted false f.requestedMinutes emergency ("needs a support lead: " ++ why)

inductive GrantStatus where
  | requested | approved | active | denied | expired | revoked
  deriving DecidableEq, Repr

/-- The status in lower case, as messages have it. -/
def GrantStatus.lower : GrantStatus → String
  | .requested => "requested"
  | .approved => "approved"
  | .active => "active"
  | .denied => "denied"
  | .expired => "expired"
  | .revoked => "revoked"

/-- `LIVE_GRANT`. -/
def GrantStatus.live : GrantStatus → Bool
  | .requested | .approved | .active => true
  | .denied | .expired | .revoked => false

structure Grant where
  userId : String
  contractId : String
  assetId : String
  ticketId : Option String := none
  maintenanceRunId : Option String := none
  reason : String := ""
  requestedMinutes : ℤ
  emergency : Bool := false
  auto : Bool := false
  principals : List String := []
  createdAt : ℤ := 0
  status : GrantStatus := .requested
  grantedMinutes : Option ℤ := none
  approvedById : Option String := none
  approvedAt : Option ℤ := none
  deniedById : Option String := none
  denyReason : Option String := none
  startsAt : Option ℤ := none
  expiresAt : Option ℤ := none
  extensions : ℕ := 0
  extendedAt : Option ℤ := none
  extensionReason : Option String := none
  revokedAt : Option ℤ := none
  revokedById : Option String := none
  revokeReason : Option String := none
  certSerial : Option String := none
  deriving DecidableEq, Repr

def minute : ℤ := 60000

/-- `grant.status !== 'ACTIVE' || !grant.expiresAt || grant.expiresAt <= now`,
turned around: the end of a grant that is usable now. -/
def Grant.usableUntil (g : Grant) (now : ℤ) : Option ℤ :=
  match g.expiresAt with
  | some t => if g.status = .active ∧ now < t then some t else none
  | none => none

def decideExtension (g : Grant) (minutes : ℤ) (r : GrantRules) (now : ℤ) :
    Except (String × String) ℤ :=
  match g.usableUntil now with
  | none => .error ("not_active", "Only an active grant can be extended")
  | some expiresAt =>
      if r.maxExtensions ≤ g.extensions then
        .error ("extension_used", "A grant can be extended " ++
          if r.maxExtensions = 1 then "once" else toString r.maxExtensions ++ " times")
      else if minutes < 1 ∨ r.maxGrantMinutes < minutes then
        .error ("too_long", "An extension is at most " ++ toString r.maxGrantMinutes ++ " minutes")
      else .ok (expiresAt + minutes * minute)

def assetPrincipal (assetId : String) : String := "prgd-asset-" ++ assetId

/-! ## Requests -/

/-- The columns of an asset that a request looks at. -/
structure Asset where
  contractId : String
  approved : Bool
  removed : Bool
  site : Bool
  managementAddress : Option String
  deriving DecidableEq, Repr

/-- The ticket or the task of the maintenance run that a request names. `isOpen`
is the status open or answered of a ticket. -/
inductive Work where
  | ticket (contractId : String) (assetId : Option String) (isOpen : Bool)
      (priority : Option ManagedPriority)
  | run (contractId : String) (assetId : Option String)
  deriving DecidableEq, Repr

inductive Ineligible where
  | notEngineer | inactive | notAssigned | residency
  deriving DecidableEq, Repr

structure RequestDto where
  assetId : String
  ticketId : Option String
  maintenanceRunId : Option String
  reason : String
  durationMin : ℤ
  deriving DecidableEq, Repr

/-- What the other tables answer to a request. -/
structure RequestFacts where
  asset : Asset
  work : Work
  eligible : Option (Ineligible × String)
  rules : GrantRules
  onCall : Bool
  deriving DecidableEq, Repr

/-- The error of somebody who may not work on the contract. -/
def ineligibleError (e : Ineligible × String) : ApiError :=
  ⟨403, if e.1 = .residency then "residency_blocked" else "forbidden", e.2, []⟩

def given (text : Option String) : Bool := text.getD "" ≠ ""

/-- The checks of the ticket or of the maintenance run. -/
def checkWork (assetId : String) (asset : Asset) : Work → Except ApiError (Option ManagedPriority)
  | .ticket contractId about isOpen priority =>
      if contractId ≠ asset.contractId then
        .error (.invalid "The ticket and the asset belong to different contracts" [])
      else if given about ∧ about ≠ some assetId then
        .error (.invalid "The ticket is about another asset" [])
      else if isOpen = false then .error (.invalidState "The ticket is closed")
      else .ok priority
  | .run contractId about =>
      if contractId ≠ asset.contractId ∨ given about ∧ about ≠ some assetId then
        .error (.invalid "The maintenance run does not cover this asset" [])
      else .ok none

/-- `request` up to its decision. -/
def checkRequest (dto : RequestDto) (facts : RequestFacts) : Except ApiError GrantDecision :=
  if given dto.ticketId = given dto.maintenanceRunId then
    .error (.invalid "Pass ticketId or maintenanceRunId" [])
  else if facts.asset.approved = false ∨ facts.asset.removed then
    .error (.invalidState "The asset is not approved")
  else if facts.asset.site then
    .error (.invalid "A site has no shell to open; pick a server" [])
  else if given facts.asset.managementAddress = false then
    .error (.invalidState "The asset has no management address yet")
  else do
    let priority ← checkWork dto.assetId facts.asset facts.work
    match facts.eligible with
    | some e => .error (ineligibleError e)
    | none =>
        match decideGrant ⟨priority, facts.onCall, true, dto.durationMin⟩ facts.rules with
        | .refused _ message => .error (.invalid message [])
        | decision => .ok decision

/-- The row of a new grant, at the time it is created. -/
def newGrant (userId : String) (dto : RequestDto) (contractId : String) (auto : Bool)
    (minutes : ℤ) (emergency : Bool) (now : ℤ) : Grant where
  userId
  contractId
  assetId := dto.assetId
  ticketId := dto.ticketId
  maintenanceRunId := dto.maintenanceRunId
  reason := dto.reason
  requestedMinutes := dto.durationMin
  emergency
  auto
  principals := [assetPrincipal dto.assetId]
  createdAt := now
  status := if auto then .approved else .requested
  grantedMinutes := if auto then some minutes else none
  approvedAt := if auto then some now else none

/-! ## Sessions and certificates -/

inductive SessionStatus where
  | pending | active | ended | killed | failed | expired
  deriving DecidableEq, Repr

/-- `LIVE`. -/
def SessionStatus.live : SessionStatus → Bool
  | .pending | .active => true
  | _ => false

def SessionStatus.lower : SessionStatus → String
  | .pending => "pending"
  | .active => "active"
  | .ended => "ended"
  | .killed => "killed"
  | .failed => "failed"
  | .expired => "expired"

/-- The events of the gateway that touch the modelled columns. -/
inductive SessionEvent where
  | started | heartbeat | ended | error
  deriving DecidableEq, Repr

structure Session where
  grantId : ℕ
  userId : String
  tokenHash : String
  tokenExpiresAt : ℤ
  tokenUsedAt : Option ℤ := none
  status : SessionStatus := .pending
  gatewayId : Option String := none
  clientIp : Option String := none
  startedAt : Option ℤ := none
  endedAt : Option ℤ := none
  lastEventAt : Option ℤ := none
  certSerial : Option String := none
  killedById : Option String := none
  killReason : Option String := none
  endReason : Option String := none
  deriving DecidableEq, Repr

structure SshCertificate where
  grantId : ℕ
  sessionId : ℕ
  serial : String
  keyId : String
  principals : List String
  fingerprint : String
  validAfter : ℤ
  validBefore : ℤ
  revokedAt : Option ℤ := none
  deriving DecidableEq, Repr

/-- An extension that was stored, with the rules its call had read. -/
structure Extension where
  grantId : ℕ
  minutes : ℤ
  rules : GrantRules
  deriving DecidableEq, Repr

/-- The database and the clock. The last two fields are the history: stored
extensions, and the tokens and sessions of the checks that returned. -/
structure Shared where
  now : ℤ
  grants : Table ℕ Grant
  sessions : Table ℕ Session
  certificates : List SshCertificate
  extended : List Extension
  passed : List (String × ℕ)

/-- Functions of the crypto library. -/
structure Crypto where
  hash : String → String
  fingerprint : String → String

/-- A grant that is to end, with the grants that `revokeWhere` ends behind it. -/
structure Ending where
  id : ℕ
  status : GrantStatus
  reason : String
  who : Option String
  more : List ℕ
  deriving DecidableEq, Repr

/-- A check of the gateway, with the rows it read. -/
structure Check where
  token : String
  publicKey : String
  gatewayId : Option String
  clientIp : Option String
  sessionId : ℕ
  session : Session
  grant : Grant
  deriving DecidableEq, Repr

/-- The statement a call stands in front of. -/
inductive Pc where
  /-- No call, or one that has returned or thrown. -/
  | rest (error : Option ApiError)
  | creating (userId : String) (dto : RequestDto) (contractId : String) (auto : Bool)
      (minutes : ℤ) (emergency : Bool)
  | starting (id : ℕ)
  | extending (id : ℕ) (read : Grant) (minutes : ℤ) (reason : String)
  | storingExtension (id : ℕ) (read : Grant) (minutes : ℤ) (reason : String) (rules : GrantRules)
      (expiresAt : ℤ)
  | approving (id : ℕ) (read : Grant) (actorId : String) (minutes : Option ℤ)
  | storingApproval (id : ℕ) (read : Grant) (actorId : String) (minutes : ℤ)
  | signalling (id : ℕ)
  /-- In front of `activate`, called by `approve` (which then starts the
  workflow) or by `startWorkflow`. -/
  | toActivate (id : ℕ) (thenStart : Bool)
  | activating (id : ℕ) (read : Grant) (startsAt expiresAt : ℤ) (thenStart : Bool)
  | denying (id : ℕ) (actorId reason : String)
  | planning (id : ℕ)
  | ending (e : Ending)
  | revoking (e : Ending) (since : ℤ)
  | listening (e : Ending)
  | killing (sessions : List (ℕ × Option ℤ)) (reason : String) (killedById : Option String)
      (e : Option Ending)
  | opening (userId : String) (grantId : ℕ) (clientIp : Option String)
  | refusing (sessionId : ℕ) (status : SessionStatus) (code message : String)
  | vetting (c : Check)
  | claiming (c : Check)
  | signing (c : Check)
  | storing (c : Check) (certificate : SshCertificate)
  | stamping (c : Check) (serial : String)
  | finishing (c : Check) (serial : String)
  | failing (c : Check) (error : ApiError)
  | reporting (sessionId : ℕ) (read : Session) (type : SessionEvent) (reason : String)
  deriving DecidableEq, Repr

/-- The calls. A filter of `revokeWhere` is the list of the ids it matches, and
the answers of tables that nobody writes here come with the call. -/
inductive Call where
  | request (userId : String) (dto : RequestDto) (facts : RequestFacts)
  | extend (userId : String) (id : ℕ) (minutes : ℤ) (reason : String)
  | approve (actorId : String) (id : ℕ) (minutes : Option ℤ)
  | deny (actorId : String) (id : ℕ) (reason : String)
  | revoke (who : Option String) (id : ℕ) (reason : String)
  | revokeWhere (ids : List ℕ) (reason : String) (who : Option String)
  | activate (id : ℕ)
  | expire (id : ℕ)
  | openSession (userId : String) (grantId : ℕ) (clientIp : Option String)
  | check (token : String) (sessionId : Option ℕ) (publicKey : String)
      (gatewayId clientIp : Option String)
  | kill (actorId : String) (sessionId : ℕ) (reason : String)
  | event (sessionId : ℕ) (type : SessionEvent) (reason : String)
  | expireRecordings
  deriving DecidableEq, Repr

/-- What the outside world answers to a step of a call. -/
structure Env where
  rules : GrantRules := ⟨120, 240, 1⟩
  grantRequestExpiryMinutes : ℤ := 240
  eligible : Option (Ineligible × String) := none
  /-- The workflow engine took the start or the signal; the authority signed the
  key; the rest of the call returned. -/
  ok : Bool := true
  managementAddress : Option String := some "10.0.0.5"
  token : String := ""
  tokenTtl : ℤ := 120000
  serial : String := ""
  /-- The message of an exception. -/
  message : String := ""
  deriving DecidableEq, Repr

inductive Act where
  | call (c : Call)
  | next (env : Env)
  /-- The clock goes on, by this many milliseconds. -/
  | tick (ms : ℕ)
  deriving DecidableEq, Repr

/-! ## Statements -/

/-- A guarded `updateMany` of one grant: no row is found when the guard fails. -/
def Shared.updateGrant (s : Shared) (id : ℕ) (guard : Grant → Bool) (write : Grant → Grant) :
    Option Shared :=
  match s.grants.find id with
  | none => none
  | some g => if guard g then some { s with grants := s.grants.put id (write g) } else none

def Shared.updateSession (s : Shared) (id : ℕ) (guard : Session → Bool)
    (write : Session → Session) : Option Shared :=
  match s.sessions.find id with
  | none => none
  | some t => if guard t then some { s with sessions := s.sessions.put id (write t) } else none

/-- An update without a guard. -/
def Shared.setSession (s : Shared) (id : ℕ) (write : Session → Session) : Shared :=
  (s.updateSession id (fun _ => true) write).getD s

def Shared.setGrant (s : Shared) (id : ℕ) (write : Grant → Grant) : Shared :=
  (s.updateGrant id (fun _ => true) write).getD s

/-- The unique index on the hash of the token. -/
def Shared.byToken (s : Shared) (tokenHash : String) : Option (ℕ × Session) :=
  s.sessions.rows.find? fun e => e.2.tokenHash == tokenHash

def throws (e : ApiError) : Pc := .rest (some e)

/-- `end` of the next grant in the list. -/
def endNext (status : GrantStatus) (reason : String) (who : Option String) : List ℕ → Pc
  | [] => .rest none
  | id :: more => .ending ⟨id, status, reason, who, more⟩

def Ending.next (e : Ending) : Pc := endNext e.status e.reason e.who e.more

/-- Behind a kill: the next grant of `revokeWhere`, if any. -/
def killNext (sessions : List (ℕ × Option ℤ)) (reason : String) (killedById : Option String)
    (e : Option Ending) : Pc :=
  match sessions, e with
  | [], none => .rest none
  | [], some e => e.next
  | _ :: _, _ => .killing sessions reason killedById e

inductive GrantPlan where
  | done
  | requested (expiresAt : ℤ)
  | approved
  | active (expiresAt : ℤ)
  deriving DecidableEq, Repr

def plan (found : Option Grant) (grantRequestExpiryMinutes : ℤ) : GrantPlan :=
  match found with
  | none => .done
  | some g =>
      if g.status = .requested then .requested (g.createdAt + grantRequestExpiryMinutes * minute)
      else if g.status = .approved then .approved
      else match g.expiresAt with
        | some t => if g.status = .active then .active t else .done
        | none => .done

/-- `activate` up to its write. -/
def readActivate (s : Shared) (id : ℕ) (thenStart : Bool) : Pc :=
  match s.grants.find id with
  | some g =>
      if g.status = .approved then
        .activating id g s.now (s.now + g.grantedMinutes.getD g.requestedMinutes * minute) thenStart
      else if thenStart then .starting id else .rest none
  | none => if thenStart then .starting id else .rest none

/-- The row `check` reads, and which refusal it meets first. -/
def readCheck (crypto : Crypto) (s : Shared) (token : String) (sessionId : Option ℕ)
    (publicKey : String) (gatewayId clientIp : Option String) : Pc :=
  match s.byToken (crypto.hash token) with
  | none => throws ⟨401, "token_invalid", "Unknown gateway token", []⟩
  | some (id, session) =>
      match s.grants.find session.grantId with
      -- the foreign key of a session names a grant
      | none => throws ⟨401, "token_invalid", "Unknown gateway token", []⟩
      | some g =>
          if sessionId.isSome ∧ sessionId ≠ some id then
            throws ⟨401, "token_invalid", "Unknown gateway token", []⟩
          else if session.tokenUsedAt.isSome then
            .refusing id session.status "token_used" "The gateway token was already used"
          else if session.status ≠ .pending then
            throws (if g.status ≠ .active then
              .conflict "grant_inactive" ("The access grant is " ++ g.status.lower)
            else .conflict "session_killed" "The session was ended before it connected")
          else if session.tokenExpiresAt ≤ s.now then
            .refusing id .expired "token_expired" "The gateway token expired; open the terminal again"
          else if g.status ≠ .active then
            .refusing id .failed "grant_inactive" ("The access grant is " ++ g.status.lower)
          else if g.usableUntil s.now = none then
            .refusing id .failed "grant_expired" "The access grant expired"
          else .vetting ⟨token, publicKey, gatewayId, clientIp, id, session, g⟩

/-- The first statement of a call. -/
def begin (crypto : Crypto) (s : Shared) : Call → Shared × Pc
  | .request userId dto facts =>
      match checkRequest dto facts with
      | .error e => (s, throws e)
      | .ok (.refused _ message) => (s, throws (.invalid message []))
      | .ok (.granted auto minutes emergency _) =>
          match s.grants.rows.find? fun e => e.2.userId = userId ∧ e.2.assetId = dto.assetId ∧
              e.2.ticketId = dto.ticketId ∧ e.2.maintenanceRunId = dto.maintenanceRunId ∧
              e.2.status.live with
          | some (id, g) => (s, throws (.conflict "grant_exists" ("You already have a " ++
              g.status.lower ++ " grant for this asset and ticket (" ++ toString id ++ ")")))
          | none => (s, .creating userId dto facts.asset.contractId auto minutes emergency)
  | .extend userId id minutes reason =>
      match s.grants.find id with
      | some g =>
          if g.userId = userId then (s, .extending id g minutes reason)
          else (s, throws (.notFound "access grant" (toString id)))
      | none => (s, throws (.notFound "access grant" (toString id)))
  | .approve actorId id minutes =>
      match s.grants.find id with
      | none => (s, throws (.notFound "access grant" (toString id)))
      | some g =>
          if g.userId = actorId then (s, throws (.forbidden "You cannot approve your own access"))
          else if g.status ≠ .requested then
            (s, throws (.invalidState ("The grant is " ++ g.status.lower)))
          else (s, .approving id g actorId minutes)
  | .deny actorId id reason =>
      match s.grants.find id with
      | none => (s, throws (.notFound "access grant" (toString id)))
      | some g =>
          if g.status ≠ .requested then
            (s, throws (.invalidState ("The grant is " ++ g.status.lower)))
          else (s, .denying id actorId reason)
  | .revoke who id reason =>
      match s.grants.find id with
      | none => (s, throws (.notFound "access grant" (toString id)))
      | some g =>
          if g.status.live = false then
            (s, throws (.invalidState ("The grant is " ++ g.status.lower)))
          else (s, endNext .revoked reason who [id])
  | .revokeWhere ids reason who =>
      (s, endNext .revoked reason who
        (ids.filter fun id => ((s.grants.find id).map fun g => g.status.live).getD false))
  | .activate id => (s, readActivate s id false)
  | .expire id =>
      match s.grants.find id with
      | none => (s, .rest none)
      | some _ => (s, .planning id)
  | .openSession userId grantId clientIp =>
      match s.grants.find grantId with
      | some g =>
          if g.userId ≠ userId then (s, throws (.notFound "access grant" (toString grantId)))
          else if g.usableUntil s.now = none then
            (s, throws (.invalidState "The grant is not active"))
          else (s, .opening userId grantId clientIp)
      | none => (s, throws (.notFound "access grant" (toString grantId)))
  | .check token sessionId publicKey gatewayId clientIp =>
      (s, readCheck crypto s token sessionId publicKey gatewayId clientIp)
  | .kill actorId sessionId reason =>
      match s.sessions.find sessionId with
      | none => (s, throws (.notFound "terminal session" (toString sessionId)))
      | some t =>
          if t.status.live = false then
            (s, throws (.invalidState ("The session is " ++ t.status.lower)))
          else (s, .killing [(sessionId, t.endedAt)] reason (some actorId) none)
  | .event sessionId type reason =>
      match s.sessions.find sessionId with
      | none => (s, throws (.notFound "terminal session" (toString sessionId)))
      | some t => (s, .reporting sessionId t type reason)
  | .expireRecordings =>
      ({ s with sessions := s.sessions.amend fun _ t =>
          if t.status = .pending ∧ t.tokenExpiresAt < s.now then
            { t with status := .expired, endReason := some "token_expired" }
          else t }, .rest none)

/-! ## Writes -/

def extensionError (e : String × String) : ApiError :=
  if e.1 = "extension_used" then .conflict e.1 e.2
  else if e.1 = "not_active" then .invalidState e.2
  else .invalid e.2 []

def writeExtension (reason : String) (expiresAt now : ℤ) (g : Grant) : Grant :=
  { g with
    expiresAt := some expiresAt, extensions := g.extensions + 1, extendedAt := some now,
    extensionReason := some reason }

def writeApproval (actorId : String) (minutes now : ℤ) (g : Grant) : Grant :=
  { g with
    status := .approved, grantedMinutes := some minutes, approvedById := some actorId,
    approvedAt := some now }

def writeActivation (startsAt expiresAt : ℤ) (g : Grant) : Grant :=
  { g with status := .active, startsAt := some startsAt, expiresAt := some expiresAt }

def writeDenial (actorId reason : String) (g : Grant) : Grant :=
  { g with status := .denied, deniedById := some actorId, denyReason := some reason }

def writeEnd (e : Ending) (now : ℤ) (g : Grant) : Grant :=
  { g with
    status := e.status, revokedAt := some now, revokeReason := some e.reason,
    revokedById := e.who }

/-- The certificate of `issueCertificate`, valid from a minute ago until the
grant expires. -/
def newCertificate (crypto : Crypto) (c : Check) (serial : String) (now validBefore : ℤ) :
    SshCertificate where
  grantId := c.session.grantId
  sessionId := c.sessionId
  serial
  keyId := "prgd-session-" ++ toString c.sessionId
  principals := c.grant.principals
  fingerprint := crypto.fingerprint c.publicKey
  validAfter := now - minute
  validBefore

def refusalCode (e : Ineligible) : String :=
  match e with
  | .residency => "residency_blocked"
  | .inactive => "engineer_inactive"
  | _ => "forbidden"

/-- An exception that is no `ApiError`. -/
def internalError : ApiError := ⟨500, "internal_error", "Something went wrong on our side", []⟩

def certificateError (env : Env) : ApiError :=
  .invalid ("Could not issue a certificate: " ++ env.message) []

def newSession (grantId : ℕ) (userId tokenHash : String) (tokenExpiresAt : ℤ)
    (clientIp : Option String) : Session :=
  { grantId, userId, tokenHash, tokenExpiresAt, clientIp }

/-- The gateway's report on a session whose row it read before. -/
def writeReport (read : Session) (type : SessionEvent) (reason : String) (now : ℤ) (t : Session) :
    Session :=
  let t := { t with lastEventAt := some now }
  match type with
  | .started => if read.startedAt.isNone then { t with startedAt := some now } else t
  | .heartbeat => t
  | .ended => { t with
      status := if read.status.live then .ended else t.status
      endedAt := some (read.endedAt.getD now), endReason := some reason }
  | .error => { t with
      status := if read.status.live then .failed else t.status
      endedAt := some (read.endedAt.getD now), endReason := some reason }

/-- The next statement of a call that is under way. -/
def next (crypto : Crypto) (env : Env) (s : Shared) : Pc → Option (Shared × Pc)
  | .rest _ => none
  | .creating userId dto contractId auto minutes emergency =>
      let id := s.grants.fresh
      let g := newGrant userId dto contractId auto minutes emergency s.now
      some ({ s with grants := s.grants.put id g }, .starting id)
  | .starting id => some (s, if env.ok then .rest none else .toActivate id false)
  | .extending id read minutes reason =>
      match decideExtension read minutes env.rules s.now with
      | .error e => some (s, throws (extensionError e))
      | .ok expiresAt => some (s, .storingExtension id read minutes reason env.rules expiresAt)
  | .storingExtension id read minutes reason rules expiresAt =>
      match s.updateGrant id (fun g => g.status = .active ∧ g.extensions = read.extensions)
          (writeExtension reason expiresAt s.now) with
      | none => some (s, throws (.conflict "extension_used" "The grant changed; reload it"))
      | some s' => some ({ s' with extended := s'.extended ++ [⟨id, minutes, rules⟩] }, .rest none)
  | .approving id read actorId minutes =>
      match env.eligible with
      | some e => some (s, throws (ineligibleError e))
      | none => some (s, .storingApproval id read actorId
          (min (minutes.getD read.requestedMinutes) env.rules.maxGrantMinutes))
  | .storingApproval id _ actorId minutes =>
      match s.updateGrant id (fun g => g.status = .requested)
          (writeApproval actorId minutes s.now) with
      | none => some (s, throws (.invalidState "The grant changed; reload it"))
      | some s' => some (s', .signalling id)
  | .signalling id => some (s, if env.ok then .rest none else .toActivate id true)
  | .toActivate id thenStart => some (s, readActivate s id thenStart)
  | .activating id _ startsAt expiresAt thenStart =>
      some ((s.updateGrant id (fun g => g.status = .approved)
        (writeActivation startsAt expiresAt)).getD s, if thenStart then .starting id else .rest none)
  | .denying id actorId reason =>
      some ((s.updateGrant id (fun g => g.status = .requested) (writeDenial actorId reason)).getD s,
        .rest none)
  | .planning id =>
      match plan (s.grants.find id) env.grantRequestExpiryMinutes with
      | .active expiresAt =>
          some (s, if expiresAt ≤ s.now then endNext .expired "expired" none [id] else .rest none)
      | .requested expiresAt =>
          some (s, if expiresAt ≤ s.now then
            endNext .expired "request not decided in time" none [id] else .rest none)
      | _ => some (s, .rest none)
  | .ending e =>
      match s.updateGrant e.id (fun g => g.status.live) (writeEnd e s.now) with
      | none => some (s, e.next)
      | some s' => some (s', .revoking e s.now)
  | .revoking e since =>
      some ({ s with certificates := s.certificates.map fun c =>
          if c.grantId = e.id ∧ c.revokedAt = none then { c with revokedAt := some since } else c },
        .listening e)
  | .listening e =>
      let live := s.sessions.rows.filter fun t => t.2.grantId = e.id ∧ t.2.status.live
      some (s, killNext (live.map fun t => (t.1, t.2.endedAt))
        ("grant " ++ e.status.lower ++ ": " ++ e.reason) none (some e))
  | .killing sessions reason killedById e =>
      match sessions with
      | [] => some (s, killNext [] reason killedById e)
      | (id, endedAt) :: more =>
          some (s.setSession id fun t => { t with
              status := .killed, killedById, killReason := some reason,
              endedAt := some (endedAt.getD s.now), endReason := some "killed" },
            killNext more reason killedById e)
  | .opening userId grantId clientIp =>
      match env.eligible with
      | some e => some (s, throws (ineligibleError e))
      | none =>
          let tokenHash := crypto.hash env.token
          -- a hash that the unique index holds already is refused by the database
          if (s.byToken tokenHash).isSome then some (s, throws internalError)
          else
            let t := newSession grantId userId tokenHash (s.now + env.tokenTtl) clientIp
            some ({ s with sessions := s.sessions.put s.sessions.fresh t }, .rest none)
  | .refusing id status code message =>
      some ((s.updateSession id (fun t => t.status = .pending) fun t =>
          { t with status, endedAt := some s.now, endReason := some code }).getD s,
        throws (.conflict code message))
  | .vetting c =>
      match env.eligible with
      | some e => some (s, .refusing c.sessionId .failed (refusalCode e.1) e.2)
      | none =>
          if given env.managementAddress then some (s, .claiming c)
          else some (s, .refusing c.sessionId .failed "asset_unavailable"
            "The asset has no management address")
  | .claiming c =>
      match s.updateSession c.sessionId (fun t => t.tokenUsedAt = none ∧ t.status = .pending)
          fun t => { t with
            tokenUsedAt := some s.now, status := .active, startedAt := some s.now,
            lastEventAt := some s.now, gatewayId := c.gatewayId,
            clientIp := c.clientIp.or c.session.clientIp } with
      | none => some (s, throws (.conflict "token_used" "The gateway token was already used"))
      | some s' => some (s', .signing c)
  | .signing c =>
      match c.grant.usableUntil s.now with
      | none => some (s, .failing c (.invalidState "The grant is not active"))
      | some validBefore =>
          if env.ok then
            some (s, .storing c (newCertificate crypto c env.serial s.now validBefore))
          else some (s, .failing c (certificateError env))
  | .storing c certificate =>
      -- serials are unique
      if s.certificates.any fun d => d.serial = certificate.serial then
        some (s, .failing c (certificateError env))
      else some ({ s with certificates := s.certificates ++ [certificate] },
        .stamping c certificate.serial)
  | .stamping c serial =>
      some (s.setGrant c.session.grantId fun g => { g with certSerial := some serial },
        .finishing c serial)
  | .finishing c serial =>
      let s' := s.setSession c.sessionId fun t => { t with certSerial := some serial }
      if env.ok then some ({ s' with passed := s'.passed ++ [(c.token, c.sessionId)] }, .rest none)
      else some (s', throws internalError)
  | .failing c error =>
      some (s.setSession c.sessionId fun t => { t with
          status := .failed, endedAt := some s.now, endReason := some "certificate" },
        throws error)
  | .reporting id read type reason =>
      some (s.setSession id (writeReport read type reason s.now), .rest none)

def trans (crypto : Crypto) (_ : ℕ) (s : Shared) (act : Act) (pc : Pc) : Option (Shared × Pc) :=
  match act, pc with
  | .call c, .rest _ => some (begin crypto s c)
  | .next env, pc => next crypto env s pc
  | .tick ms, pc => some ({ s with now := s.now + ms }, pc)
  | _, _ => none

abbrev World := Interleaving.World Shared Pc

def step (crypto : Crypto) : World → ℕ × Act → World := callerStep (trans crypto)

/-- An empty database at any time. -/
def start (now : ℤ) : World :=
  ⟨⟨now, Table.empty, Table.empty, [], [], []⟩, fun _ => .rest none⟩

end Prgd.Grants
