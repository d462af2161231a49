import Prgd.Approvals
import Prgd.Spend
import Prgd.Table

/-!
# API tokens

What a credential resolves to, and how a token is made. Both a console session and a token become
an actor, with the scopes that the role of its user has at that moment; a token keeps the part of
them that it was given. `createToken` compares the scopes of a new token with those of its creator,
and its project with the projects that the creator may use.

The directory (users, teams, members, projects and sessions) is changed by others at any time.
-/
namespace Prgd.Iam
open Interleaving Approvals
open Spend (AccountStatus)

/-! ## Scopes -/

inductive Area where
  | servers | images | snapshots | volumes | dns | storage | databases | kubernetes | network | apps
  | billing | support | managed | connect | iam
  deriving DecidableEq

inductive Verb where
  | read | write | delete
  deriving DecidableEq

inductive StaffRole where
  | support | finance | ops | engineer | supportLead
  deriving DecidableEq

inductive Scope where
  | on (area : Area) (verb : Verb)
  | admin
  | staff (role : StaffRole)
  deriving DecidableEq

def Area.name : Area → String
  | .servers => "servers" | .images => "images" | .snapshots => "snapshots" | .volumes => "volumes"
  | .dns => "dns" | .storage => "storage" | .databases => "databases" | .kubernetes => "kubernetes"
  | .network => "network" | .apps => "apps" | .billing => "billing" | .support => "support"
  | .managed => "managed" | .connect => "connect" | .iam => "iam"

def Verb.name : Verb → String
  | .read => "read" | .write => "write" | .delete => "delete"

def StaffRole.name : StaffRole → String
  | .support => "support" | .finance => "finance" | .ops => "ops" | .engineer => "engineer"
  | .supportLead => "support_lead"

def Scope.name : Scope → String
  | .on area verb => area.name ++ ":" ++ verb.name
  | .admin => "admin"
  | .staff role => "admin:" ++ role.name

def allScopes : List Scope :=
  [.on .servers .read, .on .servers .write, .on .servers .delete,
    .on .images .read, .on .snapshots .read, .on .snapshots .write, .on .volumes .read,
    .on .volumes .write, .on .dns .read, .on .dns .write, .on .storage .read, .on .storage .write,
    .on .databases .read, .on .databases .write, .on .kubernetes .read, .on .kubernetes .write,
    .on .network .read, .on .network .write, .on .apps .read, .on .apps .write, .on .billing .read,
    .on .billing .write, .on .support .read, .on .support .write, .on .managed .read,
    .on .managed .write, .on .connect .read, .on .connect .write, .on .iam .read, .on .iam .write,
    .admin]

def Scope.isOn (area : Area) : Scope → Bool
  | .on a _ => a = area
  | _ => false

def Scope.isRead : Scope → Bool
  | .on _ .read => true
  | _ => false

def scopesForRole : TeamRole → List Scope
  | .owner | .admin => allScopes.filter fun s => s ≠ .admin
  | .member => allScopes.filter fun s =>
      ¬ s.isOn .billing ∧ ¬ s.isOn .iam ∧ s ≠ .admin ∧ s ≠ .on .connect .write
  | .billing => [.on .billing .read, .on .billing .write, .on .servers .read, .on .iam .read]
  | .readonly => allScopes.filter Scope.isRead

/-! ## The directory -/

structure User where
  id : String
  isStaff : Bool := false
  /-- `none` stands for a text that is no role. -/
  staffRoles : List (Option StaffRole) := []

structure Member where
  teamId : String
  userId : String
  role : TeamRole

structure Team where
  id : String
  status : AccountStatus

structure Project where
  id : String
  teamId : String
  slug : String

structure Session where
  id : String
  userId : String
  console : Bool := true
  expiresAt : ℕ
  revoked : Bool := false

/-- Times are milliseconds. -/
structure Directory where
  users : List User := []
  members : List Member := []
  teams : List Team := []
  projects : List Project := []
  sessions : List Session := []

def staffScopes (user : User) : List Scope :=
  if ¬ user.isStaff then []
  else
    let roles := user.staffRoles.reduceOption
    if roles = [] then [.admin] else roles.map .staff

namespace Directory
variable (d : Directory)

def member (teamId userId : String) : Option Member :=
  d.members.find? fun m => m.teamId = teamId ∧ m.userId = userId

def team (id : String) : Option Team := d.teams.find? fun t => t.id = id

def user (id : String) : Option User := d.users.find? fun u => u.id = id

def session (id : String) : Option Session := d.sessions.find? fun s => s.id = id

end Directory

/-! ## Credentials -/

structure ApiToken where
  teamId : String
  userId : String
  projectId : Option String := none
  scopes : List Scope
  isAgent : Bool := false
  spendCapMinor : Option ℕ := none
  requireApprovalFor : List String := []
  expiresAt : Option ℕ := none
  revokedAt : Option ℕ := none

structure Actor where
  userId : String
  teamId : String
  role : TeamRole
  projectId : Option String := none
  scopes : List Scope
  tokenId : Option ℕ := none
  sessionId : Option String := none
  isAgent : Bool := false
  requireApprovalFor : List String := []
  teamStatus : AccountStatus

/-- The scopes that a member has now, with the back office of staff. -/
def roleScopes (role : TeamRole) (user : User) : List Scope := scopesForRole role ++ staffScopes user

def resolveApiToken (d : Directory) (now id : ℕ) (token : ApiToken) : Option Actor :=
  if token.revokedAt.isSome then none
  else if ∃ e ∈ token.expiresAt, e < now then none
  else
    match d.team token.teamId, d.member token.teamId token.userId, d.user token.userId with
    | some team, some membership, some user =>
        if team.status = .closed then none
        else some
          { userId := token.userId
            teamId := token.teamId
            role := membership.role
            projectId := token.projectId
            scopes := token.scopes.filter (· ∈ roleScopes membership.role user)
            tokenId := some id
            isAgent := token.isAgent
            requireApprovalFor := token.requireApprovalFor
            teamStatus := team.status }
    | _, _, _ => none

/-- The claims of a session's JWT; that it verifies is granted. -/
structure Jwt where
  sub : String
  tid : String
  jti : String

def resolveSession (d : Directory) (now : ℕ) (jwt : Jwt) : Option (Session × Actor) :=
  match d.session jwt.jti with
  | none => none
  | some session =>
      if ¬ session.console ∨ session.revoked ∨ session.expiresAt < now ∨ session.userId ≠ jwt.sub then none
      else
        match d.team jwt.tid, d.member jwt.tid jwt.sub, d.user jwt.sub with
        | some team, some membership, some user =>
            if team.status = .closed then none
            else some (session,
              { userId := jwt.sub
                teamId := jwt.tid
                role := membership.role
                scopes := roleScopes membership.role user
                sessionId := some jwt.jti
                teamStatus := team.status })
        | _, _, _ => none

/-! ## Making a token -/

/-- The body of a request, as its decorators let it through. -/
structure CreateTokenDto where
  scopes : List Scope
  projectId : Option String := none
  isAgent : Option Bool := none
  spendCapMinor : Option ℕ := none
  requireApprovalFor : Option (List String) := none
  expiresInDays : Option ℕ := none
  notEmpty : scopes ≠ [] := by decide
  known : ∀ s ∈ scopes, s ∈ allScopes := by decide
  positive : expiresInDays ≠ some 0 := by decide

inductive Failure where
  | api (error : ApiError)
  /-- The database refuses the row. -/
  | database
  deriving DecidableEq

/-- An empty text is no project. -/
def truthy (text : Option String) : Option String := text.filter fun t => t ≠ ""

def resolveProject (d : Directory) (actor : Actor) (idOrSlug : Option String) :
    Except Failure Project :=
  let wanted := idOrSlug.getD "default"
  match d.projects.find? fun p => p.teamId = actor.teamId ∧ (p.id = wanted ∨ p.slug = wanted) with
  | none => .error (.api (.notFound "project" wanted))
  | some project =>
      if ∃ p ∈ truthy actor.projectId, p ≠ project.id then
        .error (.api (.forbidden "Token is not allowed to use this project"))
      else .ok project

def dayMs : ℕ := 86400000

/-- The largest time of a JavaScript date. -/
def maxTime : ℕ := 8640000000000000

def maxInt4 : ℕ := 2147483647

/-- The row is written with the project as a foreign key, a date and a 32 bit number. -/
def issueApiToken (d : Directory) (input : ApiToken) : Except Failure ApiToken :=
  if (∃ p ∈ input.projectId, ∀ project ∈ d.projects, project.id ≠ p) ∨
      (∃ e ∈ input.expiresAt, maxTime < e) ∨ (∃ cap ∈ input.spendCapMinor, maxInt4 < cap) then
    .error .database
  else .ok input

/-- What `createToken` asks `issueApiToken` for. -/
def newToken (actor : Actor) (dto : CreateTokenDto) (now : ℕ) : ApiToken where
  teamId := actor.teamId
  userId := actor.userId
  projectId := dto.projectId
  scopes := dto.scopes
  isAgent := dto.isAgent.getD false
  spendCapMinor := dto.spendCapMinor
  requireApprovalFor := dto.requireApprovalFor.getD []
  expiresAt := dto.expiresInDays.map fun days => now + days * dayMs

def createToken (d : Directory) (actor : Actor) (dto : CreateTokenDto) (now : ℕ) :
    Except Failure ApiToken :=
  if actor.isAgent then .error (.api (.forbidden "Agent tokens cannot create tokens"))
  else
    let disallowed := dto.scopes.filter (· ∉ actor.scopes)
    if disallowed ≠ [] then
      .error (.api (.forbidden ("You cannot grant scopes you do not have: " ++
        ", ".intercalate (disallowed.map Scope.name))))
    else
      match (truthy dto.projectId).map fun p => resolveProject d actor (some p) with
      | some (.error e) => .error e
      | _ => issueApiToken d (newToken actor dto now)

/-- The guard of `POST tokens`. -/
def mayPost (actor : Actor) : Bool :=
  actor.teamStatus ≠ .suspended ∧ Scope.on .iam .write ∈ actor.scopes

/-! ## What a credential may do -/

/-- One thing to do in a project at a time, without asking for approval. -/
structure Request where
  teamId : String
  projectId : String
  scope : Scope
  time : ℕ
  /-- What the credential has then spent in the month. -/
  spentMinor : ℕ := 0
  /-- The kind of action, if it is of one that approvals are about. -/
  kind : Option String := none

/-- An actor, and the limits of its credential. -/
structure Power where
  actor : Actor
  expiresAt : Option ℕ
  spendCapMinor : Option ℕ

def needs (actor : Actor) (kind : String) : Bool := actor.isAgent ∧ kind ∈ actor.requireApprovalFor

structure Power.allows (power : Power) (r : Request) : Prop where
  team : r.teamId = power.actor.teamId
  project : ∀ p, truthy power.actor.projectId = some p → r.projectId = p
  scope : r.scope ∈ power.actor.scopes
  time : ∀ e, power.expiresAt = some e → r.time ≤ e
  spend : ∀ cap, power.spendCapMinor = some cap → r.spentMinor ≤ cap
  approval : ∀ kind, r.kind = some kind → needs power.actor kind = false

def ApiToken.power (token : ApiToken) (actor : Actor) : Power :=
  ⟨actor, token.expiresAt, token.spendCapMinor⟩

/-- What an actor resolved from a token may do. -/
def May (d : Directory) (id : ℕ) (token : ApiToken) (r : Request) : Prop :=
  ∃ actor, resolveApiToken d r.time id token = some actor ∧ (token.power actor).allows r

/-! ## Runs -/

structure World where
  now : ℕ
  directory : Directory
  tokens : Table ℕ ApiToken
  /-- Not a column: what the creator of a token could do, what the creator of its creator's token
  could do, and so on. -/
  line : ℕ → List Power

/-- No token is known to descend from another. -/
def start (now : ℕ) (directory : Directory) (tokens : Table ℕ ApiToken) : World :=
  ⟨now, directory, tokens, fun _ => []⟩

inductive Bearer where
  | session (jwt : Jwt)
  | token (id : ℕ)

inductive Act where
  | createToken (bearer : Bearer) (dto : CreateTokenDto) (took : ℕ)
  | revoke (id : ℕ)
  /-- With its user, its team or its project. -/
  | delete (id : ℕ)
  /-- Time passes, and the directory is another. -/
  | pass (time : ℕ) (directory : Directory)

/-- What a bearer resolves to, with what it descends from. `ends` says whether the end of a console
session counts as a limit of its actor. -/
def resolveBearer (ends : Bool) (w : World) : Bearer → Option (Power × List Power)
  | .session jwt =>
      (resolveSession w.directory w.now jwt).map fun (session, actor) =>
        (⟨actor, if ends then some session.expiresAt else none, none⟩, [])
  | .token id =>
      match w.tokens.find id with
      | none => none
      | some token =>
          (resolveApiToken w.directory w.now id token).map fun actor => (token.power actor, w.line id)

/-- The row that a request creates, with its line. -/
def created (ends : Bool) (w : World) (bearer : Bearer) (dto : CreateTokenDto) (took : ℕ) :
    Option (ApiToken × List Power) :=
  match resolveBearer ends w bearer with
  | none => none
  | some (power, line) =>
      if ¬ mayPost power.actor then none
      else
        match createToken w.directory power.actor dto (w.now + took) with
        | .error _ => none
        | .ok token => some (token, power :: line)

def step (ends : Bool) (w : World) : Act → World
  | .createToken bearer dto took =>
      match created ends w bearer dto took with
      | none => { w with now := w.now + took }
      | some (token, line) =>
          { w with
            now := w.now + took
            tokens := w.tokens.put w.tokens.fresh token
            line := Function.update w.line w.tokens.fresh line }
  | .revoke id =>
      { w with
        tokens := w.tokens.modify id fun t => if t.revokedAt = none then { t with revokedAt := some w.now } else t }
  | .delete id => { w with tokens := w.tokens.erase id }
  | .pass time directory => { w with now := w.now + time, directory := directory }

end Prgd.Iam
