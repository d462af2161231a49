import Prgd.ApiError
import Prgd.Interleaving
import Prgd.Spend
import Prgd.Table
import Prgd.Text

/-!
# Email tokens and recovery codes

Signing in, resetting a password and verifying an address. Each read and each write of the database
is one step, and calls interleave in any order. A recovery code is checked against the user that the
call has read; the write that burns it is not awaited, and may come at any later time.

Hashes, the check of a password and the check of a code of the authenticator are parameters.
-/
namespace Prgd.Accounts
open Interleaving
open Spend (AccountStatus)

structure Crypto where
  /-- `sha256`, as hexadecimal digits. -/
  hash : Text → String
  /-- `argon2.verify`. -/
  verify : String → Text → Bool
  /-- `argon2.hash`, with the salt it draws. -/
  argon : ℕ → Text → String
  /-- `verifyTotp` on a sealed secret, at a time. -/
  verifyTotp : ℕ → String → Text → Bool
  toLowerCase : Text → Text

structure Membership where
  teamId : String
  owner : Bool
  deriving DecidableEq

structure User where
  email : Text
  passwordHash : Option String := none
  emailVerified : Option ℕ := none
  totpEnabled : Bool := false
  totpSecret : Option String := none
  totpRecoveryHashes : List String := []
  /-- In the order of their teams. -/
  memberships : List Membership := []
  /-- The engineer profile is of kind EXTERNAL. -/
  external : Bool := false
  deriving DecidableEq

inductive TokenKind where
  | verify | reset
  deriving DecidableEq

structure EmailToken where
  userId : ℕ
  kind : TokenKind
  tokenHash : String
  expiresAt : ℕ
  usedAt : Option ℕ := none
  deriving DecidableEq

structure Session where
  userId : ℕ
  teamId : String
  revokedAt : Option ℕ := none
  deriving DecidableEq

structure Identity where
  userId : ℕ
  provider : String
  email : Text
  emailVerified : Bool
  deriving DecidableEq

/-- A write that burns a code, under way. -/
structure Burn where
  userId : ℕ
  code : String
  left : List String
  deriving DecidableEq

structure Shared where
  users : Table ℕ User := .empty
  tokens : Table ℕ EmailToken := .empty
  sessions : List Session := []
  identities : List Identity := []
  teams : Table String AccountStatus := .empty
  burning : List Burn := []
  /-- Not a column: the tokens that a call has accepted. -/
  consumed : List ℕ := []
  /-- Not a column: the recovery codes that a call has accepted. -/
  accepted : List (ℕ × String) := []

structure LoginDto where
  email : Text
  password : Text
  totp : Option Text := none
  deriving DecidableEq

inductive Call where
  | login (dto : LoginDto)
  | resetPassword (token password : Text)
  | verifyEmail (token : Text)
  deriving DecidableEq

/-- What a call does with the token that it consumes. -/
inductive Use where
  | reset (password : Text)
  | verify
  deriving DecidableEq

def Use.kind : Use → TokenKind
  | .reset _ => .reset
  | .verify => .verify

inductive Pc where
  | idle
  | started (call : Call)
  /-- `passwordNotSet` reads the identities. -/
  | noPassword (userId : ℕ)
  /-- The user is read. -/
  | checking (dto : LoginDto) (userId : ℕ) (user : User)
  | issuing (userId : ℕ) (teamId : String)
  /-- The token is read, and found valid. -/
  | consuming (use : Use) (id : ℕ) (row : EmailToken)
  /-- `dropUnprovenIdentities` reads the user. -/
  | proving (userId : ℕ) (password : Text)
  | dropping (userId : ℕ) (password email : Text)
  | setting (userId : ℕ) (password : Text)
  | voiding (userId : ℕ)
  | signingOut (userId : ℕ)
  | verifying (userId : ℕ)
  | listing (userId : ℕ)
  | activating (teams : List String)
  | failed (error : ApiError)
  | done
  deriving DecidableEq

/-- What the world answers at a step. -/
structure Env where
  now : ℕ := 0
  salt : ℕ := 0
  deriving DecidableEq

inductive Act where
  | call (c : Call)
  | next (env : Env)
  /-- The database makes one of the writes that no call waits for. -/
  | burn (k : ℕ)
  /-- A mail is sent. -/
  | issue (userId : ℕ) (kind : TokenKind) (tokenHash : String) (expiresAt : ℕ)
  deriving DecidableEq

def unauthorized (message : String) : ApiError where
  status := 401
  code := "unauthorized"
  message := message

def tokenInvalid : ApiError where
  status := 400
  code := "token_invalid"
  message := "This link is invalid or has expired. Request a new one."

def providerLabel (provider : String) : String :=
  if provider = "google" then "Google" else if provider = "microsoft" then "Microsoft" else provider

def passwordNotSet (identities : List Identity) (userId : ℕ) : ApiError :=
  let providers := ((identities.filter fun i => i.userId = userId).map Identity.provider).dedup
  let names := providers.map providerLabel
  let how :=
    if names = [] then "the sign in button of the provider you signed up with"
    else "Continue with " ++ " or ".intercalate names
  { status := 401
    code := "password_not_set"
    message := "This account has no password. Sign in with " ++ how ++ ", or choose Forgot password to set one." }

/-- The outcome of `checkSecondFactor`. -/
inductive SecondFactor where
  | totp
  | recovery (code : String)
  | refused
  deriving DecidableEq

/-- A code of the authenticator, or an unused recovery code. -/
def checkSecondFactor (crypto : Crypto) (now : ℕ) (user : User) (code : Text) : SecondFactor :=
  if ∃ secret ∈ user.totpSecret, crypto.verifyTotp now secret code then .totp
  else
    let h := crypto.hash (crypto.toLowerCase (Text.trim code))
    if h ∈ user.totpRecoveryHashes then .recovery h else .refused

/-- The checks of `login` on the user that it has read. -/
inductive Checked where
  | failed (error : ApiError)
  | passed
  | recovered (code : String)
  deriving DecidableEq

def checkUser (crypto : Crypto) (now : ℕ) (dto : LoginDto) (user : User) : Checked :=
  if ¬ ∃ hash ∈ user.passwordHash, crypto.verify hash dto.password then
    .failed (unauthorized "Wrong email or password")
  else if user.external then
    .failed ⟨403, "ops_console_only", "This account signs in to the ops console only", []⟩
  else if ¬ user.totpEnabled then .passed
  else
    match dto.totp.filter (· ≠ []) with
    | none => .failed ⟨401, "totp_required", "Enter the code from your authenticator app", []⟩
    | some code =>
        match checkSecondFactor crypto now user code with
        | .totp => .passed
        | .recovery h => .recovered h
        | .refused => .failed ⟨401, "totp_invalid", "That code is not valid", []⟩

/-- `login`, after its checks. -/
def signIn (userId : ℕ) (user : User) : Pc :=
  match user.memberships with
  | [] => .failed (.forbidden "User belongs to no team")
  | m :: _ => .issuing userId m.teamId

namespace Shared

def userByEmail (s : Shared) (email : Text) : Option (ℕ × User) :=
  s.users.rows.find? fun u => u.2.email = email

def tokenByHash (s : Shared) (hash : String) : Option (ℕ × EmailToken) :=
  s.tokens.rows.find? fun t => t.2.tokenHash = hash

def updateUser (s : Shared) (userId : ℕ) (f : User → User) : Shared :=
  { s with users := s.users.modify userId f }

/-- The recovery codes of a user. -/
def codes (s : Shared) (userId : ℕ) : List String :=
  (s.users.find userId).elim [] User.totpRecoveryHashes

end Shared

def EmailToken.valid (row : EmailToken) (kind : TokenKind) (now : ℕ) : Prop :=
  row.kind = kind ∧ row.usedAt = none ∧ now ≤ row.expiresAt

instance (row : EmailToken) (kind : TokenKind) (now : ℕ) : Decidable (row.valid kind now) :=
  inferInstanceAs (Decidable (_ ∧ _ ∧ _))

/-- The read of `consumeToken`. -/
def findToken (crypto : Crypto) (env : Env) (s : Shared) (raw : Text) (use : Use) : Pc :=
  match s.tokenByHash (crypto.hash raw) with
  | none => .failed tokenInvalid
  | some (id, row) =>
      if row.valid use.kind env.now then .consuming use id row else .failed tokenInvalid

/-- After `consumeToken`. -/
def consumedBy (userId : ℕ) : Use → Pc
  | .reset password => .proving userId password
  | .verify => .verifying userId

/-- One step of a call. -/
def next (crypto : Crypto) (env : Env) (s : Shared) : Pc → Option (Shared × Pc)
  | .started (.login dto) =>
      match s.userByEmail (crypto.toLowerCase dto.email) with
      | none => some (s, .failed (unauthorized "Wrong email or password"))
      | some (id, user) =>
          some (s, if user.passwordHash = none then .noPassword id else .checking dto id user)
  | .started (.resetPassword token password) =>
      some (s, findToken crypto env s token (.reset password))
  | .started (.verifyEmail token) => some (s, findToken crypto env s token .verify)
  | .noPassword userId => some (s, .failed (passwordNotSet s.identities userId))
  | .checking dto userId user =>
      match checkUser crypto env.now dto user with
      | .failed e => some (s, .failed e)
      | .passed => some (s, signIn userId user)
      | .recovered h =>
          some ({ s with
            burning := s.burning ++ [⟨userId, h, user.totpRecoveryHashes.filter (· ≠ h)⟩]
            accepted := (userId, h) :: s.accepted }, signIn userId user)
  | .issuing userId teamId =>
      some ({ s with sessions := s.sessions ++ [{ userId := userId, teamId := teamId }] }, .done)
  | .consuming use id row =>
      some ({ s with
        tokens := s.tokens.modify id fun t => { t with usedAt := some env.now }
        consumed := id :: s.consumed }, consumedBy row.userId use)
  | .proving userId password =>
      match s.users.find userId with
      | none => some (s, .setting userId password)
      | some user =>
          some (s, if user.emailVerified.isSome then .setting userId password
            else .dropping userId password user.email)
  | .dropping userId password email =>
      some ({ s with
        identities := s.identities.filter fun i =>
          ¬ (i.userId = userId ∧ i.email = email ∧ i.emailVerified = false) }, .setting userId password)
  | .setting userId password =>
      some (s.updateUser userId fun u => { u with passwordHash := some (crypto.argon env.salt password) },
        .voiding userId)
  | .voiding userId =>
      some ({ s with
        tokens := s.tokens.amend fun _ t =>
          if t.userId = userId ∧ t.kind = .reset ∧ t.usedAt = none then { t with usedAt := some env.now }
          else t }, .signingOut userId)
  | .signingOut userId =>
      some ({ s with
        sessions := s.sessions.map fun t =>
          if t.userId = userId ∧ t.revokedAt = none then { t with revokedAt := some env.now } else t },
        .done)
  | .verifying userId =>
      some (s.updateUser userId fun u => { u with emailVerified := some env.now }, .listing userId)
  | .listing userId =>
      let memberships := (s.users.find userId).elim [] User.memberships
      some (s, .activating ((memberships.filter Membership.owner).map Membership.teamId))
  | .activating teams =>
      some ({ s with
        teams := s.teams.amend fun id status =>
          if id ∈ teams ∧ status = .pendingVerification then .active else status }, .done)
  | .idle | .failed _ | .done => none

def trans (crypto : Crypto) (_ : ℕ) (s : Shared) (a : Act) (pc : Pc) : Option (Shared × Pc) :=
  match a with
  | .call c => if pc = .idle then some (s, .started c) else none
  | .next env => next crypto env s pc
  | .burn k =>
      match s.burning[k]? with
      | none => none
      | some b =>
          some ({ s.updateUser b.userId fun u => { u with totpRecoveryHashes := b.left } with
            burning := s.burning.eraseIdx k }, pc)
  | .issue userId kind tokenHash expiresAt =>
      if s.tokenByHash tokenHash = none then
        some ({ s with tokens := s.tokens.put s.tokens.fresh ⟨userId, kind, tokenHash, expiresAt, none⟩ }, pc)
      else none

abbrev step (crypto : Crypto) : World Shared Pc → ℕ × Act → World Shared Pc :=
  callerStep (trans crypto)

/-- No call has begun. -/
def start (users : Table ℕ User) (tokens : Table ℕ EmailToken) (identities : List Identity)
    (teams : Table String AccountStatus) : World Shared Pc :=
  ⟨{ users := users, tokens := tokens, identities := identities, teams := teams }, fun _ => .idle⟩

/-- Each token is accepted once and each recovery code is accepted once; a code whose burn has been
written is not valid any more. -/
structure OneTime (s : Shared) : Prop where
  tokens : s.consumed.Nodup
  codes : s.accepted.Nodup
  burnt : ∀ userId code, (userId, code) ∈ s.accepted →
    (∃ b ∈ s.burning, b.userId = userId ∧ b.code = code) ∨ code ∉ s.codes userId

end Prgd.Accounts
