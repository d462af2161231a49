import Prgd.Credentials
import Prgd.Linking

/-!
# Accounts that strangers prepare

Anyone can make an account with an address that is not theirs, and give it a password, sessions and
identities. Later the owner of the mailbox proves the address, by a reset link or by a sign in with
an identity whose provider vouches for it, and what the strangers have set up must be gone.

Calls come one after another, each as a whole. Every row has a note of who set it up. Addresses are in
lower case, and an account keeps a team; passwords stand for their hashes. A completion is redeemed
at once or never. Second factors are left out, and so are the mails.

A reset removes the password and the sessions, a sign in removes neither, and both remove only those
identities that carry the address itself.
-/
namespace Prgd.PreHijacking
open OAuth Interleaving
open Accounts (EmailToken)

/-- Who is at the other end of a call: the owner of the mailbox, or anyone else. -/
inductive Party where
  | owner | stranger
  deriving DecidableEq

structure User where
  email : Text
  passwordHash : Option Text := none
  emailVerified : Option ℕ := none
  /-- The engineer profile is of kind EXTERNAL. -/
  external : Bool := false
  /-- Not a column: who chose the password. -/
  passwordBy : Party
  deriving DecidableEq

structure OAuthIdentity where
  userId : ℕ
  provider : ProviderId
  subject : String
  /-- Empty when the provider names none. -/
  email : Text
  emailVerified : Bool
  /-- Not a column: who linked it. -/
  linkedBy : Party
  deriving DecidableEq

structure Session where
  userId : ℕ
  expiresAt : ℕ
  revokedAt : Option ℕ := none
  /-- Not a column: who holds its token. -/
  heldBy : Party
  deriving DecidableEq

def Session.live (s : Session) (now : ℕ) : Prop := s.revokedAt = none ∧ now ≤ s.expiresAt

instance (s : Session) (now : ℕ) : Decidable (s.live now) := inferInstanceAs (Decidable (_ ∧ _))

structure Db where
  users : Table ℕ User := .empty
  identities : Table ℕ OAuthIdentity := .empty
  sessions : Table ℕ Session := .empty
  tokens : Table ℕ EmailToken := .empty

/-- The invitation of an address to a team. -/
structure Invitation where
  token : String
  email : Text

structure PendingLogin where
  intent : Intent
  returnPath : String := "/servers"
  invite : Option Invitation := none
  linkUserId : Option ℕ := none

/-! ## The calls -/

def SESSION_TTL : ℕ := 86400000

namespace Db
variable (db : Db) (now : ℕ) (who : Party)

def userByEmail (email : Text) : Option (ℕ × User) :=
  db.users.rows.find? fun u => u.2.email = email

def identityBy (provider : ProviderId) (subject : String) : Option (ℕ × OAuthIdentity) :=
  db.identities.rows.find? fun i => i.2.provider = provider ∧ i.2.subject = subject

def addUser (user : User) : Db := { db with users := db.users.put db.users.fresh user }

def addIdentity (i : OAuthIdentity) : Db :=
  { db with identities := db.identities.put db.identities.fresh i }

def issueSession (userId : ℕ) : Db :=
  let s : Session := { userId := userId, expiresAt := now + SESSION_TTL, heldBy := who }
  { db with sessions := db.sessions.put db.sessions.fresh s }

/-- A new user with a new team. -/
def createAccount (email : Text) (password : Option Text) (emailVerified : Bool) : Option (ℕ × Db) :=
  if (db.userByEmail email).isSome then none
  else some (db.users.fresh, db.addUser {
    email := email
    passwordHash := password
    emailVerified := if emailVerified then some now else none
    passwordBy := who })

def signup (email password : Text) : Option Db :=
  (db.createAccount now who email (some password) false).map fun r =>
    r.2.issueSession now who r.1

def login (email password : Text) : Option Db :=
  match db.userByEmail email with
  | none => none
  | some (id, user) =>
    if user.passwordHash ≠ some password then none
    else if user.external then none
    else some (db.issueSession now who id)

def forgotPassword (email : Text) (tokenHash : String) : Db :=
  match db.userByEmail email with
  | none => db
  | some (id, _) =>
    let row : EmailToken := ⟨id, .reset, tokenHash, now + 3600000, none⟩
    { db with tokens := db.tokens.put db.tokens.fresh row }

/-- The row of the identity, which is there already, or is new. -/
def linkIdentity (userId : ℕ) (a : ProviderAccount) : Option Db :=
  match db.identityBy a.provider a.subject with
  | some (_, other) => if other.userId = userId then some db else none
  | none => some (db.addIdentity
      ⟨userId, a.provider, a.subject, a.email.getD [], a.emailVerified, who⟩)

/-- What a proof of the mailbox removes, while the email is unconfirmed. -/
def dropUnprovenIdentities (userId : ℕ) : Db :=
  match db.users.find userId with
  | none => db
  | some user =>
    if user.emailVerified.isSome then db
    else { db with identities := db.identities.filter fun _ i =>
      ¬ (i.userId = userId ∧ i.email = user.email ∧ i.emailVerified = false) }

def proveEmail (userId : ℕ) : Option Db :=
  match db.users.find userId with
  | none => none
  | some user =>
    if user.emailVerified.isSome then some db
    else
      let db := db.dropUnprovenIdentities userId
      some { db with users := db.users.modify userId fun u => { u with emailVerified := some now } }

/-- A new person: a user with a new team like signup, or a member of the team that invited them. -/
def createUser (a : ProviderAccount) (p : PendingLogin) : Option (Db × Completion) :=
  match a.email with
  | none => none
  | some email =>
    match p.invite with
    | some invite =>
      -- the emailed invitation proves the address
      if invite.email ≠ email then none
      else if (db.userByEmail email).isSome then none
      else
        let id := db.users.fresh
        let db := db.addUser { email := email, emailVerified := some now, passwordBy := who }
        (db.linkIdentity who id { a with emailVerified := true }).map fun db =>
          (db.issueSession now who id, {
            provider := a.provider
            userId := id
            returnPath := "/team"
            created := true
            session := some invite.token })
    | none =>
      (db.createAccount now who email none a.emailVerified).bind fun r =>
        (r.2.linkIdentity who r.1 a).map fun db =>
          (db, {
            provider := a.provider
            userId := r.1
            returnPath := "/security?welcome=1"
            created := true })

/-- The provider sends the browser back: nothing to redeem after a link. -/
def callback (p : PendingLogin) (a : ProviderAccount) : Option (Db × Option Completion) :=
  let identity := db.identityBy a.provider a.subject
  let emailUser := a.email.bind db.userByEmail
  let decision := decideLink
    { intent := p.intent
      account := a
      linkedUserId := identity.map fun i => i.2.userId
      emailUserId := emailUser.map Prod.fst
      currentUserId := p.linkUserId }
  match decision with
  | .refuse _ => none
  | .link userId => (db.linkIdentity who userId a).map fun db => (db, none)
  | .already_linked _ => some (db, none)
  | .sign_in userId =>
    some (db, some {
      provider := a.provider
      userId := userId
      returnPath := p.returnPath
      created := false
      identityId := identity.map Prod.fst
      invite := p.invite.map Invitation.token })
  | .link_and_sign_in userId =>
    some (db, some {
      provider := a.provider
      userId := userId
      returnPath := p.returnPath
      created := false
      link := some a
      invite := p.invite.map Invitation.token })
  | .create => (db.createUser now who a p).map fun r => (r.1, some r.2)

/-- A session comes from the callback, from the invitation or from here. -/
def complete (c : Completion) : Option Db :=
  match db.users.find c.userId with
  | none => none
  | some user =>
    if user.external then none
    else
      let linked :=
        match c.link with
        | none => some db
        | some a =>
          (if a.emailVerified then db.proveEmail now c.userId else some db).bind fun db =>
            db.linkIdentity who c.userId a
      linked.map fun db => if c.session.isSome then db else db.issueSession now who c.userId

/-- A sign in or a sign up: the callback and, if its code is redeemed, the completion. -/
def social (p : PendingLogin) (a : ProviderAccount) (redeemed : Bool) : Option Db :=
  if p.intent = .link then none
  else (db.callback now who p a).bind fun r =>
    match r.2 with
    | none => some r.1
    | some c => if redeemed then r.1.complete now who c else some r.1

/-- Linking from Security starts with a live session. -/
def linkFromSecurity (sessionId : ℕ) (a : ProviderAccount) : Option Db :=
  match db.sessions.find sessionId with
  | none => none
  | some s =>
    if s.live now then
      let pending : PendingLogin :=
        { intent := .link, returnPath := "/security", linkUserId := some s.userId }
      (db.callback now who pending a).map Prod.fst
    else none

/-- Unlinking must leave a way to sign in. -/
def unlink (sessionId identityId : ℕ) : Option Db :=
  match db.sessions.find sessionId, db.identities.find identityId with
  | some s, some row =>
    if s.live now ∧ row.userId = s.userId then
      let others := db.identities.rows.filter fun i => i.2.userId = s.userId ∧ i.1 ≠ identityId
      match db.users.find s.userId with
      | none => none
      | some user =>
        if user.passwordHash = none ∧ others = [] then none
        else some { db with identities := db.identities.erase identityId }
    else none
  | _, _ => none

def resetPassword (tokenId : ℕ) (password : Text) : Option Db :=
  match db.tokens.find tokenId with
  | none => none
  | some row =>
    if row.valid .reset now then
      let db := { db with tokens := db.tokens.modify tokenId fun t => { t with usedAt := some now } }
      let db := db.dropUnprovenIdentities row.userId
      some { db with
        users := db.users.modify row.userId fun u =>
          { u with passwordHash := some password, passwordBy := who }
        tokens := db.tokens.amend fun _ t =>
          if t.userId = row.userId ∧ t.kind = .reset ∧ t.usedAt = none then
            { t with usedAt := some now } else t
        sessions := db.sessions.amend fun _ s =>
          if s.userId = row.userId ∧ s.revokedAt = none then { s with revokedAt := some now }
          else s }
    else none

end Db

/-! ## Strangers and the owner -/

/-- What a stranger may do. -/
inductive Act where
  | signup (email password : Text)
  | login (email password : Text)
  | social (p : PendingLogin) (a : ProviderAccount) (redeemed : Bool)
  | linkFromSecurity (sessionId : ℕ) (a : ProviderAccount)
  | unlink (sessionId identityId : ℕ)
  | forgotPassword (email : Text) (tokenHash : String)

def step (db : Db) (a : ℕ × Act) : Db :=
  match a.2 with
  | .signup email password => (db.signup a.1 .stranger email password).getD db
  | .login email password => (db.login a.1 .stranger email password).getD db
  | .social p account redeemed => (db.social a.1 .stranger p account redeemed).getD db
  | .linkFromSecurity sessionId account =>
    (db.linkFromSecurity a.1 .stranger sessionId account).getD db
  | .unlink sessionId identityId => (db.unlink a.1 sessionId identityId).getD db
  | .forgotPassword email tokenHash => db.forgotPassword a.1 email tokenHash

/-- How the owner proves the address. -/
inductive Proof where
  | reset (tokenId : ℕ) (password : Text)
  | signIn (p : PendingLogin) (a : ProviderAccount)

def Proof.run (db : Db) (now : ℕ) : Proof → Option Db
  | .reset tokenId password => db.resetPassword now .owner tokenId password
  | .signIn p a => db.social now .owner p a true

/-- The provider says that the person controls the address. -/
def VouchedFor (e : Text) (a : ProviderAccount) : Prop := a.email = some e ∧ a.emailVerified = true

/-- The identities of the owner: no stranger has one of them, nor one that is vouched for the
address, nor an invitation that was mailed to it. -/
def Foreign (e : Text) (mine : ProviderId × String → Prop) : Act → Prop
  | .social p a _ => ¬ VouchedFor e a ∧ ¬ mine (a.provider, a.subject) ∧
      ∀ invite ∈ p.invite, invite.email ≠ e
  | .linkFromSecurity _ a => ¬ VouchedFor e a ∧ ¬ mine (a.provider, a.subject)
  | _ => True

/-- The proof is of this address: the link was mailed to it, or the owner's identity is vouched
for it. -/
def Proof.Of (e : Text) (mine : ProviderId × String → Prop) (db : Db) : Proof → Prop
  | .reset tokenId _ => ∃ row user, db.tokens.find tokenId = some row ∧
      db.users.find row.userId = some user ∧ user.email = e
  | .signIn _ a => VouchedFor e a ∧ mine (a.provider, a.subject)

/-- The rows of an account that still work are the owner's. -/
def SafeAt (now : ℕ) (db : Db) (id : ℕ) : Prop :=
  (∀ k i, db.identities.find k = some i → i.userId = id → i.linkedBy = .owner) ∧
  ∀ k s, db.sessions.find k = some s → s.userId = id → s.live now → s.heldBy = .owner

/-- Nothing that a stranger has set up signs in to the account with the address. -/
def Safe (e : Text) (now : ℕ) (db : Db) : Prop :=
  ∀ id user, db.users.find id = some user → user.email = e →
    (user.passwordHash.isSome = true → user.passwordBy = .owner) ∧ SafeAt now db id

/-- Every identity of the account carries the address, with nobody to vouch for it. -/
def OwnAddressOnly (e : Text) (db : Db) (id : ℕ) : Prop :=
  ∀ k i, db.identities.find k = some i → i.userId = id → i.email = e ∧ i.emailVerified = false

/-- What the strangers may have prepared for the proof to be enough. -/
def Proof.Enough (e : Text) (now : ℕ) (db : Db) (proof : Proof) : Prop :=
  ∀ id user, db.users.find id = some user → user.email = e → OwnAddressOnly e db id ∧
    match proof with
    | .reset _ _ => True
    | .signIn _ _ => user.passwordHash = none ∧
        ∀ k s, db.sessions.find k = some s → s.userId = id → ¬ s.live now

/-! ## What strangers prepare -/

/-- What strangers can have brought about before the address is proved. -/
structure Prepared (e : Text) (mine : ProviderId × String → Prop) (db : Db) : Prop where
  account : ∀ id u, db.users.find id = some u → u.email = e →
    u.emailVerified = none ∧ (u.passwordHash.isSome = true → u.passwordBy = .stranger)
  one : ∀ id id' u u', db.users.find id = some u → db.users.find id' = some u' →
    u.email = e → u'.email = e → id = id'
  identities : ∀ k i, db.identities.find k = some i → (db.users.find i.userId).isSome = true ∧
    i.linkedBy = .stranger ∧ ¬ mine (i.provider, i.subject)
  sessions : ∀ k s, db.sessions.find k = some s →
    (db.users.find s.userId).isSome = true ∧ s.heldBy = .stranger

section
variable {e : Text} {mine : ProviderId × String → Prop} {db db' : Db} {now : ℕ}

theorem userByEmail_eq_some {email : Text} {r : ℕ × User} (h : db.userByEmail email = some r) :
    db.users.find r.1 = some r.2 ∧ r.2.email = email := by
  have hmem := List.mem_of_find?_eq_some h
  have htest := List.find?_some h
  exact ⟨Table.find_of_mem hmem, by simpa using htest⟩

theorem userByEmail_eq_none {email : Text} (h : db.userByEmail email = none) {id : ℕ} {u : User}
    (hu : db.users.find id = some u) : u.email ≠ email := by
  have htest := List.find?_eq_none.mp h (id, u) (Table.find_mem hu)
  simpa using htest

theorem identityBy_eq_some {provider : ProviderId} {subject : String} {r : ℕ × OAuthIdentity}
    (h : db.identityBy provider subject = some r) : db.identities.find r.1 = some r.2 ∧
      r.2.provider = provider ∧ r.2.subject = subject := by
  have hmem := List.mem_of_find?_eq_some h
  have htest := List.find?_some h
  exact ⟨Table.find_of_mem hmem, by simpa using htest⟩

theorem linkIdentity_cases {who : Party} {id : ℕ} {a : ProviderAccount}
    (h : db.linkIdentity who id a = some db') :
    (∃ k i, db.identityBy a.provider a.subject = some (k, i) ∧ db' = db) ∨
      db.identityBy a.provider a.subject = none ∧ db' = db.addIdentity
        ⟨id, a.provider, a.subject, a.email.getD [], a.emailVerified, who⟩ := by
  unfold Db.linkIdentity at h
  cases hby : db.identityBy a.provider a.subject with
  | none =>
    rw [hby] at h
    exact .inr ⟨rfl, (Option.some.inj h).symm⟩
  | some r =>
    rw [hby] at h
    dsimp only at h
    split_ifs at h
    exact .inl ⟨r.1, r.2, rfl, (Option.some.inj h).symm⟩

theorem createAccount_cases {who : Party} {email : Text} {password : Option Text} {verified : Bool}
    {r : ℕ × Db} (h : db.createAccount now who email password verified = some r) :
    db.userByEmail email = none ∧ r = (db.users.fresh, db.addUser {
      email := email
      passwordHash := password
      emailVerified := if verified then some now else none
      passwordBy := who }) := by
  unfold Db.createAccount at h
  by_cases htaken : (db.userByEmail email).isSome = true
  · rw [if_pos htaken] at h
    cases h
  · rw [if_neg htaken] at h
    exact ⟨by simpa using htaken, (Option.some.inj h).symm⟩

theorem isSome_addUser {u : User} {id : ℕ} (h : (db.users.find id).isSome = true) :
    ((db.addUser u).users.find id).isSome = true := by
  obtain ⟨v, hv⟩ := Option.isSome_iff_exists.mp h
  exact Option.isSome_iff_exists.mpr ⟨v, Table.find_put_of_some hv⟩

theorem find_addUser (u : User) : (db.addUser u).users.find db.users.fresh = some u :=
  Table.find_put_self ..

theorem Prepared.addUser {u : User} (h : Prepared e mine db)
    (hu : u.email = e → u.emailVerified = none ∧
      (u.passwordHash.isSome = true → u.passwordBy = .stranger))
    (hfree : db.userByEmail u.email = none) : Prepared e mine (db.addUser u) where
  account id v hv he := by
    rcases Table.find_put_fresh hv with ⟨-, rfl⟩ | hold
    · exact hu he
    · exact h.account id v hold he
  one id id' v v' hv hv' he he' := by
    rcases Table.find_put_fresh hv with ⟨hid, rfl⟩ | hold
    · rcases Table.find_put_fresh hv' with ⟨hid', -⟩ | hold'
      · rw [hid, hid']
      · exact (userByEmail_eq_none hfree hold' (he'.trans he.symm)).elim
    · rcases Table.find_put_fresh hv' with ⟨-, rfl⟩ | hold'
      · exact (userByEmail_eq_none hfree hold (he.trans he'.symm)).elim
      · exact h.one id id' v v' hold hold' he he'
  identities k i hi := ⟨isSome_addUser (h.identities k i hi).1, (h.identities k i hi).2⟩
  sessions k s hs := ⟨isSome_addUser (h.sessions k s hs).1, (h.sessions k s hs).2⟩

theorem Prepared.addIdentity {i : OAuthIdentity} (h : Prepared e mine db)
    (hi : (db.users.find i.userId).isSome = true ∧ i.linkedBy = .stranger ∧
      ¬ mine (i.provider, i.subject)) : Prepared e mine (db.addIdentity i) where
  account := h.account
  one := h.one
  identities k j hj := by
    rcases Table.find_put_fresh hj with ⟨-, rfl⟩ | hold
    · exact hi
    · exact h.identities k j hold
  sessions := h.sessions

theorem Prepared.issueSession {id : ℕ} (h : Prepared e mine db)
    (hid : (db.users.find id).isSome = true) :
    Prepared e mine (db.issueSession now .stranger id) where
  account := h.account
  one := h.one
  identities := h.identities
  sessions k s hs := by
    rcases Table.find_put_fresh hs with ⟨-, rfl⟩ | hold
    · exact ⟨hid, rfl⟩
    · exact h.sessions k s hold

theorem Prepared.eraseIdentity (h : Prepared e mine db) (id : ℕ) :
    Prepared e mine { db with identities := db.identities.erase id } where
  account := h.account
  one := h.one
  identities k i hi := by
    have hold : db.identities.find k = some i := by
      rw [Table.find_erase] at hi
      split_ifs at hi
      exact hi
    exact h.identities k i hold
  sessions := h.sessions

theorem Prepared.linkIdentity {id : ℕ} {a : ProviderAccount} (h : Prepared e mine db)
    (hid : (db.users.find id).isSome = true) (ha : ¬ mine (a.provider, a.subject))
    (hlink : db.linkIdentity .stranger id a = some db') :
    Prepared e mine db' ∧ db'.users = db.users := by
  rcases linkIdentity_cases hlink with ⟨-, -, -, rfl⟩ | ⟨-, rfl⟩
  · exact ⟨h, rfl⟩
  · exact ⟨h.addIdentity ⟨hid, rfl, ha⟩, rfl⟩

/-- A proof of another address than this one. -/
theorem Prepared.proveEmail {id : ℕ} (h : Prepared e mine db)
    (hother : ∀ u, db.users.find id = some u → u.email ≠ e)
    (hprove : db.proveEmail now id = some db') :
    Prepared e mine db' ∧ ∀ k, (db.users.find k).isSome = true →
      (db'.users.find k).isSome = true := by
  unfold Db.proveEmail at hprove
  cases hu : db.users.find id with
  | none => rw [hu] at hprove; cases hprove
  | some u =>
    rw [hu] at hprove
    dsimp only at hprove
    split_ifs at hprove with hverified
    · cases hprove
      exact ⟨h, fun k hk => hk⟩
    · have hdrop : db.dropUnprovenIdentities id = { db with
          identities := db.identities.filter fun _ i => decide
            (¬ (i.userId = id ∧ i.email = u.email ∧ i.emailVerified = false)) } := by
        unfold Db.dropUnprovenIdentities
        rw [hu]
        exact if_neg hverified
      rw [hdrop, Option.some.injEq] at hprove
      subst hprove
      have hstays : ∀ k, (db.users.find k).isSome = true → ((db.users.modify id fun u =>
          { u with emailVerified := some now }).find k).isSome = true := fun k hk => by
        rw [Table.find_modify]
        split_ifs
        · rw [Option.isSome_map]; exact hk
        · exact hk
      have hold : ∀ k v, (db.users.modify id fun u => { u with emailVerified := some now }).find k =
          some v → v.email = e → db.users.find k = some v := fun k v hv he => by
        rw [Table.find_modify] at hv
        split_ifs at hv with hk
        · obtain ⟨w, hw, rfl⟩ := Option.map_eq_some_iff.mp hv
          exact (hother w (hk ▸ hw) he).elim
        · exact hv
      refine ⟨⟨fun k v hv he => h.account k v (hold k v hv he) he, fun k k' v v' hv hv' he he' =>
        h.one k k' v v' (hold k v hv he) (hold k' v' hv' he') he he', fun k i hi => ?_,
        fun k s hs => ⟨hstays _ (h.sessions k s hs).1, (h.sessions k s hs).2⟩⟩, hstays⟩
      have hi' := h.identities k i (Table.find_filter.mp hi).1
      exact ⟨hstays _ hi'.1, hi'.2⟩

/-- A completion that strangers redeem: what it links is theirs, and proves no email but theirs. -/
def Redeemable (e : Text) (mine : ProviderId × String → Prop) (db : Db) (c : Completion) : Prop :=
  ∀ a ∈ c.link, ¬ mine (a.provider, a.subject) ∧
    (a.emailVerified = true → ∀ u, db.users.find c.userId = some u → u.email ≠ e)

theorem Prepared.complete {c : Completion} (h : Prepared e mine db) (hc : Redeemable e mine db c)
    (hdone : db.complete now .stranger c = some db') : Prepared e mine db' := by
  unfold Db.complete at hdone
  cases hu : db.users.find c.userId with
  | none => rw [hu] at hdone; cases hdone
  | some u =>
    rw [hu] at hdone
    dsimp only at hdone
    by_cases hexternal : u.external = true
    · rw [if_pos hexternal] at hdone
      cases hdone
    rw [if_neg hexternal] at hdone
    obtain ⟨linked, hlinked, rfl⟩ := Option.map_eq_some_iff.mp hdone
    have hprepared : Prepared e mine linked ∧ (linked.users.find c.userId).isSome = true := by
      cases hlink : c.link with
      | none =>
        rw [hlink] at hlinked
        cases hlinked
        exact ⟨h, by rw [hu]; rfl⟩
      | some a =>
        rw [hlink] at hlinked
        obtain ⟨ha, hother⟩ := hc a hlink
        obtain ⟨proved, hproved, hrow⟩ := Option.bind_eq_some_iff.mp hlinked
        have hstep : Prepared e mine proved ∧ (proved.users.find c.userId).isSome = true := by
          split_ifs at hproved with hv
          · obtain ⟨hp, hstays⟩ := h.proveEmail (hother hv) hproved
            exact ⟨hp, hstays _ (by rw [hu]; rfl)⟩
          · cases hproved
            exact ⟨h, by rw [hu]; rfl⟩
        obtain ⟨hp, husers⟩ := hstep.1.linkIdentity hstep.2 ha hrow
        exact ⟨hp, by rw [husers]; exact hstep.2⟩
    split_ifs
    · exact hprepared.1
    · exact hprepared.1.issueSession hprepared.2

theorem Prepared.createUser {a : ProviderAccount} {p : PendingLogin} {r : Db × Completion}
    (h : Prepared e mine db) (ha : ¬ VouchedFor e a) (hmine : ¬ mine (a.provider, a.subject))
    (hinvite : ∀ invite ∈ p.invite, invite.email ≠ e)
    (hr : db.createUser now .stranger a p = some r) : Prepared e mine r.1 ∧ r.2.link = none := by
  unfold Db.createUser at hr
  cases hemail : a.email with
  | none => rw [hemail] at hr; cases hr
  | some email =>
    rw [hemail] at hr
    cases hp : p.invite with
    | some invite =>
      rw [hp] at hr
      dsimp only at hr
      split_ifs at hr with hmatch hfree
      obtain ⟨linked, hlinked, rfl⟩ := Option.map_eq_some_iff.mp hr
      have hother : email ≠ e := fun he => hinvite invite hp (by rw [← he]; simpa using hmatch)
      have hadded : Prepared e mine (db.addUser
          { email := email, emailVerified := some now, passwordBy := .stranger }) :=
        h.addUser (fun he => (hother he).elim) (by simpa using hfree)
      obtain ⟨hlink, husers⟩ := hadded.linkIdentity (a := ⟨a.provider, a.subject, some email, true, a.name, a.tenantId⟩)
        (by rw [find_addUser]; rfl) hmine hlinked
      exact ⟨hlink.issueSession (by rw [husers, find_addUser]; rfl), rfl⟩
    | none =>
      rw [hp] at hr
      obtain ⟨made, hmade, hmap⟩ := Option.bind_eq_some_iff.mp hr
      obtain ⟨hfree, rfl⟩ := createAccount_cases hmade
      obtain ⟨linked, hlinked, rfl⟩ := Option.map_eq_some_iff.mp hmap
      have hadded : Prepared e mine (db.addUser {
          email := email
          passwordHash := none
          emailVerified := if a.emailVerified then some now else none
          passwordBy := .stranger }) := by
        refine h.addUser (fun he => ⟨if_neg fun hv => ha ⟨?_, hv⟩, nofun⟩) hfree
        rw [hemail]
        exact congrArg some he
      exact ⟨(hadded.linkIdentity (by rw [find_addUser]; rfl) hmine hlinked).1, rfl⟩

theorem Prepared.callback {a : ProviderAccount} {p : PendingLogin} {r : Db × Option Completion}
    (h : Prepared e mine db) (ha : ¬ VouchedFor e a) (hmine : ¬ mine (a.provider, a.subject))
    (hinvite : ∀ invite ∈ p.invite, invite.email ≠ e)
    (hcurrent : p.intent = .link → ∀ u ∈ p.linkUserId, (db.users.find u).isSome = true)
    (hr : db.callback now .stranger p a = some r) :
    Prepared e mine r.1 ∧ ∀ c, r.2 = some c → Redeemable e mine r.1 c := by
  unfold Db.callback at hr
  dsimp only at hr
  split at hr
  case h_1 => cases hr
  case h_2 userId hdecision =>
    obtain ⟨linked, hlinked, rfl⟩ := Option.map_eq_some_iff.mp hr
    obtain ⟨hintent, hcurrentUser⟩ := decideLink_link hdecision
    have hid := hcurrent hintent userId hcurrentUser
    refine ⟨(h.linkIdentity hid hmine hlinked).1, fun c hc => ?_⟩
    cases hc
  case h_3 =>
    cases hr
    refine ⟨h, fun c hc => ?_⟩
    cases hc
  case h_4 userId hdecision =>
    cases hr
    refine ⟨h, fun c hc => ?_⟩
    cases hc
    intro b hb
    cases hb
  case h_5 userId hdecision =>
    cases hr
    refine ⟨h, fun c hc => ?_⟩
    cases hc
    intro b hb
    cases hb
    refine ⟨hmine, fun hv u hu he => ?_⟩
    obtain ⟨found, hfound, hid⟩ := Option.map_eq_some_iff.mp (decideLink_link_and_sign_in hdecision)
    obtain ⟨email, hemail, hby⟩ := Option.bind_eq_some_iff.mp hfound
    obtain ⟨hfind, hsame⟩ := userByEmail_eq_some hby
    rw [hid] at hfind
    rw [hu] at hfind
    cases hfind
    exact ha ⟨by rw [hemail, ← hsame, he], hv⟩
  case h_6 hdecision =>
    obtain ⟨made, hmade, rfl⟩ := Option.map_eq_some_iff.mp hr
    obtain ⟨hp, hlink⟩ := h.createUser ha hmine hinvite hmade
    refine ⟨hp, fun c hc => ?_⟩
    cases hc
    intro b hb
    rw [hlink] at hb
    cases hb

/-- One call of a stranger. -/
theorem Prepared.step {act : ℕ × Act} (h : Prepared e mine db) (hforeign : Foreign e mine act.2) :
    Prepared e mine (step db act) := by
  obtain ⟨now, act⟩ := act
  cases act with
  | signup email password =>
    change Prepared e mine ((db.signup now .stranger email password).getD db)
    cases hr : db.signup now .stranger email password with
    | none => exact h
    | some db' =>
      obtain ⟨made, hmade, rfl⟩ := Option.map_eq_some_iff.mp hr
      obtain ⟨hfree, hmade⟩ := createAccount_cases hmade
      rw [hmade]
      exact (h.addUser (fun _ => ⟨rfl, fun _ => rfl⟩) hfree).issueSession (by rw [find_addUser]; rfl)
  | login email password =>
    change Prepared e mine ((db.login now .stranger email password).getD db)
    unfold Db.login
    cases hby : db.userByEmail email with
    | none => exact h
    | some r =>
      dsimp only
      split_ifs
      · exact h
      · exact h
      · refine h.issueSession ?_
        rw [(userByEmail_eq_some hby).1]
        rfl
  | social p a redeemed =>
    change Prepared e mine ((db.social now .stranger p a redeemed).getD db)
    obtain ⟨ha, hmine, hinvite⟩ := hforeign
    unfold Db.social
    by_cases hintent : p.intent = .link
    · rw [if_pos hintent]
      exact h
    rw [if_neg hintent]
    cases hr : db.callback now .stranger p a with
    | none => exact h
    | some r =>
      obtain ⟨hr1, hredeem⟩ := h.callback ha hmine hinvite (fun hlink => (hintent hlink).elim) hr
      rw [Option.bind_some]
      cases hc : r.2 with
      | none => exact hr1
      | some c =>
        dsimp only
        split_ifs
        · cases hdone : r.1.complete now .stranger c with
          | none => exact h
          | some db' => exact hr1.complete (hredeem c hc) hdone
        · exact hr1
  | linkFromSecurity sessionId a =>
    change Prepared e mine ((db.linkFromSecurity now .stranger sessionId a).getD db)
    obtain ⟨ha, hmine⟩ := hforeign
    unfold Db.linkFromSecurity
    cases hs : db.sessions.find sessionId with
    | none => exact h
    | some s =>
      dsimp only
      split_ifs
      · cases hr : db.callback now .stranger
            { intent := .link, returnPath := "/security", linkUserId := some s.userId } a with
        | none => exact h
        | some r =>
          have hinvite : ∀ invite ∈ (none : Option Invitation), invite.email ≠ e :=
            fun invite hin => by cases hin
          refine (h.callback ha hmine hinvite (fun _ u hu => ?_) hr).1
          rw [← Option.some.inj hu]
          exact (h.sessions sessionId s hs).1
      · exact h
  | unlink sessionId identityId =>
    change Prepared e mine ((db.unlink now sessionId identityId).getD db)
    unfold Db.unlink
    cases hs : db.sessions.find sessionId with
    | none => exact h
    | some s =>
      cases hi : db.identities.find identityId with
      | none => exact h
      | some row =>
        dsimp only
        split_ifs
        · cases hu : db.users.find s.userId with
          | none => exact h
          | some user =>
            dsimp only
            split_ifs
            · exact h
            · exact h.eraseIdentity identityId
        · exact h
  | forgotPassword email tokenHash =>
    change Prepared e mine (db.forgotPassword now email tokenHash)
    unfold Db.forgotPassword
    split
    · exact h
    · exact ⟨h.account, h.one, h.identities, h.sessions⟩

/-! ## The owner proves the address -/

theorem find_amend_some {α : Type} {t : Table ℕ α} {g : ℕ → α → α} {k : ℕ} {w : α}
    (h : (t.amend g).find k = some w) : ∃ v, t.find k = some v ∧ w = g k v := by
  rw [Table.find_amend] at h
  obtain ⟨v, hv, rfl⟩ := Option.map_eq_some_iff.mp h
  exact ⟨v, hv, rfl⟩

/-- A first proof drops exactly the identities that carry the address with nobody to vouch. -/
theorem dropUnprovenIdentities_eq {id : ℕ} {u : User} (hu : db.users.find id = some u)
    (hfirst : u.emailVerified = none) : db.dropUnprovenIdentities id = { db with
      identities := db.identities.filter fun _ i => decide
        (¬ (i.userId = id ∧ i.email = u.email ∧ i.emailVerified = false)) } := by
  unfold Db.dropUnprovenIdentities
  rw [hu]
  exact if_neg (by rw [hfirst]; nofun)

/-- The strangers' identities are gone after the drop exactly when it covers all of them. -/
theorem dropped_iff (h : Prepared e mine db) (id : ℕ) :
    (∀ k i, (db.identities.filter fun _ i => decide
        (¬ (i.userId = id ∧ i.email = e ∧ i.emailVerified = false))).find k = some i →
      i.userId = id → i.linkedBy = .owner) ↔ OwnAddressOnly e db id := by
  constructor
  · intro hgone k i hi hid
    by_contra hstays
    have hkept := hgone k i (Table.find_filter.mpr
      ⟨hi, decide_eq_true fun hdropped => hstays hdropped.2⟩) hid
    rw [(h.identities k i hi).2.1] at hkept
    cases hkept
  · intro honly k i hi hid
    obtain ⟨hold, htest⟩ := Table.find_filter.mp hi
    have hdropped := honly k i hold hid
    simp [hid, hdropped] at htest

theorem Prepared.reset (h : Prepared e mine db) {tokenId : ℕ} {password : Text} {row : EmailToken}
    {user : User} (hrow : db.tokens.find tokenId = some row)
    (huser : db.users.find row.userId = some user) (he : user.email = e)
    (hdone : db.resetPassword now .owner tokenId password = some db') :
    Safe e now db' ↔ OwnAddressOnly e db row.userId := by
  have hfirst := (h.account _ _ huser he).1
  unfold Db.resetPassword at hdone
  rw [hrow] at hdone
  dsimp only at hdone
  by_cases hvalid : row.valid .reset now
  · have hdrop : Db.dropUnprovenIdentities { db with
        tokens := db.tokens.modify tokenId fun t => { t with usedAt := some now } } row.userId = _ :=
      dropUnprovenIdentities_eq huser hfirst
    rw [if_pos hvalid, hdrop, he, Option.some.injEq] at hdone
    subst hdone
    rw [← dropped_iff h row.userId]
    constructor
    · intro hsafe
      refine (hsafe row.userId { user with passwordHash := some password, passwordBy := .owner } ?_
        he).2.1
      rw [Table.find_modify, if_pos rfl, huser]
      rfl
    · intro hgone id v hv hve
      have hold : id = row.userId := by
        by_contra hne
        rw [Table.find_modify, if_neg hne] at hv
        exact hne (h.one _ _ _ _ hv huser hve he)
      subst hold
      rw [Table.find_modify, if_pos rfl, huser] at hv
      cases hv
      refine ⟨fun _ => rfl, hgone, fun k s hs hid hlive => ?_⟩
      obtain ⟨old, -, rfl⟩ := find_amend_some hs
      split_ifs at hid hlive with hopen
      · cases hlive.1
      · exact (hopen ⟨hid, hlive.1⟩).elim
  · rw [if_neg hvalid] at hdone
    cases hdone

theorem safeAt_addIdentity {id : ℕ} {i : OAuthIdentity} (hi : i.linkedBy = .owner) :
    SafeAt now (db.addIdentity i) id ↔ SafeAt now db id := by
  refine and_congr_left' ⟨fun h k j hj => h k j (Table.find_put_of_some hj), fun h k j hj => ?_⟩
  rcases Table.find_put_fresh hj with ⟨-, rfl⟩ | hold
  · exact fun _ => hi
  · exact h k j hold

theorem safeAt_issueSession {id userId : ℕ} :
    SafeAt now (db.issueSession now .owner userId) id ↔ SafeAt now db id := by
  refine and_congr_right' ⟨fun h k s hs => h k s (Table.find_put_of_some hs), fun h k s hs => ?_⟩
  rcases Table.find_put_fresh hs with ⟨-, rfl⟩ | hold
  · exact fun _ _ => rfl
  · exact h k s hold

/-- A new account has no rows yet. -/
theorem Prepared.safeAt_new (h : Prepared e mine db) (u : User) :
    SafeAt now (db.addUser u) db.users.fresh := by
  refine ⟨fun k i hi hid => ?_, fun k s hs hid => ?_⟩
  · have hold := (h.identities k i hi).1
    rw [hid, Table.find_fresh] at hold
    cases hold
  · have hold := (h.sessions k s hs).1
    rw [hid, Table.find_fresh] at hold
    cases hold

theorem Prepared.identityBy_mine (h : Prepared e mine db) {a : ProviderAccount}
    (hmine : mine (a.provider, a.subject)) : db.identityBy a.provider a.subject = none := by
  cases hby : db.identityBy a.provider a.subject with
  | none => rfl
  | some r =>
    obtain ⟨hfind, hprovider, hsubject⟩ := identityBy_eq_some hby
    have hnot := (h.identities _ _ hfind).2.2
    rw [hprovider, hsubject] at hnot
    exact (hnot hmine).elim

theorem Prepared.createUser_owner (h : Prepared e mine db) {a : ProviderAccount} {p : PendingLogin}
    {email : Text} {r : Db × Completion} (hemail : a.email = some email)
    (hmine : mine (a.provider, a.subject)) (hr : db.createUser now .owner a p = some r) :
    db.userByEmail email = none ∧ ∃ u : User, u.passwordHash = none ∧
      r.1.users = (db.addUser u).users ∧ SafeAt now r.1 db.users.fresh ∧
      r.2.userId = db.users.fresh ∧ r.2.link = none := by
  have hnew : ∀ u b, b.provider = a.provider → b.subject = a.subject → ∀ linked,
      (db.addUser u).linkIdentity .owner db.users.fresh b = some linked →
      linked.users = (db.addUser u).users ∧ SafeAt now linked db.users.fresh := by
    intro u b hprovider hsubject linked hlinked
    have hfree : (db.addUser u).identityBy b.provider b.subject = none := by
      rw [hprovider, hsubject]
      exact h.identityBy_mine hmine
    rcases linkIdentity_cases hlinked with ⟨k, i, hby, -⟩ | ⟨-, rfl⟩
    · rw [hfree] at hby
      cases hby
    · exact ⟨rfl, (safeAt_addIdentity rfl).mpr (h.safeAt_new u)⟩
  unfold Db.createUser at hr
  rw [hemail] at hr
  cases hp : p.invite with
  | some invite =>
    rw [hp] at hr
    dsimp only at hr
    split_ifs at hr with hmatch hfree
    obtain ⟨linked, hlinked, rfl⟩ := Option.map_eq_some_iff.mp hr
    obtain ⟨husers, hsafe⟩ := hnew _ ⟨a.provider, a.subject, some email, true, a.name, a.tenantId⟩
      rfl rfl linked hlinked
    exact ⟨by simpa using hfree, _, rfl, husers, safeAt_issueSession.mpr hsafe, rfl, rfl⟩
  | none =>
    rw [hp] at hr
    obtain ⟨made, hmade, hmap⟩ := Option.bind_eq_some_iff.mp hr
    obtain ⟨hfree, rfl⟩ := createAccount_cases hmade
    obtain ⟨linked, hlinked, rfl⟩ := Option.map_eq_some_iff.mp hmap
    obtain ⟨husers, hsafe⟩ := hnew _ a rfl rfl linked hlinked
    exact ⟨hfree, _, rfl, husers, hsafe, rfl, rfl⟩

/-- Nobody has used the address: the account is new, and the owner's. -/
theorem Prepared.signIn_new (h : Prepared e mine db) {p : PendingLogin} {a : ProviderAccount}
    (hemail : a.email = some e) (hmine : mine (a.provider, a.subject)) (hintent : p.intent ≠ .link)
    (hfree : db.userByEmail e = none) (hdone : db.social now .owner p a true = some db') :
    Safe e now db' := by
  have hdecision : db.callback now .owner p a =
      (db.createUser now .owner a p).map fun r => (r.1, some r.2) := by
    unfold Db.callback
    simp [h.identityBy_mine hmine, hemail, hfree, decideLink, hintent]
  unfold Db.social at hdone
  rw [if_neg hintent, hdecision] at hdone
  obtain ⟨r, hr, hredeemed⟩ := Option.bind_eq_some_iff.mp hdone
  obtain ⟨made, hmade, rfl⟩ := Option.map_eq_some_iff.mp hr
  obtain ⟨-, u, hpassword, husers, hsafe, hid, hlink⟩ := h.createUser_owner hemail hmine hmade
  have hend : db'.users = (db.addUser u).users ∧ SafeAt now db' db.users.fresh := by
    dsimp only at hredeemed
    rw [if_pos rfl] at hredeemed
    unfold Db.complete at hredeemed
    rw [hid, husers, find_addUser, hlink] at hredeemed
    dsimp only at hredeemed
    by_cases hexternal : u.external = true
    · rw [if_pos hexternal] at hredeemed
      cases hredeemed
    · rw [if_neg hexternal, Option.map_some, Option.some.injEq] at hredeemed
      subst hredeemed
      split_ifs
      · exact ⟨husers, hsafe⟩
      · exact ⟨husers, safeAt_issueSession.mpr hsafe⟩
  intro id v hv he
  rw [hend.1] at hv
  rcases Table.find_put_fresh hv with ⟨rfl, rfl⟩ | hold
  · refine ⟨fun hset => ?_, hend.2⟩
    rw [hpassword] at hset
    cases hset
  · exact (userByEmail_eq_none hfree hold he).elim

/-- One account has the address. -/
theorem safe_iff {id : ℕ} {u : User} (hu : db.users.find id = some u) (he : u.email = e)
    (hone : ∀ other v, db.users.find other = some v → v.email = e → other = id) :
    Safe e now db ↔ (u.passwordHash.isSome = true → u.passwordBy = .owner) ∧ SafeAt now db id := by
  refine ⟨fun h => h id u hu he, fun h other v hv hve => ?_⟩
  obtain rfl := hone other v hv hve
  rw [hu] at hv
  cases hv
  exact h

/-- The account after `proveEmail`. -/
def provedDb (now : ℕ) (db : Db) (id : ℕ) (u : User) : Db :=
  { db with
    users := db.users.modify id fun u => { u with emailVerified := some now }
    identities := db.identities.filter fun _ i => decide
      (¬ (i.userId = id ∧ i.email = u.email ∧ i.emailVerified = false)) }

theorem provedDb_safeAt (h : Prepared e mine db) {id : ℕ} {u : User} (he : u.email = e) :
    SafeAt now (provedDb now db id u) id ↔ OwnAddressOnly e db id ∧
      ∀ k s, db.sessions.find k = some s → s.userId = id → ¬ s.live now := by
  rw [← dropped_iff h id, ← he]
  refine and_congr_right' ⟨fun hheld k s hs hid hlive => ?_, fun hdead k s hs hid hlive => ?_⟩
  · have hby := hheld k s hs hid hlive
    rw [(h.sessions k s hs).2] at hby
    cases hby
  · exact (hdead k s hs hid hlive).elim

/-- Strangers have made the account: the sign in drops their identities, and nothing else. -/
theorem Prepared.signIn_taken (h : Prepared e mine db) {p : PendingLogin} {a : ProviderAccount}
    (hv : VouchedFor e a) (hmine : mine (a.provider, a.subject)) (hintent : p.intent ≠ .link)
    {id : ℕ} {u : User} (htaken : db.userByEmail e = some (id, u))
    (hdone : db.social now .owner p a true = some db') :
    Safe e now db' ↔ OwnAddressOnly e db id ∧ u.passwordHash = none ∧
      ∀ k s, db.sessions.find k = some s → s.userId = id → ¬ s.live now := by
  obtain ⟨hu, he⟩ := userByEmail_eq_some htaken
  obtain ⟨hfirst, hpassword⟩ := h.account id u hu he
  have hdecision : db.callback now .owner p a = some (db, some {
      provider := a.provider
      userId := id
      returnPath := p.returnPath
      created := false
      link := some a
      invite := p.invite.map Invitation.token }) := by
    unfold Db.callback
    simp [h.identityBy_mine hmine, hv.1, hv.2, htaken, decideLink, hintent]
  unfold Db.social at hdone
  rw [if_neg hintent, hdecision, Option.bind_some] at hdone
  dsimp only at hdone
  rw [if_pos rfl] at hdone
  unfold Db.complete at hdone
  rw [hu] at hdone
  dsimp only at hdone
  by_cases hexternal : u.external = true
  · rw [if_pos hexternal] at hdone
    cases hdone
  have hproved : db.proveEmail now id = some (provedDb now db id u) := by
    unfold Db.proveEmail
    rw [hu]
    dsimp only
    rw [if_neg (by rw [hfirst]; nofun), dropUnprovenIdentities_eq hu hfirst]
    rfl
  rw [if_neg hexternal, if_pos hv.2, hproved, Option.bind_some] at hdone
  obtain ⟨linked, hlinked, rfl⟩ := Option.map_eq_some_iff.mp hdone
  rw [if_neg nofun]
  obtain rfl : linked = (provedDb now db id u).addIdentity
      ⟨id, a.provider, a.subject, a.email.getD [], a.emailVerified, .owner⟩ := by
    rcases linkIdentity_cases hlinked with ⟨k, i, hby, -⟩ | ⟨-, hnew⟩
    · obtain ⟨hfind, hprovider, hsubject⟩ := identityBy_eq_some hby
      have hnot := (h.identities k i (Table.find_filter.mp hfind).1).2.2
      rw [hprovider, hsubject] at hnot
      exact (hnot hmine).elim
    · exact hnew
  have husers : ((Db.addIdentity (provedDb now db id u)
      ⟨id, a.provider, a.subject, a.email.getD [], a.emailVerified, .owner⟩).issueSession
        now .owner id).users = db.users.modify id fun u => { u with emailVerified := some now } := rfl
  have huser : (db.users.modify id fun u => { u with emailVerified := some now }).find id =
      some { u with emailVerified := some now } := by
    rw [Table.find_modify, if_pos rfl, hu]
    rfl
  have hone : ∀ other v, (db.users.modify id fun u => { u with emailVerified := some now }).find
      other = some v → v.email = e → other = id := fun other v hother hve => by
    by_contra hne
    rw [Table.find_modify, if_neg hne] at hother
    exact hne (h.one _ _ _ _ hother hu hve he)
  rw [← husers] at huser hone
  refine (safe_iff huser he hone).trans ?_
  rw [safeAt_issueSession, safeAt_addIdentity rfl, provedDb_safeAt h he]
  have hset : (u.passwordHash.isSome = true → u.passwordBy = .owner) ↔ u.passwordHash = none := by
    constructor
    · intro howner
      by_contra hset
      have hsome := Option.isSome_iff_ne_none.mpr hset
      have hby := hpassword hsome
      rw [howner hsome] at hby
      cases hby
    · intro hnone hset
      rw [hnone] at hset
      cases hset
  rw [hset]
  exact ⟨fun hsafe => ⟨hsafe.2.1, hsafe.1, hsafe.2.2⟩, fun hsafe => ⟨hsafe.2.1, hsafe.1, hsafe.2.2⟩⟩

/-- No account has the address, and nobody has the owner's identities. -/
structure Untouched (e : Text) (mine : ProviderId × String → Prop) (db : Db) : Prop where
  account : ∀ id u, db.users.find id = some u → u.email ≠ e
  identities : ∀ k i, db.identities.find k = some i → (db.users.find i.userId).isSome = true ∧
    i.linkedBy = .stranger ∧ ¬ mine (i.provider, i.subject)
  sessions : ∀ k s, db.sessions.find k = some s →
    (db.users.find s.userId).isSome = true ∧ s.heldBy = .stranger

theorem Untouched.prepared (h : Untouched e mine db) : Prepared e mine db where
  account id u hu he := (h.account id u hu he).elim
  one id _ u _ hu _ he _ := (h.account id u hu he).elim
  identities := h.identities
  sessions := h.sessions

theorem prepared_run {start : Db} {acts : List (ℕ × Act)} (hstart : Untouched e mine start)
    (hforeign : ∀ act ∈ acts, Foreign e mine act.2) : Prepared e mine (run step start acts) := by
  induction acts using List.reverseRecOn with
  | nil => exact hstart.prepared
  | append_singleton acts act ih =>
    rw [run_append, run_cons, run_nil]
    exact (ih fun b hb => hforeign b (List.mem_append_left _ hb)).step
      (hforeign act (List.mem_append_right _ (List.mem_singleton_self act)))

/-- Whatever strangers do with an address, its first proof leaves them nothing exactly when every
identity that they linked carries the address and, for a sign in, they set no password and left no
live session. -/
theorem not_prehijacked {start post : Db} {acts : List (ℕ × Act)} {proof : Proof}
    (hstart : Untouched e mine start) (hforeign : ∀ act ∈ acts, Foreign e mine act.2)
    (hof : proof.Of e mine (run step start acts))
    (hdone : proof.run (run step start acts) now = some post) :
    Safe e now post ↔ proof.Enough e now (run step start acts) := by
  have h := prepared_run hstart hforeign
  cases proof with
  | reset tokenId password =>
    obtain ⟨row, user, hrow, huser, he⟩ := hof
    refine (h.reset hrow huser he hdone).trans ⟨fun honly id v hv hve => ?_, fun henough => ?_⟩
    · obtain rfl := h.one _ _ _ _ hv huser hve he
      exact ⟨honly, trivial⟩
    · exact (henough _ user huser he).1
  | signIn p a =>
    obtain ⟨hv, hmine⟩ := hof
    have hintent : p.intent ≠ .link := fun hlink => by
      change Db.social _ now .owner p a true = some post at hdone
      unfold Db.social at hdone
      rw [if_pos hlink] at hdone
      cases hdone
    cases htaken : (run step start acts).userByEmail e with
    | none =>
      refine iff_of_true (h.signIn_new hv.1 hmine hintent htaken hdone) fun id v hfind he => ?_
      exact (userByEmail_eq_none htaken hfind he).elim
    | some r =>
      obtain ⟨hfind, he⟩ := userByEmail_eq_some htaken
      refine (h.signIn_taken hv hmine hintent htaken hdone).trans
        ⟨fun hgood id v hv hve => ?_, fun henough => ?_⟩
      · obtain rfl := h.one _ _ _ _ hv hfind hve he
        rw [hfind] at hv
        cases hv
        exact hgood
      · exact henough r.1 r.2 hfind he

end

/-! ## An account that was waiting -/

def victim : Text := "a@b.sa".toList

/-- The identity of the owner. -/
def vouched : ProviderAccount := ⟨.google, "owner", some victim, true, "A".toList, none⟩

/-- An identity with the address that nobody vouches for. -/
def unvouched : ProviderAccount := ⟨.microsoft, "x", some victim, false, "A".toList, some "t"⟩

def mine (k : ProviderId × String) : Prop := k = (.google, "owner")

theorem untouched_empty : Untouched victim mine {} :=
  ⟨fun _ _ => nofun, fun _ _ => nofun, fun _ _ => nofun⟩

/-- An account that strangers made with an identity, and never signed in to, is clean after the
owner's first sign in. -/
theorem abandoned_signup_safe : ∃ post, (Proof.signIn { intent := .login } vouched).run
    (run step {} [(0, .social { intent := .signup } unvouched false)]) 9 = some post ∧
      Safe victim 9 post := by
  obtain ⟨post, hpost⟩ := Option.isSome_iff_exists.mp (show ((Proof.signIn { intent := .login }
    vouched).run (run step {} [(0, .social { intent := .signup } unvouched false)]) 9).isSome = true
      by decide)
  have hforeign : ∀ act ∈ [((0 : ℕ), Act.social { intent := .signup } unvouched false)],
      Foreign victim mine act.2 := by
    intro act hact
    rw [List.mem_singleton.mp hact]
    exact ⟨fun hv => absurd hv.2 (by decide), fun hk => absurd (congrArg Prod.fst hk) (by decide),
      fun _ => nofun⟩
  have hof : (Proof.signIn { intent := .login } vouched).Of victim mine
      (run step {} [(0, .social { intent := .signup } unvouched false)]) := ⟨⟨rfl, rfl⟩, rfl⟩
  refine ⟨post, hpost, (not_prehijacked untouched_empty hforeign hof hpost).mpr ?_⟩
  · intro id user hu _
    have hrows : ∀ e ∈ (run step {} [(0, .social { intent := .signup } unvouched false)]).users.rows,
        e.2.passwordHash = none := by decide
    have hids : ∀ e ∈ (run step {}
        [(0, .social { intent := .signup } unvouched false)]).identities.rows,
        e.2.email = victim ∧ e.2.emailVerified = false := by decide
    have hsessions : (run step {}
        [(0, .social { intent := .signup } unvouched false)]).sessions.rows = [] := by decide
    refine ⟨fun k i hi _ => hids (k, i) (Table.find_mem hi), hrows (id, user) (Table.find_mem hu),
      fun k s hs => ?_⟩
    have hmem := Table.find_mem hs
    rw [hsessions] at hmem
    cases hmem

/-- The password of a stranger's signup still signs in after the owner's first sign in. -/
theorem password_stays :
    ¬ ∀ (e : Text) (mine : ProviderId × String → Prop) (start post : Db) (acts : List (ℕ × Act))
        (proof : Proof) (now : ℕ), Untouched e mine start →
        (∀ act ∈ acts, Foreign e mine act.2) → proof.Of e mine (run step start acts) →
        proof.run (run step start acts) now = some post → Safe e now post := by
  intro h
  obtain ⟨post, hpost⟩ := Option.isSome_iff_exists.mp (show ((Proof.signIn { intent := .login }
    vouched).run (run step {} [(0, .signup victim "pw".toList)]) 9).isSome = true by decide)
  have hof : (Proof.signIn { intent := .login } vouched).Of victim mine
      (run step {} [(0, .signup victim "pw".toList)]) := ⟨⟨rfl, rfl⟩, rfl⟩
  have hsafe := h victim mine {} post [(0, .signup victim "pw".toList)] _ 9 untouched_empty
    (fun act hact => by rw [List.mem_singleton.mp hact]; trivial) hof hpost
  have hrow : ∃ u, post.users.find 1 = some u ∧ u.email = victim ∧ u.passwordHash.isSome = true ∧
      u.passwordBy = .stranger := by
    have hall : ((Proof.signIn { intent := .login } vouched).run (run step {}
        [(0, .signup victim "pw".toList)]) 9).bind (fun db => (db.users.find 1).map fun u =>
          (u.email, u.passwordHash.isSome, u.passwordBy)) = some (victim, true, .stranger) := by
      decide
    rw [hpost, Option.bind_some, Option.map_eq_some_iff] at hall
    obtain ⟨u, hu, heq⟩ := hall
    simp only [Prod.mk.injEq] at heq
    exact ⟨u, hu, heq⟩
  obtain ⟨u, hu, he, hset, hby⟩ := hrow
  have howner := (hsafe 1 u hu he).1 hset
  rw [hby] at howner
  cases howner

end Prgd.PreHijacking
