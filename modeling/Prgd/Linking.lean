import Prgd.Text

/-!
# Whom a social sign in belongs to

What a provider says about a person, and what the platform does with it: the decision is a function
of the account, of the user it is linked to and of the user who has its address.
-/
namespace Prgd.OAuth

inductive ProviderId where
  | google | microsoft
  deriving DecidableEq

/-- What the verified id token says about the person. -/
structure ProviderAccount where
  provider : ProviderId
  subject : String
  /-- Lower case; `none` when the token carries no usable address. -/
  email : Option Text
  /-- The provider vouches that this person controls `email`. -/
  emailVerified : Bool
  name : Text
  tenantId : Option String
  deriving DecidableEq

inductive Intent where
  | login | signup | link
  deriving DecidableEq

structure LinkInput where
  intent : Intent
  account : ProviderAccount
  /-- The user this provider account is already linked to, if any. -/
  linkedUserId : Option ℕ
  /-- The user whose email equals the account's email, if any. -/
  emailUserId : Option ℕ
  /-- For intent `link`: the signed in user who started it. -/
  currentUserId : Option ℕ

inductive RefuseCode where
  | identity_in_use | link_from_security | email_missing | link_session_invalid
  deriving DecidableEq

inductive LinkDecision where
  | sign_in (userId : ℕ)
  | link_and_sign_in (userId : ℕ)
  | create
  | link (userId : ℕ)
  | already_linked (userId : ℕ)
  | refuse (code : RefuseCode)
  deriving DecidableEq

def decideLink (i : LinkInput) : LinkDecision :=
  if i.intent = .link then
    match i.currentUserId with
    | none => .refuse .link_session_invalid
    | some current =>
        if i.linkedUserId = some current then .already_linked current
        else if i.linkedUserId.isSome then .refuse .identity_in_use
        else .link current
  else
    match i.linkedUserId with
    | some linked => .sign_in linked
    | none =>
        match i.emailUserId with
        | some user =>
            if i.account.email.isSome ∧ i.account.emailVerified then .link_and_sign_in user
            else .refuse .link_from_security
        | none => if i.account.email = none then .refuse .email_missing else .create

theorem decideLink_link {i : LinkInput} {user : ℕ} (h : decideLink i = .link user) :
    i.intent = .link ∧ i.currentUserId = some user := by
  unfold decideLink at h
  by_cases hintent : i.intent = .link
  · rw [if_pos hintent] at h
    cases hcurrent : i.currentUserId with
    | none =>
      rw [hcurrent] at h
      cases h
    | some current =>
      rw [hcurrent] at h
      dsimp only at h
      split_ifs at h
      exact ⟨hintent, congrArg some (LinkDecision.link.inj h)⟩
  · rw [if_neg hintent] at h
    split at h
    · cases h
    · split at h <;> split_ifs at h

theorem decideLink_link_and_sign_in {i : LinkInput} {user : ℕ}
    (h : decideLink i = .link_and_sign_in user) : i.emailUserId = some user := by
  unfold decideLink at h
  by_cases hintent : i.intent = .link
  · rw [if_pos hintent] at h
    split at h
    · cases h
    · split_ifs at h
  · rw [if_neg hintent] at h
    split at h
    · cases h
    · cases hfound : i.emailUserId with
      | none =>
        rw [hfound] at h
        dsimp only at h
        split_ifs at h
      | some found =>
        rw [hfound] at h
        dsimp only at h
        split_ifs at h
        exact congrArg some (LinkDecision.link_and_sign_in.inj h)

/-- The outcome of a callback, redeemed once by the console. -/
structure Completion where
  provider : ProviderId
  userId : ℕ
  returnPath : String
  created : Bool
  /-- The existing identity used for this sign in. -/
  identityId : Option ℕ := none
  /-- The identity to link once the sign in is complete. -/
  link : Option ProviderAccount := none
  invite : Option String := none
  /-- The team of a session that was issued at the callback. -/
  session : Option String := none
  deriving DecidableEq

end Prgd.OAuth
