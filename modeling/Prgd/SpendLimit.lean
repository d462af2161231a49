import Prgd.Calendar
import Prgd.Spend

/-!
# The spend limit of a project

`SpendService.assertCanSpend` compares a project's limit with `monthToDate` plus
the monthly cost of the resource asked for. The comment of `monthToDate` says that
it includes the projected cost of the resources that run already; the query sums
the rated usage records of the month and nothing else.

The module follows the calls of one project in one month, and the rating of its
usage beside them. The limit holds throughout exactly when every call that passes
would also pass with the admitted resources counted, and usage is rated only
while there is room for it.
-/
namespace Prgd.SpendLimit
open Interleaving Calendar Spend

/-- A rated hour of a resource of the project. -/
structure UsageRecord where
  hourStart : ℕ
  amountMinor : ℕ

/-- Times are seconds. -/
def monthToDate (usage : List UsageRecord) (now : ℕ) : ℕ :=
  ((usage.filter fun u => startOfMonth (now / 3600) ≤ u.hourStart).map (·.amountMinor)).sum

structure Books where
  spendLimitMinor : Option ℕ
  usage : List UsageRecord
  token : ℕ → ApiToken
  /-- Not a column: the monthly cost of the resources that successful calls let in. -/
  admitted : ℕ

/-- A call, with what the queries on the team and its credits return to it. -/
structure Call where
  now : ℕ
  status : AccountStatus
  balance : ℤ
  prepaid : Option ApiError
  tokenId : Option ℕ
  addedMonthlyMinor : ℕ

def Call.account (c : Call) (spendLimitMinor : Option ℕ) (monthToDate : ℕ) : Account :=
  ⟨c.status, c.balance, c.prepaid, spendLimitMinor, monthToDate⟩

/-- The token as the call leaves it, or the error of its cap. -/
def chargeToken (token : ℕ → ApiToken) (c : Call) : Except ApiError (ℕ → ApiToken) :=
  match c.tokenId with
  | none => .ok token
  | some id =>
      match capError (token id) c.addedMonthlyMinor with
      | some e => .error e
      | none => .ok (Function.update token id
          { token id with
            spentThisMonthMinor := (token id).spentThisMonthMinor + c.addedMonthlyMinor })

def assertCanSpend (b : Books) (c : Call) : Except ApiError Books :=
  match accountError (c.account b.spendLimitMinor (monthToDate b.usage c.now))
      c.addedMonthlyMinor with
  | some e => .error e
  | none =>
      match chargeToken b.token c with
      | .error e => .error e
      | .ok token => .ok { b with token := token }

/-- A call whose resource is created and kept when it passes, or a run of the rating
with the records as it leaves them. -/
inductive Act where
  | assertCanSpend (c : Call)
  | rate (usage : List UsageRecord)

def step (b : Books) : Act → Books
  | .assertCanSpend c =>
      match assertCanSpend b c with
      | .error _ => b
      | .ok b' => { b' with admitted := b'.admitted + c.addedMonthlyMinor }
  | .rate usage => { b with usage := usage }

/-- What is rated in a month. -/
def rated (month : ℕ) (usage : List UsageRecord) : ℕ :=
  ((usage.filter fun u => monthOf u.hourStart = month).map (·.amountMinor)).sum

def WithinLimit (month limit : ℕ) (b : Books) : Prop := rated month b.usage + b.admitted ≤ limit

instance (month limit : ℕ) (b : Books) : Decidable (WithinLimit month limit b) :=
  inferInstanceAs (Decidable (_ ≤ _))

/-- Calls are made in the month; hours are rated up to it. -/
def InMonth (month : ℕ) : Act → Prop
  | .assertCanSpend c => monthOf (c.now / 3600) = month
  | .rate usage => ∀ u ∈ usage, monthOf u.hourStart ≤ month

/-- A call that is let through would be let through with the resources that run
counted as well, and usage is rated while the limit has room for it beside them. -/
def Counted (month limit : ℕ) (b : Books) : Act → Prop
  | .assertCanSpend c =>
      accountError (c.account b.spendLimitMinor (monthToDate b.usage c.now))
          c.addedMonthlyMinor = none →
        (∀ id ∈ c.tokenId, capError (b.token id) c.addedMonthlyMinor = none) →
        accountError (c.account b.spendLimitMinor (monthToDate b.usage c.now + b.admitted))
          c.addedMonthlyMinor = none
  | .rate usage => rated month usage + b.admitted ≤ limit

instance (month limit : ℕ) (b : Books) : ∀ a, Decidable (Counted month limit b a)
  | .assertCanSpend _ => inferInstanceAs (Decidable (_ → _ → _))
  | .rate _ => inferInstanceAs (Decidable (_ ≤ _))

/-- What a schedule within the month keeps. -/
structure Ready (month limit : ℕ) (b : Books) : Prop where
  limited : b.spendLimitMinor = some limit
  upTo : ∀ u ∈ b.usage, monthOf u.hourStart ≤ month

variable {month limit : ℕ} {b b' : Books} {c : Call}

/-- The query finds the rated usage of the month it is made in. -/
theorem monthToDate_eq_rated {usage : List UsageRecord} {now : ℕ}
    (hnow : monthOf (now / 3600) = month) (hupTo : ∀ u ∈ usage, monthOf u.hourStart ≤ month) :
    monthToDate usage now = rated month usage := by
  have hfilter : usage.filter (fun u => startOfMonth (now / 3600) ≤ u.hourStart) =
      usage.filter (fun u => monthOf u.hourStart = month) := by
    apply List.filter_congr
    intro u hu
    rw [decide_eq_decide, startOfMonth, hnow, monthStart_le_iff]
    have := hupTo u hu
    omega
  rw [monthToDate, hfilter, rated]

theorem accountError_eq_none_iff {a : Account} {added : ℕ} (hlimit : a.spendLimitMinor = some limit) :
    accountError a added = none ↔
      ¬ (a.status = .pendingVerification ∧ a.balance ≤ 0) ∧
        (if 0 < added then a.prepaid else none) = none ∧ a.monthToDate + added ≤ limit := by
  unfold accountError
  rw [hlimit]
  split
  · simp_all
  · cases (if 0 < added then a.prepaid else none) with
    | some e => simp
    | none => simp_all

theorem chargeToken_cases (token : ℕ → ApiToken) (c : Call) :
    (∃ token', chargeToken token c = .ok token' ∧
      ∀ id ∈ c.tokenId, capError (token id) c.addedMonthlyMinor = none) ∨
    (∃ e id, chargeToken token c = .error e ∧ c.tokenId = some id ∧
      capError (token id) c.addedMonthlyMinor = some e) := by
  unfold chargeToken
  cases c.tokenId with
  | none => simp
  | some id =>
    cases hcap : capError (token id) c.addedMonthlyMinor with
    | none => simp [hcap]
    | some e => simp [hcap]

/-- A call passes every check and charges its token, or one of the checks refuses it. -/
theorem assertCanSpend_cases (b : Books) (c : Call) :
    (accountError (c.account b.spendLimitMinor (monthToDate b.usage c.now))
        c.addedMonthlyMinor = none ∧
      (∀ id ∈ c.tokenId, capError (b.token id) c.addedMonthlyMinor = none) ∧
      ∃ token, assertCanSpend b c = .ok { b with token := token }) ∨
    (((accountError (c.account b.spendLimitMinor (monthToDate b.usage c.now))
        c.addedMonthlyMinor ≠ none ∨
      ∃ id ∈ c.tokenId, capError (b.token id) c.addedMonthlyMinor ≠ none)) ∧
      ∃ e, assertCanSpend b c = .error e) := by
  unfold assertCanSpend
  cases haccount : accountError (c.account b.spendLimitMinor (monthToDate b.usage c.now))
    c.addedMonthlyMinor with
  | some e => simp
  | none =>
    rcases chargeToken_cases b.token c with ⟨token, heq, hcap⟩ | ⟨e, id, heq, hid, hcap⟩
    · exact .inl ⟨rfl, hcap, token, by simp [heq]⟩
    · exact .inr ⟨.inr ⟨id, hid, by simp [hcap]⟩, e, by simp [heq]⟩

theorem ready_step {a : Act} (ha : InMonth month a) (h : Ready month limit b) :
    Ready month limit (step b a) := by
  cases a with
  | assertCanSpend c =>
    rcases assertCanSpend_cases b c with ⟨_, _, token, heq⟩ | ⟨_, e, heq⟩
    · simp only [step, heq]
      exact ⟨h.limited, h.upTo⟩
    · simp only [step, heq]
      exact h
  | rate usage => exact ⟨h.limited, ha⟩

/-- The steps that keep the limit are the ones that count the resources that run. -/
theorem withinLimit_step_iff {a : Act} (ha : InMonth month a) (h : Ready month limit b)
    (hwithin : WithinLimit month limit b) :
    WithinLimit month limit (step b a) ↔ Counted month limit b a := by
  cases a with
  | assertCanSpend c =>
    have hmonth := monthToDate_eq_rated ha h.upTo
    rcases assertCanSpend_cases b c with ⟨haccount, hcap, token, heq⟩ | ⟨hrefused, e, heq⟩
    · have hothers := (accountError_eq_none_iff h.limited).mp haccount
      have hcounted : Counted month limit b (.assertCanSpend c) ↔
          rated month b.usage + b.admitted + c.addedMonthlyMinor ≤ limit := by
        simp only [Counted, hmonth]
        constructor
        · intro h'
          rw [hmonth] at haccount
          exact ((accountError_eq_none_iff h.limited).mp (h' haccount hcap)).2.2
        · intro hle _ _
          exact (accountError_eq_none_iff h.limited).mpr ⟨hothers.1, hothers.2.1, hle⟩
      rw [hcounted]
      simp only [step, heq, WithinLimit]
      omega
    · have hkept : WithinLimit month limit (step b (.assertCanSpend c)) := by
        simpa only [step, heq] using hwithin
      apply iff_of_true hkept
      intro haccount hcap
      rcases hrefused with herr | ⟨id, hid, herr⟩
      · exact absurd haccount herr
      · exact absurd (hcap id hid) herr
  | rate usage => exact Iff.rfl

/-- Through a month that starts with no admitted resource, the rated usage and the
projected cost of what was admitted stay within the limit exactly when every step
counts the resources that run. -/
theorem spend_limit_iff (hready : Ready month limit b) (hstart : b.admitted = 0) {acts : List Act}
    (hmonth : ∀ a ∈ acts, InMonth month a) :
    (∀ k, WithinLimit month limit (run step b (acts.take k))) ↔
      rated month b.usage ≤ limit ∧ Meets step (Counted month limit) b acts := by
  have hwithin : WithinLimit month limit b ↔ rated month b.usage ≤ limit := by
    rw [WithinLimit, hstart, Nat.add_zero]
  rw [← hwithin]
  refine prefixes_iff_meets ?_ ?_ hmonth hready
  · intro b a ha h
    exact ready_step ha h
  · intro b a ha h hw
    exact withinLimit_step_iff ha h hw

/-- A project with a limit of 100 and nothing rated. -/
def emptyProject : Books := ⟨some 100, [], fun _ => ⟨none, 0⟩, 0⟩

/-- A call of an active team, in the first hour of January 1970. -/
def request (added : ℕ) : Act := .assertCanSpend ⟨0, .active, 0, none, none, added⟩

theorem monthOf_zero : monthOf 0 = 0 := rfl

theorem emptyProject_ready : Ready 0 100 emptyProject := ⟨rfl, by simp [emptyProject]⟩

/-- A call, an hour rated while there is room for it, and a call that fits beside both. -/
def counted : List Act := [request 60, .rate [⟨0, 5⟩], request 35]

theorem spend_limit_iff_counted : Meets step (Counted 0 100) emptyProject counted ∧
    WithinLimit 0 100 (run step emptyProject (counted.take 3)) := by
  have hmonth : ∀ a ∈ counted, InMonth 0 a := by
    simp [counted, request, InMonth, monthOf_zero]
  have hcounted : Meets step (Counted 0 100) emptyProject counted := by decide
  have hwithin := (spend_limit_iff emptyProject_ready rfl hmonth).mpr ⟨by decide, hcounted⟩
  exact ⟨hcounted, hwithin 3⟩

/-- Two resources of 60 under a limit of 100: nothing is rated yet, so both pass. -/
theorem spend_limit_exceeded :
    (∀ a ∈ [request 60, request 60], InMonth 0 a) ∧
      ¬ WithinLimit 0 100 (run step emptyProject [request 60, request 60]) := by
  constructor
  · simp [request, InMonth, monthOf_zero]
  · decide

end Prgd.SpendLimit
