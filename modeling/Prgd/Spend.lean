import Prgd.ApiError
import Prgd.Callers

/-!
# Spend controls

`SpendService.assertCanSpend`, called before anything that adds cost. The
account and the project are checked first, on what three queries returned; then
the token is read, compared with its cap, and its counter is raised by a second
statement. Nothing holds between the two, so calls that read the token together
all pass a check that only one of them should pass.

The module proves that the cap is hard, and the counter exact, for every
interleaving in which a call only passes the check when the cap has room for it
beside the calls that have passed and are not recorded yet.
-/
namespace Prgd.Spend
open Interleaving Callers

inductive AccountStatus where
  | pendingVerification | active | suspended | closed
  deriving DecidableEq

/-- What the queries before the token returned: the team with the balance of its
credits, what `assertPrepaidBeforePostpaid` throws, the project and its month. -/
structure Account where
  status : AccountStatus
  balance : ℤ
  prepaid : Option ApiError
  spendLimitMinor : Option ℕ
  monthToDate : ℕ

structure ApiToken where
  spendCapMinor : Option ℕ
  spentThisMonthMinor : ℕ
  deriving DecidableEq

/-- What is thrown before the token is looked at. -/
def accountError (a : Account) (addedMonthlyMinor : ℕ) : Option ApiError :=
  if a.status = .pendingVerification ∧ a.balance ≤ 0 then
    some (.spendLimit "Add credit or a payment method before creating billable resources" [])
  else match if 0 < addedMonthlyMinor then a.prepaid else none with
    | some e => some e
    | none =>
        match a.spendLimitMinor with
        | none => none
        | some limit =>
            if limit < a.monthToDate + addedMonthlyMinor then
              some (.spendLimit "This project would exceed its monthly spend limit"
                [("limitMinor", limit), ("monthToDateMinor", a.monthToDate),
                  ("addedMonthlyMinor", addedMonthlyMinor)])
            else none

/-- The check of the cap on the token that was read. -/
def capError (token : ApiToken) (addedMonthlyMinor : ℕ) : Option ApiError :=
  match token.spendCapMinor with
  | none => none
  | some cap =>
      if cap < token.spentThisMonthMinor + addedMonthlyMinor then
        some (.spendLimit "This token would exceed its spend cap"
          [("capMinor", cap), ("spentMinor", token.spentThisMonthMinor),
            ("addedMonthlyMinor", addedMonthlyMinor)])
      else none

/-- Where a call of `assertCanSpend` with the token stands. -/
inductive Pc where
  | begun (added : ℕ)
  /-- The account and the project were checked. -/
  | checked (added : ℕ)
  /-- The cap was checked; the counter is not raised yet. -/
  | passed (added : ℕ)
  | returned (added : ℕ)
  | thrown (e : ApiError)

/-- Each query and each statement is one step. -/
inductive Act where
  | readAccount (a : Account)
  | readToken
  | increment

def trans (token : ApiToken) : Act → Pc → Option (ApiToken × Pc)
  | .readAccount a, .begun added =>
      match accountError a added with
      | some e => some (token, .thrown e)
      | none => some (token, .checked added)
  | .readToken, .checked added =>
      match capError token added with
      | some e => some (token, .thrown e)
      | none => some (token, .passed added)
  | .increment, .passed added =>
      some ({ token with spentThisMonthMinor := token.spentThisMonthMinor + added }, .returned added)
  | _, _ => none

/-- Calls of `assertCanSpend` with one token. -/
abbrev World := Crew ApiToken Pc

def step : World → Move ℕ Act → World := Callers.step Pc.begun trans

def Pc.returnedMinor : Pc → ℕ
  | .returned added => added
  | _ => 0

def Pc.passedMinor : Pc → ℕ
  | .passed added => added
  | _ => 0

/-- The estimates of the calls that returned without an error. -/
def granted (w : World) : ℕ := total Pc.returnedMinor w.calls

/-- The estimates that passed the check and are not recorded yet. -/
def inFlight (w : World) : ℕ := total Pc.passedMinor w.calls

/-- A token at the start of its month. -/
def freshToken (cap : ℕ) : World := ⟨⟨some cap, 0⟩, []⟩

/-- The cap is hard and the counter is exact. -/
def CapHolds (cap : ℕ) (w : World) : Prop :=
  granted w ≤ cap ∧ w.shared.spentThisMonthMinor = granted w

/-- A call that is about to read the token finds room in the cap for its estimate
beside everything recorded and in flight, or is refused. -/
def Roomy (w : World) : Move ℕ Act → Prop
  | .act i .readToken =>
      match w.calls[i]?, w.shared.spendCapMinor with
      | some (.checked added), some cap => capError w.shared added = none →
          w.shared.spentThisMonthMinor + inFlight w + added ≤ cap
      | _, _ => True
  | _ => True

instance (w : World) (m : Move ℕ Act) : Decidable (Roomy w m) := by
  unfold Roomy
  split
  · split <;> infer_instance
  · infer_instance

/-- What an interleaving keeps when every read finds room. -/
structure Kept (cap : ℕ) (w : World) : Prop where
  capped : w.shared.spendCapMinor = some cap
  exact : w.shared.spentThisMonthMinor = granted w
  room : granted w + inFlight w ≤ cap

theorem kept_freshToken (cap : ℕ) : Kept cap (freshToken cap) :=
  ⟨rfl, rfl, Nat.zero_le cap⟩

/-- A call that moves without passing, being recorded or having passed. -/
theorem Kept.quiet {cap : ℕ} {w : World} (h : Kept cap w) {i : ℕ} {c c' : Pc}
    (hc : w.calls[i]? = some c) (hr : c'.returnedMinor = c.returnedMinor)
    (hp : c'.passedMinor = c.passedMinor) : Kept cap ⟨w.shared, w.calls.set i c'⟩ := by
  have hgranted : granted ⟨w.shared, w.calls.set i c'⟩ = granted w := by
    have := total_set Pc.returnedMinor hc c'
    simp only [granted]
    omega
  have hflight : inFlight ⟨w.shared, w.calls.set i c'⟩ = inFlight w := by
    have := total_set Pc.passedMinor hc c'
    simp only [inFlight]
    omega
  exact ⟨h.capped, by rw [hgranted]; exact h.exact, by rw [hgranted, hflight]; exact h.room⟩

theorem kept_step {cap : ℕ} {w : World} {m : Move ℕ Act} (hroomy : Roomy w m) (h : Kept cap w) :
    Kept cap (step w m) := by
  rcases step_cases Pc.begun trans w m with heq | ⟨added, rfl, heq⟩ | ⟨i, a, c, s, c', rfl, hc, ht, heq⟩
  · rw [step, heq]
    exact h
  · have hg : total Pc.returnedMinor [Pc.begun added] = 0 := rfl
    have hf : total Pc.passedMinor [Pc.begun added] = 0 := rfl
    rw [step, heq]
    refine ⟨h.capped, ?_, ?_⟩
    · simpa only [granted, total_append, hg, Nat.add_zero] using h.exact
    · simpa only [granted, inFlight, total_append, hg, hf, Nat.add_zero] using h.room
  · have hret := total_set Pc.returnedMinor hc c'
    have hpas := total_set Pc.passedMinor hc c'
    have hroom := h.room
    have hexact := h.exact
    rw [step, heq]
    cases a with
    | readAccount account =>
      cases c with
      | begun added =>
        simp only [trans] at ht
        split at ht
        all_goals
          cases ht
          exact h.quiet hc rfl rfl
      | checked _ | passed _ | returned _ | thrown _ => simp [trans] at ht
    | readToken =>
      cases c with
      | checked added =>
        simp only [trans] at ht
        cases hcap : capError w.shared added with
        | some e =>
          rw [hcap] at ht
          cases ht
          exact h.quiet hc rfl rfl
        | none =>
          rw [hcap] at ht
          cases ht
          have hle : w.shared.spentThisMonthMinor + inFlight w + added ≤ cap := by
            simp only [Roomy, hc, h.capped] at hroomy
            exact hroomy hcap
          simp only [Pc.returnedMinor, Pc.passedMinor] at hret hpas
          refine ⟨h.capped, ?_, ?_⟩
          · simp only [granted] at hexact ⊢
            omega
          · simp only [granted, inFlight] at hexact hle ⊢
            omega
      | begun _ | passed _ | returned _ | thrown _ => simp [trans] at ht
    | increment =>
      cases c with
      | passed added =>
        cases ht
        simp only [Pc.returnedMinor, Pc.passedMinor] at hret hpas
        refine ⟨h.capped, ?_, ?_⟩
        · simp only [granted] at hexact ⊢
          omega
        · simp only [granted, inFlight] at hroom ⊢
          omega
      | begun _ | checked _ | returned _ | thrown _ => simp [trans] at ht

/-- The spend cap of a token is hard in every interleaving in which no call passes
the check without room for it. -/
theorem spend_cap_hard (cap : ℕ) {moves : List (Move ℕ Act)}
    (hroomy : Meets step Roomy (freshToken cap) moves) :
    CapHolds cap (run step (freshToken cap) moves) := by
  have hkept : Kept cap (run step (freshToken cap) moves) :=
    hroomy.invariant (fun _ _ hroomy h => kept_step hroomy h) (kept_freshToken cap)
  have hroom := hkept.room
  exact ⟨by omega, hkept.exact⟩

/-- An account that no check refuses. -/
def goodAccount : Account := ⟨.active, 0, none, none, 0⟩

/-- Two calls that read the token before either is recorded, with room for both. -/
def sharedReads (first second : ℕ) : List (Move ℕ Act) :=
  [.join first, .join second, .act 0 (.readAccount goodAccount), .act 1 (.readAccount goodAccount),
    .act 0 .readToken, .act 1 .readToken, .act 0 .increment, .act 1 .increment]

theorem spend_cap_hard_two_calls :
    Meets step Roomy (freshToken 100) (sharedReads 60 40) ∧
      CapHolds 100 (run step (freshToken 100) (sharedReads 60 40)) := by
  have hroomy : Meets step Roomy (freshToken 100) (sharedReads 60 40) := by decide
  exact ⟨hroomy, spend_cap_hard 100 hroomy⟩

/-- Both calls pass the check of a cap that has room for one. -/
theorem spend_cap_exceeded :
    granted (run step (freshToken 100) (sharedReads 80 80)) = 160 ∧
      ¬ CapHolds 100 (run step (freshToken 100) (sharedReads 80 80)) := by
  have hgranted : granted (run step (freshToken 100) (sharedReads 80 80)) = 160 := by decide
  refine ⟨hgranted, fun h => ?_⟩
  have hle := h.1
  omega

end Prgd.Spend
