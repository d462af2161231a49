import Prgd.Billing
import Mathlib.Logic.Basic
import Mathlib.Tactic.SplitIfs

/-!
# What the money operations check

`PaymentsService` and `BillingAdminService` read a payment or an invoice, check it
and write. The checks and the rows they lead to are here; where each read and each
write happens is left to the modules that run them.
-/
namespace Prgd.Billing

/-- A checkout is handed out again for half an hour. -/
def pendingReuse : ℕ := 30 * 60

/-- A pending payment of the invoice that is recent enough. -/
def Payment.recent (p : Payment) (invoiceId : String) (now : ℕ) : Bool :=
  p.invoiceId = some invoiceId ∧ p.status = .pending ∧ now < p.createdAt + pendingReuse

/-- The first check of `payInvoice`. -/
def checkOpen (inv : Invoice) : Except ApiError Unit :=
  if inv.status ≠ .open then
    .error (.invalidState ("Invoice " ++ inv.number ++ " is " ++ inv.status.name))
  else .ok ()

/-- The second one, when no checkout is pending. -/
def checkDue (inv : Invoice) : Except ApiError ℤ :=
  if inv.due ≤ 0 then
    .error (.invalidState ("Invoice " ++ inv.number ++ " has nothing left to pay"))
  else .ok inv.due

/-- What the provider reports. -/
structure PaymentEvent where
  providerRef : String
  succeeded : Bool
  amountMinor : Option ℤ
  currency : Option Currency
  reason : Option String := none
  deriving DecidableEq

/-- The reported amount and currency are those of the payment; only the test page may
report none. -/
def PaymentEvent.fits (ev : PaymentEvent) (p : Payment) : Bool :=
  let mustReport := p.provider ≠ .fake
  (match ev.amountMinor with
    | none => !mustReport
    | some amount => amount = p.amountMinor) &&
  match ev.currency with
    | none => !mustReport
    | some currency => currency = p.currency

def Currency.name : Currency → String
  | .USD => "USD"
  | .SAR => "SAR"

/-- Why a payment with another amount or currency fails. -/
def PaymentEvent.mismatch (ev : PaymentEvent) (p : Payment) : String :=
  "amount mismatch: provider reported " ++ (ev.amountMinor.map toString).getD "?" ++ " " ++
    (ev.currency.map Currency.name).getD "?" ++ ", expected " ++ toString p.amountMinor ++ " " ++
    p.currency.name

/-- The credit that a payment becomes when it settles no invoice. -/
def Payment.asCredit (p : Payment) (reason : String) : Credit :=
  Credit.make p.teamId .prepaid p.currency p.amountMinor reason

def lateReason (number : String) : String :=
  "Payment for invoice " ++ number ++ " that was already closed"

def topUpReason (provider : PaymentProvider) (providerRef : String) : String :=
  "Card top up (" ++ provider.name ++ " " ++ String.ofList (providerRef.toList.take 12) ++ ")"

/-! ## Credit notes, void, payments by hand -/

/-- What a credit note does: how much it takes off what is due, how much becomes credit,
and whether the invoice is then credited in full. -/
structure NotePlan where
  toDue : ℤ
  toCredit : ℤ
  fully : Bool
  deriving DecidableEq

/-- The check of `creditNote`, with what the earlier notes add up to. -/
def checkCreditNote (inv : Invoice) (already amountMinor : ℤ) : Except ApiError NotePlan :=
  let gross := inv.subtotalMinor + inv.taxMinor
  if ¬(inv.status = .open ∨ inv.status = .paid) then
    .error (.invalidState ("Invoice " ++ inv.number ++ " is " ++ inv.status.name))
  else if amountMinor ≤ 0 ∨ gross < already + amountMinor then
    .error (.invalid ("Credit notes on " ++ inv.number ++ " can total at most " ++ toString gross ++
      "; " ++ toString already ++ " is already credited") [("creditableMinor", gross - already)])
  else
    let due := if inv.status = .open then inv.due else 0
    let toDue := min due amountMinor
    .ok {
      toDue := toDue
      toCredit := amountMinor - toDue
      fully := gross ≤ already + amountMinor ∨ inv.status = .open ∧ toDue = due }

def noteReason (inv : Invoice) (reason : String) : String :=
  "Credit note on invoice " ++ inv.number ++ ": " ++ reason

def NotePlan.credited (plan : NotePlan) (inv : Invoice) : Invoice :=
  { inv with
    creditedMinor := inv.creditedMinor + plan.toDue
    status := if plan.fully then .credited else inv.status }

/-- The check of `void`: no succeeded payment, open or draft. -/
def checkVoid (inv : Invoice) (paid : Bool) : Except ApiError Unit :=
  if ¬(inv.status = .open ∨ inv.status = .draft) ∨ paid then
    .error (.invalidState ("Only unpaid invoices can be voided; " ++ inv.number ++ " is " ++
      inv.status.name))
  else .ok ()

def voidReason (inv : Invoice) : String := "Credit returned from voided invoice " ++ inv.number

/-- A pending payment is closed with its invoice. -/
def Payment.closed (p : Payment) : Payment :=
  { p with status := .failed, failureReason := some "invoice voided" }

/-- The check of `recordPayment`: the amount is what is due. -/
def checkReceived (inv : Invoice) (amountMinor : Option ℤ) : Except ApiError ℤ :=
  if ¬(inv.status = .open ∨ inv.status = .uncollectible) then
    .error (.invalidState ("Invoice " ++ inv.number ++ " is " ++ inv.status.name))
  else if amountMinor.getD inv.due ≠ inv.due then
    .error (.invalid ("The amount must equal what is due on " ++ inv.number ++ ": " ++
      toString inv.due) [("dueMinor", inv.due)])
  else .ok inv.due

/-- The payment that is recorded for money received outside of the card flow. -/
def receivedPayment (inv : Invoice) (invoiceId : String) (provider : PaymentProvider)
    (reference : Option String) (amount : ℤ) (now : ℕ) : Payment where
  teamId := inv.teamId
  invoiceId := some invoiceId
  provider := provider
  providerRef := reference
  currency := inv.currency
  amountMinor := amount
  status := .succeeded
  createdAt := now

theorem checkReceived_ok {inv : Invoice} {amountMinor : Option ℤ} {amount : ℤ}
    (h : checkReceived inv amountMinor = .ok amount) :
    (inv.status = .open ∨ inv.status = .uncollectible) ∧ amount = inv.due := by
  unfold checkReceived at h
  split_ifs at h with hstatus hamount
  cases h
  exact ⟨hstatus, rfl⟩

theorem checkCreditNote_ok {inv : Invoice} {already amountMinor : ℤ} {plan : NotePlan}
    (h : checkCreditNote inv already amountMinor = .ok plan) :
    (inv.status = .open ∨ inv.status = .paid) ∧ 0 < amountMinor ∧
      plan.toDue = min (if inv.status = .open then inv.due else 0) amountMinor ∧
      plan.toCredit = amountMinor - plan.toDue ∧
      (inv.status = .open → plan.toDue = inv.due → plan.fully = true) := by
  unfold checkCreditNote at h
  dsimp only at h
  split_ifs at h with hstatus hamount hopen
  · cases h
    refine ⟨hstatus, by omega, by simp [hopen], rfl, ?_⟩
    intro _ hdue
    simp only at hdue
    simp [hopen, hdue]
  · cases h
    refine ⟨hstatus, by omega, by simp [hopen], rfl, ?_⟩
    intro hstatus
    exact (hopen hstatus).elim

theorem checkVoid_ok {inv : Invoice} {paid : Bool} (h : checkVoid inv paid = .ok ()) :
    (inv.status = .open ∨ inv.status = .draft) ∧ paid = false := by
  unfold checkVoid at h
  split_ifs at h with hcheck
  rw [not_or, not_not] at hcheck
  exact ⟨hcheck.1, by simpa using hcheck.2⟩

end Prgd.Billing
