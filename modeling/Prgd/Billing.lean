import Prgd.ApiError

/-!
# The tables of billing

The columns of payments, invoices, credits and credit notes that the money
operations read or write. Amounts are integers in minor units. Times are
seconds; the columns that only show when something happened are left out.
-/
namespace Prgd.Billing

inductive Currency where
  | USD | SAR
  deriving DecidableEq, Repr

inductive PaymentProvider where
  | moyasar | bankTransfer | manual | fake
  deriving DecidableEq, Repr

inductive PaymentStatus where
  | pending | succeeded | failed | refunded
  deriving DecidableEq, Repr

inductive InvoiceStatus where
  | draft | open | paid | void | uncollectible | credited
  deriving DecidableEq, Repr

inductive CreditKind where
  | promo | prepaid | refund | goodwill
  deriving DecidableEq, Repr

def PaymentProvider.name : PaymentProvider → String
  | .moyasar => "moyasar"
  | .bankTransfer => "bank_transfer"
  | .manual => "manual"
  | .fake => "fake"

/-- `providerByName`: the providers with an adapter. -/
def PaymentProvider.takesCards : PaymentProvider → Bool
  | .moyasar | .fake => true
  | .bankTransfer | .manual => false

def PaymentStatus.name : PaymentStatus → String
  | .pending => "pending"
  | .succeeded => "succeeded"
  | .failed => "failed"
  | .refunded => "refunded"

def InvoiceStatus.name : InvoiceStatus → String
  | .draft => "draft"
  | .open => "open"
  | .paid => "paid"
  | .void => "void"
  | .uncollectible => "uncollectible"
  | .credited => "credited"

structure Payment where
  teamId : String
  invoiceId : Option String
  provider : PaymentProvider
  providerRef : Option String
  currency : Currency
  amountMinor : ℤ
  status : PaymentStatus := .pending
  failureReason : Option String := none
  refundedMinor : ℤ := 0
  refundRef : Option String := none
  createdAt : ℕ := 0
  deriving DecidableEq

structure Invoice where
  teamId : String
  number : String
  currency : Currency
  /-- The first hour of the period and the one after its last. -/
  periodStart : ℕ
  periodEnd : ℕ
  subtotalMinor : ℤ
  taxMinor : ℤ
  creditMinor : ℤ
  totalMinor : ℤ
  creditedMinor : ℤ := 0
  status : InvoiceStatus
  deriving DecidableEq

/-- What is still to be paid. -/
def Invoice.due (inv : Invoice) : ℤ := inv.totalMinor - inv.creditedMinor

structure Credit where
  teamId : String
  kind : CreditKind
  currency : Currency
  amountMinor : ℤ
  remainingMinor : ℤ
  reason : String
  expiresAt : Option ℕ := none
  createdAt : ℕ := 0
  deriving DecidableEq

/-- A new credit has all of its amount left. -/
def Credit.make (teamId : String) (kind : CreditKind) (currency : Currency) (amountMinor : ℤ)
    (reason : String) : Credit where
  teamId := teamId
  kind := kind
  currency := currency
  amountMinor := amountMinor
  remainingMinor := amountMinor
  reason := reason

end Prgd.Billing
