import Prgd.BackOffice
import Prgd.Invoicing
import Prgd.Refunds

/-!
# Billing, one operation after another

Usage, records, invoices, credits and payments of all teams as one state, and every
operation on it as one step: `rollupHour`, `issueForPreviousMonth`, top ups and card
payments with the provider's events, refunds, credit notes, void, payments by hand and
writing off. What the outside answers (a checkout, a refund, a transaction that is
lost) comes with the step. An operation that throws leaves what it has written before.

Rows get ids that are not in use. Two fields are no columns: which payments were
turned into credit, and how much prepaid credit of a team invoices have consumed.
-/
namespace Prgd.Books
open Billing Rating Invoicing Calendar

structure Ledger where
  now : ℕ := 0
  events : List UsageEvent := []
  records : Records := Table.empty
  invoices : Table String Invoice := Table.empty
  credits : Table ℕ Credit := Table.empty
  payments : Table String Payment := Table.empty
  /-- The credit notes: invoice and amount. -/
  notes : List (String × ℤ) := []
  seq : ℕ := 1
  /-- The payments that were turned into credit. -/
  kept : List String := []
  /-- The prepaid credit of a team that invoices have consumed. -/
  consumed : String → ℤ := fun _ => 0

/-- An operation returns the state that it leaves, and what it throws. -/
abbrev Outcome := Ledger × Option ApiError

def addCredit (l : Ledger) (c : Credit) : Ledger :=
  { l with credits := l.credits.put l.credits.fresh { c with createdAt := l.now } }

def setPayment (l : Ledger) (id : String) (p : Payment) : Ledger :=
  { l with payments := l.payments.put id p }

def setInvoice (l : Ledger) (id : String) (inv : Invoice) : Ledger :=
  { l with invoices := l.invoices.put id inv }

/-! ## Taking from credits -/

/-- The loop of `consumeCredits` and of `takeBackPrepaid`: guarded decrements, one credit
after another, until nothing is left to take. -/
def drain (changed : ℕ → String) :
    List (ℕ × Credit) → ℤ → Table ℕ Credit → Except String (Table ℕ Credit × ℤ)
  | [], left, t => .ok (t, left)
  | c :: cs, left, t =>
      if left ≤ 0 then .ok (t, left) else
        let use := min c.2.remainingMinor left
        match t.find c.1 with
        | none => .error (changed c.1)
        | some row =>
            if row.remainingMinor < use then .error (changed c.1)
            else drain changed cs (left - use) (t.put c.1 (Credit.take row use))

def isPrepaid (teamId : String) (c : Credit) : Bool := c.teamId = teamId ∧ c.kind = .prepaid

/-- What is left of the prepaid credit of a team. -/
def prepaid (credits : Table ℕ Credit) (teamId : String) : ℤ :=
  credits.sum fun _ c => if isPrepaid teamId c then c.remainingMinor else 0

def prepaidBalance (credits : Table ℕ Credit) (teamId : String) : ℤ :=
  credits.sum fun _ c =>
    if isPrepaid teamId c ∧ 0 < c.remainingMinor then c.remainingMinor else 0

def refundChanged (id : ℕ) : String := "credit " ++ toString id ++ " changed during the refund"

/-- Newest first. -/
def takeBackPrepaid (credits : Table ℕ Credit) (teamId : String) (amountMinor : ℤ) :
    Except String (Table ℕ Credit) :=
  let unused := (credits.rows.filter fun c => isPrepaid teamId c.2 ∧ 0 < c.2.remainingMinor).mergeSort
    fun c d => d.2.createdAt ≤ c.2.createdAt
  match drain refundChanged unused amountMinor credits with
  | .error m => .error m
  | .ok (t, left) =>
      if 0 < left then
        .error ("not enough unused prepaid credit to take back " ++ toString amountMinor)
      else .ok t

/-! ## Issuing -/

def creditChanged (id : ℕ) : String := "credit " ++ toString id ++ " changed while invoicing"

/-- `updateMany` over the records that were read. -/
def linkRecords (records : Records) (keys : List RecordKey) (id : String) : Records :=
  records.amend fun k u => if k ∈ keys ∧ u.invoiceId = none then { u with invoiceId := some id } else u

def linkable (records : Records) (keys : List RecordKey) : ℕ :=
  (records.rows.filter fun e => e.1 ∈ keys ∧ e.2.invoiceId = none).length

/-- `issueForTeam`, for an invoice with this id. The transaction may be lost. -/
def issueForTeam (l : Ledger) (r : Request) (id : String) (lost : Bool) : Ledger :=
  let b : Bill := ⟨r, r.unbilled l.records.rows⟩
  if l.invoices.rows.any (fun e => samePeriod e.2 r) ∨ (l.invoices.find id).isSome then l
  else if b.subtotal ≤ 0 then l
  else match drain creditChanged (r.spendable l.credits.rows) b.gross l.credits with
    | .error _ => l
    | .ok (credits, left) =>
        -- a number that was drawn stays drawn
        if lost ∨ linkable l.records b.keys ≠ b.records.length then { l with seq := l.seq + 1 }
        else { l with
          seq := l.seq + 1
          credits := credits
          invoices := l.invoices.put id (b.invoice (b.gross - left) l.seq)
          records := linkRecords l.records b.keys id
          consumed := fun t => l.consumed t + (prepaid l.credits t - prepaid credits t) }

/-- The state with a new invoice. -/
def issueInto (l : Ledger) (r : Request) (id : String) (credits : Table ℕ Credit) (left : ℤ) :
    Ledger :=
  let b : Bill := ⟨r, r.unbilled l.records.rows⟩
  { l with
    seq := l.seq + 1
    credits := credits
    invoices := l.invoices.put id (b.invoice (b.gross - left) l.seq)
    records := linkRecords l.records b.keys id
    consumed := fun t => l.consumed t + (prepaid l.credits t - prepaid credits t) }

/-- Nothing but a number is taken, or an invoice is issued. -/
theorem issueForTeam_cases (l : Ledger) (r : Request) (id : String) (lost : Bool) :
    (∃ seq, issueForTeam l r id lost = { l with seq := seq }) ∨
    ∃ credits left, l.invoices.find id = none ∧
      drain creditChanged (r.spendable l.credits.rows)
        (⟨r, r.unbilled l.records.rows⟩ : Bill).gross l.credits = .ok (credits, left) ∧
      issueForTeam l r id lost = issueInto l r id credits left := by
  unfold issueForTeam
  dsimp only
  by_cases hskip : l.invoices.rows.any (fun e => samePeriod e.2 r) ∨ (l.invoices.find id).isSome
  · rw [if_pos hskip]
    exact .inl ⟨l.seq, rfl⟩
  · rw [if_neg hskip]
    rw [not_or, Option.not_isSome_iff_eq_none] at hskip
    by_cases hcost : (⟨r, r.unbilled l.records.rows⟩ : Bill).subtotal ≤ 0
    · rw [if_pos hcost]
      exact .inl ⟨l.seq, rfl⟩
    · rw [if_neg hcost]
      split
      · exact .inl ⟨l.seq, rfl⟩
      next credits left hdrain =>
        by_cases hlost : lost ∨ linkable l.records (⟨r, r.unbilled l.records.rows⟩ : Bill).keys ≠
            (r.unbilled l.records.rows).length
        · rw [if_pos hlost]
          exact .inl ⟨l.seq + 1, rfl⟩
        · rw [if_neg hlost]
          exact .inr ⟨credits, left, hskip.2, hdrain, rfl⟩

/-- The teams that were found, with the id of the invoice and whether its transaction is
lost. A team that fails does not stop the others. -/
def issueForPreviousMonth (l : Ledger) (teams : List (Team × String × Bool)) : Ledger :=
  let periodEnd := startOfMonth (l.now / 3600)
  let periodStart := startOfMonth (periodEnd - 1)
  teams.foldl (fun l t => issueForTeam l ⟨t.1, periodStart, periodEnd, l.now⟩ t.2.1 t.2.2) l

/-! ## Card payments -/

/-- The team that pays, and the configured provider. -/
structure Payer where
  isAgent : Bool
  teamId : String
  currency : Currency
  provider : PaymentProvider
  deriving DecidableEq

/-- What a checkout answers: its reference or an error, and then the error of the event
that is emitted. -/
structure Checkout where
  answer : Except String String
  emitted : Option String := none

def internal (message : String) : ApiError where
  status := 500
  code := "internal_error"
  message := message

def busy (l : Ledger) (invoiceId : String) : Bool :=
  l.payments.rows.any fun e => e.2.recent invoiceId l.now

/-- `start`, for a payment with this id. -/
def start (l : Ledger) (who : Payer) (id : String) (amountMinor : ℤ) (invoiceId : Option String)
    (checkout : Checkout) : Outcome :=
  let p : Payment := {
    teamId := who.teamId
    invoiceId := invoiceId
    provider := who.provider
    providerRef := none
    currency := who.currency
    amountMinor := amountMinor
    createdAt := l.now }
  if invoiceId.any (busy l) then
    (l, some (.conflict "payment_in_progress"
      "A payment for this invoice is already being started. Try again in a moment."))
  else match checkout.answer with
    | .error m =>
        (setPayment l id { p with status := .failed, failureReason := some m }, some (internal m))
    | .ok ref =>
        match checkout.emitted with
        | some m =>
            (setPayment l id
              { p with providerRef := some ref, status := .failed, failureReason := some m },
              some (internal m))
        | none => (setPayment l id { p with providerRef := some ref }, none)

/-- The smallest and the largest top up. -/
def limits : Currency → ℤ × ℤ
  | .SAR => (2000, 2000000)
  | .USD => (500, 500000)

def topup (l : Ledger) (who : Payer) (id : String) (amountMinor : ℤ) (checkout : Checkout) :
    Outcome :=
  let (low, high) := limits who.currency
  if who.isAgent then
    (l, some (.forbidden "Agents cannot add credit. A person must do this in the console."))
  else if amountMinor < low ∨ high < amountMinor then
    (l, some (.invalid ("Amount must be between " ++ toString (low / 100) ++ " and " ++
      toString (high / 100) ++ " " ++ who.currency.name) [("min", low), ("max", high)]))
  else start l who id amountMinor none checkout

def payInvoice (l : Ledger) (who : Payer) (id invoiceId : String) (checkout : Checkout) : Outcome :=
  if who.isAgent then
    (l, some (.forbidden "Agents cannot pay invoices. A person must do this in the console."))
  else match (l.invoices.find invoiceId).filter fun inv => inv.teamId = who.teamId with
    | none => (l, some (.notFound "invoice" invoiceId))
    | some inv =>
        match checkOpen inv with
        | .error e => (l, some e)
        | .ok () =>
            -- a recent pending payment is handed out again
            match (l.payments.rows.filter fun e => e.2.recent invoiceId l.now).argmax
                fun e => e.2.createdAt with
            | some e =>
                if e.2.providerRef = none then
                  (l, some (.conflict "payment_in_progress" ("A payment for invoice " ++
                    inv.number ++ " is already being started. Try again in a moment.")))
                else (l, none)
            | none =>
                match checkDue inv with
                | .error e => (l, some e)
                | .ok due => start l who id due (some invoiceId) checkout

/-- The transaction of `handle`: the payment succeeds and settles its invoice if that is
open; else it is kept as credit. -/
def settle (l : Ledger) (id : String) (p : Payment) (ref : String) : Ledger :=
  let l := setPayment l id { p with status := .succeeded }
  match p.invoiceId with
  | none => addCredit { l with kept := id :: l.kept } (p.asCredit (topUpReason p.provider ref))
  | some invoiceId =>
      match l.invoices.find invoiceId with
      | some inv =>
          if inv.status = .open then setInvoice l invoiceId { inv with status := .paid }
          else addCredit { l with kept := id :: l.kept } (p.asCredit (lateReason inv.number))
      | none => addCredit { l with kept := id :: l.kept } (p.asCredit (lateReason invoiceId))

/-- `handle` for one event of a provider. -/
def handle (l : Ledger) (provider : PaymentProvider) (ev : PaymentEvent) : Ledger :=
  match l.payments.rows.find? fun e =>
      e.2.provider = provider ∧ e.2.providerRef = some ev.providerRef with
  | none => l
  | some (id, p) =>
      if p.status ≠ .pending then l
      else if ev.succeeded = false then
        setPayment l id { p with status := .failed, failureReason := ev.reason }
      else if ev.fits p then settle l id p ev.providerRef
      else setPayment l id { p with status := .failed, failureReason := some (ev.mismatch p) }

/-! ## The back office -/

/-- `refund`, with what the provider answers and whether the transaction is lost. -/
def refund (l : Ledger) (id : String) (amountMinor : Option ℤ) (answer : Except String String)
    (lost : Bool) : Outcome :=
  match l.payments.find id with
  | none => (l, some (.notFound "payment" id))
  | some p =>
      match Refunds.checkRefund p amountMinor with
      | .error e => (l, some e)
      | .ok amount =>
          let unused := prepaidBalance l.credits p.teamId
          if p.invoiceId = none ∧ unused < amount then
            (l, some (.invalidState ("Only " ++ toString unused ++
              " of this top up is unused credit; refund at most that")))
          else match answer with
            | .error m => (l, some (internal m))
            | .ok ref =>
                if lost then (l, some (internal "payment changed during the refund"))
                else
                  let row := Refunds.refunded p amount ref (amount = p.amountMinor - p.refundedMinor)
                  match if p.invoiceId = none then takeBackPrepaid l.credits p.teamId amount
                      else .ok l.credits with
                  | .error m => (l, some (internal m))
                  | .ok credits =>
                      (setPayment { l with credits := credits } id row, none)

/-- What is taken back for a refund: nothing for the payment of an invoice. -/
def takenBack (l : Ledger) (p : Payment) (amount : ℤ) : Except String (Table ℕ Credit) :=
  if p.invoiceId = none then takeBackPrepaid l.credits p.teamId amount else .ok l.credits

/-- A refund throws and leaves the state, or it completes. -/
theorem refund_cases (l : Ledger) (id : String) (amountMinor : Option ℤ)
    (answer : Except String String) (lost : Bool) :
    (∃ e, refund l id amountMinor answer lost = (l, some e)) ∨
    ∃ p amount ref credits, l.payments.find id = some p ∧ answer = .ok ref ∧ lost = false ∧
      Refunds.checkRefund p amountMinor = .ok amount ∧ takenBack l p amount = .ok credits ∧
      refund l id amountMinor answer lost =
        (setPayment { l with credits := credits } id
          (Refunds.refunded p amount ref (amount = p.amountMinor - p.refundedMinor)), none) := by
  unfold refund
  cases hp : l.payments.find id with
  | none => exact .inl ⟨_, rfl⟩
  | some p =>
    cases hcheck : Refunds.checkRefund p amountMinor with
    | error e => exact .inl ⟨e, by simp only [hcheck]⟩
    | ok amount =>
      simp only [hcheck]
      by_cases hunused : p.invoiceId = none ∧ prepaidBalance l.credits p.teamId < amount
      · exact .inl ⟨_, by rw [if_pos hunused]⟩
      · rw [if_neg hunused]
        cases answer with
        | error m => exact .inl ⟨_, rfl⟩
        | ok ref =>
          cases lost with
          | true => exact .inl ⟨_, rfl⟩
          | false =>
            simp only [Bool.false_eq_true, if_false]
            rw [← takenBack]
            cases htaken : takenBack l p amount with
            | error m => exact .inl ⟨_, rfl⟩
            | ok credits => exact .inr ⟨p, amount, ref, credits, rfl, rfl, trivial, hcheck, htaken, rfl⟩

def addNote (l : Ledger) (invoiceId : String) (amountMinor : ℤ) : Ledger :=
  { l with notes := (invoiceId, amountMinor) :: l.notes }

def creditNote (l : Ledger) (invoiceId : String) (amountMinor : ℤ) (reason : String) : Outcome :=
  match l.invoices.find invoiceId with
  | none => (l, some (.notFound "invoice" invoiceId))
  | some inv =>
      let already := ((l.notes.filter fun n => n.1 = invoiceId).map Prod.snd).sum
      match checkCreditNote inv already amountMinor with
      | .error e => (l, some e)
      | .ok plan =>
          let l' := setInvoice (addNote l invoiceId amountMinor) invoiceId (plan.credited inv)
          if 0 < plan.toCredit then
            (addCredit l' (Credit.make inv.teamId .refund inv.currency plan.toCredit
              (noteReason inv reason)), none)
          else (l', none)

/-- The pending payments of a voided invoice fail. -/
def closePending (l : Ledger) (invoiceId : String) : Ledger :=
  { l with payments := l.payments.amend fun _ p =>
      if p.invoiceId = some invoiceId ∧ p.status = .pending then p.closed else p }

def void (l : Ledger) (invoiceId : String) : Outcome :=
  match l.invoices.find invoiceId with
  | none => (l, some (.notFound "invoice" invoiceId))
  | some inv =>
      match checkVoid inv (l.payments.rows.any fun e =>
          e.2.invoiceId = some invoiceId ∧ e.2.status = .succeeded) with
      | .error e => (l, some e)
      | .ok () =>
          let l' := setInvoice (closePending l invoiceId) invoiceId { inv with status := .void }
          if 0 < inv.creditMinor then
            (addCredit l' (Credit.make inv.teamId .refund inv.currency inv.creditMinor
              (voidReason inv)), none)
          else (l', none)

def recordPayment (l : Ledger) (id invoiceId : String) (provider : PaymentProvider)
    (amountMinor : Option ℤ) (reference : Option String) : Outcome :=
  match l.invoices.find invoiceId with
  | none => (l, some (.notFound "invoice" invoiceId))
  | some inv =>
      match checkReceived inv amountMinor with
      | .error e => (l, some e)
      | .ok amount =>
          (setInvoice (setPayment l id
            (receivedPayment inv invoiceId provider reference amount l.now)) invoiceId
            { inv with status := .paid }, none)

def markUncollectible (l : Ledger) (invoiceId : String) : Outcome :=
  match l.invoices.find invoiceId with
  | none => (l, some (.notFound "invoice" invoiceId))
  | some inv =>
      if inv.status ≠ .open then
        (l, some (.invalidState ("Only open invoices can be marked uncollectible; " ++
          inv.number ++ " is " ++ inv.status.name)))
      else (setInvoice l invoiceId { inv with status := .uncollectible }, none)

/-! ## Runs -/

inductive Act where
  | wait (seconds : ℕ)
  | ingest (sent : List UsageEvent)
  | rollupHour (hour : ℕ) (c : Catalog)
  | issueForPreviousMonth (teams : List (Team × String × Bool))
  | topup (who : Payer) (id : String) (amountMinor : ℤ) (checkout : Checkout)
  | payInvoice (who : Payer) (id invoiceId : String) (checkout : Checkout)
  | handle (provider : PaymentProvider) (ev : PaymentEvent)
  | refund (id : String) (amountMinor : Option ℤ) (answer : Except String String) (lost : Bool)
  | creditNote (invoiceId : String) (amountMinor : ℤ) (reason : String)
  | void (invoiceId : String)
  | recordPayment (id invoiceId : String) (provider : PaymentProvider) (amountMinor : Option ℤ)
      (reference : Option String)
  | markUncollectible (invoiceId : String)

/-- The id that a step gives to a new payment. -/
def Act.paymentId : Act → Option String
  | .topup _ id _ _ | .payInvoice _ id _ _ | .recordPayment id _ _ _ _ => some id
  | _ => none

/-- An id in use does not come up again. -/
def step (l : Ledger) (a : Act) : Ledger :=
  if a.paymentId.any fun id => (l.payments.find id).isSome then l else
    match a with
    | .wait seconds => { l with now := l.now + seconds }
    | .ingest sent => { l with events := Rating.ingest l.events sent }
    | .rollupHour hour c => { l with records := (Rating.rollupHour c hour l.events l.records).1 }
    | .issueForPreviousMonth teams => issueForPreviousMonth l teams
    | .topup who id amountMinor checkout => (topup l who id amountMinor checkout).1
    | .payInvoice who id invoiceId checkout => (payInvoice l who id invoiceId checkout).1
    | .handle provider ev => handle l provider ev
    | .refund id amountMinor answer lost => (refund l id amountMinor answer lost).1
    | .creditNote invoiceId amountMinor reason => (creditNote l invoiceId amountMinor reason).1
    | .void invoiceId => (void l invoiceId).1
    | .recordPayment id invoiceId provider amountMinor reference =>
        (recordPayment l id invoiceId provider amountMinor reference).1
    | .markUncollectible invoiceId => (markUncollectible l invoiceId).1

end Prgd.Books
