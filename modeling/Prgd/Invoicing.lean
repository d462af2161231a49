import Prgd.Rating

/-!
# What an invoice is made of

The parts of `issueForTeam` that only compute: the records that a run picks up,
the tax, the order in which credits are consumed, and the invoice that is written.
The sequential ledger and the concurrent runs both use them.
-/
namespace Prgd.Invoicing
open Billing Rating Calendar JsNumber

abbrev RecordKey := Resource × ℕ

structure Team where
  id : String
  currency : Currency
  country : String
  projects : List String
  deriving DecidableEq

/-- The arguments of `issueForTeam`. -/
structure Request where
  team : Team
  periodStart : ℕ
  periodEnd : ℕ
  now : ℕ
  deriving DecidableEq

def taxRateFor (currency : Currency) (country : String) : ℚ :=
  if currency = .SAR ∨ country = "SA" then nearest (15 / 100) else 0

/-- A record of the period that is on no invoice. -/
def Request.bills (r : Request) (k : RecordKey) (u : UsageRecord) : Bool :=
  u.projectId ∈ r.team.projects ∧ r.periodStart ≤ k.2 ∧ k.2 < r.periodEnd ∧ u.invoiceId = none

/-- The keys and amounts of the records that are read. -/
def Request.unbilled (r : Request) (rows : List (RecordKey × UsageRecord)) : List (RecordKey × ℤ) :=
  (rows.filter fun e => r.bills e.1 e.2).map fun e => (e.1, e.2.amountMinor)

/-- A request with the records that were read for it. -/
structure Bill where
  request : Request
  records : List (RecordKey × ℤ)

def Bill.keys (b : Bill) : List RecordKey := b.records.map Prod.fst

def Bill.subtotal (b : Bill) : ℤ := (b.records.map Prod.snd).sum

def Bill.tax (b : Bill) : ℤ :=
  mathRound (nearest (b.subtotal * taxRateFor b.request.team.currency b.request.team.country))

/-- What credits can be consumed for. -/
def Bill.gross (b : Bill) : ℤ := b.subtotal + b.tax

theorem mathRound_nonneg {q : ℚ} (h : 0 ≤ q) : 0 ≤ mathRound q := by
  rw [mathRound, Rat.le_floor_iff]
  push_cast
  linarith

theorem taxRateFor_nonneg (currency : Currency) (country : String) :
    0 ≤ taxRateFor currency country := by
  unfold taxRateFor
  split_ifs
  · exact nearest_nonneg (by norm_num)
  · exact le_rfl

theorem Bill.tax_nonneg {b : Bill} (h : 0 < b.subtotal) : 0 ≤ b.tax := by
  have hsub : (0 : ℚ) ≤ b.subtotal := by exact_mod_cast h.le
  exact mathRound_nonneg (nearest_nonneg (mul_nonneg hsub (taxRateFor_nonneg _ _)))

theorem Bill.gross_pos {b : Bill} (h : 0 < b.subtotal) : 0 < b.gross := by
  have := Bill.tax_nonneg h
  unfold Bill.gross
  omega

/-! ## Credits -/

/-- Oldest expiry first, credits without one last; then oldest first. -/
def sooner (c d : ℕ × Credit) : Bool :=
  match c.2.expiresAt, d.2.expiresAt with
  | some s, some t => s < t ∨ s = t ∧ c.2.createdAt ≤ d.2.createdAt
  | some _, none => true
  | none, some _ => false
  | none, none => c.2.createdAt ≤ d.2.createdAt

def Request.spends (r : Request) (c : Credit) : Bool :=
  c.teamId = r.team.id ∧ 0 < c.remainingMinor ∧ c.expiresAt.all fun t => r.now < t

/-- The credits that `consumeCredits` goes through. -/
def Request.spendable (r : Request) (rows : List (ℕ × Credit)) : List (ℕ × Credit) :=
  (rows.filter fun c => r.spends c.2).mergeSort sooner

theorem Request.mem_spendable {r : Request} {rows : List (ℕ × Credit)} {c : ℕ × Credit}
    (h : c ∈ r.spendable rows) : c ∈ rows ∧ 0 < c.2.remainingMinor := by
  have hmem := (List.mergeSort_perm _ sooner).mem_iff.mp h
  rw [List.mem_filter] at hmem
  have hspends := hmem.2
  simp only [Request.spends, decide_eq_true_eq] at hspends
  exact ⟨hmem.1, hspends.2.1⟩

/-- The decrement of one credit. -/
def Credit.take (c : Credit) (use : ℤ) : Credit :=
  { c with remainingMinor := c.remainingMinor - use }

/-! ## The invoice -/

/-- A number with zeros in front of it. -/
def padded (width n : ℕ) : String :=
  let digits := toString n
  String.ofList (List.replicate (width - digits.length) '0') ++ digits

def yearOf (now : ℕ) : ℕ := 1970 + monthOf (now / 3600) / 12

def invoiceNumber (year seq : ℕ) : String := "PRGD-" ++ toString year ++ "-" ++ padded 6 seq

def Bill.invoice (b : Bill) (credit : ℤ) (seq : ℕ) : Invoice where
  teamId := b.request.team.id
  number := invoiceNumber (yearOf b.request.now) seq
  currency := b.request.team.currency
  periodStart := b.request.periodStart
  periodEnd := b.request.periodEnd
  subtotalMinor := b.subtotal
  taxMinor := b.tax
  creditMinor := credit
  totalMinor := b.subtotal + b.tax - credit
  status := if b.subtotal + b.tax - credit = 0 then .paid else .open

/-- The unique index on the team and the period. -/
def samePeriod (inv : Invoice) (r : Request) : Bool :=
  inv.teamId = r.team.id ∧ inv.periodStart = r.periodStart ∧ inv.periodEnd = r.periodEnd

end Prgd.Invoicing
