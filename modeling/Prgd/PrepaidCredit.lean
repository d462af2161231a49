import Prgd.InvoiceRecords

/-!
# Prepaid credit and the payments behind it

A top up becomes prepaid credit, and so does the payment of an invoice that is no
longer open when it arrives. A refund takes prepaid credit back if the payment has no
invoice: it does so for a top up, and not for the other kind.

The module proves that no team ever had more prepaid credit, consumed or left, than
its payments that became credit are worth after refunds, for every sequence of
operations in which no payment of the other kind is refunded.
-/
namespace Prgd.Books
open Interleaving Billing Invoicing

/-- What a payment that became credit is worth after refunds. -/
def worth (kept : List String) (teamId : String) (id : String) (p : Payment) : ℤ :=
  if p.teamId = teamId ∧ (p.status = .succeeded ∨ p.status = .refunded) ∧ id ∈ kept then
    p.amountMinor - p.refundedMinor
  else 0

/-- The money behind the prepaid credit of a team. -/
def creditedPayments (l : Ledger) (teamId : String) : ℤ := l.payments.sum (worth l.kept teamId)

def PrepaidCovered (l : Ledger) : Prop :=
  ∀ teamId, l.consumed teamId + prepaid l.credits teamId ≤ creditedPayments l teamId

/-- A refund that completes takes back what it refunds, if the payment became credit. -/
def TakesBack (l : Ledger) : Act → Prop
  | .refund id amountMinor answer lost => ∀ p ∈ l.payments.find id, id ∈ l.kept →
      (refund l id amountMinor answer lost).2 = none →
        ∃ amount, Refunds.checkRefund p amountMinor = .ok amount ∧
          prepaid (refund l id amountMinor answer lost).1.credits p.teamId =
            prepaid l.credits p.teamId - amount
  | _ => True

/-- A refund that passes its checks and reaches the card is for a top up, or for a payment
that was applied to its invoice. -/
def AppliedOrTopUp (l : Ledger) : Act → Prop
  | .refund id amountMinor (.ok _) false => ∀ p ∈ l.payments.find id,
      (Refunds.checkRefund p amountMinor).isOk → p.invoiceId ≠ none → id ∉ l.kept
  | _ => True

instance (l : Ledger) (a : Act) : Decidable (AppliedOrTopUp l a) := by
  unfold AppliedOrTopUp
  split
  · infer_instance
  · infer_instance

/-! ## Taking from credits -/

theorem isPrepaid_take (teamId : String) (c : Credit) (use : ℤ) :
    isPrepaid teamId (Credit.take c use) = isPrepaid teamId c := rfl

/-- What one decrement does to the prepaid credit of a team. -/
theorem prepaid_put_take {t : Table ℕ Credit} {k : ℕ} {row : Credit} (h : t.find k = some row)
    (use : ℤ) (teamId : String) :
    prepaid (t.put k (Credit.take row use)) teamId =
      prepaid t teamId - if isPrepaid teamId row then use else 0 := by
  rw [prepaid, Table.sum_put, h, Option.elim_some, isPrepaid_take, prepaid]
  split_ifs
  · simp only [Credit.take]
    omega
  · omega

/-- The loop takes what it says, from the credits it goes through. -/
theorem drain_ok {changed : ℕ → String} {teamId : String} {all : Bool} {cs : List (ℕ × Credit)}
    {left left' : ℤ} {t t' : Table ℕ Credit}
    (hcs : ∀ c ∈ cs, ∀ row, t.find c.1 = some row → isPrepaid teamId row = all)
    (h : drain changed cs left t = .ok (t', left')) :
    prepaid t' teamId = prepaid t teamId - (if all then left - left' else 0) ∧
      (0 ≤ left → 0 ≤ left') := by
  induction cs generalizing left t with
  | nil =>
    cases h
    constructor
    · split_ifs <;> omega
    · exact id
  | cons c cs ih =>
    rw [drain] at h
    split_ifs at h with hleft
    · cases h
      constructor
      · split_ifs <;> omega
      · exact id
    · dsimp only at h
      cases hfind : t.find c.1 with
      | none =>
        rw [hfind] at h
        cases h
      | some row =>
        rw [hfind] at h
        dsimp only at h
        split_ifs at h with henough
        have hrow := hcs c List.mem_cons_self row hfind
        have hrest : ∀ d ∈ cs, ∀ r,
            (t.put c.1 (Credit.take row (min c.2.remainingMinor left))).find d.1 = some r →
            isPrepaid teamId r = all := by
          intro d hd r hr
          by_cases hdc : d.1 = c.1
          · rw [hdc, Table.find_put_self] at hr
            rw [← Option.some.inj hr, isPrepaid_take]
            exact hrow
          · rw [Table.find_put_of_ne _ hdc] at hr
            exact hcs d (List.mem_cons_of_mem c hd) r hr
        obtain ⟨hsum, hnonneg⟩ := ih hrest h
        rw [prepaid_put_take hfind, hrow] at hsum
        constructor
        · rw [hsum]
          split_ifs <;> omega
        · intro _
          exact hnonneg (by omega)

/-- Taking back lowers the prepaid credit of the team by the amount, and nobody else's. -/
theorem prepaid_takeBack {t t' : Table ℕ Credit} {teamId : String} {amount : ℤ} (hpos : 0 < amount)
    (h : takeBackPrepaid t teamId amount = .ok t') (other : String) :
    prepaid t' other = prepaid t other - if other = teamId then amount else 0 := by
  unfold takeBackPrepaid at h
  dsimp only at h
  split at h
  · cases h
  next t'' left hdrain =>
    split_ifs at h with hleft
    cases h
    have hcs : ∀ c ∈ (t.rows.filter fun c =>
        isPrepaid teamId c.2 ∧ 0 < c.2.remainingMinor).mergeSort
          (fun c d => d.2.createdAt ≤ c.2.createdAt), ∀ row, t.find c.1 = some row →
        isPrepaid other row = decide (other = teamId) := by
      intro c hc row hrow
      have hmem := List.mem_filter.mp ((List.mergeSort_perm _ _).mem_iff.mp hc)
      have hfound : t.find c.1 = some c.2 := Table.find_of_mem hmem.1
      have hprepaid : isPrepaid teamId row = true := by
        rw [hfound] at hrow
        rw [← Option.some.inj hrow]
        simpa using (of_decide_eq_true hmem.2).1
      simp only [isPrepaid, decide_eq_true_eq] at hprepaid
      simp [isPrepaid, hprepaid, eq_comm]
    obtain ⟨hsum, hnonneg⟩ := drain_ok hcs hdrain
    have hzero : left = 0 := by
      have := hnonneg hpos.le
      omega
    rw [hsum, hzero]
    simp only [decide_eq_true_eq]
    split_ifs <;> omega

/-! ## What every step keeps -/

structure Covered (l : Ledger) : Prop where
  covered : PrepaidCovered l
  kept : ∀ id ∈ l.kept, ∃ p, l.payments.find id = some p ∧
    (p.status = .succeeded ∨ p.status = .refunded)
  unrefunded : ∀ id p, l.payments.find id = some p → p.status = .pending → p.refundedMinor = 0

theorem Covered.notMem_kept {l : Ledger} (h : Covered l) {id : String}
    (hid : ∀ p, l.payments.find id = some p → p.status = .pending) : id ∉ l.kept := by
  intro hmem
  obtain ⟨p, hp, hstatus⟩ := h.kept id hmem
  rw [hid p hp] at hstatus
  rcases hstatus with hstatus | hstatus <;> cases hstatus

theorem Covered.notMem_new {l : Ledger} (h : Covered l) {id : String}
    (hid : l.payments.find id = none) : id ∉ l.kept := by
  apply h.notMem_kept
  intro p hp
  rw [hid] at hp
  cases hp

theorem Covered.notMem_pending {l : Ledger} (h : Covered l) {id : String} {p : Payment}
    (hp : l.payments.find id = some p) (hpending : p.status = .pending) : id ∉ l.kept := by
  apply h.notMem_kept
  intro q hq
  rw [hp] at hq
  rw [← Option.some.inj hq]
  exact hpending

theorem prepaid_addCredit (l : Ledger) (c : Credit) (teamId : String) :
    prepaid (addCredit l c).credits teamId =
      prepaid l.credits teamId + if isPrepaid teamId c then c.remainingMinor else 0 := by
  rw [addCredit, prepaid, Table.sum_put, Table.find_fresh, Option.elim_none, prepaid]
  have hsame : isPrepaid teamId { c with createdAt := l.now } = isPrepaid teamId c := rfl
  simp only [hsame]
  omega

/-- A credit of another kind. -/
theorem covered_addCredit {l : Ledger} (h : Covered l) {c : Credit} (hc : c.kind ≠ .prepaid) :
    Covered (addCredit l c) := by
  constructor
  · intro teamId
    have hnot : isPrepaid teamId c = false := by simp [isPrepaid, hc]
    have hprepaid := prepaid_addCredit l c teamId
    rw [hnot, if_neg (by decide)] at hprepaid
    have hconsumed : (addCredit l c).consumed teamId = l.consumed teamId := rfl
    have hcredited : creditedPayments (addCredit l c) teamId = creditedPayments l teamId := rfl
    have := h.covered teamId
    rw [hprepaid, hconsumed, hcredited]
    omega
  · exact h.kept
  · exact h.unrefunded

theorem covered_setInvoice {l : Ledger} (h : Covered l) (id : String) (inv : Invoice) :
    Covered (setInvoice l id inv) := ⟨h.covered, h.kept, h.unrefunded⟩

theorem covered_addNote {l : Ledger} (h : Covered l) (invoiceId : String) (amountMinor : ℤ) :
    Covered (addNote l invoiceId amountMinor) := ⟨h.covered, h.kept, h.unrefunded⟩

/-- A payment that has not become credit. -/
theorem covered_setPayment {l : Ledger} (h : Covered l) {id : String} (hid : id ∉ l.kept)
    {p : Payment} (hp : p.status = .pending → p.refundedMinor = 0) :
    Covered (setPayment l id p) := by
  constructor
  · intro teamId
    have hzero : ∀ q, worth l.kept teamId id q = 0 := by
      intro q
      simp [worth, hid]
    have hold : (l.payments.find id).elim 0 (worth l.kept teamId id) = 0 := by
      cases l.payments.find id with
      | none => rfl
      | some q => exact hzero q
    have hsame : creditedPayments (setPayment l id p) teamId = creditedPayments l teamId := by
      have hput := Table.sum_put (worth l.kept teamId) l.payments id p
      rw [hold, hzero p] at hput
      exact hput.trans (by rw [creditedPayments]; omega)
    rw [hsame]
    exact h.covered teamId
  · intro id' hid'
    obtain ⟨q, hq, hstatus⟩ := h.kept id' hid'
    have hne : id' ≠ id := fun heq => hid (heq ▸ hid')
    exact ⟨q, by rw [setPayment, Table.find_put_of_ne _ hne]; exact hq, hstatus⟩
  · intro id' q hq hpending
    rw [setPayment] at hq
    by_cases hne : id' = id
    · subst hne
      rw [Table.find_put_self] at hq
      rw [← Option.some.inj hq] at hpending ⊢
      exact hp hpending
    · rw [Table.find_put_of_ne _ hne] at hq
      exact h.unrefunded id' q hq hpending

theorem covered_closePending {l : Ledger} (h : Covered l) (invoiceId : String) :
    Covered (closePending l invoiceId) := by
  have hkept : ∀ p : Payment, (p.status = .succeeded ∨ p.status = .refunded) →
      (if p.invoiceId = some invoiceId ∧ p.status = .pending then p.closed else p) = p := by
    intro p hp
    rw [if_neg]
    intro hpending
    rw [hpending.2] at hp
    rcases hp with hp | hp <;> cases hp
  constructor
  · intro teamId
    have hsame : creditedPayments (closePending l invoiceId) teamId =
        creditedPayments l teamId := by
      rw [creditedPayments, closePending, Table.sum_amend, creditedPayments]
      apply Table.sum_congr
      intro id p _
      by_cases hp : p.invoiceId = some invoiceId ∧ p.status = .pending
      · simp [worth, hp, Payment.closed]
      · simp only [if_neg hp]
    rw [hsame]
    exact h.covered teamId
  · intro id hid
    obtain ⟨p, hp, hstatus⟩ := h.kept id hid
    refine ⟨p, ?_, hstatus⟩
    rw [closePending, Table.find_amend, hp, Option.map_some, hkept p hstatus]
  · intro id p hp hpending
    rw [closePending, Table.find_amend] at hp
    obtain ⟨q, hq, rfl⟩ := Option.map_eq_some_iff.mp hp
    split_ifs at hpending ⊢ with hclose
    · cases hpending
    · exact h.unrefunded id q hq hpending

/-- A pending payment succeeds and becomes credit. -/
theorem covered_keep {l : Ledger} (h : Covered l) {id : String} {p : Payment}
    (hp : l.payments.find id = some p) (hpending : p.status = .pending) (reason : String) :
    Covered (addCredit { setPayment l id { p with status := .succeeded } with
      kept := id :: l.kept } (p.asCredit reason)) := by
  have hnot := h.notMem_pending hp hpending
  have hzero := h.unrefunded id p hp hpending
  constructor
  · intro teamId
    have hprepaid := prepaid_addCredit
      { setPayment l id { p with status := .succeeded } with kept := id :: l.kept }
      (p.asCredit reason) teamId
    have hisPrepaid : isPrepaid teamId (p.asCredit reason) = decide (p.teamId = teamId) := by
      simp [isPrepaid, Payment.asCredit, Credit.make]
    have hcredited : creditedPayments (addCredit
        { setPayment l id { p with status := .succeeded } with kept := id :: l.kept }
        (p.asCredit reason)) teamId =
        creditedPayments l teamId + if p.teamId = teamId then p.amountMinor else 0 := by
      have hothers : l.payments.sum (worth (id :: l.kept) teamId) = creditedPayments l teamId := by
        apply Table.sum_congr
        intro id' q hmem
        by_cases hid : id' = id
        · subst hid
          have hq : q = p := by
            have := Table.find_of_mem hmem
            rw [hp] at this
            exact (Option.some.inj this).symm
          simp [worth, hq, hpending]
        · simp [worth, hid]
      have hold : worth (id :: l.kept) teamId id p = 0 := by simp [worth, hpending]
      have hnew : worth (id :: l.kept) teamId id { p with status := .succeeded } =
          if p.teamId = teamId then p.amountMinor else 0 := by simp [worth, hzero]
      rw [← hothers, ← hnew]
      have hput := Table.sum_put (worth (id :: l.kept) teamId) l.payments id
        { p with status := .succeeded }
      rw [hp, Option.elim_some, hold] at hput
      exact hput.trans (by omega)
    rw [hprepaid, hisPrepaid, hcredited]
    have := h.covered teamId
    simp only [decide_eq_true_eq, addCredit, setPayment, Payment.asCredit,
      Credit.make] at this ⊢
    split_ifs <;> omega
  · intro id' hid'
    rcases List.mem_cons.mp hid' with rfl | hid'
    · exact ⟨_, Table.find_put_self _ _ _, .inl rfl⟩
    · obtain ⟨q, hq, hstatus⟩ := h.kept id' hid'
      have hne : id' ≠ id := fun heq => hnot (heq ▸ hid')
      exact ⟨q, by rw [← hq]; exact Table.find_put_of_ne _ hne _, hstatus⟩
  · intro id' q hq hq'
    by_cases hne : id' = id
    · subst hne
      have heq : some { p with status := PaymentStatus.succeeded } = some q := by
        rw [← hq]
        exact (Table.find_put_self _ _ _).symm
      rw [← Option.some.inj heq] at hq'
      cases hq'
    · apply h.unrefunded id' q _ hq'
      rw [← hq]
      exact (Table.find_put_of_ne _ hne _).symm

/-! ## Each operation -/

theorem covered_start {l : Ledger} (h : Covered l) (who : Payer) {id : String}
    (hid : l.payments.find id = none) (amountMinor : ℤ) (invoiceId : Option String)
    (checkout : Checkout) : Covered (start l who id amountMinor invoiceId checkout).1 := by
  have hnot := h.notMem_new hid
  unfold start
  dsimp only
  split_ifs
  · exact h
  · split
    · exact covered_setPayment h hnot fun _ => rfl
    · split
      · exact covered_setPayment h hnot fun _ => rfl
      · exact covered_setPayment h hnot fun _ => rfl

theorem covered_topup {l : Ledger} (h : Covered l) (who : Payer) {id : String}
    (hid : l.payments.find id = none) (amountMinor : ℤ) (checkout : Checkout) :
    Covered (topup l who id amountMinor checkout).1 := by
  unfold topup
  dsimp only
  split_ifs
  · exact h
  · exact h
  · exact covered_start h who hid amountMinor none checkout

theorem covered_payInvoice {l : Ledger} (h : Covered l) (who : Payer) {id : String}
    (hid : l.payments.find id = none) (invoiceId : String) (checkout : Checkout) :
    Covered (payInvoice l who id invoiceId checkout).1 := by
  unfold payInvoice
  split_ifs
  · exact h
  · split
    · exact h
    · split
      · exact h
      · split
        · split_ifs <;> exact h
        · split
          · exact h
          · exact covered_start h who hid _ _ checkout

theorem covered_settle {l : Ledger} (h : Covered l) {id : String} {p : Payment}
    (hp : l.payments.find id = some p) (hpending : p.status = .pending) (ref : String) :
    Covered (settle l id p ref) := by
  have hnot := h.notMem_pending hp hpending
  unfold settle
  dsimp only
  split
  · exact covered_keep h hp hpending _
  · split
    · split_ifs
      · exact covered_setInvoice (covered_setPayment h hnot fun hs => by cases hs) _ _
      · exact covered_keep h hp hpending _
    · exact covered_keep h hp hpending _

theorem covered_handle {l : Ledger} (h : Covered l) (provider : PaymentProvider)
    (ev : PaymentEvent) : Covered (handle l provider ev) := by
  unfold handle
  split
  · exact h
  next id p hfound =>
    have hp : l.payments.find id = some p := Table.find_of_mem (List.mem_of_find?_eq_some hfound)
    split_ifs with hpending hfailed hfits
    · exact h
    all_goals rw [not_not] at hpending
    · apply covered_setPayment h (h.notMem_pending hp hpending)
      intro hs
      cases hs
    · exact covered_settle h hp hpending _
    · apply covered_setPayment h (h.notMem_pending hp hpending)
      intro hs
      cases hs

theorem covered_creditNote {l : Ledger} (h : Covered l) (invoiceId : String) (amountMinor : ℤ)
    (reason : String) : Covered (creditNote l invoiceId amountMinor reason).1 := by
  unfold creditNote
  dsimp only
  split
  · exact h
  · split
    · exact h
    next plan hplan =>
      have hnote := covered_setInvoice (covered_addNote h invoiceId amountMinor) invoiceId
      split_ifs
      · exact covered_addCredit (hnote _) (by simp [Credit.make])
      · exact hnote _

theorem covered_void {l : Ledger} (h : Covered l) (invoiceId : String) :
    Covered (void l invoiceId).1 := by
  unfold void
  dsimp only
  split
  · exact h
  · split
    · exact h
    · have hvoid := covered_setInvoice (covered_closePending h invoiceId) invoiceId
      split_ifs
      · exact covered_addCredit (hvoid _) (by simp [Credit.make])
      · exact hvoid _

theorem covered_recordPayment {l : Ledger} (h : Covered l) {id : String}
    (hid : l.payments.find id = none) (invoiceId : String) (provider : PaymentProvider)
    (amountMinor : Option ℤ) (reference : Option String) :
    Covered (recordPayment l id invoiceId provider amountMinor reference).1 := by
  have hnot := h.notMem_new hid
  unfold recordPayment
  split
  · exact h
  · split
    · exact h
    · exact covered_setInvoice (covered_setPayment h hnot fun hs => by cases hs) _ _

theorem covered_markUncollectible {l : Ledger} (h : Covered l) (invoiceId : String) :
    Covered (markUncollectible l invoiceId).1 := by
  unfold markUncollectible
  split
  · exact h
  · split_ifs
    · exact h
    · exact covered_setInvoice h _ _

/-- What invoices consume is counted as consumed. -/
theorem covered_issueForTeam {l : Ledger} (h : Covered l) (r : Request) (id : String)
    (lost : Bool) : Covered (issueForTeam l r id lost) := by
  rcases issueForTeam_cases l r id lost with ⟨seq, heq⟩ | ⟨credits, left, -, -, heq⟩
  · rw [heq]
    exact ⟨h.covered, h.kept, h.unrefunded⟩
  · rw [heq]
    refine ⟨?_, h.kept, h.unrefunded⟩
    intro teamId
    have hcovered := h.covered teamId
    have hsame : creditedPayments (issueInto l r id credits left) teamId =
        creditedPayments l teamId := rfl
    rw [hsame]
    simp only [issueInto]
    omega

theorem covered_issueForPreviousMonth {l : Ledger} (h : Covered l)
    (teams : List (Team × String × Bool)) : Covered (issueForPreviousMonth l teams) := by
  unfold issueForPreviousMonth
  dsimp only
  generalize Calendar.startOfMonth (l.now / 3600) = periodEnd
  induction teams generalizing l with
  | nil => exact h
  | cons t teams ih => exact ih (covered_issueForTeam h _ _ _)

theorem checkRefund_pos {p : Payment} {amountMinor : Option ℤ} {amount : ℤ}
    (h : Refunds.checkRefund p amountMinor = .ok amount) :
    p.status = .succeeded ∧ 0 < amount := by
  unfold Refunds.checkRefund at h
  dsimp only at h
  split_ifs at h with hs hp ha
  cases h
  rw [not_or] at ha
  exact ⟨not_not.mp hs, by omega⟩

/-- What a refund leaves of the prepaid credit of each team. -/
theorem prepaid_takenBack {l : Ledger} {p : Payment} {amount : ℤ} {credits : Table ℕ Credit}
    (hpos : 0 < amount) (h : takenBack l p amount = .ok credits) (teamId : String) :
    prepaid credits teamId = prepaid l.credits teamId -
      if p.invoiceId = none ∧ teamId = p.teamId then amount else 0 := by
  unfold takenBack at h
  split_ifs at h with hinvoice
  · rw [prepaid_takeBack hpos h teamId]
    simp [hinvoice]
  · cases h
    simp [hinvoice]

/-- The row after a refund is worth less by the amount. -/
theorem worth_refunded (kept : List String) (teamId id : String) {p : Payment}
    (hp : p.status = .succeeded) (amount : ℤ) (ref : String) (full : Bool) :
    worth kept teamId id (Refunds.refunded p amount ref full) =
      worth kept teamId id p - if p.teamId = teamId ∧ id ∈ kept then amount else 0 := by
  have hstatus : (Refunds.refunded p amount ref full).status = .succeeded ∨
      (Refunds.refunded p amount ref full).status = .refunded := by
    cases full with
    | true => exact .inr rfl
    | false => exact .inl hp
  have hteam : (Refunds.refunded p amount ref full).teamId = p.teamId := rfl
  unfold worth
  simp only [hteam, hstatus, hp, true_and, true_or]
  split_ifs
  · simp only [Refunds.refunded]
    omega
  · omega

theorem covered_refund {l : Ledger} (h : Covered l) {id : String} {amountMinor : Option ℤ}
    {answer : Except String String} {lost : Bool}
    (hok : AppliedOrTopUp l (.refund id amountMinor answer lost)) :
    Covered (refund l id amountMinor answer lost).1 := by
  rcases refund_cases l id amountMinor answer lost with
    ⟨e, heq⟩ | ⟨p, amount, ref, credits, hp, rfl, rfl, hcheck, htaken, heq⟩
  · rw [heq]
    exact h
  · rw [heq]
    obtain ⟨hstatus, hpos⟩ := checkRefund_pos hcheck
    -- a payment that became credit has no invoice
    have hinvoice : id ∈ l.kept → p.invoiceId = none := by
      intro hkept
      by_contra hsome
      exact hok p hp (by rw [hcheck]; rfl) hsome hkept
    constructor
    · intro teamId
      have hcredits := prepaid_takenBack hpos htaken teamId
      have hrow := worth_refunded l.kept teamId id hstatus amount ref
        (amount = p.amountMinor - p.refundedMinor)
      have hput := Table.sum_put (worth l.kept teamId) l.payments id
        (Refunds.refunded p amount ref (amount = p.amountMinor - p.refundedMinor))
      rw [hp, Option.elim_some, hrow] at hput
      have hcovered := h.covered teamId
      simp only [setPayment, creditedPayments] at hcovered ⊢
      rw [hput, hcredits]
      by_cases hkept : id ∈ l.kept
      · have hnone := hinvoice hkept
        by_cases hteam : p.teamId = teamId
        · rw [if_pos ⟨hnone, hteam.symm⟩, if_pos ⟨hteam, hkept⟩]
          omega
        · rw [if_neg fun hc => hteam hc.2.symm, if_neg fun hc => hteam hc.1]
          omega
      · rw [if_neg fun hc : p.teamId = teamId ∧ id ∈ l.kept => hkept hc.2]
        split_ifs <;> omega
    · intro id' hid'
      by_cases hne : id' = id
      · subst hne
        refine ⟨_, Table.find_put_self _ _ _, ?_⟩
        simp only [Refunds.refunded]
        split_ifs
        · exact .inr rfl
        · exact .inl hstatus
      · obtain ⟨q, hq, hq'⟩ := h.kept id' hid'
        exact ⟨q, by rw [← hq]; exact Table.find_put_of_ne _ hne _, hq'⟩
    · intro id' q hq hpending
      by_cases hne : id' = id
      · subst hne
        have hq' : some (Refunds.refunded p amount ref
            (amount = p.amountMinor - p.refundedMinor)) = some q := by
          rw [← hq]
          exact (Table.find_put_self _ _ _).symm
        rw [← Option.some.inj hq'] at hpending
        simp only [Refunds.refunded, hstatus] at hpending
        split_ifs at hpending
      · apply h.unrefunded id' q _ hpending
        rw [← hq]
        exact (Table.find_put_of_ne _ hne _).symm

/-! ## Runs -/

theorem covered_step {l : Ledger} {a : Act} (hok : AppliedOrTopUp l a) (h : Covered l) :
    Covered (step l a) := by
  unfold step
  split_ifs with hused
  · exact h
  · cases a with
    | wait _ | ingest _ | rollupHour _ _ => exact ⟨h.covered, h.kept, h.unrefunded⟩
    | issueForPreviousMonth teams => exact covered_issueForPreviousMonth h teams
    | topup who id amountMinor checkout =>
      exact covered_topup h who (by simpa [Act.paymentId] using hused) amountMinor checkout
    | payInvoice who id invoiceId checkout =>
      exact covered_payInvoice h who (by simpa [Act.paymentId] using hused) invoiceId checkout
    | handle provider ev => exact covered_handle h provider ev
    | refund id amountMinor answer lost => exact covered_refund h hok
    | creditNote invoiceId amountMinor reason =>
      exact covered_creditNote h invoiceId amountMinor reason
    | void invoiceId => exact covered_void h invoiceId
    | recordPayment id invoiceId provider amountMinor reference =>
      exact covered_recordPayment h (by simpa [Act.paymentId] using hused) invoiceId provider
        amountMinor reference
    | markUncollectible invoiceId => exact covered_markUncollectible h invoiceId

theorem covered_empty : Covered {} := by
  constructor
  · intro teamId
    exact le_rfl
  · intro id hid
    cases hid
  · intro id p hp
    cases hp

theorem takesBack_of_ok {l : Ledger} {a : Act} (hok : AppliedOrTopUp l a) : TakesBack l a := by
  cases a with
  | refund id amountMinor answer lost =>
    intro p hp hkept hdone
    rcases refund_cases l id amountMinor answer lost with
      ⟨e, heq⟩ | ⟨q, amount, ref, credits, hq, rfl, rfl, hcheck, htaken, heq⟩
    · rw [heq] at hdone
      cases hdone
    · have hpq : q = p := by
        have hp' : l.payments.find id = some p := hp
        rw [hp'] at hq
        exact (Option.some.inj hq).symm
      subst hpq
      have hnone : q.invoiceId = none := by
        by_contra hsome
        exact hok q hq (by rw [hcheck]; rfl) hsome hkept
      refine ⟨amount, hcheck, ?_⟩
      rw [heq]
      have hcredits := prepaid_takenBack (checkRefund_pos hcheck).2 htaken q.teamId
      rw [if_pos ⟨hnone, rfl⟩] at hcredits
      exact hcredits
  | _ => trivial

/-- No team has more prepaid credit, consumed or left, than its payments that became credit
are worth after refunds, and every refund of such a payment takes its amount back. -/
theorem prepaid_covered (acts : List Act) (hok : Meets step AppliedOrTopUp {} acts) :
    PrepaidCovered (run step {} acts) ∧
      ∀ before a after, acts = before ++ a :: after → TakesBack (run step {} before) a := by
  constructor
  · exact (hok.invariant (fun _ _ => covered_step) covered_empty).covered
  · intro before a after heq
    rw [heq, meets_append] at hok
    exact takesBack_of_ok hok.2.1

def client : Payer := ⟨false, "t1", .SAR, .moyasar⟩

def paid (ref : String) (amountMinor : ℤ) : PaymentEvent :=
  ⟨ref, true, some amountMinor, some .SAR, none⟩

/-- A top up of 20 riyals of which 5 are refunded. -/
theorem prepaid_covered_top_up :
    PrepaidCovered (run step {} [.topup client "p1" 2000 ⟨.ok "r1", none⟩,
      .handle .moyasar (paid "r1" 2000), .refund "p1" (some 500) (.ok "f1") false]) :=
  (prepaid_covered _ (by decide)).1

/-- An invoice is paid twice, by two checkouts that are half an hour apart. The second
payment is kept as credit, and refunded. -/
def paidTwice : List Act :=
  invoicedMinute ++ [.payInvoice client "p1" "i1" ⟨.ok "r1", none⟩, .wait 1800,
    .payInvoice client "p2" "i1" ⟨.ok "r2", none⟩, .handle .moyasar (paid "r1" 2),
    .handle .moyasar (paid "r2" 2), .refund "p2" none (.ok "f1") false]

/-- The refunded money stays in the credit. -/
theorem prepaid_uncovered : ¬ PrepaidCovered (run step {} paidTwice) := by
  have hleft : prepaid (run step {} paidTwice).credits "t1" = 2 := by decide +kernel
  have hconsumed : (run step {} paidTwice).consumed "t1" = 0 := by decide +kernel
  have hpayments : creditedPayments (run step {} paidTwice) "t1" = 0 := by decide +kernel
  intro hcovered
  have := hcovered "t1"
  rw [hleft, hconsumed, hpayments] at this
  omega

end Prgd.Books
