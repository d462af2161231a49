import Prgd.Ledger

/-!
# An issued invoice and its records

The subtotal of an invoice is fixed when it is issued, its records stay in the table
that `rollupHour` writes. An upsert finds a record by its resource and hour, on an
invoice or not, so rating an hour again after late usage or with another price moves
the records away from the invoice.

The module proves that every invoice equals its records in every state that is reached
without rating an invoiced record from anything but what it was rated from.
-/
namespace Prgd.Books
open Interleaving Billing Rating Invoicing

/-- What the records of an invoice add up to. -/
def linkedSum (records : Records) (id : String) : ℤ :=
  records.sum fun _ u => if u.invoiceId = some id then u.amountMinor else 0

def InvoicesAgree (l : Ledger) : Prop :=
  ∀ id inv, l.invoices.find id = some inv → inv.subtotalMinor = linkedSum l.records id

/-- A record that the call writes is on no invoice, or is rated from what it was rated
from before: the same usage, price, hours of a month and earlier charges. -/
def SameBasis (l : Ledger) : Act → Prop
  | .rollupHour hour c => ∀ g ∈ groups l.events hour, ∀ u ∈ l.records.find (g.resource, hour),
      u.invoiceId ≠ none → basisFor c hour l.records g = u.ratedFrom
  | _ => True

instance (l : Ledger) (a : Act) : Decidable (SameBasis l a) := by
  unfold SameBasis
  split
  · infer_instance
  · infer_instance

/-- Every amount comes from its basis, and every link leads to an invoice. -/
structure Linked (l : Ledger) : Prop where
  agree : InvoicesAgree l
  rated : ∀ k u, l.records.find k = some u → u.amountMinor = u.ratedFrom.amount
  links : ∀ k u id, l.records.find k = some u → u.invoiceId = some id →
    l.invoices.find id ≠ none

/-! ## Steps that leave records and subtotals -/

structure SameBills (l l' : Ledger) : Prop where
  records : l'.records = l.records
  invoices : ∀ id, (l'.invoices.find id).map Invoice.subtotalMinor =
    (l.invoices.find id).map Invoice.subtotalMinor

theorem SameBills.refl (l : Ledger) : SameBills l l := ⟨rfl, fun _ => rfl⟩

theorem SameBills.trans {l l' l'' : Ledger} (h : SameBills l l') (h' : SameBills l' l'') :
    SameBills l l'' :=
  ⟨h'.records.trans h.records, fun id => (h'.invoices id).trans (h.invoices id)⟩

theorem SameBills.linked {l l' : Ledger} (h : SameBills l l') (hl : Linked l) : Linked l' := by
  constructor
  · intro id inv hinv
    have hsame := h.invoices id
    rw [hinv, Option.map_some] at hsame
    obtain ⟨old, hold, heq⟩ := Option.map_eq_some_iff.mp hsame.symm
    rw [h.records, ← heq]
    exact hl.agree id old hold
  · rw [h.records]
    exact hl.rated
  · intro k u id hfind hid hnone
    rw [h.records] at hfind
    have hsame := h.invoices id
    rw [hnone, Option.map_none] at hsame
    exact hl.links k u id hfind hid (Option.map_eq_none_iff.mp hsame.symm)

theorem sameBills_addCredit (l : Ledger) (c : Credit) : SameBills l (addCredit l c) :=
  ⟨rfl, fun _ => rfl⟩

theorem sameBills_setPayment (l : Ledger) (id : String) (p : Payment) :
    SameBills l (setPayment l id p) :=
  ⟨rfl, fun _ => rfl⟩

theorem sameBills_addNote (l : Ledger) (invoiceId : String) (amountMinor : ℤ) :
    SameBills l (addNote l invoiceId amountMinor) :=
  ⟨rfl, fun _ => rfl⟩

theorem sameBills_closePending (l : Ledger) (invoiceId : String) :
    SameBills l (closePending l invoiceId) :=
  ⟨rfl, fun _ => rfl⟩

/-- An invoice that is written with its subtotal. -/
theorem sameBills_setInvoice {l : Ledger} {id : String} {inv new : Invoice}
    (h : l.invoices.find id = some inv) (hsub : new.subtotalMinor = inv.subtotalMinor) :
    SameBills l (setInvoice l id new) := by
  refine ⟨rfl, ?_⟩
  intro id'
  rw [setInvoice]
  by_cases hid : id' = id
  · subst hid
    rw [Table.find_put_self, h, Option.map_some, Option.map_some, hsub]
  · rw [Table.find_put_of_ne _ hid]

theorem sameBills_start (l : Ledger) (who : Payer) (id : String) (amountMinor : ℤ)
    (invoiceId : Option String) (checkout : Checkout) :
    SameBills l (start l who id amountMinor invoiceId checkout).1 := by
  unfold start
  dsimp only
  split_ifs
  · exact SameBills.refl l
  · split
    · exact sameBills_setPayment l _ _
    · split
      · exact sameBills_setPayment l _ _
      · exact sameBills_setPayment l _ _

theorem sameBills_topup (l : Ledger) (who : Payer) (id : String) (amountMinor : ℤ)
    (checkout : Checkout) : SameBills l (topup l who id amountMinor checkout).1 := by
  unfold topup
  dsimp only
  split_ifs
  · exact SameBills.refl l
  · exact SameBills.refl l
  · exact sameBills_start l who id amountMinor none checkout

theorem sameBills_payInvoice (l : Ledger) (who : Payer) (id invoiceId : String)
    (checkout : Checkout) : SameBills l (payInvoice l who id invoiceId checkout).1 := by
  unfold payInvoice
  split_ifs
  · exact SameBills.refl l
  · split
    · exact SameBills.refl l
    · split
      · exact SameBills.refl l
      · split
        · split_ifs <;> exact SameBills.refl l
        · split
          · exact SameBills.refl l
          · exact sameBills_start l who id _ _ checkout

theorem sameBills_settle (l : Ledger) (id : String) (p : Payment) (ref : String) :
    SameBills l (settle l id p ref) := by
  have hkept : SameBills l
      { setPayment l id { p with status := .succeeded } with kept := id :: l.kept } :=
    ⟨rfl, fun _ => rfl⟩
  unfold settle
  dsimp only
  split
  · exact hkept.trans (sameBills_addCredit _ _)
  · split
    next inv hfind =>
      split_ifs
      · exact (sameBills_setPayment l _ _).trans (sameBills_setInvoice hfind rfl)
      · exact hkept.trans (sameBills_addCredit _ _)
    · exact hkept.trans (sameBills_addCredit _ _)

theorem sameBills_handle (l : Ledger) (provider : PaymentProvider) (ev : PaymentEvent) :
    SameBills l (handle l provider ev) := by
  unfold handle
  split
  · exact SameBills.refl l
  · split_ifs
    · exact SameBills.refl l
    · exact sameBills_setPayment l _ _
    · exact sameBills_settle l _ _ _
    · exact sameBills_setPayment l _ _

theorem sameBills_refund (l : Ledger) (id : String) (amountMinor : Option ℤ)
    (answer : Except String String) (lost : Bool) :
    SameBills l (refund l id amountMinor answer lost).1 := by
  rcases refund_cases l id amountMinor answer lost with
    ⟨e, heq⟩ | ⟨p, amount, ref, credits, -, -, -, -, -, heq⟩
  · rw [heq]
    exact SameBills.refl l
  · rw [heq]
    exact ⟨rfl, fun _ => rfl⟩

theorem sameBills_creditNote (l : Ledger) (invoiceId : String) (amountMinor : ℤ)
    (reason : String) : SameBills l (creditNote l invoiceId amountMinor reason).1 := by
  unfold creditNote
  dsimp only
  split
  · exact SameBills.refl l
  next inv hfind =>
    split
    · exact SameBills.refl l
    next plan hplan =>
      have hnote : SameBills l
          (setInvoice (addNote l invoiceId amountMinor) invoiceId (plan.credited inv)) :=
        (sameBills_addNote l invoiceId amountMinor).trans (sameBills_setInvoice hfind rfl)
      split_ifs
      · exact hnote.trans (sameBills_addCredit _ _)
      · exact hnote

theorem sameBills_void (l : Ledger) (invoiceId : String) : SameBills l (void l invoiceId).1 := by
  unfold void
  dsimp only
  split
  · exact SameBills.refl l
  next inv hfind =>
    split
    · exact SameBills.refl l
    · have hvoid : SameBills l
          (setInvoice (closePending l invoiceId) invoiceId { inv with status := .void }) :=
        (sameBills_closePending l invoiceId).trans (sameBills_setInvoice hfind rfl)
      split_ifs
      · exact hvoid.trans (sameBills_addCredit _ _)
      · exact hvoid

theorem sameBills_recordPayment (l : Ledger) (id invoiceId : String) (provider : PaymentProvider)
    (amountMinor : Option ℤ) (reference : Option String) :
    SameBills l (recordPayment l id invoiceId provider amountMinor reference).1 := by
  unfold recordPayment
  split
  · exact SameBills.refl l
  next inv hfind =>
    split
    · exact SameBills.refl l
    · exact (sameBills_setPayment l _ _).trans (sameBills_setInvoice hfind rfl)

theorem sameBills_markUncollectible (l : Ledger) (invoiceId : String) :
    SameBills l (markUncollectible l invoiceId).1 := by
  unfold markUncollectible
  split
  · exact SameBills.refl l
  next inv hfind =>
    split_ifs
    · exact SameBills.refl l
    · exact sameBills_setInvoice hfind rfl

/-! ## Rating -/

/-- What is rated in an hour depends on the earlier hours only. -/
theorem basisFor_put (c : Catalog) (hour : ℕ) (records : Records) (r : Resource) (u : UsageRecord)
    (g : UsageGroup) : basisFor c hour (records.put (r, hour) u) g = basisFor c hour records g := by
  have hbefore : before hour hour = false := by simp [before]
  have hcharged : chargedIn (records.put (r, hour) u) g.resource (before hour) =
      chargedIn records g.resource (before hour) :=
    chargedIn_put_of_not (by simp [hbefore]) u
  have htransferred : transferredBefore (records.put (r, hour) u) g.resource hour =
      transferredBefore records g.resource hour := by
    have hzero : ∀ v : UsageRecord,
        (if r = g.resource ∧ before hour hour then v.quantity else 0) = 0 := by simp [hbefore]
    exact Table.sum_rows_put (k := (r, hour))
      (f := fun k v => if k.1 = g.resource ∧ before hour k.2 then v.quantity else 0) hzero records u
  rw [basisFor, basisFor, rateInput, hcharged, ← rateInput]
  split_ifs
  · cases priceOf c hour g.resource with
    | none => rfl
    | some price =>
      simp only [transferInput, htransferred]
  · rfl

theorem rated_invoiceId (c : Catalog) (hour : ℕ) (old : Option UsageRecord) (g : UsageGroup)
    (basis : Basis) :
    (rated c hour old g basis).invoiceId = old.bind UsageRecord.invoiceId := by
  cases old with
  | none => rfl
  | some u => rfl

theorem rated_ratedFrom (c : Catalog) (hour : ℕ) (old : Option UsageRecord) (g : UsageGroup)
    (basis : Basis) : (rated c hour old g basis).ratedFrom = basis := by
  cases old with
  | none => rfl
  | some u => rfl

/-- What holds of the table while an hour is rated. -/
structure Rerating (c : Catalog) (hour : ℕ) (l : Ledger) (gs : List UsageGroup)
    (records : Records) : Prop where
  basis : ∀ g, basisFor c hour records g = basisFor c hour l.records g
  same : ∀ g ∈ gs, ∀ u, records.find (g.resource, hour) = some u → u.invoiceId ≠ none →
    basisFor c hour l.records g = u.ratedFrom
  linked : Linked { l with records := records }

/-- The record that a group writes adds to its invoice what it added before. -/
theorem linkedSum_rollupGroup {c : Catalog} {hour : ℕ} {l : Ledger} {g : UsageGroup}
    {gs : List UsageGroup} {records : Records} (h : Rerating c hour l (g :: gs) records)
    (id : String) : linkedSum (rollupGroup c hour records g) id = linkedSum records id := by
  rw [linkedSum, rollupGroup, Table.sum_put, rated_invoiceId, rated_amountMinor, linkedSum]
  cases hfind : records.find (g.resource, hour) with
  | none => simp
  | some u =>
    simp only [Option.elim_some, Option.bind_some]
    split_ifs with hid
    · have hsame := h.same g List.mem_cons_self u hfind (by simp [hid])
      have hrated := h.linked.rated _ u hfind
      rw [h.basis, hsame, ← hrated]
      omega
    · omega

theorem Rerating.next {c : Catalog} {hour : ℕ} {l : Ledger} {g : UsageGroup}
    {gs : List UsageGroup} {records : Records} (h : Rerating c hour l (g :: gs) records) :
    Rerating c hour l gs (rollupGroup c hour records g) := by
  have hsum := linkedSum_rollupGroup h
  constructor
  · intro g'
    rw [rollupGroup, basisFor_put, h.basis]
  · intro g' hg' u hfind hu
    rw [rollupGroup] at hfind
    by_cases hr : g'.resource = g.resource
    · rw [hr, Table.find_put_self] at hfind
      have hu' := Option.some.inj hfind
      rw [← hu', rated_ratedFrom, h.basis]
      rw [← hu', rated_invoiceId] at hu
      cases hold : records.find (g.resource, hour) with
      | none =>
        rw [hold] at hu
        exact (hu rfl).elim
      | some old =>
        rw [hold, Option.bind_some] at hu
        have hg := h.same g List.mem_cons_self old hold hu
        rw [← hr] at hold
        rw [hg, h.same g' (List.mem_cons_of_mem g hg') old hold hu]
    · rw [Table.find_put_of_ne _ (by simpa using hr)] at hfind
      exact h.same g' (List.mem_cons_of_mem g hg') u hfind hu
  · constructor
    · intro id inv hinv
      have := h.linked.agree id inv hinv
      simp only at this ⊢
      rw [hsum id]
      exact this
    · intro k u hfind
      rcases Table.mem_put (Table.find_mem hfind) with heq | ⟨-, hold⟩
      · rw [(Prod.mk.inj heq).2, rated_amountMinor, rated_ratedFrom]
      · exact h.linked.rated k u (Table.find_of_mem hold)
    · intro k u id hfind hid
      rcases Table.mem_put (Table.find_mem hfind) with heq | ⟨-, hold⟩
      · rw [(Prod.mk.inj heq).2, rated_invoiceId] at hid
        obtain ⟨old, hold, hold'⟩ := Option.bind_eq_some_iff.mp hid
        exact h.linked.links _ old id hold hold'
      · exact h.linked.links k u id (Table.find_of_mem hold) hid

theorem Rerating.fold {c : Catalog} {hour : ℕ} {l : Ledger} {gs : List UsageGroup}
    {records : Records} (h : Rerating c hour l gs records) :
    Linked { l with records := gs.foldl (rollupGroup c hour) records } := by
  induction gs generalizing records with
  | nil => exact h.linked
  | cons g gs ih => exact ih h.next

theorem linked_rollupHour {l : Ledger} (h : Linked l) {hour : ℕ} {c : Catalog}
    (hsame : SameBasis l (.rollupHour hour c)) :
    Linked { l with records := (rollupHour c hour l.events l.records).1 } := by
  have hstart : Rerating c hour l (c.arrange (groups l.events hour)) l.records := by
    constructor
    · intro g
      rfl
    · intro g hg
      exact hsame g ((c.arrange_perm _).subset hg)
    · exact h
  exact hstart.fold

/-! ## Issuing -/

theorem mem_keys_iff {records : Records} (r : Request) {k : RecordKey} {u : UsageRecord}
    (h : (k, u) ∈ records.rows) :
    (k ∈ (⟨r, r.unbilled records.rows⟩ : Bill).keys ∧ u.invoiceId = none) ↔ r.bills k u = true := by
  constructor
  · intro ⟨hk, _⟩
    obtain ⟨⟨j, amount⟩, hmem, hj⟩ := List.mem_map.mp hk
    obtain ⟨⟨i, v⟩, hrow, heq⟩ := List.mem_map.mp hmem
    rw [List.mem_filter] at hrow
    have hik : i = k := by
      rw [← hj]
      exact (Prod.mk.inj heq).1
    subst hik
    have huv : some v = some u := by
      rw [← Table.find_of_mem hrow.1, Table.find_of_mem h]
    rw [Option.some.inj huv] at hrow
    exact hrow.2
  · intro hbills
    constructor
    · apply List.mem_map.mpr
      refine ⟨(k, u.amountMinor), ?_, rfl⟩
      apply List.mem_map.mpr
      exact ⟨(k, u), List.mem_filter.mpr ⟨h, hbills⟩, rfl⟩
    · simp only [Request.bills, decide_eq_true_eq] at hbills
      exact hbills.2.2.2

/-- The records that were read add up to the subtotal. -/
theorem subtotal_eq (r : Request) (records : Records) :
    (⟨r, r.unbilled records.rows⟩ : Bill).subtotal =
      records.sum fun k u => if r.bills k u then u.amountMinor else 0 := by
  rw [← Table.sum_filter, Bill.subtotal, Request.unbilled, List.map_map]
  rfl

/-- After linking, the new invoice has the records that were read. -/
theorem linkedSum_link_self {records : Records} {r : Request} {id : String}
    (hfresh : ∀ k u, (k, u) ∈ records.rows → u.invoiceId ≠ some id) :
    linkedSum (linkRecords records (⟨r, r.unbilled records.rows⟩ : Bill).keys id) id =
      (⟨r, r.unbilled records.rows⟩ : Bill).subtotal := by
  rw [subtotal_eq, linkedSum, linkRecords, Table.sum_amend]
  apply Table.sum_congr
  intro k u hmem
  have hiff := mem_keys_iff r hmem
  by_cases hbills : r.bills k u = true
  · rw [if_pos (hiff.mpr hbills), if_pos rfl, if_pos hbills]
  · rw [if_neg (fun hk => hbills (hiff.mp hk)), if_neg hbills, if_neg (hfresh k u hmem)]

theorem linkedSum_link_of_ne {records : Records} {keys : List RecordKey} {id id' : String}
    (hid : id' ≠ id) : linkedSum (linkRecords records keys id) id' = linkedSum records id' := by
  rw [linkedSum, linkRecords, Table.sum_amend, linkedSum]
  apply Table.sum_congr
  intro k u _
  split_ifs with hk hnew hold hold
  · exact (hid (Option.some.inj hnew).symm).elim
  · exact (hid (Option.some.inj hnew).symm).elim
  · rw [hk.2] at hold
    cases hold
  · rfl
  · rfl
  · rfl

theorem find_linkRecords {records : Records} {keys : List RecordKey} {id : String} {k : RecordKey}
    {u : UsageRecord} (h : (linkRecords records keys id).find k = some u) :
    ∃ old, records.find k = some old ∧ u.amountMinor = old.amountMinor ∧
      u.ratedFrom = old.ratedFrom ∧ (u.invoiceId = some id ∨ u.invoiceId = old.invoiceId) := by
  rw [linkRecords, Table.find_amend] at h
  obtain ⟨old, hold, rfl⟩ := Option.map_eq_some_iff.mp h
  refine ⟨old, hold, ?_⟩
  split_ifs
  · exact ⟨rfl, rfl, .inl rfl⟩
  · exact ⟨rfl, rfl, .inr rfl⟩

theorem linked_issueForTeam {l : Ledger} (h : Linked l) (r : Request) (id : String) (lost : Bool) :
    Linked (issueForTeam l r id lost) := by
  rcases issueForTeam_cases l r id lost with ⟨seq, heq⟩ | ⟨credits, left, hnew, -, heq⟩
  · rw [heq]
    exact ⟨h.agree, h.rated, h.links⟩
  · rw [heq, issueInto]
    constructor
    · intro id' inv hinv
      simp only at hinv ⊢
      by_cases hid : id' = id
      · subst hid
        rw [Table.find_put_self] at hinv
        rw [← Option.some.inj hinv, linkedSum_link_self]
        · rfl
        · intro k u hmem hu
          exact h.links k u id' (Table.find_of_mem hmem) hu hnew
      · rw [Table.find_put_of_ne _ hid] at hinv
        rw [linkedSum_link_of_ne hid]
        exact h.agree id' inv hinv
    · intro k u hfind
      obtain ⟨old, hold, hamount, hbasis, -⟩ := find_linkRecords hfind
      rw [hamount, hbasis]
      exact h.rated k old hold
    · intro k u id' hfind hu
      obtain ⟨old, hold, -, -, hlink⟩ := find_linkRecords hfind
      by_cases hid : id' = id
      · rw [hid, Table.find_put_self]
        simp
      · rw [Table.find_put_of_ne _ hid]
        rcases hlink with hlink | hlink
        · rw [hlink] at hu
          exact (hid (Option.some.inj hu).symm).elim
        · rw [hlink] at hu
          exact h.links k old id' hold hu

theorem linked_issueForPreviousMonth {l : Ledger} (h : Linked l)
    (teams : List (Team × String × Bool)) : Linked (issueForPreviousMonth l teams) := by
  unfold issueForPreviousMonth
  dsimp only
  generalize Calendar.startOfMonth (l.now / 3600) = periodEnd
  induction teams generalizing l with
  | nil => exact h
  | cons t teams ih => exact ih (linked_issueForTeam h _ _ _)

/-! ## Runs -/

theorem linked_step {l : Ledger} {a : Act} (hsame : SameBasis l a) (h : Linked l) :
    Linked (step l a) := by
  unfold step
  split_ifs
  · exact h
  · cases a with
    | wait _ | ingest _ => exact ⟨h.agree, h.rated, h.links⟩
    | rollupHour hour c => exact linked_rollupHour h hsame
    | issueForPreviousMonth teams => exact linked_issueForPreviousMonth h teams
    | topup who id amountMinor checkout =>
      exact (sameBills_topup l who id amountMinor checkout).linked h
    | payInvoice who id invoiceId checkout =>
      exact (sameBills_payInvoice l who id invoiceId checkout).linked h
    | handle provider ev => exact (sameBills_handle l provider ev).linked h
    | refund id amountMinor answer lost =>
      exact (sameBills_refund l id amountMinor answer lost).linked h
    | creditNote invoiceId amountMinor reason =>
      exact (sameBills_creditNote l invoiceId amountMinor reason).linked h
    | void invoiceId => exact (sameBills_void l invoiceId).linked h
    | recordPayment id invoiceId provider amountMinor reference =>
      exact (sameBills_recordPayment l id invoiceId provider amountMinor reference).linked h
    | markUncollectible invoiceId => exact (sameBills_markUncollectible l invoiceId).linked h

theorem linked_empty : Linked {} := by
  constructor
  · intro id inv hinv
    cases hinv
  · intro k u hfind
    cases hfind
  · intro k u id hfind
    cases hfind

/-- Every invoice equals its records, in every state that is reached without rating an
invoiced record from anything new. -/
theorem invoices_agree (acts : List Act) (hsame : Meets step SameBasis {} acts) :
    InvoicesAgree (run step {} acts) :=
  (hsame.invariant (fun _ _ => linked_step) linked_empty).agree

/-! ## An hour that is rated again -/

/-- An address in Saudi Arabia that costs 672 riyals a month. -/
def dearCatalog : Catalog := { catalog with prices := [{ addressPrice with monthlyMinor := 67200 }] }

def minuteOf (hour minute : ℕ) : UsageEvent where
  atTime := hour * 3600000 + minute * 60000
  resource := address
  projectId := "p1"
  quantity := 1
  unit := .minute

def riyadh : Team := ⟨"t1", .SAR, "SA", ["p1"]⟩

/-- A minute of January is used, rated and, in February, invoiced. -/
def invoicedMinute : List Act :=
  [.ingest [minuteOf 5 0], .rollupHour 5 dearCatalog, .wait 2678400,
    .issueForPreviousMonth [(riyadh, "i1", false)]]

theorem invoicedMinute_runs :
    Meets step SameBasis {} (invoicedMinute ++ [.rollupHour 5 dearCatalog]) ∧
      ((run step {} (invoicedMinute ++ [.ingest [minuteOf 5 1],
        .rollupHour 5 dearCatalog])).invoices.find "i1").map Invoice.subtotalMinor = some 2 ∧
      linkedSum (run step {} (invoicedMinute ++ [.ingest [minuteOf 5 1],
        .rollupHour 5 dearCatalog])).records "i1" = 3 := by
  decide +kernel

/-- Rating the hour again from the same usage changes nothing. -/
theorem invoices_agree_rated_again :
    InvoicesAgree (run step {} (invoicedMinute ++ [.rollupHour 5 dearCatalog])) :=
  invoices_agree _ invoicedMinute_runs.1

/-- A minute that is reported late changes the record, and the invoice stays. -/
theorem invoice_differs :
    ¬ InvoicesAgree (run step {}
      (invoicedMinute ++ [.ingest [minuteOf 5 1], .rollupHour 5 dearCatalog])) := by
  obtain ⟨-, hsubtotal, hrecords⟩ := invoicedMinute_runs
  obtain ⟨inv, hinv, hsub⟩ := Option.map_eq_some_iff.mp hsubtotal
  intro hagree
  have := hagree "i1" inv hinv
  rw [hsub, hrecords] at this
  cases this

end Prgd.Books
