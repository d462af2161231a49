import Prgd.Invoicing
import Prgd.RowLock

/-!
# Invoices issued by concurrent runs

Any number of `issueForTeam` runs, statement by statement, each in its own
transaction at read committed. Records, credits and invoices are tables of rows
that keep a draft for the transaction that has written them. A statement that
needs a row which another transaction has written waits. A run can fail at every
statement of its transaction: an error of the database, a deadlock, a timeout.

The id of an invoice is made up when it is created; an id that is in use does not
come up again.
-/
namespace Prgd.Issuing
open Interleaving RowLock Billing Rating Invoicing

/-- An invoice, with the records that its subtotal was read from. -/
structure Issued where
  invoice : Invoice
  billed : List RecordKey

structure Shared where
  records : Table RecordKey (Cell UsageRecord)
  credits : Table ℕ (Cell Credit)
  invoices : Table String (Cell (Option Issued))
  /-- `prgd_invoice_number_seq`. -/
  seq : ℕ

/-- Where a run of `issueForTeam` stands. -/
inductive Pc where
  | idle
  | begun (r : Request)
  /-- No invoice was found; the transaction begins. -/
  | absent (r : Request)
  | read (b : Bill)
  /-- In the loop of `consumeCredits`, with what is left and the credits to come. -/
  | consuming (b : Bill) (left : ℤ) (credits : List (ℕ × ℤ))
  | consumed (b : Bill) (credit : ℤ)
  | numbered (b : Bill) (credit : ℤ) (seq : ℕ)
  /-- In the update of the records: those that were linked and those to come. -/
  | linking (b : Bill) (credit : ℤ) (seq : ℕ) (id : String) (linked todo : List RecordKey)
  | linked (b : Bill) (credit : ℤ) (seq : ℕ) (id : String)
  /-- After `linkManagedWorkLogs`. -/
  | ready (b : Bill) (credit : ℤ) (seq : ℕ) (id : String)
  | returned (invoice : Option String)
  | thrown (message : String)

inductive Act where
  | begin (r : Request)
  | findExisting
  | findRecords
  | findCredits
  | decrement
  | nextval
  | create (id : String)
  | link
  | linkManagedWorkLogs
  | commit
  /-- The statement fails. -/
  | fail (message : String)

/-- What a transaction reads of a table. -/
def viewRows {κ α : Type} (i : ℕ) (t : Table κ (Cell α)) : List (κ × α) :=
  t.rows.map fun e => (e.1, e.2.view i)

def Shared.commit (i : ℕ) (s : Shared) : Shared := { s with
  records := s.records.amend fun _ c => c.commit i
  credits := s.credits.amend fun _ c => c.commit i
  invoices := s.invoices.amend fun _ c => c.commit i }

def Shared.rollback (i : ℕ) (s : Shared) : Shared := { s with
  records := s.records.amend fun _ c => c.rollback i
  credits := s.credits.amend fun _ c => c.rollback i
  invoices := s.invoices.amend fun _ c => c.rollback i }

/-- A committed invoice of the same team and period. -/
def Shared.existing (s : Shared) (r : Request) : Bool :=
  s.invoices.rows.any fun e => e.2.committed.any fun v => samePeriod v.invoice r

/-- One that another transaction has written. -/
def Shared.pending (i : ℕ) (s : Shared) (r : Request) : Bool :=
  s.invoices.rows.any fun e =>
    e.2.draft.any fun d => d.1 ≠ i ∧ d.2.any fun v => samePeriod v.invoice r

/-- The statements inside of the transaction. -/
def Pc.inTransaction : Pc → Bool
  | .idle | .begun _ | .returned _ | .thrown _ => false
  | _ => true

def creditChanged (id : ℕ) : String := "credit " ++ toString id ++ " changed while invoicing"

def recordsChanged (linked read : ℕ) : String :=
  "usage records changed while invoicing (" ++ toString linked ++ " of " ++ toString read ++
    " linked)"

def trans (i : ℕ) (s : Shared) : Act → Pc → Option (Shared × Pc)
  | .begin r, .idle => some (s, .begun r)
  | .findExisting, .begun r =>
      if s.existing r then some (s, .returned none) else some (s, .absent r)
  | .findRecords, .absent r =>
      let b : Bill := ⟨r, r.unbilled (viewRows i s.records)⟩
      if b.subtotal ≤ 0 then some (s, .returned none) else some (s, .read b)
  | .findCredits, .read b =>
      some (s, .consuming b b.gross ((b.request.spendable (viewRows i s.credits)).map fun c =>
        (c.1, c.2.remainingMinor)))
  | .decrement, .consuming b left [] => some (s, .consumed b (b.gross - left))
  | .decrement, .consuming b left ((k, remaining) :: credits) =>
      if left ≤ 0 then some (s, .consumed b (b.gross - left)) else
        let use := min remaining left
        match s.credits.find k with
        | none => some (s.rollback i, .thrown (creditChanged k))
        | some c =>
            if c.free i = false then none
            else if (c.view i).remainingMinor < use then
              some (s.rollback i, .thrown (creditChanged k))
            else some ({ s with credits := s.credits.put k (c.write i (Credit.take (c.view i) use)) },
              .consuming b (left - use) credits)
  | .nextval, .consumed b credit =>
      some ({ s with seq := s.seq + 1 }, .numbered b credit s.seq)
  | .create id, .numbered b credit seq =>
      -- the unique index: wait for another insert, or P2002
      if s.pending i b.request ∨ (s.invoices.find id).isSome then none
      else if s.existing b.request then some (s.rollback i, .returned none)
      else some ({ s with
        invoices := s.invoices.put id ⟨none, some (i, some ⟨b.invoice credit seq, b.keys⟩)⟩ },
        .linking b credit seq id [] b.keys)
  | .link, .linking b credit seq id linked (k :: todo) =>
      match s.records.find k with
      | none => some (s, .linking b credit seq id linked todo)
      | some c =>
          if c.free i = false then none
          else if (c.view i).invoiceId = none then
            some ({ s with
              records := s.records.put k (c.write i { c.view i with invoiceId := some id }) },
              .linking b credit seq id (linked ++ [k]) todo)
          else some (s, .linking b credit seq id linked todo)
  | .link, .linking b credit seq id linked [] =>
      if linked.length ≠ b.records.length then
        some (s.rollback i, .thrown (recordsChanged linked.length b.records.length))
      else some (s, .linked b credit seq id)
  | .linkManagedWorkLogs, .linked b credit seq id => some (s, .ready b credit seq id)
  | .commit, .ready _ _ _ id => some (s.commit i, .returned (some id))
  | .fail message, pc => if pc.inTransaction then some (s.rollback i, .thrown message) else none
  | _, _ => none

abbrev World := Interleaving.World Shared Pc

def step : World → ℕ × Act → World := callerStep trans

/-! ## The tables between transactions -/

/-- The committed invoice with an id. -/
def Shared.issued (s : Shared) (n : String) : Option Issued := (reads s.invoices n).join

/-- What is committed is the same in both. -/
structure SameTables (s s' : Shared) : Prop where
  records : ∀ k, reads s'.records k = reads s.records k
  credits : ∀ k, reads s'.credits k = reads s.credits k
  issued : ∀ n, s'.issued n = s.issued n

/-- What an invoice must satisfy on its own. -/
def Issued.Balanced (v : Issued) : Prop :=
  v.invoice.totalMinor = v.invoice.subtotalMinor + v.invoice.taxMinor - v.invoice.creditMinor ∧
    0 ≤ v.invoice.totalMinor

def period (v : Issued) : String × ℕ × ℕ :=
  (v.invoice.teamId, v.invoice.periodStart, v.invoice.periodEnd)

/-- What is committed fits together. -/
structure Consistent (s : Shared) : Prop where
  /-- A record carries the id of an invoice exactly if the invoice bills it. -/
  linked : ∀ k u, reads s.records k = some u → ∀ n, u.invoiceId = some n ↔
    ∃ v, s.issued n = some v ∧ k ∈ v.billed
  billed : ∀ n v, s.issued n = some v → ∀ k ∈ v.billed, ∃ u, reads s.records k = some u
  /-- One invoice for a team and period. -/
  once : ∀ n m v u, s.issued n = some v → s.issued m = some u → period v = period u → n = m
  remaining : ∀ k c, reads s.credits k = some c → 0 ≤ c.remainingMinor
  balanced : ∀ n v, s.issued n = some v → v.Balanced

/-- The credit that the issued invoices were given. -/
def granted (s : Shared) : ℤ :=
  total (fun v : Option Issued => v.elim 0 fun v => v.invoice.creditMinor) s.invoices

/-- What is left of all credits. -/
def left (s : Shared) : ℤ := total Credit.remainingMinor s.credits

/-- No transaction is open. -/
def Shared.quiet (s : Shared) : Prop :=
  ∀ i, HoldsNo i s.records ∧ HoldsNo i s.credits ∧ HoldsNo i s.invoices

/-! ## What holds at every statement -/

/-- The records were read without repetition and cost something. -/
def Sound (b : Bill) : Prop := 0 < b.subtotal ∧ b.keys.Nodup

/-- What the run has taken from credits so far. -/
def Charged (s : Shared) (i : ℕ) (b : Bill) (credit : ℤ) : Prop :=
  0 ≤ credit ∧ credit ≤ b.gross ∧ drafted i Credit.remainingMinor s.credits = -credit

/-- The run has written one invoice. -/
def Drawn (s : Shared) (i : ℕ) (id : String) (v : Issued) : Prop :=
  s.invoices.find id = some ⟨none, some (i, some v)⟩ ∧
    ∀ n d, s.invoices.find n = some d → d.holder = some i → n = id

/-- The run has linked these records and no others. -/
def LinkedBy (s : Shared) (i : ℕ) (id : String) (ks : List RecordKey) : Prop :=
  (∀ k ∈ ks, ∃ u : UsageRecord, u.invoiceId = none ∧
    s.records.find k = some ⟨u, some (i, { u with invoiceId := some id })⟩) ∧
    ∀ k c, s.records.find k = some c → c.holder = some i → k ∈ ks

def HoldsNothing (s : Shared) (i : ℕ) : Prop :=
  HoldsNo i s.records ∧ HoldsNo i s.credits ∧ HoldsNo i s.invoices

def issuedOf (b : Bill) (credit : ℤ) (seq : ℕ) : Issued := ⟨b.invoice credit seq, b.keys⟩

/-- What a run has written, by where it stands. -/
def Place (s : Shared) (i : ℕ) : Pc → Prop
  | .idle | .begun _ | .absent _ | .returned _ | .thrown _ => HoldsNothing s i
  | .read b => Sound b ∧ HoldsNothing s i
  | .consuming b left credits =>
      Sound b ∧ HoldsNo i s.records ∧ HoldsNo i s.invoices ∧ 0 ≤ left ∧
        Charged s i b (b.gross - left) ∧ ∀ c ∈ credits, 0 < c.2
  | .consumed b credit =>
      Sound b ∧ HoldsNo i s.records ∧ HoldsNo i s.invoices ∧ Charged s i b credit
  | .numbered b credit _ =>
      Sound b ∧ HoldsNo i s.records ∧ HoldsNo i s.invoices ∧ Charged s i b credit
  | .linking b credit seq id linked todo =>
      Sound b ∧ Charged s i b credit ∧ Drawn s i id (issuedOf b credit seq) ∧
        (linked ++ todo).Sublist b.keys ∧ LinkedBy s i id linked
  | .linked b credit seq id | .ready b credit seq id =>
      Sound b ∧ Charged s i b credit ∧ Drawn s i id (issuedOf b credit seq) ∧
        LinkedBy s i id b.keys

/-- An invoice that is committed or written. -/
def Standing (s : Shared) (n : String) (v : Issued) : Prop :=
  s.issued n = some v ∨ ∃ d j, s.invoices.find n = some d ∧ d.draft = some (j, some v)

/-- What holds of the tables at every moment. -/
structure Kept (sum : ℤ) (s : Shared) : Prop where
  consistent : Consistent s
  standing : ∀ n m v u, Standing s n v → Standing s m u → period v = period u → n = m
  drafts : ∀ k c j v, s.credits.find k = some c → c.draft = some (j, v) → 0 ≤ v.remainingMinor
  conserved : left s + granted s = sum

/-- Another run's step leaves what this one has written. -/
structure Frame (q : ℕ) (s s' : Shared) : Prop where
  records : SameFor q s.records s'.records
  credits : SameFor q s.credits s'.credits
  invoices : SameFor q s.invoices s'.invoices
  drafted_eq : drafted q Credit.remainingMinor s'.credits =
    drafted q Credit.remainingMinor s.credits

section
variable {q i : ℕ} {s s' : Shared}

theorem Frame.refl (q : ℕ) (s : Shared) : Frame q s s :=
  ⟨SameFor.refl q _, SameFor.refl q _, SameFor.refl q _, rfl⟩

theorem Frame.holdsNothing (h : Frame q s s') (hno : HoldsNothing s q) : HoldsNothing s' q :=
  ⟨h.records.holdsNo hno.1, h.credits.holdsNo hno.2.1, h.invoices.holdsNo hno.2.2⟩

theorem Frame.charged (h : Frame q s s') {b : Bill} {credit : ℤ} (hc : Charged s q b credit) :
    Charged s' q b credit :=
  ⟨hc.1, hc.2.1, h.drafted_eq.trans hc.2.2⟩

theorem Frame.drawn (h : Frame q s s') {id : String} {v : Issued} (hd : Drawn s q id v) :
    Drawn s' q id v := by
  constructor
  · exact (h.invoices _ _ rfl).mp hd.1
  · intro n d hfind hq
    exact hd.2 n d ((h.invoices n d hq).mpr hfind) hq

theorem Frame.linkedBy (h : Frame q s s') {id : String} {ks : List RecordKey}
    (hl : LinkedBy s q id ks) : LinkedBy s' q id ks := by
  constructor
  · intro k hk
    obtain ⟨u, hu, hfind⟩ := hl.1 k hk
    exact ⟨u, hu, (h.records _ _ rfl).mp hfind⟩
  · intro k c hfind hq
    exact hl.2 k c ((h.records k c hq).mpr hfind) hq

theorem Frame.place (h : Frame q s s') {pc : Pc} (hp : Place s q pc) : Place s' q pc := by
  cases pc with
  | idle | begun _ | absent _ | returned _ | thrown _ => exact h.holdsNothing hp
  | read b => exact ⟨hp.1, h.holdsNothing hp.2⟩
  | consuming b left credits =>
    obtain ⟨hb, hrec, hinv, hleft, hcharged, hcs⟩ := hp
    exact ⟨hb, h.records.holdsNo hrec, h.invoices.holdsNo hinv, hleft, h.charged hcharged, hcs⟩
  | consumed b credit | numbered b credit _ =>
    obtain ⟨hb, hrec, hinv, hcharged⟩ := hp
    exact ⟨hb, h.records.holdsNo hrec, h.invoices.holdsNo hinv, h.charged hcharged⟩
  | linking b credit seq id linked todo =>
    obtain ⟨hb, hcharged, hdrawn, hsub, hlinked⟩ := hp
    exact ⟨hb, h.charged hcharged, h.drawn hdrawn, hsub, h.linkedBy hlinked⟩
  | linked b credit seq id | ready b credit seq id =>
    obtain ⟨hb, hcharged, hdrawn, hlinked⟩ := hp
    exact ⟨hb, h.charged hcharged, h.drawn hdrawn, h.linkedBy hlinked⟩

theorem frame_commit (hq : q ≠ i) (s : Shared) : Frame q s (s.commit i) :=
  ⟨sameFor_commit hq _, sameFor_commit hq _, sameFor_commit hq _, drafted_commit_of_ne hq _ _⟩

theorem frame_rollback (hq : q ≠ i) (s : Shared) : Frame q s (s.rollback i) :=
  ⟨sameFor_rollback hq _, sameFor_rollback hq _, sameFor_rollback hq _,
    drafted_rollback_of_ne hq _ _⟩

theorem frame_credit (hq : q ≠ i) {k : ℕ} {c : Cell Credit} (hfind : s.credits.find k = some c)
    (hfree : c.free i = true) (v : Credit) :
    Frame q s { s with credits := s.credits.put k (c.write i v) } := by
  have hold : ∀ d, s.credits.find k = some d → d.holder ≠ some q := by
    intro d hd
    rw [hfind] at hd
    rw [← Option.some.inj hd]
    exact Cell.holder_ne_of_free hq hfree
  exact ⟨SameFor.refl q _, sameFor_put hq hold rfl, SameFor.refl q _,
    drafted_put_of_ne hq _ hold rfl⟩

theorem frame_record (hq : q ≠ i) {k : RecordKey} {c : Cell UsageRecord}
    (hfind : s.records.find k = some c) (hfree : c.free i = true) (v : UsageRecord) :
    Frame q s { s with records := s.records.put k (c.write i v) } := by
  have hold : ∀ d, s.records.find k = some d → d.holder ≠ some q := by
    intro d hd
    rw [hfind] at hd
    rw [← Option.some.inj hd]
    exact Cell.holder_ne_of_free hq hfree
  exact ⟨sameFor_put hq hold rfl, SameFor.refl q _, SameFor.refl q _, rfl⟩

/-- A new row of the invoices. -/
theorem frame_invoice (hq : q ≠ i) {n : String} {v : Option Issued}
    (hnew : s.invoices.find n = none) :
    Frame q s { s with invoices := s.invoices.put n ⟨none, some (i, v)⟩ } := by
  have hold : ∀ d, s.invoices.find n = some d → d.holder ≠ some q := by
    intro d hd
    rw [hnew] at hd
    cases hd
  exact ⟨SameFor.refl q _, SameFor.refl q _, sameFor_put hq hold rfl, rfl⟩

end

/-! ## The tables under each operation -/

theorem SameTables.consistent {s s' : Shared} (h : SameTables s s') (hs : Consistent s) :
    Consistent s' := by
  constructor
  · intro k u hk n
    rw [h.records] at hk
    simp only [h.issued]
    exact hs.linked k u hk n
  · intro n v hv k hk
    rw [h.issued] at hv
    rw [h.records]
    exact hs.billed n v hv k hk
  · intro n m v u hv hu
    rw [h.issued] at hv hu
    exact hs.once n m v u hv hu
  · intro k c hc
    rw [h.credits] at hc
    exact hs.remaining k c hc
  · intro n v hv
    rw [h.issued] at hv
    exact hs.balanced n v hv

section
variable {sum : ℤ} {s : Shared} {i : ℕ}

theorem sameTables_rollback (i : ℕ) (s : Shared) : SameTables s (s.rollback i) := by
  constructor
  · intro k
    exact reads_rollback i s.records k
  · intro k
    exact reads_rollback i s.credits k
  · intro n
    exact congrArg Option.join (reads_rollback i s.invoices n)

theorem Kept.rollback (h : Kept sum s) (i : ℕ) : Kept sum (s.rollback i) := by
  have hsame := sameTables_rollback i s
  have hstanding : ∀ n v, Standing (s.rollback i) n v → Standing s n v := by
    intro n v hv
    rcases hv with hv | ⟨d, j, hfind, hdraft⟩
    · rw [hsame.issued] at hv
      exact .inl hv
    · rw [Shared.rollback, Table.find_amend, Option.map_eq_some_iff] at hfind
      obtain ⟨c, hc, rfl⟩ := hfind
      exact .inr ⟨c, j, hc, Cell.draft_rollback hdraft⟩
  constructor
  · exact hsame.consistent h.consistent
  · intro n m v u hv hu
    exact h.standing n m v u (hstanding n v hv) (hstanding m u hu)
  · intro k c j v hfind hdraft
    rw [Shared.rollback, Table.find_amend, Option.map_eq_some_iff] at hfind
    obtain ⟨d, hd, rfl⟩ := hfind
    exact h.drafts k d j v hd (Cell.draft_rollback hdraft)
  · rw [← h.conserved, left, granted, Shared.rollback, total_rollback, total_rollback, left,
      granted]

theorem holdsNothing_rollback (i : ℕ) (s : Shared) : HoldsNothing (s.rollback i) i :=
  ⟨holdsNo_rollback i _, holdsNo_rollback i _, holdsNo_rollback i _⟩

theorem sameTables_credit {k : ℕ} {c : Cell Credit} (hfind : s.credits.find k = some c)
    (v : Credit) : SameTables s { s with credits := s.credits.put k (c.write i v) } :=
  ⟨fun _ => rfl, fun j => reads_put_write hfind v j, fun _ => rfl⟩

theorem Kept.credit (h : Kept sum s) {k : ℕ} {c : Cell Credit} (hfind : s.credits.find k = some c)
    {v : Credit} (hv : 0 ≤ v.remainingMinor) :
    Kept sum { s with credits := s.credits.put k (c.write i v) } := by
  constructor
  · exact (sameTables_credit hfind v).consistent h.consistent
  · exact h.standing
  · intro j d q u hd hdraft
    by_cases hj : j = k
    · subst hj
      rw [Table.find_put_self] at hd
      rw [← Option.some.inj hd, Cell.write] at hdraft
      cases hdraft
      exact hv
    · rw [Table.find_put_of_ne _ hj] at hd
      exact h.drafts j d q u hd hdraft
  · rw [← h.conserved, left, total_put_write _ i v hfind]
    rfl

theorem sameTables_record {k : RecordKey} {c : Cell UsageRecord}
    (hfind : s.records.find k = some c) (u : UsageRecord) :
    SameTables s { s with records := s.records.put k (c.write i u) } :=
  ⟨fun j => reads_put_write hfind u j, fun _ => rfl, fun _ => rfl⟩

theorem Kept.record (h : Kept sum s) {k : RecordKey} {c : Cell UsageRecord}
    (hfind : s.records.find k = some c) (u : UsageRecord) :
    Kept sum { s with records := s.records.put k (c.write i u) } :=
  ⟨(sameTables_record hfind u).consistent h.consistent, h.standing, h.drafts, h.conserved⟩

theorem issued_of_find {n : String} (h : s.invoices.find n = none) : s.issued n = none := by
  rw [Shared.issued, reads, h]
  rfl

theorem Drawn.issued {id : String} {v : Issued} (h : Drawn s i id v) : s.issued id = none := by
  rw [Shared.issued, reads, h.1]
  rfl

/-- A new row of the invoices is not committed. -/
theorem sameTables_invoice {n : String} (hn : s.invoices.find n = none) (v : Option Issued) :
    SameTables s { s with invoices := s.invoices.put n ⟨none, some (i, v)⟩ } := by
  refine ⟨fun _ => rfl, fun _ => rfl, ?_⟩
  intro m
  by_cases hm : m = n
  · subst hm
    rw [issued_of_find hn, Shared.issued, reads, Table.find_put_self]
    rfl
  · rw [Shared.issued, reads, Table.find_put_of_ne _ hm, Shared.issued, reads]

theorem granted_invoice {n : String} (hn : s.invoices.find n = none) (v : Option Issued) :
    granted { s with invoices := s.invoices.put n ⟨none, some (i, v)⟩ } = granted s := by
  rw [granted, total, Table.sum_put, hn, granted, total]
  simp

theorem pending_false {r : Request} (h : s.pending i r = false) {n : String} {j : ℕ}
    {d : Cell (Option Issued)} {v : Issued} (hfind : s.invoices.find n = some d)
    (hdraft : d.draft = some (j, some v)) (hj : j ≠ i) : samePeriod v.invoice r = false := by
  by_contra hsame
  rw [Bool.not_eq_false] at hsame
  have hpending : s.pending i r = true := by
    apply List.any_eq_true.mpr
    refine ⟨(n, d), Table.find_mem hfind, ?_⟩
    simp [hdraft, hj, hsame]
  rw [h] at hpending
  cases hpending

theorem existing_false {r : Request} (h : s.existing r = false) {n : String} {v : Issued}
    (hv : s.issued n = some v) : samePeriod v.invoice r = false := by
  by_contra hsame
  rw [Bool.not_eq_false] at hsame
  rw [Shared.issued, Option.join_eq_some_iff, reads, Option.map_eq_some_iff] at hv
  obtain ⟨d, hfind, hd⟩ := hv
  have hexisting : s.existing r = true := by
    apply List.any_eq_true.mpr
    refine ⟨(n, d), Table.find_mem hfind, ?_⟩
    simp [hd, hsame]
  rw [h] at hexisting
  cases hexisting

theorem samePeriod_of_period {b : Bill} {credit : ℤ} {seq : ℕ} {v : Issued}
    (h : period v = period (issuedOf b credit seq)) : samePeriod v.invoice b.request = true := by
  simp only [period, Prod.mk.injEq] at h
  simp only [samePeriod, decide_eq_true_eq]
  exact h

/-- Creating the invoice, while no other one of its team and period stands. -/
theorem Kept.create (h : Kept sum s) {b : Bill} {credit : ℤ} {seq : ℕ} {id : String}
    (hnew : s.invoices.find id = none) (hinv : HoldsNo i s.invoices)
    (hpending : s.pending i b.request = false) (hexisting : s.existing b.request = false) :
    Kept sum { s with
      invoices := s.invoices.put id ⟨none, some (i, some (issuedOf b credit seq))⟩ } := by
  have hsame := sameTables_invoice (i := i) hnew (some (issuedOf b credit seq))
  have hstanding : ∀ n v, Standing { s with
      invoices := s.invoices.put id ⟨none, some (i, some (issuedOf b credit seq))⟩ } n v →
      Standing s n v ∧ samePeriod v.invoice b.request = false ∨
        n = id ∧ v = issuedOf b credit seq := by
    intro n v hv
    by_cases hn : n = id
    · right
      refine ⟨hn, ?_⟩
      subst hn
      rcases hv with hv | ⟨d, j, hfind, hdraft⟩
      · rw [hsame.issued, issued_of_find hnew] at hv
        cases hv
      · rw [Table.find_put_self] at hfind
        rw [← Option.some.inj hfind] at hdraft
        simpa using (Prod.mk.inj (Option.some.inj hdraft)).2.symm
    · left
      rcases hv with hv | ⟨d, j, hfind, hdraft⟩
      · rw [hsame.issued] at hv
        exact ⟨.inl hv, existing_false hexisting hv⟩
      · rw [Table.find_put_of_ne _ hn] at hfind
        have hj : j ≠ i := by
          intro hji
          apply hinv n d hfind
          rw [Cell.holder, hdraft, hji]
          rfl
        exact ⟨.inr ⟨d, j, hfind, hdraft⟩, pending_false hpending hfind hdraft hj⟩
  constructor
  · exact hsame.consistent h.consistent
  · intro n m v u hv hu hperiod
    rcases hstanding n v hv with ⟨hv', hno⟩ | ⟨rfl, rfl⟩
    · rcases hstanding m u hu with ⟨hu', -⟩ | ⟨rfl, rfl⟩
      · exact h.standing n m v u hv' hu' hperiod
      · rw [samePeriod_of_period hperiod] at hno
        cases hno
    · rcases hstanding m u hu with ⟨-, hno⟩ | ⟨rfl, -⟩
      · rw [samePeriod_of_period hperiod.symm] at hno
        cases hno
      · rfl
  · exact h.drafts
  · have hgranted := granted_invoice (i := i) hnew (some (issuedOf b credit seq))
    rw [← h.conserved, hgranted]
    rfl

/-! ## Committing -/

theorem issued_commit {id : String} {v : Issued} (hdrawn : Drawn s i id v) (n : String) :
    (s.commit i).issued n = if n = id then some v else s.issued n := by
  rw [Shared.issued, Shared.commit, reads_commit]
  split_ifs with hn
  · rw [hn, hdrawn.1]
    simp [Cell.view]
  · rw [Shared.issued, reads]
    cases hfind : s.invoices.find n with
    | none => rfl
    | some d =>
      have hd : d.holder ≠ some i := fun hd => hn (hdrawn.2 n d hfind hd)
      rw [Option.map_some, Option.map_some, Cell.view_of_holder_ne hd]

theorem reads_commit_linked {id : String} {ks : List RecordKey} (hlinked : LinkedBy s i id ks)
    {k : RecordKey} (hk : k ∈ ks) : ∃ u : UsageRecord, u.invoiceId = none ∧
      reads s.records k = some u ∧
      reads (s.commit i).records k = some { u with invoiceId := some id } := by
  obtain ⟨u, hu, hfind⟩ := hlinked.1 k hk
  refine ⟨u, hu, ?_, ?_⟩
  · rw [reads, hfind]
    rfl
  · rw [Shared.commit, reads_commit, hfind]
    simp [Cell.view]

theorem reads_commit_unlinked {id : String} {ks : List RecordKey} (hlinked : LinkedBy s i id ks)
    {k : RecordKey} (hk : k ∉ ks) : reads (s.commit i).records k = reads s.records k := by
  rw [Shared.commit, reads_commit, reads]
  cases hfind : s.records.find k with
  | none => rfl
  | some c =>
    have hc : c.holder ≠ some i := fun hc => hk (hlinked.2 k c hfind hc)
    rw [Option.map_some, Option.map_some, Cell.view_of_holder_ne hc]

theorem balanced_issuedOf {b : Bill} {credit : ℤ} (hcharged : Charged s i b credit) (seq : ℕ) :
    (issuedOf b credit seq).Balanced := by
  have hle := hcharged.2.1
  unfold Bill.gross at hle
  constructor
  · rfl
  · simp only [issuedOf, Bill.invoice]
    omega

/-- The invoice and its records become visible together. -/
theorem Consistent.commit (h : Kept sum s) {b : Bill} {credit : ℤ} {seq : ℕ} {id : String}
    (hcharged : Charged s i b credit) (hdrawn : Drawn s i id (issuedOf b credit seq))
    (hlinked : LinkedBy s i id b.keys) : Consistent (s.commit i) := by
  have hissued := issued_commit hdrawn
  have hfresh := hdrawn.issued
  constructor
  · intro k u hk n
    rw [hissued n]
    by_cases hmem : k ∈ b.keys
    · obtain ⟨old, hnone, hold, hnew⟩ := reads_commit_linked hlinked hmem
      rw [hnew] at hk
      rw [← Option.some.inj hk]
      simp only [Option.some.injEq]
      by_cases hn : n = id
      · rw [if_pos hn]
        constructor
        · intro _
          exact ⟨_, rfl, hmem⟩
        · intro _
          exact hn.symm
      · rw [if_neg hn]
        constructor
        · intro heq
          exact (hn heq.symm).elim
        · intro hv
          have := (h.consistent.linked k old hold n).mpr hv
          rw [hnone] at this
          cases this
    · rw [reads_commit_unlinked hlinked hmem] at hk
      by_cases hn : n = id
      · rw [if_pos hn, h.consistent.linked k u hk n, hn]
        constructor
        · intro ⟨v, hv, _⟩
          rw [hfresh] at hv
          cases hv
        · intro ⟨v, hv, hkv⟩
          rw [← Option.some.inj hv] at hkv
          exact (hmem hkv).elim
      · rw [if_neg hn]
        exact h.consistent.linked k u hk n
  · intro n v hv k hk
    rw [hissued n] at hv
    by_cases hmem : k ∈ b.keys
    · obtain ⟨u, -, -, hnew⟩ := reads_commit_linked hlinked hmem
      exact ⟨_, hnew⟩
    · rw [reads_commit_unlinked hlinked hmem]
      split_ifs at hv with hn
      · rw [← Option.some.inj hv] at hk
        exact (hmem hk).elim
      · exact h.consistent.billed n v hv k hk
  · intro n m v u hv hu
    have hstanding : ∀ n v, (s.commit i).issued n = some v → Standing s n v := by
      intro n v hv
      rw [hissued n] at hv
      split_ifs at hv with hn
      · rw [← Option.some.inj hv, hn]
        exact .inr ⟨_, i, hdrawn.1, rfl⟩
      · exact .inl hv
    exact h.standing n m v u (hstanding n v hv) (hstanding m u hu)
  · intro k c hc
    rw [Shared.commit, reads_commit, Option.map_eq_some_iff] at hc
    obtain ⟨d, hfind, rfl⟩ := hc
    by_cases hd : d.holder = some i
    · obtain ⟨⟨j, v⟩, hdraft, hj⟩ := Option.map_eq_some_iff.mp hd
      have hview : d.view i = v := by
        rw [Cell.view, hdraft]
        exact if_pos hj
      rw [hview]
      exact h.drafts k d j v hfind hdraft
    · rw [Cell.view_of_holder_ne hd]
      apply h.consistent.remaining k
      rw [reads, hfind]
      rfl
  · intro n v hv
    rw [hissued n] at hv
    split_ifs at hv with hn
    · rw [← Option.some.inj hv]
      exact balanced_issuedOf hcharged seq
    · exact h.consistent.balanced n v hv

/-- The drafts of a run in the invoices: the credit of its own. -/
theorem drafted_invoices {id : String} {v : Issued} (hdrawn : Drawn s i id v) :
    drafted i (fun v : Option Issued => v.elim 0 fun v => v.invoice.creditMinor) s.invoices =
      v.invoice.creditMinor := by
  have honly : drafted i (fun v : Option Issued => v.elim 0 fun v => v.invoice.creditMinor)
      s.invoices = s.invoices.sum fun n d => if n = id then d.change i (fun v : Option Issued =>
        v.elim 0 fun v => v.invoice.creditMinor) else 0 := by
    apply Table.sum_congr
    intro n d hmem
    split_ifs with hn
    · rfl
    · exact Cell.change_of_holder_ne (fun hd => hn (hdrawn.2 n d (Table.find_of_mem hmem) hd)) _
  rw [honly, Table.sum_only, hdrawn.1]
  simp [Cell.change, Cell.holder, Cell.view]

theorem Kept.commit (h : Kept sum s) {b : Bill} {credit : ℤ} {seq : ℕ} {id : String}
    (hcharged : Charged s i b credit) (hdrawn : Drawn s i id (issuedOf b credit seq))
    (hlinked : LinkedBy s i id b.keys) : Kept sum (s.commit i) := by
  constructor
  · exact Consistent.commit h hcharged hdrawn hlinked
  · have hstanding : ∀ n v, Standing (s.commit i) n v → Standing s n v := by
      intro n v hv
      rcases hv with hv | ⟨d, j, hfind, hdraft⟩
      · rw [issued_commit hdrawn n] at hv
        split_ifs at hv with hn
        · rw [← Option.some.inj hv, hn]
          exact .inr ⟨_, i, hdrawn.1, rfl⟩
        · exact .inl hv
      · rw [Shared.commit, Table.find_amend, Option.map_eq_some_iff] at hfind
        obtain ⟨c, hc, rfl⟩ := hfind
        exact .inr ⟨c, j, hc, Cell.draft_commit hdraft⟩
    intro n m v u hv hu
    exact h.standing n m v u (hstanding n v hv) (hstanding m u hu)
  · intro k c j v hfind hdraft
    rw [Shared.commit, Table.find_amend, Option.map_eq_some_iff] at hfind
    obtain ⟨d, hd, rfl⟩ := hfind
    exact h.drafts k d j v hd (Cell.draft_commit hdraft)
  · have hgranted := drafted_invoices hdrawn
    have htaken := hcharged.2.2
    have hcredit : (issuedOf b credit seq).invoice.creditMinor = credit := rfl
    rw [← h.conserved, left, granted, Shared.commit, total_commit, total_commit, hgranted, htaken,
      hcredit, left, granted]
    omega

theorem holdsNothing_commit (i : ℕ) (s : Shared) : HoldsNothing (s.commit i) i :=
  ⟨holdsNo_commit i _, holdsNo_commit i _, holdsNo_commit i _⟩

end

end Prgd.Issuing
