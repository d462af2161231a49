import Prgd.Interleaving
import Prgd.WorkLogs

/-!
# Each worklog is billed once

A worklog that an accrual counted carries its month, and from then on nothing but
its link and its payout change: staff edits refuse it, and the timesheet only
touches entries that no accrual counts. So a later accrual of the same month finds
it again with the same minutes, and no other month does; a month with a line on an
invoice is not accrued again, so what is linked is what was counted.
-/
namespace Prgd.WorkLogs
open Interleaving

/-- What the billing relies on, in every state. -/
structure Sound (d : Desk) : Prop where
  ids : ∀ id w, d.logs.find id = some w → id < d.nextId
  /-- A counted entry still passes every filter of its month but the one on the invoice. -/
  stamped : ∀ id w p, d.logs.find id = some w → w.billedPeriod = some p →
    ∃ month, p = monthMs month ∧ w.workedAt < monthMs (month + 1) ∧ w.billable = true ∧
      w.status ∈ countedWorklog
  /-- An entry is linked through a line of its contract and month. -/
  linked : ∀ id w invoiceId, d.logs.find id = some w → w.billedInvoiceId = some invoiceId →
    ∃ p, w.billedPeriod = some p ∧ ∃ k r, d.records.find k = some r ∧ isManaged k.resourceType ∧
      k.resourceId = w.contractId ∧ k.hourStart = p ∧ r.invoiceId = some invoiceId
  /-- The lines of a month were computed from every entry that was counted for it. -/
  agreed : ∀ id w p, d.logs.find id = some w → w.billedPeriod = some p →
    ∀ k r, d.records.find k = some r → isManaged k.resourceType → k.resourceId = w.contractId →
      k.hourStart = p → (id, w.minutes) ∈ r.counted
  accrued : ∀ a ∈ d.accruals, ∀ e ∈ a.counted,
    ∃ w, d.logs.find e.1 = some w ∧ w.billedPeriod = some a.period
  links : ∀ e ∈ d.links, ∃ w, d.logs.find e.1 = some w ∧ w.billedInvoiceId = some e.2

variable {d d' : Desk} {id : ℕ} {w w' : WorkLog} {o o' : Option WorkLog}

/-! ## Edits -/

def Unbilled (o : Option WorkLog) : Prop :=
  ∀ w, o = some w → w.billedPeriod = none ∧ w.billedInvoiceId = none

/-- What an edit may do to an entry: leave it, exchange one that is not billed for
another such or for none, or mark it as paid. -/
inductive Slot : Option WorkLog → Option WorkLog → Prop where
  | same (o : Option WorkLog) : Slot o o
  | free {o o' : Option WorkLog} (h : Unbilled o) (h' : Unbilled o') : Slot o o'
  | paid (w : WorkLog) (h : w.status = .approved) : Slot (some w) (some { w with status := .paid })

/-- The same entry, at most with another status that counts. -/
def Same (w w' : WorkLog) : Prop :=
  ∃ status, w' = { w with status := status } ∧ (w.status ∈ countedWorklog → status ∈ countedWorklog)

theorem Same.refl (w : WorkLog) : Same w w := ⟨w.status, rfl, fun h => h⟩

theorem Same.paid (w : WorkLog) : Same w { w with status := .paid } :=
  ⟨.paid, rfl, fun _ => by decide⟩

def Billed (w : WorkLog) : Prop := w.billedPeriod ≠ none ∨ w.billedInvoiceId ≠ none

theorem not_billed_of_unbilled (h : Unbilled (some w)) : ¬ Billed w := by
  obtain ⟨hperiod, hinvoice⟩ := h w rfl
  rintro (hb | hb)
  · exact hb hperiod
  · exact hb hinvoice

theorem Slot.before (h : Slot o (some w')) (hb : Billed w') : ∃ w, o = some w ∧ Same w w' := by
  cases h with
  | same => exact ⟨w', rfl, Same.refl w'⟩
  | free _ h' => exact (not_billed_of_unbilled h' hb).elim
  | paid w _ => exact ⟨w, rfl, Same.paid w⟩

theorem Slot.after (h : Slot (some w) o') (hb : Billed w) : ∃ w', o' = some w' ∧ Same w w' := by
  cases h with
  | same => exact ⟨w, rfl, Same.refl w⟩
  | free h _ => exact (not_billed_of_unbilled h hb).elim
  | paid w _ => exact ⟨_, rfl, Same.paid w⟩

/-- Edits keep what the billing relies on. -/
theorem Sound.edit (h : Sound d) {logs : Logs} {nextId : ℕ}
    (hslot : ∀ id, Slot (d.logs.find id) (logs.find id))
    (hids : ∀ id w, logs.find id = some w → id < nextId) :
    Sound { d with logs := logs, nextId := nextId } := by
  have hbefore : ∀ id w', logs.find id = some w' → Billed w' →
      ∃ w, d.logs.find id = some w ∧ Same w w' := by
    intro id w' hw' hb
    have hs := hslot id
    rw [hw'] at hs
    exact hs.before hb
  have hafter : ∀ id w, d.logs.find id = some w → Billed w →
      ∃ w', logs.find id = some w' ∧ Same w w' := by
    intro id w hw hb
    have hs := hslot id
    rw [hw] at hs
    exact hs.after hb
  constructor
  · exact hids
  · intro id w' p hw' hp
    obtain ⟨w, hw, status, rfl, hcounted⟩ := hbefore id w' hw' (.inl (by simp [hp]))
    obtain ⟨month, hmonth, hworked, hbillable, hstatus⟩ := h.stamped id w p hw hp
    exact ⟨month, hmonth, hworked, hbillable, hcounted hstatus⟩
  · intro id w' invoiceId hw' hinv
    obtain ⟨w, hw, status, rfl, _⟩ := hbefore id w' hw' (.inr (by simp [hinv]))
    exact h.linked id w invoiceId hw hinv
  · intro id w' p hw' hp
    obtain ⟨w, hw, status, rfl, _⟩ := hbefore id w' hw' (.inl (by simp [hp]))
    exact h.agreed id w p hw hp
  · intro a ha e he
    obtain ⟨w, hw, hp⟩ := h.accrued a ha e he
    obtain ⟨w', hw', status, rfl, _⟩ := hafter e.1 w hw (.inl (by simp [hp]))
    exact ⟨_, hw', hp⟩
  · intro e he
    obtain ⟨w, hw, hinv⟩ := h.links e he
    obtain ⟨w', hw', status, rfl, _⟩ := hafter e.1 w hw (.inr (by simp [hinv]))
    exact ⟨_, hw', hinv⟩

/-- A new entry is on no invoice and counted for no month. -/
theorem Sound.insert (h : Sound d) (hp : w.billedPeriod = none) (hinv : w.billedInvoiceId = none) :
    Sound (d.insert w) := by
  have hfresh : d.logs.find d.nextId = none := by
    cases hfind : d.logs.find d.nextId with
    | none => rfl
    | some w => exact absurd (h.ids _ _ hfind) (Nat.lt_irrefl _)
  apply h.edit
  · intro id
    by_cases hid : id = d.nextId
    · subst hid
      rw [hfresh, Table.find_put_self]
      apply Slot.free
      · simp [Unbilled]
      · simp [Unbilled, hp, hinv]
    · rw [Table.find_put_of_ne _ hid]
      exact Slot.same _
  · intro id w' hw'
    by_cases hid : id = d.nextId
    · omega
    · rw [Table.find_put_of_ne _ hid] at hw'
      have := h.ids _ _ hw'
      omega

/-- An entry that is not billed is rewritten. -/
theorem Sound.put (h : Sound d) (hw : d.logs.find id = some w) (hfree : Unbilled (some w))
    (hp : w'.billedPeriod = none) (hinv : w'.billedInvoiceId = none) :
    Sound { d with logs := d.logs.put id w' } := by
  apply h.edit
  · intro j
    by_cases hj : j = id
    · subst hj
      rw [hw, Table.find_put_self]
      exact Slot.free hfree (by simp [Unbilled, hp, hinv])
    · rw [Table.find_put_of_ne _ hj]
      exact Slot.same _
  · intro j v hv
    by_cases hj : j = id
    · subst hj
      exact h.ids _ _ hw
    · rw [Table.find_put_of_ne _ hj] at hv
      exact h.ids _ _ hv

theorem Sound.erase (h : Sound d) (hw : d.logs.find id = some w) (hfree : Unbilled (some w)) :
    Sound { d with logs := d.logs.erase id } := by
  apply h.edit
  · intro j
    rw [Table.find_erase]
    by_cases hj : j = id
    · subst hj
      rw [hw, if_pos rfl]
      exact Slot.free hfree (by simp [Unbilled])
    · rw [if_neg hj]
      exact Slot.same _
  · intro j v hv
    rw [Table.find_erase] at hv
    by_cases hj : j = id
    · rw [if_pos hj] at hv
      cases hv
    · rw [if_neg hj] at hv
      exact h.ids _ _ hv

theorem Sound.updateMany (h : Sound d) {found : ℕ → WorkLog → Bool} {g : WorkLog → WorkLog}
    (hslot : ∀ id w, d.logs.find id = some w → found id w → Slot (some w) (some (g w))) :
    Sound (d.updateMany found g) := by
  apply h.edit
  · intro id
    rw [Table.find_amend]
    cases hw : d.logs.find id with
    | none => exact Slot.same _
    | some w =>
      rw [Option.map_some]
      split_ifs with hfound
      · exact hslot id w hw hfound
      · exact Slot.same _
  · intro id w hw
    rw [Table.find_amend] at hw
    obtain ⟨v, hv, _⟩ := Option.map_eq_some_iff.mp hw
    exact h.ids _ _ hv

/-! ## The requests -/

/-- What holds of the result when there is one. -/
def Returns {α : Type} (P : α → Prop) (x : Except ApiError α) : Prop := ∀ a, x = .ok a → P a

section
variable {α β : Type} {P : α → Prop} {Q : β → Prop}

theorem Returns.pure {a : α} (h : P a) : Returns P (Pure.pure a) := by
  intro b hb
  injection hb with hb
  rwa [← hb]

theorem Returns.throw (e : ApiError) : Returns P (MonadExcept.throw e) := by
  intro a ha
  cases ha

theorem Returns.bind {x : Except ApiError α} {f : α → Except ApiError β} (hx : Returns P x)
    (hf : ∀ a, P a → Returns Q (f a)) : Returns Q (x >>= f) := by
  cases x with
  | ok a => exact hf a (hx a rfl)
  | error e => exact Returns.throw e

/-- A check that only throws or goes on. -/
theorem Returns.check {x : Except ApiError α} {f : α → Except ApiError β}
    (hf : ∀ a, Returns Q (f a)) : Returns Q (x >>= f) :=
  Returns.bind (P := fun _ => True) (fun _ _ => trivial) fun a _ => hf a

theorem Returns.orThrow {c : Prop} [Decidable c] {e : ApiError} {f : α → Except ApiError β}
    {x : Except ApiError β} (hx : Returns Q x) :
    Returns Q (if c then MonadExcept.throw e >>= f else x) := by
  split_ifs
  · exact Returns.throw e
  · exact hx

end

/-- A request that throws changes nothing. -/
theorem Returns.attempt {P : Desk → Prop} {x : Except ApiError Desk} (hx : Returns P x) (hd : P d) :
    P (attempt d x) := by
  cases x with
  | ok d' => exact hx d' rfl
  | error e => exact hd

theorem Sound.create (h : Sound d) (actor : Actor) (dto : WorkLogInput)
    (contract : Option Contracts.Status) (now : ℕ) :
    Returns Sound (create d actor dto contract now) := by
  have hgoOn : ∀ w : WorkLog, w.billedPeriod = none → w.billedInvoiceId = none →
      Returns Sound (do checkTicket dto.ticket; checkWhen now dto.workedAt; Pure.pure (d.insert w)) := by
    intro w hp hinv
    refine Returns.check fun _ => Returns.check fun _ => ?_
    exact Returns.pure (h.insert hp hinv)
  unfold WorkLogs.create
  dsimp only
  split
  · exact Returns.throw _
  · exact Returns.throw _
  · apply Returns.orThrow
    exact hgoOn _ rfl rfl

theorem editable_returns (d : Desk) (actor : Actor) (id : ℕ) :
    Returns (fun w => d.logs.find id = some w ∧ Unbilled (some w)) (editable d actor id) := by
  unfold editable
  split
  · exact Returns.throw _
  · rename_i w hw
    split_ifs with howner hbilled hpaid
    · exact Returns.throw _
    · exact Returns.throw _
    · exact Returns.throw _
    · apply Returns.pure
      refine ⟨hw, ?_⟩
      intro v hv
      cases hv
      simpa using hbilled

theorem Sound.update (h : Sound d) (actor : Actor) (id : ℕ) (dto : WorkLogChange) (now : ℕ) :
    Returns Sound (update d actor id dto now) := by
  refine Returns.bind (editable_returns d actor id) ?_
  intro w hw
  refine Returns.check fun _ => Returns.check fun _ => ?_
  obtain ⟨hp, hinv⟩ := hw.2 w rfl
  exact Returns.pure (h.put hw.1 hw.2 hp hinv)

theorem Sound.remove (h : Sound d) (actor : Actor) (id : ℕ) : Returns Sound (remove d actor id) := by
  refine Returns.bind (editable_returns d actor id) ?_
  intro w hw
  exact Returns.pure (h.erase hw.1 hw.2)

/-- An entry in a status that no accrual counts is not billed. -/
theorem Sound.unbilled_of_status (h : Sound d) (hw : d.logs.find id = some w)
    (hstatus : w.status ∉ countedWorklog) : Unbilled (some w) := by
  intro v hv
  cases hv
  have hp : w.billedPeriod = none := by
    cases hp : w.billedPeriod with
    | none => rfl
    | some p =>
      obtain ⟨_, _, _, _, hcounted⟩ := h.stamped id w p hw hp
      exact absurd hcounted hstatus
  refine ⟨hp, ?_⟩
  cases hinv : w.billedInvoiceId with
  | none => rfl
  | some invoiceId =>
    obtain ⟨p, hp', _⟩ := h.linked id w invoiceId hw hinv
    rw [hp] at hp'
    cases hp'

theorem Sound.createManual (h : Sound d) (userId : ℕ) (dto : ManualEntry) (now : ℕ) :
    Returns Sound (createManual d userId dto now) := by
  apply Returns.orThrow
  apply Returns.orThrow
  apply Returns.pure
  apply h.insert
  · rfl
  · rfl

theorem own_returns (h : Sound d) (ops : OpsContext) (id : ℕ) :
    Returns (fun w => d.logs.find id = some w ∧ Unbilled (some w)) (own d ops id) := by
  unfold own
  split
  · exact Returns.throw _
  · rename_i w hw
    have hfind : d.logs.find id = some w := (Option.filter_eq_some_iff.mp hw).1
    split_ifs with hstatus
    · exact Returns.throw _
    · apply Returns.pure
      refine ⟨hfind, h.unbilled_of_status hfind ?_⟩
      revert hstatus
      cases w.status <;> decide

theorem Sound.updateEntry (h : Sound d) (ops : OpsContext) (id : ℕ) (dto : EntryChange) :
    Returns Sound (updateEntry d ops id dto) := by
  refine Returns.bind (own_returns h ops id) ?_
  intro w hw
  obtain ⟨hp, hinv⟩ := hw.2 w rfl
  apply Returns.orThrow
  exact Returns.pure (h.put hw.1 hw.2 hp hinv)

theorem Sound.deleteEntry (h : Sound d) (ops : OpsContext) (id : ℕ) :
    Returns Sound (deleteEntry d ops id) := by
  refine Returns.bind (own_returns h ops id) ?_
  intro w hw
  exact Returns.pure (h.erase hw.1 hw.2)

/-- Entries that no accrual counts move from one status to another. -/
theorem Sound.setStatus (h : Sound d) {found : ℕ → WorkLog → Bool} {status : WorkLogStatus}
    (hfound : ∀ id w, found id w → w.status ∉ countedWorklog) :
    Sound (d.updateMany found fun w => { w with status := status }) := by
  apply h.updateMany
  intro id w hw hf
  have hfree := h.unbilled_of_status hw (hfound id w hf)
  obtain ⟨hp, hinv⟩ := hfree w rfl
  exact Slot.free hfree (by simp [Unbilled, hp, hinv])

theorem Sound.submit (h : Sound d) (ops : OpsContext) (r : Range) :
    Returns Sound (submit d ops r) := by
  apply Returns.orThrow
  apply Returns.pure
  apply h.setStatus
  intro id w hw
  simp only [isDraftOf, Bool.decide_and, Bool.and_eq_true, decide_eq_true_eq] at hw
  rw [hw.2.1]
  decide

theorem Sound.review (h : Sound d) (actor : Actor) (engineerUserId : ℕ) (dto : Review) :
    Returns Sound (review d actor engineerUserId dto) := by
  apply Returns.orThrow
  apply Returns.orThrow
  apply Returns.orThrow
  apply Returns.orThrow
  apply Returns.orThrow
  apply Returns.pure
  apply h.setStatus
  intro id w hw
  simp only [Review.covers, Bool.decide_and, Bool.and_eq_true, decide_eq_true_eq] at hw
  rw [hw.2.1]
  decide

theorem Sound.payPayout (h : Sound d) (workLogIds : List ℕ) : Sound (payPayout d workLogIds) := by
  apply h.updateMany
  intro id w hw hf
  simp only [Bool.decide_and, Bool.and_eq_true, decide_eq_true_eq] at hf
  exact Slot.paid w hf.2

/-! ## The accrual -/

theorem monthMs_inj {a b : ℕ} (h : monthMs a = monthMs b) : a = b := by
  apply Calendar.monthStart_strictMono.injective
  unfold monthMs at h
  omega

theorem mem_countedLogs {logs : Logs} {contractId month : ℕ} {e : ℕ × ℕ} :
    e ∈ countedLogs logs contractId month ↔
      ∃ w, logs.find e.1 = some w ∧ counts contractId month w ∧ e.2 = w.minutes := by
  simp only [countedLogs, List.mem_map, List.mem_filter]
  constructor
  · rintro ⟨⟨id, w⟩, ⟨hmem, hcounts⟩, rfl⟩
    exact ⟨w, Table.find_of_mem hmem, hcounts, rfl⟩
  · rintro ⟨w, hw, hcounts, hminutes⟩
    refine ⟨(e.1, w), ⟨Table.find_mem hw, hcounts⟩, ?_⟩
    rw [← hminutes]

theorem mem_countedLogs_ids {logs : Logs} {contractId month : ℕ} (hw : logs.find id = some w) :
    id ∈ (countedLogs logs contractId month).map Prod.fst ↔ counts contractId month w := by
  rw [List.mem_map]
  constructor
  · rintro ⟨e, he, rfl⟩
    obtain ⟨v, hv, hcounts, _⟩ := mem_countedLogs.mp he
    rw [hw] at hv
    cases hv
    exact hcounts
  · intro hcounts
    exact ⟨(id, w.minutes), mem_countedLogs.mpr ⟨w, hw, hcounts, rfl⟩, rfl⟩

theorem counts_iff {contractId month : ℕ} : counts contractId month w = true ↔
    w.contractId = contractId ∧ w.billable = true ∧ w.status ∈ countedWorklog ∧
      w.billedInvoiceId = none ∧ w.workedAt < monthMs (month + 1) ∧
      (w.billedPeriod = none ∨ w.billedPeriod = some (monthMs month)) := by
  simp [counts]

section
variable {records : Records} {key j : RecordKey} {projectId : ℕ} {amountMinor : ℤ} {quantity : ℚ}
  {unit : String} {counted : List (ℕ × ℕ)} {r : UsageRecord}

theorem find_upsert_of_ne (h : j ≠ key) :
    (upsert records key projectId amountMinor quantity unit counted).find j = records.find j := by
  unfold upsert
  split_ifs
  · rfl
  · rw [Table.find_erase, if_neg h]
  · split <;> exact Table.find_put_of_ne _ h _

/-- The line that an accrual leaves under its key was computed from what it counted. -/
theorem counted_of_find_upsert (hopen : (records.find key).any (·.invoiceId.isSome) = false)
    (h : (upsert records key projectId amountMinor quantity unit counted).find key = some r) :
    r.counted = counted := by
  unfold upsert at h
  simp only [hopen, Bool.false_eq_true, if_false] at h
  split_ifs at h with hamount
  · rw [Table.find_erase, if_pos rfl] at h
    cases h
  · split at h
    all_goals
      rw [Table.find_put_self] at h
      rw [← Option.some.inj h]

end

/-- The lines of one contract and month. -/
theorem key_cases {k : RecordKey} {contractId month : ℕ} (hmanaged : isManaged k.resourceType)
    (hid : k.resourceId = contractId) (hstart : k.hourStart = monthMs month) :
    k = planKey contractId month ∨ k = overageKey contractId month := by
  obtain ⟨type, resourceId, hourStart⟩ := k
  dsimp only at hid hstart
  subst hid
  subst hstart
  cases type with
  | managedPlan => exact .inl rfl
  | managedOverage => exact .inr rfl
  | metered => cases hmanaged

/-- Whatever was counted for a month that is not invoiced is counted again. -/
theorem Sound.counts_again (h : Sound d) {contractId month : ℕ}
    (hopen : invoiced d.records contractId month = false) (hw : d.logs.find id = some w)
    (hcontract : w.contractId = contractId) (hp : w.billedPeriod = some (monthMs month)) :
    counts contractId month w = true := by
  obtain ⟨month', hmonth, hworked, hbillable, hstatus⟩ := h.stamped id w _ hw hp
  obtain rfl := monthMs_inj hmonth
  have hinvoice : w.billedInvoiceId = none := by
    cases hinv : w.billedInvoiceId with
    | none => rfl
    | some invoiceId =>
      obtain ⟨p, hp', k, r, hr, hmanaged, hid, hstart, hline⟩ := h.linked id w invoiceId hw hinv
      rw [hp] at hp'
      obtain rfl := Option.some.inj hp'
      simp only [invoiced, Bool.or_eq_false_iff] at hopen
      rcases key_cases hmanaged (hid.trans hcontract) hstart with rfl | rfl
      · simp [hr, hline] at hopen
      · simp [hr, hline] at hopen
  exact counts_iff.mpr ⟨hcontract, hbillable, hstatus, hinvoice, hworked, .inr hp⟩

/-- The records that an accrual leaves: lines of its month computed from what it
counted, everything else untouched. -/
structure Accrued (records records' : Records) (contractId month : ℕ) (counted : List (ℕ × ℕ)) :
    Prop where
  lines : ∀ k r, isManaged k.resourceType → k.resourceId = contractId → k.hourStart = monthMs month →
    records'.find k = some r → r.counted = counted
  others : ∀ k, k ≠ planKey contractId month → k ≠ overageKey contractId month →
    records'.find k = records.find k

/-- The desk after the month was counted. -/
def stamp (d : Desk) (records : Records) (contractId month : ℕ) (counted : List (ℕ × ℕ)) : Desk :=
  { d with
    records := records
    logs := d.logs.amend fun id w =>
      if id ∈ counted.map Prod.fst then { w with billedPeriod := some (monthMs month) } else w
    accruals := ⟨contractId, monthMs month, counted⟩ :: d.accruals }

theorem planKey_ne_overageKey (contractId month : ℕ) :
    planKey contractId month ≠ overageKey contractId month := by
  intro h
  injection h with h _ _
  cases h

theorem accrueContract_cases (d : Desk) (c : Contract) (month : ℕ) :
    accrueContract d c month = d ∨ invoiced d.records c.id month = false ∧
      ∃ records, Accrued d.records records c.id month (countedLogs d.logs c.id month) ∧
        accrueContract d c month = stamp d records c.id month (countedLogs d.logs c.id month) := by
  unfold accrueContract
  cases c.project with
  | none => exact .inl rfl
  | some projectId =>
    dsimp only
    split_ifs with hinvoiced
    · exact .inl rfl
    · right
      have hopen : invoiced d.records c.id month = false := by simpa using hinvoiced
      refine ⟨hopen, _, ?_, rfl⟩
      simp only [invoiced, Bool.or_eq_false_iff] at hopen
      have hne := planKey_ne_overageKey c.id month
      constructor
      · intro k r hmanaged hid hstart hr
        rcases key_cases hmanaged hid hstart with rfl | rfl
        · rw [find_upsert_of_ne hne] at hr
          exact counted_of_find_upsert hopen.1 hr
        · apply counted_of_find_upsert _ hr
          rw [find_upsert_of_ne hne.symm]
          exact hopen.2
      · intro k hplan hoverage
        rw [find_upsert_of_ne hoverage, find_upsert_of_ne hplan]

section
variable {contractId month : ℕ} {records : Records}

/-- An entry after the month was counted: stamped with it, or as it was. -/
theorem find_stamp (hw' : (stamp d records contractId month
      (countedLogs d.logs contractId month)).logs.find id = some w') :
    ∃ w, d.logs.find id = some w ∧
      (counts contractId month w = true ∧ w' = { w with billedPeriod := some (monthMs month) } ∨
        counts contractId month w = false ∧ w' = w) := by
  simp only [stamp, Table.find_amend, Option.map_eq_some_iff] at hw'
  obtain ⟨w, hw, heq⟩ := hw'
  refine ⟨w, hw, ?_⟩
  simp only [mem_countedLogs_ids hw] at heq
  split_ifs at heq with hcounts
  · exact .inl ⟨hcounts, heq.symm⟩
  · exact .inr ⟨by simpa using hcounts, heq.symm⟩

theorem find_stamp_of_find (hw : d.logs.find id = some w) :
    (stamp d records contractId month (countedLogs d.logs contractId month)).logs.find id =
      some (if counts contractId month w then { w with billedPeriod := some (monthMs month) } else w)
    := by
  simp only [stamp, Table.find_amend, hw, Option.map_some, mem_countedLogs_ids hw]

theorem Sound.stamp (h : Sound d) (hopen : invoiced d.records contractId month = false)
    (haccrued : Accrued d.records records contractId month (countedLogs d.logs contractId month)) :
    Sound (stamp d records contractId month (countedLogs d.logs contractId month)) := by
  constructor
  · intro id w' hw'
    obtain ⟨w, hw, _⟩ := find_stamp hw'
    exact h.ids id w hw
  · intro id w' p hw' hp
    obtain ⟨w, hw, ⟨hcounts, rfl⟩ | ⟨_, rfl⟩⟩ := find_stamp hw'
    · obtain ⟨_, hbillable, hstatus, _, hworked, _⟩ := counts_iff.mp hcounts
      exact ⟨month, (Option.some.inj hp).symm, hworked, hbillable, hstatus⟩
    · exact h.stamped id w' p hw hp
  · intro id w' invoiceId hw' hinv
    obtain ⟨w, hw, ⟨hcounts, rfl⟩ | ⟨_, rfl⟩⟩ := find_stamp hw'
    · obtain ⟨_, _, _, hnone, _⟩ := counts_iff.mp hcounts
      rw [hnone] at hinv
      cases hinv
    · obtain ⟨p, hp, k, r, hr, hmanaged, hid, hstart, hline⟩ := h.linked id w' invoiceId hw hinv
      -- a line that is on an invoice is not one of the month that is accrued
      simp only [invoiced, Bool.or_eq_false_iff] at hopen
      have hkept : records.find k = d.records.find k := by
        apply haccrued.others
        · rintro rfl
          simp [hr, hline] at hopen
        · rintro rfl
          simp [hr, hline] at hopen
      exact ⟨p, hp, k, r, hkept.trans hr, hmanaged, hid, hstart, hline⟩
  · intro id w' p hw' hp k r hr hmanaged hid hstart
    obtain ⟨w, hw, hcase⟩ := find_stamp hw'
    by_cases hline : k = planKey contractId month ∨ k = overageKey contractId month
    · have hkey : k.resourceId = contractId ∧ k.hourStart = monthMs month := by
        rcases hline with rfl | rfl <;> exact ⟨rfl, rfl⟩
      rw [haccrued.lines k r hmanaged hkey.1 hkey.2 hr, mem_countedLogs]
      rcases hcase with ⟨hcounts, rfl⟩ | ⟨_, rfl⟩
      · exact ⟨w, hw, hcounts, rfl⟩
      · refine ⟨w', hw, h.counts_again hopen hw (hid.symm.trans hkey.1) ?_, rfl⟩
        rw [hp, ← hstart, hkey.2]
    · rw [not_or] at hline
      have hr' : d.records.find k = some r := by
        rw [← haccrued.others k hline.1 hline.2]
        exact hr
      rcases hcase with ⟨hcounts, rfl⟩ | ⟨_, rfl⟩
      · obtain ⟨hcontract, _⟩ := counts_iff.mp hcounts
        have hmonth : k.hourStart = monthMs month := hstart.trans (Option.some.inj hp).symm
        rcases key_cases hmanaged (hid.trans hcontract) hmonth with hk | hk
        · exact absurd hk hline.1
        · exact absurd hk hline.2
      · exact h.agreed id w' p hw hp k r hr' hmanaged hid hstart
  · intro a ha e he
    rcases List.mem_cons.mp ha with rfl | ha
    · obtain ⟨w, hw, hcounts, _⟩ := mem_countedLogs.mp he
      exact ⟨_, find_stamp_of_find hw, by rw [if_pos hcounts]⟩
    · obtain ⟨w, hw, hp⟩ := h.accrued a ha e he
      refine ⟨_, find_stamp_of_find hw, ?_⟩
      split_ifs with hcounts
      · obtain ⟨_, _, _, _, _, hnone | hsame⟩ := counts_iff.mp hcounts
        · rw [hp] at hnone
          cases hnone
        · rw [hp] at hsame
          exact hsame.symm
      · exact hp
  · intro e he
    obtain ⟨w, hw, hinv⟩ := h.links e he
    refine ⟨_, find_stamp_of_find hw, ?_⟩
    split_ifs <;> exact hinv

end

theorem Sound.accrueContract (h : Sound d) (c : Contract) (month : ℕ) :
    Sound (accrueContract d c month) := by
  rcases accrueContract_cases d c month with heq | ⟨hopen, records, haccrued, heq⟩
  · rw [heq]
    exact h
  · rw [heq]
    exact h.stamp hopen haccrued

/-! ## The invoice run -/

theorem linkable_iff {line : ℕ × ℕ} : linkable line w = true ↔
    w.contractId = line.1 ∧ w.billedPeriod = some line.2 ∧ w.billedInvoiceId = none := by
  simp [linkable]

section
variable {invoiceId : ℕ} {line : ℕ × ℕ}

/-- A line of the invoice for a contract and month. -/
def HasLine (records : Records) (invoiceId : ℕ) (line : ℕ × ℕ) : Prop :=
  ∃ k r, records.find k = some r ∧ isManaged k.resourceType ∧ k.resourceId = line.1 ∧
    k.hourStart = line.2 ∧ r.invoiceId = some invoiceId

theorem find_linkLine (hw' : (linkLine invoiceId d line).logs.find id = some w') :
    ∃ w, d.logs.find id = some w ∧
      (linkable line w = true ∧ w' = { w with billedInvoiceId := some invoiceId } ∨
        linkable line w = false ∧ w' = w) := by
  simp only [linkLine, Desk.updateMany, Table.find_amend, Option.map_eq_some_iff] at hw'
  obtain ⟨w, hw, heq⟩ := hw'
  refine ⟨w, hw, ?_⟩
  split_ifs at heq with hlink
  · exact .inl ⟨hlink, heq.symm⟩
  · exact .inr ⟨by simpa using hlink, heq.symm⟩

theorem find_linkLine_of_find (hw : d.logs.find id = some w) :
    (linkLine invoiceId d line).logs.find id =
      some (if linkable line w then { w with billedInvoiceId := some invoiceId } else w) := by
  simp only [linkLine, Desk.updateMany, Table.find_amend, hw, Option.map_some]

theorem Sound.linkLine (h : Sound d) (hline : HasLine d.records invoiceId line) :
    Sound (linkLine invoiceId d line) := by
  constructor
  · intro id w' hw'
    obtain ⟨w, hw, _⟩ := find_linkLine hw'
    exact h.ids id w hw
  · intro id w' p hw' hp
    obtain ⟨w, hw, ⟨_, rfl⟩ | ⟨_, rfl⟩⟩ := find_linkLine hw'
    · exact h.stamped id w p hw hp
    · exact h.stamped id w' p hw hp
  · intro id w' inv hw' hinv
    obtain ⟨w, hw, ⟨hlink, rfl⟩ | ⟨_, rfl⟩⟩ := find_linkLine hw'
    · obtain ⟨hcontract, hp, _⟩ := linkable_iff.mp hlink
      obtain ⟨k, r, hr, hmanaged, hid, hstart, hr'⟩ := hline
      cases hinv
      exact ⟨line.2, hp, k, r, hr, hmanaged, hid.trans hcontract.symm, hstart, hr'⟩
    · exact h.linked id w' inv hw hinv
  · intro id w' p hw' hp
    obtain ⟨w, hw, ⟨_, rfl⟩ | ⟨_, rfl⟩⟩ := find_linkLine hw'
    · exact h.agreed id w p hw hp
    · exact h.agreed id w' p hw hp
  · intro a ha e he
    obtain ⟨w, hw, hp⟩ := h.accrued a ha e he
    refine ⟨_, find_linkLine_of_find hw, ?_⟩
    split_ifs <;> exact hp
  · intro e he
    rcases List.mem_append.mp he with hnew | hold
    · obtain ⟨⟨id, w⟩, hmem, rfl⟩ := List.mem_map.mp hnew
      obtain ⟨hrow, hlink⟩ := List.mem_filter.mp hmem
      exact ⟨_, find_linkLine_of_find (Table.find_of_mem hrow), by rw [if_pos hlink]⟩
    · obtain ⟨w, hw, hinv⟩ := h.links e hold
      refine ⟨_, find_linkLine_of_find hw, ?_⟩
      split_ifs with hlink
      · obtain ⟨_, _, hnone⟩ := linkable_iff.mp hlink
        rw [hinv] at hnone
        cases hnone
      · exact hinv

theorem Sound.linkLines (h : Sound d) {seen lines : List (ℕ × ℕ)}
    (hlines : ∀ line ∈ lines, HasLine d.records invoiceId line) :
    Sound (linkLines invoiceId d seen lines) := by
  induction lines generalizing d seen with
  | nil => exact h
  | cons line lines ih =>
    have hrest : ∀ l ∈ lines, HasLine d.records invoiceId l :=
      fun l hl => hlines l (List.mem_cons_of_mem line hl)
    rw [WorkLogs.linkLines]
    split_ifs
    · exact ih h hrest
    · exact ih (h.linkLine (hlines line (by simp))) hrest

theorem Sound.linkManagedWorkLogs (h : Sound d) (invoiceId : ℕ) :
    Sound (linkManagedWorkLogs d invoiceId) := by
  apply h.linkLines
  intro line hline
  obtain ⟨⟨k, r⟩, hmem, rfl⟩ := List.mem_map.mp hline
  obtain ⟨hrow, hfilter⟩ := List.mem_filter.mp hmem
  simp only [Bool.decide_and, Bool.and_eq_true, decide_eq_true_eq] at hfilter
  exact ⟨k, r, Table.find_of_mem hrow, hfilter.1, rfl, rfl, hfilter.2⟩

end

/-- Records that gain an invoice keep their lines and what they were computed from. -/
theorem Sound.withRecords (h : Sound d) {records : Records} {invoices : List (ℕ × ℕ)}
    (hkept : ∀ k r, d.records.find k = some r → isManaged k.resourceType →
      ∀ i, r.invoiceId = some i → ∃ r', records.find k = some r' ∧ r'.invoiceId = some i)
    (hcounted : ∀ k r', records.find k = some r' → isManaged k.resourceType →
      ∃ r, d.records.find k = some r ∧ r.counted = r'.counted) :
    Sound { d with records := records, invoices := invoices } := by
  constructor
  · exact h.ids
  · exact h.stamped
  · intro id w invoiceId hw hinv
    obtain ⟨p, hp, k, r, hr, hmanaged, hid, hstart, hline⟩ := h.linked id w invoiceId hw hinv
    obtain ⟨r', hr', hline'⟩ := hkept k r hr hmanaged invoiceId hline
    exact ⟨p, hp, k, r', hr', hmanaged, hid, hstart, hline'⟩
  · intro id w p hw hp k r' hr' hmanaged hid hstart
    obtain ⟨r, hr, heq⟩ := hcounted k r' hr' hmanaged
    rw [← heq]
    exact h.agreed id w p hw hp k r hr hmanaged hid hstart
  · exact h.accrued
  · exact h.links

theorem Sound.issueForTeam (h : Sound d) (team : Team) (month : ℕ) :
    Sound (issueForTeam d team month) := by
  unfold WorkLogs.issueForTeam
  split_ifs
  · exact h
  · exact h
  · apply Sound.linkManagedWorkLogs
    apply h.withRecords
    · intro k r hr hmanaged i hi
      have hbilled : unbilled team month k r = false := by simp [unbilled, hi]
      refine ⟨r, ?_, hi⟩
      simp [Table.find_amend, hr, hbilled]
    · intro k r' hr' hmanaged
      rw [Table.find_amend, Option.map_eq_some_iff] at hr'
      obtain ⟨r, hr, rfl⟩ := hr'
      refine ⟨r, hr, ?_⟩
      split_ifs <;> rfl

theorem Sound.rate (h : Sound d) (resourceId hourStart : ℕ) (r : UsageRecord) :
    Sound { d with records := d.records.put ⟨.metered, resourceId, hourStart⟩ r } := by
  have hother : ∀ k : RecordKey, isManaged k.resourceType →
      (d.records.put ⟨.metered, resourceId, hourStart⟩ r).find k = d.records.find k := by
    intro k hmanaged
    apply Table.find_put_of_ne
    rintro rfl
    cases hmanaged
  apply h.withRecords
  · intro k r hr hmanaged i hi
    exact ⟨r, (hother k hmanaged).trans hr, hi⟩
  · intro k r' hr' hmanaged
    rw [hother k hmanaged] at hr'
    exact ⟨r', hr', rfl⟩

/-! ## Every run -/

theorem Sound.empty : Sound Desk.empty := by
  constructor <;> simp [Desk.empty]

theorem Sound.step (h : Sound d) (a : Act) : Sound (step d a) := by
  cases a with
  | create actor dto contract now => exact (h.create actor dto contract now).attempt h
  | update actor id dto now => exact (h.update actor id dto now).attempt h
  | remove actor id => exact (h.remove actor id).attempt h
  | stopTimer contractId userId startedAt stoppedAt billable =>
    apply h.insert
    · rfl
    · rfl
  | createManual userId dto now => exact (h.createManual userId dto now).attempt h
  | updateEntry ops id dto => exact (h.updateEntry ops id dto).attempt h
  | deleteEntry ops id => exact (h.deleteEntry ops id).attempt h
  | submit ops r => exact (h.submit ops r).attempt h
  | review actor engineerUserId dto => exact (h.review actor engineerUserId dto).attempt h
  | payPayout workLogIds => exact h.payPayout workLogIds
  | rate resourceId hourStart r => exact h.rate resourceId hourStart r
  | accrueContract c month => exact h.accrueContract c month
  | issueForTeam team month => exact h.issueForTeam team month

/-- No worklog is counted for two months or linked to two invoices, and what is
linked was counted, with the minutes it has, for the lines of its invoice. -/
structure BilledOnce (d : Desk) : Prop where
  one_month : ∀ a ∈ d.accruals, ∀ b ∈ d.accruals, ∀ e ∈ a.counted, ∀ f ∈ b.counted, e.1 = f.1 →
    a.period = b.period
  one_invoice : ∀ e ∈ d.links, ∀ f ∈ d.links, e.1 = f.1 → e.2 = f.2
  linked_counted : ∀ e ∈ d.links, ∃ w p, d.logs.find e.1 = some w ∧ w.billedPeriod = some p ∧
    HasLine d.records e.2 (w.contractId, p) ∧
    ∀ k r, d.records.find k = some r → isManaged k.resourceType → k.resourceId = w.contractId →
      k.hourStart = p → (e.1, w.minutes) ∈ r.counted

theorem Sound.billedOnce (h : Sound d) : BilledOnce d := by
  constructor
  · intro a ha b hb e he f hf hid
    obtain ⟨w, hw, hp⟩ := h.accrued a ha e he
    obtain ⟨v, hv, hq⟩ := h.accrued b hb f hf
    rw [← hid, hw] at hv
    cases hv
    rw [hp] at hq
    exact Option.some.inj hq
  · intro e he f hf hid
    obtain ⟨w, hw, hinv⟩ := h.links e he
    obtain ⟨v, hv, hinv'⟩ := h.links f hf
    rw [← hid, hw] at hv
    cases hv
    rw [hinv] at hinv'
    exact Option.some.inj hinv'
  · intro e he
    obtain ⟨w, hw, hinv⟩ := h.links e he
    obtain ⟨p, hp, hline⟩ := h.linked e.1 w e.2 hw hinv
    exact ⟨w, p, hw, hp, hline, h.agreed e.1 w p hw hp⟩

/-- Each worklog is billed at most once, for what was counted, in every run. -/
theorem worklogs_billed_once (acts : List Act) : BilledOnce (run step Desk.empty acts) :=
  (run_invariant (fun _ a h => h.step a) Sound.empty acts).billedOnce

end Prgd.WorkLogs
