import Prgd.Interleaving
import Prgd.Table
import Mathlib.Data.List.Count

/-!
# Delivery of webhooks

A run of `deliverPending` takes the lock of its job for nine seconds, reads up to fifty deliveries
that are due, and for each of them makes a request and then writes what came of it. A request may
take ten seconds, so a run can outlive its lock. The database answers the read in any order, and
the other end of a request may answer anything. Times are in milliseconds.

The write sets the outcome of this attempt, whatever the row says by then. Where no run reads a
delivery that another run has read and not written yet, a delivery that was delivered stays so, and
it is tried eight times at most.
-/
namespace Prgd.Webhooks
open Interleaving

structure Delivery where
  webhookId : String
  event : String
  attempts : ℕ := 0
  lastStatus : Option ℕ := none
  deliveredAt : Option ℕ := none
  nextAttemptAt : Option ℕ
  deriving DecidableEq

structure Shared where
  now : ℕ := 0
  /-- The holder of the lock, and when it expires. -/
  lock : Option (ℕ × ℕ) := none
  deliveries : Table ℕ Delivery := .empty
  nextId : ℕ := 0
  /-- Not stored: the deliveries that were tried. -/
  posted : List ℕ := []
  /-- Not stored: the deliveries whose `deliveredAt` was stored. -/
  stored : List ℕ := []
  /-- Not stored: the deliveries that a run has read after that. -/
  again : List ℕ := []

/-- Where a run stands; `due` is what it still has to try. -/
inductive Pc where
  | idle
  | selecting
  | sending (due : List (ℕ × Delivery))
  | writing (id : ℕ) (d : Delivery) (status : ℕ) (due : List (ℕ × Delivery))
  | releasing
  | done
  deriving DecidableEq

inductive Act where
  | lock
  /-- The rows that `findMany` returns. -/
  | select (ids : List ℕ)
  /-- The status of the answer, and 0 when the request fails. -/
  | post (status : ℕ)
  | update
  | release
  /-- The run throws. -/
  | throws
  /-- The process of the run stops. -/
  | stop
  | pass (ms : ℕ)
  | emit (event : String) (webhooks : List String)
  | deleteWebhook (webhookId : String)
  deriving DecidableEq

def LOCK_TTL : ℕ := 9000

def BATCH : ℕ := 50

def Delivery.due (d : Delivery) (now : ℕ) : Bool :=
  d.deliveredAt.isNone && d.nextAttemptAt.any (fun t => decide (t ≤ now)) && decide (d.attempts < 8)

namespace Shared

def rowDue (s : Shared) (id : ℕ) : Bool := (s.deliveries.find id).any fun d => d.due s.now

/-- `findMany` may return these rows: at most `BATCH` that are due, and all of them if there are
fewer. -/
def Selects (s : Shared) (ids : List ℕ) : Prop :=
  ids.Nodup ∧ (∀ id ∈ ids, s.rowDue id = true) ∧ ids.length ≤ BATCH ∧
    (ids.length = BATCH ∨ ∀ e ∈ s.deliveries.rows, s.rowDue e.1 = true → e.1 ∈ ids)

instance (s : Shared) (ids : List ℕ) : Decidable (s.Selects ids) :=
  inferInstanceAs (Decidable (_ ∧ _ ∧ _ ∧ _))

def read (s : Shared) (ids : List ℕ) : List (ℕ × Delivery) :=
  ids.filterMap fun id => (s.deliveries.find id).map fun d => (id, d)

def ok (status : ℕ) : Bool := decide (200 ≤ status ∧ status < 300)

/-- The outcome of an attempt; `d` is the row as the run has read it. -/
def outcome (now : ℕ) (d : Delivery) (status : ℕ) (row : Delivery) : Delivery :=
  { row with
    attempts := row.attempts + 1
    lastStatus := some status
    deliveredAt := if ok status then some now else none
    nextAttemptAt :=
      if ok status then none else some (now + min (2 ^ d.attempts * 30000) (6 * 3600000)) }

def write (s : Shared) (id : ℕ) (d : Delivery) (status : ℕ) : Shared :=
  { s with
    deliveries := s.deliveries.modify id (outcome s.now d status)
    stored := if ok status then id :: s.stored else s.stored }

def create (event : String) (s : Shared) (webhookId : String) : Shared :=
  { s with
    deliveries := s.deliveries.put s.nextId
      { webhookId := webhookId, event := event, nextAttemptAt := some s.now }
    nextId := s.nextId + 1 }

end Shared

def proceed : List (ℕ × Delivery) → Pc
  | [] => .releasing
  | due => .sending due

def trans (i : ℕ) (s : Shared) (a : Act) (pc : Pc) : Option (Shared × Pc) :=
  match a, pc with
  | .lock, .idle =>
      if s.lock.all fun l => decide (l.2 ≤ s.now) then
        some ({ s with lock := some (i, s.now + LOCK_TTL) }, .selecting)
      else some (s, .done)
  | .select ids, .selecting =>
      if s.Selects ids then
        some ({ s with again := ids.filter (fun id => id ∈ s.stored) ++ s.again }, proceed (s.read ids))
      else none
  | .post status, .sending ((id, d) :: due) =>
      some ({ s with posted := id :: s.posted }, .writing id d status due)
  | .update, .writing id d status due =>
      if (s.deliveries.find id).isSome then some (s.write id d status, proceed due)
      else some (s, .releasing)
  | .release, .releasing =>
      some ({ s with lock := s.lock.filter fun l => decide (l.1 ≠ i) }, .done)
  | .throws, .selecting | .throws, .sending _ | .throws, .writing _ _ _ _ => some (s, .releasing)
  | .stop, _ => some (s, .done)
  | .pass ms, pc => some ({ s with now := s.now + ms }, pc)
  | .emit event webhooks, pc => some (webhooks.foldl (Shared.create event) s, pc)
  | .deleteWebhook webhookId, pc =>
      some ({ s with deliveries := s.deliveries.filter fun _ d => decide (d.webhookId ≠ webhookId) }, pc)
  | _, _ => none

abbrev step : World Shared Pc → ℕ × Act → World Shared Pc := callerStep trans

def start : World Shared Pc := ⟨{}, fun _ => .idle⟩

/-- What was delivered stays delivered and is not read again, and nothing is tried nine times. -/
structure Settled (s : Shared) : Prop where
  kept : ∀ id ∈ s.stored, ∀ row, s.deliveries.find id = some row → row.deliveredAt.isSome
  once : s.again = []
  tries : ∀ id, s.posted.count id ≤ 8

/-! ## What a run holds -/

/-- The deliveries that a run has read and not written yet. -/
def held : Pc → List ℕ
  | .sending due => due.map Prod.fst
  | .writing id _ _ due => id :: due.map Prod.fst
  | _ => []

/-- A run reads no delivery that another run holds, and does not end between a request and its
write. -/
def Alone (w : World Shared Pc) (a : ℕ × Act) : Prop :=
  (∀ ids, a.2 = .select ids → w.pc a.1 = .selecting → w.shared.Selects ids →
    ∀ id ∈ ids, ∀ q, id ∉ held (w.pc q)) ∧
  (a.2 = .throws ∨ a.2 = .stop → ∀ id d status due, w.pc a.1 ≠ .writing id d status due)

/-- The row was tried `tries` times more than the run has read, and was not delivered. -/
structure Pending (s : Shared) (tries : ℕ) (e : ℕ × Delivery) : Prop where
  count : s.posted.count e.1 = e.2.attempts + tries
  few : e.2.attempts < 8
  undelivered : e.1 ∉ s.stored
  row : ∀ row, s.deliveries.find e.1 = some row → row.attempts = e.2.attempts
  known : e.1 < s.nextId

def Holds (s : Shared) : Pc → Prop
  | .sending due => (due.map Prod.fst).Nodup ∧ ∀ e ∈ due, Pending s 0 e
  | .writing id d _ due =>
      (id :: due.map Prod.fst).Nodup ∧ Pending s 1 (id, d) ∧ ∀ e ∈ due, Pending s 0 e
  | _ => True

structure Sound (w : World Shared Pc) : Prop where
  holds : ∀ q, Holds w.shared (w.pc q)
  apart : ∀ q r, q ≠ r → ∀ id ∈ held (w.pc q), id ∉ held (w.pc r)
  free : ∀ id row, w.shared.deliveries.find id = some row → (∀ q, id ∉ held (w.pc q)) →
    row.attempts = w.shared.posted.count id
  rows : ∀ id row, w.shared.deliveries.find id = some row → id < w.shared.nextId
  posted : ∀ id ∈ w.shared.posted, id < w.shared.nextId
  stored : ∀ id ∈ w.shared.stored, id < w.shared.nextId
  settled : Settled w.shared

/-- Nothing was done to a delivery, unless its row is gone. -/
structure Keeps (s s' : Shared) (id : ℕ) : Prop where
  row : ∀ row, s'.deliveries.find id = some row → s.deliveries.find id = some row
  count : s'.posted.count id = s.posted.count id
  stored : id ∈ s'.stored ↔ id ∈ s.stored

section
variable {w : World Shared Pc} {s s' : Shared} {pc pc' : Pc} {i : ℕ} {a : ℕ × Act}

theorem keeps_refl (s : Shared) (id : ℕ) : Keeps s s id := ⟨fun _ h => h, rfl, Iff.rfl⟩

theorem Pending.keep {tries : ℕ} {e : ℕ × Delivery} (h : Pending s tries e) (hk : Keeps s s' e.1)
    (hnext : s.nextId ≤ s'.nextId) : Pending s' tries e :=
  ⟨hk.count.trans h.count, h.few, fun hmem => h.undelivered (hk.stored.mp hmem),
    fun row hrow => h.row row (hk.row row hrow), h.known.trans_le hnext⟩

theorem Holds.keep (h : Holds s pc) (hk : ∀ id ∈ held pc, Keeps s s' id)
    (hnext : s.nextId ≤ s'.nextId) : Holds s' pc := by
  cases pc with
  | sending due =>
    exact ⟨h.1, fun e he => (h.2 e he).keep (hk e.1 (List.mem_map_of_mem he)) hnext⟩
  | writing id d status due =>
    refine ⟨h.1, h.2.1.keep (hk id List.mem_cons_self) hnext, fun e he => ?_⟩
    exact (h.2.2 e he).keep (hk e.1 (List.mem_cons_of_mem _ (List.mem_map_of_mem he))) hnext
  | idle => trivial
  | selecting => trivial
  | releasing => trivial
  | done => trivial

theorem Holds.known (h : Holds s pc) {id : ℕ} (hid : id ∈ held pc) : id < s.nextId := by
  cases pc with
  | sending due =>
    obtain ⟨e, he, rfl⟩ := List.mem_map.mp hid
    exact (h.2 e he).known
  | writing id' d status due =>
    rcases List.mem_cons.mp hid with rfl | hid
    · exact h.2.1.known
    · obtain ⟨e, he, rfl⟩ := List.mem_map.mp hid
      exact (h.2.2 e he).known
  | idle => cases hid
  | selecting => cases hid
  | releasing => cases hid
  | done => cases hid

/-- One run moves, and touches nothing but what it holds. What it holds now nobody else holds, and
what it let go agrees with the attempts that were made. -/
theorem Sound.move (h : Sound w) (hnext : s'.nextId = w.shared.nextId)
    (hkeep : ∀ id, id ∉ held (w.pc i) → Keeps w.shared s' id) (hholds : Holds s' pc')
    (hheld : ∀ id ∈ held pc', id ∈ held (w.pc i) ∨ ∀ q, id ∉ held (w.pc q))
    (hfree : ∀ id ∈ held (w.pc i), id ∉ held pc' → ∀ row, s'.deliveries.find id = some row →
      row.attempts = s'.posted.count id)
    (hsettled : Settled s') : Sound ⟨s', Function.update w.pc i pc'⟩ := by
  have hmine : ∀ id, w.shared.nextId ≤ id → id ∉ held (w.pc i) := fun id hle hid =>
    absurd ((h.holds i).known hid) (not_lt.mpr hle)
  have hothers : ∀ q, q ≠ i → ∀ id ∈ held pc', id ∉ held (w.pc q) := by
    intro q hq id hid
    rcases hheld id hid with hown | hnone
    · exact h.apart i q hq.symm id hown
    · exact hnone q
  refine ⟨?_, ?_, ?_, ?_, ?_, ?_, hsettled⟩
  · refine update_cases (P := fun _ pc => Holds s' pc) hholds fun q hq => ?_
    refine (h.holds q).keep (fun id hid => hkeep id ?_) hnext.ge
    exact h.apart q i hq id hid
  · intro q r hqr id hid hidr
    dsimp only at hid hidr
    by_cases hq : q = i
    · subst hq
      rw [Function.update_self] at hid
      rw [Function.update_of_ne hqr.symm] at hidr
      exact hothers r hqr.symm id hid hidr
    · rw [Function.update_of_ne hq] at hid
      by_cases hr : r = i
      · subst hr
        rw [Function.update_self] at hidr
        exact hothers q hq id hidr hid
      · rw [Function.update_of_ne hr] at hidr
        exact h.apart q r hqr id hid hidr
  · intro id row hrow hnone
    have hnew : id ∉ held pc' := by
      have := hnone i
      dsimp only at this
      rwa [Function.update_self] at this
    by_cases hold : id ∈ held (w.pc i)
    · exact hfree id hold hnew row hrow
    · have hk := hkeep id hold
      refine (h.free id row (hk.row row hrow) fun q => ?_).trans hk.count.symm
      by_cases hq : q = i
      · exact hq ▸ hold
      · have := hnone q
        dsimp only at this
        rwa [Function.update_of_ne hq] at this
  · intro id row hrow
    rw [hnext]
    by_contra hle
    have hk := hkeep id (hmine id (not_lt.mp hle))
    exact hle (h.rows id row (hk.row row hrow))
  · intro id hid
    rw [hnext]
    by_contra hle
    have hk := hkeep id (hmine id (not_lt.mp hle))
    have hpos := List.count_pos_iff.mpr hid
    rw [hk.count] at hpos
    exact hle (h.posted id (List.count_pos_iff.mp hpos))
  · intro id hid
    rw [hnext]
    by_contra hle
    have hk := hkeep id (hmine id (not_lt.mp hle))
    exact hle (h.stored id (hk.stored.mp hid))

/-- A run that lets go of deliveries it has not tried. -/
theorem Pending.attempts {e : ℕ × Delivery} (h : Pending s 0 e) {row : Delivery}
    (hrow : s.deliveries.find e.1 = some row) : row.attempts = s.posted.count e.1 := by
  rw [h.row row hrow, h.count]
  rfl

theorem held_proceed (due : List (ℕ × Delivery)) : held (proceed due) = due.map Prod.fst := by
  cases due <;> rfl

theorem holds_proceed {due : List (ℕ × Delivery)} (hnodup : (due.map Prod.fst).Nodup)
    (h : ∀ e ∈ due, Pending s 0 e) : Holds s (proceed due) := by
  cases due with
  | nil => trivial
  | cons e due => exact ⟨hnodup, h⟩

theorem Settled.keep (h : Settled s) (hkeep : ∀ id, Keeps s s' id) (hagain : s'.again = s.again) :
    Settled s' := by
  refine ⟨fun id hid row hrow => ?_, hagain.trans h.once, fun id => ?_⟩
  · exact h.kept id ((hkeep id).stored.mp hid) row ((hkeep id).row row hrow)
  · rw [(hkeep id).count]
    exact h.tries id

/-- A run that is not between a request and its write may give up what it holds. -/
theorem Holds.attempts (h : Holds s pc) (hpc : ∀ id d status due, pc ≠ .writing id d status due)
    {id : ℕ} (hid : id ∈ held pc) {row : Delivery} (hrow : s.deliveries.find id = some row) :
    row.attempts = s.posted.count id := by
  cases pc with
  | sending due =>
    obtain ⟨e, he, rfl⟩ := List.mem_map.mp hid
    exact (h.2 e he).attempts hrow
  | writing id' d status due => exact (hpc id' d status due rfl).elim
  | idle => cases hid
  | selecting => cases hid
  | releasing => cases hid
  | done => cases hid

/-- A step that touches no delivery. -/
theorem Sound.rest (h : Sound w) (hkeep : ∀ id, Keeps w.shared s' id)
    (hnext : s'.nextId = w.shared.nextId) (hagain : s'.again = w.shared.again)
    (hpc : pc' = w.pc i ∨ held pc' = [] ∧ Holds s' pc' ∧
      ∀ id d status due, w.pc i ≠ .writing id d status due) :
    Sound ⟨s', Function.update w.pc i pc'⟩ := by
  have hsettled := h.settled.keep hkeep hagain
  rcases hpc with rfl | ⟨hnone, hholds, hpc⟩
  · refine h.move hnext (fun id _ => hkeep id) ?_ (fun id hid => .inl hid) ?_ hsettled
    · exact (h.holds i).keep (fun id _ => hkeep id) hnext.ge
    · exact fun id hid hnot => (hnot hid).elim
  · refine h.move hnext (fun id _ => hkeep id) hholds (by simp [hnone]) ?_ hsettled
    intro id hid _ row hrow
    rw [(hkeep id).count]
    exact (h.holds i).attempts hpc hid ((hkeep id).row row hrow)

theorem mem_read {ids : List ℕ} {e : ℕ × Delivery} (he : e ∈ s.read ids) :
    e.1 ∈ ids ∧ s.deliveries.find e.1 = some e.2 := by
  obtain ⟨id, hid, hrow⟩ := List.mem_filterMap.mp he
  obtain ⟨d, hd, rfl⟩ := Option.map_eq_some_iff.mp hrow
  exact ⟨hid, hd⟩

theorem read_ids (ids : List ℕ) : ((s.read ids).map Prod.fst).Sublist ids := by
  induction ids with
  | nil => exact List.Sublist.refl _
  | cons id ids ih =>
    unfold Shared.read at ih ⊢
    rw [List.filterMap_cons]
    cases hrow : s.deliveries.find id with
    | none => exact ih.cons id
    | some d => exact ih.cons_cons id

theorem sound_select (h : Sound w) {ids : List ℕ} (hids : w.shared.Selects ids)
    (hpc : w.pc i = .selecting) (halone : ∀ id ∈ ids, ∀ q, id ∉ held (w.pc q)) :
    Sound ⟨{ w.shared with again := ids.filter (fun id => id ∈ w.shared.stored) ++ w.shared.again },
      Function.update w.pc i (proceed (w.shared.read ids))⟩ := by
  have hopen : ∀ id ∈ ids, ∃ row, w.shared.deliveries.find id = some row ∧ row.attempts < 8 ∧
      id ∉ w.shared.stored := by
    intro id hid
    obtain ⟨row, hrow, hdue⟩ := (Option.any_eq_true _ _).mp (hids.2.1 id hid)
    rw [Delivery.due, Bool.and_eq_true, Bool.and_eq_true] at hdue
    obtain ⟨⟨hopen, -⟩, hfew⟩ := hdue
    refine ⟨row, hrow, of_decide_eq_true hfew, fun hstored => ?_⟩
    have hsome := h.settled.kept id hstored row hrow
    rw [Option.isNone_iff_eq_none.mp hopen] at hsome
    cases hsome
  have hpending : ∀ e ∈ w.shared.read ids, Pending w.shared 0 e := by
    intro e he
    obtain ⟨hid, hrow⟩ := mem_read he
    obtain ⟨row, hrow', hfew, hstored⟩ := hopen e.1 hid
    rw [hrow] at hrow'
    cases hrow'
    refine ⟨(h.free e.1 e.2 hrow (halone e.1 hid)).symm, hfew, hstored, fun row hrow' => ?_,
      h.rows e.1 e.2 hrow⟩
    rw [hrow] at hrow'
    cases hrow'
    rfl
  have hnone : ids.filter (fun id => id ∈ w.shared.stored) = [] := by
    refine List.filter_eq_nil_iff.mpr fun id hid => ?_
    obtain ⟨-, -, -, hstored⟩ := hopen id hid
    simpa using hstored
  refine h.move rfl (fun id _ => ⟨fun _ hrow => hrow, rfl, Iff.rfl⟩) ?_ ?_ ?_ ?_
  · refine holds_proceed (hids.1.sublist (read_ids ids)) fun e he => ?_
    exact (hpending e he).keep ⟨fun _ hrow => hrow, rfl, Iff.rfl⟩ le_rfl
  · intro id hid
    rw [held_proceed] at hid
    exact .inr (halone id ((read_ids ids).subset hid))
  · intro id hid
    rw [hpc] at hid
    cases hid
  · refine h.settled.keep (fun id => ⟨fun _ hrow => hrow, rfl, Iff.rfl⟩) ?_
    simp only [hnone, List.nil_append]

theorem sound_post (h : Sound w) {id status : ℕ} {d : Delivery} {due : List (ℕ × Delivery)}
    (hpc : w.pc i = .sending ((id, d) :: due)) :
    Sound ⟨{ w.shared with posted := id :: w.shared.posted },
      Function.update w.pc i (.writing id d status due)⟩ := by
  have hholds : Holds w.shared (.sending ((id, d) :: due)) := hpc ▸ h.holds i
  have hheld : held (w.pc i) = id :: due.map Prod.fst := by rw [hpc]; rfl
  have hfirst : Pending w.shared 0 (id, d) := hholds.2 _ List.mem_cons_self
  have hcount : (id :: w.shared.posted).count id = d.attempts + 1 := by
    rw [List.count_cons_self, hfirst.count]
  have hkeep : ∀ id', id' ≠ id →
      Keeps w.shared { w.shared with posted := id :: w.shared.posted } id' := fun id' hne =>
    ⟨fun _ hrow => hrow, List.count_cons_of_ne hne.symm, Iff.rfl⟩
  refine h.move rfl (fun id' hid' => hkeep id' ?_) ?_ (fun id' hid' => .inl (hheld ▸ hid')) ?_ ?_
  · rintro rfl
    exact hid' (hheld ▸ List.mem_cons_self)
  · refine ⟨hholds.1, ⟨hcount, hfirst.few, hfirst.undelivered, hfirst.row, hfirst.known⟩, ?_⟩
    intro e he
    have hne : e.1 ≠ id := fun heq =>
      (List.nodup_cons.mp hholds.1).1 (List.mem_map.mpr ⟨e, he, heq⟩)
    exact (hholds.2 e (List.mem_cons_of_mem _ he)).keep (hkeep e.1 hne) le_rfl
  · intro id' hid' hnot
    rw [hheld] at hid'
    exact (hnot hid').elim
  · refine ⟨h.settled.kept, h.settled.once, fun id' => ?_⟩
    by_cases hid : id' = id
    · subst hid
      have hfew := hfirst.few
      simp only at hfew ⊢
      omega
    · rw [(hkeep id' hid).count]
      exact h.settled.tries id'

theorem sound_write (h : Sound w) {id status : ℕ} {d row : Delivery} {due : List (ℕ × Delivery)}
    (hpc : w.pc i = .writing id d status due) (hrow : w.shared.deliveries.find id = some row) :
    Sound ⟨w.shared.write id d status, Function.update w.pc i (proceed due)⟩ := by
  have hholds : Holds w.shared (.writing id d status due) := hpc ▸ h.holds i
  obtain ⟨hnodup, hfirst, hrest⟩ := hholds
  have hheld : held (w.pc i) = id :: due.map Prod.fst := by rw [hpc]; rfl
  have hkeep : ∀ id', id' ≠ id → Keeps w.shared (w.shared.write id d status) id' := by
    intro id' hne
    refine ⟨fun row' hrow' => ?_, rfl, ?_⟩
    · rwa [Shared.write, Table.find_modify, if_neg hne] at hrow'
    · unfold Shared.write
      split_ifs
      · simp [hne]
      · rfl
  have hfind : (w.shared.write id d status).deliveries.find id =
      some (Shared.outcome w.shared.now d status row) := by
    rw [Shared.write, Table.find_modify, if_pos rfl, hrow]
    rfl
  have hdue : ∀ e ∈ due, e.1 ≠ id := by
    rintro e he rfl
    exact (List.nodup_cons.mp hnodup).1 (List.mem_map_of_mem he)
  refine h.move rfl (fun id' hid' => hkeep id' ?_) ?_ ?_ ?_ ?_
  · rintro rfl
    exact hid' (hheld ▸ List.mem_cons_self)
  · refine holds_proceed (List.nodup_cons.mp hnodup).2 fun e he => ?_
    exact (hrest e he).keep (hkeep e.1 (hdue e he)) le_rfl
  · intro id' hid'
    rw [held_proceed] at hid'
    exact .inl (hheld ▸ List.mem_cons_of_mem _ hid')
  · intro id' hid' hnot row' hrow'
    rw [held_proceed] at hnot
    rw [hheld] at hid'
    have hid : id' = id := (List.mem_cons.mp hid').resolve_right hnot
    subst hid
    rw [hfind] at hrow'
    cases hrow'
    have hattempts := hfirst.row row hrow
    have hcount := hfirst.count
    simp only at hattempts hcount
    simp only [Shared.outcome, Shared.write]
    omega
  · refine ⟨fun id' hid' row' hrow' => ?_, h.settled.once, h.settled.tries⟩
    by_cases hid : id' = id
    · subst hid
      rw [hfind] at hrow'
      cases hrow'
      have hok : Shared.ok status = true := by
        by_contra hfail
        rw [Shared.write, if_neg hfail] at hid'
        exact hfirst.undelivered hid'
      simp [Shared.outcome, hok]
    · exact h.settled.kept id' ((hkeep id' hid).stored.mp hid') row' ((hkeep id' hid).row row' hrow')

/-- The row went with its webhook before the write, and the run throws. -/
theorem sound_missing (h : Sound w) {id status : ℕ} {d : Delivery} {due : List (ℕ × Delivery)}
    (hpc : w.pc i = .writing id d status due) (hrow : w.shared.deliveries.find id = none) :
    Sound ⟨w.shared, Function.update w.pc i .releasing⟩ := by
  have hholds : Holds w.shared (.writing id d status due) := hpc ▸ h.holds i
  refine h.move rfl (fun id' _ => keeps_refl _ id') trivial (fun _ => nofun) ?_ h.settled
  intro id' hid' _ row hrow'
  rw [hpc] at hid'
  rcases List.mem_cons.mp hid' with rfl | hid'
  · rw [hrow] at hrow'
    cases hrow'
  · obtain ⟨e, he, rfl⟩ := List.mem_map.mp hid'
    exact (hholds.2.2 e he).attempts hrow'

theorem sound_create (h : Sound w) (event webhookId : String) :
    Sound ⟨w.shared.create event webhookId, w.pc⟩ := by
  have hkeep : ∀ id, id < w.shared.nextId →
      Keeps w.shared (w.shared.create event webhookId) id := by
    intro id hlt
    refine ⟨fun row hrow => ?_, rfl, Iff.rfl⟩
    rwa [Shared.create, Table.find_put_of_ne _ hlt.ne] at hrow
  have hnew : ∀ row, (w.shared.create event webhookId).deliveries.find w.shared.nextId = some row →
      row.attempts = 0 ∧ row.deliveredAt = none := by
    intro row hrow
    rw [Shared.create, Table.find_put_self] at hrow
    cases hrow
    exact ⟨rfl, rfl⟩
  have hrows : ∀ id row, (w.shared.create event webhookId).deliveries.find id = some row →
      id ≠ w.shared.nextId → id < w.shared.nextId := by
    intro id row hrow hne
    rw [Shared.create, Table.find_put_of_ne _ hne] at hrow
    exact h.rows id row hrow
  have hle : w.shared.nextId ≤ (w.shared.create event webhookId).nextId := Nat.le_succ _
  refine ⟨fun q => ?_, h.apart, ?_, ?_, ?_, ?_, ?_⟩
  · exact (h.holds q).keep (fun id hid => hkeep id ((h.holds q).known hid)) hle
  · intro id row hrow hnone
    by_cases hid : id = w.shared.nextId
    · subst hid
      have hfresh : w.shared.nextId ∉ w.shared.posted := fun hmem =>
        lt_irrefl _ (h.posted _ hmem)
      rw [(hnew row hrow).1]
      exact (List.count_eq_zero_of_not_mem hfresh).symm
    · exact h.free id row ((hkeep id (hrows id row hrow hid)).row row hrow) hnone
  · intro id row hrow
    by_cases hid : id = w.shared.nextId
    · exact hid ▸ Nat.lt_succ_self _
    · exact (hrows id row hrow hid).trans (Nat.lt_succ_self _)
  · exact fun id hid => (h.posted id hid).trans (Nat.lt_succ_self _)
  · exact fun id hid => (h.stored id hid).trans (Nat.lt_succ_self _)
  · refine ⟨fun id hid row hrow => ?_, h.settled.once, h.settled.tries⟩
    exact h.settled.kept id hid row ((hkeep id (h.stored id hid)).row row hrow)

theorem sound_emit (h : Sound w) (event : String) (webhooks : List String) :
    Sound ⟨webhooks.foldl (Shared.create event) w.shared, w.pc⟩ := by
  induction webhooks generalizing w with
  | nil => exact h
  | cons webhookId webhooks ih => exact ih (sound_create h event webhookId)

theorem sound_trans (halone : Alone w a)
    (htrans : trans a.1 w.shared a.2 (w.pc a.1) = some (s', pc')) (h : Sound w) :
    Sound ⟨s', Function.update w.pc a.1 pc'⟩ := by
  obtain ⟨i, act⟩ := a
  obtain ⟨hselect, hends⟩ := halone
  dsimp only at htrans hselect hends ⊢
  have hsame : ∀ s'' : Shared, s''.deliveries = w.shared.deliveries → s''.posted = w.shared.posted →
      s''.stored = w.shared.stored → ∀ id, Keeps w.shared s'' id := by
    intro s'' hrows hposted hstored id
    exact ⟨fun row hrow => hrows ▸ hrow, by rw [hposted], by rw [hstored]⟩
  -- The run ends or waits, with the rows as they were.
  have hrest : ∀ s'' pc'', s''.deliveries = w.shared.deliveries → s''.posted = w.shared.posted →
      s''.stored = w.shared.stored → s''.nextId = w.shared.nextId → s''.again = w.shared.again →
      held pc'' = [] → Holds s'' pc'' →
      (∀ id d status due, w.pc i ≠ .writing id d status due) →
      Sound ⟨s'', Function.update w.pc i pc''⟩ :=
    fun s'' pc'' hrows hposted hstored hnext hagain hnone hholds hpc =>
      h.rest (hsame s'' hrows hposted hstored) hnext hagain (.inr ⟨hnone, hholds, hpc⟩)
  have hquiet : ∀ s'', (∀ id, Keeps w.shared s'' id) → s''.nextId = w.shared.nextId →
      s''.again = w.shared.again → Sound ⟨s'', Function.update w.pc i (w.pc i)⟩ :=
    fun s'' hkeep hnext hagain => h.rest hkeep hnext hagain (.inl rfl)
  cases act with
  | lock =>
    generalize hpc : w.pc i = pc at htrans
    cases pc with
    | idle =>
      simp only [trans] at htrans
      have hplain : ∀ id d status due, w.pc i ≠ .writing id d status due := by
        rw [hpc]
        rintro _ _ _ _ ⟨⟩
      split_ifs at htrans <;> cases htrans
      · exact hrest _ .selecting rfl rfl rfl rfl rfl rfl trivial hplain
      · exact hrest _ .done rfl rfl rfl rfl rfl rfl trivial hplain
    | _ => cases htrans
  | select ids =>
    generalize hpc : w.pc i = pc at htrans
    cases pc with
    | selecting =>
      simp only [trans] at htrans
      split_ifs at htrans with hids
      cases htrans
      exact sound_select h hids hpc (hselect ids rfl hpc hids)
    | _ => cases htrans
  | post status =>
    generalize hpc : w.pc i = pc at htrans
    cases pc with
    | sending due =>
      cases due with
      | nil => cases htrans
      | cons e due =>
        cases htrans
        exact sound_post h hpc
    | _ => cases htrans
  | update =>
    generalize hpc : w.pc i = pc at htrans
    cases pc with
    | writing id d status due =>
      simp only [trans] at htrans
      split_ifs at htrans with hrow <;> cases htrans
      · obtain ⟨row, hrow⟩ := Option.isSome_iff_exists.mp hrow
        exact sound_write h hpc hrow
      · exact sound_missing h hpc (Option.not_isSome_iff_eq_none.mp hrow)
    | _ => cases htrans
  | release =>
    generalize hpc : w.pc i = pc at htrans
    cases pc with
    | releasing =>
      cases htrans
      exact hrest _ .done rfl rfl rfl rfl rfl rfl trivial (by rw [hpc]; rintro _ _ _ _ ⟨⟩)
    | _ => cases htrans
  | throws =>
    have hplain := hends (.inl rfl)
    generalize hpc : w.pc i = pc at htrans
    cases pc with
    | selecting =>
      cases htrans
      exact hrest _ .releasing rfl rfl rfl rfl rfl rfl trivial hplain
    | sending due =>
      cases htrans
      exact hrest _ .releasing rfl rfl rfl rfl rfl rfl trivial hplain
    | writing id d status due => exact (hplain id d status due hpc).elim
    | _ => cases htrans
  | stop =>
    cases htrans
    exact hrest _ .done rfl rfl rfl rfl rfl rfl trivial (hends (.inr rfl))
  | pass ms =>
    cases htrans
    exact hquiet _ (hsame _ rfl rfl rfl) rfl rfl
  | emit event webhooks =>
    cases htrans
    rw [Function.update_eq_self]
    exact sound_emit h event webhooks
  | deleteWebhook webhookId =>
    cases htrans
    refine hquiet _ (fun id => ⟨fun row hrow => ?_, rfl, Iff.rfl⟩) rfl rfl
    exact (Table.find_filter.mp hrow).1

theorem sound_start : Sound start :=
  ⟨fun _ => trivial, fun _ _ _ _ => nofun, fun _ _ => nofun, fun _ _ => nofun, fun _ => nofun,
    fun _ => nofun, fun _ => nofun, rfl, fun _ => Nat.zero_le _⟩

/-- Where no run reads what another run holds, and none ends between a request and its write, a
delivery that was delivered stays so. -/
theorem deliveries_settled (as : List (ℕ × Act)) (h : Meets step Alone start as) :
    Settled (run step start as).shared := by
  have hstep : ∀ w a, Alone w a → Sound w → Sound (step w a) := by
    intro w a halone hw
    rcases callerStep_cases trans w a with heq | ⟨s, c, htrans, heq⟩
    · rw [step, heq]
      exact hw
    · rw [step, heq]
      exact sound_trans halone htrans hw
  exact (h.invariant hstep sound_start).settled

end

/-! ## A run that outlives its lock -/

def after (as : List (ℕ × Act)) : Shared := (run step start as).shared

def created : ℕ × Act := (0, .emit "server.active" ["hook"])

/-- A run of its own, with one delivery. -/
def alone (i status : ℕ) : List (ℕ × Act) :=
  [(i, .lock), (i, .select [0]), (i, .post status), (i, .update), (i, .release)]

/-- The request of run `i` takes so long that run `j` gets the lock and reads the same delivery. -/
def overlap (i j : ℕ) : List (ℕ × Act) :=
  [(i, .lock), (i, .select [0]), (i, .pass 9500), (j, .lock), (j, .select [0])]

/-- The first run delivers, and then the other one fails. -/
def crossing : List (ℕ × Act) :=
  created :: overlap 0 1 ++ [(0, .post 200), (0, .update), (1, .post 500), (1, .update)]

/-- Seven failures, and two more tries by runs that overlap. -/
def ninth : List (ℕ × Act) :=
  created :: (List.range 7).flatMap (fun i => alone i 500 ++ [(i, .pass 21600000)]) ++
    overlap 7 8 ++ [(7, .post 500), (8, .post 500)]

theorem delivered_and_cleared :
    (after crossing).stored = [0] ∧
    ((after crossing).deliveries.find 0).map Delivery.deliveredAt = some none ∧
    (after (crossing ++ [(0, .pass 60000), (2, .lock), (2, .select [0])])).again = [0] ∧
    (after ninth).posted.count 0 = 9 := by
  decide +kernel

/-- Neither of the first two runs holds what is read. -/
def unread (w : World Shared Pc) (a : ℕ × Act) : Bool :=
  match a.2 with
  | .select ids => ids.all fun id => decide (id ∉ held (w.pc 0) ∧ id ∉ held (w.pc 1))
  | .throws | .stop => false
  | _ => true

theorem alone_of_unread {w : World Shared Pc} {a : ℕ × Act} (h : unread w a = true)
    (hidle : ∀ q, 2 ≤ q → w.pc q = .idle) : Alone w a := by
  constructor
  · intro ids hact _ _ id hid q
    rw [unread, hact] at h
    obtain ⟨hzero, hone⟩ := of_decide_eq_true (List.all_eq_true.mp h id hid)
    match q with
    | 0 => exact hzero
    | 1 => exact hone
    | q + 2 =>
      rw [hidle (q + 2) (Nat.le_add_left 2 q)]
      exact nofun
  · rintro (hact | hact)
    · rw [unread, hact] at h
      cases h
    · rw [unread, hact] at h
      cases h

/-- A delivery that fails once and is delivered by the next run. -/
theorem deliveries_settled_in_turn :
    Settled (after (created :: alone 0 500 ++ (0, .pass 60000) :: alone 1 200)) := by
  have hmeets : Meets step (fun w a => unread w a = true) start
      (created :: alone 0 500 ++ (0, .pass 60000) :: alone 1 200) := by
    decide
  have halone : Meets step (fun w a => (∀ q, 2 ≤ q → w.pc q = .idle) → Alone w a) start
      (created :: alone 0 500 ++ (0, .pass 60000) :: alone 1 200) :=
    hmeets.mono fun w a _ h => alone_of_unread h
  exact deliveries_settled _ (halone.of_idle (fun _ _ => rfl) (by decide))

end Prgd.Webhooks
