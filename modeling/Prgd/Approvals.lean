import Prgd.ApiError
import Prgd.Interleaving
import Mathlib.Data.List.Count
import Mathlib.Order.Basic
import Mathlib.Tactic.Tauto

/-!
# Deciding one approval

The Approval row of a request and the three writers of its status:
`ApprovalsService.approve`, `deny` and `expire`. Every database read, every
database write and the executor call is one atomic step, and any number of
callers interleave. The answer of the executor, the clock and the kinds that
have a registered executor belong to the environment.

`takeDecision` reads the row and only looks at the status. Nothing is written
before the executor has returned, so two callers that read a pending row both
go on. The module shows both losses this allows (a second execution, and an
execution after a stored denial) and proves that schedules in which such reads
do not overlap have neither.
-/
namespace Prgd.Approvals
open Interleaving

inductive ApprovalStatus where
  | pending | approved | denied | expired | failed
  deriving DecidableEq, Repr

inductive TeamRole where
  | owner | admin | member | billing | readonly
  deriving DecidableEq, Repr

/-- The fields of the acting identity that a decision looks at. -/
structure Actor where
  userId : String
  teamId : String
  role : TeamRole
  isAgent : Bool
  deriving DecidableEq, Repr

/-- The columns the three operations read or write. The result column holds
whatever the executor returned. -/
structure Approval (R : Type) where
  id : String
  teamId : String
  kind : String
  status : ApprovalStatus
  expiresAt : ℕ
  decidedById : Option String := none
  decidedAt : Option ℕ := none
  reason : Option String := none
  result : Option R := none

def ApprovalStatus.name : ApprovalStatus → String
  | .pending => "pending"
  | .approved => "approved"
  | .denied => "denied"
  | .expired => "expired"
  | .failed => "failed"

/-- What `takeDecision` does with the row it read. A late row is first written
as `expired`, which is a step of its own, and then refused. -/
inductive Taken (R : Type) where
  | refused (error : ApiError)
  | late
  | taken (approval : Approval R)

variable {R : Type}

/-- `ApprovalsService.takeDecision`, up to the write of a late row. `found` is
the answer of `findFirst` by id and team. -/
def takeDecision (actor : Actor) (id : String) (found : Option (Approval R)) (now : ℕ) : Taken R :=
  if actor.isAgent then
    .refused (.forbidden "Agents cannot decide approvals. A person must do this in the console or CLI.")
  else if actor.role ≠ .owner ∧ actor.role ≠ .admin then
    .refused (.forbidden "Only team owners and admins can decide approvals")
  else match found with
    | none => .refused (.notFound "approval" id)
    | some approval =>
      if approval.status ≠ .pending then
        .refused (.invalidState ("This request is already " ++ approval.status.name))
      else if approval.expiresAt < now then .late
      else .taken approval

/-- A decision is only taken on the row that was read, while it is pending and
within its deadline, by an owner or admin who is not an agent. -/
theorem takeDecision_eq_taken {actor : Actor} {id : String} {found : Option (Approval R)}
    {now : ℕ} {approval : Approval R} (h : takeDecision actor id found now = .taken approval) :
    found = some approval ∧ approval.status = .pending ∧ now ≤ approval.expiresAt ∧
      actor.isAgent = false ∧ (actor.role = .owner ∨ actor.role = .admin) := by
  unfold takeDecision at h
  split_ifs at h with hagent hrole
  cases found with
  | none => cases h
  | some row =>
    simp only at h
    split_ifs at h with hstatus hlate
    cases h
    refine ⟨rfl, not_not.mp hstatus, Nat.le_of_not_lt hlate, by simpa using hagent, ?_⟩
    tauto

/-- Where one caller stands. -/
inductive Pc (R : Type) where
  | idle
  /-- `takeDecision` read a pending row after its deadline. -/
  | late
  /-- `approve` has its decision and has not called the executor. -/
  | approving (actor : Actor)
  /-- The executor returned or threw; the row is not written yet. -/
  | executed (actor : Actor) (outcome : Except String R)
  /-- `deny` has its decision and has not written the row. -/
  | denying (actor : Actor) (reason : Option String)

inductive Act (R : Type) where
  | approve (actor : Actor) (now : ℕ)
  | deny (actor : Actor) (reason : Option String) (now : ℕ)
  | expireLate (now : ℕ)
  | execute (outcome : Except String R)
  | record (now : ℕ)
  | storeDenial (now : ℕ)
  | expire (now : ℕ)

/-- What the history keeps: starts of the executor and stored denials. -/
inductive Event where
  | started | denied
  deriving DecidableEq, Repr

structure World (R : Type) where
  row : Approval R
  pc : ℕ → Pc R
  log : List Event

def World.move (w : World R) (p : ℕ) (c : Pc R) : World R :=
  { w with pc := Function.update w.pc p c }

@[simp] theorem move_row (w : World R) (p : ℕ) (c : Pc R) : (w.move p c).row = w.row := rfl
@[simp] theorem move_log (w : World R) (p : ℕ) (c : Pc R) : (w.move p c).log = w.log := rfl
@[simp] theorem move_pc (w : World R) (p q : ℕ) (c : Pc R) :
    (w.move p c).pc q = if q = p then c else w.pc q := by
  simp [World.move, Function.update_apply]

def World.found (w : World R) (actor : Actor) : Option (Approval R) :=
  if w.row.teamId = actor.teamId then some w.row else none

/-- The write after the executor: `approved` with its result, or `failed` with
the error message. Neither looks at the status it overwrites. -/
def recorded (row : Approval R) (actor : Actor) (now : ℕ) : Except String R → Approval R
  | .ok result => { row with
      status := .approved, decidedById := some actor.userId, decidedAt := some now,
      result := some result }
  | .error message => { row with
      status := .failed, decidedById := some actor.userId, decidedAt := some now,
      reason := some message }

/-- One atomic step of caller `p`. -/
def step (registered : String → Bool) (w : World R) (a : ℕ × Act R) : World R :=
  match a.2, w.pc a.1 with
  | .approve actor now, .idle =>
      match takeDecision actor w.row.id (w.found actor) now with
      | .taken _ => w.move a.1 (.approving actor)
      | .late => w.move a.1 .late
      | .refused _ => w
  | .deny actor reason now, .idle =>
      match takeDecision actor w.row.id (w.found actor) now with
      | .taken _ => w.move a.1 (.denying actor reason)
      | .late => w.move a.1 .late
      | .refused _ => w
  | .expireLate now, .late =>
      { w.move a.1 .idle with
        row := { w.row with status := .expired, decidedAt := some now } }
  | .execute outcome, .approving actor =>
      -- without an executor for the kind, approve throws and the row stays pending
      if registered w.row.kind then
        { w.move a.1 (.executed actor outcome) with log := w.log ++ [.started] }
      else w.move a.1 .idle
  | .record now, .executed actor outcome =>
      { w.move a.1 .idle with row := recorded w.row actor now outcome }
  | .storeDenial now, .denying actor reason =>
      { w.move a.1 .idle with
        row := { w.row with
          status := .denied, decidedById := some actor.userId, decidedAt := some now,
          reason := reason }
        log := w.log ++ [.denied] }
  | .expire now, .idle =>
      if w.row.status = .pending ∧ w.row.expiresAt < now then
        { w with row := { w.row with status := .expired, decidedAt := some now } }
      else w
  | _, _ => w

/-- A row nobody is deciding, with an empty history. -/
def start (row : Approval R) : World R := ⟨row, fun _ => .idle, []⟩

/-- The executor starts at most once, and never behind a stored denial. -/
def Honoured (log : List Event) : Prop :=
  log.count .started ≤ 1 ∧
    ∀ before after, log = before ++ .started :: after → Event.denied ∉ before

theorem honoured_nil : Honoured [] := by
  refine ⟨by simp, ?_⟩
  intro before after h
  simp at h

/-- A start is honoured when neither a start nor a denial is in the history. -/
theorem honoured_started {log : List Event} (hs : .started ∉ log) (hd : .denied ∉ log) :
    Honoured (log ++ [.started]) := by
  refine ⟨by simp [List.count_eq_zero_of_not_mem hs], ?_⟩
  intro before after h hmem
  have hall : Event.denied ∈ log ++ [.started] := by rw [h]; exact List.mem_append_left _ hmem
  simp [hd] at hall

theorem Honoured.denied {log : List Event} (hl : Honoured log) :
    Honoured (log ++ [.denied]) := by
  refine ⟨by simpa using hl.1, ?_⟩
  intro before after h
  rcases List.eq_nil_or_concat' after with rfl | ⟨after, last, rfl⟩
  · have := (List.append_inj' h rfl).2
    simp at this
  · rw [← List.cons_append, ← List.append_assoc] at h
    exact hl.2 before after (List.append_inj' h rfl).1

/-- A decision that passed the status check and has not written the row. -/
def InFlight : Pc R → Prop
  | .approving _ | .executed _ _ | .denying _ _ => True
  | .idle | .late => False

def Approving : Pc R → Prop
  | .approving _ => True
  | _ => False

def Executed : Pc R → Prop
  | .executed _ _ => True
  | _ => False

theorem inFlight_of_approving {c : Pc R} (h : Approving c) : InFlight c := by
  cases c <;> trivial

theorem inFlight_of_executed {c : Pc R} (h : Executed c) : InFlight c := by
  cases c <;> trivial

/-- The schedules on which decisions do not overlap: `approve` reads the row
while no decision is under way, and `deny` reads it while no `approve` stands
between its read and its executor. -/
def Serial (w : World R) : ℕ × Act R → Prop
  | (_, .approve _ _) => ∀ q, ¬ InFlight (w.pc q)
  | (_, .deny _ _ _) => ∀ q, ¬ Approving (w.pc q)
  | _ => True

/-- What serial schedules keep. -/
structure Serialised (w : World R) : Prop where
  honoured : Honoured w.log
  denied_closed : .denied ∈ w.log → w.row.status ≠ .pending
  started_closed : .started ∈ w.log → w.row.status ≠ .pending ∨ ∃ p, Executed (w.pc p)
  /-- Between the read and the executor call nothing else is under way. -/
  approving_alone : ∀ p, Approving (w.pc p) →
    .started ∉ w.log ∧ .denied ∉ w.log ∧ ∀ q, q ≠ p → ¬ InFlight (w.pc q)

theorem serialised_start (row : Approval R) : Serialised (start row) where
  honoured := honoured_nil
  denied_closed h := by simp [start] at h
  started_closed h := by simp [start] at h
  approving_alone p h := h.elim

section Steps
variable {w : World R} {p : ℕ} {c : Pc R} {row : Approval R} {actor : Actor}
  {reason : Option String} {outcome : Except String R}

/-- A step that leaves the row and the history alone and ends outside every
decision, by a caller that had not run the executor. -/
theorem Serialised.retreat (h : Serialised w) (hp : ¬ Executed (w.pc p)) (hc : ¬ InFlight c) :
    Serialised (w.move p c) where
  honoured := h.honoured
  denied_closed := h.denied_closed
  started_closed hs := by
    rcases h.started_closed hs with hr | ⟨q, hq⟩
    · exact .inl hr
    · have hne : q ≠ p := fun e => hp (e ▸ hq)
      exact .inr ⟨q, by simpa [hne] using hq⟩
  approving_alone q hq := by
    simp only [move_pc] at hq ⊢
    split_ifs at hq with hqp
    · exact (hc (inFlight_of_approving hq)).elim
    · obtain ⟨hs, hd, ho⟩ := h.approving_alone q hq
      refine ⟨hs, hd, fun r hr => ?_⟩
      split_ifs with hrp
      · exact hc
      · exact ho r hr

/-- `approve` passes the check of a pending row while nothing is under way. -/
theorem Serialised.take_approve (h : Serialised w) (hrow : w.row.status = .pending)
    (hq : ∀ q, ¬ InFlight (w.pc q)) : Serialised (w.move p (.approving actor)) := by
  -- a start in the history would leave a caller under way or a decided row
  have hs : .started ∉ w.log := by
    intro hs
    rcases h.started_closed hs with hr | ⟨r, he⟩
    · exact hr hrow
    · exact hq r (inFlight_of_executed he)
  refine ⟨h.honoured, h.denied_closed, fun hs' => (hs hs').elim, fun q hqa => ?_⟩
  have hqp : q = p := by
    by_contra hne
    simp only [move_pc, hne, ite_false] at hqa
    exact hq q (inFlight_of_approving hqa)
  refine ⟨hs, fun hd => h.denied_closed hd hrow, fun r hr => ?_⟩
  rw [hqp] at hr
  simpa [hr] using hq r

/-- `deny` passes the check while no `approve` is about to start. -/
theorem Serialised.take_deny (h : Serialised w) (hp : w.pc p = .idle)
    (hq : ∀ q, ¬ Approving (w.pc q)) : Serialised (w.move p (.denying actor reason)) where
  honoured := h.honoured
  denied_closed := h.denied_closed
  started_closed hs := by
    rcases h.started_closed hs with hr | ⟨q, he⟩
    · exact .inl hr
    · have hne : q ≠ p := by
        rintro rfl
        simp [hp, Executed] at he
      exact .inr ⟨q, by simpa [hne] using he⟩
  approving_alone q hqa := by
    simp only [move_pc] at hqa
    split_ifs at hqa
    · exact hqa.elim
    · exact (hq q hqa).elim

/-- The executor starts: the caller was alone, so this is the first start and
no denial is stored. -/
theorem Serialised.execute (h : Serialised w) (hp : w.pc p = .approving actor) :
    Serialised { w.move p (.executed actor outcome) with log := w.log ++ [.started] } := by
  obtain ⟨hs, hd, ho⟩ := h.approving_alone p (by simp [hp, Approving])
  refine ⟨honoured_started hs hd, fun hd' => ?_, fun _ => ?_, fun q hq => ?_⟩
  · simp [hd] at hd'
  · exact .inr ⟨p, by simp [Executed]⟩
  · simp only [move_pc] at hq
    split_ifs at hq with hqp
    · exact hq.elim
    · exact (ho q hqp (inFlight_of_approving hq)).elim

/-- A write that decides the row, after which the caller is done. -/
theorem Serialised.decide (h : Serialised w) (hrow : row.status ≠ .pending) :
    Serialised { w.move p .idle with row := row } where
  honoured := h.honoured
  denied_closed _ := hrow
  started_closed _ := .inl hrow
  approving_alone q hq := by
    simp only [move_pc] at hq ⊢
    split_ifs at hq with hqp
    · exact hq.elim
    · obtain ⟨hs, hd, ho⟩ := h.approving_alone q hq
      refine ⟨hs, hd, fun r hr => ?_⟩
      split_ifs
      · exact id
      · exact ho r hr

/-- A denial is stored: it was under way, so no `approve` can start behind it. -/
theorem Serialised.deny (h : Serialised w) (hp : w.pc p = .denying actor reason)
    (hrow : row.status ≠ .pending) :
    Serialised { w.move p .idle with row := row, log := w.log ++ [.denied] } where
  honoured := h.honoured.denied
  denied_closed _ := hrow
  started_closed _ := .inl hrow
  approving_alone q hq := by
    simp only [move_pc] at hq
    split_ifs at hq with hqp
    · exact hq.elim
    · obtain ⟨-, -, ho⟩ := h.approving_alone q hq
      exact (ho p (Ne.symm hqp) (by simp [hp, InFlight])).elim

end Steps

theorem recorded_status (row : Approval R) (actor : Actor) (now : ℕ) (outcome : Except String R) :
    (recorded row actor now outcome).status ≠ .pending := by
  cases outcome <;> simp [recorded]

theorem found_eq_some {w : World R} {actor : Actor} {row : Approval R}
    (h : w.found actor = some row) : row = w.row := by
  unfold World.found at h
  split_ifs at h
  exact (Option.some.inj h).symm

theorem serialised_step (registered : String → Bool) (w : World R) (a : ℕ × Act R)
    (hok : Serial w a) (h : Serialised w) : Serialised (step registered w a) := by
  obtain ⟨p, a⟩ := a
  cases a with
  | approve actor now =>
    cases hpc : w.pc p <;> simp only [step, hpc] <;> try exact h
    split
    · next approval ht =>
      obtain ⟨hf, hpend, -⟩ := takeDecision_eq_taken ht
      exact h.take_approve (found_eq_some hf ▸ hpend) hok
    · exact h.retreat (by simp [hpc, Executed]) id
    · exact h
  | deny actor reason now =>
    cases hpc : w.pc p <;> simp only [step, hpc] <;> try exact h
    split
    · exact h.take_deny hpc hok
    · exact h.retreat (by simp [hpc, Executed]) id
    · exact h
  | expireLate now =>
    cases hpc : w.pc p <;> simp only [step, hpc] <;> try exact h
    exact h.decide (by simp)
  | execute outcome =>
    cases hpc : w.pc p <;> simp only [step, hpc] <;> try exact h
    split_ifs
    · exact h.execute hpc
    · exact h.retreat (by simp [hpc, Executed]) id
  | record now =>
    cases hpc : w.pc p <;> simp only [step, hpc] <;> try exact h
    exact h.decide (recorded_status _ _ _ _)
  | storeDenial now =>
    cases hpc : w.pc p <;> simp only [step, hpc] <;> try exact h
    exact h.deny hpc (by simp)
  | expire now =>
    cases hpc : w.pc p <;> simp only [step, hpc] <;> try exact h
    split_ifs
    · exact ⟨h.honoured, by simp, fun _ => .inl (by simp), h.approving_alone⟩
    · exact h

/-- On serial schedules an approval is executed at most once and never after a
denial, whatever the executors answer. -/
theorem serial_decisions_honoured (registered : String → Bool) (row : Approval R)
    (schedule : List (ℕ × Act R))
    (h : Meets (step registered) Serial (start row) schedule) :
    Honoured (run (step registered) (start row) schedule).log :=
  (Meets.invariant (serialised_step registered) h (serialised_start row)).honoured

/-- A request to delete a server, and the two people who may decide it. -/
def deleteRequest : Approval Unit :=
  { id := "ap1", teamId := "t1", kind := "servers:delete", status := .pending, expiresAt := 100 }

def owner : Actor := ⟨"u1", "t1", .owner, false⟩
def admin : Actor := ⟨"u2", "t1", .admin, false⟩

theorem serial_decisions_honoured_delete :
    Meets (step fun _ => true) Serial (start deleteRequest)
        [(0, .approve owner 5), (0, .execute (.ok ())), (0, .record 6), (1, .deny admin none 7)] ∧
      Honoured (run (step fun _ => true) (start deleteRequest)
        [(0, .approve owner 5), (0, .execute (.ok ())), (0, .record 6), (1, .deny admin none 7)]).log := by
  have h : Meets (step fun _ => true) Serial (start deleteRequest)
      [(0, .approve owner 5), (0, .execute (.ok ())), (0, .record 6), (1, .deny admin none 7)] := by
    refine ⟨fun _ => id, trivial, trivial, fun q => ?_, trivial⟩
    simp only [step, start, takeDecision, deleteRequest, owner, World.found]
    by_cases hq : q = 0 <;> simp [hq, Approving]
  exact ⟨h, serial_decisions_honoured _ _ _ h⟩

/-- Two owners who read the pending row at the same moment both start the
executor; and an `approve` that read it before a denial was stored starts the
executor behind that denial. -/
theorem overlapping_decisions_not_honoured :
    ¬ Honoured (run (step fun _ => true) (start deleteRequest)
        [(0, .approve owner 5), (1, .approve admin 5),
          (0, .execute (.ok ())), (1, .execute (.ok ()))]).log ∧
      ¬ Honoured (run (step fun _ => true) (start deleteRequest)
        [(0, .approve owner 5), (1, .deny admin none 5),
          (1, .storeDenial 6), (0, .execute (.ok ()))]).log := by
  have hlog₁ : (run (step fun _ => true) (start deleteRequest)
      [(0, .approve owner 5), (1, .approve admin 5),
        (0, .execute (.ok ())), (1, .execute (.ok ()))]).log = [.started, .started] := rfl
  have hlog₂ : (run (step fun _ => true) (start deleteRequest)
      [(0, .approve owner 5), (1, .deny admin none 5),
        (1, .storeDenial 6), (0, .execute (.ok ()))]).log = [.denied, .started] := rfl
  constructor
  · rw [hlog₁]
    intro h
    exact absurd h.1 (by decide)
  · rw [hlog₂]
    intro h
    exact h.2 [.denied] [] rfl (by decide)

end Prgd.Approvals
