import Prgd.GrantLife

/-!
# The audit trail of access grants

`OpsAudit.emit` writes the log that says who decided what about a grant. `approve`,
`activate` and `end` look at the row count of their guarded update first; `deny` emits
whatever its update found. So two leads who decide at the same moment can leave both
`ops.grant_approved` and `ops.grant_denied` for one grant.

An event is one more statement of its call, after the write it speaks of and before
the next statement of the call. A call whose emit throws takes no further step. The
trail keeps, beside the log, which transitions the writes of each call have made.
`ops.grant_requested` and `ops.grant_extended` report no transition and are left out.
-/
namespace Prgd.Grants
open Interleaving

inductive AuditName where
  | approved | active | denied | revoked | expired
  deriving DecidableEq, Repr

def AuditName.text : AuditName → String
  | .approved => "ops.grant_approved"
  | .active => "ops.grant_active"
  | .denied => "ops.grant_denied"
  | .revoked => "ops.grant_revoked"
  | .expired => "ops.grant_expired"

/-- The status that an event reports. -/
def AuditName.status : AuditName → GrantStatus
  | .approved => .approved
  | .active => .active
  | .denied => .denied
  | .revoked => .revoked
  | .expired => .expired

/-- A lead has decided on the request. -/
def AuditName.decision : AuditName → Bool
  | .approved | .denied => true
  | .active | .revoked | .expired => false

/-- A row of the log. `own` is history: a write of the call that emitted the event had
made the transition. -/
structure Record where
  name : AuditName
  grantId : ℕ
  own : Bool
  deriving DecidableEq, Repr

def hasStatus (s : Shared) (id : ℕ) (status : GrantStatus) : Bool :=
  (s.grants.find id).any fun g => g.status = status

/-- The event that a call emits after the statement it stands in front of. -/
def due (s : Shared) : Pc → Option (AuditName × ℕ)
  | .creating _ _ _ auto _ _ => if auto then some (.approved, s.grants.fresh) else none
  | .storingApproval id _ _ _ => if hasStatus s id .requested then some (.approved, id) else none
  | .activating id _ _ _ _ => if hasStatus s id .approved then some (.active, id) else none
  -- `deny` does not look at the row count
  | .denying id _ _ => some (.denied, id)
  | .revoking e _ => some (if e.status = .expired then .expired else .revoked, e.id)
  | _ => none

/-- The grants whose status is another one than before. -/
def transitions (s s' : Shared) : List (ℕ × GrantStatus) :=
  s'.grants.rows.filterMap fun e =>
    if (s.grants.find e.1).map Grant.status = some e.2.status then none else some (e.1, e.2.status)

structure Trail where
  world : World
  /-- What a call has still to emit before its next statement. -/
  pending : ℕ → Option (AuditName × ℕ)
  /-- Not data: the transitions that the writes of the present call of a caller have made. -/
  moves : ℕ → List (ℕ × GrantStatus)
  recorded : List Record

def Trail.start (now : ℤ) : Trail := ⟨Grants.start now, fun _ => none, fun _ => [], []⟩

def Trail.emit (t : Trail) (i : ℕ) (e : AuditName × ℕ) : Trail :=
  { t with
    pending := Function.update t.pending i none
    recorded := t.recorded ++ [⟨e.1, e.2, (t.moves i).contains (e.2, e.1.status)⟩] }

def auditStep (crypto : Crypto) (t : Trail) (a : ℕ × Act) : Trail :=
  let w := step crypto t.world a
  match a.2, t.pending a.1 with
  | .tick _, _ => { t with world := w }
  | .next _, some e => t.emit a.1 e
  | .next _, none => { t with
      world := w
      pending := Function.update t.pending a.1 (due t.world.shared (t.world.pc a.1))
      moves := Function.update t.moves a.1 (t.moves a.1 ++ transitions t.world.shared w.shared) }
  | .call _, some _ => t
  | .call _, none =>
      match t.world.pc a.1 with
      | .rest _ => { t with world := w, moves := Function.update t.moves a.1 [] }
      | _ => t

/-- The events of the log that say how the request for a grant was decided. -/
def decisions (t : Trail) (id : ℕ) : List Record :=
  t.recorded.filter fun r => r.grantId = id && r.name.decision

/-! ## Transitions -/

section
variable {crypto : Crypto} {env : Env} {s s' : Shared} {pc pc' : Pc} {id : ℕ}

theorem mem_transitions {status : GrantStatus} : (id, status) ∈ transitions s s' ↔
    (∃ g, s'.grants.find id = some g ∧ g.status = status) ∧
      (s.grants.find id).map Grant.status ≠ some status := by
  simp only [transitions, List.mem_filterMap]
  constructor
  · rintro ⟨⟨j, g⟩, hrow, hnew⟩
    split_ifs at hnew with hsame
    cases hnew
    exact ⟨⟨g, Table.find_of_mem hrow, rfl⟩, hsame⟩
  · rintro ⟨⟨g, hg, rfl⟩, hne⟩
    exact ⟨(id, g), Table.find_mem hg, if_neg hne⟩

theorem mem_transitions_put {g : Grant} (hs : s'.grants = s.grants.put id g)
    (hne : (s.grants.find id).map Grant.status ≠ some g.status) :
    (id, g.status) ∈ transitions s s' := by
  apply mem_transitions.mpr
  refine ⟨⟨g, ?_, rfl⟩, hne⟩
  rw [hs, Table.find_put_self]

theorem hasStatus_iff {status : GrantStatus} :
    hasStatus s id status = true ↔ ∃ g, s.grants.find id = some g ∧ g.status = status := by
  cases h : s.grants.find id <;> simp [hasStatus, h]

theorem updateGrant_of_hasStatus {status : GrantStatus} (h : hasStatus s id status = true)
    (write : Grant → Grant) : ∃ g, s.grants.find id = some g ∧ g.status = status ∧
      s.updateGrant id (fun g => g.status = status) write =
        some { s with grants := s.grants.put id (write g) } := by
  obtain ⟨g, hg, hstatus⟩ := hasStatus_iff.mp h
  refine ⟨g, hg, hstatus, ?_⟩
  simp [Shared.updateGrant, hg, hstatus]

/-- The grant that a call has ended and not yet reported. -/
def Pc.ended : Pc → Option Ending
  | .revoking e _ => some e
  | _ => none

/-- Nobody has decided on the grant since the call read it. -/
def Undecided (s : Shared) : Pc → Bool
  | .denying id _ _ => hasStatus s id .requested
  | _ => true

/-- An event is due to a transition that the statement itself makes, or to the end of a
grant that was stored before. -/
theorem due_made {name : AuditName} (h : next crypto env s pc = some (s', pc'))
    (hdue : due s pc = some (name, id)) (hopen : Undecided s pc = true) :
    (id, name.status) ∈ transitions s s' ∨
      ∃ e, pc.ended = some e ∧ id = e.id ∧
        name = if e.status = .expired then .expired else .revoked := by
  cases pc with
  | creating userId dto contractId auto minutes emergency =>
    left
    simp only [due] at hdue
    split_ifs at hdue with hauto
    cases hdue
    simp only [next, Option.some.injEq, Prod.mk.injEq] at h
    have hs : s'.grants = _ := congrArg Shared.grants h.1.symm
    have hmade := mem_transitions_put hs (by simp)
    simpa [newGrant, hauto, AuditName.status] using hmade
  | storingApproval id' read actorId minutes =>
    left
    simp only [due] at hdue
    split_ifs at hdue with hrequested
    cases hdue
    obtain ⟨g, hg, hstatus, hupdate⟩ :=
      updateGrant_of_hasStatus hrequested (writeApproval actorId minutes s.now)
    simp only [next, hupdate, Option.some.injEq, Prod.mk.injEq] at h
    have hs : s'.grants = _ := congrArg Shared.grants h.1.symm
    exact mem_transitions_put hs (by simp [hg, hstatus, writeApproval])
  | activating id' read startsAt expiresAt thenStart =>
    left
    simp only [due] at hdue
    split_ifs at hdue with happroved
    cases hdue
    obtain ⟨g, hg, hstatus, hupdate⟩ :=
      updateGrant_of_hasStatus happroved (writeActivation startsAt expiresAt)
    simp only [next, hupdate, Option.getD_some, Option.some.injEq, Prod.mk.injEq] at h
    have hs : s'.grants = _ := congrArg Shared.grants h.1.symm
    exact mem_transitions_put hs (by simp [hg, hstatus, writeActivation])
  | denying id' actorId reason =>
    left
    cases hdue
    obtain ⟨g, hg, hstatus, hupdate⟩ := updateGrant_of_hasStatus hopen (writeDenial actorId reason)
    simp only [next, hupdate, Option.getD_some, Option.some.injEq, Prod.mk.injEq] at h
    have hs : s'.grants = _ := congrArg Shared.grants h.1.symm
    exact mem_transitions_put hs (by simp [hg, hstatus, writeDenial])
  | revoking e since =>
    right
    cases hdue
    exact ⟨e, rfl, rfl, rfl⟩
  | _ => cases hdue

/-- What is decided had not been decided before. -/
theorem due_undecided {name : AuditName} (hdue : due s pc = some (name, id))
    (hdecision : name.decision = true) (hopen : Undecided s pc = true) :
    ∀ g, s.grants.find id = some g → g.status = .requested := by
  intro g hg
  cases pc with
  | creating userId dto contractId auto minutes emergency =>
    simp only [due] at hdue
    split_ifs at hdue
    cases hdue
    simp at hg
  | storingApproval id' read actorId minutes =>
    simp only [due] at hdue
    split_ifs at hdue with hrequested
    cases hdue
    simpa [hasStatus, hg] using hrequested
  | activating id' read startsAt expiresAt thenStart =>
    simp only [due] at hdue
    split_ifs at hdue
    cases hdue
    cases hdecision
  | denying id' actorId reason =>
    cases hdue
    simpa [hasStatus, Undecided, hg] using hopen
  | revoking e since =>
    cases hdue
    split_ifs at hdecision <;> cases hdecision
  | _ => cases hdue

/-! ## Ends that are to be reported -/

theorem ended_endNext (status : GrantStatus) (reason : String) (who : Option String)
    (ids : List ℕ) : (endNext status reason who ids).ended = none := by
  cases ids <;> rfl

theorem ended_killNext (sessions : List (ℕ × Option ℤ)) (reason : String)
    (killedById : Option String) (e : Option Ending) :
    (killNext sessions reason killedById e).ended = none := by
  unfold killNext
  split
  · rfl
  · exact ended_endNext _ _ _ _
  · rfl

theorem ended_readActivate (s : Shared) (id : ℕ) (thenStart : Bool) :
    (readActivate s id thenStart).ended = none := by
  unfold readActivate
  repeat' split
  all_goals rfl

theorem ended_begin (crypto : Crypto) (s : Shared) (c : Call) : (begin crypto s c).2.ended = none := by
  cases c with
  | activate id => exact ended_readActivate s id false
  | revokeWhere ids reason who => exact ended_endNext _ _ _ _
  | revoke who id reason =>
    simp only [begin]
    repeat' split
    · rfl
    · rfl
    · exact ended_endNext .revoked reason who [id]
  | check token sessionId publicKey gatewayId clientIp =>
    simp only [begin, readCheck]
    repeat' split
    all_goals rfl
  | _ =>
    simp only [begin]
    repeat' split
    all_goals rfl

/-- An end is to be reported after its write. -/
theorem next_ended {e : Ending} (h : next crypto env s pc = some (s', pc'))
    (hend : pc'.ended = some e) (hpc : Placed s pc) : (e.id, e.status) ∈ transitions s s' := by
  cases pc with
  | ending e' =>
    simp only [next] at h
    split at h
    · cases h
      rw [Ending.next, ended_endNext] at hend
      cases hend
    · next s'' hs =>
      obtain ⟨g, hg, hlive, rfl⟩ := updateGrant_some hs
      cases h
      cases hend
      have hover : e.status.live = false := GrantStatus.Over.not_live hpc
      have hne : g.status ≠ e.status := by
        intro heq
        rw [heq, hover] at hlive
        cases hlive
      exact mem_transitions_put (g := writeEnd e s.now g) rfl (by simpa [hg, writeEnd] using hne)
  | toActivate id' thenStart =>
    cases h
    rw [ended_readActivate] at hend
    cases hend
  | planning id' =>
    simp only [next] at h
    repeat' split at h
    all_goals
      cases h
      first
        | (rw [ended_endNext] at hend; cases hend)
        | cases hend
  | listening e' =>
    cases h
    rw [ended_killNext] at hend
    cases hend
  | killing sessions reason killedById e' =>
    simp only [next] at h
    split at h <;> cases h
    all_goals
      rw [ended_killNext] at hend
      cases hend
  | _ =>
    simp only [next] at h
    repeat' split at h
    all_goals
      cases h <;> cases hend

end

/-! ## What the trail says -/

/-- A decision on the grant is recorded or about to be. -/
def Trail.Decided (t : Trail) (id : ℕ) : Prop :=
  decisions t id ≠ [] ∨ ∃ q name, t.pending q = some (name, id) ∧ name.decision = true

structure Traced (t : Trail) : Prop where
  steady : Steady t.world
  due : ∀ q name id, t.pending q = some (name, id) → (id, name.status) ∈ t.moves q
  ended : ∀ q e, (t.world.pc q).ended = some e → (e.id, e.status) ∈ t.moves q
  own : ∀ r ∈ t.recorded, r.own = true
  undecided : ∀ id, t.Decided id → ∃ g, t.world.shared.grants.find id = some g ∧ g.status ≠ .requested
  once : ∀ id, (decisions t id).length ≤ 1
  alone : ∀ q name id, t.pending q = some (name, id) → name.decision = true →
    decisions t id = [] ∧
      ∀ q' name', t.pending q' = some (name', id) → name'.decision = true → q' = q

theorem traced_start (now : ℤ) : Traced (Trail.start now) where
  steady := steady_start now
  due _ _ _ h := by cases h
  ended _ _ h := by cases h
  own _ h := by cases h
  undecided _ h := by
    rcases h with h | ⟨_, _, h, _⟩
    · exact (h rfl).elim
    · cases h
  once _ := Nat.zero_le 1
  alone _ _ _ h := by cases h

section
variable {crypto : Crypto} {t : Trail} {i : ℕ}

theorem decisions_emit (t : Trail) (i : ℕ) (name : AuditName) (id j : ℕ) :
    (∃ r, decisions (t.emit i (name, id)) j = decisions t j ++ [r] ∧ id = j ∧
      name.decision = true) ∨ decisions (t.emit i (name, id)) j = decisions t j := by
  simp only [decisions, Trail.emit, List.filter_append, List.filter_cons, List.filter_nil]
  split_ifs with h
  · left
    simp only [Bool.and_eq_true, decide_eq_true_eq] at h
    exact ⟨_, rfl, h.1, h.2⟩
  · right
    exact List.append_nil _

theorem pending_emit {e : AuditName × ℕ} {q : ℕ} {x : AuditName × ℕ}
    (h : (t.emit i e).pending q = some x) : t.pending q = some x ∧ q ≠ i := by
  simp only [Trail.emit, Function.update_apply] at h
  split_ifs at h with hq
  exact ⟨h, hq⟩

/-- The log grows by an event that was due. -/
theorem Traced.emit (h : Traced t) {name : AuditName} {id : ℕ}
    (hpending : t.pending i = some (name, id)) : Traced (t.emit i (name, id)) := by
  have hdecided : ∀ j, (t.emit i (name, id)).Decided j → t.Decided j := by
    rintro j (hsome | ⟨q, name', hq, hdecision⟩)
    · rcases decisions_emit t i name id j with ⟨r, _, rfl, hdecision⟩ | heq
      · exact .inr ⟨i, name, hpending, hdecision⟩
      · rw [heq] at hsome
        exact .inl hsome
    · exact .inr ⟨q, name', (pending_emit hq).1, hdecision⟩
  constructor
  · exact h.steady
  · intro q name' id' hq
    exact h.due q name' id' (pending_emit hq).1
  · exact h.ended
  · intro r hr
    rcases List.mem_append.mp hr with hold | hnew
    · exact h.own r hold
    · obtain rfl := List.mem_singleton.mp hnew
      simpa using h.due i name id hpending
  · intro j hj
    exact h.undecided j (hdecided j hj)
  · intro j
    rcases decisions_emit t i name id j with ⟨r, heq, rfl, hdecision⟩ | heq
    · rw [heq, (h.alone i name id hpending hdecision).1]
      exact Nat.le_refl 1
    · rw [heq]
      exact h.once j
  · intro q name' j hq hdecision
    obtain ⟨hq', hne⟩ := pending_emit hq
    obtain ⟨hnone, halone⟩ := h.alone q name' j hq' hdecision
    constructor
    · rcases decisions_emit t i name id j with ⟨r, _, rfl, hdecision'⟩ | heq
      · exact (hne (halone i name hpending hdecision').symm).elim
      · rw [heq]
        exact hnone
    · intro q'' name'' hq'' hdecision''
      exact halone q'' name'' (pending_emit hq'').1 hdecision''

/-- Whatever a step of the grants does, a decided grant stays decided. -/
theorem decided_step (h : Steady t.world) (a : ℕ × Act) {id : ℕ} {g : Grant}
    (hg : t.world.shared.grants.find id = some g) (hstatus : g.status ≠ .requested) :
    ∃ g', (step crypto t.world a).shared.grants.find id = some g' ∧ g'.status ≠ .requested := by
  obtain ⟨g', hg', hlater⟩ := onward_step crypto h a id g hg
  refine ⟨g', hg', ?_⟩
  intro hrequested
  have hrank := hlater.rank
  rw [hrequested] at hrank
  cases hcase : g.status <;> simp_all [GrantStatus.rank]

/-- A statement of a caller that has nothing to emit. -/
theorem Traced.go (h : Traced t) (hnone : t.pending i = none) {w : World}
    {p : Option (AuditName × ℕ)} {m : List (ℕ × GrantStatus)} (hsteady : Steady w)
    (hdecided : ∀ id g, t.world.shared.grants.find id = some g → g.status ≠ .requested →
      ∃ g', w.shared.grants.find id = some g' ∧ g'.status ≠ .requested)
    (hpc : ∀ q, q ≠ i → w.pc q = t.world.pc q)
    (hdue : ∀ name id, p = some (name, id) → (id, name.status) ∈ m)
    (hended : ∀ e, (w.pc i).ended = some e → (e.id, e.status) ∈ m)
    (hdecision : ∀ name id, p = some (name, id) → name.decision = true → ¬ t.Decided id ∧
      ∃ g, w.shared.grants.find id = some g ∧ g.status ≠ .requested) :
    Traced { t with
      world := w, pending := Function.update t.pending i p, moves := Function.update t.moves i m } := by
  have hpending : ∀ q x, Function.update t.pending i p q = some x →
      q = i ∧ p = some x ∨ q ≠ i ∧ t.pending q = some x := by
    intro q x hq
    by_cases hqi : q = i
    · subst hqi
      rw [Function.update_self] at hq
      exact .inl ⟨rfl, hq⟩
    · rw [Function.update_of_ne hqi] at hq
      exact .inr ⟨hqi, hq⟩
  constructor
  · exact hsteady
  · intro q name id hq
    rcases hpending q _ hq with ⟨rfl, hp⟩ | ⟨hqi, hp⟩
    · simpa using hdue name id hp
    · simpa [Function.update_of_ne hqi] using h.due q name id hp
  · intro q e hq
    by_cases hqi : q = i
    · subst hqi
      simpa using hended e hq
    · rw [hpc q hqi] at hq
      simpa [Function.update_of_ne hqi] using h.ended q e hq
  · exact h.own
  · rintro id (hsome | ⟨q, name, hq, hname⟩)
    · obtain ⟨g, hg, hstatus⟩ := h.undecided id (.inl hsome)
      exact hdecided id g hg hstatus
    · rcases hpending q _ hq with ⟨_, hp⟩ | ⟨_, hp⟩
      · exact (hdecision name id hp hname).2
      · obtain ⟨g, hg, hstatus⟩ := h.undecided id (.inr ⟨q, name, hp, hname⟩)
        exact hdecided id g hg hstatus
  · exact h.once
  · intro q name id hq hname
    rcases hpending q _ hq with ⟨rfl, hp⟩ | ⟨hqi, hp⟩
    · have hfresh := (hdecision name id hp hname).1
      constructor
      · by_contra hsome
        exact hfresh (.inl hsome)
      · intro q' name' hq' hname'
        rcases hpending q' _ hq' with ⟨hqi, _⟩ | ⟨_, hp'⟩
        · exact hqi
        · exact (hfresh (.inr ⟨q', name', hp', hname'⟩)).elim
    · obtain ⟨hempty, halone⟩ := h.alone q name id hp hname
      refine ⟨hempty, ?_⟩
      intro q' name' hq' hname'
      rcases hpending q' _ hq' with ⟨_, hp'⟩ | ⟨_, hp'⟩
      · exact ((hdecision name' id hp' hname').1 (.inr ⟨q, name, hp, hname⟩)).elim
      · exact halone q' name' hp' hname'

theorem step_pc_of_ne (crypto : Crypto) (w : World) {a : ℕ × Act} {q : ℕ} (hq : q ≠ a.1) :
    (step crypto w a).pc q = w.pc q := by
  rcases callerStep_cases (trans crypto) w a with heq | ⟨s, c, _, heq⟩
  · rw [step, heq]
  · rw [step, heq]
    exact Function.update_of_ne hq _ _

/-- Nobody has decided on a grant between the read and the write of a `deny`. -/
def stillRequested (t : Trail) (a : ℕ × Act) : Bool :=
  match a.2, t.pending a.1 with
  | .next _, none => Undecided t.world.shared (t.world.pc a.1)
  | _, _ => true

theorem due_of_next_none {env : Env} {s : Shared} {pc : Pc} (h : Grants.next crypto env s pc = none) :
    due s pc = none := by
  cases pc with
  | storingApproval id read actorId minutes =>
    simp only [Grants.next] at h
    split at h <;> cases h
  | creating _ _ _ _ _ _ | activating _ _ _ _ _ | denying _ _ _ | revoking _ _ => cases h
  | _ => rfl

theorem over_of_ended {s : Shared} {pc : Pc} {e : Ending} (h : pc.ended = some e)
    (hpc : Placed s pc) : e.status.Over := by
  cases pc with
  | revoking e' since =>
    cases h
    exact hpc
  | _ => cases h

theorem status_of_over {status : GrantStatus} (h : status.Over) :
    (if status = .expired then AuditName.expired else .revoked).status = status := by
  rcases h with rfl | rfl <;> rfl

theorem status_of_decision {name : AuditName} (h : name.decision = true) :
    name.status ≠ .requested := by
  cases name <;> simp_all [AuditName.decision, AuditName.status]

theorem Traced.next {env : Env} (h : Traced t) (hnone : t.pending i = none)
    (hopen : Undecided t.world.shared (t.world.pc i) = true) :
    Traced (auditStep crypto t (i, .next env)) := by
  have hgrow : ∀ id g, t.world.shared.grants.find id = some g → g.status ≠ .requested →
      ∃ g', (step crypto t.world (i, .next env)).shared.grants.find id = some g' ∧
        g'.status ≠ .requested := fun id g hg hstatus => decided_step h.steady _ hg hstatus
  have hsteady := steady_step crypto t.world (i, .next env) h.steady
  have hpc : ∀ q, q ≠ i → (step crypto t.world (i, .next env)).pc q = t.world.pc q :=
    fun q hq => step_pc_of_ne crypto t.world hq
  simp only [auditStep, hnone]
  cases hnext : Grants.next crypto env t.world.shared (t.world.pc i) with
  | none =>
    have hstep : step crypto t.world (i, .next env) = t.world := by
      simp [step, callerStep, trans, hnext]
    rw [due_of_next_none hnext]
    rw [hstep] at hgrow hsteady hpc ⊢
    apply h.go hnone hsteady hgrow hpc
    · intro name id hdue
      cases hdue
    · intro e he
      exact List.mem_append_left _ (h.ended i e he)
    · intro name id hdue
      cases hdue
  | some r =>
    obtain ⟨s', pc'⟩ := r
    have hstep : step crypto t.world (i, .next env) = ⟨s', Function.update t.world.pc i pc'⟩ := by
      simp [step, callerStep, trans, hnext]
    rw [hstep] at hgrow hsteady hpc ⊢
    apply h.go hnone hsteady hgrow hpc
    · intro name id hdue
      rcases due_made hnext hdue hopen with hnew | ⟨e, he, rfl, rfl⟩
      · exact List.mem_append_right _ hnew
      · rw [status_of_over (over_of_ended he (h.steady.placed i))]
        exact List.mem_append_left _ (h.ended i e he)
    · intro e he
      have he' : pc'.ended = some e := by simpa using he
      exact List.mem_append_right _ (next_ended hnext he' (h.steady.placed i))
    · intro name id hdue hdecision
      constructor
      · intro hdecided
        obtain ⟨g, hg, hstatus⟩ := h.undecided id hdecided
        exact hstatus (due_undecided hdue hdecision hopen g hg)
      · rcases due_made hnext hdue hopen with hnew | ⟨e, _, _, rfl⟩
        · obtain ⟨⟨g, hg, hstatus⟩, _⟩ := mem_transitions.mp hnew
          refine ⟨g, hg, ?_⟩
          rw [hstatus]
          exact status_of_decision hdecision
        · split_ifs at hdecision <;> cases hdecision

theorem Traced.call {c : Call} (h : Traced t) (hnone : t.pending i = none) :
    Traced (auditStep crypto t (i, .call c)) := by
  simp only [auditStep, hnone]
  split
  · next e hrest =>
    have hstep : step crypto t.world (i, .call c) = ⟨(begin crypto t.world.shared c).1,
        Function.update t.world.pc i (begin crypto t.world.shared c).2⟩ := by
      simp [step, callerStep, trans, hrest]
    have hsame : t.pending = Function.update t.pending i none := by
      rw [← hnone, Function.update_eq_self]
    rw [hsame]
    apply h.go hnone (steady_step crypto t.world (i, .call c) h.steady)
    · intro id g hg hstatus
      exact decided_step h.steady _ hg hstatus
    · intro q hq
      exact step_pc_of_ne crypto t.world hq
    · intro name id hdue
      cases hdue
    · intro e' he
      rw [hstep] at he
      have hbegin : (begin crypto t.world.shared c).2.ended = some e' := by simpa using he
      rw [ended_begin] at hbegin
      cases hbegin
    · intro name id hdue
      cases hdue
  · exact h

theorem Traced.tick {ms : ℕ} (h : Traced t) : Traced (auditStep crypto t (i, .tick ms)) := by
  have hstep : step crypto t.world (i, .tick ms) =
      ⟨{ t.world.shared with now := t.world.shared.now + ms }, t.world.pc⟩ := by
    simp [step, callerStep, trans]
  have hsteady := steady_step crypto t.world (i, .tick ms) h.steady
  simp only [auditStep]
  rw [hstep] at hsteady ⊢
  exact ⟨hsteady, h.due, h.ended, h.own, h.undecided, h.once, h.alone⟩

theorem Traced.step {a : ℕ × Act} (h : Traced t) (hopen : stillRequested t a = true) :
    Traced (auditStep crypto t a) := by
  obtain ⟨i, act⟩ := a
  cases act with
  | tick ms => exact h.tick
  | next env =>
    cases hpending : t.pending i with
    | none =>
      simp only [stillRequested, hpending] at hopen
      exact h.next hpending hopen
    | some e =>
      simp only [auditStep, hpending]
      exact h.emit hpending
  | call c =>
    cases hpending : t.pending i with
    | none => exact h.call hpending
    | some e =>
      simp only [auditStep, hpending]
      exact h

end

/-- Every event was emitted by a call whose write made the transition, and a request is
decided once. -/
def TrailFaithful (t : Trail) : Prop :=
  (∀ r ∈ t.recorded, r.own = true) ∧ ∀ id, (decisions t id).length ≤ 1

/-- The trail matches what happened, in every interleaving in which a grant is still
requested whenever a `deny` writes. -/
theorem trail_faithful (crypto : Crypto) (now : ℤ) (schedule : List (ℕ × Act))
    (h : Meets (auditStep crypto) (fun t a => stillRequested t a = true) (Trail.start now) schedule) :
    TrailFaithful (run (auditStep crypto) (Trail.start now) schedule) := by
  have htraced : Traced (run (auditStep crypto) (Trail.start now) schedule) :=
    h.invariant (fun _ _ hopen ht => ht.step hopen) (traced_start now)
  exact ⟨htraced.own, htraced.once⟩

/-! ## Two leads -/

/-- An engineer who is not on call asks for access: a lead has to decide. -/
def ordinaryRequest : Call :=
  .request "eng1" ⟨"asset1", some "ticket1", none, "rotate logs", 60⟩
    ⟨⟨"contract1", true, false, false, some "10.0.0.5"⟩,
      .ticket "contract1" none true (some .p3), none, ⟨120, 240, 1⟩, false⟩

def asking : List (ℕ × Act) := [(0, .call ordinaryRequest), (0, .next {}), (0, .next {})]

/-- A lead looks at the request, and denies it. -/
def looking : List (ℕ × Act) := [(2, .call (.deny "lead2" 1 "not now"))]
def denying : List (ℕ × Act) := [(2, .next {}), (2, .next {})]

/-- Another lead approves it. -/
def approving : List (ℕ × Act) :=
  [(1, .call (.approve "lead1" 1 none)), (1, .next {}), (1, .next {}), (1, .next {}), (1, .next {})]

theorem trail_faithful_denied :
    TrailFaithful (run (auditStep ⟨id, id⟩) (Trail.start 0) (asking ++ looking ++ denying)) ∧
      (run (auditStep ⟨id, id⟩) (Trail.start 0) (asking ++ looking ++ denying)).recorded =
        [⟨.denied, 1, true⟩] := by
  refine ⟨trail_faithful ⟨id, id⟩ 0 (asking ++ looking ++ denying) ?_, ?_⟩
  · decide
  · decide

/-- The second lead approves between the read and the write of the denial: the denial
changes nothing and is recorded. -/
theorem trail_both_recorded : ¬ TrailFaithful
    (run (auditStep ⟨id, id⟩) (Trail.start 0) (asking ++ looking ++ approving ++ denying)) := by
  have hlog : (run (auditStep ⟨id, id⟩) (Trail.start 0)
      (asking ++ looking ++ approving ++ denying)).recorded =
        [⟨.approved, 1, true⟩, ⟨.denied, 1, false⟩] := by decide
  intro h
  have hown := h.1 ⟨.denied, 1, false⟩ (by rw [hlog]; simp)
  cases hown

end Prgd.Grants
