import Prgd.Compute

/-!
# No server is stuck

A call writes a state that no call is allowed in, and the workflow that it starts writes one
that is. So a server is left alone in a settled state as long as the workflow starts, and as
long as the activities that a handler uses to come back do not fail themselves.
-/
namespace Prgd.Compute
open Interleaving
open Trust (ServerStatus)

/-- The states in which a server may be left: some call is allowed, or it is deleted. -/
def settled : ServerStatus → Bool
  | .new | .active | .off | .failed | .deleted => true
  | _ => false

/-- What is allowed in a settled state. -/
theorem settled_iff (status : ServerStatus) :
    settled status = true ↔ status = .deleted ∨ status ∈ allowed .delete := by
  cases status <;> decide

/-- The calls that leave the state of the server alone until their workflow has started. -/
def ActionType.quiet : ActionType → Bool
  | .create | .stop | .snapshot => true
  | _ => false

/-- The activities of a handler that bring the server back to a settled state. -/
def Activity.recovers : Activity → Bool
  | .compensateCreate | .setStatus _ | .syncStatusFromHypervisor => true
  | _ => false

/-- A workflow that could not be started belongs to a call that has not changed the state, and
no activity that brings the server back fails for good. -/
def Recovers (w : World) (a : ℕ × Act) : Bool :=
  match a.2, w.pc a.1 with
  | .startFails, .starting _ type _ => type.quiet
  | .crash _ _ false, .workflow f => ¬ (f.handling ∧ f.activity.recovers)
  | _, _ => true

/-! ## Which statements write the state -/

inductive Role where
  | silent | compensating | syncing | finalizing
  | sets (status : ServerStatus)
  deriving DecidableEq

def Stmt.role : Stmt → Role
  | .write p => p.status.elim .silent .sets
  | .syncLoad | .syncAsk _ | .syncWrite _ => .syncing
  | .compLoad | .compFind _ _ | .compDelete _ _ => .compensating
  | .findIps .compensate _ | .dropIps .compensate _ _ | .dropPrivate .compensate _
  | .giveBack .compensate _ | .clear .compensate _ => .compensating
  | .finLoad => .finalizing
  | .findIps .finalize _ | .dropIps .finalize _ _ | .dropPrivate .finalize _ | .giveBack .finalize _
  | .clear .finalize _ => .finalizing
  | _ => .silent

def Activity.role (a : Activity) : Role := a.start.role

/-- What the hypervisor says is a settled state. -/
def Stmt.Truthful : Stmt → Prop
  | .syncWrite status => settled status = true
  | _ => True

/-- The state that a write sets. -/
def Write.status : Write → Option ServerStatus
  | .server p => p.status
  | _ => Option.none

def Role.writes : Role → Bool
  | .silent | .compensating => false
  | _ => true

/-- A role that ends with a settled state. -/
def Role.settles : Role → Bool
  | .silent | .compensating => false
  | .syncing | .finalizing => true
  | .sets status => settled status

section
variable {c : Cloud} {s key : ℕ} {env : Env} {st st' : Stmt} {r : Server}

theorem find_apply (c : Cloud) (s t : ℕ) (w : Write) :
    (c.apply s w).servers.find t =
      match w with
      | .server p => if t = s then (c.servers.find t).map fun r => r.patch p else c.servers.find t
      | _ => c.servers.find t := by
  cases w with
  | server p => exact Table.find_modify c.servers t s _
  | privateIp address => cases address <;> rfl
  | none | host id amount | ip id g | createVm vm | editVm ref g | deleteVm ref => rfl

/-- The state of a server changes by what is written to it. -/
theorem status_apply {t : ℕ} {w : Write} (hr : (c.apply s w).servers.find t = some r) :
    ∃ r', c.servers.find t = some r' ∧
      (r.status = r'.status ∨ t = s ∧ w.status = some r.status) := by
  rw [find_apply] at hr
  cases w with
  | server p =>
    simp only at hr
    split_ifs at hr with ht
    · obtain ⟨r', hr', rfl⟩ := Option.map_eq_some_iff.mp hr
      refine ⟨r', hr', ?_⟩
      cases hp : p.status with
      | none => exact .inl (by simp [Server.patch, hp])
      | some status => exact .inr ⟨ht, by simp [Server.patch, Write.status, hp]⟩
    · exact ⟨r, hr, .inl rfl⟩
  | none | host id amount | ip id g | privateIp address | createVm vm | editVm ref g
  | deleteVm ref => exact ⟨r, hr, .inl rfl⟩

theorem status_written {w : Write} {status : ServerStatus}
    (hr : (c.apply s w).servers.find s = some r) (hstatus : w.status = some status) :
    r.status = status := by
  rw [find_apply] at hr
  cases w with
  | server p =>
    simp only [if_true] at hr
    obtain ⟨r', -, rfl⟩ := Option.map_eq_some_iff.mp hr
    have hp : p.status = some status := hstatus
    simp [Server.patch, hp]
  | _ => cases hstatus

theorem settled_powerStatus (c : Cloud) (ref : ℕ) : settled (powerStatus c ref) = true := by
  unfold powerStatus
  split
  · rfl
  · split_ifs <;> rfl

/-- The statements of an activity keep its role. -/
theorem role_exec {w : Write} (h : exec c s key env st = (w, .goto st')) :
    st'.role = st.role ∧ st'.Truthful := by
  cases st with
  | findIps ending r | dropIps ending r ips | dropPrivate ending r | giveBack ending r
  | clear ending r =>
    simp only [exec, next] at h
    cases ending <;> (repeat' split at h) <;> cases h <;> exact ⟨rfl, trivial⟩
  | syncAsk ref =>
    cases h
    exact ⟨rfl, settled_powerStatus c ref⟩
  | syncLoad =>
    simp only [exec, load] at h
    (repeat' split at h) <;> cases h <;> first | exact ⟨rfl, trivial⟩ | exact ⟨rfl, rfl⟩
  | _ =>
    simp only [exec, load, withVm, next] at h
    (repeat' split at h) <;> cases h <;> exact ⟨rfl, trivial⟩

/-- A statement that writes the state is the last one of its activity, and writes what the role
says. -/
theorem status_exec {w : Write} {out : Outcome} (h : exec c s key env st = (w, out))
    (htrue : st.Truthful) {status : ServerStatus} (hstatus : w.status = some status) :
    (settled status = true ∨ st.role = .sets status) ∧ ∃ running, out = .done running := by
  cases st with
  | write p =>
    cases h
    have hp : p.status = some status := hstatus
    exact ⟨.inr (by rw [Stmt.role, hp]; rfl), false, rfl⟩
  | syncWrite status' =>
    cases h
    cases hstatus
    exact ⟨.inl htrue, false, rfl⟩
  | clear ending r =>
    cases ending <;> cases h <;> cases hstatus
    exact ⟨.inl rfl, false, rfl⟩
  | _ =>
    simp only [exec, load, withVm, next] at h
    (repeat' split at h) <;> cases h <;> cases hstatus

/-- An activity with a role is done when it has written the state. -/
theorem done_exec {w : Write} {running : Bool} (h : exec c s key env st = (w, .done running))
    (hrole : st.role.writes = true) : ∃ status, w.status = some status := by
  cases st with
  | write p =>
    cases h
    cases hp : p.status with
    | none =>
      rw [Stmt.role, hp] at hrole
      cases hrole
    | some status => exact ⟨status, hp⟩
  | syncWrite status =>
    cases h
    exact ⟨status, rfl⟩
  | clear ending r =>
    cases ending
    · cases hrole
    · cases h
      exact ⟨.deleted, rfl⟩
  | findIps ending r | dropIps ending r ips | dropPrivate ending r | giveBack ending r =>
    simp only [exec, next] at h
    (repeat' split at h) <;> cases h
  | syncLoad | finLoad =>
    simp only [exec, load] at h
    (repeat' split at h) <;> cases h
  | syncAsk ref => cases h
  | _ => cases hrole

/-- What brings a server back does not fail by itself. -/
theorem fail_exec {w : Write} (h : exec c s key env st = (w, .fail)) (hr : c.servers.find s = some r) :
    st.role = .silent ∨ st.role = .finalizing := by
  cases st with
  | findIps ending r | dropIps ending r ips | dropPrivate ending r | giveBack ending r
  | clear ending r =>
    simp only [exec, next] at h
    (repeat' split at h) <;> cases h
  | compLoad | compFind r host | compDelete r refs =>
    simp only [exec, next] at h
    (repeat' split at h) <;> cases h
  | syncLoad =>
    simp only [exec, load, hr] at h
    (repeat' split at h) <;> cases h
  | syncAsk ref | syncWrite status | write p => cases h
  | finLoad => exact .inr rfl
  | _ => exact .inl rfl

end

/-! ## Workflows -/

/-- An activity that ends with a settled state, or that other ones follow which do. -/
def Activity.settles (a : Activity) : Bool := a.role.settles || a = Activity.isRunning

/-- A state that is not settled is followed by one that is. -/
def repays : List Activity → Bool
  | [] => true
  | a :: rest =>
      (match a.role with
        | .sets status => settled status || rest.any Activity.settles
        | _ => true) && repays rest

/-- In a handler, what brings the server back comes first. -/
def tidy : List Activity → Bool
  | [] => true
  | a :: rest => (a.recovers || (a :: rest).all fun b => ¬ b.settles) && tidy rest

/-- What is left of a workflow. -/
def Workflow.left (w : Workflow) : List Activity := w.activity :: w.rest

def Workflow.Owes (w : Workflow) : Prop := w.left.any Activity.settles = true

structure Workflow.Formed (w : Workflow) : Prop where
  role : w.stmt.role = w.activity.role
  truthful : w.stmt.Truthful
  repays : repays w.left = true
  asking : Activity.isRunning ∈ w.left → ∀ running, (afterRunning w.type running).any Activity.settles
  snapshot : w.type = .snapshot → w.left.any Activity.settles = false
  tidy : w.handling = true → tidy w.left = true

/-- The same facts of a list of activities that a workflow begins. -/
structure Program (type : ActionType) (handling : Bool) (l : List Activity) : Prop where
  repays : Compute.repays l = true
  asking : Activity.isRunning ∈ l → ∀ running, (afterRunning type running).any Activity.settles
  snapshot : type = .snapshot → l.any Activity.settles = false
  tidy : handling = true → Compute.tidy l = true

theorem program_body (type : ActionType) : Program type false (body type) := by
  refine ⟨?_, ?_, ?_, ?_⟩
  · cases type <;> rfl
  · cases type with
    | resize size | restore =>
      intro _ running
      cases running <;> rfl
    | _ =>
      intro h
      simp [body] at h
  · rintro rfl
    rfl
  · intro h
    cases h

theorem program_afterRunning (type : ActionType) (running : Bool) :
    Program type false (afterRunning type running) := by
  refine ⟨?_, ?_, ?_, ?_⟩
  · cases type <;> cases running <;> rfl
  · cases type <;> cases running <;> intro h <;> simp [afterRunning] at h
  · rintro rfl
    rfl
  · intro h
    cases h

theorem program_handler (placed : Bool) (type : ActionType) :
    Program type true (handler placed type) := by
  refine ⟨?_, ?_, ?_, ?_⟩
  · cases type <;> cases placed <;> rfl
  · cases type <;> cases placed <;> intro h <;> simp [handler] at h
  · rintro rfl
    rfl
  · cases type <;> cases placed <;> intro _ <;> rfl

theorem truthful_start (a : Activity) : a.start.Truthful := by
  cases a <;> trivial

section
variable {w w' : Workflow} {l : List Activity}

theorem begin_eq_some (h : w.begin l = some w') :
    ∃ a rest, l = a :: rest ∧ w' = { w with activity := a, stmt := a.start, rest := rest } := by
  cases l with
  | nil => cases h
  | cons a rest =>
    cases h
    exact ⟨a, rest, rfl, rfl⟩

theorem server_advance {out : Outcome} (h : w.advance out = some w') : w'.server = w.server := by
  cases out with
  | goto st | again =>
    cases h
    rfl
  | done running =>
    simp only [Workflow.advance] at h
    obtain ⟨a, rest, -, rfl⟩ := begin_eq_some h
    rfl
  | fail =>
    simp only [Workflow.advance] at h
    split_ifs at h
    obtain ⟨a, rest, -, rfl⟩ := begin_eq_some h
    rfl

theorem formed_begin (hl : Program w.type w.handling l) (h : w.begin l = some w') : w'.Formed := by
  obtain ⟨a, rest, rfl, rfl⟩ := begin_eq_some h
  exact ⟨rfl, truthful_start a, hl.repays, hl.asking, hl.snapshot, hl.tidy⟩

theorem owes_begin (hl : l.any Activity.settles = true) : ∃ w', w.begin l = some w' ∧ w'.Owes := by
  cases l with
  | nil => cases hl
  | cons a rest => exact ⟨_, rfl, hl⟩

theorem Workflow.Formed.tail (h : w.Formed) : Program w.type w.handling w.rest := by
  have hrepays := h.repays
  simp only [Workflow.left, Compute.repays, Bool.and_eq_true] at hrepays
  refine ⟨hrepays.2, fun hmem => h.asking (List.mem_cons_of_mem _ hmem), ?_, ?_⟩
  · intro htype
    have hsnapshot := h.snapshot htype
    simp only [Workflow.left, List.any_cons, Bool.or_eq_false_iff] at hsnapshot
    exact hsnapshot.2
  · intro hhandling
    have htidy := h.tidy hhandling
    simp only [Workflow.left, Compute.tidy, Bool.and_eq_true] at htidy
    exact htidy.2

/-- Nothing asks in a handler. -/
theorem Workflow.Formed.not_asking (h : w.Formed) (ha : w.activity = Activity.isRunning) :
    w.handling = false := by
  by_contra hne
  have htidy := h.tidy (by simpa using hne)
  simp [Workflow.left, Compute.tidy, ha, Activity.recovers, Activity.settles] at htidy

theorem formed_advance {out : Outcome} (h : w.Formed)
    (hgoto : ∀ st, out = .goto st → st.role = w.stmt.role ∧ st.Truthful)
    (hadvance : w.advance out = some w') : w'.Formed := by
  cases out with
  | goto st =>
    cases hadvance
    obtain ⟨hrole, htrue⟩ := hgoto st rfl
    exact ⟨hrole.trans h.role, htrue, h.repays, h.asking, h.snapshot, h.tidy⟩
  | again =>
    cases hadvance
    exact ⟨rfl, truthful_start _, h.repays, h.asking, h.snapshot, h.tidy⟩
  | done running =>
    simp only [Workflow.advance] at hadvance
    split_ifs at hadvance with ha
    · apply formed_begin _ hadvance
      rw [h.not_asking ha]
      exact program_afterRunning _ _
    · apply formed_begin _ hadvance
      exact h.tail
  | fail =>
    simp only [Workflow.advance] at hadvance
    split_ifs at hadvance
    exact formed_begin (program_handler _ _) hadvance

theorem owes_handler (placed : Bool) {type : ActionType} (h : type ≠ .snapshot) :
    (handler placed type).any Activity.settles = true := by
  cases type with
  | snapshot => exact (h rfl).elim
  | _ => cases placed <;> rfl

theorem Workflow.Formed.not_snapshot (h : w.Formed) (howes : w.Owes) : w.type ≠ .snapshot := by
  intro htype
  cases (h.snapshot htype).symm.trans howes

/-- A workflow that fails outside of its handler goes on to a settled state. -/
theorem owes_fail (htype : w.type ≠ .snapshot) (hhandling : w.handling = false) :
    ∃ w', w.advance .fail = some w' ∧ w'.Owes := by
  have hguarded : w.guarded = true := by simp [Workflow.guarded, htype, hhandling]
  simp only [Workflow.advance, hguarded, if_true]
  exact owes_begin (owes_handler _ htype)

/-- An activity that is done without having settled the state leaves the debt to the others. -/
theorem owes_done (h : w.Formed) (howes : w.Owes) (hrole : w.activity.role.settles = false)
    (running : Bool) : ∃ w', w.advance (.done running) = some w' ∧ w'.Owes := by
  simp only [Workflow.advance]
  by_cases ha : w.activity = Activity.isRunning
  · rw [if_pos ha]
    exact owes_begin (h.asking (by simp [Workflow.left, ha]) running)
  · rw [if_neg ha]
    apply owes_begin
    simp only [Workflow.Owes, Workflow.left, List.any_cons, Activity.settles, hrole, ha,
      decide_false, Bool.or_self, Bool.false_or] at howes
    exact howes

/-- In a handler that still owes a settled state, the activity is one that brings it back. -/
theorem recovers_of_owes (h : w.Formed) (howes : w.Owes) (hhandling : w.handling = true) :
    w.activity.recovers = true := by
  have htidy := h.tidy hhandling
  simp only [Workflow.left, Compute.tidy, Bool.and_eq_true, Bool.or_eq_true] at htidy
  rcases htidy.1 with hrecovers | hnone
  · exact hrecovers
  · obtain ⟨a, ha, hsettles⟩ := List.any_eq_true.mp howes
    have hnot := List.all_eq_true.mp hnone a ha
    simp [hsettles] at hnot

theorem role_recovers {a : Activity} (h : a.recovers = true) :
    a.role ≠ .silent ∧ a.role ≠ .finalizing := by
  cases a with
  | setStatus status =>
    constructor <;> intro heq <;> cases heq
  | compensateCreate | syncStatusFromHypervisor => constructor <;> intro heq <;> cases heq
  | _ => cases h

end

/-! ## One step -/

def Pc.Owes (s : ℕ) : Pc → Prop
  | .starting id type _ => id = s ∧ type.quiet = false
  | .workflow w => w.server = s ∧ w.Owes
  | _ => False

def Pc.Formed : Pc → Prop
  | .intent _ type read => read.status ∈ allowed type
  | .starting _ type before => before ∈ allowed type
  | .workflow w => w.Formed
  | _ => True

theorem formed_readServer (c : Cloud) (id : ℕ) (type : ActionType) :
    (readServer c id type).Formed := by
  unfold readServer
  split
  · trivial
  · next r _ =>
    split_ifs with hdeleted hallowed
    · trivial
    · have hmem : r.status ∈ allowed type := by simpa using hallowed
      split
      · trivial
      · split
        · split_ifs
          · trivial
          · exact hmem
        · exact hmem
    · trivial

theorem formed_begin_call (c : Cloud) (call : Call) : (begin c call).Formed := by
  have hown : ∀ projectId id (k : PublicIp → Pc), (∀ ip, (k ip).Formed) →
      (ownIp c projectId id k).Formed := by
    intro projectId id k hk
    unfold ownIp
    split
    · trivial
    · split_ifs
      · trivial
      · trivial
      · exact hk _
  cases call with
  | create dto | reserve projectId regionId => trivial
  | action id type =>
    cases type with
    | create => trivial
    | _ => exact formed_readServer c id _
  | attach projectId id server =>
    apply hown
    intro ip
    split_ifs <;> trivial
  | detach projectId id =>
    apply hown
    intro ip
    split <;> trivial
  | releaseReserved projectId id =>
    apply hown
    intro ip
    split_ifs <;> trivial

/-- A call that is quiet writes no other state than the one it has read. -/
theorem nextStatus_of_quiet {type : ActionType} {status : ServerStatus} (hquiet : type.quiet = true)
    (hallowed : status ∈ allowed type) : nextStatus type status = status := by
  cases type with
  | stop =>
    have hactive : status = .active := by simpa [allowed] using hallowed
    exact hactive.symm
  | create | snapshot => rfl
  | _ => cases hquiet

theorem owes_body {type : ActionType} (h : type.quiet = false) :
    (body type).any Activity.settles = true := by
  cases type with
  | create | stop | snapshot => cases h
  | _ => rfl

/-- What a step of a workflow can say about the state. -/
theorem status_took {c : Cloud} {w : Workflow} {act : Act} {write : Write} {out : Outcome}
    (h : Took c w act write out) (hform : w.Formed) {status : ServerStatus}
    (hstatus : write.status = some status) :
    settled status = true ∨ w.activity.role = .sets status := by
  have hexec : ∀ env, (exec c w.server w.key env w.stmt).1.status = some status →
      settled status = true ∨ w.activity.role = .sets status := by
    intro env hs
    rw [← hform.role]
    exact (status_exec rfl hform.truthful hs).1
  cases h with
  | well env => exact hexec env hstatus
  | crashed carriedOut env again =>
    split_ifs at hstatus
    · exact hexec env hstatus
    · cases hstatus
  | caught carriedOut env hout =>
    split_ifs at hstatus
    · exact hexec env hstatus
    · cases hstatus

theorem role_swallow {st st' : Stmt} (h : swallow st = some (.goto st')) :
    st'.role = st.role ∧ st'.Truthful := by
  cases st with
  | compFind r host | syncAsk ref =>
    cases h
    exact ⟨rfl, by trivial⟩
  | compDelete r refs =>
    cases refs with
    | nil => cases h
    | cons ref refs =>
      cases h
      exact ⟨rfl, trivial⟩
  | _ => cases h

theorem goto_took {c : Cloud} {w : Workflow} {act : Act} {write : Write} {out : Outcome}
    (h : Took c w act write out) {st : Stmt} (hout : out = .goto st) :
    st.role = w.stmt.role ∧ st.Truthful := by
  cases h with
  | well env => exact role_exec (Prod.ext rfl hout)
  | crashed carriedOut env again => cases again <;> cases hout
  | caught carriedOut env hcaught =>
    rw [hout] at hcaught
    exact role_swallow hcaught

/-- A workflow that fails for good is outside of its handler, or nothing there is left to bring
the server back. -/
theorem fail_took {c : Cloud} {w : Workflow} {act : Act} {write : Write} {r : Server}
    (h : Took c w act write .fail) (hform : w.Formed) (howes : w.Owes)
    (hr : c.servers.find w.server = some r)
    (hcrash : ∀ carriedOut env, act = .crash carriedOut env false →
      ¬ (w.handling = true ∧ w.activity.recovers = true)) : w.handling = false := by
  by_contra hne
  have hhandling : w.handling = true := by simpa using hne
  have hrecovers := recovers_of_owes hform howes hhandling
  generalize hout : Outcome.fail = out at h
  cases h with
  | well env =>
    have hrole := fail_exec (Prod.ext rfl hout.symm) hr
    rw [hform.role] at hrole
    rcases hrole with hrole | hrole
    · exact (role_recovers hrecovers).1 hrole
    · exact (role_recovers hrecovers).2 hrole
  | crashed carriedOut env again =>
    cases again with
    | true => cases hout
    | false => exact hcrash carriedOut env rfl ⟨hhandling, hrecovers⟩
  | caught carriedOut env hcaught =>
    rw [← hout] at hcaught
    cases hstmt : w.stmt with
    | compDelete r refs => cases refs <;> rw [hstmt] at hcaught <;> cases hcaught
    | _ => rw [hstmt] at hcaught; cases hcaught

/-- An activity that settles the state is done only when the state is settled. -/
theorem not_done {c : Cloud} {w : Workflow} {act : Act} {write : Write} {out : Outcome} {r' : Server}
    {running : Bool} (h : Took c w act write out) (hform : w.Formed)
    (hr' : (c.apply w.server write).servers.find w.server = some r')
    (hunsettled : settled r'.status = false) (hsettles : w.activity.role.settles = true)
    (hout : out = .done running) : False := by
  cases h with
  | crashed carriedOut env again => cases again <;> cases hout
  | caught carriedOut env hcaught =>
    rw [hout] at hcaught
    cases hstmt : w.stmt with
    | compDelete r refs => cases refs <;> rw [hstmt] at hcaught <;> cases hcaught
    | _ => rw [hstmt] at hcaught; cases hcaught
  | well env =>
    have hwrites : w.stmt.role.writes = true := by
      rw [hform.role]
      cases hrole : w.activity.role with
      | silent | compensating => rw [hrole] at hsettles; cases hsettles
      | syncing | finalizing | sets status => rfl
    obtain ⟨status, hstatus⟩ := done_exec (Prod.ext rfl hout) hwrites
    have hsettled : settled status = true := by
      rcases (status_exec rfl hform.truthful hstatus).1 with hs | hrole
      · exact hs
      · rw [← hform.role, hrole] at hsettles
        exact hsettles
    rw [status_written hr' hstatus, hsettled] at hunsettled
    cases hunsettled

/-- A workflow that owes a settled state, or has just written another one, owes it still. -/
theorem owes_took {c : Cloud} {w : Workflow} {act : Act} {write : Write} {out : Outcome} {r' : Server}
    (h : Took c w act write out) (hform : w.Formed)
    (hcrash : ∀ carriedOut env, act = .crash carriedOut env false →
      ¬ (w.handling = true ∧ w.activity.recovers = true))
    (hr' : (c.apply w.server write).servers.find w.server = some r')
    (hunsettled : settled r'.status = false) (howes : w.Owes ∨ write.status = some r'.status) :
    ∃ w', w.advance out = some w' ∧ w'.Owes := by
  obtain ⟨r, hr, hwritten⟩ := status_apply hr'
  -- a state that is not settled is written by an activity that others follow
  have howes' : w.Owes := by
    rcases howes with howes | hstatus
    · exact howes
    · have hrole : w.activity.role = .sets r'.status := by
        rcases status_took h hform hstatus with hs | hrole
        · cases hunsettled.symm.trans hs
        · exact hrole
      have hrepays := hform.repays
      simp only [Workflow.left, repays, hrole, hunsettled, Bool.false_or, Bool.and_eq_true] at hrepays
      simp only [Workflow.Owes, Workflow.left, List.any_cons, hrepays.1, Bool.or_true]
  cases out with
  | goto st => exact ⟨_, rfl, howes'⟩
  | again => exact ⟨_, rfl, howes'⟩
  | fail =>
    exact owes_fail (hform.not_snapshot howes') (fail_took h hform howes' hr hcrash)
  | done running =>
    by_cases hsettles : w.activity.role.settles = true
    · exact (not_done h hform hr' hunsettled hsettles rfl).elim
    · exact owes_done hform howes' (by simpa using hsettles) running

theorem formed_addressing {pc : Pc} (h : pc.addressing = true ∨ ∃ error, pc = .rest error) :
    pc.Formed := by
  rcases h with h | ⟨error, rfl⟩
  · cases pc with
    | intent id type read | starting id type before | workflow w => cases h
    | _ => trivial
  · trivial

theorem formed_after {w : Option Workflow} (h : ∀ w', w = some w' → w'.Formed) :
    (Pc.after w).Formed := by
  cases w with
  | none => trivial
  | some w => exact h w rfl

theorem formed_moves {c c' : Cloud} {act : Act} {pc pc' : Pc} (h : Moves c act pc c' pc')
    (hform : pc.Formed) : pc'.Formed := by
  cases h with
  | call error call => exact formed_begin_call c call
  | insert env dto => exact List.mem_singleton.mpr rfl
  | intent env id type read => exact hform
  | started env id type before =>
    exact formed_after fun w hw => formed_begin (program_body type) hw
  | unstarted id type before =>
    split_ifs <;> trivial
  | startFailed env id => trivial
  | workflow h =>
    exact formed_after fun w hw => formed_advance hform (fun st hst => goto_took h hst) hw
  | addressed haddressing h => exact formed_addressing (addressed_next haddressing h).after
  | addressFailed haddressing h => exact formed_addressing (addressed_crash haddressing h).after

/-- After a step, a state that is not settled was so before or is owed by who has written it, and
a caller that owes one still does. -/
theorem owes_moves {c c' : Cloud} {act : Act} {pc pc' : Pc} (h : Moves c act pc c' pc')
    (hform : pc.Formed) (hfails : ∀ id type before, act = .startFails →
      pc = .starting id type before → type.quiet = true)
    (hcrash : ∀ carriedOut env w, act = .crash carriedOut env false → pc = .workflow w →
      ¬ (w.handling = true ∧ w.activity.recovers = true))
    {s : ℕ} {r' : Server} (hr' : c'.servers.find s = some r') (hunsettled : settled r'.status = false) :
    pc'.Owes s ∨ ¬ pc.Owes s ∧ ∃ r, c.servers.find s = some r ∧ settled r.status = false := by
  cases h with
  | call error call => exact .inr ⟨fun h => h, r', hr', hunsettled⟩
  | insert env dto =>
    by_cases hs : s = c.servers.fresh
    · subst hs
      cases (Table.find_put_self _ _ _).symm.trans hr'
      cases hunsettled
    · exact .inr ⟨fun h => h, r', (Table.find_put_of_ne _ hs _).symm.trans hr', hunsettled⟩
  | intent env id type read =>
    unfold writeIntent at hr'
    split_ifs at hr' with hne
    · obtain ⟨r, hr, hsame | ⟨hid, -⟩⟩ := status_apply hr'
      · exact .inr ⟨fun h => h, r, hr, by rw [← hsame]; exact hunsettled⟩
      · refine .inl ⟨hid.symm, ?_⟩
        by_contra hquiet
        exact hne (nextStatus_of_quiet (by simpa using hquiet) hform)
    · exact .inr ⟨fun h => h, r', hr', hunsettled⟩
  | started env id type before =>
    by_cases howes : Pc.Owes s (.starting id type before)
    · obtain ⟨rfl, hquiet⟩ := howes
      obtain ⟨w, hw, hwowes⟩ := owes_begin (w := ⟨id, c.nextWorkflow, type, .record, .record, [],
        false, false⟩) (owes_body hquiet)
      left
      rw [startWorkflow, hw]
      obtain ⟨a, rest, -, rfl⟩ := begin_eq_some hw
      exact ⟨rfl, hwowes⟩
    · exact .inr ⟨howes, r', hr', hunsettled⟩
  | unstarted id type before =>
    refine .inr ⟨?_, r', hr', hunsettled⟩
    intro howes
    cases (hfails id type before rfl rfl).symm.trans howes.2
  | startFailed env id =>
    obtain ⟨r, hr, hsame | ⟨-, hstatus⟩⟩ := status_apply hr'
    · exact .inr ⟨fun h => h, r, hr, by rw [← hsame]; exact hunsettled⟩
    · rw [← Option.some.inj hstatus] at hunsettled
      cases hunsettled
  | @workflow _ w write out h =>
    have hkeeps : w.server = s → w.Owes ∨ write.status = some r'.status →
        (Pc.after (w.advance out)).Owes s := by
      rintro rfl howes
      obtain ⟨w', hw', hwowes⟩ := owes_took h hform
        (fun carriedOut env hact => hcrash carriedOut env w hact rfl) hr' hunsettled howes
      rw [hw']
      exact ⟨server_advance hw', hwowes⟩
    by_cases howes : Pc.Owes s (.workflow w)
    · exact .inl (hkeeps howes.1 (.inl howes.2))
    · obtain ⟨r, hr, hsame | ⟨hs, hstatus⟩⟩ := status_apply hr'
      · exact .inr ⟨howes, r, hr, by rw [← hsame]; exact hunsettled⟩
      · exact .inl (hkeeps hs.symm (.inr hstatus))
  | addressed haddressing h =>
    rw [(addressed_next haddressing h).servers] at hr'
    refine .inr ⟨?_, r', hr', hunsettled⟩
    intro howes
    cases pc with
    | starting id type before | workflow w => cases haddressing
    | _ => exact howes
  | addressFailed haddressing h =>
    rw [(addressed_crash haddressing h).servers] at hr'
    refine .inr ⟨?_, r', hr', hunsettled⟩
    intro howes
    cases pc with
    | starting id type before | workflow w => cases haddressing
    | _ => exact howes

/-! ## Every run -/

/-- A state that is not settled is owed by somebody. -/
def Owed (w : World) : Prop :=
  (∀ s r, w.shared.servers.find s = some r → settled r.status = false → ∃ q, (w.pc q).Owes s) ∧
    ∀ q, (w.pc q).Formed

theorem owed_step {w : World} {a : ℕ × Act} (hrecovers : Recovers w a = true) (h : Owed w) :
    Owed (step w a) := by
  rcases callerStep_cases trans w a with heq | ⟨c, pc, ht, heq⟩
  · rw [step, heq]
    exact h
  · rw [step, heq]
    have hmoves := trans_moves ht
    refine ⟨?_, update_cases (P := fun _ (pc : Pc) => pc.Formed) (formed_moves hmoves (h.2 a.1))
      fun q _ => h.2 q⟩
    intro s r' hr' hunsettled
    have howes := owes_moves hmoves (h.2 a.1)
      (fun id type before hact hpc => by simpa [Recovers, hact, hpc] using hrecovers)
      (fun carriedOut env f hact hpc => by
        simpa [Recovers, hact, hpc, ← Bool.not_eq_true, imp_iff_not_or] using hrecovers)
      hr' hunsettled
    rcases howes with howes | ⟨hnot, r, hr, hbefore⟩
    · exact ⟨a.1, by simpa using howes⟩
    · obtain ⟨q, hq⟩ := h.1 s r hr hbefore
      have hne : q ≠ a.1 := by
        rintro rfl
        exact hnot hq
      exact ⟨q, by simpa [Function.update_of_ne hne] using hq⟩

theorem owed_start (hosts : Table ℕ Scheduler.Host) (ips : Table ℕ PublicIp) :
    Owed (start hosts ips) := by
  refine ⟨?_, fun _ => trivial⟩
  intro s r hr
  cases hr

theorem server_of_owes {pc : Pc} {s : ℕ} (h : pc.Owes s) : pc.server = some s := by
  cases pc with
  | starting id type before => exact congrArg some h.1
  | workflow w => exact congrArg some h.1
  | _ => exact h.elim

/-- In every run in which the workflow of a call that has changed the state starts, and what
brings a server back does not fail: a server that no call and no workflow is at work on is in a
settled state; and a call whose workflow does not start has left the state alone, or is a create
and the server fails. -/
theorem no_server_stuck (hosts : Table ℕ Scheduler.Host) (ips : Table ℕ PublicIp)
    (acts : List (ℕ × Act))
    (h : Meets step (fun w a => Recovers w a = true) (start hosts ips) acts) :
    let w := run step (start hosts ips) acts
    (∀ s r, w.shared.servers.find s = some r → (∀ q, (w.pc q).server ≠ some s) →
      r.status = .deleted ∨ r.status ∈ allowed .delete) ∧
    ∀ q id type before, w.pc q = .starting id type before → Recovers w (q, .startFails) = true →
      (step w (q, .startFails)).shared = w.shared ∧
        (nextStatus type before = before ∧ type ≠ .create ∨
          type = .create ∧ ∀ env r,
            (run step w [(q, .startFails), (q, .next env)]).shared.servers.find id = some r →
              r.status = .failed) := by
  intro w
  have howed := h.invariant (fun w a hc hw => owed_step hc hw) (owed_start hosts ips)
  refine ⟨?_, ?_⟩
  · intro s r hr hidle
    rw [← settled_iff]
    by_contra hunsettled
    obtain ⟨q, hq⟩ := howed.1 s r hr (by simpa using hunsettled)
    exact hidle q (server_of_owes hq)
  · intro q id type before hpc hrecovers
    have hquiet : type.quiet = true := by simpa [Recovers, hpc] using hrecovers
    have hallowed : before ∈ allowed type := by
      have hform := howed.2 q
      rw [hpc] at hform
      exact hform
    have hstep : step w (q, .startFails) = ⟨w.shared, Function.update w.pc q
        (if type = .create then .startFailed id else throws workflowUnavailable)⟩ := by
      rw [step, callerStep]
      simp [trans, hpc]
    refine ⟨by rw [hstep], ?_⟩
    by_cases hcreate : type = .create
    · refine .inr ⟨hcreate, ?_⟩
      intro env r hr
      rw [run_cons, run_cons, run_nil, hstep, step, callerStep] at hr
      simp only [trans, hcreate, if_true, Function.update_self, nextPc] at hr
      exact status_written hr rfl
    · exact .inl ⟨nextStatus_of_quiet hquiet hallowed, hcreate⟩

/-! ## A reboot that does not start -/

def small : CreateRequest := { projectId := 0, regionId := 0, size := ⟨1, 1024, 25⟩ }

def oneHost : Table ℕ Scheduler.Host :=
  Table.empty.put 0
    { regionId := 0, total := ⟨8, 16384, 500⟩, overcommit_nonneg := Scheduler.Host.overcommit_default }

def oneIp : Table ℕ PublicIp := Table.empty.put 0 { regionId := 0 }

/-- A create, from its call to the end of its workflow. -/
def created : List (ℕ × Act) :=
  (0, .call (.create small)) ::
    List.replicate 24 (0, .next { host := some 0, address := some 10 })

/-- A reboot up to the start of its workflow, and the workflow. -/
def rebooting : List (ℕ × Act) := [(1, .call (.action 1 .reboot)), (1, .next {})]
def rebooted : List (ℕ × Act) := List.replicate 5 (1, .next {})

def serverStatus (acts : List (ℕ × Act)) : Option ServerStatus :=
  ((run step (start oneHost oneIp) acts).shared.servers.find 1).map Server.status

/-- The reboot whose workflow does not start. -/
def unstarted : List (ℕ × Act) := created ++ rebooting ++ [(1, .startFails)]

theorem no_server_stuck_reboot :
    serverStatus (created ++ rebooting) = some .rebooting ∧
      serverStatus (created ++ rebooting ++ rebooted) = some .active ∧
      ∀ s r, (run step (start oneHost oneIp) (created ++ rebooting ++ rebooted)).shared.servers.find s =
        some r → (∀ q, ((run step (start oneHost oneIp) (created ++ rebooting ++ rebooted)).pc q).server ≠
          some s) → r.status = .deleted ∨ r.status ∈ allowed .delete :=
  ⟨by decide, by decide,
    (no_server_stuck oneHost oneIp (created ++ rebooting ++ rebooted) (by decide)).1⟩

theorem idle_of_callers {acts : List (ℕ × Act)} {n : ℕ} (hcallers : ∀ a ∈ acts, a.1 < n) {q : ℕ}
    (hq : n ≤ q) : (run step (start oneHost oneIp) acts).pc q = .rest none := by
  apply run_pc_of_notMem
  intro hmem
  obtain ⟨a, ha, rfl⟩ := List.mem_map.mp hmem
  have := hcallers a ha
  omega

/-- The workflow of a reboot does not start: the server stays in a state in which nothing is
allowed, with nobody at work on it. -/
theorem server_stuck_rebooting :
    serverStatus created = some .active ∧ serverStatus unstarted = some .rebooting ∧
      (∀ q, ((run step (start oneHost oneIp) unstarted).pc q).server = none) ∧
      ∀ type, ServerStatus.rebooting ∉ allowed type := by
  refine ⟨by decide, by decide, ?_, ?_⟩
  · intro q
    have hcases : q = 0 ∨ q = 1 ∨ 2 ≤ q := by omega
    rcases hcases with rfl | rfl | hq
    · decide
    · decide
    · rw [idle_of_callers (by decide) hq]
      rfl
  · intro type
    cases type <;> simp [allowed]

end Prgd.Compute
