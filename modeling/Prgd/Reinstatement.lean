import Prgd.Trust
import Mathlib.Data.List.Nodup

/-!
# Servers that a suspension stopped come back

A server of a suspended team is marked, and a workflow stops it. `reinstate` starts
every marked server that is off; one that is not off only loses its mark. So a
server whose stop still runs when its team is reinstated is taken for one that was
never stopped: it loses the mark, the stop finishes, and it stays off.

The module follows one server through every interleaving. It comes back when a
reinstatement does not overlap with powering off, when no stop of the team runs as
the marked servers are listed, and when the workflows that start servers do start.
A server that was off before is never started, in any interleaving.
-/
namespace Prgd.Trust
open Interleaving Agenda

/-- Tasks of a reinstatement of the team that are still to reach the server. -/
def isBack (team x : ℕ) : Task → Bool
  | .convertSuspended id | .listPoweredOff id => id = team
  | .restore id _ | .power id .start | .startWorkflow id .start | .undoStart id | .unmark id => id = x
  | _ => false

/-- Tasks that are about to stop the server. -/
def isOff (x : ℕ) : Task → Bool
  | .markPoweredOff id | .power id .stop | .startWorkflow id .stop => id = x
  | _ => false

def TeamActive (s : Company) (team : ℕ) : Prop :=
  ∃ t, s.teams.find team = some t ∧ t.status = .active

variable {s : Company} {ok : Bool} {t next : Task} {team x : ℕ} {v : Server}

/-! ## What a task does to a server -/

/-- The server that a task writes. -/
def written : Task → Option ℕ
  | .markPoweredOff id | .power id _ | .undoStart id | .restore id _ | .unmark id => some id
  | _ => none

theorem find_setServer_of_ne {id : ℕ} (h : id ≠ x) (g : Server → Server) :
    (s.setServer id g).servers.find x = s.servers.find x := by
  rw [Company.setServer, Table.find_modify, if_neg h.symm]

theorem find_setServer (h : s.servers.find x = some v) (g : Server → Server) :
    (s.setServer x g).servers.find x = some (g v) := by
  rw [Company.setServer, Table.find_modify, if_pos rfl, h, Option.map_some]

/-- A server keeps its row under every task that does not write it. Servers that were
left in the old status are none of those that are followed here. -/
theorem find_server_exec (h : s.servers.find x = some v) (ht : written t ≠ some x)
    (hv : v.status ≠ .suspended) : (exec s ok t).1.servers.find x = some v := by
  cases t with
  | claimStage now id inv teamStatus =>
    simp only [exec, claimStage]
    split_ifs <;> exact h
  | suspend teamId reason | enforceSuspension teamId | reinstateIfSettled teamId =>
    simp only [exec]
    split <;> exact h
  | startWorkflow id op =>
    simp only [exec]
    split_ifs <;> exact h
  | restore id status =>
    have hid : id ≠ x := fun heq => ht (congrArg some heq)
    simp only [exec]
    split_ifs
    · exact h
    · exact (find_setServer_of_ne hid _).trans h
  | markPoweredOff id | power id _ | undoStart id | unmark id =>
    have hid : id ≠ x := fun heq => ht (congrArg some heq)
    exact (find_setServer_of_ne hid _).trans h
  | convertSuspended teamId => simp [exec, h, convert, hv]
  | readOverdue _ | remind _ _ _ _ _ | storeSuspension _ _ | powerOffRunning _ | retryPowerOff _
  | countOverdue _ | reinstate _ | listPoweredOff _ => exact h

/-- The workflows of a server change when one is started for it. -/
theorem workflows_exec (s : Company) (ok : Bool) (t : Task) : (exec s ok t).1.workflows = s.workflows ∨
    ∃ id op, t = .startWorkflow id op ∧ ok = true ∧
      (exec s ok t).1.workflows = (id, op) :: s.workflows := by
  cases t with
  | claimStage now id inv teamStatus =>
    left
    simp only [exec, claimStage]
    split_ifs <;> rfl
  | suspend teamId reason | enforceSuspension teamId | reinstateIfSettled teamId =>
    left
    simp only [exec]
    split <;> rfl
  | startWorkflow id op =>
    simp only [exec]
    split_ifs with hok
    · exact .inr ⟨id, op, rfl, hok, rfl⟩
    · exact .inl rfl
  | restore id status =>
    left
    simp only [exec]
    split_ifs <;> rfl
  | readOverdue _ | remind _ _ _ _ _ | storeSuspension _ _ | powerOffRunning _ | markPoweredOff _
  | power _ _ | undoStart _ | retryPowerOff _ | countOverdue _ | reinstate _ | convertSuspended _
  | listPoweredOff _ | unmark _ => exact .inl rfl

/-- A team becomes active when it is reinstated. -/
theorem teamActive_exec (ht : t ≠ .reinstate team) :
    TeamActive (exec s ok t).1 team → TeamActive s team := by
  intro h
  obtain ⟨row, hrow, hactive⟩ := h
  rcases exec_teams s ok t with heq | ⟨id, reason, rfl, heq⟩ | ⟨id, rfl, heq⟩
  · rw [heq] at hrow
    exact ⟨row, hrow, hactive⟩
  · rw [heq, Table.find_modify] at hrow
    split_ifs at hrow
    · obtain ⟨_, _, rfl⟩ := Option.map_eq_some_iff.mp hrow
      cases hactive
    · exact ⟨row, hrow, hactive⟩
  · have hid : team ≠ id := by
      rintro rfl
      exact ht rfl
    rw [heq, Table.find_modify, if_neg hid] at hrow
    exact ⟨row, hrow, hactive⟩

/-! ## A server that was not running -/

/-- The server that a task is about. -/
def serverOf : Task → Option ℕ
  | .markPoweredOff id | .power id _ | .startWorkflow id _ | .undoStart id | .restore id _
  | .unmark id => some id
  | _ => none

/-- Nothing is to be done for a server that does not run. -/
structure Asleep (x : ℕ) (v : Server) (w : Office) : Prop where
  found : w.shared.servers.find x = some v
  stopped : isRunning v.teamId v = false
  current : v.status ≠ .suspended
  unmarked : v.suspendedPoweredOff = false
  quiet : ∀ q, ∀ t ∈ w.pc q, serverOf t ≠ some x
  none : ∀ op, (x, op) ∉ w.shared.workflows

/-- Nobody else changes the server. -/
def Untouched (x : ℕ) (a : ℕ × Act) : Prop := ∀ status, a.2 ≠ .outside (.touch x status)

/-- Tasks for a server follow from tasks for it, from the list of the running servers
and from the list of the marked ones. -/
theorem serverOf_exec (h : next ∈ (exec s ok t).2) (hnext : serverOf next = some x) :
    serverOf t = some x ∨
    (∃ v, s.servers.find x = some v ∧ isRunning v.teamId v ∧ t = .powerOffRunning v.teamId) ∨
    ∃ v, s.servers.find x = some v ∧ v.suspendedPoweredOff = true ∧ t = .listPoweredOff v.teamId := by
  cases follows_exec h with
  | @mark teamId id v hfind hrunning =>
    cases hnext
    have hteam : v.teamId = teamId := by
      simp only [isRunning, Bool.decide_and, Bool.and_eq_true, decide_eq_true_eq] at hrunning
      exact hrunning.1
    subst hteam
    exact .inr (.inl ⟨v, hfind, hrunning, rfl⟩)
  | restore hfind hmark _ =>
    cases hnext
    exact .inr (.inr ⟨_, hfind, hmark, rfl⟩)
  | stop | startWorkflow | started _ | failed _ | undone | start => exact .inl hnext
  | _ => cases hnext

theorem written_eq_serverOf (h : written t = some x) : serverOf t = some x := by
  cases t with
  | markPoweredOff _ | power _ _ | undoStart _ | restore _ _ | unmark _ => exact h
  | _ => cases h

theorem serverOf_tasks {p : Proc} (h : t ∈ p.tasks) : serverOf t = none := by
  cases p with
  | flag id kind score =>
    simp only [Proc.tasks] at h
    split_ifs at h
    · obtain rfl := List.mem_singleton.mp h
      rfl
    · cases h
  | dunning _ | suspend _ _ | enforceSuspension _ | reinstateIfSettled _ | reinstate _ =>
    obtain rfl := List.mem_singleton.mp h
    rfl

theorem mem_outside_workflows {e : Event} {f : ℕ × Op} (h : f ∈ (outside s e).workflows) :
    f ∈ s.workflows := by
  cases e with
  | complete j =>
    simp only [outside] at h
    split at h
    · exact h
    · exact List.mem_of_mem_eraseIdx h
  | bill _ _ | close _ | touch _ _ => exact h

/-- An event leaves a server alone unless it is touched or one of its workflows finishes. -/
theorem find_server_outside {e : Event} (h : s.servers.find x = some v)
    (htouch : ∀ status, e ≠ .touch x status)
    (hfinish : ∀ j op, e = .complete j → s.workflows[j]? ≠ some (x, op)) :
    (outside s e).servers.find x = some v := by
  cases e with
  | complete j =>
    simp only [outside]
    split
    · exact h
    · rename_i id op hj
      have hid : id ≠ x := by
        rintro rfl
        exact hfinish j op rfl hj
      exact (find_setServer_of_ne hid _).trans h
  | touch id status =>
    have hid : id ≠ x := by
      rintro rfl
      exact htouch status rfl
    exact (find_setServer_of_ne hid _).trans h
  | bill _ _ | close _ => exact h

theorem Asleep.step {w : Office} {a : ℕ × Act} (h : Asleep x v w) (ha : Untouched x a) :
    Asleep x v (step w a) := by
  rcases step_cases machine w a with heq | ⟨p, _, _, heq⟩ | ⟨ok, t, rest, _, hpc, heq⟩ |
    ⟨e, hact, heq⟩
  · rw [Trust.step, heq]
    exact h
  · rw [Trust.step, heq]
    refine ⟨h.found, h.stopped, h.current, h.unmarked, ?_, h.none⟩
    apply update_cases (P := fun _ todo => ∀ t ∈ todo, serverOf t ≠ some x)
    · intro t ht hx
      rw [serverOf_tasks ht] at hx
      cases hx
    · intro q _
      exact h.quiet q
  · rw [Trust.step, heq]
    have ht : serverOf t ≠ some x := h.quiet a.1 t (by simp [hpc])
    refine ⟨find_server_exec h.found (fun hw => ht (written_eq_serverOf hw)) h.current, h.stopped,
      h.current, h.unmarked, ?_, ?_⟩
    · intro q t' ht' hx
      rcases mem_advance hpc ht' with hold | ⟨_, hnew⟩
      · exact h.quiet q t' hold hx
      · rcases serverOf_exec hnew hx with hsame | ⟨v', hv', hrun, _⟩ | ⟨v', hv', hmark, _⟩
        · exact ht hsame
        · rw [h.found] at hv'
          obtain rfl := Option.some.inj hv'
          rw [h.stopped] at hrun
          cases hrun
        · rw [h.found] at hv'
          obtain rfl := Option.some.inj hv'
          rw [h.unmarked] at hmark
          cases hmark
    · intro op hop
      change (x, op) ∈ (exec w.shared ok t).1.workflows at hop
      rcases workflows_exec w.shared ok t with hsame | ⟨id, op', rfl, _, hcons⟩
      · rw [hsame] at hop
        exact h.none op hop
      · rw [hcons] at hop
        rcases List.mem_cons.mp hop with hnew | hold
        · injection hnew with hid _
          subst hid
          exact ht rfl
        · exact h.none op hold
  · rw [Trust.step, heq]
    refine ⟨find_server_outside h.found ?_ ?_, h.stopped, h.current, h.unmarked, h.quiet, ?_⟩
    · rintro status rfl
      exact ha status hact
    · intro j op _ hj
      exact h.none op (List.mem_of_getElem? hj)
    · intro op hop
      exact h.none op (mem_outside_workflows hop)

/-! ## A server that was running -/

/-- What is known of the server when a task is to be done. -/
def Placed (s : Company) (team x : ℕ) (v : Server) : Task → Prop
  | .powerOffRunning id => id = team → ¬ TeamActive s team
  | .markPoweredOff id => id = x → (v.status = .active ∨ v.status = .off) ∧
      (x, .start) ∉ s.workflows ∧ ¬ TeamActive s team
  | .power id .stop | .startWorkflow id .stop => id = x → v.suspendedPoweredOff = true ∧
      (v.status = .active ∨ v.status = .off) ∧ (x, .start) ∉ s.workflows ∧ ¬ TeamActive s team
  | .restore id status => id = x → v.suspendedPoweredOff = true ∧ v.status = status ∧
      (status = .active ∨ status = .off) ∧ (x, .stop) ∉ s.workflows
  | .power id .start => id = x → v.suspendedPoweredOff = true ∧ v.status = .off ∧
      (x, .stop) ∉ s.workflows
  | .startWorkflow id .start => id = x → v.suspendedPoweredOff = true ∧ v.status = .provisioning ∧
      (x, .stop) ∉ s.workflows ∧ (x, .start) ∉ s.workflows
  | .unmark id => id = x → v.suspendedPoweredOff = true ∧ v.status ≠ .off ∧
      (x, .stop) ∉ s.workflows
  | .undoStart id => id ≠ x
  | _ => True

/-- The mark, the status and the workflows of a server that was running. -/
structure Tracked (team x : ℕ) (v : Server) (w : Office) : Prop where
  found : w.shared.servers.find x = some v
  ofTeam : v.teamId = team
  alive : v.deleted = false
  lone : Lone (isBack team x) w
  apart : ∀ q, ∀ t ∈ w.pc q, isBack team x t = true → ∀ q', ∀ t' ∈ w.pc q', isOff x t' = false
  placed : ∀ q, ∀ t ∈ w.pc q, Placed w.shared team x v t
  once : w.shared.workflows.count (x, .start) ≤ 1
  starting : (x, .start) ∈ w.shared.workflows → v.status = .provisioning ∧
    (x, .stop) ∉ w.shared.workflows ∧ (v.suspendedPoweredOff = false ∨ ∃ q, .unmark x ∈ w.pc q)
  stopping : (x, .stop) ∈ w.shared.workflows → v.suspendedPoweredOff = true ∧
    (v.status = .active ∨ v.status = .off)
  status : v.status = .active ∨ v.status = .off ∧ v.suspendedPoweredOff = true ∨
    v.status = .provisioning ∧
      ((x, .start) ∈ w.shared.workflows ∨ ∃ q, .startWorkflow x .start ∈ w.pc q)
  marked : TeamActive w.shared team → v.suspendedPoweredOff = true →
    ∃ q, ∃ t ∈ w.pc q, isBack team x t = true

theorem Placed.mono {s' : Company} (h : Placed s team x v t)
    (hworkflows : ∀ op, (x, op) ∈ s'.workflows → (x, op) ∈ s.workflows)
    (hteam : TeamActive s' team → TeamActive s team) : Placed s' team x v t := by
  have hnot : ∀ op, (x, op) ∉ s.workflows → (x, op) ∉ s'.workflows :=
    fun op hno hin => hno (hworkflows op hin)
  have hidle : ¬ TeamActive s team → ¬ TeamActive s' team := fun hno hin => hno (hteam hin)
  cases t with
  | powerOffRunning id => exact fun hid => hidle (h hid)
  | markPoweredOff id =>
    intro hid
    obtain ⟨hstatus, hstart, hactive⟩ := h hid
    exact ⟨hstatus, hnot _ hstart, hidle hactive⟩
  | power id op =>
    cases op with
    | stop =>
      intro hid
      obtain ⟨hmark, hstatus, hstart, hactive⟩ := h hid
      exact ⟨hmark, hstatus, hnot _ hstart, hidle hactive⟩
    | start =>
      intro hid
      obtain ⟨hmark, hstatus, hstop⟩ := h hid
      exact ⟨hmark, hstatus, hnot _ hstop⟩
  | startWorkflow id op =>
    cases op with
    | stop =>
      intro hid
      obtain ⟨hmark, hstatus, hstart, hactive⟩ := h hid
      exact ⟨hmark, hstatus, hnot _ hstart, hidle hactive⟩
    | start =>
      intro hid
      obtain ⟨hmark, hstatus, hstop, hstart⟩ := h hid
      exact ⟨hmark, hstatus, hnot _ hstop, hnot _ hstart⟩
  | restore id status =>
    intro hid
    obtain ⟨hmark, hstatus, hcase, hstop⟩ := h hid
    exact ⟨hmark, hstatus, hcase, hnot _ hstop⟩
  | unmark id =>
    intro hid
    obtain ⟨hmark, hstatus, hstop⟩ := h hid
    exact ⟨hmark, hstatus, hnot _ hstop⟩
  | undoStart id => exact h
  | _ => trivial

section
variable {w : Office} {i : ℕ} {rest : List Task} {v' : Server}

/-- A task of a reinstatement is still to be done after any other task. -/
theorem mem_of_isBack {q : ℕ} {t' : Task} (hpc : w.pc i = t :: rest) (ht : isBack team x t = false)
    (hback : isBack team x t' = true) (h : t' ∈ w.pc q) :
    t' ∈ (advance machine w i ok t rest).pc q := by
  rcases mem_advance_of_mem hpc h with hstay | ⟨_, rfl⟩
  · exact hstay
  · rw [ht] at hback
    cases hback

/-- A task that leaves the server, its workflows and the team alone. -/
theorem Tracked.frame (h : Tracked team x v w) (hpc : w.pc i = t :: rest)
    (ht : isBack team x t = false)
    (hfound : (exec w.shared ok t).1.servers.find x = some v)
    (hworkflows : ∀ op, (exec w.shared ok t).1.workflows.count (x, op) =
      w.shared.workflows.count (x, op))
    (hteam : TeamActive (exec w.shared ok t).1 team → TeamActive w.shared team)
    (hnew : ∀ next ∈ (exec w.shared ok t).2, isBack team x next = false ∧
      Placed (exec w.shared ok t).1 team x v next ∧
      (isOff x next = true → ∀ q, ∀ t' ∈ w.pc q, isBack team x t' = false)) :
    Tracked team x v (advance machine w i ok t rest) := by
  have hmem : ∀ op, (x, op) ∈ (exec w.shared ok t).1.workflows ↔ (x, op) ∈ w.shared.workflows := by
    intro op
    rw [← List.count_pos_iff, ← List.count_pos_iff, hworkflows]
  constructor
  · exact hfound
  · exact h.ofTeam
  · exact h.alive
  · exact h.lone.kept hpc fun next hnext => (hnew next hnext).1
  · intro q t₁ h₁ hback q' t₂ h₂
    have hold : t₁ ∈ w.pc q := by
      rcases mem_advance hpc h₁ with hold | ⟨_, hin⟩
      · exact hold
      · rw [(hnew t₁ hin).1] at hback
        cases hback
    rcases mem_advance hpc h₂ with hold' | ⟨_, hin⟩
    · exact h.apart q t₁ hold hback q' t₂ hold'
    · cases hoff : isOff x t₂ with
      | false => rfl
      | true =>
        rw [(hnew t₂ hin).2.2 hoff q t₁ hold] at hback
        cases hback
  · intro q t' ht'
    rcases mem_advance hpc ht' with hold | ⟨_, hin⟩
    · exact (h.placed q t' hold).mono (fun op => (hmem op).mp) hteam
    · exact (hnew t' hin).2.1
  · show (exec w.shared ok t).1.workflows.count (x, .start) ≤ 1
    rw [hworkflows]
    exact h.once
  · intro hstart
    obtain ⟨hstatus, hstop, hmark⟩ := h.starting ((hmem _).mp hstart)
    refine ⟨hstatus, fun hin => hstop ((hmem _).mp hin), ?_⟩
    rcases hmark with hmark | ⟨q, hq⟩
    · exact .inl hmark
    · exact .inr ⟨q, mem_of_isBack hpc ht (by simp [isBack]) hq⟩
  · intro hstop
    exact h.stopping ((hmem _).mp hstop)
  · rcases h.status with hactive | hoff | ⟨hprov, hstart | ⟨q, hq⟩⟩
    · exact .inl hactive
    · exact .inr (.inl hoff)
    · exact .inr (.inr ⟨hprov, .inl ((hmem _).mpr hstart)⟩)
    · exact .inr (.inr ⟨hprov, .inr ⟨q, mem_of_isBack hpc ht (by simp [isBack]) hq⟩⟩)
  · intro hactive hmark
    obtain ⟨q, t', ht', hback⟩ := h.marked (hteam hactive) hmark
    exact ⟨q, t', mem_of_isBack hpc ht hback ht', hback⟩

/-- While no reinstatement is under way, everything that stops the server fits a
marked server that is running or off. -/
theorem placed_of_marked (hmark : v.suspendedPoweredOff = true)
    (hstatus : v.status = .active ∨ v.status = .off) (hstart : (x, .start) ∉ s.workflows)
    (hteam : ¬ TeamActive s team) (ht : isBack team x t = false) : Placed s team x v t := by
  cases t with
  | powerOffRunning id => exact fun _ => hteam
  | markPoweredOff id => exact fun _ => ⟨hstatus, hstart, hteam⟩
  | power id op | startWorkflow id op =>
    cases op with
    | stop => exact fun _ => ⟨hmark, hstatus, hstart, hteam⟩
    | start =>
      intro hid
      simp [isBack, hid] at ht
  | restore id status | unmark id | undoStart id =>
    intro hid
    simp [isBack, hid] at ht
  | _ => trivial

/-- A step that stops the server. -/
theorem Tracked.stopStep (h : Tracked team x v w) (hpc : w.pc i = t :: rest) (ht : isOff x t = true)
    (hfound : (exec w.shared ok t).1.servers.find x = some v') (hof : v'.teamId = team)
    (halive : v'.deleted = false) (hmark : v'.suspendedPoweredOff = true)
    (hstatus : v'.status = .active ∨ v'.status = .off)
    (hstart : (x, .start) ∉ (exec w.shared ok t).1.workflows)
    (hteam : ¬ TeamActive (exec w.shared ok t).1 team)
    (hnew : ∀ next ∈ (exec w.shared ok t).2, isBack team x next = false) :
    Tracked team x v' (advance machine w i ok t rest) := by
  have hnone : ∀ q, ∀ t' ∈ w.pc q, isBack team x t' = false := by
    intro q t' ht'
    cases hback : isBack team x t' with
    | false => rfl
    | true =>
      have hoff := h.apart q t' ht' hback i t (by simp [hpc])
      rw [ht] at hoff
      cases hoff
  have hnone' : ∀ q, ∀ t' ∈ (Agenda.advance machine w i ok t rest).pc q, isBack team x t' = false := by
    intro q t' ht'
    rcases mem_advance hpc ht' with hold | ⟨_, hin⟩
    · exact hnone q t' hold
    · exact hnew t' hin
  constructor
  · exact hfound
  · exact hof
  · exact halive
  · exact h.lone.kept hpc hnew
  · intro q t₁ h₁ hback
    rw [hnone' q t₁ h₁] at hback
    cases hback
  · intro q t' ht'
    exact placed_of_marked hmark hstatus hstart hteam (hnone' q t' ht')
  · show (exec w.shared ok t).1.workflows.count (x, .start) ≤ 1
    rw [List.count_eq_zero.mpr hstart]
    exact Nat.zero_le 1
  · exact fun hin => (hstart hin).elim
  · exact fun _ => ⟨hmark, hstatus⟩
  · rcases hstatus with hactive | hoff
    · exact .inl hactive
    · exact .inr (.inl ⟨hoff, hmark⟩)
  · exact fun hactive => (hteam hactive).elim

/-- A task that neither stops the server nor brings it back. -/
theorem placed_of_quiet (hback : isBack team x t = false) (hoff : isOff x t = false)
    (hteam : t = .powerOffRunning team → ¬ TeamActive s team) : Placed s team x v t := by
  cases t with
  | powerOffRunning id =>
    intro hid
    exact hteam (by rw [hid])
  | power id op | startWorkflow id op =>
    cases op with
    | stop =>
      intro hid
      simp [isOff, hid] at hoff
    | start =>
      intro hid
      simp [isBack, hid] at hback
  | markPoweredOff id =>
    intro hid
    simp [isOff, hid] at hoff
  | restore id status | unmark id | undoStart id =>
    intro hid
    simp [isBack, hid] at hback
  | _ => trivial

/-- What else is to be done leaves the server alone. -/
def Quiet (team x : ℕ) (w : Office) (s : Company) (i : ℕ) (rest : List Task) : Prop :=
  ∀ t, (t ∈ rest ∨ ∃ q, q ≠ i ∧ t ∈ w.pc q) → isBack team x t = false ∧ isOff x t = false ∧
    (t = .powerOffRunning team → ¬ TeamActive s team)

/-- While a reinstatement has a task for the server, the other tasks leave it alone. -/
theorem Tracked.quiet (h : Tracked team x v w) (hpc : w.pc i = t :: rest)
    (ht : isBack team x t = true)
    (hteam : TeamActive (exec w.shared ok t).1 team → TeamActive w.shared team) :
    Quiet team x w (exec w.shared ok t).1 i rest := by
  obtain ⟨hrest, hothers⟩ := h.lone.others hpc ht
  have hoff := h.apart i t (by simp [hpc]) ht
  intro t' ht'
  have hin : ∃ q, t' ∈ w.pc q := by
    rcases ht' with hmem | ⟨q, _, hmem⟩
    · exact ⟨i, by rw [hpc]; exact List.mem_cons_of_mem t hmem⟩
    · exact ⟨q, hmem⟩
  obtain ⟨q, hq⟩ := hin
  refine ⟨?_, hoff q t' hq, ?_⟩
  · rcases ht' with hmem | ⟨q, hne, hmem⟩
    · exact hrest t' hmem
    · exact hothers q hne t' hmem
  · rintro rfl hactive
    exact h.placed q _ hq rfl (hteam hactive)

/-- A step of a reinstatement. -/
theorem Tracked.backStep
    (hquiet : Quiet team x w (exec w.shared ok t).1 i rest)
    (hfound : (exec w.shared ok t).1.servers.find x = some v') (hof : v'.teamId = team)
    (halive : v'.deleted = false)
    (hlone : ((exec w.shared ok t).2.filter (isBack team x)).length ≤ 1)
    (hnew : ∀ next ∈ (exec w.shared ok t).2, isOff x next = false ∧
      Placed (exec w.shared ok t).1 team x v' next)
    (honce : (exec w.shared ok t).1.workflows.count (x, .start) ≤ 1)
    (hstarting : (x, .start) ∈ (exec w.shared ok t).1.workflows → v'.status = .provisioning ∧
      (v'.suspendedPoweredOff = false ∨ .unmark x ∈ (exec w.shared ok t).2))
    (hstopping : (x, .stop) ∈ (exec w.shared ok t).1.workflows → v'.suspendedPoweredOff = true ∧
      (v'.status = .active ∨ v'.status = .off))
    (hstatus : v'.status = .active ∨ v'.status = .off ∧ v'.suspendedPoweredOff = true ∨
      v'.status = .provisioning ∧ ((x, .start) ∈ (exec w.shared ok t).1.workflows ∨
        .startWorkflow x .start ∈ (exec w.shared ok t).2))
    (hmarked : v'.suspendedPoweredOff = true →
      ∃ next ∈ (exec w.shared ok t).2, isBack team x next = true) :
    Tracked team x v' (advance machine w i ok t rest) := by
  have hsplit : ∀ q, ∀ t' ∈ (Agenda.advance machine w i ok t rest).pc q,
      t' ∈ (exec w.shared ok t).2 ∨ t' ∈ rest ∨ ∃ q, q ≠ i ∧ t' ∈ w.pc q := by
    apply update_cases (P := fun _ todo => ∀ t' ∈ todo,
      t' ∈ (exec w.shared ok t).2 ∨ t' ∈ rest ∨ ∃ q, q ≠ i ∧ t' ∈ w.pc q)
    · intro t' ht'
      rcases List.mem_append.mp ht' with hin | hin
      · exact .inl hin
      · exact .inr (.inl hin)
    · intro q hq t' ht'
      exact .inr (.inr ⟨q, hq, ht'⟩)
  constructor
  · exact hfound
  · exact hof
  · exact halive
  · apply lone_advance
    · intro t' ht'
      exact (hquiet t' (.inl ht')).1
    · intro q hq t' ht'
      exact (hquiet t' (.inr ⟨q, hq, ht'⟩)).1
    · exact hlone
  · intro _ _ _ _ q t' ht'
    rcases hsplit q t' ht' with hin | hold
    · exact (hnew t' hin).1
    · exact (hquiet t' hold).2.1
  · intro q t' ht'
    rcases hsplit q t' ht' with hin | hold
    · exact (hnew t' hin).2
    · obtain ⟨hback, hoff, hteam⟩ := hquiet t' hold
      exact placed_of_quiet hback hoff hteam
  · exact honce
  · intro hstart
    obtain ⟨hprov, hmark⟩ := hstarting hstart
    refine ⟨hprov, ?_, ?_⟩
    · intro hstop
      rcases (hstopping hstop).2 with heq | heq <;> rw [hprov] at heq <;> cases heq
    · rcases hmark with hmark | hin
      · exact .inl hmark
      · exact .inr ⟨i, mem_advance_of_exec hin⟩
  · exact hstopping
  · rcases hstatus with hactive | hoff | ⟨hprov, hstart | hin⟩
    · exact .inl hactive
    · exact .inr (.inl hoff)
    · exact .inr (.inr ⟨hprov, .inl hstart⟩)
    · exact .inr (.inr ⟨hprov, .inr ⟨i, mem_advance_of_exec hin⟩⟩)
  · intro _ hmark
    obtain ⟨next, hin, hback⟩ := hmarked hmark
    exact ⟨i, next, mem_advance_of_exec hin, hback⟩

end

/-! ## When servers come back -/

/-- Tasks of a reinstatement of the team, or of one of its servers. -/
def backTask (s : Company) (team : ℕ) : Task → Bool
  | .convertSuspended id | .listPoweredOff id => id = team
  | .restore id _ | .power id .start | .startWorkflow id .start | .undoStart id | .unmark id =>
      (s.servers.find id).any fun v => v.teamId = team
  | _ => false

/-- Tasks that power off servers of the team. -/
def offTask (s : Company) (team : ℕ) : Task → Bool
  | .powerOffRunning id => id = team
  | .markPoweredOff id | .power id .stop | .startWorkflow id .stop =>
      (s.servers.find id).any fun v => v.teamId = team
  | _ => false

/-- A reinstatement of the team begins when nothing is being powered off or brought
back, servers are powered off when none is being brought back, no stop runs as the
marked servers are listed, and a workflow that starts a server does start. -/
def Calm (team : ℕ) (w : Office) (a : ℕ × Act) : Prop :=
  match a.2, w.pc a.1 with
  | .go _, .reinstate id :: _ => id = team → ∀ q, ∀ t ∈ w.pc q,
      backTask w.shared team t = false ∧ offTask w.shared team t = false
  | .go _, .powerOffRunning id :: _ => id = team → ∀ q, ∀ t ∈ w.pc q,
      backTask w.shared team t = false
  | .go _, .listPoweredOff id :: _ => id = team → ∀ e ∈ w.shared.workflows, e.2 = .stop →
      ∀ v ∈ w.shared.servers.find e.1, v.teamId ≠ team
  | .go ok, .startWorkflow id .start :: _ =>
      (∃ v ∈ w.shared.servers.find id, v.teamId = team) → ok = true
  | _, _ => True

theorem backTask_of_isBack (hfound : s.servers.find x = some v) (hof : v.teamId = team)
    (h : isBack team x t = true) : backTask s team t = true := by
  cases t with
  | convertSuspended id | listPoweredOff id => exact h
  | power id op | startWorkflow id op =>
    cases op with
    | stop => cases h
    | start =>
      obtain rfl : id = x := by simpa [isBack] using h
      simp [backTask, hfound, hof]
  | restore id _ | undoStart id | unmark id =>
    obtain rfl : id = x := by simpa [isBack] using h
    simp [backTask, hfound, hof]
  | _ => cases h

theorem offTask_of_isOff (hfound : s.servers.find x = some v) (hof : v.teamId = team)
    (h : isOff x t = true) : offTask s team t = true := by
  cases t with
  | power id op | startWorkflow id op =>
    cases op with
    | start => cases h
    | stop =>
      obtain rfl : id = x := by simpa [isOff] using h
      simp [offTask, hfound, hof]
  | markPoweredOff id =>
    obtain rfl : id = x := by simpa [isOff] using h
    simp [offTask, hfound, hof]
  | _ => cases h

theorem isBack_eq_false (hserver : serverOf t ≠ some x) (hconvert : t ≠ .convertSuspended team)
    (hlist : t ≠ .listPoweredOff team) : isBack team x t = false := by
  cases t with
  | convertSuspended id | listPoweredOff id => simpa [isBack] using fun heq => by simp_all
  | power id op | startWorkflow id op =>
    cases op with
    | stop => rfl
    | start => simpa [isBack] using fun heq => hserver (congrArg some heq)
  | restore id _ | undoStart id | unmark id =>
    simpa [isBack] using fun heq => hserver (congrArg some heq)
  | _ => rfl

theorem isOff_eq_false (hserver : serverOf t ≠ some x) : isOff x t = false := by
  cases t with
  | power id op | startWorkflow id op =>
    cases op with
    | start => rfl
    | stop => simpa [isOff] using fun heq => hserver (congrArg some heq)
  | markPoweredOff id => simpa [isOff] using fun heq => hserver (congrArg some heq)
  | _ => rfl

/-- Servers of the team are listed to be powered off after its suspension. -/
theorem not_teamActive_of_powerOff (h : .powerOffRunning team ∈ (exec s ok t).2) :
    ¬ TeamActive (exec s ok t).1 team := by
  rintro ⟨row, hrow, hactive⟩
  cases follows_exec h with
  | powerOff =>
    simp only [exec, Company.setTeam, Table.find_modify, if_pos] at hrow
    obtain ⟨_, _, rfl⟩ := Option.map_eq_some_iff.mp hrow
    cases hactive
  | enforced hteam hsuspended =>
    simp only [exec, hteam] at hrow
    cases hrow
    rw [hsuspended] at hactive
    cases hactive

theorem reinstate_of_convert (h : .convertSuspended team ∈ (exec s ok t).2) : t = .reinstate team := by
  cases follows_exec h
  rfl

theorem convert_of_list (h : .listPoweredOff team ∈ (exec s ok t).2) : t = .convertSuspended team := by
  cases follows_exec h
  rfl

section
variable {w : Office} {i : ℕ} {rest : List Task}

theorem Tracked.not_suspended (h : Tracked team x v w) : v.status ≠ .suspended := by
  rcases h.status with heq | ⟨heq, _⟩ | ⟨heq, _⟩ <;> rw [heq] <;> decide

theorem Tracked.here (h : Tracked team x v w) (hpc : w.pc i = t :: rest) :
    Placed w.shared team x v t := h.placed i t (by simp [hpc])

/-- A server that is being started is neither running nor off. -/
theorem Tracked.not_starting (h : Tracked team x v w)
    (hstatus : v.status = .active ∨ v.status = .off) : (x, .start) ∉ w.shared.workflows := by
  intro hstart
  have hprov := (h.starting hstart).1
  rcases hstatus with heq | heq <;> rw [hprov] at heq <;> cases heq

theorem count_workflows_exec (hserver : serverOf t ≠ some x) (op : Op) :
    (exec s ok t).1.workflows.count (x, op) = s.workflows.count (x, op) := by
  rcases workflows_exec s ok t with heq | ⟨id, op', rfl, _, heq⟩
  · rw [heq]
  · rw [heq, List.count_cons_of_ne]
    intro hsame
    injection hsame with hid _
    exact hserver (congrArg some hid)

/-- A task that has to do with other servers or with none. -/
theorem Tracked.aside (h : Tracked team x v w) (hpc : w.pc i = t :: rest)
    (hserver : serverOf t ≠ some x) (hconvert : t ≠ .convertSuspended team)
    (hlist : t ≠ .listPoweredOff team) (hreinstate : t ≠ .reinstate team)
    (hpowerOff : t ≠ .powerOffRunning team) : Tracked team x v (advance machine w i ok t rest) := by
  apply h.frame hpc (isBack_eq_false hserver hconvert hlist)
  · exact find_server_exec h.found (fun hw => hserver (written_eq_serverOf hw)) h.not_suspended
  · exact count_workflows_exec hserver
  · exact teamActive_exec hreinstate
  · intro next hnext
    have hserver' : serverOf next ≠ some x := by
      intro hx
      rcases serverOf_exec hnext hx with hsame | ⟨v', hv', _, heq⟩ | ⟨v', hv', _, heq⟩
      · exact hserver hsame
      · rw [h.found] at hv'
        obtain rfl := Option.some.inj hv'
        exact hpowerOff (heq.trans (congrArg Task.powerOffRunning h.ofTeam))
      · rw [h.found] at hv'
        obtain rfl := Option.some.inj hv'
        exact hlist (heq.trans (congrArg Task.listPoweredOff h.ofTeam))
    have hback : isBack team x next = false := by
      apply isBack_eq_false hserver'
      · rintro rfl
        exact hreinstate (reinstate_of_convert hnext)
      · rintro rfl
        exact hconvert (convert_of_list hnext)
    have hoff := isOff_eq_false hserver'
    refine ⟨hback, placed_of_quiet hback hoff ?_, ?_⟩
    · rintro rfl
      exact not_teamActive_of_powerOff hnext
    · intro hon
      rw [hoff] at hon
      cases hon

/-- Nothing is being brought back when no task of a reinstatement is to be done. -/
theorem Tracked.no_back (h : Tracked team x v w)
    (hnone : ∀ q, ∀ t ∈ w.pc q, backTask w.shared team t = false) :
    ∀ q, ∀ t ∈ w.pc q, isBack team x t = false := by
  intro q t ht
  cases hback : isBack team x t with
  | false => rfl
  | true =>
    have := hnone q t ht
    rw [backTask_of_isBack h.found h.ofTeam hback] at this
    cases this

/-! ### Powering off -/

theorem Tracked.powerOffRunning (h : Tracked team x v w)
    (hpc : w.pc i = .powerOffRunning team :: rest) (hcalm : Calm team w (i, .go ok)) :
    Tracked team x v (advance machine w i ok (.powerOffRunning team) rest) := by
  simp only [Calm, hpc] at hcalm
  have hnone := h.no_back (hcalm trivial)
  have hidle := h.here hpc rfl
  apply h.frame hpc rfl h.found (fun _ => rfl) (fun hactive => hactive)
  intro next hnext
  cases follows_exec hnext with
  | @mark _ id u hfind hrunning =>
    refine ⟨rfl, ?_, fun _ => hnone⟩
    intro hid
    subst hid
    rw [h.found] at hfind
    cases hfind
    simp only [isRunning, Bool.decide_and, Bool.and_eq_true, decide_eq_true_eq] at hrunning
    have hstatus : v.status = .active ∨ v.status = .off := .inl hrunning.2.1
    exact ⟨hstatus, h.not_starting hstatus, hidle⟩

theorem Tracked.markPoweredOff (h : Tracked team x v w)
    (hpc : w.pc i = .markPoweredOff x :: rest) :
    Tracked team x { v with suspendedPoweredOff := true }
      (advance machine w i ok (.markPoweredOff x) rest) := by
  obtain ⟨hstatus, hstart, hteam⟩ := h.here hpc rfl
  apply h.stopStep hpc (by simp [isOff]) (find_setServer h.found _) h.ofTeam h.alive rfl hstatus
    hstart hteam
  intro next hnext
  obtain rfl := List.mem_singleton.mp hnext
  rfl

theorem Tracked.powerStop (h : Tracked team x v w) (hpc : w.pc i = .power x .stop :: rest) :
    Tracked team x { v with status := .active } (advance machine w i ok (.power x .stop) rest) := by
  obtain ⟨hmark, _, hstart, hteam⟩ := h.here hpc rfl
  apply h.stopStep hpc (by simp [isOff]) (find_setServer h.found _) h.ofTeam h.alive hmark (.inl rfl)
    hstart hteam
  intro next hnext
  obtain rfl := List.mem_singleton.mp hnext
  rfl

theorem Tracked.startStop (h : Tracked team x v w) (hpc : w.pc i = .startWorkflow x .stop :: rest) :
    Tracked team x v (advance machine w i ok (.startWorkflow x .stop) rest) := by
  obtain ⟨hmark, hstatus, hstart, hteam⟩ := h.here hpc rfl
  have hteam' : ¬ TeamActive (exec w.shared ok (.startWorkflow x .stop)).1 team :=
    fun hactive => hteam (teamActive_exec (by simp) hactive)
  apply h.stopStep hpc (by simp [isOff]) _ h.ofTeam h.alive hmark hstatus _ hteam'
  · intro next hnext
    cases follows_exec hnext
  · exact find_server_exec h.found (by simp [written]) h.not_suspended
  · rcases workflows_exec w.shared ok (.startWorkflow x .stop) with heq | ⟨id, op, heq, _, hcons⟩
    · rw [heq]
      exact hstart
    · injection heq with hid hop
      subst hid hop
      rw [hcons, List.mem_cons, not_or]
      exact ⟨by simp, hstart⟩

/-! ### Bringing back -/

/-- A step of a reinstatement that leaves the server as it is, before it is started. -/
theorem Tracked.backKept (h : Tracked team x v w)
    (hquiet : Quiet team x w (exec w.shared ok t).1 i rest)
    (hunstarted : ∀ q, .unmark x ∉ w.pc q ∧ .startWorkflow x .start ∉ w.pc q)
    (hfound : (exec w.shared ok t).1.servers.find x = some v)
    (hworkflows : (exec w.shared ok t).1.workflows = w.shared.workflows)
    (hlone : ((exec w.shared ok t).2.filter (isBack team x)).length ≤ 1)
    (hnew : ∀ next ∈ (exec w.shared ok t).2, isOff x next = false ∧
      Placed (exec w.shared ok t).1 team x v next)
    (hmarked : v.suspendedPoweredOff = true →
      ∃ next ∈ (exec w.shared ok t).2, isBack team x next = true) :
    Tracked team x v (advance machine w i ok t rest) := by
  apply Tracked.backStep hquiet hfound h.ofTeam h.alive hlone hnew _ _ _ _ hmarked <;>
    rw [hworkflows]
  · exact h.once
  · intro hstart
    obtain ⟨hprov, _, hmark | ⟨q, hq⟩⟩ := h.starting hstart
    · exact ⟨hprov, .inl hmark⟩
    · exact ((hunstarted q).1 hq).elim
  · exact h.stopping
  · rcases h.status with hactive | hoff | ⟨hprov, hstart | ⟨q, hq⟩⟩
    · exact .inl hactive
    · exact .inr (.inl hoff)
    · exact .inr (.inr ⟨hprov, .inl hstart⟩)
    · exact ((hunstarted q).2 hq).elim

theorem Tracked.reinstate (h : Tracked team x v w) (hpc : w.pc i = .reinstate team :: rest)
    (hcalm : Calm team w (i, .go ok)) :
    Tracked team x v (advance machine w i ok (.reinstate team) rest) := by
  simp only [Calm, hpc] at hcalm
  have hnone := h.no_back fun q t ht => (hcalm trivial q t ht).1
  have hquiet : Quiet team x w (exec w.shared ok (.reinstate team)).1 i rest := by
    intro t ht
    have hin : ∃ q, t ∈ w.pc q := by
      rcases ht with hmem | ⟨q, _, hmem⟩
      · exact ⟨i, by rw [hpc]; exact List.mem_cons_of_mem _ hmem⟩
      · exact ⟨q, hmem⟩
    obtain ⟨q, hq⟩ := hin
    have hoff := (hcalm trivial q t hq).2
    refine ⟨hnone q t hq, ?_, ?_⟩
    · cases hon : isOff x t with
      | false => rfl
      | true =>
        rw [offTask_of_isOff h.found h.ofTeam hon] at hoff
        cases hoff
    · rintro rfl
      simp [offTask] at hoff
  apply h.backKept hquiet _ h.found rfl
  · simp [exec, isBack]
  · intro next hnext
    obtain rfl := List.mem_singleton.mp hnext
    exact ⟨rfl, trivial⟩
  · intro _
    exact ⟨.convertSuspended team, by simp [exec], by simp [isBack]⟩
  · intro q
    constructor
    · intro hq
      have := hnone q _ hq
      simp [isBack] at this
    · intro hq
      have := hnone q _ hq
      simp [isBack] at this

/-- While a task of a reinstatement is alone, nothing else starts or unmarks the server. -/
theorem Tracked.alone (h : Tracked team x v w) (hpc : w.pc i = t :: rest)
    (ht : isBack team x t = true) {t' : Task} (hback : isBack team x t' = true) (hne : t' ≠ t)
    (q : ℕ) : t' ∉ w.pc q := by
  obtain ⟨hrest, hothers⟩ := h.lone.others hpc ht
  intro hq
  by_cases hqi : q = i
  · subst hqi
    rw [hpc] at hq
    rcases List.mem_cons.mp hq with heq | hmem
    · exact hne heq
    · rw [hrest t' hmem] at hback
      cases hback
  · rw [hothers q hqi t' hq] at hback
    cases hback

/-- Before the server is started nothing is to be done for it after that. -/
theorem Tracked.unstarted (h : Tracked team x v w) (hpc : w.pc i = t :: rest)
    (ht : isBack team x t = true) (hunmark : t ≠ .unmark x) (hstart : t ≠ .startWorkflow x .start)
    (q : ℕ) : .unmark x ∉ w.pc q ∧ .startWorkflow x .start ∉ w.pc q := by
  constructor
  · exact h.alone hpc ht (by simp [isBack]) hunmark.symm q
  · exact h.alone hpc ht (by simp [isBack]) hstart.symm q

theorem Tracked.convertSuspended (h : Tracked team x v w)
    (hpc : w.pc i = .convertSuspended team :: rest) :
    Tracked team x v (advance machine w i ok (.convertSuspended team) rest) := by
  have hback : isBack team x (.convertSuspended team) = true := by simp [isBack]
  apply h.backKept (h.quiet hpc hback (teamActive_exec (by simp)))
    (h.unstarted hpc hback (by simp) (by simp))
    (find_server_exec h.found (by simp [written]) h.not_suspended) rfl
  · simp [exec, isBack]
  · intro next hnext
    obtain rfl := List.mem_singleton.mp hnext
    exact ⟨rfl, trivial⟩
  · intro _
    exact ⟨.listPoweredOff team, by simp [exec], by simp [isBack]⟩

/-- A server is listed once. -/
theorem length_restore_le (s : Company) (team x : ℕ) :
    (((poweredOff s team).map fun e => Task.restore e.1 e.2.status).filter (isBack team x)).length ≤
      1 := by
  have hnodup : ((poweredOff s team).map Prod.fst).Nodup :=
    s.servers.unique.sublist (List.filter_sublist.map Prod.fst)
  have hcount := List.nodup_iff_count_le_one.mp hnodup x
  rw [List.count, List.countP_map] at hcount
  rw [List.filter_map, List.length_map, ← List.countP_eq_length_filter]
  refine le_trans (le_of_eq ?_) hcount
  apply List.countP_congr
  intro e _
  simp [isBack]

theorem Tracked.listPoweredOff (h : Tracked team x v w)
    (hpc : w.pc i = .listPoweredOff team :: rest) (hcalm : Calm team w (i, .go ok)) :
    Tracked team x v (advance machine w i ok (.listPoweredOff team) rest) := by
  have hback : isBack team x (.listPoweredOff team) = true := by simp [isBack]
  have hunstarted := h.unstarted hpc hback (by simp) (by simp)
  have hstop : (x, .stop) ∉ w.shared.workflows := by
    intro hstop
    simp only [Calm, hpc] at hcalm
    exact hcalm trivial _ hstop rfl v h.found h.ofTeam
  -- a marked server is running or off: one that is being started has lost its mark
  have hstatus : v.suspendedPoweredOff = true → v.status = .active ∨ v.status = .off := by
    intro hmark
    rcases h.status with hactive | hoff | ⟨_, hstart | ⟨q, hq⟩⟩
    · exact .inl hactive
    · exact .inr hoff.1
    · obtain ⟨_, _, hunmarked | ⟨q, hq⟩⟩ := h.starting hstart
      · rw [hmark] at hunmarked
        cases hunmarked
      · exact ((hunstarted q).1 hq).elim
    · exact ((hunstarted q).2 hq).elim
  apply h.backKept (h.quiet hpc hback (teamActive_exec (by simp))) hunstarted h.found rfl
  · exact length_restore_le w.shared team x
  · intro next hnext
    cases follows_exec hnext with
    | @restore id u hfind hmark halive =>
      refine ⟨rfl, ?_⟩
      intro hid
      subst hid
      rw [h.found] at hfind
      cases hfind
      exact ⟨hmark, rfl, hstatus hmark, hstop⟩
  · intro hmark
    refine ⟨.restore x v.status, ?_, by simp [isBack]⟩
    apply List.mem_map.mpr
    exact ⟨(x, v), mem_poweredOff.mpr ⟨h.found, h.ofTeam, hmark, h.alive⟩, rfl⟩

theorem Tracked.restoreOff (h : Tracked team x v w) (hpc : w.pc i = .restore x .off :: rest) :
    Tracked team x v (advance machine w i ok (.restore x .off) rest) := by
  have hback : isBack team x (.restore x .off) = true := by simp [isBack]
  obtain ⟨hmark, hstatus, _, hstop⟩ := h.here hpc rfl
  apply h.backKept (h.quiet hpc hback (teamActive_exec (by simp)))
    (h.unstarted hpc hback (by simp) (by simp)) h.found rfl
  · simp [exec, isBack]
  · intro next hnext
    obtain rfl := List.mem_singleton.mp hnext
    exact ⟨rfl, fun _ => ⟨hmark, hstatus, hstop⟩⟩
  · intro _
    exact ⟨.power x .start, by simp [exec], by simp [isBack]⟩

/-- A step after which the server has no mark: no stop of it runs, and it is not off. -/
theorem Tracked.clearMark (h : Tracked team x v w) (hpc : w.pc i = t :: rest)
    (hback : isBack team x t = true) (hteam : t ≠ .reinstate team)
    (hstart : t ≠ .startWorkflow x .start)
    (hexec : exec w.shared ok t =
      (w.shared.setServer x fun v => { v with suspendedPoweredOff := false }, []))
    (hoff : v.status ≠ .off) (hstop : (x, .stop) ∉ w.shared.workflows) :
    Tracked team x { v with suspendedPoweredOff := false } (advance machine w i ok t rest) := by
  have hfound : (exec w.shared ok t).1.servers.find x =
      some { v with suspendedPoweredOff := false } := by
    rw [hexec]
    exact find_setServer h.found _
  apply Tracked.backStep (h.quiet hpc hback (teamActive_exec hteam)) hfound h.ofTeam h.alive <;>
    rw [hexec]
  · exact Nat.zero_le 1
  · intro next hnext
    cases hnext
  · exact h.once
  · intro hin
    exact ⟨(h.starting hin).1, .inl rfl⟩
  · intro hin
    exact (hstop hin).elim
  · rcases h.status with hactive | ⟨heq, _⟩ | ⟨hprov, hin | ⟨q, hq⟩⟩
    · exact .inl hactive
    · exact (hoff heq).elim
    · exact .inr (.inr ⟨hprov, .inl hin⟩)
    · exact (h.alone hpc hback (by simp [isBack]) hstart.symm q hq).elim
  · intro hmark
    cases hmark

theorem Tracked.powerStart (h : Tracked team x v w) (hpc : w.pc i = .power x .start :: rest) :
    Tracked team x { v with status := .provisioning }
      (advance machine w i ok (.power x .start) rest) := by
  have hback : isBack team x (.power x .start) = true := by simp [isBack]
  obtain ⟨hmark, hstatus, hstop⟩ := h.here hpc rfl
  have hstart := h.not_starting (.inr hstatus)
  apply Tracked.backStep (h.quiet hpc hback (teamActive_exec (by simp)))
    (find_setServer h.found _) h.ofTeam h.alive
  · simp [exec, isBack]
  · intro next hnext
    obtain rfl := List.mem_singleton.mp hnext
    exact ⟨rfl, fun _ => ⟨hmark, rfl, hstop, hstart⟩⟩
  · exact h.once
  · intro hin
    exact (hstart hin).elim
  · intro hin
    exact (hstop hin).elim
  · exact .inr (.inr ⟨rfl, .inr (by simp [exec])⟩)
  · intro _
    exact ⟨.startWorkflow x .start, by simp [exec], by simp [isBack]⟩

theorem Tracked.startStart (h : Tracked team x v w)
    (hpc : w.pc i = .startWorkflow x .start :: rest) (hcalm : Calm team w (i, .go ok)) :
    Tracked team x v (advance machine w i ok (.startWorkflow x .start) rest) := by
  have hback : isBack team x (.startWorkflow x .start) = true := by simp [isBack]
  obtain ⟨hmark, hstatus, hstop, hstart⟩ := h.here hpc rfl
  have hok : ok = true := by
    simp only [Calm, hpc] at hcalm
    exact hcalm ⟨v, h.found, h.ofTeam⟩
  subst hok
  have hstop' : (x, .stop) ∉ (x, .start) :: w.shared.workflows := by
    rw [List.mem_cons, not_or]
    exact ⟨by simp, hstop⟩
  apply Tracked.backStep (h.quiet hpc hback (teamActive_exec (by simp)))
    (find_server_exec h.found (by simp [written]) h.not_suspended) h.ofTeam h.alive
  · simp [exec, Op.afterwards, isBack]
  · intro next hnext
    obtain rfl := List.mem_singleton.mp hnext
    refine ⟨rfl, fun _ => ⟨hmark, ?_, hstop'⟩⟩
    rw [hstatus]
    decide
  · show ((x, .start) :: w.shared.workflows).count (x, .start) ≤ 1
    rw [List.count_cons_self, List.count_eq_zero.mpr hstart]
  · intro _
    exact ⟨hstatus, .inr (by simp [exec, Op.afterwards])⟩
  · intro hin
    exact (hstop' hin).elim
  · exact .inr (.inr ⟨hstatus, .inl (by simp [exec])⟩)
  · intro _
    exact ⟨.unmark x, by simp [exec, Op.afterwards], by simp [isBack]⟩

/-! ### Every task -/

/-- The tracked server after a task. -/
theorem Tracked.advance (h : Tracked team x v w) (hpc : w.pc i = t :: rest)
    (hcalm : Calm team w (i, .go ok)) :
    ∃ v', Tracked team x v' (Agenda.advance machine w i ok t rest) := by
  cases t with
  | powerOffRunning id =>
    by_cases hid : id = team
    · subst hid
      exact ⟨_, h.powerOffRunning hpc hcalm⟩
    · exact ⟨_, h.aside hpc (by simp [serverOf]) (by simp) (by simp) (by simp) (by simpa)⟩
  | reinstate id =>
    by_cases hid : id = team
    · subst hid
      exact ⟨_, h.reinstate hpc hcalm⟩
    · exact ⟨_, h.aside hpc (by simp [serverOf]) (by simp) (by simp) (by simpa) (by simp)⟩
  | convertSuspended id =>
    by_cases hid : id = team
    · subst hid
      exact ⟨_, h.convertSuspended hpc⟩
    · exact ⟨_, h.aside hpc (by simp [serverOf]) (by simpa) (by simp) (by simp) (by simp)⟩
  | listPoweredOff id =>
    by_cases hid : id = team
    · subst hid
      exact ⟨_, h.listPoweredOff hpc hcalm⟩
    · exact ⟨_, h.aside hpc (by simp [serverOf]) (by simp) (by simpa) (by simp) (by simp)⟩
  | markPoweredOff id =>
    by_cases hid : id = x
    · subst hid
      exact ⟨_, h.markPoweredOff hpc⟩
    · exact ⟨_, h.aside hpc (by simpa [serverOf]) (by simp) (by simp) (by simp) (by simp)⟩
  | power id op =>
    by_cases hid : id = x
    · subst hid
      cases op with
      | start => exact ⟨_, h.powerStart hpc⟩
      | stop => exact ⟨_, h.powerStop hpc⟩
    · exact ⟨_, h.aside hpc (by simpa [serverOf]) (by simp) (by simp) (by simp) (by simp)⟩
  | startWorkflow id op =>
    by_cases hid : id = x
    · subst hid
      cases op with
      | start => exact ⟨_, h.startStart hpc hcalm⟩
      | stop => exact ⟨_, h.startStop hpc⟩
    · exact ⟨_, h.aside hpc (by simpa [serverOf]) (by simp) (by simp) (by simp) (by simp)⟩
  | restore id status =>
    by_cases hid : id = x
    · subst hid
      obtain ⟨_, hstatus, _, hstop⟩ := h.here hpc rfl
      by_cases hoff : status = .off
      · subst hoff
        exact ⟨_, h.restoreOff hpc⟩
      · exact ⟨_, h.clearMark hpc (by simp [isBack]) (by simp) (by simp) (by simp [exec, hoff])
          (hstatus ▸ hoff) hstop⟩
    · exact ⟨_, h.aside hpc (by simpa [serverOf]) (by simp) (by simp) (by simp) (by simp)⟩
  | unmark id =>
    by_cases hid : id = x
    · subst hid
      obtain ⟨_, hstatus, hstop⟩ := h.here hpc rfl
      exact ⟨_, h.clearMark hpc (by simp [isBack]) (by simp) (by simp) rfl hstatus hstop⟩
    · exact ⟨_, h.aside hpc (by simpa [serverOf]) (by simp) (by simp) (by simp) (by simp)⟩
  | undoStart id =>
    have hid : id ≠ x := h.here hpc
    exact ⟨_, h.aside hpc (by simpa [serverOf]) (by simp) (by simp) (by simp) (by simp)⟩
  | readOverdue _ | claimStage _ _ _ _ | remind _ _ _ _ _ | suspend _ _ | storeSuspension _ _
  | retryPowerOff _ | enforceSuspension _ | reinstateIfSettled _ | countOverdue _ =>
    exact ⟨_, h.aside hpc (by simp [serverOf]) (by simp) (by simp) (by simp) (by simp)⟩

/-! ### Calls and events -/

theorem quiet_tasks {p : Proc} (h : t ∈ p.tasks) (team x : ℕ) :
    isBack team x t = false ∧ isOff x t = false ∧ t ≠ .powerOffRunning team := by
  cases p with
  | flag id kind score =>
    simp only [Proc.tasks] at h
    split_ifs at h
    · obtain rfl := List.mem_singleton.mp h
      exact ⟨rfl, rfl, by simp⟩
    · cases h
  | dunning _ | suspend _ _ | enforceSuspension _ | reinstateIfSettled _ | reinstate _ =>
    obtain rfl := List.mem_singleton.mp h
    exact ⟨rfl, rfl, by simp⟩

theorem Tracked.call (h : Tracked team x v w) (p : Proc) (hpc : w.pc i = []) :
    Tracked team x v (Agenda.begin w i p.tasks) := by
  have hmem : ∀ {q : ℕ} {t : Task}, t ∈ w.pc q → t ∈ (Agenda.begin w i p.tasks).pc q :=
    fun ht => mem_begin_of_mem hpc ht
  constructor
  · exact h.found
  · exact h.ofTeam
  · exact h.alive
  · exact h.lone.begin fun t ht => (quiet_tasks ht team x).1
  · intro q t₁ h₁ hback q' t₂ h₂
    rcases mem_begin h₁ with hnew | hold
    · rw [(quiet_tasks hnew team x).1] at hback
      cases hback
    · rcases mem_begin h₂ with hnew | hold'
      · exact (quiet_tasks hnew team x).2.1
      · exact h.apart q t₁ hold hback q' t₂ hold'
  · intro q t ht
    rcases mem_begin ht with hnew | hold
    · obtain ⟨hback, hoff, hteam⟩ := quiet_tasks hnew team x
      exact placed_of_quiet hback hoff fun heq => (hteam heq).elim
    · exact h.placed q t hold
  · exact h.once
  · intro hstart
    obtain ⟨hprov, hstop, hmark | ⟨q, hq⟩⟩ := h.starting hstart
    · exact ⟨hprov, hstop, .inl hmark⟩
    · exact ⟨hprov, hstop, .inr ⟨q, hmem hq⟩⟩
  · exact h.stopping
  · rcases h.status with hactive | hoff | ⟨hprov, hstart | ⟨q, hq⟩⟩
    · exact .inl hactive
    · exact .inr (.inl hoff)
    · exact .inr (.inr ⟨hprov, .inl hstart⟩)
    · exact .inr (.inr ⟨hprov, .inr ⟨q, hmem hq⟩⟩)
  · intro hactive hmark
    obtain ⟨q, t, ht, hback⟩ := h.marked hactive hmark
    exact ⟨q, t, hmem ht, hback⟩

/-- An event that leaves the server and its workflows alone. -/
theorem Tracked.event {s' : Company} (h : Tracked team x v w) (hfound : s'.servers.find x = some v)
    (hworkflows : ∀ op, s'.workflows.count (x, op) = w.shared.workflows.count (x, op))
    (hteam : TeamActive s' team → TeamActive w.shared team) : Tracked team x v ⟨s', w.pc⟩ := by
  have hmem : ∀ op, (x, op) ∈ s'.workflows ↔ (x, op) ∈ w.shared.workflows := by
    intro op
    rw [← List.count_pos_iff, ← List.count_pos_iff, hworkflows]
  constructor
  · exact hfound
  · exact h.ofTeam
  · exact h.alive
  · exact ⟨h.lone.list, h.lone.caller⟩
  · exact h.apart
  · intro q t ht
    exact (h.placed q t ht).mono (fun op => (hmem op).mp) hteam
  · show s'.workflows.count (x, .start) ≤ 1
    rw [hworkflows]
    exact h.once
  · intro hstart
    obtain ⟨hprov, hstop, hmark⟩ := h.starting ((hmem _).mp hstart)
    exact ⟨hprov, fun hin => hstop ((hmem _).mp hin), hmark⟩
  · intro hstop
    exact h.stopping ((hmem _).mp hstop)
  · rcases h.status with hactive | hoff | ⟨hprov, hstart | hin⟩
    · exact .inl hactive
    · exact .inr (.inl hoff)
    · exact .inr (.inr ⟨hprov, .inl ((hmem _).mpr hstart)⟩)
    · exact .inr (.inr ⟨hprov, .inr hin⟩)
  · intro hactive hmark
    exact h.marked (hteam hactive) hmark

/-- A workflow of the server finishes. -/
theorem Tracked.finish {s' : Company} {v' : Server} (h : Tracked team x v w)
    (hfound : s'.servers.find x = some v') (hof : v'.teamId = team) (halive : v'.deleted = false)
    (hmark : v'.suspendedPoweredOff = v.suspendedPoweredOff) (hteams : s'.teams = w.shared.teams)
    (hplaced : ∀ t, Placed w.shared team x v t → Placed s' team x v' t)
    (hstart : (x, .start) ∉ s'.workflows)
    (hstopping : (x, .stop) ∈ s'.workflows → v'.suspendedPoweredOff = true ∧
      (v'.status = .active ∨ v'.status = .off))
    (hstatus : v'.status = .active ∨ v'.status = .off ∧ v'.suspendedPoweredOff = true) :
    Tracked team x v' ⟨s', w.pc⟩ := by
  constructor
  · exact hfound
  · exact hof
  · exact halive
  · exact ⟨h.lone.list, h.lone.caller⟩
  · exact h.apart
  · intro q t ht
    exact hplaced t (h.placed q t ht)
  · show s'.workflows.count (x, .start) ≤ 1
    rw [List.count_eq_zero.mpr hstart]
    exact Nat.zero_le 1
  · intro hin
    exact (hstart hin).elim
  · exact hstopping
  · rcases hstatus with hactive | hoff
    · exact .inl hactive
    · exact .inr (.inl hoff)
  · intro hactive hmarked
    rw [hmark] at hmarked
    have hbefore : TeamActive w.shared team := by
      unfold TeamActive at hactive ⊢
      rwa [hteams] at hactive
    exact h.marked hbefore hmarked

/-- One workflow less, of all that run. -/
theorem count_eraseIdx {l : List (ℕ × Op)} {j : ℕ} {e : ℕ × Op} (hj : l[j]? = some e) (f : ℕ × Op) :
    (l.eraseIdx j).count f = l.count f - if e = f then 1 else 0 := by
  obtain ⟨hlt, rfl⟩ := List.getElem?_eq_some_iff.mp hj
  rw [← (List.erase_getElem hlt).count_eq, List.count_erase]
  simp

theorem outside_complete {j : ℕ} {op : Op} (hj : s.workflows[j]? = some (x, op)) :
    outside s (.complete j) = { s.setServer x fun v => { v with status := op.done } with
      workflows := s.workflows.eraseIdx j } := by
  simp only [outside, hj]

theorem Tracked.finishStop {j : ℕ} (h : Tracked team x v w)
    (hj : w.shared.workflows[j]? = some (x, .stop)) :
    Tracked team x { v with status := .off } ⟨outside w.shared (.complete j), w.pc⟩ := by
  have hin : (x, .stop) ∈ w.shared.workflows := List.mem_of_getElem? hj
  obtain ⟨hmark, _⟩ := h.stopping hin
  have hstart : (x, .start) ∉ w.shared.workflows := fun hstart => (h.starting hstart).2.1 hin
  have hfew : ∀ op, (x, op) ∈ w.shared.workflows.eraseIdx j → (x, op) ∈ w.shared.workflows :=
    fun op => List.mem_of_mem_eraseIdx
  have hout := outside_complete hj
  have hfound : (outside w.shared (.complete j)).servers.find x =
      some { v with status := .off } := by
    rw [hout]
    exact find_setServer h.found _
  rw [hout] at hfound ⊢
  apply h.finish hfound h.ofTeam h.alive rfl rfl
  · intro t ht
    cases t with
    | markPoweredOff id =>
      intro hid
      exact ⟨.inr rfl, fun hs => hstart (hfew _ hs), (ht hid).2.2⟩
    | power id op =>
      cases op with
      | stop =>
        intro hid
        exact ⟨hmark, .inr rfl, fun hs => hstart (hfew _ hs), (ht hid).2.2.2⟩
      | start =>
        intro hid
        exact ((ht hid).2.2 hin).elim
    | startWorkflow id op =>
      cases op with
      | stop =>
        intro hid
        exact ⟨hmark, .inr rfl, fun hs => hstart (hfew _ hs), (ht hid).2.2.2⟩
      | start =>
        intro hid
        exact ((ht hid).2.2.1 hin).elim
    | restore id status =>
      intro hid
      exact ((ht hid).2.2.2 hin).elim
    | unmark id =>
      intro hid
      exact ((ht hid).2.2 hin).elim
    | powerOffRunning id => exact ht
    | undoStart id => exact ht
    | _ => trivial
  · exact fun hs => hstart (hfew _ hs)
  · exact fun _ => ⟨hmark, .inr rfl⟩
  · exact .inr ⟨rfl, hmark⟩

theorem Tracked.finishStart {j : ℕ} (h : Tracked team x v w)
    (hj : w.shared.workflows[j]? = some (x, .start)) :
    Tracked team x { v with status := .active } ⟨outside w.shared (.complete j), w.pc⟩ := by
  have hin : (x, .start) ∈ w.shared.workflows := List.mem_of_getElem? hj
  obtain ⟨hprov, hstop, _⟩ := h.starting hin
  have hstop' : (x, .stop) ∉ w.shared.workflows.eraseIdx j :=
    fun hs => hstop (List.mem_of_mem_eraseIdx hs)
  have hstart : (x, .start) ∉ w.shared.workflows.eraseIdx j := by
    have honce := h.once
    rw [← List.count_eq_zero, count_eraseIdx hj, if_pos rfl]
    omega
  have hout := outside_complete hj
  have hfound : (outside w.shared (.complete j)).servers.find x =
      some { v with status := .active } := by
    rw [hout]
    exact find_setServer h.found _
  rw [hout] at hfound ⊢
  apply h.finish hfound h.ofTeam h.alive rfl rfl
  · intro t ht
    cases t with
    | markPoweredOff id =>
      intro hid
      exact ((ht hid).2.1 hin).elim
    | power id op =>
      cases op with
      | stop =>
        intro hid
        exact ((ht hid).2.2.1 hin).elim
      | start =>
        intro hid
        have hoff := (ht hid).2.1
        rw [hprov] at hoff
        cases hoff
    | startWorkflow id op =>
      cases op with
      | stop =>
        intro hid
        exact ((ht hid).2.2.1 hin).elim
      | start =>
        intro hid
        exact ((ht hid).2.2.2 hin).elim
    | restore id status =>
      intro hid
      obtain ⟨_, hsame, hcase, _⟩ := ht hid
      rw [← hsame, hprov] at hcase
      rcases hcase with hcase | hcase <;> cases hcase
    | unmark id =>
      intro hid
      exact ⟨(ht hid).1, by simp, hstop'⟩
    | powerOffRunning id => exact ht
    | undoStart id => exact ht
    | _ => trivial
  · exact hstart
  · exact fun hs => (hstop' hs).elim
  · exact .inl rfl

theorem Tracked.outside {e : Event} (h : Tracked team x v w)
    (htouch : ∀ status, e ≠ .touch x status) :
    ∃ v', Tracked team x v' ⟨Trust.outside w.shared e, w.pc⟩ := by
  cases e with
  | complete j =>
    cases hj : w.shared.workflows[j]? with
    | none =>
      have hout : Trust.outside w.shared (.complete j) = w.shared := by
        simp only [Trust.outside, hj]
      rw [hout]
      exact ⟨v, h⟩
    | some e =>
      obtain ⟨id, op⟩ := e
      by_cases hid : id = x
      · subst hid
        cases op with
        | start => exact ⟨_, h.finishStart hj⟩
        | stop => exact ⟨_, h.finishStop hj⟩
      · refine ⟨v, h.event ?_ ?_ ?_⟩
        · apply find_server_outside h.found htouch
          rintro j' op' heq hx
          injection heq with heq
          rw [← heq, hj] at hx
          simp_all
        · intro op'
          simp only [Trust.outside, hj]
          rw [count_eraseIdx hj, if_neg (by simp [hid]), Nat.sub_zero]
        · simp only [Trust.outside, hj]
          exact fun hactive => hactive
  | bill id inv => exact ⟨v, h.event h.found (fun _ => rfl) fun hactive => hactive⟩
  | close id =>
    refine ⟨v, h.event h.found (fun _ => rfl) ?_⟩
    rintro ⟨row, hrow, hactive⟩
    simp only [Trust.outside, Table.find_modify] at hrow
    split_ifs at hrow
    · obtain ⟨_, _, rfl⟩ := Option.map_eq_some_iff.mp hrow
      cases hactive
    · exact ⟨row, hrow, hactive⟩
  | touch id status =>
    have hid : id ≠ x := by
      rintro rfl
      exact htouch status rfl
    refine ⟨v, h.event ?_ (fun _ => rfl) fun hactive => hactive⟩
    exact (find_setServer_of_ne hid _).trans h.found

theorem Tracked.step {a : ℕ × Act} (h : Tracked team x v w) (ha : Untouched x a)
    (hcalm : Calm team w a) : ∃ v', Tracked team x v' (Trust.step w a) := by
  obtain ⟨i, act⟩ := a
  rcases step_cases machine w (i, act) with heq | ⟨p, _, hpc, heq⟩ | ⟨ok, t, rest, hact, hpc, heq⟩ |
    ⟨e, hact, heq⟩
  · rw [Trust.step, heq]
    exact ⟨v, h⟩
  · rw [Trust.step, heq]
    exact ⟨v, h.call p hpc⟩
  · rw [Trust.step, heq]
    obtain rfl : act = .go ok := hact
    exact h.advance hpc hcalm
  · rw [Trust.step, heq]
    apply h.outside
    rintro status rfl
    exact ha status hact

/-- A server that runs before anything is to be done for it. -/
theorem Tracked.start (hidle : ∀ q, w.pc q = []) (hworkflows : ∀ op, (x, op) ∉ w.shared.workflows)
    (hfind : w.shared.servers.find x = some v) (hof : v.teamId = team) (halive : v.deleted = false)
    (hmark : v.suspendedPoweredOff = false) (hactive : v.status = .active) :
    Tracked team x v w := by
  have hnone : ∀ q, ∀ t, t ∉ w.pc q := by simp [hidle]
  constructor
  · exact hfind
  · exact hof
  · exact halive
  · constructor <;> simp [hidle]
  · exact fun q t ht => (hnone q t ht).elim
  · exact fun q t ht => (hnone q t ht).elim
  · rw [List.count_eq_zero.mpr (hworkflows .start)]
    exact Nat.zero_le 1
  · exact fun hin => (hworkflows _ hin).elim
  · exact fun hin => (hworkflows _ hin).elim
  · exact .inl hactive
  · simp [hmark]

theorem Tracked.run {acts : List (ℕ × Act)} (h : Tracked team x v w)
    (hacts : ∀ a ∈ acts, Untouched x a) (hcalm : Meets Trust.step (Calm team) w acts) :
    ∃ v', Tracked team x v' (Interleaving.run Trust.step w acts) := by
  have hmeets : Meets Trust.step (fun w a => Untouched x a ∧ Calm team w a) w acts :=
    hcalm.mono fun _ a ha hc => ⟨hacts a ha, hc⟩
  refine hmeets.invariant (I := fun w => ∃ v', Tracked team x v' w) ?_ ⟨v, h⟩
  rintro w a ⟨ha, hc⟩ ⟨v, h⟩
  exact h.step ha hc

theorem Asleep.run {acts : List (ℕ × Act)} (h : Asleep x v w) (hacts : ∀ a ∈ acts, Untouched x a) :
    Asleep x v (Interleaving.run Trust.step w acts) := by
  induction acts generalizing w with
  | nil => exact h
  | cons a acts ih =>
    have ha : Untouched x a := hacts a (by simp)
    exact ih (h.step ha) fun b hb => hacts b (List.mem_cons_of_mem a hb)

/-- Where its team is active and nothing more is to be done, the server runs. -/
theorem Tracked.active (h : Tracked team x v w) (hteam : TeamActive w.shared team)
    (hidle : ∀ q, w.pc q = []) (hworkflows : (x, .start) ∉ w.shared.workflows) :
    v.status = .active := by
  rcases h.status with hactive | ⟨_, hmark⟩ | ⟨_, hstart | ⟨q, hq⟩⟩
  · exact hactive
  · obtain ⟨q, t, ht, _⟩ := h.marked hteam hmark
    rw [hidle q] at ht
    cases ht
  · exact (hworkflows hstart).elim
  · rw [hidle q] at hq
    cases hq

end

/-- What becomes of a server: one that ran runs again when its team is active, no caller
has anything to do and its workflows are through; one that was off is still off, and
no workflow starts it. -/
def Restored (team x : ℕ) (v : Server) (w : Office) : Prop :=
  (v.status = .active → TeamActive w.shared team → (∀ q, w.pc q = []) →
    (∀ op, (x, op) ∉ w.shared.workflows) →
    ∃ v', w.shared.servers.find x = some v' ∧ v'.status = .active) ∧
  (v.status = .off → w.shared.servers.find x = some v ∧ (x, .start) ∉ w.shared.workflows)

/-- Reinstating restores the servers that the suspension stopped, and no others, in every
interleaving whose steps are calm. -/
theorem servers_restored {w : Office} {team x : ℕ} {v : Server} {acts : List (ℕ × Act)}
    (hidle : ∀ q, w.pc q = []) (hworkflows : ∀ op, (x, op) ∉ w.shared.workflows)
    (hfind : w.shared.servers.find x = some v) (hof : v.teamId = team)
    (hmark : v.suspendedPoweredOff = false) (hacts : ∀ a ∈ acts, Untouched x a)
    (hcalm : Meets step (Calm team) w acts) : Restored team x v (run step w acts) := by
  have hasleep : isRunning v.teamId v = false → v.status ≠ .suspended →
      Asleep x v (run step w acts) := by
    intro hstopped hcurrent
    have hstart : Asleep x v w :=
      ⟨hfind, hstopped, hcurrent, hmark, by simp [hidle], hworkflows⟩
    exact hstart.run hacts
  constructor
  · intro hactive hteam hidle' hworkflows'
    cases hdeleted : v.deleted with
    | true =>
      have h := hasleep (by simp [isRunning, hdeleted]) (by simp [hactive])
      exact ⟨v, h.found, hactive⟩
    | false =>
      have hstart := Tracked.start hidle hworkflows hfind hof hdeleted hmark hactive
      obtain ⟨v', h⟩ := hstart.run hacts hcalm
      exact ⟨v', h.found, h.active hteam hidle' (hworkflows' .start)⟩
  · intro hoff
    have h := hasleep (by simp [isRunning, hoff]) (by simp [hoff])
    exact ⟨h.found, h.none .start⟩

/-! ## A team with one server -/

def oneServer : Office where
  shared := ⟨Table.empty.put 0 ⟨.active, none⟩, .empty, Table.empty.put 0 ⟨0, .active, false, false⟩,
    [], [], [], []⟩
  pc := fun _ => []

/-- The suspension, until the workflow that stops the server is started. -/
def suspending : List (ℕ × Act) := (0, .call (.suspend 0 "abuse")) :: List.replicate 6 (0, .go true)

/-- The reinstatement of a team whose server is off. -/
def bringingBack : List (ℕ × Act) := (0, .call (.reinstate 0)) :: List.replicate 7 (0, .go true)

def finishing : List (ℕ × Act) := [(0, .outside (.complete 0))]

/-- What `Calm` asks when only the first caller does anything. -/
def calmHere (team : ℕ) (w : Office) (a : ℕ × Act) : Bool :=
  match a.2, w.pc a.1 with
  | .go _, .reinstate _ :: _ =>
      (w.pc 0).all fun t => !backTask w.shared team t && !offTask w.shared team t
  | .go _, .powerOffRunning _ :: _ => (w.pc 0).all fun t => !backTask w.shared team t
  | .go _, .listPoweredOff _ :: _ => w.shared.workflows.all fun e => e.2 ≠ .stop
  | .go ok, .startWorkflow _ .start :: _ => ok
  | _, _ => true

theorem calm_of_calmHere {w : Office} {team : ℕ} {a : ℕ × Act} (h : calmHere team w a = true)
    (hidle : ∀ q, 1 ≤ q → w.pc q = []) : Calm team w a := by
  have hzero : ∀ q, ∀ t ∈ w.pc q, t ∈ w.pc 0 := by
    intro q t ht
    by_cases hq : q = 0
    · rwa [hq] at ht
    · rw [hidle q (by omega)] at ht
      cases ht
  unfold calmHere at h
  unfold Calm
  split
  · rename_i hact hpc
    simp only [hact, hpc] at h
    intro _ q t ht
    have hboth := List.all_eq_true.mp h t (hzero q t ht)
    simpa using hboth
  · rename_i hact hpc
    simp only [hact, hpc] at h
    intro _ q t ht
    have hback := List.all_eq_true.mp h t (hzero q t ht)
    simpa using hback
  · rename_i hact hpc
    simp only [hact, hpc] at h
    intro _ e he hstop
    have hne := List.all_eq_true.mp h e he
    simp [hstop] at hne
  · rename_i hact hpc
    simp only [hact, hpc] at h
    exact fun _ => h
  · trivial

theorem untouched_of_go {x : ℕ} {acts : List (ℕ × Act)}
    (h : acts.all fun a => match a.2 with
      | .outside (.touch _ _) => false
      | _ => true) : ∀ a ∈ acts, Untouched x a := by
  intro a ha status hact
  have := List.all_eq_true.mp h a ha
  simp [hact] at this

theorem servers_restored_one : Restored 0 0 ⟨0, .active, false, false⟩
    (run step oneServer (suspending ++ finishing ++ bringingBack ++ finishing)) := by
  have hhere : Meets step (fun w a => calmHere 0 w a = true) oneServer
      (suspending ++ finishing ++ bringingBack ++ finishing) := by decide
  have hidle : Meets step (fun w a => (∀ q, 1 ≤ q → w.pc q = []) → Calm 0 w a) oneServer
      (suspending ++ finishing ++ bringingBack ++ finishing) :=
    hhere.mono fun w a _ h hidle => calm_of_calmHere h hidle
  have hcallers : ∀ a ∈ suspending ++ finishing ++ bringingBack ++ finishing, a.1 < 1 := by
    decide
  apply servers_restored (fun _ => rfl)
  · simp [oneServer]
  · rfl
  · rfl
  · rfl
  · exact untouched_of_go (by decide)
  · exact Meets.of_idle hidle (fun _ _ => rfl) hcallers

/-- The team is reinstated while the stop of its server still runs. -/
def backTooEarly : List (ℕ × Act) := suspending ++ bringingBack ++ finishing

/-- The server loses the mark, the stop finishes, and the server stays off. -/
theorem server_left_off : (∀ a ∈ backTooEarly, Untouched 0 a) ∧
    ¬ Restored 0 0 ⟨0, .active, false, false⟩ (run step oneServer backTooEarly) := by
  refine ⟨untouched_of_go (by decide), ?_⟩
  intro h
  have hteam : (run step oneServer backTooEarly).shared.teams.find 0 = some ⟨.active, none⟩ := by
    decide
  have hserver : (run step oneServer backTooEarly).shared.servers.find 0 =
      some ⟨0, .off, false, false⟩ := by decide
  have hworkflows : (run step oneServer backTooEarly).shared.workflows = [] := by decide
  have hidle : ∀ q, (run step oneServer backTooEarly).pc q = [] := by
    intro q
    by_cases hq : q = 0
    · subst hq
      decide
    · have hcallers : ∀ a ∈ backTooEarly, a.1 = 0 := by decide
      apply run_pc_of_notMem
      intro hin
      obtain ⟨a, ha, rfl⟩ := List.mem_map.mp hin
      exact hq (hcallers a ha)
  obtain ⟨v, hv, hactive⟩ := h.1 rfl ⟨_, hteam, rfl⟩ hidle (by simp [hworkflows])
  rw [hserver] at hv
  obtain rfl := Option.some.inj hv
  cases hactive

end Prgd.Trust
