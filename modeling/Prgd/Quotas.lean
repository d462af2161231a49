import Mathlib.Data.Fintype.Basic
import Prgd.StuckServers

/-!
# Project quotas

A create adds up what the live servers of its project use, compares it with the quotas and inserts
its server later. Nothing else looks at the quotas: not a resize, and not what sets the state of a
failed server, which is not counted.

The steps are those of `Compute`, with the check as a step of its own in front of the insert.
-/
namespace Prgd.Quotas
open Interleaving Compute
open Scheduler (Size)

inductive Measure where
  | servers | vcpu | memoryMb
  deriving DecidableEq

instance : Fintype Measure := ⟨{.servers, .vcpu, .memoryMb}, by intro x; cases x <;> decide⟩

def weight (size : Size) : Measure → ℤ
  | .servers => 1
  | .vcpu => size.vcpu
  | .memoryMb => size.memoryMb

/-- A server of the project's own that is neither deleted nor failed. -/
def counts (r : Server) : Bool :=
  r.deletedAt = none ∧ r.managedBy = none ∧ r.status ≠ .deleted ∧ r.status ≠ .failed

def share (x : Measure) (r : Server) : ℤ := if counts r then weight r.size x else 0

def usage (c : Cloud) (p : ℕ) (x : Measure) : ℤ :=
  c.servers.sum fun _ r => if r.projectId = p then share x r else 0

structure Quota where
  servers : ℕ
  vcpu : ℕ
  memoryMb : ℕ

def Quota.limit (quota : Quota) : Measure → ℤ
  | .servers => quota.servers
  | .vcpu => quota.vcpu
  | .memoryMb => quota.memoryMb

def exceeded (message : String) : ApiError := ⟨403, "quota_exceeded", message, []⟩

/-- The check of `create`. -/
def quotaError (quota : Quota) (c : Cloud) (dto : CreateRequest) : Option ApiError :=
  if quota.servers ≤ usage c dto.projectId .servers then
    some (exceeded ("Project server quota (" ++ toString quota.servers ++ ") reached"))
  else if quota.vcpu < usage c dto.projectId .vcpu + dto.size.vcpu then
    some (exceeded ("Project vCPU quota (" ++ toString quota.vcpu ++ ") reached"))
  else if quota.memoryMb < usage c dto.projectId .memoryMb + dto.size.memoryMb then
    some (exceeded ("Project memory quota (" ++ toString quota.memoryMb ++ " MB) reached"))
  else none

/-- The quotas leave room for this much more. -/
def Room (quota : Quota) (c : Cloud) (p : ℕ) (more : Measure → ℤ) : Prop :=
  ∀ x, usage c p x + more x ≤ quota.limit x

instance (quota : Quota) (c : Cloud) (p : ℕ) (more : Measure → ℤ) : Decidable (Room quota c p more) :=
  inferInstanceAs (Decidable (∀ x, usage c p x + more x ≤ quota.limit x))

theorem room_of_check {quota : Quota} {c : Cloud} {dto : CreateRequest}
    (h : quotaError quota c dto = none) : Room quota c dto.projectId (weight dto.size) := by
  unfold quotaError at h
  split_ifs at h with hservers hvcpu hmemory
  intro x
  cases x with
  | servers =>
    show usage c dto.projectId .servers + 1 ≤ quota.servers
    omega
  | vcpu =>
    show usage c dto.projectId .vcpu + dto.size.vcpu ≤ quota.vcpu
    omega
  | memoryMb =>
    show usage c dto.projectId .memoryMb + dto.size.memoryMb ≤ quota.memoryMb
    omega

/-! ## Steps -/

/-- A caller, and whether its create is past the check. -/
abbrev World := Interleaving.World Cloud (Pc × Bool)

def trans (quotas : ℕ → Quota) (q : ℕ) (c : Cloud) (act : Act) (p : Pc × Bool) :
    Option (Cloud × Pc × Bool) :=
  match act, p with
  | .next _, (.creating dto, false) =>
      match quotaError (quotas dto.projectId) c dto with
      | some e => some (c, throws e, false)
      | none => some (c, .creating dto, true)
  | act, (pc, _) => (Compute.trans q c act pc).map fun r => (r.1, r.2, false)

def step (quotas : ℕ → Quota) : World → ℕ × Act → World := callerStep (trans quotas)

def start (hosts : Table ℕ Scheduler.Host) (ips : Table ℕ PublicIp) : World where
  shared := (Compute.start hosts ips).shared
  pc := fun _ => (.rest none, false)

/-- The create that is past its check. -/
def checked : Pc × Bool → Option CreateRequest
  | (.creating dto, true) => some dto
  | _ => none

/-! ## What a step adds -/

/-- The step is carried out, as far as it writes. -/
def carries : Act → Bool
  | .crash carriedOut _ _ | .swallow carriedOut _ => carriedOut
  | _ => true

def env : Act → Env
  | .next env | .crash _ env _ | .swallow _ env => env
  | _ => {}

/-- What a patch of the row of a server adds to its project. -/
def patched (c : Cloud) (s : ℕ) (p : Patch) : Option (ℕ × (Measure → ℤ)) :=
  (c.servers.find s).map fun r => (r.projectId, fun x => share x (r.patch p) - share x r)

/-- The project whose usage a step changes, with the change. -/
def growth (c : Cloud) (act : Act) : Pc × Bool → Option (ℕ × (Measure → ℤ))
  | (.creating dto, true) => some (dto.projectId, fun x => share x (newServer dto))
  | (.intent id type read, _) =>
      if nextStatus type read.status ≠ read.status then
        patched c id { status := some (nextStatus type read.status) }
      else none
  | (.startFailed id, _) => patched c id { status := some .failed }
  | (.workflow f, _) =>
      match (exec c f.server f.key (env act) f.stmt).1 with
      | .server p => if carries act then patched c f.server p else none
      | _ => none
  | _ => none

/-- Where a step adds to the usage of a project, the quotas have room for it, unless it is the
insert of a create, which has been checked; and each other create of the project that is past its
check would pass it again afterwards. -/
def Afforded (quotas : ℕ → Quota) (w : World) (a : ℕ × Act) : Prop :=
  ∀ p more, growth w.shared a.2 (w.pc a.1) = some (p, more) → (∃ x, 0 < more x) →
    (checked (w.pc a.1) = none → Room (quotas p) w.shared p more) ∧
      ∀ q, q ≠ a.1 → ∀ dto, checked (w.pc q) = some dto → dto.projectId = p →
        Room (quotas p) w.shared p fun x => more x + weight dto.size x

section
variable {c c' : Cloud} {act : Act} {pc pc' : Pc} {p : ℕ} {x : Measure} {quotas : ℕ → Quota}

theorem share_le_weight (x : Measure) (r : Server) : share x r ≤ weight r.size x := by
  unfold share
  split_ifs
  · exact le_refl _
  · cases x <;> simp [weight]

theorem usage_patch (c : Cloud) (s : ℕ) (patch : Patch) (p : ℕ) (x : Measure) :
    usage (c.apply s (.server patch)) p x = usage c p x +
      (match patched c s patch with
        | some e => if e.1 = p then e.2 x else 0
        | none => 0) := by
  have hsum : usage (c.apply s (.server patch)) p x = usage c p x +
      (c.servers.find s).elim 0 fun r =>
        (if r.projectId = p then share x (r.patch patch) else 0) -
          if r.projectId = p then share x r else 0 :=
    Table.sum_modify (fun (_ : ℕ) (r : Server) => if r.projectId = p then share x r else 0)
      c.servers s fun r => r.patch patch
  rw [hsum, patched]
  cases c.servers.find s with
  | none => rfl
  | some r =>
    by_cases hp : r.projectId = p <;> simp [hp]

theorem usage_insert (c : Cloud) (dto : CreateRequest) (p : ℕ) (x : Measure) :
    usage (insertServer c dto) p x =
      usage c p x + if dto.projectId = p then share x (newServer dto) else 0 := by
  have hsum := Table.sum_put (fun (_ : ℕ) (r : Server) => if r.projectId = p then share x r else 0)
    c.servers c.servers.fresh (newServer dto)
  rw [Table.find_fresh, Option.elim_none, sub_zero] at hsum
  exact hsum

theorem usage_of_servers (h : c'.servers = c.servers) : usage c' p x = usage c p x := by
  rw [usage, h]
  rfl

/-- What a step adds, by project. -/
def added (g : Option (ℕ × (Measure → ℤ))) (p : ℕ) (x : Measure) : ℤ :=
  match g with
  | some e => if e.1 = p then e.2 x else 0
  | none => 0

theorem usage_exec {f : Workflow} (hcarries : carries act = true) :
    usage (c.apply f.server (exec c f.server f.key (env act) f.stmt).1) p x =
      usage c p x + added (growth c act (.workflow f, false)) p x := by
  cases hwrite : (exec c f.server f.key (env act) f.stmt).1 with
  | server patch =>
    rw [usage_patch]
    simp only [growth, hwrite, hcarries, if_true]
    rfl
  | _ =>
    simp only [growth, hwrite, added, add_zero]
    apply usage_of_servers
    exact servers_of_write _ _ fun _ => nofun

theorem usage_dropped {f : Workflow} (hcarries : carries act = false) :
    usage c p x = usage c p x + added (growth c act (.workflow f, false)) p x := by
  have hnone : growth c act (.workflow f, false) = none := by
    simp only [growth, hcarries, Bool.false_eq_true, if_false]
    split <;> rfl
  simp [hnone, added]

theorem growth_addressing {b : Bool} (h : pc.addressing = true) : growth c act (pc, b) = none := by
  cases pc <;> first | rfl | cases h

theorem usage_moves (h : Moves c act pc c' pc') (hinsert : ∀ dto, pc ≠ .creating dto) :
    usage c' p x = usage c p x + added (growth c act (pc, false)) p x := by
  cases h with
  | call error call | started env id type before | unstarted id type before =>
    simp [growth, added, usage]
  | insert env dto => exact (hinsert dto rfl).elim
  | intent env id type read =>
    unfold writeIntent
    simp only [growth]
    split_ifs with hsame
    · rw [usage_patch]
      rfl
    · simp [added]
  | startFailed env id =>
    rw [usage_patch]
    rfl
  | workflow htook =>
    cases htook with
    | well env =>
      have hcarries : carries (.next env) = true := rfl
      exact usage_exec hcarries
    | crashed carriedOut env again =>
      cases carriedOut with
      | true =>
        have hcarries : carries (.crash true env again) = true := rfl
        exact usage_exec hcarries
      | false =>
        have hcarries : carries (.crash false env again) = false := rfl
        exact usage_dropped hcarries
    | caught carriedOut env hout =>
      cases carriedOut with
      | true =>
        have hcarries : carries (.swallow true env) = true := rfl
        exact usage_exec hcarries
      | false =>
        have hcarries : carries (.swallow false env) = false := rfl
        exact usage_dropped hcarries
  | addressed haddressing h =>
    simp [usage_of_servers (addressed_next haddressing h).servers, growth_addressing haddressing,
      added]
  | addressFailed haddressing h =>
    simp [usage_of_servers (addressed_crash haddressing h).servers, growth_addressing haddressing,
      added]

/-- A step is a check that goes well or not, the insert after it, or one of `Compute`. -/
inductive Steps (quotas : ℕ → Quota) (c : Cloud) : Act → Pc × Bool → Cloud → Pc × Bool → Prop
  | refused (env : Env) (dto : CreateRequest) (e : ApiError) :
      Steps quotas c (.next env) (.creating dto, false) c (throws e, false)
  | passed (env : Env) (dto : CreateRequest) (h : quotaError (quotas dto.projectId) c dto = none) :
      Steps quotas c (.next env) (.creating dto, false) c (.creating dto, true)
  | inserted (env : Env) (dto : CreateRequest) :
      Steps quotas c (.next env) (.creating dto, true) (insertServer c dto)
        (.starting c.servers.fresh .create .new, false)
  | other {act : Act} {pc pc' : Pc} {b : Bool} {c' : Cloud} (hpc : ∀ dto, pc ≠ .creating dto)
      (h : Moves c act pc c' pc') : Steps quotas c act (pc, b) c' (pc', false)

theorem trans_steps {q : ℕ} {at' now : Pc × Bool} (h : trans quotas q c act at' = some (c', now)) :
    Steps quotas c act at' c' now := by
  unfold trans at h
  split at h
  · next env dto =>
    cases hquota : quotaError (quotas dto.projectId) c dto with
    | some e =>
      rw [hquota] at h
      cases h
      exact .refused env dto e
    | none =>
      rw [hquota] at h
      cases h
      exact .passed env dto hquota
  · next pc b hcheck =>
    obtain ⟨⟨c₁, pc₁⟩, hstep, heq⟩ := Option.map_eq_some_iff.mp h
    cases heq
    have hmoves := trans_moves hstep
    cases pc with
    | creating dto =>
      cases hmoves with
      | insert env dto =>
        cases b with
        | false => exact (hcheck env dto rfl rfl rfl).elim
        | true => exact .inserted env dto
      | addressed haddressing _ | addressFailed haddressing _ => cases haddressing
    | _ => exact .other (fun _ => nofun) hmoves

theorem growth_unchecked (pc : Pc) (b : Bool) (hpc : ∀ dto, pc ≠ .creating dto) :
    growth c act (pc, b) = growth c act (pc, false) := by
  cases pc <;> first | rfl | exact (hpc _ rfl).elim

/-- What a step does to the usage of a project. -/
theorem usage_steps {at' now : Pc × Bool} (h : Steps quotas c act at' c' now) :
    usage c' p x = usage c p x + added (growth c act at') p x := by
  cases h with
  | refused env dto e => simp [growth, added]
  | passed env dto hquota => simp [growth, added]
  | inserted env dto =>
    rw [usage_insert]
    rfl
  | other hpc h =>
    rw [growth_unchecked _ _ hpc]
    exact usage_moves h hpc

/-- Who is past the check has just passed it. -/
theorem checked_steps {at' now : Pc × Bool} {dto : CreateRequest}
    (h : Steps quotas c act at' c' now) (hnow : checked now = some dto) :
    c' = c ∧ quotaError (quotas dto.projectId) c dto = none := by
  cases h with
  | refused env dto e => cases hnow
  | passed env request hquota =>
    cases hnow
    exact ⟨rfl, hquota⟩
  | inserted env dto => cases hnow
  | other hpc h =>
    unfold checked at hnow
    split at hnow
    · next heq => cases heq
    · cases hnow

/-- The insert of a create adds no more than was checked. -/
theorem growth_checked {at' : Pc × Bool} {dto : CreateRequest} {more : Measure → ℤ}
    (h : checked at' = some dto) (hgrowth : growth c act at' = some (p, more)) :
    dto.projectId = p ∧ ∀ x, more x ≤ weight dto.size x := by
  obtain ⟨pc, b⟩ := at'
  unfold checked at h
  split at h
  · next request hpair =>
    cases hpair
    have hsame : request = dto := Option.some.inj h
    have hpair : (request.projectId, fun x => share x (newServer request)) = (p, more) :=
      Option.some.inj hgrowth
    rw [Prod.mk.injEq] at hpair
    rw [← hsame, ← hpair.2]
    exact ⟨hpair.1, fun x => share_le_weight x (newServer request)⟩
  · cases h

/-! ## Every run -/

/-- The quotas hold, and every create past its check still has room. -/
structure Kept (quotas : ℕ → Quota) (w : World) : Prop where
  within : ∀ p x, usage w.shared p x ≤ (quotas p).limit x
  room : ∀ q dto, checked (w.pc q) = some dto →
    Room (quotas dto.projectId) w.shared dto.projectId (weight dto.size)

theorem kept_start (hosts : Table ℕ Scheduler.Host) (ips : Table ℕ PublicIp) :
    Kept quotas (start hosts ips) := by
  refine ⟨?_, fun q dto h => by cases h⟩
  intro p x
  have hnone : usage (start hosts ips).shared p x = 0 := rfl
  rw [hnone]
  cases x <;> exact Int.natCast_nonneg _

theorem kept_step {w : World} {a : ℕ × Act} (hafforded : Afforded quotas w a) (h : Kept quotas w) :
    Kept quotas (step quotas w a) := by
  rcases callerStep_cases (trans quotas) w a with heq | ⟨c, now, htrans, heq⟩
  · rw [step, heq]
    exact h
  have hsteps := trans_steps htrans
  rw [step, heq]
  refine ⟨?_, ?_⟩
  · intro p x
    show usage c p x ≤ (quotas p).limit x
    have hwithin := h.within p x
    rw [usage_steps hsteps]
    cases hgrowth : growth w.shared a.2 (w.pc a.1) with
    | none => simpa [added] using hwithin
    | some e =>
      obtain ⟨p', more⟩ := e
      simp only [added]
      split_ifs with hp
      · subst hp
        by_cases hmore : 0 < more x
        · cases hchecked : checked (w.pc a.1) with
          | none => exact (hafforded _ _ hgrowth ⟨x, hmore⟩).1 hchecked x
          | some dto =>
            obtain ⟨rfl, hle⟩ := growth_checked hchecked hgrowth
            have hroom := h.room a.1 dto hchecked x
            have := hle x
            omega
        · omega
      · omega
  · intro q dto hq
    by_cases hmover : q = a.1
    · subst hmover
      simp only [Function.update_self] at hq
      obtain ⟨rfl, hquota⟩ := checked_steps hsteps hq
      exact room_of_check hquota
    · simp only [Function.update_of_ne hmover] at hq
      intro x
      show usage c dto.projectId x + weight dto.size x ≤ (quotas dto.projectId).limit x
      have hroom := h.room q dto hq x
      rw [usage_steps hsteps]
      cases hgrowth : growth w.shared a.2 (w.pc a.1) with
      | none => simpa [added] using hroom
      | some e =>
        obtain ⟨p', more⟩ := e
        simp only [added]
        split_ifs with hp
        · by_cases hmore : 0 < more x
          · have hboth : usage w.shared p' x + (more x + weight dto.size x) ≤ (quotas p').limit x :=
              (hafforded _ _ hgrowth ⟨x, hmore⟩).2 q hmover dto hq hp.symm x
            rw [hp] at hboth
            omega
          · omega
        · omega

end

/-- In every run in which a step that adds to the usage of a project finds room for it, or is the
insert of a create that was checked, and takes no room from another create past its check: the
number of live servers of a project, their vCPUs and their memory stay within its quotas. -/
theorem quotas_hold (quotas : ℕ → Quota) (hosts : Table ℕ Scheduler.Host) (ips : Table ℕ PublicIp)
    (acts : List (ℕ × Act)) (h : Meets (step quotas) (Afforded quotas) (start hosts ips) acts)
    (p : ℕ) (x : Measure) :
    usage (run (step quotas) (start hosts ips) acts).shared p x ≤ (quotas p).limit x :=
  (h.invariant (I := Kept quotas) (fun _ _ hafforded hw => kept_step hafforded hw)
    (kept_start hosts ips)).within p x

/-! ## Above the quotas -/

/-- Every project may have one server with two vCPUs. -/
def oneServer (_ : ℕ) : Quota := ⟨1, 2, 4096⟩

def large : Size := ⟨4, 8192, 100⟩

/-- A create, from its call to the end of its workflow. -/
def created (q : ℕ) : List (ℕ × Act) :=
  (q, .call (.create small)) :: List.replicate 25 (q, .next { host := some 0, address := some 10 })

/-- A resize of the first server, from its call to the end of its workflow. -/
def resized (q : ℕ) (size : Size) : List (ℕ × Act) :=
  (q, .call (.action 1 (.resize size))) :: List.replicate 16 (q, .next {})

/-- One create passes its check before the other inserts. -/
def createdAtOnce : List (ℕ × Act) :=
  [(0, .call (.create small)), (1, .call (.create small)), (0, .next {}), (1, .next {}),
    (0, .next {}), (1, .next {})]

def used (acts : List (ℕ × Act)) (x : Measure) : ℤ :=
  usage (run (step oneServer) (start oneHost oneIp) acts).shared 0 x

/-- `Afforded` where no more than `n` callers act. -/
def affordedHere (n : ℕ) (quotas : ℕ → Quota) (w : World) (a : ℕ × Act) : Bool :=
  match growth w.shared a.2 (w.pc a.1) with
  | none => true
  | some (p, more) =>
      if ∃ x, 0 < more x then
        (checked (w.pc a.1) ≠ none ∨ Room (quotas p) w.shared p more) ∧
          (List.range n).all fun q =>
            q = a.1 ∨ (checked (w.pc q)).all fun dto =>
              dto.projectId ≠ p ∨ Room (quotas p) w.shared p fun x => more x + weight dto.size x
      else true

theorem afforded_of_here {n : ℕ} {quotas : ℕ → Quota} {w : World} {a : ℕ × Act}
    (h : affordedHere n quotas w a = true) (hidle : ∀ q, n ≤ q → w.pc q = (.rest none, false)) :
    Afforded quotas w a := by
  intro p more hgrowth hmore
  simp only [affordedHere, hgrowth, if_pos hmore, decide_eq_true_eq] at h
  refine ⟨fun hnone => h.1.resolve_left (not_not_intro hnone), ?_⟩
  intro q hq dto hdto hp
  by_cases hlt : q < n
  · have hall := List.all_eq_true.mp h.2 q (List.mem_range.mpr hlt)
    simpa [hq, hdto, hp] using hall
  · rw [hidle q (by omega)] at hdto
    cases hdto

/-- A create, a resize within the quotas, and a create that is refused. -/
theorem quotas_hold_inTurn :
    used (created 0 ++ resized 1 ⟨2, 4096, 100⟩ ++ created 1) .vcpu = 2 ∧
      used (created 0 ++ resized 1 ⟨2, 4096, 100⟩ ++ created 1) .servers ≤ 1 := by
  have hhere : Meets (step oneServer) (fun w a => affordedHere 2 oneServer w a = true)
      (start oneHost oneIp) (created 0 ++ resized 1 ⟨2, 4096, 100⟩ ++ created 1) := by decide
  have hcallers : ∀ a ∈ created 0 ++ resized 1 ⟨2, 4096, 100⟩ ++ created 1, a.1 < 2 := by decide
  exact ⟨by decide +kernel, quotas_hold oneServer oneHost oneIp _
    (Meets.of_idle (hhere.mono fun w a _ h hidle => afforded_of_here h hidle) (fun _ _ => rfl)
      hcallers) 0 .servers⟩

/-- Two creates at once, and a resize. -/
theorem quotas_exceeded :
    (oneServer 0).limit .servers < used createdAtOnce .servers ∧
      (oneServer 0).limit .vcpu < used (created 0 ++ resized 1 large) .vcpu :=
  ⟨by decide +kernel, by decide +kernel⟩

end Prgd.Quotas
