import Prgd.RunMachine

/-!
# Repeated requests of the public run API

`publicRun` and `replay` of `runs.service.ts` for calls that carry one idempotency key of one
agent, with Redis available and the key not yet expired. A call looks the key up, creates a run,
and only then claims the key; who comes second deletes its own run and answers with the run of the
key. Everything between two awaited operations is one step, and the steps of all calls interleave.

The id of a run is its place among all runs that the calls have created; `made` names the call
that created it, and no operation reads it. The bodies of the answers are left out but for the id
and the status of the run.
-/
namespace Prgd.PublicRuns
open Interleaving
open RunMachine (RunStatus)

/-! ## Calls -/

structure Row where
  id : ℕ
  status : RunStatus
  deriving DecidableEq

structure Request where
  async : Bool

structure Answer where
  status : ℕ
  runId : ℕ
  runStatus : RunStatus
  replayed : Bool
  deriving DecidableEq

structure Shared where
  /-- The run of the idempotency key. -/
  key : Option ℕ := none
  rows : List Row := []
  /-- The runs that calls have dispatched, or executed and waited for. -/
  started : List ℕ := []
  /-- The runs that `execute` has claimed. -/
  executed : List ℕ := []
  /-- The runs whose deletion failed; the calls ignore it. -/
  undeleted : List ℕ := []
  made : List ℕ := []
  deriving DecidableEq

inductive Pc where
  | arrived (dto : Request)
  | looking (dto : Request)
  | limited (dto : Request)
  | creating (dto : Request)
  /-- The run is created and the key is about to be claimed. -/
  | claiming (dto : Request) (id : ℕ)
  /-- Another call has the key; the own run is about to be deleted. -/
  | dropping (dto : Request) (id : ℕ)
  | asking (dto : Request) (id : ℕ)
  | replaying (id : ℕ)
  | starting (dto : Request) (id : ℕ)
  /-- In `executeAndWait`. -/
  | waiting (id : ℕ)
  | answered (answer : Answer)
  | failed
  /-- A worker, or another endpoint that changes runs. -/
  | worker

inductive Act where
  /-- The credential and the agent are checked. -/
  | authorize (ok : Bool)
  | get
  | rateLimit (ok : Bool)
  /-- `create` refuses a call that is over a limit. -/
  | create (ok : Bool)
  | set
  | delete (ok : Bool)
  | winner
  | read
  | start
  | finish
  /-- `execute` for a run that was handed to it. -/
  | execute (id : ℕ)
  /-- A run ends, parks, is resumed or cancelled. -/
  | turn (id : ℕ) (status : RunStatus)

/-- `TERMINAL` -/
def terminal (status : RunStatus) : Bool :=
  [RunStatus.succeeded, .failed, .cancelled, .waitingApproval].contains status

def Shared.row (s : Shared) (id : ℕ) : Option Row := s.rows.find? fun r => r.id == id

def Shared.setStatus (s : Shared) (id : ℕ) (status : RunStatus) : Shared :=
  { s with rows := s.rows.map fun r => if r.id = id then { r with status } else r }

def report (replayed : Bool) (r : Row) : Answer :=
  ⟨if terminal r.status then 200 else 202, r.id, r.status, replayed⟩

/-- The answer about a run that is read; `none` when there is no such run. -/
def answer (replayed : Bool) : Option Row → Pc
  | some r => .answered (report replayed r)
  | none => .failed

def trans (i : ℕ) (s : Shared) : Act → Pc → Option (Shared × Pc)
  | .authorize ok, .arrived dto => some (s, if ok then .looking dto else .failed)
  | .get, .looking dto =>
      match s.key with
      | some existing => some (s, .replaying existing)
      | none => some (s, .limited dto)
  | .rateLimit ok, .limited dto => some (s, if ok then .creating dto else .failed)
  | .create true, .creating dto =>
      some ({ s with
        rows := s.rows ++ [⟨s.made.length, .queued⟩]
        made := s.made ++ [i] }, .claiming dto s.made.length)
  | .create false, .creating _ => some (s, .failed)
  | .set, .claiming dto id =>
      match s.key with
      | none => some ({ s with key := some id }, .starting dto id)
      | some _ => some (s, .dropping dto id)
  | .delete true, .dropping dto id =>
      some ({ s with rows := s.rows.filter fun r => r.id ≠ id }, .asking dto id)
  | .delete false, .dropping dto id =>
      some ({ s with undeleted := s.undeleted ++ [id] }, .asking dto id)
  | .winner, .asking dto id =>
      match s.key with
      | some winner => some (s, .replaying winner)
      | none => some (s, .starting dto id)
  | .read, .replaying id => some (s, answer true (s.row id))
  | .start, .starting dto id =>
      some ({ s with started := s.started ++ [id] },
        if dto.async then .answered ⟨202, id, .queued, false⟩ else .waiting id)
  | .finish, .waiting id => some (s, answer false (s.row id))
  | .execute id, .worker =>
      if id ∈ s.started ∧ ⟨id, .queued⟩ ∈ s.rows then
        some ({ s.setStatus id .running with executed := s.executed ++ [id] }, .worker)
      else none
  | .turn id status, .worker => some (s.setStatus id status, .worker)
  | _, _ => none

abbrev RunsWorld := World Shared Pc

/-- Each caller is a call with its request, or a worker. -/
def start (callers : ℕ → Option Request) : RunsWorld :=
  ⟨{}, fun i => ((callers i).map Pc.arrived).getD .worker⟩

abbrev publicStep : RunsWorld → ℕ × Act → RunsWorld := callerStep trans

/-- The call has returned or thrown. -/
def Pc.over : Pc → Bool
  | .answered _ | .failed | .worker => true
  | _ => false

/-- One run is started at most once and no other one is started or executed, and every answer is
about it. -/
structure OneRun (w : RunsWorld) : Prop where
  once : w.shared.started.length ≤ 1
  started : ∀ id ∈ w.shared.started ++ w.shared.executed, w.shared.key = some id
  answers : ∀ i a, w.pc i = .answered a → w.shared.key = some a.runId

/-! ## The invariant -/

structure Kept (s : Shared) : Prop where
  ids : ∀ r ∈ s.rows, r.id < s.made.length
  once : s.started.length ≤ 1
  started : ∀ id ∈ s.started ++ s.executed, s.key = some id
  row : ∀ id, s.key = some id → ∃ r ∈ s.rows, r.id = id

/-- The rows of a call. -/
def Owns (s : Shared) (i : ℕ) (r : Row) : Prop := r ∈ s.rows ∧ s.made[r.id]? = some i

/-- Of the rows of the call only that of the key is left, and what could not be deleted. -/
def Settled (s : Shared) (i : ℕ) : Prop :=
  ∀ r, Owns s i r → s.key = some r.id ∨ r.id ∈ s.undeleted

/-- The run of a call that has not given it up. -/
structure Holds (s : Shared) (i id : ℕ) : Prop where
  made : s.made[id]? = some i
  only : ∀ r, Owns s i r → r.id = id
  row : ∃ r, Owns s i r

def Local (s : Shared) (i : ℕ) : Pc → Prop
  | .arrived _ | .looking _ | .limited _ | .creating _ => ∀ r, ¬ Owns s i r
  | .claiming _ id => Holds s i id ∧ s.key ≠ some id
  | .dropping _ id => Holds s i id ∧ s.key ≠ some id ∧ s.key ≠ none
  | .asking _ _ => Settled s i ∧ s.key ≠ none
  | .replaying id => Settled s i ∧ s.key = some id
  | .starting _ id => Holds s i id ∧ s.key = some id ∧ s.started = []
  | .waiting id => Settled s i ∧ s.key = some id
  | .answered a => Settled s i ∧ s.key = some a.runId
  | .failed | .worker => Settled s i

/-- What a step of the call `i` leaves to the other ones. -/
structure Frame (i : ℕ) (s s' : Shared) : Prop where
  made : ∀ id q : ℕ, q ≠ i → (s'.made[id]? = some q ↔ s.made[id]? = some q)
  rows : ∀ q, q ≠ i → ∀ r, Owns s' q r → ∃ r', Owns s q r' ∧ r'.id = r.id
  stays : ∀ q, q ≠ i → ∀ r, Owns s q r → ∃ r', Owns s' q r'
  key : ∀ id, s.key = some id → s'.key = some id
  claimed : ∀ id, s'.key = some id → s.key = some id ∨ s.made[id]? = some i
  undeleted : ∀ id ∈ s.undeleted, id ∈ s'.undeleted
  started : s'.started = s.started ∨ ∃ id, s.made[id]? = some i ∧ s.key = some id

theorem Frame.refl (i : ℕ) (s : Shared) : Frame i s s :=
  ⟨fun _ _ _ => Iff.rfl, fun _ _ r h => ⟨r, h, rfl⟩, fun _ _ r h => ⟨r, h⟩, fun _ h => h,
    fun _ h => .inl h, fun _ h => h, .inl rfl⟩

section
variable {i q : ℕ} {s s' : Shared}

theorem Frame.settled (h : Frame i s s') (hq : q ≠ i) (hs : Settled s q) : Settled s' q := by
  intro r hr
  obtain ⟨r', hr', hid⟩ := h.rows q hq r hr
  rw [← hid]
  exact (hs r' hr').imp (h.key _) (h.undeleted _)

theorem Frame.holds (h : Frame i s s') (hq : q ≠ i) {id : ℕ} (hs : Holds s q id) :
    Holds s' q id where
  made := (h.made id q hq).mpr hs.made
  only r hr := by
    obtain ⟨r', hr', hid⟩ := h.rows q hq r hr
    exact hid ▸ hs.only r' hr'
  row := by
    obtain ⟨r, hr⟩ := hs.row
    exact h.stays q hq r hr

theorem Frame.keyed (h : Frame i s s') (hkey : s.key ≠ none) : s'.key ≠ none := by
  obtain ⟨id, hid⟩ := Option.ne_none_iff_exists'.mp hkey
  rw [h.key id hid]
  exact Option.some_ne_none id

/-- Nobody else claims the key for the run of the call. -/
theorem Frame.other (h : Frame i s s') (hq : q ≠ i) {id : ℕ} (hs : Holds s q id)
    (hkey : s.key ≠ some id) : s'.key ≠ some id := by
  intro hkey'
  rcases h.claimed id hkey' with hold | hmade
  · exact hkey hold
  · exact hq (Option.some.inj (hs.made.symm.trans hmade))

theorem Frame.local (h : Frame i s s') (hq : q ≠ i) {c : Pc} (hc : Local s q c) : Local s' q c := by
  cases c with
  | arrived _ | looking _ | limited _ | creating _ =>
    intro r hr
    obtain ⟨r', hr', -⟩ := h.rows q hq r hr
    exact hc r' hr'
  | claiming _ id => exact ⟨h.holds hq hc.1, h.other hq hc.1 hc.2⟩
  | dropping _ id => exact ⟨h.holds hq hc.1, h.other hq hc.1 hc.2.1, h.keyed hc.2.2⟩
  | asking _ _ => exact ⟨h.settled hq hc.1, h.keyed hc.2⟩
  | replaying id | waiting id => exact ⟨h.settled hq hc.1, h.key id hc.2⟩
  | answered a => exact ⟨h.settled hq hc.1, h.key _ hc.2⟩
  | failed | worker => exact h.settled hq hc
  | starting _ id =>
    refine ⟨h.holds hq hc.1, h.key id hc.2.1, ?_⟩
    rcases h.started with heq | ⟨id', hmade, hkey⟩
    · rw [heq, hc.2.2]
    · rw [hc.2.1] at hkey
      cases hkey
      exact absurd (Option.some.inj (hc.1.made.symm.trans hmade)) hq

end

/-! ## Steps -/

/-- A step of a call keeps its own facts and leaves those of the others. -/
structure Moves (i : ℕ) (s s' : Shared) (c' : Pc) : Prop where
  kept : Kept s'
  place : Local s' i c'
  frame : Frame i s s'

section
variable {i : ℕ} {s : Shared}

theorem Moves.same (hs : Kept s) {c' : Pc} (hc : Local s i c') : Moves i s s c' :=
  ⟨hs, hc, .refl i s⟩

theorem settled_of_none (h : ∀ r, ¬ Owns s i r) : Settled s i := fun r hr => absurd hr (h r)

/-- The run of the key is the call's own run. -/
theorem Holds.settled {id : ℕ} (h : Holds s i id) (hkey : s.key = some id) : Settled s i :=
  fun r hr => .inl (h.only r hr ▸ hkey)

theorem moves_create (hs : Kept s) (h : ∀ r, ¬ Owns s i r) (dto : Request) :
    Moves i s { s with
      rows := s.rows ++ [⟨s.made.length, .queued⟩]
      made := s.made ++ [i] } (.claiming dto s.made.length) := by
  have hold : ∀ {id : ℕ}, id < s.made.length → (s.made ++ [i])[id]? = s.made[id]? :=
    fun hid => List.getElem?_append_left hid
  have hnew : (s.made ++ [i])[s.made.length]? = some i := by simp
  have hkey : ∀ id, s.key = some id → id < s.made.length := by
    intro id hid
    obtain ⟨r, hr, rfl⟩ := hs.row id hid
    exact hs.ids r hr
  refine ⟨⟨?_, hs.once, hs.started, ?_⟩, ⟨⟨hnew, ?_, ?_⟩, fun hid => ?_⟩, ⟨?_, ?_, ?_,
    fun _ h => h, fun _ h => .inl h, fun _ h => h, .inl rfl⟩⟩
  · intro r hr
    rw [List.length_append, List.length_singleton]
    rcases List.mem_append.mp hr with hr | hr
    · exact (hs.ids r hr).trans (Nat.lt_succ_self _)
    · rw [List.mem_singleton] at hr
      exact hr ▸ Nat.lt_succ_self _
  · intro id hid
    obtain ⟨r, hr, hrid⟩ := hs.row id hid
    exact ⟨r, List.mem_append_left _ hr, hrid⟩
  · rintro r ⟨hr, hmade⟩
    rcases List.mem_append.mp hr with hr | hr
    · exact absurd ⟨hr, (hold (hs.ids r hr)).symm.trans hmade⟩ (h r)
    · rw [List.mem_singleton] at hr
      rw [hr]
  · exact ⟨_, List.mem_append_right _ (List.mem_singleton.mpr rfl), hnew⟩
  · exact absurd (hkey _ hid) (lt_irrefl _)
  · intro id q hq
    rcases lt_trichotomy id s.made.length with hlt | rfl | hgt
    · rw [hold hlt]
    · rw [hnew, List.getElem?_eq_none le_rfl]
      simp [Ne.symm hq]
    · rw [List.getElem?_eq_none hgt.le, List.getElem?_eq_none]
      rw [List.length_append, List.length_singleton]
      exact hgt
  · rintro q hq r ⟨hr, hmade⟩
    rcases List.mem_append.mp hr with hr | hr
    · exact ⟨r, ⟨hr, (hold (hs.ids r hr)).symm.trans hmade⟩, rfl⟩
    · rw [List.mem_singleton] at hr
      subst hr
      exact absurd (Option.some.inj (hnew.symm.trans hmade)) (Ne.symm hq)
  · rintro q - r ⟨hr, hmade⟩
    exact ⟨r, List.mem_append_left _ hr, (hold (hs.ids r hr)).trans hmade⟩

theorem moves_set (hs : Kept s) {dto : Request} {id : ℕ} (hkey : s.key = none)
    (h : Holds s i id) :
    Moves i s { s with key := some id } (.starting dto id) := by
  have hnone : s.started = [] ∧ s.executed = [] := by
    constructor
    all_goals
      rw [List.eq_nil_iff_forall_not_mem]
      intro id' hid'
    · exact absurd (hkey ▸ hs.started id' (List.mem_append_left _ hid')) nofun
    · exact absurd (hkey ▸ hs.started id' (List.mem_append_right _ hid')) nofun
  refine ⟨⟨hs.ids, hs.once, ?_, ?_⟩, ⟨⟨h.made, h.only, h.row⟩, rfl, hnone.1⟩,
    ⟨fun _ _ _ => Iff.rfl, fun _ _ r hr => ⟨r, hr, rfl⟩, fun _ _ r hr => ⟨r, hr⟩, ?_, ?_, fun _ h => h, .inl rfl⟩⟩
  · intro id' hid'
    rw [hnone.1, hnone.2] at hid'
    cases hid'
  · intro id' hid'
    cases hid'
    obtain ⟨r, hr⟩ := h.row
    exact ⟨r, hr.1, h.only r hr⟩
  · intro id' hid'
    rw [hkey] at hid'
    cases hid'
  · intro id' hid'
    cases hid'
    exact .inr h.made

theorem moves_delete (hs : Kept s) {dto : Request} {id : ℕ} (h : Holds s i id)
    (hother : s.key ≠ some id) (hkey : s.key ≠ none) :
    Moves i s { s with rows := s.rows.filter fun r => r.id ≠ id } (.asking dto id) := by
  have hmem : ∀ {r : Row}, r ∈ (s.rows.filter fun r => r.id ≠ id) ↔ r ∈ s.rows ∧ r.id ≠ id := by
    intro r
    rw [List.mem_filter, decide_eq_true_eq]
  refine ⟨⟨fun r hr => hs.ids r (hmem.mp hr).1, hs.once, hs.started, ?_⟩, ⟨?_, hkey⟩,
    ⟨fun _ _ _ => Iff.rfl, fun q _ r hr => ⟨r, ⟨(hmem.mp hr.1).1, hr.2⟩, rfl⟩, ?_, fun _ h => h,
      fun _ h => .inl h, fun _ h => h, .inl rfl⟩⟩
  · intro id' hid'
    obtain ⟨r, hr, rfl⟩ := hs.row id' hid'
    exact ⟨r, hmem.mpr ⟨hr, fun heq => hother (heq ▸ hid')⟩, rfl⟩
  · rintro r ⟨hr, hmade⟩
    exact absurd (h.only r ⟨(hmem.mp hr).1, hmade⟩) (hmem.mp hr).2
  · rintro q hq r ⟨hr, hmade⟩
    refine ⟨r, hmem.mpr ⟨hr, fun hid => ?_⟩, hmade⟩
    rw [hid] at hmade
    exact hq (Option.some.inj (hmade.symm.trans h.made))

/-- The deletion fails, which the call does not notice. -/
theorem moves_undeleted (hs : Kept s) {dto : Request} {id : ℕ} (h : Holds s i id)
    (hkey : s.key ≠ none) :
    Moves i s { s with undeleted := s.undeleted ++ [id] } (.asking dto id) :=
  ⟨⟨hs.ids, hs.once, hs.started, hs.row⟩,
    ⟨fun r hr => .inr (List.mem_append_right _ (List.mem_singleton.mpr (h.only r hr))), hkey⟩,
    ⟨fun _ _ _ => Iff.rfl, fun _ _ r hr => ⟨r, hr, rfl⟩, fun _ _ r hr => ⟨r, hr⟩, fun _ h => h,
      fun _ h => .inl h, fun _ h => List.mem_append_left _ h, .inl rfl⟩⟩

theorem moves_start (hs : Kept s) {dto : Request} {id : ℕ} (h : Local s i (.starting dto id)) :
    Moves i s { s with started := s.started ++ [id] }
      (if dto.async then .answered ⟨202, id, .queued, false⟩ else .waiting id) := by
  obtain ⟨hholds, hkey, hstarted⟩ := h
  refine ⟨⟨hs.ids, by rw [hstarted]; exact le_rfl, ?_, hs.row⟩, ?_,
    ⟨fun _ _ _ => Iff.rfl, fun _ _ r hr => ⟨r, hr, rfl⟩, fun _ _ r hr => ⟨r, hr⟩, fun _ h => h,
      fun _ h => .inl h, fun _ h => h, .inr ⟨id, hholds.made, hkey⟩⟩⟩
  · intro id' hid'
    rcases List.mem_append.mp hid' with hid' | hid'
    · rw [hstarted, List.nil_append, List.mem_singleton] at hid'
      exact hid' ▸ hkey
    · exact hs.started id' (List.mem_append_right _ hid')
  · split
    · exact ⟨hholds.settled hkey, hkey⟩
    · exact ⟨hholds.settled hkey, hkey⟩

theorem mem_setStatus {id : ℕ} {status : RunStatus} {r : Row}
    (h : r ∈ (s.setStatus id status).rows) : ∃ r' ∈ s.rows, r'.id = r.id := by
  obtain ⟨r', hr', rfl⟩ := List.mem_map.mp h
  exact ⟨r', hr', by split <;> rfl⟩

theorem moves_turn (hs : Kept s) (h : Settled s i) (id : ℕ) (status : RunStatus)
    {executed : List ℕ} (hexecuted : ∀ id ∈ executed, s.key = some id) :
    Moves i s { s.setStatus id status with executed := executed } .worker := by
  refine ⟨⟨fun r hr => ?_, hs.once, fun id' hid' => ?_, fun id' hid' => ?_⟩, fun r hr => ?_,
    ⟨fun _ _ _ => Iff.rfl, fun q _ r hr => ?_, fun q _ r hr => ?_, fun _ h => h,
      fun _ h => .inl h, fun _ h => h, .inl rfl⟩⟩
  · obtain ⟨r', hr', hid⟩ := mem_setStatus hr
    exact hid ▸ hs.ids r' hr'
  · rcases List.mem_append.mp hid' with hid' | hid'
    · exact hs.started id' (List.mem_append_left _ hid')
    · exact hexecuted id' hid'
  · obtain ⟨r, hr, rfl⟩ := hs.row id' hid'
    exact ⟨_, List.mem_map_of_mem hr, by split <;> rfl⟩
  · obtain ⟨r', hr', hid⟩ := mem_setStatus hr.1
    have := h r' ⟨hr', hid ▸ hr.2⟩
    rwa [hid] at this
  · obtain ⟨r', hr', hid⟩ := mem_setStatus hr.1
    exact ⟨r', ⟨hr', hid ▸ hr.2⟩, hid⟩
  · refine ⟨_, List.mem_map_of_mem hr.1, ?_⟩
    have hid : (if r.id = id then { r with status } else r).id = r.id := by split <;> rfl
    rw [hid]
    exact hr.2

theorem local_answer (h : Settled s i) {id : ℕ} (hkey : s.key = some id) (replayed : Bool) :
    Local s i (answer replayed (s.row id)) := by
  cases hrow : s.row id with
  | none => exact h
  | some r =>
    have hid : r.id = id := by simpa using List.find?_some hrow
    refine ⟨h, ?_⟩
    rw [report, hid]
    exact hkey

/-- What one step does. -/
theorem trans_moves {a : Act} {c c' : Pc} {s' : Shared} (h : trans i s a c = some (s', c'))
    (hs : Kept s) (hc : Local s i c) : Moves i s s' c' := by
  unfold trans at h
  split at h
  case h_1 ok dto =>
    cases h
    refine .same hs ?_
    cases ok with
    | true => exact hc
    | false => exact settled_of_none hc
  case h_2 dto =>
    split at h
    next existing hkey =>
      cases h
      exact .same hs ⟨settled_of_none hc, hkey⟩
    next =>
      cases h
      exact .same hs hc
  case h_3 ok dto =>
    cases h
    refine .same hs ?_
    cases ok with
    | true => exact hc
    | false => exact settled_of_none hc
  case h_4 dto =>
    cases h
    exact moves_create hs hc dto
  case h_5 dto =>
    cases h
    exact .same hs (settled_of_none hc)
  case h_6 dto id =>
    split at h
    next hkey =>
      cases h
      exact moves_set hs hkey hc.1
    next other hkey =>
      cases h
      exact .same hs ⟨hc.1, hc.2, hkey ▸ Option.some_ne_none other⟩
  case h_7 dto id =>
    cases h
    exact moves_delete hs hc.1 hc.2.1 hc.2.2
  case h_8 dto id =>
    cases h
    exact moves_undeleted hs hc.1 hc.2.2
  case h_9 dto id =>
    split at h
    next winner hkey =>
      cases h
      exact .same hs ⟨hc.1, hkey⟩
    next hkey => exact absurd hkey hc.2
  case h_10 id =>
    cases h
    exact .same hs (local_answer hc.1 hc.2 true)
  case h_11 dto id =>
    cases h
    exact moves_start hs hc
  case h_12 id =>
    cases h
    exact .same hs (local_answer hc.1 hc.2 false)
  case h_13 id =>
    split at h
    next hready =>
      cases h
      refine moves_turn hs hc id .running fun id' hid' => ?_
      rcases List.mem_append.mp hid' with hid' | hid'
      · exact hs.started id' (List.mem_append_right _ hid')
      · rw [List.mem_singleton] at hid'
        exact hs.started id' (List.mem_append_left _ (hid' ▸ hready.1))
    next => cases h
  case h_14 id status =>
    cases h
    exact moves_turn hs hc id status fun id' hid' =>
      hs.started id' (List.mem_append_right _ hid')
  case h_15 => cases h

end

theorem kept_start : Kept {} := ⟨nofun, Nat.zero_le 1, nofun, nofun⟩

theorem local_start (callers : ℕ → Option Request) (i : ℕ) :
    Local {} i ((start callers).pc i) := by
  have hnone : ∀ r, ¬ Owns {} i r := fun r hr => nomatch hr.1
  rw [start]
  dsimp only
  cases callers i with
  | none => exact settled_of_none hnone
  | some dto => exact hnone

/-- The shared facts and those of every caller, after any schedule. -/
theorem run_kept (callers : ℕ → Option Request) (as : List (ℕ × Act)) :
    Kept (run publicStep (start callers) as).shared ∧
      ∀ i, Local (run publicStep (start callers) as).shared i
        ((run publicStep (start callers) as).pc i) := by
  refine run_invariant (I := fun w : RunsWorld => Kept w.shared ∧ ∀ i, Local w.shared i (w.pc i))
    (fun w a h => ?_) ⟨kept_start, local_start callers⟩ as
  exact callerStep_invariant (fun s c ht => ⟨(trans_moves ht h.1 (h.2 _)).kept,
    (trans_moves ht h.1 (h.2 _)).place⟩)
    (fun s c ht q hq => (trans_moves ht h.1 (h.2 _)).frame.local hq (h.2 q)) h.1 h.2

/-- One run at most is started, every answer is about it, and a run of a call that is over is
this one or could not be deleted. -/
theorem publicRun_idempotent (callers : ℕ → Option Request) (as : List (ℕ × Act)) :
    OneRun (run publicStep (start callers) as) ∧
    ∀ r ∈ (run publicStep (start callers) as).shared.rows,
      ∃ i, (run publicStep (start callers) as).shared.made[r.id]? = some i ∧
        (((run publicStep (start callers) as).pc i).over = true →
          (run publicStep (start callers) as).shared.key = some r.id ∨
            r.id ∈ (run publicStep (start callers) as).shared.undeleted) := by
  obtain ⟨hs, hlocal⟩ := run_kept callers as
  generalize run publicStep (start callers) as = w at hs hlocal ⊢
  refine ⟨⟨hs.once, hs.started, fun i a ha => ?_⟩, fun r hr => ?_⟩
  · have := hlocal i
    rw [ha] at this
    exact this.2
  · obtain ⟨i, hmade⟩ : ∃ i, w.shared.made[r.id]? = some i :=
      ⟨_, List.getElem?_eq_getElem (hs.ids r hr)⟩
    refine ⟨i, hmade, fun hover => ?_⟩
    have := hlocal i
    cases hpc : w.pc i with
    | answered a =>
      rw [hpc] at this
      exact this.1 r ⟨hr, hmade⟩
    | failed | worker =>
      rw [hpc] at this
      exact this r ⟨hr, hmade⟩
    | arrived _ | looking _ | limited _ | creating _ | claiming _ _ | dropping _ _ | asking _ _
      | replaying _ | starting _ _ | waiting _ =>
      rw [hpc] at hover
      cases hover

/-- Two calls at once; the deletion of the second run fails, and it stays beside the first. -/
theorem publicRun_left_behind :
    ¬ ∀ (callers : ℕ → Option Request) (as : List (ℕ × Act)),
      (∀ i, ((run publicStep (start callers) as).pc i).over = true) →
        ∀ r ∈ (run publicStep (start callers) as).shared.rows,
          (run publicStep (start callers) as).shared.key = some r.id := by
  intro h
  let callers : ℕ → Option Request := fun i => if i < 2 then some ⟨true⟩ else none
  let as : List (ℕ × Act) := [(0, .authorize true), (1, .authorize true), (0, .get), (1, .get),
    (0, .rateLimit true), (1, .rateLimit true), (0, .create true), (1, .create true), (0, .set),
    (0, .start), (1, .set), (1, .delete false), (1, .winner), (1, .read)]
  have hover : ∀ i, ((run publicStep (start callers) as).pc i).over = true := by
    intro i
    by_cases hi : i < 2
    · have hboth : ∀ j < 2, ((run publicStep (start callers) as).pc j).over = true := by decide
      exact hboth i hi
    · have hacts : ∀ a ∈ as, a.1 < 2 := by decide
      have hnot : i ∉ as.map Prod.fst := by
        intro hmem
        obtain ⟨a, ha, rfl⟩ := List.mem_map.mp hmem
        exact hi (hacts a ha)
      rw [run_pc_of_notMem trans (start callers) hnot]
      have hnone : callers i = none := if_neg hi
      simp [start, hnone, Pc.over]
  have := h callers as hover ⟨1, .queued⟩ (by decide)
  exact absurd this (by decide)

end Prgd.PublicRuns
