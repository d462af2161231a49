import Prgd.Interleaving
import Prgd.Table
import Mathlib.Data.List.GetD

/-!
# Jobs of a host agent

Each request that reaches the agent runs `handle` in a goroutine of its own. The map from job ids to
entries is read and written under a mutex; the channel of an entry is closed once and may be read by
anyone. `claim` is one step, taken while the mutex is free. `finish` takes the mutex, stores the
result, deletes a failed job from the map and closes the channel in steps of their own. Times are in
milliseconds.

An entry is made for each execution, so executions are named by the entries. A job id is in the map
from its claim until its execution has failed or an hour has passed since it succeeded.
-/
namespace Prgd.HostAgent
open Interleaving

structure Job where
  id : String
  kind : String
  params : String
  issuedAt : String
  deriving DecidableEq

structure JobError where
  code : String
  message : String
  retryable : Bool
  deriving DecidableEq

structure JobResult where
  jobId : String := ""
  ok : Bool := false
  result : Option String := none
  error : Option JobError := none
  deriving DecidableEq

/-- An error of `dispatch`: its text, the status if it wraps an `APIError`, and the code if it wraps
a `permanent`. -/
structure Failure where
  message : String
  status : Option ℕ := none
  permanent : Option String := none
  deriving DecidableEq

/-- `APIError.Retryable`. -/
def retryable (status : ℕ) : Bool := decide (500 ≤ status) || status == 429

/-- What `run` makes of the outcome of `dispatch`. -/
def jobResult (job : Job) : Except Failure String → JobResult
  | .ok res => { jobId := job.id, ok := true, result := some res }
  | .error err =>
      let je : JobError := ⟨"job_failed", err.message, true⟩
      let je := match err.status with
        | none => je
        | some status =>
            { je with code := "proxmox_" ++ toString status, retryable := retryable status }
      let je := match err.permanent with
        | none => je
        | some code => { je with code := code, retryable := false }
      { jobId := job.id, ok := false, error := some je }

/-- An entry of the map. The last four fields are not stored: whose execution it is of which job,
since when, and what its `run` returned. -/
structure JobEntry where
  done : Bool := false
  res : JobResult := {}
  finished : Option ℕ := none
  owner : ℕ
  id : String
  startedAt : ℕ
  returned : Option JobResult := none
  deriving DecidableEq

def jobRetention : ℕ := 3600000

structure Shared where
  now : ℕ := 0
  /-- The entries that were made; the map has indices into this list. -/
  entries : List JobEntry := []
  jobs : Table String ℕ := .empty
  jobsMu : Option ℕ := none
  /-- The context of the agent is done. -/
  cancelled : Bool := false

/-- Where a call of `handle` stands; `p` is its entry. -/
inductive Pc where
  | idle
  | bad
  | claiming (job : Job)
  | waiting (p : ℕ)
  | running (job : Job) (p : ℕ)
  | finishing (job : Job) (p : ℕ) (res : JobResult)
  | locked (job : Job) (p : ℕ) (res : JobResult)
  | stored (job : Job) (p : ℕ) (res : JobResult)
  | deleted (job : Job) (p : ℕ) (res : JobResult)
  | replying (p : ℕ) (res : JobResult)
  | replied (p : ℕ) (res : JobResult)
  | gone
  deriving DecidableEq

inductive Act where
  /-- A message, with a job if it is one. -/
  | message (job : Option Job)
  | claim
  /-- `dispatch` returns. -/
  | returns (outcome : Except Failure String)
  | lock
  | store
  | delete
  | close
  /-- A reply, or the end of a wait. -/
  | reply
  /-- The end of a wait by the context. -/
  | cancel
  | pass (ms : ℕ)
  | shutdown

namespace Shared

def expired (s : Shared) (p : ℕ) : Bool :=
  (s.entries[p]?.bind JobEntry.finished).any fun t => decide (jobRetention < s.now - t)

/-- The entry of an id, and whether it is new. -/
def claim (s : Shared) (q : ℕ) (id : String) : Shared × ℕ × Bool :=
  let jobs := s.jobs.filter fun _ p => !s.expired p
  match jobs.find id with
  | some p => ({ s with jobs := jobs }, p, false)
  | none =>
      let p := s.entries.length
      ({ s with
        entries := s.entries ++ [{ owner := q, id := id, startedAt := s.now }]
        jobs := jobs.put id p }, p, true)

def update (s : Shared) (p : ℕ) (f : JobEntry → JobEntry) : Shared :=
  { s with entries := s.entries.modify p f }

end Shared

def trans (q : ℕ) (s : Shared) (a : Act) (pc : Pc) : Option (Shared × Pc) :=
  match a, pc with
  | .message none, .idle => some (s, .bad)
  | .message (some job), .idle => some (s, .claiming job)
  | .claim, .claiming job =>
      if s.jobsMu = none then
        match s.claim q job.id with
        | (s, p, true) => some (s, .running job p)
        | (s, p, false) => some (s, .waiting p)
      else none
  | .returns outcome, .running job p =>
      let res := jobResult job outcome
      some (s.update p fun e => { e with returned := some res }, .finishing job p res)
  | .lock, .finishing job p res =>
      if s.jobsMu = none then some ({ s with jobsMu := some q }, .locked job p res) else none
  | .store, .locked job p res =>
      some (s.update p fun e => { e with res := res, finished := some s.now }, .stored job p res)
  | .delete, .stored job p res =>
      some (if res.ok then s else { s with jobs := s.jobs.erase job.id }, .deleted job p res)
  | .close, .deleted _ p res =>
      some ({ s.update p fun e => { e with done := true } with jobsMu := none }, .replying p res)
  | .reply, .replying p res => some (s, .replied p res)
  | .reply, .waiting p =>
      match s.entries[p]? with
      | none => none
      | some e => if e.done then some (s, .replied p e.res) else none
  | .cancel, .waiting _ => if s.cancelled then some (s, .gone) else none
  | .pass ms, pc => some ({ s with now := s.now + ms }, pc)
  | .shutdown, pc => some ({ s with cancelled := true }, pc)
  | _, _ => none

abbrev step : World Shared Pc → ℕ × Act → World Shared Pc := callerStep trans

def start : World Shared Pc := ⟨{}, fun _ => .idle⟩

/-- The execution that a call has in hand. -/
def executing : Pc → Option ℕ
  | .running _ p | .finishing _ p _ | .locked _ p _ | .stored _ p _ | .deleted _ p _ => some p
  | _ => none

/-- What a job id is promised, whoever asks for it and when. -/
structure RunsOnce (w : World Shared Pc) : Prop where
  /-- No two calls are in the `dispatch` of one job. -/
  alone : ∀ q r job job' p p', w.pc q = .running job p → w.pc r = .running job' p' →
    job.id = job'.id → q = r
  /-- An execution begins after the one before, and an hour after it if that succeeded. -/
  apart : ∀ (p p' : ℕ) e e', p < p' → w.shared.entries[p]? = some e →
    w.shared.entries[p']? = some e' → e.id = e'.id →
    ∃ t, e.finished = some t ∧ t ≤ e'.startedAt ∧ (e.res.ok → t + jobRetention < e'.startedAt)
  /-- A reply is what the execution returned. -/
  replies : ∀ q p res, w.pc q = .replied p res →
    ∃ e, w.shared.entries[p]? = some e ∧ e.returned = some res
  /-- Who waits gets the result of that execution when it is done, and until then some call has it
  in hand. -/
  waits : ∀ q p, w.pc q = .waiting p → ∃ e, w.shared.entries[p]? = some e ∧
    (e.done = true ∧ e.returned = some e.res ∧ (step w (q, .reply)).pc q = .replied p e.res ∨
      e.done = false ∧ ∃ r, executing (w.pc r) = some p)
  /-- Only the end of the agent leaves a request without a reply. -/
  gone : ∀ q, w.pc q = .gone → w.shared.cancelled = true
  /-- A request after a failed execution runs the job again. -/
  again : ∀ q job (p : ℕ) e, w.pc q = .claiming job → w.shared.jobsMu = none →
    w.shared.entries[p]? = some e → e.id = job.id → e.done = true → e.res.ok = false →
    (∀ p' e', p < p' → w.shared.entries[p']? = some e' → e'.id ≠ job.id) →
    (step w (q, .claim)).pc q = .running job w.shared.entries.length

/-! ## What holds between the steps -/

/-- The entries and the map, whoever is at work. -/
structure Recorded (s : Shared) : Prop where
  map : ∀ id p, s.jobs.find id = some p → ∃ e, s.entries[p]? = some e ∧ e.id = id ∧
    (e.done = true → e.res.ok = true) ∧
    ∀ (p' : ℕ) e', p < p' → s.entries[p']? = some e' → e'.id ≠ id
  /-- An entry is in the map, or its job has failed or was forgotten. -/
  past : ∀ (p : ℕ) e, s.entries[p]? = some e → s.jobs.find e.id = some p ∨
    ∃ t, e.finished = some t ∧ (e.res.ok → t + jobRetention < s.now)
  apart : ∀ (p p' : ℕ) e e', p < p' → s.entries[p]? = some e → s.entries[p']? = some e' →
    e.id = e'.id →
    ∃ t, e.finished = some t ∧ t ≤ e'.startedAt ∧ (e.res.ok → t + jobRetention < e'.startedAt)
  clock : ∀ (p : ℕ) e t, s.entries[p]? = some e → e.finished = some t → t ≤ s.now
  result : ∀ (p : ℕ) e, s.entries[p]? = some e → e.done = true → e.returned = some e.res

/-- The entry of a call that has not closed its channel yet. -/
structure Owns (s : Shared) (q : ℕ) (job : Job) (p : ℕ) (e : JobEntry) : Prop where
  entry : s.entries[p]? = some e
  owner : e.owner = q
  id : e.id = job.id
  unclosed : e.done = false

/-- What a call knows at each place. -/
def Knows (s : Shared) (q : ℕ) : Pc → Prop
  | .waiting p => p < s.entries.length
  | .running job p => ∃ e, Owns s q job p e ∧ e.finished = none
  | .finishing job p res => ∃ e, Owns s q job p e ∧ e.finished = none ∧ e.returned = some res
  | .locked job p res =>
      s.jobsMu = some q ∧ ∃ e, Owns s q job p e ∧ e.finished = none ∧ e.returned = some res
  | .stored job p res =>
      s.jobsMu = some q ∧ s.jobs.find job.id = some p ∧
        ∃ e, Owns s q job p e ∧ e.finished.isSome ∧ e.res = res ∧ e.returned = some res
  | .deleted job p res =>
      s.jobsMu = some q ∧ (res.ok = false → s.jobs.find job.id = none) ∧
        ∃ e, Owns s q job p e ∧ e.finished.isSome ∧ e.res = res ∧ e.returned = some res
  | .replying p res | .replied p res =>
      ∃ e, s.entries[p]? = some e ∧ e.done = true ∧ e.returned = some res
  | .gone => s.cancelled = true
  | _ => True

structure Sound (w : World Shared Pc) : Prop where
  recorded : Recorded w.shared
  knows : ∀ q, Knows w.shared q (w.pc q)
  /-- An execution that is not done is in its owner's hand. -/
  live : ∀ (p : ℕ) e, w.shared.entries[p]? = some e → e.done = false →
    executing (w.pc e.owner) = some p

/-- Nothing that a call relies on has changed. -/
structure Frame (s s' : Shared) (r : ℕ) : Prop where
  own : ∀ (p : ℕ) e, s.entries[p]? = some e → e.owner = r ∨ e.done = true →
    s'.entries[p]? = some e
  length : s.entries.length ≤ s'.entries.length
  mutex : s.jobsMu = some r → s'.jobsMu = some r ∧ s'.jobs = s.jobs
  cancelled : s.cancelled = true → s'.cancelled = true

section
variable {w : World Shared Pc} {s s' : Shared} {pc pc' : Pc} {q r p : ℕ} {job : Job} {e : JobEntry}
  {res : JobResult}

theorem Owns.frame (h : Owns s r job p e) (hf : Frame s s' r) : Owns s' r job p e :=
  ⟨hf.own p e h.entry (.inl h.owner), h.owner, h.id, h.unclosed⟩

theorem Knows.frame (h : Knows s r pc) (hf : Frame s s' r) : Knows s' r pc := by
  cases pc with
  | waiting p => exact lt_of_lt_of_le h hf.length
  | running job p =>
    obtain ⟨e, he, hfinished⟩ := h
    exact ⟨e, he.frame hf, hfinished⟩
  | finishing job p res =>
    obtain ⟨e, he, hrest⟩ := h
    exact ⟨e, he.frame hf, hrest⟩
  | locked job p res =>
    obtain ⟨hmu, e, he, hrest⟩ := h
    exact ⟨(hf.mutex hmu).1, e, he.frame hf, hrest⟩
  | stored job p res =>
    obtain ⟨hmu, hfind, e, he, hrest⟩ := h
    exact ⟨(hf.mutex hmu).1, (hf.mutex hmu).2 ▸ hfind, e, he.frame hf, hrest⟩
  | deleted job p res =>
    obtain ⟨hmu, hfind, e, he, hrest⟩ := h
    exact ⟨(hf.mutex hmu).1, (hf.mutex hmu).2 ▸ hfind, e, he.frame hf, hrest⟩
  | replying p res =>
    obtain ⟨e, he, hdone, hres⟩ := h
    exact ⟨e, hf.own p e he (.inr hdone), hdone, hres⟩
  | replied p res =>
    obtain ⟨e, he, hdone, hres⟩ := h
    exact ⟨e, hf.own p e he (.inr hdone), hdone, hres⟩
  | gone => exact hf.cancelled h
  | idle => trivial
  | bad => trivial
  | claiming job => trivial

theorem find_update {f : JobEntry → JobEntry} (he : s.entries[p]? = some e) (p' : ℕ) :
    (s.update p f).entries[p']? = if p' = p then some (f e) else s.entries[p']? := by
  by_cases hp : p' = p
  · subst hp
    simp [Shared.update, he]
  · simp [Shared.update, hp, List.getElem?_modify_ne _ _ (Ne.symm hp)]

/-- A call works on its own open entry. -/
theorem frame_update {f : JobEntry → JobEntry} (he : Owns s q job p e) (hr : r ≠ q)
    (hs' : s'.entries = (s.update p f).entries)
    (hmutex : s.jobsMu = some r → s'.jobsMu = some r ∧ s'.jobs = s.jobs)
    (hcancelled : s'.cancelled = s.cancelled) : Frame s s' r := by
  refine ⟨fun p' e' he' hown => ?_, ?_, hmutex, fun h => hcancelled ▸ h⟩
  · rw [hs', find_update he.entry]
    split_ifs with hp
    · subst hp
      rw [he.entry] at he'
      cases he'
      rcases hown with hown | hdone
      · exact (hr (hown.symm.trans he.owner)).elim
      · rw [he.unclosed] at hdone
        cases hdone
    · exact he'
  · rw [hs', Shared.update, List.length_modify]

/-- An entry is rewritten, and the map stays. -/
theorem Recorded.update {f : JobEntry → JobEntry} (h : Recorded s) (he : s.entries[p]? = some e)
    (hid : (f e).id = e.id) (hstarted : (f e).startedAt = e.startedAt)
    (hmap : s.jobs.find e.id = some p → (f e).done = true → (f e).res.ok = true)
    (hpast : s.jobs.find e.id = some p ∨
      ∃ t, (f e).finished = some t ∧ ((f e).res.ok → t + jobRetention < s.now))
    (hapart : ∀ t, e.finished = some t → (f e).finished = some t ∧ (f e).res = e.res)
    (hclock : ∀ t, (f e).finished = some t → t ≤ s.now)
    (hresult : (f e).done = true → (f e).returned = some (f e).res) : Recorded (s.update p f) := by
  have hold : ∀ (p' : ℕ) e', (s.update p f).entries[p']? = some e' →
      (p' = p ∧ e' = f e) ∨ p' ≠ p ∧ s.entries[p']? = some e' := by
    intro p' e' he'
    rw [find_update he] at he'
    split_ifs at he' with hp
    · cases he'
      exact .inl ⟨hp, rfl⟩
    · exact .inr ⟨hp, he'⟩
  have hback : ∀ (p' : ℕ) e', (s.update p f).entries[p']? = some e' →
      ∃ e₀, s.entries[p']? = some e₀ ∧ e₀.id = e'.id ∧ e₀.startedAt = e'.startedAt := by
    intro p' e' he'
    rcases hold p' e' he' with ⟨rfl, rfl⟩ | ⟨-, he'⟩
    · exact ⟨e, he, hid.symm, hstarted.symm⟩
    · exact ⟨e', he', rfl, rfl⟩
  refine ⟨fun id p' hfind => ?_, fun p' e' he' => ?_, fun p₁ p₂ e₁ e₂ hlt he₁ he₂ hsame => ?_,
    fun p' e' t he' ht => ?_, fun p' e' he' hdone => ?_⟩
  · obtain ⟨e', he', hid', hok, hlast⟩ := h.map id p' hfind
    have hlast' : ∀ (p'' : ℕ) e'', p' < p'' → (s.update p f).entries[p'']? = some e'' → e''.id ≠ id := by
      intro p'' e'' hlt he''
      obtain ⟨e₀, he₀, hid₀, -⟩ := hback p'' e'' he''
      rw [← hid₀]
      exact hlast p'' e₀ hlt he₀
    by_cases hp : p' = p
    · subst hp
      rw [he] at he'
      cases he'
      exact ⟨f e, by rw [find_update he, if_pos rfl], hid.trans hid', hmap (hid' ▸ hfind), hlast'⟩
    · exact ⟨e', by rw [find_update he, if_neg hp]; exact he', hid', hok, hlast'⟩
  · rcases hold p' e' he' with ⟨rfl, rfl⟩ | ⟨-, he'⟩
    · rw [hid]
      exact hpast
    · exact h.past p' e' he'
  · obtain ⟨e₂', he₂', hid₂, hstarted₂⟩ := hback p₂ e₂ he₂
    rw [← hstarted₂]
    rcases hold p₁ e₁ he₁ with ⟨rfl, rfl⟩ | ⟨-, he₁⟩
    · obtain ⟨t, ht, hle, hok⟩ := h.apart _ _ _ _ hlt he he₂' (by rw [hid₂, ← hsame, hid])
      obtain ⟨hfinished, hres⟩ := hapart t ht
      exact ⟨t, hfinished, hle, hres ▸ hok⟩
    · exact h.apart _ _ _ _ hlt he₁ he₂' (by rw [hid₂, hsame])
  · rcases hold p' e' he' with ⟨rfl, rfl⟩ | ⟨-, he'⟩
    · exact hclock t ht
    · exact h.clock p' e' t he' ht
  · rcases hold p' e' he' with ⟨rfl, rfl⟩ | ⟨-, he'⟩
    · exact hresult hdone
    · exact h.result p' e' he' hdone

theorem Recorded.frame (h : Recorded s) (hentries : s'.entries = s.entries) (hjobs : s'.jobs = s.jobs)
    (hnow : s.now ≤ s'.now) : Recorded s' := by
  refine ⟨?_, fun p e he => ?_, ?_, fun p e t he ht => ?_, ?_⟩
  · rw [hentries, hjobs]
    exact h.map
  · rw [hentries] at he
    rw [hjobs]
    refine (h.past p e he).imp_right ?_
    rintro ⟨t, ht, hok⟩
    exact ⟨t, ht, fun hres => (hok hres).trans_le hnow⟩
  · rw [hentries]
    exact h.apart
  · rw [hentries] at he
    exact (h.clock p e t he ht).trans hnow
  · rw [hentries]
    exact h.result

theorem frame_refl (s : Shared) (r : ℕ) : Frame s s r :=
  ⟨fun _ _ he _ => he, le_rfl, fun hmu => ⟨hmu, rfl⟩, id⟩

/-- The map without what has expired. -/
theorem find_unexpired {id : String} {p : ℕ}
    (h : (s.jobs.filter fun _ p => !s.expired p).find id = some p) : s.jobs.find id = some p :=
  (Table.find_filter.mp h).1

/-- An id that is not found has no entry, or only ones that failed or are forgotten by now. -/
theorem Recorded.missing (h : Recorded s) {id : String}
    (hnone : (s.jobs.filter fun _ p => !s.expired p).find id = none) (he : s.entries[p]? = some e)
    (hid : e.id = id) : ∃ t, e.finished = some t ∧ t ≤ s.now ∧ (e.res.ok → t + jobRetention < s.now) := by
  rcases h.past p e he with hfind | ⟨t, ht, hok⟩
  · have hexpired : s.expired p = true := by
      by_contra hfresh
      have hsome : (s.jobs.filter fun _ p => !s.expired p).find id = some p :=
        Table.find_filter.mpr ⟨hid ▸ hfind, by simpa using hfresh⟩
      rw [hnone] at hsome
      cases hsome
    rw [Shared.expired, he, Option.bind_some, Option.any_eq_true] at hexpired
    obtain ⟨t, ht, hlong⟩ := hexpired
    have hlong := of_decide_eq_true hlong
    exact ⟨t, ht, h.clock p e t he ht, fun _ => by omega⟩
  · exact ⟨t, ht, h.clock p e t he ht, hok⟩

theorem Recorded.unexpired (h : Recorded s) :
    Recorded { s with jobs := s.jobs.filter fun _ p => !s.expired p } := by
  refine ⟨fun id p hfind => h.map id p (find_unexpired hfind), fun p e he => ?_, h.apart, h.clock,
    h.result⟩
  cases hfind : (s.jobs.filter fun _ p => !s.expired p).find e.id with
  | none =>
    obtain ⟨t, ht, -, hok⟩ := h.missing hfind he rfl
    exact .inr ⟨t, ht, hok⟩
  | some p' =>
    rcases h.past p e he with hold | hpast
    · have := find_unexpired hfind
      rw [hold] at this
      cases this
      exact .inl rfl
    · exact .inr hpast

/-- The record of an execution more, of an id that is not in the map. -/
theorem Recorded.append (h : Recorded s) {id : String} (q : ℕ)
    (hnone : (s.jobs.filter fun _ p => !s.expired p).find id = none) :
    Recorded { s with
      entries := s.entries ++ [{ owner := q, id := id, startedAt := s.now }]
      jobs := (s.jobs.filter fun _ p => !s.expired p).put id s.entries.length } := by
  have hnow := h.unexpired
  have hold : ∀ (p' : ℕ) e',
      (s.entries ++ [({ owner := q, id := id, startedAt := s.now } : JobEntry)])[p']? = some e' →
      p' = s.entries.length ∧ e' = { owner := q, id := id, startedAt := s.now } ∨
        p' < s.entries.length ∧ s.entries[p']? = some e' := by
    intro p' e' he'
    rcases lt_trichotomy p' s.entries.length with hlt | rfl | hgt
    · rw [List.getElem?_append_left hlt] at he'
      exact .inr ⟨hlt, he'⟩
    · rw [List.getElem?_concat_length] at he'
      cases he'
      exact .inl ⟨rfl, rfl⟩
    · rw [List.getElem?_eq_none (by simpa using Nat.succ_le_of_lt hgt)] at he'
      cases he'
  have hkeep : ∀ (p' : ℕ) e', s.entries[p']? = some e' →
      (s.entries ++ [({ owner := q, id := id, startedAt := s.now } : JobEntry)])[p']? = some e' := by
    intro p' e' he'
    rw [List.getElem?_append_left (List.getElem?_eq_some_iff.mp he').1]
    exact he'
  have hlength : ∀ (p' : ℕ) e', s.entries[p']? = some e' → p' < s.entries.length :=
    fun p' e' he' => (List.getElem?_eq_some_iff.mp he').1
  refine ⟨fun id' p' hfind => ?_, fun p' e' he' => ?_, fun p₁ p₂ e₁ e₂ hlt he₁ he₂ hsame => ?_,
    fun p' e' t he' ht => ?_, fun p' e' he' hdone => ?_⟩
  · by_cases hid : id' = id
    · subst hid
      rw [Table.find_put_self] at hfind
      cases hfind
      refine ⟨_, List.getElem?_concat_length, rfl, fun hdone => ?_, fun p'' e'' hlt he'' => ?_⟩
      · cases hdone
      · rcases hold p'' e'' he'' with ⟨rfl, -⟩ | ⟨hlt', -⟩
        · exact (lt_irrefl _ hlt).elim
        · exact (lt_asymm hlt hlt').elim
    · rw [Table.find_put_of_ne _ hid] at hfind
      obtain ⟨e', he', hid', hok, hlast⟩ := hnow.map id' p' hfind
      refine ⟨e', hkeep p' e' he', hid', hok, fun p'' e'' hlt he'' => ?_⟩
      rcases hold p'' e'' he'' with ⟨-, rfl⟩ | ⟨-, he''⟩
      · exact Ne.symm hid
      · exact hlast p'' e'' hlt he''
  · rcases hold p' e' he' with ⟨rfl, rfl⟩ | ⟨-, he'⟩
    · exact .inl (Table.find_put_self _ _ _)
    · by_cases hid : e'.id = id
      · obtain ⟨t, ht, -, hok⟩ := h.missing hnone he' hid
        exact .inr ⟨t, ht, hok⟩
      · refine (hnow.past p' e' he').imp_left fun hfind => ?_
        exact (Table.find_put_of_ne _ hid _).trans hfind
  · rcases hold p₂ e₂ he₂ with ⟨rfl, rfl⟩ | ⟨hlt₂, he₂⟩
    · rcases hold p₁ e₁ he₁ with ⟨rfl, -⟩ | ⟨-, he₁⟩
      · exact (lt_irrefl _ hlt).elim
      · exact h.missing hnone he₁ hsame
    · rcases hold p₁ e₁ he₁ with ⟨rfl, -⟩ | ⟨-, he₁⟩
      · exact (lt_asymm hlt hlt₂).elim
      · exact h.apart p₁ p₂ e₁ e₂ hlt he₁ he₂ hsame
  · rcases hold p' e' he' with ⟨-, rfl⟩ | ⟨-, he'⟩
    · cases ht
    · exact h.clock p' e' t he' ht
  · rcases hold p' e' he' with ⟨-, rfl⟩ | ⟨-, he'⟩
    · cases hdone
    · exact h.result p' e' he' hdone

/-! ## Steps -/

/-- A call moves, and the record and what everyone knows are kept. -/
theorem Sound.move (h : Sound w) (hrecorded : Recorded s') (hknows : Knows s' q pc')
    (hframe : ∀ r, r ≠ q → Frame w.shared s' r)
    (hlive : ∀ (p : ℕ) e, s'.entries[p]? = some e → e.done = false →
      e.owner = q ∧ executing pc' = some p ∨
        e.owner ≠ q ∧ ∃ e₀, w.shared.entries[p]? = some e₀ ∧ e₀.owner = e.owner ∧ e₀.done = false) :
    Sound ⟨s', Function.update w.pc q pc'⟩ := by
  refine ⟨hrecorded, ?_, fun p e he hdone => ?_⟩
  · exact update_cases (P := fun r pc => Knows s' r pc) hknows fun r hr =>
      (h.knows r).frame (hframe r hr)
  · dsimp only
    rcases hlive p e he hdone with ⟨rfl, hexec⟩ | ⟨hne, e₀, he₀, howner, hdone₀⟩
    · rwa [Function.update_self]
    · rw [Function.update_of_ne hne, ← howner]
      exact h.live p e₀ he₀ hdone₀

/-- The entries stay as they are, and the call keeps its own. -/
theorem Sound.stay (h : Sound w) (hrecorded : Recorded s') (hknows : Knows s' q pc')
    (hentries : s'.entries = w.shared.entries) (hframe : ∀ r, r ≠ q → Frame w.shared s' r)
    (hexec : executing pc' = executing (w.pc q)) : Sound ⟨s', Function.update w.pc q pc'⟩ := by
  refine h.move hrecorded hknows hframe fun p e he hdone => ?_
  rw [hentries] at he
  by_cases hq : e.owner = q
  · refine .inl ⟨hq, ?_⟩
    rw [hexec, ← hq]
    exact h.live p e he hdone
  · exact .inr ⟨hq, e, he, rfl, hdone⟩

/-- The call rewrites its own entry. -/
theorem Sound.amend (h : Sound w) {f : JobEntry → JobEntry} (he : Owns w.shared q job p e)
    (hexec : executing (w.pc q) = some p)
    (hentries : s'.entries = (w.shared.update p f).entries) (hrecorded : Recorded s')
    (hknows : Knows s' q pc') (howner : (f e).owner = e.owner)
    (hmutex : ∀ r, r ≠ q → w.shared.jobsMu = some r → s'.jobsMu = some r ∧ s'.jobs = w.shared.jobs)
    (hcancelled : s'.cancelled = w.shared.cancelled)
    (hpc : (f e).done = false → executing pc' = some p) :
    Sound ⟨s', Function.update w.pc q pc'⟩ := by
  refine h.move hrecorded hknows (fun r hr => ?_) fun p' e' he' hdone => ?_
  · exact frame_update he hr hentries (hmutex r hr) hcancelled
  · rw [hentries, find_update he.entry] at he'
    split_ifs at he' with hp
    · cases he'
      exact .inl ⟨howner.trans he.owner, by rw [hp]; exact hpc hdone⟩
    · refine .inr ⟨fun hq => hp ?_, e', he', rfl, hdone⟩
      have hlive := h.live p' e' he' hdone
      rw [hq, hexec] at hlive
      exact (Option.some.inj hlive).symm

theorem sound_claim (h : Sound w) (hpc : w.pc q = .claiming job) (hfree : w.shared.jobsMu = none) :
    Sound (step w (q, .claim)) := by
  have hexec : executing (w.pc q) = none := by
    rw [hpc]
    rfl
  have hmutex : ∀ {r : ℕ} {P : Prop}, w.shared.jobsMu = some r → P := by
    intro r P hmu
    rw [hfree] at hmu
    cases hmu
  cases hfind : (w.shared.jobs.filter fun _ p => !w.shared.expired p).find job.id with
  | some p =>
    have htrans : trans q w.shared .claim (w.pc q) = some
        ({ w.shared with jobs := w.shared.jobs.filter fun _ p => !w.shared.expired p },
          .waiting p) := by
      rw [hpc]
      simp only [trans, Shared.claim, hfind, if_pos hfree]
    rw [step, callerStep, htrans]
    obtain ⟨e, he, -⟩ := h.recorded.map _ _ (find_unexpired hfind)
    refine h.stay h.recorded.unexpired ?_ rfl (fun r _ => ?_) hexec.symm
    · exact (List.getElem?_eq_some_iff.mp he).1
    · exact ⟨fun _ _ he _ => he, le_rfl, fun hmu => hmutex hmu, id⟩
  | none =>
    have htrans : trans q w.shared .claim (w.pc q) = some
        ({ w.shared with
          entries := w.shared.entries ++ [{ owner := q, id := job.id, startedAt := w.shared.now }]
          jobs := (w.shared.jobs.filter fun _ p => !w.shared.expired p).put job.id
            w.shared.entries.length }, .running job w.shared.entries.length) := by
      rw [hpc]
      simp only [trans, Shared.claim, hfind, if_pos hfree]
    rw [step, callerStep, htrans]
    have hold : ∀ (p' : ℕ) e', w.shared.entries[p']? = some e' → (w.shared.entries ++
        [({ owner := q, id := job.id, startedAt := w.shared.now } : JobEntry)])[p']? = some e' := by
      intro p' e' he'
      rw [List.getElem?_append_left (List.getElem?_eq_some_iff.mp he').1]
      exact he'
    refine h.move (h.recorded.append q hfind) ?_ (fun r _ => ?_) fun p' e' he' hdone => ?_
    · exact ⟨_, ⟨List.getElem?_concat_length, rfl, rfl, rfl⟩, rfl⟩
    · exact ⟨fun p' e' he' _ => hold p' e' he', by simp, fun hmu => hmutex hmu, id⟩
    · by_cases hp : p' < w.shared.entries.length
      · rw [List.getElem?_append_left hp] at he'
        refine .inr ⟨fun hq => ?_, e', he', rfl, hdone⟩
        have hlive := h.live p' e' he' hdone
        rw [hq, hexec] at hlive
        cases hlive
      · have hlast : p' = w.shared.entries.length := by
          have := (List.getElem?_eq_some_iff.mp he').1
          rw [List.length_append, List.length_singleton] at this
          omega
        subst hlast
        rw [List.getElem?_concat_length] at he'
        cases he'
        exact .inl ⟨rfl, rfl⟩

theorem Owns.update {f : JobEntry → JobEntry} (he : Owns s q job p e) (howner : (f e).owner = e.owner)
    (hid : (f e).id = e.id) (hdone : (f e).done = e.done) : Owns (s.update p f) q job p (f e) :=
  ⟨(find_update he.entry p).trans (if_pos rfl), howner.trans he.owner, hid.trans he.id,
    hdone.trans he.unclosed⟩

theorem not_mutex (hmu : s.jobsMu = some q) (hr : r ≠ q) : s.jobsMu ≠ some r := by
  rw [hmu]
  exact fun heq => hr (Option.some.inj heq).symm

theorem knows_of_pc (h : Sound w) (hpc : w.pc q = pc) : Knows w.shared q pc := hpc ▸ h.knows q

theorem sound_returns (h : Sound w) (outcome : Except Failure String)
    (hpc : w.pc q = .running job p) :
    Sound ⟨w.shared.update p fun e => { e with returned := some (jobResult job outcome) },
      Function.update w.pc q (.finishing job p (jobResult job outcome))⟩ := by
  obtain ⟨e, he, hfinished⟩ := knows_of_pc h hpc
  have hopen : ∀ {P : Prop}, e.done = true → P := by
    intro P hdone
    rw [he.unclosed] at hdone
    cases hdone
  have hrecorded := h.recorded.update (s := w.shared)
    (f := fun e => { e with returned := some (jobResult job outcome) }) he.entry rfl rfl
    (fun _ hdone => hopen hdone) (h.recorded.past p e he.entry) (fun t ht => ⟨ht, rfl⟩)
    (fun t ht => h.recorded.clock p e t he.entry ht) (fun hdone => hopen hdone)
  refine h.amend he (by rw [hpc]; rfl) rfl hrecorded ?_ rfl (fun r _ hmu => ⟨hmu, rfl⟩) rfl fun _ => rfl
  exact ⟨_, he.update rfl rfl rfl, hfinished, rfl⟩

theorem sound_store (h : Sound w) (hpc : w.pc q = .locked job p res) :
    Sound ⟨w.shared.update p fun e => { e with res := res, finished := some w.shared.now },
      Function.update w.pc q (.stored job p res)⟩ := by
  obtain ⟨hmu, e, he, hfinished, hreturned⟩ := knows_of_pc h hpc
  have hopen : ∀ {P : Prop}, e.done = true → P := by
    intro P hdone
    rw [he.unclosed] at hdone
    cases hdone
  have hfind : w.shared.jobs.find e.id = some p := by
    refine (h.recorded.past p e he.entry).resolve_right ?_
    rintro ⟨t, ht, -⟩
    rw [hfinished] at ht
    cases ht
  have hnever : ∀ t, e.finished = some t → some w.shared.now = some t ∧ res = e.res := by
    intro t ht
    rw [hfinished] at ht
    cases ht
  have hrecorded := h.recorded.update (s := w.shared)
    (f := fun e => { e with res := res, finished := some w.shared.now }) he.entry rfl rfl
    (fun _ hdone => hopen hdone) (.inl hfind) hnever (fun t ht => (Option.some.inj ht).ge)
    (fun hdone => hopen hdone)
  refine h.amend he (by rw [hpc]; rfl) rfl hrecorded ?_ rfl
    (fun r hr hmu' => (not_mutex hmu hr hmu').elim) rfl fun _ => rfl
  exact ⟨hmu, he.id ▸ hfind, _, he.update rfl rfl rfl, rfl, rfl, hreturned⟩

theorem Recorded.erase (h : Recorded s) (he : s.entries[p]? = some e)
    (hfinished : e.finished.isSome) (hfailed : e.res.ok = false)
    (hfind : s.jobs.find e.id = some p) : Recorded { s with jobs := s.jobs.erase e.id } := by
  refine ⟨fun id p' hfind' => ?_, fun p' e' he' => ?_, h.apart, h.clock, h.result⟩
  · simp only [Table.find_erase] at hfind'
    split_ifs at hfind'
    exact h.map id p' hfind'
  · simp only [Table.find_erase]
    split_ifs with hid
    · refine .inr ?_
      rcases h.past p' e' he' with hother | hpast
      · rw [hid, hfind] at hother
        cases hother
        rw [he] at he'
        cases he'
        obtain ⟨t, ht⟩ := Option.isSome_iff_exists.mp hfinished
        exact ⟨t, ht, fun hok => by rw [hfailed] at hok; cases hok⟩
      · exact hpast
    · exact h.past p' e' he'

theorem sound_delete (h : Sound w) (hpc : w.pc q = .stored job p res) :
    Sound ⟨if res.ok then w.shared else { w.shared with jobs := w.shared.jobs.erase job.id },
      Function.update w.pc q (.deleted job p res)⟩ := by
  obtain ⟨hmu, hfind, e, he, hfinished, rfl, hreturned⟩ := knows_of_pc h hpc
  have hexec : executing (.deleted job p e.res) = executing (w.pc q) := by rw [hpc]; rfl
  split_ifs with hok
  · refine h.stay h.recorded ⟨hmu, ?_, e, he, hfinished, rfl, hreturned⟩ rfl
      (fun r _ => frame_refl _ r) hexec
    intro hfailed
    rw [hok] at hfailed
    cases hfailed
  · have hfailed : e.res.ok = false := by simpa using hok
    have herase := h.recorded.erase he.entry hfinished hfailed (he.id ▸ hfind)
    rw [he.id] at herase
    refine h.stay herase ⟨hmu, fun _ => ?_, e, ⟨he.entry, he.owner, he.id, he.unclosed⟩, hfinished,
      rfl, hreturned⟩ rfl (fun r hr => ?_) hexec
    · simp only [Table.find_erase, if_pos]
    · exact ⟨fun _ _ he _ => he, le_rfl, fun hmu' => (not_mutex hmu hr hmu').elim, id⟩

theorem sound_close (h : Sound w) (hpc : w.pc q = .deleted job p res) :
    Sound ⟨{ w.shared.update p fun e => { e with done := true } with jobsMu := none },
      Function.update w.pc q (.replying p res)⟩ := by
  obtain ⟨hmu, hgone, e, he, hfinished, rfl, hreturned⟩ := knows_of_pc h hpc
  have hok : w.shared.jobs.find e.id = some p → e.res.ok = true := by
    intro hfind
    by_contra hfailed
    have hnone := hgone (by simpa using hfailed)
    rw [← he.id, hfind] at hnone
    cases hnone
  have hrecorded := h.recorded.update (s := w.shared) (f := fun e => { e with done := true })
    he.entry rfl rfl (fun hfind _ => hok hfind) (h.recorded.past p e he.entry)
    (fun t ht => ⟨ht, rfl⟩) (fun t ht => h.recorded.clock p e t he.entry ht) (fun _ => hreturned)
  refine h.amend he (by rw [hpc]; rfl) rfl (hrecorded.frame rfl rfl le_rfl) ?_ rfl
    (fun r hr hmu' => (not_mutex hmu hr hmu').elim) rfl nofun
  exact ⟨{ e with done := true }, (find_update he.entry p).trans (if_pos rfl), rfl, hreturned⟩

theorem sound_trans {a : Act} (h : Sound w) (htrans : trans q w.shared a (w.pc q) = some (s', pc')) :
    Sound ⟨s', Function.update w.pc q pc'⟩ := by
  -- Nothing changes but where the call stands.
  have hquiet : ∀ pc'', Knows w.shared q pc'' → executing pc'' = executing (w.pc q) →
      Sound ⟨w.shared, Function.update w.pc q pc''⟩ := fun pc'' hknows hexec =>
    h.stay h.recorded hknows rfl (fun r _ => frame_refl _ r) hexec
  cases a with
  | message job =>
    generalize hpc : w.pc q = pc at htrans
    cases pc with
    | idle =>
      cases job with
      | none =>
        cases htrans
        exact hquiet .bad trivial (by rw [hpc]; rfl)
      | some job =>
        cases htrans
        exact hquiet (.claiming job) trivial (by rw [hpc]; rfl)
    | _ => cases job <;> cases htrans
  | claim =>
    have hstep : step w (q, .claim) = ⟨s', Function.update w.pc q pc'⟩ := by
      rw [step, callerStep, htrans]
    rw [← hstep]
    generalize hpc : w.pc q = pc at htrans
    cases pc with
    | claiming job =>
      simp only [trans] at htrans
      split_ifs at htrans with hfree
      exact sound_claim h hpc hfree
    | _ => cases htrans
  | returns outcome =>
    generalize hpc : w.pc q = pc at htrans
    cases pc with
    | running job p =>
      cases htrans
      exact sound_returns h outcome hpc
    | _ => cases htrans
  | lock =>
    generalize hpc : w.pc q = pc at htrans
    cases pc with
    | finishing job p res =>
      simp only [trans] at htrans
      split_ifs at htrans with hfree
      cases htrans
      obtain ⟨e, he, hrest⟩ := knows_of_pc h hpc
      refine h.stay (h.recorded.frame rfl rfl le_rfl) ⟨rfl, e, ⟨he.entry, he.owner, he.id, he.unclosed⟩,
        hrest⟩ rfl (fun r _ => ⟨fun _ _ he _ => he, le_rfl, fun hmu => ?_, id⟩) (by rw [hpc]; rfl)
      rw [hfree] at hmu
      cases hmu
    | _ => cases htrans
  | store =>
    generalize hpc : w.pc q = pc at htrans
    cases pc with
    | locked job p res =>
      cases htrans
      exact sound_store h hpc
    | _ => cases htrans
  | delete =>
    generalize hpc : w.pc q = pc at htrans
    cases pc with
    | stored job p res =>
      cases htrans
      exact sound_delete h hpc
    | _ => cases htrans
  | close =>
    generalize hpc : w.pc q = pc at htrans
    cases pc with
    | deleted job p res =>
      cases htrans
      exact sound_close h hpc
    | _ => cases htrans
  | reply =>
    generalize hpc : w.pc q = pc at htrans
    cases pc with
    | replying p res =>
      cases htrans
      have hknows : Knows w.shared q (.replying p res) := knows_of_pc h hpc
      exact hquiet (.replied p res) hknows (by rw [hpc]; rfl)
    | waiting p =>
      simp only [trans] at htrans
      split at htrans
      · cases htrans
      · next e he =>
        split_ifs at htrans with hdone
        cases htrans
        exact hquiet (.replied p e.res) ⟨e, he, hdone, h.recorded.result p e he hdone⟩ (by rw [hpc]; rfl)
    | _ => cases htrans
  | cancel =>
    generalize hpc : w.pc q = pc at htrans
    cases pc with
    | waiting p =>
      simp only [trans] at htrans
      split_ifs at htrans with hcancelled
      cases htrans
      exact hquiet .gone hcancelled (by rw [hpc]; rfl)
    | _ => cases htrans
  | pass ms =>
    cases htrans
    have hframe : ∀ r, Frame w.shared { w.shared with now := w.shared.now + ms } r := fun r =>
      ⟨fun _ _ he _ => he, le_rfl, fun hmu => ⟨hmu, rfl⟩, id⟩
    exact h.stay (h.recorded.frame rfl rfl (Nat.le_add_right _ _)) ((h.knows q).frame (hframe q)) rfl
      (fun r _ => hframe r) rfl
  | shutdown =>
    cases htrans
    have hframe : ∀ r, Frame w.shared { w.shared with cancelled := true } r := fun r =>
      ⟨fun _ _ he _ => he, le_rfl, fun hmu => ⟨hmu, rfl⟩, fun _ => rfl⟩
    exact h.stay (h.recorded.frame rfl rfl le_rfl) ((h.knows q).frame (hframe q)) rfl
      (fun r _ => hframe r) rfl

theorem Recorded.running (h : Recorded s) (hknows : Knows s q (.running job p)) :
    s.jobs.find job.id = some p := by
  obtain ⟨e, he, hfinished⟩ := hknows
  rw [← he.id]
  refine (h.past p e he.entry).resolve_right ?_
  rintro ⟨t, ht, -⟩
  rw [hfinished] at ht
  cases ht

theorem Sound.waits (h : Sound w) (hpc : w.pc q = .waiting p) :
    ∃ e, w.shared.entries[p]? = some e ∧
      (e.done = true ∧ e.returned = some e.res ∧ (step w (q, .reply)).pc q = .replied p e.res ∨
        e.done = false ∧ ∃ r, executing (w.pc r) = some p) := by
  have hlt : p < w.shared.entries.length := knows_of_pc h hpc
  have he := List.getElem?_eq_getElem hlt
  refine ⟨_, he, ?_⟩
  cases hdone : w.shared.entries[p].done with
  | false => exact .inr ⟨rfl, _, h.live p _ he hdone⟩
  | true =>
    refine .inl ⟨rfl, h.recorded.result p _ he hdone, ?_⟩
    have htrans : trans q w.shared .reply (w.pc q) =
        some (w.shared, .replied p w.shared.entries[p].res) := by
      rw [hpc]
      simp only [trans, he, if_pos hdone]
    rw [step, callerStep, htrans]
    exact Function.update_self _ _ _

theorem Sound.again (h : Sound w) (hpc : w.pc q = .claiming job) (hfree : w.shared.jobsMu = none)
    (he : w.shared.entries[p]? = some e) (hid : e.id = job.id) (hdone : e.done = true)
    (hfailed : e.res.ok = false)
    (hlast : ∀ (p' : ℕ) e', p < p' → w.shared.entries[p']? = some e' → e'.id ≠ job.id) :
    (step w (q, .claim)).pc q = .running job w.shared.entries.length := by
  have hnone : (w.shared.jobs.filter fun _ p => !w.shared.expired p).find job.id = none := by
    by_contra hsome
    obtain ⟨p', hfind⟩ := Option.ne_none_iff_exists'.mp hsome
    obtain ⟨e', he', hid', hok, hlast'⟩ := h.recorded.map _ _ (find_unexpired hfind)
    rcases lt_trichotomy p p' with hlt | rfl | hgt
    · exact hlast p' e' hlt he' hid'
    · rw [he] at he'
      cases he'
      rw [hok hdone] at hfailed
      cases hfailed
    · exact hlast' p e hgt he hid
  have htrans : ∃ s', trans q w.shared .claim (w.pc q) =
      some (s', .running job w.shared.entries.length) := by
    rw [hpc]
    simp only [trans, Shared.claim, hnone, if_pos hfree]
    exact ⟨_, rfl⟩
  obtain ⟨s', htrans⟩ := htrans
  rw [step, callerStep, htrans]
  exact Function.update_self _ _ _

theorem Sound.runsOnce (h : Sound w) : RunsOnce w where
  alone q r job job' p p' hq hr hid := by
    have hfind := h.recorded.running (knows_of_pc h hq)
    rw [hid, h.recorded.running (knows_of_pc h hr)] at hfind
    cases hfind
    obtain ⟨e, he, -⟩ := knows_of_pc h hq
    obtain ⟨e', he', -⟩ := knows_of_pc h hr
    have hsame := he.entry
    rw [he'.entry] at hsame
    cases hsame
    exact he.owner.symm.trans he'.owner
  apart := h.recorded.apart
  replies q p res hpc := by
    obtain ⟨e, he, -, hreturned⟩ := knows_of_pc h hpc
    exact ⟨e, he, hreturned⟩
  waits _ _ hpc := h.waits hpc
  gone _ hpc := knows_of_pc h hpc
  again _ _ _ _ hpc hfree he hid hdone hfailed hlast := h.again hpc hfree he hid hdone hfailed hlast

theorem sound_start : Sound start :=
  ⟨⟨fun _ _ => nofun, fun _ _ => nofun, fun _ _ _ _ _ => nofun, fun _ _ _ => nofun, fun _ _ => nofun⟩,
    fun _ => trivial, fun _ _ => nofun⟩

/-- In every interleaving of requests, a job id runs once: no two executions at a time, none for an
hour after one that succeeded, and one more after one that failed; who waits gets the result. -/
theorem job_runs_once (as : List (ℕ × Act)) : RunsOnce (run step start as) := by
  have hsound : Sound (run step start as) := by
    refine run_invariant (fun w a h => ?_) sound_start as
    rcases callerStep_cases trans w a with heq | ⟨s, c, htrans, heq⟩
    · rw [step, heq]
      exact h
    · rw [step, heq]
      exact sound_trans h htrans
  exact hsound.runsOnce

end

/-- A retry waits for the first request, and gets its result. -/
example :
    let job : Job := ⟨"vm.create:s1", "vm.create", "{}", ""⟩
    (run step start [(0, .message (some job)), (0, .claim), (1, .message (some job)), (1, .claim),
      (0, .returns (.ok "vm")), (0, .lock), (0, .store), (0, .delete), (0, .close), (1, .reply)]).pc 1 =
        .replied 0 { jobId := "vm.create:s1", ok := true, result := some "vm" } := by
  decide

end Prgd.HostAgent
