import Prgd.Interleaving
import Prgd.Record
import Mathlib.Data.List.Dedup
import Mathlib.Data.List.Perm.Basic

/-!
# Metering finished runs

`meterHour` counts the runs whose `finishedAt` lies in an hour that has ended and
writes one row of executions for each agent. `finishedAt` is written by `cancel`
and by `finish`, and `finish` takes its time before other work: a cancelled run
that is still executing gets a second time when its execution notices, and a
slow `finish` can write a time whose hour has been metered.

An agent belongs to one project for good, so the groups are the agents. A row
keeps which runs it counts; its quantity is their number. Tool calls and tokens
of the same hours are written like executions and are left out.
-/
namespace Prgd.Metering
open Interleaving

inductive RunStatus where
  | queued | running | waitingApproval | succeeded | failed | cancelled
  deriving DecidableEq

def RunStatus.terminal : RunStatus → Bool
  | .succeeded | .failed | .cancelled => true
  | .queued | .running | .waitingApproval => false

/-- What `finish` is called with. -/
inductive Ending where
  | succeeded | failed | cancelled
  deriving DecidableEq

def Ending.status : Ending → RunStatus
  | .succeeded => .succeeded
  | .failed => .failed
  | .cancelled => .cancelled

/-- How an execution of the run goes on: not at all, on its way, or in `finish`
with its ending and the time it took. -/
inductive Execution where
  | idle
  | executing
  | finishing (ending : Ending) (finishedAt : ℕ)
  deriving DecidableEq

structure ConnectRun where
  agentId : String
  status : RunStatus := .queued
  finishedAt : Option ℕ := none
  execution : Execution := .idle
  deriving DecidableEq

/-- A row of executions, with the runs that it counts. -/
structure UsageRecord where
  counted : List ℕ
  invoiced : Bool := false
  deriving DecidableEq

def UsageRecord.quantity (r : UsageRecord) : ℕ := r.counted.length

/-- Times are seconds. -/
def hourOf (t : ℕ) : ℕ := t / 3600

structure World where
  now : ℕ := 0
  runs : List ConnectRun := []
  /-- By agent and hour. -/
  rows : List ((String × ℕ) × UsageRecord) := []
  /-- The hours before this one are metered. -/
  metered : ℕ := 0
  /-- The hour of the running job and the groups that are still to be written. -/
  job : Option (ℕ × List (String × List ℕ)) := none
  deriving DecidableEq

def ConnectRun.hour (r : ConnectRun) : Option ℕ := r.finishedAt.map hourOf

/-- The runs of an agent that finished in an hour. -/
def finishedIn (runs : List ConnectRun) (agentId : String) (hour : ℕ) : List ℕ :=
  (List.range runs.length).filter fun i =>
    (runs[i]?).any fun r => r.agentId = agentId ∧ r.hour = some hour

/-- `groupBy` over the runs that finished in the hour. -/
def groups (runs : List ConnectRun) (hour : ℕ) : List (String × List ℕ) :=
  ((runs.map ConnectRun.agentId).dedup.map fun a => (a, finishedIn runs a hour)).filter
    fun g => g.2 ≠ []

inductive Act where
  /-- Time passes. -/
  | wait (seconds : ℕ)
  | create (agentId : String)
  | execute (i : ℕ)
  | park (i : ℕ)
  | approve (i : ℕ)
  /-- A denied, expired or failed approval. -/
  | failWaiting (i : ℕ)
  | cancel (i : ℕ)
  /-- `finish` takes its time. -/
  | finish (i : ℕ) (ending : Ending)
  /-- `finish` writes the row. -/
  | write (i : ℕ)
  | meterHour (hour : ℕ)
  | upsert
  | endJob
  | invoice (agentId : String) (hour : ℕ)

def World.setRun (w : World) (i : ℕ) (r : ConnectRun) : World := { w with runs := w.runs.set i r }

/-- The statuses that the update of `finish` looks for. -/
def finishes (ending : Ending) (status : RunStatus) : Bool :=
  if ending = .cancelled then status = .running ∨ status = .cancelled else status = .running

def cancellable : RunStatus → Bool
  | .queued | .running | .waitingApproval => true
  | _ => false

/-- One line of `meterHour`: a row on an invoice is never touched. -/
def upsertRow (rows : List ((String × ℕ) × UsageRecord)) (key : String × ℕ) (counted : List ℕ) :
    List ((String × ℕ) × UsageRecord) :=
  match rows.lookup key with
  | some row => if row.invoiced then rows else Record.set rows key { row with counted := counted }
  | none => Record.set rows key ⟨counted, false⟩

/-- A step that changes one run. -/
def stepRun (now : ℕ) (r : ConnectRun) : Act → Option ConnectRun
  | .execute _ => if r.status = .queued then
      some { r with status := .running, execution := .executing } else none
  | .park _ => if r.execution = .executing then
      some { r with
        status := if r.status = .running then .waitingApproval else r.status
        execution := .idle } else none
  | .approve _ => if r.status = .waitingApproval then some { r with status := .queued } else none
  | .failWaiting _ => if r.status = .waitingApproval then
      some { r with status := .failed, finishedAt := some now } else none
  | .cancel _ => if cancellable r.status then
      some { r with status := .cancelled, finishedAt := some now } else none
  | .finish _ ending => if r.execution = .executing then
      some { r with execution := .finishing ending now } else none
  | .write _ =>
      match r.execution with
      | .finishing ending at' =>
          if finishes ending r.status then
            some { r with status := ending.status, finishedAt := some at', execution := .idle }
          else some { r with execution := .idle }
      | _ => none
  | _ => none

def Act.run : Act → Option ℕ
  | .execute i | .park i | .approve i | .failWaiting i | .cancel i | .finish i _ | .write i => some i
  | _ => none

def step (w : World) (a : Act) : World :=
  match a with
  | .wait seconds => { w with now := w.now + seconds }
  | .create agentId => { w with runs := w.runs ++ [{ agentId := agentId }] }
  | .meterHour hour =>
      -- the hours are metered in order, each after it has ended
      if w.job = none ∧ hour ≤ w.metered ∧ hour < hourOf w.now then
        { w with job := some (hour, groups w.runs hour) }
      else w
  | .upsert =>
      match w.job with
      | some (hour, g :: todo) =>
          { w with rows := upsertRow w.rows (g.1, hour) g.2, job := some (hour, todo) }
      | _ => w
  | .endJob =>
      match w.job with
      | some (hour, []) => { w with metered := max w.metered (hour + 1), job := none }
      | _ => w
  | .invoice agentId hour =>
      match w.rows.lookup (agentId, hour) with
      | some row => { w with rows := Record.set w.rows (agentId, hour) { row with invoiced := true } }
      | none => w
  | a =>
      match a.run with
      | some i =>
          match (w.runs[i]?).bind fun r => stepRun w.now r a with
          | some r => w.setRun i r
          | none => w
      | none => w

/-- The hours that the job has read. -/
def World.read (w : World) : ℕ :=
  match w.job with
  | some (hour, _) => max w.metered (hour + 1)
  | none => w.metered

/-- When `finish` writes a time, the job has read neither its hour nor the hour of
a time that the row already has, unless they are the same hour. -/
def Timely (w : World) : Act → Prop
  | .write i =>
      match w.runs[i]? with
      | some r =>
          match r.execution with
          | .finishing ending at' => finishes ending r.status →
              r.hour = some (hourOf at') ∨
              w.read ≤ hourOf at' ∧ ∀ h ∈ r.hour, w.read ≤ h
          | _ => True
      | none => True
  | _ => True

/-! ## Counting -/

theorem mem_finishedIn {runs : List ConnectRun} {agentId : String} {hour i : ℕ} :
    i ∈ finishedIn runs agentId hour ↔
      ∃ r, runs[i]? = some r ∧ r.agentId = agentId ∧ r.hour = some hour := by
  simp only [finishedIn, List.mem_filter, List.mem_range, Option.any_eq_true, decide_eq_true_eq]
  constructor
  · rintro ⟨-, r, hr, h⟩
    exact ⟨r, hr, h⟩
  · rintro ⟨r, hr, h⟩
    exact ⟨(List.getElem?_eq_some_iff.mp hr).1, r, hr, h⟩

/-- The groups are the agents with a run in the hour. -/
theorem mem_groups {runs : List ConnectRun} {hour : ℕ} {g : String × List ℕ} :
    g ∈ groups runs hour ↔ g.2 = finishedIn runs g.1 hour ∧ g.2 ≠ [] := by
  simp only [groups, List.mem_filter, List.mem_map, List.mem_dedup, decide_eq_true_eq]
  constructor
  · rintro ⟨⟨a, -, rfl⟩, hne⟩
    exact ⟨rfl, hne⟩
  · rintro ⟨heq, hne⟩
    refine ⟨⟨g.1, ?_, Prod.ext rfl heq.symm⟩, hne⟩
    obtain ⟨i, hi⟩ := List.exists_mem_of_ne_nil _ hne
    rw [heq, mem_finishedIn] at hi
    obtain ⟨r, hr, hagent, -⟩ := hi
    exact ⟨r, List.mem_of_getElem? hr, hagent⟩

/-- What the rows say about the runs. -/
structure Kept (w : World) : Prop where
  keys : (w.rows.map Prod.fst).Nodup
  counted : ∀ e ∈ w.rows, e.2.counted = finishedIn w.runs e.1.1 e.1.2
  below : ∀ e ∈ w.rows, e.1.2 < w.read
  complete : ∀ agentId hour, hour < w.metered → finishedIn w.runs agentId hour ≠ [] →
    (agentId, hour) ∈ w.rows.map Prod.fst
  job : ∀ hour todo, w.job = some (hour, todo) → hour ≤ w.metered ∧
    (∀ g ∈ todo, g.2 = finishedIn w.runs g.1 hour) ∧
    ∀ agentId, finishedIn w.runs agentId hour ≠ [] →
      (agentId, hour) ∈ w.rows.map Prod.fst ∨ agentId ∈ todo.map Prod.fst
  past : w.read ≤ hourOf w.now
  unfinished : ∀ r ∈ w.runs, r.status.terminal = false → r.finishedAt = none

/-- A change of one run that no metered hour notices. -/
theorem finishedIn_set {runs : List ConnectRun} {i : ℕ} {r r' : ConnectRun} (hr : runs[i]? = some r)
    (hagent : r'.agentId = r.agentId) {hour : ℕ} (hhour : r.hour = some hour ↔ r'.hour = some hour)
    (agentId : String) : finishedIn (runs.set i r') agentId hour = finishedIn runs agentId hour := by
  simp only [finishedIn, List.length_set]
  refine List.filter_congr fun j _ => ?_
  by_cases hj : i = j
  · subst hj
    have hlt := (List.getElem?_eq_some_iff.mp hr).1
    rw [List.getElem?_set_self hlt, hr]
    simp only [Option.any_some, hagent, hhour]
  · rw [List.getElem?_set_ne hj]

theorem Kept.setRun {w : World} (h : Kept w) {i : ℕ} {r r' : ConnectRun} (hr : w.runs[i]? = some r)
    (hagent : r'.agentId = r.agentId)
    (hhour : ∀ hour < w.read, r.hour = some hour ↔ r'.hour = some hour)
    (hunfinished : r'.status.terminal = false → r'.finishedAt = none) : Kept (w.setRun i r') := by
  have hsame : ∀ agentId hour, hour < w.read →
      finishedIn (w.runs.set i r') agentId hour = finishedIn w.runs agentId hour :=
    fun agentId hour hlt => finishedIn_set hr hagent (hhour hour hlt) agentId
  have hmetered : w.metered ≤ w.read := by
    unfold World.read
    split
    · exact Nat.le_max_left _ _
    · exact Nat.le_refl _
  refine ⟨h.keys, fun e he => ?_, h.below, fun agentId hour hlt hne => ?_, fun hour todo hjob => ?_,
    h.past, fun q hq => ?_⟩
  · exact (h.counted e he).trans (hsame _ _ (h.below e he)).symm
  · simp only [World.setRun] at hne ⊢
    rw [hsame _ _ (Nat.lt_of_lt_of_le hlt hmetered)] at hne
    exact h.complete agentId hour hlt hne
  · have hlt : hour < w.read := by
      have hjob' : w.job = some (hour, todo) := hjob
      simp only [World.read, hjob']
      omega
    obtain ⟨hle, htodo, hall⟩ := h.job hour todo hjob
    refine ⟨hle, fun g hg => (htodo g hg).trans (hsame _ _ hlt).symm, fun agentId hne => ?_⟩
    simp only [World.setRun] at hne
    rw [hsame _ _ hlt] at hne
    exact hall agentId hne
  · rcases List.mem_or_eq_of_mem_set hq with hq | rfl
    · exact h.unfinished q hq
    · exact hunfinished

theorem finishedIn_append (runs : List ConnectRun) {r : ConnectRun} (hr : r.finishedAt = none)
    (agentId : String) (hour : ℕ) :
    finishedIn (runs ++ [r]) agentId hour = finishedIn runs agentId hour := by
  have hlast : ((runs ++ [r])[runs.length]?).any
      (fun r => decide (r.agentId = agentId ∧ r.hour = some hour)) = false := by
    simp [ConnectRun.hour, hr]
  simp only [finishedIn, List.length_append, List.length_singleton, List.range_succ,
    List.filter_append, List.filter_cons, hlast, List.filter_nil]
  simp only [Bool.false_eq_true, if_false, List.append_nil]
  refine List.filter_congr fun j hj => ?_
  rw [List.getElem?_append_left (List.mem_range.mp hj)]

/-- What a step does to its run: it keeps the time, or sets the time of a run that
has none to now, or is the write of `finish`. -/
theorem stepRun_cases {now : ℕ} {r r' : ConnectRun} {a : Act} (h : stepRun now r a = some r') :
    r'.agentId = r.agentId ∧
      (r'.finishedAt = r.finishedAt ∧ (r'.status.terminal = false → r.status.terminal = false) ∨
      r'.status.terminal ∧ r.status.terminal = false ∧ r'.finishedAt = some now ∨
      ∃ i ending at', a = .write i ∧ r.execution = .finishing ending at' ∧ finishes ending r.status ∧
        r'.status.terminal ∧ r'.finishedAt = some at') := by
  cases a with
  | execute i =>
    simp only [stepRun] at h
    split_ifs at h with hq
    cases h
    exact ⟨rfl, .inl ⟨rfl, fun _ => by rw [hq]; rfl⟩⟩
  | park i =>
    simp only [stepRun] at h
    split_ifs at h
    all_goals
      cases h
      refine ⟨rfl, .inl ⟨rfl, fun hterm => ?_⟩⟩
      simp_all [RunStatus.terminal]
  | approve i =>
    simp only [stepRun] at h
    split_ifs at h with hq
    cases h
    exact ⟨rfl, .inl ⟨rfl, fun _ => by rw [hq]; rfl⟩⟩
  | failWaiting i =>
    simp only [stepRun] at h
    split_ifs at h with hq
    cases h
    exact ⟨rfl, .inr (.inl ⟨rfl, by rw [hq]; rfl, rfl⟩)⟩
  | cancel i =>
    simp only [stepRun] at h
    split_ifs at h with hq
    cases h
    refine ⟨rfl, .inr (.inl ⟨rfl, ?_, rfl⟩)⟩
    cases hs : r.status <;> simp_all [cancellable, RunStatus.terminal]
  | finish i ending =>
    simp only [stepRun] at h
    split_ifs at h
    cases h
    exact ⟨rfl, .inl ⟨rfl, id⟩⟩
  | write i =>
    simp only [stepRun] at h
    cases hx : r.execution with
    | idle | executing => simp [hx] at h
    | finishing ending at' =>
      simp only [hx] at h
      split_ifs at h with hf
      · cases h
        exact ⟨rfl, .inr (.inr ⟨i, ending, at', rfl, rfl, hf, by cases ending <;> rfl, rfl⟩)⟩
      · cases h
        exact ⟨rfl, .inl ⟨rfl, id⟩⟩
  | wait _ | create _ | meterHour _ | upsert | endJob | invoice _ _ => simp [stepRun] at h

/-- A step of one run keeps what the rows say, when the write of `finish` is
timely. -/
theorem Kept.stepRun {w : World} (h : Kept w) {i : ℕ} {r r' : ConnectRun} {a : Act}
    (hr : w.runs[i]? = some r) (hi : a.run = some i) (hs : stepRun w.now r a = some r')
    (htimely : Timely w a) : Kept (w.setRun i r') := by
  have hmem := h.unfinished r (List.mem_of_getElem? hr)
  have hpast := h.past
  obtain ⟨hagent, hcases⟩ := stepRun_cases hs
  rcases hcases with ⟨hkeep, hterm⟩ | ⟨hterm, hopen, hnow⟩ | ⟨j, ending, at', rfl, hx, hf, hterm, hat⟩
  · refine h.setRun hr hagent (fun hour _ => ?_) fun ht => hkeep.trans (hmem (hterm ht))
    simp only [ConnectRun.hour, hkeep]
  · refine h.setRun hr hagent (fun hour hlt => ?_) fun ht => by simp [ht] at hterm
    simp only [ConnectRun.hour, hmem hopen, hnow, Option.map_none, Option.map_some,
      Option.some.injEq, reduceCtorEq, false_iff]
    omega
  · obtain rfl : j = i := Option.some.inj hi
    simp only [Timely, hr, hx] at htimely
    refine h.setRun hr hagent (fun hour hlt => ?_) fun ht => by simp [ht] at hterm
    have hnew : r'.hour = some (hourOf at') := by simp only [ConnectRun.hour, hat, Option.map_some]
    rcases htimely hf with hsame | ⟨hlate, hold⟩
    · rw [hsame, hnew]
    · rw [hnew]
      constructor
      · intro hhour
        have := hold hour hhour
        omega
      · intro hhour
        have := Option.some.inj hhour
        omega

theorem Kept.create {w : World} (h : Kept w) (agentId : String) :
    Kept (step w (.create agentId)) := by
  have hsame := fun a hour =>
    finishedIn_append w.runs (r := { agentId := agentId }) rfl a hour
  refine ⟨h.keys, fun e he => ?_, h.below, fun a hour hlt hne => ?_, fun hour todo hjob => ?_,
    h.past, fun r hr => ?_⟩
  · exact (h.counted e he).trans (hsame _ _).symm
  · simp only [step, hsame] at hne
    exact h.complete a hour hlt hne
  · obtain ⟨hle, htodo, hall⟩ := h.job hour todo hjob
    refine ⟨hle, fun g hg => (htodo g hg).trans (hsame _ _).symm, fun a hne => ?_⟩
    simp only [step, hsame] at hne
    exact hall a hne
  · rcases List.mem_append.mp hr with hr | hr
    · exact h.unfinished r hr
    · rw [List.mem_singleton.mp hr]
      exact fun _ => rfl

theorem Kept.begin {w : World} (h : Kept w) (hjob : w.job = none) {hour : ℕ}
    (hle : hour ≤ w.metered) (hended : hour < hourOf w.now) :
    Kept { w with job := some (hour, groups w.runs hour) } := by
  have hread : w.read = w.metered := by rw [World.read, hjob]
  have hpast := h.past
  refine ⟨h.keys, h.counted, fun e he => ?_, h.complete, fun hour' todo heq => ?_, ?_, h.unfinished⟩
  · have := h.below e he
    simp only [World.read]
    omega
  · cases heq
    refine ⟨hle, fun g hg => (mem_groups.mp hg).1, fun a hne => .inr ?_⟩
    exact List.mem_map.mpr ⟨(a, finishedIn w.runs a hour), mem_groups.mpr ⟨rfl, hne⟩, rfl⟩
  · simp only [World.read]
    omega

/-- The rows after one line of the job. -/
theorem upsertRow_spec {rows : List ((String × ℕ) × UsageRecord)}
    (hkeys : (rows.map Prod.fst).Nodup) (key : String × ℕ) (counted : List ℕ) :
    ((upsertRow rows key counted).map Prod.fst).Nodup ∧
    (∀ e ∈ upsertRow rows key counted, e ∈ rows ∨ e.1 = key ∧ e.2.counted = counted) ∧
    ∀ k, k ∈ rows.map Prod.fst ∨ k = key ↔ k ∈ (upsertRow rows key counted).map Prod.fst := by
  unfold upsertRow
  cases hl : rows.lookup key with
  | none =>
    have hnot : key ∉ rows.map Prod.fst := by
      intro hmem
      obtain ⟨e, he, rfl⟩ := List.mem_map.mp hmem
      rw [Record.lookup_of_mem hkeys he] at hl
      cases hl
    simp only [Record.set_of_notMem hnot]
    refine ⟨?_, fun e he => ?_, fun k => by simp⟩
    · rw [List.map_append]
      exact List.Nodup.append hkeys (List.nodup_singleton key) (List.disjoint_singleton.mpr hnot)
    · rcases List.mem_append.mp he with he | he
      · exact .inl he
      · rw [List.mem_singleton.mp he]
        exact .inr ⟨rfl, rfl⟩
  | some row =>
    have hmem := Record.lookup_mem hl
    have hin : key ∈ rows.map Prod.fst := List.mem_map.mpr ⟨_, hmem, rfl⟩
    simp only
    split_ifs
    · refine ⟨hkeys, fun e he => .inl he, fun k => ?_⟩
      constructor
      · rintro (hk | rfl)
        · exact hk
        · exact hin
      · exact .inl
    · rw [Record.keys_set_of_mem hin]
      refine ⟨hkeys, fun e he => ?_, fun k => ?_⟩
      · rcases Record.mem_set he with rfl | he
        · exact .inr ⟨rfl, rfl⟩
        · exact .inl he
      · constructor
        · rintro (hk | rfl)
          · exact hk
          · exact hin
        · exact .inl

theorem Kept.upsert {w : World} (h : Kept w) {hour : ℕ} {g : String × List ℕ}
    {todo : List (String × List ℕ)} (hjob : w.job = some (hour, g :: todo)) :
    Kept { w with rows := upsertRow w.rows (g.1, hour) g.2, job := some (hour, todo) } := by
  obtain ⟨hle, htodo, hall⟩ := h.job hour (g :: todo) hjob
  obtain ⟨hkeys, hmem, hin⟩ := upsertRow_spec h.keys (g.1, hour) g.2
  have hread : w.read = max w.metered (hour + 1) := by rw [World.read, hjob]
  refine ⟨hkeys, fun e he => ?_, fun e he => ?_, fun a hour' hlt hne => ?_,
    fun hour' todo' heq => ?_, ?_, h.unfinished⟩
  · rcases hmem e he with he | ⟨hkey, hcounted⟩
    · exact h.counted e he
    · rw [hcounted, hkey, htodo g (by simp)]
  · have hnew : e.1.2 < max w.metered (hour + 1) := by
      rcases hmem e he with he | ⟨hkey, -⟩
      · exact hread ▸ h.below e he
      · rw [hkey]
        omega
    exact hnew
  · exact (hin _).mp (.inl (h.complete a hour' hlt hne))
  · cases heq
    refine ⟨hle, fun g' hg => htodo g' (List.mem_cons_of_mem g hg), fun a hne => ?_⟩
    rcases hall a hne with ha | ha
    · exact .inl ((hin _).mp (.inl ha))
    · rw [List.map_cons, List.mem_cons] at ha
      rcases ha with rfl | ha
      · exact .inl ((hin _).mp (.inr rfl))
      · exact .inr ha
  · simp only [World.read, ← hread]
    exact h.past

theorem Kept.endJob {w : World} (h : Kept w) {hour : ℕ} (hjob : w.job = some (hour, [])) :
    Kept { w with metered := max w.metered (hour + 1), job := none } := by
  obtain ⟨hle, -, hall⟩ := h.job hour [] hjob
  have hread : w.read = max w.metered (hour + 1) := by rw [World.read, hjob]
  refine ⟨h.keys, h.counted, fun e he => ?_, fun a hour' hlt hne => ?_, fun _ _ heq => ?_, ?_,
    h.unfinished⟩
  · simp only [World.read, ← hread]
    exact h.below e he
  · by_cases hold : hour' < w.metered
    · exact h.complete a hour' hold hne
    · obtain rfl : hour' = hour := by
        simp only at hlt
        omega
      rcases hall a hne with ha | ha
      · exact ha
      · simp at ha
  · cases heq
  · simp only [World.read, ← hread]
    exact h.past

theorem Kept.invoice {w : World} (h : Kept w) {key : String × ℕ} {row : UsageRecord}
    (hl : w.rows.lookup key = some row) :
    Kept { w with rows := Record.set w.rows key { row with invoiced := true } } := by
  have hmem := Record.lookup_mem hl
  have hkeys : (Record.set w.rows key { row with invoiced := true }).map Prod.fst =
      w.rows.map Prod.fst := Record.keys_set_of_mem (List.mem_map.mpr ⟨_, hmem, rfl⟩) _
  refine ⟨hkeys ▸ h.keys, fun e he => ?_, fun e he => ?_, fun a hour hlt hne => ?_,
    fun hour todo hjob => ?_, h.past, h.unfinished⟩
  · rcases Record.mem_set he with rfl | he
    · exact h.counted (key, row) hmem
    · exact h.counted e he
  · rcases Record.mem_set he with rfl | he
    · exact h.below (key, row) hmem
    · exact h.below e he
  · rw [hkeys]
    exact h.complete a hour hlt hne
  · rw [hkeys]
    exact h.job hour todo hjob

theorem Kept.wait {w : World} (h : Kept w) (seconds : ℕ) :
    Kept { w with now := w.now + seconds } where
  keys := h.keys
  counted := h.counted
  below := h.below
  complete := h.complete
  job := h.job
  past := Nat.le_trans h.past (Nat.div_le_div_right (Nat.le_add_right _ _))
  unfinished := h.unfinished

theorem kept_step {w : World} {a : Act} (htimely : Timely w a) (h : Kept w) : Kept (step w a) := by
  have honRun : ∀ i, a.run = some i → Kept (match (w.runs[i]?).bind fun r => stepRun w.now r a with
      | some r => w.setRun i r
      | none => w) := by
    intro i hi
    cases hr : w.runs[i]? with
    | none => exact h
    | some r =>
      cases hs : stepRun w.now r a with
      | none =>
        simp only [Option.bind_some, hs]
        exact h
      | some r' =>
        simp only [Option.bind_some, hs]
        exact h.stepRun hr hi hs htimely
  cases a with
  | wait seconds => exact h.wait seconds
  | create agentId => exact h.create agentId
  | execute i | park i | approve i | failWaiting i | cancel i | finish i _ | write i =>
    exact honRun i rfl
  | meterHour hour =>
    simp only [step]
    split_ifs with hc
    · exact h.begin hc.1 hc.2.1 hc.2.2
    · exact h
  | upsert =>
    simp only [step]
    split
    · exact h.upsert ‹_›
    · exact h
  | endJob =>
    simp only [step]
    split
    · exact h.endJob ‹_›
    · exact h
  | invoice agentId hour =>
    simp only [step]
    split
    · exact h.invoice ‹_›
    · exact h

theorem kept_start : Kept {} where
  keys := List.nodup_nil
  counted := by simp
  below := by simp
  complete := by simp
  job := by simp
  past := Nat.zero_le _
  unfinished := by simp

instance (w : World) (a : Act) : Decidable (Timely w a) := by
  unfold Timely
  split
  · split
    · split <;> infer_instance
    · infer_instance
  · infer_instance

end Prgd.Metering
