import Prgd.Interleaving
import Prgd.WorkLogs

/-!
# Work timers

`TimersService`: one running timer for each engineer, which becomes a worklog when it
is stopped. Every query and every statement is one step; the transaction of `stop` is
one step too, since its claim locks the row of the timer. All calls read one clock, in
milliseconds.

`idleStop` plans with one read and leaves the rest to `stop`, which looks for the
running timer of the engineer again and never at its last activity: a timer that was
started in between is stopped in place of the one that was idle, and one that became
active again is stopped all the same.

The prompt before an idle stop and the events of the audit log are left out.
-/
namespace Prgd.Timers
open Interleaving
open WorkLogs (billedMinutes)

/-! ## The data -/

inductive StopReason where
  | manual | idle | offboarded
  deriving DecidableEq

structure WorkTimer where
  userId : ℕ
  contractId : ℕ
  ticketId : Option ℕ
  maintenanceRunId : Option ℕ
  note : Option String
  startedAt : ℕ
  lastActivityAt : ℕ
  stoppedAt : Option ℕ := none
  stopReason : Option StopReason := none
  workLogId : Option ℕ := none
  deriving DecidableEq

/-- The row that a stopped timer leaves, a draft of the source `TIMER`. -/
structure TimerLog where
  contractId : ℕ
  ticketId : Option ℕ
  maintenanceRunId : Option ℕ
  userId : ℕ
  minutes : ℕ
  billable : Bool
  note : Option String
  workedAt : ℕ
  startedAt : ℕ
  endedAt : ℕ
  sessionMinutes : ℕ
  flagged : Bool
  reason : Option String
  /-- Not a column: the timer that was stopped. -/
  timerId : ℕ
  deriving DecidableEq

/-- A timer that `idleStop` stopped. -/
structure IdleStop where
  /-- The timer that `idleStop` was called for, and the one that was stopped. -/
  asked : ℕ
  stopped : ℕ
  /-- The last activity that was stored at that moment. -/
  lastActivityAt : ℕ
  time : ℕ
  deriving DecidableEq

structure Shared where
  now : ℕ
  timerAutoStopSeconds : ℕ
  timers : Table ℕ WorkTimer
  workLogs : List TimerLog
  /-- Not a table: every stop that an `idleStop` carried out. -/
  idleStops : List IdleStop

structure StartInput where
  ticketId : Option ℕ
  maintenanceRunId : Option ℕ
  note : Option String
  deriving DecidableEq

structure StopInput where
  note : Option String := none
  billable : Option Bool := none
  reason : StopReason := .manual
  deriving DecidableEq

/-- The plan of an `idleStop`: its timer and when that is to be stopped. -/
structure IdlePlan where
  timerId : ℕ
  stopAt : ℕ
  deriving DecidableEq

inductive Call where
  /-- The contract of the ticket or of the maintenance run, or why there is none. -/
  | start (userId : ℕ) (dto : StartInput) (contract : Except ApiError ℕ)
  | stop (userId : ℕ) (opts : StopInput)
  | activity (userId : ℕ)
  | idleStop (timerId : ℕ)

/-- The statement a call stands in front of. -/
inductive Pc where
  | rest (error : Option ApiError)
  | creating (userId : ℕ) (dto : StartInput) (contractId : ℕ)
  /-- `idlePlan` has read the timer, and reads the settings and the clock. -/
  | planning (timerId lastActivityAt : ℕ)
  /-- `idleStop` has decided to stop, and reads whose timer it is. -/
  | loading (plan : IdlePlan)
  /-- In front of the first query of `stop`. -/
  | finding (userId : ℕ) (opts : StopInput) (plan : Option IdlePlan)
  | measuring (id : ℕ) (t : WorkTimer) (opts : StopInput) (now stop : ℕ) (plan : Option IdlePlan)
  | claiming (id : ℕ) (t : WorkTimer) (opts : StopInput) (now stop sessionMinutes : ℕ)
      (plan : Option IdlePlan)

inductive Act where
  | call (c : Call)
  /-- The next statement; the terminal sessions that the query for them returns. -/
  | next (sessions : List (ℕ × Option ℕ))
  | tick (ms : ℕ)

/-! ## Statements -/

def throws (e : ApiError) : Pc := .rest (some e)

def timerRunning : ApiError := .conflict "timer_running" "Stop your running timer first"

def noTimer : ApiError := .invalidState "No timer is running"

/-- `findFirst` of the running timer of an engineer. -/
def Shared.running (s : Shared) (userId : ℕ) : Option (ℕ × WorkTimer) :=
  s.timers.rows.find? fun e => e.2.userId = userId ∧ e.2.stoppedAt = none

/-- Minutes of terminal sessions inside a window, overlapping ones counted once. -/
def sessionMinutes (sessions : List (ℕ × Option ℕ)) (start stop now : ℕ) : ℕ :=
  let spans := (sessions.map fun r => (max r.1 start, min (r.2.getD now) stop)).filter
    fun x => x.1 < x.2
  let sorted := spans.mergeSort fun x y => x.1 ≤ y.1
  let total := (sorted.foldl (fun acc x =>
    (acc.1 + (x.2 - max x.1 acc.2), max acc.2 x.2)) (0, 0)).1
  (total + 30000) / 60000

def newTimer (userId : ℕ) (dto : StartInput) (contractId now : ℕ) : WorkTimer where
  userId
  contractId
  ticketId := dto.ticketId
  maintenanceRunId := dto.maintenanceRunId
  note := dto.note
  startedAt := now
  lastActivityAt := now

def newLog (id : ℕ) (t : WorkTimer) (opts : StopInput) (stop sessions : ℕ) : TimerLog where
  contractId := t.contractId
  ticketId := t.ticketId
  maintenanceRunId := t.maintenanceRunId
  userId := t.userId
  minutes := billedMinutes t.startedAt stop
  billable := opts.billable.getD true
  note := opts.note.or t.note
  workedAt := t.startedAt
  startedAt := t.startedAt
  endedAt := stop
  sessionMinutes := sessions
  flagged := opts.reason = .idle
  reason := if opts.reason = .idle then some "Stopped automatically after no activity" else none
  timerId := id

/-- An idle stop counts up to the last activity. -/
def stopTime (t : WorkTimer) (reason : StopReason) (now : ℕ) : ℕ :=
  if reason = .idle then max t.lastActivityAt (t.startedAt + 60000) else now

/-- The first query of `stop`. -/
def findTimer (s : Shared) (userId : ℕ) (opts : StopInput) (plan : Option IdlePlan) : Pc :=
  match s.running userId with
  | none => throws noTimer
  | some (id, t) => .measuring id t opts s.now (stopTime t opts.reason s.now) plan

/-- The time after which a timer without activity is idle. -/
def Shared.idleAt (s : Shared) (lastActivityAt : ℕ) : ℕ :=
  lastActivityAt + s.timerAutoStopSeconds * 1000

def readPlan (s : Shared) (timerId : ℕ) : Pc :=
  match s.timers.find timerId with
  | none => .rest none
  | some t => if t.stoppedAt.isSome then .rest none else .planning timerId t.lastActivityAt

def begin (s : Shared) : Call → Shared × Pc
  | .start userId dto contract =>
      if dto.ticketId.isSome = dto.maintenanceRunId.isSome then
        (s, throws (.invalid "Pass ticketId or maintenanceRunId" []))
      else match contract with
        | .error e => (s, throws e)
        | .ok contractId =>
            if (s.running userId).isSome then (s, throws timerRunning)
            else (s, .creating userId dto contractId)
  | .stop userId opts => (s, findTimer s userId opts none)
  | .activity userId =>
      ({ s with timers := s.timers.amend fun _ t =>
          if t.userId = userId ∧ t.stoppedAt = none then { t with lastActivityAt := s.now } else t },
        .rest none)
  | .idleStop timerId => (s, readPlan s timerId)

/-- The transaction of `stop`: claim the timer, create its worklog, link them. -/
def claim (s : Shared) (id : ℕ) (read : WorkTimer) (opts : StopInput) (now stop sessions : ℕ)
    (plan : Option IdlePlan) : Shared × Pc :=
  match s.timers.find id with
  | none => (s, throws noTimer)
  | some t =>
      if t.stoppedAt.isSome then (s, throws noTimer)
      else
        ({ s with
            timers := s.timers.put id { t with
              stoppedAt := some now, stopReason := some opts.reason, workLogId := some s.workLogs.length }
            workLogs := s.workLogs ++ [newLog id read opts stop sessions]
            idleStops := s.idleStops ++
              (plan.map fun p => ⟨p.timerId, id, t.lastActivityAt, s.now⟩).toList },
          .rest none)

def next (sessions : List (ℕ × Option ℕ)) (s : Shared) : Pc → Option (Shared × Pc)
  | .rest _ => none
  | .creating userId dto contractId =>
      -- the partial unique index
      if (s.running userId).isSome then some (s, throws timerRunning)
      else some ({ s with
        timers := s.timers.put s.timers.fresh (newTimer userId dto contractId s.now) }, .rest none)
  | .planning timerId lastActivityAt =>
      some (s, if s.now < s.idleAt lastActivityAt then .rest none
        else .loading ⟨timerId, s.idleAt lastActivityAt⟩)
  | .loading plan =>
      match s.timers.find plan.timerId with
      | none => some (s, .rest none)
      | some t => some (s, .finding t.userId { reason := .idle } (some plan))
  | .finding userId opts plan => some (s, findTimer s userId opts plan)
  | .measuring id t opts now stop plan =>
      some (s, .claiming id t opts now stop (sessionMinutes sessions t.startedAt stop s.now) plan)
  | .claiming id t opts now stop sessions plan => some (claim s id t opts now stop sessions plan)

def trans (_ : ℕ) (s : Shared) (act : Act) (pc : Pc) : Option (Shared × Pc) :=
  match act, pc with
  | .call c, .rest _ => some (begin s c)
  | .next sessions, pc => next sessions s pc
  | .tick ms, pc => some ({ s with now := s.now + ms }, pc)
  | _, _ => none

abbrev World := Interleaving.World Shared Pc

def step : World → ℕ × Act → World := callerStep trans

/-- No timers yet. -/
def start (now timerAutoStopSeconds : ℕ) : World :=
  ⟨⟨now, timerAutoStopSeconds, .empty, [], []⟩, fun _ => .rest none⟩

/-! ## What is claimed -/

/-- Every timer became at most one worklog, and every idle stop hit its own timer, at a
moment at which that was idle. -/
structure StoppedRight (s : Shared) : Prop where
  once : ∀ id, (s.workLogs.filter fun w => w.timerId = id).length ≤ 1
  own : ∀ e ∈ s.idleStops, e.stopped = e.asked
  idle : ∀ e ∈ s.idleStops, s.idleAt e.lastActivityAt ≤ e.time

/-- The idle stop still finds what it planned with: `stop` finds the timer of the plan
(or none), and that has had no activity since. -/
def unmoved (s : Shared) : Pc → Bool
  | .finding userId _ (some plan) => (s.running userId).all fun e => e.1 = plan.timerId
  | .claiming id _ _ _ _ _ (some plan) =>
      (s.timers.find id).all fun t => s.idleAt t.lastActivityAt = plan.stopAt
  | _ => true

def Unmoved (w : World) (a : ℕ × Act) : Bool := unmoved w.shared (w.pc a.1)

/-! ## One step -/

/-- What is known where an idle stop stands. -/
def Placed (s : Shared) : Pc → Prop
  | .loading plan | .finding _ _ (some plan) => plan.stopAt ≤ s.now
  | .measuring id _ _ _ _ (some plan) | .claiming id _ _ _ _ _ (some plan) =>
      id = plan.timerId ∧ plan.stopAt ≤ s.now
  | _ => True

structure Sound (s : Shared) : Prop where
  right : StoppedRight s
  stopped : ∀ w ∈ s.workLogs, ∃ t, s.timers.find w.timerId = some t ∧ t.stoppedAt.isSome

section
variable {s s' : Shared} {pc pc' : Pc} {act : Act} {i : ℕ}

theorem Placed.mono (h : Placed s pc) (hnow : s.now ≤ s'.now) : Placed s' pc := by
  cases pc with
  | loading plan => exact Nat.le_trans h hnow
  | finding userId opts plan =>
    cases plan with
    | none => trivial
    | some plan => exact Nat.le_trans h hnow
  | measuring id t opts now stop plan =>
    cases plan with
    | none => trivial
    | some plan => exact ⟨h.1, Nat.le_trans h.2 hnow⟩
  | claiming id t opts now stop sessions plan =>
    cases plan with
    | none => trivial
    | some plan => exact ⟨h.1, Nat.le_trans h.2 hnow⟩
  | rest _ | creating _ _ _ | planning _ _ => trivial

theorem now_claim (s : Shared) (id : ℕ) (t : WorkTimer) (opts : StopInput) (now stop sessions : ℕ)
    (plan : Option IdlePlan) : (claim s id t opts now stop sessions plan).1.now = s.now := by
  unfold claim
  split
  · rfl
  · split_ifs <;> rfl

theorem now_trans (h : trans i s act pc = some (s', pc')) : s.now ≤ s'.now := by
  unfold trans at h
  split at h
  · next c e =>
    have hs : s' = (begin s c).1 := by rw [Option.some.inj h]
    rw [hs]
    cases c with
    | start userId dto contract =>
      simp only [begin]
      repeat' split
      all_goals exact Nat.le_refl _
    | stop _ _ | activity _ | idleStop _ => exact Nat.le_refl _
  · next sessions =>
    cases pc with
    | rest e => cases h
    | claiming id t opts now stop sessions plan =>
      have hs : s' = (claim s id t opts now stop sessions plan).1 := by rw [Option.some.inj h]
      rw [hs, now_claim]
    | creating userId dto contractId =>
      simp only [next] at h
      split_ifs at h <;> cases h <;> exact Nat.le_refl _
    | loading plan =>
      simp only [next] at h
      split at h <;> cases h <;> exact Nat.le_refl _
    | planning _ _ | finding _ _ _ | measuring _ _ _ _ _ _ =>
      cases h
      exact Nat.le_refl _
  · cases h
    exact Nat.le_add_right _ _
  · cases h

theorem placed_findTimer {userId : ℕ} {opts : StopInput} {plan : Option IdlePlan}
    (h : Placed s (.finding userId opts plan)) (hmoved : unmoved s (.finding userId opts plan) = true) :
    Placed s (findTimer s userId opts plan) := by
  unfold findTimer
  split
  · trivial
  · next id t hrun =>
    cases plan with
    | none => trivial
    | some plan =>
      simp only [unmoved, hrun, Option.all_some, decide_eq_true_eq] at hmoved
      exact ⟨hmoved, h⟩

theorem placed_begin (s : Shared) (c : Call) : Placed s (begin s c).2 := by
  cases c with
  | start userId dto contract =>
    simp only [begin]
    repeat' split
    all_goals trivial
  | stop userId opts => exact placed_findTimer trivial rfl
  | activity userId => trivial
  | idleStop timerId =>
    simp only [begin, readPlan]
    repeat' split
    all_goals trivial

theorem placed_next {sessions : List (ℕ × Option ℕ)} (h : next sessions s pc = some (s', pc'))
    (hpc : Placed s pc) (hmoved : unmoved s pc = true) : Placed s pc' := by
  cases pc with
  | rest e => cases h
  | creating userId dto contractId =>
    simp only [next] at h
    split_ifs at h <;> cases h <;> trivial
  | planning timerId lastActivityAt =>
    simp only [next] at h
    split_ifs at h with hnow <;> cases h
    · trivial
    · exact Nat.le_of_not_lt hnow
  | loading plan =>
    simp only [next] at h
    split at h <;> cases h
    · trivial
    · exact hpc
  | finding userId opts plan =>
    cases h
    exact placed_findTimer hpc hmoved
  | measuring id t opts now stop plan =>
    cases h
    cases plan with
    | none => trivial
    | some plan => exact hpc
  | claiming id t opts now stop sessions plan =>
    have hend : pc' = (claim s id t opts now stop sessions plan).2 := by rw [Option.some.inj h]
    rw [hend]
    unfold claim
    split
    · trivial
    · split_ifs <;> trivial

/-! ## Worklogs and stops -/

/-- Timers may change and be added as long as a stopped one stays stopped. -/
theorem Sound.timers (h : Sound s) {timers : Table ℕ WorkTimer}
    (hkept : ∀ id t, s.timers.find id = some t → t.stoppedAt.isSome →
      ∃ t', timers.find id = some t' ∧ t'.stoppedAt.isSome) : Sound { s with timers } where
  right := ⟨h.right.once, h.right.own, h.right.idle⟩
  stopped w hw := by
    obtain ⟨t, ht, hstopped⟩ := h.stopped w hw
    exact hkept w.timerId t ht hstopped

theorem Sound.activity (h : Sound s) (userId : ℕ) : Sound (begin s (.activity userId)).1 := by
  apply h.timers
  intro id t ht hstopped
  refine ⟨t, ?_, hstopped⟩
  rw [Table.find_amend, ht]
  have hnone : t.stoppedAt ≠ none := Option.isSome_iff_ne_none.mp hstopped
  simp [hnone]

theorem Sound.create (h : Sound s) (t : WorkTimer) :
    Sound { s with timers := s.timers.put s.timers.fresh t } := by
  apply h.timers
  intro id t' ht' hstopped
  have hne : id ≠ s.timers.fresh := by
    rintro rfl
    simp at ht'
  exact ⟨t', by rw [Table.find_put_of_ne _ hne, ht'], hstopped⟩

/-- A timer that is running has no worklog. -/
theorem Sound.fresh (h : Sound s) {id : ℕ} {t : WorkTimer} (ht : s.timers.find id = some t)
    (hrunning : t.stoppedAt.isSome = false) : (s.workLogs.filter fun w => w.timerId = id) = [] := by
  rw [List.filter_eq_nil_iff]
  intro w hw hid
  obtain ⟨t', ht', hstopped⟩ := h.stopped w hw
  rw [of_decide_eq_true hid, ht] at ht'
  obtain rfl := Option.some.inj ht'
  rw [hrunning] at hstopped
  cases hstopped

theorem Sound.claim (h : Sound s) {id : ℕ} {read : WorkTimer} {opts : StopInput}
    {now stop sessions : ℕ} {plan : Option IdlePlan}
    (hpc : Placed s (.claiming id read opts now stop sessions plan))
    (hmoved : unmoved s (.claiming id read opts now stop sessions plan) = true) :
    Sound (Timers.claim s id read opts now stop sessions plan).1 := by
  unfold Timers.claim
  split
  · exact h
  · next t ht =>
    split_ifs with hstopped
    · exact h
    · have hrunning : t.stoppedAt.isSome = false := by simpa using hstopped
      have hnew : ∀ e ∈ (plan.map fun p => IdleStop.mk p.timerId id t.lastActivityAt s.now).toList,
          e.stopped = e.asked ∧ s.idleAt e.lastActivityAt ≤ e.time := by
        intro e he
        cases plan with
        | none => cases he
        | some plan =>
          obtain rfl := List.mem_singleton.mp he
          simp only [unmoved, ht, Option.all_some, decide_eq_true_eq] at hmoved
          exact ⟨hpc.1, hmoved ▸ hpc.2⟩
      constructor
      · constructor
        · intro j
          simp only [List.filter_append, List.filter_cons, List.filter_nil]
          by_cases hj : id = j
          · subst hj
            rw [h.fresh ht hrunning]
            split_ifs <;> simp
          · have hne : ¬ (newLog id read opts stop sessions).timerId = j := hj
            simpa [hne] using h.right.once j
        · intro e he
          rcases List.mem_append.mp he with hold | hin
          · exact h.right.own e hold
          · exact (hnew e hin).1
        · intro e he
          rcases List.mem_append.mp he with hold | hin
          · exact h.right.idle e hold
          · exact (hnew e hin).2
      · intro w hw
        rcases List.mem_append.mp hw with hold | hin
        · obtain ⟨t', ht', hstopped'⟩ := h.stopped w hold
          have hne : w.timerId ≠ id := by
            intro heq
            rw [heq, ht] at ht'
            obtain rfl := Option.some.inj ht'
            exact hstopped hstopped'
          exact ⟨t', by rw [Table.find_put_of_ne _ hne, ht'], hstopped'⟩
        · obtain rfl := List.mem_singleton.mp hin
          exact ⟨_, Table.find_put_self _ _ _, rfl⟩

theorem Sound.trans (h : Sound s) (ht : trans i s act pc = some (s', pc')) (hpc : Placed s pc)
    (hmoved : unmoved s pc = true) : Sound s' := by
  unfold Timers.trans at ht
  split at ht
  · next c e =>
    have hs : s' = (begin s c).1 := by rw [Option.some.inj ht]
    rw [hs]
    cases c with
    | activity userId => exact h.activity userId
    | start userId dto contract =>
      simp only [begin]
      repeat' split
      all_goals exact h
    | stop _ _ | idleStop _ => exact h
  · next sessions =>
    cases pc with
    | rest e => cases ht
    | creating userId dto contractId =>
      simp only [next] at ht
      split_ifs at ht <;> cases ht
      · exact h
      · exact h.create _
    | loading plan =>
      simp only [next] at ht
      split at ht <;> cases ht <;> exact h
    | claiming id t opts now stop sessions plan =>
      have hs : s' = (Timers.claim s id t opts now stop sessions plan).1 := by
        rw [Option.some.inj ht]
      rw [hs]
      exact h.claim hpc hmoved
    | planning _ _ | finding _ _ _ | measuring _ _ _ _ _ _ =>
      cases ht
      exact h
  · cases ht
    exact ⟨⟨h.right.once, h.right.own, h.right.idle⟩, h.stopped⟩
  · cases ht

end

/-! ## Every run -/

theorem placed_trans {s s' : Shared} {pc pc' : Pc} {act : Act} {i : ℕ}
    (h : trans i s act pc = some (s', pc')) (hpc : Placed s pc) (hmoved : unmoved s pc = true) :
    Placed s pc' := by
  unfold trans at h
  split at h
  · next c e =>
    have hpc' : pc' = (begin s c).2 := by rw [Option.some.inj h]
    rw [hpc']
    exact placed_begin s c
  · exact placed_next h hpc hmoved
  · cases h
    exact hpc
  · cases h

/-- Every timer becomes one worklog at most, and idle stops hit their own idle timer, in
every interleaving in which an idle stop still finds what it planned with. -/
theorem timers_stopped_right (now timerAutoStopSeconds : ℕ) (acts : List (ℕ × Act))
    (h : Meets step (fun w a => Unmoved w a = true) (start now timerAutoStopSeconds) acts) :
    StoppedRight (run step (start now timerAutoStopSeconds) acts).shared := by
  have hstart : Sound (start now timerAutoStopSeconds).shared ∧
      ∀ q, Placed (start now timerAutoStopSeconds).shared ((start now timerAutoStopSeconds).pc q) := by
    constructor
    · constructor
      · constructor <;> simp [start]
      · simp [start]
    · exact fun _ => trivial
  have hrun := h.invariant (I := fun w : World => Sound w.shared ∧ ∀ q, Placed w.shared (w.pc q))
    (fun w a hmoved hw => callerStep_invariant (G := Sound) (L := fun s _ pc => Placed s pc)
      (fun s pc ht => ⟨hw.1.trans ht (hw.2 a.1) hmoved,
        (placed_trans ht (hw.2 a.1) hmoved).mono (now_trans ht)⟩)
      (fun s pc ht q _ => (hw.2 q).mono (now_trans ht)) hw.1 hw.2) hstart
  exact hrun.1.right

/-! ## A timer that is forgotten for a while -/

/-- A timer is started and left alone for a minute; ten seconds are allowed. -/
def forgotten : List (ℕ × Act) :=
  [(0, .call (.start 1 ⟨some 5, none, none⟩ (.ok 3))), (0, .next []), (0, .tick 60000)]

/-- The idle stop, up to its decision and from there on. -/
def planning : List (ℕ × Act) := [(1, .call (.idleStop 1)), (1, .next [])]
def stopping : List (ℕ × Act) := [(1, .next []), (1, .next []), (1, .next []), (1, .next [])]

/-- The engineer stops the timer and starts another one. -/
def changing : List (ℕ × Act) :=
  [(0, .call (.stop 1 {})), (0, .next []), (0, .next []),
    (0, .call (.start 1 ⟨some 6, none, none⟩ (.ok 3))), (0, .next [])]

/-- The engineer is back at work. -/
def working : List (ℕ × Act) := [(0, .call (.activity 1))]

theorem timers_stopped_right_forgotten :
    StoppedRight (run step (start 0 10) (forgotten ++ planning ++ stopping)).shared ∧
      (run step (start 0 10) (forgotten ++ planning ++ stopping)).shared.idleStops =
        [⟨1, 1, 0, 60000⟩] := by
  refine ⟨timers_stopped_right 0 10 (forgotten ++ planning ++ stopping) ?_, ?_⟩
  · decide
  · decide

/-- The idle stop of the first timer stops the second one; and it stops a timer whose
engineer is at work. -/
theorem wrong_timer_stopped :
    ¬ StoppedRight (run step (start 0 10) (forgotten ++ planning ++ changing ++ stopping)).shared ∧
      ¬ StoppedRight (run step (start 0 10) (forgotten ++ planning ++ working ++ stopping)).shared := by
  constructor
  · intro h
    have hstops : (run step (start 0 10) (forgotten ++ planning ++ changing ++ stopping)).shared.idleStops =
        [⟨1, 2, 60000, 60000⟩] := by decide
    have hown := h.own ⟨1, 2, 60000, 60000⟩ (by rw [hstops]; simp)
    cases hown
  · intro h
    have hstops : (run step (start 0 10) (forgotten ++ planning ++ working ++ stopping)).shared.idleStops =
        [⟨1, 1, 60000, 60000⟩] := by decide
    have hlimit : (run step (start 0 10)
        (forgotten ++ planning ++ working ++ stopping)).shared.timerAutoStopSeconds = 10 := by
      decide
    have hidle := h.idle ⟨1, 1, 60000, 60000⟩ (by rw [hstops]; simp)
    rw [Shared.idleAt, hlimit] at hidle
    simp at hidle

end Prgd.Timers
