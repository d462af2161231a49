import Prgd.Interleaving
import Mathlib.Algebra.Order.Group.Nat
import Mathlib.Data.List.Basic

/-!
# The step limit of a run

A run that waits for nobody, from its start to its end, with the steps that it records. An operation
that has a step of its own (a node, a call of the model, a call of a tool) passes `guard`, goes on,
and takes the number of its step only when it is over; the row comes after that. The tool calls of
one turn do this side by side, in any order, and the limit that one of them throws is its result.

What the walk meets, what the model answers, how long the tools take and how they end is all left
open. Where no operation passes its guard that the limit has no room for beside the operations under
way, and no failure brings a row of its own once the limit is reached, no row is recorded beyond the
limit.
-/
namespace Prgd.StepLimit
open Interleaving

inductive ConnectStepType where
  | node | condition | model | tool
  deriving DecidableEq

structure ConnectRunStep where
  index : ℕ
  type : ConnectStepType
  deriving DecidableEq

/-- How far an operation is. -/
inductive Call where
  | ready
  /-- Within the limits; `guard` reads the status of the run. -/
  | reading
  /-- Past `guard`. -/
  | operating
  /-- `addStep` has taken a number and creates the row. -/
  | recording (index : ℕ)
  | done
  deriving DecidableEq

inductive Phase where
  | walking
  /-- A node that records a step of this type. -/
  | node (type : ConnectStepType)
  | model
  /-- The tool calls of one answer. -/
  | turn
  /-- `finish` records the details of a failure. -/
  | failing
  | ended
  deriving DecidableEq

structure World where
  /-- `ctx.usage.steps` -/
  steps : ℕ := 0
  rows : List ConnectRunStep := []
  phase : Phase := .walking
  calls : List Call := []
  deriving DecidableEq

/-- What the answer of the model leads to. -/
inductive Answer where
  /-- The node is done. -/
  | text
  | pause
  /-- Whether each call names a tool of the agent and has an input that can be read. -/
  | tools (known : List Bool)
  | failed (details : Bool)

inductive Act where
  /-- The walk comes to a node; with no type, to an agent. -/
  | visit (type : Option ConnectStepType)
  /-- The limits that `guard` checks; the time or the tokens may be used up. -/
  | guard (i : ℕ) (spent : Bool)
  | status (i : ℕ) (cancelled : Bool)
  /-- An operation ends and `addStep` takes a number. -/
  | addStep (i : ℕ)
  | create (i : ℕ) (ok : Bool)
  /-- Something else throws. -/
  | throws (i : ℕ)
  | answer (a : Answer)
  /-- All calls of the turn have results. -/
  | gather
  /-- A node is done, or fails after its step. -/
  | leave (ok : Bool)
  /-- The last status of the run is written. -/
  | finish

def Phase.rowType : Phase → ConnectStepType
  | .node type => type
  | .model => .model
  | .turn => .tool
  | _ => .node

namespace World
variable (w : World)

def put (i : ℕ) (c : Call) : World := { w with calls := w.calls.set i c }

def begin (phase : Phase) (calls : List Call) : World := { w with phase, calls }

/-- An exception in a call of the turn is its result, and `finish` does not mind one; elsewhere it
ends the run. -/
def raise (i : ℕ) : World :=
  if w.phase = .turn ∨ w.phase = .failing then w.put i .done else w.begin .ended []

def allDone : Bool := w.calls.all (· = .done)

/-- The checks of `guard` before its first `await`. -/
def guard (maxSteps i : ℕ) (spent : Bool) : World :=
  if spent ∨ maxSteps ≤ w.steps then w.raise i else w.put i .reading

def addStep (i : ℕ) : World := { w.put i (.recording w.steps) with steps := w.steps + 1 }

def create (i index : ℕ) (ok : Bool) : World :=
  if ok then { w.put i .done with rows := w.rows ++ [⟨index, w.phase.rowType⟩] } else w.raise i

def answer : Answer → World
  | .text => w.begin .walking []
  | .pause => w.begin .model [.ready]
  | .tools known => w.begin .turn (known.map fun k => if k then .ready else .done)
  | .failed true => w.begin .failing [.operating]
  | .failed false => w.begin .ended []

end World

/-- One step; an act that is not due changes nothing. -/
def step (maxSteps : ℕ) (w : World) : Act → World
  | .visit type => if w.phase = .walking then
      match type with
      | some t => w.begin (.node t) [.ready]
      | none => w.begin .model [.ready]
    else w
  | .guard i spent => if w.calls[i]? = some .ready then w.guard maxSteps i spent else w
  | .status i cancelled =>
      if w.calls[i]? = some .reading then
        if cancelled then w.raise i else w.put i .operating
      else w
  | .addStep i => if w.calls[i]? = some .operating then w.addStep i else w
  | .create i ok => match w.calls[i]? with
      | some (.recording index) => w.create i index ok
      | _ => w
  | .throws i =>
      if w.calls[i]? = some .ready ∨ w.calls[i]? = some .operating then w.raise i else w
  | .answer a => if w.phase = .model ∧ w.allDone then w.answer a else w
  | .gather => if w.phase = .turn ∧ w.allDone then w.begin .model [.ready] else w
  | .leave ok => match w.phase with
      | .node _ => if w.allDone then w.begin (if ok then .walking else .ended) [] else w
      | _ => w
  | .finish => if w.phase = .walking ∨ w.phase = .failing ∧ w.allDone then w.begin .ended [] else w

/-- Past the limit check, with no number yet. -/
def Call.underWay : Call → Bool
  | .reading | .operating => true
  | _ => false

def Call.isRecording : Call → Bool
  | .recording _ => true
  | _ => false

/-- The operations that are going to take a number. -/
def World.underWay (w : World) : ℕ := w.calls.countP Call.underWay

/-- There is room for one step more beside the operations under way, when an operation passes its
guard and when a failure of the agent with details is to be recorded. -/
def Room (maxSteps : ℕ) (w : World) : Act → Prop
  | .guard i spent => w.calls[i]? = some .ready → spent = false → w.steps < maxSteps →
      w.steps + w.underWay < maxSteps
  | .answer (.failed true) => w.phase = .model → w.allDone → w.steps < maxSteps
  | _ => True

/-! ## Within the limit -/

def World.recording (w : World) : ℕ := w.calls.countP Call.isRecording

/-- Every row and every row to come has a number, and the numbers taken or to be taken are within
the limit. -/
structure Within (maxSteps : ℕ) (w : World) : Prop where
  numbers : w.steps + w.underWay ≤ maxSteps
  rows : w.rows.length + w.recording ≤ w.steps

section
variable {maxSteps : ℕ} {w : World}

/-- What a call counts for, before and after. -/
theorem countP_put {i : ℕ} {c : Call} (hc : w.calls[i]? = some c) (d : Call)
    (p : Call → Bool) : (w.put i d).calls.countP p + (if p c then 1 else 0) =
      w.calls.countP p + if p d then 1 else 0 := by
  obtain ⟨hi, heq⟩ := List.getElem?_eq_some_iff.mp hc
  have hset : (w.put i d).calls.countP p = w.calls.countP p - (if p w.calls[i] then 1 else 0) +
      if p d then 1 else 0 := List.countP_set hi
  rw [hset, heq]
  split_ifs with hpc hpd hpd
  · have := List.countP_pos_iff.mpr ⟨w.calls[i], List.getElem_mem hi, heq ▸ hpc⟩
    omega
  · have := List.countP_pos_iff.mpr ⟨w.calls[i], List.getElem_mem hi, heq ▸ hpc⟩
    omega
  · omega
  · omega

theorem underWay_put {i : ℕ} {c : Call} (hc : w.calls[i]? = some c) (d : Call) :
    (w.put i d).underWay + (if c.underWay then 1 else 0) =
      w.underWay + if d.underWay then 1 else 0 :=
  countP_put hc d Call.underWay

theorem recording_put {i : ℕ} {c : Call} (hc : w.calls[i]? = some c) (d : Call) :
    (w.put i d).recording + (if c.isRecording then 1 else 0) =
      w.recording + if d.isRecording then 1 else 0 :=
  countP_put hc d Call.isRecording

/-- A call that goes on to what counts for no more. -/
theorem Within.put (h : Within maxSteps w) {i : ℕ} {c d : Call} (hc : w.calls[i]? = some c)
    (hunder : d.underWay = true → c.underWay = true)
    (hrecording : d.isRecording = true → c.isRecording = true) : Within maxSteps (w.put i d) := by
  have hu := underWay_put hc d
  have hr := recording_put hc d
  obtain ⟨hnumbers, hrows⟩ := h
  refine ⟨?_, ?_⟩
  · change w.steps + (w.put i d).underWay ≤ maxSteps
    split_ifs at hu with hcu hdu hdu
    · omega
    · omega
    · exact absurd (hunder hdu) hcu
    · omega
  · change w.rows.length + (w.put i d).recording ≤ w.steps
    split_ifs at hr with hcr hdr hdr
    · omega
    · omega
    · exact absurd (hrecording hdr) hcr
    · omega

theorem Within.done (h : Within maxSteps w) {i : ℕ} {c : Call} (hc : w.calls[i]? = some c) :
    Within maxSteps (w.put i .done) :=
  h.put hc Bool.noConfusion Bool.noConfusion

/-- The operations before are all over. -/
theorem Within.begin (h : Within maxSteps w) (phase : Phase) {calls : List Call}
    (hunder : w.steps + calls.countP Call.underWay ≤ maxSteps)
    (hrecording : calls.countP Call.isRecording = 0) : Within maxSteps (w.begin phase calls) := by
  refine ⟨hunder, ?_⟩
  have hrows := h.rows
  change w.rows.length + calls.countP Call.isRecording ≤ w.steps
  omega

theorem Within.idle (h : Within maxSteps w) (phase : Phase) {calls : List Call}
    (hcalls : ∀ c ∈ calls, c = .ready ∨ c = .done) : Within maxSteps (w.begin phase calls) := by
  have hnone (p : Call → Bool) (hready : p .ready = false) (hdone : p .done = false) :
      calls.countP p = 0 := List.countP_eq_zero.mpr fun c hc => by
    rcases hcalls c hc with rfl | rfl
    · simp [hready]
    · simp [hdone]
  have hnumbers := h.numbers
  refine h.begin phase ?_ (hnone _ rfl rfl)
  rw [hnone _ rfl rfl]
  omega

theorem Within.raise (h : Within maxSteps w) {i : ℕ} {c : Call} (hc : w.calls[i]? = some c) :
    Within maxSteps (w.raise i) := by
  rw [World.raise]
  split_ifs
  · exact h.done hc
  · exact h.idle .ended (by simp)

theorem Within.guard (h : Within maxSteps w) {i : ℕ} {spent : Bool}
    (hc : w.calls[i]? = some .ready)
    (hroom : spent = false → w.steps < maxSteps → w.steps + w.underWay < maxSteps) :
    Within maxSteps (w.guard maxSteps i spent) := by
  rw [World.guard]
  split_ifs with hstop
  · exact h.raise hc
  · rw [not_or, Bool.not_eq_true, not_le] at hstop
    have hless := hroom hstop.1 hstop.2
    have hu : (w.put i .reading).underWay + 0 = w.underWay + 1 := underWay_put hc .reading
    have hr : (w.put i .reading).recording + 0 = w.recording + 0 := recording_put hc .reading
    have hrows := h.rows
    refine ⟨?_, ?_⟩
    · change w.steps + (w.put i .reading).underWay ≤ maxSteps
      omega
    · change w.rows.length + (w.put i .reading).recording ≤ w.steps
      omega

theorem Within.addStep (h : Within maxSteps w) {i : ℕ} (hc : w.calls[i]? = some .operating) :
    Within maxSteps (w.addStep i) := by
  have hu : (w.put i (.recording w.steps)).underWay + 1 = w.underWay + 0 := underWay_put hc _
  have hr : (w.put i (.recording w.steps)).recording + 0 = w.recording + 1 := recording_put hc _
  obtain ⟨hnumbers, hrows⟩ := h
  refine ⟨?_, ?_⟩
  · change w.steps + 1 + (w.put i (.recording w.steps)).underWay ≤ maxSteps
    omega
  · change w.rows.length + (w.put i (.recording w.steps)).recording ≤ w.steps + 1
    omega

theorem Within.create (h : Within maxSteps w) {i index : ℕ}
    (hc : w.calls[i]? = some (.recording index)) (ok : Bool) :
    Within maxSteps (w.create i index ok) := by
  rw [World.create]
  split_ifs
  · have hu : (w.put i .done).underWay + 0 = w.underWay + 0 := underWay_put hc .done
    have hr : (w.put i .done).recording + 1 = w.recording + 0 := recording_put hc .done
    obtain ⟨hnumbers, hrows⟩ := h
    refine ⟨?_, ?_⟩
    · change w.steps + (w.put i .done).underWay ≤ maxSteps
      omega
    · change (w.rows ++ [_]).length + (w.put i .done).recording ≤ w.steps
      rw [List.length_append, List.length_singleton]
      omega
  · exact h.raise hc

theorem Within.answer (h : Within maxSteps w) {a : Answer}
    (hroom : a = .failed true → w.steps < maxSteps) : Within maxSteps (w.answer a) := by
  cases a with
  | text => exact h.idle .walking (by simp)
  | pause => exact h.idle .model (by simp)
  | tools known =>
    refine h.idle .turn fun c hc => ?_
    obtain ⟨k, -, rfl⟩ := List.mem_map.mp hc
    cases k
    · exact .inr rfl
    · exact .inl rfl
  | failed details =>
    cases details with
    | false => exact h.idle .ended (by simp)
    | true => exact h.begin .failing (Nat.succ_le_of_lt (hroom rfl)) rfl

theorem within_step {a : Act} (hroom : Room maxSteps w a) (h : Within maxSteps w) :
    Within maxSteps (step maxSteps w a) := by
  cases a with
  | visit type =>
    rw [step.eq_def]
    dsimp only
    split_ifs
    · cases type with
      | some t => exact h.idle (.node t) (by simp)
      | none => exact h.idle .model (by simp)
    · exact h
  | guard i spent =>
    rw [step]
    split_ifs with hc
    · exact h.guard hc (hroom hc)
    · exact h
  | status i cancelled =>
    rw [step]
    split_ifs with hc hcancelled
    · exact h.raise hc
    · exact h.put hc (fun _ => rfl) Bool.noConfusion
    · exact h
  | addStep i =>
    rw [step]
    split_ifs with hc
    · exact h.addStep hc
    · exact h
  | create i ok =>
    rw [step.eq_def]
    dsimp only
    split
    · rename_i index hc
      exact h.create hc ok
    · exact h
  | throws i =>
    rw [step]
    split_ifs with hc
    · rcases hc with hc | hc
      · exact h.raise hc
      · exact h.raise hc
    · exact h
  | answer a =>
    rw [step]
    split_ifs with hdue
    · refine h.answer fun ha => ?_
      subst ha
      exact hroom hdue.1 hdue.2
    · exact h
  | gather =>
    rw [step]
    split_ifs
    · exact h.idle .model (by simp)
    · exact h
  | leave ok =>
    rw [step.eq_def]
    dsimp only
    split
    · by_cases hdone : w.allDone = true
      · rw [if_pos hdone]
        exact h.idle _ (by simp)
      · rw [if_neg hdone]
        exact h
    · exact h
  | finish =>
    rw [step]
    split_ifs
    · exact h.idle .ended (by simp)
    · exact h

end

/-- Where every operation passes its guard with room for its step, and so does every failure with
details, the run never has more rows than the limit. -/
theorem rows_le_maxSteps (maxSteps : ℕ) (as : List Act)
    (h : Meets (step maxSteps) (Room maxSteps) {} as) :
    (run (step maxSteps) {} as).rows.length ≤ maxSteps := by
  have hwithin : Within maxSteps (run (step maxSteps) {} as) :=
    h.invariant (fun _ _ hroom hw => within_step hroom hw) ⟨Nat.zero_le _, Nat.le_refl 0⟩
  have hnumbers := hwithin.numbers
  have hrows := hwithin.rows
  omega

/-- An operation from its guard to its row. -/
def operation (i : ℕ) : List Act :=
  [.guard i false, .status i false, .addStep i, .create i true]

/-- The trigger, and an answer of the model. -/
def oneAnswer (a : Answer) : List Act :=
  .visit (some .node) :: operation 0 ++ .leave true :: .visit none :: operation 0 ++ [.answer a]

/-- Two tool calls one after the other, and another answer. -/
def inTurn : List Act :=
  oneAnswer (.tools [true, true]) ++ operation 0 ++ operation 1 ++ .gather :: operation 0 ++
    [.answer .text, .finish]

instance (maxSteps : ℕ) (w : World) : ∀ a, Decidable (Room maxSteps w a)
  | .guard i spent => inferInstanceAs (Decidable (w.calls[i]? = some .ready → spent = false →
      w.steps < maxSteps → w.steps + w.underWay < maxSteps))
  | .answer (.failed true) =>
      inferInstanceAs (Decidable (w.phase = .model → w.allDone → w.steps < maxSteps))
  | .answer (.failed false) | .answer .text | .answer .pause | .answer (.tools _) => isTrue trivial
  | .visit _ | .status _ _ | .addStep _ | .create _ _ | .throws _ | .gather | .leave _ | .finish =>
      isTrue trivial

theorem rows_le_maxSteps_inTurn : (run (step 5) {} inTurn).rows.length ≤ 5 :=
  rows_le_maxSteps 5 inTurn (by decide)

/-- Two calls of one turn pass their guards before either has its step. -/
theorem rows_exceed_maxSteps :
    ¬ ∀ maxSteps as, (run (step maxSteps) {} as).rows.length ≤ maxSteps := by
  intro h
  have hsideBySide := h 3 (oneAnswer (.tools [true, true]) ++ [.guard 0 false, .guard 1 false,
    .status 0 false, .status 1 false, .addStep 0, .addStep 1, .create 0 true, .create 1 true])
  exact absurd hsideBySide (by decide)

/-- An answer that is cut off at the limit has its details recorded all the same. -/
example : (run (step 2) {} (oneAnswer (.failed true) ++ [.addStep 0, .create 0 true])).rows.length =
    3 := by
  decide

end Prgd.StepLimit
