import Prgd.Approvals
import Prgd.Checkpoint

/-!
# One run and everybody who touches it

The row of a run, its approval rows and its lock, and the operations on them:
`execute` with its walk, agent loop, checkpoints, `park` and `finish`;
`approve` with `approveCall`; `deny` with `denyCall`; `cancel`;
`failExpiredApprovals`; and the expiry job. Each database read and each
database write is one step, and any number of callers interleave. Steps of one
caller between two of these touch only what the caller holds in memory and are
part of the neighbouring step. Database operations succeed and no process
crashes.

Everything that the code is told from outside is part of the action: what a
tool, a model or a person answers, whether a limit or the clock stops a run,
which node asks for approval. A caller that may not decide, or that meets a
decided row, is refused and takes no step.

Inside an agent turn the calls run concurrently. A guard that stops one of them
is turned into a result of the call, so its status read only decides whether
the call is answered or made, and is not a step of its own.

The fields `owner`, `inFlight`, `log` and `seen` are history. No operation reads
them: they name the execution that has claimed the run, the approval whose call
was made and not yet stored, the calls of `runTool` so far, and the tool call
ids that models have used so far, each with its node.
-/
namespace Prgd.RunMachine
open Interleaving Approvals Workflow Checkpoint

inductive RunStatus where
  | queued | running | waitingApproval | succeeded | failed | cancelled
  deriving DecidableEq, Repr

def RunStatus.terminal : RunStatus → Bool
  | .succeeded | .failed | .cancelled => true
  | .queued | .running | .waitingApproval => false

/-- A call of `runTool`: the approval behind it, the node, and the tool call of
the model when there is one. -/
structure Call where
  approval : Option ℕ
  nodeId : Text
  toolUseId : Option Text
  deriving DecidableEq

def Call.key (c : Call) : Text × Option Text := (c.nodeId, c.toolUseId)

structure Shared where
  status : RunStatus
  stored : Option RunState
  rows : List ApprovalStatus := []
  lock : Option ℕ := none
  owner : Option ℕ := none
  inFlight : Option ℕ := none
  log : List Call := []
  seen : List (Text × Text) := []

/-- The walk of an execution at one node. -/
structure Frame where
  st : RunState
  node : GraphNode
  rest : List Text
  pos : Pos

inductive Decision where
  | approve | deny
  deriving DecidableEq

inductive Pc where
  | idle
  /-- The run is claimed and its row not read. -/
  | claimed
  /-- At a node that is not done, before or after its guard. -/
  | walking (f : Frame) (guarded : Bool)
  /-- In the agent loop, before or after the guard of a model call. -/
  | modelling (f : Frame) (loop : AgentLoopState) (guarded : Bool)
  /-- The calls of one turn, with the outcomes that are in. -/
  | turn (f : Frame) (loop : AgentLoopState) (calls : List (ToolUse × Option ToolOutcome))
  /-- The node is done in memory and not yet checkpointed. -/
  | saving (f : Frame) (res : Done)
  | parking (st : RunState)
  | finishing (ending : RunStatus)
  /-- `takeDecision` read a pending row after its deadline. -/
  | late (a : ℕ)
  /-- `deny` has its decision and has not written the row. -/
  | denying (a : ℕ)
  /-- Waiting for the run lock. -/
  | locking (d : Decision) (a : ℕ)
  /-- The lock is held and the run not read. -/
  | held (d : Decision) (a : ℕ)
  /-- `approveCall` found its entry; before or after the guard of `runTool`. -/
  | approving (a : ℕ) (st : RunState) (e : PendingApproval) (guarded : Bool)
  /-- The approved tool has run. -/
  | ran (a : ℕ) (st : RunState) (e : PendingApproval) (out : ToolOutput)
  /-- `denyCall` read a waiting run. -/
  | failing (a : ℕ)
  /-- The open approvals of the run are still to be expired, by `denyCall` under
  the lock or by `cancel` without it. -/
  | expiring (locked : Bool)
  /-- Before the lock is released; an approval is recorded afterwards. -/
  | releasing (record : Option (ℕ × Bool))
  | recording (a : ℕ) (ok : Bool)
  /-- `failExpiredApprovals` listed the run, and then found nothing open. -/
  | scanned
  | overdue

/-- What the model said. -/
inductive Reply where
  | failed
  | pause (message : JsValue)
  | uses (message : JsValue) (first : ToolUse) (others : List ToolUse)
  | answer (output : JsValue)

/-- What an approval request shows to the person. -/
structure Request where
  toolId : Text
  toolName : Text
  input : JsValue
  summary : Text

/-- How one call of a turn ends: refused or failed before the tool, run, or
filed for approval. -/
inductive Settled where
  | answered (r : ToolResult)
  | ran (r : ToolResult)
  | asked (q : Request)

inductive Act where
  | execute
  | load (ok : Bool)
  | guard
  | fail
  | complete (output : JsValue) (branch : Option Bool)
  | call (out : ToolOutput)
  | ask (q : Request)
  | enter (prompt : Text)
  | respond (r : Reply)
  | settle (i : ℕ) (how : Settled)
  | endTurn
  | checkpoint
  | park (ms : ℕ)
  | finish
  | approve (a : ℕ) (late : Bool)
  | deny (a : ℕ) (late : Bool)
  | expireLate
  | storeDenial
  | acquire
  | busy
  | readRun
  | throws
  | runTool (out : ToolOutput)
  | store
  | release
  | record
  | failRun
  | expireRows
  | cancel
  | scan
  | count (overdue : ℕ → Bool)
  | expire (overdue : ℕ → Bool)

/-! ## Execution -/

def maxPauses : ℕ := 5

/-- The walk goes on to the next node that is not done. -/
def proceed (graph : Graph) (st : RunState) (order : List Text) (pos : Pos) : Pc :=
  match advance graph (doneOf st) order pos with
  | .finished _ => .finishing .succeeded
  | .broken => .finishing .failed
  | .node node rest pos => .walking ⟨st, node, rest, pos⟩ false

/-- The start of a segment. `ok` says whether the context could be built. -/
def begin (graph : Graph) (stored : Option RunState) (ok : Bool) : Pc :=
  match ok, stored.bind fun st => (walkStart graph st).map fun r => (st, r) with
  | true, some (st, order, pos) => proceed graph st order pos
  | _, _ => .finishing .failed

def addApproval (st : RunState) (a : ℕ) (nodeId : Text) (toolUseId : Option Text) (q : Request) :
    RunState :=
  let e : PendingApproval := ⟨nodeId, toolUseId, q.toolId, q.toolName, q.input, q.summary⟩
  { st with approvals := Record.set st.approvals a e }

/-- The node of the frame is done. -/
def Frame.done (f : Frame) (res : Done) : Pc :=
  .saving { f with st := finishNode f.st f.node.id res } res

/-- `continue` after the checkpoint. -/
def Frame.leave (graph : Graph) (f : Frame) (res : Done) : Pc :=
  if f.node.type = .finish then .finishing .succeeded
  else proceed graph f.st f.rest (f.pos.visit graph f.node res)

/-- All outcomes of a turn, once the last one is in. -/
def outcomes : List (ToolUse × Option ToolOutcome) → Option (List (ToolUse × ToolOutcome))
  | [] => some []
  | (u, o) :: calls => do return (u, ← o) :: (← outcomes calls)

/-- `park` writes a running row only. -/
def Shared.park (s : Shared) (st : RunState) (ms : ℕ) : Shared :=
  if s.status = .running then
    { s with
      status := .waitingApproval
      stored := some { st with execMs := st.execMs + ms, segments := st.segments + 1 }
      owner := none }
  else { s with owner := none }

/-- `finish` writes a running row, and for a cancellation also a cancelled one. -/
def Shared.finish (s : Shared) (ending : RunStatus) : Shared :=
  if s.status = .running ∨ ending = .cancelled ∧ s.status = .cancelled then
    { s with status := ending, stored := none, owner := none }
  else { s with owner := none }

def Shared.fail (s : Shared) : Shared := { s with status := .failed, stored := none }

/-- The guarded form, for a waiting row only. -/
def Shared.failWaiting (s : Shared) : Shared := if s.status = .waitingApproval then s.fail else s

def settleCall (s : Shared) (f : Frame) (loop : AgentLoopState)
    (calls : List (ToolUse × Option ToolOutcome)) (i : ℕ) (u : ToolUse) :
    Settled → Shared × Pc
  | .answered r => (s, .turn f loop (calls.set i (u, some (.result r))))
  | .ran r =>
      ({ s with log := s.log ++ [⟨none, f.node.id, some u.id⟩] },
        .turn f loop (calls.set i (u, some (.result r))))
  | .asked q =>
      ({ s with rows := s.rows ++ [.pending] },
        .turn { f with st := addApproval f.st s.rows.length f.node.id (some u.id) q } loop
          (calls.set i (u, some (.approval s.rows.length))))

def reply (s : Shared) (f : Frame) (loop : AgentLoopState) : Reply → Shared × Pc
  | .failed => (s, .finishing .failed)
  | .pause m =>
      (s, if maxPauses < loop.pauses + 1 then .finishing .failed
        else .modelling f { loop with messages := loop.messages ++ [m], pauses := loop.pauses + 1 }
          false)
  | .uses m first others =>
      ({ s with seen := s.seen ++ (first :: others).map fun u => (f.node.id, u.id) },
        .turn f { loop with messages := loop.messages ++ [m] }
          ((first :: others).map fun u => (u, none)))
  | .answer output => (s, f.done ⟨output, none⟩)

/-- The steps of `execute`. -/
def executeStep (graph : Graph) (p : ℕ) (s : Shared) : Act → Pc → Option (Shared × Pc)
  | .execute, .idle =>
      if s.status = .queued then some ({ s with status := .running, owner := some p }, .claimed)
      else none
  | .load ok, .claimed => some (s, begin graph s.stored ok)
  | .guard, .walking f _ =>
      some (s, if s.status = .cancelled then .finishing .cancelled else .walking f true)
  | .guard, .modelling f loop _ =>
      some (s, if s.status = .cancelled then .finishing .cancelled else .modelling f loop true)
  | .fail, .walking _ _ => some (s, .finishing .failed)
  | .fail, .modelling _ _ _ => some (s, .finishing .failed)
  | .complete output branch, .walking f true =>
      if f.node.type ∈ [.trigger, .condition, .transform, .finish] then
        some (s, f.done ⟨output, branch⟩)
      else none
  | .call out, .walking f true =>
      if f.node.type ∈ [.tool, .action] then
        some ({ s with log := s.log ++ [⟨none, f.node.id, none⟩] },
          if out.isError then .finishing .failed else f.done ⟨out.output, none⟩)
      else none
  | .ask q, .walking f true =>
      if f.node.type ∈ [.tool, .action] then
        some ({ s with rows := s.rows ++ [.pending] },
          .parking (addApproval f.st s.rows.length f.node.id none q))
      else none
  | .enter prompt, .walking f _ =>
      if f.node.type = .agent then
        let loop := (f.st.agent.lookup f.node.id).getD (initialState prompt)
        some (s, if loop.waits then
            .parking { f.st with agent := Record.set f.st.agent f.node.id loop }
          else .modelling f loop.resume false)
      else none
  | .respond r, .modelling f loop true => some (reply s f loop r)
  | .settle i how, .turn f loop calls =>
      match calls[i]? with
      | some (u, none) => some (settleCall s f loop calls i u how)
      | _ => none
  | .endTurn, .turn f loop calls =>
      (outcomes calls).map fun calls =>
        (s, if turnPending calls = [] then .modelling f (loop.answer calls) false
          else .parking { f.st with
            agent := Record.set f.st.agent f.node.id (loop.pause calls) })
  | .checkpoint, .saving f res => some ({ s with stored := some f.st }, f.leave graph res)
  | .park ms, .parking st => some (s.park st ms, .idle)
  | .finish, .finishing ending => some (s.finish ending, .idle)
  | _, _ => none

/-! ## Decisions -/

/-- What `approveCall` does with the run it read. -/
def readForApproval (s : Shared) (a : ℕ) : Pc :=
  match (if s.status = .waitingApproval then s.stored else none).bind fun st =>
      (st.approvals.lookup a).map fun e => (st, e) with
  | some (st, e) => .approving a st e false
  | none => .releasing (some (a, true))

/-- The write at the end of `approveCall`. -/
def storeApproved (s : Shared) (a : ℕ) (st : RunState) (e : PendingApproval) (out : ToolOutput) :
    Shared :=
  { (match approvedState st a e out with
    | none => s.failWaiting
    | some st' => { s with
        status := if st'.approvals = [] then .queued else .waitingApproval
        stored := some st' }) with inFlight := none }

def expireOpen (rows : List ApprovalStatus) : List ApprovalStatus :=
  rows.map fun r => if r = .pending then .expired else r

/-- An approval still records its outcome in the row; a denial has done so. -/
def afterRelease : Option (ℕ × Bool) → Pc
  | some (a, ok) => .recording a ok
  | none => .idle

/-- The steps of `approve` and `deny`. -/
def decideStep (p : ℕ) (s : Shared) : Act → Pc → Option (Shared × Pc)
  | .approve a late, .idle =>
      if s.rows[a]? = some .pending then some (s, if late then .late a else .locking .approve a)
      else none
  | .deny a late, .idle =>
      if s.rows[a]? = some .pending then some (s, if late then .late a else .denying a) else none
  | .expireLate, .late a => some ({ s with rows := s.rows.set a .expired }, .idle)
  | .storeDenial, .denying a => some ({ s with rows := s.rows.set a .denied }, .locking .deny a)
  | .acquire, .locking d a =>
      if s.lock = none then some ({ s with lock := some p }, .held d a) else none
  | .busy, .locking d a =>
      -- after ten seconds without the lock; a denial only logs the error
      if s.lock = none then none
      else some (s, if d = .approve then .recording a false else .idle)
  | .readRun, .held .approve a => some (s, readForApproval s a)
  | .readRun, .held .deny a =>
      some (s, if s.status = .waitingApproval then .failing a else .releasing none)
  | .guard, .approving a st e _ =>
      some (s, if s.status = .cancelled then .releasing (some (a, false))
        else .approving a st e true)
  | .throws, .approving a _ _ _ => some (s, .releasing (some (a, false)))
  | .runTool out, .approving a st e true =>
      some ({ s with log := s.log ++ [⟨some a, e.nodeId, e.toolUseId⟩], inFlight := some a },
        .ran a st e out)
  | .store, .ran a st e out => some (storeApproved s a st e out, .releasing (some (a, true)))
  | .failRun, .failing _ => some (s.fail, .expiring true)
  | .expireRows, .expiring true => some ({ s with rows := expireOpen s.rows }, .releasing none)
  | .release, .releasing r => some ({ s with lock := none }, afterRelease r)
  | .record, .recording a ok =>
      some ({ s with rows := s.rows.set a (if ok then .approved else .failed) }, .idle)
  | _, _ => none

/-! ## Cancelling and the jobs -/

/-- The steps of `cancel`, `failExpiredApprovals` and the expiry job. -/
def jobStep (s : Shared) : Act → Pc → Option (Shared × Pc)
  | .cancel, .idle =>
      if s.status.terminal then none else some ({ s with status := .cancelled }, .expiring false)
  | .expireRows, .expiring false => some ({ s with rows := expireOpen s.rows }, .idle)
  | .scan, .idle => if s.status = .waitingApproval then some (s, .scanned) else none
  | .count overdue, .scanned =>
      some (s, if s.rows.zipIdx.any fun r => r.1 = .pending ∧ overdue r.2 = false then .idle
        else .overdue)
  | .failRun, .overdue => some (s.failWaiting, .idle)
  | .expire overdue, .idle =>
      some ({ s with rows := s.rows.zipIdx.map fun r =>
        if r.1 = .pending ∧ overdue r.2 then .expired else r.1 }, .idle)
  | _, _ => none

/-- One step of caller `p`. The three groups share no action in one place. -/
def move (graph : Graph) (p : ℕ) (s : Shared) (a : Act) (c : Pc) : Option (Shared × Pc) :=
  match executeStep graph p s a c, decideStep p s a c with
  | some r, _ => some r
  | none, some r => some r
  | none, none => jobStep s a c

abbrev RunWorld := World Shared Pc

def step (graph : Graph) : RunWorld → ℕ × Act → RunWorld := callerStep (move graph)

/-- The run as `create` leaves it. -/
def start : RunWorld := ⟨{ status := .queued, stored := some {} }, fun _ => .idle⟩

theorem move_cases {graph : Graph} {p : ℕ} {s s' : Shared} {a : Act} {c c' : Pc}
    (h : move graph p s a c = some (s', c')) :
    executeStep graph p s a c = some (s', c') ∨ decideStep p s a c = some (s', c') ∨
      jobStep s a c = some (s', c') := by
  unfold move at h
  cases he : executeStep graph p s a c with
  | some r => exact .inl (by simpa [he] using h)
  | none =>
    cases hd : decideStep p s a c with
    | some r => exact .inr (.inl (by simpa [he, hd] using h))
    | none => exact .inr (.inr (by simpa [he, hd] using h))

/-! ## Places -/

/-- The caller has claimed the run and not left it. -/
def Pc.live : Pc → Bool
  | .claimed | .walking _ _ | .modelling _ _ _ | .turn _ _ _ | .saving _ _ | .parking _
  | .finishing _ => true
  | _ => false

/-- The caller holds the run lock. -/
def Pc.holds : Pc → Bool
  | .held _ _ | .approving _ _ _ _ | .ran _ _ _ _ | .failing _ | .expiring true
  | .releasing _ => true
  | _ => false

/-- The caller read a waiting run and may still write it. -/
def Pc.engaged : Pc → Bool
  | .approving _ _ _ _ | .ran _ _ _ _ | .failing _ => true
  | _ => false

/-- A write of `cancel` or of `failExpiredApprovals` to the run. -/
def Act.stops : Act → Pc → Bool
  | .cancel, .idle | .failRun, .overdue => true
  | _, _ => false

end Prgd.RunMachine
