import Prgd.Workflow

/-!
# The checkpoint of a run

The JSON state of a `ConnectRun` and the pure parts of the code that works on
it: the walk from one node to the next, the turns of the agent loop, and what
an approved call changes. The concurrent machine of a run and the comparison of
paused with unpaused runs are both built from these functions.

Approval ids are the indices in which the rows of the run were created. The
specification and the trigger never change during a run and are not part of
the state here.
-/
namespace Prgd.Checkpoint
open Workflow

/-- `done[id]` of a finished node. -/
structure Done where
  output : JsValue
  branch : Option Bool := none
  deriving DecidableEq

structure ToolResult where
  content : Text
  isError : Bool
  deriving DecidableEq

/-- What `runTool` returns; an error also has its model facing text. -/
structure ToolOutput where
  output : JsValue
  content : Text
  error : Option Text
  deriving DecidableEq

def ToolOutput.isError (out : ToolOutput) : Bool := out.error.isSome

structure ToolUse where
  id : Text
  name : Text
  input : JsValue
  deriving DecidableEq

structure PendingCall where
  toolUseId : Text
  name : Text
  input : JsValue
  approvalId : ℕ
  result : Option ToolResult := none
  deriving DecidableEq

structure AgentLoopState where
  messages : List JsValue
  results : List (Text × ToolResult) := []
  pending : List PendingCall := []
  order : List Text := []
  pauses : ℕ := 0
  deriving DecidableEq

structure PendingApproval where
  nodeId : Text
  toolUseId : Option Text
  toolId : Text
  toolName : Text
  input : JsValue
  summary : Text
  deriving DecidableEq

structure RunState where
  done : List (Text × Done) := []
  agent : List (Text × AgentLoopState) := []
  approvals : List (ℕ × PendingApproval) := []
  execMs : ℕ := 0
  segments : ℕ := 0
  deriving DecidableEq

/-! ## Walking -/

/-- The members of `Object.prototype` that pass as node ids. -/
def inheritedNames : List Text :=
  ["constructor".toList, "toString".toList, "valueOf".toList, "hasOwnProperty".toList,
    "isPrototypeOf".toList, "propertyIsEnumerable".toList, "toLocaleString".toList]

/-- `state.done[id]`. An inherited member is truthy and has neither an output
nor a branch. -/
def doneOf (st : RunState) (id : Text) : Option Done :=
  match st.done.lookup id with
  | some d => some d
  | none => if id ∈ inheritedNames then some ⟨.undefined, none⟩ else none

/-- The local variables of `walk`: the active nodes, the outputs the templates
see, and the last output. -/
structure Pos where
  active : List Text
  steps : List (Text × JsValue)
  last : JsValue

/-- `String(res.branch)`. -/
def branchText : Option Bool → Text
  | some true => "true".toList
  | some false => "false".toList
  | none => "undefined".toList

/-- The nodes that a finished node activates. -/
def targets (graph : Graph) (node : GraphNode) (res : Done) : List Text :=
  (graph.edges.filter fun e => e.source = node.id ∧
    (node.type = .condition → e.sourceHandle = some (branchText res.branch))).map GraphEdge.target

/-- The end of one round of the walk. -/
def Pos.visit (graph : Graph) (node : GraphNode) (res : Done) (pos : Pos) : Pos where
  active := pos.active ++ targets graph node res
  steps := Record.set pos.steps node.id res.output
  last := res.output

/-- Later nodes of one id replace earlier ones in the map of the walk. -/
def byId (graph : Graph) (id : Text) : Option GraphNode :=
  graph.nodes.reverse.find? fun n => n.id == id

/-- Where the walk gets without executing anything: to its output, or to a node
that is not done. An id without a node makes the code throw. -/
inductive Stop where
  | finished (output : JsValue)
  | node (node : GraphNode) (rest : List Text) (pos : Pos)
  | broken

def advance (graph : Graph) (done : Text → Option Done) : List Text → Pos → Stop
  | [], pos => .finished pos.last
  | id :: rest, pos =>
      if id ∉ pos.active then advance graph done rest pos
      else match byId graph id with
        | none => .broken
        | some node =>
            match done id with
            | none => .node node rest pos
            | some res =>
                if node.type = .finish then .finished res.output
                else advance graph done rest (pos.visit graph node res)

/-- The start of `walk`: the order and the trigger. -/
def walkStart (graph : Graph) (st : RunState) : Option (List Text × Pos) := do
  let order ← topoOrder graph
  let trigger ← graph.nodes.find? fun n => n.type = .trigger
  return (order, ⟨[trigger.id], st.done.map fun d => (d.1, d.2.output), .null⟩)

/-- A node is done: its output is kept and its conversation dropped. -/
def finishNode (st : RunState) (id : Text) (res : Done) : RunState :=
  { st with done := Record.set st.done id res, agent := Record.erase st.agent id }

/-- The walk only stops at nodes that are not done. -/
theorem advance_node {graph : Graph} {done : Text → Option Done} {order rest : List Text}
    {pos pos' : Pos} {node : GraphNode}
    (h : advance graph done order pos = .node node rest pos') : done node.id = none := by
  induction order generalizing pos with
  | nil => simp [advance] at h
  | cons id order ih =>
    rw [advance] at h
    by_cases hact : id ∈ pos.active
    · rw [if_neg (not_not.mpr hact)] at h
      cases hid : byId graph id with
      | none => simp [hid] at h
      | some n =>
        have hn : n.id = id := by simpa using List.find?_some hid
        cases hd : done id with
        | none =>
          simp only [hid, hd, Stop.node.injEq] at h
          rw [← h.1, hn]
          exact hd
        | some res =>
          simp only [hid, hd] at h
          split_ifs at h
          exact ih h
    · rw [if_pos hact] at h
      exact ih h

/-! ## The agent loop -/

def initialState (prompt : Text) : AgentLoopState where
  messages := [.obj [("role".toList, .str "user".toList), ("content".toList,
    .arr [.obj [("type".toList, .str "text".toList), ("text".toList, .str prompt)]])]]

def resultBlock (id : Text) (r : ToolResult) : JsValue :=
  .obj ([("type".toList, .str "tool_result".toList), ("tool_use_id".toList, .str id),
    ("content".toList, .str r.content)] ++
    if r.isError then [("is_error".toList, .bool true)] else [])

def userMessage (content : List JsValue) : JsValue :=
  .obj [("role".toList, .str "user".toList), ("content".toList, .arr content)]

/-- Some pending call has no result. -/
def AgentLoopState.waits (loop : AgentLoopState) : Bool := loop.pending.any fun p => p.result = none

/-- The resumption of a paused turn whose calls all have results: one message
with the results in the order of the calls. -/
def AgentLoopState.resume (loop : AgentLoopState) : AgentLoopState :=
  if loop.pending = [] then loop
  else
    let byId := loop.pending.foldl (fun m p => match p.result with
      | some r => Record.set m p.toolUseId r
      | none => m) loop.results
    { loop with
      messages := loop.messages ++
        [userMessage (loop.order.filterMap fun id => (byId.lookup id).map (resultBlock id))]
      pending := [], results := [], order := [] }

inductive ToolOutcome where
  | result (r : ToolResult)
  | approval (approvalId : ℕ)
  deriving DecidableEq

def turnResults (calls : List (ToolUse × ToolOutcome)) : List (Text × ToolResult) :=
  calls.filterMap fun c => match c.2 with
    | .result r => some (c.1.id, r)
    | .approval _ => none

def turnPending (calls : List (ToolUse × ToolOutcome)) : List PendingCall :=
  calls.filterMap fun c => match c.2 with
    | .result _ => none
    | .approval a => some ⟨c.1.id, c.1.name, c.1.input, a, none⟩

/-- The paused turn that is saved when some call needs approval. -/
def AgentLoopState.pause (loop : AgentLoopState) (calls : List (ToolUse × ToolOutcome)) :
    AgentLoopState :=
  { loop with
    results := turnResults calls, pending := turnPending calls, order := calls.map fun c => c.1.id }

/-- The turn with all its results. -/
def AgentLoopState.answer (loop : AgentLoopState) (calls : List (ToolUse × ToolOutcome)) :
    AgentLoopState :=
  { loop with messages := loop.messages ++
    [userMessage ((turnResults calls).map fun r => resultBlock r.1 r.2)] }

/-! ## An approved call -/

/-- The tool call of the model behind an entry. An empty id counts as none. -/
def PendingApproval.call (e : PendingApproval) : Option Text := e.toolUseId.filter (· ≠ [])

/-- `pending.find(…)` with the result filled in. -/
def fillResult (id : Text) (r : ToolResult) : List PendingCall → List PendingCall
  | [] => []
  | p :: ps => if p.toolUseId = id then { p with result := some r } :: ps else p :: fillResult id r ps

def setResult (st : RunState) (nodeId id : Text) (r : ToolResult) : RunState :=
  match st.agent.lookup nodeId with
  | none => st
  | some loop =>
      { st with agent :=
        Record.set st.agent nodeId { loop with pending := fillResult id r loop.pending } }

/-- The state `approveCall` writes after the tool has run; `none` when the call
of a node failed, which fails the run instead. -/
def approvedState (st : RunState) (a : ℕ) (e : PendingApproval) (out : ToolOutput) :
    Option RunState :=
  match e.call with
  | some id =>
      let st := setResult st e.nodeId id ⟨out.content, out.isError⟩
      some { st with approvals := Record.erase st.approvals a }
  | none =>
      if out.isError then none
      else some { st with
        done := Record.set st.done e.nodeId ⟨out.output, none⟩
        approvals := Record.erase st.approvals a }

@[simp] theorem setResult_approvals (st : RunState) (nodeId id : Text) (r : ToolResult) :
    (setResult st nodeId id r).approvals = st.approvals := by
  unfold setResult
  split <;> rfl

@[simp] theorem setResult_done (st : RunState) (nodeId id : Text) (r : ToolResult) :
    (setResult st nodeId id r).done = st.done := by
  unfold setResult
  split <;> rfl

/-- The entry of the call is gone and every other one is kept. -/
theorem approvedState_approvals {st st' : RunState} {a : ℕ} {e : PendingApproval}
    {out : ToolOutput} (h : approvedState st a e out = some st') :
    st'.approvals = Record.erase st.approvals a := by
  unfold approvedState at h
  cases hc : e.call with
  | some id =>
    simp only [hc, Option.some.injEq] at h
    rw [← h]
    simp
  | none =>
    simp only [hc] at h
    split_ifs at h
    rw [← Option.some.inj h]

/-- A call of the model leaves the finished nodes alone; the call of a node
finishes it. -/
theorem approvedState_done {st st' : RunState} {a : ℕ} {e : PendingApproval} {out : ToolOutput}
    (h : approvedState st a e out = some st') :
    e.toolUseId.isSome ∧ st'.done = st.done ∨
      st'.done = Record.set st.done e.nodeId ⟨out.output, none⟩ := by
  unfold approvedState at h
  cases hc : e.call with
  | some id =>
    simp only [hc, Option.some.injEq] at h
    refine .inl ⟨?_, by rw [← h]; simp⟩
    cases hu : e.toolUseId with
    | none => simp [PendingApproval.call, hu] at hc
    | some _ => rfl
  | none =>
    simp only [hc] at h
    split_ifs at h
    exact .inr (by rw [← Option.some.inj h])

end Prgd.Checkpoint
