import Prgd.Checkpoint
import Prgd.JsonColumn

/-!
# A whole run with fixed outcomes

The run of a workflow as one function, for comparing runs with each other: the
node executors, `walk`, `park` through the JSON column, `approveCall`, and the
run that parks and resumes until it ends. What agents, tools and actions do is
fixed by `Setting`: an executor's result is a function of the tool and its
input, and an agent's of its node and prompt. Redaction is the identity, time
does not pass, and nobody cancels.

Every executed node leaves an event with the inputs that were rendered for it.
`Progress.steps` counts the recorded steps, which is what the step limit looks
at: a request for approval and its decision are steps too.
-/
namespace Prgd.Walk
open Workflow Checkpoint Template Expression JsonColumn

structure ToolSpec where
  id : Text
  name : Text
  kind : Text
  connectionId : Option Text
  enabled : Bool
  config : JsValue
  deriving DecidableEq

structure RunFailure where
  code : Text
  message : Text

/-- What an agent does on its way: it passes a guard, or it records a step with
the tokens that it used. -/
inductive Tick where
  | guard
  | step (tokens : ℕ)

/-- The conversation of an agent without approvals. Every guard of an agent that
answers is followed by the step it guards. -/
structure AgentOutcome where
  ticks : List Tick
  answer : Except RunFailure JsValue
  paid : ∀ v, answer = .ok v → ∀ before after, ticks = before ++ .guard :: after →
    ∃ tokens, .step tokens ∈ after

structure Limits where
  maxSteps : ℕ
  maxTokensPerRun : ℕ

def maxSafeInteger : ℕ := 2 ^ 53 - 1

structure Setting where
  graph : Graph
  limits : Limits
  /-- At most two million tokens can be set. -/
  tokensBounded : limits.maxTokensPerRun ≤ 2000000
  trigger : JsValue
  vars : Fields
  secrets : Fields
  tools : List ToolSpec
  /-- Tool ids are made by the database. -/
  toolIds : ∀ t ∈ tools, Text.startsWith t.id "action:".toList = false
  lower : Text → Text
  clip : Text → Text
  summary : ToolSpec → JsValue → Text
  schemaErrors : ToolSpec → JsValue → Option Text
  knownKind : Text → Bool
  ownsConnection : Text → Bool
  execute : ToolSpec → JsValue → Except Text JsValue
  agent : GraphNode → Text → AgentOutcome

/-- An executed node with what was rendered for it. -/
inductive Event where
  | trigger (node : Text)
  | agent (node prompt : Text)
  | condition (node expression : Text) (branch : Bool)
  | call (node : Text) (tool : ToolSpec) (input : JsValue)
  | output (node : Text) (value : JsValue)
  deriving DecidableEq

structure Progress where
  st : RunState := {}
  steps : ℕ := 0
  tokens : ℕ := 0
  /-- The approval rows created so far. -/
  rows : ℕ := 0
  trace : List Event := []

def Progress.addStep (s : Progress) : Progress := { s with steps := s.steps + 1 }

/-- A node executes with this event, and records a step. -/
def Progress.record (s : Progress) (e : Event) : Progress :=
  { s with steps := s.steps + 1, trace := s.trace ++ [e] }

/-- The end of one node. -/
inductive NodeEnd where
  | done (res : Done) (s : Progress)
  | waiting (s : Progress)
  | failed (e : RunFailure) (s : Progress)

/-! ## Nodes -/

def Limits.guard (limits : Limits) (s : Progress) : Option RunFailure :=
  if limits.maxSteps ≤ s.steps then
    some ⟨"step_limit".toList, "The run reached its limit of ".toList ++
      JsNumber.digits limits.maxSteps ++ " steps.".toList⟩
  else if limits.maxTokensPerRun ≤ s.tokens then
    some ⟨"token_limit".toList, "The run used its limit of ".toList ++
      JsNumber.digits limits.maxTokensPerRun ++ " tokens.".toList⟩
  else none

def guarded (limits : Limits) (s : Progress) (next : NodeEnd) : NodeEnd :=
  match limits.guard s with
  | some e => .failed e s
  | none => next

/-- An error of `render` is no `RunFailure`. -/
def rendered (r : Except Text JsValue) (s : Progress) (next : JsValue → NodeEnd) : NodeEnd :=
  match r with
  | .error m => .failed ⟨"run_error".toList, m⟩ s
  | .ok v => next v

section
variable (env : Setting)

/-- The template context over the outputs of the finished steps. -/
def context (steps : List (Text × JsValue)) : TemplateContext where
  trigger := env.trigger
  steps := .obj (steps.map fun s => (s.1, .obj [("output".toList, s.2)]))
  vars := some env.vars
  secrets := some env.secrets

/-- `templateCtx` -/
def templateCtx (st : RunState) : TemplateContext :=
  context env (st.done.map fun d => (d.1, d.2.output))

def triggerNode (node : GraphNode) (s : Progress) : NodeEnd :=
  guarded env.limits s (.done ⟨env.trigger, none⟩ (s.record (.trigger node.id)))

def simpleNode (node : GraphNode) (output : JsValue) (s : Progress) : NodeEnd :=
  guarded env.limits s (.done ⟨output, none⟩ (s.record (.output node.id output)))

def orEmpty (v : JsValue) : JsValue := if v.isNullish then .obj [] else v

def textOf (v : JsValue) : Text := if v.isNullish then [] else v.toStr

def conditionNode (node : GraphNode) (t : TemplateContext) (s : Progress) : NodeEnd :=
  let expression := textOf (node.field "expression")
  guarded env.limits s <|
    match evaluate env.lower expression t with
    | .error m => .failed ⟨"invalid_condition".toList,
        "Condition ".toList ++ node.id ++ ": ".toList ++ m⟩ s.addStep
    | .ok b => .done ⟨.obj [("result".toList, .bool b)], some b⟩
        (s.record (.condition node.id expression b))

def runTicks (limits : Limits) : List Tick → Progress → Option RunFailure × Progress
  | [], s => (none, s)
  | .guard :: ts, s =>
      match limits.guard s with
      | some e => (some e, s)
      | none => runTicks limits ts s
  | .step n :: ts, s => runTicks limits ts { s.addStep with tokens := s.tokens + n }

def agentNode (node : GraphNode) (t : TemplateContext) (s : Progress) : NodeEnd :=
  let prompt := renderText (textOf (node.field "prompt")) t .prompt
  let res := env.agent node prompt
  let ticked := runTicks env.limits res.ticks { s with trace := s.trace ++ [.agent node.id prompt] }
  match ticked.1, res.answer with
  | some e, _ | none, .error e => .failed e ticked.2
  | none, .ok v => .done ⟨v, none⟩ ticked.2

/-- `runTool`: its guard, the call and its step. -/
def runTool (limits : Limits) (tool : ToolSpec) (input : JsValue) (nodeId : Text) (s : Progress) :
    Except RunFailure (ToolOutput × Progress) :=
  match limits.guard s with
  | some e => .error e
  | none =>
      let s := s.record (.call nodeId tool input)
      match env.execute tool input with
      | .ok v =>
          let output := if v.isNullish then .null else v
          .ok (⟨output, env.clip (output.stringify.getD "null".toList), none⟩, s)
      | .error m =>
          .ok (⟨.null, "Tool ".toList ++ tool.name ++ " failed: ".toList ++ m, some m⟩, s)

/-- The end of `toolNode` and of `actionNode`. -/
def callNode (code : String) (tool : ToolSpec) (input : JsValue) (nodeId : Text) (s : Progress) :
    NodeEnd :=
  match runTool env env.limits tool input nodeId s with
  | .error e => .failed e s
  | .ok (out, s) =>
      match out.error with
      | some m => .failed ⟨code.toList, tool.name ++ ": ".toList ++ m⟩ s
      | none => .done ⟨out.output, none⟩ s

def requestApproval (tool : ToolSpec) (nodeId : Text) (display : JsValue) (s : Progress) : NodeEnd :=
  let e : PendingApproval := ⟨nodeId, none, tool.id, tool.name, display, env.summary tool display⟩
  guarded env.limits s (.waiting { s.addStep with
    rows := s.rows + 1, st := { s.st with approvals := Record.set s.st.approvals s.rows e } })

/-- The call of a node, or the request for it. -/
def askOrCall (ask : Bool) (code : String) (tool : ToolSpec) (input display : JsValue)
    (nodeId : Text) (s : Progress) : NodeEnd :=
  if ask then requestApproval env tool nodeId display s
  else callNode env code tool input nodeId s

def toolInput (node : GraphNode) (t : TemplateContext) (mode : RenderMode) : Except Text JsValue :=
  render (orEmpty (node.field "input")) t mode 0

def toolNode (ask : Bool) (node : GraphNode) (t : TemplateContext) (s : Progress) : NodeEnd :=
  match env.tools.find? fun x => JsValue.str x.id = node.field "toolId" with
  | none => .failed ⟨"tool_missing".toList,
      "Node ".toList ++ node.id ++ " uses a tool that no longer exists".toList⟩ s
  | some tool =>
      if tool.enabled = false then .failed ⟨"tool_disabled".toList,
        "Node ".toList ++ node.id ++ " uses the disabled tool ".toList ++ tool.name⟩ s
      else rendered (toolInput node t .tool) s fun input =>
        rendered (toolInput node t .prompt) s fun display =>
          match env.schemaErrors tool input with
          | some problems => guarded env.limits s (.failed ⟨"invalid_tool_input".toList,
              "Node ".toList ++ node.id ++ ": ".toList ++ problems⟩ s.addStep)
          | none => askOrCall env ask "tool_failed" tool input display node.id s

/-- A property of a rendered object. -/
def member (v : JsValue) (key : String) : JsValue := (v.ownGet key.toList).getD .undefined

def actionConfig (node : GraphNode) : JsValue :=
  match node.field "config" with
  | .obj fields => .obj fields
  | _ => .obj []

def actionTool (node : GraphNode) (t : TemplateContext) (mode : RenderMode) :
    Except Text (ToolSpec × JsValue) :=
  (render (actionConfig node) t mode 0).map fun config =>
    (⟨"action:".toList ++ node.id, node.id, textOf (node.field "kind"),
      match member config "connectionId" with
      | .str c => some c
      | _ => none, true, config⟩,
      match member config "input" with
      | .obj fields => .obj fields
      | _ => config)

def actionNode (ask : Bool) (node : GraphNode) (t : TemplateContext) (s : Progress) : NodeEnd :=
  match actionTool node t .tool, actionTool node t .prompt with
  | .error m, _ | _, .error m => .failed ⟨"run_error".toList, m⟩ s
  | .ok (tool, input), .ok (_, display) =>
      if env.knownKind tool.kind = false then .failed ⟨"invalid_workflow".toList,
        "Action ".toList ++ node.id ++ " has an unknown kind ".toList ++ tool.kind⟩ s
      else if (tool.connectionId.filter fun c => c ≠ []).any fun c => !env.ownsConnection c then
        .failed ⟨"connection_missing".toList, "Action ".toList ++ node.id ++
          " uses a connection that does not exist".toList⟩ s
      else askOrCall env ask "action_failed" tool input display node.id s

/-- `this.nodes[node.type]` -/
def executeNode (ask : Text → Bool) (node : GraphNode) (t : TemplateContext) (last : JsValue)
    (s : Progress) : NodeEnd :=
  match node.type with
  | .trigger => triggerNode env node s
  | .agent => agentNode env node t s
  | .tool => toolNode env (ask node.id) node t s
  | .condition => conditionNode env node t s
  | .action => actionNode env (ask node.id) node t s
  | .transform => rendered (render (node.field "template") t .prompt 0) s fun v =>
      simpleNode env node v s
  | .finish =>
      if node.field "output" = .undefined then simpleNode env node last s
      else rendered (render (node.field "output") t .prompt 0) s fun v => simpleNode env node v s

/-! ## Segments -/

/-- The end of one segment of a run. -/
inductive SegmentEnd where
  | finished (output : JsValue) (s : Progress)
  | waiting (s : Progress)
  | failed (e : RunFailure) (s : Progress)

def SegmentEnd.progress : SegmentEnd → Progress
  | .finished _ s | .waiting s | .failed _ s => s

/-- The loop of `walk`. An id without a node makes the code throw. -/
def walk (ask : Text → Bool) : List Text → Pos → Progress → SegmentEnd
  | [], pos, s => .finished pos.last s
  | id :: rest, pos, s =>
      if id ∉ pos.active then walk ask rest pos s
      else match byId env.graph id with
        | none => .failed ⟨"run_error".toList, []⟩ s
        | some node =>
            match doneOf s.st id with
            | some res =>
                if node.type = .finish then .finished res.output s
                else walk ask rest (pos.visit env.graph node res) s
            | none =>
                match executeNode env ask node (context env pos.steps) pos.last s with
                | .failed e s => .failed e s
                | .waiting s => .waiting s
                | .done res s =>
                    let s := { s with st := finishNode s.st id res }
                    if node.type = .finish then .finished res.output s
                    else walk ask rest (pos.visit env.graph node res) s

/-- `execute` after the claim, up to `park` or `finish`. -/
def executeRun (ask : Text → Bool) (s : Progress) : SegmentEnd :=
  match walkStart env.graph s.st with
  | none => .failed ⟨"invalid_workflow".toList, "The workflow has a cycle".toList⟩ s
  | some (order, pos) => walk env ask order pos s

/-! ## Approvals -/

def storeDone (done : List (Text × Done)) : List (Text × Done) :=
  (done.map fun d => (d.1, { d.2 with output := column d.2.output })).insertionSort
    fun d e => keyLe d.1 e.1

/-- A checkpoint, written and read back. No conversation is open. -/
def store (st : RunState) : RunState :=
  { st with
    done := storeDone st.done
    approvals := st.approvals.map fun a => (a.1, { a.2 with input := column a.2.input }) }

def park (s : Progress) : Progress :=
  { s with st := store { s.st with segments := s.st.segments + 1 } }

/-- The limits of a call that a person approved. -/
def raised (limits : Limits) (steps : ℕ) : Limits where
  maxSteps := max limits.maxSteps (steps + 2)
  maxTokensPerRun := maxSafeInteger

inductive ApprovalEnd where
  | resumed (s : Progress)
  | failed (e : RunFailure) (s : Progress)
  /-- `approveCall` throws and the run keeps waiting. -/
  | thrown (s : Progress)

/-- The tool and the input of an approved call, rendered again. -/
def approvedCall (st : RunState) (e : PendingApproval) : Option (ToolSpec × JsValue) :=
  let t := templateCtx env st
  let node := env.graph.nodes.find? fun n => n.id == e.nodeId
  if Text.startsWith e.toolId "action:".toList then
    node.bind fun node => (actionTool node t .tool).toOption
  else do
    let input ← match e.call with
      | some _ => some e.input
      | none => (render (orEmpty ((node.map fun n => n.field "input").getD .undefined)) t .tool 0).toOption
    let tool ← env.tools.find? fun x => x.id = e.toolId
    return (tool, input)

/-- `approveCall` for the request `a` of a parked run. -/
def approveCall (a : ℕ) (s : Progress) : ApprovalEnd :=
  match s.st.approvals.lookup a with
  | none => .thrown s
  | some e =>
      match approvedCall env s.st e with
      | none => .thrown s
      | some (tool, input) =>
          let s := s.addStep
          match runTool env (raised env.limits s.steps) tool input e.nodeId s with
          | .error _ => .thrown s
          | .ok (out, s) =>
              match approvedState s.st a e out with
              | none => .failed ⟨"tool_failed".toList,
                  tool.name ++ ": ".toList ++ out.error.getD []⟩ s
              | some st => .resumed { s with st := store st }

/-! ## Runs -/

/-- The run goes on as long as it parks: its request is approved and the next
segment starts. -/
def goOn (ask : Text → Bool) : ℕ → SegmentEnd → SegmentEnd
  | rounds + 1, .waiting s =>
      match approveCall env (s.rows - 1) (park s) with
      | .resumed s => goOn ask rounds (executeRun env ask s)
      | .failed e s => .failed e s
      | .thrown s => .waiting s
  | _, r => r

/-- The run in which the nodes of `ask` park and are approved. Every round
finishes a node. -/
def pausedRun (ask : Text → Bool) : SegmentEnd :=
  goOn env ask env.graph.nodes.length (executeRun env ask {})

/-- The run in which nothing asks. -/
def directRun : SegmentEnd := executeRun env (fun _ => false) {}

end

/-- What is compared: the executed nodes with their inputs and branches, and the
output of a run that succeeds. -/
inductive Ending where
  | succeeded (output : JsValue)
  | failed
  | waiting
  deriving DecidableEq

def SegmentEnd.observe : SegmentEnd → List Event × Ending
  | .finished output s => (s.trace, .succeeded output)
  | .waiting s => (s.trace, .waiting)
  | .failed _ s => (s.trace, .failed)

end Prgd.Walk
