import Prgd.Walk

/-!
# A direct and a paused run side by side

The run in which nothing asks, and the run that parks at some tool and action
nodes, compared node by node. `Matches` relates their progress at one point of
the walk: the finished nodes and the trace are the same, and the paused run has
used two more steps for each approved call. A node that does not ask keeps this
relation, as long as the paused run has room for its steps.

A node looks at the outputs of earlier nodes through its references only. The
two runs agree on every reference that names one step; the steps of a resumed
run come in another order, and before the walk gets to them.
-/
namespace Prgd.Lockstep
open Workflow Checkpoint Template Expression JsonColumn Walk

/-! ## References -/

def segmentKey : Segment → Text
  | .name key => key
  | .index n => n.toText

/-- A path that leaves `steps` alone, or goes on to one step of its own name. -/
def namesStep (path : Text) : Bool :=
  match parsePath (Text.trim path) with
  | some (.name root :: rest) => root ≠ "steps".toList || match rest with
      | [] => false
      | part :: _ => segmentKey part ∉ inheritedNames
  | _ => true

/-- The references of a node. -/
def nodeRefs (node : GraphNode) : List Text :=
  match node.type with
  | .trigger => []
  | .agent => refs 0 (textOf (node.field "prompt"))
  | .tool => valueRefs (orEmpty (node.field "input"))
  | .condition => expressionRefs (textOf (node.field "expression"))
  | .action => valueRefs (actionConfig node)
  | .transform => valueRefs (node.field "template")
  | .finish => valueRefs (node.field "output")

/-- The outputs agree, inherited names apart. -/
def StepsAgree (a b : List (Text × JsValue)) : Prop :=
  ∀ id, id ∉ inheritedNames → a.lookup id = b.lookup id

theorem context_ownGet (env : Setting) (steps : List (Text × JsValue)) (key : Text) :
    (context env steps).steps.ownGet key =
      (steps.lookup key).map fun v => .obj [("output".toList, v)] := by
  simp only [context, JsValue.ownGet, JsValue.field]
  induction steps with
  | nil => rfl
  | cons s steps ih =>
    rw [List.map_cons, List.find?_cons, List.lookup_cons]
    by_cases hs : s.1 = key
    · subst hs
      simp
    · rw [beq_false_of_ne hs, beq_false_of_ne (Ne.symm hs)]
      exact ih

theorem resolvePath_agree (env : Setting) {a b : List (Text × JsValue)} (h : StepsAgree a b)
    {path : Text} (hpath : namesStep path) (mode : RenderMode) :
    resolvePath (context env a) path mode = resolvePath (context env b) path mode := by
  unfold namesStep at hpath
  unfold resolvePath
  split
  · rename_i root rest heq
    simp only [heq] at hpath
    split_ifs with hv ht hs
    · rfl
    · rfl
    · cases rest with
      | nil => simp [hs] at hpath
      | cons part more =>
        have hown : segmentKey part ∉ inheritedNames := by
          rw [hs] at hpath
          simpa using hpath
        have hget : (context env a).steps.ownGet (segmentKey part) =
            (context env b).steps.ownGet (segmentKey part) := by
          rw [context_ownGet, context_ownGet, h _ hown]
        cases part with
        | name key =>
          simp only [segmentKey] at hget
          simp only [follow, hget]
        | index n =>
          simp only [segmentKey] at hget
          simp only [follow, hget]
    · rfl
    · rfl
  · rfl

theorem toolInput_congr {node : GraphNode} (hn : node.type = .tool) {c c' : TemplateContext}
    (h : ∀ path ∈ nodeRefs node, ∀ mode, resolvePath c path mode = resolvePath c' path mode)
    (mode : RenderMode) : toolInput node c mode = toolInput node c' mode := by
  simp only [nodeRefs, hn] at h
  exact render_congr fun path hp => h path hp mode

theorem actionTool_congr {node : GraphNode} (hn : node.type = .action) {c c' : TemplateContext}
    (h : ∀ path ∈ nodeRefs node, ∀ mode, resolvePath c path mode = resolvePath c' path mode)
    (mode : RenderMode) : actionTool node c mode = actionTool node c' mode := by
  simp only [nodeRefs, hn] at h
  unfold actionTool
  rw [render_congr fun path hp => h path hp mode]

/-- A node looks at its references only. -/
theorem executeNode_congr (env : Setting) (ask : Text → Bool) {node : GraphNode}
    {c c' : TemplateContext}
    (h : ∀ path ∈ nodeRefs node, ∀ mode, resolvePath c path mode = resolvePath c' path mode)
    (last : JsValue) (s : Progress) :
    executeNode env ask node c last s = executeNode env ask node c' last s := by
  unfold executeNode
  cases hn : node.type with
  | trigger => rfl
  | agent =>
    simp only [nodeRefs, hn] at h
    have hr := renderString_congr fun path hp => h path hp .prompt
    simp only [agentNode, renderText, hr]
  | tool => simp only [toolNode, toolInput_congr hn h]
  | condition =>
    simp only [nodeRefs, hn] at h
    have hr := evaluate_congr env.lower fun path hp => h path hp .prompt
    simp only [conditionNode, hr]
  | action => simp only [actionNode, actionTool_congr hn h]
  | transform =>
    simp only [nodeRefs, hn] at h
    have hr : ∀ depth, render (node.field "template") c .prompt depth =
        render (node.field "template") c' .prompt depth := fun depth =>
      render_congr fun path hp => h path hp .prompt
    simp only [hr]
  | finish =>
    simp only [nodeRefs, hn] at h
    have hr : ∀ depth, render (node.field "output") c .prompt depth =
        render (node.field "output") c' .prompt depth := fun depth =>
      render_congr fun path hp => h path hp .prompt
    simp only [hr]

/-! ## What a node leaves behind -/

def NodeEnd.progress : NodeEnd → Progress
  | .done _ s | .waiting s | .failed _ s => s

/-- A node adds steps and events, and finishes no node. -/
structure Within (s : Progress) (r : NodeEnd) : Prop where
  steps : s.steps ≤ (NodeEnd.progress r).steps
  trace : s.trace <+: (NodeEnd.progress r).trace
  done : (NodeEnd.progress r).st.done = s.st.done

theorem within_failed (e : RunFailure) (s : Progress) : Within s (.failed e s) :=
  ⟨le_refl _, List.prefix_refl _, rfl⟩

theorem within_guarded {limits : Limits} {s : Progress} {next : NodeEnd} (h : Within s next) :
    Within s (guarded limits s next) := by
  unfold guarded
  split
  · exact within_failed _ s
  · exact h

theorem within_rendered {r : Except Text JsValue} {s : Progress} {next : JsValue → NodeEnd}
    (h : ∀ v, Within s (next v)) : Within s (rendered r s next) := by
  unfold rendered
  split
  · exact within_failed _ s
  · exact h _

theorem within_record (res : Done) (s : Progress) (e : Event) : Within s (.done res (s.record e)) :=
  ⟨Nat.le_succ _, List.prefix_append _ _, rfl⟩

theorem runTicks_within (limits : Limits) (ts : List Tick) (s : Progress) :
    s.steps ≤ (runTicks limits ts s).2.steps ∧ (runTicks limits ts s).2.trace = s.trace ∧
      (runTicks limits ts s).2.st = s.st := by
  induction ts generalizing s with
  | nil => exact ⟨le_refl _, rfl, rfl⟩
  | cons tick ts ih =>
    cases tick with
    | guard =>
      simp only [runTicks]
      split
      · exact ⟨le_refl _, rfl, rfl⟩
      · exact ih s
    | step n =>
      obtain ⟨hs, ht, hst⟩ := ih { s.addStep with tokens := s.tokens + n }
      exact ⟨le_trans (Nat.le_succ _) hs, ht, hst⟩

section
variable (env : Setting)

theorem runTool_ok {limits : Limits} {tool : ToolSpec} {input : JsValue} {nodeId : Text}
    {s s' : Progress} {out : ToolOutput}
    (h : runTool env limits tool input nodeId s = .ok (out, s')) :
    limits.guard s = none ∧ s' = s.record (.call nodeId tool input) := by
  unfold runTool at h
  split at h
  · simp at h
  · rename_i hg
    refine ⟨hg, ?_⟩
    split at h
    all_goals exact (Prod.mk.inj (Except.ok.inj h)).2.symm

theorem within_callNode (code : String) (tool : ToolSpec) (input : JsValue) (nodeId : Text)
    (s : Progress) : Within s (callNode env code tool input nodeId s) := by
  unfold callNode
  split
  · exact within_failed _ s
  · rename_i out s' hrun
    obtain ⟨-, rfl⟩ := runTool_ok env hrun
    split
    all_goals exact ⟨Nat.le_succ _, List.prefix_append _ _, rfl⟩

theorem within_askOrCall (ask : Bool) (code : String) (tool : ToolSpec) (input display : JsValue)
    (nodeId : Text) (s : Progress) :
    Within s (askOrCall env ask code tool input display nodeId s) := by
  unfold askOrCall
  split_ifs
  · exact within_guarded ⟨Nat.le_succ _, List.prefix_refl _, rfl⟩
  · exact within_callNode env code tool input nodeId s

/-- The call that a tool or action node makes of a template context. -/
def Prepared (node : GraphNode) (t : TemplateContext) (tool : ToolSpec) (input : JsValue) : Prop :=
  node.type = .tool ∧ (env.tools.find? fun x => x.id = tool.id) = some tool ∧
      toolInput node t .tool = .ok input ∨
    node.type = .action ∧ actionTool node t .tool = .ok (tool, input)

theorem Prepared.congr {node : GraphNode} {c c' : TemplateContext}
    (h : ∀ path ∈ nodeRefs node, ∀ mode, resolvePath c path mode = resolvePath c' path mode)
    {tool : ToolSpec} {input : JsValue} (hp : Prepared env node c tool input) :
    Prepared env node c' tool input := by
  rcases hp with ⟨hn, htool, hin⟩ | ⟨hn, hin⟩
  · exact .inl ⟨hn, htool, toolInput_congr hn h .tool ▸ hin⟩
  · exact .inr ⟨hn, actionTool_congr hn h .tool ▸ hin⟩

/-- A tool or action node fails whatever the progress is, or comes to its call. -/
theorem executeNode_call {node : GraphNode} (hn : node.type = .tool ∨ node.type = .action)
    (t : TemplateContext) (last : JsValue) :
    (∃ e, ∀ ask s, executeNode env ask node t last s = .failed e s) ∨
    (∃ e, ∀ ask s, executeNode env ask node t last s =
      guarded env.limits s (.failed e s.addStep)) ∨
    ∃ code tool input display, Prepared env node t tool input ∧ ∀ ask s,
      executeNode env ask node t last s =
        askOrCall env (ask node.id) code tool input display node.id s := by
  rcases hn with hn | hn
  · simp only [executeNode, hn, toolNode]
    cases htool : env.tools.find? fun x => JsValue.str x.id = node.field "toolId" with
    | none => exact .inl ⟨_, fun _ _ => rfl⟩
    | some tool =>
      by_cases hen : tool.enabled = false
      · simp only [if_pos hen]
        exact .inl ⟨_, fun _ _ => rfl⟩
      simp only [if_neg hen]
      cases hin : toolInput node t .tool with
      | error m => exact .inl ⟨_, fun _ _ => rfl⟩
      | ok input =>
        cases hdisp : toolInput node t .prompt with
        | error m => exact .inl ⟨_, fun _ _ => rfl⟩
        | ok display =>
          cases hp : env.schemaErrors tool input with
          | some problems =>
            simp only [rendered, hp]
            exact .inr (.inl ⟨_, fun _ _ => rfl⟩)
          | none =>
            simp only [rendered, hp]
            refine .inr (.inr ⟨_, tool, input, display, .inl ⟨hn, ?_, hin⟩, fun _ _ => rfl⟩)
            have hid : JsValue.str tool.id = node.field "toolId" := by
              simpa using List.find?_some htool
            rw [← htool]
            congr 1
            funext x
            simp only [← hid, JsValue.str.injEq]
  · simp only [executeNode, hn, actionNode]
    cases hin : actionTool node t .tool with
    | error m => exact .inl ⟨_, fun _ _ => rfl⟩
    | ok call =>
      cases hdisp : actionTool node t .prompt with
      | error m => exact .inl ⟨_, fun _ _ => rfl⟩
      | ok shown =>
        dsimp only
        split_ifs
        · exact .inl ⟨_, fun _ _ => rfl⟩
        · exact .inl ⟨_, fun _ _ => rfl⟩
        · exact .inr (.inr ⟨_, call.1, call.2, shown.2, .inr ⟨hn, hin⟩, fun _ _ => rfl⟩)

theorem executeNode_within (ask : Text → Bool) (node : GraphNode) (t : TemplateContext)
    (last : JsValue) (s : Progress) : Within s (executeNode env ask node t last s) := by
  by_cases hn : node.type = .tool ∨ node.type = .action
  · rcases executeNode_call env hn t last with ⟨e, h⟩ | ⟨e, h⟩ | ⟨_, _, _, _, -, h⟩
    · rw [h]
      exact within_failed e s
    · rw [h]
      exact within_guarded ⟨Nat.le_succ _, List.prefix_refl _, rfl⟩
    · rw [h]
      exact within_askOrCall env _ _ _ _ _ _ s
  unfold executeNode
  split
  · exact within_guarded (within_record _ s _)
  · simp only [agentNode]
    obtain ⟨hs, ht, hst⟩ := runTicks_within env.limits
      (env.agent node (renderText (textOf (node.field "prompt")) t .prompt)).ticks
      { s with trace := s.trace ++
        [.agent node.id (renderText (textOf (node.field "prompt")) t .prompt)] }
    split
    all_goals exact ⟨hs, ht ▸ List.prefix_append _ _, congrArg RunState.done hst⟩
  · simp_all
  · refine within_guarded ?_
    split
    · exact ⟨Nat.le_succ _, List.prefix_refl _, rfl⟩
    · exact within_record _ s _
  · simp_all
  · exact within_rendered fun v => within_guarded (within_record _ s _)
  · split_ifs
    · exact within_guarded (within_record _ s _)
    · exact within_rendered fun v => within_guarded (within_record _ s _)

end

/-! ## What a walk leaves behind -/

structure Extends (s s' : Progress) : Prop where
  steps : s.steps ≤ s'.steps
  trace : s.trace <+: s'.trace
  done : s.st.done <+: s'.st.done

theorem Extends.refl (s : Progress) : Extends s s :=
  ⟨le_refl _, List.prefix_refl _, List.prefix_refl _⟩

theorem Extends.trans {s s' s'' : Progress} (h : Extends s s') (h' : Extends s' s'') :
    Extends s s'' :=
  ⟨le_trans h.steps h'.steps, h.trace.trans h'.trace, h.done.trans h'.done⟩

theorem Within.extends {s : Progress} {r : NodeEnd} (h : Within s r) :
    Extends s (NodeEnd.progress r) :=
  ⟨h.steps, h.trace, by rw [h.done]⟩

theorem notMem_of_doneOf {st : RunState} {id : Text} (h : doneOf st id = none) :
    st.done.lookup id = none ∧ id ∉ st.done.map Prod.fst := by
  have hl : st.done.lookup id = none := by
    unfold doneOf at h
    split at h
    · simp at h
    · assumption
  refine ⟨hl, fun hmem => ?_⟩
  obtain ⟨d, hd, rfl⟩ := List.mem_map.mp hmem
  rw [List.lookup_eq_none_iff] at hl
  simpa using hl d hd

/-- A node that was not done goes to the end of the finished ones. -/
theorem extends_finishNode {s : Progress} {id : Text} (h : doneOf s.st id = none) (res : Done) :
    Extends s { s with st := finishNode s.st id res } := by
  refine ⟨le_refl _, List.prefix_refl _, ?_⟩
  simp only [finishNode, Record.set_of_notMem (notMem_of_doneOf h).2]
  exact List.prefix_append _ _

theorem doneOf_congr {st st' : RunState} {id : Text} (h : st'.done.lookup id = st.done.lookup id) :
    doneOf st' id = doneOf st id := by
  simp only [doneOf, h]

theorem walk_extends (env : Setting) (ask : Text → Bool) (order : List Text) (pos : Pos)
    (s : Progress) : Extends s (walk env ask order pos s).progress := by
  induction order generalizing pos s with
  | nil => exact .refl s
  | cons id rest ih =>
    rw [walk]
    by_cases hact : id ∈ pos.active
    swap
    · rw [if_pos hact]
      exact ih pos s
    rw [if_neg (not_not.mpr hact)]
    cases byId env.graph id with
    | none => exact .refl s
    | some node =>
      cases hdone : doneOf s.st id with
      | some res =>
        dsimp only
        split_ifs
        · exact .refl s
        · exact ih _ s
      | none =>
        have hwithin := executeNode_within env ask node (context env pos.steps) pos.last s
        cases hexec : executeNode env ask node (context env pos.steps) pos.last s with
        | failed e s' | waiting s' =>
          rw [hexec] at hwithin
          simp only [hexec]
          exact hwithin.extends
        | done res s' =>
          rw [hexec] at hwithin
          have hs : Extends s { s' with st := finishNode s'.st id res } := by
            refine hwithin.extends.trans (extends_finishNode ?_ res)
            exact (doneOf_congr (congrArg (List.lookup id) hwithin.done)).trans hdone
          simp only [hexec]
          split_ifs
          · exact hs
          · exact hs.trans (ih _ _)

/-! ## A direct run and a paused run -/

def isAsked (ask : Text → Bool) : Event → Bool
  | .call node _ _ => ask node
  | _ => false

/-- The calls that were approved. -/
def asked (ask : Text → Bool) (trace : List Event) : ℕ := (trace.filter (isAsked ask)).length

theorem asked_append (ask : Text → Bool) (a b : List Event) :
    asked ask (a ++ b) = asked ask a + asked ask b := by
  simp [asked, List.filter_append]

/-- The steps that the paused run has used at the same point. -/
def Progress.total (ask : Text → Bool) (s : Progress) : ℕ := s.steps + 2 * asked ask s.trace

theorem Extends.total {s s' : Progress} (h : Extends s s') (ask : Text → Bool) :
    Progress.total ask s ≤ Progress.total ask s' := by
  obtain ⟨more, hmore⟩ := h.trace
  have hs := h.steps
  simp only [Progress.total, ← hmore, asked_append]
  omega

/-- The progress of the direct run, and of the paused run at the same point. -/
structure Matches (ask : Text → Bool) (s s' : Progress) : Prop where
  done : ∀ id, s'.st.done.lookup id = s.st.done.lookup id
  keys : (s'.st.done.map Prod.fst).Nodup
  approvals : s'.st.approvals = []
  tokens : s'.tokens = s.tokens
  steps : s'.steps = Progress.total ask s
  trace : s'.trace = s.trace

/-- Both nodes are done with one result, or both have failed. -/
inductive NodeMatches (ask : Text → Bool) : NodeEnd → NodeEnd → Prop
  | done (res : Done) {s s' : Progress} (h : Matches ask s s') :
      NodeMatches ask (.done res s) (.done res s')
  | failed (e e' : RunFailure) {s s' : Progress} (h : s'.trace = s.trace) :
      NodeMatches ask (.failed e s) (.failed e' s')

theorem Matches.record {ask : Text → Bool} {s s' : Progress} (h : Matches ask s s') {e : Event}
    (he : isAsked ask e = false) : Matches ask (s.record e) (s'.record e) where
  done := h.done
  keys := h.keys
  approvals := h.approvals
  tokens := h.tokens
  steps := by
    have := h.steps
    have hone : asked ask [e] = 0 := by simp [asked, he]
    simp only [Progress.total, Progress.record, asked_append, hone] at this ⊢
    omega
  trace := by simp only [Progress.record, h.trace]

theorem guard_none {limits : Limits} {s : Progress} :
    limits.guard s = none ↔ s.steps < limits.maxSteps ∧ s.tokens < limits.maxTokensPerRun := by
  unfold Limits.guard
  split_ifs <;> simp <;> omega

/-- A guard that stops the direct run stops the paused run. -/
theorem Matches.stops {ask : Text → Bool} {s s' : Progress} (h : Matches ask s s')
    {limits : Limits} (hpass : limits.guard s' = none) : limits.guard s = none := by
  have hs := h.steps
  have ht := h.tokens
  simp only [Progress.total] at hs
  rw [guard_none] at hpass ⊢
  omega

/-- A guard that lets the direct run pass lets the paused run pass, when a step
of the paused run still fits into the limit. -/
theorem Matches.passes {ask : Text → Bool} {s s' : Progress} (h : Matches ask s s')
    {limits : Limits} (hpass : limits.guard s = none)
    (hfits : Progress.total ask s < limits.maxSteps) : limits.guard s' = none := by
  have hs := h.steps
  have ht := h.tokens
  rw [guard_none] at hpass ⊢
  omega

/-- The paused run has room for the steps of the direct run up to here. -/
def Fits (ask : Text → Bool) (limits : Limits) (s : Progress) : Prop :=
  Progress.total ask s ≤ limits.maxSteps

section
variable {ask : Text → Bool} {limits : Limits} {s s' : Progress}

theorem guarded_failed_matches (h : Matches ask s s') (e : RunFailure) :
    NodeMatches ask (guarded limits s (.failed e s.addStep))
      (guarded limits s' (.failed e s'.addStep)) := by
  have htrace : s'.addStep.trace = s.addStep.trace := h.trace
  unfold guarded
  split <;> split <;> exact .failed _ _ ‹_›

theorem guarded_record_matches (h : Matches ask s s') {e : Event} (he : isAsked ask e = false)
    (res : Done)
    (hfits : Fits ask limits (NodeEnd.progress (guarded limits s (.done res (s.record e))))) :
    NodeMatches ask (guarded limits s (.done res (s.record e)))
      (guarded limits s' (.done res (s'.record e))) := by
  unfold guarded at hfits ⊢
  cases hg : limits.guard s with
  | some e =>
    cases hg' : limits.guard s' with
    | some e' => exact .failed _ _ h.trace
    | none => simp [h.stops hg'] at hg
  | none =>
    simp only [hg, Fits, NodeEnd.progress] at hfits
    have hroom : Progress.total ask s < limits.maxSteps := by
      have := (h.record he).steps
      simp only [Progress.record] at this
      have hs := h.steps
      simp only [Progress.record] at hfits
      omega
    rw [h.passes hg hroom]
    exact .done res (h.record he)

theorem runTool_matches (env : Setting) (h : Matches ask s s') {tool : ToolSpec} {input : JsValue}
    {nodeId : Text} (hask : ask nodeId = false) (code : String)
    (hfits : Fits ask env.limits (NodeEnd.progress (callNode env code tool input nodeId s))) :
    NodeMatches ask (callNode env code tool input nodeId s)
      (callNode env code tool input nodeId s') := by
  unfold callNode runTool at hfits ⊢
  cases hg : env.limits.guard s with
  | some e =>
    cases hg' : env.limits.guard s' with
    | some e' => exact .failed _ _ h.trace
    | none => simp [h.stops hg'] at hg
  | none =>
    have hrec := h.record (e := .call nodeId tool input) hask
    have htotal : Progress.total ask s < env.limits.maxSteps := by
      have hle : Progress.total ask (s.record (.call nodeId tool input)) ≤ env.limits.maxSteps := by
        cases hx : env.execute tool input <;> simpa [hg, hx, Fits, NodeEnd.progress] using hfits
      have hs := hrec.steps
      have hs' := h.steps
      simp only [Progress.record] at hs hle
      omega
    rw [h.passes hg htotal]
    cases hx : env.execute tool input with
    | ok v => exact .done _ hrec
    | error m => exact .failed _ _ hrec.trace

/-! ### Agents -/

theorem Matches.tick (h : Matches ask s s') (n : ℕ) :
    Matches ask { s.addStep with tokens := s.tokens + n }
      { s'.addStep with tokens := s'.tokens + n } where
  done := h.done
  keys := h.keys
  approvals := h.approvals
  tokens := by simp only [h.tokens]
  steps := by
    have := h.steps
    simp only [Progress.total, Progress.addStep] at this ⊢
    omega
  trace := h.trace

theorem runTicks_stops (h : Matches ask s s') (ts : List Tick)
    (hpass : (runTicks limits ts s').1 = none) : (runTicks limits ts s).1 = none := by
  induction ts generalizing s s' with
  | nil => rfl
  | cons tick ts ih =>
    cases tick with
    | guard =>
      simp only [runTicks] at hpass ⊢
      cases hg' : limits.guard s' with
      | some e => simp [hg'] at hpass
      | none =>
        rw [h.stops hg']
        exact ih h (by simpa [hg'] using hpass)
    | step n => exact ih (h.tick n) hpass

theorem runTicks_steps {ts : List Tick} (hpass : (runTicks limits ts s).1 = none)
    (hstep : ∃ n, .step n ∈ ts) : s.steps < (runTicks limits ts s).2.steps := by
  induction ts generalizing s with
  | nil => simp at hstep
  | cons tick ts ih =>
    cases tick with
    | guard =>
      simp only [runTicks] at hpass ⊢
      cases hg : limits.guard s with
      | some e => simp [hg] at hpass
      | none =>
        simp only [hg] at hpass
        exact ih hpass (by simpa using hstep)
    | step n =>
      have hle := (runTicks_within limits ts { s.addStep with tokens := s.tokens + n }).1
      simp only [Progress.addStep] at hle
      simp only [runTicks, Progress.addStep]
      omega

/-- An agent that answers in the direct run answers in the paused run. -/
theorem runTicks_matches (h : Matches ask s s') {ts : List Tick}
    (hpaid : ∀ before after, ts = before ++ .guard :: after → ∃ n, .step n ∈ after)
    (hpass : (runTicks limits ts s).1 = none) (hfits : Fits ask limits (runTicks limits ts s).2) :
    (runTicks limits ts s').1 = none ∧
      Matches ask (runTicks limits ts s).2 (runTicks limits ts s').2 := by
  induction ts generalizing s s' with
  | nil => exact ⟨rfl, h⟩
  | cons tick ts ih =>
    have hpaid' : ∀ before after, ts = before ++ .guard :: after → ∃ n, .step n ∈ after :=
      fun before after heq => hpaid (tick :: before) after (by rw [heq, List.cons_append])
    cases tick with
    | guard =>
      simp only [runTicks] at hpass hfits ⊢
      cases hg : limits.guard s with
      | some e => simp [hg] at hpass
      | none =>
        simp only [hg] at hpass hfits
        have hsteps := runTicks_steps hpass (hpaid [] ts rfl)
        have htrace := (runTicks_within limits ts s).2.1
        have hroom : Progress.total ask s < limits.maxSteps := by
          simp only [Fits, Progress.total, htrace] at hfits ⊢
          omega
        rw [h.passes hg hroom]
        exact ih h hpaid' hpass hfits
    | step n => exact ih (h.tick n) hpaid' hpass hfits

theorem Matches.agent (h : Matches ask s s') (node prompt : Text) :
    Matches ask { s with trace := s.trace ++ [.agent node prompt] }
      { s' with trace := s'.trace ++ [.agent node prompt] } where
  done := h.done
  keys := h.keys
  approvals := h.approvals
  tokens := h.tokens
  steps := by
    have := h.steps
    have hone : asked ask [.agent node prompt] = 0 := rfl
    simp only [Progress.total, asked_append, hone] at this ⊢
    omega
  trace := by simp only [h.trace]

theorem agentNode_matches (env : Setting) (h : Matches ask s s') (node : GraphNode)
    (t : TemplateContext)
    (hfits : Fits ask env.limits (NodeEnd.progress (agentNode env node t s))) :
    NodeMatches ask (agentNode env node t s) (agentNode env node t s') := by
  simp only [agentNode] at hfits ⊢
  set prompt := renderText (textOf (node.field "prompt")) t .prompt
  have hagent := h.agent node.id prompt
  set s₁ : Progress := { s with trace := s.trace ++ [.agent node.id prompt] }
  set s₂ : Progress := { s' with trace := s'.trace ++ [.agent node.id prompt] }
  generalize env.agent node prompt = outcome at hfits ⊢
  obtain ⟨ticks, answer, hpaid⟩ := outcome
  dsimp only at hfits ⊢
  have htrace : (runTicks env.limits ticks s₂).2.trace = (runTicks env.limits ticks s₁).2.trace := by
    rw [(runTicks_within env.limits ticks s₂).2.1, (runTicks_within env.limits ticks s₁).2.1]
    exact hagent.trace
  cases hd : (runTicks env.limits ticks s₁).1 with
  | some e =>
    cases hp : (runTicks env.limits ticks s₂).1 with
    | some e' => exact .failed _ _ htrace
    | none => simp [runTicks_stops hagent ticks hp] at hd
  | none =>
    cases answer with
    | error e =>
      dsimp only
      cases (runTicks env.limits ticks s₂).1 <;> exact .failed _ _ htrace
    | ok v =>
      simp only [hd] at hfits
      obtain ⟨hp, hm⟩ := runTicks_matches hagent (hpaid v rfl) hd hfits
      simp only [hp]
      exact .done _ hm

/-- A node that does not ask ends alike in both runs. -/
theorem executeNode_matches (env : Setting) (h : Matches ask s s') {node : GraphNode}
    (hask : node.type = .tool ∨ node.type = .action → ask node.id = false)
    (t : TemplateContext) (last : JsValue)
    (hfits : Fits ask env.limits
      (NodeEnd.progress (executeNode env (fun _ => false) node t last s))) :
    NodeMatches ask (executeNode env (fun _ => false) node t last s)
      (executeNode env ask node t last s') := by
  by_cases hn : node.type = .tool ∨ node.type = .action
  · rcases executeNode_call env hn t last with ⟨e, heq⟩ | ⟨e, heq⟩ | ⟨_, _, _, _, -, heq⟩
    · rw [heq, heq]
      exact .failed _ _ h.trace
    · rw [heq, heq]
      exact guarded_failed_matches h e
    · rw [heq] at hfits ⊢
      rw [heq, hask hn]
      exact runTool_matches env h (hask hn) _ hfits
  rw [not_or] at hn
  unfold executeNode at hfits ⊢
  cases hty : node.type with
  | tool => exact (hn.1 hty).elim
  | action => exact (hn.2 hty).elim
  | trigger =>
    simp only [hty] at hfits
    exact guarded_record_matches h rfl _ hfits
  | agent =>
    simp only [hty] at hfits
    exact agentNode_matches env h node t hfits
  | condition =>
    simp only [hty, conditionNode] at hfits ⊢
    cases hev : evaluate env.lower (textOf (node.field "expression")) t with
    | error m => exact guarded_failed_matches h _
    | ok b =>
      simp only [hev] at hfits
      exact guarded_record_matches h rfl _ hfits
  | transform =>
    simp only [hty] at hfits ⊢
    cases hr : render (node.field "template") t .prompt 0 with
    | error m => exact .failed _ _ h.trace
    | ok v =>
      simp only [hr, rendered] at hfits
      exact guarded_record_matches h rfl _ hfits
  | finish =>
    simp only [hty] at hfits ⊢
    split_ifs at hfits ⊢
    · exact guarded_record_matches h rfl _ hfits
    · cases hr : render (node.field "output") t .prompt 0 with
      | error m => exact .failed _ _ h.trace
      | ok v =>
        simp only [hr, rendered] at hfits
        exact guarded_record_matches h rfl _ hfits

end

end Prgd.Lockstep
