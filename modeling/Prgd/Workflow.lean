import Prgd.Expression
import Prgd.Record
import Mathlib.Data.List.Nodup

/-!
# Workflow graphs

`graph.ts`: the nodes and edges of a workflow, the validator that every saved
graph passes, and the two graph algorithms. `topoOrder` is Kahn's algorithm;
it decides the order in which a run visits the nodes. Positions and labels are
left out, nothing that runs a workflow reads them.

A node type that is only a member of `Object.prototype` passes the code's `in`
test and then fails: its check either throws or returns issues. The model
reports it as unknown, so the graphs without issues are the same.
-/
namespace Prgd.Workflow

inductive NodeType where
  | trigger | agent | tool | condition | action | transform | finish
  deriving DecidableEq, Repr

def NodeType.name : NodeType → Text
  | .trigger => "trigger".toList
  | .agent => "agent".toList
  | .tool => "tool".toList
  | .condition => "condition".toList
  | .action => "action".toList
  | .transform => "transform".toList
  | .finish => "end".toList

/-- The node types in registry order. -/
def nodeTypes : List NodeType :=
  [.trigger, .agent, .tool, .condition, .action, .transform, .finish]

structure GraphNode where
  id : Text
  type : NodeType
  data : List (Text × JsValue)
  deriving DecidableEq

structure GraphEdge where
  id : Text
  source : Text
  target : Text
  sourceHandle : Option Text
  deriving DecidableEq

structure Graph where
  nodes : List GraphNode
  edges : List GraphEdge
  deriving DecidableEq

structure GraphIssue where
  path : Text
  message : Text
  deriving DecidableEq

/-- A property of the node's data, `undefined` when it is missing. -/
def GraphNode.field (node : GraphNode) (key : String) : JsValue :=
  (JsValue.field node.data key.toList).getD .undefined

/-! ## Algorithms -/

/-- In-degrees by id. -/
abbrev Degrees := List (Text × ℤ)

def Degrees.get (d : Degrees) (id : Text) : ℤ := (d.lookup id).getD 0

/-- Removes the edges of a finished node and queues what became free. -/
def release (edges : List GraphEdge) (indeg : Degrees) : Degrees × List Text :=
  edges.foldl (fun s e =>
    let d := Degrees.get s.1 e.target - 1
    (Record.set s.1 e.target d, if d = 0 then s.2 ++ [e.target] else s.2)) (indeg, [])

/-- The queue loop. Each round takes one id from the queue, and an id enters it
at the start or when its count reaches zero. -/
def topoLoop (edges : List GraphEdge) : ℕ → List Text → Degrees → List Text
  | rounds + 1, id :: queue, indeg =>
      let (indeg, free) := release (edges.filter fun e => e.source == id) indeg
      id :: topoLoop edges rounds (queue ++ free) indeg
  | _, _, _ => []

/-- `none` when the graph has a cycle. Ties keep the node list order. -/
def topoOrder (graph : Graph) : Option (List Text) :=
  let zero : Degrees := graph.nodes.foldl (fun d n => Record.set d n.id 0) []
  let indeg : Degrees := graph.edges.foldl (fun d e => Record.set d e.target (Degrees.get d e.target + 1)) zero
  let queue := (graph.nodes.filter fun n => indeg.get n.id == 0).map GraphNode.id
  let out := topoLoop graph.edges (graph.nodes.length + graph.edges.length) queue indeg
  if out.length = graph.nodes.length then some out else none

/-- Depth first search; every id is pushed at most once. -/
def reachLoop (edges : List GraphEdge) : ℕ → List Text → List Text → List Text
  | rounds + 1, id :: stack, seen =>
      let s := edges.foldl (fun s e =>
        if e.source = id ∧ e.target ∉ s.1 then (s.1 ++ [e.target], e.target :: s.2) else s)
        (seen, stack)
      reachLoop edges rounds s.2 s.1
  | _, _, seen => seen

def reachable (graph : Graph) (start : Text) : List Text :=
  reachLoop graph.edges (graph.edges.length + 1) [start] [start]

/-- The graph of a run without a workflow. -/
def implicitGraph : Graph where
  nodes :=
    [⟨"trigger".toList, .trigger, [("source".toList, .str "api".toList)]⟩,
      ⟨"agent".toList, .agent,
        [("prompt".toList, .str "\x7b\x7btrigger.prompt\x7d\x7d".toList)]⟩,
      ⟨"end".toList, .finish,
        [("output".toList, .str "\x7b\x7bsteps.agent.output\x7d\x7d".toList)]⟩]
  edges :=
    [⟨"e1".toList, "trigger".toList, "agent".toList, none⟩,
      ⟨"e2".toList, "agent".toList, "end".toList, none⟩]

example : topoOrder implicitGraph =
    some ["trigger".toList, "agent".toList, "end".toList] := by decide

/-! ## Validation -/

def maxNodes : ℕ := 100
def maxEdges : ℕ := 300

def triggerSources : List Text :=
  ["api".toList, "webhook".toList, "schedule".toList, "manual".toList]
def actionKinds : List Text :=
  ["send_email".toList, "notify".toList, "http_request".toList, "progrid".toList]

/-- A letter, then at most 63 letters, digits, underscores or dashes. -/
def isId : Text → Bool
  | [] => false
  | c :: cs => Text.isLetter c && cs.length ≤ 63 && cs.all fun c => Text.isWord c || c == '-'

/-- A number of a cron item within its range. -/
def cronNumber (lo hi : ℕ) (s : Text) : Bool :=
  s ≠ [] && s.all Text.isDigit && lo ≤ Text.digitsValue s && Text.digitsValue s ≤ hi

def cronStep (s : Text) : Bool := s ≠ [] && s.all Text.isDigit && 1 ≤ Text.digitsValue s

/-- `*`, `n` or `n-m`, with an optional step. -/
def cronItem (lo hi : ℕ) (item : Text) : Bool :=
  let range := fun r : Text => r == ['*'] || match Text.breakOn ['-'] r with
    | none => cronNumber lo hi r
    | some (a, b) => cronNumber lo hi a && cronNumber lo hi b
  match Text.breakOn ['/'] item with
  | none => range item
  | some (r, step) => range r && cronStep step

def isCron (expr : Text) : Bool :=
  let parts := Text.words expr
  let ranges : List (ℕ × ℕ) := [(0, 59), (0, 23), (1, 31), (1, 12), (0, 7)]
  parts.length == 5 && (parts.zip ranges).all fun p =>
    (Text.split p.1 [',']).all (cronItem p.2.1 p.2.2)

abbrev Data := List (Text × JsValue)

def dataField (d : Data) (key : String) : JsValue :=
  (JsValue.field d key.toList).getD .undefined

def isStr : JsValue → Bool
  | .str _ => true
  | _ => false

def isObj : JsValue → Bool
  | .obj _ => true
  | _ => false

/-- A text that is not blank. -/
def isFilled : JsValue → Bool
  | .str s => Text.trim s ≠ []
  | _ => false

def listed (texts : List Text) : JsValue → Bool
  | .str s => texts.contains s
  | _ => false

def checkTrigger (d : Data) : List Text :=
  let source := if dataField d "source" = .undefined ∨ dataField d "source" = .null then
    .str "api".toList else dataField d "source"
  let cron := match dataField d "cron" with
    | .str s => isCron s
    | _ => false
  (if listed triggerSources source then [] else
    ["source must be one of ".toList ++ Text.join ", ".toList triggerSources]) ++
  if source = .str "schedule".toList ∧ cron = false then
    ["a schedule trigger needs cron, five fields like \"0 9 * * 1-5\"".toList] else []

def checkAgent (toolIds : Option (List Text)) (d : Data) : List Text :=
  (if isFilled (dataField d "prompt") then [] else ["prompt is required".toList]) ++
  (match dataField d "toolIds" with
    | .undefined => []
    | .arr items =>
        if items.all isStr then
          match toolIds with
          | none => []
          | some known => (items.filter fun t => !listed known t).map fun t =>
              "unknown tool ".toList ++ t.toStr
        else ["toolIds must be a list of tool ids".toList]
    | _ => ["toolIds must be a list of tool ids".toList]) ++
  match dataField d "outputSchema" with
  | .undefined | .null | .obj _ => []
  | _ => ["outputSchema must be a JSON Schema object".toList]

def checkTool (toolIds : Option (List Text)) (d : Data) : List Text :=
  (match dataField d "toolId" with
    | .str [] => ["toolId is required".toList]
    | .str id =>
        match toolIds with
        | none => []
        | some known => if known.contains id then [] else ["unknown tool ".toList ++ id]
    | _ => ["toolId is required".toList]) ++
  match dataField d "input" with
  | .undefined | .obj _ | .str _ => []
  | _ => ["input must be an object (templated JSON)".toList]

def checkCondition (d : Data) : List Text :=
  match dataField d "expression" with
  | .str s =>
      if Text.trim s = [] then ["expression is required".toList]
      else match Expression.checkSyntax s with
        | some err => ["expression: ".toList ++ err]
        | none => []
  | _ => ["expression is required".toList]

def checkAction (d : Data) : List Text :=
  (if listed actionKinds (dataField d "kind") then [] else
    ["kind must be one of ".toList ++ Text.join ", ".toList actionKinds]) ++
  match dataField d "config" with
  | .undefined | .obj _ => []
  | _ => ["config must be an object".toList]

def checkTransform (d : Data) : List Text :=
  if dataField d "template" = .undefined then ["template is required".toList] else []

/-- The data check of each registered type. -/
def checkData (toolIds : Option (List Text)) : NodeType → Data → List Text
  | .trigger => checkTrigger
  | .agent => checkAgent toolIds
  | .tool => checkTool toolIds
  | .condition => checkCondition
  | .action => checkAction
  | .transform => checkTransform
  | .finish => fun _ => []

def nodeType (v : JsValue) : Option NodeType :=
  nodeTypes.find? fun t => v = .str t.name

/-- The accepted part of a list and the ids and issues met on the way. -/
structure Reading (α : Type) where
  items : List α := []
  ids : List Text := []
  issues : List GraphIssue := []

def Reading.issue {α : Type} (r : Reading α) (path message : Text) : Reading α :=
  { r with issues := r.issues ++ [⟨path, message⟩] }

def indexed (base : String) (i : ℕ) : Text := base.toList ++ '[' :: JsNumber.digits i ++ [']']

def readNode (toolIds : Option (List Text)) (r : Reading GraphNode) (raw : JsValue × ℕ) :
    Reading GraphNode :=
  let path := indexed "graph.nodes" raw.2
  match raw.1 with
  | .obj fields =>
      match dataField fields "id" with
      | .str id =>
          if !isId id then r.issue (path ++ ".id".toList)
            "id must start with a letter and use letters, digits, _ or - (max 64)".toList
          else if id ∈ r.ids then
            r.issue (path ++ ".id".toList) ("duplicate node id ".toList ++ id)
          else
            let r := { r with ids := r.ids ++ [id] }
            match nodeType (dataField fields "type") with
            | none => r.issue (path ++ ".type".toList)
                ("unknown node type ".toList ++ (dataField fields "type").toStr ++
                  "; use one of ".toList ++ Text.join ", ".toList (nodeTypes.map NodeType.name))
            | some type =>
                match dataField fields "data" with
                | .undefined | .obj _ =>
                    let data := match dataField fields "data" with
                      | .obj data => data
                      | _ => []
                    { r with
                      items := r.items ++ [⟨id, type, data⟩]
                      issues := r.issues ++ (checkData toolIds type data).map fun m =>
                        ⟨path ++ ".data".toList, id ++ ": ".toList ++ m⟩ }
                | _ => r.issue (path ++ ".data".toList) "data must be an object".toList
      | _ => r.issue (path ++ ".id".toList)
          "id must start with a letter and use letters, digits, _ or - (max 64)".toList
  | _ => r.issue path "node must be an object".toList

/-- A text that names a known node. -/
def knownId (ids : List Text) : JsValue → Option Text
  | .str s => if s ∈ ids then some s else none
  | _ => none

def textOrNull : JsValue → Option Text
  | .str s => some s
  | _ => none

def readEdge (ids : List Text) (r : Reading GraphEdge) (raw : JsValue × ℕ) : Reading GraphEdge :=
  let path := indexed "graph.edges" raw.2
  match raw.1 with
  | .obj fields =>
      let id := match dataField fields "id" with
        | .str (c :: cs) => c :: cs
        | _ => 'e' :: JsNumber.digits raw.2
      if id ∈ r.ids then r.issue (path ++ ".id".toList) ("duplicate edge id ".toList ++ id)
      else
        let r := { r with ids := r.ids ++ [id] }
        let source := dataField fields "source"
        let target := dataField fields "target"
        match knownId ids source, knownId ids target with
        | none, _ => r.issue (path ++ ".source".toList)
            ("unknown source node ".toList ++ source.toStr)
        | some _, none => r.issue (path ++ ".target".toList)
            ("unknown target node ".toList ++ target.toStr)
        | some source, some target =>
            if source = target then
              r.issue path "an edge cannot connect a node to itself".toList
            else { r with
              items := r.items ++
                [⟨id, source, target, textOrNull (dataField fields "sourceHandle")⟩] }
  | _ => r.issue path "edge must be an object".toList

def typeOf (graph : Graph) (id : Text) : Option NodeType :=
  (graph.nodes.find? fun n => n.id == id).map GraphNode.type

/-- The rules for one edge between nodes that exist. -/
def edgeIssues (graph : Graph) (e : GraphEdge) : List GraphIssue :=
  let path := "edge ".toList ++ e.id
  (if typeOf graph e.target = some .trigger then
    [⟨path, "nothing can lead into the trigger".toList⟩] else []) ++
  (if typeOf graph e.source = some .finish then
    [⟨path, "an end node has no outgoing edges".toList⟩] else []) ++
  if typeOf graph e.source = some .condition ∧ e.sourceHandle ≠ some "true".toList ∧
      e.sourceHandle ≠ some "false".toList then
    [⟨path, "edges leaving a condition need sourceHandle \"true\" or \"false\"".toList⟩]
  else []

/-- The rules about the graph as a whole. -/
def graphIssues (graph : Graph) : List GraphIssue :=
  let triggers := graph.nodes.filter fun n => n.type = .trigger
  (if graph.nodes ≠ [] ∧ triggers.length ≠ 1 then
    [⟨"graph.nodes".toList, "a workflow needs exactly one trigger node (found ".toList ++
      JsNumber.digits triggers.length ++ [')']⟩] else []) ++
  (if graph.nodes = [] then
    [⟨"graph.nodes".toList, "a workflow needs a trigger node".toList⟩] else []) ++
  graph.edges.flatMap (edgeIssues graph) ++
  match topoOrder graph, triggers with
  | none, _ => [⟨"graph.edges".toList, "the workflow has a cycle".toList⟩]
  | some _, [trigger] =>
      (graph.nodes.filter fun n => n.id ∉ reachable graph trigger.id).map fun n =>
        ⟨"node ".toList ++ n.id, n.id ++ " cannot be reached from the trigger".toList⟩
  | some _, _ => []

def asList : JsValue → Option (List JsValue)
  | .arr items => some items
  | _ => none

/-- Edges may be left out. -/
def edgeList : JsValue → Option (List JsValue)
  | .undefined => some []
  | v => asList v

/-- Normalizes a graph and lists every issue. -/
def validateGraph (input : JsValue) (toolIds : Option (List Text)) : Graph × List GraphIssue :=
  match input with
  | .obj fields =>
      match asList (dataField fields "nodes"), edgeList (dataField fields "edges") with
      | some nodes, some edges =>
          let sizes :=
            (if maxNodes < nodes.length then
              [⟨"graph.nodes".toList, "at most 100 nodes".toList⟩] else []) ++
            if maxEdges < edges.length then
              [⟨"graph.edges".toList, "at most 300 edges".toList⟩] else []
          let ns := nodes.zipIdx.foldl (readNode toolIds) {}
          let es := edges.zipIdx.foldl (readEdge ns.ids) {}
          let graph : Graph := ⟨ns.items, es.items⟩
          -- an edge may name a node that had issues of its own; the code then fails on it
          (graph, sizes ++ ns.issues ++ es.issues ++ graphIssues graph)
      | nodes, edges =>
          (⟨[], []⟩,
            (if nodes = none then [⟨"graph.nodes".toList, "nodes must be a list".toList⟩] else []) ++
            if edges = none then [⟨"graph.edges".toList, "edges must be a list".toList⟩] else [])
  | _ => (⟨[], []⟩, [⟨"graph".toList, "graph must be an object with nodes and edges".toList⟩])

/-- The rules about the whole graph hold for a graph without issues. -/
theorem graphIssues_of_accepted {input : JsValue} {toolIds : Option (List Text)} {graph : Graph}
    (h : validateGraph input toolIds = (graph, [])) : graphIssues graph = [] := by
  cases input with
  | obj fields =>
    simp only [validateGraph] at h
    split at h
    · obtain ⟨rfl, hissues⟩ := Prod.mk.inj h
      exact (List.append_eq_nil_iff.mp hissues).2
    · rename_i nodes edges hnone
      obtain ⟨-, hissues⟩ := Prod.mk.inj h
      obtain ⟨hn, he⟩ := List.append_eq_nil_iff.mp hissues
      split_ifs at hn he with hn' he'
      obtain ⟨ns, hns⟩ := Option.ne_none_iff_exists'.mp hn'
      obtain ⟨es, hes⟩ := Option.ne_none_iff_exists'.mp he'
      exact (hnone ns es hns hes).elim
  | undefined | null | bool _ | num _ | str _ | arr _ => simp [validateGraph] at h

/-- A graph without issues has an order and exactly one trigger. -/
theorem order_of_accepted {input : JsValue} {toolIds : Option (List Text)} {graph : Graph}
    (h : validateGraph input toolIds = (graph, [])) :
    (∃ order, topoOrder graph = some order) ∧
      ∃ trigger, graph.nodes.filter (fun n => n.type = .trigger) = [trigger] := by
  have hissues := graphIssues_of_accepted h
  simp only [graphIssues, List.append_eq_nil_iff] at hissues
  obtain ⟨⟨⟨hone, hany⟩, -⟩, horder⟩ := hissues
  constructor
  · cases ho : topoOrder graph with
    | none => simp [ho] at horder
    | some order => exact ⟨order, rfl⟩
  · split_ifs at hone hany with h1 h2
    have hlen : (graph.nodes.filter fun n => n.type = .trigger).length = 1 := by
      by_contra hne
      exact h1 ⟨h2, hne⟩
    exact List.length_eq_one_iff.mp hlen

/-- The ids of the accepted nodes are among the ids met, each met once. -/
def Reading.Distinct (r : Reading GraphNode) : Prop :=
  (r.items.map GraphNode.id).Sublist r.ids ∧ r.ids.Nodup

theorem readNode_distinct (toolIds : Option (List Text)) {r : Reading GraphNode}
    (h : r.Distinct) (raw : JsValue × ℕ) : (readNode toolIds r raw).Distinct := by
  obtain ⟨hsub, hnodup⟩ := h
  unfold readNode
  cases raw.1 with
  | obj fields =>
    dsimp only
    cases dataField fields "id" with
    | str id =>
      dsimp only
      split_ifs with hid hmem
      · exact ⟨hsub, hnodup⟩
      · exact ⟨hsub, hnodup⟩
      · have hnodup' : (r.ids ++ [id]).Nodup :=
          List.Nodup.append hnodup (List.nodup_singleton id) (List.disjoint_singleton.mpr hmem)
        have hskip : (r.items.map GraphNode.id).Sublist (r.ids ++ [id]) :=
          hsub.trans (List.sublist_append_left _ _)
        cases nodeType (dataField fields "type") with
        | none => exact ⟨hskip, hnodup'⟩
        | some type =>
          cases dataField fields "data" with
          | undefined | obj _ =>
            refine ⟨?_, hnodup'⟩
            rw [List.map_append]
            exact hsub.append (List.Sublist.refl _)
          | null | bool _ | num _ | str _ | arr _ => exact ⟨hskip, hnodup'⟩
    | undefined | null | bool _ | num _ | arr _ | obj _ => exact ⟨hsub, hnodup⟩
  | undefined | null | bool _ | num _ | arr _ | str _ => exact ⟨hsub, hnodup⟩

theorem foldl_readNode_distinct (toolIds : Option (List Text)) (raws : List (JsValue × ℕ))
    {r : Reading GraphNode} (h : r.Distinct) : (raws.foldl (readNode toolIds) r).Distinct := by
  induction raws generalizing r with
  | nil => exact h
  | cons raw raws ih => exact ih (readNode_distinct toolIds h raw)

/-- No two nodes of a validated graph have one id. -/
theorem nodup_of_validated {input : JsValue} {toolIds : Option (List Text)} {graph : Graph}
    {issues : List GraphIssue} (h : validateGraph input toolIds = (graph, issues)) :
    (graph.nodes.map GraphNode.id).Nodup := by
  unfold validateGraph at h
  split at h
  · split at h
    · rename_i nodes edges _ _
      cases h
      have hd := foldl_readNode_distinct toolIds nodes.zipIdx (r := {})
        ⟨List.Sublist.refl _, List.nodup_nil⟩
      exact hd.2.sublist hd.1
    · cases h
      exact List.nodup_nil
  · cases h
    exact List.nodup_nil

end Prgd.Workflow
