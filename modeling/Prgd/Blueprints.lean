import Prgd.ModelUsage
import Prgd.Validation

/-!
# Blueprints

`validateBlueprint` and `bindToolIds` of `blueprint.ts`. In a blueprint the nodes name their
tools; when an agent is created the tools get ids, and the names in the workflow are replaced by
them. The cleaned workflow of a blueprint without issues is in the normal form of the validator,
and renaming keeps every rule, so the workflow of the new agent is accepted as it is.

As in `Validation`, a function is `none` where the code throws.
-/
namespace Prgd.Blueprints
open Workflow hiding validateGraph readNode readEdge edgeIssues
open Validation

/-! ## Parts of a blueprint -/

structure Profile where
  name : Text
  description : Text
  instructions : Text
  model : Option Text
  effort : Option Text

structure BlueprintTool where
  name : Text
  description : Text
  kind : Text
  connectionRef : Option Text
  requiresApproval : Bool
  enabled : Bool
  config : Data
  inputSchema : Option Data

/-- The tools point at a connection with its `ref`. -/
structure ConnectionNeeded where
  ref : Text
  kind : Text
  name : Text
  reason : Text
  usedBy : List Text

structure VariableDef where
  key : Text
  description : Text
  required : Bool
  secret : Bool

structure Blueprint where
  agent : Profile
  tools : List BlueprintTool
  workflow : Option Canvas
  variableDefs : List VariableDef
  connectionsNeeded : List ConnectionNeeded

/-- What the checks need from outside: the check of a tool's config for its kind, and the error
of the schema compiler. -/
structure Env where
  checkConfig : Text → Data → Option Text
  compile : Data → Option Text

/-! ## Reading values -/

def efforts : List Text := ["low".toList, "medium".toList, "high".toList]

def toolKinds : List Text :=
  ["http_request".toList, "database_query".toList, "send_email".toList, "notify".toList,
    "webhook_out".toList, "progrid".toList]

def connectionKinds : List Text :=
  ["rest_api".toList, "postgres".toList, "mysql".toList, "mongodb".toList, "smtp".toList,
    "webhook_out".toList, "custom".toList]

/-- The first `n` UTF-16 units. A pair that the cut would split is left out. -/
def slice : ℕ → Text → Text
  | _, [] => []
  | n, c :: cs => if Text.length16 [c] ≤ n then c :: slice (n - Text.length16 [c]) cs else []

/-- `String(v ?? text)` -/
def textOr (text : Text) (v : JsValue) : Option Text :=
  if v.isNullish then some text else textOf v

/-- `!!v` -/
def isTruthy : JsValue → Bool
  | .undefined | .null => false
  | .bool b => b
  | .num n => !(n == .nan || n == .fin 0)
  | .str s => !s.isEmpty
  | .arr _ | .obj _ => true

/-- An object's properties; another value counts as an empty object. -/
def fieldsOf : JsValue → Data
  | .obj fields => fields
  | _ => []

def itemsOf (v : JsValue) : List JsValue := (asList v).getD []

/-- A letter of the first kind, then at most 63 of its letters, digits or underscores. -/
def isKey (letter : Char → Bool) : Text → Bool
  | [] => false
  | c :: cs => letter c && cs.length ≤ 63 && cs.all fun c => letter c || Text.isDigit c || c == '_'

/-- `TOOL_NAME`, which the refs follow too. -/
def isName : Text → Bool := isKey Text.isLower

def kindIn (kinds : List Text) : JsValue → Option Text
  | .str kind => if kind ∈ kinds then some kind else none
  | _ => none

/-! ## The agent, the connections, the tools and the variables -/

def readModel : JsValue → Option (Option Text × List GraphIssue)
  | .undefined | .null | .str [] => some (none, [])
  | .str id =>
      if ModelUsage.isKnownModel id then some (some id, [])
      else some (none, [⟨"agent.model".toList, "unknown model ".toList ++ id⟩])
  | v => (textOf v).map fun t => (none, [⟨"agent.model".toList, "unknown model ".toList ++ t⟩])

def readEffort (v : JsValue) : Option Text × List GraphIssue :=
  if v.isNullish then (none, [])
  else match kindIn efforts v with
    | some effort => (some effort, [])
    | none => (none, [⟨"agent.effort".toList, "effort must be low, medium or high".toList⟩])

/-- A connection with a ref of its own. -/
def readNeeded (r : Reading ConnectionNeeded) (path ref : Text) (c : Data) :
    Option (Reading ConnectionNeeded) :=
  match kindIn connectionKinds (dataField c "kind") with
  | none => some (r.issue (path ++ ".kind".toList)
      ("kind must be one of ".toList ++ Text.join ", ".toList connectionKinds))
  | some kind => do
      let name ← textOr ref (dataField c "name")
      let why := if (dataField c "reason").isNullish then "description" else "reason"
      let reason ← textOr [] (dataField c why)
      return { r with
        ids := r.ids ++ [ref]
        items := r.items ++ [⟨ref, kind, slice 80 name, slice 500 reason, []⟩] }

def readConnection (r : Reading ConnectionNeeded) (raw : JsValue × ℕ) :
    Option (Reading ConnectionNeeded) :=
  let path := indexed "connectionsNeeded" raw.2
  match raw.1 with
  | .obj c => (textOr [] (dataField c "ref")).bind fun ref =>
      if !isName ref then some (r.issue (path ++ ".ref".toList) "ref must be snake_case".toList)
      else if ref ∈ r.ids then
        some (r.issue (path ++ ".ref".toList) ("duplicate ref ".toList ++ ref))
      else readNeeded r path ref c
  | _ => some (r.issue path "must be an object".toList)

/-- `isValidSchema`; a text is the problem. -/
def isValidSchema (env : Env) : JsValue → Option Text
  | .obj schema => env.compile schema
  | _ => some "must be a JSON Schema object".toList

/-- An empty text counts as no problem. -/
def problem (path message : Text) : Option Text → List GraphIssue
  | some (c :: cs) => [⟨path, message ++ ": ".toList ++ c :: cs⟩]
  | _ => []

def connectionRef (t : Data) : Option Text :=
  match dataField t "connectionRef" with
  | .str (c :: cs) => some (c :: cs)
  | _ => none

/-- The problems of a tool with a kind. -/
def toolIssues (env : Env) (refs : List Text) (path name kind : Text) (t : Data) :
    List GraphIssue :=
  problem (path ++ ".config".toList) name
    (env.checkConfig kind (fieldsOf (dataField t "config"))) ++
  (if (dataField t "inputSchema").isNullish then [] else
    problem (path ++ ".inputSchema".toList) name
      (isValidSchema env (dataField t "inputSchema"))) ++
  match connectionRef t with
  | none => []
  | some ref =>
      if ref ∈ refs then [] else
        [⟨path ++ ".connectionRef".toList, name ++ " uses connection ".toList ++ ref ++
          ", which is not in connectionsNeeded".toList⟩]

/-- The schema of a tool, unless it has a problem. -/
def inputSchema (env : Env) (t : Data) : Option Data :=
  match dataField t "inputSchema" with
  | .obj schema => if problem [] [] (env.compile schema) = [] then some schema else none
  | _ => none

/-- A tool with a name of its own. -/
def readNamed (env : Env) (refs : List Text) (r : Reading BlueprintTool) (path name : Text)
    (t : Data) : Option (Reading BlueprintTool) :=
  match kindIn toolKinds (dataField t "kind") with
  | none => some (r.issue (path ++ ".kind".toList)
      ("kind must be one of ".toList ++ Text.join ", ".toList toolKinds))
  | some kind => (textOr [] (dataField t "description")).map fun description =>
      { r with
        items := r.items ++ [{
          name
          description := slice 2000 description
          kind
          connectionRef := connectionRef t
          requiresApproval := isTruthy (dataField t "requiresApproval")
          enabled := dataField t "enabled" ≠ .bool false
          config := fieldsOf (dataField t "config")
          inputSchema := inputSchema env t }]
        issues := r.issues ++ toolIssues env refs path name kind t }

def readTool (env : Env) (refs : List Text) (r : Reading BlueprintTool) (raw : JsValue × ℕ) :
    Option (Reading BlueprintTool) :=
  let path := indexed "tools" raw.2
  match raw.1 with
  | .obj t => (textOr [] (dataField t "name")).bind fun name =>
      if !isName name then
        some (r.issue (path ++ ".name".toList) "name must be snake_case (max 64)".toList)
      else if name ∈ r.ids then
        some (r.issue (path ++ ".name".toList) ("duplicate tool name ".toList ++ name))
      else readNamed env refs { r with ids := r.ids ++ [name] } path name t
  | _ => some (r.issue path "must be an object".toList)

/-- A variable with a bad or repeated key is skipped. -/
def readVariable (out : List VariableDef) (raw : JsValue) : Option (List VariableDef) := do
  let v := fieldsOf raw
  let key ← textOr [] (dataField v "key")
  if !isKey Text.isUpper key || (out.map VariableDef.key).contains key then return out
  else
    let description ← textOr [] (dataField v "description")
    return out ++ [⟨key, slice 500 description, isTruthy (dataField v "required"),
      isTruthy (dataField v "secret")⟩]

def normalizeVariables (raw : JsValue) : Option (List VariableDef) :=
  (itemsOf raw).foldlM readVariable []

/-! ## The blueprint -/

def ConnectionNeeded.withUsers (tools : List BlueprintTool) (c : ConnectionNeeded) :
    ConnectionNeeded :=
  { c with
    usedBy := (tools.filter fun t => t.connectionRef == some c.ref).map BlueprintTool.name }

/-- The workflow may be left out; its nodes use the names of the tools. -/
def readWorkflow (names : List Text) (v : JsValue) : Option (Option Canvas × List GraphIssue) :=
  if v.isNullish then some (none, [])
  else (validateGraph v (some names)).map fun r =>
    (some r.1, r.2.map fun g => ⟨"workflow.".toList ++ g.path, g.message⟩)

def nameIssues (name : Text) : List GraphIssue :=
  if name = [] then [⟨"agent.name".toList, "name is required".toList⟩] else []

/-- A cleaned copy of a blueprint from any source and every problem. -/
def validateBlueprint (env : Env) (raw : JsValue) : Option (Blueprint × List GraphIssue) := do
  let r := fieldsOf raw
  let a := fieldsOf (dataField r "agent")
  let name := slice 80 (Text.trim (← textOr [] (dataField a "name")))
  let description := slice 500 (← textOr [] (dataField a "description"))
  let instructions := slice 50000 (← textOr [] (dataField a "instructions"))
  let model ← readModel (dataField a "model")
  let effort := readEffort (dataField a "effort")
  let needed ← (itemsOf (dataField r "connectionsNeeded")).zipIdx.foldlM readConnection {}
  let tools ← (itemsOf (dataField r "tools")).zipIdx.foldlM (readTool env needed.ids) {}
  let workflow ← readWorkflow tools.ids (dataField r "workflow")
  let variableDefs ← normalizeVariables (dataField r "variables")
  return (
    { agent := ⟨name, description, instructions, model.1, effort.1⟩
      tools := tools.items
      workflow := workflow.1
      variableDefs
      connectionsNeeded := needed.items.map (ConnectionNeeded.withUsers tools.items) },
    nameIssues name ++ model.2 ++ effort.2 ++ needed.issues ++ tools.issues ++ workflow.2)

/-! ## Binding the tools -/

/-- `idByName.get(name) ?? name` -/
def bound (idByName : List (Text × Text)) (name : Text) : Text :=
  (idByName.lookup name).getD name

def boundValue (idByName : List (Text × Text)) : JsValue → JsValue
  | .str name => .str (bound idByName name)
  | v => v

def bindTool (idByName : List (Text × Text)) (data : Data) : Data :=
  match dataField data "toolId" with
  | .str name => Record.set data "toolId".toList (.str (bound idByName name))
  | _ => data

def bindTools (idByName : List (Text × Text)) (data : Data) : Data :=
  match dataField data "toolIds" with
  | .arr items => Record.set data "toolIds".toList (.arr (items.map (boundValue idByName)))
  | _ => data

def bindNode (idByName : List (Text × Text)) (n : Node) : Node :=
  let data := if n.type = "tool".toList then bindTool idByName n.data else n.data
  { n with data := if n.type = "agent".toList then bindTools idByName data else data }

/-- Replaces tool names with ids inside a blueprint workflow. -/
def bindToolIds (graph : Canvas) (idByName : List (Text × Text)) : Canvas where
  edges := graph.edges
  nodes := graph.nodes.map (bindNode idByName)

/-! ## The normal form -/

/-- A node that the validator leaves as it is. -/
structure NodeFine (toolIds : Option (List Text)) (n : Node) : Prop where
  id : isId n.id = true
  check : ∃ t, nodeType (.str n.type) = some t ∧ checkData toolIds t n.data = []

structure EdgeFine (ids : List Text) (e : Edge) : Prop where
  id : e.id ≠ []
  source : e.source ∈ ids
  target : e.target ∈ ids
  apart : e.source ≠ e.target

/-- A graph that the validator accepts and returns unchanged. -/
structure Fine (toolIds : Option (List Text)) (c : Canvas) : Prop where
  nodesLength : c.nodes.length ≤ maxNodes
  edgesLength : c.edges.length ≤ maxEdges
  ids : (c.nodes.map Node.id).Nodup
  nodes : ∀ n ∈ c.nodes, NodeFine toolIds n
  edgeIds : (c.edges.map Edge.id).Nodup
  edges : ∀ e ∈ c.edges, EdgeFine (c.nodes.map Node.id) e
  trigger : triggerIssues c = []
  rules : ∀ e ∈ c.edges, edgeIssues c e = some []
  order : orderIssues c = []

/-! ## What is accepted is in normal form -/

section
variable {toolIds : Option (List Text)}

theorem not_issue_nil {α : Type} {r : Reading α} {path message : Text} {P : Prop}
    (h : (r.issue path message).issues = []) : P :=
  absurd h (issue_ne_nil r path message)

/-- The values read so far, as long as there is no issue. -/
structure Accepts {α : Type} (key : α → Text) (Ok : α → Prop) (count : ℕ) (r : Reading α) :
    Prop where
  length : r.items.length = count
  ids : r.ids = r.items.map key
  nodup : r.ids.Nodup
  fine : ∀ a ∈ r.items, Ok a

theorem Accepts.snoc {α : Type} {key : α → Text} {Ok : α → Prop} {count : ℕ} {r : Reading α}
    (h : Accepts key Ok count r) {a : α} (ha : Ok a) (hnew : key a ∉ r.ids)
    {issues : List GraphIssue} :
    Accepts key Ok (count + 1) ⟨r.items ++ [a], r.ids ++ [key a], issues⟩ where
  length := by rw [List.length_append, h.length, List.length_singleton]
  ids := by rw [List.map_append, List.map_singleton, h.ids]
  nodup := by
    refine List.nodup_append.mpr ⟨h.nodup, List.nodup_singleton _, fun b hb c hc heq => ?_⟩
    rw [List.mem_singleton] at hc
    exact hnew (hc ▸ heq ▸ hb)
  fine b hb := by
    rcases List.mem_append.mp hb with hb | hb
    · exact h.fine b hb
    · rw [List.mem_singleton] at hb
      exact hb ▸ ha

/-- A loop whose rounds either add an issue or read one more value. -/
theorem accepts {α : Type} {key : α → Text} {Ok : α → Prop}
    {f : Reading α → JsValue × ℕ → Option (Reading α)}
    (hstep : ∀ r raw i r', f r (raw, i) = some r' → r'.issues = [] →
      r.issues = [] ∧ ∃ a, Ok a ∧ key a ∉ r.ids ∧ r' = ⟨r.items ++ [a], r.ids ++ [key a], []⟩)
    {raws : List JsValue} {r : Reading α} (h : raws.zipIdx.foldlM f {} = some r)
    (hnil : r.issues = []) : Accepts key Ok raws.length r := by
  refine foldlM_zipIdx_inv (I := fun l r => r.issues = [] → Accepts key Ok l.length r)
    (fun _ => ⟨rfl, rfl, List.nodup_nil, by simp⟩) (fun l r raw r' hinv hr' hnil => ?_) raws r h hnil
  obtain ⟨hr, a, ha, hnew, rfl⟩ := hstep r raw _ r' hr' hnil
  rw [List.length_append, List.length_singleton]
  exact (hinv hr).snoc ha hnew

theorem readTyped_accepts {r r' : Reading Node} {i : ℕ} {id : Text} {fields : Data}
    (h : readTyped toolIds r i id fields = some r') (hnil : r'.issues = []) (hid : isId id = true) :
    r.issues = [] ∧ ∃ n, NodeFine toolIds n ∧ n.id = id ∧ r' = ⟨r.items ++ [n], r.ids, []⟩ := by
  rw [readTyped] at h
  cases htype : dataField fields "type" with
  | str type =>
    rw [htype] at h
    dsimp only at h
    split at h
    next =>
      cases hdata : dataOf fields with
      | none =>
        rw [hdata] at h
        cases h
        exact not_issue_nil hnil
      | some data =>
        rw [hdata] at h
        obtain ⟨messages, hmessages, rfl⟩ := Option.map_eq_some_iff.mp h
        obtain ⟨hr, hmap⟩ := List.append_eq_nil_iff.mp hnil
        rw [List.map_eq_nil_iff] at hmap
        subst hmap
        refine ⟨hr, ⟨id, type, position fields i, data⟩, ⟨hid, checks_nil hmessages⟩, rfl, ?_⟩
        rw [hr, List.map_nil, List.append_nil]
    next =>
      cases h
      exact not_issue_nil hnil
  | undefined | null | bool _ | num _ | arr _ | obj _ =>
    rw [htype] at h
    obtain ⟨text, -, rfl⟩ := Option.map_eq_some_iff.mp h
    exact not_issue_nil hnil

theorem readNode_accepts {r r' : Reading Node} {raw : JsValue} {i : ℕ}
    (h : readNode toolIds r (raw, i) = some r') (hnil : r'.issues = []) :
    r.issues = [] ∧ ∃ n, NodeFine toolIds n ∧ n.id ∉ r.ids ∧
      r' = ⟨r.items ++ [n], r.ids ++ [n.id], []⟩ := by
  unfold readNode at h
  cases raw with
  | obj fields =>
    dsimp only at h
    cases hid : dataField fields "id" with
    | str id =>
      rw [hid] at h
      dsimp only at h
      split_ifs at h with hvalid hmem
      · cases h
        exact not_issue_nil hnil
      · cases h
        exact not_issue_nil hnil
      · rw [Bool.not_eq_true', Bool.not_eq_false] at hvalid
        obtain ⟨hr, n, hn, rfl, hr'⟩ := readTyped_accepts h hnil hvalid
        exact ⟨hr, n, hn, hmem, hr'⟩
    | undefined | null | bool _ | num _ | arr _ | obj _ =>
      rw [hid] at h
      cases h
      exact not_issue_nil hnil
  | undefined | null | bool _ | num _ | arr _ | str _ =>
    cases h
    exact not_issue_nil hnil

theorem edgeKey_ne_nil (fields : Data) (i : ℕ) : edgeKey fields i ≠ [] := by
  unfold edgeKey
  split <;> exact List.cons_ne_nil _ _

theorem mem_of_knownId {ids : List Text} {v : JsValue} {s : Text} (h : knownId ids v = some s) :
    s ∈ ids := by
  cases v with
  | str t =>
    rw [knownId] at h
    split at h
    next hmem =>
      cases h
      exact hmem
    next => cases h
  | undefined | null | bool _ | num _ | arr _ | obj _ => cases h

theorem readEdge_accepts {ids : List Text} {r r' : Reading Edge} {raw : JsValue} {i : ℕ}
    (h : readEdge ids r (raw, i) = some r') (hnil : r'.issues = []) :
    r.issues = [] ∧ ∃ e, EdgeFine ids e ∧ e.id ∉ r.ids ∧
      r' = ⟨r.items ++ [e], r.ids ++ [e.id], []⟩ := by
  unfold readEdge at h
  cases raw with
  | obj fields =>
    dsimp only at h
    split_ifs at h with hmem
    · cases h
      exact not_issue_nil hnil
    · cases hsource : knownId ids (dataField fields "source") with
      | none =>
        rw [hsource] at h
        obtain ⟨text, -, rfl⟩ := Option.map_eq_some_iff.mp h
        exact not_issue_nil hnil
      | some source =>
        cases htarget : knownId ids (dataField fields "target") with
        | none =>
          rw [hsource, htarget] at h
          obtain ⟨text, -, rfl⟩ := Option.map_eq_some_iff.mp h
          exact not_issue_nil hnil
        | some target =>
          rw [hsource, htarget] at h
          dsimp only at h
          split_ifs at h with hloop
          · cases h
            exact not_issue_nil hnil
          · cases h
            refine ⟨hnil, ⟨_, source, target, textOrNull (dataField fields "sourceHandle"),
              textOrNull (dataField fields "label")⟩, ⟨edgeKey_ne_nil fields i,
              mem_of_knownId hsource, mem_of_knownId htarget, hloop⟩, hmem, ?_⟩
            rw [Reading.mk.injEq]
            exact ⟨rfl, rfl, hnil⟩
  | undefined | null | bool _ | num _ | arr _ | str _ =>
    cases h
    exact not_issue_nil hnil

theorem sizes_of_nil {nodes edges : List JsValue} (h : sizeIssues nodes edges = []) :
    nodes.length ≤ maxNodes ∧ edges.length ≤ maxEdges := by
  obtain ⟨hn, he⟩ := List.append_eq_nil_iff.mp h
  split_ifs at hn he with hn' he'
  exact ⟨not_lt.mp hn', not_lt.mp he'⟩

theorem mapM_flatten_nil {α β : Type} {f : α → Option (List β)} {l : List α} :
    (∃ rs, l.mapM f = some rs ∧ rs.flatten = []) ↔ ∀ a ∈ l, f a = some [] := by
  induction l with
  | nil => simp
  | cons a l ih =>
    rw [List.mapM_cons, List.forall_mem_cons, ← ih]
    cases hf : f a with
    | none => simp
    | some b =>
      cases hl : l.mapM f with
      | none => simp
      | some bs => simp

/-- The parts of an accepted graph. -/
theorem fine_of_accepted {input : JsValue} {c : Canvas}
    (h : validateGraph input toolIds = some (c, [])) : Fine toolIds c := by
  cases input with
  | obj fields =>
    rw [validateGraph] at h
    split at h
    next nodes edges hnodes hedges =>
      obtain ⟨ns, hns, h⟩ := Option.bind_eq_some_iff.mp h
      obtain ⟨es, hes, h⟩ := Option.bind_eq_some_iff.mp h
      obtain ⟨rules, hrules, h⟩ := Option.bind_eq_some_iff.mp h
      obtain ⟨rfl, hnil⟩ := Prod.mk.inj (Option.some.inj h)
      simp only [List.append_eq_nil_iff] at hnil
      obtain ⟨⟨⟨⟨⟨hsize, hnsNil⟩, hesNil⟩, htrigger⟩, hflat⟩, horder⟩ := hnil
      have hn := accepts (fun _ _ _ _ => readNode_accepts) hns hnsNil
      have he := accepts (fun _ _ _ _ => readEdge_accepts) hes hesNil
      obtain ⟨hnodesLength, hedgesLength⟩ := sizes_of_nil hsize
      exact {
        nodesLength := hn.length.trans_le hnodesLength
        edgesLength := he.length.trans_le hedgesLength
        ids := hn.ids ▸ hn.nodup
        nodes := hn.fine
        edgeIds := he.ids ▸ he.nodup
        edges := hn.ids ▸ he.fine
        trigger := htrigger
        rules := mapM_flatten_nil.mp ⟨rules, hrules, hflat⟩
        order := horder }
    next nodes edges hnone =>
      obtain ⟨-, hnil⟩ := Prod.mk.inj (Option.some.inj h)
      obtain ⟨hn, he⟩ := List.append_eq_nil_iff.mp hnil
      split_ifs at hn he with hn' he'
      obtain ⟨ns, hns⟩ := Option.ne_none_iff_exists'.mp hn'
      obtain ⟨es, hes⟩ := Option.ne_none_iff_exists'.mp he'
      exact (hnone ns es hns hes).elim
  | undefined | null | bool _ | num _ | str _ | arr _ => cases h

end

/-! ## A graph in normal form is accepted as it is -/

def textJson : Option Text → JsValue
  | some s => .str s
  | none => .null

def nodeFields (n : Node) : Data :=
  [("id".toList, .str n.id), ("type".toList, .str n.type),
    ("position".toList, .obj [("x".toList, .num n.position.1), ("y".toList, .num n.position.2)]),
    ("data".toList, .obj n.data)]

def edgeFields (e : Edge) : Data :=
  [("id".toList, .str e.id), ("source".toList, .str e.source), ("target".toList, .str e.target),
    ("sourceHandle".toList, textJson e.sourceHandle), ("label".toList, textJson e.label)]

/-- A cleaned graph as a value. -/
def Canvas.json (c : Canvas) : JsValue :=
  .obj [("edges".toList, .arr (c.edges.map fun e => .obj (edgeFields e))),
    ("nodes".toList, .arr (c.nodes.map fun n => .obj (nodeFields n)))]

section
variable {toolIds : Option (List Text)}

@[simp] theorem textOrNull_textJson (s : Option Text) : textOrNull (textJson s) = s := by
  cases s <;> rfl

theorem readNode_fine {n : Node} (hn : NodeFine toolIds n) {l : List Node} {i : ℕ}
    (hnew : n.id ∉ l.map Node.id) :
    readNode toolIds ⟨l, l.map Node.id, []⟩ (.obj (nodeFields n), i) =
      some ⟨l ++ [n], (l ++ [n]).map Node.id, []⟩ := by
  obtain ⟨t, ht, hcheck⟩ := hn.check
  have hid : dataField (nodeFields n) "id" = .str n.id := rfl
  have htype : dataField (nodeFields n) "type" = .str n.type := rfl
  have hdata : dataOf (nodeFields n) = some n.data := rfl
  have hposition : position (nodeFields n) i = n.position := rfl
  have hin : inNodeTypes n.type = true := by rw [inNodeTypes, ht]; rfl
  have hchecks : checks toolIds n.type n.data = some [] := by simp only [checks, ht, hcheck]
  simp only [readNode, hid, hn.id, Bool.not_true, Bool.false_eq_true, if_false, hnew, readTyped,
    htype, hin, if_true, hdata, hchecks, hposition, Option.map_some, List.map_nil,
    List.append_nil, List.map_append, List.map_cons]

theorem readEdge_fine {ids : List Text} {e : Edge} (he : EdgeFine ids e) {l : List Edge} {i : ℕ}
    (hnew : e.id ∉ l.map Edge.id) :
    readEdge ids ⟨l, l.map Edge.id, []⟩ (.obj (edgeFields e), i) =
      some ⟨l ++ [e], (l ++ [e]).map Edge.id, []⟩ := by
  have hid : edgeKey (edgeFields e) i = e.id := by
    obtain ⟨c, cs, hcs⟩ := List.exists_cons_of_ne_nil he.id
    have hfield : dataField (edgeFields e) "id" = .str e.id := rfl
    rw [edgeKey, hfield, hcs]
  have hsource : knownId ids (dataField (edgeFields e) "source") = some e.source :=
    if_pos he.source
  have htarget : knownId ids (dataField (edgeFields e) "target") = some e.target :=
    if_pos he.target
  have hhandle : dataField (edgeFields e) "sourceHandle" = textJson e.sourceHandle := rfl
  have hlabel : dataField (edgeFields e) "label" = textJson e.label := rfl
  simp only [readEdge, hid, hnew, if_false, hsource, htarget, he.apart, hhandle, hlabel,
    textOrNull_textJson, List.map_append, List.map_cons, List.map_nil]

theorem nodup_snoc {α β : Type} {f : α → β} {l : List α} {a : α}
    (h : ((l ++ [a]).map f).Nodup) : (l.map f).Nodup ∧ f a ∉ l.map f := by
  rw [List.map_append, List.map_singleton, List.nodup_append] at h
  exact ⟨h.1, fun hmem => h.2.2 _ hmem _ List.mem_cons_self rfl⟩

/-- The loop over the nodes of a graph in normal form. -/
theorem readNodes_fine {nodes : List Node} (hids : (nodes.map Node.id).Nodup)
    (hnodes : ∀ n ∈ nodes, NodeFine toolIds n) :
    (nodes.map fun n => JsValue.obj (nodeFields n)).zipIdx.foldlM (readNode toolIds) {} =
      some ⟨nodes, nodes.map Node.id, []⟩ := by
  exact foldlM_zipIdx_eq (f := readNode toolIds) (j := fun n => JsValue.obj (nodeFields n))
    (g := fun l => ⟨l, l.map Node.id, []⟩)
    (P := fun l => (l.map Node.id).Nodup ∧ ∀ n ∈ l, NodeFine toolIds n)
    (fun l n h => ⟨(nodup_snoc h.1).1, fun m hm => h.2 m (List.mem_append_left _ hm)⟩)
    (fun l n h => readNode_fine (h.2 n (List.mem_append_right _ List.mem_cons_self))
      (nodup_snoc h.1).2) nodes ⟨hids, hnodes⟩

theorem readEdges_fine {ids : List Text} {edges : List Edge} (hids : (edges.map Edge.id).Nodup)
    (hedges : ∀ e ∈ edges, EdgeFine ids e) :
    (edges.map fun e => JsValue.obj (edgeFields e)).zipIdx.foldlM (readEdge ids) {} =
      some ⟨edges, edges.map Edge.id, []⟩ := by
  exact foldlM_zipIdx_eq (f := readEdge ids) (j := fun e => JsValue.obj (edgeFields e))
    (g := fun l => ⟨l, l.map Edge.id, []⟩)
    (P := fun l => (l.map Edge.id).Nodup ∧ ∀ e ∈ l, EdgeFine ids e)
    (fun l e h => ⟨(nodup_snoc h.1).1, fun m hm => h.2 m (List.mem_append_left _ hm)⟩)
    (fun l e h => readEdge_fine (h.2 e (List.mem_append_right _ List.mem_cons_self))
      (nodup_snoc h.1).2) edges ⟨hids, hedges⟩

theorem accepted_of_fine {c : Canvas} (h : Fine toolIds c) :
    validateGraph (Canvas.json c) toolIds = some (c, []) := by
  have hnodes : asList (dataField [("edges".toList, .arr (c.edges.map fun e => .obj (edgeFields e))),
      ("nodes".toList, .arr (c.nodes.map fun n => .obj (nodeFields n)))] "nodes") =
        some (c.nodes.map fun n => .obj (nodeFields n)) := rfl
  have hedges : edgeList (dataField [("edges".toList,
      .arr (c.edges.map fun e => .obj (edgeFields e))),
      ("nodes".toList, .arr (c.nodes.map fun n => .obj (nodeFields n)))] "edges") =
        some (c.edges.map fun e => .obj (edgeFields e)) := rfl
  obtain ⟨rules, hrules, hflat⟩ := mapM_flatten_nil.mpr h.rules
  have hsizes : sizeIssues (c.nodes.map fun n => .obj (nodeFields n))
      (c.edges.map fun e => .obj (edgeFields e)) = [] := by
    rw [sizeIssues, List.length_map, List.length_map, if_neg (not_lt.mpr h.nodesLength),
      if_neg (not_lt.mpr h.edgesLength), List.append_nil]
  simp only [validateGraph, Canvas.json, hnodes, hedges, readNodes_fine h.ids h.nodes,
    readEdges_fine h.edgeIds h.edges, Option.bind_eq_bind, Option.bind_some, hrules, hsizes,
    h.trigger, hflat, h.order, List.append_nil]
  rfl

end

/-! ## Renaming keeps the data checks -/

section
variable {idByName : List (Text × Text)} {names ids : List Text}

theorem field_set (data : Data) (key other : Text) (v : JsValue) :
    JsValue.field (Record.set data key v) other =
      if other = key then some v else JsValue.field data other := by
  induction data with
  | nil =>
    by_cases h : other = key
    · simp [JsValue.field, h]
    · simp [JsValue.field, h, Ne.symm h]
  | cons f data ih =>
    simp only [JsValue.field] at ih ⊢
    rw [Record.set_cons]
    by_cases hf : f.1 = key
    · rw [if_pos hf]
      by_cases h : other = key
      · simp [h]
      · rw [if_neg h, List.find?_cons_of_neg (by simpa using Ne.symm h),
          List.find?_cons_of_neg (by simpa [hf] using Ne.symm h)]
    · rw [if_neg hf]
      by_cases h : f.1 = other
      · rw [if_neg (h ▸ hf), List.find?_cons_of_pos (by simpa using h),
          List.find?_cons_of_pos (by simpa using h)]
      · rw [List.find?_cons_of_neg (by simpa using h), ih,
          List.find?_cons_of_neg (by simpa using h)]

theorem dataField_set_self (data : Data) (key : String) (v : JsValue) :
    dataField (Record.set data key.toList v) key = v := by
  rw [dataField, field_set, if_pos rfl, Option.getD_some]

theorem dataField_set_of_ne (data : Data) {key other : String} (h : other ≠ key) (v : JsValue) :
    dataField (Record.set data key.toList v) other = dataField data other := by
  rw [dataField, field_set, if_neg (fun heq => h (String.toList_injective heq)), dataField]

/-- Each name of a tool is replaced by one of the ids. -/
def Binds (idByName : List (Text × Text)) (names ids : List Text) : Prop :=
  ∀ name ∈ names, bound idByName name ∈ ids ∧ bound idByName name ≠ []

theorem checkTool_bound (hbinds : Binds idByName names ids) {data : Data}
    (h : checkTool (some names) data = []) : checkTool (some ids) (bindTool idByName data) = [] := by
  obtain ⟨hid, hinput⟩ := List.append_eq_nil_iff.mp h
  cases htool : dataField data "toolId" with
  | str name =>
    have hname : name ∈ names := by
      rw [htool] at hid
      cases name with
      | nil => cases hid
      | cons c cs =>
        dsimp only at hid
        split_ifs at hid with hcontains
        exact List.contains_iff_mem.mp hcontains
    obtain ⟨hmem, hne⟩ := hbinds name hname
    rw [bindTool, htool, checkTool, dataField_set_self,
      dataField_set_of_ne data (by decide : "input" ≠ "toolId"), hinput, List.append_nil]
    obtain ⟨c, cs, hcs⟩ := List.exists_cons_of_ne_nil hne
    rw [hcs] at hmem ⊢
    exact if_pos (List.contains_iff_mem.mpr hmem)
  | undefined | null | bool _ | num _ | arr _ | obj _ =>
    rw [htool] at hid
    cases hid

theorem checkAgent_bound (hbinds : Binds idByName names ids) {data : Data}
    (h : checkAgent (some names) data = []) :
    checkAgent (some ids) (bindTools idByName data) = [] := by
  obtain ⟨hleft, hschema⟩ := List.append_eq_nil_iff.mp h
  obtain ⟨hprompt, htools⟩ := List.append_eq_nil_iff.mp hleft
  cases hdata : dataField data "toolIds" with
  | arr items =>
    rw [hdata] at htools
    dsimp only at htools
    split_ifs at htools with hstr
    rw [List.map_eq_nil_iff, List.filter_eq_nil_iff] at htools
    have hbound : ∀ t ∈ items, isStr (boundValue idByName t) = true ∧
        listed ids (boundValue idByName t) = true := by
      intro t ht
      have hlisted := htools t ht
      rw [Bool.not_eq_true, Bool.not_eq_false'] at hlisted
      cases t with
      | str name =>
        exact ⟨rfl, List.contains_iff_mem.mpr (hbinds name (List.contains_iff_mem.mp hlisted)).1⟩
      | undefined | null | bool _ | num _ | arr _ | obj _ => cases hlisted
    rw [bindTools, hdata, checkAgent, dataField_set_self,
      dataField_set_of_ne data (by decide : "prompt" ≠ "toolIds"),
      dataField_set_of_ne data (by decide : "outputSchema" ≠ "toolIds"), hprompt, hschema]
    have hall : (items.map (boundValue idByName)).all isStr = true := by
      rw [List.all_map, List.all_eq_true]
      exact fun t ht => (hbound t ht).1
    have hnone : (items.map (boundValue idByName)).filter (fun t => !listed ids t) = [] := by
      rw [List.filter_eq_nil_iff]
      intro t ht
      obtain ⟨u, hu, rfl⟩ := List.mem_map.mp ht
      rw [(hbound u hu).2]
      decide
    dsimp only
    rw [if_pos hall, hnone]
    rfl
  | undefined => rw [bindTools, hdata, checkAgent, hdata, hprompt, hschema]; rfl
  | null | bool _ | num _ | str _ | obj _ =>
    rw [hdata] at htools
    cases htools

theorem bindNode_fine (hbinds : Binds idByName names ids) {n : Node}
    (hn : NodeFine (some names) n) : NodeFine (some ids) (bindNode idByName n) := by
  obtain ⟨hid, t, ht, hcheck⟩ := hn
  refine ⟨hid, t, ht, ?_⟩
  have hname : n.type = t.name := nodeType_name ht
  rw [bindNode, hname]
  cases t with
  | tool => exact checkTool_bound hbinds hcheck
  | agent => exact checkAgent_bound hbinds hcheck
  | trigger | condition | action | transform | finish => exact hcheck

/-! ## Renaming keeps the graph -/

/-- The ids of the nodes and the edges decide the order. -/
theorem topoOrder_congr {g g' : Graph} (hids : g.nodes.map GraphNode.id = g'.nodes.map GraphNode.id)
    (hedges : g.edges = g'.edges) : topoOrder g = topoOrder g' := by
  have hzero : ∀ l : List GraphNode, l.foldl (fun (d : Degrees) n => Record.set d n.id 0) [] =
      (l.map GraphNode.id).foldl (fun d id => Record.set d id 0) [] :=
    fun l => by rw [List.foldl_map]
  have hqueue : ∀ (l : List GraphNode) (d : Degrees),
      (l.filter fun n => d.get n.id == 0).map GraphNode.id =
        (l.map GraphNode.id).filter fun id => d.get id == 0 :=
    fun l d => by rw [List.filter_map]; rfl
  have hlength : g.nodes.length = g'.nodes.length := by
    rw [← List.length_map, hids, List.length_map]
  simp only [topoOrder, hzero, hqueue, hids, hedges, hlength]

variable (idByName) in
theorem bindToolIds_ids (c : Canvas) :
    (bindToolIds c idByName).nodes.map Node.id = c.nodes.map Node.id := by
  rw [bindToolIds, List.map_map]
  rfl

variable (idByName) in
theorem triggers_bound (c : Canvas) :
    triggers (bindToolIds c idByName) = (triggers c).map (bindNode idByName) :=
  List.filter_map

variable (idByName) in
theorem typeAt_bound (c : Canvas) (id : Text) :
    typeAt (bindToolIds c idByName) id = typeAt c id := by
  rw [typeAt, bindToolIds, List.find?_map, Option.map_map]
  rfl

variable (idByName) in
theorem orderIssues_bound {c : Canvas} (h : orderIssues c = []) :
    orderIssues (bindToolIds c idByName) = [] := by
  have hids : (bindToolIds c idByName).graph.nodes.map GraphNode.id =
      c.graph.nodes.map GraphNode.id := by
    rw [Canvas.graph, List.map_map, Canvas.graph, List.map_map]
    exact bindToolIds_ids idByName c
  rw [orderIssues, triggers_bound, topoOrder_congr hids rfl]
  rw [orderIssues] at h
  cases horder : topoOrder c.graph with
  | none =>
    rw [horder] at h
    cases h
  | some order =>
    rw [horder] at h
    cases htriggers : triggers c with
    | nil => rfl
    | cons trigger rest =>
      cases rest with
      | cons _ _ => rfl
      | nil =>
        rw [htriggers] at h
        simp only [List.map_eq_nil_iff, List.filter_eq_nil_iff] at h
        simp only [List.map_cons, List.map_nil, List.map_eq_nil_iff, List.filter_eq_nil_iff]
        intro n hn
        obtain ⟨m, hm, rfl⟩ := List.mem_map.mp hn
        exact h m hm

/-- Renaming keeps the normal form. -/
theorem bindToolIds_fine (hbinds : Binds idByName names ids) {c : Canvas}
    (h : Fine (some names) c) : Fine (some ids) (bindToolIds c idByName) where
  nodesLength := by
    rw [bindToolIds, List.length_map]
    exact h.nodesLength
  edgesLength := h.edgesLength
  ids := bindToolIds_ids idByName c ▸ h.ids
  nodes n hn := by
    obtain ⟨m, hm, rfl⟩ := List.mem_map.mp hn
    exact bindNode_fine hbinds (h.nodes m hm)
  edgeIds := h.edgeIds
  edges := bindToolIds_ids idByName c ▸ h.edges
  trigger := by
    have hnodes : (bindToolIds c idByName).nodes = [] ↔ c.nodes = [] := List.map_eq_nil_iff
    have htrigger := h.trigger
    rw [triggerIssues] at htrigger ⊢
    simp only [hnodes, triggers_bound, List.length_map, ne_eq]
    exact htrigger
  rules e he := by
    have hrule := h.rules e he
    rw [edgeIssues] at hrule ⊢
    rw [typeAt_bound, typeAt_bound]
    exact hrule
  order := orderIssues_bound idByName h.order

end

/-! ## Creating the agent -/

/-- The names in the set are those of the tools, as long as there is no issue. -/
theorem readTool_accepts {env : Env} {refs : List Text} {r r' : Reading BlueprintTool}
    {raw : JsValue} {i : ℕ} (h : readTool env refs r (raw, i) = some r') (hnil : r'.issues = []) :
    r.issues = [] ∧ ∃ t : BlueprintTool, True ∧ t.name ∉ r.ids ∧
      r' = ⟨r.items ++ [t], r.ids ++ [t.name], []⟩ := by
  unfold readTool at h
  cases raw with
  | obj t =>
    obtain ⟨name, -, h⟩ := Option.bind_eq_some_iff.mp h
    split_ifs at h with hname hmem
    · cases h
      exact not_issue_nil hnil
    · cases h
      exact not_issue_nil hnil
    · rw [readNamed] at h
      cases hkind : kindIn toolKinds (dataField t "kind") with
      | none =>
        rw [hkind] at h
        cases h
        exact not_issue_nil hnil
      | some kind =>
        rw [hkind] at h
        obtain ⟨description, -, rfl⟩ := Option.map_eq_some_iff.mp h
        refine ⟨(List.append_eq_nil_iff.mp hnil).1, _, trivial, ?_,
          (Reading.mk.injEq ..).mpr ⟨rfl, rfl, hnil⟩⟩
        exact hmem
  | undefined | null | bool _ | num _ | arr _ | str _ =>
    cases h
    exact not_issue_nil hnil

/-- The workflow of a blueprint without issues is in normal form, over the names of its tools. -/
theorem workflow_fine {env : Env} {raw : JsValue} {bp : Blueprint}
    (h : validateBlueprint env raw = some (bp, [])) {graph : Canvas}
    (hgraph : bp.workflow = some graph) :
    Fine (some (bp.tools.map BlueprintTool.name)) graph := by
  simp only [validateBlueprint, Option.bind_eq_bind, Option.bind_eq_some_iff, Option.pure_def,
    Option.some.injEq, Prod.mk.injEq, List.append_eq_nil_iff] at h
  obtain ⟨name, -, description, -, instructions, -, model, -, needed, -, tools, htools, workflow,
    hworkflow, variableDefs, -, rfl, ⟨⟨-, htoolsNil⟩, hworkflowNil⟩⟩ := h
  have haccepts := accepts (fun _ _ _ _ => readTool_accepts) htools htoolsNil
  rw [readWorkflow] at hworkflow
  split_ifs at hworkflow with hnull
  · cases hworkflow
    cases hgraph
  · obtain ⟨⟨canvas, issues⟩, hvalid, rfl⟩ := Option.map_eq_some_iff.mp hworkflow
    cases hgraph
    rw [List.map_eq_nil_iff] at hworkflowNil
    dsimp only at hworkflowNil
    subst hworkflowNil
    rw [haccepts.ids] at hvalid
    exact fine_of_accepted hvalid

/-- The ids of the rows that `createFromBlueprint` inserts for the tools, by name. -/
def idByName (tools : List BlueprintTool) (rowId : Text → Text) : List (Text × Text) :=
  tools.map fun t => (t.name, rowId t.name)

/-- What `issues` of an agent says about its workflow. -/
def workflowIssues (toolIds : List Text) : Option Canvas → Option (List Text)
  | none => some []
  | some graph => (validateGraph (Canvas.json graph) (some toolIds)).map fun r =>
      r.2.map fun i => "Workflow: ".toList ++ i.message

theorem lookup_idByName {tools : List BlueprintTool} {name : Text}
    (h : name ∈ tools.map BlueprintTool.name) (rowId : Text → Text) :
    (idByName tools rowId).lookup name = some (rowId name) := by
  induction tools with
  | nil => cases h
  | cons t tools ih =>
    rw [idByName, List.map_cons, List.lookup_cons]
    by_cases ht : name = t.name
    · rw [ht, beq_self_eq_true]
    · rw [beq_false_of_ne ht]
      exact ih ((List.mem_cons.mp h).resolve_left ht)

theorem binds_idByName {tools : List BlueprintTool} {rowId : Text → Text}
    (hid : ∀ t ∈ tools, rowId t.name ≠ []) :
    Binds (idByName tools rowId) (tools.map BlueprintTool.name)
      (tools.map fun t => rowId t.name) := by
  intro name hname
  rw [bound, lookup_idByName hname, Option.getD_some]
  obtain ⟨t, ht, rfl⟩ := List.mem_map.mp hname
  exact ⟨List.mem_map_of_mem ht, hid t ht⟩

/-- The workflow of an agent made from a blueprint without issues is accepted with the ids of
its tools and comes back unchanged, so the agent has no workflow problem. -/
theorem bindToolIds_accepted (env : Env) (raw : JsValue) (bp : Blueprint)
    (h : validateBlueprint env raw = some (bp, [])) (rowId : Text → Text)
    (hid : ∀ t ∈ bp.tools, rowId t.name ≠ []) :
    (∀ graph, bp.workflow = some graph →
      validateGraph (Canvas.json (bindToolIds graph (idByName bp.tools rowId)))
          (some (bp.tools.map fun t => rowId t.name)) =
        some (bindToolIds graph (idByName bp.tools rowId), [])) ∧
    workflowIssues (bp.tools.map fun t => rowId t.name)
      (bp.workflow.map fun graph => bindToolIds graph (idByName bp.tools rowId)) = some [] := by
  have haccepted : ∀ graph, bp.workflow = some graph →
      validateGraph (Canvas.json (bindToolIds graph (idByName bp.tools rowId)))
          (some (bp.tools.map fun t => rowId t.name)) =
        some (bindToolIds graph (idByName bp.tools rowId), []) := fun graph hgraph =>
    accepted_of_fine (bindToolIds_fine (binds_idByName hid) (workflow_fine h hgraph))
  refine ⟨haccepted, ?_⟩
  cases hworkflow : bp.workflow with
  | none => rfl
  | some graph => rw [Option.map_some, workflowIssues, haccepted graph hworkflow]; rfl

/-- A draft whose workflow calls its only tool. -/
def draft : JsValue :=
  .obj [("agent".toList, .obj [("name".toList, .str "Support".toList)]),
    ("tools".toList, .arr [.obj [("name".toList, .str "reply".toList),
      ("kind".toList, .str "send_email".toList)]]),
    ("workflow".toList, .obj [
      ("nodes".toList, .arr [
        .obj [("id".toList, .str "start".toList), ("type".toList, .str "trigger".toList)],
        .obj [("id".toList, .str "mail".toList), ("type".toList, .str "tool".toList),
          ("data".toList, .obj [("toolId".toList, .str "reply".toList)])]]),
      ("edges".toList, .arr [.obj [("source".toList, .str "start".toList),
        ("target".toList, .str "mail".toList)]])])]

theorem bindToolIds_accepted_draft : ∃ bp, ∃ graph,
    validateBlueprint ⟨fun _ _ => none, fun _ => none⟩ draft = some (bp, []) ∧
      bp.workflow = some graph ∧
      validateGraph
          (Canvas.json (bindToolIds graph (idByName bp.tools fun name => 'c' :: name)))
          (some (bp.tools.map fun t => 'c' :: t.name)) =
        some (bindToolIds graph (idByName bp.tools fun name => 'c' :: name), []) := by
  have hdraft : (validateBlueprint ⟨fun _ _ => none, fun _ => none⟩ draft).map
      (fun r => (r.1.workflow.isSome, r.2)) = some (true, []) := by decide
  obtain ⟨⟨bp, issues⟩, hbp, hr⟩ := Option.map_eq_some_iff.mp hdraft
  obtain ⟨hsome, rfl⟩ := Prod.mk.inj hr
  obtain ⟨graph, hgraph⟩ := Option.isSome_iff_exists.mp hsome
  exact ⟨bp, graph, hbp, hgraph, (bindToolIds_accepted _ draft bp hbp (fun name => 'c' :: name)
    fun t _ => List.cons_ne_nil _ _).1 graph hgraph⟩

end Prgd.Blueprints
