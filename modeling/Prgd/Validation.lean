import Prgd.TopoOrder

/-!
# The validator on any value

`validateGraph` of `graph.ts` with everything it returns and with the errors it throws. A
function of this module is `none` where the code throws a `TypeError`: for a text of a value
that has none, for a node type that is only a member of `Object.prototype`, and for an edge
whose node was dropped. The graphs that are accepted are those of `Workflow.validateGraph`.
-/
namespace Prgd.Validation
open Workflow

structure Node where
  id : Text
  type : Text
  position : JsNumber × JsNumber
  data : Data
  deriving DecidableEq

structure Edge where
  id : Text
  source : Text
  target : Text
  sourceHandle : Option Text
  label : Option Text
  deriving DecidableEq

structure Canvas where
  nodes : List Node := []
  edges : List Edge := []
  deriving DecidableEq

/-! ## Texts of values -/

mutual
/-- `String(v)`. An object with a `toString` of its own cannot be converted: data holds no
functions. -/
def textOf : JsValue → Option Text
  | .arr items => (textOfItems items).map (Text.join [','])
  | .obj fields =>
      if (JsValue.field fields "toString".toList).isSome then none
      else some "[object Object]".toList
  | v => some v.toStr
def textOfItems : List JsValue → Option (List Text)
  | [] => some []
  | v :: vs => do
      let t ← if v.isNullish then pure [] else textOf v
      return t :: (← textOfItems vs)
end

/-! ## Node types -/

/-- The members of `Object.prototype`, which `in` finds too. -/
def objectMembers : List Text :=
  ["constructor".toList, "__defineGetter__".toList, "__defineSetter__".toList,
    "hasOwnProperty".toList, "__lookupGetter__".toList, "__lookupSetter__".toList,
    "isPrototypeOf".toList, "propertyIsEnumerable".toList, "toString".toList,
    "valueOf".toList, "__proto__".toList, "toLocaleString".toList]

/-- The members that return a text; the characters of it are taken for messages. -/
def textMembers : List Text := ["toString".toList, "toLocaleString".toList]

/-- `for (const m of NODE_TYPES[type](data, opts))` for a text that `in` finds. The other
members are no functions, throw, or return what cannot be iterated. -/
def checks (toolIds : Option (List Text)) (type : Text) (data : Data) : Option (List Text) :=
  match nodeType (.str type) with
  | some t => some (checkData toolIds t data)
  | none =>
      if type ∈ textMembers then some ("[object Object]".toList.map fun c => [c]) else none

def inNodeTypes (type : Text) : Bool :=
  (nodeType (.str type)).isSome || objectMembers.contains type

/-! ## Nodes -/

def position (fields : Data) (i : ℕ) : JsNumber × JsNumber :=
  match dataField fields "position" with
  | .obj p =>
      match dataField p "x", dataField p "y" with
      | .num x, .num y => (x, y)
      | _, _ => (.fin 0, .ofNat (i * 120))
  | _ => (.fin 0, .ofNat (i * 120))

/-- The data of a node; it may be left out. -/
def dataOf (fields : Data) : Option Data :=
  match dataField fields "data" with
  | .undefined => some []
  | .obj data => some data
  | _ => none

def unknownType (path text : Text) (r : Reading Node) : Reading Node :=
  r.issue (path ++ ".type".toList)
    ("unknown node type ".toList ++ text ++ "; use one of ".toList ++
      Text.join ", ".toList (nodeTypes.map NodeType.name))

/-- A node with an id of its own. -/
def readTyped (toolIds : Option (List Text)) (r : Reading Node) (i : ℕ) (id : Text)
    (fields : Data) : Option (Reading Node) :=
  let path := indexed "graph.nodes" i
  match dataField fields "type" with
  | .str type =>
      if inNodeTypes type then
        match dataOf fields with
        | none => some (r.issue (path ++ ".data".toList) "data must be an object".toList)
        | some data =>
            (checks toolIds type data).map fun messages =>
              { r with
                items := r.items ++ [⟨id, type, position fields i, data⟩]
                issues := r.issues ++ messages.map fun m =>
                  ⟨path ++ ".data".toList, id ++ ": ".toList ++ m⟩ }
      else some (unknownType path type r)
  | v => (textOf v).map fun text => unknownType path text r

def idText : Text :=
  "id must start with a letter and use letters, digits, _ or - (max 64)".toList

def readNode (toolIds : Option (List Text)) (r : Reading Node) (raw : JsValue × ℕ) :
    Option (Reading Node) :=
  let path := indexed "graph.nodes" raw.2
  match raw.1 with
  | .obj fields =>
      match dataField fields "id" with
      | .str id =>
          if !isId id then some (r.issue (path ++ ".id".toList) idText)
          else if id ∈ r.ids then
            some (r.issue (path ++ ".id".toList) ("duplicate node id ".toList ++ id))
          else readTyped toolIds { r with ids := r.ids ++ [id] } raw.2 id fields
      | _ => some (r.issue (path ++ ".id".toList) idText)
  | _ => some (r.issue path "node must be an object".toList)

/-! ## Edges -/

def edgeKey (fields : Data) (i : ℕ) : Text :=
  match dataField fields "id" with
  | .str (c :: cs) => c :: cs
  | _ => 'e' :: JsNumber.digits i

def readEdge (ids : List Text) (r : Reading Edge) (raw : JsValue × ℕ) : Option (Reading Edge) :=
  let path := indexed "graph.edges" raw.2
  match raw.1 with
  | .obj fields =>
      let id := edgeKey fields raw.2
      if id ∈ r.ids then
        some (r.issue (path ++ ".id".toList) ("duplicate edge id ".toList ++ id))
      else
        let r := { r with ids := r.ids ++ [id] }
        let source := dataField fields "source"
        let target := dataField fields "target"
        match knownId ids source, knownId ids target with
        | none, _ => (textOf source).map fun t =>
            r.issue (path ++ ".source".toList) ("unknown source node ".toList ++ t)
        | some _, none => (textOf target).map fun t =>
            r.issue (path ++ ".target".toList) ("unknown target node ".toList ++ t)
        | some source, some target =>
            if source = target then
              some (r.issue path "an edge cannot connect a node to itself".toList)
            else some { r with
              items := r.items ++ [⟨id, source, target,
                textOrNull (dataField fields "sourceHandle"),
                textOrNull (dataField fields "label")⟩] }
  | _ => some (r.issue path "edge must be an object".toList)

/-! ## The graph -/

/-- What the algorithms read: they look at ids only. -/
def Canvas.graph (canvas : Canvas) : Graph where
  nodes := canvas.nodes.map fun n => ⟨n.id, (nodeType (.str n.type)).getD .transform, n.data⟩
  edges := canvas.edges.map fun e => ⟨e.id, e.source, e.target, e.sourceHandle⟩

/-- `byId.get(id)!.type` -/
def typeAt (canvas : Canvas) (id : Text) : Option Text :=
  (canvas.nodes.find? fun n => n.id == id).map Node.type

def edgeIssues (canvas : Canvas) (e : Edge) : Option (List GraphIssue) := do
  let path := "edge ".toList ++ e.id
  let target ← typeAt canvas e.target
  let source ← typeAt canvas e.source
  return (if target = "trigger".toList then
      [⟨path, "nothing can lead into the trigger".toList⟩] else []) ++
    (if source = "end".toList then
      [⟨path, "an end node has no outgoing edges".toList⟩] else []) ++
    (if source = "condition".toList ∧ e.sourceHandle ≠ some "true".toList ∧
        e.sourceHandle ≠ some "false".toList then
      [⟨path, "edges leaving a condition need sourceHandle \"true\" or \"false\"".toList⟩]
    else [])

def triggers (canvas : Canvas) : List Node :=
  canvas.nodes.filter fun n => n.type = "trigger".toList

def triggerIssues (canvas : Canvas) : List GraphIssue :=
  (if canvas.nodes ≠ [] ∧ (triggers canvas).length ≠ 1 then
    [⟨"graph.nodes".toList, "a workflow needs exactly one trigger node (found ".toList ++
      JsNumber.digits (triggers canvas).length ++ [')']⟩] else []) ++
  (if canvas.nodes = [] then
    [⟨"graph.nodes".toList, "a workflow needs a trigger node".toList⟩] else [])

def orderIssues (canvas : Canvas) : List GraphIssue :=
  match topoOrder canvas.graph, triggers canvas with
  | none, _ => [⟨"graph.edges".toList, "the workflow has a cycle".toList⟩]
  | some _, [trigger] =>
      (canvas.nodes.filter fun n => n.id ∉ reachable canvas.graph trigger.id).map fun n =>
        ⟨"node ".toList ++ n.id, n.id ++ " cannot be reached from the trigger".toList⟩
  | some _, _ => []

def sizeIssues (nodes edges : List JsValue) : List GraphIssue :=
  (if maxNodes < nodes.length then
    [⟨"graph.nodes".toList, "at most 100 nodes".toList⟩] else []) ++
  if maxEdges < edges.length then
    [⟨"graph.edges".toList, "at most 300 edges".toList⟩] else []

/-- Normalizes a graph and lists every issue; `none` when it throws. -/
def validateGraph (input : JsValue) (toolIds : Option (List Text)) :
    Option (Canvas × List GraphIssue) :=
  match input with
  | .obj fields =>
      match asList (dataField fields "nodes"), edgeList (dataField fields "edges") with
      | some nodes, some edges => do
          let ns ← nodes.zipIdx.foldlM (readNode toolIds) {}
          let es ← edges.zipIdx.foldlM (readEdge ns.ids) {}
          let canvas : Canvas := ⟨ns.items, es.items⟩
          let rules ← canvas.edges.mapM (edgeIssues canvas)
          return (canvas, sizeIssues nodes edges ++ ns.issues ++ es.issues ++
            triggerIssues canvas ++ rules.flatten ++ orderIssues canvas)
      | nodes, edges =>
          some ({},
            (if nodes = none then
              [⟨"graph.nodes".toList, "nodes must be a list".toList⟩] else []) ++
            if edges = none then
              [⟨"graph.edges".toList, "edges must be a list".toList⟩] else [])
  | _ => some ({},
      [⟨"graph".toList, "graph must be an object with nodes and edges".toList⟩])

/-! ## Elements and what stands before them -/

section
variable {α β : Type}

/-- Some element satisfies the predicate together with the elements before it. -/
def Occurs (P : List α → α → Prop) (l : List α) : Prop :=
  ∃ before a after, l = before ++ a :: after ∧ P before a

theorem not_occurs_nil {P : List α → α → Prop} : ¬ Occurs P [] := by
  rintro ⟨before, a, after, h, -⟩
  simp at h

theorem occurs_snoc {P : List α → α → Prop} {l : List α} {a : α} :
    Occurs P (l ++ [a]) ↔ Occurs P l ∨ P l a := by
  constructor
  · rintro ⟨before, b, after, h, hP⟩
    rcases List.eq_nil_or_concat after with rfl | ⟨rest, c, rfl⟩
    · obtain ⟨rfl, hb⟩ := List.append_inj' h rfl
      cases hb
      exact .inr hP
    · rw [List.concat_eq_append, ← List.cons_append, ← List.append_assoc] at h
      obtain ⟨hl, -⟩ := List.append_inj' h rfl
      exact .inl ⟨before, b, rest, hl, hP⟩
  · rintro (⟨before, b, after, rfl, hP⟩ | hP)
    · exact ⟨before, b, after ++ [a], by simp, hP⟩
    · exact ⟨l, a, [], rfl, hP⟩

/-- What each round of a loop with an index keeps holds at its end. -/
theorem foldlM_zipIdx_inv {f : β → α × ℕ → Option β} {b : β} {I : List α → β → Prop}
    (hstart : I [] b)
    (hstep : ∀ l r a r', I l r → f r (a, l.length) = some r' → I (l ++ [a]) r') (l : List α)
    (r : β) (h : l.zipIdx.foldlM f b = some r) : I l r := by
  induction l using List.reverseRecOn generalizing r with
  | nil =>
    cases h
    exact hstart
  | append_singleton l a ih =>
    simp only [List.zipIdx_append, List.foldlM_append, Nat.zero_add, List.zipIdx_singleton,
      List.foldlM_cons, List.foldlM_nil, bind_pure, Option.bind_eq_bind] at h
    obtain ⟨r', hl, hr⟩ := Option.bind_eq_some_iff.mp h
    exact hstep l r' a r (ih r' hl) hr

/-- A loop with an index, over an invariant on the elements read so far. -/
theorem foldlM_zipIdx {f : β → α × ℕ → Option β} {b : β} {Inv : List α → β → Prop}
    {ok : List α → α → Prop} (hstart : Inv [] b)
    (hstep : ∀ l r a, Inv l r → ((f r (a, l.length)).isSome ↔ ok l a) ∧
      ∀ r', f r (a, l.length) = some r' → Inv (l ++ [a]) r') (l : List α) :
    ((l.zipIdx.foldlM f b).isSome ↔ ¬ Occurs (fun before a => ¬ ok before a) l) ∧
      ∀ r, l.zipIdx.foldlM f b = some r → Inv l r := by
  have hinv := foldlM_zipIdx_inv hstart fun l r a r' h hr => (hstep l r a h).2 r' hr
  refine ⟨?_, hinv l⟩
  induction l using List.reverseRecOn with
  | nil => simpa using not_occurs_nil
  | append_singleton l a ih =>
    rw [List.zipIdx_append, List.foldlM_append, occurs_snoc, not_or, not_not]
    simp only [Nat.zero_add, List.zipIdx_singleton, List.foldlM_cons, List.foldlM_nil,
      bind_pure, Option.bind_eq_bind]
    cases hl : l.zipIdx.foldlM f b with
    | none =>
      rw [hl] at ih
      simp only [Option.isSome_none, Bool.false_eq_true, false_iff] at ih
      simp [ih]
    | some r =>
      rw [hl] at ih
      rw [Option.bind_some, ← ih, (hstep l r a (hinv l r hl)).1]
      simp

/-- A loop with an index that builds its result from the elements in turn. -/
theorem foldlM_zipIdx_eq {γ : Type} {f : β → α × ℕ → Option β} {g : List γ → β} {j : γ → α}
    {P : List γ → Prop} (hok : ∀ l c, P (l ++ [c]) → P l)
    (hstep : ∀ l c, P (l ++ [c]) → f (g l) (j c, l.length) = some (g (l ++ [c])))
    (l : List γ) (h : P l) : (l.map j).zipIdx.foldlM f (g []) = some (g l) := by
  induction l using List.reverseRecOn with
  | nil => rfl
  | append_singleton l c ih =>
    simp only [List.map_append, List.map_singleton, List.zipIdx_append, List.foldlM_append,
      ih (hok l c h), Nat.zero_add, List.zipIdx_singleton, List.foldlM_cons, List.foldlM_nil,
      bind_pure, List.length_map, Option.bind_eq_bind, Option.bind_some, hstep l c h]

end

/-! ## When it throws -/

/-- The id that a node registers, unless an earlier one has it. -/
def nodeKey : JsValue → Option Text
  | .obj fields =>
      match dataField fields "id" with
      | .str id => if isId id then some id else none
      | _ => none
  | _ => none

def nodeKeys (nodes : List JsValue) : List Text := nodes.filterMap nodeKey

/-- The node is the first one with its id. -/
def Registers (nodes : List JsValue) (id : Text) (fields : Data) : Prop :=
  Occurs (fun before raw => raw = .obj fields ∧ nodeKey raw = some id ∧ id ∉ nodeKeys before) nodes

/-- Another type than a text has a text, and the data of a member of `Object.prototype` is not
looked at, or the member returns a text. -/
def TypeFine (fields : Data) : Prop :=
  match dataField fields "type" with
  | .str type => type ∈ objectMembers → type ∈ textMembers ∨ dataOf fields = none
  | v => (textOf v).isSome

/-- The node stays in the graph. -/
def Kept (fields : Data) : Prop :=
  ∃ type, dataField fields "type" = .str type ∧ inNodeTypes type = true ∧ (dataOf fields).isSome

def edgeKeyAt (raw : JsValue × ℕ) : Option Text :=
  match raw.1 with
  | .obj fields => some (edgeKey fields raw.2)
  | _ => none

def edgeKeys (edges : List JsValue) : List Text := edges.zipIdx.filterMap edgeKeyAt

/-- An edge with a new id that connects two known nodes. -/
def Connects (nodes : List JsValue) (source target : Text) (before : List JsValue)
    (raw : JsValue) : Prop :=
  ∃ fields, raw = .obj fields ∧ edgeKey fields before.length ∉ edgeKeys before ∧
    knownId (nodeKeys nodes) (dataField fields "source") = some source ∧
    knownId (nodeKeys nodes) (dataField fields "target") = some target ∧ source ≠ target

/-- The end that is reported has a text. -/
def TextsFine (nodes : List JsValue) (fields : Data) : Prop :=
  match knownId (nodeKeys nodes) (dataField fields "source"),
    knownId (nodeKeys nodes) (dataField fields "target") with
  | none, _ => (textOf (dataField fields "source")).isSome
  | some _, none => (textOf (dataField fields "target")).isSome
  | some _, some _ => True

/-- An edge that is read, and the nodes at its ends when it is kept. -/
structure EdgeFine (nodes before : List JsValue) (raw : JsValue) : Prop where
  texts : ∀ fields, raw = .obj fields → edgeKey fields before.length ∉ edgeKeys before →
    TextsFine nodes fields
  ends : ∀ source target, Connects nodes source target before raw →
    ∀ id ∈ [source, target], ∃ f, Registers nodes id f ∧ Kept f

/-- Nothing makes the validator throw. -/
structure Tame (nodes edges : List JsValue) : Prop where
  types : ∀ id fields, Registers nodes id fields → TypeFine fields
  edges : ¬ Occurs (fun before raw => ¬ EdgeFine nodes before raw) edges

/-! ## Malformed nodes and edges -/

def WellFormedNode (toolIds : Option (List Text)) (before : List JsValue) (raw : JsValue) : Prop :=
  ∃ fields id type data, raw = .obj fields ∧ nodeKey raw = some id ∧ id ∉ nodeKeys before ∧
    nodeType (dataField fields "type") = some type ∧ dataOf fields = some data ∧
    checkData toolIds type data = []

def WellFormedEdge (nodes before : List JsValue) (raw : JsValue) : Prop :=
  ∃ source target, Connects nodes source target before raw

def MalformedNode (toolIds : Option (List Text)) (nodes : List JsValue) : Prop :=
  Occurs (fun before raw => ¬ WellFormedNode toolIds before raw) nodes

def MalformedEdge (nodes edges : List JsValue) : Prop :=
  Occurs (fun before raw => ¬ WellFormedEdge nodes before raw) edges

/-- The value is a graph with a malformed node or edge. -/
def Malformed (toolIds : Option (List Text)) (input : JsValue) : Prop :=
  ∃ fields nodes, input = .obj fields ∧ asList (dataField fields "nodes") = some nodes ∧
    (MalformedNode toolIds nodes ∨
      ∃ edges, edgeList (dataField fields "edges") = some edges ∧ MalformedEdge nodes edges)

/-- Nothing in the value makes the validator throw. -/
def Harmless (input : JsValue) : Prop :=
  ∀ fields nodes edges, input = .obj fields → asList (dataField fields "nodes") = some nodes →
    edgeList (dataField fields "edges") = some edges → Tame nodes edges

/-! ## Reading the nodes -/

section
variable {toolIds : Option (List Text)} {nodes : List JsValue} {raw : JsValue}

theorem nodeKeys_snoc (nodes : List JsValue) (raw : JsValue) (id : Text) :
    id ∈ nodeKeys (nodes ++ [raw]) ↔ id ∈ nodeKeys nodes ∨ nodeKey raw = some id := by
  simp [nodeKeys]

theorem registers_snoc {id : Text} {fields : Data} : Registers (nodes ++ [raw]) id fields ↔
    Registers nodes id fields ∨
      raw = .obj fields ∧ nodeKey raw = some id ∧ id ∉ nodeKeys nodes := occurs_snoc

/-- What the loop over the nodes has found out about those it has read. -/
structure ReadsNodes (toolIds : Option (List Text)) (nodes : List JsValue) (r : Reading Node) :
    Prop where
  ids : ∀ id, id ∈ r.ids ↔ id ∈ nodeKeys nodes
  items : ∀ id, id ∈ r.items.map Node.id ↔ ∃ fields, Registers nodes id fields ∧ Kept fields
  issues : Occurs (fun before raw => ¬ WellFormedNode toolIds before raw) nodes → r.issues ≠ []

theorem readsNodes_start (toolIds : Option (List Text)) : ReadsNodes toolIds [] {} where
  ids := by simp [nodeKeys]
  items := by
    intro id
    constructor
    · simp
    · rintro ⟨fields, hreg, -⟩
      exact absurd hreg not_occurs_nil
  issues h := absurd h not_occurs_nil

/-- A node that registers no id adds an issue. -/
theorem ReadsNodes.issue {r : Reading Node} (h : ReadsNodes toolIds nodes r)
    (hraw : ∀ id, nodeKey raw = some id → id ∈ nodeKeys nodes) (path message : Text) :
    ReadsNodes toolIds (nodes ++ [raw]) (r.issue path message) where
  ids id := by
    rw [nodeKeys_snoc, ← h.ids]
    exact ⟨.inl, fun hid => hid.elim (fun hold => hold) fun hkey => (h.ids id).mpr (hraw id hkey)⟩
  items id := by
    rw [Reading.issue, h.items]
    refine exists_congr fun fields => and_congr_left' ?_
    rw [registers_snoc]
    exact ⟨.inl, fun hreg => hreg.elim (fun hold => hold) fun hnew => absurd (hraw id hnew.2.1) hnew.2.2⟩
  issues _ := issue_ne_nil r path message

variable {fields : Data} {id : Text} {r : Reading Node}

theorem registers_new (hkey : nodeKey (.obj fields) = some id) (hnew : id ∉ nodeKeys nodes)
    {v : Text} : (∃ f, Registers (nodes ++ [.obj fields]) v f ∧ Kept f) ↔
      (∃ f, Registers nodes v f ∧ Kept f) ∨ v = id ∧ Kept fields := by
  constructor
  · rintro ⟨f, hreg, hkept⟩
    rcases registers_snoc.mp hreg with hold | ⟨hf, hv, -⟩
    · exact .inl ⟨f, hold, hkept⟩
    · cases hf
      exact .inr ⟨Option.some.inj (hv.symm.trans hkey), hkept⟩
  · rintro (⟨f, hreg, hkept⟩ | ⟨rfl, hkept⟩)
    · exact ⟨f, registers_snoc.mpr (.inl hreg), hkept⟩
    · exact ⟨fields, registers_snoc.mpr (.inr ⟨rfl, hkey, hnew⟩), hkept⟩

theorem ReadsNodes.ids_new (h : ReadsNodes toolIds nodes r)
    (hkey : nodeKey (.obj fields) = some id) (v : Text) :
    v ∈ r.ids ++ [id] ↔ v ∈ nodeKeys (nodes ++ [.obj fields]) := by
  rw [nodeKeys_snoc, List.mem_append, List.mem_singleton, h.ids, hkey, Option.some.injEq,
    eq_comm (a := v)]

/-- A node with a new id is dropped with an issue. -/
theorem ReadsNodes.drop (h : ReadsNodes toolIds nodes r) (hkey : nodeKey (.obj fields) = some id)
    (hnew : id ∉ nodeKeys nodes) (hdrop : ¬ Kept fields) (path message : Text) :
    ReadsNodes toolIds (nodes ++ [.obj fields])
      (Reading.issue { r with ids := r.ids ++ [id] } path message) where
  ids := h.ids_new hkey
  items v := by
    rw [registers_new hkey hnew]
    simp only [Reading.issue, h.items, hdrop, and_false, or_false]
  issues _ := issue_ne_nil _ path message

/-- A node with a new id stays in the graph, with the messages of its check. -/
theorem ReadsNodes.keep (h : ReadsNodes toolIds nodes r) (hkey : nodeKey (.obj fields) = some id)
    (hnew : id ∉ nodeKeys nodes) (hkept : Kept fields) {node : Node} (hnode : node.id = id)
    {issues : List GraphIssue}
    (hissues : issues = [] → WellFormedNode toolIds nodes (.obj fields)) :
    ReadsNodes toolIds (nodes ++ [.obj fields])
      { ids := r.ids ++ [id], items := r.items ++ [node], issues := r.issues ++ issues } where
  ids := h.ids_new hkey
  items v := by
    rw [registers_new hkey hnew]
    simp only [List.map_append, List.map_cons, List.map_nil, List.mem_append, List.mem_singleton,
      h.items, hnode, hkept, and_true]
  issues hoccurs hnil := by
    rw [List.append_eq_nil_iff] at hnil
    rcases occurs_snoc.mp hoccurs with hold | hbad
    · exact h.issues hold hnil.1
    · exact hbad (hissues hnil.2)

theorem nodeType_name {type : Text} {t : NodeType} (h : nodeType (.str type) = some t) :
    type = t.name := by
  have := List.find?_some h
  simpa using this

theorem checks_isSome {type : Text} (hin : inNodeTypes type = true) (data : Data) :
    (checks toolIds type data).isSome ↔ (type ∈ objectMembers → type ∈ textMembers) := by
  rw [checks]
  cases htype : nodeType (.str type) with
  | some t =>
    have hnot : ∀ t : NodeType, t.name ∉ objectMembers := by
      intro t
      cases t <;> decide
    simp [nodeType_name htype, hnot t]
  | none =>
    have hmem : type ∈ objectMembers := by simpa [inNodeTypes, htype] using hin
    by_cases htext : type ∈ textMembers <;> simp [htext, hmem]

theorem readTyped_isSome (r : Reading Node) (i : ℕ) (id : Text) (fields : Data) :
    (readTyped toolIds r i id fields).isSome ↔ TypeFine fields := by
  rw [readTyped, TypeFine]
  cases dataField fields "type" with
  | str type =>
    dsimp only
    by_cases hin : inNodeTypes type = true
    · rw [if_pos hin]
      cases hdata : dataOf fields with
      | none => simp
      | some data => simp [checks_isSome hin]
    · have hnot : type ∉ objectMembers := by
        rw [inNodeTypes, Bool.or_eq_true, not_or, List.contains_iff_mem] at hin
        exact hin.2
      rw [if_neg hin]
      exact ⟨fun _ hmem => absurd hmem hnot, fun _ => rfl⟩
  | undefined | null | bool _ | num _ | arr _ | obj _ =>
    dsimp only
    rw [Option.isSome_map]

theorem checks_nil {type : Text} {data : Data} (h : checks toolIds type data = some []) :
    ∃ t, nodeType (.str type) = some t ∧ checkData toolIds t data = [] := by
  rw [checks] at h
  cases htype : nodeType (.str type) with
  | some t =>
    rw [htype] at h
    exact ⟨t, rfl, Option.some.inj h⟩
  | none =>
    rw [htype] at h
    dsimp only at h
    split at h
    · cases h
    · cases h

theorem ReadsNodes.typed (h : ReadsNodes toolIds nodes r) (hkey : nodeKey (.obj fields) = some id)
    (hnew : id ∉ nodeKeys nodes) {i : ℕ} {r' : Reading Node}
    (hread : readTyped toolIds { r with ids := r.ids ++ [id] } i id fields = some r') :
    ReadsNodes toolIds (nodes ++ [.obj fields]) r' := by
  rw [readTyped] at hread
  cases htype : dataField fields "type" with
  | str type =>
    rw [htype] at hread
    dsimp only at hread
    split at hread
    next hin =>
      cases hdata : dataOf fields with
      | none =>
        rw [hdata] at hread
        cases hread
        refine h.drop hkey hnew ?_ _ _
        rintro ⟨_, -, -, hsome⟩
        rw [hdata] at hsome
        cases hsome
      | some data =>
        rw [hdata] at hread
        obtain ⟨messages, hmessages, rfl⟩ := Option.map_eq_some_iff.mp hread
        refine h.keep hkey hnew ⟨type, htype, hin, by rw [hdata]; rfl⟩ rfl fun hnil => ?_
        rw [List.map_eq_nil_iff] at hnil
        subst hnil
        obtain ⟨t, ht, hcheck⟩ := checks_nil hmessages
        exact ⟨fields, id, t, data, rfl, hkey, hnew, htype ▸ ht, hdata, hcheck⟩
    next hin =>
      cases hread
      refine h.drop hkey hnew ?_ _ _
      rintro ⟨type', htype', hin', -⟩
      rw [htype] at htype'
      cases htype'
      exact hin hin'
  | undefined | null | bool _ | num _ | arr _ | obj _ =>
    rw [htype] at hread
    obtain ⟨text, -, rfl⟩ := Option.map_eq_some_iff.mp hread
    refine h.drop hkey hnew ?_ _ _
    rintro ⟨type, htype', -⟩
    rw [htype] at htype'
    cases htype'

/-- What one node does to the loop. -/
theorem readNode_step (h : ReadsNodes toolIds nodes r) (raw : JsValue) (i : ℕ) :
    ((readNode toolIds r (raw, i)).isSome ↔
        ∀ id fields, raw = .obj fields → nodeKey raw = some id → id ∉ nodeKeys nodes →
          TypeFine fields) ∧
      ∀ r', readNode toolIds r (raw, i) = some r' → ReadsNodes toolIds (nodes ++ [raw]) r' := by
  have hissue : ∀ path message, (∀ id, nodeKey raw = some id → id ∈ nodeKeys nodes) →
      ((some (r.issue path message)).isSome ↔
        ∀ id fields, raw = .obj fields → nodeKey raw = some id → id ∉ nodeKeys nodes →
          TypeFine fields) ∧
      ∀ r', some (r.issue path message) = some r' → ReadsNodes toolIds (nodes ++ [raw]) r' := by
    intro path message hraw
    refine ⟨⟨fun _ id _ _ hkey hnew => absurd (hraw id hkey) hnew, fun _ => rfl⟩, ?_⟩
    rintro r' hr'
    cases hr'
    exact h.issue hraw path message
  unfold readNode
  cases raw with
  | obj fields =>
    dsimp only
    cases hid : dataField fields "id" with
    | str id =>
      dsimp only
      split_ifs with hvalid hmem
      · exact hissue _ _ fun v hv => by simp_all [nodeKey]
      · refine hissue _ _ fun v hv => ?_
        simp only [nodeKey, hid] at hv
        split at hv
        · cases hv
          exact (h.ids id).mp hmem
        · cases hv
      · have hkey : nodeKey (.obj fields) = some id := by simpa [nodeKey, hid] using hvalid
        have hnew : id ∉ nodeKeys nodes := fun hold => hmem ((h.ids id).mpr hold)
        refine ⟨?_, fun r' hr' => h.typed hkey hnew hr'⟩
        rw [readTyped_isSome]
        constructor
        · intro hfine v f hf _ _
          cases hf
          exact hfine
        · intro hall
          exact hall id fields rfl hkey hnew
    | undefined | null | bool _ | num _ | arr _ | obj _ =>
      exact hissue _ _ fun v hv => by simp [nodeKey, hid] at hv
  | undefined | null | bool _ | num _ | arr _ | str _ =>
    exact hissue _ _ fun v hv => by simp [nodeKey] at hv

/-- The loop over the nodes. -/
theorem readNodes (toolIds : Option (List Text)) (nodes : List JsValue) :
    ((nodes.zipIdx.foldlM (readNode toolIds) {}).isSome ↔
        ∀ id fields, Registers nodes id fields → TypeFine fields) ∧
      ∀ r, nodes.zipIdx.foldlM (readNode toolIds) {} = some r → ReadsNodes toolIds nodes r := by
  obtain ⟨hsome, hreads⟩ := foldlM_zipIdx (readsNodes_start toolIds)
    (fun _ _ raw h => readNode_step h raw _) nodes
  refine ⟨hsome.trans ⟨fun hnone id fields hreg => ?_, fun hall => ?_⟩, hreads⟩
  · obtain ⟨before, raw, after, hnodes, hraw, hkey, hnew⟩ := hreg
    by_contra hbad
    exact hnone ⟨before, raw, after, hnodes, fun hok => hbad (hok id fields hraw hkey hnew)⟩
  · rintro ⟨before, raw, after, hnodes, hbad⟩
    exact hbad fun id fields hraw hkey hnew =>
      hall id fields ⟨before, raw, after, hnodes, hraw, hkey, hnew⟩

end

/-! ## Reading the edges -/

section
variable {nodes edges : List JsValue} {raw : JsValue} {r : Reading Edge} {ids : List Text}

theorem edgeKeys_snoc (edges : List JsValue) (raw : JsValue) (id : Text) :
    id ∈ edgeKeys (edges ++ [raw]) ↔
      id ∈ edgeKeys edges ∨ edgeKeyAt (raw, edges.length) = some id := by
  rw [edgeKeys, List.zipIdx_append, List.filterMap_append, List.mem_append, ← edgeKeys]
  refine or_congr Iff.rfl ?_
  rw [List.zipIdx_singleton, Nat.zero_add, List.mem_filterMap]
  simp

theorem knownId_congr (hids : ∀ id, id ∈ ids ↔ id ∈ nodeKeys nodes) (v : JsValue) :
    knownId ids v = knownId (nodeKeys nodes) v := by
  cases v with
  | str s => simp only [knownId, hids]
  | undefined | null | bool _ | num _ | arr _ | obj _ => rfl

/-- What the loop over the edges has found out about those it has read. -/
structure ReadsEdges (nodes edges : List JsValue) (r : Reading Edge) : Prop where
  ids : ∀ id, id ∈ r.ids ↔ id ∈ edgeKeys edges
  items : ∀ source target, (∃ e ∈ r.items, e.source = source ∧ e.target = target) ↔
    Occurs (Connects nodes source target) edges
  issues : Occurs (fun before raw => ¬ WellFormedEdge nodes before raw) edges → r.issues ≠ []

theorem readsEdges_start (nodes : List JsValue) : ReadsEdges nodes [] {} where
  ids := by simp [edgeKeys]
  items _ _ := ⟨fun ⟨_, he, _⟩ => absurd he List.not_mem_nil, fun h => absurd h not_occurs_nil⟩
  issues h := absurd h not_occurs_nil

/-- An edge that is dropped adds an issue. -/
theorem ReadsEdges.drop (h : ReadsEdges nodes edges r)
    (hdrop : ¬ WellFormedEdge nodes edges raw) {ids : List Text}
    (hids : ∀ id, id ∈ ids ↔ id ∈ edgeKeys (edges ++ [raw])) (path message : Text) :
    ReadsEdges nodes (edges ++ [raw]) (Reading.issue { r with ids := ids } path message) where
  ids := hids
  items source target := by
    rw [Reading.issue, h.items, occurs_snoc]
    exact ⟨.inl, fun hor => hor.resolve_right fun hc => hdrop ⟨source, target, hc⟩⟩
  issues _ := issue_ne_nil _ path message

theorem ReadsEdges.keep (h : ReadsEdges nodes edges r) {e : Edge}
    (hconnects : ∀ source target, Connects nodes source target edges raw ↔
      e.source = source ∧ e.target = target) {ids : List Text}
    (hids : ∀ id, id ∈ ids ↔ id ∈ edgeKeys (edges ++ [raw])) :
    ReadsEdges nodes (edges ++ [raw]) { r with ids := ids, items := r.items ++ [e] } where
  ids := hids
  items source target := by
    rw [occurs_snoc, ← h.items, hconnects]
    constructor
    · rintro ⟨e', he', hends⟩
      rcases List.mem_append.mp he' with hold | hnew
      · exact .inl ⟨e', hold, hends⟩
      · rw [List.mem_singleton] at hnew
        exact .inr (hnew ▸ hends)
    · rintro (⟨e', hold, hends⟩ | hends)
      · exact ⟨e', List.mem_append_left _ hold, hends⟩
      · exact ⟨e, List.mem_append_right _ List.mem_cons_self, hends⟩
  issues hoccurs := by
    rcases occurs_snoc.mp hoccurs with hold | hbad
    · exact h.issues hold
    · exact absurd ⟨e.source, e.target, (hconnects _ _).mpr ⟨rfl, rfl⟩⟩ hbad

/-- What one edge does to the loop. -/
theorem readEdge_step (h : ReadsEdges nodes edges r) (hids : ∀ id, id ∈ ids ↔ id ∈ nodeKeys nodes)
    (raw : JsValue) :
    ((readEdge ids r (raw, edges.length)).isSome ↔
        ∀ fields, raw = .obj fields → edgeKey fields edges.length ∉ edgeKeys edges →
          TextsFine nodes fields) ∧
      ∀ r', readEdge ids r (raw, edges.length) = some r' →
        ReadsEdges nodes (edges ++ [raw]) r' := by
  unfold readEdge
  cases raw with
  | obj fields =>
    dsimp only
    have hkeys := edgeKeys_snoc edges (.obj fields)
    simp only [edgeKeyAt, Option.some.injEq] at hkeys
    split_ifs with hold
    · have hmem := (h.ids _).mp hold
      refine ⟨⟨fun _ f hf hnew => ?_, fun _ => rfl⟩, fun r' hr' => ?_⟩
      · cases hf
        exact absurd hmem hnew
      · cases hr'
        refine h.drop ?_ (fun id => (?_ : id ∈ r.ids ↔ _)) _ _
        · rintro ⟨source, target, f, hf, hnew, -⟩
          cases hf
          exact hnew hmem
        · rw [hkeys, h.ids]
          exact ⟨.inl, fun hor => hor.elim (fun hid => hid) fun heq => heq ▸ hmem⟩
    · have hnew : edgeKey fields edges.length ∉ edgeKeys edges :=
        fun hmem => hold ((h.ids _).mpr hmem)
      have hgrown : ∀ id, id ∈ r.ids ++ [edgeKey fields edges.length] ↔
          id ∈ edgeKeys (edges ++ [.obj fields]) := by
        intro id
        rw [hkeys, List.mem_append, List.mem_singleton, h.ids, eq_comm (a := id)]
      have hall : (∀ f, JsValue.obj fields = .obj f → edgeKey f edges.length ∉ edgeKeys edges →
          TextsFine nodes f) ↔ TextsFine nodes fields := by
        constructor
        · intro hall
          exact hall fields rfl hnew
        · intro hfine f hf _
          cases hf
          exact hfine
      rw [hall, TextsFine, knownId_congr hids, knownId_congr hids]
      cases hsource : knownId (nodeKeys nodes) (dataField fields "source") with
      | none =>
        refine ⟨by rw [Option.isSome_map], fun r' hr' => ?_⟩
        obtain ⟨text, -, rfl⟩ := Option.map_eq_some_iff.mp hr'
        refine h.drop ?_ hgrown _ _
        rintro ⟨source, target, f, hf, -, hs, -⟩
        cases hf
        rw [hsource] at hs
        cases hs
      | some source =>
        cases htarget : knownId (nodeKeys nodes) (dataField fields "target") with
        | none =>
          refine ⟨by rw [Option.isSome_map], fun r' hr' => ?_⟩
          obtain ⟨text, -, rfl⟩ := Option.map_eq_some_iff.mp hr'
          refine h.drop ?_ hgrown _ _
          rintro ⟨source, target, f, hf, -, -, ht, -⟩
          cases hf
          rw [htarget] at ht
          cases ht
        | some target =>
          dsimp only
          split_ifs with hloop
          · refine ⟨by simp, fun r' hr' => ?_⟩
            cases hr'
            refine h.drop ?_ hgrown _ _
            rintro ⟨s, t, f, hf, -, hs, ht, hne⟩
            cases hf
            rw [hsource] at hs
            rw [htarget] at ht
            cases hs
            cases ht
            exact hne hloop
          · refine ⟨by simp, fun r' hr' => ?_⟩
            cases hr'
            refine h.keep (fun s t => ?_) hgrown
            constructor
            · rintro ⟨f, hf, -, hs, ht, -⟩
              cases hf
              rw [hsource] at hs
              rw [htarget] at ht
              exact ⟨Option.some.inj hs, Option.some.inj ht⟩
            · rintro ⟨rfl, rfl⟩
              exact ⟨fields, rfl, hnew, hsource, htarget, hloop⟩
  | undefined | null | bool _ | num _ | arr _ | str _ =>
    have hkeys := edgeKeys_snoc edges
    refine ⟨⟨fun _ _ hf => (by cases hf), fun _ => rfl⟩, fun r' hr' => ?_⟩
    cases hr'
    refine h.drop ?_ (fun id => (?_ : id ∈ r.ids ↔ _)) _ _
    · rintro ⟨source, target, f, hf, -⟩
      cases hf
    · rw [hkeys, h.ids]
      simp [edgeKeyAt]

/-- The loop over the edges. -/
theorem readEdges (hids : ∀ id, id ∈ ids ↔ id ∈ nodeKeys nodes) (edges : List JsValue) :
    ((edges.zipIdx.foldlM (readEdge ids) {}).isSome ↔
        ¬ Occurs (fun before raw => ¬ ∀ fields, raw = .obj fields →
          edgeKey fields before.length ∉ edgeKeys before → TextsFine nodes fields) edges) ∧
      ∀ r, edges.zipIdx.foldlM (readEdge ids) {} = some r → ReadsEdges nodes edges r :=
  foldlM_zipIdx (readsEdges_start nodes) (fun _ _ raw h => readEdge_step h hids raw) edges

end

/-! ## The whole validator -/

theorem mapM_isSome {α β : Type} {f : α → Option β} {l : List α} :
    (l.mapM f).isSome ↔ ∀ a ∈ l, (f a).isSome := by
  induction l with
  | nil => simp
  | cons a l ih =>
    rw [List.mapM_cons, List.forall_mem_cons, ← ih]
    cases f a with
    | none => simp
    | some b => cases l.mapM f <;> simp

theorem edgeIssues_isSome {canvas : Canvas} {e : Edge} : (edgeIssues canvas e).isSome ↔
    ∀ id ∈ [e.source, e.target], id ∈ canvas.nodes.map Node.id := by
  have htype : ∀ id, (typeAt canvas id).isSome ↔ id ∈ canvas.nodes.map Node.id := by
    intro id
    rw [typeAt, Option.isSome_map, List.find?_isSome, List.mem_map]
    simp
  rw [List.forall_mem_cons, List.forall_mem_singleton, ← htype, ← htype, edgeIssues]
  cases typeAt canvas e.target with
  | none => exact ⟨fun h => (by cases h), fun h => (by cases h.2)⟩
  | some target =>
    cases typeAt canvas e.source with
    | none => exact ⟨fun h => (by cases h), fun h => (by cases h.1)⟩
    | some source => exact ⟨fun _ => ⟨rfl, rfl⟩, fun _ => rfl⟩

section
variable {toolIds : Option (List Text)} {fields : Data} {nodes edges : List JsValue}

theorem validateGraph_obj (hnodes : asList (dataField fields "nodes") = some nodes)
    (hedges : edgeList (dataField fields "edges") = some edges) :
    validateGraph (.obj fields) toolIds = do
      let ns ← nodes.zipIdx.foldlM (readNode toolIds) {}
      let es ← edges.zipIdx.foldlM (readEdge ns.ids) {}
      let canvas : Canvas := ⟨ns.items, es.items⟩
      let rules ← canvas.edges.mapM (edgeIssues canvas)
      return (canvas, sizeIssues nodes edges ++ ns.issues ++ es.issues ++
        triggerIssues canvas ++ rules.flatten ++ orderIssues canvas) := by
  rw [validateGraph]
  simp only [hnodes, hedges]

/-- The kept edges connect kept nodes. -/
theorem rules_isSome {ns : Reading Node} {es : Reading Edge} (hns : ReadsNodes toolIds nodes ns)
    (hes : ReadsEdges nodes edges es) :
    (es.items.mapM (edgeIssues ⟨ns.items, es.items⟩)).isSome ↔
      ∀ source target, Occurs (Connects nodes source target) edges →
        ∀ id ∈ [source, target], ∃ f, Registers nodes id f ∧ Kept f := by
  rw [mapM_isSome]
  constructor
  · intro hall source target hoccurs id hid
    obtain ⟨e, he, rfl, rfl⟩ := (hes.items source target).mpr hoccurs
    exact (hns.items id).mp (edgeIssues_isSome.mp (hall e he) id hid)
  · intro hall e he
    refine edgeIssues_isSome.mpr fun id hid => (hns.items id).mpr ?_
    exact hall e.source e.target ((hes.items _ _).mp ⟨e, he, rfl, rfl⟩) id hid

theorem tame_iff : Tame nodes edges ↔
    (∀ id fields, Registers nodes id fields → TypeFine fields) ∧
    ¬ Occurs (fun before raw => ¬ ∀ fields, raw = .obj fields →
      edgeKey fields before.length ∉ edgeKeys before → TextsFine nodes fields) edges ∧
    ∀ source target, Occurs (Connects nodes source target) edges →
      ∀ id ∈ [source, target], ∃ f, Registers nodes id f ∧ Kept f := by
  constructor
  · rintro ⟨htypes, hedges⟩
    refine ⟨htypes, ?_, ?_⟩
    · rintro ⟨before, raw, after, hsplit, hbad⟩
      exact hedges ⟨before, raw, after, hsplit, fun hfine => hbad hfine.texts⟩
    · rintro source target ⟨before, raw, after, hsplit, hconnects⟩
      by_contra hbad
      exact hedges ⟨before, raw, after, hsplit, fun hfine => hbad (hfine.ends _ _ hconnects)⟩
  · rintro ⟨htypes, htexts, hends⟩
    refine ⟨htypes, ?_⟩
    rintro ⟨before, raw, after, hsplit, hbad⟩
    have hfine : ∀ fields, raw = .obj fields → edgeKey fields before.length ∉ edgeKeys before →
        TextsFine nodes fields :=
      by_contra fun hno => htexts ⟨before, raw, after, hsplit, hno⟩
    exact hbad ⟨hfine, fun source target hconnects =>
      hends source target ⟨before, raw, after, hsplit, hconnects⟩⟩

theorem returns_iff (hnodes : asList (dataField fields "nodes") = some nodes)
    (hedges : edgeList (dataField fields "edges") = some edges) :
    (validateGraph (.obj fields) toolIds).isSome ↔ Tame nodes edges := by
  rw [validateGraph_obj hnodes hedges, tame_iff, ← (readNodes toolIds nodes).1]
  cases hns : nodes.zipIdx.foldlM (readNode toolIds) {} with
  | none => simp
  | some ns =>
    have hreads := (readNodes toolIds nodes).2 ns hns
    have hread := readEdges hreads.ids edges
    rw [← hread.1]
    cases hes : edges.zipIdx.foldlM (readEdge ns.ids) {} with
    | none => simp [hes]
    | some es =>
      rw [← rules_isSome hreads (hread.2 es hes)]
      simp only [Option.bind_eq_bind, Option.bind_some, hes, Option.isSome_some, true_and]
      cases es.items.mapM (edgeIssues ⟨ns.items, es.items⟩) <;> simp

/-- A malformed node or edge is reported. -/
theorem issues_of_malformed (hnodes : asList (dataField fields "nodes") = some nodes)
    (hedges : edgeList (dataField fields "edges") = some edges) {canvas : Canvas}
    {issues : List GraphIssue} (h : validateGraph (.obj fields) toolIds = some (canvas, issues))
    (hbad : MalformedNode toolIds nodes ∨ MalformedEdge nodes edges) : issues ≠ [] := by
  rw [validateGraph_obj hnodes hedges] at h
  obtain ⟨ns, hns, h⟩ := Option.bind_eq_some_iff.mp h
  obtain ⟨es, hes, h⟩ := Option.bind_eq_some_iff.mp h
  obtain ⟨rules, -, h⟩ := Option.bind_eq_some_iff.mp h
  have hreads := (readNodes toolIds nodes).2 ns hns
  have hread := (readEdges hreads.ids edges).2 es hes
  cases h
  intro hnil
  simp only [List.append_eq_nil_iff] at hnil
  obtain ⟨⟨⟨⟨⟨-, hn⟩, he⟩, -⟩, -⟩, -⟩ := hnil
  rcases hbad with hbad | hbad
  · exact hreads.issues hbad hn
  · exact hread.issues hbad he

end

/-- The validator returns, and reports a malformed node or edge, exactly for the values in which
nothing makes it throw. -/
theorem validateGraph_total (input : JsValue) (toolIds : Option (List Text)) :
    (∃ canvas issues, validateGraph input toolIds = some (canvas, issues) ∧
      (Malformed toolIds input → issues ≠ [])) ↔ Harmless input := by
  constructor
  · rintro ⟨canvas, issues, h, -⟩ fields nodes edges rfl hnodes hedges
    have hsome : (validateGraph (.obj fields) toolIds).isSome := by
      rw [h]
      rfl
    exact (returns_iff hnodes hedges).mp hsome
  · intro hharmless
    cases input with
    | obj fields =>
      cases hnodes : asList (dataField fields "nodes") with
      | none =>
        refine ⟨{}, _, by rw [validateGraph]; simp only [hnodes]; rfl, ?_⟩
        rintro ⟨_, nodes, hf, hn, -⟩
        cases hf
        rw [hnodes] at hn
        cases hn
      | some nodes =>
        cases hedges : edgeList (dataField fields "edges") with
        | none =>
          refine ⟨{}, _, by rw [validateGraph]; simp only [hnodes, hedges]; rfl, fun _ hnil => ?_⟩
          exact absurd (List.append_eq_nil_iff.mp hnil).2 (List.cons_ne_nil _ _)
        | some edges =>
          have hsome : (validateGraph (.obj fields) toolIds).isSome :=
            (returns_iff hnodes hedges).mpr (hharmless fields nodes edges rfl hnodes hedges)
          obtain ⟨⟨canvas, issues⟩, h⟩ := Option.isSome_iff_exists.mp hsome
          refine ⟨canvas, issues, h, ?_⟩
          rintro ⟨_, nodes', hf, hn, hbad⟩
          cases hf
          rw [hnodes] at hn
          cases hn
          refine issues_of_malformed hnodes hedges h (hbad.imp_right ?_)
          rintro ⟨edges', he, hbad⟩
          rw [hedges] at he
          cases he
          exact hbad
    | undefined | null | bool _ | num _ | str _ | arr _ =>
      refine ⟨{}, _, rfl, ?_⟩
      rintro ⟨_, _, hf, -⟩
      cases hf

/-- An edge into a node of an unknown type: the id is known and the node is not there. -/
def danglingInput : JsValue :=
  .obj [("nodes".toList, .arr [
      .obj [("id".toList, .str "start".toList), ("type".toList, .str "trigger".toList)],
      .obj [("id".toList, .str "next".toList), ("type".toList, .str "step".toList)]]),
    ("edges".toList, .arr [
      .obj [("source".toList, .str "start".toList), ("target".toList, .str "next".toList)]])]

theorem validateGraph_dangling :
    ¬ ∃ canvas issues, validateGraph danglingInput none = some (canvas, issues) ∧
      (Malformed none danglingInput → issues ≠ []) := by
  have hthrows : validateGraph danglingInput none = none := by decide
  rintro ⟨canvas, issues, h, -⟩
  rw [hthrows] at h
  cases h

end Prgd.Validation
