import Prgd.Resume
import Prgd.TopoOrder

/-!
# What a walk executes

`walk` of `run.service.ts` goes through the order once and adds the targets of a node to the
active set while it goes. Every edge points forward in the order, so a node is passed only
after all its sources: the executed nodes are the least set that has the trigger and is closed
under the taken edges, up to the first end. A node whose id is a member of `Object.prototype`
counts as done and is passed without being executed.
-/
namespace Prgd.Activation
open Workflow Checkpoint Toposort

/-! ## The walk over any executors -/

inductive Outcome where
  | done (res : Done)
  | waiting
  | failed

/-- `this.nodes`, over whatever else the executors read and write. -/
structure Executors (σ : Type) where
  run : GraphNode → List (Text × JsValue) → JsValue → σ → Outcome × σ
  /-- The result goes to the checkpoint. -/
  keep : Text → Done → σ → σ

inductive WalkEnd where
  | finished (output : JsValue)
  | waiting
  | failed
  deriving DecidableEq

section
variable {σ : Type} (graph : Graph) (nodes : Executors σ)

/-- The loop of `walk`, with the executed nodes and their outputs. -/
def walk : List Text → Pos → List (Text × Done) → σ → List (Text × JsValue) × WalkEnd
  | [], pos, _, _ => ([], .finished pos.last)
  | id :: rest, pos, done, s =>
      if id ∉ pos.active then walk rest pos done s
      else match byId graph id with
        | none => ([], .failed)
        | some node =>
            match doneOf { done } id with
            | some res =>
                if node.type = .finish then ([], .finished res.output)
                else walk rest (pos.visit graph node res) done s
            | none =>
                match nodes.run node pos.steps pos.last s with
                | (.failed, _) => ([], .failed)
                | (.waiting, _) => ([], .waiting)
                | (.done res, s) =>
                    let (executed, result) :=
                      if node.type = .finish then ([], .finished res.output)
                      else walk rest (pos.visit graph node res) (Record.set done id res)
                        (nodes.keep id res s)
                    ((id, res.output) :: executed, result)

/-- A run from the start. -/
def executeRun (s : σ) : List (Text × JsValue) × WalkEnd :=
  match walkStart graph {} with
  | none => ([], .failed)
  | some (order, pos) => walk graph nodes order pos [] s

end

/-! ## The activated nodes -/

/-- Every edge of a node that is no condition, and for a condition those of its result. -/
def Taken (graph : Graph) (result : Text → Bool) (e : GraphEdge) : Prop :=
  typeOf graph e.source = some .condition →
    e.sourceHandle = some (branchText (some (result e.source)))

inductive Active (graph : Graph) (result : Text → Bool) : Text → Prop where
  | trigger {n : GraphNode} : n ∈ graph.nodes → n.type = .trigger → Active graph result n.id
  | edge {e : GraphEdge} : e ∈ graph.edges → Taken graph result e →
      Active graph result e.source → Active graph result e.target

/-- Up to the first end node, which is still there. -/
def upToEnd (graph : Graph) : List Text → List Text
  | [] => []
  | id :: rest => if typeOf graph id = some .finish then [id] else id :: upToEnd graph rest

open Classical in
/-- The activated nodes in the order, cut off after the first end. -/
noncomputable def activated (graph : Graph) (result : Text → Bool) (order : List Text) :
    List Text :=
  upToEnd graph (order.filter fun id => Active graph result id)

variable {graph : Graph} {result : Text → Bool} {before rest : List Text} {pos : Pos} {id : Text}
  {node : GraphNode}

theorem typeOf_node (hnodup : graph.ids.Nodup) (hnode : node ∈ graph.nodes) :
    typeOf graph node.id = some node.type := by
  rw [typeOf]
  cases hfind : graph.nodes.find? fun n => n.id == node.id with
  | none => simpa using List.find?_eq_none.mp hfind node hnode
  | some other =>
    have hid : other.id = node.id := by simpa using List.find?_some hfind
    rw [List.inj_on_of_nodup_map hnodup (List.mem_of_find?_eq_some hfind) hnode hid, Option.map_some]

theorem byId_mem (hid : byId graph id = some node) : node ∈ graph.nodes ∧ node.id = id :=
  ⟨List.mem_reverse.mp (List.mem_of_find?_eq_some hid), by simpa using List.find?_some hid⟩

theorem byId_of_mem (hid : id ∈ graph.ids) : ∃ node, byId graph id = some node := by
  obtain ⟨node, hnode, rfl⟩ := List.mem_map.mp hid
  rw [← Option.isSome_iff_exists, byId, List.find?_isSome]
  exact ⟨node, List.mem_reverse.mpr hnode, beq_self_eq_true _⟩

/-- The conditions among the executed nodes come out as the assignment says. -/
def Executors.Decides {σ : Type} (nodes : Executors σ) (graph : Graph) (result : Text → Bool) :
    Prop :=
  ∀ node ∈ graph.nodes, node.type = .condition → ∀ steps last s res s',
    nodes.run node steps last s = (.done res, s') → res.branch = some (result node.id)

/-! ## Along the order -/

/-- The active set, when the nodes of `before` have been visited. -/
structure Reached (graph : Graph) (result : Text → Bool) (before : List Text) (pos : Pos) :
    Prop where
  sound : ∀ id ∈ pos.active, Active graph result id
  trigger : ∀ n ∈ graph.nodes, n.type = .trigger → n.id ∈ pos.active
  closed : ∀ e ∈ graph.edges, e.source ∈ before → Active graph result e.source →
    Taken graph result e → e.target ∈ pos.active

/-- All sources of the next node have been visited, so it is active now or never. -/
theorem Reached.next (h : Reached graph result before pos)
    (hsorted : Sorted (links graph.edges) (before ++ id :: rest)) :
    id ∈ pos.active ↔ Active graph result id := by
  refine ⟨h.sound id, fun hactive => ?_⟩
  cases hactive with
  | trigger hn htype => exact h.trigger _ hn htype
  | edge he htaken hsource =>
    exact h.closed _ he (hsorted _ _ _ rfl _ (List.mem_map_of_mem he)) hsource htaken

theorem Reached.skip (h : Reached graph result before pos) (hid : ¬ Active graph result id) :
    Reached graph result (before ++ [id]) pos := by
  refine ⟨h.sound, h.trigger, fun e he hsource hactive htaken => ?_⟩
  rcases List.mem_append.mp hsource with hold | hnew
  · exact h.closed e he hold hactive htaken
  · rw [List.mem_singleton] at hnew
    exact absurd (hnew ▸ hactive) hid

theorem mem_targets {res : Done} {v : Text} : v ∈ targets graph node res ↔
    ∃ e ∈ graph.edges, (e.source = node.id ∧
      (node.type = .condition → e.sourceHandle = some (branchText res.branch))) ∧
      e.target = v := by
  simp [targets, and_assoc, imp_iff_not_or]

/-- A visited node adds the targets of its taken edges. -/
theorem Reached.visit (h : Reached graph result before pos) (hnodup : graph.ids.Nodup)
    (hnode : node ∈ graph.nodes) (hactive : Active graph result node.id) {res : Done}
    (hres : node.type = .condition → res.branch = some (result node.id)) :
    Reached graph result (before ++ [node.id]) (pos.visit graph node res) := by
  have htaken : ∀ e : GraphEdge, e.source = node.id →
      ((node.type = .condition → e.sourceHandle = some (branchText res.branch)) ↔
        Taken graph result e) := by
    intro e hsource
    rw [Taken, hsource, typeOf_node hnodup hnode, Option.some.injEq]
    constructor
    · intro hhandle htype
      rw [hhandle htype, hres htype]
    · intro hhandle htype
      rw [hhandle htype, hres htype]
  refine ⟨fun id hid => ?_, fun n hn htype => ?_, fun e he hsource hsact htake => ?_⟩
  · rcases List.mem_append.mp hid with hold | hnew
    · exact h.sound id hold
    · obtain ⟨e, he, ⟨hsource, hhandle⟩, rfl⟩ := mem_targets.mp hnew
      exact .edge he ((htaken e hsource).mp hhandle) (hsource ▸ hactive)
  · exact List.mem_append_left _ (h.trigger n hn htype)
  · rcases List.mem_append.mp hsource with hold | hnew
    · exact List.mem_append_left _ (h.closed e he hold hsact htake)
    · rw [List.mem_singleton] at hnew
      exact List.mem_append_right _ (mem_targets.mpr ⟨e, he, ⟨hnew, (htaken e hnew).mpr htake⟩, rfl⟩)

theorem activated_skip (hid : ¬ Active graph result id) :
    activated graph result (id :: rest) = activated graph result rest := by
  rw [activated, List.filter_cons_of_neg (by simpa using hid), activated]

theorem activated_cons (hid : Active graph result id) : activated graph result (id :: rest) =
    if typeOf graph id = some .finish then [id] else id :: activated graph result rest := by
  rw [activated, List.filter_cons_of_pos (by simpa using hid), upToEnd, activated]

theorem activated_sublist (graph : Graph) (result : Text → Bool) (order : List Text) :
    (activated graph result order).Sublist order := by
  classical
  induction order with
  | nil => exact List.nil_sublist _
  | cons id rest ih =>
    by_cases hid : Active graph result id
    · rw [activated_cons hid]
      split
      · exact List.singleton_sublist.mpr List.mem_cons_self
      · exact ih.cons_cons id
    · rw [activated_skip hid]
      exact ih.cons id

/-! ## The walk -/

section
variable {σ : Type} {nodes : Executors σ}

theorem doneOf_own {done : List (Text × Done)} (h : id ∉ done.map Prod.fst) :
    doneOf { done } id = none ↔ id ∉ inheritedNames := by
  have hlookup : done.lookup id = none := by
    rw [List.lookup_eq_none_iff]
    intro d hd
    simpa using fun heq : id = d.1 => h (heq ▸ List.mem_map_of_mem hd)
  simp [doneOf, hlookup]

theorem walk_skip (hid : id ∉ pos.active) (done : List (Text × Done)) (s : σ) :
    walk graph nodes (id :: rest) pos done s = walk graph nodes rest pos done s := by
  rw [walk, if_pos hid]

theorem walk_active (hid : id ∈ pos.active) (done : List (Text × Done)) (s : σ) :
    walk graph nodes (id :: rest) pos done s =
      match byId graph id with
      | none => ([], .failed)
      | some node =>
          match doneOf { done } id with
          | some res =>
              if node.type = .finish then ([], .finished res.output)
              else walk graph nodes rest (pos.visit graph node res) done s
          | none =>
              match nodes.run node pos.steps pos.last s with
              | (.failed, _) => ([], .failed)
              | (.waiting, _) => ([], .waiting)
              | (.done res, s) =>
                  let (executed, result) :=
                    if node.type = .finish then ([], .finished res.output)
                    else walk graph nodes rest (pos.visit graph node res)
                      (Record.set done id res) (nodes.keep id res s)
                  ((id, res.output) :: executed, result) := by
  rw [walk, if_neg (not_not.mpr hid)]

/-- Members of `Object.prototype` are not executed. -/
theorem walk_own (order : List Text) (pos : Pos) (done : List (Text × Done)) (s : σ) :
    ∀ e ∈ (walk graph nodes order pos done s).1, e.1 ∉ inheritedNames := by
  induction order generalizing pos done s with
  | nil => simp [walk]
  | cons id rest ih =>
    by_cases hact : id ∈ pos.active
    swap
    · rw [walk_skip hact]
      exact ih pos done s
    rw [walk_active hact]
    cases byId graph id with
    | none => simp
    | some node =>
      cases hdone : doneOf { done } id with
      | some res =>
        dsimp only
        split_ifs
        · simp
        · exact ih _ _ _
      | none =>
        have hid : id ∉ inheritedNames := by
          rw [doneOf] at hdone
          split at hdone
          · cases hdone
          · simpa using hdone
        rcases hrun : nodes.run node pos.steps pos.last s with ⟨_ | _ | _, s'⟩
        · simp only [hrun]
          split_ifs
          · simpa using hid
          · intro e he
            rcases List.mem_cons.mp he with rfl | he
            · exact hid
            · exact ih _ _ _ e he
        · simp [hrun]
        · simp [hrun]

/-- Along the rest of the order, the executed nodes are the activated ones, and the first end
gives the output. -/
theorem walk_activated (hwired : graph.Wired) (hdecides : nodes.Decides graph result)
    {done : List (Text × Done)} {s : σ} {executed : List (Text × JsValue)} {output : JsValue}
    (hreached : Reached graph result before pos)
    (hsorted : Sorted (links graph.edges) (before ++ rest))
    (hids : ∀ id ∈ rest, id ∈ graph.ids) (hnodup : (before ++ rest).Nodup)
    (hdone : ∀ d ∈ done, d.1 ∈ before)
    (hown : ∀ id ∈ activated graph result rest, id ∉ inheritedNames)
    (hwalk : walk graph nodes rest pos done s = (executed, .finished output)) :
    executed.map Prod.fst = activated graph result rest ∧
      ∀ e ∈ executed, typeOf graph e.1 = some .finish → e.2 = output := by
  induction rest generalizing before pos done s executed with
  | nil =>
    rw [walk] at hwalk
    cases hwalk
    exact ⟨by simp [activated, upToEnd], by simp⟩
  | cons id rest ih =>
    have hnext := hreached.next hsorted
    rw [List.append_cons] at hsorted hnodup
    have hbefore : ∀ d ∈ done, d.1 ∈ before ++ [id] := fun d hd =>
      List.mem_append_left _ (hdone d hd)
    have hrest : ∀ id ∈ rest, id ∈ graph.ids := fun v hv => hids v (List.mem_cons_of_mem _ hv)
    by_cases hact : Active graph result id
    swap
    · rw [activated_skip hact] at hown ⊢
      rw [walk_skip fun hid => hact (hnext.mp hid)] at hwalk
      exact ih (hreached.skip hact) hsorted hrest hnodup hbefore hown hwalk
    · obtain ⟨node, hbyId⟩ := byId_of_mem (hids id List.mem_cons_self)
      obtain ⟨hnode, rfl⟩ := byId_mem hbyId
      have htype := typeOf_node hwired.nodup hnode
      simp only [activated_cons hact, htype, Option.some.injEq] at hown ⊢
      have hid : node.id ∉ inheritedNames := by
        refine hown node.id ?_
        split
        · exact List.mem_cons_self
        · exact List.mem_cons_self
      have hnot : node.id ∉ done.map Prod.fst := by
        intro hmem
        obtain ⟨d, hd, heq⟩ := List.mem_map.mp hmem
        have := (List.nodup_append.mp (List.nodup_append.mp hnodup).1).2.2
        exact this d.1 (hdone d hd) node.id List.mem_cons_self heq
      rw [walk_active (hnext.mpr hact), hbyId] at hwalk
      simp only [(doneOf_own hnot).mpr hid] at hwalk
      rcases hrun : nodes.run node pos.steps pos.last s with ⟨res | _ | _, s'⟩
      · rw [hrun] at hwalk
        by_cases hend : node.type = .finish
        · simp only [if_pos hend] at hwalk ⊢
          cases hwalk
          exact ⟨rfl, by simp⟩
        · simp only [if_neg hend] at hwalk hown ⊢
          obtain ⟨hexecuted, hresult⟩ := Prod.mk.inj hwalk
          subst hexecuted
          have hset : ∀ d ∈ Record.set done node.id res, d.1 ∈ before ++ [node.id] := by
            intro d hd
            rcases Record.mem_set hd with rfl | hold
            · simp
            · exact hbefore d hold
          obtain ⟨hmap, houtput⟩ := ih
            (hreached.visit hwired.nodup hnode hact fun h => hdecides node hnode h _ _ _ _ _ hrun)
            hsorted hrest hnodup hset (fun id hid => hown id (List.mem_cons_of_mem _ hid))
            (Prod.ext rfl hresult)
          refine ⟨by rw [List.map_cons, hmap], fun e he hfinish => ?_⟩
          rcases List.mem_cons.mp he with rfl | he
          · rw [htype, Option.some.injEq] at hfinish
            exact absurd hfinish hend
          · exact houtput e he hfinish
      · rw [hrun] at hwalk
        cases hwalk
      · rw [hrun] at hwalk
        cases hwalk

end

/-! ## Runs -/

/-- The executed nodes are the activated ones in the order, each of them once, and an end node
among them gives the output. -/
structure Follows (graph : Graph) (result : Text → Bool) (order : List Text)
    (executed : List (Text × JsValue)) (output : JsValue) : Prop where
  nodes : executed.map Prod.fst = activated graph result order
  once : (executed.map Prod.fst).Nodup
  output : ∀ e ∈ executed, typeOf graph e.1 = some .finish → e.2 = output

theorem reached_start {trigger : GraphNode}
    (htrigger : graph.nodes.filter (fun n => n.type = .trigger) = [trigger])
    (steps : List (Text × JsValue)) (last : JsValue) :
    Reached graph result [] ⟨[trigger.id], steps, last⟩ := by
  have hmem : ∀ n, n ∈ graph.nodes ∧ n.type = .trigger ↔ n = trigger := by
    intro n
    have : n ∈ graph.nodes.filter (fun n => n.type = .trigger) ↔ n ∈ [trigger] := by rw [htrigger]
    simpa using this
  refine ⟨fun id hid => ?_, fun n hn htype => ?_, fun e _ hsource => absurd hsource (by simp)⟩
  · obtain ⟨hnode, htype⟩ := (hmem trigger).mpr rfl
    rw [List.mem_singleton] at hid
    exact hid ▸ .trigger hnode htype
  · rw [(hmem n).mp ⟨hn, htype⟩]
    exact List.mem_singleton_self _

/-- A run that finishes follows the activated nodes, unless one of them has the name of a member
of `Object.prototype`. -/
theorem executeRun_follows {σ : Type} (nodes : Executors σ) {input : JsValue}
    {toolIds : Option (List Text)} (haccepted : validateGraph input toolIds = (graph, []))
    (hdecides : nodes.Decides graph result) {s : σ} {executed : List (Text × JsValue)}
    {output : JsValue} (hrun : executeRun graph nodes s = (executed, .finished output)) :
    ∃ order, topoOrder graph = some order ∧
      (Follows graph result order executed output ↔
        ∀ id ∈ activated graph result order, id ∉ inheritedNames) := by
  have hwired := wired_of_accepted haccepted
  obtain ⟨⟨order, horder⟩, trigger, htrigger⟩ := order_of_accepted haccepted
  obtain ⟨hsorted, hperm⟩ := topoOrder_sorted hwired horder
  have hfind : graph.nodes.find? (fun n => n.type = .trigger) = some trigger := by
    rw [← List.head?_filter, htrigger]
    rfl
  rw [executeRun, walkStart, horder, Option.bind_eq_bind, Option.bind_some, hfind] at hrun
  change walk graph nodes order ⟨[trigger.id], [], .null⟩ [] s = _ at hrun
  refine ⟨order, horder, fun hfollows id hid => ?_, fun hown => ?_⟩
  · rw [← hfollows.nodes] at hid
    obtain ⟨e, he, rfl⟩ := List.mem_map.mp hid
    have howned : ∀ e ∈ (walk graph nodes order ⟨[trigger.id], [], .null⟩ [] s).1,
        e.1 ∉ inheritedNames := walk_own order _ [] s
    rw [hrun] at howned
    exact howned e he
  · have hnodup : order.Nodup := hperm.nodup_iff.mpr hwired.nodup
    obtain ⟨hnodes, houtput⟩ := walk_activated hwired hdecides
      (reached_start htrigger [] .null) (by rwa [List.nil_append]) (fun id => hperm.mem_iff.mp) hnodup (by simp) hown hrun
    exact ⟨hnodes, hnodes ▸ hnodup.sublist (activated_sublist graph result order), houtput⟩

/-- Every node answers with its id, and conditions hold. -/
def answering : Executors Unit where
  run node _ _ _ :=
    (.done ⟨.str node.id, if node.type = .condition then some true else none⟩, ())
  keep _ _ _ := ()

theorem answering_decides (graph : Graph) : answering.Decides graph fun _ => true := by
  intro node _ htype steps last s res s' hrun
  simp only [answering, if_pos htype] at hrun
  cases hrun
  rfl

def handleInput (source handle target : String) : JsValue :=
  .obj [("source".toList, .str source.toList), ("target".toList, .str target.toList),
    ("sourceHandle".toList, .str handle.toList)]

/-- A condition between two ends. -/
def branchInput : JsValue :=
  .obj [("nodes".toList, .arr [Resume.nodeInput "start" "trigger" [],
      Resume.nodeInput "check" "condition" [("expression".toList, .str "1 == 1".toList)],
      Resume.nodeInput "no" "end" [], Resume.nodeInput "yes" "end" []]),
    ("edges".toList, .arr [handleInput "start" "" "check", handleInput "check" "false" "no",
      handleInput "check" "true" "yes"])]

def branchGraph : Graph := (validateGraph branchInput none).1

def branchExecuted : List (Text × JsValue) :=
  ["start".toList, "check".toList, "yes".toList].map fun id => (id, .str id)

theorem executeRun_follows_branch :
    executeRun branchGraph answering () = (branchExecuted, .finished (.str "yes".toList)) ∧
    ∃ order, topoOrder branchGraph = some order ∧
      (Follows branchGraph (fun _ => true) order branchExecuted (.str "yes".toList) ↔
        ∀ id ∈ activated branchGraph (fun _ => true) order, id ∉ inheritedNames) := by
  have hissues : (validateGraph branchInput none).2 = [] := by decide +kernel
  have hrun : executeRun branchGraph answering () =
      (branchExecuted, .finished (.str "yes".toList)) := by decide +kernel
  have haccepted : validateGraph branchInput none = (branchGraph, []) := Prod.ext rfl hissues
  exact ⟨hrun, executeRun_follows answering haccepted (answering_decides _) hrun⟩

/-! ## A node that counts as done -/

def shadowInput : JsValue := Resume.callInput "toString" "x" "done"

def shadowGraph : Graph := (validateGraph shadowInput none).1

def shadowOrder : List Text :=
  ["start".toList, "toString".toList, "call".toList, "stop".toList]

def shadowExecuted : List (Text × JsValue) :=
  ["start".toList, "call".toList, "stop".toList].map fun id => (id, .str id)

theorem shadow_active : Active shadowGraph (fun _ => true) "toString".toList := by
  have hedge : (⟨"starttoString".toList, "start".toList, "toString".toList, none⟩ : GraphEdge) ∈
      shadowGraph.edges := by decide
  have hstart : (⟨"start".toList, .trigger, []⟩ : GraphNode) ∈ shadowGraph.nodes := by
    decide
  have htype : typeOf shadowGraph "start".toList = some .trigger := by decide
  refine .edge hedge (fun h => ?_) (.trigger hstart rfl)
  rw [htype] at h
  cases h

/-- The transform of an accepted graph is activated, and the run ends without executing it. -/
theorem executeRun_shadow :
    validateGraph shadowInput none = (shadowGraph, []) ∧
    topoOrder shadowGraph = some shadowOrder ∧
    answering.Decides shadowGraph (fun _ => true) ∧
    Active shadowGraph (fun _ => true) "toString".toList ∧
    executeRun shadowGraph answering () = (shadowExecuted, .finished (.str "stop".toList)) ∧
    ¬ Follows shadowGraph (fun _ => true) shadowOrder shadowExecuted (.str "stop".toList) := by
  have hissues : (validateGraph shadowInput none).2 = [] := by decide
  have haccepted : validateGraph shadowInput none = (shadowGraph, []) := Prod.ext rfl hissues
  refine ⟨haccepted, by decide, answering_decides _, shadow_active,
    by decide, fun hfollows => ?_⟩
  have hmem : "toString".toList ∈ activated shadowGraph (fun _ => true) shadowOrder := by
    have hstart : typeOf shadowGraph "start".toList = some .trigger := by decide
    have hnode : (⟨"start".toList, .trigger, []⟩ : GraphNode) ∈ shadowGraph.nodes := by
      decide
    rw [shadowOrder, activated_cons (.trigger hnode rfl), if_neg (by rw [hstart]; decide),
      activated_cons shadow_active]
    refine List.mem_cons_of_mem _ ?_
    split
    · exact List.mem_cons_self
    · exact List.mem_cons_self
  rw [← hfollows.nodes] at hmem
  have hnot : "toString".toList ∉ shadowExecuted.map Prod.fst := by decide
  exact hnot hmem

/-! ## The walk with fixed outcomes -/

section
variable (env : Walk.Setting) (ask : Text → Bool)

/-- The executors of a run with fixed outcomes. -/
def executors : Executors Walk.Progress where
  run node steps last s :=
    match Walk.executeNode env ask node (Walk.context env steps) last s with
    | .done res s => (.done res, s)
    | .waiting s => (.waiting, s)
    | .failed _ s => (.failed, s)
  keep id res s := { s with st := finishNode s.st id res }

def ending : Walk.SegmentEnd → WalkEnd
  | .finished output _ => .finished output
  | .waiting _ => .waiting
  | .failed _ _ => .failed

/-- The walk of the runs with fixed outcomes is the walk over its executors. -/
theorem walk_executors (order : List Text) (pos : Pos) (s : Walk.Progress) :
    (walk env.graph (executors env ask) order pos s.st.done s).2 =
      ending (Walk.walk env ask order pos s) := by
  induction order generalizing pos s with
  | nil => rfl
  | cons id rest ih =>
    by_cases hact : id ∈ pos.active
    swap
    · rw [walk_skip hact, Resume.walk_skip hact]
      exact ih pos s
    rw [walk_active hact, Walk.walk, if_neg (not_not.mpr hact)]
    cases byId env.graph id with
    | none => rfl
    | some node =>
      have hdone : doneOf { done := s.st.done } id = doneOf s.st id := rfl
      simp only [hdone]
      cases doneOf s.st id with
      | some res =>
        dsimp only
        split_ifs
        · rfl
        · exact ih _ s
      | none =>
        have hwithin := Lockstep.executeNode_within env ask node (Walk.context env pos.steps) pos.last s
        simp only [executors]
        cases hexec : Walk.executeNode env ask node (Walk.context env pos.steps) pos.last s with
        | failed e s' | waiting s' => rfl
        | done res s' =>
          rw [hexec] at hwithin
          dsimp only
          split_ifs
          · rfl
          · rw [← ih]
            have : Record.set s.st.done id res = (finishNode s'.st id res).done := by
              rw [finishNode, ← hwithin.done]
              rfl
            rw [this]
            rfl

end

end Prgd.Activation
