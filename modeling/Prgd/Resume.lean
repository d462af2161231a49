import Prgd.Lockstep

/-!
# Pausing does not change a run

A resumed run walks again from the trigger over the stored checkpoint, and
`approveCall` renders the input of the approved call again. The run that parks
at any set of tool and action nodes executes the same nodes, in the same order,
with the same inputs and branches, and ends like the run that never asks, under
three conditions: two more steps for each approved call fit into the step limit;
the outputs survive the JSON column unchanged; and references to `steps` name
one step, which is not a member of `Object.prototype`. Each of the three is
needed.
-/
namespace Prgd.Resume
open Workflow Checkpoint Template Expression JsonColumn Walk Lockstep

/-! ## Replay -/

/-- The active nodes and the last output of a walk that has come over `pre`
without executing anything and without an end. -/
def replay (graph : Graph) (done : Text → Option Done) :
    List Text → List Text × JsValue → Option (List Text × JsValue)
  | [], p => some p
  | id :: pre, p =>
      if id ∉ p.1 then replay graph done pre p
      else match byId graph id, done id with
        | some node, some res =>
            if node.type = .finish then none
            else replay graph done pre (p.1 ++ targets graph node res, res.output)
        | _, _ => none

section
variable {graph : Graph} {done : Text → Option Done}

theorem replay_append (pre more : List Text) (p : List Text × JsValue) :
    replay graph done (pre ++ more) p =
      (replay graph done pre p).bind (replay graph done more) := by
  induction pre generalizing p with
  | nil => rfl
  | cons id pre ih =>
    rw [List.cons_append, replay, replay]
    by_cases hact : id ∉ p.1
    · rw [if_pos hact, if_pos hact]
      exact ih p
    · rw [if_neg hact, if_neg hact]
      split
      · split_ifs
        · rfl
        · exact ih _
      · rfl

/-- More finished nodes do not change what was replayed. -/
theorem replay_mono {done' : Text → Option Done} (h : ∀ id res, done id = some res →
    done' id = some res) {pre : List Text} {p q : List Text × JsValue}
    (hr : replay graph done pre p = some q) : replay graph done' pre p = some q := by
  induction pre generalizing p with
  | nil => exact hr
  | cons id pre ih =>
    rw [replay] at hr ⊢
    by_cases hact : id ∉ p.1
    · rw [if_pos hact] at hr ⊢
      exact ih hr
    · rw [if_neg hact] at hr ⊢
      cases hid : byId graph id with
      | none => simp [hid] at hr
      | some node =>
        cases hd : done id with
        | none => simp [hid, hd] at hr
        | some res =>
          simp only [hid, hd] at hr
          simp only [h id res hd]
          split_ifs at hr ⊢
          exact ih hr

end

/-- The templates see the output of every finished node. -/
def Sees (st : RunState) (pos : Pos) : Prop :=
  ∀ id, id ∉ inheritedNames → pos.steps.lookup id = (st.done.lookup id).map Done.output

theorem lookup_map_output (done : List (Text × Done)) (id : Text) :
    (done.map fun d => (d.1, d.2.output)).lookup id = (done.lookup id).map Done.output := by
  induction done with
  | nil => rfl
  | cons d done ih =>
    rw [List.map_cons, List.lookup_cons, List.lookup_cons, ih]
    cases id == d.1 <;> rfl

theorem doneOf_own {st : RunState} {id : Text} {res : Done} (h : doneOf st id = some res)
    (hid : id ∉ inheritedNames) : st.done.lookup id = some res := by
  unfold doneOf at h
  split at h
  · rename_i d hd
    rw [hd, h]
  · rw [if_neg hid] at h
    cases h

theorem Sees.visit {st : RunState} {pos : Pos} (h : Sees st pos) {graph : Graph} {node : GraphNode}
    {res : Done} (hd : doneOf st node.id = some res) : Sees st (pos.visit graph node res) := by
  intro id hid
  simp only [Pos.visit, Record.lookup_set]
  split_ifs with heq
  · subst heq
    rw [doneOf_own hd hid]
    rfl
  · exact h id hid

theorem byId_id {graph : Graph} {id : Text} {node : GraphNode} (h : byId graph id = some node) :
    node.id = id := by simpa using List.find?_some h

section
variable {env : Setting} {ask : Text → Bool} {id : Text} {rest : List Text} {pos : Pos}
  {s : Progress} {node : GraphNode}

theorem walk_skip (hact : id ∉ pos.active) :
    walk env ask (id :: rest) pos s = walk env ask rest pos s := by
  rw [walk, if_pos hact]

theorem walk_broken (hact : id ∈ pos.active) (hid : byId env.graph id = none) :
    walk env ask (id :: rest) pos s = .failed ⟨"run_error".toList, []⟩ s := by
  rw [walk, if_neg (not_not.mpr hact)]
  simp only [hid]

theorem walk_done {res : Done} (hact : id ∈ pos.active) (hid : byId env.graph id = some node)
    (hd : doneOf s.st id = some res) :
    walk env ask (id :: rest) pos s =
      if node.type = .finish then .finished res.output s
      else walk env ask rest (pos.visit env.graph node res) s := by
  rw [walk, if_neg (not_not.mpr hact)]
  simp only [hid, hd]

end

/-- The walk over what can be replayed executes nothing. -/
theorem walk_replay (env : Setting) (ask : Text → Bool) {pre : List Text} (rest : List Text)
    {pos : Pos} {s : Progress} {q : List Text × JsValue} (hsees : Sees s.st pos)
    (h : replay env.graph (doneOf s.st) pre (pos.active, pos.last) = some q) :
    ∃ steps, Sees s.st ⟨q.1, steps, q.2⟩ ∧
      walk env ask (pre ++ rest) pos s = walk env ask rest ⟨q.1, steps, q.2⟩ s := by
  induction pre generalizing pos with
  | nil =>
    cases h
    exact ⟨pos.steps, hsees, rfl⟩
  | cons id pre ih =>
    rw [replay] at h
    rw [List.cons_append]
    by_cases hact : id ∈ pos.active
    swap
    · rw [if_pos hact] at h
      rw [walk_skip hact]
      exact ih hsees h
    rw [if_neg (not_not.mpr hact)] at h
    cases hid : byId env.graph id with
    | none => simp [hid] at h
    | some node =>
      cases hd : doneOf s.st id with
      | none => simp [hid, hd] at h
      | some res =>
        simp only [hid, hd] at h
        rw [walk_done hact hid hd]
        split_ifs at h ⊢
        have hnode : doneOf s.st node.id = some res := by rw [byId_id hid, hd]
        exact ih (hsees.visit hnode) h

/-! ## The column -/

/-- The output comes back from the column as it was. -/
def Stored (done : List (Text × Done)) : Prop := ∀ d ∈ done, column d.2.output = d.2.output

theorem storeDone_perm {done : List (Text × Done)} (h : Stored done) :
    (storeDone done).Perm done := by
  have hmap : done.map (fun d => (d.1, { d.2 with output := column d.2.output })) = done := by
    conv_rhs => rw [← List.map_id done]
    refine List.map_congr_left fun d hd => ?_
    rw [h d hd]
    rfl
  unfold storeDone
  rw [hmap]
  exact List.perm_insertionSort _ _

theorem lookup_perm {a b : List (Text × Done)} (hp : a.Perm b) (hb : (b.map Prod.fst).Nodup)
    (id : Text) : a.lookup id = b.lookup id := by
  have ha : (a.map Prod.fst).Nodup := (hp.map Prod.fst).nodup_iff.mpr hb
  cases hl : a.lookup id with
  | some d => exact (Record.lookup_of_mem hb (hp.mem_iff.mp (Record.lookup_mem hl))).symm
  | none =>
    cases hl' : b.lookup id with
    | none => rfl
    | some d =>
      have := Record.lookup_of_mem ha (hp.mem_iff.mpr (Record.lookup_mem hl'))
      rw [this] at hl
      cases hl

/-! ## Approval -/

section
variable (env : Setting)

theorem find_node (hnodup : (env.graph.nodes.map GraphNode.id).Nodup) {id : Text} {node : GraphNode}
    (h : byId env.graph id = some node) :
    (env.graph.nodes.find? fun n => n.id == id) = some node := by
  have hid := byId_id h
  have hmem : node ∈ env.graph.nodes := List.mem_reverse.mp (List.mem_of_find?_eq_some h)
  cases hf : env.graph.nodes.find? fun n => n.id == id with
  | none => simpa [hid] using List.find?_eq_none.mp hf node hmem
  | some other =>
    have hid' : other.id = id := by simpa using List.find?_some hf
    rw [List.inj_on_of_nodup_map hnodup (List.mem_of_find?_eq_some hf) hmem (hid'.trans hid.symm)]

/-- The approved call is the call that the node had prepared. -/
theorem approvedCall_prepared (hnodup : (env.graph.nodes.map GraphNode.id).Nodup) {id : Text}
    {node : GraphNode} (hid : byId env.graph id = some node) {st : RunState} {e : PendingApproval}
    {tool : ToolSpec} {input : JsValue} (hcall : e.call = none) (hnode : e.nodeId = node.id)
    (htool : e.toolId = tool.id) (hp : Prepared env node (templateCtx env st) tool input) :
    approvedCall env st e = some (tool, input) := by
  have hfind := find_node env hnodup hid
  unfold approvedCall
  simp only [hnode, byId_id hid, hfind, htool]
  rcases hp with ⟨-, hfound, hin⟩ | ⟨-, hin⟩
  · have hplain := env.toolIds tool (List.mem_of_find?_eq_some hfound)
    unfold toolInput at hin
    rw [if_neg (by rw [hplain]; decide)]
    simp only [hcall, Option.map_some, Option.getD_some, hin, hfound]
    rfl
  · have haction : Text.startsWith tool.id "action:".toList = true := by
      unfold actionTool at hin
      cases hr : render (actionConfig node) (templateCtx env st) .tool 0 with
      | error m => simp [hr, Except.map] at hin
      | ok config =>
        simp only [hr, Except.map, Except.ok.injEq, Prod.mk.injEq] at hin
        rw [← hin.1]
        simp [Text.startsWith]
    rw [if_pos haction, Option.bind_some, hin]
    rfl

/-- What a parked call and its approval do: a failed call fails the run, and
another one finishes its node. -/
theorem approveCall_requested (hnodup : (env.graph.nodes.map GraphNode.id).Nodup) {id : Text}
    {node : GraphNode} (hid : byId env.graph id = some node) {s w : Progress}
    (happrovals : s.st.approvals = []) {tool : ToolSpec} {input display : JsValue}
    (hp : Prepared env node
      (context env ((storeDone s.st.done).map fun d => (d.1, d.2.output))) tool input)
    (hw : requestApproval env tool node.id display s = .waiting w) :
    match env.execute tool input with
    | .error _ => ∃ e s', approveCall env (w.rows - 1) (park w) = .failed e s' ∧
        s'.trace = s.trace ++ [.call node.id tool input]
    | .ok v => ∃ s', approveCall env (w.rows - 1) (park w) = .resumed s' ∧
        s'.st.done = storeDone (Record.set (storeDone s.st.done) node.id
          ⟨if v.isNullish then .null else v, none⟩) ∧
        s'.st.approvals = [] ∧ s'.tokens = s.tokens ∧ s'.steps = s.steps + 3 ∧
        s'.trace = s.trace ++ [.call node.id tool input] := by
  unfold requestApproval guarded at hw
  cases hg : env.limits.guard s with
  | some e => simp [hg] at hw
  | none =>
    simp only [hg, NodeEnd.waiting.injEq] at hw
    set e : PendingApproval :=
      ⟨node.id, none, tool.id, tool.name, column display, env.summary tool display⟩ with he
    have hlookup : (park w).st.approvals.lookup (w.rows - 1) = some e := by
      simp [← hw, park, store, happrovals, Record.set, he]
    have hcall : approvedCall env (park w).st e = some (tool, input) := by
      refine approvedCall_prepared env hnodup hid rfl rfl rfl ?_
      rw [← hw]
      exact hp
    have hguard : (raised env.limits (park w).addStep.steps).guard (park w).addStep = none := by
      have hb := env.tokensBounded
      rw [guard_none] at hg ⊢
      have htokens : (park w).addStep.tokens = s.tokens := by rw [← hw]; rfl
      rw [htokens]
      simp only [raised, maxSafeInteger]
      omega
    unfold approveCall
    simp only [hlookup, hcall, runTool, hguard]
    cases hx : env.execute tool input with
    | error m =>
      refine ⟨_, _, rfl, ?_⟩
      rw [← hw]
      rfl
    | ok v =>
      have hentries : Record.erase (park w).st.approvals (w.rows - 1) = [] := by
        simp [← hw, park, store, happrovals, Record.set, Record.erase]
      refine ⟨_, rfl, ?_, List.map_eq_nil_iff.mpr hentries, ?_, ?_, ?_⟩
      all_goals
        rw [← hw]
        rfl

/-! ## The two walks -/

/-- What goes on after an executed node. -/
def afterNode (ask : Text → Bool) (node : GraphNode) (rest : List Text) (pos : Pos) :
    NodeEnd → SegmentEnd
  | .failed e s => .failed e s
  | .waiting s => .waiting s
  | .done res s =>
      if node.type = .finish then .finished res.output { s with st := finishNode s.st node.id res }
      else walk env ask rest (pos.visit env.graph node res)
        { s with st := finishNode s.st node.id res }

theorem walk_execute {env : Setting} {id : Text} {node : GraphNode} {pos : Pos} {s : Progress}
    (hact : id ∈ pos.active) (hid : byId env.graph id = some node) (hd : doneOf s.st id = none)
    (ask : Text → Bool) (rest : List Text) :
    walk env ask (id :: rest) pos s =
      afterNode env ask node rest pos (executeNode env ask node (context env pos.steps) pos.last s) := by
  rw [walk, if_neg (not_not.mpr hact)]
  simp only [hid, hd]
  rw [← byId_id hid]
  cases executeNode env ask node (context env pos.steps) pos.last s <;> rfl

theorem total_afterNode (ask ask' : Text → Bool) (node : GraphNode) (rest : List Text) (pos : Pos)
    (r : NodeEnd) :
    Progress.total ask' (NodeEnd.progress r) ≤
      Progress.total ask' (afterNode env ask node rest pos r).progress := by
  cases r with
  | failed e s | waiting s => exact le_refl _
  | done res s =>
    simp only [afterNode]
    split_ifs
    · exact le_refl _
    · exact (walk_extends env ask rest _ { s with st := finishNode s.st node.id res }).total ask'

/-- The direct run and the paused run have come over `pre`. -/
structure Along (ask : Text → Bool) (trigger : Text) (pre : List Text) (pos pos' : Pos)
    (s s' : Progress) : Prop where
  matched : Matches ask s s'
  active : pos'.active = pos.active
  last : pos'.last = pos.last
  sees : Sees s.st pos
  sees' : Sees s'.st pos'
  replayed : replay env.graph (doneOf s'.st) pre ([trigger], .null) = some (pos'.active, pos'.last)

variable {env}
variable {ask : Text → Bool} {trigger : Text} {pre : List Text} {pos pos' : Pos} {s s' : Progress}

theorem Along.skip (h : Along env ask trigger pre pos pos' s s') {id : Text}
    (hact : id ∉ pos.active) : Along env ask trigger (pre ++ [id]) pos pos' s s' where
  matched := h.matched
  active := h.active
  last := h.last
  sees := h.sees
  sees' := h.sees'
  replayed := by
    rw [replay_append, h.replayed, Option.bind_some, replay, if_pos (h.active ▸ hact), replay]

theorem replay_snoc {done : Text → Option Done} {id : Text} {node : GraphNode} {res : Done}
    {p : List Text × JsValue}
    (h : replay env.graph done pre p = some (pos'.active, pos'.last)) (hact : id ∈ pos'.active)
    (hid : byId env.graph id = some node) (hd : done id = some res) (hty : node.type ≠ .finish) :
    replay env.graph done (pre ++ [id]) p =
      some ((pos'.visit env.graph node res).active, (pos'.visit env.graph node res).last) := by
  rw [replay_append, h, Option.bind_some, replay, if_neg (not_not.mpr hact)]
  simp only [hid, hd, if_neg hty]
  rfl

theorem Along.visit (h : Along env ask trigger pre pos pos' s s') {id : Text} {node : GraphNode}
    {res : Done} (hact : id ∈ pos.active) (hid : byId env.graph id = some node)
    (hty : node.type ≠ .finish) (hd : doneOf s.st id = some res) :
    Along env ask trigger (pre ++ [id]) (pos.visit env.graph node res)
      (pos'.visit env.graph node res) s s' where
  matched := h.matched
  active := by simp only [Pos.visit, h.active]
  last := rfl
  sees := h.sees.visit (byId_id hid ▸ hd)
  sees' := h.sees'.visit (byId_id hid ▸ (doneOf_congr (h.matched.done id)).trans hd)
  replayed := replay_snoc h.replayed (h.active ▸ hact) hid
    ((doneOf_congr (h.matched.done id)).trans hd) hty

/-- One more node is done. -/
def Finishes (st : RunState) (id : Text) (res : Done) (st' : RunState) : Prop :=
  ∀ k, st'.done.lookup k = if k = id then some res else st.done.lookup k

theorem finishes_finishNode (st : RunState) (id : Text) (res : Done) :
    Finishes st id res (finishNode st id res) := fun k => Record.lookup_set st.done k id res

theorem Finishes.doneOf {st st' : RunState} {id : Text} {res : Done}
    (h : Finishes st id res st') : doneOf st' id = some res := by
  simp only [Checkpoint.doneOf, h id, if_pos]

theorem Finishes.keeps {st st' : RunState} {id : Text} {res : Done} (h : Finishes st id res st')
    (hd : Checkpoint.doneOf st id = none) {k : Text} {d : Done}
    (hk : Checkpoint.doneOf st k = some d) : Checkpoint.doneOf st' k = some d := by
  have hne : k ≠ id := by
    rintro rfl
    rw [hd] at hk
    cases hk
  have hkeep : st'.done.lookup k = st.done.lookup k := by rw [h k, if_neg hne]
  rw [doneOf_congr hkeep, hk]

theorem Sees.finish {st st' : RunState} {node : GraphNode} {res : Done} (h : Sees st pos)
    (hf : Finishes st node.id res st') : Sees st' (pos.visit env.graph node res) := by
  intro id hid
  simp only [Pos.visit, Record.lookup_set, hf id]
  split_ifs
  · rfl
  · exact h id hid

theorem Along.finish (h : Along env ask trigger pre pos pos' s s') {id : Text} {node : GraphNode}
    {res : Done} (hact : id ∈ pos.active) (hid : byId env.graph id = some node)
    (hty : node.type ≠ .finish) (hd : doneOf s'.st id = none) {t t' : Progress}
    (hm : Matches ask t t') (hf : Finishes s.st id res t.st) (hf' : Finishes s'.st id res t'.st) :
    Along env ask trigger (pre ++ [id]) (pos.visit env.graph node res)
      (pos'.visit env.graph node res) t t' where
  matched := hm
  active := by simp only [Pos.visit, h.active]
  last := rfl
  sees := h.sees.finish (byId_id hid ▸ hf)
  sees' := h.sees'.finish (byId_id hid ▸ hf')
  replayed := replay_snoc (replay_mono (fun _ _ hk => hf'.keeps hd hk) h.replayed)
    (h.active ▸ hact) hid hf'.doneOf hty

theorem nodup_set {done : List (Text × Done)} (hn : (done.map Prod.fst).Nodup) {id : Text}
    (hid : id ∉ done.map Prod.fst) (res : Done) :
    ((Record.set done id res).map Prod.fst).Nodup := by
  rw [Record.set_of_notMem hid, List.map_append]
  exact List.Nodup.append hn (List.nodup_singleton id) (List.disjoint_singleton.mpr hid)

theorem matches_finishNode (h : Matches ask s s') {id : Text} (hd : doneOf s'.st id = none)
    (res : Done) : Matches ask { s with st := finishNode s.st id res }
      { s' with st := finishNode s'.st id res } where
  done k := by rw [finishes_finishNode, finishes_finishNode, h.done k]
  keys := nodup_set h.keys (notMem_of_doneOf hd).2 res
  approvals := h.approvals
  tokens := h.tokens
  steps := h.steps
  trace := h.trace

/-- What the direct run will have stored is what the paused run stores. -/
theorem stored_paused (h : Matches ask s s') (hs : Stored s.st.done) : Stored s'.st.done := by
  intro d hd
  have hl := h.done d.1
  rw [Record.lookup_of_mem h.keys hd] at hl
  exact hs d (Record.lookup_mem hl.symm)

theorem lookup_storeDone (h : Matches ask s s') (hs : Stored s.st.done) (id : Text) :
    (storeDone s'.st.done).lookup id = s'.st.done.lookup id :=
  lookup_perm (storeDone_perm (stored_paused h hs)) h.keys id

/-- The checkpoint after an approved call. -/
theorem approved_done (h : Matches ask s s') (hs : Stored s.st.done) {id : Text}
    (hd : doneOf s'.st id = none) {res : Done} (hres : column res.output = res.output)
    {st : RunState} (hdone : st.done = storeDone (Record.set (storeDone s'.st.done) id res)) :
    Finishes s'.st id res st ∧ (st.done.map Prod.fst).Nodup := by
  have hperm := storeDone_perm (stored_paused h hs)
  have hid : id ∉ (storeDone s'.st.done).map Prod.fst := by
    rw [(hperm.map Prod.fst).mem_iff]
    exact (notMem_of_doneOf hd).2
  have hkeys := nodup_set ((hperm.map Prod.fst).nodup_iff.mpr h.keys) hid res
  have hstored : Stored (Record.set (storeDone s'.st.done) id res) := by
    rw [Record.set_of_notMem hid]
    intro d hmem
    rcases List.mem_append.mp hmem with hmem | hmem
    · exact stored_paused h hs d (hperm.mem_iff.mp hmem)
    · rw [List.mem_singleton.mp hmem]
      exact hres
  have hperm' := storeDone_perm hstored
  rw [hdone]
  refine ⟨fun k => ?_, (hperm'.map Prod.fst).nodup_iff.mpr hkeys⟩
  rw [hdone, lookup_perm hperm' hkeys, Record.lookup_set, lookup_storeDone h hs]

/-- The paused run after an approved call, and the direct run after the call. -/
theorem matches_approved (h : Matches ask s s') {id : Text} (hask : ask id = true)
    {tool : ToolSpec} {input : JsValue} {res : Done} {t' : Progress}
    (hdone : Finishes s'.st id res t'.st) (hkeys : (t'.st.done.map Prod.fst).Nodup)
    (happrovals : t'.st.approvals = []) (htokens : t'.tokens = s'.tokens)
    (hsteps : t'.steps = s'.steps + 3) (htrace : t'.trace = s'.trace ++ [.call id tool input]) :
    Matches ask { s.record (.call id tool input) with
      st := finishNode (s.record (.call id tool input)).st id res } t' where
  done k := by
    rw [hdone k, finishes_finishNode, h.done k]
    rfl
  keys := hkeys
  approvals := happrovals
  tokens := htokens.trans h.tokens
  steps := by
    have hone : asked ask [.call id tool input] = 1 := by simp [asked, isAsked, hask]
    have hs := h.steps
    simp only [Progress.total, Progress.record, asked_append, hone] at hs ⊢
    omega
  trace := by rw [htrace, h.trace]; rfl

theorem goOn_finished (rounds : ℕ) (output : JsValue) :
    goOn env ask rounds (.finished output s) = .finished output s := by
  cases rounds <;> rfl

theorem goOn_failed (rounds : ℕ) (e : RunFailure) :
    goOn env ask rounds (.failed e s) = .failed e s := by
  cases rounds <;> rfl

/-- Every step that the nodes refer to is named. -/
def RefsNamed (graph : Graph) : Prop :=
  ∀ node ∈ graph.nodes, ∀ path ∈ nodeRefs node, namesStep path

theorem Along.stepsAgree (h : Along env ask trigger pre pos pos' s s') :
    StepsAgree pos.steps pos'.steps := by
  intro id hid
  rw [h.sees id hid, h.sees' id hid, h.matched.done id]

theorem Along.stepsAgree_stored (h : Along env ask trigger pre pos pos' s s')
    (hs : Stored s.st.done) :
    StepsAgree pos.steps ((storeDone s'.st.done).map fun d => (d.1, d.2.output)) := by
  intro id hid
  rw [lookup_map_output, lookup_storeDone h.matched hs, h.sees id hid, h.matched.done id]

theorem refs_agree (hrefs : RefsNamed env.graph) {id : Text} {node : GraphNode}
    (hid : byId env.graph id = some node) {a b : List (Text × JsValue)} (h : StepsAgree a b) :
    ∀ path ∈ nodeRefs node, ∀ mode,
      resolvePath (context env a) path mode = resolvePath (context env b) path mode :=
  fun path hp mode => resolvePath_agree env h
    (hrefs node (List.mem_reverse.mp (List.mem_of_find?_eq_some hid)) path hp) mode

/-- The end of the direct run that the paused run is to reach. -/
structure Good (env : Setting) (ask : Text → Bool) (r : SegmentEnd) : Prop where
  fits : Fits ask env.limits r.progress
  stored : Stored r.progress.st.done

/-- The step of the walk at a node that does not ask. -/
theorem goOn_node (h : Along env ask trigger pre pos pos' s s') (hrefs : RefsNamed env.graph)
    {id : Text} {node : GraphNode} {rest : List Text} {rounds : ℕ} (hact : id ∈ pos.active)
    (hid : byId env.graph id = some node) (hd : doneOf s.st id = none)
    (hask : node.type = .tool ∨ node.type = .action → ask node.id = false)
    (hgood : Good env ask (walk env (fun _ => false) (id :: rest) pos s))
    (ih : ∀ {pos pos' s s'}, Along env ask trigger (pre ++ [id]) pos pos' s s' →
      Good env ask (walk env (fun _ => false) rest pos s) →
      (goOn env ask rounds (walk env ask rest pos' s')).observe =
        (walk env (fun _ => false) rest pos s).observe) :
    (goOn env ask rounds (walk env ask (id :: rest) pos' s')).observe =
      (walk env (fun _ => false) (id :: rest) pos s).observe := by
  have hd' : doneOf s'.st id = none := (doneOf_congr (h.matched.done id)).trans hd
  rw [walk_execute hact hid hd] at hgood ⊢
  rw [walk_execute (h.active ▸ hact) hid hd', h.last,
    ← executeNode_congr env ask (refs_agree hrefs hid h.stepsAgree)]
  have hmatch := executeNode_matches env h.matched hask (context env pos.steps) pos.last
    (le_trans (total_afterNode env _ ask node rest pos _) hgood.fits)
  have hw := executeNode_within env (fun _ => false) node (context env pos.steps) pos.last s
  have hw' := executeNode_within env ask node (context env pos.steps) pos.last s'
  generalize executeNode env (fun _ => false) node (context env pos.steps) pos.last s = r
    at hgood hmatch hw ⊢
  generalize executeNode env ask node (context env pos.steps) pos.last s' = r' at hmatch hw' ⊢
  cases hmatch with
  | failed e e' htrace =>
    simp only [afterNode, goOn_failed, SegmentEnd.observe, htrace]
  | done res hm =>
    rename_i t t'
    have hnone : doneOf t'.st node.id = none :=
      (doneOf_congr (congrArg (List.lookup node.id) hw'.done)).trans (byId_id hid ▸ hd')
    have htrace : t'.trace = t.trace := hm.trace
    have hm := matches_finishNode hm hnone res
    simp only [afterNode] at hgood ⊢
    split_ifs at hgood ⊢ with hty
    · simp only [goOn_finished, SegmentEnd.observe, htrace]
    · refine ih (h.finish hact hid hty hd' hm ?_ ?_) hgood
      · intro k
        have hdone : t.st.done = s.st.done := hw.done
        rw [finishes_finishNode, hdone, byId_id hid]
      · intro k
        have hdone : t'.st.done = s'.st.done := hw'.done
        rw [finishes_finishNode, hdone, byId_id hid]

/-- The start of every segment. -/
def Starts (env : Setting) (order : List Text) (trigger : Text) : Prop :=
  ∀ st, walkStart env.graph st =
    some (order, ⟨[trigger], st.done.map fun d => (d.1, d.2.output), .null⟩)

/-- The segment after an approval comes to the node after the approved one. -/
theorem executeRun_resumed {id : Text} {node : GraphNode} {res : Done} {rest : List Text}
    (hstart : Starts env (pre ++ id :: rest) trigger)
    (h : Along env ask trigger (pre ++ [id]) (pos.visit env.graph node res)
      (pos'.visit env.graph node res) s s') :
    ∃ pos'', Along env ask trigger (pre ++ [id]) (pos.visit env.graph node res) pos'' s s' ∧
      executeRun env ask s' = walk env ask rest pos'' s' := by
  have hsees : Sees s'.st ⟨[trigger], s'.st.done.map fun d => (d.1, d.2.output), .null⟩ :=
    fun k _ => lookup_map_output s'.st.done k
  obtain ⟨steps, hsees', hwalk⟩ := walk_replay env ask rest hsees h.replayed
  refine ⟨⟨(pos'.visit env.graph node res).active, steps, (pos'.visit env.graph node res).last⟩,
    ⟨h.matched, h.active, h.last, h.sees, hsees', h.replayed⟩, ?_⟩
  rw [List.append_assoc, List.singleton_append] at hwalk
  rw [executeRun, hstart]
  exact hwalk

/-- The call of the direct run, and the request, the approval and the next
segment of the paused run. -/
theorem goOn_prepared (h : Along env ask trigger pre pos pos' s s')
    (hnodup : (env.graph.nodes.map GraphNode.id).Nodup) {id : Text} {node : GraphNode}
    {rest : List Text} {rounds : ℕ} (hstart : Starts env (pre ++ id :: rest) trigger)
    (hact : id ∈ pos.active) (hid : byId env.graph id = some node) (hd' : doneOf s'.st id = none)
    (hne : node.type ≠ .finish) (hask : ask node.id = true) (hstored : Stored s.st.done)
    {code : String} {tool : ToolSpec} {input display : JsValue}
    (hp : Prepared env node
      (context env ((storeDone s'.st.done).map fun d => (d.1, d.2.output))) tool input)
    (hgood : Good env ask
      (afterNode env (fun _ => false) node rest pos (callNode env code tool input node.id s)))
    (ih : ∀ {pos pos' s s'}, Along env ask trigger (pre ++ [id]) pos pos' s s' →
      Good env ask (walk env (fun _ => false) rest pos s) →
      (goOn env ask rounds (walk env ask rest pos' s')).observe =
        (walk env (fun _ => false) rest pos s).observe) :
    (goOn env ask (rounds + 1) (afterNode env ask node rest pos'
      (requestApproval env tool node.id display s'))).observe =
      (afterNode env (fun _ => false) node rest pos
        (callNode env code tool input node.id s)).observe := by
  have htrace := h.matched.trace
  obtain rfl := byId_id hid
  cases hg : env.limits.guard s with
  | some e =>
    -- what stops the direct run before its call stops the paused run before its request
    cases hg' : env.limits.guard s' with
    | none => simp [h.matched.stops hg'] at hg
    | some e' =>
      simp only [callNode, runTool, hg, requestApproval, guarded, hg', afterNode, goOn_failed,
        SegmentEnd.observe, htrace]
  | none =>
    have hcalled : NodeEnd.progress (callNode env code tool input node.id s) =
        s.record (.call node.id tool input) := by
      simp only [callNode, runTool, hg]
      cases env.execute tool input <;> rfl
    have hroom : Progress.total ask s < env.limits.maxSteps := by
      have hle := le_trans (total_afterNode env _ ask node rest pos _) hgood.fits
      rw [hcalled] at hle
      simp only [Progress.total, Progress.record, asked_append] at hle ⊢
      omega
    obtain ⟨w, hw⟩ : ∃ w, requestApproval env tool node.id display s' = .waiting w := by
      rw [requestApproval, guarded, h.matched.passes hg hroom]
      exact ⟨_, rfl⟩
    have happroved := approveCall_requested env hnodup hid h.matched.approvals hp hw
    simp only [hw, afterNode, goOn]
    cases hx : env.execute tool input with
    | error m =>
      rw [hx] at happroved
      obtain ⟨e, t', he, ht⟩ := happroved
      simp only [he, callNode, runTool, hg, hx, SegmentEnd.observe, ht, htrace, Progress.record]
    | ok v =>
      rw [hx] at happroved
      obtain ⟨t', he, hdone, hentries, htokens, hsteps, ht⟩ := happroved
      simp only [callNode, runTool, hg, hx, afterNode, if_neg hne] at hgood ⊢
      set res : Done := ⟨if v.isNullish then .null else v, none⟩
      have hf : Finishes s.st node.id res
          (finishNode (s.record (.call node.id tool input)).st node.id res) :=
        finishes_finishNode _ _ _
      have hres : column res.output = res.output := by
        have hmem := Record.lookup_mem ((hf node.id).trans (if_pos rfl))
        exact hgood.stored _ ((walk_extends env _ rest _ _).done.subset hmem)
      obtain ⟨hf', hkeys⟩ := approved_done h.matched hstored hd' hres hdone
      have hm := matches_approved h.matched hask hf' hkeys hentries htokens hsteps ht
      obtain ⟨pos'', halong, hseg⟩ :=
        executeRun_resumed hstart (h.finish hact hid hne hd' hm hf hf')
      simp only [he, hseg]
      exact ih halong hgood

/-- The step of the walk at a node that parks and is approved. -/
theorem goOn_asked (h : Along env ask trigger pre pos pos' s s') (hrefs : RefsNamed env.graph)
    (hnodup : (env.graph.nodes.map GraphNode.id).Nodup) {id : Text} {node : GraphNode}
    {rest : List Text} {rounds : ℕ} (hstart : Starts env (pre ++ id :: rest) trigger)
    (hact : id ∈ pos.active) (hid : byId env.graph id = some node) (hd : doneOf s.st id = none)
    (hty : node.type = .tool ∨ node.type = .action) (hask : ask node.id = true)
    (hgood : Good env ask (walk env (fun _ => false) (id :: rest) pos s))
    (ih : ∀ {pos pos' s s'}, Along env ask trigger (pre ++ [id]) pos pos' s s' →
      Good env ask (walk env (fun _ => false) rest pos s) →
      (goOn env ask rounds (walk env ask rest pos' s')).observe =
        (walk env (fun _ => false) rest pos s).observe) :
    (goOn env ask (rounds + 1) (walk env ask (id :: rest) pos' s')).observe =
      (walk env (fun _ => false) (id :: rest) pos s).observe := by
  have hd' : doneOf s'.st id = none := (doneOf_congr (h.matched.done id)).trans hd
  have hstored : Stored s.st.done := fun d hmem =>
    hgood.stored d ((walk_extends env _ _ _ _).done.subset hmem)
  rw [walk_execute hact hid hd] at hgood ⊢
  rw [walk_execute (h.active ▸ hact) hid hd', h.last,
    ← executeNode_congr env ask (refs_agree hrefs hid h.stepsAgree)]
  have htrace := h.matched.trace
  rcases executeNode_call env hty (context env pos.steps) pos.last with
    ⟨e, heq⟩ | ⟨e, heq⟩ | ⟨code, tool, input, display, hp, heq⟩
  · simp only [heq, afterNode, goOn_failed, SegmentEnd.observe, htrace]
  · simp only [heq, guarded]
    cases env.limits.guard s <;> cases env.limits.guard s' <;>
      simp only [afterNode, goOn_failed, SegmentEnd.observe, Progress.addStep, htrace]
  rw [heq] at hgood ⊢
  rw [heq, hask]
  simp only [askOrCall, Bool.false_eq_true, ite_false, ite_true] at hgood ⊢
  have hne : node.type ≠ .finish := by rcases hty with hty | hty <;> simp [hty]
  exact goOn_prepared h hnodup hstart hact hid hd' hne hask hstored
    (hp.congr env (refs_agree hrefs hid (h.stepsAgree_stored hstored))) hgood ih

/-- From any point of the two walks on. -/
theorem goOn_walk (hrefs : RefsNamed env.graph)
    (hnodup : (env.graph.nodes.map GraphNode.id).Nodup) {rest : List Text} {rounds : ℕ}
    (hstart : Starts env (pre ++ rest) trigger) (hrounds : rest.length ≤ rounds)
    (h : Along env ask trigger pre pos pos' s s')
    (hgood : Good env ask (walk env (fun _ => false) rest pos s)) :
    (goOn env ask rounds (walk env ask rest pos' s')).observe =
      (walk env (fun _ => false) rest pos s).observe := by
  induction rest generalizing pre pos pos' s s' rounds with
  | nil => simp only [walk, goOn_finished, SegmentEnd.observe, h.last, h.matched.trace]
  | cons id rest ih =>
    have hstart' : Starts env (pre ++ [id] ++ rest) trigger := by
      rw [List.append_assoc]
      exact hstart
    rw [List.length_cons] at hrounds
    have hnext : ∀ {rounds pos pos' s s'}, rest.length ≤ rounds →
        Along env ask trigger (pre ++ [id]) pos pos' s s' →
        Good env ask (walk env (fun _ => false) rest pos s) →
        (goOn env ask rounds (walk env ask rest pos' s')).observe =
          (walk env (fun _ => false) rest pos s).observe :=
      fun hrounds h hgood => ih hstart' hrounds h hgood
    by_cases hact : id ∈ pos.active
    swap
    · rw [walk_skip hact] at hgood ⊢
      rw [walk_skip (h.active ▸ hact)]
      exact hnext (by omega) (h.skip hact) hgood
    cases hid : byId env.graph id with
    | none =>
      rw [walk_broken hact hid, walk_broken (h.active ▸ hact) hid]
      simp only [goOn_failed, SegmentEnd.observe, h.matched.trace]
    | some node =>
      cases hd : doneOf s.st id with
      | some res =>
        have hd' : doneOf s'.st id = some res := (doneOf_congr (h.matched.done id)).trans hd
        rw [walk_done hact hid hd] at hgood ⊢
        rw [walk_done (h.active ▸ hact) hid hd']
        split_ifs at hgood ⊢ with hty
        · simp only [goOn_finished, SegmentEnd.observe, h.matched.trace]
        · exact hnext (by omega) (h.visit hact hid hty hd) hgood
      | none =>
        by_cases hasked : (node.type = .tool ∨ node.type = .action) ∧ ask node.id = true
        · obtain ⟨rounds, rfl⟩ : ∃ k, rounds = k + 1 := ⟨rounds - 1, by omega⟩
          exact goOn_asked h hrefs hnodup hstart hact hid hd hasked.1 hasked.2 hgood
            (hnext (by omega))
        · refine goOn_node h hrefs hact hid hd (fun hty => ?_) hgood (hnext (by omega))
          simpa [hty] using hasked

end

/-- Pausing for approval does not change what a workflow computes: the events of
the run and its output are those of the run in which nothing asks. -/
theorem pausedRun_observe (env : Setting) (ask : Text → Bool) {input : JsValue}
    {toolIds : Option (List Text)} (haccepted : validateGraph input toolIds = (env.graph, []))
    (hrefs : RefsNamed env.graph) (hstored : Stored (directRun env).progress.st.done)
    (hfits : Fits ask env.limits (directRun env).progress) :
    (pausedRun env ask).observe = (directRun env).observe := by
  unfold pausedRun directRun at *
  unfold executeRun at *
  cases horder : topoOrder env.graph with
  | none =>
    simp only [walkStart, horder, Option.bind_eq_bind, Option.bind_none, goOn_failed,
      SegmentEnd.observe]
  | some order =>
    cases htrigger : env.graph.nodes.find? fun n => n.type = .trigger with
    | none =>
      simp only [walkStart, horder, htrigger, Option.bind_eq_bind, Option.bind_some,
        Option.bind_none, goOn_failed, SegmentEnd.observe]
    | some trigger =>
      have hstart : Starts env ([] ++ order) trigger.id := by
        intro st
        simp [walkStart, horder, htrigger]
      have hlen : order.length ≤ env.graph.nodes.length := by
        unfold topoOrder at horder
        dsimp only at horder
        split_ifs at horder with hl
        rw [← Option.some.inj horder, hl]
      simp only [hstart {}, List.nil_append] at hstored hfits ⊢
      have hsees : Sees {} ⟨[trigger.id], [], .null⟩ := fun _ _ => rfl
      have halong : Along env ask trigger.id [] ⟨[trigger.id], [], .null⟩
          ⟨[trigger.id], [], .null⟩ {} {} :=
        ⟨⟨fun _ => rfl, List.nodup_nil, rfl, rfl, rfl, rfl⟩, rfl, rfl, hsees, hsees, rfl⟩
      exact goOn_walk hrefs (nodup_of_validated haccepted) hstart hlen halong ⟨hfits, hstored⟩

/-! ## Runs of one call -/

instance (graph : Graph) : Decidable (RefsNamed graph) :=
  inferInstanceAs (Decidable (∀ node ∈ graph.nodes, ∀ path ∈ nodeRefs node, namesStep path))

instance (done : List (Text × Done)) : Decidable (Stored done) :=
  inferInstanceAs (Decidable (∀ d ∈ done, column d.2.output = d.2.output))

instance (ask : Text → Bool) (limits : Limits) (s : Progress) : Decidable (Fits ask limits s) :=
  inferInstanceAs (Decidable (_ ≤ _))

def nodeInput (id type : String) (data : Data) : JsValue :=
  .obj [("id".toList, .str id.toList), ("type".toList, .str type.toList),
    ("data".toList, .obj data)]

def edgeInput (source target : String) : JsValue :=
  .obj [("id".toList, .str (source ++ target).toList), ("source".toList, .str source.toList),
    ("target".toList, .str target.toList)]

/-- A trigger, a transform, the call of a tool and an end. -/
def callInput (transform input output : String) : JsValue :=
  .obj [("nodes".toList, .arr [nodeInput "start" "trigger" [],
      nodeInput transform "transform" [("template".toList, .str "t".toList)],
      nodeInput "call" "tool" [("toolId".toList, .str "k1".toList),
        ("input".toList, .str input.toList)],
      nodeInput "stop" "end" [("output".toList, .str output.toList)]]),
    ("edges".toList, .arr [edgeInput "start" transform, edgeInput transform "call",
      edgeInput "call" "stop"])]

/-- The call returns `value`. -/
def callSetting (graph : JsValue) (maxSteps : ℕ) (value : JsValue) : Setting where
  graph := (validateGraph graph none).1
  limits := ⟨maxSteps, 200000⟩
  tokensBounded := (by decide : 200000 ≤ 2000000)
  trigger := .obj []
  vars := []
  secrets := []
  tools := [⟨"k1".toList, "lookup".toList, "http".toList, none, true, .obj []⟩]
  toolIds := by decide
  lower := Text.asciiLower
  clip := id
  summary _ _ := []
  schemaErrors _ _ := none
  knownKind _ := true
  ownsConnection _ := true
  execute _ _ := .ok value
  agent _ _ := ⟨[], .ok .null, by simp⟩

def namedInput : JsValue :=
  callInput "text" "\x7b\x7bsteps.text.output\x7d\x7d" "is \x7b\x7bsteps.call.output\x7d\x7d"

/-- The call parks and is approved, with room for its two steps. -/
theorem pausedRun_observe_named :
    validateGraph namedInput none = ((callSetting namedInput 6 (.str ['x'])).graph, []) ∧
      (pausedRun (callSetting namedInput 6 (.str ['x'])) fun _ => true).observe =
        (directRun (callSetting namedInput 6 (.str ['x']))).observe := by
  have hissues : (validateGraph namedInput none).2 = [] := by decide +kernel
  have haccepted :
      validateGraph namedInput none = ((callSetting namedInput 6 (.str ['x'])).graph, []) :=
    Prod.ext rfl hissues
  exact ⟨haccepted, pausedRun_observe _ _ haccepted (by decide +kernel) (by decide +kernel)
    (by decide +kernel)⟩

/-- The paused run of an accepted graph differs from the direct run. -/
def Differs (graph : JsValue) (maxSteps : ℕ) (value : JsValue) : Prop :=
  (validateGraph graph none).2 = [] ∧
    (pausedRun (callSetting graph maxSteps value) fun _ => true).observe ≠
      (directRun (callSetting graph maxSteps value)).observe

instance (graph : JsValue) (maxSteps : ℕ) (value : JsValue) :
    Decidable (Differs graph maxSteps value) := inferInstanceAs (Decidable (_ ∧ _))

/-- Without room for the steps of an approval the paused run fails; an object
comes back from the column with its keys sorted; the steps as a whole show the
order of the checkpoint; and the checkpoint does not have the output of a node
that counts as done by its name. -/
theorem pausedRun_differs :
    Differs namedInput 5 (.str ['x']) ∧
    Differs namedInput 25 (.obj [("bb".toList, .null), ("a".toList, .null)]) ∧
    Differs (callInput "text" "x" "is \x7b\x7bsteps\x7d\x7d") 25 .null ∧
    Differs (callInput "toString" "is \x7b\x7bsteps.toString\x7d\x7d" "x") 25 .null := by
  decide +kernel

end Prgd.Resume
