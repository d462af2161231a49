import Prgd.RunMachine
import Mathlib.Data.List.Nodup

/-!
# Calls that were never made

`Fresh` is the predicate on checkpoints behind "no tool call is made twice": the
calls that are still open in the checkpoint were never made, and every node
whose call was made is done in it. The module shows that finishing a node,
filing a request, making a call of the model and storing an approved call keep
it, and what a turn of the agent loop has to know about its own calls.
-/
namespace Prgd.RunFreshness
open Interleaving Workflow Checkpoint RunMachine

def Shared.keys (s : Shared) : List (Text × Option Text) := s.log.map Call.key

def Shared.approved (s : Shared) : List ℕ := s.log.filterMap Call.approval

def entryKey (e : PendingApproval) : Text × Option Text := (e.nodeId, e.toolUseId)

/-- The tool calls of an answer have new ids. -/
def FreshReply (s : Shared) : Act → Pc → Prop
  | .respond (.uses _ first others), .modelling f _ _ =>
      ((first :: others).map ToolUse.id).Nodup ∧
        ∀ u ∈ first :: others, u.id ≠ [] ∧ (f.node.id, u.id) ∉ s.seen
  | _, _ => True

instance (s : Shared) (a : Act) (c : Pc) : Decidable (FreshReply s a c) := by
  unfold FreshReply
  split <;> infer_instance

/-- The provider never repeats a tool call id within a conversation. -/
def IdsFresh (w : RunWorld) (a : ℕ × Act) : Prop := FreshReply w.shared a.2 (w.pc a.1)

instance (w : RunWorld) (a : ℕ × Act) : Decidable (IdsFresh w a) :=
  inferInstanceAs (Decidable (FreshReply _ _ _))

/-- Open calls of the checkpoint were never made, and nodes whose call was made
are done in it. -/
structure Fresh (s : Shared) (st : RunState) : Prop where
  ids : ∀ a e, (a, e) ∈ st.approvals → a < s.rows.length ∧ a ∉ Shared.approved s
  keys : ∀ a e, (a, e) ∈ st.approvals → entryKey e ∉ Shared.keys s
  idsNodup : (st.approvals.map Prod.fst).Nodup
  keysNodup : (st.approvals.map fun f => entryKey f.2).Nodup
  seen : ∀ a e u, (a, e) ∈ st.approvals → e.toolUseId = some u → (e.nodeId, u) ∈ s.seen
  done : ∀ n, (n, none) ∈ Shared.keys s → (doneOf st n).isSome

/-- The history so far, and the checkpoint when somebody may read it. -/
structure History (s : Shared) : Prop where
  keysNodup : (Shared.keys s).Nodup
  idsNodup : (Shared.approved s).Nodup
  seen : ∀ n u, (n, some u) ∈ Shared.keys s → (n, u) ∈ s.seen
  ids : ∀ a ∈ Shared.approved s, a < s.rows.length
  queued : s.status = .queued →
    s.inFlight = none ∧ ∃ st, s.stored = some st ∧ Fresh s st ∧ st.approvals = []
  waiting : s.status = .waitingApproval → s.inFlight = none →
    ∃ st, s.stored = some st ∧ Fresh s st
  unlocked : s.lock = none → s.inFlight = none

/-- The calls of a turn: ids are distinct and known, open calls were never made
or filed, and every filed one is among them. -/
structure TurnOk (s : Shared) (f : Frame) (calls : List (ToolUse × Option ToolOutcome)) :
    Prop where
  nodup : (calls.map fun c => c.1.id).Nodup
  seen : ∀ c ∈ calls, (f.node.id, c.1.id) ∈ s.seen
  unmade : ∀ u, (u, none) ∈ calls → (f.node.id, some u.id) ∉ Shared.keys s
  unfiled : ∀ u, (u, none) ∈ calls → ∀ a e, (a, e) ∈ f.st.approvals →
    entryKey e ≠ (f.node.id, some u.id)
  filed : ∀ a e, (a, e) ∈ f.st.approvals → ∃ u, (u, some (ToolOutcome.approval a)) ∈ calls

/-- What each place knows about the calls. -/
def Safe (s : Shared) : Pc → Prop
  | .claimed => ∃ st, s.stored = some st ∧ Fresh s st ∧ st.approvals = []
  | .walking f _ | .modelling f _ _ =>
      Fresh s f.st ∧ f.st.approvals = [] ∧ doneOf f.st f.node.id = none
  | .turn f _ calls => Fresh s f.st ∧ doneOf f.st f.node.id = none ∧ TurnOk s f calls
  | .saving f _ => Fresh s f.st ∧ f.st.approvals = []
  | .parking st => Fresh s st
  | .approving a st e _ => s.inFlight = none ∧ Fresh s st ∧ st.approvals.lookup a = some e
  | .ran a st e out =>
      s.inFlight = some a ∧ ∀ st', approvedState st a e out = some st' → Fresh s st'
  | .held _ _ | .failing _ | .expiring true | .releasing _ => s.inFlight = none
  | _ => True

/-! ## Checkpoints -/

/-- The predicate looks at the open approvals, the finished nodes and the
history. -/
theorem Fresh.congr {s s' : Shared} {st st' : RunState} (h : Fresh s st)
    (hlog : s'.log = s.log) (hseen : s.seen ⊆ s'.seen) (hrows : s.rows.length ≤ s'.rows.length)
    (happrovals : st'.approvals = st.approvals) (hdone : st'.done = st.done) : Fresh s' st' where
  ids a e he := by
    obtain ⟨hlt, hnot⟩ := h.ids a e (happrovals ▸ he)
    exact ⟨by omega, by simpa [Shared.approved, hlog] using hnot⟩
  keys a e he := by simpa [Shared.keys, hlog] using h.keys a e (happrovals ▸ he)
  idsNodup := by rw [happrovals]; exact h.idsNodup
  keysNodup := by rw [happrovals]; exact h.keysNodup
  seen a e u he hu := hseen (h.seen a e u (happrovals ▸ he) hu)
  done n hn := by
    have := h.done n (by simpa [Shared.keys, hlog] using hn)
    simpa [doneOf, hdone] using this

theorem doneOf_set {st st' : RunState} {id n : Text} {res : Done}
    (hst : st'.done = Record.set st.done id res) (h : (doneOf st n).isSome ∨ n = id) :
    (doneOf st' n).isSome := by
  simp only [doneOf, hst, Record.lookup_set]
  by_cases hn : n = id
  · simp [hn]
  · simpa [hn, doneOf] using h

/-- A finished node keeps the checkpoint fresh, also when its own call is new. -/
theorem Fresh.finishNode {s : Shared} {st : RunState} (h : Fresh s st) (happ : st.approvals = [])
    {id : Text} {res : Done} {log : List Call}
    (hlog : log = s.log ∨ log = s.log ++ [⟨none, id, none⟩]) :
    Fresh { s with log := log } (Checkpoint.finishNode st id res) where
  ids a e he := by simp [Checkpoint.finishNode, happ] at he
  keys a e he := by simp [Checkpoint.finishNode, happ] at he
  idsNodup := by simp [Checkpoint.finishNode, happ]
  keysNodup := by simp [Checkpoint.finishNode, happ]
  seen a e u he := by simp [Checkpoint.finishNode, happ] at he
  done n hn := by
    have hdone : (doneOf st n).isSome ∨ n = id := ?_
    · exact doneOf_set rfl hdone
    rcases hlog with rfl | rfl
    · exact .inl (h.done n hn)
    · simp only [Shared.keys, List.map_append, List.mem_append, List.map_cons, List.map_nil,
        List.mem_singleton, Call.key, Prod.mk.injEq, and_true] at hn
      rcases hn with hn | hn
      · exact .inl (h.done n hn)
      · exact .inr hn

/-- A new request keeps the checkpoint fresh when its call was never made or
filed. -/
theorem Fresh.addApproval {s : Shared} {st : RunState} (h : Fresh s st) (hs : History s)
    {n : Text} {u : Option Text} {q : Request} (hkey : (n, u) ∉ Shared.keys s)
    (hnew : ∀ a e, (a, e) ∈ st.approvals → entryKey e ≠ (n, u))
    (hseen : ∀ id, u = some id → (n, id) ∈ s.seen) :
    Fresh { s with rows := s.rows ++ [.pending] } (addApproval st s.rows.length n u q) := by
  have hid : s.rows.length ∉ st.approvals.map Prod.fst := by
    intro hmem
    obtain ⟨f, hf, heq⟩ := List.mem_map.mp hmem
    have := (h.ids f.1 f.2 hf).1
    omega
  have hset : (RunMachine.addApproval st s.rows.length n u q).approvals =
      st.approvals ++ [(s.rows.length, ⟨n, u, q.toolId, q.toolName, q.input, q.summary⟩)] :=
    Record.set_of_notMem hid _
  have hmem : ∀ a e, (a, e) ∈ (RunMachine.addApproval st s.rows.length n u q).approvals →
      (a, e) ∈ st.approvals ∨
        a = s.rows.length ∧ e = ⟨n, u, q.toolId, q.toolName, q.input, q.summary⟩ := by
    intro a e he
    rw [hset, List.mem_append, List.mem_singleton, Prod.mk.injEq] at he
    exact he
  refine ⟨fun a e he => ?_, fun a e he => ?_, ?_, ?_, fun a e i he hi => ?_, fun m hm => ?_⟩
  · rcases hmem a e he with he | ⟨rfl, rfl⟩
    · obtain ⟨hlt, hnot⟩ := h.ids a e he
      exact ⟨by simp only [List.length_append, List.length_singleton]; omega, hnot⟩
    · refine ⟨by simp, fun hin => ?_⟩
      exact absurd (hs.ids _ hin) (lt_irrefl _)
  · rcases hmem a e he with he | ⟨rfl, rfl⟩
    · exact h.keys a e he
    · exact hkey
  · rw [hset, List.map_append, List.nodup_append]
    refine ⟨h.idsNodup, by simp, fun a ha b hb => ?_⟩
    rw [List.map_cons, List.map_nil, List.mem_singleton] at hb
    rintro rfl
    rw [hb] at ha
    exact hid ha
  · rw [hset, List.map_append, List.nodup_append]
    refine ⟨h.keysNodup, by simp, fun k hk k' hk' => ?_⟩
    rw [List.map_cons, List.map_nil, List.mem_singleton] at hk'
    obtain ⟨f, hf, rfl⟩ := List.mem_map.mp hk
    rw [hk']
    exact hnew f.1 f.2 hf
  · rcases hmem a e he with he | ⟨rfl, rfl⟩
    · exact h.seen a e i he hi
    · exact hseen i hi
  · exact h.done m hm

/-- A call of the model that was never filed leaves the checkpoint fresh. -/
theorem Fresh.called {s : Shared} {st : RunState} (h : Fresh s st) {n u : Text}
    (hun : ∀ a e, (a, e) ∈ st.approvals → entryKey e ≠ (n, some u)) :
    Fresh { s with log := s.log ++ [⟨none, n, some u⟩] } st where
  ids a e he := by simpa [Shared.approved] using h.ids a e he
  keys a e he := by
    simp only [Shared.keys, List.map_append, List.mem_append, List.map_cons, List.map_nil,
      List.mem_singleton]
    rintro (hin | hin)
    · exact h.keys a e he hin
    · exact hun a e he hin
  idsNodup := h.idsNodup
  keysNodup := h.keysNodup
  seen := h.seen
  done m hm := by
    simp only [Shared.keys, List.map_append, List.mem_append, List.map_cons, List.map_nil,
      List.mem_singleton, Call.key, Prod.mk.injEq, reduceCtorEq, and_false, or_false] at hm
    exact h.done m hm

/-- After an approved call the checkpoint without its entry is fresh. -/
theorem Fresh.approved {s : Shared} {st st' : RunState} (h : Fresh s st) {a : ℕ}
    {e : PendingApproval} {out : ToolOutput} (he : (a, e) ∈ st.approvals)
    (hst : approvedState st a e out = some st') :
    Fresh { s with log := s.log ++ [⟨some a, e.nodeId, e.toolUseId⟩], inFlight := some a } st' := by
  have happ := approvedState_approvals hst
  have hne : ∀ a' e', (a', e') ∈ st'.approvals → (a', e') ∈ st.approvals ∧ a' ≠ a := by
    intro a' e' he'
    rwa [happ, Record.mem_erase] at he'
  have hsub : st'.approvals.Sublist st.approvals := by
    rw [happ]
    exact List.filter_sublist
  refine ⟨fun a' e' he' => ?_, fun a' e' he' => ?_, h.idsNodup.sublist (hsub.map _),
    h.keysNodup.sublist (hsub.map _), fun a' e' u he' hu => ?_, fun n hn => ?_⟩
  · obtain ⟨hmem, hne'⟩ := hne a' e' he'
    obtain ⟨hlt, hnot⟩ := h.ids a' e' hmem
    refine ⟨hlt, ?_⟩
    simp only [Shared.approved, List.filterMap_append, List.mem_append]
    rintro (hin | hin)
    · exact hnot hin
    · simp at hin
      exact hne' hin
  · obtain ⟨hmem, hne'⟩ := hne a' e' he'
    simp only [Shared.keys, List.map_append, List.mem_append, List.map_cons, List.map_nil,
      List.mem_singleton]
    rintro (hin | hin)
    · exact h.keys a' e' hmem hin
    · -- two entries with one key are one entry
      have := List.inj_on_of_nodup_map h.keysNodup hmem he hin
      exact hne' (congrArg Prod.fst this)
  · exact h.seen a' e' u (hne a' e' he').1 hu
  · simp only [Shared.keys, List.map_append, List.mem_append, List.map_cons, List.map_nil,
      List.mem_singleton, Call.key, Prod.mk.injEq] at hn
    rcases approvedState_done hst with ⟨hsome, hdone⟩ | ⟨hdone⟩
    · have hold : (n, none) ∈ Shared.keys s := by
        rcases hn with hn | ⟨-, hnone⟩
        · exact hn
        · simp [← hnone] at hsome
      simpa [doneOf, hdone] using h.done n hold
    · exact doneOf_set hdone (hn.imp (h.done n) And.left)

/-! ## History -/

/-- Nothing was called: only what a reader may see has to be shown again. -/
theorem History.quiet {s s' : Shared} (h : History s) (hlog : s'.log = s.log)
    (hseen : s.seen ⊆ s'.seen) (hrows : s.rows.length ≤ s'.rows.length)
    (hqueued : s'.status = .queued →
      s'.inFlight = none ∧ ∃ st, s'.stored = some st ∧ Fresh s' st ∧ st.approvals = [])
    (hwaiting : s'.status = .waitingApproval → s'.inFlight = none →
      ∃ st, s'.stored = some st ∧ Fresh s' st)
    (hunlocked : s'.lock = none → s'.inFlight = none) : History s' where
  keysNodup := by simpa [Shared.keys, hlog] using h.keysNodup
  idsNodup := by simpa [Shared.approved, hlog] using h.idsNodup
  seen n u hn := hseen (h.seen n u (by simpa [Shared.keys, hlog] using hn))
  ids a ha := by
    have := h.ids a (by simpa [Shared.approved, hlog] using ha)
    omega
  queued := hqueued
  waiting := hwaiting
  unlocked := hunlocked

/-- A new call, made while nobody may read the checkpoint. -/
theorem History.call {s s' : Shared} (h : History s) {c : Call} (hlog : s'.log = s.log ++ [c])
    (hseen : s'.seen = s.seen) (hrows : s'.rows = s.rows) (hkey : c.key ∉ Shared.keys s)
    (hid : ∀ a, c.approval = some a → a ∉ Shared.approved s ∧ a < s.rows.length)
    (huse : ∀ u, c.toolUseId = some u → (c.nodeId, u) ∈ s.seen)
    (hqueued : s'.status ≠ .queued)
    (hwaiting : s'.status = .waitingApproval → s'.inFlight ≠ none)
    (hunlocked : s'.lock = none → s'.inFlight = none) : History s' where
  keysNodup := by
    rw [Shared.keys, hlog, List.map_append, List.nodup_append]
    refine ⟨h.keysNodup, by simp, fun k hk k' hk' => ?_⟩
    rw [List.map_cons, List.map_nil, List.mem_singleton] at hk'
    rintro rfl
    rw [hk'] at hk
    exact hkey hk
  idsNodup := by
    rw [Shared.approved, hlog, List.filterMap_append, List.nodup_append]
    cases ha : c.approval with
    | none => simpa [ha, Shared.approved] using h.idsNodup
    | some a =>
      refine ⟨h.idsNodup, by simp [ha], fun b hb b' hb' => ?_⟩
      have : b' = a := by simpa [ha, eq_comm] using hb'
      rintro rfl
      exact (hid a ha).1 (this ▸ hb)
  seen n u hn := by
    rw [hseen]
    rw [Shared.keys, hlog, List.map_append, List.mem_append] at hn
    rcases hn with hn | hn
    · exact h.seen n u hn
    · simp only [List.map_cons, List.map_nil, List.mem_singleton, Call.key, Prod.mk.injEq] at hn
      rw [hn.1]
      exact huse u hn.2.symm
  ids a ha := by
    rw [hrows]
    rw [Shared.approved, hlog, List.filterMap_append, List.mem_append] at ha
    rcases ha with ha | ha
    · exact h.ids a ha
    · have : c.approval = some a := by simpa using ha
      exact (hid a this).2
  queued hq := (hqueued hq).elim
  waiting hw hf := (hwaiting hw hf).elim
  unlocked := hunlocked

/-- Steps that leave the history, the run and its flights alone. -/
theorem History.same {s s' : Shared} (h : History s) (hlog : s'.log = s.log)
    (hseen : s'.seen = s.seen) (hrows : s'.rows.length = s.rows.length)
    (hstatus : s'.status = s.status) (hstored : s'.stored = s.stored)
    (hflight : s'.inFlight = s.inFlight) (hunlocked : s'.lock = none → s'.inFlight = none) :
    History s' := by
  have hsub : s.seen ⊆ s'.seen := hseen ▸ List.Subset.refl _
  refine h.quiet hlog hsub hrows.ge (fun hq => ?_) (fun hw hf => ?_) hunlocked
  · obtain ⟨hf, st, hst, hfresh, happ⟩ := h.queued (by rw [← hstatus, hq])
    exact ⟨hflight.trans hf, st, hstored.trans hst, hfresh.congr hlog hsub hrows.ge rfl rfl, happ⟩
  · obtain ⟨st, hst, hfresh⟩ := h.waiting (by rw [← hstatus, hw]) (by rw [← hflight, hf])
    exact ⟨st, hstored.trans hst, hfresh.congr hlog hsub hrows.ge rfl rfl⟩

/-- Steps that end the run, or meet it ended. -/
theorem History.ended {s s' : Shared} (h : History s) (hlog : s'.log = s.log)
    (hseen : s'.seen = s.seen) (hrows : s'.rows.length = s.rows.length)
    (hstatus : s'.status.terminal) (hunlocked : s'.lock = none → s'.inFlight = none) :
    History s' := by
  refine h.quiet hlog (hseen ▸ List.Subset.refl _) hrows.ge (fun hq => ?_) (fun hw => ?_) hunlocked
  · simp [hq, RunStatus.terminal] at hstatus
  · simp [hw, RunStatus.terminal] at hstatus

/-! ## Turns -/

theorem set_ids {calls : List (ToolUse × Option ToolOutcome)} {i : ℕ} {u : ToolUse}
    {o o' : Option ToolOutcome} (hi : calls[i]? = some (u, o)) :
    (calls.set i (u, o')).map (fun c => c.1.id) = calls.map fun c => c.1.id := by
  rw [List.map_set]
  apply List.ext_getElem?
  intro j
  rw [List.getElem?_set]
  split_ifs with hj hlt
  · subst hj
    simp [hi]
  · subst hj
    simp only [List.length_map, not_lt] at hlt
    simp [List.getElem?_eq_none hlt] at hi
  · rfl

/-- What is still open after one call has settled was open before, under
another id. -/
theorem open_of_set {calls : List (ToolUse × Option ToolOutcome)} {i : ℕ} {u v : ToolUse}
    {o : ToolOutcome} (hi : calls[i]? = some (u, none))
    (hnodup : (calls.map fun c => c.1.id).Nodup)
    (hv : (v, none) ∈ calls.set i (u, some o)) : (v, none) ∈ calls ∧ v.id ≠ u.id := by
  obtain ⟨j, hj⟩ := List.mem_iff_getElem?.mp hv
  rw [List.getElem?_set] at hj
  split_ifs at hj with hij
  · simp at hj
  · refine ⟨List.mem_of_getElem? hj, fun heq => hij ?_⟩
    have hlt : i < (calls.map fun c => c.1.id).length := by
      simpa using (List.getElem?_eq_some_iff.mp hi).1
    exact (List.getElem?_inj hlt hnodup).mp (by simp [hi, hj, heq])

theorem settled_of_mem {calls : List (ToolUse × Option ToolOutcome)} {i : ℕ} {u v : ToolUse}
    {o o' : ToolOutcome} (hi : calls[i]? = some (u, none)) (hv : (v, some o') ∈ calls) :
    (v, some o') ∈ calls.set i (u, some o) := by
  obtain ⟨j, hj⟩ := List.mem_iff_getElem?.mp hv
  refine List.mem_iff_getElem?.mpr ⟨j, ?_⟩
  rw [List.getElem?_set_ne]
  · exact hj
  · rintro rfl
    simp [hi] at hj

theorem outcomes_eq {calls : List (ToolUse × Option ToolOutcome)}
    {settled : List (ToolUse × ToolOutcome)} (h : outcomes calls = some settled) :
    calls = settled.map fun c => (c.1, some c.2) := by
  induction calls generalizing settled with
  | nil =>
    simp only [outcomes, Option.some.injEq] at h
    simp [← h]
  | cons c calls ih =>
    obtain ⟨u, o⟩ := c
    cases o with
    | none => simp [outcomes] at h
    | some o =>
      cases hrest : outcomes calls with
      | none => simp [outcomes, hrest] at h
      | some rest =>
        simp only [outcomes, hrest, Option.pure_def, Option.bind_eq_bind, Option.bind_some,
          Option.some.injEq] at h
        rw [← h, List.map_cons, ← ih hrest]

/-- A turn without requests for approval filed none. -/
theorem TurnOk.approvals_nil {s : Shared} {f : Frame}
    {calls : List (ToolUse × Option ToolOutcome)} (h : TurnOk s f calls)
    {settled : List (ToolUse × ToolOutcome)} (ho : outcomes calls = some settled)
    (hp : turnPending settled = []) : f.st.approvals = [] := by
  by_contra hne
  obtain ⟨⟨a, e⟩, he⟩ := List.exists_mem_of_ne_nil _ hne
  obtain ⟨u, hu⟩ := h.filed a e he
  rw [outcomes_eq ho, List.mem_map] at hu
  obtain ⟨c, hc, heq⟩ := hu
  obtain ⟨rfl, hc2⟩ := Prod.mk.inj heq
  have hmem : (⟨c.1.id, c.1.name, c.1.input, a, none⟩ : PendingCall) ∈ turnPending settled := by
    refine List.mem_filterMap.mpr ⟨c, hc, ?_⟩
    rw [Option.some.inj hc2]
  rw [hp] at hmem
  exact List.not_mem_nil hmem

theorem TurnOk.answered {s : Shared} {f : Frame} {calls : List (ToolUse × Option ToolOutcome)}
    (h : TurnOk s f calls) {i : ℕ} {u : ToolUse} (hi : calls[i]? = some (u, none))
    (r : ToolResult) : TurnOk s f (calls.set i (u, some (.result r))) where
  nodup := by rw [set_ids hi]; exact h.nodup
  seen c hc := by
    rcases List.mem_or_eq_of_mem_set hc with hc | rfl
    · exact h.seen c hc
    · exact h.seen (u, none) (List.mem_of_getElem? hi)
  unmade v hv := h.unmade v (open_of_set hi h.nodup hv).1
  unfiled v hv := h.unfiled v (open_of_set hi h.nodup hv).1
  filed a e he := by
    obtain ⟨v, hv⟩ := h.filed a e he
    exact ⟨v, settled_of_mem hi hv⟩

/-- A call that was made is settled, and no other open call has its key. -/
theorem TurnOk.ran {s : Shared} {f : Frame} {calls : List (ToolUse × Option ToolOutcome)}
    (h : TurnOk s f calls) {i : ℕ} {u : ToolUse} (hi : calls[i]? = some (u, none))
    (r : ToolResult) :
    TurnOk { s with log := s.log ++ [⟨none, f.node.id, some u.id⟩] } f
      (calls.set i (u, some (.result r))) where
  nodup := (h.answered hi r).nodup
  seen := (h.answered hi r).seen
  unmade v hv := by
    obtain ⟨hmem, hne⟩ := open_of_set hi h.nodup hv
    simp only [Shared.keys, List.map_append, List.mem_append, List.map_cons, List.map_nil,
      List.mem_singleton, Call.key, Prod.mk.injEq, Option.some.injEq, true_and]
    rintro (hin | hin)
    · exact h.unmade v hmem hin
    · exact hne hin
  unfiled := (h.answered hi r).unfiled
  filed := (h.answered hi r).filed

theorem TurnOk.asked {s : Shared} {f : Frame} {calls : List (ToolUse × Option ToolOutcome)}
    (h : TurnOk s f calls) (hf : Fresh s f.st) {i : ℕ} {u : ToolUse}
    (hi : calls[i]? = some (u, none)) (q : Request) :
    TurnOk { s with rows := s.rows ++ [.pending] }
      { f with st := addApproval f.st s.rows.length f.node.id (some u.id) q }
      (calls.set i (u, some (.approval s.rows.length))) := by
  have hmem : ∀ a e, (a, e) ∈ (addApproval f.st s.rows.length f.node.id (some u.id) q).approvals →
      (a, e) ∈ f.st.approvals ∨ a = s.rows.length ∧ entryKey e = (f.node.id, some u.id) := by
    intro a e he
    have hid : s.rows.length ∉ f.st.approvals.map Prod.fst := by
      intro hmem
      obtain ⟨g, hg, heq⟩ := List.mem_map.mp hmem
      have := (hf.ids g.1 g.2 hg).1
      omega
    rw [addApproval, Record.set_of_notMem hid, List.mem_append, List.mem_singleton,
      Prod.mk.injEq] at he
    rcases he with he | ⟨rfl, rfl⟩
    · exact .inl he
    · exact .inr ⟨rfl, rfl⟩
  refine ⟨by rw [set_ids hi]; exact h.nodup, fun c hc => ?_, fun v hv => ?_, fun v hv a e he => ?_,
    fun a e he => ?_⟩
  · rcases List.mem_or_eq_of_mem_set hc with hc | rfl
    · exact h.seen c hc
    · exact h.seen (u, none) (List.mem_of_getElem? hi)
  · exact h.unmade v (open_of_set hi h.nodup hv).1
  · obtain ⟨hmem', hne⟩ := open_of_set hi h.nodup hv
    rcases hmem a e he with he | ⟨-, hkey⟩
    · exact h.unfiled v hmem' a e he
    · rw [hkey]
      simpa [eq_comm] using hne
  · rcases hmem a e he with he | ⟨rfl, -⟩
    · obtain ⟨v, hv⟩ := h.filed a e he
      exact ⟨v, settled_of_mem hi hv⟩
    · refine ⟨u, List.mem_iff_getElem?.mpr ⟨i, ?_⟩⟩
      have hlt := (List.getElem?_eq_some_iff.mp hi).1
      simp [hlt]

/-! ## Steps of others -/

/-- What a step leaves alone outside of executions and engaged decisions. -/
structure Unchanged (s s' : Shared) : Prop where
  log : s'.log = s.log
  seen : s'.seen = s.seen
  rows : s'.rows.length = s.rows.length
  inFlight : s'.inFlight = s.inFlight
  stored : s'.stored = s.stored ∨ s.status = .waitingApproval

theorem Unchanged.fresh {s s' : Shared} (h : Unchanged s s') {st : RunState} (hf : Fresh s st) :
    Fresh s' st :=
  hf.congr h.log (h.seen ▸ List.Subset.refl _) h.rows.ge rfl rfl

theorem Unchanged.turnOk {s s' : Shared} (h : Unchanged s s') {f : Frame}
    {calls : List (ToolUse × Option ToolOutcome)} (ht : TurnOk s f calls) : TurnOk s' f calls where
  nodup := ht.nodup
  seen c hc := h.seen ▸ ht.seen c hc
  unmade u hu := by simpa [Shared.keys, h.log] using ht.unmade u hu
  unfiled := ht.unfiled
  filed := ht.filed

/-- A caller that another one leaves alone keeps what it knows. -/
theorem Unchanged.safe {s s' : Shared} (h : Unchanged s s') {d : Pc} (hd : Safe s d)
    (hw : d.live → s.status ≠ .waitingApproval) : Safe s' d := by
  cases d with
  | claimed =>
    obtain ⟨st, hst, hf, happ⟩ := hd
    exact ⟨st, (h.stored.resolve_right (hw rfl)).trans hst, h.fresh hf, happ⟩
  | walking f g => exact ⟨h.fresh hd.1, hd.2⟩
  | modelling f loop g => exact ⟨h.fresh hd.1, hd.2⟩
  | turn f loop calls => exact ⟨h.fresh hd.1, hd.2.1, h.turnOk hd.2.2⟩
  | saving f res => exact ⟨h.fresh hd.1, hd.2⟩
  | parking st => exact h.fresh hd
  | approving a st e g => exact ⟨h.inFlight.trans hd.1, h.fresh hd.2.1, hd.2.2⟩
  | ran a st e out => exact ⟨h.inFlight.trans hd.1, fun st' hst' => h.fresh (hd.2 st' hst')⟩
  | held _ _ | failing _ | releasing _ => exact h.inFlight.trans hd
  | expiring locked =>
    cases locked
    · trivial
    · exact h.inFlight.trans hd
  | idle | finishing _ | late _ | denying _ | locking _ _ | recording _ _ | scanned | overdue =>
    trivial

end Prgd.RunFreshness
