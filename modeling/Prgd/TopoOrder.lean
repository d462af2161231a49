import Prgd.Toposort
import Prgd.Workflow

/-!
# The order of a workflow

`topoOrder` of `graph.ts` is Kahn's algorithm: the in-degrees in the map are the edges that
still wait for their source, so each round finishes one node and queues what became free. The
result is `null` exactly for the graphs with a cycle, and otherwise every edge points forward
in it.
-/
namespace Prgd.Workflow
open Toposort

/-- The edges as pairs of ids. -/
def links (edges : List GraphEdge) : List (Text × Text) :=
  edges.map fun e => (e.source, e.target)

def Graph.ids (graph : Graph) : List Text := graph.nodes.map GraphNode.id

/-- The node ids are distinct, and the edges connect existing nodes. -/
structure Graph.Wired (graph : Graph) : Prop where
  nodup : graph.ids.Nodup
  ends : ∀ e ∈ graph.edges, e.source ∈ graph.ids ∧ e.target ∈ graph.ids

variable {edges : List GraphEdge} {graph : Graph} {done queue : List Text} {indeg : Degrees}
  {v : Text}

theorem Graph.Wired.leads (h : graph.Wired) {u v : Text} (huv : Leads (links graph.edges) u v) :
    u ∈ graph.ids ∧ v ∈ graph.ids := by
  obtain ⟨e, he, heq⟩ := List.mem_map.mp huv
  cases heq
  exact h.ends e he

/-! ## The counters -/

/-- The number of edges into a node. -/
def incoming (edges : List GraphEdge) (v : Text) : ℕ := edges.countP fun e => e.target = v

theorem incoming_snoc (edges : List GraphEdge) (e : GraphEdge) (v : Text) :
    incoming (edges ++ [e]) v = incoming edges v + if e.target = v then 1 else 0 := by
  rw [incoming, List.countP_append, List.countP_singleton]
  simp [incoming]

theorem Degrees.get_set (d : Degrees) (id : Text) (n : ℤ) (v : Text) :
    Degrees.get (Record.set d id n) v = if v = id then n else d.get v := by
  rw [Degrees.get, Record.lookup_set]
  split <;> rfl

theorem get_zero (nodes : List GraphNode) (v : Text) :
    Degrees.get (nodes.foldl (fun d n => Record.set d n.id 0) []) v = 0 := by
  induction nodes using List.reverseRecOn with
  | nil => rfl
  | append_singleton nodes n ih =>
    rw [List.foldl_append, List.foldl_cons, List.foldl_nil, Degrees.get_set, ih, ite_self]

/-- Every edge is counted at its target. -/
theorem get_counted (edges : List GraphEdge) (d : Degrees) (v : Text) :
    Degrees.get (edges.foldl (fun d e => Record.set d e.target (Degrees.get d e.target + 1)) d) v =
      d.get v + incoming edges v := by
  induction edges using List.reverseRecOn with
  | nil => simp [incoming]
  | append_singleton edges e ih =>
    rw [List.foldl_append, List.foldl_cons, List.foldl_nil, Degrees.get_set, incoming_snoc]
    by_cases hv : v = e.target
    · subst hv
      rw [if_pos rfl, if_pos rfl, ih]
      push_cast
      ring
    · rw [if_neg hv, if_neg (Ne.symm hv), ih, Nat.add_zero]

theorem release_snoc (edges : List GraphEdge) (e : GraphEdge) (d : Degrees) :
    release (edges ++ [e]) d =
      (Record.set (release edges d).1 e.target (Degrees.get (release edges d).1 e.target - 1),
        if Degrees.get (release edges d).1 e.target - 1 = 0 then (release edges d).2 ++ [e.target]
        else (release edges d).2) := by
  rw [release, List.foldl_append]
  rfl

theorem get_release (edges : List GraphEdge) (d : Degrees) (v : Text) :
    (release edges d).1.get v = d.get v - incoming edges v := by
  induction edges using List.reverseRecOn with
  | nil => simp [release, incoming]
  | append_singleton edges e ih =>
    rw [release_snoc, Degrees.get_set, incoming_snoc]
    by_cases hv : v = e.target
    · subst hv
      rw [if_pos rfl, if_pos rfl, ih]
      push_cast
      ring
    · rw [if_neg hv, if_neg (Ne.symm hv), ih, Nat.add_zero]

/-- A node becomes free with the last of its edges, and only once. -/
theorem release_free {d : Degrees} (hd : ∀ v, (incoming edges v : ℤ) ≤ d.get v) :
    (release edges d).2.Nodup ∧
      ∀ v, v ∈ (release edges d).2 ↔ 0 < incoming edges v ∧ d.get v = incoming edges v := by
  induction edges using List.reverseRecOn with
  | nil => simp [release, incoming]
  | append_singleton edges e ih =>
    have hle : ∀ v, (incoming edges v : ℤ) ≤ d.get v := by
      intro v
      have := hd v
      rw [incoming_snoc] at this
      push_cast at this
      split at this <;> omega
    obtain ⟨hnodup, hmem⟩ := ih hle
    have htarget := hd e.target
    rw [incoming_snoc, if_pos rfl] at htarget
    push_cast at htarget
    have hnot : e.target ∉ (release edges d).2 := by
      rw [hmem]
      omega
    rw [release_snoc, get_release]
    split
    next hzero =>
      refine ⟨?_, fun v => ?_⟩
      · rw [List.nodup_append]
        refine ⟨hnodup, List.nodup_singleton _, fun a ha b hb hab => ?_⟩
        rw [List.mem_singleton] at hb
        exact hnot (hb ▸ hab ▸ ha)
      · rw [List.mem_append, List.mem_singleton, hmem, incoming_snoc]
        by_cases hv : v = e.target
        · subst hv
          simp only [if_pos, or_true, true_iff]
          push_cast
          omega
        · rw [if_neg (Ne.symm hv), Nat.add_zero]
          simp [hv]
    next hpos =>
      refine ⟨hnodup, fun v => ?_⟩
      rw [hmem, incoming_snoc]
      by_cases hv : v = e.target
      · subst hv
        rw [if_pos rfl]
        push_cast
        omega
      · rw [if_neg (Ne.symm hv), Nat.add_zero]

/-! ## The loop -/

theorem incoming_eq (edges : List GraphEdge) (id v : Text) :
    incoming (edges.filter fun e => e.source == id) v =
      ((links edges).filter fun l => l.1 = id).countP fun l => l.2 = v := by
  have hsource : (fun e : GraphEdge => e.source == id) = fun e => decide (e.source = id) :=
    funext fun e => beq_eq_decide e.source id
  rw [links, List.filter_map, List.countP_map, incoming, hsource]
  rfl

/-- The map holds the edges that wait for their source. -/
def Counts (edges : List GraphEdge) (done : List Text) (indeg : Degrees) : Prop :=
  ∀ v, indeg.get v = pending (links edges) done v

theorem Counts.release (h : Counts edges done indeg) {id : Text} (hid : id ∉ done) :
    Counts edges (done ++ [id]) (release (edges.filter fun e => e.source == id) indeg).1 := by
  intro v
  have hsplit := @pending_snoc _ (links edges) _ _ _ hid v
  rw [get_release, h v, incoming_eq]
  omega

theorem Kahn.release (hwired : graph.Wired) {id : Text}
    (h : Kahn (links graph.edges) graph.ids done (id :: queue))
    (hcounts : Counts graph.edges done indeg) :
    Kahn (links graph.edges) graph.ids (done ++ [id])
      (queue ++ (release (graph.edges.filter fun e => e.source == id) indeg).2) := by
  have hid : id ∉ done := h.notMem
  have hsplit := fun v => @pending_snoc _ (links graph.edges) _ _ _ hid v
  have hle : ∀ v, (incoming (graph.edges.filter fun e => e.source == id) v : ℤ) ≤ indeg.get v := by
    intro v
    have := hsplit v
    rw [hcounts v, incoming_eq]
    omega
  obtain ⟨hnodup, hfree⟩ := release_free hle
  refine h.next hnodup fun w => ?_
  have := hsplit w
  rw [hfree, hcounts w, incoming_eq]
  constructor
  · rintro ⟨hpos, heq⟩
    have hnode : w ∈ graph.ids := by
      obtain ⟨⟨u, w'⟩, he, heq⟩ := List.countP_pos_iff.mp hpos
      rw [decide_eq_true_eq] at heq
      subst heq
      exact (hwired.leads (List.mem_filter.mp he).1).2
    exact ⟨hnode, by omega, by omega⟩
  · rintro ⟨-, hbefore, hafter⟩
    exact ⟨by omega, by omega⟩

/-- With a round for every node left, the loop empties its queue. -/
theorem topoLoop_kahn (hwired : graph.Wired) {rounds : ℕ}
    (h : Kahn (links graph.edges) graph.ids done queue) (hcounts : Counts graph.edges done indeg)
    (hrounds : graph.ids.length ≤ done.length + rounds) :
    Kahn (links graph.edges) graph.ids
      (done ++ topoLoop graph.edges rounds queue indeg) [] := by
  induction rounds generalizing done queue indeg with
  | zero =>
    have hlength := h.length_le
    obtain rfl : queue = [] := List.eq_nil_of_length_eq_zero (by omega)
    rw [topoLoop, List.append_nil]
    · exact h
    · nofun
  | succ rounds ih =>
    cases queue with
    | nil =>
      rw [topoLoop, List.append_nil]
      · exact h
      · nofun
    | cons id queue =>
      rw [topoLoop, List.append_cons]
      refine ih (Kahn.release hwired h hcounts) (hcounts.release h.notMem) ?_
      rw [List.length_append, List.length_singleton]
      omega

/-- The queue starts with the nodes that no edge leads to. -/
theorem kahn_start (hwired : graph.Wired) (hcounts : Counts graph.edges [] indeg) :
    Kahn (links graph.edges) graph.ids []
      ((graph.nodes.filter fun n => indeg.get n.id == 0).map GraphNode.id) := by
  have hfilter : (graph.nodes.filter fun n => indeg.get n.id == 0).map GraphNode.id =
      graph.ids.filter fun id => indeg.get id == 0 := by
    rw [Graph.ids, List.filter_map]
    rfl
  rw [hfilter]
  refine ⟨hwired.nodup.filter _, fun v hv => (List.mem_filter.mp hv).1, fun v hv => ?_, sorted_nil⟩
  rw [List.nil_append, List.mem_filter, hcounts v]
  simp [hv]

theorem topoOrder_kahn (hwired : graph.Wired) :
    ∃ out, Kahn (links graph.edges) graph.ids out [] ∧
      topoOrder graph = if out.length = graph.nodes.length then some out else none := by
  refine ⟨_, ?_, rfl⟩
  have hcounts : Counts graph.edges [] (graph.edges.foldl
      (fun d e => Record.set d e.target (Degrees.get d e.target + 1))
      (graph.nodes.foldl (fun d n => Record.set d n.id 0) [])) := by
    intro v
    rw [get_counted, get_zero, zero_add, pending, links, List.countP_map, incoming]
    congr 2
    funext e
    simp
  have hrounds : graph.ids.length ≤ ([] : List Text).length +
      (graph.nodes.length + graph.edges.length) := by
    simp [Graph.ids]
  have h := topoLoop_kahn hwired (kahn_start hwired hcounts) hcounts hrounds
  rwa [List.nil_append] at h

theorem topoOrder_sorted (hwired : graph.Wired) {order : List Text}
    (horder : topoOrder graph = some order) :
    Sorted (links graph.edges) order ∧ order.Perm graph.ids := by
  obtain ⟨out, hkahn, hout⟩ := topoOrder_kahn hwired
  rw [hout] at horder
  split at horder
  next hall =>
    cases horder
    exact ⟨hkahn.sorted, hkahn.perm (hall.trans (List.length_map _).symm)⟩
  next => cases horder

/-- `null` exactly for a cycle, and otherwise a topological order of the nodes. -/
theorem topoOrder_sorts (graph : Graph) (hwired : graph.Wired) :
    (topoOrder graph = none ↔ Cyclic (links graph.edges)) ∧
    ∀ order, topoOrder graph = some order → order.Perm graph.ids ∧
      ∀ e ∈ graph.edges, order.idxOf e.source < order.idxOf e.target := by
  constructor
  · obtain ⟨out, hkahn, hout⟩ := topoOrder_kahn hwired
    have hlength : graph.nodes.length = graph.ids.length := (List.length_map _).symm
    rw [hout, hlength, hkahn.cyclic_iff fun u v => hwired.leads,
      ← hkahn.length_eq_iff hwired.nodup]
    split <;> simp_all
  · intro order horder
    obtain ⟨hsorted, hperm⟩ := topoOrder_sorted hwired horder
    refine ⟨hperm, fun e he => ?_⟩
    exact hsorted.idxOf_lt (hperm.mem_iff.mpr (hwired.ends e he).2) (List.mem_map_of_mem he)

theorem topoOrder_sorts_implicit :
    (topoOrder implicitGraph = none ↔ Cyclic (links implicitGraph.edges)) ∧
    ∀ order, topoOrder implicitGraph = some order → order.Perm implicitGraph.ids ∧
      ∀ e ∈ implicitGraph.edges, order.idxOf e.source < order.idxOf e.target :=
  topoOrder_sorts implicitGraph ⟨by decide, by decide⟩

/-! ## Accepted graphs -/

theorem issue_ne_nil {α : Type} (r : Reading α) (path message : Text) :
    (r.issue path message).issues ≠ [] := by
  simp [Reading.issue]

/-- Without issues, every id that was met belongs to a node. -/
theorem readNode_ids (toolIds : Option (List Text)) {r : Reading GraphNode} (raw : JsValue × ℕ)
    (hr : r.issues = [] → r.ids = r.items.map GraphNode.id) :
    (readNode toolIds r raw).issues = [] →
      (readNode toolIds r raw).ids = (readNode toolIds r raw).items.map GraphNode.id := by
  unfold readNode
  cases raw.1 with
  | obj fields =>
    dsimp only
    cases dataField fields "id" with
    | str id =>
      dsimp only
      split_ifs
      · exact fun h => absurd h (issue_ne_nil _ _ _)
      · exact fun h => absurd h (issue_ne_nil _ _ _)
      · cases nodeType (dataField fields "type") with
        | none => exact fun h => absurd h (issue_ne_nil _ _ _)
        | some type =>
          cases dataField fields "data" with
          | undefined | obj _ =>
            intro h
            rw [List.map_append, ← hr (List.append_eq_nil_iff.mp h).1]
            rfl
          | null | bool _ | num _ | str _ | arr _ => exact fun h => absurd h (issue_ne_nil _ _ _)
    | undefined | null | bool _ | num _ | arr _ | obj _ =>
      exact fun h => absurd h (issue_ne_nil _ _ _)
  | undefined | null | bool _ | num _ | arr _ | str _ =>
    exact fun h => absurd h (issue_ne_nil _ _ _)

theorem foldl_readNode_ids (toolIds : Option (List Text)) (raws : List (JsValue × ℕ))
    {r : Reading GraphNode} (hr : r.issues = [] → r.ids = r.items.map GraphNode.id)
    (h : (raws.foldl (readNode toolIds) r).issues = []) :
    (raws.foldl (readNode toolIds) r).ids =
      (raws.foldl (readNode toolIds) r).items.map GraphNode.id := by
  induction raws generalizing r with
  | nil => exact hr h
  | cons raw raws ih => exact ih (readNode_ids toolIds raw hr) h

theorem knownId_mem {ids : List Text} {v : JsValue} {id : Text} (h : knownId ids v = some id) :
    id ∈ ids := by
  cases v with
  | str s =>
    rw [knownId] at h
    split at h
    · cases h
      assumption
    · cases h
  | undefined | null | bool _ | num _ | arr _ | obj _ => cases h

/-- The ends of an edge are ids that were met. -/
theorem readEdge_ends {ids : List Text} {r : Reading GraphEdge}
    (h : ∀ e ∈ r.items, e.source ∈ ids ∧ e.target ∈ ids) (raw : JsValue × ℕ) :
    ∀ e ∈ (readEdge ids r raw).items, e.source ∈ ids ∧ e.target ∈ ids := by
  unfold readEdge
  cases raw.1 with
  | obj fields =>
    dsimp only
    split_ifs
    · exact h
    · cases hsource : knownId ids (dataField fields "source") with
      | none => exact h
      | some source =>
        cases htarget : knownId ids (dataField fields "target") with
        | none => exact h
        | some target =>
          dsimp only
          split_ifs
          · exact h
          · intro e he
            rcases List.mem_append.mp he with hold | hnew
            · exact h e hold
            · rw [List.mem_singleton] at hnew
              subst hnew
              exact ⟨knownId_mem hsource, knownId_mem htarget⟩
  | undefined | null | bool _ | num _ | arr _ | str _ => exact h

theorem foldl_readEdge_ends {ids : List Text} (raws : List (JsValue × ℕ)) {r : Reading GraphEdge}
    (h : ∀ e ∈ r.items, e.source ∈ ids ∧ e.target ∈ ids) :
    ∀ e ∈ (raws.foldl (readEdge ids) r).items, e.source ∈ ids ∧ e.target ∈ ids := by
  induction raws generalizing r with
  | nil => exact h
  | cons raw raws ih => exact ih (readEdge_ends h raw)

/-- The edges of an accepted graph connect its nodes. -/
theorem wired_of_accepted {input : JsValue} {toolIds : Option (List Text)}
    (h : validateGraph input toolIds = (graph, [])) : graph.Wired := by
  refine ⟨nodup_of_validated h, ?_⟩
  cases input with
  | obj fields =>
    simp only [validateGraph] at h
    split at h
    · obtain ⟨rfl, hissues⟩ := Prod.mk.inj h
      obtain ⟨⟨⟨-, hnodes⟩, -⟩, -⟩ := by simpa only [List.append_eq_nil_iff] using hissues
      rw [Graph.ids, ← foldl_readNode_ids toolIds _ (fun _ => rfl) hnodes]
      exact foldl_readEdge_ends _ (by simp)
    · obtain ⟨rfl, -⟩ := Prod.mk.inj h
      simp
  | undefined | null | bool _ | num _ | str _ | arr _ => simp [validateGraph] at h

end Prgd.Workflow
