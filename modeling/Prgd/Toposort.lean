import Mathlib

/-!
# Topological orders

Edges are pairs, and an edge may be there more than once. A list of nodes is sorted when the
source of every edge into a node stands in front of it. Kahn's algorithm keeps the nodes that
are finished and a queue: the nodes without an edge from one that is not finished are those
that are finished or queued. When the queue is empty, either every node is finished or the
edges have a cycle.
-/
namespace Prgd.Toposort

variable {α : Type*} {edges : List (α × α)} {nodes done queue l : List α} {u v : α}

def Leads (edges : List (α × α)) (u v : α) : Prop := (u, v) ∈ edges

/-- The source of every edge into a node of the list is in front of the node. -/
def Sorted (edges : List (α × α)) (l : List α) : Prop :=
  ∀ before v after, l = before ++ v :: after → ∀ u, Leads edges u v → u ∈ before

def Cyclic (edges : List (α × α)) : Prop := ∃ v, Relation.TransGen (Leads edges) v v

theorem sorted_nil : Sorted edges [] := by
  intro before v after h
  exact absurd h (by simp)

theorem Sorted.snoc (h : Sorted edges l) (hv : ∀ u, Leads edges u v → u ∈ l) :
    Sorted edges (l ++ [v]) := by
  intro before w after heq u hu
  rcases List.eq_nil_or_concat after with rfl | ⟨rest, x, rfl⟩
  · obtain ⟨rfl, hw⟩ := List.append_inj' heq rfl
    cases hw
    exact hv u hu
  · rw [List.concat_eq_append, ← List.cons_append, ← List.append_assoc] at heq
    obtain ⟨hl, -⟩ := List.append_inj' heq rfl
    exact h before w rest hl u hu

section
variable [BEq α] [LawfulBEq α]

theorem Sorted.idxOf_lt (h : Sorted edges l) (hv : v ∈ l) (huv : Leads edges u v) :
    l.idxOf u < l.idxOf v := by
  obtain ⟨before, after, rfl, hnot⟩ := List.eq_append_cons_of_mem hv
  have hu := h before v after rfl u huv
  rw [List.idxOf_append_of_mem hu, List.idxOf_append_of_notMem hnot, List.idxOf_cons_self]
  exact Nat.lt_of_lt_of_le (List.idxOf_lt_length_of_mem hu) (Nat.le_add_right _ _)

theorem Sorted.idxOf_lt_of_path (h : Sorted edges l) (hall : ∀ u v, Leads edges u v → v ∈ l)
    (huv : Relation.TransGen (Leads edges) u v) : l.idxOf u < l.idxOf v := by
  induction huv with
  | single hstep => exact h.idxOf_lt (hall _ _ hstep) hstep
  | tail _ hstep ih => exact ih.trans (h.idxOf_lt (hall _ _ hstep) hstep)

end

/-- Sorted nodes have no cycle. -/
theorem Sorted.acyclic (h : Sorted edges l) (hall : ∀ u v, Leads edges u v → v ∈ l) :
    ¬ Cyclic edges := by
  classical
  rintro ⟨v, hv⟩
  exact absurd (h.idxOf_lt_of_path hall hv) (lt_irrefl _)

/-- Where every node of a finite set has an edge from one of the set, there is a cycle. -/
theorem cyclic_of_sources (s : Finset α) (hv : v ∈ s)
    (hsource : ∀ w ∈ s, ∃ u ∈ s, Leads edges u w) : Cyclic edges := by
  by_contra hno
  let r : s → s → Prop := fun a b => Relation.TransGen (Leads edges) a b
  have : IsTrans s r := ⟨fun _ _ _ hab hbc => hab.trans hbc⟩
  have : Std.Irrefl r := ⟨fun a ha => hno ⟨a, ha⟩⟩
  have hwf : WellFounded r := Finite.wellFounded_of_trans_of_irrefl r
  obtain ⟨m, -, hmin⟩ := hwf.has_min Set.univ ⟨⟨v, hv⟩, trivial⟩
  obtain ⟨u, hu, hum⟩ := hsource m m.2
  exact hmin ⟨u, hu⟩ trivial (.single hum)

/-! ## Kahn's algorithm -/

section
variable [DecidableEq α]

/-- The edges into a node from one that is not finished. -/
def pending (edges : List (α × α)) (done : List α) (v : α) : ℕ :=
  edges.countP fun e => e.2 = v ∧ e.1 ∉ done

theorem pending_eq_zero : pending edges done v = 0 ↔ ∀ u, Leads edges u v → u ∈ done := by
  rw [pending, List.countP_eq_zero]
  constructor
  · intro h u hu
    simpa using h (u, v) hu
  · rintro h ⟨u, w⟩ he
    simp only [decide_eq_true_eq, not_and, not_not]
    rintro rfl
    exact h u he

/-- Finishing a node takes its edges away. -/
theorem pending_snoc (hu : u ∉ done) (v : α) :
    pending edges (done ++ [u]) v + (edges.filter fun e => e.1 = u).countP (fun e => e.2 = v) =
      pending edges done v := by
  rw [pending, pending]
  induction edges with
  | nil => rfl
  | cons e edges ih =>
    rw [List.countP_cons, List.countP_cons]
    by_cases hsource : e.1 = u
    · have hnot : e.1 ∉ done := hsource ▸ hu
      have hmem : e.1 ∈ done ++ [u] := by simp [hsource]
      rw [List.filter_cons_of_pos (by simpa using hsource), List.countP_cons]
      simp only [hnot, hmem, not_true, not_false_eq_true, and_false, and_true,
        decide_false, Bool.false_eq_true, if_false]
      omega
    · have hmem : e.1 ∈ done ++ [u] ↔ e.1 ∈ done := by simp [hsource]
      rw [List.filter_cons_of_neg (by simpa using hsource)]
      simp only [hmem]
      omega

/-- The finished nodes are sorted; a node without an edge from one that is not finished is
finished or queued, once. -/
structure Kahn (edges : List (α × α)) (nodes done queue : List α) : Prop where
  nodup : (done ++ queue).Nodup
  known : ∀ v ∈ done ++ queue, v ∈ nodes
  free : ∀ v ∈ nodes, v ∈ done ++ queue ↔ pending edges done v = 0
  sorted : Sorted edges done

theorem Kahn.notMem (h : Kahn edges nodes done (v :: queue)) : v ∉ done := by
  have hnodup := h.nodup
  rw [List.nodup_append] at hnodup
  exact fun hv => hnodup.2.2 v hv v List.mem_cons_self rfl

/-- The first node of the queue is finished, and what it makes free is queued. -/
theorem Kahn.next {free : List α} (h : Kahn edges nodes done (v :: queue)) (hnodup : free.Nodup)
    (hfree : ∀ w, w ∈ free ↔ w ∈ nodes ∧ pending edges done w ≠ 0 ∧
      pending edges (done ++ [v]) w = 0) : Kahn edges nodes (done ++ [v]) (queue ++ free) := by
  have hlist : done ++ [v] ++ (queue ++ free) = (done ++ v :: queue) ++ free := by simp
  have hv := h.notMem
  refine ⟨?_, ?_, ?_, ?_⟩
  · rw [hlist]
    refine h.nodup.append hnodup fun w hw hwfree => ?_
    obtain ⟨hnode, hpending, -⟩ := (hfree w).mp hwfree
    exact hpending ((h.free w hnode).mp hw)
  · intro w hw
    rw [hlist] at hw
    rcases List.mem_append.mp hw with hold | hnew
    · exact h.known w hold
    · exact ((hfree w).mp hnew).1
  · intro w hw
    rw [hlist, List.mem_append, h.free w hw, hfree w]
    have hle := @pending_snoc _ edges _ _ _ hv w
    constructor
    · rintro (hzero | ⟨-, -, hzero⟩)
      · omega
      · exact hzero
    · intro hzero
      by_cases hbefore : pending edges done w = 0
      · exact .inl hbefore
      · exact .inr ⟨hw, hbefore, hzero⟩
  · refine h.sorted.snoc ?_
    have hqueued : v ∈ done ++ v :: queue := by simp
    exact pending_eq_zero.mp ((h.free v (h.known v hqueued)).mp hqueued)

theorem Kahn.length_le (h : Kahn edges nodes done queue) :
    done.length + queue.length ≤ nodes.length := by
  have hle := (List.subperm_of_subset h.nodup h.known).length_le
  rwa [List.length_append] at hle

/-- At the end every node is finished, or there is a cycle. -/
theorem Kahn.cyclic_iff (h : Kahn edges nodes done []) (hends : ∀ u v, Leads edges u v →
    u ∈ nodes ∧ v ∈ nodes) : Cyclic edges ↔ ¬ ∀ v ∈ nodes, v ∈ done := by
  have hfree : ∀ v ∈ nodes, v ∈ done ↔ pending edges done v = 0 := by
    simpa using h.free
  constructor
  · intro hcycle hall
    exact h.sorted.acyclic (fun u v huv => hall v (hends u v huv).2) hcycle
  · intro hsome
    obtain ⟨v, hv, hnot⟩ : ∃ v ∈ nodes, v ∉ done := by
      by_contra hno
      exact hsome fun v hv => by_contra fun hnot => hno ⟨v, hv, hnot⟩
    refine cyclic_of_sources (nodes.toFinset.filter (· ∉ done)) (v := v) (by simp [hv, hnot]) ?_
    intro w hw
    obtain ⟨hw, hnot⟩ : w ∈ nodes ∧ w ∉ done := by simpa using hw
    rw [hfree w hw, pending_eq_zero] at hnot
    push Not at hnot
    obtain ⟨u, hu, hudone⟩ := hnot
    exact ⟨u, by simp [(hends u w hu).1, hudone], hu⟩

theorem Kahn.subperm (h : Kahn edges nodes done []) : done.Subperm nodes :=
  List.subperm_of_subset (by simpa using h.nodup) fun v hv => h.known v (by simpa using hv)

theorem Kahn.perm (h : Kahn edges nodes done []) (hlength : done.length = nodes.length) :
    done.Perm nodes :=
  h.subperm.perm_of_length_le hlength.ge

/-- All nodes are finished exactly when as many are. -/
theorem Kahn.length_eq_iff (h : Kahn edges nodes done []) (hnodup : nodes.Nodup) :
    done.length = nodes.length ↔ ∀ v ∈ nodes, v ∈ done := by
  constructor
  · intro hlength v hv
    exact (h.perm hlength).mem_iff.mpr hv
  · intro hall
    exact le_antisymm h.subperm.length_le (List.subperm_of_subset hnodup hall).length_le

end

end Prgd.Toposort
