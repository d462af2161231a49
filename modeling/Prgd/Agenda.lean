import Prgd.Interleaving

/-!
# Callers with an agenda

A caller that runs a longer procedure is the list of the tasks it has still to do.
Its step takes the first task: that reads or writes the shared data once and puts
what follows from it in front of the rest, so a loop over rows that were read is a
list of tasks and a task that fails puts nothing. Outside events change the shared
data alone.
-/
namespace Prgd.Agenda
open Interleaving

variable {Sh Task Proc Answer Event : Type*}

/-- The tasks of a procedure, what a task does with the answer it gets, and what an
outside event does. -/
structure Machine (Sh Task Proc Answer Event : Type*) where
  tasks : Proc → List Task
  exec : Sh → Answer → Task → Sh × List Task
  outside : Sh → Event → Sh

inductive Act (Proc Answer Event : Type*) where
  | call (p : Proc)
  | go (answer : Answer)
  | outside (e : Event)

variable (m : Machine Sh Task Proc Answer Event) {w : World Sh (List Task)}
  {a : ℕ × Act Proc Answer Event}

/-- A call is made by a caller that has nothing to do. -/
def Machine.trans (_ : ℕ) (s : Sh) : Act Proc Answer Event → List Task → Option (Sh × List Task)
  | .call p, [] => some (s, m.tasks p)
  | .call _, _ :: _ => none
  | .go answer, task :: rest => some ((m.exec s answer task).1, (m.exec s answer task).2 ++ rest)
  | .go _, [] => none
  | .outside e, todo => some (m.outside s e, todo)

def Machine.step : World Sh (List Task) → ℕ × Act Proc Answer Event → World Sh (List Task) :=
  callerStep m.trans

/-- A caller begins. -/
def begin (w : World Sh (List Task)) (i : ℕ) (todo : List Task) : World Sh (List Task) :=
  ⟨w.shared, Function.update w.pc i todo⟩

theorem begin_pc (w : World Sh (List Task)) (i : ℕ) (todo : List Task) :
    (begin w i todo).pc = Function.update w.pc i todo := rfl

/-- A caller takes its first task. -/
def advance (w : World Sh (List Task)) (i : ℕ) (answer : Answer) (task : Task) (rest : List Task) :
    World Sh (List Task) :=
  ⟨(m.exec w.shared answer task).1,
    Function.update w.pc i ((m.exec w.shared answer task).2 ++ rest)⟩

theorem advance_pc (w : World Sh (List Task)) (i : ℕ) (answer : Answer) (task : Task)
    (rest : List Task) : (advance m w i answer task rest).pc =
      Function.update w.pc i ((m.exec w.shared answer task).2 ++ rest) := rfl

theorem step_cases (w : World Sh (List Task)) (a : ℕ × Act Proc Answer Event) :
    m.step w a = w ∨
    (∃ p, a.2 = .call p ∧ w.pc a.1 = [] ∧ m.step w a = begin w a.1 (m.tasks p)) ∨
    (∃ answer task rest, a.2 = .go answer ∧ w.pc a.1 = task :: rest ∧
      m.step w a = advance m w a.1 answer task rest) ∨
    ∃ e, a.2 = .outside e ∧ m.step w a = ⟨m.outside w.shared e, w.pc⟩ := by
  obtain ⟨i, act⟩ := a
  unfold Machine.step callerStep Machine.trans
  cases act with
  | call p =>
    cases hpc : w.pc i with
    | nil => exact .inr (.inl ⟨p, rfl, rfl, rfl⟩)
    | cons task rest => exact .inl rfl
  | go answer =>
    cases hpc : w.pc i with
    | nil => exact .inl rfl
    | cons task rest => exact .inr (.inr (.inl ⟨answer, task, rest, rfl, rfl, rfl⟩))
  | outside e =>
    refine .inr (.inr (.inr ⟨e, rfl, ?_⟩))
    simp

section
variable {m} {i q : ℕ} {answer : Answer} {task t : Task} {rest : List Task}

theorem mem_begin {todo : List Task} (h : t ∈ (begin w i todo).pc q) : t ∈ todo ∨ t ∈ w.pc q := by
  simp only [begin_pc, Function.update_apply] at h
  split_ifs at h
  · exact .inl h
  · exact .inr h

theorem mem_begin_of_mem {todo : List Task} (hpc : w.pc i = []) (h : t ∈ w.pc q) :
    t ∈ (begin w i todo).pc q := by
  have hq : q ≠ i := by
    rintro rfl
    rw [hpc] at h
    cases h
  simpa only [begin_pc, Function.update_of_ne hq] using h

/-- What is left to do after a task was there before, or follows from the task. -/
theorem mem_advance (hpc : w.pc i = task :: rest) (h : t ∈ (advance m w i answer task rest).pc q) :
    t ∈ w.pc q ∨ q = i ∧ t ∈ (m.exec w.shared answer task).2 := by
  simp only [advance_pc, Function.update_apply] at h
  split_ifs at h with hq
  · subst hq
    rcases List.mem_append.mp h with hnew | hrest
    · exact .inr ⟨rfl, hnew⟩
    · left
      rw [hpc]
      exact List.mem_cons_of_mem task hrest
  · exact .inl h

theorem mem_advance_of_exec (h : t ∈ (m.exec w.shared answer task).2) :
    t ∈ (advance m w i answer task rest).pc i := by
  simp only [advance_pc, Function.update_self]
  exact List.mem_append_left rest h

/-- What was to be done still is, but for the task that was taken. -/
theorem mem_advance_of_mem (hpc : w.pc i = task :: rest) (h : t ∈ w.pc q) :
    t ∈ (advance m w i answer task rest).pc q ∨ q = i ∧ t = task := by
  by_cases hq : q = i
  · subst hq
    rw [hpc] at h
    rcases List.mem_cons.mp h with rfl | hrest
    · exact .inr ⟨rfl, rfl⟩
    · left
      simp only [advance_pc, Function.update_self]
      exact List.mem_append_right _ hrest
  · left
    simpa only [advance_pc, Function.update_of_ne hq] using h

end

/-! ## A task that is alone of its kind -/

/-- At most one task of a kind is to be done, among all callers. -/
structure Lone (P : Task → Bool) (w : World Sh (List Task)) : Prop where
  list : ∀ q, ((w.pc q).filter P).length ≤ 1
  caller : ∀ q q', q ≠ q' → (w.pc q).filter P ≠ [] → (w.pc q').filter P = []

section
variable {m} {P : Task → Bool} {i : ℕ} {answer : Answer} {task : Task} {rest : List Task}

theorem filter_eq_nil {l : List Task} : l.filter P = [] ↔ ∀ t ∈ l, P t = false := by
  simp [List.filter_eq_nil_iff]

/-- Besides the lone task nothing of its kind is to be done. -/
theorem Lone.others (h : Lone P w) (hpc : w.pc i = task :: rest) (htask : P task = true) :
    (∀ t ∈ rest, P t = false) ∧ ∀ q, q ≠ i → ∀ t ∈ w.pc q, P t = false := by
  have hlist := h.list i
  rw [hpc, List.filter_cons_of_pos htask, List.length_cons] at hlist
  constructor
  · apply filter_eq_nil.mp
    exact List.length_eq_zero_iff.mp (by omega)
  · intro q hq
    apply filter_eq_nil.mp
    apply h.caller i q hq.symm
    simp [hpc, htask]

/-- Where nothing else of the kind is to be done, a task may leave one behind. -/
theorem lone_advance (hrest : ∀ t ∈ rest, P t = false)
    (hothers : ∀ q, q ≠ i → ∀ t ∈ w.pc q, P t = false)
    (hnew : ((m.exec w.shared answer task).2.filter P).length ≤ 1) :
    Lone P (advance m w i answer task rest) := by
  have hnone : ∀ q, q ≠ i → ((advance m w i answer task rest).pc q).filter P = [] := by
    intro q hq
    simp only [advance_pc, Function.update_of_ne hq]
    exact filter_eq_nil.mpr (hothers q hq)
  constructor
  · intro q
    by_cases hq : q = i
    · subst hq
      simp only [advance_pc, Function.update_self, List.filter_append, filter_eq_nil.mpr hrest,
        List.append_nil]
      exact hnew
    · rw [hnone q hq]
      exact Nat.zero_le 1
  · intro q q' hne hsome
    by_cases hq : q' = i
    · rw [hnone q (by omega)] at hsome
      exact (hsome rfl).elim
    · exact hnone q' hq

/-- A call that begins with no task of the kind. -/
theorem Lone.begin {todo : List Task} (h : Lone P w) (hnew : ∀ t ∈ todo, P t = false) :
    Lone P (Agenda.begin w i todo) := by
  have hle : ∀ q, ((Agenda.begin w i todo).pc q).filter P = [] ∨
      (Agenda.begin w i todo).pc q = w.pc q := by
    intro q
    by_cases hq : q = i
    · subst hq
      left
      simp only [begin_pc, Function.update_self]
      exact filter_eq_nil.mpr hnew
    · right
      simp only [begin_pc, Function.update_of_ne hq]
  constructor
  · intro q
    rcases hle q with hnil | heq
    · rw [hnil]
      exact Nat.zero_le 1
    · rw [heq]
      exact h.list q
  · intro q q' hne hsome
    rcases hle q with hnil | heq
    · exact (hsome hnil).elim
    · rcases hle q' with hnil | heq'
      · exact hnil
      · rw [heq] at hsome
        rw [heq']
        exact h.caller q q' hne hsome

/-- A task that leaves none of the kind behind. -/
theorem Lone.kept (h : Lone P w) (hpc : w.pc i = task :: rest)
    (hnew : ∀ t ∈ (m.exec w.shared answer task).2, P t = false) :
    Lone P (advance m w i answer task rest) := by
  have hle : ∀ q, List.Sublist (((advance m w i answer task rest).pc q).filter P)
      ((w.pc q).filter P) := by
    intro q
    by_cases hq : q = i
    · subst hq
      simp only [advance_pc, Function.update_self, List.filter_append, filter_eq_nil.mpr hnew,
        List.nil_append, hpc]
      exact (List.sublist_cons_self task rest).filter P
    · simp only [advance_pc, Function.update_of_ne hq]
      exact List.Sublist.refl _
  constructor
  · intro q
    exact Nat.le_trans (hle q).length_le (h.list q)
  · intro q q' hne hsome
    have hbefore : (w.pc q).filter P ≠ [] := by
      intro hnil
      have := hle q
      rw [hnil] at this
      exact hsome (List.sublist_nil.mp this)
    have hq' := hle q'
    rw [h.caller q q' hne hbefore] at hq'
    exact List.sublist_nil.mp hq'

end

end Prgd.Agenda
