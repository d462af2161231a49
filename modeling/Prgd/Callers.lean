import Prgd.Interleaving
import Mathlib.Algebra.BigOperators.Group.List.Basic
import Mathlib.Algebra.Order.Group.Nat

/-!
# Any number of callers

Calls that join one after another and then interleave. A call is known by its
place in the list of calls, so that sums over all calls are sums over a list:
what is in flight, and what has been granted so far. Each action moves one call,
which sees the shared data and where it stands itself.
-/
namespace Prgd.Callers

variable {Sh Pc In Act : Type*}

structure Crew (Sh Pc : Type*) where
  shared : Sh
  calls : List Pc

inductive Move (In Act : Type*) where
  /-- A call begins with this input. -/
  | join (input : In)
  | act (i : ℕ) (a : Act)

section
variable (start : In → Pc) (trans : Sh → Act → Pc → Option (Sh × Pc))

/-- The step of a crew. An action that is not enabled does nothing. -/
def step (w : Crew Sh Pc) : Move In Act → Crew Sh Pc
  | .join input => { w with calls := w.calls ++ [start input] }
  | .act i a =>
      match w.calls[i]? with
      | none => w
      | some c =>
          match trans w.shared a c with
          | none => w
          | some (s, c') => ⟨s, w.calls.set i c'⟩

/-- A step does nothing, begins a call, or moves one call. -/
theorem step_cases (w : Crew Sh Pc) (m : Move In Act) :
    step start trans w m = w ∨
    (∃ input, m = .join input ∧
      step start trans w m = { w with calls := w.calls ++ [start input] }) ∨
    ∃ i a c s c', m = .act i a ∧ w.calls[i]? = some c ∧ trans w.shared a c = some (s, c') ∧
      step start trans w m = ⟨s, w.calls.set i c'⟩ := by
  cases m with
  | join input => exact .inr (.inl ⟨input, rfl, rfl⟩)
  | act i a =>
    simp only [step]
    cases hc : w.calls[i]? with
    | none => exact .inl rfl
    | some c =>
      cases ht : trans w.shared a c with
      | none => exact .inl (by simp only [ht])
      | some r => exact .inr (.inr ⟨i, a, c, r.1, r.2, rfl, hc, ht, by simp only [ht]⟩)

end

/-! ## Sums over the calls -/

/-- What the calls add up to. -/
def total (f : Pc → ℕ) (calls : List Pc) : ℕ := (calls.map f).sum

@[simp] theorem total_nil (f : Pc → ℕ) : total f [] = 0 := rfl

@[simp] theorem total_cons (f : Pc → ℕ) (c : Pc) (calls : List Pc) :
    total f (c :: calls) = f c + total f calls := by
  simp [total]

@[simp] theorem total_append (f : Pc → ℕ) (calls more : List Pc) :
    total f (calls ++ more) = total f calls + total f more := by
  simp [total]

/-- Moving one call exchanges its share. -/
theorem total_set (f : Pc → ℕ) {calls : List Pc} {i : ℕ} {c : Pc} (h : calls[i]? = some c)
    (c' : Pc) : total f (calls.set i c') + f c = total f calls + f c' := by
  induction calls generalizing i with
  | nil => simp at h
  | cons d calls ih =>
    cases i with
    | zero =>
      have hd : d = c := by simpa using h
      subst hd
      simp only [List.set_cons_zero, total_cons]
      omega
    | succ i =>
      have htail := ih (i := i) (by simpa using h)
      simp only [List.set_cons_succ, total_cons]
      omega

theorem total_le_of_mem (f : Pc → ℕ) {calls : List Pc} {c : Pc} (h : c ∈ calls) :
    f c ≤ total f calls := by
  induction calls with
  | nil => simp at h
  | cons d calls ih =>
    rw [total_cons]
    rcases List.mem_cons.mp h with rfl | h
    · omega
    · have := ih h
      omega

/-- Two calls that differ both have their share. -/
theorem add_le_total (f : Pc → ℕ) {calls : List Pc} {c d : Pc} (hc : c ∈ calls) (hd : d ∈ calls)
    (hne : c ≠ d) : f c + f d ≤ total f calls := by
  induction calls with
  | nil => simp at hc
  | cons e calls ih =>
    rw [total_cons]
    rcases List.mem_cons.mp hc with rfl | hc'
    · rcases List.mem_cons.mp hd with rfl | hd'
      · exact (hne rfl).elim
      · have := total_le_of_mem f hd'
        omega
    · rcases List.mem_cons.mp hd with rfl | hd'
      · have := total_le_of_mem f hc'
        omega
      · have := ih hc' hd'
        omega

end Prgd.Callers
