import Mathlib

/-!
# Records used as maps

An object used as a map is the list of its entries in insertion order. Reading
is `List.lookup`; `set` overwrites in place or appends, and `erase` deletes.
-/
namespace Prgd.Record

variable {κ α : Type*} [DecidableEq κ]

def set : List (κ × α) → κ → α → List (κ × α)
  | [], k, v => [(k, v)]
  | f :: r, k, v => if f.1 = k then (k, v) :: r else f :: set r k v

def erase (r : List (κ × α)) (k : κ) : List (κ × α) := r.filter fun f => f.1 ≠ k

@[simp] theorem set_nil (k : κ) (v : α) : set [] k v = [(k, v)] := rfl

theorem set_cons (f : κ × α) (r : List (κ × α)) (k : κ) (v : α) :
    set (f :: r) k v = if f.1 = k then (k, v) :: r else f :: set r k v := rfl

/-- A new key goes to the end. -/
theorem set_of_notMem {r : List (κ × α)} {k : κ} (h : k ∉ r.map Prod.fst) (v : α) :
    set r k v = r ++ [(k, v)] := by
  induction r with
  | nil => rfl
  | cons f r ih =>
    rw [List.map_cons, List.mem_cons, not_or] at h
    rw [set_cons, if_neg (Ne.symm h.1), ih h.2, List.cons_append]

theorem keys_set_of_mem {r : List (κ × α)} {k : κ} (h : k ∈ r.map Prod.fst) (v : α) :
    (set r k v).map Prod.fst = r.map Prod.fst := by
  induction r with
  | nil => simp at h
  | cons f r ih =>
    rw [set_cons]
    split_ifs with hk
    · simp [hk]
    · have htail : k ∈ r.map Prod.fst := by
        rcases List.mem_cons.mp h with h | h
        · exact (hk h.symm).elim
        · exact h
      rw [List.map_cons, List.map_cons, ih htail]

theorem mem_set {r : List (κ × α)} {k : κ} {v : α} {f : κ × α} (h : f ∈ set r k v) :
    f = (k, v) ∨ f ∈ r := by
  induction r with
  | nil => exact .inl (by simpa using h)
  | cons g r ih =>
    rw [set_cons] at h
    split_ifs at h with hk
    · rcases List.mem_cons.mp h with h | h
      · exact .inl h
      · exact .inr (List.mem_cons_of_mem g h)
    · rcases List.mem_cons.mp h with h | h
      · exact .inr (h ▸ List.mem_cons_self)
      · exact (ih h).imp id fun h => List.mem_cons_of_mem g h

@[simp] theorem mem_erase {r : List (κ × α)} {k : κ} {f : κ × α} :
    f ∈ erase r k ↔ f ∈ r ∧ f.1 ≠ k := by simp [erase]

section
variable [BEq κ] [LawfulBEq κ]

@[simp] theorem lookup_set_self (r : List (κ × α)) (k : κ) (v : α) :
    (set r k v).lookup k = some v := by
  induction r with
  | nil => simp
  | cons f r ih =>
    simp only [set_cons]
    split_ifs with hk
    · simp
    · rw [List.lookup_cons, beq_false_of_ne (Ne.symm hk)]
      exact ih

theorem lookup_set_of_ne (r : List (κ × α)) {j k : κ} (h : j ≠ k) (v : α) :
    (set r k v).lookup j = r.lookup j := by
  induction r with
  | nil => simp [h]
  | cons f r ih =>
    obtain ⟨i, w⟩ := f
    simp only [set_cons]
    split_ifs with hk
    · subst hk
      simp [List.lookup_cons, beq_false_of_ne h]
    · simp only [List.lookup_cons, ih]

theorem lookup_set (r : List (κ × α)) (j k : κ) (v : α) :
    (set r k v).lookup j = if j = k then some v else r.lookup j := by
  split_ifs with h
  · subst h
    exact lookup_set_self r j v
  · exact lookup_set_of_ne r h v

theorem lookup_mem {r : List (κ × α)} {k : κ} {v : α} (h : r.lookup k = some v) :
    (k, v) ∈ r := by
  induction r with
  | nil => simp at h
  | cons f r ih =>
    rw [List.lookup_cons] at h
    by_cases hk : k = f.1
    · subst hk
      simp only [beq_self_eq_true, Option.some.injEq] at h
      exact List.mem_cons.mpr (.inl (Prod.ext rfl h.symm))
    · rw [beq_false_of_ne hk] at h
      exact List.mem_cons_of_mem f (ih h)

omit [DecidableEq κ] in
theorem lookup_of_mem {r : List (κ × α)} (hr : (r.map Prod.fst).Nodup) {k : κ} {v : α}
    (h : (k, v) ∈ r) : r.lookup k = some v := by
  induction r with
  | nil => simp at h
  | cons f r ih =>
    rw [List.map_cons, List.nodup_cons] at hr
    rcases List.mem_cons.mp h with rfl | h
    · simp
    · have hk : k ≠ f.1 := by
        rintro rfl
        exact hr.1 (List.mem_map.mpr ⟨_, h, rfl⟩)
      rw [List.lookup_cons, beq_false_of_ne hk]
      exact ih hr.2 h

theorem lookup_erase (r : List (κ × α)) (j k : κ) :
    (erase r k).lookup j = if j = k then none else r.lookup j := by
  induction r with
  | nil => simp [erase]
  | cons f r ih =>
    obtain ⟨i, w⟩ := f
    simp only [erase, List.filter_cons] at ih ⊢
    by_cases hi : i = k
    · subst hi
      simp only [ne_eq, not_true, decide_false, Bool.false_eq_true, ite_false, ih,
        List.lookup_cons]
      split_ifs with hj
      · rfl
      · rw [beq_false_of_ne hj]
    · simp only [ne_eq, hi, not_false_eq_true, decide_true, ite_true, List.lookup_cons, ih]
      by_cases hj : j = i
      · subst hj
        simp [hi]
      · simp only [beq_false_of_ne hj]

end

end Prgd.Record
