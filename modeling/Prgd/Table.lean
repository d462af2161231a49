import Prgd.Record
import Mathlib.Algebra.BigOperators.Group.List.Basic
import Mathlib.Algebra.Order.BigOperators.Group.List
import Mathlib.Algebra.Order.Ring.Int

/-!
# Tables with a unique key

A table keeps each row under a key, and no two rows have one key: the proof is
part of the table. `put` is an upsert, `amend` rewrites rows without moving them.
The sum of a quantity over all rows changes by the row that was written.
-/
namespace Prgd

structure Table (κ α : Type*) where
  rows : List (κ × α)
  unique : (rows.map Prod.fst).Nodup

namespace Table

variable {κ α : Type*}

def empty : Table κ α := ⟨[], List.nodup_nil⟩

/-- What the rows add up to. -/
def sum (f : κ → α → ℤ) (t : Table κ α) : ℤ := (t.rows.map fun e => f e.1 e.2).sum

/-- Rewrite every row in place. -/
def amend (g : κ → α → α) (t : Table κ α) : Table κ α where
  rows := t.rows.map fun e => (e.1, g e.1 e.2)
  unique := by simpa [List.map_map, Function.comp_def] using t.unique

theorem sum_amend (f : κ → α → ℤ) (g : κ → α → α) (t : Table κ α) :
    (t.amend g).sum f = t.sum fun k v => f k (g k v) := by
  simp [sum, amend, List.map_map, Function.comp_def]

theorem sum_congr {f g : κ → α → ℤ} {t : Table κ α}
    (h : ∀ k v, (k, v) ∈ t.rows → f k v = g k v) : t.sum f = t.sum g := by
  have hmap : (t.rows.map fun e => f e.1 e.2) = t.rows.map fun e => g e.1 e.2 :=
    List.map_congr_left fun e he => h e.1 e.2 he
  rw [sum, hmap, sum]

theorem sum_add (f g : κ → α → ℤ) (t : Table κ α) :
    (t.sum fun k v => f k v + g k v) = t.sum f + t.sum g := by
  simp only [sum]
  exact List.sum_map_add

theorem sum_nonneg {f : κ → α → ℤ} {t : Table κ α}
    (h : ∀ k v, (k, v) ∈ t.rows → 0 ≤ f k v) : 0 ≤ t.sum f := by
  apply List.sum_nonneg
  intro x hx
  obtain ⟨e, he, rfl⟩ := List.mem_map.mp hx
  exact h e.1 e.2 he

theorem sum_eq_zero {f : κ → α → ℤ} {t : Table κ α}
    (h : ∀ k v, (k, v) ∈ t.rows → f k v = 0) : t.sum f = 0 := by
  apply List.sum_eq_zero
  intro x hx
  obtain ⟨e, he, rfl⟩ := List.mem_map.mp hx
  exact h e.1 e.2 he

/-- The rows that satisfy a test. -/
theorem sum_filter (p : κ → α → Bool) (f : κ → α → ℤ) (t : Table κ α) :
    ((t.rows.filter fun e => p e.1 e.2).map fun e => f e.1 e.2).sum =
      t.sum fun k v => if p k v then f k v else 0 := by
  rw [sum]
  induction t.rows with
  | nil => rfl
  | cons e r ih =>
    rw [List.filter_cons, List.map_cons, List.sum_cons, ← ih]
    by_cases hp : p e.1 e.2 = true
    · rw [if_pos hp, if_pos hp, List.map_cons, List.sum_cons]
    · rw [if_neg hp, if_neg hp, zero_add]

section
variable [DecidableEq κ]

def find (t : Table κ α) (k : κ) : Option α := t.rows.lookup k

theorem nodup_set {r : List (κ × α)} (h : (r.map Prod.fst).Nodup) (k : κ) (v : α) :
    ((Record.set r k v).map Prod.fst).Nodup := by
  by_cases hk : k ∈ r.map Prod.fst
  · rw [Record.keys_set_of_mem hk]
    exact h
  · rw [Record.set_of_notMem hk, List.map_append, List.nodup_append]
    refine ⟨h, by simp, ?_⟩
    intro a ha b hb heq
    have hb' : b = k := by simpa using hb
    subst hb'
    subst heq
    exact hk ha

/-- Write a row: in place when the key is there, else at the end. -/
def put (t : Table κ α) (k : κ) (v : α) : Table κ α :=
  ⟨Record.set t.rows k v, nodup_set t.unique k v⟩

@[simp] theorem find_empty (k : κ) : (empty : Table κ α).find k = none := rfl

@[simp] theorem find_put_self (t : Table κ α) (k : κ) (v : α) : (t.put k v).find k = some v :=
  Record.lookup_set_self t.rows k v

theorem find_put_of_ne (t : Table κ α) {j k : κ} (h : j ≠ k) (v : α) :
    (t.put k v).find j = t.find j :=
  Record.lookup_set_of_ne t.rows h v

theorem find_mem {t : Table κ α} {k : κ} {v : α} (h : t.find k = some v) : (k, v) ∈ t.rows :=
  Record.lookup_mem h

theorem find_of_mem {t : Table κ α} {k : κ} {v : α} (h : (k, v) ∈ t.rows) : t.find k = some v :=
  Record.lookup_of_mem t.unique h

/-- The rows of a table with the same keys. -/
theorem sum_of_keys {t t' : Table κ α} (h : t'.rows.map Prod.fst = t.rows.map Prod.fst)
    (f : κ → α → ℤ) : t'.sum f = t.sum fun k _ => (t'.find k).elim 0 (f k) := by
  have hown : t'.sum f = t'.sum fun k _ => (t'.find k).elim 0 (f k) := by
    apply sum_congr
    intro k v hkv
    rw [find_of_mem hkv, Option.elim_some]
  rw [hown, sum, sum]
  have hkeys := congrArg (List.map fun k => (t'.find k).elim 0 (f k)) h
  rw [List.map_map, List.map_map] at hkeys
  exact congrArg List.sum hkeys

theorem mem_keys_iff {t : Table κ α} {k : κ} :
    k ∈ t.rows.map Prod.fst ↔ (t.find k).isSome = true := by
  constructor
  · intro h
    obtain ⟨e, he, rfl⟩ := List.mem_map.mp h
    rw [find_of_mem (k := e.1) (v := e.2) he]
    rfl
  · intro h
    obtain ⟨v, hv⟩ := Option.isSome_iff_exists.mp h
    exact List.mem_map_of_mem (find_mem hv)

theorem mem_put {t : Table κ α} {k : κ} {v : α} {e : κ × α} (h : e ∈ (t.put k v).rows) :
    e = (k, v) ∨ e.1 ≠ k ∧ e ∈ t.rows := by
  by_cases hk : e.1 = k
  · left
    subst hk
    have hfind : (t.put e.1 v).find e.1 = some e.2 := find_of_mem h
    rw [find_put_self] at hfind
    rw [Option.some.inj hfind]
  · right
    refine ⟨hk, ?_⟩
    rcases Record.mem_set h with heq | hmem
    · rw [heq] at hk
      exact (hk rfl).elim
    · exact hmem

/-- Writing a row exchanges what it adds. -/
theorem sum_put (f : κ → α → ℤ) (t : Table κ α) (k : κ) (v : α) :
    (t.put k v).sum f = t.sum f - (t.find k).elim 0 (f k) + f k v := by
  obtain ⟨r, hr⟩ := t
  simp only [sum, put, find]
  induction r with
  | nil => simp [Record.set]
  | cons e r ih =>
    rw [List.map_cons, List.nodup_cons] at hr
    rw [Record.set]
    by_cases hk : e.1 = k
    · rw [if_pos hk, List.lookup_cons, ← hk, beq_self_eq_true]
      simp only [List.map_cons, List.sum_cons, Option.elim_some]
      omega
    · have htail := ih hr.2
      rw [if_neg hk, List.lookup_cons, beq_false_of_ne (Ne.symm hk)]
      simp only [List.map_cons, List.sum_cons]
      omega

/-- A row that adds nothing can be written freely, in any kind of sum. -/
theorem sum_rows_put {β : Type*} [AddCommMonoid β] {f : κ → α → β} {k : κ}
    (h : ∀ v, f k v = 0) (t : Table κ α) (v : α) :
    ((t.put k v).rows.map fun e => f e.1 e.2).sum = (t.rows.map fun e => f e.1 e.2).sum := by
  simp only [put]
  induction t.rows with
  | nil => simp [Record.set, h]
  | cons e r ih =>
    rw [Record.set]
    split_ifs with hk
    · subst hk
      simp [h]
    · rw [List.map_cons, List.sum_cons, ih, List.map_cons, List.sum_cons]

@[simp] theorem find_amend (t : Table κ α) (g : κ → α → α) (k : κ) :
    (t.amend g).find k = (t.find k).map (g k) := by
  obtain ⟨r, hr⟩ := t
  simp only [find, amend]
  clear hr
  induction r with
  | nil => rfl
  | cons e r ih =>
    rw [List.map_cons, List.lookup_cons, List.lookup_cons, ih]
    by_cases hk : k = e.1
    · rw [hk, beq_self_eq_true]
      rfl
    · rw [beq_false_of_ne hk]

/-- Rewrite one row in place. -/
def modify (t : Table κ α) (k : κ) (g : α → α) : Table κ α :=
  t.amend fun j v => if j = k then g v else v

theorem find_modify (t : Table κ α) (j k : κ) (g : α → α) :
    (t.modify k g).find j = if j = k then (t.find j).map g else t.find j := by
  rw [modify, find_amend]
  split_ifs with h
  · rfl
  · exact Option.map_id'

/-- Delete a row. -/
def erase (t : Table κ α) (k : κ) : Table κ α where
  rows := t.rows.filter fun e => e.1 ≠ k
  unique := t.unique.sublist (List.filter_sublist.map Prod.fst)

theorem find_erase (t : Table κ α) (j k : κ) :
    (t.erase k).find j = if j = k then none else t.find j := by
  obtain ⟨r, hr⟩ := t
  simp only [find, erase]
  clear hr
  induction r with
  | nil => simp
  | cons e r ih =>
    by_cases hk : e.1 = k
    · rw [List.filter_cons_of_neg (by simpa using hk), ih]
      by_cases hj : j = k
      · simp [hj]
      · have hne : ¬ j = e.1 := by rwa [hk]
        rw [if_neg hj, if_neg hj, List.lookup_cons, beq_false_of_ne hne]
    · rw [List.filter_cons_of_pos (by simpa using hk), List.lookup_cons, List.lookup_cons, ih]
      by_cases hj : j = e.1
      · have hne : ¬ j = k := by rwa [hj]
        simp [hj, hk]
      · simp [beq_false_of_ne hj]

/-- The rows that pass a test, as `deleteMany` leaves them. -/
def filter (p : κ → α → Bool) (t : Table κ α) : Table κ α where
  rows := t.rows.filter fun e => p e.1 e.2
  unique := t.unique.sublist (List.filter_sublist.map Prod.fst)

theorem find_filter {p : κ → α → Bool} {t : Table κ α} {k : κ} {v : α} :
    (t.filter p).find k = some v ↔ t.find k = some v ∧ p k v = true := by
  constructor
  · intro h
    obtain ⟨hmem, hp⟩ := List.mem_filter.mp (find_mem h)
    exact ⟨find_of_mem hmem, hp⟩
  · rintro ⟨h, hp⟩
    exact find_of_mem (List.mem_filter.mpr ⟨find_mem h, hp⟩)

/-- A sum over one key is the row of that key. -/
theorem sum_only (f : α → ℤ) (t : Table κ α) (k : κ) :
    (t.sum fun j v => if j = k then f v else 0) = (t.find k).elim 0 f := by
  obtain ⟨r, hr⟩ := t
  simp only [sum, find]
  induction r with
  | nil => rfl
  | cons e r ih =>
    rw [List.map_cons, List.nodup_cons] at hr
    rw [List.map_cons, List.sum_cons, List.lookup_cons, ih hr.2]
    by_cases hk : e.1 = k
    · have hnone : r.lookup k = none := by
        rw [List.lookup_eq_none_iff]
        intro p hp
        rw [bne_iff_ne]
        intro heq
        exact hr.1 (List.mem_map.mpr ⟨p, hp, by rw [← heq, hk]⟩)
      rw [if_pos hk, ← hk, beq_self_eq_true, hk, hnone]
      simp
    · rw [if_neg hk, beq_false_of_ne (Ne.symm hk)]
      simp

theorem sum_modify (f : κ → α → ℤ) (t : Table κ α) (k : κ) (g : α → α) :
    (t.modify k g).sum f = t.sum f + (t.find k).elim 0 fun v => f k (g v) - f k v := by
  rw [modify, sum_amend, ← sum_only, ← sum_add]
  apply sum_congr
  intro j v _
  by_cases hj : j = k
  · simp [hj]
  · simp [hj]

theorem sum_erase (f : κ → α → ℤ) (t : Table κ α) (k : κ) :
    (t.erase k).sum f = t.sum f - (t.find k).elim 0 (f k) := by
  have hsplit : t.sum f = (t.sum fun j v => if j ≠ k then f j v else 0) +
      t.sum fun j v => if j = k then f k v else 0 := by
    rw [← sum_add]
    apply sum_congr
    intro j v _
    by_cases hj : j = k
    · simp [hj]
    · simp [hj]
  have hrest : (t.erase k).sum f = t.sum fun j v => if j ≠ k then f j v else 0 := by
    rw [sum, erase, sum_filter (fun j _ => j ≠ k)]
    simp only [decide_eq_true_eq]
  rw [hrest, hsplit, sum_only]
  omega

/-- The rows of a list of distinct keys, each of which has a row that adds what the list
says, add up to the list. -/
theorem sum_listed {β : Type*} {f : κ → α → ℤ} {g : κ × β → ℤ} {t : Table κ α} {l : List (κ × β)}
    (hnodup : (l.map Prod.fst).Nodup) (h : ∀ e ∈ l, ∃ v, t.find e.1 = some v ∧ f e.1 v = g e) :
    (t.sum fun k v => if k ∈ l.map Prod.fst then f k v else 0) = (l.map g).sum := by
  induction l with
  | nil => exact sum_eq_zero fun k v _ => by simp
  | cons e l ih =>
    rw [List.map_cons, List.nodup_cons] at hnodup
    obtain ⟨v, hfind, hv⟩ := h e (by simp)
    have hsplit : ∀ k v, (k, v) ∈ t.rows → (if k ∈ (e :: l).map Prod.fst then f k v else 0) =
        (if k = e.1 then f e.1 v else 0) + if k ∈ l.map Prod.fst then f k v else 0 := by
      intro k v _
      rw [List.map_cons]
      by_cases hk : k = e.1
      · rw [hk, if_pos (by simp), if_pos rfl, if_neg hnodup.1, add_zero]
      · rw [if_neg hk, zero_add]
        simp only [List.mem_cons, hk, false_or]
    rw [sum_congr hsplit, sum_add, sum_only, hfind, Option.elim_some, hv,
      ih hnodup.2 fun e' he' => h e' (List.mem_cons_of_mem e he'), List.map_cons, List.sum_cons]

end

/-- A number that is no key yet. -/
def fresh (t : Table ℕ α) : ℕ := (t.rows.map Prod.fst).foldr max 0 + 1

theorem le_foldr_max {l : List ℕ} {n : ℕ} (h : n ∈ l) : n ≤ l.foldr max 0 := by
  induction l with
  | nil => cases h
  | cons m l ih =>
    rw [List.foldr_cons]
    rcases List.mem_cons.mp h with h | h
    · omega
    · have := ih h
      omega

theorem find_of_fresh_le {t : Table ℕ α} {k : ℕ} (h : t.fresh ≤ k) : t.find k = none := by
  cases hfind : t.find k with
  | none => rfl
  | some v =>
    have hmem : k ∈ t.rows.map Prod.fst := List.mem_map.mpr ⟨_, find_mem hfind, rfl⟩
    have hle := le_foldr_max hmem
    unfold fresh at h
    omega

@[simp] theorem find_fresh (t : Table ℕ α) : t.find t.fresh = none :=
  find_of_fresh_le (Nat.le_refl _)

/-- A new row, or one that was there. -/
theorem find_put_fresh {t : Table ℕ α} {v w : α} {k : ℕ} (h : (t.put t.fresh v).find k = some w) :
    k = t.fresh ∧ w = v ∨ t.find k = some w := by
  by_cases hk : k = t.fresh
  · rw [hk, find_put_self] at h
    exact .inl ⟨hk, (Option.some.inj h).symm⟩
  · rw [find_put_of_ne t hk] at h
    exact .inr h

theorem find_put_of_some {t : Table ℕ α} {v w : α} {k : ℕ} (h : t.find k = some w) :
    (t.put t.fresh v).find k = some w := by
  rw [find_put_of_ne t, h]
  rintro rfl
  rw [find_fresh] at h
  cases h

end Table

end Prgd
