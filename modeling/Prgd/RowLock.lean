import Prgd.Table

/-!
# Rows under read committed

A row keeps its committed value and at most one draft: what an open transaction
has written there, and whose it is. A transaction reads its own drafts and else
what is committed. It writes a row only while no other transaction has a draft
there, so a draft is also the lock on its row. Committing turns all drafts of a
transaction into committed values at once, rolling back drops them.

What a transaction has in its drafts is not disturbed by any other one:
`SameFor` says so for a table, and holds for each of the three operations.
-/
namespace Prgd.RowLock

structure Cell (α : Type*) where
  committed : α
  draft : Option (ℕ × α) := none

variable {κ α : Type*} {i q : ℕ}

namespace Cell

/-- The transaction that has written here. -/
def holder (c : Cell α) : Option ℕ := c.draft.map Prod.fst

/-- What a transaction reads. -/
def view (i : ℕ) (c : Cell α) : α :=
  match c.draft with
  | some (j, v) => if j = i then v else c.committed
  | none => c.committed

/-- No other transaction has written here. -/
def free (i : ℕ) (c : Cell α) : Bool := c.holder.all fun j => j = i

def write (i : ℕ) (v : α) (c : Cell α) : Cell α := { c with draft := some (i, v) }

def commit (i : ℕ) (c : Cell α) : Cell α := if c.holder = some i then ⟨c.view i, none⟩ else c

def rollback (i : ℕ) (c : Cell α) : Cell α :=
  if c.holder = some i then ⟨c.committed, none⟩ else c

/-- What a draft of one transaction changes, measured by `f`. -/
def change (i : ℕ) (f : α → ℤ) (c : Cell α) : ℤ :=
  if c.holder = some i then f (c.view i) - f c.committed else 0

theorem view_of_holder_ne {c : Cell α} (h : c.holder ≠ some i) : c.view i = c.committed := by
  unfold view
  unfold holder at h
  cases hd : c.draft with
  | none => rfl
  | some d =>
    rw [hd] at h
    exact if_neg fun heq => h (by simp [heq])

theorem holder_eq_of_free {c : Cell α} (h : c.free i = true) :
    c.holder = none ∨ c.holder = some i := by
  unfold free at h
  cases hh : c.holder with
  | none => exact .inl rfl
  | some j =>
    rw [hh] at h
    exact .inr (by simpa using h)

theorem holder_ne_of_free (hq : q ≠ i) {c : Cell α} (h : c.free i = true) :
    c.holder ≠ some q := by
  rcases holder_eq_of_free h with hh | hh
  · simp [hh]
  · rw [hh]
    simpa using hq.symm

@[simp] theorem holder_write (i : ℕ) (v : α) (c : Cell α) : (c.write i v).holder = some i := rfl

@[simp] theorem committed_write (i : ℕ) (v : α) (c : Cell α) :
    (c.write i v).committed = c.committed := rfl

@[simp] theorem view_write (i : ℕ) (v : α) (c : Cell α) : (c.write i v).view i = v := by
  simp [write, view]

/-- Committing makes what the transaction reads the committed value. -/
@[simp] theorem committed_commit (i : ℕ) (c : Cell α) : (c.commit i).committed = c.view i := by
  unfold commit
  split_ifs with h
  · rfl
  · exact (view_of_holder_ne h).symm

@[simp] theorem committed_rollback (i : ℕ) (c : Cell α) :
    (c.rollback i).committed = c.committed := by
  unfold rollback
  split_ifs <;> rfl

theorem holder_commit_ne (i : ℕ) (c : Cell α) : (c.commit i).holder ≠ some i := by
  unfold commit
  split_ifs with h
  · simp [holder]
  · exact h

theorem holder_rollback_ne (i : ℕ) (c : Cell α) : (c.rollback i).holder ≠ some i := by
  unfold rollback
  split_ifs with h
  · simp [holder]
  · exact h

/-- The drafts of the others stay. -/
theorem commit_of_holder_ne {c : Cell α} (h : c.holder ≠ some i) : c.commit i = c := if_neg h

theorem rollback_of_holder_ne {c : Cell α} (h : c.holder ≠ some i) : c.rollback i = c := if_neg h

theorem holder_of_commit {c : Cell α} (h : (c.commit i).holder = some q) : c.commit i = c := by
  unfold commit at *
  split_ifs at * with hi
  · simp [holder] at h
  · rfl

theorem holder_of_rollback {c : Cell α} (h : (c.rollback i).holder = some q) :
    c.rollback i = c := by
  unfold rollback at *
  split_ifs at * with hi
  · simp [holder] at h
  · rfl

theorem draft_rollback {c : Cell α} {d : ℕ × α} (h : (c.rollback i).draft = some d) :
    c.draft = some d := by
  unfold rollback at h
  split_ifs at h
  exact h

theorem draft_commit {c : Cell α} {d : ℕ × α} (h : (c.commit i).draft = some d) :
    c.draft = some d := by
  unfold commit at h
  split_ifs at h
  exact h

theorem change_of_holder_ne {c : Cell α} (h : c.holder ≠ some i) (f : α → ℤ) :
    c.change i f = 0 := if_neg h

/-- The measure of what is read is that of what is committed, and the change. -/
theorem measure_view (i : ℕ) (f : α → ℤ) (c : Cell α) :
    f (c.view i) = f c.committed + c.change i f := by
  unfold change
  split_ifs with h
  · omega
  · rw [view_of_holder_ne h]
    omega

end Cell

/-- The drafts of a transaction, measured. -/
def drafted (i : ℕ) (f : α → ℤ) (t : Table κ (Cell α)) : ℤ := t.sum fun _ c => c.change i f

/-- What is committed, measured. -/
def total (f : α → ℤ) (t : Table κ (Cell α)) : ℤ := t.sum fun _ c => f c.committed

theorem drafted_commit_of_ne (hq : q ≠ i) (f : α → ℤ) (t : Table κ (Cell α)) :
    drafted q f (t.amend fun _ c => c.commit i) = drafted q f t := by
  rw [drafted, Table.sum_amend, drafted]
  apply Table.sum_congr
  intro k c _
  unfold Cell.commit
  split_ifs with hi
  · rw [Cell.change_of_holder_ne (by simp [Cell.holder]), Cell.change_of_holder_ne]
    rw [hi]
    simpa using hq.symm
  · rfl

theorem drafted_rollback_of_ne (hq : q ≠ i) (f : α → ℤ) (t : Table κ (Cell α)) :
    drafted q f (t.amend fun _ c => c.rollback i) = drafted q f t := by
  rw [drafted, Table.sum_amend, drafted]
  apply Table.sum_congr
  intro k c _
  unfold Cell.rollback
  split_ifs with hi
  · rw [Cell.change_of_holder_ne (by simp [Cell.holder]), Cell.change_of_holder_ne]
    rw [hi]
    simpa using hq.symm
  · rfl

/-- Committing adds what the transaction has drafted. -/
theorem total_commit (i : ℕ) (f : α → ℤ) (t : Table κ (Cell α)) :
    total f (t.amend fun _ c => c.commit i) = total f t + drafted i f t := by
  rw [total, Table.sum_amend, total, drafted, ← Table.sum_add]
  apply Table.sum_congr
  intro k c _
  rw [Cell.committed_commit, Cell.measure_view i f]

theorem total_rollback (i : ℕ) (f : α → ℤ) (t : Table κ (Cell α)) :
    total f (t.amend fun _ c => c.rollback i) = total f t := by
  rw [total, Table.sum_amend, total]
  apply Table.sum_congr
  intro k c _
  rw [Cell.committed_rollback]

section
variable [DecidableEq κ]

/-- Two tables have the same rows under the drafts of a transaction. -/
def SameFor (q : ℕ) (t t' : Table κ (Cell α)) : Prop :=
  ∀ k c, c.holder = some q → (t.find k = some c ↔ t'.find k = some c)

theorem SameFor.refl (q : ℕ) (t : Table κ (Cell α)) : SameFor q t t := fun _ _ _ => Iff.rfl

theorem SameFor.trans {t t' t'' : Table κ (Cell α)} (h : SameFor q t t') (h' : SameFor q t' t'') :
    SameFor q t t'' := fun k c hc => (h k c hc).trans (h' k c hc)

/-- The committed value of a row. -/
def reads (t : Table κ (Cell α)) (k : κ) : Option α := (t.find k).map Cell.committed

theorem reads_put (t : Table κ (Cell α)) (k : κ) (c : Cell α) (j : κ) :
    reads (t.put k c) j = if j = k then some c.committed else reads t j := by
  split_ifs with hj
  · rw [hj, reads, Table.find_put_self, Option.map_some]
  · rw [reads, Table.find_put_of_ne t hj, reads]

/-- A draft changes no committed value. -/
theorem reads_put_write {t : Table κ (Cell α)} {k : κ} {c : Cell α} (h : t.find k = some c)
    (v : α) (j : κ) : reads (t.put k (c.write i v)) j = reads t j := by
  rw [reads_put]
  split_ifs with hj
  · rw [hj, reads, h, Option.map_some, Cell.committed_write]
  · rfl

theorem reads_rollback (i : ℕ) (t : Table κ (Cell α)) (k : κ) :
    reads (t.amend fun _ c => c.rollback i) k = reads t k := by
  rw [reads, Table.find_amend, Option.map_map, reads]
  congr 1
  funext c
  exact Cell.committed_rollback i c

theorem reads_commit (i : ℕ) (t : Table κ (Cell α)) (k : κ) :
    reads (t.amend fun _ c => c.commit i) k = (t.find k).map (Cell.view i) := by
  rw [reads, Table.find_amend, Option.map_map]
  congr 1
  funext c
  exact Cell.committed_commit i c

/-- A transaction has written nothing in the table. -/
def HoldsNo (i : ℕ) (t : Table κ (Cell α)) : Prop := ∀ k c, t.find k = some c → c.holder ≠ some i

theorem SameFor.holdsNo {t t' : Table κ (Cell α)} (h : SameFor q t t') (hno : HoldsNo q t) :
    HoldsNo q t' := by
  intro k c hfind hc
  exact hno k c ((h k c hc).mpr hfind) hc

theorem holdsNo_commit (i : ℕ) (t : Table κ (Cell α)) :
    HoldsNo i (t.amend fun _ c => c.commit i) := by
  intro k c hfind
  rw [Table.find_amend, Option.map_eq_some_iff] at hfind
  obtain ⟨d, -, rfl⟩ := hfind
  exact Cell.holder_commit_ne i d

theorem holdsNo_rollback (i : ℕ) (t : Table κ (Cell α)) :
    HoldsNo i (t.amend fun _ c => c.rollback i) := by
  intro k c hfind
  rw [Table.find_amend, Option.map_eq_some_iff] at hfind
  obtain ⟨d, -, rfl⟩ := hfind
  exact Cell.holder_rollback_ne i d

theorem HoldsNo.reads_commit {t : Table κ (Cell α)} (h : HoldsNo i t) (k : κ) :
    reads (t.amend fun _ c => c.commit i) k = reads t k := by
  rw [RowLock.reads_commit, reads]
  cases hfind : t.find k with
  | none => rfl
  | some c => exact congrArg some (Cell.view_of_holder_ne (h k c hfind))

/-- A transaction has written `v` over `u` in one row, and nothing else. -/
def HoldsOnly (i : ℕ) (t : Table κ (Cell α)) (k : κ) (u v : α) : Prop :=
  t.find k = some ⟨u, some (i, v)⟩ ∧ ∀ j c, t.find j = some c → c.holder = some i → j = k

theorem HoldsNo.write {t : Table κ (Cell α)} (h : HoldsNo i t) (k : κ) (c : Cell α) (v : α) :
    HoldsOnly i (t.put k (c.write i v)) k c.committed v := by
  refine ⟨Table.find_put_self t k _, ?_⟩
  intro j d hd hi
  by_contra hj
  rw [Table.find_put_of_ne t hj] at hd
  exact h j d hd hi

theorem SameFor.holdsOnly {t t' : Table κ (Cell α)} {k : κ} {u v : α} (h : SameFor q t t')
    (honly : HoldsOnly q t k u v) : HoldsOnly q t' k u v := by
  constructor
  · exact (h k _ rfl).mp honly.1
  · intro j c hfind hc
    exact honly.2 j c ((h j c hc).mpr hfind) hc

theorem HoldsOnly.reads {t : Table κ (Cell α)} {k : κ} {u v : α} (h : HoldsOnly i t k u v) :
    reads t k = some u := by
  rw [RowLock.reads, h.1, Option.map_some]

/-- Committing changes the one row. -/
theorem HoldsOnly.reads_commit {t : Table κ (Cell α)} {k : κ} {u v : α} (h : HoldsOnly i t k u v)
    (j : κ) :
    RowLock.reads (t.amend fun _ c => c.commit i) j =
      if j = k then some v else RowLock.reads t j := by
  rw [RowLock.reads_commit]
  split_ifs with hj
  · subst hj
    rw [h.1, Option.map_some, Cell.view]
    simp
  · rw [RowLock.reads]
    cases hfind : t.find j with
    | none => rfl
    | some c => exact congrArg some (Cell.view_of_holder_ne fun hc => hj (h.2 j c hfind hc))

theorem drafted_eq_zero {f : α → ℤ} {t : Table κ (Cell α)} (h : HoldsNo i t) :
    drafted i f t = 0 := by
  apply Table.sum_eq_zero
  intro k c hmem
  exact Cell.change_of_holder_ne (h k c (Table.find_of_mem hmem)) f

/-- The draft of a row that is free for the transaction. -/
theorem drafted_put_write (f : α → ℤ) {t : Table κ (Cell α)} {k : κ} {c : Cell α} (v : α)
    (h : t.find k = some c) :
    drafted i f (t.put k (c.write i v)) = drafted i f t + (f v - f (c.view i)) := by
  have hview := Cell.measure_view i f c
  have hnew : (c.write i v).change i f = f v - f c.committed := by
    rw [Cell.change, Cell.holder_write, if_pos rfl, Cell.view_write, Cell.committed_write]
  rw [drafted, Table.sum_put, h, Option.elim_some, hnew, drafted]
  omega

/-- A row is written over one that the transaction does not hold. -/
theorem sameFor_put_of_ne {t : Table κ (Cell α)} {k : κ} {c : Cell α}
    (hold : ∀ d, t.find k = some d → d.holder ≠ some q) (hnew : c.holder ≠ some q) :
    SameFor q t (t.put k c) := by
  intro j d hd
  by_cases hj : j = k
  · subst hj
    rw [Table.find_put_self]
    constructor
    · intro hfind
      exact (hold d hfind hd).elim
    · intro heq
      rw [← Option.some.inj heq] at hd
      exact (hnew hd).elim
  · rw [Table.find_put_of_ne t hj]

/-- Another transaction writes a row that is free for it, or a new one. -/
theorem sameFor_put (hq : q ≠ i) {t : Table κ (Cell α)} {k : κ} {c : Cell α}
    (hold : ∀ d, t.find k = some d → d.holder ≠ some q) (hnew : c.holder = some i) :
    SameFor q t (t.put k c) := by
  apply sameFor_put_of_ne hold
  rw [hnew]
  simpa using hq.symm

theorem sameFor_commit (hq : q ≠ i) (t : Table κ (Cell α)) :
    SameFor q t (t.amend fun _ c => c.commit i) := by
  intro k c hc
  have hne : c.holder ≠ some i := by
    rw [hc]
    simpa using hq
  rw [Table.find_amend, Option.map_eq_some_iff]
  constructor
  · intro hfind
    exact ⟨c, hfind, Cell.commit_of_holder_ne hne⟩
  · intro ⟨d, hfind, heq⟩
    rw [hfind, ← heq, Cell.holder_of_commit (by rw [heq, hc])]

theorem sameFor_rollback (hq : q ≠ i) (t : Table κ (Cell α)) :
    SameFor q t (t.amend fun _ c => c.rollback i) := by
  intro k c hc
  have hne : c.holder ≠ some i := by
    rw [hc]
    simpa using hq
  rw [Table.find_amend, Option.map_eq_some_iff]
  constructor
  · intro hfind
    exact ⟨c, hfind, Cell.rollback_of_holder_ne hne⟩
  · intro ⟨d, hfind, heq⟩
    rw [hfind, ← heq, Cell.holder_of_rollback (by rw [heq, hc])]

theorem drafted_put_of_ne (hq : q ≠ i) (f : α → ℤ) {t : Table κ (Cell α)} {k : κ} {c : Cell α}
    (hold : ∀ d, t.find k = some d → d.holder ≠ some q) (hnew : c.holder = some i) :
    drafted q f (t.put k c) = drafted q f t := by
  have hc : c.holder ≠ some q := by
    rw [hnew]
    simpa using hq.symm
  have hzero : (t.find k).elim 0 (fun c => c.change q f) = 0 := by
    cases hfind : t.find k with
    | none => rfl
    | some d => exact Cell.change_of_holder_ne (hold d hfind) f
  rw [drafted, Table.sum_put, hzero, Cell.change_of_holder_ne hc, drafted]
  omega

/-- A draft changes no committed value. -/
theorem total_put_write (f : α → ℤ) {t : Table κ (Cell α)} {k : κ} {c : Cell α} (i : ℕ) (v : α)
    (h : t.find k = some c) : total f (t.put k (c.write i v)) = total f t := by
  rw [total, Table.sum_put, h, Option.elim_some, Cell.committed_write, total]
  omega

end

end Prgd.RowLock
