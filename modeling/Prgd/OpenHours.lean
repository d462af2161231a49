import Mathlib

/-!
# Open hours

Days one after the other, each with at most one window that is open, and the open time between two
instants. Open time is additive, and an amount of it is behind a start first at one instant.

Two walks from day to day compute with it: one counts the open time up to an instant, the other
spends an amount of it. Both see a day through what it tells at an instant: its window and where the
next day begins.
-/
namespace Prgd.OpenHours

structure Window where
  start : ℤ
  stop : ℤ
  deriving DecidableEq

/-- Day `d` begins at `edge d`. -/
structure Schedule where
  edge : ℤ → ℤ
  edge_lt : ∀ d, edge d < edge (d + 1)
  window : ℤ → Option Window
  le_start : ∀ d w, window d = some w → edge d ≤ w.start
  stop_le : ∀ d w, window d = some w → w.stop ≤ edge (d + 1)

namespace Schedule
variable (S : Schedule)

/-- The open time of a day between two instants. -/
def overlap (d s t : ℤ) : ℤ :=
  (S.window d).elim 0 fun w => max 0 (min t w.stop - max s w.start)

/-- The open time between two instants in some days from day `d` on. -/
def worked (d : ℤ) (n : ℕ) (s t : ℤ) : ℤ := ∑ i ∈ Finset.range n, S.overlap (d + i) s t

/-- The instant is in the day. -/
def Holds (d t : ℤ) : Prop := S.edge d ≤ t ∧ t < S.edge (d + 1)

variable {S}

theorem edge_mono : Monotone S.edge :=
  monotone_int_of_le_succ fun d => (S.edge_lt d).le

theorem overlap_nonneg (d s t : ℤ) : 0 ≤ S.overlap d s t := by
  rw [overlap]
  cases S.window d with
  | none => exact le_rfl
  | some w => exact le_max_left _ _

theorem overlap_add (d : ℤ) {s t u : ℤ} (hst : s ≤ t) (htu : t ≤ u) :
    S.overlap d s u = S.overlap d s t + S.overlap d t u := by
  simp only [overlap]
  cases S.window d with
  | none => rfl
  | some w =>
    simp only [Option.elim_some]
    omega

theorem overlap_of_le (d : ℤ) {s t : ℤ} (h : t ≤ s) : S.overlap d s t = 0 := by
  rw [overlap]
  cases S.window d with
  | none => rfl
  | some w =>
    simp only [Option.elim_some]
    omega

/-- A day that has not begun yet. -/
theorem overlap_before {d t : ℤ} (h : t ≤ S.edge d) (s : ℤ) : S.overlap d s t = 0 := by
  rw [overlap]
  cases hw : S.window d with
  | none => rfl
  | some w =>
    have := S.le_start d w hw
    simp only [Option.elim_some]
    omega

/-- A day that is over. -/
theorem overlap_after {d s : ℤ} (h : S.edge (d + 1) ≤ s) (t : ℤ) : S.overlap d s t = 0 := by
  rw [overlap]
  cases hw : S.window d with
  | none => rfl
  | some w =>
    have := S.stop_le d w hw
    simp only [Option.elim_some]
    omega

/-- Of a day, it does not matter how long before it the time begins. -/
theorem overlap_edge {d s : ℤ} (h : s ≤ S.edge d) (t : ℤ) :
    S.overlap d s t = S.overlap d (S.edge d) t := by
  rw [overlap, overlap]
  cases hw : S.window d with
  | none => rfl
  | some w =>
    have := S.le_start d w hw
    simp only [Option.elim_some]
    omega

theorem worked_zero (d s t : ℤ) : S.worked d 0 s t = 0 := rfl

/-- The first day and the days after it. -/
theorem worked_succ (d : ℤ) (n : ℕ) (s t : ℤ) :
    S.worked d (n + 1) s t = S.overlap d s t + S.worked (d + 1) n s t := by
  rw [worked, Finset.sum_range_succ', worked, add_comm, Nat.cast_zero, add_zero]
  congr 1
  refine Finset.sum_congr rfl fun i _ => ?_
  rw [Nat.cast_succ, add_right_comm, add_assoc]

theorem worked_nonneg (d : ℤ) (n : ℕ) (s t : ℤ) : 0 ≤ S.worked d n s t :=
  Finset.sum_nonneg fun _ _ => overlap_nonneg _ s t

theorem worked_add (d : ℤ) (n : ℕ) {s t u : ℤ} (hst : s ≤ t) (htu : t ≤ u) :
    S.worked d n s u = S.worked d n s t + S.worked d n t u := by
  rw [worked, worked, worked, ← Finset.sum_add_distrib]
  exact Finset.sum_congr rfl fun i _ => overlap_add (d + i) hst htu

theorem worked_of_le (d : ℤ) (n : ℕ) {s t : ℤ} (h : t ≤ s) : S.worked d n s t = 0 :=
  Finset.sum_eq_zero fun i _ => overlap_of_le (d + i) h

theorem worked_before {d t : ℤ} (h : t ≤ S.edge d) (n : ℕ) (s : ℤ) : S.worked d n s t = 0 :=
  Finset.sum_eq_zero fun i _ => overlap_before (h.trans (edge_mono (by omega))) s

theorem worked_edge {d s : ℤ} (h : s ≤ S.edge d) (n : ℕ) (t : ℤ) :
    S.worked d n s t = S.worked d n (S.edge d) t := by
  refine Finset.sum_congr rfl fun i _ => ?_
  have hi : S.edge d ≤ S.edge (d + i) := edge_mono (by omega)
  rw [overlap_edge (h.trans hi), overlap_edge hi]

/-- More days add nothing once the last of them begins after the end. -/
theorem worked_of_days {d t : ℤ} {m n : ℕ} (hmn : m ≤ n) (h : t ≤ S.edge (d + m)) (s : ℤ) :
    S.worked d n s t = S.worked d m s t := by
  refine (Finset.sum_subset (Finset.range_mono hmn) fun i _ hi => ?_).symm
  rw [Finset.mem_range, not_lt] at hi
  exact overlap_before (h.trans (edge_mono (by omega))) s

/-- Days that are over at the start add nothing. -/
theorem worked_from {d s : ℤ} {k : ℕ} (n : ℕ) (h : S.edge (d + k) ≤ s) (t : ℤ) :
    S.worked d (k + n) s t = S.worked (d + k) n s t := by
  rw [worked, Finset.sum_range_add]
  have hover : ∑ i ∈ Finset.range k, S.overlap (d + i) s t = 0 :=
    Finset.sum_eq_zero fun i hi => by
      rw [Finset.mem_range] at hi
      exact overlap_after ((edge_mono (by omega)).trans h) t
  rw [hover, zero_add, worked]
  refine Finset.sum_congr rfl fun i _ => ?_
  rw [Nat.cast_add, add_assoc]

/-! ## The first instant with an amount of open time behind it -/

/-- The amount is behind the start at `x` and not before. -/
structure First (S : Schedule) (d : ℤ) (n : ℕ) (s r x : ℤ) : Prop where
  lt : s < x
  within : x ≤ S.edge (d + n)
  worked : S.worked d n s x = r
  least : ∀ t, s ≤ t → t < x → S.worked d n s t < r

/-- More days do not move it. -/
theorem First.more {d s r x : ℤ} {m n : ℕ} (hmn : m ≤ n) (h : First S d m s r x) :
    First S d n s r x where
  lt := h.lt
  within := h.within.trans (edge_mono (by omega))
  worked := by rw [worked_of_days hmn h.within, h.worked]
  least t hst htx := by
    rw [worked_of_days hmn (htx.le.trans h.within)]
    exact h.least t hst htx

theorem First.unique {d s r x y : ℤ} {n : ℕ} (hx : First S d n s r x) (hy : First S d n s r y) :
    x = y := by
  rcases lt_trichotomy x y with hlt | heq | hlt
  · exact absurd hx.worked (hy.least x hx.lt.le hlt).ne
  · exact heq
  · exact absurd hy.worked (hx.least y hy.lt.le hlt).ne

/-- One amount after the other, from the day in which the first one ends. -/
theorem First.add {d s a b x y : ℤ} {k n : ℕ} (hx : First S d (k + n) s a x)
    (hk : S.edge (d + k) ≤ x) (hy : First S (d + k) n x b y) :
    First S d (k + n) s (a + b) y := by
  have hwithin : y ≤ S.edge (d + (k + n : ℕ)) := by
    have := hy.within
    rwa [add_assoc, ← Nat.cast_add] at this
  refine ⟨hx.lt.trans hy.lt, hwithin, ?_, fun t hst hty => ?_⟩
  · rw [worked_add d _ hx.lt.le hy.lt.le, hx.worked, worked_from n hk, hy.worked]
  · rcases lt_or_ge t x with htx | hxt
    · have hb : 0 ≤ b := hy.worked ▸ worked_nonneg _ _ _ _
      have := hx.least t hst htx
      omega
    · rw [worked_add d _ hx.lt.le hxt, hx.worked, worked_from n hk]
      have := hy.least t hxt hty
      omega

/-! ## Walks from day to day -/

/-- What a day tells at each of its instants, from some instant on: its window and its end. -/
def Tells (S : Schedule) (low : ℤ) (info : ℤ → Option Window × ℤ) : Prop :=
  ∀ d t, low ≤ t → S.Holds d t → info t = (S.window d, S.edge (d + 1))

/-- Adds the open time up to an instant to a total. -/
def count (info : ℤ → Option Window × ℤ) (limit : ℤ) : ℕ → ℤ → ℤ → ℤ
  | 0, _, total => total
  | n + 1, cursor, total =>
      if cursor < limit then
        count info limit n (info cursor).2 (total + (info cursor).1.elim 0 fun w =>
          max 0 (min limit w.stop - max cursor w.start))
      else total

/-- Spends an amount of open time and tells where it ends. -/
def spend (info : ℤ → Option Window × ℤ) : ℕ → ℤ → ℤ → Option ℤ
  | 0, _, _ => none
  | n + 1, cursor, remaining =>
      match (info cursor).1 with
      | none => spend info n (info cursor).2 remaining
      | some w =>
          if max cursor w.start < w.stop then
            if remaining ≤ w.stop - max cursor w.start then some (max cursor w.start + remaining)
            else spend info n (info cursor).2 (remaining - (w.stop - max cursor w.start))
          else spend info n (info cursor).2 remaining

variable {low : ℤ} {info : ℤ → Option Window × ℤ}

theorem holds_next (S : Schedule) (d : ℤ) : S.Holds (d + 1) (S.edge (d + 1)) :=
  ⟨le_rfl, S.edge_lt (d + 1)⟩

theorem count_eq (h : Tells S low info) {d cursor : ℤ} (hlow : low ≤ cursor)
    (hd : S.Holds d cursor) (n : ℕ) (limit total : ℤ) :
    count info limit n cursor total = total + S.worked d n cursor limit := by
  induction n generalizing d cursor total with
  | zero => rw [count, worked_zero, add_zero]
  | succ n ih =>
    rw [count]
    split_ifs with hlimit
    · rw [h d cursor hlow hd, ih (hlow.trans hd.2.le) (holds_next S d), worked_succ,
        worked_edge hd.2.le, overlap, ← add_assoc]
    · rw [worked_of_le d _ (not_lt.mp hlimit), add_zero]

/-- The rest of the day and the days after it. -/
theorem worked_day {d s t : ℤ} (n : ℕ) (hs : s ≤ S.edge (d + 1)) (ht : S.edge (d + 1) ≤ t) :
    S.worked d (n + 1) s t =
      S.overlap d s (S.edge (d + 1)) + S.worked (d + 1) n (S.edge (d + 1)) t := by
  rw [worked_succ, overlap_add d hs ht, overlap_after le_rfl, add_zero, worked_edge hs]

theorem worked_today {d s t : ℤ} (n : ℕ) (ht : t ≤ S.edge (d + 1)) :
    S.worked d (n + 1) s t = S.overlap d s t := by
  rw [worked_succ, worked_before ht, add_zero]

/-- The rest of the day is spent and the amount is not used up. -/
theorem First.later {d s r x : ℤ} {n : ℕ} (hs : s < S.edge (d + 1))
    (hr : S.overlap d s (S.edge (d + 1)) < r)
    (h : First S (d + 1) n (S.edge (d + 1)) (r - S.overlap d s (S.edge (d + 1))) x) :
    First S d (n + 1) s r x := by
  have hwithin : x ≤ S.edge (d + (n + 1 : ℕ)) := by
    have := h.within
    rwa [add_right_comm, add_assoc, ← Nat.cast_succ] at this
  refine ⟨hs.trans h.lt, hwithin, ?_, fun t hst htx => ?_⟩
  · rw [worked_day n hs.le h.lt.le, h.worked]
    omega
  · rcases lt_or_ge t (S.edge (d + 1)) with ht | ht
    · have hsplit : S.overlap d s (S.edge (d + 1)) =
          S.overlap d s t + S.overlap d t (S.edge (d + 1)) := overlap_add d hst ht.le
      have hrest : 0 ≤ S.overlap d t (S.edge (d + 1)) := overlap_nonneg _ _ _
      rw [worked_today n ht.le]
      omega
    · have := h.least t ht htx
      rw [worked_day n hs.le ht]
      omega

/-- The amount is used up in the day. -/
theorem First.today {d s r : ℤ} {w : Window} (n : ℕ) (hw : S.window d = some w) (hr : 0 < r)
    (hle : r ≤ w.stop - max s w.start) :
    First S d (n + 1) s r (max s w.start + r) := by
  have hstop := S.stop_le d w hw
  have hedge : S.edge (d + 1) ≤ S.edge (d + (n + 1 : ℕ)) := edge_mono (by omega)
  refine ⟨by omega, by omega, ?_, fun t hst ht => ?_⟩
  · rw [worked_today n (by omega), overlap, hw, Option.elim_some]
    omega
  · rw [worked_today n (by omega), overlap, hw, Option.elim_some]
    omega

end Schedule

end Prgd.OpenHours
