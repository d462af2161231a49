import Prgd.WorkLogs
import Mathlib.Data.List.Sort
import Mathlib.Order.Interval.Finset.Nat

/-!
# The billable fraction of a month

`billableFraction` sorts the suspensions by their start and walks over them with a
cursor. What comes out is a measure: the milliseconds of the period in which the
contract was active and not suspended, divided by those of the period. Times are
milliseconds, so the length of a half-open interval is the number of its points; the
quotient is kept exact.
-/
namespace Prgd.Proration
open WorkLogs

/-! ## Points of spans -/

/-- A point lies in one of the half-open spans. -/
def Covered (spans : List (ℕ × ℕ)) (t : ℕ) : Prop := ∃ s ∈ spans, s.1 ≤ t ∧ t < s.2

instance (spans : List (ℕ × ℕ)) : DecidablePred (Covered spans) := fun t => by
  unfold Covered
  infer_instance

theorem covered_cons (s : ℕ × ℕ) (spans : List (ℕ × ℕ)) (t : ℕ) :
    Covered (s :: spans) t ↔ (s.1 ≤ t ∧ t < s.2) ∨ Covered spans t := by
  simp [Covered]

theorem Covered.from_le {spans : List (ℕ × ℕ)} {t low : ℕ} (h : Covered spans t)
    (hlow : ∀ s ∈ spans, low ≤ s.1) : low ≤ t := by
  obtain ⟨s, hs, hle, -⟩ := h
  exact le_trans (hlow s hs) hle

/-- The points from `first` up to `last` that the spans cover. -/
def coveredIn (spans : List (ℕ × ℕ)) (first last : ℕ) : Finset ℕ :=
  (Finset.Ico first last).filter (Covered spans)

theorem coveredIn_nil (first last : ℕ) : coveredIn [] first last = ∅ := by
  simp [coveredIn, Finset.filter_eq_empty_iff, Covered]

/-- A span behind the cursor adds nothing. -/
theorem coveredIn_behind {s : ℕ × ℕ} {spans : List (ℕ × ℕ)} {cursor last : ℕ}
    (h : s.2 ≤ max s.1 cursor) : coveredIn (s :: spans) cursor last = coveredIn spans cursor last := by
  apply Finset.filter_congr
  intro t ht
  have hcursor := (Finset.mem_Ico.mp ht).1
  rw [covered_cons, or_iff_right]
  omega

/-- A span that reaches past the cursor adds its part after the cursor, and the
points behind its end remain: the spans that follow start no earlier. -/
theorem card_coveredIn_ahead {s : ℕ × ℕ} {spans : List (ℕ × ℕ)} {cursor last : ℕ}
    (hahead : max s.1 cursor < s.2) (hlast : s.2 ≤ last) (hsorted : ∀ c ∈ spans, s.1 ≤ c.1) :
    (coveredIn (s :: spans) cursor last).card =
      (s.2 - max s.1 cursor) + (coveredIn spans s.2 last).card := by
  have hsplit : coveredIn (s :: spans) cursor last =
      Finset.Ico (max s.1 cursor) s.2 ∪ coveredIn spans s.2 last := by
    ext t
    simp only [coveredIn, Finset.mem_filter, Finset.mem_union, Finset.mem_Ico, covered_cons]
    constructor
    · rintro ⟨⟨hfrom, hto⟩, hs | hspans⟩
      · left
        omega
      · have hle := hspans.from_le hsorted
        by_cases ht : t < s.2
        · left
          omega
        · right
          exact ⟨⟨by omega, hto⟩, hspans⟩
    · rintro (⟨hfrom, hto⟩ | ⟨⟨hfrom, hto⟩, hspans⟩)
      · exact ⟨⟨by omega, by omega⟩, .inl ⟨by omega, hto⟩⟩
      · exact ⟨⟨by omega, hto⟩, .inr hspans⟩
  have hdisjoint : Disjoint (Finset.Ico (max s.1 cursor) s.2) (coveredIn spans s.2 last) := by
    rw [Finset.disjoint_left]
    intro t ht hrest
    have hlt := (Finset.mem_Ico.mp ht).2
    have hge := (Finset.mem_Ico.mp (Finset.mem_filter.mp hrest).1).1
    omega
  rw [hsplit, Finset.card_union_of_disjoint hdisjoint, Nat.card_Ico]

/-! ## The walk over the sorted cuts -/

/-- What the walk takes off is the number of covered points from the cursor on. -/
theorem foldl_cut {cuts : List (ℕ × ℕ)} {last : ℕ} (hsorted : cuts.Pairwise fun a b => a.1 ≤ b.1)
    (hlast : ∀ c ∈ cuts, c.2 ≤ last) (billed : ℤ) (cursor : ℕ) :
    (cuts.foldl cut (billed, cursor)).1 = billed - (coveredIn cuts cursor last).card := by
  induction cuts generalizing billed cursor with
  | nil => simp [coveredIn_nil]
  | cons c cuts ih =>
    rw [List.pairwise_cons] at hsorted
    have htail := ih hsorted.2 fun d hd => hlast d (List.mem_cons_of_mem c hd)
    rw [List.foldl_cons, cut]
    dsimp only
    split_ifs with hahead
    · have hcard := card_coveredIn_ahead hahead (hlast c (by simp)) hsorted.1
      rw [htail, hcard, Nat.cast_add, Nat.cast_sub hahead.le]
      ring
    · rw [htail, coveredIn_behind (by omega)]

/-! ## The measure -/

/-- The contract was suspended at `t`. A suspension without an end lasts. -/
def Suspended (suspensions : List (ℕ × Option ℕ)) (t : ℕ) : Prop :=
  ∃ s ∈ suspensions, s.1 ≤ t ∧ ∀ stop ∈ s.2, t < stop

instance (suspensions : List (ℕ × Option ℕ)) : DecidablePred (Suspended suspensions) := fun t => by
  unfold Suspended
  infer_instance

/-- The milliseconds of the period in which the contract was active and not suspended. -/
def billable (start stop activatedAt : ℕ) (cancelledAt : Option ℕ)
    (suspensions : List (ℕ × Option ℕ)) : Finset ℕ :=
  (Finset.Ico start stop).filter fun t =>
    (activatedAt ≤ t ∧ ∀ last ∈ cancelledAt, t < last) ∧ ¬ Suspended suspensions t

/-- The suspensions, clipped to the active part of the period and sorted. -/
def cuts (first last stop : ℕ) (suspensions : List (ℕ × Option ℕ)) : List (ℕ × ℕ) :=
  ((suspensions.map fun s => (max first s.1, min last (s.2.getD stop))).filter
    fun s => s.1 < s.2).mergeSort fun a b => a.1 ≤ b.1

theorem cuts_sorted (first last stop : ℕ) (suspensions : List (ℕ × Option ℕ)) :
    (cuts first last stop suspensions).Pairwise fun a b => a.1 ≤ b.1 := by
  have hsorted := @List.pairwise_mergeSort (ℕ × ℕ) (fun a b => decide (a.1 ≤ b.1))
    (fun a b c hab hbc => by simp only [decide_eq_true_eq] at *; omega)
    (fun a b => by simp only [Bool.or_eq_true, decide_eq_true_eq]; omega)
    ((suspensions.map fun s => (max first s.1, min last (s.2.getD stop))).filter
      fun s => s.1 < s.2)
  simpa [cuts] using hsorted

theorem mem_cuts {first last stop : ℕ} {suspensions : List (ℕ × Option ℕ)} {c : ℕ × ℕ} :
    c ∈ cuts first last stop suspensions ↔ c.1 < c.2 ∧
      ∃ s ∈ suspensions, c = (max first s.1, min last (s.2.getD stop)) := by
  rw [cuts, List.mem_mergeSort, List.mem_filter, List.mem_map, decide_eq_true_eq, and_comm]
  simp only [eq_comm]

/-- Clipping keeps what a suspension covers of the active part. -/
theorem covered_cuts {first last stop t : ℕ} (suspensions : List (ℕ × Option ℕ))
    (hlast : last ≤ stop) (hfirst : first ≤ t) (ht : t < last) :
    Covered (cuts first last stop suspensions) t ↔ Suspended suspensions t := by
  constructor
  · rintro ⟨c, hc, hfrom, hto⟩
    obtain ⟨-, s, hs, rfl⟩ := mem_cuts.mp hc
    refine ⟨s, hs, by omega, ?_⟩
    intro e he
    rw [Option.mem_def] at he
    simp only [he, Option.getD_some] at hto
    omega
  · rintro ⟨s, hs, hfrom, hto⟩
    have hend : t < s.2.getD stop := by
      cases he : s.2 with
      | none => exact lt_of_lt_of_le ht hlast
      | some e => exact hto e he
    have hin : max first s.1 ≤ t ∧ t < min last (s.2.getD stop) := by omega
    exact ⟨_, mem_cuts.mpr ⟨lt_of_le_of_lt hin.1 hin.2, s, hs, rfl⟩, hin⟩

/-- What the walk leaves of the active part of the period. -/
theorem walk_eq {first last stop : ℕ} (suspensions : List (ℕ × Option ℕ)) (hlast : last ≤ stop)
    (hle : first ≤ last) :
    ((cuts first last stop suspensions).foldl cut ((last : ℤ) - first, first)).1 =
      ((Finset.Ico first last).filter fun t => ¬ Suspended suspensions t).card := by
  have hends : ∀ c ∈ cuts first last stop suspensions, c.2 ≤ last := by
    intro c hc
    obtain ⟨-, s, -, rfl⟩ := mem_cuts.mp hc
    exact min_le_left _ _
  have hcovered : coveredIn (cuts first last stop suspensions) first last =
      (Finset.Ico first last).filter (Suspended suspensions) := by
    apply Finset.filter_congr
    intro t ht
    rw [Finset.mem_Ico] at ht
    exact covered_cuts suspensions hlast ht.1 ht.2
  have hcount := Finset.card_filter_add_card_filter_not (s := Finset.Ico first last)
    (Suspended suspensions)
  rw [Nat.card_Ico] at hcount
  rw [foldl_cut (cuts_sorted first last stop suspensions) hends, hcovered]
  omega

theorem billable_eq (start stop activatedAt : ℕ) (cancelledAt : Option ℕ)
    (suspensions : List (ℕ × Option ℕ)) :
    billable start stop activatedAt cancelledAt suspensions =
      (Finset.Ico (max start activatedAt) (min stop (cancelledAt.getD stop))).filter
        fun t => ¬ Suspended suspensions t := by
  have hactive : ∀ t, (start ≤ t ∧ t < stop) ∧ activatedAt ≤ t ∧ (∀ last ∈ cancelledAt, t < last) ↔
      max start activatedAt ≤ t ∧ t < min stop (cancelledAt.getD stop) := by
    intro t
    cases cancelledAt with
    | none =>
      simp only [Option.mem_def, reduceCtorEq, false_implies, implies_true, and_true,
        Option.getD_none]
      omega
    | some last =>
      simp only [Option.mem_def, Option.some.injEq, forall_eq', Option.getD_some]
      omega
  ext t
  simp only [billable, Finset.mem_filter, Finset.mem_Ico, ← and_assoc, ← hactive]

/-- The fraction is the length of what is billable over the length of the period. -/
theorem billableFraction_eq (start stop activatedAt : ℕ) (cancelledAt : Option ℕ)
    (suspensions : List (ℕ × Option ℕ)) :
    billableFraction start stop activatedAt cancelledAt suspensions =
      (billable start stop activatedAt cancelledAt suspensions).card / ((stop : ℚ) - start) := by
  rw [billable_eq]
  unfold billableFraction
  dsimp only
  split_ifs with hempty
  · rw [Finset.Ico_eq_empty (not_lt.mpr hempty)]
    simp
  · have hwalk := walk_eq suspensions (min_le_left stop (cancelledAt.getD stop))
      (le_of_lt (not_le.mp hempty))
    rw [cuts] at hwalk
    rw [hwalk, max_eq_right (Int.natCast_nonneg _)]
    push_cast
    rfl

/-! ## Lists that suspend the same time -/

theorem suspended_perm {suspensions other : List (ℕ × Option ℕ)} (h : other.Perm suspensions)
    (t : ℕ) : Suspended other t ↔ Suspended suspensions t := by
  simp only [Suspended, h.mem_iff]

theorem suspended_cons (s : ℕ × Option ℕ) (suspensions : List (ℕ × Option ℕ)) (t : ℕ) :
    Suspended (s :: suspensions) t ↔
      (s.1 ≤ t ∧ ∀ stop ∈ s.2, t < stop) ∨ Suspended suspensions t := by
  simp [Suspended]

/-- A suspension may be split at any moment in it. -/
theorem suspended_split {s : ℕ × Option ℕ} {middle : ℕ} (suspensions : List (ℕ × Option ℕ))
    (hfrom : s.1 ≤ middle) (hto : ∀ stop ∈ s.2, middle ≤ stop) (t : ℕ) :
    Suspended ((s.1, some middle) :: (middle, s.2) :: suspensions) t ↔
      Suspended (s :: suspensions) t := by
  simp only [suspended_cons, ← or_assoc]
  apply or_congr_left
  constructor
  · rintro (⟨hle, hlt⟩ | ⟨hle, hlt⟩)
    · exact ⟨hle, fun stop hstop => lt_of_lt_of_le (hlt middle rfl) (hto stop hstop)⟩
    · exact ⟨le_trans hfrom hle, hlt⟩
  · rintro ⟨hle, hlt⟩
    by_cases ht : t < middle
    · left
      simpa using ⟨hle, ht⟩
    · right
      exact ⟨by omega, hlt⟩

/-- Of the suspensions only the time that they cover counts. -/
theorem billable_congr (start stop activatedAt : ℕ) (cancelledAt : Option ℕ)
    {suspensions other : List (ℕ × Option ℕ)}
    (h : ∀ t, Suspended other t ↔ Suspended suspensions t) :
    billable start stop activatedAt cancelledAt other =
      billable start stop activatedAt cancelledAt suspensions := by
  simp only [billable, h]

/-- `billableFraction` is the length of the period's active part without the suspensions over
the length of the period. It lies between 0 and 1, and only the time that the
suspensions cover counts: not their order, not how they are split, not repetitions. -/
theorem billableFraction_measures (start stop activatedAt : ℕ) (cancelledAt : Option ℕ)
    (suspensions : List (ℕ × Option ℕ)) (h : start < stop) :
    let fraction := billableFraction start stop activatedAt cancelledAt
    fraction suspensions = (((Finset.Ico start stop).filter fun t =>
        (activatedAt ≤ t ∧ ∀ last ∈ cancelledAt, t < last) ∧
          ¬ ∃ s ∈ suspensions, s.1 ≤ t ∧ ∀ last ∈ s.2, t < last).card : ℚ) / (stop - start : ℕ) ∧
      0 ≤ fraction suspensions ∧ fraction suspensions ≤ 1 ∧
      (∀ other, other.Perm suspensions → fraction other = fraction suspensions) ∧
      (∀ s middle rest, s.1 ≤ middle → (∀ last ∈ s.2, middle ≤ last) →
        suspensions.Perm (s :: rest) →
        fraction ((s.1, some middle) :: (middle, s.2) :: rest) = fraction suspensions) ∧
      (∀ s ∈ suspensions, fraction (s :: suspensions) = fraction suspensions) ∧
      ∀ other, (∀ t, Suspended other t ↔ Suspended suspensions t) →
        fraction other = fraction suspensions := by
  intro fraction
  have heq : ∀ list, fraction list =
      ((billable start stop activatedAt cancelledAt list).card : ℚ) / (stop - start : ℕ) := by
    intro list
    rw [Nat.cast_sub h.le]
    exact billableFraction_eq start stop activatedAt cancelledAt list
  have hcongr : ∀ {list other}, (∀ t, Suspended other t ↔ Suspended list t) →
      fraction other = fraction list := by
    intro list other hsame
    rw [heq, heq, billable_congr start stop activatedAt cancelledAt hsame]
  have hpos : (0 : ℚ) < (stop - start : ℕ) := by
    exact_mod_cast Nat.sub_pos_of_lt h
  have hcard : (billable start stop activatedAt cancelledAt suspensions).card ≤ stop - start := by
    rw [← Nat.card_Ico]
    exact Finset.card_filter_le _ _
  refine ⟨heq suspensions, ?_, ?_, fun other hperm => hcongr (suspended_perm hperm), ?_, ?_,
    fun other hsame => hcongr hsame⟩
  · rw [heq]
    exact div_nonneg (Nat.cast_nonneg _) hpos.le
  · rw [heq, div_le_one hpos]
    exact_mod_cast hcard
  · intro s middle rest hfrom hto hperm
    apply hcongr
    intro t
    rw [suspended_split rest hfrom hto, suspended_perm hperm]
  · intro s hs
    apply hcongr
    intro t
    rw [suspended_cons, or_iff_right_iff_imp]
    exact fun hin => ⟨s, hs, hin⟩

/-- A month of thirty-one units with an open suspension nested behind two overlapping ones. -/
theorem billableFraction_measures_overlap :
    (0 < 31) ∧ billableFraction 0 31 4 none [(20, none), (6, some 12), (10, some 15), (21, some 23)] =
      7 / 31 := by
  have h := (billableFraction_measures 0 31 4 none
    [(20, none), (6, some 12), (10, some 15), (21, some 23)] (by decide)).1
  refine ⟨by decide, ?_⟩
  rw [h]
  norm_num
  decide

end Prgd.Proration
