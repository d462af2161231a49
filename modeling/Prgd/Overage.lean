import Prgd.Rating
import Mathlib.Algebra.BigOperators.Intervals
import Mathlib.Algebra.Order.BigOperators.Group.List
import Mathlib.Algebra.Order.Floor.Ring
import Mathlib.Algebra.Order.Ring.Rat

/-!
# Transfer beyond the included volume

The usage events and the rated hours of one server, which keeps its size and its price per GB. The
charge of an hour is the overage cost of the month with the hour less the overage cost before it,
and each of the two is rounded.

Where no usage comes in for an hour that is rated, or for one before it, and where an hour is rated
after the earlier hours of its month, the charges up to any hour add up to the rounded overage cost
of the bytes up to it. Rating an hour again then changes nothing.

Prices, volumes and byte counts are exact rationals here. Each operation of `rateBandwidth` takes
the rounding of its result as a parameter, so that the binary64 of `Rating` is the same definition.
-/
namespace Prgd.Overage
open Calendar Interleaving Rating JsNumber

/-! ## The charge of one hour -/

def costBy (rnd : ℚ → ℚ) (i : TransferInput) (total : ℚ) : ℤ :=
  mathRound (rnd (rnd (max 0 (rnd (total - i.includedBytes)) / 10 ^ 9) * i.perGbMinor))

def rateBandwidthBy (rnd : ℚ → ℚ) (i : TransferInput) : ℤ :=
  costBy rnd i (rnd (i.prior + i.bytes)) - costBy rnd i i.prior

/-- The size and the price of the server, in minor units of the team's currency. -/
structure Plan where
  transferTb : Option ℚ≥0
  perGbMinor : ℚ≥0

def Plan.input (p : Plan) (prior bytes : ℚ) : TransferInput where
  includedBytes := (p.transferTb.getD 0 : ℚ≥0) * 10 ^ 12
  prior := prior
  bytes := bytes
  perGbMinor := p.perGbMinor

/-- The rounded overage cost of some bytes. -/
def Plan.cost (p : Plan) (total : ℚ) : ℤ := costBy id (p.input 0 0) total

theorem mathRound_mono : Monotone mathRound := fun _ _ h =>
  Int.floor_mono (add_le_add_left h _)

theorem Plan.cost_eq (p : Plan) (total : ℚ) : p.cost total =
    mathRound (max 0 (total - (p.transferTb.getD 0 : ℚ≥0) * 10 ^ 12) / 10 ^ 9 * p.perGbMinor) := rfl

theorem Plan.cost_mono (p : Plan) : Monotone p.cost := by
  intro a b h
  rw [p.cost_eq, p.cost_eq]
  have hprice : (0 : ℚ) ≤ p.perGbMinor := p.perGbMinor.coe_nonneg
  apply mathRound_mono
  gcongr

theorem Plan.cost_zero (p : Plan) : p.cost 0 = 0 := by
  have hincluded : (0 : ℚ) ≤ (p.transferTb.getD 0 : ℚ≥0) * 10 ^ 12 :=
    mul_nonneg (p.transferTb.getD 0).coe_nonneg (by norm_num)
  rw [p.cost_eq, max_eq_left (by linarith), zero_div, zero_mul]
  change ⌊(0 : ℚ) + 1 / 2⌋ = 0
  norm_num

/-! ## The hours of the server -/

structure Usage where
  atTime : ℕ
  bytes : ℚ≥0

structure Charge where
  quantity : ℚ
  amountMinor : ℤ

structure World where
  events : List Usage := []
  /-- Under the unique index on the resource and the hour. -/
  records : ℕ → Option Charge := fun _ => none

inductive Act where
  | ingest (u : Usage)
  | rollupHour (hour : ℕ)

/-- The quantity of the hour's group. -/
def bytesIn (events : List Usage) (hour : ℕ) : ℚ :=
  ((events.filter fun u => hourOf u.atTime = hour).map fun u => (u.bytes : ℚ)).sum

/-- The hour has a group. -/
def HasUsage (events : List Usage) (hour : ℕ) : Prop := ∃ u ∈ events, hourOf u.atTime = hour

instance (events : List Usage) (hour : ℕ) : Decidable (HasUsage events hour) :=
  inferInstanceAs (Decidable (∃ u ∈ events, hourOf u.atTime = hour))

/-- The aggregate over the earlier hours of the month. -/
def transferredBefore (records : ℕ → Option Charge) (hour : ℕ) : ℚ :=
  ∑ k ∈ Finset.Ico (startOfMonth hour) hour, (records k).elim 0 Charge.quantity

def rated (p : Plan) (w : World) (hour : ℕ) : Charge where
  quantity := bytesIn w.events hour
  amountMinor :=
    rateBandwidthBy id (p.input (transferredBefore w.records hour) (bytesIn w.events hour))

def rollupHour (p : Plan) (w : World) (hour : ℕ) : World :=
  if HasUsage w.events hour then
    { w with records := Function.update w.records hour (some (rated p w hour)) }
  else w

def step (p : Plan) (w : World) : Act → World
  | .ingest u => { w with events := w.events ++ [u] }
  | .rollupHour hour => rollupHour p w hour

/-- The hours of the month of `last` up to it. -/
def Within (last hour : ℕ) : Prop := startOfMonth last ≤ hour ∧ hour ≤ last

/-- No usage comes in for an hour that is rated or for one before it, and an hour is rated after the
earlier hours of its month that have usage. -/
def InOrder (last : ℕ) (w : World) : Act → Prop
  | .ingest u => Within last (hourOf u.atTime) →
      ∀ k, hourOf u.atTime ≤ k → k ≤ last → w.records k = none
  | .rollupHour hour => Within last hour →
      ∀ k, Within last k → k < hour → HasUsage w.events k → (w.records k).isSome

/-- What an hour is charged. -/
def World.amount (w : World) (hour : ℕ) : ℤ := (w.records hour).elim 0 Charge.amountMinor

/-- The bytes of the month up to an hour, which it counts in. -/
def World.transferred (w : World) (last : ℕ) : ℚ :=
  ((w.events.filter fun u => startOfMonth last ≤ hourOf u.atTime ∧ hourOf u.atTime ≤ last).map
    fun u => (u.bytes : ℚ)).sum

/-! ## Bytes of an hour and of the hours before it -/

/-- The bytes from the start of the month to an hour. -/
def upTo (events : List Usage) (first hour : ℕ) : ℚ :=
  ∑ k ∈ Finset.Ico first hour, bytesIn events k

theorem bytesIn_nonneg (events : List Usage) (hour : ℕ) : 0 ≤ bytesIn events hour := by
  refine List.sum_nonneg fun q hq => ?_
  obtain ⟨u, -, rfl⟩ := List.mem_map.mp hq
  exact u.bytes.coe_nonneg

theorem bytesIn_eq_zero {events : List Usage} {hour : ℕ} (h : ¬ HasUsage events hour) :
    bytesIn events hour = 0 := by
  have hnone : (events.filter fun u => hourOf u.atTime = hour) = [] :=
    List.filter_eq_nil_iff.mpr fun u hu heq => h ⟨u, hu, of_decide_eq_true heq⟩
  rw [bytesIn, hnone]
  rfl

theorem bytesIn_concat (events : List Usage) (u : Usage) (hour : ℕ) :
    bytesIn (events ++ [u]) hour =
      bytesIn events hour + if hourOf u.atTime = hour then (u.bytes : ℚ) else 0 := by
  rw [bytesIn, List.filter_append, List.map_append, List.sum_append, List.filter_singleton]
  split_ifs with h
  · simp [bytesIn, h]
  · simp [bytesIn, h]

theorem upTo_succ {events : List Usage} {first hour : ℕ} (h : first ≤ hour) :
    upTo events first (hour + 1) = upTo events first hour + bytesIn events hour :=
  Finset.sum_Ico_succ_top h _

theorem upTo_self (events : List Usage) (first : ℕ) : upTo events first first = 0 := by
  rw [upTo, Finset.Ico_self, Finset.sum_empty]

/-- The bytes up to an hour, counted event by event. -/
theorem transferred_eq (w : World) (last : ℕ) :
    w.transferred last = upTo w.events (startOfMonth last) (last + 1) := by
  obtain ⟨events, records⟩ := w
  rw [World.transferred]
  induction events using List.reverseRecOn with
  | nil => simp [upTo, bytesIn]
  | append_singleton events u ih =>
    have hsum : upTo (events ++ [u]) (startOfMonth last) (last + 1) =
        upTo events (startOfMonth last) (last + 1) +
          if startOfMonth last ≤ hourOf u.atTime ∧ hourOf u.atTime ≤ last then (u.bytes : ℚ)
          else 0 := by
      simp only [upTo, bytesIn_concat, Finset.sum_add_distrib, Finset.sum_ite_eq, Finset.mem_Ico,
        Nat.lt_succ_iff]
    rw [hsum, ← ih, List.filter_append, List.map_append, List.sum_append, List.filter_singleton]
    split_ifs with h
    · simp [h]
    · simp [h]

/-! ## In order -/

/-- The record of an hour has the bytes of its events and the charge that they make, and the
earlier hours are rated. -/
structure Settled (p : Plan) (last : ℕ) (w : World) (hour : ℕ) (c : Charge) : Prop where
  quantity : c.quantity = bytesIn w.events hour
  amount : c.amountMinor = p.cost (upTo w.events (startOfMonth last) (hour + 1)) -
    p.cost (upTo w.events (startOfMonth last) hour)
  earlier : ∀ k, Within last k → k < hour → HasUsage w.events k → (w.records k).isSome

def Ledger (p : Plan) (last : ℕ) (w : World) : Prop :=
  ∀ hour c, Within last hour → w.records hour = some c → Settled p last w hour c

theorem startOfMonth_within {last hour : ℕ} (h : Within last hour) :
    startOfMonth hour = startOfMonth last := by
  rw [startOfMonth, monthOf_eq_of_le h.1 h.2]
  rfl

/-- What the aggregate finds is what the events of the earlier hours bring. -/
theorem transferredBefore_eq {p : Plan} {last : ℕ} {w : World} (h : Ledger p last w) {hour : ℕ}
    (hwithin : Within last hour)
    (hearlier : ∀ k, Within last k → k < hour → HasUsage w.events k → (w.records k).isSome) :
    transferredBefore w.records hour = upTo w.events (startOfMonth last) hour := by
  rw [transferredBefore, startOfMonth_within hwithin, upTo]
  refine Finset.sum_congr rfl fun k hk => ?_
  rw [Finset.mem_Ico] at hk
  have hk' : Within last k := ⟨hk.1, hk.2.le.trans hwithin.2⟩
  cases hrecord : w.records k with
  | some c => exact (h k c hk' hrecord).quantity
  | none =>
    refine (bytesIn_eq_zero fun husage => ?_).symm
    have hsome := hearlier k hk' hk.2 husage
    rw [hrecord] at hsome
    cases hsome

theorem settled_rated {p : Plan} {last : ℕ} {w : World} (h : Ledger p last w) {hour : ℕ}
    (hwithin : Within last hour)
    (hearlier : ∀ k, Within last k → k < hour → HasUsage w.events k → (w.records k).isSome) :
    Settled p last w hour (rated p w hour) where
  quantity := rfl
  amount := by
    rw [upTo_succ hwithin.1, ← transferredBefore_eq h hwithin hearlier]
    rfl
  earlier := hearlier

/-- A charge is settled by its hour alone. -/
theorem Settled.unique {p : Plan} {last : ℕ} {w : World} {hour : ℕ} {c d : Charge}
    (hc : Settled p last w hour c) (hd : Settled p last w hour d) : c = d := by
  obtain ⟨quantity, amountMinor⟩ := c
  obtain ⟨quantity', amountMinor'⟩ := d
  exact congrArg₂ Charge.mk (hc.quantity.trans hd.quantity.symm) (hc.amount.trans hd.amount.symm)

theorem upTo_concat {events : List Usage} {u : Usage} {first hour : ℕ}
    (h : first ≤ hourOf u.atTime → hour ≤ hourOf u.atTime) :
    upTo (events ++ [u]) first hour = upTo events first hour := by
  refine Finset.sum_congr rfl fun k hk => ?_
  rw [Finset.mem_Ico] at hk
  rw [bytesIn_concat, if_neg fun heq => ?_, add_zero]
  have := h (heq ▸ hk.1)
  omega

theorem Settled.ingest {p : Plan} {last : ℕ} {w : World} {hour : ℕ} {c : Charge}
    (h : Settled p last w hour c) (hwithin : Within last hour) {u : Usage}
    (hu : Within last (hourOf u.atTime) → hour < hourOf u.atTime) :
    Settled p last { w with events := w.events ++ [u] } hour c := by
  have hlate : startOfMonth last ≤ hourOf u.atTime → hour < hourOf u.atTime := fun hfirst => by
    by_cases hlast : hourOf u.atTime ≤ last
    · exact hu ⟨hfirst, hlast⟩
    · exact lt_of_le_of_lt hwithin.2 (not_le.mp hlast)
  refine ⟨?_, ?_, fun k hk hlt husage => ?_⟩
  · have hne : hourOf u.atTime ≠ hour := fun heq => (hlate (heq ▸ hwithin.1)).ne' heq
    rw [h.quantity, bytesIn_concat, if_neg hne, add_zero]
  · rw [upTo_concat hlate, upTo_concat fun hfirst => (hlate hfirst).le]
    exact h.amount
  · obtain ⟨v, hv, hvk⟩ := husage
    rcases List.mem_append.mp hv with hv | hv
    · exact h.earlier k hk hlt ⟨v, hv, hvk⟩
    · rw [List.mem_singleton.mp hv] at hvk
      have := hlate (hvk ▸ hk.1)
      omega

theorem ledger_ingest {p : Plan} {last : ℕ} {w : World} (h : Ledger p last w) {u : Usage}
    (hu : InOrder last w (.ingest u)) : Ledger p last (step p w (.ingest u)) := by
  intro hour c hwithin hrecord
  refine (h hour c hwithin hrecord).ingest hwithin fun huwithin => ?_
  by_contra hle
  have hnone := hu huwithin hour (not_lt.mp hle) hwithin.2
  exact Option.some_ne_none c (hrecord.symm.trans hnone)

theorem isSome_update {records : ℕ → Option Charge} {k : ℕ} (h : (records k).isSome) (hour : ℕ)
    (c : Charge) : (Function.update records hour (some c) k).isSome := by
  rw [Function.update_apply]
  split_ifs
  · rfl
  · exact h

theorem ledger_rollup {p : Plan} {last : ℕ} {w : World} (h : Ledger p last w) {hour : ℕ}
    (hhour : InOrder last w (.rollupHour hour)) : Ledger p last (step p w (.rollupHour hour)) := by
  rw [step, rollupHour]
  split_ifs with husage
  · intro k c hk hrecord
    have hsettled : Settled p last w k c := by
      dsimp only at hrecord
      by_cases heq : k = hour
      · subst heq
        rw [Function.update_self] at hrecord
        cases hrecord
        exact settled_rated h hk (hhour hk)
      · rw [Function.update_of_ne heq] at hrecord
        exact h k c hk hrecord
    exact ⟨hsettled.quantity, hsettled.amount, fun j hj hlt hju =>
      isSome_update (hsettled.earlier j hj hlt hju) hour _⟩
  · exact h

theorem ledger_step {p : Plan} {last : ℕ} {w : World} {a : Act} (ha : InOrder last w a)
    (h : Ledger p last w) : Ledger p last (step p w a) := by
  cases a with
  | ingest u => exact ledger_ingest h ha
  | rollupHour hour => exact ledger_rollup h ha

/-- An hour that is rated is charged the same when it is rated again. -/
theorem Ledger.again {p : Plan} {last : ℕ} {w : World} (h : Ledger p last w) {hour : ℕ} {c : Charge}
    (hwithin : Within last hour) (hrecord : w.records hour = some c) :
    step p w (.rollupHour hour) = w := by
  rw [step, rollupHour]
  split_ifs with husage
  · have hsettled := h hour c hwithin hrecord
    have hrated : rated p w hour = c :=
      (settled_rated h hwithin hsettled.earlier).unique hsettled
    rw [hrated, ← hrecord, Function.update_eq_self]
  · rfl

theorem Ledger.nonneg {p : Plan} {last : ℕ} {w : World} (h : Ledger p last w) {hour : ℕ} {c : Charge}
    (hwithin : Within last hour) (hrecord : w.records hour = some c) : 0 ≤ c.amountMinor := by
  rw [(h hour c hwithin hrecord).amount, upTo_succ hwithin.1]
  exact sub_nonneg.mpr (p.cost_mono (le_add_of_nonneg_right (bytesIn_nonneg w.events hour)))

theorem Ledger.amount_eq {p : Plan} {last : ℕ} {w : World} (h : Ledger p last w) {hour : ℕ}
    (hwithin : Within last hour) (hrated : HasUsage w.events hour → (w.records hour).isSome) :
    w.amount hour = p.cost (upTo w.events (startOfMonth last) (hour + 1)) -
      p.cost (upTo w.events (startOfMonth last) hour) := by
  cases hrecord : w.records hour with
  | some c => rw [World.amount, hrecord]; exact (h hour c hwithin hrecord).amount
  | none =>
    have hzero : bytesIn w.events hour = 0 := bytesIn_eq_zero fun husage => by
      have hsome := hrated husage
      rw [hrecord] at hsome
      cases hsome
    rw [upTo_succ hwithin.1, hzero, add_zero, sub_self, World.amount, hrecord]
    rfl

/-- The differences of the running totals add up to the last total. -/
theorem Ledger.sum_eq {p : Plan} {last : ℕ} {w : World} (h : Ledger p last w)
    (hrated : ∀ hour, Within last hour → HasUsage w.events hour → (w.records hour).isSome)
    {hour : ℕ} (hfirst : startOfMonth last ≤ hour) (hlast : hour ≤ last + 1) :
    ∑ k ∈ Finset.Ico (startOfMonth last) hour, w.amount k =
      p.cost (upTo w.events (startOfMonth last) hour) := by
  induction hour, hfirst using Nat.le_induction with
  | base => rw [Finset.Ico_self, Finset.sum_empty, upTo_self, p.cost_zero]
  | succ hour hfirst ih =>
    have hwithin : Within last hour := ⟨hfirst, Nat.le_of_succ_le_succ hlast⟩
    rw [Finset.sum_Ico_succ_top hfirst, ih (by omega), h.amount_eq hwithin (hrated hour hwithin)]
    omega

/-- In every run in order, no charge of the month up to `last` is negative, rating an hour again
changes nothing, and when each hour with usage is rated the charges add up to the rounded overage
cost of the bytes. With the last hour of a month, these are the charges and the bytes of the
month. -/
theorem bandwidth_telescopes (p : Plan) (last : ℕ) (as : List Act)
    (h : Meets (step p) (InOrder last) {} as) :
    (∀ hour c, Within last hour → (run (step p) {} as).records hour = some c →
        0 ≤ c.amountMinor ∧
          step p (run (step p) {} as) (.rollupHour hour) = run (step p) {} as) ∧
      ((∀ hour, Within last hour → HasUsage (run (step p) {} as).events hour →
          ((run (step p) {} as).records hour).isSome) →
        ∑ hour ∈ Finset.Ico (startOfMonth last) (last + 1), (run (step p) {} as).amount hour =
          p.cost ((run (step p) {} as).transferred last)) := by
  have hledger : Ledger p last (run (step p) {} as) :=
    h.invariant (fun _ _ ha hw => ledger_step ha hw) fun hour c _ hrecord => by cases hrecord
  constructor
  · intro hour c hwithin hrecord
    exact ⟨hledger.nonneg hwithin hrecord, hledger.again hwithin hrecord⟩
  · intro hrated
    rw [transferred_eq]
    exact hledger.sum_eq hrated ((startOfMonth_le last).trans (Nat.le_succ last)) le_rfl

/-- One minor unit for each GB, and nothing included. -/
def smallPlan : Plan := ⟨none, 1⟩

/-- Two hours with less than half a GB each. -/
def twoHours : List Act :=
  [.ingest ⟨0, 4 * 10 ^ 8⟩, .rollupHour 0, .ingest ⟨3600000, 4 * 10 ^ 8⟩, .rollupHour 1]

theorem bandwidth_telescopes_twoHours :
    ∑ hour ∈ Finset.Ico 0 2, (run (step smallPlan) {} twoHours).amount hour =
      smallPlan.cost ((run (step smallPlan) {} twoHours).transferred 1) := by
  have hfirst : startOfMonth 1 = 0 := by decide
  have horder : Meets (step smallPlan) (InOrder 1) {} twoHours := by
    refine ⟨fun _ _ _ _ => rfl, fun _ k _ hlt => absurd hlt (Nat.not_lt_zero k), ?_, ?_, trivial⟩
    · intro _ k hk hlast
      have hfrom : 1 ≤ k := hk
      have hk1 : k = 1 := le_antisymm hlast hfrom
      subst hk1
      decide
    · intro _ k _ hlt _
      have hk0 : k = 0 := Nat.lt_one_iff.mp hlt
      subst hk0
      decide
  have hsum := (bandwidth_telescopes smallPlan 1 twoHours horder).2 fun hour hwithin _ => by
    have hcases : hour = 0 ∨ hour = 1 := by
      have := hwithin.2
      omega
    rcases hcases with rfl | rfl
    · decide
    · decide
  rwa [hfirst] at hsum

end Prgd.Overage
