import Mathlib

/-!
# Schedules of atomic steps

A concurrent system is one total step function. An action names the caller
that moves, the step it takes and every answer the outside world gives to it
(the clock, a tool, a person). An action that is not enabled leaves the state
alone, so every list of actions is a schedule and every interleaving of the
callers is one of these lists.

`Meets` restricts a schedule step by step: each action must satisfy a
condition in the state in which it is taken. The two invariant rules are the
only inductions over schedules that the later modules use.
-/
namespace Prgd.Interleaving

variable {σ α : Type*} {step : σ → α → σ} {ok : σ → α → Prop} {I : σ → Prop}

/-- The state after a schedule. -/
def run (step : σ → α → σ) (s : σ) (as : List α) : σ := as.foldl step s

@[simp] theorem run_nil (s : σ) : run step s [] = s := rfl

@[simp] theorem run_cons (s : σ) (a : α) (as : List α) :
    run step s (a :: as) = run step (step s a) as := rfl

theorem run_append (s : σ) (as bs : List α) :
    run step s (as ++ bs) = run step (run step s as) bs := List.foldl_append

/-- The actions of a schedule, each with the state it was taken in. -/
def history (step : σ → α → σ) : σ → List α → List (σ × α)
  | _, [] => []
  | s, a :: as => (s, a) :: history step (step s a) as

@[simp] theorem history_nil (step : σ → α → σ) (s : σ) : history step s [] = [] := rfl

@[simp] theorem history_cons (step : σ → α → σ) (s : σ) (a : α) (as : List α) :
    history step s (a :: as) = (s, a) :: history step (step s a) as := rfl

/-- An invariant of the state and of all that was done before. -/
theorem history_invariant {J : List (σ × α) → σ → Prop}
    (hstep : ∀ h s a, J h s → J (h ++ [(s, a)]) (step s a)) {s : σ} (hs : J [] s) (as : List α) :
    J (history step s as) (run step s as) := by
  have hall : ∀ h s, J h s → J (h ++ history step s as) (run step s as) := by
    induction as with
    | nil =>
      intro h s hs
      simpa using hs
    | cons a as ih =>
      intro h s hs
      simpa using ih (h ++ [(s, a)]) (step s a) (hstep h s a hs)
  exact hall [] s hs

/-- Every action of the schedule satisfies `ok` where it is taken. -/
def Meets (step : σ → α → σ) (ok : σ → α → Prop) : σ → List α → Prop
  | _, [] => True
  | s, a :: as => ok s a ∧ Meets step ok (step s a) as

theorem meets_nil (step : σ → α → σ) (ok : σ → α → Prop) (s : σ) : Meets step ok s [] := trivial

theorem meets_cons {step : σ → α → σ} {ok : σ → α → Prop} {s : σ} {a : α} {as : List α} :
    Meets step ok s (a :: as) ↔ ok s a ∧ Meets step ok (step s a) as := Iff.rfl

instance decidableMeets [∀ s a, Decidable (ok s a)] :
    ∀ (s : σ) (as : List α), Decidable (Meets step ok s as)
  | _, [] => isTrue trivial
  | s, a :: as =>
      haveI := decidableMeets (step s a) as
      inferInstanceAs (Decidable (ok s a ∧ Meets step ok (step s a) as))

theorem meets_append {s : σ} {as bs : List α} :
    Meets step ok s (as ++ bs) ↔ Meets step ok s as ∧ Meets step ok (run step s as) bs := by
  induction as generalizing s with
  | nil => simp [meets_nil]
  | cons a as ih => simp only [List.cons_append, meets_cons, run_cons, ih, and_assoc]

theorem meets_iff_split {s : σ} {as : List α} : Meets step ok s as ↔
    ∀ before a after, as = before ++ a :: after → ok (run step s before) a := by
  induction as generalizing s with
  | nil => simp [meets_nil]
  | cons b as ih =>
    rw [meets_cons, ih]
    constructor
    · rintro ⟨hb, hrest⟩ before a after heq
      cases before with
      | nil =>
        cases heq
        exact hb
      | cons c before =>
        cases heq
        exact hrest before a after rfl
    · intro h
      exact ⟨h [] b as rfl, fun before a after heq => h (b :: before) a after (by rw [heq]; rfl)⟩

theorem Meets.mono {ok' : σ → α → Prop} {s : σ} {as : List α} (h : Meets step ok s as)
    (himp : ∀ s, ∀ a ∈ as, ok s a → ok' s a) : Meets step ok' s as := by
  induction as generalizing s with
  | nil => trivial
  | cons a as ih =>
    exact ⟨himp s a (by simp) h.1, ih h.2 fun s b hb => himp s b (List.mem_cons_of_mem a hb)⟩

theorem Meets.and {ok' : σ → α → Prop} {s : σ} {as : List α} (h : Meets step ok s as)
    (h' : Meets step ok' s as) : Meets step (fun s a => ok s a ∧ ok' s a) s as := by
  induction as generalizing s with
  | nil => trivial
  | cons a as ih => exact ⟨⟨h.1, h'.1⟩, ih h.2 h'.2⟩

/-- An invariant of every step is an invariant of every schedule. -/
theorem run_invariant (hstep : ∀ s a, I s → I (step s a)) {s : σ} (hs : I s)
    (as : List α) : I (run step s as) := by
  induction as generalizing s with
  | nil => exact hs
  | cons a as ih => exact ih (hstep s a hs)

/-- An invariant of the steps that satisfy `ok` holds along every schedule
made of such steps. -/
theorem Meets.invariant (hstep : ∀ s a, ok s a → I s → I (step s a)) {s : σ}
    {as : List α} (h : Meets step ok s as) (hs : I s) : I (run step s as) := by
  induction as generalizing s with
  | nil => exact hs
  | cons a as ih => exact ih h.2 (hstep s a h.1 hs)

/-- What an invariant gives at every step of a schedule. -/
theorem Meets.of_invariant {ok' : σ → α → Prop} (hstep : ∀ s a, ok s a → I s → I (step s a))
    (himp : ∀ s a, ok s a → I s → ok' s a) {s : σ} {as : List α} (h : Meets step ok s as)
    (hs : I s) : Meets step ok' s as := by
  induction as generalizing s with
  | nil => trivial
  | cons a as ih => exact ⟨himp s a h.1 hs, ih h.2 (hstep s a h.1 hs)⟩

/-- Where the steps that keep a fact are exactly the ones that satisfy `ok`, the
fact holds after every prefix of a schedule exactly when the schedule meets `ok`. -/
theorem prefixes_iff_meets {J : σ → Prop} {fit : α → Prop}
    (hJ : ∀ s a, fit a → J s → J (step s a))
    (hI : ∀ s a, fit a → J s → I s → (I (step s a) ↔ ok s a)) {s : σ} {as : List α}
    (hfit : ∀ a ∈ as, fit a) (hs : J s) :
    (∀ k, I (run step s (as.take k))) ↔ I s ∧ Meets step ok s as := by
  induction as generalizing s with
  | nil => simp [meets_nil]
  | cons a as ih =>
    have ha := hfit a (by simp)
    have htail := ih (fun b hb => hfit b (List.mem_cons_of_mem a hb)) (hJ s a ha hs)
    constructor
    · intro h
      have hstart : I s := h 0
      have hrest := htail.mp fun k => h (k + 1)
      exact ⟨hstart, (hI s a ha hs hstart).mp hrest.1, hrest.2⟩
    · intro h k
      cases k with
      | zero => exact h.1
      | succ k => exact htail.mpr ⟨(hI s a ha hs h.1).mpr h.2.1, h.2.2⟩ k

/-! ## Callers over shared data -/

section
variable {Sh Pc Act : Type*}

/-- The shared data and where each caller stands. -/
structure World (Sh Pc : Type*) where
  shared : Sh
  pc : ℕ → Pc

variable {trans : ℕ → Sh → Act → Pc → Option (Sh × Pc)} {w : World Sh Pc}

/-- One caller moves; it sees the shared data and its own place. -/
def callerStep (trans : ℕ → Sh → Act → Pc → Option (Sh × Pc)) (w : World Sh Pc) (a : ℕ × Act) :
    World Sh Pc :=
  match trans a.1 w.shared a.2 (w.pc a.1) with
  | none => w
  | some (s, c) => ⟨s, Function.update w.pc a.1 c⟩

/-- A step does nothing, or moves one caller and nobody else. -/
theorem callerStep_cases (trans : ℕ → Sh → Act → Pc → Option (Sh × Pc)) (w : World Sh Pc)
    (a : ℕ × Act) :
    callerStep trans w a = w ∨ ∃ s c, trans a.1 w.shared a.2 (w.pc a.1) = some (s, c) ∧
      callerStep trans w a = ⟨s, Function.update w.pc a.1 c⟩ := by
  unfold callerStep
  cases h : trans a.1 w.shared a.2 (w.pc a.1) with
  | none => exact .inl rfl
  | some r => exact .inr ⟨r.1, r.2, rfl, rfl⟩

/-- A global fact together with a local fact for each caller is preserved when
the moving caller keeps both and disturbs no other caller. -/
theorem callerStep_invariant {G : Sh → Prop} {L : Sh → ℕ → Pc → Prop} {a : ℕ × Act}
    (hown : ∀ s c, trans a.1 w.shared a.2 (w.pc a.1) = some (s, c) → G s ∧ L s a.1 c)
    (hothers : ∀ s c, trans a.1 w.shared a.2 (w.pc a.1) = some (s, c) →
      ∀ q, q ≠ a.1 → L s q (w.pc q))
    (hG : G w.shared) (hL : ∀ q, L w.shared q (w.pc q)) :
    G (callerStep trans w a).shared ∧
      ∀ q, L (callerStep trans w a).shared q ((callerStep trans w a).pc q) := by
  rcases callerStep_cases trans w a with h | ⟨s, c, h, heq⟩
  · rw [h]
    exact ⟨hG, hL⟩
  · rw [heq]
    refine ⟨(hown s c h).1, fun q => ?_⟩
    by_cases hq : q = a.1
    · subst hq
      simpa using (hown s c h).2
    · simpa [Function.update_of_ne hq] using hothers s c h q hq

/-- Who takes no step of the schedule stays where it was. -/
theorem run_pc_of_notMem (trans : ℕ → Sh → Act → Pc → Option (Sh × Pc)) (w : World Sh Pc)
    {as : List (ℕ × Act)} {q : ℕ} (h : q ∉ as.map Prod.fst) :
    (run (callerStep trans) w as).pc q = w.pc q := by
  induction as generalizing w with
  | nil => rfl
  | cons a as ih =>
    rw [List.map_cons, List.mem_cons, not_or] at h
    rw [run_cons, ih _ h.2]
    rcases callerStep_cases trans w a with heq | ⟨s, c, -, heq⟩
    · rw [heq]
    · rw [heq]
      exact Function.update_of_ne h.1 _ _

/-- Where only the first `n` callers act, a fact about the idle ones is checked on those. -/
theorem forall_pc {trans : ℕ → Sh → Act → Pc → Option (Sh × Pc)} {w : World Sh Pc} {P : Pc → Prop}
    {n : ℕ} {as : List (ℕ × Act)} (has : ∀ a ∈ as, a.1 < n) (hstart : ∀ q, P (w.pc q))
    (hlow : ∀ q < n, P ((run (callerStep trans) w as).pc q)) :
    ∀ q, P ((run (callerStep trans) w as).pc q) := by
  intro q
  by_cases hq : q < n
  · exact hlow q hq
  · rw [run_pc_of_notMem trans w fun hmem => ?_]
    · exact hstart q
    · obtain ⟨a, ha, rfl⟩ := List.mem_map.mp hmem
      exact hq (has a ha)

/-- A fact about the moving caller and the same fact about every other one. -/
theorem update_cases {i : ℕ} {c : Pc} {P : ℕ → Pc → Prop} (hown : P i c)
    (hothers : ∀ q, q ≠ i → P q (w.pc q)) : ∀ q, P q (Function.update w.pc i c q) := by
  intro q
  by_cases hq : q = i
  · subst hq
    simpa using hown
  · simpa [Function.update_of_ne hq] using hothers q hq

/-- Where only the first `n` callers act, the others may be taken to be idle. -/
theorem Meets.of_idle {n : ℕ} {idle : Pc} {ok : World Sh Pc → ℕ × Act → Prop}
    {as : List (ℕ × Act)}
    (h : Meets (callerStep trans) (fun w a => (∀ q, n ≤ q → w.pc q = idle) → ok w a) w as)
    (hw : ∀ q, n ≤ q → w.pc q = idle) (has : ∀ a ∈ as, a.1 < n) :
    Meets (callerStep trans) ok w as := by
  induction as generalizing w with
  | nil => trivial
  | cons a as ih =>
    refine ⟨h.1 hw, ih h.2 ?_ fun b hb => has b (List.mem_cons_of_mem a hb)⟩
    intro q hq
    have hne : q ∉ [a].map Prod.fst := by
      have := has a (by simp)
      simp only [List.map_cons, List.map_nil, List.mem_singleton]
      omega
    have := run_pc_of_notMem trans w hne
    rw [run_cons, run_nil] at this
    rw [this, hw q hq]

end

end Prgd.Interleaving
