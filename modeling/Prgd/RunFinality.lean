import Prgd.RunOrder

/-!
# A finished run stays finished

Of the writers of a run's status only two write without looking at it:
`approveCall`, which puts the run back to `queued` or `waiting_approval`, and
`denyCall`, which fails it. Both read `waiting_approval` first, under the run
lock; `cancel` and `failExpiredApprovals` do not take the lock and can end the
run between that read and the write. A cancelled run is then queued and
executed again.

The module proves that this is the only way: when no write of `cancel` or
`failExpiredApprovals` lands between such a read and its write, a terminal
status never changes again.
-/
namespace Prgd.RunFinality
open Interleaving Workflow Checkpoint RunMachine RunOrder

/-- `cancel` and `failExpiredApprovals` do not write while an approval or a
denial stands between its read of the waiting run and its own write. -/
def Undisturbed (w : RunWorld) (a : ℕ × Act) : Prop :=
  a.2.stops (w.pc a.1) → ∀ q, (w.pc q).engaged = false

/-- Who is about to write a run it found waiting still finds it waiting. -/
def StillWaiting (w : RunWorld) : Prop :=
  ∀ q, (w.pc q).engaged → w.shared.status = .waitingApproval

theorem engaged_of_decide {p : ℕ} {s s' : Shared} {a : Act} {c c' : Pc}
    (h : decideStep p s a c = some (s', c')) (he : c'.engaged) :
    s'.status = s.status ∧ (s.status = .waitingApproval ∨ c.engaged) := by
  unfold decideStep at h
  split at h
  case h_7 a =>
    cases h
    refine ⟨rfl, .inl (by_contra fun hne => ?_)⟩
    simp [readForApproval, hne, Pc.engaged] at he
  case h_8 =>
    cases h
    refine ⟨rfl, .inl (by_contra fun hne => ?_)⟩
    simp [hne, Pc.engaged] at he
  case h_9 | h_11 =>
    cases h
    exact ⟨rfl, .inr rfl⟩
  case h_15 r =>
    cases h
    cases r <;> simp [afterRelease, Pc.engaged] at he
  case h_17 => simp at h
  all_goals
    try split_ifs at h
    all_goals
      cases h
      simp [Pc.engaged] at he

theorem not_engaged_of_job {s s' : Shared} {a : Act} {c c' : Pc}
    (h : jobStep s a c = some (s', c')) : c'.engaged = false := by
  unfold jobStep at h
  split at h
  case h_4 =>
    cases h
    split_ifs <;> rfl
  case h_7 => simp at h
  all_goals
    try split_ifs at h
    all_goals
      cases h
      rfl

/-- A caller comes to write the run only through a read of a waiting run. -/
theorem engaged_of_move {graph : Graph} {p : ℕ} {s s' : Shared} {a : Act} {c c' : Pc}
    (h : move graph p s a c = some (s', c')) (he : c'.engaged) :
    s'.status = s.status ∧ (s.status = .waitingApproval ∨ c.engaged) := by
  rcases move_cases h with h | h | h
  · rcases executeStep_executing h with rfl | ⟨hx, -⟩
    · simp [Pc.engaged] at he
    · simp [(live_not_holds hx.live).2] at he
  · exact engaged_of_decide h he
  · simp [not_engaged_of_job h] at he

/-- A step of another caller leaves the run waiting for who is engaged. -/
theorem waiting_kept {p q : ℕ} {s s' : Shared} {a : Act} {c d : Pc} (hne : q ≠ p)
    (h : Effect p a c s s') (hc : Placed s p c) (hd : Placed s q d) (hholds : d.holds)
    (hfree : a.stops c = false) (hw : s.status = .waitingApproval) :
    s'.status = .waitingApproval := by
  cases h with
  | claim _ hs _ _ _ => simp [hw] at hs
  | leave _ hs _ _ =>
    rcases hs with hs | hs
    · rw [hs, hw]
    · simp [hw] at hs
  | write _ hh _ _ _ =>
    have := (hd.holds hholds).symm.trans (hc.holds hh)
    exact (hne (Option.some.inj this)).elim
  | cancel hstops _ _ _ _ => simp [hfree] at hstops
  | overdue hstops _ _ _ _ => simp [hfree] at hstops
  | quiet hs _ _ | acquire hs _ _ _ | release _ hs _ _ => rw [hs, hw]

theorem stillWaiting_step (graph : Graph) (w : RunWorld) (a : ℕ × Act) (hok : Undisturbed w a)
    (horder : Orderly w) (hw : StillWaiting w) : StillWaiting (step graph w a) := by
  rcases callerStep_cases (move graph) w a with h | ⟨s, c, ht, heq⟩
  · rwa [StillWaiting, step, h]
  · intro q he
    simp only [step, heq] at he ⊢
    by_cases hq : q = a.1
    · subst hq
      rw [Function.update_self] at he
      obtain ⟨hs, hwait | hen⟩ := engaged_of_move ht he
      · exact hs.trans hwait
      · exact hs.trans (hw _ hen)
    · rw [Function.update_of_ne hq] at he
      have hfree : a.2.stops (w.pc a.1) = false := by
        by_contra hstops
        simp [hok (by simpa using hstops) q] at he
      exact waiting_kept hq (move_effect ht) (horder.placed _) (horder.placed q)
        (engaged_holds he) hfree (hw q he)

/-- A step that meets the condition leaves a terminal status as it is. -/
theorem terminal_step (graph : Graph) (w : RunWorld) (a : ℕ × Act) (hw : StillWaiting w)
    (hterm : w.shared.status.terminal) :
    (step graph w a).shared.status = w.shared.status := by
  rcases callerStep_cases (move graph) w a with h | ⟨s, c, ht, heq⟩
  · rw [step, h]
  · rw [step, heq]
    cases move_effect ht with
    | claim _ hs _ _ _ => simp [hs, RunStatus.terminal] at hterm
    | leave _ hs _ _ =>
      rcases hs with hs | hs
      · exact hs
      · simp [hs, RunStatus.terminal] at hterm
    | write hen _ _ _ _ => simp [hw _ hen, RunStatus.terminal] at hterm
    | cancel _ hs _ _ _ => simp [hs] at hterm
    | overdue _ hs _ _ _ => simp [hs, RunStatus.terminal] at hterm
    | quiet hs _ _ | acquire hs _ _ _ | release _ hs _ _ => exact hs

theorem stillWaiting_start : StillWaiting start := by
  intro q he
  simp [start, Pc.engaged] at he

/-- Along every schedule in which no cancellation and no expiry is written
between the read and the write of an approval or a denial, a terminal status is
final. -/
theorem terminal_status_final (graph : Graph) (as bs : List (ℕ × Act))
    (h : Meets (step graph) Undisturbed start (as ++ bs))
    (hterm : (run (step graph) start as).shared.status.terminal) :
    (run (step graph) start (as ++ bs)).shared.status =
      (run (step graph) start as).shared.status := by
  obtain ⟨has, hbs⟩ := meets_append.mp h
  have hreach : ∀ w a, Undisturbed w a → Orderly w ∧ StillWaiting w →
      Orderly (step graph w a) ∧ StillWaiting (step graph w a) := fun w a hok hw =>
    ⟨orderly_step graph w a hw.1, stillWaiting_step graph w a hok hw.1 hw.2⟩
  have hmid := has.invariant hreach ⟨orderly_start, stillWaiting_start⟩
  set mid := run (step graph) start as with hmideq
  have hend := hbs.invariant (I := fun w => (Orderly w ∧ StillWaiting w) ∧
      w.shared.status = mid.shared.status) (fun w a hok hw => by
    refine ⟨hreach w a hok hw.1, ?_⟩
    rw [terminal_step graph w a hw.1.2 (by rwa [hw.2]), hw.2]) ⟨hmid, rfl⟩
  rw [run_append]
  exact hend.2

/-- Trigger, then a tool that asks. -/
def askingGraph : Graph where
  nodes := [⟨['t'], .trigger, []⟩, ⟨['n'], .tool, []⟩]
  edges := [⟨['e'], ['t'], ['n'], none⟩]

/-- A run cancelled under its execution, which then fails, stays cancelled. -/
theorem terminal_status_final_under_execution :
    (run (step askingGraph) start
      ([(0, .execute), (1, .cancel)] ++ [(0, .load true), (0, .fail), (0, .finish)])).shared.status =
      (run (step askingGraph) start [(0, .execute), (1, .cancel)]).shared.status := by
  have hcancel : Undisturbed (step askingGraph start (0, .execute)) (1, .cancel) := by
    intro _ q
    by_cases hq : q = 0
    · subst hq
      rfl
    · simp [step, callerStep, move, executeStep, start, Function.update_of_ne hq, Pc.engaged]
  refine terminal_status_final askingGraph _ _ ⟨?_, hcancel, ?_, ?_, ?_, trivial⟩ (by decide)
  all_goals
    intro hstops
    exact absurd hstops (by decide)

/-- The run parks for one approval, which is read for approval and executed;
then the run is cancelled. -/
def cancelledUnderApproval : List (ℕ × Act) :=
  [(0, .execute), (0, .load true), (0, .guard), (0, .complete .null none), (0, .checkpoint),
    (0, .guard), (0, .ask ⟨[], [], .null, []⟩), (0, .park 0),
    (1, .approve 0 false), (1, .acquire), (1, .readRun), (1, .guard),
    (1, .runTool ⟨.null, [], none⟩), (2, .cancel)]

/-- The approval then queues the cancelled run, and it is executed again. -/
theorem cancelled_run_executed_again :
    (run (step askingGraph) start cancelledUnderApproval).shared.status = .cancelled ∧
      (run (step askingGraph) start (cancelledUnderApproval ++ [(1, .store)])).shared.status =
        .queued ∧
      (run (step askingGraph) start
        (cancelledUnderApproval ++ [(1, .store), (3, .execute)])).shared.status = .running := by
  decide

end Prgd.RunFinality
