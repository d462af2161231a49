import Prgd.RunMachine

/-!
# Order among the callers of a run

What one step can do to the status, the owner and the lock of a run is said
once, in `Effect`. Three facts about places follow for every schedule: a caller
inside an execution owns the run, and the run is running or was cancelled; a
caller behind `withRunLock` holds the lock; and a caller that read a waiting
run meets no execution until it has written.
-/
namespace Prgd.RunOrder
open Interleaving Workflow Checkpoint RunMachine

/-! ## What a step does to the status -/

/-- The changes of status, owner and lock that a step of `p` in place `c` can
make. -/
inductive Effect (p : ℕ) (a : Act) (c : Pc) (s s' : Shared) : Prop
  | quiet (status : s'.status = s.status) (owner : s'.owner = s.owner) (lock : s'.lock = s.lock)
  | claim (idle : c = .idle) (status : s.status = .queued) (status' : s'.status = .running)
      (owner : s'.owner = some p) (lock : s'.lock = s.lock)
  | leave (live : c.live) (status : s'.status = s.status ∨ s.status = .running)
      (owner : s'.owner = none) (lock : s'.lock = s.lock)
  | acquire (status : s'.status = s.status) (owner : s'.owner = s.owner) (free : s.lock = none)
      (lock : s'.lock = some p)
  | release (holds : c.holds) (status : s'.status = s.status) (owner : s'.owner = s.owner)
      (lock : s'.lock = none)
  | write (engaged : c.engaged) (holds : c.holds)
      (status : s'.status ∈ [s.status, .queued, .waitingApproval, .failed])
      (owner : s'.owner = s.owner) (lock : s'.lock = s.lock)
  | cancel (stops : a.stops c) (status : s.status.terminal = false)
      (status' : s'.status = .cancelled) (owner : s'.owner = s.owner) (lock : s'.lock = s.lock)
  | overdue (stops : a.stops c) (status : s.status = .waitingApproval)
      (status' : s'.status = .failed) (owner : s'.owner = s.owner) (lock : s'.lock = s.lock)

theorem reply_quiet (s : Shared) (f : Frame) (loop : AgentLoopState) (r : Reply) :
    (reply s f loop r).1.status = s.status ∧ (reply s f loop r).1.owner = s.owner ∧
      (reply s f loop r).1.lock = s.lock := by
  cases r <;> exact ⟨rfl, rfl, rfl⟩

theorem settleCall_quiet (s : Shared) (f : Frame) (loop : AgentLoopState)
    (calls : List (ToolUse × Option ToolOutcome)) (i : ℕ) (u : ToolUse) (how : Settled) :
    (settleCall s f loop calls i u how).1.status = s.status ∧
      (settleCall s f loop calls i u how).1.owner = s.owner ∧
      (settleCall s f loop calls i u how).1.lock = s.lock := by
  cases how <;> exact ⟨rfl, rfl, rfl⟩

theorem executeStep_effect {graph : Graph} {p : ℕ} {s s' : Shared} {a : Act} {c c' : Pc}
    (h : executeStep graph p s a c = some (s', c')) : Effect p a c s s' := by
  unfold executeStep at h
  split at h
  case h_1 =>
    split_ifs at h with hs
    cases h
    exact .claim rfl hs rfl rfl rfl
  case h_11 =>
    obtain ⟨hs, ho, hl⟩ := reply_quiet s _ _ _
    rw [Option.some.inj h] at hs ho hl
    exact .quiet hs ho hl
  case h_12 =>
    split at h
    · obtain ⟨hs, ho, hl⟩ := settleCall_quiet s _ _ _ _ _ _
      rw [Option.some.inj h] at hs ho hl
      exact .quiet hs ho hl
    · simp at h
  case h_13 =>
    obtain ⟨calls, -, heq⟩ := Option.map_eq_some_iff.mp h
    cases heq
    exact .quiet rfl rfl rfl
  case h_15 =>
    cases h
    unfold Shared.park
    split_ifs with hs
    · exact .leave rfl (.inr hs) rfl rfl
    · exact .leave rfl (.inl rfl) rfl rfl
  case h_16 =>
    cases h
    unfold Shared.finish
    split_ifs with hs
    · rcases hs with hs | ⟨rfl, hs⟩
      · exact .leave rfl (.inr hs) rfl rfl
      · exact .leave rfl (.inl hs.symm) rfl rfl
    · exact .leave rfl (.inl rfl) rfl rfl
  case h_17 => simp at h
  all_goals
    first
    | cases h
      exact .quiet rfl rfl rfl
    | split_ifs at h
      all_goals
        cases h
        exact .quiet rfl rfl rfl

theorem decideStep_effect {p : ℕ} {s s' : Shared} {a : Act} {c c' : Pc}
    (h : decideStep p s a c = some (s', c')) : Effect p a c s s' := by
  unfold decideStep at h
  split at h
  case h_5 =>
    split_ifs at h with hl
    cases h
    exact .acquire rfl rfl hl rfl
  case h_12 =>
    cases h
    unfold storeApproved Shared.failWaiting
    refine .write rfl rfl ?_ ?_ ?_
    all_goals
      split
      · split_ifs <;> simp [Shared.fail]
      · first
        | rfl
        | dsimp only
          split_ifs <;> simp
  case h_13 =>
    cases h
    exact .write rfl rfl (by simp [Shared.fail]) rfl rfl
  case h_15 =>
    cases h
    exact .release rfl rfl rfl rfl
  case h_17 => simp at h
  all_goals
    first
    | cases h
      exact .quiet rfl rfl rfl
    | split_ifs at h
      all_goals
        cases h
        exact .quiet rfl rfl rfl

theorem jobStep_effect {p : ℕ} {s s' : Shared} {a : Act} {c c' : Pc}
    (h : jobStep s a c = some (s', c')) : Effect p a c s s' := by
  unfold jobStep at h
  split at h
  case h_1 =>
    split_ifs at h with hs
    cases h
    exact .cancel rfl (by simpa using hs) rfl rfl rfl
  case h_5 =>
    cases h
    unfold Shared.failWaiting
    split_ifs with hs
    · exact .overdue rfl hs rfl rfl rfl
    · exact .quiet rfl rfl rfl
  case h_7 => simp at h
  all_goals
    first
    | cases h
      exact .quiet rfl rfl rfl
    | split_ifs at h
      all_goals
        cases h
        exact .quiet rfl rfl rfl

theorem move_effect {graph : Graph} {p : ℕ} {s s' : Shared} {a : Act} {c c' : Pc}
    (h : move graph p s a c = some (s', c')) : Effect p a c s s' := by
  rcases move_cases h with h | h | h
  · exact executeStep_effect h
  · exact decideStep_effect h
  · exact jobStep_effect h

/-! ## Who may be where -/

/-- An owned run is running, or was cancelled under its execution. -/
def Owned (s : Shared) : Prop := s.owner ≠ none → s.status = .running ∨ s.status = .cancelled

/-- What the place of a caller says about the run. -/
structure Placed (s : Shared) (q : ℕ) (c : Pc) : Prop where
  live : c.live → s.owner = some q
  holds : c.holds → s.lock = some q
  engaged : c.engaged → s.owner = none ∧ s.status ≠ .queued ∧ s.status ≠ .running
  ending : ∀ e, c = .finishing e → e.terminal

theorem engaged_holds {c : Pc} (h : c.engaged) : c.holds := by
  cases c <;> simp_all [Pc.engaged, Pc.holds]

/-- No step of one caller disturbs the place of another. -/
theorem placed_others {p q : ℕ} {s s' : Shared} {a : Act} {c d : Pc} (hne : q ≠ p) (h : Effect p a c s s')
    (howned : Owned s) (hc : Placed s p c) (hd : Placed s q d) : Placed s' q d := by
  have hlock : d.holds → s.lock = some p → False := fun hh hp => by
    have := (hd.holds hh).symm.trans hp
    exact hne (Option.some.inj this)
  refine ⟨fun hl => ?_, fun hh => ?_, fun he => ?_, hd.ending⟩
  · have hown := hd.live hl
    cases h with
    | claim _ hs _ _ _ =>
      rcases howned (by simp [hown]) with h | h <;> simp [h] at hs
    | leave hlive _ _ _ =>
      exact absurd (Option.some.inj ((hc.live hlive).symm.trans hown)) (Ne.symm hne)
    | quiet _ ho _ | acquire _ ho _ _ | release _ _ ho _ | write _ _ _ ho _ | cancel _ _ _ ho _
    | overdue _ _ _ ho _ => rw [ho, hown]
  · have hlk := hd.holds hh
    cases h with
    | acquire _ _ hfree _ => simp [hlk] at hfree
    | release hp _ _ _ => exact (hlock hh (hc.holds hp)).elim
    | quiet _ _ hl | claim _ _ _ _ hl | leave _ _ _ hl | write _ _ _ _ hl | cancel _ _ _ _ hl
    | overdue _ _ _ _ hl => rw [hl, hlk]
  · obtain ⟨ho, hq, hr⟩ := hd.engaged he
    cases h with
    | claim _ hs _ _ _ => exact (hq hs).elim
    | leave hlive _ _ _ => simp [hc.live hlive] at ho
    | write hen hh _ _ _ =>
      exact (hlock (engaged_holds he) (hc.holds hh)).elim
    | quiet hs ho' _ | acquire hs ho' _ _ | release _ hs ho' _ =>
      rw [hs, ho']
      exact ⟨ho, hq, hr⟩
    | cancel _ _ hs ho' _ | overdue _ _ hs ho' _ =>
      rw [hs, ho']
      exact ⟨ho, by decide, by decide⟩

theorem owned_step {p : ℕ} {s s' : Shared} {a : Act} {c : Pc} (h : Effect p a c s s') (howned : Owned s)
    (hc : Placed s p c) : Owned s' := by
  intro hne
  cases h with
  | claim _ _ hs _ _ => exact .inl hs
  | leave _ _ ho _ => exact (hne ho).elim
  | cancel _ _ hs _ _ => exact .inr hs
  | write hen _ _ ho _ => exact (hne (ho.trans (hc.engaged hen).1)).elim
  | overdue _ hs _ ho _ =>
    rcases howned (by rwa [← ho]) with h | h <;> simp [h] at hs
  | quiet hs ho _ | acquire hs ho _ _ | release _ hs ho _ =>
    rw [hs]
    exact howned (by rwa [← ho])

/-- A place inside an execution. -/
structure Executing (c : Pc) : Prop where
  live : c.live
  ending : ∀ e, c = .finishing e → e.terminal

theorem live_not_holds {c : Pc} (h : c.live) : c.holds = false ∧ c.engaged = false := by
  cases c <;> simp_all [Pc.live, Pc.holds, Pc.engaged]

theorem Executing.placed {c : Pc} (h : Executing c) {s : Shared} {p : ℕ}
    (howner : s.owner = some p) : Placed s p c where
  live _ := howner
  holds hh := by simp [(live_not_holds h.live).1] at hh
  engaged he := by simp [(live_not_holds h.live).2] at he
  ending := h.ending

theorem executing_proceed (graph : Graph) (st : RunState) (order : List Text) (pos : Pos) :
    Executing (proceed graph st order pos) := by
  unfold proceed
  split
  all_goals exact ⟨rfl, by rintro e ⟨⟩; try rfl⟩

theorem executing_begin (graph : Graph) (stored : Option RunState) (ok : Bool) :
    Executing (begin graph stored ok) := by
  unfold begin
  split
  · exact executing_proceed _ _ _ _
  · exact ⟨rfl, by rintro e ⟨⟩; rfl⟩

theorem executing_leave (graph : Graph) (f : Frame) (res : Done) :
    Executing (f.leave graph res) := by
  unfold Frame.leave
  split_ifs
  · exact ⟨rfl, by rintro e ⟨⟩; rfl⟩
  · exact executing_proceed _ _ _ _

theorem executing_reply (s : Shared) (f : Frame) (loop : AgentLoopState) (r : Reply) :
    Executing (reply s f loop r).2 := by
  cases r with
  | pause m =>
    simp only [reply]
    split_ifs
    all_goals exact ⟨rfl, by rintro e ⟨⟩; try rfl⟩
  | failed | uses _ _ _ | answer _ => exact ⟨rfl, by rintro e ⟨⟩; try rfl⟩

theorem placed_idle (s : Shared) (q : ℕ) : Placed s q .idle := by
  constructor <;> simp [Pc.live, Pc.holds, Pc.engaged]

/-- A step of an execution ends it, or stays inside it. -/
theorem executeStep_executing {graph : Graph} {p : ℕ} {s s' : Shared} {a : Act} {c c' : Pc}
    (h : executeStep graph p s a c = some (s', c')) :
    c' = .idle ∨ Executing c' ∧ (s'.owner = some p ∨ c.live ∧ s'.owner = s.owner) := by
  unfold executeStep at h
  split at h
  case h_1 =>
    split_ifs at h with hs
    cases h
    exact .inr ⟨⟨rfl, by rintro e ⟨⟩⟩, .inl rfl⟩
  case h_2 =>
    cases h
    exact .inr ⟨executing_begin _ _ _, .inr ⟨rfl, rfl⟩⟩
  case h_11 r f loop =>
    have hr := executing_reply s f loop r
    have ho := (reply_quiet s f loop r).2.1
    rw [Option.some.inj h] at hr ho
    exact .inr ⟨hr, .inr ⟨rfl, ho⟩⟩
  case h_12 i how f loop calls =>
    split at h
    · rename_i u hu
      have ho := (settleCall_quiet s f loop calls i u how).2.1
      have hr : Executing (settleCall s f loop calls i u how).2 := by
        cases how <;> exact ⟨rfl, by rintro e ⟨⟩⟩
      rw [Option.some.inj h] at hr ho
      exact .inr ⟨hr, .inr ⟨rfl, ho⟩⟩
    · simp at h
  case h_13 =>
    obtain ⟨calls, -, heq⟩ := Option.map_eq_some_iff.mp h
    cases heq
    split_ifs
    all_goals exact .inr ⟨⟨rfl, by rintro e ⟨⟩⟩, .inr ⟨rfl, rfl⟩⟩
  case h_14 =>
    cases h
    exact .inr ⟨executing_leave _ _ _, .inr ⟨rfl, rfl⟩⟩
  case h_15 | h_16 =>
    cases h
    exact .inl rfl
  case h_17 => simp at h
  all_goals
    try split_ifs at h
    all_goals
      cases h
      first
      | exact .inr ⟨⟨rfl, by rintro e ⟨⟩; try rfl⟩, .inr ⟨rfl, rfl⟩⟩
      | split_ifs
        all_goals exact .inr ⟨⟨rfl, by rintro e ⟨⟩; try rfl⟩, .inr ⟨rfl, rfl⟩⟩

theorem executeStep_placed {graph : Graph} {p : ℕ} {s s' : Shared} {a : Act} {c c' : Pc}
    (h : executeStep graph p s a c = some (s', c')) (hc : Placed s p c) : Placed s' p c' := by
  rcases executeStep_executing h with rfl | ⟨hx, ho | ⟨hl, ho⟩⟩
  · exact placed_idle _ _
  · exact hx.placed ho
  · exact hx.placed (ho.trans (hc.live hl))

/-- A place that says nothing about the run. -/
theorem placed_outside {s : Shared} {q : ℕ} {c : Pc} (hl : c.live = false) (hh : c.holds = false)
    (he : c.engaged = false) : Placed s q c where
  live h := by simp [hl] at h
  holds h := by simp [hh] at h
  engaged h := by simp [he] at h
  ending := by
    rintro e rfl
    simp [Pc.live] at hl

/-- A place under the lock at which the run is no longer written. -/
theorem placed_locked {s : Shared} {q : ℕ} {c : Pc} (hlock : s.lock = some q)
    (hl : c.live = false) (he : c.engaged = false) : Placed s q c where
  live h := by simp [hl] at h
  holds _ := hlock
  engaged h := by simp [he] at h
  ending := by
    rintro e rfl
    simp [Pc.live] at hl

/-- A place under the lock with a run that was waiting. -/
theorem placed_engaged {s : Shared} {q : ℕ} {c : Pc} (hlock : s.lock = some q)
    (hs : s.owner = none ∧ s.status ≠ .queued ∧ s.status ≠ .running) (hl : c.live = false) :
    Placed s q c where
  live h := by simp [hl] at h
  holds _ := hlock
  engaged _ := hs
  ending := by
    rintro e rfl
    simp [Pc.live] at hl

theorem Owned.waiting {s : Shared} (h : Owned s) (hs : s.status = .waitingApproval) :
    s.owner = none ∧ s.status ≠ .queued ∧ s.status ≠ .running := by
  refine ⟨by_contra fun hne => ?_, by simp [hs], by simp [hs]⟩
  rcases h hne with h | h <;> simp [h] at hs

@[simp] theorem storeApproved_lock (s : Shared) (a : ℕ) (st : RunState) (e : PendingApproval)
    (out : ToolOutput) : (storeApproved s a st e out).lock = s.lock := by
  unfold storeApproved Shared.failWaiting
  split
  · split_ifs <;> rfl
  · rfl

theorem decideStep_placed {p : ℕ} {s s' : Shared} {a : Act} {c c' : Pc}
    (h : decideStep p s a c = some (s', c')) (howned : Owned s) (hc : Placed s p c) :
    Placed s' p c' := by
  unfold decideStep at h
  split at h
  case h_1 | h_2 | h_6 =>
    split_ifs at h
    all_goals
      cases h
      exact placed_outside rfl rfl rfl
  case h_5 =>
    split_ifs at h
    cases h
    exact placed_locked rfl rfl rfl
  case h_7 a =>
    cases h
    unfold readForApproval
    split
    · rename_i st e heq
      have hs : s.status = .waitingApproval := by
        by_contra hne
        simp [hne] at heq
      exact placed_engaged (hc.holds rfl) (howned.waiting hs) rfl
    · exact placed_locked (hc.holds rfl) rfl rfl
  case h_8 =>
    cases h
    split_ifs with hs
    · exact placed_engaged (hc.holds rfl) (howned.waiting hs) rfl
    · exact placed_locked (hc.holds rfl) rfl rfl
  case h_9 =>
    cases h
    split_ifs
    · exact placed_locked (hc.holds rfl) rfl rfl
    · exact placed_engaged (hc.holds rfl) (hc.engaged rfl) rfl
  case h_11 =>
    cases h
    exact placed_engaged (hc.holds rfl) (hc.engaged rfl) rfl
  case h_12 =>
    cases h
    exact placed_locked ((storeApproved_lock _ _ _ _ _).trans (hc.holds rfl)) rfl rfl
  case h_10 | h_13 | h_14 =>
    cases h
    exact placed_locked (hc.holds rfl) rfl rfl
  case h_15 =>
    cases h
    unfold afterRelease
    split
    all_goals exact placed_outside rfl rfl rfl
  case h_3 | h_4 | h_16 =>
    cases h
    exact placed_outside rfl rfl rfl
  case h_17 => simp at h

theorem jobStep_placed {p : ℕ} {s s' : Shared} {a : Act} {c c' : Pc}
    (h : jobStep s a c = some (s', c')) : Placed s' p c' := by
  unfold jobStep at h
  split at h
  case h_1 | h_3 =>
    split_ifs at h
    cases h
    exact placed_outside rfl rfl rfl
  case h_4 =>
    cases h
    split_ifs
    all_goals exact placed_outside rfl rfl rfl
  case h_2 | h_5 | h_6 =>
    cases h
    exact placed_outside rfl rfl rfl
  case h_7 => simp at h

/-- One execution at most owns the run, one caller at most holds the lock, and
who read a waiting run meets no execution. -/
structure Orderly (w : RunWorld) : Prop where
  owned : Owned w.shared
  placed : ∀ q, Placed w.shared q (w.pc q)

theorem orderly_start : Orderly start :=
  ⟨fun h => (h rfl).elim, fun q => placed_idle _ q⟩

theorem orderly_step (graph : Graph) (w : RunWorld) (a : ℕ × Act) (h : Orderly w) :
    Orderly (step graph w a) := by
  have hc := h.placed a.1
  have hown : ∀ s c, move graph a.1 w.shared a.2 (w.pc a.1) = some (s, c) →
      Owned s ∧ Placed s a.1 c := by
    intro s c ht
    refine ⟨owned_step (move_effect ht) h.owned hc, ?_⟩
    rcases move_cases ht with ht | ht | ht
    · exact executeStep_placed ht hc
    · exact decideStep_placed ht h.owned hc
    · exact jobStep_placed ht
  obtain ⟨howned, hplaced⟩ := callerStep_invariant hown
    (fun s c ht q hq => placed_others hq (move_effect ht) h.owned hc (h.placed q))
    h.owned h.placed
  exact ⟨howned, hplaced⟩

end Prgd.RunOrder
