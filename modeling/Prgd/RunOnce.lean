import Prgd.RunFreshness
import Prgd.RunOrder

/-!
# No tool call is made twice

Every call of `runTool` in the life of a run, by a walk, by an agent loop or by
an approved request, is a new one: no approval is executed twice, and no node
and no tool call of the model is executed by two calls. Each operation that
carries a checkpoint keeps it `Fresh`, and the two kinds of readers, executions
and approvals, only ever read a checkpoint that is.

The model provider must not repeat a tool call id within a conversation; this
is the one assumption.
-/
namespace Prgd.RunOnce
open Interleaving Workflow Checkpoint RunMachine RunOrder RunFreshness

/-! ## Steps -/

theorem safe_proceed {graph : Graph} {s : Shared} {st : RunState} (h : Fresh s st)
    (happ : st.approvals = []) (order : List Text) (pos : Pos) :
    Safe s (proceed graph st order pos) := by
  unfold proceed
  split
  · trivial
  · trivial
  · rename_i node rest pos' hadv
    exact ⟨h, happ, advance_node hadv⟩

theorem safe_begin {graph : Graph} {s : Shared} {st : RunState} (hst : s.stored = some st)
    (h : Fresh s st) (happ : st.approvals = []) (ok : Bool) :
    Safe s (begin graph s.stored ok) := by
  unfold begin
  split
  · rename_i st' order pos heq
    rw [hst, Option.bind_some, Option.map_eq_some_iff] at heq
    obtain ⟨r, -, hr⟩ := heq
    obtain ⟨rfl, -⟩ := Prod.mk.inj hr
    exact safe_proceed h happ order pos
  · trivial

theorem key_unmade {s : Shared} {f : Frame} (h : Fresh s f.st)
    (hdone : doneOf f.st f.node.id = none) : (f.node.id, none) ∉ Shared.keys s := by
  intro hin
  simpa [hdone] using h.done _ hin

/-- An answer of the model with new tool calls opens a turn. -/
theorem safe_reply {s : Shared} {f : Frame} (loop : AgentLoopState) {r : Reply}
    (hs : History s) (hstatus : s.status ≠ .queued ∧ s.status ≠ .waitingApproval)
    (h : Fresh s f.st) (happ : f.st.approvals = []) (hdone : doneOf f.st f.node.id = none)
    (hok : ∀ m first others, r = .uses m first others →
      ((first :: others).map ToolUse.id).Nodup ∧
        ∀ u ∈ first :: others, u.id ≠ [] ∧ (f.node.id, u.id) ∉ s.seen) :
    History (reply s f loop r).1 ∧ Safe (reply s f loop r).1 (reply s f loop r).2 := by
  cases r with
  | failed => exact ⟨hs, trivial⟩
  | pause m =>
    refine ⟨hs, ?_⟩
    simp only [reply]
    split_ifs
    · trivial
    · exact ⟨h, happ, hdone⟩
  | uses m first others =>
    obtain ⟨hnodup, hfresh⟩ := hok m first others rfl
    have hsub : s.seen ⊆ s.seen ++ (first :: others).map fun u => (f.node.id, u.id) :=
      List.subset_append_left _ _
    refine ⟨hs.quiet rfl hsub le_rfl (fun hq => (hstatus.1 hq).elim)
      (fun hw => (hstatus.2 hw).elim) hs.unlocked, h.congr rfl hsub le_rfl rfl rfl, hdone, ?_⟩
    constructor
    · simpa [Function.comp_def] using hnodup
    · intro c hc
      obtain ⟨u, hu, rfl⟩ := List.mem_map.mp hc
      exact List.mem_append_right _ (List.mem_map.mpr ⟨u, hu, rfl⟩)
    · intro u hu hin
      obtain ⟨v, hv, heq⟩ := List.mem_map.mp hu
      obtain ⟨rfl, -⟩ := Prod.mk.inj heq
      exact (hfresh v hv).2 (hs.seen _ _ hin)
    · intro u _ a e he
      simp [happ] at he
    · intro a e he
      simp [happ] at he
  | answer output => exact ⟨hs, h.finishNode happ (.inl rfl), happ⟩

theorem safe_settle {s : Shared} {f : Frame} (loop : AgentLoopState)
    {calls : List (ToolUse × Option ToolOutcome)} {i : ℕ} {u : ToolUse} (how : Settled)
    (hs : History s) (hstatus : s.status ≠ .queued ∧ s.status ≠ .waitingApproval)
    (h : Fresh s f.st) (hdone : doneOf f.st f.node.id = none) (hturn : TurnOk s f calls)
    (hi : calls[i]? = some (u, none)) :
    History (settleCall s f loop calls i u how).1 ∧
      Safe (settleCall s f loop calls i u how).1 (settleCall s f loop calls i u how).2 := by
  have hopen : (u, none) ∈ calls := List.mem_of_getElem? hi
  cases how with
  | answered r => exact ⟨hs, h, hdone, hturn.answered hi r⟩
  | ran r =>
    refine ⟨hs.call rfl rfl rfl (hturn.unmade u hopen) (by simp) ?_ hstatus.1
      (fun hw => (hstatus.2 hw).elim) hs.unlocked, ?_, hdone, hturn.ran hi r⟩
    · rintro v ⟨⟩
      exact hturn.seen _ hopen
    · exact h.called (hturn.unfiled u hopen)
  | asked q =>
    refine ⟨hs.quiet rfl (List.Subset.refl _) (by simp [settleCall])
      (fun hq => (hstatus.1 hq).elim)
      (fun hw => (hstatus.2 hw).elim) hs.unlocked, ?_, hdone, hturn.asked h hi q⟩
    refine h.addApproval hs (hturn.unmade u hopen) (hturn.unfiled u hopen) ?_
    rintro v ⟨⟩
    exact hturn.seen _ hopen

theorem executeStep_safe {graph : Graph} {p : ℕ} {s s' : Shared} {a : Act} {c c' : Pc}
    (h : executeStep graph p s a c = some (s', c')) (hok : FreshReply s a c) (hs : History s)
    (hp : Placed s p c) (hlive : c.live → s.status ≠ .queued ∧ s.status ≠ .waitingApproval)
    (hc : Safe s c) : History s' ∧ Safe s' c' := by
  unfold executeStep at h
  split at h
  case h_1 =>
    split_ifs at h with hq
    cases h
    refine ⟨hs.quiet rfl (List.Subset.refl _) le_rfl (by simp) (by simp) hs.unlocked, ?_⟩
    obtain ⟨-, st, hst, hfresh, happ⟩ := hs.queued hq
    exact ⟨st, hst, hfresh.congr rfl (List.Subset.refl _) le_rfl rfl rfl, happ⟩
  case h_2 =>
    cases h
    obtain ⟨st, hst, hfresh, happ⟩ := hc
    exact ⟨hs, safe_begin hst hfresh happ _⟩
  case h_3 | h_4 =>
    cases h
    refine ⟨hs, ?_⟩
    split_ifs
    · trivial
    · exact hc
  case h_5 | h_6 =>
    cases h
    exact ⟨hs, trivial⟩
  case h_7 =>
    split_ifs at h
    cases h
    exact ⟨hs, hc.1.finishNode hc.2.1 (.inl rfl), hc.2.1⟩
  case h_8 =>
    split_ifs at h with _ herr
    all_goals
      cases h
      refine ⟨hs.call rfl rfl rfl (key_unmade hc.1 hc.2.2) (by simp) (by simp) (hlive rfl).1
        (fun hw => ((hlive rfl).2 hw).elim) hs.unlocked, ?_⟩
    · trivial
    · exact ⟨hc.1.finishNode hc.2.1 (.inr rfl), hc.2.1⟩
  case h_9 =>
    split_ifs at h
    cases h
    refine ⟨hs.quiet rfl (List.Subset.refl _) (by simp) (fun hq => ((hlive rfl).1 hq).elim)
      (fun hw => ((hlive rfl).2 hw).elim) hs.unlocked, ?_⟩
    refine hc.1.addApproval hs (key_unmade hc.1 hc.2.2) (fun a e he => ?_) (by simp)
    simp [hc.2.1] at he
  case h_10 =>
    split_ifs at h
    cases h
    refine ⟨hs, ?_⟩
    split_ifs
    · exact hc.1.congr rfl (List.Subset.refl _) le_rfl rfl rfl
    · exact hc
  case h_11 r f loop =>
    have hr := safe_reply loop (r := r) hs (hlive rfl) hc.1 hc.2.1 hc.2.2 (by
      rintro m first others rfl
      exact hok)
    rwa [Option.some.inj h] at hr
  case h_12 i how f loop calls =>
    split at h
    · rename_i u hu
      have hr := safe_settle loop how hs (hlive rfl) hc.1 hc.2.1 hc.2.2 hu
      rwa [Option.some.inj h] at hr
    · simp at h
  case h_13 f loop calls =>
    obtain ⟨settled, hsettled, heq⟩ := Option.map_eq_some_iff.mp h
    obtain ⟨rfl, rfl⟩ := Prod.mk.inj heq
    refine ⟨hs, ?_⟩
    split_ifs with hpend
    · exact ⟨hc.1, hc.2.2.approvals_nil hsettled hpend, hc.2.1⟩
    · exact hc.1.congr rfl (List.Subset.refl _) le_rfl rfl rfl
  case h_14 f res =>
    cases h
    refine ⟨hs.quiet rfl (List.Subset.refl _) le_rfl (fun hq => ((hlive rfl).1 hq).elim)
      (fun hw => ((hlive rfl).2 hw).elim) hs.unlocked, ?_⟩
    unfold Frame.leave
    split_ifs
    · trivial
    · refine safe_proceed ?_ hc.2 _ _
      exact hc.1.congr rfl (List.Subset.refl _) le_rfl rfl rfl
  case h_15 ms st =>
    cases h
    refine ⟨?_, trivial⟩
    unfold Shared.park
    split_ifs
    · refine hs.quiet rfl (List.Subset.refl _) le_rfl (by simp) (fun _ _ => ⟨_, rfl, ?_⟩) hs.unlocked
      exact Fresh.congr hc rfl (List.Subset.refl _) le_rfl rfl rfl
    · exact hs.quiet rfl (List.Subset.refl _) le_rfl (fun hq => ((hlive rfl).1 hq).elim)
        (fun hw => ((hlive rfl).2 hw).elim) hs.unlocked
  case h_16 ending =>
    cases h
    have hend := hp.ending ending rfl
    refine ⟨?_, trivial⟩
    unfold Shared.finish
    split_ifs
    · refine hs.quiet rfl (List.Subset.refl _) le_rfl (fun hq => ?_) (fun hw => ?_) hs.unlocked
      · rw [show ending = .queued from hq] at hend
        cases hend
      · rw [show ending = .waitingApproval from hw] at hend
        cases hend
    · exact hs.quiet rfl (List.Subset.refl _) le_rfl (fun hq => ((hlive rfl).1 hq).elim)
        (fun hw => ((hlive rfl).2 hw).elim) hs.unlocked
  case h_17 => simp at h

theorem safe_readForApproval {s : Shared} (hs : History s) (hf : s.inFlight = none) (a : ℕ) :
    Safe s (readForApproval s a) := by
  unfold readForApproval
  split
  · rename_i st e heq
    by_cases hw : s.status = .waitingApproval
    · rw [if_pos hw] at heq
      obtain ⟨st', hst', hmap⟩ := Option.bind_eq_some_iff.mp heq
      obtain ⟨e', he', hpair⟩ := Option.map_eq_some_iff.mp hmap
      obtain ⟨rfl, rfl⟩ := Prod.mk.inj hpair
      obtain ⟨st'', hst'', hfresh⟩ := hs.waiting hw hf
      rw [hst'] at hst''
      obtain rfl := Option.some.inj hst''
      exact ⟨hf, hfresh, he'⟩
    · simp [hw] at heq
  · exact hf

/-- The write of an approved call: a failed run, or a fresh checkpoint. -/
theorem history_storeApproved {s : Shared} {a : ℕ} {st : RunState} {e : PendingApproval}
    {out : ToolOutput} (hs : History s)
    (hstatus : s.status ≠ .queued ∧ s.status ≠ .running)
    (hfresh : ∀ st', approvedState st a e out = some st' → Fresh s st') :
    History (storeApproved s a st e out) := by
  unfold storeApproved
  cases hst : approvedState st a e out with
  | none =>
    unfold Shared.failWaiting
    dsimp only
    split_ifs with hw
    · exact hs.ended rfl rfl rfl rfl fun _ => rfl
    · refine hs.ended rfl rfl rfl ?_ fun _ => rfl
      cases hs' : s.status <;> simp_all [RunStatus.terminal]
  | some st' =>
    have hf := hfresh st' hst
    dsimp only
    refine hs.quiet rfl (List.Subset.refl _) le_rfl (fun hq => ?_) (fun _ _ => ?_) fun _ => rfl
    · refine ⟨rfl, st', rfl, hf.congr rfl (List.Subset.refl _) le_rfl rfl rfl, ?_⟩
      by_contra hne
      simp [hne] at hq
    · exact ⟨st', rfl, hf.congr rfl (List.Subset.refl _) le_rfl rfl rfl⟩

theorem decideStep_safe {p : ℕ} {s s' : Shared} {a : Act} {c c' : Pc}
    (h : decideStep p s a c = some (s', c')) (hs : History s) (hp : Placed s p c)
    (hc : Safe s c) : History s' ∧ Safe s' c' := by
  unfold decideStep at h
  split at h
  case h_1 | h_2 | h_6 =>
    split_ifs at h
    all_goals
      cases h
      exact ⟨hs, trivial⟩
  case h_3 | h_4 | h_16 =>
    cases h
    exact ⟨hs.same rfl rfl (by simp) rfl rfl rfl hs.unlocked, trivial⟩
  case h_5 =>
    split_ifs at h with hl
    cases h
    exact ⟨hs.same rfl rfl rfl rfl rfl rfl (by simp), hs.unlocked hl⟩
  case h_7 =>
    cases h
    exact ⟨hs, safe_readForApproval hs hc _⟩
  case h_8 =>
    cases h
    refine ⟨hs, ?_⟩
    split_ifs
    all_goals exact hc
  case h_9 =>
    cases h
    refine ⟨hs, ?_⟩
    split_ifs
    · exact hc.1
    · exact hc
  case h_10 =>
    cases h
    exact ⟨hs, hc.1⟩
  case h_11 out a st e =>
    cases h
    obtain ⟨hf, hfresh, hlook⟩ := hc
    have he := Record.lookup_mem hlook
    refine ⟨?_, rfl, fun st' hst' => hfresh.approved he hst'⟩
    refine hs.call rfl rfl rfl (hfresh.keys a e he) ?_ (fun u hu => hfresh.seen a e u he hu)
      (hp.engaged rfl).2.1 (by simp) fun hl => ?_
    · rintro b ⟨⟩
      exact (hfresh.ids a e he).symm
    · simp [hp.holds rfl] at hl
  case h_12 =>
    cases h
    exact ⟨history_storeApproved hs (hp.engaged rfl).2 hc.2, rfl⟩
  case h_13 =>
    cases h
    exact ⟨hs.ended rfl rfl rfl rfl hs.unlocked, hc⟩
  case h_14 =>
    cases h
    exact ⟨hs.same rfl rfl (by simp [expireOpen]) rfl rfl rfl hs.unlocked, hc⟩
  case h_15 r =>
    cases h
    refine ⟨hs.same rfl rfl rfl rfl rfl rfl fun _ => hc, ?_⟩
    cases r <;> trivial
  case h_17 => simp at h

theorem jobStep_safe {s s' : Shared} {a : Act} {c c' : Pc}
    (h : jobStep s a c = some (s', c')) (hs : History s) : History s' ∧ Safe s' c' := by
  unfold jobStep at h
  split at h
  case h_1 =>
    split_ifs at h
    cases h
    exact ⟨hs.ended rfl rfl rfl rfl hs.unlocked, trivial⟩
  case h_2 =>
    cases h
    exact ⟨hs.same rfl rfl (by simp [expireOpen]) rfl rfl rfl hs.unlocked, trivial⟩
  case h_3 =>
    split_ifs at h
    cases h
    exact ⟨hs, trivial⟩
  case h_4 =>
    cases h
    refine ⟨hs, ?_⟩
    split_ifs
    all_goals trivial
  case h_5 =>
    cases h
    refine ⟨?_, trivial⟩
    unfold Shared.failWaiting
    split_ifs
    · exact hs.ended rfl rfl rfl rfl hs.unlocked
    · exact hs
  case h_6 =>
    cases h
    exact ⟨hs.same rfl rfl (by simp) rfl rfl rfl hs.unlocked, trivial⟩
  case h_7 => simp at h

/-! ## Other callers -/

theorem executeStep_frame {graph : Graph} {p : ℕ} {s s' : Shared} {a : Act} {c c' : Pc}
    (h : executeStep graph p s a c = some (s', c')) :
    c.live ∧ s'.inFlight = s.inFlight ∨ Unchanged s s' := by
  unfold executeStep at h
  split at h
  case h_1 =>
    split_ifs at h
    cases h
    exact .inr ⟨rfl, rfl, rfl, rfl, .inl rfl⟩
  case h_11 r f loop =>
    have hr : (reply s f loop r).1.inFlight = s.inFlight := by cases r <;> rfl
    rw [Option.some.inj h] at hr
    exact .inl ⟨rfl, hr⟩
  case h_12 i how f loop calls =>
    split at h
    · rename_i u hu
      have hr : (settleCall s f loop calls i u how).1.inFlight = s.inFlight := by
        cases how <;> rfl
      rw [Option.some.inj h] at hr
      exact .inl ⟨rfl, hr⟩
    · simp at h
  case h_13 =>
    obtain ⟨settled, -, heq⟩ := Option.map_eq_some_iff.mp h
    obtain ⟨rfl, -⟩ := Prod.mk.inj heq
    exact .inl ⟨rfl, rfl⟩
  case h_15 =>
    cases h
    refine .inl ⟨rfl, ?_⟩
    unfold Shared.park
    split_ifs <;> rfl
  case h_16 =>
    cases h
    refine .inl ⟨rfl, ?_⟩
    unfold Shared.finish
    split_ifs <;> rfl
  case h_17 => simp at h
  all_goals
    try split_ifs at h
    all_goals
      cases h
      exact .inl ⟨rfl, rfl⟩

theorem decideStep_frame {p : ℕ} {s s' : Shared} {a : Act} {c c' : Pc}
    (h : decideStep p s a c = some (s', c')) : c.engaged ∨ Unchanged s s' := by
  unfold decideStep at h
  split at h
  case h_3 | h_4 | h_16 =>
    cases h
    exact .inr ⟨rfl, rfl, by simp, rfl, .inl rfl⟩
  case h_9 | h_10 | h_11 | h_12 | h_13 => exact .inl rfl
  case h_14 =>
    cases h
    exact .inr ⟨rfl, rfl, by simp [expireOpen], rfl, .inl rfl⟩
  case h_17 => simp at h
  all_goals
    try split_ifs at h
    all_goals
      cases h
      exact .inr ⟨rfl, rfl, rfl, rfl, .inl rfl⟩

theorem jobStep_frame {s s' : Shared} {a : Act} {c c' : Pc}
    (h : jobStep s a c = some (s', c')) : Unchanged s s' := by
  unfold jobStep at h
  split at h
  case h_2 =>
    cases h
    exact ⟨rfl, rfl, by simp [expireOpen], rfl, .inl rfl⟩
  case h_5 =>
    cases h
    unfold Shared.failWaiting
    split_ifs with hw
    · exact ⟨rfl, rfl, rfl, rfl, .inr hw⟩
    · exact ⟨rfl, rfl, rfl, rfl, .inl rfl⟩
  case h_6 =>
    cases h
    exact ⟨rfl, rfl, by simp, rfl, .inl rfl⟩
  case h_7 => simp at h
  all_goals
    try split_ifs at h
    all_goals
      cases h
      exact ⟨rfl, rfl, rfl, rfl, .inl rfl⟩

/-- Outside of executions and engaged decisions a step makes no call, starts no
flight, and writes the checkpoint of a waiting run only. -/
theorem move_frame {graph : Graph} {p : ℕ} {s s' : Shared} {a : Act} {c c' : Pc}
    (h : move graph p s a c = some (s', c')) :
    c.live ∧ s'.inFlight = s.inFlight ∨ c.engaged ∨ Unchanged s s' := by
  rcases move_cases h with h | h | h
  · exact (executeStep_frame h).imp_right .inr
  · exact .inr (decideStep_frame h)
  · exact .inr (.inr (jobStep_frame h))

/-- No step of one caller disturbs what another knows. -/
theorem safe_others {p q : ℕ} {s s' : Shared} {a : Act} {c c' d : Pc} {graph : Graph}
    (hne : q ≠ p) (h : move graph p s a c = some (s', c')) (howned : Owned s)
    (hc : Placed s p c) (hd : Placed s q d) (hsafe : Safe s d) : Safe s' d := by
  have hwait : d.live → s.status ≠ .waitingApproval := fun hl hw => by
    simpa [hd.live hl] using (howned.waiting hw).1
  rcases move_frame h with ⟨hcl, hflight⟩ | hce | hun
  · -- beside an execution there are only places that look at the flight
    have ho := hc.live hcl
    have hdl : d.live = false := by_contra fun hl =>
      hne (Option.some.inj ((hd.live (by simpa using hl)).symm.trans ho))
    have hde : d.engaged = false := by_contra fun he => by
      simp [(hd.engaged (by simpa using he)).1] at ho
    cases d with
    | claimed | walking _ _ | modelling _ _ _ | turn _ _ _ | saving _ _ | parking _
    | finishing _ => simp [Pc.live] at hdl
    | approving _ _ _ _ | ran _ _ _ _ | failing _ => simp [Pc.engaged] at hde
    | held _ _ | releasing _ => exact hflight.trans hsafe
    | expiring locked =>
      cases locked
      · trivial
      · exact hflight.trans hsafe
    | idle | late _ | denying _ | locking _ _ | recording _ _ | scanned | overdue => trivial
  · -- beside an engaged decision nobody executes and nobody else holds the lock
    have hl := hc.holds (engaged_holds hce)
    have hdl : d.live = false := by_contra fun hl => by
      simpa [(hc.engaged hce).1] using hd.live (by simpa using hl)
    have hdh : d.holds = false := by_contra fun hh =>
      hne (Option.some.inj ((hd.holds (by simpa using hh)).symm.trans hl))
    cases d with
    | claimed | walking _ _ | modelling _ _ _ | turn _ _ _ | saving _ _ | parking _
    | finishing _ => simp [Pc.live] at hdl
    | approving _ _ _ _ | ran _ _ _ _ | failing _ | held _ _ | releasing _ =>
      simp [Pc.holds] at hdh
    | expiring locked =>
      cases locked
      · trivial
      · simp [Pc.holds] at hdh
    | idle | late _ | denying _ | locking _ _ | recording _ _ | scanned | overdue => trivial
  · exact hun.safe hsafe hwait

/-! ## Runs -/

structure Sound (w : RunWorld) : Prop where
  orderly : Orderly w
  history : History w.shared
  safe : ∀ q, Safe w.shared (w.pc q)

theorem sound_start : Sound start where
  orderly := orderly_start
  history := by
    refine ⟨by simp [Shared.keys, start], by simp [Shared.approved, start],
      by simp [Shared.keys, start], by simp [Shared.approved, start],
      fun _ => ⟨rfl, {}, rfl, ?_, rfl⟩, by simp [start], fun _ => rfl⟩
    constructor <;> simp [Shared.keys, start]
  safe _ := trivial

theorem sound_step (graph : Graph) (w : RunWorld) (a : ℕ × Act) (hok : IdsFresh w a)
    (h : Sound w) : Sound (step graph w a) := by
  have hp := h.orderly.placed a.1
  have hlive : (w.pc a.1).live →
      w.shared.status ≠ .queued ∧ w.shared.status ≠ .waitingApproval := by
    intro hl
    rcases h.orderly.owned (by simp [hp.live hl]) with hs | hs <;> simp [hs]
  have hown : ∀ s c, move graph a.1 w.shared a.2 (w.pc a.1) = some (s, c) →
      History s ∧ Safe s c := by
    intro s c ht
    rcases move_cases ht with ht | ht | ht
    · exact executeStep_safe ht hok h.history hp hlive (h.safe _)
    · exact decideStep_safe ht h.history hp (h.safe _)
    · exact jobStep_safe ht h.history
  obtain ⟨hhistory, hsafe⟩ := callerStep_invariant (L := fun s _ c => Safe s c) hown
    (fun s c ht q hq => safe_others hq ht h.orderly.owned hp (h.orderly.placed q) (h.safe q))
    h.history h.safe
  exact ⟨orderly_step graph w a h.orderly, hhistory, hsafe⟩

/-- In every schedule of one run, with any number of executions, approvals,
denials, cancellations and jobs, each approval is executed at most once, and no
node and no tool call of the model is executed a second time. -/
theorem calls_made_once (graph : Graph) (as : List (ℕ × Act))
    (h : Meets (step graph) IdsFresh start as) :
    ((run (step graph) start as).shared.log.filterMap Call.approval).Nodup ∧
      ((run (step graph) start as).shared.log.map Call.key).Nodup := by
  have hsound := h.invariant (sound_step graph) sound_start
  exact ⟨hsound.history.idsNodup, hsound.history.keysNodup⟩

/-- An agent makes one call and files another; two people approve it at once,
and the resumed run finishes. -/
def approvedTwice : List (ℕ × Act) :=
  [(0, .execute), (0, .load true), (0, .guard), (0, .complete .null none), (0, .checkpoint),
    (0, .enter []), (0, .guard), (0, .respond (.uses .null ⟨['a'], [], .null⟩ [⟨['b'], [], .null⟩])),
    (0, .settle 0 (.ran ⟨[], false⟩)), (0, .settle 1 (.asked ⟨[], [], .null, []⟩)),
    (0, .endTurn), (0, .park 0),
    (1, .approve 0 false), (2, .approve 0 false), (1, .acquire), (1, .readRun), (1, .guard),
    (1, .runTool ⟨.null, [], none⟩), (1, .store), (1, .release), (2, .acquire), (2, .readRun),
    (2, .release), (2, .record), (1, .record),
    (3, .execute), (3, .load true), (3, .enter []), (3, .guard), (3, .respond (.answer .null)),
    (3, .checkpoint), (3, .guard), (3, .complete .null none), (3, .checkpoint), (3, .finish)]

theorem calls_made_once_approved_twice :
    (run (step implicitGraph) start approvedTwice).shared.status = .succeeded ∧
      ((run (step implicitGraph) start approvedTwice).shared.log.filterMap Call.approval).Nodup ∧
      ((run (step implicitGraph) start approvedTwice).shared.log.map Call.key).Nodup :=
  ⟨by decide +kernel, calls_made_once implicitGraph approvedTwice (by decide +kernel)⟩

end Prgd.RunOnce
