import Prgd.Trust

/-!
# Dunning reaches every debtor

Runs of `DunningService.run` by several replicas, at any times. A stage is claimed
before its reminder is sent, so no reminder goes out twice and no stage goes back.
The claim is also what later runs look at: when the mail of the last reminder fails,
the suspension below it is skipped and no later run comes back to the invoice.

The module proves that every debtor is suspended when no such mail fails and when a
run that is to claim the last stage does not lose the claim to an older run.
-/
namespace Prgd.Trust
open Interleaving Agenda
open Spend (AccountStatus)

/-! ## What the tasks of a dunning run do -/

def isDunning : Task → Bool
  | .reinstateIfSettled _ | .countOverdue _ | .reinstate _ | .convertSuspended _
  | .listPoweredOff _ | .restore _ _ | .power _ .start | .startWorkflow _ .start | .undoStart _
  | .unmark _ => false
  | _ => true

def isClaim : Task → Bool
  | .claimStage .. => true
  | _ => false

/-- Tasks behind which a run claims nothing. -/
def isLate : Task → Bool
  | .readOverdue _ | .retryPowerOff _ => true
  | _ => false

/-- The invoice and the stage of a reminder that is to be sent. -/
def keyOf : Task → Option (ℕ × ℕ)
  | .remind id _ stage _ _ => some (id, stage)
  | _ => none

/-- Tasks that end with the suspension of a team. -/
def leads (teamId : ℕ) : Task → Bool
  | .remind _ inv stage _ teamStatus => suspends stage teamStatus ∧ inv.teamId = teamId
  | .suspend id _ | .storeSuspension id _ => id = teamId
  | _ => false

variable {s : Company} {ok : Bool} {t : Task}

theorem claimStage_cases (s : Company) (ok : Bool) (now id : ℕ) (inv : Invoice)
    (teamStatus : AccountStatus) :
    (exec s ok (.claimStage now id inv teamStatus) = (s, []) ∧
      (reminderStageFor (daysOverdue now inv) ≤ inv.reminderStage ∨
        inv.totalMinor - inv.creditedMinor ≤ 0 ∨
        ∀ row, s.invoices.find id = some row → row.reminderStage ≠ inv.reminderStage)) ∨
    ∃ row, s.invoices.find id = some row ∧ row.reminderStage = inv.reminderStage ∧
      inv.reminderStage < reminderStageFor (daysOverdue now inv) ∧
      exec s ok (.claimStage now id inv teamStatus) =
        ({ s with invoices := s.invoices.modify id fun row =>
            { row with reminderStage := reminderStageFor (daysOverdue now inv) } },
          [.remind id inv (reminderStageFor (daysOverdue now inv)) (daysOverdue now inv)
            teamStatus]) := by
  simp only [exec, claimStage]
  split_ifs with hstage hdue hclaimed
  · exact .inl ⟨rfl, .inl hstage⟩
  · exact .inl ⟨rfl, .inr (.inl hdue)⟩
  · obtain ⟨row, hrow, heq⟩ := (Option.any_eq_true _ _).mp hclaimed
    exact .inr ⟨row, hrow, by simpa using heq, by omega, rfl⟩
  · refine .inl ⟨rfl, .inr (.inr ?_)⟩
    intro row hrow heq
    simp [hrow, heq] at hclaimed

/-- Stages grow and nothing else of the invoices changes. -/
def Grows (s s' : Company) : Prop :=
  ∃ g : ℕ → ℕ → ℕ, (∀ id n, n ≤ g id n) ∧ ∀ id, s'.invoices.find id =
    (s.invoices.find id).map fun row => { row with reminderStage := g id row.reminderStage }

theorem Grows.of_eq {s' : Company} (h : s'.invoices = s.invoices) : Grows s s' := by
  refine ⟨fun _ n => n, fun _ _ => le_rfl, ?_⟩
  intro id
  rw [h]
  cases s.invoices.find id <;> rfl

theorem grows_exec (s : Company) (ok : Bool) (t : Task) : Grows s (exec s ok t).1 := by
  cases t with
  | claimStage now id inv teamStatus =>
    rcases claimStage_cases s ok now id inv teamStatus with ⟨heq, _⟩ | ⟨row, hrow, hread, hlt, heq⟩
    · rw [heq]
      exact Grows.of_eq rfl
    · rw [heq]
      refine ⟨fun j n => if j = id then max n (reminderStageFor (daysOverdue now inv)) else n, ?_, ?_⟩
      · intro j n
        dsimp only
        split_ifs
        · exact le_max_left _ _
        · exact le_rfl
      · intro j
        simp only [Table.find_modify]
        split_ifs with hj
        · subst hj
          rw [hrow, Option.map_some, Option.map_some, max_eq_right (by omega)]
        · cases s.invoices.find j <;> rfl
  | suspend teamId reason | enforceSuspension teamId | reinstateIfSettled teamId =>
    apply Grows.of_eq
    simp only [exec]
    split <;> rfl
  | startWorkflow id op | restore id status =>
    apply Grows.of_eq
    simp only [exec]
    split_ifs <;> rfl
  | readOverdue _ | remind _ _ _ _ _ | storeSuspension _ _ | powerOffRunning _ | markPoweredOff _
  | power _ _ | undoStart _ | retryPowerOff _ | countOverdue _ | reinstate _ | convertSuspended _
  | listPoweredOff _ | unmark _ => exact Grows.of_eq rfl

theorem grows_outside_complete (s : Company) (i : ℕ) : Grows s (outside s (.complete i)) := by
  apply Grows.of_eq
  simp only [outside]
  split <;> rfl

/-- A reminder is to be sent only behind a claim. -/
theorem isClaim_of_key {next : Task} {k : ℕ × ℕ} (h : next ∈ (exec s ok t).2)
    (hk : keyOf next = some k) : isClaim t = true := by
  cases follows_exec h with
  | remind => rfl
  | _ => cases hk

/-- The reminders change when one is sent. -/
theorem exec_reminders (s : Company) (ok : Bool) (t : Task) :
    (exec s ok t).1.reminders = (keyOf t).toList ++ s.reminders := by
  cases t with
  | claimStage now id inv teamStatus =>
    simp only [exec, claimStage]
    split_ifs <;> rfl
  | suspend teamId reason | enforceSuspension teamId | reinstateIfSettled teamId =>
    simp only [exec]
    split <;> rfl
  | startWorkflow id op | restore id status =>
    simp only [exec]
    split_ifs <;> rfl
  | readOverdue _ | remind _ _ _ _ _ | storeSuspension _ _ | powerOffRunning _ | markPoweredOff _
  | power _ _ | undoStart _ | retryPowerOff _ | countOverdue _ | reinstate _ | convertSuspended _
  | listPoweredOff _ | unmark _ => rfl

/-! ## No reminder twice -/

/-- A stage that the invoice has reached. -/
def Reached (s : Company) (k : ℕ × ℕ) : Prop :=
  ∃ row, s.invoices.find k.1 = some row ∧ k.2 ≤ row.reminderStage

theorem Grows.reached {s' : Company} {k : ℕ × ℕ} (hgrows : Grows s s') (h : Reached s k) :
    Reached s' k := by
  obtain ⟨g, hg, hfind⟩ := hgrows
  obtain ⟨row, hrow, hle⟩ := h
  refine ⟨_, by rw [hfind, hrow, Option.map_some], ?_⟩
  exact le_trans hle (hg k.1 row.reminderStage)

/-- Reminders that were sent or are to be sent are all different, and claimed. -/
structure Sent (w : Office) : Prop where
  nodup : w.shared.reminders.Nodup
  reached : ∀ k ∈ w.shared.reminders, Reached w.shared k
  pending : ∀ q, ∀ t ∈ w.pc q, ∀ k, keyOf t = some k →
    k ∉ w.shared.reminders ∧ Reached w.shared k
  head : ∀ q t rest, w.pc q = t :: rest → ∀ t' ∈ rest, keyOf t' = none
  apart : ∀ q q', q ≠ q' → ∀ t ∈ w.pc q, ∀ t' ∈ w.pc q', ∀ k, keyOf t = some k → keyOf t' ≠ some k

section
variable {w : Office} {i : ℕ}

/-- What is new to be sent: nothing, or the claim of this step, past every stage so far. -/
theorem reached_of_new {next : Task} {k : ℕ × ℕ} (hnext : next ∈ (exec s ok t).2)
    (hk : keyOf next = some k) :
    (exec s ok t).2 = [next] ∧ Reached (exec s ok t).1 k ∧ ¬ Reached s k := by
  have hclaim := isClaim_of_key hnext hk
  cases t with
  | claimStage now id inv teamStatus =>
    rcases claimStage_cases s ok now id inv teamStatus with
      ⟨heq, _⟩ | ⟨row, hrow, hread, hlt, heq⟩
    · rw [heq] at hnext
      cases hnext
    · rw [heq] at hnext ⊢
      obtain rfl := List.mem_singleton.mp hnext
      cases hk
      refine ⟨rfl, ⟨_, by rw [Table.find_modify, if_pos rfl, hrow, Option.map_some], le_rfl⟩, ?_⟩
      rintro ⟨row', hrow', hle⟩
      rw [hrow] at hrow'
      obtain rfl := Option.some.inj hrow'
      dsimp only at hle
      omega
  | _ => cases hclaim

/-- Whether a reminder is sent or a stage is claimed, the others stay what they were. -/
theorem Sent.advance {rest : List Task} (h : Sent w) (hpc : w.pc i = t :: rest) :
    Sent (advance machine w i ok t rest) := by
  have hgrows := grows_exec w.shared ok t
  have hrest : ∀ t' ∈ rest, keyOf t' = none := h.head i t rest hpc
  have hmem : t ∈ w.pc i := by simp [hpc]
  have hown : ∀ t' ∈ (exec w.shared ok t).2 ++ rest, ∀ k, keyOf t' = some k →
      Reached (exec w.shared ok t).1 k ∧ ¬ Reached w.shared k := by
    intro t' ht' k hk
    rcases List.mem_append.mp ht' with hnew | hold
    · exact (reached_of_new hnew hk).2
    · rw [hrest t' hold] at hk
      cases hk
  have hsent : ∀ k ∈ (keyOf t).toList ++ w.shared.reminders, Reached w.shared k := by
    intro k hk
    rcases List.mem_append.mp hk with hkey | hold
    · exact (h.pending i t hmem k (by simpa using hkey)).2
    · exact h.reached k hold
  constructor
  · show (exec w.shared ok t).1.reminders.Nodup
    rw [exec_reminders]
    cases hkey : keyOf t with
    | none => exact h.nodup
    | some k => exact List.nodup_cons.mpr ⟨(h.pending i t hmem k hkey).1, h.nodup⟩
  · show ∀ k ∈ (exec w.shared ok t).1.reminders, _
    rw [exec_reminders]
    intro k hk
    exact hgrows.reached (hsent k hk)
  · show ∀ q, ∀ t' ∈ Function.update w.pc i ((exec w.shared ok t).2 ++ rest) q, ∀ k,
      keyOf t' = some k → k ∉ (exec w.shared ok t).1.reminders ∧ Reached (exec w.shared ok t).1 k
    rw [exec_reminders]
    apply update_cases (P := fun _ todo => ∀ t' ∈ todo, ∀ k, keyOf t' = some k →
      k ∉ (keyOf t).toList ++ w.shared.reminders ∧ Reached (exec w.shared ok t).1 k)
    · intro t' ht' k hk
      obtain ⟨hreached, hnot⟩ := hown t' ht' k hk
      exact ⟨fun hmem => hnot (hsent k hmem), hreached⟩
    · intro q hq t' ht' k hk
      obtain ⟨hold, hreached⟩ := h.pending q t' ht' k hk
      refine ⟨?_, hgrows.reached hreached⟩
      intro hmem'
      rcases List.mem_append.mp hmem' with hkey | hmem'
      · exact h.apart i q hq.symm t hmem t' ht' k (by simpa using hkey) hk
      · exact hold hmem'
  · apply update_cases (P := fun _ todo => ∀ t'' more, todo = t'' :: more →
      ∀ t' ∈ more, keyOf t' = none)
    · intro t'' more heq t' ht'
      change (exec w.shared ok t).2 ++ rest = t'' :: more at heq
      cases hkey : keyOf t' with
      | none => rfl
      | some k =>
        have hin : t' ∈ (exec w.shared ok t).2 ++ rest := by
          rw [heq]
          exact List.mem_cons_of_mem t'' ht'
        rcases List.mem_append.mp hin with hnew | hold
        · -- a claim leaves nothing but its reminder
          rw [(reached_of_new hnew hkey).1, List.singleton_append] at heq
          obtain ⟨rfl, rfl⟩ := List.cons.inj heq
          rw [hrest t' ht'] at hkey
          cases hkey
        · rw [hrest t' hold] at hkey
          cases hkey
    · intro q _
      exact h.head q
  · have hcross : ∀ q, q ≠ i → ∀ t₁ ∈ (exec w.shared ok t).2 ++ rest, ∀ t₂ ∈ w.pc q, ∀ k,
        keyOf t₁ = some k → keyOf t₂ ≠ some k := by
      intro q _ t₁ h₁ t₂ h₂ k hk hk'
      exact (hown t₁ h₁ k hk).2 (h.pending q t₂ h₂ k hk').2
    intro q q' hne t₁ h₁ t₂ h₂ k hk hk'
    simp only [Agenda.advance, Function.update_apply] at h₁ h₂
    split_ifs at h₁ h₂ with hq hq'
    · exact hne (hq.trans hq'.symm)
    · exact hcross q' hq' t₁ h₁ t₂ h₂ k hk hk'
    · exact hcross q hq t₂ h₂ t₁ h₁ k hk' hk
    · exact h.apart q q' hne t₁ h₁ t₂ h₂ k hk hk'

/-- A run of the dunning, a task of it, or a workflow that finishes. -/
def isDunningAct : Act → Bool
  | .call (.dunning _) | .go _ | .outside (.complete _) => true
  | _ => false

theorem Sent.step {a : ℕ × Act} (h : Sent w) (ha : isDunningAct a.2 = true) : Sent (step w a) := by
  rcases step_cases machine w a with heq | ⟨p, hact, hpc, heq⟩ |
    ⟨ok, t, rest, _, hpc, heq⟩ | ⟨e, hact, heq⟩
  · rw [Trust.step, heq]
    exact h
  · rw [Trust.step, heq]
    have hnone : ∀ t ∈ machine.tasks p, keyOf t = none := by
      intro t ht
      rw [hact] at ha
      cases p with
      | dunning now =>
        obtain rfl := List.mem_singleton.mp ht
        rfl
      | _ => cases ha
    constructor
    · exact h.nodup
    · exact h.reached
    · apply update_cases (P := fun _ todo => ∀ t' ∈ todo, ∀ k, keyOf t' = some k →
        k ∉ w.shared.reminders ∧ Reached w.shared k)
      · intro t ht k hk
        rw [hnone t ht] at hk
        cases hk
      · intro q _
        exact h.pending q
    · apply update_cases (P := fun _ todo => ∀ t'' more, todo = t'' :: more →
        ∀ t' ∈ more, keyOf t' = none)
      · intro t'' more heq' t' ht'
        apply hnone t'
        rw [heq']
        exact List.mem_cons_of_mem t'' ht'
      · intro q _
        exact h.head q
    · intro q q' hne t₁ h₁ t₂ h₂ k hk hk'
      simp only [begin, Function.update_apply] at h₁ h₂
      split_ifs at h₁ h₂ with hq hq'
      · exact hne (hq.trans hq'.symm)
      · rw [hnone t₁ h₁] at hk
        cases hk
      · rw [hnone t₂ h₂] at hk'
        cases hk'
      · exact h.apart q q' hne t₁ h₁ t₂ h₂ k hk hk'
  · rw [Trust.step, heq]
    exact h.advance hpc
  · rw [Trust.step, heq]
    rw [hact] at ha
    cases e with
    | complete j =>
      have hgrows := grows_outside_complete w.shared j
      have hreminders : (outside w.shared (.complete j)).reminders = w.shared.reminders := by
        simp only [outside]
        split <;> rfl
      constructor
      · show (outside w.shared (.complete j)).reminders.Nodup
        rw [hreminders]
        exact h.nodup
      · show ∀ k ∈ (outside w.shared (.complete j)).reminders, _
        rw [hreminders]
        intro k hk
        exact hgrows.reached (h.reached k hk)
      · intro q t ht k hk
        show k ∉ (outside w.shared (.complete j)).reminders ∧ _
        rw [hreminders]
        obtain ⟨hnot, hreached⟩ := h.pending q t ht k hk
        exact ⟨hnot, hgrows.reached hreached⟩
      · exact h.head
      · exact h.apart
    | _ => cases ha

end

/-! ## Every debtor is suspended -/

/-- An amount is due on an open invoice. -/
def Owes (row : Invoice) : Prop := row.status = .open ∧ 0 < row.totalMinor - row.creditedMinor

/-- The invoice is at the age at which a team is suspended. -/
def Old (now : ℕ) (row : Invoice) : Prop := ∃ d, row.dueAt = some d ∧ day * suspendAt + d ≤ now

/-- The team is suspended or closed, if there is one. -/
def Done (s : Company) (teamId : ℕ) : Prop :=
  ∀ team, s.teams.find teamId = some team → team.status = .suspended ∨ team.status = .closed

theorem day_pos : 0 < day := by decide

theorem reminderStageFor_of_old {now : ℕ} {row inv : Invoice} (h : Old now row)
    (hdue : inv.dueAt = row.dueAt) : reminderStageFor (daysOverdue now inv) = suspendAt := by
  obtain ⟨d, hd, hle⟩ := h
  have hdays : 14 ≤ daysOverdue now inv := by
    rw [daysOverdue, hdue, hd, Option.getD_some, Nat.le_div_iff_mul_le day_pos]
    have : day * suspendAt = 14 * day := Nat.mul_comm _ _
    omega
  simp [reminderStageFor, reminderDays, hdays, suspendAt]

theorem isOverdue_of_old {now : ℕ} {row : Invoice} (howes : Owes row) (hold : Old now row)
    (hstage : row.reminderStage < suspendAt) : isOverdue now row = true := by
  obtain ⟨d, hd, hle⟩ := hold
  have hlt : day * 3 + d < now := by
    have hpos := day_pos
    unfold suspendAt at hle
    generalize day = unit at hpos hle ⊢
    omega
  simp [isOverdue, howes.1, hd, hlt, hstage]

theorem Done.kept {teamId : ℕ} (h : Done s teamId) (ht : isDunning t = true) :
    Done (exec s ok t).1 teamId := by
  intro team hteam
  rcases exec_teams s ok t with heq | ⟨id, reason, rfl, heq⟩ | ⟨id, rfl, _⟩
  · rw [heq] at hteam
    exact h team hteam
  · rw [heq, Table.find_modify] at hteam
    split_ifs at hteam
    · obtain ⟨_, _, rfl⟩ := Option.map_eq_some_iff.mp hteam
      exact .inl rfl
    · exact h team hteam
  · cases ht

theorem find_team_exec {teamId : ℕ} :
    (exec s ok t).1.teams.find teamId = none ↔ s.teams.find teamId = none := by
  rcases exec_teams s ok t with heq | ⟨id, reason, rfl, heq⟩ | ⟨id, rfl, heq⟩
  · rw [heq]
  · rw [heq, Table.find_modify]
    split_ifs
    · simp
    · rfl
  · rw [heq, Table.find_modify]
    split_ifs
    · simp
    · rfl

theorem isDunning_exec {next : Task} (h : next ∈ (exec s ok t).2) (ht : isDunning t = true) :
    isDunning next = true := by
  cases follows_exec h with
  | @startWorkflow id op => cases op <;> exact ht
  | claim _ _ _ | retry | remind | suspend _ _ | store _ _ | powerOff | mark _ _ | stop | enforce
  | enforced _ _ => rfl
  | _ => cases ht

/-- Claims and the end of a run are put by its first queries. -/
theorem readOverdue_of_mem {next : Task} (h : next ∈ (exec s ok t).2)
    (hnext : isClaim next = true ∨ isLate next = true) : ∃ now, t = .readOverdue now := by
  cases follows_exec h with
  | claim _ _ _ => exact ⟨_, rfl⟩
  | retry => exact ⟨_, rfl⟩
  | _ => simp [isClaim, isLate] at hnext

theorem exec_ran (s : Company) (ok : Bool) (t : Task) :
    (exec s ok t).1.ran = s.ran ∨ ∃ now, t = .retryPowerOff now ∧ (exec s ok t).1.ran = now :: s.ran := by
  cases t with
  | retryPowerOff now => exact .inr ⟨now, rfl, rfl⟩
  | claimStage now id inv teamStatus =>
    left
    simp only [exec, claimStage]
    split_ifs <;> rfl
  | suspend teamId reason | enforceSuspension teamId | reinstateIfSettled teamId =>
    left
    simp only [exec]
    split <;> rfl
  | startWorkflow id op | restore id status =>
    left
    simp only [exec]
    split_ifs <;> rfl
  | readOverdue _ | remind _ _ _ _ _ | storeSuspension _ _ | powerOffRunning _ | markPoweredOff _
  | power _ _ | undoStart _ | countOverdue _ | reinstate _ | convertSuspended _
  | listPoweredOff _ | unmark _ => exact .inl rfl

/-- An invoice and the status of its team, as a run read them. -/
structure Read (s : Company) (id : ℕ) (inv : Invoice) (teamStatus : AccountStatus) : Prop where
  row : ∃ stage, s.invoices.find id = some { inv with reminderStage := stage }
  stage : inv.reminderStage < suspendAt
  done : teamStatus = .suspended ∨ teamStatus = .closed → Done s inv.teamId

/-- Every invoice that is due at the time of the run has reached the last stage or
is still to be claimed. -/
def Covers (s : Company) (now : ℕ) (todo : List Task) : Prop :=
  ∀ id row, s.invoices.find id = some row → Owes row → Old now row →
    s.teams.find row.teamId ≠ none →
    suspendAt ≤ row.reminderStage ∨ ∃ inv teamStatus, .claimStage now id inv teamStatus ∈ todo

/-- Whoever claimed the last stage of an invoice suspended its team, or is about to. -/
structure Chased (w : Office) : Prop where
  dunning : ∀ q, ∀ t ∈ w.pc q, isDunning t = true
  read : ∀ q now id inv teamStatus, .claimStage now id inv teamStatus ∈ w.pc q →
    Read w.shared id inv teamStatus
  order : ∀ q, (w.pc q).Pairwise fun a b => isLate a = true → isClaim b = false
  suspended : ∀ id row, w.shared.invoices.find id = some row → Owes row →
    suspendAt ≤ row.reminderStage → Done w.shared row.teamId ∨
      ∃ q, ∃ t ∈ w.pc q, leads row.teamId t = true
  covers : ∀ q now, .retryPowerOff now ∈ w.pc q → Covers w.shared now (w.pc q)
  ran : ∀ now ∈ w.shared.ran, Covers w.shared now []

/-- The mail of a reminder that suspends does not fail, and a claim of the last stage
finds the stage that was read, or the last stage claimed. -/
def Attended (w : Office) (a : ℕ × Act) : Prop :=
  match a.2, w.pc a.1 with
  | .go ok, .remind _ _ stage _ teamStatus :: _ => suspends stage teamStatus = true → ok = true
  | .go _, .claimStage now id inv _ :: _ =>
      suspendAt ≤ reminderStageFor (daysOverdue now inv) → 0 < inv.totalMinor - inv.creditedMinor →
        ∀ row ∈ w.shared.invoices.find id,
          row.reminderStage = inv.reminderStage ∨ suspendAt ≤ row.reminderStage
  | _, _ => True

instance (w : Office) (a : ℕ × Act) : Decidable (Attended w a) := by
  unfold Attended
  split <;> infer_instance

section
variable {w : Office} {i : ℕ} {rest : List Task}

theorem Grows.find {s' : Company} {id : ℕ} {row' : Invoice} (hgrows : Grows s s')
    (h : s'.invoices.find id = some row') : ∃ row stage, s.invoices.find id = some row ∧
      row.reminderStage ≤ stage ∧ row' = { row with reminderStage := stage } := by
  obtain ⟨g, hg, hfind⟩ := hgrows
  rw [hfind] at h
  obtain ⟨row, hrow, rfl⟩ := Option.map_eq_some_iff.mp h
  exact ⟨row, _, hrow, hg id row.reminderStage, rfl⟩

theorem Read.kept {id : ℕ} {inv : Invoice} {teamStatus : AccountStatus}
    (h : Read s id inv teamStatus) (ht : isDunning t = true) :
    Read (exec s ok t).1 id inv teamStatus := by
  obtain ⟨g, _, hfind⟩ := grows_exec s ok t
  obtain ⟨stage, hrow⟩ := h.row
  refine ⟨⟨g id stage, ?_⟩, h.stage, fun hdone => (h.done hdone).kept ht⟩
  rw [hfind, hrow, Option.map_some]

theorem Covers.kept {now : ℕ} {todo : List Task} (h : Covers s now todo) :
    Covers (exec s ok t).1 now todo := by
  intro id row' hrow' howes hold hteam
  obtain ⟨row, stage, hrow, hle, rfl⟩ := (grows_exec s ok t).find hrow'
  rw [Ne, find_team_exec] at hteam
  rcases h id row hrow howes hold hteam with hstage | hclaim
  · exact .inl (le_trans hstage hle)
  · exact .inr hclaim

/-- A claim of an old invoice leaves it at the last stage. -/
theorem Covers.claim {now : ℕ} {todo : List Task} {now' id : ℕ} {inv : Invoice}
    {teamStatus : AccountStatus} (h : Covers w.shared now (.claimStage now' id inv teamStatus :: todo))
    (hpc : w.pc i = .claimStage now' id inv teamStatus :: rest)
    (hread : Read w.shared id inv teamStatus) (hattended : Attended w (i, .go ok)) :
    Covers (exec w.shared ok (.claimStage now' id inv teamStatus)).1 now todo := by
  intro id' row' hrow' howes hold hteam
  obtain ⟨row, stage, hrow, hle, rfl⟩ := (grows_exec _ _ _).find hrow'
  rw [Ne, find_team_exec] at hteam
  rcases h id' row hrow howes hold hteam with hstage | ⟨inv', st', hclaim⟩
  · exact .inl (le_trans hstage hle)
  · rcases List.mem_cons.mp hclaim with heq | hclaim
    · left
      injection heq with hnow hid hinv hst
      subst hnow hid hinv hst
      obtain ⟨stored, hstored⟩ := hread.row
      rw [hrow] at hstored
      cases hstored
      have hlast : reminderStageFor (daysOverdue now inv') = suspendAt :=
        reminderStageFor_of_old hold rfl
      rcases claimStage_cases w.shared ok now id' inv' st' with
        ⟨heq, hwhy⟩ | ⟨row, hrow₀, hread₀, hlt, heq⟩
      · rw [heq, hrow] at hrow'
        have hsame := congrArg Invoice.reminderStage (Option.some.inj hrow')
        simp only [Attended, hpc, hrow] at hattended
        have hcase := hattended hlast.ge howes.2 _ rfl
        have hnotread := hread.stage
        rcases hwhy with hwhy | hwhy | hwhy
        · omega
        · have := howes.2
          dsimp only at this
          omega
        · have := hwhy _ hrow
          dsimp only at this hcase hsame ⊢
          omega
      · rw [heq, Table.find_modify, if_pos rfl, hrow, Option.map_some] at hrow'
        have hsame := congrArg Invoice.reminderStage (Option.some.inj hrow')
        dsimp only at hsame ⊢
        omega
    · exact .inr ⟨inv', st', hclaim⟩

/-- A task that ends with a suspension hands over to the next such task, or ends with it. -/
theorem leads_exec {teamId : ℕ} (hleads : leads teamId t = true) (hpc : w.pc i = t :: rest)
    (hattended : Attended w (i, .go ok)) :
    Done (exec w.shared ok t).1 teamId ∨ ∃ next ∈ (exec w.shared ok t).2, leads teamId next = true := by
  cases t with
  | remind id inv stage days teamStatus =>
    simp only [leads, Bool.decide_and, Bool.decide_eq_true, Bool.and_eq_true,
      decide_eq_true_eq] at hleads
    simp only [Attended, hpc] at hattended
    have hok := hattended hleads.1
    right
    simp [exec, hok, hleads.1, leads, hleads.2]
  | suspend id reason =>
    obtain rfl : id = teamId := by simpa [leads] using hleads
    cases hteam : w.shared.teams.find id with
    | none =>
      left
      intro team hfind
      simp [exec, hteam] at hfind
    | some team =>
      by_cases hclosed : team.status = .closed
      · left
        intro team' hfind
        simp only [exec, hteam] at hfind
        cases hfind
        exact .inr hclosed
      · right
        simp [exec, hteam, hclosed, leads]
  | storeSuspension id reason =>
    obtain rfl : id = teamId := by simpa [leads] using hleads
    left
    intro team hfind
    simp only [exec, Company.setTeam, Table.find_modify, if_pos] at hfind
    obtain ⟨_, _, rfl⟩ := Option.map_eq_some_iff.mp hfind
    exact .inl rfl
  | _ => cases hleads

/-- An invoice that reaches the last stage has a reminder to come that suspends its
team, unless the team was suspended or closed when it was read. -/
theorem suspended_exec {id : ℕ} {row row' : Invoice} (hrow : s.invoices.find id = some row)
    (hrow' : (exec s ok t).1.invoices.find id = some row') (hbefore : row.reminderStage < suspendAt)
    (hafter : suspendAt ≤ row'.reminderStage)
    (hread : ∀ now id inv st, t = .claimStage now id inv st → Read s id inv st) :
    Done s row'.teamId ∨ ∃ next ∈ (exec s ok t).2, leads row'.teamId next = true := by
  have hsame : (exec s ok t).1.invoices = s.invoices → False := by
    intro heq
    rw [heq, hrow] at hrow'
    obtain rfl := Option.some.inj hrow'
    omega
  cases t with
  | claimStage now id' inv teamStatus =>
    have hr := hread now id' inv teamStatus rfl
    rcases claimStage_cases s ok now id' inv teamStatus with ⟨heq, _⟩ | ⟨_, _, _, _, heq⟩
    · exact (hsame (by rw [heq])).elim
    · obtain ⟨stage, hinv⟩ := hr.row
      rw [heq, Table.find_modify] at hrow'
      rw [heq]
      split_ifs at hrow' with hid
      · subst hid
        rw [hinv, Option.map_some] at hrow'
        obtain rfl := Option.some.inj hrow'
        dsimp only at hafter ⊢
        by_cases hdone : teamStatus = .suspended ∨ teamStatus = .closed
        · exact .inl (hr.done hdone)
        · right
          rw [not_or] at hdone
          simp [leads, suspends, hafter, hdone.1, hdone.2]
      · rw [hrow] at hrow'
        obtain rfl := Option.some.inj hrow'
        omega
  | suspend teamId reason | enforceSuspension teamId | reinstateIfSettled teamId =>
    refine (hsame ?_).elim
    simp only [exec]
    split <;> rfl
  | startWorkflow id op | restore id status =>
    refine (hsame ?_).elim
    simp only [exec]
    split_ifs <;> rfl
  | readOverdue _ | remind _ _ _ _ _ | storeSuspension _ _ | powerOffRunning _ | markPoweredOff _
  | power _ _ | undoStart _ | retryPowerOff _ | countOverdue _ | reinstate _ | convertSuspended _
  | listPoweredOff _ | unmark _ => exact (hsame rfl).elim

/-- The first queries of a run put a claim for every invoice that is to be claimed. -/
theorem covers_readOverdue (s : Company) (ok : Bool) (now : ℕ) (todo : List Task) :
    Covers s now ((exec s ok (.readOverdue now)).2 ++ todo) := by
  intro id row hrow howes hold hteam
  by_cases hstage : suspendAt ≤ row.reminderStage
  · exact .inl hstage
  · right
    obtain ⟨team, hteam⟩ := Option.ne_none_iff_exists'.mp hteam
    have hover := isOverdue_of_old howes hold (by omega)
    refine ⟨row, team.status, List.mem_append_left _ (List.mem_append_left _ ?_)⟩
    apply List.mem_filterMap.mpr
    exact ⟨(id, row), mem_overdue.mpr ⟨hrow, hover⟩, by simp [hteam]⟩

theorem order_exec (h : (t :: rest).Pairwise fun a b => isLate a = true → isClaim b = false)
    (ht : isDunning t = true) : ((exec s ok t).2 ++ rest).Pairwise
      fun a b => isLate a = true → isClaim b = false := by
  rw [List.pairwise_cons] at h
  rw [List.pairwise_append]
  by_cases hread : ∃ now, t = .readOverdue now
  · obtain ⟨now, rfl⟩ := hread
    have hrest : ∀ b ∈ rest, isClaim b = false := fun b hb => h.1 b hb rfl
    refine ⟨?_, h.2, fun _ _ b hb _ => hrest b hb⟩
    rw [exec, List.pairwise_append]
    refine ⟨?_, List.pairwise_singleton _ _, ?_⟩
    · apply List.pairwise_of_forall_mem_list
      intro a ha _ _ hlate
      obtain ⟨e, _, he⟩ := List.mem_filterMap.mp ha
      obtain ⟨team, _, rfl⟩ := Option.map_eq_some_iff.mp he
      cases hlate
    · intro a _ b hb _
      obtain rfl := List.mem_singleton.mp hb
      rfl
  · have hnew : ∀ a ∈ (exec s ok t).2, isLate a = false := by
      intro a ha
      cases hlate : isLate a with
      | false => rfl
      | true => exact (hread (readOverdue_of_mem ha (.inr hlate))).elim
    refine ⟨?_, h.2, ?_⟩
    · apply List.pairwise_of_forall_mem_list
      intro a ha _ _ hlate
      rw [hnew a ha] at hlate
      cases hlate
    · intro a ha _ _ hlate
      rw [hnew a ha] at hlate
      cases hlate

theorem Chased.advance (h : Chased w) (hpc : w.pc i = t :: rest)
    (hattended : Attended w (i, .go ok)) : Chased (advance machine w i ok t rest) := by
  have ht : isDunning t = true := h.dunning i t (by simp [hpc])
  have hi : ∀ t' ∈ t :: rest, t' ∈ w.pc i := fun t' ht' => by rwa [hpc]
  have hreads : ∀ now id inv st, t = .claimStage now id inv st → Read w.shared id inv st := by
    rintro now id inv st rfl
    exact h.read i now id inv st (hi _ (by simp))
  constructor
  · intro q t' ht'
    rcases mem_advance hpc ht' with hold | ⟨_, hnew⟩
    · exact h.dunning q t' hold
    · exact isDunning_exec hnew ht
  · intro q now id inv st hclaim
    rcases mem_advance hpc hclaim with hold | ⟨_, hnew⟩
    · exact (h.read q now id inv st hold).kept ht
    · cases follows_exec hnew with
      | claim hfind hover hteam =>
        simp only [isOverdue, Bool.decide_and, Bool.and_eq_true, decide_eq_true_eq] at hover
        refine ⟨⟨inv.reminderStage, hfind⟩, hover.2.2, ?_⟩
        intro hdone team' hteam'
        change w.shared.teams.find inv.teamId = some team' at hteam'
        rw [hteam] at hteam'
        obtain rfl := Option.some.inj hteam'
        exact hdone
  · apply update_cases (P := fun (_ : ℕ) (todo : List Task) => todo.Pairwise fun a b =>
      isLate a = true → isClaim b = false)
    · exact order_exec (hpc ▸ h.order i) ht
    · intro q _
      exact h.order q
  · intro id row' hrow' howes hstage
    obtain ⟨row, stage, hrow, hle, heq⟩ := (grows_exec w.shared ok t).find hrow'
    by_cases hbefore : suspendAt ≤ row.reminderStage
    · subst heq
      rcases h.suspended id row hrow howes hbefore with hdone | ⟨q, t', ht', hleads⟩
      · exact .inl (hdone.kept ht)
      · rcases mem_advance_of_mem hpc ht' with hstill | ⟨rfl, rfl⟩
        · exact .inr ⟨q, t', hstill, hleads⟩
        · rcases leads_exec hleads hpc hattended with hdone | ⟨next, hin, hleads'⟩
          · exact .inl hdone
          · exact .inr ⟨q, next, mem_advance_of_exec hin, hleads'⟩
    · rcases suspended_exec hrow hrow' (by omega) hstage hreads with hdone | ⟨next, hin, hleads⟩
      · exact .inl (hdone.kept ht)
      · exact .inr ⟨i, next, mem_advance_of_exec hin, hleads⟩
  · intro q now hretry
    by_cases hq : q = i
    · subst hq
      simp only [Agenda.advance, Function.update_self] at hretry ⊢
      rcases List.mem_append.mp hretry with hnew | hold
      · cases follows_exec hnew with
        | retry => exact covers_readOverdue w.shared ok now rest
      · have hcov := h.covers q now (hi _ (List.mem_cons_of_mem t hold))
        rw [hpc] at hcov
        have hcov' : Covers (exec w.shared ok t).1 now rest := by
          cases t with
          | claimStage now' id inv st => exact hcov.claim hpc (hreads now' id inv st rfl) hattended
          | _ =>
            apply Covers.kept
            intro id row hrow howes hold' hteam
            rcases hcov id row hrow howes hold' hteam with hstage | ⟨inv, st, hclaim⟩
            · exact .inl hstage
            · exact .inr ⟨inv, st, by simpa using hclaim⟩
        intro id row hrow howes hold' hteam
        rcases hcov' id row hrow howes hold' hteam with hstage | ⟨inv, st, hclaim⟩
        · exact .inl hstage
        · exact .inr ⟨inv, st, List.mem_append_right _ hclaim⟩
    · simp only [Agenda.advance, Function.update_of_ne hq] at hretry ⊢
      exact (h.covers q now hretry).kept
  · intro now hnow
    change now ∈ (exec w.shared ok t).1.ran at hnow
    rcases exec_ran w.shared ok t with heq | ⟨now', rfl, heq⟩
    · rw [heq] at hnow
      exact (h.ran now hnow).kept
    · rw [heq] at hnow
      rcases List.mem_cons.mp hnow with rfl | hnow
      · -- nothing is left to claim behind the end of the run
        apply Covers.kept
        intro id row hrow howes hold hteam
        rcases h.covers i now (hi _ (by simp)) id row hrow howes hold hteam with hstage | ⟨inv, st, hclaim⟩
        · exact .inl hstage
        · rw [hpc] at hclaim
          rcases List.mem_cons.mp hclaim with heq' | hclaim
          · cases heq'
          · have horder := h.order i
            rw [hpc, List.pairwise_cons] at horder
            have := horder.1 _ hclaim rfl
            cases this
      · exact (h.ran now hnow).kept

theorem Chased.step {a : ℕ × Act} (h : Chased w) (ha : isDunningAct a.2 = true)
    (hattended : Attended w a) : Chased (step w a) := by
  rcases step_cases machine w a with heq | ⟨p, hact, hpc, heq⟩ |
    ⟨ok, t, rest, hact, hpc, heq⟩ | ⟨e, hact, heq⟩
  · rw [Trust.step, heq]
    exact h
  · rw [Trust.step, heq]
    rw [hact] at ha
    cases p with
    | dunning now =>
      have hmem : ∀ q, ∀ t ∈ (begin w a.1 (machine.tasks (.dunning now))).pc q,
          t ∈ w.pc q ∨ t = .readOverdue now := by
        apply update_cases (P := fun q todo => ∀ t ∈ todo, t ∈ w.pc q ∨ t = .readOverdue now)
        · intro t ht
          exact .inr (List.mem_singleton.mp ht)
        · intro q _ t ht
          exact .inl ht
      have hstay : ∀ q, ∀ t ∈ w.pc q, t ∈ (begin w a.1 (machine.tasks (.dunning now))).pc q := by
        intro q t ht
        by_cases hq : q = a.1
        · rw [hq, hpc] at ht
          cases ht
        · simpa only [begin, Function.update_of_ne hq] using ht
      constructor
      · intro q t ht
        rcases hmem q t ht with hold | rfl
        · exact h.dunning q t hold
        · rfl
      · intro q now' id inv st hclaim
        rcases hmem q _ hclaim with hold | heq'
        · exact h.read q now' id inv st hold
        · cases heq'
      · apply update_cases (P := fun (_ : ℕ) (todo : List Task) => todo.Pairwise fun a b =>
          isLate a = true → isClaim b = false)
        · exact List.pairwise_singleton _ _
        · intro q _
          exact h.order q
      · intro id row hrow howes hstage
        rcases h.suspended id row hrow howes hstage with hdone | ⟨q, t, ht, hleads⟩
        · exact .inl hdone
        · exact .inr ⟨q, t, hstay q t ht, hleads⟩
      · intro q now' hretry
        rcases hmem q _ hretry with hold | heq'
        · intro id row hrow howes hold' hteam
          rcases h.covers q now' hold id row hrow howes hold' hteam with hstage | ⟨inv, st, hclaim⟩
          · exact .inl hstage
          · exact .inr ⟨inv, st, hstay q _ hclaim⟩
        · cases heq'
      · exact h.ran
    | _ => cases ha
  · rw [Trust.step, heq]
    obtain ⟨i, act⟩ := a
    subst hact
    exact h.advance hpc hattended
  · rw [Trust.step, heq]
    rw [hact] at ha
    cases e with
    | complete j =>
      have hinvoices : (outside w.shared (.complete j)).invoices = w.shared.invoices := by
        simp only [outside]
        split <;> rfl
      have hteams : (outside w.shared (.complete j)).teams = w.shared.teams := by
        simp only [outside]
        split <;> rfl
      have hran : (outside w.shared (.complete j)).ran = w.shared.ran := by
        simp only [outside]
        split <;> rfl
      have hdone : ∀ teamId, Done (outside w.shared (.complete j)) teamId ↔ Done w.shared teamId := by
        intro teamId
        rw [Done, Done, hteams]
      have hcovers : ∀ now todo, Covers (outside w.shared (.complete j)) now todo ↔
          Covers w.shared now todo := by
        intro now todo
        rw [Covers, Covers, hteams, hinvoices]
      constructor
      · exact h.dunning
      · intro q now id inv st hclaim
        have hread := h.read q now id inv st hclaim
        refine ⟨?_, hread.stage, fun hst => (hdone _).mpr (hread.done hst)⟩
        show ∃ stage, (outside w.shared (.complete j)).invoices.find id = _
        rw [hinvoices]
        exact hread.row
      · exact h.order
      · show ∀ id row, (outside w.shared (.complete j)).invoices.find id = some row → _
        rw [hinvoices]
        intro id row hrow howes hstage
        rcases h.suspended id row hrow howes hstage with hd | hlead
        · exact .inl ((hdone _).mpr hd)
        · exact .inr hlead
      · intro q now hretry
        exact (hcovers now _).mpr (h.covers q now hretry)
      · show ∀ now ∈ (outside w.shared (.complete j)).ran, _
        rw [hran]
        intro now hnow
        exact (hcovers now _).mpr (h.ran now hnow)
    | _ => cases ha

end

/-! ## Every sequence of runs -/

/-- Nobody is at work, and every debtor at the last stage is suspended. -/
structure Fresh (w : Office) : Prop where
  idle : ∀ q, w.pc q = []
  reminders : w.shared.reminders = []
  ran : w.shared.ran = []
  suspended : ∀ id row, w.shared.invoices.find id = some row → Owes row →
    suspendAt ≤ row.reminderStage → Done w.shared row.teamId

/-- No reminder was sent twice, no stage went back, and when no run is in progress
the team of every invoice that was at the age for it in some run is suspended or
closed. -/
structure Dunned (w : Office) (acts : List (ℕ × Act)) : Prop where
  once : (run step w acts).shared.reminders.Nodup
  forward : ∀ early late, acts = early ++ late →
    Grows (run step w early).shared (run step w acts).shared
  suspended : (∀ q, (run step w acts).pc q = []) → ∀ now ∈ (run step w acts).shared.ran,
    ∀ id row, (run step w acts).shared.invoices.find id = some row → Owes row → Old now row →
      Done (run step w acts).shared row.teamId

theorem Fresh.sent {w : Office} (h : Fresh w) : Sent w := by
  constructor <;> simp [h.idle, h.reminders]

theorem Fresh.chased {w : Office} (h : Fresh w) : Chased w := by
  constructor
  · simp [h.idle]
  · simp [h.idle]
  · simp [h.idle]
  · intro id row hrow howes hstage
    exact .inl (h.suspended id row hrow howes hstage)
  · simp [h.idle]
  · simp [h.ran]

theorem Grows.trans {s₁ s₂ s₃ : Company} (h : Grows s₁ s₂) (h' : Grows s₂ s₃) : Grows s₁ s₃ := by
  obtain ⟨g, hg, hfind⟩ := h
  obtain ⟨g', hg', hfind'⟩ := h'
  refine ⟨fun id n => g' id (g id n), fun id n => le_trans (hg id n) (hg' id (g id n)), ?_⟩
  intro id
  rw [hfind', hfind, Option.map_map]
  rfl

theorem grows_step (w : Office) {a : ℕ × Act} (ha : isDunningAct a.2 = true) :
    Grows w.shared (step w a).shared := by
  rcases step_cases machine w a with heq | ⟨p, _, _, heq⟩ | ⟨ok, t, rest, _, _, heq⟩ | ⟨e, hact, heq⟩
  · rw [Trust.step, heq]
    exact Grows.of_eq rfl
  · rw [Trust.step, heq]
    exact Grows.of_eq rfl
  · rw [Trust.step, heq]
    exact grows_exec w.shared ok t
  · rw [Trust.step, heq]
    rw [hact] at ha
    cases e with
    | complete j => exact grows_outside_complete w.shared j
    | _ => cases ha

theorem grows_run (w : Office) {acts : List (ℕ × Act)} (hacts : ∀ a ∈ acts, isDunningAct a.2 = true) :
    Grows w.shared (run step w acts).shared := by
  induction acts generalizing w with
  | nil => exact Grows.of_eq rfl
  | cons a acts ih =>
    rw [run_cons]
    apply (grows_step w (hacts a (by simp))).trans
    exact ih _ fun b hb => hacts b (List.mem_cons_of_mem a hb)

/-- Dunning reaches every debtor in every interleaving of runs in which no mail of a
suspending reminder fails and no claim of the last stage is lost to an older run. -/
theorem dunning_reaches_debtors {w : Office} (hfresh : Fresh w) {acts : List (ℕ × Act)}
    (hacts : ∀ a ∈ acts, isDunningAct a.2 = true) (hattended : Meets step Attended w acts) :
    Dunned w acts := by
  have hmeets : Meets step (fun w a => isDunningAct a.2 = true ∧ Attended w a) w acts :=
    hattended.mono fun _ a ha hatt => ⟨hacts a ha, hatt⟩
  have hsent : Sent (run step w acts) :=
    hmeets.invariant (fun _ _ hok h => h.step hok.1) hfresh.sent
  have hchased : Chased (run step w acts) :=
    hmeets.invariant (fun _ _ hok h => h.step hok.1 hok.2) hfresh.chased
  constructor
  · exact hsent.nodup
  · rintro early late rfl
    rw [run_append]
    exact grows_run _ fun a ha => hacts a (List.mem_append_right early ha)
  · intro hidle now hnow id row hrow howes hold team hteam
    have hstage : suspendAt ≤ row.reminderStage := by
      rcases hchased.ran now hnow id row hrow howes hold (by simp [hteam]) with hstage | ⟨_, _, hclaim⟩
      · exact hstage
      · cases hclaim
    rcases hchased.suspended id row hrow howes hstage with hdone | ⟨q, t, ht, _⟩
    · exact hdone team hteam
    · rw [hidle q] at ht
      cases ht

/-! ## A team with one unpaid invoice -/

def unpaid : Invoice := ⟨0, "PRGD-1970-000001", .open, 100, 0, some 0, 0⟩

def debtor : Office where
  shared := ⟨Table.empty.put 0 ⟨.active, none⟩, Table.empty.put 0 unpaid, .empty, [], [], [], []⟩
  pc := fun _ => []

/-- A run at the suspension age, with what becomes of the mail. -/
def firstRun (mail : Bool) : List (ℕ × Act) :=
  [(0, .call (.dunning (day * 14))), (0, .go true), (0, .go true), (0, .go mail), (0, .go true),
    (0, .go true), (0, .go true), (0, .go true)]

/-- The run of the next day. -/
def secondRun : List (ℕ × Act) := [(1, .call (.dunning (day * 15))), (1, .go true), (1, .go true)]

theorem debtor_fresh : Fresh debtor := by
  refine ⟨fun _ => rfl, rfl, rfl, ?_⟩
  intro id row hrow _ hstage
  have hmem : (id, row) ∈ [(0, unpaid)] := Table.find_mem hrow
  obtain ⟨_, rfl⟩ := Prod.mk.inj (List.mem_singleton.mp hmem)
  exact absurd hstage (by decide)

theorem dunning_reaches_debtors_mailed : Dunned debtor (firstRun true ++ secondRun) := by
  apply dunning_reaches_debtors debtor_fresh
  · decide
  · decide +kernel

/-- The mail of the last reminder fails, and the next run, in which nothing fails,
passes the invoice by: the team of an invoice that was due in both is active. -/
theorem suspension_skipped :
    Owes unpaid ∧ Old (day * 14) unpaid ∧ (∀ a ∈ firstRun false ++ secondRun, isDunningAct a.2 = true) ∧
      (run step debtor (firstRun false)).shared.ran = [day * 14] ∧
      ¬ Done (run step debtor (firstRun false)).shared unpaid.teamId ∧
      (run step debtor (firstRun false ++ secondRun)).shared.ran = [day * 15, day * 14] ∧
      ¬ Done (run step debtor (firstRun false ++ secondRun)).shared unpaid.teamId := by
  have hfirst : (run step debtor (firstRun false)).shared.teams.find unpaid.teamId =
      some ⟨.active, none⟩ := by decide +kernel
  have hsecond : (run step debtor (firstRun false ++ secondRun)).shared.teams.find unpaid.teamId =
      some ⟨.active, none⟩ := by decide +kernel
  refine ⟨⟨rfl, by decide⟩, ⟨0, rfl, by decide⟩, by decide +kernel, by decide +kernel, ?_,
    by decide +kernel, ?_⟩
  · intro h
    simpa using h _ hfirst
  · intro h
    simpa using h _ hsecond

end Prgd.Trust
