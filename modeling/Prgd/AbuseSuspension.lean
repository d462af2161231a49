import Prgd.Trust

/-!
# Paying does not lift a suspension for abuse

The reason of a suspension is one column. `reinstateIfSettled` lifts a suspension
whose reason it read as one for billing; dunning stores such a reason over whatever
is there when it read the team as not suspended. Both act on what they read before.

The module proves that a suspension for abuse stays, in every interleaving in which
none is stored while a dunning run or a reinstatement that has read the team is
still on its way to write it.
-/
namespace Prgd.Trust
open Interleaving Agenda
open Spend (AccountStatus)

/-- Tasks that end with a reason for billing stored over another one, or with the
suspension lifted. -/
def threatens (teamId : ℕ) : Task → Bool
  | .claimStage now _ inv teamStatus =>
      inv.teamId = teamId ∧ suspends (reminderStageFor (daysOverdue now inv)) teamStatus
  | .remind _ inv stage _ teamStatus => inv.teamId = teamId ∧ suspends stage teamStatus
  | .suspend id reason | .storeSuspension id reason => id = teamId ∧ isBilling reason
  | .countOverdue id | .reinstate id => id = teamId
  | _ => false

/-- The team is closed, or suspended for another reason than billing. -/
def Barred (s : Company) (teamId : ℕ) : Prop :=
  ∀ team, s.teams.find teamId = some team → team.status = .closed ∨
    team.status = .suspended ∧ team.suspensionReason.any isBilling = false

/-- Whoever suspended for abuse is not undone by what is under way. -/
structure Guarded (w : Office) : Prop where
  barred : ∀ teamId ∈ w.shared.abused, Barred w.shared teamId
  quiet : ∀ teamId ∈ w.shared.abused, ∀ q, ∀ t ∈ w.pc q, threatens teamId t = false

/-- A suspension for abuse is stored when nothing that threatens it is under way. -/
def Apart (w : Office) (a : ℕ × Act) : Prop :=
  match a.2, w.pc a.1 with
  | .go _, .storeSuspension teamId reason :: _ =>
      isBilling reason = false → ∀ q, ∀ t ∈ w.pc q, threatens teamId t = false
  | _, _ => True

/-- The calls of the setting: no staff reinstates, and who suspends by hand gives
another reason than billing. -/
def isPlain : Act → Bool
  | .call (.reinstate _) => false
  | .call (.suspend _ reason) => ¬ isBilling reason
  | _ => true

variable {s : Company} {ok : Bool} {t next : Task} {teamId : ℕ}

theorem isBilling_automatic (kind : AbuseKind) : isBilling ("automatic: " ++ kind.name) = false := by
  cases kind <;> decide

/-- What follows a task that is no threat to a barred team is none either. -/
theorem threatens_exec (h : next ∈ (exec s ok t).2) (hbarred : Barred s teamId)
    (ht : threatens teamId t = false) : threatens teamId next = false := by
  cases follows_exec h with
  | @claim now id inv team _ _ hteam =>
    by_cases hid : inv.teamId = teamId
    · subst hid
      rcases hbarred team hteam with hstatus | ⟨hstatus, _⟩ <;> simp [threatens, suspends, hstatus]
    · simp [threatens, hid]
  | @suspend id stage days inv teamStatus _ hsuspends =>
    have hid : inv.teamId ≠ teamId := by simpa [threatens, hsuspends] using ht
    simp [threatens, hid]
  | @count id team hteam hstatus hbilling =>
    have hid : id ≠ teamId := by
      rintro rfl
      rcases hbarred team hteam with hclosed | ⟨_, hother⟩
      · rw [hstatus] at hclosed
        cases hclosed
      · rw [hbilling] at hother
        cases hother
    simp [threatens, hid]
  | remind | store _ _ | reinstate _ => exact ht
  | _ => rfl

/-- A task that is no threat leaves a barred team barred. -/
theorem Barred.exec (h : Barred s teamId) (ht : threatens teamId t = false) :
    Barred (exec s ok t).1 teamId := by
  intro team hteam
  rcases exec_teams s ok t with heq | ⟨id, reason, rfl, heq⟩ | ⟨id, rfl, heq⟩
  · rw [heq] at hteam
    exact h team hteam
  · rw [heq, Table.find_modify] at hteam
    split_ifs at hteam with hid
    · subst hid
      obtain ⟨_, _, rfl⟩ := Option.map_eq_some_iff.mp hteam
      right
      simpa [threatens] using ht
    · exact h team hteam
  · have hid : teamId ≠ id := by
      rintro rfl
      simp [threatens] at ht
    rw [heq, Table.find_modify, if_neg hid] at hteam
    exact h team hteam

/-- Teams are added to the ones suspended for abuse when such a suspension is stored. -/
theorem exec_abused (h : teamId ∈ (exec s ok t).1.abused) : teamId ∈ s.abused ∨
    ∃ reason, t = .storeSuspension teamId reason ∧ isBilling reason = false := by
  cases t with
  | storeSuspension id reason =>
    simp only [exec] at h
    split_ifs at h with hbilling
    · exact .inl h
    · rcases List.mem_cons.mp h with rfl | h
      · exact .inr ⟨reason, rfl, by simpa using hbilling⟩
      · exact .inl h
  | claimStage now id inv teamStatus =>
    left
    simp only [exec, claimStage] at h
    split_ifs at h <;> exact h
  | suspend teamId reason | enforceSuspension teamId | reinstateIfSettled teamId =>
    left
    simp only [exec] at h
    split at h <;> exact h
  | startWorkflow id op | restore id status =>
    left
    simp only [exec] at h
    split_ifs at h <;> exact h
  | readOverdue _ | remind _ _ _ _ _ | powerOffRunning _ | markPoweredOff _
  | power _ _ | undoStart _ | retryPowerOff _ | countOverdue _ | reinstate _ | convertSuspended _
  | listPoweredOff _ | unmark _ => exact .inl h

section
variable {w : Office} {i : ℕ} {rest : List Task}

theorem Guarded.advance (h : Guarded w) (hpc : w.pc i = t :: rest) (hapart : Apart w (i, .go ok)) :
    Guarded (advance machine w i ok t rest) := by
  have hmem : t ∈ w.pc i := by simp [hpc]
  -- a team that is suspended for abuse in this step is not threatened either
  have hcases : ∀ id ∈ (exec w.shared ok t).1.abused,
      Barred (exec w.shared ok t).1 id ∧ (∀ q, ∀ t ∈ w.pc q, threatens id t = false) ∧
        ∀ next ∈ (exec w.shared ok t).2, threatens id next = false := by
    intro id hid
    rcases exec_abused hid with hold | ⟨reason, rfl, hreason⟩
    · have hquiet := h.quiet id hold
      refine ⟨(h.barred id hold).exec (hquiet i t hmem), hquiet, ?_⟩
      intro next hnext
      exact threatens_exec hnext (h.barred id hold) (hquiet i t hmem)
    · simp only [Apart, hpc] at hapart
      refine ⟨?_, hapart hreason, ?_⟩
      · intro team hteam
        simp only [exec, Company.setTeam, Table.find_modify, if_pos] at hteam
        obtain ⟨_, _, rfl⟩ := Option.map_eq_some_iff.mp hteam
        right
        simpa using hreason
      · intro next hnext
        obtain rfl := List.mem_singleton.mp hnext
        rfl
  constructor
  · intro id hid
    exact (hcases id hid).1
  · intro id hid q t' ht'
    rcases mem_advance hpc ht' with hold | ⟨_, hnew⟩
    · exact (hcases id hid).2.1 q t' hold
    · exact (hcases id hid).2.2 t' hnew

/-- The first task of a plain call is no threat. -/
theorem threatens_tasks {p : Proc} (hp : isPlain (.call p) = true) (h : t ∈ p.tasks) :
    threatens teamId t = false := by
  cases p with
  | reinstate id => cases hp
  | flag id kind score =>
    simp only [Proc.tasks] at h
    split_ifs at h
    · obtain rfl := List.mem_singleton.mp h
      simp [threatens, isBilling_automatic]
    · cases h
  | suspend id reason =>
    obtain rfl := List.mem_singleton.mp h
    have hreason : isBilling reason = false := by simpa [isPlain] using hp
    simp [threatens, hreason]
  | dunning _ | enforceSuspension _ | reinstateIfSettled _ =>
    obtain rfl := List.mem_singleton.mp h
    rfl

theorem Barred.outside (h : Barred s teamId) (e : Event) : Barred (outside s e) teamId := by
  intro team hteam
  cases e with
  | complete j =>
    have hteams : (Trust.outside s (.complete j)).teams = s.teams := by
      simp only [Trust.outside]
      split <;> rfl
    rw [hteams] at hteam
    exact h team hteam
  | close id =>
    simp only [Trust.outside, Table.find_modify] at hteam
    split_ifs at hteam
    · obtain ⟨_, _, rfl⟩ := Option.map_eq_some_iff.mp hteam
      exact .inl rfl
    · exact h team hteam
  | bill _ _ | touch _ _ => exact h team hteam

theorem outside_abused (s : Company) (e : Event) : (outside s e).abused = s.abused := by
  cases e with
  | complete j =>
    simp only [outside]
    split <;> rfl
  | _ => rfl

theorem Guarded.step {a : ℕ × Act} (h : Guarded w) (ha : isPlain a.2 = true) (hapart : Apart w a) :
    Guarded (step w a) := by
  rcases step_cases machine w a with heq | ⟨p, hact, _, heq⟩ |
    ⟨ok, t, rest, hact, hpc, heq⟩ | ⟨e, _, heq⟩
  · rw [Trust.step, heq]
    exact h
  · rw [Trust.step, heq]
    rw [hact] at ha
    refine ⟨h.barred, ?_⟩
    intro id hid
    apply update_cases (P := fun _ todo => ∀ t ∈ todo, threatens id t = false)
    · intro t ht
      exact threatens_tasks ha ht
    · intro q _
      exact h.quiet id hid q
  · rw [Trust.step, heq]
    obtain ⟨i, act⟩ := a
    subst hact
    exact h.advance hpc hapart
  · rw [Trust.step, heq]
    constructor
    · intro id hid
      change id ∈ (outside w.shared e).abused at hid
      rw [outside_abused] at hid
      exact (h.barred id hid).outside e
    · intro id hid
      change id ∈ (outside w.shared e).abused at hid
      rw [outside_abused] at hid
      exact h.quiet id hid

end

/-- Every team for which a suspension for abuse was stored is suspended or closed. -/
def AbuseStays (s : Company) : Prop :=
  ∀ teamId ∈ s.abused, ∀ team, s.teams.find teamId = some team →
    team.status = .suspended ∨ team.status = .closed

/-- Paying does not lift a suspension for abuse, in every interleaving in which none is
stored between what dunning or a reinstatement reads of the team and what it writes. -/
theorem abuse_suspension_stays {w : Office} (hidle : ∀ q, w.pc q = []) (habused : w.shared.abused = [])
    {acts : List (ℕ × Act)} (hacts : ∀ a ∈ acts, isPlain a.2 = true)
    (hapart : Meets step Apart w acts) : AbuseStays (run step w acts).shared := by
  have hmeets : Meets step (fun w a => isPlain a.2 = true ∧ Apart w a) w acts :=
    hapart.mono fun _ a ha hap => ⟨hacts a ha, hap⟩
  have hstart : Guarded w := by constructor <;> simp [hidle, habused]
  have hguarded : Guarded (run step w acts) :=
    hmeets.invariant (fun _ _ hok h => h.step hok.1 hok.2) hstart
  intro teamId hid team hteam
  rcases hguarded.barred teamId hid team hteam with hclosed | ⟨hsuspended, _⟩
  · exact .inr hclosed
  · exact .inl hsuspended

/-! ## A team that owes an invoice and is flagged -/

def overdueInvoice : Invoice := ⟨0, "PRGD-1970-000001", .open, 100, 0, some 0, 0⟩

def flaggedTeam : Office where
  shared := ⟨Table.empty.put 0 ⟨.active, none⟩, Table.empty.put 0 overdueInvoice, .empty, [], [], [],
    []⟩
  pc := fun _ => []

/-- The flag: read the team, store the suspension, look for servers. -/
def flagging : List (ℕ × Act) := [(1, .call (.flag 0 .mining 95)), (1, .go true), (1, .go true), (1, .go true)]

/-- The invoice is paid, and what was paid for is looked at. -/
def paying : List (ℕ × Act) :=
  [(2, .outside (.bill 0 { overdueInvoice with status := .paid, reminderStage := 14 })),
    (2, .call (.reinstateIfSettled 0)), (2, .go true), (2, .go true), (2, .go true)]

/-- A dunning run, up to the mail and from there on. -/
def dunningStarts : List (ℕ × Act) := [(0, .call (.dunning (day * 14))), (0, .go true)]
def dunningGoesOn : List (ℕ × Act) := [(0, .go true), (0, .go true), (0, .go true), (0, .go true),
  (0, .go true), (0, .go true)]

/-- What `Apart` asks of the first three callers. -/
def apartHere (w : Office) (a : ℕ × Act) : Bool :=
  match a.2, w.pc a.1 with
  | .go _, .storeSuspension teamId reason :: _ =>
      isBilling reason || (w.pc 0 ++ w.pc 1 ++ w.pc 2).all fun t => !threatens teamId t
  | _, _ => true

theorem apart_of_apartHere {w : Office} {a : ℕ × Act} (h : apartHere w a = true)
    (hidle : ∀ q, 3 ≤ q → w.pc q = []) : Apart w a := by
  unfold apartHere at h
  unfold Apart
  split
  · rename_i ok teamId reason rest hact hpc
    simp only [hact, hpc] at h
    intro hreason q t ht
    rw [hreason, Bool.false_or, List.all_eq_true] at h
    have hq : q = 0 ∨ q = 1 ∨ q = 2 := by
      by_contra hq
      rw [hidle q (by omega)] at ht
      cases ht
    have hmem : t ∈ w.pc 0 ++ w.pc 1 ++ w.pc 2 := by
      rw [List.mem_append, List.mem_append]
      rcases hq with rfl | rfl | rfl
      · exact .inl (.inl ht)
      · exact .inl (.inr ht)
      · exact .inr ht
    simpa using h t hmem
  · trivial

theorem abuse_suspension_stays_flagged :
    AbuseStays (run step flaggedTeam (flagging ++ (dunningStarts ++ dunningGoesOn ++ paying))).shared := by
  have hhere : Meets step (fun w a => apartHere w a = true) flaggedTeam
      (flagging ++ (dunningStarts ++ dunningGoesOn ++ paying)) := by decide +kernel
  have hidle : Meets step (fun w a => (∀ q, 3 ≤ q → w.pc q = []) → Apart w a) flaggedTeam
      (flagging ++ (dunningStarts ++ dunningGoesOn ++ paying)) :=
    hhere.mono fun w a _ h hidle => apart_of_apartHere h hidle
  have hcallers : ∀ a ∈ flagging ++ (dunningStarts ++ dunningGoesOn ++ paying), a.1 < 3 := by
    decide
  apply abuse_suspension_stays (fun _ => rfl) rfl
  · decide
  · exact Meets.of_idle hidle (fun _ _ => rfl) hcallers

/-- Dunning reads an active team, the flag suspends it, dunning stores its own reason
over the one of the flag, and the payment lifts the suspension. -/
theorem abuse_suspension_lifted :
    (∀ a ∈ dunningStarts ++ flagging ++ dunningGoesOn ++ paying, isPlain a.2 = true) ∧
      ¬ AbuseStays (run step flaggedTeam (dunningStarts ++ flagging ++ dunningGoesOn ++ paying)).shared := by
  have habused : 0 ∈ (run step flaggedTeam
      (dunningStarts ++ flagging ++ dunningGoesOn ++ paying)).shared.abused := by decide +kernel
  have hteam : (run step flaggedTeam
      (dunningStarts ++ flagging ++ dunningGoesOn ++ paying)).shared.teams.find 0 =
        some ⟨.active, none⟩ := by decide +kernel
  refine ⟨by decide, ?_⟩
  intro h
  simpa using h 0 habused _ hteam

end Prgd.Trust
