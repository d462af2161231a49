import Prgd.ApiError
import Prgd.Compute
import Prgd.Text

/-!
# Reverse DNS of an address

The row of one public address, the PTR that the nameservers publish for it, and the calls that touch
either. Each statement of the database and each call of the provider is one step; a call of the
provider may fail without effect, and calls interleave in any order.

A push reads the name of the row, publishes it and then marks the row as synced, with no look at
what happened in between. A release clears the name and leaves the mark. Where neither goes wrong,
what is published is the name of the row, once nothing is under way.
-/
namespace Prgd.Dns
open Compute Interleaving

structure Row where
  id : String
  ip : PublicIp
  reverseDns : Option Text := none
  reverseDnsSynced : Bool := true
  deriving DecidableEq

structure Shared where
  row : Row
  /-- The PTR at the nameservers. -/
  published : Option Text
  deriving DecidableEq

inductive Call where
  | setReverseDns (projectId : ℕ) (name : Option Text)
  | resyncPending
  | reserve (projectId : ℕ) (serverId : Option ℕ) (attempt : ℕ)
  | release
  | releaseForServer (serverId : ℕ)
  | releaseReserved (projectId : ℕ)
  deriving DecidableEq

/-- Who waits for a push. -/
inductive Pusher where
  | set | resync
  deriving DecidableEq

inductive Pc where
  | idle
  | started (call : Call)
  | setting (name : Option Text)
  | pushing (p : Pusher)
  /-- The row is read. -/
  | publishing (p : Pusher) (name : Option Text)
  | marking (p : Pusher) (name : Option Text)
  /-- `setReverseDns` reads the row for its answer. -/
  | presenting
  | reserving (projectId : ℕ) (serverId : Option ℕ) (attempt : ℕ)
  | reserved
  | releasing
  | unassigning
  | done
  | failed (error : ApiError)
  | threw (message : String)
  deriving DecidableEq

inductive Act where
  | call (c : Call)
  /-- The next step; the provider answers well or fails. -/
  | next (ok : Bool)
  deriving DecidableEq

def isLabelChar (c : Char) : Bool := Text.isLetter c || Text.isDigit c || c == '_' || c == '-'

/-- One to 63 characters, with no dash at either end. -/
def isLabel (l : Text) : Bool :=
  l.all isLabelChar && decide (1 ≤ l.length ∧ l.length ≤ 63) && l.head? != some '-' &&
    l.getLast? != some '-'

/-- The pattern `HOSTNAME`. -/
def isHostname (name : Text) : Bool :=
  decide (1 ≤ name.length ∧ name.length ≤ 253) && (Text.split name ['.']).all isLabel

/-- Without a dot at the end. -/
def stripDot (name : Text) : Text := if name.getLast? = some '.' then name.dropLast else name

def invalidName : ApiError := .invalid "name must be a hostname such as mail.example.com" []

/-- The name that `setReverseDns` stores for what it is given. -/
def reverseName (lower : Text → Text) : Option Text → Except ApiError (Option Text)
  | none => .ok none
  | some given =>
      if given = [] then .ok none
      else
        let name := stripDot (lower given)
        if name ≠ [] ∧ (isHostname name = false ∨ '.' ∉ name) then .error invalidName
        else .ok (some name)

/-- `setPtr`: no record for `null`, and none for the empty name. -/
def setPtr (name : Option Text) : Option Text := name.filter (· ≠ [])

def Row.release (row : Row) : Row := { row with ip := releaseIp row.ip, reverseDns := none }

/-- Where a push returns to. -/
def Pusher.next : Pusher → Pc
  | .set => .presenting
  | .resync => .done

def mustOwn (row : Row) (projectId : ℕ) : Option ApiError :=
  if row.ip.projectId ≠ some projectId then some (.notFound "public ip" row.id)
  else if row.ip.managed then
    some (.invalidState "This address belongs to a managed product and cannot move")
  else none

/-- The first statement of a call. -/
def begin (lower : Text → Text) (s : Shared) : Call → Shared × Pc
  | .setReverseDns projectId name =>
      if s.row.ip.projectId ≠ some projectId then (s, .failed (.notFound "public_ip" s.row.id))
      else match reverseName lower name with
        | .error e => (s, .failed e)
        | .ok name => (s, .setting name)
  | .resyncPending => (s, if s.row.reverseDnsSynced then .done else .pushing .resync)
  | .reserve projectId serverId attempt =>
      -- Another address is taken where this one is not free.
      (s, if s.row.ip.status = .free then .reserving projectId serverId attempt else .done)
  | .release => ({ s with row := s.row.release }, .done)
  | .releaseForServer serverId =>
      if s.row.ip.serverId = some serverId then
        (s, if s.row.ip.floating then .unassigning else .releasing)
      else (s, .done)
  | .releaseReserved projectId =>
      match mustOwn s.row projectId with
      | some e => (s, .failed e)
      | none =>
          if s.row.ip.serverId.isSome then
            (s, .failed (.invalidState "Detach the address from its server first"))
          else (s, .releasing)

def next (lower : Text → Text) (ok : Bool) (s : Shared) : Pc → Option (Shared × Pc)
  | .started call => some (begin lower s call)
  | .setting name =>
      some ({ s with row := { s.row with reverseDns := name, reverseDnsSynced := false } },
        .pushing .set)
  | .pushing p => some (s, .publishing p s.row.reverseDns)
  | .publishing p name =>
      if ok then some ({ s with published := setPtr name }, .marking p name) else some (s, p.next)
  | .marking p _ => some ({ s with row := { s.row with reverseDnsSynced := true } }, p.next)
  | .presenting => some (s, .done)
  | .reserving projectId serverId attempt =>
      if s.row.ip.status = .free then
        some ({ s with row := { s.row with ip := { s.row.ip with
          status := if serverId.isSome then .assigned else .reserved
          projectId := some projectId
          serverId := serverId } } }, .reserved)
      else if attempt + 1 < 5 then some (s, .started (.reserve projectId serverId (attempt + 1)))
      else some (s, .threw "could not reserve a public IP after 5 attempts")
  | .reserved => some (s, .done)
  | .releasing => some ({ s with row := s.row.release }, .done)
  | .unassigning => some ({ s with row := { s.row with ip := unassignIp s.row.ip } }, .done)
  | .idle | .done | .failed _ | .threw _ => none

def trans (lower : Text → Text) (_ : ℕ) (s : Shared) (a : Act) (pc : Pc) : Option (Shared × Pc) :=
  match a with
  | .call c => if pc = .idle then some (s, .started c) else none
  | .next ok => next lower ok s pc

abbrev step (lower : Text → Text) : World Shared Pc → ℕ × Act → World Shared Pc :=
  callerStep (trans lower)

/-- An address without a name. -/
def start (id : String) (ip : PublicIp) : World Shared Pc := ⟨⟨{ id, ip }, none⟩, fun _ => .idle⟩

/-- No operation is in progress. -/
def Quiet (w : World Shared Pc) : Prop :=
  ∀ q, w.pc q = .idle ∨ w.pc q = .done ∨ (∃ e, w.pc q = .failed e) ∨ ∃ m, w.pc q = .threw m

/-- A row that is marked has its name published. -/
def Follows (s : Shared) : Prop := s.row.reverseDnsSynced = true → s.published = s.row.reverseDns

/-- What the next step of a call must find. A push marks the row only while the name that it has
read is still the name of the row and still the one published; an address is released only without
a name or before its name is marked; and nobody stores the empty name, which publishes nothing. -/
def Ready (s : Shared) : Pc → Prop
  | .setting name => name ≠ some []
  | .marking _ name => s.row.reverseDns = name ∧ s.published = name
  | .started .release | .releasing => s.row.reverseDns = none ∨ s.row.reverseDnsSynced = false
  | _ => True

def Timely (w : World Shared Pc) (a : ℕ × Act) : Prop :=
  (∃ c, a.2 = .call c) ∨ Ready w.shared (w.pc a.1)

/-- The name in the hands of a push can be published. -/
def Named : Pc → Prop
  | .publishing _ name | .marking _ name => name ≠ some []
  | _ => True

/-- A row that is marked has its name published, or the push that published last comes to mark it. -/
structure Sound (w : World Shared Pc) : Prop where
  name : w.shared.row.reverseDns ≠ some []
  named : ∀ q, Named (w.pc q)
  marked : w.shared.row.reverseDnsSynced = true → w.shared.published = w.shared.row.reverseDns ∨
    ∃ q p, w.pc q = .marking p w.shared.published

section
variable {lower : Text → Text} {w : World Shared Pc} {s s' : Shared} {pc pc' : Pc} {a : ℕ × Act}

/-- A step that is not the mark of a push, and leaves the PTR and the mark of the row. -/
theorem Sound.quiet {i : ℕ} (h : Sound w) (hpublished : s'.published = w.shared.published)
    (hname : s'.row.reverseDns = w.shared.row.reverseDns)
    (hmark : s'.row.reverseDnsSynced = w.shared.row.reverseDnsSynced)
    (hpc : ∀ p name, w.pc i ≠ .marking p name) (hnamed : Named pc') :
    Sound ⟨s', Function.update w.pc i pc'⟩ := by
  refine ⟨by rw [hname]; exact h.name, update_cases (P := fun _ pc => Named pc) hnamed fun q _ =>
    h.named q, fun hsynced => ?_⟩
  rw [hpublished, hname]
  refine (h.marked (hmark.symm.trans hsynced)).imp_right ?_
  rintro ⟨q, p, hq⟩
  refine ⟨q, p, ?_⟩
  have hne : q ≠ i := by
    rintro rfl
    exact hpc p _ hq
  exact (Function.update_of_ne hne _ _).trans hq

/-- A step after which the row is not marked, or has its name published. -/
theorem Sound.settled {i : ℕ} (h : Sound w) (hname : s'.row.reverseDns ≠ some [])
    (hfollows : Follows s') (hnamed : Named pc') : Sound ⟨s', Function.update w.pc i pc'⟩ :=
  ⟨hname, update_cases (P := fun _ pc => Named pc) hnamed fun q _ => h.named q, fun hsynced =>
    .inl (hfollows hsynced)⟩

theorem setPtr_of_ne {name : Option Text} (h : name ≠ some []) : setPtr name = name := by
  cases name with
  | none => rfl
  | some n =>
    have hn : n ≠ [] := fun hnil => h (by rw [hnil])
    simp [setPtr, hn]

/-- A release of a row whose name is not published, or not marked. -/
theorem Sound.release {i : ℕ} (h : Sound w)
    (hrow : w.shared.row.reverseDns = none ∨ w.shared.row.reverseDnsSynced = false)
    (hpc : ∀ p name, w.pc i ≠ .marking p name) (hnamed : Named pc') :
    Sound ⟨{ w.shared with row := w.shared.row.release }, Function.update w.pc i pc'⟩ := by
  rcases hrow with hnone | hunsynced
  · exact h.quiet rfl hnone.symm rfl hpc hnamed
  · refine h.settled nofun (fun hsynced => ?_) hnamed
    rw [show ({ w.shared with row := w.shared.row.release } : Shared).row.reverseDnsSynced =
      w.shared.row.reverseDnsSynced from rfl, hunsynced] at hsynced
    cases hsynced

theorem named_next (p : Pusher) : Named p.next := by cases p <;> trivial

theorem begin_quiet {call : Call} (hcall : call ≠ .release) :
    (begin lower s call).1 = s ∧ Named (begin lower s call).2 := by
  cases call with
  | setReverseDns projectId name =>
    simp only [begin]
    split_ifs
    · exact ⟨rfl, trivial⟩
    · split <;> exact ⟨rfl, trivial⟩
  | resyncPending =>
    refine ⟨rfl, ?_⟩
    simp only [begin]
    split_ifs <;> trivial
  | reserve projectId serverId attempt =>
    refine ⟨rfl, ?_⟩
    simp only [begin]
    split_ifs <;> trivial
  | release => exact (hcall rfl).elim
  | releaseForServer serverId =>
    simp only [begin]
    split_ifs <;> exact ⟨rfl, trivial⟩
  | releaseReserved projectId =>
    simp only [begin]
    split
    · exact ⟨rfl, trivial⟩
    · split_ifs <;> exact ⟨rfl, trivial⟩

theorem sound_next {i : ℕ} {ok : Bool} (htimely : Timely w (i, .next ok))
    (hnext : next lower ok w.shared (w.pc i) = some (s', pc')) (h : Sound w) :
    Sound ⟨s', Function.update w.pc i pc'⟩ := by
  have hcond := htimely.resolve_left (by rintro ⟨c, hc⟩; cases hc)
  generalize hpc : w.pc i = pc at hnext hcond
  have hplain : (∀ p name, pc ≠ .marking p name) → ∀ p name, w.pc i ≠ .marking p name :=
    fun hne p name => hpc ▸ hne p name
  cases pc with
  | started call =>
    by_cases hcall : call = .release
    · subst hcall
      cases hnext
      exact h.release hcond (hplain fun _ _ => nofun) trivial
    · have hquiet : (begin lower w.shared call).1 = w.shared ∧ Named (begin lower w.shared call).2 :=
        begin_quiet hcall
      obtain ⟨hsame, hnamed⟩ := hquiet
      rw [Option.some.inj hnext] at hsame hnamed
      dsimp only at hsame hnamed
      rw [hsame]
      exact h.quiet rfl rfl rfl (hplain fun _ _ => nofun) hnamed
  | setting name =>
    cases hnext
    exact h.settled hcond nofun trivial
  | pushing p =>
    cases hnext
    exact h.quiet rfl rfl rfl (hplain fun _ _ => nofun) h.name
  | publishing p name =>
    have hname : name ≠ some [] := by
      have := h.named i
      rwa [hpc] at this
    simp only [next] at hnext
    split_ifs at hnext <;> cases hnext
    · rw [setPtr_of_ne hname]
      refine ⟨h.name, update_cases (P := fun _ pc => Named pc) hname fun q _ => h.named q, fun _ => ?_⟩
      exact .inr ⟨i, p, Function.update_self _ _ _⟩
    · exact h.quiet rfl rfl rfl (hplain fun _ _ => nofun) (named_next p)
  | marking p name =>
    cases hnext
    refine h.settled h.name (fun _ => ?_) (named_next p)
    exact hcond.2.trans hcond.1.symm
  | presenting =>
    cases hnext
    exact h.quiet rfl rfl rfl (hplain fun _ _ => nofun) trivial
  | reserving projectId serverId attempt =>
    simp only [next] at hnext
    split_ifs at hnext <;> cases hnext <;>
      exact h.quiet rfl rfl rfl (hplain fun _ _ => nofun) trivial
  | reserved =>
    cases hnext
    exact h.quiet rfl rfl rfl (hplain fun _ _ => nofun) trivial
  | releasing =>
    cases hnext
    exact h.release hcond (hplain fun _ _ => nofun) trivial
  | unassigning =>
    cases hnext
    exact h.quiet rfl rfl rfl (hplain fun _ _ => nofun) trivial
  | idle => cases hnext
  | done => cases hnext
  | failed e => cases hnext
  | threw m => cases hnext

theorem sound_step (htimely : Timely w a) (h : Sound w) : Sound (step lower w a) := by
  rcases callerStep_cases (trans lower) w a with heq | ⟨s, c, htrans, heq⟩
  · rw [step, heq]
    exact h
  · rw [step, heq]
    obtain ⟨i, act⟩ := a
    cases act with
    | call c =>
      simp only [trans] at htrans
      split_ifs at htrans with hidle
      cases htrans
      refine h.quiet rfl rfl rfl (fun p name => ?_) trivial
      rw [hidle]
      exact nofun
    | next ok => exact sound_next htimely htrans h

theorem Sound.follows (h : Sound w) (hquiet : Quiet w) : Follows w.shared := by
  intro hsynced
  refine (h.marked hsynced).resolve_right ?_
  rintro ⟨q, p, hq⟩
  rcases hquiet q with hidle | hdone | ⟨e, hfailed⟩ | ⟨m, hthrew⟩
  · rw [hq] at hidle
    cases hidle
  · rw [hq] at hdone
    cases hdone
  · rw [hq] at hfailed
    cases hfailed
  · rw [hq] at hthrew
    cases hthrew

end

/-- Where no push is overtaken and no published name is released, the PTR of an address at rest is
the name of its row. -/
theorem ptr_follows (lower : Text → Text) (id : String) (ip : PublicIp) (as : List (ℕ × Act))
    (h : Meets (step lower) Timely (start id ip) as)
    (hquiet : Quiet (run (step lower) (start id ip) as)) :
    Follows (run (step lower) (start id ip) as).shared := by
  have hsound : Sound (start id ip) := ⟨nofun, fun _ => trivial, fun _ => .inl rfl⟩
  exact (h.invariant (fun _ _ htimely hw => sound_step htimely hw) hsound).follows hquiet

/-! ## A name that outlives its owner -/

def someIp : PublicIp :=
  { regionId := 1, projectId := some 7, status := .reserved, floating := true }

def after (as : List (ℕ × Act)) : World Shared Pc :=
  run (step Text.asciiLower) (start "ip1" someIp) as

def mail : Text := "mail.example.com".toList

def web : Text := "web.example.com".toList

/-- A call takes its next steps. -/
def goes (i : ℕ) (c : Call) (n : ℕ) : List (ℕ × Act) :=
  (i, .call c) :: List.replicate n (i, .next true)

/-- A name is set, the address is released, and another project reserves it. -/
def changesHands : List (ℕ × Act) :=
  goes 0 (.setReverseDns 7 (some mail)) 6 ++ goes 1 (.releaseReserved 7) 2 ++
    goes 2 (.reserve 8 none 0) 3

/-- A push has read its row when a second name is set and published. -/
def overtaken : List (ℕ × Act) :=
  goes 0 (.setReverseDns 7 (some mail)) 3 ++ goes 1 (.setReverseDns 7 (some web)) 6 ++
    List.replicate 3 (0, .next true)

/-- Three callers that have ended are all there are. -/
theorem quiet_of_ended {as : List (ℕ × Act)} (has : ∀ a ∈ as, a.1 < 3)
    (h : ∀ q < 3, (after as).pc q = .idle ∨ (after as).pc q = .done) : Quiet (after as) := by
  have hall : ∀ q, (after as).pc q = .idle ∨ (after as).pc q = .done :=
    forall_pc (P := fun pc => pc = Pc.idle ∨ pc = Pc.done) has (fun _ => .inl rfl) h
  exact fun q => (hall q).imp_right .inl

/-- The address belongs to project 8, has no name and counts as synced; the PTR is project 7's. And
the last name that was set is not the one published. -/
theorem ptr_outlives :
    (Quiet (after changesHands) ∧ ¬ Follows (after changesHands).shared ∧
      (after changesHands).shared.row.ip.projectId = some 8 ∧
      (after changesHands).shared.published = some mail) ∧
    Quiet (after overtaken) ∧ ¬ Follows (after overtaken).shared := by
  refine ⟨⟨quiet_of_ended (by decide) (by decide), ?_, by decide, by decide⟩,
    quiet_of_ended (by decide) (by decide), ?_⟩
  · intro h
    exact absurd (h (by decide)) (by decide)
  · intro h
    exact absurd (h (by decide)) (by decide)

/-- A name is set and taken back, and then the address is released. -/
def handsBack : List (ℕ × Act) :=
  goes 0 (.setReverseDns 7 (some mail)) 6 ++ goes 1 (.setReverseDns 7 none) 6 ++
    goes 2 (.releaseReserved 7) 2

def ready (w : World Shared Pc) (a : ℕ × Act) : Bool :=
  match w.pc a.1 with
  | .setting name => name ≠ some []
  | .marking _ name => w.shared.row.reverseDns = name ∧ w.shared.published = name
  | .started .release | .releasing =>
      w.shared.row.reverseDns = none ∨ w.shared.row.reverseDnsSynced = false
  | _ => true

theorem timely_of_ready {w : World Shared Pc} {a : ℕ × Act} (h : ready w a = true) : Timely w a := by
  refine .inr ?_
  unfold ready at h
  unfold Ready
  split at h <;> exact of_decide_eq_true h

theorem ptr_follows_owner : Follows (after handsBack).shared := by
  have hmeets : Meets (step Text.asciiLower) (fun w a => ready w a = true) (start "ip1" someIp)
      handsBack := by
    decide
  exact ptr_follows Text.asciiLower "ip1" someIp handsBack
    (hmeets.mono fun w a _ h => timely_of_ready h)
    (quiet_of_ended (by decide) (by decide))

end Prgd.Dns
