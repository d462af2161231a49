import Prgd.Grants
import Mathlib.Tactic.Ring

/-!
# The life of an access grant

Every write of a grant is guarded by the status it expects, and an extension
also by the number of extensions it has read. So a row only ever moves along
`Later`, which is a preorder: what a call has read stays a lower bound of what
is stored. From this follow the transitions of the status and the bound on the
end of an active grant.
-/
namespace Prgd.Grants
open Interleaving

/-! ## How a row can go on -/

/-- 0 requested, 1 approved, 2 active, 3 ended. -/
def GrantStatus.rank : GrantStatus → ℕ
  | .requested => 0
  | .approved => 1
  | .active => 2
  | .denied | .expired | .revoked => 3

/-- `after` is a later version of the row `before`. -/
structure Later (before after : Grant) : Prop where
  userId : after.userId = before.userId
  requestedMinutes : after.requestedMinutes = before.requestedMinutes
  rank : before.status.rank ≤ after.status.rank
  status : before.status.rank = after.status.rank → after.status = before.status
  granted : 1 ≤ before.status.rank → after.grantedMinutes = before.grantedMinutes
  extensions : before.extensions ≤ after.extensions
  expiry : 2 ≤ before.status.rank → after.extensions = before.extensions →
    after.expiresAt = before.expiresAt
  prolonged : 2 ≤ before.status.rank → ∀ t, before.expiresAt = some t →
    ∃ t', after.expiresAt = some t' ∧ t ≤ t'

theorem Later.refl (g : Grant) : Later g g where
  userId := rfl
  requestedMinutes := rfl
  rank := Nat.le_refl _
  status _ := rfl
  granted _ := rfl
  extensions := Nat.le_refl _
  expiry _ _ := rfl
  prolonged _ t ht := ⟨t, ht, le_refl t⟩

theorem Later.trans {a b c : Grant} (h : Later a b) (h' : Later b c) : Later a c where
  userId := h'.userId.trans h.userId
  requestedMinutes := h'.requestedMinutes.trans h.requestedMinutes
  rank := h.rank.trans h'.rank
  status hr := by
    have hab := h.rank
    have hbc := h'.rank
    rw [h'.status (by omega), h.status (by omega)]
  granted hr := (h'.granted (hr.trans h.rank)).trans (h.granted hr)
  extensions := h.extensions.trans h'.extensions
  expiry hr he := by
    have hab := h.extensions
    have hbc := h'.extensions
    rw [h'.expiry (hr.trans h.rank) (by omega), h.expiry hr (by omega)]
  prolonged hr t ht := by
    obtain ⟨t', ht', hle⟩ := h.prolonged hr t ht
    obtain ⟨t'', ht'', hle'⟩ := h'.prolonged (hr.trans h.rank) t' ht'
    exact ⟨t'', ht'', hle.trans hle'⟩

theorem GrantStatus.rank_ended {st : GrantStatus} (h : st.live = false) : st.rank = 3 := by
  cases st <;> simp_all [GrantStatus.live, GrantStatus.rank]

/-- What `end` writes. -/
def GrantStatus.Over (st : GrantStatus) : Prop := st = .revoked ∨ st = .expired

theorem GrantStatus.Over.not_live {st : GrantStatus} (h : st.Over) : st.live = false := by
  rcases h with rfl | rfl <;> rfl

/-- A grant that has ended stays as it is. -/
theorem Later.ended {g g' : Grant} (h : Later g g') (hg : g.status.live = false) :
    g'.status = g.status := by
  have hrank := GrantStatus.rank_ended hg
  have hle := h.rank
  apply h.status
  have : g'.status.rank ≤ 3 := by cases g'.status <;> decide
  omega

/-! ## The writes -/

theorem later_approval {g : Grant} (h : g.status = .requested) (actorId : String)
    (minutes now : ℤ) : Later g (writeApproval actorId minutes now g) := by
  constructor <;> simp [writeApproval, h, GrantStatus.rank]

theorem later_activation {g : Grant} (h : g.status = .approved) (startsAt expiresAt : ℤ) :
    Later g (writeActivation startsAt expiresAt g) := by
  constructor <;> simp [writeActivation, h, GrantStatus.rank]

theorem later_denial {g : Grant} (h : g.status = .requested) (actorId reason : String) :
    Later g (writeDenial actorId reason g) := by
  constructor <;> simp [writeDenial, h, GrantStatus.rank]

theorem later_end {g : Grant} {e : Ending} (h : g.status.live) (he : e.status.live = false)
    (now : ℤ) : Later g (writeEnd e now g) := by
  have hrank := GrantStatus.rank_ended he
  have hlt : g.status.rank < 3 := by
    cases hs : g.status <;> simp_all [GrantStatus.live, GrantStatus.rank]
  constructor
  case prolonged => exact fun _ t ht => ⟨t, ht, le_refl t⟩
  all_goals simp [writeEnd, hrank]
  all_goals omega

theorem later_extension {g : Grant} {t : ℤ} (h : g.status = .active) (ht : g.expiresAt = some t)
    {expiresAt : ℤ} (hle : t ≤ expiresAt) (reason : String) (now : ℤ) :
    Later g (writeExtension reason expiresAt now g) := by
  constructor <;> simp [writeExtension, h, ht, hle]

theorem later_stamp (g : Grant) (serial : String) :
    Later g { g with certSerial := some serial } := by
  constructor
  case prolonged => exact fun _ t ht => ⟨t, ht, le_refl t⟩
  all_goals simp

/-- What a step can do to the grants and to the history of extensions. -/
inductive Wrote (s : Shared) (pc : Pc) (s' : Shared) : Prop
  | same (hg : s'.grants = s.grants) (he : s'.extended = s.extended)
  | created (userId : String) (dto : RequestDto) (contractId : String) (auto : Bool)
      (minutes : ℤ) (emergency : Bool)
      (hg : s'.grants = s.grants.put s.grants.fresh
        (newGrant userId dto contractId auto minutes emergency s.now))
      (he : s'.extended = s.extended)
  | extended (id : ℕ) (read : Grant) (minutes : ℤ) (reason : String) (rules : GrantRules)
      (expiresAt : ℤ) (g : Grant)
      (hpc : pc = .storingExtension id read minutes reason rules expiresAt)
      (hfind : s.grants.find id = some g) (hactive : g.status = .active)
      (hcount : g.extensions = read.extensions)
      (hg : s'.grants = s.grants.put id (writeExtension reason expiresAt s.now g))
      (he : s'.extended = s.extended ++ [⟨id, minutes, rules⟩])
  | approved (id : ℕ) (read : Grant) (actorId : String) (minutes : ℤ) (g : Grant)
      (hpc : pc = .storingApproval id read actorId minutes)
      (hfind : s.grants.find id = some g) (hrequested : g.status = .requested)
      (hg : s'.grants = s.grants.put id (writeApproval actorId minutes s.now g))
      (he : s'.extended = s.extended)
  | activated (id : ℕ) (read : Grant) (startsAt expiresAt : ℤ) (thenStart : Bool) (g : Grant)
      (hpc : pc = .activating id read startsAt expiresAt thenStart)
      (hfind : s.grants.find id = some g) (happroved : g.status = .approved)
      (hg : s'.grants = s.grants.put id (writeActivation startsAt expiresAt g))
      (he : s'.extended = s.extended)
  | denied (id : ℕ) (actorId reason : String) (g : Grant)
      (hfind : s.grants.find id = some g) (hrequested : g.status = .requested)
      (hg : s'.grants = s.grants.put id (writeDenial actorId reason g))
      (he : s'.extended = s.extended)
  | ended (e : Ending) (g : Grant) (hpc : pc = .ending e)
      (hfind : s.grants.find e.id = some g) (hlive : g.status.live)
      (hg : s'.grants = s.grants.put e.id (writeEnd e s.now g))
      (he : s'.extended = s.extended)
  | stamped (id : ℕ) (serial : String) (g : Grant) (hfind : s.grants.find id = some g)
      (hg : s'.grants = s.grants.put id { g with certSerial := some serial })
      (he : s'.extended = s.extended)

theorem updateGrant_some {s s' : Shared} {id : ℕ} {guard : Grant → Bool} {write : Grant → Grant}
    (h : s.updateGrant id guard write = some s') :
    ∃ g, s.grants.find id = some g ∧ guard g ∧
      s' = { s with grants := s.grants.put id (write g) } := by
  unfold Shared.updateGrant at h
  split at h
  case h_1 => cases h
  case h_2 g hg =>
    split_ifs at h with hguard
    exact ⟨g, hg, hguard, (Option.some.inj h).symm⟩

theorem updateGrant_getD (s : Shared) (id : ℕ) (guard : Grant → Bool) (write : Grant → Grant) :
    (s.updateGrant id guard write).getD s = s ∨
      ∃ g, s.grants.find id = some g ∧ guard g ∧
        (s.updateGrant id guard write).getD s = { s with grants := s.grants.put id (write g) } := by
  cases h : s.updateGrant id guard write with
  | none => exact .inl rfl
  | some s' =>
    right
    obtain ⟨g, hg, hguard, hs⟩ := updateGrant_some h
    exact ⟨g, hg, hguard, hs⟩

/-- Sessions are written without touching anything else. -/
theorem updateSession_some {s s' : Shared} {id : ℕ} {guard : Session → Bool}
    {write : Session → Session} (h : s.updateSession id guard write = some s') :
    ∃ t, s.sessions.find id = some t ∧ guard t ∧
      s' = { s with sessions := s.sessions.put id (write t) } := by
  unfold Shared.updateSession at h
  split at h
  case h_1 => cases h
  case h_2 t ht =>
    split_ifs at h with hguard
    exact ⟨t, ht, hguard, (Option.some.inj h).symm⟩

theorem updateSession_getD (s : Shared) (id : ℕ) (guard : Session → Bool)
    (write : Session → Session) :
    (s.updateSession id guard write).getD s = s ∨
      ∃ t, s.sessions.find id = some t ∧ guard t ∧
        (s.updateSession id guard write).getD s =
          { s with sessions := s.sessions.put id (write t) } := by
  cases h : s.updateSession id guard write with
  | none => exact .inl rfl
  | some s' =>
    right
    obtain ⟨t, ht, hguard, hs⟩ := updateSession_some h
    exact ⟨t, ht, hguard, hs⟩

/-- A write of one table leaves the others. -/
theorem updateGrant_frame (s : Shared) (id : ℕ) (guard : Grant → Bool) (write : Grant → Grant) :
    (s.updateGrant id guard write).getD s =
      { s with grants := ((s.updateGrant id guard write).getD s).grants } := by
  rcases updateGrant_getD s id guard write with h | ⟨g, -, -, h⟩
  · rw [h]
  · rw [h]

theorem updateSession_frame (s : Shared) (id : ℕ) (guard : Session → Bool)
    (write : Session → Session) :
    (s.updateSession id guard write).getD s =
      { s with sessions := ((s.updateSession id guard write).getD s).sessions } := by
  rcases updateSession_getD s id guard write with h | ⟨t, -, -, h⟩
  · rw [h]
  · rw [h]

/-- The first statement of a call writes no grant and no certificate. -/
theorem begin_frame (crypto : Crypto) (s : Shared) (c : Call) :
    (begin crypto s c).1 = { s with sessions := (begin crypto s c).1.sessions } := by
  cases c
  case expireRecordings => rfl
  all_goals
    simp only [begin]
    repeat' split
    all_goals rfl

theorem next_wrote {crypto : Crypto} {env : Env} {s s' : Shared} {pc pc' : Pc}
    (h : next crypto env s pc = some (s', pc')) : Wrote s pc s' := by
  cases pc with
  | rest e => cases h
  | creating userId dto contractId auto minutes emergency =>
    simp only [next, Option.some.injEq, Prod.mk.injEq] at h
    obtain ⟨rfl, rfl⟩ := h
    exact .created userId dto contractId auto minutes emergency rfl rfl
  | storingExtension id read minutes reason rules expiresAt =>
    simp only [next] at h
    split at h
    · cases h
      exact .same rfl rfl
    · next s'' hs =>
      obtain ⟨g, hg, hguard, rfl⟩ := updateGrant_some hs
      cases h
      have hguard' := of_decide_eq_true hguard
      exact .extended id read minutes reason rules expiresAt g rfl hg hguard'.1 hguard'.2 rfl rfl
  | storingApproval id read actorId minutes =>
    simp only [next] at h
    split at h
    · cases h
      exact .same rfl rfl
    · next s'' hs =>
      obtain ⟨g, hg, hguard, rfl⟩ := updateGrant_some hs
      cases h
      exact .approved id read actorId minutes g rfl hg (of_decide_eq_true hguard) rfl rfl
  | activating id read startsAt expiresAt thenStart =>
    cases h
    rcases updateGrant_getD s id (fun g => decide (g.status = .approved))
        (writeActivation startsAt expiresAt) with heq | ⟨g, hg, hguard, heq⟩
    · rw [heq]
      exact .same rfl rfl
    · rw [heq]
      exact .activated id read startsAt expiresAt thenStart g rfl hg (of_decide_eq_true hguard)
        rfl rfl
  | denying id actorId reason =>
    cases h
    rcases updateGrant_getD s id (fun g => decide (g.status = .requested))
        (writeDenial actorId reason) with heq | ⟨g, hg, hguard, heq⟩
    · rw [heq]
      exact .same rfl rfl
    · rw [heq]
      exact .denied id actorId reason g hg (of_decide_eq_true hguard) rfl rfl
  | ending e =>
    simp only [next] at h
    split at h
    · cases h
      exact .same rfl rfl
    · next s'' hs =>
      obtain ⟨g, hg, hguard, rfl⟩ := updateGrant_some hs
      cases h
      exact .ended e g rfl hg hguard rfl rfl
  | stamping c serial =>
    cases h
    rcases updateGrant_getD s c.session.grantId (fun _ => true)
        (fun g => { g with certSerial := some serial }) with heq | ⟨g, hg, -, heq⟩
    · rw [Shared.setGrant, heq]
      exact .same rfl rfl
    · rw [Shared.setGrant, heq]
      exact .stamped c.session.grantId serial g hg rfl rfl
  | refusing id status code message =>
    cases h
    rw [updateSession_frame]
    exact .same rfl rfl
  | claiming c =>
    simp only [next] at h
    split at h
    · cases h
      exact .same rfl rfl
    · next s'' hs =>
      obtain ⟨t, -, -, rfl⟩ := updateSession_some hs
      cases h
      exact .same rfl rfl
  | _ =>
    simp only [next] at h
    repeat' split at h
    all_goals
      cases h
      first
        | exact .same rfl rfl
        | (rw [Shared.setSession, updateSession_frame]; exact .same rfl rfl)

theorem trans_wrote {crypto : Crypto} {i : ℕ} {s s' : Shared} {act : Act} {pc pc' : Pc}
    (h : trans crypto i s act pc = some (s', pc')) : Wrote s pc s' := by
  unfold trans at h
  split at h
  · next c e =>
    have hs' : s' = (begin crypto s c).1 := by rw [Option.some.inj h]
    rw [hs', begin_frame]
    exact .same rfl rfl
  · exact next_wrote h
  · cases h
    exact .same rfl rfl
  · cases h

/-! ## What a call has read -/

/-- The stored row is a later version of the one that was read. -/
def Held (s : Shared) (id : ℕ) (read : Grant) : Prop :=
  ∃ g, s.grants.find id = some g ∧ Later read g

theorem Held.now {s : Shared} {id : ℕ} {g : Grant} (h : s.grants.find id = some g) : Held s id g :=
  ⟨g, h, Later.refl g⟩

/-- Every stored grant is still there, in a later version. -/
def Onward (s s' : Shared) : Prop := ∀ id g, s.grants.find id = some g → Held s' id g

theorem Onward.refl (s : Shared) : Onward s s := fun _ _ h => Held.now h

theorem Held.onward {s s' : Shared} {id : ℕ} {read : Grant} (h : Held s id read)
    (hs : Onward s s') : Held s' id read := by
  obtain ⟨g, hg, hlater⟩ := h
  obtain ⟨g', hg', hlater'⟩ := hs id g hg
  exact ⟨g', hg', hlater.trans hlater'⟩

/-- What is known at the place of a call. -/
def Placed (s : Shared) : Pc → Prop
  | .extending id read _ _ => Held s id read
  | .storingExtension id read minutes _ rules expiresAt =>
      Held s id read ∧ read.status = .active ∧
        (∃ t, read.expiresAt = some t ∧ expiresAt = t + minutes * minute) ∧
        read.extensions < rules.maxExtensions ∧ 1 ≤ minutes ∧ minutes ≤ rules.maxGrantMinutes
  | .approving id read actorId _ | .storingApproval id read actorId _ =>
      Held s id read ∧ actorId ≠ read.userId
  | .activating id read startsAt expiresAt _ =>
      Held s id read ∧ read.status = .approved ∧
        expiresAt = startsAt + read.grantedMinutes.getD read.requestedMinutes * minute
  | .ending e | .revoking e _ | .listening e | .killing _ _ _ (some e) => e.status.Over
  | .vetting c | .claiming c | .signing c =>
      Held s c.session.grantId c.grant ∧ c.grant.status = .active
  | .storing c certificate =>
      Held s c.session.grantId c.grant ∧ c.grant.status = .active ∧
        c.grant.expiresAt = some certificate.validBefore ∧
        certificate.grantId = c.session.grantId ∧ certificate.sessionId = c.sessionId
  | _ => True

theorem Placed.onward {s s' : Shared} {pc : Pc} (h : Placed s pc) (hs : Onward s s') :
    Placed s' pc := by
  cases pc
  case extending => exact Held.onward h hs
  case storingExtension => exact ⟨h.1.onward hs, h.2⟩
  case approving => exact ⟨h.1.onward hs, h.2⟩
  case storingApproval => exact ⟨h.1.onward hs, h.2⟩
  case activating => exact ⟨h.1.onward hs, h.2⟩
  case vetting => exact ⟨h.1.onward hs, h.2⟩
  case claiming => exact ⟨h.1.onward hs, h.2⟩
  case signing => exact ⟨h.1.onward hs, h.2⟩
  case storing => exact ⟨h.1.onward hs, h.2⟩
  case killing sessions reason killedById e =>
    cases e <;> exact h
  all_goals exact h

theorem Onward.put {s s' : Shared} {id : ℕ} {g g' : Grant} (hg : s.grants.find id = some g)
    (hlater : Later g g') (hs : s'.grants = s.grants.put id g') : Onward s s' := by
  intro j k hk
  unfold Held
  rw [hs]
  by_cases hj : j = id
  · subst hj
    rw [hg] at hk
    cases hk
    exact ⟨g', Table.find_put_self _ _ _, hlater⟩
  · exact ⟨k, by rw [Table.find_put_of_ne _ hj, hk], Later.refl k⟩

theorem Wrote.onward {s s' : Shared} {pc : Pc} (h : Wrote s pc s') (hpc : Placed s pc) :
    Onward s s' := by
  cases h with
  | same hg _ =>
    intro id g h
    exact ⟨g, by rw [hg, h], Later.refl g⟩
  | created userId dto contractId auto minutes emergency hg _ =>
    intro id g h
    have hne : id ≠ s.grants.fresh := by
      rintro rfl
      simp at h
    exact ⟨g, by rw [hg, Table.find_put_of_ne _ hne, h], Later.refl g⟩
  | extended id read minutes reason rules expiresAt g hp hfind hactive hcount hg _ =>
    subst hp
    obtain ⟨⟨g₁, hg₁, hlater⟩, hread, ⟨t, ht, hexp⟩, -, hone, -⟩ := hpc
    rw [hfind] at hg₁
    cases hg₁
    have hsame := hlater.expiry (by rw [hread]; decide) hcount
    rw [ht] at hsame
    have hle : t ≤ expiresAt := by
      rw [hexp, minute]
      omega
    exact Onward.put hfind (later_extension hactive hsame hle reason s.now) hg
  | approved id read actorId minutes g hp hfind hrequested hg _ =>
    exact Onward.put hfind (later_approval hrequested actorId minutes s.now) hg
  | activated id read startsAt expiresAt thenStart g hp hfind happroved hg _ =>
    exact Onward.put hfind (later_activation happroved startsAt expiresAt) hg
  | denied id actorId reason g hfind hrequested hg _ =>
    exact Onward.put hfind (later_denial hrequested actorId reason) hg
  | ended e g hp hfind hlive hg _ =>
    subst hp
    exact Onward.put hfind (later_end hlive hpc.not_live s.now) hg
  | stamped id serial g hfind hg _ =>
    exact Onward.put hfind (later_stamp g serial) hg

/-! ## Where a step leads -/

theorem usableUntil_some {g : Grant} {now t : ℤ} (h : g.usableUntil now = some t) :
    g.status = .active ∧ g.expiresAt = some t ∧ now < t := by
  unfold Grant.usableUntil at h
  split at h
  case h_1 t' ht =>
    split_ifs at h with hcond
    cases h
    exact ⟨hcond.1, ht, hcond.2⟩
  case h_2 => cases h

theorem decideExtension_ok {g : Grant} {minutes : ℤ} {r : GrantRules} {now expiresAt : ℤ}
    (h : decideExtension g minutes r now = .ok expiresAt) :
    g.status = .active ∧ (∃ t, g.expiresAt = some t ∧ expiresAt = t + minutes * minute) ∧
      g.extensions < r.maxExtensions ∧ 1 ≤ minutes ∧ minutes ≤ r.maxGrantMinutes := by
  unfold decideExtension at h
  split at h
  case h_1 => cases h
  case h_2 t ht =>
    split_ifs at h with hcount hlong
    cases h
    have hu := usableUntil_some ht
    exact ⟨hu.1, ⟨t, hu.2.1, rfl⟩, by omega, by omega, by omega⟩

theorem placed_endNext (s : Shared) {status : GrantStatus} (h : status.Over)
    (reason : String) (who : Option String) (ids : List ℕ) :
    Placed s (endNext status reason who ids) := by
  cases ids with
  | nil => trivial
  | cons id more => exact h

theorem placed_readActivate (s : Shared) (id : ℕ) (thenStart : Bool) :
    Placed s (readActivate s id thenStart) := by
  unfold readActivate
  split
  case h_1 g hg =>
    split_ifs with happroved
    · exact ⟨Held.now hg, happroved, rfl⟩
    · trivial
    · trivial
  case h_2 =>
    split_ifs <;> trivial

theorem byToken_some {s : Shared} {tokenHash : String} {id : ℕ} {t : Session}
    (h : s.byToken tokenHash = some (id, t)) :
    s.sessions.find id = some t ∧ t.tokenHash = tokenHash := by
  have hmem := List.mem_of_find?_eq_some h
  have hp := List.find?_some h
  exact ⟨Table.find_of_mem hmem, by simpa using hp⟩

theorem placed_readCheck (crypto : Crypto) (s : Shared) (token : String) (sessionId : Option ℕ)
    (publicKey : String) (gatewayId clientIp : Option String) :
    Placed s (readCheck crypto s token sessionId publicKey gatewayId clientIp) := by
  unfold readCheck
  split
  · trivial
  · split
    · trivial
    · next g hg =>
      split_ifs with h₁ h₂ h₃ h₄ h₅ h₆ h₇
      all_goals try trivial
      exact ⟨Held.now hg, not_not.mp h₆⟩

theorem placed_begin (crypto : Crypto) (s : Shared) (c : Call) :
    Placed s (begin crypto s c).2 := by
  cases c with
  | revokeWhere ids reason who => exact placed_endNext s (.inl rfl) reason who _
  | activate id => exact placed_readActivate s id false
  | check token sessionId publicKey gatewayId clientIp =>
    exact placed_readCheck crypto s token sessionId publicKey gatewayId clientIp
  | extend userId id minutes reason =>
    simp only [begin]
    split
    · next g hg =>
      split_ifs
      · exact Held.now hg
      · trivial
    · trivial
  | approve actorId id minutes =>
    simp only [begin]
    split
    · trivial
    · next g hg =>
      split_ifs with hown
      · trivial
      · trivial
      · exact ⟨Held.now hg, fun h => hown h.symm⟩
  | revoke who id reason =>
    simp only [begin]
    split
    · trivial
    · split_ifs
      · trivial
      · exact .inl rfl
  | _ =>
    simp only [begin]
    repeat' split
    all_goals trivial

theorem placed_killNext (s : Shared) (sessions : List (ℕ × Option ℤ)) (reason : String)
    (killedById : Option String) {e : Option Ending} (h : ∀ e' ∈ e, e'.status.Over) :
    Placed s (killNext sessions reason killedById e) := by
  unfold killNext
  split
  · trivial
  · next e' => exact placed_endNext s (h e' rfl) _ _ _
  · cases e with
    | none => trivial
    | some e' => exact h e' rfl

/-- The place that a step leads to, seen from the state before it. -/
theorem placed_next {crypto : Crypto} {env : Env} {s s' : Shared} {pc pc' : Pc}
    (h : next crypto env s pc = some (s', pc')) (hpc : Placed s pc) : Placed s pc' := by
  cases pc with
  | rest e => cases h
  | extending id read minutes reason =>
    simp only [next] at h
    split at h
    · cases h
      trivial
    · next expiresAt hd =>
      cases h
      exact ⟨hpc, decideExtension_ok hd⟩
  | approving id read actorId minutes =>
    simp only [next] at h
    split at h <;> cases h
    · trivial
    · exact hpc
  | toActivate id thenStart =>
    cases h
    exact placed_readActivate s id thenStart
  | planning id =>
    simp only [next] at h
    split at h <;> cases h
    · split_ifs
      · exact .inr rfl
      · trivial
    · split_ifs
      · exact .inr rfl
      · trivial
    · trivial
  | ending e =>
    simp only [next] at h
    split at h <;> cases h
    · exact placed_endNext s hpc _ _ _
    · exact hpc
  | revoking e since =>
    cases h
    exact hpc
  | listening e =>
    cases h
    apply placed_killNext
    intro e' he'
    obtain rfl := Option.some.inj he'
    exact hpc
  | killing sessions reason killedById e =>
    have he : ∀ e' ∈ e, e'.status.Over := by
      intro e' he'
      obtain rfl := he'
      exact hpc
    simp only [next] at h
    split at h <;> cases h
    · exact placed_killNext s _ _ _ he
    · exact placed_killNext s _ _ _ he
  | vetting c =>
    simp only [next] at h
    split at h
    · cases h
      trivial
    · split_ifs at h <;> cases h
      · exact hpc
      · trivial
  | claiming c =>
    simp only [next] at h
    split at h <;> cases h
    · trivial
    · exact hpc
  | signing c =>
    simp only [next] at h
    split at h
    · cases h
      trivial
    · next validBefore hu =>
      have hexp := (usableUntil_some hu).2.1
      split_ifs at h <;> cases h
      · exact ⟨hpc.1, hpc.2, hexp, rfl, rfl⟩
      · trivial
  | _ =>
    simp only [next] at h
    repeat' split at h
    all_goals
      cases h
      trivial

theorem placed_trans {crypto : Crypto} {i : ℕ} {s s' : Shared} {act : Act} {pc pc' : Pc}
    (h : trans crypto i s act pc = some (s', pc')) (hpc : Placed s pc) : Placed s' pc' := by
  have honward := (trans_wrote h).onward hpc
  refine Placed.onward ?_ honward
  unfold trans at h
  split at h
  · next c e =>
    have hpc' : pc' = (begin crypto s c).2 := by rw [Option.some.inj h]
    rw [hpc']
    exact placed_begin crypto s c
  · exact placed_next h hpc
  · cases h
    exact hpc
  · cases h

/-! ## Sound rows -/

/-- The stored extensions of a grant, oldest first. -/
def extensionsOf (extended : List Extension) (id : ℕ) : List Extension :=
  extended.filter fun e => e.grantId = id

/-- The minutes by which a grant was extended. -/
def extendedMinutes (extended : List Extension) (id : ℕ) : ℤ :=
  ((extensionsOf extended id).map Extension.minutes).sum

/-- Every extension was within the number and the length its call had read in
the settings. -/
def Permitted (es : List Extension) : Prop :=
  ∀ (i : ℕ) (e : Extension), es[i]? = some e →
    i < e.rules.maxExtensions ∧ 1 ≤ e.minutes ∧ e.minutes ≤ e.rules.maxGrantMinutes

/-- Approved by the rule at its creation, or by somebody else than its owner. -/
def Decided (g : Grant) : Prop :=
  (g.auto ∧ g.approvedById = none) ∨ ∃ a, g.approvedById = some a ∧ a ≠ g.userId

structure Sound (extended : List Extension) (id : ℕ) (g : Grant) : Prop where
  count : (extensionsOf extended id).length = g.extensions
  permitted : Permitted (extensionsOf extended id)
  unextended : g.status = .requested ∨ g.status = .approved → g.extensions = 0
  undecided : g.status = .requested → g.approvedById = none
  granted : g.status = .approved ∨ g.status = .active → ∃ m, g.grantedMinutes = some m
  decided : g.status = .approved ∨ g.status = .active → Decided g
  window : g.status = .active → ∃ startsAt m, g.startsAt = some startsAt ∧
    g.grantedMinutes = some m ∧
      g.expiresAt = some (startsAt + (m + extendedMinutes extended id) * minute)

/-- All rows are sound, and only stored grants have extensions. -/
structure AllSound (s : Shared) : Prop where
  rows : ∀ id g, s.grants.find id = some g → Sound s.extended id g
  known : ∀ e ∈ s.extended, (s.grants.find e.grantId).isSome

theorem AllSound.put {s s' : Shared} {id : ℕ} {g : Grant} (h : AllSound s)
    (hg : Sound s.extended id g) (hs : s'.grants = s.grants.put id g)
    (he : s'.extended = s.extended) : AllSound s' where
  rows j k hk := by
    rw [hs] at hk
    rw [he]
    by_cases hj : j = id
    · subst hj
      rw [Table.find_put_self] at hk
      cases hk
      exact hg
    · rw [Table.find_put_of_ne _ hj] at hk
      exact h.rows j k hk
  known e hm := by
    rw [he] at hm
    rw [hs]
    by_cases hj : e.grantId = id
    · rw [hj, Table.find_put_self]
      rfl
    · rw [Table.find_put_of_ne _ hj]
      exact h.known e hm

theorem extensionsOf_fresh {s : Shared} (h : AllSound s) :
    extensionsOf s.extended s.grants.fresh = [] := by
  apply List.filter_eq_nil_iff.mpr
  intro e he hid
  have hknown := h.known e he
  rw [of_decide_eq_true hid, Table.find_fresh] at hknown
  cases hknown

theorem sound_newGrant {s : Shared} (h : AllSound s) (userId : String) (dto : RequestDto)
    (contractId : String) (auto : Bool) (minutes : ℤ) (emergency : Bool) :
    Sound s.extended s.grants.fresh
      (newGrant userId dto contractId auto minutes emergency s.now) := by
  have hnil := extensionsOf_fresh h
  constructor
  case permitted =>
    rw [hnil]
    intro i e hi
    simp at hi
  all_goals cases auto <;> simp [newGrant, hnil, Decided]

/-- A write that ends the grant and leaves the number of extensions. -/
theorem Sound.over {extended : List Extension} {id : ℕ} {g g' : Grant} (h : Sound extended id g)
    (hext : g'.extensions = g.extensions) (hst : g'.status.live = false) :
    Sound extended id g' := by
  have hne : g'.status ≠ .requested ∧ g'.status ≠ .approved ∧ g'.status ≠ .active := by
    refine ⟨?_, ?_, ?_⟩ <;> intro he <;> simp [he, GrantStatus.live] at hst
  constructor
  case count => rw [hext, h.count]
  case permitted => exact h.permitted
  all_goals simp [hne]

theorem Sound.approve {extended : List Extension} {id : ℕ} {g : Grant} (h : Sound extended id g)
    (hg : g.status = .requested) {actorId : String} (hactor : actorId ≠ g.userId)
    (minutes now : ℤ) : Sound extended id (writeApproval actorId minutes now g) where
  count := h.count
  permitted := h.permitted
  unextended _ := h.unextended (.inl hg)
  undecided hst := by simp [writeApproval] at hst
  granted _ := ⟨minutes, rfl⟩
  decided _ := .inr ⟨actorId, rfl, hactor⟩
  window hst := by simp [writeApproval] at hst

theorem Sound.activate {extended : List Extension} {id : ℕ} {g : Grant} (h : Sound extended id g)
    (hg : g.status = .approved) {startsAt expiresAt : ℤ}
    (hexp : expiresAt = startsAt + g.grantedMinutes.getD g.requestedMinutes * minute) :
    Sound extended id (writeActivation startsAt expiresAt g) where
  count := h.count
  permitted := h.permitted
  unextended _ := h.unextended (.inr hg)
  undecided hst := by simp [writeActivation] at hst
  granted _ := h.granted (.inl hg)
  decided _ := h.decided (.inl hg)
  window _ := by
    obtain ⟨m, hm⟩ := h.granted (.inl hg)
    have hnil : extensionsOf extended id = [] := by
      apply List.eq_nil_of_length_eq_zero
      rw [h.count]
      exact h.unextended (.inr hg)
    refine ⟨startsAt, m, rfl, hm, ?_⟩
    simp [writeActivation, extendedMinutes, hnil, hexp, hm]

theorem Sound.stamp {extended : List Extension} {id : ℕ} {g : Grant} (h : Sound extended id g)
    (serial : String) : Sound extended id { g with certSerial := some serial } where
  count := h.count
  permitted := h.permitted
  unextended := h.unextended
  undecided := h.undecided
  granted := h.granted
  decided := h.decided
  window := h.window

theorem extensionsOf_append (extended : List Extension) (e : Extension) (id : ℕ) :
    extensionsOf (extended ++ [e]) id =
      extensionsOf extended id ++ if e.grantId = id then [e] else [] := by
  by_cases h : e.grantId = id <;> simp [extensionsOf, h]

theorem Permitted.append {es : List Extension} (h : Permitted es) {e : Extension}
    (hcount : es.length < e.rules.maxExtensions) (hone : 1 ≤ e.minutes)
    (hmax : e.minutes ≤ e.rules.maxGrantMinutes) : Permitted (es ++ [e]) := by
  intro i e' hi
  by_cases hlt : i < es.length
  · rw [List.getElem?_append_left hlt] at hi
    exact h i e' hi
  · rw [List.getElem?_append_right (by omega)] at hi
    have hzero : i - es.length = 0 := by
      by_contra hne
      rw [List.getElem?_eq_none (by simp; omega)] at hi
      cases hi
    rw [hzero] at hi
    cases hi
    exact ⟨by omega, hone, hmax⟩

/-- The extension that the guard lets through starts from the stored end. -/
theorem Sound.extend {extended : List Extension} {id : ℕ} {g : Grant} (h : Sound extended id g)
    (hg : g.status = .active) {t : ℤ} (ht : g.expiresAt = some t) {minutes : ℤ}
    {rules : GrantRules} (hcount : g.extensions < rules.maxExtensions) (hone : 1 ≤ minutes)
    (hmax : minutes ≤ rules.maxGrantMinutes) (reason : String) (now : ℤ) :
    Sound (extended ++ [⟨id, minutes, rules⟩]) id
      (writeExtension reason (t + minutes * minute) now g) where
  count := by
    rw [extensionsOf_append, if_pos rfl, List.length_append, h.count]
    rfl
  permitted := by
    rw [extensionsOf_append, if_pos rfl]
    exact h.permitted.append (by rw [h.count]; exact hcount) hone hmax
  unextended hst := by simp [writeExtension, hg] at hst
  undecided hst := by simp [writeExtension, hg] at hst
  granted _ := h.granted (.inr hg)
  decided _ := h.decided (.inr hg)
  window _ := by
    obtain ⟨startsAt, m, hstart, hm, hexp⟩ := h.window hg
    refine ⟨startsAt, m, hstart, hm, ?_⟩
    rw [ht] at hexp
    have hsum : extendedMinutes (extended ++ [⟨id, minutes, rules⟩]) id =
        extendedMinutes extended id + minutes := by
      rw [extendedMinutes, extensionsOf_append, if_pos rfl]
      simp [extendedMinutes]
    have hend : t + minutes * minute =
        startsAt + (m + (extendedMinutes extended id + minutes)) * minute := by
      rw [Option.some.inj hexp]
      ring
    rw [hsum, ← hend]
    rfl

theorem Wrote.allSound {s s' : Shared} {pc : Pc} (h : Wrote s pc s') (hpc : Placed s pc)
    (hs : AllSound s) : AllSound s' := by
  cases h with
  | same hg he =>
    constructor
    · rw [hg, he]
      exact hs.rows
    · rw [hg, he]
      exact hs.known
  | created userId dto contractId auto minutes emergency hg he =>
    exact hs.put (sound_newGrant hs userId dto contractId auto minutes emergency) hg he
  | extended id read minutes reason rules expiresAt g hp hfind hactive hcount hg he =>
    subst hp
    obtain ⟨⟨g₁, hg₁, hlater⟩, hread, ⟨t, ht, rfl⟩, hlt, hone, hmax⟩ := hpc
    rw [hfind] at hg₁
    cases hg₁
    have hexp := hlater.expiry (by rw [hread]; decide) hcount
    rw [ht] at hexp
    rw [← hcount] at hlt
    have hnew := (hs.rows id g hfind).extend hactive hexp hlt hone hmax reason s.now
    constructor
    · intro j k hk
      rw [hg] at hk
      rw [he]
      by_cases hj : j = id
      · subst hj
        rw [Table.find_put_self] at hk
        cases hk
        exact hnew
      · rw [Table.find_put_of_ne _ hj] at hk
        have hrow := hs.rows j k hk
        have hsame : extensionsOf (s.extended ++ [⟨id, minutes, rules⟩]) j =
            extensionsOf s.extended j := by
          rw [extensionsOf_append, if_neg (fun hid => hj hid.symm), List.append_nil]
        have hmin : extendedMinutes (s.extended ++ [⟨id, minutes, rules⟩]) j =
            extendedMinutes s.extended j := by
          rw [extendedMinutes, hsame, extendedMinutes]
        exact ⟨by rw [hsame]; exact hrow.count, by rw [hsame]; exact hrow.permitted,
          hrow.unextended, hrow.undecided, hrow.granted, hrow.decided,
          by rw [hmin]; exact hrow.window⟩
    · intro e hm
      rw [hg]
      by_cases hj : e.grantId = id
      · rw [hj, Table.find_put_self]
        rfl
      · rw [Table.find_put_of_ne _ hj]
        rw [he] at hm
        rcases List.mem_append.mp hm with hm | hm
        · exact hs.known e hm
        · obtain rfl := List.mem_singleton.mp hm
          exact (hj rfl).elim
  | approved id read actorId minutes g hp hfind hrequested hg he =>
    subst hp
    obtain ⟨⟨g₁, hg₁, hlater⟩, hactor⟩ := hpc
    rw [hfind] at hg₁
    cases hg₁
    rw [← hlater.userId] at hactor
    exact hs.put ((hs.rows id g hfind).approve hrequested hactor minutes s.now) hg he
  | activated id read startsAt expiresAt thenStart g hp hfind happroved hg he =>
    subst hp
    obtain ⟨⟨g₁, hg₁, hlater⟩, hread, hexp⟩ := hpc
    rw [hfind] at hg₁
    cases hg₁
    rw [← hlater.granted (by rw [hread]; decide), ← hlater.requestedMinutes] at hexp
    exact hs.put ((hs.rows id g hfind).activate happroved hexp) hg he
  | denied id actorId reason g hfind hrequested hg he =>
    have hover : Sound s.extended id (writeDenial actorId reason g) :=
      (hs.rows id g hfind).over rfl rfl
    exact hs.put hover hg he
  | ended e g hp hfind hlive hg he =>
    subst hp
    have hover : Sound s.extended e.id (writeEnd e s.now g) :=
      (hs.rows e.id g hfind).over rfl hpc.not_live
    exact hs.put hover hg he
  | stamped id serial g hfind hg he =>
    exact hs.put ((hs.rows id g hfind).stamp serial) hg he

/-! ## Every schedule -/

/-- The rows and the places of all calls. -/
structure Steady (w : World) : Prop where
  sound : AllSound w.shared
  placed : ∀ i, Placed w.shared (w.pc i)

theorem steady_start (now : ℤ) : Steady (start now) where
  sound := by constructor <;> simp [start]
  placed i := trivial

theorem steady_step (crypto : Crypto) (w : World) (a : ℕ × Act) (h : Steady w) :
    Steady (step crypto w a) := by
  have hboth : AllSound (step crypto w a).shared ∧
      ∀ i, Placed (step crypto w a).shared ((step crypto w a).pc i) :=
    callerStep_invariant (G := AllSound) (L := fun s _ pc => Placed s pc)
      (fun s pc ht => ⟨(trans_wrote ht).allSound (h.placed a.1) h.sound,
        placed_trans ht (h.placed a.1)⟩)
      (fun s pc ht q _ => (h.placed q).onward ((trans_wrote ht).onward (h.placed a.1)))
      h.sound h.placed
  exact ⟨hboth.1, hboth.2⟩

theorem steady_run (crypto : Crypto) {w : World} (h : Steady w) (schedule : List (ℕ × Act)) :
    Steady (run (step crypto) w schedule) :=
  run_invariant (steady_step crypto) h schedule

theorem onward_step (crypto : Crypto) {w : World} (h : Steady w) (a : ℕ × Act) :
    Onward w.shared (step crypto w a).shared := by
  rcases callerStep_cases (trans crypto) w a with heq | ⟨s, c, ht, heq⟩
  · rw [step, heq]
    exact Onward.refl w.shared
  · rw [step, heq]
    exact (trans_wrote ht).onward (h.placed a.1)

theorem onward_run (crypto : Crypto) {w : World} (h : Steady w) (schedule : List (ℕ × Act)) :
    Onward w.shared (run (step crypto) w schedule).shared := by
  induction schedule generalizing w with
  | nil => exact Onward.refl w.shared
  | cons a schedule ih =>
    intro id g hg
    have hnow := onward_step crypto h a id g hg
    exact hnow.onward (ih (steady_step crypto w a h))

/-- The transitions of the status of a grant. -/
def Allowed (before : Option Grant) (after : Grant) : Prop :=
  match before with
  | none => after.status = .requested ∨ after.status = .approved ∧ after.auto
  | some g =>
      after.status = g.status ∨
      (g.status = .requested ∧ after.status = .approved ∧
        ∃ a, after.approvedById = some a ∧ a ≠ g.userId) ∨
      (g.status = .requested ∧ after.status = .denied) ∨
      (g.status = .approved ∧ after.status = .active) ∨
      (g.status.live ∧ (after.status = .revoked ∨ after.status = .expired))

theorem allowed_put {s : Shared} {id j : ℕ} {g g' k : Grant} (hfind : s.grants.find id = some g)
    (hk : (s.grants.put id g').find j = some k) (h : Allowed (some g) g') :
    Allowed (s.grants.find j) k := by
  by_cases hj : j = id
  · subst hj
    rw [Table.find_put_self] at hk
    cases hk
    rw [hfind]
    exact h
  · rw [Table.find_put_of_ne _ hj] at hk
    rw [hk]
    exact .inl rfl

theorem Wrote.allowed {s s' : Shared} {pc : Pc} (h : Wrote s pc s') (hpc : Placed s pc) {j : ℕ}
    {k : Grant} (hk : s'.grants.find j = some k) : Allowed (s.grants.find j) k := by
  cases h with
  | same hg _ =>
    rw [hg] at hk
    rw [hk]
    exact .inl rfl
  | created userId dto contractId auto minutes emergency hg _ =>
    rw [hg] at hk
    by_cases hj : j = s.grants.fresh
    · subst hj
      rw [Table.find_put_self] at hk
      cases hk
      rw [Table.find_fresh]
      cases auto <;> simp [Allowed, newGrant]
    · rw [Table.find_put_of_ne _ hj] at hk
      rw [hk]
      exact .inl rfl
  | extended id read minutes reason rules expiresAt g hp hfind hactive hcount hg _ =>
    rw [hg] at hk
    exact allowed_put hfind hk (.inl rfl)
  | approved id read actorId minutes g hp hfind hrequested hg _ =>
    subst hp
    obtain ⟨⟨g₁, hg₁, hlater⟩, hactor⟩ := hpc
    rw [hfind] at hg₁
    cases hg₁
    rw [← hlater.userId] at hactor
    rw [hg] at hk
    exact allowed_put hfind hk (.inr (.inl ⟨hrequested, rfl, actorId, rfl, hactor⟩))
  | activated id read startsAt expiresAt thenStart g hp hfind happroved hg _ =>
    rw [hg] at hk
    exact allowed_put hfind hk (.inr (.inr (.inr (.inl ⟨happroved, rfl⟩))))
  | denied id actorId reason g hfind hrequested hg _ =>
    rw [hg] at hk
    exact allowed_put hfind hk (.inr (.inr (.inl ⟨hrequested, rfl⟩)))
  | ended e g hp hfind hlive hg _ =>
    subst hp
    rw [hg] at hk
    exact allowed_put hfind hk (.inr (.inr (.inr (.inr ⟨hlive, hpc⟩))))
  | stamped id serial g hfind hg _ =>
    rw [hg] at hk
    exact allowed_put hfind hk (.inl rfl)

theorem allowed_step (crypto : Crypto) {w : World} (h : Steady w) (a : ℕ × Act) {id : ℕ}
    {g : Grant} (hg : (step crypto w a).shared.grants.find id = some g) :
    Allowed (w.shared.grants.find id) g := by
  rcases callerStep_cases (trans crypto) w a with heq | ⟨s, c, ht, heq⟩
  · rw [step, heq] at hg
    rw [hg]
    exact .inl rfl
  · rw [step, heq] at hg
    exact (trans_wrote ht).allowed (h.placed a.1) hg

/-- The end of an active grant: its start, the granted minutes and extensions
of which the settings allowed each one by its number and its length. -/
def WithinLimits (extended : List Extension) (id : ℕ) (g : Grant) : Prop :=
  ∃ startsAt minutes expiresAt, g.startsAt = some startsAt ∧ g.grantedMinutes = some minutes ∧
    g.expiresAt = some expiresAt ∧
    expiresAt ≤ startsAt + (minutes + extendedMinutes extended id) * minute ∧
    Permitted (extensionsOf extended id) ∧
    ∀ e, (extensionsOf extended id).getLast? = some e →
      (extensionsOf extended id).length ≤ e.rules.maxExtensions

theorem Sound.withinLimits {extended : List Extension} {id : ℕ} {g : Grant}
    (h : Sound extended id g) (hg : g.status = .active) : WithinLimits extended id g := by
  obtain ⟨startsAt, m, hstart, hm, hexp⟩ := h.window hg
  refine ⟨startsAt, m, _, hstart, hm, hexp, le_refl _, h.permitted, ?_⟩
  intro e he
  rw [List.getLast?_eq_getElem?] at he
  have hlast := (h.permitted _ e he).1
  omega

/-- Whatever the order of the statements of any number of calls: the status of
a grant only takes the transitions above, a denied, revoked or expired grant
stays so, and an active grant ends within its limits. -/
theorem grants_sound (crypto : Crypto) (now : ℤ) (schedule : List (ℕ × Act)) :
    let w := run (step crypto) (start now) schedule
    (∀ a id g, (step crypto w a).shared.grants.find id = some g →
      Allowed (w.shared.grants.find id) g) ∧
    (∀ id g, w.shared.grants.find id = some g → g.status.live = false → ∀ more,
      ∃ g', (run (step crypto) w more).shared.grants.find id = some g' ∧ g'.status = g.status) ∧
    ∀ id g, w.shared.grants.find id = some g → g.status = .active →
      WithinLimits w.shared.extended id g := by
  intro w
  have hw : Steady w := steady_run crypto (steady_start now) schedule
  refine ⟨?_, ?_, ?_⟩
  · intro a id g hg
    exact allowed_step crypto hw a hg
  · intro id g hg hend more
    obtain ⟨g', hg', hlater⟩ := onward_run crypto hw more id g hg
    exact ⟨g', hg', hlater.ended hend⟩
  · intro id g hg hactive
    exact (hw.sound.rows id g hg).withinLimits hactive

end Prgd.Grants
