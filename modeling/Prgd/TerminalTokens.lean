import Prgd.Certificates
import Mathlib.Data.List.Nodup

/-!
# One session for a terminal token

The claim of a check sets `tokenUsedAt` under the guard that it is unset, and
no statement clears it. So at most one call ever holds the claim of a session,
and only that call stores a certificate and returns.
-/
namespace Prgd.Grants
open Interleaving

/-- The session whose claim a call holds. -/
def holds : Pc → Option ℕ
  | .signing c | .storing c _ | .stamping c _ | .finishing c _ => some c.sessionId
  | _ => none

/-- The session for which a call has still to store a certificate. -/
def awaits : Pc → Option ℕ
  | .signing c | .storing c _ => some c.sessionId
  | _ => none

/-- The check a call makes, once it has read its rows. -/
def checkOf : Pc → Option Check
  | .vetting c | .claiming c | .signing c | .storing c _ | .stamping c _ | .finishing c _ => some c
  | _ => none

/-- The sessions of the stored certificates. -/
def issued (s : Shared) : List ℕ := s.certificates.map SshCertificate.sessionId

/-- The session exists, and its token is used. -/
def Used (s : Shared) (id : ℕ) : Prop :=
  ∃ t, s.sessions.find id = some t ∧ t.tokenUsedAt.isSome

/-- The session exists, and belongs to the token. -/
def OfToken (crypto : Crypto) (s : Shared) (token : String) (id : ℕ) : Prop :=
  ∃ t, s.sessions.find id = some t ∧ t.tokenHash = crypto.hash token

/-- A later version of a session: the same token, used if it was. -/
structure SameToken (t t' : Session) : Prop where
  tokenHash : t'.tokenHash = t.tokenHash
  used : t.tokenUsedAt.isSome → t'.tokenUsedAt.isSome

theorem SameToken.refl (t : Session) : SameToken t t := ⟨rfl, fun h => h⟩

/-- What a step can do to the sessions. -/
inductive SessionsWrote (s : Shared) (after : Table ℕ Session) : Prop
  | same (h : after = s.sessions)
  | updated (id : ℕ) (t t' : Session) (hfind : s.sessions.find id = some t)
      (h : after = s.sessions.put id t') (htoken : SameToken t t')
  | swept (f : ℕ → Session → Session) (h : after = s.sessions.amend f)
      (htoken : ∀ id t, SameToken t (f id t))
  | opened (t : Session) (h : after = s.sessions.put s.sessions.fresh t)
      (hfresh : s.byToken t.tokenHash = none)

theorem setSession_wrote {s : Shared} {id : ℕ} {guard : Session → Bool}
    {write : Session → Session} (h : ∀ t, SameToken t (write t)) :
    SessionsWrote s ((s.updateSession id guard write).getD s).sessions := by
  rcases updateSession_getD s id guard write with
    heq | ⟨t, ht, -, heq⟩
  · rw [heq]
    exact .same rfl
  · rw [heq]
    exact .updated id t (write t) ht rfl (h t)

theorem sameToken_report (read : Session) (type : SessionEvent) (reason : String) (now : ℤ)
    (t : Session) : SameToken t (writeReport read type reason now t) := by
  unfold writeReport
  dsimp only
  split
  · split_ifs <;> exact ⟨rfl, fun h => h⟩
  all_goals exact ⟨rfl, fun h => h⟩

theorem begin_sessions (crypto : Crypto) (s : Shared) (c : Call) :
    SessionsWrote s (begin crypto s c).1.sessions := by
  cases c
  case expireRecordings =>
    refine .swept (fun _ t => if t.status = .pending ∧ t.tokenExpiresAt < s.now then
      { t with status := .expired, endReason := some "token_expired" } else t) rfl ?_
    intro _ t
    split_ifs <;> exact ⟨rfl, fun h => h⟩
  all_goals
    simp only [begin]
    repeat' split
    all_goals exact .same rfl

theorem next_sessions {crypto : Crypto} {env : Env} {s s' : Shared} {pc pc' : Pc}
    (h : next crypto env s pc = some (s', pc')) : SessionsWrote s s'.sessions := by
  cases pc with
  | rest e => cases h
  | activating id read startsAt expiresAt thenStart =>
    cases h
    rw [updateGrant_frame]
    exact .same rfl
  | denying id actorId reason =>
    cases h
    rw [updateGrant_frame]
    exact .same rfl
  | stamping c serial =>
    cases h
    rw [Shared.setGrant, updateGrant_frame]
    exact .same rfl
  | refusing id status code message =>
    cases h
    exact setSession_wrote fun t => ⟨rfl, fun h => h⟩
  | killing sessions reason killedById e =>
    simp only [next] at h
    split at h <;> cases h
    · exact .same rfl
    · exact setSession_wrote fun t => ⟨rfl, fun h => h⟩
  | opening userId grantId clientIp =>
    simp only [next] at h
    split at h
    · cases h
      exact .same rfl
    · split_ifs at h with hused <;> cases h
      · exact .same rfl
      · exact .opened _ rfl (by simpa [newSession] using hused)
  | claiming c =>
    simp only [next] at h
    split at h
    · cases h
      exact .same rfl
    · next s'' hs =>
      obtain ⟨t, ht, -, rfl⟩ := updateSession_some hs
      cases h
      exact .updated c.sessionId t _ ht rfl ⟨rfl, fun _ => rfl⟩
  | finishing c serial =>
    simp only [next] at h
    split_ifs at h <;> cases h
    all_goals exact setSession_wrote fun t => ⟨rfl, fun h => h⟩
  | failing c error =>
    cases h
    exact setSession_wrote fun t => ⟨rfl, fun h => h⟩
  | reporting id read type reason =>
    cases h
    exact setSession_wrote fun t => sameToken_report read type reason s.now t
  | _ =>
    simp only [next] at h
    repeat' split at h
    all_goals
      cases h
      first
        | exact .same rfl
        | (next hs => obtain ⟨_, -, -, rfl⟩ := updateGrant_some hs; exact .same rfl)

theorem trans_sessions {crypto : Crypto} {i : ℕ} {s s' : Shared} {act : Act} {pc pc' : Pc}
    (h : trans crypto i s act pc = some (s', pc')) : SessionsWrote s s'.sessions := by
  unfold trans at h
  split at h
  · next c e =>
    have hs' : s' = (begin crypto s c).1 := by rw [Option.some.inj h]
    rw [hs']
    exact begin_sessions crypto s c
  · exact next_sessions h
  · cases h
    exact .same rfl
  · cases h

theorem SessionsWrote.kept {s s' : Shared} (h : SessionsWrote s s'.sessions) {id : ℕ}
    {t : Session} (ht : s.sessions.find id = some t) :
    ∃ t', s'.sessions.find id = some t' ∧ SameToken t t' := by
  cases h with
  | same h => exact ⟨t, by rw [h, ht], SameToken.refl t⟩
  | updated j u u' hfind h htoken =>
    rw [h]
    by_cases hj : id = j
    · subst hj
      rw [hfind] at ht
      cases ht
      exact ⟨u', Table.find_put_self _ _ _, htoken⟩
    · exact ⟨t, by rw [Table.find_put_of_ne _ hj, ht], SameToken.refl t⟩
  | swept f h htoken =>
    rw [h]
    exact ⟨f id t, by rw [Table.find_amend, ht]; rfl, htoken id t⟩
  | opened u h hfresh =>
    have hj : id ≠ s.sessions.fresh := by
      rintro rfl
      simp at ht
    exact ⟨t, by rw [h, Table.find_put_of_ne _ hj, ht], SameToken.refl t⟩

theorem Used.kept {s s' : Shared} (h : SessionsWrote s s'.sessions) {id : ℕ} (hu : Used s id) :
    Used s' id := by
  obtain ⟨t, ht, hused⟩ := hu
  obtain ⟨t', ht', hsame⟩ := h.kept ht
  exact ⟨t', ht', hsame.used hused⟩

theorem OfToken.kept {crypto : Crypto} {s s' : Shared} (h : SessionsWrote s s'.sessions)
    {token : String} {id : ℕ} (ho : OfToken crypto s token id) : OfToken crypto s' token id := by
  obtain ⟨t, ht, htoken⟩ := ho
  obtain ⟨t', ht', hsame⟩ := h.kept ht
  exact ⟨t', ht', hsame.tokenHash.trans htoken⟩

/-- The unique index on the hash of the token. -/
def UniqueTokens (s : Shared) : Prop :=
  ∀ i j t u, s.sessions.find i = some t → s.sessions.find j = some u →
    t.tokenHash = u.tokenHash → i = j

theorem byToken_none {s : Shared} {tokenHash : String} (h : s.byToken tokenHash = none) {id : ℕ}
    {t : Session} (ht : s.sessions.find id = some t) : t.tokenHash ≠ tokenHash := by
  intro heq
  have hnot := List.find?_eq_none.mp h _ (Table.find_mem ht)
  simp [heq] at hnot

/-- A session behind a step was there before with its token, or was opened by
the step. -/
theorem SessionsWrote.origin {s s' : Shared} (h : SessionsWrote s s'.sessions) {id : ℕ}
    {t : Session} (ht : s'.sessions.find id = some t) :
    (∃ u, s.sessions.find id = some u ∧ t.tokenHash = u.tokenHash) ∨
      (id = s.sessions.fresh ∧ s.byToken t.tokenHash = none) := by
  cases h with
  | same h =>
    left
    exact ⟨t, by rw [← h, ht], rfl⟩
  | updated j u u' hfind h htoken =>
    left
    rw [h] at ht
    by_cases hj : id = j
    · subst hj
      rw [Table.find_put_self] at ht
      cases ht
      exact ⟨u, hfind, htoken.tokenHash⟩
    · rw [Table.find_put_of_ne _ hj] at ht
      exact ⟨t, ht, rfl⟩
  | swept f h htoken =>
    left
    rw [h, Table.find_amend] at ht
    obtain ⟨u, hu, rfl⟩ := Option.map_eq_some_iff.mp ht
    exact ⟨u, hu, (htoken id u).tokenHash⟩
  | opened u h hfresh =>
    rw [h] at ht
    by_cases hj : id = s.sessions.fresh
    · right
      subst hj
      rw [Table.find_put_self] at ht
      cases ht
      exact ⟨rfl, hfresh⟩
    · left
      rw [Table.find_put_of_ne _ hj] at ht
      exact ⟨t, ht, rfl⟩

theorem UniqueTokens.kept {s s' : Shared} (h : SessionsWrote s s'.sessions)
    (hu : UniqueTokens s) : UniqueTokens s' := by
  intro i j t u ht hu' heq
  rcases h.origin ht with ⟨t₀, ht₀, hts⟩ | ⟨rfl, hti⟩
  · rcases h.origin hu' with ⟨u₀, hu₀, hus⟩ | ⟨rfl, huj⟩
    · exact hu i j t₀ u₀ ht₀ hu₀ (by rw [← hts, ← hus, heq])
    · rw [← heq] at huj
      exact (byToken_none huj ht₀ hts.symm).elim
  · rcases h.origin hu' with ⟨u₀, hu₀, hus⟩ | ⟨rfl, -⟩
    · rw [heq] at hti
      exact (byToken_none hti hu₀ hus.symm).elim
    · rfl

/-! ## The claim -/

/-- What a step can do to the claims, the certificates and the history: only an
unused token is claimed, only a call that awaits its certificate stores one,
and only a call that holds a claim returns. -/
structure Claims (s : Shared) (pc : Pc) (s' : Shared) (pc' : Pc) : Prop where
  holds : ∀ id, holds pc' = some id → holds pc = some id ∨ ¬ Used s id ∧ Used s' id
  awaits : ∀ id, awaits pc' = some id → awaits pc = some id ∨ ¬ Used s id
  issued : issued s' = issued s ∨
    ∃ id, Grants.awaits pc = some id ∧ Grants.awaits pc' = none ∧ issued s' = issued s ++ [id]
  passed : s'.passed = s.passed ∨
    ∃ c, checkOf pc = some c ∧ Grants.holds pc = some c.sessionId ∧ Grants.holds pc' = none ∧
      s'.passed = s.passed ++ [(c.token, c.sessionId)]

/-- A call outside of the claim. -/
def Free (pc : Pc) : Prop := holds pc = none ∧ awaits pc = none

theorem free_endNext (status : GrantStatus) (reason : String) (who : Option String)
    (ids : List ℕ) : Free (endNext status reason who ids) := by
  cases ids <;> exact ⟨rfl, rfl⟩

theorem free_killNext (sessions : List (ℕ × Option ℤ)) (reason : String)
    (killedById : Option String) (e : Option Ending) :
    Free (killNext sessions reason killedById e) := by
  unfold killNext
  split
  · exact ⟨rfl, rfl⟩
  · exact free_endNext _ _ _ _
  · exact ⟨rfl, rfl⟩

theorem free_readActivate (s : Shared) (id : ℕ) (thenStart : Bool) :
    Free (readActivate s id thenStart) := by
  unfold readActivate
  repeat' split
  all_goals exact ⟨rfl, rfl⟩

theorem free_begin (crypto : Crypto) (s : Shared) (c : Call) : Free (begin crypto s c).2 := by
  cases c with
  | revokeWhere ids reason who => exact free_endNext _ _ _ _
  | activate id => exact free_readActivate s id false
  | _ =>
    simp only [begin, readCheck]
    repeat' split
    all_goals exact ⟨rfl, rfl⟩

theorem Claims.free {s s' : Shared} {pc pc' : Pc} (hissued : Grants.issued s' = Grants.issued s)
    (hpassed : s'.passed = s.passed) (h : Free pc') : Claims s pc s' pc' where
  holds id hid := by
    rw [h.1] at hid
    cases hid
  awaits id hid := by
    rw [h.2] at hid
    cases hid
  issued := .inl hissued
  passed := .inl hpassed

theorem issued_revoked (s : Shared) (e : Ending) (since : ℤ) :
    (s.certificates.map fun c => if c.grantId = e.id ∧ c.revokedAt = none then
      { c with revokedAt := some since } else c).map SshCertificate.sessionId = issued s := by
  rw [List.map_map]
  apply List.map_congr_left
  intro c _
  dsimp only [Function.comp_def]
  split_ifs <;> rfl

theorem next_claims {crypto : Crypto} {env : Env} {s s' : Shared} {pc pc' : Pc}
    (h : next crypto env s pc = some (s', pc')) (hpc : Placed s pc) : Claims s pc s' pc' := by
  cases pc with
  | rest e => cases h
  | toActivate id thenStart =>
    cases h
    exact .free rfl rfl (free_readActivate s id thenStart)
  | activating id read startsAt expiresAt thenStart =>
    cases h
    rw [updateGrant_frame]
    refine .free rfl rfl ?_
    cases thenStart <;> exact ⟨rfl, rfl⟩
  | denying id actorId reason =>
    cases h
    rw [updateGrant_frame]
    exact .free rfl rfl ⟨rfl, rfl⟩
  | stamping c serial =>
    cases h
    rw [Shared.setGrant, updateGrant_frame]
    exact ⟨fun id hid => .inl hid, (by rintro _ ⟨⟩), .inl rfl, .inl rfl⟩
  | refusing id status code message =>
    cases h
    rw [updateSession_frame]
    exact .free rfl rfl ⟨rfl, rfl⟩
  | ending e =>
    simp only [next] at h
    split at h
    · cases h
      exact .free rfl rfl (free_endNext _ _ _ _)
    · next s'' hs =>
      obtain ⟨g, -, -, rfl⟩ := updateGrant_some hs
      cases h
      exact .free rfl rfl ⟨rfl, rfl⟩
  | revoking e since =>
    cases h
    exact .free (issued_revoked s e since) rfl ⟨rfl, rfl⟩
  | listening e =>
    cases h
    exact .free rfl rfl (free_killNext _ _ _ _)
  | killing sessions reason killedById e =>
    simp only [next] at h
    split at h <;> cases h
    · exact .free rfl rfl (free_killNext _ _ _ _)
    · rw [Shared.setSession, updateSession_frame]
      exact .free rfl rfl (free_killNext _ _ _ _)
  | claiming c =>
    simp only [next] at h
    split at h
    · cases h
      exact .free rfl rfl ⟨rfl, rfl⟩
    · next s'' hs =>
      obtain ⟨t, ht, hguard, rfl⟩ := updateSession_some hs
      cases h
      have hunused := (of_decide_eq_true hguard).1
      have hbefore : ¬ Used s c.sessionId := by
        rintro ⟨u, hu, hused⟩
        rw [ht] at hu
        cases hu
        rw [hunused] at hused
        cases hused
      refine ⟨?_, ?_, .inl rfl, .inl rfl⟩
      · intro id hid
        cases hid
        exact .inr ⟨hbefore, _, Table.find_put_self _ _ _, rfl⟩
      · intro id hid
        cases hid
        exact .inr hbefore
  | signing c =>
    simp only [next] at h
    split at h
    · cases h
      exact .free rfl rfl ⟨rfl, rfl⟩
    · split_ifs at h <;> cases h
      · exact ⟨fun id hid => .inl hid, fun id hid => .inl hid, .inl rfl, .inl rfl⟩
      · exact .free rfl rfl ⟨rfl, rfl⟩
  | storing c certificate =>
    simp only [next] at h
    split_ifs at h <;> cases h
    · exact .free rfl rfl ⟨rfl, rfl⟩
    · refine ⟨fun id hid => .inl hid, (by rintro _ ⟨⟩), .inr ⟨c.sessionId, rfl, rfl, ?_⟩, .inl rfl⟩
      simp [issued, hpc.2.2.2.2]
  | finishing c serial =>
    simp only [next] at h
    split_ifs at h <;> cases h
    · rw [Shared.setSession, updateSession_frame]
      exact ⟨(by rintro _ ⟨⟩), (by rintro _ ⟨⟩), .inl rfl, .inr ⟨c, rfl, rfl, rfl, rfl⟩⟩
    · rw [Shared.setSession, updateSession_frame]
      exact .free rfl rfl ⟨rfl, rfl⟩
  | failing c error =>
    cases h
    rw [Shared.setSession, updateSession_frame]
    exact .free rfl rfl ⟨rfl, rfl⟩
  | reporting id read type reason =>
    cases h
    rw [Shared.setSession, updateSession_frame]
    exact .free rfl rfl ⟨rfl, rfl⟩
  | _ =>
    simp only [next, endNext] at h
    repeat' split at h
    all_goals
      cases h
      first
        | exact .free rfl rfl ⟨rfl, rfl⟩
        | (next hs =>
            obtain ⟨_, -, -, rfl⟩ := updateGrant_some hs
            exact .free rfl rfl ⟨rfl, rfl⟩)

theorem trans_claims {crypto : Crypto} {i : ℕ} {s s' : Shared} {act : Act} {pc pc' : Pc}
    (h : trans crypto i s act pc = some (s', pc')) (hpc : Placed s pc) : Claims s pc s' pc' := by
  unfold trans at h
  split at h
  · next c e =>
    obtain ⟨hs', hpc'⟩ : s' = (begin crypto s c).1 ∧ pc' = (begin crypto s c).2 := by
      rw [Option.some.inj h]
      exact ⟨rfl, rfl⟩
    rw [hs', hpc', begin_frame]
    exact .free rfl rfl (free_begin crypto s c)
  · exact next_claims h hpc
  · cases h
    exact ⟨fun id hid => .inl hid, fun id hid => .inl hid, .inl rfl, .inl rfl⟩
  · cases h

/-- A check that a call makes behind a step was read by the step, or is the one
it made before. -/
theorem trans_checkOf {crypto : Crypto} {i : ℕ} {s s' : Shared} {act : Act} {pc pc' : Pc}
    (h : trans crypto i s act pc = some (s', pc')) {c : Check} (hc : checkOf pc' = some c) :
    checkOf pc = some c ∨ OfToken crypto s c.token c.sessionId := by
  unfold trans at h
  split at h
  · next call e =>
    right
    have hpc' : pc' = (begin crypto s call).2 := by rw [Option.some.inj h]
    subst hpc'
    cases call with
    | check token sessionId publicKey gatewayId clientIp =>
      simp only [begin, readCheck] at hc
      repeat' split at hc
      all_goals try cases hc
      next id t htoken _ _ _ _ _ _ _ _ _ =>
      have hrow := byToken_some htoken
      exact ⟨t, hrow.1, hrow.2⟩
    | revokeWhere ids reason who =>
      simp only [begin] at hc
      cases hids : ids.filter fun id =>
        ((s.grants.find id).map fun g => g.status.live).getD false <;>
        (rw [hids] at hc; cases hc)
    | _ =>
      simp only [begin, readActivate, endNext, throws] at hc
      repeat' split at hc
      all_goals cases hc
  · left
    next env =>
    cases pc <;> simp only [next, readActivate, killNext, Ending.next, endNext, throws] at h <;>
      repeat' split at h
    all_goals try cases h
    all_goals try cases hc
    all_goals rfl
  · left
    cases h
    exact hc
  · cases h

/-! ## Every schedule -/

/-- One holder, one certificate and one return for each used token. -/
structure Single (crypto : Crypto) (w : World) : Prop where
  used : ∀ q id, holds (w.pc q) = some id → Used w.shared id
  alone : ∀ p q id, holds (w.pc p) = some id → holds (w.pc q) = some id → p = q
  awaited : ∀ q id, awaits (w.pc q) = some id → id ∉ issued w.shared
  issuedUsed : ∀ id ∈ issued w.shared, Used w.shared id
  issuedOnce : (issued w.shared).Nodup
  passedUsed : ∀ p ∈ w.shared.passed, Used w.shared p.2
  passedToken : ∀ p ∈ w.shared.passed, OfToken crypto w.shared p.1 p.2
  passedFree : ∀ q id, holds (w.pc q) = some id → id ∉ w.shared.passed.map Prod.snd
  passedOnce : (w.shared.passed.map Prod.snd).Nodup
  unique : UniqueTokens w.shared
  traced : ∀ q c, checkOf (w.pc q) = some c → OfToken crypto w.shared c.token c.sessionId

theorem holds_of_awaits {pc : Pc} {id : ℕ} (h : awaits pc = some id) : holds pc = some id := by
  cases pc
  case signing => exact h
  case storing => exact h
  all_goals cases h

theorem single_start (crypto : Crypto) (now : ℤ) : Single crypto (start now) where
  used q id h := by cases h
  alone p q id h := by cases h
  awaited q id h := by cases h
  issuedUsed id h := by simp [issued, start] at h
  issuedOnce := by simp [issued, start]
  passedUsed p h := by simp [start] at h
  passedToken p h := by simp [start] at h
  passedFree q id h := by cases h
  passedOnce := by simp [start]
  unique i j t u h := by simp [start] at h
  traced q c h := by cases h

theorem nodup_snoc {α : Type} {l : List α} {a : α} (hl : l.Nodup) (ha : a ∉ l) :
    (l ++ [a]).Nodup := by
  rw [List.nodup_append_comm]
  exact List.nodup_cons.mpr ⟨ha, hl⟩

theorem single_step (crypto : Crypto) (w : World) (a : ℕ × Act) (hw : Steady w)
    (h : Single crypto w) : Single crypto (step crypto w a) := by
  rcases callerStep_cases (trans crypto) w a with heq | ⟨s', pc', ht, heq⟩
  · rw [step, heq]
    exact h
  · rw [step, heq]
    obtain ⟨i, act⟩ := a
    have hsessions := trans_sessions ht
    have hclaims := trans_claims ht (hw.placed i)
    -- a holder behind the step held the claim before, or has just made it
    have hholds : ∀ q id, holds (Function.update w.pc i pc' q) = some id →
        holds (w.pc q) = some id ∨ q = i ∧ ¬ Used w.shared id ∧ Used s' id :=
      update_cases (P := fun q pc => ∀ id, holds pc = some id →
          holds (w.pc q) = some id ∨ q = i ∧ ¬ Used w.shared id ∧ Used s' id)
        (fun id hid => (hclaims.holds id hid).imp (fun h => h) fun h => ⟨rfl, h⟩)
        (fun _ _ _ hid => .inl hid)
    have hothers : ∀ q id, q ≠ i → holds (Function.update w.pc i pc' q) = some id →
        holds (w.pc q) = some id := by
      intro q id hq hid
      rwa [Function.update_of_ne hq] at hid
    constructor
    case used =>
      intro q id hid
      rcases hholds q id hid with hold | ⟨-, -, hused⟩
      · exact (h.used q id hold).kept hsessions
      · exact hused
    case alone =>
      intro p q id hp hq
      rcases hholds p id hp with hp' | ⟨hpi, hnot, -⟩
      · rcases hholds q id hq with hq' | ⟨-, hnot, -⟩
        · exact h.alone p q id hp' hq'
        · exact (hnot (h.used p id hp')).elim
      · rcases hholds q id hq with hq' | ⟨hqi, -, -⟩
        · exact (hnot (h.used q id hq')).elim
        · rw [hpi, hqi]
    case awaited =>
      apply update_cases (P := fun _ pc => ∀ id, awaits pc = some id → id ∉ issued s')
      · intro id hid hmem
        rcases hclaims.issued with hsame | ⟨id₀, -, hnone, -⟩
        · rw [hsame] at hmem
          rcases hclaims.awaits id hid with hold | hnot
          · exact h.awaited i id hold hmem
          · exact hnot (h.issuedUsed id hmem)
        · rw [hnone] at hid
          cases hid
      · intro q hq id hid hmem
        rcases hclaims.issued with hsame | ⟨id₀, hid₀, -, happ⟩
        · rw [hsame] at hmem
          exact h.awaited q id hid hmem
        · rw [happ] at hmem
          rcases List.mem_append.mp hmem with hmem | hmem
          · exact h.awaited q id hid hmem
          · obtain rfl := List.mem_singleton.mp hmem
            exact hq (h.alone q i id (holds_of_awaits hid) (holds_of_awaits hid₀))
    case issuedUsed =>
      intro id hid
      apply Used.kept hsessions
      rcases hclaims.issued with hsame | ⟨id₀, hid₀, -, happ⟩
      · rw [hsame] at hid
        exact h.issuedUsed id hid
      · rw [happ] at hid
        rcases List.mem_append.mp hid with hid | hid
        · exact h.issuedUsed id hid
        · obtain rfl := List.mem_singleton.mp hid
          exact h.used i id (holds_of_awaits hid₀)
    case issuedOnce =>
      rcases hclaims.issued with hsame | ⟨id₀, hid₀, -, happ⟩
      · rw [hsame]
        exact h.issuedOnce
      · rw [happ]
        exact nodup_snoc h.issuedOnce (h.awaited i id₀ hid₀)
    case passedUsed =>
      intro p hp
      apply Used.kept hsessions
      rcases hclaims.passed with hsame | ⟨c, hc, hheld, -, happ⟩
      · rw [hsame] at hp
        exact h.passedUsed p hp
      · rw [happ] at hp
        rcases List.mem_append.mp hp with hp | hp
        · exact h.passedUsed p hp
        · obtain rfl := List.mem_singleton.mp hp
          exact h.used i _ hheld
    case passedToken =>
      intro p hp
      apply OfToken.kept hsessions
      rcases hclaims.passed with hsame | ⟨c, hc, hheld, -, happ⟩
      · rw [hsame] at hp
        exact h.passedToken p hp
      · rw [happ] at hp
        rcases List.mem_append.mp hp with hp | hp
        · exact h.passedToken p hp
        · obtain rfl := List.mem_singleton.mp hp
          exact h.traced i c hc
    case passedFree =>
      intro q id hid hmem
      have hnotBefore : id ∉ w.shared.passed.map Prod.snd := by
        intro hm
        rcases hholds q id hid with hold | ⟨-, hnot, -⟩
        · exact h.passedFree q id hold hm
        · obtain ⟨p, hp, rfl⟩ := List.mem_map.mp hm
          exact hnot (h.passedUsed p hp)
      rcases hclaims.passed with hsame | ⟨c, -, hheld, hnone, happ⟩
      · rw [hsame] at hmem
        exact hnotBefore hmem
      · rw [happ, List.map_append] at hmem
        rcases List.mem_append.mp hmem with hmem | hmem
        · exact hnotBefore hmem
        · have hsid : id = c.sessionId := by simpa using hmem
          subst hsid
          by_cases hq : q = i
          · have hgone : holds pc' = some c.sessionId := by simpa [hq] using hid
            rw [hnone] at hgone
            cases hgone
          · exact hq (h.alone q i _ (hothers q _ hq hid) hheld)
    case passedOnce =>
      rcases hclaims.passed with hsame | ⟨c, -, hheld, -, happ⟩
      · rw [hsame]
        exact h.passedOnce
      · rw [happ, List.map_append]
        exact nodup_snoc h.passedOnce (h.passedFree i _ hheld)
    case unique => exact h.unique.kept hsessions
    case traced =>
      apply update_cases (P := fun _ pc => ∀ c, checkOf pc = some c →
        OfToken crypto s' c.token c.sessionId)
      · intro c hc
        apply OfToken.kept hsessions
        rcases trans_checkOf ht hc with hold | hread
        · exact h.traced i c hold
        · exact hread
      · intro q _ c hc
        exact (h.traced q c hc).kept hsessions

theorem single_run (crypto : Crypto) (now : ℤ) (schedule : List (ℕ × Act)) :
    Single crypto (run (step crypto) (start now) schedule) := by
  have hboth : Steady (run (step crypto) (start now) schedule) ∧
      Single crypto (run (step crypto) (start now) schedule) :=
    run_invariant (I := fun w => Steady w ∧ Single crypto w)
      (fun w a hi => ⟨steady_step crypto w a hi.1, single_step crypto w a hi.1 hi.2⟩)
      ⟨steady_start now, single_start crypto now⟩ schedule
  exact hboth.2

theorem length_le_one {α β : Type} {l : List α} {f : α → β} (h : (l.map f).Nodup)
    (hsame : ∀ x ∈ l, ∀ y ∈ l, f x = f y) : l.length ≤ 1 := by
  match l with
  | [] => simp
  | [x] => simp
  | x :: y :: l =>
    have hne : f x ≠ f y := by
      rw [List.map_cons, List.map_cons, List.nodup_cons] at h
      intro heq
      exact h.1 (by simp [heq])
    exact (hne (hsame x (by simp) y (by simp))).elim

/-- Whatever the order of any number of checks and other calls: at most one
check of a token returns, and at most one certificate is stored for the session
of the token. -/
theorem token_good_for_one_session (crypto : Crypto) (now : ℤ) (schedule : List (ℕ × Act))
    (token : String) :
    let s := (run (step crypto) (start now) schedule).shared
    (s.passed.filter fun p => p.1 = token).length ≤ 1 ∧
      ∀ id t, s.sessions.find id = some t → t.tokenHash = crypto.hash token →
        (s.certificates.filter fun c => c.sessionId = id).length ≤ 1 := by
  intro s
  have hw := single_run crypto now schedule
  constructor
  · apply length_le_one (hw.passedOnce.sublist (List.filter_sublist.map Prod.snd))
    intro p hp q hq
    obtain ⟨hp, htp⟩ := List.mem_filter.mp hp
    obtain ⟨hq, htq⟩ := List.mem_filter.mp hq
    obtain ⟨t, ht, hashp⟩ := hw.passedToken p hp
    obtain ⟨u, hu, hashq⟩ := hw.passedToken q hq
    apply hw.unique p.2 q.2 t u ht hu
    rw [hashp, hashq, of_decide_eq_true htp, of_decide_eq_true htq]
  · intro id t _ _
    apply length_le_one (hw.issuedOnce.sublist (List.filter_sublist.map SshCertificate.sessionId))
    intro c hc d hd
    have hcid := (List.mem_filter.mp hc).2
    have hdid := (List.mem_filter.mp hd).2
    rw [of_decide_eq_true hcid, of_decide_eq_true hdid]

/-- Two gateways present one token at the same time. -/
example : (run (step plainCrypto) (start 0) (opened ++
    [(1, .call (.check "token1" none "key1" none none)),
      (2, .call (.check "token1" none "key2" none none)), (1, .next {}), (2, .next {}),
      (2, .next {}), (1, .next {}), (2, .next { serial := "1" }), (2, .next {}), (2, .next {}),
      (2, .next {})])).shared.passed = [("token1", 1)] := by
  decide

end Prgd.Grants
