import Prgd.GrantLife

/-!
# Certificates of a grant

`check` reads the grant when it begins and stores the certificate many
statements later; `end` revokes the certificates that are stored when it
comes to them. A certificate that is stored behind both outlives its grant.
When every certificate is stored in time, none does.
-/
namespace Prgd.Grants
open Interleaving

/-- What a step can do to the certificates. -/
inductive Certified (s : Shared) (pc : Pc) (s' : Shared) (pc' : Pc) : Prop
  | same (h : s'.certificates = s.certificates)
      (hpc : ∀ e since, pc = .revoking e since → pc' = pc)
  | stored (c : Check) (certificate : SshCertificate) (hpc : pc = .storing c certificate)
      (hpc' : pc' = .stamping c certificate.serial)
      (hs : s' = { s with certificates := s.certificates ++ [certificate] })
  | revoked (e : Ending) (since : ℤ) (hpc : pc = .revoking e since)
      (hs : s' = { s with certificates := s.certificates.map fun c =>
        if c.grantId = e.id ∧ c.revokedAt = none then { c with revokedAt := some since } else c })

theorem next_certified {crypto : Crypto} {env : Env} {s s' : Shared} {pc pc' : Pc}
    (h : next crypto env s pc = some (s', pc')) : Certified s pc s' pc' ∧ s'.now = s.now := by
  cases pc with
  | rest e => cases h
  | storing c certificate =>
    simp only [next] at h
    split_ifs at h <;> cases h
    · exact ⟨.same rfl (by rintro _ _ ⟨⟩), rfl⟩
    · exact ⟨.stored c certificate rfl rfl rfl, rfl⟩
  | revoking e since =>
    cases h
    exact ⟨.revoked e since rfl rfl, rfl⟩
  | activating id read startsAt expiresAt thenStart =>
    cases h
    rw [updateGrant_frame]
    exact ⟨.same rfl (by rintro _ _ ⟨⟩), rfl⟩
  | denying id actorId reason =>
    cases h
    rw [updateGrant_frame]
    exact ⟨.same rfl (by rintro _ _ ⟨⟩), rfl⟩
  | stamping c serial =>
    cases h
    rw [Shared.setGrant, updateGrant_frame]
    exact ⟨.same rfl (by rintro _ _ ⟨⟩), rfl⟩
  | refusing id status code message =>
    cases h
    rw [updateSession_frame]
    exact ⟨.same rfl (by rintro _ _ ⟨⟩), rfl⟩
  | _ =>
    simp only [next] at h
    repeat' split at h
    all_goals
      cases h
      first
        | exact ⟨.same rfl (by rintro _ _ ⟨⟩), rfl⟩
        | (rw [Shared.setSession, updateSession_frame]; exact ⟨.same rfl (by rintro _ _ ⟨⟩), rfl⟩)
        | (next hs => obtain ⟨_, -, -, rfl⟩ := updateGrant_some hs; exact ⟨.same rfl (by rintro _ _ ⟨⟩), rfl⟩)
        | (next hs => obtain ⟨_, -, -, rfl⟩ := updateSession_some hs; exact ⟨.same rfl (by rintro _ _ ⟨⟩), rfl⟩)

theorem trans_certified {crypto : Crypto} {i : ℕ} {s s' : Shared} {act : Act} {pc pc' : Pc}
    (h : trans crypto i s act pc = some (s', pc')) :
    Certified s pc s' pc' ∧ s.now ≤ s'.now := by
  unfold trans at h
  split at h
  · next c e =>
    have hs' : s' = (begin crypto s c).1 := by rw [Option.some.inj h]
    rw [hs', begin_frame]
    exact ⟨.same rfl nofun, le_refl _⟩
  · have hnext := next_certified h
    exact ⟨hnext.1, by rw [hnext.2]⟩
  · cases h
    exact ⟨.same rfl fun _ _ _ => rfl, by simp⟩
  · cases h

/-! ## Covered certificates -/

/-- The certificate belongs to an active grant and ends no later than it. -/
def Usable (s : Shared) (c : SshCertificate) : Prop :=
  ∃ g, s.grants.find c.grantId = some g ∧ g.status = .active ∧
    ∃ t, g.expiresAt = some t ∧ c.validBefore ≤ t

/-- An `end` of the grant has stored the status and comes to the certificates next. -/
def BeingRevoked (w : World) (id : ℕ) : Prop := ∃ q e since, w.pc q = .revoking e since ∧ e.id = id

/-- Every certificate that is not revoked belongs to an active grant, is about
to be revoked, or has run out. -/
def Covered (w : World) : Prop :=
  ∀ c ∈ w.shared.certificates, c.revokedAt = none →
    Usable w.shared c ∨ BeingRevoked w c.grantId ∨ c.validBefore ≤ w.shared.now

/-- A certificate is stored while its grant is active, or while an `end` has
still to come to the certificates, or after it has run out. -/
def InTime (w : World) (a : ℕ × Act) : Prop :=
  match a.2, w.pc a.1 with
  | .next _, .storing _ certificate =>
      (∃ g, w.shared.grants.find certificate.grantId = some g ∧ g.status = .active) ∨
        BeingRevoked w certificate.grantId ∨ certificate.validBefore ≤ w.shared.now
  | _, _ => True

/-- The row that differs is the one that was written. -/
theorem changed_row {s s' : Shared} {id j : ℕ} {k k' g g' : Grant}
    (hfind : s.grants.find id = some k) (hs : s'.grants = s.grants.put id k')
    (hg : s.grants.find j = some g) (hg' : s'.grants.find j = some g') (hne : g' ≠ g) :
    id = j ∧ k = g ∧ k' = g' := by
  rw [hs] at hg'
  by_cases hj : j = id
  · subst hj
    rw [Table.find_put_self] at hg'
    rw [hfind] at hg
    exact ⟨rfl, Option.some.inj hg, Option.some.inj hg'⟩
  · rw [Table.find_put_of_ne _ hj, hg] at hg'
    exact (hne (Option.some.inj hg').symm).elim

/-- An active grant stays usable until an `end` stores its status. -/
theorem Wrote.usable {s s' : Shared} {pc : Pc} (h : Wrote s pc s') (hpc : Placed s pc)
    {c : SshCertificate} (hc : Usable s c) :
    Usable s' c ∨ ∃ e, pc = .ending e ∧ e.id = c.grantId ∧ s'.grants ≠ s.grants := by
  obtain ⟨g, hg, hactive, t, ht, hle⟩ := hc
  obtain ⟨g', hg', hlater⟩ := h.onward hpc c.grantId g hg
  obtain ⟨t', ht', hle'⟩ := hlater.prolonged (by rw [hactive]; decide) t ht
  by_cases hstill : g'.status = .active
  · left
    exact ⟨g', hg', hstill, t', ht', hle.trans hle'⟩
  · right
    have hne : g' ≠ g := by
      rintro rfl
      exact hstill hactive
    have hchanged : s'.grants ≠ s.grants := by
      intro hsame
      rw [hsame, hg] at hg'
      exact hne (Option.some.inj hg').symm
    cases h with
    | same hs _ => exact (hchanged hs).elim
    | created userId dto contractId auto minutes emergency hs _ =>
      have hj : c.grantId ≠ s.grants.fresh := by
        intro hid
        rw [hid, Table.find_fresh] at hg
        cases hg
      rw [hs, Table.find_put_of_ne _ hj, hg] at hg'
      exact (hne (Option.some.inj hg').symm).elim
    | extended id read minutes reason rules expiresAt k hp hfind hk hcount hs _ =>
      obtain ⟨-, rfl, rfl⟩ := changed_row hfind hs hg hg' hne
      exact (hstill hactive).elim
    | approved id read actorId minutes k hp hfind hk hs _ =>
      obtain ⟨-, rfl, -⟩ := changed_row hfind hs hg hg' hne
      rw [hk] at hactive
      cases hactive
    | activated id read startsAt expiresAt thenStart k hp hfind hk hs _ =>
      obtain ⟨-, rfl, -⟩ := changed_row hfind hs hg hg' hne
      rw [hk] at hactive
      cases hactive
    | denied id actorId reason k hfind hk hs _ =>
      obtain ⟨-, rfl, -⟩ := changed_row hfind hs hg hg' hne
      rw [hk] at hactive
      cases hactive
    | ended e k hp hfind hlive hs _ =>
      obtain ⟨hid, -, -⟩ := changed_row hfind hs hg hg' hne
      exact ⟨e, hp, hid, hchanged⟩
    | stamped id serial k hfind hs _ =>
      obtain ⟨-, rfl, rfl⟩ := changed_row hfind hs hg hg' hne
      exact (hstill hactive).elim

/-- An `end` that has stored the status comes to the certificates next. -/
theorem trans_ending {crypto : Crypto} {i : ℕ} {s s' : Shared} {act : Act} {e : Ending} {pc' : Pc}
    (h : trans crypto i s act (.ending e) = some (s', pc')) (hs : s'.grants ≠ s.grants) :
    pc' = .revoking e s.now := by
  cases act with
  | call c => cases h
  | tick ms =>
    cases h
    exact (hs rfl).elim
  | next env =>
    simp only [trans, next] at h
    split at h <;> cases h
    · exact (hs rfl).elim
    · rfl

theorem BeingRevoked.kept {w : World} {id i : ℕ} {s' : Shared} {pc' : Pc}
    (h : BeingRevoked w id)
    (hpc : ∀ e since, w.pc i = .revoking e since → e.id = id → pc' = w.pc i) :
    BeingRevoked ⟨s', Function.update w.pc i pc'⟩ id := by
  obtain ⟨q, e, since, hq, hid⟩ := h
  refine ⟨q, e, since, ?_, hid⟩
  by_cases hqi : q = i
  · subst hqi
    simpa [hpc e since hq hid] using hq
  · simpa [Function.update_of_ne hqi] using hq

/-- A certificate that was covered and is not revoked by the step stays covered. -/
theorem covered_kept {crypto : Crypto} {w : World} (hw : Steady w) {i : ℕ} {act : Act}
    {s' : Shared} {pc' : Pc} (ht : trans crypto i w.shared act (w.pc i) = some (s', pc'))
    {c : SshCertificate}
    (hpc : ∀ e since, w.pc i = .revoking e since → e.id = c.grantId → pc' = w.pc i)
    (hc : Usable w.shared c ∨ BeingRevoked w c.grantId ∨ c.validBefore ≤ w.shared.now) :
    Usable s' c ∨ BeingRevoked ⟨s', Function.update w.pc i pc'⟩ c.grantId ∨
      c.validBefore ≤ s'.now := by
  rcases hc with hc | hc | hc
  · rcases (trans_wrote ht).usable (hw.placed i) hc with hc | ⟨e, he, hid, hchanged⟩
    · exact .inl hc
    · right
      left
      rw [he] at ht
      refine ⟨i, e, w.shared.now, ?_, hid⟩
      simpa using trans_ending ht hchanged
  · exact .inr (.inl (hc.kept hpc))
  · right
    right
    exact hc.trans (trans_certified ht).2

theorem covered_step (crypto : Crypto) (w : World) (a : ℕ × Act) (hok : InTime w a)
    (hw : Steady w) (h : Covered w) : Covered (step crypto w a) := by
  rcases callerStep_cases (trans crypto) w a with heq | ⟨s', pc', ht, heq⟩
  · rw [step, heq]
    exact h
  · rw [step, heq]
    have hcert := (trans_certified ht).1
    intro c hc hnone
    cases hcert with
    | same hsame hpc =>
      rw [hsame] at hc
      exact covered_kept hw ht (fun e since hr _ => hpc e since hr) (h c hc hnone)
    | stored k certificate hpc hpc' hs =>
      have hnot : ∀ e since, w.pc a.1 = .revoking e since → e.id = c.grantId → pc' = w.pc a.1 := by
        intro e since hr
        rw [hpc] at hr
        cases hr
      rw [hs] at hc
      rcases List.mem_append.mp hc with hold | hnew
      · exact covered_kept hw ht hnot (h c hold hnone)
      · obtain rfl := List.mem_singleton.mp hnew
        have hplaced := hw.placed a.1
        rw [hpc] at hplaced
        obtain ⟨⟨g, hg, hlater⟩, hactive, hexp, hgrant, -⟩ := hplaced
        obtain ⟨t, ht', hle⟩ := hlater.prolonged (by rw [hactive]; decide) _ hexp
        rw [← hgrant] at hg
        obtain ⟨i, act⟩ := a
        cases act with
        | call d =>
          rw [hpc] at ht
          cases ht
        | tick ms =>
          rw [hpc] at ht
          obtain ⟨-, hpc''⟩ := Prod.mk.inj (Option.some.inj ht)
          rw [hpc'] at hpc''
          cases hpc''
        | next env =>
          have hok' : (∃ g, w.shared.grants.find c.grantId = some g ∧ g.status = .active) ∨
              BeingRevoked w c.grantId ∨ c.validBefore ≤ w.shared.now := by
            simpa only [InTime, hpc] using hok
          apply covered_kept hw ht hnot
          rcases hok' with ⟨g', hg', hactive'⟩ | hrest
          · rw [hg] at hg'
            obtain rfl := Option.some.inj hg'
            exact .inl ⟨g, hg, hactive', t, ht', hle⟩
          · exact .inr hrest
    | revoked e since hpc hs =>
      rw [hs] at hc
      obtain ⟨d, hd, hdc⟩ := List.mem_map.mp hc
      split_ifs at hdc with hcond
      · rw [← hdc] at hnone
        cases hnone
      · subst hdc
        refine covered_kept hw ht ?_ (h d hd hnone)
        intro e' since' hr hid
        rw [hpc] at hr
        obtain ⟨rfl, -⟩ := Pc.revoking.inj hr
        exact (hcond ⟨hid.symm, hnone⟩).elim

/-! ## Every schedule -/

def AtRest : Pc → Prop
  | .rest _ => True
  | _ => False

theorem covered_run (crypto : Crypto) {now : ℤ} {schedule : List (ℕ × Act)}
    (h : Meets (step crypto) InTime (start now) schedule) :
    Covered (run (step crypto) (start now) schedule) := by
  have hboth : Steady (run (step crypto) (start now) schedule) ∧
      Covered (run (step crypto) (start now) schedule) :=
    Meets.invariant (I := fun w => Steady w ∧ Covered w)
      (fun w a hok hi => ⟨steady_step crypto w a hi.1, covered_step crypto w a hok hi.1 hi.2⟩)
      h ⟨steady_start now, by simp [Covered, start]⟩
  exact hboth.2

/-- When every certificate is stored in time and no call is under way, a
certificate that still opens a session belongs to an active grant and ends no
later than the grant. -/
theorem certificates_end_with_grants (crypto : Crypto) (now : ℤ) (schedule : List (ℕ × Act))
    (h : Meets (step crypto) InTime (start now) schedule)
    (hrest : ∀ i, AtRest ((run (step crypto) (start now) schedule).pc i)) :
    ∀ c ∈ (run (step crypto) (start now) schedule).shared.certificates, c.revokedAt = none →
      (run (step crypto) (start now) schedule).shared.now < c.validBefore →
      Usable (run (step crypto) (start now) schedule).shared c := by
  intro c hc hnone hvalid
  rcases covered_run crypto h c hc hnone with hcov | ⟨q, e, since, hq, -⟩ | hcov
  · exact hcov
  · have := hrest q
    rw [hq] at this
    exact this.elim
  · omega

/-! ## An engineer opens a terminal -/

/-- Hashes and fingerprints that keep what they are given. -/
def plainCrypto : Crypto := ⟨id, id⟩

/-- A request for an urgent ticket by the engineer on call. -/
def urgentRequest : Call :=
  .request "eng1" ⟨"asset1", some "ticket1", none, "disk full", 60⟩
    ⟨⟨"contract1", true, false, false, some "10.0.0.5"⟩,
      .ticket "contract1" none true (some .p1), none, ⟨120, 240, 1⟩, true⟩

/-- The request is approved by the rule, the workflow engine is down, so the
grant is activated at once; the engineer opens a session. -/
def opened : List (ℕ × Act) :=
  [(0, .call urgentRequest), (0, .next {}), (0, .next { ok := false }), (0, .next {}),
    (0, .next {}), (0, .call (.openSession "eng1" 1 none)), (0, .next { token := "token1" })]

/-- The gateway's check, up to the signed certificate. -/
def signed : List (ℕ × Act) :=
  [(1, .call (.check "token1" none "key1" none none)), (1, .next {}), (1, .next {}),
    (1, .next { serial := "1" })]

/-- The certificate is stored and the check returns. -/
def stored : List (ℕ × Act) := [(1, .next {}), (1, .next {}), (1, .next {})]

/-- A lead revokes the grant: status, certificates, live sessions. -/
def revocation : List (ℕ × Act) :=
  [(2, .call (.revoke (some "lead1") 1 "done")), (2, .next {}), (2, .next {}), (2, .next {}),
    (2, .next {})]

/-- The first case of `InTime`. -/
def activeAtStore (w : World) (a : ℕ × Act) : Bool :=
  match a.2, w.pc a.1 with
  | .next _, .storing _ certificate =>
      (w.shared.grants.find certificate.grantId).any fun g => g.status = .active
  | _, _ => true

theorem inTime_of_activeAtStore {w : World} {a : ℕ × Act} (h : activeAtStore w a) :
    InTime w a := by
  unfold activeAtStore at h
  unfold InTime
  split at h
  · next env c certificate _ _ =>
    left
    cases hg : w.shared.grants.find certificate.grantId with
    | none => simp [hg] at h
    | some g => exact ⟨g, rfl, by simpa [hg] using h⟩
  · trivial

/-- Callers that take no step rest. -/
theorem atRest_of_callers (crypto : Crypto) (now : ℤ) (schedule : List (ℕ × Act)) {n : ℕ}
    (hcallers : ∀ q ∈ schedule.map Prod.fst, q < n)
    (hrest : ∀ q < n, (run (step crypto) (start now) schedule).pc q = .rest none) :
    ∀ i, AtRest ((run (step crypto) (start now) schedule).pc i) := by
  intro i
  by_cases hi : i < n
  · rw [hrest i hi]
    trivial
  · have hnot : i ∉ schedule.map Prod.fst := fun hm => hi (hcallers i hm)
    rw [step, run_pc_of_notMem _ _ hnot]
    trivial

/-- The terminal is open. -/
def openTerminal : World := run (step plainCrypto) (start 0) (opened ++ signed ++ stored)

theorem certificates_end_with_grants_open : openTerminal.shared.certificates.length = 1 ∧
    ∀ c ∈ openTerminal.shared.certificates, c.revokedAt = none →
      openTerminal.shared.now < c.validBefore → Usable openTerminal.shared c := by
  have hmeets : Meets (step plainCrypto) (fun w a => activeAtStore w a = true) (start 0)
      (opened ++ signed ++ stored) := by decide
  have htime : Meets (step plainCrypto) InTime (start 0) (opened ++ signed ++ stored) :=
    hmeets.mono fun w a _ h => inTime_of_activeAtStore h
  have hcallers : ∀ q ∈ (opened ++ signed ++ stored).map Prod.fst, q < 3 := by decide
  have hpc : ∀ q < 3, openTerminal.pc q = .rest none := by decide
  have hrest := atRest_of_callers plainCrypto 0 (opened ++ signed ++ stored) hcallers hpc
  refine ⟨by decide, ?_⟩
  exact certificates_end_with_grants plainCrypto 0 (opened ++ signed ++ stored) htime hrest

/-- The grant is revoked between the signature and the store. -/
def lateStore : World :=
  run (step plainCrypto) (start 0) (opened ++ signed ++ revocation ++ stored)

/-- Nobody is under way any more, and a certificate that is not revoked and
still valid belongs to a revoked grant. -/
theorem certificate_outlives_grant :
    (∀ i, AtRest (lateStore.pc i)) ∧
      ∃ c ∈ lateStore.shared.certificates, c.revokedAt = none ∧
        lateStore.shared.now < c.validBefore ∧ ¬ Usable lateStore.shared c := by
  have hcallers : ∀ q ∈ (opened ++ signed ++ revocation ++ stored).map Prod.fst, q < 3 := by
    decide
  have hrest : ∀ q < 3, lateStore.pc q = .rest none := by decide
  have hcert : lateStore.shared.certificates.map (fun c => (c.grantId, c.revokedAt, c.validBefore))
      = [(1, none, 7200000)] := by decide
  have hstatus : (lateStore.shared.grants.find 1).map Grant.status = some .revoked := by
    decide
  have hnow : lateStore.shared.now < 7200000 := by decide
  refine ⟨atRest_of_callers plainCrypto 0 (opened ++ signed ++ revocation ++ stored) hcallers hrest,
    ?_⟩
  obtain ⟨c, hc, hfields⟩ : ∃ c ∈ lateStore.shared.certificates,
      (c.grantId, c.revokedAt, c.validBefore) = (1, none, 7200000) := by
    apply List.mem_map.mp
    rw [hcert]
    simp
  simp only [Prod.mk.injEq] at hfields
  refine ⟨c, hc, hfields.2.1, ?_, ?_⟩
  · rw [hfields.2.2]
    exact hnow
  · rintro ⟨g, hg, hactive, -⟩
    rw [hfields.1] at hg
    rw [hg] at hstatus
    simp [hactive] at hstatus

end Prgd.Grants
