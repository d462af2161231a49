import Prgd.Credentials

/-!
# One use of a credential

A token is stamped by a second step, and a recovery code is burnt by a write of a whole list that was
computed from an older read. Each is used once where these spans do not overlap: a call finds a token
only while no other call holds it, and accepts a recovery code only on the codes as they are, with no
burn of that user under way. Where they do overlap, the calls that are under way can go on to use the
credential twice, or to bring a burnt code back.
-/
namespace Prgd.Accounts
open Interleaving

/-- The token that a call has found valid and not stamped yet. -/
def holding : Pc → Option ℕ
  | .consuming _ id _ => some id
  | _ => none

/-- The recovery codes that a call has read. -/
def snapshot : Pc → Option (ℕ × List String)
  | .checking _ userId user => some (userId, user.totpRecoveryHashes)
  | _ => none

/-- The call holds nothing. -/
def Plain (pc : Pc) : Prop := holding pc = none ∧ snapshot pc = none

/-- Neither credential is touched: tokens keep their stamps, users their codes. -/
structure Frame (s s' : Shared) : Prop where
  users : ∀ u, (s'.users.find u).map User.totpRecoveryHashes =
    (s.users.find u).map User.totpRecoveryHashes
  tokens : ∀ id row, s.tokens.find id = some row →
    ∃ row', s'.tokens.find id = some row' ∧ (row.usedAt.isSome → row'.usedAt.isSome)
  burning : s'.burning = s.burning
  accepted : s'.accepted = s.accepted
  consumed : s'.consumed = s.consumed

/-- What a step does to the credentials. -/
inductive Moves (s : Shared) (pc : Pc) : Shared → Pc → Prop
  | quiet {s' : Shared} {pc' : Pc} (hframe : Frame s s') (hpc : pc' = pc ∨ Plain pc') :
      Moves s pc s' pc'
  | read {dto : LoginDto} {u : ℕ} {user : User} (huser : s.users.find u = some user) :
      Moves s pc s (.checking dto u user)
  | found {use : Use} {id : ℕ} {row : EmailToken} (hrow : s.tokens.find id = some row)
      (hunused : row.usedAt = none) : Moves s pc s (.consuming use id row)
  | stamp {use : Use} {id : ℕ} {row : EmailToken} {pc' : Pc} (now : ℕ)
      (hpc : pc = .consuming use id row) (hpc' : Plain pc') :
      Moves s pc { s with
        tokens := s.tokens.modify id fun t => { t with usedAt := some now }
        consumed := id :: s.consumed } pc'
  | recover {dto : LoginDto} {u : ℕ} {user : User} {h : String} {pc' : Pc} (now : ℕ) (crypto : Crypto)
      (hpc : pc = .checking dto u user) (hcode : checkUser crypto now dto user = .recovered h)
      (hpc' : Plain pc') :
      Moves s pc { s with
        burning := s.burning ++ [⟨u, h, user.totpRecoveryHashes.filter (· ≠ h)⟩]
        accepted := (u, h) :: s.accepted } pc'
  | burn {k : ℕ} {b : Burn} (hb : s.burning[k]? = some b) :
      Moves s pc { s.updateUser b.userId fun u => { u with totpRecoveryHashes := b.left } with
        burning := s.burning.eraseIdx k } pc

section
variable {crypto : Crypto} {env : Env} {s s' : Shared} {pc pc' : Pc} {i : ℕ} {a : Act}

theorem frame_refl (s : Shared) : Frame s s :=
  ⟨fun _ => rfl, fun _ row h => ⟨row, h, fun hused => hused⟩, rfl, rfl, rfl⟩

theorem frame_updateUser {f : User → User} (u : ℕ)
    (h : ∀ user, (f user).totpRecoveryHashes = user.totpRecoveryHashes) : Frame s (s.updateUser u f) := by
  refine ⟨fun v => ?_, fun _ row hrow => ⟨row, hrow, fun hused => hused⟩, rfl, rfl, rfl⟩
  simp only [Shared.updateUser]
  rw [Table.find_modify]
  split_ifs with hv
  · cases s.users.find v with
    | none => rfl
    | some user => exact congrArg some (h user)
  · rfl

theorem recovered_mem {now : ℕ} {dto : LoginDto} {user : User} {h : String}
    (hcode : checkUser crypto now dto user = .recovered h) : h ∈ user.totpRecoveryHashes := by
  have hsecond : ∀ code, checkSecondFactor crypto now user code = .recovery h →
      h ∈ user.totpRecoveryHashes := by
    intro code hcheck
    rw [checkSecondFactor] at hcheck
    split_ifs at hcheck
    dsimp only at hcheck
    split_ifs at hcheck with hmem
    cases hcheck
    exact hmem
  unfold checkUser at hcode
  split_ifs at hcode
  split at hcode
  · cases hcode
  · split at hcode
    · cases hcode
    · next hcheck =>
      cases hcode
      exact hsecond _ hcheck
    · cases hcode

theorem plain_signIn (u : ℕ) (user : User) : Plain (signIn u user) := by
  unfold signIn
  split <;> exact ⟨rfl, rfl⟩

theorem plain_consumedBy (u : ℕ) (use : Use) : Plain (consumedBy u use) := by
  cases use <;> exact ⟨rfl, rfl⟩

theorem userByEmail_some {email : Text} {u : ℕ} {user : User}
    (h : s.userByEmail email = some (u, user)) : s.users.find u = some user :=
  Table.find_of_mem (List.mem_of_find?_eq_some h)

theorem tokenByHash_some {hash : String} {id : ℕ} {row : EmailToken}
    (h : s.tokenByHash hash = some (id, row)) : s.tokens.find id = some row :=
  Table.find_of_mem (List.mem_of_find?_eq_some h)

theorem findToken_moves (raw : Text) (use : Use) : Moves s pc s (findToken crypto env s raw use) := by
  unfold findToken
  split
  · exact .quiet (frame_refl s) (.inr ⟨rfl, rfl⟩)
  · next hfind =>
    split_ifs with hvalid
    · exact .found (tokenByHash_some hfind) hvalid.2.1
    · exact .quiet (frame_refl s) (.inr ⟨rfl, rfl⟩)

theorem next_moves (h : next crypto env s pc = some (s', pc')) : Moves s pc s' pc' := by
  cases pc with
  | started call =>
    cases call with
    | login dto =>
      simp only [next] at h
      split at h
      · cases h
        exact .quiet (frame_refl s) (.inr ⟨rfl, rfl⟩)
      · next hfind =>
        split_ifs at h <;> cases h
        · exact .quiet (frame_refl s) (.inr ⟨rfl, rfl⟩)
        · exact .read (userByEmail_some hfind)
    | resetPassword token password =>
      cases h
      exact findToken_moves token (.reset password)
    | verifyEmail token =>
      cases h
      exact findToken_moves token .verify
  | checking dto u user =>
    simp only [next] at h
    split at h
    · cases h
      exact .quiet (frame_refl s) (.inr ⟨rfl, rfl⟩)
    · cases h
      exact .quiet (frame_refl s) (.inr (plain_signIn u user))
    · next hcode =>
      cases h
      exact .recover env.now crypto rfl hcode (plain_signIn u user)
  | consuming use id row =>
    cases h
    exact .stamp env.now rfl (plain_consumedBy row.userId use)
  | proving u password =>
    simp only [next] at h
    split at h
    · cases h
      exact .quiet (frame_refl s) (.inr ⟨rfl, rfl⟩)
    · split_ifs at h <;> cases h <;> exact .quiet (frame_refl s) (.inr ⟨rfl, rfl⟩)
  | setting u password =>
    cases h
    exact .quiet (frame_updateUser u fun _ => rfl) (.inr ⟨rfl, rfl⟩)
  | voiding u =>
    cases h
    refine .quiet ⟨fun _ => rfl, ?_, rfl, rfl, rfl⟩ (.inr ⟨rfl, rfl⟩)
    intro id row hrow
    refine ⟨_, by rw [Table.find_amend, hrow]; rfl, ?_⟩
    dsimp only
    split_ifs with hvoid
    · exact fun _ => rfl
    · exact fun hused => hused
  | verifying u =>
    cases h
    exact .quiet (frame_updateUser u fun _ => rfl) (.inr ⟨rfl, rfl⟩)
  | idle | failed e | done => cases h
  | noPassword u | issuing u t | dropping u p e | signingOut u | listing u | activating ts =>
    cases h
    exact .quiet ⟨fun _ => rfl, fun _ row hrow => ⟨row, hrow, fun hused => hused⟩, rfl, rfl, rfl⟩
      (.inr ⟨rfl, rfl⟩)

theorem trans_moves (h : trans crypto i s a pc = some (s', pc')) : Moves s pc s' pc' := by
  cases a with
  | call c =>
    simp only [trans] at h
    split_ifs at h
    cases h
    exact .quiet (frame_refl s) (.inr ⟨rfl, rfl⟩)
  | next env => exact next_moves h
  | burn k =>
    simp only [trans] at h
    split at h
    · cases h
    · next hb =>
      cases h
      exact .burn hb
  | issue u kind tokenHash expiresAt =>
    simp only [trans] at h
    split_ifs at h
    cases h
    refine .quiet ⟨fun _ => rfl, ?_, rfl, rfl, rfl⟩ (.inl rfl)
    exact fun id row hrow => ⟨row, Table.find_put_of_some hrow, fun hused => hused⟩

end

/-! ## Email tokens -/

/-- A token that is accepted is stamped, and at most one call holds a token that is not accepted. -/
structure TokensOnce (s : Shared) (pc : ℕ → Pc) : Prop where
  nodup : s.consumed.Nodup
  used : ∀ id ∈ s.consumed, ∃ row, s.tokens.find id = some row ∧ row.usedAt.isSome
  held : ∀ i id, holding (pc i) = some id → id ∉ s.consumed ∧ (s.tokens.find id).isSome
  alone : ∀ i j id, holding (pc i) = some id → holding (pc j) = some id → i = j

/-- The codes of a user are the ones that were read, less the ones accepted since. -/
structure Outdated (s : Shared) (u : ℕ) (codes : List String) : Prop where
  user : (s.users.find u).isSome
  left : s.codes u = codes.filter (· ∈ s.codes u)
  gone : ∀ h ∈ codes, h ∈ s.codes u ∨ (u, h) ∈ s.accepted

/-- A code that was accepted and burnt is not a code, and at most one burn of each user is under
way. -/
structure CodesOnce (s : Shared) (pc : ℕ → Pc) : Prop where
  nodup : s.accepted.Nodup
  burnt : ∀ u h, (u, h) ∈ s.accepted → (∃ b ∈ s.burning, b.userId = u ∧ b.code = h) ∨ h ∉ s.codes u
  burning : ∀ b ∈ s.burning, (b.userId, b.code) ∈ s.accepted ∧ b.code ∈ s.codes b.userId ∧
    b.left = (s.codes b.userId).filter (· ≠ b.code)
  apart : s.burning.Pairwise fun b c => b.userId ≠ c.userId
  reads : ∀ i u codes, snapshot (pc i) = some (u, codes) → Outdated s u codes

/-- A call finds a token only while no call holds it, and accepts a recovery code only when it has
read the codes as they are and no burn of the user is under way. -/
def Apart (crypto : Crypto) (w : World Shared Pc) : ℕ × Act → Prop
  | (i, .next env) =>
      (∀ s' pc' id, next crypto env w.shared (w.pc i) = some (s', pc') → holding pc' = some id →
        ∀ j, holding (w.pc j) ≠ some id) ∧
      ∀ dto u user h, w.pc i = .checking dto u user → checkUser crypto env.now dto user = .recovered h →
        user.totpRecoveryHashes = w.shared.codes u ∧ ∀ b ∈ w.shared.burning, b.userId ≠ u
  | _ => True

section
variable {crypto : Crypto} {w : World Shared Pc} {s s' : Shared} {pc pc' : Pc} {i : ℕ}

theorem Plain.holds_none (h : Plain pc) {id : ℕ} : holding pc ≠ some id := by
  rw [h.1]
  exact nofun

theorem Plain.reads_none (h : Plain pc) {r : ℕ × List String} : snapshot pc ≠ some r := by
  rw [h.2]
  exact nofun

/-- Who moves away from its token leaves the others apart. -/
theorem holding_update {pcs : ℕ → Pc} {P : ℕ → Prop}
    (hnew : ∀ id, holding pc' = some id → P id)
    (hold : ∀ q id, q ≠ i → holding (pcs q) = some id → P id) :
    ∀ q id, holding (Function.update pcs i pc' q) = some id → P id := by
  intro q id hq
  by_cases hqi : q = i
  · subst hqi
    rw [Function.update_self] at hq
    exact hnew id hq
  · rw [Function.update_of_ne hqi] at hq
    exact hold q id hqi hq

theorem alone_update {pcs : ℕ → Pc}
    (hnew : ∀ id, holding pc' = some id → ∀ q, q ≠ i → holding (pcs q) ≠ some id)
    (hold : ∀ q r id, holding (pcs q) = some id → holding (pcs r) = some id → q = r) :
    ∀ q r id, holding (Function.update pcs i pc' q) = some id →
      holding (Function.update pcs i pc' r) = some id → q = r := by
  intro q r id hq hr
  by_cases hqi : q = i <;> by_cases hri : r = i
  · rw [hqi, hri]
  · subst hqi
    rw [Function.update_self] at hq
    rw [Function.update_of_ne hri] at hr
    exact (hnew id hq r hri hr).elim
  · subst hri
    rw [Function.update_self] at hr
    rw [Function.update_of_ne hqi] at hq
    exact (hnew id hr q hqi hq).elim
  · rw [Function.update_of_ne hqi] at hq
    rw [Function.update_of_ne hri] at hr
    exact hold q r id hq hr

theorem tokensOnce_moves (h : TokensOnce w.shared w.pc) (hmoves : Moves w.shared (w.pc i) s' pc')
    (hfind : ∀ id, holding pc' = some id → pc' = w.pc i ∨ ∀ j, holding (w.pc j) ≠ some id) :
    TokensOnce s' (Function.update w.pc i pc') := by
  -- A step that neither finds nor stamps a token.
  have hplain : ∀ s'', s''.consumed = w.shared.consumed →
      (∀ id row, w.shared.tokens.find id = some row →
        ∃ row', s''.tokens.find id = some row' ∧ (row.usedAt.isSome → row'.usedAt.isSome)) →
      (pc' = w.pc i ∨ holding pc' = none) → TokensOnce s'' (Function.update w.pc i pc') := by
    intro s'' hconsumed htokens hpc
    have hsame : ∀ id, holding pc' = some id → holding (w.pc i) = some id := by
      intro id hid
      rcases hpc with rfl | hpc
      · exact hid
      · rw [hpc] at hid
        cases hid
    refine ⟨by rw [hconsumed]; exact h.nodup, ?_, ?_, ?_⟩
    · intro id hid
      rw [hconsumed] at hid
      obtain ⟨row, hrow, hused⟩ := h.used id hid
      obtain ⟨row', hrow', hkeep⟩ := htokens id row hrow
      exact ⟨row', hrow', hkeep hused⟩
    · have hkept : ∀ q id, holding (w.pc q) = some id →
          id ∉ s''.consumed ∧ (s''.tokens.find id).isSome := by
        intro q id hid
        obtain ⟨hnot, hsome⟩ := h.held q id hid
        obtain ⟨row, hrow⟩ := Option.isSome_iff_exists.mp hsome
        obtain ⟨row', hrow', -⟩ := htokens id row hrow
        exact ⟨by rw [hconsumed]; exact hnot, by rw [hrow']; rfl⟩
      exact holding_update (P := fun id => id ∉ s''.consumed ∧ (s''.tokens.find id).isSome)
        (fun id hid => hkept i id (hsame id hid)) fun q id _ => hkept q id
    · exact alone_update (fun id hid q hq hqid => hq (h.alone q i id hqid (hsame id hid))) h.alone
  have hrows : ∀ id row, w.shared.tokens.find id = some row →
      ∃ row', w.shared.tokens.find id = some row' ∧ (row.usedAt.isSome → row'.usedAt.isSome) :=
    fun id row hrow => ⟨row, hrow, fun hused => hused⟩
  cases hmoves with
  | quiet hframe hpc => exact hplain s' hframe.consumed hframe.tokens (hpc.imp_right And.left)
  | read huser => exact hplain _ rfl hrows (.inr rfl)
  | @found use id row hrow hunused =>
    rcases hfind id rfl with heq | hfree
    · exact hplain _ rfl hrows (.inl heq)
    · refine ⟨h.nodup, h.used, ?_, ?_⟩
      · refine holding_update
          (P := fun id => id ∉ w.shared.consumed ∧ (w.shared.tokens.find id).isSome) ?_
          fun q id' _ => h.held q id'
        intro id' hid'
        cases hid'
        refine ⟨fun hmem => ?_, by rw [hrow]; rfl⟩
        obtain ⟨row', hrow', hused⟩ := h.used id hmem
        rw [hrow] at hrow'
        cases hrow'
        rw [hunused] at hused
        cases hused
      · refine alone_update ?_ h.alone
        intro id' hid' q _
        cases hid'
        exact hfree q
  | @stamp use id row _ now hpc hpc' =>
    have hmine : holding (w.pc i) = some id := by
      rw [hpc]
      rfl
    obtain ⟨hnew, hexists⟩ := h.held i id hmine
    refine ⟨List.nodup_cons.mpr ⟨hnew, h.nodup⟩, ?_, ?_, ?_⟩
    · intro id' hid'
      simp only [Table.find_modify]
      split_ifs with heq
      · obtain ⟨row', hrow'⟩ := Option.isSome_iff_exists.mp hexists
        exact ⟨{ row' with usedAt := some now }, by rw [heq, hrow']; rfl, rfl⟩
      · exact h.used id' ((List.mem_cons.mp hid').resolve_left heq)
    · refine holding_update (P := fun id' => id' ∉ id :: w.shared.consumed ∧ _)
        (fun _ hid' => (hpc'.holds_none hid').elim) ?_
      intro q id' hq hid'
      obtain ⟨hnot, hsome⟩ := h.held q id' hid'
      have hne : id' ≠ id := by
        rintro rfl
        exact hq (h.alone q i _ hid' hmine)
      refine ⟨List.not_mem_cons_of_ne_of_not_mem hne hnot, ?_⟩
      simp only [Table.find_modify, if_neg hne]
      exact hsome
    · exact alone_update (fun _ hid' => (hpc'.holds_none hid').elim) h.alone
  | recover now crypto hpc hcode hpc' => exact hplain _ rfl hrows (.inr hpc'.1)
  | burn hb => exact hplain _ rfl hrows (.inl rfl)

/-! ## Recovery codes -/

theorem codes_eq (s : Shared) (u : ℕ) :
    s.codes u = ((s.users.find u).map User.totpRecoveryHashes).getD [] := by
  unfold Shared.codes
  cases s.users.find u <;> rfl

theorem Frame.codes (h : Frame s s') (u : ℕ) : s'.codes u = s.codes u := by
  rw [codes_eq, codes_eq, h.users u]

theorem Frame.isSome (h : Frame s s') {u : ℕ} (hu : (s.users.find u).isSome) :
    (s'.users.find u).isSome := by
  have hmap := congrArg Option.isSome (h.users u)
  rw [Option.isSome_map, Option.isSome_map] at hmap
  rwa [hmap]

theorem exists_of_mem_codes {u : ℕ} {h : String} (hmem : h ∈ s.codes u) : (s.users.find u).isSome := by
  cases hu : s.users.find u with
  | some user => rfl
  | none =>
    rw [Shared.codes, hu] at hmem
    cases hmem

/-- The write of a burn. -/
theorem codes_burn {b : Burn} {bs : List Burn} (hu : (s.users.find b.userId).isSome) (u : ℕ) :
    Shared.codes { s.updateUser b.userId fun user => { user with totpRecoveryHashes := b.left } with
      burning := bs } u = if u = b.userId then b.left else s.codes u := by
  simp only [Shared.codes, Shared.updateUser, Table.find_modify]
  split_ifs with heq
  · rw [heq]
    obtain ⟨user, huser⟩ := Option.isSome_iff_exists.mp hu
    rw [huser]
    rfl
  · rfl

theorem snapshot_update {pcs : ℕ → Pc} {P : ℕ → List String → Prop}
    (hnew : ∀ u codes, snapshot pc' = some (u, codes) → P u codes)
    (hold : ∀ q u codes, snapshot (pcs q) = some (u, codes) → P u codes) :
    ∀ q u codes, snapshot (Function.update pcs i pc' q) = some (u, codes) → P u codes := by
  intro q u codes hq
  by_cases hqi : q = i
  · subst hqi
    rw [Function.update_self] at hq
    exact hnew u codes hq
  · rw [Function.update_of_ne hqi] at hq
    exact hold q u codes hq

theorem Outdated.kept {u : ℕ} {codes : List String} (h : Outdated s u codes) (hframe : Frame s s') :
    Outdated s' u codes := by
  refine ⟨hframe.isSome h.user, ?_, ?_⟩
  · rw [hframe.codes]
    exact h.left
  · rw [hframe.codes, hframe.accepted]
    exact h.gone

theorem outdated_now {u : ℕ} {user : User} (huser : s.users.find u = some user) :
    Outdated s u user.totpRecoveryHashes := by
  have hcodes : s.codes u = user.totpRecoveryHashes := by
    rw [Shared.codes, huser]
    rfl
  refine ⟨by rw [huser]; rfl, ?_, fun h hmem => .inl (by rw [hcodes]; exact hmem)⟩
  rw [hcodes]
  exact (List.filter_eq_self.mpr fun h hmem => decide_eq_true hmem).symm

/-- A code more is accepted. -/
theorem Outdated.accept {u v : ℕ} {codes : List String} {code : String} {bs : List Burn}
    (h : Outdated s u codes) :
    Outdated { s with burning := bs, accepted := (v, code) :: s.accepted } u codes :=
  ⟨h.user, h.left, fun c hc => (h.gone c hc).imp_right (List.mem_cons_of_mem _)⟩

/-- A burn is written. -/
theorem Outdated.burn {v : ℕ} {codes : List String} {b : Burn} {bs : List Burn} (h : Outdated s v codes)
    (haccepted : (b.userId, b.code) ∈ s.accepted) (hmem : b.code ∈ s.codes b.userId)
    (hleft : b.left = (s.codes b.userId).filter (· ≠ b.code)) :
    Outdated { s.updateUser b.userId fun u => { u with totpRecoveryHashes := b.left } with
      burning := bs } v codes := by
  have huser := exists_of_mem_codes hmem
  refine ⟨?_, ?_, ?_⟩
  · simp only [Shared.updateUser, Table.find_modify]
    split_ifs
    · rw [Option.isSome_map]
      exact h.user
    · exact h.user
  · rw [codes_burn huser]
    split_ifs with hv
    · subst hv
      rw [hleft]
      conv_lhs => rw [h.left]
      rw [List.filter_filter]
      refine List.filter_congr fun c _ => ?_
      simp [List.mem_filter, and_comm]
    · exact h.left
  · rw [codes_burn huser]
    intro c hc
    rcases h.gone c hc with hin | hgone
    · split_ifs with hv
      · by_cases heq : c = b.code
        · rw [heq, hv]
          exact .inr haccepted
        · rw [hleft, ← hv]
          exact .inl (List.mem_filter.mpr ⟨hin, decide_eq_true heq⟩)
      · exact .inl hin
    · exact .inr hgone

theorem codesOnce_moves (h : CodesOnce w.shared w.pc) (hmoves : Moves w.shared (w.pc i) s' pc')
    (hcond : ∀ dto u user, w.pc i = .checking dto u user → s'.accepted ≠ w.shared.accepted →
      user.totpRecoveryHashes = w.shared.codes u ∧ ∀ b ∈ w.shared.burning, b.userId ≠ u) :
    CodesOnce s' (Function.update w.pc i pc') := by
  -- A step that touches neither the codes nor the burns.
  have hplain : ∀ s'', Frame w.shared s'' →
      (∀ u codes, snapshot pc' = some (u, codes) → Outdated w.shared u codes) →
      CodesOnce s'' (Function.update w.pc i pc') := by
    intro s'' hframe hpc
    refine ⟨by rw [hframe.accepted]; exact h.nodup, ?_, ?_, by rw [hframe.burning]; exact h.apart, ?_⟩
    · intro u code hmem
      rw [hframe.accepted] at hmem
      rw [hframe.burning, hframe.codes]
      exact h.burnt u code hmem
    · intro b hb
      rw [hframe.burning] at hb
      rw [hframe.accepted, hframe.codes]
      exact h.burning b hb
    · exact snapshot_update (fun u codes hread => (hpc u codes hread).kept hframe)
        fun q u codes hread => (h.reads q u codes hread).kept hframe
  cases hmoves with
  | quiet hframe hpc =>
    refine hplain s' hframe fun u codes hread => ?_
    rcases hpc with rfl | hpc
    · exact h.reads i u codes hread
    · exact (hpc.reads_none hread).elim
  | read huser =>
    refine hplain _ (frame_refl _) fun u codes hread => ?_
    cases hread
    exact outdated_now huser
  | found hrow hunused => exact hplain _ (frame_refl _) fun u codes => nofun
  | @stamp use id row _ now hpc hpc' =>
    refine ⟨h.nodup, h.burnt, h.burning, h.apart, ?_⟩
    exact snapshot_update (P := fun u codes => Outdated _ u codes)
      (fun u codes hread => (hpc'.reads_none hread).elim) fun q u codes hread =>
        ⟨(h.reads q u codes hread).user, (h.reads q u codes hread).left, (h.reads q u codes hread).gone⟩
  | @recover dto u user code _ now crypto hpc hcode hpc' =>
    have haccepted : (u, code) :: w.shared.accepted ≠ w.shared.accepted := List.cons_ne_self _ _
    obtain ⟨hcurrent, hfree⟩ := hcond dto u user hpc haccepted
    have hmem : code ∈ w.shared.codes u := hcurrent ▸ recovered_mem hcode
    have hnew : (u, code) ∉ w.shared.accepted := by
      intro hold
      rcases h.burnt u code hold with ⟨b, hb, hu, -⟩ | hgone
      · exact hfree b hb hu
      · exact hgone hmem
    refine ⟨List.nodup_cons.mpr ⟨hnew, h.nodup⟩, ?_, ?_, ?_, ?_⟩
    · intro v c hmem'
      rcases List.mem_cons.mp hmem' with heq | hmem'
      · cases heq
        exact .inl ⟨_, List.mem_append_right _ (List.mem_singleton_self _), rfl, rfl⟩
      · rcases h.burnt v c hmem' with ⟨b, hb, hsame⟩ | hgone
        · exact .inl ⟨b, List.mem_append_left _ hb, hsame⟩
        · exact .inr hgone
    · intro b hb
      rcases List.mem_append.mp hb with hb | hb
      · obtain ⟨hin, hrest⟩ := h.burning b hb
        exact ⟨List.mem_cons_of_mem _ hin, hrest⟩
      · rw [List.mem_singleton.mp hb]
        exact ⟨List.mem_cons_self, hmem, by rw [hcurrent]; rfl⟩
    · refine List.pairwise_append.mpr ⟨h.apart, List.pairwise_singleton _ _, ?_⟩
      intro b hb c hc
      rw [List.mem_singleton.mp hc]
      exact hfree b hb
    · exact snapshot_update (fun v codes hread => (hpc'.reads_none hread).elim)
        fun q v codes hread => (h.reads q v codes hread).accept
  | @burn k b hb =>
    have hin : b ∈ w.shared.burning := List.mem_of_getElem? hb
    obtain ⟨haccepted, hmem, hleft⟩ := h.burning b hin
    have huser := exists_of_mem_codes hmem
    have hperm : (b :: w.shared.burning.eraseIdx k).Perm w.shared.burning := by
      obtain ⟨hk, rfl⟩ := List.getElem?_eq_some_iff.mp hb
      exact List.getElem_cons_eraseIdx_perm hk
    have hothers : ∀ c ∈ w.shared.burning.eraseIdx k, c ∈ w.shared.burning ∧ c.userId ≠ b.userId := by
      have happart := (hperm.pairwise_iff fun hne => Ne.symm hne).mpr h.apart
      intro c hc
      exact ⟨List.mem_of_mem_eraseIdx hc, ((List.pairwise_cons.mp happart).1 c hc).symm⟩
    refine ⟨h.nodup, ?_, ?_, h.apart.sublist (List.eraseIdx_sublist _ _), ?_⟩
    · intro v c hmem'
      rw [codes_burn huser]
      have hburnt := h.burnt v c hmem'
      simp only [← hperm.mem_iff, List.mem_cons, exists_eq_or_imp] at hburnt
      split_ifs with hv
      · subst hv
        rw [hleft, List.mem_filter]
        rcases hburnt with (⟨-, rfl⟩ | ⟨b', hb', hv, -⟩) | hgone
        · exact .inr fun hin => of_decide_eq_true hin.2 rfl
        · exact ((hothers b' hb').2 hv).elim
        · exact .inr fun hin => hgone hin.1
      · exact hburnt.imp_left fun hpending => hpending.resolve_left fun hsame => hv hsame.1.symm
    · intro c hc
      rw [codes_burn huser, if_neg (hothers c hc).2]
      exact h.burning c (hothers c hc).1
    · exact snapshot_update
        (fun v codes hread => (h.reads i v codes hread).burn haccepted hmem hleft)
        fun q v codes hread => (h.reads q v codes hread).burn haccepted hmem hleft

/-! ## Schedules -/

def Once (w : World Shared Pc) : Prop := TokensOnce w.shared w.pc ∧ CodesOnce w.shared w.pc

theorem trans_holding {a : Act} (h : trans crypto i s a pc = some (s', pc')) {id : ℕ}
    (hid : holding pc' = some id) : pc' = pc ∨ ∃ env, a = .next env ∧ next crypto env s pc = some (s', pc') := by
  cases a with
  | call c =>
    simp only [trans] at h
    split_ifs at h
    cases h
    cases hid
  | next env => exact .inr ⟨env, rfl, h⟩
  | burn k =>
    simp only [trans] at h
    split at h
    · cases h
    · cases h
      exact .inl rfl
  | issue u kind tokenHash expiresAt =>
    simp only [trans] at h
    split_ifs at h
    cases h
    exact .inl rfl

theorem trans_accepts {a : Act} {dto : LoginDto} {u : ℕ} {user : User}
    (h : trans crypto i s a (.checking dto u user) = some (s', pc')) (hne : s'.accepted ≠ s.accepted) :
    ∃ env code, a = .next env ∧ checkUser crypto env.now dto user = .recovered code := by
  cases a with
  | call c =>
    rw [trans, if_neg nofun] at h
    cases h
  | next env =>
    simp only [trans, next] at h
    split at h
    · cases h
      exact (hne rfl).elim
    · cases h
      exact (hne rfl).elim
    · next code hcode => exact ⟨env, code, rfl, hcode⟩
  | burn k =>
    simp only [trans] at h
    split at h
    · cases h
    · cases h
      exact (hne rfl).elim
  | issue v kind tokenHash expiresAt =>
    simp only [trans] at h
    split_ifs at h
    cases h
    exact (hne rfl).elim

theorem once_step {a : ℕ × Act} (hapart : Apart crypto w a) (h : Once w) : Once (step crypto w a) := by
  rcases callerStep_cases (trans crypto) w a with heq | ⟨s, c, htrans, heq⟩
  · rw [step, heq]
    exact h
  · rw [step, heq]
    obtain ⟨i, act⟩ := a
    have hmoves := trans_moves htrans
    refine ⟨tokensOnce_moves h.1 hmoves ?_, codesOnce_moves h.2 hmoves ?_⟩
    · intro id hid
      refine (trans_holding htrans hid).imp_right ?_
      rintro ⟨env, rfl, hnext⟩
      exact hapart.1 s c id hnext hid
    · intro dto u user hpc hne
      simp only at htrans
      rw [hpc] at htrans
      obtain ⟨env, code, rfl, hcode⟩ := trans_accepts htrans hne
      exact hapart.2 dto u user code hpc hcode

theorem once_start (users : Table ℕ User) (tokens : Table ℕ EmailToken) (identities : List Identity)
    (teams : Table String Spend.AccountStatus) : Once (start users tokens identities teams) :=
  ⟨⟨List.nodup_nil, fun _ => nofun, fun _ _ => nofun, fun _ _ _ => nofun⟩,
    ⟨List.nodup_nil, fun _ _ => nofun, fun _ => nofun, List.Pairwise.nil, fun _ _ _ => nofun⟩⟩

theorem oneTime_of_once (h : Once w) : OneTime w.shared := ⟨h.1.nodup, h.2.nodup, h.2.burnt⟩

/-! ## Where they overlap -/

theorem step_next {env : Env} (h : next crypto env w.shared (w.pc i) = some (s', pc')) :
    step crypto w (i, .next env) = ⟨s', Function.update w.pc i pc'⟩ := by
  have htrans : trans crypto i w.shared (.next env) (w.pc i) = some (s', pc') := h
  rw [step, callerStep, htrans]

/-- A burn that is written. -/
theorem step_burn (crypto : Crypto) (i : ℕ) {k : ℕ} {b : Burn} (h : w.shared.burning[k]? = some b)
    (huser : (w.shared.users.find b.userId).isSome) :
    (step crypto w (i, .burn k)).shared.burning = w.shared.burning.eraseIdx k ∧
      (step crypto w (i, .burn k)).shared.accepted = w.shared.accepted ∧
      ∀ u, (step crypto w (i, .burn k)).shared.codes u =
        if u = b.userId then b.left else w.shared.codes u := by
  have htrans : trans crypto i w.shared (.burn k) (w.pc i) =
      some ({ w.shared.updateUser b.userId fun u => { u with totpRecoveryHashes := b.left } with
        burning := w.shared.burning.eraseIdx k }, w.pc i) := by
    simp only [trans, h]
  rw [step, callerStep, htrans]
  exact ⟨rfl, rfl, codes_burn huser⟩

/-- A call that holds a token accepts it with its next step. -/
theorem consumed_next (crypto : Crypto) {use : Use} {id : ℕ} {row : EmailToken}
    (h : w.pc i = .consuming use id row) (env : Env) : (step crypto w (i, .next env)).shared.consumed = id :: w.shared.consumed ∧
      ∀ j, j ≠ i → (step crypto w (i, .next env)).pc j = w.pc j := by
  have hnext : next crypto env w.shared (w.pc i) = some ({ w.shared with
      tokens := w.shared.tokens.modify id fun t => { t with usedAt := some env.now }
      consumed := id :: w.shared.consumed }, consumedBy row.userId use) := by
    rw [h]
    rfl
  rw [step_next hnext]
  exact ⟨rfl, fun j hj => Function.update_of_ne hj _ _⟩

theorem holding_some {pc : Pc} {id : ℕ} (h : holding pc = some id) :
    ∃ use row, pc = .consuming use id row := by
  cases pc with
  | consuming use id' row =>
    cases h
    exact ⟨use, row, rfl⟩
  | _ => cases h

/-- Two calls that hold one token both accept it. -/
theorem token_twice {j : ℕ} (id : ℕ) (hij : i ≠ j) (hi : holding (w.pc i) = some id)
    (hj : holding (w.pc j) = some id) :
    ¬ OneTime (run (step crypto) w [(i, .next {}), (j, .next {})]).shared := by
  intro honce
  obtain ⟨use, row, hpci⟩ := holding_some hi
  obtain ⟨use', row', hpcj⟩ := holding_some hj
  obtain ⟨hfirst, hothers⟩ := consumed_next crypto hpci {}
  have hpcj' := (hothers j (Ne.symm hij)).trans hpcj
  have hnodup := honce.tokens
  rw [run_cons, run_cons, run_nil, (consumed_next crypto hpcj' {}).1, hfirst] at hnodup
  exact (List.nodup_cons.mp hnodup).1 List.mem_cons_self

/-- A code of the user is accepted, burnt and still a code. -/
theorem not_oneTime (u : ℕ) (code : String) (haccepted : (u, code) ∈ s.accepted)
    (hburnt : ∀ b ∈ s.burning, b.userId ≠ u) (hcode : code ∈ s.codes u) : ¬ OneTime s := by
  intro h
  rcases h.burnt u code haccepted with ⟨b, hb, hu, -⟩ | hgone
  · exact hburnt b hb hu
  · exact hgone hcode

/-- A code is accepted on codes that are out of date, or with another burn under way: the writes that
no call waits for bring a burnt code back. -/
theorem code_back {dto : LoginDto} {u : ℕ} {user : User} {code : String} (h : CodesOnce w.shared w.pc)
    (hpc : w.pc i = .checking dto u user) {env : Env}
    (hcode : checkUser crypto env.now dto user = .recovered code)
    (hover : user.totpRecoveryHashes = w.shared.codes u → ∃ b ∈ w.shared.burning, b.userId = u) :
    ∃ more, ¬ OneTime (run (step crypto) w ((i, .next env) :: more)).shared := by
  have hread := h.reads i u user.totpRecoveryHashes (by rw [hpc]; rfl)
  have hmem := recovered_mem hcode
  have hnext : next crypto env w.shared (w.pc i) = some ({ w.shared with
      burning := w.shared.burning ++ [⟨u, code, user.totpRecoveryHashes.filter (· ≠ code)⟩]
      accepted := (u, code) :: w.shared.accepted }, signIn u user) := by
    rw [hpc]
    simp only [next, hcode]
  have haccept := step_next hnext
  by_cases htwice : (u, code) ∈ w.shared.accepted
  · refine ⟨[], fun honce => ?_⟩
    rw [run_cons, haccept] at honce
    exact (List.nodup_cons.mp honce.codes).1 htwice
  -- The burn of this code is written first.
  have hlast : (step crypto w (i, .next env)).shared.burning[w.shared.burning.length]? =
      some ⟨u, code, user.totpRecoveryHashes.filter (· ≠ code)⟩ := by
    rw [haccept]
    exact List.getElem?_concat_length
  have hsome : ((step crypto w (i, .next env)).shared.users.find u).isSome := by
    rw [haccept]
    exact hread.user
  obtain ⟨hburning, haccepted, hcodes⟩ := step_burn crypto i hlast hsome
  have herase : (step crypto w (i, .next env)).shared.burning.eraseIdx w.shared.burning.length =
      w.shared.burning := by
    rw [haccept]
    simp only
    rw [List.eraseIdx_append_of_length_le le_rfl, Nat.sub_self, List.eraseIdx_cons_zero, List.append_nil]
  have hbefore : (step crypto w (i, .next env)).shared.accepted = (u, code) :: w.shared.accepted := by
    rw [haccept]
  rw [herase] at hburning
  rw [hbefore] at haccepted
  by_cases hpending : ∃ b ∈ w.shared.burning, b.userId = u
  · -- Then the other burn of the user brings this code back.
    obtain ⟨b, hb, rfl⟩ := hpending
    obtain ⟨k, hk⟩ := List.mem_iff_getElem?.mp hb
    obtain ⟨holder, hold, hleft⟩ := h.burning b hb
    have hin : code ∈ w.shared.codes b.userId := (hread.gone code hmem).resolve_right htwice
    have hne : code ≠ b.code := by
      rintro rfl
      exact htwice holder
    have hback : code ∈ b.left := by
      rw [hleft]
      exact List.mem_filter.mpr ⟨hin, decide_eq_true hne⟩
    have hperm : (b :: w.shared.burning.eraseIdx k).Perm w.shared.burning := by
      obtain ⟨hlt, rfl⟩ := List.getElem?_eq_some_iff.mp hk
      exact List.getElem_cons_eraseIdx_perm hlt
    have happart := (hperm.pairwise_iff fun hne => Ne.symm hne).mpr h.apart
    have hthere : b.code ∈ user.totpRecoveryHashes := by
      rw [hread.left] at hold
      exact (List.mem_filter.mp hold).1
    refine ⟨[(i, .burn w.shared.burning.length), (i, .burn k)], ?_⟩
    rw [run_cons, run_cons, run_cons, run_nil]
    generalize step crypto (step crypto w (i, .next env)) (i, .burn w.shared.burning.length) = w₁
      at hburning haccepted hcodes
    have huser : (w₁.shared.users.find b.userId).isSome := by
      refine exists_of_mem_codes (h := b.code) ?_
      rw [hcodes, if_pos rfl]
      exact List.mem_filter.mpr ⟨hthere, decide_eq_true (Ne.symm hne)⟩
    obtain ⟨hburning', haccepted', hcodes'⟩ := step_burn crypto i (by rw [hburning]; exact hk) huser
    refine not_oneTime b.userId code ?_ ?_ ?_
    · rw [haccepted', haccepted]
      exact List.mem_cons_self
    · rw [hburning', hburning]
      exact fun c hc => ((List.pairwise_cons.mp happart).1 c hc).symm
    · rw [hcodes', if_pos rfl]
      exact hback
  · -- Then this burn brings back a code that was burnt since the user was read.
    have hstale : user.totpRecoveryHashes ≠ w.shared.codes u := fun heq => hpending (hover heq)
    obtain ⟨c, hc, hgone⟩ : ∃ c ∈ user.totpRecoveryHashes, c ∉ w.shared.codes u := by
      by_contra hall
      refine hstale (hread.left.trans (List.filter_eq_self.mpr fun c hc => ?_)).symm
      exact decide_eq_true (by_contra fun hnot => hall ⟨c, hc, hnot⟩)
    have holder := (hread.gone c hc).resolve_left hgone
    have hne : c ≠ code := by
      rintro rfl
      exact htwice holder
    refine ⟨[(i, .burn w.shared.burning.length)], ?_⟩
    rw [run_cons, run_cons, run_nil]
    refine not_oneTime u c ?_ ?_ ?_
    · rw [haccepted]
      exact List.mem_cons_of_mem _ holder
    · rw [hburning]
      exact fun b hb hu => hpending ⟨b, hb, hu⟩
    · rw [hcodes, if_pos rfl]
      exact List.mem_filter.mpr ⟨hc, decide_eq_true hne⟩

/-- A step that fails to keep apart can be gone on from to a credential that is used twice, or to a
burnt code that is a code again. -/
theorem overlap {a : ℕ × Act} (h : Once w) (hover : ¬ Apart crypto w a) :
    ∃ more, ¬ OneTime (run (step crypto) w (a :: more)).shared := by
  obtain ⟨i, act⟩ := a
  cases act with
  | call c | burn k | issue u kind tokenHash expiresAt => exact (hover trivial).elim
  | next env =>
    rcases not_and_or.mp hover with hfind | haccept
    · push Not at hfind
      obtain ⟨s', pc', id, hnext, hid, j, hj⟩ := hfind
      have hij : i ≠ j := by
        rintro rfl
        obtain ⟨use, row, hpc⟩ := holding_some hj
        rw [hpc] at hnext
        cases hnext
        exact (plain_consumedBy row.userId use).holds_none hid
      refine ⟨[(i, .next {}), (j, .next {})], ?_⟩
      rw [run_cons, step_next hnext]
      refine token_twice id hij ?_ ?_
      · simpa using hid
      · simpa [Function.update_of_ne (Ne.symm hij)] using hj
    · push Not at haccept
      obtain ⟨dto, u, user, code, hpc, hcode, hstale⟩ := haccept
      exact code_back h.2 hpc hcode hstale

end

/-- For any users, tokens, identities and teams to begin with, and every schedule of any number of
logins, password resets and verifications, with the writes that no call waits for and the mails that
are sent in between: where each call finds a token only while no call holds it, and accepts a recovery
code only on the codes as they are with no burn of the user under way, each credential is used once and
no burnt code comes back. At a step where that fails first, the calls can go on to a state that breaks
it. -/
theorem one_time_use (crypto : Crypto) (users : Table ℕ User) (tokens : Table ℕ EmailToken)
    (identities : List Identity) (teams : Table String Spend.AccountStatus) (acts : List (ℕ × Act))
    (h : Meets (step crypto) (Apart crypto) (start users tokens identities teams) acts) :
    OneTime (run (step crypto) (start users tokens identities teams) acts).shared ∧
      ∀ a, ¬ Apart crypto (run (step crypto) (start users tokens identities teams) acts) a →
        ∃ more, ¬ OneTime
          (run (step crypto) (start users tokens identities teams) (acts ++ a :: more)).shared := by
  have honce : Once (run (step crypto) (start users tokens identities teams) acts) :=
    h.invariant (fun _ _ hapart hw => once_step hapart hw) (once_start users tokens identities teams)
  refine ⟨oneTime_of_once honce, fun a hover => ?_⟩
  obtain ⟨more, hbad⟩ := overlap honce hover
  refine ⟨more, ?_⟩
  rw [run_append]
  exact hbad

/-! ## Two logins and two resets -/

/-- Functions on short texts, for the runs below. -/
def plainCrypto : Crypto where
  hash t := String.ofList t
  verify _ _ := true
  argon _ t := String.ofList t
  verifyTotp _ _ _ := false
  toLowerCase := Text.asciiLower

def someUser : User where
  email := ['u']
  passwordHash := some "p"
  totpEnabled := true
  totpRecoveryHashes := ["a", "b"]
  memberships := [⟨"t", true⟩]

def oneUser : Table ℕ User := Table.empty.put 1 someUser

def oneToken : Table ℕ EmailToken := Table.empty.put 1 ⟨1, .reset, "x", 1000, none⟩

def loginWith (code : Text) : Call := .login ⟨['u'], ['p'], some code⟩

/-- A call begins, and takes some steps. -/
def goes (i : ℕ) (c : Call) (n : ℕ) : List (ℕ × Act) := (i, .call c) :: List.replicate n (i, .next {})

/-- Both calls read, and then both go on. -/
def together (c d : Call) : List (ℕ × Act) :=
  goes 0 c 1 ++ goes 1 d 1 ++ [(0, .next {}), (1, .next {})]

theorem credentials_twice :
    (run (step plainCrypto) (start oneUser oneToken [] .empty)
        (together (.resetPassword ['x'] ['q']) (.resetPassword ['x'] ['r']))).shared.consumed = [1, 1] ∧
      (run (step plainCrypto) (start oneUser oneToken [] .empty)
        (together (loginWith ['a']) (loginWith ['A']))).shared.accepted = [(1, "a"), (1, "a")] ∧
      (run (step plainCrypto) (start oneUser oneToken [] .empty)
        (together (loginWith ['a']) (loginWith ['b']) ++ [(0, .burn 0), (0, .burn 0)])).shared.codes 1 =
          ["a"] := by
  decide

/-- The call at its next step finds no token, and has read the codes as they are. -/
def current (w : World Shared Pc) (i : ℕ) : Bool :=
  (next plainCrypto {} w.shared (w.pc i)).all (fun r => (holding r.2).isNone) &&
    match w.pc i with
    | .checking _ u user => user.totpRecoveryHashes = w.shared.codes u ∧ w.shared.burning = []
    | _ => true

theorem apart_of_current {w : World Shared Pc} {i : ℕ} (h : current w i = true) :
    Apart plainCrypto w (i, .next {}) := by
  obtain ⟨hplain, hcodes⟩ := Bool.and_eq_true_iff.mp h
  constructor
  · intro s' pc' id hnext hid
    rw [hnext, Option.all_some, hid] at hplain
    cases hplain
  · intro dto u user code hpc _
    rw [hpc] at hcodes
    obtain ⟨hsame, hnone⟩ := of_decide_eq_true hcodes
    exact ⟨hsame, by rw [hnone]; exact nofun⟩

/-- A login burns its code. Another login was read before, and comes after the first has accepted. -/
theorem one_time_use_login :
    OneTime (run (step plainCrypto) (start oneUser oneToken [] .empty)
        (goes 0 (loginWith ['a']) 1 ++ goes 1 (loginWith ['b']) 1 ++ [(0, .next {})])).shared ∧
      ∃ more, ¬ OneTime (run (step plainCrypto) (start oneUser oneToken [] .empty)
        ((goes 0 (loginWith ['a']) 1 ++ goes 1 (loginWith ['b']) 1 ++ [(0, .next {})]) ++
          (1, .next {}) :: more)).shared := by
  have hmeets : Meets (step plainCrypto) (Apart plainCrypto) (start oneUser oneToken [] .empty)
      (goes 0 (loginWith ['a']) 1 ++ goes 1 (loginWith ['b']) 1 ++ [(0, .next {})]) :=
    ⟨trivial, apart_of_current (by decide), trivial, apart_of_current (by decide),
      apart_of_current (by decide), trivial⟩
  obtain ⟨honce, hover⟩ := one_time_use plainCrypto oneUser oneToken [] .empty _ hmeets
  refine ⟨honce, hover (1, .next {}) ?_⟩
  rintro ⟨-, hcodes⟩
  have hpc : (run (step plainCrypto) (start oneUser oneToken [] .empty)
      (goes 0 (loginWith ['a']) 1 ++ goes 1 (loginWith ['b']) 1 ++ [(0, .next {})])).pc 1 =
        .checking ⟨['u'], ['p'], some ['b']⟩ 1 someUser := by
    decide
  have hburning : (run (step plainCrypto) (start oneUser oneToken [] .empty)
      (goes 0 (loginWith ['a']) 1 ++ goes 1 (loginWith ['b']) 1 ++ [(0, .next {})])).shared.burning =
        [⟨1, "a", ["b"]⟩] := by
    decide
  obtain ⟨-, hfree⟩ := hcodes _ _ _ "b" hpc (by decide)
  rw [hburning] at hfree
  exact hfree ⟨1, "a", ["b"]⟩ (List.mem_singleton_self _) rfl

end Prgd.Accounts
