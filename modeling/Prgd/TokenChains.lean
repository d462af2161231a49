import Prgd.Tokens

/-!
# Tokens that make tokens

The scopes of a token are always scopes of its creator, and a creator never needs an approval. Its
project, its expiry and its spend cap are not looked at when it creates a token, so a token stays
within its creator exactly where the request itself asks for them.
-/
namespace Prgd.Iam
open Interleaving

section
variable {ends : Bool} {w : World} {d : Directory} {id : ℕ} {token t : ApiToken} {actor : Actor}
  {power : Power} {line : List Power} {dto : CreateTokenDto} {now : ℕ} {r : Request}

/-- Whatever an actor resolved from a token may do, the creator of the token could do, and the
creator of the token that it was created with, and so on. -/
def Within (w : World) : Prop :=
  ∀ id token, w.tokens.find id = some token → ∀ power ∈ w.line id, ∀ (d : Directory) (r : Request),
    w.now ≤ r.time → May d id token r → power.allows r

/-- The request asks for the project of its creator, for an end that is not later, and for a cap that
is not larger. -/
structure Keeps (power : Power) (dto : CreateTokenDto) (now : ℕ) : Prop where
  project : ∀ p, truthy power.actor.projectId = some p → dto.projectId = some p
  time : ∀ e, power.expiresAt = some e →
    ∃ days, dto.expiresInDays = some days ∧ now + days * dayMs ≤ e
  spend : ∀ cap, power.spendCapMinor = some cap →
    ∃ cap', dto.spendCapMinor = some cap' ∧ cap' ≤ cap

/-- A request that is not refused keeps the limits of its creator. -/
def Act.Keeps (ends : Bool) (w : World) : Act → Prop
  | .createToken bearer dto took =>
      ∀ power line, resolveBearer ends w bearer = some (power, line) →
        created ends w bearer dto took ≠ none → Iam.Keeps power dto (w.now + took)
  | _ => True

/-! ## What the functions return -/

theorem resolveApiToken_some (h : resolveApiToken d now id token = some actor) :
    token.revokedAt = none ∧ (∀ e, token.expiresAt = some e → now ≤ e) ∧
      actor.teamId = token.teamId ∧ actor.projectId = token.projectId ∧
      actor.scopes ⊆ token.scopes ∧ actor.isAgent = token.isAgent ∧
      actor.requireApprovalFor = token.requireApprovalFor := by
  unfold resolveApiToken at h
  split_ifs at h with hrevoked hexpired
  split at h
  · split_ifs at h
    cases h
    refine ⟨by simpa using hrevoked, ?_, rfl, rfl, List.filter_subset_self _, rfl, rfl⟩
    intro e he
    by_contra hlate
    exact hexpired ⟨e, he, Nat.lt_of_not_le hlate⟩
  · cases h

/-- Until its end, a token resolves to the same actor in the same directory. -/
theorem resolveApiToken_later (h : resolveApiToken d now id token = some actor) {later : ℕ}
    (hlater : ∀ e, token.expiresAt = some e → later ≤ e) :
    resolveApiToken d later id token = some actor := by
  have hnow := (resolveApiToken_some h).2.1
  have hexpired : ∀ time, (∀ e, token.expiresAt = some e → time ≤ e) →
      ¬ ∃ e ∈ token.expiresAt, e < time := by
    rintro time htime ⟨e, he, hlt⟩
    exact Nat.not_le_of_lt hlt (htime e he)
  rw [resolveApiToken, if_neg (hexpired now hnow)] at h
  rw [resolveApiToken, if_neg (hexpired later hlater)]
  exact h

theorem createToken_ok (h : createToken d actor dto now = .ok t) :
    actor.isAgent = false ∧ dto.scopes ⊆ actor.scopes ∧ t = newToken actor dto now := by
  rw [createToken] at h
  split_ifs at h with hagent
  dsimp only at h
  split_ifs at h with hdisallowed
  have hissue : ∀ input, issueApiToken d input = .ok t → t = input := by
    intro input hinput
    unfold issueApiToken at hinput
    split_ifs at hinput
    exact (Except.ok.inj hinput).symm
  have hscopes : dto.scopes ⊆ actor.scopes := by
    intro s hs
    by_contra hnot
    exact hdisallowed (List.ne_nil_of_mem (List.mem_filter.mpr ⟨hs, by simpa using hnot⟩))
  split at h
  · cases h
  · exact ⟨by simpa using hagent, hscopes, hissue _ h⟩

theorem created_some {bearer : Bearer} {took : ℕ}
    (h : created ends w bearer dto took = some (t, line)) :
    ∃ power rest, resolveBearer ends w bearer = some (power, rest) ∧ line = power :: rest ∧
      power.actor.isAgent = false ∧ dto.scopes ⊆ power.actor.scopes ∧
      t = newToken power.actor dto (w.now + took) := by
  unfold created at h
  cases hbearer : resolveBearer ends w bearer with
  | none => rw [hbearer] at h; cases h
  | some who =>
    obtain ⟨power, rest⟩ := who
    rw [hbearer] at h
    simp only at h
    split_ifs at h
    split at h
    · cases h
    · next hcreate =>
      cases h
      exact ⟨power, rest, rfl, rfl, createToken_ok hcreate⟩

/-! ## One creation -/

/-- A token that keeps the limits of its creator cannot do more. -/
theorem allows_of_keeps (hagent : power.actor.isAgent = false) (hscopes : dto.scopes ⊆ power.actor.scopes)
    (hkeeps : Keeps power dto now) (hmay : May d id (newToken power.actor dto now) r) : power.allows r := by
  obtain ⟨actor, hactor, hallows⟩ := hmay
  obtain ⟨-, -, hteam, hproject, hsub, -⟩ := resolveApiToken_some hactor
  refine ⟨hallows.team.trans hteam, ?_, hscopes (hsub hallows.scope), ?_, ?_, ?_⟩
  · intro p hp
    have hsame : truthy actor.projectId = some p := by
      have hdto : actor.projectId = some p := hproject.trans (hkeeps.project p hp)
      have hne : p ≠ "" := by
        have := (Option.filter_eq_some_iff.mp hp).2
        simpa using this
      rw [hdto]
      exact Option.filter_eq_some_iff.mpr ⟨rfl, by simpa using hne⟩
    exact hallows.project p hsame
  · intro e he
    obtain ⟨days, hdays, hle⟩ := hkeeps.time e he
    have hend : (newToken power.actor dto now).expiresAt = some (now + days * dayMs) := by
      rw [newToken, hdays]
      rfl
    exact (hallows.time _ hend).trans hle
  · intro cap hcap
    obtain ⟨cap', hcap', hle⟩ := hkeeps.spend cap hcap
    exact (hallows.spend cap' hcap').trans hle
  · intro kind _
    simp [needs, hagent]

/-- What the actor of a token may do at a time to come, an actor of the token may do then. -/
theorem may_of_allows (h : resolveApiToken d now id token = some actor)
    (hallows : (token.power actor).allows r) : May d id token r :=
  ⟨actor, resolveApiToken_later h hallows.time, hallows⟩

/-! ## A token at its best -/

/-- The user of the token owns its team and is full staff. -/
def best (token : ApiToken) : Directory where
  users := [{ id := token.userId, isStaff := true }]
  members := [⟨token.teamId, token.userId, .owner⟩]
  teams := [⟨token.teamId, .active⟩]

theorem mem_roleScopes_owner {s : Scope} (h : s ∈ allScopes) (user : User) (hstaff : user.isStaff = true)
    (hroles : user.staffRoles = []) : s ∈ roleScopes .owner user := by
  by_cases hs : s = .admin
  · refine List.mem_append_right _ ?_
    rw [staffScopes, if_neg (by simpa using hstaff), hroles, hs]
    exact List.mem_singleton_self _
  · exact List.mem_append_left _ (List.mem_filter.mpr ⟨h, by simpa using hs⟩)

theorem may_best {s : Scope} {project : String} {time spent : ℕ} (hrevoked : token.revokedAt = none)
    (hs : s ∈ token.scopes) (hknown : s ∈ allScopes)
    (hproject : ∀ p, truthy token.projectId = some p → project = p)
    (htime : ∀ e, token.expiresAt = some e → time ≤ e)
    (hspent : ∀ cap, token.spendCapMinor = some cap → spent ≤ cap) :
    May (best token) id token ⟨token.teamId, project, s, time, spent, none⟩ := by
  have hexpired : ¬ ∃ e ∈ token.expiresAt, e < time := by
    rintro ⟨e, he, hlt⟩
    exact Nat.not_le_of_lt hlt (htime e he)
  have hresolve : resolveApiToken (best token) time id token = some
      { userId := token.userId, teamId := token.teamId, role := .owner, projectId := token.projectId
        scopes := token.scopes.filter (· ∈ roleScopes .owner { id := token.userId, isStaff := true })
        tokenId := some id, isAgent := token.isAgent
        requireApprovalFor := token.requireApprovalFor, teamStatus := .active } := by
    rw [resolveApiToken, if_neg (by simp [hrevoked]), if_neg hexpired]
    simp [best, Directory.team, Directory.member, Directory.user]
  refine ⟨_, hresolve, rfl, hproject, ?_, htime, hspent, nofun⟩
  exact List.mem_filter.mpr ⟨hs, decide_eq_true (mem_roleScopes_owner hknown _ rfl rfl)⟩

/-- A token that can do no more than its creator was asked for within the limits of the creator. -/
theorem keeps_of_allows (id : ℕ)
    (h : ∀ d r, now ≤ r.time → May d id (newToken power.actor dto now) r → power.allows r) :
    Keeps power dto now := by
  obtain ⟨s, hs⟩ := List.exists_mem_of_ne_nil dto.scopes dto.notEmpty
  have hasks : ∀ time spent, now ≤ time →
      (∀ e, (newToken power.actor dto now).expiresAt = some e → time ≤ e) →
      (∀ cap, dto.spendCapMinor = some cap → spent ≤ cap) →
      power.allows ⟨power.actor.teamId, (truthy dto.projectId).getD "", s, time, spent, none⟩ := by
    intro time spent hnow htime hspent
    refine h _ _ hnow (may_best rfl hs (dto.known s hs) ?_ htime hspent)
    intro p hp
    exact congrArg (Option.getD · "") hp
  have hsoon : ∀ e, (newToken power.actor dto now).expiresAt = some e → now ≤ e := by
    intro e he
    obtain ⟨days, -, rfl⟩ := Option.map_eq_some_iff.mp he
    exact Nat.le_add_right now _
  have hbase := hasks now 0 le_rfl hsoon fun _ _ => Nat.zero_le _
  constructor
  · intro p hp
    have hne : p ≠ "" := by simpa using (Option.filter_eq_some_iff.mp hp).2
    have hsame : (truthy dto.projectId).getD "" = p := hbase.project p hp
    cases hdto : truthy dto.projectId with
    | none =>
      rw [hdto] at hsame
      exact (hne hsame.symm).elim
    | some q =>
      rw [hdto] at hsame
      rw [← show q = p from hsame]
      exact (Option.filter_eq_some_iff.mp hdto).1
  · intro e he
    cases hdays : dto.expiresInDays with
    | none =>
      have hlong : ∀ e', (newToken power.actor dto now).expiresAt = some e' → max now (e + 1) ≤ e' := by
        intro e' he'
        rw [newToken, hdays] at he'
        cases he'
      have hlate : max now (e + 1) ≤ e :=
        (hasks (max now (e + 1)) 0 (le_max_left _ _) hlong fun _ _ => Nat.zero_le _).time e he
      omega
    | some days =>
      have hend : (newToken power.actor dto now).expiresAt = some (now + days * dayMs) := by
        rw [newToken, hdays]
        rfl
      have hexact : ∀ e', (newToken power.actor dto now).expiresAt = some e' → now + days * dayMs ≤ e' :=
        fun e' he' => (Option.some.inj (hend.symm.trans he')).le
      exact ⟨days, rfl,
        (hasks _ 0 (Nat.le_add_right now _) hexact fun _ _ => Nat.zero_le _).time e he⟩
  · intro cap hcap
    cases hdto : dto.spendCapMinor with
    | none =>
      have hmuch : cap + 1 ≤ cap :=
        (hasks now (cap + 1) le_rfl hsoon (by simp [hdto])).spend cap hcap
      omega
    | some cap' =>
      exact ⟨cap', rfl, (hasks now cap' le_rfl hsoon (by simp [hdto])).spend cap hcap⟩

/-! ## Runs -/

/-- What a bearer resolves to stays within what the bearer descends from. -/
theorem line_allows (h : Within w) {bearer : Bearer}
    (hbearer : resolveBearer ends w bearer = some (power, line)) {above : Power} (habove : above ∈ line)
    (hnow : w.now ≤ r.time) (hallows : power.allows r) : above.allows r := by
  cases bearer with
  | session jwt =>
    obtain ⟨⟨session, actor⟩, -, heq⟩ := Option.map_eq_some_iff.mp hbearer
    cases heq
    cases habove
  | token id =>
    simp only [resolveBearer] at hbearer
    cases hfind : w.tokens.find id with
    | none => rw [hfind] at hbearer; cases hbearer
    | some token =>
      rw [hfind] at hbearer
      obtain ⟨actor, hactor, heq⟩ := Option.map_eq_some_iff.mp hbearer
      cases heq
      exact h id token hfind above habove _ r hnow (may_of_allows hactor hallows)

theorem within_later (h : Within w) {w' : World} (hnow : w.now ≤ w'.now) (hline : w'.line = w.line)
    (htokens : ∀ id t, w'.tokens.find id = some t → ∃ token, w.tokens.find id = some token ∧
      ∀ d r, May d id t r → May d id token r) : Within w' := by
  intro id t ht power hpower d r htime hmay
  obtain ⟨token, hfind, hkeep⟩ := htokens id t ht
  rw [hline] at hpower
  exact h id token hfind power hpower d r (hnow.trans htime) (hkeep d r hmay)

/-- One act keeps every token within its creators, exactly where it keeps the limits. -/
theorem within_step (h : Within w) (a : Act) : Within (step ends w a) ↔ a.Keeps ends w := by
  cases a with
  | createToken bearer dto took =>
    simp only [step, Act.Keeps]
    cases hcreated : created ends w bearer dto took with
    | none =>
      refine iff_of_true ?_ fun _ _ _ hne => (hne rfl).elim
      exact within_later h (Nat.le_add_right _ took) rfl fun id t ht => ⟨t, ht, fun _ _ hmay => hmay⟩
    | some new =>
      obtain ⟨t, line⟩ := new
      obtain ⟨power, rest, hbearer, rfl, hagent, hscopes, rfl⟩ := created_some hcreated
      simp only
      constructor
      · intro hwithin power' rest' hbearer' _
        rw [hbearer] at hbearer'
        cases hbearer'
        refine keeps_of_allows w.tokens.fresh fun d r hnow hmay => ?_
        refine hwithin w.tokens.fresh _ (Table.find_put_self _ _ _) power ?_ d r hnow hmay
        simp only [Function.update_self]
        exact List.mem_cons_self
      · intro hkeeps id token hfind above habove d r hnow hmay
        by_cases hid : id = w.tokens.fresh
        · subst hid
          rw [Table.find_put_self] at hfind
          cases hfind
          have hallows := allows_of_keeps hagent hscopes (hkeeps power rest hbearer (by simp)) hmay
          simp only [Function.update_self] at habove
          rcases List.mem_cons.mp habove with rfl | habove
          · exact hallows
          · exact line_allows h hbearer habove ((Nat.le_add_right _ took).trans hnow) hallows
        · rw [Table.find_put_of_ne _ hid] at hfind
          simp only [Function.update_of_ne hid] at habove
          exact h id token hfind above habove d r ((Nat.le_add_right _ took).trans hnow) hmay
  | revoke id =>
    refine iff_of_true (within_later h le_rfl rfl ?_) trivial
    intro j t ht
    simp only [step] at ht
    rw [Table.find_modify] at ht
    split_ifs at ht with hj
    · obtain ⟨token, htoken, rfl⟩ := Option.map_eq_some_iff.mp ht
      refine ⟨token, htoken, ?_⟩
      rintro d r hmay
      split_ifs at hmay with hrevoked
      · obtain ⟨actor, hactor, -⟩ := hmay
        cases (resolveApiToken_some hactor).1
      · exact hmay
    · exact ⟨t, ht, fun _ _ hmay => hmay⟩
  | delete id =>
    refine iff_of_true (within_later h le_rfl rfl ?_) trivial
    intro j t ht
    simp only [step] at ht
    rw [Table.find_erase] at ht
    split_ifs at ht
    exact ⟨t, ht, fun _ _ hmay => hmay⟩
  | pass time directory =>
    refine iff_of_true (within_later h (Nat.le_add_right _ time) rfl ?_) trivial
    exact fun id t ht => ⟨t, ht, fun _ _ hmay => hmay⟩

end

/-- For every run of requests by any sessions and tokens, with any changes of the directory, and
whether or not the end of a session counts as a limit: in every state no token exceeds any actor that
its chain of creations goes through, if and only if each request that is not refused keeps its
creator's project, asks for an end that is not later than the creator's, and for a cap that is not
larger. -/
theorem tokens_within (ends : Bool) (now : ℕ) (d : Directory) (tokens : Table ℕ ApiToken)
    (acts : List Act) :
    (∀ k, Within (run (step ends) (start now d tokens) (acts.take k))) ↔
      Meets (step ends) (fun w a => a.Keeps ends w) (start now d tokens) acts := by
  have hstart : Within (start now d tokens) := by
    intro id token _ power hpower
    cases hpower
  have hrule := @prefixes_iff_meets World Act (step ends) (fun w a => a.Keeps ends w) Within
    (fun _ => True) (fun _ => True) (fun _ _ _ _ => trivial) (fun w a _ _ hw => within_step hw a)
  rw [hrule (fun _ _ => trivial) trivial]
  exact and_iff_right hstart

/-! ## A token that escapes its project -/

/-- A member of a team with two projects. -/
def office : Directory where
  users := [{ id := "u" }]
  members := [⟨"t", "u", .owner⟩]
  teams := [⟨"t", .active⟩]
  projects := [⟨"p", "t", "default"⟩, ⟨"q", "t", "other"⟩]

/-- A token for one project, for a while, and with a cap. -/
def bounded : ApiToken where
  teamId := "t"
  userId := "u"
  projectId := some "p"
  scopes := [.on .iam .write, .on .servers .write]
  spendCapMinor := some 5000
  expiresAt := some 1000

/-- It asks for a token with no bounds. -/
def unbounded : CreateTokenDto where
  scopes := [.on .servers .write]

theorem token_escapes :
    let w := start 0 office (Table.empty.put 1 bounded)
    let after := run (step true) w [.createToken (.token 1) unbounded 0]
    truthy bounded.projectId = some "p" ∧
      (∃ token, after.tokens.find 2 = some token ∧
        May office 2 token ⟨"t", "q", .on .servers .write, 2000, 9000, none⟩) ∧
      ∃ power ∈ after.line 2, power = bounded.power power.actor ∧
        ¬ power.allows ⟨"t", "q", .on .servers .write, 2000, 9000, none⟩ := by
  refine ⟨by decide, ⟨newToken _ unbounded 0, rfl, _, rfl, rfl, ?_, ?_, ?_, ?_, nofun⟩,
    ⟨_, List.mem_cons_self, rfl, ?_⟩⟩
  · intro p hp
    cases hp
  · decide
  · intro e he
    cases he
  · intro cap hcap
    cases hcap
  · intro hallows
    exact absurd (hallows.time 1000 rfl) (by decide)

end Prgd.Iam
