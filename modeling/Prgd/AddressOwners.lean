import Prgd.HostCounters

/-!
# Who an address belongs to

`reserve` and the claim of `attach` compare before they set. The other writes of `IpsService` act
by id on what was read before: on the row that `mustOwn` has found, or on the rows of the server
that `releaseForServer` has listed. A released address is up for reservation at once, so a late
write can hit an address of somebody else.
-/
namespace Prgd.Compute
open Interleaving

/-! ## What a step does to the addresses -/

/-- The write of a caller to an address. -/
inductive Rewrites : Pc → ℕ → PublicIp → PublicIp → Prop
  | reserved {projectId regionId attempts id : ℕ} {ip : PublicIp} (h : ip.status = .free) :
      Rewrites (.reserveClaim projectId regionId attempts id) id ip (reserveIp projectId ip)
  | claimed {id server : ℕ} {read : Server} {ref : ℕ} {ip : PublicIp} (h : ip.serverId = none) :
      Rewrites (.attachClaim id server read ref) id ip (claimIp server ip)
  | undone {id server : ℕ} {ip : PublicIp} : Rewrites (.attachUndo id server) id ip (unassignIp ip)
  | detached {id server : ℕ} {ip : PublicIp} : Rewrites (.detachWrite id server) id ip (detachIp ip)
  | released {id : ℕ} {ip : PublicIp} : Rewrites (.releaseWrite id) id ip (releaseIp ip)
  | assigned {f : Workflow} {r : Server} {attempts id : ℕ} {ip : PublicIp}
      (hstmt : f.stmt = .ipClaim r attempts id) (h : ip.status = .free) :
      Rewrites (.workflow f) id ip (assignIp r.projectId f.server ip)
  | dropped {f : Workflow} {ending : Ending} {r : Server} {id : ℕ} {ip old : PublicIp}
      {rest : List (ℕ × PublicIp)} (hstmt : f.stmt = .dropIps ending r ((id, old) :: rest)) :
      Rewrites (.workflow f) id ip (if old.floating then unassignIp ip else releaseIp ip)

/-- Each row is as it was, or the caller has written it. -/
def IpMoves (c : Cloud) (pc : Pc) (ips : Table ℕ PublicIp) : Prop :=
  ∀ id ip', ips.find id = some ip' → ∃ ip, c.ips.find id = some ip ∧ (ip' = ip ∨ Rewrites pc id ip ip')

section
variable {c c' : Cloud} {act : Act} {pc pc' : Pc}

theorem IpMoves.same (c : Cloud) (pc : Pc) : IpMoves c pc c.ips :=
  fun _ ip' hip' => ⟨ip', hip', .inl rfl⟩

theorem IpMoves.modify {id : ℕ} {g : PublicIp → PublicIp}
    (h : ∀ ip, c.ips.find id = some ip → Rewrites pc id ip (g ip)) :
    IpMoves c pc (c.ips.modify id g) := by
  intro id' ip' hip'
  rw [Table.find_modify] at hip'
  split_ifs at hip' with hid
  · obtain ⟨ip, hip, rfl⟩ := Option.map_eq_some_iff.mp hip'
    subst hid
    exact ⟨ip, hip, .inr (h ip hip)⟩
  · exact ⟨ip', hip', .inl rfl⟩

/-- A write that is not one of an address. -/
theorem ips_of_write (s : ℕ) {w : Write} (h : ∀ id g, w ≠ .ip id g) : (c.apply s w).ips = c.ips := by
  cases w with
  | ip id g => exact (h id g rfl).elim
  | privateIp address => cases address <;> rfl
  | none | server p | host id amount | createVm vm | editVm ref g | deleteVm ref => rfl

theorem ipMoves_exec (f : Workflow) (env : Env) :
    IpMoves c (.workflow f) (c.apply f.server (exec c f.server f.key env f.stmt).1).ips := by
  have hstill : (∀ id g, (exec c f.server f.key env f.stmt).1 ≠ .ip id g) →
      IpMoves c (.workflow f) (c.apply f.server (exec c f.server f.key env f.stmt).1).ips := by
    intro hwrite
    rw [ips_of_write _ hwrite]
    exact .same _ _
  cases hstmt : f.stmt with
  | ipClaim r attempts id =>
    simp only [exec]
    split_ifs with hfree
    · refine .modify fun ip hip => .assigned hstmt ?_
      simpa [hip] using hfree
    · exact .same _ _
  | dropIps ending r ips =>
    cases ips with
    | nil => exact .same _ _
    | cons e ips =>
      refine .modify fun ip _ => ?_
      have hwrite : Rewrites (.workflow f) e.1 ip (if e.2.floating then unassignIp ip else releaseIp ip) :=
        .dropped hstmt
      split_ifs at hwrite ⊢ <;> exact hwrite
  | _ =>
    rw [hstmt] at hstill
    apply hstill
    simp only [exec, load, withVm, next]
    (repeat' split) <;> (rintro _ _ ⟨⟩)

theorem ipMoves_addressed {env : Env} (haddressing : pc.addressing = true)
    (h : nextPc c env pc = some (c', pc')) : IpMoves c pc c'.ips := by
  cases pc with
  | reserveFind projectId regionId attempts =>
    simp only [nextPc] at h
    split at h <;> cases h <;> exact .same _ _
  | reserveClaim projectId regionId attempts id =>
    simp only [nextPc] at h
    split_ifs at h with hfree <;> cases h
    · refine .modify fun ip hip => .reserved ?_
      simpa [hip] using hfree
    · exact .same _ _
  | attachServer projectId id server ip =>
    cases h
    exact .same _ _
  | attachClaim id server read ref =>
    simp only [nextPc] at h
    split_ifs at h with hnone <;> cases h
    · refine .modify fun ip hip => .claimed ?_
      simpa [hip] using hnone
    · exact .same _ _
  | attachDriver id server read ref | detachDriver id server read ref | detachServer id server =>
    cases h
    exact .same _ _
  | attachUndo id server =>
    simp only [nextPc] at h
    split_ifs at h <;> cases h
    · exact .modify fun _ _ => .undone
    · exact .same _ _
  | detachWrite id server =>
    cases h
    exact .modify fun _ _ => .detached
  | releaseWrite id =>
    cases h
    exact .modify fun _ _ => .released
  | _ => cases haddressing

theorem ipMoves_moves (h : Moves c act pc c' pc') : IpMoves c pc c'.ips := by
  cases h with
  | call error call | insert env dto | started env id type before | unstarted id type before
  | startFailed env id => exact .same _ _
  | intent env id type read =>
    unfold writeIntent
    split_ifs <;> exact .same _ _
  | workflow htook =>
    cases htook with
    | well env => exact ipMoves_exec _ env
    | crashed carriedOut env again =>
      cases carriedOut with
      | false => exact .same _ _
      | true => exact ipMoves_exec _ env
    | caught carriedOut env hout =>
      cases carriedOut with
      | false => exact .same _ _
      | true => exact ipMoves_exec _ env
  | addressed haddressing hstep => exact ipMoves_addressed haddressing hstep
  | addressFailed haddressing hstep =>
    cases pc with
    | attachDriver id server read ref | detachDriver id server read ref =>
      simp only [crashPc] at hstep
      cases hstep
      split_ifs <;> exact .same _ _
    | workflow f => cases haddressing
    | _ => cases hstep

/-! ## The project of a server -/

def Cloud.project (c : Cloud) (s : ℕ) : Option ℕ := (c.servers.find s).map Server.projectId

theorem project_apply {s t p : ℕ} {w : Write} (h : c.project s = some p) :
    (c.apply t w).project s = some p := by
  have hfind := find_apply c t s w
  unfold Cloud.project at h ⊢
  rw [hfind]
  cases w with
  | server patch =>
    simp only
    split_ifs
    · rw [Option.map_map]
      exact h
    · exact h
  | _ => exact h

/-- A server stays with its project. -/
theorem project_moves {s p : ℕ} (h : Moves c act pc c' pc') (hs : c.project s = some p) :
    c'.project s = some p := by
  cases h with
  | call error call | started env id type before | unstarted id type before => exact hs
  | insert env dto =>
    have hne : s ≠ c.servers.fresh := by
      rintro rfl
      rw [Cloud.project, Table.find_fresh] at hs
      cases hs
    rw [Cloud.project, insertServer, Table.find_put_of_ne _ hne]
    exact hs
  | intent env id type read =>
    unfold writeIntent
    split_ifs
    · exact project_apply hs
    · exact hs
  | startFailed env id | workflow h => exact project_apply hs
  | addressed haddressing h =>
    rw [Cloud.project, (addressed_next haddressing h).servers]
    exact hs
  | addressFailed haddressing h =>
    rw [Cloud.project, (addressed_crash haddressing h).servers]
    exact hs

end

/-! ## What a call has read -/

/-- The project of a call on an address, with the address. -/
def Call.owned : Call → Option (ℕ × ℕ)
  | .attach projectId id _ | .detach projectId id | .releaseReserved projectId id =>
      some (projectId, id)
  | _ => none

def Call.checked (c : Cloud) (call : Call) : Option (ℕ × PublicIp) :=
  call.owned.bind fun e => (c.ips.find e.2).map fun ip => (e.1, ip)

/-- The note of a caller after its step: a call that begins leaves one. -/
def Act.notes (c : Cloud) (read : Option (ℕ × PublicIp)) : Act → Option (ℕ × PublicIp)
  | .call request => request.checked c
  | _ => read

/-- A world in which each caller keeps the project of its last call on an address, with the row
that it was checked against. -/
abbrev Noted := Interleaving.World Cloud (Pc × Option (ℕ × PublicIp))

def note : Noted → ℕ × Act → Noted :=
  callerStep fun q c act p => (trans q c act p.1).map fun r => (r.1, r.2, act.notes c p.2)

def noted (hosts : Table ℕ Scheduler.Host) (ips : Table ℕ PublicIp) : Noted where
  shared := (start hosts ips).shared
  pc := fun _ => (.rest none, none)

def Noted.world (n : Noted) : World := ⟨n.shared, fun q => (n.pc q).1⟩

/-- The notes do not disturb the world. -/
theorem world_note (n : Noted) (a : ℕ × Act) : Noted.world (note n a) = step n.world a := by
  unfold note step callerStep
  simp only [Noted.world]
  cases trans a.1 n.shared a.2 (n.pc a.1).1 with
  | none => rfl
  | some r =>
    simp only [Option.map_some, World.mk.injEq, true_and]
    funext q
    by_cases hq : q = a.1
    · rw [hq, Function.update_self, Function.update_self]
    · rw [Function.update_of_ne hq, Function.update_of_ne hq]

/-- Nothing happens, or a caller moves and keeps its note. -/
theorem note_cases (n : Noted) (a : ℕ × Act) :
    note n a = n ∨ ∃ c pc, Moves n.shared a.2 (n.pc a.1).1 c pc ∧
      note n a = ⟨c, Function.update n.pc a.1 (pc, a.2.notes n.shared (n.pc a.1).2)⟩ := by
  rcases callerStep_cases _ n a with hidle | ⟨c, p, hmap, heq⟩
  · exact .inl hidle
  · obtain ⟨r, ht, hr⟩ := Option.map_eq_some_iff.mp hmap
    cases hr
    exact .inr ⟨_, _, trans_moves ht, heq⟩

theorem world_run (n : Noted) (acts : List (ℕ × Act)) :
    Noted.world (run note n acts) = run step n.world acts := by
  induction acts generalizing n with
  | nil => rfl
  | cons a acts ih => rw [run_cons, run_cons, ih, world_note]

/-- The project that a caller works for. -/
def Noted.operator (n : Noted) (q : ℕ) : Option ℕ :=
  match (n.pc q).1 with
  | .reserveClaim projectId _ _ _ => some projectId
  | .workflow f => n.shared.project f.server
  | _ => (n.pc q).2.map Prod.fst

def Stmt.holding : Stmt → List (ℕ × PublicIp)
  | .dropIps _ _ ips => ips
  | _ => []

/-- The addresses that a caller is still to write, with the rows that it has read. -/
def Pc.holding (read : Option (ℕ × PublicIp)) : Pc → List (ℕ × PublicIp)
  | .attachServer _ id _ _ | .attachClaim id _ _ _ | .detachServer id _ | .detachDriver id _ _ _
  | .detachWrite id _ | .releaseWrite id => (read.map fun e => (id, e.2)).toList
  | .workflow f => f.stmt.holding
  | _ => []

def Noted.holding (n : Noted) (q : ℕ) : List (ℕ × PublicIp) := (n.pc q).1.holding (n.pc q).2

/-- The claim of `attach` looks at the server of the row again. -/
def Pc.compares : Pc → Bool
  | .attachServer _ _ _ _ | .attachClaim _ _ _ _ => true
  | _ => false

/-- The caller has been checked against the project and the server that the row has. -/
def Noted.Saw (n : Noted) (q id : ℕ) (ip : PublicIp) : Prop :=
  ∃ old, (id, old) ∈ n.holding q ∧ old.projectId = ip.projectId ∧ old.serverId = ip.serverId

/-- A step that changes an address of a project is one of this project; and who changes an address
that is with a server has been checked against this server and this owner. -/
def Rightful (n : Noted) (a : ℕ × Act) : Prop :=
  ∀ id ip ip', n.shared.ips.find id = some ip →
    (note n a).shared.ips.find id = some ip' → ip' ≠ ip →
    (∀ p, ip.projectId = some p → n.operator a.1 = some p) ∧
      ∀ s, ip.serverId = some s → n.Saw a.1 id ip

/-- The driver calls of `IpsService` succeed. -/
def Answered (n : Noted) (a : ℕ × Act) : Prop :=
  ∀ carriedOut env again, a.2 = .crash carriedOut env again → (n.pc a.1).1.addressing = false

/-- The step gives the address no project, and no server, that differs from what the caller has
read; where the caller compares again, the server does not matter. -/
def Noted.spares (n : Noted) (a : ℕ × Act) (q id : ℕ) (old : PublicIp) : Bool :=
  (n.shared.ips.find id).all fun ip =>
    match (n.pc a.1).1 with
    | .reserveClaim projectId _ _ id' =>
        id' ≠ id ∨ ip.status ≠ .free ∨ old.projectId = some projectId
    | .attachClaim id' server _ _ =>
        id' ≠ id ∨ ip.serverId ≠ none ∨ (n.pc q).1.compares ∨
          old.serverId = some server ∧ old.projectId = ip.projectId
    | .workflow f =>
        match f.stmt with
        | .ipClaim r _ id' =>
            id' ≠ id ∨ ip.status ≠ .free ∨ old.projectId = some r.projectId ∧
              ((n.pc q).1.compares ∨ old.serverId = some f.server)
        | _ => true
    | _ => true

/-- A free address is reserved, or an address that has no server is claimed, when nobody is still
to write it who has read it with another project or server. -/
def Apart (n : Noted) (a : ℕ × Act) : Prop :=
  ∀ q, q ≠ a.1 → ∀ e ∈ n.holding q, n.spares a q e.1 e.2 = true

/-! ## The invariant -/

def Stmt.Titled (c : Cloud) (s : ℕ) : Stmt → Prop
  | .ipCandidate r _ | .ipClaim r _ _ => c.project s = some r.projectId
  | .dropIps _ _ ips => ∀ e ∈ ips, ∀ p, e.2.projectId = some p → c.project s = some p
  | _ => True

/-- What a caller has loaded has the right project. -/
def Pc.Titled (c : Cloud) (read : Option (ℕ × PublicIp)) : Pc → Prop
  | .attachServer projectId _ _ ip => read = some (projectId, ip) ∧ ip.projectId = some projectId
  | .attachClaim _ server _ _ => ∃ e, read = some e ∧ e.2.projectId = some e.1 ∧
      c.project server = some e.1
  | .detachServer _ _ | .detachDriver _ _ _ _ | .detachWrite _ _ | .releaseWrite _ =>
      ∃ e, read = some e ∧ e.2.projectId = some e.1
  | .attachUndo _ _ => False
  | .workflow f => f.stmt.Titled c f.server
  | _ => True

/-- The row is as it was read, or no longer with that project and that server. -/
structure Since (old ip : PublicIp) (compares : Bool) : Prop where
  project : ip.projectId = none ∨ ip.projectId = old.projectId
  server : compares = false → ip.serverId = none ∨
    ip.serverId = old.serverId ∧ ip.projectId = old.projectId

structure Titled (n : Noted) : Prop where
  free : ∀ {id ip}, n.shared.ips.find id = some ip → ip.status = .free →
    ip.projectId = none ∧ ip.serverId = none
  rows : ∀ {id ip s p}, n.shared.ips.find id = some ip → ip.serverId = some s →
    ip.projectId = some p → n.shared.project s = some p
  pcs : ∀ q, (n.pc q).1.Titled n.shared (n.pc q).2
  held : ∀ {q id old ip}, (id, old) ∈ n.holding q → n.shared.ips.find id = some ip →
    Since old ip (n.pc q).1.compares

section
variable {n : Noted} {a : ℕ × Act} {q id : ℕ} {ip old : PublicIp}

/-- Who writes without comparing again. -/
theorem Since.saw (h : Since old ip false) (hmem : (id, old) ∈ n.holding q)
    (hs : ip.serverId = some s) : n.Saw q id ip := by
  rcases h.server rfl with hnone | ⟨hserver, hproject⟩
  · cases hnone.symm.trans hs
  · exact ⟨old, hmem, hproject.symm, hserver.symm⟩

theorem Since.owner {compares : Bool} {p p' : ℕ} (h : Since old ip compares)
    (hold : old.projectId = some p') (hp : ip.projectId = some p) : p' = p := by
  rcases h.project with hnone | hsame
  · cases hnone.symm.trans hp
  · exact Option.some.inj ((hold.symm.trans hsame.symm).trans hp)

/-- A call that has read the row changes it. -/
theorem rightful_read {e : ℕ × PublicIp} (h : Titled n) (hip : n.shared.ips.find id = some ip)
    (hmem : (id, e.2) ∈ n.holding q) (hoperator : n.operator q = some e.1)
    (howner : e.2.projectId = some e.1) (hcompares : (n.pc q).1.compares = false) :
    (∀ p, ip.projectId = some p → n.operator q = some p) ∧
      ∀ s, ip.serverId = some s → n.Saw q id ip := by
  have hsince := h.held hmem hip
  refine ⟨?_, ?_⟩
  · intro p hp
    rw [hoperator, hsince.owner howner hp]
  · intro s hs
    rw [hcompares] at hsince
    exact hsince.saw hmem hs

theorem rightful_of_titled (h : Titled n) : Rightful n a := by
  intro id ip ip' hip hip' hne
  rcases note_cases n a with heq | ⟨c, pc, hmoves, heq⟩
  · rw [heq, hip] at hip'
    cases hip'
    exact (hne rfl).elim
  rw [heq] at hip'
  have hpcs := h.pcs a.1
  have hfree : ip.status = .free → (∀ p, ip.projectId = some p → n.operator a.1 = some p) ∧
      ∀ s, ip.serverId = some s → n.Saw a.1 id ip := by
    intro hfree
    have hnone := h.free hip hfree
    refine ⟨?_, ?_⟩
    · intro p hp
      cases hnone.1.symm.trans hp
    · intro s hs
      cases hnone.2.symm.trans hs
  obtain ⟨ip₀, hip₀, hsame | hwrite⟩ := ipMoves_moves hmoves id ip' hip'
  · cases hip.symm.trans hip₀
    exact (hne hsame).elim
  cases hip.symm.trans hip₀
  generalize hold : (n.pc a.1).1 = was at hwrite
  cases hwrite with
  | reserved h | assigned hstmt h => exact hfree h
  | claimed hserver =>
    rw [hold] at hpcs
    obtain ⟨e, hread, howner, -⟩ := hpcs
    have hmem : (id, e.2) ∈ n.holding a.1 := by simp [Noted.holding, hold, Pc.holding, hread]
    refine ⟨?_, ?_⟩
    · intro p hp
      rw [Noted.operator, hold, hread, ← (h.held hmem hip).owner howner hp]
      rfl
    · intro s hs
      cases hserver.symm.trans hs
  | undone =>
    rw [hold] at hpcs
    exact hpcs.elim
  | detached | released =>
    rw [hold] at hpcs
    obtain ⟨e, hread, howner⟩ := hpcs
    have hmem : (id, e.2) ∈ n.holding a.1 := by simp [Noted.holding, hold, Pc.holding, hread]
    have hoperator : n.operator a.1 = some e.1 := by simp [Noted.operator, hold, hread]
    exact rightful_read h hip hmem hoperator howner (by rw [hold]; rfl)
  | dropped hstmt =>
    next f ending r old rest =>
    rw [hold, Pc.Titled, hstmt] at hpcs
    have hmem : (id, old) ∈ n.holding a.1 := by simp [Noted.holding, hold, Pc.holding, Stmt.holding, hstmt]
    have hsince := h.held hmem hip
    refine ⟨?_, ?_⟩
    · intro p hp
      rw [Noted.operator, hold]
      rcases hsince.project with hnone | hsame
      · cases hnone.symm.trans hp
      · exact hpcs (id, old) (by simp) p (hsame.symm.trans hp)
    · intro s hs
      rw [hold] at hsince
      exact hsince.saw hmem hs

end

/-! ## One step -/

/-- The row has lost its server, and its project or not. -/
def Loosened (ip ip' : PublicIp) : Prop :=
  ip'.serverId = none ∧ (ip'.projectId = none ∨ ip'.projectId = ip.projectId)

section
variable {c c' : Cloud} {act : Act} {pc pc' : Pc} {read : Option (ℕ × PublicIp)}
  {id s : ℕ} {ip ip' old : PublicIp} {st st' : Stmt} {f f' : Workflow} {compares : Bool}

theorem Since.refl (ip : PublicIp) : Since ip ip compares := ⟨.inr rfl, fun _ => .inr ⟨rfl, rfl⟩⟩

theorem Since.loosened (h : Since old ip compares) (hloose : Loosened ip ip') :
    Since old ip' compares := by
  refine ⟨?_, fun _ => .inl hloose.1⟩
  rcases hloose.2 with hnone | hsame
  · exact .inl hnone
  · rw [hsame]
    exact h.project

theorem loosened_drop (old ip : PublicIp) :
    Loosened ip (if old.floating then unassignIp ip else releaseIp ip) := by
  split_ifs
  · exact ⟨rfl, .inr rfl⟩
  · exact ⟨rfl, .inl rfl⟩

theorem Stmt.Titled.mono (h : st.Titled c s)
    (hproject : ∀ p, c.project s = some p → c'.project s = some p) : st.Titled c' s := by
  cases st with
  | ipCandidate r attempts | ipClaim r attempts id => exact hproject _ h
  | dropIps ending r ips => exact fun e he p hp => hproject _ (h e he p hp)
  | _ => trivial

theorem Pc.Titled.mono (h : pc.Titled c read)
    (hproject : ∀ s p, c.project s = some p → c'.project s = some p) : pc.Titled c' read := by
  cases pc with
  | attachClaim id server r ref =>
    obtain ⟨e, hread, howner, hserver⟩ := h
    exact ⟨e, hread, howner, hproject _ _ hserver⟩
  | workflow f => exact Stmt.Titled.mono h (hproject _)
  | _ => exact h

/-- A statement hands on what it has loaded, and what it is still to write. -/
theorem titled_goto {key : ℕ} {env : Env} (h : st.Titled c s)
    (hrows : ∀ {id ip p}, c.ips.find id = some ip → ip.serverId = some s → ip.projectId = some p →
      c.project s = some p) (hgoto : (exec c s key env st).2 = .goto st') :
    st'.Titled c s ∧ ∀ e ∈ st'.holding,
      (exec c s key env st).1 = .none ∧ c.ips.find e.1 = some e.2 ∨ e ∈ st.holding := by
  cases st with
  | ipLoad =>
    simp only [exec, load] at hgoto
    split at hgoto
    · cases hgoto
    · next r hr =>
      split_ifs at hgoto
      cases hgoto
      exact ⟨by rw [Stmt.Titled, Cloud.project, hr]; rfl, fun e he => by cases he⟩
  | ipCandidate r attempts =>
    simp only [exec, next] at hgoto
    split at hgoto <;> cases hgoto
    exact ⟨h, fun e he => by cases he⟩
  | ipClaim r attempts id =>
    simp only [exec, next] at hgoto
    split_ifs at hgoto
    cases hgoto
    exact ⟨h, fun e he => by cases he⟩
  | findIps ending r =>
    cases hgoto
    have hfound : ∀ e ∈ c.ips.rows.filter fun e => e.2.serverId = some s,
        c.ips.find e.1 = some e.2 ∧ e.2.serverId = some s := by
      intro e he
      obtain ⟨hmem, hserver⟩ := List.mem_filter.mp he
      exact ⟨Table.find_of_mem hmem, by simpa using hserver⟩
    refine ⟨?_, fun e he => .inl ⟨rfl, (hfound e he).1⟩⟩
    intro e he p hp
    exact hrows (hfound e he).1 (hfound e he).2 hp
  | dropIps ending r ips =>
    cases ips with
    | nil =>
      cases hgoto
      exact ⟨trivial, fun e he => by cases he⟩
    | cons e ips =>
      cases hgoto
      refine ⟨fun e' he' => h e' (List.mem_cons_of_mem e he'), ?_⟩
      exact fun e' he' => .inr (List.mem_cons_of_mem e he')
  | _ =>
    simp only [exec, load, withVm, next] at hgoto
    (repeat' split at hgoto) <;> cases hgoto <;> exact ⟨trivial, fun e he => by cases he⟩

/-- What a caught error leads to writes no address. -/
theorem titled_swallow (h : swallow st = some (.goto st')) : st'.Titled c s ∧ st'.holding = [] := by
  cases st with
  | compFind r host | syncAsk ref =>
    cases h
    exact ⟨trivial, rfl⟩
  | compDelete r refs =>
    cases refs with
    | nil => cases h
    | cons ref refs =>
      cases h
      exact ⟨trivial, rfl⟩
  | _ => cases h

theorem titled_start (a : Activity) : a.start.Titled c s ∧ a.start.holding = [] := by
  cases a <;> exact ⟨trivial, rfl⟩

theorem stmt_begin {l : List Activity} (h : f.begin l = some f') :
    ∃ a : Activity, f'.stmt = a.start := by
  cases l with
  | nil => cases h
  | cons a l =>
    cases h
    exact ⟨a, rfl⟩

theorem stmt_advance {out : Outcome} (h : f.advance out = some f') :
    out = .goto f'.stmt ∨ ∃ a : Activity, f'.stmt = a.start := by
  cases out with
  | goto st =>
    cases h
    exact .inl rfl
  | again =>
    cases h
    exact .inr ⟨_, rfl⟩
  | done running => exact .inr (stmt_begin h)
  | fail =>
    simp only [Workflow.advance] at h
    split_ifs at h
    exact .inr (stmt_begin h)

/-- What the step of a caller leaves it with: rows that it has just read, or that it was to write
before. -/
structure Continues (c c' : Cloud) (pc pc' : Pc) (read read' : Option (ℕ × PublicIp)) : Prop where
  titled : pc'.Titled c read'
  holding : ∀ e ∈ pc'.holding read', c'.ips = c.ips ∧ c.ips.find e.1 = some e.2 ∨
    e ∈ pc.holding read ∧ (pc'.compares = false → pc.compares = false) ∧
      ∀ ip ip', Rewrites pc e.1 ip ip' → Loosened ip ip'

theorem continues_nothing {read' : Option (ℕ × PublicIp)} (htitled : pc'.Titled c read')
    (hnil : pc'.holding read' = []) : Continues c c' pc pc' read read' where
  titled := htitled
  holding := fun e he => by
    rw [hnil] at he
    cases he

/-- The row of an address is read. -/
theorem continues_read {read' : Option (ℕ × PublicIp)} (hip : c.ips.find id = some ip)
    (htitled : pc'.Titled c read') (hholding : pc'.holding read' = [(id, ip)]) :
    Continues c c pc pc' read read' where
  titled := htitled
  holding := by
    intro e he
    rw [hholding] at he
    obtain rfl := List.mem_singleton.mp he
    exact .inl ⟨rfl, hip⟩

theorem continues_begin (c : Cloud) (call : Call) (error : Option ApiError) :
    Continues c c (.rest error) (begin c call) read (call.checked c) := by
  have hown : ∀ {projectId id k}, call.owned = some (projectId, id) →
      (∀ ip, c.ips.find id = some ip → call.checked c = some (projectId, ip) →
        ip.projectId = some projectId → Continues c c (.rest error) (k ip) read (call.checked c)) →
      Continues c c (.rest error) (ownIp c projectId id k) read (call.checked c) := by
    intro projectId id k howned hk
    unfold ownIp
    split
    · exact continues_nothing trivial rfl
    · next ip hip =>
      split_ifs with howner
      · exact continues_nothing trivial rfl
      · exact continues_nothing trivial rfl
      · exact hk ip hip (by simp [Call.checked, howned, hip]) (by simpa using howner)
  cases call with
  | create dto | reserve projectId regionId => exact continues_nothing trivial rfl
  | action id type =>
    cases type with
    | create => exact continues_nothing trivial rfl
    | _ =>
      simp only [begin, readServer]
      (repeat' split) <;> exact continues_nothing trivial rfl
  | attach projectId id server =>
    refine hown rfl fun ip hip hchecked howner => ?_
    split_ifs
    · exact continues_nothing trivial rfl
    · exact continues_nothing trivial rfl
    · exact continues_read hip ⟨hchecked, howner⟩ (by rw [hchecked]; rfl)
  | detach projectId id =>
    refine hown rfl fun ip hip hchecked howner => ?_
    split
    · exact continues_nothing trivial rfl
    · exact continues_read hip ⟨_, hchecked, howner⟩ (by rw [hchecked]; rfl)
  | releaseReserved projectId id =>
    refine hown rfl fun ip hip hchecked howner => ?_
    split_ifs
    · exact continues_nothing trivial rfl
    · exact continues_read hip ⟨_, hchecked, howner⟩ (by rw [hchecked]; rfl)

theorem continues_workflow {write : Write} {out : Outcome} (hf : f.stmt.Titled c f.server)
    (hrows : ∀ {id ip s p}, c.ips.find id = some ip → ip.serverId = some s → ip.projectId = some p →
      c.project s = some p) (htook : Took c f act write out) :
    Continues c (c.apply f.server write) (.workflow f) (.after (f.advance out)) read read := by
  cases hadvance : f.advance out with
  | none => exact continues_nothing trivial rfl
  | some f' =>
    have hserver := server_advance hadvance
    have hstill : f'.stmt.Titled c f.server ∧ f'.stmt.holding = [] →
        Continues c (c.apply f.server write) (.workflow f) (.workflow f') read read := by
      intro ⟨htitled, hnil⟩
      rw [← hserver] at htitled
      exact continues_nothing htitled hnil
    rcases stmt_advance hadvance with hgoto | ⟨a, hstart⟩
    · cases htook with
      | well env =>
        obtain ⟨htitled, hholding⟩ := titled_goto hf hrows hgoto
        rw [← hserver] at htitled
        refine ⟨htitled, fun e he => ?_⟩
        rcases hholding e he with ⟨hnone, hip⟩ | hbefore
        · rw [hnone]
          exact .inl ⟨rfl, hip⟩
        · refine .inr ⟨hbefore, fun _ => rfl, ?_⟩
          intro ip ip' hwrite
          cases hwrite with
          | assigned hstmt h =>
            rw [hstmt] at hbefore
            cases hbefore
          | dropped hstmt => exact loosened_drop _ _
      | crashed carriedOut env again =>
        split_ifs at hgoto
      | caught carriedOut env hout =>
        rw [hgoto] at hout
        exact hstill (titled_swallow hout)
    · apply hstill
      rw [hstart]
      exact titled_start a

/-- `attach` goes on to its claim only for a server of the project that has no address. -/
theorem readAttach_cases (c : Cloud) (projectId id server : ℕ) (ip : PublicIp) :
    (∃ error, readAttach c projectId id server ip = throws error) ∨
      ∃ r ref, readAttach c projectId id server ip = .attachClaim id server r ref ∧
        c.servers.find server = some r ∧ r.projectId = projectId ∧ r.driverRef = some ref ∧
        hasIp c server = none := by
  cases hr : c.servers.find server with
  | none =>
    simp only [readAttach, hr]
    exact .inl ⟨_, rfl⟩
  | some r =>
    cases href : r.driverRef with
    | none =>
      simp only [readAttach, hr, href]
      split_ifs <;> exact .inl ⟨_, rfl⟩
    | some ref =>
      cases hhost : r.hostId with
      | none =>
        simp only [readAttach, hr, href, hhost]
        split_ifs <;> exact .inl ⟨_, rfl⟩
      | some host =>
        simp only [readAttach, hr, href, hhost]
        split_ifs with hproject hmanaged hstatus hregion hip
        iterate 5 exact .inl ⟨_, rfl⟩
        have hown : r.projectId = projectId := by
          by_contra hne
          exact hproject (.inl hne)
        exact .inr ⟨r, ref, rfl, rfl, hown, href, by simpa using hip⟩

theorem continues_addressed {env : Env} (haddressing : pc.addressing = true)
    (hpc : pc.Titled c read) (h : nextPc c env pc = some (c', pc')) :
    Continues c c' pc pc' read read := by
  have hgoes : ∀ {pc pc' : Pc} {c'}, pc'.Titled c read → pc'.holding read = pc.holding read →
      pc'.compares = pc.compares → (∀ id ip ip', ¬ Rewrites pc id ip ip') →
      Continues c c' pc pc' read read := by
    intro pc pc' c' htitled hholding hcompares hno
    refine ⟨htitled, fun e he => ?_⟩
    rw [hholding] at he
    refine .inr ⟨he, ?_, fun ip ip' hwrite => (hno _ _ _ hwrite).elim⟩
    rw [hcompares]
    exact id
  cases pc with
  | reserveFind projectId regionId attempts =>
    simp only [nextPc] at h
    split at h <;> cases h <;> exact continues_nothing trivial rfl
  | reserveClaim projectId regionId attempts id =>
    simp only [nextPc] at h
    split_ifs at h <;> cases h <;> exact continues_nothing trivial rfl
  | attachServer projectId id server ip =>
    cases h
    rcases readAttach_cases c projectId id server ip with ⟨error, hthrows⟩ |
      ⟨r, ref, hclaim, hr, hown, -, -⟩
    · rw [hthrows]
      exact continues_nothing trivial rfl
    · rw [hclaim]
      refine hgoes ⟨_, hpc.1, hpc.2, ?_⟩ rfl rfl fun _ _ _ hwrite => by cases hwrite
      rw [Cloud.project, hr, Option.map_some, hown]
  | attachClaim id server r ref =>
    simp only [nextPc] at h
    split_ifs at h <;> cases h <;> exact continues_nothing trivial rfl
  | attachUndo id server => exact hpc.elim
  | detachServer id server =>
    cases h
    unfold readDetach
    split
    · exact hgoes hpc rfl rfl fun _ _ _ hwrite => by cases hwrite
    · split_ifs
      · exact continues_nothing trivial rfl
      · split
        · exact hgoes hpc rfl rfl fun _ _ _ hwrite => by cases hwrite
        · exact hgoes hpc rfl rfl fun _ _ _ hwrite => by cases hwrite
  | detachDriver id server r ref =>
    cases h
    exact hgoes hpc rfl rfl fun _ _ _ hwrite => by cases hwrite
  | attachDriver id server r ref | detachWrite id server | releaseWrite id =>
    cases h
    exact continues_nothing trivial rfl
  | _ => cases haddressing

theorem continues_moves (hpc : pc.Titled c read)
    (hrows : ∀ {id ip s p}, c.ips.find id = some ip → ip.serverId = some s → ip.projectId = some p →
      c.project s = some p)
    (hanswered : ∀ carriedOut env again, act = .crash carriedOut env again → pc.addressing = false)
    (h : Moves c act pc c' pc') : Continues c c' pc pc' read (act.notes c read) := by
  cases h with
  | call error call => exact continues_begin c call error
  | insert env dto | intent env id type before | startFailed env id =>
    exact continues_nothing trivial rfl
  | started env id type before =>
    cases hstart : startWorkflow id c.nextWorkflow type with
    | none => exact continues_nothing trivial rfl
    | some f =>
      obtain ⟨a, hstmt⟩ := stmt_begin hstart
      have ha := titled_start (c := c) (s := f.server) a
      rw [← hstmt] at ha
      exact continues_nothing ha.1 ha.2
  | unstarted id type before =>
    split_ifs <;> exact continues_nothing trivial rfl
  | workflow htook =>
    have hread : act.notes c read = read := by
      cases htook <;> rfl
    rw [hread]
    exact continues_workflow hpc hrows htook
  | addressed haddressing hstep => exact continues_addressed haddressing hpc hstep
  | addressFailed haddressing hstep =>
    cases (hanswered _ _ _ rfl).symm.trans haddressing

end

section
variable {n : Noted} {a : ℕ × Act} {c : Cloud} {pc : Pc} {q id : ℕ} {ip' old : PublicIp}

/-- What a step leaves in the row of an address. -/
theorem free_step (h : Titled n) (hmove : IpMoves n.shared (n.pc a.1).1 c.ips)
    (hip' : c.ips.find id = some ip') (hfree : ip'.status = .free) :
    ip'.projectId = none ∧ ip'.serverId = none := by
  obtain ⟨ip, hip, rfl | hwrite⟩ := hmove id ip' hip'
  · exact h.free hip hfree
  · generalize (n.pc a.1).1 = was at hwrite
    cases hwrite with
    | reserved | claimed | undone | detached | assigned => cases hfree
    | released => exact ⟨rfl, rfl⟩
    | dropped hstmt =>
      split_ifs at hfree ⊢
      · cases hfree
      · exact ⟨rfl, rfl⟩

theorem rows_step {s p : ℕ} (h : Titled n) (hmoves : Moves n.shared a.2 (n.pc a.1).1 c pc)
    (hip' : c.ips.find id = some ip') (hs : ip'.serverId = some s) (hp : ip'.projectId = some p) :
    c.project s = some p := by
  apply project_moves hmoves
  have hpcs := h.pcs a.1
  obtain ⟨ip, hip, rfl | hwrite⟩ := ipMoves_moves hmoves id ip' hip'
  · exact h.rows hip hs hp
  · generalize hold : (n.pc a.1).1 = was at hwrite
    cases hwrite with
    | reserved hfree =>
      have hnone : ip.serverId = some s := hs
      cases (h.free hip hfree).2.symm.trans hnone
    | claimed hserver =>
      cases hs
      rw [hold] at hpcs
      obtain ⟨e, hread, howner, hproject⟩ := hpcs
      have hmem : (id, e.2) ∈ n.holding a.1 := by simp [Noted.holding, hold, Pc.holding, hread]
      rw [hproject, (h.held hmem hip).owner howner hp]
    | undone | detached | released => cases hs
    | assigned hstmt hfree =>
      cases hs
      cases hp
      rw [hold, Pc.Titled, hstmt] at hpcs
      exact hpcs
    | dropped hstmt =>
      split_ifs at hs
      · cases hs
      · cases hs

theorem held_others (h : Titled n) (hapart : Apart n a)
    (hmove : IpMoves n.shared (n.pc a.1).1 c.ips) (hq : q ≠ a.1) (hmem : (id, old) ∈ n.holding q)
    (hip' : c.ips.find id = some ip') : Since old ip' (n.pc q).1.compares := by
  obtain ⟨ip, hip, rfl | hwrite⟩ := hmove id ip' hip'
  · exact h.held hmem hip
  have hbefore := h.held hmem hip
  have hcond := hapart q hq _ hmem
  have hpcs := h.pcs a.1
  simp only [Noted.spares, hip, Option.all_some] at hcond
  generalize hold : (n.pc a.1).1 = was at hwrite
  rw [hold] at hcond hpcs
  cases hwrite with
  | @reserved projectId _ _ _ _ hfree =>
    have hsame : old.projectId = some projectId := by simpa [hfree] using hcond
    exact ⟨.inr hsame.symm, fun _ => .inl (h.free hip hfree).2⟩
  | @claimed _ server _ _ _ hserver =>
    refine ⟨hbefore.project, fun hcompares => ?_⟩
    have hsame : old.serverId = some server ∧ old.projectId = ip.projectId := by
      simpa [hserver, hcompares] using hcond
    exact .inr ⟨hsame.1.symm, hsame.2.symm⟩
  | undone => exact hpcs.elim
  | detached => exact hbefore.loosened ⟨rfl, .inr rfl⟩
  | released => exact hbefore.loosened ⟨rfl, .inl rfl⟩
  | @assigned f _ _ _ _ hstmt hfree =>
    simp only [hstmt, hfree, ne_eq, not_true_eq_false, false_or, decide_eq_true_eq] at hcond
    refine ⟨.inr hcond.1.symm, fun hcompares => ?_⟩
    have hserver : old.serverId = some f.server := by simpa [hcompares] using hcond.2
    exact .inr ⟨hserver.symm, hcond.1.symm⟩
  | dropped hstmt => exact hbefore.loosened (loosened_drop _ _)

theorem titled_step (hanswered : Answered n a) (hapart : Apart n a) (h : Titled n) :
    Titled (note n a) := by
  rcases note_cases n a with heq | ⟨c, pc, hmoves, heq⟩
  · rw [heq]
    exact h
  rw [heq]
  have hmove := ipMoves_moves hmoves
  have hown := continues_moves (h.pcs a.1) h.rows hanswered hmoves
  refine ⟨?_, ?_, ?_, ?_⟩
  · intro id ip' hip' hfree
    exact free_step h hmove hip' hfree
  · intro id ip' s p hip' hs hp
    exact rows_step h hmoves hip' hs hp
  · exact update_cases (P := fun _ (p : Pc × Option (ℕ × PublicIp)) => p.1.Titled c p.2)
      (hown.titled.mono fun s p hp => project_moves hmoves hp)
      fun q _ => (h.pcs q).mono fun s p hp => project_moves hmoves hp
  · intro q id old ip' hmem hip'
    by_cases hq : q = a.1
    · rw [hq] at hmem ⊢
      simp only [Noted.holding, Function.update_self] at hmem ⊢
      rcases hown.holding _ hmem with ⟨hips, hip⟩ | ⟨hbefore, hcompares, hloose⟩
      · have hip' : c.ips.find id = some ip' := hip'
        rw [hips] at hip'
        cases hip.symm.trans hip'
        exact Since.refl _
      · obtain ⟨ip, hip, hcase⟩ := hmove id ip' hip'
        have hsince := h.held (q := a.1) hbefore hip
        have hnow : Since old ip pc.compares :=
          ⟨hsince.project, fun hfalse => hsince.server (hcompares hfalse)⟩
        rcases hcase with rfl | hwrite
        · exact hnow
        · exact hnow.loosened (hloose ip ip' hwrite)
    · simp only [Noted.holding, Function.update_of_ne hq] at hmem ⊢
      exact held_others h hapart hmove hq hmem hip'

theorem titled_init (hosts : Table ℕ Scheduler.Host) (ips : Table ℕ PublicIp) :
    Titled (noted hosts ips) where
  free := by
    intro id ip hip _
    simp only [noted, start, Table.find_amend] at hip
    obtain ⟨ip₀, -, rfl⟩ := Option.map_eq_some_iff.mp hip
    exact ⟨rfl, rfl⟩
  rows := by
    intro id ip s p hip hs _
    simp only [noted, start, Table.find_amend] at hip
    obtain ⟨ip₀, -, rfl⟩ := Option.map_eq_some_iff.mp hip
    cases hs
  pcs := fun _ => trivial
  held := fun hmem => by cases hmem

end

/-- In every run in which the driver calls of `IpsService` succeed, and in which nobody reserves or
claims an address that somebody else has read with another project or server and is still to
write: a step that changes an address of a project is one of this project, who changes an address
that is with a server has been checked against this server and this owner, and the server of an
address is one of its project. -/
theorem addresses_changed_by_owners (hosts : Table ℕ Scheduler.Host) (ips : Table ℕ PublicIp)
    (acts : List (ℕ × Act)) (hdriver : Meets note Answered (noted hosts ips) acts)
    (h : Meets note Apart (noted hosts ips) acts) :
    Meets note Rightful (noted hosts ips) acts ∧
      ∀ id ip s p, (run step (start hosts ips) acts).shared.ips.find id = some ip →
        ip.serverId = some s → ip.projectId = some p →
        (run step (start hosts ips) acts).shared.project s = some p := by
  have hboth := hdriver.and h
  have hstep : ∀ n a, Answered n a ∧ Apart n a → Titled n → Titled (note n a) :=
    fun n a hcond htitled => titled_step hcond.1 hcond.2 htitled
  refine ⟨hboth.of_invariant hstep (fun _ _ _ => rightful_of_titled) (titled_init hosts ips), ?_⟩
  have htitled := hboth.invariant hstep (titled_init hosts ips)
  have hworld : Noted.world (run note (noted hosts ips) acts) = run step (start hosts ips) acts :=
    world_run _ acts
  intro id ip s p hip hs hp
  rw [← hworld] at hip ⊢
  exact htitled.rows hip hs hp

/-! ## Two releases of one address -/

def twoProjects : Noted := noted .empty (Table.empty.put 0 { regionId := 0 })

/-- A project reserves the address and gives it back, and another project reserves it. -/
def handedOn : List (ℕ × Act) :=
  [(0, .call (.reserve 0 0)), (0, .next {}), (0, .next {}), (0, .call (.releaseReserved 0 0)),
    (0, .next {}), (1, .call (.reserve 1 0)), (1, .next {}), (1, .next {})]

/-- The same, where the first project asks for the release twice at the same time. -/
def releasedTwice : List (ℕ × Act) :=
  [(0, .call (.reserve 0 0)), (0, .next {}), (0, .next {}), (0, .call (.releaseReserved 0 0)),
    (2, .call (.releaseReserved 0 0)), (0, .next {}), (1, .call (.reserve 1 0)), (1, .next {}),
    (1, .next {})]

/-- `Apart` where no more than `k` callers act. -/
def apartHere (k : ℕ) (n : Noted) (a : ℕ × Act) : Bool :=
  (List.range k).all fun q => q = a.1 ∨ (n.holding q).all fun e => n.spares a q e.1 e.2

theorem apart_of_here {k : ℕ} {n : Noted} {a : ℕ × Act} (h : apartHere k n a = true)
    (hidle : ∀ q, k ≤ q → n.pc q = (.rest none, none)) : Apart n a := by
  intro q hq e he
  by_cases hlt : q < k
  · have hall := List.all_eq_true.mp h q (List.mem_range.mpr hlt)
    simp only [hq, false_or, decide_eq_true_eq] at hall
    exact List.all_eq_true.mp hall e he
  · rw [Noted.holding, hidle q (by omega)] at he
    cases he

theorem answered_of_next {n : Noted} {acts : List (ℕ × Act)}
    (h : ∀ a ∈ acts, ∀ carriedOut env again, a.2 ≠ .crash carriedOut env again) :
    Meets note Answered n acts := by
  induction acts generalizing n with
  | nil => trivial
  | cons a acts ih =>
    refine ⟨?_, ih fun b hb => h b (List.mem_cons_of_mem a hb)⟩
    intro carriedOut env again hact
    exact (h a (by simp) _ _ _ hact).elim

theorem addresses_changed_by_owners_handedOn :
    Meets note Rightful twoProjects handedOn ∧
      ((run note twoProjects handedOn).shared.ips.find 0).map PublicIp.projectId = some (some 1) := by
  have hhere : Meets note (fun n a => apartHere 2 n a = true) twoProjects handedOn := by
    decide
  have hcallers : ∀ a ∈ handedOn, a.1 < 2 := by decide
  have hcond : Meets note Apart twoProjects handedOn :=
    Meets.of_idle (hhere.mono fun n a _ h hidle => apart_of_here h hidle) (fun _ _ => rfl) hcallers
  have hdriver : Meets note Answered twoProjects handedOn := by
    apply answered_of_next
    simp [handedOn]
  exact ⟨(addresses_changed_by_owners _ _ handedOn hdriver hcond).1, by decide⟩

/-- The second release frees the address of the other project. -/
theorem address_freed_by_other_project :
    ((run note twoProjects releasedTwice).shared.ips.find 0).map PublicIp.projectId = some (some 1) ∧
      (run note twoProjects releasedTwice).operator 2 = some 0 ∧
      ((run note twoProjects (releasedTwice ++ [(2, .next {})])).shared.ips.find 0).map
        (fun ip => (ip.projectId, ip.status)) = some (none, .free) ∧
      Meets note Answered twoProjects (releasedTwice ++ [(2, .next {})]) ∧
      ¬ Meets note Rightful twoProjects (releasedTwice ++ [(2, .next {})]) := by
  have howner : ((run note twoProjects releasedTwice).shared.ips.find 0).map PublicIp.projectId =
      some (some 1) := by decide
  have hoperator : (run note twoProjects releasedTwice).operator 2 = some 0 := by decide
  have hfreed : ((run note twoProjects (releasedTwice ++ [(2, .next {})])).shared.ips.find 0).map
      (fun ip => (ip.projectId, ip.status)) = some (none, .free) := by decide
  refine ⟨howner, hoperator, hfreed, ?_, ?_⟩
  · apply answered_of_next
    simp [releasedTwice]
  · intro h
    have hlast := (meets_append.mp h).2.1
    obtain ⟨ip, hip, hproject⟩ := Option.map_eq_some_iff.mp howner
    obtain ⟨ip', hip', hnone⟩ := Option.map_eq_some_iff.mp hfreed
    rw [run_append, run_cons, run_nil] at hip'
    have hne : ip' ≠ ip := by
      rintro rfl
      cases (Prod.mk.inj hnone).1.symm.trans hproject
    have hsame := (hlast 0 ip ip' hip hip' hne).1 1 hproject
    cases hoperator.symm.trans hsame

end Prgd.Compute
