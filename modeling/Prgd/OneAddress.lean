import Prgd.AddressOwners
import Prgd.StuckServers

/-!
# One address for each server

`attach` and `reserveIp` look whether the server has an address and claim one later. The claim
compares the row of the address alone, so two claims for one server do not see each other.
-/
namespace Prgd.Compute
open Interleaving

/-- The server has no address but this one. -/
def Sole (c : Cloud) (s id : ℕ) : Prop :=
  ∀ id' ip, c.ips.find id' = some ip → ip.serverId = some s → id' = id

def Bare (c : Cloud) (s : ℕ) : Prop := ∀ id ip, c.ips.find id = some ip → ip.serverId ≠ some s

/-- `reserveIp` has seen that the server has no address. -/
def Stmt.reserving : Stmt → Bool
  | .ipCandidate _ _ | .ipClaim _ _ _ => true
  | _ => false

/-- The caller has seen that the server has no address, and gives it another than this one. -/
def Pc.seeks (id server : ℕ) : Pc → Bool
  | .attachClaim id' server' _ _ => server' = server ∧ id' ≠ id
  | .workflow f => f.server = server ∧ f.stmt.reserving = true
  | _ => false

/-- When an address is claimed for a server, nobody else is about to give it another one. -/
def Unrivalled (w : World) (a : ℕ × Act) : Prop :=
  match w.pc a.1 with
  | .attachClaim id server _ _ =>
      ((w.shared.ips.find id).any fun ip => ip.serverId = none) = true →
        ∀ q, q ≠ a.1 → (w.pc q).seeks id server = false
  | .workflow f =>
      match f.stmt with
      | .ipClaim _ _ id =>
          ((w.shared.ips.find id).any fun ip => ip.status = .free) = true →
            ∀ q, q ≠ a.1 → (w.pc q).seeks id f.server = false
      | _ => True
  | _ => True

def Pc.Seeking (c : Cloud) : Pc → Prop
  | .attachClaim id server _ _ => Sole c server id
  | .workflow f => f.stmt.reserving = true → Bare c f.server
  | _ => True

structure OneEach (w : World) : Prop where
  one : ∀ {id ip s}, w.shared.ips.find id = some ip → ip.serverId = some s → Sole w.shared s id
  calls : ∀ q, (w.pc q).Seeking w.shared

section
variable {c c' : Cloud} {act : Act} {pc pc' : Pc} {s id : ℕ}

theorem bare_of_hasIp (h : hasIp c s = none) : Bare c s := by
  intro id ip hip hs
  rw [hasIp, Option.map_eq_none_iff, List.find?_eq_none] at h
  exact h (id, ip) (Table.find_mem hip) (by simpa using hs)

theorem Bare.sole (h : Bare c s) : Sole c s id := fun id' ip hip hs => (h id' ip hip hs).elim

/-- No row has got the server. -/
def Unclaimed (c c' : Cloud) (s : ℕ) : Prop :=
  ∀ id ip', c'.ips.find id = some ip' → ip'.serverId = some s →
    ∃ ip, c.ips.find id = some ip ∧ ip.serverId = some s

theorem Unclaimed.bare (h : Unclaimed c c' s) (hbare : Bare c s) : Bare c' s := by
  intro id ip' hip' hs
  obtain ⟨ip, hip, hs⟩ := h id ip' hip' hs
  exact hbare id ip hip hs

theorem Unclaimed.sole (h : Unclaimed c c' s) (hsole : Sole c s id) : Sole c' s id := by
  intro id' ip' hip' hs
  obtain ⟨ip, hip, hs⟩ := h id' ip' hip' hs
  exact hsole id' ip hip hs

/-- A caller that claims an address for a server. -/
def Pc.Claims (c : Cloud) (id s : ℕ) : Pc → Prop
  | .attachClaim id' server _ _ =>
      id' = id ∧ server = s ∧ ((c.ips.find id).any fun ip => ip.serverId = none) = true
  | .workflow f => f.server = s ∧ (∃ r attempts, f.stmt = .ipClaim r attempts id) ∧
      ((c.ips.find id).any fun ip => ip.status = .free) = true
  | _ => False

/-- Only a claim gives a row its server. -/
theorem claimed_moves {ip' : PublicIp} (hmove : IpMoves c pc c'.ips)
    (hip' : c'.ips.find id = some ip') (hs : ip'.serverId = some s) :
    (∃ ip, c.ips.find id = some ip ∧ ip.serverId = some s) ∨ pc.Claims c id s := by
  obtain ⟨ip, hip, rfl | hwrite⟩ := hmove id ip' hip'
  · exact .inl ⟨_, hip, hs⟩
  · cases hwrite with
    | reserved hfree => exact .inl ⟨ip, hip, hs⟩
    | claimed hnone =>
      cases hs
      exact .inr ⟨rfl, rfl, by simp [hip, hnone]⟩
    | undone | detached | released => cases hs
    | assigned hstmt hfree =>
      cases hs
      exact .inr ⟨rfl, ⟨_, _, hstmt⟩, by simp [hip, hfree]⟩
    | dropped hstmt =>
      split_ifs at hs
      · cases hs
      · cases hs

theorem Pc.Seeking.sole (h : pc.Seeking c) (hclaims : pc.Claims c id s) : Sole c s id := by
  cases pc with
  | attachClaim id' server read ref =>
    obtain ⟨rfl, rfl, -⟩ := hclaims
    exact h
  | workflow f =>
    obtain ⟨rfl, ⟨r, attempts, hstmt⟩, -⟩ := hclaims
    exact (h (by rw [hstmt]; rfl)).sole
  | _ => exact hclaims.elim

theorem Pc.Claims.eq {id' : ℕ} (h : pc.Claims c id s) (h' : pc.Claims c id' s) : id' = id := by
  cases pc with
  | attachClaim _ server read ref => exact h'.1.symm.trans h.1
  | workflow f =>
    obtain ⟨-, ⟨r, attempts, hstmt⟩, -⟩ := h
    obtain ⟨-, ⟨r', attempts', hstmt'⟩, -⟩ := h'
    rw [hstmt] at hstmt'
    cases hstmt'
    rfl
  | _ => exact h.elim

/-- A step of the caller, seen from the addresses of a server: it claims none for the server, or
it claims one and the server has no other. -/
theorem claims_moves (h : pc.Seeking c) (hmove : IpMoves c pc c'.ips) (s : ℕ) :
    Unclaimed c c' s ∨ ∃ id, pc.Claims c id s ∧ Sole c' s id := by
  by_cases hclaims : ∃ id, pc.Claims c id s
  · obtain ⟨id, hclaims⟩ := hclaims
    refine .inr ⟨id, hclaims, fun id' ip' hip' hs => ?_⟩
    rcases claimed_moves hmove hip' hs with ⟨ip, hip, hs⟩ | hagain
    · exact h.sole hclaims id' ip hip hs
    · exact hclaims.eq hagain
  · refine .inl fun id ip' hip' hs => ?_
    rcases claimed_moves hmove hip' hs with hbefore | hclaim
    · exact hbefore
    · exact (hclaims ⟨id, hclaim⟩).elim

theorem reserving_goto {key : ℕ} {env : Env} {st st' : Stmt}
    (hgoto : (exec c s key env st).2 = .goto st') (hreserving : st'.reserving = true) :
    (exec c s key env st).1 = .none ∧ (st.reserving = true ∨ hasIp c s = none) := by
  cases st with
  | ipLoad =>
    simp only [exec, load] at hgoto ⊢
    split at hgoto
    · cases hgoto
    · next r hr =>
      split_ifs at hgoto with hip
      exact ⟨rfl, .inr (by simpa using hip)⟩
  | ipCandidate r attempts =>
    simp only [exec, next] at hgoto ⊢
    split at hgoto <;> cases hgoto
    exact ⟨rfl, .inl rfl⟩
  | ipClaim r attempts id =>
    simp only [exec, next] at hgoto ⊢
    split_ifs at hgoto ⊢
    exact ⟨rfl, .inl rfl⟩
  | _ =>
    simp only [exec, load, withVm, next] at hgoto
    (repeat' split at hgoto) <;> cases hgoto <;> cases hreserving

theorem reserving_swallow {st st' : Stmt} (h : swallow st = some (.goto st')) :
    st'.reserving = false := by
  cases st with
  | compFind r host | syncAsk ref =>
    cases h
    rfl
  | compDelete r refs =>
    cases refs with
    | nil => cases h
    | cons ref refs =>
      cases h
      rfl
  | _ => cases h

theorem seeking_begin (c : Cloud) (call : Call) : (begin c call).Seeking c := by
  cases call with
  | create dto | reserve projectId regionId => trivial
  | action id type =>
    cases type with
    | create => trivial
    | _ =>
      simp only [begin, readServer]
      (repeat' split) <;> trivial
  | attach projectId id server | detach projectId id | releaseReserved projectId id =>
    simp only [begin, ownIp]
    (repeat' split) <;> trivial

theorem seeking_start {f : Workflow} {a : Activity} (hstmt : f.stmt = a.start) :
    Pc.Seeking c (.workflow f) := by
  intro hreserving
  rw [hstmt] at hreserving
  cases a <;> cases hreserving

theorem seeking_workflow {f : Workflow} {write : Write} {out : Outcome}
    (h : Pc.Seeking c (.workflow f)) (htook : Took c f act write out) :
    (Pc.after (f.advance out)).Seeking (c.apply f.server write) := by
  cases hadvance : f.advance out with
  | none => trivial
  | some f' =>
    rcases stmt_advance hadvance with hgoto | ⟨a, hstart⟩
    · intro hreserving
      rw [server_advance hadvance]
      cases htook with
      | well env =>
        obtain ⟨hnone, hbefore⟩ := reserving_goto hgoto hreserving
        rw [hnone]
        rcases hbefore with hbefore | hip
        · exact h hbefore
        · exact bare_of_hasIp hip
      | crashed carriedOut env again => split_ifs at hgoto
      | caught carriedOut env hout =>
        rw [hgoto] at hout
        cases (reserving_swallow hout).symm.trans hreserving
    · exact seeking_start hstart

/-- The caller that moves has seen what is still so. -/
theorem seeking_moves (h : pc.Seeking c) (hmoves : Moves c act pc c' pc') : pc'.Seeking c' := by
  cases hmoves with
  | call error call => exact seeking_begin c call
  | insert env dto | intent env id type read | startFailed env id => trivial
  | started env id type before =>
    cases hstart : startWorkflow id c.nextWorkflow type with
    | none => trivial
    | some f =>
      obtain ⟨a, hstmt⟩ := stmt_begin hstart
      exact seeking_start hstmt
  | unstarted id type before => split_ifs <;> trivial
  | workflow htook => exact seeking_workflow h htook
  | addressed haddressing hstep =>
    cases pc with
    | reserveFind projectId regionId attempts =>
      simp only [nextPc] at hstep
      split at hstep <;> cases hstep <;> trivial
    | reserveClaim projectId regionId attempts id | attachClaim id server read ref
    | attachUndo id server =>
      simp only [nextPc] at hstep
      split_ifs at hstep <;> cases hstep <;> trivial
    | attachServer projectId id server ip =>
      cases hstep
      rcases readAttach_cases c projectId id server ip with ⟨error, hthrows⟩ |
        ⟨r, ref, hclaim, -, -, -, hip⟩
      · rw [hthrows]
        trivial
      · rw [hclaim]
        exact (bare_of_hasIp hip).sole
    | detachServer id server =>
      cases hstep
      unfold readDetach
      (repeat' split) <;> trivial
    | attachDriver id server read ref | detachDriver id server read ref | detachWrite id server
    | releaseWrite id =>
      cases hstep
      trivial
    | _ => cases haddressing
  | addressFailed haddressing hstep =>
    cases pc with
    | attachDriver id server read ref | detachDriver id server read ref =>
      cases hstep
      trivial
    | workflow f => cases haddressing
    | _ => cases hstep

end

section
variable {w : World} {a : ℕ × Act}

/-- Nobody else is about to give the server another address. -/
theorem unrivalled_seeks (hcond : Unrivalled w a) {id s : ℕ}
    (hclaims : (w.pc a.1).Claims w.shared id s) {q : ℕ} (hq : q ≠ a.1) :
    (w.pc q).seeks id s = false := by
  cases hpc : w.pc a.1 with
  | attachClaim id' server read ref =>
    rw [hpc] at hclaims
    obtain ⟨rfl, rfl, hnone⟩ := hclaims
    simp only [Unrivalled, hpc] at hcond
    exact hcond hnone q hq
  | workflow f =>
    rw [hpc] at hclaims
    obtain ⟨rfl, ⟨r, attempts, hstmt⟩, hfree⟩ := hclaims
    simp only [Unrivalled, hpc, hstmt] at hcond
    exact hcond hfree q hq
  | _ =>
    rw [hpc] at hclaims
    exact hclaims.elim

theorem seeking_others {c : Cloud} {pc : Pc} (h : OneEach w) (hcond : Unrivalled w a)
    (hmoves : Moves w.shared a.2 (w.pc a.1) c pc) {q : ℕ} (hq : q ≠ a.1) : (w.pc q).Seeking c := by
  have hmine := h.calls q
  have hown := fun s => claims_moves (h.calls a.1) (ipMoves_moves hmoves) s
  cases hpc : w.pc q with
  | attachClaim id server read ref =>
    rw [hpc] at hmine
    rcases hown server with hunclaimed | ⟨id', hclaims, hsole⟩
    · exact hunclaimed.sole hmine
    · have hseeks := unrivalled_seeks hcond hclaims hq
      rw [hpc] at hseeks
      have hid : id = id' := by simpa [Pc.seeks] using hseeks
      rw [hid]
      exact hsole
  | workflow f =>
    rw [hpc] at hmine
    intro hreserving
    rcases hown f.server with hunclaimed | ⟨id', hclaims, -⟩
    · exact hunclaimed.bare (hmine hreserving)
    · have hseeks := unrivalled_seeks hcond hclaims hq
      rw [hpc] at hseeks
      simp [Pc.seeks, hreserving] at hseeks
  | _ => trivial

theorem oneEach_step (hcond : Unrivalled w a) (h : OneEach w) : OneEach (step w a) := by
  rcases callerStep_cases trans w a with heq | ⟨c, pc, ht, heq⟩
  · rw [step, heq]
    exact h
  rw [step, heq]
  have hmoves := trans_moves ht
  refine ⟨?_, update_cases (P := fun _ (pc : Pc) => pc.Seeking c) (seeking_moves (h.calls a.1) hmoves)
    fun q hq => seeking_others h hcond hmoves hq⟩
  intro id ip s hip hs
  rcases claims_moves (h.calls a.1) (ipMoves_moves hmoves) s with hunclaimed | ⟨id', hclaims, hsole⟩
  · obtain ⟨ip₀, hip₀, hs₀⟩ := hunclaimed id ip hip hs
    exact hunclaimed.sole (h.one hip₀ hs₀)
  · rw [hsole id ip hip hs]
    exact hsole

theorem oneEach_init (hosts : Table ℕ Scheduler.Host) (ips : Table ℕ PublicIp) :
    OneEach (start hosts ips) where
  one := by
    intro id ip s hip hs
    simp only [start, Table.find_amend] at hip
    obtain ⟨ip₀, -, rfl⟩ := Option.map_eq_some_iff.mp hip
    cases hs
  calls := fun _ => trivial

end

/-- In every run in which an address is claimed for a server only when nobody else has seen the
server without an address and is about to claim another one: no server has two addresses. -/
theorem one_address_per_server (hosts : Table ℕ Scheduler.Host) (ips : Table ℕ PublicIp)
    (acts : List (ℕ × Act)) (h : Meets step Unrivalled (start hosts ips) acts) (s id id' : ℕ)
    (ip ip' : PublicIp) (hip : (run step (start hosts ips) acts).shared.ips.find id = some ip)
    (hip' : (run step (start hosts ips) acts).shared.ips.find id' = some ip')
    (hs : ip.serverId = some s) (hs' : ip'.serverId = some s) : id = id' := by
  have hrun := h.invariant (I := OneEach) (fun _ _ hcond hw => oneEach_step hcond hw)
    (oneEach_init hosts ips)
  exact hrun.one hip' hs' id ip hip hs

/-! ## Two addresses for one server -/

def threeIps : Table ℕ PublicIp :=
  ((Table.empty.put 0 { regionId := 0 }).put 1 { regionId := 0 }).put 2 { regionId := 0 }

/-- A server, whose address is detached, and two more addresses of its project. -/
def detachedServer : List (ℕ × Act) :=
  created ++ [(0, .call (.reserve 0 0)), (0, .next {}), (0, .next {}), (0, .call (.reserve 0 0)),
    (0, .next {}), (0, .next {}), (0, .call (.detach 0 0))] ++ List.replicate 3 (0, .next {})

/-- An attach up to its claim. -/
def attaching (q id : ℕ) : List (ℕ × Act) := [(q, .call (.attach 0 id 1)), (q, .next {})]

/-- The claim and the call of the driver. -/
def attached (q : ℕ) : List (ℕ × Act) := [(q, .next {}), (q, .next {})]

def attachedInTurn : List (ℕ × Act) :=
  detachedServer ++ attaching 0 1 ++ attached 0 ++ attaching 1 2 ++ attached 1

def attachedAtOnce : List (ℕ × Act) :=
  detachedServer ++ attaching 0 1 ++ attaching 1 2 ++ attached 0 ++ attached 1

def serverOf (acts : List (ℕ × Act)) (id : ℕ) : Option (Option ℕ) :=
  ((run step (start oneHost threeIps) acts).shared.ips.find id).map PublicIp.serverId

/-- `Unrivalled` where no more than `n` callers act. -/
def unrivalledHere (n : ℕ) (w : World) (a : ℕ × Act) : Bool :=
  let others (id server : ℕ) := (List.range n).all fun q => q = a.1 ∨ (w.pc q).seeks id server = false
  match w.pc a.1 with
  | .attachClaim id server _ _ => others id server
  | .workflow f =>
      match f.stmt with
      | .ipClaim _ _ id => others id f.server
      | _ => true
  | _ => true

theorem unrivalled_of_here {n : ℕ} {w : World} {a : ℕ × Act} (h : unrivalledHere n w a = true)
    (hidle : ∀ q, n ≤ q → w.pc q = .rest none) : Unrivalled w a := by
  have hothers : ∀ {id server}, ((List.range n).all fun q => q = a.1 ∨ (w.pc q).seeks id server = false) =
      true → ∀ q, q ≠ a.1 → (w.pc q).seeks id server = false := by
    intro id server hall q hq
    by_cases hlt : q < n
    · simpa [hq] using List.all_eq_true.mp hall q (List.mem_range.mpr hlt)
    · rw [hidle q (by omega)]
      rfl
  cases hpc : w.pc a.1 with
  | attachClaim id server read ref =>
    simp only [unrivalledHere, hpc] at h
    simp only [Unrivalled, hpc]
    exact fun _ => hothers h
  | workflow f =>
    simp only [unrivalledHere, hpc] at h
    simp only [Unrivalled, hpc]
    split
    · next hstmt =>
      simp only [hstmt] at h
      exact fun _ => hothers h
    · trivial
  | _ => simp only [Unrivalled, hpc]

/-- The second attach finds that the server has an address. -/
theorem one_address_per_server_inTurn :
    serverOf attachedInTurn 1 = some (some 1) ∧ serverOf attachedInTurn 2 ≠ some (some 1) := by
  have hfirst : serverOf attachedInTurn 1 = some (some 1) := by decide
  refine ⟨hfirst, fun hsecond => ?_⟩
  have hhere : Meets step (fun w a => unrivalledHere 2 w a = true) (start oneHost threeIps)
      attachedInTurn := by decide
  have hcallers : ∀ a ∈ attachedInTurn, a.1 < 2 := by decide
  have hcond : Meets step Unrivalled (start oneHost threeIps) attachedInTurn :=
    Meets.of_idle (hhere.mono fun w a _ h hidle => unrivalled_of_here h hidle) (fun _ _ => rfl) hcallers
  obtain ⟨ip, hip, hs⟩ := Option.map_eq_some_iff.mp hfirst
  obtain ⟨ip', hip', hs'⟩ := Option.map_eq_some_iff.mp hsecond
  cases one_address_per_server oneHost threeIps attachedInTurn hcond 1 1 2 ip ip' hip hip' hs hs'

theorem two_addresses_at_once :
    serverOf detachedServer 0 = some none ∧ serverOf attachedAtOnce 1 = some (some 1) ∧
      serverOf attachedAtOnce 2 = some (some 1) :=
  ⟨by decide, by decide, by decide⟩

end Prgd.Compute
