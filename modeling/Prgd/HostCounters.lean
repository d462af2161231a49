import Prgd.StuckServers

/-!
# The counters of the hosts

An activity changes the counters of a host in one statement and the row that says so in
another. The ledger of a server is what its activities have added to each host. Outside of
these two statements it is the size of the server on the host of its row; an activity that
is interrupted between them starts again from the row and counts twice.
-/
namespace Prgd.Compute
open Interleaving
open Scheduler (Resource Size Host)

/-! ## Statements that count -/

/-- The host and the size that a statement which counts, or which says what was counted, takes
the row to have. -/
def Stmt.assumes : Stmt → Option (Option ℕ × Size)
  | .placeReserve r _ | .placeWrite r _ => some (none, r.size)
  | .placeRecord r host => some (some host, r.size)
  | .giveBack _ r | .clear _ r => some (r.hostId, r.size)
  | .sizeGive _ r host | .sizeTake _ r host | .sizeRow _ r host => some (some host, r.size)
  | _ => none

/-- An amount on one host. -/
def amountOn (host : ℕ) (size : Size) : ℕ → Resource → ℤ :=
  fun id x => if id = host then size.amount x else 0

/-- The ledger of the server where an activity has counted and not yet written the row. -/
def Stmt.counted : Stmt → Option (ℕ → Resource → ℤ)
  | .placeWrite r host => some (amountOn host r.size)
  | .clear _ r => if r.hostId.isSome then some fun _ _ => 0 else none
  | .sizeTake _ _ _ => some fun _ _ => 0
  | .sizeRow size _ host => some (amountOn host size)
  | _ => none

/-- The caller stands between the counters and the row of the server. -/
def Pc.between (s : ℕ) : Pc → Bool
  | .workflow w => w.server = s ∧ w.stmt.counted.isSome
  | _ => false

/-- Whether an interruption of a statement, carried out or not, leaves counters and row apart. -/
def Stmt.torn (carriedOut : Bool) : Stmt → Bool
  | .placeReserve _ _ | .sizeGive _ _ _ => carriedOut
  | .giveBack _ r => carriedOut && r.hostId.isSome
  | .placeWrite _ _ | .sizeRow _ _ _ => ¬ carriedOut
  | .clear _ r => ¬ carriedOut && r.hostId.isSome
  | .sizeTake _ _ _ => true
  | _ => false

/-- A statement that counts, or that says what was counted, finds the row as its activity has
loaded it and no other activity of the server between its counters and its row; and no activity
is interrupted there. -/
def Calm (w : World) (a : ℕ × Act) : Prop :=
  ∀ f, w.pc a.1 = .workflow f →
    (f.stmt.assumes.all fun e => (w.shared.servers.find f.server).any fun r =>
      r.hostId = e.1 ∧ r.size = e.2) = true ∧
    (f.stmt.assumes.isSome → ∀ q, q ≠ a.1 → (w.pc q).between f.server = false) ∧
    ∀ carriedOut env again, a.2 = .crash carriedOut env again → f.stmt.torn carriedOut = false

/-! ## What the statements do -/

/-- A write that counts nothing and leaves the host and the size of the row. -/
def Write.plain : Write → Bool
  | .server p => p.hostId.isNone && p.size.isNone
  | .host _ _ => false
  | _ => true

def Stmt.Plain (st : Stmt) : Prop :=
  match st with
  | .write p => (Write.server p).plain = true
  | _ => True

section
variable {c : Cloud} {s key : ℕ} {env : Env} {st st' : Stmt}

theorem plain_start (a : Activity) : a.start.Plain := by
  cases a with
  | setStatus status | setImage => exact rfl
  | _ => trivial

theorem counted_start (a : Activity) : a.start.counted = none := by
  cases a <;> rfl

theorem plain_exec (hplain : st.Plain) (h : st.assumes = none) :
    (exec c s key env st).1.plain = true := by
  cases st with
  | write p => exact hplain
  | placeReserve r host | placeWrite r host | placeRecord r host | giveBack ending r
  | clear ending r | sizeGive size r host | sizeTake size r host | sizeRow size r host => cases h
  | _ =>
    simp only [exec, load, withVm, next]
    (repeat' split) <;> rfl

theorem goto_exec {w : Write} (h : exec c s key env st = (w, .goto st')) :
    st'.Plain ∧ (st.assumes = none → st'.counted = none) := by
  cases st with
  | placeReserve r host | placeWrite r host | placeRecord r host | giveBack ending r
  | clear ending r | sizeGive size r host | sizeTake size r host | sizeRow size r host =>
    simp only [exec, next] at h
    (repeat' split at h) <;> cases h <;> exact ⟨trivial, fun hnone => by cases hnone⟩
  | _ =>
    simp only [exec, load, withVm, next] at h
    (repeat' split at h) <;> cases h <;> exact ⟨trivial, fun _ => rfl⟩

theorem goto_swallow {out : Outcome} (h : swallow st = some out) :
    st.assumes = none ∧ ∃ st', out = .goto st' ∧ st'.Plain ∧ st'.counted = none := by
  cases st with
  | compFind r host | syncAsk ref =>
    cases h
    exact ⟨rfl, _, rfl, trivial, rfl⟩
  | compDelete r refs =>
    cases refs with
    | nil => cases h
    | cons ref refs =>
      cases h
      exact ⟨rfl, _, rfl, trivial, rfl⟩
  | _ => cases h

end

/-! ## The ledger of a server -/

/-- The ledger says what the row says. -/
def Balanced (r : Server) (ledger : ℕ → Resource → ℤ) : Prop :=
  ∀ id x, ledger id x = if r.hostId = some id then r.size.amount x else 0

/-- A caller whose statement has counted: it is the only one, and the ledger is as it says. -/
def Counting (w : World) (s q : ℕ) : Prop :=
  ∃ f, w.pc q = .workflow f ∧ f.server = s ∧ f.stmt.counted = some (w.shared.ledger s) ∧
    ∀ q', q' ≠ q → (w.pc q').between s = false

def Idle (w : World) (s : ℕ) : Prop := ∀ q, (w.pc q).between s = false

/-- Row and ledger of a server agree, or one caller stands between them. -/
def Accounted (w : World) (s : ℕ) (r : Server) : Prop :=
  Idle w s ∧ Balanced r (w.shared.ledger s) ∨ ∃ q, Counting w s q

/-- The row that a caller works on is there. -/
def Pc.Known (c : Cloud) : Pc → Prop
  | .intent id _ _ | .starting id _ _ | .startFailed id => (c.servers.find id).isSome
  | .workflow w => (c.servers.find w.server).isSome
  | _ => True

def Pc.Plain : Pc → Prop
  | .workflow w => w.stmt.Plain
  | _ => True

/-- What the ledgers of all servers add to a host. -/
def ledgerSum (c : Cloud) (id : ℕ) (x : Resource) : ℤ := c.servers.sum fun s _ => c.ledger s id x

/-- Each host has what it had, and what the ledgers add. -/
def Tallied (hosts : Table ℕ Host) (c : Cloud) : Prop :=
  ∀ id h₀ h, hosts.find id = some h₀ → c.hosts.find id = some h →
    ∀ x, h.used x = h₀.used x + ledgerSum c id x

structure Counted (hosts : Table ℕ Host) (w : World) : Prop where
  tallied : Tallied hosts w.shared
  accounted : ∀ {s r}, w.shared.servers.find s = some r → Accounted w s r
  unknown : ∀ {s}, w.shared.servers.find s = none → w.shared.ledger s = fun _ _ => 0
  known : ∀ q, (w.pc q).Known w.shared
  plain : ∀ q, (w.pc q).Plain

/-! ## One statement -/

/-- The ledger of a server whose caller stands in front of a statement. -/
def Agrees (st : Stmt) (r : Server) (ledger : ℕ → Resource → ℤ) : Prop :=
  match st.counted with
  | some l => ledger = l
  | none => Balanced r ledger

theorem agrees_of_counted {st : Stmt} {r : Server} {ledger : ℕ → Resource → ℤ}
    (h : st.counted = none) (hb : Balanced r ledger) : Agrees st r ledger := by
  rw [Agrees, h]
  exact hb

theorem ledger_apply (c : Cloud) (s t : ℕ) (w : Write) :
    (c.apply s w).ledger t =
      match w with
      | .host id amount => if t = s then Function.update (c.ledger s) id
          (fun x => c.ledger s id x + amount x) else c.ledger t
      | _ => c.ledger t := by
  cases w with
  | host id amount =>
    by_cases ht : t = s
    · subst ht
      simp [Cloud.apply]
    · simp [Cloud.apply, ht]
  | privateIp address => cases address <;> rfl
  | none | server p | ip id g | createVm vm | editVm ref g | deleteVm ref => rfl

theorem ledger_of_ne {c : Cloud} {s t : ℕ} {w : Write} (h : t ≠ s) :
    (c.apply s w).ledger t = c.ledger t := by
  rw [ledger_apply]
  cases w with
  | host id amount => exact if_neg h
  | _ => rfl

theorem find_of_ne {c : Cloud} {s t : ℕ} {w : Write} (h : t ≠ s) :
    (c.apply s w).servers.find t = c.servers.find t := by
  rw [find_apply]
  cases w with
  | server p => exact if_neg h
  | _ => rfl

theorem plain_ledger {c : Cloud} {s : ℕ} {w : Write} (h : w.plain = true) (t : ℕ) :
    (c.apply s w).ledger t = c.ledger t := by
  rw [ledger_apply]
  cases w with
  | host id amount => cases h
  | _ => rfl

theorem plain_row {c : Cloud} {s t : ℕ} {w : Write} {r' : Server} (h : w.plain = true)
    (hr' : (c.apply s w).servers.find t = some r') :
    ∃ r, c.servers.find t = some r ∧ r'.hostId = r.hostId ∧ r'.size = r.size := by
  rw [find_apply] at hr'
  cases w with
  | server p =>
    simp only at hr'
    split_ifs at hr'
    · obtain ⟨r, hr, rfl⟩ := Option.map_eq_some_iff.mp hr'
      simp only [Write.plain, Bool.and_eq_true, Option.isNone_iff_eq_none] at h
      exact ⟨r, hr, by simp [Server.patch, h.1], by simp [Server.patch, h.2]⟩
    · exact ⟨r', hr', rfl, rfl⟩
  | _ => exact ⟨r', hr', rfl, rfl⟩

theorem Balanced.congr {r r' : Server} {ledger : ℕ → Resource → ℤ} (h : Balanced r ledger)
    (hhost : r'.hostId = r.hostId) (hsize : r'.size = r.size) : Balanced r' ledger := by
  intro id x
  rw [h id x, hhost, hsize]

/-- Counting for a server that is on no host. -/
theorem Balanced.add {r : Server} {ledger : ℕ → Resource → ℤ} (h : Balanced r ledger)
    (hnone : r.hostId = none) (host : ℕ) (size : Size) :
    Function.update ledger host (fun x => ledger host x + size.amount x) = amountOn host size := by
  funext id x
  have hzero : ∀ id x, ledger id x = 0 := by
    intro id x
    rw [h id x, hnone, if_neg (by simp)]
  by_cases hid : id = host
  · subst hid
    simp [amountOn, hzero]
  · simp [amountOn, hid, hzero]

/-- Giving back what the server has on its host. -/
theorem Balanced.sub {r : Server} {ledger : ℕ → Resource → ℤ} (h : Balanced r ledger) {host : ℕ}
    (hhost : r.hostId = some host) :
    Function.update ledger host (fun x => ledger host x + - r.size.amount x) = fun _ _ => 0 := by
  funext id x
  by_cases hid : id = host
  · subst hid
    simp [h id x, hhost]
  · simp [Function.update_of_ne hid, h id x, hhost, Ne.symm hid]

theorem balanced_amountOn {r : Server} {host : ℕ} {size : Size} (hhost : r.hostId = some host)
    (hsize : r.size = size) : Balanced r (amountOn host size) := by
  intro id x
  rw [hhost, hsize, amountOn]
  by_cases hid : id = host
  · simp [hid]
  · simp [hid, Ne.symm hid]

theorem balanced_zero {r : Server} (hnone : r.hostId = none) : Balanced r fun _ _ => 0 := by
  intro id x
  simp [hnone]

theorem amountOn_zero (host : ℕ) (size : Size) :
    Function.update (fun _ _ => 0 : ℕ → Resource → ℤ) host (fun x => 0 + size.amount x) =
      amountOn host size := by
  funext id x
  by_cases hid : id = host
  · subst hid
    simp [amountOn]
  · simp [amountOn, hid]

section
variable {c : Cloud} {s key : ℕ} {env : Env} {st : Stmt} {r r' : Server}

/-- A write that leaves the rows alone. -/
theorem row_of_host {id : ℕ} {amount : Resource → ℤ}
    (h : (c.apply s (.host id amount)).servers.find s = some r') (hr : c.servers.find s = some r) :
    r' = r := by
  rw [find_apply, hr] at h
  exact (Option.some.inj h).symm

theorem row_of_patch {p : Patch} (h : (c.apply s (.server p)).servers.find s = some r')
    (hr : c.servers.find s = some r) : r' = r.patch p := by
  rw [find_apply] at h
  simp only [if_true, hr] at h
  exact (Option.some.inj h).symm

/-- The ledger agrees with the row before and after a statement that counts, or that says what
was counted. -/
theorem agrees_exec (hr : c.servers.find s = some r) {e : Option ℕ × Size} (he : st.assumes = some e)
    (hhost : r.hostId = e.1) (hsize : r.size = e.2) (hagrees : Agrees st r (c.ledger s))
    (hr' : (c.apply s (exec c s key env st).1).servers.find s = some r') :
    match (exec c s key env st).2 with
    | .goto st' => Agrees st' r' ((c.apply s (exec c s key env st).1).ledger s)
    | _ => Balanced r' ((c.apply s (exec c s key env st).1).ledger s) := by
  cases st with
  | placeReserve r₀ host =>
    cases he
    cases row_of_host hr' hr
    have hbalanced : Balanced r (c.ledger s) := hagrees
    have hledger := ledger_apply c s s (.host host r₀.size.amount)
    simp only [if_true] at hledger
    exact hledger.trans (hbalanced.add hhost host r₀.size)
  | placeWrite r₀ host =>
    cases he
    cases row_of_patch hr' hr
    have hledger : c.ledger s = amountOn host r₀.size := hagrees
    show Balanced _ (c.ledger s)
    rw [hledger]
    exact balanced_amountOn rfl hsize
  | placeRecord r₀ host =>
    cases he
    cases row_of_patch hr' hr
    have hbalanced : Balanced r (c.ledger s) := hagrees
    exact hbalanced.congr hhost.symm rfl
  | giveBack ending r₀ =>
    cases he
    have hbalanced : Balanced r (c.ledger s) := hagrees
    cases hhost₀ : r₀.hostId with
    | none =>
      simp only [exec, hhost₀, next, Cloud.apply] at hr' ⊢
      cases hr.symm.trans hr'
      exact agrees_of_counted (by simp [Stmt.counted, hhost₀]) hbalanced
    | some host =>
      simp only [exec, hhost₀] at hr' ⊢
      cases row_of_host hr' hr
      have hledger := ledger_apply c s s (.host host fun x => - r₀.size.amount x)
      simp only [if_true] at hledger
      rw [Agrees]
      simp only [Stmt.counted, hhost₀, Option.isSome_some, if_true]
      have hsub := hbalanced.sub (hhost.trans hhost₀)
      rw [hsize] at hsub
      exact hledger.trans hsub
  | clear ending r₀ =>
    cases he
    have hrow := row_of_patch hr' hr
    have hnone : r'.hostId = none := by
      rw [hrow]
      cases ending <;> rfl
    cases hhost₀ : r₀.hostId with
    | none =>
      have hbalanced : Balanced r (c.ledger s) := by
        rw [Agrees, Stmt.counted, hhost₀] at hagrees
        exact hagrees
      refine hbalanced.congr (hnone.trans (hhost.trans hhost₀).symm) ?_
      rw [hrow]
      cases ending <;> rfl
    | some host =>
      have hledger : c.ledger s = fun _ _ => 0 := by
        rw [Agrees, Stmt.counted, hhost₀] at hagrees
        exact hagrees
      show Balanced r' (c.ledger s)
      rw [hledger]
      exact balanced_zero hnone
  | sizeGive size r₀ host =>
    cases he
    cases row_of_host hr' hr
    have hbalanced : Balanced r (c.ledger s) := hagrees
    have hledger := ledger_apply c s s (.host host fun x => - r₀.size.amount x)
    simp only [if_true] at hledger
    have hsub := hbalanced.sub hhost
    rw [hsize] at hsub
    exact hledger.trans hsub
  | sizeTake size r₀ host =>
    cases he
    have hzero : c.ledger s = fun _ _ => 0 := hagrees
    have hledger := ledger_apply c s s (.host host size.amount)
    simp only [if_true, hzero] at hledger
    exact hledger.trans (amountOn_zero host size)
  | sizeRow size r₀ host =>
    cases he
    cases row_of_patch hr' hr
    have hledger : c.ledger s = amountOn host size := hagrees
    show Balanced _ (c.ledger s)
    rw [hledger]
    exact balanced_amountOn hhost rfl
  | _ => cases he

theorem counted_of_not_torn (h : st.torn false = false) : st.counted = none := by
  cases st with
  | clear ending r =>
    have hnone : r.hostId.isSome = false := by simpa [Stmt.torn] using h
    simp [Stmt.counted, hnone]
  | placeWrite r host | sizeTake size r host | sizeRow size r host => cases h
  | _ => rfl

/-- After a statement that may be interrupted when it was carried out, nothing is in between. -/
theorem goto_of_not_torn {st' : Stmt} {w : Write} (h : st.torn true = false)
    (hexec : exec c s key env st = (w, .goto st')) : st'.counted = none := by
  cases st with
  | giveBack ending r =>
    have hnone : r.hostId = none := by simpa [Stmt.torn] using h
    simp only [exec, hnone, next] at hexec
    cases hexec
    simp [Stmt.counted, hnone]
  | placeReserve r host | sizeGive size r host | sizeTake size r host => cases h
  | placeWrite r host =>
    cases hexec
    rfl
  | placeRecord r host | clear ending r | sizeRow size r host => cases hexec
  | _ => exact (goto_exec hexec).2 rfl

end

theorem counted_of_assumes {st : Stmt} (h : st.assumes = none) : st.counted = none := by
  cases st with
  | placeWrite r host | clear ending r | sizeTake size r host | sizeRow size r host => cases h
  | _ => rfl

/-! ## One step -/

theorem between_begin (f : Workflow) (l : List Activity) (t : ℕ) :
    (Pc.after (f.begin l)).between t = false := by
  cases l with
  | nil => rfl
  | cons a rest =>
    show decide (f.server = t ∧ a.start.counted.isSome = true) = false
    simp [counted_start]

theorem between_after (f : Workflow) (out : Outcome) (t : ℕ)
    (h : ∀ st, out = .goto st → f.server = t → st.counted = none) :
    (Pc.after (f.advance out)).between t = false := by
  cases out with
  | goto st =>
    show decide (f.server = t ∧ st.counted.isSome = true) = false
    by_cases ht : f.server = t
    · simp [h st rfl ht]
    · simp [ht]
  | again =>
    show decide (f.server = t ∧ f.activity.start.counted.isSome = true) = false
    simp [counted_start]
  | done running => exact between_begin _ _ _
  | fail =>
    simp only [Workflow.advance]
    split_ifs
    · exact between_begin _ _ _
    · rfl

section
variable {w : World} {q t : ℕ} {c' : Cloud} {pc' : Pc} {r r' : Server}

theorem between_of_counting (h : Counting w t q) : (w.pc q).between t = true := by
  obtain ⟨f, hpc, hserver, hcounted, -⟩ := h
  rw [hpc]
  simp [Pc.between, hserver, hcounted]

/-- A caller that is not between the counters and the row moves, and leaves both. -/
theorem accounted_quiet (h : Accounted w t r) (hledger : c'.ledger t = w.shared.ledger t)
    (hhost : r'.hostId = r.hostId) (hsize : r'.size = r.size)
    (hbefore : (w.pc q).between t = false) (hafter : pc'.between t = false) :
    Accounted ⟨c', Function.update w.pc q pc'⟩ t r' := by
  rcases h with ⟨hidle, hbalanced⟩ | ⟨p, hcounting⟩
  · refine .inl ⟨?_, ?_⟩
    · exact update_cases (P := fun _ (pc : Pc) => pc.between t = false) hafter fun q' _ => hidle q'
    · show Balanced r' (c'.ledger t)
      rw [hledger]
      exact hbalanced.congr hhost hsize
  · have hp : p ≠ q := by
      rintro rfl
      cases (between_of_counting hcounting).symm.trans hbefore
    obtain ⟨f, hpc, hserver, hcounted, hothers⟩ := hcounting
    refine .inr ⟨p, f, ?_, hserver, ?_, ?_⟩
    · simpa [Function.update_of_ne hp] using hpc
    · show f.stmt.counted = some (c'.ledger t)
      rw [hledger]
      exact hcounted
    · intro q' hq'
      by_cases hq : q' = q
      · subst hq
        simpa using hafter
      · simpa [Function.update_of_ne hq] using hothers q' hq'

/-- With nobody else in between, row and ledger are as the statement of the caller says. -/
theorem agrees_of_accounted {f : Workflow} (h : Accounted w f.server r) (hpc : w.pc q = .workflow f)
    (hothers : ∀ q', q' ≠ q → (w.pc q').between f.server = false) :
    Agrees f.stmt r (w.shared.ledger f.server) := by
  rcases h with ⟨hidle, hbalanced⟩ | ⟨p, hcounting⟩
  · have hnone : f.stmt.counted = none := by simpa [Pc.between, hpc] using hidle q
    exact agrees_of_counted hnone hbalanced
  · have hp : p = q := by
      by_contra hne
      cases (between_of_counting hcounting).symm.trans (hothers p hne)
    subst hp
    obtain ⟨f', hpc', -, hcounted, -⟩ := hcounting
    cases hpc.symm.trans hpc'
    rw [Agrees, hcounted]

theorem accounted_balanced (hothers : ∀ q', q' ≠ q → (w.pc q').between t = false)
    (hafter : pc'.between t = false) (h : Balanced r' (c'.ledger t)) :
    Accounted ⟨c', Function.update w.pc q pc'⟩ t r' :=
  .inl ⟨update_cases (P := fun _ (pc : Pc) => pc.between t = false) hafter hothers, h⟩

theorem accounted_goto {f : Workflow} {st : Stmt}
    (hothers : ∀ q', q' ≠ q → (w.pc q').between f.server = false)
    (h : Agrees st r' (c'.ledger f.server)) :
    Accounted ⟨c', Function.update w.pc q (.after (f.advance (.goto st)))⟩ f.server r' := by
  cases hcounted : st.counted with
  | none =>
    rw [Agrees, hcounted] at h
    refine accounted_balanced hothers (between_after _ _ _ ?_) h
    intro st' hst' _
    cases hst'
    exact hcounted
  | some l =>
    rw [Agrees, hcounted] at h
    refine .inr ⟨q, { f with stmt := st }, by simp [Pc.after, Workflow.advance], rfl, ?_, ?_⟩
    · show st.counted = some (c'.ledger f.server)
      rw [hcounted, h]
    · intro q' hq'
      simpa [Function.update_of_ne hq'] using hothers q' hq'

/-- A step of a workflow that neither counts nor says what was counted. -/
theorem plain_took {f : Workflow} {act : Act} {write : Write} {out : Outcome}
    (h : Took w.shared f act write out) (hplain : f.stmt.Plain) (hassumes : f.stmt.assumes = none) :
    write.plain = true ∧ ∀ st, out = .goto st → st.counted = none := by
  have hexec : ∀ env, (exec w.shared f.server f.key env f.stmt).1.plain = true :=
    fun env => plain_exec hplain hassumes
  cases h with
  | well env => exact ⟨hexec env, fun st hst => (goto_exec (Prod.ext rfl hst)).2 hassumes⟩
  | crashed carriedOut env again =>
    refine ⟨?_, ?_⟩
    · split_ifs
      · exact hexec env
      · rfl
    · intro st hst
      cases again <;> cases hst
  | caught carriedOut env hcaught =>
    refine ⟨?_, ?_⟩
    · split_ifs
      · exact hexec env
      · rfl
    · intro st hst
      obtain ⟨-, st', hst', -, hcounted⟩ := goto_swallow hcaught
      cases hst.symm.trans hst'
      exact hcounted

/-- A step of a workflow keeps the account of its server. -/
theorem accounted_took {f : Workflow} {act : Act} {write : Write} {out : Outcome}
    (hcalm : Calm w (q, act)) (hpc : w.pc q = .workflow f) (hplain : f.stmt.Plain)
    (hrow : w.shared.servers.find f.server = some r) (h : Accounted w f.server r)
    (htook : Took w.shared f act write out)
    (hr' : (w.shared.apply f.server write).servers.find f.server = some r') :
    Accounted ⟨w.shared.apply f.server write, Function.update w.pc q (.after (f.advance out))⟩
      f.server r' := by
  cases hassumes : f.stmt.assumes with
  | none =>
    obtain ⟨hwrite, hgoto⟩ := plain_took htook hplain hassumes
    obtain ⟨r₀, hr₀, hhost, hsize⟩ := plain_row hwrite hr'
    cases hrow.symm.trans hr₀
    refine accounted_quiet h (plain_ledger hwrite _) hhost hsize ?_
      (between_after _ _ _ fun st hst _ => hgoto st hst)
    simp [hpc, Pc.between, counted_of_assumes hassumes]
  | some e =>
    obtain ⟨hfound, hothers, hcrash⟩ := hcalm f hpc
    rw [hassumes] at hfound hothers
    replace hothers := hothers rfl
    simp only [Option.all_some, hrow, Option.any_some, decide_eq_true_eq] at hfound
    have hagrees := agrees_of_accounted h hpc hothers
    cases htook with
    | well env =>
      have hnext := agrees_exec hrow hassumes hfound.1 hfound.2 hagrees hr'
      cases hout : (exec w.shared f.server f.key env f.stmt).2 with
      | goto st =>
        rw [hout] at hnext
        exact accounted_goto hothers hnext
      | done running | fail | again =>
        rw [hout] at hnext
        exact accounted_balanced hothers (between_after _ _ _ fun st hst => by cases hst) hnext
    | crashed carriedOut env again =>
      have htorn := hcrash carriedOut env again rfl
      refine accounted_balanced hothers (between_after _ _ _ fun st hst => ?_) ?_
      · cases again <;> cases hst
      cases carriedOut with
      | false =>
        cases hrow.symm.trans hr'
        rw [Agrees, counted_of_not_torn htorn] at hagrees
        exact hagrees
      | true =>
        have hnext := agrees_exec hrow hassumes hfound.1 hfound.2 hagrees hr'
        cases hout : (exec w.shared f.server f.key env f.stmt).2 with
        | goto st =>
          rw [hout] at hnext
          have hbalanced : Agrees st r' _ := hnext
          rw [Agrees, goto_of_not_torn htorn (Prod.ext rfl hout)] at hbalanced
          exact hbalanced
        | done running | fail | again =>
          rw [hout] at hnext
          exact hnext
    | caught carriedOut env hcaught =>
      cases (goto_swallow hcaught).1.symm.trans hassumes

end

/-! ## The sum of the ledgers -/

theorem ledgerSum_apply {c : Cloud} {s : ℕ} (hs : (c.servers.find s).isSome) (w : Write) (id : ℕ)
    (x : Resource) :
    ledgerSum (c.apply s w) id x = ledgerSum c id x +
      match w with
      | .host host amount => if id = host then amount x else 0
      | _ => 0 := by
  cases w with
  | server p =>
    simp only [ledgerSum, Cloud.apply, Table.modify, Table.sum_amend, add_zero]
  | privateIp address => cases address <;> simp [ledgerSum, Cloud.apply]
  | host host amount =>
    obtain ⟨r, hr⟩ := Option.isSome_iff_exists.mp hs
    have hadd : (c.servers.sum fun t _ => if t = s then if id = host then amount x else 0 else 0) =
        if id = host then amount x else 0 := by
      rw [Table.sum_only (fun _ => if id = host then amount x else 0), hr, Option.elim_some]
    show (c.servers.sum fun t _ => (c.apply s (.host host amount)).ledger t id x) =
      ledgerSum c id x + if id = host then amount x else 0
    rw [← hadd, ledgerSum, ← Table.sum_add]
    apply Table.sum_congr
    intro t r _
    rw [ledger_apply]
    by_cases ht : t = s
    · by_cases hid : id = host
      · subst ht hid
        simp
      · simp [ht, hid]
    · simp [ht]
  | none | ip id g | createVm vm | editVm ref g | deleteVm ref => simp [ledgerSum, Cloud.apply]

theorem hosts_apply (c : Cloud) (s id : ℕ) (w : Write) :
    (c.apply s w).hosts.find id =
      match w with
      | .host host amount =>
          if id = host then (c.hosts.find id).map fun h => h.add amount else c.hosts.find id
      | _ => c.hosts.find id := by
  cases w with
  | host host amount => exact Table.find_modify c.hosts id host _
  | privateIp address => cases address <;> rfl
  | none | server p | ip id g | createVm vm | editVm ref g | deleteVm ref => rfl

theorem tallied_apply {hosts : Table ℕ Host} {c : Cloud} {s : ℕ} (h : Tallied hosts c)
    (hs : (c.servers.find s).isSome) (w : Write) : Tallied hosts (c.apply s w) := by
  intro id h₀ h' hh₀ hh' x
  rw [hosts_apply] at hh'
  rw [ledgerSum_apply hs]
  cases w with
  | host host amount =>
    simp only at hh' ⊢
    split_ifs at hh' ⊢
    · obtain ⟨h₁, hh₁, rfl⟩ := Option.map_eq_some_iff.mp hh'
      have := h id h₀ h₁ hh₀ hh₁ x
      simp only [Host.add]
      omega
    · rw [add_zero]
      exact h id h₀ h' hh₀ hh' x
  | _ =>
    rw [add_zero]
    exact h id h₀ h' hh₀ hh' x

/-! ## Rows stay -/

theorem row_apply {c : Cloud} {t : ℕ} (h : (c.servers.find t).isSome) (s : ℕ) (w : Write) :
    ((c.apply s w).servers.find t).isSome := by
  rw [find_apply]
  cases w with
  | server p =>
    simp only
    split_ifs
    · simpa using h
    · exact h
  | _ => exact h

theorem row_moves {c c' : Cloud} {act : Act} {pc pc' : Pc} (h : Moves c act pc c' pc') {t : ℕ}
    (ht : (c.servers.find t).isSome) : (c'.servers.find t).isSome := by
  cases h with
  | call error call | started env id type before | unstarted id type before => exact ht
  | insert env dto =>
    have hne : t ≠ c.servers.fresh := by
      rintro rfl
      simp at ht
    simpa [insertServer, Table.find_put_of_ne _ hne] using ht
  | intent env id type read =>
    unfold writeIntent
    split_ifs
    · exact row_apply ht _ _
    · exact ht
  | startFailed env id | workflow h => exact row_apply ht _ _
  | addressed haddressing h =>
    rw [(addressed_next haddressing h).servers]
    exact ht
  | addressFailed haddressing h =>
    rw [(addressed_crash haddressing h).servers]
    exact ht

theorem Pc.Known.mono {c c' : Cloud} {pc : Pc} (h : pc.Known c)
    (hrows : ∀ t, (c.servers.find t).isSome → (c'.servers.find t).isSome) : pc.Known c' := by
  cases pc with
  | intent id type read | starting id type before | startFailed id | workflow w => exact hrows _ h
  | _ => trivial

theorem known_readServer (c : Cloud) (id : ℕ) (type : ActionType) :
    (readServer c id type).Known c := by
  unfold readServer
  split
  · trivial
  · next r hr =>
    have hsome : (c.servers.find id).isSome := by simp [hr]
    (repeat' split) <;> trivial

theorem known_begin (c : Cloud) (call : Call) : (begin c call).Known c := by
  cases call with
  | action id type =>
    cases type with
    | create => trivial
    | _ => exact known_readServer c id _
  | create dto | reserve projectId regionId => trivial
  | attach projectId id server | detach projectId id | releaseReserved projectId id =>
    simp only [begin, ownIp]
    (repeat' split) <;> trivial

theorem server_begin (c : Cloud) (call : Call) : (begin c call).server = none := by
  cases call with
  | action id type =>
    cases type with
    | create => rfl
    | _ =>
      simp only [begin, readServer]
      (repeat' split) <;> rfl
  | create dto | reserve projectId regionId => rfl
  | attach projectId id server | detach projectId id | releaseReserved projectId id =>
    simp only [begin, ownIp]
    (repeat' split) <;> rfl

theorem known_after {c : Cloud} {w : Option Workflow}
    (h : ∀ w', w = some w' → (c.servers.find w'.server).isSome) : (Pc.after w).Known c := by
  cases w with
  | none => trivial
  | some w => exact h w rfl

theorem known_addressing {c : Cloud} {pc : Pc} (h : pc.addressing = true ∨ ∃ error, pc = .rest error) :
    pc.Known c := by
  rcases h with h | ⟨error, rfl⟩
  · cases pc with
    | intent id type read | starting id type before | startFailed id | workflow w => cases h
    | _ => trivial
  · trivial

theorem known_moves {c c' : Cloud} {act : Act} {pc pc' : Pc} (h : Moves c act pc c' pc')
    (hknown : pc.Known c) : pc'.Known c' := by
  have hrows := fun t ht => row_moves h (t := t) ht
  cases h with
  | call error call => exact known_begin c call
  | insert env dto =>
    show ((c.servers.put c.servers.fresh (newServer dto)).find c.servers.fresh).isSome = true
    rw [Table.find_put_self]
    rfl
  | intent env id type read => exact hrows _ hknown
  | started env id type before =>
    apply known_after
    intro w hw
    obtain ⟨a, rest, -, rfl⟩ := begin_eq_some hw
    exact hknown
  | unstarted id type before =>
    split_ifs
    · exact hknown
    · trivial
  | startFailed env id => trivial
  | workflow h =>
    apply known_after
    intro w hw
    rw [server_advance hw]
    exact hrows _ hknown
  | addressed haddressing h => exact known_addressing (addressed_next haddressing h).after
  | addressFailed haddressing h => exact known_addressing (addressed_crash haddressing h).after

theorem plain_advance {f f' : Workflow} {out : Outcome}
    (hgoto : ∀ st, out = .goto st → st.Plain) (hadvance : f.advance out = some f') :
    f'.stmt.Plain := by
  cases out with
  | goto st =>
    cases hadvance
    exact hgoto st rfl
  | again =>
    cases hadvance
    exact plain_start _
  | done running =>
    simp only [Workflow.advance] at hadvance
    obtain ⟨a, rest, -, rfl⟩ := begin_eq_some hadvance
    exact plain_start _
  | fail =>
    simp only [Workflow.advance] at hadvance
    split_ifs at hadvance
    obtain ⟨a, rest, -, rfl⟩ := begin_eq_some hadvance
    exact plain_start _

theorem plain_goto {c : Cloud} {f : Workflow} {act : Act} {write : Write} {out : Outcome}
    (h : Took c f act write out) {st : Stmt} (hst : out = .goto st) : st.Plain := by
  cases h with
  | well env => exact (goto_exec (Prod.ext rfl hst)).1
  | crashed carriedOut env again => cases again <;> cases hst
  | caught carriedOut env hcaught =>
    obtain ⟨-, st', hst', hplain, -⟩ := goto_swallow hcaught
    cases hst.symm.trans hst'
    exact hplain

theorem plain_moves {c c' : Cloud} {act : Act} {pc pc' : Pc} (h : Moves c act pc c' pc') :
    pc'.Plain := by
  have hafter : ∀ w : Option Workflow, (∀ w', w = some w' → w'.stmt.Plain) → (Pc.after w).Plain := by
    intro w hw
    cases w with
    | none => trivial
    | some w => exact hw w rfl
  have hidle : ∀ pc : Pc, (∀ w, pc ≠ .workflow w) → pc.Plain := by
    intro pc hpc
    cases pc with
    | workflow w => exact (hpc w rfl).elim
    | _ => trivial
  have haddress : ∀ pc : Pc, (pc.addressing = true ∨ ∃ error, pc = .rest error) → pc.Plain := by
    intro pc hpc
    apply hidle
    rintro w rfl
    rcases hpc with hpc | ⟨error, hpc⟩ <;> cases hpc
  cases h with
  | call error call =>
    apply hidle
    intro w hw
    have hserver := server_begin c call
    rw [hw] at hserver
    cases hserver
  | insert env dto | intent env id type read | startFailed env id => trivial
  | started env id type before =>
    apply hafter
    intro w hw
    obtain ⟨a, rest, -, rfl⟩ := begin_eq_some hw
    exact plain_start _
  | unstarted id type before =>
    split_ifs <;> trivial
  | workflow h => exact hafter _ fun w hw => plain_advance (fun st hst => plain_goto h hst) hw
  | addressed haddressing h => exact haddress _ (addressed_next haddressing h).after
  | addressFailed haddressing h => exact haddress _ (addressed_crash haddressing h).after

/-! ## Every run -/

/-- A step outside of the workflows: it counts nothing, and the rows keep host and size. -/
structure Uncounted (c c' : Cloud) : Prop where
  hosts : c'.hosts = c.hosts
  ledger : c'.ledger = c.ledger
  sums : ∀ id x, c.ledger c.servers.fresh = (fun _ _ => 0) → ledgerSum c' id x = ledgerSum c id x
  row : ∀ {t r'}, c'.servers.find t = some r' →
    (∃ r, c.servers.find t = some r ∧ r'.hostId = r.hostId ∧ r'.size = r.size) ∨
      c.servers.find t = none ∧ r'.hostId = none

theorem Uncounted.of_servers {c c' : Cloud} (hhosts : c'.hosts = c.hosts)
    (hledger : c'.ledger = c.ledger) (hservers : c'.servers = c.servers) : Uncounted c c' where
  hosts := hhosts
  ledger := hledger
  sums := fun id x _ => by rw [ledgerSum, hledger, hservers, ledgerSum]
  row := by
    intro t r' hr'
    rw [hservers] at hr'
    exact .inl ⟨r', hr', rfl, rfl⟩

theorem Uncounted.of_patch {c : Cloud} {s : ℕ} {p : Patch} (h : (Write.server p).plain = true) :
    Uncounted c (c.apply s (.server p)) where
  hosts := rfl
  ledger := rfl
  sums := fun id x _ => by simp only [ledgerSum, Cloud.apply, Table.modify, Table.sum_amend]
  row := fun hr' => .inl (plain_row h hr')

theorem uncounted_moves {c c' : Cloud} {act : Act} {pc pc' : Pc} (h : Moves c act pc c' pc')
    (hpc : ∀ w, pc ≠ .workflow w) : Uncounted c c' := by
  cases h with
  | call error call | started env id type before | unstarted id type before =>
    exact .of_servers rfl rfl rfl
  | insert env dto =>
    refine ⟨rfl, rfl, ?_, ?_⟩
    · intro id x hzero
      show (c.servers.put c.servers.fresh (newServer dto)).sum (fun s _ => c.ledger s id x) =
        ledgerSum c id x
      rw [Table.sum_put, Table.find_fresh, hzero, ledgerSum]
      simp
    · intro t r' hr'
      by_cases ht : t = c.servers.fresh
      · subst ht
        cases (Table.find_put_self _ _ _).symm.trans hr'
        exact .inr ⟨Table.find_fresh _, rfl⟩
      · exact .inl ⟨r', (Table.find_put_of_ne _ ht _).symm.trans hr', rfl, rfl⟩
  | intent env id type read =>
    unfold writeIntent
    split_ifs
    · exact .of_patch rfl
    · exact .of_servers rfl rfl rfl
  | startFailed env id => exact .of_patch rfl
  | workflow h => exact (hpc _ rfl).elim
  | addressed haddressing h =>
    have h := addressed_next haddressing h
    exact .of_servers h.hosts h.ledger h.servers
  | addressFailed haddressing h =>
    have h := addressed_crash haddressing h
    exact .of_servers h.hosts h.ledger h.servers

theorem between_of_server {pc : Pc} (h : pc.server = none) (t : ℕ) : pc.between t = false := by
  cases pc with
  | workflow w => cases h
  | _ => rfl

theorem server_addressing {pc : Pc} (h : pc.addressing = true ∨ ∃ error, pc = .rest error) :
    pc.server = none := by
  rcases h with h | ⟨error, rfl⟩
  · cases pc with
    | starting id type before | startFailed id | workflow w => cases h
    | _ => rfl
  · rfl

theorem between_moves {c c' : Cloud} {act : Act} {pc pc' : Pc} (h : Moves c act pc c' pc')
    (hpc : ∀ w, pc ≠ .workflow w) (t : ℕ) : pc'.between t = false := by
  cases h with
  | call error call => exact between_of_server (server_begin c call) t
  | insert env dto | intent env id type read | startFailed env id => rfl
  | started env id type before => exact between_begin _ _ t
  | unstarted id type before =>
    split_ifs <;> rfl
  | workflow h => exact (hpc _ rfl).elim
  | addressed haddressing h =>
    exact between_of_server (server_addressing (addressed_next haddressing h).after) t
  | addressFailed haddressing h =>
    exact between_of_server (server_addressing (addressed_crash haddressing h).after) t

theorem took_of_moves {c c' : Cloud} {act : Act} {f : Workflow} {pc' : Pc}
    (h : Moves c act (.workflow f) c' pc') :
    ∃ write out, Took c f act write out ∧ c' = c.apply f.server write ∧
      pc' = .after (f.advance out) := by
  cases h with
  | workflow h => exact ⟨_, _, h, rfl, rfl⟩
  | addressed haddressing h | addressFailed haddressing h => cases haddressing

section
variable {hosts : Table ℕ Host} {w : World} {a : ℕ × Act} {c : Cloud} {pc : Pc}

/-- Nobody stands between the counters and a row that is not there. -/
theorem Counted.idle (h : Counted hosts w) {t : ℕ} (ht : w.shared.servers.find t = none) :
    Idle w t := by
  intro q
  have hknown := h.known q
  cases hpc : w.pc q with
  | workflow f =>
    rw [hpc] at hknown
    have hne : f.server ≠ t := by
      rintro rfl
      rw [Pc.Known, ht] at hknown
      cases hknown
    simp [Pc.between, hne]
  | _ => rfl

/-- A step outside of the workflows. -/
theorem counted_uncounted (h : Counted hosts w) (hmoves : Moves w.shared a.2 (w.pc a.1) c pc)
    (hpc : ∀ f, w.pc a.1 ≠ .workflow f) :
    Tallied hosts c ∧
      (∀ {t r}, c.servers.find t = some r → Accounted ⟨c, Function.update w.pc a.1 pc⟩ t r) ∧
      ∀ {t}, c.servers.find t = none → c.ledger t = fun _ _ => 0 := by
  have huncounted := uncounted_moves hmoves hpc
  have hbefore : ∀ t, (w.pc a.1).between t = false := by
    intro t
    cases hold : w.pc a.1 with
    | workflow f => exact (hpc f hold).elim
    | _ => rfl
  refine ⟨?_, ?_, ?_⟩
  · intro id h₀ h' hh₀ hh' x
    rw [huncounted.hosts] at hh'
    rw [huncounted.sums id x (h.unknown (Table.find_fresh _))]
    exact h.tallied id h₀ h' hh₀ hh' x
  · intro t r' hr'
    rcases huncounted.row hr' with ⟨r, hr, hhost, hsize⟩ | ⟨hnone, hhost⟩
    · exact accounted_quiet (h.accounted hr) (by rw [huncounted.ledger]) hhost hsize (hbefore t)
        (between_moves hmoves hpc t)
    · refine accounted_balanced (fun q _ => h.idle hnone q) (between_moves hmoves hpc t) ?_
      show Balanced r' (c.ledger t)
      rw [huncounted.ledger, h.unknown hnone]
      exact balanced_zero hhost
  · intro t ht
    rw [huncounted.ledger]
    apply h.unknown
    by_contra hne
    have hsome := row_moves hmoves (Option.isSome_iff_ne_none.mpr hne)
    rw [ht] at hsome
    cases hsome

/-- A step of a workflow. -/
theorem counted_workflow (h : Counted hosts w) (hcalm : Calm w a) {f : Workflow}
    (hpc : w.pc a.1 = .workflow f) {write : Write} {out : Outcome}
    (htook : Took w.shared f a.2 write out) :
    Tallied hosts (w.shared.apply f.server write) ∧
      (∀ {t r}, (w.shared.apply f.server write).servers.find t = some r →
        Accounted ⟨w.shared.apply f.server write,
          Function.update w.pc a.1 (.after (f.advance out))⟩ t r) ∧
      ∀ {t}, (w.shared.apply f.server write).servers.find t = none →
        (w.shared.apply f.server write).ledger t = fun _ _ => 0 := by
  have hknown : (w.shared.servers.find f.server).isSome := by
    have := h.known a.1
    rwa [hpc] at this
  have hplain : f.stmt.Plain := by
    have := h.plain a.1
    rwa [hpc] at this
  obtain ⟨r₀, hr₀⟩ := Option.isSome_iff_exists.mp hknown
  refine ⟨tallied_apply h.tallied hknown write, ?_, ?_⟩
  · intro t r' hr'
    by_cases ht : t = f.server
    · subst ht
      exact accounted_took hcalm hpc hplain hr₀ (h.accounted hr₀) htook hr'
    · rw [find_of_ne ht] at hr'
      refine accounted_quiet (h.accounted hr') (ledger_of_ne ht) rfl rfl ?_
        (between_after _ _ _ fun st _ hserver => (ht hserver.symm).elim)
      simp [hpc, Pc.between, Ne.symm ht]
  · intro t ht
    have hnone : w.shared.servers.find t = none := by
      by_contra hne
      have hsome := row_apply (Option.isSome_iff_ne_none.mpr hne) f.server write
      rw [ht] at hsome
      cases hsome
    have hne : t ≠ f.server := by
      rintro rfl
      rw [hnone] at hr₀
      cases hr₀
    rw [ledger_of_ne hne]
    exact h.unknown hnone

theorem counted_step (hcalm : Calm w a) (h : Counted hosts w) : Counted hosts (step w a) := by
  rcases callerStep_cases trans w a with heq | ⟨c, pc, ht, heq⟩
  · rw [step, heq]
    exact h
  · rw [step, heq]
    have hmoves := trans_moves ht
    have hrows : Tallied hosts c ∧
        (∀ {t r}, c.servers.find t = some r → Accounted ⟨c, Function.update w.pc a.1 pc⟩ t r) ∧
        ∀ {t}, c.servers.find t = none → c.ledger t = fun _ _ => 0 := by
      by_cases hpc : ∃ f, w.pc a.1 = .workflow f
      · obtain ⟨f, hpc⟩ := hpc
        rw [hpc] at hmoves
        obtain ⟨write, out, htook, rfl, rfl⟩ := took_of_moves hmoves
        exact counted_workflow h hcalm hpc htook
      · exact counted_uncounted h hmoves fun f hf => hpc ⟨f, hf⟩
    refine ⟨hrows.1, hrows.2.1, hrows.2.2, ?_, ?_⟩
    · exact update_cases (P := fun _ (pc : Pc) => pc.Known c) (known_moves hmoves (h.known a.1))
        fun q _ => (h.known q).mono fun t ht => row_moves hmoves ht
    · exact update_cases (P := fun _ (pc : Pc) => pc.Plain) (plain_moves hmoves) fun q _ => h.plain q

theorem counted_init (hosts : Table ℕ Host) (ips : Table ℕ PublicIp) :
    Counted hosts (start hosts ips) where
  tallied := by
    intro id h₀ h hh₀ hh x
    cases hh₀.symm.trans hh
    show h₀.used x = h₀.used x + 0
    omega
  accounted := fun hr => by cases hr
  unknown := fun _ => rfl
  known := fun _ => trivial
  plain := fun _ => trivial

end

/-- In every run in which a statement that counts finds the row as its activity has loaded it, and
no activity of a server is interrupted, or overtaken, between its counters and its row: when
nobody is at work, each host has what it had and the sizes of the servers that are on it. -/
theorem host_counters_kept (hosts : Table ℕ Host) (ips : Table ℕ PublicIp) (acts : List (ℕ × Act))
    (h : Meets step Calm (start hosts ips) acts) :
    let w := run step (start hosts ips) acts
    (∀ q, (w.pc q).server = none) →
      ∀ id h₀ h', hosts.find id = some h₀ → w.shared.hosts.find id = some h' →
        ∀ x, h'.used x = h₀.used x +
          w.shared.servers.sum fun _ r => if r.hostId = some id then r.size.amount x else 0 := by
  intro w hidle id h₀ h' hh₀ hh' x
  have hcounted : Counted hosts w :=
    h.invariant (fun w a hc hw => counted_step hc hw) (counted_init hosts ips)
  rw [hcounted.tallied id h₀ h' hh₀ hh' x, ledgerSum]
  congr 1
  apply Table.sum_congr
  intro s r hmem
  rcases hcounted.accounted (Table.find_of_mem hmem) with ⟨-, hbalanced⟩ | ⟨q, f, hpc, -⟩
  · exact hbalanced id x
  · have := hidle q
    rw [hpc] at this
    cases this

/-! ## An interrupted placement -/

/-- A create whose placement is interrupted at the statement that counts, and starts again. -/
def interrupted (carriedOut : Bool) : List (ℕ × Act) :=
  (0, .call (.create small)) :: List.replicate 5 (0, .next { host := some 0, address := some 10 }) ++
    (0, .crash carriedOut {} true) ::
    List.replicate 21 (0, .next { host := some 0, address := some 10 })

def interruptedRun (carriedOut : Bool) : World :=
  run step (start oneHost oneIp) (interrupted carriedOut)

/-- `Calm` where one caller acts alone. -/
def calmAlone (w : World) (a : ℕ × Act) : Bool :=
  match w.pc a.1 with
  | .workflow f =>
      (f.stmt.assumes.all fun e => (w.shared.servers.find f.server).any fun r =>
        r.hostId = e.1 ∧ r.size = e.2) &&
      match a.2 with
      | .crash carriedOut _ _ => ¬ f.stmt.torn carriedOut
      | _ => true
  | _ => true

theorem calm_of_calmAlone {w : World} {a : ℕ × Act} (h : calmAlone w a = true) (ha : a.1 < 1)
    (hidle : ∀ q, 1 ≤ q → w.pc q = .rest none) : Calm w a := by
  intro f hf
  simp only [calmAlone, hf, Bool.and_eq_true] at h
  refine ⟨h.1, ?_, ?_⟩
  · intro _ q hq
    rw [hidle q (by omega)]
    rfl
  · intro carriedOut env again hact
    simpa [hact] using h.2

theorem idle_interrupted (carriedOut : Bool) (q : ℕ) :
    ((interruptedRun carriedOut).pc q).server = none := by
  have hcases : q = 0 ∨ 1 ≤ q := by omega
  rcases hcases with rfl | hq
  · cases carriedOut <;> decide
  · rw [interruptedRun, idle_of_callers (by cases carriedOut <;> decide) hq]
    rfl

theorem host_counters_kept_interrupted :
    ((interruptedRun false).shared.servers.find 1).map Server.hostId = some (some 0) ∧
      ∀ h, (interruptedRun false).shared.hosts.find 0 = some h → h.used .memoryMb = 1024 := by
  refine ⟨by decide, ?_⟩
  intro h hh
  have hhere : Meets step (fun w a => calmAlone w a = true) (start oneHost oneIp)
      (interrupted false) := by decide
  have hcallers : ∀ a ∈ interrupted false, a.1 < 1 := by decide
  have hcalm : Meets step Calm (start oneHost oneIp) (interrupted false) :=
    Meets.of_idle (hhere.mono fun w a ha h hidle => calm_of_calmAlone h (hcallers a ha) hidle)
      (fun _ _ => rfl) hcallers
  have hsum : ((interruptedRun false).shared.servers.sum fun _ r =>
      if r.hostId = some 0 then r.size.amount .memoryMb else 0) = 1024 := by decide
  have hkept := host_counters_kept oneHost oneIp (interrupted false) hcalm (idle_interrupted false) 0
    _ h rfl hh .memoryMb
  rw [hkept]
  exact (Int.zero_add _).trans hsum

/-- The placement has counted when it is interrupted: it counts the server again, and the host has
twice the memory of its only server. -/
theorem host_counted_twice :
    (∀ q, ((interruptedRun true).pc q).server = none) ∧
      ((interruptedRun true).shared.hosts.find 0).map (fun h => h.used .memoryMb) = some 2048 ∧
      ((interruptedRun true).shared.servers.sum fun _ r =>
        if r.hostId = some 0 then r.size.amount .memoryMb else 0) = 1024 :=
  ⟨idle_interrupted true, by decide, by decide⟩

end Prgd.Compute
