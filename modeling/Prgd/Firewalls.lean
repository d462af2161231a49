import Prgd.ApiError
import Prgd.IpAddress

/-!
# Firewalls of a server

The rules of the firewalls that are attached to a server, the rules that are in force on
it, and the traffic that they admit. Rules only ever admit traffic; what no rule admits
is not permitted.

`effectiveRules` asks whether there is any rule and not whether there is any firewall.
Emptying the last firewall with rules therefore brings the default rules into force.
-/
namespace Prgd.Firewalls
open IpAddress

/-! ## Rules and traffic -/

inductive Direction where
  | inbound | outbound
  deriving DecidableEq

inductive Protocol where
  | tcp | udp | icmp | vrrp | any
  deriving DecidableEq

def Protocol.name : Protocol → String
  | .tcp => "tcp"
  | .udp => "udp"
  | .icmp => "icmp"
  | .vrrp => "vrrp"
  | .any => "any"

/-- The IP protocol. -/
def Protocol.number : Protocol → Option ℕ
  | .tcp => some 6
  | .udp => some 17
  | .icmp => some 1
  | .vrrp => some 112
  | .any => none

/-- `FirewallRuleSpec`, what the host enforces. -/
structure FirewallRuleSpec where
  direction : Direction
  protocol : Protocol
  ports : Option Text := none
  cidrs : List Text
  deriving DecidableEq

/-- A packet as a rule sees it. The port is the destination's. -/
structure Traffic where
  direction : Direction
  protocol : ℕ
  port : ℕ
  peer : Ip
  deriving DecidableEq

/-- "22" or "8000-9000". -/
def portsContain (ports : Text) (port : ℕ) : Bool :=
  match (Text.split ports ['-']).map Text.digitsValue with
  | [one] => port = one
  | [first, last] => first ≤ port ∧ port ≤ last
  | _ => false

/-- An address, or a subnet with its prefix. -/
def cidrContains (cidr : Text) (peer : Ip) : Bool :=
  match Text.split cidr ['/'] with
  | [net] => parse net = some peer
  | [net, bits] =>
      match parse net, peer with
      | some (.v4 n), .v4 a => agree (Text.digitsValue bits) a n
      | some (.v6 n), .v6 a => agree (Text.digitsValue bits) a n
      | _, _ => false
  | _ => false

def FirewallRuleSpec.admits (r : FirewallRuleSpec) (t : Traffic) : Bool :=
  r.direction = t.direction && r.protocol.number.all (· = t.protocol) &&
    r.ports.all (portsContain · t.port) && r.cidrs.any (cidrContains · t.peer)

/-- The traffic that a list of rules permits. -/
def Permits (rules : List FirewallRuleSpec) (t : Traffic) : Prop := ∃ r ∈ rules, r.admits t = true

def everywhere : List Text := ["0.0.0.0/0".toList, "::/0".toList]

def DEFAULT_RULES : List FirewallRuleSpec :=
  [{ direction := .inbound, protocol := .tcp, ports := some "22".toList, cidrs := everywhere },
    { direction := .inbound, protocol := .tcp, ports := some "80".toList, cidrs := everywhere },
    { direction := .inbound, protocol := .tcp, ports := some "443".toList, cidrs := everywhere },
    { direction := .inbound, protocol := .icmp, cidrs := everywhere },
    { direction := .outbound, protocol := .any, cidrs := everywhere }]

/-! ## The tables -/

structure FirewallRuleDto where
  direction : Direction
  protocol : Protocol
  ports : Option Text
  cidrs : List Text
  description : Option Text

structure FirewallRule where
  firewallId : ℕ
  direction : Direction
  protocol : Protocol
  ports : Option Text
  sources : List Text
  destinations : List Text
  description : Option Text
  deriving DecidableEq

structure Db where
  /-- The firewalls, each with its project. -/
  firewalls : List (ℕ × ℕ)
  rules : List FirewallRule
  /-- The links of firewalls to servers. -/
  servers : List (ℕ × ℕ)

def toRow (firewallId : ℕ) (r : FirewallRuleDto) : Except ApiError FirewallRule :=
  if r.ports.any (· ≠ []) ∧ r.protocol ≠ .tcp ∧ r.protocol ≠ .udp then
    .error (.invalid ("Ports apply to tcp and udp rules only, not " ++ r.protocol.name) [])
  else .ok {
    firewallId
    direction := r.direction
    protocol := r.protocol
    ports := r.ports
    sources := if r.direction = .inbound then r.cidrs else []
    destinations := if r.direction = .outbound then r.cidrs else []
    description := r.description }

/-- `replaceRules`, up to the push to the hosts. -/
def replaceRules (db : Db) (projectId id : ℕ) (rules : List FirewallRuleDto) :
    Except ApiError Db :=
  if (id, projectId) ∈ db.firewalls then do
    let rows ← rules.mapM (toRow id)
    return { db with rules := db.rules.filter (fun r => r.firewallId ≠ id) ++ rows }
  else .error (.notFound "firewall" (toString id))

/-- The rows that the query of `effectiveRules` finds. -/
def Db.rulesOf (db : Db) (serverId : ℕ) : List FirewallRule :=
  db.rules.filter fun r => (r.firewallId, serverId) ∈ db.servers

def FirewallRule.spec (r : FirewallRule) : FirewallRuleSpec where
  direction := r.direction
  protocol := r.protocol
  ports := r.ports
  cidrs := if r.direction = .inbound then r.sources else r.destinations

def effectiveRules (db : Db) (serverId : ℕ) : List FirewallRuleSpec :=
  match db.rulesOf serverId with
  | [] => DEFAULT_RULES
  | rows => rows.map FirewallRule.spec

/-! ## What the default rules open -/

theorem agree_zero {w : ℕ} (a b : BitVec w) : agree 0 a b = true := by
  simp [agree, BitVec.ushiftRight_eq_zero]

theorem cidrContains_everywhere (peer : Ip) : everywhere.any (cidrContains · peer) = true := by
  cases peer with
  | v4 a =>
    have h : cidrContains "0.0.0.0/0".toList (.v4 a) = agree 0 a 0#32 := by
      have hnet : parse "0.0.0.0".toList = some (.v4 0#32) := by decide
      have hsplit : Text.split "0.0.0.0/0".toList ['/'] = ["0.0.0.0".toList, "0".toList] := by
        decide
      have hbits : Text.digitsValue "0".toList = 0 := by decide
      simp only [cidrContains, hsplit, hnet, hbits]
    rw [everywhere, List.any_cons, h, agree_zero, Bool.true_or]
  | v6 a =>
    have h : cidrContains "::/0".toList (.v6 a) = agree 0 a 0#128 := by
      have hnet : parse "::".toList = some (.v6 0#128) := by decide
      have hsplit : Text.split "::/0".toList ['/'] = ["::".toList, "0".toList] := by decide
      have hbits : Text.digitsValue "0".toList = 0 := by decide
      simp only [cidrContains, hsplit, hnet, hbits]
    rw [everywhere, List.any_cons, List.any_cons, h, agree_zero, Bool.true_or, Bool.or_true]

/-- SSH, HTTP, HTTPS and ICMP from everywhere, and everything out. -/
def Open (t : Traffic) : Prop :=
  match t.direction with
  | .inbound => t.protocol = 6 ∧ t.port ∈ [22, 80, 443] ∨ t.protocol = 1
  | .outbound => True

theorem portsContain_digits {ports : Text} {n : ℕ}
    (h : (Text.split ports ['-']).map Text.digitsValue = [n]) (port : ℕ) :
    portsContain ports port = true ↔ port = n := by
  simp [portsContain, h]

theorem permits_default_iff (t : Traffic) : Permits DEFAULT_RULES t ↔ Open t := by
  obtain ⟨direction, protocol, port, peer⟩ := t
  have hpeer := cidrContains_everywhere peer
  have hssh : portsContain "22".toList port = true ↔ port = 22 :=
    portsContain_digits (by decide) port
  have hhttp : portsContain "80".toList port = true ↔ port = 80 :=
    portsContain_digits (by decide) port
  have hhttps : portsContain "443".toList port = true ↔ port = 443 :=
    portsContain_digits (by decide) port
  simp only [Permits, DEFAULT_RULES, List.mem_cons, List.not_mem_nil, or_false, exists_eq_or_imp,
    exists_eq_left, FirewallRuleSpec.admits, Protocol.number, Option.all_some, Option.all_none,
    Bool.and_eq_true, decide_eq_true_eq, hpeer, hssh, hhttp, hhttps, and_true, Open]
  cases direction with
  | inbound =>
    simp
    omega
  | outbound => simp

/-! ## Removing rules -/

theorem mapM_ok_mem {α β ε : Type} {f : α → Except ε β} {xs : List α} {ys : List β}
    (h : xs.mapM f = .ok ys) : ∀ y ∈ ys, ∃ x ∈ xs, f x = .ok y := by
  induction xs generalizing ys with
  | nil =>
    cases h
    simp
  | cons x xs ih =>
    rw [List.mapM_cons] at h
    cases hx : f x with
    | error e =>
      rw [hx] at h
      cases h
    | ok y =>
      cases hxs : xs.mapM f with
      | error e =>
        rw [hx, hxs] at h
        cases h
      | ok rest =>
        rw [hx, hxs] at h
        cases h
        intro z hz
        rcases List.mem_cons.mp hz with rfl | hz
        · exact ⟨x, by simp, hx⟩
        · obtain ⟨x', hx', hfx'⟩ := ih hxs z hz
          exact ⟨x', List.mem_cons_of_mem x hx', hfx'⟩

/-- What `replaceRules` does when it does not throw. -/
theorem replaceRules_ok {db db' : Db} {projectId id : ℕ} {rules : List FirewallRuleDto}
    (h : replaceRules db projectId id rules = .ok db') :
    ∃ rows, rules.mapM (toRow id) = .ok rows ∧
      db' = { db with rules := db.rules.filter (fun r => r.firewallId ≠ id) ++ rows } := by
  unfold replaceRules at h
  split_ifs at h
  cases hrows : rules.mapM (toRow id) with
  | error e =>
    rw [hrows] at h
    cases h
  | ok rows =>
    rw [hrows] at h
    exact ⟨rows, rfl, (Except.ok.inj h).symm⟩

/-- Every rule that the call sends is a rule that the firewall has. -/
def Removes (db : Db) (id : ℕ) (rules : List FirewallRuleDto) : Prop :=
  ∀ dto ∈ rules, ∃ r ∈ db.rules, toRow id dto = .ok r

/-- Nothing is added to the rules of any server. -/
theorem mem_rulesOf_of_replaceRules {db db' : Db} {projectId id : ℕ} {rules : List FirewallRuleDto}
    (h : replaceRules db projectId id rules = .ok db') (hrem : Removes db id rules)
    {serverId : ℕ} {r : FirewallRule} (hr : r ∈ db'.rulesOf serverId) : r ∈ db.rulesOf serverId := by
  obtain ⟨rows, hrows, rfl⟩ := replaceRules_ok h
  obtain ⟨hmem, hlink⟩ := List.mem_filter.mp hr
  refine List.mem_filter.mpr ⟨?_, hlink⟩
  rcases List.mem_append.mp hmem with hkept | hsent
  · exact (List.mem_filter.mp hkept).1
  · obtain ⟨dto, hdto, hrow⟩ := mapM_ok_mem hrows r hsent
    obtain ⟨r', hr', hrow'⟩ := hrem dto hdto
    rw [hrow] at hrow'
    rwa [Except.ok.inj hrow']

theorem permits_effectiveRules {db : Db} {serverId : ℕ} (h : db.rulesOf serverId ≠ [])
    (t : Traffic) :
    Permits (effectiveRules db serverId) t ↔ ∃ r ∈ db.rulesOf serverId, r.spec.admits t = true := by
  unfold effectiveRules
  cases hrows : db.rulesOf serverId with
  | nil => exact absurd hrows h
  | cons r rows => simp [Permits]

theorem effectiveRules_nil {db : Db} {serverId : ℕ} (h : db.rulesOf serverId = []) :
    effectiveRules db serverId = DEFAULT_RULES := by
  rw [effectiveRules, h]

/-- Removing rules of an attached firewall opens nothing exactly if a rule of some attached
firewall is left, or the server permitted before what the default rules permit: SSH,
HTTP, HTTPS and ICMP from everywhere and everything out. -/
theorem removed_rules_iff (db db' : Db) (projectId id serverId : ℕ) (rules : List FirewallRuleDto)
    (h : replaceRules db projectId id rules = .ok db') (hremoves : Removes db id rules) :
    (∀ t, Permits (effectiveRules db' serverId) t → Permits (effectiveRules db serverId) t) ↔
      (∃ r ∈ db'.rules, (r.firewallId, serverId) ∈ db.servers) ∨
        ∀ t, Open t → Permits (effectiveRules db serverId) t := by
  have hservers : db'.servers = db.servers := by
    obtain ⟨rows, -, rfl⟩ := replaceRules_ok h
    rfl
  have hleft : (∃ r ∈ db'.rules, (r.firewallId, serverId) ∈ db.servers) ↔
      db'.rulesOf serverId ≠ [] := by
    simp [Db.rulesOf, List.filter_eq_nil_iff, hservers]
  rw [hleft]
  by_cases hempty : db'.rulesOf serverId = []
  · rw [effectiveRules_nil hempty]
    simp only [permits_default_iff, hempty, ne_eq, not_true_eq_false, false_or]
  · refine iff_of_true (fun t ht => ?_) (.inl hempty)
    obtain ⟨r, hr, hadmits⟩ := (permits_effectiveRules hempty t).mp ht
    have hr' := mem_rulesOf_of_replaceRules h hremoves hr
    exact (permits_effectiveRules (List.ne_nil_of_mem hr') t).mpr ⟨r, hr', hadmits⟩

/-- SSH from the office, and nothing else. -/
def officeSsh : FirewallRuleDto where
  direction := .inbound
  protocol := .tcp
  ports := some "22".toList
  cidrs := ["10.0.0.0/8".toList]
  description := none

def officeHttps : FirewallRuleDto := { officeSsh with ports := some "443".toList }

/-- One firewall with the given rules, attached to one server. -/
def oneServer (rules : List FirewallRule) : Db := ⟨[(1, 1)], rules, [(1, 1)]⟩

def officeRow (ports : Text) : FirewallRule :=
  ⟨1, .inbound, .tcp, some ports, ["10.0.0.0/8".toList], [], none⟩

/-- One of two rules goes. -/
theorem removed_rules_one :
    replaceRules (oneServer [officeRow "22".toList, officeRow "443".toList]) 1 1 [officeHttps] =
        .ok (oneServer [officeRow "443".toList]) ∧
      ∀ t, Permits (effectiveRules (oneServer [officeRow "443".toList]) 1) t →
        Permits (effectiveRules (oneServer [officeRow "22".toList, officeRow "443".toList]) 1) t := by
  have h : replaceRules (oneServer [officeRow "22".toList, officeRow "443".toList]) 1 1
      [officeHttps] = .ok (oneServer [officeRow "443".toList]) := rfl
  refine ⟨h, (removed_rules_iff _ _ 1 1 1 [officeHttps] h ?_).mpr (.inl ?_)⟩
  · intro dto hdto
    obtain rfl := List.mem_singleton.mp hdto
    exact ⟨officeRow "443".toList, by simp [oneServer], rfl⟩
  · exact ⟨officeRow "443".toList, by simp [oneServer], by simp [oneServer, officeRow]⟩

/-- The customer removes the only rule, SSH from the office, and SSH is open to the world. -/
theorem removed_rules_open :
    replaceRules (oneServer [officeRow "22".toList]) 1 1 [] = .ok (oneServer []) ∧
      Permits (effectiveRules (oneServer []) 1) ⟨.inbound, 6, 22, .v4 0x08080808#32⟩ ∧
      ¬ Permits (effectiveRules (oneServer [officeRow "22".toList]) 1)
        ⟨.inbound, 6, 22, .v4 0x08080808#32⟩ := by
  refine ⟨rfl, (permits_default_iff _).mpr (.inl (by decide)), ?_⟩
  have hfalse : (officeRow "22".toList).spec.admits ⟨.inbound, 6, 22, .v4 0x08080808#32⟩ = false := by
    decide
  rintro ⟨r, hr, hadmits⟩
  have hone : effectiveRules (oneServer [officeRow "22".toList]) 1 = [(officeRow "22".toList).spec] :=
    rfl
  rw [hone, List.mem_singleton] at hr
  rw [hr, hfalse] at hadmits
  cases hadmits

end Prgd.Firewalls
