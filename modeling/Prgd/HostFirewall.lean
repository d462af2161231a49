import Prgd.Firewalls
import Prgd.IpFilter

/-!
# The rules on the hypervisor

`toPVERules` and `setFirewall` turn the rules of a customer into the options and rules of a VM
at Proxmox, which takes the first rule that matches a packet and else the policy of its direction.

Inbound, the written rules mean the customer's rules as long as no CIDR is empty: a rule with an
empty source matches every peer. Outbound everything is accepted, by the policy that is written.
A job that ends well has replaced the rules when no deletion was refused; a refused deletion is
not looked at, and leaves its rule in force beside the new ones.
-/
namespace Prgd.HostFirewall
open Calls Firewalls IpAddress IpFilter

/-- A packet to or from the VM at the address `own`. -/
structure Packet extends Traffic where
  own : Ip

/-! ## What Proxmox accepts -/

/-- The protocols that a rule can name. -/
def protoNumber (name : Text) : Option ℕ :=
  [Protocol.tcp, .udp, .icmp, .vrrp].findSome? fun p =>
    if p.name.toList = name then p.number else none

/-- "22" or "8000:9000". -/
def dportContains (dport : Text) (port : ℕ) : Bool :=
  match (Text.split dport [':']).map Text.digitsValue with
  | [one] => port = one
  | [first, last] => first ≤ port ∧ port ≤ last
  | _ => false

def source (p : Packet) : Ip := if p.direction = .inbound then p.peer else p.own
def dest (p : Packet) : Ip := if p.direction = .inbound then p.own else p.peer

/-- A rule that is enabled matches a packet of its direction in every field that it has. -/
def matchesRule (f : Form) (p : Packet) : Bool :=
  f.lookup "type".toList = some (if p.direction = .inbound then "in".toList else "out".toList) &&
    f.lookup "enable".toList = some ['1'] &&
    (f.lookup "proto".toList).all (fun v => protoNumber v = some p.protocol) &&
    (f.lookup "dport".toList).all (dportContains · p.port) &&
    (f.lookup "source".toList).all (cidrContains · (source p)) &&
    (f.lookup "dest".toList).all (cidrContains · (dest p))

section
variable (matchesRule : Form → Packet → Bool)

def policy (options : Table Text Text) (d : Direction) : Bool :=
  match d with
  | .inbound => get options "policy_in".toList = "ACCEPT".toList
  | .outbound => get options "policy_out".toList ∉ ["DROP".toList, "REJECT".toList]

/-- What the rules and the policy accept when the firewall is on. -/
def passes (options : Table Text Text) (rules : List Form) (p : Packet) : Bool :=
  match rules.find? (matchesRule · p) with
  | some f => f.lookup "action".toList = some "ACCEPT".toList
  | none => policy options p.direction

def accepts (vm : Vm) (p : Packet) : Bool :=
  get vm.options "enable".toList ≠ ['1'] || passes matchesRule vm.options vm.rules p

end

/-! ## What the agent writes -/

/-- The rule for one CIDR. -/
def ruleFor (r : FirewallRuleSpec) (cidr : Text) : FWRule :=
  match r.direction with
  | .inbound =>
      { type := "in".toList, action := "ACCEPT".toList, proto := r.protocol.name.toList,
        dport := r.ports.getD [], source := cidr }
  | .outbound =>
      { type := "out".toList, action := "ACCEPT".toList, proto := r.protocol.name.toList,
        dport := r.ports.getD [], dest := cidr }

def toPVERules (rules : List FirewallRuleSpec) : List FWRule :=
  rules.flatMap fun r => r.cidrs.map (ruleFor r)

/-- Each rule is posted to the top of the list. -/
def forms (rules : List FirewallRuleSpec) : List Form :=
  ((toPVERules rules).map FWRule.form).reverse

def writtenOptions (on : Bool) (options : Table Text Text) : Table Text Text :=
  (firewallForm on).foldl (fun t e => t.put e.1 e.2) options

/-- The VM with the options and these rules. -/
def rewritten (on : Bool) (vm : Vm) (rules : List Form) : Vm :=
  { vm with options := writtenOptions on vm.options, rules := rules }

theorem get_put (options : Table Text Text) (j k v : Text) :
    IpFilter.get (options.put k v) j = if j = k then v else IpFilter.get options j := by
  unfold IpFilter.get
  split_ifs with h
  · rw [h, Table.find_put_self, Option.getD_some]
  · rw [Table.find_put_of_ne _ h]

theorem get_writtenOptions (on : Bool) (options : Table Text Text) :
    IpFilter.get (writtenOptions on options) "enable".toList = ['1'] ∧
      IpFilter.get (writtenOptions on options) "policy_in".toList = "DROP".toList ∧
      IpFilter.get (writtenOptions on options) "policy_out".toList = "ACCEPT".toList := by
  simp only [writtenOptions, firewallForm, List.foldl_cons, List.foldl_nil]
  refine ⟨?_, ?_, ?_⟩
  · rw [get_put, if_neg (by decide), get_put, if_neg (by decide), get_put, if_neg (by decide),
      get_put, if_neg (by decide), get_put, if_neg (by decide), get_put, if_pos rfl]
  · rw [get_put, if_neg (by decide), get_put, if_neg (by decide), get_put, if_neg (by decide),
      get_put, if_neg (by decide), get_put, if_pos rfl]
  · rw [get_put, if_neg (by decide), get_put, if_neg (by decide), get_put, if_neg (by decide),
      get_put, if_pos rfl]

theorem action_of_mem {rules : List FirewallRuleSpec} {r : FWRule} (h : r ∈ toPVERules rules) :
    r.form.lookup "action".toList = some "ACCEPT".toList := by
  simp only [toPVERules, List.mem_flatMap, List.mem_map] at h
  obtain ⟨spec, -, cidr, -, rfl⟩ := h
  unfold ruleFor
  cases spec.direction <;> rfl

theorem action_of_forms {rules : List FirewallRuleSpec} {f : Form} (h : f ∈ forms rules) :
    f.lookup "action".toList = some "ACCEPT".toList := by
  rw [forms, List.mem_reverse] at h
  obtain ⟨r, hr, rfl⟩ := List.mem_map.mp h
  exact action_of_mem hr

/-! ## The rules of a customer -/

/-- `/^\d{1,5}(-\d{1,5})?$/`. -/
def isPorts (ports : Text) : Bool :=
  match Text.split ports ['-'] with
  | [one] => few one
  | [first, last] => few first && few last
  | _ => false
where few (s : Text) : Bool := Text.isDigits s && s.length ≤ 5

theorem notMem_of_isPorts {ports : Text} (h : isPorts ports = true) : ':' ∉ ports := by
  have hfew : ∀ {s : Text}, isPorts.few s = true → ':' ∉ s := fun h hm => by
    simp only [isPorts.few, Text.isDigits, Bool.and_eq_true, List.all_eq_true] at h
    exact absurd (h.1.2 _ hm) (by decide)
  intro hm
  unfold isPorts at h
  have hjoin := Text.join_split '-' ports
  rw [← hjoin] at hm
  split at h
  · next heq =>
    rw [heq] at hm
    exact hfew h hm
  · next heq =>
    rw [Bool.and_eq_true] at h
    rw [heq] at hm
    simp only [Text.join, List.mem_append, List.mem_singleton] at hm
    rcases hm with (hm | hm) | hm
    · exact hfew h.1 hm
    · exact absurd hm (by decide)
    · exact hfew h.2 hm
  · cases h

theorem split_translated {ports : Text} (h : ':' ∉ ports) :
    Text.split (ports.map fun c => if c = '-' then ':' else c) [':'] = Text.split ports ['-'] := by
  induction ports with
  | nil => rfl
  | cons c ports ih =>
    have hrest := ih fun hm => h (List.mem_cons_of_mem c hm)
    rw [List.map_cons]
    by_cases hc : c = '-'
    · rw [if_pos hc, hc, Text.split_cons_self, Text.split_cons_self, hrest]
    · have hcolon : ':' ≠ c := fun he => h (he ▸ List.mem_cons_self)
      rw [if_neg hc]
      obtain ⟨q, qs, hq, hcons⟩ := Text.split_cons_of_ne (Ne.symm hc) ports
      obtain ⟨q', qs', hq', hcons'⟩ := Text.split_cons_of_ne hcolon
        (ports.map fun c => if c = '-' then ':' else c)
      rw [hrest, hq, List.cons.injEq] at hq'
      rw [hcons, hcons', hq'.1, hq'.2]

/-- What the API checks of a rule, and that no CIDR is empty. -/
structure Proper (r : FirewallRuleSpec) : Prop where
  ports : r.ports.all isPorts = true
  protocol : r.ports ≠ none → r.protocol = .tcp ∨ r.protocol = .udp
  cidrs : [] ∉ r.cidrs

theorem proper_of_toRow {id : ℕ} {r : FirewallRuleDto} {row : FirewallRule}
    (h : toRow id r = .ok row) (hports : r.ports.all isPorts = true) (hcidrs : [] ∉ r.cidrs) :
    Proper row.spec := by
  unfold toRow at h
  by_cases hcheck : r.ports.any (· ≠ []) ∧ r.protocol ≠ .tcp ∧ r.protocol ≠ .udp
  · rw [if_pos hcheck] at h
    cases h
  rw [if_neg hcheck] at h
  cases h
  refine ⟨hports, fun hsome => ?_, ?_⟩
  · change r.ports ≠ none at hsome
    obtain ⟨ports, hp⟩ := Option.ne_none_iff_exists'.mp hsome
    have hne : ports ≠ [] := fun hnil => by
      rw [hp, hnil] at hports
      exact absurd hports (by decide)
    by_contra hnot
    rw [not_or] at hnot
    exact hcheck ⟨by rw [hp]; simpa using hne, hnot⟩
  · unfold FirewallRule.spec
    cases hd : r.direction <;> simpa [hd] using hcidrs

theorem lookup_ite (c : Prop) [Decidable c] (j k v : Text) :
    (if c then [(k, v)] else [] : Form).lookup j = if c ∧ j = k then some v else none := by
  by_cases hc : c <;> by_cases hj : j = k <;> simp [hc, hj]

/-- The fields of a form. -/
theorem lookup_form (r : FWRule) :
    r.form.lookup "type".toList = some r.type ∧
      r.form.lookup "enable".toList = some ['1'] ∧
      r.form.lookup "proto".toList =
        (if r.proto ≠ [] ∧ r.proto ≠ "any".toList then some r.proto else none) ∧
      r.form.lookup "dport".toList =
        (if r.dport ≠ [] ∧ (r.proto = "tcp".toList ∨ r.proto = "udp".toList) then
          some (r.dport.map fun c => if c = '-' then ':' else c) else none) ∧
      r.form.lookup "source".toList = (if r.source ≠ [] then some r.source else none) ∧
      r.form.lookup "dest".toList = if r.dest ≠ [] then some r.dest else none := by
  unfold FWRule.form
  simp only [List.lookup_append, lookup_ite, List.lookup_cons]
  refine ⟨?_, ?_, ?_, ?_, ?_, ?_⟩
  all_goals simp

/-- The protocol "any" is no field. -/
theorem proto_all (protocol : Protocol) (n : ℕ) :
    (if protocol.name.toList ≠ [] ∧ protocol.name.toList ≠ "any".toList then
      some protocol.name.toList else none).all (fun v => protoNumber v = some n) =
      protocol.number.all (· = n) := by
  cases protocol <;> simp [Protocol.name, Protocol.number, protoNumber]

theorem name_eq_iff (protocol : Protocol) :
    (protocol.name.toList = "tcp".toList ∨ protocol.name.toList = "udp".toList) ↔
      protocol = .tcp ∨ protocol = .udp := by
  cases protocol <;> simp [Protocol.name]

theorem dport_all {r : FirewallRuleSpec} (h : Proper r) (port : ℕ) :
    (if r.ports.getD [] ≠ [] ∧ (r.protocol = .tcp ∨ r.protocol = .udp) then
      some ((r.ports.getD []).map fun c => if c = '-' then ':' else c) else none).all
        (dportContains · port) = r.ports.all (portsContain · port) := by
  cases hp : r.ports with
  | none => rw [if_neg fun hnot => hnot.1 rfl]; rfl
  | some ports =>
    have hports : isPorts ports = true := by simpa [hp] using h.ports
    have hne : ports ≠ [] := fun hnil => by
      rw [hnil] at hports
      exact absurd hports (by decide)
    rw [Option.getD_some, if_pos ⟨hne, h.protocol (by simp [hp])⟩, Option.all_some, Option.all_some,
      dportContains, split_translated (notMem_of_isPorts hports)]
    rfl

theorem matchesRule_ruleFor {r : FirewallRuleSpec} (h : Proper r) {cidr : Text} (hcidr : cidr ≠ [])
    (p : Packet) : matchesRule (ruleFor r cidr).form p = true ↔
      r.direction = p.direction ∧ r.protocol.number.all (· = p.protocol) = true ∧
        r.ports.all (portsContain · p.port) = true ∧ cidrContains cidr p.peer = true := by
  obtain ⟨htype, henable, hproto, hdport, hsource, hdest⟩ := lookup_form (ruleFor r cidr)
  have hfields : (ruleFor r cidr).proto = r.protocol.name.toList ∧
      (ruleFor r cidr).dport = r.ports.getD [] := by
    unfold ruleFor
    cases r.direction <;> exact ⟨rfl, rfl⟩
  rw [hfields.1, hfields.2] at hdport
  simp only [name_eq_iff] at hdport
  rw [hfields.1] at hproto
  rw [matchesRule, htype, henable, hproto, hdport, hsource, hdest, proto_all, dport_all h]
  have hin : "in".toList ≠ "out".toList := by decide
  cases hr : r.direction <;> cases hp : p.direction <;>
    simp only [ruleFor, hr, hp, source, dest, hcidr, hin, hin.symm, Option.some.injEq,
      Option.all_some, Option.all_none, ne_eq, not_true_eq_false, not_false_eq_true, if_true,
      if_false, reduceCtorEq, decide_true, decide_false, Bool.true_and, Bool.false_and,
      Bool.and_true, Bool.and_eq_true, Bool.false_eq_true, true_and, false_and, and_assoc]

/-- A written rule matches exactly if a rule of the customer covers the packet. -/
theorem exists_matches_iff {rules : List FirewallRuleSpec} (h : ∀ r ∈ rules, Proper r)
    (p : Packet) :
    (∃ f ∈ forms rules, matchesRule f p = true) ↔ Permits rules p.toTraffic := by
  simp only [forms, List.mem_reverse, toPVERules, List.mem_map, List.mem_flatMap, Permits]
  constructor
  · rintro ⟨-, ⟨-, ⟨r, hr, cidr, hcidr, rfl⟩, rfl⟩, hmatch⟩
    have hne : cidr ≠ [] := fun hnil => (h r hr).cidrs (hnil ▸ hcidr)
    obtain ⟨hd, hproto, hports, hpeer⟩ := (matchesRule_ruleFor (h r hr) hne p).mp hmatch
    refine ⟨r, hr, ?_⟩
    rw [FirewallRuleSpec.admits, hproto, hports, List.any_eq_true.mpr ⟨cidr, hcidr, hpeer⟩,
      decide_eq_true hd]
    rfl
  · rintro ⟨r, hr, hadmits⟩
    simp only [FirewallRuleSpec.admits, Bool.and_eq_true, decide_eq_true_eq] at hadmits
    obtain ⟨⟨⟨hd, hproto⟩, hports⟩, hpeer⟩ := hadmits
    obtain ⟨cidr, hcidr, hcontains⟩ := List.any_eq_true.mp hpeer
    have hne : cidr ≠ [] := fun hnil => (h r hr).cidrs (hnil ▸ hcidr)
    exact ⟨_, ⟨_, ⟨r, hr, cidr, hcidr, rfl⟩, rfl⟩,
      (matchesRule_ruleFor (h r hr) hne p).mpr ⟨hd, hproto, hports, hcontains⟩⟩

/-- The written rules accept what the customer's rules permit, and everything outbound. -/
theorem accepts_forms_iff {rules : List FirewallRuleSpec} (h : ∀ r ∈ rules, Proper r) (on : Bool)
    (vm : Vm) (p : Packet) : accepts matchesRule (rewritten on vm (forms rules)) p = true ↔
      p.direction = .outbound ∨ Permits rules p.toTraffic := by
  obtain ⟨henable, hin, hout⟩ := get_writtenOptions on vm.options
  simp only [rewritten, accepts, passes, henable, ne_eq, not_true_eq_false, decide_false,
    Bool.false_or]
  rw [← exists_matches_iff h]
  cases hfind : (forms rules).find? (matchesRule · p) with
  | some f =>
    have hmatch : matchesRule f p = true := @List.find?_some _ (matchesRule · p) _ _ hfind
    have hf := List.mem_of_find?_eq_some hfind
    exact iff_of_true (decide_eq_true (action_of_forms hf)) (.inr ⟨f, hf, hmatch⟩)
  | none =>
    have hnone : ¬ ∃ f ∈ forms rules, matchesRule f p = true := fun ⟨f, hf, hmatch⟩ =>
      List.find?_eq_none.mp hfind f hf hmatch
    rw [or_iff_left hnone]
    cases hd : p.direction with
    | inbound =>
      dsimp only [policy]
      rw [hin]
      decide
    | outbound =>
      dsimp only [policy]
      rw [hout]
      decide

/-! ## The calls that replace the rules -/

/-- Some deletion among the first `n` calls was answered with an error, and not made. -/
def Refused (n : ℕ) (fates : List Fate) : Prop :=
  ∃ code, Fate.failed (.status code) false ∈ fates.take n

theorem refused_succ {n : ℕ} {fates : List Fate} : Refused (n + 1) fates ↔
    (∃ code, fates.head? = some (.failed (.status code) false)) ∨ Refused n (fates.drop 1) := by
  cases fates with
  | nil => simp [Refused]
  | cons fate rest =>
    simp only [Refused, List.take_succ_cons, List.mem_cons, List.head?_cons, List.drop_one,
      List.tail_cons, exists_or, Option.some.injEq, eq_comm (a := fate)]

theorem deleteRule_cases (pos : ℕ) (vm : Vm) (fates : List Fate) :
    (deleteRule pos vm fates =
        ⟨.ok (), { vm with rules := vm.rules.eraseIdx pos }, fates.drop 1⟩ ∧
      ¬ ∃ code, fates.head? = some (.failed (.status code) false)) ∨
    (deleteRule pos vm fates = ⟨.ok (), vm, fates.drop 1⟩ ∧
      ∃ code, fates.head? = some (.failed (.status code) false)) ∨
    ∃ applied : Bool, deleteRule pos vm fates = ⟨.error .transport,
      if applied then { vm with rules := vm.rules.eraseIdx pos } else vm, fates.drop 1⟩ := by
  match fates with
  | [] => exact .inl ⟨rfl, by simp⟩
  | .ok :: rest => exact .inl ⟨rfl, by simp⟩
  | .failed (.status code) true :: rest => exact .inl ⟨rfl, by simp⟩
  | .failed (.status code) false :: rest => exact .inr (.inl ⟨rfl, code, rfl⟩)
  | .failed .transport applied :: rest => exact .inr (.inr ⟨applied, rfl⟩)

/-- The deletions go from the end. Those that were refused leave their rules, and an answer that
is missing ends the loop. -/
theorem deletes_spec (pre post : List Form) {vm : Vm} (h : vm.rules = pre ++ post)
    (fates : List Fate) :
    (∃ kept, ((List.range pre.length).reverse.forM deleteRule) vm fates =
        ⟨.ok (), { vm with rules := kept ++ post }, fates.drop pre.length⟩ ∧
      (kept = [] ↔ ¬ Refused pre.length fates)) ∨
    ∃ rules, (∃ rest, ((List.range pre.length).reverse.forM deleteRule) vm fates =
        ⟨.error .transport, { vm with rules := rules }, rest⟩) ∧
      (¬ Refused pre.length fates → ∃ m, rules = pre.take m ++ post) := by
  induction pre using List.reverseRecOn generalizing vm post fates with
  | nil =>
    refine .inl ⟨[], ?_, by simp [Refused]⟩
    rw [← h]
    rfl
  | append_singleton pre x ih =>
    rw [List.append_assoc] at h
    have herase : vm.rules.eraseIdx pre.length = pre ++ post := by
      rw [h, List.eraseIdx_append_of_length_le le_rfl, Nat.sub_self]
      rfl
    rw [List.length_append, List.length_singleton, List.range_succ, List.reverse_append,
      List.reverse_singleton, List.singleton_append, Calls.forM_cons, refused_succ]
    rcases deleteRule_cases pre.length vm fates with ⟨hdel, hhead⟩ | ⟨hdel, hhead⟩ | ⟨applied, hdel⟩
    · rw [bind_ok hdel, herase]
      have hleft : ({ vm with rules := pre ++ post } : Vm).rules = pre ++ post := rfl
      rcases ih post hleft (fates.drop 1) with
        ⟨kept, hrun, hkept⟩ | ⟨rules, hrun, hrules⟩
      · refine .inl ⟨kept, by rw [hrun, List.drop_drop, Nat.add_comm], ?_⟩
        rw [hkept, not_or]
        exact ⟨fun hnot => ⟨hhead, hnot⟩, fun hnot => hnot.2⟩
      · refine .inr ⟨rules, hrun, fun hnot => ?_⟩
        obtain ⟨m, rfl⟩ := hrules fun hr => hnot (.inr hr)
        exact ⟨min m pre.length, by simp [List.take_append]⟩
    · rw [bind_ok hdel]
      rcases ih (x :: post) h (fates.drop 1) with
        ⟨kept, hrun, -⟩ | ⟨rules, hrun, -⟩
      · refine .inl ⟨kept ++ [x], by rw [hrun, List.drop_drop, Nat.add_comm]; simp, ?_⟩
        exact iff_of_false (by simp) fun hnot => hnot (.inl hhead)
      · exact .inr ⟨rules, hrun, fun hnot => absurd (.inl hhead) hnot⟩
    · rw [bind_of_error hdel]
      cases applied with
      | true =>
        exact .inr ⟨pre ++ post, ⟨_, by rw [if_pos rfl, herase]⟩, fun _ =>
          ⟨pre.length, by rw [List.take_left]⟩⟩
      | false =>
        refine .inr ⟨vm.rules, ⟨_, rfl⟩, fun _ => ⟨pre.length + 1, ?_⟩⟩
        rw [h, List.take_of_length_le (by simp), List.append_assoc]

/-- The new rules go on top, one by one. -/
theorem adds_spec (rules : List FWRule) (vm : Vm) (fates : List Fate) :
    (∃ rest,
      (rules.forM fun r => write fun vm => { vm with rules := r.form :: vm.rules }) vm fates =
      ⟨.ok (), { vm with rules := (rules.map FWRule.form).reverse ++ vm.rules }, rest⟩) ∨
    ∃ e rest m,
      (rules.forM fun r => write fun vm => { vm with rules := r.form :: vm.rules }) vm fates =
      ⟨.error e, { vm with
        rules := ((rules.take m).map FWRule.form).reverse ++ vm.rules }, rest⟩ := by
  induction rules generalizing vm fates with
  | nil => exact .inl ⟨fates, rfl⟩
  | cons r rules ih =>
    rw [Calls.forM_cons]
    rcases write_cases (fun vm : Vm => { vm with rules := r.form :: vm.rules }) vm fates with
      hok | ⟨e, hfail | hfail⟩
    · rw [bind_ok hok]
      rcases ih { vm with rules := r.form :: vm.rules } (fates.drop 1) with
        ⟨rest, hrun⟩ | ⟨e, rest, m, hrun⟩
      · exact .inl ⟨rest, by rw [hrun]; simp⟩
      · exact .inr ⟨e, rest, m + 1, by rw [hrun]; simp⟩
    · exact .inr ⟨e, _, 1, bind_of_error hfail⟩
    · exact .inr ⟨e, _, 0, bind_of_error hfail⟩

/-- How the replacement ends. -/
theorem setFirewall_cases (rules : List FWRule) (on : Bool) (vm : Vm) (fates : List Fate) :
    (∃ kept rest, setFirewall rules on vm fates =
        ⟨.ok (), rewritten on vm ((rules.map FWRule.form).reverse ++ kept), rest⟩ ∧
      (kept = [] ↔ ¬ Refused vm.rules.length (fates.drop 2))) ∨
    ∃ e rest left, setFirewall rules on vm fates = ⟨.error e, left, rest⟩ ∧
      (left = vm ∨ (¬ Refused vm.rules.length (fates.drop 2) →
        (∃ m, left = rewritten on vm (vm.rules.take m)) ∨
        ∃ m, left = rewritten on vm ((rules.take m).map FWRule.form).reverse)) := by
  have htwo : fates.drop 2 = (fates.drop 1).drop 1 := by rw [List.drop_drop]
  unfold setFirewall
  rw [htwo]
  rcases write_cases (fun v : Vm => rewritten on v v.rules) vm fates with
    hopts | ⟨e, hopts | hopts⟩
  · rcases read_cases (fun v : Vm => List.range v.rules.length)
      (rewritten on vm vm.rules) (fates.drop 1) with hread | ⟨e, hread⟩
    · have hrules : (rewritten on vm vm.rules).rules = vm.rules ++ [] := (List.append_nil _).symm
      rcases deletes_spec vm.rules [] hrules ((fates.drop 1).drop 1) with
        ⟨kept, hdel, hkept⟩ | ⟨left, ⟨rest, hdel⟩, hleft⟩
      · rw [List.append_nil] at hdel
        rcases adds_spec rules (rewritten on vm kept)
          (((fates.drop 1).drop 1).drop vm.rules.length) with ⟨rest, hadd⟩ | ⟨e, rest, m, hadd⟩
        · refine .inl ⟨kept, rest, ?_, hkept⟩
          exact (bind_ok hopts).trans ((bind_ok hread).trans ((bind_ok hdel).trans hadd))
        · refine .inr ⟨e, rest, _,
            (bind_ok hopts).trans ((bind_ok hread).trans ((bind_ok hdel).trans hadd)),
            .inr fun hnot => .inr ⟨m, ?_⟩⟩
          rw [hkept.mpr hnot, rewritten, rewritten, List.append_nil]
      · refine .inr ⟨.transport, rest, _,
          (bind_ok hopts).trans ((bind_ok hread).trans (bind_of_error hdel)),
          .inr fun hnot => .inl ?_⟩
        obtain ⟨m, rfl⟩ := hleft hnot
        exact ⟨m, by rw [List.append_nil]; rfl⟩
    · refine .inr ⟨e, _, _, (bind_ok hopts).trans (bind_of_error hread),
        .inr fun _ => .inl ⟨vm.rules.length, ?_⟩⟩
      rw [List.take_length]
  · refine .inr ⟨e, _, _, bind_of_error hopts, .inr fun _ => .inl ⟨vm.rules.length, ?_⟩⟩
    rw [List.take_length]
  · exact .inr ⟨e, _, _, bind_of_error hopts, .inl rfl⟩

section
variable {matchesRule : Form → Packet → Bool}

/-- A prefix of the rules, with everything else refused, accepts nothing more than all of them. -/
theorem accepts_beginning {vm : Vm} {on : Bool} {p : Packet} (hp : p.direction = .inbound) (m : ℕ)
    (h : accepts matchesRule (rewritten on vm (vm.rules.take m)) p = true) :
    accepts matchesRule vm p = true := by
  obtain ⟨henable, hpolicy, -⟩ := get_writtenOptions on vm.options
  simp only [rewritten, accepts, passes, policy, henable, hpolicy, hp] at h ⊢
  by_cases hon : IpFilter.get vm.options "enable".toList = ['1']
  · cases hfind : (vm.rules.take m).find? (matchesRule · p) with
    | none =>
      rw [hfind] at h
      exact absurd h (by decide)
    | some f =>
      have hfull : vm.rules.find? (matchesRule · p) = some f := by
        rw [← List.take_append_drop m vm.rules, List.find?_append, hfind]
        rfl
      rw [hfind] at h
      simp only [hon, hfull] at h ⊢
      exact h
  · rw [decide_eq_true hon, Bool.true_or]

/-- Rules that all accept and refuse the rest accept more when there are more of them. -/
theorem accepts_more {rules : List FirewallRuleSpec} {vm : Vm} {on : Bool} {p : Packet}
    (hp : p.direction = .inbound) {some' : List Form} (hsub : ∀ f ∈ some', f ∈ forms rules)
    (h : accepts matchesRule (rewritten on vm some') p = true) :
    accepts matchesRule (rewritten on vm (forms rules)) p = true := by
  obtain ⟨henable, hpolicy, -⟩ := get_writtenOptions on vm.options
  simp only [rewritten, accepts, passes, policy, henable, hpolicy, hp] at h ⊢
  cases hfind : some'.find? (matchesRule · p) with
  | none =>
    rw [hfind] at h
    exact absurd h (by decide)
  | some f =>
    have hmatch : matchesRule f p = true := @List.find?_some _ (matchesRule · p) _ _ hfind
    have hsome : ((forms rules).find? (matchesRule · p)).isSome := by
      rw [List.find?_isSome]
      exact ⟨f, hsub f (List.mem_of_find?_eq_some hfind), hmatch⟩
    obtain ⟨g, hg⟩ := Option.isSome_iff_exists.mp hsome
    have haction := action_of_forms (List.mem_of_find?_eq_some hg)
    rw [hg]
    dsimp only
    rw [haction, decide_eq_true rfl, Bool.or_true]

variable (matchesRule)

/-- When it ends well, the rules are the new ones exactly if no deletion was refused. Then, when it
fails, it lets nothing in that neither the old rules nor the new ones let in. -/
theorem setFirewall_replaces_iff (vm : Vm) (rules : List FirewallRuleSpec) (on : Bool)
    (fates : List Fate) :
    (∀ u, (setFirewall (toPVERules rules) on vm fates).result = .ok u →
      ((setFirewall (toPVERules rules) on vm fates).state.rules.Perm
          ((toPVERules rules).map FWRule.form) ↔ ¬ Refused vm.rules.length (fates.drop 2))) ∧
    (∀ e, (setFirewall (toPVERules rules) on vm fates).result = .error e →
      ¬ Refused vm.rules.length (fates.drop 2) → ∀ p : Packet, p.direction = .inbound →
      accepts matchesRule (setFirewall (toPVERules rules) on vm fates).state p = true →
      accepts matchesRule vm p = true ∨
        accepts matchesRule (rewritten on vm (forms rules)) p = true) := by
  rcases setFirewall_cases (toPVERules rules) on vm fates with
    ⟨kept, rest, hrun, hkept⟩ | ⟨e, rest, left, hrun, hleft⟩
  · rw [hrun]
    refine ⟨fun _ _ => ?_, fun e he => by cases he⟩
    rw [← hkept]
    constructor
    · intro hperm
      have hlength := hperm.length_eq
      dsimp only [rewritten] at hlength
      rw [List.length_append, List.length_reverse] at hlength
      exact List.length_eq_zero_iff.mp (by omega)
    · rintro rfl
      dsimp only [rewritten]
      rw [List.append_nil]
      exact List.reverse_perm _
  · rw [hrun]
    refine ⟨fun _ hok => by (cases hok), fun _ _ hnot p hp h => ?_⟩
    rcases hleft with rfl | hleft
    · exact .inl h
    · rcases hleft hnot with ⟨m, rfl⟩ | ⟨m, rfl⟩
      · exact .inl (accepts_beginning hp m h)
      · refine .inr (accepts_more hp (fun f hf => ?_) h)
        rw [List.mem_reverse] at hf
        obtain ⟨r, hr, rfl⟩ := List.mem_map.mp hf
        exact List.mem_reverse.mpr (List.mem_map_of_mem (List.mem_of_mem_take hr))

end

/-- SSH from the office, in the place of SSH from everywhere: the deletion of the old rule is
answered with an error, and the call ends well with both. -/
theorem setFirewall_keeps_old :
    (setFirewall (toPVERules [(officeRow "22".toList).spec]) false
        ⟨.empty, .empty, .empty, [(ruleFor (officeRow "22".toList).spec "0.0.0.0/0".toList).form]⟩
        [.ok, .ok, .failed (.status 500) false]).result = .ok () ∧
      (setFirewall (toPVERules [(officeRow "22".toList).spec]) false
        ⟨.empty, .empty, .empty, [(ruleFor (officeRow "22".toList).spec "0.0.0.0/0".toList).form]⟩
        [.ok, .ok, .failed (.status 500) false]).state.rules =
        [(ruleFor (officeRow "22".toList).spec "10.0.0.0/8".toList).form,
          (ruleFor (officeRow "22".toList).spec "0.0.0.0/0".toList).form] ∧
      ¬ [(ruleFor (officeRow "22".toList).spec "10.0.0.0/8".toList).form,
          (ruleFor (officeRow "22".toList).spec "0.0.0.0/0".toList).form].Perm
        ((toPVERules [(officeRow "22".toList).spec]).map FWRule.form) := by
  refine ⟨rfl, rfl, fun hperm => ?_⟩
  exact absurd hperm.length_eq (by decide)

/-! ## What the rules on the hypervisor mean -/

/-- For rules that the API took, none of them with an empty CIDR: what comes in is accepted
exactly if a rule covers it, and what goes out is accepted. -/
theorem setFirewall_accepts_iff (vm : Vm) (on : Bool) (id : ℕ) (rules : List FirewallRuleDto)
    (rows : List FirewallRule) (fates : List Fate) (hrows : rules.mapM (toRow id) = .ok rows)
    (hports : ∀ r ∈ rules, r.ports.all isPorts = true) (hcidrs : ∀ r ∈ rules, [] ∉ r.cidrs)
    (hok : (setFirewall (toPVERules (rows.map FirewallRule.spec)) on vm fates).result = .ok ())
    (hdeleted : ¬ Refused vm.rules.length (fates.drop 2)) (p : Packet) :
    accepts matchesRule
        (setFirewall (toPVERules (rows.map FirewallRule.spec)) on vm fates).state p = true ↔
      p.direction = .outbound ∨ Permits (rows.map FirewallRule.spec) p.toTraffic := by
  have hproper : ∀ r ∈ rows.map FirewallRule.spec, Proper r := by
    intro r hr
    obtain ⟨row, hrow, rfl⟩ := List.mem_map.mp hr
    obtain ⟨dto, hdto, htoRow⟩ := mapM_ok_mem hrows row hrow
    exact proper_of_toRow htoRow (hports dto hdto) (hcidrs dto hdto)
  rcases setFirewall_cases (toPVERules (rows.map FirewallRule.spec)) on vm fates with
    ⟨kept, rest, hrun, hkept⟩ | ⟨e, rest, left, hrun, -⟩
  · rw [hrun, hkept.mpr hdeleted, List.append_nil]
    exact accepts_forms_iff hproper on vm p
  · rw [hrun] at hok
    cases hok

/-- SSH to the office comes in. -/
theorem setFirewall_accepts_ssh :
    accepts matchesRule (setFirewall (toPVERules [(officeRow "22".toList).spec]) false
        ⟨.empty, .empty, .empty, []⟩ []).state
        ⟨⟨.inbound, 6, 22, .v4 0x0A010203#32⟩, .v4 0x05060708#32⟩ = true ↔
      Direction.inbound = .outbound ∨
        Permits [(officeRow "22".toList).spec] ⟨.inbound, 6, 22, .v4 0x0A010203#32⟩ :=
  setFirewall_accepts_iff ⟨.empty, .empty, .empty, []⟩ false 1 [officeSsh]
    [officeRow "22".toList] [] rfl (by decide) (by decide) rfl (by simp [Refused]) _

/-- A packet to a name server goes out, and no rule is for outbound traffic. -/
theorem setFirewall_accepts_uncovered :
    [officeSsh].mapM (toRow 1) = .ok [officeRow "22".toList] ∧
      accepts matchesRule (setFirewall (toPVERules [(officeRow "22".toList).spec]) false
        ⟨.empty, .empty, .empty, []⟩ []).state
        ⟨⟨.outbound, 17, 53, .v4 0x01010101#32⟩, .v4 0x05060708#32⟩ = true ∧
      ¬ Permits [(officeRow "22".toList).spec] ⟨.outbound, 17, 53, .v4 0x01010101#32⟩ := by
  refine ⟨rfl, by decide, ?_⟩
  rintro ⟨r, hr, hadmits⟩
  rw [List.mem_singleton.mp hr] at hadmits
  exact absurd hadmits (by decide)

end Prgd.HostFirewall
