import Prgd.FallibleCalls
import Prgd.Interleaving
import Prgd.JsNumber
import Prgd.Meters

/-!
# The IP filter of a VM

The agent of a host changes the network cards, the firewall options and the IP sets of a VM by
single calls to Proxmox, each of which may fail, with its effect or without. With the option
`ipfilter` on a card may only send from the addresses in its IP set, so a card whose set lacks its
own address is cut off.

`applyFirewall` fills the sets before it turns the option on, and turns the option off before it
deletes sets; `detachIP` deletes the card before its set. `attachIP` gives the card its new address
before it reads the option and fills the set, so a failure in between cuts the card off. Cards,
sets and rules are as the calls leave them: the MAC that Proxmox adds to a card is left out.
-/
namespace Prgd.IpFilter
open Calls Interleaving
open Meters (cutPrefix)

/-! ## The VM -/

/-- The fields of a posted rule. -/
abbrev Form := List (Text × Text)

structure Vm where
  config : Table Text Text
  /-- The firewall options. -/
  options : Table Text Text
  ipsets : Table Text (List Text) := .empty
  rules : List Form := []

def get (m : Table Text Text) (k : Text) : Text := (m.find k).getD []

def net1 : Text := "net1".toList
def ipconfig1 : Text := "ipconfig1".toList
def ipfilter : Text := "ipfilter".toList

/-- `ipfilter-<nic>`. -/
def setName (nic : Text) : Text := "ipfilter-".toList ++ nic

/-- The number of a network card, for a key of the config that names one. -/
def nicNumber (key : Text) : Option Text := (cutPrefix key "net".toList).filter Text.isDigits

def ipconfigKey (number : Text) : Text := "ipconfig".toList ++ number

/-- The address of a cloud-init ipconfig with a static address, or nothing. -/
def staticAddress (ipconfig : Text) : Text :=
  ((Text.split ipconfig [',']).findSome? fun part =>
    match cutPrefix part "ip=".toList with
    | some v => if v ≠ "dhcp".toList then some (v.takeWhile (· ≠ '/')) else none
    | none => none).getD []

/-! ## The calls of the client -/

def config : Prog Vm (Table Text Text) := read Vm.config

def setConfig (form : Form) : Prog Vm Unit :=
  write fun vm => { vm with config := form.foldl (fun t e => t.put e.1 e.2) vm.config }

def deleteConfig (keys : List Text) : Prog Vm Unit :=
  write fun vm => { vm with config := keys.foldl Table.erase vm.config }

/-- Older nodes without the endpoint are tolerated. -/
def regenerateCloudInit : Prog Vm Unit :=
  tolerate (fun e => e = .status 501 ∨ e = .status 404) (write id)

def firewallOptions : Prog Vm (Table Text Text) := read Vm.options

def hasIPSet (name : Text) : Prog Vm Bool := do
  let sets ← read fun vm => vm.ipsets.rows.map Prod.fst
  return sets.contains name

def createIPSet (name : Text) : Prog Vm Unit :=
  write fun vm => { vm with ipsets := vm.ipsets.put name [] }

def deleteEntry (name cidr : Text) : Prog Vm Unit :=
  write fun vm => { vm with ipsets := vm.ipsets.modify name fun l => l.filter (· ≠ cidr) }

def addEntry (name cidr : Text) : Prog Vm Unit :=
  write fun vm => { vm with ipsets := vm.ipsets.modify name fun l => l ++ [cidr] }

/-- Makes the IP set hold exactly `cidrs`, and creates it when it is missing. -/
def syncIPSet (name : Text) (cidrs : List Text) : Prog Vm Unit := do
  let present ← hasIPSet name
  (if present then pure () else createIPSet name)
  let entries ← read fun vm => (vm.ipsets.find name).getD []
  (entries.filter fun e => e ∉ cidrs).forM fun e => deleteEntry name e
  (cidrs.filter fun c => c ∉ entries).forM fun c => addEntry name c

/-- A missing set is fine. -/
def deleteIPSet (name : Text) : Prog Vm Unit := do
  let present ← hasIPSet name
  if present then write fun vm => { vm with ipsets := vm.ipsets.erase name } else pure ()

structure FWRule where
  type : Text
  action : Text
  proto : Text := []
  dport : Text := []
  source : Text := []
  dest : Text := []

/-- Ports only mean something for tcp and udp. -/
def FWRule.form (r : FWRule) : Form :=
  [("type".toList, r.type), ("action".toList, r.action), ("enable".toList, ['1'])] ++
  (if r.proto ≠ [] ∧ r.proto ≠ "any".toList then [("proto".toList, r.proto)] else []) ++
  (if r.dport ≠ [] ∧ (r.proto = "tcp".toList ∨ r.proto = "udp".toList) then
    [("dport".toList, r.dport.map fun c => if c = '-' then ':' else c)] else []) ++
  (if r.source ≠ [] then [("source".toList, r.source)] else []) ++
  (if r.dest ≠ [] then [("dest".toList, r.dest)] else [])

def firewallForm (on : Bool) : Form :=
  [("enable".toList, ['1']), ("policy_in".toList, "DROP".toList),
    ("policy_out".toList, "ACCEPT".toList), ("dhcp".toList, ['1']), ("ndp".toList, ['1']),
    (ipfilter, if on then ['1'] else ['0'])]

/-- A deletion looks at no status: only a call without an answer ends the loop. -/
def deleteRule (pos : ℕ) : Prog Vm Unit :=
  tolerate (fun e => e ≠ .transport) (write fun vm => { vm with rules := vm.rules.eraseIdx pos })

/-- Replaces the rules of the VM, after the options. -/
def setFirewall (rules : List FWRule) (on : Bool) : Prog Vm Unit := do
  write fun vm =>
    { vm with options := (firewallForm on).foldl (fun t e => t.put e.1 e.2) vm.options }
  let existing ← read fun vm => List.range vm.rules.length
  existing.reverse.forM deleteRule
  rules.forM fun r => write fun vm => { vm with rules := r.form :: vm.rules }

/-! ## The jobs -/

/-- The control plane sends the text of an address, which the dispatch takes only when
it is not empty. -/
structure PublicIP where
  address : Text
  gateway : Text := []
  prefixLength : ℕ
  address_ne : address ≠ []
  plain : ',' ∉ address ∧ '/' ∉ address

def PublicIP.ipconfig (ip : PublicIP) : Text :=
  let ipconfig := "ip=".toList ++ ip.address ++ ['/'] ++ JsNumber.digits ip.prefixLength
  if ip.gateway ≠ [] then ipconfig ++ ",gw=".toList ++ ip.gateway else ipconfig

/-- The card keeps its MAC when it has one. -/
def publicNic (bridge : Text) (cfg : Table Text Text) : Text :=
  let model := (get cfg net1).takeWhile (· ≠ ',')
  (if Text.startsWith model "virtio=".toList then model else "virtio".toList) ++
    ",bridge=".toList ++ bridge ++ ",firewall=1".toList

def attachIP (bridge : Text) (ip : PublicIP) : Prog Vm Unit := do
  let cfg ← config
  setConfig [(net1, publicNic bridge cfg), (ipconfig1, ip.ipconfig)]
  let opts ← firewallOptions
  (if get opts ipfilter = ['1'] then syncIPSet (setName net1) [ip.address] else pure ())
  regenerateCloudInit

def detachIP (address : Text) : Prog Vm Unit := do
  let cfg ← config
  if Text.startsWith (get cfg ipconfig1) ("ip=".toList ++ address ++ ['/']) then do
    deleteConfig [net1, ipconfig1]
    deleteIPSet (setName net1)
    regenerateCloudInit
  else pure ()

/-- An order in which the keys of a map are visited. -/
structure Iteration where
  arrange : List Text → List Text
  perm : ∀ l, (arrange l).Perm l

/-- The addresses that a card gets into its set: those sent for it, when its own static address
is one of them. -/
def allowed (cfg : Table Text Text) (addrs : Table Text (List Text)) (nic : Text) :
    Option (List Text) :=
  let static := staticAddress (get cfg (ipconfigKey ((nicNumber nic).getD [])))
  let list := (addrs.find nic).getD []
  if static ≠ [] ∧ static ∈ list then some list else none

def applyFirewall (rules : List FWRule) (addrs : Option (Table Text (List Text)))
    (visit : Iteration) : Prog Vm Unit :=
  match addrs with
  | none => setFirewall rules false
  | some addrs => do
    let cfg ← config
    let nics := visit.arrange ((cfg.rows.map Prod.fst).filter fun k => (nicNumber k).isSome)
    let enable := nics.all (fun k => (allowed cfg addrs k).isSome) &&
      nics.any fun k => (allowed cfg addrs k).isSome
    (if enable then pure () else setFirewall rules false)
    nics.forM fun k =>
      match allowed cfg addrs k with
      | some list => syncIPSet (setName k) list
      | none => deleteIPSet (setName k)
    if enable then setFirewall rules true else pure ()

inductive Job where
  | applyFirewall (rules : List FWRule) (addrs : Option (Table Text (List Text)))
      (visit : Iteration)
  | attachIP (ip : PublicIP)
  | detachIP (address : Text)

def Job.run (bridge : Text) : Job → Prog Vm Unit
  | .applyFirewall rules addrs visit => IpFilter.applyFirewall rules addrs visit
  | .attachIP ip => IpFilter.attachIP bridge ip
  | .detachIP address => IpFilter.detachIP address

/-- One job, with the fates of its calls. -/
def step (bridge : Text) (vm : Vm) (a : Job × List Fate) : Vm := (a.1.run bridge vm a.2).state

/-! ## Which cards are connected -/

def FilterOn (vm : Vm) : Prop := get vm.options ipfilter = ['1']

def entries (vm : Vm) (name : Text) : List Text := (vm.ipsets.find name).getD []

/-- The static address of a card. -/
def staticOf (cfg : Table Text Text) (number : Text) : Text :=
  staticAddress (get cfg (ipconfigKey number))

/-- The IP set of a card contains its static address. -/
def Connected (vm : Vm) (nic number : Text) : Prop :=
  staticOf vm.config number ≠ [] ∧ staticOf vm.config number ∈ entries vm (setName nic)

/-- With the filter on, every card has an IP set with its static address. -/
def Reachable (vm : Vm) : Prop :=
  FilterOn vm → ∀ e ∈ vm.config.rows, ∀ number ∈ nicNumber e.1, Connected vm e.1 number

instance (vm : Vm) : Decidable (FilterOn vm) := inferInstanceAs (Decidable (_ = _))

instance (vm : Vm) (nic number : Text) : Decidable (Connected vm nic number) :=
  inferInstanceAs (Decidable (_ ∧ _))

instance (vm : Vm) : Decidable (Reachable vm) :=
  inferInstanceAs (Decidable (_ → ∀ e ∈ vm.config.rows, ∀ number ∈ nicNumber e.1, _))

theorem nicNumber_eq_some {key number : Text} (h : nicNumber key = some number) :
    key = "net".toList ++ number := by
  unfold nicNumber at h
  obtain ⟨hcut, -⟩ := Option.filter_eq_some_iff.mp h
  unfold cutPrefix at hcut
  split at hcut
  · rename_i hpre
    obtain ⟨rest, hrest⟩ := List.isPrefixOf_iff_prefix.mp hpre
    rw [← hrest, List.drop_left, Option.some.injEq] at hcut
    rw [← hrest, hcut]
  · cases hcut

theorem ipconfigKey_injective : Function.Injective ipconfigKey :=
  fun _ _ h => List.append_cancel_left h

theorem setName_injective : Function.Injective setName :=
  fun _ _ h => List.append_cancel_left h

/-- Only the public card reads the public ipconfig. -/
theorem ipconfigKey_ne {key number : Text} (h : nicNumber key = some number) (hkey : key ≠ net1) :
    ipconfigKey number ≠ ipconfig1 := by
  intro heq
  have hnumber : number = ['1'] := ipconfigKey_injective heq
  exact hkey (by rw [nicNumber_eq_some h, hnumber]; rfl)

/-- The ipconfig that is written for an address carries it. -/
theorem staticAddress_ipconfig (ip : PublicIP) : staticAddress ip.ipconfig = ip.address := by
  have hform : ∃ tail, ip.ipconfig = "ip=".toList ++ ip.address ++ '/' :: tail := by
    unfold PublicIP.ipconfig
    split
    · exact ⟨JsNumber.digits ip.prefixLength ++ ",gw=".toList ++ ip.gateway, by simp⟩
    · exact ⟨JsNumber.digits ip.prefixLength, by simp⟩
  obtain ⟨tail, htail⟩ := hform
  obtain ⟨more, hmore⟩ := Text.split_head ip.ipconfig ','
  have hall : ∀ c ∈ "ip=".toList ++ ip.address ++ ['/'], (c ≠ ',') = true := by
    intro c hc
    have hplain := ip.plain.1
    simp only [List.mem_append, List.mem_singleton] at hc
    rcases hc with (hc | hc) | hc
    · have hlit : ',' ∉ "ip=".toList := by decide
      simpa using fun heq : c = ',' => hlit (heq ▸ hc)
    · simpa using fun heq : c = ',' => hplain (heq ▸ hc)
    · rw [hc]
      simp
  have hpiece : ip.ipconfig.takeWhile (· ≠ ',') =
      "ip=".toList ++ (ip.address ++ '/' :: tail.takeWhile (· ≠ ',')) := by
    have happ : ip.ipconfig = ("ip=".toList ++ ip.address ++ ['/']) ++ tail := by
      rw [htail]
      simp
    rw [happ, List.takeWhile_append_of_pos (by simpa using hall)]
    simp
  have hvalue : ip.address ++ '/' :: tail.takeWhile (· ≠ ',') ≠ "dhcp".toList := by
    intro heq
    have hmem : '/' ∈ "dhcp".toList := by
      rw [← heq]
      simp
    exact absurd hmem (by decide)
  have haddress : (ip.address ++ '/' :: tail.takeWhile (· ≠ ',')).takeWhile (· ≠ '/') =
      ip.address := by
    rw [List.takeWhile_append_of_pos]
    · simp
    · intro c hc
      simpa using fun heq : c = '/' => ip.plain.2 (heq ▸ hc)
  have hcut : ∀ v, cutPrefix ("ip=".toList ++ v) "ip=".toList = some v := by
    intro v
    have hpre : Text.startsWith ("ip=".toList ++ v) "ip=".toList = true :=
      List.isPrefixOf_iff_prefix.mpr (List.prefix_append ..)
    rw [cutPrefix, if_pos hpre, List.drop_left]
  unfold staticAddress
  rw [hmore, hpiece, List.findSome?_cons, hcut]
  simp only [hvalue, ne_eq, not_false_eq_true, ↓reduceIte, Option.getD_some]
  exact haddress

/-! ## What the calls keep -/

/-- The cards and the options stand, and no connected card loses its address. -/
structure Keeps (vm vm' : Vm) : Prop where
  config : vm'.config = vm.config
  options : vm'.options = vm.options
  connected : ∀ nic number, nicNumber nic = some number →
    Connected vm nic number → Connected vm' nic number

theorem Keeps.filterOn {vm vm' : Vm} (h : Keeps vm vm') : FilterOn vm' ↔ FilterOn vm := by
  rw [FilterOn, FilterOn, h.options]

theorem Keeps.reachable {vm vm' : Vm} (h : Keeps vm vm') (hvm : Reachable vm) :
    Reachable vm' := by
  intro hon e he number hnumber
  rw [h.config] at he
  exact h.connected _ _ hnumber (hvm (h.filterOn.mp hon) e he number hnumber)

theorem entries_modify (vm : Vm) (name other : Text) (g : List Text → List Text) :
    entries { vm with ipsets := vm.ipsets.modify name g } other =
      if other = name then ((vm.ipsets.find other).map g).getD [] else entries vm other := by
  unfold entries
  rw [Table.find_modify]
  split_ifs <;> rfl

theorem entries_of_find {vm : Vm} {name : Text} {list : List Text}
    (h : vm.ipsets.find name = some list) : entries vm name = list := by
  rw [entries, h, Option.getD_some]

theorem Keeps.create {vm : Vm} {name : Text} (h : vm.ipsets.find name = none) :
    Keeps vm { vm with ipsets := vm.ipsets.put name [] } where
  config := rfl
  options := rfl
  connected nic number _ hc := by
    refine ⟨hc.1, ?_⟩
    have hne : setName nic ≠ name := by
      intro heq
      have hmem := hc.2
      rw [heq, entries, h] at hmem
      cases hmem
    have hmem := hc.2
    unfold entries at hmem ⊢
    rwa [Table.find_put_of_ne _ hne]

theorem Keeps.delete {vm : Vm} {nic cidr : Text}
    (h : ∀ number, nicNumber nic = some number → staticOf vm.config number ≠ cidr) :
    Keeps vm { vm with ipsets := vm.ipsets.modify (setName nic) fun l => l.filter (· ≠ cidr) } where
  config := rfl
  options := rfl
  connected key number hnumber hc := by
    refine ⟨hc.1, ?_⟩
    rw [entries_modify]
    split_ifs with heq
    · have hmem := hc.2
      rw [setName_injective heq] at hnumber
      unfold entries at hmem
      cases hf : vm.ipsets.find (setName key) with
      | none => rw [hf] at hmem; cases hmem
      | some list =>
        rw [hf, Option.getD_some] at hmem
        simpa using ⟨hmem, h number hnumber⟩
    · exact hc.2

theorem Keeps.add (vm : Vm) (name cidr : Text) :
    Keeps vm { vm with ipsets := vm.ipsets.modify name fun l => l ++ [cidr] } where
  config := rfl
  options := rfl
  connected key number _ hc := by
    refine ⟨hc.1, ?_⟩
    rw [entries_modify]
    split_ifs with heq
    · have hmem := hc.2
      unfold entries at hmem
      cases hf : vm.ipsets.find (setName key) with
      | none => rw [hf] at hmem; cases hmem
      | some list =>
        rw [hf, Option.getD_some] at hmem
        exact List.mem_append_left _ hmem
    · exact hc.2

section
variable {I E : Vm → Prop}

theorem hasIPSet_spec (name : Text) :
    Triple I (hasIPSet name)
      (fun present v => I v ∧ (present = true ↔ (v.ipsets.find name).isSome)) I := by
  unfold hasIPSet
  refine Triple.bind (Q := fun sets v => I v ∧ sets = v.ipsets.rows.map Prod.fst)
    (Triple.read (fun v hv => ⟨hv, rfl⟩) fun v hv => hv) fun sets => ?_
  refine Triple.pure fun v hv => ⟨hv.1, ?_⟩
  rw [hv.2, List.contains_iff_mem, Table.mem_keys_iff]

/-- Both ends of a synchronisation keep what the cards and their connection decide; a set that
was synchronised holds every wanted address. -/
theorem syncIPSet_spec {nic : Text} {cidrs : List Text} (hI : ∀ v v', Keeps v v' → I v → I v')
    (hcard : ∀ v, I v → ∀ number, nicNumber nic = some number → staticOf v.config number ∈ cidrs) :
    Triple I (syncIPSet (setName nic) cidrs)
      (fun _ v => I v ∧ ∀ c ∈ cidrs, c ∈ entries v (setName nic)) I := by
  unfold syncIPSet
  refine Triple.bind (hasIPSet_spec _) fun present => ?_
  refine Triple.bind (Q := fun _ v => I v ∧ (v.ipsets.find (setName nic)).isSome = true) ?_
    fun _ => ?_
  · split_ifs with hpresent
    · exact Triple.pure fun v hv => ⟨hv.1, hv.2.mp hpresent⟩
    · have hnone : ∀ v : Vm, I v ∧ (present = true ↔ (v.ipsets.find (setName nic)).isSome) →
          v.ipsets.find (setName nic) = none := fun v hv =>
        Option.not_isSome_iff_eq_none.mp fun hs => hpresent (hv.2.mpr hs)
      exact Triple.write
        (fun v hv => ⟨hI _ _ (Keeps.create (hnone v hv)) hv.1, by rw [Table.find_put_self]; rfl⟩)
        (fun v hv => hv.1) fun v hv => hI _ _ (Keeps.create (hnone v hv)) hv.1
  refine Triple.bind (Q := fun old v => I v ∧ (v.ipsets.find (setName nic)).isSome = true ∧
      ∀ c ∈ cidrs, c ∈ old → c ∈ entries v (setName nic))
    (Triple.read (fun v hv => ⟨hv.1, hv.2, fun c _ hc => hc⟩) fun v hv => hv.1) fun old => ?_
  refine Triple.bind (Q := fun _ v => I v ∧ (v.ipsets.find (setName nic)).isSome = true ∧
      ∀ c ∈ cidrs, c ∈ old → c ∈ entries v (setName nic)) ?_ fun _ => ?_
  · -- an address that is not wanted is no card's own address
    refine Triple.forM (fun _ v => I v ∧ (v.ipsets.find (setName nic)).isSome = true ∧
      ∀ c ∈ cidrs, c ∈ old → c ∈ entries v (setName nic)) fun e rest hl => ?_
    have hunwanted : e ∉ cidrs := by
      obtain ⟨done, hdone⟩ := hl
      have hmem : e ∈ old.filter fun e => e ∉ cidrs := by
        rw [hdone]
        exact List.mem_append_right _ (List.mem_cons_self ..)
      simpa using (List.mem_filter.mp hmem).2
    have hkeeps : ∀ v : Vm, I v → Keeps v { v with
        ipsets := v.ipsets.modify (setName nic) fun l => l.filter (· ≠ e) } := fun v hv =>
      Keeps.delete fun number hnumber heq => hunwanted (heq ▸ hcard v hv number hnumber)
    refine Triple.write (fun v hv => ⟨hI _ _ (hkeeps v hv.1) hv.1, ?_, fun c hc hold => ?_⟩)
      (fun v hv => hv.1) fun v hv => hI _ _ (hkeeps v hv.1) hv.1
    · rw [Table.find_modify, if_pos rfl, Option.isSome_map]
      exact hv.2.1
    · have hne : c ≠ e := fun heq => hunwanted (heq ▸ hc)
      have hmem := hv.2.2 c hc hold
      obtain ⟨list, hlist⟩ := Option.isSome_iff_exists.mp hv.2.1
      rw [entries_of_find hlist] at hmem
      rw [entries_modify, if_pos rfl, hlist]
      simpa using ⟨hmem, hne⟩
  · refine (Triple.forM (fun rest v => I v ∧ (v.ipsets.find (setName nic)).isSome = true ∧
      ∀ c ∈ cidrs, c ∈ rest ∨ c ∈ entries v (setName nic)) fun e rest _ => ?_).consequence
      (fun v hv => ⟨hv.1, hv.2.1, fun c hc => ?_⟩)
      (fun _ v hv => ⟨hv.1, fun c hc => (hv.2.2 c hc).resolve_left List.not_mem_nil⟩)
      fun v hv => hv
    · refine Triple.write (fun v hv => ⟨hI _ _ (Keeps.add v _ e) hv.1, ?_, fun c hc => ?_⟩)
        (fun v hv => hv.1) fun v hv => hI _ _ (Keeps.add v _ e) hv.1
      · rw [Table.find_modify, if_pos rfl, Option.isSome_map]
        exact hv.2.1
      · obtain ⟨list, hlist⟩ := Option.isSome_iff_exists.mp hv.2.1
        have hmem := hv.2.2 c hc
        rw [entries_of_find hlist] at hmem
        rw [entries_modify, if_pos rfl, hlist]
        simp only [List.mem_cons] at hmem
        simp only [Option.map_some, Option.getD_some, List.mem_append, List.mem_singleton]
        tauto
    · by_cases hold : c ∈ old
      · exact .inr (hv.2.2 c hc hold)
      · exact .inl (List.mem_filter.mpr ⟨hc, by simpa using hold⟩)

theorem regenerateCloudInit_spec : Triple I regenerateCloudInit (fun _ => I) I :=
  Triple.tolerate (Triple.write (fun _ hv => hv) (fun _ hv => hv) fun _ hv => hv)

/-- The options are written first; the rules play no part in what comes after. -/
theorem setFirewall_spec {Q : Vm → Prop} {rules : List FWRule} {on : Bool}
    (hoptions : ∀ v, I v → Q { v with
      options := (firewallForm on).foldl (fun t e => t.put e.1 e.2) v.options })
    (hrules : ∀ v forms, Q v → Q { v with rules := forms })
    (hI : ∀ v, I v → E v) (hQ : ∀ v, Q v → E v) :
    Triple I (setFirewall rules on) (fun _ => Q) E := by
  unfold setFirewall
  refine Triple.bind (Q := fun _ => Q)
    (Triple.write hoptions hI fun v hv => hQ _ (hoptions v hv)) fun _ => ?_
  refine Triple.bind (Q := fun _ => Q) (Triple.read (fun v hv => hv) hQ) fun existing => ?_
  refine Triple.bind (Q := fun _ => Q) ?_ fun _ => ?_
  · refine (Triple.forM_invariant (I := Q) fun pos _ => ?_).consequence
      (fun v hv => hv) (fun _ v hv => hv) hQ
    exact Triple.tolerate (Triple.write (fun v hv => hrules v _ hv) (fun v hv => hv)
      fun v hv => hrules v _ hv)
  · refine (Triple.forM_invariant (I := Q) fun rule _ => ?_).consequence
      (fun v hv => hv) (fun _ v hv => hv) hQ
    exact Triple.write (fun v hv => hrules v _ hv) (fun v hv => hv) fun v hv => hrules v _ hv

/-- The option `ipfilter` is what was asked for. -/
theorem filterOn_written (v : Vm) (on : Bool) :
    FilterOn { v with options := (firewallForm on).foldl (fun t e => t.put e.1 e.2) v.options } ↔
      on = true := by
  have hget : get ((firewallForm on).foldl (fun t e => t.put e.1 e.2) v.options) ipfilter =
      if on then ['1'] else ['0'] := by
    simp only [firewallForm, List.foldl_cons, List.foldl_nil, get, Table.find_put_self,
      Option.getD_some]
  rw [FilterOn, hget]
  cases on <;> simp

theorem deleteIPSet_spec {name : Text} (hI : ∀ v, I v → I { v with ipsets := v.ipsets.erase name }) :
    Triple I (deleteIPSet name) (fun _ => I) I := by
  unfold deleteIPSet
  refine Triple.bind (hasIPSet_spec _) fun present => ?_
  split_ifs
  · exact Triple.write (fun v hv => hI v hv.1) (fun v hv => hv.1) fun v hv => hI v hv.1
  · exact Triple.pure fun v hv => hv.1

end

/-! ## The jobs that keep every card connected -/

theorem reachable_of_off {v : Vm} (h : ¬ FilterOn v) : Reachable v := fun hon => (h hon).elim

theorem allowed_eq_some {cfg : Table Text Text} {addrs : Table Text (List Text)}
    {nic number : Text} {list : List Text} (hnumber : nicNumber nic = some number)
    (h : allowed cfg addrs nic = some list) :
    staticOf cfg number ≠ [] ∧ staticOf cfg number ∈ list := by
  unfold allowed at h
  simp only [hnumber, Option.getD_some] at h
  split_ifs at h with hstatic
  rw [← Option.some.inj h]
  exact hstatic

/-- A card's part in the loop over the cards: what the filter lets through only grows. -/
theorem applyFirewall_card {I : Vm → Prop} {cfg : Table Text Text}
    {addrs : Table Text (List Text)} {nic : Text} {list : List Text}
    (hI : ∀ v v', Keeps v v' → I v → I v') (hcfg : ∀ v, I v → v.config = cfg)
    (hlist : allowed cfg addrs nic = some list) :
    Triple I (syncIPSet (setName nic) list)
      (fun _ v => I v ∧ ∀ number, nicNumber nic = some number → Connected v nic number) I := by
  have hcard : ∀ v, I v → ∀ number, nicNumber nic = some number →
      staticOf v.config number ∈ list := fun v hv number hnumber => by
    rw [hcfg v hv]
    exact (allowed_eq_some hnumber hlist).2
  refine (syncIPSet_spec hI hcard).consequence (fun v hv => hv) (fun _ v hv => ⟨hv.1, ?_⟩)
    fun v hv => hv
  intro number hnumber
  refine ⟨?_, hv.2 _ (hcard v hv.1 number hnumber)⟩
  rw [hcfg v hv.1]
  exact (allowed_eq_some hnumber hlist).1

theorem applyFirewall_keeps (rules : List FWRule) (addrs : Option (Table Text (List Text)))
    (visit : Iteration) :
    Triple Reachable (applyFirewall rules addrs visit) (fun _ => Reachable) Reachable := by
  cases addrs with
  | none =>
    exact setFirewall_spec (fun v _ => reachable_of_off (by simp [filterOn_written]))
      (fun v forms hv => hv) (fun v hv => hv) fun v hv => hv
  | some addrs =>
    unfold applyFirewall
    refine Triple.bind (Q := fun cfg v => Reachable v ∧ v.config = cfg)
      (Triple.read (fun v hv => ⟨hv, rfl⟩) fun v hv => hv) fun cfg => ?_
    set nics := visit.arrange ((cfg.rows.map Prod.fst).filter fun k => (nicNumber k).isSome)
      with hnics
    cases henable : nics.all (fun k => (allowed cfg addrs k).isSome) &&
        nics.any fun k => (allowed cfg addrs k).isSome with
    | false =>
      -- the filter is off before the first set is touched
      simp only [henable, Bool.false_eq_true, if_false]
      refine Triple.bind (Q := fun _ v => ¬ FilterOn v ∧ v.config = cfg)
        (setFirewall_spec (fun v hv => ⟨by simp [filterOn_written], hv.2⟩)
          (fun v forms hv => hv) (fun v hv => hv.1) fun v hv => reachable_of_off hv.1) fun _ => ?_
      refine Triple.bind (Q := fun _ v => ¬ FilterOn v ∧ v.config = cfg) ?_ fun _ =>
        Triple.pure fun v hv => reachable_of_off hv.1
      refine (Triple.forM_invariant (I := fun v => ¬ FilterOn v ∧ v.config = cfg)
        fun k _ => ?_).consequence (fun v hv => hv) (fun _ v hv => hv)
          fun v hv => reachable_of_off hv.1
      cases hlist : allowed cfg addrs k with
      | none => exact deleteIPSet_spec fun v hv => hv
      | some list =>
        refine (applyFirewall_card (fun v v' hkeeps hv => ?_) (fun v hv => hv.2)
          hlist).consequence (fun v hv => hv) (fun _ v hv => hv.1) fun v hv => hv
        rwa [hkeeps.filterOn, hkeeps.config]
    | true =>
      -- every card is connected before the filter goes on
      simp only [henable, if_true]
      have hall : ∀ k ∈ nics, (allowed cfg addrs k).isSome = true :=
        List.all_eq_true.mp (Bool.and_eq_true_iff.mp henable).1
      refine Triple.bind (Q := fun _ v => Reachable v ∧ v.config = cfg)
        (Triple.pure fun v hv => hv) fun _ => ?_
      refine Triple.bind (Q := fun _ v => (Reachable v ∧ v.config = cfg) ∧ ∀ k ∈ nics,
        ∀ number, nicNumber k = some number → Connected v k number) ?_ fun _ => ?_
      · refine (Triple.forM (fun rest v => (Reachable v ∧ v.config = cfg) ∧ ∀ k ∈ nics,
          k ∈ rest ∨ ∀ number, nicNumber k = some number → Connected v k number)
          fun k rest hl => ?_).consequence (fun v hv => ⟨hv, fun k hk => .inl hk⟩)
            (fun _ v hv => ⟨hv.1, fun k hk => (hv.2 k hk).resolve_left List.not_mem_nil⟩)
            fun v hv => hv
        have hk : k ∈ nics := by
          obtain ⟨done, hdone⟩ := hl
          rw [hdone]
          exact List.mem_append_right _ (List.mem_cons_self ..)
        obtain ⟨list, hlist⟩ := Option.isSome_iff_exists.mp (hall k hk)
        simp only [hlist]
        refine (applyFirewall_card (fun v v' hkeeps hv => ?_) (fun v hv => hv.1.2)
          hlist).consequence (fun v hv => hv) (fun _ v hv => ⟨hv.1.1, fun j hj => ?_⟩)
            fun v hv => hv.1.1
        · refine ⟨⟨hkeeps.reachable hv.1.1, by rw [hkeeps.config, hv.1.2]⟩, fun j hj => ?_⟩
          exact (hv.2 j hj).imp id fun hc number hnumber =>
            hkeeps.connected j number hnumber (hc number hnumber)
        · rcases hv.1.2 j hj with hrest | hc
          · rcases List.mem_cons.mp hrest with heq | hrest
            · exact .inr (heq ▸ hv.2)
            · exact .inl hrest
          · exact .inr hc
      · refine setFirewall_spec (fun v hv _ e he number hnumber => ?_) (fun v forms hv => hv)
          (fun v hv => hv.1.1) fun v hv => hv
        refine hv.2 e.1 ?_ number hnumber
        have he' : e ∈ cfg.rows := hv.1.2 ▸ he
        rw [hnics, (visit.perm _).mem_iff, List.mem_filter]
        exact ⟨List.mem_map_of_mem he', by rw [hnumber]; rfl⟩

/-- A config that differs from another one in the public card only. -/
def SameOthers (cfg cfg' : Table Text Text) : Prop :=
  ∀ k, k ≠ net1 → k ≠ ipconfig1 → cfg'.find k = cfg.find k

/-- A change of the public card leaves the other cards connected. -/
theorem connected_of_sameOthers {vm : Vm} {cfg : Table Text Text} (hvm : Reachable vm)
    (hon : FilterOn vm) (hcfg : SameOthers vm.config cfg) {e : Text × Text} (he : e ∈ cfg.rows)
    (hne : e.1 ≠ net1) {number : Text} (hnumber : nicNumber e.1 = some number) :
    Connected { vm with config := cfg } e.1 number := by
  have hkey : e.1 ≠ ipconfig1 := fun heq => by
    rw [heq] at hnumber
    exact absurd hnumber (by simp [show nicNumber ipconfig1 = none by decide])
  have hrow : e ∈ vm.config.rows := by
    refine Table.find_mem ?_
    rw [← hcfg e.1 hne hkey]
    exact Table.find_of_mem he
  have hstatic : staticOf cfg number = staticOf vm.config number := by
    have hnet : ipconfigKey number ≠ net1 := fun heq => by
      have hhead : some 'i' = some 'n' := congrArg List.head? heq
      exact absurd hhead (by decide)
    rw [staticOf, staticOf, get, get, hcfg _ hnet (ipconfigKey_ne hnumber hne)]
  have hc := hvm hon e hrow number hnumber
  rw [Connected, ← hstatic] at hc
  exact hc

theorem detachIP_keeps (address : Text) :
    Triple Reachable (detachIP address) (fun _ => Reachable) Reachable := by
  unfold detachIP
  refine Triple.bind (Q := fun _ => Reachable) (Triple.read (fun v hv => hv) fun v hv => hv)
    fun cfg => ?_
  split_ifs with hcarries
  · refine Triple.bind (Q := fun _ v => Reachable v ∧ ∀ e ∈ v.config.rows, e.1 ≠ net1) ?_
      fun _ => ?_
    · have hdrop : ∀ v, Reachable v → Reachable { v with
            config := [net1, ipconfig1].foldl Table.erase v.config } ∧
          ∀ e ∈ ([net1, ipconfig1].foldl Table.erase v.config).rows, e.1 ≠ net1 := by
        intro v hv
        have hgone : ∀ e ∈ ([net1, ipconfig1].foldl Table.erase v.config).rows, e.1 ≠ net1 := by
          intro e he heq
          have hfind := Table.find_of_mem (k := e.1) (v := e.2) he
          simp [heq, Table.find_erase] at hfind
        refine ⟨fun hon e he number hnumber => ?_, hgone⟩
        refine connected_of_sameOthers hv hon (fun k hnet hip => ?_) he (hgone e he) hnumber
        rw [List.foldl_cons, List.foldl_cons, List.foldl_nil, Table.find_erase, if_neg hip,
          Table.find_erase, if_neg hnet]
      exact Triple.write hdrop (fun v hv => hv) fun v hv => (hdrop v hv).1
    · refine Triple.bind (Q := fun _ => Reachable) ?_ fun _ => regenerateCloudInit_spec
      refine (deleteIPSet_spec (I := fun v => Reachable v ∧ ∀ e ∈ v.config.rows, e.1 ≠ net1)
        fun v hv => ⟨fun hon e he number hnumber => ?_, hv.2⟩).consequence
        (fun v hv => hv) (fun _ v hv => hv.1) fun v hv => hv.1
      have hc := hv.1 hon e he number hnumber
      refine ⟨hc.1, ?_⟩
      have hmem := hc.2
      have hne : setName e.1 ≠ setName net1 := fun heq => hv.2 e he (setName_injective heq)
      unfold entries at hmem ⊢
      rwa [Table.find_erase, if_neg hne]
  · exact Triple.pure fun v hv => hv

/-! ## A new address -/

/-- The public card is there and is set to the address. -/
def Carries (ip : PublicIP) (vm : Vm) : Prop :=
  (vm.config.find net1).isSome = true ∧ get vm.config ipconfig1 = ip.ipconfig

/-- The address is in the IP set of the public card. -/
def Filled (ip : PublicIP) (vm : Vm) : Prop := ip.address ∈ entries vm (setName net1)

/-- The filter is on, the public card carries the address, the other cards are connected. -/
structure Plugged (ip : PublicIP) (vm : Vm) : Prop where
  on : FilterOn vm
  carries : Carries ip vm
  others : ∀ e ∈ vm.config.rows, e.1 ≠ net1 → ∀ number ∈ nicNumber e.1, Connected vm e.1 number

theorem nicNumber_net1 : nicNumber net1 = some ['1'] := by decide

section
variable {ip : PublicIP} {vm : Vm}

theorem Carries.static (h : Carries ip vm) : staticOf vm.config ['1'] = ip.address := by
  have hkey : ipconfigKey ['1'] = ipconfig1 := rfl
  rw [staticOf, hkey, h.2, staticAddress_ipconfig]

theorem Carries.connected_iff (h : Carries ip vm) : Connected vm net1 ['1'] ↔ Filled ip vm := by
  rw [Connected, h.static]
  exact ⟨fun hc => hc.2, fun hf => ⟨ip.address_ne, hf⟩⟩

theorem Carries.keeps {vm' : Vm} (hkeeps : Keeps vm vm') (h : Carries ip vm) :
    Carries ip vm' := by
  rwa [Carries, hkeeps.config]

theorem Plugged.keeps {vm' : Vm} (hkeeps : Keeps vm vm') (h : Plugged ip vm) :
    Plugged ip vm' where
  on := hkeeps.filterOn.mpr h.on
  carries := h.carries.keeps hkeeps
  others e he hne number hnumber :=
    hkeeps.connected _ _ hnumber (h.others e (hkeeps.config ▸ he) hne number hnumber)

theorem Plugged.reachable_iff (h : Plugged ip vm) : Reachable vm ↔ Filled ip vm := by
  rw [← h.carries.connected_iff]
  constructor
  · intro hvm
    obtain ⟨nic, hnic⟩ := Option.isSome_iff_exists.mp h.carries.1
    exact hvm h.on (net1, nic) (Table.find_mem hnic) ['1'] nicNumber_net1
  · intro hc _ e he number hnumber
    by_cases hkey : e.1 = net1
    · rw [hkey, nicNumber_net1] at hnumber
      rw [hkey, ← Option.some.inj hnumber]
      exact hc
    · exact h.others e he hkey number hnumber

/-- A card that has the filter on and is connected lacks no address of its own. -/
theorem not_carries (hvm : Reachable vm) (hon : FilterOn vm) (hnot : ¬ Filled ip vm) :
    ¬ Carries ip vm := fun h => by
  obtain ⟨nic, hnic⟩ := Option.isSome_iff_exists.mp h.1
  exact hnot (h.connected_iff.mp (hvm hon (net1, nic) (Table.find_mem hnic) ['1'] nicNumber_net1))

end

/-- The config with the public card set to an address. -/
def pluggedConfig (bridge : Text) (ip : PublicIP) (cfg : Table Text Text) : Table Text Text :=
  (cfg.put net1 (publicNic bridge cfg)).put ipconfig1 ip.ipconfig

theorem carries_pluggedConfig (bridge : Text) (ip : PublicIP) (vm : Vm) (cfg : Table Text Text) :
    Carries ip { vm with config := pluggedConfig bridge ip cfg } := by
  refine ⟨?_, ?_⟩
  · rw [pluggedConfig, Table.find_put_of_ne _ (by decide), Table.find_put_self]
    rfl
  · rw [get, pluggedConfig, Table.find_put_self, Option.getD_some]

theorem plugged_pluggedConfig {bridge : Text} {ip : PublicIP} {vm : Vm} (hvm : Reachable vm)
    (hon : FilterOn vm) : Plugged ip { vm with config := pluggedConfig bridge ip vm.config } where
  on := hon
  carries := carries_pluggedConfig bridge ip vm vm.config
  others e he hne number hnumber := by
    refine connected_of_sameOthers hvm hon (fun k hnet hip => ?_) he hne hnumber
    rw [pluggedConfig, Table.find_put_of_ne _ hip, Table.find_put_of_ne _ hnet]

/-- The set of the public card is filled for the address it carries. -/
theorem syncIPSet_carries {I : Vm → Prop} {ip : PublicIP}
    (hI : ∀ v v', Keeps v v' → I v → I v') (hcarries : ∀ v, I v → Carries ip v) :
    Triple I (syncIPSet (setName net1) [ip.address]) (fun _ => I) I := by
  refine (syncIPSet_spec hI fun v hv number hnumber => ?_).consequence (fun _ hv => hv)
    (fun _ _ hv => hv.1) fun _ hv => hv
  rw [nicNumber_net1] at hnumber
  rw [← Option.some.inj hnumber, (hcarries v hv).static]
  exact List.mem_singleton_self _

/-- With the filter on, an attachment changes nothing, or sets the card and takes no
address away. -/
theorem attachIP_spec (bridge : Text) (ip : PublicIP) {vm : Vm} (hvm : Reachable vm)
    (hon : FilterOn vm) :
    Triple (fun v => v = vm) (attachIP bridge ip)
      (fun _ v => v = vm ∨ Plugged ip v ∧ (Filled ip vm → Filled ip v))
      (fun v => v = vm ∨ Plugged ip v ∧ (Filled ip vm → Filled ip v)) := by
  have hkeeps : ∀ v v', Keeps v v' → Plugged ip v ∧ (Filled ip vm → Filled ip v) →
      Plugged ip v' ∧ (Filled ip vm → Filled ip v') := fun v v' hk hv =>
    ⟨hv.1.keeps hk, fun hf => (hv.1.keeps hk).carries.connected_iff.mp
      (hk.connected _ _ nicNumber_net1 (hv.1.carries.connected_iff.mpr (hv.2 hf)))⟩
  unfold attachIP
  refine Triple.bind (Q := fun cfg v => v = vm ∧ cfg = vm.config)
    (Triple.read (fun v hv => ⟨hv, by rw [hv]⟩) fun v hv => .inl hv) fun cfg => ?_
  refine Triple.bind (Q := fun _ v => Plugged ip v ∧ (Filled ip vm → Filled ip v))
    (Triple.write ?_ (fun v hv => .inl hv.1) fun v hv => .inr ?_) fun _ => ?_
  · rintro v ⟨rfl, rfl⟩
    exact ⟨plugged_pluggedConfig hvm hon, id⟩
  · obtain ⟨rfl, rfl⟩ := hv
    exact ⟨plugged_pluggedConfig hvm hon, id⟩
  · refine Triple.consequence (P := fun v => Plugged ip v ∧ (Filled ip vm → Filled ip v))
      (Q := fun _ v => Plugged ip v ∧ (Filled ip vm → Filled ip v))
      (E := fun v => Plugged ip v ∧ (Filled ip vm → Filled ip v)) ?_
      (fun _ hv => hv) (fun _ _ hv => .inr hv) fun _ hv => .inr hv
    refine Triple.bind (Q := fun _ v => Plugged ip v ∧ (Filled ip vm → Filled ip v))
      (Triple.read (fun v hv => hv) fun v hv => hv) fun opts => ?_
    refine Triple.bind (Q := fun _ v => Plugged ip v ∧ (Filled ip vm → Filled ip v)) ?_
      fun _ => regenerateCloudInit_spec
    split_ifs
    · exact syncIPSet_carries hkeeps fun v hv => hv.1.carries
    · exact Triple.pure fun v hv => hv

theorem attachIP_off (bridge : Text) (ip : PublicIP) :
    Triple (fun v => ¬ FilterOn v) (attachIP bridge ip) (fun _ v => ¬ FilterOn v)
      fun v => ¬ FilterOn v := by
  unfold attachIP
  refine Triple.bind (Q := fun _ v => ¬ FilterOn v) (Triple.read (fun v hv => hv) fun v hv => hv)
    fun cfg => ?_
  refine Triple.bind (Q := fun _ v => ¬ FilterOn v)
    (Triple.write (fun v hv => hv) (fun v hv => hv) fun v hv => hv) fun _ => ?_
  refine Triple.bind (Q := fun opts v => ¬ FilterOn v ∧ opts = v.options)
    (Triple.read (fun v hv => ⟨hv, rfl⟩) fun v hv => hv) fun opts => ?_
  refine Triple.bind (Q := fun _ v => ¬ FilterOn v) ?_ fun _ => regenerateCloudInit_spec
  split_ifs with hopts
  · refine Triple.of_state fun v hv => ?_
    rw [hv.2] at hopts
    exact (hv.1 hopts).elim
  · exact Triple.pure fun v hv => hv.1

/-! ## Which call fills the set -/

theorem hasIPSet_runs (name : Text) (s : Vm) :
    Runs (hasIPSet name) s 1 ((s.ipsets.rows.map Prod.fst).contains name) s :=
  Runs.bind (n := 1) (k := 0) (Runs.read _ s)
    (Runs.pure ((s.ipsets.rows.map Prod.fst).contains name) s)

/-- The part of a synchronisation for which the set exists. -/
theorem fill_reaches {name a : Text} {s : Vm} {list : List Text}
    (hlist : s.ipsets.find name = some list) (hnot : a ∉ list) :
    Reaches (fun v => a ∈ entries v name)
      (read (fun vm : Vm => (vm.ipsets.find name).getD []) >>= fun old =>
        ((old.filter fun e => e ∉ [a]).forM fun e => deleteEntry name e) >>= fun _ =>
          ([a].filter fun c => c ∉ old).forM fun c => addEntry name c) s (1 + list.length) := by
  have hstart : a ∉ entries s name ∧ (s.ipsets.find name).isSome = true := by
    rw [entries_of_find hlist, hlist]
    exact ⟨hnot, rfl⟩
  have hall : list.filter (fun e => e ∉ [a]) = list := by
    refine List.filter_eq_self.mpr fun e he => ?_
    have hne : e ≠ a := fun heq => hnot (heq ▸ he)
    simpa using hne
  refine Reaches.after (Runs.read _ s) (Triple.read (fun _ _ => trivial) fun v hv => hv ▸ hstart.1) ?_
  rw [hlist, Option.getD_some, hall]
  have hdeletes : Triple (fun v : Vm => a ∉ entries v name ∧ (v.ipsets.find name).isSome = true)
      (list.forM fun e => deleteEntry name e)
      (fun _ v => a ∉ entries v name ∧ (v.ipsets.find name).isSome = true)
      fun v => a ∉ entries v name ∧ (v.ipsets.find name).isSome = true := by
    refine Triple.forM_invariant fun e _ => ?_
    have hkeep : ∀ v : Vm, a ∉ entries v name ∧ (v.ipsets.find name).isSome = true →
        a ∉ entries { v with ipsets := v.ipsets.modify name fun l => l.filter (· ≠ e) } name ∧
        ((v.ipsets.modify name fun l => l.filter (· ≠ e)).find name).isSome = true := by
      intro v hv
      obtain ⟨l, hl⟩ := Option.isSome_iff_exists.mp hv.2
      have hv1 := hv.1
      rw [entries_of_find hl] at hv1
      rw [entries_modify, if_pos rfl, Table.find_modify, if_pos rfl, hl]
      refine ⟨fun hmem => hv1 ?_, rfl⟩
      exact (List.mem_filter.mp hmem).1
    exact Triple.write hkeep (fun v hv => hv) hkeep
  have hruns := Runs.forM_write (fun e (vm : Vm) =>
    { vm with ipsets := vm.ipsets.modify name fun l => l.filter (· ≠ e) }) list s
  refine Reaches.after (k := 0) hruns (hdeletes.consequence (fun v hv => hv ▸ hstart) (fun _ _ _ => trivial)
    fun v hv => hv.1) ?_
  have hend := Runs.post hruns hdeletes hstart
  have hadd : [a].filter (fun c => c ∉ list) = [a] := by simp [hnot]
  rw [hadd]
  refine Reaches.before (Reaches.write hend.1 ?_) fun _ => Triple.pure fun v hv => hv
  obtain ⟨l, hl⟩ := Option.isSome_iff_exists.mp hend.2
  rw [entries_modify, if_pos rfl, hl]
  simp

/-- The calls of a synchronisation before the one that adds an address. -/
def syncIndex (vm : Vm) (name : Text) : ℕ :=
  match vm.ipsets.find name with
  | none => 3
  | some list => 2 + list.length

theorem syncIPSet_reaches {name a : Text} {s : Vm} (hnot : a ∉ entries s name) :
    Reaches (fun v => a ∈ entries v name) (syncIPSet name [a]) s (syncIndex s name) := by
  have hread : Triple (fun v => v = s) (hasIPSet name) (fun _ _ => True)
      fun v => a ∉ entries v name :=
    (hasIPSet_spec name).consequence (fun v hv => hv) (fun _ _ _ => trivial) fun v hv => hv ▸ hnot
  unfold syncIPSet syncIndex
  cases hf : s.ipsets.find name with
  | none =>
    have hpresent : (s.ipsets.rows.map Prod.fst).contains name = false := by
      rw [Bool.eq_false_iff, ne_eq, List.contains_iff_mem, Table.mem_keys_iff, hf]
      nofun
    refine Reaches.after (n := 1) (k := 2) (hasIPSet_runs name s) hread ?_
    rw [hpresent]
    refine Reaches.after (n := 1) (k := 1) (Runs.write _ s) ?_ (fill_reaches ?_ List.not_mem_nil)
    · refine Triple.write (fun _ _ => trivial) (fun v hv => hv ▸ hnot) fun v _ hmem => ?_
      simp [entries] at hmem
    · exact Table.find_put_self ..
  | some list =>
    have hpresent : (s.ipsets.rows.map Prod.fst).contains name = true := by
      rw [List.contains_iff_mem, Table.mem_keys_iff, hf]
      rfl
    have hlist : a ∉ list := by rwa [entries_of_find hf] at hnot
    have hsplit : 2 + list.length = 1 + (0 + (1 + list.length)) := by omega
    simp only [hsplit]
    refine Reaches.after (hasIPSet_runs name s) hread ?_
    rw [hpresent]
    exact Reaches.after (Runs.pure () s) (Triple.pure fun _ _ => trivial) (fill_reaches hf hlist)

/-- The call of an attachment that puts the address into the set. -/
def fillIndex (vm : Vm) : ℕ := 3 + syncIndex vm (setName net1)

section
variable (bridge : Text) {ip : PublicIP} {vm : Vm}

theorem attachIP_carries (hvm : Reachable vm) (hon : FilterOn vm) (hnot : ¬ Filled ip vm) :
    Reaches (Carries ip) (attachIP bridge ip) vm 1 := by
  have hstart := not_carries hvm hon hnot
  unfold attachIP
  refine Reaches.after (n := 1) (k := 0) (Runs.read _ vm)
    (Triple.read (fun _ _ => trivial) fun v hv => hv ▸ hstart) ?_
  refine Reaches.before (Reaches.write hstart (carries_pluggedConfig bridge ip vm vm.config))
    fun _ => ?_
  refine Triple.bind (Q := fun _ => Carries ip) (Triple.read (fun v hv => hv) fun v hv => hv)
    fun opts => ?_
  refine Triple.bind (Q := fun _ => Carries ip) ?_ fun _ => regenerateCloudInit_spec
  split_ifs
  · exact syncIPSet_carries (fun v v' hk hv => hv.keeps hk) fun v hv => hv
  · exact Triple.pure fun v hv => hv

theorem attachIP_fills (hon : FilterOn vm) (hnot : ¬ Filled ip vm) :
    Reaches (Filled ip) (attachIP bridge ip) vm (fillIndex vm) := by
  have hsplit : fillIndex vm = 1 + (1 + (1 + syncIndex vm (setName net1))) := by
    unfold fillIndex
    omega
  unfold attachIP
  rw [hsplit]
  refine Reaches.after (Runs.read _ vm)
    (Triple.read (fun _ _ => trivial) fun v hv => hv ▸ hnot) ?_
  refine Reaches.after (Runs.write _ vm) (Triple.write (fun _ _ => trivial)
    (fun v hv => hv ▸ hnot) fun v hv => hv ▸ hnot) ?_
  refine Reaches.after (Runs.read _ _)
    (Triple.read (fun _ _ => trivial) fun v hv => hv ▸ hnot) ?_
  refine Reaches.before ?_ fun _ => regenerateCloudInit_spec
  rw [if_pos (show get vm.options ipfilter = ['1'] from hon)]
  exact syncIPSet_reaches hnot

end

/-! ## Over all jobs -/

/-- An attachment fills the set of the card once it has set the card. Nothing is asked with the
filter off, for an address that the set has, or of one that fails before it sets the card. -/
def Fits (vm : Vm) (a : Job × List Fate) : Prop :=
  match a.1 with
  | .attachIP ip => FilterOn vm → ¬ Filled ip vm → AllOk 1 a.2 → AppliedAt 1 a.2 →
      AllOk (fillIndex vm) a.2 ∧ AppliedAt (fillIndex vm) a.2
  | _ => True

theorem step_reachable {bridge : Text} {vm : Vm} {a : Job × List Fate} (hvm : Reachable vm) :
    Reachable (step bridge vm a) ↔ Fits vm a := by
  obtain ⟨job, fates⟩ := a
  cases job with
  | applyFirewall rules addrs visit =>
    exact iff_of_true ((applyFirewall_keeps rules addrs visit).state fates hvm) trivial
  | detachIP address =>
    exact iff_of_true ((detachIP_keeps address).state fates hvm) trivial
  | attachIP ip =>
    by_cases hon : FilterOn vm
    · have hend := (attachIP_spec bridge ip hvm hon).state fates rfl
      change Reachable (attachIP bridge ip vm fates).state ↔ _
      by_cases hfilled : Filled ip vm
      · refine iff_of_true ?_ fun _ hnot => (hnot hfilled).elim
        rcases hend with hsame | hplugged
        · rwa [hsame]
        · exact hplugged.1.reachable_iff.mpr (hplugged.2 hfilled)
      · have hcarries := (attachIP_carries bridge hvm hon hfilled).exact_when fates
        have hfills := (attachIP_fills bridge hon hfilled).exact_when fates
        by_cases hcard : Carries ip (attachIP bridge ip vm fates).state
        · rcases hend with hsame | hplugged
          · rw [hsame] at hcard
            exact (not_carries hvm hon hfilled hcard).elim
          · rw [hplugged.1.reachable_iff, hfills]
            have hset := hcarries.mp hcard
            exact ⟨fun h _ _ _ _ => h, fun h => h hon hfilled hset.1 hset.2⟩
        · rcases hend with hsame | hplugged
          · refine iff_of_true (by rwa [hsame]) fun _ _ hok happlied => ?_
            exact (hcard (hcarries.mpr ⟨hok, happlied⟩)).elim
          · exact (hcard hplugged.1.carries).elim
    · exact iff_of_true (reachable_of_off ((attachIP_off bridge ip).state fates hon))
        fun h => (hon h).elim

/-- After every job every card is connected, exactly when it is so at the start and every
attachment that sets the card with the filter on fills its set. -/
theorem cards_connected (bridge : Text) (vm : Vm) (jobs : List (Job × List Fate)) :
    (∀ k, Reachable (run (step bridge) vm (jobs.take k))) ↔
      Reachable vm ∧ Meets (step bridge) Fits vm jobs :=
  @prefixes_iff_meets Vm (Job × List Fate) (step bridge) Fits Reachable (fun _ => True)
    (fun _ => True) (fun _ _ _ _ => trivial) (fun _ _ _ _ hvm => step_reachable hvm) vm jobs
    (fun _ _ => trivial) trivial

/-! ## A card that is cut off -/

/-- A VM with a private address, as it is created. -/
def createdVm : Vm where
  config := ⟨[("net0".toList, "virtio=BC:24:11:00:00:01,bridge=v1,firewall=1".toList),
    ("ipconfig0".toList, "ip=10.96.0.2/24".toList)], by decide⟩
  options := .empty

/-- The firewall goes on with the filter; the attachment sets the card, and then it
cannot read the options. -/
def attachCut : List (Job × List Fate) :=
  [(.applyFirewall [] (some ⟨[("net0".toList, ["10.96.0.2".toList])], by decide⟩)
    ⟨id, fun _ => .refl _⟩, []),
   (.attachIP ⟨"203.0.113.5".toList, "203.0.113.1".toList, 24, by decide, by decide⟩,
    [.ok, .ok, .failed .transport false])]

theorem attach_cuts_off :
    ¬ ∀ (bridge : Text) (vm : Vm) (jobs : List (Job × List Fate)), Reachable vm →
      ∀ k, Reachable (run (step bridge) vm (jobs.take k)) := by
  intro h
  have hcut : ¬ Reachable (run (step "vmbr1".toList) createdVm (attachCut.take 2)) := by
    decide
  exact hcut (h _ createdVm attachCut (by decide) 2)

end Prgd.IpFilter
