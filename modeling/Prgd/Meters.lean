import Prgd.Rating
import Prgd.Text
import Prgd.Trust

/-!
# The meters of servers and bandwidth

The agent of a host reports on every VM with the tag of a server, once a tick: a minute of the
server, and the bytes that it has sent since the tick before. The control plane reports on the
servers that its own tables say are billable. Both become events of a clock minute, and the store
takes one event for each resource and minute: the first that arrives.

What an agent publishes is under way until it is ingested, in any order. The other events of
`tickFallback` are about resources of other types, and are left out.
-/
namespace Prgd.Meters
open Interleaving Rating
open Trust (ServerStatus)

/-! ## The agent -/

/-- A VM as the hypervisor lists it. -/
structure Vm where
  vmid : ℕ
  template : Bool := false
  tags : Text
  netOut : ℕ := 0
  deriving DecidableEq

def isSeparator (c : Char) : Bool := c = ';' ∨ c = ',' ∨ c = ' '

def splitTags (tags : Text) : List Text := (tags.splitOnP isSeparator).filter fun t => t ≠ []

/-- `strings.CutPrefix`. -/
def cutPrefix (t p : Text) : Option Text := if Text.startsWith t p then some (t.drop p.length) else none

structure VmRef where
  serverId : Text := []
  projectId : Text := []
  deriving DecidableEq

def refFromTags (tags : Text) : VmRef :=
  (splitTags tags).foldl (fun r t =>
    let r := match cutPrefix t ['s', 'e', 'r', 'v', 'e', 'r', '-'] with
      | some v => { r with serverId := v }
      | none => r
    match cutPrefix t ['p', 'r', 'o', 'j', 'e', 'c', 't', '-'] with
    | some v => { r with projectId := v }
    | none => r) {}

/-- The server that the tags of a VM name. -/
def Vm.server (vm : Vm) : Option String :=
  let id := (refFromTags vm.tags).serverId
  if vm.template ∨ id = [] then none else some (String.ofList id)

/-- The first reading only sets the baseline; a smaller value is all new. -/
def netOutDelta (netOut : Table ℕ ℕ) (vmid counter : ℕ) : ℕ :=
  match netOut.find vmid with
  | none => 0
  | some last => if counter < last then counter else counter - last

def serverMinute (now : ℕ) (vm : Vm) (id : String) : UsageEvent where
  atTime := minuteAligned now
  resource := ⟨.server, id⟩
  projectId := String.ofList (refFromTags vm.tags).projectId
  quantity := 1
  unit := .minute

def bandwidth (now : ℕ) (vm : Vm) (id : String) (delta : ℕ) : UsageEvent where
  atTime := minuteAligned now
  resource := ⟨.bandwidth, id⟩
  projectId := String.ofList (refFromTags vm.tags).projectId
  quantity := delta
  unit := .byte

/-- What a tick publishes about one VM. -/
def usageOf (now : ℕ) (netOut : Table ℕ ℕ) (vm : Vm) : List UsageEvent :=
  match vm.server with
  | none => []
  | some id =>
      let delta := netOutDelta netOut vm.vmid vm.netOut
      serverMinute now vm id :: if 0 < delta then [bandwidth now vm id delta] else []

/-- The baselines after one VM. -/
def baseline (netOut : Table ℕ ℕ) (vm : Vm) : Table ℕ ℕ :=
  if vm.server.isSome then netOut.put vm.vmid vm.netOut else netOut

def usages (now : ℕ) : Table ℕ ℕ → List Vm → List UsageEvent
  | _, [] => []
  | netOut, vm :: vms => usageOf now netOut vm ++ usages now (baseline netOut vm) vms

/-- The baselines of VMs that are gone are forgotten. -/
def baselines (netOut : Table ℕ ℕ) (vms : List Vm) : Table ℕ ℕ :=
  (vms.foldl baseline netOut).filter fun vmid _ => vms.any fun vm => ¬ vm.template ∧ vm.vmid = vmid

/-! ## The control plane -/

structure Server where
  id : String
  projectId : String
  status : ServerStatus
  meteredSince : Option ℕ := none
  managedBy : Option Text := none
  tags : List String := []
  backupsEnabled : Bool := false
  managed : Bool := false
  deriving DecidableEq

def meteredStatus : ServerStatus → Bool
  | .active | .off | .rebooting | .resizing | .rebuilding | .suspended => true
  | _ => false

/-- A customer's server, or a worker of a cluster. -/
def Server.own (s : Server) : Bool :=
  match s.managedBy with
  | none => true
  | some owner => Text.startsWith owner ['k', '8', 's', ':'] ∧ "worker" ∈ s.tags

def Server.billable (s : Server) : Bool := meteredStatus s.status ∧ s.meteredSince.isSome ∧ s.own

def fallbackEvent (now : ℕ) (type : ResourceType) (s : Server) : UsageEvent where
  atTime := minuteAligned now
  resource := ⟨type, s.id⟩
  projectId := s.projectId
  quantity := 1
  unit := .minute

/-- `tickFallback`, as far as it is about servers. -/
def fallbackEvents (now : ℕ) (servers : List Server) : List UsageEvent :=
  let servers := servers.filter Server.billable
  servers.map (fallbackEvent now .server) ++
    (servers.filter fun s => s.backupsEnabled ∧ ¬ s.managed).map (fallbackEvent now .backup) ++
    (servers.filter fun s => s.managed).map (fallbackEvent now .managedServer)

/-! ## Runs -/

structure World where
  store : List UsageEvent := []
  /-- Published and not yet ingested. -/
  sent : List UsageEvent := []
  /-- The baselines of each agent. -/
  netOut : ℕ → Table ℕ ℕ := fun _ => .empty

inductive Act where
  /-- The agent of a host ticks, and lists these VMs. -/
  | tick (host now : ℕ) (vms : List Vm)
  /-- The next event, or a later one, arrives. -/
  | deliver (i : ℕ)
  | tickFallback (now : ℕ) (servers : List Server)
  deriving DecidableEq

def step (w : World) : Act → World
  | .tick host now vms =>
      { w with
        sent := w.sent ++ usages now (w.netOut host) vms
        netOut := Function.update w.netOut host (baselines (w.netOut host) vms) }
  | .deliver i =>
      match w.sent[i]? with
      | none => w
      | some e => { w with store := ingest w.store [e], sent := w.sent.eraseIdx i }
  | .tickFallback now servers =>
      { w with store := (fallbackEvents now servers).foldl insertEvent w.store }

def start : World := {}

/-- What the store bills for a resource in a minute. -/
def stored (w : World) (r : Resource) (minute : ℕ) : ℚ :=
  ((w.store.filter fun e => e.resource = r ∧ e.atTime = minute).map UsageEvent.quantity).sum

/-! ## The store -/

def Holds (events : List UsageEvent) (r : Resource) (minute : ℕ) : Prop :=
  ∃ e ∈ events, e.resource = r ∧ e.atTime = minute

/-- One event for each resource and minute. -/
def Unique (events : List UsageEvent) : Prop :=
  events.Pairwise fun e f => e.resource ≠ f.resource ∨ e.atTime ≠ f.atTime

section
variable {events : List UsageEvent} {e : UsageEvent} {r : Resource} {minute : ℕ}

@[simp] theorem holds_nil : ¬ Holds [] r minute := by
  rintro ⟨e, he, -⟩
  cases he

@[simp] theorem holds_cons : Holds (e :: events) r minute ↔
    (e.resource = r ∧ e.atTime = minute) ∨ Holds events r minute := by
  simp [Holds]

@[simp] theorem holds_append {more : List UsageEvent} : Holds (events ++ more) r minute ↔
    Holds events r minute ∨ Holds more r minute := by
  simp only [Holds, List.mem_append, or_and_right, exists_or]

theorem holds_perm {events' : List UsageEvent} (h : events.Perm events') :
    Holds events r minute ↔ Holds events' r minute := by
  unfold Holds
  constructor
  · rintro ⟨e, he, hsame⟩
    exact ⟨e, h.mem_iff.mp he, hsame⟩
  · rintro ⟨e, he, hsame⟩
    exact ⟨e, h.mem_iff.mpr he, hsame⟩

theorem minuteAligned_minuteAligned (time : ℕ) : minuteAligned (minuteAligned time) = minuteAligned time := by
  simp [minuteAligned]

theorem insertEvent_cases (events : List UsageEvent) (e : UsageEvent) :
    insertEvent events e = events ∧ Holds events e.resource e.atTime ∨
      insertEvent events e = events ++ [e] ∧ ¬ Holds events e.resource e.atTime := by
  unfold insertEvent
  split_ifs with h
  · obtain ⟨f, hf, hsame⟩ := List.any_eq_true.mp h
    exact .inl ⟨rfl, f, hf, of_decide_eq_true hsame⟩
  · refine .inr ⟨rfl, ?_⟩
    rintro ⟨f, hf, hsame⟩
    exact h (List.any_eq_true.mpr ⟨f, hf, decide_eq_true hsame⟩)

theorem holds_insertEvent : Holds (insertEvent events e) r minute ↔
    Holds events r minute ∨ e.resource = r ∧ e.atTime = minute := by
  rcases insertEvent_cases events e with ⟨heq, hold⟩ | ⟨heq, -⟩
  · rw [heq]
    constructor
    · exact .inl
    · rintro (h | ⟨rfl, rfl⟩)
      · exact h
      · exact hold
  · rw [heq]
    simp

theorem unique_insertEvent (h : Unique events) (e : UsageEvent) : Unique (insertEvent events e) := by
  rcases insertEvent_cases events e with ⟨heq, -⟩ | ⟨heq, hnew⟩
  · rw [heq]
    exact h
  · rw [heq]
    refine List.pairwise_append.mpr ⟨h, List.pairwise_singleton _ _, ?_⟩
    intro f hf g hg
    rw [List.mem_singleton.mp hg]
    by_contra hsame
    rw [not_or, not_not, not_not] at hsame
    exact hnew ⟨f, hf, hsame⟩

theorem holds_insertAll (more : List UsageEvent) : Holds (more.foldl insertEvent events) r minute ↔
    Holds events r minute ∨ Holds more r minute := by
  induction more generalizing events with
  | nil => simp
  | cons e more ih => rw [List.foldl_cons, ih, holds_insertEvent, holds_cons, or_assoc]

theorem unique_insertAll (h : Unique events) (more : List UsageEvent) :
    Unique (more.foldl insertEvent events) := by
  induction more generalizing events with
  | nil => exact h
  | cons e more ih => exact ih (unique_insertEvent h e)

theorem mem_insertAll {more : List UsageEvent} {f : UsageEvent}
    (h : f ∈ more.foldl insertEvent events) : f ∈ events ∨ f ∈ more := by
  induction more generalizing events with
  | nil => exact .inl h
  | cons e more ih =>
    rcases ih h with hf | hf
    · rcases insertEvent_cases events e with ⟨heq, -⟩ | ⟨heq, -⟩
      · rw [heq] at hf
        exact .inl hf
      · rw [heq] at hf
        rcases List.mem_append.mp hf with hf | hf
        · exact .inl hf
        · exact .inr (List.mem_cons.mpr (.inl (List.mem_singleton.mp hf)))
    · exact .inr (List.mem_cons_of_mem e hf)

theorem ingest_one (haligned : minuteAligned e.atTime = e.atTime) (hdelta : e.cumulative = false) :
    ingest events [e] = insertEvent events e := by
  have hkeep : ([e].filter fun e => !(e.resource.resourceType = .bandwidth ∧ e.cumulative)) = [e] := by
    simp [hdelta]
  have hsame : { e with atTime := minuteAligned e.atTime } = e := by rw [haligned]
  rw [ingest, hkeep, List.map_singleton, hsame]
  rfl

/-- An event that arrives was on its way. -/
theorem delivered_perm {i : ℕ} {sent : List UsageEvent} (h : sent[i]? = some e) :
    (e :: sent.eraseIdx i).Perm sent := by
  obtain ⟨hi, rfl⟩ := List.getElem?_eq_some_iff.mp h
  exact List.getElem_cons_eraseIdx_perm hi

end

end Prgd.Meters
