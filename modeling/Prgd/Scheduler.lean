import Mathlib.Data.List.Dedup
import Mathlib.Data.List.Sort
import Prgd.ApiError
import Prgd.Interleaving
import Prgd.JsNumber
import Prgd.Table

/-!
# The scheduler

`SchedulerService` with the `placeServer` activity around it and the heartbeats of the
hosts, every query and every statement as one step. `place` reads the hosts, reserves and
writes the host of the server under a lock for each region; the group of the server and the
other servers of the group are read before the lock is taken. `release` and the heartbeats
take no lock, and a heartbeat overwrites the counters with what the host ran when it was
composed.

The lock is exclusive: its expiry is left out, as is the warning about guest addresses.
-/
namespace Prgd.Scheduler
open Interleaving
open JsNumber (nearest)

/-! ## Hosts and sizes -/

inductive Resource where
  | vcpu | memoryMb | diskGb
  deriving DecidableEq

structure Size where
  vcpu : ℕ
  memoryMb : ℕ
  diskGb : ℕ
  deriving DecidableEq

def Size.amount (s : Size) : Resource → ℤ
  | .vcpu => s.vcpu
  | .memoryMb => s.memoryMb
  | .diskGb => s.diskGb

theorem Size.amount_nonneg (s : Size) (r : Resource) : 0 ≤ s.amount r := by
  cases r <;> exact Int.natCast_nonneg _

inductive HostStatus where
  | active | draining | maintenance | down
  deriving DecidableEq

structure Host where
  regionId : ℕ
  fake : Bool := false
  status : HostStatus := .active
  total : Size
  used : Resource → ℤ := fun _ => 0
  overcommitCpu : ℚ := 4
  overcommit_nonneg : 0 ≤ overcommitCpu := by decide
  /-- The label `family`. -/
  family : Option String := none
  lastHeartbeatAt : Option ℕ := none

theorem Host.overcommit_default : (0 : ℚ) ≤ 4 := by decide

/-- What a host can carry: the vCPUs are overcommitted. -/
def Host.limit (h : Host) : Resource → ℚ
  | .vcpu => nearest (h.total.vcpu * h.overcommitCpu)
  | .memoryMb => h.total.memoryMb
  | .diskGb => h.total.diskGb

/-- `used: { increment }`, with a negative amount for a decrement. -/
def Host.add (h : Host) (amount : Resource → ℤ) : Host :=
  { h with used := fun r => h.used r + amount r }

structure PlacementRequest where
  serverId : ℕ
  regionId : ℕ
  size : Size
  family : String
  avoidServerIds : List ℕ
  softAvoid : Bool
  onlyHostId : Option ℕ
  deriving DecidableEq

abbrev Hosts := List (ℕ × Host)

/-- The active hosts of the region that were heard of in the last three minutes. -/
def liveHosts (hosts : Table ℕ Host) (req : PlacementRequest) (now : ℕ) : Hosts :=
  (hosts.rows.filter fun e =>
    e.2.regionId = req.regionId ∧ e.2.status = .active ∧ req.onlyHostId.all fun id => id = e.1).filter
      fun e => e.2.fake ∨ e.2.lastHeartbeatAt.all fun at' => now < at' + 180000

/-- The share of the memory that is used. -/
def Host.load (h : Host) : ℚ := nearest (h.used .memoryMb / h.total.memoryMb)

/-- The hosts of a list that have room, the least loaded first. -/
def fits (req : PlacementRequest) (list : Hosts) : Hosts :=
  ((((list.filter fun e => (e.2.used .memoryMb + req.size.memoryMb : ℚ) ≤ e.2.limit .memoryMb).filter
    fun e => (e.2.used .vcpu + req.size.vcpu : ℚ) ≤ e.2.limit .vcpu).filter
    fun e => (e.2.used .diskGb + req.size.diskGb : ℚ) ≤ e.2.limit .diskGb).filter
    fun e => req.family = "" ∨ req.family = "shared" ∨ e.2.family = some req.family).insertionSort
    fun a b => a.2.load ≤ b.2.load

/-- Apart from the avoided servers; together with one of them only where a preference may be
overruled and no live host is without one. -/
def choose (req : PlacementRequest) (live : Hosts) (avoidHostIds : List ℕ) : Option (ℕ × Host) :=
  let apart := live.filter fun e => ¬ avoidHostIds.contains e.1
  match (fits req apart).head? with
  | some host => some host
  | none => if req.softAvoid ∧ apart.isEmpty then (fits req live).head? else none

/-! ## The data -/

/-- What was seen when the host of a server was written. -/
structure Placement where
  /-- The placements are counted. -/
  no : ℕ
  /-- Every live host of the region had a server of the group. -/
  crowded : Bool
  /-- The host had a server of the avoid list. -/
  withAvoided : Bool
  deriving DecidableEq

/-- A server with the parameters of its create action. -/
structure Server where
  regionId : ℕ
  size : Size
  family : String := "shared"
  avoid : List ℕ := []
  spreadGroup : Option ℕ := none
  /-- The server whose snapshot this one is a clone of. -/
  source : Option ℕ := none
  hostId : Option ℕ := none
  /-- Not columns: who places the server, who deletes it, the host its size was reserved on,
  whether it was released, and what was seen when it was placed. -/
  owner : ℕ := 0
  deleter : Option ℕ := none
  reserved : Option ℕ := none
  released : Bool := false
  placement : Option Placement := none
  deriving DecidableEq

/-- A heartbeat: the resources of the VMs that exist on the host when it is composed. The
totals of a host do not change. -/
structure Heartbeat where
  hostId : ℕ
  used : Resource → ℤ
  at' : ℕ

structure Fleet where
  servers : Table ℕ Server
  hosts : Table ℕ Host
  /-- The VMs that exist, by server: their host and size. -/
  vms : Table ℕ (ℕ × Size)
  heartbeats : List Heartbeat
  /-- Who holds the lock of a region. -/
  locks : ℕ → Option ℕ
  placements : ℕ

/-- The statement a caller stands in front of, with what it has read. `live` is not read by
the code that follows: it is the region's live hosts when the host was chosen. -/
inductive Pc where
  | rest (error : Option ApiError)
  | load (s : ℕ)
  | source (s : ℕ) (r : Server)
  | siblings (s : ℕ) (r : Server) (onlyHostId : Option ℕ)
  | lock (req : PlacementRequest)
  | avoid (req : PlacementRequest)
  | hosts (req : PlacementRequest) (avoidHostIds : List ℕ)
  | reserve (req : PlacementRequest) (live : Hosts) (host : ℕ)
  | write (req : PlacementRequest) (live : Hosts) (host : ℕ)
  | unlock (req : PlacementRequest) (placed : Except ApiError ℕ)
  | record (s host : ℕ)
  | deleteVm (s : ℕ)
  | finalize (s : ℕ)
  | release (s : ℕ) (r : Server)
  | clear (s : ℕ)

inductive Act where
  /-- A new server, which is placed by the caller's workflow. -/
  | create (r : Server)
  | delete (s : ℕ)
  | next (now : ℕ)
  /-- On the hosts: the VM of a placed server is created, a heartbeat is composed. -/
  | createVm (s : ℕ)
  | compose (host now : ℕ)
  /-- A heartbeat that was composed arrives. -/
  | heartbeat (i : ℕ)

/-! ## Steps -/

def noCapacity : ApiError :=
  ⟨403, "quota_exceeded", "No capacity available in this region right now", []⟩

def sourceGone (id : ℕ) : ApiError :=
  ⟨500, "non_retryable",
    "the server snapshot " ++ toString id ++ " was taken from no longer exists", []⟩

/-- The servers whose create action names the group. -/
def groupMembers (f : Fleet) (group : Option ℕ) : List ℕ :=
  (f.servers.rows.filter fun e => group.isSome ∧ e.2.spreadGroup = group).map Prod.fst

def request (f : Fleet) (s : ℕ) (r : Server) (onlyHostId : Option ℕ) : PlacementRequest where
  serverId := s
  regionId := r.regionId
  size := r.size
  family := r.family
  avoidServerIds := (r.avoid ++ (groupMembers f r.spreadGroup).filter fun id => id ≠ s).dedup
  softAvoid := r.spreadGroup.isSome
  onlyHostId := onlyHostId

/-- Whether one of the servers is on the host. -/
def onHost (f : Fleet) (ids : List ℕ) (host : ℕ) : Bool :=
  ids.any fun id => (f.servers.find id).any fun r => r.hostId = some host

def avoidHosts (f : Fleet) (ids : List ℕ) : List ℕ := ids.filterMap fun id =>
  (f.servers.find id).bind Server.hostId

/-- What `writeHost` sees: the servers of the group apart from the one that is placed. -/
def observe (f : Fleet) (s : ℕ) (r : Server) (live : Hosts) (host : ℕ) : Placement where
  no := f.placements
  crowded := live.all fun e =>
    onHost f ((groupMembers f r.spreadGroup).filter fun id => id ≠ s) e.1
  withAvoided := onHost f r.avoid host

def Fleet.edit (f : Fleet) (s : ℕ) (g : Server → Server) : Fleet :=
  { f with servers := f.servers.modify s g }

def reserveHost (f : Fleet) (req : PlacementRequest) (host : ℕ) : Fleet :=
  { f.edit req.serverId (fun r => { r with reserved := some host }) with
    hosts := f.hosts.modify host fun h => h.add req.size.amount }

/-- The host is written inside of the lock, so that the next placement sees it. -/
def writeHost (f : Fleet) (s host : ℕ) (live : Hosts) : Fleet :=
  { f.edit s (fun r => { r with hostId := some host, placement := some (observe f s r live host) })
    with placements := f.placements + 1 }

def releaseHost (f : Fleet) (s host : ℕ) (size : Size) : Fleet :=
  { f.edit s (fun r => { r with released := true }) with
    hosts := f.hosts.modify host fun h => h.add fun x => - size.amount x }

def setLock (f : Fleet) (region : ℕ) (holder : Option ℕ) : Fleet :=
  { f with locks := Function.update f.locks region holder }

def next (q : ℕ) (f : Fleet) (now : ℕ) : Pc → Option (Fleet × Pc)
  | .rest _ => none
  | .load s =>
      match f.servers.find s with
      | none => some (f, .rest none)
      | some r => if r.hostId.isSome then some (f, .rest none) else some (f, .source s r)
  | .source s r =>
      match r.source with
      | none => some (f, .siblings s r none)
      | some source =>
          match (f.servers.find source).bind Server.hostId with
          | none => some (f, .rest (some (sourceGone source)))
          | some host => some (f, .siblings s r (some host))
  | .siblings s r onlyHostId => some (f, .lock (request f s r onlyHostId))
  | .lock req =>
      if f.locks req.regionId = none then some (setLock f req.regionId (some q), .avoid req) else none
  | .avoid req => some (f, .hosts req (avoidHosts f req.avoidServerIds))
  | .hosts req avoidHostIds =>
      let live := liveHosts f.hosts req now
      match choose req live avoidHostIds with
      | none => some (f, .unlock req (.error noCapacity))
      | some host =>
          some (f, .reserve req (liveHosts f.hosts { req with onlyHostId := none } now) host.1)
  | .reserve req live host => some (reserveHost f req host, .write req live host)
  | .write req live host => some (writeHost f req.serverId host live, .unlock req (.ok host))
  | .unlock req placed =>
      match placed with
      | .error e => some (setLock f req.regionId none, .rest (some e))
      | .ok host => some (setLock f req.regionId none, .record req.serverId host)
  | .record s host => some (f.edit s fun r => { r with hostId := some host }, .rest none)
  | .deleteVm s => some ({ f with vms := f.vms.erase s }, .finalize s)
  | .finalize s =>
      match f.servers.find s with
      | none => some (f, .rest none)
      | some r => some (f, .release s r)
  | .release s r =>
      match r.hostId with
      | none => some (f, .clear s)
      | some host => some (releaseHost f s host r.size, .clear s)
  | .clear s => some (f.edit s fun r => { r with hostId := none }, .rest none)

/-- What the VMs on a host take. -/
def vmsOn (f : Fleet) (host : ℕ) (x : Resource) : ℤ :=
  f.vms.sum fun _ v => if v.1 = host then v.2.amount x else 0

def receive (hb : Heartbeat) (h : Host) : Host :=
  { h with
    used := hb.used
    lastHeartbeatAt := some hb.at'
    status := if h.status = .down then .active else h.status }

def trans (q : ℕ) (f : Fleet) (act : Act) (pc : Pc) : Option (Fleet × Pc) :=
  match act, pc with
  | .create r, .rest _ =>
      let s := f.servers.fresh
      some ({ f with servers := f.servers.put s { r with
        hostId := none, owner := q, deleter := none, reserved := none, released := false
        placement := none } }, .load s)
  | .delete s, .rest _ =>
      if (f.servers.find s).any fun r => r.hostId.isSome ∧ r.deleter = none then
        some (f.edit s fun r => { r with deleter := some q }, .deleteVm s)
      else none
  | .next now, pc => next q f now pc
  | .createVm s, pc =>
      match f.servers.find s with
      | none => none
      | some r =>
          match r.hostId with
          | none => none
          | some host => some ({ f with vms := f.vms.put s (host, r.size) }, pc)
  | .compose host now, pc =>
      some ({ f with heartbeats := f.heartbeats ++ [⟨host, vmsOn f host, now⟩] }, pc)
  | .heartbeat i, pc =>
      match f.heartbeats[i]? with
      | none => none
      | some hb => some ({ f with hosts := f.hosts.modify hb.hostId (receive hb) }, pc)
  | _, _ => none

abbrev World := Interleaving.World Fleet Pc

def step : World → ℕ × Act → World := callerStep trans

/-- Any hosts, with their counters at zero; no servers, and nobody under way. -/
def start (hosts : Table ℕ Host) : World where
  shared := {
    servers := .empty
    hosts := hosts.amend fun _ h => { h with used := fun _ => 0 }
    vms := .empty
    heartbeats := []
    locks := fun _ => none
    placements := 0 }
  pc := fun _ => .rest none

end Prgd.Scheduler
