import Prgd.Scheduler
import Prgd.Trust

/-!
# The life of a server

`ServersService`, the workflows it starts and their activities, and `IpsService`, with every
query, every statement and every call of the driver as one step. A call reads the server,
checks what is allowed in its state, writes its intent and starts a workflow. A workflow runs
its activities one after another; an activity that fails for good sends it to its handler, and
one that is interrupted is started again. The activities write the row by its id alone.

Which host `placeServer` gets is the subject of `Scheduler`: here it is any host, or none. The
VMs are what really exists on the hosts. Rows that no modelled statement reads are left out:
actions, snapshots, volumes, firewalls and events.
-/
namespace Prgd.Compute
open Interleaving
open Scheduler (Resource Size Host)
open Trust (ServerStatus)

/-! ## The data -/

structure Server where
  projectId : ℕ
  regionId : ℕ
  managedBy : Option String := none
  status : ServerStatus := .new
  size : Size
  /-- `sourceSnapshotId` is set. -/
  fromSnapshot : Bool := false
  hostId : Option ℕ := none
  driverRef : Option ℕ := none
  privateIp : Option ℕ := none
  meteredSince : Option ℕ := none
  deletedAt : Option ℕ := none
  deriving DecidableEq

/-- The columns of an `update` of a server; a column that is not given keeps its value. -/
structure Patch where
  status : Option ServerStatus := none
  size : Option Size := none
  fromSnapshot : Option Bool := none
  hostId : Option (Option ℕ) := none
  driverRef : Option (Option ℕ) := none
  privateIp : Option (Option ℕ) := none
  meteredSince : Option (Option ℕ) := none
  deletedAt : Option (Option ℕ) := none
  deriving DecidableEq

def Server.patch (r : Server) (p : Patch) : Server :=
  { r with
    status := p.status.getD r.status
    size := p.size.getD r.size
    fromSnapshot := p.fromSnapshot.getD r.fromSnapshot
    hostId := p.hostId.getD r.hostId
    driverRef := p.driverRef.getD r.driverRef
    privateIp := p.privateIp.getD r.privateIp
    meteredSince := p.meteredSince.getD r.meteredSince
    deletedAt := p.deletedAt.getD r.deletedAt }

inductive IpStatus where
  | free | reserved | assigned
  deriving DecidableEq

structure PublicIp where
  regionId : ℕ
  projectId : Option ℕ := none
  serverId : Option ℕ := none
  status : IpStatus := .free
  floating : Bool := false
  /-- The address of a load balancer, a database or a cluster. -/
  managed : Bool := false
  deriving DecidableEq

/-- A VM that exists, tagged with its server. -/
structure Vm where
  serverId : ℕ
  hostId : ℕ
  /-- The workflow that has asked for it. -/
  requestKey : ℕ
  size : Size
  running : Bool
  publicIp : Option ℕ
  deriving DecidableEq

structure Cloud where
  servers : Table ℕ Server
  hosts : Table ℕ Host
  /-- The public addresses, in order. -/
  ips : Table ℕ PublicIp
  /-- The private addresses, by server. -/
  privateIps : Table ℕ ℕ
  vms : Table ℕ Vm
  nextVm : ℕ
  nextWorkflow : ℕ
  /-- Not a table: what the activities of a server have added to the counters of a host. -/
  ledger : ℕ → ℕ → Resource → ℤ

/-! ## Writes -/

/-- What one statement of an activity, or one call of the driver, changes. -/
inductive Write where
  | none
  | server (p : Patch)
  | host (id : ℕ) (amount : Resource → ℤ)
  | ip (id : ℕ) (g : PublicIp → PublicIp)
  | privateIp (address : Option ℕ)
  | createVm (vm : Vm)
  | editVm (ref : ℕ) (g : Vm → Vm)
  | deleteVm (ref : ℕ)

/-- The write of an activity of the server `s`. -/
def Cloud.apply (c : Cloud) (s : ℕ) : Write → Cloud
  | .none => c
  | .server p => { c with servers := c.servers.modify s fun r => r.patch p }
  | .host id amount =>
      { c with
        hosts := c.hosts.modify id fun h => h.add amount
        ledger := Function.update c.ledger s
          (Function.update (c.ledger s) id fun x => c.ledger s id x + amount x) }
  | .ip id g => { c with ips := c.ips.modify id g }
  | .privateIp none => { c with privateIps := c.privateIps.erase s }
  | .privateIp (some address) => { c with privateIps := c.privateIps.put s address }
  | .createVm vm => { c with vms := c.vms.put c.nextVm vm, nextVm := c.nextVm + 1 }
  | .editVm ref g => { c with vms := c.vms.modify ref g }
  | .deleteVm ref => { c with vms := c.vms.erase ref }

/-- `reserve` for a server. -/
def assignIp (projectId s : ℕ) (ip : PublicIp) : PublicIp :=
  { ip with status := .assigned, projectId := some projectId, serverId := some s }

/-- `release`. -/
def releaseIp (ip : PublicIp) : PublicIp :=
  { ip with status := .free, projectId := none, serverId := none, floating := false }

/-- A floating address stays with its project. -/
def unassignIp (ip : PublicIp) : PublicIp := { ip with serverId := none, status := .reserved }

/-- A write of a workflow that is not one of its row. -/
theorem servers_of_write (c : Cloud) (s : ℕ) {w : Write} (h : ∀ patch, w ≠ .server patch) :
    (c.apply s w).servers = c.servers := by
  cases w with
  | server patch => exact (h patch rfl).elim
  | privateIp address => cases address <;> rfl
  | none | host id amount | ip id g | createVm vm | editVm ref g | deleteVm ref => rfl

/-! ## Activities -/

inductive PowerOp where
  | start | stop | reboot
  deriving DecidableEq

inductive Activity where
  | setStatus (status : ServerStatus)
  | setImage
  | placeServer
  | reserveIp
  | createVm
  | waitForBoot
  /-- `reattachVolumes`, `rollbackVm` and `snapshotVm`: they need a VM and change nothing else. -/
  | useVm
  | applyFirewall
  | startMeter
  | compensateCreate
  | powerOp (op : PowerOp)
  | isRunning
  | syncStatusFromHypervisor
  | resizeVm (size : Size)
  | deleteVm
  | finalizeDelete
  /-- `completeAction`, `failAction`, `emit` and the records of snapshots. -/
  | record
  deriving DecidableEq

/-- The two activities that give everything back. -/
inductive Ending where
  | compensate | finalize
  deriving DecidableEq

/-- The row that is written at the end. -/
def Ending.patch (now : ℕ) : Ending → Patch
  | .compensate =>
      { driverRef := some none, hostId := some none, meteredSince := some none
        privateIp := some none }
  | .finalize =>
      { status := some .deleted, deletedAt := some (some now), hostId := some none
        meteredSince := some none }

/-- The statement an activity stands in front of, with what it has read. -/
inductive Stmt where
  | write (p : Patch)
  | meter
  | record
  | touch (required : Bool)
  | placeLoad
  | placeChoose (r : Server)
  | placeReserve (r : Server) (host : ℕ)
  | placeWrite (r : Server) (host : ℕ)
  | placeRecord (r : Server) (host : ℕ)
  | ipLoad
  | ipCandidate (r : Server) (attempts : ℕ)
  | ipClaim (r : Server) (attempts id : ℕ)
  | vmLoad
  | vmPrivate (r : Server) (ip : Option ℕ)
  | vmCreate (r : Server) (ip : Option ℕ) (address : ℕ)
  | vmRecord (r : Server) (ref address : ℕ)
  | bootLoad
  | bootWait (ref : ℕ)
  | compLoad
  | compFind (r : Server) (host : ℕ)
  | compDelete (r : Server) (refs : List ℕ)
  | finLoad
  | findIps (ending : Ending) (r : Server)
  | dropIps (ending : Ending) (r : Server) (ips : List (ℕ × PublicIp))
  | dropPrivate (ending : Ending) (r : Server)
  | giveBack (ending : Ending) (r : Server)
  | clear (ending : Ending) (r : Server)
  | powerLoad (op : PowerOp)
  | power (op : PowerOp) (ref : ℕ)
  | runLoad
  | runAsk (ref : ℕ)
  | syncLoad
  | syncAsk (ref : ℕ)
  | syncWrite (status : ServerStatus)
  | sizeLoad (size : Size)
  | sizeVm (size : Size) (r : Server) (ref host : ℕ)
  | sizeGive (size : Size) (r : Server) (host : ℕ)
  | sizeTake (size : Size) (r : Server) (host : ℕ)
  | sizeRow (size : Size) (r : Server) (host : ℕ)
  | delLoad
  | delVm (ref : ℕ)
  | delRow
  deriving DecidableEq

def Activity.start : Activity → Stmt
  | .setStatus status => .write { status := some status }
  | .setImage => .write { fromSnapshot := some false }
  | .placeServer => .placeLoad
  | .reserveIp => .ipLoad
  | .createVm => .vmLoad
  | .waitForBoot => .bootLoad
  | .useVm => .touch true
  | .applyFirewall => .touch false
  | .startMeter => .meter
  | .compensateCreate => .compLoad
  | .powerOp op => .powerLoad op
  | .isRunning => .runLoad
  | .syncStatusFromHypervisor => .syncLoad
  | .resizeVm size => .sizeLoad size
  | .deleteVm => .delLoad
  | .finalizeDelete => .finLoad
  | .record => .record

/-- What comes after a statement. -/
inductive Outcome where
  | goto (st : Stmt)
  | done (running : Bool)
  /-- An error that is not retried. -/
  | fail
  /-- An error, or an interruption, after which the activity starts again. -/
  | again
  deriving DecidableEq

/-- What the world answers: the time, the host that the scheduler gives, a private address
that is free, and whether the snapshot of the server is there. -/
structure Env where
  now : ℕ := 0
  host : Option ℕ := none
  address : Option ℕ := none
  snapshot : Bool := true
  deriving DecidableEq

def hasIp (c : Cloud) (s : ℕ) : Option ℕ :=
  (c.ips.rows.find? fun e => e.2.serverId = some s).map Prod.fst

/-- The free address of the region that comes first. -/
def freeIp (c : Cloud) (region : ℕ) : Option ℕ :=
  (c.ips.rows.find? fun e => e.2.regionId = region ∧ e.2.status = .free).map Prod.fst

/-- The VMs on a host that carry the tag of the server. -/
def findVmsByTag (c : Cloud) (host s : ℕ) : List ℕ :=
  (c.vms.rows.filter fun e => e.2.hostId = host ∧ e.2.serverId = s).map Prod.fst

/-- The VM that was made under the key: a repeated create answers with it. -/
def vmOfKey (c : Cloud) (host key : ℕ) : Option ℕ :=
  (c.vms.rows.find? fun e => e.2.hostId = host ∧ e.2.requestKey = key).map Prod.fst

def isRunning (c : Cloud) (ref : ℕ) : Bool := (c.vms.find ref).any Vm.running

/-- `getVmStatus` as a state of the server. -/
def powerStatus (c : Cloud) (ref : ℕ) : ServerStatus :=
  match c.vms.find ref with
  | none => .failed
  | some vm => if vm.running then .active else .off

/-- The read at the start of an activity. -/
def load (c : Cloud) (s : ℕ) (k : Server → Outcome) : Write × Outcome :=
  match c.servers.find s with
  | none => (.none, .fail)
  | some r => (.none, k r)

/-- The VM of a loaded server, with its host: without one the activity fails. -/
def withVm (r : Server) (k : ℕ → ℕ → Outcome) : Outcome :=
  match r.driverRef, r.hostId with
  | some ref, some host => k ref host
  | _, _ => .fail

def next (outcome : Stmt) : Write × Outcome := (.none, .goto outcome)

def exec (c : Cloud) (s key : ℕ) (env : Env) : Stmt → Write × Outcome
  | .write p => (.server p, .done false)
  | .meter =>
      (if (c.servers.find s).any fun r => r.meteredSince = none then
        .server { meteredSince := some (some env.now) } else .none, .done false)
  | .record => (.none, .done false)
  | .touch required => load c s fun r =>
      if required = false ∧ r.driverRef = none then .done false
      else withVm r fun _ _ => .done false
  | .placeLoad => load c s fun r => if r.hostId.isSome then .done false else .goto (.placeChoose r)
  | .placeChoose r =>
      match env.host with
      | none => (.none, .fail)
      | some host => next (.placeReserve r host)
  | .placeReserve r host => (.host host r.size.amount, .goto (.placeWrite r host))
  | .placeWrite r host => (.server { hostId := some (some host) }, .goto (.placeRecord r host))
  | .placeRecord _ host => (.server { hostId := some (some host) }, .done false)
  | .ipLoad => load c s fun r => if (hasIp c s).isSome then .done false else .goto (.ipCandidate r 5)
  | .ipCandidate r attempts =>
      match attempts, freeIp c r.regionId with
      | 0, _ => (.none, .again)
      | _, none => (.none, .fail)
      | n + 1, some id => next (.ipClaim r n id)
  | .ipClaim r attempts id =>
      if (c.ips.find id).any fun ip => ip.status = .free then
        (.ip id (assignIp r.projectId s), .done false)
      else next (.ipCandidate r attempts)
  | .vmLoad => load c s fun r =>
      if r.driverRef.isSome then .done false else .goto (.vmPrivate r (hasIp c s))
  | .vmPrivate r ip =>
      match c.privateIps.find s, env.address with
      | some address, _ => next (.vmCreate r ip address)
      | none, some address => (.privateIp (some address), .goto (.vmCreate r ip address))
      | none, none => (.none, .fail)
  | .vmCreate r ip address =>
      match r.hostId with
      | none => (.none, .fail)
      | some host =>
          if r.fromSnapshot ∧ env.snapshot = false then (.none, .fail)
          else match vmOfKey c host key with
            | some ref => next (.vmRecord r ref address)
            | none => (.createVm ⟨s, host, key, r.size, true, ip⟩, .goto (.vmRecord r c.nextVm address))
  | .vmRecord _ ref address =>
      (.server { driverRef := some (some ref), privateIp := some (some address) }, .done false)
  | .bootLoad => load c s fun r => withVm r fun ref _ => .goto (.bootWait ref)
  | .bootWait ref => (.none, if isRunning c ref then .done false else .again)
  | .compLoad =>
      match c.servers.find s with
      | none => (.none, .done false)
      | some r =>
          match r.hostId with
          | none => next (.findIps .compensate r)
          | some host => next (.compFind r host)
  | .compFind r host =>
      next (.compDelete r (r.driverRef.toList ++ (findVmsByTag c host s).filter fun ref =>
        r.driverRef ≠ some ref))
  | .compDelete r refs =>
      match refs with
      | [] => next (.findIps .compensate r)
      | ref :: refs => (.deleteVm ref, .goto (.compDelete r refs))
  | .finLoad => load c s fun r => .goto (.findIps .finalize r)
  | .findIps ending r =>
      next (.dropIps ending r (c.ips.rows.filter fun e => e.2.serverId = some s))
  | .dropIps ending r ips =>
      match ips with
      | [] => next (.dropPrivate ending r)
      | (id, ip) :: ips =>
          (.ip id (if ip.floating then unassignIp else releaseIp), .goto (.dropIps ending r ips))
  | .dropPrivate ending r => (.privateIp none, .goto (.giveBack ending r))
  | .giveBack ending r =>
      match r.hostId with
      | none => next (.clear ending r)
      | some host => (.host host fun x => - r.size.amount x, .goto (.clear ending r))
  | .clear ending _ => (.server (ending.patch env.now), .done false)
  | .powerLoad op => load c s fun r => withVm r fun ref _ => .goto (.power op ref)
  | .power op ref =>
      if (c.vms.find ref).isSome then
        (.editVm ref fun vm => { vm with running := op ≠ .stop }, .done false)
      else (.none, .fail)
  | .runLoad => load c s fun r =>
      if r.driverRef = none then .done false else withVm r fun ref _ => .goto (.runAsk ref)
  | .runAsk ref => (.none, .done (isRunning c ref))
  | .syncLoad => load c s fun r =>
      match r.driverRef, r.hostId with
      | some ref, some _ => .goto (.syncAsk ref)
      | _, _ => .goto (.syncWrite .failed)
  | .syncAsk ref => next (.syncWrite (powerStatus c ref))
  | .syncWrite status => (.server { status := some status }, .done false)
  | .sizeLoad size => load c s fun r => withVm r fun ref host => .goto (.sizeVm size r ref host)
  | .sizeVm size r ref host =>
      if (c.vms.find ref).isSome then
        (.editVm ref fun vm => { vm with size }, .goto (.sizeGive size r host))
      else (.none, .fail)
  | .sizeGive size r host => (.host host fun x => - r.size.amount x, .goto (.sizeTake size r host))
  | .sizeTake size r host => (.host host size.amount, .goto (.sizeRow size r host))
  | .sizeRow size _ _ => (.server { size := some size }, .done false)
  | .delLoad => load c s fun r =>
      match r.driverRef, r.hostId with
      | some ref, some _ => .goto (.delVm ref)
      | _, _ => .done false
  | .delVm ref => (.deleteVm ref, .goto .delRow)
  | .delRow => (.server { driverRef := some none }, .done false)

/-- The calls whose errors are caught: the activity goes on without their answer. -/
def swallow : Stmt → Option Outcome
  | .compFind r _ => some (.goto (.compDelete r r.driverRef.toList))
  | .compDelete r (_ :: refs) => some (.goto (.compDelete r refs))
  | .syncAsk _ => some (.goto (.syncWrite .failed))
  | _ => none

/-! ## Workflows -/

inductive ActionType where
  | create | start | stop | reboot
  | resize (size : Size)
  | rebuild | snapshot | restore | delete
  deriving DecidableEq

def ActionType.name : ActionType → String
  | .create => "create"
  | .start => "start"
  | .stop => "stop"
  | .reboot => "reboot"
  | .resize _ => "resize"
  | .rebuild => "rebuild"
  | .snapshot => "snapshot"
  | .restore => "restore"
  | .delete => "delete"

/-- The activities of a workflow, up to the question whether the VM runs. -/
def body : ActionType → List Activity
  | .create =>
      [.setStatus .provisioning, .placeServer, .reserveIp, .createVm, .waitForBoot, .applyFirewall,
        .startMeter, .setStatus .active, .record, .record]
  | .start => [.powerOp .start, .setStatus .active, .record]
  | .stop => [.powerOp .stop, .setStatus .off, .record]
  | .reboot => [.powerOp .reboot, .setStatus .active, .record]
  | .resize _ => [.isRunning]
  | .rebuild =>
      [.deleteVm, .setImage, .createVm, .useVm, .waitForBoot, .applyFirewall, .setStatus .active,
        .record, .record]
  | .snapshot => [.record, .useVm, .record, .record]
  | .restore => [.isRunning]
  | .delete => [.deleteVm, .finalizeDelete, .record, .record]

/-- What follows on the answer of `isRunning`. -/
def afterRunning : ActionType → Bool → List Activity
  | .resize size, true =>
      [.powerOp .stop, .resizeVm size, .powerOp .start, .setStatus .active, .record, .record]
  | .resize size, false => [.resizeVm size, .setStatus .off, .record, .record]
  | .restore, running =>
      (if running then [.powerOp .stop] else []) ++
        [.useVm, .useVm, .powerOp .start, .applyFirewall, .setStatus .active, .record, .record]
  | _, _ => []

/-- The handler of a workflow; `placed` is the flag of `createServer`. -/
def handler (placed : Bool) : ActionType → List Activity
  | .create => (if placed then [.compensateCreate] else []) ++ [.setStatus .failed, .record, .record]
  | .start | .stop | .reboot | .resize _ | .restore => [.syncStatusFromHypervisor, .record]
  | .rebuild | .delete => [.setStatus .failed, .record]
  | .snapshot => [.record, .record]

structure Workflow where
  server : ℕ
  /-- The id of the run, which is also the key of its VM. -/
  key : ℕ
  type : ActionType
  activity : Activity
  stmt : Stmt
  rest : List Activity
  handling : Bool
  placed : Bool
  deriving DecidableEq

/-- The first activity of a list, with the others after it. -/
def Workflow.begin (w : Workflow) : List Activity → Option Workflow
  | [] => none
  | a :: rest => some { w with activity := a, stmt := a.start, rest := rest }

/-- `createSnapshotRecord` stands outside of the `try`. -/
def Workflow.guarded (w : Workflow) : Bool :=
  ¬ w.handling ∧ ¬ (w.type = .snapshot ∧ w.rest.length = 3)

/-- The workflow goes on, or it has ended. -/
def Workflow.advance (w : Workflow) : Outcome → Option Workflow
  | .goto st => some { w with stmt := st }
  | .again => some { w with stmt := w.activity.start }
  | .done running =>
      let w' := { w with placed := w.placed || w.activity = Activity.placeServer }
      w'.begin (if w.activity = Activity.isRunning then afterRunning w.type running else w.rest)
  | .fail =>
      if w.guarded then { w with handling := true }.begin (handler w.placed w.type) else none

def startWorkflow (server key : ℕ) (type : ActionType) : Option Workflow :=
  Workflow.begin ⟨server, key, type, .record, .record, [], false, false⟩ (body type)

/-! ## Calls of the API -/

/-- `ALLOWED`. -/
def allowed : ActionType → List ServerStatus
  | .create => [.new]
  | .start => [.off]
  | .stop => [.active]
  | .reboot => [.active]
  | .resize _ => [.active, .off]
  | .rebuild => [.active, .off]
  | .snapshot => [.active, .off]
  | .restore => [.active, .off]
  | .delete => [.active, .off, .failed, .new]

/-- The state that a call writes before it starts its workflow. -/
def nextStatus : ActionType → ServerStatus → ServerStatus
  | .start, _ => .provisioning
  | .stop, _ => .active
  | .reboot, _ => .rebooting
  | .resize _, _ => .resizing
  | .rebuild, _ => .rebuilding
  | .restore, _ => .rebuilding
  | .delete, _ => .deleting
  | .create, status => status
  | .snapshot, status => status

structure CreateRequest where
  projectId : ℕ
  regionId : ℕ
  size : Size
  managedBy : Option String := none
  fromSnapshot : Bool := false
  deriving DecidableEq

inductive Call where
  | create (dto : CreateRequest)
  | action (id : ℕ) (type : ActionType)
  /-- `IpsService`. -/
  | reserve (projectId regionId : ℕ)
  | attach (projectId id server : ℕ)
  | detach (projectId id : ℕ)
  | releaseReserved (projectId id : ℕ)
  deriving DecidableEq

/-- Where a caller stands: in a call of the API, or in the workflow that it has started. -/
inductive Pc where
  | rest (error : Option ApiError)
  | creating (dto : CreateRequest)
  | intent (id : ℕ) (type : ActionType) (read : Server)
  | starting (id : ℕ) (type : ActionType) (before : ServerStatus)
  | startFailed (id : ℕ)
  | workflow (w : Workflow)
  | reserveFind (projectId regionId attempts : ℕ)
  | reserveClaim (projectId regionId attempts id : ℕ)
  | attachServer (projectId id server : ℕ) (ip : PublicIp)
  | attachClaim (id server : ℕ) (read : Server) (ref : ℕ)
  | attachDriver (id server : ℕ) (read : Server) (ref : ℕ)
  | attachUndo (id server : ℕ)
  | detachServer (id server : ℕ)
  | detachDriver (id server : ℕ) (read : Server) (ref : ℕ)
  | detachWrite (id server : ℕ)
  | releaseWrite (id : ℕ)
  deriving DecidableEq

inductive Act where
  | call (c : Call)
  /-- The next statement goes well. -/
  | next (env : Env)
  /-- The next statement is carried out or not, and the caller is told that it failed: an
  activity starts again, or has failed for good. -/
  | crash (carriedOut : Bool) (env : Env) (again : Bool)
  /-- The same, for a call whose errors are caught. -/
  | swallow (carriedOut : Bool) (env : Env)
  /-- The workflow could not be started. -/
  | startFails
  deriving DecidableEq

def throws (e : ApiError) : Pc := .rest (some e)

def statusName : ServerStatus → String
  | .new => "new"
  | .provisioning => "provisioning"
  | .active => "active"
  | .off => "off"
  | .rebooting => "rebooting"
  | .resizing => "resizing"
  | .rebuilding => "rebuilding"
  | .deleting => "deleting"
  | .deleted => "deleted"
  | .failed => "failed"
  | .suspended => "suspended"

/-- The owner of a managed server in errors; `lb:` stands at the front or nowhere. -/
def ownerName (managedBy : String) : String :=
  match managedBy.toList with
  | 'l' :: 'b' :: ':' :: id => "load balancer " ++ String.ofList id
  | _ => managedBy

/-- The calls that a managed server refuses, with what to do instead. -/
def managedHint : ActionType → Option String
  | .resize _ | .rebuild => some "change the load balancer instead"
  | .restore => some "it cannot be restored directly"
  | .delete => some "delete the load balancer instead"
  | _ => none

/-- The read of a call on a server with its checks. -/
def readServer (c : Cloud) (id : ℕ) (type : ActionType) : Pc :=
  match c.servers.find id with
  | none => throws (.notFound "server" (toString id))
  | some r =>
      if r.deletedAt.isSome then throws (.notFound "server" (toString id))
      else if ¬ (allowed type).contains r.status then
        throws (.invalidState
          ("Cannot " ++ type.name ++ " a server that is " ++ statusName r.status))
      else match r.managedBy, managedHint type with
        | some owner, some hint => throws (.invalidState
            ("This server is managed by " ++ ownerName owner ++ "; " ++ hint))
        | _, _ =>
            match type with
            | .resize size =>
                if size.diskGb < r.size.diskGb then
                  throws (.invalid "Disk cannot shrink; choose a size with equal or larger disk" [])
                else .intent id type r
            | _ => .intent id type r

/-- `mustOwn`. -/
def ownIp (c : Cloud) (projectId id : ℕ) (k : PublicIp → Pc) : Pc :=
  match c.ips.find id with
  | none => throws (.notFound "public ip" (toString id))
  | some ip =>
      if ip.projectId ≠ some projectId then throws (.notFound "public ip" (toString id))
      else if ip.managed then
        throws (.invalidState "This address belongs to a managed product and cannot move")
      else k ip

def begin (c : Cloud) : Call → Pc
  | .create dto => .creating dto
  -- the DTO of an action has no `create`
  | .action _ .create => throws (.invalid "type must be one of the actions of a server" [])
  | .action id type => readServer c id type
  | .reserve projectId regionId => .reserveFind projectId regionId 5
  | .attach projectId id server => ownIp c projectId id fun ip =>
      if ip.serverId = some server then .rest none
      else if ip.serverId.isSome then
        throws (.invalidState "This address is attached to another server; detach it first")
      else .attachServer projectId id server ip
  | .detach projectId id => ownIp c projectId id fun ip =>
      match ip.serverId with
      | none => .rest none
      | some server => .detachServer id server
  | .releaseReserved projectId id => ownIp c projectId id fun ip =>
      if ip.serverId.isSome then throws (.invalidState "Detach the address from its server first")
      else .releaseWrite id

/-! ## Steps of calls -/

def workflowUnavailable : ApiError :=
  ⟨503, "workflow_unavailable", "Provisioning is temporarily unavailable; please retry", []⟩

def hypervisorError : ApiError :=
  ⟨502, "hypervisor_error", "The host could not change the address", []⟩

def noPublicIps : ApiError := ⟨403, "quota_exceeded", "No public IPs available in this region", []⟩

/-- A plain error. -/
def internalError : ApiError := ⟨500, "internal_error", "Something went wrong on our side", []⟩

def newServer (dto : CreateRequest) : Server where
  projectId := dto.projectId
  regionId := dto.regionId
  size := dto.size
  managedBy := dto.managedBy
  fromSnapshot := dto.fromSnapshot

def insertServer (c : Cloud) (dto : CreateRequest) : Cloud :=
  { c with servers := c.servers.put c.servers.fresh (newServer dto) }

/-- The state is written where it differs from the one that was read; `restore` and `delete`
always write it, and it always differs there. -/
def writeIntent (c : Cloud) (id : ℕ) (type : ActionType) (read : Server) : Cloud :=
  if nextStatus type read.status ≠ read.status then
    c.apply id (.server { status := some (nextStatus type read.status) })
  else c

/-- The checks of `attach` on the server. -/
def readAttach (c : Cloud) (projectId id server : ℕ) (ip : PublicIp) : Pc :=
  match c.servers.find server with
  | none => throws (.notFound "server" (toString server))
  | some r =>
      if r.projectId ≠ projectId ∨ r.deletedAt.isSome then
        throws (.notFound "server" (toString server))
      else if r.managedBy.isSome then
        throws (.invalidState "Platform owned nodes keep their addresses")
      else if r.status ≠ .active ∧ r.status ≠ .off then
        throws (.invalidState
          ("Cannot attach an address to a server that is " ++ statusName r.status))
      else match r.driverRef, r.hostId with
        | some ref, some _ =>
            if r.regionId ≠ ip.regionId then
              throws (.invalid "The address and the server are in different regions" [])
            else if (hasIp c server).isSome then
              throws (.invalidState "The server already has a public address; detach it first")
            else .attachClaim id server r ref
        | _, _ => throws (.invalidState
            ("Cannot attach an address to a server that is " ++ statusName r.status))

/-- The claim of `attach`. -/
def claimIp (server : ℕ) (ip : PublicIp) : PublicIp :=
  { ip with serverId := some server, status := .assigned, floating := true }

/-- The write of `detach`. -/
def detachIp (ip : PublicIp) : PublicIp :=
  { ip with serverId := none, status := .reserved, floating := true }

def readDetach (c : Cloud) (id server : ℕ) : Pc :=
  match c.servers.find server with
  | none => .detachWrite id server
  | some r =>
      if r.managedBy.isSome then throws (.invalidState "Platform owned nodes keep their addresses")
      else match r.driverRef, r.hostId with
        | some ref, some _ => .detachDriver id server r ref
        | _, _ => .detachWrite id server

/-- The driver puts an address on a VM, or takes it off. -/
def attachPublicIp (id : ℕ) (vm : Vm) : Vm := { vm with publicIp := some id }
def detachPublicIp (id : ℕ) (vm : Vm) : Vm :=
  { vm with publicIp := if vm.publicIp = some id then none else vm.publicIp }

/-- `reserve` for a project. -/
def reserveIp (projectId : ℕ) (ip : PublicIp) : PublicIp :=
  { ip with status := .reserved, projectId := some projectId }

/-- A step of a workflow: the write of its statement and what follows. -/
def continueWith (c : Cloud) (w : Workflow) (write : Write) (outcome : Outcome) : Cloud × Pc :=
  (c.apply w.server write, ((w.advance outcome).map Pc.workflow).getD (.rest none))

/-- The next statement goes well. -/
def nextPc (c : Cloud) (env : Env) : Pc → Option (Cloud × Pc)
  | .rest _ => none
  | .creating dto => some (insertServer c dto, .starting c.servers.fresh .create .new)
  | .intent id type read => some (writeIntent c id type read, .starting id type read.status)
  | .starting id type _ =>
      some ({ c with nextWorkflow := c.nextWorkflow + 1 },
        ((startWorkflow id c.nextWorkflow type).map Pc.workflow).getD (.rest none))
  | .startFailed id => some (c.apply id (.server { status := some .failed }), throws workflowUnavailable)
  | .workflow w =>
      let r := exec c w.server w.key env w.stmt
      some (continueWith c w r.1 r.2)
  | .reserveFind projectId regionId attempts =>
      match attempts, freeIp c regionId with
      | 0, _ => some (c, throws internalError)
      | _, none => some (c, throws noPublicIps)
      | n + 1, some id => some (c, .reserveClaim projectId regionId n id)
  | .reserveClaim projectId regionId attempts id =>
      if (c.ips.find id).any fun ip => ip.status = .free then
        some (c.apply 0 (.ip id (reserveIp projectId)), .rest none)
      else some (c, .reserveFind projectId regionId attempts)
  | .attachServer projectId id server ip => some (c, readAttach c projectId id server ip)
  | .attachClaim id server read ref =>
      if (c.ips.find id).any fun ip => ip.serverId = none then
        some (c.apply server (.ip id (claimIp server)), .attachDriver id server read ref)
      else some (c, throws (.conflict "ip_busy" "This address changed while attaching; try again"))
  | .attachDriver id server _ ref => some (c.apply server (.editVm ref (attachPublicIp id)), .rest none)
  | .attachUndo id server =>
      if (c.ips.find id).any fun ip => ip.serverId = some server then
        some (c.apply server (.ip id unassignIp), throws hypervisorError)
      else some (c, throws hypervisorError)
  | .detachServer id server => some (c, readDetach c id server)
  | .detachDriver id server _ ref =>
      some (c.apply server (.editVm ref (detachPublicIp id)), .detachWrite id server)
  | .detachWrite id server => some (c.apply server (.ip id detachIp), .rest none)
  | .releaseWrite id => some (c.apply 0 (.ip id releaseIp), .rest none)

/-- The next statement is carried out or not, and fails. -/
def crashPc (c : Cloud) (carriedOut : Bool) (env : Env) (again : Bool) : Pc → Option (Cloud × Pc)
  | .workflow w =>
      let write := if carriedOut then (exec c w.server w.key env w.stmt).1 else .none
      some (continueWith c w write (if again then .again else .fail))
  | .attachDriver id server _ ref =>
      some (if carriedOut then c.apply server (.editVm ref (attachPublicIp id)) else c,
        .attachUndo id server)
  | .detachDriver id server _ ref =>
      some (if carriedOut then c.apply server (.editVm ref (detachPublicIp id)) else c,
        throws hypervisorError)
  | _ => none

def trans (_ : ℕ) (c : Cloud) (act : Act) (pc : Pc) : Option (Cloud × Pc) :=
  match act, pc with
  | .call call, .rest _ => some (c, begin c call)
  | .next env, pc => nextPc c env pc
  | .crash carriedOut env again, pc => crashPc c carriedOut env again pc
  | .swallow carriedOut env, .workflow w =>
      (swallow w.stmt).map fun outcome =>
        continueWith c w (if carriedOut then (exec c w.server w.key env w.stmt).1 else .none) outcome
  | .startFails, .starting id type _ =>
      -- a create that never started must not linger; other actions write nothing
      some (c, if type = .create then .startFailed id else throws workflowUnavailable)
  | _, _ => none

abbrev World := Interleaving.World Cloud Pc

def step : World → ℕ × Act → World := callerStep trans

/-- Any hosts and any free addresses; no servers and no VMs, and nobody under way. -/
def start (hosts : Table ℕ Host) (ips : Table ℕ PublicIp) : World where
  shared := {
    servers := .empty
    hosts := hosts
    ips := ips.amend fun _ ip => { ip with status := .free, projectId := none, serverId := none }
    privateIps := .empty
    vms := .empty
    nextVm := 0
    nextWorkflow := 0
    ledger := fun _ _ _ => 0 }
  pc := fun _ => .rest none

/-- The server that a caller is at work on, from the write of its intent on. -/
def Pc.server : Pc → Option ℕ
  | .starting id _ _ | .startFailed id => some id
  | .workflow w => some w.server
  | _ => none

/-! ## Everything a step can do -/

/-- A step of a workflow: its statement goes well, or fails after it was carried out or not, or
fails and is caught. -/
inductive Took (c : Cloud) (w : Workflow) : Act → Write → Outcome → Prop
  | well (env : Env) : Took c w (.next env) (exec c w.server w.key env w.stmt).1
      (exec c w.server w.key env w.stmt).2
  | crashed (carriedOut : Bool) (env : Env) (again : Bool) :
      Took c w (.crash carriedOut env again)
        (if carriedOut then (exec c w.server w.key env w.stmt).1 else .none)
        (if again then .again else .fail)
  | caught (carriedOut : Bool) (env : Env) {out : Outcome} (h : swallow w.stmt = some out) :
      Took c w (.swallow carriedOut env)
        (if carriedOut then (exec c w.server w.key env w.stmt).1 else .none) out

/-- The workflow that goes on, or a caller at rest. -/
def Pc.after (w : Option Workflow) : Pc := (w.map Pc.workflow).getD (.rest none)

/-- A call of `IpsService` is under way. -/
def Pc.addressing : Pc → Bool
  | .reserveFind _ _ _ | .reserveClaim _ _ _ _ | .attachServer _ _ _ _ | .attachClaim _ _ _ _
  | .attachDriver _ _ _ _ | .attachUndo _ _ | .detachServer _ _ | .detachDriver _ _ _ _
  | .detachWrite _ _ | .releaseWrite _ => true
  | _ => false

inductive Moves (c : Cloud) : Act → Pc → Cloud → Pc → Prop
  | call (error : Option ApiError) (call : Call) : Moves c (.call call) (.rest error) c (begin c call)
  | insert (env : Env) (dto : CreateRequest) :
      Moves c (.next env) (.creating dto) (insertServer c dto) (.starting c.servers.fresh .create .new)
  | intent (env : Env) (id : ℕ) (type : ActionType) (read : Server) :
      Moves c (.next env) (.intent id type read) (writeIntent c id type read)
        (.starting id type read.status)
  | started (env : Env) (id : ℕ) (type : ActionType) (before : ServerStatus) :
      Moves c (.next env) (.starting id type before) { c with nextWorkflow := c.nextWorkflow + 1 }
        (.after (startWorkflow id c.nextWorkflow type))
  | unstarted (id : ℕ) (type : ActionType) (before : ServerStatus) :
      Moves c .startFails (.starting id type before) c
        (if type = .create then .startFailed id else throws workflowUnavailable)
  | startFailed (env : Env) (id : ℕ) :
      Moves c (.next env) (.startFailed id) (c.apply id (.server { status := some .failed }))
        (throws workflowUnavailable)
  | workflow {act : Act} {w : Workflow} {write : Write} {out : Outcome} (h : Took c w act write out) :
      Moves c act (.workflow w) (c.apply w.server write) (.after (w.advance out))
  | addressed {env : Env} {pc pc' : Pc} {c' : Cloud} (haddressing : pc.addressing = true)
      (h : nextPc c env pc = some (c', pc')) : Moves c (.next env) pc c' pc'
  | addressFailed {carriedOut again : Bool} {env : Env} {pc pc' : Pc} {c' : Cloud}
      (haddressing : pc.addressing = true) (h : crashPc c carriedOut env again pc = some (c', pc')) :
      Moves c (.crash carriedOut env again) pc c' pc'

theorem trans_moves {q : ℕ} {c c' : Cloud} {act : Act} {pc pc' : Pc}
    (h : trans q c act pc = some (c', pc')) : Moves c act pc c' pc' := by
  unfold trans at h
  split at h
  · cases h
    exact .call _ _
  · next env =>
    cases pc with
    | rest error => cases h
    | creating dto =>
      cases h
      exact .insert env dto
    | intent id type read =>
      cases h
      exact .intent env id type read
    | starting id type before =>
      cases h
      exact .started env id type before
    | startFailed id =>
      cases h
      exact .startFailed env id
    | workflow w =>
      cases h
      exact .workflow (.well env)
    | _ => exact .addressed rfl h
  · next carriedOut env again =>
    cases pc with
    | workflow w =>
      cases h
      exact .workflow (.crashed carriedOut env again)
    | attachDriver id server read ref | detachDriver id server read ref => exact .addressFailed rfl h
    | _ => cases h
  · next carriedOut env w =>
    obtain ⟨out, hout, hstep⟩ := Option.map_eq_some_iff.mp h
    cases hstep
    exact .workflow (.caught carriedOut env hout)
  · cases h
    exact .unstarted _ _ _
  · cases h

/-- The calls of `IpsService` change addresses and VMs, and start no workflow. -/
structure Addressed (c c' : Cloud) (pc' : Pc) : Prop where
  servers : c'.servers = c.servers
  hosts : c'.hosts = c.hosts
  ledger : c'.ledger = c.ledger
  privateIps : c'.privateIps = c.privateIps
  after : pc'.addressing = true ∨ ∃ error, pc' = .rest error

theorem readAttach_after (c : Cloud) (projectId id server : ℕ) (ip : PublicIp) :
    (readAttach c projectId id server ip).addressing = true ∨
      ∃ error, readAttach c projectId id server ip = .rest error := by
  unfold readAttach
  (repeat' split) <;> first | exact .inl rfl | exact .inr ⟨_, rfl⟩

theorem readDetach_after (c : Cloud) (id server : ℕ) :
    (readDetach c id server).addressing = true ∨ ∃ error, readDetach c id server = .rest error := by
  unfold readDetach
  (repeat' split) <;> first | exact .inl rfl | exact .inr ⟨_, rfl⟩

theorem addressed_next {c c' : Cloud} {env : Env} {pc pc' : Pc} (haddressing : pc.addressing = true)
    (h : nextPc c env pc = some (c', pc')) : Addressed c c' pc' := by
  cases pc with
  | reserveFind projectId regionId attempts =>
    simp only [nextPc] at h
    split at h <;> cases h
    · exact ⟨rfl, rfl, rfl, rfl, .inr ⟨_, rfl⟩⟩
    · exact ⟨rfl, rfl, rfl, rfl, .inr ⟨_, rfl⟩⟩
    · exact ⟨rfl, rfl, rfl, rfl, .inl rfl⟩
  | reserveClaim projectId regionId attempts id =>
    simp only [nextPc] at h
    split_ifs at h <;> cases h
    · exact ⟨rfl, rfl, rfl, rfl, .inr ⟨_, rfl⟩⟩
    · exact ⟨rfl, rfl, rfl, rfl, .inl rfl⟩
  | attachServer projectId id server ip =>
    cases h
    exact ⟨rfl, rfl, rfl, rfl, readAttach_after _ _ _ _ _⟩
  | attachClaim id server read ref =>
    simp only [nextPc] at h
    split_ifs at h <;> cases h
    · exact ⟨rfl, rfl, rfl, rfl, .inl rfl⟩
    · exact ⟨rfl, rfl, rfl, rfl, .inr ⟨_, rfl⟩⟩
  | attachUndo id server =>
    simp only [nextPc] at h
    split_ifs at h <;> cases h
    · exact ⟨rfl, rfl, rfl, rfl, .inr ⟨_, rfl⟩⟩
    · exact ⟨rfl, rfl, rfl, rfl, .inr ⟨_, rfl⟩⟩
  | detachServer id server =>
    cases h
    exact ⟨rfl, rfl, rfl, rfl, readDetach_after _ _ _⟩
  | detachDriver id server read ref =>
    cases h
    exact ⟨rfl, rfl, rfl, rfl, .inl rfl⟩
  | attachDriver id server read ref | detachWrite id server | releaseWrite id =>
    cases h
    exact ⟨rfl, rfl, rfl, rfl, .inr ⟨_, rfl⟩⟩
  | _ => cases haddressing

theorem addressed_crash {c c' : Cloud} {carriedOut again : Bool} {env : Env} {pc pc' : Pc}
    (haddressing : pc.addressing = true) (h : crashPc c carriedOut env again pc = some (c', pc')) :
    Addressed c c' pc' := by
  cases pc with
  | attachDriver id server read ref =>
    cases carriedOut <;> cases h <;> exact ⟨rfl, rfl, rfl, rfl, .inl rfl⟩
  | detachDriver id server read ref =>
    cases carriedOut <;> cases h <;> exact ⟨rfl, rfl, rfl, rfl, .inr ⟨_, rfl⟩⟩
  | workflow w => cases haddressing
  | _ => cases h

end Prgd.Compute
