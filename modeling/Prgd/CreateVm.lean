import Prgd.FallibleCalls
import Prgd.Meters

/-!
# Creating a VM

`create` of the host agent: the next free id, a clone under that id, its configuration, its disk
and its start. Each call goes to Proxmox, which others use as well: before each of the calls they
make VMs under free ids and delete their own.

A failure after the clone deletes the VM. The clone itself is a task that the agent watches, and
when it cannot watch it to its end it returns an error and deletes nothing. The VM that such a
task makes stays, and carries no tag by which it could be found.
-/
namespace Prgd.CreateVm
open Calls
open Meters (cutPrefix)

/-! ## The cluster -/

abbrev Form := List (Text × Text)

/-- A VM. `mine` if this call cloned it, from `source`. -/
structure Vm where
  vmid : ℕ
  mine : Bool := false
  name : Text := []
  source : ℤ × Text := (0, [])
  config : Form := []
  disk : Text := []
  running : Bool := false
  deriving DecidableEq

/-- What others do. -/
inductive Move where
  | create (vmid : ℕ)
  | delete (vmid : ℕ)

structure World where
  vms : List Vm
  /-- What others do before each of the calls that are still to come. -/
  moves : List (List Move) := []
  /-- The VMs that this call deleted. -/
  deleted : List Vm := []

def taken (vms : List Vm) (vmid : ℕ) : Bool := vms.any fun vm => vm.vmid = vmid

/-- Others leave the VM of this call alone. -/
def Move.apply (vms : List Vm) : Move → List Vm
  | .create vmid => if taken vms vmid then vms else { vmid } :: vms
  | .delete vmid => vms.filter fun vm => vm.mine || vm.vmid ≠ vmid

/-- The cluster when the next call arrives. -/
def World.turn (w : World) : World :=
  match w.moves with
  | [] => w
  | moves :: rest => { w with vms := moves.foldl Move.apply w.vms, moves := rest }

def World.update (vmid : ℕ) (f : Vm → Vm) (w : World) : World :=
  { w with vms := w.vms.map fun vm => if vm.vmid = vmid then f vm else vm }

/-- `/cluster/nextid`, the least free id from 100 on. -/
def nextFree (vms : List Vm) : ℕ :=
  ((List.range (vms.length + 1)).map (· + 100)).find? (fun id => !taken vms id) |>.getD 100

/-! ## Tasks -/

/-- How a long operation goes on after it was accepted. -/
structure Task where
  /-- What it is for happens. -/
  done : Bool := true
  /-- How often the agent finds it running. -/
  running : ℕ := 0
  /-- The deadline of the agent passes first. -/
  late : Bool := false
  exitOK : Bool := true
  done_of_exitOK : exitOK = true → done = true := by decide

inductive Answer where
  | refused
  | accepted (upid : Option Task)

/-- An error that is not one of a call. -/
def giveUp {α : Type} : Prog World α := fun w fates => ⟨.error .transport, w, fates⟩

def act {α : Type} (f : World → α × World) : Prog World α := call fun w => f w.turn

def poll : Prog World Unit := write World.turn

def waitTask (t : Task) : Prog World Unit := do
  (List.replicate t.running ()).forM fun _ => poll
  if t.late then giveUp
  else do
    poll
    if t.exitOK then pure () else giveUp

def post (request : World → Answer × World) : Prog World Unit := do
  match ← act request with
  | .refused => giveUp
  | .accepted none => pure ()
  | .accepted (some t) => waitTask t

/-! ## The calls of `create` -/

def nextID : Prog World ℕ := act fun w => (nextFree w.vms, w)

/-- Adds a VM of this call. -/
def World.clone (w : World) (source : ℤ) (snapname : Text) (newid : ℕ) (name : Text) : World :=
  { w with vms := { vmid := newid, mine := true, name, source := (source, snapname) } :: w.vms }

/-- A clone is refused when the id is taken. -/
def cloneSnapshot (source : ℤ) (snapname : Text) (newid : ℕ) (name : Text) (clone : Task) :
    Prog World Unit :=
  post fun w =>
    if taken w.vms newid then (.refused, w)
    else (.accepted clone, if clone.done then w.clone source snapname newid name else w)

def Clone (template : ℤ) (newid : ℕ) (name : Text) (clone : Task) : Prog World Unit :=
  cloneSnapshot template [] newid name clone

structure VMConfig where
  cores : ℤ
  memoryMb : ℤ
  sshKeys : List Text
  userData : Text
  hostname : Text
  publicIP : Text := []
  gateway : Text := []
  privateIP : Text
  bridge : Text
  bridgeMTU : Bool := false
  publicBr : Text
  tags : Text

def intText (n : ℤ) : Text := (toString n).toList

section
variable (encodeSSHKeys : List Text → Text)

def VMConfig.form (v : VMConfig) : Form :=
  [("cores".toList, intText v.cores), ("memory".toList, intText v.memoryMb),
    ("agent".toList, "enabled=1".toList), ("onboot".toList, "1".toList),
    ("name".toList, v.hostname), ("tags".toList, v.tags), ("ciuser".toList, "root".toList),
    ("net0".toList, "virtio,bridge=".toList ++ v.bridge ++ ",firewall=1".toList ++
      if v.bridgeMTU then ",mtu=1".toList else []),
    ("ipconfig0".toList, "ip=".toList ++ v.privateIP)] ++
  (if v.publicIP ≠ [] then
    [("net1".toList, "virtio,bridge=".toList ++ v.publicBr ++ ",firewall=1".toList),
      ("ipconfig1".toList, "ip=".toList ++ v.publicIP ++ ",gw=".toList ++ v.gateway)] else []) ++
  (if v.sshKeys ≠ [] then [("sshkeys".toList, encodeSSHKeys v.sshKeys)] else []) ++
  (if v.userData ≠ [] then [("cicustom".toList, "user=".toList ++ v.userData)] else [])

def configure (vmid : ℕ) (v : VMConfig) : Prog World Unit :=
  act fun w => ((), w.update vmid fun vm => { vm with config := v.form encodeSSHKeys })

end

def resizeDisk (vmid : ℕ) (diskGb : ℤ) : Prog World Unit :=
  act fun w => ((), w.update vmid fun vm => { vm with disk := intText diskGb ++ ['G'] })

def start (vmid : ℕ) (t : Task) : Prog World Unit :=
  post fun w => (.accepted t,
    if t.done then w.update vmid fun vm => { vm with running := true } else w)

/-- A VM that does not exist is deleted. -/
def delete (vmid : ℕ) (t : Task) : Prog World Unit := do
  match ← act fun w =>
    if taken w.vms vmid then (Answer.accepted t, if t.done then
      { w with
        vms := w.vms.filter (·.vmid ≠ vmid)
        deleted := w.vms.filter (·.vmid = vmid) ++ w.deleted } else w)
    else (.refused, w) with
  | .refused => pure ()
  | .accepted none => pure ()
  | .accepted (some t) => waitTask t

/-! ## The job -/

structure ImageRef where
  template : ℤ := 0
  vmid : ℤ := 0
  node : Text := []
  name : Text := []

structure Address where
  address : Text
  gateway : Text := []
  prefixLength : ℤ

structure VmSpec where
  serverId : Text
  name : Text
  hostname : Text
  vcpu : ℤ
  memoryMb : ℤ
  diskGb : ℤ
  imageRef : Text
  sshKeys : List Text
  userData : Text
  networkRef : Text
  publicIP : Option Address
  privateIP : Option Address
  privateBridge : Text

structure VmRef where
  vmid : ℕ
  node : Text
  serverId : Text
  projectId : Text

structure VmHandle where
  vmRef : VmRef
  privateIP : Text

/-- The settings of the agent, and what it calls besides Proxmox. -/
structure Agent where
  node : Text
  bridge : Text
  publicBridge : Text
  unmarshal : Text → Option ImageRef
  encodeSSHKeys : List Text → Text
  /-- The file with the user data could be written. -/
  written : VmSpec → Bool

/-- `strings.TrimPrefix`. -/
def trimPrefix (s before : Text) : Text := (cutPrefix s before).getD s

def cidr (a : Address) : Text := a.address ++ '/' :: intText a.prefixLength

def snippetRef (vmid : ℕ) : Text :=
  "local:snippets/prgd-".toList ++ intText vmid ++ "-user.yaml".toList

def Agent.config (a : Agent) (spec : VmSpec) (vmid : ℕ) : VMConfig where
  cores := spec.vcpu
  memoryMb := spec.memoryMb
  sshKeys := spec.sshKeys
  userData := if spec.userData ≠ [] ∧ a.written spec then snippetRef vmid else []
  hostname := spec.hostname
  publicIP := (spec.publicIP.map cidr).getD []
  gateway := (spec.publicIP.map Address.gateway).getD []
  privateIP :=
    match spec.privateIP with
    | some ip => if ip.address ≠ [] ∧ 0 < ip.prefixLength then cidr ip else "dhcp".toList
    | none => "dhcp".toList
  bridge := if spec.privateBridge ≠ [] then spec.privateBridge else a.bridge
  bridgeMTU := spec.privateBridge ≠ []
  publicBr := a.publicBridge
  tags := "prgd;server-".toList ++ spec.serverId ++ ";project-".toList ++
    trimPrefix spec.networkRef "vpc-".toList

/-- The tasks at Proxmox that a job starts, and the fates of the calls that delete. -/
structure Tasks where
  clone : Task := {}
  start : Task := {}
  deletion : Task := {}
  deletes : List Fate := []

/-- A step that fails deletes the VM, whatever comes of that. -/
def orDelete (vmid : ℕ) (ts : Tasks) (m : Prog World Unit) : Prog World Unit := fun w fates =>
  match m w fates with
  | ⟨.error e, w', rest⟩ => ⟨.error e, (delete vmid ts.deletion w' ts.deletes).state, rest⟩
  | o => o

/-- A template, or a snapshot of a VM. -/
def ImageRef.clone (img : ImageRef) (vmid : ℕ) (name : Text) (t : Task) : Prog World Unit :=
  if img.template ≠ 0 then Clone img.template vmid name t
  else cloneSnapshot img.vmid img.name vmid name t

/-- The image of a job that the agent can clone. -/
def Agent.image (a : Agent) (spec : VmSpec) : Option ImageRef :=
  match a.unmarshal spec.imageRef with
  | none => none
  | some img =>
      if img.template = 0 ∧ (img.vmid = 0 ∨ img.name = []) then none
      else if img.template = 0 ∧ img.node ≠ [] ∧ img.node ≠ a.node then none
      else some img

def Agent.create (a : Agent) (ts : Tasks) (spec : VmSpec) : Prog World VmHandle :=
  match a.image spec with
  | none => giveUp
  | some img => do
      let vmid ← nextID
      img.clone vmid spec.name ts.clone
      orDelete vmid ts (configure a.encodeSSHKeys vmid (a.config spec vmid))
      orDelete vmid ts (resizeDisk vmid spec.diskGb)
      orDelete vmid ts (start vmid ts.start)
      return {
        vmRef := ⟨vmid, a.node, spec.serverId, trimPrefix spec.networkRef "vpc-".toList⟩
        privateIP := (spec.privateIP.map Address.address).getD [] }

/-! ## Whose VMs there are -/

/-- No VM of this call is there, and it has deleted only its own. -/
structure Gone (w : World) : Prop where
  vms : ∀ vm ∈ w.vms, vm.mine = false
  deleted : ∀ vm ∈ w.deleted, vm.mine = true

/-- The VM of this call is the one with the id, and it has deleted only its own. -/
structure There (vmid : ℕ) (w : World) : Prop where
  taken : taken w.vms vmid = true
  vms : ∀ vm ∈ w.vms, (vm.mine = true ↔ vm.vmid = vmid)
  deleted : ∀ vm ∈ w.deleted, vm.mine = true

theorem taken_iff {vms : List Vm} {vmid : ℕ} :
    taken vms vmid = true ↔ ∃ vm ∈ vms, vm.vmid = vmid := by
  simp [taken]

theorem apply_gone (m : Move) {vms : List Vm} (h : ∀ vm ∈ vms, vm.mine = false) :
    ∀ vm ∈ m.apply vms, vm.mine = false := by
  cases m with
  | create vmid =>
    dsimp only [Move.apply]
    split_ifs
    · exact h
    · simpa using h
  | delete vmid => exact fun vm hvm => h vm (List.mem_of_mem_filter hvm)

theorem apply_there (m : Move) {vmid : ℕ} {vms : List Vm} (ht : taken vms vmid = true)
    (h : ∀ vm ∈ vms, (vm.mine = true ↔ vm.vmid = vmid)) :
    taken (m.apply vms) vmid = true ∧ ∀ vm ∈ m.apply vms, (vm.mine = true ↔ vm.vmid = vmid) := by
  cases m with
  | create id =>
    dsimp only [Move.apply]
    by_cases hid : taken vms id = true
    · rw [if_pos hid]
      exact ⟨ht, h⟩
    · rw [if_neg hid]
      have hne : id ≠ vmid := fun he => hid (he ▸ ht)
      refine ⟨?_, ?_⟩
      · obtain ⟨vm, hvm, he⟩ := taken_iff.mp ht
        exact taken_iff.mpr ⟨vm, List.mem_cons_of_mem _ hvm, he⟩
      · intro vm hvm
        rcases List.mem_cons.mp hvm with rfl | hvm
        · simpa using hne
        · exact h vm hvm
  | delete id =>
    refine ⟨?_, fun vm hvm => h vm (List.mem_of_mem_filter hvm)⟩
    obtain ⟨vm, hvm, he⟩ := taken_iff.mp ht
    refine taken_iff.mpr ⟨vm, List.mem_filter.mpr ⟨hvm, ?_⟩, he⟩
    rw [(h vm hvm).mpr he, Bool.true_or]

theorem turn_deleted (w : World) : w.turn.deleted = w.deleted := by
  unfold World.turn
  cases w.moves <;> rfl

theorem turn_gone {w : World} (h : Gone w) : Gone w.turn := by
  refine ⟨?_, fun vm hvm => h.deleted vm (turn_deleted w ▸ hvm)⟩
  unfold World.turn
  cases w.moves with
  | nil => exact h.vms
  | cons moves rest =>
    dsimp only
    have hvms := h.vms
    generalize w.vms = vms at hvms ⊢
    induction moves generalizing vms with
    | nil => exact hvms
    | cons m moves ih => exact ih _ (apply_gone m hvms)

theorem turn_there {vmid : ℕ} {w : World} (h : There vmid w) : There vmid w.turn := by
  have hvms : Prgd.CreateVm.taken w.turn.vms vmid = true ∧
      ∀ vm ∈ w.turn.vms, (vm.mine = true ↔ vm.vmid = vmid) := by
    unfold World.turn
    cases w.moves with
    | nil => exact ⟨h.taken, h.vms⟩
    | cons moves rest =>
      dsimp only
      have hstart := And.intro h.taken h.vms
      generalize w.vms = vms at hstart ⊢
      induction moves generalizing vms with
      | nil => exact hstart
      | cons m moves ih => exact ih _ (apply_there m hstart.1 hstart.2)
  exact ⟨hvms.1, hvms.2, fun vm hvm => h.deleted vm (turn_deleted w ▸ hvm)⟩

theorem update_there {vmid : ℕ} {w : World} (h : There vmid w) {f : Vm → Vm}
    (hf : ∀ vm, (f vm).vmid = vm.vmid ∧ (f vm).mine = vm.mine) :
    There vmid (w.update vmid f) := by
  refine ⟨?_, ?_, h.deleted⟩
  · obtain ⟨vm, hvm, he⟩ := taken_iff.mp h.taken
    refine taken_iff.mpr ⟨f vm, List.mem_map.mpr ⟨vm, hvm, if_pos he⟩, ?_⟩
    rw [(hf vm).1, he]
  · intro vm hvm
    obtain ⟨old, hold, rfl⟩ := List.mem_map.mp hvm
    split_ifs
    · rw [(hf old).1, (hf old).2]
      exact h.vms old hold
    · exact h.vms old hold

/-! ## What watching a task finds -/

/-- Every poll is answered, the task ends before the deadline, and it ends well. -/
def Task.Watched (t : Task) (fates : List Fate) : Prop :=
  AllOk (t.running + 1) fates ∧ t.late = false ∧ t.exitOK = true

instance (t : Task) (fates : List Fate) : Decidable (t.Watched fates) :=
  inferInstanceAs (Decidable (_ ∧ _))

/-- What always ends with an error does so after anything. -/
theorem bind_fails {α β : Type} (m : Prog World α) {f : α → Prog World β}
    (h : ∀ a w fates, ∃ e, (f a w fates).result = .error e) (w : World) (fates : List Fate) :
    ∃ e, ((m >>= f) w fates).result = .error e := by
  cases hm : m w fates with
  | mk result w' rest =>
    cases result with
    | ok a =>
      rw [bind_ok hm]
      exact h a w' rest
    | error e => exact ⟨e, by rw [bind_of_error hm]⟩

theorem waitTask_ok_iff (t : Task) (w : World) (fates : List Fate) :
    (∃ u, (waitTask t w fates).result = .ok u) ↔ t.Watched fates := by
  have hfails : t.late = true ∨ t.exitOK = false →
      ∃ e, (waitTask t w fates).result = .error e := by
    intro hbad
    unfold waitTask
    refine bind_fails _ (fun _ w fates => ?_) w fates
    cases hlate : t.late with
    | true => exact ⟨_, rfl⟩
    | false =>
      refine bind_fails _ (fun _ w fates => ?_) w fates
      have hexit : t.exitOK = false := by simpa [hlate] using hbad
      rw [hexit]
      exact ⟨_, rfl⟩
  by_cases hgood : t.late = false ∧ t.exitOK = true
  · obtain ⟨w', hruns⟩ : ∃ w', Runs (waitTask t) w (t.running + (1 + 0)) () w' := by
      unfold waitTask
      rw [hgood.1, hgood.2]
      have hpolls := Runs.forM_write (fun _ : Unit => World.turn) (List.replicate t.running ()) w
      rw [List.length_replicate] at hpolls
      exact ⟨_, hpolls.bind ((Runs.write World.turn _).bind (Runs.pure () _))⟩
    constructor
    · rintro ⟨u, hu⟩
      refine ⟨?_, hgood⟩
      by_contra hnot
      obtain ⟨e, he⟩ := hruns.stuck fates hnot
      rw [he] at hu
      cases hu
    · rintro ⟨hall, -⟩
      exact ⟨(), by rw [hruns.done fates hall]⟩
  · refine iff_of_false ?_ fun h => hgood h.2
    rintro ⟨u, hu⟩
    obtain ⟨e, he⟩ := hfails (by
      by_contra hnot
      exact hgood (by simpa using hnot))
    rw [he] at hu
    cases hu

theorem waitTask_keeps {I : World → Prop} (h : ∀ w, I w → I w.turn) (t : Task) :
    Triple I (waitTask t) (fun _ => I) I := by
  have hpoll : Triple I poll (fun _ => I) I := Triple.write h (fun _ hw => hw) h
  have hgive : ∀ {α : Type} {Q : α → World → Prop}, Triple I giveUp Q I := fun w _ hw => hw
  unfold waitTask
  refine Triple.bind (Triple.forM_invariant fun _ _ => hpoll) fun _ => ?_
  cases t.late with
  | true => exact hgive
  | false =>
    refine Triple.bind hpoll fun _ => ?_
    cases t.exitOK with
    | true => exact Triple.pure fun _ hw => hw
    | false => exact hgive

/-! ## Cloning and deleting -/

/-- The clone was accepted and makes a VM. -/
def Started (t : Task) (newid : ℕ) (w : World) (fates : List Fate) : Prop :=
  AppliedAt 0 fates ∧ taken w.turn.vms newid = false ∧ t.done = true

/-- The clone leaves a VM exactly if it was started, and ends well only if it was. -/
theorem cloneSnapshot_spec (source : ℤ) (snapname : Text) (newid : ℕ) (name : Text) (t : Task)
    {w : World} (hw : Gone w) (fates : List Fate) :
    ((∃ u, (cloneSnapshot source snapname newid name t w fates).result = .ok u) ↔
      taken w.turn.vms newid = false ∧ AllOk 1 fates ∧ t.Watched (fates.drop 1)) ∧
    (Started t newid w fates →
      There newid (cloneSnapshot source snapname newid name t w fates).state) ∧
    (¬ Started t newid w fates →
      Gone (cloneSnapshot source snapname newid name t w fates).state) := by
  have hturn := turn_gone hw
  have hthere : taken w.turn.vms newid = false →
      There newid (w.turn.clone source snapname newid name) := by
    intro hfree
    refine ⟨taken_iff.mpr ⟨_, List.mem_cons_self, rfl⟩, fun x hx => ?_, hturn.deleted⟩
    rcases List.mem_cons.mp hx with rfl | hx
    · exact iff_of_true rfl rfl
    · refine iff_of_false (by rw [hturn.vms x hx]; decide) fun he => ?_
      rw [taken_iff.mpr ⟨x, hx, he⟩] at hfree
      cases hfree
  unfold cloneSnapshot post act
  rcases call_fates _ w fates with ⟨hall, hcall⟩ | ⟨hnot, e, ⟨happ, hcall⟩ | ⟨happ, hcall⟩⟩
  · rw [bind_ok hcall]
    dsimp only
    cases hfree : taken w.turn.vms newid with
    | true =>
      exact ⟨iff_of_false (fun ⟨_, h⟩ => by cases h) (fun h => by cases h.1),
        fun h => absurd (h.2.1.symm.trans hfree) (by decide), fun _ => hturn⟩
    | false =>
      have hkeep : ∀ {I : World → Prop} (w' : World), (∀ v, I v → I v.turn) → I w' →
          I (waitTask t w' (fates.drop 1)).state := fun w' hI hw' =>
        (waitTask_keeps hI t).state _ hw'
      refine ⟨?_, fun h => ?_, fun h => ?_⟩
      · refine (waitTask_ok_iff t _ (fates.drop 1)).trans ?_
        exact ⟨fun h => ⟨rfl, hall, h⟩, fun h => h.2.2⟩
      · refine hkeep _ (fun v => turn_there) ?_
        rw [h.2.2]
        exact hthere hfree
      · refine hkeep _ (fun v => turn_gone) ?_
        have hdone : t.done = false := by
          rw [← Bool.not_eq_true]
          exact fun hdone => h ⟨hall.applied, hfree, hdone⟩
        rw [hdone]
        exact hturn
  · rw [bind_of_error hcall]
    refine ⟨iff_of_false (fun ⟨_, h⟩ => by cases h) (fun h => hnot h.2.1), fun h => ?_, fun h => ?_⟩
    · dsimp only
      rw [h.2.1, h.2.2]
      exact hthere h.2.1
    · dsimp only
      cases hfree : taken w.turn.vms newid with
      | true => exact hturn
      | false =>
        have hdone : t.done = false := by
          rw [← Bool.not_eq_true]
          exact fun hdone => h ⟨happ, hfree, hdone⟩
        rw [hdone]
        exact hturn
  · rw [bind_of_error hcall]
    refine ⟨iff_of_false (fun ⟨_, h⟩ => by cases h) fun h => hnot h.2.1,
      fun h => absurd h.1 happ, fun _ => hw⟩

theorem clone_spec (img : ImageRef) (newid : ℕ) (name : Text) (t : Task) {w : World} (hw : Gone w)
    (fates : List Fate) :
    ((∃ u, (img.clone newid name t w fates).result = .ok u) ↔
      taken w.turn.vms newid = false ∧ AllOk 1 fates ∧ t.Watched (fates.drop 1)) ∧
    (Started t newid w fates → There newid (img.clone newid name t w fates).state) ∧
    (¬ Started t newid w fates → Gone (img.clone newid name t w fates).state) := by
  unfold ImageRef.clone
  split_ifs
  · exact cloneSnapshot_spec _ _ newid name t hw fates
  · exact cloneSnapshot_spec _ _ newid name t hw fates

/-- The calls that delete succeed. -/
structure Tasks.Deletes (ts : Tasks) : Prop where
  calls : ∀ fate ∈ ts.deletes, fate = .ok
  done : ts.deletion.done = true

theorem delete_gone {vmid : ℕ} {ts : Tasks} (hts : ts.Deletes) {w : World} (h : There vmid w) :
    Gone (delete vmid ts.deletion w ts.deletes).state := by
  have hturn := turn_there h
  have hgone : Gone { w.turn with
      vms := w.turn.vms.filter (·.vmid ≠ vmid)
      deleted := w.turn.vms.filter (·.vmid = vmid) ++ w.turn.deleted } := by
    refine ⟨fun vm hvm => ?_, fun vm hvm => ?_⟩
    · obtain ⟨hmem, hne⟩ := List.mem_filter.mp hvm
      rw [← Bool.not_eq_true, hturn.vms vm hmem]
      exact of_decide_eq_true hne
    · rcases List.mem_append.mp hvm with hvm | hvm
      · obtain ⟨hmem, he⟩ := List.mem_filter.mp hvm
        exact (hturn.vms vm hmem).mpr (of_decide_eq_true he)
      · exact hturn.deleted vm hvm
  have hall : AllOk 1 ts.deletes := fun fate hfate => hts.calls fate (List.mem_of_mem_take hfate)
  unfold delete act
  rcases call_fates _ w ts.deletes with ⟨-, hcall⟩ | ⟨hnot, -⟩
  · rw [bind_ok hcall]
    dsimp only
    rw [hturn.taken, hts.done]
    exact (waitTask_keeps (I := Gone) (fun _ => turn_gone) ts.deletion).state _ hgone
  · exact absurd hall hnot

theorem orDelete_spec {vmid : ℕ} {ts : Tasks} (hts : ts.Deletes) {m : Prog World Unit}
    (hm : Triple (There vmid) m (fun _ => There vmid) (There vmid)) :
    Triple (There vmid) (orDelete vmid ts m) (fun _ => There vmid) Gone := by
  intro w fates hw
  have hend := hm w fates hw
  unfold orDelete
  cases hrun : m w fates with
  | mk result w' rest =>
    rw [hrun] at hend
    cases result with
    | ok u => exact hend
    | error e => exact delete_gone hts hend

theorem act_there {vmid : ℕ} {α : Type} {f : World → α × World}
    (h : ∀ w, There vmid w → There vmid (f w).2) :
    Triple (There vmid) (act f) (fun _ => There vmid) (There vmid) :=
  Triple.call (fun _ hw => h _ (turn_there hw)) (fun _ hw => hw) fun _ hw => h _ (turn_there hw)

theorem start_there (vmid : ℕ) (t : Task) :
    Triple (There vmid) (start vmid t) (fun _ => There vmid) (There vmid) := by
  unfold start post
  refine Triple.bind (act_there fun w hw => ?_) fun answer => ?_
  · dsimp only
    split_ifs
    · exact update_there hw fun _ => ⟨rfl, rfl⟩
    · exact hw
  · match answer with
    | .refused => exact fun w _ hw => hw
    | .accepted none => exact Triple.pure fun _ hw => hw
    | .accepted (some t) => exact waitTask_keeps (I := There vmid) (fun _ => turn_there) t

/-! ## What a failed job leaves -/

/-- The clone makes a VM and the agent does not see it through. -/
def Tasks.Unseen (ts : Tasks) (w : World) (fates : List Fate) : Prop :=
  AllOk 1 fates ∧ Started ts.clone (nextFree w.turn.vms) w.turn (fates.drop 1) ∧
    ¬ (AllOk 1 (fates.drop 1) ∧ ts.clone.Watched (fates.drop 2))

/-- A job that fails leaves no VM of its own, and deletes no VM of others, exactly if it does not
make a VM by a clone that it cannot watch to its end. -/
theorem create_leaves_none_iff (a : Agent) (ts : Tasks) (spec : VmSpec) (w : World)
    (fates : List Fate) (hw : Gone w) (hts : ts.Deletes) :
    ((∀ e, (a.create ts spec w fates).result = .error e →
        ∀ vm ∈ (a.create ts spec w fates).state.vms, vm.mine = false) ∧
      ∀ vm ∈ (a.create ts spec w fates).state.deleted, vm.mine = true) ↔
      ¬ ((a.image spec).isSome = true ∧ ts.Unseen w fates) := by
  have hgone : ∀ {o : Outcome World VmHandle}, Gone o.state →
      ((∀ e, o.result = .error e → ∀ vm ∈ o.state.vms, vm.mine = false) ∧
        ∀ vm ∈ o.state.deleted, vm.mine = true) := fun h => ⟨fun _ _ => h.vms, h.deleted⟩
  unfold Agent.create
  cases himg : a.image spec with
  | none => exact iff_of_true (hgone hw) fun h => by cases h.1
  | some img =>
    simp only [Option.isSome_some, true_and]
    have hrest : ∀ vmid, Triple (There vmid) (do
        orDelete vmid ts (configure a.encodeSSHKeys vmid (a.config spec vmid))
        orDelete vmid ts (resizeDisk vmid spec.diskGb)
        orDelete vmid ts (start vmid ts.start)
        return {
          vmRef := ⟨vmid, a.node, spec.serverId, trimPrefix spec.networkRef "vpc-".toList⟩
          privateIP := (spec.privateIP.map Address.address).getD [] : VmHandle })
        (fun _ => There vmid) Gone := by
      intro vmid
      refine Triple.bind (orDelete_spec hts (act_there fun w hw => ?_)) fun _ => ?_
      · exact update_there hw fun _ => ⟨rfl, rfl⟩
      refine Triple.bind (orDelete_spec hts (act_there fun w hw => ?_)) fun _ => ?_
      · exact update_there hw fun _ => ⟨rfl, rfl⟩
      exact Triple.bind (orDelete_spec hts (start_there vmid ts.start)) fun _ =>
        Triple.pure fun _ hw => hw
    unfold nextID act
    rcases call_fates _ w fates with ⟨hall, hcall⟩ | ⟨hnot, e, ⟨happ, hcall⟩ | ⟨happ, hcall⟩⟩
    · rw [bind_ok hcall]
      dsimp only
      obtain ⟨hok, hthere, hnone⟩ := clone_spec img (nextFree w.turn.vms) spec.name ts.clone
        (turn_gone hw) (fates.drop 1)
      have hseen : ts.Unseen w fates ↔
          Started ts.clone (nextFree w.turn.vms) w.turn (fates.drop 1) ∧
          ¬ ∃ u, (img.clone (nextFree w.turn.vms) spec.name ts.clone w.turn (fates.drop 1)).result =
            .ok u := by
        rw [hok, Tasks.Unseen, and_iff_right hall, List.drop_drop]
        refine and_congr_right fun hstarted => not_congr ?_
        rw [and_iff_right hstarted.2.1]
      rw [hseen]
      cases hrun : img.clone (nextFree w.turn.vms) spec.name ts.clone w.turn (fates.drop 1) with
      | mk result w' rest =>
        rw [hrun] at hthere hnone hok
        cases result with
        | ok u =>
          rw [bind_ok hrun]
          refine iff_of_true ?_ fun h => h.2 ⟨u, rfl⟩
          obtain ⟨hfree, hposted, hwatched⟩ := hok.mp ⟨u, rfl⟩
          have hstarted := And.intro hposted.applied
            (And.intro hfree (ts.clone.done_of_exitOK hwatched.2.2))
          have hend := hrest _ w' rest (hthere hstarted)
          split at hend
          · next hresult =>
            refine ⟨fun e he => ?_, hend.deleted⟩
            rw [hresult] at he
            cases he
          · exact hgone hend
        | error e =>
          rw [bind_of_error hrun]
          by_cases hstarted : Started ts.clone (nextFree w.turn.vms) w.turn (fates.drop 1)
          · refine iff_of_false (fun h => ?_) fun h => h ⟨hstarted, fun ⟨_, hu⟩ => by cases hu⟩
            obtain ⟨vm, hvm, hid⟩ := taken_iff.mp (hthere hstarted).taken
            have hmine := ((hthere hstarted).vms vm hvm).mpr hid
            rw [h.1 e rfl vm hvm] at hmine
            cases hmine
          · exact iff_of_true (hgone (hnone hstarted)) fun h => hstarted h.1
    · rw [bind_of_error hcall]
      exact iff_of_true (hgone (turn_gone hw)) fun h => hnot h.1
    · rw [bind_of_error hcall]
      exact iff_of_true (hgone hw) fun h => hnot h.1

/-- An agent that reads every image as one template. -/
def templateAgent : Agent where
  node := "pve1".toList
  bridge := "vmbr1".toList
  publicBridge := "vmbr0".toList
  unmarshal _ := some { template := 9000 }
  encodeSSHKeys _ := []
  written _ := true

def smallVm : VmSpec where
  serverId := "s1".toList
  name := "web".toList
  hostname := "web".toList
  vcpu := 1
  memoryMb := 1024
  diskGb := 25
  imageRef := "\x7b\"template\":9000\x7d".toList
  sshKeys := []
  userData := []
  networkRef := "vpc-p1".toList
  publicIP := none
  privateIP := none
  privateBridge := []

/-- The configuration is refused, and the VM is deleted. -/
theorem create_leaves_none_refused :
    ((∀ e, (templateAgent.create {} smallVm ⟨[⟨100, false, [], (0, []), [], [], true⟩], [], []⟩
          [.ok, .ok, .ok, .failed (.status 400) false]).result = .error e →
        ∀ vm ∈ (templateAgent.create {} smallVm ⟨[⟨100, false, [], (0, []), [], [], true⟩], [], []⟩
          [.ok, .ok, .ok, .failed (.status 400) false]).state.vms, vm.mine = false) ∧
      ∀ vm ∈ (templateAgent.create {} smallVm ⟨[⟨100, false, [], (0, []), [], [], true⟩], [], []⟩
          [.ok, .ok, .ok, .failed (.status 400) false]).state.deleted, vm.mine = true) ↔
      ¬ ((templateAgent.image smallVm).isSome = true ∧ Tasks.Unseen {}
        ⟨[⟨100, false, [], (0, []), [], [], true⟩], [], []⟩
        [.ok, .ok, .ok, .failed (.status 400) false]) :=
  create_leaves_none_iff templateAgent {} smallVm _ _ ⟨by simp, by simp⟩ ⟨by simp, rfl⟩

/-- The first poll of the clone's task gets no answer: the job fails, and its VM stays, with no
tag. -/
theorem create_leaves_clone :
    (templateAgent.create {} smallVm ⟨[], [], []⟩ [.ok, .ok, .failed .transport false]).result =
        .error .transport ∧
      (templateAgent.create {} smallVm ⟨[], [], []⟩
        [.ok, .ok, .failed .transport false]).state.vms =
          [⟨100, true, "web".toList, (9000, []), [], [], false⟩] := ⟨rfl, rfl⟩

end Prgd.CreateVm
