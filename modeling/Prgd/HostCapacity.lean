import Prgd.Scheduler

/-!
# Hosts are not overbooked

The counters of a host are what `place` decides by. A reservation raises them and a release
lowers them by the same size; a heartbeat overwrites them. As long as no heartbeat says less
than what is reserved, the counters cover the reservations, and the lock of the region keeps
the room that was found until it is taken.
-/
namespace Prgd.Scheduler
open Interleaving

/-- What the servers take that were placed on a host and not released. -/
def heldOn (f : Fleet) (host : ℕ) (x : Resource) : ℤ :=
  f.servers.sum fun _ r => if r.reserved = some host ∧ r.released = false then r.size.amount x else 0

/-- A heartbeat that arrives says at least what is reserved on its host. -/
def Covers (w : World) (a : ℕ × Act) : Bool :=
  match a.2 with
  | .heartbeat i => (w.shared.heartbeats[i]?).all fun hb =>
      [Resource.vcpu, .memoryMb, .diskGb].all fun x => heldOn w.shared hb.hostId x ≤ hb.used x
  | _ => true

structure Booked (f : Fleet) : Prop where
  counted : ∀ {id h}, f.hosts.find id = some h → ∀ x, heldOn f id x ≤ h.used x
  within : ∀ {id h}, f.hosts.find id = some h → ∀ x, (heldOn f id x : ℚ) ≤ h.limit x
  written : ∀ {s r id}, f.servers.find s = some r → r.hostId = some id → r.reserved = some id
  undeleted : ∀ {s r}, f.servers.find s = some r → r.deleter = none → r.released = false

/-- The caller places the server and has reserved nothing yet. -/
def Placing (f : Fleet) (q s : ℕ) (size : Size) : Prop :=
  ∃ r, f.servers.find s = some r ∧ r.owner = q ∧ r.reserved = none ∧ r.hostId = none ∧ r.size = size

/-- The caller has reserved the size of the server on the host. -/
def Reserved (f : Fleet) (q s host : ℕ) : Prop :=
  ∃ r, f.servers.find s = some r ∧ r.owner = q ∧ r.reserved = some host

/-- The caller deletes the server, whose size is reserved on the host. -/
def Deleting (f : Fleet) (q s host : ℕ) (size : Size) : Prop :=
  ∃ r, f.servers.find s = some r ∧ r.deleter = some q ∧ r.released = false ∧
    r.reserved = some host ∧ r.hostId = some host ∧ r.size = size

/-- The host has room for the size, besides what is reserved. -/
def Room (f : Fleet) (region host : ℕ) (size : Size) : Prop :=
  ∃ h, f.hosts.find host = some h ∧ h.regionId = region ∧
    ∀ x, (heldOn f host x + size.amount x : ℚ) ≤ h.limit x

/-- What holds of a caller, by the statement it stands in front of. -/
def Local (f : Fleet) (q : ℕ) : Pc → Prop
  | .rest _ => True
  | .load s => ∃ size, Placing f q s size
  | .source s r | .siblings s r _ => Placing f q s r.size
  | .lock req => Placing f q req.serverId req.size
  | .avoid req | .hosts req _ =>
      f.locks req.regionId = some q ∧ Placing f q req.serverId req.size
  | .reserve req _ host =>
      f.locks req.regionId = some q ∧ Placing f q req.serverId req.size ∧
        Room f req.regionId host req.size
  | .write req _ host => f.locks req.regionId = some q ∧ Reserved f q req.serverId host
  | .unlock req placed =>
      f.locks req.regionId = some q ∧ ∀ host, placed = .ok host → Reserved f q req.serverId host
  | .record s host => Reserved f q s host
  | .deleteVm s | .finalize s => ∃ host size, Deleting f q s host size
  | .release s r => ∃ host, r.hostId = some host ∧ Deleting f q s host r.size
  | .clear s => ∃ r, f.servers.find s = some r ∧ r.deleter = some q ∧ r.reserved.isSome

/-! ## What other callers may do -/

/-- A change of a row that does not disturb the caller `q`. -/
structure Undisturbed (q : ℕ) (r r' : Server) : Prop where
  size : r'.size = r.size
  owner : r'.owner = r.owner
  reserved : r.owner = q ∨ r.reserved.isSome → r'.reserved = r.reserved
  unplaced : r.owner = q → r.reserved = none → r.hostId = none → r'.hostId = none
  deleter : r.deleter = some q → r'.deleter = some q
  released : r.deleter = some q → r'.released = r.released
  placed : r.deleter = some q → ∀ host, r.reserved = some host → r.hostId = some host →
    r'.hostId = some host

theorem Undisturbed.refl (q : ℕ) (r : Server) : Undisturbed q r r :=
  ⟨rfl, rfl, fun _ => rfl, fun _ _ h => h, fun h => h, fun _ => rfl, fun _ _ _ h => h⟩

/-- A step that does not disturb the caller `q`. -/
structure Keeps (q : ℕ) (f f' : Fleet) : Prop where
  rows : ∀ {s r}, f.servers.find s = some r →
    ∃ r', f'.servers.find s = some r' ∧ Undisturbed q r r'
  hosts : ∀ {id h}, f.hosts.find id = some h →
    ∃ h', f'.hosts.find id = some h' ∧ h'.regionId = h.regionId ∧ h'.limit = h.limit
  locks : ∀ {region}, f.locks region = some q → f'.locks region = some q
  held : ∀ {id h}, f.hosts.find id = some h → f.locks h.regionId = some q →
    ∀ x, heldOn f' id x ≤ heldOn f id x

section
variable {f f' : Fleet} {q s host region : ℕ} {size : Size}

theorem Placing.keep (h : Placing f q s size) (hk : Keeps q f f') : Placing f' q s size := by
  obtain ⟨r, hr, howner, hreserved, hhost, hsize⟩ := h
  obtain ⟨r', hr', hu⟩ := hk.rows hr
  exact ⟨r', hr', hu.owner.trans howner, (hu.reserved (.inl howner)).trans hreserved,
    hu.unplaced howner hreserved hhost, hu.size.trans hsize⟩

theorem Reserved.keep (h : Reserved f q s host) (hk : Keeps q f f') : Reserved f' q s host := by
  obtain ⟨r, hr, howner, hreserved⟩ := h
  obtain ⟨r', hr', hu⟩ := hk.rows hr
  exact ⟨r', hr', hu.owner.trans howner, (hu.reserved (.inl howner)).trans hreserved⟩

theorem Deleting.keep (h : Deleting f q s host size) (hk : Keeps q f f') :
    Deleting f' q s host size := by
  obtain ⟨r, hr, hdeleter, hreleased, hreserved, hhost, hsize⟩ := h
  obtain ⟨r', hr', hu⟩ := hk.rows hr
  exact ⟨r', hr', hu.deleter hdeleter, (hu.released hdeleter).trans hreleased,
    (hu.reserved (.inr (by simp [hreserved]))).trans hreserved,
    hu.placed hdeleter host hreserved hhost, hu.size.trans hsize⟩

theorem Room.keep (h : Room f region host size) (hlock : f.locks region = some q)
    (hk : Keeps q f f') : Room f' region host size := by
  obtain ⟨r, hr, rfl, hroom⟩ := h
  obtain ⟨r', hr', hregion, hlimit⟩ := hk.hosts hr
  refine ⟨r', hr', hregion, ?_⟩
  intro x
  have hheld : (heldOn f' host x : ℚ) ≤ heldOn f host x := by
    exact_mod_cast hk.held hr hlock x
  rw [hlimit]
  have hbefore := hroom x
  linarith

theorem Local.keep {pc : Pc} (h : Local f q pc) (hk : Keeps q f f') : Local f' q pc := by
  cases pc with
  | rest error => trivial
  | load s =>
    obtain ⟨size, hp⟩ := h
    exact ⟨size, hp.keep hk⟩
  | source s r | siblings s r only | lock req => exact Placing.keep h hk
  | avoid req | hosts req ids => exact ⟨hk.locks h.1, h.2.keep hk⟩
  | reserve req live host => exact ⟨hk.locks h.1, h.2.1.keep hk, h.2.2.keep h.1 hk⟩
  | write req live host => exact ⟨hk.locks h.1, h.2.keep hk⟩
  | unlock req placed => exact ⟨hk.locks h.1, fun host hp => (h.2 host hp).keep hk⟩
  | record s host => exact Reserved.keep h hk
  | deleteVm s | finalize s =>
    obtain ⟨host, size, hd⟩ := h
    exact ⟨host, size, hd.keep hk⟩
  | release s r =>
    obtain ⟨host, hhost, hd⟩ := h
    exact ⟨host, hhost, hd.keep hk⟩
  | clear s =>
    obtain ⟨r, hr, hdeleter, hreserved⟩ := h
    obtain ⟨r', hr', hu⟩ := hk.rows hr
    exact ⟨r', hr', hu.deleter hdeleter, by rw [hu.reserved (.inr hreserved)]; exact hreserved⟩

/-! ## The sums -/

/-- What one server takes of a host. -/
def Server.takes (host : ℕ) (x : Resource) (r : Server) : ℤ :=
  if r.reserved = some host ∧ r.released = false then r.size.amount x else 0

theorem heldOn_edit (f : Fleet) (s : ℕ) (g : Server → Server) (host : ℕ) (x : Resource) :
    heldOn (f.edit s g) host x =
      heldOn f host x + (f.servers.find s).elim 0 fun r => (g r).takes host x - r.takes host x :=
  Table.sum_modify (fun _ r => Server.takes host x r) f.servers s g

/-- An edit that leaves the reservation alone. -/
theorem heldOn_edit_same {g : Server → Server} (hg : ∀ r x, (g r).takes host x = r.takes host x)
    (x : Resource) : heldOn (f.edit s g) host x = heldOn f host x := by
  rw [heldOn_edit]
  cases f.servers.find s with
  | none => simp
  | some r => simp [hg]

theorem find_edit (f : Fleet) (s t : ℕ) (g : Server → Server) :
    (f.edit s g).servers.find t = if t = s then (f.servers.find t).map g else f.servers.find t :=
  Table.find_modify f.servers t s g

/-! ## Steps -/

/-- An edit of one row, besides which the hosts keep their regions and limits. -/
theorem Keeps.edit {g : Server → Server} (hservers : f'.servers = (f.edit s g).servers)
    (hhosts : ∀ {id h}, f.hosts.find id = some h →
      ∃ h', f'.hosts.find id = some h' ∧ h'.regionId = h.regionId ∧ h'.limit = h.limit)
    (hlocks : ∀ {region}, f.locks region = some q → f'.locks region = some q)
    (hrow : ∀ {r}, f.servers.find s = some r → Undisturbed q r (g r))
    (hheld : ∀ {id h}, f.hosts.find id = some h → f.locks h.regionId = some q →
      ∀ x, heldOn (f.edit s g) id x ≤ heldOn f id x) : Keeps q f f' := by
  refine ⟨?_, hhosts, hlocks, ?_⟩
  · intro t r hr
    rw [hservers, find_edit]
    by_cases ht : t = s
    · subst ht
      exact ⟨g r, by rw [if_pos rfl, hr]; rfl, hrow hr⟩
    · exact ⟨r, by rw [if_neg ht]; exact hr, .refl q r⟩
  · intro id h hh hlock x
    have hsame : heldOn f' id x = heldOn (f.edit s g) id x := by rw [heldOn, heldOn, hservers]
    rw [hsame]
    exact hheld hh hlock x

/-- A step that leaves the servers alone. -/
theorem Keeps.servers (hservers : f'.servers = f.servers)
    (hhosts : ∀ {id h}, f.hosts.find id = some h →
      ∃ h', f'.hosts.find id = some h' ∧ h'.regionId = h.regionId ∧ h'.limit = h.limit)
    (hlocks : ∀ {region}, f.locks region = some q → f'.locks region = some q) : Keeps q f f' := by
  refine ⟨?_, hhosts, hlocks, ?_⟩
  · intro t r hr
    exact ⟨r, by rw [hservers]; exact hr, .refl q r⟩
  · intro id h _ _ x
    rw [heldOn, heldOn, hservers]

theorem same_host {id : ℕ} {h : Host} (hh : f.hosts.find id = some h) :
    ∃ h', f.hosts.find id = some h' ∧ h'.regionId = h.regionId ∧ h'.limit = h.limit :=
  ⟨h, hh, rfl, rfl⟩

/-- A host keeps its region and its limits when its counters change. -/
theorem modified_host {k : Host → Host} (hk : ∀ h, (k h).regionId = h.regionId ∧ (k h).limit = h.limit)
    {id : ℕ} {h : Host} (hh : f.hosts.find id = some h) :
    ∃ h', (f.hosts.modify host k).find id = some h' ∧ h'.regionId = h.regionId ∧
      h'.limit = h.limit := by
  rw [Table.find_modify, hh]
  split_ifs
  · exact ⟨k h, rfl, hk h⟩
  · exact ⟨h, rfl, rfl, rfl⟩

theorem limit_add (h : Host) (amount : Resource → ℤ) :
    (h.add amount).regionId = h.regionId ∧ (h.add amount).limit = h.limit := by
  refine ⟨rfl, funext fun x => ?_⟩
  cases x <;> rfl

theorem limit_receive (hb : Heartbeat) (h : Host) :
    (receive hb h).regionId = h.regionId ∧ (receive hb h).limit = h.limit := by
  refine ⟨rfl, funext fun x => ?_⟩
  cases x <;> rfl

/-- A reservation adds the size to what the host holds, and to no other host. -/
theorem heldOn_reserve {r : Server} (hr : f.servers.find s = some r) (hnone : r.reserved = none)
    (hsize : r.size = size) (id : ℕ) (x : Resource) :
    heldOn (f.edit s fun r => { r with reserved := some host }) id x ≤
      heldOn f id x + if id = host then size.amount x else 0 := by
  rw [heldOn_edit, hr, Option.elim_some]
  have hpos := Size.amount_nonneg size x
  have hbefore : r.takes id x = 0 := by
    rw [Server.takes, if_neg]
    simp [hnone]
  rw [hbefore, Server.takes]
  by_cases hid : id = host
  · subst hid
    simp only [true_and, if_true, hsize]
    split_ifs <;> omega
  · rw [if_neg (by simp [Ne.symm hid]), if_neg hid]
    omega

theorem booked_reserve {req : PlacementRequest} (hf : Booked f)
    (hp : Placing f q req.serverId req.size) (hroom : Room f req.regionId host req.size) :
    Booked (reserveHost f req host) := by
  obtain ⟨r, hr, -, hnone, hhost, hsize⟩ := hp
  have hheld : ∀ id x, heldOn (reserveHost f req host) id x ≤
      heldOn f id x + if id = host then req.size.amount x else 0 := heldOn_reserve hr hnone hsize
  refine ⟨?_, ?_, ?_, ?_⟩
  · intro id h' hh' x
    have hle := hheld id x
    simp only [reserveHost, Table.find_modify] at hh'
    split_ifs at hh' with hid
    · obtain ⟨h, hh, rfl⟩ := Option.map_eq_some_iff.mp hh'
      have hcounted := hf.counted hh x
      rw [if_pos hid] at hle
      simp only [Host.add]
      omega
    · have hcounted := hf.counted hh' x
      rw [if_neg hid] at hle
      omega
  · intro id h' hh' x
    have hle : (heldOn (reserveHost f req host) id x : ℚ) ≤
        heldOn f id x + ((if id = host then req.size.amount x else 0 : ℤ) : ℚ) := by
      exact_mod_cast hheld id x
    simp only [reserveHost, Table.find_modify] at hh'
    split_ifs at hh' with hid
    · obtain ⟨h, hh, rfl⟩ := Option.map_eq_some_iff.mp hh'
      subst hid
      obtain ⟨h₂, hh₂, -, hfits⟩ := hroom
      cases hh.symm.trans hh₂
      rw [if_pos rfl] at hle
      rw [(limit_add h _).2]
      exact hle.trans (hfits x)
    · rw [if_neg hid, Int.cast_zero, add_zero] at hle
      exact hle.trans (hf.within hh' x)
  · intro t r' id hr' hid
    have hr'' : (f.edit req.serverId fun r => { r with reserved := some host }).servers.find t =
        some r' := hr'
    rw [find_edit] at hr''
    split_ifs at hr'' with ht
    · rw [ht, hr] at hr''
      cases hr''
      cases hhost.symm.trans hid
    · exact hf.written hr'' hid
  · intro t r' hr' hnone'
    have hr'' : (f.edit req.serverId fun r => { r with reserved := some host }).servers.find t =
        some r' := hr'
    rw [find_edit] at hr''
    split_ifs at hr'' with ht
    · rw [ht, hr] at hr''
      cases hr''
      exact hf.undeleted (r := r) hr hnone'
    · exact hf.undeleted hr'' hnone'

theorem keeps_reserve {req : PlacementRequest} {other : ℕ} (hne : other ≠ q)
    (hlock : f.locks req.regionId = some q) (hp : Placing f q req.serverId req.size)
    (hroom : Room f req.regionId host req.size) : Keeps other f (reserveHost f req host) := by
  obtain ⟨r, hr, howner, hnone, hhost, hsize⟩ := hp
  apply Keeps.edit (f := f) (s := req.serverId) (g := fun r => { r with reserved := some host })
  · rfl
  · intro id h hh
    exact modified_host (fun h => limit_add h _) hh
  · intro region hl
    exact hl
  · intro r' hr'
    cases hr.symm.trans hr'
    refine ⟨rfl, rfl, ?_, fun _ _ h => h, fun h => h, fun _ => rfl, fun _ _ _ h => h⟩
    rintro (hother | hsome)
    · exact (hne (hother.symm.trans howner)).elim
    · simp [hnone] at hsome
  · intro id h hh hl x
    have hid : id ≠ host := by
      rintro rfl
      obtain ⟨h₂, hh₂, hregion, -⟩ := hroom
      cases hh.symm.trans hh₂
      rw [hregion, hlock] at hl
      exact hne (Option.some.inj hl).symm
    have hle : heldOn _ id x ≤ heldOn f id x + if id = host then _ else 0 :=
      heldOn_reserve hr hnone hsize id x
    rw [if_neg hid, add_zero] at hle
    exact hle

/-- A release takes the size from what the host holds. -/
theorem heldOn_release (hd : Deleting f q s host size) (id : ℕ) (x : Resource) :
    heldOn (f.edit s fun r => { r with released := true }) id x =
      heldOn f id x - if id = host then size.amount x else 0 := by
  obtain ⟨r, hr, -, hreleased, hreserved, -, hsize⟩ := hd
  rw [heldOn_edit, hr, Option.elim_some]
  have hafter : Server.takes id x { r with released := true } = 0 := by
    rw [Server.takes, if_neg]
    simp
  rw [hafter, Server.takes, hreserved, hsize]
  by_cases hid : id = host
  · subst hid
    simp only [hreleased, and_self, if_true]
    omega
  · rw [if_neg (by simp [Ne.symm hid]), if_neg hid]
    omega

theorem booked_release (hf : Booked f) (hd : Deleting f q s host size) :
    Booked (releaseHost f s host size) := by
  have hheld : ∀ id x, heldOn (releaseHost f s host size) id x =
      heldOn f id x - if id = host then size.amount x else 0 := heldOn_release hd
  have hpos := Size.amount_nonneg size
  refine ⟨?_, ?_, ?_, ?_⟩
  · intro id h' hh' x
    rw [hheld]
    simp only [releaseHost, Table.find_modify] at hh'
    split_ifs at hh' with hid
    · obtain ⟨h, hh, rfl⟩ := Option.map_eq_some_iff.mp hh'
      have hcounted := hf.counted hh x
      rw [if_pos hid]
      simp only [Host.add]
      omega
    · have hcounted := hf.counted hh' x
      rw [if_neg hid]
      omega
  · intro id h' hh' x
    have hle : (heldOn (releaseHost f s host size) id x : ℚ) ≤ heldOn f id x := by
      rw [hheld]
      have := hpos x
      split_ifs
      · exact_mod_cast (by omega : heldOn f id x - size.amount x ≤ heldOn f id x)
      · simp
    obtain ⟨h, hh, -, hlimit⟩ : ∃ h, f.hosts.find id = some h ∧ h'.regionId = h.regionId ∧
        h'.limit = h.limit := by
      simp only [releaseHost, Table.find_modify] at hh'
      split_ifs at hh'
      · obtain ⟨h, hh, rfl⟩ := Option.map_eq_some_iff.mp hh'
        exact ⟨h, hh, limit_add h _⟩
      · exact ⟨h', hh', rfl, rfl⟩
    rw [hlimit]
    exact hle.trans (hf.within hh x)
  · intro t r' id hr' hid
    have hr'' : (f.edit s fun r => { r with released := true }).servers.find t = some r' := hr'
    rw [find_edit] at hr''
    split_ifs at hr'' with ht
    · obtain ⟨r, hr, rfl⟩ := Option.map_eq_some_iff.mp hr''
      exact hf.written (r := r) hr hid
    · exact hf.written hr'' hid
  · intro t r' hr' hnone
    have hr'' : (f.edit s fun r => { r with released := true }).servers.find t = some r' := hr'
    rw [find_edit] at hr''
    split_ifs at hr'' with ht
    · obtain ⟨r, hr, rfl⟩ := Option.map_eq_some_iff.mp hr''
      obtain ⟨r₂, hr₂, hdeleter, -⟩ := hd
      rw [ht] at hr
      cases hr.symm.trans hr₂
      cases hdeleter.symm.trans hnone
    · exact hf.undeleted hr'' hnone

theorem keeps_release {other : ℕ} (hne : other ≠ q) (hd : Deleting f q s host size) :
    Keeps other f (releaseHost f s host size) := by
  have hheld := heldOn_release hd
  obtain ⟨r, hr, hdeleter, -⟩ := hd
  apply Keeps.edit (f := f) (s := s) (g := fun r => { r with released := true })
  · rfl
  · intro id h hh
    exact modified_host (fun h => limit_add h _) hh
  · intro region hl
    exact hl
  · intro r' hr'
    cases hr.symm.trans hr'
    have hnot : r.deleter ≠ some other := by
      rw [hdeleter]
      intro h
      exact hne (Option.some.inj h).symm
    exact ⟨rfl, rfl, fun _ => rfl, fun _ _ h => h, fun h => h, fun h => (hnot h).elim,
      fun h => (hnot h).elim⟩
  · intro id h _ _ x
    have hpos := Size.amount_nonneg size x
    rw [hheld]
    split_ifs <;> omega

/-- An edit that leaves the reservation alone, and writes no host but the reserved one. -/
theorem booked_edit {g : Server → Server} (hf : Booked f)
    (hsame : ∀ r, (g r).reserved = r.reserved ∧ (g r).released = r.released ∧ (g r).size = r.size)
    (hdeleter : ∀ r, (g r).deleter = none → r.deleter = none)
    (hwritten : ∀ {r id}, f.servers.find s = some r → (g r).hostId = some id → r.reserved = some id) :
    Booked (f.edit s g) := by
  have hheld : ∀ id x, heldOn (f.edit s g) id x = heldOn f id x := by
    intro id x
    apply heldOn_edit_same
    intro r x
    obtain ⟨hreserved, hreleased, hsize⟩ := hsame r
    rw [Server.takes, Server.takes, hreserved, hreleased, hsize]
  refine ⟨?_, ?_, ?_, ?_⟩
  · intro id h hh x
    rw [hheld]
    exact hf.counted hh x
  · intro id h hh x
    rw [hheld]
    exact hf.within hh x
  · intro t r' id hr' hid
    rw [find_edit] at hr'
    split_ifs at hr' with ht
    · obtain ⟨r, hr, rfl⟩ := Option.map_eq_some_iff.mp hr'
      rw [(hsame r).1]
      exact hwritten (by rw [← ht]; exact hr) hid
    · exact hf.written hr' hid
  · intro t r' hr' hnone
    rw [find_edit] at hr'
    split_ifs at hr' with ht
    · obtain ⟨r, hr, rfl⟩ := Option.map_eq_some_iff.mp hr'
      rw [(hsame r).2.1]
      exact hf.undeleted hr (hdeleter r hnone)
    · exact hf.undeleted hr' hnone

theorem heldOn_create (f : Fleet) {r : Server} (hr : r.reserved = none) (id : ℕ) (x : Resource) :
    heldOn { f with servers := f.servers.put f.servers.fresh r } id x = heldOn f id x := by
  simp only [heldOn]
  rw [Table.sum_put, Table.find_fresh]
  simp [hr]

theorem booked_create (hf : Booked f) {r : Server} (hreserved : r.reserved = none)
    (hhost : r.hostId = none) (hreleased : r.released = false) :
    Booked { f with servers := f.servers.put f.servers.fresh r } := by
  refine ⟨?_, ?_, ?_, ?_⟩
  · intro id h hh x
    rw [heldOn_create f hreserved]
    exact hf.counted hh x
  · intro id h hh x
    rw [heldOn_create f hreserved]
    exact hf.within hh x
  · intro t r' id hr' hid
    by_cases ht : t = f.servers.fresh
    · subst ht
      cases (Table.find_put_self _ _ _).symm.trans hr'
      cases hhost.symm.trans hid
    · exact hf.written ((Table.find_put_of_ne _ ht _).symm.trans hr') hid
  · intro t r' hr' hnone
    by_cases ht : t = f.servers.fresh
    · subst ht
      cases (Table.find_put_self _ _ _).symm.trans hr'
      exact hreleased
    · exact hf.undeleted ((Table.find_put_of_ne _ ht _).symm.trans hr') hnone

theorem keeps_create {r : Server} (hr : r.reserved = none) :
    Keeps q f { f with servers := f.servers.put f.servers.fresh r } := by
  refine ⟨?_, same_host, fun h => h, ?_⟩
  · intro t r' hr'
    have ht : t ≠ f.servers.fresh := by
      rintro rfl
      cases (Table.find_fresh _).symm.trans hr'
    exact ⟨r', (Table.find_put_of_ne _ ht _).trans hr', .refl q r'⟩
  · intro id h _ _ x
    rw [heldOn_create f hr]

theorem booked_heartbeat (hf : Booked f) {hb : Heartbeat}
    (hcovers : ∀ x, heldOn f hb.hostId x ≤ hb.used x) :
    Booked { f with hosts := f.hosts.modify hb.hostId (receive hb) } := by
  refine ⟨?_, ?_, hf.written, hf.undeleted⟩
  · intro id h' hh' x
    simp only [Table.find_modify] at hh'
    split_ifs at hh' with hid
    · obtain ⟨h, hh, rfl⟩ := Option.map_eq_some_iff.mp hh'
      subst hid
      exact hcovers x
    · exact hf.counted hh' x
  · intro id h' hh' x
    simp only [Table.find_modify] at hh'
    split_ifs at hh' with hid
    · obtain ⟨h, hh, rfl⟩ := Option.map_eq_some_iff.mp hh'
      rw [(limit_receive hb h).2]
      exact hf.within hh x
    · exact hf.within hh' x

/-- The chosen host is live and has room by its counters. -/
theorem mem_fits {req : PlacementRequest} {list : Hosts} {e : ℕ × Host} (h : e ∈ fits req list) :
    e ∈ list ∧ ∀ x, (e.2.used x + req.size.amount x : ℚ) ≤ e.2.limit x := by
  unfold fits at h
  have hmem := (List.perm_insertionSort _ _).mem_iff.mp h
  simp only [List.mem_filter, decide_eq_true_eq] at hmem
  obtain ⟨⟨⟨⟨hlist, hmemory⟩, hvcpu⟩, hdisk⟩, -⟩ := hmem
  refine ⟨hlist, ?_⟩
  intro x
  cases x with
  | vcpu => exact_mod_cast hvcpu
  | memoryMb => exact_mod_cast hmemory
  | diskGb => exact_mod_cast hdisk

theorem mem_choose {req : PlacementRequest} {live : Hosts} {ids : List ℕ} {e : ℕ × Host}
    (h : choose req live ids = some e) :
    e ∈ live ∧ ∀ x, (e.2.used x + req.size.amount x : ℚ) ≤ e.2.limit x := by
  unfold choose at h
  simp only at h
  split at h
  · next host hhead =>
    cases h
    obtain ⟨hmem, hfits⟩ := mem_fits (List.mem_of_mem_head? hhead)
    exact ⟨(List.mem_filter.mp hmem).1, hfits⟩
  · split_ifs at h
    exact mem_fits (List.mem_of_mem_head? h)

theorem mem_liveHosts {req : PlacementRequest} {now : ℕ} {e : ℕ × Host}
    (h : e ∈ liveHosts f.hosts req now) :
    f.hosts.find e.1 = some e.2 ∧ e.2.regionId = req.regionId := by
  unfold liveHosts at h
  have hmem := (List.mem_filter.mp (List.mem_filter.mp h).1)
  have hregion : e.2.regionId = req.regionId := (of_decide_eq_true hmem.2).1
  exact ⟨Table.find_of_mem hmem.1, hregion⟩

theorem room_of_choose (hf : Booked f) {req : PlacementRequest} {now : ℕ} {ids : List ℕ}
    {e : ℕ × Host} (h : choose req (liveHosts f.hosts req now) ids = some e) :
    Room f req.regionId e.1 req.size := by
  obtain ⟨hlive, hfits⟩ := mem_choose h
  obtain ⟨hfind, hregion⟩ := mem_liveHosts hlive
  refine ⟨e.2, hfind, hregion, ?_⟩
  intro x
  have hcounted : (heldOn f e.1 x : ℚ) ≤ e.2.used x := by exact_mod_cast hf.counted hfind x
  have := hfits x
  linarith

/-- What a step establishes: the books, what holds of the caller, and that no other caller is
disturbed. -/
def Fine (f : Fleet) (q : ℕ) (f' : Fleet) (pc' : Pc) : Prop :=
  Booked f' ∧ Local f' q pc' ∧ ∀ other, other ≠ q → Keeps other f f'

theorem fine_same {pc : Pc} (hf : Booked f) (hl : Local f q pc) : Fine f q f pc :=
  ⟨hf, hl, fun _ _ => .servers rfl same_host fun h => h⟩

theorem fine_setLock {region : ℕ} {holder : Option ℕ} {pc : Pc} (hf : Booked f)
    (hfree : ∀ other, f.locks region = some other → other = q)
    (hl : Local (setLock f region holder) q pc) : Fine f q (setLock f region holder) pc := by
  refine ⟨⟨hf.counted, hf.within, hf.written, hf.undeleted⟩, hl, ?_⟩
  intro other hne
  have hservers : (setLock f region holder).servers = f.servers := rfl
  refine Keeps.servers hservers same_host ?_
  intro region' hlock
  by_cases hr : region' = region
  · subst hr
    exact (hne (hfree other hlock)).elim
  · exact (Function.update_of_ne hr _ _).trans hlock

/-- Writing the host on which the server is reserved. -/
theorem fine_host {g : Server → Server} {pc : Pc} (hf : Booked f) (hres : Reserved f q s host)
    (hg : ∀ r, (g r).hostId = some host ∧ (g r).size = r.size ∧ (g r).owner = r.owner ∧
      (g r).reserved = r.reserved ∧ (g r).deleter = r.deleter ∧ (g r).released = r.released)
    (hl : Local (f.edit s g) q pc) : Fine f q (f.edit s g) pc := by
  obtain ⟨r, hr, howner, hreserved⟩ := hres
  refine ⟨?_, hl, ?_⟩
  · apply booked_edit hf
    · intro r'
      exact ⟨(hg r').2.2.2.1, (hg r').2.2.2.2.2, (hg r').2.1⟩
    · intro r' hnone
      rw [← (hg r').2.2.2.2.1]
      exact hnone
    · intro r' id hr' hid
      cases hr.symm.trans hr'
      cases (hg r).1.symm.trans hid
      exact hreserved
  · intro other hne
    apply Keeps.edit (f := f) (s := s) (g := g)
    · rfl
    · exact same_host
    · exact fun h => h
    · intro r' hr'
      cases hr.symm.trans hr'
      obtain ⟨hhost, hsize, hown, hres, hdel, hrel⟩ := hg r
      refine ⟨hsize, hown, fun _ => hres, ?_, fun h => hdel.trans h, fun _ => hrel, ?_⟩
      · intro hother
        exact (hne (hother.symm.trans howner)).elim
      · intro _ id hid _
        rw [hhost, ← hid, hreserved]
    · intro id h _ _ x
      apply le_of_eq
      apply heldOn_edit_same
      intro r' x
      rw [Server.takes, Server.takes, (hg r').2.2.2.1, (hg r').2.2.2.2.2, (hg r').2.1]

theorem fine_clear (hf : Booked f) (hl : Local f q (.clear s)) :
    Fine f q (f.edit s fun r => { r with hostId := none }) (.rest none) := by
  obtain ⟨r, hr, hdeleter, hreserved⟩ := hl
  refine ⟨?_, trivial, ?_⟩
  · apply booked_edit hf
    · exact fun _ => ⟨rfl, rfl, rfl⟩
    · exact fun _ h => h
    · intro r' id _ hid
      cases hid
  · intro other hne
    apply Keeps.edit (f := f) (s := s) (g := fun r => { r with hostId := none })
    · rfl
    · exact same_host
    · exact fun h => h
    · intro r' hr'
      cases hr.symm.trans hr'
      refine ⟨rfl, rfl, fun _ => rfl, fun _ _ _ => rfl, fun h => h, fun _ => rfl, ?_⟩
      intro hother
      exact (hne (Option.some.inj (hother.symm.trans hdeleter))).elim
    · intro id h _ _ x
      apply le_of_eq
      apply heldOn_edit_same
      exact fun _ _ => rfl

theorem reserved_edit {g : Server → Server} {r : Server} (hr : f.servers.find s = some r)
    (howner : (g r).owner = q) (hreserved : (g r).reserved = some host) :
    Reserved (f.edit s g) q s host :=
  ⟨g r, by rw [find_edit, if_pos rfl, hr]; rfl, howner, hreserved⟩

theorem fine_next {now : ℕ} {pc pc' : Pc} (hf : Booked f) (hl : Local f q pc)
    (h : next q f now pc = some (f', pc')) : Fine f q f' pc' := by
  cases pc with
  | rest error => cases h
  | load s =>
    obtain ⟨size, r, hr, howner, hreserved, hhost, hsize⟩ := hl
    simp only [next, hr, hhost, Option.isSome_none, Bool.false_eq_true, if_false] at h
    cases h
    exact fine_same hf ⟨r, hr, howner, hreserved, hhost, rfl⟩
  | source s r =>
    simp only [next] at h
    split at h
    · cases h
      exact fine_same hf hl
    · split at h
      · cases h
        exact fine_same hf trivial
      · cases h
        exact fine_same hf hl
  | siblings s r onlyHostId =>
    cases h
    exact fine_same hf hl
  | lock req =>
    simp only [next] at h
    split_ifs at h with hfree
    cases h
    apply fine_setLock hf
    · intro other hother
      cases hfree.symm.trans hother
    · exact ⟨Function.update_self _ _ _, hl⟩
  | avoid req =>
    cases h
    exact fine_same hf hl
  | hosts req ids =>
    simp only [next] at h
    split at h
    · cases h
      exact fine_same hf ⟨hl.1, fun host hhost => by cases hhost⟩
    · next host hchosen =>
      cases h
      exact fine_same hf ⟨hl.1, hl.2, room_of_choose hf hchosen⟩
  | reserve req live host =>
    cases h
    obtain ⟨hlock, hp, hroom⟩ := hl
    refine ⟨booked_reserve hf hp hroom, ⟨hlock, ?_⟩, fun other hne => keeps_reserve hne hlock hp hroom⟩
    obtain ⟨r, hr, howner, -⟩ := hp
    exact reserved_edit (g := fun r => { r with reserved := some host }) hr howner rfl
  | write req live host =>
    cases h
    obtain ⟨hlock, r, hr, howner, hreserved⟩ := hl
    have hfine : Fine f q _ (.unlock req (.ok host)) := fine_host
      (g := fun r => { r with
        hostId := some host, placement := some (observe f req.serverId r live host) })
      hf ⟨r, hr, howner, hreserved⟩ (fun _ => ⟨rfl, rfl, rfl, rfl, rfl, rfl⟩)
      ⟨hlock, fun id hid => by cases hid; exact reserved_edit hr howner hreserved⟩
    obtain ⟨hb, hlocal, hkeeps⟩ := hfine
    refine ⟨⟨hb.counted, hb.within, hb.written, hb.undeleted⟩, hlocal, fun other hne => ?_⟩
    have hk := hkeeps other hne
    exact ⟨hk.rows, hk.hosts, hk.locks, hk.held⟩
  | unlock req placed =>
    have hfree : ∀ other, f.locks req.regionId = some other → other = q := by
      intro other hother
      exact (Option.some.inj (hl.1.symm.trans hother)).symm
    cases placed with
    | error e =>
      cases h
      exact fine_setLock hf hfree trivial
    | ok host =>
      cases h
      exact fine_setLock hf hfree (hl.2 host rfl)
  | record s host =>
    cases h
    exact fine_host hf hl (fun _ => ⟨rfl, rfl, rfl, rfl, rfl, rfl⟩) trivial
  | deleteVm s =>
    cases h
    exact ⟨⟨hf.counted, hf.within, hf.written, hf.undeleted⟩, hl, fun _ _ => .servers rfl same_host fun h => h⟩
  | finalize s =>
    obtain ⟨host, size, r, hr, hdeleter, hreleased, hreserved, hhost, hsize⟩ := hl
    simp only [next, hr] at h
    cases h
    exact fine_same hf ⟨host, hhost, r, hr, hdeleter, hreleased, hreserved, hhost, rfl⟩
  | release s r =>
    obtain ⟨host, hhost, hd⟩ := hl
    simp only [next, hhost] at h
    cases h
    refine ⟨booked_release hf hd, ?_, fun other hne => keeps_release hne hd⟩
    obtain ⟨r', hr', hdeleter, -, hreserved, -⟩ := hd
    refine ⟨{ r' with released := true }, ?_, hdeleter, by simp [hreserved]⟩
    have hfind := find_edit f s s fun r => { r with released := true }
    rw [if_pos rfl, hr'] at hfind
    exact hfind
  | clear s =>
    cases h
    exact fine_clear hf hl

theorem fine_delete (hf : Booked f) {r : Server} (hr : f.servers.find s = some r)
    (hhost : r.hostId = some host) (hnone : r.deleter = none) :
    Fine f q (f.edit s fun r => { r with deleter := some q }) (.deleteVm s) := by
  have hreserved := hf.written hr hhost
  have hreleased := hf.undeleted hr hnone
  refine ⟨?_, ?_, ?_⟩
  · apply booked_edit hf
    · exact fun _ => ⟨rfl, rfl, rfl⟩
    · exact fun _ h => by cases h
    · intro r' id hr' hid
      exact hf.written hr' hid
  · refine ⟨host, r.size, { r with deleter := some q }, ?_, rfl, hreleased, hreserved, hhost, rfl⟩
    rw [find_edit, if_pos rfl, hr]
    rfl
  · intro other hne
    apply Keeps.edit (f := f) (s := s) (g := fun r => { r with deleter := some q })
    · rfl
    · exact same_host
    · exact fun h => h
    · intro r' hr'
      cases hr.symm.trans hr'
      refine ⟨rfl, rfl, fun _ => rfl, fun _ _ h => h, ?_, fun _ => rfl, fun _ _ _ h => h⟩
      intro hother
      cases hnone.symm.trans hother
    · intro id h _ _ x
      apply le_of_eq
      apply heldOn_edit_same
      exact fun _ _ => rfl

end

/-! ## Every interleaving -/

theorem fine_trans {f f' : Fleet} {q : ℕ} {act : Act} {pc pc' : Pc} (hf : Booked f)
    (hl : Local f q pc) (h : trans q f act pc = some (f', pc'))
    (hcovers : ∀ i hb, act = .heartbeat i → f.heartbeats[i]? = some hb →
      ∀ x, heldOn f hb.hostId x ≤ hb.used x) : Fine f q f' pc' := by
  unfold trans at h
  split at h
  · cases h
    refine ⟨booked_create hf rfl rfl rfl, ?_, fun _ _ => keeps_create rfl⟩
    exact ⟨_, _, Table.find_put_self _ _ _, rfl, rfl, rfl, rfl⟩
  · next s _ =>
    split_ifs at h with hallowed
    cases h
    obtain ⟨r, hr, hrow⟩ := (Option.any_eq_true _ _).mp hallowed
    have hrow' : r.hostId.isSome = true ∧ r.deleter = none := by simpa using hrow
    obtain ⟨host, hhost⟩ := Option.isSome_iff_exists.mp hrow'.1
    exact fine_delete hf hr hhost hrow'.2
  · exact fine_next hf hl h
  · split at h
    · cases h
    · split at h
      · cases h
      · cases h
        exact ⟨⟨hf.counted, hf.within, hf.written, hf.undeleted⟩,
          hl.keep (.servers rfl same_host fun h => h), fun _ _ => .servers rfl same_host fun h => h⟩
  · cases h
    exact ⟨⟨hf.counted, hf.within, hf.written, hf.undeleted⟩,
      hl.keep (.servers rfl same_host fun h => h), fun _ _ => .servers rfl same_host fun h => h⟩
  · next i =>
    split at h
    · cases h
    · next hb hhb =>
      cases h
      have hkeeps : ∀ q, Keeps q f { f with hosts := f.hosts.modify hb.hostId (receive hb) } := by
        intro q
        exact .servers rfl (fun hh => modified_host (limit_receive hb) hh) fun h => h
      exact ⟨booked_heartbeat hf (hcovers i hb rfl hhb), hl.keep (hkeeps q), fun q _ => hkeeps q⟩
  · cases h

def Kept (w : World) : Prop := Booked w.shared ∧ ∀ q, Local w.shared q (w.pc q)

theorem kept_step {w : World} {a : ℕ × Act} (hcovers : Covers w a = true) (h : Kept w) :
    Kept (step w a) := by
  have hheartbeat : ∀ i hb, a.2 = .heartbeat i → w.shared.heartbeats[i]? = some hb →
      ∀ x, heldOn w.shared hb.hostId x ≤ hb.used x := by
    intro i hb hact hhb x
    simp only [Covers, hact, hhb, Option.all_some, List.all_cons, List.all_nil, Bool.and_true,
      Bool.and_eq_true, decide_eq_true_eq] at hcovers
    cases x with
    | vcpu => exact hcovers.1
    | memoryMb => exact hcovers.2.1
    | diskGb => exact hcovers.2.2
  exact callerStep_invariant (G := Booked) (L := Local)
    (fun f pc ht => ⟨(fine_trans h.1 (h.2 a.1) ht hheartbeat).1,
      (fine_trans h.1 (h.2 a.1) ht hheartbeat).2.1⟩)
    (fun f pc ht q hq => (h.2 q).keep ((fine_trans h.1 (h.2 a.1) ht hheartbeat).2.2 q hq))
    h.1 h.2

theorem limit_nonneg (h : Host) (x : Resource) : 0 ≤ h.limit x := by
  cases x with
  | vcpu => exact JsNumber.nearest_nonneg (mul_nonneg (Nat.cast_nonneg _) h.overcommit_nonneg)
  | memoryMb | diskGb => exact Nat.cast_nonneg _

theorem kept_start (hosts : Table ℕ Host) : Kept (start hosts) := by
  refine ⟨⟨?_, ?_, ?_, ?_⟩, fun _ => trivial⟩
  · intro id h' hh' x
    rw [start, Table.find_amend] at hh'
    obtain ⟨h, -, rfl⟩ := Option.map_eq_some_iff.mp hh'
    exact Int.le_refl _
  · intro id h' _ x
    have hzero : heldOn (start hosts).shared id x = 0 := rfl
    rw [hzero, Int.cast_zero]
    exact limit_nonneg h' x
  · intro s r id hr
    cases hr
  · intro s r hr
    cases hr

/-- In every interleaving of placements, deletions, VMs that start and heartbeats in which no
heartbeat says less than what is reserved on its host, the servers that were placed on a host
and not released fit on it. -/
theorem hosts_not_overbooked (hosts : Table ℕ Host) (acts : List (ℕ × Act))
    (h : Meets step (fun w a => Covers w a = true) (start hosts) acts) {id : ℕ} {host : Host}
    (hfind : (run step (start hosts) acts).shared.hosts.find id = some host) (x : Resource) :
    (heldOn (run step (start hosts) acts).shared id x : ℚ) ≤ host.limit x := by
  have hkept := h.invariant (fun w a hc hw => kept_step hc hw) (kept_start hosts)
  exact hkept.1.within hfind x

/-! ## One host with room for one of two servers -/

def oneHost : Table ℕ Host :=
  Table.empty.put 0 { regionId := 0, total := ⟨4, 8192, 100⟩, overcommitCpu := 2 }

/-- A server that takes more than half of the memory. -/
def large : Server := { regionId := 0, size := ⟨2, 6144, 40⟩ }

/-- The placement of a new server, up to the record of its host. -/
def placed (caller : ℕ) : List (ℕ × Act) :=
  (caller, .create large) :: List.replicate 10 (caller, .next 0)

/-- The VM of the first server starts, and a heartbeat that was composed after it arrives. -/
def reported : List (ℕ × Act) := [(9, .createVm 1), (9, .compose 0 0), (9, .heartbeat 0)]

/-- The heartbeat was composed before the first server was placed. -/
def outdated : List (ℕ × Act) :=
  [(9, .compose 0 0)] ++ placed 0 ++ [(9, .heartbeat 0)] ++ placed 1

def memoryHeld (acts : List (ℕ × Act)) : ℤ :=
  heldOn (run step (start oneHost) acts).shared 0 .memoryMb

theorem oneHost_runs :
    (Meets step (fun w a => Covers w a = true) (start oneHost) (placed 0 ++ reported ++ placed 1) ∧
      ((run step (start oneHost) (placed 0 ++ reported ++ placed 1)).shared.hosts.find 0).map
        (fun h => h.total) = some ⟨4, 8192, 100⟩ ∧
      memoryHeld (placed 0 ++ reported ++ placed 1) = 6144) ∧
    ((run step (start oneHost) outdated).shared.hosts.find 0).map (fun h => h.total.memoryMb) =
        some 8192 ∧
      memoryHeld outdated = 12288 := by
  decide +kernel

theorem hosts_not_overbooked_one_host :
    (memoryHeld (placed 0 ++ reported ++ placed 1) : ℚ) ≤ 8192 ∧
      memoryHeld (placed 0 ++ reported ++ placed 1) = 6144 := by
  obtain ⟨⟨hmeets, hhost, hheld⟩, -⟩ := oneHost_runs
  obtain ⟨h, hfind, htotal⟩ := Option.map_eq_some_iff.mp hhost
  have hfits := hosts_not_overbooked oneHost (placed 0 ++ reported ++ placed 1) hmeets hfind
    .memoryMb
  rw [Host.limit, htotal] at hfits
  exact ⟨by exact_mod_cast hfits, hheld⟩

/-- The counters are set back to what the host ran before the first server was placed, and the
second one is placed beside it. -/
theorem host_overbooked :
    ((run step (start oneHost) outdated).shared.hosts.find 0).map (fun h => h.total.memoryMb) =
        some 8192 ∧
      memoryHeld outdated = 12288 :=
  oneHost_runs.2

end Prgd.Scheduler
