import Prgd.HostCapacity

/-!
# Cluster nodes are kept apart

`placeServer` reads the servers of the group before it waits for the lock of the region, and
`place` reads their hosts inside of it. So a node sees every host that a listed node has got,
but not a node whose create action came after its list was read. Where every placed node of
the group is on the list, two nodes share a host only if the region had no other one.
-/
namespace Prgd.Scheduler
open Interleaving

/-- The nodes of a server's group that have a host. -/
def placedMembers (f : Fleet) (s : ℕ) : List ℕ :=
  (f.servers.rows.filter fun e => e.1 ≠ s ∧ e.2.hostId.isSome ∧ e.2.spreadGroup.isSome ∧
    (f.servers.find s).any fun r => r.spreadGroup = e.2.spreadGroup).map Prod.fst

/-- Nothing is deleted, a node of a group has neither an avoid list nor a snapshot, and when
the hosts of the others are read, every placed node of the group is on the list. -/
def Listed (w : World) (a : ℕ × Act) : Bool :=
  match a.2 with
  | .delete _ => false
  | .create r => r.spreadGroup = none ∨ r.avoid = [] ∧ r.source = none
  | .next _ =>
      match w.pc a.1 with
      | .avoid req =>
          (placedMembers w.shared req.serverId).all fun id => req.avoidServerIds.contains id
      | _ => true
  | _ => true

/-- A server is on a host. -/
def On (f : Fleet) (s host : ℕ) : Prop := ∃ r, f.servers.find s = some r ∧ r.hostId = some host

/-- What holds of every placed server. -/
structure Apart (f : Fleet) : Prop where
  counted : ∀ {s r host}, f.servers.find s = some r → r.hostId = some host →
    ∃ p, r.placement = some p ∧ p.no < f.placements
  placed : ∀ {s r p}, f.servers.find s = some r → r.placement = some p → r.hostId.isSome
  spread : ∀ {s t r r' host p p'}, f.servers.find s = some r → f.servers.find t = some r' → s ≠ t →
    r.spreadGroup.isSome → r'.spreadGroup = r.spreadGroup → r.hostId = some host →
    r'.hostId = some host → r.placement = some p → r'.placement = some p' → p.no ≤ p'.no →
    p'.crowded = true
  strict : ∀ {s r p}, f.servers.find s = some r → r.spreadGroup = none → r.placement = some p →
    p.withAvoided = false
  plain : ∀ {s r}, f.servers.find s = some r → r.spreadGroup.isSome → r.avoid = [] ∧ r.source = none

/-- The caller places the server, which has no host yet. -/
structure Unplaced (f : Fleet) (q s : ℕ) (r : Server) : Prop where
  find : f.servers.find s = some r
  owner : r.owner = q
  hostId : r.hostId = none
  placement : r.placement = none

/-- The columns of the server that do not change. -/
def SameParams (r r' : Server) : Prop :=
  r.regionId = r'.regionId ∧ r.avoid = r'.avoid ∧ r.spreadGroup = r'.spreadGroup ∧
    r.source = r'.source

/-- The request was made for the server. -/
structure Requests (f : Fleet) (r : Server) (req : PlacementRequest) : Prop where
  softAvoid : req.softAvoid = r.spreadGroup.isSome
  anyHost : r.spreadGroup.isSome → req.onlyHostId = none
  avoided : ∀ id ∈ r.avoid, id ∈ req.avoidServerIds
  listed : ∀ id ∈ req.avoidServerIds, id ∈ r.avoid ∨
    id ≠ req.serverId ∧ ∃ r', f.servers.find id = some r' ∧ r'.spreadGroup = r.spreadGroup

/-- Every node of the group that is on a host of the region is on the list. -/
def Complete (f : Fleet) (r : Server) (req : PlacementRequest) : Prop :=
  ∀ {id r' host h}, f.servers.find id = some r' → id ≠ req.serverId → r.spreadGroup.isSome →
    r'.spreadGroup = r.spreadGroup → r'.hostId = some host → f.hosts.find host = some h →
    h.regionId = req.regionId → id ∈ req.avoidServerIds

/-- The hosts of the avoided servers, as far as they are in the region. -/
def Hosting (f : Fleet) (req : PlacementRequest) (ids : List ℕ) : Prop :=
  (∀ id ∈ req.avoidServerIds, ∀ {host h}, On f id host → f.hosts.find host = some h →
    h.regionId = req.regionId → host ∈ ids) ∧
  ∀ host ∈ ids, ∃ id ∈ req.avoidServerIds, On f id host

/-- The chosen host is in the region and has no avoided server, or all live hosts have one. -/
def Chosen (f : Fleet) (req : PlacementRequest) (live : Hosts) (host : ℕ) : Prop :=
  (∃ h, f.hosts.find host = some h ∧ h.regionId = req.regionId) ∧
  ((∀ id ∈ req.avoidServerIds, ¬ On f id host) ∨
    req.softAvoid = true ∧ ∀ e ∈ live, ∃ id ∈ req.avoidServerIds, On f id e.1)

def LocalApart (f : Fleet) (q : ℕ) : Pc → Prop
  | .rest _ => True
  | .load s => ∃ r, Unplaced f q s r
  | .source s r => ∃ r', Unplaced f q s r' ∧ SameParams r r'
  | .siblings s r only => ∃ r', Unplaced f q s r' ∧ SameParams r r' ∧ (r.source = none → only = none)
  | .lock req => ∃ r, Unplaced f q req.serverId r ∧ Requests f r req
  | .avoid req =>
      f.locks req.regionId = some q ∧ ∃ r, Unplaced f q req.serverId r ∧ Requests f r req
  | .hosts req ids =>
      f.locks req.regionId = some q ∧ Hosting f req ids ∧
        ∃ r, Unplaced f q req.serverId r ∧ Requests f r req ∧ Complete f r req
  | .reserve req live host | .write req live host =>
      f.locks req.regionId = some q ∧ Chosen f req live host ∧
        ∃ r, Unplaced f q req.serverId r ∧ Requests f r req ∧ Complete f r req
  | .unlock req placed =>
      f.locks req.regionId = some q ∧ ∀ host, placed = .ok host → On f req.serverId host
  | .record s host => On f s host
  | .deleteVm _ | .finalize _ | .release _ _ | .clear _ => False

/-! ## What other callers may do -/

/-- A step that does not disturb the caller `q`: rows keep their parameters and a host that
they have, the caller's own row gets none, and nothing is placed in a region that the caller
has locked. -/
structure Spares (q : ℕ) (f f' : Fleet) : Prop where
  rows : ∀ {s r}, f.servers.find s = some r → ∃ r', f'.servers.find s = some r' ∧
    r'.owner = r.owner ∧ SameParams r r' ∧ (∀ host, r.hostId = some host → r'.hostId = some host) ∧
    (r.owner = q → r'.hostId = r.hostId ∧ r'.placement = r.placement)
  hosts : ∀ {id h}, f'.hosts.find id = some h →
    ∃ h', f.hosts.find id = some h' ∧ h'.regionId = h.regionId
  hosts' : ∀ {id h}, f.hosts.find id = some h →
    ∃ h', f'.hosts.find id = some h' ∧ h'.regionId = h.regionId
  locks : ∀ {region}, f.locks region = some q → f'.locks region = some q
  back : ∀ {s r' host h}, f'.servers.find s = some r' → r'.hostId = some host →
    f.hosts.find host = some h → f.locks h.regionId = some q →
    ∃ r, f.servers.find s = some r ∧ r.hostId = some host ∧ r.spreadGroup = r'.spreadGroup

section
variable {f f' : Fleet} {q s : ℕ} {r : Server} {req : PlacementRequest} {live : Hosts} {host : ℕ}

theorem On.spare (h : On f s host) (hk : Spares q f f') : On f' s host := by
  obtain ⟨r, hr, hhost⟩ := h
  obtain ⟨r', hr', -, -, hkept, -⟩ := hk.rows hr
  exact ⟨r', hr', hkept host hhost⟩

/-- In a region that the caller has locked no server is placed meanwhile. -/
theorem On.before (h : On f' s host) (hk : Spares q f f') {h' : Host}
    (hh : f.hosts.find host = some h') (hlock : f.locks h'.regionId = some q) : On f s host := by
  obtain ⟨r', hr', hhost⟩ := h
  obtain ⟨r, hr, hhost', -⟩ := hk.back hr' hhost hh hlock
  exact ⟨r, hr, hhost'⟩

theorem SameParams.trans {r r' r'' : Server} (h : SameParams r r') (h' : SameParams r' r'') :
    SameParams r r'' :=
  ⟨h.1.trans h'.1, h.2.1.trans h'.2.1, h.2.2.1.trans h'.2.2.1, h.2.2.2.trans h'.2.2.2⟩

theorem Unplaced.spare (h : Unplaced f q s r) (hk : Spares q f f') :
    ∃ r', Unplaced f' q s r' ∧ SameParams r r' := by
  obtain ⟨r', hr', howner, hparams, -, hown⟩ := hk.rows h.find
  obtain ⟨hhost, hplacement⟩ := hown h.owner
  exact ⟨r', ⟨hr', howner.trans h.owner, hhost.trans h.hostId, hplacement.trans h.placement⟩,
    hparams⟩

theorem Requests.spare (h : Requests f r req) {r' : Server} (hparams : SameParams r r')
    (hk : Spares q f f') : Requests f' r' req := by
  obtain ⟨-, havoid, hgroup, -⟩ := hparams
  refine ⟨?_, ?_, ?_, ?_⟩
  · rw [h.softAvoid, hgroup]
  · rw [← hgroup]
    exact h.anyHost
  · rw [← havoid]
    exact h.avoided
  · intro id hid
    rcases h.listed id hid with hmem | ⟨hne, r₂, hr₂, hsame⟩
    · exact .inl (by rwa [← havoid])
    · obtain ⟨r₃, hr₃, -, hparams₃, -⟩ := hk.rows hr₂
      exact .inr ⟨hne, r₃, hr₃, by rw [← hparams₃.2.2.1, hsame, hgroup]⟩

theorem Complete.spare (h : Complete f r req) {r' : Server} (hparams : SameParams r r')
    (hlock : f.locks req.regionId = some q) (hk : Spares q f f') : Complete f' r' req := by
  obtain ⟨-, -, hgroup, -⟩ := hparams
  intro id r₂ host h' hr₂ hne hsome hsame hhost hh hregion
  obtain ⟨h₀, hh₀, hregion₀⟩ := hk.hosts hh
  rw [hregion] at hregion₀
  obtain ⟨r₁, hr₁, hhost₁, hgroup₁⟩ := hk.back hr₂ hhost hh₀ (by rw [hregion₀]; exact hlock)
  exact h hr₁ hne (by rw [hgroup]; exact hsome) (by rw [hgroup₁, hsame, hgroup]) hhost₁ hh₀ hregion₀

theorem Hosting.spare {ids : List ℕ} (h : Hosting f req ids) (hlock : f.locks req.regionId = some q)
    (hk : Spares q f f') : Hosting f' req ids := by
  refine ⟨?_, ?_⟩
  · intro id hid host h' hon hh hregion
    obtain ⟨h₀, hh₀, hregion₀⟩ := hk.hosts hh
    rw [hregion] at hregion₀
    exact h.1 id hid (hon.before hk hh₀ (by rw [hregion₀]; exact hlock)) hh₀ hregion₀
  · intro host hhost
    obtain ⟨id, hid, hon⟩ := h.2 host hhost
    exact ⟨id, hid, hon.spare hk⟩

theorem Chosen.spare (h : Chosen f req live host) (hlock : f.locks req.regionId = some q)
    (hk : Spares q f f') : Chosen f' req live host := by
  obtain ⟨⟨h₀, hh₀, hregion₀⟩, hchoice⟩ := h
  obtain ⟨h₁, hh₁, hregion₁⟩ := hk.hosts' hh₀
  refine ⟨⟨h₁, hh₁, hregion₁.trans hregion₀⟩, ?_⟩
  rcases hchoice with hapart | ⟨hsoft, hall⟩
  · left
    intro id hid hon
    exact hapart id hid (hon.before hk hh₀ (by rw [hregion₀]; exact hlock))
  · right
    refine ⟨hsoft, ?_⟩
    intro e he
    obtain ⟨id, hid, hon⟩ := hall e he
    exact ⟨id, hid, hon.spare hk⟩

theorem LocalApart.spare {pc : Pc} (h : LocalApart f q pc) (hk : Spares q f f') :
    LocalApart f' q pc := by
  cases pc with
  | rest error => trivial
  | load s =>
    obtain ⟨r, hr⟩ := h
    obtain ⟨r', hr', -⟩ := hr.spare hk
    exact ⟨r', hr'⟩
  | source s r =>
    obtain ⟨r₁, hr₁, hparams⟩ := h
    obtain ⟨r₂, hr₂, hparams₂⟩ := hr₁.spare hk
    exact ⟨r₂, hr₂, hparams.trans hparams₂⟩
  | siblings s r only =>
    obtain ⟨r₁, hr₁, hparams, honly⟩ := h
    obtain ⟨r₂, hr₂, hparams₂⟩ := hr₁.spare hk
    exact ⟨r₂, hr₂, hparams.trans hparams₂, honly⟩
  | lock req =>
    obtain ⟨r, hr, hreq⟩ := h
    obtain ⟨r', hr', hparams⟩ := hr.spare hk
    exact ⟨r', hr', hreq.spare hparams hk⟩
  | avoid req =>
    obtain ⟨hlock, r, hr, hreq⟩ := h
    obtain ⟨r', hr', hparams⟩ := hr.spare hk
    exact ⟨hk.locks hlock, r', hr', hreq.spare hparams hk⟩
  | hosts req ids =>
    obtain ⟨hlock, hhosting, r, hr, hreq, hcomplete⟩ := h
    obtain ⟨r', hr', hparams⟩ := hr.spare hk
    exact ⟨hk.locks hlock, hhosting.spare hlock hk, r', hr', hreq.spare hparams hk,
      hcomplete.spare hparams hlock hk⟩
  | reserve req live host | write req live host =>
    obtain ⟨hlock, hchosen, r, hr, hreq, hcomplete⟩ := h
    obtain ⟨r', hr', hparams⟩ := hr.spare hk
    exact ⟨hk.locks hlock, hchosen.spare hlock hk, r', hr', hreq.spare hparams hk,
      hcomplete.spare hparams hlock hk⟩
  | unlock req placed =>
    exact ⟨hk.locks h.1, fun host hplaced => (h.2 host hplaced).spare hk⟩
  | record s host => exact On.spare h hk
  | deleteVm s | finalize s | release s r | clear s => exact h.elim

/-! ## Steps -/

/-- Two tables of hosts with the same regions. -/
def SameRegions (hosts hosts' : Table ℕ Host) : Prop :=
  (∀ {id h}, hosts'.find id = some h → ∃ h', hosts.find id = some h' ∧ h'.regionId = h.regionId) ∧
  ∀ {id h}, hosts.find id = some h → ∃ h', hosts'.find id = some h' ∧ h'.regionId = h.regionId

theorem SameRegions.refl (hosts : Table ℕ Host) : SameRegions hosts hosts :=
  ⟨fun {_ h} hh => ⟨h, hh, rfl⟩, fun {_ h} hh => ⟨h, hh, rfl⟩⟩

theorem SameRegions.modify (hosts : Table ℕ Host) (id : ℕ) {k : Host → Host}
    (hk : ∀ h, (k h).regionId = h.regionId) : SameRegions hosts (hosts.modify id k) := by
  constructor
  · intro i h hh
    rw [Table.find_modify] at hh
    split_ifs at hh
    · obtain ⟨h', hh', rfl⟩ := Option.map_eq_some_iff.mp hh
      exact ⟨h', hh', (hk h').symm⟩
    · exact ⟨h, hh, rfl⟩
  · intro i h hh
    rw [Table.find_modify, hh]
    split_ifs
    · exact ⟨k h, rfl, hk h⟩
    · exact ⟨h, rfl, rfl⟩

theorem SameParams.refl (r : Server) : SameParams r r := ⟨rfl, rfl, rfl, rfl⟩

theorem Spares.servers (hservers : f'.servers = f.servers) (hhosts : SameRegions f.hosts f'.hosts)
    (hlocks : ∀ {region}, f.locks region = some q → f'.locks region = some q) :
    Spares q f f' := by
  refine ⟨?_, hhosts.1, hhosts.2, hlocks, ?_⟩
  · intro s r hr
    exact ⟨r, by rw [hservers]; exact hr, rfl, .refl r, fun _ h => h, fun _ => ⟨rfl, rfl⟩⟩
  · intro s r host h hr hhost _ _
    exact ⟨r, by rw [← hservers]; exact hr, hhost, rfl⟩

/-- An edit of a row that keeps what is seen of it. -/
def Unseen (r r' : Server) : Prop :=
  r'.owner = r.owner ∧ SameParams r r' ∧ r'.hostId = r.hostId ∧ r'.placement = r.placement

theorem find_unseen {g : Server → Server} (hservers : f'.servers = (f.edit s g).servers)
    (hg : ∀ {r}, f.servers.find s = some r → Unseen r (g r)) {t : ℕ} {r' : Server}
    (hr' : f'.servers.find t = some r') : ∃ r, f.servers.find t = some r ∧ Unseen r r' := by
  rw [hservers, find_edit] at hr'
  split_ifs at hr' with ht
  · obtain ⟨r, hr, rfl⟩ := Option.map_eq_some_iff.mp hr'
    exact ⟨r, hr, hg (by rw [← ht]; exact hr)⟩
  · exact ⟨r', hr', rfl, .refl r', rfl, rfl⟩

theorem Spares.unseen {g : Server → Server} (hservers : f'.servers = (f.edit s g).servers)
    (hg : ∀ {r}, f.servers.find s = some r → Unseen r (g r)) (hhosts : SameRegions f.hosts f'.hosts)
    (hlocks : ∀ {region}, f.locks region = some q → f'.locks region = some q) :
    Spares q f f' := by
  refine ⟨?_, hhosts.1, hhosts.2, hlocks, ?_⟩
  · intro t r hr
    rw [hservers, find_edit]
    by_cases ht : t = s
    · obtain ⟨howner, hparams, hhost, hplacement⟩ := hg (by rw [← ht]; exact hr)
      refine ⟨g r, by rw [if_pos ht, hr]; rfl, howner, hparams, ?_, fun _ => ⟨hhost, hplacement⟩⟩
      intro host h
      exact hhost.trans h
    · exact ⟨r, by rw [if_neg ht]; exact hr, rfl, .refl r, fun _ h => h, fun _ => ⟨rfl, rfl⟩⟩
  · intro t r' host h hr' hhost _ _
    obtain ⟨r, hr, -, hparams, hsame, -⟩ := find_unseen hservers hg hr'
    exact ⟨r, hr, hsame.symm.trans hhost, hparams.2.2.1⟩

/-- The facts about the placed servers depend on what is seen of them. -/
theorem Apart.of_unseen (hf : Apart f) (hplacements : f'.placements = f.placements)
    (hrows : ∀ {t r'}, f'.servers.find t = some r' → ∃ r, f.servers.find t = some r ∧ Unseen r r') :
    Apart f' := by
  refine ⟨?_, ?_, ?_, ?_, ?_⟩
  · intro t r' host hr' hhost
    obtain ⟨r, hr, -, -, hsame, hplacement⟩ := hrows hr'
    rw [hplacement, hplacements]
    exact hf.counted hr (hsame.symm.trans hhost)
  · intro t r' p hr' hp
    obtain ⟨r, hr, -, -, hsame, hplacement⟩ := hrows hr'
    rw [hsame]
    exact hf.placed hr (hplacement.symm.trans hp)
  · intro s t r r' host p p' hr hr' hne hsome hgroup hhost hhost' hp hp' hlt
    obtain ⟨r₁, hr₁, -, hparams₁, hsame₁, hplacement₁⟩ := hrows hr
    obtain ⟨r₂, hr₂, -, hparams₂, hsame₂, hplacement₂⟩ := hrows hr'
    rw [← hparams₁.2.2.1] at hsome hgroup
    rw [← hparams₂.2.2.1] at hgroup
    exact hf.spread hr₁ hr₂ hne hsome hgroup (hsame₁.symm.trans hhost) (hsame₂.symm.trans hhost')
      (hplacement₁.symm.trans hp) (hplacement₂.symm.trans hp') hlt
  · intro t r' p hr' hnone hp
    obtain ⟨r, hr, -, hparams, -, hplacement⟩ := hrows hr'
    exact hf.strict hr (hparams.2.2.1.trans hnone) (hplacement.symm.trans hp)
  · intro t r' hr' hsome
    obtain ⟨r, hr, -, hparams, -, -⟩ := hrows hr'
    rw [← hparams.2.2.1] at hsome
    rw [← hparams.2.1, ← hparams.2.2.2]
    exact hf.plain hr hsome

theorem Apart.servers (hf : Apart f) (hplacements : f'.placements = f.placements)
    (hservers : f'.servers = f.servers) : Apart f' := by
  apply hf.of_unseen hplacements
  intro t r' hr'
  rw [hservers] at hr'
  exact ⟨r', hr', rfl, .refl r', rfl, rfl⟩

/-- What a step establishes: the facts about the placed servers, what holds of the caller,
and that no other caller is disturbed. -/
def FineApart (f : Fleet) (q : ℕ) (f' : Fleet) (pc' : Pc) : Prop :=
  Apart f' ∧ LocalApart f' q pc' ∧ ∀ other, other ≠ q → Spares other f f'

theorem fineApart_same {pc : Pc} (hf : Apart f) (hl : LocalApart f q pc) : FineApart f q f pc :=
  ⟨hf, hl, fun _ _ => .servers rfl (.refl _) fun h => h⟩

theorem fineApart_setLock {region : ℕ} {holder : Option ℕ} {pc : Pc} (hf : Apart f)
    (hfree : ∀ other, f.locks region = some other → other = q)
    (hl : LocalApart (setLock f region holder) q pc) :
    FineApart f q (setLock f region holder) pc := by
  refine ⟨hf.servers rfl rfl, hl, ?_⟩
  intro other hne
  have hservers : (setLock f region holder).servers = f.servers := rfl
  refine Spares.servers hservers (.refl _) ?_
  intro region' hlock
  by_cases hr : region' = region
  · subst hr
    exact (hne (hfree other hlock)).elim
  · exact (Function.update_of_ne hr _ _).trans hlock

theorem mem_groupMembers {group : Option ℕ} {id : ℕ} (h : id ∈ groupMembers f group) :
    ∃ r, f.servers.find id = some r ∧ r.spreadGroup = group := by
  obtain ⟨e, he, rfl⟩ := List.mem_map.mp h
  obtain ⟨hmem, hgroup⟩ := List.mem_filter.mp he
  have hgroup' : group.isSome = true ∧ e.2.spreadGroup = group := by simpa using hgroup
  exact ⟨e.2, Table.find_of_mem hmem, hgroup'.2⟩

theorem groupMembers_mem {group : Option ℕ} {id : ℕ} (hr : f.servers.find id = some r)
    (hsome : group.isSome) (hgroup : r.spreadGroup = group) : id ∈ groupMembers f group := by
  apply List.mem_map.mpr
  exact ⟨(id, r), List.mem_filter.mpr ⟨Table.find_mem hr, by simp [hsome, hgroup]⟩, rfl⟩

theorem requests_request (hf : Apart f) (hr : Unplaced f q s r) {loaded : Server}
    (hparams : SameParams loaded r) {only : Option ℕ} (honly : loaded.source = none → only = none) :
    Requests f r (request f s loaded only) := by
  obtain ⟨-, havoid, hgroup, hsource⟩ := hparams
  refine ⟨?_, ?_, ?_, ?_⟩
  · rw [request, hgroup]
  · intro hsome
    exact honly (hsource.trans (hf.plain hr.find hsome).2)
  · intro id hid
    rw [request, List.mem_dedup, havoid]
    exact List.mem_append_left _ hid
  · intro id hid
    rw [request, List.mem_dedup, List.mem_append] at hid
    rcases hid with hid | hid
    · exact .inl (by rwa [← havoid])
    · obtain ⟨hmem, hne⟩ := List.mem_filter.mp hid
      obtain ⟨r', hr', hgroup'⟩ := mem_groupMembers hmem
      have hne' : id ≠ s := by simpa using hne
      exact .inr ⟨hne', r', hr', hgroup'.trans hgroup⟩

theorem hosting_avoidHosts (f : Fleet) (req : PlacementRequest) :
    Hosting f req (avoidHosts f req.avoidServerIds) := by
  refine ⟨?_, ?_⟩
  · intro id hid host h hon _ _
    obtain ⟨r, hr, hhost⟩ := hon
    exact List.mem_filterMap.mpr ⟨id, hid, by rw [hr]; exact hhost⟩
  · intro host hhost
    obtain ⟨id, hid, hon⟩ := List.mem_filterMap.mp hhost
    obtain ⟨r, hr, hhost'⟩ := Option.bind_eq_some_iff.mp hon
    exact ⟨id, hid, r, hr, hhost'⟩

/-- The chosen host is apart from the avoided ones, or no live host is. -/
theorem choose_apart {ids : List ℕ} {e : ℕ × Host} (h : choose req live ids = some e) :
    e.1 ∉ ids ∨ req.softAvoid = true ∧ ∀ e' ∈ live, e'.1 ∈ ids := by
  unfold choose at h
  simp only at h
  split at h
  · next host hhead =>
    cases h
    obtain ⟨hmem, -⟩ := mem_fits (List.mem_of_mem_head? hhead)
    left
    simpa using (List.mem_filter.mp hmem).2
  · split_ifs at h with hsoft
    right
    refine ⟨hsoft.1, ?_⟩
    intro e' he'
    by_contra hnot
    have hempty := List.isEmpty_iff.mp hsoft.2
    have hmem : e' ∈ live.filter fun e => ¬ ids.contains e.1 :=
      List.mem_filter.mpr ⟨he', by simpa using hnot⟩
    rw [hempty] at hmem
    cases hmem

theorem chosen_of_choose {ids : List ℕ} {now : ℕ} {e : ℕ × Host} (hhosting : Hosting f req ids)
    (hany : req.softAvoid = true → req.onlyHostId = none)
    (h : choose req (liveHosts f.hosts req now) ids = some e) :
    Chosen f req (liveHosts f.hosts { req with onlyHostId := none } now) e.1 := by
  obtain ⟨hfind, hregion⟩ := mem_liveHosts (mem_choose h).1
  refine ⟨⟨e.2, hfind, hregion⟩, ?_⟩
  rcases choose_apart h with hapart | ⟨hsoft, hall⟩
  · left
    intro id hid hon
    exact hapart (hhosting.1 id hid hon hfind hregion)
  · right
    refine ⟨hsoft, ?_⟩
    intro e' he'
    have hsame : { req with onlyHostId := none } = req := by rw [← hany hsoft]
    rw [hsame] at he'
    exact hhosting.2 e'.1 (hall e' he')

theorem find_writeHost (f : Fleet) (s host : ℕ) (live : Hosts) (t : ℕ) :
    (writeHost f s host live).servers.find t =
      if t = s then (f.servers.find t).map fun r =>
        { r with hostId := some host, placement := some (observe f s r live host) }
      else f.servers.find t :=
  find_edit f s t _

theorem onHost_of_on {ids : List ℕ} {id : ℕ} (hid : id ∈ ids) (hon : On f id host) :
    onHost f ids host = true := by
  obtain ⟨r, hr, hhost⟩ := hon
  exact List.any_eq_true.mpr ⟨id, hid, by simp [hr, hhost]⟩

/-- A node that gets the host of another node of its group found every live host taken. -/
theorem crowded_of_shared (hf : Apart f) (hr : Unplaced f q req.serverId r) (hreq : Requests f r req)
    (hcomplete : Complete f r req) (hchosen : Chosen f req live host) {id : ℕ} {r' : Server}
    (hr' : f.servers.find id = some r') (hne : id ≠ req.serverId) (hsome : r.spreadGroup.isSome)
    (hgroup : r'.spreadGroup = r.spreadGroup) (hhost : r'.hostId = some host) :
    (observe f req.serverId r live host).crowded = true := by
  obtain ⟨⟨h, hh, hregion⟩, hchoice⟩ := hchosen
  rcases hchoice with hapart | ⟨-, hall⟩
  · have hid := hcomplete hr' hne hsome hgroup hhost hh hregion
    exact (hapart id hid ⟨r', hr', hhost⟩).elim
  · simp only [observe, List.all_eq_true]
    intro e he
    obtain ⟨id', hid', hon⟩ := hall e he
    apply onHost_of_on _ hon
    rcases hreq.listed id' hid' with hmem | ⟨hne', r₂, hr₂, hgroup₂⟩
    · rw [(hf.plain hr.find hsome).1] at hmem
      cases hmem
    · exact List.mem_filter.mpr ⟨groupMembers_mem hr₂ hsome hgroup₂, by simpa using hne'⟩

theorem withAvoided_of_plain (hreq : Requests f r req) (hchosen : Chosen f req live host)
    (hnone : r.spreadGroup = none) : (observe f req.serverId r live host).withAvoided = false := by
  rcases hchosen.2 with hapart | ⟨hsoft, -⟩
  · simp only [observe, onHost, List.any_eq_false]
    intro id hid hon
    obtain ⟨r', hr', hhost⟩ := (Option.any_eq_true _ _).mp hon
    exact hapart id (hreq.avoided id hid) ⟨r', hr', by simpa using hhost⟩
  · rw [hreq.softAvoid, hnone] at hsoft
    cases hsoft

theorem apart_writeHost (hf : Apart f) (hr : Unplaced f q req.serverId r) (hreq : Requests f r req)
    (hcomplete : Complete f r req) (hchosen : Chosen f req live host) :
    Apart (writeHost f req.serverId host live) := by
  -- every row is the one that was written or an old one
  have hrows : ∀ {t r'}, (writeHost f req.serverId host live).servers.find t = some r' →
      (t = req.serverId ∧ r' = { r with
        hostId := some host, placement := some (observe f req.serverId r live host) }) ∨
      t ≠ req.serverId ∧ f.servers.find t = some r' := by
    intro t r' hr'
    rw [find_writeHost] at hr'
    split_ifs at hr' with ht
    · rw [ht, hr.find] at hr'
      cases hr'
      exact .inl ⟨ht, rfl⟩
    · exact .inr ⟨ht, hr'⟩
  refine ⟨?_, ?_, ?_, ?_, ?_⟩
  · intro t r' host' hr' hhost'
    rcases hrows hr' with ⟨rfl, rfl⟩ | ⟨-, hold⟩
    · exact ⟨_, rfl, Nat.lt_succ_self _⟩
    · obtain ⟨p, hp, hlt⟩ := hf.counted hold hhost'
      exact ⟨p, hp, Nat.lt_succ_of_lt hlt⟩
  · intro t r' p hr' hp
    rcases hrows hr' with ⟨rfl, rfl⟩ | ⟨-, hold⟩
    · rfl
    · exact hf.placed hold hp
  · intro s t r₁ r₂ host' p p' hr₁ hr₂ hne hsome hgroup hhost₁ hhost₂ hp hp' hlt
    rcases hrows hr₂ with ⟨rfl, rfl⟩ | ⟨ht, hold₂⟩
    · rcases hrows hr₁ with ⟨rfl, -⟩ | ⟨hs, hold₁⟩
      · exact (hne rfl).elim
      · cases hp'
        cases hhost₂
        exact crowded_of_shared hf hr hreq hcomplete hchosen hold₁ hs
          (by rw [show r.spreadGroup = r₁.spreadGroup from hgroup]; exact hsome) hgroup.symm hhost₁
    · rcases hrows hr₁ with ⟨rfl, rfl⟩ | ⟨hs, hold₁⟩
      · obtain ⟨p₂, hp₂, hlt₂⟩ := hf.counted hold₂ hhost₂
        cases hp
        rw [Option.some.inj (hp₂.symm.trans hp')] at hlt₂
        have hno : f.placements ≤ p'.no := hlt
        omega
      · exact hf.spread hold₁ hold₂ hne hsome hgroup hhost₁ hhost₂ hp hp' hlt
  · intro t r' p hr' hnone hp
    rcases hrows hr' with ⟨rfl, rfl⟩ | ⟨-, hold⟩
    · cases hp
      exact withAvoided_of_plain hreq hchosen hnone
    · exact hf.strict hold hnone hp
  · intro t r' hr' hsome
    rcases hrows hr' with ⟨rfl, rfl⟩ | ⟨-, hold⟩
    · exact hf.plain (r := r) hr.find hsome
    · exact hf.plain hold hsome

theorem spares_writeHost {other : ℕ} (hne : other ≠ q) (hr : Unplaced f q req.serverId r)
    (hlock : f.locks req.regionId = some q)
    (hregion : ∃ h, f.hosts.find host = some h ∧ h.regionId = req.regionId) :
    Spares other f (writeHost f req.serverId host live) := by
  refine ⟨?_, fun {_ h} hh => ⟨h, hh, rfl⟩, fun {_ h} hh => ⟨h, hh, rfl⟩, fun h => h, ?_⟩
  · intro t r' hr'
    rw [find_writeHost]
    by_cases ht : t = req.serverId
    · subst ht
      cases hr.find.symm.trans hr'
      rw [if_pos rfl, hr.find]
      refine ⟨_, rfl, rfl, ⟨rfl, rfl, rfl, rfl⟩, ?_, ?_⟩
      · intro host' hhost'
        cases hr.hostId.symm.trans hhost'
      · intro hother
        exact (hne (hother.symm.trans hr.owner)).elim
    · exact ⟨r', by rw [if_neg ht]; exact hr', rfl, .refl r', fun _ h => h, fun _ => ⟨rfl, rfl⟩⟩
  · intro t r' host' h hr' hhost' hh hother
    rw [find_writeHost] at hr'
    split_ifs at hr' with ht
    · rw [ht, hr.find] at hr'
      cases hr'
      cases hhost'
      obtain ⟨h₂, hh₂, hregion₂⟩ := hregion
      cases hh.symm.trans hh₂
      rw [hregion₂, hlock] at hother
      exact (hne (Option.some.inj hother).symm).elim
    · exact ⟨r', hr', hhost', rfl⟩

theorem complete_of_placedMembers (hr : f.servers.find req.serverId = some r)
    (h : ∀ id ∈ placedMembers f req.serverId, id ∈ req.avoidServerIds) : Complete f r req := by
  intro id r' host _ hr' hne hsome hgroup hhost _ _
  apply h
  apply List.mem_map.mpr
  refine ⟨(id, r'), List.mem_filter.mpr ⟨Table.find_mem hr', ?_⟩, rfl⟩
  simp [hne, hhost, hgroup, hsome, hr]

theorem apart_create (hf : Apart f) {r : Server} (hhost : r.hostId = none)
    (hplacement : r.placement = none) (hplain : r.spreadGroup.isSome → r.avoid = [] ∧ r.source = none) :
    Apart { f with servers := f.servers.put f.servers.fresh r } := by
  have hrows : ∀ {t r'}, (f.servers.put f.servers.fresh r).find t = some r' →
      r' = r ∨ f.servers.find t = some r' := by
    intro t r' hr'
    by_cases ht : t = f.servers.fresh
    · subst ht
      exact .inl (Option.some.inj ((Table.find_put_self _ _ _).symm.trans hr')).symm
    · exact .inr ((Table.find_put_of_ne _ ht _).symm.trans hr')
  refine ⟨?_, ?_, ?_, ?_, ?_⟩
  · intro t r' host hr' hhost'
    rcases hrows hr' with rfl | hold
    · cases hhost.symm.trans hhost'
    · exact hf.counted hold hhost'
  · intro t r' p hr' hp
    rcases hrows hr' with rfl | hold
    · cases hplacement.symm.trans hp
    · exact hf.placed hold hp
  · intro s t r₁ r₂ host p p' hr₁ hr₂ hne hsome hgroup hhost₁ hhost₂ hp hp' hlt
    rcases hrows hr₁ with rfl | hold₁
    · cases hhost.symm.trans hhost₁
    · rcases hrows hr₂ with rfl | hold₂
      · cases hhost.symm.trans hhost₂
      · exact hf.spread hold₁ hold₂ hne hsome hgroup hhost₁ hhost₂ hp hp' hlt
  · intro t r' p hr' hnone hp
    rcases hrows hr' with rfl | hold
    · cases hplacement.symm.trans hp
    · exact hf.strict hold hnone hp
  · intro t r' hr' hsome
    rcases hrows hr' with rfl | hold
    · exact hplain hsome
    · exact hf.plain hold hsome

theorem spares_create {r : Server} (hhost : r.hostId = none) :
    Spares q f { f with servers := f.servers.put f.servers.fresh r } := by
  refine ⟨?_, fun {_ h} hh => ⟨h, hh, rfl⟩, fun {_ h} hh => ⟨h, hh, rfl⟩, fun h => h, ?_⟩
  · intro t r' hr'
    have ht : t ≠ f.servers.fresh := by
      rintro rfl
      cases (Table.find_fresh _).symm.trans hr'
    exact ⟨r', (Table.find_put_of_ne _ ht _).trans hr', rfl, .refl r', fun _ h => h,
      fun _ => ⟨rfl, rfl⟩⟩
  · intro t r' host _ hr' hhost' _ _
    by_cases ht : t = f.servers.fresh
    · subst ht
      cases (Table.find_put_self _ _ _).symm.trans hr'
      cases hhost.symm.trans hhost'
    · exact ⟨r', (Table.find_put_of_ne _ ht _).symm.trans hr', hhost', rfl⟩

theorem fineApart_next {now : ℕ} {pc pc' : Pc} (hf : Apart f) (hl : LocalApart f q pc)
    (hlisted : ∀ req, pc = .avoid req →
      ∀ id ∈ placedMembers f req.serverId, id ∈ req.avoidServerIds)
    (h : next q f now pc = some (f', pc')) : FineApart f q f' pc' := by
  cases pc with
  | rest error => cases h
  | load s =>
    obtain ⟨r, hr⟩ := hl
    simp only [next, hr.find, hr.hostId, Option.isSome_none, Bool.false_eq_true, if_false] at h
    cases h
    exact fineApart_same hf ⟨r, hr, .refl r⟩
  | source s r =>
    obtain ⟨r', hr', hparams⟩ := hl
    simp only [next] at h
    split at h
    · cases h
      exact fineApart_same hf ⟨r', hr', hparams, fun _ => rfl⟩
    · next source hsource =>
      split at h
      · cases h
        exact fineApart_same hf trivial
      · cases h
        refine fineApart_same hf ⟨r', hr', hparams, ?_⟩
        intro hnone
        cases hsource.symm.trans hnone
  | siblings s r only =>
    cases h
    obtain ⟨r', hr', hparams, honly⟩ := hl
    exact fineApart_same hf ⟨r', hr', requests_request hf hr' hparams honly⟩
  | lock req =>
    simp only [next] at h
    split_ifs at h with hfree
    cases h
    obtain ⟨r, hr, hreq⟩ := hl
    apply fineApart_setLock hf
    · intro other hother
      cases hfree.symm.trans hother
    · exact ⟨Function.update_self _ _ _, r, ⟨hr.find, hr.owner, hr.hostId, hr.placement⟩,
        hreq.softAvoid, hreq.anyHost, hreq.avoided, hreq.listed⟩
  | avoid req =>
    cases h
    obtain ⟨hlock, r, hr, hreq⟩ := hl
    exact fineApart_same hf ⟨hlock, hosting_avoidHosts f req, r, hr, hreq,
      complete_of_placedMembers hr.find (hlisted req rfl)⟩
  | hosts req ids =>
    obtain ⟨hlock, hhosting, r, hr, hreq, hcomplete⟩ := hl
    simp only [next] at h
    split at h
    · cases h
      exact fineApart_same hf ⟨hlock, fun host hhost => by cases hhost⟩
    · next e hchosen =>
      cases h
      have hany : req.softAvoid = true → req.onlyHostId = none := by
        rw [hreq.softAvoid]
        exact hreq.anyHost
      exact fineApart_same hf
        ⟨hlock, chosen_of_choose hhosting hany hchosen, r, hr, hreq, hcomplete⟩
  | reserve req live host =>
    cases h
    have hunseen : ∀ {r}, f.servers.find req.serverId = some r →
        Unseen r { r with reserved := some host } := fun _ => ⟨rfl, .refl _, rfl, rfl⟩
    have hregions : SameRegions f.hosts (reserveHost f req host).hosts :=
      .modify f.hosts host fun _ => rfl
    have hspares : ∀ q, Spares q f (reserveHost f req host) := by
      intro q
      exact Spares.unseen rfl hunseen hregions fun h => h
    have hplacements : (reserveHost f req host).placements = f.placements := rfl
    refine ⟨hf.of_unseen hplacements fun hr => find_unseen rfl hunseen hr, ?_,
      fun other _ => hspares other⟩
    have hwrite : LocalApart f q (.write req live host) := hl
    exact hwrite.spare (hspares q)
  | write req live host =>
    cases h
    obtain ⟨hlock, hchosen, r, hr, hreq, hcomplete⟩ := hl
    refine ⟨apart_writeHost hf hr hreq hcomplete hchosen, ⟨hlock, ?_⟩,
      fun other hne => spares_writeHost hne hr hlock hchosen.1⟩
    intro host' hhost'
    cases hhost'
    exact ⟨_, by rw [find_writeHost, if_pos rfl, hr.find]; rfl, rfl⟩
  | unlock req placed =>
    have hfree : ∀ other, f.locks req.regionId = some other → other = q := by
      intro other hother
      exact (Option.some.inj (hl.1.symm.trans hother)).symm
    cases placed with
    | error e =>
      cases h
      exact fineApart_setLock hf hfree trivial
    | ok host =>
      cases h
      exact fineApart_setLock hf hfree (hl.2 host rfl)
  | record s host =>
    cases h
    obtain ⟨r, hr, hhost⟩ := hl
    have hunseen : ∀ {r'}, f.servers.find s = some r' → Unseen r' { r' with hostId := some host } := by
      intro r' hr'
      cases hr.symm.trans hr'
      exact ⟨rfl, .refl _, hhost.symm, rfl⟩
    exact ⟨hf.of_unseen rfl fun hr => find_unseen rfl hunseen hr, trivial,
      fun other _ => .unseen rfl hunseen (.refl _) fun h => h⟩
  | deleteVm s | finalize s | release s r | clear s => exact hl.elim

theorem fineApart_trans {act : Act} {pc pc' : Pc} (hf : Apart f) (hl : LocalApart f q pc)
    (hdelete : ∀ s, act ≠ .delete s)
    (hcreate : ∀ r, act = .create r → r.spreadGroup.isSome → r.avoid = [] ∧ r.source = none)
    (hlisted : ∀ now req, act = .next now → pc = .avoid req →
      ∀ id ∈ placedMembers f req.serverId, id ∈ req.avoidServerIds)
    (h : trans q f act pc = some (f', pc')) : FineApart f q f' pc' := by
  have hservers : ∀ {f' : Fleet}, f'.servers = f.servers → f'.placements = f.placements →
      SameRegions f.hosts f'.hosts → f'.locks = f.locks → FineApart f q f' pc := by
    intro f' hsame hplacements hregions hlocks
    have hspares : ∀ q, Spares q f f' := fun q =>
      .servers hsame hregions fun h => by rw [hlocks]; exact h
    exact ⟨hf.servers hplacements hsame, hl.spare (hspares q), fun other _ => hspares other⟩
  unfold trans at h
  split at h
  · next r _ =>
    cases h
    exact ⟨apart_create hf rfl rfl fun hsome => hcreate r rfl hsome,
      ⟨_, Table.find_put_self _ _ _, rfl, rfl, rfl⟩, fun _ _ => spares_create rfl⟩
  · exact (hdelete _ rfl).elim
  · exact fineApart_next hf hl (fun req hpc => hlisted _ req rfl hpc) h
  · split at h
    · cases h
    · split at h
      · cases h
      · cases h
        exact hservers rfl rfl (.refl _) rfl
  · cases h
    exact hservers rfl rfl (.refl _) rfl
  · split at h
    · cases h
    · cases h
      exact hservers rfl rfl (.modify f.hosts _ fun _ => rfl) rfl
  · cases h

end

/-! ## Every interleaving -/

def KeptApart (w : World) : Prop := Apart w.shared ∧ ∀ q, LocalApart w.shared q (w.pc q)

theorem keptApart_step {w : World} {a : ℕ × Act} (hlisted : Listed w a = true) (h : KeptApart w) :
    KeptApart (step w a) := by
  have hfine : ∀ {f pc}, trans a.1 w.shared a.2 (w.pc a.1) = some (f, pc) →
      FineApart w.shared a.1 f pc := by
    intro f pc ht
    refine fineApart_trans h.1 (h.2 a.1) ?_ ?_ ?_ ht
    · intro s hact
      simp [Listed, hact] at hlisted
    · intro r hact hsome
      have hplain : r.spreadGroup = none ∨ r.avoid = [] ∧ r.source = none := by
        simpa [Listed, hact] using hlisted
      rcases hplain with hnone | hplain
      · simp [hnone] at hsome
      · exact hplain
    · intro now req hact hpc id hid
      simp only [Listed, hact, hpc] at hlisted
      simpa using List.all_eq_true.mp hlisted id hid
  exact callerStep_invariant (G := Apart) (L := LocalApart)
    (fun f pc ht => ⟨(hfine ht).1, (hfine ht).2.1⟩)
    (fun f pc ht q hq => (h.2 q).spare ((hfine ht).2.2 q hq)) h.1 h.2

theorem keptApart_start (hosts : Table ℕ Host) : KeptApart (start hosts) := by
  refine ⟨⟨?_, ?_, ?_, ?_, ?_⟩, fun _ => trivial⟩
  · intro s r host hr
    cases hr
  · intro s r p hr
    cases hr
  · intro s t r r' host p p' hr
    cases hr
  · intro s r p hr
    cases hr
  · intro s r hr
    cases hr

/-- In every interleaving of placements in which each node of a group finds the placed nodes of
the group on its list: of two nodes on one host, the later one was placed when every live host
of the region had a node of the group; and a server with a plain avoid list was placed on a host
without a listed server. -/
theorem nodes_kept_apart (hosts : Table ℕ Host) (acts : List (ℕ × Act))
    (h : Meets step (fun w a => Listed w a = true) (start hosts) acts) :
    let f := (run step (start hosts) acts).shared
    (∀ s t r r' host, f.servers.find s = some r → f.servers.find t = some r' → s ≠ t →
      r.spreadGroup.isSome → r'.spreadGroup = r.spreadGroup → r.hostId = some host →
      r'.hostId = some host → ∃ p p', r.placement = some p ∧ r'.placement = some p' ∧
        (p.no ≤ p'.no → p'.crowded = true) ∧ (p'.no ≤ p.no → p.crowded = true)) ∧
    ∀ s r p, f.servers.find s = some r → r.spreadGroup = none → r.placement = some p →
      p.withAvoided = false := by
  intro f
  have hkept := h.invariant (fun w a hc hw => keptApart_step hc hw) (keptApart_start hosts)
  refine ⟨?_, fun s r p hr hnone hp => hkept.1.strict hr hnone hp⟩
  intro s t r r' host hr hr' hne hsome hgroup hhost hhost'
  obtain ⟨p, hp, -⟩ := hkept.1.counted hr hhost
  obtain ⟨p', hp', -⟩ := hkept.1.counted hr' hhost'
  refine ⟨p, p', hp, hp', ?_, ?_⟩
  · exact hkept.1.spread hr hr' hne hsome hgroup hhost hhost' hp hp'
  · exact hkept.1.spread hr' hr hne.symm (by rw [hgroup]; exact hsome) hgroup.symm hhost' hhost hp' hp

/-! ## Two nodes and two hosts -/

/-- A small host besides a large one. -/
def twoHosts : Table ℕ Host :=
  (Table.empty.put 0 { regionId := 0, total := ⟨4, 8192, 100⟩ }).put 1
    { regionId := 0, total := ⟨32, 65536, 1000⟩ }

def node : Server := { regionId := 0, size := ⟨2, 2048, 40⟩, spreadGroup := some 7 }

/-- The create of a server, with its placement up to the lock, and the rest of it. -/
def listing (caller : ℕ) (r : Server) : List (ℕ × Act) :=
  (caller, .create r) :: List.replicate 3 (caller, .next 0)
def placing (caller : ℕ) : List (ℕ × Act) := List.replicate 7 (caller, .next 0)

/-- A server without a group takes a quarter of the small host. -/
def quarter : List (ℕ × Act) := listing 2 { node with spreadGroup := none } ++ placing 2

/-- One node after the other, and both at once. -/
def inTurn : List (ℕ × Act) := quarter ++ listing 0 node ++ placing 0 ++ listing 1 node ++ placing 1
def atOnce : List (ℕ × Act) := quarter ++ listing 0 node ++ listing 1 node ++ placing 1 ++ placing 0

/-- The hosts of the servers, with whether all hosts were taken when they were placed. -/
def serverHosts (acts : List (ℕ × Act)) : List (Option ℕ × Option Bool) :=
  (run step (start twoHosts) acts).shared.servers.rows.map fun e =>
    (e.2.hostId, e.2.placement.map Placement.crowded)

theorem twoHosts_runs :
    (serverHosts inTurn = [(some 0, some false), (some 1, some false), (some 0, some false)] ∧
      Meets step (fun w a => Listed w a = true) (start twoHosts) inTurn) ∧
    serverHosts atOnce = [(some 0, some false), (some 1, some false), (some 1, some false)] := by
  decide +kernel

theorem nodes_kept_apart_two_hosts :
    serverHosts inTurn = [(some 0, some false), (some 1, some false), (some 0, some false)] ∧
      ∀ s r p, (run step (start twoHosts) inTurn).shared.servers.find s = some r →
        r.spreadGroup = none → r.placement = some p → p.withAvoided = false := by
  obtain ⟨⟨hhosts, hlisted⟩, -⟩ := twoHosts_runs
  exact ⟨hhosts, (nodes_kept_apart twoHosts inTurn hlisted).2⟩

/-- The first node lists its group before the second one exists, and is placed after it: both
are on the large host, while the other one is live and has no node. -/
theorem nodes_share_host :
    serverHosts atOnce = [(some 0, some false), (some 1, some false), (some 1, some false)] :=
  twoHosts_runs.2

end Prgd.Scheduler
