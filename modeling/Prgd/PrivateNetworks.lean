import Prgd.ApiError
import Prgd.Cidr
import Prgd.Interleaving
import Prgd.Table

/-!
# Private networks

`PrivateNetworksService`: each project gets one network in a region, cut from the pool of the
region, and each of its servers there one address of it. Both are allocated optimistically: what
is used is read, a free one is chosen, and the unique indexes of the database decide.

A region without a pool of its own in the setting uses the default pool. What only the SDN of the
hosts needs (the VNet and when it was applied) is left out.
-/
namespace Prgd.PrivateNetworks
open Interleaving
open Cidr (Block parseCidr intToIp)

/-! ## Settings -/

structure Config where
  /-- `PRIVATE_NETWORK_POOL` -/
  pool : Text
  /-- `PRIVATE_NETWORK_PREFIX` -/
  bits : ℕ
  /-- `PRIVATE_NETWORK_VXLAN_BASE` -/
  vxlanBase : ℕ
  /-- The schema of the settings allows 16 to 28. -/
  bits_le : bits ≤ 32

/-- The value of an entry `region=value`. -/
def entry (regionId p : Text) : Option Text :=
  match (Text.split p ['=']).map Text.trim with
  | region :: value :: _ => if region = regionId ∧ value ≠ [] then some value else none
  | _ => none

def perRegion (setting regionId : Text) : Option Text :=
  match ((Text.split setting [',']).map Text.trim).filter (· ≠ []) with
  | [p] => if '=' ∈ p then entry regionId p else some p
  | ps => ps.findSome? (entry regionId)

/-- The pool of a region. -/
def Config.poolOf (cfg : Config) (regionId : Text) : Option Block :=
  parseCidr ((perRegion cfg.pool regionId).getD "10.96.0.0/12".toList)

/-! ## Rows -/

structure PrivateNetwork where
  projectId : ℕ
  regionId : Text
  poolIndex : ℕ
  cidr : Text
  vxlanTag : ℕ
  deriving DecidableEq

structure PrivateIp where
  networkId : ℕ
  serverId : ℕ
  address : Text
  deriving DecidableEq

structure Db where
  networks : Table ℕ PrivateNetwork
  ips : Table ℕ PrivateIp

/-- The project and the region of a server, which never change. -/
structure Home where
  projectId : ℕ
  regionId : Text
  deriving DecidableEq

def networkOf (d : Db) (home : Home) : Option (ℕ × PrivateNetwork) :=
  d.networks.rows.find? fun e => e.2.projectId = home.projectId ∧ e.2.regionId = home.regionId

def heldBy (d : Db) (server : ℕ) : Option PrivateIp :=
  (d.ips.rows.find? fun e => e.2.serverId = server).map Prod.snd

/-- `@@unique([projectId, regionId])`, `@@unique([regionId, cidr])` and
`@@unique([regionId, poolIndex])`. -/
def networkTaken (d : Db) (n : PrivateNetwork) : Bool :=
  d.networks.rows.any fun e => e.2.regionId = n.regionId ∧
    (e.2.projectId = n.projectId ∨ e.2.cidr = n.cidr ∨ e.2.poolIndex = n.poolIndex)

/-- `serverId @unique` and `@@unique([networkId, address])`. -/
def ipTaken (d : Db) (r : PrivateIp) : Bool :=
  d.ips.rows.any fun e =>
    e.2.serverId = r.serverId ∨ e.2.networkId = r.networkId ∧ e.2.address = r.address

/-! ## Choosing -/

/-- The least number that is not in the list. -/
def firstFree (used : List ℕ) : ℕ :=
  ((List.range (used.length + 1)).find? fun i => i ∉ used).getD used.length

/-- The first 16 free addresses from the third of the block up to the one before the last. -/
def freeAddresses (b : Block) (used : List Text) : List ℕ :=
  ((List.range' (b.base + 2) (2 ^ (32 - b.bits) - 3)).filter fun a : ℕ => intToIp a ∉ used).take 16

def newNetwork (cfg : Config) (home : Home) (pool : Block) (index : ℕ) : PrivateNetwork where
  projectId := home.projectId
  regionId := home.regionId
  poolIndex := index
  cidr := intToIp (pool.base + index * 2 ^ (32 - cfg.bits) : ℕ) ++ '/' :: JsNumber.digits cfg.bits
  vxlanTag := cfg.vxlanBase + index

/-! ## Calls -/

inductive Call where
  | ensureNetwork (home : Home)
  | reserveForServer (server : ℕ)
  | releaseForServer (server : ℕ)
  deriving DecidableEq

inductive Reply where
  | network (id : ℕ)
  | address (address : Text) (bits : JsNumber)
  | released
  | failed (e : ApiError)
  deriving DecidableEq

/-- Where a call stands. A call of `ensureNetwork` for a server goes on with its address. -/
inductive Pc where
  | rest (reply : Option Reply)
  | held (server : ℕ)
  | existing (home : Home) (server : Option ℕ)
  | usedIndexes (home : Home) (server : Option ℕ) (attempt : ℕ)
  | create (home : Home) (server : Option ℕ) (attempt : ℕ) (pool : Block) (index : ℕ)
  | raced (home : Home) (server : Option ℕ) (attempt : ℕ)
  | usedAddresses (server id : ℕ) (network : PrivateNetwork) (attempt : ℕ)
  | createIp (server id : ℕ) (network : PrivateNetwork) (attempt candidate : ℕ)
  | racedIp (server id : ℕ) (network : PrivateNetwork) (attempt : ℕ)
  | releasing (server : ℕ)
  deriving DecidableEq

def throws (e : ApiError) : Pc := .rest (some (.failed e))

/-- A plain error. -/
def internalError : ApiError := ⟨500, "internal_error", "Something went wrong on our side", []⟩

def noNetworks (message : String) : ApiError := ⟨403, "quota_exceeded", message, []⟩

/-- The network is there: the end of `ensureNetwork`. -/
def found (server : Option ℕ) (id : ℕ) (n : PrivateNetwork) : Pc :=
  match server with
  | none => .rest (some (.network id))
  | some s => .usedAddresses s id n 0

/-- The checks of `ensureNetwork` on its settings. -/
def ensure (cfg : Config) (home : Home) (server : Option ℕ) : Pc :=
  match cfg.poolOf home.regionId with
  | none => throws internalError
  | some pool =>
      if cfg.bits < pool.bits then throws internalError else .usedIndexes home server 0

def chooseIndex (cfg : Config) (d : Db) (home : Home) (server : Option ℕ) (attempt : ℕ) : Pc :=
  match cfg.poolOf home.regionId with
  | none => throws internalError
  | some pool =>
      let used := (d.networks.rows.filter fun e => e.2.regionId = home.regionId).map fun e =>
        e.2.poolIndex
      let index := firstFree used
      if 10 ≤ attempt then throws internalError
      else if 2 ^ (cfg.bits - pool.bits) ≤ index then
        throws (noNetworks "The private network pool of this region is exhausted")
      else if 16777215 < cfg.vxlanBase + index then
        throws (noNetworks "No VXLAN tag left for a new private network in this region")
      else .create home server attempt pool index

def chooseAddress (d : Db) (server id : ℕ) (network : PrivateNetwork) (attempt pick : ℕ) : Pc :=
  match parseCidr network.cidr with
  | none => throws internalError
  | some b =>
      let used := (d.ips.rows.filter fun e => e.2.networkId = id).map fun e => e.2.address
      let free := freeAddresses b used
      if 30 ≤ attempt then throws internalError
      -- the lowest free address first; after a collision a random one of the next few
      else match free[if attempt = 0 then 0 else pick % free.length]? with
        | none => throws (noNetworks "The private network of this project is full")
        | some candidate => .createIp server id network attempt candidate

def begin : Call → Pc
  | .ensureNetwork home => .existing home none
  | .reserveForServer server => .held server
  | .releaseForServer server => .releasing server

/-! ## Steps -/

/-- The next statement of a call; `pick` is what the random number chooses. -/
def next (cfg : Config) (servers : ℕ → Home) (d : Db) (pick : ℕ) : Pc → Option (Db × Pc)
  | .rest _ => none
  | .held server =>
      match heldBy d server with
      | some r => some (d, match d.networks.find r.networkId with
          | some n => .rest (some (.address r.address (Cidr.prefixOf n.cidr)))
          | none => throws internalError)
      | none => some (d, .existing (servers server) (some server))
  | .existing home server => some (d, match networkOf d home with
      | some e => found server e.1 e.2
      | none => ensure cfg home server)
  | .usedIndexes home server attempt => some (d, chooseIndex cfg d home server attempt)
  | .create home server attempt pool index =>
      let n := newNetwork cfg home pool index
      if networkTaken d n then some (d, .raced home server attempt)
      else some ({ d with networks := d.networks.put d.networks.fresh n },
        found server d.networks.fresh n)
  | .raced home server attempt => some (d, match networkOf d home with
      | some e => found server e.1 e.2
      | none => .usedIndexes home server (attempt + 1))
  | .usedAddresses server id network attempt =>
      some (d, chooseAddress d server id network attempt pick)
  | .createIp server id network attempt candidate =>
      let r : PrivateIp := ⟨id, server, intToIp candidate⟩
      if ipTaken d r then some (d, .racedIp server id network attempt)
      else some ({ d with ips := d.ips.put d.ips.fresh r },
        .rest (some (.address r.address (Cidr.prefixOf network.cidr))))
  | .racedIp server id network attempt => some (d, match heldBy d server with
      | some r => .rest (some (.address r.address (Cidr.prefixOf network.cidr)))
      | none => .usedAddresses server id network (attempt + 1))
  | .releasing server =>
      some ({ d with ips := d.ips.filter fun _ r => r.serverId ≠ server }, .rest (some .released))

inductive Act where
  | call (c : Call)
  | next (pick : ℕ)
  /-- The next statement is carried out or not, and the call ends with an error. -/
  | fail (carriedOut : Bool)
  deriving DecidableEq

def trans (cfg : Config) (servers : ℕ → Home) (_ : ℕ) (d : Db) (act : Act) (pc : Pc) :
    Option (Db × Pc) :=
  match act, pc with
  | .call c, .rest _ => some (d, begin c)
  | .next pick, pc => next cfg servers d pick pc
  | .fail carriedOut, pc => (next cfg servers d 0 pc).map fun r =>
      (if carriedOut then r.1 else d, throws internalError)
  | _, _ => none

abbrev World := Interleaving.World Db Pc

def step (cfg : Config) (servers : ℕ → Home) : World → ℕ × Act → World :=
  callerStep (trans cfg servers)

def start : World where
  shared := ⟨.empty, .empty⟩
  pc := fun _ => .rest none

/-! ## The invariant -/

/-- The block of the network with an index in a pool. -/
def Config.blockAt (cfg : Config) (pool : Block) (index : ℕ) : Block :=
  ⟨pool.base + index * 2 ^ (32 - cfg.bits), cfg.bits⟩

/-- The index is one of the pool of the region. -/
def Config.Indexed (cfg : Config) (regionId : Text) (pool : Block) (index : ℕ) : Prop :=
  cfg.poolOf regionId = some pool ∧ pool.bits ≤ cfg.bits ∧ index < 2 ^ (cfg.bits - pool.bits)

/-- The addresses that servers get. -/
def Block.Usable (b : Block) (a : ℕ) : Prop :=
  b.base + 2 ≤ a ∧ a + 1 < b.base + 2 ^ (32 - b.bits)

section
variable {cfg : Config} {servers : ℕ → Home} {d d' : Db}

/-- The network is the one of this home. -/
def Owned (d : Db) (home : Home) (id : ℕ) (n : PrivateNetwork) : Prop :=
  d.networks.find id = some n ∧ n.projectId = home.projectId ∧ n.regionId = home.regionId

structure Sound (cfg : Config) (servers : ℕ → Home) (d : Db) : Prop where
  network : ∀ {id n}, d.networks.find id = some n → ∃ pool,
    cfg.Indexed n.regionId pool n.poolIndex ∧
      parseCidr n.cidr = some (cfg.blockAt pool n.poolIndex)
  project : ∀ {id id' n n'}, d.networks.find id = some n → d.networks.find id' = some n' →
    n.regionId = n'.regionId → n.projectId = n'.projectId → id = id'
  index : ∀ {id id' n n'}, d.networks.find id = some n → d.networks.find id' = some n' →
    n.regionId = n'.regionId → n.poolIndex = n'.poolIndex → id = id'
  ip : ∀ {k r}, d.ips.find k = some r → ∃ n b a, Owned d (servers r.serverId) r.networkId n ∧
    parseCidr n.cidr = some b ∧ Block.Usable b a ∧ r.address = intToIp (a : ℕ)
  server : ∀ {k k' r r'}, d.ips.find k = some r → d.ips.find k' = some r' →
    r.serverId = r'.serverId → k = k'
  address : ∀ {k k' r r'}, d.ips.find k = some r → d.ips.find k' = some r' →
    r.networkId = r'.networkId → r.address = r'.address → k = k'

/-- The server that a call works for is at this home. -/
def Serves (servers : ℕ → Home) (home : Home) (server : Option ℕ) : Prop :=
  ∀ s, server = some s → servers s = home

/-- The networks of the region are no larger than its pool. -/
def Config.Fits (cfg : Config) (regionId : Text) : Prop :=
  ∀ pool, cfg.poolOf regionId = some pool → pool.bits ≤ cfg.bits

/-- What a call has read still holds. -/
def Pc.Holds (cfg : Config) (servers : ℕ → Home) (d : Db) : Pc → Prop
  | .existing home server => Serves servers home server
  | .usedIndexes home server _ | .raced home server _ =>
      Serves servers home server ∧ cfg.Fits home.regionId
  | .create home server _ pool index =>
      Serves servers home server ∧ cfg.Indexed home.regionId pool index
  | .usedAddresses server id n _ | .racedIp server id n _ => Owned d (servers server) id n
  | .createIp server id n _ candidate => Owned d (servers server) id n ∧
      ∃ b, parseCidr n.cidr = some b ∧ Block.Usable b candidate
  | _ => True

/-! ### Blocks -/

theorem indexed_fits {regionId : Text} {pool : Block} {index : ℕ}
    (h : cfg.Indexed regionId pool index) :
    (index + 1) * 2 ^ (32 - cfg.bits) ≤ 2 ^ (32 - pool.bits) := by
  obtain ⟨-, hbits, hindex⟩ := h
  have hsize : 2 ^ (cfg.bits - pool.bits) * 2 ^ (32 - cfg.bits) = 2 ^ (32 - pool.bits) := by
    rw [← pow_add]
    congr 1
    have := cfg.bits_le
    omega
  rw [← hsize]
  exact Nat.mul_le_mul_right _ hindex

theorem blockAt_wellFormed {regionId : Text} {pool : Block} {index : ℕ}
    (h : cfg.Indexed regionId pool index) : (cfg.blockAt pool index).WellFormed := by
  have hpool := Cidr.parseCidr_wellFormed h.1
  have hfits := indexed_fits h
  rw [Nat.add_mul, one_mul] at hfits
  have hpoolFits := hpool.fits
  refine ⟨cfg.bits_le, ?_, ?_⟩
  · apply Nat.dvd_add
    · have hdvd : 2 ^ (32 - cfg.bits) ∣ 2 ^ (32 - pool.bits) := Nat.pow_dvd_pow 2 (by
        have := h.2.1
        omega)
      exact hdvd.trans hpool.aligned
    · exact Nat.dvd_mul_left _ _
  · show pool.base + index * 2 ^ (32 - cfg.bits) + 2 ^ (32 - cfg.bits) ≤ 2 ^ 32
    omega

/-- A network lies in its pool. -/
theorem mem_pool {regionId : Text} {pool : Block} {index a : ℕ} (h : cfg.Indexed regionId pool index)
    (ha : (cfg.blockAt pool index).Mem a) : pool.Mem a := by
  have hfits := indexed_fits h
  rw [Nat.add_mul, one_mul] at hfits
  obtain ⟨hlow, hhigh⟩ := ha
  simp only [Config.blockAt] at hlow hhigh
  exact ⟨by omega, by omega⟩

/-- Networks with different indexes have no address in common. -/
theorem eq_of_mem {pool : Block} {i j a : ℕ} (hi : (cfg.blockAt pool i).Mem a)
    (hj : (cfg.blockAt pool j).Mem a) : i = j := by
  have hpos := Nat.two_pow_pos (32 - cfg.bits)
  have hle : ∀ {i j}, (cfg.blockAt pool i).Mem a → (cfg.blockAt pool j).Mem a → i ≤ j := by
    intro i j hi hj
    by_contra hlt
    have hmul := Nat.mul_le_mul_right (2 ^ (32 - cfg.bits)) (Nat.succ_le_of_lt (Nat.lt_of_not_le hlt))
    rw [Nat.succ_mul] at hmul
    have hlow := hi.1
    have hhigh := hj.2
    simp only [Config.blockAt] at hlow hhigh
    omega
  exact Nat.le_antisymm (hle hi hj) (hle hj hi)

theorem usable_mem {b : Block} {a : ℕ} (h : Block.Usable b a) : b.Mem a := by
  obtain ⟨hlow, hhigh⟩ := h
  exact ⟨by omega, by omega⟩

/-! ### Reads -/

theorem owned_of_networkOf {home : Home} {e : ℕ × PrivateNetwork} (h : networkOf d home = some e) :
    Owned d home e.1 e.2 := by
  have hmem := List.mem_of_find?_eq_some h
  have htest := List.find?_some h
  simp only [decide_eq_true_eq] at htest
  exact ⟨Table.find_of_mem hmem, htest⟩

theorem holds_found {home : Home} {server : Option ℕ} {id : ℕ} {n : PrivateNetwork}
    (hserves : Serves servers home server) (hown : Owned d home id n) :
    (found server id n).Holds cfg servers d := by
  cases server with
  | none => trivial
  | some s =>
    show Owned d (servers s) id n
    rw [hserves s rfl]
    exact hown

theorem holds_ensure {home : Home} {server : Option ℕ} (hserves : Serves servers home server) :
    (ensure cfg home server).Holds cfg servers d := by
  unfold ensure
  split
  · trivial
  · next pool hpool =>
    split_ifs with hbits
    · trivial
    · refine ⟨hserves, fun pool' hpool' => ?_⟩
      cases hpool.symm.trans hpool'
      exact Nat.le_of_not_lt hbits

theorem holds_chooseIndex {home : Home} {server : Option ℕ} {attempt : ℕ}
    (hserves : Serves servers home server) (hfits : cfg.Fits home.regionId) :
    (chooseIndex cfg d home server attempt).Holds cfg servers d := by
  unfold chooseIndex
  split
  · trivial
  · next pool hpool =>
    simp only
    split_ifs with hattempt hsize htag
    · trivial
    · trivial
    · trivial
    · exact ⟨hserves, hpool, hfits pool hpool, Nat.lt_of_not_le hsize⟩

theorem usable_of_free {b : Block} {used : List Text} {a : ℕ} (h : a ∈ freeAddresses b used) :
    Block.Usable b a := by
  have hmem := List.mem_of_mem_filter (List.mem_of_mem_take h)
  rw [List.mem_range'_1] at hmem
  exact ⟨hmem.1, by omega⟩

theorem holds_chooseAddress {server id attempt pick : ℕ} {n : PrivateNetwork}
    (hown : Owned d (servers server) id n) :
    (chooseAddress d server id n attempt pick).Holds cfg servers d := by
  unfold chooseAddress
  split
  · trivial
  · next b hb =>
    simp only
    split_ifs
    · trivial
    all_goals
      split
      · trivial
      · next candidate hcandidate =>
        exact ⟨hown, b, hb, usable_of_free (List.mem_of_getElem? hcandidate)⟩

/-! ### One step -/

theorem newNetwork_cidr {home : Home} {pool : Block} {index : ℕ}
    (h : cfg.Indexed home.regionId pool index) :
    parseCidr (newNetwork cfg home pool index).cidr = some (cfg.blockAt pool index) := by
  have hprint := Cidr.parseCidr_print (blockAt_wellFormed h)
  simpa only [newNetwork, Config.blockAt] using hprint

theorem Owned.insert {home : Home} {id : ℕ} {n m : PrivateNetwork} (h : Owned d home id n) :
    Owned { d with networks := d.networks.put d.networks.fresh m } home id n :=
  ⟨Table.find_put_of_some h.1, h.2⟩

/-- A network that the unique indexes let in. -/
theorem sound_create {home : Home} {pool : Block} {index : ℕ} (h : Sound cfg servers d)
    (hindexed : cfg.Indexed home.regionId pool index)
    (hfree : networkTaken d (newNetwork cfg home pool index) = false) :
    Sound cfg servers
      { d with networks := d.networks.put d.networks.fresh (newNetwork cfg home pool index) } := by
  have hnew : ∀ {id n}, d.networks.find id = some n → n.regionId = home.regionId →
      n.projectId ≠ home.projectId ∧ n.poolIndex ≠ index := by
    intro id n hn hregion
    have hany := List.any_eq_false.mp hfree (id, n) (Table.find_mem hn)
    simp only [newNetwork, hregion, true_and, decide_eq_true_eq, not_or] at hany
    exact ⟨hany.1, hany.2.2⟩
  refine ⟨?_, ?_, ?_, ?_, h.server, h.address⟩
  · intro id n hn
    rcases Table.find_put_fresh hn with ⟨-, rfl⟩ | hold
    · exact ⟨pool, hindexed, newNetwork_cidr hindexed⟩
    · exact h.network hold
  · intro id id' n n' hn hn' hregion hproject
    rcases Table.find_put_fresh hn with ⟨rfl, rfl⟩ | hold <;>
      rcases Table.find_put_fresh hn' with ⟨rfl, rfl⟩ | hold'
    · rfl
    · exact ((hnew hold' hregion.symm).1 hproject.symm).elim
    · exact ((hnew hold hregion).1 hproject).elim
    · exact h.project hold hold' hregion hproject
  · intro id id' n n' hn hn' hregion hindex
    rcases Table.find_put_fresh hn with ⟨rfl, rfl⟩ | hold <;>
      rcases Table.find_put_fresh hn' with ⟨rfl, rfl⟩ | hold'
    · rfl
    · exact ((hnew hold' hregion.symm).2 hindex.symm).elim
    · exact ((hnew hold hregion).2 hindex).elim
    · exact h.index hold hold' hregion hindex
  · intro k r hr
    obtain ⟨n, b, a, hown, hrest⟩ := h.ip hr
    exact ⟨n, b, a, hown.insert, hrest⟩

/-- An address that the unique indexes let in. -/
theorem sound_createIp {server id candidate : ℕ} {n : PrivateNetwork} {b : Block}
    (h : Sound cfg servers d) (hown : Owned d (servers server) id n)
    (hb : parseCidr n.cidr = some b) (husable : Block.Usable b candidate)
    (hfree : ipTaken d ⟨id, server, intToIp candidate⟩ = false) :
    Sound cfg servers { d with ips := d.ips.put d.ips.fresh ⟨id, server, intToIp candidate⟩ } := by
  have hnew : ∀ {k r}, d.ips.find k = some r →
      r.serverId ≠ server ∧ ¬ (r.networkId = id ∧ r.address = intToIp candidate) := by
    intro k r hr
    have hany := List.any_eq_false.mp hfree (k, r) (Table.find_mem hr)
    simpa only [decide_eq_true_eq, not_or] using hany
  refine ⟨h.network, h.project, h.index, ?_, ?_, ?_⟩
  · intro k r hr
    rcases Table.find_put_fresh hr with ⟨-, rfl⟩ | hold
    · exact ⟨n, b, candidate, hown, hb, husable, rfl⟩
    · exact h.ip hold
  · intro k k' r r' hr hr' hserver
    rcases Table.find_put_fresh hr with ⟨rfl, rfl⟩ | hold <;>
      rcases Table.find_put_fresh hr' with ⟨rfl, rfl⟩ | hold'
    · rfl
    · exact ((hnew hold').1 hserver.symm).elim
    · exact ((hnew hold).1 hserver).elim
    · exact h.server hold hold' hserver
  · intro k k' r r' hr hr' hnetwork haddress
    rcases Table.find_put_fresh hr with ⟨rfl, rfl⟩ | hold <;>
      rcases Table.find_put_fresh hr' with ⟨rfl, rfl⟩ | hold'
    · rfl
    · exact ((hnew hold').2 ⟨hnetwork.symm, haddress.symm⟩).elim
    · exact ((hnew hold).2 ⟨hnetwork, haddress⟩).elim
    · exact h.address hold hold' hnetwork haddress

theorem sound_release (h : Sound cfg servers d) (server : ℕ) :
    Sound cfg servers { d with ips := d.ips.filter fun _ r => r.serverId ≠ server } where
  network := h.network
  project := h.project
  index := h.index
  ip := fun hr => h.ip (Table.find_filter.mp hr).1
  server := fun hr hr' => h.server (Table.find_filter.mp hr).1 (Table.find_filter.mp hr').1
  address := fun hr hr' => h.address (Table.find_filter.mp hr).1 (Table.find_filter.mp hr').1

/-- What a statement leaves behind: networks stay. -/
structure Fair (cfg : Config) (servers : ℕ → Home) (d d' : Db) (pc' : Pc) : Prop where
  sound : Sound cfg servers d'
  holds : pc'.Holds cfg servers d'
  stays : ∀ {id n}, d.networks.find id = some n → d'.networks.find id = some n

theorem fair_read {pc' : Pc} (h : Sound cfg servers d) (hholds : pc'.Holds cfg servers d) :
    Fair cfg servers d d pc' := ⟨h, hholds, fun hn => hn⟩

theorem fair_next {pick : ℕ} {pc pc' : Pc} (h : Sound cfg servers d) (hpc : pc.Holds cfg servers d)
    (hnext : next cfg servers d pick pc = some (d', pc')) : Fair cfg servers d d' pc' := by
  cases pc with
  | rest reply => cases hnext
  | held server =>
    simp only [next] at hnext
    split at hnext
    · cases hnext
      apply fair_read h
      split <;> trivial
    · cases hnext
      apply fair_read h
      rintro s ⟨⟩
      rfl
  | existing home server =>
    simp only [next] at hnext
    cases hnext
    apply fair_read h
    split
    · next e he => exact holds_found hpc (owned_of_networkOf he)
    · exact holds_ensure hpc
  | usedIndexes home server attempt =>
    cases hnext
    exact fair_read h (holds_chooseIndex hpc.1 hpc.2)
  | create home server attempt pool index =>
    simp only [next] at hnext
    split_ifs at hnext with htaken
    · cases hnext
      refine fair_read h ⟨hpc.1, fun pool' hpool' => ?_⟩
      cases hpc.2.1.symm.trans hpool'
      exact hpc.2.2.1
    · cases hnext
      refine ⟨sound_create h hpc.2 (by simpa using htaken), ?_, Table.find_put_of_some⟩
      exact holds_found hpc.1 ⟨Table.find_put_self _ _ _, rfl, rfl⟩
  | raced home server attempt =>
    simp only [next] at hnext
    cases hnext
    apply fair_read h
    split
    · next e he => exact holds_found hpc.1 (owned_of_networkOf he)
    · exact hpc
  | usedAddresses server id n attempt =>
    cases hnext
    exact fair_read h (holds_chooseAddress hpc)
  | createIp server id n attempt candidate =>
    obtain ⟨hown, b, hb, husable⟩ := hpc
    simp only [next] at hnext
    split_ifs at hnext with htaken
    · cases hnext
      exact fair_read h hown
    · cases hnext
      exact ⟨sound_createIp h hown hb husable (by simpa using htaken), trivial, fun hn => hn⟩
  | racedIp server id n attempt =>
    simp only [next] at hnext
    cases hnext
    apply fair_read h
    split
    · trivial
    · exact hpc
  | releasing server =>
    cases hnext
    exact ⟨sound_release h server, trivial, fun hn => hn⟩

theorem fair_trans {q : ℕ} {act : Act} {pc pc' : Pc} (h : Sound cfg servers d)
    (hpc : pc.Holds cfg servers d) (htrans : trans cfg servers q d act pc = some (d', pc')) :
    Fair cfg servers d d' pc' := by
  cases act with
  | call c =>
    cases pc with
    | rest reply =>
      cases htrans
      apply fair_read h
      cases c with
      | ensureNetwork home => rintro s ⟨⟩
      | reserveForServer server | releaseForServer server => trivial
    | _ => cases htrans
  | next pick => exact fair_next h hpc htrans
  | fail carriedOut =>
    obtain ⟨r, hr, heq⟩ := Option.map_eq_some_iff.mp htrans
    cases heq
    have hfair := fair_next h hpc hr
    cases carriedOut with
    | false => exact fair_read h trivial
    | true => exact ⟨hfair.sound, trivial, hfair.stays⟩

theorem Pc.Holds.mono {pc : Pc} (h : pc.Holds cfg servers d)
    (hstays : ∀ {id n}, d.networks.find id = some n → d'.networks.find id = some n) :
    pc.Holds cfg servers d' := by
  cases pc with
  | usedAddresses server id n attempt | racedIp server id n attempt => exact ⟨hstays h.1, h.2⟩
  | createIp server id n attempt candidate => exact ⟨⟨hstays h.1.1, h.1.2⟩, h.2⟩
  | _ => exact h

theorem sound_step {w : World} (a : ℕ × Act)
    (hw : Sound cfg servers w.shared ∧ ∀ q, (w.pc q).Holds cfg servers w.shared) :
    Sound cfg servers (step cfg servers w a).shared ∧
      ∀ q, ((step cfg servers w a).pc q).Holds cfg servers (step cfg servers w a).shared := by
  refine callerStep_invariant (L := fun d _ (pc : Pc) => pc.Holds cfg servers d) ?_ ?_ hw.1 hw.2
  · intro d' pc' htrans
    have hfair := fair_trans hw.1 (hw.2 a.1) htrans
    exact ⟨hfair.sound, hfair.holds⟩
  · intro d' pc' htrans q _
    exact (hw.2 q).mono (fair_trans hw.1 (hw.2 a.1) htrans).stays

theorem sound_init : Sound cfg servers start.shared where
  network := fun h => by cases h
  project := fun h => by cases h
  index := fun h => by cases h
  ip := fun h => by cases h
  server := fun h => by cases h
  address := fun h => by cases h

theorem sound_run (acts : List (ℕ × Act)) :
    Sound cfg servers (run (step cfg servers) start acts).shared :=
  (run_invariant (fun w a hw => sound_step (w := w) a hw) ⟨sound_init, fun _ => trivial⟩ acts).1

/-! ## Isolation -/

/-- What keeps the networks of a region apart, and what makes an address the server's own. -/
structure Isolated (cfg : Config) (servers : ℕ → Home) (d : Db) : Prop where
  inPool : ∀ id n, d.networks.find id = some n → ∃ pool b, cfg.poolOf n.regionId = some pool ∧
    parseCidr n.cidr = some b ∧ b.bits = cfg.bits ∧ ∀ a, b.Mem a → pool.Mem a
  disjoint : ∀ id id' n n' b b' a, d.networks.find id = some n → d.networks.find id' = some n' →
    n.regionId = n'.regionId → parseCidr n.cidr = some b → parseCidr n'.cidr = some b' →
    b.Mem a → b'.Mem a → id = id'
  oneEach : ∀ id id' n n', d.networks.find id = some n → d.networks.find id' = some n' →
    n.regionId = n'.regionId → n.projectId = n'.projectId → id = id'
  inBlock : ∀ k r, d.ips.find k = some r → ∃ n b, ∃ a : ℕ, d.networks.find r.networkId = some n ∧
    n.projectId = (servers r.serverId).projectId ∧ n.regionId = (servers r.serverId).regionId ∧
    parseCidr n.cidr = some b ∧ Cidr.ipToInt r.address = some (a : ℤ) ∧ b.Mem a ∧ a ≠ b.base ∧
    a ≠ b.base + 1 ∧ a + 1 ≠ b.base + 2 ^ (32 - b.bits)
  ownAddress : ∀ k k' r r', d.ips.find k = some r → d.ips.find k' = some r' →
    (servers r.serverId).regionId = (servers r'.serverId).regionId → r.address = r'.address → k = k'
  oneAddress : ∀ k k' r r', d.ips.find k = some r → d.ips.find k' = some r' →
    r.serverId = r'.serverId → k = k'

theorem Sound.disjoint {id id' a : ℕ} {n n' : PrivateNetwork} {b b' : Block} (h : Sound cfg servers d)
    (hn : d.networks.find id = some n) (hn' : d.networks.find id' = some n')
    (hregion : n.regionId = n'.regionId) (hb : parseCidr n.cidr = some b)
    (hb' : parseCidr n'.cidr = some b') (ha : b.Mem a) (ha' : b'.Mem a) : id = id' := by
  obtain ⟨pool, hindexed, hblock⟩ := h.network hn
  obtain ⟨pool', hindexed', hblock'⟩ := h.network hn'
  rw [← hregion] at hindexed'
  cases hindexed.1.symm.trans hindexed'.1
  cases hb.symm.trans hblock
  cases hb'.symm.trans hblock'
  exact h.index hn hn' hregion (eq_of_mem ha ha')

theorem Sound.isolated (h : Sound cfg servers d) : Isolated cfg servers d where
  inPool := by
    intro id n hn
    obtain ⟨pool, hindexed, hblock⟩ := h.network hn
    exact ⟨pool, _, hindexed.1, hblock, rfl, fun a ha => mem_pool hindexed ha⟩
  disjoint := fun _ _ _ _ _ _ _ hn hn' hregion hb hb' ha ha' =>
    h.disjoint hn hn' hregion hb hb' ha ha'
  oneEach := fun _ _ _ _ hn hn' hregion hproject => h.project hn hn' hregion hproject
  inBlock := by
    intro k r hr
    obtain ⟨n, b, a, hown, hb, husable, haddress⟩ := h.ip hr
    have hfits := (Cidr.parseCidr_wellFormed hb).fits
    have hmem := usable_mem husable
    have hlt : a < 2 ^ 32 := by
      have := hmem.2
      omega
    refine ⟨n, b, a, hown.1, hown.2.1, hown.2.2, hb, ?_, hmem, ?_, ?_, ?_⟩
    · rw [haddress, Cidr.ipToInt_intToIp hlt]
    · have := husable.1
      omega
    · have := husable.1
      omega
    · have := husable.2
      omega
  ownAddress := by
    intro k k' r r' hr hr' hregion haddress
    obtain ⟨n, b, a, hown, hb, husable, hprint⟩ := h.ip hr
    obtain ⟨n', b', a', hown', hb', husable', hprint'⟩ := h.ip hr'
    have hlt : a < 2 ^ 32 := by
      have := (usable_mem husable).2
      have := (Cidr.parseCidr_wellFormed hb).fits
      omega
    have hlt' : a' < 2 ^ 32 := by
      have := (usable_mem husable').2
      have := (Cidr.parseCidr_wellFormed hb').fits
      omega
    have hsame : a = a' := by
      apply Cidr.intToIp_injective hlt hlt'
      rw [← hprint, ← hprint', haddress]
    subst hsame
    have hregions : n.regionId = n'.regionId := by rw [hown.2.2, hown'.2.2, hregion]
    have hnetwork := h.disjoint hown.1 hown'.1 hregions hb hb' (usable_mem husable)
      (usable_mem husable')
    exact h.address hr hr' hnetwork haddress
  oneAddress := fun _ _ _ _ hr hr' hserver => h.server hr hr' hserver

theorem find_of_heldBy {server : ℕ} {r : PrivateIp} (h : heldBy d server = some r) :
    ∃ k, d.ips.find k = some r ∧ r.serverId = server := by
  obtain ⟨e, he, rfl⟩ := Option.map_eq_some_iff.mp h
  exact ⟨e.1, Table.find_of_mem (List.mem_of_find?_eq_some he), by simpa using List.find?_some he⟩

theorem Sound.heldBy_eq {k : ℕ} {r : PrivateIp} (h : Sound cfg servers d)
    (hr : d.ips.find k = some r) : heldBy d r.serverId = some r := by
  cases hheld : heldBy d r.serverId with
  | none =>
    rw [heldBy, Option.map_eq_none_iff, List.find?_eq_none] at hheld
    exact (hheld (k, r) (Table.find_mem hr) (by simp)).elim
  | some r' =>
    obtain ⟨k', hr', hserver⟩ := find_of_heldBy hheld
    cases h.server hr hr' hserver.symm
    rw [hr] at hr'
    exact hr'.symm

/-- Only a release takes the address of a server away. -/
theorem ip_next {pick k : ℕ} {pc pc' : Pc} {r : PrivateIp}
    (hnext : next cfg servers d pick pc = some (d', pc')) (hr : d.ips.find k = some r)
    (hne : pc ≠ .releasing r.serverId) : d'.ips.find k = some r := by
  cases pc with
  | rest reply => cases hnext
  | held server =>
    simp only [next] at hnext
    split at hnext <;> cases hnext <;> exact hr
  | existing home server | raced home server attempt | racedIp server id n attempt =>
    simp only [next] at hnext
    cases hnext
    exact hr
  | usedIndexes home server attempt | usedAddresses server id n attempt =>
    cases hnext
    exact hr
  | create home server attempt pool index =>
    simp only [next] at hnext
    split_ifs at hnext <;> cases hnext <;> exact hr
  | createIp server id n attempt candidate =>
    simp only [next] at hnext
    split_ifs at hnext <;> cases hnext
    · exact hr
    · exact Table.find_put_of_some hr
  | releasing server =>
    cases hnext
    refine Table.find_filter.mpr ⟨hr, ?_⟩
    have hserver : r.serverId ≠ server := fun hs => hne (by rw [hs])
    simpa using hserver

theorem ip_step {w : World} {a : ℕ × Act} {k : ℕ} {r : PrivateIp}
    (hr : w.shared.ips.find k = some r) (hne : w.pc a.1 ≠ .releasing r.serverId) :
    (step cfg servers w a).shared.ips.find k = some r := by
  rcases callerStep_cases (trans cfg servers) w a with heq | ⟨d', pc', htrans, heq⟩
  · rw [step, heq]
    exact hr
  · rw [step, heq]
    obtain ⟨q, act⟩ := a
    cases act with
    | call c =>
      dsimp only at htrans
      cases hpc : w.pc q with
      | rest reply =>
        rw [hpc] at htrans
        cases htrans
        exact hr
      | _ =>
        rw [hpc] at htrans
        cases htrans
    | next pick => exact ip_next htrans hr hne
    | fail carriedOut =>
      obtain ⟨e, he, hpair⟩ := Option.map_eq_some_iff.mp htrans
      cases hpair
      cases carriedOut with
      | false => exact hr
      | true => exact ip_next he hr hne

end

/-- In every run of calls of `ensureNetwork`, `reserveForServer` and `releaseForServer`, for any
settings: the networks of a region are disjoint blocks of its pool, one for each project; an
address lies in the block of the project of its server, between the slot of the gateway and the
broadcast address; no two servers of a region have the same address; and a server keeps its
address as long as no release of this server goes through. -/
theorem private_networks_isolated (cfg : Config) (servers : ℕ → Home) (acts : List (ℕ × Act)) :
    Isolated cfg servers (run (step cfg servers) start acts).shared ∧
      ∀ server r after, heldBy (run (step cfg servers) start acts).shared server = some r →
        Meets (step cfg servers) (fun w a => w.pc a.1 ≠ .releasing server)
          (run (step cfg servers) start acts) after →
        heldBy (run (step cfg servers) start (acts ++ after)).shared server = some r := by
  refine ⟨(sound_run acts).isolated, fun server r after hheld hmeets => ?_⟩
  obtain ⟨k, hr, rfl⟩ := find_of_heldBy hheld
  have hkept := hmeets.invariant (I := fun w => w.shared.ips.find k = some r)
    (fun w a hne hr => ip_step hr hne) hr
  rw [← run_append] at hkept
  exact (sound_run _).heldBy_eq hkept

/-! ## Two projects in one region -/

def defaults : Config where
  pool := "10.96.0.0/12".toList
  bits := 24
  vxlanBase := 100000
  bits_le := by decide

def region : Text := "sa1".toList

/-- The first two servers are of one project. -/
def twoHomes (server : ℕ) : Home := ⟨if server ≤ 2 then 0 else 1, region⟩

/-- A server gets its address. -/
def reserving (server : ℕ) : List (ℕ × Act) :=
  (server, .call (.reserveForServer server)) :: List.replicate 6 (server, .next 0)

def threeServers : List (ℕ × Act) := reserving 1 ++ reserving 2 ++ reserving 3

def addressOf (acts : List (ℕ × Act)) (server : ℕ) : Option Text :=
  (heldBy (run (step defaults twoHomes) start acts).shared server).map PrivateIp.address

theorem private_networks_isolated_threeServers :
    addressOf threeServers 1 = some "10.96.0.2".toList ∧
      addressOf threeServers 2 = some "10.96.0.3".toList ∧
      addressOf threeServers 3 = some "10.96.1.2".toList ∧
      Isolated defaults twoHomes (run (step defaults twoHomes) start threeServers).shared ∧
      addressOf (threeServers ++ [(2, .call (.releaseForServer 2)), (2, .next 0)]) 1 =
        some "10.96.0.2".toList := by
  have hfirst : addressOf threeServers 1 = some "10.96.0.2".toList := by decide +kernel
  have hmeets : Meets (step defaults twoHomes) (fun w a => w.pc a.1 ≠ .releasing 1)
      (run (step defaults twoHomes) start threeServers)
      [(2, .call (.releaseForServer 2)), (2, .next 0)] := by decide +kernel
  obtain ⟨r, hr, haddress⟩ := Option.map_eq_some_iff.mp hfirst
  obtain ⟨hisolated, hkeeps⟩ := private_networks_isolated defaults twoHomes threeServers
  refine ⟨hfirst, by decide +kernel, by decide +kernel, hisolated, ?_⟩
  rw [addressOf, hkeeps 1 r _ hr hmeets, Option.map_some, haddress]

end Prgd.PrivateNetworks
