import Prgd.Billing
import Prgd.Calendar
import Prgd.Interleaving
import Prgd.JsNumber
import Prgd.Table
import Mathlib.Data.List.Dedup
import Mathlib.Data.List.MinMax

/-!
# Rating the hours of usage

`rollupHour` groups the usage events of an hour and writes one rated record for
each resource and hour. The charge of an hour is capped by what the earlier hours
of its month leave of the monthly price. The later hours are not looked at: an
hour that is rated after them can take the month over its price.

The module proves the monthly cap for every sequence of calls in which no hour is
rated whose own charge does not fit beside the charges of the hours around it.

Times are milliseconds, an hour is its number since 1970. Quantities and rates are
binary64 values, and every operation on them rounds.
-/
namespace Prgd.Rating
open Billing Calendar Interleaving JsNumber

inductive ResourceType where
  | server | snapshot | publicIp | bandwidth | volume | loadBalancer | objectStorage | database
  | app | backup | managedServer | support | kubernetes | appInstance | managedPlan
  | managedOverage | connectExecution | connectAiInput | connectAiOutput | connectAiCacheRead
  | connectToolCall | connectAiCacheWrite | connectAiCacheWrite1h
  deriving DecidableEq, Repr

inductive UsageUnit where
  | minute | gbMinute | nodeMinute | instanceMinute | byte
  deriving DecidableEq, Repr

structure Resource where
  resourceType : ResourceType
  resourceId : String
  deriving DecidableEq

/-! ## The charge of one hour -/

/-- `Math.round`: halves go up. -/
def mathRound (q : ℚ) : ℤ := (q + 1 / 2).floor

structure RateInput where
  minutes : ℕ
  monthlyMinor : ℤ
  hoursPerMonth : ℚ
  /-- What the resource was charged in the month before this hour. -/
  chargedThisMonthMinor : ℤ
  deriving DecidableEq

def rateHour (i : RateInput) : ℤ :=
  if i.minutes ≤ 0 ∨ i.monthlyMinor ≤ 0 then 0 else
    let remainingCap := max 0 (i.monthlyMinor - i.chargedThisMonthMinor)
    -- dividing by zero gives infinity, of which the cap is left
    if i.hoursPerMonth = 0 then remainingCap else
      let hourly := nearest (i.monthlyMinor / i.hoursPerMonth)
      let raw := mathRound (nearest (nearest (hourly * (min i.minutes 60 : ℕ)) / 60))
      min raw remainingCap

/-- The charge of the hour if nothing had been charged before. -/
def RateInput.uncapped (i : RateInput) : ℤ := rateHour { i with chargedThisMonthMinor := 0 }

structure TransferInput where
  includedBytes : ℚ
  prior : ℚ
  bytes : ℚ
  perGbMinor : ℚ
  deriving DecidableEq

/-- The cost of the transfer beyond what the size includes. -/
def TransferInput.cost (i : TransferInput) (total : ℚ) : ℤ :=
  mathRound (nearest (nearest (max 0 (nearest (total - i.includedBytes)) / 10 ^ 9) * i.perGbMinor))

/-- `rateBandwidth`: the overage after the hour less the overage before it. -/
def rateBandwidth (i : TransferInput) : ℤ :=
  i.cost (nearest (i.prior + i.bytes)) - i.cost i.prior

/-- What an amount is computed from. -/
inductive Basis where
  | hour (i : RateInput)
  | transfer (i : TransferInput)
  /-- Transfer without a price. -/
  | unpriced
  deriving DecidableEq

def Basis.amount : Basis → ℤ
  | .hour i => rateHour i
  | .transfer i => rateBandwidth i
  | .unpriced => 0

/-! ## Usage and the catalogue -/

structure UsageEvent where
  atTime : ℕ
  resource : Resource
  projectId : String
  quantity : ℚ
  unit : UsageUnit
  /-- Sent by an agent that counts since boot. -/
  cumulative : Bool := false
  deriving DecidableEq

def hourOf (time : ℕ) : ℕ := time / 3600000

def minuteAligned (time : ℕ) : ℕ := time / 60000 * 60000

/-- `createMany` with the unique index on the resource and the minute. -/
def insertEvent (events : List UsageEvent) (e : UsageEvent) : List UsageEvent :=
  if events.any fun f => f.resource = e.resource ∧ f.atTime = e.atTime then events
  else events ++ [e]

def ingest (events sent : List UsageEvent) : List UsageEvent :=
  ((sent.filter fun e => !(e.resource.resourceType = .bandwidth ∧ e.cumulative)).map
    fun e => { e with atTime := minuteAligned e.atTime }).foldl insertEvent events

structure GroupKey where
  projectId : String
  resource : Resource
  unit : UsageUnit
  deriving DecidableEq

structure UsageGroup extends GroupKey where
  count : ℕ
  quantity : ℚ
  deriving DecidableEq

def UsageEvent.key (e : UsageEvent) : GroupKey := ⟨e.projectId, e.resource, e.unit⟩

/-- The events of one group, counted and added up. -/
def groupOf (events : List UsageEvent) (k : GroupKey) : UsageGroup where
  toGroupKey := k
  count := (events.filter fun e => e.key = k).length
  quantity := (events.filter fun e => e.key = k).foldl (fun s e => nearest (s + e.quantity)) 0

/-- `groupBy` over the events of the hour. -/
def groups (events : List UsageEvent) (hour : ℕ) : List UsageGroup :=
  let es := events.filter fun e => hourOf e.atTime = hour
  (es.map UsageEvent.key).dedup.map (groupOf es)

structure Price where
  id : String
  resourceType : ResourceType
  sku : String
  currency : Currency
  monthlyMinor : ℤ
  unit : String
  validFrom : ℕ
  validTo : Option ℕ
  deriving DecidableEq

/-- What the rating reads besides usage: the projects' currencies, the sizes and
plans that resources have, prices, exchange rates and the configured hours of a
month, and the order in which the database returns the groups. -/
structure Catalog where
  currencyOf : String → Option Currency
  serverSize : String → Option String
  transferTb : String → Option ℚ
  clusterSize : String → Option String
  appSize : String → Option String
  supportPlan : String → Option String
  prices : List Price
  fxRates : List (ℕ × ℚ)
  fxUsdSar : ℚ
  /-- The rate that `FxService` remembers for a minute, for a time that is now. -/
  fxCache : Option ℚ
  hoursPerMonth : ℚ
  arrange : List UsageGroup → List UsageGroup
  arrange_perm : ∀ gs, (arrange gs).Perm gs

def bookCurrency : Currency := .SAR

namespace Catalog
variable (c : Catalog)

/-- `FxService.rate('SAR', at)`. -/
def rate (time : ℕ) : ℚ :=
  match c.fxCache with
  | some r => r
  | none =>
      match (c.fxRates.filter fun r => r.1 ≤ time).argmax Prod.fst with
      | some r => r.2
      | none => c.fxUsdSar

/-- `FxService.bookRate`. -/
def bookRate (currency : Currency) (time : ℕ) : ℚ :=
  if currency = bookCurrency then 1 else nearest (1 / c.rate time)

def priceFor (resourceType : ResourceType) (sku : String) (hourEnd : ℕ) : Option Price :=
  (c.prices.filter fun p => p.resourceType = resourceType ∧ p.sku = sku ∧
    p.currency = bookCurrency ∧ p.validFrom < hourEnd ∧
    p.validTo.all fun t => hourEnd ≤ t).argmax Price.validFrom

def planPriceFor (serverId : String) (hourEnd : ℕ) : ℤ :=
  match c.serverSize serverId with
  | none => 0
  | some sizeId => ((c.priceFor .server sizeId hourEnd).map Price.monthlyMinor).getD 0

def skuFor (r : Resource) : Option String :=
  match r.resourceType with
  | .server => c.serverSize r.resourceId
  | .publicIp => some "public_ip"
  | .snapshot => some "snapshot_gb"
  | .volume => some "volume_gb"
  | .loadBalancer => some "lb_node"
  | .objectStorage => some "storage_gb"
  | .database => (c.clusterSize r.resourceId).map ("db-" ++ ·)
  | .bandwidth => some "bandwidth_gb"
  | .backup => some "backups_pct"
  | .managedServer => (c.serverSize r.resourceId).map ("managed-" ++ ·)
  | .kubernetes => some "k8s-ha"
  | .appInstance => c.appSize r.resourceId
  | .support =>
      (c.supportPlan r.resourceId).bind fun plan =>
        if plan = "free" then none else some ("support-" ++ plan)
  | _ => none

end Catalog

/-! ## The roll-up -/

structure UsageRecord where
  projectId : String
  quantity : ℚ
  unit : UsageUnit
  priceId : Option String
  amountMinor : ℤ
  currency : Currency
  invoiceId : Option String := none
  /-- Not a column: what the amount was last computed from. -/
  ratedFrom : Basis
  deriving DecidableEq

/-- Under the unique index on the resource and the hour. -/
abbrev Records := Table (Resource × ℕ) UsageRecord

/-- What the records of a resource in some hours add up to. -/
def chargedIn (records : Records) (r : Resource) (hours : ℕ → Bool) : ℤ :=
  records.sum fun k u => if k.1 = r ∧ hours k.2 then u.amountMinor else 0

/-- The hours of the month before this one. -/
def before (hour : ℕ) (h : ℕ) : Bool := startOfMonth hour ≤ h ∧ h < hour

/-- The same for the transferred bytes; they are whole numbers, so that the sum is exact. -/
def transferredBefore (records : Records) (r : Resource) (hour : ℕ) : ℚ :=
  (records.rows.map fun e => if e.1.1 = r ∧ before hour e.1.2 then e.2.quantity else 0).sum

def hourEnd (hour : ℕ) : ℕ := (hour + 1) * 3600000

section
variable (c : Catalog) (hour : ℕ)

def currencyFor (projectId : String) : Currency := (c.currencyOf projectId).getD .USD

def priceOf (r : Resource) : Option Price :=
  (c.skuFor r).bind fun sku => c.priceFor r.resourceType sku (hourEnd hour)

def UsageUnit.scales : UsageUnit → Bool
  | .gbMinute | .nodeMinute | .instanceMinute => true
  | .minute | .byte => false

/-- The monthly price of the group's resource. -/
def monthlyMinor (g : UsageGroup) : ℤ :=
  let fx := c.bookRate (currencyFor c g.projectId) (hourEnd hour)
  match priceOf c hour g.resource with
  | none => 0
  | some price =>
      if price.unit = "percent" then
        mathRound (nearest (nearest (nearest (c.planPriceFor g.resource.resourceId (hourEnd hour) *
          fx) * price.monthlyMinor) / 100))
      else if g.unit.scales then
        mathRound (nearest (nearest (price.monthlyMinor *
          nearest (g.quantity / (max g.count 1 : ℕ))) * fx))
      else mathRound (nearest (price.monthlyMinor * fx))

def rateInput (records : Records) (g : UsageGroup) : RateInput where
  minutes := g.count
  monthlyMinor := monthlyMinor c hour g
  hoursPerMonth := c.hoursPerMonth
  chargedThisMonthMinor := chargedIn records g.resource (before hour)

def transferInput (records : Records) (g : UsageGroup) (price : Price) : TransferInput where
  includedBytes := nearest ((c.transferTb g.resource.resourceId).getD 0 * 10 ^ 12)
  prior := transferredBefore records g.resource hour
  bytes := g.quantity
  perGbMinor := nearest (price.monthlyMinor *
    c.bookRate (currencyFor c g.projectId) (hourEnd hour))

def basisFor (records : Records) (g : UsageGroup) : Basis :=
  if g.resource.resourceType = .bandwidth then
    match priceOf c hour g.resource with
    | some price => .transfer (transferInput c hour records g price)
    | none => .unpriced
  else .hour (rateInput c hour records g)

/-- The row of a group: an existing one keeps its project, unit, currency and
invoice, and its price when there is none now. -/
def rated (old : Option UsageRecord) (g : UsageGroup) (basis : Basis) : UsageRecord :=
  let priceId := (priceOf c hour g.resource).map Price.id
  match old with
  | some u => { u with
      quantity := g.quantity
      priceId := priceId <|> u.priceId
      amountMinor := basis.amount
      ratedFrom := basis }
  | none => {
      projectId := g.projectId
      quantity := g.quantity
      unit := g.unit
      priceId := priceId
      amountMinor := basis.amount
      currency := currencyFor c g.projectId
      ratedFrom := basis }

/-- One turn of the loop of `rollupHour`. -/
def rollupGroup (records : Records) (g : UsageGroup) : Records :=
  records.put (g.resource, hour)
    (rated c hour (records.find (g.resource, hour)) g (basisFor c hour records g))

/-- The records, and how many were written. -/
def rollupHour (events : List UsageEvent) (records : Records) : Records × ℕ :=
  let gs := c.arrange (groups events hour)
  (gs.foldl (rollupGroup c hour) records, gs.length)

end

/-! ## Sums over the hours of a resource -/

/-- Writing another resource or another hour leaves the sum. -/
theorem chargedIn_put_of_not {records : Records} {r : Resource} {hours : ℕ → Bool}
    {k : Resource × ℕ} (h : ¬(k.1 = r ∧ hours k.2)) (u : UsageRecord) :
    chargedIn (records.put k u) r hours = chargedIn records r hours := by
  have hold : (records.find k).elim 0 (fun u : UsageRecord =>
      if k.1 = r ∧ hours k.2 then u.amountMinor else 0) = 0 := by
    cases records.find k with
    | none => rfl
    | some u => exact if_neg h
  rw [chargedIn, Table.sum_put, hold, if_neg h, chargedIn]
  omega

theorem chargedIn_hour (records : Records) (r : Resource) (hour : ℕ) :
    chargedIn records r (fun h => h = hour) =
      (records.find (r, hour)).elim 0 UsageRecord.amountMinor := by
  rw [← Table.sum_only]
  apply Table.sum_congr
  intro k u hmem
  simp only [decide_eq_true_eq, Prod.ext_iff]

theorem chargedIn_congr {records : Records} {r : Resource} {p q : ℕ → Bool}
    (h : ∀ hour, p hour = q hour) : chargedIn records r p = chargedIn records r q := by
  rw [funext h]

/-- Hours that do not overlap are added. -/
theorem chargedIn_or (records : Records) (r : Resource) {p q : ℕ → Bool}
    (h : ∀ hour, p hour = true → q hour = false) :
    chargedIn records r (fun hour => p hour || q hour) =
      chargedIn records r p + chargedIn records r q := by
  rw [chargedIn, chargedIn, chargedIn, ← Table.sum_add]
  apply Table.sum_congr
  intro k u hmem
  have hpq := h k.2
  by_cases hr : k.1 = r
  · cases hp : p k.2 with
    | true => simp [hr, hpq hp]
    | false => simp [hr]
  · simp [hr]

/-- The hours of a month before and after one of them. -/
def earlier (hour h : ℕ) : Bool := monthOf h = monthOf hour ∧ h < hour

def later (hour h : ℕ) : Bool := monthOf h = monthOf hour ∧ hour < h

theorem before_eq_earlier (hour h : ℕ) : before hour h = earlier hour h := by
  unfold before earlier
  by_cases hlt : h < hour
  · simp only [hlt, and_true, decide_eq_decide]
    exact startOfMonth_le_iff hlt.le
  · simp [hlt]

/-- The charges of a month around one of its hours. -/
theorem chargedIn_month (records : Records) (r : Resource) (hour : ℕ) :
    chargedIn records r (fun h => monthOf h = monthOf hour) =
      chargedIn records r (earlier hour) + chargedIn records r (fun h => h = hour) +
        chargedIn records r (later hour) := by
  rw [← chargedIn_or, ← chargedIn_or]
  · apply chargedIn_congr
    intro h
    unfold earlier later
    rcases lt_trichotomy h hour with hlt | heq | hgt
    · simp [hlt, hlt.ne, hlt.not_gt]
    · simp [heq]
    · simp [hgt, hgt.ne', hgt.not_gt]
  · intro h hp
    simp only [earlier, Bool.or_eq_true, decide_eq_true_eq] at hp
    simp only [later, decide_eq_false_iff_not]
    omega
  · intro h hp
    simp only [earlier, decide_eq_true_eq] at hp
    simp only [decide_eq_false_iff_not]
    omega

/-! ## The cap -/

structure World where
  events : List UsageEvent
  records : Records

inductive Act where
  | ingest (sent : List UsageEvent)
  | rollupHour (hour : ℕ) (c : Catalog)

def step (w : World) : Act → World
  | .ingest sent => { w with events := ingest w.events sent }
  | .rollupHour hour c => { w with records := (rollupHour c hour w.events w.records).1 }

/-- The records of a resource in a month stay within its price, and none is negative. -/
def Capped (r : Resource) (month : ℕ) (price : ℕ) (w : World) : Prop :=
  chargedIn w.records r (fun h => monthOf h = month) ≤ price ∧
    ∀ k u, (k, u) ∈ w.records.rows → k.1 = r → monthOf k.2 = month → 0 ≤ u.amountMinor

/-- Every call of the month finds the same monthly price for the resource. -/
def ConstantPrice (r : Resource) (month : ℕ) (price : ℕ) (w : World) : Act → Prop
  | .rollupHour hour c => monthOf hour = month →
      ∀ g ∈ groups w.events hour, g.resource = r → monthlyMinor c hour g = price
  | .ingest _ => True

/-- The charge of the hour before the cap is not negative, and fits beside the
charges of the month's other hours unless no later hour has been charged. -/
def Fits (r : Resource) (month : ℕ) (price : ℕ) (w : World) : Act → Prop
  | .rollupHour hour c => monthOf hour = month →
      ∀ g ∈ groups w.events hour, g.resource = r →
        0 ≤ (rateInput c hour w.records g).uncapped ∧
          (chargedIn w.records r (later hour) = 0 ∨
            chargedIn w.records r (earlier hour) + (rateInput c hour w.records g).uncapped +
              chargedIn w.records r (later hour) ≤ price)
  | .ingest _ => True

/-- An hour takes at most what the cap leaves and at most its own charge. -/
theorem rateHour_le {i : RateInput} (h : 0 ≤ i.chargedThisMonthMinor) :
    rateHour i ≤ i.uncapped ∧ rateHour i ≤ max 0 (i.monthlyMinor - i.chargedThisMonthMinor) := by
  unfold RateInput.uncapped rateHour
  dsimp only
  split_ifs with hzero hhours <;> constructor <;> omega

theorem rateHour_nonneg {i : RateInput} (h : 0 ≤ i.uncapped) : 0 ≤ rateHour i := by
  unfold RateInput.uncapped at h
  unfold rateHour at *
  dsimp only at *
  split_ifs at * with hzero hhours <;> omega

theorem rated_amountMinor (c : Catalog) (hour : ℕ) (old : Option UsageRecord) (g : UsageGroup)
    (basis : Basis) : (rated c hour old g basis).amountMinor = basis.amount := by
  cases old with
  | none => rfl
  | some u => rfl

/-- What holds of the table while an hour is rated: the other hours of the month are
as they were, and with the hour they stay within the price. -/
structure During (r : Resource) (hour : ℕ) (price : ℕ) (start records : Records) : Prop where
  earlier_eq : chargedIn records r (earlier hour) = chargedIn start r (earlier hour)
  later_eq : chargedIn records r (later hour) = chargedIn start r (later hour)
  capped : chargedIn records r (fun h => monthOf h = monthOf hour) ≤ price
  nonneg : ∀ k u, (k, u) ∈ records.rows → k.1 = r → monthOf k.2 = monthOf hour →
    0 ≤ u.amountMinor

theorem chargedIn_nonneg {records : Records} {r : Resource} {hours : ℕ → Bool}
    (h : ∀ k u, (k, u) ∈ records.rows → k.1 = r → hours k.2 = true → 0 ≤ u.amountMinor) :
    0 ≤ chargedIn records r hours := by
  apply Table.sum_nonneg
  intro k u hmem
  split_ifs with hk
  · exact h k u hmem hk.1 hk.2
  · exact le_rfl

section
variable {c : Catalog} {hour : ℕ} {r : Resource} {price : ℕ} {start records : Records}
  {g : UsageGroup}

/-- A group of another resource. -/
theorem During.other (h : During r hour price start records) (hr : g.resource ≠ r) :
    During r hour price start (rollupGroup c hour records g) := by
  have hput : ∀ hours, chargedIn (rollupGroup c hour records g) r hours =
      chargedIn records r hours := fun hours =>
    chargedIn_put_of_not (fun hk => hr hk.1) _
  refine ⟨(hput _).trans h.earlier_eq, (hput _).trans h.later_eq, (hput _).trans_le h.capped, ?_⟩
  intro k u hmem hk hmonth
  rcases Table.mem_put hmem with heq | ⟨-, hold⟩
  · cases heq
    exact (hr hk).elim
  · exact h.nonneg k u hold hk hmonth

theorem During.earlier_nonneg (h : During r hour price start records) :
    0 ≤ chargedIn records r (earlier hour) := by
  apply chargedIn_nonneg
  intro k u hmem hk hearlier
  simp only [earlier, decide_eq_true_eq] at hearlier
  exact h.nonneg k u hmem hk hearlier.1

theorem During.later_nonneg (h : During r hour price start records) :
    0 ≤ chargedIn records r (later hour) := by
  apply chargedIn_nonneg
  intro k u hmem hk hlater
  simp only [later, decide_eq_true_eq] at hlater
  exact h.nonneg k u hmem hk hlater.1

theorem chargedIn_before (records : Records) (r : Resource) (hour : ℕ) :
    chargedIn records r (before hour) = chargedIn records r (earlier hour) :=
  chargedIn_congr (before_eq_earlier hour)

/-- The charge before the cap depends on the table in no way. -/
theorem uncapped_eq (records start : Records) (g : UsageGroup) :
    (rateInput c hour records g).uncapped = (rateInput c hour start g).uncapped := rfl

/-- A group of the resource itself: its amount takes the place of the hour's. -/
theorem During.own (h : During r hour price start records) (hr : g.resource = r)
    (htype : r.resourceType ≠ .bandwidth) (hprice : monthlyMinor c hour g = price)
    (hnonneg : 0 ≤ (rateInput c hour start g).uncapped)
    (hfits : chargedIn start r (later hour) = 0 ∨
      chargedIn start r (earlier hour) + (rateInput c hour start g).uncapped +
        chargedIn start r (later hour) ≤ price) :
    During r hour price start (rollupGroup c hour records g) := by
  have hbasis : basisFor c hour records g = .hour (rateInput c hour records g) := by
    rw [basisFor, hr, if_neg htype]
  have hcharged : (rateInput c hour records g).chargedThisMonthMinor =
      chargedIn records r (earlier hour) := by
    rw [← chargedIn_before, ← hr]
    rfl
  have hmonthly : (rateInput c hour records g).monthlyMinor = price := hprice
  have hearlier : chargedIn (rollupGroup c hour records g) r (earlier hour) =
      chargedIn records r (earlier hour) :=
    chargedIn_put_of_not (by simp [earlier]) _
  have hlater : chargedIn (rollupGroup c hour records g) r (later hour) =
      chargedIn records r (later hour) :=
    chargedIn_put_of_not (by simp [later]) _
  have hown : chargedIn (rollupGroup c hour records g) r (fun h => h = hour) =
      rateHour (rateInput c hour records g) := by
    rw [chargedIn_hour, rollupGroup, hr, Table.find_put_self, Option.elim_some,
      rated_amountMinor, hbasis]
    rfl
  have hle := rateHour_le (i := rateInput c hour records g) (by
    rw [hcharged]
    exact h.earlier_nonneg)
  rw [uncapped_eq records start] at hle
  have hpos := rateHour_nonneg (i := rateInput c hour records g) hnonneg
  have hbefore := h.capped
  rw [chargedIn_month] at hbefore
  have hhour : 0 ≤ chargedIn records r (fun h => h = hour) := by
    apply chargedIn_nonneg
    intro k u hmem hk heq
    simp only [decide_eq_true_eq] at heq
    exact h.nonneg k u hmem hk (by rw [heq])
  have hlater0 := h.later_nonneg
  refine ⟨hearlier.trans h.earlier_eq, hlater.trans h.later_eq, ?_, ?_⟩
  · rw [chargedIn_month, hearlier, hlater, hown]
    rw [← h.later_eq, ← h.earlier_eq] at hfits
    rw [hmonthly, hcharged] at hle
    omega
  · intro k u hmem hk hmonth
    rcases Table.mem_put hmem with heq | ⟨-, hold⟩
    · cases heq
      rw [rated_amountMinor, hbasis]
      exact hpos
    · exact h.nonneg k u hold hk hmonth

end

/-- The groups of an hour are rated one after another. -/
theorem During.fold {c : Catalog} {hour : ℕ} {r : Resource} {price : ℕ} {start : Records}
    (htype : r.resourceType ≠ .bandwidth) {gs : List UsageGroup}
    (hgs : ∀ g ∈ gs, g.resource = r → monthlyMinor c hour g = price ∧
      0 ≤ (rateInput c hour start g).uncapped ∧
        (chargedIn start r (later hour) = 0 ∨
          chargedIn start r (earlier hour) + (rateInput c hour start g).uncapped +
            chargedIn start r (later hour) ≤ price))
    {records : Records} (h : During r hour price start records) :
    During r hour price start (gs.foldl (rollupGroup c hour) records) := by
  induction gs generalizing records with
  | nil => exact h
  | cons g gs ih =>
    apply ih (fun g' hg' => hgs g' (List.mem_cons_of_mem g hg'))
    by_cases hr : g.resource = r
    · obtain ⟨hprice, hnonneg, hfits⟩ := hgs g List.mem_cons_self hr
      exact h.own hr htype hprice hnonneg hfits
    · exact h.other hr

/-- The hours of other months are not touched. -/
theorem chargedIn_fold_of_ne {c : Catalog} {hour month : ℕ} {r : Resource}
    (hmonth : monthOf hour ≠ month) (gs : List UsageGroup) (records : Records) :
    chargedIn (gs.foldl (rollupGroup c hour) records) r (fun h => monthOf h = month) =
      chargedIn records r (fun h => monthOf h = month) := by
  induction gs generalizing records with
  | nil => rfl
  | cons g gs ih =>
    rw [List.foldl_cons, ih]
    apply chargedIn_put_of_not
    simp [hmonth]

theorem mem_fold_of_ne {c : Catalog} {hour month : ℕ} (hmonth : monthOf hour ≠ month)
    {gs : List UsageGroup} {records : Records} {k : Resource × ℕ} {u : UsageRecord}
    (hk : monthOf k.2 = month) (h : (k, u) ∈ (gs.foldl (rollupGroup c hour) records).rows) :
    (k, u) ∈ records.rows := by
  induction gs generalizing records with
  | nil => exact h
  | cons g gs ih =>
    rcases Table.mem_put (ih h) with heq | ⟨-, hold⟩
    · cases heq
      exact (hmonth hk).elim
    · exact hold

theorem capped_step {r : Resource} (htype : r.resourceType ≠ .bandwidth) {month price : ℕ}
    {w : World} {a : Act} (hconst : ConstantPrice r month price w a) (hfits : Fits r month price w a)
    (h : Capped r month price w) : Capped r month price (step w a) := by
  cases a with
  | ingest sent => exact h
  | rollupHour hour c =>
    by_cases hmonth : monthOf hour = month
    · have hduring : During r hour price w.records w.records :=
        ⟨rfl, rfl, by rw [hmonth]; exact h.1, by rw [hmonth]; exact h.2⟩
      have hdone : During r hour price w.records
          ((c.arrange (groups w.events hour)).foldl (rollupGroup c hour) w.records) := by
        apply hduring.fold htype
        intro g hg hr
        have hmem : g ∈ groups w.events hour := (c.arrange_perm _).subset hg
        exact ⟨hconst hmonth g hmem hr, hfits hmonth g hmem hr⟩
      refine ⟨?_, ?_⟩
      · rw [← hmonth]
        exact hdone.capped
      · rw [← hmonth]
        exact hdone.nonneg
    · refine ⟨?_, ?_⟩
      · have hsame := chargedIn_fold_of_ne (c := c) (r := r) hmonth
          (c.arrange (groups w.events hour)) w.records
        exact hsame.trans_le h.1
      · intro k u hmem hk hin
        exact h.2 k u (mem_fold_of_ne hmonth hin hmem) hk hin

/-- The monthly cap holds after every call of a sequence in which each rated hour fits
beside the later hours that have been charged. -/
theorem month_capped (r : Resource) (htype : r.resourceType ≠ .bandwidth) (month price : ℕ)
    (w : World) (hw : Capped r month price w) (acts : List Act)
    (hconst : Meets step (ConstantPrice r month price) w acts)
    (hfits : Meets step (Fits r month price) w acts) :
    Capped r month price (run step w acts) := by
  have hboth : Meets step (fun w a => ConstantPrice r month price w a ∧ Fits r month price w a)
      w acts := hconst.and hfits
  exact hboth.invariant (fun w a hok h => capped_step htype hok.1 hok.2 h) hw

/-! ## A month over its price

An address of 336 a month is used in every hour, and 336 hours of October 2026 are
rated first; each costs one after rounding. The first hour of the month is rated
last and sees no earlier hour.
-/

def address : Resource := ⟨.publicIp, "ip1"⟩

/-- An event for each minute of an hour. -/
def fullHour (hour : ℕ) : List UsageEvent :=
  (List.range 60).map fun j => {
    atTime := hour * 3600000 + j * 60000
    resource := address
    projectId := "p1"
    quantity := 1
    unit := .minute }

def fullHours (first n : ℕ) : List UsageEvent :=
  (List.range n).flatMap fun j => fullHour (first + j)

def addressPrice : Price where
  id := "price1"
  resourceType := .publicIp
  sku := "public_ip"
  currency := .SAR
  monthlyMinor := 336
  unit := "hour"
  validFrom := 0
  validTo := none

def catalog : Catalog where
  currencyOf := fun _ => some .SAR
  serverSize := fun _ => none
  transferTb := fun _ => none
  clusterSize := fun _ => none
  appSize := fun _ => none
  supportPlan := fun _ => none
  prices := [addressPrice]
  fxRates := []
  fxUsdSar := 15 / 4
  fxCache := none
  hoursPerMonth := 672
  arrange := id
  arrange_perm := fun gs => List.Perm.refl gs

def addressKey : GroupKey := ⟨"p1", address, .minute⟩

def addressGroup (hour : ℕ) : UsageGroup := groupOf (fullHour hour) addressKey

theorem key_of_mem_fullHour {hour : ℕ} {e : UsageEvent} (h : e ∈ fullHour hour) :
    e.key = addressKey ∧ hourOf e.atTime = hour := by
  obtain ⟨j, hj, rfl⟩ := List.mem_map.mp h
  have := List.mem_range.mp hj
  refine ⟨rfl, ?_⟩
  simp only [hourOf]
  omega

theorem filter_fullHours {first n j : ℕ} (hj : j < n) :
    (fullHours first n).filter (fun e => hourOf e.atTime = first + j) = fullHour (first + j) := by
  have heach : ∀ i, (fullHour (first + i)).filter (fun e => hourOf e.atTime = first + j) =
      if i = j then fullHour (first + j) else [] := by
    intro i
    split_ifs with hij
    · subst hij
      apply List.filter_eq_self.mpr
      intro e he
      simpa using (key_of_mem_fullHour he).2
    · apply List.filter_eq_nil_iff.mpr
      intro e he
      have := (key_of_mem_fullHour he).2
      simp only [decide_eq_true_eq]
      omega
  rw [fullHours, List.filter_flatMap]
  simp only [heach]
  induction n with
  | zero => omega
  | succ n ih =>
    rw [List.range_succ, List.flatMap_append]
    by_cases hlast : j = n
    · subst hlast
      have hnil : ((List.range j).flatMap fun i =>
          if i = j then fullHour (first + j) else []) = [] := by
        apply List.flatMap_eq_nil_iff.mpr
        intro i hi
        have := List.mem_range.mp hi
        rw [if_neg (by omega)]
      rw [hnil]
      simp
    · rw [ih (by omega)]
      simp [Ne.symm hlast]

theorem groups_fullHours (first : ℕ) {n j : ℕ} (hj : j < n) :
    groups (fullHours first n) (first + j) = [addressGroup (first + j)] := by
  have hkeys : (fullHour (first + j)).map UsageEvent.key = List.replicate 60 addressKey := by
    rw [fullHour, List.map_map, List.eq_replicate_iff]
    refine ⟨by simp, ?_⟩
    intro k hk
    obtain ⟨i, -, rfl⟩ := List.mem_map.mp hk
    rfl
  have hdedup : (List.replicate 60 addressKey).dedup = [addressKey] := by decide
  rw [groups, filter_fullHours hj, hkeys, hdedup]
  rfl

theorem addressGroup_count (hour : ℕ) : (addressGroup hour).count = 60 := by
  have hall : (fullHour hour).filter (fun e => e.key = addressKey) = fullHour hour := by
    apply List.filter_eq_self.mpr
    intro e he
    simpa using (key_of_mem_fullHour he).1
  rw [addressGroup, groupOf, hall, fullHour, List.length_map, List.length_range]

theorem priceFor_address {time : ℕ} (h : 0 < time) :
    catalog.priceFor .publicIp "public_ip" time = some addressPrice := by
  have hself : [addressPrice].filter (fun p => p.resourceType = .publicIp ∧ p.sku = "public_ip" ∧
      p.currency = bookCurrency ∧ p.validFrom < time ∧ p.validTo.all fun t => time ≤ t) =
      [addressPrice] := by
    apply List.filter_eq_self.mpr
    intro p hp
    rw [List.mem_singleton.mp hp]
    simp [addressPrice, bookCurrency, h]
  rw [Catalog.priceFor, show catalog.prices = [addressPrice] from rfl, hself,
    List.argmax_singleton]

theorem monthlyMinor_address (hour : ℕ) : monthlyMinor catalog hour (addressGroup hour) = 336 := by
  have hend : 0 < hourEnd hour := by
    unfold hourEnd
    omega
  have hsku : catalog.skuFor address = some "public_ip" := rfl
  have hprice : priceOf catalog hour address = some addressPrice := by
    rw [priceOf, hsku, Option.bind_some]
    exact priceFor_address hend
  have hfx : ∀ time, catalog.bookRate (currencyFor catalog "p1") time = 1 := fun time => rfl
  have hround : mathRound (nearest ((336 : ℤ) * (1 : ℚ))) = 336 := by decide +kernel
  have hunit : addressPrice.unit ≠ "percent" := by decide
  have hresource : (addressGroup hour).resource = address := rfl
  have hproject : (addressGroup hour).projectId = "p1" := rfl
  have hscales : (addressGroup hour).unit.scales = false := rfl
  rw [monthlyMinor, hresource, hproject, hprice, hfx]
  simp only [hunit, hscales, if_false, Bool.false_eq_true]
  exact hround

/-- A full hour costs one while the cap leaves it. -/
theorem rateHour_address {charged : ℤ} (h : charged < 336) :
    rateHour ⟨60, 336, 672, charged⟩ = 1 := by
  have hraw : mathRound (nearest (nearest (nearest ((336 : ℤ) / (672 : ℚ)) *
      (min 60 60 : ℕ)) / 60)) = 1 := by decide +kernel
  rw [rateHour, if_neg (by simp), if_neg (by norm_num)]
  dsimp only
  rw [hraw]
  omega

/-- One call over the used hours. -/
theorem step_fullHours (first : ℕ) {n j : ℕ} (hj : j < n) (records : Records) :
    step ⟨fullHours first n, records⟩ (.rollupHour (first + j) catalog) =
      ⟨fullHours first n, rollupGroup catalog (first + j) records (addressGroup (first + j))⟩ := by
  have hgroups := groups_fullHours first hj
  simp only [step, rollupHour, hgroups]
  rfl

/-- The first hour of October 2026. -/
def october : ℕ := monthStart 681

theorem monthOf_october {j : ℕ} (h : j < 744) : monthOf (october + j) = 681 := by
  have hdays : daysIn 681 = 31 := by decide
  apply monthOf_eq
  · exact Nat.le_add_right _ _
  · rw [monthStart, hdays, ← october]
    omega

/-- The first `n` hours after the first one are rated, and each costs one. -/
structure Rated (n : ℕ) (records : Records) : Prop where
  keys : ∀ k u, (k, u) ∈ records.rows → k.1 = address ∧ october < k.2 ∧ k.2 ≤ october + n
  cost : records.sum (fun _ u => u.amountMinor) = n

theorem Rated.chargedIn_all {n : ℕ} {records : Records} (h : Rated n records) {hours : ℕ → Bool}
    (hall : ∀ hour, october < hour → hour ≤ october + n → hours hour = true) :
    chargedIn records address hours = n := by
  rw [← h.cost]
  apply Table.sum_congr
  intro k u hmem
  obtain ⟨hk, hlow, hhigh⟩ := h.keys k u hmem
  rw [if_pos ⟨hk, hall k.2 hlow hhigh⟩]

theorem Rated.chargedIn_none {n : ℕ} {records : Records} (h : Rated n records) {hours : ℕ → Bool}
    (hnone : ∀ hour, october < hour → hour ≤ october + n → hours hour = false) :
    chargedIn records address hours = 0 := by
  apply Table.sum_eq_zero
  intro k u hmem
  obtain ⟨hk, hlow, hhigh⟩ := h.keys k u hmem
  rw [if_neg (by simp [hnone k.2 hlow hhigh])]

theorem earlier_october {j : ℕ} (hj : j < 744) {hour : ℕ} (hlow : october < hour)
    (hhigh : hour ≤ october + j) (i : ℕ) (hi : i < 744) :
    earlier (october + i) hour = decide (hour < october + i) := by
  have hmonth : monthOf hour = 681 := by
    have := monthOf_october (j := hour - october) (by omega)
    rwa [Nat.add_sub_cancel' hlow.le] at this
  simp [earlier, hmonth, monthOf_october hi]

/-- The basis of the hour that is rated next. -/
theorem basisFor_address (records : Records) (j : ℕ) :
    (basisFor catalog (october + j) records (addressGroup (october + j))).amount =
      rateHour ⟨60, 336, 672, chargedIn records address (earlier (october + j))⟩ := by
  have hbasis : basisFor catalog (october + j) records (addressGroup (october + j)) =
      .hour (rateInput catalog (october + j) records (addressGroup (october + j))) := by
    have htype : (addressGroup (october + j)).resource.resourceType = .publicIp := rfl
    rw [basisFor, htype, if_neg (by decide)]
  have hinput : rateInput catalog (october + j) records (addressGroup (october + j)) =
      ⟨60, 336, 672, chargedIn records address (earlier (october + j))⟩ := by
    rw [rateInput, addressGroup_count, monthlyMinor_address,
      show (addressGroup (october + j)).resource = address from rfl, chargedIn_before]
    rfl
  rw [hbasis, hinput, Basis.amount]

theorem Rated.next {n : ℕ} (hn : n < 336) {records : Records} (h : Rated n records) :
    Rated (n + 1) (rollupGroup catalog (october + (n + 1)) records
      (addressGroup (october + (n + 1)))) := by
  have hcharged : chargedIn records address (earlier (october + (n + 1))) = n := by
    apply h.chargedIn_all
    intro hour hlow hhigh
    rw [earlier_october (by omega) hlow hhigh (n + 1) (by omega)]
    simp only [decide_eq_true_eq]
    omega
  have hnew : records.find (address, october + (n + 1)) = none := by
    cases hfind : records.find (address, october + (n + 1)) with
    | none => rfl
    | some u =>
      have := (h.keys _ _ (Table.find_mem hfind)).2.2
      simp only at this
      omega
  constructor
  · intro k u hmem
    rcases Table.mem_put hmem with heq | ⟨-, hold⟩
    · cases heq
      exact ⟨rfl, by simp only; omega, le_rfl⟩
    · obtain ⟨hk, hlow, hhigh⟩ := h.keys k u hold
      exact ⟨hk, hlow, by omega⟩
  · have hresource : (addressGroup (october + (n + 1))).resource = address := rfl
    rw [rollupGroup, hresource, Table.sum_put, hnew, Option.elim_none, h.cost, rated_amountMinor,
      basisFor_address, hcharged, rateHour_address (by omega)]
    omega

/-- The calls for the hours after the first one, in order. -/
def inOrder (n : ℕ) : List Act :=
  (List.range n).map fun j => .rollupHour (october + (j + 1)) catalog

theorem run_inOrder {n : ℕ} (hn : n ≤ 336) :
    ∃ records, run step ⟨fullHours october 337, Table.empty⟩ (inOrder n) =
      ⟨fullHours october 337, records⟩ ∧ Rated n records := by
  induction n with
  | zero =>
    refine ⟨Table.empty, rfl, ?_, rfl⟩
    intro k u hmem
    cases hmem
  | succ n ih =>
    obtain ⟨records, hrun, hrated⟩ := ih (by omega)
    have hlast : inOrder (n + 1) = inOrder n ++ [.rollupHour (october + (n + 1)) catalog] := by
      simp [inOrder, List.range_succ]
    refine ⟨_, ?_, hrated.next (by omega)⟩
    rw [hlast, run_append, hrun, run_cons, run_nil, step_fullHours october (by omega)]

/-- Every call over the used hours finds the price of the address. -/
theorem meets_constantPrice {acts : List Act}
    (hacts : ∀ a ∈ acts, ∃ j < 337, a = .rollupHour (october + j) catalog) (records : Records) :
    Meets step (ConstantPrice address 681 336) ⟨fullHours october 337, records⟩ acts := by
  induction acts generalizing records with
  | nil => trivial
  | cons a acts ih =>
    obtain ⟨j, hj, rfl⟩ := hacts a List.mem_cons_self
    constructor
    · intro _ g hg _
      rw [groups_fullHours october hj, List.mem_singleton] at hg
      rw [hg, monthlyMinor_address]
      rfl
    · rw [step_fullHours october hj]
      exact ih (fun b hb => hacts b (List.mem_cons_of_mem _ hb)) _

theorem mem_inOrder {n : ℕ} {a : Act} (h : a ∈ inOrder n) :
    ∃ j < n + 1, a = .rollupHour (october + j) catalog := by
  obtain ⟨j, hj, rfl⟩ := List.mem_map.mp h
  have := List.mem_range.mp hj
  exact ⟨j + 1, by omega, rfl⟩

/-- In order, no later hour is charged when an hour is rated. -/
theorem meets_fits {n : ℕ} (hn : n ≤ 336) :
    Meets step (Fits address 681 336) ⟨fullHours october 337, Table.empty⟩ (inOrder n) := by
  induction n with
  | zero => trivial
  | succ n ih =>
    have hlast : inOrder (n + 1) = inOrder n ++ [.rollupHour (october + (n + 1)) catalog] := by
      simp [inOrder, List.range_succ]
    obtain ⟨records, hrun, hrated⟩ := run_inOrder (n := n) (by omega)
    rw [hlast, meets_append, hrun]
    refine ⟨ih (by omega), ?_, trivial⟩
    intro _ g hg _
    rw [groups_fullHours october (by omega), List.mem_singleton] at hg
    constructor
    · have huncapped : (rateInput catalog (october + (n + 1)) records g).uncapped =
          rateHour ⟨60, 336, 672, 0⟩ := by
        rw [hg, RateInput.uncapped, rateInput, addressGroup_count, monthlyMinor_address]
        rfl
      rw [huncapped, rateHour_address (by omega)]
      omega
    · left
      apply hrated.chargedIn_none
      intro hour hlow hhigh
      simp only [later, decide_eq_false_iff_not]
      omega

theorem capped_empty (r : Resource) (month price : ℕ) (events : List UsageEvent) :
    Capped r month price ⟨events, Table.empty⟩ := by
  constructor
  · exact Int.natCast_nonneg price
  · intro k u hmem
    cases hmem

/-- The same hours in order. -/
theorem month_capped_in_order :
    Capped address 681 336 (run step ⟨fullHours october 337, Table.empty⟩ (inOrder 336)) :=
  month_capped address (by decide) 681 336 _ (capped_empty address 681 336 _) (inOrder 336)
    (meets_constantPrice (fun _ ha => mem_inOrder ha) Table.empty) (meets_fits le_rfl)

/-- Rating the first hour of the month last takes it over its price. -/
theorem month_over_price :
    Meets step (ConstantPrice address 681 336) ⟨fullHours october 337, Table.empty⟩
        (inOrder 336 ++ [.rollupHour october catalog]) ∧
      ¬ Capped address 681 336 (run step ⟨fullHours october 337, Table.empty⟩
        (inOrder 336 ++ [.rollupHour october catalog])) := by
  constructor
  · apply meets_constantPrice
    intro a ha
    rcases List.mem_append.mp ha with ha | ha
    · exact mem_inOrder ha
    · refine ⟨0, by omega, ?_⟩
      rw [Nat.add_zero]
      exact List.mem_singleton.mp ha
  · obtain ⟨records, hrun, hrated⟩ := run_inOrder (n := 336) le_rfl
    have hearlier : chargedIn records address (earlier (october + 0)) = 0 := by
      apply hrated.chargedIn_none
      intro hour hlow hhigh
      rw [earlier_october (by omega) hlow hhigh 0 (by omega)]
      simp only [decide_eq_false_iff_not]
      omega
    have hmonth : chargedIn records address (fun h => monthOf h = 681) = 336 := by
      apply hrated.chargedIn_all
      intro hour hlow hhigh
      have := monthOf_october (j := hour - october) (by omega)
      rw [Nat.add_sub_cancel' hlow.le] at this
      simpa using this
    have hnew : records.find (address, october + 0) = none := by
      cases hfind : records.find (address, october + 0) with
      | none => rfl
      | some u =>
        have := (hrated.keys _ _ (Table.find_mem hfind)).2.1
        simp only at this
        omega
    have hresource : (addressGroup (october + 0)).resource = address := rfl
    have hstep := step_fullHours october (n := 337) (j := 0) (by omega) records
    rw [Nat.add_zero october] at hstep hnew hresource
    rw [run_append, hrun, run_cons, run_nil, hstep]
    intro hcap
    have hle := hcap.1
    have hamount := basisFor_address records 0
    rw [hearlier, rateHour_address (by omega), Nat.add_zero] at hamount
    have hfirst : monthOf october = 681 := by
      rw [← Nat.add_zero october]
      exact monthOf_october (by omega)
    simp only [chargedIn, rollupGroup, hresource, Table.sum_put, hnew, Option.elim_none,
      rated_amountMinor, hamount, hfirst, decide_true, and_true, if_true] at hle hmonth
    omega

end Prgd.Rating
