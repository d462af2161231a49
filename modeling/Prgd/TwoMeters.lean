import Prgd.Meters

/-!
# The two meters of servers

`tickFallback` bills a server by its row: a state that it has reached, a meter that was started,
and an owner who is a customer. The agent bills every VM that carries the tag of a server. The two
agree exactly where each VM that is listed belongs to a server that the rows bill in that minute.
-/
namespace Prgd.Meters
open Interleaving Rating

section
variable {w : World} {a : Act} {id : String} {minute : ℕ}

/-- The server-minutes that an act is the source of. -/
def Reports (id : String) (minute : ℕ) : Act → Prop
  | .tick _ now vms => minuteAligned now = minute ∧ ∃ vm ∈ vms, vm.server = some id
  | .deliver _ => False
  | .tickFallback now servers => minuteAligned now = minute ∧ ∃ s ∈ servers, s.id = id ∧ s.billable

def Act.isFallback : Act → Bool
  | .tickFallback _ _ => true
  | _ => false

/-- What the meters have sent is aligned, and a server-minute counts one. -/
structure Sound (w : World) : Prop where
  unique : Unique w.store
  store : ∀ e ∈ w.store, e.resource.resourceType = .server → e.quantity = 1
  sent : ∀ e ∈ w.sent, minuteAligned e.atTime = e.atTime ∧ e.cumulative = false ∧
    (e.resource.resourceType = .server → e.quantity = 1)

/-- The server-minute is in the store or on its way. -/
def Known (w : World) (id : String) (minute : ℕ) : Prop :=
  Holds w.store ⟨.server, id⟩ minute ∨ Holds w.sent ⟨.server, id⟩ minute

theorem usageOf_sent {now : ℕ} {netOut : Table ℕ ℕ} {vm : Vm} {e : UsageEvent}
    (h : e ∈ usageOf now netOut vm) : minuteAligned e.atTime = e.atTime ∧ e.cumulative = false ∧
      (e.resource.resourceType = .server → e.quantity = 1) := by
  unfold usageOf at h
  cases hserver : vm.server with
  | none =>
    rw [hserver] at h
    cases h
  | some id =>
    rw [hserver] at h
    rcases List.mem_cons.mp h with rfl | h
    · exact ⟨minuteAligned_minuteAligned now, rfl, fun _ => rfl⟩
    · split_ifs at h
      · rw [List.mem_singleton.mp h]
        exact ⟨minuteAligned_minuteAligned now, rfl, nofun⟩
      · cases h

theorem usages_sent {now : ℕ} {netOut : Table ℕ ℕ} {vms : List Vm} {e : UsageEvent}
    (h : e ∈ usages now netOut vms) : minuteAligned e.atTime = e.atTime ∧ e.cumulative = false ∧
      (e.resource.resourceType = .server → e.quantity = 1) := by
  induction vms generalizing netOut with
  | nil => cases h
  | cons vm vms ih =>
    rcases List.mem_append.mp h with h | h
    · exact usageOf_sent h
    · exact ih h

/-- A tick reports every VM with the tag of a server. -/
theorem holds_usages {now : ℕ} {netOut : Table ℕ ℕ} {vms : List Vm} :
    Holds (usages now netOut vms) ⟨.server, id⟩ minute ↔
      minuteAligned now = minute ∧ ∃ vm ∈ vms, vm.server = some id := by
  induction vms generalizing netOut with
  | nil => simp [usages]
  | cons vm vms ih =>
    have hone : Holds (usageOf now netOut vm) ⟨.server, id⟩ minute ↔
        minuteAligned now = minute ∧ vm.server = some id := by
      unfold usageOf
      cases vm.server with
      | none => simp
      | some id' =>
        dsimp only
        split_ifs <;> simp [serverMinute, bandwidth, and_comm]
    rw [usages, holds_append, hone, ih]
    simp only [List.mem_cons, exists_eq_or_imp, ← and_or_left]

theorem holds_fallbackEvents {now : ℕ} {servers : List Server} :
    Holds (fallbackEvents now servers) ⟨.server, id⟩ minute ↔
      minuteAligned now = minute ∧ ∃ s ∈ servers, s.id = id ∧ s.billable := by
  simp only [fallbackEvents, Holds, List.mem_append, List.mem_map, List.mem_filter]
  constructor
  · rintro ⟨e, (⟨s, ⟨hs, hbillable⟩, rfl⟩ | ⟨s, -, rfl⟩) | ⟨s, -, rfl⟩, hresource, hminute⟩
    · exact ⟨hminute, s, hs, congrArg Resource.resourceId hresource, hbillable⟩
    · cases congrArg Resource.resourceType hresource
    · cases congrArg Resource.resourceType hresource
  · rintro ⟨hminute, s, hs, rfl, hbillable⟩
    exact ⟨_, .inl (.inl ⟨s, ⟨hs, hbillable⟩, rfl⟩), rfl, hminute⟩

theorem sound_step (h : Sound w) (a : Act) : Sound (step w a) := by
  cases a with
  | tick host now vms =>
    refine ⟨h.unique, h.store, ?_⟩
    intro e he
    rcases List.mem_append.mp he with he | he
    · exact h.sent e he
    · exact usages_sent he
  | deliver i =>
    simp only [step]
    cases hsent : w.sent[i]? with
    | none => exact h
    | some e =>
      have he := h.sent e (List.mem_of_getElem? hsent)
      simp only
      rw [ingest_one he.1 he.2.1]
      refine ⟨unique_insertEvent h.unique e, ?_, fun f hf => h.sent f (List.mem_of_mem_eraseIdx hf)⟩
      intro f hf
      have hmem : f ∈ w.store ∨ f ∈ [e] := mem_insertAll hf
      rcases hmem with hf | hf
      · exact h.store f hf
      · rw [List.mem_singleton.mp hf]
        exact he.2.2
  | tickFallback now servers =>
    refine ⟨unique_insertAll h.unique _, ?_, h.sent⟩
    intro f hf
    rcases mem_insertAll hf with hf | hf
    · exact h.store f hf
    · intro _
      simp only [fallbackEvents, List.mem_append, List.mem_map] at hf
      rcases hf with (⟨s, -, rfl⟩ | ⟨s, -, rfl⟩) | ⟨s, -, rfl⟩ <;> rfl

theorem known_step (h : Sound w) (a : Act) :
    Known (step w a) id minute ↔ Known w id minute ∨ Reports id minute a := by
  cases a with
  | tick host now vms =>
    simp only [Known, step, Reports]
    rw [holds_append, holds_usages, or_assoc]
  | deliver i =>
    simp only [step, Reports, or_false]
    cases hsent : w.sent[i]? with
    | none => exact Iff.rfl
    | some e =>
      have he := h.sent e (List.mem_of_getElem? hsent)
      simp only [Known]
      rw [ingest_one he.1 he.2.1, holds_insertEvent, ← holds_perm (delivered_perm hsent), holds_cons,
        or_assoc]
  | tickFallback now servers =>
    simp only [Known, step, Reports]
    rw [holds_insertAll, holds_fallbackEvents, or_right_comm]

theorem known_run (h : Sound w) (acts : List Act) :
    Known (run step w acts) id minute ↔ Known w id minute ∨ ∃ a ∈ acts, Reports id minute a := by
  induction acts generalizing w with
  | nil => simp
  | cons a acts ih =>
    rw [run_cons, ih (sound_step h a), known_step h, or_assoc]
    simp [List.mem_cons]

theorem sound_start : Sound start := ⟨List.Pairwise.nil, fun _ => nofun, fun _ => nofun⟩

/-- The agents have nothing on its way without ticks. -/
theorem sent_fallbacks (acts : List Act) : (run step start (acts.filter Act.isFallback)).sent = [] := by
  have hstep : ∀ (as : List Act) (w : World), (∀ a ∈ as, a.isFallback = true) →
      (run step w as).sent = w.sent := by
    intro as
    induction as with
    | nil => exact fun _ _ => rfl
    | cons a as ih =>
      intro w has
      rw [run_cons, ih _ fun b hb => has b (List.mem_cons_of_mem a hb)]
      have ha := has a (by simp)
      cases a with
      | tickFallback now servers => rfl
      | tick host now vms | deliver i => cases ha
  exact hstep _ start fun a ha => (List.mem_filter.mp ha).2

/-- A server-minute is stored once, and counts one. -/
theorem stored_server (id : String) (minute : ℕ) (h : Sound w) :
    stored w ⟨.server, id⟩ minute = 1 ∧ Holds w.store ⟨.server, id⟩ minute ∨
    stored w ⟨.server, id⟩ minute = 0 ∧ ¬ Holds w.store ⟨.server, id⟩ minute := by
  have hall : ∀ events : List UsageEvent, Unique events →
      (∀ e ∈ events, e.resource.resourceType = .server → e.quantity = 1) →
      (((events.filter fun e => e.resource = ⟨.server, id⟩ ∧ e.atTime = minute).map
          UsageEvent.quantity).sum = 1 ∧ Holds events ⟨.server, id⟩ minute) ∨
        (((events.filter fun e => e.resource = ⟨.server, id⟩ ∧ e.atTime = minute).map
          UsageEvent.quantity).sum = 0 ∧ ¬ Holds events ⟨.server, id⟩ minute) := by
    intro events
    induction events with
    | nil => exact fun _ _ => .inr ⟨rfl, holds_nil⟩
    | cons e events ih =>
      intro hunique hone
      obtain ⟨hnew, hrest⟩ := List.pairwise_cons.mp hunique
      have htail := ih hrest fun f hf => hone f (List.mem_cons_of_mem e hf)
      by_cases he : e.resource = ⟨.server, id⟩ ∧ e.atTime = minute
      · have hnot : ¬ Holds events ⟨.server, id⟩ minute := by
          rintro ⟨f, hf, hresource, hminute⟩
          rcases hnew f hf with hne | hne
          · exact hne (he.1.trans hresource.symm)
          · exact hne (he.2.trans hminute.symm)
        have hzero := (htail.resolve_left fun h => hnot h.2).1
        have hquantity := hone e (by simp) (by rw [he.1])
        refine .inl ⟨?_, holds_cons.mpr (.inl he)⟩
        rw [List.filter_cons_of_pos (by simpa using he), List.map_cons, List.sum_cons, hzero, hquantity,
          add_zero]
      · rw [List.filter_cons_of_neg (by simpa using he), holds_cons]
        simpa [he] using htail
  exact hall w.store h.unique h.store

/-- Every VM that is listed belongs to a server that `tickFallback` bills in the same minute. -/
def Backed (acts : List Act) : Prop :=
  ∀ host now vms, .tick host now vms ∈ acts → ∀ vm ∈ vms, ∀ id, vm.server = some id →
    ∃ now' servers, .tickFallback now' servers ∈ acts ∧ minuteAligned now' = minuteAligned now ∧
      ∃ s ∈ servers, s.id = id ∧ s.billable

theorem backed_iff (acts : List Act) : Backed acts ↔ ∀ id minute, (∃ a ∈ acts, Reports id minute a) →
    ∃ a ∈ acts.filter Act.isFallback, Reports id minute a := by
  constructor
  · rintro h id minute ⟨a, ha, hreports⟩
    cases a with
    | tick host now vms =>
      obtain ⟨rfl, vm, hvm, hserver⟩ := hreports
      obtain ⟨now', servers, hfallback, hminute, hs⟩ := h host now vms ha vm hvm id hserver
      exact ⟨_, List.mem_filter.mpr ⟨hfallback, rfl⟩, hminute, hs⟩
    | deliver i => cases hreports
    | tickFallback now servers => exact ⟨_, List.mem_filter.mpr ⟨ha, rfl⟩, hreports⟩
  · intro h host now vms ha vm hvm id hserver
    obtain ⟨a, hfallback, hreports⟩ := h id (minuteAligned now) ⟨_, ha, rfl, vm, hvm, hserver⟩
    obtain ⟨hmem, hkind⟩ := List.mem_filter.mp hfallback
    cases a with
    | tickFallback now' servers => exact ⟨now', servers, hmem, hreports⟩
    | tick host now vms | deliver i => cases hkind

/-- What a run has stored when everything has arrived. -/
theorem holds_run (id : String) (minute : ℕ) (acts : List Act) (h : (run step start acts).sent = []) :
    Holds (run step start acts).store ⟨.server, id⟩ minute ↔ ∃ a ∈ acts, Reports id minute a := by
  have hknown : Known (run step start acts) id minute ↔
      Known start id minute ∨ ∃ a ∈ acts, Reports id minute a := known_run sound_start acts
  have hstart : ¬ Known start id minute := fun hk => hk.elim holds_nil holds_nil
  rw [Known, h, or_iff_left holds_nil, or_iff_right hstart] at hknown
  exact hknown

end

/-- For every run of ticks of any agents, deliveries in any order and ticks of the control plane,
with everything delivered at its end: the server-minutes that are stored are those that
`tickFallback` alone stores, if and only if every VM that an agent lists belongs to a server that
`tickFallback` bills in the same minute. `tickFallback` alone never bills a node of a managed
product, nor a server whose meter was not started. -/
theorem two_meters_agree (acts : List Act) (h : (run step start acts).sent = []) :
    ((∀ id minute, stored (run step start acts) ⟨.server, id⟩ minute =
        stored (run step start (acts.filter Act.isFallback)) ⟨.server, id⟩ minute) ↔ Backed acts) ∧
      ∀ id minute, stored (run step start (acts.filter Act.isFallback)) ⟨.server, id⟩ minute ≠ 0 →
        ∃ now servers, .tickFallback now servers ∈ acts ∧ ∃ s ∈ servers, s.id = id ∧
          meteredStatus s.status ∧ s.meteredSince ≠ none ∧ s.own := by
  have hall : ∀ as, Sound (run step start as) := fun as =>
    run_invariant (I := Sound) (fun _ a hw => sound_step hw a) sound_start as
  have hboth := fun id minute => holds_run id minute acts h
  have halone := fun id minute =>
    holds_run id minute (acts.filter Act.isFallback) (sent_fallbacks acts)
  have hsub : ∀ id minute, (∃ a ∈ acts.filter Act.isFallback, Reports id minute a) →
      ∃ a ∈ acts, Reports id minute a := by
    rintro id minute ⟨a, ha, hreports⟩
    exact ⟨a, (List.mem_filter.mp ha).1, hreports⟩
  refine ⟨?_, ?_⟩
  · rw [backed_iff]
    refine forall₂_congr fun id minute => ?_
    rcases stored_server id minute (hall acts) with ⟨hs, hh⟩ | ⟨hs, hh⟩ <;>
      rcases stored_server id minute (hall (acts.filter Act.isFallback)) with
        ⟨hs', hh'⟩ | ⟨hs', hh'⟩ <;> rw [hs, hs'] <;> rw [hboth id minute] at hh <;> rw [halone id minute] at hh'
    · exact iff_of_true rfl fun _ => hh'
    · exact iff_of_false one_ne_zero fun himp => hh' (himp hh)
    · exact (hh (hsub id minute hh')).elim
    · exact iff_of_true rfl fun hsome => (hh hsome).elim
  · intro id minute hne
    rcases stored_server id minute (hall (acts.filter Act.isFallback)) with ⟨-, hh⟩ | ⟨hs, -⟩
    · obtain ⟨a, ha, hreports⟩ := (halone id minute).mp hh
      obtain ⟨hmem, hkind⟩ := List.mem_filter.mp ha
      cases a with
      | tickFallback now servers =>
        obtain ⟨-, s, hs, hid, hbillable⟩ := hreports
        have hbill := of_decide_eq_true hbillable
        exact ⟨now, servers, hmem, s, hs, hid, hbill.1, Option.isSome_iff_ne_none.mp hbill.2.1, hbill.2.2⟩
      | tick host now vms | deliver i => cases hkind
    · exact (hne hs).elim

/-! ## Where they differ -/

/-- The VM of a server, with the tags that it was made with. -/
def vmOf (vmid : ℕ) (id : Text) (netOut : ℕ) : Vm where
  vmid := vmid
  tags := ['p', 'r', 'g', 'd', ';', 's', 'e', 'r', 'v', 'e', 'r', '-'] ++ id ++
    [';', 'p', 'r', 'o', 'j', 'e', 'c', 't', '-', 'p']
  netOut := netOut

def customer : Server := { id := "a", projectId := "p", status := .active, meteredSince := some 0 }

/-- A node of a load balancer. -/
def node : Server := { customer with managedBy := some ['l', 'b', ':', '1'] }

/-- A server whose VM boots. -/
def booting : Server := { customer with status := .provisioning, meteredSince := none }

/-- Both meters report in one minute. -/
def oneMinute (s : Server) : List Act :=
  [.tick 0 600000 [vmOf 100 ['a'] 0], .deliver 0, .tickFallback 630000 [s]]

theorem two_meters_agree_customer :
    (stored (run step start (oneMinute customer)) ⟨.server, "a"⟩ 600000 = 1) ∧
      ((∀ id minute, stored (run step start (oneMinute customer)) ⟨.server, id⟩ minute =
        stored (run step start ((oneMinute customer).filter Act.isFallback)) ⟨.server, id⟩ minute) ↔
          Backed (oneMinute customer)) :=
  ⟨by decide +kernel, (two_meters_agree (oneMinute customer) (by decide +kernel)).1⟩

/-- A node and a server that boots are billed by the agent alone. -/
theorem two_meters_differ :
    (stored (run step start (oneMinute node)) ⟨.server, "a"⟩ 600000 = 1 ∧
        stored (run step start ((oneMinute node).filter Act.isFallback)) ⟨.server, "a"⟩ 600000 = 0) ∧
      stored (run step start (oneMinute booting)) ⟨.server, "a"⟩ 600000 = 1 ∧
        stored (run step start ((oneMinute booting).filter Act.isFallback)) ⟨.server, "a"⟩ 600000 = 0 := by
  decide +kernel

end Prgd.Meters
