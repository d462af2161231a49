import Mathlib.Algebra.BigOperators.Group.List.Basic
import Mathlib.Algebra.Order.BigOperators.Group.List
import Mathlib.Data.Rat.Lemmas
import Prgd.TwoMeters

/-!
# The bytes that a server sends

A tick moves the baseline of a VM up to its counter and publishes what lies between. The store
takes the first of these differences in each clock minute and drops the others, so bytes are lost
exactly where the counter grows before two ticks of one minute.
-/
namespace Prgd.Meters
open Interleaving Rating

/-! ## Readings of a counter -/

/-- What a tick adds to the bytes of a VM. -/
def growth (last counter : ℕ) : ℕ := if counter < last then counter else counter - last

/-- The differences that are published, after a first reading. -/
def differences (last : ℕ) : List (ℕ × ℕ) → List (ℕ × ℕ)
  | [] => []
  | (minute, counter) :: rs =>
      (if 0 < growth last counter then [(minute, growth last counter)] else []) ++
        differences counter rs

/-- The same, from the first reading on. -/
def published : List (ℕ × ℕ) → List (ℕ × ℕ)
  | [] => []
  | r :: rs => differences r.2 rs

/-- The minutes of the readings that are larger than the one before. -/
def grown : List (ℕ × ℕ) → List ℕ
  | r :: r' :: rs => (if r.2 < r'.2 then [r'.1] else []) ++ grown (r' :: rs)
  | _ => []

/-- The bytes that a VM really sends between its readings: its counter has counted them, or it has
booted in between and counts from zero. -/
inductive Sends : List (ℕ × ℕ) → List ℕ → Prop
  | first (r : ℕ × ℕ) : Sends [r] []
  | counted {r r' : ℕ × ℕ} {rs : List (ℕ × ℕ)} {bytes : ℕ} {more : List ℕ}
      (h : r'.2 = r.2 + bytes) (hrest : Sends (r' :: rs) more) : Sends (r :: r' :: rs) (bytes :: more)
  | booted {r r' : ℕ × ℕ} {rs : List (ℕ × ℕ)} {bytes : ℕ} {more : List ℕ} (h : r'.2 ≤ bytes)
      (hrest : Sends (r' :: rs) more) : Sends (r :: r' :: rs) (bytes :: more)

theorem sum_differences {r last : ℕ × ℕ} {rs : List (ℕ × ℕ)}
    (h : (r :: rs).Pairwise fun a b => a.2 ≤ b.2) (hlast : (r :: rs).getLast? = some last) :
    ((differences r.2 rs).map Prod.snd).sum = last.2 - r.2 ∧ r.2 ≤ last.2 := by
  induction rs generalizing r with
  | nil =>
    cases hlast
    simp [differences]
  | cons r' rs ih =>
    obtain ⟨hr, hrest⟩ := List.pairwise_cons.mp h
    have hle : r.2 ≤ r'.2 := hr r' (by simp)
    have hsum := ih hrest (by simpa using hlast)
    have hgrowth : growth r.2 r'.2 = r'.2 - r.2 := if_neg (by omega)
    have hhead : ((if 0 < growth r.2 r'.2 then [(r'.1, growth r.2 r'.2)] else []).map
        Prod.snd).sum = r'.2 - r.2 := by
      rw [hgrowth]
      split_ifs with hpos
      · simp
      · simp only [List.map_nil, List.sum_nil]
        omega
    rw [differences, List.map_append, List.sum_append, hhead, hsum.1]
    omega

theorem minutes_differences {r : ℕ × ℕ} {rs : List (ℕ × ℕ)}
    (h : (r :: rs).Pairwise fun a b => a.2 ≤ b.2) :
    (differences r.2 rs).map Prod.fst = grown (r :: rs) := by
  induction rs generalizing r with
  | nil => rfl
  | cons r' rs ih =>
    obtain ⟨hr, hrest⟩ := List.pairwise_cons.mp h
    have hle : r.2 ≤ r'.2 := hr r' (by simp)
    have hgrowth : growth r.2 r'.2 = r'.2 - r.2 := if_neg (by omega)
    rw [differences, grown, List.map_append, ih hrest, hgrowth]
    congr 1
    split_ifs with hpos hlt hlt
    · rfl
    · omega
    · omega
    · rfl

theorem sum_le_sends {r : ℕ × ℕ} {rs : List (ℕ × ℕ)} {bytes : List ℕ} (h : Sends (r :: rs) bytes) :
    ((differences r.2 rs).map Prod.snd).sum ≤ bytes.sum := by
  induction rs generalizing r bytes with
  | nil => simp [differences]
  | cons r' rs ih =>
    have hhead : ∀ b, growth r.2 r'.2 ≤ b → ∀ more, Sends (r' :: rs) more →
        ((differences r.2 (r' :: rs)).map Prod.snd).sum ≤ (b :: more).sum := by
      intro b hb more hmore
      have hrest := ih hmore
      rw [differences, List.map_append, List.sum_append, List.sum_cons]
      split_ifs with hpos
      · simp only [List.map_cons, List.map_nil, List.sum_cons, List.sum_nil]
        omega
      · simp only [List.map_nil, List.sum_nil]
        omega
    cases h with
    | counted hcounted hrest =>
      refine hhead _ ?_ _ hrest
      unfold growth
      split_ifs <;> omega
    | booted hbooted hrest =>
      refine hhead _ ?_ _ hrest
      unfold growth
      split_ifs <;> omega

theorem differences_pos {last : ℕ} {rs : List (ℕ × ℕ)} {d : ℕ × ℕ} (h : d ∈ differences last rs) :
    0 < d.2 := by
  induction rs generalizing last with
  | nil => cases h
  | cons r rs ih =>
    rcases List.mem_append.mp h with h | h
    · split_ifs at h with hpos
      · rw [List.mem_singleton.mp h]
        exact hpos
      · cases h
    · exact ih h

/-! ## Ticks about one VM -/

/-- What a tick of the host reads about a VM: nothing where it is not listed. -/
def reading (host v : ℕ) : Act → Option (Option (ℕ × ℕ))
  | .tick h now vms =>
      if h = host then
        some ((vms.find? fun vm => vm.vmid = v).map fun vm => (minuteAligned now, vm.netOut))
      else none
  | _ => none

def ticks (host v : ℕ) (acts : List Act) : List (Option (ℕ × ℕ)) := acts.filterMap (reading host v)

/-- The VM is listed at consecutive ticks of its host, with these readings. -/
def Listed (host v : ℕ) (acts : List Act) (readings : List (ℕ × ℕ)) : Prop :=
  ∃ before after, ticks host v acts =
    List.replicate before none ++ readings.map some ++ List.replicate after none

def about (v : ℕ) (s : String) (vm : Vm) : Bool := vm.vmid = v ∨ vm.server = some s

/-- The VM is the only one with its id on the host, and the only one with the tag of the server. -/
def Alone (host v : ℕ) (s : String) : Act → Prop
  | .tick h _ vms =>
      if h = host then
        vms.filter (about v s) = [] ∨
          ∃ vm, vms.filter (about v s) = [vm] ∧ vm.vmid = v ∧ vm.server = some s
      else ∀ vm ∈ vms, vm.server ≠ some s
  | _ => True

/-- What a tick publishes when the tick before left this baseline. -/
def metered (last : Option ℕ) (r : Option (ℕ × ℕ)) : List (ℕ × ℕ) :=
  match last, r with
  | some last, some r => if 0 < growth last r.2 then [(r.1, growth last r.2)] else []
  | _, _ => []

def meteredAll : Option ℕ → List (Option (ℕ × ℕ)) → List (ℕ × ℕ)
  | _, [] => []
  | last, r :: rs => metered last r ++ meteredAll (r.map Prod.snd) rs

theorem meteredAll_none (last : Option ℕ) (n : ℕ) :
    meteredAll last (List.replicate n none) = [] := by
  induction n generalizing last with
  | zero => rfl
  | succ n ih => rw [List.replicate_succ, meteredAll, Option.map_none, ih, List.append_nil, metered.eq_def]; cases last <;> rfl

theorem meteredAll_some (last : ℕ) (rs : List (ℕ × ℕ)) (n : ℕ) :
    meteredAll (some last) (rs.map some ++ List.replicate n none) = differences last rs := by
  induction rs generalizing last with
  | nil => exact meteredAll_none (some last) n
  | cons r rs ih => rw [List.map_cons, List.cons_append, meteredAll, Option.map_some, ih, differences, metered]

/-- Ticks that do not list the VM publish nothing about it. -/
theorem meteredAll_listed (before after : ℕ) (rs : List (ℕ × ℕ)) :
    meteredAll none (List.replicate before none ++ rs.map some ++ List.replicate after none) =
      published rs := by
  induction before with
  | zero =>
    cases rs with
    | nil => exact meteredAll_none none after
    | cons r rs => exact meteredAll_some r.2 rs after
  | succ n ih => exact ih

/-! ## What is published and what is stored -/

/-- The bandwidth of a server among these events, with its minutes. -/
def quantities (s : String) (events : List UsageEvent) : List (ℕ × ℚ) :=
  (events.filter fun e => e.resource = ⟨.bandwidth, s⟩).map fun e => (e.atTime, e.quantity)

/-- The outbound bytes that the store bills a server. -/
def billed (w : World) (s : String) : ℚ := ((quantities s w.store).map Prod.snd).sum

def exactly (d : ℕ × ℕ) : ℕ × ℚ := (d.1, d.2)

section
variable {v now host : ℕ} {s : String} {netOut : Table ℕ ℕ} {vms : List Vm} {vm : Vm}

theorem quantities_append (events more : List UsageEvent) :
    quantities s (events ++ more) = quantities s events ++ quantities s more := by
  rw [quantities, List.filter_append, List.map_append]
  rfl

theorem quantities_cons (e : UsageEvent) (events : List UsageEvent) :
    quantities s (e :: events) = quantities s [e] ++ quantities s events :=
  quantities_append [e] events

theorem quantities_perm {events more : List UsageEvent} (h : events.Perm more) :
    (quantities s events).Perm (quantities s more) :=
  (h.filter _).map _

theorem quantities_usageOf_of_ne (h : vm.server ≠ some s) :
    quantities s (usageOf now netOut vm) = [] := by
  unfold usageOf
  cases hserver : vm.server with
  | none => rfl
  | some id =>
    have hne : id ≠ s := fun heq => h (hserver.trans (congrArg some heq))
    dsimp only
    split_ifs <;> simp [quantities, serverMinute, bandwidth, hne]

theorem quantities_usageOf (hvmid : vm.vmid = v) (h : vm.server = some s) :
    quantities s (usageOf now netOut vm) =
      (metered (netOut.find v) (some (minuteAligned now, vm.netOut))).map exactly := by
  unfold usageOf netOutDelta metered growth
  rw [h, hvmid]
  cases netOut.find v with
  | none => simp [quantities, serverMinute]
  | some last =>
    dsimp only
    split_ifs <;> simp [quantities, serverMinute, bandwidth, exactly]

theorem quantities_usages_of_ne (h : ∀ vm ∈ vms, vm.server ≠ some s) :
    quantities s (usages now netOut vms) = [] := by
  induction vms generalizing netOut with
  | nil => rfl
  | cons vm vms ih =>
    rw [usages, quantities_append, quantities_usageOf_of_ne (h vm (by simp)),
      ih fun vm' hvm => h vm' (List.mem_cons_of_mem vm hvm), List.append_nil]

theorem usages_append (netOut : Table ℕ ℕ) (vms vms' : List Vm) :
    usages now netOut (vms ++ vms') =
      usages now netOut vms ++ usages now (vms.foldl baseline netOut) vms' := by
  induction vms generalizing netOut with
  | nil => rfl
  | cons vm vms ih => rw [List.cons_append, usages, ih, usages, List.append_assoc, List.foldl_cons]

theorem find_baseline_of_ne (h : vm.vmid ≠ v) : (baseline netOut vm).find v = netOut.find v := by
  unfold baseline
  split_ifs
  · exact Table.find_put_of_ne netOut (Ne.symm h) vm.netOut
  · rfl

theorem find_foldl_baseline (h : ∀ vm ∈ vms, vm.vmid ≠ v) :
    (vms.foldl baseline netOut).find v = netOut.find v := by
  induction vms generalizing netOut with
  | nil => rfl
  | cons vm vms ih =>
    rw [List.foldl_cons, ih fun vm' hvm => h vm' (List.mem_cons_of_mem vm hvm),
      find_baseline_of_ne (h vm (by simp))]

/-- One tick of the host: what it publishes about the server, and the baseline it leaves. -/
theorem tick_alone {r : Option (ℕ × ℕ)} (h : Alone host v s (.tick host now vms))
    (hr : reading host v (.tick host now vms) = some r) :
    quantities s (usages now netOut vms) = (metered (netOut.find v) r).map exactly ∧
      (baselines netOut vms).find v = r.map Prod.snd := by
  rw [reading, if_pos rfl, Option.some.injEq] at hr
  subst hr
  rw [Alone, if_pos rfl] at h
  rcases h with hnone | ⟨vm, hone, hvmid, hserver⟩
  · have hothers : ∀ vm ∈ vms, vm.vmid ≠ v ∧ vm.server ≠ some s := by
      simpa [List.filter_eq_nil_iff, about] using hnone
    have hfind : vms.find? (fun vm => vm.vmid = v) = none := by
      simpa [List.find?_eq_none] using fun vm hvm => (hothers vm hvm).1
    rw [hfind, quantities_usages_of_ne fun vm hvm => (hothers vm hvm).2]
    refine ⟨by cases netOut.find v <;> rfl, Option.eq_none_iff_forall_ne_some.mpr ?_⟩
    intro counter hcounter
    obtain ⟨vm, hvm, hlisted⟩ := List.any_eq_true.mp (Table.find_filter.mp hcounter).2
    exact (hothers vm hvm).1 (of_decide_eq_true hlisted).2
  · obtain ⟨before, after, rfl, hbefore, -, hafter⟩ := List.filter_eq_cons_iff.mp hone
    have hpre : ∀ vm ∈ before, vm.vmid ≠ v ∧ vm.server ≠ some s := by simpa [about] using hbefore
    have hpost : ∀ vm ∈ after, vm.vmid ≠ v ∧ vm.server ≠ some s := by
      simpa [List.filter_eq_nil_iff, about] using hafter
    have hfind : (before ++ vm :: after).find? (fun vm => vm.vmid = v) = some vm := by
      rw [List.find?_append, List.find?_eq_none.mpr fun vm' hvm => by simpa using (hpre vm' hvm).1]
      simp [hvmid]
    have hlast : (before.foldl baseline netOut).find v = netOut.find v :=
      find_foldl_baseline fun vm' hvm => (hpre vm' hvm).1
    rw [hfind, Option.map_some, Option.map_some]
    constructor
    · rw [usages_append, usages, quantities_append, quantities_append,
        quantities_usages_of_ne fun vm' hvm => (hpre vm' hvm).2,
        quantities_usages_of_ne fun vm' hvm => (hpost vm' hvm).2, quantities_usageOf hvmid hserver,
        hlast, List.nil_append, List.append_nil]
    · have htemplate : vm.template = false := by
        by_contra htrue
        simp [Vm.server, htrue] at hserver
      refine Table.find_filter.mpr ⟨?_, List.any_eq_true.mpr ⟨vm, by simp, by simp [htemplate, hvmid]⟩⟩
      rw [List.foldl_append, List.foldl_cons, find_foldl_baseline fun vm' hvm => (hpost vm' hvm).1,
        baseline, if_pos (by rw [hserver]; rfl), hvmid, Table.find_put_self]

/-! ## What becomes of the bytes -/

/-- What was published is stored, on its way, or lost: dropped in a minute that the store had. -/
def Balanced (w : World) (s : String) (published : List (ℕ × ℕ)) : Prop :=
  ∃ lost, (published.map exactly).Perm (quantities s w.store ++ lost ++ quantities s w.sent) ∧
    ∀ d ∈ lost, d.1 ∈ (quantities s w.store).map Prod.fst

theorem mem_minutes_quantities {events : List UsageEvent} {minute : ℕ} :
    minute ∈ (quantities s events).map Prod.fst ↔ Holds events ⟨.bandwidth, s⟩ minute := by
  simp only [quantities, Holds, List.mem_map, List.mem_filter, decide_eq_true_eq]
  constructor
  · rintro ⟨-, ⟨e, ⟨he, hresource⟩, rfl⟩, rfl⟩
    exact ⟨e, he, hresource, rfl⟩
  · rintro ⟨e, he, hresource, rfl⟩
    exact ⟨_, ⟨e, ⟨he, hresource⟩, rfl⟩, rfl⟩

theorem nodup_minutes_quantities {events : List UsageEvent} (h : Unique events) :
    ((quantities s events).map Prod.fst).Nodup := by
  induction events with
  | nil => exact List.nodup_nil
  | cons e events ih =>
    obtain ⟨hnew, hrest⟩ := List.pairwise_cons.mp h
    rw [quantities_cons, List.map_append]
    by_cases he : e.resource = ⟨.bandwidth, s⟩
    · have hone : quantities s [e] = [(e.atTime, e.quantity)] := by simp [quantities, he]
      rw [hone]
      refine List.nodup_cons.mpr ⟨?_, ih hrest⟩
      intro hmem
      obtain ⟨f, hf, hresource, hminute⟩ := mem_minutes_quantities.mp hmem
      rcases hnew f hf with hne | hne
      · exact hne (he.trans hresource.symm)
      · exact hne hminute.symm
    · have hnone : quantities s [e] = [] := by simp [quantities, he]
      rw [hnone]
      exact ih hrest

theorem quantities_insertAll {events more : List UsageEvent} (h : quantities s more = []) :
    quantities s (more.foldl insertEvent events) = quantities s events := by
  induction more generalizing events with
  | nil => rfl
  | cons e more ih =>
    rw [quantities_cons] at h
    obtain ⟨he, hmore⟩ := List.append_eq_nil_iff.mp h
    rw [List.foldl_cons, ih hmore]
    rcases insertEvent_cases events e with ⟨heq, -⟩ | ⟨heq, -⟩
    · rw [heq]
    · rw [heq, quantities_append, he, List.append_nil]

theorem quantities_fallbackEvents (now : ℕ) (servers : List Server) :
    quantities s (fallbackEvents now servers) = [] := by
  have hother : ∀ e ∈ fallbackEvents now servers, e.resource ≠ ⟨.bandwidth, s⟩ := by
    intro e he
    simp only [fallbackEvents, List.mem_append, List.mem_map] at he
    rcases he with (⟨t, -, rfl⟩ | ⟨t, -, rfl⟩) | ⟨t, -, rfl⟩ <;> simp [fallbackEvent]
  rw [quantities, List.filter_eq_nil_iff.mpr (by simpa using hother), List.map_nil]

section
variable {w : World} {published fresh : List (ℕ × ℕ)}

/-- An event that arrives is stored, or was too late for its minute. -/
theorem balanced_deliver (h : Balanced w s published) (hsound : Sound w) (i : ℕ) :
    Balanced (step w (.deliver i)) s published := by
  simp only [step]
  cases hsent : w.sent[i]? with
  | none => exact h
  | some e =>
    have he := hsound.sent e (List.mem_of_getElem? hsent)
    obtain ⟨lost, hperm, hlost⟩ := h
    have harrive : (quantities s w.sent).Perm (quantities s [e] ++ quantities s (w.sent.eraseIdx i)) := by
      rw [← quantities_cons]
      exact quantities_perm (delivered_perm hsent).symm
    have hall := hperm.trans (List.Perm.append_left (quantities s w.store ++ lost) harrive)
    simp only
    rw [ingest_one he.1 he.2.1]
    rcases insertEvent_cases w.store e with ⟨heq, hheld⟩ | ⟨heq, -⟩
    · refine ⟨lost ++ quantities s [e], ?_, ?_⟩
      · simpa only [heq, List.append_assoc] using hall
      · intro d hd
        simp only [heq]
        rcases List.mem_append.mp hd with hd | hd
        · exact hlost d hd
        · obtain ⟨f, hf, hresource, hminute⟩ :=
            mem_minutes_quantities.mp (List.mem_map_of_mem hd)
          rw [List.mem_singleton.mp hf] at hresource hminute
          exact mem_minutes_quantities.mpr (hminute ▸ hresource ▸ hheld)
    · refine ⟨lost, ?_, ?_⟩
      · simp only [heq, quantities_append]
        refine hall.trans ?_
        simp only [← List.append_assoc]
        refine List.Perm.append_right _ ?_
        simp only [List.append_assoc]
        exact List.Perm.append_left _ List.perm_append_comm
      · intro d hd
        simp only [heq, quantities_append, List.map_append]
        exact List.mem_append_left _ (hlost d hd)

theorem balanced_tick (h : Balanced w s published) {host' : ℕ}
    (hfresh : quantities s (usages now (w.netOut host') vms) = fresh.map exactly) :
    Balanced (step w (.tick host' now vms)) s (published ++ fresh) := by
  obtain ⟨lost, hperm, hlost⟩ := h
  refine ⟨lost, ?_, hlost⟩
  simp only [step, List.map_append]
  rw [quantities_append, hfresh, ← List.append_assoc]
  exact hperm.append_right _

theorem balanced_run (hsound : Sound w) (h : Balanced w s published) (acts : List Act)
    (halone : ∀ a ∈ acts, Alone host v s a) :
    Balanced (run step w acts) s
      (published ++ meteredAll ((w.netOut host).find v) (ticks host v acts)) := by
  induction acts generalizing w published with
  | nil =>
    rw [show ticks host v [] = [] from rfl, meteredAll, List.append_nil]
    exact h
  | cons a acts ih =>
    have hrest : ∀ a ∈ acts, Alone host v s a := fun b hb => halone b (List.mem_cons_of_mem a hb)
    have hnext := sound_step hsound a
    rw [run_cons]
    cases a with
    | tick host' now vms =>
      by_cases hhost : host' = host
      · subst hhost
        have hone := halone (.tick host' now vms) (by simp)
        have hread : reading host' v (.tick host' now vms) = some _ := if_pos rfl
        obtain ⟨hquantities, hbaseline⟩ := tick_alone hone hread
        have hgoal := ih hnext (balanced_tick h hquantities) hrest
        simp only [step, Function.update_self, hbaseline] at hgoal ⊢
        rw [ticks, List.filterMap_cons_some hread, meteredAll, ← List.append_assoc]
        exact hgoal
      · have hone := halone (.tick host' now vms) (by simp)
        rw [Alone, if_neg hhost] at hone
        have hquantities : quantities s (usages now (w.netOut host') vms) = [].map exactly :=
          quantities_usages_of_ne hone
        have hgoal := ih hnext (balanced_tick h hquantities) hrest
        have hread : reading host v (.tick host' now vms) = none := if_neg hhost
        simp only [step, Function.update_of_ne (Ne.symm hhost), List.append_nil] at hgoal ⊢
        rw [ticks, List.filterMap_cons_none hread]
        exact hgoal
    | deliver i =>
      have hbaseline : (step w (.deliver i)).netOut = w.netOut := by
        simp only [step]
        split <;> rfl
      have hgoal := ih hnext (balanced_deliver h hsound i) hrest
      rw [hbaseline] at hgoal
      exact hgoal
    | tickFallback now servers =>
      have hsame : Balanced (step w (.tickFallback now servers)) s published := by
        simp only [Balanced, step]
        rw [quantities_insertAll (quantities_fallbackEvents now servers)]
        exact h
      exact ih hnext hsame hrest

end

end

/-! ## The claim -/

/-- With everything delivered: the bill is what was published less what was lost. -/
theorem billed_run {host v : ℕ} {s : String} {acts : List Act} {readings : List (ℕ × ℕ)}
    (halone : ∀ a ∈ acts, Alone host v s a) (hlisted : Listed host v acts readings)
    (hsent : (run step start acts).sent = []) : ∃ lost : List (ℕ × ℚ),
      ((published readings).map exactly).Perm (quantities s (run step start acts).store ++ lost) ∧
        ∀ d ∈ lost, d.1 ∈ (quantities s (run step start acts).store).map Prod.fst := by
  have hstart : Balanced start s [] := ⟨[], List.Perm.refl _, fun _ hd => (List.not_mem_nil hd).elim⟩
  obtain ⟨lost, hperm, hlost⟩ := balanced_run sound_start hstart acts halone
  obtain ⟨before, after, hticks⟩ := hlisted
  refine ⟨lost, ?_, hlost⟩
  have hmetered : meteredAll ((start.netOut host).find v) (ticks host v acts) = published readings := by
    rw [hticks]
    exact meteredAll_listed before after readings
  rw [hmetered, hsent] at hperm
  simpa [quantities] using hperm

theorem sum_exactly (ds : List (ℕ × ℕ)) :
    ((ds.map exactly).map Prod.snd).sum = ((ds.map Prod.snd).sum : ℕ) := by
  induction ds with
  | nil => simp
  | cons d ds ih => simp only [List.map_cons, List.sum_cons, ih, exactly, Nat.cast_add]

theorem published_pos {readings : List (ℕ × ℕ)} {d : ℕ × ℕ} (h : d ∈ published readings) : 0 < d.2 := by
  cases readings with
  | nil => cases h
  | cons r rs => exact differences_pos h

/-- Nothing is lost where no minute is published twice, and what is lost is missing on the bill. -/
theorem nothing_lost {billed lost : List (ℕ × ℚ)} {ds : List (ℕ × ℕ)}
    (hperm : (ds.map exactly).Perm (billed ++ lost)) (hpos : ∀ d ∈ ds, 0 < d.2)
    (hunique : (billed.map Prod.fst).Nodup) (hlost : ∀ d ∈ lost, d.1 ∈ billed.map Prod.fst) :
    ((billed.map Prod.snd).sum = ((ds.map Prod.snd).sum : ℕ) ↔ (ds.map Prod.fst).Nodup) ∧
      (billed.map Prod.snd).sum ≤ ((ds.map Prod.snd).sum : ℕ) := by
  have hlostpos : ∀ q ∈ lost.map Prod.snd, (0 : ℚ) < q := by
    intro q hq
    obtain ⟨d, hd, rfl⟩ := List.mem_map.mp hq
    obtain ⟨d', hd', rfl⟩ := List.mem_map.mp (hperm.mem_iff.mpr (List.mem_append_right billed hd))
    exact Nat.cast_pos.mpr (hpos d' hd')
  have hsum : (((ds.map Prod.snd).sum : ℕ) : ℚ) =
      (billed.map Prod.snd).sum + (lost.map Prod.snd).sum := by
    rw [← sum_exactly, (hperm.map Prod.snd).sum_eq, List.map_append, List.sum_append]
  have hminutes : (ds.map Prod.fst).Nodup ↔ (billed.map Prod.fst ++ lost.map Prod.fst).Nodup := by
    rw [← List.map_append, ← (hperm.map Prod.fst).nodup_iff, List.map_map]
    rfl
  have hnonneg : 0 ≤ (lost.map Prod.snd).sum :=
    List.sum_nonneg fun q hq => (hlostpos q hq).le
  refine ⟨?_, by linarith⟩
  rw [hminutes, hsum]
  cases lost with
  | nil => simpa using hunique
  | cons d lost =>
    have hpos : 0 < ((d :: lost).map Prod.snd).sum := by
      have hrest : 0 ≤ (lost.map Prod.snd).sum :=
        List.sum_nonneg fun q hq => (hlostpos q (List.mem_cons_of_mem d.2 hq)).le
      have hd := hlostpos d.2 (by simp)
      rw [List.map_cons, List.sum_cons]
      linarith
    refine iff_of_false (by linarith) ?_
    intro hnodup
    exact List.disjoint_of_nodup_append hnodup (hlost d (by simp)) (by simp)

/-- For every run of ticks of any agents, deliveries in any order and ticks of the control plane,
with everything delivered at its end, and every VM: where its counter does not decrease, the bytes
that are stored are its last reading less the first, if and only if no clock minute has two ticks
that each find the counter larger than the tick before; and whether or not it reboots, they are never
more than the bytes that it sent between its readings. -/
theorem bytes_billed_once (host v : ℕ) (s : String) (acts : List Act) (readings : List (ℕ × ℕ))
    (halone : ∀ a ∈ acts, Alone host v s a) (hlisted : Listed host v acts readings)
    (hsent : (run step start acts).sent = []) :
    (∀ first last, readings.head? = some first → readings.getLast? = some last →
        readings.Pairwise (fun r r' => r.2 ≤ r'.2) →
          (billed (run step start acts) s = ((last.2 - first.2 : ℕ) : ℚ) ↔ (grown readings).Nodup)) ∧
      ∀ bytes, Sends readings bytes → billed (run step start acts) s ≤ (bytes.sum : ℕ) := by
  have hsound : Sound (run step start acts) :=
    run_invariant (I := Sound) (fun _ a hw => sound_step hw a) sound_start acts
  obtain ⟨lost, hperm, hlost⟩ := billed_run halone hlisted hsent
  obtain ⟨hexact, hle⟩ := nothing_lost hperm (fun d hd => published_pos hd)
    (nodup_minutes_quantities hsound.unique) hlost
  constructor
  · intro first last hfirst hlast hmono
    cases readings with
    | nil => cases hfirst
    | cons r rs =>
      cases hfirst
      rw [← minutes_differences hmono, ← (sum_differences hmono hlast).1]
      exact hexact
  · intro bytes hbytes
    cases readings with
    | nil => cases hbytes
    | cons r rs => exact hle.trans (Nat.cast_le.mpr (sum_le_sends hbytes))

/-! ## Where bytes are lost -/

/-- Three ticks of an agent, the last of them at this time, and what they publish arrives. -/
def threeTicks (time : ℕ) : List Act :=
  [.tick 0 0 [vmOf 100 ['a'] 5], .tick 0 60000 [vmOf 100 ['a'] 10], .tick 0 time [vmOf 100 ['a'] 40],
    .deliver 0, .deliver 0, .deliver 0, .deliver 0, .deliver 0]

theorem alone_vmOf (now netOut : ℕ) : Alone 0 100 "a" (.tick 0 now [vmOf 100 ['a'] netOut]) := by
  have hserver : (vmOf 100 ['a'] netOut).server = some "a" := by
    change (vmOf 100 ['a'] 0).server = some "a"
    decide
  rw [Alone, if_pos rfl]
  refine .inr ⟨vmOf 100 ['a'] netOut, ?_, rfl, hserver⟩
  have habout : about 100 "a" (vmOf 100 ['a'] netOut) = true := decide_eq_true (.inl rfl)
  rw [List.filter_cons_of_pos habout, List.filter_nil]

theorem alone_threeTicks (time : ℕ) : ∀ a ∈ threeTicks time, Alone 0 100 "a" a := by
  intro a ha
  simp only [threeTicks, List.mem_cons, List.not_mem_nil, or_false] at ha
  rcases ha with rfl | rfl | rfl | rfl | rfl | rfl | rfl | rfl
  · exact alone_vmOf 0 5
  · exact alone_vmOf 60000 10
  · exact alone_vmOf time 40
  all_goals trivial

theorem bytes_billed_once_minutes :
    billed (run step start (threeTicks 120000)) "a" = ((40 - 5 : ℕ) : ℚ) ∧
      billed (run step start (threeTicks 120000)) "a" ≤ (([5, 30] : List ℕ).sum : ℕ) := by
  have hall := bytes_billed_once 0 100 "a" (threeTicks 120000) [(0, 5), (60000, 10), (120000, 40)]
    (alone_threeTicks 120000) ⟨0, 0, by decide⟩ (by decide)
  refine ⟨?_, hall.2 [5, 30] (.counted rfl (.counted rfl (.first _)))⟩
  exact (hall.1 (0, 5) (120000, 40) rfl rfl (by decide)).mpr (by decide)

/-- Two ticks in one clock minute: the bytes of the second are dropped. -/
theorem bytes_lost :
    ticks 0 100 (threeTicks 119999) = [some (0, 5), some (60000, 10), some (60000, 40)] ∧
      (run step start (threeTicks 119999)).sent.length = 0 ∧
      billed (run step start (threeTicks 119999)) "a" = 5 ∧ (5 : ℚ) ≠ ((40 - 5 : ℕ) : ℚ) := by
  decide +kernel

end Prgd.Meters
