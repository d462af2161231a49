import Prgd.Issuing

/-!
# Each invoice is issued once

One lemma for each statement of a run says what it does to the tables, to the run
and to the others. From them follows, for every interleaving, that what is committed
fits together and that a run that fails has changed nothing.
-/
namespace Prgd.Issuing
open Interleaving RowLock Billing Rating Invoicing

/-! ## The steps of a run -/

/-- What a step of a run does: the tables stay as they should, the run is where it should
be, the others see none of it in their drafts, and nothing is committed unless the run
returns its invoice. -/
structure Moved (sum : ℤ) (s : Shared) (i : ℕ) (s' : Shared) (pc' : Pc) : Prop where
  kept : Kept sum s'
  place : Place s' i pc'
  frame : ∀ q, q ≠ i → Frame q s s'
  tables : SameTables s s' ∨ ∃ n, pc' = .returned (some n)

section
variable {sum : ℤ} {s : Shared} {i : ℕ}

theorem SameTables.refl (s : Shared) : SameTables s s := ⟨fun _ => rfl, fun _ => rfl, fun _ => rfl⟩

/-- A statement that only reads. -/
theorem Kept.reading (h : Kept sum s) {pc' : Pc} (hplace : Place s i pc') : Moved sum s i s pc' :=
  ⟨h, hplace, fun q _ => Frame.refl q s, .inl (SameTables.refl s)⟩

theorem Kept.failing (h : Kept sum s) {pc' : Pc}
    (hplace : HoldsNothing (s.rollback i) i → Place (s.rollback i) i pc') :
    Moved sum s i (s.rollback i) pc' :=
  ⟨h.rollback i, hplace (holdsNothing_rollback i s), fun _ hq => frame_rollback hq s,
    .inl (sameTables_rollback i s)⟩

theorem keys_unbilled (r : Request) (rows : List (RecordKey × UsageRecord)) :
    (r.unbilled rows).map Prod.fst = (rows.filter fun e => r.bills e.1 e.2).map Prod.fst := by
  simp [Request.unbilled, List.map_map, Function.comp_def]

theorem nodup_unbilled (r : Request) (i : ℕ) (t : Table RecordKey (Cell UsageRecord)) :
    ((r.unbilled (viewRows i t)).map Prod.fst).Nodup := by
  have hkeys : (viewRows i t).map Prod.fst = t.rows.map Prod.fst := by
    simp [viewRows, List.map_map, Function.comp_def]
  rw [keys_unbilled]
  apply List.Nodup.sublist (List.Sublist.map Prod.fst List.filter_sublist)
  rw [hkeys]
  exact t.unique

theorem moved_findRecords (h : Kept sum s) {r : Request} (hplace : Place s i (.absent r))
    (hcost : ¬ (⟨r, r.unbilled (viewRows i s.records)⟩ : Bill).subtotal ≤ 0) :
    Moved sum s i s (.read ⟨r, r.unbilled (viewRows i s.records)⟩) :=
  h.reading ⟨⟨not_le.mp hcost, nodup_unbilled r i s.records⟩, hplace⟩

theorem moved_findCredits (h : Kept sum s) {b : Bill} (hplace : Place s i (.read b)) :
    Moved sum s i s (.consuming b b.gross ((b.request.spendable (viewRows i s.credits)).map
      fun c => (c.1, c.2.remainingMinor))) := by
  obtain ⟨hsound, hrec, hcred, hinv⟩ := hplace
  have hgross := Bill.gross_pos hsound.1
  apply h.reading
  refine ⟨hsound, hrec, hinv, hgross.le, ⟨by omega, by omega, ?_⟩, ?_⟩
  · rw [drafted_eq_zero hcred]
    omega
  · intro c hc
    obtain ⟨d, hd, rfl⟩ := List.mem_map.mp hc
    exact (Request.mem_spendable hd).2

/-- The loop over the credits ends. -/
theorem moved_consumed (h : Kept sum s) {b : Bill} {left : ℤ} {credits : List (ℕ × ℤ)}
    (hplace : Place s i (.consuming b left credits)) :
    Moved sum s i s (.consumed b (b.gross - left)) := by
  obtain ⟨hsound, hrec, hinv, -, hcharged, -⟩ := hplace
  exact h.reading ⟨hsound, hrec, hinv, hcharged⟩

/-- One guarded decrement. -/
theorem moved_decrement (h : Kept sum s) {b : Bill} {left remaining : ℤ} {k : ℕ}
    {credits : List (ℕ × ℤ)} {c : Cell Credit}
    (hplace : Place s i (.consuming b left ((k, remaining) :: credits))) (hleft : ¬ left ≤ 0)
    (hfind : s.credits.find k = some c) (hfree : c.free i = true)
    (henough : ¬ (c.view i).remainingMinor < min remaining left) :
    Moved sum s i
      { s with credits := s.credits.put k (c.write i (Credit.take (c.view i) (min remaining left))) }
      (.consuming b (left - min remaining left) credits) := by
  obtain ⟨hsound, hrec, hinv, -, ⟨hlow, hhigh, hdrafted⟩, hcs⟩ := hplace
  have hremaining : 0 < remaining := hcs _ List.mem_cons_self
  have hgross := Bill.gross_pos hsound.1
  constructor
  · apply h.credit hfind
    simp only [Credit.take]
    omega
  · refine ⟨hsound, hrec, hinv, by omega, ⟨by omega, by omega, ?_⟩, ?_⟩
    · rw [drafted_put_write _ _ hfind, hdrafted]
      simp only [Credit.take]
      omega
    · intro d hd
      exact hcs d (List.mem_cons_of_mem _ hd)
  · intro q hq
    exact frame_credit hq hfind hfree _
  · exact .inl (sameTables_credit hfind _)

theorem moved_nextval (h : Kept sum s) {b : Bill} {credit : ℤ}
    (hplace : Place s i (.consumed b credit)) :
    Moved sum s i { s with seq := s.seq + 1 } (.numbered b credit s.seq) := by
  constructor
  · exact ⟨⟨h.consistent.linked, h.consistent.billed, h.consistent.once, h.consistent.remaining,
      h.consistent.balanced⟩, h.standing, h.drafts, h.conserved⟩
  · exact hplace
  · intro q hq
    exact ⟨SameFor.refl q _, SameFor.refl q _, SameFor.refl q _, rfl⟩
  · exact .inl ⟨fun _ => rfl, fun _ => rfl, fun _ => rfl⟩

theorem moved_create (h : Kept sum s) {b : Bill} {credit : ℤ} {seq : ℕ} {id : String}
    (hplace : Place s i (.numbered b credit seq)) (hnew : s.invoices.find id = none)
    (hpending : s.pending i b.request = false) (hexisting : s.existing b.request = false) :
    Moved sum s i
      { s with invoices := s.invoices.put id ⟨none, some (i, some (issuedOf b credit seq))⟩ }
      (.linking b credit seq id [] b.keys) := by
  obtain ⟨hsound, hrec, hinv, hcharged⟩ := hplace
  constructor
  · exact h.create hnew hinv hpending hexisting
  · refine ⟨hsound, hcharged, ⟨Table.find_put_self _ _ _, ?_⟩, List.Sublist.refl _, ?_, ?_⟩
    · intro n d hfind hd
      by_contra hn
      rw [Table.find_put_of_ne _ hn] at hfind
      exact hinv n d hfind hd
    · intro k hk
      cases hk
    · intro k c hfind hc
      exact (hrec k c hfind hc).elim
  · intro q hq
    exact frame_invoice hq hnew
  · exact .inl (sameTables_invoice hnew _)

/-- A record that is left out. -/
theorem moved_skip (h : Kept sum s) {b : Bill} {credit : ℤ} {seq : ℕ} {id : String}
    {ks todo : List RecordKey} {k : RecordKey} (hplace : Place s i (.linking b credit seq id ks (k :: todo))) :
    Moved sum s i s (.linking b credit seq id ks todo) := by
  obtain ⟨hsound, hcharged, hdrawn, hsub, hlinked⟩ := hplace
  apply h.reading
  refine ⟨hsound, hcharged, hdrawn, ?_, hlinked⟩
  exact (List.Sublist.append_left (List.sublist_cons_self k todo) ks).trans hsub

theorem moved_link (h : Kept sum s) {b : Bill} {credit : ℤ} {seq : ℕ} {id : String}
    {ks todo : List RecordKey} {k : RecordKey} {c : Cell UsageRecord}
    (hplace : Place s i (.linking b credit seq id ks (k :: todo)))
    (hfind : s.records.find k = some c) (hfree : c.free i = true)
    (hnone : (c.view i).invoiceId = none) :
    Moved sum s i
      { s with records := s.records.put k (c.write i { c.view i with invoiceId := some id }) }
      (.linking b credit seq id (ks ++ [k]) todo) := by
  obtain ⟨hsound, hcharged, hdrawn, hsub, hlinked⟩ := hplace
  have hnodup := hsound.2.sublist hsub
  have hnew : k ∉ ks := by
    intro hk
    rw [List.nodup_append] at hnodup
    exact hnodup.2.2 k hk k List.mem_cons_self rfl
  have hholder : c.holder = none := by
    rcases Cell.holder_eq_of_free hfree with hc | hc
    · exact hc
    · exact (hnew (hlinked.2 k c hfind hc)).elim
  have hview : c.view i = c.committed := Cell.view_of_holder_ne (by simp [hholder])
  constructor
  · exact h.record hfind _
  · refine ⟨hsound, hcharged, hdrawn, ?_, ?_, ?_⟩
    · rw [List.append_assoc]
      exact hsub
    · intro j hj
      rcases List.mem_append.mp hj with hj | hj
      · obtain ⟨u, hu, hj'⟩ := hlinked.1 j hj
        have hne : j ≠ k := fun heq => hnew (heq ▸ hj)
        exact ⟨u, hu, by rw [Table.find_put_of_ne _ hne]; exact hj'⟩
      · rw [List.mem_singleton.mp hj]
        refine ⟨c.committed, by rw [← hview]; exact hnone, ?_⟩
        rw [Table.find_put_self, hview]
        rfl
    · intro j d hd hi
      by_cases hj : j = k
      · exact List.mem_append.mpr (.inr (List.mem_singleton.mpr hj))
      · rw [Table.find_put_of_ne _ hj] at hd
        exact List.mem_append.mpr (.inl (hlinked.2 j d hd hi))
  · intro q hq
    exact frame_record hq hfind hfree _
  · exact .inl (sameTables_record hfind _)

/-- Every record was linked. -/
theorem moved_linked (h : Kept sum s) {b : Bill} {credit : ℤ} {seq : ℕ} {id : String}
    {ks : List RecordKey} (hplace : Place s i (.linking b credit seq id ks [])) (hall : ks.length = b.records.length) :
    Moved sum s i s (.linked b credit seq id) := by
  obtain ⟨hsound, hcharged, hdrawn, hsub, hlinked⟩ := hplace
  rw [List.append_nil] at hsub
  have hkeys : ks = b.keys := hsub.eq_of_length (by rw [hall, Bill.keys, List.length_map])
  exact h.reading ⟨hsound, hcharged, hdrawn, hkeys ▸ hlinked⟩

theorem moved_commit (h : Kept sum s) {b : Bill} {credit : ℤ} {seq : ℕ} {id : String}
    (hplace : Place s i (.ready b credit seq id)) :
    Moved sum s i (s.commit i) (.returned (some id)) := by
  obtain ⟨-, hcharged, hdrawn, hlinked⟩ := hplace
  exact ⟨h.commit hcharged hdrawn hlinked, holdsNothing_commit i s,
    fun _ hq => frame_commit hq s, .inr ⟨id, rfl⟩⟩

theorem moved (h : Kept sum s) {a : Act} {pc : Pc} (hplace : Place s i pc) {s' : Shared} {pc' : Pc}
    (ht : trans i s a pc = some (s', pc')) : Moved sum s i s' pc' := by
  unfold trans at ht
  split at ht
  · cases ht
    exact h.reading hplace
  · split_ifs at ht <;> cases ht <;> exact h.reading hplace
  · dsimp only at ht
    split_ifs at ht with hcost <;> cases ht
    · exact h.reading hplace
    · exact moved_findRecords h hplace hcost
  · cases ht
    exact moved_findCredits h hplace
  · cases ht
    exact moved_consumed h hplace
  · dsimp only at ht
    split_ifs at ht with hleft
    · cases ht
      exact moved_consumed h hplace
    · split at ht
      · cases ht
        exact h.failing id
      next c hfind =>
        split_ifs at ht with hfree henough <;> cases ht
        · exact h.failing id
        · exact moved_decrement h hplace hleft hfind (by simpa using hfree) henough
  · cases ht
    exact moved_nextval h hplace
  · split_ifs at ht with hwait hexisting <;> cases ht
    · exact h.failing id
    · rw [not_or, Bool.not_eq_true, Option.not_isSome_iff_eq_none] at hwait
      exact moved_create h hplace hwait.2 hwait.1 (by simpa using hexisting)
  · split at ht
    · cases ht
      exact moved_skip h hplace
    next c hfind =>
      split_ifs at ht with hfree hnone <;> cases ht
      · exact moved_link h hplace hfind (by simpa using hfree) hnone
      · exact moved_skip h hplace
  · split_ifs at ht with hall <;> cases ht
    · exact h.failing id
    · exact moved_linked h hplace (by simpa using hall)
  · cases ht
    exact h.reading hplace
  · cases ht
    exact moved_commit h hplace
  · split_ifs at ht
    cases ht
    exact h.failing id
  · cases ht

end

/-! ## Every interleaving -/

/-- The runs have not begun, nothing is open, and what is committed fits together. -/
structure Start (w : World) : Prop where
  idle : ∀ i, w.pc i = .idle
  quiet : w.shared.quiet
  consistent : Consistent w.shared

/-- The invariant of all interleavings. -/
def Inv (sum : ℤ) (w : World) : Prop := Kept sum w.shared ∧ ∀ i, Place w.shared i (w.pc i)

theorem Start.inv {w : World} (h : Start w) : Inv (left w.shared + granted w.shared) w := by
  constructor
  · constructor
    · exact h.consistent
    · have hissued : ∀ n v, Standing w.shared n v → w.shared.issued n = some v := by
        intro n v hv
        rcases hv with hv | ⟨d, j, hfind, hdraft⟩
        · exact hv
        · exact ((h.quiet j).2.2 n d hfind (by rw [Cell.holder, hdraft]; rfl)).elim
      intro n m v u hv hu
      exact h.consistent.once n m v u (hissued n v hv) (hissued m u hu)
    · intro k c j v hfind hdraft
      exact ((h.quiet j).2.1 k c hfind (by rw [Cell.holder, hdraft]; rfl)).elim
    · rfl
  · intro i
    rw [h.idle i]
    exact h.quiet i

theorem inv_step {sum : ℤ} (w : World) (a : ℕ × Act) (h : Inv sum w) : Inv sum (step w a) := by
  apply callerStep_invariant
  · intro s' pc' ht
    have hmoved := moved h.1 (h.2 a.1) ht
    exact ⟨hmoved.kept, hmoved.place⟩
  · intro s' pc' ht q hq
    exact ((moved h.1 (h.2 a.1) ht).frame q hq).place (h.2 q)
  · exact h.1
  · exact h.2

/-- A step changes what is committed only if its run returns an invoice. -/
theorem sameTables_step {sum : ℤ} {w : World} (h : Inv sum w) (a : ℕ × Act) :
    SameTables w.shared (step w a).shared ∨ ∃ n, (step w a).pc a.1 = .returned (some n) := by
  rcases callerStep_cases trans w a with heq | ⟨s', pc', ht, heq⟩
  · rw [step, heq]
    exact .inl (SameTables.refl _)
  · rw [step, heq]
    rcases (moved h.1 (h.2 a.1) ht).tables with hsame | ⟨n, hn⟩
    · exact .inl hsame
    · exact .inr ⟨n, by simp [hn]⟩

/-- A run that has returned is done. -/
theorem returned_step {w : World} {i : ℕ} {r : Option String} (h : w.pc i = .returned r) (a : ℕ × Act) :
    (step w a).pc i = .returned r := by
  rcases callerStep_cases trans w a with heq | ⟨s', pc', ht, heq⟩
  · rw [step, heq]
    exact h
  · rw [step, heq]
    by_cases hi : i = a.1
    · subst hi
      rw [h] at ht
      cases hact : a.2 <;> simp [hact, trans, Pc.inTransaction] at ht
    · dsimp only
      rw [Function.update_of_ne hi]
      exact h

/-- The run ended without an invoice. -/
def Pc.failed : Pc → Bool
  | .thrown _ | .returned none => true
  | _ => false

/-- Each record is on one invoice at most, each team has one invoice for a period at most,
no credit is overdrawn, every invoice adds up, what was taken from credits is what the
invoices were given, and a run that failed has changed none of it. -/
theorem issued_exactly_once (w : World) (hw : Start w) (acts : List (ℕ × Act)) :
    Consistent (run step w acts).shared ∧
      (∀ n m v u k, (run step w acts).shared.issued n = some v →
        (run step w acts).shared.issued m = some u → k ∈ v.billed → k ∈ u.billed → n = m) ∧
      left w.shared - left (run step w acts).shared =
        granted (run step w acts).shared - granted w.shared ∧
      ∀ i, ((run step w acts).pc i).failed = true →
        HoldsNothing (run step w acts).shared i ∧
          ∀ before a after, acts = before ++ a :: after → a.1 = i →
            SameTables (run step w before).shared (run step w (before ++ [a])).shared := by
  have hinv : ∀ acts, Inv (left w.shared + granted w.shared) (run step w acts) := fun acts =>
    run_invariant inv_step hw.inv acts
  have hcons := (hinv acts).1.consistent
  refine ⟨hcons, ?_, ?_, ?_⟩
  · intro n m v u k hv hu hkv hku
    obtain ⟨r, hr⟩ := hcons.billed n v hv k hkv
    have hn := (hcons.linked k r hr n).mpr ⟨v, hv, hkv⟩
    have hm := (hcons.linked k r hr m).mpr ⟨u, hu, hku⟩
    rw [hn] at hm
    exact Option.some.inj hm
  · have := (hinv acts).1.conserved
    omega
  · intro i hfailed
    have hplace := (hinv acts).2 i
    constructor
    · cases hpc : (run step w acts).pc i with
      | thrown m =>
        rw [hpc] at hplace
        exact hplace
      | returned r =>
        rw [hpc] at hplace
        exact hplace
      | _ =>
        rw [hpc] at hfailed
        cases hfailed
    · intro before a after hacts hi
      rw [run_append, run_cons, run_nil]
      rcases sameTables_step (hinv before) a with hsame | ⟨n, hn⟩
      · exact hsame
      · -- a run that has returned its invoice has not failed
        rw [hi] at hn
        have hstay : (run step (step (run step w before) a) after).pc i = .returned (some n) :=
          run_invariant (I := fun w : World => w.pc i = .returned (some n))
            (fun w a h => returned_step h a) hn after
        rw [hacts, run_append, run_cons, hstay] at hfailed
        cases hfailed

/-! ## Two runs that cross -/

def acme : Team := ⟨"t1", .USD, "DE", ["p1"]⟩

def january : Request := ⟨acme, 0, 744, 2678400⟩

def anHour : UsageRecord where
  projectId := "p1"
  quantity := 60
  unit := .minute
  priceId := none
  amountMinor := 100
  currency := .USD
  ratedFrom := .unpriced

/-- One record and one credit, and no invoice yet. -/
def beforeRuns : World where
  shared := {
    records := Table.empty.put (⟨.publicIp, "ip1"⟩, 5) ⟨anHour, none⟩
    credits := Table.empty.put 1 ⟨Credit.make "t1" .promo .USD 30 "welcome", none⟩
    invoices := Table.empty
    seq := 1 }
  pc := fun _ => .idle

/-- Both read the credit; the second waits for the first and finds it spent. -/
def crossing : List (ℕ × Act) :=
  [(0, .begin january), (1, .begin january), (0, .findExisting), (1, .findExisting),
    (0, .findRecords), (1, .findRecords), (0, .findCredits), (1, .findCredits), (0, .decrement),
    (1, .decrement), (0, .decrement), (0, .nextval), (0, .create "i1"), (0, .link), (0, .link),
    (0, .linkManagedWorkLogs), (0, .commit), (1, .decrement)]

theorem find_put_empty {κ α : Type} [DecidableEq κ] {k j : κ} {v u : α}
    (h : (Table.empty.put k v).find j = some u) : j = k ∧ u = v := by
  by_cases hj : j = k
  · subst hj
    rw [Table.find_put_self] at h
    exact ⟨rfl, (Option.some.inj h).symm⟩
  · rw [Table.find_put_of_ne _ hj, Table.find_empty] at h
    cases h

theorem beforeRuns_start : Start beforeRuns := by
  have hissued : ∀ n, beforeRuns.shared.issued n = none := fun n => rfl
  constructor
  · intro i
    rfl
  · intro i
    refine ⟨?_, ?_, ?_⟩
    · intro k c hc
      rw [(find_put_empty hc).2]
      simp [Cell.holder]
    · intro k c hc
      rw [(find_put_empty hc).2]
      simp [Cell.holder]
    · intro n d hd
      cases hd
  · constructor
    · intro k u hk n
      obtain ⟨c, hc, rfl⟩ := Option.map_eq_some_iff.mp hk
      rw [(find_put_empty hc).2]
      simp [hissued, anHour]
    · intro n v hv
      cases hv
    · intro n m v u hv
      cases hv
    · intro k c hc
      obtain ⟨d, hd, rfl⟩ := Option.map_eq_some_iff.mp hc
      rw [(find_put_empty hd).2]
      decide
    · intro n v hv
      cases hv

/-- One of the two crossing runs issues the invoice, the other one fails. -/
theorem issued_exactly_once_crossing :
    ((run step beforeRuns crossing).pc 1).failed = true ∧
      (run step beforeRuns crossing).shared.issued "i1" ≠ none ∧
      Consistent (run step beforeRuns crossing).shared ∧
      HoldsNothing (run step beforeRuns crossing).shared 1 := by
  have hfailed : ((run step beforeRuns crossing).pc 1).failed = true := by decide +kernel
  have hissued : ((run step beforeRuns crossing).shared.issued "i1").isSome = true := by
    decide +kernel
  have h := issued_exactly_once beforeRuns beforeRuns_start crossing
  refine ⟨hfailed, ?_, h.1, (h.2.2.2 1 hfailed).1⟩
  intro hnone
  rw [hnone] at hissued
  cases hissued

end Prgd.Issuing
