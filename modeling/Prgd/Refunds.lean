import Prgd.Billing
import Prgd.Callers
import Mathlib.Tactic.Linarith

/-!
# Refunding a card payment

`BillingAdminService.refund` reads the payment, asks the provider to refund, and
then raises `refundedMinor` on the condition that it still is what was read. The
provider call stands between the two: a second refund that read the same row has
its money sent as well, and only its record fails.

The module proves that the provider never pays back more than the payment, and
that the record agrees with it, for every interleaving in which the provider is
only asked while the row still is what was read and no other refund is waiting
to be recorded, and in which the prepaid credit can be taken back.
-/
namespace Prgd.Refunds
open Interleaving Callers Billing

structure Shared where
  payment : Payment
  /-- What the provider has paid back in total. -/
  atProvider : ℤ
  deriving DecidableEq

/-- Where a call of `refund` stands. -/
inductive Pc where
  | begun (amountMinor : Option ℤ)
  /-- A top up: the unused prepaid credit is still to be read. -/
  | checking (p : Payment) (amount : ℤ)
  | ready (p : Payment) (amount : ℤ)
  /-- The provider has refunded. -/
  | sent (p : Payment) (amount : ℤ) (refundRef : String)
  | returned (p : Payment)
  | thrown (e : ApiError)
  /-- The provider refused, or the record could not be written. -/
  | failed (message : String)

inductive Act where
  | read
  /-- The sum of the prepaid credit that is left. -/
  | prepaidBalance (unused : ℤ)
  | refund (answer : Except String String)
  /-- The transaction, with what `takeBackPrepaid` throws for a top up. -/
  | record (takeBack : Option String)

/-- The checks on the row that was read, and the amount. -/
def checkRefund (p : Payment) (amountMinor : Option ℤ) : Except ApiError ℤ :=
  let left := p.amountMinor - p.refundedMinor
  let amount := amountMinor.getD left
  if p.status ≠ .succeeded then
    .error (.invalidState ("Payment is " ++ p.status.name ++
      "; only succeeded payments can be refunded"))
  else if p.provider.takesCards = false ∨ p.providerRef = none then
    .error (.invalidState ("A " ++ p.provider.name ++
      " payment has no card to refund; issue a credit note or pay it back by transfer"))
  else if amount ≤ 0 ∨ left < amount then
    .error (.invalid ("Refund must be between 1 and " ++ toString left ++ " minor units")
      [("refundableMinor", left)])
  else .ok amount

/-- The row after a refund. -/
def refunded (p : Payment) (amount : ℤ) (refundRef : String) (full : Bool) : Payment :=
  { p with
    refundedMinor := p.refundedMinor + amount
    refundRef := some refundRef
    status := if full then .refunded else p.status }

def trans (s : Shared) : Act → Pc → Option (Shared × Pc)
  | .read, .begun amountMinor =>
      match checkRefund s.payment amountMinor with
      | .error e => some (s, .thrown e)
      | .ok amount =>
          if s.payment.invoiceId = none then some (s, .checking s.payment amount)
          else some (s, .ready s.payment amount)
  | .prepaidBalance unused, .checking p amount =>
      if unused < amount then
        some (s, .thrown (.invalidState ("Only " ++ toString unused ++
          " of this top up is unused credit; refund at most that")))
      else some (s, .ready p amount)
  | .refund answer, .ready p amount =>
      match answer with
      | .error m => some (s, .failed m)
      | .ok ref => some ({ s with atProvider := s.atProvider + amount }, .sent p amount ref)
  | .record takeBack, .sent p amount ref =>
      if s.payment.refundedMinor ≠ p.refundedMinor then
        some (s, .failed "payment changed during the refund")
      else match if p.invoiceId = none then takeBack else none with
        | some m => some (s, .failed m)
        | none =>
            let row := refunded s.payment amount ref (amount = p.amountMinor - p.refundedMinor)
            some ({ s with payment := row }, .returned row)
  | _, _ => none

abbrev World := Crew Shared Pc

def step : World → Move (Option ℤ) Act → World := Callers.step Pc.begun trans

def Pc.inProgress : Pc → Bool
  | .begun _ | .checking _ _ | .ready _ _ | .sent _ _ _ => true
  | .returned _ | .thrown _ | .failed _ => false

/-- The provider never pays back more than the payment, and agrees with the row
when no call is in progress. -/
def RefundsAgree (w : World) : Prop :=
  w.shared.atProvider ≤ w.shared.payment.amountMinor ∧
    ((∀ c ∈ w.calls, c.inProgress = false) →
      w.shared.atProvider = w.shared.payment.refundedMinor)

/-- Refunded at the provider and not recorded. -/
def Pc.unrecorded : Pc → ℕ
  | .sent _ _ _ => 1
  | _ => 0

/-- The provider refunds while the row is what the call read and no other refund
is unrecorded, and the record finds the credit of a top up still there. -/
def Alone (w : World) : Move (Option ℤ) Act → Prop
  | .act i (.refund (.ok _)) =>
      match w.calls[i]? with
      | some (.ready p _) =>
          w.shared.payment.refundedMinor = p.refundedMinor ∧ total Pc.unrecorded w.calls = 0
      | _ => True
  | .act _ (.record takeBack) => w.shared.payment.invoiceId = none → takeBack = none
  | _ => True

instance (w : World) (m : Move (Option ℤ) Act) : Decidable (Alone w m) := by
  unfold Alone
  split
  · split <;> infer_instance
  · infer_instance
  · infer_instance

/-- What a call that is on its way holds of the row. -/
def Pc.Fits (row : Payment) : Pc → Prop
  | .checking p amount | .ready p amount | .sent p amount _ =>
      p.amountMinor = row.amountMinor ∧ p.invoiceId = row.invoiceId ∧
        amount ≤ p.amountMinor - p.refundedMinor
  | _ => True

structure Kept (w : World) : Prop where
  bounded : w.shared.payment.refundedMinor ≤ w.shared.payment.amountMinor
  held : ∀ c ∈ w.calls, c.Fits w.shared.payment
  quiet : total Pc.unrecorded w.calls = 0 → w.shared.atProvider = w.shared.payment.refundedMinor
  flight : ∀ p amount ref, .sent p amount ref ∈ w.calls → total Pc.unrecorded w.calls = 1 ∧
    p.refundedMinor = w.shared.payment.refundedMinor ∧
    w.shared.atProvider = w.shared.payment.refundedMinor + amount

theorem Kept.refundsAgree {w : World} (h : Kept w) : RefundsAgree w := by
  have hquiet : total Pc.unrecorded w.calls = 0 ∨ ∃ p amount ref, .sent p amount ref ∈ w.calls := by
    by_contra hno
    rw [not_or] at hno
    obtain ⟨hpos, hnone⟩ := hno
    apply hpos
    refine List.sum_eq_zero fun n hn => ?_
    obtain ⟨c, hc, rfl⟩ := List.mem_map.mp hn
    cases c with
    | sent p amount ref => exact (hnone ⟨p, amount, ref, hc⟩).elim
    | begun _ | checking _ _ | ready _ _ | returned _ | thrown _ | failed _ => rfl
  have hb := h.bounded
  rcases hquiet with hzero | ⟨p, amount, ref, hmem⟩
  · have heq := h.quiet hzero
    exact ⟨by omega, fun _ => heq⟩
  · obtain ⟨-, hread, hsum⟩ := h.flight p amount ref hmem
    obtain ⟨hamount, -, hleft⟩ := h.held _ hmem
    refine ⟨by omega, fun hidle => ?_⟩
    have := hidle _ hmem
    simp [Pc.inProgress] at this

theorem checkRefund_ok {p : Payment} {amountMinor : Option ℤ} {amount : ℤ}
    (h : checkRefund p amountMinor = .ok amount) : amount ≤ p.amountMinor - p.refundedMinor := by
  unfold checkRefund at h
  dsimp only at h
  split_ifs at h with hs hp ha
  cases h
  rw [not_or] at ha
  omega

/-- A call that moves without asking the provider. -/
theorem Kept.quietly {w : World} (h : Kept w) {i : ℕ} {c c' : Pc} (hc : w.calls[i]? = some c)
    (hfits : c'.Fits w.shared.payment) (hu : c.unrecorded = 0) (hu' : c'.unrecorded = 0) :
    Kept ⟨w.shared, w.calls.set i c'⟩ := by
  have htotal : total Pc.unrecorded (w.calls.set i c') = total Pc.unrecorded w.calls := by
    have := total_set Pc.unrecorded hc c'
    omega
  refine ⟨h.bounded, fun d hd => ?_, fun hz => h.quiet (htotal ▸ hz), fun p amount ref hmem => ?_⟩
  · rcases List.mem_or_eq_of_mem_set hd with hd | rfl
    · exact h.held d hd
    · exact hfits
  · rcases List.mem_or_eq_of_mem_set hmem with hmem | rfl
    · rw [htotal]
      exact h.flight p amount ref hmem
    · simp [Pc.unrecorded] at hu'

theorem Kept.send {w : World} (h : Kept w) {i : ℕ} {p : Payment} {amount : ℤ} (ref : String)
    (hc : w.calls[i]? = some (.ready p amount))
    (hread : w.shared.payment.refundedMinor = p.refundedMinor)
    (hzero : total Pc.unrecorded w.calls = 0) :
    Kept ⟨{ w.shared with atProvider := w.shared.atProvider + amount },
      w.calls.set i (.sent p amount ref)⟩ := by
  have htotal := total_set Pc.unrecorded hc (.sent p amount ref)
  have hfits := h.held _ (List.mem_of_getElem? hc)
  have hquiet := h.quiet hzero
  simp only [Pc.unrecorded] at htotal
  refine ⟨h.bounded, fun d hd => ?_, fun hz => ?_, fun p' amount' ref' hmem => ?_⟩
  · rcases List.mem_or_eq_of_mem_set hd with hd | rfl
    · exact h.held d hd
    · exact hfits
  · simp only at hz
    omega
  · rcases List.mem_or_eq_of_mem_set hmem with hmem | hmem
    · have := total_le_of_mem Pc.unrecorded hmem
      simp only [Pc.unrecorded] at this
      omega
    · obtain ⟨rfl, rfl, rfl⟩ := Pc.sent.inj hmem
      refine ⟨by simp only; omega, hread.symm, ?_⟩
      simp only
      omega

theorem Kept.record {w : World} (h : Kept w) {i : ℕ} {p : Payment} {amount : ℤ} {ref : String}
    (hc : w.calls[i]? = some (.sent p amount ref)) (full : Bool) :
    Kept ⟨{ w.shared with payment := refunded w.shared.payment amount ref full },
      w.calls.set i (.returned (refunded w.shared.payment amount ref full))⟩ := by
  have hmem := List.mem_of_getElem? hc
  obtain ⟨hone, hread, hsum⟩ := h.flight p amount ref hmem
  obtain ⟨hamount, -, hleft⟩ := h.held _ hmem
  have htotal := total_set Pc.unrecorded hc (.returned (refunded w.shared.payment amount ref full))
  simp only [Pc.unrecorded] at htotal
  refine ⟨?_, fun d hd => ?_, fun _ => ?_, fun p' amount' ref' hmem' => ?_⟩
  · simp only [refunded]
    omega
  · rcases List.mem_or_eq_of_mem_set hd with hd | rfl
    · have hfits := h.held d hd
      cases d with
      | checking _ _ | ready _ _ | sent _ _ _ => exact hfits
      | begun _ | returned _ | thrown _ | failed _ => trivial
    · trivial
  · exact hsum
  · -- the only unrecorded refund is the one that is recorded now
    have hle := total_le_of_mem Pc.unrecorded hmem'
    simp only [Pc.unrecorded] at hle
    omega

theorem kept_step {w : World} {m : Move (Option ℤ) Act} (halone : Alone w m) (h : Kept w) :
    Kept (step w m) := by
  rcases step_cases Pc.begun trans w m with
    heq | ⟨amountMinor, rfl, heq⟩ | ⟨i, a, c, s, c', rfl, hc, ht, heq⟩
  · rw [step, heq]
    exact h
  · rw [step, heq]
    refine ⟨h.bounded, fun c hc => ?_, fun hz => h.quiet (by simpa [Pc.unrecorded] using hz),
      fun p amount ref hmem => ?_⟩
    · rcases List.mem_append.mp hc with hc | hc
      · exact h.held c hc
      · rw [List.mem_singleton.mp hc]
        trivial
    · simpa [Pc.unrecorded] using h.flight p amount ref (by simpa using hmem)
  · rw [step, heq]
    cases a with
    | read =>
      cases c with
      | begun amountMinor =>
        simp only [trans] at ht
        cases hcheck : checkRefund w.shared.payment amountMinor with
        | error e =>
          rw [hcheck] at ht
          cases ht
          exact h.quietly hc trivial rfl rfl
        | ok amount =>
          simp only [hcheck] at ht
          split_ifs at ht
          all_goals
            cases ht
            exact h.quietly hc ⟨rfl, rfl, checkRefund_ok hcheck⟩ rfl rfl
      | checking _ _ | ready _ _ | sent _ _ _ | returned _ | thrown _ | failed _ => simp [trans] at ht
    | prepaidBalance unused =>
      cases c with
      | checking p amount =>
        have hfits := h.held _ (List.mem_of_getElem? hc)
        simp only [trans] at ht
        split_ifs at ht
        · cases ht
          exact h.quietly hc trivial rfl rfl
        · cases ht
          exact h.quietly hc hfits rfl rfl
      | begun _ | ready _ _ | sent _ _ _ | returned _ | thrown _ | failed _ => simp [trans] at ht
    | refund answer =>
      cases c with
      | ready p amount =>
        cases answer with
        | error m =>
          cases ht
          exact h.quietly hc trivial rfl rfl
        | ok ref =>
          cases ht
          simp only [Alone, hc] at halone
          exact h.send ref hc halone.1 halone.2
      | begun _ | checking _ _ | sent _ _ _ | returned _ | thrown _ | failed _ => simp [trans] at ht
    | record takeBack =>
      cases c with
      | sent p amount ref =>
        have hmem := List.mem_of_getElem? hc
        have hread := (h.flight p amount ref hmem).2.1
        have hcredit : (if p.invoiceId = none then takeBack else none) = none := by
          rw [(h.held _ hmem).2.1]
          split_ifs with hnone
          · exact halone hnone
          · rfl
        simp only [trans, hread, ne_eq, not_true, if_false, hcredit] at ht
        cases ht
        exact h.record hc _
      | begun _ | checking _ _ | ready _ _ | returned _ | thrown _ | failed _ => simp [trans] at ht

/-- Refunds that are alone with the provider never exceed the payment. -/
theorem refunds_agree {p : Payment} (hp : p.refundedMinor ≤ p.amountMinor)
    {moves : List (Move (Option ℤ) Act)}
    (halone : Meets step Alone ⟨⟨p, p.refundedMinor⟩, []⟩ moves) :
    RefundsAgree (run step ⟨⟨p, p.refundedMinor⟩, []⟩ moves) := by
  have hstart : Kept ⟨⟨p, p.refundedMinor⟩, []⟩ :=
    ⟨hp, by simp, fun _ => rfl, by simp⟩
  exact (halone.invariant (fun _ _ halone h => kept_step halone h) hstart).refundsAgree

/-- A captured payment of an invoice. -/
def capturedPayment : Payment where
  teamId := "t"
  invoiceId := some "i"
  provider := .moyasar
  providerRef := some "m"
  currency := .SAR
  amountMinor := 100
  status := .succeeded

/-- Two partial refunds, one after another. -/
def oneAfterAnother : List (Move (Option ℤ) Act) :=
  [.join (some 60), .join none, .act 0 .read, .act 0 (.refund (.ok "r0")), .act 0 (.record none),
    .act 1 .read, .act 1 (.refund (.ok "r1")), .act 1 (.record none)]

theorem refunds_agree_one_after_another :
    Meets step Alone ⟨⟨capturedPayment, 0⟩, []⟩ oneAfterAnother ∧
      RefundsAgree (run step ⟨⟨capturedPayment, 0⟩, []⟩ oneAfterAnother) := by
  have halone : Meets step Alone ⟨⟨capturedPayment, 0⟩, []⟩ oneAfterAnother := by decide
  exact ⟨halone, refunds_agree (p := capturedPayment) (by decide) halone⟩

/-- Two full refunds that both read the row before either is recorded: the card
gets twice the payment. -/
theorem refunded_twice :
    ¬ RefundsAgree (run step ⟨⟨capturedPayment, 0⟩, []⟩
      [.join none, .join none, .act 0 .read, .act 1 .read, .act 0 (.refund (.ok "r0")),
        .act 1 (.refund (.ok "r1")), .act 0 (.record none), .act 1 (.record none)]) := by
  rintro ⟨hle, -⟩
  revert hle
  decide

end Prgd.Refunds
