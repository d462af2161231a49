import Prgd.Callers
import Prgd.JsonColumn

/-!
# Idempotency keys

`IdempotencyInterceptor.intercept` looks the key up, runs the handler when it
finds nothing, answers, and writes the key afterwards without waiting for it.
Requests that look the key up before the first write has landed all run their
handler, and a response without a body is never written at all.

The table is a map from scoped keys to stored responses. The responses are
compared as JSON documents, whose objects have no order: this is what `column`
keeps of a value.
-/
namespace Prgd.Idempotency
open Interleaving Callers JsonColumn

structure Request where
  /-- The team of the acting identity. -/
  teamId : Option Text
  method : Text
  path : Text
  idempotencyKey : Option Text
  body : JsValue

structure Stored where
  requestHash : Text
  statusCode : ℕ
  response : JsValue
  deriving DecidableEq

/-- What a client receives. -/
structure Reply where
  statusCode : ℕ
  document : JsValue
  deriving DecidableEq

/-- The key of the table; `none` when the request goes straight to its handler. -/
def Request.scopedKey (req : Request) : Option Text :=
  match req.teamId, req.idempotencyKey with
  | some team, some (c :: key) =>
      if req.method = "GET".toList then none
      else some (team ++ ':' :: req.method ++ ':' :: req.path ++ ':' :: c :: key)
  | _, _ => none

def Request.hash (sha256 : Text → Text) (req : Request) : Text :=
  let body := if req.body.isNullish then .obj [] else req.body
  sha256 (body.stringify.getD [])

/-- The client of the database refuses a missing or null `response`. -/
def storable (body : JsValue) : Bool := !body.isNullish

structure Shared where
  table : List (Text × Stored) := []
  /-- How often the handler has run. -/
  effects : ℕ := 0

inductive Pc where
  | arrived
  /-- The key was not found. -/
  | handling
  /-- The client has its answer; the key is being written. -/
  | creating (reply : Reply) (row : Stored)
  | answered (reply : Reply)
  /-- `idempotency_key_reused` -/
  | refused
  deriving DecidableEq

inductive Act where
  | lookup
  /-- The handler succeeds with this response. -/
  | handle (statusCode : ℕ) (body : JsValue)
  /-- The write reaches the database, or fails. -/
  | create (ok : Bool)

section
variable (key hash : Text)

def trans (s : Shared) : Act → Pc → Option (Shared × Pc)
  | .lookup, .arrived =>
      match s.table.lookup key with
      | none => some (s, .handling)
      | some row =>
          if row.requestHash = hash then some (s, .answered ⟨row.statusCode, column row.response⟩)
          else some (s, .refused)
  | .handle statusCode body, .handling =>
      let reply : Reply := ⟨statusCode, column body⟩
      let s := { s with effects := s.effects + 1 }
      if storable body then some (s, .creating reply ⟨hash, statusCode, column body⟩)
      else some (s, .answered reply)
  | .create ok, .creating reply row =>
      -- a key that is already there makes the write fail, which is ignored
      if ok ∧ s.table.lookup key = none then
        some ({ s with table := s.table ++ [(key, row)] }, .answered reply)
      else some (s, .answered reply)
  | _, _ => none

abbrev World := Crew Shared Pc

/-- Requests with one key and one body. -/
def keyedStep : World → Move Unit Act → World := Callers.step (fun _ => .arrived) (trans key hash)

def Pc.reply : Pc → Option Reply
  | .creating reply _ | .answered reply => some reply
  | _ => none

/-- The handler ran at most once, and every client got the same response. -/
def RanOnce (w : World) : Prop :=
  w.shared.effects ≤ 1 ∧ ∀ c ∈ w.calls, ∀ d ∈ w.calls, ∀ r ∈ c.reply, ∀ r' ∈ d.reply, r = r'

/-- Between a lookup without a result and the end of the write. -/
def Pc.pending : Pc → ℕ
  | .handling | .creating _ _ => 1
  | _ => 0

/-- The key is looked up when it is stored already or while no other request is
between its lookup and the end of its write; the response has a body; and the
write succeeds. -/
def Apart (w : World) : Move Unit Act → Prop
  | .act i .lookup => w.calls[i]? = some .arrived → w.shared.table.lookup key = none →
      total Pc.pending w.calls = 0
  | .act _ (.handle _ body) => storable body
  | .act _ (.create ok) => ok
  | .join _ => True

instance (w : World) (m : Move Unit Act) : Decidable (Apart key w m) := by
  unfold Apart
  split <;> infer_instance

/-- What a replay of the row answers. -/
def Stored.reply (row : Stored) : Reply := ⟨row.statusCode, column row.response⟩

/-- The handler has run and its key is being written. -/
def Pc.made : Pc → ℕ
  | .creating _ _ => 1
  | _ => 0

/-- What holds while requests keep apart. -/
structure Kept (w : World) : Prop where
  creating : ∀ reply row, .creating reply row ∈ w.calls →
    row.requestHash = hash ∧ reply = row.reply
  absent : w.shared.table.lookup key = none → total Pc.pending w.calls ≤ 1 ∧
    w.shared.effects = total Pc.made w.calls ∧ ∀ reply, .answered reply ∉ w.calls
  present : ∀ row, w.shared.table.lookup key = some row → row.requestHash = hash ∧
    total Pc.pending w.calls = 0 ∧ w.shared.effects = 1 ∧
    ∀ reply, .answered reply ∈ w.calls → reply = row.reply

theorem kept_start : Kept key hash ⟨{}, []⟩ :=
  ⟨by simp, fun _ => ⟨by simp, rfl, by simp⟩, fun _ h => by simp at h⟩

variable {key hash}

theorem total_made_le (calls : List Pc) : total Pc.made calls ≤ total Pc.pending calls := by
  induction calls with
  | nil => exact le_refl _
  | cons c calls ih =>
    rw [total_cons, total_cons]
    exact Nat.add_le_add (by cases c <;> simp [Pc.made, Pc.pending]) ih

theorem Kept.ranOnce {w : World} (h : Kept key hash w) : RanOnce w := by
  have hcreating : ∀ c ∈ w.calls, c.pending = 0 → ∀ r ∈ c.reply, c = .answered r := by
    intro c _ hp r hr
    cases c with
    | answered reply => simp_all [Pc.reply]
    | arrived | handling | creating _ _ | refused => simp_all [Pc.reply, Pc.pending]
  cases hl : w.shared.table.lookup key with
  | none =>
    obtain ⟨hone, heffects, hnone⟩ := h.absent hl
    have hmade := total_made_le w.calls
    refine ⟨by omega, fun c hc d hd r hr r' hr' => ?_⟩
    have hpending : ∀ c ∈ w.calls, ∀ r ∈ c.reply, 1 ≤ c.pending := by
      intro c hc r hr
      by_contra hp
      exact hnone r (hcreating c hc (by omega) r hr ▸ hc)
    by_cases hcd : c = d
    · subst hcd
      exact Option.mem_unique hr hr'
    · have htwo := add_le_total Pc.pending hc hd hcd
      have := hpending c hc r hr
      have := hpending d hd r' hr'
      omega
  | some row =>
    obtain ⟨-, hquiet, heffects, hanswered⟩ := h.present row hl
    refine ⟨by omega, fun c hc d hd r hr r' hr' => ?_⟩
    have heq : ∀ c ∈ w.calls, ∀ r ∈ c.reply, r = row.reply := by
      intro c hc r hr
      have hp := total_le_of_mem Pc.pending hc
      exact hanswered r (hcreating c hc (by omega) r hr ▸ hc)
    rw [heq c hc r hr, heq d hd r' hr']

/-- While a request is on its way the key is not stored. -/
theorem Kept.absent_of_pending {w : World} (h : Kept key hash w) {c : Pc} (hc : c ∈ w.calls)
    (hp : 0 < c.pending) : w.shared.table.lookup key = none := by
  cases hl : w.shared.table.lookup key with
  | none => rfl
  | some row =>
    have hquiet := (h.present row hl).2.1
    have := total_le_of_mem Pc.pending hc
    omega

section
variable {w : World} {i : ℕ}

theorem Kept.missed (h : Kept key hash w) (hc : w.calls[i]? = some .arrived)
    (hquiet : total Pc.pending w.calls = 0) (hl : w.shared.table.lookup key = none) :
    Kept key hash ⟨w.shared, w.calls.set i .handling⟩ := by
  have hpending := total_set Pc.pending hc .handling
  have hmade := total_set Pc.made hc .handling
  obtain ⟨-, heffects, hnone⟩ := h.absent hl
  simp only [Pc.pending, Pc.made] at hpending hmade
  refine ⟨fun reply row hmem => ?_, fun _ => ⟨by simp only; omega, by simp only; omega, ?_⟩, ?_⟩
  · rcases List.mem_or_eq_of_mem_set hmem with hmem | hmem
    · exact h.creating reply row hmem
    · cases hmem
  · intro reply hmem
    rcases List.mem_or_eq_of_mem_set hmem with hmem | hmem
    · exact hnone reply hmem
    · cases hmem
  · intro row hrow
    rw [hl] at hrow
    cases hrow

theorem Kept.replayed (h : Kept key hash w) (hc : w.calls[i]? = some .arrived) {row : Stored}
    (hl : w.shared.table.lookup key = some row) :
    Kept key hash ⟨w.shared, w.calls.set i (.answered row.reply)⟩ := by
  have hpending := total_set Pc.pending hc (.answered row.reply)
  obtain ⟨hhash, hquiet, heffects, hanswered⟩ := h.present row hl
  simp only [Pc.pending] at hpending
  refine ⟨fun reply row' hmem => ?_, fun hnone => ?_, fun row' hrow => ?_⟩
  · rcases List.mem_or_eq_of_mem_set hmem with hmem | hmem
    · exact h.creating reply row' hmem
    · cases hmem
  · rw [hl] at hnone
    cases hnone
  · obtain rfl : row = row' := Option.some.inj (hl.symm.trans hrow)
    refine ⟨hhash, by simp only; omega, heffects, fun reply hmem => ?_⟩
    rcases List.mem_or_eq_of_mem_set hmem with hmem | hmem
    · exact hanswered reply hmem
    · exact Pc.answered.inj hmem

theorem Kept.handled (h : Kept key hash w) (hc : w.calls[i]? = some .handling) (statusCode : ℕ)
    (body : JsValue) :
    Kept key hash ⟨{ w.shared with effects := w.shared.effects + 1 }, w.calls.set i
      (.creating ⟨statusCode, column body⟩ ⟨hash, statusCode, column body⟩)⟩ := by
  have hl := h.absent_of_pending (List.mem_of_getElem? hc) (by simp [Pc.pending])
  obtain ⟨hone, heffects, hnone⟩ := h.absent hl
  have hpending := total_set Pc.pending hc
    (.creating ⟨statusCode, column body⟩ ⟨hash, statusCode, column body⟩)
  have hmade := total_set Pc.made hc
    (.creating ⟨statusCode, column body⟩ ⟨hash, statusCode, column body⟩)
  simp only [Pc.pending, Pc.made] at hpending hmade
  refine ⟨fun reply row hmem => ?_, fun _ => ⟨by simp only; omega, by simp only; omega, ?_⟩, ?_⟩
  · rcases List.mem_or_eq_of_mem_set hmem with hmem | hmem
    · exact h.creating reply row hmem
    · obtain ⟨rfl, rfl⟩ := Pc.creating.inj hmem
      refine ⟨rfl, ?_⟩
      rw [Stored.reply, column_column]
  · intro reply hmem
    rcases List.mem_or_eq_of_mem_set hmem with hmem | hmem
    · exact hnone reply hmem
    · cases hmem
  · intro row hrow
    simp only [hl] at hrow
    cases hrow

theorem Kept.created (h : Kept key hash w) {reply : Reply} {row : Stored}
    (hc : w.calls[i]? = some (.creating reply row)) :
    Kept key hash ⟨{ w.shared with table := w.shared.table ++ [(key, row)] },
      w.calls.set i (.answered reply)⟩ := by
  have hin := List.mem_of_getElem? hc
  have hl := h.absent_of_pending hin (by simp [Pc.pending])
  obtain ⟨hone, heffects, hnone⟩ := h.absent hl
  obtain ⟨hhash, hreply⟩ := h.creating reply row hin
  have hpending := total_set Pc.pending hc (.answered reply)
  have hmade := total_le_of_mem Pc.made hin
  have hle := total_made_le w.calls
  have hnew : (w.shared.table ++ [(key, row)]).lookup key = some row := by
    simp [List.lookup_append, hl]
  simp only [Pc.pending] at hpending
  simp only [Pc.made] at hmade
  refine ⟨fun reply' row' hmem => ?_, fun hgone => ?_, fun row' hrow => ?_⟩
  · rcases List.mem_or_eq_of_mem_set hmem with hmem | hmem
    · exact h.creating reply' row' hmem
    · cases hmem
  · simp only [hnew] at hgone
    cases hgone
  · obtain rfl : row = row' := Option.some.inj (hnew.symm.trans hrow)
    refine ⟨hhash, by simp only; omega, by simp only; omega, fun reply' hmem => ?_⟩
    rcases List.mem_or_eq_of_mem_set hmem with hmem | hmem
    · exact (hnone reply' hmem).elim
    · rw [Pc.answered.inj hmem, hreply]

end

theorem kept_step {w : World} {m : Move Unit Act} (hapart : Apart key w m)
    (h : Kept key hash w) : Kept key hash (keyedStep key hash w m) := by
  rcases step_cases (fun _ => .arrived) (trans key hash) w m with
    heq | ⟨_, rfl, heq⟩ | ⟨i, a, c, s, c', rfl, hc, ht, heq⟩
  · rw [keyedStep, heq]
    exact h
  · rw [keyedStep, heq]
    refine ⟨fun reply row hmem => h.creating reply row ?_, fun hl => ?_, fun row hl => ?_⟩
    · simpa using hmem
    · simpa [Pc.pending, Pc.made] using h.absent hl
    · simpa [Pc.pending] using h.present row hl
  · have hin : c ∈ w.calls := List.mem_of_getElem? hc
    rw [keyedStep, heq]
    cases a with
    | lookup =>
      cases c with
      | arrived =>
        simp only [trans] at ht
        cases hl : w.shared.table.lookup key with
        | none =>
          rw [hl] at ht
          cases ht
          exact h.missed hc (hapart hc hl) hl
        | some row =>
          have hhash := (h.present row hl).1
          simp only [hl, if_pos hhash] at ht
          cases ht
          exact h.replayed hc hl
      | handling | creating _ _ | answered _ | refused => simp [trans] at ht
    | handle statusCode body =>
      cases c with
      | handling =>
        have hbody : storable body := hapart
        simp only [trans, if_pos hbody] at ht
        cases ht
        exact h.handled hc statusCode body
      | arrived | creating _ _ | answered _ | refused => simp [trans] at ht
    | create ok =>
      cases c with
      | creating reply row =>
        have hok : ok = true := hapart
        have hl := h.absent_of_pending hin (by simp [Pc.pending])
        simp only [trans, hok, hl, and_self, if_true] at ht
        cases ht
        exact h.created hc
      | arrived | handling | answered _ | refused => simp [trans] at ht

end

/-- A request without a key, or a GET, goes to its handler. -/
def passTrans (s : Shared) : Act → Pc → Option (Shared × Pc)
  | .lookup, .arrived => some (s, .handling)
  | .handle statusCode body, .handling =>
      some ({ s with effects := s.effects + 1 }, .answered ⟨statusCode, column body⟩)
  | _, _ => none

/-- Any number of requests that are all `req`. -/
def step (sha256 : Text → Text) (req : Request) : World → Move Unit Act → World :=
  match req.scopedKey with
  | none => Callers.step (fun _ => .arrived) passTrans
  | some key => keyedStep key (req.hash sha256)

/-- Requests with one key that keep apart are handled once. -/
theorem request_ran_once (sha256 : Text → Text) {req : Request} {key : Text}
    (hkey : req.scopedKey = some key) {moves : List (Move Unit Act)}
    (hapart : Meets (step sha256 req) (Apart key) ⟨{}, []⟩ moves) :
    RanOnce (run (step sha256 req) ⟨{}, []⟩ moves) := by
  have hstep : step sha256 req = keyedStep key (req.hash sha256) := by rw [step, hkey]
  rw [hstep] at hapart ⊢
  have hkept : Kept key (req.hash sha256) (run (keyedStep key (req.hash sha256)) ⟨{}, []⟩ moves) :=
    hapart.invariant (fun _ _ hapart h => kept_step hapart h) (kept_start key _)
  exact hkept.ranOnce

/-- A request that creates something. -/
def createRequest : Request where
  teamId := some "t".toList
  method := "POST".toList
  path := "/v1/servers".toList
  idempotencyKey := some "k".toList
  body := .obj []

def created (id : String) : JsValue := .obj [("id".toList, .str id.toList)]

/-- The second request looks the key up after the first is stored. -/
def oneAfterAnother : List (Move Unit Act) :=
  [.join (), .join (), .act 0 .lookup, .act 0 (.handle 201 (created "a")), .act 0 (.create true),
    .act 1 .lookup]

theorem request_ran_once_one_after_another :
    (∃ key, createRequest.scopedKey = some key ∧
      Meets (step id createRequest) (Apart key) ⟨{}, []⟩ oneAfterAnother) ∧
    RanOnce (run (step id createRequest) ⟨{}, []⟩ oneAfterAnother) := by
  have hkey : createRequest.scopedKey = some "t:POST:/v1/servers:k".toList := by decide
  have hapart : Meets (step id createRequest) (Apart "t:POST:/v1/servers:k".toList) ⟨{}, []⟩
      oneAfterAnother := by decide
  exact ⟨⟨_, hkey, hapart⟩, request_ran_once id hkey hapart⟩

/-- Both requests look the key up before the first write: two servers, and two
different answers. -/
theorem request_ran_twice :
    ¬ RanOnce (run (step id createRequest) ⟨{}, []⟩
      [.join (), .join (), .act 0 .lookup, .act 1 .lookup, .act 0 (.handle 201 (created "a")),
        .act 1 (.handle 201 (created "b")), .act 0 (.create true), .act 1 (.create true)]) := by
  rintro ⟨heffects, -⟩
  revert heffects
  decide

end Prgd.Idempotency
