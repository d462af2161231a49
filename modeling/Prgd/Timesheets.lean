import Prgd.Interleaving
import Prgd.Text
import Prgd.WorkLogs

/-!
# Timesheets

`TimesheetsService`: an engineer's entries, their submission and their review, with
every query and every statement as one step. `own` reads the state of an entry and
`updateEntry` and `deleteEntry` write it by its id alone, so what was checked may no
longer be stored: an entry that the lead approved in between is overwritten.

The range of a month or of a week is what `periodRange` makes of it. The events of the
audit log and the session minutes are left out.
-/
namespace Prgd.Timesheets
open Interleaving
open WorkLogs (WorkLogStatus Source)

/-! ## The data -/

structure Entry where
  contractId : ℕ
  userId : ℕ
  minutes : ℕ
  billable : Bool
  note : Option String
  reason : Option String
  workedAt : ℕ
  startedAt : Option ℕ
  endedAt : Option ℕ
  status : WorkLogStatus
  source : Source
  submittedAt : Option ℕ
  reviewedById : Option ℕ
  reviewedAt : Option ℕ
  reviewComment : Option String
  deriving DecidableEq

/-- What an engineer enters: the minutes, the dates and the texts. -/
structure Content where
  minutes : ℕ
  billable : Bool
  note : Option String
  reason : Option String
  workedAt : ℕ
  startedAt : Option ℕ
  endedAt : Option ℕ
  deriving DecidableEq

def Entry.content (e : Entry) : Content :=
  ⟨e.minutes, e.billable, e.note, e.reason, e.workedAt, e.startedAt, e.endedAt⟩

abbrev Entries := Table ℕ Entry

/-- The engineer, and the contracts they may work on (`none`: all). -/
structure OpsContext where
  userId : ℕ
  contractIds : Option (List ℕ)
  deriving DecidableEq

structure EntryChange where
  minutes : Option ℕ := none
  startedAt : Option ℕ := none
  reason : Option String := none
  note : Option String := none
  billable : Option Bool := none
  deriving DecidableEq

inductive Decision where
  | approved | rejected
  deriving DecidableEq

def Decision.status : Decision → WorkLogStatus
  | .approved => .approved
  | .rejected => .rejected

/-- The range of a month, with its label in errors for a submission. -/
structure Range where
  start : ℕ
  stop : ℕ
  label : String := ""
  deriving DecidableEq

def Range.contains (r : Range) (at' : ℕ) : Bool := r.start ≤ at' ∧ at' < r.stop

structure ReviewInput where
  decision : Decision
  workLogIds : List ℕ
  month : Option Range
  comment : Option String
  deriving DecidableEq

inductive Call where
  | updateEntry (ops : OpsContext) (id : ℕ) (dto : EntryChange)
  | deleteEntry (ops : OpsContext) (id : ℕ)
  | submit (ops : OpsContext) (range : Range)
  | review (actorId engineerId : ℕ) (dto : ReviewInput)
  deriving DecidableEq

/-- The statement a call stands in front of, with what it has read. -/
inductive Pc where
  | rest (error : Option ApiError)
  | updating (id : ℕ) (read : Entry) (dto : EntryChange)
  | deleting (id : ℕ) (read : Entry)
  | submitting (ids : List ℕ)
  | reviewing (ids : List ℕ) (actorId : ℕ) (dto : ReviewInput)
  deriving DecidableEq

inductive Act where
  | call (c : Call)
  /-- The next statement, at this time. -/
  | next (now : ℕ)
  deriving DecidableEq

/-! ## Reads -/

def own (s : Entries) (ops : OpsContext) (id : ℕ) : Except ApiError Entry :=
  match s.find id with
  | none => .error (.notFound "worklog" (toString id))
  | some w =>
      if w.userId ≠ ops.userId ∨ ops.contractIds.any (fun l => ¬ l.contains w.contractId) then
        .error (.notFound "worklog" (toString id))
      else if w.status ≠ .draft ∧ w.status ≠ .rejected then
        .error (.invalidState ("A " ++ w.status.name ++ " entry cannot be changed"))
      else .ok w

def throws (e : ApiError) : Pc := .rest (some e)

def readUpdate (s : Entries) (ops : OpsContext) (id : ℕ) (dto : EntryChange) : Pc :=
  match own s ops id with
  | .error e => throws e
  | .ok w =>
      if w.source = .timer ∧ (dto.minutes.isSome ∨ dto.startedAt.isSome) then
        throws (.invalid
          "Timer entries keep their time; add a manual entry with a reason for a correction" [])
      else .updating id w dto

def readSubmit (s : Entries) (ops : OpsContext) (range : Range) : Pc :=
  let rows := s.rows.filter fun e =>
    e.2.userId = ops.userId ∧ e.2.status = .draft ∧ range.contains e.2.workedAt
  if rows.isEmpty then throws (.invalidState ("Nothing to submit for " ++ range.label))
  else .submitting (rows.map Prod.fst)

/-- Whether a review covers an entry: the listed ones, or those of the month. -/
def ReviewInput.covers (dto : ReviewInput) (id : ℕ) (e : Entry) : Bool :=
  (dto.workLogIds.isEmpty ∨ dto.workLogIds.contains id) ∧
    dto.month.all fun r => r.contains e.workedAt

/-- A comment that is not only white space. -/
def given (comment : Option String) : Bool := comment.any fun c => Text.trim c.toList ≠ []

def readReview (s : Entries) (actorId engineerId : ℕ) (dto : ReviewInput) : Pc :=
  if engineerId = actorId then throws (.forbidden "You cannot approve your own time")
  else if dto.decision = .rejected ∧ given dto.comment = false then
    throws (.invalid "A rejection needs a comment" [])
  else if dto.workLogIds.isEmpty ∧ dto.month.isNone then
    throws (.invalid "Pass workLogIds or month" [])
  else
    let rows := s.rows.filter fun e =>
      e.2.userId = engineerId ∧ e.2.status = .submitted ∧ dto.covers e.1 e.2
    if dto.workLogIds ≠ [] ∧ rows.length ≠ dto.workLogIds.dedup.length then
      throws (.invalidState "Only submitted entries of this engineer can be reviewed")
    else if rows.isEmpty then throws (.invalidState "Nothing is waiting for review")
    else .reviewing (rows.map Prod.fst) actorId dto

def begin (s : Entries) : Call → Pc
  | .updateEntry ops id dto => readUpdate s ops id dto
  | .deleteEntry ops id =>
      match own s ops id with
      | .error e => throws e
      | .ok w => .deleting id w
  | .submit ops range => readSubmit s ops range
  | .review actorId engineerId dto => readReview s actorId engineerId dto

/-! ## Writes -/

/-- The minutes and the start are computed from the row that was read; a column that is
not given keeps what is stored. -/
def writeUpdate (read : Entry) (dto : EntryChange) (stored : Entry) : Entry :=
  let startedAt := dto.startedAt.getD (read.startedAt.getD read.workedAt)
  let minutes := dto.minutes.getD read.minutes
  { stored with
    minutes
    note := dto.note.or stored.note
    billable := dto.billable.getD stored.billable
    reason := dto.reason.or stored.reason
    startedAt := some startedAt
    workedAt := startedAt
    endedAt := some (startedAt + minutes * 60000)
    status := .draft
    reviewComment := if read.status = .rejected then read.reviewComment else stored.reviewComment }

def writeSubmission (now : ℕ) (e : Entry) : Entry :=
  { e with status := .submitted, submittedAt := some now }

def writeReview (actorId : ℕ) (dto : ReviewInput) (now : ℕ) (e : Entry) : Entry :=
  { e with
    status := dto.decision.status, reviewedById := some actorId, reviewedAt := some now
    reviewComment := dto.comment }

/-- An `updateMany` of the rows with these ids. -/
def updateMany (s : Entries) (ids : List ℕ) (write : Entry → Entry) : Entries :=
  s.amend fun id e => if ids.contains id then write e else e

/-- A row that is gone makes the statement throw. -/
def gone : ApiError := ⟨500, "internal_error", "Something went wrong on our side", []⟩

def next (s : Entries) (now : ℕ) : Pc → Option (Entries × Pc)
  | .rest _ => none
  | .updating id read dto =>
      match s.find id with
      | none => some (s, throws gone)
      | some stored => some (s.put id (writeUpdate read dto stored), .rest none)
  | .deleting id _ =>
      match s.find id with
      | none => some (s, throws gone)
      | some _ => some (s.erase id, .rest none)
  | .submitting ids => some (updateMany s ids (writeSubmission now), .rest none)
  | .reviewing ids actorId dto => some (updateMany s ids (writeReview actorId dto now), .rest none)

def trans (_ : ℕ) (s : Entries) (act : Act) (pc : Pc) : Option (Entries × Pc) :=
  match act, pc with
  | .call c, .rest _ => some (s, begin s c)
  | .next now, pc => next s now pc
  | _, _ => none

abbrev World := Interleaving.World Entries Pc

def step : World → ℕ × Act → World := callerStep trans

/-- Any entries, and nobody under way. -/
def start (entries : Entries) : World := ⟨entries, fun _ => .rest none⟩

/-! ## Approved entries -/

/-- Every entry that the call is about to write is still in the state that it read. -/
def current (s : Entries) : Pc → Bool
  | .rest _ => true
  | .updating id read _ | .deleting id read => (s.find id).all fun e => e.status = read.status
  | .submitting ids => ids.all fun id => (s.find id).all fun e => e.status = .draft
  | .reviewing ids _ _ => ids.all fun id => (s.find id).all fun e => e.status = .submitted

def Current (w : World) (a : ℕ × Act) : Bool := current w.shared (w.pc a.1)

/-- An entry that is written back was a draft or rejected when it was read. -/
def Editing : Pc → Prop
  | .updating _ read _ | .deleting _ read => read.status ≠ .approved
  | _ => True

section
variable {s s' : Entries} {pc pc' : Pc} {now id : ℕ} {e : Entry}

theorem own_ok {ops : OpsContext} (h : own s ops id = .ok e) : e.status ≠ .approved := by
  unfold own at h
  split at h
  · cases h
  · split_ifs at h with hown hstatus
    cases h
    intro happroved
    exact hstatus ⟨by simp [happroved], by simp [happroved]⟩

theorem editing_begin (s : Entries) (c : Call) : Editing (begin s c) := by
  cases c with
  | updateEntry ops id dto =>
    simp only [begin, readUpdate]
    split
    · trivial
    · next w hw =>
      split_ifs
      · trivial
      · exact own_ok hw
  | deleteEntry ops id =>
    simp only [begin]
    split
    · trivial
    · next w hw => exact own_ok hw
  | submit ops range =>
    simp only [begin, readSubmit]
    split_ifs <;> trivial
  | review actorId engineerId dto =>
    simp only [begin, readReview]
    split_ifs <;> trivial

theorem editing_next (h : next s now pc = some (s', pc')) : Editing pc' := by
  cases pc with
  | rest error => cases h
  | updating id read dto | deleting id read =>
    simp only [next] at h
    split at h <;> cases h <;> trivial
  | submitting ids | reviewing ids actorId dto =>
    cases h
    trivial

theorem find_updateMany {ids : List ℕ} {write : Entry → Entry} (hid : ids.contains id = false) :
    (updateMany s ids write).find id = s.find id := by
  have hnot : id ∉ ids := by simpa using hid
  rw [updateMany, Table.find_amend]
  cases s.find id with
  | none => rfl
  | some e => simp [hnot]

/-- A write that meets the states its call read leaves an approved entry alone. -/
theorem find_next (h : next s now pc = some (s', pc')) (hediting : Editing pc)
    (hcurrent : current s pc = true) (hfind : s.find id = some e) (happroved : e.status = .approved) :
    s'.find id = some e := by
  cases pc with
  | rest error => cases h
  | updating id' read dto =>
    have hne : id ≠ id' := by
      rintro rfl
      simp only [current, hfind, Option.all_some, decide_eq_true_eq] at hcurrent
      exact hediting (hcurrent.symm.trans happroved)
    simp only [next] at h
    split at h
    · cases h
      exact hfind
    · cases h
      rw [Table.find_put_of_ne _ hne]
      exact hfind
  | deleting id' read =>
    have hne : id ≠ id' := by
      rintro rfl
      simp only [current, hfind, Option.all_some, decide_eq_true_eq] at hcurrent
      exact hediting (hcurrent.symm.trans happroved)
    simp only [next] at h
    split at h
    · cases h
      exact hfind
    · cases h
      rw [Table.find_erase, if_neg hne]
      exact hfind
  | submitting ids =>
    have hid : ids.contains id = false := by
      by_contra hin
      have hdraft := List.all_eq_true.mp hcurrent id (by simpa using hin)
      simp [hfind, happroved] at hdraft
    cases h
    exact (find_updateMany hid).trans hfind
  | reviewing ids actorId dto =>
    have hid : ids.contains id = false := by
      by_contra hin
      have hsubmitted := List.all_eq_true.mp hcurrent id (by simpa using hin)
      simp [hfind, happroved] at hsubmitted
    cases h
    exact (find_updateMany hid).trans hfind

end

theorem editing_step {w : World} (h : ∀ q, Editing (w.pc q)) (a : ℕ × Act) :
    ∀ q, Editing ((step w a).pc q) := by
  rcases callerStep_cases trans w a with heq | ⟨s, pc, ht, heq⟩
  · rw [step, heq]
    exact h
  · rw [step, heq]
    apply update_cases (P := fun _ pc => Editing pc)
    · unfold trans at ht
      split at ht
      · cases ht
        exact editing_begin _ _
      · exact editing_next ht
      · cases ht
    · intro q _
      exact h q

theorem find_step {w : World} {a : ℕ × Act} {id : ℕ} {e : Entry} (h : ∀ q, Editing (w.pc q))
    (hcurrent : Current w a = true) (hfind : w.shared.find id = some e)
    (happroved : e.status = .approved) : (step w a).shared.find id = some e := by
  rcases callerStep_cases trans w a with heq | ⟨s, pc, ht, heq⟩
  · rw [step, heq]
    exact hfind
  · rw [step, heq]
    unfold trans at ht
    split at ht
    · cases ht
      exact hfind
    · exact find_next ht (h a.1) hcurrent hfind happroved
    · cases ht

/-- Once an entry is approved it is never changed or removed, in every interleaving in
which each write meets the states that its call has read. -/
theorem approved_entries_locked (entries : Entries) (acts later : List (ℕ × Act))
    (h : Meets step (fun w a => Current w a = true) (start entries) (acts ++ later)) {id : ℕ}
    {e : Entry} (hfind : (run step (start entries) acts).shared.find id = some e)
    (happroved : e.status = .approved) :
    (run step (start entries) (acts ++ later)).shared.find id = some e := by
  have hstart : ∀ q, Editing ((start entries).pc q) := fun _ => trivial
  have hediting : ∀ q, Editing ((run step (start entries) acts).pc q) :=
    run_invariant (I := fun w : World => ∀ q, Editing (w.pc q)) (fun w a hw => editing_step hw a)
      hstart acts
  rw [run_append]
  have hlater := (meets_append.mp h).2
  have hboth := hlater.invariant
    (I := fun w : World => (∀ q, Editing (w.pc q)) ∧ w.shared.find id = some e)
    (fun w a hc hw => ⟨editing_step hw.1 a, find_step hw.1 hc hw.2 happroved⟩) ⟨hediting, hfind⟩
  exact hboth.2

/-! ## One entry, changed while it is approved -/

/-- The entry of an engineer: one hour, a draft. -/
def oneHour : Entry :=
  ⟨0, 1, 60, true, none, none, 0, some 0, some 3600000, .draft, .manual, none, none, none, none⟩

def oneEntry : Entries := Table.empty.put 0 oneHour

/-- The engineer sets the entry to two hours: the read and the write. -/
def changing : List (ℕ × Act) := [(0, .call (.updateEntry ⟨1, none⟩ 0 { minutes := some 120 }))]
def changed : List (ℕ × Act) := [(0, .next 0)]

/-- The entry is submitted, and the lead approves it. -/
def approving : List (ℕ × Act) :=
  [(1, .call (.submit ⟨1, none⟩ ⟨0, 1000, "1970-01"⟩)), (1, .next 1),
    (2, .call (.review 7 1 ⟨.approved, [0], none, none⟩)), (2, .next 2)]

theorem approved_entries_locked_two_hours :
    (run step (start oneEntry) (changing ++ changed ++ approving ++ changing ++ changed)).shared.find 0 =
      some { oneHour with
        minutes := 120, endedAt := some 7200000, status := .approved, submittedAt := some 1
        reviewedById := some 7, reviewedAt := some 2 } := by
  rw [List.append_assoc _ changing changed]
  apply approved_entries_locked oneEntry (changing ++ changed ++ approving) (changing ++ changed)
  · decide
  · decide
  · rfl

/-- The engineer's change was read before the approval and is written after it: the
approved hour becomes a draft of two hours. -/
theorem approved_entry_changed :
    ((run step (start oneEntry) (changing ++ approving)).shared.find 0).map
        (fun e => (e.status, e.minutes)) = some (.approved, 60) ∧
      ((run step (start oneEntry) (changing ++ approving ++ changed)).shared.find 0).map
        (fun e => (e.status, e.minutes)) = some (.draft, 120) := by
  constructor
  · decide
  · decide

end Prgd.Timesheets
