import Prgd.ApiError
import Prgd.Calendar
import Prgd.FallibleCalls
import Prgd.JsNumber
import Prgd.Table

/-!
# Where a terminal recording ends up

A session with a recording: its row at the API, the objects of the recordings bucket and the file
that the gateway keeps until the recording is stored. The session check names a key for the object;
every further upload URL names the key again, by the month in which it is asked for, and writes it
to the row.

`storeRecording` uploads under the key it was given last, reports the key it was given first, and
deletes the file without looking at what became of the report. So the recording is kept exactly when
the report has its effect and the upload that succeeded used a key of the first month. Times are
milliseconds since 1970. One session makes its calls in order; each call fails or not, with its
effect or without.
-/
namespace Prgd.Recordings
open Calls

abbrev Bytes := List UInt8

/-- The columns of a terminal session that concern its recording. -/
structure TerminalSession where
  recordingKey : Option Text := none
  recordingSize : Option ℕ := none
  recordingStoredAt : Option ℕ := none
  recordingExpiredAt : Option ℕ := none
  deriving DecidableEq

/-- The answer with an upload URL, which is a URL for the key. -/
structure RecordingTarget where
  key : Text
  uploadUrlExpiresAt : ℕ

def monthOf (ms : ℕ) : ℕ := Calendar.monthOf (ms / 3600000)

/-- `padStart(2, '0')`. -/
def padStart2 (t : Text) : Text := List.replicate (2 - t.length) '0' ++ t

/-- `sessions/<year>/<month>/<session>.cast`, by the clock of the API. -/
def recordingKey (id : Text) (now : ℕ) : Text :=
  "sessions/".toList ++ (JsNumber.digits (1970 + monthOf now / 12) ++ '/' ::
    (padStart2 (JsNumber.digits (monthOf now % 12 + 1)) ++ '/' :: (id ++ ".cast".toList)))

/-! ## The API -/

/-- Valid until `validUntil` and an hour longer, for ten minutes at least and a week at most. -/
def urlSeconds (now validUntil : ℕ) : ℕ :=
  min (7 * 86400) (max 600 (((validUntil - now : ℕ) + 999) / 1000 + 3600))

def recordingTarget (id : Text) (now validUntil : ℕ) (s : TerminalSession) :
    RecordingTarget × TerminalSession :=
  let key := recordingKey id now
  (⟨key, now + 1000 * urlSeconds now validUntil⟩, { s with recordingKey := some key })

/-- A fresh upload URL for the session's recording. -/
def recordingUrl (id : Text) (now : ℕ) (s : TerminalSession) :
    Except ApiError (RecordingTarget × TerminalSession) :=
  if s.recordingKey = none then .error (.notFound "terminal session" (String.ofList id))
  else if s.recordingStoredAt.isSome then .error (.invalidState "The recording is already stored")
  else .ok (recordingTarget id now (now + 3600000) s)

/-- What the event `recording_stored` does to these columns. -/
def recordingStored (stamp : ℕ) (key : Text) (size : ℕ) (s : TerminalSession) :
    Except ApiError TerminalSession :=
  if key = [] ∨ s.recordingKey ≠ some key then
    .error (.invalid "recordingKey must be the key session-check returned" [])
  else .ok { s with recordingSize := some size, recordingStoredAt := some stamp }

/-- The key that the playback of a session reads. -/
def playback (s : TerminalSession) : Except ApiError Text :=
  match s.recordingKey with
  | none => .error (.invalidState "No recording is stored for this session")
  | some key =>
    if s.recordingStoredAt = none then
      .error (.invalidState "No recording is stored for this session")
    else if s.recordingExpiredAt.isSome then
      .error (.invalidState "The recording was deleted after the retention period")
    else .ok key

/-! ## The gateway -/

structure World where
  row : TerminalSession := {}
  objects : Table Text Bytes := .empty
  /-- The key of the last upload that reached the bucket. -/
  lastUpload : Option Text := none
  /-- The file of the gateway. -/
  file : Option Bytes

/-- What becomes of the calls of one attempt. -/
structure Attempt where
  /-- The clock of the API when it is asked for a URL. -/
  now : ℕ := 0
  url : Fate := .ok
  /-- The status of the upload, if there is an answer. -/
  put : Option ℕ := some 200
  /-- An upload that is not answered with success may still reach the bucket. -/
  landed : Bool := false

/-- What comes from outside while a recording is stored. -/
structure Answers where
  /-- The file is flushed and closed. -/
  closes : Bool := true
  /-- The clock of the gateway at the first attempt. -/
  now : ℕ := 0
  attempts : ℕ → Attempt
  /-- The event that reports the recording. -/
  event : Fate := .ok
  eventAt : ℕ := 0

def Attempt.succeeds (a : Attempt) : Bool := a.put.any fun status => 200 ≤ status ∧ status < 300

/-- The URL for an attempt: asked for again, but for a first attempt within the first URL's time. -/
def urlFor (id : Text) (answers : Answers) (attempt : ℕ) (target : RecordingTarget) (w : World) :
    Option RecordingTarget × World :=
  if attempt > 0 ∨ target.uploadUrlExpiresAt ≤ answers.now + 5000 then
    let a := answers.attempts attempt
    match recordingUrl id a.now w.row with
    | .error _ => (none, w)
    | .ok (fresh, row) =>
      (if a.url = .ok then some fresh else none, if a.url.applied then { w with row := row } else w)
  else (some target, w)

def putFile (a : Attempt) (key : Text) (w : World) : World :=
  match w.file with
  | none => w
  | some content =>
    if a.succeeds ∨ a.landed then
      { w with objects := w.objects.put key content, lastUpload := some key }
    else w

/-- The report: its failures are swallowed. -/
def reportStored (answers : Answers) (key : Text) (size : ℕ) (w : World) : World :=
  if answers.event.applied then
    match recordingStored answers.eventAt key size w.row with
    | .error _ => w
    | .ok row => { w with row := row }
  else w

/-- The attempts of the loop; `key` is what the session check returned. -/
def upload (id : Text) (answers : Answers) (key : Text) (size : ℕ) :
    List ℕ → RecordingTarget → World → World
  | [], _, w => w
  | attempt :: rest, target, w =>
    match urlFor id answers attempt target w with
    | (none, w) => upload id answers key size rest target w
    | (some target, w) =>
      let a := answers.attempts attempt
      let w := putFile a target.key w
      if a.succeeds then { reportStored answers key size w with file := none }
      else upload id answers key size rest target w

def storeRecording (id : Text) (answers : Answers) (check : RecordingTarget) (w : World) : World :=
  if answers.closes then
    upload id answers check.key (w.file.getD []).length (List.range 4) check w
  else w

/-- A session from its check, which names the first target, to the end of `storeRecording`. -/
def session (id : Text) (checkAt validUntil : ℕ) (objects : Table Text Bytes) (content : Bytes)
    (answers : Answers) : World :=
  let check := recordingTarget id checkAt validUntil {}
  storeRecording id answers check.1 { row := check.2, objects := objects, file := some content }

/-! ## When the recording is kept -/

/-- Once the file is deleted, the API has stored the recording, and its playback reads the
last upload, which is the file. -/
def Kept (content : Bytes) (w : World) : Prop :=
  w.file = none → w.row.recordingStoredAt.isSome = true ∧ ∃ key, w.row.recordingKey = some key ∧
    w.lastUpload = some key ∧ playback w.row = .ok key ∧ w.objects.find key = some content

/-- The attempt uploads to the URL of the session check. -/
def FirstUrl (check : RecordingTarget) (answers : Answers) (attempt : ℕ) : Prop :=
  attempt = 0 ∧ answers.now + 5000 < check.uploadUrlExpiresAt

instance (check : RecordingTarget) (answers : Answers) (attempt : ℕ) :
    Decidable (FirstUrl check answers attempt) := inferInstanceAs (Decidable (_ ∧ _))

/-- The attempt gets a URL and its upload is answered with success. -/
def stores (check : RecordingTarget) (answers : Answers) (attempt : ℕ) : Bool :=
  (FirstUrl check answers attempt ∨ (answers.attempts attempt).url = .ok) ∧
    (answers.attempts attempt).succeeds = true

theorem recordingKey_ne (id : Text) (now : ℕ) : recordingKey id now ≠ [] :=
  List.append_ne_nil_of_left_ne_nil (by decide) _

/-- The report of an upload under the key of the row is worth what it is worth to the API. -/
theorem kept_report {key k : Text} {answers : Answers} {size : ℕ} {content : Bytes} {w : World}
    (hkey : key ≠ []) (hrow : w.row.recordingKey = some k) (hnew : w.row.recordingStoredAt = none)
    (hlive : w.row.recordingExpiredAt = none) (hlast : w.lastUpload = some k)
    (hobject : w.objects.find k = some content) :
    Kept content { reportStored answers key size w with file := none } ↔
      answers.event.applied = true ∧ k = key := by
  unfold Kept reportStored
  by_cases happlied : answers.event.applied = true
  · by_cases hk : k = key
    · subst hk
      simp [happlied, recordingStored, hkey, hrow, playback, hlive, hlast, hobject]
    · simp [happlied, recordingStored, hkey, hrow, hnew, hk]
  · simp [happlied, hnew]

/-- What a session looks like between two attempts. -/
structure Open (content : Bytes) (w : World) : Prop where
  key : ∃ k, w.row.recordingKey = some k
  new : w.row.recordingStoredAt = none
  live : w.row.recordingExpiredAt = none
  file : w.file = some content

theorem Open.putFile {content : Bytes} {w : World} (h : Open content w) (a : Attempt)
    (key : Text) : Open content (putFile a key w) := by
  unfold Recordings.putFile
  rw [h.file]
  dsimp only
  split_ifs
  · exact ⟨h.key, h.new, h.live, rfl⟩
  · exact h

/-- An open session gets a fresh URL, whose key goes to the row. -/
theorem Open.recordingUrl {content : Bytes} {w : World} (h : Open content w) (id : Text)
    (now : ℕ) : recordingUrl id now w.row = .ok (recordingTarget id now (now + 3600000) w.row) := by
  obtain ⟨k, hk⟩ := h.key
  unfold Recordings.recordingUrl
  rw [hk, h.new]
  simp

theorem Open.renamed {content : Bytes} {w : World} (h : Open content w) (id : Text)
    (now validUntil : ℕ) : Open content { w with row := (recordingTarget id now validUntil w.row).2 } :=
  ⟨⟨_, rfl⟩, h.new, h.live, h.file⟩

theorem kept_upload {key k : Text} {answers : Answers} {a : Attempt} {size : ℕ} {content : Bytes}
    {w : World} (hkey : key ≠ []) (hw : Open content w) (hrow : w.row.recordingKey = some k)
    (ha : a.succeeds = true) :
    Kept content { reportStored answers key size (putFile a k w) with file := none } ↔
      answers.event.applied = true ∧ k = key := by
  have hput : putFile a k w =
      { w with objects := w.objects.put k content, lastUpload := some k } := by
    unfold putFile
    rw [hw.file]
    simp [ha]
  rw [hput]
  exact kept_report hkey hrow hw.new hw.live rfl (Table.find_put_self ..)

/-- The loop keeps the recording exactly when the report of its first success is accepted:
it takes effect, and the upload went to the key that it names. -/
theorem upload_kept {id : Text} {check : RecordingTarget} {answers : Answers} {size : ℕ}
    {content : Bytes} (hcheck : check.key ≠ []) {attempts : List ℕ} (h0 : 0 ∉ attempts.tail)
    {target : RecordingTarget} {w : World} (hw : Open content w)
    (hfirst : 0 ∈ attempts → target = check ∧ w.row.recordingKey = some check.key) :
    Kept content (upload id answers check.key size attempts target w) ↔
      ∀ j ∈ attempts.find? (stores check answers), answers.event.applied = true ∧
        (FirstUrl check answers j ∨ recordingKey id (answers.attempts j).now = check.key) := by
  induction attempts generalizing target w with
  | nil =>
    have hkept : Kept content w := fun h => by
      rw [hw.file] at h
      cases h
    exact iff_of_true hkept fun j hj => by cases hj
  | cons i rest ih =>
    have hrest : 0 ∉ rest := h0
    have htail : 0 ∉ rest.tail := fun h => hrest (List.mem_of_mem_tail h)
    have hnext : ∀ {target : RecordingTarget} {w : World}, Open content w →
        (Kept content (upload id answers check.key size rest target w) ↔
          ∀ j ∈ rest.find? (stores check answers), answers.event.applied = true ∧
            (FirstUrl check answers j ∨ recordingKey id (answers.attempts j).now = check.key)) :=
      fun hw => ih htail hw fun h => (hrest h).elim
    unfold upload
    by_cases hold : FirstUrl check answers i
    · -- the first URL goes with the key of the row
      obtain ⟨hi, hexpiry⟩ := hold
      obtain ⟨htarget, hkey⟩ := hfirst (by simp [hi])
      have hurl : urlFor id answers i target w = (some target, w) := by
        unfold urlFor
        rw [if_neg]
        rw [hi, htarget]
        omega
      rw [hurl]
      dsimp only
      by_cases hsucceeds : (answers.attempts i).succeeds = true
      · have hstores : stores check answers i = true := by simp [stores, hi, FirstUrl, hexpiry,
          hi ▸ hsucceeds]
        rw [if_pos hsucceeds, List.find?_cons_of_pos hstores]
        rw [htarget, kept_upload hcheck hw hkey hsucceeds]
        simp [FirstUrl, hi, hexpiry]
      · rw [if_neg hsucceeds, List.find?_cons_of_neg (by simp [stores, hsucceeds])]
        exact hnext (hw.putFile _ _)
    · have hurl : urlFor id answers i target w =
          (if (answers.attempts i).url = .ok then
            some (recordingTarget id (answers.attempts i).now
              ((answers.attempts i).now + 3600000) w.row).1 else none,
          if (answers.attempts i).url.applied then { w with row := (recordingTarget id
            (answers.attempts i).now ((answers.attempts i).now + 3600000) w.row).2 } else w) := by
        unfold urlFor
        rw [if_pos]
        · dsimp only
          rw [hw.recordingUrl]
        by_cases hi : i = 0
        · right
          have hexpiry : ¬ answers.now + 5000 < check.uploadUrlExpiresAt := fun h => hold ⟨hi, h⟩
          rw [(hfirst (by simp [hi])).1]
          omega
        · left
          omega
      rw [hurl]
      by_cases hok : (answers.attempts i).url = .ok
      · have happlied : (answers.attempts i).url.applied = true := by rw [hok]; rfl
        simp only [if_pos hok, if_pos happlied]
        by_cases hsucceeds : (answers.attempts i).succeeds = true
        · have hstores : stores check answers i = true := by simp [stores, hok, hsucceeds]
          rw [if_pos hsucceeds, List.find?_cons_of_pos hstores]
          refine (kept_upload hcheck (hw.renamed id _ _) rfl hsucceeds).trans ?_
          simp [hold, recordingTarget]
        · rw [if_neg hsucceeds, List.find?_cons_of_neg (by simp [stores, hsucceeds])]
          exact hnext ((hw.renamed id _ _).putFile _ _)
      · simp only [hok, if_false]
        rw [List.find?_cons_of_neg (by simp [stores, hold, hok])]
        refine hnext ?_
        split_ifs
        · exact hw.renamed id _ _
        · exact hw

theorem notMem_digits (n : ℕ) : '/' ∉ JsNumber.digits n :=
  JsNumber.notMem_digits (by decide) n

theorem padStart2_month : ∀ a < 12, '/' ∉ padStart2 (JsNumber.digits (a + 1)) ∧ ∀ b < 12,
    padStart2 (JsNumber.digits (a + 1)) = padStart2 (JsNumber.digits (b + 1)) → a = b := by
  decide

theorem recordingKey_congr {id : Text} {a b : ℕ} (h : monthOf a = monthOf b) :
    recordingKey id a = recordingKey id b := by
  unfold recordingKey
  rw [h]

/-- Two keys of a session are the same exactly in the same month. -/
theorem recordingKey_eq_iff {id : Text} {a b : ℕ} :
    recordingKey id a = recordingKey id b ↔ monthOf a = monthOf b := by
  constructor
  · intro h
    have hmonth : ∀ n : ℕ, n % 12 < 12 := fun n => Nat.mod_lt _ (by decide)
    unfold recordingKey at h
    have hsplit := congrArg (Text.split · ['/']) (List.append_cancel_left h)
    simp only [Text.split_append (notMem_digits _),
      Text.split_append (padStart2_month _ (hmonth (monthOf a))).1,
      Text.split_append (padStart2_month _ (hmonth (monthOf b))).1, List.cons.injEq] at hsplit
    have hyear := JsNumber.digits_injective hsplit.1
    have hin := (padStart2_month _ (hmonth (monthOf a))).2 _ (hmonth _) hsplit.2.1
    omega
  · exact recordingKey_congr

/-- If an upload succeeds, the report of the first one takes effect, and its URL was that of the
session check or was asked for in the month of the session check. -/
def ReportedInMonth (checkAt : ℕ) (check : RecordingTarget) (answers : Answers) : Prop :=
  answers.closes = true → ∀ j ∈ (List.range 4).find? (stores check answers),
    answers.event.applied = true ∧
      (FirstUrl check answers j ∨ monthOf (answers.attempts j).now = monthOf checkAt)

/-- A recording is never lost, exactly when its report takes effect and names the month of the
upload. -/
theorem recording_kept (id : Text) (checkAt validUntil : ℕ) (objects : Table Text Bytes)
    (content : Bytes) (answers : Answers) :
    Kept content (session id checkAt validUntil objects content answers) ↔
      ReportedInMonth checkAt (recordingTarget id checkAt validUntil {}).1 answers := by
  have hopen : Open content ⟨(recordingTarget id checkAt validUntil {}).2, objects, none,
      some content⟩ := ⟨⟨_, rfl⟩, rfl, rfl, rfl⟩
  unfold session storeRecording ReportedInMonth
  dsimp only
  split_ifs with hcloses
  · refine (upload_kept (recordingKey_ne id checkAt) (by decide) hopen
      fun _ => ⟨rfl, rfl⟩).trans ?_
    have hkeys : ∀ j, recordingKey id (answers.attempts j).now =
        (recordingTarget id checkAt validUntil {}).1.key ↔
          monthOf (answers.attempts j).now = monthOf checkAt := fun j => recordingKey_eq_iff
    simp only [hkeys, hcloses, true_implies]
  · refine iff_of_true (fun h => ?_) fun h => (hcloses h).elim
    rw [hopen.file] at h
    cases h

/-- The upload at the end of January fails, and the next one has its URL from February: it
succeeds, its report is refused, and the file is deleted. -/
def overMidnight : Answers where
  attempts attempt :=
    if attempt = 0 then { put := some 503 } else { now := 31 * 86400000 }

theorem recording_lost :
    ¬ ∀ (id : Text) (checkAt validUntil : ℕ) (objects : Table Text Bytes) (content : Bytes)
        (answers : Answers), Kept content (session id checkAt validUntil objects content answers) := by
  intro h
  have hlost : (session "s1".toList (31 * 86400000 - 60000) (31 * 86400000) .empty [65]
      overMidnight).file = none ∧ (session "s1".toList (31 * 86400000 - 60000) (31 * 86400000)
        .empty [65] overMidnight).row.recordingStoredAt = none := by
    decide
  have hkept := (h "s1".toList (31 * 86400000 - 60000) (31 * 86400000) .empty [65]
    overMidnight hlost.1).1
  rw [hlost.2] at hkept
  cases hkept

end Prgd.Recordings
