import Prgd.ApiError
import Prgd.Interleaving
import Prgd.Table
import Prgd.Text

/-!
# The nameserver copy of a zone

One hosted zone: its row, its records, its copy at the nameservers and the calls that touch them.
Each statement of the database and each call of the provider is one step; a call of the provider may
fail without effect, and calls interleave in any order. The copy is what stands in the zone apart from
SOA and the NS set of the apex. Records are read in the order of the table.

`sync` reads the rows, pushes the whole zone and records the serial that it has read. Where no sync
that is up to date records its push after another one has pushed over it, and none creates the zone
again after its deletion, a copy that counts as in sync is in sync, once nothing is under way.
-/
namespace Prgd.Zones
open Interleaving

inductive RecordType where
  | A | AAAA | CNAME | MX | TXT | NS | SRV | CAA
  deriving DecidableEq

structure DnsRecord where
  /-- Relative to the zone, with `@` for the apex. -/
  name : Text
  type : RecordType
  content : Text
  ttl : ℕ := 3600
  priority : Option ℕ := none
  deriving DecidableEq

inductive ZoneStatus where
  | pending | active | error | deleting | deleted
  deriving DecidableEq

structure DnsZone where
  name : Text
  status : ZoneStatus := .pending
  serial : ℕ := 1
  syncedSerial : ℕ := 0
  deletedAt : Option ℕ := none
  deriving DecidableEq

structure RRSet where
  name : Text
  type : RecordType
  ttl : ℕ
  records : List Text
  deriving DecidableEq

/-- Record content in wire presentation form: hostnames absolute, TXT quoted. -/
def wire (r : DnsRecord) : Text :=
  match r.type with
  | .CNAME | .NS | .MX => r.content ++ ['.']
  | .SRV =>
      let part (i : ℕ) := (Text.split r.content [' ']).getD i "undefined".toList
      part 0 ++ [' '] ++ part 1 ++ [' '] ++ part 2 ++ ['.']
  | .TXT => ['"'] ++ r.content.flatMap (fun c => if c = '"' then ['\\', '"'] else [c]) ++ ['"']
  | _ => r.content

def DnsRecord.fq (r : DnsRecord) (zone : Text) : Text :=
  if r.name = ['@'] then zone ++ ['.'] else r.name ++ ['.'] ++ zone ++ ['.']

def DnsRecord.line (r : DnsRecord) : Text :=
  (r.priority.elim [] fun p => (toString p).toList ++ [' ']) ++ wire r

/-- One record more in its group. -/
def addTo (zone : Text) (groups : List RRSet) (r : DnsRecord) : List RRSet :=
  if groups.any fun g => g.name == r.fq zone && g.type == r.type then
    groups.map fun g =>
      if g.name = r.fq zone ∧ g.type = r.type then
        { g with ttl := min g.ttl r.ttl, records := g.records ++ [r.line] }
      else g
  else groups ++ [{ name := r.fq zone, type := r.type, ttl := r.ttl, records := [r.line] }]

def toRRSets (zone : Text) (records : List DnsRecord) : List RRSet :=
  records.foldl (addTo zone) []

def MAX_RECORDS : ℕ := 1000

structure Shared where
  zone : DnsZone
  records : Table ℕ DnsRecord
  /-- The copy at the nameservers, if the zone is there. -/
  copy : Option (List RRSet)

inductive Call where
  /-- With what `validateRecord` makes of the request. -/
  | addRecord (data : Except ApiError DnsRecord)
  /-- With what `validateRecord` makes of the record and the changes. -/
  | updateRecord (id : ℕ) (change : DnsRecord → Except ApiError DnsRecord)
  | deleteRecord (id : ℕ)
  | remove
  | resyncPending
  /-- The end of `create`. -/
  | sync

inductive Pc where
  | idle
  | started (call : Call)
  | creating (data : DnsRecord)
  | updating (id : ℕ) (data : DnsRecord)
  | deleting (id : ℕ)
  | touching
  | syncing
  /-- `sync` has read the zone and its records. -/
  | ensuring (serial : ℕ) (records : List DnsRecord)
  | pushing (serial : ℕ) (records : List DnsRecord)
  | marking (serial : ℕ) (records : List DnsRecord)
  | erring
  | removing
  | dropping
  /-- The zone is off the nameservers. -/
  | dropped
  | done
  | failed (error : ApiError)
  /-- A row that a statement names is missing. -/
  | threw

inductive Act where
  | call (c : Call)
  /-- The next step; the provider answers well or fails. -/
  | next (ok : Bool) (now : ℕ)

def DnsZone.pending (z : DnsZone) : Bool :=
  z.deletedAt.isNone && (z.status == .pending || z.status == .error || decide (z.syncedSerial < z.serial))

def unavailable : ApiError where
  status := 502
  code := "nameserver_unavailable"
  message := "The nameservers did not accept the change; try again in a minute"

def notFoundZone (z : DnsZone) : ApiError := .notFound "domain" (String.ofList z.name)

def notFoundRecord (id : ℕ) : ApiError := .notFound "record" (toString id)

def quota (message : String) : ApiError := ⟨403, "quota_exceeded", message, []⟩

namespace Shared

def contents (s : Shared) : List DnsRecord := s.records.rows.map Prod.snd

/-- The first statements of a call, which only read. -/
def begin (s : Shared) : Call → Pc
  | .resyncPending => if s.zone.pending then .syncing else .done
  | .sync => .syncing
  | .addRecord data =>
      if s.zone.deletedAt.isSome then .failed (notFoundZone s.zone)
      else if MAX_RECORDS ≤ s.contents.length then
        .failed (quota "Zone record limit (1000) reached")
      else match data with
        | .error e => .failed e
        | .ok data => .creating data
  | .updateRecord id change =>
      if s.zone.deletedAt.isSome then .failed (notFoundZone s.zone)
      else match s.records.find id with
        | none => .failed (notFoundRecord id)
        | some r =>
            match change r with
            | .error e => .failed e
            | .ok data => .updating id data
  | .deleteRecord id =>
      if s.zone.deletedAt.isSome then .failed (notFoundZone s.zone)
      else if (s.records.find id).isSome then .deleting id
      else .failed (notFoundRecord id)
  | .remove => if s.zone.deletedAt.isSome then .failed (notFoundZone s.zone) else .removing

end Shared

def next (ok : Bool) (now : ℕ) (s : Shared) : Pc → Option (Shared × Pc)
  | .started call => some (s, s.begin call)
  | .creating data => some ({ s with records := s.records.put s.records.fresh data }, .touching)
  | .updating id data =>
      if (s.records.find id).isSome then
        some ({ s with records := s.records.modify id fun _ => data }, .touching)
      else some (s, .threw)
  | .deleting id =>
      if (s.records.find id).isSome then some ({ s with records := s.records.erase id }, .touching)
      else some (s, .threw)
  | .touching => some ({ s with zone := { s.zone with serial := s.zone.serial + 1 } }, .syncing)
  | .syncing =>
      some (s, if s.zone.deletedAt.isSome then .done else .ensuring s.zone.serial s.contents)
  | .ensuring serial records =>
      if ok then some ({ s with copy := some (s.copy.getD []) }, .pushing serial records)
      else some (s, .erring)
  | .pushing serial records =>
      if ok ∧ s.copy.isSome then
        some ({ s with copy := some (toRRSets s.zone.name records) }, .marking serial records)
      else some (s, .erring)
  | .marking serial _ =>
      some ({ s with zone := { s.zone with status := .active, syncedSerial := serial } }, .done)
  | .erring => some ({ s with zone := { s.zone with status := .error } }, .done)
  | .removing => some ({ s with zone := { s.zone with status := .deleting } }, .dropping)
  | .dropping =>
      if ok then some ({ s with copy := none }, .dropped) else some (s, .failed unavailable)
  | .dropped =>
      some ({ s with zone := { s.zone with status := .deleted, deletedAt := some now } }, .done)
  | .idle | .done | .failed _ | .threw => none

def trans (_ : ℕ) (s : Shared) (a : Act) (pc : Pc) : Option (Shared × Pc) :=
  match a, pc with
  | .call c, .idle => some (s, .started c)
  | .next ok now, pc => next ok now s pc
  | _, _ => none

abbrev step : World Shared Pc → ℕ × Act → World Shared Pc := callerStep trans

/-- A zone that was created, with its records; its name may stand at the nameservers. -/
def start (name : Text) (records : Table ℕ DnsRecord) (copy : Option (List RRSet)) :
    World Shared Pc := ⟨⟨{ name }, records, copy⟩, fun _ => .idle⟩

def Pc.ended : Pc → Bool
  | .idle | .done | .failed _ | .threw => true
  | _ => false

/-- No operation is in progress. -/
def Quiet (w : World Shared Pc) : Prop := ∀ q, (w.pc q).ended = true

/-- A copy that counts as in sync is in sync, and a deleted zone has none. -/
structure InSync (s : Shared) : Prop where
  copy : s.zone.status = .active → s.zone.deletedAt = none → s.zone.serial ≤ s.zone.syncedSerial →
    s.copy = some (toRRSets s.zone.name s.contents)
  gone : s.zone.deletedAt.isSome → s.copy = none

/-! ## What a sync must find -/

/-- A sync creates the zone only if no removal has taken it off; and a sync that has read the latest
serial records its push only if no other push went over it. -/
def Apart (w : World Shared Pc) (a : ℕ × Act) : Prop :=
  (∀ serial records, w.pc a.1 = .ensuring serial records → w.shared.copy = none →
    w.shared.zone.deletedAt = none ∧ ∀ q, w.pc q ≠ .dropped) ∧
  (∀ serial records, w.pc a.1 = .marking serial records → w.shared.zone.serial ≤ serial →
    w.shared.copy = none ∨ w.shared.copy = some (toRRSets w.shared.zone.name records))

/-- The records and the serial that a sync has read. -/
def reading : Pc → Option (ℕ × List DnsRecord)
  | .ensuring serial records | .pushing serial records | .marking serial records =>
      some (serial, records)
  | _ => none

/-- A record was written whose serial is still to come. -/
def Touched (w : World Shared Pc) : Prop := ∃ q, w.pc q = .touching

/-- A removal has taken the zone off, and still has to say so. -/
def Dropped (w : World Shared Pc) : Prop := ∃ q, w.pc q = .dropped

structure Sound (w : World Shared Pc) : Prop where
  serial : w.shared.zone.syncedSerial ≤ w.shared.zone.serial
  reads : ∀ q serial records, reading (w.pc q) = some (serial, records) →
    serial ≤ w.shared.zone.serial ∧
      (serial < w.shared.zone.serial ∨ records = w.shared.contents ∨ Touched w)
  copy : w.shared.zone.status = .active → w.shared.zone.deletedAt = none →
    w.shared.zone.serial ≤ w.shared.zone.syncedSerial →
    w.shared.copy = some (toRRSets w.shared.zone.name w.shared.contents) ∨ Touched w ∨ Dropped w ∨
      ∃ q serial records, w.pc q = .marking serial records ∧
        w.shared.copy = some (toRRSets w.shared.zone.name records)
  gone : w.shared.zone.deletedAt.isSome ∨ Dropped w → w.shared.copy = none
  pushed : ∀ q serial records, w.pc q = .marking serial records → w.shared.copy = none →
    w.shared.zone.deletedAt.isSome ∨ Dropped w

section
variable {w : World Shared Pc} {s s' : Shared} {pc pc' : Pc} {i : ℕ} {a : ℕ × Act}

/-- Neither between a write of a record and its serial, nor between the end of the copy and its date,
nor between a push and its mark. -/
def Plain : Pc → Prop
  | .touching | .dropped | .marking _ _ => False
  | _ => True

theorem Touched.update (h : Touched w) (hpc : w.pc i ≠ .touching) :
    Touched ⟨s', Function.update w.pc i pc'⟩ := by
  obtain ⟨q, hq⟩ := h
  have hne : q ≠ i := by
    rintro rfl
    exact hpc hq
  exact ⟨q, (Function.update_of_ne hne _ _).trans hq⟩

theorem Dropped.update (h : Dropped w) (hpc : w.pc i ≠ .dropped) :
    Dropped ⟨s', Function.update w.pc i pc'⟩ := by
  obtain ⟨q, hq⟩ := h
  have hne : q ≠ i := by
    rintro rfl
    exact hpc hq
  exact ⟨q, (Function.update_of_ne hne _ _).trans hq⟩

theorem Dropped.of_update (h : Dropped ⟨s', Function.update w.pc i pc'⟩) (hpc : pc' ≠ .dropped) :
    Dropped w := by
  obtain ⟨q, hq⟩ := h
  dsimp only at hq
  by_cases hqi : q = i
  · subst hqi
    rw [Function.update_self] at hq
    exact (hpc hq).elim
  · rw [Function.update_of_ne hqi] at hq
    exact ⟨q, hq⟩

/-- What every sync has read is what it knows, if the mover knows it. -/
theorem reads_update {P : ℕ → List DnsRecord → Prop}
    (hown : ∀ serial records, reading pc' = some (serial, records) → P serial records)
    (hothers : ∀ q serial records, reading (w.pc q) = some (serial, records) → P serial records) :
    ∀ q serial records, reading (Function.update w.pc i pc' q) = some (serial, records) →
      P serial records :=
  update_cases (P := fun _ pc => ∀ serial records, reading pc = some (serial, records) →
    P serial records) hown fun q _ => hothers q

theorem marking_update {P : List DnsRecord → Prop}
    (hown : ∀ serial records, pc' = .marking serial records → P records)
    (hothers : ∀ q serial records, w.pc q = .marking serial records → P records) :
    ∀ q serial records, Function.update w.pc i pc' q = .marking serial records → P records :=
  update_cases (P := fun _ pc => ∀ (serial : ℕ) records, pc = Pc.marking serial records → P records)
    hown fun q _ => hothers q

/-- A plain step that writes nothing, or only a status that is not `active`. -/
theorem Sound.quiet (h : Sound w) (hpc : Plain (w.pc i)) (hpc' : Plain pc')
    (hserial : s'.zone.serial = w.shared.zone.serial)
    (hsynced : s'.zone.syncedSerial = w.shared.zone.syncedSerial)
    (hname : s'.zone.name = w.shared.zone.name)
    (hdeleted : s'.zone.deletedAt = w.shared.zone.deletedAt)
    (hrecords : s'.records = w.shared.records) (hcopy : s'.copy = w.shared.copy)
    (hstatus : s'.zone.status = .active → w.shared.zone.status = .active)
    (hreads : ∀ serial records, reading pc' = some (serial, records) →
      reading (w.pc i) = some (serial, records) ∨
        serial = w.shared.zone.serial ∧ records = w.shared.contents) :
    Sound ⟨s', Function.update w.pc i pc'⟩ := by
  have htouching : w.pc i ≠ .touching := fun heq => by rw [heq] at hpc; exact hpc
  have hdropped : w.pc i ≠ .dropped := fun heq => by rw [heq] at hpc; exact hpc
  have hdropped' : pc' ≠ .dropped := fun heq => by rw [heq] at hpc'; exact hpc'
  have hmarking : ∀ serial records, w.pc i ≠ .marking serial records := fun _ _ heq => by
    rw [heq] at hpc
    exact hpc
  have hcontents : s'.contents = w.shared.contents := by rw [Shared.contents, hrecords]; rfl
  refine ⟨?_, ?_, fun hactive hlive hle => ?_, fun hgone => ?_, ?_⟩
  · rw [hserial, hsynced]
    exact h.serial
  · refine reads_update (P := fun serial records => serial ≤ s'.zone.serial ∧
      (serial < s'.zone.serial ∨ records = s'.contents ∨ Touched _)) ?_ ?_
    · intro serial records hread
      rw [hserial, hcontents]
      rcases hreads serial records hread with hold | ⟨rfl, rfl⟩
      · obtain ⟨hle, hrest⟩ := h.reads i serial records hold
        exact ⟨hle, hrest.imp_right (Or.imp_right fun ht => ht.update htouching)⟩
      · exact ⟨le_rfl, .inr (.inl rfl)⟩
    · intro q serial records hread
      rw [hserial, hcontents]
      obtain ⟨hle, hrest⟩ := h.reads q serial records hread
      exact ⟨hle, hrest.imp_right (Or.imp_right fun ht => ht.update htouching)⟩
  · rw [hcopy, hname, hcontents]
    rw [hserial, hsynced] at hle
    rw [hdeleted] at hlive
    rcases h.copy (hstatus hactive) hlive hle with hsame | ht | hd | ⟨q, serial, records, hq, hpushed⟩
    · exact .inl hsame
    · exact .inr (.inl (ht.update htouching))
    · exact .inr (.inr (.inl (hd.update hdropped)))
    · refine .inr (.inr (.inr ⟨q, serial, records, ?_, hpushed⟩))
      have hne : q ≠ i := by
        rintro rfl
        exact hmarking _ _ hq
      exact (Function.update_of_ne hne _ _).trans hq
  · rw [hcopy]
    rw [hdeleted] at hgone
    exact h.gone (hgone.imp_right fun hd => hd.of_update hdropped')
  · rw [hcopy, hdeleted]
    intro q serial records hq hnone
    refine marking_update (P := fun _ => w.shared.zone.deletedAt.isSome ∨ Dropped _) ?_ ?_ q serial
      records hq
    · intro serial records heq
      rw [heq] at hpc'
      exact hpc'.elim
    · exact fun q serial records hq =>
        (h.pushed q serial records hq hnone).imp_right fun hd => hd.update hdropped

/-- What the syncs have read stays right where neither the records nor the serial change. -/
theorem Sound.reads_kept (h : Sound w) (hpc : w.pc i ≠ .touching)
    (hread : reading pc' = none ∨ reading pc' = reading (w.pc i)) :
    ∀ q serial records, reading (Function.update w.pc i pc' q) = some (serial, records) →
      serial ≤ w.shared.zone.serial ∧ (serial < w.shared.zone.serial ∨ records = w.shared.contents ∨
        Touched ⟨s', Function.update w.pc i pc'⟩) := by
  have hall : ∀ q serial records, reading (w.pc q) = some (serial, records) →
      serial ≤ w.shared.zone.serial ∧ (serial < w.shared.zone.serial ∨ records = w.shared.contents ∨
        Touched ⟨s', Function.update w.pc i pc'⟩) := by
    intro q serial records hq
    obtain ⟨hle, hrest⟩ := h.reads q serial records hq
    exact ⟨hle, hrest.imp_right (Or.imp_right fun ht => ht.update hpc)⟩
  refine reads_update (fun serial records hown => ?_) hall
  rcases hread with hnone | hsame
  · rw [hnone] at hown
    cases hown
  · exact hall i serial records (hsame ▸ hown)

/-- A sync that has pushed still has the copy, or a removal that took it. -/
theorem Sound.pushed_kept (h : Sound w) (hpc : w.pc i ≠ .dropped)
    (hpc' : ∀ serial records, pc' ≠ .marking serial records) (hnone : w.shared.copy = none) :
    ∀ q serial records, Function.update w.pc i pc' q = .marking serial records →
      w.shared.zone.deletedAt.isSome ∨ Dropped ⟨s', Function.update w.pc i pc'⟩ :=
  marking_update (P := fun _ => w.shared.zone.deletedAt.isSome ∨ Dropped _)
    (fun serial records heq => (hpc' serial records heq).elim) fun q serial records hq =>
      (h.pushed q serial records hq hnone).imp_right fun hd => hd.update hpc

theorem not_dropped_of_copy (h : Sound w) {copy : List RRSet} (hcopy : w.shared.copy = some copy) :
    ¬ (w.shared.zone.deletedAt.isSome ∨ Dropped w) := by
  intro hgone
  rw [h.gone hgone] at hcopy
  cases hcopy

/-- A record is written. -/
theorem sound_write (h : Sound w) {records : Table ℕ DnsRecord} (hpc : Plain (w.pc i)) :
    Sound ⟨{ w.shared with records := records }, Function.update w.pc i .touching⟩ := by
  have hdropped : w.pc i ≠ .dropped := fun heq => by rw [heq] at hpc; exact hpc
  have htouched : Touched ⟨{ w.shared with records := records }, Function.update w.pc i .touching⟩ :=
    ⟨i, Function.update_self _ _ _⟩
  refine ⟨h.serial, ?_, fun _ _ _ => .inr (.inl htouched), fun hgone => ?_, ?_⟩
  · refine reads_update (P := fun serial read => serial ≤ w.shared.zone.serial ∧
      (serial < w.shared.zone.serial ∨ read = _ ∨ Touched _)) (fun _ _ => nofun) ?_
    intro q serial read hread
    exact ⟨(h.reads q serial read hread).1, .inr (.inr htouched)⟩
  · exact h.gone (hgone.imp_right fun hd => hd.of_update nofun)
  · exact fun q serial read hq hnone => h.pushed_kept hdropped (fun _ _ => nofun) hnone q serial read hq

theorem sound_touch (h : Sound w) (hpc : w.pc i = .touching) :
    Sound ⟨{ w.shared with zone := { w.shared.zone with serial := w.shared.zone.serial + 1 } },
      Function.update w.pc i .syncing⟩ := by
  have hdropped : w.pc i ≠ .dropped := by rw [hpc]; exact nofun
  refine ⟨Nat.le_succ_of_le h.serial, ?_, fun _ _ hle => ?_, fun hgone => ?_, ?_⟩
  · refine reads_update (P := fun serial read => serial ≤ w.shared.zone.serial + 1 ∧
      (serial < w.shared.zone.serial + 1 ∨ read = _ ∨ Touched _)) (fun _ _ => nofun) ?_
    intro q serial read hread
    have hle := (h.reads q serial read hread).1
    exact ⟨Nat.le_succ_of_le hle, .inl (Nat.lt_succ_of_le hle)⟩
  · have hserial := h.serial
    exact absurd hle (not_le.mpr (Nat.lt_succ_of_le hserial))
  · exact h.gone (hgone.imp_right fun hd => hd.of_update nofun)
  · exact fun q serial read hq hnone => h.pushed_kept hdropped (fun _ _ => nofun) hnone q serial read hq

/-- `ensureZone` succeeds. -/
theorem sound_ensure (h : Sound w) {serial : ℕ} {records : List DnsRecord}
    (hpc : w.pc i = .ensuring serial records)
    (hapart : w.shared.copy = none → w.shared.zone.deletedAt = none ∧ ∀ q, w.pc q ≠ .dropped) :
    Sound ⟨{ w.shared with copy := some (w.shared.copy.getD []) },
      Function.update w.pc i (.pushing serial records)⟩ := by
  cases hcopy : w.shared.copy with
  | some copy =>
    have hsame : ({ w.shared with copy := some ((some copy).getD []) } : Shared) = w.shared := by
      rw [Option.getD_some, ← hcopy]
    rw [hsame]
    refine h.quiet (by rw [hpc]; trivial) trivial rfl rfl rfl rfl rfl rfl id fun _ _ hread => .inl ?_
    rw [hpc]
    exact hread
  | none =>
    obtain ⟨hlive, hnever⟩ := hapart hcopy
    have hnot : ¬ Dropped w := fun ⟨q, hq⟩ => hnever q hq
    have htouching : w.pc i ≠ .touching := by rw [hpc]; exact nofun
    refine ⟨h.serial, ?_, fun hactive _ hle => ?_, fun hgone => ?_, fun _ _ _ _ => nofun⟩
    · exact h.reads_kept htouching (.inr (by rw [hpc]; rfl))
    · rcases h.copy hactive hlive hle with hsame | ht | hd | ⟨_, _, _, _, hpushed⟩
      · rw [hcopy] at hsame
        cases hsame
      · exact .inr (.inl (ht.update htouching))
      · exact (hnot hd).elim
      · rw [hcopy] at hpushed
        cases hpushed
    · rcases hgone with hdeleted | hd
      · rw [show ({ w.shared with copy := some ((none : Option (List RRSet)).getD []) } : Shared).zone =
          w.shared.zone from rfl, hlive] at hdeleted
        cases hdeleted
      · exact (hnot (hd.of_update nofun)).elim

/-- `syncZone` succeeds. -/
theorem sound_push (h : Sound w) {serial : ℕ} {records : List DnsRecord} {copy : List RRSet}
    (hpc : w.pc i = .pushing serial records) (hcopy : w.shared.copy = some copy) :
    Sound ⟨{ w.shared with copy := some (toRRSets w.shared.zone.name records) },
      Function.update w.pc i (.marking serial records)⟩ := by
  have htouching : w.pc i ≠ .touching := by rw [hpc]; exact nofun
  refine ⟨h.serial, ?_, fun _ _ _ => ?_, fun hgone => ?_, fun _ _ _ _ => nofun⟩
  · exact h.reads_kept htouching (.inr (by rw [hpc]; rfl))
  · exact .inr (.inr (.inr ⟨i, serial, records, Function.update_self _ _ _, rfl⟩))
  · exact (not_dropped_of_copy h hcopy (hgone.imp_right fun hd => hd.of_update nofun)).elim

/-- The end of a sync. -/
theorem sound_mark (h : Sound w) {serial : ℕ} {records : List DnsRecord}
    (hpc : w.pc i = .marking serial records)
    (hapart : w.shared.zone.serial ≤ serial → w.shared.copy = none ∨
      w.shared.copy = some (toRRSets w.shared.zone.name records)) :
    Sound ⟨{ w.shared with zone := { w.shared.zone with status := .active, syncedSerial := serial } },
      Function.update w.pc i .done⟩ := by
  have htouching : w.pc i ≠ .touching := by rw [hpc]; exact nofun
  have hdropped : w.pc i ≠ .dropped := by rw [hpc]; exact nofun
  obtain ⟨hle, hread⟩ := h.reads i serial records (by rw [hpc]; rfl)
  refine ⟨hle, ?_, fun _ hlive hlatest => ?_, fun hgone => ?_, ?_⟩
  · exact h.reads_kept htouching (.inl rfl)
  · rcases hapart hlatest with hnone | hpushed
    · rcases h.pushed i serial records hpc hnone with hdeleted | hd
      · dsimp only at hlive
        rw [hlive] at hdeleted
        cases hdeleted
      · exact .inr (.inr (.inl (hd.update hdropped)))
    · rcases hread with hlt | rfl | ht
      · exact absurd hlatest (not_le.mpr hlt)
      · exact .inl hpushed
      · exact .inr (.inl (ht.update htouching))
  · exact h.gone (hgone.imp_right fun hd => hd.of_update nofun)
  · exact fun q serial read hq hnone => h.pushed_kept hdropped (fun _ _ => nofun) hnone q serial read hq

/-- `deleteZone` succeeds. -/
theorem sound_drop (h : Sound w) (hpc : w.pc i = .dropping) :
    Sound ⟨{ w.shared with copy := none }, Function.update w.pc i .dropped⟩ := by
  have htouching : w.pc i ≠ .touching := by rw [hpc]; exact nofun
  have hdropped : Dropped ⟨{ w.shared with copy := none }, Function.update w.pc i .dropped⟩ :=
    ⟨i, Function.update_self _ _ _⟩
  refine ⟨h.serial, ?_, fun _ _ _ => .inr (.inr (.inl hdropped)), fun _ => rfl,
    fun _ _ _ _ _ => .inr hdropped⟩
  exact h.reads_kept htouching (.inl rfl)

theorem sound_delete (h : Sound w) (hpc : w.pc i = .dropped) (now : ℕ) :
    Sound ⟨{ w.shared with
      zone := { w.shared.zone with status := .deleted, deletedAt := some now } },
      Function.update w.pc i .done⟩ := by
  have htouching : w.pc i ≠ .touching := by rw [hpc]; exact nofun
  refine ⟨h.serial, ?_, fun _ => nofun, fun _ => h.gone (.inr ⟨i, hpc⟩), fun _ _ _ _ _ => .inl rfl⟩
  exact h.reads_kept htouching (.inl rfl)

theorem begin_plain (call : Call) : Plain (s.begin call) ∧ reading (s.begin call) = none := by
  cases call with
  | resyncPending =>
    simp only [Shared.begin]
    split_ifs <;> exact ⟨trivial, rfl⟩
  | sync => exact ⟨trivial, rfl⟩
  | addRecord data =>
    simp only [Shared.begin]
    split_ifs
    · exact ⟨trivial, rfl⟩
    · exact ⟨trivial, rfl⟩
    · split <;> exact ⟨trivial, rfl⟩
  | updateRecord id change =>
    simp only [Shared.begin]
    split_ifs
    · exact ⟨trivial, rfl⟩
    · split
      · exact ⟨trivial, rfl⟩
      · split <;> exact ⟨trivial, rfl⟩
  | deleteRecord id =>
    simp only [Shared.begin]
    split_ifs <;> exact ⟨trivial, rfl⟩
  | remove =>
    simp only [Shared.begin]
    split_ifs <;> exact ⟨trivial, rfl⟩

theorem sound_next {ok : Bool} {now : ℕ} (hapart : Apart w (i, .next ok now))
    (hnext : next ok now w.shared (w.pc i) = some (s', pc')) (h : Sound w) :
    Sound ⟨s', Function.update w.pc i pc'⟩ := by
  obtain ⟨hensure, hmark⟩ := hapart
  dsimp only at hensure hmark
  -- A plain step that writes nothing and reads nothing.
  have hquiet : ∀ pc'', Plain (w.pc i) → Plain pc'' → reading pc'' = none →
      Sound ⟨w.shared, Function.update w.pc i pc''⟩ := fun pc'' hpc hpc'' hread =>
    h.quiet hpc hpc'' rfl rfl rfl rfl rfl rfl id fun _ _ hsome => by rw [hread] at hsome; cases hsome
  generalize hpc : w.pc i = pc at hnext
  have hplain : Plain pc → Plain (w.pc i) := fun hp => hpc ▸ hp
  cases pc with
  | started call =>
    cases hnext
    obtain ⟨hbegin, hread⟩ := begin_plain (s := w.shared) call
    exact hquiet _ (hplain trivial) hbegin hread
  | creating data =>
    cases hnext
    exact sound_write h (hplain trivial)
  | updating id data =>
    simp only [next] at hnext
    split_ifs at hnext <;> cases hnext
    · exact sound_write h (hplain trivial)
    · exact hquiet .threw (hplain trivial) trivial rfl
  | deleting id =>
    simp only [next] at hnext
    split_ifs at hnext <;> cases hnext
    · exact sound_write h (hplain trivial)
    · exact hquiet .threw (hplain trivial) trivial rfl
  | touching =>
    cases hnext
    exact sound_touch h hpc
  | syncing =>
    cases hnext
    split_ifs
    · exact hquiet .done (hplain trivial) trivial rfl
    · refine h.quiet (hplain trivial) trivial rfl rfl rfl rfl rfl rfl id fun _ _ hread => .inr ?_
      cases hread
      exact ⟨rfl, rfl⟩
  | ensuring serial records =>
    simp only [next] at hnext
    split_ifs at hnext <;> cases hnext
    · exact sound_ensure h hpc (hensure serial records hpc)
    · exact hquiet .erring (hplain trivial) trivial rfl
  | pushing serial records =>
    simp only [next] at hnext
    split_ifs at hnext with hok <;> cases hnext
    · obtain ⟨copy, hcopy⟩ := Option.isSome_iff_exists.mp hok.2
      exact sound_push h hpc hcopy
    · exact hquiet .erring (hplain trivial) trivial rfl
  | marking serial records =>
    cases hnext
    exact sound_mark h hpc (hmark serial records hpc)
  | erring =>
    cases hnext
    exact h.quiet (hplain trivial) trivial rfl rfl rfl rfl rfl rfl (by rintro ⟨⟩)
      (by rintro _ _ ⟨⟩)
  | removing =>
    cases hnext
    exact h.quiet (hplain trivial) trivial rfl rfl rfl rfl rfl rfl (by rintro ⟨⟩)
      (by rintro _ _ ⟨⟩)
  | dropping =>
    simp only [next] at hnext
    split_ifs at hnext <;> cases hnext
    · exact sound_drop h hpc
    · exact hquiet _ (hplain trivial) trivial rfl
  | dropped =>
    cases hnext
    exact sound_delete h hpc now
  | idle => cases hnext
  | done => cases hnext
  | failed e => cases hnext
  | threw => cases hnext

theorem sound_step (hapart : Apart w a) (h : Sound w) : Sound (step w a) := by
  rcases callerStep_cases trans w a with heq | ⟨s, c, htrans, heq⟩
  · rw [step, heq]
    exact h
  · rw [step, heq]
    obtain ⟨i, act⟩ := a
    cases act with
    | call c =>
      dsimp only at htrans
      generalize hpc : w.pc i = pc at htrans
      cases pc with
      | idle =>
        cases htrans
        exact h.quiet (by rw [hpc]; trivial) trivial rfl rfl rfl rfl rfl rfl id fun _ _ => nofun
      | _ => cases htrans
    | next ok now => exact sound_next hapart htrans h

theorem Sound.inSync (h : Sound w) (hquiet : Quiet w) : InSync w.shared := by
  have hnot : ∀ q pc, pc.ended = false → w.pc q ≠ pc := by
    rintro q pc hpc rfl
    rw [hquiet q] at hpc
    cases hpc
  refine ⟨fun hactive hlive hle => ?_, fun hdeleted => h.gone (.inl hdeleted)⟩
  rcases h.copy hactive hlive hle with hsame | ⟨q, hq⟩ | ⟨q, hq⟩ | ⟨q, serial, records, hq, -⟩
  · exact hsame
  · exact (hnot q _ rfl hq).elim
  · exact (hnot q _ rfl hq).elim
  · exact (hnot q _ rfl hq).elim

end

/-- Where no sync that is up to date marks what another one has pushed over, and none creates a zone
that was taken off, a zone at rest that counts as in sync is in sync. -/
theorem zone_in_sync (name : Text) (records : Table ℕ DnsRecord) (copy : Option (List RRSet))
    (as : List (ℕ × Act)) (h : Meets step Apart (start name records copy) as)
    (hquiet : Quiet (run step (start name records copy) as)) :
    InSync (run step (start name records copy) as).shared := by
  have hsound : Sound (start name records copy) :=
    ⟨Nat.zero_le _, fun _ _ _ => nofun, nofun, by rintro (hd | ⟨q, hq⟩) <;> [cases hd; cases hq],
      fun _ _ _ => nofun⟩
  exact (h.invariant (fun _ _ hapart hw => sound_step hapart hw) hsound).inSync hquiet

/-! ## Syncs that cross -/

def after (as : List (ℕ × Act)) : World Shared Pc :=
  run step (start "example.com".toList .empty none) as

/-- A call takes its next steps. -/
def goes (i : ℕ) (c : Call) (n : ℕ) : List (ℕ × Act) :=
  (i, .call c) :: List.replicate n (i, .next true 0)

def www : DnsRecord := { name := "www".toList, type := .A, content := "192.0.2.1".toList }

/-- The first sync of the zone pushes between the push and the mark of a later one. -/
def crossing : List (ℕ × Act) :=
  goes 1 .sync 3 ++ goes 0 (.addRecord (.ok www)) 6 ++ List.replicate 2 (1, .next true 0) ++
    [(0, .next true 0)]

/-- A sync has read the zone before its removal. -/
def recreated : List (ℕ × Act) :=
  goes 1 .sync 2 ++ goes 0 .remove 4 ++ List.replicate 3 (1, .next true 0)

theorem quiet_of_ended {as : List (ℕ × Act)} (has : ∀ a ∈ as, a.1 < 2)
    (h : ∀ q < 2, ((after as).pc q).ended = true) : Quiet (after as) :=
  forall_pc (P := fun pc => Pc.ended pc = true) has (fun _ => rfl) h

/-- The zone counts as in sync and misses its record; and a deleted zone is there again. -/
theorem marked_and_behind :
    (Quiet (after crossing) ∧ ¬ InSync (after crossing).shared) ∧
      Quiet (after recreated) ∧ ¬ InSync (after recreated).shared := by
  refine ⟨⟨quiet_of_ended (by decide) (by decide), fun h => ?_⟩,
    quiet_of_ended (by decide) (by decide), fun h => ?_⟩
  · exact absurd (h.copy (by decide) (by decide) (by decide)) (by decide)
  · exact absurd (h.gone (by decide)) (by decide)

/-- A record is added, and then the zone is removed. -/
def inTurn : List (ℕ × Act) := goes 0 (.addRecord (.ok www)) 7 ++ goes 1 .remove 4

/-- The zone is there when a sync ensures it, and has what the sync pushed when it marks. -/
def orderly (w : World Shared Pc) (a : ℕ × Act) : Bool :=
  match w.pc a.1 with
  | .ensuring _ _ => w.shared.copy.isSome
  | .marking _ records => w.shared.copy = some (toRRSets w.shared.zone.name records)
  | _ => true

theorem apart_of_orderly {w : World Shared Pc} {a : ℕ × Act} (h : orderly w a = true) : Apart w a := by
  constructor
  · intro serial records hpc hnone
    rw [orderly, hpc] at h
    dsimp only at h
    rw [hnone] at h
    cases h
  · intro serial records hpc _
    rw [orderly, hpc] at h
    exact .inr (of_decide_eq_true h)

theorem zone_in_sync_in_turn :
    InSync (run step (start "example.com".toList .empty (some [])) inTurn).shared := by
  have hmeets : Meets step (fun w a => orderly w a = true)
      (start "example.com".toList .empty (some [])) inTurn := by
    decide
  refine zone_in_sync _ _ _ inTurn (hmeets.mono fun w a _ h => apart_of_orderly h) ?_
  exact forall_pc (P := fun pc => Pc.ended pc = true) (n := 2) (by decide) (fun _ => rfl)
    (by decide)

end Prgd.Zones
