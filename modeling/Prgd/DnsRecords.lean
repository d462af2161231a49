import Prgd.Encoding
import Prgd.IpAllowlist
import Prgd.QuotedFields
import Prgd.ReverseDns
import Prgd.ZoneSync
import Mathlib.Data.List.Perm.Basic

/-!
# What a published record says

A record is checked by its type and then written twice: as a line of the zone file and as an entry
of the set that the nameservers get. Both are read back here by the rules of master files.

Names and contents that pass the check are made of characters that no field ends at, so each line
and each entry reads as the one record it was written from, where the text of a TXT or CAA record
needs no escape and no second string. A set has one time to live for all of its records, which is
the least of theirs.
-/
namespace Prgd.Zones
open Dns (isHostname isLabel isLabelChar stripDot)

/-! ## The check -/

structure RecordInput where
  name : Text
  type : RecordType
  content : Text
  ttl : Option ℕ := none
  priority : Option ℕ := none
  deriving DecidableEq

def invalid (message : String) : ApiError := .invalid message []

/-- Without a leading `*.`, and `x` for a name that is `*` then. -/
def withoutWildcard (name : Text) : Text :=
  let rest := if Text.startsWith name ['*', '.'] then name.drop 2 else name
  if rest = ['*'] then ['x'] else rest

/-- `host`, with `toLowerCase` as `lower`. -/
def host (lower : Text → Text) (v : Text) : Except ApiError Text :=
  let h := stripDot (lower v)
  if ¬ isHostname h ∨ '.' ∉ h then
    .error (invalid ("\"" ++ String.ofList v ++ "\" is not a valid hostname"))
  else .ok h

def isServiceChar (c : Char) : Bool := Text.isLower c || Text.isDigit c || c == '-'

def isLineTerminator (c : Char) : Bool :=
  c == '\n' || c == '\r' || c.toNat == 0x2028 || c.toNat == 0x2029

/-- The pattern of SRV names. -/
def isServiceName (name : Text) : Bool :=
  name == ['@'] || match Text.split name ['.'] with
    | ('_' :: service) :: protocol :: rest =>
        service ≠ [] && service.all isServiceChar &&
          ["_tcp".toList, "_udp".toList, "_tls".toList].contains protocol && rest ≠ [[]] &&
          rest.all fun part => part.all fun c => !isLineTerminator c
    | _ => false

/-- The weight, the port and the target of SRV content. -/
def serviceParts (content : Text) : Option (Text × Text × Text) :=
  match Text.words content with
  | [weight, port, target] =>
      if Text.isDigits weight ∧ Text.isDigits port then some (weight, port, target) else none
  | _ => none

def CAA_TAGS : List Text := ["issue".toList, "issuewild".toList, "iodef".toList]

/-- A value without the quotes around it, either of which may be missing. -/
def unquoted (s : Text) : Text :=
  let s := if s.head? = some '"' then s.tail else s
  if s.getLast? = some '"' then s.dropLast else s

/-- The flags, the tag and the value of CAA content. -/
def caaParts (content : Text) : Option (Text × Text × Text) :=
  let flags := content.takeWhile Text.isDigit
  let afterFlags := content.dropWhile Text.isDigit
  let rest := afterFlags.dropWhile Text.isSpace
  let tag := rest.takeWhile fun c => !Text.isSpace c
  let afterTag := rest.dropWhile fun c => !Text.isSpace c
  let value := unquoted (afterTag.dropWhile Text.isSpace)
  if flags ≠ [] ∧ rest ≠ afterFlags ∧ tag ∈ CAA_TAGS ∧ afterTag ≠ [] ∧ '"' ∉ value then
    some (flags, tag, value)
  else none

/-- The content and the priority to store. -/
def checkContent (lower : Text → Text) (name : Text) (type : RecordType) (content : Text)
    (priority : Option ℕ) : Except ApiError (Text × Option ℕ) :=
  match type with
  | .A =>
      if IpAddress.isIP content = 4 then .ok (content, priority)
      else .error (invalid "A records need an IPv4 address")
  | .AAAA =>
      if IpAddress.isIP content = 6 then .ok (content, priority)
      else .error (invalid "AAAA records need an IPv6 address")
  | .CNAME =>
      if name = ['@'] then
        .error (invalid "A CNAME cannot sit at the zone apex; use an A record")
      else (host lower content).map (·, priority)
  | .NS =>
      if name = ['@'] then .error (invalid "The apex NS set is managed by prgd")
      else (host lower content).map (·, priority)
  | .MX => (host lower content).map (·, some (priority.getD 10))
  | .SRV =>
      if isServiceName name = false then .error (invalid "SRV names look like _service._tcp")
      else match serviceParts content with
        | none => .error (invalid
            "SRV content is \"weight port target\", for example 5 5060 sip.example.com")
        | some (weight, port, target) => (host lower target).map fun h =>
            (weight ++ [' '] ++ port ++ [' '] ++ h, some (priority.getD 10))
  | .CAA =>
      match caaParts content with
      | none => .error (invalid
          "CAA content is \"flags tag value\", for example 0 issue letsencrypt.org")
      | some (flags, tag, value) =>
          .ok (flags ++ [' '] ++ tag ++ [' ', '"'] ++ value ++ ['"'], priority)
  | .TXT =>
      if 4000 < Text.length16 content then .error (invalid "TXT content is too long")
      else .ok (content, priority)

/-- A CNAME must be alone at its name. -/
def checkSiblings (name : Text) (type : RecordType) (siblings : List RecordType) :
    Except ApiError Unit :=
  if type = .CNAME ∧ siblings ≠ [] then
    .error (.conflict "cname_conflict"
      ("\"" ++ String.ofList name ++ "\" already has other records; a CNAME must stand alone"))
  else if type ≠ .CNAME ∧ .CNAME ∈ siblings then
    .error (.conflict "cname_conflict"
      ("\"" ++ String.ofList name ++ "\" is a CNAME; delete it before adding other records"))
  else .ok ()

def checkName (zone name : Text) : Except ApiError Unit :=
  if name ≠ ['@'] ∧ ¬ isHostname (withoutWildcard name) then
    .error (invalid ("\"" ++ String.ofList name ++ "\" is not a valid record name"))
  else if Text.endsWith name ('.' :: zone) ∨ name = zone then
    .error (invalid "Use a name relative to the zone, or @ for the zone itself")
  else .ok ()

/-- With the types of the other records at the name. -/
def validateRecord (lower : Text → Text) (zone : Text) (siblings : List RecordType)
    (r : RecordInput) : Except ApiError DnsRecord := do
  checkName zone r.name
  let (content, priority) ← checkContent lower r.name r.type (Text.trim r.content) r.priority
  checkSiblings r.name r.type siblings
  return {
    name := r.name
    type := r.type
    content
    ttl := r.ttl.getD 3600
    priority := if r.type = .MX ∨ r.type = .SRV then priority else none }

/-! ## The zone file -/

def RecordType.text : RecordType → Text
  | .A => "A".toList
  | .AAAA => "AAAA".toList
  | .CNAME => "CNAME".toList
  | .MX => "MX".toList
  | .TXT => "TXT".toList
  | .NS => "NS".toList
  | .SRV => "SRV".toList
  | .CAA => "CAA".toList

def naturalText (n : ℕ) : Text := (toString n).toList

/-- The line of one record. -/
def recordLine (r : DnsRecord) : Text :=
  r.name ++ ['\t'] ++ naturalText r.ttl ++ ['\t'] ++ "IN".toList ++ ['\t'] ++ r.type.text ++
    ['\t'] ++ r.line

/-- `hostmaster.replace('@', '.')` -/
def mailbox (hostmaster : Text) : Text :=
  match Text.breakOn ['@'] hostmaster with
  | some (user, domain) => user ++ ['.'] ++ domain
  | none => hostmaster

/-- The origin, the default time to live, the SOA record and the NS records of the apex. -/
def zoneHead (z : DnsZone) (nameservers : List Text) (hostmaster : Text) : List Text :=
  ["$ORIGIN ".toList ++ z.name ++ ['.'], "$TTL 3600".toList,
    "@\tIN\tSOA\t".toList ++ nameservers.headD "undefined".toList ++ ". ".toList ++
      mailbox hostmaster ++ ". ".toList ++ naturalText z.serial ++
      " 10800 3600 604800 3600".toList] ++
    nameservers.map fun ns => "@\tIN\tNS\t".toList ++ ns ++ ['.']

/-- BIND style text of the zone. -/
def zoneFile (z : DnsZone) (nameservers : List Text) (hostmaster : Text)
    (records : List DnsRecord) : Text :=
  Text.join ['\n'] (zoneHead z nameservers hostmaster ++ records.map recordLine) ++ ['\n']

/-! ## The rules of master files -/

/-- The blanks between fields. -/
def isBlank (c : Char) : Bool := c == ' ' || c == '\t'

/-- A quoted string has at most 255 bytes. -/
def fitsString (s : Text) : Bool := decide ((Encoding.utf8 s).length ≤ 255)

abbrev Field := QuotedFields.Field Char

def fields (s : Text) : Option (List Field) := QuotedFields.fields isBlank '"' '\\' fitsString s

def Field.word : Field → Option Text
  | .bare w => some w
  | .quoted _ => none

def Field.string : Field → Option Text
  | .bare _ => none
  | .quoted s => some s

def readNumber (s : Text) : Option ℕ :=
  if Text.isDigits s then some (Text.digitsValue s) else none

/-- A name that is complete, without its final dot. -/
def readHost (s : Text) : Option Text := if s.getLast? = some '.' then some s.dropLast else none

/-- The priority and the content that the data of a record stand for. -/
def readData : RecordType → List Field → Option (Option ℕ × Text)
  | .A, [.bare ip] | .AAAA, [.bare ip] => some (none, ip)
  | .CNAME, [.bare h] | .NS, [.bare h] => (readHost h).map (none, ·)
  | .MX, [.bare p, .bare h] => do return (some (← readNumber p), ← readHost h)
  | .SRV, [.bare p, .bare weight, .bare port, .bare h] => do
      return (some (← readNumber p), weight ++ [' '] ++ port ++ [' '] ++ (← readHost h))
  | .CAA, [.bare flags, .bare tag, .quoted value] =>
      some (none, flags ++ [' '] ++ tag ++ [' ', '"'] ++ value ++ ['"'])
  | .TXT, s :: strings => ((s :: strings).mapM Field.string).map fun ss => (none, ss.flatten)
  | _, _ => none

/-- The record of an entry under the name, the type and the time to live of its set. -/
def readEntry (name : Text) (type : RecordType) (ttl : ℕ) (entry : Text) : Option DnsRecord := do
  let (priority, content) ← readData type (← fields entry)
  return { name, type, content, ttl, priority }

def readType (s : Text) : Option RecordType :=
  [RecordType.A, .AAAA, .CNAME, .MX, .TXT, .NS, .SRV, .CAA].find? fun t => t.text = s

def ofFields : List Field → Option DnsRecord
  | .bare name :: .bare ttl :: .bare kind :: .bare type :: data =>
      if kind = "IN".toList then do
        let ttl ← readNumber ttl
        let type ← readType type
        let (priority, content) ← readData type data
        return { name, type, content, ttl, priority }
      else none
  | _ => none

/-- The record of a line, with its name relative to the origin. -/
def readLine (line : Text) : Option DnsRecord := do ofFields (← fields line)

/-- The name relative to the zone of a name with all of its labels. -/
def relativeName (zone name : Text) : Text :=
  if name = zone ++ ['.'] then ['@'] else name.take (name.length - (zone.length + 2))

def readSet (zone : Text) (set : RRSet) : List (Option DnsRecord) :=
  set.records.map (readEntry (relativeName zone set.name) set.type set.ttl)

/-! ## What is stored -/

/-- The type, the content and the priority of a record that passed the check. -/
inductive Stored : RecordType → Text → Option ℕ → Prop where
  | address {type : RecordType} {content : Text} {ip : IpAddress.Ip}
      (htype : type = .A ∨ type = .AAAA) (hip : IpAddress.parse content = some ip) :
      Stored type content none
  | hostname {type : RecordType} {h : Text} (htype : type = .CNAME ∨ type = .NS)
      (hh : isHostname h = true) : Stored type h none
  | mail {h : Text} (p : ℕ) (hh : isHostname h = true) : Stored .MX h (some p)
  | service {weight port h : Text} (p : ℕ) (hweight : Text.isDigits weight = true)
      (hport : Text.isDigits port = true) (hh : isHostname h = true) :
      Stored .SRV (weight ++ [' '] ++ port ++ [' '] ++ h) (some p)
  | caa {flags tag value : Text} (hflags : Text.isDigits flags = true) (htag : tag ∈ CAA_TAGS)
      (hvalue : '"' ∉ value) :
      Stored .CAA (flags ++ [' '] ++ tag ++ [' ', '"'] ++ value ++ ['"']) none
  | text (content : Text) : Stored .TXT content none

/-- `validateRecord` has let it through. -/
def Accepted (lower : Text → Text) (zone : Text) (r : DnsRecord) : Prop :=
  ∃ siblings input, validateRecord lower zone siblings input = .ok r

/-- What a record has between quotes. -/
def quotedText (r : DnsRecord) : Text :=
  match r.type with
  | .TXT => r.content
  | .CAA => (Text.split r.content ['"']).getD 1 []
  | _ => []

/-- It fits in one string, on one line and without an escape of its own. -/
structure Quotable (r : DnsRecord) : Prop where
  fits : fitsString (quotedText r) = true
  slash : '\\' ∉ quotedText r
  newline : '\n' ∉ quotedText r

/-- The least time to live of the records with the name and the type. -/
def leastTtl (rs : List DnsRecord) (r : DnsRecord) : ℕ :=
  ((rs.filter fun s => s.name = r.name ∧ s.type = r.type).map DnsRecord.ttl).min?.getD r.ttl

theorem host_ok {lower : Text → Text} {v h : Text} (hv : host lower v = .ok h) :
    isHostname h = true := by
  rw [host] at hv
  split_ifs at hv with hbad
  cases hv
  rw [not_or, not_not] at hbad
  exact hbad.1

theorem host_map_ok {lower : Text → Text} {v : Text} {p : Option ℕ} {f : Text → Text}
    {d : Text × Option ℕ} (h : (host lower v).map (fun h => (f h, p)) = .ok d) :
    ∃ h, isHostname h = true ∧ d = (f h, p) := by
  cases hv : host lower v with
  | error e => rw [hv] at h; cases h
  | ok h' =>
    rw [hv] at h
    cases h
    exact ⟨h', host_ok hv, rfl⟩

theorem parse_of_isIP {s : Text} {n : ℕ} (h : IpAddress.isIP s = n) (hn : n ≠ 0) :
    ∃ ip, IpAddress.parse s = some ip := by
  cases hp : IpAddress.parse s with
  | some ip => exact ⟨ip, rfl⟩
  | none =>
    rw [IpAddress.isIP, hp] at h
    exact absurd h.symm hn

theorem serviceParts_eq {content weight port target : Text}
    (h : serviceParts content = some (weight, port, target)) :
    Text.isDigits weight = true ∧ Text.isDigits port = true := by
  rw [serviceParts] at h
  split at h
  · split_ifs at h with hdigits
    cases h
    exact hdigits
  · cases h

theorem caaParts_eq {content flags tag value : Text}
    (h : caaParts content = some (flags, tag, value)) :
    Text.isDigits flags = true ∧ tag ∈ CAA_TAGS ∧ '"' ∉ value := by
  rw [caaParts] at h
  split_ifs at h with hok
  cases h
  obtain ⟨hflags, -, htag, -, hvalue⟩ := hok
  exact ⟨Cron.isDigits_takeWhile (by simpa using hflags), htag, hvalue⟩

/-- Only two types keep a priority. -/
def keptPriority (type : RecordType) (p : Option ℕ) : Option ℕ :=
  if type = .MX ∨ type = .SRV then p else none

theorem stored_of_checkContent {lower : Text → Text} {name content content' : Text}
    {type : RecordType} {p p' : Option ℕ}
    (h : checkContent lower name type content p = .ok (content', p')) :
    Stored type content' (keptPriority type p') := by
  rw [checkContent.eq_def] at h
  cases type with
  | A =>
    dsimp only at h
    split_ifs at h with hip
    cases h
    obtain ⟨ip, hip⟩ := parse_of_isIP hip (by decide)
    exact .address (.inl rfl) hip
  | AAAA =>
    dsimp only at h
    split_ifs at h with hip
    cases h
    obtain ⟨ip, hip⟩ := parse_of_isIP hip (by decide)
    exact .address (.inr rfl) hip
  | CNAME =>
    dsimp only at h
    split_ifs at h
    obtain ⟨h', hh, hd⟩ := host_map_ok h
    cases hd
    exact .hostname (.inl rfl) hh
  | NS =>
    dsimp only at h
    split_ifs at h
    obtain ⟨h', hh, hd⟩ := host_map_ok h
    cases hd
    exact .hostname (.inr rfl) hh
  | MX =>
    obtain ⟨h', hh, hd⟩ := host_map_ok h
    cases hd
    exact .mail (p.getD 10) hh
  | SRV =>
    dsimp only at h
    split_ifs at h
    split at h
    · cases h
    · rename_i weight port target hparts
      obtain ⟨h', hh, hd⟩ := host_map_ok h
      cases hd
      obtain ⟨hweight, hport⟩ := serviceParts_eq hparts
      exact .service (p.getD 10) hweight hport hh
  | CAA =>
    dsimp only at h
    split at h
    · cases h
    · rename_i flags tag value hparts
      cases h
      obtain ⟨hflags, htag, hvalue⟩ := caaParts_eq hparts
      exact .caa hflags htag hvalue
  | TXT =>
    dsimp only at h
    split_ifs at h
    cases h
    exact .text content

/-- A name or a label of it: neither blank nor quote nor escape nor line break. -/
structure Solid (s : Text) : Prop where
  nonempty : s ≠ []
  plain : ∀ c ∈ s, isBlank c = false ∧ c ≠ '"' ∧ c ≠ '\n'

theorem Solid.bare {s : Text} (h : Solid s) : QuotedFields.IsBare isBlank '"' s :=
  ⟨h.nonempty, fun c hc => ⟨(h.plain c hc).1, (h.plain c hc).2.1⟩⟩

/-- Above the quote in the order of characters. -/
theorem solid_of_range {s : Text} (hne : s ≠ []) (h : ∀ c ∈ s, 34 < c.toNat) : Solid s := by
  refine ⟨hne, fun c hc => ⟨?_, ?_, ?_⟩⟩
  · have hrange := h c hc
    rw [isBlank, Bool.or_eq_false_iff, beq_eq_false_iff_ne, beq_eq_false_iff_ne]
    constructor
    · rintro rfl
      exact absurd hrange (by decide)
    · rintro rfl
      exact absurd hrange (by decide)
  · rintro rfl
    exact absurd (h _ hc) (by decide)
  · rintro rfl
    exact absurd (h _ hc) (by decide)

theorem solid_of_all {s : Text} (h : (!s.isEmpty && s.all fun c => decide (34 < c.toNat)) = true) :
    Solid s := by
  rw [Bool.and_eq_true, List.all_eq_true] at h
  exact solid_of_range (by simpa using h.1) fun c hc => of_decide_eq_true (h.2 c hc)

theorem digit_range {c : Char} (h : Text.isDigit c = true) : 34 < c.toNat := by
  simp only [Text.isDigit, Bool.and_eq_true, decide_eq_true_eq] at h
  have : 48 ≤ c.toNat := h.1
  omega

theorem solid_of_isDigits {s : Text} (h : Text.isDigits s = true) : Solid s :=
  have hdigits := Cron.isDigits_iff.mp h
  solid_of_range hdigits.1 fun c hc => digit_range (hdigits.2 c hc)

theorem isDigits_naturalText (n : ℕ) : Text.isDigits (naturalText n) = true := by
  have hdigits : naturalText n = JsNumber.digits n := Nat.toList_repr
  rw [hdigits, Cron.isDigits_iff]
  exact ⟨Nat.toDigits_ne_nil, JsNumber.isDigit_digits n⟩

theorem labelChar_range {c : Char} (h : isLabelChar c = true) : 34 < c.toNat := by
  simp only [isLabelChar, Text.isLetter, Text.isUpper, Text.isLower, Bool.or_eq_true,
    Bool.and_eq_true, decide_eq_true_eq, beq_iff_eq] at h
  rcases h with (((h | h) | h) | rfl) | rfl
  · have : 65 ≤ c.toNat := h.1
    omega
  · have : 97 ≤ c.toNat := h.1
    omega
  · exact digit_range h
  · decide
  · decide

theorem hostname_range {h : Text} (hh : isHostname h = true) :
    h ≠ [] ∧ ∀ c ∈ h, 34 < c.toNat := by
  rw [isHostname, Bool.and_eq_true, decide_eq_true_eq, List.all_eq_true] at hh
  refine ⟨List.ne_nil_of_length_pos hh.1.1, fun c hc => ?_⟩
  rcases Text.mem_split '.' hc with rfl | ⟨label, hlabel, hc⟩
  · decide
  · have hchars := hh.2 label hlabel
    rw [isLabel, Bool.and_eq_true, Bool.and_eq_true, Bool.and_eq_true, List.all_eq_true] at hchars
    exact labelChar_range (hchars.1.1.1 c hc)

theorem solid_hostname {h : Text} (hh : isHostname h = true) : Solid (h ++ ['.']) := by
  obtain ⟨-, hrange⟩ := hostname_range hh
  refine solid_of_range (by simp) fun c hc => ?_
  rcases List.mem_append.mp hc with hc | hc
  · exact hrange c hc
  · rw [List.mem_singleton.mp hc]
    decide

theorem solid_address {s : Text} {ip : IpAddress.Ip} (h : IpAddress.parse s = some ip) :
    Solid s := by
  refine solid_of_range ?_ fun c hc => ?_
  · rintro rfl
    have hnone : IpAddress.parse [] = none := by decide
    rw [hnone] at h
    cases h
  · have hbounds := IpAllowlist.isZone_bounds (IpAllowlist.char_of_parse h c hc)
    omega

theorem mem_withoutWildcard {name : Text} {c : Char} (hc : c ∈ name) :
    c = '*' ∨ c = '.' ∨ c ∈ withoutWildcard name := by
  have hsplit : c = '*' ∨ c = '.' ∨
      c ∈ if Text.startsWith name ['*', '.'] then name.drop 2 else name := by
    split_ifs with hstar
    · obtain ⟨rest, rfl⟩ := List.isPrefixOf_iff_prefix.mp hstar
      simpa [List.mem_append, or_assoc] using hc
    · exact .inr (.inr hc)
  rcases hsplit with rfl | rfl | hrest
  · exact .inl rfl
  · exact .inr (.inl rfl)
  · by_cases hlone : (if Text.startsWith name ['*', '.'] then name.drop 2 else name) = ['*']
    · rw [hlone] at hrest
      exact .inl (List.mem_singleton.mp hrest)
    · refine .inr (.inr ?_)
      rw [withoutWildcard, if_neg hlone]
      exact hrest

theorem solid_name {zone name : Text} (h : checkName zone name = .ok ()) : Solid name := by
  rw [checkName] at h
  split_ifs at h with hbad
  rw [not_and_or, not_not, not_not] at hbad
  rcases hbad with rfl | hhost
  · exact solid_of_all (by decide)
  · obtain ⟨hne, hrange⟩ := hostname_range hhost
    refine solid_of_range ?_ fun c hc => ?_
    · rintro rfl
      exact hne rfl
    · rcases mem_withoutWildcard hc with rfl | rfl | hc
      · decide
      · decide
      · exact hrange c hc

/-! ## Reading back -/

theorem fields_solid {s : Text} (h : Solid s) : fields s = some [.bare s] :=
  QuotedFields.fields_bare h.bare

theorem fields_solid_blank {s : Text} (h : Solid s) {c : Char} (hc : isBlank c = true)
    (rest : Text) : fields (s ++ c :: rest) = (fields rest).map (.bare s :: ·) :=
  QuotedFields.fields_bare_blank h.bare hc rest

/-- Where nothing but quotes is to be escaped. -/
theorem escape_eq {s : Text} (h : '\\' ∉ s) :
    QuotedFields.escape '"' '\\' s = s.flatMap fun c => if c = '"' then ['\\', '"'] else [c] := by
  rw [QuotedFields.escape]
  refine List.flatMap_congr fun c hc => ?_
  have hslash : c ≠ '\\' := ne_of_mem_of_not_mem hc h
  by_cases hquote : c = '"'
  · rw [if_pos (.inl hquote), if_pos hquote, hquote]
  · rw [if_neg (not_or.mpr ⟨hquote, hslash⟩), if_neg hquote]

theorem escape_of_notMem {s : Text} (hslash : '\\' ∉ s) (hquote : '"' ∉ s) :
    QuotedFields.escape '"' '\\' s = s := by
  rw [escape_eq hslash]
  have hplain : ∀ c ∈ s, (if c = '"' then ['\\', '"'] else [c]) = [c] := fun c hc =>
    if_neg (ne_of_mem_of_not_mem hc hquote)
  rw [List.flatMap_congr hplain, List.flatMap_singleton']

theorem fields_escape {s : Text} (hs : fitsString s = true) :
    fields ('"' :: (QuotedFields.escape '"' '\\' s ++ ['"'])) = some [.quoted s] :=
  QuotedFields.fields_quoted (by decide) (by decide) hs []

theorem readNumber_naturalText (n : ℕ) : readNumber (naturalText n) = some n := by
  have hdigits : naturalText n = JsNumber.digits n := Nat.toList_repr
  rw [readNumber, if_pos (isDigits_naturalText n), hdigits, JsNumber.digitsValue_digits]

theorem readHost_dot (h : Text) : readHost (h ++ ['.']) = some h := by
  rw [readHost, List.getLast?_concat, if_pos rfl, List.dropLast_concat]

/-- The line stands for the stored priority and content, and has no line break in it. -/
structure Reads (type : RecordType) (content : Text) (priority : Option ℕ) (line : Text) :
    Prop where
  data : ∃ fs, fields line = some fs ∧ readData type fs = some (priority, content)
  newline : '\n' ∉ line

theorem Solid.notMem {s : Text} (h : Solid s) : '\n' ∉ s := fun hc => (h.plain _ hc).2.2 rfl

theorem reads_address {type : RecordType} {content : Text} (htype : type = .A ∨ type = .AAAA)
    (h : Solid content) : Reads type content none content where
  data := by
    refine ⟨_, fields_solid h, ?_⟩
    rcases htype with rfl | rfl <;> rfl
  newline := h.notMem

theorem reads_hostname {type : RecordType} {h : Text} (htype : type = .CNAME ∨ type = .NS)
    (hh : isHostname h = true) : Reads type h none (h ++ ['.']) where
  data := by
    refine ⟨_, fields_solid (solid_hostname hh), ?_⟩
    rcases htype with rfl | rfl
    · rw [readData, readHost_dot]; rfl
    · rw [readData, readHost_dot]; rfl
  newline := (solid_hostname hh).notMem

theorem notMem_append {c : Char} {s t : Text} (hs : c ∉ s) (ht : c ∉ t) : c ∉ s ++ t :=
  fun h => (List.mem_append.mp h).elim hs ht

theorem solid_naturalText (n : ℕ) : Solid (naturalText n) :=
  solid_of_isDigits (isDigits_naturalText n)

theorem reads_mail {h : Text} (p : ℕ) (hh : isHostname h = true) :
    Reads .MX h (some p) (naturalText p ++ ' ' :: (h ++ ['.'])) where
  data := by
    refine ⟨[.bare (naturalText p), .bare (h ++ ['.'])], ?_, ?_⟩
    · rw [fields_solid_blank (solid_naturalText p) rfl, fields_solid (solid_hostname hh)]
      rfl
    · rw [readData, readNumber_naturalText, readHost_dot]
      rfl
  newline := notMem_append (solid_naturalText p).notMem
    (List.not_mem_cons_of_ne_of_not_mem (by decide) (solid_hostname hh).notMem)

theorem reads_service {weight port h : Text} (p : ℕ) (hweight : Text.isDigits weight = true)
    (hport : Text.isDigits port = true) (hh : isHostname h = true) :
    Reads .SRV (weight ++ [' '] ++ port ++ [' '] ++ h) (some p)
      (naturalText p ++ ' ' :: (weight ++ ' ' :: (port ++ ' ' :: (h ++ ['.'])))) where
  data := by
    refine ⟨[.bare (naturalText p), .bare weight, .bare port, .bare (h ++ ['.'])], ?_, ?_⟩
    · rw [fields_solid_blank (solid_naturalText p) rfl,
        fields_solid_blank (solid_of_isDigits hweight) rfl,
        fields_solid_blank (solid_of_isDigits hport) rfl, fields_solid (solid_hostname hh)]
      rfl
    · rw [readData, readNumber_naturalText, readHost_dot]
      rfl
  newline := by
    have hspace : '\n' ≠ ' ' := by decide
    exact notMem_append (solid_naturalText p).notMem (List.not_mem_cons_of_ne_of_not_mem hspace
      (notMem_append (solid_of_isDigits hweight).notMem (List.not_mem_cons_of_ne_of_not_mem hspace
        (notMem_append (solid_of_isDigits hport).notMem
          (List.not_mem_cons_of_ne_of_not_mem hspace (solid_hostname hh).notMem)))))

theorem solid_tag {tag : Text} (h : tag ∈ CAA_TAGS) : Solid tag := by
  have hall : (CAA_TAGS.all fun t => !t.isEmpty && t.all fun c => decide (34 < c.toNat)) = true := by
    decide
  exact solid_of_all (List.all_eq_true.mp hall tag h)

theorem reads_caa {flags tag value : Text} (hflags : Text.isDigits flags = true)
    (htag : tag ∈ CAA_TAGS) (hvalue : '"' ∉ value) (hfits : fitsString value = true)
    (hslash : '\\' ∉ value) (hnewline : '\n' ∉ value) :
    Reads .CAA (flags ++ [' '] ++ tag ++ [' ', '"'] ++ value ++ ['"']) none
      (flags ++ ' ' :: (tag ++ ' ' :: '"' :: (value ++ ['"']))) where
  data := by
    refine ⟨[.bare flags, .bare tag, .quoted value], ?_, rfl⟩
    have hquoted := fields_escape hfits
    rw [escape_of_notMem hslash hvalue] at hquoted
    rw [fields_solid_blank (solid_of_isDigits hflags) rfl, fields_solid_blank (solid_tag htag) rfl,
      hquoted]
    rfl
  newline := by
    have hspace : '\n' ≠ ' ' := by decide
    exact notMem_append (solid_of_isDigits hflags).notMem
      (List.not_mem_cons_of_ne_of_not_mem hspace (notMem_append (solid_tag htag).notMem
        (List.not_mem_cons_of_ne_of_not_mem hspace
          (List.not_mem_cons_of_ne_of_not_mem (by decide) (notMem_append hnewline (by decide))))))

theorem reads_text {content : Text} (hfits : fitsString content = true) (hslash : '\\' ∉ content)
    (hnewline : '\n' ∉ content) : Reads .TXT content none
      (['"'] ++ content.flatMap (fun c => if c = '"' then ['\\', '"'] else [c]) ++ ['"']) where
  data := by
    refine ⟨[.quoted content], ?_, ?_⟩
    · rw [← escape_eq hslash]
      exact fields_escape hfits
    · simp [readData, Field.string]
  newline := by
    refine notMem_append (notMem_append (by decide) fun hc => ?_) (by decide)
    obtain ⟨c, hmem, hc⟩ := List.mem_flatMap.mp hc
    split_ifs at hc with hquote
    · exact absurd hc (by decide)
    · exact hnewline (List.mem_singleton.mp hc ▸ hmem)

theorem quotedText_caa {flags tag value : Text} (hflags : Text.isDigits flags = true)
    (htag : tag ∈ CAA_TAGS) (hvalue : '"' ∉ value) :
    (Text.split (flags ++ [' '] ++ tag ++ [' ', '"'] ++ value ++ ['"']) ['"']).getD 1 [] = value := by
  have hfront : '"' ∉ flags ++ ' ' :: (tag ++ [' ']) := by
    refine notMem_append (fun hc => ?_) (List.not_mem_cons_of_ne_of_not_mem (by decide)
      (notMem_append (fun hc => ?_) (by decide)))
    · exact ((solid_of_isDigits hflags).plain _ hc).2.1 rfl
    · exact ((solid_tag htag).plain _ hc).2.1 rfl
  have heq : flags ++ [' '] ++ tag ++ [' ', '"'] ++ value ++ ['"'] =
      (flags ++ ' ' :: (tag ++ [' '])) ++ '"' :: (value ++ '"' :: []) := by
    simp only [List.append_assoc, List.cons_append, List.nil_append]
  rw [heq, Text.split_append hfront, Text.split_append hvalue]
  rfl

theorem wire_service {name weight port h : Text} {ttl : ℕ} {p : Option ℕ}
    (hweight : Text.isDigits weight = true) (hport : Text.isDigits port = true)
    (hh : isHostname h = true) :
    wire ⟨name, .SRV, weight ++ [' '] ++ port ++ [' '] ++ h, ttl, p⟩ =
      weight ++ ' ' :: (port ++ ' ' :: (h ++ ['.'])) := by
  have hblank {s : Text} (hs : Solid s) : ' ' ∉ s := fun hc =>
    Bool.false_ne_true ((hs.plain _ hc).1.symm.trans (by decide))
  have hhost : ' ' ∉ h := fun hc => hblank (solid_hostname hh) (List.mem_append_left _ hc)
  have hsplit : Text.split (weight ++ [' '] ++ port ++ [' '] ++ h) [' '] = [weight, port, h] := by
    have heq : weight ++ [' '] ++ port ++ [' '] ++ h = weight ++ ' ' :: (port ++ ' ' :: h) := by
      simp only [List.append_assoc, List.cons_append, List.nil_append]
    rw [heq, Text.split_append (hblank (solid_of_isDigits hweight)),
      Text.split_append (hblank (solid_of_isDigits hport)), Text.split_of_notMem hhost]
  rw [wire]
  dsimp only
  rw [hsplit]
  simp only [List.getD_cons_zero, List.getD_cons_succ, List.append_assoc, List.cons_append,
    List.nil_append]

theorem reads_line {r : DnsRecord} (h : Stored r.type r.content r.priority) (hq : Quotable r) :
    Reads r.type r.content r.priority r.line := by
  obtain ⟨name, type, content, ttl, priority⟩ := r
  obtain ⟨hfits, hslash, hnewline⟩ := hq
  dsimp only at h ⊢
  cases h with
  | address htype hip =>
    have hreads := reads_address htype (solid_address hip)
    rcases htype with rfl | rfl
    · exact hreads
    · exact hreads
  | hostname htype hh =>
    have hreads := reads_hostname htype hh
    rcases htype with rfl | rfl
    · exact hreads
    · exact hreads
  | mail p hh =>
    have hline : DnsRecord.line ⟨name, .MX, content, ttl, some p⟩ =
        naturalText p ++ ' ' :: (content ++ ['.']) := List.append_assoc _ _ _
    rw [hline]
    exact reads_mail p hh
  | @service weight port h p hweight hport hh =>
    have hline : DnsRecord.line ⟨name, .SRV, weight ++ [' '] ++ port ++ [' '] ++ h, ttl, some p⟩ =
        naturalText p ++ ' ' :: (weight ++ ' ' :: (port ++ ' ' :: (h ++ ['.']))) := by
      rw [DnsRecord.line, wire_service hweight hport hh]
      exact List.append_assoc _ _ _
    rw [hline]
    exact reads_service p hweight hport hh
  | @caa flags tag value hflags htag hvalue =>
    have hquoted : quotedText ⟨name, .CAA, flags ++ [' '] ++ tag ++ [' ', '"'] ++ value ++ ['"'],
        ttl, none⟩ = value := quotedText_caa hflags htag hvalue
    rw [hquoted] at hfits hslash hnewline
    have hreads := reads_caa hflags htag hvalue hfits hslash hnewline
    have hline : DnsRecord.line ⟨name, .CAA, flags ++ [' '] ++ tag ++ [' ', '"'] ++ value ++ ['"'],
        ttl, none⟩ = flags ++ ' ' :: (tag ++ ' ' :: '"' :: (value ++ ['"'])) := by
      simp only [DnsRecord.line, wire, Option.elim, List.append_assoc, List.cons_append,
        List.nil_append]
    rwa [hline]
  | text => exact reads_text hfits hslash hnewline

theorem Accepted.stored {lower : Text → Text} {zone : Text} {r : DnsRecord}
    (h : Accepted lower zone r) : Solid r.name ∧ Stored r.type r.content r.priority := by
  obtain ⟨siblings, input, h⟩ := h
  rw [validateRecord] at h
  cases hname : checkName zone input.name with
  | error e => rw [hname] at h; cases h
  | ok u =>
    rw [hname] at h
    cases hcontent : checkContent lower input.name input.type (Text.trim input.content)
        input.priority with
    | error e => rw [hcontent] at h; cases h
    | ok d =>
      obtain ⟨content, priority⟩ := d
      rw [hcontent] at h
      cases hsiblings : checkSiblings input.name input.type siblings with
      | error e =>
        dsimp only [bind, Except.bind] at h
        rw [hsiblings] at h
        cases h
      | ok v =>
        dsimp only [bind, Except.bind] at h
        rw [hsiblings] at h
        cases h
        exact ⟨solid_name hname, stored_of_checkContent hcontent⟩

theorem readType_text (type : RecordType) : readType type.text = some type := by
  cases type <;> rfl

theorem solid_type (type : RecordType) : Solid type.text := by
  cases type <;> exact solid_of_all (by decide)

/-- A line of the file is one line, and reads as its record. -/
theorem readLine_recordLine {r : DnsRecord} (hname : Solid r.name)
    (h : Stored r.type r.content r.priority) (hq : Quotable r) :
    '\n' ∉ recordLine r ∧ readLine (recordLine r) = some r := by
  obtain ⟨⟨fs, hfs, hdata⟩, hnewline⟩ := reads_line h hq
  have hclass : Solid "IN".toList := solid_of_all (by decide)
  have hline : recordLine r = r.name ++ '\t' :: (naturalText r.ttl ++ '\t' ::
      ("IN".toList ++ '\t' :: (r.type.text ++ '\t' :: r.line))) := by
    rw [recordLine]
    generalize "IN".toList = kind
    simp only [List.append_assoc, List.cons_append, List.nil_append]
  have htab : '\n' ≠ '\t' := by decide
  rw [hline]
  constructor
  · exact notMem_append hname.notMem (List.not_mem_cons_of_ne_of_not_mem htab
      (notMem_append (solid_naturalText _).notMem (List.not_mem_cons_of_ne_of_not_mem htab
        (notMem_append hclass.notMem (List.not_mem_cons_of_ne_of_not_mem htab
          (notMem_append (solid_type _).notMem
            (List.not_mem_cons_of_ne_of_not_mem htab hnewline)))))))
  · rw [readLine, fields_solid_blank hname rfl, fields_solid_blank (solid_naturalText _) rfl,
      fields_solid_blank hclass rfl, fields_solid_blank (solid_type _) rfl, hfs]
    simp only [Option.map_some, Option.bind_eq_bind, Option.bind_some, ofFields, if_true,
      readNumber_naturalText, readType_text, hdata]
    rfl

/-! ## The lines of the file -/

theorem split_append_cons (c : Char) (s t : Text) :
    Text.split (s ++ c :: t) [c] = Text.split s [c] ++ Text.split t [c] := by
  induction s with
  | nil => exact Text.split_cons_self c t
  | cons d s ih =>
    rw [List.cons_append]
    by_cases hd : c = d
    · subst hd
      rw [Text.split_cons_self, Text.split_cons_self, ih]
      rfl
    · obtain ⟨q, qs, hs, hds⟩ := Text.split_cons_of_ne hd s
      obtain ⟨q', qs', hst, hdst⟩ := Text.split_cons_of_ne hd (s ++ c :: t)
      rw [hs, hst, List.cons_append, List.cons.injEq] at ih
      rw [hds, hdst, ih.1, ih.2]
      rfl

theorem split_join_end (c : Char) {ps : List Text} (hne : ps ≠ []) :
    Text.split (Text.join [c] ps ++ [c]) [c] = ps.flatMap (Text.split · [c]) ++ [[]] := by
  induction ps with
  | nil => exact absurd rfl hne
  | cons p ps ih =>
    cases ps with
    | nil =>
      rw [Text.join_singleton, split_append_cons, List.flatMap_singleton]
      rfl
    | cons q ps =>
      rw [Text.join_cons_cons, List.append_assoc, List.append_assoc, List.singleton_append,
        split_append_cons, ih (List.cons_ne_nil q ps), ← List.append_assoc]
      rfl

/-- Each record has a line of its own. -/
theorem lines_zoneFile (z : DnsZone) (nameservers : List Text) (hostmaster : Text)
    {rs : List DnsRecord} (h : ∀ r ∈ rs, '\n' ∉ recordLine r) :
    Text.split (zoneFile z nameservers hostmaster rs) ['\n'] =
      (zoneHead z nameservers hostmaster).flatMap (Text.split · ['\n']) ++ rs.map recordLine ++
        [[]] := by
  have hrecords : (rs.map recordLine).flatMap (Text.split · ['\n']) = rs.map recordLine := by
    rw [List.flatMap_map]
    have hsplit : ∀ r ∈ rs, Text.split (recordLine r) ['\n'] = [recordLine r] := fun r hr =>
      Text.split_of_notMem (h r hr)
    rw [List.flatMap_congr hsplit, ← List.map_eq_flatMap]
  rw [zoneFile, split_join_end _ (by simp [zoneHead]), List.flatMap_append, hrecords]

/-! ## The sets -/

/-- Elements put together by their keys, with every key once, are all of the elements. -/
theorem flatMap_filter_perm {α β κ : Type*} [DecidableEq κ] (key : α → κ) (key' : β → κ)
    {bs : List β} (hbs : (bs.map key').Nodup) {as : List α} (h : ∀ a ∈ as, key a ∈ bs.map key') :
    (bs.flatMap fun b => as.filter (key · = key' b)).Perm as := by
  induction bs generalizing as with
  | nil =>
    have has : as = [] := List.eq_nil_iff_forall_not_mem.mpr fun a ha => by simpa using h a ha
    rw [has]
    exact .nil
  | cons b bs ih =>
    rw [List.map_cons, List.nodup_cons] at hbs
    have hrest : (bs.flatMap fun b' => as.filter (key · = key' b')) =
        bs.flatMap fun b' => (as.filter fun a => !decide (key a = key' b)).filter
          (key · = key' b') := by
      refine List.flatMap_congr fun b' hb' => ?_
      rw [List.filter_filter]
      refine List.filter_congr fun a ha => ?_
      have hne : key' b' ≠ key' b := fun heq => hbs.1 (heq ▸ List.mem_map_of_mem hb')
      by_cases hkey : key a = key' b'
      · simp [hkey, hne]
      · simp [hkey]
    rw [List.flatMap_cons, hrest]
    refine .trans (.append_left _ (ih hbs.2 fun a ha => ?_))
      (List.filter_append_perm (fun a => decide (key a = key' b)) as)
    rw [List.mem_filter] at ha
    have hmem := h a ha.1
    rw [List.map_cons, List.mem_cons] at hmem
    exact hmem.resolve_left (by simpa using ha.2)

theorem relativeName_fq (zone : Text) (r : DnsRecord) : relativeName zone (r.fq zone) = r.name := by
  rw [DnsRecord.fq]
  split_ifs with hapex
  · rw [relativeName, if_pos rfl, hapex]
  · have hlong : (r.name ++ ['.'] ++ zone ++ ['.']).length = r.name.length + (zone.length + 2) := by
      simp only [List.length_append, List.length_singleton]
      omega
    rw [relativeName, if_neg, hlong, Nat.add_sub_cancel, List.append_assoc, List.append_assoc,
      List.take_left]
    intro heq
    have hlen := congrArg List.length heq
    rw [hlong, List.length_append, List.length_singleton] at hlen
    omega

theorem fq_eq_iff {zone : Text} {r s : DnsRecord} : s.fq zone = r.fq zone ↔ s.name = r.name := by
  constructor
  · intro h
    rw [← relativeName_fq zone s, h, relativeName_fq]
  · intro h
    rw [DnsRecord.fq, DnsRecord.fq, h]

/-- The name and the type of a set. -/
def RRSet.key (g : RRSet) : Text × RecordType := (g.name, g.type)

def DnsRecord.key (zone : Text) (r : DnsRecord) : Text × RecordType := (r.fq zone, r.type)

/-- The records of a key. -/
def withKey (zone : Text) (k : Text × RecordType) (rs : List DnsRecord) : List DnsRecord :=
  rs.filter (·.key zone = k)

/-- Each set has the records of its key, in their order, and the least of their times to live. -/
structure Grouped (zone : Text) (groups : List RRSet) (rs : List DnsRecord) : Prop where
  nodup : (groups.map RRSet.key).Nodup
  covers : ∀ r ∈ rs, r.key zone ∈ groups.map RRSet.key
  records : ∀ g ∈ groups, g.records = (withKey zone g.key rs).map DnsRecord.line
  ttl : ∀ g ∈ groups, ((withKey zone g.key rs).map DnsRecord.ttl).min? = some g.ttl

theorem min?_concat {xs : List ℕ} {m : ℕ} (h : xs.min? = some m) (a : ℕ) :
    (xs ++ [a]).min? = some (min m a) := by
  cases xs with
  | nil => cases h
  | cons x xs =>
    rw [List.min?_cons', Option.some.injEq] at h
    rw [List.cons_append, List.min?_cons', List.foldl_append, h]
    rfl

theorem any_key (groups : List RRSet) (zone : Text) (r : DnsRecord) :
    (groups.any fun g => g.name == r.fq zone && g.type == r.type) = true ↔
      r.key zone ∈ groups.map RRSet.key := by
  simp only [List.any_eq_true, Bool.and_eq_true, beq_iff_eq, List.mem_map, RRSet.key,
    DnsRecord.key, Prod.mk.injEq]

/-- The set with one record more, if it is the set of the record. -/
def RRSet.grown (zone : Text) (r : DnsRecord) (g : RRSet) : RRSet :=
  if g.name = r.fq zone ∧ g.type = r.type then
    { g with ttl := min g.ttl r.ttl, records := g.records ++ [r.line] }
  else g

@[simp] theorem RRSet.key_grown (zone : Text) (r : DnsRecord) (g : RRSet) :
    (g.grown zone r).key = g.key := by
  rw [RRSet.grown]
  split_ifs <;> rfl

theorem RRSet.grown_of_key {zone : Text} {r : DnsRecord} {g : RRSet} (h : r.key zone = g.key) :
    g.grown zone r = { g with ttl := min g.ttl r.ttl, records := g.records ++ [r.line] } :=
  if_pos ⟨(Prod.mk.inj h).1.symm, (Prod.mk.inj h).2.symm⟩

theorem RRSet.grown_of_ne {zone : Text} {r : DnsRecord} {g : RRSet} (h : r.key zone ≠ g.key) :
    g.grown zone r = g :=
  if_neg fun hm => h (Prod.ext hm.1.symm hm.2.symm)

theorem withKey_concat_self (zone : Text) (rs : List DnsRecord) (r : DnsRecord) :
    withKey zone (r.key zone) (rs ++ [r]) = withKey zone (r.key zone) rs ++ [r] := by
  rw [withKey, List.filter_append, List.filter_singleton, decide_eq_true rfl]
  rfl

theorem withKey_concat_of_ne {zone : Text} {r : DnsRecord} {k : Text × RecordType}
    (h : r.key zone ≠ k) (rs : List DnsRecord) :
    withKey zone k (rs ++ [r]) = withKey zone k rs := by
  rw [withKey, List.filter_append, List.filter_singleton, decide_eq_false h]
  exact List.append_nil _

theorem grouped_grown {zone : Text} {groups : List RRSet} {rs : List DnsRecord}
    (h : Grouped zone groups rs) {r : DnsRecord} (hr : r.key zone ∈ groups.map RRSet.key) :
    Grouped zone (groups.map (RRSet.grown zone r)) (rs ++ [r]) := by
  have hkeys : (groups.map (RRSet.grown zone r)).map RRSet.key = groups.map RRSet.key := by
    rw [List.map_map]
    exact List.map_congr_left fun g _ => RRSet.key_grown zone r g
  refine ⟨hkeys ▸ h.nodup, fun s hs => ?_, fun g' hg' => ?_, fun g' hg' => ?_⟩
  · rw [hkeys]
    rcases List.mem_append.mp hs with hs | hs
    · exact h.covers s hs
    · rwa [List.mem_singleton.mp hs]
  · obtain ⟨g, hg, rfl⟩ := List.mem_map.mp hg'
    rw [RRSet.key_grown]
    by_cases hkey : r.key zone = g.key
    · rw [RRSet.grown_of_key hkey, ← hkey, withKey_concat_self, List.map_append, hkey,
        ← h.records g hg]
      rfl
    · rw [RRSet.grown_of_ne hkey, withKey_concat_of_ne hkey, h.records g hg]
  · obtain ⟨g, hg, rfl⟩ := List.mem_map.mp hg'
    rw [RRSet.key_grown]
    by_cases hkey : r.key zone = g.key
    · rw [RRSet.grown_of_key hkey, ← hkey, withKey_concat_self, List.map_append, hkey]
      exact min?_concat (h.ttl g hg) r.ttl
    · rw [RRSet.grown_of_ne hkey, withKey_concat_of_ne hkey]
      exact h.ttl g hg

theorem grouped_new {zone : Text} {groups : List RRSet} {rs : List DnsRecord}
    (h : Grouped zone groups rs) {r : DnsRecord} (hr : r.key zone ∉ groups.map RRSet.key) :
    Grouped zone (groups ++ [⟨r.fq zone, r.type, r.ttl, [r.line]⟩]) (rs ++ [r]) := by
  have hold : ∀ g ∈ groups, r.key zone ≠ g.key := fun g hg heq =>
    hr (heq ▸ List.mem_map_of_mem hg)
  have hnone : withKey zone (r.key zone) rs = [] :=
    List.filter_eq_nil_iff.mpr fun s hs heq => hr (of_decide_eq_true heq ▸ h.covers s hs)
  have hnew : withKey zone (r.key zone) (rs ++ [r]) = [r] := by
    rw [withKey_concat_self, hnone]
    rfl
  refine ⟨?_, fun s hs => ?_, fun g hg => ?_, fun g hg => ?_⟩
  · rw [List.map_append]
    refine List.nodup_append.mpr ⟨h.nodup, List.nodup_singleton _, fun k hk k' hk' => ?_⟩
    rw [List.mem_singleton.mp hk']
    rintro rfl
    exact hr hk
  · rw [List.map_append]
    rcases List.mem_append.mp hs with hs | hs
    · exact List.mem_append_left _ (h.covers s hs)
    · rw [List.mem_singleton.mp hs]
      exact List.mem_append_right _ (List.mem_singleton_self _)
  · rcases List.mem_append.mp hg with hg | hg
    · rw [withKey_concat_of_ne (hold g hg), h.records g hg]
    · rw [List.mem_singleton.mp hg]
      exact (congrArg (List.map DnsRecord.line) hnew).symm
  · rcases List.mem_append.mp hg with hg | hg
    · rw [withKey_concat_of_ne (hold g hg)]
      exact h.ttl g hg
    · rw [List.mem_singleton.mp hg]
      exact congrArg (fun l => (l.map DnsRecord.ttl).min?) hnew

theorem grouped_addTo {zone : Text} {groups : List RRSet} {rs : List DnsRecord}
    (h : Grouped zone groups rs) (r : DnsRecord) :
    Grouped zone (addTo zone groups r) (rs ++ [r]) := by
  by_cases hr : r.key zone ∈ groups.map RRSet.key
  · rw [addTo, if_pos ((any_key groups zone r).mpr hr)]
    exact grouped_grown h hr
  · rw [addTo, if_neg (mt (any_key groups zone r).mp hr)]
    exact grouped_new h hr

theorem grouped_toRRSets (zone : Text) (rs : List DnsRecord) :
    Grouped zone (toRRSets zone rs) rs := by
  induction rs using List.reverseRecOn with
  | nil => exact ⟨List.nodup_nil, by simp, by simp [toRRSets], by simp [toRRSets]⟩
  | append_singleton rs r ih =>
    rw [toRRSets, List.foldl_append]
    exact grouped_addTo ih r

theorem withKey_eq (zone : Text) (rs : List DnsRecord) (r : DnsRecord) :
    withKey zone (r.key zone) rs = rs.filter fun s => s.name = r.name ∧ s.type = r.type := by
  refine List.filter_congr fun s _ => decide_eq_decide.mpr ?_
  rw [DnsRecord.key, DnsRecord.key, Prod.mk.injEq, fq_eq_iff]

theorem readEntry_line {r : DnsRecord} (h : Stored r.type r.content r.priority) (hq : Quotable r)
    (ttl : ℕ) : readEntry r.name r.type ttl r.line = some { r with ttl } := by
  obtain ⟨fs, hfs, hdata⟩ := (reads_line h hq).data
  simp only [readEntry, hfs, hdata, Option.bind_eq_bind, Option.bind_some]
  rfl

/-- The entries of a set read as its records, with the time to live of the set. -/
theorem readSet_eq {zone : Text} {rs : List DnsRecord} {g : RRSet}
    (hrecords : g.records = (withKey zone g.key rs).map DnsRecord.line)
    (httl : ((withKey zone g.key rs).map DnsRecord.ttl).min? = some g.ttl)
    (h : ∀ r ∈ rs, Stored r.type r.content r.priority ∧ Quotable r) :
    readSet zone g = (withKey zone g.key rs).map fun r => some { r with ttl := leastTtl rs r } := by
  rw [readSet, hrecords, List.map_map]
  refine List.map_congr_left fun r hr => ?_
  obtain ⟨hr, hkey⟩ := List.mem_filter.mp hr
  have hkey : r.key zone = g.key := of_decide_eq_true hkey
  have hleast : leastTtl rs r = g.ttl := by
    rw [leastTtl, ← withKey_eq zone, hkey, httl]
    rfl
  obtain ⟨hname, htype⟩ := Prod.mk.inj hkey
  rw [Function.comp_apply, ← hname, ← htype, relativeName_fq, hleast]
  exact readEntry_line (h r hr).1 (h r hr).2 g.ttl

theorem readSets_perm {zone : Text} {rs : List DnsRecord}
    (h : ∀ r ∈ rs, Stored r.type r.content r.priority ∧ Quotable r) :
    ((toRRSets zone rs).flatMap (readSet zone)).Perm
      (rs.map fun r => some { r with ttl := leastTtl rs r }) := by
  have hgrouped := grouped_toRRSets zone rs
  have hsets : (toRRSets zone rs).flatMap (readSet zone) =
      ((toRRSets zone rs).flatMap fun g => withKey zone g.key rs).map fun r =>
        some { r with ttl := leastTtl rs r } := by
    rw [List.map_flatMap]
    exact List.flatMap_congr fun g hg =>
      readSet_eq (hgrouped.records g hg) (hgrouped.ttl g hg) h
  rw [hsets]
  exact (flatMap_filter_perm (DnsRecord.key zone) RRSet.key hgrouped.nodup hgrouped.covers).map _

/-- Every line of the file after its head reads as its record, and the entries of the sets read as
the records, each of them once, with one time to live for each name and type. -/
theorem published_reads (lower : Text → Text) (z : DnsZone) (nameservers : List Text)
    (hostmaster : Text) (rs : List DnsRecord)
    (h : ∀ r ∈ rs, Accepted lower z.name r ∧ Quotable r) :
    Text.split (zoneFile z nameservers hostmaster rs) ['\n'] =
        (zoneHead z nameservers hostmaster).flatMap (Text.split · ['\n']) ++ rs.map recordLine ++
          [[]] ∧
      (∀ r ∈ rs, readLine (recordLine r) = some r) ∧
      ((toRRSets z.name rs).flatMap (readSet z.name)).Perm
        (rs.map fun r => some { r with ttl := leastTtl rs r }) := by
  have hline : ∀ r ∈ rs, '\n' ∉ recordLine r ∧ readLine (recordLine r) = some r := fun r hr =>
    have hstored := (h r hr).1.stored
    readLine_recordLine hstored.1 hstored.2 (h r hr).2
  exact ⟨lines_zoneFile z nameservers hostmaster fun r hr => (hline r hr).1,
    fun r hr => (hline r hr).2, readSets_perm fun r hr => ⟨(h r hr).1.stored.2, (h r hr).2⟩⟩

def exampleZone : DnsZone := { name := "example.com".toList }

/-- Two addresses of one name, with different times to live. -/
def twoAddresses : List DnsRecord :=
  [{ name := "www".toList, type := .A, content := "192.0.2.1".toList, ttl := 60 },
    { name := "www".toList, type := .A, content := "192.0.2.2".toList, ttl := 3600 }]

theorem accepted_twoAddresses : ∀ r ∈ twoAddresses, Accepted Text.asciiLower exampleZone.name r := by
  intro r hr
  refine ⟨[.A], { name := r.name, type := r.type, content := r.content, ttl := some r.ttl }, ?_⟩
  rcases List.mem_cons.mp hr with rfl | hr
  · decide
  · rw [List.mem_singleton.mp hr]
    decide

theorem published_reads_twoAddresses :
    ((toRRSets exampleZone.name twoAddresses).flatMap (readSet exampleZone.name)).Perm
      (twoAddresses.map fun r => some { r with ttl := 60 }) :=
  (published_reads Text.asciiLower exampleZone ["ns1.prgd.net".toList] "hostmaster@prgd.net".toList
    twoAddresses fun r hr => ⟨accepted_twoAddresses r hr, by
      rcases List.mem_cons.mp hr with rfl | hr
      · exact ⟨by decide, by decide, by decide⟩
      · rw [List.mem_singleton.mp hr]
        exact ⟨by decide, by decide, by decide⟩⟩).2.2

/-- The set keeps one time to live, so the second record does not come back with its own. -/
theorem published_ttl_shared : ¬ ∀ (lower : Text → Text) (z : DnsZone) (rs : List DnsRecord),
    (∀ r ∈ rs, Accepted lower z.name r) →
      ((toRRSets z.name rs).flatMap (readSet z.name)).Perm (rs.map some) := by
  intro h
  have hperm := h Text.asciiLower exampleZone twoAddresses accepted_twoAddresses
  have hmem := hperm.mem_iff.mpr (List.mem_map_of_mem (List.mem_cons_of_mem _ (List.mem_cons_self)))
  exact absurd hmem (by decide)

end Prgd.Zones
