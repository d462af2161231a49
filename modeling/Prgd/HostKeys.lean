import Prgd.Decoding
import Prgd.JsNumber
import Prgd.Table

/-!
# Host keys

The gateway accepts the key that a host presents when the known_hosts file lists it, or,
without a file, when it is the first key of the asset and of the address. What the file
leaves to the runtime (the keyed hash of host names, and the case folding of regular
expressions) is a parameter. Bytes are natural numbers.

Without a file the pins hold for good. With one, a negated pattern excludes only the
spelling of a host that it matches, so on port 22 a host can be let in by its other spelling.
-/
namespace Prgd.HostKeys

/-- The name known_hosts uses for a host and port: "host", or "[host]:port" off port 22. -/
def knownHostsName (host : Text) (port : ℕ) : Text :=
  if port = 22 then host else '[' :: host ++ [']', ':'] ++ JsNumber.digits port

inductive Reason where
  | mismatch | unknown | revoked
  deriving DecidableEq, Repr

inductive HostKeyDecision where
  | accepted (firstUse : Bool)
  | refused (reason : Reason)
  deriving DecidableEq, Repr

inductive Marker where
  | unmarked | revoked | certAuthority
  deriving DecidableEq, Repr

structure KnownHostLine where
  marker : Marker
  patterns : List Text
  blob : List ℕ
  deriving DecidableEq

/-! ## The file -/

/-- `split(/\r?\n/)`. -/
def splitLines (text : Text) : List Text :=
  let pieces := Text.split text ['\n']
  pieces.dropLast.map (fun p => if p.getLast? = some '\r' then p.dropLast else p) ++
    pieces.getLast?.toList

/-- The first word, when it is a marker, and the others. -/
def markerOf : List Text → Marker × List Text
  | [] => (.unmarked, [])
  | part :: parts =>
      if part = "@revoked".toList then (.revoked, parts)
      else if part = "@cert-authority".toList then (.certAuthority, parts)
      else (.unmarked, part :: parts)

def parseLine (raw : Text) : Option KnownHostLine :=
  let line := Text.trim raw
  if line = [] ∨ Text.startsWith line ['#'] then none
  else match markerOf (Text.words line) with
    | (marker, hosts :: _ :: b64 :: _) =>
        some ⟨marker, Text.split hosts [','], Encoding.fromBase64 b64⟩
    | _ => none

def parseKnownHosts (text : Text) : List KnownHostLine := (splitLines text).filterMap parseLine

section
variable (canonicalize : ℕ → ℕ) (hmac : List ℕ → Text → Text)

/-! ## Patterns -/

/-- `.` matches every unit but the line terminators. -/
def isDot (u : ℕ) : Bool := u != 10 && u != 13 && u != 0x2028 && u != 0x2029

/-- `.*` in front of a pattern. -/
def anyTail (p : List ℕ → Bool) : List ℕ → Bool
  | [] => p []
  | u :: us => p (u :: us) || isDot u && anyTail p us

/-- The expression that `globToRegExp` makes, on UTF-16 units: `*` is `.*` and `?` is `.`. -/
def globMatches : List ℕ → List ℕ → Bool
  | [], name => name.isEmpty
  | 42 :: glob, name => anyTail (globMatches glob) name
  | 63 :: glob, u :: us => isDot u && globMatches glob us
  | g :: glob, u :: us => canonicalize g == canonicalize u && globMatches glob us
  | _ :: _, [] => false

def patternMatches (pattern name : Text) : Bool :=
  if Text.startsWith pattern ['|', '1', '|'] then
    match Text.split pattern ['|'] with
    | _ :: _ :: salt :: hash :: _ =>
        !salt.isEmpty && !hash.isEmpty && hmac (Encoding.fromBase64 salt) name == hash
    | _ => false
  else globMatches canonicalize (pattern.flatMap Text.units16) (name.flatMap Text.units16)

def negated (p : Text) : Bool := Text.startsWith p ['!']

/-- The loop of `hostMatches`, with `hit` so far. -/
def hostLoop (name : Text) : Bool → List Text → Bool
  | hit, [] => hit
  | hit, p :: ps =>
      if patternMatches canonicalize hmac (if negated p then p.drop 1 else p) name then
        if negated p then false else hostLoop name true ps
      else hostLoop name hit ps

def hostMatches (patterns : List Text) (name : Text) : Bool :=
  hostLoop canonicalize hmac name false patterns

/-! ## The check -/

structure HostKeyVerifier where
  pins : Table Text (List ℕ) := .empty
  lines : Option (List KnownHostLine) := none

structure Call where
  assetId : Text
  host : Text
  port : ℕ
  blob : List ℕ
  deriving DecidableEq

def Call.name (c : Call) : Text := knownHostsName c.host c.port

def Call.assetKey (c : Call) : Text := "asset:".toList ++ c.assetId
def Call.addrKey (c : Call) : Text := "addr:".toList ++ c.name

/-- The lines of the file that are taken for the host. -/
def matchesLine (c : Call) (l : KnownHostLine) : Bool :=
  hostMatches canonicalize hmac l.patterns c.name ||
    c.port == 22 && hostMatches canonicalize hmac l.patterns ('[' :: c.host ++ [']', ':', '2', '2'])

def checkListed (lines : List KnownHostLine) (c : Call) : HostKeyDecision :=
  let listed := lines.filter fun l => matchesLine canonicalize hmac c l
  if listed.any fun l => l.marker = .revoked ∧ l.blob = c.blob then .refused .revoked
  else
    let plain := listed.filter fun l => l.marker = .unmarked
    if plain.any fun l => l.blob = c.blob then .accepted false
    else .refused (if plain.isEmpty then .unknown else .mismatch)

/-- Some pin of the asset or of the address is another key. -/
def pinned (pins : Table Text (List ℕ)) (c : Call) : Bool :=
  [c.assetKey, c.addrKey].any fun k => (pins.find k).any fun b => b ≠ c.blob

def check (v : HostKeyVerifier) (c : Call) : HostKeyDecision × HostKeyVerifier :=
  match v.lines with
  | some lines => (checkListed canonicalize hmac lines c, v)
  | none =>
      if pinned v.pins c then (.refused .mismatch, v)
      else (.accepted (v.pins.find c.assetKey).isNone,
        { v with pins := (v.pins.put c.assetKey c.blob).put c.addrKey c.blob })

/-- The decisions of a sequence of calls, each with its call, and the verifier after them. -/
def checks : HostKeyVerifier → List Call → List (Call × HostKeyDecision) × HostKeyVerifier
  | v, [] => ([], v)
  | v, c :: cs =>
      let r := check canonicalize hmac v c
      let rest := checks r.2 cs
      ((c, r.1) :: rest.1, rest.2)

/-! ## Pins -/

theorem pinned_eq_false {pins : Table Text (List ℕ)} {c : Call} (h : pinned pins c = false) {k : Text}
    (hk : k = c.assetKey ∨ k = c.addrKey) {b : List ℕ} (hb : pins.find k = some b) : b = c.blob := by
  rw [pinned, List.any_eq_false] at h
  have hkey := h k (by simpa using hk)
  rw [hb] at hkey
  simpa using hkey

variable {canonicalize hmac}

/-- What one call does without a file. -/
theorem check_cases {v : HostKeyVerifier} (hv : v.lines = none) (c : Call) :
    (∃ reason, check canonicalize hmac v c = (.refused reason, v)) ∨
    (pinned v.pins c = false ∧ ∃ firstUse, check canonicalize hmac v c =
      (.accepted firstUse, { v with pins := (v.pins.put c.assetKey c.blob).put c.addrKey c.blob })) := by
  unfold check
  rw [hv]
  dsimp only
  cases h : pinned v.pins c with
  | true => exact .inl ⟨_, rfl⟩
  | false => exact .inr ⟨rfl, _, rfl⟩

theorem check_lines {v : HostKeyVerifier} (hv : v.lines = none) (c : Call) :
    (check canonicalize hmac v c).2.lines = none := by
  rcases check_cases hv c with ⟨_, h⟩ | ⟨-, _, h⟩ <;> rw [h] <;> exact hv

theorem find_pins (pins : Table Text (List ℕ)) (c : Call) {k : Text} :
    (k = c.assetKey ∨ k = c.addrKey) ∧
      ((pins.put c.assetKey c.blob).put c.addrKey c.blob).find k = some c.blob ∨
    k ≠ c.assetKey ∧ k ≠ c.addrKey ∧
      ((pins.put c.assetKey c.blob).put c.addrKey c.blob).find k = pins.find k := by
  by_cases haddr : k = c.addrKey
  · subst haddr
    exact .inl ⟨.inr rfl, Table.find_put_self _ _ _⟩
  · rw [Table.find_put_of_ne _ haddr]
    by_cases hasset : k = c.assetKey
    · subst hasset
      exact .inl ⟨.inl rfl, Table.find_put_self _ _ _⟩
    · exact .inr ⟨hasset, haddr, Table.find_put_of_ne _ hasset _⟩

/-- A call keeps every pin. -/
theorem check_keeps {v : HostKeyVerifier} (hv : v.lines = none) (c : Call) {k : Text} {b : List ℕ}
    (hb : v.pins.find k = some b) : (check canonicalize hmac v c).2.pins.find k = some b := by
  rcases check_cases hv c with ⟨_, h⟩ | ⟨hfree, _, h⟩
  · rw [h]
    exact hb
  · rw [h]
    rcases find_pins v.pins c (k := k) with ⟨hk, hfind⟩ | ⟨-, -, hfind⟩
    · rw [hfind, pinned_eq_false hfree hk hb]
    · rw [hfind, hb]

/-- An accepted key is pinned to the asset and to the address. -/
theorem check_pins {v : HostKeyVerifier} (hv : v.lines = none) {c : Call} {firstUse : Bool}
    (h : (check canonicalize hmac v c).1 = .accepted firstUse) {k : Text}
    (hk : k = c.assetKey ∨ k = c.addrKey) :
    (check canonicalize hmac v c).2.pins.find k = some c.blob := by
  rcases check_cases hv c with ⟨_, hrefused⟩ | ⟨-, _, haccepted⟩
  · rw [hrefused] at h
    cases h
  · rw [haccepted]
    rcases find_pins v.pins c (k := k) with ⟨-, hfind⟩ | ⟨hasset, haddr, -⟩
    · exact hfind
    · exact absurd hk (by simp [hasset, haddr])

theorem checks_keep {v : HostKeyVerifier} (hv : v.lines = none) (cs : List Call) {k : Text}
    {b : List ℕ} (hb : v.pins.find k = some b) :
    (checks canonicalize hmac v cs).2.pins.find k = some b := by
  induction cs generalizing v with
  | nil => exact hb
  | cons c cs ih => exact ih (check_lines hv c) (check_keeps hv c hb)

/-- In the end every accepted key is pinned. -/
theorem checks_pin {v : HostKeyVerifier} (hv : v.lines = none) {cs : List Call} {c : Call}
    {firstUse : Bool} (h : (c, .accepted firstUse) ∈ (checks canonicalize hmac v cs).1) {k : Text}
    (hk : k = c.assetKey ∨ k = c.addrKey) :
    (checks canonicalize hmac v cs).2.pins.find k = some c.blob := by
  induction cs generalizing v with
  | nil => cases h
  | cons d cs ih =>
    rcases List.mem_cons.mp h with heq | hlater
    · obtain ⟨rfl, haccepted⟩ := Prod.mk.inj heq
      exact checks_keep (check_lines hv _) cs (check_pins hv haccepted.symm hk)
    · exact ih (check_lines hv d) hlater

theorem checks_lines {v : HostKeyVerifier} (hv : v.lines = none) (cs : List Call) :
    (checks canonicalize hmac v cs).2.lines = none := by
  induction cs generalizing v with
  | nil => exact hv
  | cons c cs ih => exact ih (check_lines hv c)

variable (canonicalize hmac)

/-- Trust on first use: two accepted calls that share the asset or the address presented one
key, a refused call changes no pin, and a pin never changes. -/
theorem pins_for_good (cs : List Call) :
    (∀ c f d g, (c, HostKeyDecision.accepted f) ∈ (checks canonicalize hmac {} cs).1 →
      (d, HostKeyDecision.accepted g) ∈ (checks canonicalize hmac {} cs).1 →
      c.assetId = d.assetId ∨ c.host = d.host ∧ c.port = d.port → c.blob = d.blob) ∧
    (∀ c reason, (check canonicalize hmac (checks canonicalize hmac {} cs).2 c).1 = .refused reason →
      (check canonicalize hmac (checks canonicalize hmac {} cs).2 c).2 =
        (checks canonicalize hmac {} cs).2) ∧
    ∀ later k b, (checks canonicalize hmac {} cs).2.pins.find k = some b →
      (checks canonicalize hmac (checks canonicalize hmac {} cs).2 later).2.pins.find k = some b := by
  have hlines : (checks canonicalize hmac {} cs).2.lines = none := checks_lines rfl cs
  refine ⟨fun c f d g hc hd hshared => ?_, fun c reason hrefused => ?_, fun later k b hb => ?_⟩
  · rcases hshared with hasset | ⟨hhost, hport⟩
    · have hkey : d.assetKey = c.assetKey := by rw [Call.assetKey, Call.assetKey, hasset]
      have hfirst := checks_pin rfl hc (.inl rfl)
      rw [← hkey, checks_pin rfl hd (.inl rfl)] at hfirst
      exact (Option.some.inj hfirst).symm
    · have hkey : d.addrKey = c.addrKey := by
        rw [Call.addrKey, Call.addrKey, Call.name, Call.name, hhost, hport]
      have hfirst := checks_pin rfl hc (.inr rfl)
      rw [← hkey, checks_pin rfl hd (.inr rfl)] at hfirst
      exact (Option.some.inj hfirst).symm
  · rcases check_cases hlines c with ⟨_, h⟩ | ⟨-, _, h⟩
    · rw [h]
    · rw [h] at hrefused
      cases hrefused
  · exact checks_keep hlines later hb

/-! ## What a line of the file means -/

/-- The spellings of the host. -/
def Call.names (c : Call) : List Text :=
  c.name :: if c.port = 22 then ['[' :: c.host ++ [']', ':', '2', '2']] else []

/-- A pattern matches a spelling, and no negated pattern does. -/
def Lists (l : KnownHostLine) (c : Call) : Prop :=
  (∃ p ∈ l.patterns, negated p = false ∧ ∃ n ∈ c.names, patternMatches canonicalize hmac p n = true) ∧
    ∀ p ∈ l.patterns, negated p = true →
      ∀ n ∈ c.names, patternMatches canonicalize hmac (p.drop 1) n = false

/-- One spelling is let in, and a negated pattern matches the other. -/
def Crossed (l : KnownHostLine) (c : Call) : Prop :=
  (∃ n ∈ c.names, hostMatches canonicalize hmac l.patterns n = true) ∧
    ∃ p ∈ l.patterns, negated p = true ∧
      ∃ n ∈ c.names, patternMatches canonicalize hmac (p.drop 1) n = true

/-- Some line with this marker carries the key. -/
def Carries (lines : List KnownHostLine) (marker : Marker) (means : KnownHostLine → Call → Prop)
    (c : Call) : Prop :=
  ∃ l ∈ lines, l.marker = marker ∧ l.blob = c.blob ∧ means l c

/-- An accepted key is listed for the host, and not revoked for it. -/
def Enforced (text : Text) (c : Call) : Prop :=
  ∀ pins firstUse, (check canonicalize hmac ⟨pins, some (parseKnownHosts text)⟩ c).1 =
      .accepted firstUse →
    Carries (parseKnownHosts text) .unmarked (Lists canonicalize hmac) c ∧
      ¬ Carries (parseKnownHosts text) .revoked (Lists canonicalize hmac) c

variable {canonicalize hmac}

theorem hostLoop_iff (name : Text) (hit : Bool) (ps : List Text) :
    hostLoop canonicalize hmac name hit ps = true ↔
      (hit = true ∨ ∃ p ∈ ps, negated p = false ∧ patternMatches canonicalize hmac p name = true) ∧
        ∀ p ∈ ps, negated p = true → patternMatches canonicalize hmac (p.drop 1) name = false := by
  induction ps generalizing hit with
  | nil => simp [hostLoop]
  | cons p ps ih =>
    rw [hostLoop]
    cases hneg : negated p with
    | true =>
      rw [if_pos rfl, if_pos rfl]
      cases hmatch : patternMatches canonicalize hmac (p.drop 1) name with
      | true => simp [hneg, hmatch, -List.drop_one]
      | false =>
        rw [if_neg Bool.false_ne_true, ih]
        simp [hneg, hmatch, -List.drop_one]
    | false =>
      rw [if_neg Bool.false_ne_true, if_neg Bool.false_ne_true]
      cases hmatch : patternMatches canonicalize hmac p name with
      | true =>
        rw [if_pos rfl, ih]
        simp [hneg, hmatch]
      | false =>
        rw [if_neg Bool.false_ne_true, ih]
        simp [hneg, hmatch]

theorem hostMatches_iff {patterns : List Text} {name : Text} :
    hostMatches canonicalize hmac patterns name = true ↔
      (∃ p ∈ patterns, negated p = false ∧ patternMatches canonicalize hmac p name = true) ∧
        ∀ p ∈ patterns, negated p = true → patternMatches canonicalize hmac (p.drop 1) name = false := by
  rw [hostMatches, hostLoop_iff]
  simp

/-- A line is taken for the host when it lists it, or is crossed. -/
theorem matchesLine_iff {c : Call} {l : KnownHostLine} :
    matchesLine canonicalize hmac c l = true ↔
      Lists canonicalize hmac l c ∨ Crossed canonicalize hmac l c := by
  have hnames : matchesLine canonicalize hmac c l = true ↔
      ∃ n ∈ c.names, hostMatches canonicalize hmac l.patterns n = true := by
    by_cases hport : c.port = 22 <;> simp [matchesLine, Call.names, hport]
  rw [hnames]
  constructor
  · intro h
    by_cases hcrossed : Crossed canonicalize hmac l c
    · exact .inr hcrossed
    · refine .inl ⟨?_, fun p hp hneg n hn => ?_⟩
      · obtain ⟨n, hn, hmatches⟩ := h
        obtain ⟨⟨p, hp, hneg, hmatch⟩, -⟩ := hostMatches_iff.mp hmatches
        exact ⟨p, hp, hneg, n, hn, hmatch⟩
      · by_contra hmatch
        exact hcrossed ⟨h, p, hp, hneg, n, hn, Bool.not_eq_false _ ▸ hmatch⟩
  · rintro (⟨⟨p, hp, hneg, n, hn, hmatch⟩, hnone⟩ | hcrossed)
    · exact ⟨n, hn, hostMatches_iff.mpr ⟨⟨p, hp, hneg, hmatch⟩, fun q hq hneg => hnone q hq hneg n hn⟩⟩
    · exact hcrossed.1

theorem check_listed_iff {lines : List KnownHostLine} {c : Call} {pins : Table Text (List ℕ)} :
    (∃ firstUse, (check canonicalize hmac ⟨pins, some lines⟩ c).1 = .accepted firstUse) ↔
      ¬ Carries lines .revoked (fun l c => matchesLine canonicalize hmac c l = true) c ∧
        Carries lines .unmarked (fun l c => matchesLine canonicalize hmac c l = true) c := by
  unfold check checkListed
  dsimp only
  split_ifs with hrevoked hplain
  · simp only [List.any_eq_true, List.mem_filter, decide_eq_true_eq] at hrevoked
    obtain ⟨l, ⟨hl, hmatches⟩, hmarker, hblob⟩ := hrevoked
    refine iff_of_false (by simp) ?_
    rintro ⟨hnot, -⟩
    exact hnot ⟨l, hl, hmarker, hblob, hmatches⟩
  · simp only [List.any_eq_true, List.mem_filter, decide_eq_true_eq] at hrevoked hplain
    obtain ⟨l, ⟨⟨hl, hmatches⟩, hmarker⟩, hblob⟩ := hplain
    refine iff_of_true ⟨false, rfl⟩ ⟨?_, l, hl, hmarker, hblob, hmatches⟩
    rintro ⟨r, hr, hmarker, hblob, hmatches⟩
    exact hrevoked ⟨r, ⟨hr, hmatches⟩, hmarker, hblob⟩
  · simp only [List.any_eq_true, List.mem_filter, decide_eq_true_eq] at hplain
    refine iff_of_false (by simp) ?_
    rintro ⟨-, l, hl, hmarker, hblob, hmatches⟩
    exact hplain ⟨l, ⟨⟨hl, hmatches⟩, hmarker⟩, hblob⟩

variable (canonicalize hmac)

/-- The file is enforced unless a line that carries the key is crossed. Then it takes a line that
really lists the host, or a revocation. -/
theorem enforced_iff (text : Text) (c : Call) :
    Enforced canonicalize hmac text c ↔
      (Carries (parseKnownHosts text) .unmarked (Crossed canonicalize hmac) c →
        Carries (parseKnownHosts text) .unmarked (Lists canonicalize hmac) c ∨
          Carries (parseKnownHosts text) .revoked
            (fun l c => Lists canonicalize hmac l c ∨ Crossed canonicalize hmac l c) c) := by
  have hmeans : (fun (l : KnownHostLine) (c : Call) => matchesLine canonicalize hmac c l = true) =
      fun l c => Lists canonicalize hmac l c ∨ Crossed canonicalize hmac l c := by
    funext l c
    exact propext matchesLine_iff
  have haccepts : Enforced canonicalize hmac text c ↔
      ((∃ firstUse, (check canonicalize hmac ⟨.empty, some (parseKnownHosts text)⟩ c).1 =
        .accepted firstUse) → Carries (parseKnownHosts text) .unmarked (Lists canonicalize hmac) c ∧
          ¬ Carries (parseKnownHosts text) .revoked (Lists canonicalize hmac) c) :=
    ⟨fun h ⟨firstUse, heq⟩ => h .empty firstUse heq, fun h _ firstUse heq => h ⟨firstUse, heq⟩⟩
  rw [haccepts, check_listed_iff, hmeans]
  constructor
  · rintro h ⟨l, hl, hmarker, hblob, hcrossed⟩
    by_contra hnone
    rw [not_or] at hnone
    exact hnone.1 (h ⟨hnone.2, l, hl, hmarker, hblob, .inr hcrossed⟩).1
  · rintro h ⟨hnot, l, hl, hmarker, hblob, hmatches⟩
    have hlisted : Carries (parseKnownHosts text) .unmarked (Lists canonicalize hmac) c := by
      rcases hmatches with hlists | hcrossed
      · exact ⟨l, hl, hmarker, hblob, hlists⟩
      · exact (h ⟨l, hl, hmarker, hblob, hcrossed⟩).resolve_right hnot
    refine ⟨hlisted, ?_⟩
    rintro ⟨r, hr, hrevoked, hkey, hlists⟩
    exact hnot ⟨r, hr, hrevoked, hkey, .inl hlists⟩

/-- The bracketed spelling on port 22 gets past a pattern that excludes the plain one. -/
theorem negation_bypassed :
    ¬ Enforced id (fun _ _ => []) "*,!10.9.0.66 ssh-ed25519 AAAA".toList
      ⟨"a3".toList, "10.9.0.66".toList, 22, [0, 0, 0]⟩ := by
  intro h
  obtain ⟨⟨l, hl, -, -, -, hnone⟩, -⟩ := h .empty false (by decide)
  have hline : l = ⟨.unmarked, [['*'], "!10.9.0.66".toList], [0, 0, 0]⟩ := by
    have hparsed : parseKnownHosts "*,!10.9.0.66 ssh-ed25519 AAAA".toList =
        [⟨.unmarked, [['*'], "!10.9.0.66".toList], [0, 0, 0]⟩] := by decide
    rw [hparsed] at hl
    exact List.mem_singleton.mp hl
  subst hline
  have hplain := hnone "!10.9.0.66".toList (by simp) (by decide) "10.9.0.66".toList (by decide)
  exact absurd hplain (by decide)

end

end Prgd.HostKeys
