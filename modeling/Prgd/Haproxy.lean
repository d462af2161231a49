import Mathlib.Data.List.Nodup
import Prgd.ApiError
import Prgd.JsNumber
import Prgd.Words

/-!
# The configuration of a load balancer

`renderHaproxyConfig` writes the rules, the health check and the sticky sessions of a customer
into `haproxy.cfg`: lines of words, as HAProxy reads them. The values of a rule are numbers, and the
name of a cookie and the id of a certificate have only letters, digits, hyphens and underscores.

The path of the health check is any text of up to 200 units. Unless it is one word, it adds words
to its line, ends it by a comment, or adds lines: directives of the customer's own.
-/
namespace Prgd.Haproxy
open JsNumber (digits)

/-! ## What the API takes -/

inductive EntryProtocol where
  | http | https | tcp
  deriving DecidableEq

inductive TargetProtocol where
  | http | tcp
  deriving DecidableEq

inductive Algorithm where
  | round_robin | least_conn
  deriving DecidableEq

/-- An optional field of a request. `null` passes the checks. -/
inductive Field (α : Type) where
  | absent | null
  | value (a : α)

def Field.all {α : Type} (p : α → Bool) : Field α → Bool
  | .value a => p a
  | _ => true

structure ForwardingRule where
  entryProtocol : EntryProtocol
  entryPort : ℕ
  targetProtocol : TargetProtocol
  targetPort : ℕ
  certificateId : Option Text := none
  deriving DecidableEq

structure HealthCheckDto where
  protocol : Field TargetProtocol := .absent
  port : Field ℕ := .absent
  path : Field Text := .absent
  intervalSeconds : Field ℕ := .absent
  timeoutSeconds : Field ℕ := .absent
  healthyThreshold : Field ℕ := .absent
  unhealthyThreshold : Field ℕ := .absent

structure StickySessionsDto where
  /-- The type is "cookie" and not "none". -/
  cookie : Bool
  cookieName : Field Text := .absent
  ttlSeconds : Field ℕ := .absent

def within (lo hi n : ℕ) : Bool := lo ≤ n ∧ n ≤ hi

def ForwardingRule.isValid (r : ForwardingRule) : Bool :=
  within 1 65535 r.entryPort && within 1 65535 r.targetPort

def HealthCheckDto.isValid (d : HealthCheckDto) : Bool :=
  d.port.all (within 1 65535) && d.path.all (fun p => within 1 200 (Text.length16 p)) &&
    d.intervalSeconds.all (within 3 300) && d.timeoutSeconds.all (within 1 120) &&
    d.healthyThreshold.all (within 1 10) && d.unhealthyThreshold.all (within 1 10)

def isName (c : Char) : Bool := Text.isLetter c || Text.isDigit c || c = '_' || c = '-'

/-- `/^[A-Za-z0-9_-]{1,40}$/`. -/
def isCookieName (s : Text) : Bool := s.all isName && within 1 40 s.length

def StickySessionsDto.isValid (d : StickySessionsDto) : Bool :=
  d.cookieName.all isCookieName && d.ttlSeconds.all (within 1 86400)

/-! ## What is stored -/

/-- A field is null when a request set it to null. -/
structure HealthCheck where
  protocol : Option TargetProtocol
  port : Option ℕ
  path : Option Text
  intervalSeconds : Option ℕ
  timeoutSeconds : Option ℕ
  healthyThreshold : Option ℕ
  unhealthyThreshold : Option ℕ

structure StickySessions where
  cookieName : Option Text
  ttlSeconds : Option ℕ

structure LoadBalancer where
  algorithm : Algorithm
  rules : List ForwardingRule
  healthCheck : HealthCheck
  sticky : Option StickySessions
  redirectHttpToHttps : Bool
  proxyProtocol : Bool

def DEFAULT_HEALTH_CHECK (rules : List ForwardingRule) : HealthCheck where
  protocol := some (if rules.head?.map (·.targetProtocol) = some .tcp then .tcp else .http)
  port := some ((rules.head?.map (·.targetPort)).getD 80)
  path := some ['/']
  intervalSeconds := some 10
  timeoutSeconds := some 5
  healthyThreshold := some 3
  unhealthyThreshold := some 3

/-- What the spread of a stripped request makes of a field. -/
def Field.over {α : Type} (f : Field α) (old : Option α) : Option α :=
  match f with
  | .absent => old
  | .null => none
  | .value a => some a

def HealthCheckDto.over (d : HealthCheckDto) (h : HealthCheck) : HealthCheck where
  protocol := d.protocol.over h.protocol
  port := d.port.over h.port
  path := d.path.over h.path
  intervalSeconds := d.intervalSeconds.over h.intervalSeconds
  timeoutSeconds := d.timeoutSeconds.over h.timeoutSeconds
  healthyThreshold := d.healthyThreshold.over h.healthyThreshold
  unhealthyThreshold := d.unhealthyThreshold.over h.unhealthyThreshold

def StickySessionsDto.stored (d : StickySessionsDto) : Option StickySessions :=
  if d.cookie then some ⟨d.cookieName.over none, d.ttlSeconds.over none⟩ else none

/-- The certificate id, unless it is empty. -/
def ForwardingRule.certificate (r : ForwardingRule) : Option Text :=
  r.certificateId.filter (· ≠ [])

/-- The checks on one rule, with the entry ports of the rules before it and the certificates of the
project. -/
def checkRule (certificates : List Text) (ports : List ℕ) (r : ForwardingRule) :
    Except ApiError Unit :=
  if r.entryPort ∈ ports then
    .error (.invalid ("Entry port " ++ toString r.entryPort ++ " is used by two rules") [])
  else if r.entryPort = 9009 then .error (.invalid "Entry port 9009 is reserved" [])
  else do
    match r.entryProtocol, r.certificate with
    | .https, none =>
        throw (.invalid ("Rule on port " ++ toString r.entryPort ++
          ": https needs a certificateId") [])
    | .https, some id =>
        if id ∉ certificates then
          throw (.invalid ("Certificate " ++ String.ofList id ++ " not found in this project") [])
    | _, some _ => throw (.invalid "certificateId only applies to https rules" [])
    | _, none => pure ()
    if r.entryProtocol = .tcp ∧ r.targetProtocol ≠ .tcp then
      throw (.invalid "A tcp entry must target tcp" [])

def checkRules (certificates : List Text) : List ℕ → List ForwardingRule → Except ApiError Unit
  | _, [] => .ok ()
  | ports, r :: rules => do
      checkRule certificates ports r
      checkRules certificates (ports ++ [r.entryPort]) rules

def validateRules (certificates : List Text) (rules : List ForwardingRule) :
    Except ApiError (List ForwardingRule) := do
  checkRules certificates [] rules
  return rules.map fun r => { r with certificateId := r.certificate }

structure CreateLoadBalancerDto where
  algorithm : Algorithm
  forwardingRules : List ForwardingRule
  healthCheck : HealthCheckDto := {}
  stickySessions : Option StickySessionsDto := none
  redirectHttpToHttps : Bool
  proxyProtocol : Bool

structure UpdateLoadBalancerDto where
  algorithm : Option Algorithm := none
  forwardingRules : Option (List ForwardingRule) := none
  healthCheck : HealthCheckDto := {}
  stickySessions : Option StickySessionsDto := none
  redirectHttpToHttps : Option Bool := none
  proxyProtocol : Option Bool := none

def areValid (rules : List ForwardingRule) : Bool :=
  rules.all ForwardingRule.isValid && within 1 20 rules.length

def CreateLoadBalancerDto.isValid (d : CreateLoadBalancerDto) : Bool :=
  areValid d.forwardingRules && d.healthCheck.isValid && d.stickySessions.all (·.isValid)

def UpdateLoadBalancerDto.isValid (d : UpdateLoadBalancerDto) : Bool :=
  d.forwardingRules.all areValid && d.healthCheck.isValid && d.stickySessions.all (·.isValid)

def create (certificates : List Text) (d : CreateLoadBalancerDto) :
    Except ApiError LoadBalancer := do
  let rules ← validateRules certificates d.forwardingRules
  return {
    algorithm := d.algorithm
    rules
    healthCheck := d.healthCheck.over (DEFAULT_HEALTH_CHECK rules)
    sticky := d.stickySessions.bind StickySessionsDto.stored
    redirectHttpToHttps := d.redirectHttpToHttps
    proxyProtocol := d.proxyProtocol }

def update (certificates : List Text) (lb : LoadBalancer) (d : UpdateLoadBalancerDto) :
    Except ApiError LoadBalancer := do
  let rules ← match d.forwardingRules with
    | some rules => validateRules certificates rules
    | none => pure lb.rules
  return {
    algorithm := d.algorithm.getD lb.algorithm
    rules
    healthCheck := d.healthCheck.over lb.healthCheck
    sticky := match d.stickySessions with
      | some sticky => sticky.stored
      | none => lb.sticky
    redirectHttpToHttps := d.redirectHttpToHttps.getD lb.redirectHttpToHttps
    proxyProtocol := d.proxyProtocol.getD lb.proxyProtocol }

/-- The load balancers that requests lead to. -/
inductive Stored : LoadBalancer → Prop
  | create {certificates : List Text} {d : CreateLoadBalancerDto} {lb : LoadBalancer}
      (hvalid : d.isValid = true) (h : create certificates d = .ok lb) : Stored lb
  | update {certificates : List Text} {d : UpdateLoadBalancerDto} {lb lb' : LoadBalancer}
      (hlb : Stored lb) (hvalid : d.isValid = true) (h : update certificates lb d = .ok lb') :
      Stored lb'

/-! ## What is rendered -/

/-- A character that can stand in any word. -/
def plain (c : Char) : Bool := !(c = ' ' || ('\t' ≤ c && c ≤ '\r') || c = '#')

/-- A server to which rules lead, with its id and its address. -/
structure RenderTarget where
  serverId : Text
  name : Text
  address : Text
  id_ne : serverId ≠ []
  id_plain : serverId.all plain = true
  address_plain : address.all plain = true

/-- `${n}`. -/
def number : Option ℕ → Text
  | some n => digits n
  | none => "null".toList

def safe (s : Text) : Text := s.filter isName

/-- A text that is there and not empty, or else the default. -/
def orText (s : Option Text) (default : Text) : Text := (s.filter (· ≠ [])).getD default

def ForwardingRule.isTcp (r : ForwardingRule) : Bool := r.entryProtocol = .tcp

def mode (tcp : Bool) : Text := if tcp then "tcp".toList else "http".toList

def header (hc : HealthCheck) : List Text :=
  ["# Generated by prgd. Edits are overwritten on the next change.".toList,
    "global".toList,
    "  log /dev/log local0".toList,
    "  maxconn 20000".toList,
    "  stats socket /run/haproxy/admin.sock mode 660 level admin".toList,
    "  tune.ssl.default-dh-param 2048".toList,
    "  ssl-default-bind-options ssl-min-ver TLSv1.2".toList,
    [],
    "defaults".toList,
    "  log global".toList,
    "  option dontlognull".toList,
    "  timeout connect 5s".toList,
    "  timeout client 60s".toList,
    "  timeout server 60s".toList,
    "  timeout http-request 10s".toList,
    "  default-server inter ".toList ++ number hc.intervalSeconds ++ "s fall ".toList ++
      number hc.unhealthyThreshold ++ " rise ".toList ++ number hc.healthyThreshold,
    [],
    "listen stats".toList,
    "  bind 127.0.0.1:8404".toList,
    "  mode http".toList,
    "  stats enable".toList,
    "  stats uri /".toList,
    [],
    "backend acme".toList,
    "  mode http".toList,
    "  server certbot 127.0.0.1:8402".toList,
    []]

def frontend (lb : LoadBalancer) (r : ForwardingRule) (i : ℕ) : List Text :=
  let hasHttps := lb.rules.any (·.entryProtocol = .https)
  ["frontend fe_".toList ++ digits r.entryPort,
    "  bind *:".toList ++ digits r.entryPort ++
      (if r.entryProtocol = .https then " ssl crt /etc/haproxy/certs/".toList ++
        safe (r.certificateId.getD "none".toList) ++ ".pem alpn h2,http/1.1".toList else []),
    "  mode ".toList ++ mode r.isTcp] ++
  (if r.isTcp then [] else
    ["  option forwardfor".toList,
      "  http-request set-header X-Forwarded-Proto %[ssl_fc,iif(https,http)]".toList,
      "  acl acme path_beg /.well-known/acme-challenge/".toList,
      "  use_backend acme if acme".toList] ++
    if lb.redirectHttpToHttps && r.entryProtocol = .http && hasHttps then
      ["  http-request redirect scheme https code 301 unless \x7b ssl_fc \x7d || acme".toList]
    else []) ++
  ["  default_backend be_".toList ++ digits i, []]

def server (lb : LoadBalancer) (r : ForwardingRule) (t : RenderTarget) : Text :=
  "  server srv_".toList ++ t.serverId ++ " ".toList ++ t.address ++ ":".toList ++
    digits r.targetPort ++ " check port ".toList ++ number lb.healthCheck.port ++
    (if lb.sticky.isSome && !r.isTcp then " cookie ".toList ++ t.serverId else []) ++
    (if lb.proxyProtocol then " send-proxy".toList else [])

def backend (lb : LoadBalancer) (targets : List RenderTarget) (r : ForwardingRule) (i : ℕ) :
    List Text :=
  let hc := lb.healthCheck
  ["backend be_".toList ++ digits i,
    "  mode ".toList ++ mode (r.targetProtocol = .tcp || r.isTcp),
    "  balance ".toList ++
      if lb.algorithm = .least_conn then "leastconn".toList else "roundrobin".toList] ++
  (if hc.protocol = some .http && !r.isTcp then
    ["  option httpchk GET ".toList ++ orText hc.path ['/']] else []) ++
  (match lb.sticky with
    | some sticky => if r.isTcp then [] else
        ["  cookie ".toList ++ orText sticky.cookieName "PRGDLB".toList ++
          " insert indirect nocache".toList ++
          match sticky.ttlSeconds.filter (· ≠ 0) with
          | some ttl => " maxidle ".toList ++ digits ttl ++ ['s']
          | none => []]
    | none => []) ++
  targets.map (server lb r) ++
  (if targets = [] then ["  # no targets yet".toList] else []) ++ [[]]

def lines (lb : LoadBalancer) (targets : List RenderTarget) : List Text :=
  header lb.healthCheck ++
    lb.rules.zipIdx.flatMap fun (r, i) => frontend lb r i ++ backend lb targets r i

def renderHaproxyConfig (lb : LoadBalancer) (targets : List RenderTarget) : Text :=
  Text.join ['\n'] (lines lb targets)

/-! ## What HAProxy is meant to read -/

def literals (ws : List String) : List Text := ws.map String.toList

def expectedHeader (hc : HealthCheck) : List (List Text) :=
  [["global"],
    ["log", "/dev/log", "local0"],
    ["maxconn", "20000"],
    ["stats", "socket", "/run/haproxy/admin.sock", "mode", "660", "level", "admin"],
    ["tune.ssl.default-dh-param", "2048"],
    ["ssl-default-bind-options", "ssl-min-ver", "TLSv1.2"],
    ["defaults"],
    ["log", "global"],
    ["option", "dontlognull"],
    ["timeout", "connect", "5s"],
    ["timeout", "client", "60s"],
    ["timeout", "server", "60s"],
    ["timeout", "http-request", "10s"]].map literals ++
  [["default-server".toList, "inter".toList, number hc.intervalSeconds ++ ['s'], "fall".toList,
    number hc.unhealthyThreshold, "rise".toList, number hc.healthyThreshold]] ++
  [["listen", "stats"],
    ["bind", "127.0.0.1:8404"],
    ["mode", "http"],
    ["stats", "enable"],
    ["stats", "uri", "/"],
    ["backend", "acme"],
    ["mode", "http"],
    ["server", "certbot", "127.0.0.1:8402"]].map literals

def frontendName (r : ForwardingRule) : Text := "fe_".toList ++ digits r.entryPort
def backendName (i : ℕ) : Text := "be_".toList ++ digits i

/-- One frontend, with the backend of its rule. -/
def expectedFrontend (lb : LoadBalancer) (r : ForwardingRule) (i : ℕ) : List (List Text) :=
  let hasHttps := lb.rules.any (·.entryProtocol = .https)
  [["frontend".toList, frontendName r],
    ["bind".toList, "*:".toList ++ digits r.entryPort] ++
      (if r.entryProtocol = .https then ["ssl".toList, "crt".toList,
        "/etc/haproxy/certs/".toList ++ safe (r.certificateId.getD "none".toList) ++ ".pem".toList,
        "alpn".toList, "h2,http/1.1".toList] else []),
    ["mode".toList, mode r.isTcp]] ++
  (if r.isTcp then [] else
    [["option", "forwardfor"],
      ["http-request", "set-header", "X-Forwarded-Proto", "%[ssl_fc,iif(https,http)]"],
      ["acl", "acme", "path_beg", "/.well-known/acme-challenge/"],
      ["use_backend", "acme", "if", "acme"]].map literals ++
    if lb.redirectHttpToHttps && r.entryProtocol = .http && hasHttps then
      [literals ["http-request", "redirect", "scheme", "https", "code", "301", "unless", "\x7b",
        "ssl_fc", "\x7d", "||", "acme"]] else []) ++
  [["default_backend".toList, backendName i]]

def expectedServer (lb : LoadBalancer) (r : ForwardingRule) (t : RenderTarget) : List Text :=
  ["server".toList, "srv_".toList ++ t.serverId, t.address ++ ':' :: digits r.targetPort,
    "check".toList, "port".toList, number lb.healthCheck.port] ++
  (if lb.sticky.isSome && !r.isTcp then ["cookie".toList, t.serverId] else []) ++
  (if lb.proxyProtocol then ["send-proxy".toList] else [])

/-- One backend, with each target once. -/
def expectedBackend (lb : LoadBalancer) (targets : List RenderTarget) (r : ForwardingRule) (i : ℕ) :
    List (List Text) :=
  [["backend".toList, backendName i],
    ["mode".toList, mode (r.targetProtocol = .tcp || r.isTcp)],
    ["balance".toList,
      if lb.algorithm = .least_conn then "leastconn".toList else "roundrobin".toList]] ++
  (if lb.healthCheck.protocol = some .http && !r.isTcp then
    [["option".toList, "httpchk".toList, "GET".toList, orText lb.healthCheck.path ['/']]]
    else []) ++
  (match lb.sticky with
    | some sticky => if r.isTcp then [] else
        [["cookie".toList, orText sticky.cookieName "PRGDLB".toList, "insert".toList,
          "indirect".toList, "nocache".toList] ++
          match sticky.ttlSeconds.filter (· ≠ 0) with
          | some ttl => ["maxidle".toList, digits ttl ++ ['s']]
          | none => []]
    | none => []) ++
  targets.map (expectedServer lb r)

def expected (lb : LoadBalancer) (targets : List RenderTarget) : List (List Text) :=
  expectedHeader lb.healthCheck ++
    lb.rules.zipIdx.flatMap fun (r, i) => expectedFrontend lb r i ++ expectedBackend lb targets r i

/-! ## Reading lines -/

def isBlank (c : Char) : Bool := c = ' ' || ('\t' ≤ c && c ≤ '\r')

def readConfig (s : Text) : List (List Text) := Words.read isBlank '#' '\n' s

/-- A text that HAProxy reads as one word. -/
abbrev IsWord (w : Text) : Prop := Words.IsWord isBlank '#' '\n' w

theorem isWord_of_plain {w : Text} (hne : w ≠ []) (h : w.all plain = true) : IsWord w := by
  have hc : ∀ c ∈ w, plain c = true := List.all_eq_true.mp h
  refine ⟨hne, fun c hm => ?_, fun hm => absurd (hc _ hm) (by decide), fun hhead => ?_⟩
  · have hplain := hc c hm
    simp only [plain, isBlank, Bool.not_eq_true', Bool.or_eq_false_iff] at hplain ⊢
    exact hplain.1
  · exact absurd (hc '#' (List.mem_of_head? hhead)) (by decide)

/-- The lines are read as these words. -/
structure Writes (ls : List Text) (ws : List (List Text)) : Prop where
  lines : ∀ l ∈ ls, '\n' ∉ l
  words : (ls.map (Words.words isBlank '#')).filter (· ≠ []) = ws

theorem Writes.append {ls ms : List Text} {vs ws : List (List Text)} (hl : Writes ls vs)
    (hm : Writes ms ws) : Writes (ls ++ ms) (vs ++ ws) := by
  refine ⟨fun l hmem => ?_, ?_⟩
  · exact (List.mem_append.mp hmem).elim (hl.lines l) (hm.lines l)
  · rw [List.map_append, List.filter_append, hl.words, hm.words]

theorem Writes.flatMap {ι : Type} {f : ι → List Text} {g : ι → List (List Text)} {is : List ι}
    (h : ∀ i ∈ is, Writes (f i) (g i)) : Writes (is.flatMap f) (is.flatMap g) := by
  induction is with
  | nil => exact ⟨by simp, rfl⟩
  | cons i is ih =>
    rw [List.flatMap_cons, List.flatMap_cons]
    exact (h i List.mem_cons_self).append (ih fun j hj => h j (List.mem_cons_of_mem i hj))

/-- A line of words. -/
theorem Writes.line {l : Text} (indent : Text) {ws : List Text}
    (hl : l = indent ++ Words.spaced ' ' ws)
    (hindent : indent.all isBlank = true ∧ '\n' ∉ indent) (hne : ws ≠ [])
    (h : ∀ w ∈ ws, IsWord w) : Writes [l] [ws] := by
  subst hl
  refine ⟨fun l hm => ?_, ?_⟩
  · rw [List.mem_singleton.mp hm, List.mem_append]
    rintro (hm | hm)
    · exact hindent.2 hm
    · exact Words.notMem_spaced (by decide) (fun w hw => (h w hw).lines) hm
  · rw [List.map_singleton, Words.words_spaced rfl (List.all_eq_true.mp hindent.1) h]
    simp [hne]

/-- A character from the digits on can be in any word. -/
theorem plain_of_le {c : Char} (h : '0' ≤ c) : plain c = true := by
  have hspace : c ≠ ' ' := fun he => absurd (he ▸ h) (by decide)
  have hcontrol : ¬ c ≤ '\r' := fun hle => absurd (Char.le_trans h hle) (by decide)
  have hsharp : c ≠ '#' := fun he => absurd (he ▸ h) (by decide)
  simp [plain, hspace, hcontrol, hsharp]

theorem plain_of_isDigit {c : Char} (h : Text.isDigit c = true) : plain c = true := by
  rw [Text.isDigit, Bool.and_eq_true, decide_eq_true_eq] at h
  exact plain_of_le h.1

theorem plain_of_isName {c : Char} (h : isName c = true) : plain c = true := by
  simp only [isName, Text.isLetter, Text.isUpper, Text.isLower, Bool.or_eq_true, Bool.and_eq_true,
    decide_eq_true_eq] at h
  rcases h with (((⟨hA, -⟩ | ⟨ha, -⟩) | hdigit) | rfl) | rfl
  · exact plain_of_le (Char.le_trans (by decide : '0' ≤ 'A') hA)
  · exact plain_of_le (Char.le_trans (by decide : '0' ≤ 'a') ha)
  · exact plain_of_isDigit hdigit
  · decide
  · decide

theorem plain_digits (n : ℕ) : (digits n).all plain = true :=
  List.all_eq_true.mpr fun c hc => plain_of_isDigit (JsNumber.isDigit_digits n c hc)

theorem plain_number (n : Option ℕ) : (number n).all plain = true := by
  cases n with
  | none => decide
  | some n => exact plain_digits n

theorem plain_safe (s : Text) : (safe s).all plain = true :=
  List.all_eq_true.mpr fun _ hc => plain_of_isName (List.mem_filter.mp hc).2

theorem digits_ne_nil (n : ℕ) : digits n ≠ [] := Nat.toDigits_ne_nil

theorem number_ne_nil (n : Option ℕ) : number n ≠ [] := by
  cases n with
  | none => decide
  | some n => exact digits_ne_nil n

/-! ## Every line -/

theorem Writes.cons {l : Text} {ls : List Text} {ws : List Text} {wss : List (List Text)}
    (hl : Writes [l] [ws]) (hls : Writes ls wss) : Writes (l :: ls) (ws :: wss) := hl.append hls

theorem Writes.empty : Writes [[]] [] := by constructor <;> decide

theorem Writes.nil : Writes [] [] := ⟨by simp, rfl⟩

/-- An indented line. -/
theorem Writes.indented {l : Text} {ws : List Text} (hl : l = "  ".toList ++ Words.spaced ' ' ws)
    (hne : ws ≠ []) (h : ∀ w ∈ ws, IsWord w) : Writes [l] [ws] :=
  Writes.line "  ".toList hl (by decide) hne h

/-- A line of words that are given. -/
theorem literal_line {l : Text} (indent : Text) {ws : List String}
    (hl : l = indent ++ Words.spaced ' ' (literals ws))
    (hindent : indent.all isBlank = true ∧ '\n' ∉ indent)
    (h : ws ≠ [] ∧ (literals ws).all (fun w => !w.isEmpty && w.all plain) = true) :
    Writes [l] [literals ws] := by
  refine Writes.line indent hl hindent (by simpa [literals] using h.1) fun w hw => ?_
  have hw := List.all_eq_true.mp h.2 w hw
  rw [Bool.and_eq_true] at hw
  exact isWord_of_plain (by simpa using hw.1) hw.2

/-- The check of a load balancer that sets nothing. -/
def noCheck : HealthCheck := ⟨none, none, none, none, none, none, none⟩

theorem words_comment (s : Text) : Words.words isBlank '#' ('#' :: ' ' :: s) = [] := by
  have hparts : Words.parts isBlank (['#'] ++ ' ' :: s) = ['#'] :: Words.parts isBlank s :=
    Words.parts_word_blank (by simp) (fun c hc => List.mem_singleton.mp hc ▸ rfl) rfl s
  rw [List.singleton_append] at hparts
  rw [Words.words, hparts]
  rfl

theorem writes_global :
    Writes ((header noCheck).take 4) ((expectedHeader noCheck).take 3) := by
  have hcomment : Writes [(header noCheck).headD []] [] :=
    ⟨by decide, by
      rw [List.map_singleton, header, List.headD_cons]
      exact congrArg (fun ws => [ws].filter (· ≠ [])) (words_comment _)⟩
  have hglobal : Writes ["global".toList] [literals ["global"]] :=
    literal_line [] (by simp [literals, Words.spaced]) (by decide) (by decide)
  have hlog : Writes ["  log /dev/log local0".toList] [literals ["log", "/dev/log", "local0"]] :=
    literal_line "  ".toList (by simp [literals, Words.spaced]) (by decide) (by decide)
  have hmaxconn : Writes ["  maxconn 20000".toList] [literals ["maxconn", "20000"]] :=
    literal_line "  ".toList (by simp [literals, Words.spaced]) (by decide) (by decide)
  exact hcomment.append (hglobal.cons (hlog.cons hmaxconn))

theorem writes_tuning :
    Writes (((header noCheck).drop 4).take 3) (((expectedHeader noCheck).drop 3).take 3) := by
  have hsocket : Writes ["  stats socket /run/haproxy/admin.sock mode 660 level admin".toList]
      [literals ["stats", "socket", "/run/haproxy/admin.sock", "mode", "660", "level", "admin"]] :=
    literal_line "  ".toList (by simp [literals, Words.spaced]) (by decide) (by decide)
  have hparam : Writes ["  tune.ssl.default-dh-param 2048".toList]
      [literals ["tune.ssl.default-dh-param", "2048"]] :=
    literal_line "  ".toList (by simp [literals, Words.spaced]) (by decide) (by decide)
  have hoptions : Writes ["  ssl-default-bind-options ssl-min-ver TLSv1.2".toList]
      [literals ["ssl-default-bind-options", "ssl-min-ver", "TLSv1.2"]] :=
    literal_line "  ".toList (by simp [literals, Words.spaced]) (by decide) (by decide)
  exact hsocket.cons (hparam.cons hoptions)

theorem writes_defaults :
    Writes (((header noCheck).drop 7).take 8) (((expectedHeader noCheck).drop 6).take 7) := by
  constructor <;> decide

theorem writes_stats :
    Writes (((header noCheck).drop 16).take 6) (((expectedHeader noCheck).drop 14).take 5) := by
  constructor <;> decide

theorem writes_acme :
    Writes ((header noCheck).drop 22) ((expectedHeader noCheck).drop 19) := by
  constructor <;> decide

theorem writes_header (hc : HealthCheck) : Writes (header hc) (expectedHeader hc) := by
  have hfirst := (writes_global.append writes_tuning).append writes_defaults
  have hmiddle : Writes ["  default-server inter ".toList ++ number hc.intervalSeconds ++
      "s fall ".toList ++ number hc.unhealthyThreshold ++ " rise ".toList ++
      number hc.healthyThreshold]
      [["default-server".toList, "inter".toList, number hc.intervalSeconds ++ ['s'], "fall".toList,
        number hc.unhealthyThreshold, "rise".toList, number hc.healthyThreshold]] := by
    refine Writes.line "  ".toList (by simp [Words.spaced]) (by decide) (by simp) ?_
    simp only [List.forall_mem_cons, List.not_mem_nil, false_imp_iff, implies_true, and_true]
    have hnumber : ∀ n, IsWord (number n) := fun n =>
      isWord_of_plain (number_ne_nil n) (plain_number n)
    refine ⟨isWord_of_plain (by decide) (by decide), isWord_of_plain (by decide) (by decide),
      isWord_of_plain (by simp) (by simp [plain_number]; decide),
      isWord_of_plain (by decide) (by decide),
      hnumber _, isWord_of_plain (by decide) (by decide), hnumber _⟩
  exact (hfirst.append hmiddle).append (writes_stats.append writes_acme)

theorem isWord_mode (tcp : Bool) : IsWord (mode tcp) := by
  cases tcp <;> exact isWord_of_plain (by decide) (by decide)

theorem isWord_named {before : Text} (hne : before ≠ []) (h : before.all plain = true) (n : ℕ) :
    IsWord (before ++ digits n) :=
  isWord_of_plain (by simp [hne]) (by rw [List.all_append, h, plain_digits]; rfl)

theorem writes_http :
    Writes ["  option forwardfor".toList,
      "  http-request set-header X-Forwarded-Proto %[ssl_fc,iif(https,http)]".toList,
      "  acl acme path_beg /.well-known/acme-challenge/".toList,
      "  use_backend acme if acme".toList]
    ([["option", "forwardfor"],
      ["http-request", "set-header", "X-Forwarded-Proto", "%[ssl_fc,iif(https,http)]"],
      ["acl", "acme", "path_beg", "/.well-known/acme-challenge/"],
      ["use_backend", "acme", "if", "acme"]].map literals) := by
  have hoption : Writes ["  option forwardfor".toList] [literals ["option", "forwardfor"]] :=
    literal_line "  ".toList (by simp [literals, Words.spaced]) (by decide) (by decide)
  have hset : Writes ["  http-request set-header X-Forwarded-Proto %[ssl_fc,iif(https,http)]".toList]
      [literals ["http-request", "set-header", "X-Forwarded-Proto", "%[ssl_fc,iif(https,http)]"]] :=
    literal_line "  ".toList (by simp [literals, Words.spaced]) (by decide) (by decide)
  have hacl : Writes ["  acl acme path_beg /.well-known/acme-challenge/".toList]
      [literals ["acl", "acme", "path_beg", "/.well-known/acme-challenge/"]] :=
    literal_line "  ".toList (by simp [literals, Words.spaced]) (by decide) (by decide)
  have huse : Writes ["  use_backend acme if acme".toList]
      [literals ["use_backend", "acme", "if", "acme"]] :=
    literal_line "  ".toList (by simp [literals, Words.spaced]) (by decide) (by decide)
  exact hoption.cons (hset.cons (hacl.cons huse))

theorem writes_redirect :
    Writes ["  http-request redirect scheme https code 301 unless \x7b ssl_fc \x7d || acme".toList]
      [literals ["http-request", "redirect", "scheme", "https", "code", "301", "unless", "\x7b",
        "ssl_fc", "\x7d", "||", "acme"]] :=
  literal_line "  ".toList (by simp [literals, Words.spaced]) (by decide) (by decide)

theorem writes_frontend (lb : LoadBalancer) (r : ForwardingRule) (i : ℕ) :
    Writes (frontend lb r i) (expectedFrontend lb r i) := by
  have hlit : ∀ {w : Text}, w ≠ [] → w.all plain = true → IsWord w := isWord_of_plain
  have hname : Writes ["frontend fe_".toList ++ digits r.entryPort]
      [["frontend".toList, frontendName r]] := by
    refine Writes.line [] (by simp [Words.spaced, frontendName]) (by decide) (by simp) ?_
    simp only [List.forall_mem_cons, List.not_mem_nil, false_imp_iff, implies_true, and_true]
    exact ⟨hlit (by decide) (by decide), isWord_named (by decide) (by decide) _⟩
  have hbind : Writes ["  bind *:".toList ++ digits r.entryPort ++
      (if r.entryProtocol = .https then " ssl crt /etc/haproxy/certs/".toList ++
        safe (r.certificateId.getD "none".toList) ++ ".pem alpn h2,http/1.1".toList else [])]
      [["bind".toList, "*:".toList ++ digits r.entryPort] ++
        (if r.entryProtocol = .https then ["ssl".toList, "crt".toList,
          "/etc/haproxy/certs/".toList ++ safe (r.certificateId.getD "none".toList) ++
            ".pem".toList,
          "alpn".toList, "h2,http/1.1".toList] else [])] := by
    have hport : IsWord ("*:".toList ++ digits r.entryPort) :=
      isWord_named (by decide) (by decide) _
    by_cases hhttps : r.entryProtocol = .https
    · rw [if_pos hhttps, if_pos hhttps]
      refine Writes.indented (by simp [Words.spaced]) (by simp) ?_
      simp only [List.cons_append, List.nil_append, List.forall_mem_cons, List.not_mem_nil,
        false_imp_iff, implies_true, and_true]
      refine ⟨hlit (by decide) (by decide), hport, hlit (by decide) (by decide),
        hlit (by decide) (by decide), hlit (by simp) ?_, hlit (by decide) (by decide),
        hlit (by decide) (by decide)⟩
      rw [List.all_append, List.all_append, plain_safe]
      decide
    · rw [if_neg hhttps, if_neg hhttps]
      refine Writes.indented (by simp [Words.spaced]) (by simp) ?_
      simp only [List.append_nil, List.forall_mem_cons, List.not_mem_nil, false_imp_iff,
        implies_true, and_true]
      exact ⟨hlit (by decide) (by decide), hport⟩
  have hmode : Writes ["  mode ".toList ++ mode r.isTcp] [["mode".toList, mode r.isTcp]] := by
    refine Writes.indented (by simp [Words.spaced]) (by simp) ?_
    simp only [List.forall_mem_cons, List.not_mem_nil, false_imp_iff, implies_true, and_true]
    exact ⟨hlit (by decide) (by decide), isWord_mode _⟩
  have hdefault : Writes ["  default_backend be_".toList ++ digits i, []]
      [["default_backend".toList, backendName i]] := by
    refine (Writes.indented (by simp [Words.spaced, backendName]) (by simp) ?_).append Writes.empty
    simp only [List.forall_mem_cons, List.not_mem_nil, false_imp_iff, implies_true, and_true]
    exact ⟨hlit (by decide) (by decide), isWord_named (by decide) (by decide) _⟩
  refine ((hname.cons (hbind.cons hmode)).append ?_).append hdefault
  split_ifs
  · exact Writes.nil
  · exact writes_http.append writes_redirect
  · exact writes_http.append Writes.nil

/-- A line with more words behind it. -/
theorem Writes.more {l more : Text} {ws vs : List Text}
    (hl : l = "  ".toList ++ Words.spaced ' ' ws) (hne : ws ≠ [])
    (hmore : (vs = [] ∧ more = []) ∨ (vs ≠ [] ∧ more = ' ' :: Words.spaced ' ' vs)) :
    l ++ more = "  ".toList ++ Words.spaced ' ' (ws ++ vs) := by
  rcases hmore with ⟨rfl, rfl⟩ | ⟨hvs, rfl⟩
  · rw [List.append_nil, List.append_nil, hl]
  · rw [hl, Words.spaced_append hne hvs, List.append_assoc]

theorem writes_server (lb : LoadBalancer) (r : ForwardingRule) (t : RenderTarget) :
    Writes [server lb r t] [expectedServer lb r t] := by
  have hlit : ∀ {w : Text}, w ≠ [] → w.all plain = true → IsWord w := isWord_of_plain
  have hid : t.serverId.all plain = true := t.id_plain
  have hne : expectedServer lb r t ≠ [] := by
    rw [expectedServer, List.append_assoc, List.cons_append]
    exact List.cons_ne_nil _ _
  refine Writes.indented ?_ hne ?_
  · refine Writes.more (Writes.more ?_ (by simp) ?_) (by simp) ?_
    · generalize digits r.targetPort = port
      generalize number lb.healthCheck.port = check
      generalize t.serverId = id
      generalize t.address = address
      simp [Words.spaced]
    · split_ifs
      · exact .inr ⟨by simp, by simp [Words.spaced]⟩
      · exact .inl ⟨rfl, rfl⟩
    · split_ifs
      · exact .inr ⟨by simp, by simp [Words.spaced]⟩
      · exact .inl ⟨rfl, rfl⟩
  · have hbase : ∀ w ∈ ["server".toList, "srv_".toList ++ t.serverId,
        t.address ++ ':' :: digits r.targetPort, "check".toList, "port".toList,
        number lb.healthCheck.port], IsWord w := by
      simp only [List.forall_mem_cons, List.not_mem_nil, false_imp_iff, implies_true, and_true]
      refine ⟨hlit (by decide) (by decide), hlit (by simp) ?_, hlit (by simp) ?_,
        hlit (by decide) (by decide), hlit (by decide) (by decide),
        hlit (number_ne_nil _) (plain_number _)⟩
      · rw [List.all_append, hid]
        decide
      · rw [List.all_append, t.address_plain, List.all_cons, plain_digits]
        decide
    have hcookie : ∀ w ∈ (if lb.sticky.isSome && !r.isTcp then ["cookie".toList, t.serverId]
        else []), IsWord w := by
      split_ifs
      · simp only [List.forall_mem_cons, List.not_mem_nil, false_imp_iff, implies_true, and_true]
        exact ⟨hlit (by decide) (by decide), hlit t.id_ne hid⟩
      · simp
    have hproxy : ∀ w ∈ (if lb.proxyProtocol then ["send-proxy".toList] else []), IsWord w := by
      split_ifs
      · simp only [List.forall_mem_cons, List.not_mem_nil, false_imp_iff, implies_true, and_true]
        exact hlit (by decide) (by decide)
      · simp
    intro w hw
    rcases List.mem_append.mp hw with hw | hw
    · exact (List.mem_append.mp hw).elim (hbase w) (hcookie w)
    · exact hproxy w hw

/-- The name of the cookie is one word, given or not. -/
theorem isWord_cookieName {name : Option Text} (h : ∀ n ∈ name, isCookieName n = true) :
    IsWord (orText name "PRGDLB".toList) := by
  unfold orText
  cases hn : name.filter (· ≠ []) with
  | none => exact isWord_of_plain (by decide) (by decide)
  | some n =>
    obtain ⟨hname, hne⟩ := Option.filter_eq_some_iff.mp hn
    have hvalid := h n hname
    rw [isCookieName, Bool.and_eq_true] at hvalid
    refine isWord_of_plain (of_decide_eq_true hne) (List.all_eq_true.mpr fun c hc => ?_)
    exact plain_of_isName (List.all_eq_true.mp hvalid.1 c hc)

theorem writes_cookie {sticky : StickySessions}
    (h : ∀ name ∈ sticky.cookieName, isCookieName name = true) :
    Writes ["  cookie ".toList ++ orText sticky.cookieName "PRGDLB".toList ++
        " insert indirect nocache".toList ++
        match sticky.ttlSeconds.filter (· ≠ 0) with
        | some ttl => " maxidle ".toList ++ digits ttl ++ ['s']
        | none => []]
      [["cookie".toList, orText sticky.cookieName "PRGDLB".toList, "insert".toList,
        "indirect".toList, "nocache".toList] ++
        match sticky.ttlSeconds.filter (· ≠ 0) with
        | some ttl => ["maxidle".toList, digits ttl ++ ['s']]
        | none => []] := by
  have hlit : ∀ {w : Text}, w ≠ [] → w.all plain = true → IsWord w := isWord_of_plain
  have hname := isWord_cookieName h
  generalize orText sticky.cookieName "PRGDLB".toList = name at hname ⊢
  have hbase : ∀ w ∈ ["cookie".toList, name, "insert".toList, "indirect".toList,
      "nocache".toList], IsWord w := by
    simp only [List.forall_mem_cons, List.not_mem_nil, false_imp_iff, implies_true, and_true]
    exact ⟨hlit (by decide) (by decide), hname, hlit (by decide) (by decide),
      hlit (by decide) (by decide), hlit (by decide) (by decide)⟩
  have hline : "  cookie ".toList ++ name ++ " insert indirect nocache".toList =
      "  ".toList ++ Words.spaced ' ' ["cookie".toList, name, "insert".toList, "indirect".toList,
        "nocache".toList] := by simp [Words.spaced]
  cases sticky.ttlSeconds.filter (· ≠ 0) with
  | none =>
    rw [List.append_nil, List.append_nil]
    exact Writes.indented hline (by simp) hbase
  | some ttl =>
    have hmaxidle : " maxidle ".toList ++ digits ttl ++ ['s'] =
        ' ' :: Words.spaced ' ' ["maxidle".toList, digits ttl ++ ['s']] := by simp [Words.spaced]
    refine Writes.indented (Writes.more hline (by simp) (.inr ⟨by simp, hmaxidle⟩)) (by simp) ?_
    intro w hw
    rcases List.mem_append.mp hw with hw | hw
    · exact hbase w hw
    · have httl : (digits ttl ++ ['s']).all plain = true := by
        rw [List.all_append, plain_digits]
        decide
      simp only [List.mem_cons, List.not_mem_nil, or_false] at hw
      rcases hw with rfl | rfl
      · exact hlit (by decide) (by decide)
      · exact hlit (by simp) httl

theorem writes_backend {lb : LoadBalancer} (targets : List RenderTarget) (r : ForwardingRule)
    (i : ℕ) (hcookie : ∀ s ∈ lb.sticky, ∀ name ∈ s.cookieName, isCookieName name = true)
    (hpath : lb.healthCheck.protocol = some .http → r.isTcp = false →
      IsWord (orText lb.healthCheck.path ['/'])) :
    Writes (backend lb targets r i) (expectedBackend lb targets r i) := by
  have hlit : ∀ {w : Text}, w ≠ [] → w.all plain = true → IsWord w := isWord_of_plain
  have hname : Writes ["backend be_".toList ++ digits i] [["backend".toList, backendName i]] := by
    refine Writes.line [] (by simp [Words.spaced, backendName]) (by decide) (by simp) ?_
    simp only [List.forall_mem_cons, List.not_mem_nil, false_imp_iff, implies_true, and_true]
    exact ⟨hlit (by decide) (by decide), isWord_named (by decide) (by decide) _⟩
  have hmode : Writes ["  mode ".toList ++ mode (r.targetProtocol = .tcp || r.isTcp)]
      [["mode".toList, mode (r.targetProtocol = .tcp || r.isTcp)]] := by
    refine Writes.indented (by simp [Words.spaced]) (by simp) ?_
    simp only [List.forall_mem_cons, List.not_mem_nil, false_imp_iff, implies_true, and_true]
    exact ⟨hlit (by decide) (by decide), isWord_mode _⟩
  have hbalance : Writes ["  balance ".toList ++
      if lb.algorithm = .least_conn then "leastconn".toList else "roundrobin".toList]
      [["balance".toList,
        if lb.algorithm = .least_conn then "leastconn".toList else "roundrobin".toList]] := by
    split_ifs <;> constructor <;> decide
  have hcheck : Writes (if lb.healthCheck.protocol = some .http && !r.isTcp then
      ["  option httpchk GET ".toList ++ orText lb.healthCheck.path ['/']] else [])
      (if lb.healthCheck.protocol = some .http && !r.isTcp then
        [["option".toList, "httpchk".toList, "GET".toList, orText lb.healthCheck.path ['/']]]
      else []) := by
    split_ifs with hshown
    · rw [Bool.and_eq_true, decide_eq_true_eq, Bool.not_eq_true'] at hshown
      refine Writes.indented (by simp [Words.spaced]) (by simp) ?_
      simp only [List.forall_mem_cons, List.not_mem_nil, false_imp_iff, implies_true, and_true]
      exact ⟨hlit (by decide) (by decide), hlit (by decide) (by decide),
        hlit (by decide) (by decide), hpath hshown.1 hshown.2⟩
    · exact Writes.nil
  have hservers : Writes (targets.map (server lb r)) (targets.map (expectedServer lb r)) := by
    rw [List.map_eq_flatMap, List.map_eq_flatMap]
    exact Writes.flatMap fun t _ => writes_server lb r t
  have hnone : Writes (if targets = [] then ["  # no targets yet".toList] else []) [] := by
    split_ifs <;> constructor <;> decide
  have hsticky : Writes
      (match lb.sticky with
        | some sticky => if r.isTcp then [] else
            ["  cookie ".toList ++ orText sticky.cookieName "PRGDLB".toList ++
              " insert indirect nocache".toList ++
              match sticky.ttlSeconds.filter (· ≠ 0) with
              | some ttl => " maxidle ".toList ++ digits ttl ++ ['s']
              | none => []]
        | none => [])
      (match lb.sticky with
        | some sticky => if r.isTcp then [] else
            [["cookie".toList, orText sticky.cookieName "PRGDLB".toList, "insert".toList,
              "indirect".toList, "nocache".toList] ++
              match sticky.ttlSeconds.filter (· ≠ 0) with
              | some ttl => ["maxidle".toList, digits ttl ++ ['s']]
              | none => []]
        | none => []) := by
    cases hs : lb.sticky with
    | none => exact Writes.nil
    | some sticky =>
      dsimp only
      split_ifs
      · exact Writes.nil
      · exact writes_cookie fun name hname => hcookie sticky hs name hname
  have hall := (((((hname.cons (hmode.cons hbalance)).append hcheck).append hsticky).append
    hservers).append hnone).append Writes.empty
  rw [List.append_nil, List.append_nil] at hall
  exact hall


/-! ## What the checks promise -/

theorem checkRule_port {certificates : List Text} {ports : List ℕ} {r : ForwardingRule}
    (h : checkRule certificates ports r = .ok ()) : r.entryPort ∉ ports := by
  intro hmem
  rw [checkRule, if_pos hmem] at h
  cases h

theorem nodup_of_checkRules {certificates : List Text} {ports : List ℕ}
    {rules : List ForwardingRule} (h : checkRules certificates ports rules = .ok ()) :
    (rules.map (·.entryPort)).Nodup ∧ ∀ r ∈ rules, r.entryPort ∉ ports := by
  induction rules generalizing ports with
  | nil => simp
  | cons r rules ih =>
    rw [checkRules] at h
    cases hr : checkRule certificates ports r with
    | error e =>
      rw [hr] at h
      cases h
    | ok u =>
      rw [hr] at h
      obtain ⟨hnodup, hnew⟩ := ih h
      have hport := checkRule_port hr
      rw [List.map_cons, List.nodup_cons]
      refine ⟨⟨fun hm => ?_, hnodup⟩, List.forall_mem_cons.mpr ⟨hport, fun q hq hmem =>
        hnew q hq (List.mem_append_left _ hmem)⟩⟩
      obtain ⟨q, hq, hsame⟩ := List.mem_map.mp hm
      exact hnew q hq (by rw [hsame]; simp)

/-- What every stored load balancer has of the checks. -/
structure Sound (lb : LoadBalancer) : Prop where
  ports : (lb.rules.map (·.entryPort)).Nodup
  cookie : ∀ s ∈ lb.sticky, ∀ name ∈ s.cookieName, isCookieName name = true

theorem nodup_of_validateRules {certificates : List Text} {rules stored : List ForwardingRule}
    (h : validateRules certificates rules = .ok stored) :
    (stored.map (·.entryPort)).Nodup := by
  unfold validateRules at h
  cases hc : checkRules certificates [] rules with
  | error e =>
    rw [hc] at h
    cases h
  | ok u =>
    rw [hc] at h
    cases h
    rw [List.map_map]
    exact (nodup_of_checkRules hc).1

theorem cookie_of_stored {d : StickySessionsDto} (h : d.isValid = true) :
    ∀ s ∈ d.stored, ∀ name ∈ s.cookieName, isCookieName name = true := by
  intro s hs name hname
  unfold StickySessionsDto.stored at hs
  split_ifs at hs
  · cases hs
    rw [StickySessionsDto.isValid, Bool.and_eq_true] at h
    cases hn : d.cookieName with
    | absent =>
      simp [hn, Field.over] at hname
    | null =>
      simp [hn, Field.over] at hname
    | value n =>
      have hvalid : isCookieName n = true := by simpa [hn, Field.all] using h.1
      have hsame : n = name := by simpa [hn, Field.over] using hname
      rwa [← hsame]
  · cases hs

theorem sound_of_stored {lb : LoadBalancer} (h : Stored lb) : Sound lb := by
  induction h with
  | @create certificates d lb hvalid h =>
    unfold create at h
    cases hrules : validateRules certificates d.forwardingRules with
    | error e =>
      rw [hrules] at h
      cases h
    | ok rules =>
      rw [hrules] at h
      cases h
      refine ⟨nodup_of_validateRules hrules, fun s hs => ?_⟩
      obtain ⟨sticky, hsticky, hs⟩ := Option.bind_eq_some_iff.mp hs
      rw [CreateLoadBalancerDto.isValid, Bool.and_eq_true, hsticky] at hvalid
      exact cookie_of_stored hvalid.2 s hs
  | @update certificates d lb lb' hlb hvalid h ih =>
    rw [UpdateLoadBalancerDto.isValid, Bool.and_eq_true] at hvalid
    have hcookie : ∀ s ∈ (match d.stickySessions with
        | some sticky => sticky.stored
        | none => lb.sticky), ∀ name ∈ s.cookieName, isCookieName name = true := by
      cases hs : d.stickySessions with
      | none => exact ih.cookie
      | some sticky =>
        rw [hs] at hvalid
        exact cookie_of_stored hvalid.2
    unfold update at h
    cases hd : d.forwardingRules with
    | none =>
      rw [hd] at h
      cases h
      exact ⟨ih.ports, hcookie⟩
    | some sent =>
      rw [hd] at h
      dsimp only at h
      cases hrules : validateRules certificates sent with
      | error e =>
        rw [hrules] at h
        cases h
      | ok rules =>
        rw [hrules] at h
        cases h
        exact ⟨nodup_of_validateRules hrules, hcookie⟩

/-! ## The whole configuration -/

/-- Some rule checks its targets by HTTP, on the path of the customer. -/
def checksPath (lb : LoadBalancer) : Prop :=
  lb.healthCheck.protocol = some .http ∧ ∃ r ∈ lb.rules, r.isTcp = false

/-- Frontends have names of their own, and so have backends. -/
def OwnNames (lb : LoadBalancer) : Prop :=
  (lb.rules.map frontendName).Nodup ∧
    ("acme".toList :: (List.range lb.rules.length).map backendName).Nodup

theorem ownNames {lb : LoadBalancer} (h : Sound lb) : OwnNames lb := by
  have hback : Function.Injective backendName := fun m n heq =>
    JsNumber.digits_injective (List.append_cancel_left heq)
  refine ⟨?_, List.nodup_cons.mpr ⟨fun hm => ?_, List.Nodup.map hback List.nodup_range⟩⟩
  · have hmap : lb.rules.map frontendName =
        (lb.rules.map (·.entryPort)).map fun n => "fe_".toList ++ digits n := by
      rw [List.map_map]
      rfl
    rw [hmap]
    exact List.Nodup.map (fun m n heq => JsNumber.digits_injective (List.append_cancel_left heq)) h.ports
  · obtain ⟨i, -, hi⟩ := List.mem_map.mp hm
    have hhead := congrArg List.head? hi
    exact absurd hhead (by simp [backendName])

theorem join_eq_spaced (ls : List Text) : Text.join ['\n'] ls = Words.spaced '\n' ls := by
  induction ls with
  | nil => rfl
  | cons l ls ih =>
    cases ls with
    | nil => rfl
    | cons m ls =>
      rw [Text.join_cons_cons, ih, Words.spaced, List.append_assoc]
      rfl

/-- Read as HAProxy reads it, the configuration is the sections for the rules and nothing else
exactly if the path of the health check is one word, or is not written. -/
theorem renderHaproxyConfig_reads_iff (lb : LoadBalancer) (h : Stored lb)
    (targets : List RenderTarget) :
    readConfig (renderHaproxyConfig lb targets) = expected lb targets ∧ OwnNames lb ↔
      (checksPath lb → IsWord (orText lb.healthCheck.path ['/'])) := by
  have hsound := sound_of_stored h
  rw [and_iff_left (ownNames hsound)]
  constructor
  · rintro hread ⟨hprotocol, r, hr, hhttp⟩
    obtain ⟨i, hi⟩ := List.mem_iff_getElem?.mp hr
    have hline : ["option".toList, "httpchk".toList, "GET".toList,
        orText lb.healthCheck.path ['/']] ∈ expectedBackend lb targets r i := by
      rw [expectedBackend, hprotocol, hhttp]
      simp only [List.mem_append]
      exact .inl (.inl (.inr (by simp)))
    have hmem : ["option".toList, "httpchk".toList, "GET".toList,
        orText lb.healthCheck.path ['/']] ∈ expected lb targets := by
      refine List.mem_append_right _ (List.mem_flatMap.mpr ⟨(r, i), ?_, ?_⟩)
      · exact List.mk_mem_zipIdx_iff_getElem?.mpr hi
      · exact List.mem_append_right _ hline
    rw [← hread] at hmem
    exact Words.isWord_of_mem_read hmem (by simp)
  · intro hpath
    have hwrites : Writes (lines lb targets) (expected lb targets) := by
      refine (writes_header lb.healthCheck).append (Writes.flatMap fun ri hri => ?_)
      obtain ⟨r, i⟩ := ri
      exact (writes_frontend lb r i).append (writes_backend targets r i hsound.cookie
        fun hprotocol hhttp => hpath ⟨hprotocol, r, List.fst_mem_of_mem_zipIdx hri, hhttp⟩)
    have hne : lines lb targets ≠ [] := by
      rw [lines, header, List.cons_append]
      exact List.cons_ne_nil _ _
    rw [renderHaproxyConfig, join_eq_spaced, readConfig, Words.read_spaced hne hwrites.lines,
      hwrites.words]

/-- HTTP on port 80 to port 8080 of the targets. -/
def webRule : ForwardingRule := ⟨.http, 80, .http, 8080, none⟩

def webDto (path : Text) : CreateLoadBalancerDto where
  algorithm := .round_robin
  forwardingRules := [webRule]
  healthCheck := { path := .value path }
  redirectHttpToHttps := false
  proxyProtocol := false

def webLb (path : Text) : LoadBalancer where
  algorithm := .round_robin
  rules := [webRule]
  healthCheck := ⟨some .http, some 8080, some path, some 10, some 5, some 3, some 3⟩
  sticky := none
  redirectHttpToHttps := false
  proxyProtocol := false

theorem renderHaproxyConfig_reads_plain :
    readConfig (renderHaproxyConfig (webLb "/health".toList) []) =
        expected (webLb "/health".toList) [] ∧ OwnNames (webLb "/health".toList) ↔
      (checksPath (webLb "/health".toList) → IsWord (orText (some "/health".toList) ['/'])) := by
  have hcreate : create [] (webDto "/health".toList) = .ok (webLb "/health".toList) := rfl
  exact renderHaproxyConfig_reads_iff (webLb "/health".toList) (.create (by decide) hcreate) []

/-- A path with a line break adds a server of the customer's own. -/
theorem renderHaproxyConfig_adds_server :
    (webDto "/\n  server mine 192.0.2.1:80".toList).isValid = true ∧
      create [] (webDto "/\n  server mine 192.0.2.1:80".toList) =
        .ok (webLb "/\n  server mine 192.0.2.1:80".toList) ∧
      literals ["server", "mine", "192.0.2.1:80"] ∈
        readConfig (renderHaproxyConfig (webLb "/\n  server mine 192.0.2.1:80".toList) []) ∧
      readConfig (renderHaproxyConfig (webLb "/\n  server mine 192.0.2.1:80".toList) []) ≠
        expected (webLb "/\n  server mine 192.0.2.1:80".toList) [] := by
  have hadded : literals ["server", "mine", "192.0.2.1:80"] ∈
      readConfig (renderHaproxyConfig (webLb "/\n  server mine 192.0.2.1:80".toList) []) := by
    have hline : "  option httpchk GET ".toList ++ "/\n  server mine 192.0.2.1:80".toList ∈
        lines (webLb "/\n  server mine 192.0.2.1:80".toList) [] := by
      refine List.mem_append_right _ (List.mem_append_left _ (List.mem_append_right _ ?_))
      exact List.mem_cons_of_mem _ (List.mem_cons_of_mem _ (List.mem_cons_of_mem _
        List.mem_cons_self))
    rw [renderHaproxyConfig, join_eq_spaced]
    exact Words.mem_read_spaced hline (by decide)
  refine ⟨by decide, rfl, hadded, fun hread => ?_⟩
  rw [hread] at hadded
  exact absurd hadded (by decide)

end Prgd.Haproxy
