import Prgd.IpAddress

/-!
# The outbound network guard

`net/guard.ts`: which addresses may be reached for which host, and `safeFetch`
with its redirects. The outside world is a parameter. For every hop it says
what each DNS lookup answers, which of the addresses handed to it Node dials,
and what comes back; nothing relates the answers of two lookups. Node dials an
IP literal directly, and calls the guarded lookup for every other host.

The URL parser of the platform and the case mappings of strings are parameters
as well. A host of a parsed URL has no brackets but the two around an IPv6
literal; `Url` carries this.
-/
namespace Prgd.NetGuard
open IpAddress

/-- `toLowerCase` and `toUpperCase`. -/
structure Casing where
  toLowerCase : Text → Text
  toUpperCase : Text → Text

structure Address where
  address : Text
  family : ℕ
  deriving DecidableEq

/-- The allowlist of the administrator. The resolver is the outside world. -/
structure NetPolicy where
  ips : BlockList
  hosts : List Text

inductive NetError where
  | blocked (message : Text)
  | other (message : Text)

/-! ## Addresses -/

def subnets (nets : List (String × ℕ)) : BlockList :=
  nets.filterMap fun n => (parse n.1.toList).map fun net => ⟨net, n.2⟩

def blocked : BlockList :=
  subnets [("0.0.0.0", 8), ("10.0.0.0", 8), ("100.64.0.0", 10), ("127.0.0.0", 8),
    ("169.254.0.0", 16), ("172.16.0.0", 12), ("192.0.0.0", 24), ("192.168.0.0", 16),
    ("198.18.0.0", 15), ("224.0.0.0", 4), ("240.0.0.0", 4)] ++
  subnets [("::", 128), ("::1", 128), ("fc00::", 7), ("fe80::", 10), ("fec0::", 10), ("ff00::", 8),
    ("2001:db8::", 32), ("100::", 64)]

def stripAny (prefixes : List String) (s : Text) : Option Text :=
  (prefixes.find? fun p => Text.startsWith s p.toList).map fun p => s.drop p.length

/-- `\d+\.\d+\.\d+\.\d+` -/
def isDotted (s : Text) : Bool :=
  let parts := Text.split s ['.']
  parts.length == 4 && parts.all fun p => p ≠ [] && p.all Text.isDigit

/-- The texts after one of the prefixes; the second is a continuation of the
first, so both have to be tried. -/
def dottedTail (s : Text) : Option Text :=
  (["::ffff:", "::ffff:0:", "64:ff9b::"].filterMap fun p => stripAny [p] s).find? isDotted

def byteText (n : ℕ) : Text := Nat.toDigits 10 n

/-- The IPv4 address inside an IPv4 mapped or NAT64 IPv6 address. Its argument
is an accepted IPv6 text, so `toLowerCase` is that of ASCII. -/
def embeddedV4 (ip : Text) : Option Text :=
  let v := Text.asciiLower ip
  match dottedTail v with
  | some d => some d
  | none =>
      match (stripAny ["::ffff:", "64:ff9b::"] v).map fun t => Text.split t [':'] with
      | some [a, b] => do
          let a := (← hexGroup a).toNat
          let b := (← hexGroup b).toNat
          return Text.join ['.'] ([a / 256, a % 256, b / 256, b % 256].map byteText)
      | _ => none

def isBlockedAddress (ip : Text) : Bool :=
  match isIP ip with
  | 4 => blocked.check ip .ipv4
  | 6 => match embeddedV4 ip with
      | some v4 => blocked.check v4 .ipv4
      | none => blocked.check ip .ipv6
  | _ => true

section
variable (casing : Casing) (policy : NetPolicy)

def hostAllowlisted (host : Text) : Bool :=
  let h := casing.toLowerCase host
  policy.hosts.any fun p =>
    if Text.startsWith p ['*', '.'] then Text.endsWith h (p.drop 1) else h == p

def addressAllowed (host ip : Text) : Bool :=
  if isBlockedAddress ip = false then true
  else if hostAllowlisted casing policy host then true
  else
    let kind := isIP ip
    match if kind = 6 then embeddedV4 ip else none with
    | some v4 => policy.ips.check v4 .ipv4
    | none => policy.ips.check ip (if kind = 4 then .ipv4 else .ipv6)

def hostMatches (host : Text) (patterns : Option (List Text)) : Bool :=
  match patterns.getD [] with
  | [] => true
  | patterns =>
      let h := casing.toLowerCase host
      patterns.any fun raw =>
        let p := casing.toLowerCase (Text.trim raw)
        if p = [] then false
        else if Text.startsWith p ['*', '.'] then
          Text.endsWith h (p.drop 1) && decide (Text.length16 p - 1 < Text.length16 h)
        else h == p

/-- `host.replace(/^\[|\]$/g, '')` -/
def bareHost (host : Text) : Text :=
  let h := if Text.startsWith host ['['] then host.drop 1 else host
  if Text.endsWith h [']'] then h.dropLast else h

def isLocal (suffixes : List String) (lower : Text) : Bool :=
  lower == "localhost".toList || suffixes.any fun s => Text.endsWith lower s.toList

/-- `answer` is what the resolver returns, or nothing when it rejects. -/
def checkedAddresses (host : Text) (answer : Option (List Address)) :
    Except NetError (List Address) :=
  let bare := bareHost host
  let lower := casing.toLowerCase bare
  if bare = [] then .error (.blocked "no host given".toList)
  else if isLocal [".localhost", ".internal", ".local"] lower &&
      !hostAllowlisted casing policy lower then
    .error (.blocked (host ++ " is a local host name".toList))
  else
    let addrs := if isIP bare ≠ 0 then [⟨bare, isIP bare⟩] else answer.getD []
    if addrs = [] then .error (.blocked (host ++ " does not resolve".toList))
    else match addrs.find? fun a => !addressAllowed casing policy bare a.address with
      | some bad => .error (.blocked (host ++ " resolves to a private or reserved address (".toList ++
          bad.address ++ "); only public addresses can be reached".toList))
      | none => .ok addrs

/-- What is handed to Node is allowed for the host that was asked for. -/
theorem checkedAddresses_allowed {host : Text} {answer : Option (List Address)}
    {addrs : List Address} (h : checkedAddresses casing policy host answer = .ok addrs) :
    ∀ a ∈ addrs, addressAllowed casing policy (bareHost host) a.address := by
  simp only [checkedAddresses] at h
  generalize hl : (if isIP (bareHost host) ≠ 0 then
    [(⟨bareHost host, isIP (bareHost host)⟩ : Address)] else answer.getD []) = found at h
  split_ifs at h
  split at h
  · simp at h
  · rename_i hnone
    cases h
    intro a ha
    simpa using List.find?_eq_none.mp hnone a ha

end

/-! ## URLs -/

structure Url where
  protocol : Text
  username : Text
  password : Text
  hostname : Text
  host : Text
  href : Text
  brackets : ∃ h : Text, '[' ∉ h ∧ ']' ∉ h ∧ (hostname = h ∨ hostname = '[' :: (h ++ [']']))

/-- `new URL(raw)` and `new URL(location, base)`; `none` when they throw. -/
structure UrlParser where
  parse : Text → Option Url
  resolve : Text → Url → Option Url

/-- The host of a hop. -/
def Url.bare (url : Url) : Text := bareHost url.hostname

/-- The host that Node dials or looks up. -/
def Url.dialled (url : Url) : Text :=
  if Text.startsWith url.hostname ['['] then (url.hostname.drop 1).dropLast else url.hostname

theorem startsWith_of_notMem {c : Char} {h : Text} (hc : c ∉ h) : Text.startsWith h [c] = false := by
  cases h with
  | nil => rfl
  | cons d h =>
    rw [List.mem_cons, not_or] at hc
    simp [Text.startsWith, List.isPrefixOf, hc.1]

theorem endsWith_of_notMem {c : Char} {h : Text} (hc : c ∉ h) : Text.endsWith h [c] = false := by
  by_contra hend
  have hsuff : [c] <:+ h := by simpa [Text.endsWith] using hend
  exact hc (hsuff.subset (by simp))

theorem bareHost_of_plain {h : Text} (hl : '[' ∉ h) (hr : ']' ∉ h) : bareHost h = h := by
  simp [bareHost, startsWith_of_notMem hl, endsWith_of_notMem hr]

/-- The check and Node read one host out of a URL. -/
theorem Url.bare_eq_dialled (url : Url) : url.dialled = url.bare ∧ bareHost url.bare = url.bare := by
  obtain ⟨h, hl, hr, heq | heq⟩ := url.brackets
  · have hplain := bareHost_of_plain hl hr
    simp [Url.bare, Url.dialled, heq, hplain, startsWith_of_notMem hl]
  · have hbare : url.bare = h := by
      simp [Url.bare, bareHost, heq, Text.startsWith, Text.endsWith, List.isSuffixOf_iff_suffix]
    rw [hbare]
    exact ⟨by simp [Url.dialled, heq, Text.startsWith], bareHost_of_plain hl hr⟩

def checkUrl (casing : Casing) (urls : UrlParser) (raw : Text)
    (allowedHosts : Option (List Text)) : Except NetError Url :=
  match urls.parse raw with
  | none => .error (.blocked "not a valid URL".toList)
  | some url =>
      if url.protocol ≠ "https:".toList ∧ url.protocol ≠ "http:".toList then
        .error (.blocked "only http and https URLs can be called".toList)
      else if url.username ≠ [] ∨ url.password ≠ [] then
        .error (.blocked
          "credentials in the URL are not accepted; use the connection auth settings".toList)
      else if hostMatches casing url.bare allowedHosts = false then
        .error (.blocked (url.bare ++ " is not in the connection's allowed hosts".toList))
      else .ok url

/-- What `checkUrl` checks. -/
structure Checked (casing : Casing) (allowedHosts : Option (List Text)) (url : Url) : Prop where
  scheme : url.protocol = "https:".toList ∨ url.protocol = "http:".toList
  credentials : url.username = [] ∧ url.password = []
  host : hostMatches casing url.bare allowedHosts

theorem checkUrl_checked {casing : Casing} {urls : UrlParser} {raw : Text}
    {allowedHosts : Option (List Text)} {url : Url}
    (h : checkUrl casing urls raw allowedHosts = .ok url) : Checked casing allowedHosts url := by
  unfold checkUrl at h
  split at h
  · simp at h
  · split_ifs at h with hscheme hcred hhost
    cases h
    rw [not_and_or, not_ne_iff, not_ne_iff] at hscheme
    rw [not_or, not_ne_iff, not_ne_iff] at hcred
    exact ⟨hscheme, hcred, by simpa using hhost⟩

/-! ## Requests -/

structure SafeRequest where
  method : Option Text
  headers : Option (List (Text × Text))
  body : Option (List UInt8)

inductive HeaderValue where
  | one (v : Text)
  | many (vs : List Text)

def HeaderValue.text : HeaderValue → Text
  | .one v => v
  | .many vs => Text.join [',', ' '] vs

/-- A response: its head, the data that arrives, and the error that breaks it
off, if any. -/
structure Incoming where
  status : ℕ
  headers : List (Text × HeaderValue)
  chunks : List (List UInt8)
  broken : Option Text

/-- One call of the guarded lookup: what the resolver answers, whether Node asks
for all addresses, and which of those it gets it dials, in order. -/
structure Lookup where
  answer : Option (List Address)
  all : Bool
  tried : List ℕ

/-- What the outside world does with one request. `dials` counts the
connections to an IP literal. -/
structure Exchange where
  lookups : List Lookup
  dials : ℕ
  reply : Except Text Incoming

structure SafeResponse where
  status : ℕ
  headers : List (Text × Text)
  body : List UInt8
  truncated : Bool
  url : Text
  redirects : ℕ

structure SafeFetchOptions where
  policy : NetPolicy
  allowedHosts : Option (List Text)
  maxBytes : Option ℕ
  maxRedirects : Option ℕ

def httpMaxBytes : ℕ := 1024 * 1024
def httpMaxRedirects : ℕ := 3

/-- A request that was sent, with the connections that were opened for it. -/
structure Hop where
  url : Url
  request : SafeRequest
  connections : List Text

/-- The body up to `maxBytes`, and whether the rest was dropped. -/
def collect (maxBytes : ℕ) : List UInt8 → List (List UInt8) → List UInt8 × Bool
  | body, [] => (body, false)
  | body, c :: cs =>
      if maxBytes < body.length + c.length then (body ++ c.take (maxBytes - body.length), true)
      else collect maxBytes (body ++ c) cs

section
variable (casing : Casing) (policy : NetPolicy)

/-- The checks at the start of `once`. -/
def checkLiteral (url : Url) : Except NetError Unit :=
  let host := url.bare
  let lower := casing.toLowerCase host
  if isIP host ≠ 0 && !addressAllowed casing policy host host then
    .error (.blocked (host ++
      " is a private or reserved address; only public addresses can be reached".toList))
  else if isLocal [".localhost"] lower && !hostAllowlisted casing policy lower then
    .error (.blocked "local hosts cannot be reached".toList)
  else .ok ()

/-- The addresses that a guarded lookup hands to Node and Node dials. -/
def dial (host : Text) (l : Lookup) : List Text :=
  match checkedAddresses casing policy host l.answer with
  | .ok addrs =>
      let handed := if l.all then addrs else addrs.take 1
      l.tried.filterMap fun i => handed[i]?.map Address.address
  | .error _ => []

def connections (url : Url) (ex : Exchange) : List Text :=
  if isIP url.dialled ≠ 0 then List.replicate ex.dials url.dialled
  else ex.lookups.flatMap (dial casing policy url.dialled)

end

/-- What `once` resolves to. -/
structure Response where
  status : ℕ
  headers : List (Text × HeaderValue)
  body : List UInt8
  truncated : Bool

def receive (maxBytes : ℕ) : Except Text Incoming → Except NetError Response
  | .error e => .error (.other e)
  | .ok res =>
      let (body, truncated) := collect maxBytes [] res.chunks
      match truncated, res.broken with
      | false, some e => .error (.other e)
      | _, _ => .ok ⟨res.status, res.headers, body, truncated⟩

/-- One exchange: the request if it is sent, and what it resolves to. -/
def once (casing : Casing) (opts : SafeFetchOptions) (url : Url) (req : SafeRequest)
    (ex : Exchange) : List Hop × Except NetError Response :=
  match checkLiteral casing opts.policy url with
  | .error e => ([], .error e)
  | .ok _ => ([⟨url, req, connections casing opts.policy url ex⟩],
      receive (opts.maxBytes.getD httpMaxBytes) ex.reply)

/-- Where a redirect leads; an empty location counts as none. -/
def Response.location (res : Response) : Option Text :=
  if 300 ≤ res.status ∧ res.status < 400 then
    ((res.headers.lookup "location".toList).map HeaderValue.text).filter fun l => l ≠ []
  else none

def dropHeaders (names : List String) (headers : List (Text × Text)) : List (Text × Text) :=
  headers.filter fun h => names.all fun n => Text.asciiLower h.1 ≠ n.toList

/-- The request of the next hop. -/
def nextRequest (casing : Casing) (status : ℕ) (sameHost : Bool) (current : SafeRequest) :
    SafeRequest :=
  let method := casing.toUpperCase (current.method.getD "GET".toList)
  let current : SafeRequest :=
    if status = 303 ∨ (status = 301 ∨ status = 302) ∧ method = "POST".toList then
      ⟨some "GET".toList,
        some (dropHeaders ["content-type", "content-length"] (current.headers.getD [])), none⟩
    else current
  if sameHost then current
  else { current with
    headers := current.headers.map (dropHeaders ["authorization", "cookie", "proxy-authorization"]) }

section
variable (casing : Casing) (urls : UrlParser) (opts : SafeFetchOptions) (rawUrl : Text)

/-- The URL and the request of the next hop, or the error of a refused one. -/
def redirect (status : ℕ) (location : Text) (url : Url) (current : SafeRequest) :
    Except NetError (Url × SafeRequest) :=
  match urls.resolve location url with
  | none => .error (.other "Invalid URL".toList)
  | some target =>
      match checkUrl casing urls target.href opts.allowedHosts with
      | .error e => .error e
      | .ok next =>
          match urls.parse rawUrl with
          | none => .error (.other "Invalid URL".toList)
          | some first => .ok (next, nextRequest casing status (first.host == next.host) current)

def tooMany (maxRedirects : ℕ) : NetError :=
  .blocked ("more than ".toList ++ Nat.toDigits 10 maxRedirects ++ " redirects".toList)

/-- A hop ends the call, or asks for another one. -/
def settle (url : Url) (hop : ℕ) :
    Except NetError Response → Except NetError SafeResponse ⊕ Response × Text
  | .error e => .inl (.error e)
  | .ok res =>
      match res.location with
      | some loc => .inr (res, loc)
      | none => .inl (.ok ⟨res.status, res.headers.map fun h => (h.1, h.2.text), res.body,
          res.truncated, url.href, hop⟩)

/-- One round of the loop; `next` is what a redirect leads to. -/
def visit (ex : Exchange) (hop : ℕ) (url : Url) (current : SafeRequest)
    (next : Response → Text → List Hop × Except NetError SafeResponse) :
    List Hop × Except NetError SafeResponse :=
  let sent := once casing opts url current ex
  match settle url hop sent.2 with
  | .inl result => (sent.1, result)
  | .inr (res, loc) =>
      let rest := next res loc
      (sent.1 ++ rest.1, rest.2)

/-- The loop of `safeFetch` at hop `hop`, with `left` redirects to go. -/
def follow (world : ℕ → Exchange) :
    ℕ → ℕ → Url → SafeRequest → List Hop × Except NetError SafeResponse
  | 0, hop, url, current =>
      visit casing opts (world hop) hop url current fun _ _ => ([], .error (tooMany hop))
  | left + 1, hop, url, current =>
      visit casing opts (world hop) hop url current fun res loc =>
        match redirect casing urls opts rawUrl res.status loc url current with
        | .error e => ([], .error e)
        | .ok next => follow world left (hop + 1) next.1 next.2

/-- The requests that are sent, and the response or the error. -/
def safeFetch (world : ℕ → Exchange) (req : SafeRequest) : List Hop × Except NetError SafeResponse :=
  match checkUrl casing urls rawUrl opts.allowedHosts with
  | .error e => ([], .error e)
  | .ok url => follow casing urls opts rawUrl world (opts.maxRedirects.getD httpMaxRedirects) 0 url req

end

/-! ## Safety -/

section
variable {casing : Casing} {policy : NetPolicy}

theorem dial_allowed {host : Text} {l : Lookup} :
    ∀ a ∈ dial casing policy host l, addressAllowed casing policy (bareHost host) a := by
  intro a ha
  unfold dial at ha
  split at ha
  · rename_i addrs haddrs
    obtain ⟨i, -, hi⟩ := List.mem_filterMap.mp ha
    obtain ⟨b, hb, rfl⟩ := Option.map_eq_some_iff.mp hi
    refine checkedAddresses_allowed casing policy haddrs b ?_
    have hmem := List.mem_of_getElem? hb
    split_ifs at hmem
    · exact hmem
    · exact List.mem_of_mem_take hmem
  · simp at ha

/-- Every connection of an admitted hop goes to an allowed address: a literal was
checked by `once`, and everything else came out of a guarded lookup. -/
theorem connections_allowed {url : Url} (hok : checkLiteral casing policy url = .ok ()) (ex : Exchange) :
    ∀ a ∈ connections casing policy url ex, addressAllowed casing policy url.bare a := by
  obtain ⟨hdialled, hbare⟩ := url.bare_eq_dialled
  intro a ha
  unfold connections at ha
  rw [hdialled] at ha
  split_ifs at ha with hip
  · obtain ⟨-, rfl⟩ := List.mem_replicate.mp ha
    simp only [checkLiteral] at hok
    split_ifs at hok with hbad
    simpa [hip] using hbad
  · obtain ⟨l, -, hl⟩ := List.mem_flatMap.mp ha
    rw [← hbare]
    exact dial_allowed a hl

end

section
variable {casing : Casing} {urls : UrlParser} {opts : SafeFetchOptions} {rawUrl : Text}

theorem redirect_checked {status : ℕ} {loc : Text} {url next : Url} {current request : SafeRequest}
    (h : redirect casing urls opts rawUrl status loc url current = .ok (next, request)) :
    Checked casing opts.allowedHosts next := by
  unfold redirect at h
  split at h
  · simp at h
  · split at h
    · simp at h
    · rename_i u hu
      split at h
      · simp at h
      · cases h
        exact checkUrl_checked hu

/-- A hop that went out as the guard promises. -/
structure Guarded (casing : Casing) (opts : SafeFetchOptions) (hop : Hop) : Prop where
  checked : Checked casing opts.allowedHosts hop.url
  connections : ∀ a ∈ hop.connections, addressAllowed casing opts.policy hop.url.bare a

theorem once_guarded {url : Url} (hurl : Checked casing opts.allowedHosts url)
    (req : SafeRequest) (ex : Exchange) :
    (∀ h ∈ (once casing opts url req ex).1, Guarded casing opts h) ∧
      (once casing opts url req ex).1.length ≤ 1 := by
  unfold once
  cases hok : checkLiteral casing opts.policy url with
  | error e => simp
  | ok _ =>
    refine ⟨fun h hh => ?_, by simp⟩
    rw [List.mem_singleton] at hh
    rw [hh]
    exact ⟨hurl, connections_allowed hok ex⟩

/-- Guarded hops, at most `n` of them. -/
def GuardedUpTo (casing : Casing) (opts : SafeFetchOptions) (n : ℕ) (hops : List Hop) : Prop :=
  (∀ h ∈ hops, Guarded casing opts h) ∧ hops.length ≤ n

theorem visit_guarded {n hop : ℕ} {url : Url} {current : SafeRequest} {ex : Exchange}
    {next : Response → Text → List Hop × Except NetError SafeResponse}
    (hurl : Checked casing opts.allowedHosts url)
    (hnext : ∀ res loc, GuardedUpTo casing opts n (next res loc).1) :
    GuardedUpTo casing opts (n + 1) (visit casing opts ex hop url current next).1 := by
  obtain ⟨hsent, hone⟩ := once_guarded hurl current ex
  unfold visit
  dsimp only
  split
  · exact ⟨hsent, le_trans hone (by omega)⟩
  · rename_i res loc _
    obtain ⟨hrest, hlen⟩ := hnext res loc
    refine ⟨fun h hh => ?_, ?_⟩
    · rcases List.mem_append.mp hh with hh | hh
      · exact hsent h hh
      · exact hrest h hh
    · rw [List.length_append]
      omega

/-- The invariant of the loop is that the URL of the next hop was checked. -/
theorem follow_guarded (world : ℕ → Exchange) (left hop : ℕ) (url : Url) (current : SafeRequest)
    (hurl : Checked casing opts.allowedHosts url) :
    GuardedUpTo casing opts (left + 1)
      (follow casing urls opts rawUrl world left hop url current).1 := by
  induction left generalizing hop url current with
  | zero => exact visit_guarded hurl fun _ _ => ⟨by simp, by simp⟩
  | succ left ih =>
    refine visit_guarded hurl fun res loc => ?_
    cases hnext : redirect casing urls opts rawUrl res.status loc url current with
    | error e => exact ⟨by simp, by simp⟩
    | ok next => exact ih (hop + 1) next.1 next.2 (redirect_checked hnext)

end

/-- Whatever the DNS answers and the servers send: every request goes to an
http or https URL without credentials whose host is among the allowed hosts,
every connection goes to an address that is allowed for that host, and at most
`maxRedirects + 1` requests are sent. -/
theorem safeFetch_guarded (casing : Casing) (urls : UrlParser) (opts : SafeFetchOptions)
    (rawUrl : Text) (world : ℕ → Exchange) (req : SafeRequest) :
    (∀ hop ∈ (safeFetch casing urls opts rawUrl world req).1,
      (hop.url.protocol = "https:".toList ∨ hop.url.protocol = "http:".toList) ∧
      hop.url.username = [] ∧ hop.url.password = [] ∧
      hostMatches casing hop.url.bare opts.allowedHosts ∧
      ∀ a ∈ hop.connections, addressAllowed casing opts.policy hop.url.bare a) ∧
    (safeFetch casing urls opts rawUrl world req).1.length ≤
      opts.maxRedirects.getD httpMaxRedirects + 1 := by
  unfold safeFetch
  cases hurl : checkUrl casing urls rawUrl opts.allowedHosts with
  | error e => simp
  | ok url =>
    obtain ⟨hall, hlen⟩ := @follow_guarded casing urls opts rawUrl world
      (opts.maxRedirects.getD httpMaxRedirects) 0 url req (checkUrl_checked hurl)
    refine ⟨fun hop hhop => ?_, hlen⟩
    obtain ⟨hchecked, hconn⟩ := hall hop hhop
    exact ⟨hchecked.scheme, hchecked.credentials.1, hchecked.credentials.2, hchecked.host, hconn⟩

end Prgd.NetGuard
