import Prgd.NetGuard
import Prgd.Redactor
import Prgd.Record

/-!
# Credentials of a connection

`connectionAuth` turns the secrets of a REST connection into a header or a query
parameter. Two other modules must keep these values: the redactor knows them by the
secrets that were added to it, and `safeFetch` takes three headers away, by their names,
when a redirect leads to another host. A basic header is made of two secrets and its
text need not contain either of them in a form that the redactor knows; a header with
another name stays on the request.
-/
namespace Prgd.ConnectionAuth
open JsValue Encoding NetGuard

/-- A connection as `openConnection` returns it. -/
structure Connection where
  config : List (Text × JsValue)
  secrets : List (Text × Text)

structure Auth where
  headers : List (Text × Text)
  query : List (Text × Text)

def textSetting (fields : List (Text × JsValue)) (key : String) : Option Text :=
  match field fields key.toList with
  | some (.str s) => some s
  | _ => none

/-- The entries of an object, and of nothing else. -/
def objectSetting (fields : List (Text × JsValue)) (key : String) :
    Option (List (Text × JsValue)) :=
  match field fields key.toList with
  | some (.obj entries) => some entries
  | _ => none

/-- `headers[k] = v` for every entry. -/
def assign (headers entries : List (Text × Text)) : List (Text × Text) :=
  entries.foldl (fun headers e => Record.set headers e.1 e.2) headers

namespace Connection
variable (c : Connection)

def secret (name : String) : Option Text := c.secrets.lookup name.toList

/-- A secret that is not empty. -/
def truthy (name : String) : Option Text := (c.secret name).filter (· ≠ [])

def auth : List (Text × JsValue) :=
  (objectSetting c.config "auth").getD [("type".toList, .str "none".toList)]

def authType : Option Text := textSetting c.auth "type"

def defaultHeaders : List (Text × Text) :=
  ((objectSetting c.config "defaultHeaders").getD []).filterMap fun e =>
    match e.2 with
    | .str v => some (e.1, v)
    | _ => none

def bearer : Option (Text × Text) :=
  (c.truthy "token").map fun token => ("Authorization".toList, "Bearer ".toList ++ token)

def basic : Text × Text :=
  let user := (c.secret "username").getD ((textSetting c.auth "username").getD [])
  ("Authorization".toList,
    "Basic ".toList ++ base64 (utf8 (user ++ ':' :: (c.secret "password").getD [])))

/-- The secret `value` under the name that the setting gives. -/
def named (key : String) : Option (Text × Text) :=
  match textSetting c.auth key, c.truthy "value" with
  | some name, some value => some (name, value)
  | _, _ => none

def authHeader : Option (Text × Text) :=
  if c.authType = some "bearer".toList then c.bearer
  else if c.authType = some "basic".toList then some c.basic
  else if c.authType = some "header".toList then c.named "headerName"
  else none

def authQuery : Option (Text × Text) :=
  if c.authType = some "query".toList then c.named "queryName" else none

/-- The values that the request carries for the secrets. -/
def credentials : List Text := (c.authHeader.toList ++ c.authQuery.toList).map Prod.snd

end Connection

def connectionAuth : Option Connection → Auth
  | none => ⟨[], []⟩
  | some c => ⟨assign (assign [] c.defaultHeaders) c.authHeader.toList, c.authQuery.toList⟩

/-- The headers of a request: its defaults, those of the connection, those of the tool with its
templates filled in, and the type of the body if there is one and none was given. -/
def requestHeaders (casing : Casing) (auth : Auth) (tool : List (Text × Text))
    (bodyType : Option Text) : List (Text × Text) :=
  let headers := assign (assign
    [("accept".toList, "application/json, text/plain;q=0.9, */*;q=0.5".toList),
      ("user-agent".toList, "Progrid-Connect/1.0".toList)] auth.headers) tool
  match bodyType with
  | none => headers
  | some type =>
      if headers.any fun h => casing.toLowerCase h.1 = "content-type".toList then headers
      else Record.set headers "content-type".toList type

/-! ## What the redactor knows -/

/-- `Object.values(c.secrets)`, as they are added to the redactor. -/
def Connection.secretValues (c : Connection) : List (Option Text) :=
  c.secrets.map fun e => some e.2

/-- The redactor of a run that has opened the connection after other values were added. -/
def runRedactor (batches : List (List (Option Text))) (c : Connection) : Redactor :=
  Redactor.ofBatches (batches ++ [c.secretValues])

/-- A value that is registered for an added secret and that occurs in the text. -/
def KnownPart (batches : List (List (Option Text))) (text v : Text) : Prop :=
  v <:+: text ∧
    ∃ b ∈ batches, ∃ s, some s ∈ b ∧ 4 ≤ Text.length16 s ∧ v ∈ Redactor.registered s

/-- Whatever contains the value does not after redaction. -/
def Masked (r : Redactor) (value : Text) : Prop :=
  ∀ s, value <:+: s → ¬ value <:+: r.text s

theorem mem_runRedactor {batches : List (List (Option Text))} {c : Connection} {v : Text} :
    v ∈ (runRedactor batches c).values ↔ ∃ b ∈ batches ++ [c.secretValues], ∃ s, some s ∈ b ∧
      4 ≤ Text.length16 s ∧ v ∈ Redactor.registered s :=
  Redactor.mem_ofBatches_iff

theorem ne_nil_of_runRedactor {batches : List (List (Option Text))} {c : Connection} {v : Text}
    (h : v ∈ (runRedactor batches c).values) : v ≠ [] := by
  obtain ⟨_, _, s, _, hlen, hv⟩ := mem_runRedactor.mp h
  exact Redactor.ne_nil_of_registered hlen hv

/-- A secret that the header is made of as it is. -/
theorem truthy_known {batches : List (List (Option Text))} {c : Connection} {name : String}
    {v text : Text} (h : c.truthy name = some v) (hlen : ∀ e ∈ c.secrets, 4 ≤ Text.length16 e.2)
    (hv : v <:+: text) : KnownPart (batches ++ [c.secretValues]) text v := by
  have hmem : (name.toList, v) ∈ c.secrets :=
    Record.lookup_mem (Option.eq_some_of_filter_eq_some h)
  exact ⟨hv, c.secretValues, by simp, v, List.mem_map.mpr ⟨_, hmem, rfl⟩, hlen _ hmem,
    List.mem_cons_self⟩

/-- Every credential but a basic one contains a secret. -/
theorem known_of_not_basic {batches : List (List (Option Text))} {c : Connection} {value : Text}
    (hlen : ∀ e ∈ c.secrets, 4 ≤ Text.length16 e.2) (h : value ∈ c.credentials)
    (htype : c.authType ≠ some "basic".toList) :
    ∃ v, KnownPart (batches ++ [c.secretValues]) value v := by
  obtain ⟨e, he, rfl⟩ := List.mem_map.mp h
  have hnamed : ∀ key, c.named key = some e →
      ∃ v, KnownPart (batches ++ [c.secretValues]) e.2 v := by
    intro key hkey
    rw [Connection.named] at hkey
    split at hkey
    next hname hvalue =>
      cases hkey
      exact ⟨_, truthy_known hvalue hlen (List.infix_refl _)⟩
    · cases hkey
  rcases List.mem_append.mp he with he | he
  · rw [Option.mem_toList, Connection.authHeader] at he
    split_ifs at he
    · obtain ⟨token, htoken, rfl⟩ := Option.map_eq_some_iff.mp he
      exact ⟨token, truthy_known htoken hlen (List.suffix_append _ _).isInfix⟩
    · exact hnamed _ he
  · rw [Option.mem_toList, Connection.authQuery] at he
    split_ifs at he
    exact hnamed _ he

/-- A response that echoes a credential is masked as soon as a registered value that keeps clear
of the marker is a part of the credential. A credential that keeps clear of the marker itself is
masked exactly if it is not basic or some registered value is a part of it, and one that is a
part of the marker never is. -/
theorem credential_masked_iff (batches : List (List (Option Text))) (c : Connection)
    (hlen : ∀ e ∈ c.secrets, 4 ≤ Text.length16 e.2) (value : Text) (h : value ∈ c.credentials) :
    (∀ v, KnownPart (batches ++ [c.secretValues]) value v → ¬ Text.Overlaps v Redactor.marker →
      Masked (runRedactor batches c) value) ∧
    (¬ Text.Overlaps value Redactor.marker → (Masked (runRedactor batches c) value ↔
      (c.authType = some "basic".toList →
        ∃ v, KnownPart (batches ++ [c.secretValues]) value v))) ∧
    (value <:+: Redactor.marker → ¬ Masked (runRedactor batches c) value) := by
  refine ⟨fun v hv hm s _ hin => ?_, fun hm => ⟨fun hmasked _ => ?_, fun hknown s _ => ?_⟩,
    fun hin hmasked => ?_⟩
  · have hmem := mem_runRedactor.mpr hv.2
    exact Redactor.text_free_of_infix hmem (ne_nil_of_runRedactor hmem) (List.infix_refl v) hm s
      (hv.1.trans hin)
  · by_contra hnone
    have hself : (runRedactor batches c).text value = value :=
      Redactor.text_eq_self fun v hv hin => hnone ⟨v, hin, mem_runRedactor.mp hv⟩
    exact hmasked value (List.infix_refl value) (hself.symm ▸ List.infix_refl value)
  · have hsome : ∃ v, KnownPart (batches ++ [c.secretValues]) value v := by
      by_cases htype : c.authType = some "basic".toList
      · exact hknown htype
      · exact known_of_not_basic hlen h htype
    obtain ⟨v, hv⟩ := hsome
    have hmem := mem_runRedactor.mpr hv.2
    exact Redactor.text_free_of_infix hmem (ne_nil_of_runRedactor hmem) hv.1 hm s
  · have htext := Redactor.text_eq_or_marker (r := runRedactor batches c)
      (fun _ hv => ne_nil_of_runRedactor hv) value
    rcases htext with htext | htext
    · exact hmasked value (List.infix_refl value) (htext.symm ▸ List.infix_refl value)
    · exact hmasked value (List.infix_refl value) (hin.trans htext)

/-- A basic connection, by its user and its password. -/
def basicConnection (user password : String) : Connection where
  config := [("auth".toList, .obj [("type".toList, .str "basic".toList)])]
  secrets := [("username".toList, user.toList), ("password".toList, password.toList)]

def adminHeader : Text :=
  ['B', 'a', 's', 'i', 'c', ' ', 'Y', 'W', 'R', 't', 'a', 'W', '4', 'x', 'O', 'n', 'M', 'z',
   'Y', '3', 'I', 'z', 'd', 'C', '1', 'w', 'Y', 'X', 'N', 'z']

theorem toList_adminHeader : "Basic YWRtaW4xOnMzY3IzdC1wYXNz".toList = adminHeader :=
  String.toList_ofList

def rootHeader : Text :=
  ['B', 'a', 's', 'i', 'c', ' ', 'c', 'm', '9', 'v', 'd', 'D', 'p', 'z', 'M', '2', 'N', 'y',
   'M', '3', 'Q', 't', 'c', 'G', 'F', 'z', 'c', 'w', '=', '=']

theorem toList_rootHeader : "Basic cm9vdDpzM2NyM3QtcGFzcw==".toList = rootHeader :=
  String.toList_ofList

/-- The base64 text of a user of six letters begins the header. -/
theorem credential_masked_iff_aligned :
    (∀ e ∈ (basicConnection "admin1" "s3cr3t-pass").secrets, 4 ≤ Text.length16 e.2) ∧
    "Basic YWRtaW4xOnMzY3IzdC1wYXNz".toList ∈
      (basicConnection "admin1" "s3cr3t-pass").credentials ∧
    KnownPart ([] ++ [(basicConnection "admin1" "s3cr3t-pass").secretValues])
      "Basic YWRtaW4xOnMzY3IzdC1wYXNz".toList "YWRtaW4x".toList ∧
    Masked (runRedactor [] (basicConnection "admin1" "s3cr3t-pass"))
      "Basic YWRtaW4xOnMzY3IzdC1wYXNz".toList := by
  rw [toList_adminHeader]
  have hlen : ∀ e ∈ (basicConnection "admin1" "s3cr3t-pass").secrets,
      4 ≤ Text.length16 e.2 := by decide
  have hmem : adminHeader ∈
      (basicConnection "admin1" "s3cr3t-pass").credentials := by decide
  have hknown : KnownPart ([] ++ [(basicConnection "admin1" "s3cr3t-pass").secretValues])
      adminHeader "YWRtaW4x".toList :=
    ⟨by decide, _, List.mem_singleton.mpr rfl, "admin1".toList, by decide,
      by decide, by decide⟩
  exact ⟨hlen, hmem, hknown,
    (credential_masked_iff [] _ hlen _ hmem).1 _ hknown (by decide)⟩

/-- The header of a user of four letters is left as it is. -/
theorem basic_header_leaks :
    (∀ e ∈ (basicConnection "root" "s3cr3t-pass").secrets, 4 ≤ Text.length16 e.2) ∧
    "Basic cm9vdDpzM2NyM3QtcGFzcw==".toList ∈
      (basicConnection "root" "s3cr3t-pass").credentials ∧
    ¬ Masked (runRedactor [] (basicConnection "root" "s3cr3t-pass"))
      "Basic cm9vdDpzM2NyM3QtcGFzcw==".toList := by
  rw [toList_rootHeader]
  refine ⟨by decide, by decide, fun h => ?_⟩
  refine h _ (List.infix_refl _) ?_
  decide

/-! ## Redirects -/

/-- The headers that a redirect to another host takes away. -/
def isDropped (name : Text) : Bool :=
  ["authorization", "cookie", "proxy-authorization"].any fun n => Text.asciiLower name = n.toList

/-- The headers of a hop. -/
def sentHeaders (request : SafeRequest) : List (Text × Text) := request.headers.getD []

/-- The header is not sent to another host, and once it is dropped it is not sent again. -/
structure CredentialStays (host : Text) (header : Text × Text) (hops : List Hop) : Prop where
  elsewhere : ∀ hop ∈ hops, hop.url.host ≠ host → header ∉ sentHeaders hop.request
  dropped : hops.Pairwise fun a b =>
    header ∉ sentHeaders a.request → header ∉ sentHeaders b.request

section
variable (casing : Casing) (urls : UrlParser) (opts : SafeFetchOptions)

/-- Redirects can lead from one URL to another one. -/
inductive Leads : Url → ℕ → Url → Prop
  | here (url : Url) : Leads url 0 url
  | redirect {url target next dest : Url} {location : Text} {n : ℕ} :
      checkLiteral casing opts.policy url = .ok () → location ≠ [] →
      urls.resolve location url = some target →
      checkUrl casing urls target.href opts.allowedHosts = .ok next →
      Leads next n dest → Leads url (n + 1) dest

/-- Redirects can lead to another host that may be called. -/
def LeadsElsewhere (rawUrl : Text) : Prop :=
  ∃ first n dest, checkUrl casing urls rawUrl opts.allowedHosts = .ok first ∧
    n ≤ opts.maxRedirects.getD httpMaxRedirects ∧ Leads casing urls opts first n dest ∧
    checkLiteral casing opts.policy dest = .ok () ∧ dest.host ≠ first.host

end

section
variable {casing : Casing} {urls : UrlParser} {opts : SafeFetchOptions} {rawUrl : Text}

theorem mem_dropHeaders {names : List String} {headers : List (Text × Text)} {h : Text × Text} :
    h ∈ dropHeaders names headers ↔
      h ∈ headers ∧ ∀ n ∈ names, Text.asciiLower h.1 ≠ n.toList := by
  simp [dropHeaders]

theorem getD_map_dropHeaders (names : List String) (headers : Option (List (Text × Text))) :
    (headers.map (dropHeaders names)).getD [] = dropHeaders names (headers.getD []) := by
  cases headers <;> rfl

variable (casing) in
/-- No header is added on the way. -/
theorem nextRequest_subset (status : ℕ) (sameHost : Bool) (current : SafeRequest) :
    sentHeaders (nextRequest casing status sameHost current) ⊆ sentHeaders current := by
  intro h hh
  rw [sentHeaders, nextRequest] at hh
  split_ifs at hh
  · exact (mem_dropHeaders.mp hh).1
  · exact hh
  · exact (mem_dropHeaders.mp (mem_dropHeaders.mp hh).1).1
  · rw [getD_map_dropHeaders] at hh
    exact (mem_dropHeaders.mp hh).1

theorem not_isDropped_of_mem {header : Text × Text} {headers : List (Text × Text)}
    (h : header ∈ dropHeaders ["authorization", "cookie", "proxy-authorization"] headers) :
    isDropped header.1 = false := by
  rw [← Bool.not_eq_true]
  intro hdrop
  rw [isDropped, List.any_eq_true] at hdrop
  obtain ⟨n, hn, heq⟩ := hdrop
  exact (mem_dropHeaders.mp h).2 n hn (of_decide_eq_true heq)

theorem nextRequest_dropped {header : Text × Text} (hdrop : isDropped header.1 = true)
    (status : ℕ) (current : SafeRequest) :
    header ∉ sentHeaders (nextRequest casing status false current) := by
  intro hh
  rw [sentHeaders, nextRequest, if_neg (by decide), getD_map_dropHeaders] at hh
  rw [not_isDropped_of_mem hh] at hdrop
  cases hdrop

/-- A redirect that keeps the method keeps the other headers. -/
theorem nextRequest_keeps {header : Text × Text} (hdrop : isDropped header.1 = false)
    (sameHost : Bool) {current : SafeRequest} (h : header ∈ sentHeaders current) :
    header ∈ sentHeaders (nextRequest casing 307 sameHost current) := by
  have hkeep : ¬((307 : ℕ) = 303 ∨ ((307 : ℕ) = 301 ∨ (307 : ℕ) = 302) ∧
      casing.toUpperCase (current.method.getD "GET".toList) = "POST".toList) := by simp
  cases sameHost with
  | true =>
    rw [nextRequest, if_pos rfl, if_neg hkeep]
    exact h
  | false =>
    rw [sentHeaders, nextRequest, if_neg (by decide), if_neg hkeep, getD_map_dropHeaders]
    refine mem_dropHeaders.mpr ⟨h, fun n hn heq => ?_⟩
    rw [← Bool.not_eq_true, isDropped, List.any_eq_true] at hdrop
    exact hdrop ⟨n, hn, decide_eq_true heq⟩

theorem once_hops {url : Url} {req : SafeRequest} {ex : Exchange} :
    ∀ hop ∈ (once casing opts url req ex).1, hop.url = url ∧ hop.request = req ∧
      checkLiteral casing opts.policy url = .ok () := by
  unfold once
  split
  · exact fun _ h => (List.not_mem_nil h).elim
  next hok =>
    intro hop h
    rw [List.mem_singleton.mp h]
    exact ⟨rfl, rfl, hok⟩

/-- Only what was sent is redirected. -/
theorem checkLiteral_of_once {url : Url} {req : SafeRequest} {ex : Exchange} {res : Response}
    (h : (once casing opts url req ex).2 = .ok res) :
    checkLiteral casing opts.policy url = .ok () := by
  unfold once at h
  split at h
  · cases h
  · assumption

theorem location_ne_nil {res : Response} {location : Text} (h : res.location = some location) :
    location ≠ [] := by
  unfold Response.location at h
  split_ifs at h
  simpa using (Option.filter_eq_some_iff.mp h).2

variable (casing opts) in
/-- The hops of one round are what was sent, and those that follow a redirect. -/
theorem visit_hops (ex : Exchange) (hop : ℕ) (url : Url) (current : SafeRequest)
    (next : Response → Text → List Hop × Except NetError SafeResponse) :
    (visit casing opts ex hop url current next).1 = (once casing opts url current ex).1 ∨
      ∃ res location, checkLiteral casing opts.policy url = .ok () ∧ location ≠ [] ∧
        (visit casing opts ex hop url current next).1 =
          (once casing opts url current ex).1 ++ (next res location).1 := by
  unfold visit
  dsimp only
  split
  · exact .inl rfl
  next res location hsettle =>
    cases hsent : (once casing opts url current ex).2 with
    | error e =>
      rw [hsent, settle] at hsettle
      cases hsettle
    | ok res' =>
      rw [hsent, settle] at hsettle
      split at hsettle
      next location' hlocation =>
        cases hsettle
        exact .inr ⟨res, location, checkLiteral_of_once hsent, location_ne_nil hlocation, rfl⟩
      · cases hsettle

/-- A redirect is refused, or the next request is made of the one before. -/
theorem redirect_request {status : ℕ} {location : Text} {url : Url} {current : SafeRequest}
    {next : Url × SafeRequest}
    (h : redirect casing urls opts rawUrl status location url current = .ok next) :
    ∃ target first, urls.resolve location url = some target ∧
      checkUrl casing urls target.href opts.allowedHosts = .ok next.1 ∧
      urls.parse rawUrl = some first ∧
      next.2 = nextRequest casing status (first.host == next.1.host) current := by
  unfold redirect at h
  split at h
  · cases h
  next target htarget =>
    split at h
    · cases h
    next hnext =>
      split at h
      · cases h
      next first hfirst =>
        cases h
        exact ⟨target, first, htarget, hnext, hfirst, rfl⟩

variable (casing urls opts rawUrl) in
/-- The hops behind a redirect. -/
def onward (world : ℕ → Exchange) (left hop : ℕ) (url : Url) (current : SafeRequest) (res : Response)
    (loc : Text) : List Hop × Except NetError SafeResponse :=
  match redirect casing urls opts rawUrl res.status loc url current with
  | .error e => ([], .error e)
  | .ok next => follow casing urls opts rawUrl world left (hop + 1) next.1 next.2

/-- Induction along the redirects that are followed. -/
theorem follow_induction {P : ℕ → Url → SafeRequest → List Hop → Prop}
    (stop : ∀ left url current ex, P left url current (once casing opts url current ex).1)
    (step : ∀ left url current ex location target next first status rest,
      checkLiteral casing opts.policy url = .ok () → location ≠ [] →
      urls.resolve location url = some target →
      checkUrl casing urls target.href opts.allowedHosts = .ok next →
      urls.parse rawUrl = some first →
      P left next (nextRequest casing status (first.host == next.host) current) rest →
      P (left + 1) url current ((once casing opts url current ex).1 ++ rest))
    (world : ℕ → Exchange) (left hop : ℕ) (url : Url) (current : SafeRequest) :
    P left url current (follow casing urls opts rawUrl world left hop url current).1 := by
  induction left generalizing hop url current with
  | zero =>
    rw [follow]
    rcases visit_hops casing opts (world hop) hop url current
      (fun _ _ => ([], .error (tooMany hop))) with heq | ⟨_, _, -, -, heq⟩
    · rw [heq]
      exact stop 0 url current _
    · rw [heq, List.append_nil]
      exact stop 0 url current _
  | succ left ih =>
    change P (left + 1) url current (visit casing opts (world hop) hop url current
      (onward casing urls opts rawUrl world left hop url current)).1
    rcases visit_hops casing opts (world hop) hop url current
      (onward casing urls opts rawUrl world left hop url current) with heq | ⟨res, location, hok, hne, heq⟩
    · refine heq ▸ stop (left + 1) url current _
    · refine heq ▸ ?_
      unfold onward
      cases hnext : redirect casing urls opts rawUrl res.status location url current with
      | error e =>
        rw [List.append_nil]
        exact stop (left + 1) url current _
      | ok next =>
        obtain ⟨target, first, htarget, hchecked, hfirst, hrequest⟩ := redirect_request hnext
        refine step left url current _ location target next.1 first res.status _ hok hne htarget
          hchecked hfirst ?_
        rw [← hrequest]
        exact ih (hop + 1) next.1 next.2

/-- The hops of a loop carry headers of its first request only, and what one of them does not
carry a later one does not either. -/
structure Shrinks (current : SafeRequest) (hops : List Hop) : Prop where
  subset : ∀ hop ∈ hops, sentHeaders hop.request ⊆ sentHeaders current
  dropped : hops.Pairwise fun a b => sentHeaders b.request ⊆ sentHeaders a.request

variable (casing opts) in
theorem shrinks_once (url : Url) (current : SafeRequest) (ex : Exchange) :
    Shrinks current (once casing opts url current ex).1 := by
  have hsent : ∀ h ∈ (once casing opts url current ex).1, h.request = current :=
    fun h hh => (once_hops h hh).2.1
  refine ⟨fun hop hhop => ?_, List.pairwise_of_forall_mem_list fun a ha b hb => ?_⟩
  · rw [hsent hop hhop]
    exact List.Subset.refl _
  · rw [hsent a ha, hsent b hb]
    exact List.Subset.refl _

variable (casing urls opts rawUrl) in
theorem follow_shrinks (world : ℕ → Exchange) (left hop : ℕ) (url : Url) (current : SafeRequest) :
    Shrinks current (follow casing urls opts rawUrl world left hop url current).1 := by
  refine follow_induction (P := fun _ _ current hops => Shrinks current hops)
    (fun _ url current ex => shrinks_once casing opts url current ex) ?_ world left hop url current
  intro _ url current ex _ _ next first status rest _ _ _ _ _ ih
  have hsub := nextRequest_subset casing status (first.host == next.host) current
  have hone := shrinks_once casing opts url current ex
  refine ⟨fun hop hhop => ?_, List.pairwise_append.mpr ⟨hone.dropped, ih.dropped,
    fun a ha b hb => ?_⟩⟩
  · rcases List.mem_append.mp hhop with hhop | hhop
    · exact hone.subset hop hhop
    · exact List.Subset.trans (ih.subset hop hhop) hsub
  · rw [(once_hops a ha).2.1]
    exact List.Subset.trans (ih.subset b hb) hsub

/-- Every hop is reached by redirects. -/
theorem follow_leads (world : ℕ → Exchange) (left hop : ℕ) (url : Url) (current : SafeRequest) :
    ∀ h ∈ (follow casing urls opts rawUrl world left hop url current).1,
      checkLiteral casing opts.policy h.url = .ok () ∧
        ∃ n, n ≤ left ∧ Leads casing urls opts url n h.url := by
  refine follow_induction (P := fun left url _ hops => ∀ h ∈ hops,
    checkLiteral casing opts.policy h.url = .ok () ∧
      ∃ n, n ≤ left ∧ Leads casing urls opts url n h.url) ?_ ?_ world left hop url current
  · intro left url current ex h hh
    obtain ⟨hurl, -, hok⟩ := once_hops h hh
    rw [hurl]
    exact ⟨hok, 0, Nat.zero_le left, .here url⟩
  · intro left url current ex _ _ next _ _ rest hok hne htarget hchecked _ ih h hh
    rcases List.mem_append.mp hh with hh | hh
    · rw [(once_hops h hh).1]
      exact ⟨hok, 0, Nat.zero_le _, .here url⟩
    · obtain ⟨hdest, n, hn, hleads⟩ := ih h hh
      exact ⟨hdest, n + 1, Nat.succ_le_succ hn, .redirect hok hne htarget hchecked hleads⟩

/-- A header that is taken away is on no request to another host. -/
theorem follow_elsewhere {first : Url} {header : Text × Text}
    (hfirst : urls.parse rawUrl = some first) (hdrop : isDropped header.1 = true)
    (world : ℕ → Exchange) (left hop : ℕ) (url : Url) (current : SafeRequest)
    (h : url.host ≠ first.host → header ∉ sentHeaders current) :
    ∀ h ∈ (follow casing urls opts rawUrl world left hop url current).1,
      h.url.host ≠ first.host → header ∉ sentHeaders h.request := by
  revert h
  refine follow_induction (P := fun _ url current hops =>
    (url.host ≠ first.host → header ∉ sentHeaders current) → ∀ h ∈ hops,
      h.url.host ≠ first.host → header ∉ sentHeaders h.request) ?_ ?_ world left hop url current
  · intro _ url current ex hurl h hh
    obtain ⟨heq, hrequest, -⟩ := once_hops h hh
    rwa [heq, hrequest]
  · intro _ url current ex _ _ next first' status rest _ _ _ _ hfirst' ih hurl h hh
    rw [hfirst, Option.some.injEq] at hfirst'
    subst hfirst'
    rcases List.mem_append.mp hh with hh | hh
    · obtain ⟨heq, hrequest, -⟩ := once_hops h hh
      rwa [heq, hrequest]
    · refine ih (fun hnext => ?_) h hh
      rw [beq_false_of_ne (Ne.symm hnext)]
      exact nextRequest_dropped hdrop status current

/-! ## A chain of redirects -/

/-- A server that answers with a redirect. -/
def redirecting (location : Text) : Exchange :=
  ⟨[], 0, .ok ⟨307, [("location".toList, .one location)], [], none⟩⟩

theorem visit_redirecting {url : Url} (hok : checkLiteral casing opts.policy url = .ok ())
    {location : Text} (hne : location ≠ []) (hop : ℕ) (current : SafeRequest)
    (next : Response → Text → List Hop × Except NetError SafeResponse) :
    ∃ res : Response, res.status = 307 ∧
      (visit casing opts (redirecting location) hop url current next).1 =
        (once casing opts url current (redirecting location)).1 ++ (next res location).1 := by
  let res : Response := ⟨307, [("location".toList, .one location)], [], false⟩
  have hsent : (once casing opts url current (redirecting location)).2 = .ok res := by
    rw [once, hok]
    rfl
  have hlocation : res.location = some location := by
    simp [res, Response.location, HeaderValue.text, hne]
  refine ⟨res, rfl, ?_⟩
  rw [visit, hsent]
  simp only [settle, hlocation]

variable (urls rawUrl) in
/-- A round sends its request first. -/
theorem mem_follow {url : Url} (hok : checkLiteral casing opts.policy url = .ok ())
    (world : ℕ → Exchange) (left hop : ℕ) (current : SafeRequest) :
    ∃ h ∈ (follow casing urls opts rawUrl world left hop url current).1,
      h.url = url ∧ h.request = current := by
  have hsent : ∀ next, ∃ h ∈ (visit casing opts (world hop) hop url current next).1,
      h.url = url ∧ h.request = current := by
    intro next
    have honce : ⟨url, current, connections casing opts.policy url (world hop)⟩ ∈
        (once casing opts url current (world hop)).1 := by
      rw [once, hok]
      exact List.mem_singleton.mpr rfl
    refine ⟨⟨url, current, connections casing opts.policy url (world hop)⟩, ?_, rfl, rfl⟩
    rcases visit_hops casing opts (world hop) hop url current next with heq | ⟨_, _, -, -, heq⟩
    · rw [heq]
      exact honce
    · rw [heq]
      exact List.mem_append.mpr (.inl honce)
  cases left with
  | zero => exact hsent _
  | succ left => exact hsent _

/-- Only the answers from here on matter. -/
theorem follow_congr {world world' : ℕ → Exchange} (left hop : ℕ)
    (h : ∀ i, hop ≤ i → world i = world' i) (url : Url) (current : SafeRequest) :
    follow casing urls opts rawUrl world left hop url current =
      follow casing urls opts rawUrl world' left hop url current := by
  induction left generalizing hop url current with
  | zero => rw [follow, follow, h hop le_rfl]
  | succ left ih =>
    rw [follow, follow, h hop le_rfl]
    congr
    funext res loc
    split
    · rfl
    · exact ih (hop + 1) (fun i hi => h i (by omega)) _ _

/-- Where redirects can lead, some servers lead, with the headers that are not taken away. -/
theorem follow_of_leads {first : Url} {header : Text × Text}
    (hfirst : urls.parse rawUrl = some first) (hdrop : isDropped header.1 = false)
    {url dest : Url} {n : ℕ} (h : Leads casing urls opts url n dest)
    (hdest : checkLiteral casing opts.policy dest = .ok ()) (left hop : ℕ) (hn : n ≤ left)
    (current : SafeRequest) (hheader : header ∈ sentHeaders current) :
    ∃ world, ∃ h ∈ (follow casing urls opts rawUrl world left hop url current).1,
      h.url = dest ∧ header ∈ sentHeaders h.request := by
  induction h generalizing left hop current with
  | here url =>
    obtain ⟨h, hmem, hurl, hrequest⟩ := mem_follow urls rawUrl hdest
      (fun _ => redirecting []) left hop current
    exact ⟨_, h, hmem, hurl, hrequest ▸ hheader⟩
  | @redirect url target next dest location n hok hne htarget hchecked _ ih =>
    obtain ⟨left, rfl⟩ := Nat.exists_eq_succ_of_ne_zero (by omega : left ≠ 0)
    obtain ⟨world, h, hmem, hurl, hsent⟩ := ih hdest left (hop + 1) (by omega)
      (nextRequest casing 307 (first.host == next.host) current)
      (nextRequest_keeps hdrop _ hheader)
    refine ⟨fun i => if i = hop then redirecting location else world i, h, ?_, hurl, hsent⟩
    rw [follow, if_pos rfl]
    obtain ⟨res, hstatus, hvisit⟩ := visit_redirecting hok hne hop current _
    rw [hvisit]
    refine List.mem_append.mpr (.inr ?_)
    have hnext : redirect casing urls opts rawUrl res.status location url current =
        .ok (next, nextRequest casing 307 (first.host == next.host) current) := by
      simp only [redirect, htarget, hchecked, hfirst, hstatus]
    have hsame : ∀ i, hop + 1 ≤ i →
        (if i = hop then redirecting location else world i) = world i :=
      fun i hi => if_neg (by omega)
    rw [hnext]
    dsimp only
    rw [follow_congr left (hop + 1) hsame next]
    exact hmem

end

/-- The request of a tool over a connection. -/
def toolRequest (casing : Casing) (c : Connection) (method : Text) (tool : List (Text × Text))
    (bodyType : Option Text) (body : Option (List UInt8)) : SafeRequest :=
  ⟨some method, some (requestHeaders casing (connectionAuth (some c)) tool bodyType), body⟩

theorem checkUrl_parse {casing : Casing} {urls : UrlParser} {raw : Text}
    {allowedHosts : Option (List Text)} {url : Url}
    (h : checkUrl casing urls raw allowedHosts = .ok url) : urls.parse raw = some url := by
  unfold checkUrl at h
  split at h
  · cases h
  next heq =>
    split_ifs at h
    cases h
    exact heq

/-- The name of a header that is not configured is one of the three. -/
theorem isDropped_of_authType {c : Connection} {header : Text × Text}
    (hauth : c.authHeader = some header) (htype : c.authType ≠ some "header".toList) :
    isDropped header.1 = true := by
  rw [Connection.authHeader] at hauth
  split_ifs at hauth
  · obtain ⟨_, -, rfl⟩ := Option.map_eq_some_iff.mp hauth
    change isDropped "Authorization".toList = true
    decide
  · cases hauth
    change isDropped "Authorization".toList = true
    decide

/-- Whatever the servers answer, the credential header of a connection stays with its host and is
not sent again once it is dropped: exactly if its name is not configured or one of the three, if
the tool has put another header in its place, or if redirects cannot lead to another host. -/
theorem credential_stays_iff (casing : Casing) (urls : UrlParser) (opts : SafeFetchOptions)
    (rawUrl : Text) (c : Connection) (header : Text × Text) (hauth : c.authHeader = some header)
    (method : Text) (tool : List (Text × Text)) (bodyType : Option Text)
    (body : Option (List UInt8)) (first : Url) (hfirst : urls.parse rawUrl = some first) :
    (∀ world, CredentialStays first.host header
      (safeFetch casing urls opts rawUrl world
        (toolRequest casing c method tool bodyType body)).1) ↔
      (c.authType = some "header".toList → isDropped header.1 = true) ∨
        header ∉ requestHeaders casing (connectionAuth (some c)) tool bodyType ∨
        ¬ LeadsElsewhere casing urls opts rawUrl := by
  cases hurl : checkUrl casing urls rawUrl opts.allowedHosts with
  | error e =>
    refine ⟨fun _ => .inr (.inr ?_), fun _ world => ?_⟩
    · rintro ⟨_, _, _, hok, -⟩
      rw [hurl] at hok
      cases hok
    · rw [safeFetch, hurl]
      exact ⟨fun _ h => (List.not_mem_nil h).elim, List.Pairwise.nil⟩
  | ok url =>
    have heq : first = url := Option.some.inj (hfirst.symm.trans (checkUrl_parse hurl))
    subst heq
    simp only [safeFetch, hurl]
    constructor
    · intro hstays
      by_contra hnone
      rw [not_or, not_or, not_not, not_not] at hnone
      obtain ⟨hname, hheader, first', n, dest, hfirst', hn, hleads, hdest, hhost⟩ := hnone
      rw [hurl, Except.ok.injEq] at hfirst'
      subst hfirst'
      have hdrop : isDropped header.1 = false := by
        rw [← Bool.not_eq_true]
        exact fun hdrop => hname fun _ => hdrop
      obtain ⟨world, hop, hmem, hdest', hsent⟩ := follow_of_leads hfirst hdrop hleads hdest _ 0 hn
        (toolRequest casing c method tool bodyType body) hheader
      exact (hstays world).elsewhere hop hmem (by rwa [hdest']) hsent
    · intro hcond world
      have hshrinks := follow_shrinks casing urls opts rawUrl world
        (opts.maxRedirects.getD httpMaxRedirects) 0 first
        (toolRequest casing c method tool bodyType body)
      refine ⟨?_, hshrinks.dropped.imp fun hsub hnot hin => hnot (hsub hin)⟩
      rcases hcond with hname | hnot | hleads
      · have hdrop : isDropped header.1 = true := by
          by_cases htype : c.authType = some "header".toList
          · exact hname htype
          · exact isDropped_of_authType hauth htype
        exact follow_elsewhere hfirst hdrop world _ 0 first _ fun h => absurd rfl h
      · exact fun hop hmem _ hin => hnot (hshrinks.subset hop hmem hin)
      · intro hop hmem hhost
        obtain ⟨hdest, n, hn, hpath⟩ := follow_leads world _ 0 first _ hop hmem
        exact absurd ⟨first, n, hop.url, hurl, hn, hpath, hdest, hhost⟩ hleads

def apiUrl : Url where
  protocol := "https:".toList
  username := []
  password := []
  hostname := "api.example.com".toList
  host := "api.example.com".toList
  href := "https://api.example.com/v1".toList
  brackets := ⟨"api.example.com".toList, by decide, by decide, .inl rfl⟩

def mirrorUrl : Url where
  protocol := "https:".toList
  username := []
  password := []
  hostname := "mirror.example.com".toList
  host := "mirror.example.com".toList
  href := "https://mirror.example.com/v1".toList
  brackets := ⟨"mirror.example.com".toList, by decide, by decide, .inl rfl⟩

/-- The parser on two absolute URLs. -/
def twoUrls : UrlParser where
  parse raw := [apiUrl, mirrorUrl].find? fun url => url.href = raw
  resolve location _ := [apiUrl, mirrorUrl].find? fun url => url.href = location

def exampleOptions : SafeFetchOptions where
  policy := ⟨[], []⟩
  allowedHosts := some ["*.example.com".toList]
  maxBytes := none
  maxRedirects := none

def latinCasing : Casing := ⟨Text.asciiLower, Text.toUpperCase⟩

def bearerConnection : Connection where
  config := [("auth".toList, .obj [("type".toList, .str "bearer".toList)])]
  secrets := [("token".toList, "s3cr3t-token".toList)]

def headerConnection : Connection where
  config := [("auth".toList, .obj [("type".toList, .str "header".toList),
    ("headerName".toList, .str "X-Api-Key".toList)])]
  secrets := [("value".toList, "s3cr3t-token".toList)]

theorem credential_stays_iff_bearer :
    bearerConnection.authHeader =
      some ("Authorization".toList, "Bearer s3cr3t-token".toList) ∧
    twoUrls.parse apiUrl.href = some apiUrl ∧
    ∀ world, CredentialStays apiUrl.host ("Authorization".toList, "Bearer s3cr3t-token".toList)
      (safeFetch latinCasing twoUrls exampleOptions apiUrl.href world
        (toolRequest latinCasing bearerConnection "GET".toList [] none none)).1 := by
  refine ⟨rfl, rfl, ?_⟩
  exact (credential_stays_iff latinCasing twoUrls exampleOptions apiUrl.href bearerConnection _ rfl
    "GET".toList [] none none apiUrl rfl).mpr (.inl fun h => absurd h (by decide))

/-- A redirect to the mirror takes the key along. -/
theorem api_key_sent_elsewhere :
    headerConnection.authHeader = some ("X-Api-Key".toList, "s3cr3t-token".toList) ∧
    ¬ CredentialStays apiUrl.host ("X-Api-Key".toList, "s3cr3t-token".toList)
      (safeFetch latinCasing twoUrls exampleOptions apiUrl.href
        (fun _ => redirecting mirrorUrl.href)
        (toolRequest latinCasing headerConnection "GET".toList [] none none)).1 := by
  refine ⟨rfl, fun h => ?_⟩
  have hsent : ∃ hop ∈ (safeFetch latinCasing twoUrls exampleOptions apiUrl.href
      (fun _ => redirecting mirrorUrl.href)
      (toolRequest latinCasing headerConnection "GET".toList [] none none)).1,
      hop.url.host ≠ apiUrl.host ∧
        ("X-Api-Key".toList, "s3cr3t-token".toList) ∈ sentHeaders hop.request := by
    decide
  obtain ⟨hop, hmem, hhost, hin⟩ := hsent
  exact h.elsewhere hop hmem hhost hin

end Prgd.ConnectionAuth
