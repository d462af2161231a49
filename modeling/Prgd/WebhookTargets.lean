import Prgd.NetGuard
import Prgd.Webhooks

/-!
# Where the requests of webhooks go

The check of a webhook URL and the request after it, on top of the runs of
`deliverPending`. Each of the two looks the host up: the check before the request, and
`fetch` when it connects. What either lookup answers is part of the action, and nothing
relates the two answers. `fetch` may connect to any addresses of its own answer: `picks`
says for every request which. An address in the URL is dialled as it is, and a redirect
is not followed.

The URL of a webhook is set when it is created and never changed. The URL parser of the
platform is a parameter.
-/
namespace Prgd.WebhookTargets
open Interleaving IpAddress NetGuard Webhooks

/-! ## The check -/

def BLOCKED_V4 : List (String × ℕ) :=
  [("10.0.0.0", 8), ("172.16.0.0", 12), ("192.168.0.0", 16), ("127.0.0.0", 8), ("169.254.0.0", 16),
    ("100.64.0.0", 10), ("0.0.0.0", 8), ("224.0.0.0", 4), ("240.0.0.0", 4)]

/-- The shifts of the code drop what is beyond 32 bits. -/
def v4ToInt (ip : Text) : ℕ :=
  (Text.split ip ['.']).foldl (fun n o => 256 * n + Text.digitsValue o) 0 % 2 ^ 32

def isBlockedV4 (ip : Text) : Bool :=
  BLOCKED_V4.any fun b => decide (v4ToInt ip >>> (32 - b.2) = v4ToInt b.1.toList >>> (32 - b.2))

/-- The address behind `::ffff:` is shorter, so the fuel is never used up. -/
def publicWithin : ℕ → Text → Bool
  | 0, _ => false
  | fuel + 1, ip =>
      match isIP ip with
      | 4 => !isBlockedV4 ip
      | 6 =>
          let v := Text.asciiLower ip
          if v = "::1".toList ∨ v = "::".toList ∨ Text.startsWith v "fe80:".toList ∨
              Text.startsWith v "fc".toList ∨ Text.startsWith v "fd".toList then false
          else if Text.startsWith v "::ffff:".toList then publicWithin fuel (v.drop 7)
          else true
      | _ => false

def isPublicAddress (ip : Text) : Bool := publicWithin (ip.length + 1) ip

/-- `answer` is what the lookup returns, or nothing when it rejects. -/
def assertSafeUrl (urls : UrlParser) (raw : Text) (answer : Option (List Text)) :
    Except Text Unit :=
  match urls.parse raw with
  | none => .error "not a valid URL".toList
  | some url =>
      if url.protocol ≠ "https:".toList then .error "only https URLs are accepted".toList
      else if url.username ≠ [] ∨ url.password ≠ [] then
        .error "credentials in the URL are not accepted".toList
      else if isLocal [".localhost", ".internal", ".local"] url.bare then
        .error "local hosts are not accepted".toList
      else
        let addrs := if isIP url.bare ≠ 0 then [url.bare] else answer.getD []
        if addrs = [] then .error "the host does not resolve".toList
        else if addrs.any fun a => !isPublicAddress a then
          .error "the host resolves to a private address".toList
        else .ok ()

/-- What a URL that passed stands for: a public address, or a name whose first answer is public. -/
theorem assertSafeUrl_ok {urls : UrlParser} {raw : Text} {answer : Option (List Text)}
    (h : assertSafeUrl urls raw answer = .ok ()) :
    ∃ url, urls.parse raw = some url ∧
      (isIP url.bare ≠ 0 → isPublicAddress url.bare = true) ∧
      (isIP url.bare = 0 → ∀ a ∈ answer.getD [], isPublicAddress a = true) := by
  unfold assertSafeUrl at h
  split at h
  · cases h
  · rename_i url hurl
    dsimp only at h
    generalize haddrs : (if isIP url.bare ≠ 0 then [url.bare] else answer.getD []) = addrs at h
    split_ifs at h with _ _ _ _ hany
    have hpublic : ∀ a ∈ addrs, isPublicAddress a = true := by simpa using hany
    refine ⟨url, hurl, fun hip => ?_, fun hname a ha => ?_⟩
    · rw [if_pos hip] at haddrs
      exact hpublic url.bare (haddrs ▸ List.mem_singleton_self _)
    · rw [if_neg (not_not.mpr hname)] at haddrs
      exact hpublic a (haddrs ▸ ha)

/-! ## The request -/

/-- What the outside world does in one delivery: the answer to the lookup of the check, the answer
to the lookup of `fetch`, and the status of the response, if there is one. -/
structure Net where
  checked : Option (List Text)
  answered : Option (List Text)
  status : Option ℕ
  deriving DecidableEq

/-- The connections of `fetch`. -/
def connections (urls : UrlParser) (raw : Text) (picked : List ℕ) (net : Net) : List Text :=
  match urls.parse raw with
  | none => []
  | some url =>
      if isIP url.dialled ≠ 0 then [url.dialled]
      else picked.filterMap fun i => (net.answered.getD [])[i]?

/-- The connections that one delivery opens, and the status it stores. -/
def attempt (urls : UrlParser) (raw : Text) (picked : List ℕ) (net : Net) : List Text × ℕ :=
  match assertSafeUrl urls raw net.checked with
  | .error _ => ([], 0)
  | .ok _ => (connections urls raw picked net, net.status.getD 0)

/-! ## Runs -/

structure Setting where
  urls : UrlParser
  /-- `webhook.url` -/
  url : String → Text

/-- The runs of the delivery, with the connections they have opened. -/
structure State where
  world : World Shared Pc := start
  opened : List Text := []

inductive Act where
  | deliver (net : Net)
  | other (a : Webhooks.Act)
  deriving DecidableEq

section
variable (env : Setting) (picks : ℕ → List ℕ)

/-- `picks` names the addresses that the next request connects to. -/
def step (s : State) (a : ℕ × Act) : State :=
  match a.2, s.world.pc a.1 with
  | .deliver net, .sending ((_, d) :: _) =>
      let out := attempt env.urls (env.url d.webhookId) (picks s.world.shared.posted.length) net
      ⟨Webhooks.step s.world (a.1, .post out.2), s.opened ++ out.1⟩
  | .deliver _, _ | .other (.post _), _ => s
  | .other act, _ => { s with world := Webhooks.step s.world (a.1, act) }

/-- Where the URL names a host and passes the check on the first answer, the second answer has no
internal address either. -/
def Confirmed (s : State) (a : ℕ × Act) : Prop :=
  ∀ net id d due, a.2 = .deliver net → s.world.pc a.1 = .sending ((id, d) :: due) →
    ∀ url, env.urls.parse (env.url d.webhookId) = some url → isIP url.bare = 0 →
      assertSafeUrl env.urls (env.url d.webhookId) net.checked = .ok () →
      ∀ address ∈ net.answered.getD [], isPublicAddress address = true

end

section
variable {env : Setting} {picks picks' : ℕ → List ℕ}

theorem step_world (s : State) (a : ℕ × Act) (s' : State) (h : s.world = s'.world) :
    (step env picks s a).world = (step env picks' s' a).world := by
  obtain ⟨i, act⟩ := a
  unfold step
  rw [h]
  cases act with
  | deliver net =>
    cases hpc : s'.world.pc i with
    | sending due =>
      cases due with
      | nil => exact h
      | cons e due =>
        dsimp only
        unfold attempt
        split <;> rfl
    | _ => exact h
  | other act =>
    cases act with
    | post status => exact h
    | _ => rfl

/-- Which addresses are picked makes no difference to the deliveries. -/
theorem run_world (picks picks' : ℕ → List ℕ) (s s' : State) (h : s.world = s'.world) (acts : List (ℕ × Act)) :
    (run (step env picks) s acts).world = (run (step env picks') s' acts).world := by
  induction acts generalizing s s' with
  | nil => exact h
  | cons a acts ih => exact ih _ _ (step_world s a s' h)

variable (env picks) in
/-- A step opens nothing, or the connections of one delivery. -/
theorem opened_step (s : State) (a : ℕ × Act) :
    (step env picks s a).opened = s.opened ∨
    ∃ net id d due, a.2 = .deliver net ∧ s.world.pc a.1 = .sending ((id, d) :: due) ∧
      (step env picks s a).opened = s.opened ++
        (attempt env.urls (env.url d.webhookId) (picks s.world.shared.posted.length) net).1 := by
  obtain ⟨i, act⟩ := a
  cases act with
  | deliver net =>
    cases hpc : s.world.pc i with
    | sending due =>
      cases due with
      | nil => exact .inl (by simp [step, hpc])
      | cons e due =>
        obtain ⟨id, d⟩ := e
        exact .inr ⟨net, id, d, due, rfl, rfl, by simp [step, hpc]⟩
    | _ => exact .inl (by simp [step, hpc])
  | other act =>
    cases act with
    | post status => exact .inl rfl
    | _ => exact .inl rfl

theorem opened_subset (s : State) (acts : List (ℕ × Act)) :
    s.opened ⊆ (run (step env picks) s acts).opened := by
  induction acts generalizing s with
  | nil => exact List.Subset.refl _
  | cons a acts ih =>
    have hstep : s.opened ⊆ (step env picks s a).opened := by
      rcases opened_step env picks s a with h | ⟨net, id, d, due, -, -, h⟩ <;>
        rw [h]
      · exact List.Subset.refl _
      · exact List.subset_append_left _ _
    exact List.Subset.trans hstep (ih _)

/-- A delivery whose second answer is confirmed connects to public addresses. -/
theorem attempt_public {raw : Text} {picked : List ℕ} {net : Net}
    (h : ∀ url, env.urls.parse raw = some url → isIP url.bare = 0 →
      assertSafeUrl env.urls raw net.checked = .ok () →
      ∀ address ∈ net.answered.getD [], isPublicAddress address = true) :
    ∀ address ∈ (attempt env.urls raw picked net).1, isPublicAddress address = true := by
  intro address hmem
  unfold attempt at hmem
  split at hmem
  · cases hmem
  · rename_i hok
    obtain ⟨url, hurl, hliteral, -⟩ := assertSafeUrl_ok hok
    rw [connections, hurl] at hmem
    dsimp only at hmem
    rw [url.bare_eq_dialled.1] at hmem
    by_cases hip : isIP url.bare = 0
    · rw [if_neg (not_not.mpr hip)] at hmem
      obtain ⟨i, -, hi⟩ := List.mem_filterMap.mp hmem
      exact h url hurl hip hok address (List.mem_of_getElem? hi)
    · rw [if_pos hip, List.mem_singleton] at hmem
      rw [hmem]
      exact hliteral hip

theorem public_step {s : State} {a : ℕ × Act} (hok : Confirmed env s a)
    (h : ∀ address ∈ s.opened, isPublicAddress address = true) :
    ∀ address ∈ (step env picks s a).opened, isPublicAddress address = true := by
  rcases opened_step env picks s a with heq | ⟨net, id, d, due, hact, hpc, heq⟩
  · rw [heq]
    exact h
  · rw [heq]
    intro address hmem
    rcases List.mem_append.mp hmem with hold | hnew
    · exact h address hold
    · exact attempt_public (hok net id d due hact hpc) address hnew

/-- Any address of the second answer may be picked. -/
theorem mem_opened_step {s : State} {a : ℕ × Act} {net : Net} {id : ℕ} {d : Delivery}
    {due : List (ℕ × Delivery)} (hact : a.2 = .deliver net)
    (hpc : s.world.pc a.1 = .sending ((id, d) :: due)) {url : Url}
    (hurl : env.urls.parse (env.url d.webhookId) = some url) (hname : isIP url.bare = 0)
    (hok : assertSafeUrl env.urls (env.url d.webhookId) net.checked = .ok ())
    {i : ℕ} {address : Text} (hi : (net.answered.getD [])[i]? = some address) :
    address ∈ (step env (fun _ => [i]) s a).opened := by
  have hconnections : connections env.urls (env.url d.webhookId) [i] net = [address] := by
    rw [connections, hurl]
    dsimp only
    rw [url.bare_eq_dialled.1, if_neg (not_not.mpr hname)]
    simp [hi]
  simp [step, hact, hpc, attempt, hok, hconnections]

/-- A request reaches public addresses only: exactly if, wherever a URL names a host and passes
the check on the first answer, the second answer has no internal address. -/
theorem connections_public_iff (env : Setting) (acts : List (ℕ × Act)) :
    (∀ picks, ∀ address ∈ (run (step env picks) {} acts).opened, isPublicAddress address = true) ↔
      Meets (step env fun _ => []) (Confirmed env) {} acts := by
  constructor
  · intro h
    rw [meets_iff_split]
    rintro before a after rfl net id d due hact hpc url hurl hname hok address hmem
    obtain ⟨i, hi⟩ := List.mem_iff_getElem?.mp hmem
    rw [run_world (fun _ => []) (fun _ => [i]) {} {} rfl before] at hpc
    refine h (fun _ => [i]) address ?_
    rw [run_append, run_cons]
    exact opened_subset _ _ (mem_opened_step hact hpc hurl hname hok hi)
  · intro h picks
    have hmeets : Meets (step env picks) (Confirmed env) {} acts := by
      rw [meets_iff_split] at h ⊢
      intro before a after heq net id d due hact hpc
      rw [run_world picks (fun _ => []) {} {} rfl before] at hpc
      exact h before a after heq net id d due hact hpc
    exact hmeets.invariant (I := fun s => ∀ address ∈ s.opened, isPublicAddress address = true)
      (fun s a hok hs => public_step hok hs) fun _ => nofun

end

/-! ## Two answers -/

def hookUrl : Url where
  protocol := "https:".toList
  username := []
  password := []
  hostname := "hook.example".toList
  host := "hook.example".toList
  href := "https://hook.example/".toList
  brackets := ⟨"hook.example".toList, by decide, by decide, .inl rfl⟩

def hookSetting : Setting where
  urls := ⟨fun raw => if raw = hookUrl.href then some hookUrl else none, fun _ _ => none⟩
  url := fun _ => hookUrl.href

/-- The name stands for a public address when it is checked, and for the metadata service when
the request is made. -/
def rebound : List (ℕ × Act) :=
  [(0, .other (.emit "server.created" ["w"])), (0, .other .lock), (0, .other (.select [0])),
    (0, .deliver ⟨some ["93.184.216.34".toList], some ["169.254.169.254".toList], some 200⟩)]

theorem rebound_reaches_internal :
    ¬ ∀ (env : Setting) (picks : ℕ → List ℕ) (acts : List (ℕ × Act)),
      ∀ address ∈ (run (step env picks) {} acts).opened, isPublicAddress address = true := by
  intro h
  have hmem : "169.254.169.254".toList ∈
      (run (step hookSetting fun _ => [0]) {} rebound).opened := by decide
  have hpublic := h hookSetting (fun _ => [0]) rebound _ hmem
  exact absurd hpublic (by decide)

end Prgd.WebhookTargets
