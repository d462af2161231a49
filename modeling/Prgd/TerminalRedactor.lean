import Prgd.Masking
import Prgd.Encoding

/-!
# Redaction of terminal output

Everything the shell of a session prints passes the redactor before the browser or the recording
sees it. A secret can be split over two packets of the connection, so the last bytes of what was
scrubbed are held back and scrubbed again together with the next packet.

A byte is a natural number and the star is 42. `scrub` looks for one secret after the other, and
for each of them from left to right. What the redactor has let out and what it holds are together
the stream so far with occurrences masked, and they have no secret in them. What it holds is long
enough for the rest of a secret, or it has a star in it, or nothing was let out yet.
-/
namespace Prgd.Terminal
open Masking Encoding

def REDACTED : List ℕ := List.replicate 8 42

/-- Shorter values are not redacted. -/
def MIN_REDACT_LENGTH : ℕ := 4

/-- The first place from `start` on where `s` occurs. -/
def indexOf (buf s : List ℕ) (start : ℕ) : Option ℕ :=
  (List.range' start (buf.length - start)).find? fun i => s.isPrefixOf (buf.drop i)

/-- The inner loop of `scrub`; a buffer has fewer occurrences than it has bytes. -/
def scrubLoop (s : List ℕ) : ℕ → List ℕ → ℕ → List ℕ
  | 0, buf, _ => buf
  | fuel + 1, buf, start =>
      match indexOf buf s start with
      | none => buf
      | some i =>
          scrubLoop s fuel (buf.take i ++ REDACTED ++ buf.drop (i + s.length)) (i + REDACTED.length)

structure Redactor where
  secrets : List (List ℕ)
  hold : ℕ
  held : List ℕ

namespace Redactor

def new (values : List Text) : Redactor :=
  let secrets := (values.map utf8).filter fun b => decide (MIN_REDACT_LENGTH ≤ b.length)
  { secrets, hold := secrets.foldl (fun m b => max m (b.length - 1)) 0, held := [] }

def active (r : Redactor) : Bool := decide (0 < r.secrets.length)

def scrub (r : Redactor) (buf : List ℕ) : List ℕ :=
  r.secrets.foldl (fun buf s => scrubLoop s (buf.length + 1) buf 0) buf

/-- What can be shown now, and the redactor with what it keeps back. -/
def push (r : Redactor) (chunk : List ℕ) : List ℕ × Redactor :=
  if r.active then
    let all := r.scrub (r.held ++ chunk)
    let keep := min r.hold all.length
    (all.take (all.length - keep), { r with held := all.drop (all.length - keep) })
  else (chunk, r)

def flush (r : Redactor) : List ℕ × Redactor := (r.held, { r with held := [] })

/-- All that comes out for a stream in chunks, the final flush included. -/
def output (r : Redactor) : List (List ℕ) → List ℕ
  | [] => r.flush.1
  | chunk :: chunks => (r.push chunk).1 ++ output (r.push chunk).2 chunks

end Redactor

/-! ## The loop masks the leftmost occurrences -/

theorem indexOf_none {buf s : List ℕ} {start : ℕ} (hs : s ≠ [])
    (h : indexOf buf s start = none) : ¬ s <:+: buf.drop start := by
  rintro ⟨u, v, huv⟩
  rw [indexOf, List.find?_range'_eq_none] at h
  have hlen := congrArg List.length huv
  simp only [List.length_append, List.length_drop] at hlen
  have hpos := List.length_pos_of_ne_nil hs
  have hplace := h (start + u.length) (by omega) (by omega)
  have hstarts : s <+: buf.drop (start + u.length) := by
    rw [← List.drop_drop, ← huv, List.append_assoc, List.drop_left]
    exact List.prefix_append s v
  rw [List.isPrefixOf_iff_prefix.mpr hstarts] at hplace
  exact absurd hplace (by decide)

/-- The place found splits the rest of the buffer before the first occurrence and behind it. -/
theorem indexOf_some {done rest s : List ℕ} {i : ℕ}
    (h : indexOf (done ++ rest) s done.length = some i) :
    ∃ u v, rest = u ++ (s ++ v) ∧ i = done.length + u.length ∧
      ∀ r, r ≠ [] → r <:+ u → ¬ s <+: r ++ (s ++ v) := by
  rw [indexOf, List.find?_range'_eq_some] at h
  obtain ⟨hstarts, hmem, hfirst⟩ := h
  obtain ⟨k, rfl⟩ : ∃ k, i = done.length + k := by
    obtain ⟨k, -, hk⟩ := List.mem_range'.mp hmem
    exact ⟨k, by omega⟩
  have hk : k < rest.length := by
    rw [List.mem_range'_1, List.length_append] at hmem
    omega
  obtain ⟨v, hv⟩ := List.isPrefixOf_iff_prefix.mp hstarts
  rw [← List.drop_drop, List.drop_left] at hv
  have hrest : rest = rest.take k ++ (s ++ v) := by
    rw [hv, List.take_append_drop]
  refine ⟨rest.take k, v, hrest, ?_, fun r hr hsuffix hp => ?_⟩
  · rw [List.length_take]
    omega
  · obtain ⟨w, hw⟩ := hsuffix
    have hlen := congrArg List.length hw
    rw [List.length_append, List.length_take] at hlen
    have hpos := List.length_pos_of_ne_nil hr
    have hnone := hfirst (done.length + w.length) (by omega) (by omega)
    have hdrop : (done ++ rest).drop (done.length + w.length) = r ++ (s ++ v) := by
      rw [← List.drop_drop, List.drop_left, hrest, ← hw, List.append_assoc, List.drop_left]
    rw [hdrop, List.isPrefixOf_iff_prefix.mpr hp] at hnone
    exact absurd hnone (by decide)

theorem scrubLoop_eq {s : List ℕ} (hs : s ≠ []) (fuel : ℕ) (done rest : List ℕ)
    (hfuel : rest.length < fuel) :
    scrubLoop s fuel (done ++ rest) done.length = done ++ maskOut REDACTED s rest := by
  induction fuel generalizing done rest with
  | zero => omega
  | succ fuel ih =>
    rw [scrubLoop]
    cases hi : indexOf (done ++ rest) s done.length with
    | none =>
      have hnone := indexOf_none hs hi
      rw [List.drop_left] at hnone
      simp only []
      rw [maskOut_of_absent hnone]
    | some i =>
      obtain ⟨u, v, rfl, rfl, hfirst⟩ := indexOf_some hi
      have htake : (done ++ (u ++ (s ++ v))).take (done.length + u.length) = done ++ u := by
        rw [← List.append_assoc, ← List.length_append, List.take_left]
      have hdrop : (done ++ (u ++ (s ++ v))).drop (done.length + u.length + s.length) = v := by
        rw [← List.drop_drop, ← List.drop_drop, List.drop_left, List.drop_left, List.drop_left]
      have hlen : v.length < fuel := by
        have hpos := List.length_pos_of_ne_nil hs
        simp only [List.length_append] at hfuel
        omega
      have hstep := ih (done ++ u ++ REDACTED) v hlen
      simp only [List.length_append] at hstep
      simp only [htake, hdrop]
      rw [hstep, maskOut_append_of_not hfirst, maskOut_append hs]
      simp only [List.append_assoc]

/-! ## What comes out -/

theorem utf8_star {v : Text} (hv : '*' ∉ v) : 42 ∉ utf8 v := by
  intro h
  obtain ⟨c, hc, hbyte⟩ := List.mem_flatMap.mp h
  have hstar : c.toNat = 42 := by
    unfold utf8Char utf8Point at hbyte
    split_ifs at hbyte <;> simp only [List.mem_cons, List.not_mem_nil, or_false] at hbyte <;> omega
  have heq : c = '*' := Char.toNat_inj.mp hstar
  exact hv (heq ▸ hc)

theorem le_hold (secrets : List (List ℕ)) (m : ℕ) :
    m ≤ secrets.foldl (fun m b => max m (b.length - 1)) m ∧
      ∀ s ∈ secrets, s.length - 1 ≤ secrets.foldl (fun m b => max m (b.length - 1)) m := by
  induction secrets generalizing m with
  | nil => simp
  | cons t secrets ih =>
    obtain ⟨hm, hall⟩ := ih (max m (t.length - 1))
    rw [List.foldl_cons]
    refine ⟨by omega, fun s hs => ?_⟩
    rcases List.mem_cons.mp hs with rfl | hs
    · omega
    · exact hall s hs

namespace Redactor

/-- The secrets are those of `values`, and any of them without its first byte fits in `hold`. -/
structure Guards (values : List Text) (r : Redactor) : Prop where
  secrets : r.secrets = values.map utf8
  stars : Stars 42 REDACTED r.secrets
  hold : ∀ s ∈ r.secrets, s.length ≤ r.hold + 1

/-- How the redactor stands when `out` was let out for `stream`. -/
structure Along (stream out : List ℕ) (r : Redactor) : Prop where
  parted : Parted 42 REDACTED r.secrets r.hold stream out r.held
  idle : r.secrets = [] → r.held = [] ∧ r.hold = 0
  whole : ∀ s, r.secrets = [s] → out ++ r.held = maskOut REDACTED s stream

variable {values : List Text} {stream out : List ℕ} {r : Redactor}

theorem new_guards (hlen : ∀ v ∈ values, MIN_REDACT_LENGTH ≤ (utf8 v).length)
    (hstar : ∀ v ∈ values, '*' ∉ v) : (new values).Guards values := by
  have hall : (new values).secrets = values.map utf8 := by
    refine List.filter_eq_self.mpr fun s hs => ?_
    obtain ⟨v, hv, rfl⟩ := List.mem_map.mp hs
    exact decide_eq_true (hlen v hv)
  have hmask : REDACTED ≠ [] ∧ ∀ a ∈ REDACTED, a = 42 := by decide
  refine ⟨hall, ⟨hmask, fun s hs => ?_⟩, fun s hs => ?_⟩
  · rw [hall] at hs
    obtain ⟨v, hv, rfl⟩ := List.mem_map.mp hs
    refine ⟨?_, utf8_star (hstar v hv)⟩
    rintro hnil
    have hmin := hlen v hv
    rw [hnil] at hmin
    exact absurd hmin (by decide)
  · have := (le_hold (new values).secrets 0).2 s hs
    change s.length - 1 ≤ (new values).hold at this
    omega

theorem scrub_eq (h : Stars 42 REDACTED r.secrets) (buf : List ℕ) :
    r.scrub buf = maskAll REDACTED r.secrets buf := by
  unfold scrub maskAll
  generalize r.secrets = secrets at h
  induction secrets generalizing buf with
  | nil => rfl
  | cons s secrets ih =>
    have hs := (h.words s List.mem_cons_self).1
    have hloop := scrubLoop_eq hs (buf.length + 1) [] buf (Nat.lt_succ_self _)
    rw [List.foldl_cons, List.foldl_cons, ih _ (h.mono (List.subset_cons_self s secrets))]
    exact congrArg (fun l => secrets.foldl (fun l s => maskOut REDACTED s l) l) hloop

theorem new_along : (new values).Along [] [] := by
  refine ⟨⟨.nil, ?_, .inl rfl⟩, fun hnil => ⟨rfl, ?_⟩, fun s _ => rfl⟩
  · intro s hs hin
    have hempty : s = [] := List.infix_nil.mp hin
    have hlen := (List.mem_filter.mp hs).2
    rw [hempty] at hlen
    exact absurd hlen (by decide)
  · exact congrArg (List.foldl (fun m b => max m (b.length - 1)) 0) hnil

theorem push_guards (h : r.Guards values) (chunk : List ℕ) : (r.push chunk).2.Guards values := by
  unfold push
  split
  · exact ⟨h.secrets, h.stars, h.hold⟩
  · exact h

/-- A chunk more of the stream. -/
theorem push_along (hg : r.Guards values) (h : r.Along stream out) (chunk : List ℕ) :
    (r.push chunk).2.Along (stream ++ chunk) (out ++ (r.push chunk).1) := by
  unfold push
  split
  · have hscrub := scrub_eq hg.stars (r.held ++ chunk)
    refine ⟨h.parted.push hg.stars hg.hold chunk hscrub, fun hnil => ?_, fun s hs => ?_⟩
    · rename_i hactive
      simp only at hnil
      rw [active, hnil] at hactive
      exact absurd hactive (by decide)
    · simp only at hs
      have hsole : maskAll REDACTED r.secrets (r.held ++ chunk) =
          maskOut REDACTED s (r.held ++ chunk) := by rw [hs]; rfl
      have hparted := h.parted
      rw [hs] at hparted
      simp only
      rw [List.append_assoc, List.take_append_drop, hscrub, hsole]
      exact hparted.whole_append (hs ▸ hg.stars) (hg.hold s (by simp [hs])) (h.whole s hs) chunk
  · rename_i hactive
    have hnil : r.secrets = [] := by
      by_contra hne
      exact hactive (decide_eq_true (List.length_pos_of_ne_nil hne))
    obtain ⟨hheld, hhold⟩ := h.idle hnil
    have hmasked := h.parted.masked
    rw [hheld, List.append_nil] at hmasked
    refine ⟨⟨?_, by simp [hnil], ?_⟩, fun _ => ⟨hheld, hhold⟩, fun s hs => ?_⟩
    · rw [hheld, List.append_nil]
      exact hmasked.append (masked_refl chunk)
    · rw [hhold]
      exact .inr (.inr (Nat.zero_le _))
    · rw [hnil] at hs
      cases hs

/-- The rest of a stream comes out behind what came out already. -/
theorem output_along (hg : r.Guards values) (h : r.Along stream out) (chunks : List (List ℕ)) :
    ∃ (r' : Redactor) (out' : List ℕ), r'.Guards values ∧ r'.Along (stream ++ chunks.flatten) out' ∧
      out ++ r.output chunks = out' ++ r'.held := by
  induction chunks generalizing r stream out with
  | nil => exact ⟨r, out, hg, by rwa [List.flatten_nil, List.append_nil], rfl⟩
  | cons chunk chunks ih =>
    obtain ⟨r', out', hg', h', heq⟩ := ih (push_guards hg chunk) (push_along hg h chunk)
    refine ⟨r', out', hg', ?_, ?_⟩
    · rwa [List.flatten_cons, ← List.append_assoc]
    · rw [output, ← List.append_assoc, heq]

/-- No secret of `values` comes out, however the stream is cut: some of its occurrences are masked,
a byte in no occurrence stays in its place, and a single secret is masked as in the whole stream. -/
theorem redaction_complete (values : List Text)
    (hlen : ∀ v ∈ values, MIN_REDACT_LENGTH ≤ (utf8 v).length) (hstar : ∀ v ∈ values, '*' ∉ v)
    (chunks : List (List ℕ)) :
    (∀ v ∈ values, ¬ utf8 v <:+: (new values).output chunks) ∧
    Masked REDACTED (values.map utf8) chunks.flatten ((new values).output chunks) ∧
    (∀ u a w, chunks.flatten = u ++ a :: w → ¬ Covered (values.map utf8) chunks.flatten u.length →
      ∃ m₁ m₂, (new values).output chunks = m₁ ++ a :: m₂ ∧
        Masked REDACTED (values.map utf8) u m₁ ∧ Masked REDACTED (values.map utf8) w m₂) ∧
    (∀ v, values = [v] → (new values).output chunks = (new values).scrub chunks.flatten) := by
  have hg := new_guards hlen hstar
  obtain ⟨r, out, hg', h, heq⟩ := output_along hg new_along chunks
  rw [List.nil_append] at heq h
  rw [heq]
  have hmasked := h.parted.masked
  rw [hg'.secrets] at hmasked
  refine ⟨fun v hv => ?_, hmasked, fun u a w hu hfree => hmasked.kept hu hfree, fun v hv => ?_⟩
  · exact h.parted.clean (utf8 v) (hg'.secrets ▸ List.mem_map_of_mem hv)
  · have hnew : (new values).secrets = [utf8 v] := by rw [hg.secrets, hv]; rfl
    have hsole : r.secrets = [utf8 v] := by rw [hg'.secrets, hv]; rfl
    rw [h.whole _ hsole, scrub_eq hg.stars, hnew]
    rfl

/-- Two secrets that overlap, over packets that cut both. -/
theorem redaction_complete_overlap :
    ¬ utf8 "abcdef".toList <:+:
      (new ["abcdef".toList, "cdefgh".toList]).output [utf8 "xabcd".toList, utf8 "efgh".toList] :=
  (redaction_complete ["abcdef".toList, "cdefgh".toList] (by decide) (by decide)
    [utf8 "xabcd".toList, utf8 "efgh".toList]).1 _ (by decide)

end Redactor

end Prgd.Terminal
