import Prgd.JsValue
import Prgd.Encoding
import Mathlib.Data.List.Sort

/-!
# Redaction of secrets

`Redactor.add` registers a secret with its base64 and its URL encoding,
`text` replaces every registered value in a string by the marker, longest
first, and `value` walks a JSON value.

Replacing is complete for text: with no registered value overlapping the
marker, no order of the replacements leaves or brings back an occurrence.
The walk is not: it copies object keys, and below forty levels it returns the
value as it came. `Uncovered` names exactly these places. An own property
called `__proto__` is not a place: assigning it sets the prototype of the copy
instead of a property, so the copy does not have it.
-/
namespace Prgd

structure Redactor where
  values : List Text := []

namespace Redactor
open Encoding

def marker : Text := "[REDACTED]".toList

/-- `push` unless the value is there already. -/
def register (values : List Text) (v : Text) : List Text :=
  if v ∈ values then values else values ++ [v]

/-- One round of the loop of `add`. Values under four characters are skipped. -/
def addSecret (values : List Text) : Option Text → List Text
  | none => values
  | some s =>
      if Text.length16 s < 4 then values else
        let values := register (register values s) (base64 (utf8 s))
        if encodeURIComponent s ≠ s then register values (encodeURIComponent s) else values

def add (r : Redactor) (secrets : List (Option Text)) : Redactor :=
  ⟨(secrets.foldl addSecret r.values).insertionSort
    fun a b => Text.length16 b ≤ Text.length16 a⟩

def replaceIn (out v : Text) : Text :=
  if Text.includes out v then Text.join marker (Text.split out v) else out

def text (r : Redactor) (s : Text) : Text := r.values.foldl replaceIn s

/-- The guard at the head of `value`: nothing to redact, or too deep. -/
def passes (r : Redactor) (depth : ℕ) : Bool := r.values.isEmpty || decide (40 < depth)

def proto : Text := "__proto__".toList

mutual
/-- `value` at a recursion depth. -/
def valueAt (r : Redactor) (depth : ℕ) : JsValue → JsValue
  | .str s => if r.passes depth then .str s else .str (r.text s)
  | .arr items => if r.passes depth then .arr items else .arr (r.items (depth + 1) items)
  | .obj fields => if r.passes depth then .obj fields else .obj (r.fields (depth + 1) fields)
  | v => v
def items (r : Redactor) (depth : ℕ) : List JsValue → List JsValue
  | [] => []
  | v :: vs => r.valueAt depth v :: r.items depth vs
def fields (r : Redactor) (depth : ℕ) : List (Text × JsValue) → List (Text × JsValue)
  | [] => []
  | (k, v) :: vs =>
      if k = proto then r.fields depth vs else (k, r.valueAt depth v) :: r.fields depth vs
end

def value (r : Redactor) (v : JsValue) : JsValue := r.valueAt 0 v

/-! ## Text -/

/-- What `add` guarantees when no secret overlaps the marker. -/
def Sound (r : Redactor) : Prop := ∀ v ∈ r.values, v ≠ [] ∧ ¬ Text.Overlaps v marker

theorem not_infix_replaceIn {v w s : Text} (hw : w ≠ []) (hm : ¬ Text.Overlaps w marker)
    (hs : ¬ w <:+: s) : ¬ w <:+: replaceIn s v := by
  unfold replaceIn
  split_ifs
  · exact Text.not_infix_join_split_of_not_infix hw hm hs
  · exact hs

/-- With the word goes every text that contains it. -/
theorem not_infix_of_replaceIn {v w s : Text} (hv : v ≠ []) (hvw : v <:+: w)
    (hm : ¬ Text.Overlaps w marker) : ¬ w <:+: replaceIn s v := by
  have hw : w ≠ [] := fun h => hv (List.eq_nil_of_infix_nil (h ▸ hvw))
  unfold replaceIn
  split_ifs with h
  · exact Text.not_infix_join hm
      (fun p hp hin => Text.not_infix_of_mem_pieces hv 0 s p hp (hvw.trans hin)) hw
  · have hs : ¬ v <:+: s := by simpa [Text.includes] using h
    exact fun hin => hs (hvw.trans hin)

theorem not_infix_foldl_replaceIn {w : Text} (hw : w ≠ []) (hm : ¬ Text.Overlaps w marker)
    (vs : List Text) {s : Text} (hs : ¬ w <:+: s) : ¬ w <:+: vs.foldl replaceIn s := by
  induction vs generalizing s with
  | nil => exact hs
  | cons v vs ih => exact ih (not_infix_replaceIn hw hm hs)

/-- A text that contains a registered value and keeps clear of the marker is not left. -/
theorem text_free_of_infix {r : Redactor} {v w : Text} (hv : v ∈ r.values) (hne : v ≠ [])
    (hvw : v <:+: w) (hm : ¬ Text.Overlaps w marker) (s : Text) : ¬ w <:+: r.text s := by
  have hw : w ≠ [] := fun h => hne (List.eq_nil_of_infix_nil (h ▸ hvw))
  unfold text
  generalize r.values = vs at hv
  induction vs generalizing s with
  | nil => simp at hv
  | cons u vs ih =>
    rcases List.mem_cons.mp hv with rfl | hv
    · exact not_infix_foldl_replaceIn hw hm vs (not_infix_of_replaceIn hne hvw hm)
    · exact ih (replaceIn s u) hv

/-- Redacted text contains no registered value. -/
theorem text_free {r : Redactor} (hr : r.Sound) {w : Text} (hw : w ∈ r.values) (s : Text) :
    ¬ w <:+: r.text s :=
  text_free_of_infix hw (hr w hw).1 (List.infix_refl w) (hr w hw).2 s

/-- A text without registered values stays as it is. -/
theorem text_eq_self {r : Redactor} {s : Text} (h : ∀ v ∈ r.values, ¬ v <:+: s) :
    r.text s = s := by
  unfold text
  generalize r.values = vs at h
  induction vs with
  | nil => rfl
  | cons v vs ih =>
    rw [List.forall_mem_cons] at h
    rw [List.foldl_cons, replaceIn, if_neg (by simpa [Text.includes] using h.1), ih h.2]

/-- The marker is in every text that was changed. -/
theorem text_eq_or_marker {r : Redactor} (h : ∀ v ∈ r.values, v ≠ []) (s : Text) :
    r.text s = s ∨ marker <:+: r.text s := by
  unfold text
  generalize r.values = vs at h
  suffices hfold : ∀ out, out = s ∨ marker <:+: out →
      vs.foldl replaceIn out = s ∨ marker <:+: vs.foldl replaceIn out from hfold s (.inl rfl)
  induction vs with
  | nil => exact fun _ hout => hout
  | cons v vs ih =>
    rw [List.forall_mem_cons] at h
    intro out hout
    refine ih h.2 _ ?_
    unfold replaceIn
    split_ifs with hv
    · exact .inr (Text.infix_join_split marker h.1 (of_decide_eq_true hv))
    · exact hout

/-! ## Registered values -/

/-- The values registered for one secret. -/
def registered (s : Text) : List Text := [s, base64 (utf8 s), encodeURIComponent s]

theorem mem_register {values : List Text} {v w : Text} :
    w ∈ register values v ↔ w ∈ values ∨ w = v := by
  unfold register
  split_ifs with h
  · exact ⟨.inl, fun hw => hw.elim id (fun e => e ▸ h)⟩
  · simp

theorem mem_addSecret {values : List Text} {s w : Text} :
    w ∈ addSecret values (some s) ↔
      w ∈ values ∨ 4 ≤ Text.length16 s ∧ w ∈ registered s := by
  by_cases hs : Text.length16 s < 4
  · simp [addSecret, hs]
  · simp only [addSecret, hs, ite_false, registered, List.mem_cons, List.not_mem_nil, or_false,
      not_lt.mp hs, true_and]
    split_ifs with henc
    · simp only [mem_register]
      tauto
    · simp only [mem_register, not_not.mp henc]
      tauto

theorem mem_foldl_addSecret {secrets : List (Option Text)} {values : List Text} {w : Text} :
    w ∈ secrets.foldl addSecret values ↔
      w ∈ values ∨ ∃ s, some s ∈ secrets ∧ 4 ≤ Text.length16 s ∧ w ∈ registered s := by
  induction secrets generalizing values with
  | nil => simp
  | cons o secrets ih =>
    rw [List.foldl_cons, ih]
    cases o with
    | none => simp [addSecret]
    | some t =>
      rw [mem_addSecret]
      simp only [List.mem_cons, Option.some.injEq]
      constructor
      · rintro ((hw | hw) | ⟨s, hs, hw⟩)
        · exact .inl hw
        · exact .inr ⟨t, .inl rfl, hw⟩
        · exact .inr ⟨s, .inr hs, hw⟩
      · rintro (hw | ⟨s, rfl | hs, hw⟩)
        · exact .inl (.inl hw)
        · exact .inl (.inr hw)
        · exact .inr ⟨s, hs, hw⟩

/-- What is registered after a call of `add`. -/
theorem mem_add_iff {r : Redactor} {secrets : List (Option Text)} {w : Text} :
    w ∈ (r.add secrets).values ↔
      w ∈ r.values ∨ ∃ s, some s ∈ secrets ∧ 4 ≤ Text.length16 s ∧ w ∈ registered s := by
  rw [add, List.mem_insertionSort, mem_foldl_addSecret]

/-- Each secret of a batch has at least four characters and keeps clear of
the marker. -/
def Admissible (secrets : List (Option Text)) : Prop :=
  ∀ s, some s ∈ secrets → 4 ≤ Text.length16 s ∧ ¬ Text.Overlaps s marker

/-- A word without brackets overlaps the marker only as a part of it. -/
theorem not_overlaps_of_no_bracket {w : Text} (hl : '[' ∉ w) (hr : ']' ∉ w)
    (hm : ¬ w <:+: marker) : ¬ Text.Overlaps w marker := by
  rintro (h | h | ⟨p, hp, hne, hpm⟩ | ⟨p, hp, hne, hpm⟩)
  · exact hm h
  · exact hl (h.subset (by decide))
  · obtain ⟨c, p, rfl⟩ := List.exists_cons_of_ne_nil hne
    have hc : c = '[' := (List.cons_prefix_cons.mp hpm).1
    exact hl (((List.mem_tails _ _).mp hp).subset (by simp [hc]))
  · obtain ⟨p, c, rfl⟩ := (List.eq_nil_or_concat' p).resolve_left hne
    obtain ⟨q, hq⟩ := hpm
    rw [← List.append_assoc] at hq
    have hc : [c] = [']'] := (List.append_inj' (hq.trans (show marker = "[REDACTED".toList ++ [']']
      from rfl)) rfl).2
    exact hr (((List.mem_inits _ _).mp hp).subset (by simp [List.singleton_inj.mp hc]))

/-- The only long part of the marker without brackets. -/
theorem eq_of_infix_marker {w : Text} (h : w <:+: marker) (hl : '[' ∉ w) (hr : ']' ∉ w)
    (hlen : 8 ≤ w.length) : w = "REDACTED".toList := by
  obtain ⟨a, b, hab⟩ := h
  have hmem : w ∈ marker.tails.flatMap List.inits := by
    refine List.mem_flatMap.mpr ⟨w ++ b, (List.mem_tails _ _).mpr ⟨a, ?_⟩, ?_⟩
    · rw [← List.append_assoc, hab]
    · exact (List.mem_inits _ _).mpr (List.prefix_append w b)
  revert hmem hl hr hlen
  have key : ∀ u ∈ marker.tails.flatMap List.inits, '[' ∉ u → ']' ∉ u → 8 ≤ u.length →
      u = "REDACTED".toList := by decide
  intro hl hr hlen hmem
  exact key w hmem hl hr hlen

/-- `REDACTED` is no base64 text of UTF-8 bytes: its third byte would be C0. -/
theorem base64_ne_redacted (s : Text) : base64 (utf8 s) ≠ "REDACTED".toList := by
  intro h
  have hlt := utf8_lt s
  have hc0 := utf8_ne_c0 s
  generalize utf8 s = bs at h hlt hc0
  match bs, h with
  | [], h | [_], h | [_, _], h => exact absurd (congrArg List.length h) (by simp [base64])
  | a :: b :: c :: rest, h =>
    have hb : b < 256 := hlt b (by simp)
    have hc : c < 256 := hlt c (by simp)
    have hd : symbol (b % 16 * 4 + c / 64) = 'D' := by
      have := congrArg (fun t => t.getD 2 ' ') h
      simpa [base64] using this
    have ha : symbol (c % 64) = 'A' := by
      have := congrArg (fun t => t.getD 3 ' ') h
      simpa [base64] using this
    have key : ∀ n < 64, (symbol n = 'D' → n = 3) ∧ (symbol n = 'A' → n = 0) := by
      simp only [symbol, alphabet_eq]
      decide
    have h3 := (key _ (by omega)).1 hd
    have h0 := (key _ (by omega)).2 ha
    exact hc0 (by simp; omega)

theorem base64_not_overlaps {s : Text} (hs : 4 ≤ Text.length16 s) :
    base64 (utf8 s) ≠ [] ∧ ¬ Text.Overlaps (base64 (utf8 s)) marker := by
  have hmem := base64_mem (utf8 s)
  rw [alphabet_eq] at hmem
  have hl : '[' ∉ base64 (utf8 s) := fun h => absurd (hmem _ h) (by decide)
  have hr : ']' ∉ base64 (utf8 s) := fun h => absurd (hmem _ h) (by decide)
  have hlen : 8 ≤ (base64 (utf8 s)).length := by
    rw [base64_length]
    have := length16_le_utf8 s
    omega
  refine ⟨fun h => by simp [h] at hlen, not_overlaps_of_no_bracket hl hr fun hin => ?_⟩
  exact base64_ne_redacted s (eq_of_infix_marker hin hl hr hlen)

theorem encode_not_overlaps {s : Text} (hs : ¬ Text.Overlaps s marker) :
    ¬ Text.Overlaps (encodeURIComponent s) marker := by
  rcases encode_eq_or_percent s with h | h
  · rwa [h]
  · have hmem := encode_mem s
    refine not_overlaps_of_no_bracket (fun hb => ?_) (fun hb => ?_) ?_
    · exact absurd (hmem _ hb) (by decide)
    · exact absurd (hmem _ hb) (by decide)
    · exact fun hin => absurd (hin.subset h) (by decide)

theorem ne_nil_of_registered {s w : Text} (hlen : 4 ≤ Text.length16 s) (hw : w ∈ registered s) :
    w ≠ [] := by
  have hne : s ≠ [] := by
    rintro rfl
    simp [Text.length16] at hlen
  simp only [registered, List.mem_cons, List.not_mem_nil, or_false] at hw
  rcases hw with rfl | rfl | rfl
  · exact hne
  · exact (base64_not_overlaps hlen).1
  · rcases encode_eq_or_percent s with h | h
    · rwa [h]
    · exact List.ne_nil_of_mem h

/-- Every registered value of an admissible secret keeps clear of the marker. -/
theorem registered_not_overlaps {s w : Text} (hlen : 4 ≤ Text.length16 s)
    (hs : ¬ Text.Overlaps s marker) (hw : w ∈ registered s) :
    w ≠ [] ∧ ¬ Text.Overlaps w marker := by
  refine ⟨ne_nil_of_registered hlen hw, ?_⟩
  simp only [registered, List.mem_cons, List.not_mem_nil, or_false] at hw
  rcases hw with rfl | rfl | rfl
  · exact hs
  · exact (base64_not_overlaps hlen).2
  · exact encode_not_overlaps hs

/-- A redactor after any number of `add` calls. -/
def ofBatches (batches : List (List (Option Text))) : Redactor := batches.foldl add {}

/-- What is registered for secrets of any kind. -/
theorem mem_ofBatches_iff {batches : List (List (Option Text))} {w : Text} :
    w ∈ (ofBatches batches).values ↔
      ∃ b ∈ batches, ∃ s, some s ∈ b ∧ 4 ≤ Text.length16 s ∧ w ∈ registered s := by
  have hfold : ∀ r : Redactor, w ∈ (batches.foldl add r).values ↔ w ∈ r.values ∨
      ∃ b ∈ batches, ∃ s, some s ∈ b ∧ 4 ≤ Text.length16 s ∧ w ∈ registered s := by
    induction batches with
    | nil => simp
    | cons b batches ih =>
      intro r
      rw [List.foldl_cons, ih, mem_add_iff]
      simp only [List.mem_cons, exists_eq_or_imp, or_assoc]
  rw [ofBatches, hfold]
  simp

/-- The registered values are the admitted secrets and their two encodings. -/
theorem mem_ofBatches {batches : List (List (Option Text))} (h : ∀ b ∈ batches, Admissible b)
    {w : Text} : w ∈ (ofBatches batches).values ↔
      ∃ b ∈ batches, ∃ s, some s ∈ b ∧ w ∈ registered s := by
  rw [mem_ofBatches_iff]
  refine exists_congr fun b => and_congr_right fun hb => exists_congr fun s =>
    and_congr_right fun hs => ?_
  simp [(h b hb s hs).1]

theorem sound_ofBatches {batches : List (List (Option Text))}
    (h : ∀ b ∈ batches, Admissible b) : (ofBatches batches).Sound := by
  intro w hw
  obtain ⟨b, hb, s, hs, hws⟩ := (mem_ofBatches h).mp hw
  obtain ⟨hlen, hs⟩ := h b hb s hs
  exact registered_not_overlaps hlen hs hws

/-! ## Values -/

mutual
/-- The word occurs in some string or key of the value, at any depth. -/
def Occurs (w : Text) : JsValue → Prop
  | .str s => w <:+: s
  | .arr items => OccursItems w items
  | .obj fields => OccursFields w fields
  | _ => False
def OccursItems (w : Text) : List JsValue → Prop
  | [] => False
  | v :: vs => Occurs w v ∨ OccursItems w vs
def OccursFields (w : Text) : List (Text × JsValue) → Prop
  | [] => False
  | (k, v) :: vs => w <:+: k ∨ Occurs w v ∨ OccursFields w vs
end

mutual
/-- The word occurs where the walk does not redact: in a key it copies, or
anywhere below the fortieth level. -/
def Uncovered (w : Text) (depth : ℕ) : JsValue → Prop
  | .str s => 40 < depth ∧ w <:+: s
  | .arr items =>
      if 40 < depth then OccursItems w items else UncoveredItems w (depth + 1) items
  | .obj fields =>
      if 40 < depth then OccursFields w fields else UncoveredFields w (depth + 1) fields
  | _ => False
def UncoveredItems (w : Text) (depth : ℕ) : List JsValue → Prop
  | [] => False
  | v :: vs => Uncovered w depth v ∨ UncoveredItems w depth vs
def UncoveredFields (w : Text) (depth : ℕ) : List (Text × JsValue) → Prop
  | [] => False
  | (k, v) :: vs =>
      (k ≠ proto ∧ (w <:+: k ∨ Uncovered w depth v)) ∨ UncoveredFields w depth vs
end

section
variable {r : Redactor} {w : Text}

theorem passes_eq (hw : w ∈ r.values) (depth : ℕ) : r.passes depth = decide (40 < depth) := by
  simp [passes, List.ne_nil_of_mem hw]

mutual
/-- What is left of a registered value is exactly what the walk leaves out. -/
theorem occurs_valueAt (hr : r.Sound) (hw : w ∈ r.values) (depth : ℕ) :
    ∀ v, Occurs w (r.valueAt depth v) ↔ Uncovered w depth v
  | .str s => by
    simp only [valueAt, passes_eq hw, decide_eq_true_eq, Uncovered]
    split_ifs with hd
    · simp [Occurs, hd]
    · simp [Occurs, hd, text_free hr hw]
  | .arr items => by
    simp only [valueAt, passes_eq hw, decide_eq_true_eq, Uncovered]
    split_ifs with hd
    · rfl
    · exact occursItems_items hr hw (depth + 1) items
  | .obj fields => by
    simp only [valueAt, passes_eq hw, decide_eq_true_eq, Uncovered]
    split_ifs with hd
    · rfl
    · exact occursFields_fields hr hw (depth + 1) fields
  | .undefined | .null | .bool _ | .num _ => Iff.rfl
theorem occursItems_items (hr : r.Sound) (hw : w ∈ r.values) (depth : ℕ) :
    ∀ vs, OccursItems w (r.items depth vs) ↔ UncoveredItems w depth vs
  | [] => Iff.rfl
  | v :: vs => by
    simp only [items, OccursItems, UncoveredItems, occurs_valueAt hr hw depth v,
      occursItems_items hr hw depth vs]
theorem occursFields_fields (hr : r.Sound) (hw : w ∈ r.values) (depth : ℕ) :
    ∀ vs, OccursFields w (r.fields depth vs) ↔ UncoveredFields w depth vs
  | [] => Iff.rfl
  | (k, v) :: vs => by
    simp only [fields, UncoveredFields]
    split_ifs with hk
    · simp [hk, occursFields_fields hr hw depth vs]
    · simp [hk, OccursFields, occurs_valueAt hr hw depth v, occursFields_fields hr hw depth vs,
        or_assoc]
end
end

/-- After any admissible registrations: redacted text is free of every secret
and of its encodings, and a redacted value is free of them exactly when none
stands in a copied key or below the fortieth level. -/
theorem redaction_complete_iff (batches : List (List (Option Text)))
    (h : ∀ b ∈ batches, Admissible b) :
    (∀ b ∈ batches, ∀ s, some s ∈ b → ∀ w ∈ registered s,
      ∀ t, ¬ w <:+: (ofBatches batches).text t) ∧
    ∀ v, (∀ b ∈ batches, ∀ s, some s ∈ b → ∀ w ∈ registered s,
        ¬ Occurs w ((ofBatches batches).value v)) ↔
      ∀ b ∈ batches, ∀ s, some s ∈ b → ∀ w ∈ registered s, ¬ Uncovered w 0 v := by
  have hr := sound_ofBatches h
  have hmem : ∀ b ∈ batches, ∀ s, some s ∈ b → ∀ w ∈ registered s,
      w ∈ (ofBatches batches).values :=
    fun b hb s hs w hw => (mem_ofBatches h).mpr ⟨b, hb, s, hs, hw⟩
  refine ⟨fun b hb s hs w hw t => text_free hr (hmem b hb s hs w hw) t, fun v => ?_⟩
  constructor
  · intro hfree b hb s hs w hw hun
    exact hfree b hb s hs w hw ((occurs_valueAt hr (hmem b hb s hs w hw) 0 v).mpr hun)
  · intro hun b hb s hs w hw hocc
    exact hun b hb s hs w hw ((occurs_valueAt hr (hmem b hb s hs w hw) 0 v).mp hocc)

def sampleSecret : Text := "s3cr3t-token".toList

theorem admissible_sample : ∀ b ∈ [[some sampleSecret]], Admissible b := by
  intro b hb s hs
  rw [List.mem_singleton.mp hb] at hs
  rw [Option.some.inj (List.mem_singleton.mp hs)]
  exact ⟨by decide, by decide⟩

theorem redaction_complete_iff_sample :
    (∀ b ∈ [[some sampleSecret]], Admissible b) ∧
      ∀ t, ¬ sampleSecret <:+: (ofBatches [[some sampleSecret]]).text t := by
  refine ⟨admissible_sample, ?_⟩
  exact (redaction_complete_iff _ admissible_sample).1 [some sampleSecret] (by simp) sampleSecret
    (by simp) sampleSecret (by simp [registered])

/-- A response that uses the secret as a key keeps it. -/
theorem key_not_redacted :
    (∀ b ∈ [[some sampleSecret]], Admissible b) ∧
      Occurs sampleSecret
        ((ofBatches [[some sampleSecret]]).value (.obj [(sampleSecret, .bool true)])) := by
  refine ⟨admissible_sample, ?_⟩
  have hne : sampleSecret ≠ proto := by decide
  have hw : sampleSecret ∈ (ofBatches [[some sampleSecret]]).values :=
    (mem_ofBatches admissible_sample).mpr
      ⟨[some sampleSecret], by simp, sampleSecret, by simp, by simp [registered]⟩
  rw [value, occurs_valueAt (sound_ofBatches admissible_sample) hw]
  simp [Uncovered, UncoveredFields, hne]

end Redactor
end Prgd
