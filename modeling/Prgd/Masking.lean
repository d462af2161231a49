import Mathlib

/-!
# Masking parts of a list

Each leftmost occurrence of a word is replaced by a mask. The words do not contain the star that the
mask is made of, so a mask never takes part in an occurrence: masking one word brings back no other,
and what is left of the list can be masked piece by piece.
-/
namespace Prgd.Masking

variable {α : Type*}

/-- Some occurrences of words, apart from each other, are masked; every other entry is as it was. -/
inductive Masked (mask : List α) (words : List (List α)) : List α → List α → Prop
  | nil : Masked mask words [] []
  | keep (a : α) {l m : List α} (h : Masked mask words l m) : Masked mask words (a :: l) (a :: m)
  | hide {s : List α} (hs : s ∈ words) {l m : List α} (h : Masked mask words l m) :
      Masked mask words (s ++ l) (mask ++ m)

/-- The entry at `i` is in an occurrence of a word. -/
def Covered (words : List (List α)) (l : List α) (i : ℕ) : Prop :=
  ∃ s ∈ words, ∃ x y, l = x ++ (s ++ y) ∧ x.length ≤ i ∧ i < x.length + s.length

/-- Masks are made of stars, and words are made of anything else. -/
structure Stars (star : α) (mask : List α) (words : List (List α)) : Prop where
  mask : mask ≠ [] ∧ ∀ a ∈ mask, a = star
  words : ∀ s ∈ words, s ≠ [] ∧ star ∉ s

section
variable {star : α} {mask : List α} {words : List (List α)} {l m k l' m' s : List α}

theorem Stars.mono {words' : List (List α)} (hstars : Stars star mask words')
    (hsub : words ⊆ words') : Stars star mask words :=
  ⟨hstars.mask, fun s hs => hstars.words s (hsub hs)⟩

theorem masked_refl (l : List α) : Masked mask words l l := by
  induction l with
  | nil => exact .nil
  | cons a l ih => exact .keep a ih

theorem Masked.append (h : Masked mask words l m) (h' : Masked mask words l' m') :
    Masked mask words (l ++ l') (m ++ m') := by
  induction h with
  | nil => exact h'
  | keep a _ ih => exact .keep a ih
  | hide hs _ ih =>
    rw [List.append_assoc, List.append_assoc]
    exact .hide hs ih

theorem Stars.mask_cons (hstars : Stars star mask words) : ∃ rest, mask = star :: rest := by
  obtain ⟨hne, hall⟩ := hstars.mask
  cases mask with
  | nil => exact (hne rfl).elim
  | cons a rest => exact ⟨rest, by rw [hall a (by simp)]⟩

/-- An entry of the result that is no star was there before. -/
theorem Masked.uncons (hstars : Stars star mask words) {a : α} (ha : a ≠ star)
    (h : Masked mask words l (a :: m)) : ∃ l', l = a :: l' ∧ Masked mask words l' m := by
  generalize hm : a :: m = m' at h
  cases h with
  | nil => cases hm
  | keep b h =>
    cases hm
    exact ⟨_, rfl, h⟩
  | hide hs h =>
    obtain ⟨rest, hrest⟩ := hstars.mask_cons
    rw [hrest] at hm
    cases hm
    exact (ha rfl).elim

theorem Masked.strip (hstars : Stars star mask words) (hs : star ∉ s)
    (h : Masked mask words l (s ++ m)) : ∃ l', l = s ++ l' ∧ Masked mask words l' m := by
  induction s generalizing l with
  | nil => exact ⟨l, rfl, h⟩
  | cons a s ih =>
    have ha : a ≠ star := by
      rintro rfl
      exact hs List.mem_cons_self
    obtain ⟨l₁, rfl, h₁⟩ := h.uncons hstars ha
    obtain ⟨l₂, rfl, h₂⟩ := ih (fun hmem => hs (List.mem_cons_of_mem a hmem)) h₁
    exact ⟨l₂, rfl, h₂⟩

/-- A result can be cut before an entry that is no star. -/
theorem Masked.cut (hstars : Stars star mask words) {a : α} (ha : a ≠ star) {u : List α}
    (h : Masked mask words l (u ++ a :: m)) :
    ∃ l₁ l₂, l = l₁ ++ l₂ ∧ Masked mask words l₂ (a :: m) := by
  generalize hm : u ++ a :: m = m' at h
  induction h generalizing u with
  | nil => simp at hm
  | @keep b l m' h ih =>
    cases u with
    | nil =>
      cases hm
      exact ⟨[], _, rfl, .keep a h⟩
    | cons b' u =>
      cases hm
      obtain ⟨l₁, l₂, rfl, h₂⟩ := ih rfl
      exact ⟨b :: l₁, l₂, rfl, h₂⟩
  | @hide s hs l m' h ih =>
    rcases List.append_eq_append_iff.mp hm with ⟨v, hmask, hrest⟩ | ⟨v, hu, hrest⟩
    · cases v with
      | nil =>
        rw [List.nil_append] at hrest
        rw [← hrest] at h
        exact ⟨s, l, rfl, h⟩
      | cons b v =>
        cases hrest
        have hmem : a ∈ mask := by
          rw [hmask]
          simp
        exact (ha (hstars.mask.2 a hmem)).elim
    · obtain ⟨l₁, l₂, rfl, h₂⟩ := ih hrest.symm
      exact ⟨s ++ l₁, l₂, by rw [List.append_assoc], h₂⟩

/-- Masking brings no occurrence of a word. -/
theorem Masked.reflects (hstars : Stars star mask words) (hne : s ≠ []) (hs : star ∉ s)
    (h : Masked mask words l m) (hin : s <:+: m) : s <:+: l := by
  obtain ⟨u, v, rfl⟩ := hin
  obtain ⟨a, t, rfl⟩ := List.exists_cons_of_ne_nil hne
  have ha : a ≠ star := by
    rintro rfl
    exact hs List.mem_cons_self
  rw [List.append_assoc] at h
  obtain ⟨l₁, l₂, rfl, h₂⟩ := Masked.cut hstars ha h
  obtain ⟨l₃, rfl, -⟩ := Masked.strip hstars hs h₂
  exact ⟨l₁, l₃, List.append_assoc l₁ (a :: t) l₃⟩

theorem Masked.stars (hstars : Stars star mask words) {u : List α} (hu : ∀ a ∈ u, a = star)
    (h : Masked mask words (u ++ l) m) : ∃ m', m = u ++ m' ∧ Masked mask words l m' := by
  induction u generalizing m with
  | nil => exact ⟨m, rfl, h⟩
  | cons a u ih =>
    have ha : a = star := hu a (by simp)
    generalize hl : a :: u ++ l = l' at h
    cases h with
    | nil => cases hl
    | keep b h =>
      cases hl
      obtain ⟨m', rfl, h'⟩ := ih (fun b hb => hu b (List.mem_cons_of_mem a hb)) h
      exact ⟨m', rfl, h'⟩
    | @hide s hs l m h =>
      obtain ⟨hne, hstar⟩ := hstars.words s hs
      obtain ⟨b, t, rfl⟩ := List.exists_cons_of_ne_nil hne
      have hb : b = star := (List.cons.inj hl).1.symm.trans ha
      exact (hstar (hb ▸ List.mem_cons_self)).elim

theorem masked_nil (hstars : Stars star mask words) (h : Masked mask words [] m) : m = [] := by
  generalize hl : [] = l at h
  cases h with
  | nil => rfl
  | keep a h => cases hl
  | hide hs h => exact ((hstars.words _ hs).1 (List.append_eq_nil_iff.mp hl.symm).1).elim

/-- Masking what is masked already is masking at once. -/
theorem Masked.trans (hstars : Stars star mask words) (h : Masked mask words l m)
    (h' : Masked mask words m k) : Masked mask words l k := by
  induction hn : m.length using Nat.strong_induction_on generalizing l m k with
  | _ n ih =>
    have hshorter : ∀ {l' m' k'}, m'.length < m.length → Masked mask words l' m' →
        Masked mask words m' k' → Masked mask words l' k' :=
      fun hlt h h' => ih _ (hn ▸ hlt) h h' rfl
    cases h with
    | nil =>
      rw [masked_nil hstars h']
      exact .nil
    | @keep a l₀ m₀ h₀ =>
      generalize hm : a :: m₀ = m at h'
      cases h' with
      | nil => cases hm
      | keep b h₁ =>
        cases hm
        exact .keep a (hshorter (Nat.lt_succ_self _) h₀ h₁)
      | @hide s hs m₁ k₁ h₁ =>
        obtain ⟨hne, hstar⟩ := hstars.words s hs
        have hall : Masked mask words (a :: l₀) (s ++ m₁) := hm ▸ .keep a h₀
        obtain ⟨l₁, hl₁, h₂⟩ := hall.strip hstars hstar
        have hlt : m₁.length < (a :: m₀).length := by
          rw [hm, List.length_append]
          have := List.length_pos_of_ne_nil hne
          omega
        rw [hl₁]
        exact .hide hs (hshorter hlt h₂ h₁)
    | @hide s hs l₀ m₀ h₀ =>
      obtain ⟨k₀, rfl, h₁⟩ := h'.stars hstars hstars.mask.2
      have hlt : m₀.length < (mask ++ m₀).length := by
        rw [List.length_append]
        have := List.length_pos_of_ne_nil hstars.mask.1
        omega
      exact .hide hs (hshorter hlt h₀ h₁)

/-- A result without a star is the list itself. -/
theorem Masked.eq_of_notMem (hstars : Stars star mask words) (h : Masked mask words l m)
    (hm : star ∉ m) : m = l := by
  induction h with
  | nil => rfl
  | keep a _ ih => rw [ih fun hmem => hm (List.mem_cons_of_mem a hmem)]
  | hide hs _ _ =>
    obtain ⟨rest, hrest⟩ := hstars.mask_cons
    refine (hm ?_).elim
    rw [hrest]
    exact List.mem_cons_self

/-- An entry in no occurrence of a word stays, between what became of the entries around it. -/
theorem Masked.kept (h : Masked mask words l m) {u v : List α} {a : α} (hl : l = u ++ a :: v)
    (hfree : ¬ Covered words l u.length) :
    ∃ m₁ m₂, m = m₁ ++ a :: m₂ ∧ Masked mask words u m₁ ∧ Masked mask words v m₂ := by
  induction h generalizing u with
  | nil => simp at hl
  | @keep b l m h ih =>
    cases u with
    | nil =>
      cases hl
      exact ⟨[], m, rfl, .nil, h⟩
    | cons b' u =>
      cases hl
      have hfree' : ¬ Covered words (u ++ a :: v) u.length := by
        rintro ⟨s, hs, x, y, hx, hle, hlt⟩
        refine hfree ⟨s, hs, b :: x, y, congrArg (b :: ·) hx, ?_, ?_⟩
        · exact Nat.succ_le_succ hle
        · simp only [List.length_cons]
          omega
      obtain ⟨m₁, m₂, rfl, h₁, h₂⟩ := ih rfl hfree'
      exact ⟨b :: m₁, m₂, rfl, .keep b h₁, h₂⟩
  | @hide s hs l m h ih =>
    have hle : s.length ≤ u.length := by
      by_contra hlt
      exact hfree ⟨s, hs, [], l, rfl, Nat.zero_le _, by rw [List.length_nil]; omega⟩
    obtain ⟨u', rfl⟩ : s <+: u :=
      List.prefix_of_prefix_length_le (List.prefix_append s l) (hl ▸ List.prefix_append u _) hle
    rw [List.append_assoc] at hl
    have hfree' : ¬ Covered words l u'.length := by
      rintro ⟨s', hs', x, y, rfl, hle', hlt⟩
      refine hfree ⟨s', hs', s ++ x, y, by rw [List.append_assoc], ?_, ?_⟩
      · rw [List.length_append, List.length_append]
        omega
      · rw [List.length_append, List.length_append]
        omega
    obtain ⟨m₁, m₂, rfl, h₁, h₂⟩ := ih (List.append_cancel_left hl) hfree'
    exact ⟨mask ++ m₁, m₂, (List.append_assoc _ _ _).symm, .hide hs h₁, h₂⟩

/-- No occurrence starts among stars. -/
theorem not_prefix_stars (hne : s ≠ []) (hs : star ∉ s) {u w : List α} (hu : u ≠ [])
    (hall : ∀ a ∈ u, a = star) : ¬ s <+: u ++ w := by
  rintro ⟨v, hv⟩
  obtain ⟨a, t, rfl⟩ := List.exists_cons_of_ne_nil hne
  obtain ⟨b, u, rfl⟩ := List.exists_cons_of_ne_nil hu
  have hab : a = star := (List.cons.inj hv).1.trans (hall b (by simp))
  exact hs (hab ▸ List.mem_cons_self)

theorem not_infix_stars_append (hne : s ≠ []) (hs : star ∉ s) {u w : List α}
    (hall : ∀ a ∈ u, a = star) (hw : ¬ s <:+: w) : ¬ s <:+: u ++ w := by
  induction u with
  | nil => exact hw
  | cons a u ih =>
    intro h
    rcases List.infix_cons_iff.mp h with hp | hin
    · exact not_prefix_stars hne hs (List.cons_ne_nil a u) hall hp
    · exact ih (fun b hb => hall b (List.mem_cons_of_mem a hb)) hin

theorem Masked.star_mem (hstars : Stars star mask words) (h : Masked mask words l m)
    (hl : star ∈ l) : star ∈ m := by
  by_contra hm
  rw [h.eq_of_notMem hstars hm] at hm
  exact hm hl

end

/-! ## Leftmost occurrences -/

section
variable [DecidableEq α] {star : α} {mask s : List α}

/-- The list with the leftmost occurrences of `s` masked; `skip` entries of the current occurrence
are still to be passed. -/
def maskFrom (mask s : List α) : ℕ → List α → List α
  | _, [] => []
  | skip + 1, _ :: l => maskFrom mask s skip l
  | 0, a :: l =>
      if s.isPrefixOf (a :: l) then mask ++ maskFrom mask s (s.length - 1) l
      else a :: maskFrom mask s 0 l

def maskOut (mask s l : List α) : List α := maskFrom mask s 0 l

theorem maskFrom_append (u w : List α) : maskFrom mask s u.length (u ++ w) = maskFrom mask s 0 w := by
  induction u with
  | nil => rfl
  | cons a u ih => exact ih

theorem maskOut_append (hs : s ≠ []) (w : List α) :
    maskOut mask s (s ++ w) = mask ++ maskOut mask s w := by
  obtain ⟨a, u, rfl⟩ := List.exists_cons_of_ne_nil hs
  have hstarts : (a :: u).isPrefixOf (a :: (u ++ w)) = true :=
    List.isPrefixOf_iff_prefix.mpr ⟨w, rfl⟩
  rw [maskOut, List.cons_append, maskFrom, if_pos hstarts]
  exact congrArg (mask ++ ·) (maskFrom_append u w)

theorem maskOut_cons {a : α} {l : List α} (h : ¬ s <+: a :: l) :
    maskOut mask s (a :: l) = a :: maskOut mask s l := by
  rw [maskOut, maskFrom, if_neg fun hp => h (List.isPrefixOf_iff_prefix.mp hp)]
  rfl

/-- Induction along the leftmost occurrences of a word. -/
theorem occurrences {P : List α → Prop} (hs : s ≠ []) (hnil : P [])
    (hhide : ∀ l, P l → P (s ++ l)) (hkeep : ∀ a l, ¬ s <+: a :: l → P l → P (a :: l)) (l : List α) :
    P l := by
  induction hn : l.length using Nat.strong_induction_on generalizing l with
  | _ n ih =>
    cases l with
    | nil => exact hnil
    | cons a l =>
      by_cases hp : s <+: a :: l
      · obtain ⟨w, hw⟩ := hp
        have hlen : w.length < n := by
          have hpos := List.length_pos_of_ne_nil hs
          have heq := congrArg List.length hw
          rw [List.length_append] at heq
          omega
        rw [← hw]
        exact hhide w (ih w.length hlen w rfl)
      · have hlen : l.length < n := by
          rw [← hn]
          exact Nat.lt_succ_self _
        exact hkeep a l hp (ih l.length hlen l rfl)

theorem masked_maskOut {words : List (List α)} (hs : s ≠ []) (hmem : s ∈ words) (l : List α) :
    Masked mask words l (maskOut mask s l) := by
  induction l using occurrences hs with
  | hnil => exact .nil
  | hhide l ih =>
    rw [maskOut_append hs]
    exact .hide hmem ih
  | hkeep a l hp ih =>
    rw [maskOut_cons hp]
    exact .keep a ih

/-- Where no occurrence starts, nothing is masked. -/
theorem maskOut_append_of_not {u w : List α} (h : ∀ r, r ≠ [] → r <:+ u → ¬ s <+: r ++ w) :
    maskOut mask s (u ++ w) = u ++ maskOut mask s w := by
  induction u with
  | nil => rfl
  | cons a u ih =>
    have hcons : ¬ s <+: a :: (u ++ w) := h (a :: u) (List.cons_ne_nil a u) (List.suffix_refl _)
    rw [List.cons_append, maskOut_cons hcons, List.cons_append,
      ih fun r hr hsuffix => h r hr (hsuffix.trans (List.suffix_cons a u))]

theorem maskOut_of_absent {l : List α} (h : ¬ s <:+: l) : maskOut mask s l = l := by
  induction l with
  | nil => rfl
  | cons a l ih =>
    rw [maskOut_cons fun hp => h hp.isInfix,
      ih fun hin => h (hin.trans (List.infix_cons (List.infix_refl l)))]

theorem maskOut_stars (hne : s ≠ []) (hs : star ∉ s) {u : List α} (hall : ∀ a ∈ u, a = star)
    (w : List α) : maskOut mask s (u ++ w) = u ++ maskOut mask s w := by
  refine maskOut_append_of_not fun r hr hsuffix => not_prefix_stars hne hs hr fun a ha => ?_
  exact hall a (hsuffix.subset ha)

/-- What is masked out does not occur any more. -/
theorem not_infix_maskOut (hstars : Stars star mask [s]) (l : List α) :
    ¬ s <:+: maskOut mask s l := by
  obtain ⟨hne, hs⟩ := hstars.words s (by simp)
  induction l using occurrences hne with
  | hnil =>
    intro h
    exact hne (List.infix_nil.mp h)
  | hhide l ih =>
    rw [maskOut_append hne]
    exact not_infix_stars_append hne hs hstars.mask.2 ih
  | hkeep a l hp ih =>
    rw [maskOut_cons hp]
    intro h
    rcases List.infix_cons_iff.mp h with h | h
    · have hmasked : Masked mask [s] (a :: l) (a :: maskOut mask s l) :=
        .keep a (masked_maskOut hne (by simp) l)
      obtain ⟨w, hw⟩ := h
      obtain ⟨l', hl', -⟩ := Masked.strip hstars hs (hw ▸ hmasked)
      exact hp ⟨l', hl'.symm⟩
    · exact ih h

/-- The end of a list may be masked before more is appended. -/
theorem maskOut_maskOut_append (hstars : Stars star mask [s]) (l w : List α) :
    maskOut mask s (maskOut mask s l ++ w) = maskOut mask s (l ++ w) := by
  obtain ⟨hne, hs⟩ := hstars.words s (by simp)
  induction l using occurrences hne with
  | hnil => rfl
  | hhide l ih =>
    rw [maskOut_append hne, List.append_assoc, maskOut_stars hne hs hstars.mask.2, ih,
      List.append_assoc, maskOut_append hne]
  | hkeep a l hp ih =>
    rw [maskOut_cons hp]
    by_cases hcross : s <+: a :: (l ++ w)
    · -- The occurrence ends behind `a :: l`, so there is no room for one inside `l`.
      have hlen : ¬ s.length ≤ (a :: l).length := by
        intro hle
        exact hp (List.prefix_of_prefix_length_le hcross (List.prefix_append (a :: l) w) hle)
      have hnone : ¬ s <:+: l := by
        intro hin
        have := hin.length_le
        rw [List.length_cons] at hlen
        omega
      rw [maskOut_of_absent hnone]
    · have hmasked : Masked mask [s] (a :: (l ++ w)) (a :: (maskOut mask s l ++ w)) :=
        .keep a ((masked_maskOut hne (by simp) l).append (masked_refl w))
      have hcross' : ¬ s <+: a :: (maskOut mask s l ++ w) := by
        rintro ⟨v, hv⟩
        obtain ⟨l', hl', -⟩ := Masked.strip hstars hs (hv ▸ hmasked)
        exact hcross ⟨l', hl'.symm⟩
      rw [List.cons_append, maskOut_cons hcross', ih, List.cons_append, maskOut_cons hcross]

/-! ## Several words -/

/-- One word is masked after the other. -/
def maskAll (mask : List α) (words : List (List α)) (l : List α) : List α :=
  words.foldl (fun l s => maskOut mask s l) l

theorem masked_maskAll {some words : List (List α)} (hstars : Stars star mask words)
    (hsub : some ⊆ words) (l : List α) : Masked mask words l (maskAll mask some l) := by
  induction some generalizing l with
  | nil => exact masked_refl l
  | cons s some ih =>
    have hs : s ∈ words := hsub List.mem_cons_self
    have hfirst : Masked mask words l (maskOut mask s l) :=
      masked_maskOut (hstars.words s hs).1 hs l
    exact hfirst.trans hstars (ih (fun t ht => hsub (List.mem_cons_of_mem s ht)) _)

theorem not_infix_maskAll {words : List (List α)} (hstars : Stars star mask words) (l : List α) :
    ∀ s ∈ words, ¬ s <:+: maskAll mask words l := by
  induction words generalizing l with
  | nil => simp
  | cons t words ih =>
    have hrest : Stars star mask words := hstars.mono (List.subset_cons_self t words)
    have ht : Stars star mask [t] := hstars.mono (by simp)
    intro s hs
    rcases List.mem_cons.mp hs with rfl | hs
    · obtain ⟨hne, hstar⟩ := ht.words s (by simp)
      have hmasked := masked_maskAll hrest (List.Subset.refl words) (maskOut mask s l)
      intro h
      exact not_infix_maskOut ht l (hmasked.reflects hrest hne hstar h)
    · exact ih hrest (maskOut mask t l) s hs

end

/-! ## A stream in pieces -/

section
variable {star : α} {mask : List α} {words : List (List α)} {room : ℕ} {stream out held : List α}

/-- What was let out of a stream and what is held back of it: no word is in them, and what is held
has the rest of each word that may have begun before. -/
structure Parted (star : α) (mask : List α) (words : List (List α)) (room : ℕ)
    (stream out held : List α) : Prop where
  masked : Masked mask words stream (out ++ held)
  clean : ∀ s ∈ words, ¬ s <:+: out ++ held
  room : out = [] ∨ star ∈ held ∨ room ≤ held.length

/-- A word that begins in what was let out ends there too, or it was seen. -/
theorem Parted.not_crossing (hstars : Stars star mask words)
    (h : Parted star mask words room stream out held)
    (hroom : ∀ s ∈ words, s.length ≤ room + 1) {t₁ t₂ w : List α} (hne : t₁ ≠ [])
    (h₁ : t₁ <:+ out) (h₂ : t₂ <+: held ++ w) : t₁ ++ t₂ ∉ words := by
  intro hs
  have hshort : t₂ <+: held := by
    by_cases hle : t₂.length ≤ held.length
    · exact List.prefix_of_prefix_length_le h₂ (List.prefix_append held w) hle
    · have hheld : held <+: t₂ :=
        List.prefix_of_prefix_length_le (List.prefix_append held w) h₂ (by omega)
      rcases h.room with hnil | hstar | hlong
      · rw [hnil] at h₁
        exact (hne (List.suffix_nil.mp h₁)).elim
      · have hmem : star ∈ t₁ ++ t₂ := List.mem_append_right t₁ (hheld.subset hstar)
        exact ((hstars.words _ hs).2 hmem).elim
      · have hlen := hroom _ hs
        rw [List.length_append] at hlen
        have hpos := List.length_pos_of_ne_nil hne
        omega
  obtain ⟨u, rfl⟩ := h₁
  obtain ⟨v, rfl⟩ := hshort
  exact h.clean _ hs ⟨u, v, by simp only [List.append_assoc]⟩

variable [DecidableEq α]

theorem Parted.masked_append (hstars : Stars star mask words)
    (h : Parted star mask words room stream out held) (chunk : List α) :
    Masked mask words (stream ++ chunk) (out ++ maskAll mask words (held ++ chunk)) := by
  have hnow : Masked mask words (stream ++ chunk) (out ++ (held ++ chunk)) := by
    rw [← List.append_assoc]
    exact h.masked.append (masked_refl chunk)
  have hend := masked_maskAll hstars (List.Subset.refl words) (held ++ chunk)
  exact hnow.trans hstars ((masked_refl out).append hend)

theorem Parted.clean_append (hstars : Stars star mask words)
    (h : Parted star mask words room stream out held)
    (hroom : ∀ s ∈ words, s.length ≤ room + 1) (chunk : List α) :
    ∀ s ∈ words, ¬ s <:+: out ++ maskAll mask words (held ++ chunk) := by
  intro s hs hin
  rcases List.infix_append_iff_ne_nil.mp hin with hout | hrest |
    ⟨t₁, t₂, hne, -, rfl, h₁, h₂⟩
  · exact h.clean s hs (hout.trans (List.prefix_append out held).isInfix)
  · exact not_infix_maskAll hstars _ s hs hrest
  · have hmasked := masked_maskAll hstars (List.Subset.refl words) (held ++ chunk)
    have hstar : star ∉ t₂ := fun hmem =>
      (hstars.words _ hs).2 (List.mem_append_right t₁ hmem)
    obtain ⟨w, hw⟩ := h₂
    obtain ⟨l', hl', -⟩ := Masked.strip hstars hstar (hw ▸ hmasked)
    obtain ⟨w', hw'⟩ : t₂ <+: held ++ chunk := ⟨l', hl'.symm⟩
    exact h.not_crossing hstars hroom hne h₁ ⟨w', hw'⟩ hs

/-- All but the last `room` entries may be let out. -/
theorem Parted.push (hstars : Stars star mask words)
    (h : Parted star mask words room stream out held)
    (hroom : ∀ s ∈ words, s.length ≤ room + 1) (chunk : List α) {all : List α}
    (hall : all = maskAll mask words (held ++ chunk)) :
    Parted star mask words room (stream ++ chunk)
      (out ++ all.take (all.length - min room all.length))
      (all.drop (all.length - min room all.length)) := by
  have hjoin : out ++ all.take (all.length - min room all.length) ++
      all.drop (all.length - min room all.length) = out ++ all := by
    rw [List.append_assoc, List.take_append_drop]
  refine ⟨?_, ?_, ?_⟩
  · rw [hjoin, hall]
    exact h.masked_append hstars chunk
  · rw [hjoin, hall]
    exact h.clean_append hstars hroom chunk
  · by_cases hle : all.length ≤ room
    · -- Nothing is let out, and all that was scrubbed is held.
      rw [Nat.min_eq_right hle, Nat.sub_self, List.take_zero, List.append_nil, List.drop_zero]
      have hmasked := masked_maskAll hstars (List.Subset.refl words) (held ++ chunk)
      rw [← hall] at hmasked
      rcases h.room with hnil | hstar | hlong
      · exact .inl hnil
      · exact .inr (.inl (hmasked.star_mem hstars (List.mem_append_left chunk hstar)))
      · by_cases hstar : star ∈ all
        · exact .inr (.inl hstar)
        · rw [hmasked.eq_of_notMem hstars hstar, List.length_append]
          exact .inr (.inr (by omega))
    · refine .inr (.inr ?_)
      rw [List.length_drop]
      omega

/-- For one word, the pieces are what masking the whole stream gives. -/
theorem Parted.whole_append {s : List α} (hstars : Stars star mask [s])
    (h : Parted star mask [s] room stream out held) (hroom : s.length ≤ room + 1)
    (hwhole : out ++ held = maskOut mask s stream) (chunk : List α) :
    out ++ maskOut mask s (held ++ chunk) = maskOut mask s (stream ++ chunk) := by
  have hnone : ∀ r, r ≠ [] → r <:+ out → ¬ s <+: r ++ (held ++ chunk) := by
    intro r hr hsuffix hp
    obtain ⟨v, hv⟩ := hp
    rcases List.append_eq_append_iff.mp hv with ⟨t, rfl, -⟩ | ⟨t, rfl, ht⟩
    · refine h.clean s (by simp) ?_
      have hin : s <:+: out := (List.prefix_append s t).isInfix.trans hsuffix.isInfix
      exact hin.trans (List.prefix_append out held).isInfix
    · exact h.not_crossing hstars (by simpa using hroom) hr hsuffix ⟨v, ht.symm⟩ (by simp)
  rw [← maskOut_append_of_not hnone, ← List.append_assoc, hwhole, maskOut_maskOut_append hstars]

end

end Prgd.Masking
