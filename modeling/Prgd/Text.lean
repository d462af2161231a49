import Mathlib

/-!
# Text

A JavaScript string is read as the list of its code points. Lone surrogates
are left out: no UTF-8 request body and no database text column carries one.
`length16` is the `length` property, which counts UTF-16 units. White space is
the class `\s` of regular expressions, which is also what `trim` removes.

`split` and `join` follow `String.prototype.split` with a nonempty separator
and `Array.prototype.join`. The second half of the module is about replacing
every occurrence of a word by a marker: when no word overlaps the marker, the
result has no occurrence of the word and gains no occurrence of any other.
-/
namespace Prgd

abbrev Text := List Char

instance : LawfulBEq Text := inferInstanceAs (LawfulBEq (List Char))

namespace Text

/-- White space and line terminators of the language. -/
def isSpace (c : Char) : Bool :=
  let n := c.toNat
  n == 32 || (9 ≤ n && n ≤ 13) || n == 0xa0 || n == 0x1680 || (0x2000 ≤ n && n ≤ 0x200a) ||
    n == 0x2028 || n == 0x2029 || n == 0x202f || n == 0x205f || n == 0x3000 || n == 0xfeff

def isDigit (c : Char) : Bool := '0' ≤ c && c ≤ '9'
def isUpper (c : Char) : Bool := 'A' ≤ c && c ≤ 'Z'
def isLower (c : Char) : Bool := 'a' ≤ c && c ≤ 'z'
def isLetter (c : Char) : Bool := isUpper c || isLower c

/-- The class `\w`. -/
def isWord (c : Char) : Bool := isLetter c || isDigit c || c == '_'

def trimStart (s : Text) : Text := s.dropWhile isSpace
def trimEnd (s : Text) : Text := (s.reverse.dropWhile isSpace).reverse
def trim (s : Text) : Text := trimEnd (trimStart s)

/-- The UTF-16 units of a character. -/
def units16 (c : Char) : List ℕ :=
  if c.toNat < 0x10000 then [c.toNat]
  else [0xd800 + (c.toNat - 0x10000) / 0x400, 0xdc00 + (c.toNat - 0x10000) % 0x400]

/-- The number of UTF-16 units. -/
def length16 (s : Text) : ℕ := (s.map fun c => if c.toNat < 0x10000 then 1 else 2).sum

/-- `a < b` on strings: the order of their UTF-16 units. -/
def lt16 (a b : Text) : Bool := decide (a.flatMap units16 < b.flatMap units16)

def startsWith (s p : Text) : Bool := p.isPrefixOf s
def endsWith (s p : Text) : Bool := p.isSuffixOf s

/-- Lower case on the ASCII letters. -/
def asciiLower (s : Text) : Text :=
  s.map fun c => if isUpper c then Char.ofNat (c.toNat + 32) else c

/-- The text before and after the first occurrence of `sub`. -/
def breakOn (sub : Text) : Text → Option (Text × Text)
  | [] => if sub = [] then some ([], []) else none
  | c :: cs =>
      if sub.isPrefixOf (c :: cs) then some ([], (c :: cs).drop sub.length)
      else (breakOn sub cs).map fun r => (c :: r.1, r.2)

/-- The value of a run of decimal digits. -/
def digitsValue (s : Text) : ℕ := s.foldl (fun n c => 10 * n + (c.toNat - 48)) 0

/-- Occurrence as a contiguous part, as `includes` reports it. -/
def includes (s v : Text) : Bool := decide (v <:+: s)

/-- The pieces between leftmost occurrences; `skip` characters of the current
occurrence are still to be passed. -/
def pieces (v : Text) : ℕ → Text → List Text
  | _, [] => [[]]
  | skip + 1, _ :: cs => pieces v skip cs
  | 0, c :: cs =>
      if v.isPrefixOf (c :: cs) then [] :: pieces v (v.length - 1) cs
      else match pieces v 0 cs with
        | [] => [[c]]
        | p :: ps => (c :: p) :: ps

@[simp] theorem pieces_nil (v : Text) (skip : ℕ) : pieces v skip [] = [[]] := by
  cases skip <;> rfl

theorem pieces_succ (v : Text) (skip : ℕ) (c : Char) (cs : Text) :
    pieces v (skip + 1) (c :: cs) = pieces v skip cs := rfl

theorem pieces_zero (v : Text) (c : Char) (cs : Text) :
    pieces v 0 (c :: cs) =
      if v.isPrefixOf (c :: cs) then [] :: pieces v (v.length - 1) cs
      else match pieces v 0 cs with
        | [] => [[c]]
        | p :: ps => (c :: p) :: ps := rfl

def split (s v : Text) : List Text := pieces v 0 s

theorem split_eq (s v : Text) : split s v = pieces v 0 s := rfl

/-- The maximal parts without white space, `trim().split(/\s+/)` of a text that
has any. -/
def words (s : Text) : List Text :=
  match s with
  | [] => []
  | c :: cs =>
      if isSpace c then words cs
      else match cs with
        | [] => [[c]]
        | d :: _ =>
            if isSpace d then [c] :: words cs
            else match words cs with
              | [] => [[c]]
              | w :: ws => (c :: w) :: ws

/-- `Array.prototype.join`. -/
def join (sep : Text) : List Text → Text
  | [] => []
  | [p] => p
  | p :: q :: ps => p ++ sep ++ join sep (q :: ps)

@[simp] theorem join_nil (sep : Text) : join sep [] = [] := rfl

@[simp] theorem join_singleton (sep p : Text) : join sep [p] = p := rfl

theorem join_cons_cons (sep p q : Text) (ps : List Text) :
    join sep (p :: q :: ps) = p ++ sep ++ join sep (q :: ps) := rfl

/-- The characters outside of ASCII whose upper case is ASCII. -/
def upperSpecial : List (Char × Text) :=
  [('ß', ['S', 'S']), ('ı', ['I']), ('ſ', ['S']), ('ﬀ', ['F', 'F']), ('ﬁ', ['F', 'I']),
    ('ﬂ', ['F', 'L']), ('ﬃ', ['F', 'F', 'I']), ('ﬄ', ['F', 'F', 'L']), ('ﬅ', ['S', 'T']),
    ('ﬆ', ['S', 'T'])]

/-- `toUpperCase` as far as its result is ASCII: every other character is, and
its upper case has, a character outside of ASCII. -/
def upperChar (c : Char) : Text :=
  if isLower c then [Char.ofNat (c.toNat - 32)] else (upperSpecial.lookup c).getD [c]

def toUpperCase (s : Text) : Text := s.flatMap upperChar

/-- The class `\d+` on a whole text. -/
def isDigits (s : Text) : Bool := !s.isEmpty && s.all isDigit

/-! ## Replacing every occurrence by a marker -/

/-- Some placement of the two texts shares characters. -/
def Overlaps (w m : Text) : Prop :=
  w <:+: m ∨ m <:+: w ∨ (∃ p ∈ w.tails, p ≠ [] ∧ p <+: m) ∨ ∃ p ∈ w.inits, p ≠ [] ∧ p <:+ m

instance (w m : Text) : Decidable (Overlaps w m) := by
  unfold Overlaps
  infer_instance

/-- A word that does not overlap the marker lies wholly before or after it. -/
theorem infix_of_not_overlaps {w m x y : Text} (hw : ¬ Overlaps w m)
    (h : w <:+: x ++ (m ++ y)) : w <:+: x ∨ w <:+: y := by
  obtain ⟨a, b, hab⟩ := h
  rw [List.append_assoc] at hab
  rcases List.append_eq_append_iff.mp hab with ⟨c, rfl, hc⟩ | ⟨c, rfl, hc⟩
  · -- the word starts inside `x`
    rcases List.append_eq_append_iff.mp hc with ⟨d, rfl, hd⟩ | ⟨d, rfl, hd⟩
    · exact .inl ⟨a, d, by simp⟩
    · by_cases hnil : d = []
      · exact .inl ⟨a, [], by simp [hnil]⟩
      · refine (hw ?_).elim
        rcases List.append_eq_append_iff.mp hd with ⟨e, rfl, -⟩ | ⟨e, rfl, -⟩
        · exact .inr (.inl ⟨c, e, by simp⟩)
        · exact .inr (.inr (.inl
            ⟨d, (List.mem_tails _ _).mpr (List.suffix_append c d), hnil, List.prefix_append d e⟩))
  · -- the word starts inside the marker or behind it
    rcases List.append_eq_append_iff.mp hc with ⟨d, rfl, rfl⟩ | ⟨d, rfl, hd⟩
    · exact .inr ⟨d, b, by simp⟩
    · by_cases hnil : d = []
      · exact .inr ⟨[], b, by simpa [hnil] using hd⟩
      · refine (hw ?_).elim
        rcases List.append_eq_append_iff.mp hd with ⟨e, rfl, -⟩ | ⟨e, rfl, -⟩
        · exact .inl ⟨c, e, by simp⟩
        · exact .inr (.inr (.inr
            ⟨d, (List.mem_inits _ _).mpr (List.prefix_append d e), hnil, List.suffix_append c d⟩))

theorem not_infix_join {w m : Text} (hw : ¬ Overlaps w m) {ps : List Text}
    (hps : ∀ p ∈ ps, ¬ w <:+: p) (hne : w ≠ []) : ¬ w <:+: join m ps := by
  induction ps with
  | nil => simpa using hne
  | cons p ps ih =>
    cases ps with
    | nil => simpa using hps p
    | cons q qs =>
      intro h
      rw [join_cons_cons, List.append_assoc] at h
      rcases infix_of_not_overlaps hw h with h | h
      · exact hps p (by simp) h
      · exact ih (fun r hr => hps r (List.mem_cons_of_mem p hr)) h

/-- The first piece starts the text and every piece is a part of it. -/
theorem pieces_spec (v : Text) (skip : ℕ) (s : Text) :
    ∃ p ps, pieces v skip s = p :: ps ∧ (skip = 0 → p <+: s) ∧ ∀ q ∈ p :: ps, q <:+: s := by
  induction s generalizing skip with
  | nil => exact ⟨[], [], by cases skip <;> rfl, by simp, by simp⟩
  | cons c cs ih =>
    cases skip with
    | succ skip =>
      obtain ⟨p, ps, heq, -, hall⟩ := ih skip
      exact ⟨p, ps, heq, by simp, fun q hq => (hall q hq).trans (List.suffix_cons c cs).isInfix⟩
    | zero =>
      by_cases hv : v.isPrefixOf (c :: cs)
      · obtain ⟨p, ps, heq, -, hall⟩ := ih (v.length - 1)
        refine ⟨[], p :: ps, by simp [pieces_zero, hv, heq], by simp, fun q hq => ?_⟩
        rcases List.mem_cons.mp hq with rfl | hq
        · exact List.nil_infix
        · exact (hall q hq).trans (List.suffix_cons c cs).isInfix
      · obtain ⟨p, ps, heq, hpre, hall⟩ := ih 0
        have hcp : c :: p <+: c :: cs := (List.cons_prefix_cons).mpr ⟨rfl, hpre rfl⟩
        refine ⟨c :: p, ps, by simp [pieces_zero, hv, heq], fun _ => hcp, fun q hq => ?_⟩
        rcases List.mem_cons.mp hq with rfl | hq
        · exact hcp.isInfix
        · exact (hall q (List.mem_cons_of_mem p hq)).trans (List.suffix_cons c cs).isInfix

/-- A text without occurrences is one piece. -/
theorem eq_of_pieces_singleton {v s p : Text} (h : pieces v 0 s = [p]) : p = s := by
  induction s generalizing p with
  | nil => exact (List.singleton_inj.mp h).symm
  | cons c cs ih =>
    rw [pieces_zero] at h
    split_ifs at h
    · obtain ⟨q, qs, heq, -, -⟩ := pieces_spec v (v.length - 1) cs
      rw [heq] at h
      simp at h
    · obtain ⟨q, qs, heq, -, -⟩ := pieces_spec v 0 cs
      rw [heq] at h
      obtain ⟨rfl, rfl⟩ := List.cons.inj h
      rw [ih heq]

/-- No piece contains the separator. -/
theorem not_infix_of_mem_pieces {v : Text} (hv : v ≠ []) (skip : ℕ) (s : Text) :
    ∀ p ∈ pieces v skip s, ¬ v <:+: p := by
  induction s generalizing skip with
  | nil => simpa using hv
  | cons c cs ih =>
    cases skip with
    | succ skip => exact ih skip
    | zero =>
      by_cases hpre : v.isPrefixOf (c :: cs)
      · intro p hp
        simp only [pieces_zero, hpre, ite_true, List.mem_cons] at hp
        rcases hp with rfl | hp
        · simpa using hv
        · exact ih _ p hp
      · obtain ⟨p, ps, heq, hp, -⟩ := pieces_spec v 0 cs
        intro q hq
        simp only [pieces_zero, hpre, heq, Bool.false_eq_true, ite_false, List.mem_cons] at hq
        rcases hq with rfl | hq
        · -- an occurrence at the new head would be a prefix of the whole text
          intro hin
          rcases List.infix_cons_iff.mp hin with hin | hin
          · apply hpre
            rw [List.isPrefixOf_iff_prefix]
            exact hin.trans (List.cons_prefix_cons.mpr ⟨rfl, hp rfl⟩)
          · exact ih 0 p (by simp [heq]) hin
        · exact ih 0 q (by simp [heq, hq])

/-- The marker stands where a word was replaced. -/
theorem infix_join_split {v s : Text} (m : Text) (hv : v ≠ []) (h : v <:+: s) :
    m <:+: join m (split s v) := by
  obtain ⟨p, ps, heq, -, -⟩ := pieces_spec v 0 s
  rw [split_eq, heq]
  cases ps with
  | nil =>
    have hfree := not_infix_of_mem_pieces hv 0 s p (by simp [heq])
    rw [eq_of_pieces_singleton heq] at hfree
    exact absurd h hfree
  | cons q qs => exact ⟨p, join m (q :: qs), by simp [join_cons_cons]⟩

/-- Replacing one word brings back no other word. -/
theorem not_infix_join_split_of_not_infix {v w m : Text} (hw : w ≠ []) (hm : ¬ Overlaps w m)
    {s : Text} (hs : ¬ w <:+: s) : ¬ w <:+: join m (split s v) := by
  refine not_infix_join hm (fun p hp hin => ?_) hw
  obtain ⟨q, qs, heq, -, hall⟩ := pieces_spec v 0 s
  exact hs (hin.trans (hall p (heq ▸ hp)))

/-! ## Splitting at a character -/

theorem split_of_notMem {c : Char} {s : Text} (h : c ∉ s) : split s [c] = [s] := by
  induction s with
  | nil => rfl
  | cons d s ih =>
    have hd : c ≠ d := fun he => h (by simp [he])
    have hs := ih fun hm => h (List.mem_cons_of_mem d hm)
    simp only [split_eq] at hs
    simp [split_eq, pieces_zero, List.isPrefixOf, hd, hs]

theorem split_append {c : Char} {s : Text} (h : c ∉ s) (t : Text) :
    split (s ++ c :: t) [c] = s :: split t [c] := by
  induction s with
  | nil => simp [split_eq, pieces_zero, List.isPrefixOf]
  | cons d s ih =>
    have hd : c ≠ d := fun he => h (by simp [he])
    have hs := ih fun hm => h (List.mem_cons_of_mem d hm)
    simp only [split_eq] at hs
    simp [split_eq, pieces_zero, List.isPrefixOf, hd, hs]

/-- The first piece ends at the first separator. -/
theorem split_head (s : Text) (c : Char) :
    ∃ more, split s [c] = s.takeWhile (· ≠ c) :: more := by
  have hnot : c ∉ s.takeWhile (· ≠ c) := fun h => by
    simpa using List.all_eq_true.mp List.all_takeWhile c h
  cases hd : s.dropWhile (· ≠ c) with
  | nil =>
    have hs := List.takeWhile_append_dropWhile (p := (· ≠ c)) (l := s)
    rw [hd, List.append_nil] at hs
    exact ⟨[], by rw [hs]; exact split_of_notMem (hs ▸ hnot)⟩
  | cons d t =>
    have hs := List.takeWhile_append_dropWhile (p := (· ≠ c)) (l := s)
    have hdc : d = c := by
      have hhead := List.head_dropWhile_not (· ≠ c) (l := s) (by rw [hd]; nofun)
      simp only [hd, List.head_cons] at hhead
      simpa using hhead
    rw [hd, hdc] at hs
    refine ⟨split t [c], ?_⟩
    conv_lhs => rw [← hs]
    exact split_append hnot t

theorem trim_of_isSpace {s : Text} (h : ∀ c ∈ s, isSpace c = false) : trim s = s := by
  have hdrop : ∀ s : Text, (∀ c ∈ s, isSpace c = false) → s.dropWhile isSpace = s := by
    intro s hs
    cases s with
    | nil => rfl
    | cons c cs => rw [List.dropWhile_cons, hs c List.mem_cons_self]; rfl
  rw [trim, trimStart, hdrop _ h, trimEnd, hdrop, List.reverse_reverse]
  intro c hc
  exact h c (List.mem_reverse.mp hc)

theorem split_ne_nil (s v : Text) : split s v ≠ [] := by
  obtain ⟨p, ps, heq, -, -⟩ := pieces_spec v 0 s
  simp [split_eq, heq]

theorem split_cons_self (c : Char) (s : Text) :
    split (c :: s) [c] = [] :: split s [c] := by
  simp [split_eq, pieces_zero, List.isPrefixOf]

theorem split_cons_of_ne {c d : Char} (h : c ≠ d) (s : Text) :
    ∃ q qs, split s [c] = q :: qs ∧ split (d :: s) [c] = (d :: q) :: qs := by
  obtain ⟨q, qs, heq⟩ := List.exists_cons_of_ne_nil (split_ne_nil s [c])
  refine ⟨q, qs, heq, ?_⟩
  rw [split_eq] at heq
  rw [split_eq, pieces_zero, if_neg (by simp [List.isPrefixOf, h]), heq]

/-- A character stands in one of the pieces, or separates them. -/
theorem mem_split (c : Char) {e : Char} {s : Text} (h : e ∈ s) :
    e = c ∨ ∃ p ∈ split s [c], e ∈ p := by
  induction s with
  | nil => cases h
  | cons d s ih =>
    by_cases hd : c = d
    · subst hd
      rw [split_cons_self]
      rcases List.mem_cons.mp h with rfl | h
      · exact .inl rfl
      · exact (ih h).imp id fun ⟨p, hp, he⟩ => ⟨p, List.mem_cons_of_mem _ hp, he⟩
    · obtain ⟨q, qs, hs, hds⟩ := split_cons_of_ne hd s
      rw [hs] at ih
      rw [hds]
      rcases List.mem_cons.mp h with rfl | h
      · exact .inr ⟨_, List.mem_cons_self, List.mem_cons_self⟩
      · rcases ih h with rfl | ⟨p, hp, he⟩
        · exact .inl rfl
        · rcases List.mem_cons.mp hp with rfl | hp
          · exact .inr ⟨_, List.mem_cons_self, List.mem_cons_of_mem d he⟩
          · exact .inr ⟨p, List.mem_cons_of_mem _ hp, he⟩

theorem join_split (c : Char) (s : Text) : join [c] (split s [c]) = s := by
  induction s with
  | nil => rfl
  | cons d s ih =>
    obtain ⟨p, ps, hp⟩ := List.exists_cons_of_ne_nil (split_ne_nil s [c])
    by_cases hd : c = d
    · subst hd
      rw [split_cons_self, hp, join, ← hp, ih]
      rfl
    · obtain ⟨q, qs, hs, hds⟩ := split_cons_of_ne hd s
      rw [hs] at ih
      rw [hds]
      cases qs with
      | nil => exact congrArg (d :: ·) ih
      | cons r qs => exact congrArg (d :: ·) ih

theorem split_join {c : Char} {ps : List Text} (hne : ps ≠ []) (h : ∀ p ∈ ps, c ∉ p) :
    split (join [c] ps) [c] = ps := by
  induction ps with
  | nil => exact (hne rfl).elim
  | cons p ps ih =>
    cases ps with
    | nil => exact split_of_notMem (h p (by simp))
    | cons q ps =>
      rw [join, List.append_assoc]
      rw [show [c] ++ join [c] (q :: ps) = c :: join [c] (q :: ps) from rfl,
        split_append (h p (by simp)),
        ih (by simp) fun p' hp' => h p' (List.mem_cons_of_mem p hp')]

end Text
end Prgd
