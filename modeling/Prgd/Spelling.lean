import Prgd.Grammar
import Mathlib.Data.List.Find

/-!
# The text of a condition

How the tokens of a condition are written: numbers as the tokenizer's regular expression has
them, strings in either quotes with escapes, references in braces or as a bare path, and the
operators `&&`, `||`, `!` also as words. White space may stand between tokens. The tokenizer reads
every text of a list of tokens back as this list, so the parser reads every text of a tree back as
the tree; and every text it accepts is one of a phrase of the grammar.
-/
namespace Prgd.Spelling
open Expression Grammar

/-! ## Spellings -/

inductive Mantissa : Text → Prop where
  | whole {w : Text} : Text.isDigits w = true → Mantissa w
  | decimal {w f : Text} : Text.isDigits w = true → Text.isDigits f = true →
      Mantissa (w ++ '.' :: f)
  | fraction {f : Text} : Text.isDigits f = true → Mantissa ('.' :: f)

inductive Exponent : Text → Prop where
  | none : Exponent []
  | some {e : Char} {sign ds : Text} : e = 'e' ∨ e = 'E' →
      sign = [] ∨ sign = ['+'] ∨ sign = ['-'] → Text.isDigits ds = true →
      Exponent (e :: sign ++ ds)

/-- `-?(\d+(\.\d+)?|\.\d+)([eE][+-]?\d+)?` -/
inductive Numeral : Text → Prop where
  | intro {sign m x : Text} : sign = [] ∨ sign = ['-'] → Mantissa m → Exponent x →
      Numeral (sign ++ m ++ x)

/-- A backslash takes the next character as it is. -/
inductive Escaped (q : Char) : Text → Text → Prop where
  | nil : Escaped q [] []
  | plain {c : Char} {v body : Text} : c ≠ q → c ≠ '\\' → Escaped q v body →
      Escaped q (c :: v) (c :: body)
  | slash {c : Char} {v body : Text} : Escaped q v body → Escaped q (c :: v) ('\\' :: c :: body)

/-- A spelling of a token, with the characters that would be read as a part of it if one of
them came next. -/
inductive Writes : Tok → Text → (Char → Bool) → Prop where
  | lp : Writes .lp ['('] fun _ => false
  | rp : Writes .rp [')'] fun _ => false
  | ref {inner : Text} : ¬ ['\x7d', '\x7d'] <:+: inner ++ ['\x7d'] →
      Writes (.ref (Text.trim inner)) ('\x7b' :: '\x7b' :: inner ++ ['\x7d', '\x7d'])
        fun _ => false
  | str {q : Char} {v body : Text} : q = '"' ∨ q = '\'' → Escaped q v body →
      Writes (.str v) (q :: body ++ [q]) fun _ => false
  | num {s : Text} : Numeral s → Writes (.num (.ofText s)) s
      fun c => Text.isDigit c || c == '.' || c == 'e' || c == 'E'
  | op {o : Op} : o ∈ ops → Writes (.op o) o.text (· == '=')
  | word {c : Char} {cs : Text} : Template.isNameStart c = true → cs.all isWordPart = true →
      Writes (wordToken (c :: cs)) (c :: cs) isWordPart

/-- A text of a list of tokens. `P` says what may follow a token. -/
inductive Spells (P : (Char → Bool) → Text → Prop) : List Tok → Text → Prop where
  | nil {w : Text} : w.all Text.isSpace = true → Spells P [] w
  | cons {w s rest : Text} {t : Tok} {glue : Char → Bool} {ts : List Tok} :
      w.all Text.isSpace = true → Writes t s glue → P glue rest → Spells P ts rest →
      Spells P (t :: ts) (w ++ s ++ rest)

theorem Spells.blank {P : (Char → Bool) → Text → Prop} {ts : List Tok} {src : Text}
    (h : Spells P ts src) {c : Char} (hc : Text.isSpace c = true) : Spells P ts (c :: src) := by
  have hall : ∀ {w : Text}, w.all Text.isSpace = true → (c :: w).all Text.isSpace = true :=
    fun hw => by rw [List.all_cons, hc, hw]; rfl
  cases h with
  | nil hw => exact .nil (hall hw)
  | cons hw hs hP hts => exact .cons (hall hw) hs hP hts

/-- The next character does not belong to the token. -/
def Apart (glue : Char → Bool) (rest : Text) : Prop := ∀ c cs, rest = c :: cs → glue c = false

/-- White space between the tokens is never needed. -/
def Anyhow (_ : Char → Bool) (_ : Text) : Prop := True

/-! ## Numbers -/

theorem takeWhile_head {p : Char → Bool} {s : Text} (h : Apart p s) : s.takeWhile p = [] := by
  cases s with
  | nil => rfl
  | cons c cs => rw [List.takeWhile_cons, h c cs rfl]; rfl

theorem takeWhile_append {p : Char → Bool} {w s : Text} (hw : w.all p = true) (h : Apart p s) :
    (w ++ s).takeWhile p = w := by
  rw [List.takeWhile_append_of_pos (List.all_eq_true.mp hw), takeWhile_head h, List.append_nil]

theorem isDigits_iff {s : Text} : Text.isDigits s = true ↔ s ≠ [] ∧ s.all Text.isDigit = true := by
  cases s <;> simp [Text.isDigits]

/-- The characters that continue the digits of a number. -/
def digitGlue (c : Char) : Bool := Text.isDigit c || c == '.'

theorem apart_digit {s : Text} (h : Apart digitGlue s) : Apart Text.isDigit s := fun c cs hs =>
  (Bool.or_eq_false_iff.mp (h c cs hs)).1

theorem mantissa_append {m s : Text} (hm : Mantissa m) (hs : Apart digitGlue s) :
    mantissa (m ++ s) = m := by
  have hdigit := apart_digit hs
  cases hm with
  | whole hw =>
    rw [mantissa, takeWhile_append (isDigits_iff.mp hw).2 hdigit, List.drop_left]
    cases s with
    | nil => exact List.append_nil m
    | cons c cs =>
      have hc : c ≠ '.' := by
        rintro rfl
        exact absurd (hs '.' cs rfl) (by decide)
      dsimp only
      split
      next heq => exact absurd (List.cons.inj heq).1 hc
      next => exact List.append_nil m
  | @decimal w f hw hf =>
    have hdot : Apart Text.isDigit ('.' :: f ++ s) := by
      intro c cs hc
      cases hc
      decide
    have hfraction := takeWhile_append (isDigits_iff.mp hf).2 hdigit
    rw [List.append_assoc, mantissa, takeWhile_append (isDigits_iff.mp hw).2 hdot, List.drop_left]
    simp only [List.cons_append, hfraction, (isDigits_iff.mp hf).1, if_false]
  | @fraction f hf =>
    have hwhole : (('.' :: f) ++ s).takeWhile Text.isDigit = [] := rfl
    have hfraction := takeWhile_append (isDigits_iff.mp hf).2 hdigit
    rw [mantissa, hwhole]
    simp only [List.cons_append, List.length_nil, List.drop_zero, List.nil_append, hfraction,
      (isDigits_iff.mp hf).1, if_false]

theorem exponentPart_append {x s : Text} (hx : Exponent x)
    (hs : Apart (fun c => Text.isDigit c || c == 'e' || c == 'E') s) :
    exponentPart (x ++ s) = x := by
  have hdigit : Apart Text.isDigit s := fun c cs h => by
    have := hs c cs h
    simp only [Bool.or_eq_false_iff] at this
    exact this.1.1
  cases hx with
  | none =>
    cases s with
    | nil => rfl
    | cons c cs =>
      have hc := hs c cs rfl
      simp only [Bool.or_eq_false_iff, beq_eq_false_iff_ne] at hc
      rw [List.nil_append, exponentPart, if_neg (by simp [hc.1.2, hc.2])]
  | @some e sign ds he hsign hds =>
    have htake := takeWhile_append (isDigits_iff.mp hds).2 hdigit
    have hne := (isDigits_iff.mp hds).1
    rw [List.cons_append, List.cons_append, List.append_assoc, exponentPart, if_pos he]
    rcases hsign with rfl | rfl | rfl
    · have hplus : Text.startsWith (ds ++ s) ['+'] = false ∧
          Text.startsWith (ds ++ s) ['-'] = false := by
        obtain ⟨c, cs, rfl⟩ := List.exists_cons_of_ne_nil hne
        have hc : Text.isDigit c = true := by
          have := (isDigits_iff.mp hds).2
          simp only [List.all_cons, Bool.and_eq_true] at this
          exact this.1
        constructor
        all_goals
          simp only [Text.startsWith, List.cons_append, List.isPrefixOf_cons_cons,
            List.isPrefixOf_nil_left, Bool.and_true, beq_eq_false_iff_ne]
          rintro rfl
          exact absurd hc (by decide)
      simp only [List.nil_append, hplus, Bool.or_self, Bool.false_eq_true, if_false,
        List.length_nil, List.drop_zero, htake, hne]
      rfl
    · simp [Text.startsWith, htake, hne]
    · simp [Text.startsWith, htake, hne]

/-- The first character of a number. -/
theorem mantissa_head {m : Text} (hm : Mantissa m) :
    ∃ c cs, m = c :: cs ∧ (Text.isDigit c = true ∨ c = '.') := by
  have hhead : ∀ w : Text, Text.isDigits w = true → ∃ c cs, w = c :: cs ∧ Text.isDigit c = true := by
    intro w hw
    obtain ⟨hne, hall⟩ := isDigits_iff.mp hw
    obtain ⟨c, cs, rfl⟩ := List.exists_cons_of_ne_nil hne
    exact ⟨c, cs, rfl, List.all_eq_true.mp hall c List.mem_cons_self⟩
  cases hm with
  | whole hw =>
    obtain ⟨c, cs, rfl, hc⟩ := hhead _ hw
    exact ⟨c, cs, rfl, .inl hc⟩
  | decimal hw _ =>
    obtain ⟨c, cs, rfl, hc⟩ := hhead _ hw
    exact ⟨c, _, List.cons_append, .inl hc⟩
  | fraction _ => exact ⟨'.', _, rfl, .inr rfl⟩

theorem numberText_append {s rest : Text} (hs : Numeral s)
    (hrest : Apart (fun c => Text.isDigit c || c == '.' || c == 'e' || c == 'E') rest) :
    numberText (s ++ rest) = some s := by
  obtain @⟨sign, m, x, hsign, hm, hx⟩ := hs
  obtain ⟨c, cs, hcs, hc⟩ := mantissa_head hm
  have hne : m ≠ [] := hcs ▸ List.cons_ne_nil c cs
  have hglue : Apart digitGlue (x ++ rest) := by
    intro d ds hd
    cases hx with
    | none =>
      have := hrest d ds hd
      simp only [Bool.or_eq_false_iff] at this
      exact Bool.or_eq_false_iff.mpr this.1.1
    | some he _ _ =>
      obtain ⟨rfl, -⟩ := List.cons.inj hd
      rcases he with rfl | rfl <;> decide
  have hexp : exponentPart (x ++ rest) = x := exponentPart_append hx fun d ds hd => by
    have := hrest d ds hd
    simp only [Bool.or_eq_false_iff] at this ⊢
    exact ⟨⟨this.1.1.1, this.1.2⟩, this.2⟩
  have hsplit : sign ++ m ++ x ++ rest = sign ++ (m ++ (x ++ rest)) := by simp
  have hminus : (if Text.startsWith (sign ++ (m ++ (x ++ rest))) ['-'] then ['-'] else []) =
      sign := by
    rcases hsign with rfl | rfl
    · rw [hcs, if_neg]
      · simp only [Text.startsWith, List.nil_append, List.cons_append, List.isPrefixOf_cons_cons,
          List.isPrefixOf_nil_left, Bool.and_true, beq_iff_eq]
        rintro rfl
        rcases hc with hc | hc
        · exact absurd hc (by decide)
        · cases hc
    · rfl
  simp only [numberText, hsplit, hminus, List.drop_left, mantissa_append hm hglue, hne, if_false]
  rw [← List.drop_drop, List.drop_left, List.drop_left, hexp]

theorem isDigits_takeWhile {s : Text} (h : s.takeWhile Text.isDigit ≠ []) :
    Text.isDigits (s.takeWhile Text.isDigit) = true :=
  isDigits_iff.mpr ⟨h, List.all_takeWhile⟩

/-- A text is its longest run of such characters and the rest. -/
theorem exists_takeWhile (p : Char → Bool) (s : Text) :
    ∃ w r, s.takeWhile p = w ∧ s = w ++ r :=
  ⟨_, s.dropWhile p, rfl, List.takeWhile_append_dropWhile.symm⟩

theorem mantissa_dot {s w cs : Text} (hw : s.takeWhile Text.isDigit = w)
    (hs : s = w ++ '.' :: cs) : mantissa s =
      w ++ if cs.takeWhile Text.isDigit = [] then [] else '.' :: cs.takeWhile Text.isDigit := by
  have hdrop : s.drop w.length = '.' :: cs := by rw [hs, List.drop_left]
  simp only [mantissa, hw, hdrop]

theorem mantissa_other {s w r : Text} (hw : s.takeWhile Text.isDigit = w) (hs : s = w ++ r)
    (hr : ∀ cs, r ≠ '.' :: cs) : mantissa s = w := by
  have hdrop : s.drop w.length = r := by rw [hs, List.drop_left]
  simp only [mantissa, hw, hdrop]
  exact List.append_nil w

theorem mantissa_spec {s : Text} (h : mantissa s ≠ []) :
    Mantissa (mantissa s) ∧ ∃ rest, s = mantissa s ++ rest := by
  obtain ⟨w, r, hw, hs⟩ := exists_takeWhile Text.isDigit s
  have hdigits : w ≠ [] → Text.isDigits w = true := hw ▸ isDigits_takeWhile
  have hwhole : mantissa s = w → Mantissa (mantissa s) ∧ ∃ rest, s = mantissa s ++ rest := by
    intro heq
    rw [heq] at h ⊢
    exact ⟨.whole (hdigits h), r, hs⟩
  by_cases hr : ∃ cs, r = '.' :: cs
  · obtain ⟨cs, rfl⟩ := hr
    obtain ⟨f, r, hf, rfl⟩ := exists_takeWhile Text.isDigit cs
    have heq := mantissa_dot hw hs
    rw [hf] at heq
    by_cases hnil : f = []
    · rw [if_pos hnil, List.append_nil] at heq
      exact hwhole heq
    · rw [if_neg hnil] at heq
      have hfd : Text.isDigits f = true := hf ▸ isDigits_takeWhile (hf.symm ▸ hnil)
      refine ⟨?_, r, by rw [heq, hs]; simp⟩
      rw [heq]
      by_cases hwnil : w = []
      · rw [hwnil]
        exact .fraction hfd
      · exact .decimal (hdigits hwnil) hfd
  · exact hwhole (mantissa_other hw hs fun cs heq => hr ⟨cs, heq⟩)

/-- The sign at the front of a text, if there is one. -/
theorem exists_sign (c : Char) (s : Text) : ∃ sign r,
    (if Text.startsWith s [c] then s.take 1 else []) = sign ∧ s = sign ++ r ∧
      (sign = [] ∨ sign = [c]) := by
  cases s with
  | nil => exact ⟨[], [], rfl, rfl, .inl rfl⟩
  | cons d cs =>
    by_cases hd : c = d
    · subst hd
      exact ⟨[c], cs, by simp [Text.startsWith], rfl, .inr rfl⟩
    · exact ⟨[], d :: cs, by simp [Text.startsWith, hd], rfl, .inl rfl⟩

theorem exponentPart_spec (s : Text) : Exponent (exponentPart s) ∧
    ∃ rest, s = exponentPart s ++ rest := by
  cases s with
  | nil => exact ⟨.none, [], rfl⟩
  | cons c cs =>
    by_cases hc : c = 'e' ∨ c = 'E'
    · obtain ⟨sign, r, hsign, rfl, hshape⟩ : ∃ sign r,
          (if Text.startsWith cs ['+'] || Text.startsWith cs ['-'] then cs.take 1 else []) = sign ∧
            cs = sign ++ r ∧ (sign = [] ∨ sign = ['+'] ∨ sign = ['-']) := by
        cases hplus : Text.startsWith cs ['+'] with
        | true =>
          obtain ⟨sign, r, hsign, hcs, hshape⟩ := exists_sign '+' cs
          rw [if_pos hplus] at hsign
          exact ⟨sign, r, hsign, hcs, hshape.imp_right .inl⟩
        | false =>
          obtain ⟨sign, r, hsign, hcs, hshape⟩ := exists_sign '-' cs
          exact ⟨sign, r, hsign, hcs, hshape.imp_right .inr⟩
      obtain ⟨ds, r, hds, rfl⟩ := exists_takeWhile Text.isDigit r
      have heq : exponentPart (c :: (sign ++ (ds ++ r))) =
          if ds = [] then [] else c :: sign ++ ds := by
        simp only [exponentPart, if_pos hc, hsign, List.drop_left, hds]
      rw [heq]
      split
      next => exact ⟨.none, _, rfl⟩
      next hnil =>
        exact ⟨.some hc hshape (hds ▸ isDigits_takeWhile (hds.symm ▸ hnil)), r, by simp⟩
    · rw [exponentPart, if_neg hc]
      exact ⟨.none, _, rfl⟩

theorem numeral_of_numberText {s n : Text} (h : numberText s = some n) :
    Numeral n ∧ ∃ rest, s = n ++ rest := by
  obtain ⟨sign, r, hsign, rfl, hshape⟩ : ∃ sign r,
      (if Text.startsWith s ['-'] then ['-'] else []) = sign ∧ s = sign ++ r ∧
        (sign = [] ∨ sign = ['-']) := by
    cases s with
    | nil => exact ⟨[], [], rfl, rfl, .inl rfl⟩
    | cons d cs =>
      by_cases hd : '-' = d
      · subst hd
        exact ⟨['-'], cs, by simp [Text.startsWith], rfl, .inr rfl⟩
      · exact ⟨[], d :: cs, by simp [Text.startsWith, hd], rfl, .inl rfl⟩
  simp only [numberText, hsign, List.drop_left] at h
  split at h
  next => cases h
  next hne =>
    obtain ⟨hm, rest, hrest⟩ := mantissa_spec hne
    cases h
    have hdrop : (sign ++ r).drop (sign.length + (mantissa r).length) = rest := by
      rw [← List.drop_drop, List.drop_left, hrest, List.drop_left' (by rw [← hrest])]
    rw [hdrop]
    obtain ⟨hx, rest', hrest'⟩ := exponentPart_spec rest
    exact ⟨.intro hshape hm hx, rest', by
      conv_lhs => rw [hrest, hrest']
      simp⟩

/-! ## Strings and references -/

theorem stringBody_quote (q : Char) (cs : Text) : stringBody q (q :: cs) = some ([], 1) := by
  rw [stringBody.eq_def]
  exact if_pos rfl

theorem stringBody_plain {q c : Char} (hq : c ≠ q) (h : c ≠ '\\') (cs : Text) :
    stringBody q (c :: cs) = (stringBody q cs).map fun r => (c :: r.1, r.2 + 1) := by
  rw [stringBody.eq_def]
  exact (if_neg hq).trans (if_neg h)

theorem stringBody_slash {q : Char} (hq : '\\' ≠ q) (e : Char) (cs : Text) :
    stringBody q ('\\' :: e :: cs) = (stringBody q cs).map fun r => (e :: r.1, r.2 + 2) := by
  rw [stringBody.eq_def]
  exact (if_neg hq).trans (if_pos rfl)

theorem stringBody_append {q : Char} (hq : '\\' ≠ q) {v body : Text} (h : Escaped q v body)
    (rest : Text) : stringBody q (body ++ q :: rest) = some (v, body.length + 1) := by
  induction h with
  | nil => exact stringBody_quote q rest
  | plain hc hslash _ ih => rw [List.cons_append, stringBody_plain hc hslash, ih]; rfl
  | slash _ ih =>
    rw [List.cons_append, List.cons_append, stringBody_slash hq, ih]
    rfl

theorem escaped_of_stringBody {q : Char} (s : Text) : ∀ v k, stringBody q s = some (v, k) →
    ∃ body rest, s = body ++ q :: rest ∧ k = body.length + 1 ∧ Escaped q v body := by
  induction s using stringBody.induct q with
  | case1 => exact fun _ _ h => nomatch h
  | case2 cs =>
    intro v k h
    rw [stringBody_quote] at h
    cases h
    exact ⟨[], cs, rfl, rfl, .nil⟩
  | case3 hq =>
    intro v k h
    rw [stringBody.eq_def] at h
    cases (if_neg hq).symm.trans h
  | case4 e cs hq ih =>
    intro v k h
    rw [stringBody_slash hq] at h
    obtain ⟨⟨v, k⟩, hr, heq⟩ := Option.map_eq_some_iff.mp h
    cases heq
    obtain ⟨body, rest, rfl, rfl, hbody⟩ := ih v k hr
    exact ⟨'\\' :: e :: body, rest, rfl, rfl, .slash hbody⟩
  | case5 c cs hq hslash ih =>
    intro v k h
    rw [stringBody_plain hq hslash] at h
    obtain ⟨⟨v, k⟩, hr, heq⟩ := Option.map_eq_some_iff.mp h
    cases heq
    obtain ⟨body, rest, rfl, rfl, hbody⟩ := ih v k hr
    exact ⟨c :: body, rest, rfl, rfl, .plain hq hslash hbody⟩

theorem breakOn_braces {inner : Text} (h : ¬ ['\x7d', '\x7d'] <:+: inner ++ ['\x7d'])
    (rest : Text) :
    Text.breakOn ['\x7d', '\x7d'] (inner ++ '\x7d' :: '\x7d' :: rest) = some (inner, rest) := by
  induction inner with
  | nil => rfl
  | cons c inner ih =>
    have hnot : List.isPrefixOf ['\x7d', '\x7d'] (c :: (inner ++ '\x7d' :: '\x7d' :: rest)) =
        false := by
      rw [Bool.eq_false_iff]
      intro hhead
      cases inner with
      | nil =>
        simp only [List.nil_append, List.isPrefixOf_cons_cons, Bool.and_eq_true, beq_iff_eq]
          at hhead
        exact h ⟨[], [], by rw [hhead.1]; rfl⟩
      | cons d inner =>
        simp only [List.cons_append, List.isPrefixOf_cons_cons, Bool.and_eq_true, beq_iff_eq]
          at hhead
        obtain ⟨rfl, rfl, -⟩ := hhead
        exact h ⟨[], inner ++ ['\x7d'], rfl⟩
    rw [List.cons_append, Text.breakOn, hnot, ih fun hwithin => h (hwithin.trans
      (List.suffix_cons c _).isInfix)]
    rfl

theorem braces_of_breakOn {s : Text} : ∀ a b, Text.breakOn ['\x7d', '\x7d'] s = some (a, b) →
    s = a ++ '\x7d' :: '\x7d' :: b ∧ ¬ ['\x7d', '\x7d'] <:+: a ++ ['\x7d'] := by
  induction s with
  | nil => exact fun _ _ h => nomatch h
  | cons c cs ih =>
    intro a b h
    rw [Text.breakOn] at h
    split at h
    next hhead =>
      cases h
      obtain ⟨rest, hrest⟩ := List.isPrefixOf_iff_prefix.mp hhead
      refine ⟨by rw [← hrest]; rfl, fun hwithin => ?_⟩
      exact absurd hwithin.length_le (by decide)
    next hhead =>
      obtain ⟨⟨a, b⟩, hr, heq⟩ := Option.map_eq_some_iff.mp h
      cases heq
      obtain ⟨rfl, hnot⟩ := ih a b hr
      refine ⟨rfl, fun hwithin => ?_⟩
      rcases List.infix_cons_iff.mp hwithin with hp | hwithin
      · refine hhead (List.isPrefixOf_iff_prefix.mpr ?_)
        exact hp.trans ⟨'\x7d' :: b, by simp⟩
      · exact hnot hwithin

/-! ## A spelling is read as its token -/

/-- The characters that begin a parenthesis, a reference or a string. -/
def isOpening (c : Char) : Bool :=
  c == '\x7b' || c == '(' || c == ')' || c == '"' || c == '\''

/-- A number, an operator or a word. -/
def plainToken (prev : Option Tok) (pos : ℕ) (c : Char) (cs : Text) :
    Except ExpressionError (Tok × ℕ) :=
  match (numberText (c :: cs)).filter fun _ => c ≠ '-' || signAllowed prev with
  | some n => .ok (.num (.ofText n), n.length)
  | none =>
    match ops.find? fun o => Text.startsWith (c :: cs) o.text with
    | some o => .ok (.op o, o.text.length)
    | none =>
      if Template.isNameStart c then
        .ok (wordToken (c :: cs.takeWhile isWordPart), (c :: cs.takeWhile isWordPart).length)
      else .error ("unexpected character \"".toList ++ [c] ++ "\" at ".toList ++
        JsNumber.digits pos)

theorem token_eq_plain {c : Char} {cs : Text}
    (hstart : ¬ Text.startsWith (c :: cs) ['\x7b', '\x7b'] = true) (hlp : c ≠ '(') (hrp : c ≠ ')')
    (hquote : ¬ (c = '"' ∨ c = '\'')) (prev : Option Tok) (pos : ℕ) :
    token prev pos c cs = plainToken prev pos c cs := by
  rw [token, if_neg hstart, if_neg hlp, if_neg hrp, if_neg hquote]
  rfl

/-- What is read where no parenthesis, reference or string begins. -/
theorem token_plain {c : Char} (hc : isOpening c = false) (prev : Option Tok) (pos : ℕ)
    (cs : Text) : token prev pos c cs = plainToken prev pos c cs := by
  simp only [isOpening, Bool.or_eq_false_iff, beq_eq_false_iff_ne] at hc
  obtain ⟨⟨⟨⟨hbrace, hlp⟩, hrp⟩, hdouble⟩, hsingle⟩ := hc
  have hstart : ¬ Text.startsWith (c :: cs) ['\x7b', '\x7b'] = true := by
    simp [Text.startsWith, List.isPrefixOf_cons_cons, Ne.symm hbrace]
  exact token_eq_plain hstart hlp hrp (not_or.mpr ⟨hdouble, hsingle⟩) prev pos

theorem numberText_none {c : Char} (hminus : c ≠ '-') (hdigit : Text.isDigit c = false)
    (hdot : c ≠ '.') (cs : Text) : numberText (c :: cs) = none := by
  have hsign : Text.startsWith (c :: cs) ['-'] = false := by
    simp [Text.startsWith, List.isPrefixOf_cons_cons, Ne.symm hminus]
  have htake : (c :: cs).takeWhile Text.isDigit = [] := by rw [List.takeWhile_cons, hdigit]; rfl
  have hm : mantissa (c :: cs) = [] := mantissa_other htake rfl fun ds heq =>
    hdot (List.cons.inj heq).1
  simp only [numberText, hsign, Bool.false_eq_true, if_false, List.length_nil, List.drop_zero, hm,
    if_true]

/-- What follows a text does not matter for a prefix that it cannot continue. -/
theorem isPrefixOf_append {p a rest : Text}
    (h : ∀ c r, p = a ++ c :: r → ∀ cs, rest ≠ c :: cs) :
    p.isPrefixOf (a ++ rest) = p.isPrefixOf a := by
  induction p generalizing a with
  | nil => simp
  | cons x p ih =>
    cases a with
    | nil =>
      cases rest with
      | nil => rfl
      | cons c cs =>
        have hne : x ≠ c := by
          rintro rfl
          exact h x p rfl cs rfl
        simp [List.isPrefixOf_cons_cons, hne]
    | cons y a =>
      rw [List.cons_append, List.isPrefixOf_cons_cons, List.isPrefixOf_cons_cons]
      by_cases hxy : x = y
      · subst hxy
        rw [ih fun c r hp => h c r (by rw [hp]; rfl)]
      · rw [beq_false_of_ne hxy, Bool.false_and, Bool.false_and]

/-- An operator is longer than another one by an equals sign. -/
theorem ops_extend : ∀ o ∈ ops, ∀ o' ∈ ops, o.text.isPrefixOf o'.text = true →
    (o'.text.drop o.text.length).head?.all (· == '=') = true := by decide

/-- The operators are told apart by what follows them. -/
theorem find_op {o : Op} (ho : o ∈ ops) {rest : Text} (hrest : Apart (· == '=') rest) :
    (ops.find? fun o' => Text.startsWith (o.text ++ rest) o'.text) = some o := by
  have heq : ∀ o' ∈ ops, Text.startsWith (o.text ++ rest) o'.text = o'.text.isPrefixOf o.text := by
    intro o' ho'
    refine isPrefixOf_append fun c r hp cs hcs => ?_
    have hext := ops_extend o ho o' ho' (List.isPrefixOf_iff_prefix.mpr ⟨c :: r, hp.symm⟩)
    rw [hp, List.drop_left, List.head?_cons, Option.all_some] at hext
    exact absurd hext (Bool.eq_false_iff.mp (hrest c cs hcs))
  have hfirst : ∀ o ∈ ops, (ops.find? fun o' => o'.text.isPrefixOf o.text) = some o := by
    decide
  exact (List.find?_congr heq).trans (hfirst o ho)

/-- Numbers may have a sign behind an operator and a parenthesis only. -/
def Follows (prev : Option Tok) (t : Tok) : Prop := (∃ v, t = .num v) → signAllowed prev = true

/-- The first character of a number begins nothing else. -/
theorem numeral_head {s : Text} (hs : Numeral s) :
    ∃ c cs, s = c :: cs ∧ isOpening c = false ∧ Text.isSpace c = false := by
  have hplain : ∀ c : Char, Text.isDigit c = true → isOpening c = false := by
    intro c hc
    simp only [isOpening, Bool.or_eq_false_iff, beq_eq_false_iff_ne]
    refine ⟨⟨⟨⟨?_, ?_⟩, ?_⟩, ?_⟩, ?_⟩ <;> rintro rfl <;> exact absurd hc (by decide)
  obtain @⟨sign, m, x, hsign, hm, hx⟩ := hs
  obtain ⟨c, cs, rfl, hc⟩ := mantissa_head hm
  rcases hsign with rfl | rfl
  · refine ⟨c, cs ++ x, rfl, ?_⟩
    rcases hc with hc | rfl
    · exact ⟨hplain c hc, JsNumber.isSpace_of_isDigit hc⟩
    · decide
  · exact ⟨'-', c :: cs ++ x, rfl, by decide⟩

theorem op_head {o : Op} (ho : o ∈ ops) : ∃ c cs, o.text = c :: cs ∧ isOpening c = false ∧
    Text.isSpace c = false ∧ c ≠ '-' ∧ Text.isDigit c = false ∧ c ≠ '.' := by
  have hall : ∀ o ∈ ops, o.text.head?.any (fun c => !isOpening c && !Text.isSpace c && c != '-' &&
      !Text.isDigit c && c != '.') = true := by decide
  have hhead := hall o ho
  cases htext : o.text with
  | nil =>
    rw [htext] at hhead
    cases hhead
  | cons c cs =>
    rw [htext] at hhead
    simp only [List.head?_cons, Option.any_some, Bool.and_eq_true, Bool.not_eq_true',
      bne_iff_ne] at hhead
    exact ⟨c, cs, rfl, hhead.1.1.1.1, hhead.1.1.1.2, hhead.1.1.2, hhead.1.2, hhead.2⟩

theorem nameStart_range {c : Char} (hc : Template.isNameStart c = true) :
    c.toNat = 36 ∨ 65 ≤ c.toNat ∧ c.toNat ≤ 122 := by
  simp only [Template.isNameStart, Text.isLetter, Text.isUpper, Text.isLower, Bool.or_eq_true,
    Bool.and_eq_true, decide_eq_true_eq, Char.le_def, UInt32.le_iff_toNat_le, beq_iff_eq] at hc
  rcases hc with ((⟨hlow, hhigh⟩ | ⟨hlow, hhigh⟩) | rfl) | rfl
  · have h1 : 65 ≤ c.toNat := hlow
    have h2 : c.toNat ≤ 90 := hhigh
    omega
  · have h1 : 97 ≤ c.toNat := hlow
    have h2 : c.toNat ≤ 122 := hhigh
    omega
  · decide
  · decide

/-- A name begins with no character that begins something else. -/
theorem nameStart_plain {c : Char} (hc : Template.isNameStart c = true) : isOpening c = false ∧
    Text.isSpace c = false ∧ c ≠ '-' ∧ Text.isDigit c = false ∧ c ≠ '.' ∧
      ∀ o ∈ ops, ∀ cs, Text.startsWith (c :: cs) o.text = false := by
  have hrange := nameStart_range hc
  have hne : ∀ d : Char, d.toNat ≠ 36 → (d.toNat < 65 ∨ 122 < d.toNat) → c ≠ d := by
    rintro d h36 hout rfl
    omega
  have hdigit : Text.isDigit c = false := by
    rw [Bool.eq_false_iff]
    intro hd
    simp only [Text.isDigit, Bool.and_eq_true, decide_eq_true_eq, Char.le_def,
      UInt32.le_iff_toNat_le] at hd
    have h1 : 48 ≤ c.toNat := hd.1
    have h2 : c.toNat ≤ 57 := hd.2
    omega
  refine ⟨?_, ?_, hne '-' (by decide) (by decide), hdigit, hne '.' (by decide) (by decide), ?_⟩
  · simp only [isOpening, Bool.or_eq_false_iff, beq_eq_false_iff_ne]
    exact ⟨⟨⟨⟨hne _ (by decide) (by decide), hne _ (by decide) (by decide)⟩,
      hne _ (by decide) (by decide)⟩, hne _ (by decide) (by decide)⟩, hne _ (by decide) (by decide)⟩
  · simp only [Text.isSpace, Bool.or_eq_false_iff, Bool.and_eq_false_iff, beq_eq_false_iff_ne,
      decide_eq_false_iff_not]
    omega
  · intro o ho cs
    have hall : ∀ o ∈ ops, o.text.head?.any (fun d => d.toNat != 36 &&
        (decide (d.toNat < 65) || decide (122 < d.toNat))) = true := by decide
    have hhead := hall o ho
    cases htext : o.text with
    | nil =>
      rw [htext] at hhead
      cases hhead
    | cons d ds =>
      rw [htext] at hhead
      simp only [List.head?_cons, Option.any_some, Bool.and_eq_true, Bool.or_eq_true, bne_iff_ne,
        decide_eq_true_eq] at hhead
      rw [Text.startsWith, List.isPrefixOf_cons_cons,
        beq_false_of_ne (Ne.symm (hne d hhead.1 hhead.2)), Bool.false_and]

/-- A spelling is read as its token, whatever follows that does not belong to it. -/
theorem token_of_writes {t : Tok} {s rest : Text} {glue : Char → Bool} {prev : Option Tok}
    (h : Writes t s glue) (hrest : Apart glue rest) (hsign : Follows prev t) (pos : ℕ) :
    ∃ c cs, s = c :: cs ∧ Text.isSpace c = false ∧
      token prev pos c (cs ++ rest) = .ok (t, s.length) := by
  cases h with
  | lp => exact ⟨'(', [], rfl, by decide, rfl⟩
  | rp => exact ⟨')', [], rfl, by decide, rfl⟩
  | @ref inner hinner =>
    refine ⟨'\x7b', '\x7b' :: inner ++ ['\x7d', '\x7d'], rfl, by decide, ?_⟩
    have hbreak : Text.breakOn ['\x7d', '\x7d']
        (('\x7b' :: inner ++ ['\x7d', '\x7d'] ++ rest).drop 1) = some (inner, rest) := by
      rw [List.append_assoc]
      exact breakOn_braces hinner rest
    have hstart : Text.startsWith ('\x7b' :: ('\x7b' :: inner ++ ['\x7d', '\x7d'] ++ rest))
      ['\x7b', '\x7b'] = true := by simp [Text.startsWith]
    rw [token, if_pos hstart, hbreak]
    simp
  | @str q v body hq hbody =>
    have hslash : '\\' ≠ q := by rcases hq with rfl | rfl <;> decide
    refine ⟨q, body ++ [q], rfl, by rcases hq with rfl | rfl <;> decide, ?_⟩
    have hread : stringBody q (body ++ [q] ++ rest) = some (v, body.length + 1) := by
      rw [List.append_assoc]
      exact stringBody_append hslash hbody rest
    have hstart : ¬ Text.startsWith (q :: (body ++ [q] ++ rest)) ['\x7b', '\x7b'] = true := by
      rcases hq with rfl | rfl <;> simp [Text.startsWith, List.isPrefixOf_cons_cons]
    rw [token, if_neg hstart, if_neg (by rcases hq with rfl | rfl <;> decide),
      if_neg (by rcases hq with rfl | rfl <;> decide), if_pos hq, hread]
    simp
  | num hs =>
    obtain ⟨c, cs, rfl, hopening, hspace⟩ := numeral_head hs
    refine ⟨c, cs, rfl, hspace, ?_⟩
    rw [token_plain hopening, plainToken, ← List.cons_append, numberText_append hs hrest, Option.filter,
      if_pos (by rw [hsign ⟨_, rfl⟩, Bool.or_true])]
  | @op o ho =>
    obtain ⟨c, cs, htext, hopening, hspace, hminus, hdigit, hdot⟩ := op_head ho
    refine ⟨c, cs, htext, hspace, ?_⟩
    rw [token_plain hopening, plainToken, numberText_none hminus hdigit hdot, ← List.cons_append, ← htext,
      find_op ho hrest]
    rfl
  | @word c cs hc hcs =>
    obtain ⟨hopening, hspace, hminus, hdigit, hdot, hops⟩ := nameStart_plain hc
    refine ⟨c, cs, rfl, hspace, ?_⟩
    have hnone : (ops.find? fun o => Text.startsWith (c :: (cs ++ rest)) o.text) = none :=
      List.find?_eq_none.mpr fun o ho => by
        rw [hops o ho]
        exact Bool.false_ne_true
    rw [token_plain hopening, plainToken, numberText_none hminus hdigit hdot, Option.filter_none,
      hnone]
    dsimp only
    rw [if_pos hc, takeWhile_append hcs hrest]

/-! ## Every tree has a text -/

theorem trim_padded (s : Text) : Text.trim (' ' :: s ++ [' ']) = Text.trim s := by
  have hend : ∀ s : Text, Text.trimEnd (s ++ [' ']) = Text.trimEnd s := by
    intro s
    rw [Text.trimEnd, Text.trimEnd, List.reverse_append]
    rfl
  have hstart : Text.trimStart (' ' :: s ++ [' ']) = Text.trimStart (s ++ [' ']) := rfl
  rw [Text.trim, Text.trim, hstart, Text.trimStart, List.dropWhile_append, ← Text.trimStart]
  split
  next hnil =>
    rw [List.isEmpty_iff.mp hnil]
    rfl
  next => exact hend _

theorem braces_padded {path : Text} (h : ¬ ['\x7d', '\x7d'] <:+: path) :
    ¬ ['\x7d', '\x7d'] <:+: ' ' :: path ++ [' '] ++ ['\x7d'] := by
  have hspace : ∀ (t : Text) (c : Char), c ≠ ' ' → ¬ t ++ [c] <:+ ' ' :: path ++ [' '] := by
    intro t c hc hsuffix
    rcases List.suffix_concat_iff.mp hsuffix with hnil | ⟨u, hu, -⟩
    · exact List.append_ne_nil_of_right_ne_nil _ (List.cons_ne_nil _ _) hnil
    · exact hc (List.cons.inj (List.append_inj' hu rfl).2).1
  intro hwithin
  rcases List.infix_concat_iff.mp hwithin with hsuffix | hwithin
  · rcases List.suffix_concat_iff.mp hsuffix with hnil | ⟨t, ht, hsuffix⟩
    · cases hnil
    · have hlast : ['\x7d'] ++ ['\x7d'] = t ++ ['\x7d'] := ht
      obtain ⟨rfl, -⟩ := List.append_inj' hlast rfl
      exact hspace [] '\x7d' (by decide) hsuffix
  · rcases List.infix_concat_iff.mp hwithin with hsuffix | hwithin
    · exact hspace ['\x7d'] '\x7d' (by decide) hsuffix
    · rcases List.infix_cons_iff.mp hwithin with hhead | hwithin
      · exact absurd (List.cons_prefix_cons.mp hhead).1 (by decide)
      · exact h hwithin

/-- Every string has a spelling. -/
theorem exists_escaped (v : Text) : ∃ body, Escaped '"' v body := by
  induction v with
  | nil => exact ⟨[], .nil⟩
  | cons c v ih =>
    obtain ⟨body, hbody⟩ := ih
    exact ⟨'\\' :: c :: body, .slash hbody⟩

/-- A number that some text spells, a trimmed path without closing braces, or another token. -/
def Spellable : Tok → Prop
  | .num v => ∃ s, Numeral s ∧ JsNumber.ofText s = v
  | .ref path => Text.trim path = path ∧ ¬ ['\x7d', '\x7d'] <:+: path
  | _ => True

theorem exists_writes {t : Tok} (h : Spellable t) : ∃ s glue, Writes t s glue ∧ glue ' ' = false := by
  cases t with
  | num v =>
    obtain ⟨s, hs, rfl⟩ := h
    exact ⟨s, _, .num hs, by decide⟩
  | str v =>
    obtain ⟨body, hbody⟩ := exists_escaped v
    exact ⟨_, _, .str (.inl rfl) hbody, rfl⟩
  | kw v =>
    cases v with
    | true => exact ⟨_, _, @Writes.word 't' ['r', 'u', 'e'] (by decide) (by decide), by decide⟩
    | false =>
      exact ⟨_, _, @Writes.word 'f' ['a', 'l', 's', 'e'] (by decide) (by decide), by decide⟩
    | null =>
      exact ⟨_, _, @Writes.word 'n' ['u', 'l', 'l'] (by decide) (by decide), by decide⟩
  | ref path =>
    have hwrites := Writes.ref (braces_padded h.2)
    rw [trim_padded, h.1] at hwrites
    exact ⟨_, _, hwrites, rfl⟩
  | op o =>
    by_cases ho : o ∈ ops
    · exact ⟨_, _, .op ho, by decide⟩
    · have hcontains : o = .contains := by
        cases o <;> first | rfl | exact absurd (by decide) ho
      subst hcontains
      exact ⟨_, _, @Writes.word 'c' ['o', 'n', 't', 'a', 'i', 'n', 's'] (by decide)
        (by decide), by decide⟩
  | lp => exact ⟨_, _, .lp, rfl⟩
  | rp => exact ⟨_, _, .rp, rfl⟩

theorem exists_spells {ts : List Tok} (h : ∀ t ∈ ts, Spellable t) : ∃ src, Spells Apart ts src := by
  induction ts with
  | nil => exact ⟨[], .nil rfl⟩
  | cons t ts ih =>
    rw [List.forall_mem_cons] at h
    obtain ⟨s, glue, hs, hglue⟩ := exists_writes h.1
    obtain ⟨rest, hrest⟩ := ih h.2
    have hapart : Apart glue (' ' :: rest) := by
      intro c cs heq
      obtain ⟨rfl, -⟩ := List.cons.inj heq
      exact hglue
    exact ⟨_, .cons (w := []) rfl hs hapart (hrest.blank rfl)⟩

/-! ## Reading a text back -/

/-- The signs of the numbers are allowed, behind `prev`. -/
def Signed : Option Tok → List Tok → Prop
  | _, [] => True
  | prev, t :: ts => Follows prev t ∧ Signed (some t) ts

theorem tokens_blank {w : Text} (hw : w.all Text.isSpace = true) (prev : Option Tok) (rest : Text) :
    ∀ pos, ∃ pos', tokens prev pos 0 (w ++ rest) = tokens prev pos' 0 rest := by
  induction w with
  | nil => exact fun pos => ⟨pos, rfl⟩
  | cons c w ih =>
    intro pos
    rw [List.all_cons, Bool.and_eq_true] at hw
    obtain ⟨pos', h⟩ := ih hw.2 (pos + Text.length16 [c])
    exact ⟨pos', by rw [List.cons_append, tokens, if_pos hw.1, h]⟩

theorem tokens_skip (prev : Option Tok) (s rest : Text) :
    ∀ pos, ∃ pos', tokens prev pos s.length (s ++ rest) = tokens prev pos' 0 rest := by
  induction s with
  | nil => exact fun pos => ⟨pos, rfl⟩
  | cons c s ih =>
    intro pos
    obtain ⟨pos', h⟩ := ih (pos + Text.length16 [c])
    exact ⟨pos', by rw [List.length_cons, List.cons_append, tokens, h]⟩

/-- The loop of the tokenizer reads a text back as its tokens. -/
theorem tokens_of_spells {ts : List Tok} {src : Text} (h : Spells Apart ts src) :
    ∀ prev pos, Signed prev ts → tokens prev pos 0 src = .ok ts := by
  induction h with
  | @nil w hw =>
    intro prev pos _
    obtain ⟨pos', hblank⟩ := tokens_blank hw prev [] pos
    rw [List.append_nil] at hblank
    rw [hblank]
    rfl
  | @cons w s rest t glue ts hw hs hrest _ ih =>
    intro prev pos hsigned
    obtain ⟨pos', hblank⟩ := tokens_blank hw prev (s ++ rest) pos
    obtain ⟨c, cs, rfl, hspace, htoken⟩ := token_of_writes hs hrest hsigned.1 pos'
    obtain ⟨pos'', hskip⟩ := tokens_skip (some t) cs rest (pos' + Text.length16 [c])
    have hread : tokens prev pos' 0 (c :: (cs ++ rest)) = (do
        let ts ← tokens (some t) (pos' + Text.length16 [c]) cs.length (cs ++ rest)
        return t :: ts) := by
      rw [tokens, hspace, if_neg Bool.false_ne_true, htoken]
      rfl
    rw [List.append_assoc, hblank, List.cons_append, hread, hskip, ih _ _ hsigned.2]
    rfl

/-! ## What is read is a text -/

theorem writes_of_plain {prev : Option Tok} {pos k : ℕ} {c : Char} {cs : Text} {t : Tok}
    (h : plainToken prev pos c cs = .ok (t, k)) :
    ∃ s glue rest, Writes t s glue ∧ c :: cs = s ++ rest ∧ k = s.length ∧ s ≠ [] := by
  rw [plainToken] at h
  split at h
  next n hn =>
    cases h
    obtain ⟨hn, -⟩ := Option.filter_eq_some_iff.mp hn
    obtain ⟨hnumeral, rest, hrest⟩ := numeral_of_numberText hn
    obtain ⟨d, ds, hd, -⟩ := numeral_head hnumeral
    exact ⟨n, _, rest, .num hnumeral, hrest, rfl, hd ▸ List.cons_ne_nil d ds⟩
  next =>
    split at h
    next o ho =>
      cases h
      have hmem := List.mem_of_find?_eq_some ho
      obtain ⟨d, ds, hd, -⟩ := op_head hmem
      have hstart := List.find?_some ho
      obtain ⟨rest, hrest⟩ := List.isPrefixOf_iff_prefix.mp hstart
      exact ⟨o.text, _, rest, .op hmem, hrest.symm, rfl, hd ▸ List.cons_ne_nil d ds⟩
    next =>
      split at h
      next hc =>
        cases h
        obtain ⟨w, r, hw, rfl⟩ := exists_takeWhile isWordPart cs
        have hall : w.all isWordPart = true := hw ▸ List.all_takeWhile
        rw [hw]
        exact ⟨c :: w, _, r, .word hc hall, rfl, rfl, List.cons_ne_nil c w⟩
      next => cases h

theorem writes_of_token {prev : Option Tok} {pos k : ℕ} {c : Char} {cs : Text} {t : Tok}
    (h : token prev pos c cs = .ok (t, k)) :
    ∃ s glue rest, Writes t s glue ∧ c :: cs = s ++ rest ∧ k = s.length ∧ s ≠ [] := by
  by_cases hstart : Text.startsWith (c :: cs) ['\x7b', '\x7b'] = true
  · rw [token, if_pos hstart] at h
    obtain ⟨inner, hinner⟩ := List.isPrefixOf_iff_prefix.mp hstart
    obtain ⟨rfl, rfl⟩ := List.cons.inj hinner
    have hdrop : (['\x7b'].append inner).drop 1 = inner := rfl
    rw [hdrop] at h
    cases hbreak : Text.breakOn ['\x7d', '\x7d'] inner with
    | none =>
      rw [hbreak] at h
      cases h
    | some r =>
      rw [hbreak] at h
      cases h
      obtain ⟨rfl, hnot⟩ := braces_of_breakOn r.1 r.2 hbreak
      exact ⟨_, _, r.2, .ref hnot, by simp, by simp, List.cons_ne_nil _ _⟩
  · by_cases hlp : c = '('
    · subst hlp
      rw [token, if_neg hstart, if_pos rfl] at h
      cases h
      exact ⟨['('], _, cs, .lp, rfl, rfl, List.cons_ne_nil _ _⟩
    by_cases hrp : c = ')'
    · subst hrp
      rw [token, if_neg hstart, if_neg hlp, if_pos rfl] at h
      cases h
      exact ⟨[')'], _, cs, .rp, rfl, rfl, List.cons_ne_nil _ _⟩
    by_cases hq : c = '"' ∨ c = '\''
    · rw [token, if_neg hstart, if_neg hlp, if_neg hrp, if_pos hq] at h
      cases hbody : stringBody c cs with
      | none =>
        rw [hbody] at h
        cases h
      | some r =>
        rw [hbody] at h
        cases h
        obtain ⟨body, rest, rfl, hk, hescaped⟩ := escaped_of_stringBody cs r.1 r.2 hbody
        exact ⟨_, _, rest, .str hq hescaped, by simp, by simp [hk], List.cons_ne_nil _ _⟩
    · rw [token_eq_plain hstart hlp hrp hq] at h
      exact writes_of_plain h

/-- Every text that the loop accepts is one of the tokens it reads. -/
theorem spells_of_tokens {n : ℕ} : ∀ {src : Text}, src.length ≤ n → ∀ {prev pos ts},
    tokens prev pos 0 src = .ok ts → Spells Anyhow ts src := by
  induction n with
  | zero =>
    intro src hlen prev pos ts h
    rw [List.length_eq_zero_iff.mp (Nat.le_zero.mp hlen)] at h ⊢
    cases h
    exact .nil rfl
  | succ n ih =>
    intro src hlen prev pos ts h
    cases src with
    | nil =>
      cases h
      exact .nil rfl
    | cons c cs =>
      have hcs : cs.length ≤ n := Nat.le_of_succ_le_succ hlen
      rw [tokens] at h
      split at h
      next hspace => exact (ih hcs h).blank hspace
      next hspace =>
        obtain ⟨⟨t, k⟩, htoken, hrest⟩ := ok_of_bind h
        obtain ⟨us, hus, heq⟩ := ok_of_bind hrest
        cases heq
        obtain ⟨s, glue, rest, hs, hsplit, rfl, hne⟩ := writes_of_token htoken
        obtain ⟨d, ds, rfl⟩ := List.exists_cons_of_ne_nil hne
        obtain ⟨rfl, rfl⟩ := List.cons.inj hsplit
        obtain ⟨pos', hskip⟩ := tokens_skip (some t) ds rest (pos + Text.length16 [c])
        have hread : tokens (some t) pos' 0 rest = .ok us := hskip ▸ hus
        have hlength : (ds ++ rest).length ≤ n := hcs
        rw [List.length_append] at hlength
        exact Spells.cons (w := []) rfl hs trivial (ih (by omega) hread)

/-! ## The parser -/

theorem follows_other {prev : Option Tok} {t : Tok} (h : ∀ v, t ≠ .num v) : Follows prev t :=
  fun ⟨v, hv⟩ => absurd hv (h v)

theorem signed_op (o : Op) {rest : List Tok} (h : Signed (some (.op o)) rest) (prev : Option Tok) :
    Signed prev (.op o :: rest) := ⟨follows_other nofun, h⟩

/-- In a phrase a number stands only where a sign is allowed. -/
theorem signed_of_phrase {d : ℕ} {p : Level} {n : Node} {ts : List Tok} (h : Phrase d p n ts) :
    ∀ prev, signAllowed prev = true → ∀ rest, (∀ prev', Signed prev' rest) →
      Signed prev (ts ++ rest) := by
  induction h with
  | atom _ => exact fun prev hprev rest hrest => ⟨fun _ => hprev, hrest _⟩
  | @parens d n ts _ ih =>
    intro prev hprev rest hrest
    have hsplit : .lp :: ts ++ [.rp] ++ rest = .lp :: (ts ++ .rp :: rest) := by simp
    rw [hsplit]
    exact ⟨follows_other nofun, ih _ rfl _ fun prev' => ⟨follows_other nofun, hrest _⟩⟩
  | operand _ _ ih | unary _ ih | conj _ ih => exact ih
  | cmp _ _ _ _ ihl ihr | and _ _ ihl ihr | or _ _ ihl ihr =>
    intro prev hprev rest hrest
    rw [List.append_assoc, List.cons_append]
    exact ihl prev hprev _ (signed_op _ (ihr _ rfl rest hrest))
  | not _ _ ih => exact fun prev _ rest hrest => signed_op _ (ih _ rfl rest hrest) prev

/-- The parser reads every text of a phrase as the tree of the phrase. -/
theorem parse_phrase {n : Node} {ts : List Tok} {src : Text} (hts : Phrase 0 .or n ts)
    (hsrc : Spells Apart ts src) (hlen : Text.length16 src ≤ maxLength) : parse src = .ok n := by
  have hsigned : Signed none ts := by
    have := signed_of_phrase hts none rfl [] fun _ => trivial
    rwa [List.append_nil] at this
  have htokens : tokenize src = .ok ts := by
    rw [tokenize, if_neg (not_lt.mpr hlen)]
    exact tokens_of_spells hsrc none 0 hsigned
  have hparse : parse src = expr levels ts >>= fun read =>
      if read.2 = [] then return read.1
      else .error "unexpected input after the expression".toList := by
    rw [parse, htokens]
    rfl
  rw [hparse, expr_eq_ok_iff.mpr hts]
  rfl

/-- What the parser accepts is a text of a phrase. -/
theorem phrase_of_parse {n : Node} {src : Text} (h : parse src = .ok n) :
    Text.length16 src ≤ maxLength ∧ ∃ ts, Phrase 0 .or n ts ∧ Spells Anyhow ts src := by
  rw [parse] at h
  obtain ⟨ts, hts, hexpr⟩ := ok_of_bind h
  obtain ⟨⟨tree, rest⟩, htree, hend⟩ := ok_of_bind hexpr
  dsimp only at hend
  split at hend
  next hrest =>
    cases hend
    subst hrest
    rw [tokenize] at hts
    split at hts
    next => cases hts
    next hlen =>
      exact ⟨not_lt.mp hlen, ts, expr_eq_ok_iff.mp htree, spells_of_tokens le_rfl hts⟩
  next => cases hend

/-- The parser implements its grammar. A text of a tree, with parentheses where the levels of the
grammar need them, is read as this tree; an accepted text is that of a tree, up to white space
and redundant parentheses. -/
theorem parse_implements :
    (∀ n src, Condition n → deep n ≤ maxDepth → Spells Apart (toks n) src →
      Text.length16 src ≤ maxLength → parse src = .ok n) ∧
    ∀ src n, parse src = .ok n → Condition n ∧ deep n ≤ maxDepth ∧ Text.length16 src ≤ maxLength ∧
      ∃ ts, Phrase 0 .or n ts ∧ Pads ts (toks n) ∧ Spells Anyhow ts src := by
  constructor
  · intro n src hn hdeep hsrc hlen
    have hphrase := phrase_toks hn 0 (by rwa [Nat.zero_add])
    have htwo := two_le_deep n
    exact parse_phrase (phrase_or (by omega) hphrase) hsrc hlen
  · intro src n h
    obtain ⟨hlen, ts, hts, hsrc⟩ := phrase_of_parse h
    have hdeep := deep_of_phrase hts (depth_le hts nofun)
    have hpads := pads_of_phrase hts
    rw [deepAt, if_pos (fits_or n), Nat.zero_add] at hdeep
    rw [wrap, if_pos (fits_or n)] at hpads
    exact ⟨condition_of_phrase hts, hdeep, hlen, ts, hts, hpads, hsrc⟩

/-- The negation of a comparison, or a path: `!a==1 or b`. -/
theorem parse_implements_not :
    parse ['!', 'a', '=', '=', '1', ' ', 'o', 'r', ' ', 'b'] =
      .ok (.or (.not (.cmp .eq (.ref ['a']) (.lit (.num (.ofText ['1']))))) (.ref ['b'])) := by
  have apart : ∀ {glue : Char → Bool} {c : Char} {cs : Text}, glue c = false →
      Apart glue (c :: cs) := by
    rintro glue c cs h d ds heq
    obtain ⟨rfl, -⟩ := List.cons.inj heq
    exact h
  have hb : Spells Apart [.ref ['b']] [' ', 'b'] :=
    .cons (w := [' ']) rfl (@Writes.word 'b' [] rfl rfl) nofun (.nil rfl)
  have hor : Spells Apart [.op .or, .ref ['b']] [' ', 'o', 'r', ' ', 'b'] :=
    .cons (w := [' ']) rfl (@Writes.word 'o' ['r'] rfl rfl) (apart rfl) hb
  have hone : Spells Apart [.num (.ofText ['1']), .op .or, .ref ['b']]
      ['1', ' ', 'o', 'r', ' ', 'b'] :=
    .cons (w := []) rfl (.num (@Numeral.intro [] ['1'] [] (.inl rfl) (.whole rfl) .none))
      (apart rfl) hor
  have hcmp : Spells Apart [.op .eq, .num (.ofText ['1']), .op .or, .ref ['b']]
      ['=', '=', '1', ' ', 'o', 'r', ' ', 'b'] :=
    .cons (w := []) (s := ['=', '=']) rfl (.op (o := .eq) (by decide)) (apart rfl) hone
  have ha : Spells Apart [.ref ['a'], .op .eq, .num (.ofText ['1']), .op .or, .ref ['b']]
      ['a', '=', '=', '1', ' ', 'o', 'r', ' ', 'b'] :=
    .cons (w := []) rfl (@Writes.word 'a' [] rfl rfl) (apart rfl) hcmp
  exact parse_implements.1 _ _
    (.or (.not (.cmp rfl (.atom (.ref _)) (.atom (.num _)))) (.atom (.ref _))) (by decide)
    (.cons (w := []) (s := ['!']) rfl (.op (o := .not) (by decide)) (apart rfl) ha) (by decide)

end Prgd.Spelling
