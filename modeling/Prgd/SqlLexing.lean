import Prgd.AllowedTables

/-!
# Standard spelling and the SQL lexer

Tokens are written the way PostgreSQL reads them: a quote inside of a literal or of a
quoted identifier is doubled, a backslash is an ordinary character. `tokenizeSql` reads
what is written back unless a literal has a backslash, which it takes for an escape, or
unless it knows one of the other characters from another dialect. What it takes for a
part of a literal or for a comment is hidden from every check that follows.

Of the function check only the words are hidden from nothing: a quoted identifier may
name a dangerous function.
-/
namespace Prgd.SqlGuard
open NetGuard (Casing)

/-! ## Standard spelling -/

/-- A text inside of quotes. -/
def doubled (quote : Char) (v : Text) : Text :=
  v.flatMap fun c => if c = quote then [quote, quote] else [c]

def Token.spell (t : Token) : Text :=
  match t.kind with
  | .ident => '"' :: doubled '"' t.value ++ ['"']
  | .str => '\'' :: doubled '\'' t.value ++ ['\'']
  | _ => t.value

/-- The tokens of a statement in their standard spelling. -/
def write (ts : List Token) : Text := Text.join [' '] (ts.map Token.spell)

/-- PostgreSQL takes every character outside of ASCII for a letter. -/
def isNameStart (c : Char) : Bool := Text.isLetter c || c == '_' || 128 ≤ c.toNat

def isNamePart (c : Char) : Bool := isNameStart c || Text.isDigit c || c == '$'

/-- Digits with or without a point. -/
def IsDecimal (v : Text) : Prop :=
  ∃ whole frac : Text, whole ++ frac ≠ [] ∧ (whole ++ frac).all Text.isDigit = true ∧
    (v = whole ++ '.' :: frac ∨ v = whole ++ frac)

/-- A decimal number with or without an exponent. -/
def IsNumeral (v : Text) : Prop :=
  ∃ mantissa exponent : Text, v = mantissa ++ exponent ∧ IsDecimal mantissa ∧
    (exponent = [] ∨ ∃ (e : Char) (sign digits : Text), exponent = e :: sign ++ digits ∧
      e ∈ ['e', 'E'] ∧ sign ∈ [[], ['+'], ['-']] ∧ Text.isDigits digits = true)

/-- ASCII punctuation, but for the characters that begin other tokens. -/
def isPunctuation (c : Char) : Bool :=
  33 ≤ c.toNat && c.toNat < 127 && !Text.isWord c && c != '"' && c != '\''

/-- A token of the standard. -/
def Token.Standard (t : Token) : Prop :=
  match t.kind with
  | .word => (t.value.head?.any isNameStart && t.value.all isNamePart) = true
  | .num => IsNumeral t.value
  | .punct => ∃ c, t.value = [c] ∧ isPunctuation c = true
  | .ident | .str => True

/-- Digits, with a fraction or not. -/
def IsPlainNumber (v : Text) : Prop :=
  ∃ whole frac : Text, Text.isDigits whole = true ∧
    (v = whole ∨ Text.isDigits frac = true ∧ v = whole ++ '.' :: frac)

/-- The punctuation that begins a comment or a quoted identifier in other dialects. -/
def foreignPunctuation : Text := ['#', '[', graveAccent]

/-- A token that means to the lexer what it means to the standard. -/
def Token.Plain (t : Token) : Prop :=
  match t.kind with
  | .word => ∀ c ∈ t.value, c.toNat < 128
  | .num => IsPlainNumber t.value
  | .punct => ∀ c ∈ t.value, c ∉ foreignPunctuation
  | .str => '\\' ∉ t.value
  | .ident => True

/-! ## Quotes -/

theorem doubled_cons_self (q : Char) (v : Text) : doubled q (q :: v) = q :: q :: doubled q v := by
  simp [doubled]

theorem doubled_cons {q c : Char} (h : c ≠ q) (v : Text) :
    doubled q (c :: v) = c :: doubled q v := by
  simp [doubled, h]

/-- A quoted identifier is read back. -/
theorem quoted_doubled (q : Char) (v : Text) {rest : Text} (hrest : rest.head? ≠ some q) :
    quoted q (doubled q v ++ q :: rest) = some (v, (doubled q v).length + 1) := by
  induction v with
  | nil =>
    cases rest with
    | nil => simp [doubled, quoted_singleton]
    | cons d rest =>
      have hd : d ≠ q := fun h => hrest (by rw [h]; rfl)
      simp [doubled, quoted_cons_cons, hd]
  | cons c v ih =>
    by_cases hc : c = q
    · subst hc
      rw [doubled_cons_self, List.cons_append, List.cons_append, quoted_cons_cons, if_pos rfl,
        if_pos rfl, ih]
      simp
    · obtain ⟨d, ds, hd⟩ := List.exists_cons_of_ne_nil
        (List.append_ne_nil_of_right_ne_nil (doubled q v) (List.cons_ne_nil q rest))
      rw [doubled_cons hc, List.cons_append, hd, quoted_cons_cons, if_neg hc, ← hd, ih]
      simp

theorem literal_cons {c : Char} (hslash : c ≠ '\\') (hquote : c ≠ '\'') (cs : Text) :
    literal (c :: cs) = (literal cs).map fun r => (c :: r.1, r.2 + 1) := by
  rw [literal]
  · intro _ _ h
    exact absurd h hslash
  · intro _ h
    exact absurd h hquote
  · exact hquote

theorem literal_end {rest : Text} (hrest : rest.head? ≠ some '\'') :
    literal ('\'' :: rest) = some ([], 1) := by
  cases rest with
  | nil => rfl
  | cons d rest =>
    have hd : d ≠ '\'' := fun h => hrest (by rw [h]; rfl)
    rw [literal]
    rintro _ h
    exact absurd (List.cons.inj h).1 hd

/-- A literal without backslashes is read back. -/
theorem literal_doubled {v rest : Text} (hv : '\\' ∉ v) (hrest : rest.head? ≠ some '\'') :
    literal (doubled '\'' v ++ '\'' :: rest) = some (v, (doubled '\'' v).length + 1) := by
  induction v with
  | nil => exact literal_end hrest
  | cons c v ih =>
    rw [List.mem_cons, not_or] at hv
    by_cases hc : c = '\''
    · subst hc
      rw [doubled_cons_self, List.cons_append, List.cons_append, literal_quotes, ih hv.2]
      simp
    · rw [doubled_cons hc, List.cons_append, literal_cons (Ne.symm hv.1) hc, ih hv.2]
      simp

/-- A literal that begins with a backslash and is read with one has two of them, which are read
as the one. -/
theorem literal_slash {v w rest : Text} {n : ℕ}
    (h : literal (doubled '\'' ('\\' :: v) ++ '\'' :: rest) = some ('\\' :: w, n)) :
    ∃ v' m, v = '\\' :: v' ∧ literal (doubled '\'' v' ++ '\'' :: rest) = some (w, m) := by
  rw [doubled_cons (by decide), List.cons_append] at h
  obtain ⟨d, ds, hd⟩ := List.exists_cons_of_ne_nil
    (List.append_ne_nil_of_right_ne_nil (doubled '\'' v) (List.cons_ne_nil '\'' rest))
  rw [hd, literal_backslash, Option.map_eq_some_iff] at h
  obtain ⟨⟨w', m⟩, hw, heq⟩ := h
  simp only [Prod.mk.injEq, List.cons.injEq] at heq
  obtain ⟨⟨rfl, rfl⟩, -⟩ := heq
  cases v with
  | nil =>
    rw [doubled, List.flatMap_nil, List.nil_append] at hd
    exact absurd (List.cons.inj hd).1 (by decide)
  | cons e v =>
    by_cases hq : e = '\''
    · rw [hq, doubled_cons_self, List.cons_append] at hd
      exact absurd (List.cons.inj hd).1 (by decide)
    · rw [doubled_cons hq, List.cons_append] at hd
      rw [← (List.cons.inj hd).2] at hw
      exact ⟨v, m, by rw [(List.cons.inj hd).1], hw⟩

/-- The value that is read of a literal is never the literal behind some more backslashes: each
backslash that it starts with takes another one away. -/
theorem literal_ne_replicate {rest : Text} (hrest : rest.head? ≠ some '\'') (k n : ℕ) (v : Text) :
    literal (doubled '\'' v ++ '\'' :: rest) ≠ some (List.replicate (k + 1) '\\' ++ v, n) := by
  induction hlen : v.length using Nat.strong_induction_on generalizing v k n with
  | _ m ih =>
    subst hlen
    intro h
    cases v with
    | nil =>
      rw [doubled, List.flatMap_nil, List.nil_append, literal_end hrest] at h
      simp at h
    | cons c v =>
      by_cases hslash : c = '\\'
      · subst hslash
        rw [List.replicate_succ, List.cons_append] at h
        obtain ⟨v', m, rfl, hv'⟩ := literal_slash h
        refine ih v'.length (by simp only [List.length_cons]; omega) (k + 1) m v' rfl ?_
        rw [hv']
        simp [List.replicate_succ']
      · by_cases hquote : c = '\''
        · subst hquote
          rw [doubled_cons_self, List.cons_append, List.cons_append, literal_quotes,
            Option.map_eq_some_iff] at h
          obtain ⟨_, -, hw⟩ := h
          simp [List.replicate_succ] at hw
        · rw [doubled_cons hquote, List.cons_append, literal_cons hslash hquote,
            Option.map_eq_some_iff] at h
          obtain ⟨_, -, hw⟩ := h
          simp [List.replicate_succ, hslash] at hw

/-- A literal that is read back has no backslash. -/
theorem notMem_of_literal {v rest : Text} (hrest : rest.head? ≠ some '\'') {n : ℕ}
    (h : literal (doubled '\'' v ++ '\'' :: rest) = some (v, n)) : '\\' ∉ v := by
  induction v generalizing n with
  | nil => exact List.not_mem_nil
  | cons c v ih =>
    by_cases hslash : c = '\\'
    · exfalso
      subst hslash
      obtain ⟨v', m, rfl, hv'⟩ := literal_slash h
      exact literal_ne_replicate hrest 0 m v' hv'
    · suffices hv : ∃ m, literal (doubled '\'' v ++ '\'' :: rest) = some (v, m) by
        obtain ⟨m, hm⟩ := hv
        exact List.not_mem_cons_of_ne_of_not_mem (Ne.symm hslash) (ih hm)
      by_cases hquote : c = '\''
      · subst hquote
        rw [doubled_cons_self, List.cons_append, List.cons_append, literal_quotes,
          Option.map_eq_some_iff] at h
        obtain ⟨⟨w, m⟩, hw, heq⟩ := h
        simp only [Prod.mk.injEq, List.cons.injEq] at heq
        exact ⟨m, by rw [hw, heq.1.2]⟩
      · rw [doubled_cons hquote, List.cons_append, literal_cons hslash hquote,
          Option.map_eq_some_iff] at h
        obtain ⟨⟨w, m⟩, hw, heq⟩ := h
        simp only [Prod.mk.injEq, List.cons.injEq] at heq
        exact ⟨m, by rw [hw, heq.1.2]⟩

/-! ## Characters -/

theorem ascii_of_isWord {c : Char} (h : Text.isWord c = true) : 33 ≤ c.toNat ∧ c.toNat < 127 := by
  simp only [Text.isWord, Text.isLetter, Text.isUpper, Text.isLower, Text.isDigit, Bool.or_eq_true,
    Bool.and_eq_true, decide_eq_true_eq, beq_iff_eq, Char.le_def, UInt32.le_iff_toNat_le] at h
  rcases h with ((h | h) | h) | h
  · exact ⟨le_trans (by decide) h.1, lt_of_le_of_lt h.2 (by decide)⟩
  · exact ⟨le_trans (by decide) h.1, lt_of_le_of_lt h.2 (by decide)⟩
  · exact ⟨le_trans (by decide) h.1, lt_of_le_of_lt h.2 (by decide)⟩
  · subst h
    decide

theorem isSpace_of_ascii {c : Char} (h : 33 ≤ c.toNat ∧ c.toNat < 127) :
    Text.isSpace c = false := by
  simp only [Text.isSpace, Bool.or_eq_false_iff, Bool.and_eq_false_iff, beq_eq_false_iff_ne,
    decide_eq_false_iff_not]
  omega

theorem isWord_of_isDigit {c : Char} (h : Text.isDigit c = true) : Text.isWord c = true := by
  simp [Text.isWord, h]

theorem isLetter_of_isNameStart {c : Char} (h : isNameStart c = true) (hascii : c.toNat < 128) :
    Text.isLetter c = true ∨ c = '_' := by
  simp only [isNameStart, Bool.or_eq_true, beq_iff_eq, decide_eq_true_eq] at h
  rcases h with h | h
  · exact h
  · omega

theorem isWordPart_of_isNamePart {c : Char} (h : isNamePart c = true) (hascii : c.toNat < 128) :
    isWordPart c = true := by
  simp only [isNamePart, Bool.or_eq_true, beq_iff_eq] at h
  simp only [isWordPart, Text.isWord, Bool.or_eq_true, beq_iff_eq]
  rcases h with (h | h) | h
  · rcases isLetter_of_isNameStart h hascii with h | h <;> simp [h]
  · simp [h]
  · simp [h]

theorem isDigit_of_isLetter {c : Char} (h : Text.isLetter c = true ∨ c = '_') :
    Text.isDigit c = false := by
  rw [← Bool.not_eq_true]
  intro hdigit
  simp only [Text.isLetter, Text.isUpper, Text.isLower, Text.isDigit, Bool.or_eq_true,
    Bool.and_eq_true, decide_eq_true_eq, Char.le_def, UInt32.le_iff_toNat_le] at h hdigit
  rcases h with (h | h) | h
  · exact absurd (h.1.trans hdigit.2) (by decide)
  · exact absurd (h.1.trans hdigit.2) (by decide)
  · subst h
    exact absurd hdigit.2 (by decide)

/-! ## One token -/

theorem startsWith_pair {a b c : Char} {cs : Text} (h : c ≠ a ∨ cs.head? ≠ some b) :
    Text.startsWith (c :: cs) [a, b] = false := by
  rw [← Bool.not_eq_true, Text.startsWith, List.isPrefixOf_iff_prefix, List.cons_prefix_cons]
  rintro ⟨rfl, d, rfl⟩
  simp at h

/-- Nothing that begins like a comment, a literal or white space stands here. -/
theorem token_other {c : Char} {cs : Text} (hspace : Text.isSpace c = false) (hhash : c ≠ '#')
    (hdash : c ≠ '-' ∨ cs.head? ≠ some '-') (hstar : c ≠ '/' ∨ cs.head? ≠ some '*')
    (hquote : c ≠ '\'') (hescape : ¬((c = 'E' ∨ c = 'e') ∧ cs.head? = some '\''))
    (hdollar : c = '$' → dollarTag cs = none) :
    token c cs =
      if c = '"' ∨ c = graveAccent ∨ c = '[' then
        match quoted (if c = '[' then ']' else c) cs with
        | none => .error "unclosed quoted identifier".toList
        | some (v, n) => .ok (some ⟨.ident, v⟩, n + 1)
      else if Text.isDigit c then
        .ok (some ⟨.num, number (c :: cs)⟩, (number (c :: cs)).length)
      else if Text.isLetter c ∨ c = '_' then
        .ok (some ⟨.word, c :: cs.takeWhile isWordPart⟩, (c :: cs.takeWhile isWordPart).length)
      else .ok (some ⟨.punct, [c]⟩, 1) := by
  have htag : (if c = '$' then dollarTag cs else none) = none := by
    by_cases h : c = '$'
    · rw [if_pos h, hdollar h]
    · rw [if_neg h]
  have hcomment : ¬ Text.startsWith (c :: cs) "/*".toList = true :=
    Bool.eq_false_iff.mp (startsWith_pair hstar)
  have hline : ¬ (Text.startsWith (c :: cs) "--".toList = true ∨ c = '#') :=
    not_or.mpr ⟨Bool.eq_false_iff.mp (startsWith_pair hdash), hhash⟩
  rw [token, if_neg (by simp [hspace]), if_neg hline, if_neg hcomment, if_neg hquote,
    if_neg hescape]
  simp only [htag]
  all_goals rfl

/-- A text that ends here or goes on with a blank. -/
def Separated (rest : Text) : Prop := ∀ c ∈ rest.head?, c = ' '

theorem Separated.head_ne {rest : Text} (h : Separated rest) {c : Char} (hc : c ≠ ' ') :
    rest.head? ≠ some c := fun hhead => hc (h c hhead)

theorem takeWhile_separated {p : Char → Bool} (hp : p ' ' = false) {v rest : Text}
    (hv : v.all p = true) (h : Separated rest) : (v ++ rest).takeWhile p = v := by
  rw [List.takeWhile_append_of_pos (List.all_eq_true.mp hv)]
  cases rest with
  | nil => simp
  | cons c rest =>
    rw [h c rfl, List.takeWhile_cons, hp]
    simp

theorem token_quote (cs : Text) :
    token '\'' cs = match literal cs with
      | none => .error "unclosed string literal".toList
      | some (v, n) => .ok (some ⟨.str, v⟩, n + 1) := by
  have hcomment : ¬ Text.startsWith ('\'' :: cs) "/*".toList = true :=
    Bool.eq_false_iff.mp (startsWith_pair (.inl (by decide)))
  have hline : ¬ (Text.startsWith ('\'' :: cs) "--".toList = true ∨ '\'' = '#') :=
    not_or.mpr ⟨Bool.eq_false_iff.mp (startsWith_pair (.inl (by decide))), by decide⟩
  rw [token, if_neg (by decide), if_neg hline, if_neg hcomment, if_pos rfl]
  all_goals rfl

theorem token_str {v rest : Text} (hv : '\\' ∉ v) (hrest : Separated rest) :
    token '\'' (doubled '\'' v ++ '\'' :: rest) =
      .ok (some ⟨.str, v⟩, (doubled '\'' v).length + 2) := by
  rw [token_quote, literal_doubled hv (hrest.head_ne (by decide))]

theorem token_ident {v rest : Text} (hrest : Separated rest) :
    token '"' (doubled '"' v ++ '"' :: rest) =
      .ok (some ⟨.ident, v⟩, (doubled '"' v).length + 2) := by
  rw [token_other (by decide) (by decide) (.inl (by decide)) (.inl (by decide)) (by decide)
    (by simp) (by simp), if_pos (.inl rfl)]
  simp only [show ('"' : Char) ≠ '[' by decide, if_false,
    quoted_doubled '"' v (hrest.head_ne (by decide))]

theorem token_word {c : Char} {v rest : Text} (hc : Text.isLetter c = true ∨ c = '_')
    (hv : v.all isWordPart = true) (hrest : Separated rest) :
    token c (v ++ rest) = .ok (some ⟨.word, c :: v⟩, v.length + 1) := by
  have hword : Text.isWord c = true := by
    rcases hc with hc | rfl
    · simp [Text.isWord, hc]
    · decide
  have hother : ∀ d, Text.isWord d = false → c ≠ d := by
    rintro d hd rfl
    rw [hd] at hword
    cases hword
  have hhead : ∀ d, isWordPart d = false → d ≠ ' ' → (v ++ rest).head? ≠ some d := by
    intro d hd hblank hhead
    cases v with
    | nil => exact hrest.head_ne hblank hhead
    | cons e v =>
      rw [List.cons_append, List.head?_cons, Option.some.injEq] at hhead
      rw [List.all_cons, Bool.and_eq_true, hhead, hd] at hv
      cases hv.1
  rw [token_other (isSpace_of_ascii (ascii_of_isWord hword)) (hother _ (by decide))
    (.inl (hother _ (by decide))) (.inl (hother _ (by decide))) (hother _ (by decide))
    (fun h => hhead _ (by decide) (by decide) h.2) (fun h => absurd h (hother _ (by decide))),
    if_neg, if_neg (by simp [isDigit_of_isLetter hc]), if_pos hc,
    takeWhile_separated (by decide) hv hrest, List.length_cons]
  simp only [not_or]
  exact ⟨hother _ (by decide), hother _ (by decide), hother _ (by decide)⟩

theorem number_whole {whole rest : Text} (h : whole.all Text.isDigit = true)
    (hrest : rest.head?.all (fun c => !Text.isDigit c && c != '.') = true) :
    number (whole ++ rest) = whole := by
  have htake : (whole ++ rest).takeWhile Text.isDigit = whole := by
    rw [List.takeWhile_append_of_pos (List.all_eq_true.mp h)]
    cases rest with
    | nil => simp
    | cons c rest => simp_all
  simp only [number, htake, List.drop_left]
  cases rest with
  | nil => rfl
  | cons c rest =>
    split
    next heq =>
      rw [(List.cons.inj heq).1] at hrest
      simp at hrest
    · rfl

theorem number_fraction {whole frac rest : Text} (hwhole : whole.all Text.isDigit = true)
    (hne : frac ≠ []) (hfrac : frac.all Text.isDigit = true) (hrest : Separated rest) :
    number (whole ++ '.' :: frac ++ rest) = whole ++ '.' :: frac := by
  have htake : (whole ++ '.' :: frac ++ rest).takeWhile Text.isDigit = whole := by
    rw [List.append_assoc, List.takeWhile_append_of_pos (List.all_eq_true.mp hwhole)]
    simp [Text.isDigit]
  simp only [number, htake]
  rw [List.append_assoc, List.drop_left, List.cons_append]
  simp only [takeWhile_separated (p := Text.isDigit) (by decide) hfrac hrest, if_neg hne]

theorem number_separated {v rest : Text} (hv : IsPlainNumber v) (hrest : Separated rest) :
    number (v ++ rest) = v := by
  obtain ⟨whole, frac, hwhole, hv⟩ := hv
  rw [Text.isDigits, Bool.and_eq_true] at hwhole
  rcases hv with rfl | ⟨hfrac, rfl⟩
  · apply number_whole hwhole.2
    cases rest with
    | nil => rfl
    | cons c rest =>
      rw [hrest c rfl]
      rfl
  · rw [Text.isDigits, Bool.and_eq_true] at hfrac
    refine number_fraction hwhole.2 ?_ hfrac.2 hrest
    rintro rfl
    simp at hfrac

theorem token_num {c : Char} {v rest : Text} (hv : IsPlainNumber (c :: v))
    (hrest : Separated rest) :
    token c (v ++ rest) = .ok (some ⟨.num, c :: v⟩, v.length + 1) := by
  have hnumber := number_separated hv hrest
  rw [List.cons_append] at hnumber
  obtain ⟨whole, frac, hwhole, hv⟩ := hv
  rw [Text.isDigits, Bool.and_eq_true] at hwhole
  cases whole with
  | nil => simp at hwhole
  | cons d whole =>
    rw [List.all_cons, Bool.and_eq_true] at hwhole
    have hc : d = c := by
      rcases hv with hv | ⟨-, hv⟩
      · exact (List.cons.inj hv).1.symm
      · exact (List.cons.inj hv).1.symm
    subst hc
    have hdigit := hwhole.2.1
    have hother : ∀ e, Text.isDigit e = false → d ≠ e := by
      rintro e he rfl
      rw [he] at hdigit
      cases hdigit
    rw [token_other (isSpace_of_ascii (ascii_of_isWord (isWord_of_isDigit hdigit)))
      (hother _ (by decide)) (.inl (hother _ (by decide))) (.inl (hother _ (by decide)))
      (hother _ (by decide))
      (fun h => h.1.elim (hother _ (by decide)) (hother _ (by decide)))
      (fun h => absurd h (hother _ (by decide))), if_neg, if_pos hdigit, hnumber,
      List.length_cons]
    simp only [not_or]
    exact ⟨hother _ (by decide), hother _ (by decide), hother _ (by decide)⟩

theorem token_punct {c : Char} {rest : Text} (hc : isPunctuation c = true)
    (hforeign : c ∉ foreignPunctuation) (hrest : Separated rest) :
    token c rest = .ok (some ⟨.punct, [c]⟩, 1) := by
  simp only [isPunctuation, Bool.and_eq_true, Bool.not_eq_true', decide_eq_true_eq, bne_iff_ne]
    at hc
  obtain ⟨⟨⟨hascii, hword⟩, hdouble⟩, hquote⟩ := hc
  simp only [foreignPunctuation, List.mem_cons, List.not_mem_nil, or_false, not_or] at hforeign
  have hdollar : dollarTag rest = none := by
    cases rest with
    | nil => rfl
    | cons d rest =>
      rw [hrest d rfl]
      rfl
  rw [token_other (isSpace_of_ascii hascii) hforeign.1 (.inr (hrest.head_ne (by decide)))
    (.inr (hrest.head_ne (by decide))) hquote (fun h => hrest.head_ne (by decide) h.2)
    (fun _ => hdollar), if_neg, if_neg, if_neg]
  · rintro (h | rfl)
    · simp [Text.isWord, h] at hword
    · cases hword
  · intro h
    simp [Text.isWord, h] at hword
  · simp [hdouble, hforeign.2]

theorem IsPlainNumber.ne_nil {v : Text} (h : IsPlainNumber v) : v ≠ [] := by
  obtain ⟨whole, frac, hwhole, hv⟩ := h
  rintro rfl
  rcases hv with rfl | ⟨-, hv⟩
  · simp [Text.isDigits] at hwhole
  · simp at hv

/-- A standard token that is plain is read back. -/
theorem token_spell {t : Token} (hs : t.Standard) (hp : t.Plain) {rest : Text}
    (hrest : Separated rest) : ∃ c cs, t.spell = c :: cs ∧
      token c (cs ++ rest) = .ok (some t, t.spell.length) := by
  obtain ⟨kind, v⟩ := t
  cases kind with
  | word =>
    cases v with
    | nil => simp [Token.Standard] at hs
    | cons c v =>
      simp only [Token.Standard, List.head?_cons, Option.any_some, List.all_cons,
        Bool.and_eq_true] at hs
      have hv : v.all isWordPart = true := by
        rw [List.all_eq_true]
        intro d hd
        exact isWordPart_of_isNamePart (List.all_eq_true.mp hs.2.2 d hd)
          (hp d (List.mem_cons_of_mem c hd))
      exact ⟨c, v, rfl,
        token_word (isLetter_of_isNameStart hs.1 (hp c List.mem_cons_self)) hv hrest⟩
  | ident =>
    refine ⟨'"', doubled '"' v ++ ['"'], rfl, ?_⟩
    rw [List.append_assoc, List.singleton_append, token_ident hrest]
    simp [Token.spell]
  | punct =>
    obtain ⟨c, hv, hc⟩ := hs
    dsimp only at hv
    subst hv
    exact ⟨c, [], rfl, token_punct hc (hp c (List.mem_singleton.mpr rfl)) hrest⟩
  | str =>
    refine ⟨'\'', doubled '\'' v ++ ['\''], rfl, ?_⟩
    rw [List.append_assoc, List.singleton_append, token_str hp hrest]
    simp [Token.spell]
  | num =>
    obtain ⟨c, cs, hv⟩ := List.exists_cons_of_ne_nil (IsPlainNumber.ne_nil hp)
    dsimp only at hv
    subst hv
    exact ⟨c, cs, rfl, token_num hp hrest⟩

/-! ## A list of tokens -/

theorem tokens_skip (n : ℕ) (cs : Text) : tokens n cs = tokens 0 (cs.drop n) := by
  induction cs generalizing n with
  | nil => cases n <;> rfl
  | cons c cs ih =>
    cases n with
    | zero => rfl
    | succ n => rw [tokens, ih, List.drop_succ_cons]

theorem tokens_token {c : Char} {cs : Text} {t : Option Token} {n : ℕ} (hn : 0 < n)
    (h : token c cs = .ok (t, n)) :
    tokens 0 (c :: cs) = (tokens 0 ((c :: cs).drop n)).map fun ts => t.toList ++ ts := by
  obtain ⟨n, rfl⟩ := Nat.exists_eq_succ_of_ne_zero hn.ne'
  rw [tokens, h, List.drop_succ_cons, ← tokens_skip]
  change (tokens n cs >>= fun ts => pure (t.toList ++ ts)) = _
  cases tokens n cs <;> rfl

theorem tokens_spell {t : Token} (hs : t.Standard) (hp : t.Plain) {rest : Text}
    (hrest : Separated rest) :
    tokens 0 (t.spell ++ rest) = (tokens 0 rest).map fun ts => t :: ts := by
  obtain ⟨c, cs, heq, htoken⟩ := token_spell hs hp hrest
  rw [heq, List.cons_append, tokens_token (by simp [heq]) htoken, ← List.cons_append, ← heq,
    List.drop_left]
  rfl

/-- What stands behind the first token. -/
def behind (ts : List Token) : Text := if ts = [] then [] else ' ' :: write ts

theorem write_cons (t : Token) (ts : List Token) : write (t :: ts) = t.spell ++ behind ts := by
  cases ts with
  | nil => simp [write, behind, Text.join]
  | cons u ts => simp [write, behind, Text.join]

theorem separated_behind (ts : List Token) : Separated (behind ts) := by
  intro c hc
  rw [behind] at hc
  split_ifs at hc
  · cases hc
  · exact (Option.some.inj hc).symm

theorem tokens_behind (ts : List Token) : tokens 0 (behind ts) = tokens 0 (write ts) := by
  rw [behind]
  split_ifs with h
  · rw [h]
    rfl
  · rw [tokens_token (n := 1) Nat.one_pos (t := none) rfl]
    rw [List.drop_one, List.tail_cons]
    cases tokens 0 (write ts) <;> rfl

theorem tokens_write_cons {t : Token} (hs : t.Standard) (hp : t.Plain) (ts : List Token) :
    tokens 0 (write (t :: ts)) = (tokens 0 (write ts)).map fun ts => t :: ts := by
  rw [write_cons, tokens_spell hs hp (separated_behind ts), tokens_behind]

/-! ## What the lexer returns -/

theorem isPlainNumber_number {c : Char} {cs : Text} (h : Text.isDigit c = true) :
    IsPlainNumber (number (c :: cs)) := by
  have htake : ∀ v : Text, (v.takeWhile Text.isDigit).all Text.isDigit = true := fun v =>
    List.all_takeWhile
  have hwhole : Text.isDigits ((c :: cs).takeWhile Text.isDigit) = true := by
    rw [Text.isDigits, htake, List.takeWhile_cons_of_pos h]
    rfl
  rw [number]
  dsimp only
  split
  next rest _ =>
    split_ifs with hfrac
    · exact ⟨_, [], hwhole, .inl rfl⟩
    · refine ⟨_, _, hwhole, .inr ⟨?_, rfl⟩⟩
      rw [Text.isDigits, htake]
      simpa using hfrac
  · exact ⟨_, [], hwhole, .inl rfl⟩

theorem ascii_of_isWordPart {c : Char} (h : isWordPart c = true) : c.toNat < 128 := by
  rw [isWordPart, Bool.or_eq_true, beq_iff_eq] at h
  rcases h with h | rfl
  · exact (ascii_of_isWord h).2.trans (by decide)
  · decide

/-- Words, numbers and punctuation are returned as the lexer knows them. -/
theorem plain_of_token {c : Char} {cs : Text} {t : Token} {n : ℕ}
    (h : token c cs = .ok (some t, n)) (hkind : t.kind ≠ .str) : t.Plain := by
  rw [token] at h
  split at h
  · cases h
  split at h
  · split at h <;> cases h
  next hhash =>
  split at h
  · split at h
    · cases h
    · split at h <;> cases h
  split at h
  · split at h <;> cases h
    exact absurd rfl hkind
  split at h
  · split at h <;> cases h
    exact absurd rfl hkind
  split at h
  · split at h <;> cases h
    exact absurd rfl hkind
  split at h
  · split at h <;> cases h
    trivial
  next hquote =>
  split at h
  next hdigit =>
    cases h
    exact isPlainNumber_number hdigit
  split at h
  next hletter =>
    cases h
    intro d hd
    rw [List.mem_cons] at hd
    rcases hd with rfl | hd
    · apply ascii_of_isWordPart
      rcases hletter with hletter | rfl
      · simp [isWordPart, Text.isWord, hletter]
      · decide
    · exact ascii_of_isWordPart (List.all_eq_true.mp List.all_takeWhile d hd)
  · cases h
    intro d hd
    rw [List.mem_singleton.mp hd]
    simp only [foreignPunctuation, List.mem_cons, List.not_mem_nil, or_false, not_or]
    exact ⟨fun hc => hhash (.inr hc), fun hc => hquote (.inr (.inr hc)),
      fun hc => hquote (.inr (.inl hc))⟩

theorem plain_of_tokens {cs : Text} {ts : List Token} {n : ℕ} (h : tokens n cs = .ok ts) :
    ∀ t ∈ ts, t.kind ≠ .str → t.Plain := by
  induction cs generalizing n ts with
  | nil =>
    cases n <;> cases h <;> exact fun _ ht => by cases ht
  | cons c cs ih =>
    cases n with
    | succ n => exact ih h
    | zero =>
      rw [tokens] at h
      cases htoken : token c cs with
      | error e =>
        rw [htoken] at h
        cases h
      | ok r =>
        rw [htoken] at h
        change (tokens (r.2 - 1) cs >>= fun ts => pure (r.1.toList ++ ts)) = .ok ts at h
        cases hrest : tokens (r.2 - 1) cs with
        | error e =>
          rw [hrest] at h
          cases h
        | ok rest =>
          rw [hrest] at h
          cases h
          intro t ht hkind
          rcases List.mem_append.mp ht with ht | ht
          · have hr : r.1 = some t := Option.mem_toList.mp ht
            exact plain_of_token (by rw [htoken, ← hr]) hkind
          · exact ih hrest t ht hkind

/-- A literal that is read back is plain. -/
theorem plain_of_str {v rest : Text} {ts : List Token} (hrest : Separated rest)
    (h : tokens 0 (Token.spell ⟨.str, v⟩ ++ rest) = .ok (⟨.str, v⟩ :: ts)) : '\\' ∉ v := by
  have hspell : Token.spell ⟨.str, v⟩ ++ rest = '\'' :: (doubled '\'' v ++ '\'' :: rest) := by
    simp [Token.spell]
  have htoken := token_quote (doubled '\'' v ++ '\'' :: rest)
  rw [hspell] at h
  cases hlit : literal (doubled '\'' v ++ '\'' :: rest) with
  | none =>
    rw [hlit] at htoken
    rw [tokens, htoken] at h
    cases h
  | some r =>
    obtain ⟨w, n⟩ := r
    rw [hlit] at htoken
    rw [tokens_token (Nat.succ_pos n) htoken] at h
    cases hmore : tokens 0 (('\'' :: (doubled '\'' v ++ '\'' :: rest)).drop (n + 1)) with
    | error e =>
      rw [hmore] at h
      cases h
    | ok more =>
      rw [hmore] at h
      simp only [Except.map, Option.toList_some, List.singleton_append, Except.ok.injEq,
        List.cons.injEq, Token.mk.injEq, true_and] at h
      rw [h.1] at hlit
      exact notMem_of_literal (hrest.head_ne (by decide)) hlit

/-- The standard tokens that are read back are the plain ones. -/
theorem lexes_back_iff (ts : List Token) (h : ∀ t ∈ ts, t.Standard) :
    tokenizeSql (write ts) = .ok ts ↔ ∀ t ∈ ts, t.Plain := by
  induction ts with
  | nil => exact ⟨fun _ _ ht => (List.not_mem_nil ht).elim, fun _ => rfl⟩
  | cons t ts ih =>
    rw [List.forall_mem_cons] at h ⊢
    rw [← ih h.2]
    constructor
    · intro hback
      have hplain : t.Plain := by
        by_cases hkind : t.kind = .str
        · obtain ⟨kind, v⟩ := t
          dsimp only at hkind
          subst hkind
          rw [tokenizeSql, write_cons] at hback
          exact plain_of_str (separated_behind ts) hback
        · exact plain_of_tokens hback t List.mem_cons_self hkind
      refine ⟨hplain, ?_⟩
      rw [tokenizeSql, tokens_write_cons h.1 hplain] at hback
      rw [tokenizeSql]
      cases hrest : tokens 0 (write ts) with
      | error e =>
        rw [hrest] at hback
        cases hback
      | ok rest =>
        rw [hrest] at hback
        rw [(List.cons.inj (Except.ok.inj hback)).2]
    · rintro ⟨hplain, hback⟩
      rw [tokenizeSql] at hback
      rw [tokenizeSql, tokens_write_cons h.1 hplain, hback]
      rfl

/-- Every kind of token in one statement. -/
theorem lexes_back_iff_select :
    (∀ t ∈ ([⟨.word, "SELECT".toList⟩, ⟨.num, "1.5".toList⟩, ⟨.punct, [',']⟩,
        ⟨.str, "it's".toList⟩, ⟨.ident, "odd \"name\"".toList⟩] : List Token), t.Standard) ∧
    (tokenizeSql (write [⟨.word, "SELECT".toList⟩, ⟨.num, "1.5".toList⟩, ⟨.punct, [',']⟩,
        ⟨.str, "it's".toList⟩, ⟨.ident, "odd \"name\"".toList⟩]) =
      .ok [⟨.word, "SELECT".toList⟩, ⟨.num, "1.5".toList⟩, ⟨.punct, [',']⟩,
        ⟨.str, "it's".toList⟩, ⟨.ident, "odd \"name\"".toList⟩] ↔
      ∀ t ∈ ([⟨.word, "SELECT".toList⟩, ⟨.num, "1.5".toList⟩, ⟨.punct, [',']⟩,
        ⟨.str, "it's".toList⟩, ⟨.ident, "odd \"name\"".toList⟩] : List Token), t.Plain) := by
  have hstandard : ∀ t ∈ ([⟨.word, "SELECT".toList⟩, ⟨.num, "1.5".toList⟩, ⟨.punct, [',']⟩,
      ⟨.str, "it's".toList⟩, ⟨.ident, "odd \"name\"".toList⟩] : List Token), t.Standard := by
    refine List.forall_mem_cons.mpr ⟨rfl, List.forall_mem_cons.mpr ⟨?_, ?_⟩⟩
    · exact ⟨"1.5".toList, [], rfl, ⟨['1'], ['5'], by decide, rfl, .inl rfl⟩, .inl rfl⟩
    · exact List.forall_mem_cons.mpr ⟨⟨',', rfl, rfl⟩, List.forall_mem_cons.mpr
        ⟨trivial, List.forall_mem_cons.mpr ⟨trivial, fun _ h => (List.not_mem_nil h).elim⟩⟩⟩
  exact ⟨hstandard, lexes_back_iff _ hstandard⟩

/-- `SELECT '\' , v FROM secrets WHERE n > ' -- '` -/
def hidingSecrets : List Token :=
  [⟨.word, "SELECT".toList⟩, ⟨.str, ['\\']⟩, ⟨.punct, [',']⟩, ⟨.word, ['v']⟩,
    ⟨.word, "FROM".toList⟩, ⟨.word, "secrets".toList⟩, ⟨.word, "WHERE".toList⟩, ⟨.word, ['n']⟩,
    ⟨.punct, ['>']⟩, ⟨.str, " -- ".toList⟩]

/-- To the lexer the first literal ends with the second one, and so the table is not seen. -/
theorem secrets_hidden :
    (∀ t ∈ hidingSecrets, t.Standard) ∧
    tokenizeSql (write hidingSecrets) ≠ .ok hidingSecrets ∧
    (checkSql asciiCasing (write hidingSecrets) true ["orders".toList]).ok = true ∧
    "secrets".toList ∈ tableNames asciiCasing hidingSecrets := by
  refine ⟨?_, ?_, by decide, by decide⟩
  · simp only [hidingSecrets, List.forall_mem_cons, Token.Standard]
    exact ⟨rfl, trivial, ⟨',', rfl, rfl⟩, rfl, rfl, rfl, rfl, rfl, ⟨'>', rfl, rfl⟩, trivial,
      fun _ h => (List.not_mem_nil h).elim⟩
  · intro h
    have htokens : (tokenizeSql (write hidingSecrets)).toOption ≠ some hidingSecrets := by
      decide
    exact htokens (by rw [h]; rfl)

/-! ## Dangerous functions -/

/-- A token of these kinds names a dangerous function and stands before a parenthesis. -/
def CallsDangerous (casing : Casing) (kinds : List TokenKind) (ts : List Token) : Prop :=
  ∃ before t after, ts = before ++ t :: after ∧ t.kind ∈ kinds ∧
    casing.toLowerCase t.value ∈ dangerousFunctions.map String.toList ∧ starts '(' after = true

theorem not_callsDangerous_of_dangerousCall {casing : Casing} {ts : List Token}
    (h : dangerousCall casing ts = none) : ¬ CallsDangerous casing [.word] ts := by
  rintro ⟨before, t, after, rfl, hkind, hname, hcall⟩
  induction before with
  | nil =>
    rw [List.nil_append, dangerousCall] at h
    split_ifs at h with hword
    refine hword ⟨?_, hcall⟩
    rw [isOneOf, lower, if_pos (List.mem_singleton.mp hkind)]
    exact List.contains_iff_mem.mpr hname
  | cons u before ih =>
    rw [List.cons_append, dangerousCall] at h
    split_ifs at h
    exact ih h

theorem dangerousCall_of_ok {casing : Casing} {sql : Text} {readOnly : Bool}
    {allowedTables : List Text} (h : (checkSql casing sql readOnly allowedTables).ok = true)
    {ts : List Token} (hts : statement sql = .ok ts) : dangerousCall casing ts = none := by
  rw [checkSql, hts] at h
  dsimp only at h
  split at h
  · cases h
  · split at h
    · cases h
    · assumption

/-- An accepted statement calls no dangerous function exactly if it calls none by a quoted
identifier. -/
theorem no_dangerous_call_iff (casing : Casing) (sql : Text) (readOnly : Bool)
    (allowedTables : List Text) (h : (checkSql casing sql readOnly allowedTables).ok = true) :
    (∀ ts, statement sql = .ok ts → ¬ CallsDangerous casing [.word, .ident] ts) ↔
      ∀ ts, statement sql = .ok ts → ¬ CallsDangerous casing [.ident] ts := by
  constructor
  · rintro hall ts hts ⟨before, t, after, heq, hkind, hcall⟩
    exact hall ts hts ⟨before, t, after, heq, List.mem_cons_of_mem _ hkind, hcall⟩
  · rintro hall ts hts ⟨before, t, after, heq, hkind, hcall⟩
    rcases List.mem_cons.mp hkind with hword | hident
    · exact not_callsDangerous_of_dangerousCall (dangerousCall_of_ok h hts)
        ⟨before, t, after, heq, List.mem_singleton.mpr hword, hcall⟩
    · exact hall ts hts ⟨before, t, after, heq, hident, hcall⟩

theorem no_dangerous_call_iff_count :
    (checkSql asciiCasing "SELECT count(*) FROM orders".toList true []).ok = true ∧
    ((∀ ts, statement "SELECT count(*) FROM orders".toList = .ok ts →
        ¬ CallsDangerous asciiCasing [.word, .ident] ts) ↔
      ∀ ts, statement "SELECT count(*) FROM orders".toList = .ok ts →
        ¬ CallsDangerous asciiCasing [.ident] ts) := by
  have hok : (checkSql asciiCasing "SELECT count(*) FROM orders".toList true []).ok = true := by
    decide
  exact ⟨hok, no_dangerous_call_iff _ _ true [] hok⟩

/-- A quoted name is as good as the word. -/
theorem quoted_call_accepted :
    (checkSql asciiCasing "SELECT \"pg_read_file\"('/etc/passwd')".toList true []).ok = true ∧
    ∃ ts, statement "SELECT \"pg_read_file\"('/etc/passwd')".toList = .ok ts ∧
      CallsDangerous asciiCasing [.word, .ident] ts :=
  ⟨by decide, _, rfl, [⟨.word, "SELECT".toList⟩], ⟨.ident, "pg_read_file".toList⟩,
    [⟨.punct, ['(']⟩, ⟨.str, "/etc/passwd".toList⟩, ⟨.punct, [')']⟩], rfl, by decide,
    by decide, rfl⟩

end Prgd.SqlGuard
