import Prgd.Cron

/-!
# The grammar of cron expressions

What `parseCron` accepts and what it makes of it. A field is a list of parts: `*`, a
number or a range of numbers, and an optional step. A number is written in decimal
digits, and in the fields of the month and the day of the week also as a name in any
case. A step is written in decimal digits and not too large for a number of the
language.

The parser takes items apart with `split` and reads steps with `Number`, so it also
accepts items with a second slash or a second dash, whose rest it drops, and steps such
as `1e1`. Nothing is said here about those.
-/
namespace Prgd.CronGrammar
open Cron

/-! ## Parts -/

inductive Base where
  | star
  | number (v : Text)
  | range (a b : Text)
  deriving DecidableEq

structure Part where
  base : Base
  step : Option Text
  deriving DecidableEq

def Base.text : Base → Text
  | .star => ['*']
  | .number v => v
  | .range a b => a ++ '-' :: b

def Part.text (p : Part) : Text := p.base.text ++ stepSuffix p.step

/-- The text is a number of the field: one of its names, or decimal digits. -/
def IsNumber (f : FieldSpec) (v : Text) (n : ℕ) : Prop :=
  ((∃ i, f.names.idxOf? (Text.toUpperCase v) = some i ∧ n = i + f.nameBase) ∨
    (Text.isDigits v = true ∧ n = Text.digitsValue v)) ∧ f.min ≤ n ∧ n ≤ f.max

/-- The bounds of a part. A single number with a step goes up to the end of the field. -/
def Base.Bounds (f : FieldSpec) (stepped : Bool) (lo hi : ℕ) : Base → Prop
  | .star => lo = f.min ∧ hi = f.max
  | .number v => IsNumber f v lo ∧ hi = if stepped then f.max else lo
  | .range a b => IsNumber f a lo ∧ IsNumber f b hi ∧ lo ≤ hi

structure Part.Valid (f : FieldSpec) (p : Part) : Prop where
  bounds : ∃ lo hi, p.base.Bounds f p.step.isSome lo hi
  step : ∀ s ∈ p.step, Text.isDigits s = true ∧ 1 ≤ Text.digitsValue s ∧
    (JsNumber.ofText s).isFinite = true

/-- The values that a part describes: every `step`-th one from its lower bound on. -/
def Part.Denotes (f : FieldSpec) (p : Part) (n : ℕ) : Prop :=
  ∃ lo hi, p.base.Bounds f p.step.isSome lo hi ∧ lo ≤ n ∧ n ≤ hi ∧
    (p.step.elim 1 Text.digitsValue) ∣ n - lo

/-- The field is the list of the parts. -/
structure Reads (f : FieldSpec) (spec : Text) (parts : List Part) : Prop where
  nonempty : parts ≠ []
  text : spec = Text.join [','] (parts.map Part.text)
  valid : ∀ p ∈ parts, p.Valid f

/-- An item that the parser takes although it is no part: there is more than one slash, more
than one dash in front of the slash, or a step that is a positive integer for `Number` but
not written in decimal digits. -/
def Slipped (item : Text) : Prop :=
  1 < item.count '/' ∨ 1 < (item.takeWhile (· ≠ '/')).count '-' ∨
    ∃ s, (Text.split item ['/'])[1]? = some s ∧ Text.isDigits s = false ∧
      (JsNumber.ofText s).isInteger = true ∧ JsNumber.lt (JsNumber.ofText s) (.fin 1) = false

instance (item : Text) : Decidable (Slipped item) :=
  decidable_of_iff (1 < item.count '/' ∨ 1 < (item.takeWhile (· ≠ '/')).count '-' ∨
    ((Text.split item ['/'])[1]?.any fun s => !Text.isDigits s &&
      ((JsNumber.ofText s).isInteger && !JsNumber.lt (JsNumber.ofText s) (.fin 1))) = true)
    (by simp [Slipped, Option.any_eq_true])

/-! ## Numbers -/

/-- Small bounds, and names of capital letters. -/
structure Proper (f : FieldSpec) : Prop where
  bounds : f.min ≤ f.max
  small : f.max < 2 ^ 52
  names : ∀ name ∈ f.names, ∀ c ∈ name, Text.isUpper c = true

theorem isUpper_of_all {names : List Text}
    (h : (names.all fun name => name.all Text.isUpper) = true) :
    ∀ name ∈ names, ∀ c ∈ name, Text.isUpper c = true := by
  intro name hname
  exact List.all_eq_true.mp (List.all_eq_true.mp h name hname)

theorem ofText_digits_cases {v : Text} (h : Text.isDigits v = true) :
    (JsNumber.ofText v = .fin (Text.digitsValue v) ∧ Text.digitsValue v < 2 ^ 53) ∨
      2 ^ 53 ≤ Text.digitsValue v ∧ (JsNumber.ofText v = .inf false ∨
        ∃ k : ℕ, JsNumber.ofText v = .fin k ∧ 2 ^ 52 ≤ k) := by
  have hread := JsNumber.ofText_of_isDigit (isDigits_iff.mp h).1 (isDigits_iff.mp h).2
  by_cases hsmall : Text.digitsValue v < 2 ^ 53
  · left
    exact ⟨hread.trans (JsNumber.ofRat_natCast hsmall), hsmall⟩
  · right
    rw [hread]
    exact ⟨Nat.le_of_not_lt hsmall, JsNumber.ofRat_natCast_large (Nat.le_of_not_lt hsmall)⟩

theorem isInteger_natCast (n : ℕ) : JsNumber.isInteger (.fin (n : ℚ)) = true := by
  simp [JsNumber.isInteger]

theorem inRange_natCast {lo hi n : ℕ} : inRange lo hi (.fin (n : ℚ)) = true ↔ lo ≤ n ∧ n ≤ hi := by
  simp only [inRange, Bool.and_eq_true, JsNumber.le_fin, Nat.cast_le]

theorem isUpper_range {c : Char} (h : Text.isUpper c = true) : 65 ≤ c.toNat ∧ c.toNat ≤ 90 := by
  simp only [Text.isUpper, Bool.and_eq_true, decide_eq_true_eq] at h
  exact ⟨h.1, h.2⟩

/-- A character below the letters stays in the upper case. -/
theorem mem_toUpperCase {c : Char} (hc : c.toNat < 97) {v : Text} (h : c ∈ v) :
    c ∈ Text.toUpperCase v :=
  List.mem_flatMap.mpr ⟨c, h, by rw [upperChar_of_lt hc]; exact List.mem_singleton_self c⟩

/-- A name holds no character below the letters. -/
theorem notMem_of_name {f : FieldSpec} (hf : Proper f) {v : Text} {i : ℕ}
    (h : f.names.idxOf? (Text.toUpperCase v) = some i) {c : Char} (hc : c.toNat < 65) : c ∉ v := by
  intro hmem
  have hname : Text.toUpperCase v ∈ f.names := by
    by_contra hnot
    rw [List.idxOf?_eq_none_iff.mpr hnot] at h
    cases h
  have := isUpper_range (hf.names _ hname c (mem_toUpperCase (by omega) hmem))
  omega

theorem isDigits_of_name {f : FieldSpec} (hf : Proper f) {v : Text} {i : ℕ}
    (h : f.names.idxOf? (Text.toUpperCase v) = some i) : Text.isDigits v = false := by
  by_contra hdigits
  rw [Bool.not_eq_false] at hdigits
  obtain ⟨c, cs, rfl⟩ := List.exists_cons_of_ne_nil (isDigits_iff.mp hdigits).1
  have hc : Text.isDigit c = true := (isDigits_iff.mp hdigits).2 c (by simp)
  have hlow : c.toNat ≤ 57 := by
    simp only [Text.isDigit, Bool.and_eq_true, decide_eq_true_eq] at hc
    exact hc.2
  exact notMem_of_name hf h (by omega) (List.mem_cons_self)

/-- What the inner function `value` accepts. -/
theorem value_iff {f : FieldSpec} (hf : Proper f) {v : Text} {n : ℕ} :
    value f v = .ok n ↔ IsNumber f v n := by
  have hread : ∀ m : ℕ, (∀ k, ((∃ i, f.names.idxOf? (Text.toUpperCase v) = some i ∧
      k = i + f.nameBase) ∨ (Text.isDigits v = true ∧ k = Text.digitsValue v)) ↔ k = m) →
      value f v = (if f.min ≤ m ∧ m ≤ f.max then .ok m else .error (quoted v ++
        " is out of range ".toList ++ JsNumber.digits f.min ++ " to ".toList ++
          JsNumber.digits f.max)) →
      (value f v = .ok n ↔ IsNumber f v n) := by
    intro m hm hvalue
    rw [hvalue, IsNumber, hm n]
    split_ifs with hin
    · rw [Except.ok.injEq]
      constructor
      · rintro rfl
        exact ⟨rfl, hin⟩
      · rintro ⟨rfl, -⟩
        rfl
    · apply iff_of_false
      · simp
      · rintro ⟨rfl, hin'⟩
        exact hin hin'
  cases hname : f.names.idxOf? (Text.toUpperCase v) with
  | some i =>
    have hdigits := isDigits_of_name hf hname
    apply hread (i + f.nameBase)
    · simp [hname, hdigits]
    · simp only [value, hname, isInteger_natCast, Bool.true_and, inRange_natCast,
        JsNumber.toNat_fin]
  | none =>
    by_cases hdigits : Text.isDigits v = true
    · apply hread (Text.digitsValue v)
      · simp [hname, hdigits]
      · have hsmall := hf.small
        simp only [value, hname, hdigits, if_true]
        rcases ofText_digits_cases hdigits with ⟨hfin, -⟩ | ⟨hlarge, hinf | ⟨k, hk, hbig⟩⟩
        · simp only [hfin, isInteger_natCast, Bool.true_and, inRange_natCast, JsNumber.toNat_fin]
        · rw [hinf, if_neg (by simp [JsNumber.isInteger]), if_neg (by omega)]
        · rw [hk, isInteger_natCast, Bool.true_and, if_neg (by rw [inRange_natCast]; omega),
            if_neg (by omega)]
    · apply iff_of_false
      · simp [value, hname, hdigits, JsNumber.isInteger]
      · simp [IsNumber, hname, hdigits]

/-- A number of a field is a text without the characters that separate parts. -/
theorem IsNumber.notMem {f : FieldSpec} (hf : Proper f) {v : Text} {n : ℕ} (h : IsNumber f v n)
    {c : Char} (hc : c.toNat < 48) : c ∉ v := by
  rcases h.1 with ⟨i, hi, -⟩ | ⟨hdigits, -⟩
  · exact notMem_of_name hf hi (by omega)
  · apply notMem_of_isDigits hdigits
    simp only [Text.isDigit, Bool.and_eq_false_iff, decide_eq_false_iff_not]
    left
    intro hle
    have : 48 ≤ c.toNat := hle
    omega

/-! ## Items -/

/-- A text with at most one `c` has none, or is cut in two by it. -/
theorem cut_once {c : Char} {s : Text} (h : s.count c ≤ 1) :
    c ∉ s ∨ ∃ a b, s = a ++ c :: b ∧ c ∉ a ∧ c ∉ b := by
  by_cases hc : c ∈ s
  · right
    obtain ⟨a, b, rfl, ha⟩ := List.eq_append_cons_of_mem hc
    refine ⟨a, b, rfl, ha, ?_⟩
    rw [List.count_append, List.count_cons_self] at h
    exact List.count_eq_zero.mp (by omega)
  · exact .inl hc

theorem Base.Bounds.range {f : FieldSpec} (hf : Proper f) {stepped : Bool} {lo hi : ℕ} {b : Base}
    (h : b.Bounds f stepped lo hi) : f.min ≤ lo ∧ lo ≤ hi ∧ hi ≤ f.max := by
  cases b with
  | star =>
    obtain ⟨rfl, rfl⟩ := h
    exact ⟨le_rfl, hf.bounds, le_rfl⟩
  | number v =>
    obtain ⟨hv, rfl⟩ := h
    have hin := hv.2
    split_ifs <;> omega
  | range a b =>
    obtain ⟨ha, hb, hle⟩ := h
    exact ⟨ha.2.1, hle, hb.2.2⟩

/-- The text of a base holds no slash and no comma. -/
theorem Base.Bounds.notMem {f : FieldSpec} (hf : Proper f) {stepped : Bool} {lo hi : ℕ} {b : Base}
    (h : b.Bounds f stepped lo hi) : '/' ∉ b.text ∧ ',' ∉ b.text := by
  cases b with
  | star => decide
  | number v => exact ⟨h.1.notMem hf (by decide), h.1.notMem hf (by decide)⟩
  | range a b =>
    have hslash := h.1.notMem hf (c := '/') (by decide)
    have hcomma := h.1.notMem hf (c := ',') (by decide)
    have hslash' := h.2.1.notMem hf (c := '/') (by decide)
    have hcomma' := h.2.1.notMem hf (c := ',') (by decide)
    simp [Base.text, hslash, hcomma, hslash', hcomma']

/-- The bounds that the parser finds for the text of a base. -/
theorem bounds_of_base {f : FieldSpec} (hf : Proper f) {stepText : Option Text} {lo hi : ℕ} {b : Base}
    (h : b.Bounds f stepText.isSome lo hi) : bounds f b.text stepText = .ok (lo, hi) := by
  cases b with
  | star =>
    obtain ⟨rfl, rfl⟩ := h
    rfl
  | number v =>
    obtain ⟨hv, rfl⟩ := h
    have hdash := hv.notMem hf (c := '-') (by decide)
    have hstar : v ≠ ['*'] := by
      rintro rfl
      exact hv.notMem hf (c := '*') (by decide) (by simp)
    have hvalue := (value_iff hf).mpr hv
    cases stepText <;>
      simp [bounds, Base.text, hstar, hdash, hvalue, bind, Except.bind, pure, Except.pure]
  | range a b =>
    obtain ⟨ha, hb, hle⟩ := h
    have hda := ha.notMem hf (c := '-') (by decide)
    have hdb := hb.notMem hf (c := '-') (by decide)
    have hstar : a ++ '-' :: b ≠ ['*'] := by
      intro heq
      have : '-' ∈ ['*'] := heq ▸ (by simp)
      revert this
      decide
    have hsplit : Text.split (a ++ '-' :: b) ['-'] = [a, b] := by
      rw [Text.split_append hda, Text.split_of_notMem hdb]
    have hva := (value_iff hf).mpr ha
    have hvb := (value_iff hf).mpr hb
    simp [bounds, Base.text, hstar, hsplit, hva, hvb, bind, Except.bind, not_lt.mpr hle]

/-- Where the parser finds bounds, in a text with at most one dash, there is a base. -/
theorem base_of_bounds {f : FieldSpec} (hf : Proper f) {text : Text} {stepText : Option Text}
    {lo hi : ℕ} (hdash : text.count '-' ≤ 1) (h : bounds f text stepText = .ok (lo, hi)) :
    ∃ b : Base, b.text = text ∧ b.Bounds f stepText.isSome lo hi := by
  by_cases hstar : text = ['*']
  · rw [bounds, if_pos hstar] at h
    cases h
    exact ⟨.star, hstar.symm, rfl, rfl⟩
  rcases cut_once hdash with hno | ⟨a, b, rfl, ha, hb⟩
  · have hcontains : ¬ List.contains text '-' = true := by simpa using hno
    rw [bounds, if_neg hstar, if_neg hcontains] at h
    obtain ⟨n, hn, hrest⟩ := bind_ok h
    cases hrest
    refine ⟨.number text, rfl, (value_iff hf).mp hn, ?_⟩
    cases stepText <;> rfl
  · have hcontains : List.contains (a ++ '-' :: b) '-' = true := by simp
    have hsplit : Text.split (a ++ '-' :: b) ['-'] = [a, b] := by
      rw [Text.split_append ha, Text.split_of_notMem hb]
    rw [bounds, if_neg hstar, if_pos hcontains] at h
    obtain ⟨n, hn, hrest⟩ := bind_ok h
    obtain ⟨m, hm, hlast⟩ := bind_ok hrest
    rw [hsplit] at hn hm
    split_ifs at hlast with hlt
    cases hlast
    exact ⟨.range a b, rfl, (value_iff hf).mp hn, (value_iff hf).mp hm, Nat.le_of_not_lt hlt⟩

/-- The loop collects every `step`-th value. -/
theorem mem_upTo {hi step n : ℕ} (hstep : 1 ≤ step) {fuel lo : ℕ} (h : hi + 1 - lo ≤ fuel) :
    n ∈ upTo hi step fuel lo ↔ lo ≤ n ∧ n ≤ hi ∧ step ∣ n - lo := by
  induction fuel generalizing lo with
  | zero =>
    simp only [upTo, List.not_mem_nil, false_iff]
    omega
  | succ fuel ih =>
    rw [upTo]
    split_ifs with hle
    · rw [List.mem_cons, ih (by omega)]
      constructor
      · rintro (rfl | ⟨hlo, hhi, hdvd⟩)
        · simp [hle]
        · refine ⟨by omega, hhi, ?_⟩
          have hsum : n - lo = n - (lo + step) + step := by omega
          rw [hsum]
          exact Nat.dvd_add hdvd (dvd_refl step)
      · rintro ⟨hlo, hhi, hdvd⟩
        rcases Nat.eq_or_lt_of_le hlo with rfl | hlt
        · exact .inl rfl
        · have hge := Nat.le_of_dvd (by omega) hdvd
          right
          refine ⟨by omega, hhi, ?_⟩
          rw [← Nat.sub_sub]
          exact Nat.dvd_sub hdvd (dvd_refl step)
    · simp only [List.not_mem_nil, false_iff]
      omega

/-- What the parser reads as a step: the number 1 without one. -/
def stepNumber (stepText : Option Text) : JsNumber :=
  match stepText with
  | none => .fin 1
  | some s => JsNumber.ofText s

theorem item_eq_bind (f : FieldSpec) (part : Text) :
    item f part =
      if (stepNumber (Text.split part ['/'])[1]?).isInteger = false ∨
          JsNumber.lt (stepNumber (Text.split part ['/'])[1]?) (.fin 1) then
        .error ("bad step in ".toList ++ quoted part)
      else (bounds f ((Text.split part ['/']).getD 0 []) (Text.split part ['/'])[1]?).map fun b =>
        upTo b.2 (stepNumber (Text.split part ['/'])[1]?).toNat (b.2 + 1 - b.1) b.1 := by
  unfold item
  dsimp only
  generalize (Text.split part ['/'])[1]? = stepText
  generalize (Text.split part ['/']).getD 0 [] = range
  cases stepText with
  | none => cases bounds f range none <;> rfl
  | some s => cases bounds f range (some s) <;> rfl

/-- A step in decimal digits, as a number of the language: too large ones are rounded, and
divide nothing in the field but 0. -/
theorem step_of_digits {s : Text} (hs : Text.isDigits s = true) (hpos : 1 ≤ Text.digitsValue s)
    (hfin : (JsNumber.ofText s).isFinite = true) :
    (JsNumber.ofText s).isInteger = true ∧ JsNumber.lt (JsNumber.ofText s) (.fin 1) = false ∧
      1 ≤ (JsNumber.ofText s).toNat ∧
      ∀ m < 2 ^ 52, (JsNumber.ofText s).toNat ∣ m ↔ Text.digitsValue s ∣ m := by
  have hcase : ∀ k : ℕ, JsNumber.ofText s = .fin k → 1 ≤ k →
      (∀ m < 2 ^ 52, k ∣ m ↔ Text.digitsValue s ∣ m) →
      (JsNumber.ofText s).isInteger = true ∧ JsNumber.lt (JsNumber.ofText s) (.fin 1) = false ∧
        1 ≤ (JsNumber.ofText s).toNat ∧
        ∀ m < 2 ^ 52, (JsNumber.ofText s).toNat ∣ m ↔ Text.digitsValue s ∣ m := by
    intro k hk hone hdvd
    rw [hk, JsNumber.toNat_fin]
    refine ⟨isInteger_natCast k, ?_, hone, hdvd⟩
    simp only [JsNumber.lt, decide_eq_false_iff_not, not_lt]
    exact_mod_cast hone
  rcases ofText_digits_cases hs with ⟨hread, -⟩ | ⟨hlarge, hinf | ⟨k, hk, hbig⟩⟩
  · exact hcase _ hread hpos fun m _ => Iff.rfl
  · rw [hinf] at hfin
    cases hfin
  · refine hcase k hk (by omega) fun m hm => ?_
    constructor
    · intro hdvd
      rw [Nat.eq_zero_of_dvd_of_lt hdvd (by omega)]
      exact dvd_zero _
    · intro hdvd
      rw [Nat.eq_zero_of_dvd_of_lt hdvd (by omega)]
      exact dvd_zero _

theorem digits_of_step {s : Text} (hs : Text.isDigits s = true)
    (hint : (JsNumber.ofText s).isInteger = true)
    (hlt : JsNumber.lt (JsNumber.ofText s) (.fin 1) = false) :
    1 ≤ Text.digitsValue s ∧ (JsNumber.ofText s).isFinite = true := by
  rcases ofText_digits_cases hs with ⟨hread, -⟩ | ⟨hlarge, hinf | ⟨k, hk, -⟩⟩
  · rw [hread] at hlt ⊢
    simp only [JsNumber.lt, decide_eq_false_iff_not, not_lt] at hlt
    exact ⟨by exact_mod_cast hlt, rfl⟩
  · rw [hinf] at hint
    cases hint
  · rw [hk]
    exact ⟨by omega, rfl⟩

theorem split_part {f : FieldSpec} (hf : Proper f) {p : Part} (hp : p.Valid f) :
    Text.split p.text ['/'] = p.base.text :: p.step.toList := by
  obtain ⟨lo, hi, hbounds⟩ := hp.bounds
  have hslash := (hbounds.notMem hf).1
  unfold Part.text
  cases hs : p.step with
  | none => simpa [stepSuffix] using Text.split_of_notMem hslash
  | some s =>
    have hdigits := notMem_of_isDigits (hp.step s hs).1 (c := '/') (by decide)
    rw [stepSuffix, Text.split_append hslash, Text.split_of_notMem hdigits]
    rfl

theorem denotes_iff {f : FieldSpec} (hf : Proper f) {p : Part} {lo hi : ℕ}
    (h : p.base.Bounds f p.step.isSome lo hi) (n : ℕ) :
    p.Denotes f n ↔ lo ≤ n ∧ n ≤ hi ∧ (p.step.elim 1 Text.digitsValue) ∣ n - lo := by
  constructor
  · rintro ⟨lo', hi', h', hin⟩
    have heq := (bounds_of_base hf h).symm.trans (bounds_of_base hf h')
    cases heq
    exact hin
  · intro hin
    exact ⟨lo, hi, h, hin⟩

/-- The parser takes every part and collects the values that it denotes. -/
theorem item_of_part {f : FieldSpec} (hf : Proper f) {p : Part} (hp : p.Valid f) :
    ∃ vs, item f p.text = .ok vs ∧ ∀ n, n ∈ vs ↔ p.Denotes f n := by
  obtain ⟨lo, hi, hbounds⟩ := hp.bounds
  have hsplit := split_part hf hp
  have hrange := hbounds.range hf
  have hsmall := hf.small
  have hstep : (stepNumber p.step).isInteger = true ∧
      JsNumber.lt (stepNumber p.step) (.fin 1) = false ∧ 1 ≤ (stepNumber p.step).toNat ∧
      ∀ m < 2 ^ 52, (stepNumber p.step).toNat ∣ m ↔ p.step.elim 1 Text.digitsValue ∣ m := by
    cases hs : p.step with
    | none =>
      have hone : JsNumber.toNat (.fin 1) = 1 := by decide
      exact ⟨by decide, by decide, by decide, fun m _ => by simp [stepNumber, hone]⟩
    | some s =>
      obtain ⟨hdigits, hpos, hfin⟩ := hp.step s hs
      exact step_of_digits hdigits hpos hfin
  obtain ⟨hint, hlt, hone, hdvd⟩ := hstep
  have hsecond : (p.base.text :: p.step.toList)[1]? = p.step := by
    cases p.step <;> rfl
  refine ⟨upTo hi (stepNumber p.step).toNat (hi + 1 - lo) lo, ?_, fun n => ?_⟩
  · rw [item_eq_bind, hsplit, hsecond, List.getD_cons_zero, if_neg (by simp [hint, hlt]),
      bounds_of_base hf hbounds]
    rfl
  · rw [mem_upTo hone le_rfl, denotes_iff hf hbounds]
    constructor
    · rintro ⟨hlo, hhi, h⟩
      exact ⟨hlo, hhi, (hdvd (n - lo) (by omega)).mp h⟩
    · rintro ⟨hlo, hhi, h⟩
      exact ⟨hlo, hhi, (hdvd (n - lo) (by omega)).mpr h⟩

/-- An item that has not slipped through is taken only if it is a part. -/
theorem part_of_item {f : FieldSpec} (hf : Proper f) {text : Text} (hslip : ¬ Slipped text)
    {vs : List ℕ} (h : item f text = .ok vs) : ∃ p : Part, p.text = text ∧ p.Valid f := by
  simp only [Slipped, not_or, not_lt] at hslip
  obtain ⟨hslash, hdash, hdigits⟩ := hslip
  rw [item_eq_bind] at h
  split_ifs at h with hbad
  obtain ⟨⟨lo, hi⟩, hbounds, -⟩ : ∃ b, bounds f ((Text.split text ['/']).getD 0 [])
      (Text.split text ['/'])[1]? = .ok b ∧ True := by
    cases hb : bounds f ((Text.split text ['/']).getD 0 []) (Text.split text ['/'])[1]? with
    | error e =>
      rw [hb] at h
      cases h
    | ok b => exact ⟨b, rfl, trivial⟩
  rcases cut_once hslash with hno | ⟨a, s, rfl, ha, hs⟩
  · have htake : text.takeWhile (· ≠ '/') = text := by
      apply List.takeWhile_eq_self_iff.mpr
      intro c hc
      simpa using fun heq : c = '/' => hno (heq ▸ hc)
    rw [htake] at hdash
    rw [Text.split_of_notMem hno] at hbounds
    obtain ⟨b, rfl, hb⟩ := base_of_bounds hf hdash hbounds
    exact ⟨⟨b, none⟩, by simp [Part.text, stepSuffix], ⟨lo, hi, hb⟩, by simp⟩
  · have hsplit : Text.split (a ++ '/' :: s) ['/'] = [a, s] := by
      rw [Text.split_append ha, Text.split_of_notMem hs]
    have htake : (a ++ '/' :: s).takeWhile (· ≠ '/') = a := by
      rw [List.takeWhile_append_of_pos fun c hc => by simpa using fun heq : c = '/' => ha (heq ▸ hc)]
      simp
    rw [htake] at hdash
    rw [hsplit] at hbounds hbad hdigits
    obtain ⟨b, rfl, hb⟩ := base_of_bounds hf hdash hbounds
    have hstep : (JsNumber.ofText s).isInteger = true ∧
        JsNumber.lt (JsNumber.ofText s) (.fin 1) = false := by
      simpa [stepNumber] using hbad
    have hisDigits : Text.isDigits s = true := by
      by_contra hnot
      exact hdigits ⟨s, rfl, by simpa using hnot, hstep⟩
    refine ⟨⟨b, some s⟩, rfl, ⟨lo, hi, hb⟩, ?_⟩
    intro s' hs'
    obtain rfl := Option.some.inj hs'
    exact ⟨hisDigits, digits_of_step hisDigits hstep.1 hstep.2⟩

/-! ## Fields -/

theorem mem_foldl_addValue {n : ℕ} (vs out : List ℕ) :
    n ∈ vs.foldl addValue out ↔ n ∈ out ∨ n ∈ vs := by
  induction vs generalizing out with
  | nil => simp
  | cons v vs ih =>
    have hadd : n ∈ addValue out v ↔ n ∈ out ∨ n = v := by
      unfold addValue
      split_ifs with hv
      · rw [or_iff_left_of_imp]
        rintro rfl
        exact hv
      · simp
    rw [List.foldl_cons, ih, hadd, List.mem_cons, or_assoc]

theorem nodup_foldl_addValue (vs : List ℕ) {out : List ℕ} (h : out.Nodup) :
    (vs.foldl addValue out).Nodup := by
  induction vs generalizing out with
  | nil => exact h
  | cons v vs ih =>
    apply ih
    unfold addValue
    split_ifs with hv
    · exact h
    · refine List.nodup_append.mpr ⟨h, by simp, fun a ha b hb => ?_⟩
      rw [List.mem_singleton.mp hb]
      rintro rfl
      exact hv ha

/-- The loop over the items of a field. -/
theorem items_ok {f : FieldSpec} {texts : List Text} {out vs : List ℕ}
    (h : texts.foldlM (fun out part => do return (← item f part).foldl addValue out) out = .ok vs) :
    (∀ t ∈ texts, ∃ ws, item f t = .ok ws) ∧ (out.Nodup → vs.Nodup) ∧
      ∀ n, n ∈ vs ↔ n ∈ out ∨ ∃ t ∈ texts, ∃ ws, item f t = .ok ws ∧ n ∈ ws := by
  induction texts generalizing out with
  | nil =>
    cases h
    simp
  | cons t texts ih =>
    rw [List.foldlM_cons] at h
    obtain ⟨next, hnext, hrest⟩ := bind_ok h
    obtain ⟨ws, hws, hadd⟩ := bind_ok hnext
    cases hadd
    obtain ⟨hall, hnodup, hmem⟩ := ih hrest
    refine ⟨?_, fun hout => hnodup (nodup_foldl_addValue ws hout), fun n => ?_⟩
    · intro u hu
      rcases List.mem_cons.mp hu with rfl | hu
      · exact ⟨ws, hws⟩
      · exact hall u hu
    · rw [hmem, mem_foldl_addValue, or_assoc]
      apply or_congr_right
      constructor
      · rintro (hn | ⟨u, hu, us, hus, hn⟩)
        · exact ⟨t, by simp, ws, hws, hn⟩
        · exact ⟨u, List.mem_cons_of_mem t hu, us, hus, hn⟩
      · rintro ⟨u, hu, us, hus, hn⟩
        rcases List.mem_cons.mp hu with rfl | hu
        · rw [hws] at hus
          exact .inl (Except.ok.inj hus ▸ hn)
        · exact .inr ⟨u, hu, us, hus, hn⟩

theorem items_total {f : FieldSpec} {texts : List Text} (h : ∀ t ∈ texts, ∃ ws, item f t = .ok ws)
    (out : List ℕ) : ∃ vs, texts.foldlM
      (fun out part => do return (← item f part).foldl addValue out) out = Except.ok vs := by
  induction texts generalizing out with
  | nil => exact ⟨out, rfl⟩
  | cons t texts ih =>
    obtain ⟨ws, hws⟩ := h t (by simp)
    obtain ⟨vs, hvs⟩ := ih (fun u hu => h u (List.mem_cons_of_mem t hu)) (ws.foldl addValue out)
    refine ⟨vs, ?_⟩
    rw [List.foldlM_cons, hws]
    exact hvs

theorem upTo_range {hi step n : ℕ} {fuel lo : ℕ} (h : n ∈ upTo hi step fuel lo) :
    lo ≤ n ∧ n ≤ hi := by
  induction fuel generalizing lo with
  | zero => simp [upTo] at h
  | succ fuel ih =>
    rw [upTo] at h
    split_ifs at h with hle
    · rcases List.mem_cons.mp h with rfl | h
      · exact ⟨le_rfl, hle⟩
      · have := ih h
        omega
    · cases h

theorem bounds_within {f : FieldSpec} (hf : Proper f) {text : Text} {stepText : Option Text}
    {lo hi : ℕ} (h : bounds f text stepText = .ok (lo, hi)) : f.min ≤ lo ∧ hi ≤ f.max := by
  by_cases hstar : text = ['*']
  · rw [bounds, if_pos hstar] at h
    cases h
    exact ⟨le_rfl, le_rfl⟩
  by_cases hcontains : List.contains text '-' = true
  · rw [bounds, if_neg hstar, if_pos hcontains] at h
    obtain ⟨n, hn, hrest⟩ := bind_ok h
    obtain ⟨m, hm, hlast⟩ := bind_ok hrest
    split_ifs at hlast
    cases hlast
    exact ⟨((value_iff hf).mp hn).2.1, ((value_iff hf).mp hm).2.2⟩
  · rw [bounds, if_neg hstar, if_neg hcontains] at h
    obtain ⟨n, hn, hrest⟩ := bind_ok h
    cases hrest
    have hin := ((value_iff hf).mp hn).2
    split_ifs
    · exact hin
    · exact ⟨hin.1, le_rfl⟩

theorem item_range {f : FieldSpec} (hf : Proper f) {text : Text} {ws : List ℕ}
    (h : item f text = .ok ws) {n : ℕ} (hn : n ∈ ws) : f.min ≤ n ∧ n ≤ f.max := by
  rw [item_eq_bind] at h
  split_ifs at h
  cases hb : bounds f ((Text.split text ['/']).getD 0 []) (Text.split text ['/'])[1]? with
  | error e =>
    rw [hb] at h
    cases h
  | ok b =>
    rw [hb] at h
    cases h
    have hrange : f.min ≤ b.1 ∧ b.2 ≤ f.max := bounds_within hf hb
    have := upTo_range hn
    omega

/-- Every value of a field lies within its bounds. -/
theorem field_range {f : FieldSpec} (hf : Proper f) {spec : Text} {vs : List ℕ}
    (h : field spec f = .ok vs) {n : ℕ} (hn : n ∈ vs) : f.min ≤ n ∧ n ≤ f.max := by
  obtain ⟨-, -, hmem⟩ := items_ok h
  rcases (hmem n).mp hn with hnil | ⟨t, -, ws, hws, hin⟩
  · cases hnil
  · exact item_range hf hws hin

/-- No item of the field slips through. -/
def Tidy (spec : Text) : Prop := ∀ t ∈ Text.split spec [','], ¬ Slipped t

instance (spec : Text) : Decidable (Tidy spec) := by
  unfold Tidy
  infer_instance

theorem split_reads {f : FieldSpec} (hf : Proper f) {spec : Text} {parts : List Part}
    (h : Reads f spec parts) : Text.split spec [','] = parts.map Part.text := by
  rw [h.text]
  apply Text.split_join (by simpa using h.nonempty)
  intro t ht
  obtain ⟨p, hp, rfl⟩ := List.mem_map.mp ht
  obtain ⟨lo, hi, hbounds⟩ := (h.valid p hp).bounds
  have hbase := (hbounds.notMem hf).2
  unfold Part.text
  cases hs : p.step with
  | none => simpa [stepSuffix] using hbase
  | some s =>
    have hdigits := notMem_of_isDigits ((h.valid p hp).step s hs).1 (c := ',') (by decide)
    simp [stepSuffix, hbase, hdigits]

/-- A list of parts is read, as the values that its parts denote. -/
theorem field_of_reads {f : FieldSpec} (hf : Proper f) {spec : Text} {parts : List Part}
    (h : Reads f spec parts) :
    ∃ vs, field spec f = .ok vs ∧ vs.Nodup ∧ ∀ n, n ∈ vs ↔ ∃ p ∈ parts, p.Denotes f n := by
  have hsplit := split_reads hf h
  have hitems : ∀ t ∈ Text.split spec [','], ∃ ws, item f t = .ok ws := by
    rw [hsplit]
    intro t ht
    obtain ⟨p, hp, rfl⟩ := List.mem_map.mp ht
    obtain ⟨ws, hws, -⟩ := item_of_part hf (h.valid p hp)
    exact ⟨ws, hws⟩
  obtain ⟨vs, hvs⟩ := items_total hitems []
  obtain ⟨-, hnodup, hmem⟩ := items_ok hvs
  refine ⟨vs, hvs, hnodup List.nodup_nil, fun n => ?_⟩
  rw [hmem, hsplit]
  simp only [List.not_mem_nil, false_or, List.mem_map]
  constructor
  · rintro ⟨t, ⟨p, hp, rfl⟩, ws, hws, hn⟩
    obtain ⟨ws', hws', hiff⟩ := item_of_part hf (h.valid p hp)
    rw [hws'] at hws
    cases hws
    exact ⟨p, hp, (hiff n).mp hn⟩
  · rintro ⟨p, hp, hn⟩
    obtain ⟨ws, hws, hiff⟩ := item_of_part hf (h.valid p hp)
    exact ⟨p.text, ⟨p, hp, rfl⟩, ws, hws, (hiff n).mpr hn⟩

/-- Where no item slips through, only lists of parts are read. -/
theorem reads_of_field {f : FieldSpec} (hf : Proper f) {spec : Text} (htidy : Tidy spec)
    {vs : List ℕ} (h : field spec f = .ok vs) : ∃ parts, Reads f spec parts := by
  obtain ⟨hitems, -, -⟩ := items_ok h
  have hparts : ∀ texts : List Text, (∀ t ∈ texts, ¬ Slipped t ∧ ∃ ws, item f t = .ok ws) →
      ∃ parts : List Part, parts.map Part.text = texts ∧ ∀ p ∈ parts, p.Valid f := by
    intro texts
    induction texts with
    | nil => exact fun _ => ⟨[], rfl, by simp⟩
    | cons t texts ih =>
      intro hall
      obtain ⟨parts, hmap, hvalid⟩ := ih fun u hu => hall u (List.mem_cons_of_mem t hu)
      obtain ⟨hslip, ws, hws⟩ := hall t (by simp)
      obtain ⟨p, hp, hpv⟩ := part_of_item hf hslip hws
      refine ⟨p :: parts, by rw [List.map_cons, hp, hmap], ?_⟩
      intro q hq
      rcases List.mem_cons.mp hq with rfl | hq
      · exact hpv
      · exact hvalid q hq
  obtain ⟨parts, hmap, hvalid⟩ := hparts _ fun t ht => ⟨htidy t ht, hitems t ht⟩
  refine ⟨parts, ?_, ?_, hvalid⟩
  · rintro rfl
    exact Text.split_ne_nil spec [','] hmap.symm
  · rw [hmap, Text.join_split]

/-! ## Expressions -/

def minuteField : FieldSpec := ⟨0, 59, [], 0⟩
def hourField : FieldSpec := ⟨0, 23, [], 0⟩
def dayField : FieldSpec := ⟨1, 31, [], 0⟩
def monthField : FieldSpec := ⟨1, 12, months, 1⟩
def weekdayField : FieldSpec := ⟨0, 7, days, 0⟩

theorem proper_minuteField : Proper minuteField := ⟨by decide, by decide, by simp [minuteField]⟩
theorem proper_hourField : Proper hourField := ⟨by decide, by decide, by simp [hourField]⟩
theorem proper_dayField : Proper dayField := ⟨by decide, by decide, by simp [dayField]⟩
theorem proper_monthField : Proper monthField :=
  ⟨by decide, by decide, isUpper_of_all (by decide)⟩
theorem proper_weekdayField : Proper weekdayField :=
  ⟨by decide, by decide, isUpper_of_all (by decide)⟩

/-- The parts of the five fields. -/
structure Crontab where
  minutes : List Part
  hours : List Part
  days : List Part
  months : List Part
  weekdays : List Part

/-- The expression is five fields with white space between them, of these parts. -/
def Crontab.Spells (c : Crontab) (expr : Text) : Prop :=
  ∃ m h dom mon dow, Text.words expr = [m, h, dom, mon, dow] ∧ Reads minuteField m c.minutes ∧
    Reads hourField h c.hours ∧ Reads dayField dom c.days ∧ Reads monthField mon c.months ∧
    Reads weekdayField dow c.weekdays

/-- The values of a list of parts. -/
def Denoted (f : FieldSpec) (parts : List Part) (n : ℕ) : Prop := ∃ p ∈ parts, p.Denotes f n

/-- Sunday as 7 becomes 0. -/
theorem mem_sunday {vs : List ℕ} (h : vs.Nodup) (n : ℕ) :
    n ∈ (if 7 ∈ vs then addValue (vs.erase 7) 0 else vs) ↔ n ≠ 7 ∧ n ∈ vs ∨ n = 0 ∧ 7 ∈ vs := by
  split_ifs with hseven
  · have hadd : n ∈ addValue (vs.erase 7) 0 ↔ n ∈ vs.erase 7 ∨ n = 0 := by
      have hfold := mem_foldl_addValue (n := n) [0] (vs.erase 7)
      simpa using hfold
    rw [hadd, h.mem_erase_iff]
    simp [hseven]
  · constructor
    · intro hn
      exact .inl ⟨fun heq => hseven (heq ▸ hn), hn⟩
    · rintro (⟨-, hn⟩ | ⟨-, hn⟩)
      · exact hn
      · exact absurd hn hseven

/-- What the five calls of `field` give, and the schedule that is made of it. -/
theorem parseCron_ok {expr : Text} {s : CronSchedule} (hs : parseCron expr = .ok s) :
    ∃ m h dom mon dow weekdays, Text.words expr = [m, h, dom, mon, dow] ∧
      field m minuteField = .ok s.minutes ∧ field h hourField = .ok s.hours ∧
      field dom dayField = .ok s.days ∧ field mon monthField = .ok s.months ∧
      field dow weekdayField = .ok weekdays ∧
      s.weekdays = (if 7 ∈ weekdays then addValue (weekdays.erase 7) 0 else weekdays) ∧
      s.dayRestricted = decide (dom ≠ ['*']) ∧ s.weekdayRestricted = decide (dow ≠ ['*']) := by
  unfold parseCron at hs
  split at hs
  · rename_i m h dom mon dow hwords
    obtain ⟨ws, hws, hs⟩ := bind_ok hs
    obtain ⟨ms, hms, hs⟩ := bind_ok hs
    obtain ⟨hours, hhours, hs⟩ := bind_ok hs
    obtain ⟨ds, hds, hs⟩ := bind_ok hs
    obtain ⟨mos, hmos, hs⟩ := bind_ok hs
    cases hs
    exact ⟨m, h, dom, mon, dow, ws, hwords, hms, hhours, hds, hmos, hws, rfl, rfl, rfl⟩
  · cases hs

theorem parseCron_total {expr m h dom mon dow : Text} {ms hours ds mos ws : List ℕ}
    (hwords : Text.words expr = [m, h, dom, mon, dow]) (hm : field m minuteField = .ok ms)
    (hh : field h hourField = .ok hours) (hdom : field dom dayField = .ok ds)
    (hmon : field mon monthField = .ok mos) (hdow : field dow weekdayField = .ok ws) :
    ∃ s, parseCron expr = .ok s := by
  unfold minuteField at hm
  unfold hourField at hh
  unfold dayField at hdom
  unfold monthField at hmon
  unfold weekdayField at hdow
  simp only [parseCron, hwords, hm, hh, hdom, hmon, hdow]
  exact ⟨_, rfl⟩

/-- Among the expressions without an item that slips through, `parseCron` accepts exactly
the ones of the grammar; and every field it accepts holds exactly the values that its
parts denote, with 7 as a second name of Sunday. -/
theorem parseCron_grammar (expr : Text) (htidy : ∀ word ∈ Text.words expr, Tidy word) :
    ((∃ s, parseCron expr = .ok s) ↔ ∃ c : Crontab, c.Spells expr) ∧
      ∀ (s : CronSchedule) (c : Crontab), parseCron expr = .ok s → c.Spells expr →
        (∀ n, n ∈ s.minutes ↔ Denoted minuteField c.minutes n) ∧
        (∀ n, n ∈ s.hours ↔ Denoted hourField c.hours n) ∧
        (∀ n, n ∈ s.days ↔ Denoted dayField c.days n) ∧
        (∀ n, n ∈ s.months ↔ Denoted monthField c.months n) ∧
        ∀ n, n ∈ s.weekdays ↔ n ≠ 7 ∧ Denoted weekdayField c.weekdays n ∨
          n = 0 ∧ Denoted weekdayField c.weekdays 7 := by
  refine ⟨⟨?_, ?_⟩, ?_⟩
  · rintro ⟨s, hs⟩
    obtain ⟨m, h, dom, mon, dow, ws, hwords, hm, hh, hdom, hmon, hdow, -⟩ := parseCron_ok hs
    rw [hwords] at htidy
    simp only [List.mem_cons, List.not_mem_nil, or_false, forall_eq_or_imp, forall_eq] at htidy
    obtain ⟨tm, th, tdom, tmon, tdow⟩ := htidy
    obtain ⟨pm, hpm⟩ := reads_of_field proper_minuteField tm hm
    obtain ⟨ph, hph⟩ := reads_of_field proper_hourField th hh
    obtain ⟨pdom, hpdom⟩ := reads_of_field proper_dayField tdom hdom
    obtain ⟨pmon, hpmon⟩ := reads_of_field proper_monthField tmon hmon
    obtain ⟨pdow, hpdow⟩ := reads_of_field proper_weekdayField tdow hdow
    exact ⟨⟨pm, ph, pdom, pmon, pdow⟩, m, h, dom, mon, dow, hwords, hpm, hph, hpdom, hpmon, hpdow⟩
  · rintro ⟨c, m, h, dom, mon, dow, hwords, hm, hh, hdom, hmon, hdow⟩
    obtain ⟨ms, hms, -⟩ := field_of_reads proper_minuteField hm
    obtain ⟨hs, hhs, -⟩ := field_of_reads proper_hourField hh
    obtain ⟨ds, hds, -⟩ := field_of_reads proper_dayField hdom
    obtain ⟨mos, hmos, -⟩ := field_of_reads proper_monthField hmon
    obtain ⟨ws, hws, -⟩ := field_of_reads proper_weekdayField hdow
    exact parseCron_total hwords hms hhs hds hmos hws
  · rintro s c hs ⟨m, h, dom, mon, dow, hwords, hm, hh, hdom, hmon, hdow⟩
    obtain ⟨m', h', dom', mon', dow', ws', hwords', hm', hh', hdom', hmon', hdow', hsunday, -⟩ :=
      parseCron_ok hs
    rw [hwords] at hwords'
    simp only [List.cons.injEq, and_true] at hwords'
    obtain ⟨rfl, rfl, rfl, rfl, rfl⟩ := hwords'
    obtain ⟨ms, hms, -, hmem⟩ := field_of_reads proper_minuteField hm
    obtain ⟨hs, hhs, -, hhmem⟩ := field_of_reads proper_hourField hh
    obtain ⟨ds, hds, -, hdmem⟩ := field_of_reads proper_dayField hdom
    obtain ⟨mos, hmos, -, hmomem⟩ := field_of_reads proper_monthField hmon
    obtain ⟨ws, hws, hnodup, hwmem⟩ := field_of_reads proper_weekdayField hdow
    rw [hms] at hm'
    rw [hhs] at hh'
    rw [hds] at hdom'
    rw [hmos] at hmon'
    rw [hws] at hdow'
    rw [← Except.ok.inj hm', ← Except.ok.inj hh', ← Except.ok.inj hdom', ← Except.ok.inj hmon',
      hsunday, ← Except.ok.inj hdow']
    refine ⟨hmem, hhmem, hdmem, hmomem, fun n => ?_⟩
    rw [mem_sunday hnodup, hwmem, hwmem]
    rfl

/-- Steps, ranges, lists and names in the two cases. -/
theorem parseCron_grammar_sample :
    ∃ c : Crontab, c.Spells "*/20 9-17/4 1,15 jan MON-5".toList :=
  (parseCron_grammar "*/20 9-17/4 1,15 jan MON-5".toList (by decide)).1.mp
    ⟨⟨[0, 20, 40], [9, 13, 17], [1, 15], [1], [1, 2, 3, 4, 5], true, true⟩, by decide +kernel⟩

/-- The numbers of the part are decimal digits. -/
def Base.Plain : Base → Prop
  | .star => True
  | .number v => Text.isDigits v = true
  | .range a b => Text.isDigits a = true ∧ Text.isDigits b = true

/-- A month by its name is accepted, and is no number in decimal digits. -/
theorem named_month_accepted :
    (∃ s, parseCron "0 0 1 JAN *".toList = .ok s) ∧
      ¬ ∃ c : Crontab, c.Spells "0 0 1 JAN *".toList ∧ ∀ p ∈ c.months, p.base.Plain := by
  refine ⟨⟨⟨[0], [0], [1], [1], [0, 1, 2, 3, 4, 5, 6], true, false⟩, by decide +kernel⟩, ?_⟩
  rintro ⟨c, ⟨m, h, dom, mon, dow, hwords, -, -, -, hmon, -⟩, hplain⟩
  have hread : Text.words "0 0 1 JAN *".toList =
      ["0".toList, "0".toList, "1".toList, "JAN".toList, "*".toList] := by decide
  rw [hread] at hwords
  simp only [List.cons.injEq, and_true] at hwords
  obtain ⟨-, -, -, rfl, -⟩ := hwords
  have hsplit := split_reads proper_monthField hmon
  have hone : Text.split "JAN".toList [','] = ["JAN".toList] := by decide
  rw [hone] at hsplit
  obtain ⟨p, rest, hparts, htext, -⟩ := List.map_eq_cons_iff.mp hsplit.symm
  have hp : p ∈ c.months := by simp [hparts]
  have hj : 'J' ∈ p.text := by
    rw [htext]
    decide
  have hbase := hplain p hp
  have hnot : ∀ {v : Text}, Text.isDigits v = true → 'J' ∉ v :=
    fun hv => notMem_of_isDigits hv (by decide)
  have hstep : 'J' ∉ stepSuffix p.step := by
    cases hs : p.step with
    | none => simp [stepSuffix]
    | some s => simp [stepSuffix, hnot ((hmon.valid p hp).step s hs).1]
  rcases List.mem_append.mp hj with hj | hj
  · cases hb : p.base with
    | star =>
      rw [hb] at hj
      revert hj
      decide
    | number v =>
      rw [hb] at hj hbase
      exact hnot hbase hj
    | range a b =>
      rw [hb] at hj hbase
      simp [Base.text, hnot hbase.1, hnot hbase.2] at hj
  · exact hstep hj

end Prgd.CronGrammar
