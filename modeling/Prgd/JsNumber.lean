import Prgd.Text
import Mathlib.Data.List.TakeWhile
import Mathlib.Data.Rat.Floor

/-!
# Numbers of the language

A number is a binary64 value: not-a-number, an infinity, or a finite value,
which is kept as the exact rational it stands for. The two zeros are one value
here; no operation of the modelled code tells them apart (`-0` prints as `0`
and compares equal to it).

`ofRat` rounds to the nearest value, ties to the even significand. `ofText` is
`Number(text)` and `toText` is `String(number)`: the shortest decimal digits
that read back as the same value, laid out as the language lays them out.
-/
namespace Prgd

inductive JsNumber where
  | nan
  | inf (negative : Bool)
  | fin (value : ℚ)
  deriving DecidableEq

namespace JsNumber

def pow (base : ℕ) (e : ℤ) : ℚ :=
  if 0 ≤ e then ((base ^ e.toNat : ℕ) : ℚ) else 1 / ((base ^ (-e).toNat : ℕ) : ℚ)

/-- The exponent `e` with `2 ^ e ≤ q < 2 ^ (e + 1)`, for positive `q`. -/
def log2 (q : ℚ) : ℤ :=
  let e : ℤ := (Nat.log2 q.num.natAbs : ℤ) - Nat.log2 q.den
  if q < pow 2 e then e - 1 else if pow 2 (e + 1) ≤ q then e + 1 else e

def roundHalfEven (q : ℚ) : ℤ :=
  let f := q.floor
  let r := q - f
  if r < 1 / 2 then f else if 1 / 2 < r then f + 1 else if f % 2 = 0 then f else f + 1

/-- The nearest binary64 value: 53 significant bits, smallest step `2 ^ -1074`,
infinity from `2 ^ 1024` on. -/
def ofRat (q : ℚ) : JsNumber :=
  if q = 0 then .fin 0 else
    let a := |q|
    let ulp := pow 2 (max (log2 a - 52) (-1074))
    let v := (roundHalfEven (a / ulp) : ℚ) * ulp
    if pow 2 1024 ≤ v then .inf (decide (q < 0)) else .fin (if q < 0 then -v else v)

/-- The value that `ofRat` rounds to, as long as it is finite. -/
def nearest (q : ℚ) : ℚ :=
  if q = 0 then 0 else
    let a := |q|
    let ulp := pow 2 (max (log2 a - 52) (-1074))
    let v := (roundHalfEven (a / ulp) : ℚ) * ulp
    if q < 0 then -v else v

theorem pow_pos {base : ℕ} (h : 0 < base) (e : ℤ) : 0 < pow base e := by
  unfold pow
  split_ifs
  · exact_mod_cast Nat.pow_pos h
  · apply one_div_pos.mpr
    exact_mod_cast Nat.pow_pos h

theorem roundHalfEven_nonneg {q : ℚ} (h : 0 ≤ q) : 0 ≤ roundHalfEven q := by
  have hfloor : 0 ≤ q.floor := by
    rw [Rat.le_floor_iff]
    exact_mod_cast h
  unfold roundHalfEven
  dsimp only
  split_ifs <;> omega

/-- Rounding keeps the sign. -/
theorem nearest_nonneg {q : ℚ} (h : 0 ≤ q) : 0 ≤ nearest q := by
  unfold nearest
  dsimp only
  split_ifs with hzero hneg
  · exact le_rfl
  · exact absurd hneg (not_lt.mpr h)
  · have hulp := pow_pos (by decide : 0 < 2) (max (log2 |q| - 52) (-1074))
    have hround := roundHalfEven_nonneg (div_nonneg (abs_nonneg q) hulp.le)
    exact mul_nonneg (by exact_mod_cast hround) hulp.le

def ofNat (n : ℕ) : JsNumber := ofRat n

def isFinite : JsNumber → Bool
  | .fin _ => true
  | _ => false

/-- `Number.isInteger`. -/
def isInteger : JsNumber → Bool
  | .fin q => q.den == 1
  | _ => false

/-- A nonnegative integer as a natural number. -/
def toNat : JsNumber → ℕ
  | .fin q => q.num.toNat
  | _ => 0

@[simp] theorem toNat_fin (k : ℕ) : toNat (.fin (k : ℚ)) = k := by
  simp [toNat]

def neg : JsNumber → JsNumber
  | .nan => .nan
  | .inf n => .inf !n
  | .fin q => .fin (-q)

def add : JsNumber → JsNumber → JsNumber
  | .fin a, .fin b => ofRat (a + b)
  | .inf a, .inf b => if a = b then .inf a else .nan
  | .inf a, .fin _ | .fin _, .inf a => .inf a
  | _, _ => .nan

def mul : JsNumber → JsNumber → JsNumber
  | .fin a, .fin b => ofRat (a * b)
  | .inf a, .inf b => .inf (a != b)
  | .inf a, .fin b | .fin b, .inf a => if b = 0 then .nan else .inf (a != decide (b < 0))
  | _, _ => .nan

/-- `Math.round`: halves go up. -/
def round : JsNumber → JsNumber
  | .fin q => .fin (q + 1 / 2).floor
  | n => n

/-- `a === b` on numbers. -/
def strictEq : JsNumber → JsNumber → Bool
  | .fin a, .fin b => a == b
  | .inf a, .inf b => a == b
  | _, _ => false

/-- `a < b` on numbers. -/
def lt : JsNumber → JsNumber → Bool
  | .fin a, .fin b => decide (a < b)
  | .inf true, .fin _ | .inf true, .inf false | .fin _, .inf false => true
  | _, _ => false

def le (a b : JsNumber) : Bool := lt a b || strictEq a b

theorem le_fin {a b : ℚ} : le (.fin a) (.fin b) = true ↔ a ≤ b := by
  simp [le, lt, strictEq, le_iff_lt_or_eq]

/-! ## Reading -/

/-- An exponent part: the power of ten and what follows it. A malformed part
is not consumed. -/
def exponent : Text → ℤ × Text
  | c :: cs =>
      if c == 'e' || c == 'E' then
        let (negative, rest) := match cs with
          | '-' :: r => (true, r)
          | '+' :: r => (false, r)
          | r => (false, r)
        let ds := rest.takeWhile Text.isDigit
        if ds.isEmpty then (0, c :: cs)
        else (if negative then -(Text.digitsValue ds : ℤ) else Text.digitsValue ds,
          rest.dropWhile Text.isDigit)
      else (0, c :: cs)
  | [] => (0, [])

/-- The value of digits, a fraction and a power of ten. -/
def decimal (whole fraction : Text) (e : ℤ) : ℚ :=
  (Text.digitsValue (whole ++ fraction) : ℚ) * pow 10 (e - fraction.length)

/-- An unsigned decimal literal that takes the whole text. -/
def unsigned (s : Text) : Option JsNumber :=
  if s = "Infinity".toList then some (.inf false) else
    let whole := s.takeWhile Text.isDigit
    let rest := s.dropWhile Text.isDigit
    let (fraction, rest) := match rest with
      | '.' :: r => (r.takeWhile Text.isDigit, r.dropWhile Text.isDigit)
      | r => ([], r)
    if whole.isEmpty && fraction.isEmpty then none else
      let (e, rest) := exponent rest
      if rest.isEmpty then some (ofRat (decimal whole fraction e)) else none

def digitValue (c : Char) : ℕ :=
  if Text.isDigit c then c.toNat - 48
  else if Text.isLower c then c.toNat - 87
  else if Text.isUpper c then c.toNat - 55
  else 36

/-- The digits behind `0x`, `0o` or `0b`. -/
def radix (base : ℕ) (s : Text) : JsNumber :=
  if s.isEmpty || s.any (fun c => base ≤ digitValue c) then .nan
  else ofNat (s.foldl (fun n c => base * n + digitValue c) 0)

/-- `Number(text)`. -/
def ofText (s : Text) : JsNumber :=
  match Text.trim s with
  | [] => .fin 0
  | '0' :: 'x' :: ds | '0' :: 'X' :: ds => radix 16 ds
  | '0' :: 'o' :: ds | '0' :: 'O' :: ds => radix 8 ds
  | '0' :: 'b' :: ds | '0' :: 'B' :: ds => radix 2 ds
  | '-' :: ds => ((unsigned ds).map neg).getD .nan
  | '+' :: ds => (unsigned ds).getD .nan
  | ds => (unsigned ds).getD .nan

/-! ## Printing -/

def digits (n : ℕ) : Text := Nat.toDigits 10 n

/-- The exponent `n` with `10 ^ (n - 1) ≤ q < 10 ^ n`, searched around `n`. -/
def log10 (q : ℚ) : ℕ → ℤ → ℤ
  | 0, n => n
  | fuel + 1, n =>
      if q < pow 10 (n - 1) then log10 q fuel (n - 1)
      else if pow 10 n ≤ q then log10 q fuel (n + 1)
      else n

/-- The `k` significant digits closest to `q` that read back as `q`, with the
position of the decimal point. -/
def shortestWith (q : ℚ) (n : ℤ) (k : ℕ) : Option (ℕ × ℤ) :=
  let unit := pow 10 (n - k)
  let low := (q / unit).floor.toNat
  let ok := fun s : ℕ => decide (ofRat (s * unit) = .fin q)
  let near := if q / unit - low ≤ 1 / 2 then [low, low + 1] else [low + 1, low]
  match near.find? ok with
  | some s => if s = 10 ^ k then some (10 ^ (k - 1), n + 1) else some (s, n)
  | none => none

def shortest (q : ℚ) (n : ℤ) : ℕ → ℕ → ℕ × ℤ
  | 0, k => ((q / pow 10 (n - k)).floor.toNat, n)
  | fuel + 1, k => (shortestWith q n k).getD (shortest q n fuel (k + 1))

/-- The layout of digits `ds` with the decimal point behind position `n`. -/
def layout (ds : Text) (n : ℤ) : Text :=
  let k : ℤ := ds.length
  if k ≤ n ∧ n ≤ 21 then ds ++ List.replicate (n - k).toNat '0'
  else if 0 < n ∧ n ≤ 21 then ds.take n.toNat ++ '.' :: ds.drop n.toNat
  else if -6 < n ∧ n ≤ 0 then "0.".toList ++ List.replicate (-n).toNat '0' ++ ds
  else
    let e := n - 1
    let tail := (if 0 ≤ e then '+' else '-') :: digits e.natAbs
    match ds with
    | [d] => d :: 'e' :: tail
    | d :: ds => d :: '.' :: ds ++ 'e' :: tail
    | [] => []

/-- `String(number)`. -/
def toText : JsNumber → Text
  | .nan => "NaN".toList
  | .inf false => "Infinity".toList
  | .inf true => "-Infinity".toList
  | .fin q =>
      if q = 0 then "0".toList else
        let a := |q|
        let n := log10 a 700 ((log2 a * 3) / 10 + 1)
        let (s, n) := shortest a n 17 1
        (if q < 0 then ['-'] else []) ++ layout (digits s) n

/-! ## Reading what was printed -/

theorem isDigit_digits (n : ℕ) : ∀ c ∈ digits n, Text.isDigit c = true := by
  intro c hc
  have h : c.isDigit = true := Nat.isDigit_of_mem_toDigits (by decide) (by decide) hc
  simpa [Char.isDigit, Text.isDigit, Char.le_def] using h

theorem notMem_digits {c : Char} (h : Text.isDigit c = false) (n : ℕ) : c ∉ digits n := by
  intro hc
  rw [isDigit_digits n c hc] at h
  cases h

theorem digitsValue_digits (n : ℕ) : Text.digitsValue (digits n) = n := by
  have h := Nat.ofDigitChars_ten_toDigits (n := n)
  rw [Nat.ofDigitChars_eq_foldl] at h
  exact h

theorem digits_injective : Function.Injective digits := fun m n h => by
  rw [← digitsValue_digits m, h, digitsValue_digits]

theorem isSpace_of_isDigit {c : Char} (h : Text.isDigit c = true) : Text.isSpace c = false := by
  simp only [Text.isDigit, Bool.and_eq_true, decide_eq_true_eq, Char.le_def,
    UInt32.le_iff_toNat_le] at h
  have hlow : 48 ≤ c.toNat := h.1
  have hhigh : c.toNat ≤ 57 := h.2
  simp only [Text.isSpace, Bool.or_eq_false_iff, Bool.and_eq_false_iff, beq_eq_false_iff_ne,
    decide_eq_false_iff_not]
  omega

theorem trim_of_isDigit {s : Text} (h : ∀ c ∈ s, Text.isDigit c = true) : Text.trim s = s :=
  Text.trim_of_isSpace fun c hc => isSpace_of_isDigit (h c hc)

theorem unsigned_of_isDigit {s : Text} (hne : s ≠ []) (h : ∀ c ∈ s, Text.isDigit c = true) :
    unsigned s = some (ofRat (Text.digitsValue s)) := by
  have hinf : s ≠ "Infinity".toList := by
    rintro rfl
    have := h 'I' (by decide)
    revert this
    decide
  have htake : s.takeWhile Text.isDigit = s := List.takeWhile_eq_self_iff.mpr h
  have hdrop : s.dropWhile Text.isDigit = [] := List.dropWhile_eq_nil_iff.mpr h
  rw [unsigned, if_neg hinf]
  simp only [htake, hdrop, List.isEmpty_nil, exponent, Bool.and_true, if_true]
  rw [if_neg (by simpa using hne), decimal, List.append_nil]
  simp [pow]

theorem log2_natCast {n : ℕ} (h : n ≠ 0) : log2 (n : ℚ) = Nat.log2 n := by
  have hlow : ¬ (n : ℚ) < pow 2 (Nat.log2 n) := by
    rw [pow, if_pos (by omega), Int.toNat_natCast, not_lt]
    exact_mod_cast Nat.log2_self_le h
  have hhigh : ¬ pow 2 ((Nat.log2 n : ℤ) + 1) ≤ (n : ℚ) := by
    rw [pow, if_pos (by omega), not_le]
    exact_mod_cast Nat.lt_log2_self
  have hstart : (Nat.log2 (n : ℚ).num.natAbs : ℤ) - Nat.log2 (n : ℚ).den = Nat.log2 n := by
    rw [Rat.num_natCast, Rat.den_natCast, Int.natAbs_natCast, show Nat.log2 1 = 0 by decide,
      Nat.cast_zero, sub_zero]
  simp only [log2, hstart, hlow, hhigh, if_false]

theorem pow_neg_natCast (k : ℕ) : pow 2 (-(k : ℤ)) = 1 / (2 ^ k : ℕ) := by
  cases k with
  | zero => simp [pow]
  | succ k =>
    rw [pow, if_neg (by omega), neg_neg, Int.toNat_natCast]

theorem roundHalfEven_intCast (n : ℤ) : roundHalfEven n = n := by
  rw [roundHalfEven]
  simp

/-- Integers below `2 ^ 53` are exact. -/
theorem ofRat_natCast {n : ℕ} (h : n < 2 ^ 53) : ofRat n = .fin n := by
  by_cases hzero : n = 0
  · subst hzero
    rfl
  have hlog : Nat.log2 n ≤ 52 := by
    have := (Nat.log2_lt hzero).mpr h
    omega
  obtain ⟨k, hk⟩ : ∃ k : ℕ, max ((Nat.log2 n : ℤ) - 52) (-1074) = -(k : ℤ) :=
    ⟨52 - Nat.log2 n, by omega⟩
  have hscale : ((2 ^ k : ℕ) : ℚ) ≠ 0 := by positivity
  have hquot : (n : ℚ) / (1 / (2 ^ k : ℕ)) = ((n * 2 ^ k : ℕ) : ℤ) := by
    rw [div_div_eq_mul_div, div_one]
    push_cast
    rfl
  have hbig : ¬ pow 2 1024 ≤ (n : ℚ) := by
    rw [pow, if_pos (by decide), not_le, Nat.cast_pow]
    have hlt : (n : ℚ) < (2 : ℕ) ^ 53 := by exact_mod_cast h
    exact hlt.trans_le (pow_le_pow_right₀ (by norm_num) (by decide))
  have hpos : ¬ (n : ℚ) < 0 := not_lt.mpr (Nat.cast_nonneg n)
  have hvalue : (((n * 2 ^ k : ℕ) : ℤ) : ℚ) * (1 / (2 ^ k : ℕ)) = n := by
    push_cast
    field_simp
  rw [ofRat, if_neg (by exact_mod_cast hzero)]
  simp only [Nat.abs_cast, log2_natCast hzero, hk, pow_neg_natCast, hquot, roundHalfEven_intCast,
    hvalue, hbig, hpos, if_false]

/-- A run of decimal digits is read as their value, rounded. -/
theorem ofText_of_isDigit {s : Text} (hne : s ≠ []) (h : ∀ c ∈ s, Text.isDigit c = true) :
    ofText s = ofRat (Text.digitsValue s) := by
  have hunsigned := unsigned_of_isDigit hne h
  rw [ofText, trim_of_isDigit h]
  split
  next => exact absurd rfl hne
  all_goals
    first
    | rw [hunsigned]
      rfl
    | simp [Text.isDigit] at h

theorem ofText_digits {n : ℕ} (h : n < 2 ^ 53) : ofText (digits n) = .fin n := by
  rw [ofText_of_isDigit (s := digits n) Nat.toDigits_ne_nil (isDigit_digits n),
    digitsValue_digits, ofRat_natCast h]

theorem le_roundHalfEven {k : ℕ} {q : ℚ} (h : (k : ℚ) ≤ q) : (k : ℤ) ≤ roundHalfEven q := by
  have hfloor : (k : ℤ) ≤ q.floor := by
    rw [Rat.le_floor_iff]
    exact_mod_cast h
  unfold roundHalfEven
  dsimp only
  split_ifs <;> omega

/-- Large integers stay large integers, or become infinite. -/
theorem ofRat_natCast_large {n : ℕ} (h : 2 ^ 53 ≤ n) :
    ofRat n = .inf false ∨ ∃ k : ℕ, ofRat n = .fin k ∧ 2 ^ 52 ≤ k := by
  have hzero : n ≠ 0 := by
    rintro rfl
    norm_num at h
  have hlog : 53 ≤ Nat.log2 n := (Nat.le_log2 hzero).mpr h
  obtain ⟨e, he⟩ : ∃ e : ℕ, Nat.log2 n = 52 + e := ⟨Nat.log2 n - 52, by omega⟩
  have hmax : max ((Nat.log2 n : ℤ) - 52) (-1074) = (e : ℤ) := by omega
  have hulp : pow 2 (e : ℤ) = ((2 ^ e : ℕ) : ℚ) := by
    rw [pow, if_pos (by omega), Int.toNat_natCast]
  have hquot : ((2 ^ 52 : ℕ) : ℚ) ≤ (n : ℚ) / ((2 ^ e : ℕ) : ℚ) := by
    rw [le_div_iff₀ (by positivity)]
    have hlow := Nat.log2_self_le hzero
    rw [he, Nat.pow_add] at hlow
    exact_mod_cast hlow
  have hround := le_roundHalfEven hquot
  obtain ⟨r, hr⟩ := Int.eq_ofNat_of_zero_le (le_trans (Int.natCast_nonneg (2 ^ 52)) hround)
  have hneg : ¬ (n : ℚ) < 0 := not_lt.mpr (Nat.cast_nonneg n)
  rw [ofRat, if_neg (by exact_mod_cast hzero)]
  simp only [Nat.abs_cast, log2_natCast hzero, hmax, hulp, hr, hneg, decide_false, if_false]
  split_ifs with hbig
  · exact .inl rfl
  · right
    rw [hr] at hround
    refine ⟨r * 2 ^ e, by push_cast; rfl, ?_⟩
    have hle : 2 ^ 52 ≤ r := by exact_mod_cast hround
    exact le_trans hle (Nat.le_mul_of_pos_right r (Nat.two_pow_pos e))

end JsNumber
end Prgd
