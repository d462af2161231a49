import Prgd.Encoding

/-!
# Reading UTF-8 and base64

`Buffer.from(text, 'base64')` and `toString('utf8')`. Bytes that are no UTF-8 become
replacement characters, and characters outside of the base64 alphabet are passed over, so
neither fails. Both give back what the encodings of the platform have written.
-/
namespace Prgd.Encoding

/-! ## UTF-8 -/

def replacement : Char := Char.ofNat 0xfffd

def isContinuation (b : ℕ) : Bool := 0x80 ≤ b && b ≤ 0xbf

/-- The second byte of a sequence, which excludes overlong forms, surrogates and code points
that are too large. -/
def isSecond (a b : ℕ) : Bool :=
  isContinuation b && (a != 0xe0 || 0xa0 ≤ b) && (a != 0xed || b ≤ 0x9f) &&
    (a != 0xf0 || 0x90 ≤ b) && (a != 0xf4 || b ≤ 0x8f)

/-- The character that begins with the byte `a`, and how many bytes behind `a` belong to it. The
longest start of a sequence that breaks off is one replacement character. -/
def sequence (a : ℕ) (rest : List ℕ) : Char × ℕ :=
  if a < 0x80 then (Char.ofNat a, 0)
  else if a < 0xc2 || 0xf4 < a then (replacement, 0)
  else match rest with
    | [] => (replacement, 0)
    | b :: rest =>
        if isSecond a b = false then (replacement, 0)
        else if a < 0xe0 then (Char.ofNat ((a - 0xc0) * 64 + (b - 0x80)), 1)
        else match rest with
          | [] => (replacement, 1)
          | c :: rest =>
              if isContinuation c = false then (replacement, 1)
              else if a < 0xf0 then
                (Char.ofNat (((a - 0xe0) * 64 + (b - 0x80)) * 64 + (c - 0x80)), 2)
              else match rest with
                | [] => (replacement, 2)
                | d :: _ =>
                    if isContinuation d = false then (replacement, 2)
                    else (Char.ofNat ((((a - 0xf0) * 64 + (b - 0x80)) * 64 + (c - 0x80)) * 64 +
                      (d - 0x80)), 3)

/-- The characters behind the bytes that are still to be passed. -/
def fromUtf8From : ℕ → List ℕ → Text
  | _, [] => []
  | skip + 1, _ :: rest => fromUtf8From skip rest
  | 0, a :: rest => (sequence a rest).1 :: fromUtf8From (sequence a rest).2 rest

/-- `toString('utf8')` -/
def fromUtf8 (bs : List ℕ) : Text := fromUtf8From 0 bs

theorem fromUtf8From_append (l rest : List ℕ) :
    fromUtf8From l.length (l ++ rest) = fromUtf8From 0 rest := by
  induction l with
  | nil => rfl
  | cons a l ih => exact ih

theorem isSecond_eq_true {a b : ℕ} (hlo : 0x80 ≤ b) (hhi : b ≤ 0xbf) (he0 : a = 0xe0 → 0xa0 ≤ b)
    (hed : a = 0xed → b ≤ 0x9f) (hf0 : a = 0xf0 → 0x90 ≤ b) (hf4 : a = 0xf4 → b ≤ 0x8f) :
    isSecond a b = true := by
  simp only [isSecond, isContinuation, Bool.and_eq_true, Bool.or_eq_true, decide_eq_true_eq,
    bne_iff_ne, ne_eq]
  omega

theorem isContinuation_add (n : ℕ) : isContinuation (0x80 + n % 64) = true := by
  simp only [isContinuation, Bool.and_eq_true, decide_eq_true_eq]
  omega

/-- The bytes of a code point are one sequence. -/
theorem sequence_utf8Point {n : ℕ} (hmax : n < 0x110000) (hsur : n < 0xd800 ∨ 0xdfff < n) :
    ∃ a l, utf8Point n = a :: l ∧ ∀ rest, sequence a (l ++ rest) = (Char.ofNat n, l.length) := by
  unfold utf8Point
  split_ifs with h1 h2 h3
  · refine ⟨n, [], rfl, fun rest => ?_⟩
    unfold sequence
    rw [if_pos h1]
    rfl
  · refine ⟨_, _, rfl, fun rest => ?_⟩
    have hsecond : isSecond (0xc0 + n / 64) (0x80 + n % 64) = true :=
      isSecond_eq_true (by omega) (by omega) (by omega) (by omega) (by omega) (by omega)
    have hvalue : (0xc0 + n / 64 - 0xc0) * 64 + (0x80 + n % 64 - 0x80) = n := by omega
    unfold sequence
    rw [if_neg (by omega), if_neg (by simp; omega)]
    simp only [List.cons_append, List.nil_append, hsecond, Bool.true_eq_false, if_false, hvalue]
    rw [if_pos (by omega)]
    rfl
  · refine ⟨_, _, rfl, fun rest => ?_⟩
    have hsecond : isSecond (0xe0 + n / 4096) (0x80 + n / 64 % 64) = true :=
      isSecond_eq_true (by omega) (by omega) (by omega) (by omega) (by omega) (by omega)
    have hvalue : ((0xe0 + n / 4096 - 0xe0) * 64 + (0x80 + n / 64 % 64 - 0x80)) * 64 +
        (0x80 + n % 64 - 0x80) = n := by omega
    unfold sequence
    rw [if_neg (by omega), if_neg (by simp; omega)]
    simp only [List.cons_append, List.nil_append, hsecond, isContinuation_add, Bool.true_eq_false,
      if_false, hvalue]
    rw [if_neg (by omega), if_pos (by omega)]
    rfl
  · refine ⟨_, _, rfl, fun rest => ?_⟩
    have hsecond : isSecond (0xf0 + n / 262144) (0x80 + n / 4096 % 64) = true :=
      isSecond_eq_true (by omega) (by omega) (by omega) (by omega) (by omega) (by omega)
    have hvalue : (((0xf0 + n / 262144 - 0xf0) * 64 + (0x80 + n / 4096 % 64 - 0x80)) * 64 +
        (0x80 + n / 64 % 64 - 0x80)) * 64 + (0x80 + n % 64 - 0x80) = n := by omega
    unfold sequence
    rw [if_neg (by omega), if_neg (by simp; omega)]
    simp only [List.cons_append, List.nil_append, hsecond, isContinuation_add, Bool.true_eq_false,
      if_false, hvalue]
    rw [if_neg (by omega), if_neg (by omega)]
    rfl

/-- A code point is no surrogate. -/
theorem not_surrogate (c : Char) : c.toNat < 0xd800 ∨ 0xdfff < c.toNat := by
  rcases c.valid with h | h
  · exact .inl h
  · exact .inr h.1

/-- A text is read from its bytes, whatever comes behind them. -/
theorem fromUtf8_utf8_append (s : Text) (bs : List ℕ) :
    fromUtf8 (utf8 s ++ bs) = s ++ fromUtf8 bs := by
  induction s with
  | nil => rfl
  | cons c s ih =>
    obtain ⟨a, l, hbytes, hsequence⟩ := sequence_utf8Point (toNat_lt c) (not_surrogate c)
    rw [utf8, List.flatMap_cons, utf8Char, hbytes, ← utf8, fromUtf8, List.cons_append,
      List.cons_append, List.append_assoc, fromUtf8From, hsequence, fromUtf8From_append,
      Char.ofNat_toNat]
    exact congrArg (c :: ·) ih

theorem fromUtf8_utf8 (s : Text) : fromUtf8 (utf8 s) = s := by
  rw [← List.append_nil (utf8 s), fromUtf8_utf8_append, fromUtf8, fromUtf8From, List.append_nil]

/-- A character and the bytes behind its first: no more UTF-16 units than bytes, of those there
are. -/
def Fits (n : ℕ) (r : Char × ℕ) : Prop :=
  (if r.1.toNat < 0x10000 then 1 else 2) ≤ r.2 + 1 ∧ r.2 ≤ n

theorem fits_of_lt {n k c : ℕ} (hc : c < 0x10000) (hk : k ≤ n) : Fits n (Char.ofNat c, k) := by
  have hle : (Char.ofNat c).toNat ≤ c := by
    unfold Char.ofNat
    split_ifs
    · exact le_rfl
    · exact Nat.zero_le c
  refine ⟨?_, hk⟩
  rw [if_pos (by dsimp only; omega)]
  omega

theorem fits_of_pos {n k : ℕ} (c : Char) (h : 1 ≤ k) (hk : k ≤ n) : Fits n (c, k) := by
  refine ⟨?_, hk⟩
  dsimp only
  split_ifs <;> omega

theorem fits_ite {n : ℕ} {c : Prop} [Decidable c] {x y : Char × ℕ} (hx : c → Fits n x)
    (hy : Fits n y) : Fits n (if c then x else y) := by
  by_cases hc : c
  · rw [if_pos hc]
    exact hx hc
  · rw [if_neg hc]
    exact hy

theorem sequence_fits (a : ℕ) (rest : List ℕ) : Fits rest.length (sequence a rest) := by
  have hlost : ∀ {n k}, k ≤ n → Fits n (replacement, k) := fun hk => fits_of_lt (by omega) hk
  unfold sequence
  refine fits_ite (fun h => fits_of_lt (by omega) (Nat.zero_le _)) ?_
  refine fits_ite (fun _ => hlost (Nat.zero_le _)) ?_
  match rest with
  | [] => exact hlost le_rfl
  | b :: rest =>
    refine fits_ite (fun _ => hlost (Nat.zero_le _)) ?_
    refine fits_ite (fun _ => fits_of_pos _ le_rfl (by simp)) ?_
    match rest with
    | [] => exact hlost (by simp)
    | c :: rest =>
      refine fits_ite (fun _ => hlost (by simp)) ?_
      refine fits_ite (fun _ => fits_of_pos _ (by omega) (by simp)) ?_
      match rest with
      | [] => exact hlost (by simp)
      | d :: rest =>
        exact fits_ite (fun _ => hlost (by simp)) (fits_of_pos _ (by omega) (by simp))

theorem length16_fromUtf8_le (bs : List ℕ) : Text.length16 (fromUtf8 bs) ≤ bs.length := by
  have hfrom : ∀ skip, Text.length16 (fromUtf8From skip bs) ≤ bs.length - skip := by
    induction bs with
    | nil => intro skip; cases skip <;> simp [fromUtf8From, Text.length16]
    | cons a bs ih =>
      intro skip
      cases skip with
      | succ skip => simpa [fromUtf8From] using ih skip
      | zero =>
        obtain ⟨hunits, hrest⟩ := sequence_fits a bs
        have htail := ih (sequence a bs).2
        simp only [fromUtf8From, Text.length16, List.map_cons, List.sum_cons, List.length_cons]
          at htail ⊢
        omega
  exact hfrom 0

/-! ## Base64 -/

/-- The value of a character, also in the alphabet for file names. -/
def symbolValue (c : Char) : Option ℕ :=
  if Text.isUpper c then some (c.toNat - 65)
  else if Text.isLower c then some (c.toNat - 71)
  else if Text.isDigit c then some (c.toNat + 4)
  else if c = '+' ∨ c = '-' then some 62
  else if c = '/' ∨ c = '_' then some 63
  else none

/-- Four values are three bytes; what is left over is cut off. -/
def fromSextets : List ℕ → List ℕ
  | a :: b :: c :: d :: rest =>
      (a * 4 + b / 16) :: (b % 16 * 16 + c / 4) :: (c % 4 * 64 + d) :: fromSextets rest
  | [a, b, c] => [a * 4 + b / 16, b % 16 * 16 + c / 4]
  | [a, b] => [a * 4 + b / 16]
  | _ => []

/-- `Buffer.from(text, 'base64')` -/
def fromBase64 (s : Text) : List ℕ := fromSextets (s.filterMap symbolValue)

theorem symbolValue_symbol : ∀ n < 64, symbolValue (symbol n) = some n := by
  simp only [symbol, alphabet_eq]
  decide

theorem fromBase64_base64 {bs : List ℕ} (h : ∀ b ∈ bs, b < 256) : fromBase64 (base64 bs) = bs := by
  have hpad : symbolValue '=' = none := by decide
  unfold fromBase64
  fun_induction base64 bs with
  | case1 => rfl
  | case2 a =>
    have ha := h a (by simp)
    simp only [List.filterMap_cons, symbolValue_symbol (a / 4) (by omega),
      symbolValue_symbol (a % 4 * 16) (by omega), hpad, List.filterMap_nil, fromSextets]
    simp only [List.cons.injEq, and_true]
    omega
  | case3 a b =>
    have ha := h a (by simp)
    have hb := h b (by simp)
    simp only [List.filterMap_cons, symbolValue_symbol (a / 4) (by omega),
      symbolValue_symbol (a % 4 * 16 + b / 16) (by omega),
      symbolValue_symbol (b % 16 * 4) (by omega), hpad, List.filterMap_nil, fromSextets]
    simp only [List.cons.injEq, and_true]
    omega
  | case4 a b c rest ih =>
    have ha := h a (by simp)
    have hb := h b (by simp)
    have hc := h c (by simp)
    simp only [List.filterMap_cons, symbolValue_symbol (a / 4) (by omega),
      symbolValue_symbol (a % 4 * 16 + b / 16) (by omega),
      symbolValue_symbol (b % 16 * 4 + c / 64) (by omega),
      symbolValue_symbol (c % 64) (by omega), fromSextets]
    rw [ih fun x hx => h x (by simp [hx])]
    simp only [List.cons.injEq, and_true]
    omega

end Prgd.Encoding
