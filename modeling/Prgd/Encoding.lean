import Prgd.Text
import Mathlib.Algebra.BigOperators.Group.List.Basic
import Mathlib.Tactic.IntervalCases

/-!
# UTF-8, base64 and percent encoding

The three encodings of text that the platform's runtime library provides:
`Buffer.from(text)`, `toString('base64')` with padding, and
`encodeURIComponent`. Bytes are natural numbers.

The lemmas say which characters an encoding can contain and how long it is.
They are what a search for encoded words in other text needs to know.
-/
namespace Prgd.Encoding

/-- The UTF-8 bytes of a code point. -/
def utf8Point (n : ℕ) : List ℕ :=
  if n < 0x80 then [n]
  else if n < 0x800 then [0xc0 + n / 64, 0x80 + n % 64]
  else if n < 0x10000 then [0xe0 + n / 4096, 0x80 + n / 64 % 64, 0x80 + n % 64]
  else [0xf0 + n / 262144, 0x80 + n / 4096 % 64, 0x80 + n / 64 % 64, 0x80 + n % 64]

def utf8Char (c : Char) : List ℕ := utf8Point c.toNat

def utf8 (s : Text) : List ℕ := s.flatMap utf8Char

def alphabet : Text :=
  "ABCDEFGHIJKLMNOPQRSTUVWXYZabcdefghijklmnopqrstuvwxyz0123456789+/".toList

theorem alphabet_eq : alphabet =
    ['A', 'B', 'C', 'D', 'E', 'F', 'G', 'H', 'I', 'J', 'K', 'L', 'M', 'N', 'O', 'P', 'Q', 'R',
     'S', 'T', 'U', 'V', 'W', 'X', 'Y', 'Z', 'a', 'b', 'c', 'd', 'e', 'f', 'g', 'h', 'i', 'j',
     'k', 'l', 'm', 'n', 'o', 'p', 'q', 'r', 's', 't', 'u', 'v', 'w', 'x', 'y', 'z', '0', '1',
     '2', '3', '4', '5', '6', '7', '8', '9', '+', '/'] :=
  String.toList_ofList

def symbol (n : ℕ) : Char := alphabet.getD n '='

def base64 : List ℕ → Text
  | [] => []
  | [a] => [symbol (a / 4), symbol (a % 4 * 16), '=', '=']
  | [a, b] => [symbol (a / 4), symbol (a % 4 * 16 + b / 16), symbol (b % 16 * 4), '=']
  | a :: b :: c :: rest =>
      symbol (a / 4) :: symbol (a % 4 * 16 + b / 16) :: symbol (b % 16 * 4 + c / 64) ::
        symbol (c % 64) :: base64 rest

/-- The characters `encodeURIComponent` leaves alone. -/
def isUnreserved (c : Char) : Bool :=
  Text.isLetter c || Text.isDigit c || "-_.!~*'()".toList.contains c

def hexUpper (n : ℕ) : Char := "0123456789ABCDEF".toList.getD n '0'

def percentByte (b : ℕ) : Text := ['%', hexUpper (b / 16), hexUpper (b % 16)]

def encodeChar (c : Char) : Text :=
  if isUnreserved c then [c] else (utf8Char c).flatMap percentByte

def encodeURIComponent (s : Text) : Text := s.flatMap encodeChar

/-! ## UTF-8 -/

theorem toNat_lt (c : Char) : c.toNat < 0x110000 := by
  rcases c.valid with h | h
  · exact lt_trans h (by decide)
  · exact h.2

theorem utf8Point_ne_c0 (n : ℕ) : 0xc0 ∉ utf8Point n := by
  unfold utf8Point
  split_ifs <;> simp <;> omega

theorem utf8_ne_c0 (s : Text) : 0xc0 ∉ utf8 s := by
  simp [utf8, utf8Char, utf8Point_ne_c0]

theorem utf8Point_lt {n : ℕ} (hn : n < 0x110000) : ∀ b ∈ utf8Point n, b < 256 := by
  unfold utf8Point
  split_ifs <;> simp <;> omega

theorem utf8Char_lt (c : Char) : ∀ b ∈ utf8Char c, b < 256 := utf8Point_lt (toNat_lt c)

theorem utf8_lt (s : Text) : ∀ b ∈ utf8 s, b < 256 := by
  intro b hb
  obtain ⟨c, -, hb⟩ := List.mem_flatMap.mp hb
  exact utf8Char_lt c b hb

/-- A text has at least as many bytes as UTF-16 units. -/
theorem length16_le_utf8 (s : Text) : Text.length16 s ≤ (utf8 s).length := by
  induction s with
  | nil => simp [Text.length16]
  | cons c s ih =>
    have hc : (if c.toNat < 0x10000 then 1 else 2) ≤ (utf8Char c).length := by
      unfold utf8Char utf8Point
      split_ifs <;> first | omega | simp
    simp only [Text.length16, utf8, List.map_cons, List.sum_cons, List.flatMap_cons,
      List.length_append] at ih ⊢
    omega

/-! ## Base64 -/

theorem symbol_mem (n : ℕ) : symbol n ∈ '=' :: alphabet := by
  unfold symbol
  rw [List.getD_eq_getElem?_getD]
  cases h : alphabet[n]? with
  | none => simp
  | some c => exact List.mem_cons_of_mem _ (List.mem_of_getElem? h)

theorem base64_mem (bs : List ℕ) : ∀ c ∈ base64 bs, c ∈ '=' :: alphabet := by
  fun_induction base64 bs with
  | case1 => simp
  | case2 a =>
    simp only [List.forall_mem_cons, symbol_mem, true_and]
    simp
  | case3 a b =>
    simp only [List.forall_mem_cons, symbol_mem, true_and]
    simp
  | case4 a b c rest ih =>
    simp only [List.forall_mem_cons, symbol_mem, true_and]
    exact ih

theorem base64_length (bs : List ℕ) : (base64 bs).length = 4 * ((bs.length + 2) / 3) := by
  fun_induction base64 bs with
  | case1 | case2 | case3 => simp
  | case4 a b c rest ih =>
    simp only [List.length_cons, ih]
    omega

/-! ## Percent encoding -/

theorem percentByte_mem (b : ℕ) : ∀ c ∈ percentByte b, c ∈ "%0123456789ABCDEF".toList := by
  have hx : ∀ n, hexUpper n ∈ "%0123456789ABCDEF".toList := by
    intro n
    unfold hexUpper
    rw [List.getD_eq_getElem?_getD]
    cases h : "0123456789ABCDEF".toList[n]? with
    | none => decide
    | some c => exact List.mem_cons_of_mem '%' (List.mem_of_getElem? h)
  intro c hc
  simp only [percentByte, List.mem_cons, List.not_mem_nil, or_false] at hc
  rcases hc with rfl | rfl | rfl
  · decide
  · exact hx _
  · exact hx _

theorem utf8Char_ne_nil (c : Char) : utf8Char c ≠ [] := by
  unfold utf8Char utf8Point
  split_ifs <;> simp

/-- Percent encoding either changes nothing or brings in a percent sign. -/
theorem encode_eq_or_percent (s : Text) :
    encodeURIComponent s = s ∨ '%' ∈ encodeURIComponent s := by
  induction s with
  | nil => exact .inl rfl
  | cons c s ih =>
    simp only [encodeURIComponent, List.flatMap_cons, List.mem_append] at ih ⊢
    by_cases hc : isUnreserved c
    · simp only [encodeChar, hc, ite_true] at ih ⊢
      rcases ih with ih | ih
      · exact .inl (by simp [ih])
      · exact .inr (.inr ih)
    · refine .inr (.inl ?_)
      obtain ⟨b, bs, hb⟩ := List.exists_cons_of_ne_nil (utf8Char_ne_nil c)
      simp [encodeChar, hc, hb, percentByte]

theorem encode_mem (s : Text) :
    ∀ c ∈ encodeURIComponent s, isUnreserved c ∨ c = '%' := by
  intro c hc
  obtain ⟨d, -, hd⟩ := List.mem_flatMap.mp hc
  unfold encodeChar at hd
  split_ifs at hd with hu
  · exact .inl (List.mem_singleton.mp hd ▸ hu)
  · obtain ⟨b, -, hb⟩ := List.mem_flatMap.mp hd
    have := percentByte_mem b c hb
    revert this
    simp only [show "%0123456789ABCDEF".toList = ['%', '0', '1', '2', '3', '4', '5', '6', '7',
      '8', '9', 'A', 'B', 'C', 'D', 'E', 'F'] from rfl, List.mem_cons, List.not_mem_nil, or_false]
    rintro (rfl | rfl | rfl | rfl | rfl | rfl | rfl | rfl | rfl | rfl | rfl | rfl | rfl | rfl |
      rfl | rfl | rfl)
    all_goals first | exact .inr rfl | exact .inl (by decide)

end Prgd.Encoding
