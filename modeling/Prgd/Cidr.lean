import Prgd.JsNumber
import Mathlib.Tactic.IntervalCases
import Mathlib.Data.Nat.Bitwise

/-!
# Addresses as numbers

IPv4 addresses and CIDR blocks as the network services read and print them: `ipToInt`, `intToIp`
and `parseCidr`, with the 32-bit operators of the language. An operator reads its operand modulo
`2 ^ 32`; all but `>>>` give a signed number.
-/
namespace Prgd.Cidr

/-! ## 32-bit operators -/

/-- `a << k` -/
def shl (a : ℤ) (k : ℕ) : ℤ := (BitVec.ofInt 32 a <<< (k % 32)).toInt

/-- `a >>> k` -/
def ushr (a : ℤ) (k : ℕ) : ℕ := (BitVec.ofInt 32 a >>> (k % 32)).toNat

/-- `a & b` -/
def band (a b : ℤ) : ℤ := (BitVec.ofInt 32 a &&& BitVec.ofInt 32 b).toInt

theorem ushr_ofNat {n : ℕ} (h : n < 2 ^ 32) {k : ℕ} (hk : k < 32) : ushr n k = n / 2 ^ k := by
  rw [ushr, BitVec.ofInt_natCast, BitVec.toNat_ushiftRight, BitVec.toNat_ofNat, Nat.mod_eq_of_lt h,
    Nat.mod_eq_of_lt hk, Nat.shiftRight_eq_div_pow]

/-- `a >>> 0` only takes the sign away. -/
theorem ushr_shl {n k : ℕ} (hk : k < 32) (h : n * 2 ^ k < 2 ^ 32) : ushr (shl n k) 0 = n * 2 ^ k := by
  have hn : n < 2 ^ 32 := lt_of_le_of_lt (Nat.le_mul_of_pos_right n (Nat.two_pow_pos k)) h
  rw [ushr, shl, BitVec.ofInt_toInt, Nat.mod_eq_of_lt hk, BitVec.ofInt_natCast]
  simp only [Nat.zero_mod, BitVec.ushiftRight_zero, BitVec.toNat_shiftLeft, BitVec.toNat_ofNat]
  rw [Nat.mod_eq_of_lt hn, Nat.shiftLeft_eq, Nat.mod_eq_of_lt h]

theorem shl_ofNat {n k : ℕ} (hk : k < 32) (h : n * 2 ^ k < 2 ^ 31) :
    shl n k = ((n * 2 ^ k : ℕ) : ℤ) := by
  have hn : n < 2 ^ 32 := by
    have := Nat.le_mul_of_pos_right n (Nat.two_pow_pos k)
    omega
  have hnat : (BitVec.ofNat 32 n <<< k).toNat = n * 2 ^ k := by
    rw [BitVec.toNat_shiftLeft, BitVec.toNat_ofNat, Nat.mod_eq_of_lt hn, Nat.shiftLeft_eq,
      Nat.mod_eq_of_lt (by omega)]
  rw [shl, BitVec.ofInt_natCast, Nat.mod_eq_of_lt hk, BitVec.toInt_eq_toNat_of_lt (by omega), hnat]

theorem band_byte {n : ℕ} (h : n < 2 ^ 32) : band n 255 = ((n % 256 : ℕ) : ℤ) := by
  have hnat : (BitVec.ofNat 32 n &&& BitVec.ofInt 32 255).toNat = n % 256 := by
    rw [BitVec.toNat_and, BitVec.toNat_ofNat, Nat.mod_eq_of_lt h]
    exact Nat.and_two_pow_sub_one_eq_mod n 8
  rw [band, BitVec.ofInt_natCast, BitVec.toInt_eq_toNat_of_lt (by omega), hnat]

/-- The low bits are cut off. -/
theorem and_mask {w n k : ℕ} (h : n < 2 ^ w) (hk : k ≤ w) :
    n &&& (2 ^ w - 2 ^ k) = n / 2 ^ k * 2 ^ k := by
  have hmask : 2 ^ w - 2 ^ k = (2 ^ (w - k) - 1) <<< k := by
    rw [Nat.shiftLeft_eq, Nat.sub_mul, ← pow_add, Nat.sub_add_cancel hk, one_mul]
  rw [hmask, ← Nat.shiftRight_eq_div_pow, ← Nat.shiftLeft_eq]
  apply Nat.eq_of_testBit_eq
  intro i
  simp only [Nat.testBit_and, Nat.testBit_shiftLeft, Nat.testBit_two_pow_sub_one,
    Nat.testBit_shiftRight]
  by_cases hi : k ≤ i
  · have hback : k + (i - k) = i := by omega
    by_cases hlt : i < w
    · have hlow : i - k < w - k := by omega
      simp [hi, hlow, hback]
    · have hzero : n.testBit i = false := Nat.testBit_lt_two_pow (lt_of_lt_of_le h
        (Nat.pow_le_pow_right (by omega) (by omega)))
      simp [hback, hzero]
  · simp [hi]

/-! ## Addresses -/

/-- `Number` of a part of an address. -/
def byte (s : Text) : Option ℕ :=
  match JsNumber.ofText s with
  | .fin q => if q.den = 1 ∧ 0 ≤ q ∧ q ≤ 255 then some q.num.toNat else none
  | _ => none

def ipToInt (ip : Text) : Option ℤ :=
  match (Text.split ip ['.']).map byte with
  | [some a, some b, some c, some d] => some (ushr (shl a 24) 0 + shl b 16 + shl c 8 + d)
  | _ => none

def intToIp (n : ℤ) : Text :=
  Text.join ['.'] ([(ushr n 24 : ℤ), band (ushr n 16) 255, band (ushr n 8) 255, band n 255].map
    fun b => JsNumber.digits b.toNat)

structure Block where
  base : ℕ
  bits : ℕ
  deriving DecidableEq

/-- The number of leading bits: a text without a slash has none, and the empty text is 0. -/
def prefixBits (s : Option Text) : Option ℕ :=
  match s.map JsNumber.ofText with
  | some (.fin q) => if q.den = 1 ∧ 0 ≤ q ∧ q ≤ 32 then some q.num.toNat else none
  | _ => none

def mask (bits : ℕ) : ℤ := if bits = 0 then 0 else ushr (shl 0xffffffff (32 - bits)) 0

def parseCidr (cidr : Text) : Option Block :=
  let parts := Text.split cidr ['/']
  match prefixBits parts[1]?, (parts[0]?).bind ipToInt with
  | some bits, some n => some ⟨ushr (band n (mask bits)) 0, bits⟩
  | _, _ => none

/-- `Number(cidr.split('/')[1])`, of a text that has been parsed. -/
def prefixOf (cidr : Text) : JsNumber :=
  match (Text.split cidr ['/'])[1]? with
  | none => .nan
  | some s => JsNumber.ofText s

/-! ## Reading what was printed -/

theorem byte_digits {k : ℕ} (h : k < 256) : byte (JsNumber.digits k) = some k := by
  have hle : (k : ℚ) ≤ 255 := by exact_mod_cast Nat.le_of_lt_succ h
  simp [byte, JsNumber.ofText_digits (n := k) (by omega), hle]

theorem byte_lt {s : Text} {k : ℕ} (h : byte s = some k) : k < 256 := by
  unfold byte at h
  split at h
  · next q _ =>
    split_ifs at h with hq
    cases h
    obtain ⟨hden, hnonneg, hle⟩ := hq
    have hnum : (q.num : ℚ) = q := Rat.coe_int_num_of_den_eq_one hden
    have hint : q.num ≤ 255 := by exact_mod_cast hnum.trans_le hle
    omega
  · cases h

/-- Four bytes make a number of 32 bits. -/
theorem ofBytes {a b c d : ℕ} (ha : a < 256) (hb : b < 256) (hc : c < 256) :
    (ushr (shl a 24) 0 : ℤ) + shl b 16 + shl c 8 + d =
      ((a * 2 ^ 24 + b * 2 ^ 16 + c * 2 ^ 8 + d : ℕ) : ℤ) := by
  rw [ushr_shl (by omega) (by omega), shl_ofNat (by omega) (by omega),
    shl_ofNat (by omega) (by omega)]
  push_cast
  rfl

theorem ipToInt_lt {ip : Text} {n : ℤ} (h : ipToInt ip = some n) : ∃ m : ℕ, n = m ∧ m < 2 ^ 32 := by
  unfold ipToInt at h
  split at h
  · next a b c d hparts =>
    have hn := Option.some.inj h
    have hbyte : ∀ k, some k ∈ (Text.split ip ['.']).map byte → k < 256 := by
      intro k hk
      obtain ⟨s, -, hs⟩ := List.mem_map.mp hk
      exact byte_lt hs
    rw [hparts] at hbyte
    have ha := hbyte a (by simp)
    have hb := hbyte b (by simp)
    have hc := hbyte c (by simp)
    have hd := hbyte d (by simp)
    rw [ofBytes ha hb hc] at hn
    exact ⟨_, hn.symm, by omega⟩
  · cases h

theorem intToIp_eq {n : ℕ} (h : n < 2 ^ 32) :
    intToIp n = Text.join ['.'] ([n / 2 ^ 24, n / 2 ^ 16 % 256, n / 2 ^ 8 % 256, n % 256].map
      JsNumber.digits) := by
  have h16 : n / 2 ^ 16 < 2 ^ 32 := lt_of_le_of_lt (Nat.div_le_self _ _) h
  have h8 : n / 2 ^ 8 < 2 ^ 32 := lt_of_le_of_lt (Nat.div_le_self _ _) h
  simp only [intToIp, ushr_ofNat h (by omega : 24 < 32), ushr_ofNat h (by omega : 16 < 32),
    ushr_ofNat h (by omega : 8 < 32), band_byte h16, band_byte h8, band_byte h, List.map_cons,
    List.map_nil, Int.toNat_natCast]

theorem bytes_lt {n : ℕ} (h : n < 2 ^ 32) :
    ∀ k ∈ [n / 2 ^ 24, n / 2 ^ 16 % 256, n / 2 ^ 8 % 256, n % 256], k < 256 := by
  intro k hk
  simp only [List.mem_cons, List.not_mem_nil, or_false] at hk
  omega

/-- An address that was printed is read as the same number. -/
theorem ipToInt_intToIp {n : ℕ} (h : n < 2 ^ 32) : ipToInt (intToIp n) = some (n : ℤ) := by
  have hlt := bytes_lt h
  have hsplit : Text.split (intToIp n) ['.'] =
      [n / 2 ^ 24, n / 2 ^ 16 % 256, n / 2 ^ 8 % 256, n % 256].map JsNumber.digits := by
    rw [intToIp_eq h]
    apply Text.split_join (by simp)
    intro p hp
    obtain ⟨k, hk, rfl⟩ := List.mem_map.mp hp
    exact JsNumber.notMem_digits (by decide) k
  have ha := hlt (n / 2 ^ 24) (by simp)
  have hb := hlt (n / 2 ^ 16 % 256) (by simp)
  have hc := hlt (n / 2 ^ 8 % 256) (by simp)
  have hd := hlt (n % 256) (by simp)
  unfold ipToInt
  rw [hsplit]
  simp only [List.map_cons, List.map_nil, byte_digits ha, byte_digits hb, byte_digits hc,
    byte_digits hd]
  rw [ofBytes ha hb hc]
  congr 1
  omega

theorem intToIp_injective {n m : ℕ} (hn : n < 2 ^ 32) (hm : m < 2 ^ 32) (h : intToIp n = intToIp m) :
    n = m := by
  have heq : some (n : ℤ) = some (m : ℤ) := by
    rw [← ipToInt_intToIp hn, h, ipToInt_intToIp hm]
  exact_mod_cast Option.some.inj heq

theorem notMem_intToIp {n : ℕ} (h : n < 2 ^ 32) : '/' ∉ intToIp n := by
  rw [intToIp_eq h]
  have hdigits : ∀ k ∈ [n / 2 ^ 24, n / 2 ^ 16 % 256, n / 2 ^ 8 % 256, n % 256],
      '/' ∉ JsNumber.digits k := fun k _ => JsNumber.notMem_digits (by decide) k
  simp only [List.mem_cons, List.not_mem_nil, or_false, forall_eq_or_imp, forall_eq] at hdigits
  obtain ⟨ha, hb, hc, hd⟩ := hdigits
  simp only [Text.join, List.map_cons, List.map_nil, List.mem_append, List.mem_singleton, ha, hb, hc,
    hd, or_false, false_or]
  decide

/-! ## Blocks -/

/-- The addresses of a block. -/
def Block.Mem (b : Block) (a : ℕ) : Prop := b.base ≤ a ∧ a < b.base + 2 ^ (32 - b.bits)

/-- A block starts at a multiple of its size and ends with the last address at the latest. -/
structure Block.WellFormed (b : Block) : Prop where
  bits : b.bits ≤ 32
  aligned : 2 ^ (32 - b.bits) ∣ b.base
  fits : b.base + 2 ^ (32 - b.bits) ≤ 2 ^ 32

theorem mask_eq : ∀ bits < 33, mask bits = ((2 ^ 32 - 2 ^ (32 - bits) : ℕ) : ℤ) := by
  decide

theorem base_eq {n bits : ℕ} (hn : n < 2 ^ 32) (hbits : bits ≤ 32) :
    ushr (band n (mask bits)) 0 = n / 2 ^ (32 - bits) * 2 ^ (32 - bits) := by
  have hpos := Nat.two_pow_pos (32 - bits)
  rw [mask_eq bits (by omega), ushr, band, BitVec.ofInt_toInt, BitVec.ofInt_natCast,
    BitVec.ofInt_natCast]
  simp only [Nat.zero_mod, BitVec.ushiftRight_zero, BitVec.toNat_and, BitVec.toNat_ofNat]
  rw [Nat.mod_eq_of_lt hn, Nat.mod_eq_of_lt (by omega), and_mask hn (by omega)]

theorem wellFormed_of_aligned {n bits : ℕ} (hn : n < 2 ^ 32) (hbits : bits ≤ 32)
    (haligned : 2 ^ (32 - bits) ∣ n) : Block.WellFormed ⟨n, bits⟩ := by
  refine ⟨hbits, haligned, ?_⟩
  obtain ⟨k, rfl⟩ := haligned
  have hsize : 2 ^ (32 - bits) * 2 ^ bits = 2 ^ 32 := by rw [← pow_add, Nat.sub_add_cancel hbits]
  have hk : k < 2 ^ bits := by
    by_contra hge
    have := Nat.mul_le_mul_left (2 ^ (32 - bits)) (Nat.le_of_not_lt hge)
    omega
  calc 2 ^ (32 - bits) * k + 2 ^ (32 - bits) = 2 ^ (32 - bits) * (k + 1) := by ring
    _ ≤ 2 ^ (32 - bits) * 2 ^ bits := Nat.mul_le_mul_left _ hk
    _ = 2 ^ 32 := hsize

theorem prefixBits_le {s : Option Text} {bits : ℕ} (h : prefixBits s = some bits) : bits ≤ 32 := by
  unfold prefixBits at h
  split at h
  · next q _ =>
    split_ifs at h with hq
    cases h
    obtain ⟨hden, hnonneg, hle⟩ := hq
    have hnum : (q.num : ℚ) = q := Rat.coe_int_num_of_den_eq_one hden
    have hint : q.num ≤ 32 := by exact_mod_cast hnum.trans_le hle
    omega
  · cases h

/-- What `parseCidr` gives is a block. -/
theorem parseCidr_wellFormed {cidr : Text} {b : Block} (h : parseCidr cidr = some b) :
    b.WellFormed := by
  unfold parseCidr at h
  simp only at h
  split at h
  · next bits n hbits hn =>
    cases h
    have hle := prefixBits_le hbits
    obtain ⟨ip, -, hip⟩ := Option.bind_eq_some_iff.mp hn
    obtain ⟨m, rfl, hm⟩ := ipToInt_lt hip
    rw [base_eq hm hle]
    apply wellFormed_of_aligned _ hle (Nat.dvd_mul_left _ _)
    exact lt_of_le_of_lt (Nat.div_mul_le_self m _) hm
  · cases h

/-- A block that was printed is read as the same block. -/
theorem parseCidr_print {b : Block} (h : b.WellFormed) :
    parseCidr (intToIp b.base ++ '/' :: JsNumber.digits b.bits) = some b := by
  have hbits := h.bits
  have hfits := h.fits
  have hpos := Nat.two_pow_pos (32 - b.bits)
  have hlt : b.base < 2 ^ 32 := by omega
  have hwritten : prefixBits (some (JsNumber.digits b.bits)) = some b.bits := by
    have hle : (b.bits : ℚ) ≤ 32 := by exact_mod_cast hbits
    simp [prefixBits, JsNumber.ofText_digits (n := b.bits) (by omega), hle]
  unfold parseCidr
  rw [Text.split_append (notMem_intToIp hlt),
    Text.split_of_notMem (JsNumber.notMem_digits (by decide) _)]
  simp only [List.getElem?_cons_succ, List.getElem?_cons_zero, Option.bind_some, hwritten,
    ipToInt_intToIp hlt, base_eq hlt hbits, Nat.div_mul_cancel h.aligned]

end Prgd.Cidr
