import Prgd.NetGuard
import Prgd.Cidr

/-!
# Spellings of an IPv6 address

The guard finds the IPv4 address that is embedded in an IPv6 address by the text of the
address, and everything else by its number. For an IPv4 mapped address both ways agree.
A NAT64 address is found by two forms of its text only, and the address with the number
`::ffff:0:0:0` in front by one form: in every other spelling it counts as a public
address, whatever IPv4 address it leads to.
-/
namespace Prgd.NetGuard
open IpAddress

/-! ## The embedded address -/

/-- The IPv4 address in the last 32 bits. -/
def low (n : BitVec 128) : BitVec 32 := n.truncate 32

/-- The address is in `::ffff:0:0/96`. -/
def IsMapped (n : BitVec 128) : Prop := n >>> 32 = 0xffff#128

/-- The address is in `64:ff9b::/96`. -/
def IsNat64 (n : BitVec 128) : Prop := n >>> 32 = 0x64ff9b0000000000000000#128

/-- The address is in `::ffff:0:0:0/96`. -/
def IsTranslated (n : BitVec 128) : Prop := n >>> 32 = 0xffff0000#128

/-- The IPv4 address is in a blocked range. -/
def blockedV4 (a : BitVec 32) : Bool := blocked.any fun r => r.contains (.v4 a)

/-- Two groups of hexadecimal digits, or an IPv4 address. -/
def IsTail (tail : Text) : Prop :=
  (parseV4 tail).isSome ∨
    ∃ a b, tail = a ++ ':' :: b ∧ (hexGroup a).isSome ∧ (hexGroup b).isSome

/-- The spelling is one of those whose embedded address the guard sees. -/
def Recognised (s : Text) : Prop :=
  ∃ tail, Text.asciiLower s = "64:ff9b::".toList ++ tail ∧ IsTail tail ∨
    Text.asciiLower s = "::ffff:0:".toList ++ tail ∧ (parseV4 tail).isSome

/-! ## Upper and lower case -/

def lowerChar (c : Char) : Char := if Text.isUpper c then Char.ofNat (c.toNat + 32) else c

theorem asciiLower_eq (s : Text) : Text.asciiLower s = s.map lowerChar := rfl

theorem upper_range {c : Char} (h : Text.isUpper c = true) : 65 ≤ c.toNat ∧ c.toNat ≤ 90 := by
  simp only [Text.isUpper, Bool.and_eq_true, decide_eq_true_eq, Char.le_def,
    UInt32.le_iff_toNat_le] at h
  exact h

theorem toNat_lowerChar {c : Char} (h : Text.isUpper c = true) :
    (lowerChar c).toNat = c.toNat + 32 := by
  have hr := upper_range h
  have hascii : ∀ n < 128, (Char.ofNat n).toNat = n := by decide
  rw [lowerChar, if_pos h, hascii _ (by omega)]

/-- Lower case does not touch the characters between the groups. -/
theorem lowerChar_eq_iff {c d : Char} (hc : c.toNat < 65) : lowerChar d = c ↔ d = c := by
  by_cases h : Text.isUpper d = true
  · have hr := upper_range h
    have hl := toNat_lowerChar h
    constructor
    · rintro rfl
      omega
    · rintro rfl
      omega
  · rw [lowerChar, if_neg h]

section
variable {f : Char → Char} {sub : Text} (hf : ∀ c ∈ sub, ∀ d, f d = c ↔ d = c)
include hf

theorem isPrefixOf_map (l : Text) : sub.isPrefixOf (l.map f) = sub.isPrefixOf l := by
  induction sub generalizing l with
  | nil => simp
  | cons c sub ih =>
    cases l with
    | nil => simp
    | cons d l =>
      rw [List.forall_mem_cons] at hf
      have hcd : (c == f d) = (c == d) := by
        rw [Bool.eq_iff_iff, beq_iff_eq, beq_iff_eq, eq_comm, hf.1 d, eq_comm]
      rw [List.map_cons, List.isPrefixOf_cons_cons, List.isPrefixOf_cons_cons, ih hf.2, hcd]

theorem breakOn_map (l : Text) :
    Text.breakOn sub (l.map f) = (Text.breakOn sub l).map fun r => (r.1.map f, r.2.map f) := by
  induction l with
  | nil =>
    rw [List.map_nil, Text.breakOn]
    split_ifs <;> rfl
  | cons c l ih =>
    have hpre := isPrefixOf_map hf (c :: l)
    rw [List.map_cons] at hpre
    rw [List.map_cons, Text.breakOn, Text.breakOn, hpre, ih]
    split_ifs
    · simp [List.map_drop]
    · rw [Option.map_map, Option.map_map]
      rfl

theorem split_map (l : Text) : Text.split (l.map f) sub = (Text.split l sub).map (List.map f) := by
  have hpieces : ∀ skip, Text.pieces sub skip (l.map f) =
      (Text.pieces sub skip l).map (List.map f) := by
    induction l with
    | nil => intro skip; cases skip <;> rfl
    | cons c l ih =>
      intro skip
      cases skip with
      | succ skip => exact ih skip
      | zero =>
        have hpre := isPrefixOf_map hf (c :: l)
        rw [List.map_cons] at hpre
        rw [List.map_cons, Text.pieces_zero, Text.pieces_zero, hpre]
        split_ifs
        · rw [ih, List.map_cons, List.map_nil]
        · rw [ih]
          cases Text.pieces sub 0 l <;> rfl
  exact hpieces 0

end

/-- What holds of a character and itself, and of the 26 letters and theirs. -/
theorem lowerChar_induction {P : Char → Char → Prop} (hself : ∀ c, P c c)
    (hupper : ∀ n < 91, 65 ≤ n → P (Char.ofNat n) (lowerChar (Char.ofNat n))) (c : Char) :
    P c (lowerChar c) := by
  by_cases h : Text.isUpper c = true
  · have hr := upper_range h
    have hc := hupper c.toNat (by omega) hr.1
    rwa [Char.ofNat_toNat] at hc
  · have hc : lowerChar c = c := if_neg h
    rw [hc]
    exact hself c

theorem isDigit_lowerChar (c : Char) : Text.isDigit (lowerChar c) = Text.isDigit c :=
  lowerChar_induction (P := fun c d => Text.isDigit d = Text.isDigit c) (fun _ => rfl) (by decide) c

theorem lowerChar_of_isDigit (c : Char) : Text.isDigit c = true → lowerChar c = c :=
  lowerChar_induction (P := fun c d => Text.isDigit c = true → d = c) (fun _ _ => rfl)
    (by decide) c

theorem isHexDigit_lowerChar (c : Char) : isHexDigit (lowerChar c) = isHexDigit c :=
  lowerChar_induction (P := fun c d => isHexDigit d = isHexDigit c) (fun _ => rfl) (by decide) c

theorem hexDigit_lowerChar (c : Char) : isHexDigit c = true → hexDigit (lowerChar c) = hexDigit c :=
  lowerChar_induction (P := fun c d => isHexDigit c = true → hexDigit d = hexDigit c)
    (fun _ _ => rfl) (by decide) c

theorem isZone_lowerChar (c : Char) : isZone (lowerChar c) = isZone c :=
  lowerChar_induction (P := fun c d => isZone d = isZone c) (fun _ => rfl) (by decide) c

theorem octet_lower (s : Text) : octet (s.map lowerChar) = octet s := by
  by_cases h : s.all Text.isDigit = true
  · have hs : s.map lowerChar = s := by
      conv_rhs => rw [← List.map_id s]
      exact List.map_congr_left fun c hc => lowerChar_of_isDigit c (List.all_eq_true.mp h c hc)
    rw [hs]
  · have hall : (s.map lowerChar).all Text.isDigit = s.all Text.isDigit := by
      rw [List.all_map]
      exact congrArg (List.all s) (funext isDigit_lowerChar)
    rw [octet, octet, if_neg (fun hs => h (hall ▸ hs.1)), if_neg (fun hs => h hs.1)]

theorem parseV4_lower (s : Text) : parseV4 (s.map lowerChar) = parseV4 s := by
  have hdot : ∀ c ∈ ['.'], ∀ d, lowerChar d = c ↔ d = c :=
    fun c hc d => lowerChar_eq_iff (by rw [List.mem_singleton.mp hc]; decide)
  rw [parseV4_eq, split_map hdot, parseV4_eq]
  match Text.split s ['.'] with
  | [] => rfl
  | [_] => rfl
  | [_, _] => rfl
  | [_, _, _] => rfl
  | [a, b, c, d] => simp only [List.map_cons, List.map_nil, octet_lower]
  | _ :: _ :: _ :: _ :: _ :: _ => rfl

theorem hexGroup_lower (s : Text) : hexGroup (s.map lowerChar) = hexGroup s := by
  have hall : (s.map lowerChar).all isHexDigit = s.all isHexDigit := by
    rw [List.all_map]
    exact congrArg (List.all s) (funext isHexDigit_lowerChar)
  have hvalue : s.all isHexDigit = true → hexValue (s.map lowerChar) = hexValue s := by
    intro h
    rw [hexValue, List.foldl_map, hexValue]
    exact List.foldl_ext _ _ _ fun n c hc => by
      rw [hexDigit_lowerChar c (List.all_eq_true.mp h c hc)]
  rw [hexGroup, hexGroup, hall, List.length_map]
  by_cases h : s.all isHexDigit = true
  · rw [hvalue h]
  · rw [if_neg (fun hs => h hs.1), if_neg (fun hs => h hs.1)]

theorem groups_lower (ps : List Text) : groups (ps.map (List.map lowerChar)) = groups ps := by
  induction ps with
  | nil => rfl
  | cons p ps ih =>
    cases ps with
    | nil => simp only [List.map_cons, List.map_nil, groups_singleton, parseV4_lower, hexGroup_lower]
    | cons q ps =>
      rw [List.map_cons] at ih
      simp only [List.map_cons, groups_cons_cons, hexGroup_lower, ih]

theorem colonParts_lower (s : Text) :
    colonParts (s.map lowerChar) = (colonParts s).map (List.map lowerChar) := by
  have hcolon : ∀ c ∈ [':'], ∀ d, lowerChar d = c ↔ d = c :=
    fun c hc d => lowerChar_eq_iff (by rw [List.mem_singleton.mp hc]; decide)
  cases s with
  | nil => rfl
  | cons c s =>
    rw [colonParts, if_neg (by simp), split_map hcolon, colonParts, if_neg (List.cons_ne_nil c s)]

theorem parseGroups_lower (s : Text) : parseGroups (s.map lowerChar) = parseGroups s := by
  have hcolons : ∀ c ∈ [':', ':'], ∀ d, lowerChar d = c ↔ d = c := by
    intro c hc d
    have hc' : c = ':' := by simpa using hc
    exact lowerChar_eq_iff (by rw [hc']; decide)
  have hmap : ∀ ps : List Text, (ps.map (List.map lowerChar)).mapM hexGroup = ps.mapM hexGroup := by
    intro ps
    rw [List.mapM_map]
    exact congrArg (fun f => ps.mapM f) (funext hexGroup_lower)
  rw [parseGroups, breakOn_map hcolons, parseGroups]
  cases Text.breakOn [':', ':'] s with
  | none => simp only [Option.map_none, colonParts_lower, groups_lower]
  | some r => simp only [Option.map_some, colonParts_lower, groups_lower, hmap]

/-- Case does not matter to the number. -/
theorem parseV6_lower (s : Text) : parseV6 (Text.asciiLower s) = parseV6 s := by
  have hpercent : ∀ c ∈ ['%'], ∀ d, lowerChar d = c ↔ d = c :=
    fun c hc d => lowerChar_eq_iff (by rw [List.mem_singleton.mp hc]; decide)
  rw [asciiLower_eq, parseV6, breakOn_map hpercent, parseV6]
  cases Text.breakOn ['%'] s with
  | none => exact parseGroups_lower s
  | some r =>
    have hzone : (r.2.map lowerChar).all isZone = r.2.all isZone := by
      rw [List.all_map]
      exact congrArg (List.all r.2) (funext isZone_lowerChar)
    simp only [Option.map_some, parseGroups_lower, hzone, ne_eq, List.map_eq_nil_iff]

/-! ## Numbers -/

theorem toNat_ofGroups (gs : List (BitVec 16)) {F : ℕ}
    (hF : gs.foldl (fun n g => 65536 * n + g.toNat) 0 = F) (hlt : F < 2 ^ 96) (x y : BitVec 16) :
    (ofGroups (gs ++ [x, y])).toNat = F * 2 ^ 32 + (x.toNat * 65536 + y.toNat) := by
  have hx := x.isLt
  have hy := y.isLt
  rw [ofGroups, BitVec.toNat_ofNat, List.foldl_append, hF]
  simp only [List.foldl_cons, List.foldl_nil]
  omega

theorem high_ofGroups (gs : List (BitVec 16)) {F : ℕ}
    (hF : gs.foldl (fun n g => 65536 * n + g.toNat) 0 = F) (hlt : F < 2 ^ 96) (x y : BitVec 16) :
    ofGroups (gs ++ [x, y]) >>> 32 = BitVec.ofNat 128 F := by
  have hx := x.isLt
  have hy := y.isLt
  apply BitVec.eq_of_toNat_eq
  rw [BitVec.toNat_ushiftRight, toNat_ofGroups gs hF hlt, Nat.shiftRight_eq_div_pow,
    BitVec.toNat_ofNat]
  omega

theorem low_ofGroups (gs : List (BitVec 16)) {F : ℕ}
    (hF : gs.foldl (fun n g => 65536 * n + g.toNat) 0 = F) (hlt : F < 2 ^ 96) (x y : BitVec 16) :
    low (ofGroups (gs ++ [x, y])) = BitVec.ofNat 32 (x.toNat * 65536 + y.toNat) := by
  apply BitVec.eq_of_toNat_eq
  rw [low, BitVec.truncate, BitVec.toNat_setWidth, toNat_ofGroups gs hF hlt, BitVec.toNat_ofNat]
  omega

theorem halves (a : BitVec 32) :
    BitVec.ofNat 32 ((a.extractLsb' 16 16).toNat * 65536 + (a.extractLsb' 0 16).toNat) = a := by
  have ha := a.isLt
  apply BitVec.eq_of_toNat_eq
  simp only [BitVec.toNat_ofNat, BitVec.extractLsb'_toNat, Nat.shiftRight_eq_div_pow]
  omega

/-! ## Forms of a text -/

theorem breakOn_of_notMem {c : Char} {s : Text} (h : c ∉ s) : Text.breakOn [c] s = none := by
  induction s with
  | nil => rfl
  | cons d s ih =>
    rw [List.mem_cons, not_or] at h
    rw [Text.breakOn, if_neg (by simp [List.isPrefixOf, h.1]), ih h.2]
    rfl

theorem parseV6_of_notMem {s : Text} (h : '%' ∉ s) : parseV6 s = parseGroups s := by
  rw [parseV6, breakOn_of_notMem h]

theorem colonParts_append {p : Text} (h : ':' ∉ p) (t : Text) :
    colonParts (p ++ ':' :: t) = p :: Text.split t [':'] := by
  rw [colonParts, if_neg (by simp), Text.split_append h]

theorem groups_cons {p : Text} {g : BitVec 16} (hp : hexGroup p = some g) {ps : List Text}
    (hne : ps ≠ []) : groups (p :: ps) = (groups ps).map fun gs => g :: gs := by
  obtain ⟨q, ps, rfl⟩ := List.exists_cons_of_ne_nil hne
  rw [groups_cons_cons, hp]
  cases groups (q :: ps) <;> rfl

/-- The groups on both sides of `::`. -/
theorem parseGroups_break {s l r : Text} {ls : List (BitVec 16)}
    (hbreak : Text.breakOn [':', ':'] s = some (l, r))
    (hls : (colonParts l).mapM hexGroup = some ls) :
    parseGroups s = (groups (colonParts r)).bind fun rs =>
      if ls.length + rs.length ≤ 7 then
        some (ofGroups (ls ++ List.replicate (8 - (ls.length + rs.length)) 0 ++ rs))
      else none := by
  rw [parseGroups, hbreak]
  simp only [hls]
  rfl

/-- `::ffff:` and two more groups. -/
theorem parseGroups_mapped (tail : Text) :
    parseGroups ("::ffff:".toList ++ tail) =
      ((groups (Text.split tail [':'])).map fun gs => 0xffff#16 :: gs).bind fun rs =>
        if rs.length ≤ 7 then some (ofGroups (List.replicate (8 - rs.length) 0 ++ rs))
        else none := by
  have hbreak : Text.breakOn [':', ':'] ("::ffff:".toList ++ tail) =
      some ([], "ffff".toList ++ ':' :: tail) := rfl
  have hnil : (colonParts []).mapM hexGroup = some [] := rfl
  rw [parseGroups_break hbreak hnil, colonParts_append (by decide),
    groups_cons (g := 0xffff) (by decide) (Text.split_ne_nil _ _)]
  simp only [List.length_nil, Nat.zero_add, List.nil_append]
  rfl

theorem parseGroups_translated (tail : Text) :
    parseGroups ("::ffff:0:".toList ++ tail) =
      ((groups (Text.split tail [':'])).map fun gs => 0xffff#16 :: 0 :: gs).bind fun rs =>
        if rs.length ≤ 7 then some (ofGroups (List.replicate (8 - rs.length) 0 ++ rs))
        else none := by
  have hbreak : Text.breakOn [':', ':'] ("::ffff:0:".toList ++ tail) =
      some ([], "ffff".toList ++ ':' :: ("0".toList ++ ':' :: tail)) := rfl
  have hnil : (colonParts []).mapM hexGroup = some [] := rfl
  rw [parseGroups_break hbreak hnil, colonParts_append (by decide),
    Text.split_append (by decide), groups_cons (g := 0xffff) (by decide) (List.cons_ne_nil _ _),
    groups_cons (g := 0) (by decide) (Text.split_ne_nil _ _), Option.map_map]
  simp only [List.length_nil, Nat.zero_add, List.nil_append]
  rfl

theorem parseGroups_nat64 {tail : Text} (hne : tail ≠ []) :
    parseGroups ("64:ff9b::".toList ++ tail) = (groups (Text.split tail [':'])).bind fun rs =>
      if 2 + rs.length ≤ 7 then
        some (ofGroups ([0x64, 0xff9b] ++ List.replicate (8 - (2 + rs.length)) 0 ++ rs))
      else none := by
  have hbreak : Text.breakOn [':', ':'] ("64:ff9b::".toList ++ tail) =
      some ("64:ff9b".toList, tail) := rfl
  have hls : (colonParts "64:ff9b".toList).mapM hexGroup = some [0x64, 0xff9b] := by
    decide
  rw [parseGroups_break hbreak hls, colonParts, if_neg hne]
  rfl

theorem char_of_dotted {d : Text} (h : isDotted d = true) {e : Char} (he : e ∈ d) :
    e = '.' ∨ Text.isDigit e = true := by
  rw [isDotted, Bool.and_eq_true, List.all_eq_true] at h
  rcases Text.mem_split '.' he with rfl | ⟨p, hp, hep⟩
  · exact .inl rfl
  · have hdigits := h.2 p hp
    simp only [Bool.and_eq_true] at hdigits
    exact .inr (List.all_eq_true.mp hdigits.2 e hep)

theorem dot_mem_of_dotted {d : Text} (h : isDotted d = true) : '.' ∈ d := by
  by_contra hdot
  rw [isDotted, Text.split_of_notMem hdot] at h
  simp at h

theorem notMem_of_dotted {d : Text} (h : isDotted d = true) : '%' ∉ d ∧ ':' ∉ d ∧ d ≠ [] := by
  refine ⟨fun he => ?_, fun he => ?_, List.ne_nil_of_mem (dot_mem_of_dotted h)⟩
  · rcases char_of_dotted h he with h | h
    · exact absurd h (by decide)
    · exact absurd h (by decide)
  · rcases char_of_dotted h he with h | h
    · exact absurd h (by decide)
    · exact absurd h (by decide)

theorem hexGroup_spec {a : Text} {x : BitVec 16} (h : hexGroup a = some x) :
    a.all isHexDigit = true ∧ a ≠ [] := by
  rw [hexGroup] at h
  split_ifs at h with hs
  exact ⟨hs.1, fun hnil => by simp [hnil] at hs⟩

theorem notMem_of_hexGroup {a : Text} {x : BitVec 16} (h : hexGroup a = some x) {e : Char}
    (he : isHexDigit e = false) : e ∉ a := by
  intro hmem
  rw [List.all_eq_true.mp (hexGroup_spec h).1 e hmem] at he
  cases he

theorem parseV4_of_notMem {s : Text} (h : '.' ∉ s) : parseV4 s = none := by
  rw [parseV4_eq, Text.split_of_notMem h]

/-- A text of an IPv4 address as the last two groups. -/
theorem groups_dotted {d : Text} (h : isDotted d = true) :
    groups (Text.split d [':']) =
      (parseV4 d).map fun a => [a.extractLsb' 16 16, a.extractLsb' 0 16] := by
  rw [Text.split_of_notMem (notMem_of_dotted h).2.1, groups_singleton]
  cases parseV4 d with
  | some a => rfl
  | none =>
    cases hx : hexGroup d with
    | none => rfl
    | some x => exact absurd (dot_mem_of_dotted h) (notMem_of_hexGroup hx (by decide))

theorem groups_hex {a b : Text} {x y : BitVec 16} (ha : hexGroup a = some x)
    (hb : hexGroup b = some y) : groups (Text.split (a ++ ':' :: b) [':']) = some [x, y] := by
  rw [Text.split_append (notMem_of_hexGroup ha (by decide)),
    Text.split_of_notMem (notMem_of_hexGroup hb (by decide)),
    groups_cons ha (List.cons_ne_nil _ _), groups_singleton,
    parseV4_of_notMem (notMem_of_hexGroup hb (by decide)), hb]
  rfl

theorem notMem_of_groups {ps : List Text} {gs : List (BitVec 16)} (h : groups ps = some gs) :
    [] ∉ ps := by
  induction ps generalizing gs with
  | nil => exact List.not_mem_nil
  | cons p ps ih =>
    rcases ps with - | ⟨q, qs⟩
    · rw [List.mem_singleton]
      rintro rfl
      cases h
    · rw [groups_cons_cons] at h
      obtain ⟨x, hx, h⟩ := Option.bind_eq_some_iff.mp h
      obtain ⟨xs, hxs, -⟩ := Option.bind_eq_some_iff.mp h
      rw [List.mem_cons, not_or]
      refine ⟨?_, ih hxs⟩
      rintro rfl
      cases hx

/-- Two colons in a row leave an empty part after the first one. -/
theorem nil_mem_split {s : Text} (h : Text.breakOn [':', ':'] s ≠ none) :
    [] ∈ (Text.split s [':']).tail := by
  induction s with
  | nil => exact absurd rfl h
  | cons c s ih =>
    rw [Text.breakOn] at h
    split_ifs at h with hpre
    · obtain ⟨r, hr⟩ := List.isPrefixOf_iff_prefix.mp hpre
      rw [← hr]
      simp only [List.cons_append, List.nil_append, Text.split_cons_self, List.tail_cons]
      exact List.mem_cons_self
    · have hrest := ih fun hnone => h (by rw [hnone, Option.map_none])
      by_cases hc : ':' = c
      · subst hc
        rw [Text.split_cons_self]
        exact List.mem_of_mem_tail hrest
      · obtain ⟨q, qs, hq, hcons⟩ := Text.split_cons_of_ne hc s
        rw [hq] at hrest
        rwa [hcons]

/-- The dotted text of two groups is the address they make. -/
theorem parseV4_bytes (x y : BitVec 16) :
    parseV4 (Text.join ['.'] ([x.toNat / 256, x.toNat % 256, y.toNat / 256, y.toNat % 256].map
      byteText)) = some (BitVec.ofNat 32 (x.toNat * 65536 + y.toNat)) := by
  have hx := x.isLt
  have hy := y.isLt
  have hdot : ∀ k < 256, '.' ∉ byteText k := by decide +kernel
  have hoctet : ∀ k < 256, octet (byteText k) = some k := by decide +kernel
  rw [parseV4_eq, Text.split_join (by simp)]
  · simp only [List.map_cons, List.map_nil, hoctet (x.toNat / 256) (by omega),
      hoctet (x.toNat % 256) (by omega), hoctet (y.toNat / 256) (by omega),
      hoctet (y.toNat % 256) (by omega)]
    have hsum : ((x.toNat / 256 * 256 + x.toNat % 256) * 256 + y.toNat / 256) * 256 +
        y.toNat % 256 = x.toNat * 65536 + y.toNat := by omega
    change some (BitVec.ofNat 32 (((x.toNat / 256 * 256 + x.toNat % 256) * 256 +
      y.toNat / 256) * 256 + y.toNat % 256)) = _
    rw [hsum]
  · intro p hp
    simp only [List.map_cons, List.map_nil, List.mem_cons, List.not_mem_nil, or_false] at hp
    rcases hp with rfl | rfl | rfl | rfl
    all_goals exact hdot _ (by omega)

theorem eq_of_stripAny {ps : List String} {s t : Text} (h : stripAny ps s = some t) :
    ∃ p ∈ ps, s = p.toList ++ t := by
  rw [stripAny, Option.map_eq_some_iff] at h
  obtain ⟨p, hp, rfl⟩ := h
  have hpre := List.find?_some hp
  obtain ⟨r, hr⟩ := List.isPrefixOf_iff_prefix.mp hpre
  refine ⟨p, List.mem_of_find?_eq_some hp, ?_⟩
  rw [← hr, ← String.length_toList, List.drop_left]

/-- What the guard takes out of a text. -/
theorem embeddedV4_cases {s d : Text} (h : embeddedV4 s = some d) :
    (isDotted d = true ∧ ∃ p ∈ ["::ffff:", "::ffff:0:", "64:ff9b::"],
      Text.asciiLower s = p.toList ++ d) ∨
    ∃ p ∈ ["::ffff:", "64:ff9b::"], ∃ a b x y, Text.asciiLower s = p.toList ++ (a ++ ':' :: b) ∧
      hexGroup a = some x ∧ hexGroup b = some y ∧
      parseV4 d = some (BitVec.ofNat 32 (x.toNat * 65536 + y.toNat)) := by
  rw [embeddedV4] at h
  cases hdotted : dottedTail (Text.asciiLower s) with
  | some d' =>
    rw [hdotted] at h
    cases h
    rw [dottedTail] at hdotted
    obtain ⟨p, hp, hstrip⟩ := List.mem_filterMap.mp (List.mem_of_find?_eq_some hdotted)
    obtain ⟨p', hp', heq⟩ := eq_of_stripAny hstrip
    rw [List.mem_singleton.mp hp'] at heq
    exact .inl ⟨List.find?_some hdotted, p, hp, heq⟩
  | none =>
    rw [hdotted] at h
    right
    cases hstrip : stripAny ["::ffff:", "64:ff9b::"] (Text.asciiLower s) with
    | none =>
      rw [hstrip] at h
      cases h
    | some t =>
      obtain ⟨p, hp, heq⟩ := eq_of_stripAny hstrip
      rw [hstrip] at h
      simp only [Option.map_some] at h
      split at h
      next a b hsplit =>
        have ht : t = a ++ ':' :: b := by
          rw [← Text.join_split ':' t, Option.some.inj hsplit]
          simp [Text.join]
        obtain ⟨x, hx, h⟩ := Option.bind_eq_some_iff.mp h
        obtain ⟨y, hy, h⟩ := Option.bind_eq_some_iff.mp h
        refine ⟨p, hp, a, b, x, y, by rw [heq, ht], hx, hy, ?_⟩
        rw [← Option.some.inj h]
        exact parseV4_bytes x y
      · cases h

/-! ## Addresses by their number -/

/-- The number of a text with one of the three beginnings. -/
theorem number_of_form {p : String} (hp : p ∈ ["::ffff:", "::ffff:0:", "64:ff9b::"]) {tail : Text}
    {x y : BitVec 16} (hpercent : '%' ∉ tail) (hne : tail ≠ [])
    (hg : groups (Text.split tail [':']) = some [x, y]) {n : BitVec 128}
    (hn : parseV6 (p.toList ++ tail) = some n) :
    low n = BitVec.ofNat 32 (x.toNat * 65536 + y.toNat) ∧
      (p = "::ffff:" ∧ IsMapped n ∨ p = "::ffff:0:" ∧ IsTranslated n ∨
        p = "64:ff9b::" ∧ IsNat64 n) := by
  simp only [List.mem_cons, List.not_mem_nil, or_false] at hp
  rcases hp with rfl | rfl | rfl
  · rw [parseV6_of_notMem (by simp [hpercent]), parseGroups_mapped, hg] at hn
    cases hn
    exact ⟨low_ofGroups [0, 0, 0, 0, 0, 0xffff] rfl (by decide) x y,
      .inl ⟨rfl, high_ofGroups [0, 0, 0, 0, 0, 0xffff] rfl (by decide) x y⟩⟩
  · rw [parseV6_of_notMem (by simp [hpercent]), parseGroups_translated, hg] at hn
    cases hn
    exact ⟨low_ofGroups [0, 0, 0, 0, 0xffff, 0] rfl (by decide) x y,
      .inr (.inl ⟨rfl, high_ofGroups [0, 0, 0, 0, 0xffff, 0] rfl (by decide) x y⟩)⟩
  · rw [parseV6_of_notMem (by simp [hpercent]), parseGroups_nat64 hne, hg] at hn
    cases hn
    exact ⟨low_ofGroups [0x64, 0xff9b, 0, 0, 0, 0] rfl (by decide) x y,
      .inr (.inr ⟨rfl, high_ofGroups [0x64, 0xff9b, 0, 0, 0, 0] rfl (by decide) x y⟩)⟩

/-- A dotted text at the end of an address is an IPv4 address. -/
theorem parseV4_of_dotted {p : String} (hp : p ∈ ["::ffff:", "::ffff:0:", "64:ff9b::"]) {d : Text}
    (hd : isDotted d = true) {n : BitVec 128} (hn : parseV6 (p.toList ++ d) = some n) :
    ∃ a, parseV4 d = some a := by
  rw [← Option.isSome_iff_exists]
  by_contra hnone
  rw [Option.not_isSome_iff_eq_none] at hnone
  have hg := groups_dotted hd
  rw [hnone, Option.map_none] at hg
  have hpercent := (notMem_of_dotted hd).1
  simp only [List.mem_cons, List.not_mem_nil, or_false] at hp
  rcases hp with rfl | rfl | rfl
  · rw [parseV6_of_notMem (by simp [hpercent]), parseGroups_mapped, hg] at hn
    cases hn
  · rw [parseV6_of_notMem (by simp [hpercent]), parseGroups_translated, hg] at hn
    cases hn
  · rw [parseV6_of_notMem (by simp [hpercent]), parseGroups_nat64 (notMem_of_dotted hd).2.2,
      hg] at hn
    cases hn

/-- The address that the guard takes out of a text is the one in the last 32 bits, and outside of
the mapped addresses the spelling is a recognised one. -/
theorem embeddedV4_spec {s d : Text} {n : BitVec 128} (hs : parseV6 s = some n)
    (h : embeddedV4 s = some d) :
    parseV4 d = some (low n) ∧ (IsMapped n ∨ (IsNat64 n ∨ IsTranslated n) ∧ Recognised s) := by
  rw [← parseV6_lower] at hs
  rcases embeddedV4_cases h with ⟨hd, p, hp, heq⟩ | ⟨p, hp, a, b, x, y, heq, hx, hy, hv4⟩
  · rw [heq] at hs
    obtain ⟨a, ha⟩ := parseV4_of_dotted hp hd hs
    have hg := groups_dotted hd
    rw [ha, Option.map_some] at hg
    obtain ⟨hlow, hrange⟩ := number_of_form hp (notMem_of_dotted hd).1 (notMem_of_dotted hd).2.2
      hg hs
    rw [halves] at hlow
    refine ⟨by rw [ha, hlow], ?_⟩
    rcases hrange with ⟨-, hn⟩ | ⟨rfl, hn⟩ | ⟨rfl, hn⟩
    · exact .inl hn
    · exact .inr ⟨.inr hn, d, .inr ⟨heq, by simp [ha]⟩⟩
    · exact .inr ⟨.inl hn, d, .inl ⟨heq, .inl (by simp [ha])⟩⟩
  · rw [heq] at hs
    have hpercent : '%' ∉ a ++ ':' :: b := by
      simp [notMem_of_hexGroup hx (e := '%') (by decide),
        notMem_of_hexGroup hy (e := '%') (by decide)]
    have hp' : p ∈ ["::ffff:", "::ffff:0:", "64:ff9b::"] := by
      simp only [List.mem_cons, List.not_mem_nil, or_false] at hp ⊢
      tauto
    obtain ⟨hlow, hrange⟩ := number_of_form hp' hpercent (by simp) (groups_hex hx hy) hs
    refine ⟨by rw [hv4, hlow], ?_⟩
    rcases hrange with ⟨-, hn⟩ | ⟨rfl, -⟩ | ⟨rfl, hn⟩
    · exact .inl hn
    · exact absurd hp (by decide)
    · exact .inr ⟨.inl hn, _, .inl ⟨heq, .inr ⟨a, b, rfl, by simp [hx], by simp [hy]⟩⟩⟩

theorem octet_spec {s : Text} {k : ℕ} (h : octet s = some k) :
    s.all Text.isDigit = true ∧ s ≠ [] := by
  rw [octet] at h
  split_ifs at h with hs
  exact ⟨hs.1, hs.2.1⟩

theorem isDotted_of_parseV4 {d : Text} {a : BitVec 32} (h : parseV4 d = some a) :
    isDotted d = true := by
  rw [parseV4_eq] at h
  split at h
  next p q r t hsplit =>
    obtain ⟨_, hp, h⟩ := Option.bind_eq_some_iff.mp h
    obtain ⟨_, hq, h⟩ := Option.bind_eq_some_iff.mp h
    obtain ⟨_, hr, h⟩ := Option.bind_eq_some_iff.mp h
    obtain ⟨_, ht, -⟩ := Option.bind_eq_some_iff.mp h
    rw [isDotted, hsplit]
    simp [octet_spec hp, octet_spec hq, octet_spec hr, octet_spec ht]
  · cases h

theorem stripAny_self (p : String) (t : Text) : stripAny [p] (p.toList ++ t) = some t := by
  have hpre : Text.startsWith (p.toList ++ t) p.toList = true :=
    List.isPrefixOf_iff_prefix.mpr (List.prefix_append _ _)
  simp only [stripAny, List.find?_cons_of_pos, hpre, Option.map_some, ← String.length_toList,
    List.drop_left]

theorem embeddedV4_of_dottedTail {s : Text} (h : (dottedTail (Text.asciiLower s)).isSome) :
    (embeddedV4 s).isSome := by
  obtain ⟨d, hd⟩ := Option.isSome_iff_exists.mp h
  rw [embeddedV4, hd]
  rfl

theorem dottedTail_of_parseV4 {p : String} (hp : p ∈ ["::ffff:", "::ffff:0:", "64:ff9b::"])
    {tail : Text} (h : (parseV4 tail).isSome) : (dottedTail (p.toList ++ tail)).isSome := by
  obtain ⟨a, ha⟩ := Option.isSome_iff_exists.mp h
  rw [dottedTail, List.find?_isSome]
  exact ⟨tail, List.mem_filterMap.mpr ⟨p, hp, stripAny_self p tail⟩, isDotted_of_parseV4 ha⟩

/-- The guard sees the embedded address of a recognised spelling. -/
theorem embeddedV4_of_recognised {s : Text} (h : Recognised s) : (embeddedV4 s).isSome := by
  obtain ⟨tail, ⟨heq, hv4 | ⟨a, b, rfl, ha, hb⟩⟩ | ⟨heq, hv4⟩⟩ := h
  · refine embeddedV4_of_dottedTail ?_
    rw [heq]
    exact dottedTail_of_parseV4 (by decide) hv4
  · obtain ⟨x, hx⟩ := Option.isSome_iff_exists.mp ha
    obtain ⟨y, hy⟩ := Option.isSome_iff_exists.mp hb
    have hstrip : stripAny ["::ffff:", "64:ff9b::"]
        ("64:ff9b::".toList ++ (a ++ ':' :: b)) = some (a ++ ':' :: b) := rfl
    rw [embeddedV4, heq]
    cases dottedTail ("64:ff9b::".toList ++ (a ++ ':' :: b)) with
    | some d => rfl
    | none =>
      have hsplit : Text.split (a ++ ':' :: b) [':'] = [a, b] := by
        rw [Text.split_append (notMem_of_hexGroup hx (by decide)),
          Text.split_of_notMem (notMem_of_hexGroup hy (by decide))]
      simp only [hstrip, Option.map_some, hsplit, hx, hy]
      rfl
  · refine embeddedV4_of_dottedTail ?_
    rw [heq]
    exact dottedTail_of_parseV4 (by decide) hv4

/-- A recognised spelling outside of the mapped addresses is of one of two ranges. -/
theorem range_of_recognised {s : Text} {n : BitVec 128} (hs : parseV6 s = some n)
    (h : Recognised s) (hmapped : ¬ IsMapped n) : IsNat64 n ∨ IsTranslated n := by
  obtain ⟨d, hd⟩ := Option.isSome_iff_exists.mp (embeddedV4_of_recognised h)
  exact ((embeddedV4_spec hs hd).2.resolve_left hmapped).1

/-! ## What is blocked -/

/-- Outside of the mapped addresses a rule for IPv6 looks at the upper 96 bits, and one for a single
address at least at these. -/
def reaches (high : BitVec 128) (r : Subnet) : Bool :=
  match r.net with
  | .v4 _ => false
  | .v6 m =>
      if r.bits ≤ 96 then high >>> (96 - r.bits) == m >>> (128 - r.bits) else high == m >>> 32

theorem contains_v4 (m : BitVec 32) (bits : ℕ) (n : BitVec 128) :
    (⟨.v4 m, bits⟩ : Subnet).contains (.v6 n) =
      match unmapped n with
      | some a => agree bits a m
      | none => false := rfl

theorem contains_v6 (m : BitVec 128) (bits : ℕ) (n : BitVec 128) :
    (⟨.v6 m, bits⟩ : Subnet).contains (.v6 n) = agree bits n m := rfl

theorem unmapped_of_not {n : BitVec 128} (h : ¬ IsMapped n) : unmapped n = none := if_neg h

theorem contains_reaches {r : Subnet} {n : BitVec 128} (hn : ¬ IsMapped n)
    (h : r.contains (.v6 n) = true) : reaches (n >>> 32) r = true := by
  obtain ⟨net, bits⟩ := r
  cases net with
  | v4 m =>
    rw [contains_v4, unmapped_of_not hn] at h
    cases h
  | v6 m =>
    rw [contains_v6, agree, beq_iff_eq] at h
    rw [reaches]
    dsimp only
    split_ifs with hbits
    · rw [beq_iff_eq, ← BitVec.shiftRight_add, ← h]
      congr 1
      omega
    · rw [beq_iff_eq]
      have hsum : 32 = (128 - bits) + (32 - (128 - bits)) := by omega
      rw [hsum, BitVec.shiftRight_add, BitVec.shiftRight_add, h]

theorem not_mapped_of_range {n : BitVec 128} (h : IsNat64 n ∨ IsTranslated n) : ¬ IsMapped n := by
  intro hmapped
  rcases h with h | h
  · exact absurd (h.symm.trans hmapped) (by decide)
  · exact absurd (h.symm.trans hmapped) (by decide)

theorem not_blocked_of_range {n : BitVec 128} (h : IsNat64 n ∨ IsTranslated n) :
    blocked.any (fun r => r.contains (.v6 n)) = false := by
  have hn := not_mapped_of_range h
  have hnat64 : blocked.any (reaches 0x64ff9b0000000000000000#128) = false := by decide
  have htranslated : blocked.any (reaches 0xffff0000#128) = false := by decide
  have hreach : blocked.any (reaches (n >>> 32)) = false := by
    rcases h with h | h
    · rw [show n >>> 32 = _ from h]
      exact hnat64
    · rw [show n >>> 32 = _ from h]
      exact htranslated
  rw [List.any_eq_false] at hreach ⊢
  exact fun r hr hcontains => hreach r hr (contains_reaches hn hcontains)

theorem mapped_low {n : BitVec 128} (h : IsMapped n) : mapped (low n) = n := by
  have hhigh := congrArg BitVec.toNat (show n >>> 32 = 0xffff#128 from h)
  rw [BitVec.toNat_ushiftRight, Nat.shiftRight_eq_div_pow] at hhigh
  have hn := n.isLt
  apply BitVec.eq_of_toNat_eq
  rw [mapped, BitVec.toNat_ofNat, low, BitVec.truncate, BitVec.toNat_setWidth]
  simp only [BitVec.toNat_ofNat] at hhigh
  omega

theorem blocked_of_mapped {n : BitVec 128} (h : IsMapped n) :
    blocked.any (fun r => r.contains (.v6 n)) = blockedV4 (low n) := by
  refine congrArg (List.any blocked) (funext fun r => ?_)
  obtain ⟨net, bits⟩ := r
  cases net with
  | v4 m =>
    have hunmapped : unmapped n = some (low n) := if_pos h
    rw [contains_v4, hunmapped]
    rfl
  | v6 m =>
    rw [contains_v6]
    conv_lhs => rw [← mapped_low h]
    rfl

theorem parse_v6 {s : Text} {n : BitVec 128} (h : parse s = some (.v6 n)) :
    parseV6 s = some n := by
  rw [parse] at h
  split at h
  · cases h
  · obtain ⟨m, hm, heq⟩ := Option.map_eq_some_iff.mp h
    cases heq
    exact hm

theorem parse_v4 {ip : Text} {a : BitVec 32} (h : parse ip = some (.v4 a)) :
    parseV4 ip = some a := by
  rw [parse] at h
  split at h
  · cases h
    assumption
  · obtain ⟨m, -, hm⟩ := Option.map_eq_some_iff.mp h
    cases hm

/-- An IPv4 address after `::ffff:` is the one in the last 32 bits. -/
theorem low_of_tail {ip tail : Text} {n : BitVec 128} {a : BitVec 32}
    (h : parse ip = some (.v6 n)) (htail : Text.asciiLower ip = "::ffff:".toList ++ tail)
    (ha : parseV4 tail = some a) : IsMapped n ∧ low n = a := by
  have hs := parse_v6 h
  rw [← parseV6_lower, htail] at hs
  have hd := isDotted_of_parseV4 ha
  have hg := groups_dotted hd
  rw [ha, Option.map_some] at hg
  obtain ⟨hlow, hrange⟩ := number_of_form (p := "::ffff:") (by decide) (notMem_of_dotted hd).1
    (notMem_of_dotted hd).2.2 hg hs
  rw [halves] at hlow
  rcases hrange with ⟨-, hn⟩ | ⟨hp, -⟩ | ⟨hp, -⟩
  · exact ⟨hn, hlow⟩
  · exact absurd hp (by decide)
  · exact absurd hp (by decide)

/-- An address whose IPv4 address is seen is blocked as that one. -/
theorem isBlockedAddress_seen {s : Text} {n : BitVec 128} (hs : parse s = some (.v6 n))
    (h : IsMapped n ∨ Recognised s) : isBlockedAddress s = blockedV4 (low n) := by
  have hv6 := parse_v6 hs
  have hkind : isIP s = 6 := by rw [isIP, hs]
  rw [isBlockedAddress, hkind]
  cases hd : embeddedV4 s with
  | some d =>
    simp only [BlockList.check, (embeddedV4_spec hv6 hd).1, Option.map_some]
    rfl
  | none =>
    have hmapped : IsMapped n := h.resolve_right fun hrec => by
      have hsome := embeddedV4_of_recognised hrec
      rw [hd] at hsome
      cases hsome
    simp only [BlockList.check, hv6, Option.map_some]
    exact blocked_of_mapped hmapped

/-- Every other address is blocked by its number. -/
theorem isBlockedAddress_unseen {s : Text} {n : BitVec 128} (hs : parse s = some (.v6 n))
    (hmapped : ¬ IsMapped n) (hrec : ¬ Recognised s) :
    isBlockedAddress s = blocked.any fun r => r.contains (.v6 n) := by
  have hv6 := parse_v6 hs
  have hkind : isIP s = 6 := by rw [isIP, hs]
  rw [isBlockedAddress, hkind]
  cases hd : embeddedV4 s with
  | some d => exact absurd (embeddedV4_spec hv6 hd).2 (not_or.mpr ⟨hmapped, fun h => hrec h.2⟩)
  | none =>
    simp only [BlockList.check, hv6, Option.map_some]

/-- In the two ranges an address is blocked in its recognised spellings only. -/
theorem isBlockedAddress_range {s : Text} {n : BitVec 128} (hs : parse s = some (.v6 n))
    (h : IsNat64 n ∨ IsTranslated n) :
    isBlockedAddress s = true ↔ Recognised s ∧ blockedV4 (low n) = true := by
  by_cases hrec : Recognised s
  · simp [isBlockedAddress_seen hs (.inr hrec), hrec]
  · simp [isBlockedAddress_unseen hs (not_mapped_of_range h) hrec, not_blocked_of_range h, hrec]

/-- Two spellings of one address get one answer, and an embedded address is looked at: exactly if,
for a NAT64 or translated address whose IPv4 address is blocked, both spellings or none are
recognised, and for a NAT64 one its spelling is. -/
theorem spelling_iff (s t : Text) (n : BitVec 128) (hs : parse s = some (.v6 n))
    (ht : parse t = some (.v6 n)) :
    (isBlockedAddress s = isBlockedAddress t ↔
      (IsNat64 n ∨ IsTranslated n → blockedV4 (low n) = true → (Recognised s ↔ Recognised t))) ∧
    ((IsMapped n ∨ IsNat64 n → blockedV4 (low n) = true → isBlockedAddress s = true) ↔
      (IsNat64 n → blockedV4 (low n) = true → Recognised s)) := by
  by_cases hrange : IsNat64 n ∨ IsTranslated n
  · rw [Bool.eq_iff_iff, isBlockedAddress_range hs hrange, isBlockedAddress_range ht hrange]
    have hmapped := not_mapped_of_range hrange
    constructor
    · tauto
    · tauto
  · have hnat64 : ¬ IsNat64 n := fun h => hrange (.inl h)
    by_cases hmapped : IsMapped n
    · have hseen := isBlockedAddress_seen hs (.inl hmapped)
      rw [hseen, isBlockedAddress_seen ht (.inl hmapped)]
      exact ⟨⟨fun _ h => absurd h hrange, fun _ => rfl⟩,
        ⟨fun _ h => absurd h hnat64, fun _ _ h => h⟩⟩
    · have hunseen : ∀ u, parse u = some (.v6 n) → ¬ Recognised u :=
        fun u hu hrec => hrange (range_of_recognised (parse_v6 hu) hrec hmapped)
      rw [isBlockedAddress_unseen hs hmapped (hunseen s hs),
        isBlockedAddress_unseen ht hmapped (hunseen t ht)]
      exact ⟨⟨fun _ h => absurd h hrange, fun _ => rfl⟩,
        ⟨fun _ h => absurd h hnat64, fun _ h => absurd h (not_or.mpr ⟨hmapped, hnat64⟩)⟩⟩

/-- A mapped address in two spellings. -/
theorem spelling_iff_mapped :
    parse "::ffff:10.1.2.3".toList = some (.v6 (mapped 0x0a010203#32)) ∧
    parse "0:0:0:0:0:FFFF:0A01:203".toList = some (.v6 (mapped 0x0a010203#32)) ∧
    isBlockedAddress "::ffff:10.1.2.3".toList =
      isBlockedAddress "0:0:0:0:0:FFFF:0A01:203".toList := by
  have hs : parse "::ffff:10.1.2.3".toList = some (.v6 (mapped 0x0a010203#32)) := by
    decide
  have ht : parse "0:0:0:0:0:FFFF:0A01:203".toList = some (.v6 (mapped 0x0a010203#32)) := by
    decide
  have hmapped : IsMapped (mapped 0x0a010203#32) :=
    show mapped 0x0a010203#32 >>> 32 = 0xffff#128 by decide
  exact ⟨hs, ht, (spelling_iff _ _ _ hs ht).1.mpr fun h => absurd hmapped (not_mapped_of_range h)⟩

/-- One NAT64 address in two spellings. -/
theorem nat64_spelled_out :
    parse "64:ff9b::10.0.0.1".toList = parse "64:ff9b:0:0:0:0:a00:1".toList ∧
    isBlockedAddress "64:ff9b::10.0.0.1".toList = true ∧
    isBlockedAddress "64:ff9b:0:0:0:0:a00:1".toList = false := by
  decide

end Prgd.NetGuard
