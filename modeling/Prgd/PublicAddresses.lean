import Prgd.AddressSpelling
import Prgd.WebhookTargets

/-!
# Which spellings of an internal address the webhook guard refuses

The webhook guard tests the numeric value of an IPv4 address, but of an IPv6 address the
beginning of its text. An address that must not be reached is therefore refused in the
spellings that begin like the tested ones, and in the others it counts as public.

The ranges to refuse are those of the guard itself, with the NAT64 form of its IPv4
addresses, and those of the Connect guard.
-/
namespace Prgd.PublicAddresses
open IpAddress NetGuard WebhookTargets

/-! ## Ranges -/

def inRanges (ranges : List (String × ℕ)) (a : BitVec 32) : Bool :=
  ranges.any fun r => agree r.2 a (BitVec.ofNat 32 (v4ToInt r.1.toList))

/-- The guard's own ranges. -/
def refusedV4 (a : BitVec 32) : Bool := inRanges BLOCKED_V4 a

/-- The ranges that only the Connect guard has. -/
def missedV4 (a : BitVec 32) : Bool := inRanges [("192.0.0.0", 24), ("198.18.0.0", 15)] a

/-- The IPv6 ranges of the Connect guard. -/
def INTERNAL_V6 : BlockList :=
  [⟨.v6 0#128, 128⟩, ⟨.v6 1#128, 128⟩, ⟨.v6 (0xfc00#128 <<< 112), 7⟩,
    ⟨.v6 (0xfe80#128 <<< 112), 10⟩, ⟨.v6 (0xfec0#128 <<< 112), 10⟩, ⟨.v6 (0xff00#128 <<< 112), 8⟩,
    ⟨.v6 (0x20010db8#128 <<< 96), 32⟩, ⟨.v6 (0x100#128 <<< 112), 64⟩]

def internalV6 (n : BitVec 128) : Bool := INTERNAL_V6.any fun r => r.contains (.v6 n)

/-- The addresses that the guard must refuse. -/
def Internal : Ip → Prop
  | .v4 a => refusedV4 a = true
  | .v6 n => n = 0 ∨ n = 1 ∨ agree 10 n (0xfe80#128 <<< 112) = true ∨
      agree 7 n (0xfc00#128 <<< 112) = true ∨ agree 8 n (0xff00#128 <<< 112) = true ∨
      (IsMapped n ∨ IsNat64 n) ∧ refusedV4 (low n) = true

/-! ## IPv4 -/

theorem v4ToInt_eq {s : Text} {a : BitVec 32} (h : parseV4 s = some a) : v4ToInt s = a.toNat := by
  rw [parseV4_eq] at h
  split at h
  next p q r t hsplit =>
    obtain ⟨w, hp, h⟩ := Option.bind_eq_some_iff.mp h
    obtain ⟨x, hq, h⟩ := Option.bind_eq_some_iff.mp h
    obtain ⟨y, hr, h⟩ := Option.bind_eq_some_iff.mp h
    obtain ⟨z, ht, h⟩ := Option.bind_eq_some_iff.mp h
    have hvalue : ∀ {u : Text} {k : ℕ}, octet u = some k → Text.digitsValue u = k := by
      intro u k hu
      rw [octet] at hu
      split_ifs at hu
      exact Option.some.inj hu
    rw [← Option.some.inj h, v4ToInt, hsplit, BitVec.toNat_ofNat]
    simp only [List.foldl_cons, List.foldl_nil, hvalue hp, hvalue hq, hvalue hr, hvalue ht]
    congr 1
    ring
  · cases h

theorem isBlockedV4_eq {s : Text} {a : BitVec 32} (h : parseV4 s = some a) :
    isBlockedV4 s = refusedV4 a := by
  unfold isBlockedV4 refusedV4 inRanges
  refine congrArg (List.any BLOCKED_V4) (funext fun r => ?_)
  have hlt : v4ToInt r.1.toList < 2 ^ 32 := Nat.mod_lt _ (by decide)
  rw [v4ToInt_eq h, agree, Bool.eq_iff_iff, decide_eq_true_eq, beq_iff_eq, ← BitVec.toNat_inj,
    BitVec.toNat_ushiftRight, BitVec.toNat_ushiftRight, BitVec.toNat_ofNat, Nat.mod_eq_of_lt hlt]

/-- The rules of the Connect guard. -/
theorem blocked_perm : blocked.Perm
    ((BLOCKED_V4 ++ [("192.0.0.0", 24), ("198.18.0.0", 15)]).map (fun r : String × ℕ =>
      ⟨.v4 (BitVec.ofNat 32 (v4ToInt r.1.toList)), r.2⟩) ++ INTERNAL_V6) := by
  decide

/-- No rule for IPv6 is met by an IPv4 address. -/
theorem internalV6_mapped (a : BitVec 32) : internalV6 (mapped a) = false := by
  have hn : mapped a = BitVec.ofNat 128 (0xffff * 2 ^ 32 + a.toNat) := rfl
  have ha := a.isLt
  unfold internalV6 INTERNAL_V6
  simp only [List.any_cons, List.any_nil, contains_v6, agree, Bool.or_eq_false_iff,
    beq_eq_false_iff_ne, ne_eq, ← BitVec.toNat_inj, BitVec.toNat_ushiftRight, hn,
    BitVec.toNat_ofNat, Nat.shiftRight_eq_div_pow, BitVec.toNat_shiftLeft, Nat.shiftLeft_eq]
  norm_num
  omega

theorem blockedV4_eq (a : BitVec 32) : blockedV4 a = (refusedV4 a || missedV4 a) := by
  have hv6 : (INTERNAL_V6.any fun r => r.contains (.v4 a)) = false := internalV6_mapped a
  unfold blockedV4
  rw [blocked_perm.any_eq, List.any_append, List.any_map, hv6, Bool.or_false, List.any_append]
  rfl

theorem agree_of_le {w bits less : ℕ} (hle : less ≤ bits) {a b : BitVec w}
    (h : agree bits a b = true) : agree less a b = true := by
  unfold agree at *
  rw [beq_iff_eq] at *
  have hsum : w - less = (w - bits) + ((w - less) - (w - bits)) := by omega
  rw [hsum, BitVec.shiftRight_add, BitVec.shiftRight_add, h]

/-- The two parts have nothing in common. -/
theorem not_missed {a : BitVec 32} (h : refusedV4 a = true) : missedV4 a = false := by
  have hapart : ∀ r ∈ BLOCKED_V4, ∀ q ∈ [("192.0.0.0", 24), ("198.18.0.0", 15)],
      agree (min r.2 q.2) (BitVec.ofNat 32 (v4ToInt r.1.toList))
        (BitVec.ofNat 32 (v4ToInt q.1.toList)) = false := by decide
  obtain ⟨r, hr, hin⟩ := List.any_eq_true.mp h
  rw [missedV4, inRanges, List.any_eq_false]
  intro q hq hin'
  have hleft := agree_of_le (min_le_left r.2 q.2) hin
  have hright := agree_of_le (min_le_right r.2 q.2) hin'
  have hboth := hapart r hr q hq
  unfold agree at hleft hright hboth
  rw [beq_iff_eq] at hleft hright
  rw [← hleft, hright, beq_self_eq_true] at hboth
  cases hboth

/-! ## IPv6 -/

/-- What follows `::ffff:` in an address is no IPv6 address. -/
theorem parseV6_tail {tail : Text} {n : BitVec 128}
    (h : parseV6 ("::ffff:".toList ++ tail) = some n) : parseV6 tail = none := by
  have hgroups : ∀ t m, parseGroups ("::ffff:".toList ++ t) = some m → parseGroups t = none := by
    intro t m hm
    rw [parseGroups_mapped] at hm
    obtain ⟨rs, hrs, hm⟩ := Option.bind_eq_some_iff.mp hm
    obtain ⟨gs, hgs, rfl⟩ := Option.map_eq_some_iff.mp hrs
    split_ifs at hm with hlen
    have hno : Text.breakOn [':', ':'] t = none := by
      by_contra hsome
      exact notMem_of_groups hgs (List.mem_of_mem_tail (nil_mem_split hsome))
    rw [parseGroups, hno]
    by_cases ht : t = []
    · subst ht
      rfl
    · simp only [colonParts, if_neg ht, hgs]
      rw [List.length_cons] at hlen
      exact if_neg (by omega)
  have hbreak : Text.breakOn ['%'] ("::ffff:".toList ++ tail) =
      (Text.breakOn ['%'] tail).map fun r => ("::ffff:".toList ++ r.1, r.2) := by
    cases hb : Text.breakOn ['%'] tail <;> simp [Text.breakOn, hb, List.isPrefixOf]
  rw [parseV6, hbreak] at h
  rw [parseV6]
  cases hb : Text.breakOn ['%'] tail with
  | none =>
    rw [hb] at h
    exact hgroups tail n h
  | some r =>
    rw [hb] at h
    dsimp only [Option.map_some] at h ⊢
    split_ifs at h with hzone
    rw [if_pos hzone]
    exact hgroups r.1 n h

/-! ## The spellings -/

/-- The beginnings of a text that the guard refuses, whatever the address. -/
def Refused (v : Text) : Prop :=
  v = "::1".toList ∨ v = "::".toList ∨ Text.startsWith v "fe80:".toList = true ∨
    Text.startsWith v "fc".toList = true ∨ Text.startsWith v "fd".toList = true

instance (v : Text) : Decidable (Refused v) := by
  unfold Refused
  infer_instance

theorem isPublicAddress_v4 {ip : Text} {a : BitVec 32} (h : parse ip = some (.v4 a)) :
    isPublicAddress ip = !refusedV4 a := by
  have hv4 := parse_v4 h
  have hkind : isIP ip = 4 := by rw [isIP, h]
  rw [isPublicAddress, publicWithin, hkind]
  simp only [isBlockedV4_eq hv4]

theorem publicWithin_v6 {ip : Text} (h : isIP ip = 6) (fuel : ℕ) : publicWithin (fuel + 1) ip =
    if Refused (Text.asciiLower ip) then false
    else if Text.startsWith (Text.asciiLower ip) "::ffff:".toList then
      publicWithin fuel ((Text.asciiLower ip).drop 7)
    else true := by
  rw [publicWithin, h]
  rfl

/-- What makes an IPv6 address not public. -/
theorem isPublicAddress_v6 {ip : Text} {n : BitVec 128} (h : parse ip = some (.v6 n)) :
    isPublicAddress ip = false ↔ Refused (Text.asciiLower ip) ∨
      ∃ tail, Text.asciiLower ip = "::ffff:".toList ++ tail ∧
        ∀ a, parseV4 tail = some a → refusedV4 a = true := by
  have hkind : isIP ip = 6 := by rw [isIP, h]
  have hlower : parseV6 (Text.asciiLower ip) = some n := by rw [parseV6_lower, parse_v6 h]
  have hlen : 0 < ip.length := by
    rcases ip with - | ⟨c, cs⟩
    · cases hkind
    · exact Nat.succ_pos _
  obtain ⟨fuel, hfuel⟩ := Nat.exists_eq_add_of_lt hlen
  rw [Nat.zero_add] at hfuel
  rw [isPublicAddress, publicWithin_v6 hkind]
  by_cases hrefused : Refused (Text.asciiLower ip)
  · rw [if_pos hrefused]
    simp [hrefused]
  · rw [if_neg hrefused]
    by_cases hpre : Text.startsWith (Text.asciiLower ip) "::ffff:".toList = true
    · obtain ⟨tail, htail⟩ := List.isPrefixOf_iff_prefix.mp hpre
      have hdrop : (Text.asciiLower ip).drop 7 = tail := by
        rw [← htail]
        rfl
      rw [← htail] at hlower
      have hnone := parseV6_tail hlower
      rw [if_pos hpre, hdrop, hfuel, publicWithin]
      cases hv4 : parseV4 tail with
      | some a =>
        have htailkind : isIP tail = 4 := by rw [isIP, parse, hv4]
        rw [htailkind]
        simp only [isBlockedV4_eq hv4, Bool.not_eq_false']
        constructor
        · intro ha
          refine .inr ⟨tail, htail.symm, fun b hb => ?_⟩
          rw [hv4] at hb
          rwa [← Option.some.inj hb]
        · rintro (href | ⟨tail', htail', hall⟩)
          · exact absurd href hrefused
          · obtain rfl := List.append_cancel_left (htail.trans htail')
            exact hall a hv4
      | none =>
        have htailkind : isIP tail = 0 := by rw [isIP, parse, hv4, hnone, Option.map_none]
        rw [htailkind]
        simp only [true_iff]
        exact .inr ⟨tail, htail.symm, fun b hb => by rw [hv4] at hb; cases hb⟩
    · rw [if_neg hpre]
      constructor
      · intro hfalse
        cases hfalse
      · rintro (href | ⟨tail, htail, -⟩)
        · exact absurd href hrefused
        · exact absurd (List.isPrefixOf_iff_prefix.mpr ⟨tail, htail.symm⟩) hpre

/-! ## What is refused -/

/-- The address has to be refused: it is in an internal range, or it leads to an IPv4 address of
the ranges of one of the two guards. The Connect guard sees such an address in a NAT64 or
translated one in some spellings only. -/
def Dangerous (ip : Text) (n : BitVec 128) : Prop :=
  internalV6 n = true ∨ IsNat64 n ∧ refusedV4 (low n) = true ∨
    (IsMapped n ∨ (IsNat64 n ∨ IsTranslated n) ∧ Recognised ip) ∧
      (refusedV4 (low n) || missedV4 (low n)) = true

/-- The guard refuses the text if it has to. -/
def Sound (ip : Text) : Ip → Prop
  | .v4 a => missedV4 a = false
  | .v6 n => Dangerous ip n → Refused (Text.asciiLower ip) ∨
      ∃ tail, Text.asciiLower ip = "::ffff:".toList ++ tail ∧
        ((parseV4 tail).isSome = true → missedV4 (low n) = false)

theorem blocked_v6 {n : BitVec 128} (hn : ¬ IsMapped n) :
    (blocked.any fun r => r.contains (.v6 n)) = internalV6 n := by
  have hv4 : ∀ m bits, (⟨.v4 m, bits⟩ : Subnet).contains (.v6 n) = false := by
    intro m bits
    rw [contains_v4, unmapped_of_not hn]
  rw [blocked_perm.any_eq, List.any_append, List.any_map]
  have hnone : ((BLOCKED_V4 ++ [("192.0.0.0", 24), ("198.18.0.0", 15)]).any
      ((fun r : Subnet => r.contains (.v6 n)) ∘ fun r : String × ℕ =>
        ⟨.v4 (BitVec.ofNat 32 (v4ToInt r.1.toList)), r.2⟩)) = false :=
    List.any_eq_false.mpr fun r _ => by simp [hv4]
  rw [hnone, Bool.false_or]
  rfl

theorem not_internalV6 {n : BitVec 128} (h : IsMapped n ∨ IsNat64 n ∨ IsTranslated n) :
    internalV6 n = false := by
  rcases h with h | h
  · rw [← mapped_low h]
    exact internalV6_mapped _
  · rw [← blocked_v6 (not_mapped_of_range h)]
    exact not_blocked_of_range h

theorem internalV6_of_range {n m : BitVec 128} {bits : ℕ} (hr : ⟨.v6 m, bits⟩ ∈ INTERNAL_V6)
    (h : agree bits n m = true) : internalV6 n = true :=
  List.any_eq_true.mpr ⟨_, hr, h⟩

theorem dangerous_of_internal {ip : Text} {n : BitVec 128} (h : Internal (.v6 n)) :
    Dangerous ip n := by
  rcases h with rfl | rfl | h | h | h | ⟨hmapped | hnat64, hlow⟩
  · exact .inl (by decide)
  · exact .inl (by decide)
  · exact .inl (internalV6_of_range (by decide) h)
  · exact .inl (internalV6_of_range (by decide) h)
  · exact .inl (internalV6_of_range (by decide) h)
  · exact .inr (.inr ⟨.inl hmapped, by rw [hlow, Bool.true_or]⟩)
  · exact .inr (.inl ⟨hnat64, hlow⟩)

/-- What either of the two guards has to refuse. -/
theorem dangerous_iff {ip : Text} {n : BitVec 128} (h : parse ip = some (.v6 n)) :
    Dangerous ip n ↔ Internal (.v6 n) ∨ isBlockedAddress ip = true := by
  constructor
  · rintro (hinternal | hnat64 | ⟨hseen, hlow⟩)
    · right
      have hn : ¬ IsMapped n := fun hmapped => by
        rw [not_internalV6 (.inl hmapped)] at hinternal
        cases hinternal
      have hrec : ¬ Recognised ip := fun hrec => by
        rw [not_internalV6 (.inr (range_of_recognised (parse_v6 h) hrec hn))] at hinternal
        cases hinternal
      rw [isBlockedAddress_unseen h hn hrec, blocked_v6 hn]
      exact hinternal
    · exact .inl (.inr (.inr (.inr (.inr (.inr ⟨.inr hnat64.1, hnat64.2⟩)))))
    · right
      rw [isBlockedAddress_seen h (hseen.imp_right And.right), blockedV4_eq]
      exact hlow
  · rintro (hinternal | hblocked)
    · exact dangerous_of_internal hinternal
    · by_cases hmapped : IsMapped n
      · rw [isBlockedAddress_seen h (.inl hmapped), blockedV4_eq] at hblocked
        exact .inr (.inr ⟨.inl hmapped, hblocked⟩)
      · by_cases hrec : Recognised ip
        · rw [isBlockedAddress_seen h (.inr hrec), blockedV4_eq] at hblocked
          exact .inr (.inr ⟨.inr ⟨range_of_recognised (parse_v6 h) hrec hmapped, hrec⟩, hblocked⟩)
        · rw [isBlockedAddress_unseen h hmapped hrec, blocked_v6 hmapped] at hblocked
          exact .inl hblocked

theorem isBlockedAddress_v4 {ip : Text} {a : BitVec 32} (h : parse ip = some (.v4 a)) :
    isBlockedAddress ip = (refusedV4 a || missedV4 a) := by
  have hkind : isIP ip = 4 := by rw [isIP, h]
  rw [isBlockedAddress, hkind]
  simp only [BlockList.check, parse_v4 h, Option.map_some]
  exact blockedV4_eq a

/-- A mapped address has to be refused for its IPv4 address only. -/
theorem dangerous_mapped {ip : Text} {n : BitVec 128} (hn : IsMapped n) (h : Dangerous ip n) :
    refusedV4 (low n) = true ∨ missedV4 (low n) = true := by
  rcases h with hinternal | hnat64 | ⟨-, hlow⟩
  · rw [not_internalV6 (.inl hn)] at hinternal
    cases hinternal
  · exact absurd hn (not_mapped_of_range (.inl hnat64.1))
  · rwa [Bool.or_eq_true] at hlow

/-- The guard refuses every internal address, and what the Connect guard blocks, exactly in the
spellings it looks for. -/
theorem guarded_iff (ip : Text) (a : Ip) (h : parse ip = some a) :
    (Internal a → isPublicAddress ip = false) ∧
      (isBlockedAddress ip = true → isPublicAddress ip = false) ↔ Sound ip a := by
  cases a with
  | v4 a =>
    rw [isPublicAddress_v4 h, isBlockedAddress_v4 h, Internal, Sound]
    cases hmissed : missedV4 a with
    | false => simp
    | true =>
      have hnot : refusedV4 a = false := by
        by_contra hr
        rw [not_missed (Bool.not_eq_false _ ▸ hr)] at hmissed
        cases hmissed
      simp [hnot]
  | v6 n =>
    rw [← or_imp, ← dangerous_iff h, isPublicAddress_v6 h, Sound]
    refine forall_congr' fun hdanger => or_congr_right (exists_congr fun tail =>
      and_congr_right fun htail => ?_)
    constructor
    · intro hall hsome
      obtain ⟨a, ha⟩ := Option.isSome_iff_exists.mp hsome
      rw [(low_of_tail h htail ha).2]
      exact not_missed (hall a ha)
    · intro hnot a ha
      obtain ⟨hmapped, hlow⟩ := low_of_tail h htail ha
      rcases dangerous_mapped hmapped hdanger with hr | hm
      · rwa [hlow] at hr
      · rw [hnot (by rw [ha]; rfl)] at hm
        cases hm

/-- A mapped private address is refused. -/
theorem guarded_mapped :
    isBlockedAddress "::FFFF:10.0.0.1".toList = true ∧
      isPublicAddress "::FFFF:10.0.0.1".toList = false := by
  have hblocked : isBlockedAddress "::FFFF:10.0.0.1".toList = true := by decide
  refine ⟨hblocked, ?_⟩
  exact ((guarded_iff "::FFFF:10.0.0.1".toList (.v6 (mapped 0x0a000001#32)) (by decide)).mpr
    fun _ => .inr ⟨"10.0.0.1".toList, by decide, fun _ => by decide⟩).2 hblocked

/-- The loopback address with its zeros written out is public. -/
theorem loopback_spelled_out :
    parse "0:0:0:0:0:0:0:1".toList = some (.v6 1) ∧ Internal (.v6 1) ∧
      isBlockedAddress "0:0:0:0:0:0:0:1".toList = true ∧
      isPublicAddress "0:0:0:0:0:0:0:1".toList = true :=
  ⟨by decide, .inr (.inl rfl), by decide, by decide⟩

end Prgd.PublicAddresses
