import Prgd.Text

/-!
# Textual addresses and subnets

The spellings of IPv4 and IPv6 addresses that `net.isIP` accepts, each with the
number it stands for, and `net.BlockList`. An IPv6 text has eight groups, or
two parts around one `::` that stands for at least one group of zeros; its last
two groups may be written as an IPv4 address; and a zone may follow. A zone
does not change the number. `BlockList.check` compares numbers, and it treats
an IPv4 address and its IPv4 mapped form as one address.
-/
namespace Prgd.IpAddress

inductive Ip where
  | v4 (n : BitVec 32)
  | v6 (n : BitVec 128)
  deriving DecidableEq

/-! ## Texts -/

/-- A decimal byte without leading zeros. -/
def octet (s : Text) : Option ℕ :=
  let n := Text.digitsValue s
  if s.all Text.isDigit ∧ s ≠ [] ∧ (s.head? = some '0' → s = ['0']) ∧ n ≤ 255 then some n else none

def parseV4 (s : Text) : Option (BitVec 32) :=
  match Text.split s ['.'] with
  | [a, b, c, d] => do
      let a ← octet a
      let b ← octet b
      let c ← octet c
      let d ← octet d
      return BitVec.ofNat 32 (((a * 256 + b) * 256 + c) * 256 + d)
  | _ => none

theorem parseV4_eq (s : Text) : parseV4 s =
    match Text.split s ['.'] with
    | [a, b, c, d] => do
        let a ← octet a
        let b ← octet b
        let c ← octet c
        let d ← octet d
        return BitVec.ofNat 32 (((a * 256 + b) * 256 + c) * 256 + d)
    | _ => none := rfl

def isHexDigit (c : Char) : Bool :=
  Text.isDigit c || ('a' ≤ c && c ≤ 'f') || ('A' ≤ c && c ≤ 'F')

def hexDigit (c : Char) : ℕ :=
  if Text.isDigit c then c.toNat - 48 else if Text.isUpper c then c.toNat - 55 else c.toNat - 87

def hexValue (s : Text) : ℕ := s.foldl (fun n c => 16 * n + hexDigit c) 0

def hexGroup (s : Text) : Option (BitVec 16) :=
  if s.all isHexDigit ∧ 1 ≤ s.length ∧ s.length ≤ 4 then some (BitVec.ofNat 16 (hexValue s))
  else none

/-- Groups of which the last may be an IPv4 address, which is worth two. -/
def groups : List Text → Option (List (BitVec 16))
  | [] => some []
  | [p] =>
      match parseV4 p with
      | some a => some [a.extractLsb' 16 16, a.extractLsb' 0 16]
      | none => (hexGroup p).map fun g => [g]
  | p :: ps => do return (← hexGroup p) :: (← groups ps)

theorem groups_singleton (p : Text) : groups [p] =
    match parseV4 p with
    | some a => some [a.extractLsb' 16 16, a.extractLsb' 0 16]
    | none => (hexGroup p).map fun g => [g] := rfl

theorem groups_cons_cons (p q : Text) (ps : List Text) :
    groups (p :: q :: ps) = do return (← hexGroup p) :: (← groups (q :: ps)) := rfl

/-- The texts between single colons. -/
def colonParts (s : Text) : List Text := if s = [] then [] else Text.split s [':']

def ofGroups (gs : List (BitVec 16)) : BitVec 128 :=
  BitVec.ofNat 128 (gs.foldl (fun n g => 65536 * n + g.toNat) 0)

def parseGroups (s : Text) : Option (BitVec 128) :=
  match Text.breakOn [':', ':'] s with
  | none => do
      let gs ← groups (colonParts s)
      if gs.length = 8 then some (ofGroups gs) else none
  | some (l, r) => do
      let ls ← (colonParts l).mapM hexGroup
      let rs ← groups (colonParts r)
      let n := ls.length + rs.length
      if n ≤ 7 then some (ofGroups (ls ++ List.replicate (8 - n) 0 ++ rs)) else none

def isZone (c : Char) : Bool := Text.isLetter c || Text.isDigit c || c == '-' || c == '.' || c == ':'

def parseV6 (s : Text) : Option (BitVec 128) :=
  match Text.breakOn ['%'] s with
  | none => parseGroups s
  | some (a, zone) => if zone ≠ [] ∧ zone.all isZone then parseGroups a else none

def parse (s : Text) : Option Ip :=
  match parseV4 s with
  | some n => some (.v4 n)
  | none => (parseV6 s).map .v6

/-- `net.isIP`: 4, 6, or 0 for a text that is no address. -/
def isIP (s : Text) : ℕ :=
  match parse s with
  | some (.v4 _) => 4
  | some (.v6 _) => 6
  | none => 0

/-! ## Subnets -/

structure Subnet where
  net : Ip
  bits : ℕ
  deriving DecidableEq

/-- `::ffff:a` -/
def mapped (a : BitVec 32) : BitVec 128 := BitVec.ofNat 128 (0xffff * 2 ^ 32 + a.toNat)

def unmapped (a : BitVec 128) : Option (BitVec 32) :=
  if a >>> 32 = 0xffff#128 then some (a.truncate 32) else none

/-- The two numbers share their first `bits` bits. -/
def agree {w : ℕ} (bits : ℕ) (a b : BitVec w) : Bool := a >>> (w - bits) == b >>> (w - bits)

def Subnet.contains (s : Subnet) (a : Ip) : Bool :=
  match s.net, a with
  | .v4 n, .v4 a => agree s.bits a n
  | .v6 n, .v6 a => agree s.bits a n
  | .v6 n, .v4 a => agree s.bits (mapped a) n
  | .v4 n, .v6 a => match unmapped a with
      | some a => agree s.bits a n
      | none => false

abbrev BlockList := List Subnet

inductive Family where
  | ipv4 | ipv6
  deriving DecidableEq

/-- `blockList.check(address, family)`; a text that is no address of the family
is in no subnet. -/
def BlockList.check (rules : BlockList) (s : Text) (family : Family) : Bool :=
  let a := match family with
    | .ipv4 => (parseV4 s).map Ip.v4
    | .ipv6 => (parseV6 s).map Ip.v6
  match a with
  | some a => rules.any fun r => r.contains a
  | none => false

end Prgd.IpAddress
