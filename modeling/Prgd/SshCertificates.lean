import Prgd.Cron
import Prgd.Decoding
import Prgd.JsValue
import Prgd.Record
import Mathlib.Algebra.Order.BigOperators.Group.List
import Mathlib.Data.List.Induction
import Mathlib.Data.List.Sort
import Mathlib.Tactic.Ring

/-!
# OpenSSH certificates

The wire format of SSH and the ed25519 user certificates that the platform issues. A reader
is the bytes that are still to be read. Ed25519, the random nonce and the order of
`localeCompare` are parameters; of the order nothing is used but that sorting keeps the
entries. An error value is any exception.

A certificate that is signed reads back as it was requested. The options are collected in an
object, and an assignment to `__proto__` does not add a property: an extension of that name
is signed and not read.
-/
namespace Prgd.SshCertificates

abbrev Bytes := List UInt8

/-! ## Buffers -/

/-- `Buffer.from(text, 'utf8')` -/
def ofUtf8 (s : Text) : Bytes := (Encoding.utf8 s).map UInt8.ofNat

/-- `toString('utf8')` -/
def toUtf8 (b : Bytes) : Text := Encoding.fromUtf8 (b.map UInt8.toNat)

/-- `toString('base64')` -/
def toBase64 (b : Bytes) : Text := Encoding.base64 (b.map UInt8.toNat)

/-- `Buffer.from(text, 'base64')` -/
def ofBase64 (s : Text) : Bytes := (Encoding.fromBase64 s).map UInt8.ofNat

/-- The last `k` bytes of a number, the first byte being the highest. -/
def bigEndian : ℕ → ℕ → Bytes
  | 0, _ => []
  | k + 1, n => UInt8.ofNat (n / 256 ^ k) :: bigEndian k n

def valueOf (b : Bytes) : ℕ := b.foldl (fun n b => 256 * n + b.toNat) 0

/-- `writeUInt32BE` and `writeBigUInt64BE`, which check the range. -/
def writeUint (k n : ℕ) : Except Text Bytes :=
  if n < 256 ^ k then .ok (bigEndian k n) else .error "out of range".toList

def u32 (n : ℕ) : Except Text Bytes := writeUint 4 n
def u64 (n : ℕ) : Except Text Bytes := writeUint 8 n

def sshString (b : Bytes) : Except Text Bytes := do return (← u32 b.length) ++ b
def sshText (s : Text) : Except Text Bytes := sshString (ofUtf8 s)

/-! ## Reading -/

def readString (buf : Bytes) : Except Text (Bytes × Bytes) :=
  if buf.length < 4 then .error "truncated SSH data".toList
  else
    let n := valueOf (buf.take 4)
    let rest := buf.drop 4
    if rest.length < n then .error "truncated SSH data".toList
    else .ok (rest.take n, rest.drop n)

def readText (buf : Bytes) : Except Text (Text × Bytes) := do
  let (b, rest) ← readString buf
  return (toUtf8 b, rest)

def readUint (k : ℕ) (buf : Bytes) : Except Text (ℕ × Bytes) :=
  if buf.length < k then .error "out of range".toList
  else .ok (valueOf (buf.take k), buf.drop k)

/-- The loop over the principals. Every string takes at least four bytes, so the fuel is never used
up. -/
def readTexts : ℕ → Bytes → Except Text (List Text)
  | 0, _ => .ok []
  | fuel + 1, buf =>
      if buf = [] then .ok []
      else do
        let (p, rest) ← readText buf
        return p :: (← readTexts fuel rest)

/-- `out[name] = value` on an object literal: to assign a string to `__proto__` does nothing. -/
def assign (out : List (Text × Text)) (name value : Text) : List (Text × Text) :=
  if name = "__proto__".toList then out else Record.set out name value

def readValue (data : Bytes) : Except Text Text :=
  if data = [] then .ok [] else (readText data).map Prod.fst

/-- The loop of `readOptions`; the same holds of the fuel. -/
def readOptions : ℕ → Bytes → List (Text × Text) → Except Text (List (Text × Text))
  | 0, _, out => .ok out
  | fuel + 1, buf, out =>
      if buf = [] then .ok out
      else do
        let (name, rest) ← readText buf
        let (data, rest) ← readString rest
        readOptions fuel rest (assign out name (← readValue data))

/-- `Object.keys`: array indices in their order, then the other names as they were added. -/
def objectKeys (r : List (Text × Text)) : List Text :=
  let names := r.map Prod.fst
  let isIndex := fun name => (JsValue.indexOf name).any fun i => i < 2 ^ 32 - 1
  (names.filter isIndex).insertionSort (fun a b => Text.digitsValue a ≤ Text.digitsValue b) ++
    names.filter fun name => !isIndex name

/-! ## Keys -/

def ED25519 : Text := "ssh-ed25519".toList
def ED25519_CERT : Text := "ssh-ed25519-cert-v01@openssh.com".toList

/-- Raw public key of an OpenSSH line. -/
def parseEd25519PublicKey (line : Text) : Except Text Bytes :=
  match Text.words line with
  | type :: b64 :: _ =>
      if type ≠ ED25519 then .error "only ssh-ed25519 public keys are accepted".toList
      else do
        let (name, rest) ← readText (ofBase64 b64)
        if name ≠ ED25519 then throw "key type does not match".toList
        let (pk, _) ← readString rest
        if pk.length ≠ 32 then throw "bad ed25519 key length".toList
        return pk
  | _ => .error "only ssh-ed25519 public keys are accepted".toList

def ed25519Blob (pk : Bytes) : Except Text Bytes := do
  return (← sshText ED25519) ++ (← sshString pk)

/-- OpenSSH line for a raw public key. -/
def ed25519Line (pk : Bytes) (comment : Text) : Except Text Text := do
  let blob ← ed25519Blob pk
  return ED25519 ++ ' ' :: toBase64 blob ++ (if comment = [] then [] else ' ' :: comment)

/-! ## Certificates -/

/-- A time from 1970 on, in milliseconds. -/
abbrev Date := { ms : ℕ // ms ≤ 8640000000000000 }

structure CertRequest where
  /-- The OpenSSH line of the key. -/
  publicKey : Text
  serial : ℕ
  keyId : Text
  principals : List Text
  validAfter : Date
  validBefore : Date
  /-- Empty when there are none or it is left out. -/
  sourceAddresses : List Text := []
  extensions : Option (List Text) := none

/-- What the platform provides: a key pair of Ed25519, random bytes and a sorting by
`localeCompare`. -/
structure Signer where
  caPk : Bytes
  sign : Bytes → Bytes
  nonce : Bytes
  sort : List (Text × Text) → List (Text × Text)
  caPk_length : caPk.length = 32
  sign_length : ∀ m, (sign m).length = 64
  nonce_length : nonce.length = 32
  sort_perm : ∀ l, (sort l).Perm l

section
variable (ca : Signer)

/-- An empty value has no data. -/
def valueBytes (value : Text) : Except Text Bytes :=
  if value = [] then .ok [] else sshText value

def optionBytes (pair : Text × Text) : Except Text Bytes := do
  let name ← sshText pair.1
  let data ← valueBytes pair.2
  return name ++ (← sshString data)

def options (pairs : List (Text × Text)) : Except Text Bytes := do
  return (← (ca.sort pairs).mapM optionBytes).flatten

/-- The options of a request. -/
def CertRequest.critical (req : CertRequest) : List (Text × Text) :=
  if req.sourceAddresses = [] then []
  else [("source-address".toList, Text.join [','] req.sourceAddresses)]

/-- The names of the extensions, by default `permit-pty` only. -/
def CertRequest.names (req : CertRequest) : List Text := req.extensions.getD ["permit-pty".toList]

def CertRequest.granted (req : CertRequest) : List (Text × Text) := req.names.map fun e => (e, [])

def signUserCertificate (req : CertRequest) : Except Text Text := do
  let pk ← parseEd25519PublicKey req.publicKey
  let parts ← [sshText ED25519_CERT, sshString ca.nonce, sshString pk, u64 req.serial, u32 1,
    sshText req.keyId, (do sshString (← req.principals.mapM sshText).flatten),
    u64 (req.validAfter.1 / 1000), u64 (req.validBefore.1 / 1000),
    (do sshString (← options ca req.critical)), (do sshString (← options ca req.granted)),
    sshString [], (do sshString (← ed25519Blob ca.caPk))].mapM id
  let body := parts.flatten
  let signature ← sshString ((← sshText ED25519) ++ (← sshString (ca.sign body)))
  return ED25519_CERT ++ ' ' :: toBase64 (body ++ signature) ++ ' ' :: req.keyId

end

structure ParsedCertificate where
  type : Text
  publicKey : Bytes
  serial : ℕ
  certType : ℕ
  keyId : Text
  principals : List Text
  /-- No value is an invalid date. -/
  validAfter : Option ℕ
  validBefore : Option ℕ
  criticalOptions : List (Text × Text)
  extensions : List Text
  signatureKey : Bytes
  signatureValid : Bool

/-- `new Date(Number(seconds) * 1000)` -/
def dateOf (seconds : ℕ) : Option ℕ :=
  if seconds * 1000 ≤ 8640000000000000 then some (seconds * 1000) else none

/-- `verify` of a public key, a message and a signature; it fails when the bytes are no key. -/
def parseCertificate (verify : Bytes → Bytes → Bytes → Except Text Bool) (line : Text) :
    Except Text ParsedCertificate :=
  match Text.words line with
  | _ :: b64 :: _ => do
      let raw := ofBase64 b64
      let (type, rest) ← readText raw
      if type ≠ ED25519_CERT then throw ("unsupported certificate type ".toList ++ type)
      let (_, rest) ← readString rest
      let (publicKey, rest) ← readString rest
      let (serial, rest) ← readUint 8 rest
      let (certType, rest) ← readUint 4 rest
      let (keyId, rest) ← readText rest
      let (list, rest) ← readString rest
      let principals ← readTexts list.length list
      let (after, rest) ← readUint 8 rest
      let (before, rest) ← readUint 8 rest
      let (critical, rest) ← readString rest
      let criticalOptions ← readOptions critical.length critical []
      let (granted, rest) ← readString rest
      let extensions ← readOptions granted.length granted []
      let (_, rest) ← readString rest
      let (keyBlob, rest) ← readString rest
      let signed := raw.take (raw.length - rest.length)
      let (sigBlob, _) ← readString rest
      let (_, sigRest) ← readText sigBlob
      let (signature, _) ← readString sigRest
      let (_, keyRest) ← readText keyBlob
      let (signatureKey, _) ← readString keyRest
      let signatureValid ← verify signatureKey signed signature
      return ⟨type, publicKey, serial, certType, keyId, principals, dateOf after, dateOf before,
        criticalOptions, objectKeys extensions, signatureKey, signatureValid⟩
  | _ => .error "no data".toList

/-! ## Reading what was written -/

theorem toUtf8_ofUtf8 (s : Text) : toUtf8 (ofUtf8 s) = s := by
  have hbytes : ((Encoding.utf8 s).map UInt8.ofNat).map UInt8.toNat = Encoding.utf8 s := by
    rw [List.map_map]
    refine (List.map_congr_left fun b hb => ?_).trans (List.map_id _)
    exact Nat.mod_eq_of_lt (Encoding.utf8_lt s b hb)
  rw [toUtf8, ofUtf8, hbytes, Encoding.fromUtf8_utf8]

theorem ofBase64_toBase64 (b : Bytes) : ofBase64 (toBase64 b) = b := by
  have hlt : ∀ n ∈ b.map UInt8.toNat, n < 256 := by
    intro n hn
    obtain ⟨x, -, rfl⟩ := List.mem_map.mp hn
    exact x.toNat_lt
  rw [ofBase64, toBase64, Encoding.fromBase64_base64 hlt, List.map_map]
  exact (List.map_congr_left fun x _ => UInt8.ofNat_toNat).trans (List.map_id _)

@[simp] theorem length_bigEndian (k n : ℕ) : (bigEndian k n).length = k := by
  induction k with
  | zero => rfl
  | succ k ih => rw [bigEndian, List.length_cons, ih]

theorem valueOf_append (a b : Bytes) : valueOf (a ++ b) = valueOf a * 256 ^ b.length + valueOf b := by
  induction b using List.reverseRecOn with
  | nil => simp [valueOf]
  | append_singleton b x ih =>
    rw [← List.append_assoc]
    unfold valueOf at *
    rw [List.foldl_append, ih, List.foldl_append]
    simp only [List.foldl_cons, List.foldl_nil, List.length_append, List.length_singleton, pow_succ]
    ring

theorem valueOf_bigEndian (k n : ℕ) : valueOf (bigEndian k n) = n % 256 ^ k := by
  induction k with
  | zero => exact (Nat.mod_one n).symm
  | succ k ih =>
    have hfirst : valueOf [UInt8.ofNat (n / 256 ^ k)] = n / 256 ^ k % 256 := by
      simp [valueOf]
    rw [bigEndian, ← List.singleton_append, valueOf_append, ih, length_bigEndian, hfirst,
      Nat.mod_pow_succ]
    ring

theorem writeUint_ok {k n : ℕ} {b : Bytes} :
    writeUint k n = .ok b ↔ n < 256 ^ k ∧ b = bigEndian k n := by
  unfold writeUint
  split_ifs with h
  · simp [h, eq_comm]
  · simp [h]

theorem readUint_bigEndian {k n : ℕ} (h : n < 256 ^ k) (rest : Bytes) :
    readUint k (bigEndian k n ++ rest) = .ok (n, rest) := by
  have hlen : ¬ (bigEndian k n ++ rest).length < k := by simp
  rw [readUint, if_neg hlen, List.take_left' (length_bigEndian k n),
    List.drop_left' (length_bigEndian k n), valueOf_bigEndian, Nat.mod_eq_of_lt h]

/-- A string behind its length. -/
def frame (b : Bytes) : Bytes := bigEndian 4 b.length ++ b

@[simp] theorem length_frame (b : Bytes) : (frame b).length = 4 + b.length := by
  rw [frame, List.length_append, length_bigEndian]

theorem bind_eq_ok {α β : Type} {x : Except Text α} {k : α → Except Text β} {r : β} :
    (x >>= k) = .ok r ↔ ∃ a, x = .ok a ∧ k a = .ok r := by
  refine ⟨Cron.bind_ok, ?_⟩
  rintro ⟨a, rfl, h⟩
  exact h

theorem sshString_ok {b out : Bytes} :
    sshString b = .ok out ↔ b.length < 256 ^ 4 ∧ out = frame b := by
  unfold sshString u32
  rw [bind_eq_ok]
  constructor
  · rintro ⟨l, hl, h⟩
    obtain ⟨hlen, rfl⟩ := writeUint_ok.mp hl
    exact ⟨hlen, (Except.ok.inj h).symm⟩
  · rintro ⟨hlen, rfl⟩
    exact ⟨_, writeUint_ok.mpr ⟨hlen, rfl⟩, rfl⟩

theorem readString_frame {b : Bytes} (h : b.length < 256 ^ 4) (rest : Bytes) :
    readString (frame b ++ rest) = .ok (b, rest) := by
  have hfour : ¬ (frame b ++ rest).length < 4 := by
    rw [List.length_append, length_frame]
    omega
  have hvalue : valueOf ((frame b ++ rest).take 4) = b.length := by
    rw [frame, List.append_assoc, List.take_left' (length_bigEndian 4 _), valueOf_bigEndian,
      Nat.mod_eq_of_lt h]
  have hdrop : (frame b ++ rest).drop 4 = b ++ rest := by
    rw [frame, List.append_assoc, List.drop_left' (length_bigEndian 4 _)]
  rw [readString, if_neg hfour]
  simp only [hvalue, hdrop]
  rw [if_neg (by simp), List.take_left, List.drop_left]

theorem readText_frame {s : Text} (h : (ofUtf8 s).length < 256 ^ 4) (rest : Bytes) :
    readText (frame (ofUtf8 s) ++ rest) = .ok (s, rest) := by
  rw [readText, readString_frame h]
  change Except.ok (toUtf8 (ofUtf8 s), rest) = _
  rw [toUtf8_ofUtf8]

/-! ## Lists in strings -/

/-- The number of bytes of a text. -/
def size (s : Text) : ℕ := (Encoding.utf8 s).length

@[simp] theorem length_ofUtf8 (s : Text) : (ofUtf8 s).length = size s := by
  rw [ofUtf8, List.length_map, size]

theorem sshText_ok {s : Text} {out : Bytes} :
    sshText s = .ok out ↔ size s < 256 ^ 4 ∧ out = frame (ofUtf8 s) := by
  rw [sshText, sshString_ok, length_ofUtf8]

theorem mapM_ok_iff {α β : Type} {f : α → Except Text β} {P : α → Prop} {g : α → β}
    (h : ∀ x b, f x = .ok b ↔ P x ∧ b = g x) {xs : List α} {ys : List β} :
    xs.mapM f = .ok ys ↔ (∀ x ∈ xs, P x) ∧ ys = xs.map g := by
  induction xs generalizing ys with
  | nil => simp [List.mapM_nil, pure, Except.pure, eq_comm]
  | cons x xs ih =>
    rw [List.mapM_cons, bind_eq_ok]
    constructor
    · rintro ⟨b, hb, hrest⟩
      obtain ⟨bs, hbs, hys⟩ := bind_eq_ok.mp hrest
      obtain ⟨hx, rfl⟩ := (h x b).mp hb
      obtain ⟨hxs, rfl⟩ := ih.mp hbs
      exact ⟨List.forall_mem_cons.mpr ⟨hx, hxs⟩, (Except.ok.inj hys).symm⟩
    · rintro ⟨hall, rfl⟩
      obtain ⟨hx, hxs⟩ := List.forall_mem_cons.mp hall
      exact ⟨g x, (h x _).mpr ⟨hx, rfl⟩, bind_eq_ok.mpr ⟨_, ih.mpr ⟨hxs, rfl⟩, rfl⟩⟩

/-- The strings of a list behind one another. -/
def frames (ps : List Text) : Bytes := (ps.map fun p => frame (ofUtf8 p)).flatten

theorem frames_cons (p : Text) (ps : List Text) : frames (p :: ps) = frame (ofUtf8 p) ++ frames ps := rfl

theorem length_frames (ps : List Text) : (frames ps).length = (ps.map fun p => 4 + size p).sum := by
  induction ps with
  | nil => rfl
  | cons p ps ih => rw [frames_cons, List.length_append, ih, length_frame, length_ofUtf8]; rfl

/-- A part is not longer than the whole. -/
theorem size_lt_of_frames {ps : List Text} {n : ℕ} (h : (frames ps).length < n) :
    ∀ p ∈ ps, size p < n := by
  intro p hp
  rw [length_frames] at h
  have hle : 4 + size p ≤ (ps.map fun p => 4 + size p).sum :=
    List.single_le_sum (fun _ _ => Nat.zero_le _) _ (List.mem_map_of_mem hp)
  omega

theorem readTexts_frames {ps : List Text} (h : ∀ p ∈ ps, size p < 256 ^ 4) {fuel : ℕ}
    (hfuel : (frames ps).length ≤ fuel) : readTexts fuel (frames ps) = .ok ps := by
  induction ps generalizing fuel with
  | nil => cases fuel <;> rfl
  | cons p ps ih =>
    obtain ⟨hp, hps⟩ := List.forall_mem_cons.mp h
    rw [frames_cons, List.length_append, length_frame] at hfuel
    obtain ⟨fuel, rfl⟩ : ∃ k, fuel = k + 1 := ⟨fuel - 1, by omega⟩
    have hne : frames (p :: ps) ≠ [] := by
      intro hnil
      have := congrArg List.length hnil
      rw [frames_cons, List.length_append, length_frame] at this
      simp at this
    rw [readTexts, if_neg hne, frames_cons, readText_frame (by rwa [length_ofUtf8])]
    change (do return p :: (← readTexts fuel (frames ps)) : Except Text (List Text)) = _
    rw [ih hps (by omega)]
    rfl

/-! ## Options -/

def dataOf (value : Text) : Bytes := if value = [] then [] else frame (ofUtf8 value)

def optionFrame (pair : Text × Text) : Bytes := frame (ofUtf8 pair.1) ++ frame (dataOf pair.2)

def optionFrames (pairs : List (Text × Text)) : Bytes := (pairs.map optionFrame).flatten

/-- The number of bytes of an option. -/
def optionSize (pair : Text × Text) : ℕ :=
  8 + size pair.1 + if pair.2 = [] then 0 else 4 + size pair.2

theorem length_dataOf (value : Text) :
    (dataOf value).length = if value = [] then 0 else 4 + size value := by
  unfold dataOf
  split_ifs
  · rfl
  · rw [length_frame, length_ofUtf8]

theorem length_optionFrame (pair : Text × Text) : (optionFrame pair).length = optionSize pair := by
  rw [optionFrame, List.length_append, length_frame, length_frame, length_ofUtf8, length_dataOf,
    optionSize]
  omega

theorem length_optionFrames (pairs : List (Text × Text)) :
    (optionFrames pairs).length = (pairs.map optionSize).sum := by
  rw [optionFrames, List.length_flatten, List.map_map]
  exact congrArg List.sum (List.map_congr_left fun p _ => length_optionFrame p)

theorem optionBytes_ok (pair : Text × Text) (out : Bytes) :
    optionBytes pair = .ok out ↔
      (size pair.1 < 256 ^ 4 ∧ (dataOf pair.2).length < 256 ^ 4) ∧ out = optionFrame pair := by
  have hdata : ∀ d, valueBytes pair.2 = .ok d ↔
      (pair.2 ≠ [] → size pair.2 < 256 ^ 4) ∧ d = dataOf pair.2 := by
    intro d
    unfold valueBytes dataOf
    split_ifs with h
    · simp [h, eq_comm]
    · rw [sshText_ok]
      simp [h]
  unfold optionBytes
  rw [bind_eq_ok]
  constructor
  · rintro ⟨name, hname, h⟩
    obtain ⟨data, hd, hrest⟩ := bind_eq_ok.mp h
    obtain ⟨value, hv, hout⟩ := bind_eq_ok.mp hrest
    obtain ⟨hsize, rfl⟩ := sshText_ok.mp hname
    obtain ⟨-, rfl⟩ := (hdata data).mp hd
    obtain ⟨hlen, rfl⟩ := sshString_ok.mp hv
    exact ⟨⟨hsize, hlen⟩, (Except.ok.inj hout).symm⟩
  · rintro ⟨⟨hsize, hlen⟩, rfl⟩
    have hvalue : pair.2 ≠ [] → size pair.2 < 256 ^ 4 := by
      intro hne
      rw [length_dataOf, if_neg hne] at hlen
      omega
    exact ⟨_, sshText_ok.mpr ⟨hsize, rfl⟩, bind_eq_ok.mpr ⟨_, (hdata _).mpr ⟨hvalue, rfl⟩,
      bind_eq_ok.mpr ⟨_, sshString_ok.mpr ⟨hlen, rfl⟩, rfl⟩⟩⟩

/-- Every part of the option fits into a string. -/
def PairFits (pair : Text × Text) : Prop :=
  size pair.1 < 256 ^ 4 ∧ (dataOf pair.2).length < 256 ^ 4

theorem options_ok {ca : Signer} {pairs : List (Text × Text)} {out : Bytes} :
    options ca pairs = .ok out ↔
      (∀ pair ∈ ca.sort pairs, PairFits pair) ∧ out = optionFrames (ca.sort pairs) := by
  unfold options
  rw [bind_eq_ok]
  constructor
  · rintro ⟨parts, hparts, h⟩
    obtain ⟨hall, rfl⟩ := (mapM_ok_iff optionBytes_ok).mp hparts
    exact ⟨hall, (Except.ok.inj h).symm⟩
  · rintro ⟨hall, rfl⟩
    exact ⟨_, (mapM_ok_iff optionBytes_ok).mpr ⟨hall, rfl⟩, rfl⟩

theorem readOptions_frames {pairs : List (Text × Text)} (h : ∀ pair ∈ pairs, PairFits pair)
    (out : List (Text × Text)) {fuel : ℕ} (hfuel : (optionFrames pairs).length ≤ fuel) :
    readOptions fuel (optionFrames pairs) out =
      .ok (pairs.foldl (fun out pair => assign out pair.1 pair.2) out) := by
  induction pairs generalizing out fuel with
  | nil => cases fuel <;> rfl
  | cons pair pairs ih =>
    obtain ⟨⟨hname, hdata⟩, hpairs⟩ := List.forall_mem_cons.mp h
    have hcons : optionFrames (pair :: pairs) =
        frame (ofUtf8 pair.1) ++ (frame (dataOf pair.2) ++ optionFrames pairs) := by
      rw [← List.append_assoc]
      rfl
    have hlen := congrArg List.length hcons
    rw [List.length_append, length_frame] at hlen
    have hshort : (optionFrames pairs).length < (optionFrames (pair :: pairs)).length := by
      rw [hlen, List.length_append]
      omega
    obtain ⟨fuel, rfl⟩ : ∃ k, fuel = k + 1 := ⟨fuel - 1, by omega⟩
    have hne : optionFrames (pair :: pairs) ≠ [] := by
      intro hnil
      rw [hnil] at hshort
      cases hshort
    have hvalue : readValue (dataOf pair.2) = .ok pair.2 := by
      unfold readValue dataOf at *
      split_ifs with hempty hnil hnil
      · rw [hempty]
      · exact absurd rfl hnil
      · have := congrArg List.length hnil
        rw [length_frame] at this
        simp at this
      · rw [if_neg hempty, length_frame] at hdata
        have := readText_frame (s := pair.2) (by omega) []
        rw [List.append_nil] at this
        rw [this]
        rfl
    rw [readOptions, if_neg hne, hcons, readText_frame (by rwa [length_ofUtf8])]
    change (do
      let (data, rest) ← readString (frame (dataOf pair.2) ++ optionFrames pairs)
      readOptions fuel rest (assign out pair.1 (← readValue data)) :
        Except Text (List (Text × Text))) = _
    rw [readString_frame hdata]
    change (do readOptions fuel (optionFrames pairs) (assign out pair.1
      (← readValue (dataOf pair.2))) : Except Text (List (Text × Text))) = _
    rw [hvalue]
    exact ih hpairs _ (by omega)

/-! ## Objects -/

theorem mem_keys_set {r : List (Text × Text)} {n name v : Text} :
    n ∈ (Record.set r name v).map Prod.fst ↔ n = name ∨ n ∈ r.map Prod.fst := by
  by_cases h : name ∈ r.map Prod.fst
  · rw [Record.keys_set_of_mem h]
    exact ⟨.inr, fun hn => hn.elim (fun he => he ▸ h) id⟩
  · rw [Record.set_of_notMem h, List.map_append, List.mem_append]
    simp [or_comm]

theorem mem_keys_assign {out : List (Text × Text)} {n name v : Text} :
    n ∈ (assign out name v).map Prod.fst ↔
      (n = name ∧ n ≠ "__proto__".toList) ∨ n ∈ out.map Prod.fst := by
  unfold assign
  split_ifs with h
  · constructor
    · exact .inr
    · rintro (⟨rfl, hne⟩ | hn)
      · exact absurd h hne
      · exact hn
  · rw [mem_keys_set]
    refine or_congr_left ⟨?_, And.left⟩
    rintro rfl
    exact ⟨rfl, h⟩

/-- The names that are collected. -/
theorem mem_keys_collect {pairs out : List (Text × Text)} {n : Text} :
    n ∈ (pairs.foldl (fun out pair => assign out pair.1 pair.2) out).map Prod.fst ↔
      (n ∈ pairs.map Prod.fst ∧ n ≠ "__proto__".toList) ∨ n ∈ out.map Prod.fst := by
  induction pairs generalizing out with
  | nil => simp
  | cons pair pairs ih =>
    rw [List.foldl_cons, ih, mem_keys_assign, List.map_cons, List.mem_cons]
    tauto

theorem mem_objectKeys {r : List (Text × Text)} {n : Text} :
    n ∈ objectKeys r ↔ n ∈ r.map Prod.fst := by
  unfold objectKeys
  dsimp only
  rw [List.mem_append, List.mem_insertionSort, List.mem_filter, List.mem_filter, ← and_or_left]
  generalize (JsValue.indexOf n).any _ = b
  cases b <;> simp

/-! ## Lines -/

theorem words_append {p : Text} (hne : p ≠ []) (hp : ∀ c ∈ p, Text.isSpace c = false)
    (rest : Text) : Text.words (p ++ ' ' :: rest) = p :: Text.words rest := by
  induction p with
  | nil => exact absurd rfl hne
  | cons c p ih =>
    obtain ⟨hc, hp⟩ := List.forall_mem_cons.mp hp
    cases p with
    | nil =>
      have hspace : Text.isSpace ' ' = true := by decide
      rw [List.cons_append, List.nil_append]
      rw [Text.words, hc]
      have hskip : Text.words (' ' :: rest) = Text.words rest := by
        rw [Text.words.eq_def]
        exact if_pos hspace
      simp only [Bool.false_eq_true, if_false, hspace, if_true, hskip]
    | cons d p =>
      have hd := hp d List.mem_cons_self
      have := ih (List.cons_ne_nil _ _) hp
      rw [List.cons_append, List.cons_append]
      rw [Text.words, hc]
      simp only [Bool.false_eq_true, if_false, hd]
      rw [← List.cons_append, this]

theorem words_singleton {p : Text} (hne : p ≠ []) (hp : ∀ c ∈ p, Text.isSpace c = false) :
    Text.words p = [p] := by
  induction p with
  | nil => exact absurd rfl hne
  | cons c p ih =>
    obtain ⟨hc, hp⟩ := List.forall_mem_cons.mp hp
    cases p with
    | nil =>
      rw [Text.words, hc]
      rfl
    | cons d p =>
      have hd := hp d List.mem_cons_self
      rw [Text.words, hc]
      simp only [Bool.false_eq_true, if_false, hd]
      rw [ih (List.cons_ne_nil _ _) hp]

theorem noSpace_of_all {s : Text} (h : (s.all fun c => !Text.isSpace c) = true) :
    ∀ c ∈ s, Text.isSpace c = false := fun c hc => by
  simpa using List.all_eq_true.mp h c hc

/-- Base64 has no white space. -/
theorem toBase64_noSpace (b : Bytes) : ∀ c ∈ toBase64 b, Text.isSpace c = false := by
  have halphabet : ∀ c ∈ '=' :: Encoding.alphabet, Text.isSpace c = false :=
    noSpace_of_all (by decide)
  exact fun c hc => halphabet c (Encoding.base64_mem _ c hc)

theorem toBase64_ne_nil {b : Bytes} (h : b ≠ []) : toBase64 b ≠ [] := by
  intro hnil
  have hback := ofBase64_toBase64 b
  rw [hnil] at hback
  exact h hback.symm

/-- The first two words of a line. -/
theorem words_line {type : Text} (hne : type ≠ []) (htype : ∀ c ∈ type, Text.isSpace c = false)
    {b : Bytes} (hb : b ≠ []) {tail : Text} (htail : tail = [] ∨ ∃ t, tail = ' ' :: t) :
    ∃ more, Text.words (type ++ ' ' :: (toBase64 b ++ tail)) = type :: toBase64 b :: more := by
  rw [words_append hne htype]
  rcases htail with rfl | ⟨t, rfl⟩
  · exact ⟨[], by rw [List.append_nil, words_singleton (toBase64_ne_nil hb) (toBase64_noSpace b)]⟩
  · exact ⟨_, by rw [words_append (toBase64_ne_nil hb) (toBase64_noSpace b)]⟩

/-! ## Keys -/

def blob (pk : Bytes) : Bytes := frame (ofUtf8 ED25519) ++ frame pk

theorem size_names : size ED25519 < 256 ^ 4 ∧ size ED25519_CERT < 256 ^ 4 := by decide

theorem ed25519Blob_eq {pk : Bytes} (h : pk.length = 32) : ed25519Blob pk = .ok (blob pk) := by
  unfold ed25519Blob
  exact bind_eq_ok.mpr ⟨_, sshText_ok.mpr ⟨size_names.1, rfl⟩,
    bind_eq_ok.mpr ⟨_, sshString_ok.mpr ⟨by rw [h]; decide, rfl⟩, rfl⟩⟩

theorem blob_ne_nil (pk : Bytes) : blob pk ≠ [] := by
  intro hnil
  have := congrArg List.length hnil
  rw [blob, List.length_append, length_frame] at this
  simp at this

/-- The key of a line is read back. -/
theorem parse_ed25519Line {pk : Bytes} (h : pk.length = 32) {comment line : Text}
    (hline : ed25519Line pk comment = .ok line) : parseEd25519PublicKey line = .ok pk := by
  unfold ed25519Line at hline
  rw [ed25519Blob_eq h] at hline
  have hline := (Except.ok.inj hline).symm
  have htail : (if comment = [] then [] else ' ' :: comment) = [] ∨
      ∃ t, (if comment = [] then [] else ' ' :: comment) = ' ' :: t := by
    split_ifs <;> simp
  obtain ⟨more, hwords⟩ :=
    words_line (by decide : ED25519 ≠ []) (noSpace_of_all (by decide)) (blob_ne_nil pk) htail
  have hshape : line = ED25519 ++ ' ' :: (toBase64 (blob pk) ++
      if comment = [] then [] else ' ' :: comment) := by
    rw [hline]
    simp
  have hpk := readString_frame (b := pk) (by rw [h]; decide) []
  rw [List.append_nil] at hpk
  rw [parseEd25519PublicKey, hshape, hwords]
  dsimp only
  rw [if_neg (not_not.mpr rfl), ofBase64_toBase64, blob,
    readText_frame (by rw [length_ofUtf8]; exact size_names.1)]
  change (do
    if ED25519 ≠ ED25519 then throw "key type does not match".toList
    let (pk', _) ← readString (frame pk)
    if pk'.length ≠ 32 then throw "bad ed25519 key length".toList
    return pk' : Except Text Bytes) = _
  rw [if_neg (not_not.mpr rfl), hpk]
  change (do
    if pk.length ≠ 32 then throw "bad ed25519 key length".toList
    return pk : Except Text Bytes) = _
  rw [if_neg (not_not.mpr h)]
  rfl

/-! ## Certificates -/

/-- The strings of the request fit behind their lengths. -/
structure Fits (req : CertRequest) : Prop where
  keyId : size req.keyId < 2 ^ 32
  principals : (req.principals.map fun p => 4 + size p).sum < 2 ^ 32
  critical : (req.critical.map optionSize).sum < 2 ^ 32
  granted : (req.granted.map optionSize).sum < 2 ^ 32

section
variable {ca : Signer} {req : CertRequest} {pk : Bytes}

/-- The part that is signed. -/
def bodyOf (ca : Signer) (req : CertRequest) (pk : Bytes) : Bytes :=
  [frame (ofUtf8 ED25519_CERT), frame ca.nonce, frame pk, bigEndian 8 req.serial, bigEndian 4 1,
    frame (ofUtf8 req.keyId), frame (frames req.principals), bigEndian 8 (req.validAfter.1 / 1000),
    bigEndian 8 (req.validBefore.1 / 1000), frame (optionFrames (ca.sort req.critical)),
    frame (optionFrames (ca.sort req.granted)), frame [], frame (blob ca.caPk)].flatten

def signatureOf (ca : Signer) (body : Bytes) : Bytes :=
  frame (frame (ofUtf8 ED25519) ++ frame (ca.sign body))

def certLine (ca : Signer) (req : CertRequest) (pk : Bytes) : Text :=
  ED25519_CERT ++ ' ' :: toBase64 (bodyOf ca req pk ++ signatureOf ca (bodyOf ca req pk)) ++
    ' ' :: req.keyId

theorem length_sorted (ca : Signer) (pairs : List (Text × Text)) :
    (optionFrames (ca.sort pairs)).length = (pairs.map optionSize).sum := by
  rw [length_optionFrames]
  exact ((ca.sort_perm pairs).map optionSize).sum_eq

theorem pairFits_of_sum {pairs : List (Text × Text)}
    (h : (pairs.map optionSize).sum < 2 ^ 32) : ∀ pair ∈ pairs, PairFits pair := by
  intro pair hpair
  have hle : optionSize pair ≤ (pairs.map optionSize).sum :=
    List.single_le_sum (fun _ _ => Nat.zero_le _) _ (List.mem_map_of_mem hpair)
  have hsize : optionSize pair = 8 + size pair.1 + (dataOf pair.2).length := by
    rw [optionSize, length_dataOf]
  constructor
  · omega
  · omega

theorem mapM_id_ok {xs : List (Except Text Bytes)} {ys : List Bytes} :
    xs.mapM id = .ok ys ↔ List.Forall₂ (fun x y => x = .ok y) xs ys := by
  induction xs generalizing ys with
  | nil =>
    rw [List.mapM_nil, List.forall₂_nil_left_iff]
    exact ⟨fun h => (Except.ok.inj h).symm, fun h => h ▸ rfl⟩
  | cons x xs ih =>
    rw [List.mapM_cons, bind_eq_ok, List.forall₂_cons_left_iff]
    constructor
    · rintro ⟨y, hy, hrest⟩
      obtain ⟨ys', hys, h⟩ := bind_eq_ok.mp hrest
      exact ⟨y, ys', hy, ih.mp hys, (Except.ok.inj h).symm⟩
    · rintro ⟨y, ys', hy, hys, rfl⟩
      exact ⟨y, hy, bind_eq_ok.mpr ⟨ys', ih.mpr hys, rfl⟩⟩

theorem length_signatureOf (ca : Signer) (body : Bytes) :
    (frame (ofUtf8 ED25519) ++ frame (ca.sign body)).length < 256 ^ 4 := by
  have hsize : size ED25519 = 11 := by decide
  rw [List.length_append, length_frame, length_frame, length_ofUtf8, hsize, ca.sign_length]
  decide

theorem principals_ok {out : Bytes} :
    (do sshString (← req.principals.mapM sshText).flatten : Except Text Bytes) = .ok out ↔
      (frames req.principals).length < 256 ^ 4 ∧ out = frame (frames req.principals) := by
  rw [bind_eq_ok]
  constructor
  · rintro ⟨parts, hparts, h⟩
    obtain ⟨-, rfl⟩ := (mapM_ok_iff (fun _ _ => sshText_ok)).mp hparts
    exact sshString_ok.mp h
  · rintro ⟨hlen, rfl⟩
    exact ⟨_, (mapM_ok_iff (fun _ _ => sshText_ok)).mpr ⟨size_lt_of_frames hlen, rfl⟩,
      sshString_ok.mpr ⟨hlen, rfl⟩⟩

theorem optionString_ok {pairs : List (Text × Text)} {out : Bytes} :
    (do sshString (← options ca pairs) : Except Text Bytes) = .ok out ↔
      (pairs.map optionSize).sum < 256 ^ 4 ∧ out = frame (optionFrames (ca.sort pairs)) := by
  rw [bind_eq_ok]
  constructor
  · rintro ⟨b, hb, h⟩
    obtain ⟨-, rfl⟩ := options_ok.mp hb
    obtain ⟨hlen, rfl⟩ := sshString_ok.mp h
    rw [length_sorted] at hlen
    exact ⟨hlen, rfl⟩
  · rintro ⟨hlen, rfl⟩
    refine ⟨_, options_ok.mpr ⟨fun pair hpair => ?_, rfl⟩, sshString_ok.mpr ⟨?_, rfl⟩⟩
    · exact pairFits_of_sum hlen pair ((ca.sort_perm pairs).mem_iff.mp hpair)
    · rwa [length_sorted]

theorem caBlob_ok {out : Bytes} :
    (do sshString (← ed25519Blob ca.caPk) : Except Text Bytes) = .ok out ↔
      out = frame (blob ca.caPk) := by
  have hsize : size ED25519 = 11 := by decide
  have hlen : (blob ca.caPk).length < 256 ^ 4 := by
    rw [blob, List.length_append, length_frame, length_frame, length_ofUtf8, hsize, ca.caPk_length]
    decide
  rw [ed25519Blob_eq ca.caPk_length]
  exact sshString_ok.trans (and_iff_right hlen)

/-- A certificate is signed exactly when the strings fit. -/
theorem signUserCertificate_ok (hpk : pk.length = 32)
    (hkey : parseEd25519PublicKey req.publicKey = .ok pk) (hserial : req.serial < 2 ^ 64)
    {line : Text} :
    signUserCertificate ca req = .ok line ↔ Fits req ∧ line = certLine ca req pk := by
  have hafter := req.validAfter.2
  have hbefore := req.validBefore.2
  unfold signUserCertificate
  rw [hkey, bind_eq_ok]
  constructor
  · rintro ⟨_, hok, h⟩
    cases hok
    obtain ⟨parts, hparts, h⟩ := bind_eq_ok.mp h
    rw [mapM_id_ok] at hparts
    simp only [List.forall₂_cons_left_iff, List.forall₂_nil_left_iff] at hparts
    obtain ⟨b1, _, h1, ⟨b2, _, h2, ⟨b3, _, h3, ⟨b4, _, h4, ⟨b5, _, h5, ⟨b6, _, h6, ⟨b7, _, h7,
      ⟨b8, _, h8, ⟨b9, _, h9, ⟨b10, _, h10, ⟨b11, _, h11, ⟨b12, _, h12, ⟨b13, _, h13, rfl, rfl⟩, rfl⟩,
      rfl⟩, rfl⟩, rfl⟩, rfl⟩, rfl⟩, rfl⟩, rfl⟩, rfl⟩, rfl⟩, rfl⟩, rfl⟩ := hparts
    obtain ⟨-, rfl⟩ := sshText_ok.mp h1
    obtain ⟨-, rfl⟩ := sshString_ok.mp h2
    obtain ⟨-, rfl⟩ := sshString_ok.mp h3
    obtain ⟨-, rfl⟩ := writeUint_ok.mp h4
    obtain ⟨-, rfl⟩ := writeUint_ok.mp h5
    obtain ⟨hkeyId, rfl⟩ := sshText_ok.mp h6
    obtain ⟨hprincipals, rfl⟩ := principals_ok.mp h7
    obtain ⟨-, rfl⟩ := writeUint_ok.mp h8
    obtain ⟨-, rfl⟩ := writeUint_ok.mp h9
    obtain ⟨hcritical, rfl⟩ := optionString_ok.mp h10
    obtain ⟨hgranted, rfl⟩ := optionString_ok.mp h11
    obtain ⟨-, rfl⟩ := sshString_ok.mp h12
    obtain rfl := caBlob_ok.mp h13
    rw [length_frames] at hprincipals
    refine ⟨⟨hkeyId, hprincipals, hcritical, hgranted⟩, ?_⟩
    obtain ⟨name, hname, h⟩ := bind_eq_ok.mp h
    obtain ⟨signature, hsignature, h⟩ := bind_eq_ok.mp h
    obtain ⟨-, rfl⟩ := sshText_ok.mp hname
    obtain ⟨-, rfl⟩ := sshString_ok.mp hsignature
    obtain ⟨whole, hwhole, h⟩ := bind_eq_ok.mp h
    obtain ⟨-, rfl⟩ := sshString_ok.mp hwhole
    exact (Except.ok.inj h).symm
  · rintro ⟨hfits, rfl⟩
    have hprincipals := hfits.principals
    rw [← length_frames] at hprincipals
    have hparts : List.Forall₂ (fun x y => x = Except.ok (ε := Text) y) [sshText ED25519_CERT,
        sshString ca.nonce, sshString pk, u64 req.serial, u32 1, sshText req.keyId,
        (do sshString (← req.principals.mapM sshText).flatten),
        u64 (req.validAfter.1 / 1000), u64 (req.validBefore.1 / 1000),
        (do sshString (← options ca req.critical)), (do sshString (← options ca req.granted)),
        sshString [], (do sshString (← ed25519Blob ca.caPk))] _ :=
      .cons (sshText_ok.mpr ⟨size_names.2, rfl⟩) <|
      .cons (sshString_ok.mpr ⟨by rw [ca.nonce_length]; decide, rfl⟩) <|
      .cons (sshString_ok.mpr ⟨by rw [hpk]; decide, rfl⟩) <|
      .cons (writeUint_ok.mpr ⟨hserial, rfl⟩) <|
      .cons (writeUint_ok.mpr ⟨by decide, rfl⟩) <|
      .cons (sshText_ok.mpr ⟨hfits.keyId, rfl⟩) <|
      .cons (principals_ok.mpr ⟨hprincipals, rfl⟩) <|
      .cons (writeUint_ok.mpr ⟨by omega, rfl⟩) <|
      .cons (writeUint_ok.mpr ⟨by omega, rfl⟩) <|
      .cons (optionString_ok.mpr ⟨hfits.critical, rfl⟩) <|
      .cons (optionString_ok.mpr ⟨hfits.granted, rfl⟩) <|
      .cons (sshString_ok.mpr ⟨by decide, rfl⟩) <|
      .cons (caBlob_ok.mpr rfl) .nil
    have hsignature := length_signatureOf ca (bodyOf ca req pk)
    refine ⟨pk, rfl, bind_eq_ok.mpr ⟨_, mapM_id_ok.mpr hparts, ?_⟩⟩
    refine bind_eq_ok.mpr ⟨_, sshText_ok.mpr ⟨size_names.1, rfl⟩, bind_eq_ok.mpr ⟨_, sshString_ok.mpr
      ⟨by rw [ca.sign_length]; decide, rfl⟩, bind_eq_ok.mpr ⟨_, sshString_ok.mpr
      ⟨hsignature, rfl⟩, rfl⟩⟩⟩

theorem readString_bind {α : Type} {b : Bytes} (h : b.length < 256 ^ 4) (rest : Bytes)
    (k : Bytes × Bytes → Except Text α) : (readString (frame b ++ rest) >>= k) = k (b, rest) := by
  rw [readString_frame h]
  rfl

theorem readText_bind {α : Type} {s : Text} (h : size s < 256 ^ 4) (rest : Bytes)
    (k : Text × Bytes → Except Text α) :
    (readText (frame (ofUtf8 s) ++ rest) >>= k) = k (s, rest) := by
  rw [readText_frame (by rwa [length_ofUtf8])]
  rfl

theorem readUint_bind {α : Type} {w n : ℕ} (h : n < 256 ^ w) (rest : Bytes)
    (k : ℕ × Bytes → Except Text α) : (readUint w (bigEndian w n ++ rest) >>= k) = k (n, rest) := by
  rw [readUint_bigEndian h]
  rfl

theorem ok_bind {α β : Type} {x : Except Text α} {a : α} (h : x = .ok a)
    (k : α → Except Text β) : (x >>= k) = k a := by
  rw [h]
  rfl

/-- The options as they are collected. -/
def collect (pairs : List (Text × Text)) : List (Text × Text) :=
  pairs.foldl (fun out pair => assign out pair.1 pair.2) []

/-- What is read from a certificate. -/
theorem parse_certLine {verify : Bytes → Bytes → Bytes → Except Text Bool} (hfits : Fits req)
    (hpk : pk.length = 32) (hserial : req.serial < 2 ^ 64)
    (hverify : verify ca.caPk (bodyOf ca req pk) (ca.sign (bodyOf ca req pk)) = .ok true) :
    parseCertificate verify (certLine ca req pk) =
      .ok ⟨ED25519_CERT, pk, req.serial, 1, req.keyId, req.principals,
        dateOf (req.validAfter.1 / 1000), dateOf (req.validBefore.1 / 1000),
        collect (ca.sort req.critical), objectKeys (collect (ca.sort req.granted)), ca.caPk, true⟩ := by
  have hafter := req.validAfter.2
  have hbefore := req.validBefore.2
  have hsize : size ED25519 = 11 := by decide
  have hnames : ED25519_CERT ≠ [] ∧ ∀ c ∈ ED25519_CERT, Text.isSpace c = false :=
    ⟨by decide, noSpace_of_all (by decide)⟩
  have hprincipals := hfits.principals
  rw [← length_frames] at hprincipals
  have hblob : (blob ca.caPk).length < 256 ^ 4 := by
    rw [blob, List.length_append, length_frame, length_frame, length_ofUtf8, hsize, ca.caPk_length]
    decide
  have hoptions : ∀ {pairs : List (Text × Text)}, (pairs.map optionSize).sum < 2 ^ 32 →
      (optionFrames (ca.sort pairs)).length < 256 ^ 4 ∧
      readOptions (optionFrames (ca.sort pairs)).length (optionFrames (ca.sort pairs)) [] =
        .ok (collect (ca.sort pairs)) := by
    intro pairs hsum
    refine ⟨by rwa [length_sorted], readOptions_frames (fun pair hpair => ?_) [] le_rfl⟩
    exact pairFits_of_sum hsum pair ((ca.sort_perm pairs).mem_iff.mp hpair)
  have hne : bodyOf ca req pk ++ signatureOf ca (bodyOf ca req pk) ≠ [] := by
    intro hnil
    have := congrArg List.length hnil
    rw [List.length_append, signatureOf, length_frame] at this
    simp at this
  obtain ⟨more, hwords⟩ := words_line hnames.1 hnames.2 hne (.inr ⟨req.keyId, rfl⟩)
  have hline : certLine ca req pk = ED25519_CERT ++ ' ' ::
      (toBase64 (bodyOf ca req pk ++ signatureOf ca (bodyOf ca req pk)) ++ ' ' :: req.keyId) := by
    rw [certLine]
    simp
  have hsigned : (bodyOf ca req pk ++ signatureOf ca (bodyOf ca req pk)).take
      ((bodyOf ca req pk ++ signatureOf ca (bodyOf ca req pk)).length -
        (signatureOf ca (bodyOf ca req pk)).length) = bodyOf ca req pk := by
    rw [List.length_append, Nat.add_sub_cancel, List.take_left]
  have hraw : bodyOf ca req pk ++ signatureOf ca (bodyOf ca req pk) =
      frame (ofUtf8 ED25519_CERT) ++ (frame ca.nonce ++ (frame pk ++ (bigEndian 8 req.serial ++
        (bigEndian 4 1 ++ (frame (ofUtf8 req.keyId) ++ (frame (frames req.principals) ++
        (bigEndian 8 (req.validAfter.1 / 1000) ++ (bigEndian 8 (req.validBefore.1 / 1000) ++
        (frame (optionFrames (ca.sort req.critical)) ++
        (frame (optionFrames (ca.sort req.granted)) ++ (frame [] ++ (frame (blob ca.caPk) ++
        signatureOf ca (bodyOf ca req pk))))))))))))) := by
    conv_lhs => arg 1; rw [bodyOf]
    simp only [List.flatten_cons, List.flatten_nil, List.append_assoc, List.nil_append]
  have hsignature : signatureOf ca (bodyOf ca req pk) =
      frame (frame (ofUtf8 ED25519) ++ frame (ca.sign (bodyOf ca req pk))) ++ [] :=
    (List.append_nil _).symm
  rw [hline, parseCertificate, hwords]
  dsimp only
  rw [ofBase64_toBase64]
  generalize hwhole : bodyOf ca req pk ++ signatureOf ca (bodyOf ca req pk) = raw at *
  conv_lhs => arg 1; rw [hraw]
  rw [readText_bind size_names.2]
  dsimp only
  rw [if_neg (not_not.mpr rfl), readString_bind (by rw [ca.nonce_length]; decide)]
  dsimp only
  rw [readString_bind (by rw [hpk]; decide)]
  dsimp only
  rw [readUint_bind hserial]
  dsimp only
  rw [readUint_bind (by decide)]
  dsimp only
  rw [readText_bind hfits.keyId]
  dsimp only
  rw [readString_bind hprincipals]
  dsimp only
  rw [ok_bind (readTexts_frames (size_lt_of_frames hprincipals) le_rfl), readUint_bind (by omega)]
  dsimp only
  rw [readUint_bind (by omega)]
  dsimp only
  rw [readString_bind (hoptions hfits.critical).1]
  dsimp only
  rw [ok_bind (hoptions hfits.critical).2, readString_bind (hoptions hfits.granted).1]
  dsimp only
  rw [ok_bind (hoptions hfits.granted).2, readString_bind (by decide)]
  dsimp only
  rw [readString_bind hblob]
  dsimp only
  rw [hsigned, hsignature, readString_bind (length_signatureOf ca _)]
  dsimp only
  rw [readText_bind size_names.1]
  dsimp only
  rw [← List.append_nil (frame (ca.sign _)), readString_bind (by rw [ca.sign_length]; decide), blob]
  dsimp only
  rw [readText_bind size_names.1]
  dsimp only
  rw [← List.append_nil (frame ca.caPk), readString_bind (by rw [ca.caPk_length]; decide)]
  dsimp only
  rw [ok_bind hverify]
  rfl

/-- The certificate says what was requested. -/
structure Same (ca : Signer) (req : CertRequest) (pk : Bytes) (c : ParsedCertificate) : Prop where
  publicKey : c.publicKey = pk
  serial : c.serial = req.serial
  keyId : c.keyId = req.keyId
  principals : c.principals = req.principals
  sourceAddress : req.sourceAddresses ≠ [] → c.criticalOptions.lookup "source-address".toList =
    some (Text.join [','] req.sourceAddresses)
  extensions : ∀ e, e ∈ c.extensions ↔ e ∈ req.names
  validAfter : c.validAfter = some (req.validAfter.1 / 1000 * 1000)
  validBefore : c.validBefore = some (req.validBefore.1 / 1000 * 1000)
  certType : c.certType = 1
  signatureKey : c.signatureKey = ca.caPk
  signatureValid : c.signatureValid = true

theorem mem_extensions (ca : Signer) (req : CertRequest) (e : Text) :
    e ∈ objectKeys (collect (ca.sort req.granted)) ↔ e ∈ req.names ∧ e ≠ "__proto__".toList := by
  have hperm := (ca.sort_perm req.granted).map Prod.fst
  have hnames : req.granted.map Prod.fst = req.names := by
    rw [CertRequest.granted, List.map_map]
    exact List.map_id _
  rw [mem_objectKeys, collect, mem_keys_collect, hperm.mem_iff, hnames]
  simp

theorem lookup_source (ca : Signer) {req : CertRequest} (h : req.sourceAddresses ≠ []) :
    (collect (ca.sort req.critical)).lookup "source-address".toList =
      some (Text.join [','] req.sourceAddresses) := by
  have hcritical : req.critical =
      [("source-address".toList, Text.join [','] req.sourceAddresses)] := if_neg h
  have hperm := ca.sort_perm req.critical
  rw [hcritical, List.perm_singleton] at hperm
  rw [hcritical, hperm]
  rfl

theorem dateOf_date (t : Date) : dateOf (t.1 / 1000) = some (t.1 / 1000 * 1000) := by
  have := t.2
  exact if_pos (by omega)

/-- A certificate says what was requested exactly when the strings fit and no extension is called
`__proto__`. -/
theorem roundTrip_iff (ca : Signer) (verify : Bytes → Bytes → Bytes → Except Text Bool)
    (hverify : ∀ m, verify ca.caPk m (ca.sign m) = .ok true) (pk : Bytes) (hpk : pk.length = 32)
    (comment : Text) (req : CertRequest) (hline : ed25519Line pk comment = .ok req.publicKey)
    (hserial : req.serial < 2 ^ 64) :
    parseEd25519PublicKey req.publicKey = .ok pk ∧
      ((∃ line c, signUserCertificate ca req = .ok line ∧ parseCertificate verify line = .ok c ∧
        Same ca req pk c) ↔ Fits req ∧ "__proto__".toList ∉ req.names) := by
  have hkey := parse_ed25519Line hpk hline
  refine ⟨hkey, ?_⟩
  constructor
  · rintro ⟨line, c, hsign, hparse, hsame⟩
    obtain ⟨hfits, rfl⟩ := (signUserCertificate_ok hpk hkey hserial).mp hsign
    refine ⟨hfits, fun hproto => ?_⟩
    rw [parse_certLine hfits hpk hserial (hverify _)] at hparse
    have hin := (hsame.extensions "__proto__".toList).mpr hproto
    rw [← Except.ok.inj hparse] at hin
    exact ((mem_extensions ca req _).mp hin).2 rfl
  · rintro ⟨hfits, hproto⟩
    refine ⟨_, _, (signUserCertificate_ok hpk hkey hserial).mpr ⟨hfits, rfl⟩,
      parse_certLine hfits hpk hserial (hverify _), ?_⟩
    refine ⟨rfl, rfl, rfl, rfl, lookup_source ca, fun e => ?_, dateOf_date _, dateOf_date _, rfl, rfl,
      rfl⟩
    exact (mem_extensions ca req e).trans
      (and_iff_left_of_imp fun he hname => hproto (hname ▸ he))

end

/-! ## Examples -/

/-- A key pair whose signature is the start of the message. -/
def sampleSigner : Signer where
  caPk := List.replicate 32 7
  sign m := (m ++ List.replicate 64 0).take 64
  nonce := List.replicate 32 9
  sort := id
  caPk_length := List.length_replicate
  sign_length m := by simp
  nonce_length := List.length_replicate
  sort_perm l := List.Perm.refl l

def sampleVerify (_ m signature : Bytes) : Except Text Bool :=
  .ok (decide (signature = sampleSigner.sign m))

def sampleRequest (extensions : Option (List Text)) : CertRequest where
  publicKey := "ssh-ed25519 AAAAC3NzaC1lZDI1NTE5AAAAIAEBAQEBAQEBAQEBAQEBAQEBAQEBAQEBAQEBAQEBAQEB a@b".toList
  serial := 7
  keyId := "alice".toList
  principals := ["root".toList, []]
  validAfter := ⟨1700000000500, by decide⟩
  validBefore := ⟨1700003600000, by decide⟩
  sourceAddresses := ["10.0.0.0/8".toList]
  extensions := extensions

theorem sample_line : ed25519Line (List.replicate 32 1) "a@b".toList =
    .ok (sampleRequest none).publicKey := by decide

theorem roundTrip_iff_sample : ∃ line c,
    signUserCertificate sampleSigner (sampleRequest none) = .ok line ∧
      parseCertificate sampleVerify line = .ok c ∧
      Same sampleSigner (sampleRequest none) (List.replicate 32 1) c :=
  (roundTrip_iff sampleSigner sampleVerify (fun m => by simp [sampleVerify])
    (List.replicate 32 1) List.length_replicate "a@b".toList (sampleRequest none) sample_line
    (by decide)).2.mpr ⟨⟨by decide, by decide, by decide, by decide⟩,
      by decide⟩

def protoRequest : CertRequest := sampleRequest (some ["__proto__".toList])

/-- An extension of that name is signed and not read. -/
theorem proto_lost : ∃ line c, signUserCertificate sampleSigner protoRequest = .ok line ∧
    parseCertificate sampleVerify line = .ok c ∧ c.extensions = [] := by
  have hkey : parseEd25519PublicKey protoRequest.publicKey = .ok (List.replicate 32 1) :=
    parse_ed25519Line List.length_replicate sample_line
  have hfits : Fits protoRequest :=
    ⟨by decide, by decide, by decide, by decide⟩
  have hsign : signUserCertificate sampleSigner protoRequest =
      .ok (certLine sampleSigner protoRequest (List.replicate 32 1)) :=
    (signUserCertificate_ok List.length_replicate hkey (by decide)).mpr ⟨hfits, rfl⟩
  refine ⟨_, _, hsign, parse_certLine hfits List.length_replicate (by decide)
    (by simp [sampleVerify]), ?_⟩
  decide

end Prgd.SshCertificates
