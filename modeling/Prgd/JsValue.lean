import Prgd.JsNumber

/-!
# Values

The JSON values of the language together with `undefined`, which references to
missing data yield. An object is the list of its own enumerable properties in
`Object.entries` order; the code only builds objects with distinct keys.

`ownGet` is a property read behind `hasOwnProperty`: on an array the own keys
are the canonical indices and `length`. `stringify` is `JSON.stringify`, which
has no text for `undefined` and leaves out properties that hold it.
-/
namespace Prgd

inductive JsValue where
  | undefined
  | null
  | bool (value : Bool)
  | num (value : JsNumber)
  | str (value : Text)
  | arr (items : List JsValue)
  | obj (fields : List (Text × JsValue))

namespace JsValue

mutual
def beq : JsValue → JsValue → Bool
  | .undefined, .undefined => true
  | .null, .null => true
  | .bool a, .bool b => a == b
  | .num a, .num b => decide (a = b)
  | .str a, .str b => a == b
  | .arr a, .arr b => beqItems a b
  | .obj a, .obj b => beqFields a b
  | _, _ => false
def beqItems : List JsValue → List JsValue → Bool
  | [], [] => true
  | v :: vs, w :: ws => beq v w && beqItems vs ws
  | _, _ => false
def beqFields : List (Text × JsValue) → List (Text × JsValue) → Bool
  | [], [] => true
  | (j, v) :: vs, (k, w) :: ws => j == k && beq v w && beqFields vs ws
  | _, _ => false
end

mutual
theorem beq_iff (v w : JsValue) : beq v w = true ↔ v = w := by
  cases v <;> cases w <;> simp [beq, beqItems_iff, beqFields_iff]
theorem beqItems_iff (vs ws : List JsValue) : beqItems vs ws = true ↔ vs = ws := by
  match vs, ws with
  | [], [] => simp [beqItems]
  | [], _ :: _ | _ :: _, [] => simp [beqItems]
  | v :: vs, w :: ws => simp [beqItems, beq_iff v w, beqItems_iff vs ws]
theorem beqFields_iff (vs ws : List (Text × JsValue)) : beqFields vs ws = true ↔ vs = ws := by
  match vs, ws with
  | [], [] => simp [beqFields]
  | [], _ :: _ | _ :: _, [] => simp [beqFields]
  | (j, v) :: vs, (k, w) :: ws =>
    simp [beqFields, beq_iff v w, beqFields_iff vs ws, and_assoc]
end

instance : DecidableEq JsValue := fun v w => decidable_of_iff _ (beq_iff v w)

instance : Inhabited JsValue := ⟨.undefined⟩

/-- The first property of that name. -/
def field (fields : List (Text × JsValue)) (key : Text) : Option JsValue :=
  (fields.find? fun f => f.1 == key).map Prod.snd

/-- The canonical spelling of an array index. -/
def indexOf (key : Text) : Option ℕ :=
  if key.all Text.isDigit && JsNumber.digits (Text.digitsValue key) == key then
    some (Text.digitsValue key)
  else none

/-- `v[key]` when `key` is an own property of the object or array `v`. -/
def ownGet : JsValue → Text → Option JsValue
  | .obj fields, key => field fields key
  | .arr items, key =>
      if key == "length".toList then some (.num (.ofNat items.length))
      else (indexOf key).bind fun i => items[i]?
  | _, _ => none

/-- `typeof v === 'object'`, with `null` left out. -/
def isObject : JsValue → Bool
  | .arr _ | .obj _ => true
  | _ => false

def isNullish : JsValue → Bool
  | .undefined | .null => true
  | _ => false

/-! ## Conversions -/

mutual
/-- `String(v)`. -/
def toStr : JsValue → Text
  | .undefined => "undefined".toList
  | .null => "null".toList
  | .bool true => "true".toList
  | .bool false => "false".toList
  | .num n => n.toText
  | .str s => s
  | .arr items => Text.join [','] (toStrItems items)
  | .obj _ => "[object Object]".toList
/-- The parts an array is joined from: nullish items are empty. -/
def toStrItems : List JsValue → List Text
  | [] => []
  | v :: vs => (if isNullish v then [] else toStr v) :: toStrItems vs
end

/-- `Number(v)`. -/
def toNumber : JsValue → JsNumber
  | .undefined => .nan
  | .null => .fin 0
  | .bool true => .fin 1
  | .bool false => .fin 0
  | .num n => n
  | .str s => .ofText s
  | .arr items => .ofText (toStr (.arr items))
  | .obj _ => .nan

/-! ## JSON text -/

def hexDigit (n : ℕ) : Char := Char.ofNat (if n < 10 then 48 + n else 87 + n)

def quoteChar (c : Char) : Text :=
  match c with
  | '"' => "\\\"".toList
  | '\\' => "\\\\".toList
  | '\n' => "\\n".toList
  | '\r' => "\\r".toList
  | '\t' => "\\t".toList
  | c =>
      if c.toNat = 8 then "\\b".toList
      else if c.toNat = 12 then "\\f".toList
      else if c.toNat < 32 then
        "\\u00".toList ++ [hexDigit (c.toNat / 16), hexDigit (c.toNat % 16)]
      else [c]

def quote (s : Text) : Text := '"' :: s.flatMap quoteChar ++ ['"']

mutual
/-- `JSON.stringify`, `none` for `undefined`. -/
def stringify : JsValue → Option Text
  | .undefined => none
  | .null => some "null".toList
  | .bool true => some "true".toList
  | .bool false => some "false".toList
  | .num n => some (if n.isFinite then n.toText else "null".toList)
  | .str s => some (quote s)
  | .arr items => some ('[' :: Text.join [','] (stringifyItems items) ++ [']'])
  | .obj fields => some ('\x7b' :: Text.join [','] (stringifyFields fields) ++ ['\x7d'])
def stringifyItems : List JsValue → List Text
  | [] => []
  | v :: vs => (stringify v).getD "null".toList :: stringifyItems vs
def stringifyFields : List (Text × JsValue) → List Text
  | [] => []
  | (k, v) :: vs =>
      match stringify v with
      | none => stringifyFields vs
      | some t => (quote k ++ ':' :: t) :: stringifyFields vs
end

end JsValue
end Prgd
