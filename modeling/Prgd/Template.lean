import Prgd.JsValue

/-!
# Template references

`template.ts`: the path language inside double braces, the lookup in a
template context, and rendering of strings and of whole JSON values. A
reference is read behind `hasOwnProperty`, and secret variables show their
value in `tool` mode only; in `prompt` mode they show a placeholder made from
the key.

The regular expressions are written as the text functions they denote. A
reference is an opening pair, at least one character that is no brace, and a
closing pair; the white space around the path belongs to no group, and
`resolvePath` trims the path again.
-/
namespace Prgd.Template

abbrev Fields := List (Text × Text)

structure TemplateContext where
  trigger : JsValue := .undefined
  input : JsValue := .undefined
  steps : JsValue := .undefined
  vars : Option Fields := none
  secrets : Option Fields := none

inductive RenderMode where
  | prompt | tool
  deriving DecidableEq

/-- An own property of a record of texts that may be missing. -/
def ownText (record : Option Fields) (key : Text) : Option Text :=
  ((record.getD []).find? fun f => f.1 == key).map Prod.snd

def forbidden : List Text := ["__proto__".toList, "prototype".toList, "constructor".toList]

def maxDepth : ℕ := 32

def secretPlaceholder (key : Text) : Text := "[secret ".toList ++ key ++ [']']

/-! ## Paths -/

inductive Segment where
  | name (key : Text)
  | index (n : JsNumber)
  deriving DecidableEq

def isNameStart (c : Char) : Bool := Text.isLetter c || c == '_' || c == '$'
def isNamePart (c : Char) : Bool := Text.isWord c || c == '$' || c == '-'

/-- What the sticky expression of `parsePath` matches at one position, with
the number of characters it takes. -/
inductive Piece where
  | name (key : Text) (taken : ℕ)
  | bracket (part : Segment) (taken : ℕ)
  | dot
  | space

def pathPiece : Text → Option Piece
  | [] => none
  | '.' :: _ => some .dot
  | '[' :: '"' :: cs =>
      let key := cs.takeWhile fun c => c != '"' && c != ']'
      if Text.startsWith (cs.drop key.length) ['"', ']'] then
        some (.bracket (.name key) (key.length + 4))
      else none
  | '[' :: cs =>
      let ds := cs.takeWhile Text.isDigit
      if ds ≠ [] ∧ Text.startsWith (cs.drop ds.length) [']'] then
        some (.bracket (.index (.ofNat (Text.digitsValue ds))) (ds.length + 2))
      else none
  | c :: cs =>
      if isNameStart c then
        let key := c :: cs.takeWhile isNamePart
        some (.name key key.length)
      else if Text.isSpace c then some .space
      else none

/-- The loop of `parsePath`; `skip` characters of the last match are still to
be passed. -/
def pathLoop (expectSegment : Bool) : ℕ → Text → Option (List Segment × Bool)
  | _, [] => some ([], expectSegment)
  | skip + 1, _ :: cs => pathLoop expectSegment skip cs
  | 0, c :: cs =>
      match pathPiece (c :: cs) with
      | some (.name key taken) =>
          if expectSegment then
            (pathLoop false (taken - 1) cs).map fun r => (.name key :: r.1, r.2)
          else none
      | some (.bracket part taken) =>
          (pathLoop false (taken - 1) cs).map fun r => (part :: r.1, r.2)
      | some .dot => if expectSegment then none else pathLoop true 0 cs
      | some .space | none => none

def parsePath (path : Text) : Option (List Segment) :=
  match pathLoop true 0 path with
  | some (part :: rest, false) => some (part :: rest)
  | _ => none

/-- The walk of `resolvePath` below the root. -/
def follow (cur : JsValue) : List Segment → JsValue
  | [] => cur
  | .name key :: rest =>
      if key ∈ forbidden then .undefined
      else match cur.ownGet key with
        | none => .undefined
        | some v => follow v rest
  | .index n :: rest =>
      match cur.ownGet n.toText with
      | none => .undefined
      | some v => follow v rest

def resolveVar (ctx : TemplateContext) (mode : RenderMode) : List Segment → JsValue
  | [.name key] =>
      match ownText ctx.vars key, ownText ctx.secrets key with
      | some v, _ => .str v
      | none, some v => .str (if mode = .tool then v else secretPlaceholder key)
      | none, none => .undefined
  | _ => .undefined

def resolvePath (ctx : TemplateContext) (path : Text) (mode : RenderMode) : JsValue :=
  match parsePath (Text.trim path) with
  | some (.name root :: rest) =>
      if root = "vars".toList then resolveVar ctx mode rest
      else if root = "trigger".toList then follow ctx.trigger rest
      else if root = "steps".toList then follow ctx.steps rest
      else if root = "input".toList then follow ctx.input rest
      else .undefined
  | _ => .undefined

example : parsePath "steps.a[0][\"b c\"].d-e".toList =
    some [.name ['s', 't', 'e', 'p', 's'], .name ['a'], .index (.fin 0), .name ['b', ' ', 'c'],
      .name ['d', '-', 'e']] := by decide

/-! ## Rendering -/

/-- The module's own `stringify`: what a value looks like inside a text. -/
def stringify : JsValue → Text
  | .undefined | .null => []
  | .str s => s
  | .num n => n.toText
  | .bool b => (JsValue.bool b).toStr
  | v => v.stringify.getD []

def isBrace (c : Char) : Bool := c == '\x7b' || c == '\x7d'

/-- The path and the length of a reference that starts here. -/
def reference : Text → Option (Text × ℕ)
  | '\x7b' :: '\x7b' :: cs =>
      let body := cs.takeWhile fun c => !isBrace c
      if body ≠ [] ∧ Text.startsWith (cs.drop body.length) ['\x7d', '\x7d'] then
        some (body, body.length + 4)
      else none
  | _ => none

/-- `tpl.replace(REF, …)`. -/
def replaceRefs (value : Text → Text) : ℕ → Text → Text
  | _, [] => []
  | skip + 1, _ :: cs => replaceRefs value skip cs
  | 0, c :: cs =>
      match reference (c :: cs) with
      | some (path, taken) => value path ++ replaceRefs value (taken - 1) cs
      | none => c :: replaceRefs value 0 cs

/-- A text that is exactly one reference keeps the type of the value. -/
def renderString (tpl : Text) (ctx : TemplateContext) (mode : RenderMode) : JsValue :=
  match reference tpl with
  | some (path, taken) =>
      if taken = tpl.length then resolvePath ctx path mode
      else .str (replaceRefs (fun path => stringify (resolvePath ctx path mode)) 0 tpl)
  | none => .str (replaceRefs (fun path => stringify (resolvePath ctx path mode)) 0 tpl)

mutual
/-- Renders the strings inside a JSON value. The error is the message. -/
def render (value : JsValue) (ctx : TemplateContext) (mode : RenderMode) (depth : ℕ) :
    Except Text JsValue :=
  if maxDepth < depth then .error "template is nested too deeply".toList
  else match value with
    | .str s => .ok (renderString s ctx mode)
    | .arr items => (renderItems items ctx mode (depth + 1)).map .arr
    | .obj fields => (renderFields fields ctx mode (depth + 1)).map .obj
    | v => .ok v
def renderItems (items : List JsValue) (ctx : TemplateContext) (mode : RenderMode) (depth : ℕ) :
    Except Text (List JsValue) :=
  match items with
  | [] => .ok []
  | v :: vs => do
      let v ← render v ctx mode depth
      let vs ← renderItems vs ctx mode depth
      return v :: vs
def renderFields (fields : List (Text × JsValue)) (ctx : TemplateContext) (mode : RenderMode)
    (depth : ℕ) : Except Text (List (Text × JsValue)) :=
  match fields with
  | [] => .ok []
  | (k, v) :: vs =>
      if k ∈ forbidden then renderFields vs ctx mode depth
      else do
        let v ← render v ctx mode depth
        let vs ← renderFields vs ctx mode depth
        return (k, v) :: vs
end

def renderText (tpl : Text) (ctx : TemplateContext) (mode : RenderMode) : Text :=
  stringify (renderString tpl ctx mode)

/-! ## Rendering looks at references only -/

/-- The paths of the references in a text, read as `replaceRefs` reads them. -/
def refs : ℕ → Text → List Text
  | _, [] => []
  | skip + 1, _ :: cs => refs skip cs
  | 0, c :: cs =>
      match reference (c :: cs) with
      | some (path, taken) => path :: refs (taken - 1) cs
      | none => refs 0 cs

mutual
def valueRefs : JsValue → List Text
  | .str s => refs 0 s
  | .arr items => itemRefs items
  | .obj fields => fieldRefs fields
  | _ => []
def itemRefs : List JsValue → List Text
  | [] => []
  | v :: vs => valueRefs v ++ itemRefs vs
def fieldRefs : List (Text × JsValue) → List Text
  | [] => []
  | (_, v) :: fs => valueRefs v ++ fieldRefs fs
end

theorem replaceRefs_congr {value value' : Text → Text} {skip : ℕ} {s : Text}
    (h : ∀ path ∈ refs skip s, value path = value' path) :
    replaceRefs value skip s = replaceRefs value' skip s := by
  induction s generalizing skip with
  | nil => simp only [replaceRefs]
  | cons c cs ih =>
    cases skip with
    | succ skip =>
      simp only [refs] at h
      simp only [replaceRefs, ih h]
    | zero =>
      simp only [refs] at h
      simp only [replaceRefs]
      cases hr : reference (c :: cs) with
      | none =>
        simp only [hr] at h
        simp only [ih h]
      | some r =>
        simp only [hr, List.mem_cons, forall_eq_or_imp] at h
        simp only [h.1, ih h.2]

section
variable {c c' : TemplateContext} {mode : RenderMode}

/-- Two contexts that resolve the references of a template alike render it
alike. -/
theorem renderString_congr {tpl : Text}
    (h : ∀ path ∈ refs 0 tpl, resolvePath c path mode = resolvePath c' path mode) :
    renderString tpl c mode = renderString tpl c' mode := by
  have hreplace : replaceRefs (fun path => stringify (resolvePath c path mode)) 0 tpl =
      replaceRefs (fun path => stringify (resolvePath c' path mode)) 0 tpl :=
    replaceRefs_congr fun path hp => by rw [h path hp]
  unfold renderString
  rw [hreplace]
  cases hr : reference tpl with
  | none => rfl
  | some r =>
    have hmem : r.1 ∈ refs 0 tpl := by
      cases tpl with
      | nil => simp [reference] at hr
      | cons d ds => simp [refs, hr]
    simp only [h r.1 hmem]

mutual
theorem render_congr {v : JsValue} {depth : ℕ}
    (h : ∀ path ∈ valueRefs v, resolvePath c path mode = resolvePath c' path mode) :
    render v c mode depth = render v c' mode depth := by
  match v with
  | .str s =>
    simp only [valueRefs] at h
    simp only [render, renderString_congr h]
  | .arr items =>
    simp only [valueRefs] at h
    simp only [render, renderItems_congr h]
  | .obj fields =>
    simp only [valueRefs] at h
    simp only [render, renderFields_congr h]
  | .undefined | .null | .bool _ | .num _ => simp only [render]
theorem renderItems_congr {vs : List JsValue} {depth : ℕ}
    (h : ∀ path ∈ itemRefs vs, resolvePath c path mode = resolvePath c' path mode) :
    renderItems vs c mode depth = renderItems vs c' mode depth := by
  match vs with
  | [] => simp only [renderItems]
  | v :: vs =>
    simp only [itemRefs, List.mem_append, or_imp, forall_and] at h
    simp only [renderItems, render_congr h.1, renderItems_congr h.2]
theorem renderFields_congr {fs : List (Text × JsValue)} {depth : ℕ}
    (h : ∀ path ∈ fieldRefs fs, resolvePath c path mode = resolvePath c' path mode) :
    renderFields fs c mode depth = renderFields fs c' mode depth := by
  match fs with
  | [] => simp only [renderFields]
  | (k, v) :: fs =>
    simp only [fieldRefs, List.mem_append, or_imp, forall_and] at h
    simp only [renderFields, render_congr h.1, renderFields_congr h.2]
end

end

/-- The contexts differ in secret values only: same data, same plain variables
and the same secret keys. -/
structure SameButSecrets (c c' : TemplateContext) : Prop where
  trigger : c.trigger = c'.trigger
  input : c.input = c'.input
  steps : c.steps = c'.steps
  vars : c.vars = c'.vars
  keys : ∀ key, (ownText c.secrets key).isSome = (ownText c'.secrets key).isSome

/-- In `prompt` mode a path shows at most that a secret key exists. -/
theorem resolvePath_prompt {c c' : TemplateContext} (h : SameButSecrets c c') (path : Text) :
    resolvePath c path .prompt = resolvePath c' path .prompt := by
  have hvar : ∀ rest, resolveVar c .prompt rest = resolveVar c' .prompt rest := by
    intro rest
    unfold resolveVar
    split
    · rename_i key
      have hkey := h.keys key
      rw [h.vars]
      cases ownText c'.vars key with
      | some v => rfl
      | none =>
        cases hc : ownText c.secrets key <;> cases hc' : ownText c'.secrets key
        · rfl
        · simp [hc, hc'] at hkey
        · simp [hc, hc'] at hkey
        · rfl
    · rfl
  unfold resolvePath
  simp only [hvar, h.trigger, h.steps, h.input]

end Prgd.Template
