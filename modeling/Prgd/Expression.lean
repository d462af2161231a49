import Prgd.Template

/-!
# Conditions

`expression.ts`: the tokenizer, the recursive descent parser and the evaluator
of workflow conditions. Syntax errors carry the code's messages. The positions
in them are UTF-16 positions, and for a character outside the basic plane the
code shows only its first half, which has no counterpart here.

The parser's functions carry their depth `d`. It only grows and is checked in
`expr` and `unary`, so the recursion is on `levels - d`; the two loops consume
an operator in each round, so the number of tokens bounds them.

`lower` stands for `String.prototype.toLowerCase`, which needs the Unicode case
tables. Nothing here depends on what it does.
-/
namespace Prgd.Expression
open Template

inductive Op where
  | seq | sne | eq | ne | ge | le | and | or | gt | lt | not | contains
  deriving DecidableEq

/-- The text of an operator token. -/
def Op.text : Op → Text
  | .seq => "===".toList
  | .sne => "!==".toList
  | .eq => "==".toList
  | .ne => "!=".toList
  | .ge => ">=".toList
  | .le => "<=".toList
  | .and => "&&".toList
  | .or => "||".toList
  | .gt => ">".toList
  | .lt => "<".toList
  | .not => "!".toList
  | .contains => "contains".toList

inductive Keyword where
  | true | false | null
  deriving DecidableEq

inductive Tok where
  | num (v : JsNumber)
  | str (v : Text)
  | kw (v : Keyword)
  | ref (v : Text)
  | op (v : Op)
  | lp
  | rp
  deriving DecidableEq

inductive Node where
  | lit (v : JsValue)
  | ref (path : Text)
  | not (e : Node)
  | and (l r : Node)
  | or (l r : Node)
  | cmp (op : Op) (l r : Node)

/-- The message of an `ExpressionError`. -/
abbrev ExpressionError := Text

def maxLength : ℕ := 2000
def maxDepth : ℕ := 40

/-! ## Tokens -/

/-- The operators in the order in which they are tried. -/
def ops : List Op := [.seq, .sne, .eq, .ne, .ge, .le, .and, .or, .gt, .lt, .not]

/-- The text of a string literal behind its opening quote, and how many
characters it takes including the closing quote. -/
def stringBody (quote : Char) : Text → Option (Text × ℕ)
  | [] => none
  | c :: cs =>
      if c = quote then some ([], 1)
      else if c = '\\' then
        match cs with
        | [] => none
        | e :: cs => (stringBody quote cs).map fun r => (e :: r.1, r.2 + 2)
      else (stringBody quote cs).map fun r => (c :: r.1, r.2 + 1)

/-- The optional exponent of a number; a malformed one is not taken. -/
def exponentPart : Text → Text
  | c :: cs =>
      if c = 'e' ∨ c = 'E' then
        let sign := if Text.startsWith cs ['+'] || Text.startsWith cs ['-'] then cs.take 1 else []
        let ds := (cs.drop sign.length).takeWhile Text.isDigit
        if ds = [] then [] else c :: sign ++ ds
      else []
  | [] => []

/-- The digits of a number: whole part with an optional fraction, or a
fraction alone. -/
def mantissa (s : Text) : Text :=
  let whole := s.takeWhile Text.isDigit
  let fraction := match s.drop whole.length with
    | '.' :: cs => let ds := cs.takeWhile Text.isDigit; if ds = [] then [] else '.' :: ds
    | _ => []
  whole ++ fraction

/-- What the number expression matches at the start of `s`. -/
def numberText (s : Text) : Option Text :=
  let sign := if Text.startsWith s ['-'] then ['-'] else []
  let digits := mantissa (s.drop sign.length)
  if digits = [] then none
  else some (sign ++ digits ++ exponentPart (s.drop (sign.length + digits.length)))

def isWordPart (c : Char) : Bool :=
  Text.isWord c || c == '$' || c == '.' || c == '-' || c == '[' || c == ']'

def wordToken (w : Text) : Tok :=
  if w = "true".toList then .kw .true
  else if w = "false".toList then .kw .false
  else if w = "null".toList then .kw .null
  else if w = "contains".toList then .op .contains
  else if w = "and".toList then .op .and
  else if w = "or".toList then .op .or
  else if w = "not".toList then .op .not
  else .ref w

/-- A minus sign starts a number at the start and behind an operator or an
opening parenthesis. -/
def signAllowed : Option Tok → Bool
  | none | some (.op _) | some .lp => true
  | _ => false

/-- The token at the start of `c :: cs`, which is no white space, with the
number of characters it takes. -/
def token (prev : Option Tok) (pos : ℕ) (c : Char) (cs : Text) :
    Except ExpressionError (Tok × ℕ) :=
  if Text.startsWith (c :: cs) ['\x7b', '\x7b'] then
    match Text.breakOn ['\x7d', '\x7d'] (cs.drop 1) with
    | none => .error "unclosed \x7b\x7b".toList
    | some (path, _) => .ok (.ref (Text.trim path), path.length + 4)
  else if c = '(' then .ok (.lp, 1)
  else if c = ')' then .ok (.rp, 1)
  else if c = '"' ∨ c = '\'' then
    match stringBody c cs with
    | none => .error "unclosed string".toList
    | some (s, taken) => .ok (.str s, taken + 1)
  else match (numberText (c :: cs)).filter fun _ => c ≠ '-' || signAllowed prev with
    | some n => .ok (.num (.ofText n), n.length)
    | none =>
      match ops.find? fun o => Text.startsWith (c :: cs) o.text with
      | some o => .ok (.op o, o.text.length)
      | none =>
        if isNameStart c then
          let w := c :: cs.takeWhile isWordPart
          .ok (wordToken w, w.length)
        else .error ("unexpected character \"".toList ++ [c] ++ "\" at ".toList ++
          JsNumber.digits pos)

/-- The loop of `tokenize`, with the previous token and the position; `skip`
characters of the last token are still to be passed. -/
def tokens (prev : Option Tok) (pos : ℕ) : ℕ → Text → Except ExpressionError (List Tok)
  | _, [] => .ok []
  | skip + 1, c :: cs => tokens prev (pos + Text.length16 [c]) skip cs
  | 0, c :: cs =>
      if Text.isSpace c then tokens prev (pos + Text.length16 [c]) 0 cs
      else do
        let (t, taken) ← token prev pos c cs
        return t :: (← tokens (some t) (pos + Text.length16 [c]) (taken - 1) cs)

def tokenize (src : Text) : Except ExpressionError (List Tok) :=
  if maxLength < Text.length16 src then
    .error "expression is longer than 2000 characters".toList
  else tokens none 0 0 src

/-! ## Syntax -/

/-- A node and the tokens behind it. -/
abbrev Parsed := Except ExpressionError (Node × List Tok)

/-- The `while` of `expr` and `and`: operators `o`, each followed by what
`next` reads. -/
def chain (o : Op) (make : Node → Node → Node) (next : List Tok → Parsed) :
    ℕ → Node → List Tok → Parsed
  | rounds + 1, l, .op o' :: toks =>
      if o' = o then do
        let (r, toks) ← next toks
        chain o make next rounds (make l r) toks
      else .ok (l, .op o' :: toks)
  | _, l, toks => .ok (l, toks)

def isComparison (o : Op) : Bool :=
  [Op.eq, .ne, .seq, .sne, .gt, .ge, .lt, .le, .contains].contains o

/-- The depth `d` stands as `levels - d`; no call is deeper than this. -/
def levels : ℕ := maxDepth + 3

mutual
def expr : ℕ → List Tok → Parsed
  | n + 1, toks =>
      if maxDepth < levels - (n + 1) then .error "expression is nested too deeply".toList
      else do
        let (l, toks) ← and n toks
        chain .or .or (and n) toks.length l toks
  | 0, _ => .error "expression is nested too deeply".toList
def and : ℕ → List Tok → Parsed
  | n + 1, toks => do
      let (l, toks) ← unary n toks
      chain .and .and (unary n) toks.length l toks
  | 0, _ => .error "expression is nested too deeply".toList
def unary : ℕ → List Tok → Parsed
  | n + 1, toks =>
      if maxDepth < levels - (n + 1) then .error "expression is nested too deeply".toList
      else match toks with
        | .op .not :: toks => do
            let (e, toks) ← unary n toks
            return (.not e, toks)
        | toks => compare n toks
  | 0, _ => .error "expression is nested too deeply".toList
def compare : ℕ → List Tok → Parsed
  | n + 1, toks => do
      let (l, toks) ← primary n toks
      match toks with
      | .op o :: toks =>
          if isComparison o then do
            let (r, toks) ← primary n toks
            return (.cmp o l r, toks)
          else return (l, .op o :: toks)
      | toks => return (l, toks)
  | 0, _ => .error "expression is nested too deeply".toList
def primary : ℕ → List Tok → Parsed
  | n + 1, toks =>
      match toks with
      | [] => .error "unexpected end of expression".toList
      | .num v :: toks => .ok (.lit (.num v), toks)
      | .str v :: toks => .ok (.lit (.str v), toks)
      | .kw .true :: toks => .ok (.lit (.bool true), toks)
      | .kw .false :: toks => .ok (.lit (.bool false), toks)
      | .kw .null :: toks => .ok (.lit .null, toks)
      | .ref path :: toks => .ok (.ref path, toks)
      | .lp :: toks => do
          let (e, toks) ← expr n toks
          match toks with
          | .rp :: toks => return (e, toks)
          | _ => .error "missing )".toList
      | .rp :: _ => .error "unexpected rp".toList
      | .op o :: _ => .error ("unexpected ".toList ++ o.text)
  | 0, _ => .error "expression is nested too deeply".toList
end

def parse (src : Text) : Except ExpressionError Node := do
  let toks ← tokenize src
  let (tree, rest) ← expr levels toks
  if rest = [] then return tree
  else .error "unexpected input after the expression".toList

/-- `none` when the expression parses. -/
def checkSyntax (src : Text) : Option ExpressionError :=
  match parse src with
  | .ok _ => none
  | .error message => some message

/-! ## Evaluation -/

/-- A finite number, or a text that reads as one. -/
def asNumber : JsValue → Option JsNumber
  | .num n => if n.isFinite then some n else none
  | .str s => if Text.trim s ≠ [] ∧ (JsNumber.ofText s).isFinite then some (.ofText s) else none
  | _ => none

def truthy : JsValue → Bool
  | .arr items => !items.isEmpty
  | .obj fields => !fields.isEmpty
  | .undefined | .null => false
  | .bool b => b
  | .num n => !(n == .nan || n == .fin 0)
  | .str s => !s.isEmpty

def isNum : JsValue → Bool
  | .num _ => true
  | _ => false

/-- `a === b` on values that are no objects. Two references to one object also
have one JSON text, so `equal` does not need it for objects. -/
def strictEq : JsValue → JsValue → Bool
  | .undefined, .undefined | .null, .null => true
  | .bool a, .bool b => a == b
  | .num a, .num b => a.strictEq b
  | .str a, .str b => a == b
  | _, _ => false

def equal (a b : JsValue) : Bool :=
  if strictEq a b then true
  else if a.isNullish then b.isNullish
  else match asNumber a, asNumber b with
    | some na, some nb => (isNum a || isNum b) && na.strictEq nb
    | _, _ => a.isObject && (b.isObject || b == .null) && a.stringify == b.stringify

section
variable (lower : Text → Text)

def containsValue (a b : JsValue) : Bool :=
  match a with
  | .str s =>
      match b with
      | .str t => Text.includes (lower s) (lower t)
      | .num n => Text.includes (lower s) (lower n.toText)
      | _ => false
  | .arr items => items.any fun x => equal x b
  | _ => false

/-- An order comparison on numbers, else on texts, else false. -/
def ordered (onNumbers : JsNumber → JsNumber → Bool) (onTexts : Text → Text → Bool)
    (a b : JsValue) : Bool :=
  match asNumber a, asNumber b with
  | some na, some nb => onNumbers na nb
  | _, _ =>
      match a, b with
      | .str s, .str t => onTexts s t
      | _, _ => false

def compareValues (op : Op) (a b : JsValue) : Bool :=
  match op with
  | .eq | .seq => equal a b
  | .ne | .sne => !equal a b
  | .contains => containsValue lower a b
  | .gt => ordered (fun x y => y.lt x) (fun s t => Text.lt16 t s) a b
  | .ge => ordered (fun x y => y.le x) (fun s t => !Text.lt16 s t) a b
  | .lt => ordered JsNumber.lt Text.lt16 a b
  | .le => ordered JsNumber.le (fun s t => !Text.lt16 t s) a b
  | .and | .or | .not => false

def evalNode (ctx : TemplateContext) : Node → JsValue
  | .lit v => v
  | .ref path => resolvePath ctx path .prompt
  | .not e => .bool !truthy (evalNode ctx e)
  | .and l r => .bool (truthy (evalNode ctx l) && truthy (evalNode ctx r))
  | .or l r => .bool (truthy (evalNode ctx l) || truthy (evalNode ctx r))
  | .cmp op l r => .bool (compareValues lower op (evalNode ctx l) (evalNode ctx r))

def evaluate (src : Text) (ctx : TemplateContext) : Except ExpressionError Bool :=
  (parse src).map fun n => truthy (evalNode lower ctx n)

/-- The paths that an expression refers to. -/
def Node.refs : Node → List Text
  | .lit _ => []
  | .ref path => [path]
  | .not e => e.refs
  | .and l r | .or l r | .cmp _ l r => l.refs ++ r.refs

def expressionRefs (src : Text) : List Text :=
  match parse src with
  | .ok n => n.refs
  | .error _ => []

theorem evalNode_congr {c c' : TemplateContext} {n : Node}
    (h : ∀ path ∈ n.refs, resolvePath c path .prompt = resolvePath c' path .prompt) :
    evalNode lower c n = evalNode lower c' n := by
  induction n with
  | lit v => rfl
  | ref path => exact h path (by simp [Node.refs])
  | not e ih => simp only [evalNode, ih h]
  | and l r ihl ihr | or l r ihl ihr | cmp op l r ihl ihr =>
    simp only [Node.refs, List.mem_append, or_imp, forall_and] at h
    simp only [evalNode, ihl h.1, ihr h.2]

/-- A condition looks at its references only. -/
theorem evaluate_congr {c c' : TemplateContext} {src : Text}
    (h : ∀ path ∈ expressionRefs src, resolvePath c path .prompt = resolvePath c' path .prompt) :
    evaluate lower src c = evaluate lower src c' := by
  unfold expressionRefs at h
  unfold evaluate
  cases hp : parse src with
  | error e => rfl
  | ok n =>
    simp only [hp] at h
    exact congrArg Except.ok (congrArg truthy (evalNode_congr lower h))

/-- Secret values reach neither prompts nor conditions: contexts that differ in
them only give the same result, or the same error, for every template and
every expression. -/
theorem secrets_never_shown {c c' : TemplateContext} (h : SameButSecrets c c') :
    (∀ v depth, render v c .prompt depth = render v c' .prompt depth) ∧
      (∀ tpl, renderString tpl c .prompt = renderString tpl c' .prompt) ∧
      (∀ tpl, renderText tpl c .prompt = renderText tpl c' .prompt) ∧
      ∀ src, evaluate lower src c = evaluate lower src c' := by
  have hpath := resolvePath_prompt h
  have htext : ∀ tpl, renderString tpl c .prompt = renderString tpl c' .prompt := fun tpl =>
    renderString_congr fun path _ => hpath path
  refine ⟨fun v depth => render_congr fun path _ => hpath path, htext, fun tpl => ?_,
    fun src => evaluate_congr lower fun path _ => hpath path⟩
  rw [renderText, renderText, htext]

end

/-- Two contexts with one secret key and different values of it. -/
theorem secrets_never_shown_two_values :
    evaluate id "vars.K == 'x'".toList { secrets := some [(['K'], ['x'])] } =
      evaluate id "vars.K == 'x'".toList { secrets := some [(['K'], ['y'])] } := by
  have h : SameButSecrets { secrets := some [(['K'], ['x'])] }
      { secrets := some [(['K'], ['y'])] } := by
    refine ⟨rfl, rfl, rfl, rfl, fun key => ?_⟩
    by_cases hk : key = ['K']
    · subst hk
      rfl
    · have : (['K'] == key) = false := by simpa using Ne.symm hk
      simp [ownText, this]
  exact (secrets_never_shown id h).2.2.2 _

end Prgd.Expression
