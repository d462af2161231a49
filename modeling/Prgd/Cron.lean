import Prgd.JsNumber
import Mathlib.Data.List.TakeWhile

/-!
# Cron expressions

Two readers of five field cron expressions. `isCron` checks the schedule
trigger of a workflow graph with a regular expression and bounds. `parseCron`
splits the same text and collects the values of every field, and throws on
what it does not understand. A set of numbers is the list of its members in
the order of insertion.

An expression that `isCron` accepts is scheduled by `parseCron`, with no empty
field, exactly if none of its items is a range that runs backwards.
-/
namespace Prgd
namespace Cron

/-! ## The check of the graph -/

/-- The numbered groups of the regular expression of an item. -/
structure Item where
  first : Option Text
  last : Option Text
  step : Option Text
  deriving DecidableEq

/-- The end of the regular expression: an optional step and no more text. -/
def stepPart : Text → Option (Option Text)
  | [] => some none
  | c :: ds => if c == '/' && Text.isDigits ds then some (some ds) else none

/-- The regular expression of an item: `*`, a number or a range of numbers, and
an optional step. -/
def matchItem (item : Text) : Option Item :=
  match item with
  | '*' :: rest => (stepPart rest).map fun step => ⟨none, none, step⟩
  | _ =>
      let first := item.takeWhile Text.isDigit
      if first.isEmpty then none else
        match item.dropWhile Text.isDigit with
        | '-' :: rest =>
            let last := rest.takeWhile Text.isDigit
            if last.isEmpty then none
            else (stepPart (rest.dropWhile Text.isDigit)).map fun step => ⟨some first, some last, step⟩
        | rest => (stepPart rest).map fun step => ⟨some first, none, step⟩

def inRange (lo hi : ℕ) (n : JsNumber) : Bool :=
  JsNumber.le (.fin lo) n && JsNumber.le n (.fin hi)

/-- The callback of `every` on the items of a field with the given bounds. -/
def isItem (lo hi : ℕ) (item : Text) : Bool :=
  match matchItem item with
  | none => false
  | some m =>
      let nums := [m.first, m.last, m.step].filterMap (Option.map JsNumber.ofText)
      if (m.step.map fun s => JsNumber.lt (JsNumber.ofText s) (.fin 1)).getD false then false
      else ([m.first, m.last].filterMap (Option.map JsNumber.ofText)).all (inRange lo hi) &&
        nums.all JsNumber.isInteger

def ranges : List (ℕ × ℕ) := [(0, 59), (0, 23), (1, 31), (1, 12), (0, 7)]

def isCron (expr : Text) : Bool :=
  let parts := Text.words expr
  if parts.length ≠ 5 then false
  else (parts.zip ranges).all fun p => (Text.split p.1 [',']).all (isItem p.2.1 p.2.2)

/-! ## The parser of the scheduler -/

structure CronSchedule where
  minutes : List ℕ
  hours : List ℕ
  days : List ℕ
  months : List ℕ
  weekdays : List ℕ
  dayRestricted : Bool
  weekdayRestricted : Bool
  deriving DecidableEq

def months : List Text :=
  ["JAN", "FEB", "MAR", "APR", "MAY", "JUN", "JUL", "AUG", "SEP", "OCT", "NOV", "DEC"].map
    String.toList

def days : List Text := ["SUN", "MON", "TUE", "WED", "THU", "FRI", "SAT"].map String.toList

/-- The bounds and names that the calls of `field` differ in. -/
structure FieldSpec where
  min : ℕ
  max : ℕ
  names : List Text
  nameBase : ℕ

def quoted (s : Text) : Text := '"' :: s ++ ['"']

/-- The inner function `value`. -/
def value (f : FieldSpec) (v : Text) : Except Text ℕ :=
  let upper := Text.toUpperCase v
  let n := match f.names.idxOf? upper with
    | some named => .fin ((named + f.nameBase : ℕ) : ℚ)
    | none => if Text.isDigits v then JsNumber.ofText v else .nan
  if n.isInteger && inRange f.min f.max n then .ok n.toNat
  else .error (quoted v ++ " is out of range ".toList ++ JsNumber.digits f.min ++ " to ".toList ++
    JsNumber.digits f.max)

/-- Insertion into a set. -/
def addValue (out : List ℕ) (v : ℕ) : List ℕ := if v ∈ out then out else out ++ [v]

/-- The values of the loop `for (v = lo; v <= hi; v += step)`. Sums of integers
up to `hi` are exact, and a step that makes the sum inexact leaves the loop. -/
def upTo (hi step : ℕ) : ℕ → ℕ → List ℕ
  | 0, _ => []
  | fuel + 1, v => if v ≤ hi then v :: upTo hi step fuel (v + step) else []

/-- The bounds of one item of the list. -/
def bounds (f : FieldSpec) (range : Text) (stepText : Option Text) : Except Text (ℕ × ℕ) :=
  if range = ['*'] then .ok (f.min, f.max)
  else if range.contains '-' then do
    let ends := Text.split range ['-']
    let lo ← value f (ends.getD 0 [])
    let hi ← value f (ends.getD 1 [])
    if hi < lo then .error ("bad range ".toList ++ quoted range) else .ok (lo, hi)
  else do
    let lo ← value f range
    return (lo, if stepText.isNone then lo else f.max)

/-- One turn of the loop over the items. -/
def item (f : FieldSpec) (part : Text) : Except Text (List ℕ) := do
  let pieces := Text.split part ['/']
  let range := pieces.getD 0 []
  let stepText := pieces[1]?
  let step := match stepText with
    | none => .fin 1
    | some t => JsNumber.ofText t
  if step.isInteger = false ∨ JsNumber.lt step (.fin 1) then
    .error ("bad step in ".toList ++ quoted part)
  else
    let (lo, hi) ← bounds f range stepText
    return upTo hi step.toNat (hi + 1 - lo) lo

def field (spec : Text) (f : FieldSpec) : Except Text (List ℕ) :=
  (Text.split spec [',']).foldlM
    (fun out part => do return (← item f part).foldl addValue out) []

def parseCron (expr : Text) : Except Text CronSchedule :=
  match Text.words expr with
  | [m, h, dom, mon, dow] => do
      let weekdays ← field dow ⟨0, 7, days, 0⟩
      let weekdays := if 7 ∈ weekdays then addValue (weekdays.erase 7) 0 else weekdays
      return {
        minutes := ← field m ⟨0, 59, [], 0⟩
        hours := ← field h ⟨0, 23, [], 0⟩
        days := ← field dom ⟨1, 31, [], 0⟩
        months := ← field mon ⟨1, 12, months, 1⟩
        weekdays
        dayRestricted := decide (dom ≠ ['*'])
        weekdayRestricted := decide (dow ≠ ['*']) }
  | _ => .error
      "A cron expression has five fields: minute hour day-of-month month day-of-week".toList

/-! ## Items that both read -/

/-- The text of a step behind a range. -/
def stepSuffix : Option Text → Text
  | none => []
  | some ds => '/' :: ds

/-- The text in front of the step. -/
def Item.range (m : Item) : Text :=
  match m.first, m.last with
  | none, _ => ['*']
  | some a, none => a
  | some a, some b => a ++ '-' :: b

/-- Every number of the item is a nonempty run of digits. -/
structure Item.Plain (m : Item) : Prop where
  first : ∀ a ∈ m.first, Text.isDigits a
  last : ∀ b ∈ m.last, Text.isDigits b
  step : ∀ s ∈ m.step, Text.isDigits s

theorem isDigits_iff {s : Text} : Text.isDigits s ↔ s ≠ [] ∧ ∀ c ∈ s, Text.isDigit c := by
  simp [Text.isDigits]

theorem notMem_of_isDigits {s : Text} (h : Text.isDigits s) {c : Char}
    (hc : Text.isDigit c = false) : c ∉ s := by
  intro hm
  have := (isDigits_iff.mp h).2 c hm
  rw [hc] at this
  exact Bool.false_ne_true this

theorem isDigits_takeWhile {s : Text} (h : (s.takeWhile Text.isDigit).isEmpty = false) :
    Text.isDigits (s.takeWhile Text.isDigit) := by
  apply isDigits_iff.mpr
  constructor
  · simpa using h
  · intro c hc
    exact List.mem_takeWhile_imp hc

theorem stepPart_some {s : Text} {step : Option Text} (h : stepPart s = some step) :
    s = stepSuffix step ∧ ∀ ds ∈ step, Text.isDigits ds := by
  cases s with
  | nil =>
    cases h
    simp [stepSuffix]
  | cons c ds =>
    simp only [stepPart] at h
    split_ifs at h with hc
    cases h
    simp only [Bool.and_eq_true, beq_iff_eq] at hc
    simp [stepSuffix, hc.1, hc.2]

/-- What the regular expression accepts. -/
theorem matchItem_some {item : Text} {m : Item} (h : matchItem item = some m) :
    item = m.range ++ stepSuffix m.step ∧ m.Plain := by
  unfold matchItem at h
  split at h
  case h_1 rest =>
    obtain ⟨step, hstep, rfl⟩ := Option.map_eq_some_iff.mp h
    have hs := stepPart_some hstep
    exact ⟨by rw [hs.1]; rfl, ⟨by simp, by simp, hs.2⟩⟩
  case h_2 =>
    dsimp only at h
    split_ifs at h with hfirst
    have ha := isDigits_takeWhile (Bool.eq_false_of_not_eq_true hfirst)
    have hitem := (List.takeWhile_append_dropWhile (p := Text.isDigit) (l := item)).symm
    split at h
    case h_1 rest hrest =>
      split_ifs at h with hlast
      have hb := isDigits_takeWhile (Bool.eq_false_of_not_eq_true hlast)
      obtain ⟨step, hstep, rfl⟩ := Option.map_eq_some_iff.mp h
      have hs := stepPart_some hstep
      have hrest' := (List.takeWhile_append_dropWhile (p := Text.isDigit) (l := rest)).symm
      refine ⟨?_, ⟨by simpa using ha, by simpa using hb, hs.2⟩⟩
      rw [hrest] at hitem
      rw [hs.1] at hrest'
      calc item = item.takeWhile Text.isDigit ++ '-' :: rest := hitem
        _ = item.takeWhile Text.isDigit ++
            '-' :: (rest.takeWhile Text.isDigit ++ stepSuffix step) := by rw [← hrest']
        _ = _ := by simp [Item.range]
    case h_2 rest _ hrest =>
      obtain ⟨step, hstep, rfl⟩ := Option.map_eq_some_iff.mp h
      have hs := stepPart_some hstep
      refine ⟨?_, ⟨by simpa using ha, by simp, hs.2⟩⟩
      rw [hs.1] at hitem
      exact hitem

/-- An item `a-b` or `a-b/n` whose first number is above its last one. -/
def reversed (item : Text) : Bool :=
  match item.dropWhile Text.isDigit with
  | '-' :: rest =>
      JsNumber.lt (JsNumber.ofText (rest.takeWhile Text.isDigit))
        (JsNumber.ofText (item.takeWhile Text.isDigit))
  | _ => false

theorem takeWhile_digits {s : Text} (hs : ∀ c ∈ s, Text.isDigit c) {t : Text}
    (ht : ∀ c ∈ t.head?, Text.isDigit c = false) :
    (s ++ t).takeWhile Text.isDigit = s ∧ (s ++ t).dropWhile Text.isDigit = t := by
  induction s with
  | nil =>
    cases t with
    | nil => simp
    | cons c t =>
      have hc := ht c (by simp)
      simp [hc]
  | cons c s ih =>
    have hc := hs c (by simp)
    have htail := ih fun d hd => hs d (List.mem_cons_of_mem c hd)
    simp [hc, htail]

theorem stepSuffix_head (step : Option Text) :
    ∀ c ∈ (stepSuffix step).head?, Text.isDigit c = false := by
  cases step with
  | none => simp [stepSuffix]
  | some ds =>
    simp only [stepSuffix, List.head?_cons, Option.mem_some_iff, forall_eq']
    decide

theorem reversed_star (step : Option Text) : reversed ('*' :: stepSuffix step) = false := by
  have hstar : Text.isDigit '*' = false := by decide
  simp [reversed, hstar]

theorem reversed_number {a : Text} (ha : Text.isDigits a) (step : Option Text) :
    reversed (a ++ stepSuffix step) = false := by
  have h := (takeWhile_digits (isDigits_iff.mp ha).2 (stepSuffix_head step)).2
  unfold reversed
  rw [h]
  cases step <;> simp [stepSuffix]

theorem reversed_range {a b : Text} (ha : Text.isDigits a) (hb : Text.isDigits b)
    (step : Option Text) :
    reversed (a ++ '-' :: b ++ stepSuffix step) =
      JsNumber.lt (JsNumber.ofText b) (JsNumber.ofText a) := by
  have hdash : ∀ c ∈ ('-' :: (b ++ stepSuffix step)).head?, Text.isDigit c = false := by
    simp only [List.head?_cons, Option.mem_some_iff, forall_eq']
    decide
  have h := takeWhile_digits (isDigits_iff.mp ha).2 hdash
  have h' := takeWhile_digits (isDigits_iff.mp hb).2 (stepSuffix_head step)
  simp [reversed, h, h']

/-! ## Numbers -/

theorem eq_fin_of_isInteger {n : JsNumber} {lo hi : ℕ} (hn : n.isInteger)
    (h : inRange lo hi n) : ∃ k : ℕ, n = .fin k ∧ lo ≤ k ∧ k ≤ hi := by
  cases n with
  | nan => simp [JsNumber.isInteger] at hn
  | inf neg => simp [JsNumber.isInteger] at hn
  | fin q =>
    simp only [JsNumber.isInteger, beq_iff_eq] at hn
    simp only [inRange, Bool.and_eq_true, JsNumber.le_fin] at h
    have hq : 0 ≤ q := le_trans (by positivity) h.1
    have hnum : 0 ≤ q.num := Rat.num_nonneg.mpr hq
    have hk : q = ((q.num.toNat : ℕ) : ℚ) := by
      have : (q.num : ℚ) = q := by
        rw [← Rat.num_div_den q, hn]
        simp
      rw [← this]
      exact_mod_cast (Int.toNat_of_nonneg hnum).symm
    refine ⟨q.num.toNat, by rw [← hk], ?_, ?_⟩
    · rw [hk] at h
      exact_mod_cast h.1
    · rw [hk] at h
      exact_mod_cast h.2

/-! ## What the parser makes of an item -/

/-- Nonempty bounds, and no name is a number. -/
structure FieldSpec.Plain (f : FieldSpec) : Prop where
  bounds : f.min ≤ f.max
  names : ∀ n ∈ f.names, Text.isDigits n = false

theorem upperChar_of_lt {c : Char} (hc : c.toNat < 97) : Text.upperChar c = [c] := by
  have hlow : Text.isLower c = false := by
    simp only [Text.isLower, Bool.and_eq_false_iff, decide_eq_false_iff_not]
    left
    intro hle
    have : 97 ≤ c.toNat := hle
    omega
  have hspecial : Text.upperSpecial.lookup c = none := by
    have hbig : ∀ p ∈ Text.upperSpecial, 97 ≤ p.1.toNat := by decide
    apply List.lookup_eq_none_iff.mpr
    intro p hp
    apply bne_iff_ne.mpr
    rintro rfl
    have := hbig p hp
    omega
  simp [Text.upperChar, hlow, hspecial]

theorem upperChar_digit {c : Char} (h : Text.isDigit c) : Text.upperChar c = [c] := by
  have hc : c.toNat ≤ 57 := by
    simp only [Text.isDigit, Bool.and_eq_true, decide_eq_true_eq] at h
    exact h.2
  exact upperChar_of_lt (by omega)

theorem toUpperCase_digits {s : Text} (h : ∀ c ∈ s, Text.isDigit c) : Text.toUpperCase s = s := by
  induction s with
  | nil => rfl
  | cons c s ih =>
    have hc := upperChar_digit (h c (by simp))
    have hs := ih fun d hd => h d (List.mem_cons_of_mem c hd)
    simp only [Text.toUpperCase] at hs
    simp [Text.toUpperCase, hc, hs]

theorem value_digits {f : FieldSpec} (hf : f.Plain) {v : Text} (hv : Text.isDigits v)
    (hint : (JsNumber.ofText v).isInteger) (hin : inRange f.min f.max (JsNumber.ofText v)) :
    value f v = .ok (JsNumber.ofText v).toNat := by
  have hname : f.names.idxOf? (Text.toUpperCase v) = none := by
    rw [toUpperCase_digits (isDigits_iff.mp hv).2]
    apply List.idxOf?_eq_none_iff.mpr
    intro hm
    have := hf.names v hm
    simp [hv] at this
  simp [value, hname, hv, hint, hin]

/-- What `isItem` has checked of an item. -/
structure Item.Within (f : FieldSpec) (m : Item) : Prop where
  first : ∀ a ∈ m.first, (JsNumber.ofText a).isInteger ∧ inRange f.min f.max (JsNumber.ofText a)
  last : ∀ b ∈ m.last, (JsNumber.ofText b).isInteger ∧ inRange f.min f.max (JsNumber.ofText b)
  step : ∀ s ∈ m.step, (JsNumber.ofText s).isInteger ∧
    JsNumber.lt (JsNumber.ofText s) (.fin 1) = false

theorem isItem_spec {f : FieldSpec} {part : Text} (h : isItem f.min f.max part) :
    ∃ m, matchItem part = some m ∧ m.Within f := by
  unfold isItem at h
  split at h
  case h_1 => simp at h
  case h_2 m hm =>
    refine ⟨m, hm, ?_⟩
    obtain ⟨first, last, step⟩ := m
    cases first <;> cases last <;> cases step <;> simp at h <;> constructor <;> simp [h]

theorem range_noSlash {m : Item} (h : m.Plain) : '/' ∉ m.range := by
  obtain ⟨first, last, step⟩ := m
  cases first with
  | none => simp [Item.range]
  | some a =>
    have ha := notMem_of_isDigits (h.first a rfl) (c := '/') (by decide)
    cases last with
    | none => exact ha
    | some b =>
      have hb := notMem_of_isDigits (h.last b rfl) (c := '/') (by decide)
      simp [Item.range, ha, hb]

/-- The step is split off as the regular expression has it. -/
theorem split_item {m : Item} (h : m.Plain) :
    Text.split (m.range ++ stepSuffix m.step) ['/'] = m.range :: m.step.toList := by
  have hr := range_noSlash h
  cases hs : m.step with
  | none => simpa [stepSuffix] using Text.split_of_notMem hr
  | some ds =>
    have hds := notMem_of_isDigits (h.step ds hs) (c := '/') (by decide)
    rw [stepSuffix, Text.split_append hr, Text.split_of_notMem hds]
    rfl

/-- Behind the check of the step only the bounds can fail. -/
theorem item_eq {f : FieldSpec} {m : Item} (h : m.Plain) (hw : m.Within f) :
    ∃ step, item f (m.range ++ stepSuffix m.step) =
      (bounds f m.range m.step).map fun b => upTo b.2 step (b.2 + 1 - b.1) b.1 := by
  cases hs : m.step with
  | none =>
    refine ⟨1, ?_⟩
    have hsplit := split_item h
    rw [hs] at hsplit
    have hone : JsNumber.toNat (.fin 1) = 1 := by decide
    have hint : JsNumber.isInteger (.fin 1) = true := by decide
    have hlt : JsNumber.lt (.fin 1) (.fin 1) = false := by decide
    simp only [item, hsplit, Option.toList, List.getD_cons_zero, List.getElem?_cons_succ,
      List.getElem?_nil, hint, hlt, hone]
    cases bounds f m.range none <;> rfl
  | some ds =>
    refine ⟨(JsNumber.ofText ds).toNat, ?_⟩
    have hsplit := split_item h
    rw [hs] at hsplit
    have hstep := hw.step ds hs
    simp only [item, hsplit, Option.toList, List.getD_cons_zero, List.getElem?_cons_succ,
      List.getElem?_cons_zero, hstep.1, hstep.2]
    cases bounds f m.range (some ds) <;> rfl

theorem bounds_number {f : FieldSpec} (hf : f.Plain) {a : Text} (ha : Text.isDigits a)
    (hint : (JsNumber.ofText a).isInteger) (hin : inRange f.min f.max (JsNumber.ofText a))
    (step : Option Text) : ∃ b, bounds f a step = .ok b ∧ b.1 ≤ b.2 := by
  have hstar : a ≠ ['*'] := by
    rintro rfl
    simp [Text.isDigits, Text.isDigit] at ha
  have hdash := notMem_of_isDigits ha (c := '-') (by decide)
  obtain ⟨k, hk, -, hmax⟩ := eq_fin_of_isInteger hint hin
  refine ⟨(k, if step.isNone then k else f.max), ?_, ?_⟩
  · simp only [bounds, hstar, if_false, List.contains_eq_mem, hdash, decide_false,
      Bool.false_eq_true, value_digits hf ha hint hin, hk, JsNumber.toNat_fin]
    rfl
  · dsimp only
    split_ifs
    · exact le_rfl
    · exact hmax

theorem bounds_range {f : FieldSpec} (hf : f.Plain) {a b : Text} (ha : Text.isDigits a)
    (hb : Text.isDigits b) (hia : (JsNumber.ofText a).isInteger)
    (hra : inRange f.min f.max (JsNumber.ofText a)) (hib : (JsNumber.ofText b).isInteger)
    (hrb : inRange f.min f.max (JsNumber.ofText b)) (step : Option Text) :
    (∃ r, bounds f (a ++ '-' :: b) step = .ok r ∧ r.1 ≤ r.2 ∧
        JsNumber.lt (JsNumber.ofText b) (JsNumber.ofText a) = false) ∨
      (∃ e, bounds f (a ++ '-' :: b) step = .error e ∧
        JsNumber.lt (JsNumber.ofText b) (JsNumber.ofText a) = true) := by
  have hda := notMem_of_isDigits ha (c := '-') (by decide)
  have hdb := notMem_of_isDigits hb (c := '-') (by decide)
  have hstar : a ++ '-' :: b ≠ ['*'] := by
    intro he
    have : '-' ∈ ['*'] := by
      rw [← he]
      simp
    simp at this
  have hmem : '-' ∈ a ++ '-' :: b := by simp
  have hsplit : Text.split (a ++ '-' :: b) ['-'] = [a, b] := by
    rw [Text.split_append hda, Text.split_of_notMem hdb]
  obtain ⟨j, hj, -, -⟩ := eq_fin_of_isInteger hia hra
  obtain ⟨k, hk, -, -⟩ := eq_fin_of_isInteger hib hrb
  have hbounds : bounds f (a ++ '-' :: b) step =
      if k < j then .error ("bad range ".toList ++ quoted (a ++ '-' :: b)) else .ok (j, k) := by
    simp only [bounds, hstar, if_false, List.contains_eq_mem, hmem, decide_true, if_true, hsplit,
      List.getD_cons_zero, List.getD_cons_succ, value_digits hf ha hia hra,
      value_digits hf hb hib hrb, hj, hk, JsNumber.toNat_fin]
    rfl
  rw [hbounds, hj, hk]
  simp only [JsNumber.lt, Nat.cast_lt]
  split_ifs with hlt
  · right
    exact ⟨_, rfl, by simpa using hlt⟩
  · left
    exact ⟨(j, k), rfl, Nat.le_of_not_lt hlt, by simpa using hlt⟩

theorem upTo_ne_nil {lo hi : ℕ} (h : lo ≤ hi) (step : ℕ) : upTo hi step (hi + 1 - lo) lo ≠ [] := by
  obtain ⟨n, hn⟩ : ∃ n, hi + 1 - lo = n + 1 := ⟨hi - lo, by omega⟩
  simp [hn, upTo, h]

/-- The parser takes the item, with at least one value, or refuses a range that
runs backwards. -/
theorem item_spec {f : FieldSpec} (hf : f.Plain) {part : Text} (h : isItem f.min f.max part) :
    (∃ vs, item f part = .ok vs ∧ vs ≠ [] ∧ reversed part = false) ∨
      (∃ e, item f part = .error e ∧ reversed part = true) := by
  obtain ⟨m, hm, hw⟩ := isItem_spec h
  obtain ⟨rfl, hplain⟩ := matchItem_some hm
  obtain ⟨step, hitem⟩ := item_eq hplain hw
  rw [hitem]
  obtain ⟨first, last, stepText⟩ := m
  cases first with
  | none =>
    left
    have hb : bounds f ['*'] stepText = .ok (f.min, f.max) := by simp [bounds]
    have hvs := upTo_ne_nil hf.bounds step
    exact ⟨_, by simp only [Item.range, hb]; rfl, hvs, reversed_star stepText⟩
  | some a =>
    have ha := hplain.first a rfl
    have hna := hw.first a rfl
    cases last with
    | none =>
      left
      obtain ⟨b, hb, hle⟩ := bounds_number hf ha hna.1 hna.2 stepText
      have hvs := upTo_ne_nil hle step
      exact ⟨_, by simp only [Item.range, hb]; rfl, hvs, reversed_number ha stepText⟩
    | some b =>
      have hb := hplain.last b rfl
      have hnb := hw.last b rfl
      have hrev := reversed_range ha hb stepText
      rcases bounds_range hf ha hb hna.1 hna.2 hnb.1 hnb.2 stepText with
        ⟨r, hr, hle, hlt⟩ | ⟨e, he, hlt⟩
      · left
        have hvs := upTo_ne_nil hle step
        exact ⟨_, by simp only [Item.range, hr]; rfl, hvs, by simp only [Item.range, hrev, hlt]⟩
      · right
        exact ⟨e, by simp only [Item.range, he]; rfl, by simp only [Item.range, hrev, hlt]⟩

/-! ## Fields -/

theorem addValue_ne_nil (out : List ℕ) (v : ℕ) : addValue out v ≠ [] := by
  unfold addValue
  split_ifs with h
  · exact List.ne_nil_of_mem h
  · simp

theorem foldl_addValue_ne_nil {vs out : List ℕ} (h : vs ≠ [] ∨ out ≠ []) :
    vs.foldl addValue out ≠ [] := by
  induction vs generalizing out with
  | nil => simpa using h
  | cons v vs ih => exact ih (.inr (addValue_ne_nil out v))

/-- The loop over the items runs to its end exactly if no range runs backwards. -/
theorem items_spec {f : FieldSpec} (hf : f.Plain) (parts : List Text)
    (h : ∀ p ∈ parts, isItem f.min f.max p) (out : List ℕ) :
    (∃ vs, parts.foldlM (fun out part => do return (← item f part).foldl addValue out) out =
        Except.ok vs ∧ (parts ≠ [] ∨ out ≠ [] → vs ≠ []) ∧ ∀ p ∈ parts, reversed p = false) ∨
      (∃ e, parts.foldlM (fun out part => do return (← item f part).foldl addValue out) out =
        Except.error e ∧ ∃ p ∈ parts, reversed p = true) := by
  induction parts generalizing out with
  | nil =>
    left
    exact ⟨out, rfl, by simp, by simp⟩
  | cons p ps ih =>
    have hps := ih fun q hq => h q (List.mem_cons_of_mem p hq)
    rcases item_spec hf (h p (by simp)) with ⟨vs, hvs, hne, hrev⟩ | ⟨e, he, hrev⟩
    · have hout : vs.foldl addValue out ≠ [] := foldl_addValue_ne_nil (.inl hne)
      have hstep : (p :: ps).foldlM (fun out part => do return (← item f part).foldl addValue out)
          out = ps.foldlM (fun out part => do return (← item f part).foldl addValue out)
            (vs.foldl addValue out) := by
        simp only [List.foldlM_cons, hvs]
        rfl
      rw [hstep]
      rcases hps (vs.foldl addValue out) with ⟨ws, hws, hne', hall⟩ | ⟨e, he, q, hq, hrev'⟩
      · left
        exact ⟨ws, hws, fun _ => hne' (.inr hout), by simpa [hrev] using hall⟩
      · right
        exact ⟨e, he, q, List.mem_cons_of_mem p hq, hrev'⟩
    · right
      refine ⟨e, ?_, p, by simp, hrev⟩
      simp only [List.foldlM_cons, he]
      rfl

/-- No item of the field is a range that runs backwards. -/
def forward (spec : Text) : Prop := ∀ p ∈ Text.split spec [','], reversed p = false

instance (spec : Text) : Decidable (forward spec) := by
  unfold forward
  infer_instance

/-- The field is read and has a value. -/
def Runs (r : Except Text (List ℕ)) : Prop := ∃ vs, r = .ok vs ∧ vs ≠ []

theorem field_runs_iff {f : FieldSpec} (hf : f.Plain) {spec : Text}
    (h : (Text.split spec [',']).all (isItem f.min f.max)) :
    Runs (field spec f) ↔ forward spec := by
  have hitems : ∀ p ∈ Text.split spec [','], isItem f.min f.max p := by simpa using h
  rcases items_spec hf _ hitems [] with ⟨vs, hvs, hne, hall⟩ | ⟨e, he, p, hp, hrev⟩
  · have hvs' : vs ≠ [] := hne (.inl (Text.split_ne_nil spec [',']))
    exact iff_of_true ⟨vs, hvs, hvs'⟩ hall
  · apply iff_of_false
    · rintro ⟨vs, hvs, -⟩
      rw [field, he] at hvs
      cases hvs
    · intro hall
      simp [hall p hp] at hrev

/-! ## Expressions -/

/-- Every field denotes at least one value. -/
structure CronSchedule.Full (c : CronSchedule) : Prop where
  minutes : c.minutes ≠ []
  hours : c.hours ≠ []
  days : c.days ≠ []
  months : c.months ≠ []
  weekdays : c.weekdays ≠ []

/-- Sunday as 7 becomes 0. -/
theorem sunday_ne_nil_iff {vs : List ℕ} :
    (if 7 ∈ vs then addValue (vs.erase 7) 0 else vs) ≠ [] ↔ vs ≠ [] := by
  split_ifs with h
  · exact iff_of_true (addValue_ne_nil _ _) (List.ne_nil_of_mem h)
  · exact Iff.rfl

theorem bind_ok {α β : Type} {x : Except Text α} {k : α → Except Text β} {r : β}
    (h : (x >>= k) = .ok r) : ∃ a, x = .ok a ∧ k a = .ok r := by
  cases x with
  | error e => cases h
  | ok a => exact ⟨a, rfl, h⟩

theorem parseCron_full_iff {expr m h dom mon dow : Text}
    (hw : Text.words expr = [m, h, dom, mon, dow]) :
    (∃ c, parseCron expr = .ok c ∧ c.Full) ↔
      Runs (field m ⟨0, 59, [], 0⟩) ∧ Runs (field h ⟨0, 23, [], 0⟩) ∧
        Runs (field dom ⟨1, 31, [], 0⟩) ∧ Runs (field mon ⟨1, 12, months, 1⟩) ∧
        Runs (field dow ⟨0, 7, days, 0⟩) := by
  simp only [parseCron, hw]
  constructor
  · rintro ⟨c, hc, hfull⟩
    obtain ⟨ws, hws, hc⟩ := bind_ok hc
    obtain ⟨ms, hms, hc⟩ := bind_ok hc
    obtain ⟨hs, hhs, hc⟩ := bind_ok hc
    obtain ⟨ds, hds, hc⟩ := bind_ok hc
    obtain ⟨mos, hmos, hc⟩ := bind_ok hc
    cases hc
    exact ⟨⟨ms, hms, hfull.minutes⟩, ⟨hs, hhs, hfull.hours⟩, ⟨ds, hds, hfull.days⟩,
      ⟨mos, hmos, hfull.months⟩, ⟨ws, hws, sunday_ne_nil_iff.mp hfull.weekdays⟩⟩
  · rintro ⟨⟨ms, hms, hm⟩, ⟨hs, hhs, hh⟩, ⟨ds, hds, hd⟩, ⟨mos, hmos, hmo⟩, ⟨ws, hws, hw⟩⟩
    rw [hms, hhs, hds, hmos, hws]
    exact ⟨_, rfl, ⟨hm, hh, hd, hmo, sunday_ne_nil_iff.mpr hw⟩⟩

theorem isCron_spec {expr : Text} (h : isCron expr) :
    ∃ m hh dom mon dow, Text.words expr = [m, hh, dom, mon, dow] ∧
      (Text.split m [',']).all (isItem 0 59) ∧ (Text.split hh [',']).all (isItem 0 23) ∧
      (Text.split dom [',']).all (isItem 1 31) ∧ (Text.split mon [',']).all (isItem 1 12) ∧
      (Text.split dow [',']).all (isItem 0 7) := by
  unfold isCron at h
  dsimp only at h
  split_ifs at h with hlen
  have hfive : (Text.words expr).length = 5 := by omega
  match hw : Text.words expr, hfive with
  | [m, hh, dom, mon, dow], _ =>
    rw [hw] at h
    simp only [ranges, List.zip_cons_cons, List.all_cons, List.zip_nil_right, List.all_nil,
      Bool.and_eq_true] at h
    exact ⟨m, hh, dom, mon, dow, rfl, h.1, h.2.1, h.2.2.1, h.2.2.2.1, h.2.2.2.2.1⟩

/-- An accepted expression is scheduled, with a value in every field, exactly if
none of its ranges runs backwards. -/
theorem scheduled_iff (expr : Text) (h : isCron expr = true) :
    (∃ c, parseCron expr = .ok c ∧ c.Full) ↔ ∀ part ∈ Text.words expr, forward part := by
  obtain ⟨m, hh, dom, mon, dow, hw, hm, hhh, hdom, hmon, hdow⟩ := isCron_spec h
  have hminutes := field_runs_iff (f := ⟨0, 59, [], 0⟩) ⟨by simp, by simp⟩ hm
  have hhours := field_runs_iff (f := ⟨0, 23, [], 0⟩) ⟨by simp, by simp⟩ hhh
  have hdays := field_runs_iff (f := ⟨1, 31, [], 0⟩) ⟨by simp, by simp⟩ hdom
  have hmonths := field_runs_iff (f := ⟨1, 12, months, 1⟩) ⟨by simp, by decide⟩ hmon
  have hweekdays := field_runs_iff (f := ⟨0, 7, days, 0⟩) ⟨by simp, by decide⟩ hdow
  rw [parseCron_full_iff hw, hw, hminutes, hhours, hdays, hmonths, hweekdays]
  simp

/-- Ranges, lists, steps and both names of Sunday. -/
theorem scheduled_iff_sample :
    isCron "0,30 9-17/2 * 1-3 0,7".toList = true ∧
      ∃ c, parseCron "0,30 9-17/2 * 1-3 0,7".toList = .ok c ∧ c.Full :=
  ⟨by decide +kernel, (scheduled_iff _ (by decide +kernel)).mpr (by decide +kernel)⟩

/-- The check of the graph accepts a range that runs backwards, and the parser
throws on it. -/
theorem backward_range_accepted :
    isCron "5-3 * * * *".toList = true ∧
      ¬ ∃ c, parseCron "5-3 * * * *".toList = .ok c ∧ c.Full := by
  constructor
  · decide +kernel
  · intro ⟨c, hc, _⟩
    have : parseCron "5-3 * * * *".toList = .error "bad range \"5-3\"".toList := by decide +kernel
    rw [this] at hc
    cases hc

end Cron
end Prgd
