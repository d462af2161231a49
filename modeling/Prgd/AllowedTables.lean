import Prgd.SqlGuard

/-!
# The tables that the SQL check overlooks

What the tables of a statement are, read off its tokens with the nesting of its
parentheses: `FROM` lists go on after a join or a subquery, and only a `WITH` clause
defines a common table expression. `checkSql` keeps one flag for all levels, takes
every `, name AS` and `, name (` for such a definition, and looks for `TABLE` only at
the start. `overlooked` are the tables for which that makes a difference; a statement
that is accepted has only allowed tables exactly if these are allowed.
-/
namespace Prgd.SqlGuard
open NetGuard (Casing)

/-! ## The tables of a statement -/

/-- What is being read at one level of parentheses. -/
inductive Part where
  | other | fromList | withList
  deriving DecidableEq

/-- The levels of parentheses, the innermost one first; whether a table may come next,
whether a definition may come next, and whether a parenthesis was just opened. -/
structure Place where
  levels : List Part
  table : Bool
  definition : Bool
  opened : Bool
  deriving DecidableEq

def Place.start : Place := ⟨[.other], false, false, false⟩

def Place.top (p : Place) : Part := p.levels.headD .other

/-- The words after which a list of tables is over. -/
def endWords : List String :=
  ["where", "group", "having", "window", "union", "intersect", "except", "order", "limit",
    "offset", "fetch", "for", "returning"]

/-- The words that begin a query. -/
def queryWords : List String := ["select", "values", "insert", "update", "delete", "merge"]

section
variable (casing : Casing)

/-- Stay at this level, in another part. -/
def Place.enter (p : Place) (part : Part) : Place := ⟨part :: p.levels.tail, false, false, false⟩

def Place.next (p : Place) (t : Token) : Place :=
  if t.isPunct '(' then ⟨(if p.table then .fromList else .other) :: p.levels, p.table, false, true⟩
  else if t.isPunct ')' then ⟨p.levels.tail, false, false, false⟩
  else if t.isPunct ',' then
    ⟨p.levels, p.top = .fromList, p.top = .withList, false⟩
  else if isOneOf casing ["from"] t then { p.enter .fromList with table := true }
  else if isOneOf casing ["join"] t then ⟨p.levels, true, false, false⟩
  else if isOneOf casing ["with"] t ∧ (p.opened ∨ p.top ≠ .fromList) then
    { p.enter .withList with definition := true }
  else if isOneOf casing ["recursive"] t then ⟨p.levels, false, p.definition, false⟩
  else if isOneOf casing (endWords ++ queryWords) t ∨ isOneOf casing ["table"] t ∧ p.opened then
    p.enter .other
  else ⟨p.levels, false, false, false⟩

/-- What follows a closing parenthesis. -/
def afterParenthesis : ℕ → List Token → List Token
  | _, [] => []
  | depth, t :: ts =>
      if t.isPunct '(' then afterParenthesis (depth + 1) ts
      else if t.isPunct ')' then
        match depth with
        | 0 => ts
        | depth + 1 => afterParenthesis depth ts
      else afterParenthesis depth ts

/-- `[ ( columns ) ] AS [ [ NOT ] MATERIALIZED ] (`, behind the name of a definition. -/
def isDefined (ts : List Token) : Bool :=
  let ts := if starts '(' ts then afterParenthesis 0 ts.tail else ts
  (ts.head?.any fun t => isOneOf casing ["as"] t) &&
    starts '(' (ts.tail.dropWhile fun t => isOneOf casing ["not", "materialized"] t)

/-- The names that `WITH` clauses define. -/
def definedFrom : Place → List Token → List Text
  | _, [] => []
  | p, t :: ts =>
      let p := p.next casing t
      (match readName casing ts with
        | some (n, rest) => if p.definition ∧ isDefined casing rest then [n] else []
        | none => []) ++ definedFrom p ts

/-- A name that is no function call. -/
def nameAt (ts : List Token) : Option Text :=
  match readName casing ts with
  | some (n, rest) => if starts '(' rest then none else some n
  | none => none

/-- A name behind this token is a table. -/
def opensTable (p : Place) (t : Token) : Bool :=
  isOneOf casing ["from", "join", "table"] t ∨ t.isPunct ',' ∧ p.top = .fromList

def namesFrom : Place → List Token → List Text
  | _, [] => []
  | p, t :: ts =>
      (if opensTable casing p t then (nameAt casing ts).toList else []) ++
        namesFrom (p.next casing t) ts

/-- The tables of a statement. -/
def tableNames (ts : List Token) : List Text :=
  (namesFrom casing .start ts).filter fun n => n ∉ definedFrom casing .start ts

/-! ## What the scan misses -/

/-- The last word before that begins a source or a clause is `FROM`. -/
def listed (first last : Bool) (t : Token) : Bool :=
  if isSource casing first t then isOneOf casing ["from"] t
  else if isOneOf casing clauseWords t then false else last

/-- Names after a `TABLE` that is not the first word, and after a comma of a list of tables
when the last source or clause word before it is not `FROM`. -/
def hiddenFrom : Place → Bool → Bool → List Token → List Text
  | _, _, _, [] => []
  | p, first, last, t :: ts =>
      (if isOneOf casing ["table"] t ∧ ¬first ∨ t.isPunct ',' ∧ p.top = .fromList ∧ ¬last then
        (nameAt casing ts).toList else []) ++
        hiddenFrom (p.next casing t) false (listed casing first last t) ts

/-- The tables of a statement that the scan does not see, or takes for the name of a common
table expression. -/
def overlooked (ts : List Token) : List Text :=
  (tableNames casing ts).filter fun n =>
    n ∈ hiddenFrom casing .start true false ts ∨ n ∈ cteNames casing ts

/-! ## What the scan finds -/

variable {casing}

theorem isOneOf_iff {ws : List String} {t : Token} :
    isOneOf casing ws t = true ↔ ∃ w ∈ ws, w.toList = lower casing t := by
  simp [isOneOf]

theorem isOneOf_punct (casing : Casing) {ws : List String} {t : Token} {c : Char}
    (h : t.isPunct c = true) (hws : "" ∉ ws) : isOneOf casing ws t = false := by
  have hkind : t.kind = .punct := (of_decide_eq_true h).1
  rw [← Bool.not_eq_true, isOneOf_iff]
  intro ⟨w, hw, hlower⟩
  rw [lower, if_neg (by simp [hkind])] at hlower
  rw [String.toList_eq_nil_iff.mp hlower] at hw
  exact hws hw

variable (casing) in
/-- The scan behind a word that a table can follow. -/
def scanName (cte : List Text) (b : Bool) (ts : List Token) (f : Found) : Found :=
  match readName casing ts with
  | none => scan casing cte false b ts f
  | some (n, rest) =>
      if starts '(' rest then
        scan casing cte false b ts { f with functionsInFrom := f.functionsInFrom ++ [n] }
      else if n ∈ cte ∨ n ∈ f.tables then scan casing cte false b ts f
      else scan casing cte false b ts { f with tables := f.tables ++ [n] }

/-- The scan goes on with the flag that `listed` says and loses nothing. -/
theorem scan_cons (cte : List Text) (first last : Bool) (t : Token) (ts : List Token) (f : Found) :
    ∃ f' : Found, f.tables ⊆ f'.tables ∧ scan casing cte first last (t :: ts) f =
      scan casing cte false (listed casing first last t) ts f' := by
  have hvisit : ∀ b, ∃ f' : Found, f.tables ⊆ f'.tables ∧
      scanName casing cte b ts f = scan casing cte false b ts f' := by
    intro b
    unfold scanName
    split
    · exact ⟨f, List.Subset.refl _, rfl⟩
    next n rest _ =>
      split_ifs
      · exact ⟨⟨f.tables, f.functionsInFrom ++ [n]⟩, List.Subset.refl _, rfl⟩
      · exact ⟨f, List.Subset.refl _, rfl⟩
      · exact ⟨⟨f.tables ++ [n], f.functionsInFrom⟩, List.subset_append_left _ _, rfl⟩
  rw [scan, listed]
  dsimp only
  by_cases hsource : isSource casing first t = true
  · rw [if_pos (.inl hsource), if_pos hsource, if_pos hsource]
    exact hvisit _
  · rw [if_neg hsource, if_neg hsource]
    by_cases hcomma : last = true ∧ t.isPunct ',' = true
    · have hword : isOneOf casing clauseWords t = false :=
        isOneOf_punct casing hcomma.2 (by decide)
      rw [if_pos (.inr hcomma), if_neg (by simp [hword])]
      exact hvisit _
    · rw [if_neg (not_or.mpr ⟨hsource, hcomma⟩)]
      exact ⟨f, List.Subset.refl _, rfl⟩

theorem mem_scan {cte : List Text} {n : Text} {first last : Bool} {ts : List Token} {f : Found}
    (h : n ∈ f.tables) : n ∈ (scan casing cte first last ts f).tables := by
  induction ts generalizing first last f with
  | nil => exact h
  | cons t ts ih =>
    obtain ⟨f', hsub, hscan⟩ := scan_cons cte first last t ts f
    rw [hscan]
    exact ih (hsub h)

/-- A name behind a source word, or behind a comma while the flag is set, is found unless it
is taken for a common table expression. -/
theorem mem_scan_of_nameAt {cte : List Text} {n : Text} {first last : Bool} {t : Token}
    {ts : List Token} {f : Found} (hname : nameAt casing ts = some n)
    (hopen : isSource casing first t = true ∨ last = true ∧ t.isPunct ',' = true)
    (hcte : n ∉ cte) : n ∈ (scan casing cte first last (t :: ts) f).tables := by
  unfold nameAt at hname
  split at hname
  next m rest hread =>
    split_ifs at hname with hcall
    cases hname
    rw [scan]
    dsimp only
    rw [if_pos hopen, hread]
    dsimp only
    rw [if_neg hcall]
    by_cases hfound : n ∈ f.tables
    · rw [if_pos (.inr hfound)]
      exact mem_scan hfound
    · rw [if_neg (not_or.mpr ⟨hcte, hfound⟩)]
      exact mem_scan (List.mem_append.mpr (.inr (List.mem_singleton.mpr rfl)))
  · cases hname

/-- A table is behind a source word of the scan, behind a later `TABLE` or behind a comma. -/
theorem opensTable_cases {p : Place} {t : Token} (first : Bool)
    (h : opensTable casing p t = true) :
    isSource casing first t = true ∨ isOneOf casing ["table"] t = true ∧ first = false ∨
      t.isPunct ',' = true ∧ p.top = .fromList := by
  rw [opensTable, decide_eq_true_eq] at h
  rcases h with h | h
  · rw [isOneOf_iff] at h
    simp only [isSource, isOneOf_iff, decide_eq_true_eq]
    cases first <;> simp_all
    all_goals tauto
  · exact .inr (.inr h)

/-- Every name of the statement is found, hidden or taken for a common table expression. -/
theorem mem_namesFrom {cte : List Text} {n : Text} {p : Place} (first last : Bool)
    {ts : List Token} (f : Found) (h : n ∈ namesFrom casing p ts) (hcte : n ∉ cte) :
    n ∈ hiddenFrom casing p first last ts ∨ n ∈ (scan casing cte first last ts f).tables := by
  induction ts generalizing p first last f with
  | nil => cases h
  | cons t ts ih =>
    rw [namesFrom, List.mem_append] at h
    rw [hiddenFrom, List.mem_append]
    rcases h with h | h
    · split_ifs at h with hopen
      · have hname : nameAt casing ts = some n := Option.mem_toList.mp h
        by_cases hseen : isSource casing first t = true ∨ last = true ∧ t.isPunct ',' = true
        · exact .inr (mem_scan_of_nameAt hname hseen hcte)
        · left
          left
          rw [not_or] at hseen
          rw [if_pos]
          · exact h
          · rcases opensTable_cases first hopen with hsource | ⟨htable, hfirst⟩ | hcomma
            · exact (hseen.1 hsource).elim
            · exact .inl ⟨htable, by simp [hfirst]⟩
            · exact .inr ⟨hcomma.1, hcomma.2, fun hlast => hseen.2 ⟨hlast, hcomma.1⟩⟩
      · cases h
    · obtain ⟨f', -, hf'⟩ := scan_cons cte first last t ts f
      rw [hf']
      rcases ih false (listed casing first last t) f' h with hhidden | hfound
      · exact .inl (.inr hhidden)
      · exact .inr hfound

/-- An accepted statement: the scan has found allowed tables only. -/
theorem checkSql_ok {sql : Text} {readOnly : Bool} {allowedTables : List Text}
    (hne : allowedTables ≠ []) (h : (checkSql casing sql readOnly allowedTables).ok = true) :
    ∃ ts, statement sql = .ok ts ∧
      ∀ n ∈ (found casing ts).tables, allows casing allowedTables n = true := by
  unfold checkSql at h
  split at h
  · cases h
  next ts hts =>
    refine ⟨ts, hts, ?_⟩
    split at h
    · cases h
    · split at h
      · cases h
      · dsimp only at h
        split at h
        · cases h
        next hissue =>
          rw [if_neg hne, tablesIssue] at hissue
          split_ifs at hissue
          split at hissue
          · cases hissue
          · dsimp only at hissue
            split_ifs at hissue with hdenied
            rw [not_not, List.filter_eq_nil_iff] at hdenied
            intro n hn
            simpa using hdenied n hn

end

/-- The tables of the statement are allowed. -/
def TablesAllowed (casing : Casing) (sql : Text) (allowedTables : List Text) : Prop :=
  ∀ ts, statement sql = .ok ts → ∀ n ∈ tableNames casing ts, allows casing allowedTables n = true

/-- An accepted statement has only allowed tables exactly if the overlooked ones are allowed. -/
theorem tablesAllowed_iff (casing : Casing) (sql : Text) (readOnly : Bool)
    (allowedTables : List Text) (hne : allowedTables ≠ [])
    (h : (checkSql casing sql readOnly allowedTables).ok = true) :
    TablesAllowed casing sql allowedTables ↔
      ∀ ts, statement sql = .ok ts →
        ∀ n ∈ overlooked casing ts, allows casing allowedTables n = true := by
  constructor
  · intro hall ts hts n hn
    exact hall ts hts n (List.mem_filter.mp hn).1
  · intro hall ts hts n hn
    obtain ⟨ts', hts', hfound⟩ := checkSql_ok hne h
    rw [hts, Except.ok.injEq] at hts'
    subst hts'
    by_cases hcte : n ∈ cteNames casing ts
    · apply hall ts hts
      exact List.mem_filter.mpr ⟨hn, by simp [hcte]⟩
    · have hname := (List.mem_filter.mp hn).1
      rcases mem_namesFrom true false ⟨[], []⟩ hname hcte with hhidden | hscan
      · apply hall ts hts
        exact List.mem_filter.mpr ⟨hn, by simp [hhidden]⟩
      · exact hfound n hscan

def asciiCasing : Casing := ⟨Text.asciiLower, id⟩

def commaBeforeTable : Text :=
  ['S', 'E', 'L', 'E', 'C', 'T', ' ', '*', ' ', 'F', 'R', 'O', 'M', ' ', 'o', 'r', 'd', 'e',
   'r', 's', ' ', 'o', ',', ' ', 'p', 'u', 'b', 'l', 'i', 'c', '.', 'c', 'u', 's', 't', 'o',
   'm', 'e', 'r', 's', ' ', 'c']

theorem toList_commaBeforeTable :
    "SELECT * FROM orders o, public.customers c".toList = commaBeforeTable :=
  String.toList_ofList

def commaAfterJoin : Text :=
  ['S', 'E', 'L', 'E', 'C', 'T', ' ', '*', ' ', 'F', 'R', 'O', 'M', ' ', 'o', 'r', 'd', 'e',
   'r', 's', ' ', 'o', ' ', 'J', 'O', 'I', 'N', ' ', 'o', 'r', 'd', 'e', 'r', 's', ' ', 'p',
   ' ', 'O', 'N', ' ', 't', 'r', 'u', 'e', ',', ' ', 's', 'e', 'c', 'r', 'e', 't', 's']

theorem toList_commaAfterJoin :
    "SELECT * FROM orders o JOIN orders p ON true, secrets".toList = commaAfterJoin :=
  String.toList_ofList

theorem checkSql_samples :
    (checkSql asciiCasing commaBeforeTable true
      ["orders".toList, "public.customers".toList]).ok = true ∧
    (checkSql asciiCasing commaAfterJoin true ["orders".toList]).ok = true ∧
    (statement commaAfterJoin).toOption.any
      (fun ts => "secrets".toList ∈ tableNames asciiCasing ts) = true ∧
    allows asciiCasing ["orders".toList] "secrets".toList = false := by
  decide +kernel

/-- Every table is seen by the scan. -/
theorem tablesAllowed_iff_join :
    (checkSql asciiCasing "SELECT * FROM orders o, public.customers c".toList true
      ["orders".toList, "public.customers".toList]).ok = true ∧
    (TablesAllowed asciiCasing "SELECT * FROM orders o, public.customers c".toList
      ["orders".toList, "public.customers".toList] ↔
      ∀ ts, statement "SELECT * FROM orders o, public.customers c".toList = .ok ts →
        ∀ n ∈ overlooked asciiCasing ts,
          allows asciiCasing ["orders".toList, "public.customers".toList] n = true) := by
  rw [toList_commaBeforeTable]
  have hok := checkSql_samples.1
  exact ⟨hok, tablesAllowed_iff _ _ true _ (by decide) hok⟩

/-- A comma after a join is not seen. -/
theorem secret_table_accepted :
    (checkSql asciiCasing "SELECT * FROM orders o JOIN orders p ON true, secrets".toList true
      ["orders".toList]).ok = true ∧
    ¬ TablesAllowed asciiCasing "SELECT * FROM orders o JOIN orders p ON true, secrets".toList
      ["orders".toList] := by
  rw [toList_commaAfterJoin]
  obtain ⟨-, hok, hseen, hrefused⟩ := checkSql_samples
  refine ⟨hok, fun h => ?_⟩
  obtain ⟨ts, hts, hmem⟩ : ∃ ts, statement commaAfterJoin = .ok ts ∧
      "secrets".toList ∈ tableNames asciiCasing ts := by
    cases hts : statement commaAfterJoin with
    | error e => simp [hts, Except.toOption] at hseen
    | ok ts =>
      rw [hts] at hseen
      exact ⟨ts, rfl, of_decide_eq_true hseen⟩
  exact absurd (h ts hts _ hmem) (by rw [hrefused]; decide)

end Prgd.SqlGuard
