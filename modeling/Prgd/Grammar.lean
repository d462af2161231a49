import Prgd.Expression

/-!
# The grammar of conditions

The grammar in the header of `expression.ts` as a relation between trees and tokens, the
spellings of the tokens, and the text of a tree with parentheses where the grammar needs them.
The parser reads a list of tokens as a tree exactly when the grammar derives it within the
nesting limit, and the tokenizer reads the spellings of tokens back as the tokens.
-/
namespace Prgd.Grammar
open Expression

/-! ## Derivations -/

/-- A literal or a reference and its token. -/
inductive Atom : Node → Tok → Prop where
  | num (v : JsNumber) : Atom (.lit (.num v)) (.num v)
  | str (v : Text) : Atom (.lit (.str v)) (.str v)
  | true : Atom (.lit (.bool true)) (.kw .true)
  | false : Atom (.lit (.bool false)) (.kw .false)
  | null : Atom (.lit .null) (.kw .null)
  | ref (path : Text) : Atom (.ref path) (.ref path)

/-- The nonterminals. A comparison is read by `unary`. -/
inductive Level where
  | or | and | unary | operand
  deriving DecidableEq

/-- The grammar, with redundant parentheses. The depth is that of the `expr` the phrase belongs
to; `unary` is two levels deeper, and parentheses open an `expr` five levels deeper. -/
inductive Phrase : ℕ → Level → Node → List Tok → Prop where
  | atom {d : ℕ} {n : Node} {t : Tok} : Atom n t → Phrase d .operand n [t]
  | parens {d : ℕ} {n : Node} {ts : List Tok} :
      Phrase (d + 5) .or n ts → Phrase d .operand n (.lp :: ts ++ [.rp])
  | operand {d : ℕ} {n : Node} {ts : List Tok} :
      d + 2 ≤ maxDepth → Phrase d .operand n ts → Phrase d .unary n ts
  | cmp {d : ℕ} {o : Op} {l r : Node} {ts us : List Tok} :
      d + 2 ≤ maxDepth → isComparison o = true → Phrase d .operand l ts →
      Phrase d .operand r us → Phrase d .unary (.cmp o l r) (ts ++ .op o :: us)
  | not {d : ℕ} {e : Node} {ts : List Tok} :
      d + 2 ≤ maxDepth → Phrase (d + 1) .unary e ts → Phrase d .unary (.not e) (.op .not :: ts)
  | unary {d : ℕ} {n : Node} {ts : List Tok} : Phrase d .unary n ts → Phrase d .and n ts
  | and {d : ℕ} {l r : Node} {ts us : List Tok} :
      Phrase d .and l ts → Phrase d .unary r us → Phrase d .and (.and l r) (ts ++ .op .and :: us)
  | conj {d : ℕ} {n : Node} {ts : List Tok} : Phrase d .and n ts → Phrase d .or n ts
  | or {d : ℕ} {l r : Node} {ts us : List Tok} :
      Phrase d .or l ts → Phrase d .and r us → Phrase d .or (.or l r) (ts ++ .op .or :: us)

/-! ## The parser's equations -/

theorem expr_succ (n : ℕ) (toks : List Tok) : expr (n + 1) toks =
    if maxDepth < levels - (n + 1) then .error "expression is nested too deeply".toList
    else (do
      let (l, toks) ← and n toks
      chain .or .or (and n) toks.length l toks) := rfl

theorem and_succ (n : ℕ) (toks : List Tok) : and (n + 1) toks = (do
    let (l, toks) ← unary n toks
    chain .and .and (unary n) toks.length l toks) := rfl

theorem compare_succ (n : ℕ) (toks : List Tok) : compare (n + 1) toks = (do
    let (l, toks) ← primary n toks
    match toks with
    | .op o :: toks =>
        if isComparison o then do
          let (r, toks) ← primary n toks
          return (.cmp o l r, toks)
        else return (l, .op o :: toks)
    | toks => return (l, toks)) := rfl

theorem unary_succ (n : ℕ) (toks : List Tok) : unary (n + 1) toks =
    if maxDepth < levels - (n + 1) then .error "expression is nested too deeply".toList
    else match toks with
      | .op .not :: toks => do
          let (e, toks) ← unary n toks
          return (.not e, toks)
      | toks => compare n toks := rfl

/-! ## What the parser reads is a phrase -/

theorem ok_of_bind {ε α β : Type} {x : Except ε α} {k : α → Except ε β} {b : β}
    (h : (x >>= k) = .ok b) : ∃ a, x = .ok a ∧ k a = .ok b := by
  cases x with
  | error e => cases h
  | ok a => exact ⟨a, rfl, h⟩

/-- Whatever is read stands for a phrase at the front. -/
def Reads (run : List Tok → Parsed) (P : Node → List Tok → Prop) : Prop :=
  ∀ toks n rest, run toks = .ok (n, rest) → ∃ ts, toks = ts ++ rest ∧ P n ts

/-- A loop that appends operands keeps to a left recursive rule. -/
theorem chain_reads {o : Op} {make : Node → Node → Node} {next : List Tok → Parsed}
    {P Q : Node → List Tok → Prop} (hnext : Reads next Q)
    (hmake : ∀ l r ts us, P l ts → Q r us → P (make l r) (ts ++ .op o :: us)) (k : ℕ) :
    ∀ l ts, P l ts → Reads (chain o make next k l) fun n us => P n (ts ++ us) := by
  induction k with
  | zero =>
    intro l ts hl toks n rest h
    cases h
    exact ⟨[], rfl, by simpa using hl⟩
  | succ k ih =>
    intro l ts hl toks n rest h
    have hstop : chain o make next (k + 1) l toks = .ok (l, toks) →
        ∃ us, toks = us ++ rest ∧ P n (ts ++ us) := by
      intro hstop
      rw [hstop] at h
      cases h
      exact ⟨[], rfl, by simpa using hl⟩
    cases toks with
    | nil => exact hstop rfl
    | cons t toks =>
      cases t with
      | op o' =>
        by_cases ho : o' = o
        · subst ho
          rw [chain, if_pos rfl] at h
          obtain ⟨⟨r, toks'⟩, hr, hloop⟩ := ok_of_bind h
          obtain ⟨us, rfl, hus⟩ := hnext toks r toks' hr
          obtain ⟨vs, rfl, hvs⟩ := ih (make l r) _ (hmake l r ts us hl hus) toks' n rest hloop
          rw [List.append_assoc, List.cons_append] at hvs
          exact ⟨.op o' :: us ++ vs, by simp, hvs⟩
        · exact hstop (by rw [chain, if_neg ho])
      | num _ | str _ | kw _ | ref _ | lp | rp => exact hstop rfl

theorem primary_reads {d n : ℕ} (hexpr : Reads (expr n) (Phrase (d + 5) .or)) :
    Reads (primary (n + 1)) (Phrase d .operand) := by
  intro toks e rest h
  cases toks with
  | nil => cases h
  | cons t toks =>
    have hatom : ∀ {e' : Node}, Atom e' t → (.ok (e', toks) : Parsed) = .ok (e, rest) →
        ∃ ts, t :: toks = ts ++ rest ∧ Phrase d .operand e ts := by
      intro e' he' heq
      cases heq
      exact ⟨[t], rfl, .atom he'⟩
    cases t with
    | num v => exact hatom (.num v) h
    | str v => exact hatom (.str v) h
    | kw v =>
      cases v with
      | true => exact hatom .true h
      | false => exact hatom .false h
      | null => exact hatom .null h
    | ref path => exact hatom (.ref path) h
    | lp =>
      obtain ⟨⟨e', toks'⟩, he', hclose⟩ := ok_of_bind h
      obtain ⟨ts, rfl, hts⟩ := hexpr toks e' toks' he'
      cases toks' with
      | nil => cases hclose
      | cons t toks' =>
        cases t with
        | rp =>
          cases hclose
          exact ⟨.lp :: ts ++ [.rp], by simp, .parens hts⟩
        | num _ | str _ | kw _ | ref _ | op _ | lp => cases hclose
    | rp => cases h
    | op o => cases h

theorem compare_reads {d n : ℕ} (hd : d + 2 ≤ maxDepth)
    (hprimary : Reads (primary n) (Phrase d .operand)) :
    Reads (compare (n + 1)) (Phrase d .unary) := by
  intro toks e rest h
  rw [compare_succ] at h
  obtain ⟨⟨l, toks'⟩, hl, hrest⟩ := ok_of_bind h
  obtain ⟨ts, rfl, hts⟩ := hprimary toks l toks' hl
  have hone : (.ok (l, toks') : Parsed) = .ok (e, rest) →
      ∃ us, ts ++ toks' = us ++ rest ∧ Phrase d .unary e us := by
    intro heq
    cases heq
    exact ⟨ts, rfl, .operand hd hts⟩
  cases toks' with
  | nil => exact hone hrest
  | cons t toks' =>
    cases t with
    | op o =>
      dsimp only at hrest
      split at hrest
      next ho =>
        obtain ⟨⟨r, toks''⟩, hr, hend⟩ := ok_of_bind hrest
        obtain ⟨us, rfl, hus⟩ := hprimary toks' r toks'' hr
        cases hend
        exact ⟨ts ++ .op o :: us, by simp, .cmp hd ho hts hus⟩
      next => exact hone hrest
    | num _ | str _ | kw _ | ref _ | lp | rp => exact hone hrest

theorem unary_reads {d n : ℕ} (hn : n + 1 + (d + 2) = levels)
    (hunary : Reads (unary n) (Phrase (d + 1) .unary))
    (hcompare : d + 2 ≤ maxDepth → Reads (compare n) (Phrase d .unary)) :
    Reads (unary (n + 1)) (Phrase d .unary) := by
  intro toks e rest h
  rw [unary_succ] at h
  split at h
  next => cases h
  next hdepth =>
    have hd : d + 2 ≤ maxDepth := by
      rw [levels] at hn hdepth
      omega
    cases toks with
    | nil => exact hcompare hd [] e rest h
    | cons t toks =>
      cases t with
      | op o =>
        cases o with
        | not =>
          obtain ⟨⟨e', toks'⟩, he', hend⟩ := ok_of_bind h
          obtain ⟨ts, rfl, hts⟩ := hunary toks e' toks' he'
          cases hend
          exact ⟨.op .not :: ts, rfl, .not hd hts⟩
        | seq | sne | eq | ne | ge | le | and | or | gt | lt | contains =>
          exact hcompare hd _ e rest h
      | num _ | str _ | kw _ | ref _ | lp | rp => exact hcompare hd _ e rest h

theorem and_reads {d n : ℕ} (hunary : Reads (unary n) (Phrase d .unary)) :
    Reads (and (n + 1)) (Phrase d .and) := by
  intro toks e rest h
  rw [and_succ] at h
  obtain ⟨⟨l, toks'⟩, hl, hloop⟩ := ok_of_bind h
  obtain ⟨ts, rfl, hts⟩ := hunary toks l toks' hl
  obtain ⟨us, rfl, hus⟩ := chain_reads (P := Phrase d .and) hunary (fun _ _ _ _ => Phrase.and) _
    l ts (.unary hts) toks' e rest hloop
  exact ⟨ts ++ us, (List.append_assoc ts us rest).symm, hus⟩

theorem expr_reads {d n : ℕ} (hand : Reads (and n) (Phrase d .and)) :
    Reads (expr (n + 1)) (Phrase d .or) := by
  intro toks e rest h
  rw [expr_succ] at h
  split at h
  next => cases h
  next =>
    obtain ⟨⟨l, toks'⟩, hl, hloop⟩ := ok_of_bind h
    obtain ⟨ts, rfl, hts⟩ := hand toks l toks' hl
    obtain ⟨us, rfl, hus⟩ := chain_reads (P := Phrase d .or) hand (fun _ _ _ _ => Phrase.or) _
      l ts (.conj hts) toks' e rest hloop
    exact ⟨ts ++ us, (List.append_assoc ts us rest).symm, hus⟩

/-- What each function of the parser reads at its depth. -/
structure ParserReads (n : ℕ) : Prop where
  expr : ∀ d, n + d = levels → Reads (expr n) (Phrase d .or)
  and : ∀ d, n + (d + 1) = levels → Reads (Expression.and n) (Phrase d .and)
  unary : ∀ d, n + (d + 2) = levels → Reads (Expression.unary n) (Phrase d .unary)
  compare : ∀ d, n + (d + 3) = levels → d + 2 ≤ maxDepth →
    Reads (Expression.compare n) (Phrase d .unary)
  primary : ∀ d, n + (d + 4) = levels → Reads (Expression.primary n) (Phrase d .operand)

theorem parserReads (n : ℕ) : ParserReads n := by
  induction n with
  | zero =>
    constructor
    all_goals
      intros
      intro toks e rest h
      cases h
  | succ n ih =>
    exact {
      expr := fun d hd => expr_reads (ih.and d (by omega))
      and := fun d hd => and_reads (ih.unary d (by omega))
      unary := fun d hd => unary_reads hd (ih.unary (d + 1) (by omega)) fun hmax =>
        ih.compare d (by omega) hmax
      compare := fun d hd hmax => compare_reads hmax (ih.primary d (by omega))
      primary := fun d hd => primary_reads (ih.expr (d + 5) (by omega)) }

/-! ## A phrase is read -/

/-- No comparison follows. -/
def Ends (rest : List Tok) : Prop := ∀ o us, rest = .op o :: us → isComparison o = false

/-- The next round of a loop is its last. -/
theorem chain_stops {o : Op} {make : Node → Node → Node} {next : List Tok → Parsed} {k : ℕ}
    {l : Node} {rest : List Tok} (h : ∀ us, rest ≠ .op o :: us) :
    chain o make next k l rest = .ok (l, rest) := by
  cases k with
  | zero => rfl
  | succ k =>
    cases rest with
    | nil => rfl
    | cons t rest =>
      cases t with
      | op o' =>
        rw [chain, if_neg]
        rintro rfl
        exact h rest rfl
      | num _ | str _ | kw _ | ref _ | lp | rp => rfl

theorem chain_round {o : Op} {make : Node → Node → Node} {next : List Tok → Parsed} {k : ℕ}
    {l r : Node} {toks rest : List Tok} (h : next toks = .ok (r, rest)) :
    chain o make next (k + 1) l (.op o :: toks) = chain o make next k (make l r) rest := by
  rw [chain, if_pos rfl, h]
  rfl

/-- How the parser reads a phrase: a loop has its last operand behind it. -/
def Taken (d : ℕ) (n : Node) (ts : List Tok) : Level → Prop
  | .operand => ∀ f rest, f + 1 + (d + 4) = levels → primary (f + 1) (ts ++ rest) = .ok (n, rest)
  | .unary => ∀ f rest, f + 1 + (d + 2) = levels → Ends rest →
      Expression.unary (f + 1) (ts ++ rest) = .ok (n, rest)
  | .and => ∀ f rest, f + 1 + (d + 1) = levels → Ends rest → ∃ k, rest.length ≤ k ∧
      Expression.and (f + 1) (ts ++ rest) = chain .and .and (Expression.unary f) k n rest
  | .or => ∀ f rest, f + 1 + d = levels → Ends rest → (∀ us, rest ≠ .op .and :: us) →
      ∃ k, rest.length ≤ k ∧
        expr (f + 1) (ts ++ rest) = chain .or .or (Expression.and f) k n rest

theorem depth_le {d : ℕ} {p : Level} {n : Node} {ts : List Tok} (h : Phrase d p n ts)
    (hp : p ≠ .operand) : d + 2 ≤ maxDepth := by
  induction h with
  | atom _ | parens _ _ => exact absurd rfl hp
  | operand hd _ _ | cmp hd _ _ _ _ _ | not hd _ _ => exact hd
  | unary _ ih | and _ _ ih _ | conj _ ih | or _ _ ih _ => exact ih nofun

theorem expr_of_taken {d : ℕ} {n : Node} {ts : List Tok} (h : Taken d n ts .or) {f : ℕ}
    (hf : f + 1 + d = levels) {rest : List Tok} (hrest : ∀ o us, rest ≠ .op o :: us) :
    expr (f + 1) (ts ++ rest) = .ok (n, rest) := by
  obtain ⟨k, -, hk⟩ := h f rest hf (fun o us heq => absurd heq (hrest o us)) (hrest _)
  rw [hk, chain_stops (hrest _)]

theorem unary_of_compare {f d : ℕ} (hf : f + 1 + (d + 2) = levels) (hd : d + 2 ≤ maxDepth)
    {toks : List Tok} (hnot : ∀ us, toks ≠ .op .not :: us) :
    Expression.unary (f + 1) toks = Expression.compare f toks := by
  rw [unary_succ, if_neg (by rw [levels] at hf ⊢; omega)]
  cases toks with
  | nil => rfl
  | cons t toks =>
    cases t with
    | op o =>
      cases o with
      | not => exact absurd rfl (hnot toks)
      | seq | sne | eq | ne | ge | le | and | or | gt | lt | contains => rfl
    | num _ | str _ | kw _ | ref _ | lp | rp => rfl

/-- An operand does not begin with an operator. -/
theorem operand_head {d : ℕ} {n : Node} {ts : List Tok} (h : Phrase d .operand n ts)
    (o : Op) (us rest : List Tok) : ts ++ rest ≠ .op o :: us := by
  cases h with
  | atom ha =>
    cases ha <;> exact fun heq => nomatch (List.cons.inj heq).1
  | parens _ => exact fun heq => nomatch (List.cons.inj heq).1

/-- A depth below the limit leaves another call. -/
theorem exists_call {f d k : ℕ} (hf : f + (d + k) = levels) (hd : d + k ≤ maxDepth + 2) :
    ∃ g, f = g + 1 :=
  ⟨f - 1, by rw [levels] at hf; omega⟩

theorem parens_taken {d : ℕ} {n : Node} {ts : List Tok} (hd : d + 5 + 2 ≤ maxDepth)
    (h : Taken (d + 5) n ts .or) : Taken d n (.lp :: ts ++ [.rp]) .operand := by
  intro f rest hf
  obtain ⟨g, rfl⟩ := exists_call (k := 5) (by omega : f + (d + 5) = levels) (by omega)
  have hexpr : expr (g + 1) (ts ++ .rp :: rest) = .ok (n, .rp :: rest) :=
    expr_of_taken h (by omega) fun o us heq => nomatch (List.cons.inj heq).1
  have hsplit : .lp :: ts ++ [.rp] ++ rest = .lp :: (ts ++ .rp :: rest) := by simp
  rw [hsplit, primary, hexpr]
  rfl

theorem operand_taken {d : ℕ} {n : Node} {ts : List Tok} (hd : d + 2 ≤ maxDepth)
    (hts : Phrase d .operand n ts) (h : Taken d n ts .operand) : Taken d n ts .unary := by
  intro f rest hf hends
  obtain ⟨g, rfl⟩ := exists_call (k := 3) (by omega : f + (d + 3) = levels) (by omega)
  obtain ⟨g, rfl⟩ := exists_call (k := 4) (by omega : g + (d + 4) = levels) (by omega)
  rw [unary_of_compare hf hd fun us => operand_head hts .not us rest, compare_succ,
    h g rest (by omega)]
  cases rest with
  | nil => rfl
  | cons t rest =>
    cases t with
    | op o =>
      have ho : ¬ isComparison o = true := by simp [hends o rest rfl]
      exact if_neg ho
    | num _ | str _ | kw _ | ref _ | lp | rp => rfl

theorem cmp_taken {d : ℕ} {o : Op} {l r : Node} {ts us : List Tok} (hd : d + 2 ≤ maxDepth)
    (ho : isComparison o = true) (hts : Phrase d .operand l ts) (hl : Taken d l ts .operand)
    (hr : Taken d r us .operand) : Taken d (.cmp o l r) (ts ++ .op o :: us) .unary := by
  intro f rest hf _
  obtain ⟨g, rfl⟩ := exists_call (k := 3) (by omega : f + (d + 3) = levels) (by omega)
  obtain ⟨g, rfl⟩ := exists_call (k := 4) (by omega : g + (d + 4) = levels) (by omega)
  rw [List.append_assoc, List.cons_append,
    unary_of_compare hf hd fun vs => operand_head hts .not vs _, compare_succ,
    hl g _ (by omega)]
  have hr := hr g rest (by omega)
  exact (if_pos ho).trans (by rw [hr]; rfl)

theorem not_taken {d : ℕ} {e : Node} {ts : List Tok} (he : Phrase (d + 1) .unary e ts)
    (h : Taken (d + 1) e ts .unary) : Taken d (.not e) (.op .not :: ts) .unary := by
  intro f rest hf hends
  have := depth_le he nofun
  obtain ⟨g, rfl⟩ := exists_call (k := 3) (by omega : f + (d + 3) = levels) (by omega)
  rw [List.cons_append, unary_succ, if_neg (by rw [levels] at hf ⊢; omega)]
  dsimp only
  rw [h g rest (by omega) hends]
  rfl

theorem unary_taken {d : ℕ} {n : Node} {ts : List Tok} (hd : d + 2 ≤ maxDepth)
    (h : Taken d n ts .unary) : Taken d n ts .and := by
  intro f rest hf hends
  obtain ⟨g, rfl⟩ := exists_call (k := 2) (by omega : f + (d + 2) = levels) (by omega)
  exact ⟨rest.length, le_rfl, by rw [and_succ, h g rest (by omega) hends]; rfl⟩

/-- An operator that joins conditions ends a comparison. -/
theorem ends_op {o : Op} (ho : isComparison o = false) (us : List Tok) : Ends (.op o :: us) := by
  intro o' us' heq
  cases heq
  exact ho

theorem and_taken {d : ℕ} {l r : Node} {ts us : List Tok} (hd : d + 2 ≤ maxDepth)
    (hl : Taken d l ts .and) (hr : Taken d r us .unary) :
    Taken d (.and l r) (ts ++ .op .and :: us) .and := by
  intro f rest hf hends
  obtain ⟨g, rfl⟩ := exists_call (k := 2) (by omega : f + (d + 2) = levels) (by omega)
  obtain ⟨k, hk, hread⟩ := hl (g + 1) (.op .and :: (us ++ rest)) (by omega) (ends_op rfl _)
  rw [List.length_cons, List.length_append] at hk
  obtain ⟨k, rfl⟩ : ∃ j, k = j + 1 := ⟨k - 1, by omega⟩
  refine ⟨k, by omega, ?_⟩
  rw [List.append_assoc, List.cons_append, hread, chain_round (hr g rest (by omega) hends)]

theorem and_of_taken {d : ℕ} {n : Node} {ts : List Tok} (h : Taken d n ts .and) {f : ℕ}
    (hf : f + 1 + (d + 1) = levels) {rest : List Tok} (hends : Ends rest)
    (hrest : ∀ us, rest ≠ .op .and :: us) :
    Expression.and (f + 1) (ts ++ rest) = .ok (n, rest) := by
  obtain ⟨k, -, hk⟩ := h f rest hf hends
  rw [hk, chain_stops hrest]

theorem conj_taken {d : ℕ} {n : Node} {ts : List Tok} (hd : d + 2 ≤ maxDepth)
    (h : Taken d n ts .and) : Taken d n ts .or := by
  intro f rest hf hends hand
  obtain ⟨g, rfl⟩ := exists_call (k := 1) (by omega : f + (d + 1) = levels) (by omega)
  refine ⟨rest.length, le_rfl, ?_⟩
  rw [expr_succ, if_neg (by rw [levels] at hf ⊢; omega), and_of_taken h (by omega) hends hand]
  rfl

theorem or_taken {d : ℕ} {l r : Node} {ts us : List Tok} (hd : d + 2 ≤ maxDepth)
    (hl : Taken d l ts .or) (hr : Taken d r us .and) :
    Taken d (.or l r) (ts ++ .op .or :: us) .or := by
  intro f rest hf hends hand
  obtain ⟨g, rfl⟩ := exists_call (k := 1) (by omega : f + (d + 1) = levels) (by omega)
  obtain ⟨k, hk, hread⟩ := hl (g + 1) (.op .or :: (us ++ rest)) (by omega) (ends_op rfl _)
    fun vs heq => nomatch (List.cons.inj heq).1
  rw [List.length_cons, List.length_append] at hk
  obtain ⟨k, rfl⟩ : ∃ j, k = j + 1 := ⟨k - 1, by omega⟩
  refine ⟨k, by omega, ?_⟩
  rw [List.append_assoc, List.cons_append, hread,
    chain_round (and_of_taken hr (by omega) hends hand)]

theorem phrase_taken {d : ℕ} {p : Level} {n : Node} {ts : List Tok} (h : Phrase d p n ts) :
    Taken d n ts p := by
  induction h with
  | atom ha =>
    intro f rest _
    cases ha <;> rfl
  | parens hts ih => exact parens_taken (depth_le hts nofun) ih
  | operand hd hts ih => exact operand_taken hd hts ih
  | cmp hd ho hl _ ihl ihr => exact cmp_taken hd ho hl ihl ihr
  | not _ he ih => exact not_taken he ih
  | unary hts ih => exact unary_taken (depth_le hts nofun) ih
  | and hl _ ihl ihr => exact and_taken (depth_le hl nofun) ihl ihr
  | conj hts ih => exact conj_taken (depth_le hts nofun) ih
  | or hl _ ihl ihr => exact or_taken (depth_le hl nofun) ihl ihr

/-- The parser accepts exactly the phrases of the grammar within the nesting limit. -/
theorem expr_eq_ok_iff {toks : List Tok} {n : Node} :
    expr levels toks = .ok (n, []) ↔ Phrase 0 .or n toks := by
  constructor
  · intro h
    obtain ⟨ts, rfl, hts⟩ := (parserReads levels).expr 0 rfl toks n [] h
    rwa [List.append_nil]
  · intro h
    have hexpr : expr levels (toks ++ []) = .ok (n, []) :=
      expr_of_taken (phrase_taken h) rfl fun _ _ hnil => nomatch hnil
    rwa [List.append_nil] at hexpr

/-! ## The tokens of a tree -/

/-- The trees of the grammar. -/
inductive Condition : Node → Prop where
  | atom {n : Node} {t : Tok} : Atom n t → Condition n
  | not {e : Node} : Condition e → Condition (.not e)
  | and {l r : Node} : Condition l → Condition r → Condition (.and l r)
  | or {l r : Node} : Condition l → Condition r → Condition (.or l r)
  | cmp {o : Op} {l r : Node} : isComparison o = true → Condition l → Condition r → Condition (.cmp o l r)

/-- The tree needs no parentheses where the level is read. -/
def fits (p : Level) : Node → Bool
  | .lit _ | .ref _ => true
  | .cmp _ _ _ | .not _ => p ≠ .operand
  | .and _ _ => p = .and ∨ p = .or
  | .or _ _ => p = .or

/-- Parentheses where they are needed. -/
def wrap (p : Level) (n : Node) (ts : List Tok) : List Tok :=
  if fits p n then ts else .lp :: ts ++ [.rp]

def literal : JsValue → List Tok
  | .num v => [.num v]
  | .str v => [.str v]
  | .bool true => [.kw .true]
  | .bool false => [.kw .false]
  | .null => [.kw .null]
  | _ => []

def toks : Node → List Tok
  | .lit v => literal v
  | .ref path => [.ref path]
  | .not e => .op .not :: wrap .unary e (toks e)
  | .and l r => wrap .and l (toks l) ++ .op .and :: wrap .unary r (toks r)
  | .or l r => wrap .or l (toks l) ++ .op .or :: wrap .and r (toks r)
  | .cmp o l r => wrap .operand l (toks l) ++ .op o :: wrap .operand r (toks r)

example : toks (.or (.ref ['a']) (.and (.ref ['b']) (.not (.cmp .eq (.ref ['c']) (.lit .null))))) =
    [.ref ['a'], .op .or, .ref ['b'], .op .and, .op .not, .ref ['c'], .op .eq, .kw .null] := rfl

/-- Parentheses cost five levels. -/
def deepAt (p : Level) (n : Node) (k : ℕ) : ℕ := if fits p n then k else k + 5

/-- The depth that reading the tree's tokens takes. -/
def deep : Node → ℕ
  | .lit _ | .ref _ => 2
  | .not e => deepAt .unary e (deep e) + 1
  | .and l r => max (deepAt .and l (deep l)) (deepAt .unary r (deep r))
  | .or l r => max (deepAt .or l (deep l)) (deepAt .and r (deep r))
  | .cmp _ l r => max (deepAt .operand l (deep l)) (deepAt .operand r (deep r))

theorem le_deepAt (p : Level) (n : Node) (k : ℕ) : k ≤ deepAt p n k := by
  rw [deepAt]
  split <;> omega

theorem two_le_deep (n : Node) : 2 ≤ deep n := by
  induction n with
  | lit _ | ref _ => exact le_rfl
  | not e ih => exact (ih.trans (le_deepAt _ _ _)).trans (Nat.le_succ _)
  | and l r ihl _ | or l r ihl _ | cmp _ l r ihl _ =>
    exact (ihl.trans (le_deepAt _ _ _)).trans (le_max_left _ _)

/-- The level at which a tree is read without parentheses. -/
def level : Node → Level
  | .lit _ | .ref _ => .operand
  | .cmp _ _ _ | .not _ => .unary
  | .and _ _ => .and
  | .or _ _ => .or

theorem phrase_or {d : ℕ} {p : Level} {n : Node} {ts : List Tok} (hd : d + 2 ≤ maxDepth)
    (h : Phrase d p n ts) : Phrase d .or n ts := by
  cases p with
  | or => exact h
  | and => exact .conj h
  | unary => exact .conj (.unary h)
  | operand => exact .conj (.unary (.operand hd h))

theorem phrase_operand {d : ℕ} {p : Level} {n : Node} {ts : List Tok} (hd : d + 2 ≤ maxDepth)
    (h : Phrase d .operand n ts) : Phrase d p n ts := by
  cases p with
  | or => exact .conj (.unary (.operand hd h))
  | and => exact .unary (.operand hd h)
  | unary => exact .operand hd h
  | operand => exact h

theorem phrase_fits {d : ℕ} {p : Level} {n : Node} {ts : List Tok} (hd : d + 2 ≤ maxDepth)
    (h : Phrase d (level n) n ts) (hfits : fits p n = true) : Phrase d p n ts := by
  cases n with
  | lit _ | ref _ => exact phrase_operand hd h
  | not _ | cmp _ _ _ =>
    cases p with
    | or => exact .conj (.unary h)
    | and => exact .unary h
    | unary => exact h
    | operand => cases hfits
  | and _ _ =>
    cases p with
    | or => exact .conj h
    | and => exact h
    | unary | operand => cases hfits
  | or _ _ =>
    cases p with
    | or => exact h
    | and | unary | operand => cases hfits

/-- A tree with parentheses around it where its place needs them. -/
theorem phrase_wrap {p : Level} {n : Node}
    (h : ∀ d, d + deep n ≤ maxDepth → Phrase d (level n) n (toks n)) {d : ℕ}
    (hd : d + deepAt p n (deep n) ≤ maxDepth) : Phrase d p n (wrap p n (toks n)) := by
  have htwo := two_le_deep n
  rw [wrap]
  rw [deepAt] at hd
  split at hd
  next hfits =>
    rw [if_pos hfits]
    exact phrase_fits (by omega) (h d hd) hfits
  next hfits =>
    rw [if_neg hfits]
    exact phrase_operand (by omega) (.parens (phrase_or (by omega) (h (d + 5) (by omega))))

theorem phrase_toks {n : Node} (hn : Condition n) :
    ∀ d, d + deep n ≤ maxDepth → Phrase d (level n) n (toks n) := by
  induction hn with
  | atom ha =>
    intro d _
    cases ha <;> exact .atom (by constructor)
  | @not e _ ih =>
    intro d hd
    rw [deep] at hd
    have htwo := (two_le_deep e).trans (le_deepAt .unary e _)
    exact .not (by omega) (phrase_wrap ih (by omega))
  | and _ _ ihl ihr =>
    intro d hd
    rw [deep] at hd
    exact .and (phrase_wrap ihl (by omega)) (phrase_wrap ihr (by omega))
  | or _ _ ihl ihr =>
    intro d hd
    rw [deep] at hd
    exact .or (phrase_wrap ihl (by omega)) (phrase_wrap ihr (by omega))
  | @cmp o l r ho _ _ ihl ihr =>
    intro d hd
    have htwo := two_le_deep (.cmp o l r)
    rw [deep] at hd htwo
    exact .cmp (by omega) ho (phrase_wrap ihl (by omega)) (phrase_wrap ihr (by omega))

theorem condition_of_phrase {d : ℕ} {p : Level} {n : Node} {ts : List Tok} (h : Phrase d p n ts) :
    Condition n := by
  induction h with
  | atom ha => exact .atom ha
  | parens _ ih | operand _ _ ih | unary _ ih | conj _ ih => exact ih
  | cmp _ ho _ _ ihl ihr => exact .cmp ho ihl ihr
  | not _ _ ih => exact .not ih
  | and _ _ ihl ihr => exact .and ihl ihr
  | or _ _ ihl ihr => exact .or ihl ihr

theorem fits_or (n : Node) : fits .or n = true := by
  cases n <;> rfl

theorem fits_unary {n : Node} (h : fits .operand n = true) : fits .unary n = true := by
  cases n with
  | lit _ | ref _ | not _ | cmp _ _ _ => rfl
  | and _ _ | or _ _ => cases h

theorem fits_and {n : Node} (h : fits .unary n = true) : fits .and n = true := by
  cases n with
  | lit _ | ref _ | not _ | cmp _ _ _ | and _ _ => rfl
  | or _ _ => cases h

theorem deepAt_le {p q : Level} {n : Node} (k : ℕ) (h : fits p n = true → fits q n = true) :
    deepAt q n k ≤ deepAt p n k := by
  rw [deepAt, deepAt]
  split_ifs with hq hp
  · exact le_rfl
  · omega
  · exact absurd (h ‹_›) hq
  · exact le_rfl

/-- Redundant parentheses only make a text deeper. -/
theorem deep_of_phrase {d : ℕ} {p : Level} {n : Node} {ts : List Tok} (h : Phrase d p n ts)
    (hd : d + 2 ≤ maxDepth) : d + deepAt p n (deep n) ≤ maxDepth := by
  induction h with
  | atom ha => cases ha <;> exact hd
  | @parens d n ts hts ih =>
    have := ih (depth_le hts nofun)
    rw [deepAt, if_pos (fits_or n)] at this
    have hle : deepAt .operand n (deep n) ≤ deep n + 5 := by
      rw [deepAt]
      split <;> omega
    omega
  | operand _ _ ih =>
    exact (Nat.add_le_add_left (deepAt_le _ fits_unary) _).trans (ih hd)
  | @cmp d o l r ts us _ _ _ _ ihl ihr =>
    have hl := ihl hd
    have hr := ihr hd
    change d + deep (.cmp o l r) ≤ maxDepth
    rw [deep]
    omega
  | @not d e ts _ he ih =>
    have := ih (depth_le he nofun)
    change d + deep (.not e) ≤ maxDepth
    rw [deep]
    omega
  | unary _ ih => exact (Nat.add_le_add_left (deepAt_le _ fits_and) _).trans (ih hd)
  | @and d l r ts us _ _ ihl ihr =>
    have hl := ihl hd
    have hr := ihr hd
    change d + deep (.and l r) ≤ maxDepth
    rw [deep]
    omega
  | conj _ ih => exact (Nat.add_le_add_left (deepAt_le _ fun _ => fits_or _) _).trans (ih hd)
  | @or d l r ts us _ _ ihl ihr =>
    have hl := ihl hd
    have hr := ihr hd
    change d + deep (.or l r) ≤ maxDepth
    rw [deep]
    omega

/-! ## Redundant parentheses -/

def isParen : Tok → Bool
  | .lp | .rp => true
  | _ => false

/-- The tokens `ts` without their parentheses, and some of the parentheses. -/
structure Pads (ts us : List Tok) : Prop where
  sublist : us.Sublist ts
  tokens : ts.filter (!isParen ·) = us.filter (!isParen ·)

theorem Pads.refl (ts : List Tok) : Pads ts ts := ⟨.refl ts, rfl⟩

theorem Pads.trans {ts us vs : List Tok} (h : Pads ts us) (h' : Pads us vs) : Pads ts vs :=
  ⟨h'.sublist.trans h.sublist, h.tokens.trans h'.tokens⟩

theorem Pads.append {ts us ts' us' : List Tok} (h : Pads ts us) (h' : Pads ts' us') :
    Pads (ts ++ ts') (us ++ us') where
  sublist := h.sublist.append h'.sublist
  tokens := by rw [List.filter_append, List.filter_append, h.tokens, h'.tokens]

theorem pads_parens (ts : List Tok) : Pads (.lp :: ts ++ [.rp]) ts where
  sublist := by
    rw [List.cons_append]
    exact (List.sublist_append_left ts [.rp]).cons .lp
  tokens := by simp [isParen]

theorem pads_wrap {p q : Level} {n : Node} (ts : List Tok)
    (h : fits p n = true → fits q n = true) : Pads (wrap p n ts) (wrap q n ts) := by
  rw [wrap, wrap]
  split_ifs with hp hq hq
  · exact .refl ts
  · exact absurd (h hp) hq
  · exact pads_parens ts
  · exact .refl _

/-- A phrase is the text of its tree up to redundant parentheses. -/
theorem pads_of_phrase {d : ℕ} {p : Level} {n : Node} {ts : List Tok} (h : Phrase d p n ts) :
    Pads ts (wrap p n (toks n)) := by
  induction h with
  | atom ha => cases ha <;> exact .refl _
  | @parens d n ts hts ih =>
    rw [wrap, if_pos (fits_or n)] at ih
    have hpad : Pads (.lp :: ts ++ [.rp]) (.lp :: toks n ++ [.rp]) :=
      ((Pads.refl [.lp]).append ih).append (.refl [.rp])
    rw [wrap]
    split
    · exact hpad.trans (pads_parens _)
    · exact hpad
  | operand _ _ ih => exact ih.trans (pads_wrap _ fits_unary)
  | cmp _ _ _ _ ihl ihr => exact ihl.append ((Pads.refl [_]).append ihr)
  | not _ _ ih => exact (Pads.refl [_]).append ih
  | unary _ ih => exact ih.trans (pads_wrap _ fits_and)
  | and _ _ ihl ihr => exact ihl.append ((Pads.refl [_]).append ihr)
  | conj _ ih => exact ih.trans (pads_wrap _ fun _ => fits_or _)
  | or _ _ ihl ihr => exact ihl.append ((Pads.refl [_]).append ihr)

end Prgd.Grammar
