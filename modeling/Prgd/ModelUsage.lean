import Prgd.Interleaving
import Prgd.JsonColumn
import Mathlib.Algebra.BigOperators.Group.List.Basic
import Mathlib.Algebra.Order.Ring.Rat
import Mathlib.Tactic.Ring
import Mathlib.Tactic.Linarith

/-!
# Token accounting of a run

The model catalog, the provider's usage figures, `recordModel` and the token
columns of a run. Every answer adds to two ledgers: the four total columns and
the amounts per billed model, which are stored as JSON and read back at the
start of each segment. The module proves that the ledgers agree after every
event of every run and that the totals are the sum over the answers.

Token counts are exact numbers here; the source adds them as integers far
below the range in which adding doubles rounds. The internal cost figure is
kept with the rounding of doubles, because its prices are decimal fractions.
-/
namespace Prgd.ModelUsage
open Interleaving JsonColumn

/-! ## Catalog -/

/-- List prices in dollars per million tokens. -/
structure ModelPrice where
  inputPerMTokUsd : ℚ
  outputPerMTokUsd : ℚ
  cacheReadPerMTokUsd : ℚ
  cacheWritePerMTokUsd : ℚ

structure PricedModel where
  id : Text
  price : ModelPrice

/-- The models an agent can select. -/
def models : List PricedModel :=
  [⟨"claude-opus-5-5".toList, ⟨4, 20, 1 / 5, 5⟩⟩,
    ⟨"claude-sonnet-5-5".toList, ⟨2, 10, 1 / 5, 5 / 2⟩⟩,
    ⟨"claude-haiku-4-5".toList, ⟨1, 5, 1 / 10, 5 / 4⟩⟩]

/-- Refusal fallbacks that are billed and never selected. -/
def billingOnlyModels : List PricedModel :=
  [⟨"claude-opus-5".toList, ⟨5, 25, 1 / 2, 25 / 4⟩⟩,
    ⟨"claude-opus-4-8".toList, ⟨5, 25, 1 / 2, 25 / 4⟩⟩]

def pricedModels : List PricedModel := models ++ billingOnlyModels

def isKnownModel (id : Text) : Bool := models.any fun m => m.id == id

/-- A dated snapshot of a catalog id: the id, a dash and eight digits. -/
def isSnapshotOf (id catalog : Text) : Bool :=
  Text.startsWith id (catalog ++ ['-']) &&
    (id.drop (catalog.length + 1)).length == 8 && (id.drop (catalog.length + 1)).all Text.isDigit

def pricedModel (id : Text) : Option PricedModel :=
  if id = [] then none else
    match pricedModels.find? fun m => m.id == id with
    | some m => some m
    | none => pricedModels.find? fun m => isSnapshotOf id m.id

def billingModel (servedBy requested : Text) : Text :=
  ((pricedModel servedBy).map PricedModel.id).getD requested

theorem pricedModel_mem {id : Text} {m : PricedModel} (h : pricedModel id = some m) :
    m ∈ pricedModels := by
  unfold pricedModel at h
  split_ifs at h
  cases hf : pricedModels.find? (fun m => m.id == id) with
  | some m' =>
    simp only [hf, Option.some.injEq] at h
    exact h ▸ List.mem_of_find?_eq_some hf
  | none =>
    simp only [hf] at h
    exact List.mem_of_find?_eq_some h

/-- Tokens are billed to a catalog model or to the model the agent asked for. -/
theorem billingModel_priced (servedBy requested : Text) :
    (∃ m ∈ pricedModels, billingModel servedBy requested = m.id) ∨
      billingModel servedBy requested = requested := by
  unfold billingModel
  cases h : pricedModel servedBy with
  | none => exact .inr rfl
  | some m => exact .inl ⟨m, pricedModel_mem h, rfl⟩

/-! ## Provider usage -/

/-- Usage of one attempt. The one hour part is optional. -/
structure TokenUsage where
  inputTokens : ℚ
  outputTokens : ℚ
  cacheReadTokens : ℚ
  cacheWriteTokens : ℚ
  cacheWrite1hTokens : Option ℚ

/-- The one hour part, never more than all cache writes. -/
def TokenUsage.write1h (u : TokenUsage) : ℚ :=
  min (u.cacheWrite1hTokens.getD 0) u.cacheWriteTokens

def providerCostMicroUsd (modelId : Text) (u : TokenUsage) : JsNumber :=
  match pricedModel modelId with
  | none => .fin 0
  | some m =>
      let times := fun tokens price : ℚ => JsNumber.mul (.ofRat tokens) (.ofRat price)
      let sum := JsNumber.add (times u.inputTokens m.price.inputPerMTokUsd)
        (times u.outputTokens m.price.outputPerMTokUsd)
      let sum := sum.add (times u.cacheReadTokens m.price.cacheReadPerMTokUsd)
      let sum := sum.add (times (u.cacheWriteTokens - u.write1h) m.price.cacheWritePerMTokUsd)
      (sum.add (JsNumber.mul (times u.write1h 2) (.ofRat m.price.inputPerMTokUsd))).round

/-- The usage fields of an API answer; `null` and missing are both `none`. -/
structure RawUsage where
  inputTokens : Option ℚ := none
  outputTokens : Option ℚ := none
  cacheReadInputTokens : Option ℚ := none
  cacheCreationInputTokens : Option ℚ := none
  ephemeral1hInputTokens : Option ℚ := none

/-- One entry of `usage.iterations`. -/
structure Iteration where
  usage : RawUsage
  type : Option Text
  model : Option Text

def usageOf (u : Option RawUsage) : TokenUsage :=
  let u := u.getD {}
  { inputTokens := u.inputTokens.getD 0
    outputTokens := u.outputTokens.getD 0
    cacheReadTokens := u.cacheReadInputTokens.getD 0
    cacheWriteTokens := u.cacheCreationInputTokens.getD 0
    cacheWrite1hTokens := some (u.ephemeral1hInputTokens.getD 0) }

def sumUsage (list : List TokenUsage) : TokenUsage :=
  list.foldl (fun out u =>
    { inputTokens := out.inputTokens + u.inputTokens
      outputTokens := out.outputTokens + u.outputTokens
      cacheReadTokens := out.cacheReadTokens + u.cacheReadTokens
      cacheWriteTokens := out.cacheWriteTokens + u.cacheWriteTokens
      cacheWrite1hTokens := some (out.cacheWrite1hTokens.getD 0 + u.cacheWrite1hTokens.getD 0) })
    ⟨0, 0, 0, 0, some 0⟩

structure Attempt where
  model : Text
  usage : TokenUsage

/-- Billed attempts from the iterations. An entry that is no object is `none`
and skipped; an empty list or none at all means the top level usage applies. -/
def attemptsOf (iterations : Option (List (Option Iteration))) (requested servedBy : Text) :
    Option (List Attempt) :=
  let out := (iterations.getD []).filterMap fun it => it.map fun it =>
    let fallback := if it.type = some "compaction".toList then servedBy else requested
    let model := it.model.getD []
    { model := if model = [] then fallback else model, usage := usageOf (some it.usage) }
  if out = [] then none else some out

/-- The part of a provider's answer that accounting looks at. -/
structure ModelResponse where
  usage : TokenUsage
  attempts : Option (List Attempt)
  servedBy : Text

/-- What a provider answered: an API message (its usage, the iterations inside
it and the model that served it), or the deterministic stand-in with or
without a refusal fallback. -/
inductive Answer where
  | anthropic (usage : Option RawUsage) (iterations : Option (List (Option Iteration)))
      (model : Text)
  | fake (usage : TokenUsage)
  | fakeFallback (each : TokenUsage)

def twice (u : TokenUsage) : TokenUsage :=
  ⟨u.inputTokens * 2, u.outputTokens * 2, u.cacheReadTokens * 2, u.cacheWriteTokens * 2, none⟩

/-- `complete` of the two providers. -/
def complete (requested : Text) : Answer → ModelResponse
  | .anthropic usage iterations model =>
      match attemptsOf iterations requested model with
      | some attempts => ⟨sumUsage (attempts.map Attempt.usage), some attempts, model⟩
      | none => ⟨usageOf usage, none, model⟩
  | .fake usage => ⟨usage, none, requested⟩
  | .fakeFallback each =>
      ⟨twice each, some [⟨requested, each⟩, ⟨"claude-opus-5".toList, each⟩],
        "claude-opus-5".toList⟩

/-! ## Ledgers -/

/-- Tokens one model used, by token kind. -/
structure ModelTokens where
  input : ℚ := 0
  output : ℚ := 0
  cacheRead : ℚ := 0
  cacheWrite : ℚ := 0
  cacheWrite1h : ℚ := 0

def ModelTokens.add (a b : ModelTokens) : ModelTokens :=
  ⟨a.input + b.input, a.output + b.output, a.cacheRead + b.cacheRead,
    a.cacheWrite + b.cacheWrite, a.cacheWrite1h + b.cacheWrite1h⟩

abbrev TokensByModel := List (Text × ModelTokens)

/-- Adds into the entry of the model, which starts empty. -/
def addTokens : TokensByModel → Text → ModelTokens → TokensByModel
  | [], model, t => [(model, ModelTokens.add {} t)]
  | (m, u) :: rest, model, t =>
      if m = model then (m, u.add t) :: rest else (m, u) :: addTokens rest model t

/-- `Number(r[kind]) || 0`. A stored JSON number is finite. -/
def count (r : JsValue) (kind : Text) : ℚ :=
  match ((r.ownGet kind).getD .undefined).toNumber with
  | .fin q => q
  | _ => 0

def tokensOf (r : JsValue) : ModelTokens :=
  ⟨count r "input".toList, count r "output".toList, count r "cacheRead".toList,
    count r "cacheWrite".toList, count r "cacheWrite1h".toList⟩

/-- Reads a stored `modelUsage` value, ignoring what is malformed. -/
def parseTokensByModel : JsValue → TokensByModel
  | .obj fields => fields.foldl (fun out f =>
      if f.2.isObject then addTokens out f.1 (tokensOf f.2) else out) []
  | _ => []

def tokensJson (t : ModelTokens) : JsValue :=
  .obj [("input".toList, .num (.fin t.input)), ("output".toList, .num (.fin t.output)),
    ("cacheRead".toList, .num (.fin t.cacheRead)), ("cacheWrite".toList, .num (.fin t.cacheWrite)),
    ("cacheWrite1h".toList, .num (.fin t.cacheWrite1h))]

def modelUsageJson (models : TokensByModel) : JsValue :=
  .obj (models.map fun f => (f.1, tokensJson f.2))

/-- The usage a segment of a run carries in memory. -/
structure Usage where
  inputTokens : ℚ
  outputTokens : ℚ
  cacheReadTokens : ℚ
  cacheWriteTokens : ℚ
  providerCost : JsNumber
  models : TokensByModel

/-- The columns of the run row that hold it. -/
structure RunColumns where
  inputTokens : ℚ := 0
  outputTokens : ℚ := 0
  cacheReadTokens : ℚ := 0
  cacheWriteTokens : ℚ := 0
  providerCostMicroUsd : JsNumber := .fin 0
  modelUsage : JsValue := .obj []

/-- The usage part of `context`: a segment starts from the row. -/
def contextUsage (run : RunColumns) : Usage :=
  ⟨run.inputTokens, run.outputTokens, run.cacheReadTokens, run.cacheWriteTokens,
    run.providerCostMicroUsd, parseTokensByModel run.modelUsage⟩

/-- `usageColumns`, as the row holds them after the write. -/
def usageColumns (u : Usage) : RunColumns :=
  ⟨u.inputTokens, u.outputTokens, u.cacheReadTokens, u.cacheWriteTokens, u.providerCost,
    column (modelUsageJson u.models)⟩

/-- What one attempt adds to its model. -/
def attemptTokens (u : TokenUsage) : ModelTokens :=
  ⟨u.inputTokens, u.outputTokens, u.cacheReadTokens, u.cacheWriteTokens - u.write1h, u.write1h⟩

/-- The attempts an answer is billed for. -/
def billedAttempts (specModel : Text) (r : ModelResponse) : List Attempt :=
  r.attempts.getD [⟨if r.servedBy = [] then specModel else r.servedBy, r.usage⟩]

def billAttempt (specModel : Text) (u : Usage) (a : Attempt) : Usage :=
  let model := billingModel a.model specModel
  { u with
    providerCost := u.providerCost.add (providerCostMicroUsd model a.usage)
    models := addTokens u.models model (attemptTokens a.usage) }

/-- `recordModel`, without the step it logs. -/
def recordModel (specModel : Text) (u : Usage) (r : ModelResponse) : Usage :=
  (billedAttempts specModel r).foldl (billAttempt specModel)
    { u with
      inputTokens := u.inputTokens + r.usage.inputTokens
      outputTokens := u.outputTokens + r.usage.outputTokens
      cacheReadTokens := u.cacheReadTokens + r.usage.cacheReadTokens
      cacheWriteTokens := u.cacheWriteTokens + r.usage.cacheWriteTokens }

/-! ## Sums over models -/

/-- The sum of one figure over the models. -/
def total (f : ModelTokens → ℚ) (models : TokensByModel) : ℚ := (models.map fun m => f m.2).sum

section
variable {f : ModelTokens → ℚ} (hf : ∀ a b, f (a.add b) = f a + f b)
include hf

theorem total_addTokens (models : TokensByModel) (model : Text) (t : ModelTokens) :
    total f (addTokens models model t) = total f models + f t := by
  have h0 : f {} = 0 := by
    have := hf {} {}
    simp only [ModelTokens.add, add_zero] at this
    linarith
  induction models with
  | nil => simp [addTokens, total, hf, h0]
  | cons m models ih =>
    simp only [total] at ih
    simp only [addTokens]
    split_ifs with hm
    · simp only [total, List.map_cons, List.sum_cons, hf]
      ring
    · simp only [total, List.map_cons, List.sum_cons, ih]
      ring

theorem total_billAttempts (specModel : Text) (attempts : List Attempt) (u : Usage) :
    total f (attempts.foldl (billAttempt specModel) u).models =
      total f u.models + (attempts.map fun a => f (attemptTokens a.usage)).sum := by
  induction attempts generalizing u with
  | nil => simp
  | cons a attempts ih =>
    rw [List.foldl_cons, ih]
    simp only [billAttempt, total_addTokens hf, List.map_cons, List.sum_cons]
    ring

/-- Reading a stored ledger keeps every sum. -/
theorem total_parse_fields (fields : List (Text × JsValue))
    (hobj : ∀ g ∈ fields, g.2.isObject) (out : TokensByModel) :
    total f (fields.foldl (fun out g =>
        if g.2.isObject then addTokens out g.1 (tokensOf g.2) else out) out) =
      total f out + (fields.map fun g => f (tokensOf g.2)).sum := by
  induction fields generalizing out with
  | nil => simp
  | cons g fields ih =>
    simp only [List.foldl_cons, hobj g (by simp), ite_true, List.map_cons, List.sum_cons]
    rw [ih (fun h hh => hobj h (List.mem_cons_of_mem g hh)), total_addTokens hf]
    ring

end

/-! ## Storing and reading back -/

theorem column_tokensJson (t : ModelTokens) : column (tokensJson t) = tokensJson t := by
  simp only [tokensJson, column, columnFields, JsNumber.isFinite, ite_true, reduceCtorEq, ite_false]
  rfl

theorem columnFields_modelUsage (models : TokensByModel) :
    columnFields (models.map fun m => (m.1, tokensJson m.2)) =
      models.map fun m => (m.1, tokensJson m.2) := by
  induction models with
  | nil => rfl
  | cons m models ih =>
    have hne : tokensJson m.2 ≠ .undefined := by simp [tokensJson]
    simp only [List.map_cons, columnFields, hne, ite_false, column_tokensJson, ih]

/-- The stored ledger is the ledger with its models in another order. -/
theorem column_modelUsageJson (models : TokensByModel) :
    ∃ stored : TokensByModel, stored.Perm models ∧
      column (modelUsageJson models) = .obj (stored.map fun m => (m.1, tokensJson m.2)) := by
  have hperm := sortFields_perm (models.map fun m => (m.1, tokensJson m.2))
  obtain ⟨stored, heq, hp⟩ : ∃ stored : TokensByModel,
      stored.map (fun m => (m.1, tokensJson m.2)) =
        sortFields (models.map fun m => (m.1, tokensJson m.2)) ∧ stored.Perm models := by
    refine ⟨(sortFields (models.map fun m => (m.1, tokensJson m.2))).map
      fun g => (g.1, tokensOf g.2), ?_, ?_⟩
    · rw [List.map_map]
      refine (List.map_congr_left fun g hg => ?_).trans (List.map_id _)
      obtain ⟨m, -, rfl⟩ := List.mem_map.mp (hperm.subset hg)
      rfl
    · have := hperm.map fun g => (g.1, tokensOf g.2)
      rwa [List.map_map, show ((fun g : Text × JsValue => (g.1, tokensOf g.2)) ∘
        fun m : Text × ModelTokens => (m.1, tokensJson m.2)) = id from rfl, List.map_id] at this
  refine ⟨stored, hp, ?_⟩
  rw [modelUsageJson, column, columnFields_modelUsage, heq]

theorem addTokens_keys (models : TokensByModel) (model : Text) (t : ModelTokens) :
    ∀ m ∈ addTokens models model t, m.1 = model ∨ ∃ m' ∈ models, m.1 = m'.1 := by
  induction models with
  | nil => simp [addTokens]
  | cons n models ih =>
    intro m hm
    simp only [addTokens] at hm
    split_ifs at hm with hn
    · rcases List.mem_cons.mp hm with rfl | hm
      · exact .inl hn
      · exact .inr ⟨m, List.mem_cons_of_mem n hm, rfl⟩
    · rcases List.mem_cons.mp hm with rfl | hm
      · exact .inr ⟨n, by simp, rfl⟩
      · rcases ih m hm with h | ⟨m', hm', h⟩
        · exact .inl h
        · exact .inr ⟨m', List.mem_cons_of_mem n hm', h⟩

theorem parse_fields_keys (stored : TokensByModel) (out : TokensByModel) :
    ∀ m ∈ (stored.map fun m => (m.1, tokensJson m.2)).foldl (fun out g =>
        if g.2.isObject then addTokens out g.1 (tokensOf g.2) else out) out,
      (∃ m' ∈ out, m.1 = m'.1) ∨ ∃ m' ∈ stored, m.1 = m'.1 := by
  induction stored generalizing out with
  | nil =>
    intro m hm
    exact .inl ⟨m, hm, rfl⟩
  | cons n stored ih =>
    intro m hm
    rw [List.map_cons, List.foldl_cons, show (tokensJson n.2).isObject = true from rfl] at hm
    rcases ih _ m hm with ⟨m', hm', h⟩ | ⟨m', hm', h⟩
    · rcases addTokens_keys out n.1 _ m' hm' with h' | ⟨m'', hm'', h'⟩
      · exact .inr ⟨n, by simp, h.trans h'⟩
      · exact .inl ⟨m'', hm'', h.trans h'⟩
    · exact .inr ⟨m', List.mem_cons_of_mem n hm', h⟩

/-- Storing the ledger and reading it back keeps every sum and adds no model. -/
theorem reload_models (models : TokensByModel) :
    (∀ f : ModelTokens → ℚ, (∀ a b, f (a.add b) = f a + f b) →
      total f (parseTokensByModel (column (modelUsageJson models))) = total f models) ∧
    ∀ m ∈ parseTokensByModel (column (modelUsageJson models)), ∃ m' ∈ models, m.1 = m'.1 := by
  obtain ⟨stored, hperm, heq⟩ := column_modelUsageJson models
  rw [heq]
  have hobj : ∀ g ∈ stored.map (fun m => (m.1, tokensJson m.2)), g.2.isObject := by
    intro g hg
    obtain ⟨m, -, rfl⟩ := List.mem_map.mp hg
    rfl
  constructor
  · intro f hf
    rw [parseTokensByModel, total_parse_fields hf _ hobj]
    rw [List.map_map]
    simp only [total, List.map_nil, List.sum_nil, zero_add]
    exact (hperm.map fun m => f m.2).sum_eq
  · intro m hm
    rcases parse_fields_keys stored [] m hm with ⟨m', hm', -⟩ | ⟨m', hm', h⟩
    · simp at hm'
    · exact ⟨m', hperm.subset hm', h⟩

/-! ## Answers -/

theorem sumUsage_fold (f : TokenUsage → ℚ) (step : TokenUsage → TokenUsage → TokenUsage)
    (hf : ∀ a b, f (step a b) = f a + f b) (list : List TokenUsage) (out : TokenUsage) :
    f (list.foldl step out) = f out + (list.map f).sum := by
  induction list generalizing out with
  | nil => simp
  | cons u list ih =>
    rw [List.foldl_cons, ih, hf, List.map_cons, List.sum_cons]
    ring

/-- The four figures the run has a column for. -/
structure Figure where
  ofUsage : TokenUsage → ℚ
  ofModel : ModelTokens → ℚ
  ofTotal : Usage → ℚ

/-- Input, output, cache reads, and cache writes of both lifetimes together. -/
def figures : List Figure :=
  [⟨TokenUsage.inputTokens, ModelTokens.input, Usage.inputTokens⟩,
    ⟨TokenUsage.outputTokens, ModelTokens.output, Usage.outputTokens⟩,
    ⟨TokenUsage.cacheReadTokens, ModelTokens.cacheRead, Usage.cacheReadTokens⟩,
    ⟨TokenUsage.cacheWriteTokens, fun t => t.cacheWrite + t.cacheWrite1h, Usage.cacheWriteTokens⟩]

theorem figure_add {g : Figure} (hg : g ∈ figures) (a b : ModelTokens) :
    g.ofModel (a.add b) = g.ofModel a + g.ofModel b := by
  simp only [figures, List.mem_cons, List.not_mem_nil, or_false] at hg
  rcases hg with rfl | rfl | rfl | rfl
  · rfl
  · rfl
  · rfl
  · simp only [ModelTokens.add]
    ring

/-- Splitting the cache writes of an attempt loses nothing. -/
theorem figure_attemptTokens {g : Figure} (hg : g ∈ figures) (u : TokenUsage) :
    g.ofModel (attemptTokens u) = g.ofUsage u := by
  simp only [figures, List.mem_cons, List.not_mem_nil, or_false] at hg
  rcases hg with rfl | rfl | rfl | rfl
  · rfl
  · rfl
  · rfl
  · simp only [attemptTokens]
    ring

theorem figure_sumUsage {g : Figure} (hg : g ∈ figures) (list : List TokenUsage) :
    g.ofUsage (sumUsage list) = (list.map g.ofUsage).sum := by
  simp only [figures, List.mem_cons, List.not_mem_nil, or_false] at hg
  rcases hg with rfl | rfl | rfl | rfl
  · exact (sumUsage_fold TokenUsage.inputTokens _ (fun _ _ => rfl) list _).trans (zero_add _)
  · exact (sumUsage_fold TokenUsage.outputTokens _ (fun _ _ => rfl) list _).trans (zero_add _)
  · exact (sumUsage_fold TokenUsage.cacheReadTokens _ (fun _ _ => rfl) list _).trans (zero_add _)
  · exact (sumUsage_fold TokenUsage.cacheWriteTokens _ (fun _ _ => rfl) list _).trans (zero_add _)

theorem figure_twice {g : Figure} (hg : g ∈ figures) (u : TokenUsage) :
    g.ofUsage (twice u) = g.ofUsage u + g.ofUsage u := by
  simp only [figures, List.mem_cons, List.not_mem_nil, or_false] at hg
  rcases hg with rfl | rfl | rfl | rfl
  all_goals
    simp only [twice]
    ring

/-- The attempts an answer is billed for add up to the usage it reports. -/
theorem figure_billedAttempts {g : Figure} (hg : g ∈ figures) (specModel : Text) (a : Answer) :
    ((billedAttempts specModel (complete specModel a)).map fun x =>
      g.ofUsage x.usage).sum = g.ofUsage (complete specModel a).usage := by
  cases a with
  | anthropic usage iterations model =>
    simp only [complete]
    cases h : attemptsOf iterations specModel model with
    | none => simp [billedAttempts]
    | some attempts =>
      simp only [billedAttempts, Option.getD_some, figure_sumUsage hg, List.map_map,
        Function.comp_def]
  | fake usage => simp [complete, billedAttempts]
  | fakeFallback each => simp [complete, billedAttempts, figure_twice hg]

theorem figure_billAttempt {g : Figure} (hg : g ∈ figures) (specModel : Text)
    (attempts : List Attempt) (u : Usage) :
    g.ofTotal (attempts.foldl (billAttempt specModel) u) = g.ofTotal u := by
  induction attempts generalizing u with
  | nil => rfl
  | cons a attempts ih =>
    rw [List.foldl_cons, ih]
    simp only [figures, List.mem_cons, List.not_mem_nil, or_false] at hg
    rcases hg with rfl | rfl | rfl | rfl <;> rfl

/-- `recordModel` adds the reported usage to the total. -/
theorem figure_recordModel {g : Figure} (hg : g ∈ figures) (specModel : Text) (u : Usage)
    (r : ModelResponse) :
    g.ofTotal (recordModel specModel u r) = g.ofTotal u + g.ofUsage r.usage := by
  rw [recordModel, figure_billAttempt hg]
  simp only [figures, List.mem_cons, List.not_mem_nil, or_false] at hg
  rcases hg with rfl | rfl | rfl | rfl <;> rfl

theorem figure_usageColumns {g : Figure} (hg : g ∈ figures) (u : Usage) :
    g.ofTotal (contextUsage (usageColumns u)) = g.ofTotal u := by
  simp only [figures, List.mem_cons, List.not_mem_nil, or_false] at hg
  rcases hg with rfl | rfl | rfl | rfl <;> rfl

theorem billAttempts_keys (specModel : Text) (attempts : List Attempt) (u : Usage) :
    ∀ m ∈ (attempts.foldl (billAttempt specModel) u).models,
      (∃ m' ∈ u.models, m.1 = m'.1) ∨ (∃ p ∈ pricedModels, m.1 = p.id) ∨ m.1 = specModel := by
  induction attempts generalizing u with
  | nil =>
    intro m hm
    exact .inl ⟨m, hm, rfl⟩
  | cons a attempts ih =>
    intro m hm
    rw [List.foldl_cons] at hm
    rcases ih _ m hm with ⟨m', hm', h⟩ | h
    · rcases addTokens_keys _ _ _ m' hm' with h' | ⟨m'', hm'', h'⟩
      · rw [h, h']
        exact .inr (billingModel_priced a.model specModel)
      · exact .inl ⟨m'', hm'', h.trans h'⟩
    · exact .inr h

/-! ## Runs -/

/-- The two ledgers agree, and only priced ids or the agent's own carry tokens. -/
structure Balanced (specModel : Text) (u : Usage) : Prop where
  sums : ∀ g ∈ figures, total g.ofModel u.models = g.ofTotal u
  ids : ∀ m ∈ u.models, (∃ p ∈ pricedModels, m.1 = p.id) ∨ m.1 = specModel

theorem balanced_recordModel {specModel : Text} {u : Usage} (h : Balanced specModel u)
    (a : Answer) : Balanced specModel (recordModel specModel u (complete specModel a)) where
  sums := by
    intro g hg
    rw [figure_recordModel hg, ← figure_billedAttempts hg specModel a, ← h.sums g hg, recordModel,
      total_billAttempts (figure_add hg)]
    simp only [figure_attemptTokens hg]
  ids := by
    intro m hm
    rcases billAttempts_keys specModel _ _ m hm with ⟨m', hm', heq⟩ | hm
    · rw [heq]
      exact h.ids m' hm'
    · exact hm

theorem balanced_usageColumns {specModel : Text} {u : Usage} (h : Balanced specModel u) :
    Balanced specModel (contextUsage (usageColumns u)) where
  sums := by
    intro g hg
    rw [figure_usageColumns hg, ← h.sums g hg]
    exact (reload_models u.models).1 _ (figure_add hg)
  ids := by
    intro m hm
    obtain ⟨m', hm', heq⟩ := (reload_models u.models).2 m hm
    rw [heq]
    exact h.ids m' hm'

/-- What happens to the ledgers of a run: an answer arrives, the walk saves a
checkpoint, or the run is saved (parked or resumed by an approval) and a later
segment starts from its row. -/
inductive Event where
  | answer (a : Answer)
  | checkpoint
  | resume

/-- The row, the usage in memory, and the answers received so far. -/
structure Ledgers where
  row : RunColumns := {}
  usage : Usage := contextUsage {}
  answers : List Answer := []

def step (specModel : Text) (s : Ledgers) : Event → Ledgers
  | .answer a =>
      { s with
        usage := recordModel specModel s.usage (complete specModel a)
        answers := s.answers ++ [a] }
  | .checkpoint => { s with row := usageColumns s.usage }
  | .resume =>
      { s with row := usageColumns s.usage, usage := contextUsage (usageColumns s.usage) }

/-- Both the live usage and the row are balanced, and the live totals are what
the answers reported. -/
structure Accounted (specModel : Text) (s : Ledgers) : Prop where
  live : Balanced specModel s.usage
  stored : Balanced specModel (contextUsage s.row)
  answered : ∀ g ∈ figures, g.ofTotal s.usage =
    (s.answers.map fun a => g.ofUsage (complete specModel a).usage).sum

theorem balanced_empty (specModel : Text) : Balanced specModel (contextUsage {}) where
  sums := by
    intro g hg
    simp only [figures, List.mem_cons, List.not_mem_nil, or_false] at hg
    rcases hg with rfl | rfl | rfl | rfl <;> rfl
  ids := by simp [contextUsage, parseTokensByModel]

theorem accounted_start (specModel : Text) : Accounted specModel {} where
  live := balanced_empty specModel
  stored := balanced_empty specModel
  answered := by
    intro g hg
    simp only [figures, List.mem_cons, List.not_mem_nil, or_false] at hg
    rcases hg with rfl | rfl | rfl | rfl <;> rfl

theorem accounted_step (specModel : Text) (s : Ledgers) (e : Event) (h : Accounted specModel s) :
    Accounted specModel (step specModel s e) := by
  cases e with
  | answer a =>
    refine ⟨balanced_recordModel h.live a, h.stored, ?_⟩
    intro g hg
    simp only [step, figure_recordModel hg, h.answered g hg, List.map_append, List.map_cons,
      List.map_nil, List.sum_append, List.sum_cons, List.sum_nil, add_zero]
  | checkpoint => exact ⟨h.live, balanced_usageColumns h.live, h.answered⟩
  | resume =>
    refine ⟨balanced_usageColumns h.live, balanced_usageColumns h.live, ?_⟩
    intro g hg
    exact (figure_usageColumns hg s.usage).trans (h.answered g hg)

/-- Every token of every answer is billed to exactly one model, after any
events and across any number of segments: the ledger per model sums to the
total columns, in memory and in the row, the totals are the answers' usage, and
the models are priced ones or the agent's own. -/
theorem every_token_billed_once (specModel : { id : Text // isKnownModel id }) (es : List Event) :
    Accounted specModel.1 (run (step specModel.1) {} es) :=
  run_invariant (accounted_step specModel.1) (accounted_start specModel.1) es

end Prgd.ModelUsage
