import Prgd.JsValue

/-!
# MongoDB checks

`checkMongo` walks through the filter and the pipeline of a query: it refuses keys that
write or that run code on the server, and collects the collections that a stage reads.
The walk does not go below a depth of 50, and the database does. An accepted query has
the properties that the guard is for exactly if what is below that depth has them.
-/
namespace Prgd.MongoGuard
open JsValue

def operations : List String := ["find", "aggregate", "countDocuments"]

def blockedStages : List String := ["$out", "$merge"]

def blockedOperators : List String := ["$where", "$function", "$accumulator"]

/-- `includes` on a list of constants. -/
def oneOf (names : List String) (k : Text) : Bool := (names.map String.toList).contains k

/-! ## Conversions -/

mutual
/-- `String(v)` returns: on an object it calls `toString`, and no JSON value is a function. -/
def convertible : JsValue → Bool
  | .arr items => convertibleItems items
  | .obj fields => (field fields "toString".toList).isNone
  | _ => true
def convertibleItems : List JsValue → Bool
  | [] => true
  | v :: vs => convertible v && convertibleItems vs
end

/-- `String(v ?? '')`, `none` where it throws. -/
def textOf (v : JsValue) : Option Text :=
  if v.isNullish then some [] else if convertible v then some v.toStr else none

/-- `v?.[key]`; no array and no other value has the keys that are read. -/
def property (v : JsValue) (key : String) : JsValue :=
  match v with
  | .obj fields => (field fields key.toList).getD .undefined
  | _ => .undefined

/-- The collection of a `$unionWith`. -/
def unionCollection : JsValue → Option Text
  | .str s => some s
  | v => textOf (property v "coll")

/-! ## The walk -/

/-- What the walk has met: `bad` and `collections`. -/
structure Walk where
  bad : Option Text
  collections : List Text

/-- `collections.add(c)` -/
def Walk.add (w : Walk) (c : Text) : Walk :=
  if c ∈ w.collections then w else { w with collections := w.collections ++ [c] }

/-- The checks of a key. -/
def Walk.check (w : Walk) (k : Text) : Walk :=
  if oneOf blockedStages k then
    { w with bad := some (k ++ " writes data and is not allowed".toList) }
  else if oneOf blockedOperators k then
    { w with bad := some (k ++ " runs server side code and is not allowed".toList) }
  else w

def Walk.lookup (w : Walk) (k : Text) (x : JsValue) : Walk :=
  if oneOf ["$lookup", "$graphLookup"] k then
    match property x "from" with
    | .str from_ => w.add from_
    | _ => w
  else w

def Walk.union (w : Walk) (k : Text) (x : JsValue) : Option Walk :=
  if k = "$unionWith".toList then (unionCollection x).map w.add else some w

/-- What is done for a key before its value is walked through. -/
def Walk.visit (w : Walk) (k : Text) (x : JsValue) : Option Walk :=
  ((w.check k).lookup k x).union k x

mutual
/-- `walk`, `none` where it throws. -/
def walk (depth : ℕ) (v : JsValue) (w : Walk) : Option Walk :=
  if w.bad.isSome ∨ 50 < depth then some w
  else match v with
    | .arr items => walkItems (depth + 1) items w
    | .obj fields => walkFields (depth + 1) fields w
    | _ => some w
def walkItems (depth : ℕ) : List JsValue → Walk → Option Walk
  | [], w => some w
  | v :: vs, w => (walk depth v w).bind (walkItems depth vs)
def walkFields (depth : ℕ) : List (Text × JsValue) → Walk → Option Walk
  | [], w => some w
  | (k, x) :: fields, w =>
      (w.visit k x).bind fun w => (walk depth x w).bind (walkFields depth fields)
end

/-! ## The check -/

structure Check where
  ok : Bool
  reason : Option Text := none
  deriving DecidableEq

def refused (reason : Text) : Check := { ok := false, reason := some reason }

def allowedNames (allowedCollections : List Text) : List Text := allowedCollections.map Text.trim

/-- `checkMongo`, `none` where it throws. -/
def checkMongo (operation : Text) (collection filter pipeline : JsValue)
    (allowedCollections : List Text) : Option Check :=
  if ¬oneOf operations operation then
    some (refused ("operation must be find, aggregate or countDocuments (got ".toList ++
      operation ++ [')']))
  else
    match collection with
    | .str (c :: cs) =>
        ((walk 0 filter ⟨none, [c :: cs]⟩).bind (walk 0 pipeline)).map fun w =>
          match w.bad with
          | some bad => refused bad
          | none =>
              if pipeline ≠ .undefined ∧ ¬(pipeline matches .arr _) then
                refused "pipeline must be a list of stages".toList
              else if allowedCollections = [] then { ok := true }
              else
                let denied := w.collections.filter fun c => c ∉ allowedNames allowedCollections
                if denied = [] then { ok := true }
                else refused ("not in the connection's allowed collections: ".toList ++
                  Text.join ", ".toList denied)
    | _ => some (refused "collection is required".toList)

/-! ## What the guard is for -/

/-- One value stands inside of another one, that many levels down. -/
inductive Occurs : ℕ → JsValue → JsValue → Prop
  | here (v : JsValue) : Occurs 0 v v
  | item {d : ℕ} {x v : JsValue} {items : List JsValue} :
      x ∈ items → Occurs d x v → Occurs (d + 1) (.arr items) v
  | property {d : ℕ} {k : Text} {x v : JsValue} {fields : List (Text × JsValue)} :
      (k, x) ∈ fields → Occurs d x v → Occurs (d + 1) (.obj fields) v

def nameIn : JsValue → Option Text
  | .str s => some s
  | _ => none

/-- The collection that a key with its value reads. -/
def named (k : Text) (x : JsValue) : Option Text :=
  if oneOf ["$lookup", "$graphLookup"] k then nameIn (property x "from")
  else if k = "$unionWith".toList then (nameIn x).or (nameIn (property x "coll"))
  else none

def blocked (k : Text) : Bool := oneOf (blockedStages ++ blockedOperators) k

/-- A key that neither writes nor runs code nor reads a collection that is not allowed. -/
def Harmless (allowedCollections : List Text) (f : Text × JsValue) : Prop :=
  blocked f.1 = false ∧
    (allowedCollections ≠ [] → ∀ n, named f.1 f.2 = some n → n ∈ allowedNames allowedCollections)

/-- The keys of the filter and of the pipeline, as far down as `depths` tells, are harmless. -/
def KeysHarmless (depths : ℕ → Prop) (allowedCollections : List Text)
    (filter pipeline : JsValue) : Prop :=
  ∀ v ∈ [filter, pipeline], ∀ d fields, depths d → Occurs d v (.obj fields) →
    ∀ f ∈ fields, Harmless allowedCollections f

/-- A query that neither writes nor runs code and reads allowed collections only. -/
def ReadsAllowed (allowedCollections : List Text) (collection filter pipeline : JsValue) : Prop :=
  KeysHarmless (fun _ => True) allowedCollections filter pipeline ∧
    (allowedCollections ≠ [] → ∀ c, collection = .str c → c ∈ allowedNames allowedCollections)

/-! ## What the walk has seen -/

/-- The walk has gone on. -/
structure Extends (w w' : Walk) : Prop where
  bad : w'.bad = none → w.bad = none
  collections : w.collections ⊆ w'.collections

theorem Extends.refl (w : Walk) : Extends w w := ⟨id, List.Subset.refl _⟩

theorem Extends.trans {w w' w'' : Walk} (h : Extends w w') (h' : Extends w' w'') :
    Extends w w'' :=
  ⟨fun hbad => h.bad (h'.bad hbad), List.Subset.trans h.collections h'.collections⟩

theorem extends_add (w : Walk) (c : Text) : Extends w (w.add c) := by
  rw [Walk.add]
  split_ifs
  · exact .refl w
  · exact ⟨id, List.subset_append_left _ _⟩

theorem mem_add (w : Walk) (c : Text) : c ∈ (w.add c).collections := by
  rw [Walk.add]
  split_ifs with h
  · exact h
  · simp

theorem blocked_iff (k : Text) :
    blocked k = true ↔ oneOf blockedStages k = true ∨ oneOf blockedOperators k = true := by
  simp [blocked, oneOf]

theorem extends_check (w : Walk) (k : Text) : Extends w (w.check k) := by
  rw [Walk.check]
  split_ifs
  · exact ⟨fun h => (Option.some_ne_none _ h).elim, List.Subset.refl _⟩
  · exact ⟨fun h => (Option.some_ne_none _ h).elim, List.Subset.refl _⟩
  · exact .refl w

theorem not_blocked_of_check {w : Walk} {k : Text} (h : (w.check k).bad = none) :
    blocked k = false := by
  rw [← Bool.not_eq_true, blocked_iff]
  rw [Walk.check] at h
  split_ifs at h with hstage hoperator
  exact not_or.mpr ⟨hstage, hoperator⟩

theorem extends_lookup (w : Walk) (k : Text) (x : JsValue) : Extends w (w.lookup k x) := by
  rw [Walk.lookup]
  split_ifs
  · split
    · exact extends_add w _
    · exact .refl w
  · exact .refl w

theorem extends_union {w w' : Walk} {k : Text} {x : JsValue} (h : w.union k x = some w') :
    Extends w w' := by
  rw [Walk.union] at h
  split_ifs at h
  · obtain ⟨c, -, rfl⟩ := Option.map_eq_some_iff.mp h
    exact extends_add w c
  · cases h
    exact .refl w

theorem eq_str_of_nameIn {v : JsValue} {n : Text} (h : nameIn v = some n) : v = .str n := by
  cases v with
  | str s => rw [Option.some.inj h]
  | _ => cases h

theorem textOf_of_nameIn {v : JsValue} {n : Text} (h : nameIn v = some n) :
    textOf v = some n := by
  rw [eq_str_of_nameIn h]
  rfl

/-- The name of a collection is what `String` makes of it. -/
theorem unionCollection_of_named {x : JsValue} {n : Text}
    (h : (nameIn x).or (nameIn (property x "coll")) = some n) : unionCollection x = some n := by
  cases x with
  | str s => exact h
  | _ => exact textOf_of_nameIn h

/-- The key was checked and its collection was added. -/
def Seen (w : Walk) (f : Text × JsValue) : Prop :=
  blocked f.1 = false ∧ ∀ n, named f.1 f.2 = some n → n ∈ w.collections

theorem Seen.mono {w w' : Walk} {f : Text × JsValue} (h : Seen w f) (hw : Extends w w') :
    Seen w' f :=
  ⟨h.1, fun n hn => hw.collections (h.2 n hn)⟩

theorem visit_spec {w w' : Walk} {k : Text} {x : JsValue} (h : w.visit k x = some w') :
    Extends w w' ∧ (w'.bad = none → Seen w' (k, x)) := by
  rw [Walk.visit] at h
  have hcheck := extends_check w k
  have hlookup := extends_lookup (w.check k) k x
  have hunion := extends_union h
  refine ⟨(hcheck.trans hlookup).trans hunion, fun hbad => ⟨?_, ?_⟩⟩
  · exact not_blocked_of_check ((hlookup.trans hunion).bad hbad)
  · intro n hn
    rw [named] at hn
    dsimp only at hn
    split_ifs at hn with hfrom hunion'
    · apply hunion.collections
      rw [Walk.lookup, if_pos hfrom, eq_str_of_nameIn hn]
      exact mem_add _ n
    · rw [Walk.union, if_pos hunion', unionCollection_of_named hn] at h
      cases h
      exact mem_add _ n

/-! ## Whole values -/

theorem walk_stop {depth : ℕ} {v : JsValue} {w : Walk} (h : w.bad.isSome = true ∨ 50 < depth) :
    walk depth v w = some w := by
  cases v <;> simp [walk, h]

theorem walk_arr {depth : ℕ} {items : List JsValue} {w : Walk}
    (h : ¬(w.bad.isSome = true ∨ 50 < depth)) :
    walk depth (.arr items) w = walkItems (depth + 1) items w := by
  rw [walk, if_neg h]

theorem walk_obj {depth : ℕ} {fields : List (Text × JsValue)} {w : Walk}
    (h : ¬(w.bad.isSome = true ∨ 50 < depth)) :
    walk depth (.obj fields) w = walkFields (depth + 1) fields w := by
  rw [walk, if_neg h]

mutual
theorem walk_extends {depth : ℕ} {v : JsValue} {w w' : Walk} (h : walk depth v w = some w') :
    Extends w w' := by
  by_cases hstop : w.bad.isSome = true ∨ 50 < depth
  · rw [walk_stop hstop] at h
    cases h
    exact .refl w
  · cases v with
    | arr items => exact walkItems_extends ((walk_arr hstop).symm.trans h)
    | obj fields => exact walkFields_extends ((walk_obj hstop).symm.trans h)
    | _ =>
      simp only [walk, ite_self] at h
      cases h
      exact .refl w
theorem walkItems_extends {depth : ℕ} {items : List JsValue} {w w' : Walk}
    (h : walkItems depth items w = some w') : Extends w w' := by
  cases items with
  | nil =>
    cases h
    exact .refl w
  | cons v vs =>
    rw [walkItems, Option.bind_eq_some_iff] at h
    obtain ⟨w₁, hfirst, hrest⟩ := h
    exact (walk_extends hfirst).trans (walkItems_extends hrest)
theorem walkFields_extends {depth : ℕ} {fields : List (Text × JsValue)} {w w' : Walk}
    (h : walkFields depth fields w = some w') : Extends w w' := by
  cases fields with
  | nil =>
    cases h
    exact .refl w
  | cons f fields =>
    obtain ⟨k, x⟩ := f
    rw [walkFields, Option.bind_eq_some_iff] at h
    obtain ⟨w₁, hvisit, h⟩ := h
    rw [Option.bind_eq_some_iff] at h
    obtain ⟨w₂, hfirst, hrest⟩ := h
    exact ((visit_spec hvisit).1.trans (walk_extends hfirst)).trans (walkFields_extends hrest)
end

/-- The keys of a value are seen, down to a depth of 50 from the root. -/
def AllSeen (depth : ℕ) (v : JsValue) (w : Walk) : Prop :=
  ∀ d fields, depth + d ≤ 50 → Occurs d v (.obj fields) → ∀ f ∈ fields, Seen w f

theorem AllSeen.mono {depth : ℕ} {v : JsValue} {w w' : Walk} (h : AllSeen depth v w)
    (hw : Extends w w') : AllSeen depth v w' :=
  fun d fields hd hin f hf => (h d fields hd hin f hf).mono hw

mutual
/-- A walk that finds nothing bad has seen every key that it can reach. -/
theorem walk_seen {depth : ℕ} {v : JsValue} {w w' : Walk} (h : walk depth v w = some w')
    (hbad : w'.bad = none) : AllSeen depth v w' := by
  intro d fields hd hin
  have hopen : ¬(w.bad.isSome = true ∨ 50 < depth) := by
    rw [(walk_extends h).bad hbad]
    simp
    omega
  cases v with
  | arr items =>
    cases hin with
    | item hmem hin =>
      exact walkItems_seen ((walk_arr hopen).symm.trans h) hbad _ hmem _ fields (by omega) hin
  | obj own =>
    have hfields := walkFields_seen ((walk_obj hopen).symm.trans h) hbad
    cases hin with
    | here => exact fun f hf => (hfields f hf).1
    | property hmem hin => exact (hfields _ hmem).2 _ fields (by omega) hin
  | _ => cases hin
theorem walkItems_seen {depth : ℕ} {items : List JsValue} {w w' : Walk}
    (h : walkItems depth items w = some w') (hbad : w'.bad = none) :
    ∀ x ∈ items, AllSeen depth x w' := by
  cases items with
  | nil => exact fun _ hx => (List.not_mem_nil hx).elim
  | cons v vs =>
    rw [walkItems, Option.bind_eq_some_iff] at h
    obtain ⟨w₁, hfirst, hrest⟩ := h
    have hmore := walkItems_extends hrest
    rw [List.forall_mem_cons]
    exact ⟨(walk_seen hfirst (hmore.bad hbad)).mono hmore, walkItems_seen hrest hbad⟩
theorem walkFields_seen {depth : ℕ} {fields : List (Text × JsValue)} {w w' : Walk}
    (h : walkFields depth fields w = some w') (hbad : w'.bad = none) :
    ∀ f ∈ fields, Seen w' f ∧ AllSeen depth f.2 w' := by
  cases fields with
  | nil => exact fun _ hf => (List.not_mem_nil hf).elim
  | cons f fields =>
    obtain ⟨k, x⟩ := f
    rw [walkFields, Option.bind_eq_some_iff] at h
    obtain ⟨w₁, hvisit, h⟩ := h
    rw [Option.bind_eq_some_iff] at h
    obtain ⟨w₂, hfirst, hrest⟩ := h
    have hmore := walkFields_extends hrest
    have hvalue := walk_extends hfirst
    have hseen := (visit_spec hvisit).2 (hvalue.bad (hmore.bad hbad))
    rw [List.forall_mem_cons]
    exact ⟨⟨hseen.mono (hvalue.trans hmore), (walk_seen hfirst (hmore.bad hbad)).mono hmore⟩,
      walkFields_seen hrest hbad⟩
end

/-! ## Accepted queries -/

/-- What an accepted query has passed. -/
theorem checkMongo_ok {operation : Text} {collection filter pipeline : JsValue}
    {allowedCollections : List Text} {check : Check}
    (h : checkMongo operation collection filter pipeline allowedCollections = some check)
    (hok : check.ok = true) : ∃ c w₁ w, collection = .str c ∧ walk 0 filter ⟨none, [c]⟩ = some w₁ ∧
      walk 0 pipeline w₁ = some w ∧ w.bad = none ∧
      (allowedCollections ≠ [] → ∀ n ∈ w.collections, n ∈ allowedNames allowedCollections) := by
  have hop : oneOf operations operation = true := by
    by_contra hop
    unfold checkMongo at h
    rw [if_pos hop] at h
    cases h
    cases hok
  unfold checkMongo at h
  rw [if_neg (not_not.mpr hop)] at h
  split at h
  next c cs =>
    obtain ⟨w, hwalk, heq⟩ := Option.map_eq_some_iff.mp h
    obtain ⟨w₁, hfilter, hpipeline⟩ := Option.bind_eq_some_iff.mp hwalk
    refine ⟨c :: cs, w₁, w, rfl, hfilter, hpipeline, ?_⟩
    split at heq
    · cases heq
      cases hok
    next hbad =>
      refine ⟨hbad, fun hne n hn => ?_⟩
      dsimp only at heq
      split_ifs at heq with hlist hdenied
      · cases heq
        cases hok
      · simpa using List.filter_eq_nil_iff.mp hdenied n hn
      · cases heq
        cases hok
  · cases h
    cases hok

/-- An accepted query neither writes nor runs code and reads allowed collections only, exactly
if that is so of what is more than 50 levels down in its filter and in its pipeline. -/
theorem readsAllowed_iff (operation : Text) (collection filter pipeline : JsValue)
    (allowedCollections : List Text) (check : Check)
    (h : checkMongo operation collection filter pipeline allowedCollections = some check)
    (hok : check.ok = true) :
    ReadsAllowed allowedCollections collection filter pipeline ↔
      KeysHarmless (50 < ·) allowedCollections filter pipeline := by
  obtain ⟨c, w₁, w, rfl, hfilter, hpipeline, hbad, hallowed⟩ := checkMongo_ok h hok
  have hmore := walk_extends hpipeline
  have hseen : ∀ v ∈ [filter, pipeline], AllSeen 0 v w := by
    rw [List.forall_mem_cons, List.forall_mem_singleton]
    exact ⟨(walk_seen hfilter (hmore.bad hbad)).mono hmore, walk_seen hpipeline hbad⟩
  constructor
  · exact fun hall v hv d fields _ hin => hall.1 v hv d fields trivial hin
  · intro hdeep
    refine ⟨fun v hv d fields _ hin f hf => ?_, fun hne c' hc => ?_⟩
    · by_cases hd : 50 < d
      · exact hdeep v hv d fields hd hin f hf
      · have hf' := hseen v hv d fields (by omega) hin f hf
        exact ⟨hf'.1, fun hne n hn => hallowed hne n (hf'.2 n hn)⟩
    · cases hc
      exact hallowed hne c (((walk_extends hfilter).trans hmore).collections
        (List.mem_singleton.mpr rfl))

/-- A lookup in an allowed collection. -/
theorem readsAllowed_iff_lookup :
    checkMongo "aggregate".toList (.str "orders".toList) .undefined
      (.arr [.obj [("$lookup".toList, .obj [("from".toList, .str "users".toList)])]])
      ["orders".toList, "users ".toList] = some { ok := true } ∧
    (ReadsAllowed ["orders".toList, "users ".toList] (.str "orders".toList) .undefined
      (.arr [.obj [("$lookup".toList, .obj [("from".toList, .str "users".toList)])]]) ↔
      KeysHarmless (50 < ·) ["orders".toList, "users ".toList] .undefined
        (.arr [.obj [("$lookup".toList, .obj [("from".toList, .str "users".toList)])]])) :=
  ⟨by decide +kernel, readsAllowed_iff "aggregate".toList _ _ _ _ { ok := true }
    (by decide +kernel) rfl⟩

/-- `{ $where: 'sleep(1000)' }` inside of that many conjunctions. -/
def buried : ℕ → JsValue
  | 0 => .obj [("$where".toList, .str "sleep(1000)".toList)]
  | n + 1 => .obj [("$and".toList, .arr [buried n])]

theorem occurs_buried (n : ℕ) : Occurs (2 * n) (buried n) (buried 0) := by
  induction n with
  | zero => exact .here _
  | succ n ih => exact .property List.mem_cons_self (.item List.mem_cons_self ih)

/-- Code for the server that is 52 levels down is accepted. -/
theorem buried_code_accepted :
    checkMongo "find".toList (.str "orders".toList) (buried 26) .undefined [] =
      some { ok := true } ∧
    ¬ ReadsAllowed [] (.str "orders".toList) (buried 26) .undefined := by
  refine ⟨by decide +kernel, fun h => ?_⟩
  have hkey := h.1 _ List.mem_cons_self 52 _ trivial (occurs_buried 26) _ List.mem_cons_self
  exact absurd hkey.1 (by decide +kernel)

end Prgd.MongoGuard
