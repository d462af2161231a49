import Mathlib

/-!
# Programs whose outside calls may fail

A program over an outside state makes one call at a time. The fate of each call
comes from outside: it succeeds, or it fails, and a failed call may still have
had its effect (the answer was lost on the way back). The first failure that is
not handled ends the program. The fates are a list, one per call in order, and
the calls past its end succeed.

`Triple` is partial correctness with a postcondition for each of the two ends.
`Runs` counts calls: from one state a program that meets no failure makes so
many of them. `Reaches` says by which call a program brings a fact about.
-/
namespace Prgd.Calls

/-- What the caller is told about a failed call. -/
inductive Fault where
  | status (code : ℕ)
  | transport
  deriving DecidableEq, Repr

inductive Fate where
  | ok
  | failed (fault : Fault) (applied : Bool)
  deriving DecidableEq, Repr

/-- The call had its effect. -/
def Fate.applied : Fate → Bool
  | .ok => true
  | .failed _ applied => applied

structure Outcome (σ : Type*) (α : Type) where
  result : Except Fault α
  state : σ
  fates : List Fate

def Prog (σ : Type*) (α : Type) := σ → List Fate → Outcome σ α

variable {σ ι : Type*} {α β : Type}

def Prog.pure (a : α) : Prog σ α := fun s fates => ⟨.ok a, s, fates⟩

def Prog.bind (m : Prog σ α) (f : α → Prog σ β) : Prog σ β := fun s fates =>
  match m s fates with
  | ⟨.ok a, s', rest⟩ => f a s' rest
  | ⟨.error e, s', rest⟩ => ⟨.error e, s', rest⟩

instance : Monad (Prog σ) where
  pure := Prog.pure
  bind := Prog.bind

/-- One call: what it answers and what it does to the outside state. -/
def call (act : σ → α × σ) : Prog σ α := fun s fates =>
  match fates with
  | [] => ⟨.ok (act s).1, (act s).2, []⟩
  | .ok :: rest => ⟨.ok (act s).1, (act s).2, rest⟩
  | .failed e applied :: rest => ⟨.error e, if applied then (act s).2 else s, rest⟩

/-- A call that only reads. -/
def read (f : σ → α) : Prog σ α := call fun s => (f s, s)

/-- A call that only writes. -/
def write (f : σ → σ) : Prog σ Unit := call fun s => ((), f s)

/-- Go on after the failures that `p` names. -/
def tolerate (p : Fault → Bool) (m : Prog σ Unit) : Prog σ Unit := fun s fates =>
  match m s fates with
  | ⟨.error e, s', rest⟩ => ⟨if p e then .ok () else .error e, s', rest⟩
  | o => o

/-! ## Two ends -/

/-- From `P`, a program that ends well ends in `Q`, and one that fails ends in `E`. -/
def Triple (P : σ → Prop) (m : Prog σ α) (Q : α → σ → Prop) (E : σ → Prop) : Prop :=
  ∀ s fates, P s →
    match (m s fates).result with
    | .ok a => Q a (m s fates).state
    | .error _ => E (m s fates).state

section
variable {P P' : σ → Prop} {Q Q' : α → σ → Prop} {R : β → σ → Prop} {E E' I : σ → Prop}
  {m : Prog σ α} {f : α → Prog σ β}

theorem Triple.pure {a : α} (h : ∀ s, P s → Q a s) :
    Triple P (Pure.pure a : Prog σ α) Q E := fun s _ hs => h s hs

theorem Triple.bind (hm : Triple P m Q E) (hf : ∀ a, Triple (Q a) (f a) R E) :
    Triple P (m >>= f) R E := by
  intro s fates hs
  have hfirst := hm s fates hs
  change match (Prog.bind m f s fates).result with
    | .ok b => R b (Prog.bind m f s fates).state
    | .error _ => E (Prog.bind m f s fates).state
  unfold Prog.bind
  cases ho : m s fates with
  | mk result s' rest =>
    rw [ho] at hfirst
    cases result with
    | error e => exact hfirst
    | ok a => exact hf a s' rest hfirst

theorem Triple.consequence (h : Triple P m Q E) (hP : ∀ s, P' s → P s)
    (hQ : ∀ a s, Q a s → Q' a s) (hE : ∀ s, E s → E' s) : Triple P' m Q' E' := by
  intro s fates hs
  have hend := h s fates (hP s hs)
  cases hr : (m s fates).result with
  | error e =>
    rw [hr] at hend
    exact hE _ hend
  | ok a =>
    rw [hr] at hend
    exact hQ a _ hend

/-- A fact that the precondition may assume once and for all. -/
theorem Triple.of_state (h : ∀ s, P s → Triple (fun t => t = s) m Q E) : Triple P m Q E :=
  fun s fates hs => h s hs s fates rfl

/-- A call that takes effect keeps `E` and brings `Q`; one that does not leaves `P`. -/
theorem Triple.call {act : σ → α × σ} (hQ : ∀ s, P s → Q (act s).1 (act s).2)
    (hE : ∀ s, P s → E s) (hlate : ∀ s, P s → E (act s).2) : Triple P (call act) Q E := by
  intro s fates hs
  match fates with
  | [] => exact hQ s hs
  | .ok :: rest => exact hQ s hs
  | .failed e true :: rest => exact hlate s hs
  | .failed e false :: rest => exact hE s hs

theorem Triple.read {g : σ → α} (hQ : ∀ s, P s → Q (g s) s) (hE : ∀ s, P s → E s) :
    Triple P (read g) Q E := Triple.call hQ hE hE

theorem Triple.write {g : σ → σ} {Q : Unit → σ → Prop} (hQ : ∀ s, P s → Q () (g s))
    (hE : ∀ s, P s → E s) (hlate : ∀ s, P s → E (g s)) : Triple P (write g) Q E :=
  Triple.call hQ hE hlate

theorem Triple.tolerate {p : Fault → Bool} {m : Prog σ Unit}
    (h : Triple I m (fun _ => I) I) : Triple I (tolerate p m) (fun _ => I) I := by
  intro s fates hs
  have hend := h s fates hs
  unfold Calls.tolerate
  cases ho : m s fates with
  | mk result s' rest =>
    rw [ho] at hend
    cases result with
    | ok a => exact hend
    | error e =>
      cases hp : p e with
      | true => simpa [hp] using hend
      | false => simpa [hp] using hend

/-- A loop over a list: `inv` says what holds with the items that are still to come. -/
theorem Triple.forM {g : ι → Prog σ PUnit} (inv : List ι → σ → Prop) {l : List ι}
    (hbody : ∀ a rest, (∃ done, l = done ++ a :: rest) →
      Triple (inv (a :: rest)) (g a) (fun _ => inv rest) E) :
    Triple (inv l) (l.forM g) (fun _ => inv []) E := by
  induction l with
  | nil => exact Triple.pure fun s hs => hs
  | cons a l ih =>
    refine Triple.bind (hbody a l ⟨[], rfl⟩) fun _ => ih fun b rest hrest => ?_
    obtain ⟨done, hdone⟩ := hrest
    exact hbody b rest ⟨a :: done, by rw [hdone, List.cons_append]⟩

/-- A loop whose body keeps a fact at both ends keeps it. -/
theorem Triple.forM_invariant {g : ι → Prog σ PUnit} {l : List ι}
    (hbody : ∀ a ∈ l, Triple I (g a) (fun _ => I) I) :
    Triple I (l.forM g) (fun _ => I) I := by
  refine Triple.forM (fun _ => I) fun a rest hl => hbody a ?_
  obtain ⟨done, hdone⟩ := hl
  rw [hdone]
  exact List.mem_append_right _ (List.mem_cons_self ..)

/-- What holds at both ends holds of the state that the program leaves. -/
theorem Triple.state (h : Triple P m (fun _ => E) E) {s : σ} (fates : List Fate) (hs : P s) :
    E (m s fates).state := by
  have hend := h s fates hs
  cases hr : (m s fates).result with
  | error e =>
    rw [hr] at hend
    exact hend
  | ok a =>
    rw [hr] at hend
    exact hend

end

/-! ## Counting calls -/

/-- The first `n` calls succeed. -/
def AllOk (n : ℕ) (fates : List Fate) : Prop := ∀ fate ∈ fates.take n, fate = .ok

instance (n : ℕ) (fates : List Fate) : Decidable (AllOk n fates) :=
  inferInstanceAs (Decidable (∀ fate ∈ fates.take n, fate = .ok))

/-- The call after the first `n` has its effect. -/
def AppliedAt (n : ℕ) (fates : List Fate) : Prop := ∀ fate ∈ fates[n]?, fate.applied = true

instance (n : ℕ) (fates : List Fate) : Decidable (AppliedAt n fates) :=
  inferInstanceAs (Decidable (∀ fate ∈ fates[n]?, fate.applied = true))

theorem allOk_zero (fates : List Fate) : AllOk 0 fates := by simp [AllOk]

theorem allOk_add {n k : ℕ} {fates : List Fate} :
    AllOk (n + k) fates ↔ AllOk n fates ∧ AllOk k (fates.drop n) := by
  unfold AllOk
  rw [List.take_add]
  simp only [List.mem_append, or_imp, forall_and]

theorem appliedAt_add {n k : ℕ} {fates : List Fate} :
    AppliedAt (n + k) fates ↔ AppliedAt k (fates.drop n) := by
  unfold AppliedAt
  rw [List.getElem?_drop]

/-- With no failure the program makes `n` calls and ends with `a` in `s'`; a
failure among these calls ends it. -/
structure Runs (m : Prog σ α) (s : σ) (n : ℕ) (a : α) (s' : σ) : Prop where
  done : ∀ fates, AllOk n fates → m s fates = ⟨.ok a, s', fates.drop n⟩
  stuck : ∀ fates, ¬ AllOk n fates → ∃ e, (m s fates).result = .error e

theorem Runs.pure (a : α) (s : σ) : Runs (Pure.pure a : Prog σ α) s 0 a s where
  done _ _ := rfl
  stuck fates h := (h (allOk_zero fates)).elim

theorem Runs.call (act : σ → α × σ) (s : σ) : Runs (call act) s 1 (act s).1 (act s).2 where
  done fates h := by
    match fates, h with
    | [], _ => rfl
    | .ok :: rest, _ => rfl
    | .failed e b :: rest, h => exact absurd (h (.failed e b) (by simp)) (by simp)
  stuck fates h := by
    match fates, h with
    | [], h => exact (h (by simp [AllOk])).elim
    | .ok :: rest, h => exact (h (by simp [AllOk])).elim
    | .failed e b :: rest, _ => exact ⟨e, rfl⟩

theorem Runs.read (f : σ → α) (s : σ) : Runs (read f) s 1 (f s) s := Runs.call _ s

theorem Runs.write (f : σ → σ) (s : σ) : Runs (write f) s 1 () (f s) := Runs.call _ s

section
variable {m : Prog σ α} {f : α → Prog σ β} {s s' s'' : σ} {n k : ℕ} {a : α} {b : β}

theorem bind_ok {fates rest : List Fate} (h : m s fates = ⟨.ok a, s', rest⟩) :
    (m >>= f) s fates = f a s' rest := by
  change Prog.bind m f s fates = _
  rw [Prog.bind, h]

theorem bind_error {fates : List Fate} {e : Fault} (h : (m s fates).result = .error e) :
    ((m >>= f) s fates).result = .error e ∧ ((m >>= f) s fates).state = (m s fates).state := by
  change (Prog.bind m f s fates).result = _ ∧ (Prog.bind m f s fates).state = _
  unfold Prog.bind
  cases ho : m s fates with
  | mk result t rest =>
    rw [ho] at h
    cases h
    exact ⟨rfl, rfl⟩

/-- A call ends well with its effect, or fails with its effect or without. -/
theorem call_cases (act : σ → α × σ) (s : σ) (fates : List Fate) :
    call act s fates = ⟨.ok (act s).1, (act s).2, fates.drop 1⟩ ∨
      ∃ e, call act s fates = ⟨.error e, (act s).2, fates.drop 1⟩ ∨
        call act s fates = ⟨.error e, s, fates.drop 1⟩ := by
  match fates with
  | [] => exact .inl rfl
  | .ok :: rest => exact .inl rfl
  | .failed e true :: rest => exact .inr ⟨e, .inl rfl⟩
  | .failed e false :: rest => exact .inr ⟨e, .inr rfl⟩

/-- The fate of a call decides how it ends. -/
theorem call_fates (act : σ → α × σ) (s : σ) (fates : List Fate) :
    (AllOk 1 fates ∧ call act s fates = ⟨.ok (act s).1, (act s).2, fates.drop 1⟩) ∨
      ¬ AllOk 1 fates ∧ ∃ e, (AppliedAt 0 fates ∧
          call act s fates = ⟨.error e, (act s).2, fates.drop 1⟩) ∨
        ¬ AppliedAt 0 fates ∧ call act s fates = ⟨.error e, s, fates.drop 1⟩ := by
  match fates with
  | [] => exact .inl ⟨by simp [AllOk], rfl⟩
  | .ok :: rest => exact .inl ⟨by simp [AllOk], rfl⟩
  | .failed e true :: rest =>
    exact .inr ⟨by simp [AllOk], e, .inl ⟨by simp [AppliedAt, Fate.applied], rfl⟩⟩
  | .failed e false :: rest =>
    exact .inr ⟨by simp [AllOk], e, .inr ⟨by simp [AppliedAt, Fate.applied], rfl⟩⟩

theorem AllOk.applied {fates : List Fate} (h : AllOk 1 fates) : AppliedAt 0 fates := by
  match fates, h with
  | [], _ => simp [AppliedAt]
  | .ok :: rest, _ => simp [AppliedAt, Fate.applied]
  | .failed e b :: rest, h => exact absurd (h (.failed e b) (by simp)) (by simp)

theorem write_cases (f : σ → σ) (s : σ) (fates : List Fate) :
    write f s fates = ⟨.ok (), f s, fates.drop 1⟩ ∨
      ∃ e, write f s fates = ⟨.error e, f s, fates.drop 1⟩ ∨
        write f s fates = ⟨.error e, s, fates.drop 1⟩ := call_cases _ s fates

theorem read_cases (f : σ → α) (s : σ) (fates : List Fate) :
    read f s fates = ⟨.ok (f s), s, fates.drop 1⟩ ∨
      ∃ e, read f s fates = ⟨.error e, s, fates.drop 1⟩ := by
  rcases call_cases (fun s => (f s, s)) s fates with hok | ⟨e, hfail | hfail⟩
  · exact .inl hok
  · exact .inr ⟨e, hfail⟩
  · exact .inr ⟨e, hfail⟩

theorem bind_of_error {fates rest : List Fate} {e : Fault} (h : m s fates = ⟨.error e, s', rest⟩) :
    (m >>= f) s fates = ⟨.error e, s', rest⟩ := by
  change Prog.bind m f s fates = _
  rw [Prog.bind, h]

theorem forM_cons (g : ι → Prog σ PUnit) (a : ι) (l : List ι) (s : σ) (fates : List Fate) :
    (a :: l).forM g s fates = (g a >>= fun _ => l.forM g) s fates := rfl

theorem Runs.bind (hm : Runs m s n a s') (hf : Runs (f a) s' k b s'') :
    Runs (m >>= f) s (n + k) b s'' where
  done fates h := by
    rw [allOk_add] at h
    rw [bind_ok (hm.done fates h.1), hf.done _ h.2, List.drop_drop]
  stuck fates h := by
    by_cases hn : AllOk n fates
    · rw [bind_ok (hm.done fates hn)]
      exact hf.stuck _ fun hk => h (allOk_add.mpr ⟨hn, hk⟩)
    · obtain ⟨e, he⟩ := hm.stuck fates hn
      exact ⟨e, (bind_error he).1⟩

/-- What a triple says of the end that a program reaches without a failure. -/
theorem Runs.post {P E : σ → Prop} {Q : α → σ → Prop} (hm : Runs m s n a s')
    (h : Triple P m Q E) (hs : P s) : Q a s' := by
  have hend := h s [] hs
  rw [hm.done [] (by simp [AllOk])] at hend
  exact hend

/-- A loop of single calls makes one call for each item. -/
theorem Runs.forM_write (g : ι → σ → σ) (l : List ι) (s : σ) :
    Runs (l.forM fun a => Calls.write (g a)) s l.length () (l.foldl (fun t a => g a t) s) := by
  induction l generalizing s with
  | nil => exact Runs.pure () s
  | cons a l ih =>
    rw [List.length_cons, Nat.add_comm]
    exact Runs.bind (Runs.write (g a) s) (ih (g a s))

/-! ## Which call brings a fact about -/

/-- From `s` the program brings `X` about by the call after its first `n`, and
does not end well without it. -/
structure Reaches (X : σ → Prop) (m : Prog σ α) (s : σ) (n : ℕ) : Prop where
  exact_when : ∀ fates, X (m s fates).state ↔ AllOk n fates ∧ AppliedAt n fates
  of_ok : ∀ fates a, (m s fates).result = .ok a → X (m s fates).state

variable {X : σ → Prop}

theorem Reaches.write {g : σ → σ} (h : ¬ X s) (h' : X (g s)) : Reaches X (write g) s 0 where
  exact_when fates := by
    match fates with
    | [] => simpa [AllOk, AppliedAt, Calls.write, call] using h'
    | .ok :: rest => simpa [AllOk, AppliedAt, Fate.applied, Calls.write, call] using h'
    | .failed e true :: rest => simpa [AllOk, AppliedAt, Fate.applied, Calls.write, call] using h'
    | .failed e false :: rest => simpa [AllOk, AppliedAt, Fate.applied, Calls.write, call] using h
  of_ok fates a hok := by
    match fates, hok with
    | [], _ => exact h'
    | .ok :: rest, _ => exact h'
    | .failed e b :: rest, hok => cases hok

/-- The fact is brought about after `m`, which does not bring it about by failing. -/
theorem Reaches.after (hm : Runs m s n a s') (hnot : Triple (fun t => t = s) m
      (fun _ _ => True) fun t => ¬ X t) (hf : Reaches X (f a) s' k) :
    Reaches X (m >>= f) s (n + k) where
  exact_when fates := by
    rw [allOk_add, appliedAt_add, and_assoc]
    by_cases hn : AllOk n fates
    · rw [bind_ok (hm.done fates hn), hf.exact_when]
      exact ⟨fun h => ⟨hn, h⟩, fun h => h.2⟩
    · obtain ⟨e, he⟩ := hm.stuck fates hn
      have hend := hnot s fates rfl
      rw [he] at hend
      rw [(bind_error he).2]
      exact ⟨fun h => (hend h).elim, fun h => (hn h.1).elim⟩
  of_ok fates b hok := by
    by_cases hn : AllOk n fates
    · rw [bind_ok (hm.done fates hn)] at hok ⊢
      exact hf.of_ok _ b hok
    · obtain ⟨e, he⟩ := hm.stuck fates hn
      rw [(bind_error he).1] at hok
      cases hok

/-- What follows keeps the fact. -/
theorem Reaches.before (hm : Reaches X m s n) (hf : ∀ a, Triple X (f a) (fun _ => X) X) :
    Reaches X (m >>= f) s n where
  exact_when fates := by
    rw [← hm.exact_when fates]
    cases hr : (m s fates).result with
    | error e => rw [(bind_error hr).2]
    | ok a =>
      have hX := hm.of_ok fates a hr
      have hbind : (m >>= f) s fates = f a (m s fates).state (m s fates).fates := by
        refine bind_ok ?_
        rw [← hr]
      rw [hbind]
      exact ⟨fun _ => hX, fun _ => (hf a).state _ hX⟩
  of_ok fates b hok := by
    cases hr : (m s fates).result with
    | error e =>
      rw [(bind_error hr).1] at hok
      cases hok
    | ok a =>
      have hX := hm.of_ok fates a hr
      have hbind : (m >>= f) s fates = f a (m s fates).state (m s fates).fates := by
        refine bind_ok ?_
        rw [← hr]
      rw [hbind]
      exact (hf a).state _ hX

end

end Prgd.Calls
