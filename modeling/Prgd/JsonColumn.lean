import Prgd.JsValue
import Prgd.Encoding
import Mathlib.Data.List.Lex
import Mathlib.Data.List.Sort

/-!
# JSON columns

What a value becomes when it is written to a `jsonb` column and read back. A
property that holds `undefined` is not written, an item that holds it is
written as `null`, and so is a number that is not finite. Object keys come
back sorted, shorter keys first and keys of one length by their UTF-8 bytes;
values are otherwise unchanged. The two levels of sorting and dropping are why
a value that was stored can differ from the value that is still in memory.
-/
namespace Prgd.JsonColumn
open Encoding

/-- The key order of the column. -/
def keyLe (a b : Text) : Prop :=
  (utf8 a).length < (utf8 b).length ∨ (utf8 a).length = (utf8 b).length ∧ utf8 a ≤ utf8 b

instance (a b : Text) : Decidable (keyLe a b) := by
  unfold keyLe
  infer_instance

def sortFields (fields : List (Text × JsValue)) : List (Text × JsValue) :=
  fields.insertionSort fun f g => keyLe f.1 g.1

mutual
/-- Written and read back. -/
def column : JsValue → JsValue
  | .num n => if n.isFinite then .num n else .null
  | .arr items => .arr (columnItems items)
  | .obj fields => .obj (sortFields (columnFields fields))
  | v => v
def columnItems : List JsValue → List JsValue
  | [] => []
  | v :: vs => (if v = .undefined then .null else column v) :: columnItems vs
def columnFields : List (Text × JsValue) → List (Text × JsValue)
  | [] => []
  | (k, v) :: vs => if v = .undefined then columnFields vs else (k, column v) :: columnFields vs
end

theorem sortFields_perm (fields : List (Text × JsValue)) : (sortFields fields).Perm fields :=
  List.perm_insertionSort _ _

theorem keyLe_trans {a b c : Text} (hab : keyLe a b) (hbc : keyLe b c) : keyLe a c := by
  unfold keyLe at *
  rcases hab with hab | ⟨hab, hab'⟩
  · left
    omega
  · rcases hbc with hbc | ⟨hbc, hbc'⟩
    · left
      omega
    · exact .inr ⟨hab.trans hbc, le_trans hab' hbc'⟩

theorem keyLe_total (a b : Text) : keyLe a b ∨ keyLe b a := by
  unfold keyLe
  rcases Nat.lt_trichotomy (utf8 a).length (utf8 b).length with h | h | h
  · exact .inl (.inl h)
  · rcases le_total (utf8 a) (utf8 b) with h' | h'
    · exact .inl (.inr ⟨h, h'⟩)
    · exact .inr (.inr ⟨h.symm, h'⟩)
  · exact .inr (.inl h)

instance : Std.Total fun f g : Text × JsValue => keyLe f.1 g.1 := ⟨fun f g => keyLe_total f.1 g.1⟩

instance : IsTrans (Text × JsValue) fun f g => keyLe f.1 g.1 := ⟨fun _ _ _ => keyLe_trans⟩

/-- Sorting a second time changes nothing. -/
theorem sortFields_sortFields (fields : List (Text × JsValue)) :
    sortFields (sortFields fields) = sortFields fields :=
  (List.pairwise_insertionSort _ fields).insertionSort_eq

/-- Comes back from the column as it is. -/
def Stable (v : JsValue) : Prop := column v = v ∧ v ≠ .undefined

theorem columnItems_of_stable {items : List JsValue} (h : ∀ v ∈ items, Stable v) :
    columnItems items = items := by
  induction items with
  | nil => rfl
  | cons v vs ih =>
    obtain ⟨hv, hne⟩ := h v (by simp)
    rw [columnItems, if_neg hne, hv, ih fun w hw => h w (List.mem_cons_of_mem v hw)]

theorem columnFields_of_stable {fields : List (Text × JsValue)} (h : ∀ f ∈ fields, Stable f.2) :
    columnFields fields = fields := by
  induction fields with
  | nil => rfl
  | cons f fs ih =>
    obtain ⟨hv, hne⟩ := h f (by simp)
    obtain ⟨k, v⟩ := f
    rw [columnFields, if_neg hne, hv, ih fun g hg => h g (List.mem_cons_of_mem _ hg)]

mutual
theorem stable_column : ∀ v : JsValue, v ≠ .undefined → Stable (column v)
  | .undefined, h => absurd rfl h
  | .null, _ => ⟨by simp only [column], by simp [column]⟩
  | .bool _, _ => ⟨by simp only [column], by simp [column]⟩
  | .str _, _ => ⟨by simp only [column], by simp [column]⟩
  | .num n, _ => by
      by_cases hn : n.isFinite
      · exact ⟨by simp [column, hn], by simp [column, hn]⟩
      · exact ⟨by simp [column, hn], by simp [column, hn]⟩
  | .arr items, _ => by
      refine ⟨?_, by simp [column]⟩
      rw [column, column, columnItems_of_stable (stable_columnItems items)]
  | .obj fields, _ => by
      refine ⟨?_, by simp [column]⟩
      have hstable : ∀ f ∈ sortFields (columnFields fields), Stable f.2 := fun f hf =>
        stable_columnFields fields f ((sortFields_perm _).mem_iff.mp hf)
      rw [column, column, columnFields_of_stable hstable, sortFields_sortFields]

theorem stable_columnItems : ∀ items : List JsValue, ∀ v ∈ columnItems items, Stable v
  | [], v, h => by simp [columnItems] at h
  | w :: ws, v, h => by
      rw [columnItems, List.mem_cons] at h
      rcases h with rfl | h
      · split_ifs with hw
        · exact ⟨by simp only [column], by simp⟩
        · exact stable_column w hw
      · exact stable_columnItems ws v h

theorem stable_columnFields : ∀ fields : List (Text × JsValue), ∀ f ∈ columnFields fields, Stable f.2
  | [], f, h => by simp [columnFields] at h
  | (k, w) :: ws, f, h => by
      rw [columnFields] at h
      split_ifs at h with hw
      · exact stable_columnFields ws f h
      · rcases List.mem_cons.mp h with rfl | h
        · exact stable_column w hw
        · exact stable_columnFields ws f h
end

/-- What was stored once comes back unchanged. -/
theorem column_column (v : JsValue) : column (column v) = column v := by
  by_cases h : v = .undefined
  · subst h
    simp only [column]
  · exact (stable_column v h).1

end Prgd.JsonColumn
