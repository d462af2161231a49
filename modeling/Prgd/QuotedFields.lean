import Mathlib

/-!
# Quoted fields

A line of fields with blanks between them. A field is a bare word or a quoted string, in which an
escape sign takes the sign after it as it stands, and a string that does not fit is refused.

A bare word reads as itself, and an escaped string between quotes reads as the string.
-/
namespace Prgd.QuotedFields
variable {α : Type*}

inductive Field (α : Type*) where
  | bare (w : List α)
  | quoted (s : List α)
  deriving DecidableEq

/-- What has been read of the field at hand. -/
inductive Mode (α : Type*) where
  | between
  | word (w : List α)
  | inside (s : List α)
  | escaped (s : List α)

section
variable [DecidableEq α] (blank : α → Bool) (quote slash : α) (fits : List α → Bool)

def scan : Mode α → List α → Option (List (Field α))
  | .between, [] => some []
  | .word w, [] => some [.bare w]
  | .inside _, [] => none
  | .escaped _, [] => none
  | .between, c :: cs =>
      if blank c then scan .between cs
      else if c = quote then scan (.inside []) cs
      else scan (.word [c]) cs
  | .word w, c :: cs =>
      if blank c then (scan .between cs).map (.bare w :: ·)
      else if c = quote then none
      else scan (.word (w ++ [c])) cs
  | .inside s, c :: cs =>
      if c = slash then scan (.escaped s) cs
      else if c = quote then
        if fits s then (scan .between cs).map (.quoted s :: ·) else none
      else scan (.inside (s ++ [c])) cs
  | .escaped s, c :: cs => scan (.inside (s ++ [c])) cs

def fields (s : List α) : Option (List (Field α)) := scan blank quote slash fits .between s

def escape (s : List α) : List α :=
  s.flatMap fun c => if c = quote ∨ c = slash then [slash, c] else [c]

/-- It begins at no quote and ends at no blank. -/
structure IsBare (w : List α) : Prop where
  nonempty : w ≠ []
  plain : ∀ c ∈ w, blank c = false ∧ c ≠ quote

end

section
variable [DecidableEq α] {blank : α → Bool} {quote slash : α} {fits : List α → Bool}

theorem scan_word {w : List α} (hw : ∀ c ∈ w, blank c = false ∧ c ≠ quote) (u rest : List α) :
    scan blank quote slash fits (.word u) (w ++ rest) =
      scan blank quote slash fits (.word (u ++ w)) rest := by
  induction w generalizing u with
  | nil => rw [List.nil_append, List.append_nil]
  | cons c w ih =>
    obtain ⟨hblank, hquote⟩ := hw c List.mem_cons_self
    rw [List.cons_append, scan, hblank, if_neg Bool.false_ne_true, if_neg hquote,
      ih fun d hd => hw d (List.mem_cons_of_mem c hd), List.append_assoc, List.singleton_append]

theorem scan_bare {w : List α} (hw : IsBare blank quote w) (rest : List α) :
    scan blank quote slash fits .between (w ++ rest) =
      scan blank quote slash fits (.word w) rest := by
  obtain ⟨c, w, rfl⟩ := List.exists_cons_of_ne_nil hw.nonempty
  obtain ⟨hblank, hquote⟩ := hw.plain c List.mem_cons_self
  rw [List.cons_append, scan, hblank, if_neg Bool.false_ne_true, if_neg hquote,
    scan_word fun d hd => hw.plain d (List.mem_cons_of_mem c hd), List.singleton_append]

theorem fields_bare {w : List α} (hw : IsBare blank quote w) :
    fields blank quote slash fits w = some [.bare w] := by
  have hscan : scan blank quote slash fits .between (w ++ []) =
      scan blank quote slash fits (.word w) [] := scan_bare hw []
  rwa [List.append_nil] at hscan

theorem fields_bare_blank {w : List α} (hw : IsBare blank quote w) {c : α} (hc : blank c = true)
    (rest : List α) : fields blank quote slash fits (w ++ c :: rest) =
      (fields blank quote slash fits rest).map (.bare w :: ·) := by
  rw [fields, scan_bare hw, scan, if_pos hc, fields]

theorem scan_escape (s u rest : List α) :
    scan blank quote slash fits (.inside u) (escape quote slash s ++ rest) =
      scan blank quote slash fits (.inside (u ++ s)) rest := by
  induction s generalizing u with
  | nil => rw [List.append_nil]; rfl
  | cons c s ih =>
    rw [escape, List.flatMap_cons, List.append_assoc]
    by_cases hc : c = quote ∨ c = slash
    · rw [if_pos hc, List.cons_append, scan, if_pos rfl, List.cons_append, scan, List.nil_append,
        ← escape, ih, List.append_assoc, List.singleton_append]
    · obtain ⟨hquote, hslash⟩ := not_or.mp hc
      rw [if_neg hc, List.cons_append, scan, if_neg hslash, if_neg hquote, List.nil_append,
        ← escape, ih, List.append_assoc, List.singleton_append]

theorem fields_quoted (hne : quote ≠ slash) (hblank : blank quote = false) {s : List α}
    (hs : fits s = true) (rest : List α) :
    fields blank quote slash fits (quote :: (escape quote slash s ++ quote :: rest)) =
      (fields blank quote slash fits rest).map (.quoted s :: ·) := by
  rw [fields, scan, hblank, if_neg Bool.false_ne_true, if_pos rfl, scan_escape, scan,
    if_neg hne, if_pos rfl, List.nil_append, if_pos hs, fields]

end

end Prgd.QuotedFields
