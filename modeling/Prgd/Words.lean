import Mathlib

/-!
# Lines of words

A configuration is read line by line, and a line as the words between its blanks. A word that
begins with the comment sign ends its line, and lines without a word do not count.

Reading gives back the words that were written when each of them is one: it is not empty, it has
no blank and no line break in it, and does not begin with the comment sign. Nothing else is ever
read as a word.
-/
namespace Prgd.Words
variable {α : Type*}

section
variable {blank : α → Bool}

/-- The parts between blanks. -/
def parts (blank : α → Bool) (s : List α) : List (List α) := (s.splitOnP blank).filter (· ≠ [])

/-- Words with a separator between them. -/
def spaced (space : α) : List (List α) → List α
  | [] => []
  | [w] => w
  | w :: v :: ws => w ++ space :: spaced space (v :: ws)

theorem parts_blank {c : α} (h : blank c = true) (s : List α) :
    parts blank (c :: s) = parts blank s := by
  have hsplit := List.splitOnP_append_cons [] s h
  rw [List.nil_append] at hsplit
  rw [parts, hsplit, List.splitOnP_nil, List.singleton_append, List.filter_cons]
  rfl

theorem parts_indent {indent : List α} (h : ∀ c ∈ indent, blank c = true) (s : List α) :
    parts blank (indent ++ s) = parts blank s := by
  induction indent with
  | nil => rfl
  | cons c indent ih =>
    rw [List.cons_append, parts_blank (h c List.mem_cons_self)]
    exact ih fun d hd => h d (List.mem_cons_of_mem c hd)

theorem parts_word {w : List α} (hne : w ≠ []) (hw : ∀ c ∈ w, blank c = false) :
    parts blank w = [w] := by
  rw [parts, List.splitOnP_eq_singleton hw]
  simp [hne]

theorem parts_word_blank {w : List α} (hne : w ≠ []) (hw : ∀ c ∈ w, blank c = false) {c : α}
    (hc : blank c = true) (s : List α) : parts blank (w ++ c :: s) = w :: parts blank s := by
  rw [parts, List.splitOnP_append_cons_of_forall_mem hw c hc, List.filter_cons, if_pos (by simpa)]
  rfl

theorem parts_spaced {space : α} (hspace : blank space = true) {ws : List (List α)}
    (h : ∀ w ∈ ws, w ≠ [] ∧ ∀ c ∈ w, blank c = false) : parts blank (spaced space ws) = ws := by
  induction ws with
  | nil => rfl
  | cons w ws ih =>
    obtain ⟨hne, hw⟩ := h w List.mem_cons_self
    cases ws with
    | nil => exact parts_word hne hw
    | cons v ws =>
      rw [spaced, parts_word_blank hne hw hspace, ih fun u hu => h u (List.mem_cons_of_mem w hu)]

/-- The pieces of a list have its elements, and none at which it is split. -/
theorem mem_splitOnP {p : α → Bool} {s piece : List α} (h : piece ∈ s.splitOnP p) :
    ∀ c ∈ piece, p c = false ∧ c ∈ s := by
  induction s generalizing piece with
  | nil =>
    rw [List.splitOnP_nil, List.mem_singleton] at h
    simp [h]
  | cons d s ih =>
    rw [List.splitOnP_cons_eq_if_modifyHead] at h
    split_ifs at h with hd
    · rcases List.mem_cons.mp h with rfl | h
      · simp
      · exact fun c hc => ⟨(ih h c hc).1, List.mem_cons_of_mem d (ih h c hc).2⟩
    · cases hs : s.splitOnP p with
      | nil => exact absurd hs (List.splitOnP_ne_nil p s)
      | cons first more =>
        rw [hs, List.modifyHead_cons] at h
        intro c hc
        have hof : ∀ part ∈ first :: more, c ∈ part → p c = false ∧ c ∈ d :: s := fun part hpart hc =>
          ⟨(ih (hs ▸ hpart) c hc).1, List.mem_cons_of_mem d (ih (hs ▸ hpart) c hc).2⟩
        rcases List.mem_cons.mp h with rfl | h
        · rcases List.mem_cons.mp hc with rfl | hc
          · exact ⟨by simpa using hd, List.mem_cons_self⟩
          · exact hof first List.mem_cons_self hc
        · exact hof piece (List.mem_cons_of_mem first h) hc

theorem spaced_append {space : α} {ws vs : List (List α)} (hws : ws ≠ []) (hvs : vs ≠ []) :
    spaced space (ws ++ vs) = spaced space ws ++ space :: spaced space vs := by
  induction ws with
  | nil => exact absurd rfl hws
  | cons w ws ih =>
    cases ws with
    | nil =>
      obtain ⟨v, vs, rfl⟩ := List.exists_cons_of_ne_nil hvs
      rfl
    | cons u ws =>
      have hrest := ih (List.cons_ne_nil u ws)
      rw [List.cons_append] at hrest
      rw [List.cons_append, List.cons_append, spaced, hrest, spaced, List.append_assoc,
        List.cons_append]

theorem notMem_spaced {space newline : α} (hspace : space ≠ newline) {ws : List (List α)}
    (h : ∀ w ∈ ws, newline ∉ w) : newline ∉ spaced space ws := by
  induction ws with
  | nil => simp [spaced]
  | cons w ws ih =>
    have hw := h w List.mem_cons_self
    cases ws with
    | nil => exact hw
    | cons v ws =>
      have hrest := ih fun u hu => h u (List.mem_cons_of_mem w hu)
      rw [spaced, List.mem_append, List.mem_cons]
      rintro (hm | hm | hm)
      · exact hw hm
      · exact hspace hm.symm
      · exact hrest hm

end

section
variable [DecidableEq α] {blank : α → Bool} {sharp newline : α}

/-- The words of a line, up to a comment. -/
def words (blank : α → Bool) (sharp : α) (s : List α) : List (List α) :=
  (parts blank s).takeWhile (·.head? ≠ some sharp)

/-- The lines that have words. -/
def read (blank : α → Bool) (sharp newline : α) (s : List α) : List (List (List α)) :=
  ((s.splitOnP (· = newline)).map (words blank sharp)).filter (· ≠ [])

/-- A text that is read as one word. -/
structure IsWord (blank : α → Bool) (sharp newline : α) (w : List α) : Prop where
  ne_nil : w ≠ []
  blanks : ∀ c ∈ w, blank c = false
  lines : newline ∉ w
  sharp : w.head? ≠ some sharp

/-- A line of words is read as these words. -/
theorem words_spaced {space : α} (hspace : blank space = true) {indent : List α}
    (hindent : ∀ c ∈ indent, blank c = true) {ws : List (List α)}
    (h : ∀ w ∈ ws, IsWord blank sharp newline w) :
    words blank sharp (indent ++ spaced space ws) = ws := by
  rw [words, parts_indent hindent,
    parts_spaced hspace fun w hw => ⟨(h w hw).ne_nil, (h w hw).blanks⟩]
  exact List.takeWhile_eq_self_iff.mpr fun w hw => decide_eq_true (h w hw).sharp

theorem splitOnP_spaced {lines : List (List α)} (hne : lines ≠ []) (h : ∀ l ∈ lines, newline ∉ l) :
    (spaced newline lines).splitOnP (· = newline) = lines := by
  have hnot : ∀ l ∈ lines, ∀ c ∈ l, decide (c = newline) = false := fun l hl c hc =>
    decide_eq_false fun he => h l hl (he ▸ hc)
  induction lines with
  | nil => exact absurd rfl hne
  | cons l lines ih =>
    have hl := hnot l List.mem_cons_self
    cases lines with
    | nil => exact List.splitOnP_eq_singleton hl
    | cons m lines =>
      rw [spaced, List.splitOnP_append_cons_of_forall_mem hl newline (decide_eq_true rfl),
        ih (by simp) (fun k hk => h k (List.mem_cons_of_mem l hk))
          fun k hk => hnot k (List.mem_cons_of_mem l hk)]

/-- A text is read as the words of its lines. -/
theorem read_spaced {lines : List (List α)} (hne : lines ≠ []) (h : ∀ l ∈ lines, newline ∉ l) :
    read blank sharp newline (spaced newline lines) =
      (lines.map (words blank sharp)).filter (· ≠ []) := by
  rw [read, splitOnP_spaced hne h]

/-- What is read of one line is read of all of them. -/
theorem mem_read_spaced {l : List α} {lines : List (List α)} (hl : l ∈ lines)
    {line : List (List α)} (h : line ∈ read blank sharp newline l) :
    line ∈ read blank sharp newline (spaced newline lines) := by
  have hsplit : ∀ s t : List α, read blank sharp newline (s ++ newline :: t) =
      read blank sharp newline s ++ read blank sharp newline t := by
    intro s t
    rw [read, List.splitOnP_append_cons s t (decide_eq_true rfl), List.map_append,
      List.filter_append]
    rfl
  induction lines with
  | nil => cases hl
  | cons m lines ih =>
    cases lines with
    | nil =>
      rw [List.mem_singleton.mp hl] at h
      exact h
    | cons k lines =>
      rw [spaced, hsplit, List.mem_append]
      rcases List.mem_cons.mp hl with rfl | hl
      · exact .inl h
      · exact .inr (ih hl)

/-- What is read as a word is one. -/
theorem isWord_of_mem_read {s : List α} {line : List (List α)}
    (hline : line ∈ read blank sharp newline s) {w : List α} (hw : w ∈ line) :
    IsWord blank sharp newline w := by
  obtain ⟨l, hl, rfl⟩ := List.mem_map.mp (List.mem_filter.mp hline).1
  have hsharp := List.mem_takeWhile_imp hw
  obtain ⟨hpiece, hne⟩ := List.mem_filter.mp ((List.takeWhile_sublist _).subset hw)
  refine ⟨of_decide_eq_true hne, fun c hc => (mem_splitOnP hpiece c hc).1, fun hm => ?_,
    of_decide_eq_true hsharp⟩
  exact absurd rfl (of_decide_eq_false (mem_splitOnP hl newline (mem_splitOnP hpiece _ hm).2).1)

end

end Prgd.Words
