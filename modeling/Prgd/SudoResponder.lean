import Prgd.Decoding

/-!
# Answering sudo

The gateway answers sudo's prompt for the login user with the stored password and watches for
sudo's refusal. It reads the output of the shell chunk by chunk: the last 512 units, without
terminal sequences, and a flag that waits for the verdict on the last answer.

Visible output other than the prompt clears the flag. So a refusal counts only when its words
arrive in one chunk: cut inside of them, the first part passes for the output of a command that
sudo has let through, and the gateway answers the next prompt again.
-/
namespace Prgd.SudoResponder
open Encoding (utf8 fromUtf8 fromUtf8From sequence replacement)

/-! ## What the responder sees -/

def esc : Char := Char.ofNat 0x1b
def bel : Char := Char.ofNat 0x07

def between (a b c : Char) : Bool := a ≤ c && c ≤ b

/-- The length of the terminal sequence at the start of a text, of its three kinds the first that
fits. -/
def ansiLength (s : Text) : ℕ :=
  match s with
  | c :: '[' :: rest =>
      if c ≠ esc then 0
      else
        let params := rest.takeWhile fun d => Text.isDigit d || d = ';' || d = '?'
        let middle := (rest.drop params.length).takeWhile (between ' ' '/')
        match rest.drop (params.length + middle.length) with
        | last :: _ => if between '@' '~' last then params.length + middle.length + 3 else 0
        | [] => 0
  | c :: ']' :: rest =>
      if c ≠ esc then 0
      else
        let title := rest.takeWhile fun d => d ≠ bel && d ≠ esc
        match rest.drop title.length with
        | [] => 2
        | d :: more => if d = bel then title.length + 3
            else if more.head? = some '\\' then title.length + 4 else 2
  | c :: d :: _ => if c = esc ∧ (between '@' 'Z' d ∨ between '\\' '_' d) then 2 else 0
  | _ => 0

/-- The text without terminal sequences, behind `skip` characters. -/
def visibleFrom : ℕ → Text → Text
  | _, [] => []
  | skip + 1, _ :: s => visibleFrom skip s
  | 0, c :: s =>
      match ansiLength (c :: s) with
      | 0 => c :: visibleFrom 0 s
      | n + 1 => visibleFrom n s

def visible (s : Text) : Text := visibleFrom 0 s

/-- `slice(-n)`. Half of a pair of surrogates reads as a replacement character. -/
def lastUnits (n : ℕ) : Text → Text
  | [] => []
  | c :: s =>
      if Text.length16 (c :: s) ≤ n then c :: s
      else if Text.length16 s < n then replacement :: s
      else lastUnits n s

def tryAgain : Text := "Sorry, try again".toList
def incorrect : Text := "incorrect password attempt".toList
def question : Text := "[sudo] password for ".toList

def wrong (s : Text) : Bool := decide (tryAgain <:+: s) || decide (incorrect <:+: s)

/-- A prompt that begins the text and ends with it. -/
def promptAt (s : Text) : Option Text :=
  if Text.startsWith s question then
    let rest := s.drop question.length
    let name := rest.takeWhile fun c => !Text.isSpace c && c ≠ ':'
    if 1 ≤ Text.length16 name ∧ Text.length16 name ≤ 64 then
      match rest.drop name.length with
      | ':' :: blank => if blank.all Text.isSpace then some name else none
      | _ => none
    else none
  else none

/-- The user of the prompt at the end of a text. -/
def prompt (s : Text) : Option Text := s.tails.findSome? promptAt

/-! ## The responder -/

inductive SudoDecision where
  | none
  | inject (value : Text)
  | giveUp
  deriving DecidableEq

structure Responder where
  username : Text
  password : Option Text
  tail : Text := []
  awaitingVerdict : Bool := false
  stopped : Bool := false
  injections : ℕ := 0
  deriving DecidableEq

/-- What is kept of the output with a new chunk. -/
def Responder.heard (s : Responder) (chunk : List ℕ) : Text :=
  lastUnits 512 (s.tail ++ fromUtf8 chunk)

def observe (s : Responder) (chunk : List ℕ) : SudoDecision × Responder :=
  match s.password with
  | none | some [] => (.none, s)
  | some password =>
      if s.stopped then (.none, s)
      else
        let tail := s.heard chunk
        let text := visible tail
        if s.awaitingVerdict && wrong text then (.giveUp, { s with stopped := true, tail := [] })
        else if prompt text = some s.username then
          (.inject password,
            { s with tail := [], awaitingVerdict := true, injections := s.injections + 1 })
        else (.none, { s with
          tail := tail, awaitingVerdict := s.awaitingVerdict && text.all Text.isSpace })

/-- The decisions on the chunks of a session. -/
def observeAll (s : Responder) : List (List ℕ) → List SudoDecision
  | [] => []
  | chunk :: rest => (observe s chunk).1 :: observeAll (observe s chunk).2 rest

/-- sudo's refusal, with an optional line break in front, and the prompt again. -/
def refusal (username before behind : Text) : Text :=
  before ++ "Sorry, try again.".toList ++ behind ++ question ++ username ++ ": ".toList

/-! ## Reading a text -/

theorem ansiLength_of_ne {c : Char} (h : c ≠ esc) (s : Text) : ansiLength (c :: s) = 0 := by
  unfold ansiLength
  split
  · next heq =>
    obtain ⟨rfl, -⟩ := List.cons.inj heq
    rw [if_pos h]
  · next heq =>
    obtain ⟨rfl, -⟩ := List.cons.inj heq
    rw [if_pos h]
  · next heq =>
    obtain ⟨rfl, -⟩ := List.cons.inj heq
    rw [if_neg fun hc => h hc.1]
  · rfl

/-- What has no escape character is shown as it is. -/
theorem visible_append {t : Text} (h : esc ∉ t) (s : Text) : visible (t ++ s) = t ++ visible s := by
  induction t with
  | nil => rfl
  | cons c t ih =>
    have hc : c ≠ esc := fun he => h (he ▸ List.mem_cons_self)
    have htail := ih fun hm => h (List.mem_cons_of_mem c hm)
    rw [List.cons_append, visible, visibleFrom, ansiLength_of_ne hc]
    exact congrArg (c :: ·) htail

theorem visible_of_notMem {t : Text} (h : esc ∉ t) : visible t = t := by
  have hnil := visible_append h []
  rwa [List.append_nil, visible, visible, visibleFrom, List.append_nil] at hnil

theorem lastUnits_of_le {n : ℕ} {s : Text} (h : Text.length16 s ≤ n) : lastUnits n s = s := by
  cases s with
  | nil => rfl
  | cons c s => rw [lastUnits, if_pos h]

theorem length16_cons (c : Char) (s : Text) :
    Text.length16 (c :: s) = (if c.toNat < 0x10000 then 1 else 2) + Text.length16 s := rfl

theorem length16_lastUnits_le (n : ℕ) (s : Text) : Text.length16 (lastUnits n s) ≤ n := by
  induction s with
  | nil => exact Nat.zero_le n
  | cons c s ih =>
    rw [lastUnits]
    split_ifs with hall hhalf
    · exact hall
    · rw [length16_cons, if_pos (by decide)]
      omega
    · exact ih

/-- What came before the last units is gone. -/
theorem lastUnits_append {n : ℕ} {s : Text} (h : n ≤ Text.length16 s) (t : Text) :
    lastUnits n (t ++ s) = lastUnits n s := by
  induction t with
  | nil => rfl
  | cons c t ih =>
    have hlen : Text.length16 s ≤ Text.length16 (t ++ s) := by
      simp [Text.length16]
    have hcons : Text.length16 (t ++ s) < Text.length16 (c :: (t ++ s)) := by
      rw [length16_cons]
      split_ifs <;> omega
    have hnot : ¬ Text.length16 (c :: (t ++ s)) ≤ n := by omega
    have hnot' : ¬ Text.length16 (t ++ s) < n := by omega
    rw [List.cons_append, lastUnits, if_neg hnot, if_neg hnot']
    exact ih

theorem length16_filler (k : ℕ) (s : Text) :
    Text.length16 (List.replicate k 'x' ++ s) = k + Text.length16 s := by
  simp [Text.length16]

/-- A filler of narrow characters in front is cut to the room that there is. -/
theorem lastUnits_filler {n m : ℕ} {s : Text} (h : Text.length16 s ≤ n)
    (hm : n ≤ m + Text.length16 s) :
    lastUnits n (List.replicate m 'x' ++ s) = List.replicate (n - Text.length16 s) 'x' ++ s := by
  have hroom : Text.length16 (List.replicate (n - Text.length16 s) 'x' ++ s) = n := by
    rw [length16_filler]
    omega
  have hsplit : List.replicate m 'x' ++ s = List.replicate (m + Text.length16 s - n) 'x' ++
      (List.replicate (n - Text.length16 s) 'x' ++ s) := by
    rw [← List.append_assoc, ← List.replicate_add]
    congr 2
    omega
  rw [hsplit, lastUnits_append hroom.ge, lastUnits_of_le hroom.le]

theorem promptAt_of_ne {c : Char} (h : c ≠ '[') (s : Text) : promptAt (c :: s) = none := by
  have hnot : Text.startsWith (c :: s) question = false := by
    have hq : question = '[' :: question.drop 1 := rfl
    rw [Text.startsWith, hq, List.isPrefixOf_cons_cons, beq_eq_false_iff_ne.mpr h.symm,
      Bool.false_and]
  rw [promptAt, hnot]
  rfl

/-- Text without brackets in front of a prompt does not matter. -/
theorem prompt_append {t : Text} (h : '[' ∉ t) (s : Text) : prompt (t ++ s) = prompt s := by
  induction t with
  | nil => rfl
  | cons c t ih =>
    have hc : c ≠ '[' := fun he => h (he ▸ List.mem_cons_self)
    have htail := ih fun hm => h (List.mem_cons_of_mem c hm)
    rw [List.cons_append, prompt, List.tails_cons, List.findSome?_cons, promptAt_of_ne hc]
    exact htail

theorem prompt_of_notMem {t : Text} (h : '[' ∉ t) : prompt t = none := by
  have hnil := prompt_append h []
  rw [List.append_nil] at hnil
  rw [hnil]
  rfl

/-- The name in a prompt has at most 64 units. -/
theorem length16_of_prompt {s name : Text} (h : prompt s = some name) :
    Text.length16 name ≤ 64 := by
  obtain ⟨t, -, ht⟩ := List.exists_of_findSome?_eq_some h
  unfold promptAt at ht
  dsimp only at ht
  split_ifs at ht with hstart hlen
  split at ht
  · split_ifs at ht
    cases ht
    exact hlen.2
  · cases ht

/-! ## One chunk -/

/-- The responder has a password and has not given up. -/
structure Live (s : Responder) (password : Text) : Prop where
  stored : s.password = some password
  ne : password ≠ []
  running : s.stopped = false

theorem observe_live {s : Responder} {password : Text} (h : Live s password) (chunk : List ℕ) :
    observe s chunk =
      if s.awaitingVerdict && wrong (visible (s.heard chunk)) then
        (.giveUp, { s with stopped := true, tail := [] })
      else if prompt (visible (s.heard chunk)) = some s.username then
        (.inject password,
          { s with tail := [], awaitingVerdict := true, injections := s.injections + 1 })
      else (.none, { s with
        tail := s.heard chunk
        awaitingVerdict := s.awaitingVerdict && (visible (s.heard chunk)).all Text.isSpace }) := by
  obtain ⟨c, more, rfl⟩ := List.exists_cons_of_ne_nil h.ne
  unfold observe
  rw [h.stored, h.running]
  rfl

theorem observe_idle {s : Responder} (h : ¬ ∃ password, Live s password) (chunk : List ℕ) :
    observe s chunk = (.none, s) := by
  unfold observe
  match hp : s.password with
  | none => rfl
  | some [] => rfl
  | some (c :: password) =>
    cases hstopped : s.stopped with
    | true => rfl
    | false => exact absurd ⟨c :: password, hp, by simp, hstopped⟩ h

/-- After the password was injected the tail is empty and the verdict awaited. -/
theorem observe_injected {s₀ s : Responder} {chunk : List ℕ} {password : Text}
    (h : observe s₀ chunk = (.inject password, s)) :
    Live s password ∧ s.tail = [] ∧ s.awaitingVerdict = true ∧
      prompt (visible (s₀.heard chunk)) = some s.username := by
  by_cases hlive : ∃ stored, Live s₀ stored
  · obtain ⟨stored, hlive⟩ := hlive
    rw [observe_live hlive] at h
    split_ifs at h with hwrong hprompt
    · cases (Prod.mk.inj h).1
    · obtain ⟨hdecision, rfl⟩ := Prod.mk.inj h
      obtain rfl := SudoDecision.inject.inj hdecision
      exact ⟨⟨hlive.stored, hlive.ne, hlive.running⟩, rfl, rfl, hprompt⟩
    · cases (Prod.mk.inj h).1
  · rw [observe_idle hlive] at h
    cases (Prod.mk.inj h).1

/-- Once it has given up it never answers. -/
theorem observeAll_idle {s : Responder} (h : ¬ ∃ password, Live s password)
    (chunks : List (List ℕ)) : ∀ d ∈ observeAll s chunks, d = .none := by
  induction chunks with
  | nil => simp [observeAll]
  | cons chunk chunks ih =>
    rw [observeAll, observe_idle h]
    exact List.forall_mem_cons.mpr ⟨rfl, ih⟩

/-- A responder that waits for nothing answers the chunk, or goes on waiting for nothing. -/
theorem observe_quiet {s : Responder} {password : Text} (h : Live s password)
    (hquiet : s.awaitingVerdict = false) (chunk : List ℕ) :
    (observe s chunk).1 = .inject password ∨
      Live (observe s chunk).2 password ∧ (observe s chunk).2.awaitingVerdict = false ∧
        (observe s chunk).2.username = s.username := by
  rw [observe_live h, hquiet, Bool.false_and, if_neg (by decide)]
  split_ifs
  · exact .inl rfl
  · exact .inr ⟨⟨h.stored, h.ne, h.running⟩, rfl, rfl⟩

/-- The refusal is seen while the verdict is awaited. -/
theorem observe_refused {s : Responder} {password : Text} (h : Live s password)
    (hwait : s.awaitingVerdict = true) {chunk : List ℕ}
    (hwrong : wrong (visible (s.heard chunk)) = true) :
    (observe s chunk).1 = .giveUp ∧ ¬ ∃ stored, Live (observe s chunk).2 stored := by
  rw [observe_live h, hwait, hwrong, Bool.and_self, if_pos rfl]
  exact ⟨rfl, fun ⟨_, hlive⟩ => nomatch hlive.running⟩

/-- Any other output is answered, or clears the flag when there is something to see. -/
theorem observe_unrefused {s : Responder} {password : Text} (h : Live s password) {chunk : List ℕ}
    (hwrong : wrong (visible (s.heard chunk)) = false) :
    (observe s chunk).1 = .inject password ∨
      Live (observe s chunk).2 password ∧ (observe s chunk).2.username = s.username ∧
        ((visible (s.heard chunk)).all Text.isSpace = false →
          (observe s chunk).2.awaitingVerdict = false) := by
  rw [observe_live h, hwrong, Bool.and_false, if_neg (by decide)]
  split_ifs
  · exact .inl rfl
  · refine .inr ⟨⟨h.stored, h.ne, h.running⟩, rfl, fun hseen => ?_⟩
    rw [hseen, Bool.and_false]

theorem notMem_of_blank {t : Text} {c : Char} (h : ∀ d ∈ t, d = '\r' ∨ d = '\n')
    (hc : c ≠ '\r' ∧ c ≠ '\n') : c ∉ t := fun hm => by
  rcases h c hm with rfl | rfl
  · exact hc.1 rfl
  · exact hc.2 rfl

/-- Line breaks change nothing but the tail. -/
theorem observe_blank {s : Responder} {password : Text} (h : Live s password) {chunk : List ℕ}
    (hblank : ∀ d ∈ s.tail ++ fromUtf8 chunk, d = '\r' ∨ d = '\n')
    (hlen : Text.length16 (s.tail ++ fromUtf8 chunk) ≤ 512) :
    observe s chunk = (.none, { s with tail := s.tail ++ fromUtf8 chunk }) := by
  have hheard : s.heard chunk = s.tail ++ fromUtf8 chunk := lastUnits_of_le hlen
  have hvisible : visible (s.heard chunk) = s.tail ++ fromUtf8 chunk := by
    rw [hheard, visible_of_notMem (notMem_of_blank hblank (by decide))]
  have hspace : (s.tail ++ fromUtf8 chunk).all Text.isSpace = true := by
    refine List.all_eq_true.mpr fun d hd => ?_
    rcases hblank d hd with rfl | rfl <;> rfl
  have hwrong : wrong (s.tail ++ fromUtf8 chunk) = false := by
    have hS : 'S' ∈ tryAgain := by decide
    have hi : 'i' ∈ incorrect := by decide
    rw [wrong, Bool.or_eq_false_iff, decide_eq_false_iff_not, decide_eq_false_iff_not]
    exact ⟨fun hin => notMem_of_blank hblank (by decide) (hin.subset hS),
      fun hin => notMem_of_blank hblank (by decide) (hin.subset hi)⟩
  rw [observe_live h, hvisible, hwrong, Bool.and_false, if_neg (by decide),
    prompt_of_notMem (notMem_of_blank hblank (by decide)), if_neg (by simp), hspace, Bool.and_true,
    hheard]

/-! ## Runs -/

def breakBytes (t : Text) : List ℕ := t.map Char.toNat

theorem utf8_breaks {t : Text} (h : ∀ d ∈ t, d = '\r' ∨ d = '\n') : utf8 t = breakBytes t := by
  induction t with
  | nil => rfl
  | cons c t ih =>
    have hc : Encoding.utf8Char c = [c.toNat] := by
      rcases h c List.mem_cons_self with rfl | rfl <;> rfl
    rw [utf8, List.flatMap_cons, hc, ← utf8, ih fun d hd => h d (List.mem_cons_of_mem c hd)]
    rfl

theorem length16_breaks {t : Text} (h : ∀ d ∈ t, d = '\r' ∨ d = '\n') :
    Text.length16 t = t.length := by
  induction t with
  | nil => rfl
  | cons c t ih =>
    rw [length16_cons, ih fun d hd => h d (List.mem_cons_of_mem c hd), List.length_cons, add_comm]
    rcases h c List.mem_cons_self with rfl | rfl <;> rfl

/-- Chunks of line breaks pass. -/
theorem observeAll_breaks {s : Responder} {password : Text} (h : Live s password)
    (pre rest : List (List ℕ)) {t : Text} (hpre : pre.flatten = breakBytes t)
    (hblank : ∀ d ∈ s.tail ++ t, d = '\r' ∨ d = '\n') (hlen : (s.tail ++ t).length ≤ 512) :
    observeAll s (pre ++ rest) = List.replicate pre.length .none ++
      observeAll { s with tail := s.tail ++ t } rest := by
  induction pre generalizing s t with
  | nil =>
    obtain rfl : t = [] := by simpa [breakBytes] using hpre.symm
    rw [List.append_nil]
    rfl
  | cons chunk pre ih =>
    rw [List.flatten_cons] at hpre
    obtain ⟨t1, t2, rfl, hchunk, hrest⟩ := List.map_eq_append_iff.mp hpre.symm
    have hsub : ∀ d ∈ s.tail ++ t1, d = '\r' ∨ d = '\n' := fun d hd =>
      hblank d (by rw [← List.append_assoc]; exact List.mem_append_left t2 hd)
    have hread : fromUtf8 chunk = t1 := by
      rw [← hchunk, ← breakBytes, ← utf8_breaks fun d hd => hsub d (List.mem_append_right _ hd),
        Encoding.fromUtf8_utf8]
    rw [← List.append_assoc] at hblank hlen
    have hshort : Text.length16 (s.tail ++ t1) ≤ 512 := by
      rw [length16_breaks hsub]
      rw [List.length_append] at hlen
      omega
    rw [← hread] at hsub hshort
    have hone := observe_blank h hsub hshort
    rw [hread] at hone
    have hlive : Live { s with tail := s.tail ++ t1 } password := ⟨h.stored, h.ne, h.running⟩
    have htail := ih hlive hrest.symm hblank hlen
    rw [List.cons_append, observeAll, hone, htail, List.length_cons, List.replicate_succ,
      List.cons_append, List.append_assoc]

/-- Output that fills the tail. -/
def filler : Text := List.replicate 512 'x'

theorem notMem_filler {c : Char} (h : c ≠ 'x') : c ∉ filler := fun hm =>
  h (List.eq_of_mem_replicate hm)

/-- Output that fills the tail, and the prompt as it was shown before, make a responder that has
not given up answer. -/
theorem observeAll_reopens {s : Responder} {password : Text} (h : Live s password) {raw : Text}
    (hlen : Text.length16 raw ≤ 512) (hprompt : prompt (visible raw) = some s.username) :
    .inject password ∈ observeAll s [utf8 filler, utf8 raw] := by
  have hwidth : Text.length16 filler = 512 := by
    have hfill := length16_filler 512 []
    rwa [List.append_nil] at hfill
  have hheard : s.heard (utf8 filler) = filler := by
    rw [Responder.heard, Encoding.fromUtf8_utf8, lastUnits_append hwidth.ge,
      lastUnits_of_le hwidth.le]
  have hvisible : visible filler = filler := visible_of_notMem (notMem_filler (by decide))
  have hwrong : wrong filler = false := by
    have hS : 'S' ∈ tryAgain := by decide
    have hi : 'i' ∈ incorrect := by decide
    rw [wrong, Bool.or_eq_false_iff, decide_eq_false_iff_not, decide_eq_false_iff_not]
    exact ⟨fun hin => notMem_filler (by decide) (hin.subset hS),
      fun hin => notMem_filler (by decide) (hin.subset hi)⟩
  have hspace : filler.all Text.isSpace = false := by
    rw [filler, List.all_replicate]
    rfl
  have hfirst : observe s (utf8 filler) =
      (.none, { s with tail := filler, awaitingVerdict := false }) := by
    rw [observe_live h, hheard, hvisible, hwrong, Bool.and_false, if_neg (by decide),
      prompt_of_notMem (notMem_filler (by decide)), if_neg nofun, hspace, Bool.and_false]
  have hlive : Live { s with tail := filler, awaitingVerdict := false } password :=
    ⟨h.stored, h.ne, h.running⟩
  have hsecond : (observe { s with tail := filler, awaitingVerdict := false } (utf8 raw)).1 =
      .inject password := by
    have hx : ∀ {c : Char} {k : ℕ}, c ≠ 'x' → c ∉ List.replicate k 'x' := fun hc hm =>
      hc (List.eq_of_mem_replicate hm)
    rw [observe_live hlive, Bool.false_and, if_neg (by decide), Responder.heard,
      Encoding.fromUtf8_utf8, filler, lastUnits_filler hlen (by omega),
      visible_append (hx (by decide)), prompt_append (hx (by decide)), if_pos hprompt]
  rw [observeAll, hfirst, observeAll, hsecond]
  exact List.mem_cons_of_mem _ List.mem_cons_self

theorem length_utf8_le (s : Text) : (utf8 s).length ≤ 4 * Text.length16 s := by
  induction s with
  | nil => exact Nat.zero_le _
  | cons c s ih =>
    have hc : (Encoding.utf8Char c).length ≤ 4 := by
      unfold Encoding.utf8Char Encoding.utf8Point
      split_ifs <;> simp
    have hunits : 1 ≤ if c.toNat < 0x10000 then 1 else 2 := by split_ifs <;> omega
    rw [utf8, List.flatMap_cons, ← utf8, List.length_append, length16_cons]
    omega

/-- The line break in front of sudo's refusal, and the one behind it. -/
structure Breaks (before behind : Text) : Prop where
  before : before ∈ ["".toList, "\n".toList, "\r\n".toList]
  behind : behind ∈ ["\n".toList, "\r\n".toList]

theorem Breaks.spec {before behind : Text} (h : Breaks before behind) :
    (∀ d ∈ before, d = '\r' ∨ d = '\n') ∧ before.length ≤ 2 ∧ (utf8 behind).length ≤ 2 := by
  have hshort : ["".toList, "\n".toList, "\r\n".toList].all
      (fun t => t.all (fun d => decide (d = '\r' ∨ d = '\n')) && decide (t.length ≤ 2) &&
        decide ((utf8 t).length ≤ 2)) = true := by
    decide
  simp only [List.all_eq_true, Bool.and_eq_true, decide_eq_true_eq] at hshort
  obtain ⟨⟨hblank, hlen⟩, -⟩ := hshort before h.before
  exact ⟨hblank, hlen, (hshort behind (List.mem_cons_of_mem _ h.behind)).2⟩

theorem length_refusal_le {username before behind : Text} (h : Breaks before behind)
    (hname : Text.length16 username ≤ 64) :
    (utf8 (refusal username before behind)).length ≤ 512 := by
  have hbefore : (utf8 before).length ≤ 2 := by
    rw [utf8_breaks h.spec.1, breakBytes, List.length_map]
    exact h.spec.2.1
  have hbehind := h.spec.2.2
  have hutf8 := length_utf8_le username
  have hwords : (utf8 "Sorry, try again.".toList).length = 17 := by decide
  have hquestion : (utf8 question).length = 20 := by decide
  have hcolon : (utf8 ": ".toList).length = 2 := by decide
  have happend : ∀ s t : Text, (utf8 (s ++ t)).length = (utf8 s).length + (utf8 t).length :=
    fun s t => by rw [utf8, List.flatMap_append, List.length_append]; rfl
  rw [refusal, happend, happend, happend, happend, happend]
  omega

/-- The chunks before the one in which the refusal begins are line breaks. -/
theorem breaks_of_cut {username before behind : Text} (h : Breaks before behind)
    {pre : List (List ℕ)} {c : List ℕ}
    (hcut : ∃ post, utf8 (refusal username before behind) <+: (pre ++ c :: post).flatten)
    (hlen : pre.flatten.length ≤ before.length) :
    ∃ t, pre.flatten = breakBytes t ∧ t <+: before := by
  obtain ⟨post, hcut⟩ := hcut
  rw [List.flatten_append] at hcut
  have hrefusal : utf8 before <+: utf8 (refusal username before behind) := by
    simp only [refusal, List.append_assoc]
    rw [utf8, utf8, List.flatMap_append]
    exact List.prefix_append _ _
  have hpre : pre.flatten <+: utf8 before := by
    refine List.prefix_of_prefix_length_le (List.prefix_append _ _) (hrefusal.trans hcut) ?_
    rwa [utf8_breaks h.spec.1, breakBytes, List.length_map]
  rw [utf8_breaks h.spec.1, breakBytes, List.prefix_map_iff] at hpre
  obtain ⟨t, ht, hpre⟩ := hpre
  exact ⟨t, hpre, ht⟩

/-- Once its first letter has come, something of the refusal is shown. -/
theorem shown_of_begun {username before behind : Text} (h : Breaks before behind)
    (hname : Text.length16 username ≤ 64) {output : List ℕ}
    (hpre : output <+: utf8 (refusal username before behind))
    (hlen : before.length < output.length) :
    (visible (lastUnits 512 (fromUtf8 output))).all Text.isSpace = false := by
  have hfirst : utf8 (before ++ ['S']) <+: utf8 (refusal username before behind) := by
    have hwords : "Sorry, try again.".toList = 'S' :: "orry, try again.".toList := by decide
    simp only [refusal, hwords, List.append_assoc, List.cons_append]
    rw [utf8, utf8, List.flatMap_append, List.flatMap_append, List.flatMap_cons, List.flatMap_cons,
      List.flatMap_nil, List.append_nil, ← List.append_assoc]
    exact List.prefix_append _ _
  have hS : (utf8 (before ++ ['S'])).length = before.length + 1 := by
    rw [utf8, List.flatMap_append, ← utf8, utf8_breaks h.spec.1, List.length_append, breakBytes,
      List.length_map]
    rfl
  obtain ⟨y, rfl⟩ := List.prefix_of_prefix_length_le hfirst hpre (by omega)
  have hshort := hpre.length_le.trans (length_refusal_le h hname)
  rw [lastUnits_of_le ((Encoding.length16_fromUtf8_le _).trans hshort),
    Encoding.fromUtf8_utf8_append, List.append_assoc, visible_append, visible_append]
  · rw [List.all_append, List.all_append, Bool.and_eq_false_iff]
    exact .inr rfl
  · decide
  · exact notMem_of_blank h.spec.1 (by decide)

/-- The words of the refusal are shown at the end of the chunk. -/
def Shown (output : List ℕ) : Prop :=
  wrong (visible (lastUnits 512 (fromUtf8 output))) = true

/-- The responder when the chunk arrives in which the refusal begins. -/
theorem reaches_refusal {s : Responder} {password : Text} (hlive : Live s password)
    (htail : s.tail = []) (hwait : s.awaitingVerdict = true) {before behind : Text}
    (hbreaks : Breaks before behind) {pre : List (List ℕ)} {c : List ℕ}
    (hcut : ∃ post, utf8 (refusal s.username before behind) <+: (pre ++ c :: post).flatten)
    (hlen : pre.flatten.length ≤ before.length) :
    ∃ s' : Responder, Live s' password ∧ s'.username = s.username ∧ s'.awaitingVerdict = true ∧
      s'.heard c = lastUnits 512 (fromUtf8 (pre.flatten ++ c)) ∧
      ∀ post, observeAll s (pre ++ c :: post) =
        List.replicate pre.length .none ++ observeAll s' (c :: post) := by
  obtain ⟨hblank, hbefore, -⟩ := hbreaks.spec
  obtain ⟨t, ht, hsub⟩ := breaks_of_cut hbreaks hcut hlen
  have hblankt : ∀ d ∈ t, d = '\r' ∨ d = '\n' := fun d hd => hblank d (hsub.subset hd)
  refine ⟨{ s with tail := s.tail ++ t }, ⟨hlive.stored, hlive.ne, hlive.running⟩, rfl, hwait, ?_,
    fun post => observeAll_breaks hlive pre (c :: post) ht ?_ ?_⟩
  · rw [Responder.heard, ht, ← utf8_breaks hblankt, Encoding.fromUtf8_utf8_append, htail,
      List.nil_append]
  · rwa [htail, List.nil_append]
  · rw [htail, List.nil_append]
    exact hsub.length_le.trans (hbefore.trans (by omega))

/-- After the password was injected, and sudo refused it, in whatever chunks: it is never injected
again exactly if the words of the refusal are shown at the end of the chunk in which it begins. -/
theorem gives_up_iff {s₀ s : Responder} {chunk₀ : List ℕ} {password : Text}
    (hinject : observe s₀ chunk₀ = (.inject password, s)) {before behind : Text}
    (hbreaks : Breaks before behind) (pre : List (List ℕ)) (c : List ℕ)
    (hcut : ∃ post, utf8 (refusal s.username before behind) <+: (pre ++ c :: post).flatten)
    (hbegins : pre.flatten.length ≤ before.length ∧ before.length < (pre.flatten ++ c).length) :
    (∀ post, utf8 (refusal s.username before behind) <+: (pre ++ c :: post).flatten →
        ∀ d ∈ observeAll s (pre ++ c :: post), ∀ value, d ≠ .inject value) ↔
      Shown (pre.flatten ++ c) := by
  obtain ⟨hlive, htail, hwait, hprompt⟩ := observe_injected hinject
  have hraw : Text.length16 (s₀.heard chunk₀) ≤ 512 := length16_lastUnits_le 512 _
  obtain ⟨s', hlive', huser, hwait', hheard, hruns⟩ :=
    reaches_refusal hlive htail hwait hbreaks hcut hbegins.1
  have hshow : Shown (pre.flatten ++ c) ↔ wrong (visible (s'.heard c)) = true := by
    rw [Shown, hheard]
  rw [hshow]
  constructor
  · intro hnever
    by_contra hnot
    have hinjected : ∀ post,
        utf8 (refusal s.username before behind) <+: (pre ++ c :: post).flatten →
        .inject password ∉ observeAll s' (c :: post) := fun post hpost hin =>
      hnever post hpost (.inject password) (by rw [hruns]; exact List.mem_append_right _ hin)
        password rfl
    simp only [observeAll] at hinjected
    rcases observe_unrefused hlive' (Bool.not_eq_true _ ▸ hnot) with hsent | ⟨hopen, hname, hclear⟩
    · obtain ⟨post, hpost⟩ := hcut
      exact hinjected post hpost (hsent ▸ List.mem_cons_self)
    · have hagain : ∀ {r : Responder}, Live r password → r.username = s.username →
          .inject password ∈ observeAll r [utf8 filler, utf8 (s₀.heard chunk₀)] :=
        fun hr hru => observeAll_reopens hr hraw (hru ▸ hprompt)
      by_cases hwhole : utf8 (refusal s.username before behind) <+: pre.flatten ++ c
      · refine hinjected [utf8 filler, utf8 (s₀.heard chunk₀)] ?_
          (List.mem_cons_of_mem _ (hagain hopen (hname.trans huser)))
        rw [List.flatten_append, List.flatten_cons, ← List.append_assoc]
        exact hwhole.trans (List.prefix_append _ _)
      · obtain ⟨post, hpost⟩ := hcut
        have hpart : pre.flatten ++ c <+: utf8 (refusal s.username before behind) := by
          rw [List.flatten_append, List.flatten_cons, ← List.append_assoc] at hpost
          have hor := List.prefix_or_prefix_of_prefix (List.prefix_append _ _) hpost
          exact hor.resolve_right hwhole
        have hquiet := hclear (by
          rw [hheard]
          exact shown_of_begun hbreaks (length16_of_prompt hprompt) hpart hbegins.2)
        obtain ⟨more, hmore⟩ := hpart
        refine hinjected (more :: [utf8 filler, utf8 (s₀.heard chunk₀)]) ?_
          (List.mem_cons_of_mem _ ?_)
        · rw [List.flatten_append, List.flatten_cons, List.flatten_cons, ← List.append_assoc,
            ← List.append_assoc, hmore]
          exact List.prefix_append _ _
        · rw [observeAll]
          rcases observe_quiet hopen hquiet more with hsent | ⟨hopen', -, hname'⟩
          · exact hsent ▸ List.mem_cons_self
          · exact List.mem_cons_of_mem _
              (hagain hopen' (hname'.trans (hname.trans huser)))
  · intro hshown post _ d hd value
    obtain ⟨hgave, hidle⟩ := observe_refused hlive' hwait' hshown
    rw [hruns, observeAll, hgave] at hd
    rcases List.mem_append.mp hd with hd | hd
    · rw [List.eq_of_mem_replicate hd]
      nofun
    · rcases List.mem_cons.mp hd with rfl | hd
      · nofun
      · rw [observeAll_idle hidle post d hd]
        nofun

/-- The refusal in two chunks, cut behind its words. -/
theorem gives_up_whole :
    (∀ post, utf8 (refusal "prgd".toList "\r\n".toList "\r\n".toList) <+:
          ([] ++ utf8 "\r\nSorry, try again.".toList :: post).flatten →
        ∀ d ∈ observeAll ⟨"prgd".toList, some "pw".toList, [], true, false, 1⟩
          ([] ++ utf8 "\r\nSorry, try again.".toList :: post), ∀ value, d ≠ .inject value) ↔
      Shown ([].flatten ++ utf8 "\r\nSorry, try again.".toList) := by
  have hinject : observe ⟨"prgd".toList, some "pw".toList, [], false, false, 0⟩
      (utf8 "[sudo] password for prgd: ".toList) =
      (.inject "pw".toList, ⟨"prgd".toList, some "pw".toList, [], true, false, 1⟩) := by decide
  have hbreaks : Breaks "\r\n".toList "\r\n".toList := ⟨by decide, by decide⟩
  exact gives_up_iff hinject hbreaks [] _
    ⟨[utf8 "\r\n[sudo] password for prgd: ".toList], by decide⟩ (by decide)

/-- A chunk in the middle of the words passes for output, and the password is injected twice. -/
theorem injects_twice :
    observeAll ⟨"prgd".toList, some "pw".toList, [], false, false, 0⟩
      [utf8 "[sudo] password for prgd: ".toList, utf8 "\r\nSorry, ".toList,
        utf8 "try again.\r\n[sudo] password for prgd: ".toList] =
      [.inject "pw".toList, .none, .inject "pw".toList] := by
  decide

end Prgd.SudoResponder
