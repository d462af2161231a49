import Prgd.Credentials
import Prgd.Linking

/-!
# Tickets of a second factor

A social sign in of a user with a second factor leaves a ticket in Redis for five minutes. A call of
`totp` reads the ticket, checks the code on the user, and then either takes the ticket or counts a
wrong code: it writes the ticket that it has read back, with one attempt more, and deletes it with the
fifth. Each command of Redis and each read of the database is one step, and calls interleave in any
order; a call that a fault of Redis cuts off takes no more steps. Times are in milliseconds.

The count is written onto whatever is there. A call counts every wrong code if no code was refused
since it read the ticket, and the ticket stays spent if a count is only put back while it is there.
-/
namespace Prgd.OAuth
open Interleaving
open Accounts (Crypto User SecondFactor checkSecondFactor)

def TOTP_TTL : ℕ := 300

structure TotpTicket extends Completion where
  attempts : ℕ
  deriving DecidableEq

/-- A key with its expiry. -/
structure Entry where
  value : TotpTicket
  expireAt : Option ℕ
  deriving DecidableEq

def Entry.live (e : Entry) (now : ℕ) : Bool := e.expireAt.all fun t => decide (now < t)

structure Shared where
  now : ℕ
  /-- The key of the ticket. -/
  entry : Option Entry
  users : Table ℕ User
  /-- Not stored: when the ticket was put. -/
  issuedAt : ℕ
  /-- Not stored: the wrong codes checked against the ticket. -/
  wrong : ℕ := 0
  /-- Not stored: the calls that completed the sign in. -/
  completed : ℕ := 0
  /-- Not stored: the ticket was taken or deleted. -/
  gone : Bool := false

namespace Shared

/-- What Redis has for the key. -/
def current (s : Shared) : Option Entry := s.entry.filter fun e => e.live s.now

def getTotpTicket (s : Shared) : Option TotpTicket := s.current.map Entry.value

/-- `DEL`, or `SET` with `KEEPTTL`. -/
def failTotpTicket (s : Shared) (c : TotpTicket) : Shared :=
  if 5 ≤ c.attempts + 1 then { s with entry := none, gone := true }
  else
    { s with entry := some ⟨{ c with attempts := c.attempts + 1 }, s.current.bind Entry.expireAt⟩ }

/-- `MULTI`, `GET`, `DEL`, `EXEC`. -/
def takeTotpTicket (s : Shared) : Option TotpTicket × Shared :=
  (s.getTotpTicket, { s with entry := none, gone := s.gone || s.current.isSome })

end Shared

inductive Pc where
  | idle
  | started (code : Text)
  /-- The ticket is read; the user comes next. -/
  | read (code : Text) (c : TotpTicket)
  | wrong (c : TotpTicket)
  | right
  | completing (c : TotpTicket)
  | failed (error : ApiError)
  /-- `findUniqueOrThrow` threw. -/
  | crashed
  deriving DecidableEq

inductive Act where
  | call (code : Text)
  | next
  /-- Redis refuses the command. -/
  | unavailable
  | pass (ms : ℕ)
  /-- Users change. -/
  | write (users : Table ℕ User)

def ticketInvalid : ApiError where
  status := 400
  code := "ticket_invalid"
  message := "This sign in has expired. Start again."

def totpInvalid : ApiError where
  status := 401
  code := "totp_invalid"
  message := "That code is not valid"

def unavailable : ApiError where
  status := 503
  code := "unavailable"
  message := "Sign in with Google or Microsoft is unavailable right now. Try again in a minute or use your password."

/-- One step of `totp`. -/
def next (crypto : Crypto) (s : Shared) : Pc → Option (Shared × Pc)
  | .started code =>
      match s.getTotpTicket with
      | none => some (s, .failed ticketInvalid)
      | some c => some (s, .read code c)
  | .read code c =>
      match s.users.find c.userId with
      | none => some (s, .crashed)
      | some user =>
          if checkSecondFactor crypto s.now user code = .refused then
            some ({ s with wrong := s.wrong + 1 }, .wrong c)
          else some (s, .right)
  | .wrong c => some (s.failTotpTicket c, .failed totpInvalid)
  | .right =>
      match s.takeTotpTicket with
      | (none, s) => some (s, .failed ticketInvalid)
      | (some taken, s) => some ({ s with completed := s.completed + 1 }, .completing taken)
  | .idle | .completing _ | .failed _ | .crashed => none

/-- The call waits for Redis. -/
def Pc.command : Pc → Bool
  | .started _ | .wrong _ | .right => true
  | _ => false

def trans (crypto : Crypto) (_ : ℕ) (s : Shared) (a : Act) (pc : Pc) : Option (Shared × Pc) :=
  match a with
  | .call code => if pc = .idle then some (s, .started code) else none
  | .next => next crypto s pc
  | .unavailable => if pc.command then some (s, .failed unavailable) else none
  | .pass ms => some ({ s with now := s.now + ms }, pc)
  | .write users => some ({ s with users := users }, pc)

abbrev step (crypto : Crypto) : World Shared Pc → ℕ × Act → World Shared Pc :=
  callerStep (trans crypto)

/-- `putTotpTicket`: no call has begun. -/
def putTotpTicket (c : Completion) (users : Table ℕ User) (now : ℕ) : World Shared Pc where
  shared := {
    now := now, users := users, issuedAt := now
    entry := some ⟨{ c with attempts := 0 }, some (now + TOTP_TTL * 1000)⟩ }
  pc := fun _ => .idle

/-- Five wrong codes and one success, and a ticket that is spent cannot be read. -/
structure SingleUse (s : Shared) : Prop where
  wrong : s.wrong ≤ 5
  completed : s.completed ≤ 1
  spent : s.gone = true ∨ s.issuedAt + TOTP_TTL * 1000 ≤ s.now → s.getTotpTicket = none

/-! ## What a call must find -/

/-- A code is refused only if the ticket, as it was read, counts every code refused so far. -/
def Counted (crypto : Crypto) (w : World Shared Pc) (a : ℕ × Act) : Prop :=
  ∀ code c user, a.2 = .next → w.pc a.1 = .read code c → w.shared.users.find c.userId = some user →
    checkSecondFactor crypto w.shared.now user code = .refused → c.attempts = w.shared.wrong

/-- A count that leaves the ticket in place is written only while the ticket is there. -/
def PutBack (w : World Shared Pc) (a : ℕ × Act) : Prop :=
  ∀ c, a.2 = .next → w.pc a.1 = .wrong c → c.attempts + 1 < 5 → w.shared.current.isSome

/-- Until it is spent, the ticket keeps its expiry. -/
structure Stands (s : Shared) : Prop where
  missing : s.entry = none → s.gone = true ∨ s.issuedAt + TOTP_TTL * 1000 ≤ s.now
  there : ∀ e, s.entry = some e → s.gone = false ∧ s.completed = 0 ∧ e.value.attempts ≤ 4 ∧
    e.expireAt = some (s.issuedAt + TOTP_TTL * 1000)
  completed : s.completed ≤ 1

/-- A ticket that a call has read can be counted on. -/
def Bounded : Pc → Prop
  | .read _ c | .wrong c => c.attempts ≤ 4
  | _ => True

section
variable {crypto : Crypto} {w : World Shared Pc} {s s' : Shared} {pc pc' : Pc} {a : ℕ × Act}

theorem current_some {e : Entry} (h : s.current = some e) : s.entry = some e :=
  (Option.filter_eq_some_iff.mp h).1

/-- A ticket that is not there is spent. -/
theorem Stands.spent_of_missing (h : Stands s) (hnone : s.current = none) :
    s.gone = true ∨ s.issuedAt + TOTP_TTL * 1000 ≤ s.now := by
  cases hentry : s.entry with
  | none => exact h.missing hentry
  | some e =>
    refine .inr ?_
    obtain ⟨-, -, -, hexpire⟩ := h.there e hentry
    have hdead : e.live s.now = false := by
      rw [Shared.current, hentry] at hnone
      simpa using hnone
    rw [Entry.live, hexpire, Option.all_some] at hdead
    exact not_lt.mp (of_decide_eq_false hdead)

theorem Stands.missing_of_spent (h : Stands s)
    (hspent : s.gone = true ∨ s.issuedAt + TOTP_TTL * 1000 ≤ s.now) : s.getTotpTicket = none := by
  rw [Shared.getTotpTicket, Option.map_eq_none_iff]
  by_contra hsome
  obtain ⟨e, he⟩ := Option.ne_none_iff_exists'.mp hsome
  obtain ⟨hgone, -, -, hexpire⟩ := h.there e (current_some he)
  have hlive : e.live s.now = true := (Option.filter_eq_some_iff.mp he).2
  rw [Entry.live, hexpire, Option.all_some] at hlive
  rcases hspent with hspent | hspent
  · rw [hgone] at hspent
    cases hspent
  · exact absurd (of_decide_eq_true hlive) (not_lt.mpr hspent)

theorem Stands.readable (h : Stands s) {c : TotpTicket} (hc : s.getTotpTicket = some c) :
    s.completed = 0 ∧ c.attempts ≤ 4 := by
  obtain ⟨e, he, rfl⟩ := Option.map_eq_some_iff.mp hc
  obtain ⟨-, hcompleted, hattempts, -⟩ := h.there e (current_some he)
  exact ⟨hcompleted, hattempts⟩

theorem stands_fail (h : Stands s) {c : TotpTicket}
    (hput : c.attempts + 1 < 5 → s.current.isSome) : Stands (s.failTotpTicket c) := by
  unfold Shared.failTotpTicket
  split_ifs with hfifth
  · exact ⟨fun _ => .inl rfl, fun _ => nofun, h.completed⟩
  · obtain ⟨e, he⟩ := Option.isSome_iff_exists.mp (hput (by omega))
    obtain ⟨hgone, hcompleted, -, hexpire⟩ := h.there e (current_some he)
    refine ⟨nofun, fun e' he' => ?_, h.completed⟩
    cases he'
    refine ⟨hgone, hcompleted, ?_, ?_⟩
    · simp only
      omega
    · rw [he]
      exact hexpire

theorem stands_take (h : Stands s) {c : Option TotpTicket} (htake : s.takeTotpTicket = (c, s')) :
    (c = none → Stands s') ∧
      (c.isSome → Stands { s' with completed := s'.completed + 1 }) := by
  cases htake
  refine ⟨fun hnone => ⟨fun _ => ?_, fun _ => nofun, h.completed⟩, fun hsome => ⟨fun _ => ?_, fun _ => nofun, ?_⟩⟩
  · have hmissing : s.current = none := Option.map_eq_none_iff.mp hnone
    exact (h.spent_of_missing hmissing).imp_left fun hgone => by simp [hgone]
  · have hthere : s.current.isSome := by rwa [Shared.getTotpTicket, Option.isSome_map] at hsome
    exact .inl (by simp [hthere])
  · obtain ⟨c, hc⟩ := Option.isSome_iff_exists.mp hsome
    simp only [(h.readable hc).1]
    omega

theorem next_stands (h : Stands s) (hpc : Bounded pc) (hnext : next crypto s pc = some (s', pc'))
    (hput : ∀ c, pc = .wrong c → c.attempts + 1 < 5 → s.current.isSome) :
    Stands s' ∧ Bounded pc' := by
  cases pc with
  | started code =>
    simp only [next] at hnext
    split at hnext
    · cases hnext
      exact ⟨h, trivial⟩
    · next c hc =>
      cases hnext
      exact ⟨h, (h.readable hc).2⟩
  | read code c =>
    simp only [next] at hnext
    split at hnext
    · cases hnext
      exact ⟨h, trivial⟩
    · split_ifs at hnext <;> cases hnext
      · exact ⟨⟨h.missing, h.there, h.completed⟩, hpc⟩
      · exact ⟨h, trivial⟩
  | wrong c =>
    cases hnext
    exact ⟨stands_fail h (hput c rfl), trivial⟩
  | right =>
    simp only [next] at hnext
    split at hnext
    · next htake =>
      cases hnext
      exact ⟨(stands_take h htake).1 rfl, trivial⟩
    · next htake =>
      cases hnext
      exact ⟨(stands_take h htake).2 rfl, trivial⟩
  | idle => cases hnext
  | completing c => cases hnext
  | failed e => cases hnext
  | crashed => cases hnext

/-- Only the check of a code counts a wrong one. -/
theorem next_wrong (hnext : next crypto s pc = some (s', pc')) :
    s'.wrong = s.wrong ∨ ∃ code c user, pc = .read code c ∧ s.users.find c.userId = some user ∧
      checkSecondFactor crypto s.now user code = .refused ∧ s'.wrong = s.wrong + 1 := by
  cases pc with
  | started code =>
    simp only [next] at hnext
    split at hnext <;> cases hnext <;> exact .inl rfl
  | read code c =>
    simp only [next] at hnext
    split at hnext
    · cases hnext
      exact .inl rfl
    · next user huser =>
      split_ifs at hnext with hrefused <;> cases hnext
      · exact .inr ⟨code, c, user, rfl, huser, hrefused, rfl⟩
      · exact .inl rfl
  | wrong c =>
    cases hnext
    refine .inl ?_
    unfold Shared.failTotpTicket
    split_ifs <;> rfl
  | right =>
    simp only [next, Shared.takeTotpTicket] at hnext
    split at hnext
    · next heq =>
      obtain ⟨-, rfl⟩ := Prod.mk.inj heq
      cases hnext
      exact .inl rfl
    · next heq =>
      obtain ⟨-, rfl⟩ := Prod.mk.inj heq
      cases hnext
      exact .inl rfl
  | idle => cases hnext
  | completing c => cases hnext
  | failed e => cases hnext
  | crashed => cases hnext

/-- The ticket stands, every call can count on what it has read, and there are five wrong codes at
most. -/
structure Sound (w : World Shared Pc) : Prop where
  stands : Stands w.shared
  bounded : ∀ q, Bounded (w.pc q)

theorem Stands.frame (h : Stands s) (hentry : s'.entry = s.entry) (hgone : s'.gone = s.gone)
    (hissued : s'.issuedAt = s.issuedAt) (hcompleted : s'.completed = s.completed)
    (hnow : s.now ≤ s'.now) : Stands s' := by
  refine ⟨fun hnone => ?_, fun e he => ?_, hcompleted ▸ h.completed⟩
  · rw [hentry] at hnone
    rw [hgone, hissued]
    exact (h.missing hnone).imp_right fun hle => hle.trans hnow
  · rw [hentry] at he
    rw [hgone, hcompleted, hissued]
    exact h.there e he

theorem trans_stands {act : Act} {i : ℕ} (h : Stands s) (hpc : Bounded pc)
    (htrans : trans crypto i s act pc = some (s', pc'))
    (hput : ∀ c, act = .next → pc = .wrong c → c.attempts + 1 < 5 → s.current.isSome) :
    Stands s' ∧ Bounded pc' := by
  cases act with
  | call code =>
    simp only [trans] at htrans
    split_ifs at htrans
    cases htrans
    exact ⟨h, trivial⟩
  | next => exact next_stands h hpc htrans fun c => hput c rfl
  | unavailable =>
    simp only [trans] at htrans
    split_ifs at htrans
    cases htrans
    exact ⟨h, trivial⟩
  | pass ms =>
    cases htrans
    exact ⟨h.frame rfl rfl rfl rfl (Nat.le_add_right _ _), hpc⟩
  | write users =>
    cases htrans
    exact ⟨h.frame rfl rfl rfl rfl le_rfl, hpc⟩

theorem trans_wrong {act : Act} {i : ℕ} (htrans : trans crypto i s act pc = some (s', pc')) :
    s'.wrong = s.wrong ∨ act = .next ∧ ∃ code c user, pc = .read code c ∧
      s.users.find c.userId = some user ∧ checkSecondFactor crypto s.now user code = .refused ∧
      s'.wrong = s.wrong + 1 := by
  cases act with
  | call code =>
    simp only [trans] at htrans
    split_ifs at htrans
    cases htrans
    exact .inl rfl
  | next => exact (next_wrong htrans).imp_right fun hwrong => ⟨rfl, hwrong⟩
  | unavailable =>
    simp only [trans] at htrans
    split_ifs at htrans
    cases htrans
    exact .inl rfl
  | pass ms =>
    cases htrans
    exact .inl rfl
  | write users =>
    cases htrans
    exact .inl rfl

theorem sound_step (hput : PutBack w a) (h : Sound w) : Sound (step crypto w a) := by
  rcases callerStep_cases (trans crypto) w a with heq | ⟨s, c, htrans, heq⟩
  · rw [step, heq]
    exact h
  · obtain ⟨hstands, hbounded⟩ := trans_stands h.stands (h.bounded a.1) htrans hput
    rw [step, heq]
    exact ⟨hstands, update_cases hbounded fun q _ => h.bounded q⟩

theorem wrong_step (hcounted : Counted crypto w a) (h : Sound w) (hwrong : w.shared.wrong ≤ 5) :
    (step crypto w a).shared.wrong ≤ 5 := by
  rcases callerStep_cases (trans crypto) w a with heq | ⟨s, pc', htrans, heq⟩
  · rw [step, heq]
    exact hwrong
  · rw [step, heq]
    rcases trans_wrong htrans with hsame | ⟨hact, code, c, user, hpc, huser, hrefused, hmore⟩
    · exact hsame ▸ hwrong
    · have hread : c.attempts ≤ 4 := by
        have := h.bounded a.1
        rwa [hpc] at this
      have hall := hcounted code c user hact hpc huser hrefused
      simp only [hmore]
      omega

theorem sound_start (c : Completion) (users : Table ℕ User) (now : ℕ) :
    Sound (putTotpTicket c users now) := by
  refine ⟨⟨nofun, fun e he => ?_, Nat.zero_le _⟩, fun _ => trivial⟩
  cases he
  exact ⟨rfl, rfl, Nat.zero_le _, rfl⟩

theorem Sound.singleUse (h : Sound w) (hwrong : w.shared.wrong ≤ 5) : SingleUse w.shared :=
  ⟨hwrong, h.stands.completed, h.stands.missing_of_spent⟩

/-- A count that is written for a ticket that is not there brings the ticket back. -/
theorem putBack_of_singleUse (h : Sound w) (hafter : SingleUse (step crypto w a).shared) :
    PutBack w a := by
  intro c hact hpc hfew
  by_contra hnone
  have hmissing : w.shared.current = none := by simpa using hnone
  have htrans : trans crypto a.1 w.shared a.2 (w.pc a.1) =
      some (w.shared.failTotpTicket c, .failed totpInvalid) := by
    rw [hact, hpc]
    rfl
  rw [step, callerStep, htrans] at hafter
  have hfail : w.shared.failTotpTicket c =
      { w.shared with entry := some ⟨{ c with attempts := c.attempts + 1 }, none⟩ } := by
    rw [Shared.failTotpTicket, if_neg (by omega), hmissing]
    rfl
  rw [hfail] at hafter
  have hback := hafter.spent (h.stands.spent_of_missing hmissing)
  exact absurd hback (by simp [Shared.getTotpTicket, Shared.current, Entry.live])

/-- Where every refused code was counted against the ticket as it stands, and a count is put back
only while the ticket is there, a ticket is used once; and it is used once in no other schedule that
puts a count back. -/
theorem ticket_used_once (crypto : Crypto) (c : Completion) (users : Table ℕ User) (now : ℕ)
    (as : List (ℕ × Act)) :
    (Meets (step crypto) (fun w a => Counted crypto w a ∧ PutBack w a)
        (putTotpTicket c users now) as →
      SingleUse (run (step crypto) (putTotpTicket c users now) as).shared) ∧
    ((∀ k, SingleUse (run (step crypto) (putTotpTicket c users now) (as.take k)).shared) →
      Meets (step crypto) PutBack (putTotpTicket c users now) as) := by
  constructor
  · intro h
    have hinv := h.invariant (I := fun w => Sound w ∧ w.shared.wrong ≤ 5)
      (fun w a hok hw => ⟨sound_step hok.2 hw.1, wrong_step hok.1 hw.1 hw.2⟩)
      ⟨sound_start c users now, Nat.zero_le _⟩
    exact hinv.1.singleUse hinv.2
  · have hgeneral : ∀ w, Sound w →
        (∀ k, SingleUse (run (step crypto) w (as.take k)).shared) → Meets (step crypto) PutBack w as := by
      induction as with
      | nil => exact fun _ _ _ => trivial
      | cons a as ih =>
        intro w hw hall
        have hput := putBack_of_singleUse hw (hall 1)
        exact ⟨hput, ih _ (sound_step hput hw) fun k => hall (k + 1)⟩
    exact hgeneral _ (sound_start c users now)

end

/-! ## Guesses that overlap -/

def onlyCode : Crypto where
  hash t := String.ofList t
  verify _ _ := true
  argon _ t := String.ofList t
  verifyTotp _ _ code := code == ['1']
  toLowerCase t := t

def guarded : Table ℕ User :=
  Table.empty.put 1 { email := ['u'], totpEnabled := true, totpSecret := some "s" }

def signIn : Completion where
  provider := .google
  userId := 1
  returnPath := "/servers"
  created := false

/-- A call reads the ticket. -/
def reads (i : ℕ) (code : Text) : List (ℕ × Act) := [(i, .call code), (i, .next)]

/-- Six calls read the ticket, and then each checks its wrong code. -/
def sixGuesses : List (ℕ × Act) :=
  (List.range 6).flatMap (fun i => reads i ['0']) ++ (List.range 6).map fun i => (i, .next)

/-- A wrong code is counted after another call took the ticket. -/
def lateCount : List (ℕ × Act) :=
  reads 0 ['0'] ++ [(0, .next)] ++ reads 1 ['1'] ++ [(1, .next), (1, .next), (0, .next)]

/-- Guesses one after the other, the last of them right. -/
def inTurn : List (ℕ × Act) :=
  reads 0 ['0'] ++ [(0, .next), (0, .next)] ++ reads 1 ['1'] ++ [(1, .next), (1, .next)]

def after (as : List (ℕ × Act)) : Shared :=
  (run (step onlyCode) (putTotpTicket signIn guarded 0) as).shared

theorem ticket_comes_back :
    (after sixGuesses).wrong = 6 ∧
    (after lateCount).gone = true ∧ (after lateCount).getTotpTicket.isSome = true ∧
    (after (lateCount ++ reads 2 ['1'] ++ [(2, .next), (2, .next)])).completed = 2 := by
  decide

/-- The call has read the ticket as it is, and its count finds the ticket. -/
def upToDate (w : World Shared Pc) (a : ℕ × Act) : Bool :=
  match w.pc a.1 with
  | .read _ c => c.attempts = w.shared.wrong
  | .wrong _ => w.shared.current.isSome
  | _ => true

theorem counted_of_upToDate {w : World Shared Pc} {a : ℕ × Act} (h : upToDate w a = true) :
    Counted onlyCode w a ∧ PutBack w a := by
  constructor
  · intro code c user _ hpc _ _
    rw [upToDate, hpc] at h
    exact of_decide_eq_true h
  · intro c _ hpc _
    rwa [upToDate, hpc] at h

theorem ticket_used_in_turn : SingleUse (after inTurn) := by
  have hmeets : Meets (step onlyCode) (fun w a => upToDate w a = true)
      (putTotpTicket signIn guarded 0) inTurn := by
    decide
  exact (ticket_used_once onlyCode signIn guarded 0 inTurn).1
    (hmeets.mono fun w a _ h => counted_of_upToDate h)

end Prgd.OAuth
