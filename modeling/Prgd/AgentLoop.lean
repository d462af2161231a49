import Prgd.Checkpoint
import Prgd.Interleaving

/-!
# Paused and unpaused conversations

The agent loop as a function of what the model and the tools answer, one round
after the other, and a session of it: the loop runs until a call needs approval,
decisions come in one by one in any order, and the loop is run again, at any
time, on the state it has saved.

A session keeps its rounds with the decisions written into them: a call that
was decided is one that returns its result directly. `run_agrees` compares every
run of the loop with the loop that starts over on these rounds and never pauses
for a decided call. `conversation` says what either of them has put into the
messages.

The order of a paused turn is saved together with its pending calls, so the
fallback for a missing order is not modelled. `JSON.parse` and the validators of
ajv are parameters; only the end of a loop looks at them.
-/
namespace Prgd.AgentLoop
open Checkpoint

/-! ## Content -/

def member (b : JsValue) (key : String) : JsValue := (b.ownGet key.toList).getD .undefined

/-- `b.type === type` -/
def hasType (type : String) (b : JsValue) : Bool := decide (member b "type" = .str type.toList)

def textOf (content : List JsValue) : Text :=
  (content.filter (hasType "text")).flatMap fun b =>
    match member b "text" with
    | .str t => t
    | _ => []

def toolUsesOf (content : List JsValue) : List ToolUse :=
  (content.filter (hasType "tool_use")).map fun b =>
    ⟨(member b "id").toStr, (member b "name").toStr, member b "input"⟩

def lastIndexOf (p : JsValue → Bool) (content : List JsValue) : Option ℕ :=
  (content.reverse.findIdx? p).map fun i => content.length - 1 - i

/-- The blocks before the last marker of a fallback are kept only when they are text. -/
def echoable (content : List JsValue) : List JsValue :=
  match lastIndexOf (hasType "fallback") content with
  | none => content
  | some last => (content.take last).filter (hasType "text") ++ content.drop (last + 1)

/-- Only the tool calls after the last fallback count. -/
theorem toolUsesOf_echoable {before after : List JsValue} {marker : JsValue}
    (hmarker : hasType "fallback" marker = true)
    (hafter : ∀ b ∈ after, hasType "fallback" b = false) :
    toolUsesOf (echoable (before ++ marker :: after)) = toolUsesOf after := by
  have hlast : lastIndexOf (hasType "fallback") (before ++ marker :: after) =
      some before.length := by
    have hidx : (before ++ marker :: after).reverse.findIdx? (hasType "fallback") =
        some after.length := by
      rw [List.reverse_append, List.reverse_cons, List.append_assoc, List.findIdx?_append,
        List.findIdx?_eq_none_iff.mpr (by simpa using hafter)]
      simp [List.findIdx?_cons, hmarker]
    rw [lastIndexOf, hidx]
    simp
  have htext : ((before.filter (hasType "text")).filter (hasType "tool_use")) = [] := by
    rw [List.filter_eq_nil_iff]
    intro b hb huse
    have h := (List.mem_filter.mp hb).2
    simp only [hasType, decide_eq_true_eq] at h huse
    exact absurd (h.symm.trans huse) (by simp)
  simp [echoable, hlast, toolUsesOf, htext]

/-! ## The loop -/

/-- What the loop reads of a `ModelResponse`. -/
structure ModelResponse where
  content : List JsValue
  stopReason : Text
  stopDetails : JsValue := .undefined
  deriving DecidableEq

/-- What becomes of `executeTool(u)`. -/
inductive Execution where
  | outcome (o : ToolOutcome)
  | thrown (message : Text)
  deriving DecidableEq

def Execution.caught : Execution → ToolOutcome
  | .outcome o => o
  | .thrown message => .result ⟨"Tool failed: ".toList ++ message, true⟩

/-- A response with what its tool calls will do. -/
structure Round where
  response : ModelResponse
  execute : ToolUse → Execution

/-- What the end of the loop depends on. `validate` gives the paths and the messages of the
errors, or the message of a schema that does not compile. -/
structure Output where
  outputSchema : Option JsValue
  parse : Text → Option JsValue
  validate : JsValue → JsValue → Except Text (List (Text × Option Text))

/-- A model call or a hook that throws leaves no result; the state is then the conversation so
far. -/
inductive LoopResult where
  | done (text : Text) (json : Option JsValue) (state : AgentLoopState)
  | waiting (state : AgentLoopState) (approvals : List ℕ)
  | failed (code message : Text) (details : Option JsValue) (text : Option Text)
      (state : AgentLoopState)
  | thrown (state : AgentLoopState)
  deriving DecidableEq

def LoopResult.state : LoopResult → AgentLoopState
  | .done _ _ state => state
  | .waiting state _ => state
  | .failed _ _ _ _ state => state
  | .thrown state => state

def LoopResult.messages (r : LoopResult) : List JsValue := r.state.messages

/-- The approvals a paused loop waits for. -/
def LoopResult.waitsFor : LoopResult → Option (List ℕ)
  | .waiting _ approvals => some approvals
  | _ => none

def maxPauses : ℕ := 5

def assistantMessage (content : List JsValue) : JsValue :=
  .obj [("role".toList, .str "assistant".toList), ("content".toList, .arr content)]

def push (loop : AgentLoopState) (m : JsValue) : AgentLoopState :=
  { loop with messages := loop.messages ++ [m] }

section
variable (env : Output)

def schemaErrors (schema value : JsValue) : Option Text :=
  match env.validate schema value with
  | .error m => some ("the schema itself is invalid: ".toList ++ m)
  | .ok [] => none
  | .ok errors => some (Text.join "; ".toList ((errors.take 8).map fun e =>
      (if e.1 = [] then "(root)".toList else e.1) ++ ' ' :: e.2.getD "is invalid".toList))

/-- The end of the loop, with the text of the last turn. -/
def finish (text : Text) (loop : AgentLoopState) : LoopResult :=
  match env.outputSchema with
  | none => .done text none loop
  | some schema =>
      match env.parse text with
      | none => .failed "invalid_output".toList
          "The model answer is not valid JSON for the output schema.".toList none (some text) loop
      | some json =>
          match schemaErrors env schema json with
          | some problems => .failed "invalid_output".toList
              ("The model answer does not match the output schema: ".toList ++ problems)
              none (some text) loop
          | none => .done text (some json) loop

/-- What a response leads to: an end, the next model call, or calls of tools. -/
inductive Turn where
  | ends (r : LoopResult)
  | again (loop : AgentLoopState)
  | uses (loop : AgentLoopState) (uses : List ToolUse)

/-- The rounds of the loop up to the calls of tools. -/
def respond (res : ModelResponse) (loop : AgentLoopState) : Turn :=
  if res.stopReason = "refusal".toList then
    .ends (.failed "model_refused".toList "The model declined this request.".toList
      (some (if res.stopDetails.isNullish then .null else res.stopDetails)) none loop)
  else
    let content := echoable res.content
    if res.stopReason = "max_tokens".toList then
      .ends (.failed "max_tokens".toList ("The model reached its output limit before finishing. " ++
        "Shorten the task or raise the limits.").toList none (some (textOf content)) loop)
    else if res.stopReason = "model_context_window_exceeded".toList then
      .ends (.failed "context_window_exceeded".toList
        "The conversation no longer fits the model context window.".toList none none loop)
    else
      let loop := push loop (assistantMessage content)
      if res.stopReason = "pause_turn".toList then
        let loop := { loop with pauses := loop.pauses + 1 }
        if maxPauses < loop.pauses then
          .ends (.failed "too_many_pauses".toList "The model paused too many times.".toList
            none none loop)
        else .again loop
      else
        let uses := toolUsesOf content
        if res.stopReason = "tool_use".toList ∧ uses ≠ [] then .uses loop uses
        else .ends (finish env (textOf content) loop)

/-- The outcomes of the calls of a turn. -/
def Round.outcomes (round : Round) (uses : List ToolUse) : List (ToolUse × ToolOutcome) :=
  uses.map fun u => (u, (round.execute u).caught)

/-- The loop with the rounds that it leaves unused. -/
def loopFrom : List Round → AgentLoopState → LoopResult × List Round
  | [], loop => (.thrown loop, [])
  | round :: rest, loop =>
      match respond env round.response loop with
      | .ends r => (r, rest)
      | .again loop => loopFrom rest loop
      | .uses loop uses =>
          let calls := round.outcomes uses
          if turnPending calls = [] then loopFrom rest (loop.answer calls)
          else (.waiting (loop.pause calls) ((turnPending calls).map PendingCall.approvalId), rest)

def runAgentLoop (rounds : List Round) (start : AgentLoopState) : LoopResult × List Round :=
  if start.waits then
    (.waiting start ((start.pending.filter fun p => p.result = none).map PendingCall.approvalId),
      rounds)
  else loopFrom env rounds start.resume

end

/-! ## What the loop has put into the messages -/

/-- A turn of the assistant, and what its calls came to. -/
structure Said where
  response : ModelResponse
  result : ToolUse → ToolResult

def ModelResponse.uses (res : ModelResponse) : List ToolUse := toolUsesOf (echoable res.content)

/-- The turn stopped for its tool calls. -/
def ModelResponse.calls (res : ModelResponse) : Prop :=
  res.stopReason = "tool_use".toList ∧ res.uses ≠ []

instance (res : ModelResponse) : Decidable res.calls := inferInstanceAs (Decidable (_ ∧ _))

def ModelResponse.message (res : ModelResponse) : JsValue := assistantMessage (echoable res.content)

/-- The turn, and for a turn that stopped for its tool calls one message with one result for each
of them, in their order. -/
def Said.messages (said : Said) : List JsValue :=
  said.response.message ::
    if said.response.calls then
      [userMessage (said.response.uses.map fun u => resultBlock u.id (said.result u))]
    else []

/-- The messages of the loop are those it started with and its turns, each with the results of
its calls; only the turn that a paused loop waits on has no results yet. -/
def Conversation (start : List JsValue) (responses : List ModelResponse) (r : LoopResult) : Prop :=
  ∃ turns : List Said, ∃ open' : List ModelResponse,
    turns.map Said.response ++ open' <+: responses ∧
      r.messages = start ++ turns.flatMap Said.messages ++ open'.map ModelResponse.message ∧
      (open' = [] ∨ r.waitsFor.isSome ∧ ∃ res, open' = [res] ∧ res.calls)

section
variable {env : Output} {round : Round} {rest : List Round} {loop loop' : AgentLoopState}
  {r : LoopResult}

theorem finish_state (text : Text) (loop : AgentLoopState) :
    (finish env text loop).state = loop := by
  unfold finish
  split
  · rfl
  · split
    · rfl
    · split <;> rfl

theorem finish_waitsFor (text : Text) (loop : AgentLoopState) :
    (finish env text loop).waitsFor = none := by
  unfold finish
  split
  · rfl
  · split
    · rfl
    · split <;> rfl

/-- All that a response can do. -/
theorem respond_cases (env : Output) (res : ModelResponse) (loop : AgentLoopState) :
    (∃ r, respond env res loop = .ends r ∧ r.waitsFor = none ∧ r.state = loop) ∨
    ¬ res.calls ∧ (∃ r pauses, respond env res loop = .ends r ∧ r.waitsFor = none ∧
      r.state = { push loop res.message with pauses := pauses }) ∨
    ¬ res.calls ∧ (∃ pauses, respond env res loop =
      .again { push loop res.message with pauses := pauses }) ∨
    res.calls ∧ respond env res loop = .uses (push loop res.message) res.uses := by
  unfold respond
  by_cases hrefusal : res.stopReason = "refusal".toList
  · rw [if_pos hrefusal]
    exact .inl ⟨_, rfl, rfl, rfl⟩
  rw [if_neg hrefusal]
  dsimp only
  by_cases hmax : res.stopReason = "max_tokens".toList
  · rw [if_pos hmax]
    exact .inl ⟨_, rfl, rfl, rfl⟩
  rw [if_neg hmax]
  by_cases hwindow : res.stopReason = "model_context_window_exceeded".toList
  · rw [if_pos hwindow]
    exact .inl ⟨_, rfl, rfl, rfl⟩
  rw [if_neg hwindow]
  by_cases hpause : res.stopReason = "pause_turn".toList
  · rw [if_pos hpause]
    have hcalls : ¬ res.calls := by
      intro h
      exact (by decide : "pause_turn".toList ≠ "tool_use".toList) (hpause.symm.trans h.1)
    by_cases hmany : maxPauses < (push loop (assistantMessage (echoable res.content))).pauses + 1
    · rw [if_pos hmany]
      exact .inr (.inl ⟨hcalls, _, _, rfl, rfl, rfl⟩)
    · rw [if_neg hmany]
      exact .inr (.inr (.inl ⟨hcalls, _, rfl⟩))
  rw [if_neg hpause]
  by_cases huse : res.stopReason = "tool_use".toList ∧ toolUsesOf (echoable res.content) ≠ []
  · rw [if_pos huse]
    exact .inr (.inr (.inr ⟨huse, rfl⟩))
  · rw [if_neg huse]
    exact .inr (.inl ⟨huse, _, _, rfl, finish_waitsFor _ _, finish_state _ _⟩)

/-- The result of a call that needs no approval. -/
def resultOf : ToolOutcome → ToolResult
  | .result r => r
  | .approval _ => ⟨[], false⟩

/-- A turn without approvals has one result for each call. -/
theorem turnResults_outcomes (round : Round) (uses : List ToolUse)
    (h : turnPending (round.outcomes uses) = []) :
    ∃ result : ToolUse → ToolResult,
      (turnResults (round.outcomes uses)).map (fun r => resultBlock r.1 r.2) =
        uses.map fun u => resultBlock u.id (result u) := by
  refine ⟨fun u => resultOf (round.execute u).caught, ?_⟩
  induction uses with
  | nil => rfl
  | cons u uses ih =>
    cases hu : (round.execute u).caught with
    | approval a => simp [Round.outcomes, turnPending, hu] at h
    | result r =>
      have htail : turnPending (round.outcomes uses) = [] := by
        simpa [Round.outcomes, turnPending, hu] using h
      have ih := ih htail
      simp only [Round.outcomes, turnResults, List.map_cons, hu, List.filterMap_cons, resultOf] at ih ⊢
      rw [ih]

/-- One more turn in front of a conversation. -/
theorem Conversation.cons {start : List JsValue} {responses : List ModelResponse} (said : Said)
    (h : Conversation (start ++ said.messages) responses r) :
    Conversation start (said.response :: responses) r := by
  obtain ⟨turns, waiting, hturns, hmessages, hopen⟩ := h
  refine ⟨said :: turns, waiting, ?_, ?_, hopen⟩
  · simpa using hturns
  · simpa [List.append_assoc] using hmessages

/-- The run of the loop: every turn is answered as it stopped. -/
theorem conversation (env : Output) (rounds : List Round) (loop : AgentLoopState) :
    Conversation loop.messages (rounds.map Round.response) (loopFrom env rounds loop).1 := by
  induction rounds generalizing loop with
  | nil =>
    exact ⟨[], [], by simp, by simp [loopFrom, LoopResult.messages, LoopResult.state], .inl rfl⟩
  | cons round rest ih =>
    rw [loopFrom, List.map_cons]
    rcases respond_cases env round.response loop with ⟨r, heq, -, hstate⟩ |
      ⟨hcalls, r, pauses, heq, -, hstate⟩ | ⟨hcalls, pauses, heq⟩ | ⟨hcalls, heq⟩ <;>
      simp only [heq]
    · exact ⟨[], [], by simp, by simp [LoopResult.messages, hstate], .inl rfl⟩
    · refine ⟨[⟨round.response, fun _ => ⟨[], false⟩⟩], [], by simp, ?_, .inl rfl⟩
      simp [LoopResult.messages, hstate, Said.messages, hcalls, push]
    · refine Conversation.cons ⟨round.response, fun _ => ⟨[], false⟩⟩ ?_
      simpa [Said.messages, hcalls, push] using
        ih { push loop round.response.message with pauses := pauses }
    · by_cases hpending : turnPending (round.outcomes round.response.uses) = []
      · rw [if_pos hpending]
        obtain ⟨result, hresult⟩ := turnResults_outcomes round _ hpending
        refine Conversation.cons ⟨round.response, result⟩ ?_
        simpa [Said.messages, hcalls, push, AgentLoopState.answer, hresult] using
          ih ((push loop round.response.message).answer (round.outcomes round.response.uses))
      · rw [if_neg hpending]
        refine ⟨[], [round.response], by simp, ?_, .inr ⟨rfl, _, rfl, hcalls⟩⟩
        simp [LoopResult.messages, LoopResult.state, push, AgentLoopState.pause]

end

/-! ## Sessions -/

/-- The call returns this result. -/
def Round.answered (round : Round) (u : ToolUse) (r : ToolResult) : Round :=
  { round with execute := fun v => if v = u then .outcome (.result r) else round.execute v }

/-- The saved state, what the last run of the loop returned, the number of model calls so far, and
all rounds with the decisions written into them. -/
structure Session where
  rounds : List Round
  calls : ℕ := 0
  state : AgentLoopState
  result : Option LoopResult := none

inductive Act where
  | run
  | decide (id : Text) (r : ToolResult)
  deriving DecidableEq

def Session.open (s : Session) : Bool := s.result.all fun r => r.waitsFor.isSome

/-- A loop that has ended is not run again. A decision fills the result of its pending call in. -/
def step (env : Output) (s : Session) : Act → Session
  | .run =>
      if s.open then
        let out := runAgentLoop env (s.rounds.drop s.calls) s.state
        { s with
          calls := s.rounds.length - out.2.length
          state := out.1.state
          result := some out.1 }
      else s
  | .decide id r =>
      match s.state.pending.find? fun p => p.toolUseId = id with
      | none => s
      | some p => { s with
          state := { s.state with pending := fillResult id r s.state.pending }
          rounds := s.rounds.modify (s.calls - 1) fun round =>
            round.answered ⟨p.toolUseId, p.name, p.input⟩ r }

/-- A call of a paused turn: its result was in at once, or it was asked for and may have been
decided since. -/
inductive Answer where
  | immediate (r : ToolResult)
  | asked (approvalId : ℕ) (decision : Option ToolResult)

/-- What the call comes to in the loop that does not pause for a decided call. -/
def Answer.outcome : Answer → ToolOutcome
  | .immediate r => .result r
  | .asked a none => .approval a
  | .asked _ (some r) => .result r

def outcomesOf (turn : List (ToolUse × Answer)) : List (ToolUse × ToolOutcome) :=
  turn.map fun c => (c.1, c.2.outcome)

def resultsIn (turn : List (ToolUse × Answer)) : List (Text × ToolResult) :=
  turn.filterMap fun c => match c.2 with
    | .immediate r => some (c.1.id, r)
    | .asked _ _ => none

def pendingIn (turn : List (ToolUse × Answer)) : List PendingCall :=
  turn.filterMap fun c => match c.2 with
    | .immediate _ => none
    | .asked a d => some ⟨c.1.id, c.1.name, c.1.input, a, d⟩

/-- The state that is saved for the turn. -/
def paused (loop : AgentLoopState) (turn : List (ToolUse × Answer)) : AgentLoopState :=
  { loop with
    results := resultsIn turn, pending := pendingIn turn, order := turn.map fun c => c.1.id }

def settle (u : ToolUse) (r : ToolResult) (c : ToolUse × Answer) : ToolUse × Answer :=
  if c.1 = u then
    (c.1, match c.2 with
      | .immediate r => .immediate r
      | .asked a _ => .asked a (some r))
  else c

/-- The state of a loop that is not paused. -/
def Clear (loop : AgentLoopState) : Prop :=
  loop.results = [] ∧ loop.pending = [] ∧ loop.order = []

section
variable {turn : List (ToolUse × Answer)} {loop : AgentLoopState}

/-- The undecided calls are the ones that still ask. -/
theorem undecided_pendingIn (turn : List (ToolUse × Answer)) :
    ((pendingIn turn).filter fun p => p.result = none) = turnPending (outcomesOf turn) := by
  induction turn with
  | nil => rfl
  | cons c turn ih =>
    obtain ⟨u, r | ⟨a, _ | r⟩⟩ := c <;>
      simpa [pendingIn, outcomesOf, turnPending, Answer.outcome] using ih

theorem paused_waits (loop : AgentLoopState) (turn : List (ToolUse × Answer)) :
    (paused loop turn).waits = false ↔ turnPending (outcomesOf turn) = [] := by
  rw [← undecided_pendingIn, AgentLoopState.waits, List.any_eq_false, List.filter_eq_nil_iff]
  rfl

theorem keys_resultsIn (turn : List (ToolUse × Answer)) :
    ((resultsIn turn).map Prod.fst).Sublist (turn.map fun c => c.1.id) := by
  induction turn with
  | nil => simp [resultsIn]
  | cons c turn ih =>
    obtain ⟨u, r | ⟨a, d⟩⟩ := c
    · simpa [resultsIn] using ih
    · exact ih.cons u.id

theorem ids_pendingIn (turn : List (ToolUse × Answer)) :
    ((pendingIn turn).map PendingCall.toolUseId).Sublist (turn.map fun c => c.1.id) := by
  induction turn with
  | nil => simp [pendingIn]
  | cons c turn ih =>
    obtain ⟨u, r | ⟨a, d⟩⟩ := c
    · exact ih.cons u.id
    · simpa [pendingIn] using ih

theorem mem_pendingIn {p : PendingCall} :
    p ∈ pendingIn turn ↔
      ∃ u a d, (u, Answer.asked a d) ∈ turn ∧ p = ⟨u.id, u.name, u.input, a, d⟩ := by
  rw [pendingIn, List.mem_filterMap]
  constructor
  · rintro ⟨⟨u, r | ⟨a, d⟩⟩, hc, hp⟩
    · cases hp
    · exact ⟨u, a, d, hc, (Option.some.inj hp).symm⟩
  · rintro ⟨u, a, d, hc, rfl⟩
    exact ⟨_, hc, rfl⟩

/-- The map of the results: pending results are put over those that were in. -/
def byId (ps : List PendingCall) (m : List (Text × ToolResult)) : List (Text × ToolResult) :=
  ps.foldl (fun m p => match p.result with
    | some r => Record.set m p.toolUseId r
    | none => m) m

theorem lookup_byId_of_notMem {ps : List PendingCall} {id : Text}
    (h : id ∉ ps.map PendingCall.toolUseId) (m : List (Text × ToolResult)) :
    (byId ps m).lookup id = m.lookup id := by
  induction ps generalizing m with
  | nil => rfl
  | cons p ps ih =>
    simp only [List.map_cons, List.mem_cons, not_or] at h
    cases hp : p.result with
    | none => simpa [byId, hp] using ih h.2 m
    | some r =>
      have := ih h.2 (Record.set m p.toolUseId r)
      rw [Record.lookup_set_of_ne m h.1] at this
      simpa [byId, hp] using this

theorem lookup_byId_of_mem {ps : List PendingCall} (hnodup : (ps.map PendingCall.toolUseId).Nodup)
    {p : PendingCall} (hp : p ∈ ps) {r : ToolResult} (hr : p.result = some r)
    (m : List (Text × ToolResult)) : (byId ps m).lookup p.toolUseId = some r := by
  induction ps generalizing m with
  | nil => cases hp
  | cons q ps ih =>
    rw [List.map_cons, List.nodup_cons] at hnodup
    rcases List.mem_cons.mp hp with rfl | hp
    · have := lookup_byId_of_notMem hnodup.1 (Record.set m p.toolUseId r)
      rw [Record.lookup_set_self] at this
      simpa [byId, hr] using this
    · exact ih hnodup.2 hp _

/-- The results come back in the order of the calls, whichever way each of them came in. -/
theorem resume_paused (hclear : Clear loop) (hids : (turn.map fun c => c.1.id).Nodup)
    (hasked : pendingIn turn ≠ []) (hdecided : turnPending (outcomesOf turn) = []) :
    (paused loop turn).resume = loop.answer (outcomesOf turn) := by
  have hpending : (paused loop turn).pending ≠ [] := hasked
  have hlookup : ∀ c ∈ turn, ∃ r, c.2.outcome = .result r ∧
      (byId (pendingIn turn) (resultsIn turn)).lookup c.1.id = some r := by
    rintro ⟨u, r | ⟨a, d⟩⟩ hc
    · refine ⟨r, rfl, ?_⟩
      have hnot : u.id ∉ (pendingIn turn).map PendingCall.toolUseId := by
        intro hmem
        obtain ⟨p, hp, hid⟩ := List.mem_map.mp hmem
        obtain ⟨v, a, d, hv, rfl⟩ := mem_pendingIn.mp hp
        have := List.inj_on_of_nodup_map hids hv hc hid
        cases congrArg Prod.snd this
      rw [lookup_byId_of_notMem hnot]
      exact Record.lookup_of_mem (hids.sublist (keys_resultsIn turn))
        (List.mem_filterMap.mpr ⟨_, hc, rfl⟩)
    · cases d with
      | none =>
        have hmem : (⟨u.id, u.name, u.input, a, none⟩ : PendingCall) ∈
            turnPending (outcomesOf turn) :=
          List.mem_filterMap.mpr ⟨(u, .approval a), List.mem_map.mpr ⟨_, hc, rfl⟩, rfl⟩
        rw [hdecided] at hmem
        cases hmem
      | some r =>
        refine ⟨r, rfl, ?_⟩
        have hp := mem_pendingIn.mpr ⟨u, a, some r, hc, rfl⟩
        exact lookup_byId_of_mem (hids.sublist (ids_pendingIn turn)) hp rfl _
  have hblocks : ((turn.map fun c => c.1.id).filterMap fun id =>
      ((byId (pendingIn turn) (resultsIn turn)).lookup id).map (resultBlock id)) =
      (turnResults (outcomesOf turn)).map fun r => resultBlock r.1 r.2 := by
    rw [List.filterMap_map, turnResults, outcomesOf, List.filterMap_map, List.map_filterMap]
    refine List.filterMap_congr fun c hc => ?_
    obtain ⟨r, hr, hl⟩ := hlookup c hc
    simp [hl, hr]
  rw [AgentLoopState.resume, if_neg hpending]
  show AgentLoopState.mk (loop.messages ++ [userMessage _]) [] [] [] loop.pauses = _
  rw [AgentLoopState.answer, ← hblocks, hclear.1, hclear.2.1, hclear.2.2]
  rfl

end

/-! ## The unpaused loop beside a session -/

theorem settle_fst (u : ToolUse) (r : ToolResult) (c : ToolUse × Answer) :
    (settle u r c).1 = c.1 := by
  unfold settle
  split <;> rfl

theorem ids_settle (u : ToolUse) (r : ToolResult) (turn : List (ToolUse × Answer)) :
    ((turn.map (settle u r)).map fun c => c.1.id) = turn.map fun c => c.1.id := by
  rw [List.map_map]
  exact List.map_congr_left fun c _ => congrArg ToolUse.id (settle_fst u r c)

theorem resultsIn_settle (u : ToolUse) (r : ToolResult) (turn : List (ToolUse × Answer)) :
    resultsIn (turn.map (settle u r)) = resultsIn turn := by
  rw [resultsIn, List.filterMap_map]
  refine List.filterMap_congr fun c _ => ?_
  obtain ⟨v, r' | ⟨a, d⟩⟩ := c <;> by_cases hv : v = u <;> simp [settle, hv]

/-- A decision fills the result of one call in and leaves the others. -/
theorem fillResult_pendingIn {turn : List (ToolUse × Answer)} {u : ToolUse} (r : ToolResult)
    (hids : (turn.map fun c => c.1.id).Nodup) (hu : ∀ c ∈ turn, c.1.id = u.id → c.1 = u) :
    fillResult u.id r (pendingIn turn) = pendingIn (turn.map (settle u r)) := by
  induction turn with
  | nil => rfl
  | cons c turn ih =>
    rw [List.map_cons, List.nodup_cons] at hids
    have ih := ih hids.2 fun d hd => hu d (List.mem_cons_of_mem c hd)
    have hc := hu c (by simp)
    obtain ⟨v, r' | ⟨a, d⟩⟩ := c
    · have hsettle : settle u r (v, .immediate r') = (v, .immediate r') := by
        unfold settle
        split <;> rfl
      rw [List.map_cons, hsettle]
      exact ih
    · by_cases hv : v = u
      · subst hv
        have hrest : turn.map (settle v r) = turn := by
          refine (List.map_congr_left fun c hc => ?_).trans (List.map_id turn)
          have hne : c.1 ≠ v := fun h => hids.1 (List.mem_map.mpr ⟨c, hc, congrArg _ h⟩)
          rw [settle, if_neg hne, id]
        rw [List.map_cons, hrest]
        simp [pendingIn, fillResult, settle]
      · have hid : v.id ≠ u.id := fun h => hv (hc h)
        have hkept : settle u r (v, .asked a d) = (v, .asked a d) := if_neg hv
        rw [List.map_cons, hkept]
        simp only [pendingIn, List.filterMap_cons, fillResult, if_neg hid] at ih ⊢
        rw [ih]

section
variable {env : Output} {start loop : AgentLoopState} {pre rest : List Round} {round : Round}

/-- The rounds lead from one state to another without an end. -/
def Leads (env : Output) (pre : List Round) (start loop : AgentLoopState) : Prop :=
  ∀ rest, loopFrom env (pre ++ rest) start = loopFrom env rest loop

theorem respond_of_calls {res : ModelResponse} (h : res.calls) (loop : AgentLoopState) :
    respond env res loop = .uses (push loop res.message) res.uses := by
  have hstop := h.1
  unfold respond
  dsimp only
  rw [if_neg (by rw [hstop]; decide), if_neg (by rw [hstop]; decide),
    if_neg (by rw [hstop]; decide), if_neg (by rw [hstop]; decide)]
  exact if_pos h

/-- A turn with tool calls: it is answered, or the loop pauses. -/
theorem loopFrom_of_calls (h : round.response.calls) (rest : List Round) (loop : AgentLoopState) :
    loopFrom env (round :: rest) loop =
      if turnPending (round.outcomes round.response.uses) = [] then
        loopFrom env rest
          ((push loop round.response.message).answer (round.outcomes round.response.uses))
      else (.waiting ((push loop round.response.message).pause
          (round.outcomes round.response.uses))
        ((turnPending (round.outcomes round.response.uses)).map PendingCall.approvalId), rest) := by
  rw [loopFrom, respond_of_calls h]

theorem Leads.snoc (h : Leads env pre start loop) {loop' : AgentLoopState}
    (hround : ∀ rest, loopFrom env (round :: rest) loop = loopFrom env rest loop') :
    Leads env (pre ++ [round]) start loop' := by
  intro rest
  rw [List.append_assoc, h, List.singleton_append, hround]

/-- The loop ends, or it gets to a turn where it pauses. -/
theorem loopFrom_cases (env : Output) (rounds : List Round) {loop : AgentLoopState}
    (hclear : Clear loop) :
    ((loopFrom env rounds loop).1.waitsFor = none ∧
      (loopFrom env rounds loop).1.state.pending = []) ∨
    ∃ pre round rest loop', rounds = pre ++ round :: rest ∧ Leads env pre loop loop' ∧
      Clear loop' ∧ round.response.calls ∧
      turnPending (round.outcomes round.response.uses) ≠ [] ∧
      loopFrom env rounds loop = loopFrom env (round :: rest) loop' := by
  induction rounds generalizing loop with
  | nil => exact .inl ⟨rfl, hclear.2.1⟩
  | cons round rest ih =>
    have hgo : ∀ loop', Clear loop' →
        (∀ rest, loopFrom env (round :: rest) loop = loopFrom env rest loop') →
        ((loopFrom env (round :: rest) loop).1.waitsFor = none ∧
          (loopFrom env (round :: rest) loop).1.state.pending = []) ∨
        ∃ pre round' rest' loop', round :: rest = pre ++ round' :: rest' ∧
          Leads env pre loop loop' ∧ Clear loop' ∧ round'.response.calls ∧
          turnPending (round'.outcomes round'.response.uses) ≠ [] ∧
          loopFrom env (round :: rest) loop = loopFrom env (round' :: rest') loop' := by
      intro loop' hclear' hround
      rcases ih hclear' with hends | ⟨pre, round', rest', loop'', rfl, hleads, hrest⟩
      · rw [hround]
        exact .inl hends
      · refine .inr ⟨round :: pre, round', rest', loop'', rfl, fun more => ?_, ?_⟩
        · rw [List.cons_append, hround, hleads]
        · rw [hround]
          exact hrest
    have hends : ∀ r, respond env round.response loop = .ends r → r.waitsFor = none →
        r.state.pending = [] → (loopFrom env (round :: rest) loop).1.waitsFor = none ∧
          (loopFrom env (round :: rest) loop).1.state.pending = [] := by
      intro r heq hwaits hstate
      simp only [loopFrom, heq]
      exact ⟨hwaits, hstate⟩
    rcases respond_cases env round.response loop with ⟨r, heq, hwaits, hstate⟩ |
      ⟨-, r, pauses, heq, hwaits, hstate⟩ | ⟨-, pauses, heq⟩ | ⟨hcalls, heq⟩
    · exact .inl (hends r heq hwaits (by rw [hstate]; exact hclear.2.1))
    · exact .inl (hends r heq hwaits (by rw [hstate]; exact hclear.2.1))
    · refine hgo { push loop round.response.message with pauses := pauses } hclear fun rest => ?_
      simp only [loopFrom, heq]
    · by_cases hpending : turnPending (round.outcomes round.response.uses) = []
      · refine hgo ((push loop round.response.message).answer
          (round.outcomes round.response.uses)) hclear fun rest => ?_
        rw [loopFrom_of_calls hcalls, if_pos hpending]
      · exact .inr ⟨[], round, rest, loop, rfl, fun _ => rfl, hclear, hcalls, hpending, rfl⟩

end

/-! ## The invariant of a session -/

/-- The calls do what they did, apart from asked ones, which return what was decided. -/
structure Decided (decisions : List (Text × ToolResult)) (before after : Round) : Prop where
  response : after.response = before.response
  execute : ∀ u, after.execute u = before.execute u ∨
    (∃ a, before.execute u = .outcome (.approval a)) ∧
      ∃ r, (u.id, r) ∈ decisions ∧ after.execute u = .outcome (.result r)

theorem Decided.refl (decisions : List (Text × ToolResult)) (round : Round) :
    Decided decisions round round :=
  ⟨rfl, fun _ => .inl rfl⟩

section
variable (env : Output) (start : AgentLoopState) (rounds : List Round)
  (decisions : List (Text × ToolResult)) (s : Session)

/-- The session waits in `turn`, to which the decided rounds lead as the rounds led. -/
structure Waits (pre₀ pre : List Round) (round₀ round : Round) (rest : List Round)
    (loop : AgentLoopState) (turn : List (ToolUse × Answer)) : Prop where
  planned : rounds = pre₀ ++ round₀ :: rest
  current : s.rounds = pre ++ round :: rest
  calls : s.calls = pre.length + 1
  before : List.Forall₂ (Decided decisions) pre₀ pre
  now : Decided decisions round₀ round
  leads : Leads env pre start loop
  clear : Clear loop
  stopped : round.response.calls
  uses : turn.map Prod.fst = round.response.uses
  ids : (turn.map fun c => c.1.id).Nodup
  outcome : ∀ c ∈ turn, (round.execute c.1).caught = c.2.outcome
  asked : ∀ c ∈ turn, ∀ a d, c.2 = .asked a d → round₀.execute c.1 = .outcome (.approval a)
  pending : pendingIn turn ≠ []
  state : s.state = paused (push loop round.response.message) turn
  result : ∃ r, s.result = some r ∧ r.waitsFor.isSome

/-- The loop has ended as the unpaused one. -/
structure Ended : Prop where
  rounds : List.Forall₂ (Decided decisions) rounds s.rounds
  pending : s.state.pending = []
  result : ∃ r, s.result = some r ∧ r.waitsFor = none ∧ r = (loopFrom env s.rounds start).1

inductive Sound : Prop where
  | fresh (hrounds : s.rounds = rounds) (hcalls : s.calls = 0) (hstate : s.state = start)
      (hresult : s.result = none)
  | waits {pre₀ pre round₀ round rest loop turn}
      (h : Waits env start rounds decisions s pre₀ pre round₀ round rest loop turn)
  | ended (h : Ended env start rounds decisions s)

end

section
variable {env : Output} {start loop : AgentLoopState} {rounds : List Round}
  {decisions : List (Text × ToolResult)} {s : Session} {pre₀ pre rest : List Round}
  {round₀ round : Round} {turn : List (ToolUse × Answer)}

/-- The distinct ids of the calls of one turn. -/
def Distinct (round : Round) : Prop := (round.response.uses.map ToolUse.id).Nodup

instance (round : Round) : Decidable (Distinct round) := inferInstanceAs (Decidable (List.Nodup _))

/-- The last run of the session beside the loop that does not pause for decided calls. -/
def Agrees (env : Output) (start : AgentLoopState) (s : Session) : Prop :=
  ∃ r, s.result = some r ∧ r.messages = (loopFrom env s.rounds start).1.messages ∧
    r.waitsFor = (loopFrom env s.rounds start).1.waitsFor ∧
    (r.waitsFor = none → r = (loopFrom env s.rounds start).1)

theorem Ended.agrees (h : Ended env start rounds decisions s) : Agrees env start s := by
  obtain ⟨r, hr, -, rfl⟩ := h.result
  exact ⟨_, hr, rfl, rfl, fun _ => rfl⟩

/-- The answers of a turn at the time it pauses. -/
def Answer.ofOutcome : ToolOutcome → Answer
  | .result r => .immediate r
  | .approval a => .asked a none

def firstAnswers (round : Round) : List (ToolUse × Answer) :=
  (round.outcomes round.response.uses).map fun c => (c.1, Answer.ofOutcome c.2)

theorem outcome_ofOutcome (o : ToolOutcome) : (Answer.ofOutcome o).outcome = o := by
  cases o <;> rfl

theorem pause_eq_paused (loop : AgentLoopState) (round : Round) :
    loop.pause (round.outcomes round.response.uses) = paused loop (firstAnswers round) := by
  have hresults : turnResults (round.outcomes round.response.uses) =
      resultsIn (firstAnswers round) := by
    rw [turnResults, resultsIn, firstAnswers, List.filterMap_map]
    refine List.filterMap_congr fun c _ => ?_
    obtain ⟨u, r | a⟩ := c <;> rfl
  have hpending : turnPending (round.outcomes round.response.uses) =
      pendingIn (firstAnswers round) := by
    rw [turnPending, pendingIn, firstAnswers, List.filterMap_map]
    refine List.filterMap_congr fun c _ => ?_
    obtain ⟨u, r | a⟩ := c <;> rfl
  have horder : (round.outcomes round.response.uses).map (fun c => c.1.id) =
      (firstAnswers round).map fun c => c.1.id := by
    rw [firstAnswers, List.map_map]
    rfl
  rw [AgentLoopState.pause, paused, hresults, hpending, horder]

variable (pre₀ pre rest s) in
/-- The loop that runs on from a state the decided rounds lead to keeps to the unpaused loop. -/
theorem sound_go (hplanned : rounds = pre₀ ++ rest) (hcurrent : s.rounds = pre ++ rest)
    (hbefore : List.Forall₂ (Decided decisions) pre₀ pre) (hleads : Leads env pre start loop)
    (hclear : Clear loop) (hids : ∀ round ∈ rounds, Distinct round) :
    let out := loopFrom env rest loop
    let s' : Session := ⟨s.rounds, s.rounds.length - out.2.length, out.1.state, some out.1⟩
    Sound env start rounds decisions s' ∧ Agrees env start s' := by
  have hdirect : loopFrom env s.rounds start = loopFrom env rest loop := by
    rw [hcurrent, hleads]
  have hrest : List.Forall₂ (Decided decisions) rest rest :=
    List.forall₂_same.mpr fun round _ => Decided.refl decisions round
  intro out s'
  have hagrees : Agrees env start s' := by
    refine ⟨out.1, rfl, ?_, ?_, fun _ => ?_⟩ <;>
      simp only [s', hdirect, out]
  refine ⟨?_, hagrees⟩
  rcases loopFrom_cases env rest hclear with ⟨hwaits, hpending⟩ |
    ⟨pre', round, rest', loop', rfl, hleads', hclear', hcalls, hpending, hout⟩
  · refine .ended ⟨?_, hpending, out.1, rfl, hwaits, ?_⟩
    · rw [hplanned, show s'.rounds = pre ++ rest from hcurrent]
      exact List.rel_append hbefore hrest
    · show out.1 = (loopFrom env s.rounds start).1
      rw [hdirect]
  · have hround : out = (.waiting (paused (push loop' round.response.message) (firstAnswers round))
        ((turnPending (round.outcomes round.response.uses)).map PendingCall.approvalId),
        rest') := by
      show loopFrom env (pre' ++ round :: rest') loop = _
      rw [hout, loopFrom_of_calls hcalls, if_neg hpending, pause_eq_paused]
    have hfst : (firstAnswers round).map Prod.fst = round.response.uses := by
      rw [firstAnswers, Round.outcomes, List.map_map, List.map_map]
      exact List.map_id _
    have hpend : pendingIn (firstAnswers round) ≠ [] := by
      have := pause_eq_paused loop' round
      rwa [← show (loop'.pause (round.outcomes round.response.uses)).pending =
        pendingIn (firstAnswers round) from congrArg _ this]
    have hexec : ∀ c ∈ firstAnswers round, ∃ u ∈ round.response.uses,
        c = (u, Answer.ofOutcome (round.execute u).caught) := by
      intro c hc
      obtain ⟨d, hd, rfl⟩ := List.mem_map.mp hc
      obtain ⟨u, hu, rfl⟩ := List.mem_map.mp hd
      exact ⟨u, hu, rfl⟩
    refine .waits (?_ : Waits env start rounds decisions s' (pre₀ ++ pre') (pre ++ pre') round round
      rest' loop' (firstAnswers round))
    refine
      { planned := by rw [hplanned, List.append_assoc]
        current := by rw [show s'.rounds = s.rounds from rfl, hcurrent, List.append_assoc]
        calls := ?_
        before := List.rel_append hbefore
          (List.forall₂_same.mpr fun round _ => Decided.refl decisions round)
        now := Decided.refl decisions round
        leads := fun more => by rw [List.append_assoc, hleads, hleads']
        clear := hclear'
        stopped := hcalls
        uses := hfst
        ids := ?_
        outcome := ?_
        asked := ?_
        pending := hpend
        state := by rw [show s'.state = out.1.state from rfl, hround]; rfl
        result := ⟨out.1, rfl, by rw [hround]; rfl⟩ }
    · show s.rounds.length - out.2.length = _
      rw [hround, hcurrent]
      simp
      omega
    · have hd := hids round (by rw [hplanned]; simp)
      rwa [Distinct, ← hfst, List.map_map] at hd
    · intro c hc
      obtain ⟨u, -, rfl⟩ := hexec c hc
      exact (outcome_ofOutcome _).symm
    · intro c hc a d hasked
      obtain ⟨u, -, rfl⟩ := hexec c hc
      cases hu : round.execute u with
      | thrown m => simp [hu, Execution.caught, Answer.ofOutcome] at hasked
      | outcome o =>
        cases o with
        | result r => simp [hu, Execution.caught, Answer.ofOutcome] at hasked
        | approval b =>
          simp only [hu, Execution.caught, Answer.ofOutcome, Answer.asked.injEq] at hasked
          rw [hasked.1]

/-- The loop that starts over on the decided rounds comes to the same turn. -/
theorem Waits.direct (h : Waits env start rounds decisions s pre₀ pre round₀ round rest loop turn) :
    loopFrom env s.rounds start =
      if turnPending (outcomesOf turn) = [] then
        loopFrom env rest ((push loop round.response.message).answer (outcomesOf turn))
      else (.waiting ((push loop round.response.message).pause (outcomesOf turn))
        ((turnPending (outcomesOf turn)).map PendingCall.approvalId), rest) := by
  have hcalls : round.outcomes round.response.uses = outcomesOf turn := by
    rw [Round.outcomes, ← h.uses, List.map_map]
    refine List.map_congr_left fun c hc => ?_
    exact Prod.ext rfl (h.outcome c hc)
  rw [h.current, h.leads, loopFrom_of_calls h.stopped, hcalls]

/-- A run of the loop on a paused turn. -/
theorem Waits.run (h : Waits env start rounds decisions s pre₀ pre round₀ round rest loop turn)
    (hids : ∀ round ∈ rounds, Distinct round) :
    Sound env start rounds decisions (step env s .run) ∧ Agrees env start (step env s .run) := by
  obtain ⟨r, hr, hwaits⟩ := h.result
  have hopen : s.open = true := by
    rw [Session.open, hr]
    exact hwaits
  have hdrop : s.rounds.drop s.calls = rest := by
    rw [h.current, h.calls, List.append_cons]
    exact List.drop_left' (by simp)
  have hlength : s.rounds.length - rest.length = s.calls := by
    rw [h.current, h.calls]
    simp
    omega
  rw [step, if_pos hopen, hdrop, runAgentLoop, h.state]
  by_cases hundecided : turnPending (outcomesOf turn) = []
  · have hgo : (paused (push loop round.response.message) turn).waits = false :=
      (paused_waits _ _).mpr hundecided
    have hresume : (paused (push loop round.response.message) turn).resume =
        (push loop round.response.message).answer (outcomesOf turn) :=
      resume_paused h.clear h.ids h.pending hundecided
    rw [if_neg (by rw [hgo]; decide), hresume]
    refine sound_go s (pre₀ ++ [round₀]) (pre ++ [round]) rest ?_ ?_ ?_ ?_ h.clear hids
    · rw [h.planned, List.append_assoc]
      rfl
    · rw [h.current, List.append_assoc]
      rfl
    · exact List.rel_append h.before (.cons h.now .nil)
    · refine h.leads.snoc fun more => ?_
      have hcalls : round.outcomes round.response.uses = outcomesOf turn := by
        rw [Round.outcomes, ← h.uses, List.map_map]
        exact List.map_congr_left fun c hc => Prod.ext rfl (h.outcome c hc)
      rw [loopFrom_of_calls h.stopped, hcalls, if_pos hundecided]
  · have hgo : (paused (push loop round.response.message) turn).waits = true := by
      rw [← Bool.not_eq_false, paused_waits]
      exact hundecided
    rw [if_pos hgo]
    have hdirect := h.direct
    rw [if_neg hundecided] at hdirect
    constructor
    · refine .waits (?_ : Waits env start rounds decisions _ pre₀ pre round₀ round rest loop turn)
      refine { h with calls := ?_, state := rfl, result := ⟨_, rfl, rfl⟩ }
      exact hlength.trans h.calls
    · refine ⟨_, rfl, ?_, ?_, fun hnone => by cases hnone⟩
      · rw [hdirect]
        rfl
      · rw [hdirect, ← undecided_pendingIn]
        rfl

theorem modify_append_cons {α : Type*} (pre : List α) (x : α) (rest : List α) (f : α → α) :
    (pre ++ x :: rest).modify pre.length f = pre ++ f x :: rest := by
  induction pre with
  | nil => rfl
  | cons y pre ih => simpa using ih

/-- A decision keeps a session in its paused turn. -/
theorem Waits.decide
    (h : Waits env start rounds decisions s pre₀ pre round₀ round rest loop turn)
    {id : Text} {r : ToolResult} (hr : (id, r) ∈ decisions) :
    Sound env start rounds decisions (step env s (.decide id r)) := by
  rw [step]
  cases hfind : s.state.pending.find? fun p => p.toolUseId = id with
  | none => exact .waits h
  | some p =>
    have hpending : s.state.pending = pendingIn turn := by
      rw [h.state]
      rfl
    have hid : p.toolUseId = id := by simpa using List.find?_some hfind
    have hp : p ∈ pendingIn turn := hpending ▸ List.mem_of_find?_eq_some hfind
    obtain ⟨u, a, d, hmem, rfl⟩ := mem_pendingIn.mp hp
    have hu : ∀ c ∈ turn, c.1.id = u.id → c = (u, .asked a d) :=
      fun c hc hsame => List.inj_on_of_nodup_map h.ids hc hmem hsame
    have hsettled : ∀ c ∈ turn.map (settle u r), ∃ c₀ ∈ turn, c.1 = c₀.1 ∧
        (c₀.1 ≠ u ∧ c = c₀ ∨ c₀ = (u, .asked a d) ∧ c = (u, .asked a (some r))) := by
      intro c hc
      obtain ⟨c₀, hc₀, rfl⟩ := List.mem_map.mp hc
      refine ⟨c₀, hc₀, settle_fst u r c₀, ?_⟩
      by_cases hsame : c₀.1 = u
      · have hc₀' := hu c₀ hc₀ (congrArg ToolUse.id hsame)
        exact .inr ⟨hc₀', by rw [hc₀']; simp [settle]⟩
      · exact .inl ⟨hsame, if_neg hsame⟩
    have hmodify : (s.rounds.modify (s.calls - 1) fun round => round.answered u r) =
        pre ++ round.answered u r :: rest := by
      rw [h.current, h.calls, Nat.add_sub_cancel, modify_append_cons]
    have hstate : ({ s.state with pending := fillResult id r s.state.pending } : AgentLoopState) =
        paused (push loop round.response.message) (turn.map (settle u r)) := by
      have hfill : fillResult id r (pendingIn turn) = pendingIn (turn.map (settle u r)) :=
        hid ▸ fillResult_pendingIn r h.ids fun c hc hsame => congrArg Prod.fst (hu c hc hsame)
      rw [hpending, hfill, h.state, paused, paused, ids_settle, resultsIn_settle]
    refine .waits (?_ : Waits env start rounds decisions _ pre₀ pre round₀ (round.answered u r) rest
      loop (turn.map (settle u r)))
    refine
      { planned := h.planned
        current := hmodify
        calls := h.calls
        before := h.before
        now := ⟨h.now.response, fun v => ?_⟩
        leads := h.leads
        clear := h.clear
        stopped := h.stopped
        uses := ?_
        ids := ?_
        outcome := ?_
        asked := ?_
        pending := ?_
        state := hstate
        result := h.result }
    · by_cases hv : v = u
      · subst hv
        have hdecided : (v.id, r) ∈ decisions := by
          rw [show v.id = id from hid]
          exact hr
        exact .inr ⟨⟨a, h.asked _ hmem a d rfl⟩, r, hdecided, if_pos rfl⟩
      · rcases h.now.execute v with hsame | hother
        · exact .inl ((if_neg hv).trans hsame)
        · obtain ⟨hasked, r', hr', hv'⟩ := hother
          exact .inr ⟨hasked, r', hr', (if_neg hv).trans hv'⟩
    · rw [List.map_map]
      exact (List.map_congr_left fun c _ => settle_fst u r c).trans h.uses
    · rw [ids_settle]
      exact h.ids
    · intro c hc
      obtain ⟨c₀, hc₀, -, ⟨hne, rfl⟩ | ⟨-, rfl⟩⟩ := hsettled c hc
      · rw [← h.outcome c hc₀]
        exact congrArg Execution.caught (if_neg hne)
      · exact congrArg Execution.caught (if_pos rfl)
    · intro c hc b e hasked
      obtain ⟨c₀, hc₀, -, ⟨-, rfl⟩ | ⟨rfl, rfl⟩⟩ := hsettled c hc
      · exact h.asked c hc₀ b e hasked
      · cases hasked
        exact h.asked _ hc₀ a d rfl
    · have hfilled : (⟨u.id, u.name, u.input, a, some r⟩ : PendingCall) ∈
          pendingIn (turn.map (settle u r)) :=
        mem_pendingIn.mpr ⟨u, a, some r,
          List.mem_map.mpr ⟨_, hmem, by simp [settle]⟩, rfl⟩
      exact List.ne_nil_of_mem hfilled

theorem sound_step (h : Sound env start rounds decisions s) (hclear : Clear start)
    (hids : ∀ round ∈ rounds, Distinct round) {a : Act}
    (ha : ∀ id r, a = .decide id r → (id, r) ∈ decisions) :
    Sound env start rounds decisions (step env s a) := by
  cases h with
  | fresh hrounds hcalls hstate hresult =>
    cases a with
    | run =>
      have hopen : s.open = true := by rw [Session.open, hresult]; rfl
      have hwaits : start.waits = false := by rw [AgentLoopState.waits, hclear.2.1]; rfl
      rw [step, if_pos hopen, hcalls, hstate, runAgentLoop, if_neg (by rw [hwaits]; decide),
        AgentLoopState.resume, if_pos hclear.2.1, List.drop_zero, hrounds]
      have hgo : Sound env start rounds decisions _ :=
        (sound_go s [] [] rounds rfl hrounds .nil (fun _ => rfl) hclear hids).1
      rwa [hrounds] at hgo
    | decide id r =>
      rw [step, hstate, hclear.2.1]
      exact .fresh hrounds hcalls hstate hresult
  | waits h =>
    cases a with
    | run => exact (h.run hids).1
    | decide id r => exact h.decide (ha id r rfl)
  | ended h =>
    cases a with
    | run =>
      obtain ⟨r, hr, hwaits, -⟩ := h.result
      have hclosed : s.open = false := by rw [Session.open, hr, Option.all_some, hwaits]; rfl
      rw [step, if_neg (by rw [hclosed]; decide)]
      exact .ended h
    | decide id r =>
      rw [step, h.pending]
      exact .ended h

theorem sound_run (h : Sound env start rounds decisions s) (hclear : Clear start)
    (hids : ∀ round ∈ rounds, Distinct round) {acts : List Act}
    (hacts : ∀ id r, Act.decide id r ∈ acts → (id, r) ∈ decisions) :
    Sound env start rounds decisions (Interleaving.run (step env) s acts) := by
  induction acts generalizing s with
  | nil => exact h
  | cons a acts ih =>
    refine ih (sound_step h hclear hids ?_) fun id r hmem =>
      hacts id r (List.mem_cons_of_mem a hmem)
    rintro id r rfl
    exact hacts id r (by simp)

/-- After a run of the loop the session agrees with the unpaused loop. -/
theorem agrees_run (h : Sound env start rounds decisions s) (hclear : Clear start)
    (hids : ∀ round ∈ rounds, Distinct round) : Agrees env start (step env s .run) := by
  cases h with
  | fresh hrounds hcalls hstate hresult =>
    have hopen : s.open = true := by rw [Session.open, hresult]; rfl
    have hwaits : start.waits = false := by rw [AgentLoopState.waits, hclear.2.1]; rfl
    rw [step, if_pos hopen, hcalls, hstate, runAgentLoop, if_neg (by rw [hwaits]; decide),
      AgentLoopState.resume, if_pos hclear.2.1, List.drop_zero, hrounds]
    have hnone : List.Forall₂ (Decided decisions) [] [] := .nil
    have hgo : Agrees env start _ :=
      (sound_go s [] [] rounds rfl hrounds hnone (fun _ => rfl) hclear hids).2
    rwa [hrounds] at hgo
  | waits h => exact (h.run hids).2
  | ended h =>
    obtain ⟨r, hr, hwaits, -⟩ := h.result
    have hclosed : s.open = false := by rw [Session.open, hr, Option.all_some, hwaits]; rfl
    rw [step, if_neg (by rw [hclosed]; decide)]
    exact h.agrees

theorem runAgentLoop_of_clear (hclear : Clear start) (rounds : List Round) :
    runAgentLoop env rounds start = loopFrom env rounds start := by
  have hwaits : start.waits = false := by rw [AgentLoopState.waits, hclear.2.1]; rfl
  rw [runAgentLoop, if_neg (by rw [hwaits]; decide), AgentLoopState.resume, if_pos hclear.2.1]

theorem Sound.decided (h : Sound env start rounds decisions s) :
    List.Forall₂ (Decided decisions) rounds s.rounds := by
  have hsame : ∀ rounds : List Round, List.Forall₂ (Decided decisions) rounds rounds :=
    fun _ => List.forall₂_same.mpr fun round _ => Decided.refl decisions round
  cases h with
  | fresh hrounds _ _ _ =>
    rw [hrounds]
    exact hsame rounds
  | waits h =>
    rw [h.planned, h.current]
    exact List.rel_append h.before (.cons h.now (hsame _))
  | ended h => exact h.rounds

theorem responses_of_decided {before after : List Round}
    (h : List.Forall₂ (Decided decisions) before after) :
    after.map Round.response = before.map Round.response := by
  induction h with
  | nil => rfl
  | cons hround _ ih => rw [List.map_cons, List.map_cons, hround.response, ih]

/-- The turns of the loop are read off its messages and from whether it waits. -/
theorem Conversation.congr {messages : List JsValue} {responses : List ModelResponse}
    {r r' : LoopResult} (h : Conversation messages responses r) (hm : r'.messages = r.messages)
    (hw : r'.waitsFor = r.waitsFor) : Conversation messages responses r' := by
  rw [Conversation, hm, hw]
  exact h

end

/-- The decisions of a schedule. -/
def decisionsOf (acts : List Act) : List (Text × ToolResult) :=
  acts.filterMap fun a => match a with
    | .run => none
    | .decide id r => some (id, r)

/-- Pausing does not change the conversation. Whatever the model and the tools answer, and in
whatever order the decisions and the runs of the loop follow each other: after a run of the loop
the messages are those of the loop in which the decided calls returned their results directly.
In both, every turn that stopped for its tool calls is followed by one message with one result
for each of them in their order, except for the turn that is still waited on, and no other turn
is followed by a message of the user. -/
theorem paused_conversation (env : Output) {start : AgentLoopState} (hclear : Clear start)
    {rounds : List Round} (hids : ∀ round ∈ rounds, Distinct round) (acts : List Act) :
    let s := Interleaving.run (step env) ⟨rounds, 0, start, none⟩ (acts ++ [.run])
    let direct := (runAgentLoop env s.rounds start).1
    ∃ r, s.result = some r ∧
      List.Forall₂ (Decided (decisionsOf acts)) rounds s.rounds ∧
      r.messages = direct.messages ∧ r.waitsFor = direct.waitsFor ∧
      (r.waitsFor = none → r = direct) ∧
      Conversation start.messages (rounds.map Round.response) r ∧
      Conversation start.messages (rounds.map Round.response) direct := by
  intro s direct
  have hdirect : direct = (loopFrom env s.rounds start).1 := by
    rw [← runAgentLoop_of_clear hclear]
  have hfresh : Sound env start rounds (decisionsOf acts) ⟨rounds, 0, start, none⟩ :=
    .fresh rfl rfl rfl rfl
  have hsound : Sound env start rounds (decisionsOf acts)
      (Interleaving.run (step env) ⟨rounds, 0, start, none⟩ acts) :=
    sound_run hfresh hclear hids fun id r hmem => List.mem_filterMap.mpr ⟨_, hmem, rfl⟩
  have hs : s = step env (Interleaving.run (step env) ⟨rounds, 0, start, none⟩ acts) .run := by
    show Interleaving.run _ _ _ = _
    rw [Interleaving.run_append]
    rfl
  have hafter : Sound env start rounds (decisionsOf acts) s :=
    hs ▸ sound_step hsound hclear hids fun id r h => by cases h
  obtain ⟨r, hr, hmessages, hwaits, hends⟩ : Agrees env start s :=
    hs ▸ agrees_run hsound hclear hids
  have hresponses := responses_of_decided hafter.decided
  have hconv : Conversation start.messages (rounds.map Round.response) direct := by
    rw [hdirect, ← hresponses]
    exact conversation env s.rounds start
  rw [← hdirect] at hmessages hwaits hends
  exact ⟨r, hr, hafter.decided, hmessages, hwaits, hends, hconv.congr hmessages hwaits, hconv⟩

/-! ## Two conversations -/

def block (type : String) (fields : List (String × String)) : JsValue :=
  .obj (("type".toList, .str type.toList) :: fields.map fun f => (f.1.toList, .str f.2.toList))

def plainOutput : Output := ⟨none, fun _ => none, fun _ _ => .ok []⟩

/-- The second call of the first turn needs an approval. -/
def askingRounds : List Round :=
  [⟨⟨[block "tool_use" [("id", "a"), ("name", "list")],
        block "tool_use" [("id", "b"), ("name", "power")]], "tool_use".toList, .undefined⟩,
      fun u => .outcome (if u.id = ['b'] then .approval 0 else .result ⟨"ok".toList, false⟩)⟩,
    ⟨⟨[block "text" [("text", "done")]], "end_turn".toList, .undefined⟩, fun _ => .thrown []⟩]

theorem clear_initialState (prompt : Text) : Clear (initialState prompt) := ⟨rfl, rfl, rfl⟩

theorem paused_conversation_asking :
    let acts : List Act := [.run, .decide ['b'] ⟨"off".toList, true⟩]
    let s := Interleaving.run (step plainOutput) ⟨askingRounds, 0, initialState [], none⟩
      (acts ++ [.run])
    let direct := (runAgentLoop plainOutput s.rounds (initialState [])).1
    ∃ r, s.result = some r ∧
      List.Forall₂ (Decided (decisionsOf acts)) askingRounds s.rounds ∧
      r.messages = direct.messages ∧ r.waitsFor = direct.waitsFor ∧
      (r.waitsFor = none → r = direct) ∧
      Conversation (initialState []).messages (askingRounds.map Round.response) r ∧
      Conversation (initialState []).messages (askingRounds.map Round.response) direct :=
  paused_conversation plainOutput (clear_initialState []) (by decide)
    [.run, .decide ['b'] ⟨"off".toList, true⟩]

/-- Every turn of the assistant with tool calls is followed by exactly one message of results. -/
def Followed (messages : List JsValue) : Prop :=
  ∀ before content after, messages = before ++ assistantMessage content :: after →
    toolUsesOf content ≠ [] →
    ∃ (result : ToolUse → ToolResult) (later : List JsValue),
      after = userMessage ((toolUsesOf content).map fun u => resultBlock u.id (result u)) :: later ∧
      ∀ blocks, later.head? ≠ some (userMessage blocks)

/-- A turn of the model with a tool call that did not stop for it. -/
def pausingRounds : List Round :=
  [⟨⟨[block "tool_use" [("id", "a"), ("name", "list")]], "pause_turn".toList, .undefined⟩,
      fun _ => .outcome (.result ⟨"ok".toList, false⟩)⟩,
    ⟨⟨[block "text" [("text", "done")]], "end_turn".toList, .undefined⟩,
      fun _ => .outcome (.result ⟨"ok".toList, false⟩)⟩]

/-- A turn that pauses goes back as it is, and its tool call gets no result. -/
theorem pause_unanswered :
    ¬ ∀ (env : Output) (rounds : List Round) (prompt : Text), (∀ round ∈ rounds, Distinct round) →
      (runAgentLoop env rounds (initialState prompt)).1.waitsFor = none →
      Followed (runAgentLoop env rounds (initialState prompt)).1.messages := by
  intro h
  have hfollowed := h plainOutput pausingRounds [] (by decide) (by decide)
  obtain ⟨result, later, hafter, -⟩ := hfollowed (initialState []).messages
    [block "tool_use" [("id", "a"), ("name", "list")]]
    [assistantMessage [block "text" [("text", "done")]]] (by decide) (by decide)
  rw [List.cons.injEq, assistantMessage, userMessage] at hafter
  simp at hafter

end Prgd.AgentLoop
