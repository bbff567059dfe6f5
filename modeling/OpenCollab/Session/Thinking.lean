import OpenCollab.Session.History

/-!
# OpenCollab.Session.Thinking

Native thinking (`application/_anthropic_history.py`, and the parts of `call_llm`
and `_complete_with_choice` that use it).

A model that requires a thinking prefix accepts a thinking block again only behind
the very messages it was produced from.  What was sent therefore stands beside the
transcript, as `AnthropicHistory`: the next request extends that view with the
messages appended since, and whatever a shaper, a change of the tools or a
rejection does to it, the thinking bound to a changed prefix is dropped.

`World` is what a call reads and writes: the transcript, the view, and three records
of the run: the requests `sent`, the messages `fresh` since the last view, and the calls
of shapers (`shapings`).  What the surroundings decide during one call is
its `Call`.
-/

namespace OpenCollab.Thinking

/-! ## thinking blocks -/

/-- `isinstance(block, dict) and block.get("type") in _THINKING_TYPES`. -/
def isThinkingBlock (block : Json) : Bool :=
  block.get "type" = .str "thinking" || block.get "type" = .str "redacted_thinking"

/-- `provider_state["anthropic_content"]`, where it is a list. -/
def anthropicContent (m : Message) : Option (List Json) :=
  (m.providerState.get "anthropic_content").asArr?

/-- The message carries native thinking. -/
def hasThinking (m : Message) : Bool :=
  (anthropicContent m).any fun blocks => blocks.any isThinkingBlock

/-- The message with its text and tool blocks only. -/
def withoutThinking (m : Message) : Message :=
  match anthropicContent m with
  | none => m
  | some blocks =>
      let kept := blocks.filter fun block => !isThinkingBlock block
      if kept.length ≠ blocks.length then
        { m with providerState := m.providerState.set "anthropic_content" (.arr kept) }
      else m

/-- `_strip_anthropic_thinking(messages, start)`. -/
def stripAnthropicThinking (messages : List Message) (start : Nat) : List Message :=
  messages.take start ++ (messages.drop start).map withoutThinking

/-- `message.get("role") == "system" and not message.get("compacted")`. -/
def isSystem (m : Message) : Bool := m.role = .system && !m.compacted

/-- The system messages that no compaction made. -/
def systems (messages : List Message) : List Message := messages.filter isSystem

/-- The first place at which two lists differ, as far as both go. -/
def firstEdit : (before after : List Message) → Option Nat
  | old :: before, new :: after => if old = new then (firstEdit before after).map (· + 1) else some 0
  | _, _ => none

/-- `_edited_anthropic_history`: the thinking bound to a changed prefix is dropped,
the valid older run is kept. -/
def editedAnthropicHistory (before after : List Message) : List Message :=
  if systems before ≠ systems after then stripAnthropicThinking after 0
  else match firstEdit before after with
    | some index => stripAnthropicThinking after index
    | none => after

/-! ## the world of a call -/

/-- `state.anthropic_history`: the messages last sent, how much of the transcript
they cover, and the tools offered with them. -/
structure AnthropicHistory where
  messages : List Message
  sourceCount : Nat
  tools : Option (List Json)

/-- The message `append_assistant_message` appends for a response. -/
abbrev Reply := { m : Message // m.role = .assistant }

/-- A request that was sent, with the message its response became, if it did. -/
structure Request where
  messages : List Message
  tools : Option (List Json)
  reply : Option Reply

/-- A call of a shaper: the transcript then, the view remembered last, the messages
appended since, and the list the shaper was called with. -/
structure Shaping where
  transcript : List Message
  view : List Message
  fresh : List Message
  input : List Message

structure World where
  messages : List Message
  history : Option AnthropicHistory := none
  fresh : List Message
  sent : List Request := []
  shapings : List Shaping := []

/-- A session before its first request. -/
def start (messages : List Message) : World := { messages := messages, fresh := messages }

/-- `state.append_message`. -/
def append (w : World) (m : Message) : World :=
  { w with messages := w.messages ++ [m], fresh := w.fresh ++ [m] }

/-- `state.replace_messages`. -/
def replaceMessages (w : World) (messages : List Message) : World :=
  { w with messages := messages, history := none, fresh := messages }

/-- `_anthropic_history_input`. -/
def anthropicHistoryInput (w : World) : List Message :=
  match w.history with
  | none => w.messages
  | some h => h.messages ++ w.messages.drop h.sourceCount

/-- The view remembered last. -/
def view (w : World) : List Message := (w.history.map AnthropicHistory.messages).getD []

/-- A shaper is called; what it is called with is recorded. -/
def callShaper (w : World) (shape : List Message → List Message) (input : List Message) :
    World × List Message :=
  ({ w with shapings := w.shapings ++ [⟨w.messages, view w, w.fresh, input⟩] }, shape input)

/-- `_remember_anthropic_history`. -/
def rememberAnthropicHistory (w : World) (messages : List Message) (tools : Option (List Json)) :
    World × List Message :=
  let messages := editedAnthropicHistory (anthropicHistoryInput w) messages
  let messages := match w.history with
    | none => messages
    | some h =>
        let messages := editedAnthropicHistory h.messages messages
        if h.tools ≠ tools then stripAnthropicThinking messages 0 else messages
  ({ w with history := some ⟨messages, w.messages.length, tools⟩, fresh := [] }, messages)

/-- A list with its last message folded. -/
def foldLast (messages : List Message) (text : String) : List Message :=
  match messages.getLast? with
  | none => messages
  | some last => messages.dropLast ++ [foldSteering last text]

/-- Steering at the head of `call_llm`: folded into a trailing user message, or else
appended, since such a model keeps what it was sent. -/
def steer (w : World) (steering : Option String) : World :=
  match steering with
  | none => w
  | some text =>
      if w.messages.getLast?.any fun last => last.role = .user then
        { w with messages := foldLast w.messages text, fresh := foldLast w.fresh text }
      else append w (.ofText .user text)

/-! ## one attempt -/

/-- `_prepare_request_budget`, as to the messages: the final prompt of the run control
joins the list in place.  `aliased`: that list is the transcript itself. -/
def prepareRequest (w : World) (messages : List Message) (prompt : Option String) (aliased : Bool) :
    World × List Message :=
  match prompt with
  | none => (w, messages)
  | some text =>
      let prompt := Message.ofText .system text
      if prompt ∈ messages then (w, messages)
      else (if aliased then append w prompt else w, messages ++ [prompt])

/-- The request goes out. -/
def send (w : World) (messages : List Message) (tools : Option (List Json))
    (reply : Option Reply) : World :=
  { w with sent := w.sent ++ [⟨messages, tools, reply⟩] }

/-- The one retry after a prefix rejection: whether preparing the request succeeds and
with which prompt, whether its output limit admits it, and what comes back
(`none`: an exception). -/
structure Retry where
  prompt : Option String := none
  ready : Bool := true
  admitted : Bool := true
  answer : Option (Option Reply) := none

/-- What a request that is sent ends with. -/
inductive Outcome where
  | answered (reply : Option Reply)
  | prefixRejected (retry : Retry)
  | failed

/-- What the surroundings decide during one `_complete_with_choice`. -/
structure Attempt where
  prompt : Option String := none
  ready : Bool := true
  admitted : Bool := true
  outcome : Outcome

/-- How an attempt ended: the list it was given, with the prompt that may have joined
it, and what was answered. -/
structure Attempted where
  world : World
  messages : List Message
  answer : Option (Option Reply)

/-- The rest of `_complete_with_choice` after a prefix rejection: the replayed thinking
is retired, unless there is none. -/
def retire (w : World) (view : List Message) (tools : Option (List Json)) (retry : Retry) :
    World × Option (Option Reply) :=
  let recovered := stripAnthropicThinking view 0
  if recovered = view then (w, none)
  else
    let (w, view) := rememberAnthropicHistory w recovered tools
    if !retry.ready then (w, none)
    else
      let (w, view) := prepareRequest w view retry.prompt false
      let (w, view) := rememberAnthropicHistory w view tools
      if !retry.admitted then (w, none)
      else (send w view tools retry.answer.join, retry.answer)

/-- `_complete_with_choice`. -/
def completeWithChoice (w : World) (messages : List Message) (tools : Option (List Json))
    (aliased : Bool) (attempt : Attempt) : Attempted :=
  if !attempt.ready then ⟨w, messages, none⟩
  else
    let (w, messages) := prepareRequest w messages attempt.prompt aliased
    let (w, view) := rememberAnthropicHistory w messages tools
    if !attempt.admitted then ⟨w, messages, none⟩
    else match attempt.outcome with
      | .answered reply => ⟨send w view tools reply, messages, some reply⟩
      | .failed => ⟨send w view tools none, messages, none⟩
      | .prefixRejected retry =>
          let (w, answer) := retire (send w view tools none) view tools retry
          ⟨w, messages, answer⟩

/-! ## one call -/

/-- A shaped view and the attempts made with it: the first, and the one with
`tool_choice="auto"` where the choice was rejected. -/
structure Pass where
  shape : List Message → List Message
  aliased : Bool := false
  first : Attempt
  fallback : Option Attempt := none

/-- What the surroundings decide during one `call_llm`: `forced` is the recompaction
after a context overflow. -/
structure Call where
  steering : Option String := none
  tools : Option (List Json) := none
  pass : Pass
  forced : Option Pass := none

/-- `_complete`. -/
def complete (w : World) (messages : List Message) (tools : Option (List Json)) (aliased : Bool)
    (first : Attempt) (fallback : Option Attempt) : World × Option (Option Reply) :=
  let attempted := completeWithChoice w messages tools aliased first
  match attempted.answer, fallback with
  | none, some second =>
      let attempted := completeWithChoice attempted.world attempted.messages tools aliased second
      (attempted.world, attempted.answer)
  | answer, _ => (attempted.world, answer)

/-- The view is shaped from the input of the history, edited, and completed.  A shaper
may hand back the list it was given, which is the transcript itself while there
is no history. -/
def runPass (w : World) (tools : Option (List Json)) (pass : Pass) : World × Option (Option Reply) :=
  let history := anthropicHistoryInput w
  let (w, shaped) := callShaper w pass.shape history
  let aliased := pass.aliased && w.history.isNone && shaped = history
  complete w (editedAnthropicHistory history shaped) tools aliased pass.first pass.fallback

/-- The response joins the transcript. -/
def settle (w : World) : Option (Option Reply) → World
  | some (some reply) => append w reply.val
  | _ => w

/-- `call_llm`, and the response in the transcript. -/
def callLlm (w : World) (call : Call) : World :=
  let (w, answer) := runPass (steer w call.steering) call.tools call.pass
  match answer, call.forced with
  | none, some pass =>
      let (w, answer) := runPass w call.tools pass
      settle w answer
  | answer, _ => settle w answer

/-! ## runs -/

/-- Every shaper of a call is one of those allowed. -/
def Call.ShapedBy (call : Call) (shapers : (List Message → List Message) → Prop) : Prop :=
  shapers call.pass.shape ∧ ∀ pass, call.forced = some pass → shapers pass.shape

/-- One step of a session: a message without thinking is appended, the transcript is
replaced by such messages, or the model is called. -/
inductive Step (shapers : (List Message → List Message) → Prop) : World → World → Prop where
  | append (w : World) (m : Message) (h : hasThinking m = false) : Step shapers w (append w m)
  | replace (w : World) (messages : List Message) (h : ∀ m ∈ messages, hasThinking m = false) :
      Step shapers w (replaceMessages w messages)
  | call (w : World) (call : Call) (h : call.ShapedBy shapers) : Step shapers w (callLlm w call)

/-- The shaper adds no thinking past the end of what it was given. -/
def AddsNoThinking (shape : List Message → List Message) : Prop :=
  ∀ messages i m, messages.length ≤ i → (shape messages)[i]? = some m → hasThinking m = false

end OpenCollab.Thinking
