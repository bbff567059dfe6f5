import OpenCollab.Lib.Assembly
import OpenCollab.Provider.ChatResponse

/-!
# OpenCollab.Provider.ChatStream

`adapters/llm/_chat_stream.py`: a Chat completion put together from the chunks of
a stream.

`absorbChunk` adds one chunk to the state: texts are collected in parts, a tool
call in the slot its `index` names, and the finish reason and the usage are those
reported last.  `streamStateToResponse` closes the state into a response, or
refuses a stream that broke off.

A slot grows by `growSlot` and the table of slots by `Lib.absorb`, so that
`OpenCollab.Lib.Assembly` says what a call's fragments make of it.
-/

namespace OpenCollab.Chat

/-! ## chunks -/

/-- The two spellings of a reasoning delta, in the order in which they are read
(`_REASONING_DELTA_FIELDS`). -/
inductive ReasoningField where
  | reasoningContent
  | reasoning
deriving DecidableEq, Repr

/-- The other spelling. -/
def ReasoningField.other : ReasoningField → ReasoningField
  | reasoningContent => reasoning
  | reasoning => reasoningContent

structure FunctionDelta where
  name : Option String := none
  arguments : Option String := none
deriving DecidableEq, Repr, Inhabited

/-- A fragment of a tool call; `index` is `none` unless it is an `int`. -/
structure ToolCallDelta where
  index : Option Int := none
  id : Option String := none
  function : Option FunctionDelta := none
deriving DecidableEq, Repr, Inhabited

structure Delta where
  content : Option String := none
  refusal : Option String := none
  reasoningContent : Option String := none
  reasoning : Option String := none
  toolCalls : List ToolCallDelta := []
deriving DecidableEq, Repr, Inhabited

structure ChunkChoice where
  index : Int := 0
  finishReason : Option String := none
  delta : Option Delta := none
deriving DecidableEq, Repr, Inhabited

structure Chunk where
  model : Option String := none
  usage : Option Json := none
  choices : List ChunkChoice := []
deriving DecidableEq, Repr, Inhabited

/-- `getattr(delta, name, None)` for a spelling of the reasoning. -/
def Delta.reasoningText (delta : Delta) : ReasoningField → Option String
  | .reasoningContent => delta.reasoningContent
  | .reasoning => delta.reasoning

namespace ToolCallDelta

def name (call : ToolCallDelta) : Option String := call.function.bind FunctionDelta.name

def arguments (call : ToolCallDelta) : Option String := call.function.bind FunctionDelta.arguments

end ToolCallDelta

/-! ## state -/

/-- One accumulating tool call, keyed by the delta's `index`. -/
structure ToolCallSlot where
  callId : Option String := none
  nameParts : List String := []
  argumentParts : List String := []
deriving DecidableEq, Repr, Inhabited

/-- `_ChatStreamState`. -/
structure ChatStreamState where
  contentParts : List String := []
  refusalParts : List String := []
  reasoningParts : List String := []
  reasoningField : Option ReasoningField := none
  toolSlots : Lib.Dict Int ToolCallSlot := .empty
  finishReason : Option String := none
  usageObject : Option Json := none
  providerModel : Option String := none
  chunkCount : Nat := 0

/-- What `if isinstance(text, str) and text: parts.append(text)` adds. -/
def piece (text : Option String) : List String := (orNone text).toList

/-! ## absorbing -/

/-- `_absorb_reasoning_delta`: the first spelling that carried text is kept to. -/
def absorbReasoningDelta (delta : Delta) (state : ChatStreamState) : ChatStreamState :=
  let fields := match state.reasoningField with
    | some field => [field]
    | none => [.reasoningContent, .reasoning]
  match fields.find? fun field => (orNone (delta.reasoningText field)).isSome with
  | none => state
  | some field =>
      { state with
        reasoningField := some field
        reasoningParts := state.reasoningParts ++ piece (delta.reasoningText field) }

/-- A fragment merged into the slot of its call.  An id is kept, never overwritten
with a blank one, and never changed. -/
def growSlot (index : Int) (slot : ToolCallSlot) (call : ToolCallDelta) :
    Except ProviderError ToolCallSlot := do
  let callId ← match orNone call.id with
    | none => .ok slot.callId
    | some callId =>
        match slot.callId with
        | none => .ok (some callId)
        | some old =>
            if old = callId then .ok (some callId)
            else .error (.transient (.changedId index old callId))
  return {
    callId := callId
    nameParts := slot.nameParts ++ piece call.name
    argumentParts := slot.argumentParts ++ piece call.arguments }

/-- `_absorb_tool_call_delta`, on the state's `tool_slots`. -/
def absorbToolCallDelta (slots : Lib.Dict Int ToolCallSlot) (call : ToolCallDelta) :
    Except ProviderError (Lib.Dict Int ToolCallSlot) :=
  match call.index with
  | none => .error (.transient .noIndex)
  | some index => Lib.absorb growSlot {} slots (index, call)

/-- What the delta of the answer adds apart from its tool calls. -/
def absorbText (state : ChatStreamState) (delta : Delta) : ChatStreamState :=
  absorbReasoningDelta delta { state with
    contentParts := state.contentParts ++ piece delta.content
    refusalParts := state.refusalParts ++ piece delta.refusal }

/-- The body of the loop over `choices`: only the choice with index 0 is read. -/
def absorbChoice (state : ChatStreamState) (choice : ChunkChoice) :
    Except ProviderError ChatStreamState :=
  if choice.index ≠ 0 then .ok state
  else
    let state := { state with finishReason := (orNone choice.finishReason).or state.finishReason }
    match choice.delta with
    | none => .ok state
    | some delta => do
        let state := absorbText state delta
        let slots ← delta.toolCalls.foldlM absorbToolCallDelta state.toolSlots
        return { state with toolSlots := slots }

/-- What a chunk says of the whole completion. -/
def absorbHeader (state : ChatStreamState) (chunk : Chunk) : ChatStreamState :=
  { state with
    chunkCount := state.chunkCount + 1
    providerModel := state.providerModel.or (cleanProviderModel chunk.model)
    usageObject := chunk.usage.or state.usageObject }

/-- `_absorb_chunk`. -/
def absorbChunk (state : ChatStreamState) (chunk : Chunk) :
    Except ProviderError ChatStreamState :=
  chunk.choices.foldlM absorbChoice (absorbHeader state chunk)

/-! ## closing -/

/-- The names of the functions registered for the request. -/
def registeredNames (tools : List Json) : List String :=
  tools.filterMap fun tool => ((tool.get "function").get "name").asStr?

/-- The body of the loop of `_finalize_tool_calls`; a call that a provider limit
interrupted is not validated. -/
def finalizeSlot (c : Codec) (validate : Bool) (registered : List String) (index : Int)
    (slot : ToolCallSlot) : Except ProviderError ToolCall := do
  let name := String.join slot.nameParts
  if validate ∧ name = "" then throw (.transient (.noName index))
  if validate ∧ registered ≠ [] ∧ name ∉ registered then
    throw (.transient (.unregisteredName index name))
  if validate ∧ (orNone slot.callId).isNone then throw (.transient (.noId index))
  let arguments ← normalizeToolArguments c (String.join slot.argumentParts)
  return { id := orEmpty slot.callId, name := name, arguments := arguments }

/-- `_finalize_tool_calls`: the calls in first-seen index order. -/
def finalizeToolCalls (c : Codec) (state : ChatStreamState) (tools : List Json) :
    Except ProviderError (List ToolCall) :=
  let validate := state.finishReason ≠ some "length" ∧ state.finishReason ≠ some "max_tokens"
  state.toolSlots.entries.mapM fun entry =>
    finalizeSlot c validate (registeredNames tools) entry.1 entry.2

/-- `_stream_state_to_response`. -/
def streamStateToResponse (c : Codec) (state : ChatStreamState) (requestMessages tools : List Json)
    (requireReportedUsage : Bool) : Except ProviderError LLMResponse := do
  if state.chunkCount = 0 then throw (.transient .noChunks)
  if state.finishReason = none then throw (.transient (.noFinishReason state.chunkCount))
  let content := orNone (some (String.join state.contentParts))
  let refusal := orNone (some (String.join state.refusalParts))
  let reasoning := orNone (some (String.join state.reasoningParts))
  let toolCalls ← finalizeToolCalls c state tools
  let usageMessage : ChatMessage :=
    { content := content, refusal := refusal, reasoningContent := reasoning, toolCalls := toolCalls }
  let response ← buildChatResponse c content reasoning toolCalls state.finishReason
    state.providerModel state.usageObject usageMessage requestMessages tools refusal
  if requireReportedUsage ∧ response.usage.estimated then throw .streamedUsageUnavailable
  return response

/-- The chunks of a stream, drained and closed (`_consume_chat_stream` where the
transport delivers every chunk). -/
def assembleStream (c : Codec) (chunks : List Chunk) (requestMessages tools : List Json) :
    Except ProviderError LLMResponse := do
  let state ← chunks.foldlM absorbChunk {}
  streamStateToResponse c state requestMessages tools true

end OpenCollab.Chat
