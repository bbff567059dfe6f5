import OpenCollab.Lib.Assembly
import OpenCollab.Provider.ResponsesOutput

/-!
# OpenCollab.Provider.ResponsesStream

`adapters/llm/responses_provider.py`: the response read from a Responses stream, and the
one read from a Responses object that arrived whole.

Both paths fill a `StreamState` and end in `parseStream`; the stream does so event by
event (`handleEvent`, `drainStream`), the other one by accepting the items of the object
in turn (`parseResponsesResponse`).

Waiting, timeouts, the closing of the stream and the usage that is attached to an
exception are left out; a stream that ends too early is `interrupted`.
-/

namespace OpenCollab.Responses

open Chat (orNone orEmpty optionalUsageInt usageToDict rescueEmptyTurn)
open Lib (Dict)

/-! ## data -/

/-- The attributes of a Responses object that are read; a missing one is `None`. -/
structure Response where
  status : Json := .null
  error : Json := .null
  incompleteDetails : Json := .null
  model : Json := .null
  id : Json := .null
  output : Json := .null
  usage : Json := .null
deriving DecidableEq, Repr, Inhabited

/-- A stream event, with the attributes that its type is read for. -/
inductive Event where
  | failed (response : Option Response) (error : Json)
  | incomplete (response : Option Response)
  | argumentsDelta (outputIndex delta : Json)
  | argumentsDone (outputIndex arguments : Json)
  | outputItemDone (outputIndex item : Json)
  | completed (response : Option Response)
  | passive
  | unsupported (type : String)
  | untyped
deriving DecidableEq, Repr

/-- `_StreamState`; its `output_items` are derived. -/
structure StreamState where
  outputItemsByIndex : Dict Int Json := .empty
  argumentFragments : Dict Int (List String) := .empty
  completedResponse : Option Response := none

namespace StreamState

/-- The items received, in the order of their indices. -/
def outputItems (state : StreamState) : List Json :=
  (state.outputItemsByIndex.entries.mergeSort fun a b => a.1 ≤ b.1).map Prod.snd

/-- The terminal object; `None` has no attributes. -/
def response (state : StreamState) : Response := state.completedResponse.getD {}

end StreamState

/-- Why a response ended. -/
inductive FinishReason where
  | stop
  | maxTokens
  | toolCalls
deriving DecidableEq, Repr

/-- Token accounting for one response. -/
structure Usage where
  inputTokens : Int
  outputTokens : Int
  cacheReadTokens : Option Int
  cacheCreationTokens : Option Int
  reasoningTokens : Option Int
  estimated : Bool
  rawUsage : Json
deriving DecidableEq, Repr

/-- A single response. -/
structure LLMResponse where
  content : Option String
  toolCalls : List ToolCall
  usage : Usage
  finishReason : FinishReason
  reasoning : Option String
  providerItems : List Json
  providerModel : String
deriving DecidableEq, Repr

/-- What a response is parsed for: the messages and tools of the request, the tool that
stands for a JSON Schema, and whether streamed output is trusted on a mismatch. -/
structure Request where
  messages : List Json := []
  tools : List Json := []
  forcedTextTool : Option String := none
  trustStreamed : Bool := false

/-! ## the stream -/

/-- `type(index) is int`: a `bool` is none. -/
def asIndex? : Json → Option Int
  | .int n => some n
  | _ => none

/-- `_response_model`. -/
def responseModel (response : Response) : Except ResponsesError String := do
  let some model := nonEmptyText response.model | refuse .modelIdentity
  return model

/-- `_validate_terminal_response`. -/
def validateTerminalResponse (response : Response) :
    Except ResponsesError (String × FinishReason) := do
  if response.status ≠ .str "completed" ∧ response.status ≠ .str "incomplete" then refuse .status
  if response.error ≠ .null then refuse .terminalError
  if response.status = .str "completed" ∧ response.incompleteDetails ≠ .null then
    refuse .incompleteDetails
  let reason := response.incompleteDetails.get "reason"
  if response.status = .str "incomplete" ∧ reason ≠ .str "max_tokens" ∧
      reason ≠ .str "max_output_tokens" then
    refuse .incompleteReason
  let model ← responseModel response
  return (model, if response.status = .str "incomplete" then .maxTokens else .stop)

/-- The checks of `_accept_output_item` on a call; its fragments are taken out. -/
def acceptCall (index : Int) (item : Json) (state : StreamState) :
    Except ResponsesError (Dict Int (List String)) := do
  let some callId := nonEmptyText (item.get "call_id") | refuse .callId
  if state.outputItems.any fun prior =>
      hasType prior "function_call" && prior.get "call_id" = .str callId then
    refuse (.duplicateCallId callId)
  let some arguments := (item.get "arguments").asStr? | refuse (.missingArguments callId)
  let fragments := (state.argumentFragments.get? index).getD []
  if fragments ≠ [] ∧ String.join fragments ≠ arguments then refuse (.fragmentsDisagree callId)
  let some _ := nonEmptyText (item.get "name") | refuse (.missingName callId)
  return state.argumentFragments.erase index

/-- `_accept_output_item`. -/
def acceptOutputItem (outputIndex item : Json) (state : StreamState) :
    Except ResponsesError StreamState := do
  let some index := (asIndex? outputIndex).filter (0 ≤ ·) | refuse .itemIndex
  if (state.outputItemsByIndex.get? index).isSome then refuse (.duplicateIndex index)
  if !supportedItem item then refuse .unsupportedItem
  let fragments ←
    if hasType item "function_call" then acceptCall index item state
    else .ok state.argumentFragments
  return { state with
    outputItemsByIndex := state.outputItemsByIndex.set index item
    argumentFragments := fragments }

/-- `_handle_event`: the state, and whether the event was the terminal one. -/
def handleEvent (state : StreamState) : Event → Except ResponsesError (StreamState × Bool)
  | .failed _ error => .error (.responseError error)
  | .incomplete response => do
      if (response.getD {}).status ≠ .str "incomplete" then throw .terminalEvent
      let _ ← validateTerminalResponse (response.getD {})
      return ({ state with completedResponse := response }, true)
  | .argumentsDelta outputIndex delta => do
      let (some index, some text) := (asIndex? outputIndex, delta.asStr?) | refuse .deltaIncomplete
      let fragments := (state.argumentFragments.get? index).getD []
      return ({ state with
        argumentFragments := state.argumentFragments.set index (fragments ++ [text]) }, false)
  | .argumentsDone outputIndex arguments => do
      let (some index, some text) := (asIndex? outputIndex, arguments.asStr?)
        | refuse .completionIncomplete
      let fragments := (state.argumentFragments.get? index).getD []
      if fragments ≠ [] ∧ String.join fragments ≠ text then refuse .completionDisagrees
      return (state, false)
  | .outputItemDone outputIndex item => do
      return (← acceptOutputItem outputIndex item state, false)
  | .completed response => do
      let some object := response | refuse .noResponse
      let _ ← validateTerminalResponse object
      return ({ state with completedResponse := response }, true)
  | .passive => return (state, false)
  | .unsupported type => refuse (.unsupportedEvent type)
  | .untyped => refuse .eventType

/-- The fragments of an index are the arguments of a call that was cut off. -/
def coversFragments (output : List Json) (entry : Int × List String) : Bool :=
  0 ≤ entry.1 && match output[entry.1.toNat]? with
    | none => false
    | some item => isInterrupted item && item.get "arguments" = .str (String.join entry.2)

/-- The end of `_drain_stream`: fragments that no item took belong to calls cut off by the
token limit. -/
def settleFragments (state : StreamState) : Except ResponsesError StreamState := do
  if state.argumentFragments.entries = [] then return state
  let (_, finishReason) ← validateTerminalResponse state.response
  let output ← validatedResponseItems state.response.output
  if finishReason = .maxTokens ∧ state.argumentFragments.entries.all (coversFragments output) then
    return { state with argumentFragments := .empty }
  refuse .incompleteArguments

/-- `_drain_stream`, from a state; events after the terminal one are never read. -/
def drainStream (state : StreamState) : List Event → Except ResponsesError StreamState
  | [] => .error .interrupted
  | event :: events => do
      let (state, terminal) ← handleEvent state event
      if terminal then settleFragments state else drainStream state events

/-! ## the response -/

/-- `_positive_usage_int`. -/
def positiveUsageInt (c : Codec) (source : Json) (key : String) : Option Int :=
  (optionalUsageInt c.toCodec source key).filter (0 < ·)

/-- `parse_responses_usage`. -/
def parseResponsesUsage (c : Codec) (response : Response) (request : Request)
    (content : Option String) (toolCalls : List ToolCall) (reasoning : Option String) : Usage :=
  let raw := usageToDict (some response.usage)
  let inputTokens := positiveUsageInt c raw "input_tokens"
  let outputTokens := positiveUsageInt c raw "output_tokens"
  let inputDetails := raw.get "input_tokens_details"
  let text := orEmpty reasoning ++ orEmpty content ++
    String.join (toolCalls.map fun call => call.name ++ call.arguments)
  { inputTokens := inputTokens.getD (c.estimateReplayTokens request.messages request.tools)
    outputTokens := outputTokens.getD (if text = "" then 0 else c.estimateTokens text)
    cacheReadTokens := optionalUsageInt c.toCodec inputDetails "cached_tokens"
    cacheCreationTokens := (optionalUsageInt c.toCodec inputDetails "cache_write_tokens").or
      (optionalUsageInt c.toCodec raw "cache_write_tokens")
    reasoningTokens :=
      optionalUsageInt c.toCodec (raw.get "output_tokens_details") "reasoning_tokens"
    estimated := inputTokens.isNone || outputTokens.isNone
    rawUsage := raw }

/-- `project_forced_text_tool`: the call and the provider item. -/
def projectForcedTextTool (c : Codec) (tool content responseIdentity : String) :
    Except ResponsesError (ToolCall × Json) :=
  match c.jsonLoads content with
  | .value (.obj kvs) =>
      let arguments := c.jsonDumps (.obj kvs)
      let digest := takeChars 24 (c.sha256 (responseIdentity ++ "\x00" ++ tool ++ "\x00" ++ arguments))
      let callId := "call_schema_" ++ digest
      .ok ({ id := callId, name := tool, arguments := arguments },
        .obj [("id", .str ("fc_" ++ digest)), ("type", .str "function_call"),
          ("status", .str "completed"), ("call_id", .str callId), ("name", .str tool),
          ("arguments", .str arguments)])
  | .recursionError => .error .recursionError
  | _ => refuse .forcedToolJson

/-- A call that was not cut off has an identity. -/
def checkCall (c : Codec) (item : Json) : Except ResponsesError Unit :=
  if hasType item "function_call" && !isInterrupted item then
    match functionCallIdentity c (item.get "call_id") (item.get "name") (item.get "arguments") with
    | .ok _ => .ok ()
    | .error (.protocol _) => refuse .invalidJson
    | .error e => .error e
  else .ok ()

/-- An item that was not cut off disagrees with the terminal item of its index. -/
def indexDisagrees (c : Codec) (finalItems : List Json) (entry : Int × Json) :
    Except ResponsesError Bool :=
  if isInterrupted entry.2 then .ok false
  else match finalItems[entry.1.toNat]? with
    | none => .ok true
    | some terminal => do return !(← outputItemsAgree c entry.2 terminal)

/-- The items without the calls that were cut off. -/
def dropInterrupted (items : List Json) : List Json := items.filter fun item => !isInterrupted item

/-- The items compared: without the calls that were cut off, if the object has such. -/
def compared (finalItems items : List Json) : List Json :=
  if finalItems.any isInterrupted then dropInterrupted items else items

/-- The streamed items with the late fields of the terminal ones, if all agree; they are
trusted otherwise, or refused. -/
def settleItems (c : Codec) (trustStreamed indexedMismatch : Bool) (streamed terminal : List Json) :
    Except ResponsesError (List Json) := do
  let agree ←
    if indexedMismatch ∨ terminal.length ≠ streamed.length then .ok false
    else (streamed.zip terminal).allM fun pair => outputItemsAgree c pair.1 pair.2
  if agree then return List.zipWith mergeTerminalProjection streamed terminal
  if trustStreamed ∧ streamed ≠ [] then return streamed
  refuse .outputDisagrees

/-- The part of `_parse_stream` that compares the streamed items with the terminal ones:
the items of the response. -/
def reconcile (c : Codec) (trustStreamed : Bool) (finishReason : FinishReason)
    (state : StreamState) : Except ResponsesError (List Json) := do
  state.outputItems.forM (checkCall c)
  let finalItems ← validatedResponseItems state.response.output
  let indexedMismatch ← state.outputItemsByIndex.entries.anyM (indexDisagrees c finalItems)
  if finalItems.any isInterrupted ∧ finishReason ≠ .maxTokens then refuse .interruptedCalls
  settleItems c trustStreamed indexedMismatch (compared finalItems state.outputItems)
    (compared finalItems finalItems)

/-- The tool call an item stands for.  Accepted calls have all three texts. -/
def itemCall (item : Json) : Option ToolCall :=
  if hasType item "function_call" then
    some { id := (item.get "call_id").asStr?.getD "", name := (item.get "name").asStr?.getD ""
           arguments := (item.get "arguments").asStr?.getD "" }
  else none

/-- The content, the calls and the items of a response whose text stands for a tool call,
or not. -/
def projectContent (c : Codec) (request : Request) (response : Response)
    (finishReason : FinishReason) (items : List Json) (content : Option String)
    (toolCalls : List ToolCall) :
    Except ResponsesError (Option String × List ToolCall × List Json) := do
  let some tool := request.forcedTextTool | return (content, toolCalls, items)
  if toolCalls ≠ [] then refuse .forcedToolCalls
  if finishReason ≠ .stop then return (content, toolCalls, items)
  let some text := content | throw .emptyOutput
  let some responseId := nonEmptyText response.id | refuse .responseIdentity
  let (toolCall, item) ← projectForcedTextTool c tool text responseId
  return (none, [toolCall], items.filter (hasType · "reasoning") ++ [item])

/-- The rest of `_parse_stream`: the response made of the reconciled items. -/
def buildResponse (c : Codec) (request : Request) (response : Response) (model : String)
    (finishReason : FinishReason) (items : List Json) : Except ResponsesError LLMResponse := do
  let content := orNone (some (String.join (← items.mapM outputText)))
  let reasoning := orNone
    (some ("\n".intercalate ((← items.mapM reasoningText).filter fun text => text ≠ "")))
  let (content, toolCalls, items) ←
    projectContent c request response finishReason items content (items.filterMap itemCall)
  let usage := parseResponsesUsage c response request content toolCalls reasoning
  let content := rescueEmptyTurn content toolCalls reasoning
  if (orNone content).isNone ∧ toolCalls = [] ∧ finishReason ≠ .maxTokens then throw .emptyOutput
  return {
    content := content
    toolCalls := toolCalls
    usage := usage
    finishReason := if toolCalls ≠ [] ∧ finishReason = .stop then .toolCalls else finishReason
    reasoning := reasoning
    providerItems := items
    providerModel := model }

/-- `_parse_stream`. -/
def parseStream (c : Codec) (request : Request) (state : StreamState) :
    Except ResponsesError LLMResponse := do
  let (model, finishReason) ← validateTerminalResponse state.response
  let items ← reconcile c request.trustStreamed finishReason state
  buildResponse c request state.response model finishReason items

/-- A streamed response: `_drain_stream`, then `_parse_stream`. -/
def readStream (c : Codec) (request : Request) (events : List Event) :
    Except ResponsesError LLMResponse := do
  parseStream c request (← drainStream {} events)

/-- The items of a whole object, accepted in turn. -/
def acceptItems (state : StreamState) (items : List Json) : Except ResponsesError StreamState :=
  items.foldlM (fun state item => acceptOutputItem (.int state.outputItems.length) item state) state

/-- `parse_responses_response`. -/
def parseResponsesResponse (c : Codec) (request : Request) (response : Response) :
    Except ResponsesError LLMResponse := do
  if response.status = .str "failed" then
    let _ ← responseModel response
    throw (.responseError response.error)
  let _ ← validateTerminalResponse response
  let some items := response.output.asArr? | refuse .noOutput
  parseStream c request (← acceptItems { completedResponse := some response } items)

end OpenCollab.Responses
