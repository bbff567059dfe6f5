import OpenCollab.Lib.Effect
import OpenCollab.Text
import OpenCollab.Message
import OpenCollab.Shaping.ToolBudget

/-!
# OpenCollab.Provider.ChatResponse

`adapters/llm/_chat_response.py`: the response built from a Chat completion.

`parseResponse` reads a completion that arrived whole; it meets the streamed path
in `buildChatResponse`, which recovers tool calls written as markup, shows a
refusal where there is no answer, accounts the usage (`parseUsage`) and rescues a
turn that would otherwise be empty.

A provider writes a missing text as `None` or as `""`.  `orNone` is Python's
`text or None`, and `LLMResponse.unblank` forgets the difference in a response:

* `buildChatResponse_unblank` — nothing else of a response depends on it.
-/

namespace OpenCollab.Chat

/-! ## data -/

/-- Why a stream is not turned into a response (`TransientProviderError`). -/
inductive StreamFault where
  | noIndex
  | changedId (index : Int) (old new : String)
  | noChunks
  | noFinishReason (chunkCount : Nat)
  | noName (index : Int)
  | unregisteredName (index : Int) (name : String)
  | noId (index : Int)
deriving DecidableEq, Repr

/-- The exceptions of the two paths.  `recursionError` is what `json.loads` raises
on a text nested too deeply. -/
inductive ProviderError where
  | transient (fault : StreamFault)
  | streamedUsageUnavailable
  | recursionError
deriving DecidableEq, Repr

/-- The fields of an assistant message that the program reads. -/
structure ChatMessage where
  content : Option String := none
  refusal : Option String := none
  reasoningContent : Option String := none
  reasoning : Option String := none
  toolCalls : List ToolCall := []
deriving DecidableEq, Repr, Inhabited

/-- A completion's first choice, with the fields of the completion itself; `usage`
is the usage object as plain data. -/
structure Completion where
  message : ChatMessage
  finishReason : Option String := none
  model : Option String := none
  usage : Option Json := none
deriving DecidableEq, Repr, Inhabited

/-- Token accounting for one completion. -/
structure Usage where
  inputTokens : Int := 0
  outputTokens : Int := 0
  cacheReadTokens : Int := 0
  reasoningTokens : Option Int := none
  estimated : Bool := false
  rawUsage : Json := .obj []
  markupRecovered : Nat := 0
deriving DecidableEq, Repr, Inhabited

/-- A single completion result. -/
structure LLMResponse where
  content : Option String := none
  toolCalls : List ToolCall := []
  usage : Usage := {}
  finishReason : Option String := none
  reasoning : Option String := none
  providerModel : Option String := none
deriving DecidableEq, Repr, Inhabited

/-- What the two paths share that is not spelled out here: `json.loads`, `int` on a
reported counter (`none`: it raises), the tool calls that a non-empty text holds
as markup with the text that is left, and the token estimates of a request
and of a reply. -/
structure Codec where
  jsonLoads : String → JsonLoads
  toInt : Json → Option Int
  extractMarkup : String → Except ProviderError (List ToolCall × Option String)
  estimateMessagesTokens : List Json → List Json → Int
  estimateOutputTokens : ChatMessage → Int

/-! ## texts -/

/-- `text or None`. -/
def orNone (text : Option String) : Option String := text.filter (· ≠ "")

/-- `text or ""`. -/
def orEmpty (text : Option String) : String := text.getD ""

@[simp] theorem orNone_none : orNone none = none := rfl

@[simp] theorem orNone_empty : orNone (some "") = none := rfl

theorem orNone_some {text : String} (h : text ≠ "") : orNone (some text) = some text := by
  simp [orNone, h]

theorem orNone_eq_some {text : Option String} {s : String} :
    orNone text = some s ↔ text = some s ∧ s ≠ "" := by
  cases text with
  | none => simp
  | some t =>
      by_cases ht : t = ""
      · subst ht
        simp only [orNone_empty, Option.some.injEq]
        grind
      · rw [orNone_some ht]
        grind

@[simp] theorem orNone_orNone (text : Option String) : orNone (orNone text) = orNone text := by
  simp [orNone]

@[simp] theorem orEmpty_orNone (text : Option String) : orEmpty (orNone text) = orEmpty text := by
  cases text with
  | none => rfl
  | some t =>
      by_cases ht : t = ""
      · subst ht
        rfl
      · rw [orNone_some ht]

@[simp] theorem orNone_orEmpty (text : Option String) : orNone (some (orEmpty text)) = orNone text := by
  cases text with
  | none => rfl
  | some t => rfl

/-- `_clean_provider_model`. -/
def cleanProviderModel (value : Option String) : Option String := orNone value

/-- `_normalize_tool_arguments`: a provider's empty object in front of the real one
is dropped. -/
def normalizeToolArguments (c : Codec) (arguments : String) : Except ProviderError String :=
  let raw := strip arguments
  if raw.startsWith "\x7b\x7d\x7b" then
    let candidate := strip (raw.drop 2).toString
    match c.jsonLoads candidate with
    | .value _ => .ok candidate
    | .valueError => .ok raw
    | .recursionError => .error .recursionError
  else .ok raw

/-- `_extract_markup_tool_calls`. -/
def extractMarkupToolCalls (c : Codec) (content : Option String) :
    Except ProviderError (List ToolCall × Option String) :=
  match orNone content with
  | none => .ok ([], content)
  | some text => c.extractMarkup text

/-- `rescue_empty_turn`: reasoning stands in where a turn has neither an answer nor
a tool call. -/
def rescueEmptyTurn (content : Option String) (toolCalls : List ToolCall)
    (reasoning : Option String) : Option String :=
  if isBlank (orEmpty content) ∧ toolCalls = [] then reasoning else content

/-! ## usage -/

/-- `usage_to_dict`, on plain data. -/
def usageToDict (usage : Option Json) : Json :=
  match usage with
  | some (.obj items) => .obj items
  | _ => .obj []

/-- `_usage_int`: a counter that is missing or no number is 0. -/
def usageInt (c : Codec) (source : Json) (key : String) : Int :=
  let value := source.get key
  if value = .null ∨ value = .str "" then 0 else max 0 ((c.toInt value).getD 0)

/-- `_optional_usage_int`: a `bool` is no counter. -/
def optionalUsageInt (c : Codec) (source : Json) (key : String) : Option Int :=
  match source.get key with
  | .null | .bool _ => none
  | value => (c.toInt value).filter (0 ≤ ·)

/-- `not any(plain_message.get(key) for key in …)`: the turn produced nothing. -/
def producedNothing (message : ChatMessage) : Bool :=
  (orNone message.content).isNone && (orNone message.refusal).isNone &&
    (orNone message.reasoningContent).isNone && (orNone message.reasoning).isNone &&
    message.toolCalls.isEmpty

/-- `reported_empty_turn`, where the input was reported: zero output is the exact
counter of an empty turn. -/
def reportedEmptyTurn (c : Codec) (rawUsage : Json) (message : ChatMessage) : Bool :=
  optionalUsageInt c rawUsage "completion_tokens" = some 0 &&
    optionalUsageInt c rawUsage "total_tokens" = some (usageInt c rawUsage "prompt_tokens") &&
    usageInt c (rawUsage.get "completion_tokens_details") "reasoning_tokens" = 0 &&
    producedNothing message

/-- The usage block gives both counters, so that nothing is estimated. -/
def usageReported (c : Codec) (usage : Option Json) (message : ChatMessage) : Bool :=
  let rawUsage := usageToDict usage
  0 < usageInt c rawUsage "prompt_tokens" &&
    (0 < usageInt c rawUsage "completion_tokens" || reportedEmptyTurn c rawUsage message)

/-- `_parse_usage`: a counter that is missing or zero is estimated. -/
def parseUsage (c : Codec) (usage : Option Json) (requestMessages : List Json)
    (message : ChatMessage) (tools : List Json) : Usage :=
  let rawUsage := usageToDict usage
  let inputTokens := usageInt c rawUsage "prompt_tokens"
  let outputTokens := usageInt c rawUsage "completion_tokens"
  let cachedTokens := usageInt c (rawUsage.get "prompt_tokens_details") "cached_tokens"
  let reasoningTokens := usageInt c (rawUsage.get "completion_tokens_details") "reasoning_tokens"
  let inputEstimated : Bool := inputTokens ≤ 0
  let outputEstimated : Bool :=
    outputTokens ≤ 0 && !(!inputEstimated && reportedEmptyTurn c rawUsage message)
  { inputTokens :=
      if inputEstimated then c.estimateMessagesTokens requestMessages tools else inputTokens
    outputTokens := if outputEstimated then c.estimateOutputTokens message else outputTokens
    cacheReadTokens := cachedTokens
    reasoningTokens := if reasoningTokens = 0 then none else some reasoningTokens
    estimated := inputEstimated || outputEstimated
    rawUsage := rawUsage }

/-- Nothing is estimated just where the usage block gives both counters. -/
theorem parseUsage_estimated (c : Codec) (usage : Option Json) (requestMessages : List Json)
    (message : ChatMessage) (tools : List Json) :
    (parseUsage c usage requestMessages message tools).estimated
      = !usageReported c usage message := by
  simp only [parseUsage, usageReported]
  by_cases hin : usageInt c (usageToDict usage) "prompt_tokens" ≤ 0
  · have hnot : ¬ 0 < usageInt c (usageToDict usage) "prompt_tokens" := by omega
    simp [hin, hnot]
  · have hpos : 0 < usageInt c (usageToDict usage) "prompt_tokens" := by omega
    by_cases hout : usageInt c (usageToDict usage) "completion_tokens" ≤ 0
    · have hnot : ¬ 0 < usageInt c (usageToDict usage) "completion_tokens" := by omega
      simp [hin, hpos, hout, hnot]
    · have hpos' : 0 < usageInt c (usageToDict usage) "completion_tokens" := by omega
      simp [hin, hpos, hout, hpos']

/-- Of a reply the usage only asks whether it produced anything, once it is reported. -/
theorem usageReported_congr (c : Codec) (usage : Option Json) {message message' : ChatMessage}
    (h : producedNothing message = producedNothing message') :
    usageReported c usage message = usageReported c usage message' := by
  simp only [usageReported, reportedEmptyTurn, h]

theorem parseUsage_congr (c : Codec) (usage : Option Json) (requestMessages : List Json)
    {message message' : ChatMessage} (tools : List Json)
    (h : producedNothing message = producedNothing message')
    (hreported : usageReported c usage message = true) :
    parseUsage c usage requestMessages message tools
      = parseUsage c usage requestMessages message' tools := by
  have hempty : reportedEmptyTurn c (usageToDict usage) message
      = reportedEmptyTurn c (usageToDict usage) message' := by
    simp only [reportedEmptyTurn, h]
  have hexact := parseUsage_estimated c usage requestMessages message tools
  rw [hreported] at hexact
  simp only [parseUsage, hempty, Bool.not_true, Bool.or_eq_false_iff] at hexact ⊢
  rw [hexact.2]
  simp

/-! ## the response -/

/-- What `_build_chat_response` finds written as markup: the calls, and the content
and the reasoning that are left. -/
def recoverMarkup (c : Codec) (content reasoning : Option String) :
    Except ProviderError (List ToolCall × Option String × Option String) := do
  let (markupCalls, cleaned) ← extractMarkupToolCalls c content
  if markupCalls ≠ [] then return (markupCalls, cleaned, reasoning)
  if (orNone reasoning).isNone then return ([], content, reasoning)
  let (markupCalls, cleanedReasoning) ← extractMarkupToolCalls c reasoning
  if markupCalls ≠ [] then return (markupCalls, content, cleanedReasoning)
  return ([], content, reasoning)

/-- `use_refusal`: a refusal that is not blank, without an answer. -/
def useRefusal (content refusal : Option String) : Bool :=
  isBlank (orEmpty content) && !isBlank (orEmpty refusal)

/-- `_build_chat_response`. -/
def buildChatResponse (c : Codec) (content reasoning : Option String) (toolCalls : List ToolCall)
    (finishReason providerModel : Option String) (usageSource : Option Json)
    (usageMessage : ChatMessage) (requestMessages tools : List Json) (refusal : Option String) :
    Except ProviderError LLMResponse := do
  let refused := useRefusal content refusal
  let (recovered, content, reasoning) ←
    if toolCalls = [] ∧ !refused then recoverMarkup c content reasoning
    else .ok ([], content, reasoning)
  let toolCalls := if recovered = [] then toolCalls else recovered
  let content := if refused then refusal else content
  let usage := parseUsage c usageSource requestMessages usageMessage tools
  return {
    content := rescueEmptyTurn content toolCalls reasoning
    toolCalls := toolCalls
    usage := { usage with markupRecovered := if recovered = [] then 0 else 1 }
    finishReason := finishReason
    reasoning := reasoning
    providerModel := providerModel }

/-- A tool call with its argument text normalised. -/
def normalizeCall (c : Codec) (call : ToolCall) : Except ProviderError ToolCall := do
  let arguments ← normalizeToolArguments c call.arguments
  return { call with arguments := arguments }

/-- The reasoning of a message: `reasoning_content`, or else `reasoning`. -/
def messageReasoning (message : ChatMessage) : Option String :=
  (orNone message.reasoningContent).or (orNone message.reasoning)

/-- The reply that `_parse_response` accounts: the message, its reasoning under the
first spelling. -/
def plainUsageMessage (message : ChatMessage) : ChatMessage :=
  if (messageReasoning message).isNone then message
  else { message with reasoningContent := messageReasoning message }

/-- `_parse_response`. -/
def parseResponse (c : Codec) (completion : Completion) (requestMessages tools : List Json) :
    Except ProviderError LLMResponse := do
  let message := completion.message
  let toolCalls ← message.toolCalls.mapM (normalizeCall c)
  buildChatResponse c message.content (messageReasoning message) toolCalls completion.finishReason
    (cleanProviderModel completion.model) completion.usage (plainUsageMessage message)
    requestMessages tools message.refusal

/-! ## missing and empty text -/

/-- The response with every empty text missing. -/
def LLMResponse.unblank (response : LLMResponse) : LLMResponse :=
  { response with content := orNone response.content, reasoning := orNone response.reasoning }

@[simp] theorem useRefusal_orNone (content refusal : Option String) :
    useRefusal (orNone content) (orNone refusal) = useRefusal content refusal := by
  simp [useRefusal]

theorem orNone_rescueEmptyTurn (content : Option String) (toolCalls : List ToolCall)
    (reasoning : Option String) :
    orNone (rescueEmptyTurn (orNone content) toolCalls reasoning)
      = orNone (rescueEmptyTurn content toolCalls reasoning) := by
  unfold rescueEmptyTurn
  rw [orEmpty_orNone]
  split
  · rfl
  · exact orNone_orNone content

/-- Where the content is empty, the markup found is that of the reasoning. -/
theorem recoverMarkup_orNone (c : Codec) (content reasoning : Option String) :
    recoverMarkup c (orNone content) reasoning = recoverMarkup c content reasoning ∨
      orNone content = none ∧ ∃ found : Except ProviderError (List ToolCall × Option String),
        ∀ blank, orNone blank = none →
          recoverMarkup c blank reasoning = found.map fun r => (r.1, blank, r.2) := by
  cases htext : orNone content with
  | some text =>
      left
      rw [(orNone_eq_some.mp htext).1]
  | none =>
      right
      refine ⟨rfl, ?_⟩
      let found : Except ProviderError (List ToolCall × Option String) := do
        if (orNone reasoning).isNone then return ([], reasoning)
        let (markupCalls, cleaned) ← extractMarkupToolCalls c reasoning
        if markupCalls ≠ [] then return (markupCalls, cleaned)
        return ([], reasoning)
      refine ⟨found, fun blank hblank => ?_⟩
      have hnothing : extractMarkupToolCalls c blank = .ok ([], blank) := by
        simp [extractMarkupToolCalls, hblank]
      simp only [recoverMarkup, hnothing, found]
      cases extractMarkupToolCalls c reasoning with
      | error e => by_cases hr : (orNone reasoning).isNone <;> simp [hr, bind, Except.bind,
          pure, Except.pure, Except.map]
      | ok r =>
          by_cases hr : (orNone reasoning).isNone <;> by_cases hcalls : r.1 = [] <;>
            simp [hr, hcalls, bind, Except.bind, pure, Except.pure, Except.map]

/-- **Nothing else of a response depends on how a provider writes a missing text.** -/
theorem buildChatResponse_unblank (c : Codec) (content reasoning : Option String)
    (toolCalls : List ToolCall) (finishReason providerModel : Option String)
    (usageSource : Option Json) (usageMessage : ChatMessage) (requestMessages tools : List Json)
    (refusal : Option String) :
    (buildChatResponse c (orNone content) reasoning toolCalls finishReason providerModel usageSource
        usageMessage requestMessages tools (orNone refusal)).map LLMResponse.unblank
      = (buildChatResponse c content reasoning toolCalls finishReason providerModel usageSource
        usageMessage requestMessages tools refusal).map LLMResponse.unblank := by
  unfold buildChatResponse
  rw [useRefusal_orNone]
  cases hrefused : useRefusal content refusal with
  | true =>
      simp [bind, Except.bind, pure, Except.pure, Except.map, LLMResponse.unblank,
        orNone_rescueEmptyTurn]
  | false =>
      by_cases hcalls : toolCalls = []
      · cases recoverMarkup_orNone c content reasoning with
        | inl hsame =>
            simp [hsame, hcalls]
        | inr hblank =>
            obtain ⟨hnone, found, hfound⟩ := hblank
            rw [hfound (orNone content) (by rw [orNone_orNone, hnone]), hfound content hnone]
            cases found with
            | error e => simp [hcalls, bind, Except.bind, Except.map]
            | ok r =>
                simp [hcalls, bind, Except.bind, pure, Except.pure, Except.map,
                  LLMResponse.unblank, orNone_rescueEmptyTurn]
      · simp [hcalls, bind, Except.bind, pure, Except.pure, Except.map, LLMResponse.unblank,
          orNone_rescueEmptyTurn]

/-- Whether a response is built does not depend on the reply that is estimated. -/
theorem buildChatResponse_outcome (c : Codec) (content reasoning : Option String)
    (toolCalls : List ToolCall) (finishReason providerModel : Option String)
    (usageSource : Option Json) (usageMessage usageMessage' : ChatMessage)
    (requestMessages tools : List Json) (refusal : Option String) :
    (buildChatResponse c content reasoning toolCalls finishReason providerModel usageSource
        usageMessage requestMessages tools refusal).map (fun _ => ())
      = (buildChatResponse c content reasoning toolCalls finishReason providerModel usageSource
        usageMessage' requestMessages tools refusal).map (fun _ => ()) := by
  unfold buildChatResponse
  simp only
  split
  · cases recoverMarkup c content reasoning with
    | error e => rfl
    | ok r => rfl
  · rfl

/-- What a response says of its usage is what was read for it. -/
theorem buildChatResponse_estimated {c : Codec} {content reasoning : Option String}
    {toolCalls : List ToolCall} {finishReason providerModel : Option String}
    {usageSource : Option Json} {usageMessage : ChatMessage} {requestMessages tools : List Json}
    {refusal : Option String} {response : LLMResponse}
    (h : buildChatResponse c content reasoning toolCalls finishReason providerModel usageSource
      usageMessage requestMessages tools refusal = .ok response) :
    response.usage.estimated = !usageReported c usageSource usageMessage := by
  rw [← parseUsage_estimated c usageSource requestMessages usageMessage tools]
  unfold buildChatResponse at h
  simp only at h
  split at h
  · obtain ⟨found, -, hbuilt⟩ := Lib.bind_eq_ok.mp h
    rw [← Except.ok.inj hbuilt]
  · obtain ⟨found, -, hbuilt⟩ := Lib.bind_eq_ok.mp h
    rw [← Except.ok.inj hbuilt]

theorem buildChatResponse_congr (c : Codec) (content reasoning : Option String)
    (toolCalls : List ToolCall) (finishReason providerModel : Option String)
    (usageSource : Option Json) {usageMessage usageMessage' : ChatMessage}
    (requestMessages tools : List Json) (refusal : Option String)
    (h : producedNothing usageMessage = producedNothing usageMessage')
    (hreported : usageReported c usageSource usageMessage = true) :
    buildChatResponse c content reasoning toolCalls finishReason providerModel usageSource
        usageMessage requestMessages tools refusal
      = buildChatResponse c content reasoning toolCalls finishReason providerModel usageSource
        usageMessage' requestMessages tools refusal := by
  simp only [buildChatResponse, parseUsage_congr c usageSource requestMessages tools h hreported]

end OpenCollab.Chat
