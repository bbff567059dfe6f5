import OpenCollab.Provider.AnthropicInput
import OpenCollab.Session.History

/-!
# OpenCollab.Provider.AnthropicOutput

`_parse_response` of `anthropic_provider.py`: what a response becomes in the history, and
what of it goes back to the provider in the next request.

* `Reading.parsed` — what the loop over the blocks has read;
* `parsed_replayed` — a response is sent back block by block as it came, the rejected
  thinking apart;
* `remembered_exchanged` — a view of the history whose thinking was dropped is still a
  request in which every call is answered.
-/

namespace OpenCollab.Anthropic

open Lib
open Chat (orNone rescueEmptyTurn)
open Responses (hasType)
open Thinking (anthropicContent isThinkingBlock withoutThinking stripAnthropicThinking
  editedAnthropicHistory rememberAnthropicHistory)

/-! ## responses -/

/-- A block of a response: its attributes, and what `model_dump` makes of it where there
is one. -/
structure ContentBlock where
  type : String
  text : Json := .null
  thinking : Json := .null
  signature : Json := .null
  data : Json := .str ""
  id : Option String := none
  name : Option String := none
  input : Option Json := none
  modelDump : Option Json := none

/-- The usage of a response; a counter that is absent or `None` is `none`. -/
structure Counters where
  inputTokens : Option Int := none
  cacheReadInputTokens : Option Int := none
  cacheCreationInputTokens : Option Int := none
  outputTokens : Option Int := none
  outputTokensDetails : Json := .null

/-- A response of the Messages API. -/
structure Reply where
  content : List ContentBlock
  usage : Counters := {}
  stopReason : Option String := none
  model : Json := .null

/-- Why a response cannot be read: an attribute is missing, or a counter is no number. -/
inductive OutputError where
  | attributeError
  | valueError
deriving DecidableEq, Repr

abbrev Parsing := Except OutputError

/-- A parsed response, with the counter and the state that only this provider has. -/
structure LLMResponse extends Chat.LLMResponse where
  cacheCreationTokens : Int := 0
  providerState : Json := .null

/-! ## blocks -/

/-- `_text_or_empty`. -/
def textOrEmpty (value : Json) : String := value.asStr?.getD ""

/-- A dumped block, its text in order. -/
def normalizePayload (payload : Json) : Json :=
  if payload.get "type" = .str "text" then
    payload.set "text" (.str (textOrEmpty (payload.get "text")))
  else if payload.get "type" = .str "thinking" then
    payload.set "thinking" (.str (textOrEmpty (payload.get "thinking")))
  else payload

/-- The block of a `tool_use`, or of anything else that cannot be dumped. -/
def serializeToolUse (block : ContentBlock) : Parsing Json :=
  match block.id, block.name, block.input with
  | some id, some name, some input =>
      pure (.obj [("type", .str "tool_use"), ("id", .str id), ("name", .str name),
        ("input", input)])
  | _, _, _ => throw .attributeError

/-- The attributes of a block that cannot be dumped. -/
def serializeAttributes (block : ContentBlock) : Parsing Json :=
  if block.type = "text" then pure (textBlock (textOrEmpty block.text))
  else if block.type = "thinking" then
    let payload := [("type", .str "thinking"), ("thinking", .str (textOrEmpty block.thinking))]
    pure (.obj (if block.signature = .null then payload
      else payload ++ [("signature", block.signature)]))
  else if block.type = "redacted_thinking" then
    pure (.obj [("type", .str "redacted_thinking"), ("data", block.data)])
  else serializeToolUse block

/-- `_serialize_content_block`; a block is no dict, it has attributes. -/
def serializeContentBlock (block : ContentBlock) : Parsing Json :=
  match block.modelDump with
  | some (.obj payload) => pure (normalizePayload (.obj payload))
  | _ => serializeAttributes block

/-! ## usage -/

/-- `_parse_usage`: the cached portions are part of the input. -/
def parseUsage (toInt : Json → Option Int) (usage : Counters) : Parsing (Chat.Usage × Int) := do
  let cacheRead := usage.cacheReadInputTokens.getD 0
  let cacheCreation := usage.cacheCreationInputTokens.getD 0
  let uncachedInput := usage.inputTokens.getD 0
  let output := usage.outputTokens.getD 0
  let reasoning ← match usage.outputTokensDetails.get "thinking_tokens" with
    | .null => pure none
    | tokens => match toInt tokens with
      | some n => pure (some (max 0 n))
      | none => throw .valueError
  pure ({
    inputTokens := uncachedInput + cacheRead + cacheCreation
    outputTokens := output
    cacheReadTokens := cacheRead
    reasoningTokens := reasoning
    rawUsage := .obj [("input_tokens", .int uncachedInput), ("output_tokens", .int output),
      ("cache_read_input_tokens", .int cacheRead),
      ("cache_creation_input_tokens", .int cacheCreation),
      ("output_tokens_details", usage.outputTokensDetails)] }, cacheCreation)

/-! ## the loop -/

/-- The locals of `_parse_response`. -/
structure Reading where
  content : String := ""
  thinkingText : String := ""
  providerContent : List Json := []
  hasThinking : Bool := false
  toolCalls : List ToolCall := []

/-- What a block says beside its payload. -/
def Reading.read (jsonDumps : Json → String) (s : Reading) (block : ContentBlock) :
    Parsing Reading :=
  if block.type = "text" then pure { s with content := s.content ++ textOrEmpty block.text }
  else if block.type = "thinking" then
    pure { s with thinkingText := s.thinkingText ++ textOrEmpty block.thinking, hasThinking := true }
  else if block.type = "redacted_thinking" then pure { s with hasThinking := true }
  else if block.type = "tool_use" then
    match block.id, block.name, block.input with
    | some id, some name, some input =>
        pure { s with toolCalls := s.toolCalls ++ [⟨id, name, jsonDumps input⟩] }
    | _, _, _ => throw .attributeError
  else pure s

/-- The body of the loop. -/
def Reading.add (jsonDumps : Json → String) (s : Reading) (block : ContentBlock) :
    Parsing Reading := do
  let payload ← serializeContentBlock block
  Reading.read jsonDumps { s with providerContent := s.providerContent ++ [payload] } block

/-- `_parse_response`. -/
def parseResponse (jsonDumps : Json → String) (toInt : Json → Option Int) (reply : Reply) :
    Parsing LLMResponse := do
  let s ← reply.content.foldlM (Reading.add jsonDumps) {}
  let reasoning := if s.thinkingText = "" then none else some s.thinkingText
  let (usage, cacheCreation) ← parseUsage toInt reply.usage
  pure {
    content := orNone (rescueEmptyTurn (some s.content) s.toolCalls reasoning)
    toolCalls := s.toolCalls
    usage := usage
    finishReason := reply.stopReason
    reasoning := reasoning
    providerModel := orNone reply.model.asStr?
    cacheCreationTokens := cacheCreation
    providerState :=
      if s.hasThinking || s.toolCalls ≠ [] then
        .obj [("anthropic_content", .arr s.providerContent)]
      else .null }

/-- A parsed response, as the session reads it. -/
def LLMResponse.received (r : LLMResponse) : Response where
  content := r.content
  toolCalls := r.toolCalls
  finishReason := r.finishReason
  usage :=
    { inputTokens := .int r.usage.inputTokens
      totalTokens := .int (r.usage.inputTokens + r.usage.outputTokens)
      outputTokens := .int r.usage.outputTokens }
  reasoning := r.reasoning.getD ""
  providerState := r.providerState

/-- A block is dumped as what it is: type and id are those of its attributes. -/
structure ContentBlock.Faithful (block : ContentBlock) : Prop where
  dump : ∃ items, block.modelDump = some (.obj items) ∧
    (Json.obj items).get "type" = .str block.type ∧
    ∀ id, block.id = some id → block.type = "tool_use" → (Json.obj items).get "id" = .str id
  answer : block.type ≠ "tool_result"

/-- A block of native thinking. -/
def ContentBlock.isThinking (block : ContentBlock) : Bool :=
  block.type = "thinking" || block.type = "redacted_thinking"

/-! ## reading the blocks -/

variable {jsonDumps : Json → String} {toInt : Json → Option Int} {jsonLoads : String → JsonLoads}
  {block : ContentBlock} {payload : Json} {s s' : Reading}

theorem get_normalizePayload {key : String} (htext : key ≠ "text") (hthinking : key ≠ "thinking") :
    (normalizePayload payload).get key = payload.get key := by
  unfold normalizePayload Json.get
  split
  · rw [Json.get?_set_ne _ _ htext]
  · split
    · rw [Json.get?_set_ne _ _ hthinking]
    · rfl

/-- A block that is dumped as what it is makes the call it is. -/
theorem serialized (hfaithful : block.Faithful)
    (h : serializeContentBlock block = .ok payload) :
    payload.get "type" = .str block.type ∧
      ∀ id, block.id = some id → block.type = "tool_use" → payload.get "id" = .str id := by
  obtain ⟨items, hdump, htype, hid⟩ := hfaithful.dump
  simp only [serializeContentBlock, hdump, pure, Except.pure, Except.ok.injEq] at h
  subst h
  rw [get_normalizePayload (by decide) (by decide), get_normalizePayload (by decide) (by decide)]
  exact ⟨htype, hid⟩

/-- What was read of the first blocks of a response. -/
structure Reading.Parsed (s : Reading) (blocks : List ContentBlock) : Prop where
  payloads : blocks.mapM serializeContentBlock = .ok s.providerContent
  calls : s.providerContent.filterMap toolUse? = s.toolCalls.map (Json.str ∘ ToolCall.id)
  answers : s.providerContent.filter (hasType · "tool_result") = []
  thinking : s.hasThinking = blocks.any ContentBlock.isThinking

theorem mapM_concat {blocks : List ContentBlock} {payloads : List Json}
    (h : blocks.mapM serializeContentBlock = .ok payloads)
    (hblock : serializeContentBlock block = .ok payload) :
    (blocks ++ [block]).mapM serializeContentBlock = .ok (payloads ++ [payload]) := by
  rw [List.mapM_append, h]
  simp [hblock, bind, Except.bind, pure, Except.pure]

/-- One more block. -/
theorem Reading.Parsed.add {blocks : List ContentBlock} (hs : s.Parsed blocks)
    (hfaithful : block.Faithful) (h : s.add jsonDumps block = .ok s') :
    s'.Parsed (blocks ++ [block]) := by
  simp only [Reading.add, bind_eq_ok] at h
  obtain ⟨payload, hpayload, h⟩ := h
  obtain ⟨htype, hid⟩ := serialized hfaithful hpayload
  have hpayloads := mapM_concat hs.payloads hpayload
  have hanswer : hasType payload "tool_result" = false := by
    simp [hasType, htype, hfaithful.answer]
  have hanswers : (s.providerContent ++ [payload]).filter (hasType · "tool_result") = [] := by
    simp [hs.answers, hanswer]
  have hcalls (hnot : block.type ≠ "tool_use") :
      (s.providerContent ++ [payload]).filterMap toolUse? =
        s.toolCalls.map (Json.str ∘ ToolCall.id) := by
    simp [hs.calls, toolUse?, hasType, htype, hnot]
  unfold Reading.read at h
  split at h
  · rename_i hblock
    cases h
    exact ⟨hpayloads, hcalls (by simp [hblock]), hanswers,
      by simp [hs.thinking, ContentBlock.isThinking, hblock]⟩
  split at h
  · rename_i hblock
    cases h
    exact ⟨hpayloads, hcalls (by simp [hblock]), hanswers,
      by simp [ContentBlock.isThinking, hblock]⟩
  split at h
  · rename_i hblock
    cases h
    exact ⟨hpayloads, hcalls (by simp [hblock]), hanswers,
      by simp [ContentBlock.isThinking, hblock]⟩
  have hplain : block.isThinking = false := by simp [ContentBlock.isThinking, *]
  split at h
  · rename_i hblock
    split at h
    · rename_i id name input hsome hname hinput
      cases h
      refine ⟨hpayloads, ?_, hanswers, by simp [hs.thinking, hplain]⟩
      simp [hs.calls, toolUse?, hasType, htype, hblock, hid id hsome hblock]
    · contradiction
  · rename_i hblock
    cases h
    exact ⟨hpayloads, hcalls hblock, hanswers, by simp [hs.thinking, hplain]⟩

theorem Reading.parsed {blocks : List ContentBlock} (hfaithful : ∀ block ∈ blocks, block.Faithful)
    (h : blocks.foldlM (Reading.add jsonDumps) {} = .ok s) : s.Parsed blocks := by
  induction blocks using List.reverseRecOn generalizing s with
  | nil =>
      cases h
      exact ⟨rfl, rfl, rfl, rfl⟩
  | append_singleton blocks block ih =>
      rw [List.foldlM_append, bind_eq_ok] at h
      obtain ⟨before, hbefore, h⟩ := h
      rw [List.foldlM_cons, bind_eq_ok] at h
      obtain ⟨next, hnext, h⟩ := h
      cases h
      have hparsed := ih (fun block hblock => hfaithful block (by simp [hblock])) hbefore
      exact hparsed.add (hfaithful block (by simp)) hnext

/-! ## the stored message -/

variable {m : Message} {blocks : List Json} {index : Nat}

theorem toolUse?_thinking {block : Json} (h : isThinkingBlock block = true) :
    toolUse? block = none := by
  simp only [isThinkingBlock, Bool.or_eq_true, decide_eq_true_eq] at h
  obtain h | h := h <;> simp [toolUse?, hasType, h]

/-- Thinking makes no calls. -/
theorem toolUses_withoutThinking (blocks : List Json) :
    (blocks.filter (!isThinkingBlock ·)).filterMap toolUse? = blocks.filterMap toolUse? := by
  induction blocks with
  | nil => rfl
  | cons block blocks ih =>
      cases hthinking : isThinkingBlock block with
      | true =>
          rw [List.filter_cons_of_neg (by simp [hthinking]),
            List.filterMap_cons_none (toolUse?_thinking hthinking), ih]
      | false =>
          rw [List.filter_cons_of_pos (by simp [hthinking]), List.filterMap_cons,
            List.filterMap_cons, ih]

theorem anthropicContent_withoutThinking (m : Message) :
    anthropicContent (withoutThinking m) =
      (anthropicContent m).map fun blocks => blocks.filter (!isThinkingBlock ·) := by
  unfold withoutThinking
  cases hnative : anthropicContent m with
  | none => simp [hnative]
  | some blocks =>
      dsimp only
      split
      · obtain ⟨items, hitems⟩ : ∃ items, m.providerState = .obj items := by
          unfold anthropicContent Json.get Json.get? at hnative
          cases hstate : m.providerState with
          | obj items => exact ⟨items, rfl⟩
          | _ => simp [hstate, Json.asArr?] at hnative
        simp [anthropicContent, hitems, Json.set, Json.get, Json.get?, Json.asArr?]
      · rename_i hlength
        have hall : blocks.filter (!isThinkingBlock ·) = blocks :=
          List.filter_sublist.eq_of_length (not_not.mp hlength)
        rw [hnative, Option.map_some, hall]

/-- A message without native content makes its calls. -/
theorem mirrors_of_none (h : anthropicContent m = none) : Mirrors m := by
  intro blocks _ hblocks
  rw [h] at hblocks
  contradiction

theorem convert_native (h : anthropicContent m = some blocks) :
    convertAssistantContent jsonLoads index m = .ok blocks := by
  unfold convertAssistantContent
  rw [h]
  rfl

theorem convert_text {text : String} (hnative : anthropicContent m = none)
    (hcontent : m.content = some (.str text)) (htext : text ≠ "") (hcalls : m.toolCalls = []) :
    convertAssistantContent jsonLoads index m = .ok [textBlock text] := by
  simp [convertAssistantContent, hnative, assistantContent, hcontent, normalizeOpenaiContent,
    htext, hcalls, bind, Except.bind, pure, Except.pure]

/-- A text that can be seen is not empty. -/
theorem visible?_ne {r : Response} {text : String} (h : r.visible? = some text) : text ≠ "" := by
  simp only [Response.visible?, Option.filter_eq_some_iff] at h
  obtain ⟨-, hblank⟩ := h
  rintro rfl
  simp [isBlank] at hblank

/-- The parsed response keeps the native content where there is thinking or a call. -/
theorem parsed_state {reply : Reply} {r : LLMResponse}
    (hfaithful : ∀ block ∈ reply.content, block.Faithful)
    (hparsed : parseResponse jsonDumps toInt reply = .ok r) :
    ∃ s : Reading, s.Parsed reply.content ∧ r.toolCalls = s.toolCalls ∧
      r.providerState =
        if r.toolCalls ≠ [] ∨ reply.content.any ContentBlock.isThinking = true then
          .obj [("anthropic_content", .arr s.providerContent)]
        else .null := by
  simp only [parseResponse, bind_eq_ok] at hparsed
  obtain ⟨s, hfold, usage, -, h⟩ := hparsed
  cases h
  have hs := Reading.parsed hfaithful hfold
  refine ⟨s, hs, rfl, ?_⟩
  simp [hs.thinking, or_comm]

/-- A response that was not cut off is stored with its calls and its state. -/
theorem stored_whole {r : Response} (h : assistantMessage? r = some m)
    (hwhole : r.isTruncated = false) :
    m.content = r.visible?.map Json.str ∧ m.toolCalls = r.toolCalls ∧
      m.providerState = (if r.providerState.truthy then r.providerState else .null) ∧
      (r.toolCalls = [] → ∃ text, r.visible? = some text) := by
  unfold assistantMessage? at h
  rw [hwhole, if_neg Bool.false_ne_true] at h
  split at h
  · contradiction
  rename_i hsays
  cases h
  refine ⟨rfl, rfl, rfl, fun hnone => ?_⟩
  rw [hnone] at hsays
  exact Option.ne_none_iff_exists'.mp (by simpa using hsays)

/-- One that was cut off is stored as its text. -/
theorem stored_cut {r : Response} (h : assistantMessage? r = some m)
    (hcut : r.isTruncated = true) :
    ∃ text, r.visible? = some text ∧ m = .ofText .assistant text := by
  unfold assistantMessage? at h
  rw [hcut, if_pos rfl, Option.map_eq_some_iff] at h
  obtain ⟨text, hvisible, hm⟩ := h
  exact ⟨text, hvisible, hm.symm⟩

/-- **A response goes back to the provider as it came.**  With thinking or calls in it, its
blocks are sent block by block, and without the thinking where that was dropped; any other
response, and one that was cut off, is sent as its text. -/
theorem parsed_replayed (jsonLoads : String → JsonLoads) {reply : Reply} {r : LLMResponse}
    (hfaithful : ∀ block ∈ reply.content, block.Faithful)
    (hparsed : parseResponse jsonDumps toInt reply = .ok r) {m : Message}
    (hstored : assistantMessage? r.received = some m) :
    Mirrors m ∧
    if r.received.isTruncated = false ∧
        (r.toolCalls ≠ [] ∨ reply.content.any ContentBlock.isThinking = true) then
      ∃ payloads, reply.content.mapM serializeContentBlock = .ok payloads ∧ ∀ index,
        convertAssistantContent jsonLoads index m = .ok payloads ∧
        convertAssistantContent jsonLoads index (withoutThinking m) =
          .ok (payloads.filter (!isThinkingBlock ·))
    else
      ∃ text, m.content = some (.str text) ∧ m.toolCalls = [] ∧ ∀ index,
        convertAssistantContent jsonLoads index m = .ok [textBlock text] := by
  obtain ⟨s, hs, hcalls, hstate⟩ := parsed_state hfaithful hparsed
  cases hcut : r.received.isTruncated with
  | true =>
      obtain ⟨text, hvisible, rfl⟩ := stored_cut hstored hcut
      have hnative : anthropicContent (Message.ofText .assistant text) = none := rfl
      rw [if_neg (by simp)]
      exact ⟨mirrors_of_none hnative, text, rfl, rfl, fun index =>
        convert_text hnative rfl (visible?_ne hvisible) rfl⟩
  | false =>
      obtain ⟨hcontent, hsame, hprovider, hvisible⟩ := stored_whole hstored hcut
      change m.toolCalls = r.toolCalls at hsame
      change m.providerState = if r.providerState.truthy then r.providerState else .null
        at hprovider
      by_cases hkept : r.toolCalls ≠ [] ∨ reply.content.any ContentBlock.isThinking = true
      · rw [if_pos ⟨rfl, hkept⟩]
        rw [if_pos hkept] at hstate
        have hnative : anthropicContent m = some s.providerContent := by
          simp [anthropicContent, hprovider, hstate, Json.truthy, Json.get, Json.get?, Json.asArr?]
        have hids : m.callIds.map .str = s.toolCalls.map (Json.str ∘ ToolCall.id) := by
          rw [Message.callIds, hsame, hcalls, List.map_map]
        refine ⟨fun blocks _ hblocks => ?_, s.providerContent, hs.payloads, fun index => ?_⟩
        · obtain rfl : s.providerContent = blocks := Option.some.inj (hnative.symm.trans hblocks)
          exact ⟨hs.calls.trans hids.symm, hs.answers⟩
        · refine ⟨convert_native hnative, convert_native ?_⟩
          rw [anthropicContent_withoutThinking, hnative]
          rfl
      · rw [if_neg fun h => hkept h.2]
        rw [if_neg hkept] at hstate
        rw [not_or, not_not] at hkept
        have hnative : anthropicContent m = none := by
          simp [anthropicContent, hprovider, hstate, Json.truthy, Json.get, Json.get?, Json.asArr?]
        obtain ⟨text, htext⟩ := hvisible hkept.1
        have hmessage : m.content = some (.str text) := by rw [hcontent, htext, Option.map_some]
        refine ⟨mirrors_of_none hnative, text, hmessage, hsame.trans hkept.1, fun index => ?_⟩
        exact convert_text hnative hmessage (visible?_ne htext) (hsame.trans hkept.1)

/-- A response that thinks, and calls a tool. -/
def thinkingReply : Reply where
  content :=
    [{ type := "thinking", thinking := .str "so", modelDump := nativeCall[0]? },
      { type := "tool_use", id := some "a", name := some "ls", input := some (.obj []),
        modelDump := nativeCall[1]? }]
  stopReason := some "tool_use"

/-- What it is parsed to. -/
def thinkingResponse : LLMResponse where
  toolCalls := [⟨"a", "ls", "\x7b\x7d"⟩]
  usage := { rawUsage := .obj [("input_tokens", .int 0), ("output_tokens", .int 0),
    ("cache_read_input_tokens", .int 0), ("cache_creation_input_tokens", .int 0),
    ("output_tokens_details", .null)] }
  finishReason := some "tool_use"
  reasoning := some "so"
  providerState := .obj [("anthropic_content", .arr nativeCall)]

/-- What is stored of it. -/
def thinkingMessage : Message where
  role := .assistant
  toolCalls := [⟨"a", "ls", "\x7b\x7d"⟩]
  reasoningContent := some "so"
  providerState := .obj [("anthropic_content", .arr nativeCall)]

theorem parsed_replayed_sample :
    Mirrors thinkingMessage ∧
    if thinkingResponse.received.isTruncated = false ∧ (thinkingResponse.toolCalls ≠ [] ∨
        thinkingReply.content.any ContentBlock.isThinking = true) then
      ∃ payloads, thinkingReply.content.mapM serializeContentBlock = .ok payloads ∧ ∀ index,
        convertAssistantContent noArguments index thinkingMessage = .ok payloads ∧
        convertAssistantContent noArguments index (withoutThinking thinkingMessage) =
          .ok (payloads.filter (!isThinkingBlock ·))
    else
      ∃ text, thinkingMessage.content = some (.str text) ∧ thinkingMessage.toolCalls = [] ∧
        ∀ index, convertAssistantContent noArguments index thinkingMessage =
          .ok [textBlock text] :=
  @parsed_replayed (fun _ => "\x7b\x7d") (fun value => value.asInt?) noArguments thinkingReply
    thinkingResponse
    (by
      intro block hblock
      simp only [thinkingReply, List.mem_cons, List.not_mem_nil, or_false] at hblock
      obtain rfl | rfl := hblock
      · exact ⟨⟨_, rfl, rfl, fun id hid => by contradiction⟩, by decide⟩
      · refine ⟨⟨_, rfl, rfl, fun id hid _ => ?_⟩, by decide⟩
        cases hid
        rfl)
    rfl thinkingMessage rfl

/-! ## views without thinking -/

/-- What an edit of a view leaves of a message. -/
def bare (m : Message) : Message := { m with providerState := .null }

theorem bare_withoutThinking (m : Message) : bare (withoutThinking m) = bare m := by
  unfold withoutThinking
  cases anthropicContent m with
  | none => rfl
  | some blocks =>
      dsimp only
      split <;> rfl

theorem map_bare_strip (messages : List Message) (start : Nat) :
    (stripAnthropicThinking messages start).map bare = messages.map bare := by
  have hdrop : ((messages.drop start).map withoutThinking).map bare =
      (messages.drop start).map bare := by
    rw [List.map_map]
    exact List.map_congr_left fun m _ => bare_withoutThinking m
  rw [stripAnthropicThinking, List.map_append, hdrop, ← List.map_append, List.take_append_drop]

theorem map_bare_edited (before after : List Message) :
    (editedAnthropicHistory before after).map bare = after.map bare := by
  unfold editedAnthropicHistory
  split
  · exact map_bare_strip after 0
  · split
    · exact map_bare_strip after _
    · rfl

theorem map_bare_remembered (w : Thinking.World) (messages : List Message)
    (tools : Option (List Json)) :
    (rememberAnthropicHistory w messages tools).2.map bare = messages.map bare := by
  unfold rememberAnthropicHistory
  dsimp only
  split
  · exact map_bare_edited _ _
  · split
    · rw [map_bare_strip, map_bare_edited, map_bare_edited]
    · rw [map_bare_edited, map_bare_edited]

section Kept

variable {P : Message → Prop} (hP : ∀ m, P m → P (withoutThinking m)) {messages : List Message}

include hP

theorem forall_strip (h : ∀ m ∈ messages, P m) (start : Nat) :
    ∀ m ∈ stripAnthropicThinking messages start, P m := by
  intro m hm
  obtain hm | hm := List.mem_append.mp hm
  · exact h m (List.mem_of_mem_take hm)
  · obtain ⟨whole, hwhole, rfl⟩ := List.mem_map.mp hm
    exact hP whole (h whole (List.mem_of_mem_drop hwhole))

theorem forall_edited (before : List Message) (h : ∀ m ∈ messages, P m) :
    ∀ m ∈ editedAnthropicHistory before messages, P m := by
  unfold editedAnthropicHistory
  split
  · exact forall_strip hP h 0
  · split
    · exact forall_strip hP h _
    · exact h

theorem forall_remembered (w : Thinking.World) (tools : Option (List Json))
    (h : ∀ m ∈ messages, P m) : ∀ m ∈ (rememberAnthropicHistory w messages tools).2, P m := by
  unfold rememberAnthropicHistory
  dsimp only
  split
  · exact forall_edited hP _ h
  · split
    · exact forall_strip hP (forall_edited hP _ (forall_edited hP _ h)) 0
    · exact forall_edited hP _ (forall_edited hP _ h)

end Kept

theorem role_withoutThinking (m : Message) : (withoutThinking m).role = m.role := by
  have h := congrArg Message.role (bare_withoutThinking m)
  exact h

theorem toolCalls_withoutThinking (m : Message) : (withoutThinking m).toolCalls = m.toolCalls := by
  have h := congrArg Message.toolCalls (bare_withoutThinking m)
  exact h

theorem content_withoutThinking (m : Message) : (withoutThinking m).content = m.content := by
  have h := congrArg Message.content (bare_withoutThinking m)
  exact h

theorem mirrors_withoutThinking (h : Mirrors m) : Mirrors (withoutThinking m) := by
  intro blocks hrole hblocks
  rw [role_withoutThinking] at hrole
  rw [anthropicContent_withoutThinking, Option.map_eq_some_iff] at hblocks
  obtain ⟨whole, hwhole, rfl⟩ := hblocks
  obtain ⟨huses, hanswers⟩ := h whole hrole hwhole
  rw [toolUses_withoutThinking, huses, Message.callIds, Message.callIds, toolCalls_withoutThinking]
  refine ⟨rfl, ?_⟩
  rw [List.filter_eq_nil_iff] at hanswers ⊢
  exact fun block hblock => hanswers block (List.mem_of_mem_filter hblock)

theorem convertible_withoutThinking (h : Convertible jsonLoads m) :
    Convertible jsonLoads (withoutThinking m) := by
  have hcontent : assistantContent (withoutThinking m) = assistantContent m := by
    rw [assistantContent, assistantContent, content_withoutThinking]
  have hsent : contentOf (withoutThinking m) = contentOf m := by
    rw [contentOf, contentOf, content_withoutThinking]
  unfold Convertible at h ⊢
  rw [role_withoutThinking, anthropicContent_withoutThinking, hcontent, hsent,
    toolCalls_withoutThinking, Option.isSome_map]
  exact h

/-! ## groups of what an edit leaves -/

theorem groupsFrom_bare (cur : Group) (isOpen : Bool) (messages : List Message) :
    groupsFrom (cur.map bare) isOpen (messages.map bare) =
      (groupsFrom cur isOpen messages).map (List.map bare) := by
  induction messages generalizing cur isOpen with
  | nil => rfl
  | cons m messages ih =>
      have htool : (bare m).isTool = m.isTool := rfl
      have hopens : (bare m).opensExchange = m.opensExchange := rfl
      rw [List.map_cons, groupsFrom, groupsFrom, htool, hopens]
      split
      · rw [← ih, List.map_append]
        rfl
      · rw [List.map_cons, ← ih]
        rfl

theorem groupValid_bare (g : Group) : GroupValid (g.map bare) ↔ GroupValid g := by
  cases g with
  | nil => rfl
  | cons m rest =>
      have hopens : (bare m).opensExchange = m.opensExchange := rfl
      have hids : (rest.map bare).map Message.toolCallId = rest.map Message.toolCallId := by
        rw [List.map_map]
        rfl
      have hanswers : Answers (bare m) (rest.map bare) ↔ Answers m rest := by
        constructor
        · intro ⟨hnodup, hnonempty, htools, hpaired⟩
          exact ⟨hnodup, hnonempty, fun r hr => htools (bare r) (List.mem_map_of_mem hr),
            hids ▸ hpaired⟩
        · intro ⟨hnodup, hnonempty, htools, hpaired⟩
          refine ⟨hnodup, hnonempty, fun r hr => ?_, hids.symm ▸ hpaired⟩
          obtain ⟨whole, hwhole, rfl⟩ := List.mem_map.mp hr
          exact htools whole hwhole
      simp only [List.map_cons, GroupValid, hopens, hanswers, List.map_eq_nil_iff]
      rfl

theorem protocolValid_bare (messages : List Message) :
    ProtocolValid (messages.map bare) ↔ ProtocolValid messages := by
  have hgroups : groups (messages.map bare) = (groups messages).map (List.map bare) := by
    cases messages with
    | nil => rfl
    | cons m messages => exact groupsFrom_bare [m] m.opensExchange messages
  simp only [ProtocolValid, hgroups, List.forall_mem_map, groupValid_bare]

/-- What is sent of a history does not depend on its native state. -/
theorem Sent.of_bare {messages messages' : List Message} {turns : List Turn}
    (h : Sent messages turns) (hbare : messages.map bare = messages'.map bare) :
    Sent messages' turns := by
  have hcalls (messages : List Message) :
      messages.flatMap callsOf = (messages.map bare).flatMap callsOf := by
    rw [List.flatMap_map]
    rfl
  have hresults (messages : List Message) :
      (messages.filter Message.isTool).map resultBlock =
        ((messages.map bare).filter Message.isTool).map resultBlock := by
    rw [List.filter_map, List.map_map]
    rfl
  exact ⟨h.exchanged, by rw [h.toolUses, hcalls, hbare, ← hcalls],
    by rw [h.results, hresults, hbare, ← hresults]⟩

/-- **Thinking is dropped without a call or a result**: whatever the view remembered last was,
the view of a history that can be converted can be, and the request holds every call of the
history, answered by the message behind it. -/
theorem remembered_exchanged (jsonLoads : String → JsonLoads) (w : Thinking.World)
    (tools : Option (List Json)) {messages : List Message} (hvalid : ProtocolValid messages)
    (hmirrors : ∀ m ∈ messages, Mirrors m)
    (hconvertible : ∀ m ∈ messages, Convertible jsonLoads m) :
    ∃ out, convertToAnthropicMessages jsonLoads (rememberAnthropicHistory w messages tools).2 =
      .ok out ∧ Sent messages out.2 := by
  have hbare := map_bare_remembered w messages tools
  have hkept : ∀ m ∈ (rememberAnthropicHistory w messages tools).2,
      Mirrors m ∧ Convertible jsonLoads m :=
    forall_remembered
      (fun m h => ⟨mirrors_withoutThinking h.1, convertible_withoutThinking h.2⟩) w tools
      (fun m hm => ⟨hmirrors m hm, hconvertible m hm⟩)
  have hview : ProtocolValid (rememberAnthropicHistory w messages tools).2 := by
    rwa [← protocolValid_bare, hbare, protocolValid_bare]
  obtain ⟨out, hout⟩ := convertToAnthropicMessages_isOk.mpr fun m hm => (hkept m hm).2
  have hsent := sent_of_converted hview (fun m hm => (hkept m hm).1) hout
  exact ⟨out, hout, hsent.of_bare hbare⟩

/-- A view remembered with other tools. -/
def otherTools : Thinking.World :=
  { Thinking.start replayedExchange with history := some ⟨replayedExchange, 6, none⟩ }

theorem remembered_exchanged_sample :
    ∃ out, convertToAnthropicMessages noArguments
        (rememberAnthropicHistory otherTools replayedExchange (some [])).2 = .ok out ∧
      Sent replayedExchange out.2 :=
  remembered_exchanged noArguments otherTools (some []) (by decide)
    (by
      intro m hm blocks hrole hblocks
      simp only [replayedExchange, List.mem_cons, List.not_mem_nil, or_false] at hm
      obtain rfl | rfl | rfl | rfl | rfl | rfl := hm
      · contradiction
      · obtain rfl : nativeCall = blocks := Option.some.inj hblocks
        decide
      · contradiction
      · contradiction
      · contradiction
      · contradiction)
    (by
      intro m hm
      simp only [replayedExchange, List.mem_cons, List.not_mem_nil, or_false] at hm
      obtain rfl | rfl | rfl | rfl | rfl | rfl := hm
      · trivial
      · exact .inl rfl
      · trivial
      · refine .inr ⟨trivial, fun call hcall => ⟨[], ?_⟩⟩
        simp only [List.mem_cons, List.not_mem_nil, or_false] at hcall
        obtain rfl | rfl := hcall
        · rfl
        · rfl
      · trivial
      · trivial)

end OpenCollab.Anthropic
