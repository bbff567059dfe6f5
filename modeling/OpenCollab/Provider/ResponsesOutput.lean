import OpenCollab.Provider.ChatResponse

/-!
# OpenCollab.Provider.ResponsesOutput

`adapters/llm/_responses_output.py`, and what `responses_messages.py` says of one
output item: the meaning of an item of a Responses object, and when the item a
stream delivered agrees with the one in the terminal object.

An item is plain data.  `SameReading` relates two items that are read alike under
every key the meaning depends on; an item that arrives early may still lack its
*late* field, the phase of a message or the encrypted content of a reasoning
(`Projects`):

* `outputItemsAgree_congr` — such an item agrees with its terminal form exactly if
  that form is well formed;
* `outputText_congr`, `reasoningText_congr` — and gives the same text and reasoning.
-/

namespace OpenCollab.Responses

open Chat (orNone orEmpty optionalUsageInt usageToDict rescueEmptyTurn)

/-! ## errors -/

/-- What is wrong with a Responses object or its stream (`ResponsesProtocolError`). -/
inductive Fault where
  | eventType
  | unsupportedEvent (type : String)
  | itemIndex
  | duplicateIndex (index : Int)
  | unsupportedItem
  | callId
  | duplicateCallId (callId : String)
  | missingArguments (callId : String)
  | fragmentsDisagree (callId : String)
  | missingName (callId : String)
  | deltaIncomplete
  | completionIncomplete
  | completionDisagrees
  | incompleteArguments
  | noResponse
  | status
  | terminalError
  | incompleteDetails
  | incompleteReason
  | modelIdentity
  | noOutput
  | callIdentity
  | argumentText
  | invalidJson
  | messageRole
  | messagePhase
  | contentPart
  | summaryPart
  | encryptedContent
  | interruptedCalls
  | outputDisagrees
  | forcedToolCalls
  | responseIdentity
  | forcedToolJson
deriving DecidableEq, Repr

/-- The exceptions of the two paths.  `responseError` is one that the provider reported; a
value that cannot be iterated over or hashed is a `typeError`. -/
inductive ResponsesError where
  | protocol (fault : Fault)
  | responseError (error : Json)
  | terminalEvent
  | interrupted
  | emptyOutput
  | typeError
  | recursionError
deriving DecidableEq, Repr

/-- `raise ResponsesProtocolError(…)`. -/
def refuse {α : Type} (fault : Fault) : Except ResponsesError α := .error (.protocol fault)

/-- What the two paths share that is not spelled out here: `json.dumps` with sorted keys,
the digest of a text, and the token estimates of a request that replays provider items
and of a text. -/
structure Codec extends Chat.Codec where
  jsonDumps : Json → String
  sha256 : String → String
  estimateReplayTokens : List Json → List Json → Int
  estimateTokens : String → Int

/-! ## one item -/

/-- `for x in value or ()`. -/
def elements : Json → Except ResponsesError (List Json)
  | .arr xs => .ok xs
  | .obj kvs => .ok (kvs.map fun kv => .str kv.1)
  | .str s => .ok (s.toList.map fun c => .str c.toString)
  | value => if value.truthy then .error .typeError else .ok []

/-- `isinstance(value, str) and value`. -/
def nonEmptyText (value : Json) : Option String := value.asStr?.filter (· ≠ "")

/-- `OUTPUT_ITEM_TYPES`. -/
def OUTPUT_ITEM_TYPES : List String := ["message", "reasoning", "function_call"]

/-- The value has one of the types of output items. -/
def supportedItem (item : Json) : Bool :=
  item.isObj && OUTPUT_ITEM_TYPES.any fun type => item.get "type" = .str type

/-- `item.get("type") == type`. -/
def hasType (item : Json) (type : String) : Bool := item.get "type" = .str type

/-- A call that was cut off: `type` is `function_call` and `status` is `incomplete`. -/
def isInterrupted (item : Json) : Bool :=
  hasType item "function_call" && item.get "status" = .str "incomplete"

/-- `function_call_identity`. -/
def functionCallIdentity (c : Codec) (callId name arguments : Json) :
    Except ResponsesError (String × String × String) := do
  let some callId := nonEmptyText callId | refuse .callIdentity
  let some name := nonEmptyText name | refuse .callIdentity
  let some arguments := arguments.asStr? | refuse .argumentText
  match c.jsonLoads arguments with
  | .value parsed => return (callId, name, c.jsonDumps parsed)
  | .valueError => refuse .invalidJson
  | .recursionError => .error .recursionError

/-- `validated_response_items`. -/
def validatedResponseItems (value : Json) : Except ResponsesError (List Json) := do
  let some items := value.asArr? | refuse .noOutput
  if items.all supportedItem then return items else refuse .unsupportedItem

/-- The text a part of a message shows: output text or a refusal. -/
def partText (part : Json) : Option (String × String) :=
  match part.get "type" with
  | .str "output_text" => (part.get "text").asStr?.map fun text => ("output_text", text)
  | .str "refusal" => (part.get "refusal").asStr?.map fun text => ("refusal", text)
  | _ => none

/-- `_output_text`. -/
def outputText (item : Json) : Except ResponsesError String := do
  if !hasType item "message" then return ""
  let parts ← elements (item.get "content")
  return String.join (parts.filterMap fun part => (partText part).map Prod.snd)

/-- The texts of a reasoning's parts. -/
def partTexts (parts : List Json) : List String := parts.filterMap fun part => (part.get "text").asStr?

/-- `_reasoning_text`. -/
def reasoningText (item : Json) : Except ResponsesError String := do
  if !hasType item "reasoning" then return ""
  let content ← elements (item.get "content")
  let text := "\n".intercalate (partTexts content)
  if text ≠ "" then return text
  let summary ← elements (item.get "summary")
  return "\n".intercalate (partTexts summary)

/-- The meaning that a streamed and a terminal item share. -/
inductive Meaning where
  | functionCall (callId name arguments : String)
  | message (role : String) (parts : List (String × String))
  | reasoning (summaries : List (Json × String)) (content : List String)
deriving DecidableEq, Repr

/-- A part of a message, if it is one. -/
def messagePart (part : Json) : Except ResponsesError (String × String) :=
  match partText part with
  | some text => .ok text
  | none => refuse .contentPart

/-- A part of a reasoning's content, if it is one. -/
def reasoningPart (part : Json) : Except ResponsesError String :=
  match (part.get "type", (part.get "text").asStr?) with
  | (.str "reasoning_text", some text) => .ok text
  | _ => refuse .contentPart

/-- A part of a reasoning's summary, if it is one. -/
def summaryPart (part : Json) : Except ResponsesError (Json × String) :=
  match (part.get "text").asStr? with
  | some text => .ok (part.get "type", text)
  | none => refuse .summaryPart

/-- A message's phase is missing or one of the two that are known. -/
def checkPhase : Json → Except ResponsesError Unit
  | .null => .ok ()
  | .str phase =>
      if phase = "commentary" ∨ phase = "final_answer" then .ok () else refuse .messagePhase
  | .arr _ | .obj _ => .error .typeError
  | _ => refuse .messagePhase

/-- `_semantic_output_item`. -/
def semanticOutputItem (c : Codec) (item : Json) : Except ResponsesError Meaning :=
  if hasType item "function_call" then do
    let identity ← functionCallIdentity c (item.get "call_id") (item.get "name")
      (item.get "arguments")
    return .functionCall identity.1 identity.2.1 identity.2.2
  else if hasType item "message" then do
    let some role := nonEmptyText (item.get "role") | refuse .messageRole
    checkPhase (item.get "phase")
    let parts ← (← elements (item.get "content")).mapM messagePart
    return .message role parts
  else if hasType item "reasoning" then do
    let content ← (← elements (item.get "content")).mapM reasoningPart
    let summaries ← (← elements (item.get "summary")).mapM summaryPart
    return .reasoning summaries content
  else refuse .unsupportedItem

/-- The field of an item that may be filled in late. -/
def lateField (item : Json) : Option String :=
  if hasType item "message" then some "phase"
  else if hasType item "reasoning" then some "encrypted_content"
  else none

/-- A text, or missing. -/
def isTextOrNull (value : Json) : Bool := value = .null || value.asStr?.isSome

/-- `_output_items_agree`. -/
def outputItemsAgree (c : Codec) (streamed terminal : Json) : Except ResponsesError Bool := do
  let streamedMeaning ← semanticOutputItem c streamed
  let terminalMeaning ← semanticOutputItem c terminal
  if streamedMeaning ≠ terminalMeaning then return false
  match lateField streamed with
  | none => return true
  | some field =>
      if field = "encrypted_content" &&
          !(isTextOrNull (streamed.get field) && isTextOrNull (terminal.get field)) then
        refuse .encryptedContent
      else
        return streamed.get field = .null || terminal.get field = .null ||
          streamed.get field = terminal.get field

/-- `_merge_terminal_projection`. -/
def mergeTerminalProjection (streamed terminal : Json) : Json :=
  match lateField streamed with
  | none => streamed
  | some field =>
      if streamed.get field = .null ∧ terminal.get field ≠ .null then
        streamed.set field (terminal.get field)
      else streamed

/-! ## items read alike -/

/-- The keys that the meaning of an item depends on, its late field apart. -/
def readKeys : List String :=
  ["type", "status", "call_id", "name", "arguments", "role", "content", "summary"]

/-- The items are read alike, up to their late fields. -/
def SameReading (streamed terminal : Json) : Prop :=
  ∀ key ∈ readKeys, streamed.get key = terminal.get key

/-- The streamed item is the terminal one, or lacks only its late field. -/
structure Projects (streamed terminal : Json) : Prop where
  reading : SameReading streamed terminal
  late : ∀ field, lateField terminal = some field →
    streamed.get field = .null ∨ streamed.get field = terminal.get field

theorem SameReading.refl (item : Json) : SameReading item item := fun _ _ => rfl

theorem Projects.refl (item : Json) : Projects item item :=
  ⟨SameReading.refl item, fun _ _ => Or.inr rfl⟩

variable {c : Codec} {streamed terminal : Json}

theorem hasType_congr (h : SameReading streamed terminal) (type : String) :
    hasType streamed type = hasType terminal type := by
  rw [hasType, hasType, h "type" (by decide)]

theorem isInterrupted_congr (h : SameReading streamed terminal) :
    isInterrupted streamed = isInterrupted terminal := by
  rw [isInterrupted, isInterrupted, hasType_congr h, h "status" (by decide)]

theorem lateField_congr (h : SameReading streamed terminal) :
    lateField streamed = lateField terminal := by
  rw [lateField, lateField, hasType_congr h, hasType_congr h]

theorem outputText_congr (h : SameReading streamed terminal) :
    outputText streamed = outputText terminal := by
  rw [outputText, outputText, hasType_congr h, h "content" (by decide)]

theorem reasoningText_congr (h : SameReading streamed terminal) :
    reasoningText streamed = reasoningText terminal := by
  rw [reasoningText, reasoningText, hasType_congr h, h "content" (by decide),
    h "summary" (by decide)]

/-- The meaning of a terminal item is that of the item it completes. -/
theorem semanticOutputItem_projects (h : Projects streamed terminal) {meaning : Meaning}
    (hmeaning : semanticOutputItem c terminal = .ok meaning) :
    semanticOutputItem c streamed = .ok meaning := by
  unfold semanticOutputItem at hmeaning ⊢
  simp only [hasType_congr h.reading, h.reading "call_id" (by decide), h.reading "name" (by decide),
    h.reading "arguments" (by decide), h.reading "role" (by decide), h.reading "content" (by decide),
    h.reading "summary" (by decide)]
  by_cases hcall : hasType terminal "function_call" = true
  · rw [if_pos hcall] at hmeaning ⊢
    exact hmeaning
  · rw [if_neg hcall] at hmeaning ⊢
    by_cases hmessage : hasType terminal "message" = true
    · rw [if_pos hmessage] at hmeaning ⊢
      have hlate : lateField terminal = some "phase" := by rw [lateField, if_pos hmessage]
      cases h.late "phase" hlate with
      | inr hphase => rwa [hphase]
      | inl hphase =>
          -- the streamed message has no phase yet; the one it gets is known
          rw [hphase]
          cases hrole : nonEmptyText (terminal.get "role") with
          | none =>
              rw [hrole] at hmeaning
              cases hmeaning
          | some role =>
              rw [hrole] at hmeaning
              simp only at hmeaning ⊢
              obtain ⟨_, -, hrest⟩ := Lib.bind_eq_ok.mp hmeaning
              exact hrest
    · rw [if_neg hmessage] at hmeaning ⊢
      exact hmeaning

/-- An item agrees with itself, unless it is malformed. -/
theorem outputItemsAgree_self (c : Codec) (item : Json) : outputItemsAgree c item item ≠ .ok false := by
  intro h
  obtain ⟨meaning, hmeaning, h⟩ := Lib.bind_eq_ok.mp h
  simp only [hmeaning] at h
  cases hlate : lateField item with
  | none => simp [hlate, pure, Except.pure, bind, Except.bind] at h
  | some field =>
      simp only [hlate, bind, Except.bind, ne_eq, not_true_eq_false, if_false] at h
      split at h
      · cases h
      · simp [pure, Except.pure] at h

/-- **An item that lacks at most its late field** agrees with its terminal form exactly if
that form is well formed. -/
theorem outputItemsAgree_congr (h : Projects streamed terminal) :
    (outputItemsAgree c streamed terminal).toOption
      = (outputItemsAgree c terminal terminal).toOption := by
  cases hmeaning : semanticOutputItem c terminal with
  | error e =>
      have hterminal : outputItemsAgree c terminal terminal = .error e := by
        rw [outputItemsAgree, hmeaning]
        rfl
      rw [hterminal, outputItemsAgree, hmeaning]
      cases semanticOutputItem c streamed with
      | error e' => rfl
      | ok meaning => rfl
  | ok meaning =>
      rw [outputItemsAgree, outputItemsAgree, semanticOutputItem_projects h hmeaning, hmeaning,
        lateField_congr h.reading]
      cases hlate : lateField terminal with
      | none => rfl
      | some field =>
          dsimp only
          cases h.late field hlate with
          | inr hfield => rw [hfield]
          | inl hfield =>
              rw [hfield]
              simp [isTextOrNull, bind, Except.bind, pure, Except.pure]

/-- Filling in the late field changes nothing that is read. -/
theorem mergeTerminalProjection_reading (streamed terminal : Json) :
    SameReading (mergeTerminalProjection streamed terminal) streamed := by
  have hset : ∀ field x, field = "phase" ∨ field = "encrypted_content" →
      SameReading (streamed.set field x) streamed := by
    intro field x hfield key hkey
    have hne : key ≠ field := by
      intro he
      subst he
      cases hfield with
      | inl h => subst h; revert hkey; decide
      | inr h => subst h; revert hkey; decide
    rw [Json.get, Json.get, Json.get?_set_ne streamed x hne]
  unfold mergeTerminalProjection
  cases hlate : lateField streamed with
  | none => exact SameReading.refl streamed
  | some field =>
      have hfield : field = "phase" ∨ field = "encrypted_content" := by
        unfold lateField at hlate
        split at hlate
        · exact Or.inl (Option.some.inj hlate).symm
        · split at hlate
          · exact Or.inr (Option.some.inj hlate).symm
          · cases hlate
      simp only
      split
      · exact hset field _ hfield
      · exact SameReading.refl streamed

end OpenCollab.Responses
