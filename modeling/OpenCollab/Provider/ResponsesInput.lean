import Mathlib.Data.List.Induction
import Mathlib.Data.List.Nodup
import OpenCollab.Message
import OpenCollab.Provider.ResponsesOutput

/-!
# OpenCollab.Provider.ResponsesInput

`messages_to_input` of `responses_messages.py`: a stored history becomes the
input items of a Responses request, provider items being replayed as they were
received.

* `Input.Sound` — what holds of the items that were made so far;
* `messagesToInput_spec` — which histories can be sent, and what is sent of them;
* `protocolValid_sent` — a history that keeps the tool protocol can be sent, and
  every call in it is answered.
-/

namespace OpenCollab.Responses

/-- Why a history cannot be sent. -/
inductive InputError where
  | contentShape
  | contentBlock (index : Nat)
  | unsupportedText (index : Nat) (type : Json)
  | missingText (index : Nat)
  | unsupportedBlock (type : Json)
  | missingUrl
  | missingCallId
  | unmatchedOutput (callId : String)
  | duplicateOutput (callId : String)
  | replayedCallId
  | duplicateReplayed (callId : String)
  | legacyCall
  | duplicateLegacy (callId : String)
  | unsupportedPhase (phase : Json)
  | callsDisagree
  | item (error : ResponsesError)
deriving DecidableEq, Repr

abbrev Sending := Except InputError

/-! ## contents -/

/-- The types of a text block; one without a type is a text block of `normalize_text_content`. -/
def isTextType (type : Json) : Bool :=
  type = .str "text" || type = .str "input_text" || type = .str "output_text"

/-- A value that is no member of a set, nor could be. -/
def isUnhashable : Json → Bool
  | .arr _ | .obj _ => true
  | _ => false

/-- One block of `normalize_text_content`. -/
def blockText (block : Json × Nat) : Sending String :=
  match block.1 with
  | .str text => pure text
  | .obj _ =>
      if isUnhashable (block.1.get "type") then throw (.item .typeError)
      else if block.1.get "type" = .null || isTextType (block.1.get "type") then
        match block.1.get "text" with
        | .str text => pure text
        | _ => throw (.missingText block.2)
      else throw (.unsupportedText block.2 (block.1.get "type"))
  | _ => throw (.contentBlock block.2)

/-- `message_text`. -/
def messageText : Option Json → Sending String
  | none | some .null => pure ""
  | some (.str text) => pure text
  | some (.arr blocks) => do
      let parts ← blocks.zipIdx.mapM blockText
      pure ("\n".intercalate parts)
  | some _ => throw .contentShape

/-- A block of text as it is sent. -/
def inputText (text : Json) : Json := .obj [("type", .str "input_text"), ("text", text)]

/-- The url and the detail of an `image_url` block. -/
def imageItem (image : Json) : Sending Json :=
  let url := if image.isObj then image.get "url" else image
  let detail := image.get "detail"
  match nonEmptyText url with
  | none => throw .missingUrl
  | some url =>
      let items := [("type", .str "input_image"), ("image_url", .str url)]
      pure (.obj (if detail = .null then items else items ++ [("detail", detail)]))

/-- One block of `message_content_parts`. -/
def contentPart (block : Json) : Sending Json :=
  match block with
  | .str text => pure (inputText (.str text))
  | .obj _ =>
      if isUnhashable (block.get "type") then throw (.item .typeError)
      else if isTextType (block.get "type") && (block.get "text").asStr?.isSome then
        pure (inputText (block.get "text"))
      else if block.get "type" = .str "image_url" then imageItem (block.get "image_url")
      else throw (.unsupportedBlock (block.get "type"))
  | _ => throw (.unsupportedBlock .null)

/-- `message_content_parts`. -/
def messageContentParts : Option Json → Sending Json
  | some (.arr blocks) => do
      let parts ← blocks.mapM contentPart
      pure (.arr parts)
  | content => do
      let text ← messageText content
      pure (.str text)

/-! ## calls -/

/-- The id of a call among the input items. -/
def callId? (item : Json) : Option String :=
  if hasType item "function_call" then nonEmptyText (item.get "call_id") else none

/-- The id that an output among the input items answers. -/
def outputId? (item : Json) : Option String :=
  if hasType item "function_call_output" then (item.get "call_id").asStr? else none

/-- An exception of what the two directions share. -/
def lift {α : Type} : Except ResponsesError α → Sending α
  | .ok x => pure x
  | .error error => throw (.item error)

/-- `function.get("arguments") or "{}"`. -/
def argumentsOf (call : ToolCall) : String :=
  if call.arguments = "" then "\x7b\x7d" else call.arguments

/-- `_verify_replay_tool_calls`; a message without calls has no `tool_calls`. -/
def verifyReplayToolCalls (c : Codec) (calls : List ToolCall) (items : List Json) :
    Sending Unit := do
  if calls ≠ [] then
    let legacy ← calls.mapM fun call =>
      lift (functionCallIdentity c (.str call.id) (.str call.name) (.str (argumentsOf call)))
    let replayed ← (items.filter fun item => hasType item "function_call").mapM fun item =>
      lift (functionCallIdentity c (item.get "call_id") (item.get "name") (item.get "arguments"))
    if legacy ≠ replayed then throw .callsDisagree

/-- The item of a call that is not replayed. -/
def callItem (call : ToolCall) : Json :=
  .obj [("type", .str "function_call"), ("call_id", .str call.id), ("name", .str call.name),
    ("arguments", .str (argumentsOf call))]

/-- The item of a tool result. -/
def outputItem (callId text : String) : Json :=
  .obj [("type", .str "function_call_output"), ("call_id", .str callId), ("output", .str text)]

def roleName : Role → String
  | .system => "system"
  | .developer => "developer"
  | .user => "user"
  | .assistant => "assistant"
  | .tool => "tool"

/-- The item of a message; `fields` is the phase of an assistant message. -/
def messageItem (role : Role) (content : Json) (fields : List (String × Json)) : Json :=
  .obj (("role", .str (roleName role)) :: ("content", content) :: fields)

/-- The phase that the item of a message carries; only an assistant message has one. -/
def phaseFields (m : Message) : Sending (List (String × Json)) :=
  if m.role ≠ .assistant || m.phase = .null then pure []
  else if isUnhashable m.phase then throw (.item .typeError)
  else if m.phase = .str "commentary" || m.phase = .str "final_answer" then
    pure [("phase", m.phase)]
  else throw (.unsupportedPhase m.phase)

/-! ## the loop -/

/-- The locals of `messages_to_input`. -/
structure Input where
  instructions : List String := []
  items : List Json := []
  callIds : List String := []
  answeredIds : List String := []
deriving DecidableEq, Repr

def Input.push (s : Input) (items : List Json) : Input := { s with items := s.items ++ items }

/-- A replayed call is registered. -/
def Input.replayCall (s : Input) (item : Json) : Sending Input :=
  if hasType item "function_call" then
    match nonEmptyText (item.get "call_id") with
    | none => throw .replayedCallId
    | some callId =>
        if callId ∈ s.callIds then throw (.duplicateReplayed callId)
        else pure { s with callIds := s.callIds ++ [callId] }
  else pure s

/-- A call that is not replayed is registered, and its item made. -/
def Input.addCall (s : Input) (call : ToolCall) : Sending Input :=
  if call.id = "" then throw .legacyCall
  else if call.id ∈ s.callIds then throw (.duplicateLegacy call.id)
  else pure { s with callIds := s.callIds ++ [call.id], items := s.items ++ [callItem call] }

/-- A system message: an instruction, or the record of a compaction. -/
def Input.addSystem (s : Input) (m : Message) : Sending Input := do
  let text ← messageText m.content
  if text = "" then pure s
  else if m.compacted then pure (s.push [messageItem .user (.str text) []])
  else pure { s with instructions := s.instructions ++ [text] }

/-- A tool result. -/
def Input.addOutput (s : Input) (allowUnmatched : Bool) (m : Message) : Sending Input :=
  match m.toolCallId.filter (· ≠ "") with
  | none => throw .missingCallId
  | some callId =>
      if callId ∉ s.callIds ∧ allowUnmatched = false then throw (.unmatchedOutput callId)
      else if callId ∈ s.answeredIds then throw (.duplicateOutput callId)
      else do
        let text ← messageText m.content
        pure { s with
          answeredIds := s.answeredIds ++ [callId], items := s.items ++ [outputItem callId text] }

/-- A message with provider items. -/
def Input.addReplay (c : Codec) (s : Input) (m : Message) (replay : List Json) :
    Sending Input := do
  let items ← lift (validatedResponseItems (.arr replay))
  verifyReplayToolCalls c m.toolCalls items
  let s ← items.foldlM Input.replayCall s
  pure (s.push items)

/-- Any other message: its content, and its calls. -/
def Input.addContent (s : Input) (m : Message) : Sending Input := do
  let content ← messageContentParts m.content
  let items ← if content.truthy then do
      let fields ← phaseFields m
      pure [messageItem m.role content fields]
    else pure []
  m.toolCalls.foldlM Input.addCall (s.push items)

/-- The body of the loop. -/
def Input.add (c : Codec) (allowUnmatched : Bool) (s : Input) (m : Message) : Sending Input :=
  match m.role, m.responseItems with
  | .system, _ => s.addSystem m
  | .tool, _ => s.addOutput allowUnmatched m
  | _, some replay => s.addReplay c m replay
  | _, none => s.addContent m

/-- `messages_to_input`. -/
def messagesToInput (c : Codec) (allowUnmatched : Bool) (messages : List Message) :
    Sending (Option String × List Json) := do
  let s ← messages.foldlM (Input.add c allowUnmatched) {}
  let text := "\n\n".intercalate s.instructions
  pure (if text = "" then none else some text, s.items)

/-! ## what is sent of a message -/

/-- The ids of the calls that a message brings into the input. -/
def callsOf (m : Message) : List String :=
  match m.role, m.responseItems with
  | .system, _ | .tool, _ => []
  | _, some replay => replay.filterMap callId?
  | _, none => m.callIds

/-- The id of the call that a message answers. -/
def answerOf (m : Message) : Option String := if m.role = .tool then m.toolCallId else none

/-- The text of a system message that becomes an instruction. -/
def instructionsOf (m : Message) : List String :=
  match m.role, messageText m.content with
  | .system, .ok text => if text = "" || m.compacted then [] else [text]
  | _, _ => []

/-- The items of the content of a message. -/
def contentItems (m : Message) : List Json :=
  match messageContentParts m.content, phaseFields m with
  | .ok content, .ok fields => if content.truthy then [messageItem m.role content fields] else []
  | _, _ => []

/-- The items of a message. -/
def itemsOf (m : Message) : List Json :=
  match m.role, m.responseItems with
  | .system, _ =>
      match messageText m.content with
      | .ok text => if text ≠ "" && m.compacted then [messageItem .user (.str text) []] else []
      | .error _ => []
  | .tool, _ =>
      match m.toolCallId, messageText m.content with
      | some callId, .ok text => [outputItem callId text]
      | _, _ => []
  | _, some replay => replay
  | _, none => contentItems m ++ m.toolCalls.map callItem

/-- A message can be sent, as far as it goes by itself. -/
def Convertible (c : Codec) (m : Message) : Prop :=
  match m.role, m.responseItems with
  | .system, _ => ∃ text, messageText m.content = .ok text
  | .tool, _ => (∃ text, messageText m.content = .ok text) ∧
      ∃ callId, m.toolCallId = some callId ∧ callId ≠ ""
  | _, some replay => replay.all supportedItem = true ∧
      verifyReplayToolCalls c m.toolCalls replay = .ok () ∧
      ∀ item ∈ replay, hasType item "function_call" = true → (callId? item).isSome = true
  | _, none => (∃ content, messageContentParts m.content = .ok content ∧
        (content.truthy = true → ∃ fields, phaseFields m = .ok fields)) ∧
      ∀ call ∈ m.toolCalls, call.id ≠ ""

/-- **A history that can be sent**: every message can, no call id is used twice, no call is
answered twice, and every answer stands behind its call. -/
structure Sendable (c : Codec) (messages : List Message) : Prop where
  convertible : ∀ m ∈ messages, Convertible c m
  calls : (messages.flatMap callsOf).Nodup
  answers : (messages.filterMap answerOf).Nodup
  behind : ∀ before m after callId, messages = before ++ m :: after →
    answerOf m = some callId → callId ∈ before.flatMap callsOf

/-- The locals after some messages. -/
def stateOf (messages : List Message) : Input where
  instructions := messages.flatMap instructionsOf
  items := messages.flatMap itemsOf
  callIds := messages.flatMap callsOf
  answeredIds := messages.filterMap answerOf

/-! ## the parts of the loop -/

variable {c : Codec} {s s' : Input} {m : Message}

theorem nonEmptyText_eq_some {value : Json} {text : String} :
    nonEmptyText value = some text ↔ value = .str text ∧ text ≠ "" := by
  cases value with
  | str s =>
      simp only [nonEmptyText, Json.asStr?, Option.filter_some, decide_eq_true_eq, Json.str.injEq]
      constructor
      · intro h
        split at h
        · cases h
          exact ⟨rfl, ‹_›⟩
        · contradiction
      · intro ⟨rfl, hne⟩
        simp [hne]
  | _ => simp [nonEmptyText, Json.asStr?]

theorem foldlM_replayCall (items : List Json) (hnodup : s.callIds.Nodup) :
    items.foldlM Input.replayCall s = .ok s' ↔
      (∀ item ∈ items, hasType item "function_call" = true → (callId? item).isSome = true) ∧
      (s.callIds ++ items.filterMap callId?).Nodup ∧
      s' = { s with callIds := s.callIds ++ items.filterMap callId? } := by
  induction items generalizing s with
  | nil =>
      simp only [List.foldlM_nil, pure, Except.pure, Except.ok.injEq, List.filterMap_nil,
        List.append_nil, hnodup, List.not_mem_nil, false_implies, implies_true, true_and]
      exact eq_comm
  | cons item items ih =>
      rw [List.foldlM_cons]
      by_cases htype : hasType item "function_call" = true
      · cases hid : nonEmptyText (item.get "call_id") with
        | none =>
            have hcall : callId? item = none := by simp [callId?, htype, hid]
            simp [Input.replayCall, htype, hid, hcall, bind, Except.bind, throw, throwThe,
              MonadExceptOf.throw]
        | some callId =>
            have hcall : callId? item = some callId := by simp [callId?, htype, hid]
            by_cases hmem : callId ∈ s.callIds
            · simp only [Input.replayCall, htype, hid, hmem, if_true, bind, Except.bind, throw,
                throwThe, MonadExceptOf.throw, reduceCtorEq, false_iff, not_and]
              intro _ hnew
              rw [List.filterMap_cons_some hcall, List.nodup_append] at hnew
              exact absurd rfl (hnew.2.2 callId hmem callId List.mem_cons_self)
            · have hnext : (s.callIds ++ [callId]).Nodup := by
                rw [List.nodup_append]
                refine ⟨hnodup, List.nodup_singleton _, fun a ha b hb hab => ?_⟩
                rw [List.mem_singleton.mp hb] at hab
                exact hmem (hab ▸ ha)
              have hstep : Input.replayCall s item =
                  .ok { s with callIds := s.callIds ++ [callId] } := by
                simp [Input.replayCall, htype, hid, hmem, pure, Except.pure]
              rw [hstep]
              change items.foldlM Input.replayCall _ = .ok s' ↔ _
              rw [ih hnext, List.filterMap_cons_some hcall, List.forall_mem_cons, hcall]
              simp only [Option.isSome_some, implies_true, true_and, List.append_assoc,
                List.singleton_append]
      · have hcall : callId? item = none := by simp [callId?, htype]
        have hstep : Input.replayCall s item = .ok s := by
          simp [Input.replayCall, htype, pure, Except.pure]
        rw [hstep]
        change items.foldlM Input.replayCall s = .ok s' ↔ _
        rw [ih hnodup, List.filterMap_cons_none hcall, List.forall_mem_cons]
        simp only [htype, Bool.false_eq_true, false_implies, true_and]

theorem foldlM_addCall (calls : List ToolCall) (hnodup : s.callIds.Nodup) :
    calls.foldlM Input.addCall s = .ok s' ↔
      (∀ call ∈ calls, call.id ≠ "") ∧ (s.callIds ++ calls.map ToolCall.id).Nodup ∧
      s' = { s with
        callIds := s.callIds ++ calls.map ToolCall.id
        items := s.items ++ calls.map callItem } := by
  induction calls generalizing s with
  | nil =>
      simp only [List.foldlM_nil, pure, Except.pure, Except.ok.injEq, List.map_nil,
        List.append_nil, hnodup, List.not_mem_nil, false_implies, implies_true, true_and]
      exact eq_comm
  | cons call calls ih =>
      rw [List.foldlM_cons]
      by_cases hempty : call.id = ""
      · simp [Input.addCall, hempty, bind, Except.bind, throw, throwThe, MonadExceptOf.throw]
      · by_cases hmem : call.id ∈ s.callIds
        · simp only [Input.addCall, hempty, hmem, if_true, if_false, bind, Except.bind, throw,
            throwThe, MonadExceptOf.throw, reduceCtorEq, false_iff, not_and]
          intro _ hnew
          rw [List.map_cons, List.nodup_append] at hnew
          exact absurd rfl (hnew.2.2 call.id hmem call.id List.mem_cons_self)
        · have hnext : (s.callIds ++ [call.id]).Nodup := by
            rw [List.nodup_append]
            refine ⟨hnodup, List.nodup_singleton _, fun a ha b hb hab => ?_⟩
            rw [List.mem_singleton.mp hb] at hab
            exact hmem (hab ▸ ha)
          have hstep : Input.addCall s call = .ok { s with
              callIds := s.callIds ++ [call.id], items := s.items ++ [callItem call] } := by
            simp [Input.addCall, hempty, hmem, pure, Except.pure]
          rw [hstep]
          change calls.foldlM Input.addCall _ = .ok s' ↔ _
          rw [ih hnext, List.forall_mem_cons]
          simp only [hempty, ne_eq, not_false_eq_true, true_and, List.map_cons, List.append_assoc,
            List.singleton_append]

/-! ## one message -/

/-- The locals after one more message. -/
def Input.after (s : Input) (m : Message) : Input where
  instructions := s.instructions ++ instructionsOf m
  items := s.items ++ itemsOf m
  callIds := s.callIds ++ callsOf m
  answeredIds := s.answeredIds ++ (answerOf m).toList

theorem addSystem_iff (hrole : m.role = .system) :
    s.addSystem m = .ok s' ↔ Convertible c m ∧ s' = s.after m := by
  cases htext : messageText m.content with
  | error error => simp [Input.addSystem, Convertible, hrole, htext, bind, Except.bind]
  | ok text =>
      have hconvertible : Convertible c m := by simp [Convertible, hrole, htext]
      simp only [Input.addSystem, htext, bind, Except.bind, hconvertible, true_and, Input.after,
        instructionsOf, itemsOf, callsOf, answerOf, hrole, Input.push]
      by_cases hempty : text = ""
      · simp only [hempty, pure, Except.pure, if_true, Except.ok.injEq, decide_true, Bool.true_or,
          List.append_nil, ne_eq, not_true_eq_false, decide_false, Bool.false_and,
          Bool.false_eq_true, if_false, reduceCtorEq, Option.toList_none]
        exact eq_comm
      · by_cases hcompacted : m.compacted = true
        · simp [hempty, hcompacted, pure, Except.pure, eq_comm]
        · simp [hempty, hcompacted, pure, Except.pure, eq_comm]

theorem addOutput_iff (hrole : m.role = .tool) :
    s.addOutput false m = .ok s' ↔ Convertible c m ∧
      (∀ callId, answerOf m = some callId → callId ∈ s.callIds ∧ callId ∉ s.answeredIds) ∧
      s' = s.after m := by
  have hanswer : answerOf m = m.toolCallId := by simp [answerOf, hrole]
  cases hid : m.toolCallId.filter (· ≠ "") with
  | none =>
      have hnot : ¬ ∃ callId, m.toolCallId = some callId ∧ callId ≠ "" := by
        intro ⟨callId, hsome, hne⟩
        simp [hsome, hne] at hid
      simp only [Input.addOutput, hid, throw, throwThe, MonadExceptOf.throw, reduceCtorEq,
        Convertible, hrole, hnot, and_false, false_and]
  | some callId =>
      obtain ⟨hsome, hne⟩ := Option.filter_eq_some_iff.mp hid
      have hne : callId ≠ "" := by simpa using hne
      cases htext : messageText m.content with
      | error error =>
          have hnot : ¬ Convertible c m := by simp [Convertible, hrole, htext]
          simp only [hnot, false_and, iff_false, Input.addOutput, hid, htext, bind, Except.bind]
          split
          · simp [throw, throwThe, MonadExceptOf.throw]
          · split
            · simp [throw, throwThe, MonadExceptOf.throw]
            · simp
      | ok text =>
          have hconvertible : Convertible c m := by simp [Convertible, hrole, htext, hsome, hne]
          have hadd : s.addOutput false m =
              if callId ∉ s.callIds then .error (.unmatchedOutput callId)
              else if callId ∈ s.answeredIds then .error (.duplicateOutput callId)
              else .ok { s with
                answeredIds := s.answeredIds ++ [callId]
                items := s.items ++ [outputItem callId text] } := by
            simp only [Input.addOutput, hid, htext, and_true]
            rfl
          have hafter : s.after m = { s with
              answeredIds := s.answeredIds ++ [callId]
              items := s.items ++ [outputItem callId text] } := by
            simp [Input.after, instructionsOf, itemsOf, callsOf, hanswer, hrole, hsome, htext]
          rw [hadd, hafter, hanswer, hsome]
          by_cases hcall : callId ∈ s.callIds
          · by_cases hanswered : callId ∈ s.answeredIds
            · simp [hconvertible, hcall, hanswered]
            · simp [hconvertible, hcall, hanswered, eq_comm]
          · simp [hconvertible, hcall]

theorem answerOf_other (hrole : m.role ≠ .system ∧ m.role ≠ .tool) : answerOf m = none := by
  simp [answerOf, hrole.2]

theorem instructionsOf_other (hrole : m.role ≠ .system ∧ m.role ≠ .tool) :
    instructionsOf m = [] := by
  cases h : m.role with
  | system => exact absurd h hrole.1
  | tool => exact absurd h hrole.2
  | _ => simp [instructionsOf, h]

theorem addReplay_iff {replay : List Json} (hrole : m.role ≠ .system ∧ m.role ≠ .tool)
    (hreplay : m.responseItems = some replay) (hnodup : s.callIds.Nodup) :
    s.addReplay c m replay = .ok s' ↔ Convertible c m ∧ (s.callIds ++ callsOf m).Nodup ∧
      s' = s.after m := by
  have hconvertible : Convertible c m ↔ replay.all supportedItem = true ∧
      verifyReplayToolCalls c m.toolCalls replay = .ok () ∧
      ∀ item ∈ replay, hasType item "function_call" = true → (callId? item).isSome = true := by
    cases h : m.role <;> simp_all [Convertible]
  have hcalls : callsOf m = replay.filterMap callId? := by
    cases h : m.role <;> simp_all [callsOf]
  have hitems : itemsOf m = replay := by
    cases h : m.role <;> simp_all [itemsOf]
  have hafter : s.after m = { s with
      callIds := s.callIds ++ replay.filterMap callId?, items := s.items ++ replay } := by
    simp [Input.after, instructionsOf_other hrole, answerOf_other hrole, hcalls, hitems]
  rw [hconvertible, hcalls, hafter]
  by_cases hsupported : replay.all supportedItem = true
  · have hvalidated : lift (validatedResponseItems (.arr replay)) = .ok replay := by
      simp [validatedResponseItems, Json.asArr?, hsupported, pure, Except.pure, lift]
    cases hverified : verifyReplayToolCalls c m.toolCalls replay with
    | error error =>
        simp [Input.addReplay, hvalidated, hverified, bind, Except.bind]
    | ok u =>
        have hadd : s.addReplay c m replay =
            (replay.foldlM Input.replayCall s).map fun s => s.push replay := by
          simp only [Input.addReplay, hvalidated, hverified, bind, Except.bind, pure, Except.pure]
          cases replay.foldlM Input.replayCall s <;> rfl
        rw [hadd]
        have hfold := fun t => @foldlM_replayCall s t replay hnodup
        cases hresult : replay.foldlM Input.replayCall s with
        | error error =>
            have hnot := mt (fun h => (hfold { s with
              callIds := s.callIds ++ replay.filterMap callId? }).mpr h) (by simp [hresult])
            simp only [and_true, not_and] at hnot
            simp only [Except.map, reduceCtorEq, false_iff, not_and]
            exact fun h hnew => absurd hnew (hnot h.2.2)
        | ok t =>
            obtain ⟨hids, hnew, rfl⟩ := (hfold t).mp hresult
            constructor
            · intro h
              cases h
              exact ⟨⟨hsupported, rfl, hids⟩, hnew, rfl⟩
            · intro ⟨_, _, h⟩
              rw [h]
              rfl
  · simp [Input.addReplay, validatedResponseItems, Json.asArr?, hsupported, bind, Except.bind,
      refuse, lift, throw, throwThe, MonadExceptOf.throw]

theorem addContent_iff (hrole : m.role ≠ .system ∧ m.role ≠ .tool)
    (hreplay : m.responseItems = none) (hnodup : s.callIds.Nodup) :
    s.addContent m = .ok s' ↔ Convertible c m ∧ (s.callIds ++ callsOf m).Nodup ∧
      s' = s.after m := by
  have hconvertible : Convertible c m ↔ (∃ content, messageContentParts m.content = .ok content ∧
      (content.truthy = true → ∃ fields, phaseFields m = .ok fields)) ∧
      ∀ call ∈ m.toolCalls, call.id ≠ "" := by
    cases h : m.role <;> simp_all [Convertible]
  have hcalls : callsOf m = m.callIds := by
    cases h : m.role <;> simp_all [callsOf]
  have hitems : itemsOf m = contentItems m ++ m.toolCalls.map callItem := by
    cases h : m.role <;> simp_all [itemsOf]
  cases hcontent : messageContentParts m.content with
  | error error => simp [Input.addContent, hconvertible, hcontent, bind, Except.bind]
  | ok content =>
      have hafter : s.after m = { s with
          callIds := s.callIds ++ m.callIds
          items := s.items ++ contentItems m ++ m.toolCalls.map callItem } := by
        simp [Input.after, instructionsOf_other hrole, answerOf_other hrole, hcalls, hitems]
      have hnext : ∀ items, contentItems m = items →
          (m.toolCalls.foldlM Input.addCall (s.push items) = .ok s' ↔
            (∀ call ∈ m.toolCalls, call.id ≠ "") ∧ (s.callIds ++ m.callIds).Nodup ∧
              s' = s.after m) := by
        intro items hbegun
        rw [hafter, hbegun, foldlM_addCall m.toolCalls (by exact hnodup)]
        rfl
      rw [hconvertible, hcalls]
      by_cases htruthy : content.truthy = true
      · cases hphase : phaseFields m with
        | error error =>
            simp [Input.addContent, hcontent, htruthy, hphase, bind, Except.bind]
        | ok fields =>
            have hadd : s.addContent m = m.toolCalls.foldlM Input.addCall
                (s.push [messageItem m.role content fields]) := by
              simp [Input.addContent, hcontent, htruthy, hphase, bind, Except.bind, pure,
                Except.pure]
            rw [hadd, hnext _ (by simp [contentItems, hcontent, hphase, htruthy])]
            simp [hcontent]
      · have hadd : s.addContent m = m.toolCalls.foldlM Input.addCall (s.push []) := by
          simp [Input.addContent, hcontent, htruthy, bind, Except.bind, pure, Except.pure]
        have hnone : contentItems m = [] := by
          unfold contentItems
          rw [hcontent]
          cases phaseFields m <;> simp [htruthy]
        rw [hadd, hnext _ hnone]
        simp [hcontent, htruthy]

/-- **One message** is added exactly if it can be sent, brings no id that was used, and answers
a call that is there and has no answer; what is added is its own. -/
theorem add_iff (hnodup : s.callIds.Nodup) :
    s.add c false m = .ok s' ↔ Convertible c m ∧ (s.callIds ++ callsOf m).Nodup ∧
      (∀ callId, answerOf m = some callId → callId ∈ s.callIds ∧ callId ∉ s.answeredIds) ∧
      s' = s.after m := by
  by_cases hsystem : m.role = .system
  · have hadd : s.add c false m = s.addSystem m := by simp [Input.add, hsystem]
    have hcalls : callsOf m = [] := by simp [callsOf, hsystem]
    have hanswer : answerOf m = none := by simp [answerOf, hsystem]
    rw [hadd, @addSystem_iff c s s' m hsystem, hcalls, hanswer]
    simp [hnodup]
  · by_cases htool : m.role = .tool
    · have hadd : s.add c false m = s.addOutput false m := by simp [Input.add, htool]
      have hcalls : callsOf m = [] := by simp [callsOf, htool]
      rw [hadd, @addOutput_iff c s s' m htool, hcalls]
      simp [hnodup]
    · have hanswer := answerOf_other ⟨hsystem, htool⟩
      cases hreplay : m.responseItems with
      | some replay =>
          have hadd : s.add c false m = s.addReplay c m replay := by
            cases h : m.role <;> simp_all [Input.add]
          rw [hadd, addReplay_iff ⟨hsystem, htool⟩ hreplay hnodup, hanswer]
          simp
      | none =>
          have hadd : s.add c false m = s.addContent m := by
            cases h : m.role <;> simp_all [Input.add]
          rw [hadd, @addContent_iff c s s' m ⟨hsystem, htool⟩ hreplay hnodup, hanswer]
          simp

/-! ## histories -/

variable {messages : List Message}

theorem answers_singleton : [m].filterMap answerOf = (answerOf m).toList := by
  cases h : answerOf m <;> simp [h]

theorem stateOf_append : stateOf (messages ++ [m]) = (stateOf messages).after m := by
  simp [stateOf, Input.after, answers_singleton]

theorem sendable_nil : Sendable c [] where
  convertible := fun _ h => by contradiction
  calls := List.nodup_nil
  answers := List.nodup_nil
  behind := fun before m after callId h => by simp at h

/-- What one more message needs. -/
theorem sendable_append : Sendable c (messages ++ [m]) ↔ Sendable c messages ∧
    Convertible c m ∧ (messages.flatMap callsOf ++ callsOf m).Nodup ∧
      ∀ callId, answerOf m = some callId →
        callId ∈ messages.flatMap callsOf ∧ callId ∉ messages.filterMap answerOf := by
  constructor
  · intro ⟨hconvertible, hcalls, hanswers, hbehind⟩
    rw [List.flatMap_append, List.flatMap_singleton] at hcalls
    rw [List.filterMap_append] at hanswers
    refine ⟨⟨fun other h => hconvertible other (List.mem_append_left _ h),
      (List.nodup_append.mp hcalls).1, (List.nodup_append.mp hanswers).1, ?_⟩,
      hconvertible m (by simp), hcalls, ?_⟩
    · intro before other after callId hsplit
      exact hbehind before other (after ++ [m]) callId (by simp [hsplit])
    · intro callId hanswer
      refine ⟨hbehind messages m [] callId (by simp) hanswer, fun hmem => ?_⟩
      rw [answers_singleton, hanswer] at hanswers
      exact (List.nodup_append.mp hanswers).2.2 callId hmem callId List.mem_cons_self rfl
  · intro ⟨⟨hconvertible, hcalls, hanswers, hbehind⟩, hm, hnew, hanswer⟩
    refine ⟨?_, by simpa using hnew, ?_, ?_⟩
    · intro other hother
      obtain h | h := List.mem_append.mp hother
      · exact hconvertible other h
      · obtain rfl := List.mem_singleton.mp h
        exact hm
    · rw [List.filterMap_append, answers_singleton, List.nodup_append]
      refine ⟨hanswers, (answerOf m).toList_nodup, fun a ha b hb hab => ?_⟩
      rw [Option.mem_toList] at hb
      exact (hanswer b hb).2 (hab ▸ ha)
    · intro before other after callId hsplit hother
      obtain rfl | ⟨init, last, rfl⟩ := after.eq_nil_or_concat
      · obtain ⟨rfl, hlast⟩ := List.append_inj' hsplit rfl
        cases hlast
        exact (hanswer callId hother).1
      · have hsplit' : messages ++ [m] = (before ++ other :: init) ++ [last] := by
          simpa using hsplit
        exact hbehind before other init callId (List.append_inj' hsplit' rfl).1 hother

/-- **The loop** ends without an exception exactly for a history that can be sent. -/
theorem foldlM_add_iff {s' : Input} :
    messages.foldlM (Input.add c false) {} = .ok s' ↔
      Sendable c messages ∧ s' = stateOf messages := by
  induction messages using List.reverseRecOn generalizing s' with
  | nil =>
      simp only [List.foldlM_nil, pure, Except.pure, Except.ok.injEq, sendable_nil, true_and]
      exact eq_comm
  | append_singleton messages m ih =>
      rw [List.foldlM_append, sendable_append, stateOf_append]
      have hlast : ∀ s : Input, [m].foldlM (Input.add c false) s = s.add c false m := by
        intro s
        simp
      constructor
      · intro h
        cases hfirst : messages.foldlM (Input.add c false) {} with
        | error error =>
            rw [hfirst] at h
            contradiction
        | ok s =>
            obtain ⟨hsendable, rfl⟩ := ih.mp hfirst
            rw [hfirst] at h
            change [m].foldlM (Input.add c false) (stateOf messages) = .ok s' at h
            rw [hlast, add_iff hsendable.calls] at h
            exact ⟨⟨hsendable, h.1, h.2.1, h.2.2.1⟩, h.2.2.2⟩
      · intro ⟨⟨hsendable, hm⟩, hs'⟩
        rw [ih.mpr ⟨hsendable, rfl⟩]
        change [m].foldlM (Input.add c false) (stateOf messages) = .ok s'
        rw [hlast, add_iff hsendable.calls]
        exact ⟨hm.1, hm.2.1, hm.2.2, hs'⟩

/-! ## the items that are sent -/

/-- **What a request asks of its items**: no id is called twice or answered twice, and every
output stands behind its call. -/
structure Paired (items : List Json) : Prop where
  calls : (items.filterMap callId?).Nodup
  outputs : (items.filterMap outputId?).Nodup
  behind : ∀ before item after callId, items = before ++ item :: after →
    outputId? item = some callId → callId ∈ before.filterMap callId?

/-- The item of a message has no type. -/
theorem get_type_messageItem (role : Role) (content : Json) {fields : List (String × Json)}
    (hfields : fields.lookup "type" = none) :
    (messageItem role content fields).get "type" = .null := by
  simp [messageItem, Json.get, Json.get?, Json.lookup_cons_ite, hfields]

theorem lookup_phaseFields {fields : List (String × Json)} (h : phaseFields m = .ok fields) :
    fields.lookup "type" = none := by
  unfold phaseFields at h
  simp only [pure, Except.pure, throw, throwThe, MonadExceptOf.throw] at h
  split at h
  · cases h
    rfl
  · split at h
    · contradiction
    · split at h
      · cases h
        simp [Json.lookup_cons_ite]
      · contradiction

theorem messageItem_ids (role : Role) (content : Json) {fields : List (String × Json)}
    (hfields : fields.lookup "type" = none) :
    callId? (messageItem role content fields) = none ∧
      outputId? (messageItem role content fields) = none := by
  have htype := get_type_messageItem role content hfields
  simp [callId?, outputId?, hasType, htype]

@[simp] theorem callId?_outputItem (callId text : String) :
    callId? (outputItem callId text) = none := by
  simp [callId?, hasType, outputItem, Json.get, Json.get?]

@[simp] theorem outputId?_outputItem (callId text : String) :
    outputId? (outputItem callId text) = some callId := by
  simp [outputId?, hasType, outputItem, Json.get, Json.get?, Json.lookup_cons_ite, Json.asStr?]

@[simp] theorem outputId?_callItem (call : ToolCall) : outputId? (callItem call) = none := by
  simp [outputId?, hasType, callItem, Json.get, Json.get?]

theorem callId?_callItem {call : ToolCall} (h : call.id ≠ "") :
    callId? (callItem call) = some call.id := by
  simp [callId?, hasType, callItem, Json.get, Json.get?, Json.lookup_cons_ite, nonEmptyText,
    Json.asStr?, h]

theorem outputId?_of_supported {item : Json} (h : supportedItem item = true) :
    outputId? item = none := by
  simp only [supportedItem, OUTPUT_ITEM_TYPES, Bool.and_eq_true, List.any_cons, List.any_nil,
    Bool.or_eq_true, decide_eq_true_eq, Bool.or_false] at h
  obtain ⟨-, h | h | h⟩ := h <;> simp [outputId?, hasType, h]

theorem contentItems_ids : (contentItems m).filterMap callId? = [] ∧
    (contentItems m).filterMap outputId? = [] := by
  unfold contentItems
  split
  · rename_i content fields _ hphase
    have hids := messageItem_ids m.role content (lookup_phaseFields hphase)
    split <;> simp [hids]
  · simp

/-- The items of a message bring its calls and give its answer. -/
theorem itemsOf_ids (h : Convertible c m) : (itemsOf m).filterMap callId? = callsOf m ∧
    (itemsOf m).filterMap outputId? = (answerOf m).toList := by
  by_cases hsystem : m.role = .system
  · obtain ⟨text, htext⟩ : ∃ text, messageText m.content = .ok text := by
      simpa [Convertible, hsystem] using h
    have hids := @messageItem_ids .user (.str text) [] rfl
    simp only [itemsOf, callsOf, answerOf, hsystem, htext, reduceCtorEq, if_false,
      Option.toList_none]
    split <;> simp [hids]
  · by_cases htool : m.role = .tool
    · obtain ⟨⟨text, htext⟩, callId, hcall, -⟩ : (∃ text, messageText m.content = .ok text) ∧
          ∃ callId, m.toolCallId = some callId ∧ callId ≠ "" := by
        simpa [Convertible, htool] using h
      simp [itemsOf, callsOf, answerOf, htool, hcall, htext]
    · rw [answerOf_other ⟨hsystem, htool⟩]
      cases hreplay : m.responseItems with
      | some replay =>
          have hitems : itemsOf m = replay ∧ callsOf m = replay.filterMap callId? := by
            cases h : m.role <;> simp_all [itemsOf, callsOf]
          have hall : replay.all supportedItem = true := by
            cases h : m.role <;> simp_all [Convertible]
          rw [hitems.1, hitems.2]
          refine ⟨rfl, List.filterMap_eq_nil_iff.mpr fun item hitem => ?_⟩
          exact outputId?_of_supported (List.all_eq_true.mp hall item hitem)
      | none =>
          have hitems : itemsOf m = contentItems m ++ m.toolCalls.map callItem ∧
              callsOf m = m.callIds := by
            cases h : m.role <;> simp_all [itemsOf, callsOf]
          have hids : ∀ call ∈ m.toolCalls, call.id ≠ "" := by
            cases h : m.role <;> simp_all [Convertible]
          have hcalls : ∀ calls : List ToolCall, (∀ call ∈ calls, call.id ≠ "") →
              calls.filterMap (callId? ∘ callItem) = calls.map ToolCall.id := by
            intro calls hcalls
            induction calls with
            | nil => rfl
            | cons call calls ih =>
                have hfirst : (callId? ∘ callItem) call = some call.id :=
                  callId?_callItem (hcalls call List.mem_cons_self)
                rw [List.filterMap_cons_some hfirst,
                  ih fun other hother => hcalls other (List.mem_cons_of_mem _ hother),
                  List.map_cons]
          rw [hitems.1, hitems.2, List.filterMap_append, List.filterMap_append,
            contentItems_ids.1, contentItems_ids.2, List.filterMap_map, List.filterMap_map,
            hcalls _ hids]
          exact ⟨rfl, by simp⟩

theorem stateOf_ids (h : Sendable c messages) :
    (stateOf messages).items.filterMap callId? = messages.flatMap callsOf ∧
      (stateOf messages).items.filterMap outputId? = messages.filterMap answerOf := by
  induction messages using List.reverseRecOn with
  | nil => exact ⟨rfl, rfl⟩
  | append_singleton messages m ih =>
      obtain ⟨hsendable, hm, -⟩ := sendable_append.mp h
      obtain ⟨hcalls, houtputs⟩ := ih hsendable
      obtain ⟨hnew, hanswer⟩ := itemsOf_ids hm
      rw [stateOf_append]
      simp only [Input.after, List.filterMap_append, hcalls, houtputs, hnew, hanswer,
        List.flatMap_append, List.flatMap_singleton, answers_singleton, and_self]

/-- Items are added whose outputs answer calls that are there. -/
theorem Paired.append {items new : List Json} (h : Paired items)
    (hcalls : ((items ++ new).filterMap callId?).Nodup)
    (houtputs : ((items ++ new).filterMap outputId?).Nodup)
    (hbehind : ∀ callId ∈ new.filterMap outputId?, callId ∈ items.filterMap callId?) :
    Paired (items ++ new) where
  calls := hcalls
  outputs := houtputs
  behind := by
    intro before item after callId hsplit hitem
    obtain ⟨rest, rfl, hrest⟩ | ⟨rest, rfl, hrest⟩ := List.append_eq_append_iff.mp hsplit
    · have hnew : callId ∈ new.filterMap outputId? := by
        rw [List.mem_filterMap]
        exact ⟨item, by simp [hrest], hitem⟩
      rw [List.filterMap_append]
      exact List.mem_append_left _ (hbehind callId hnew)
    · cases rest with
      | nil =>
          have hnew : callId ∈ new.filterMap outputId? := by
            rw [List.nil_append] at hrest
            rw [← hrest, List.mem_filterMap]
            exact ⟨item, List.mem_cons_self, hitem⟩
          simpa using hbehind callId hnew
      | cons first rest =>
          obtain ⟨rfl, -⟩ := List.cons.inj hrest
          exact h.behind before item rest callId rfl hitem

theorem paired_stateOf (h : Sendable c messages) : Paired (stateOf messages).items := by
  induction messages using List.reverseRecOn with
  | nil => exact ⟨List.nodup_nil, List.nodup_nil, fun before item after callId h => by
      simp [stateOf] at h⟩
  | append_singleton messages m ih =>
      obtain ⟨hsendable, hm, -, hanswer⟩ := sendable_append.mp h
      obtain ⟨hcalls, houtputs⟩ := stateOf_ids h
      have hitems : (stateOf (messages ++ [m])).items = (stateOf messages).items ++ itemsOf m := by
        rw [stateOf_append]
        rfl
      rw [hitems] at hcalls houtputs ⊢
      refine (ih hsendable).append (hcalls ▸ h.calls) (houtputs ▸ h.answers) ?_
      intro callId hmem
      rw [(itemsOf_ids hm).2, Option.mem_toList] at hmem
      rw [(stateOf_ids hsendable).1]
      exact (hanswer callId hmem).1

theorem mapM_map_of_ok {α β γ : Type} {f : α → Sending β} {g : α → γ} {h : β → γ}
    (hfg : ∀ x y, f x = .ok y → h y = g x) {xs : List α} {ys : List β}
    (hok : xs.mapM f = .ok ys) : ys.map h = xs.map g := by
  induction xs generalizing ys with
  | nil =>
      cases hok
      rfl
  | cons x xs ih =>
      rw [List.mapM_cons] at hok
      cases hx : f x with
      | error error =>
          rw [hx] at hok
          contradiction
      | ok y =>
          cases hxs : xs.mapM f with
          | error error =>
              rw [hx, hxs] at hok
              contradiction
          | ok rest =>
              rw [hx, hxs] at hok
              cases hok
              rw [List.map_cons, List.map_cons, hfg x y hx, ih hxs]

theorem functionCallIdentity_fst {callId name arguments : Json} {r : String × String × String}
    (h : lift (functionCallIdentity c callId name arguments) = .ok r) :
    nonEmptyText callId = some r.1 := by
  unfold functionCallIdentity at h
  cases hid : nonEmptyText callId with
  | none =>
      rw [hid] at h
      contradiction
  | some text =>
      cases hname : nonEmptyText name with
      | none =>
          rw [hid, hname] at h
          contradiction
      | some name =>
          cases harguments : arguments.asStr? with
          | none =>
              rw [hid, hname, harguments] at h
              contradiction
          | some arguments =>
              rw [hid, hname, harguments] at h
              dsimp only at h
              split at h
              · cases h
                rfl
              · contradiction
              · contradiction

/-- What the check of a replayed message says of its ids. -/
theorem verified_ids {calls : List ToolCall} {items : List Json} (hcalls : calls ≠ [])
    (h : verifyReplayToolCalls c calls items = .ok ()) :
    items.filterMap callId? = calls.map ToolCall.id := by
  unfold verifyReplayToolCalls at h
  rw [if_pos hcalls] at h
  cases hlegacy : calls.mapM fun call => lift (functionCallIdentity c (.str call.id)
      (.str call.name) (.str (argumentsOf call))) with
  | error error =>
      rw [hlegacy] at h
      contradiction
  | ok legacy =>
      cases hreplayed : (items.filter fun item => hasType item "function_call").mapM fun item =>
          lift (functionCallIdentity c (item.get "call_id") (item.get "name")
            (item.get "arguments")) with
      | error error =>
          rw [hlegacy, hreplayed] at h
          contradiction
      | ok replayed =>
          rw [hlegacy, hreplayed] at h
          simp only [bind, Except.bind] at h
          split at h
          · contradiction
          · rename_i heq
            have heq : legacy = replayed := not_not.mp heq
            have hids : legacy.map Prod.fst = calls.map ToolCall.id :=
              mapM_map_of_ok (fun call r hr => by
                have hid := nonEmptyText_eq_some.mp (functionCallIdentity_fst hr)
                simpa using hid.1.symm) hlegacy
            have hsome : replayed.map (fun r => some r.1) =
                (items.filter fun item => hasType item "function_call").map
                  fun item => nonEmptyText (item.get "call_id") :=
              mapM_map_of_ok (fun item r hr => (functionCallIdentity_fst hr).symm) hreplayed
            have hfilter : items.filterMap callId? =
                ((items.filter fun item => hasType item "function_call").map
                  fun item => nonEmptyText (item.get "call_id")).filterMap id := by
              rw [List.filterMap_map, List.filterMap_filter]
              rfl
            rw [hfilter, ← hsome, ← hids, heq, List.filterMap_map]
            simp

/-- A message that calls tools brings the calls it makes, replayed or not. -/
theorem callsOf_opens (h : Convertible c m) (hopens : m.opensExchange = true) :
    callsOf m = m.callIds := by
  simp only [Message.opensExchange, Bool.and_eq_true, decide_eq_true_eq, Bool.not_eq_true',
    List.isEmpty_eq_false_iff] at hopens
  obtain ⟨hrole, hcalls⟩ := hopens
  cases hreplay : m.responseItems with
  | none => simp [callsOf, hrole, hreplay]
  | some replay =>
      simp only [Convertible, hrole, hreplay] at h
      simp only [callsOf, hrole, hreplay]
      exact verified_ids hcalls h.2.1

theorem answerOf_tool (h : m.isTool = true) : answerOf m = m.toolCallId ∧ callsOf m = [] := by
  have hrole : m.role = .tool := by simpa [Message.isTool] using h
  simp [answerOf, callsOf, hrole]

theorem answerOf_notTool (h : m.isTool = false) : answerOf m = none := by
  have hrole : m.role ≠ .tool := by simpa [Message.isTool] using h
  simp [answerOf, hrole]

/-- The results of an exchange can be sent behind its leader. -/
theorem sendable_results {leader : Message} {results : List Message}
    (hsendable : Sendable c (messages ++ [leader]))
    (hopens : leader.opensExchange = true) (htools : ∀ r ∈ results, r.isTool = true)
    (hids : (results.map Message.toolCallId).Nodup)
    (hcalled : ∀ r ∈ results, ∃ callId ∈ leader.callIds, r.toolCallId = some callId)
    (hconvertible : ∀ r ∈ results, Convertible c r)
    (hanswered : ∀ callId ∈ messages.filterMap answerOf, callId ∈ messages.flatMap callsOf) :
    Sendable c (messages ++ leader :: results) := by
  induction results using List.reverseRecOn with
  | nil => exact hsendable
  | append_singleton results r ih =>
      rw [List.map_append, List.nodup_append] at hids
      have hbefore := ih (fun r hr => htools r (List.mem_append_left _ hr)) hids.1
        (fun r hr => hcalled r (List.mem_append_left _ hr))
        (fun r hr => hconvertible r (List.mem_append_left _ hr))
      have hlist : messages ++ leader :: (results ++ [r]) =
          (messages ++ leader :: results) ++ [r] := by simp
      obtain ⟨hanswer, hnone⟩ := answerOf_tool (htools r (by simp))
      obtain ⟨hfirst, hleader, hdistinct, -⟩ := sendable_append.mp hsendable
      have hcalls := callsOf_opens hleader hopens
      rw [hlist, sendable_append, hnone, List.append_nil]
      refine ⟨hbefore, hconvertible r (by simp), hbefore.calls, fun callId hcall => ?_⟩
      obtain ⟨called, hcallId, hr⟩ := hcalled r (by simp)
      obtain rfl : called = callId := by
        rw [hanswer, hr] at hcall
        exact Option.some.inj hcall
      rw [hcalls] at hdistinct
      have hother : called ∉ messages.filterMap answerOf := fun hmem =>
        (List.nodup_append.mp hdistinct).2.2 called (hanswered called hmem) called hcallId rfl
      refine ⟨?_, ?_⟩
      · rw [List.flatMap_append, List.flatMap_cons, hcalls]
        simp [hcallId]
      · rw [List.filterMap_append, List.mem_append, not_or]
        refine ⟨hother, fun hmem => ?_⟩
        rw [List.filterMap_cons_none (answerOf_notTool
          (Message.isTool_of_opensExchange leader hopens)), List.mem_filterMap] at hmem
        obtain ⟨earlier, hearlier, hsame⟩ := hmem
        rw [(answerOf_tool (htools earlier (List.mem_append_left _ hearlier))).1] at hsame
        exact hids.2.2 _ (List.mem_map_of_mem hearlier) _ (by simp) (hsame.trans hr.symm)

/-- The answers of an exchange are those of its results. -/
theorem answers_exchange {leader : Message} {results : List Message}
    (hopens : leader.opensExchange = true) (hanswers : Answers leader results) {callId : String} :
    callId ∈ (leader :: results).filterMap answerOf ↔ callId ∈ leader.callIds := by
  have hmem : some callId ∈ results.map Message.toolCallId ↔ callId ∈ leader.callIds := by
    rw [hanswers.paired.mem_iff]
    simp
  rw [List.filterMap_cons_none (answerOf_notTool
    (Message.isTool_of_opensExchange leader hopens)), ← hmem, List.mem_filterMap, List.mem_map]
  constructor
  · intro ⟨r, hr, hcall⟩
    exact ⟨r, hr, (answerOf_tool (hanswers.tools r hr)).1.symm.trans hcall⟩
  · intro ⟨r, hr, hcall⟩
    exact ⟨r, hr, (answerOf_tool (hanswers.tools r hr)).1.trans hcall⟩

/-- Well-formed groups can be sent, and only calls are answered. -/
theorem sendable_groups {gs : List Group} (hgroups : ∀ g ∈ gs, GroupValid g)
    (hconvertible : ∀ m ∈ gs.flatten, Convertible c m)
    (hdistinct : (gs.flatten.flatMap callsOf).Nodup) : Sendable c gs.flatten ∧
      ∀ callId ∈ gs.flatten.filterMap answerOf, callId ∈ gs.flatten.flatMap callsOf := by
  induction gs using List.reverseRecOn with
  | nil => exact ⟨sendable_nil, fun _ h => by contradiction⟩
  | append_singleton gs g ih =>
      rw [List.flatten_append, List.flatten_singleton] at hconvertible hdistinct ⊢
      rw [List.flatMap_append] at hdistinct
      obtain ⟨hsendable, hanswered⟩ := ih
        (fun g hg => hgroups g (List.mem_append_left _ hg))
        (fun m hm => hconvertible m (List.mem_append_left _ hm)) (List.nodup_append.mp hdistinct).1
      have hg := hgroups g (by simp)
      obtain ⟨leader, results, rfl, hnot⟩ := hg.head
      have hleader : Sendable c (gs.flatten ++ [leader]) := by
        rw [sendable_append, answerOf_notTool hnot]
        refine ⟨hsendable, hconvertible leader (by simp), ?_, fun _ h => by contradiction⟩
        rw [List.flatMap_cons, ← List.append_assoc] at hdistinct
        exact (List.nodup_append.mp hdistinct).1
      cases hopens : leader.opensExchange with
      | false =>
          obtain ⟨rfl, -⟩ : results = [] ∧ leader.isTool = false := by
            simpa [GroupValid, hopens] using hg
          refine ⟨hleader, fun callId hmem => ?_⟩
          rw [List.filterMap_append, answers_singleton, answerOf_notTool hnot] at hmem
          rw [List.flatMap_append]
          exact List.mem_append_left _ (hanswered callId (by simpa using hmem))
      | true =>
          have hanswers := (groupValid_exchange leader results hopens).mp hg
          have hcalls := callsOf_opens (hconvertible leader (by simp)) hopens
          refine ⟨sendable_results hleader hopens hanswers.tools ?_ ?_
            (fun r hr => hconvertible r (by simp [hr])) hanswered, fun callId hmem => ?_⟩
          · rw [hanswers.paired.nodup_iff]
            exact hanswers.nodup.map fun _ _ => Option.some.inj
          · intro r hr
            have hid := hanswers.paired.mem_iff.mp (List.mem_map_of_mem hr)
            obtain ⟨callId, hcallId, hsome⟩ := List.mem_map.mp hid
            exact ⟨callId, hcallId, hsome.symm⟩
          · rw [List.filterMap_append, List.mem_append] at hmem
            rw [List.flatMap_append, List.mem_append, List.flatMap_cons, hcalls]
            obtain hbefore | hhere := hmem
            · exact .inl (hanswered callId hbefore)
            · exact .inr (List.mem_append_left _ ((answers_exchange hopens hanswers).mp hhere))

/-- A codec that reads empty arguments. -/
def emptyArguments : Codec where
  jsonLoads text := if text = "\x7b\x7d" then .value (.obj []) else .valueError
  toInt value := value.asInt?
  extractMarkup text := .ok ([], some text)
  estimateMessagesTokens _ _ := 1
  estimateOutputTokens _ := 1
  jsonDumps _ := "\x7b\x7d"
  sha256 text := text
  estimateReplayTokens _ _ := 1
  estimateTokens _ := 1

/-- A call as a provider sends it. -/
def replayedCall : Json :=
  .obj [("type", .str "function_call"), ("call_id", .str "a"), ("name", .str "ls"),
    ("arguments", .str "\x7b\x7d")]

/-- One call is replayed, one is not and its message has a phase. -/
def twoExchanges : List Message :=
  [.ofText .user "look",
    { role := .assistant, toolCalls := [⟨"a", "ls", "\x7b\x7d"⟩],
      responseItems := some [replayedCall] },
    .toolResult "a" "x",
    { role := .assistant, content := some (.str "again"), phase := .str "commentary",
      toolCalls := [⟨"b", "ls", ""⟩] },
    .toolResult "b" "y"]

end OpenCollab.Responses
