import OpenCollab.Lib.Assembly
import OpenCollab.Session.History

/-!
# OpenCollab.Session.Storage

The session store: a base snapshot and a journal of autosave deltas at one path.
A delta is validated before it is appended and again when it is replayed; a
snapshot is written without validation and validated as a whole when it is
loaded.

A message is `Storable` when `_validate_messages` accepts it at any position:

* `validateMessages_storable` — a list of such messages is accepted;
* `appendSnapshotDelta_storable` — every delta made of them is;
* `loadSnapshot_save` — and a saved list of them is loaded as it was.
-/

namespace OpenCollab

open Lib

/-! ## what the validator refuses -/

/-- The `ValueError`s of the store.  Positions and indices count from one. -/
inductive StoreError where
  /-- `missing 'content'` -/
  | missingContent (position : Nat)
  /-- `'content' must be text or a content-part list` -/
  | contentKind (position : Nat)
  /-- `'content' part list must not be empty` -/
  | noParts (position : Nat)
  /-- `content part …: expected object` -/
  | partNotObject (position index : Nat)
  /-- `content part …: expected non-empty 'type'` -/
  | partType (position index : Nat)
  /-- `content part …: … requires text` -/
  | partText (position index : Nat) (partType : String)
  /-- `content part …: 'image_url' requires a URL string or object` -/
  | partImage (position index : Nat)
  /-- `content part …: … requires provider payload fields` -/
  | partPayload (position index : Nat) (partType : String)
  /-- `tool call …: expected non-empty 'id'` -/
  | callId (position index : Nat)
  /-- `tool call …: function requires non-empty 'name'` -/
  | callName (position index : Nat)
  /-- `expected 'content' or 'tool_calls'` -/
  | noBody (position : Nat)
  /-- `expected non-empty 'tool_call_id'` -/
  | toolCallId (position : Nat)
  /-- `autosave sequence must be a positive integer` -/
  | sequence
  /-- `replace_from exceeds restored messages` -/
  | replaceFrom
  /-- `message_count does not match delta` -/
  | messageCount
  /-- `expected at least one message` -/
  | noMessages
  /-- `FileNotFoundError` -/
  | notFound
deriving DecidableEq

/-- A non-empty URL. -/
def isUrl : Json → Bool
  | .str url => !url.isEmpty
  | _ => false

/-- One part of `_validate_content_parts`. -/
def validateContentPart (position index : Nat) : Json → Except StoreError Unit
  | .obj fields =>
      match (Json.obj fields).get "type" with
      | .str partType =>
          if isBlank partType then .error (.partType position index)
          else if partType ∈ ["text", "input_text", "output_text"] then
            if ((Json.obj fields).get "text").asStr?.isSome then .ok ()
            else .error (.partText position index partType)
          else if partType = "image_url" then
            let image := (Json.obj fields).get "image_url"
            if isUrl image || isUrl (image.get "url") then .ok ()
            else .error (.partImage position index)
          else if fields.length = 1 then .error (.partPayload position index partType)
          else .ok ()
      | _ => .error (.partType position index)
  | _ => .error (.partNotObject position index)

/-- `_validate_content_parts`. -/
def validateContentParts (position : Nat) (parts : List Json) : Except StoreError Unit :=
  if parts.isEmpty then .error (.noParts position)
  else (parts.zipIdx 1).forM fun (part, index) => validateContentPart position index part

/-- `_validate_content(message, position, allow_none=…)`. -/
def validateContent (position : Nat) (allowNone : Bool) : Option Json → Except StoreError Unit
  | none => .error (.missingContent position)
  | some (.str _) => .ok ()
  | some (.arr parts) => validateContentParts position parts
  | some .null => if allowNone then .ok () else .error (.contentKind position)
  | some _ => .error (.contentKind position)

/-- One call of `_validate_tool_calls`. -/
def validateToolCall (position index : Nat) (call : ToolCall) : Except StoreError Unit :=
  if call.id = "" then .error (.callId position index)
  else if isBlank call.name then .error (.callName position index)
  else .ok ()

/-- `_validate_tool_calls`. -/
def validateToolCalls (position : Nat) (calls : List ToolCall) : Except StoreError Unit :=
  (calls.zipIdx 1).forM fun (call, index) => validateToolCall position index call

/-- One message of `_validate_messages`. -/
def validateMessage (lineno : Nat) (m : Message) : Except StoreError Unit :=
  match m.role with
  | .system | .developer | .user => validateContent lineno false m.content
  | .assistant => do
      validateToolCalls lineno m.toolCalls
      if m.content.isNone && m.toolCalls.isEmpty then throw (.noBody lineno)
      if m.content.isSome then validateContent lineno (!m.toolCalls.isEmpty) m.content
  | .tool => do
      validateContent lineno false m.content
      match m.toolCallId with
      | none => throw (.toolCallId lineno)
      | some id => if id = "" then throw (.toolCallId lineno)

/-- `_validate_messages`. -/
def validateMessages (messages : List Message) : Except StoreError Unit :=
  (messages.zipIdx 1).forM fun (m, lineno) => validateMessage lineno m

/-! ## the files of one path -/

/-- One autosave delta: the messages from `replaceFrom` on. -/
structure JournalRecord where
  sequence : Nat
  replaceFrom : Nat
  messageCount : Nat
  messages : List Message

/-- The base snapshot with its `autosave_sequence`, and the journal beside it. -/
structure SavedFiles where
  base : Option (Nat × List Message) := none
  journal : List JournalRecord := []

/-- `_newest_persisted_sequence`. -/
def SavedFiles.newestPersistedSequence (files : SavedFiles) : Nat :=
  files.journal.foldl (fun newest record => max newest record.sequence)
    (files.base.elim 0 Prod.fst)

/-- `save`: a full replacement supersedes every durable delta. -/
def SavedFiles.save (files : SavedFiles) (messages : List Message) : SavedFiles where
  base := some
    (if files.journal.isEmpty then 0 else files.newestPersistedSequence + 1, messages)
  journal := []

/-- `append_snapshot_delta`. -/
def SavedFiles.appendSnapshotDelta (files : SavedFiles) (sequence replaceFrom : Nat)
    (messages : List Message) : Except StoreError SavedFiles := do
  if sequence < 1 then throw .sequence
  validateMessages messages
  return { files with
    journal := files.journal ++ [{
      sequence, replaceFrom, messageCount := replaceFrom + messages.length, messages }] }

/-- One record of the replay; a record the state covers already is skipped. -/
def replayRecord (state : Nat × List Message) (record : JournalRecord) :
    Except StoreError (Nat × List Message) := do
  if record.sequence ≤ state.1 then return state
  if state.2.length < record.replaceFrom then throw .replaceFrom
  validateMessages record.messages
  let messages := state.2.take record.replaceFrom ++ record.messages
  if messages.length ≠ record.messageCount then throw .messageCount
  return (record.sequence, messages)

/-- `load_snapshot(path, system_prompt)["messages"]`. -/
def SavedFiles.loadSnapshot (files : SavedFiles) (systemPrompt : String) :
    Except StoreError (List Message) := do
  if files.base.isNone && files.journal.isEmpty then throw .notFound
  let (_, messages) ← files.journal.foldlM replayRecord (files.base.getD (0, []))
  validateMessages messages
  if messages.isEmpty then
    if files.base.isSome then throw .noMessages
    return [.ofText .system systemPrompt]
  return messages

/-! ## storable messages -/

/-- The validator accepts the message at every position. -/
def Message.Storable (m : Message) : Prop := ∀ lineno, validateMessage lineno m = .ok ()

/-- The store accepts the calls. -/
def CallsStorable (calls : List ToolCall) : Prop :=
  ∀ call ∈ calls, call.id ≠ "" ∧ isBlank call.name = false

theorem validateMessages_storable {messages : List Message} (h : ∀ m ∈ messages, m.Storable) :
    validateMessages messages = .ok () := by
  refine forM_eq_ok.mpr ?_
  intro entry hentry
  exact h entry.1 (List.fst_mem_of_mem_zipIdx hentry) entry.2

theorem validateToolCalls_storable {calls : List ToolCall} (h : CallsStorable calls)
    (lineno : Nat) : validateToolCalls lineno calls = .ok () := by
  refine forM_eq_ok.mpr ?_
  intro entry hentry
  obtain ⟨hid, hname⟩ := h entry.1 (List.fst_mem_of_mem_zipIdx hentry)
  simp [validateToolCall, hid, hname]

/-- A message with a text that makes no calls, unless it is a tool result. -/
theorem storable_of_text {m : Message} {text : String} (hr : m.role ≠ .tool)
    (hcontent : m.content = some (.str text)) (hcalls : m.toolCalls = []) : m.Storable := by
  intro lineno
  unfold validateMessage
  cases hrole : m.role with
  | tool => contradiction
  | system | developer | user => rw [hcontent]; rfl
  | assistant =>
      rw [hcontent, hcalls]
      rfl

theorem storable_ofText {role : Role} (hr : role ≠ .tool) (text : String) :
    (Message.ofText role text).Storable :=
  storable_of_text hr rfl rfl

/-- The answer to a call with an id. -/
theorem storable_toolResult {id : String} (hid : id ≠ "") (content : String) :
    (Message.toolResult id content).Storable := by
  intro lineno
  simp [validateMessage, Message.toolResult, validateContent, hid, bind, Except.bind, pure,
    Except.pure]

/-- The message a response becomes, when the store accepts its calls. -/
theorem storable_assistantMessage {r : Response} {m : Message} (hcalls : CallsStorable (storedCalls r))
    (hm : assistantMessage? r = some m) : m.Storable := by
  unfold assistantMessage? at hm
  split at hm
  · obtain ⟨text, -, rfl⟩ := Option.map_eq_some_iff.mp hm
    exact storable_ofText (by decide) text
  rename_i htruncated
  rw [storedCalls, if_neg htruncated] at hcalls
  split at hm
  · contradiction
  rename_i hbody
  obtain rfl := Option.some.inj hm
  intro lineno
  unfold validateMessage
  dsimp only
  rw [validateToolCalls_storable hcalls lineno, Option.isNone_map, if_neg hbody]
  cases r.visible? with
  | none => rfl
  | some text => rfl

/-- A user message that steering is folded into stays storable. -/
theorem storable_foldSteering {m : Message} (hr : m.role = .user) (hm : m.Storable) (text : String) :
    (foldSteering m text).Storable := by
  intro lineno
  have hold := hm lineno
  rw [validateMessage, hr] at hold
  rw [validateMessage, show (foldSteering m text).role = .user from hr]
  dsimp only at hold ⊢
  unfold foldSteering
  cases hc : m.content with
  | none => rfl
  | some content =>
      rw [hc] at hold
      cases content with
      | arr parts =>
          simp only [validateContent, validateContentParts] at hold ⊢
          cases parts with
          | nil => contradiction
          | cons part parts =>
              rw [if_neg (by simp)] at hold ⊢
              rw [forM_eq_ok] at hold ⊢
              rw [List.zipIdx_append]
              intro entry hentry
              obtain hentry | hentry := List.mem_append.mp hentry
              · exact hold entry hentry
              · rw [List.zipIdx_singleton, List.mem_singleton] at hentry
                rw [hentry]
                rfl
      | str _ | null | bool _ | int _ | float _ | obj _ => rfl

/-! ## deltas and checkpoints of storable messages -/

variable {messages : List Message}

/-- **Every autosave delta is accepted.** -/
theorem appendSnapshotDelta_storable (h : ∀ m ∈ messages, m.Storable) (files : SavedFiles)
    {sequence : Nat} (hs : 1 ≤ sequence) (replaceFrom : Nat) :
    ∃ files', files.appendSnapshotDelta sequence replaceFrom (messages.drop replaceFrom)
      = .ok files' := by
  have hdelta : validateMessages (messages.drop replaceFrom) = .ok () :=
    validateMessages_storable fun m hm => h m (List.mem_of_mem_drop hm)
  rw [SavedFiles.appendSnapshotDelta, if_neg (by omega), hdelta]
  exact ⟨_, rfl⟩

/-- **A saved list is loaded** as it was. -/
theorem loadSnapshot_save (h : ∀ m ∈ messages, m.Storable) (hne : messages ≠ [])
    (files : SavedFiles) (systemPrompt : String) :
    (files.save messages).loadSnapshot systemPrompt = .ok messages := by
  have hempty : messages.isEmpty = false := by
    rw [List.isEmpty_eq_false_iff]
    exact hne
  simp only [SavedFiles.loadSnapshot, SavedFiles.save, Option.isNone_some, Bool.false_and,
    Bool.false_eq_true, if_false, List.foldlM_nil, Option.getD_some, bind, Except.bind, pure,
    Except.pure, validateMessages_storable h, hempty]

end OpenCollab
