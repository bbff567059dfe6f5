import OpenCollab.Lib.Assembly
import OpenCollab.Provider.ResponsesInput
import OpenCollab.Session.Thinking

/-!
# OpenCollab.Provider.AnthropicInput

`convert_to_anthropic_messages` of `anthropic_provider.py`: a stored history becomes the
messages of an Anthropic request.  A call becomes a `tool_use` block of its assistant
message, and the results that follow it the `tool_result` blocks of *one* user message.

* `Converted.add_append` — what a message becomes does not depend on those before it,
  a tool result apart;
* `foldlM_results` — the results of an exchange end up in one message;
* `converted_iff` — which histories can be converted;
* `converted_exchanged` — in a history that keeps the tool protocol, every call is
  answered by the message behind it.
-/

namespace OpenCollab.Anthropic

open Lib
open Responses (hasType isUnhashable)
open Thinking (anthropicContent)

/-- Why a history cannot be converted; `index` is the message's. -/
inductive InputError where
  | contentShape (index : Nat) (role : Role)
  | blockShape (index : Nat) (role : Role) (block : Nat)
  | blockType (index : Nat) (role : Role) (type : Json)
  | missingText (index : Nat) (role : Role) (block : Nat)
  | invalidArguments (index : Nat) (name callId : String)
  | argumentsShape (index : Nat) (name callId : String)
  | typeError
  | recursionError
deriving DecidableEq, Repr

abbrev Converting := Except InputError

/-! ## contents -/

def textBlock (text : String) : Json := .obj [("type", .str "text"), ("text", .str text)]

/-- One block of `_normalize_openai_content`. -/
def normalizeBlock (index : Nat) (role : Role) (block : Json × Nat) : Converting Json :=
  if !block.1.isObj then throw (.blockShape index role block.2)
  else if isUnhashable (block.1.get "type") then throw .typeError
  else if block.1.get "type" ≠ .str "text" ∧ block.1.get "type" ≠ .str "input_text" then
    throw (.blockType index role (block.1.get "type"))
  else
    match block.1.get "text" with
    | .str text => pure (textBlock text)
    | _ => throw (.missingText index role block.2)

/-- `_normalize_openai_content`. -/
def normalizeOpenaiContent (index : Nat) (role : Role) : Json → Converting (List Json)
  | .str text => pure (if text = "" then [] else [textBlock text])
  | .arr blocks => blocks.zipIdx.mapM (normalizeBlock index role)
  | _ => throw (.contentShape index role)

/-- `block["text"]`. -/
def blockText (block : Json) : String := (block.get "text").asStr?.getD ""

/-- A content as it is sent: a text stays one. -/
def sentContent (content : Json) (blocks : List Json) : Json :=
  match content with
  | .str text => .str text
  | _ => .arr blocks

/-! ## calls and results -/

def toolUse (call : ToolCall) (input : List (String × Json)) : Json :=
  .obj [("type", .str "tool_use"), ("id", .str call.id), ("name", .str call.name),
    ("input", .obj input)]

/-- `_convert_tool_call`, for arguments that are text. -/
def convertToolCall (jsonLoads : String → JsonLoads) (index : Nat) (call : ToolCall) :
    Converting Json :=
  match jsonLoads call.arguments with
  | .value (.obj input) => pure (toolUse call input)
  | .value _ => throw (.argumentsShape index call.name call.id)
  | .valueError => throw (.invalidArguments index call.name call.id)
  | .recursionError => throw .recursionError

/-- The content of an assistant message; `None` is no content. -/
def assistantContent (m : Message) : Json :=
  match m.content with
  | none | some .null => .str ""
  | some content => content

/-- `_convert_assistant_content`. -/
def convertAssistantContent (jsonLoads : String → JsonLoads) (index : Nat) (m : Message) :
    Converting (List Json) :=
  match anthropicContent m with
  | some blocks => pure blocks
  | none => do
      let blocks ← normalizeOpenaiContent index .assistant (assistantContent m)
      let calls ← m.toolCalls.mapM (convertToolCall jsonLoads index)
      pure (blocks ++ calls)

/-- A message of a request. -/
structure Turn where
  role : Role
  content : Json
deriving DecidableEq, Repr

/-- The block of a tool result. -/
def resultBlock (m : Message) : Json :=
  .obj [("type", .str "tool_result"), ("tool_use_id", .str (m.toolCallId.getD "")),
    ("content", m.content.getD (.str ""))]

/-- `_append_tool_result`. -/
def appendToolResult (turns : List Turn) (m : Message) : List Turn :=
  match turns.getLast? with
  | some ⟨.user, .arr blocks⟩ => turns.dropLast ++ [⟨.user, .arr (blocks ++ [resultBlock m])⟩]
  | _ => turns ++ [⟨.user, .arr [resultBlock m]⟩]

/-! ## the loop -/

/-- The locals of `convert_to_anthropic_messages`. -/
structure Converted where
  systemParts : List String := []
  turns : List Turn := []
deriving DecidableEq, Repr

def Converted.push (s : Converted) (turn : Turn) : Converted :=
  { s with turns := s.turns ++ [turn] }

def Converted.append (s t : Converted) : Converted :=
  ⟨s.systemParts ++ t.systemParts, s.turns ++ t.turns⟩

/-- `message.get("content", "")`. -/
def contentOf (m : Message) : Json := m.content.getD (.str "")

/-- The body of the loop. -/
def Converted.add (jsonLoads : String → JsonLoads) (s : Converted) (m : Message × Nat) :
    Converting Converted :=
  match m.1.role with
  | .system | .developer => do
      let blocks ← normalizeOpenaiContent m.2 m.1.role (contentOf m.1)
      if m.1.compacted then pure (s.push ⟨.user, sentContent (contentOf m.1) blocks⟩)
      else pure { s with systemParts := s.systemParts ++ [String.join (blocks.map blockText)] }
  | .user => do
      let blocks ← normalizeOpenaiContent m.2 m.1.role (contentOf m.1)
      pure (s.push ⟨.user, sentContent (contentOf m.1) blocks⟩)
  | .assistant => do
      let blocks ← convertAssistantContent jsonLoads m.2 m.1
      pure (if blocks = [] then s else s.push ⟨.assistant, .arr blocks⟩)
  | .tool => pure { s with turns := appendToolResult s.turns m.1 }

/-- `convert_to_anthropic_messages`. -/
def convertToAnthropicMessages (jsonLoads : String → JsonLoads) (messages : List Message) :
    Converting (List String × List Turn) := do
  let s ← messages.zipIdx.foldlM (Converted.add jsonLoads) {}
  pure (s.systemParts, s.turns)

/-! ## what a request says -/

/-- The id of a call among the blocks. -/
def toolUse? (block : Json) : Option Json :=
  if hasType block "tool_use" then some (block.get "id") else none

/-- The blocks of a message. -/
def Turn.blocks (turn : Turn) : List Json := turn.content.asArr?.getD []

/-- The calls of a message. -/
def Turn.toolUses (turn : Turn) : List Json := turn.blocks.filterMap toolUse?

/-- The results in a message. -/
def Turn.results (turn : Turn) : List Json := turn.blocks.filter (hasType · "tool_result")

/-- **Every call is answered by the message behind it**, once, and nothing else is. -/
inductive Exchanged : List Turn → Prop
  | nil : Exchanged []
  | turn {turn : Turn} {turns : List Turn} : turn.toolUses = [] → turn.results = [] →
      Exchanged turns → Exchanged (turn :: turns)
  | exchange {calls answers : Turn} {turns : List Turn} : calls.role = .assistant →
      calls.toolUses ≠ [] → calls.toolUses.Nodup → calls.results = [] →
      answers.role = .user → answers.results = answers.blocks →
      (answers.blocks.map (·.get "tool_use_id")).Perm calls.toolUses →
      Exchanged turns → Exchanged (calls :: answers :: turns)

/-- The calls that a message of a history brings into a request. -/
def callsOf (m : Message) : List Json :=
  if m.role = .assistant then m.callIds.map .str else []

/-- The native content of a message makes the calls that the message makes. -/
def Mirrors (m : Message) : Prop :=
  ∀ blocks, m.role = .assistant → anthropicContent m = some blocks →
    blocks.filterMap toolUse? = m.callIds.map .str ∧ blocks.filter (hasType · "tool_result") = []

/-- A content of text blocks. -/
def IsText : Json → Prop
  | .str _ => True
  | .arr blocks => ∀ block ∈ blocks,
      (block.get "type" = .str "text" ∨ block.get "type" = .str "input_text") ∧
      ∃ text, block.get "text" = .str text
  | _ => False

/-- A message can be converted. -/
def Convertible (jsonLoads : String → JsonLoads) (m : Message) : Prop :=
  match m.role with
  | .tool => True
  | .assistant => (anthropicContent m).isSome = true ∨
      IsText (assistantContent m) ∧
        ∀ call ∈ m.toolCalls, ∃ input, jsonLoads call.arguments = .value (.obj input)
  | _ => IsText (contentOf m)

/-! ## one message -/

variable {jsonLoads : String → JsonLoads} {index : Nat} {role : Role} {m : Message}
  {blocks : List Json} {s s' : Converted}

theorem normalizeBlock_eq_ok {block : Json × Nat} {sent : Json} :
    normalizeBlock index role block = .ok sent ↔
      (block.1.get "type" = .str "text" ∨ block.1.get "type" = .str "input_text") ∧
        ∃ text, block.1.get "text" = .str text ∧ sent = textBlock text := by
  obtain ⟨block, at_⟩ := block
  unfold normalizeBlock
  cases block with
  | obj items =>
      simp only [Json.isObj, Bool.not_true, Bool.false_eq_true, if_false]
      by_cases htype : (Json.obj items).get "type" = .str "text" ∨
          (Json.obj items).get "type" = .str "input_text"
      · have hhash : isUnhashable ((Json.obj items).get "type") = false := by
          obtain htype | htype := htype <;> rw [htype] <;> rfl
        have hknown : ¬((Json.obj items).get "type" ≠ .str "text" ∧
            (Json.obj items).get "type" ≠ .str "input_text") := by tauto
        rw [hhash, if_neg Bool.false_ne_true, if_neg hknown]
        cases htext : (Json.obj items).get "text" with
        | str text => simp [htype, pure, Except.pure, eq_comm]
        | _ => simp [throw, throwThe, MonadExceptOf.throw]
      · have hknown : (Json.obj items).get "type" ≠ .str "text" ∧
            (Json.obj items).get "type" ≠ .str "input_text" := by tauto
        rw [if_pos hknown]
        simp only [htype, false_and, iff_false]
        split <;> simp [throw, throwThe, MonadExceptOf.throw]
  | _ => simp [Json.isObj, Json.get, Json.get?, throw, throwThe, MonadExceptOf.throw]

theorem normalizeOpenaiContent_isOk {content : Json} :
    (∃ blocks, normalizeOpenaiContent index role content = .ok blocks) ↔ IsText content := by
  cases content with
  | str text => exact ⟨fun _ => trivial, fun _ => ⟨_, rfl⟩⟩
  | arr blocks =>
      simp only [normalizeOpenaiContent, mapM_isOk, normalizeBlock_eq_ok, IsText]
      constructor
      · intro h block hblock
        obtain ⟨i, hi, rfl⟩ := List.mem_iff_getElem.mp hblock
        have hat : (blocks[i], i) ∈ blocks.zipIdx := by simp [List.mem_zipIdx_iff_getElem?, hi]
        obtain ⟨sent, htype, text, htext, -⟩ := h (blocks[i], i) hat
        exact ⟨htype, text, htext⟩
      · intro h block hblock
        obtain ⟨htype, text, htext⟩ := h block.1 (List.fst_mem_of_mem_zipIdx hblock)
        exact ⟨_, htype, text, htext, rfl⟩
  | _ => simp [normalizeOpenaiContent, IsText, throw, throwThe, MonadExceptOf.throw]

/-- A content becomes blocks of text. -/
theorem texts_of_normalized {content : Json}
    (h : normalizeOpenaiContent index role content = .ok blocks) :
    ∀ block ∈ blocks, ∃ text, block = textBlock text := by
  cases content with
  | str text =>
      simp only [normalizeOpenaiContent, pure, Except.pure, Except.ok.injEq] at h
      subst h
      split
      · simp
      · simp
  | arr parts =>
      intro block hblock
      have hall := mapM_eq_ok.mp h
      obtain ⟨part, -, hpart⟩ := exists_of_forall₂ hall.flip hblock
      obtain ⟨-, text, -, hsent⟩ := normalizeBlock_eq_ok.mp hpart
      exact ⟨text, hsent⟩
  | _ => contradiction

/-- Text neither calls nor answers. -/
theorem plain_of_texts (h : ∀ block ∈ blocks, ∃ text, block = textBlock text) :
    blocks.filterMap toolUse? = [] ∧ blocks.filter (hasType · "tool_result") = [] := by
  rw [List.filterMap_eq_nil_iff, List.filter_eq_nil_iff]
  constructor
  · intro block hblock
    obtain ⟨text, rfl⟩ := h block hblock
    simp [toolUse?, hasType, textBlock, Json.get, Json.get?]
  · intro block hblock
    obtain ⟨text, rfl⟩ := h block hblock
    simp [hasType, textBlock, Json.get, Json.get?]

theorem toolUse?_toolUse (call : ToolCall) (input : List (String × Json)) :
    toolUse? (toolUse call input) = some (.str call.id) := by
  simp [toolUse?, toolUse, hasType, Json.get, Json.get?, Json.lookup_cons_ite]

theorem convertToolCall_eq_ok {call : ToolCall} {block : Json} :
    convertToolCall jsonLoads index call = .ok block ↔
      ∃ input, jsonLoads call.arguments = .value (.obj input) ∧ block = toolUse call input := by
  unfold convertToolCall
  cases jsonLoads call.arguments with
  | value value =>
      cases value with
      | obj input => simp [pure, Except.pure, eq_comm]
      | _ => simp [throw, throwThe, MonadExceptOf.throw]
  | _ => simp [throw, throwThe, MonadExceptOf.throw]

/-- The calls are all there, in order. -/
theorem toolUses_of_converted {calls : List ToolCall}
    (h : calls.mapM (convertToolCall jsonLoads index) = .ok blocks) :
    blocks.filterMap toolUse? = calls.map (Json.str ∘ ToolCall.id) ∧
      blocks.filter (hasType · "tool_result") = [] := by
  have hall := mapM_eq_ok.mp h
  clear h
  induction hall with
  | nil => exact ⟨rfl, rfl⟩
  | cons hblock _ ih =>
      obtain ⟨input, -, rfl⟩ := convertToolCall_eq_ok.mp hblock
      constructor
      · rw [List.filterMap_cons_some (toolUse?_toolUse _ _), ih.1, List.map_cons]
        rfl
      · rw [List.filter_cons_of_neg (by simp [toolUse, hasType, Json.get, Json.get?]),
          ih.2]

/-- What an assistant message becomes makes its calls, and answers none. -/
theorem toolUses_of_assistant (hrole : m.role = .assistant) (hmirrors : Mirrors m)
    (h : convertAssistantContent jsonLoads index m = .ok blocks) :
    blocks.filterMap toolUse? = m.callIds.map .str ∧
      blocks.filter (hasType · "tool_result") = [] := by
  unfold convertAssistantContent at h
  cases hnative : anthropicContent m with
  | some native =>
      rw [hnative] at h
      cases h
      exact hmirrors blocks hrole hnative
  | none =>
      rw [hnative] at h
      simp only [bind_eq_ok] at h
      obtain ⟨texts, htexts, calls, hcalls, h⟩ := h
      cases h
      have hplain := plain_of_texts (texts_of_normalized htexts)
      have huses := toolUses_of_converted hcalls
      rw [List.filterMap_append, List.filter_append, hplain.1, hplain.2, huses.1, huses.2]
      simp [Message.callIds]

theorem convertAssistantContent_isOk :
    (∃ blocks, convertAssistantContent jsonLoads index m = .ok blocks) ↔
      (anthropicContent m).isSome = true ∨ IsText (assistantContent m) ∧
        ∀ call ∈ m.toolCalls, ∃ input, jsonLoads call.arguments = .value (.obj input) := by
  unfold convertAssistantContent
  cases anthropicContent m with
  | some native => simp [pure, Except.pure]
  | none =>
      have hcalls : (∃ calls, m.toolCalls.mapM (convertToolCall jsonLoads index) = .ok calls) ↔
          ∀ call ∈ m.toolCalls, ∃ input, jsonLoads call.arguments = .value (.obj input) := by
        simp only [mapM_isOk, convertToolCall_eq_ok]
        grind
      rw [← hcalls, ← @normalizeOpenaiContent_isOk index .assistant]
      simp only [Option.isSome_none, Bool.false_eq_true, false_or, bind_eq_ok]
      constructor
      · intro ⟨_, texts, htexts, calls, hcalls, _⟩
        exact ⟨⟨texts, htexts⟩, calls, hcalls⟩
      · intro ⟨⟨texts, htexts⟩, calls, hcalls⟩
        exact ⟨_, texts, htexts, calls, hcalls, rfl⟩

/-- Whether a message can be converted does not depend on those before it. -/
theorem add_isOk : (∃ s', s.add jsonLoads (m, index) = .ok s') ↔ Convertible jsonLoads m := by
  have hcontent {content : Json} {next : List Json → Converted} :
      (∃ s', (do
        let blocks ← normalizeOpenaiContent index m.role content
        pure (next blocks) : Converting Converted) = .ok s') ↔ IsText content := by
    rw [← @normalizeOpenaiContent_isOk index m.role]
    simp [bind_eq_ok, pure, Except.pure]
  have hsystem : (∃ s', (do
      let blocks ← normalizeOpenaiContent index m.role (contentOf m)
      if m.compacted then pure (s.push ⟨.user, sentContent (contentOf m) blocks⟩)
      else pure { s with systemParts := s.systemParts ++ [String.join (blocks.map blockText)] } :
        Converting Converted) = .ok s') ↔ IsText (contentOf m) := by
    cases m.compacted with
    | true => exact hcontent
    | false => exact hcontent
  cases hrole : m.role with
  | assistant =>
      simp only [Converted.add, Convertible, hrole, ← @convertAssistantContent_isOk _ index m]
      simp [bind_eq_ok, pure, Except.pure]
  | tool => simp [Converted.add, Convertible, hrole, pure, Except.pure]
  | user =>
      rw [hrole] at hcontent
      simpa only [Converted.add, Convertible, hrole] using hcontent
  | system =>
      rw [hrole] at hsystem
      simpa only [Converted.add, Convertible, hrole] using hsystem
  | developer =>
      rw [hrole] at hsystem
      simpa only [Converted.add, Convertible, hrole] using hsystem

/-- What a message becomes does not depend on those before it, a tool result apart. -/
theorem add_append (h : m.isTool = false) :
    s.add jsonLoads (m, index) = (Converted.add jsonLoads {} (m, index)).map s.append := by
  cases hrole : m.role with
  | tool => simp [Message.isTool, hrole] at h
  | assistant =>
      simp only [Converted.add, hrole]
      cases convertAssistantContent jsonLoads index m with
      | error error => rfl
      | ok blocks =>
          by_cases hblocks : blocks = []
          · simp [hblocks, bind, Except.bind, pure, Except.pure, Except.map, Converted.append]
          · simp [hblocks, bind, Except.bind, pure, Except.pure, Except.map, Converted.append,
              Converted.push]
  | user =>
      simp only [Converted.add, hrole]
      cases normalizeOpenaiContent index .user (contentOf m) with
      | error error => rfl
      | ok blocks =>
          simp [bind, Except.bind, pure, Except.pure, Except.map, Converted.append, Converted.push]
  | _ =>
      simp only [Converted.add, hrole]
      cases normalizeOpenaiContent index _ (contentOf m) with
      | error error => rfl
      | ok blocks =>
          cases m.compacted with
          | true =>
              simp [bind, Except.bind, pure, Except.pure, Except.map, Converted.append,
                Converted.push]
          | false =>
              simp [bind, Except.bind, pure, Except.pure, Except.map, Converted.append]

/-- A content that is sent is text. -/
theorem plain_sent {content : Json} (h : normalizeOpenaiContent index role content = .ok blocks) :
    Turn.toolUses ⟨.user, sentContent content blocks⟩ = [] ∧
      Turn.results ⟨.user, sentContent content blocks⟩ = [] := by
  have hplain := plain_of_texts (texts_of_normalized h)
  cases content with
  | str text => exact ⟨rfl, rfl⟩
  | _ => exact hplain

/-- A message that is no tool result becomes at most one message, which makes its calls. -/
theorem turns_of_add (h : m.isTool = false) (hmirrors : Mirrors m)
    (hadd : Converted.add jsonLoads {} (m, index) = .ok s) :
    (s.turns = [] ∧ callsOf m = []) ∨
      ∃ turn, s.turns = [turn] ∧ turn.toolUses = callsOf m ∧ turn.results = [] ∧
        (callsOf m ≠ [] → turn.role = .assistant) := by
  cases hrole : m.role with
  | tool => simp [Message.isTool, hrole] at h
  | assistant =>
      simp only [Converted.add, hrole, bind_eq_ok] at hadd
      obtain ⟨blocks, hblocks, hadd⟩ := hadd
      cases hadd
      have huses := toolUses_of_assistant hrole hmirrors hblocks
      have hcalls : callsOf m = m.callIds.map .str := if_pos hrole
      by_cases hempty : blocks = []
      · subst hempty
        exact .inl ⟨rfl, hcalls.trans huses.1.symm⟩
      · rw [if_neg hempty]
        exact .inr
          ⟨⟨.assistant, .arr blocks⟩, rfl, huses.1.trans hcalls.symm, huses.2, fun _ => rfl⟩
  | user =>
      have hcalls : callsOf m = [] := by simp [callsOf, hrole]
      simp only [Converted.add, hrole, bind_eq_ok] at hadd
      obtain ⟨blocks, hblocks, hadd⟩ := hadd
      cases hadd
      have hplain := plain_sent hblocks
      rw [hcalls]
      exact .inr ⟨_, rfl, hplain.1, hplain.2, fun hne => absurd rfl hne⟩
  | _ =>
      have hcalls : callsOf m = [] := by simp [callsOf, hrole]
      simp only [Converted.add, hrole, bind_eq_ok] at hadd
      obtain ⟨blocks, hblocks, hadd⟩ := hadd
      have hplain := plain_sent hblocks
      rw [hcalls]
      cases hcompacted : m.compacted with
      | true =>
          rw [hcompacted] at hadd
          cases hadd
          exact .inr ⟨_, rfl, hplain.1, hplain.2, fun hne => absurd rfl hne⟩
      | false =>
          rw [hcompacted] at hadd
          cases hadd
          exact .inl ⟨rfl, rfl⟩

/-! ## tool results -/

/-- A further result goes into the message of the results before it. -/
theorem foldlM_more {results : List Message} (htools : ∀ r ∈ results, r.isTool = true)
    (blocks : List Json) (n : Nat) :
    (results.zipIdx n).foldlM (Converted.add jsonLoads) (s.push ⟨.user, .arr blocks⟩) =
      .ok (s.push ⟨.user, .arr (blocks ++ results.map resultBlock)⟩) := by
  induction results generalizing blocks n with
  | nil => simp [pure, Except.pure]
  | cons r results ih =>
      have hrole : r.role = .tool := by simpa [Message.isTool] using htools r (by simp)
      have hadd : (s.push ⟨.user, .arr blocks⟩).add jsonLoads (r, n) =
          .ok (s.push ⟨.user, .arr (blocks ++ [resultBlock r])⟩) := by
        simp [Converted.add, hrole, Converted.push, appendToolResult, pure, Except.pure]
      rw [List.zipIdx_cons, List.foldlM_cons, hadd]
      change (results.zipIdx (n + 1)).foldlM _ (s.push _) = _
      rw [ih (fun r hr => htools r (List.mem_cons_of_mem _ hr))]
      simp

/-- **The results of an exchange end up in one message.** -/
theorem foldlM_results {results : List Message} (htools : ∀ r ∈ results, r.isTool = true)
    (hresults : results ≠ []) {calls : Turn} (hcalls : calls.role = .assistant) (n : Nat) :
    (results.zipIdx n).foldlM (Converted.add jsonLoads) (s.push calls) =
      .ok ((s.push calls).push ⟨.user, .arr (results.map resultBlock)⟩) := by
  cases results with
  | nil => contradiction
  | cons r results =>
      have hrole : r.role = .tool := by simpa [Message.isTool] using htools r (by simp)
      obtain ⟨role, content⟩ := calls
      obtain rfl : role = .assistant := hcalls
      have hadd : (s.push ⟨.assistant, content⟩).add jsonLoads (r, n) =
          .ok ((s.push ⟨.assistant, content⟩).push ⟨.user, .arr [resultBlock r]⟩) := by
        simp [Converted.add, hrole, Converted.push, appendToolResult, pure, Except.pure]
      rw [List.zipIdx_cons, List.foldlM_cons, hadd]
      change (results.zipIdx (n + 1)).foldlM _ (Converted.push _ _) = _
      rw [foldlM_more (fun r hr => htools r (List.mem_cons_of_mem _ hr))]
      simp

theorem hasType_resultBlock (r : Message) : hasType (resultBlock r) "tool_result" = true := by
  simp [hasType, resultBlock, Json.get, Json.get?]

theorem toolUse?_resultBlock (r : Message) : toolUse? (resultBlock r) = none := by
  simp [toolUse?, hasType, resultBlock, Json.get, Json.get?]

theorem get_resultBlock (r : Message) :
    (resultBlock r).get "tool_use_id" = .str (r.toolCallId.getD "") := by
  simp [resultBlock, Json.get, Json.get?, Json.lookup_cons_ite]

/-- The message of the results holds them, and makes no call. -/
theorem blocks_results (results : List Message) :
    let answers : Turn := ⟨.user, .arr (results.map resultBlock)⟩
    answers.results = answers.blocks ∧ answers.toolUses = [] := by
  constructor
  · simp [Turn.results, Turn.blocks, Json.asArr?, hasType_resultBlock]
  · simp [Turn.toolUses, Turn.blocks, Json.asArr?, toolUse?_resultBlock]

/-! ## histories -/

/-- What is sent of a part of a history. -/
structure Sent (messages : List Message) (turns : List Turn) : Prop where
  exchanged : Exchanged turns
  toolUses : turns.flatMap Turn.toolUses = messages.flatMap callsOf
  results : turns.flatMap Turn.results = (messages.filter Message.isTool).map resultBlock

theorem callsOf_solo (h : m.opensExchange = false) : callsOf m = [] := by
  by_cases hrole : m.role = .assistant
  · have hcalls : m.toolCalls = [] := by simpa [Message.opensExchange, hrole] using h
    simp [callsOf, Message.callIds, hcalls]
  · simp [callsOf, hrole]

theorem callsOf_tool (h : m.isTool = true) : callsOf m = [] := by
  have hrole : m.role = .tool := by simpa [Message.isTool] using h
  simp [callsOf, hrole]

theorem callsOf_opens (h : m.opensExchange = true) :
    callsOf m = m.callIds.map .str ∧ callsOf m ≠ [] := by
  simp only [Message.opensExchange, Bool.and_eq_true, decide_eq_true_eq, Bool.not_eq_true',
    List.isEmpty_eq_false_iff] at h
  have hcalls : callsOf m = m.callIds.map .str := if_pos h.1
  exact ⟨hcalls, by simpa [hcalls, Message.callIds] using h.2⟩

/-- A message on its own is sent before the others. -/
theorem Sent.solo {messages : List Message} {turns own : List Turn}
    (hsent : Sent messages turns) (hopens : m.opensExchange = false) (htool : m.isTool = false)
    (hown : own = [] ∨ ∃ turn, own = [turn] ∧ turn.toolUses = [] ∧ turn.results = []) :
    Sent (m :: messages) (own ++ turns) := by
  have hcalls := callsOf_solo hopens
  have hfilter : (m :: messages).filter Message.isTool = messages.filter Message.isTool :=
    List.filter_cons_of_neg (by simp [htool])
  obtain rfl | ⟨turn, rfl, huses, hresults⟩ := hown
  · exact ⟨hsent.exchanged, by rw [List.flatMap_cons, hcalls]; exact hsent.toolUses,
      by rw [hfilter]; exact hsent.results⟩
  · refine ⟨.turn huses hresults hsent.exchanged, ?_, ?_⟩
    · rw [List.singleton_append, List.flatMap_cons, List.flatMap_cons, huses, hcalls,
        hsent.toolUses]
    · rw [List.singleton_append, List.flatMap_cons, hresults, hfilter, hsent.results,
        List.nil_append]

/-- An exchange is sent before the others. -/
theorem Sent.exchange {leader : Message} {messages results : List Message} {turns : List Turn}
    {calls : Turn} (hsent : Sent messages turns) (hopens : leader.opensExchange = true)
    (hanswers : Answers leader results) (hrole : calls.role = .assistant)
    (huses : calls.toolUses = callsOf leader) (hnone : calls.results = []) :
    Sent ((leader :: results) ++ messages)
      (calls :: ⟨.user, .arr (results.map resultBlock)⟩ :: turns) := by
  obtain ⟨hids, hne⟩ := callsOf_opens hopens
  obtain ⟨hblocks, hplain⟩ := blocks_results results
  have hnocalls : results.flatMap callsOf = [] :=
    List.flatMap_eq_nil_iff.mpr fun r hr => callsOf_tool (hanswers.tools r hr)
  have hresults : (leader :: results).filter Message.isTool = results := by
    rw [List.filter_cons_of_neg (by simp [Message.isTool_of_opensExchange leader hopens]),
      List.filter_eq_self.mpr hanswers.tools]
  refine ⟨.exchange hrole (huses ▸ hne) ?_ hnone rfl hblocks ?_ hsent.exchanged, ?_, ?_⟩
  · rw [huses, hids]
    exact hanswers.nodup.map fun _ _ => Json.str.inj
  · have hperm := hanswers.paired.map fun id => Json.str (id.getD "")
    rw [List.map_map, List.map_map] at hperm
    rw [huses, hids]
    change ((results.map resultBlock).map _).Perm _
    rw [List.map_map]
    refine (List.Perm.of_eq (List.map_congr_left fun r _ => get_resultBlock r)).trans ?_
    exact hperm
  · rw [List.flatMap_cons, List.flatMap_cons, huses, hplain, List.flatMap_append,
      List.flatMap_cons, hnocalls, hsent.toolUses]
    simp
  · rw [List.flatMap_cons, List.flatMap_cons, hnone, hblocks, List.filter_append, hresults,
      hsent.results, List.map_append]
    rfl

/-- What a group becomes goes before what the others become. -/
theorem foldlM_group {g : Group} (hg : GroupValid g) (hmirrors : ∀ m ∈ g, Mirrors m) {n : Nat}
    (h : (g.zipIdx n).foldlM (Converted.add jsonLoads) s = .ok s') :
    ∃ t : Converted, s' = s.append t ∧ ∀ messages turns, Sent messages turns →
      Sent (g ++ messages) (t.turns ++ turns) := by
  obtain ⟨leader, results, rfl, hnot⟩ := hg.head
  rw [List.zipIdx_cons, List.foldlM_cons, add_append hnot, bind_eq_ok] at h
  obtain ⟨next, hnext, h⟩ := h
  obtain ⟨t, ht, rfl⟩ := map_eq_ok.mp hnext
  have hturns := turns_of_add hnot (hmirrors leader (by simp)) ht
  cases hopens : leader.opensExchange with
  | false =>
      obtain ⟨rfl, -⟩ : results = [] ∧ leader.isTool = false := by
        simpa [GroupValid, hopens] using hg
      cases h
      refine ⟨t, rfl, fun messages turns hsent => hsent.solo hopens hnot ?_⟩
      obtain ⟨hnone, -⟩ | ⟨turn, hturn, huses, hresults, -⟩ := hturns
      · exact .inl hnone
      · exact .inr ⟨turn, hturn, huses.trans (callsOf_solo hopens), hresults⟩
  | true =>
      have hanswers := (groupValid_exchange leader results hopens).mp hg
      have hne := (callsOf_opens hopens).2
      obtain ⟨-, hcalls⟩ | ⟨turn, hturn, huses, hnone, hrole⟩ := hturns
      · contradiction
      have hresults : results ≠ [] := by
        rintro rfl
        have hempty := hanswers.paired.nil_eq
        simp [callsOf, Message.callIds] at hne hempty
        exact hne.2 hempty
      have hpush : s.append t =
          Converted.push ⟨s.systemParts ++ t.systemParts, s.turns⟩ turn := by
        simp [Converted.append, Converted.push, hturn]
      rw [hpush, foldlM_results hanswers.tools hresults (hrole hne)] at h
      cases h
      refine ⟨⟨t.systemParts, [turn, ⟨.user, .arr (results.map resultBlock)⟩]⟩, ?_, ?_⟩
      · simp [Converted.append, Converted.push]
      · intro messages turns hsent
        exact hsent.exchange hopens hanswers (hrole hne) huses hnone

theorem foldlM_groups {gs : List Group} (hgroups : ∀ g ∈ gs, GroupValid g)
    (hmirrors : ∀ m ∈ gs.flatten, Mirrors m) {n : Nat}
    (h : (gs.flatten.zipIdx n).foldlM (Converted.add jsonLoads) s = .ok s') :
    ∃ t : Converted, s' = s.append t ∧ Sent gs.flatten t.turns := by
  induction gs generalizing n s with
  | nil =>
      cases h
      exact ⟨{}, by simp [Converted.append], .nil, rfl, rfl⟩
  | cons g gs ih =>
      rw [List.flatten_cons, List.zipIdx_append, List.foldlM_append, bind_eq_ok] at h
      obtain ⟨next, hnext, h⟩ := h
      obtain ⟨t, rfl, hgroup⟩ := foldlM_group (hgroups g (by simp))
        (fun m hm => hmirrors m (by simp [hm])) hnext
      obtain ⟨u, rfl, hsent⟩ := ih (fun g hg => hgroups g (List.mem_cons_of_mem _ hg))
        (fun m hm => hmirrors m (by rw [List.flatten_cons]; exact List.mem_append_right _ hm)) h
      refine ⟨t.append u, ?_, ?_⟩
      · simp [Converted.append]
      · rw [List.flatten_cons]
        exact hgroup _ _ hsent

/-- Which histories can be converted: those all of whose messages can. -/
theorem convertToAnthropicMessages_isOk {messages : List Message} :
    (∃ out, convertToAnthropicMessages jsonLoads messages = .ok out) ↔
      ∀ m ∈ messages, Convertible jsonLoads m := by
  have hfold := @foldlM_isOk _ _ _ (Converted.add jsonLoads) (fun m => Convertible jsonLoads m.1)
    (fun s m => add_isOk) messages.zipIdx {}
  have hout : (∃ out, convertToAnthropicMessages jsonLoads messages = .ok out) ↔
      ∃ s, messages.zipIdx.foldlM (Converted.add jsonLoads) {} = .ok s := by
    simp [convertToAnthropicMessages, bind_eq_ok, pure, Except.pure]
  rw [hout, hfold]
  constructor
  · intro h m hm
    obtain ⟨i, hi, rfl⟩ := List.mem_iff_getElem.mp hm
    exact h (messages[i], i) (by simp [List.mem_zipIdx_iff_getElem?, hi])
  · intro h m hm
    exact h m.1 (List.fst_mem_of_mem_zipIdx hm)

/-- What is sent of a history that keeps the tool protocol. -/
theorem sent_of_converted {messages : List Message} (hvalid : ProtocolValid messages)
    (hmirrors : ∀ m ∈ messages, Mirrors m) {out : List String × List Turn}
    (h : convertToAnthropicMessages jsonLoads messages = .ok out) : Sent messages out.2 := by
  simp only [convertToAnthropicMessages, bind_eq_ok] at h
  obtain ⟨s, hfold, h⟩ := h
  cases h
  have hflat := flatten_groups messages
  rw [← hflat] at hfold hmirrors
  obtain ⟨t, rfl, hsent⟩ := foldlM_groups hvalid hmirrors hfold
  rw [hflat] at hsent
  simpa [Converted.append] using hsent

/-- **A history that keeps the tool protocol** is converted if each of its messages can be,
and then every call of it is in the request, answered by the message right behind it, and so
is every result. -/
theorem converted_exchanged (jsonLoads : String → JsonLoads) {messages : List Message}
    (hvalid : ProtocolValid messages) (hmirrors : ∀ m ∈ messages, Mirrors m) :
    ((∃ out, convertToAnthropicMessages jsonLoads messages = .ok out) ↔
      ∀ m ∈ messages, Convertible jsonLoads m) ∧
    ∀ out, convertToAnthropicMessages jsonLoads messages = .ok out → Sent messages out.2 :=
  ⟨convertToAnthropicMessages_isOk, fun _ h => sent_of_converted hvalid hmirrors h⟩

/-- Arguments that are all empty. -/
def noArguments (text : String) : JsonLoads :=
  if text = "\x7b\x7d" then .value (.obj []) else .valueError

/-- A call as the provider made it, behind its thinking. -/
def nativeCall : List Json :=
  [.obj [("type", .str "thinking"), ("thinking", .str "so"), ("signature", .str "s")],
    .obj [("type", .str "tool_use"), ("id", .str "a"), ("name", .str "ls"), ("input", .obj [])]]

/-- One exchange is replayed, in one two calls are answered the other way round. -/
def replayedExchange : List Message :=
  [.ofText .user "look",
    { role := .assistant, toolCalls := [⟨"a", "ls", "\x7b\x7d"⟩],
      providerState := .obj [("anthropic_content", .arr nativeCall)] },
    .toolResult "a" "x",
    { role := .assistant, toolCalls := [⟨"b", "ls", "\x7b\x7d"⟩, ⟨"c", "ls", "\x7b\x7d"⟩] },
    .toolResult "c" "y", .toolResult "b" "z"]

theorem converted_exchanged_sample :
    ((∃ out, convertToAnthropicMessages noArguments replayedExchange = .ok out) ↔
      ∀ m ∈ replayedExchange, Convertible noArguments m) ∧
    ∀ out, convertToAnthropicMessages noArguments replayedExchange = .ok out →
      Sent replayedExchange out.2 :=
  converted_exchanged noArguments (by decide) (by
    intro m hm blocks hrole hblocks
    simp only [replayedExchange, List.mem_cons, List.not_mem_nil, or_false] at hm
    obtain rfl | rfl | rfl | rfl | rfl | rfl := hm
    · contradiction
    · obtain rfl : nativeCall = blocks := Option.some.inj hblocks
      decide
    · contradiction
    · contradiction
    · contradiction
    · contradiction)

end OpenCollab.Anthropic
