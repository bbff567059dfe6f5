import OpenCollab.Session.World

/-!
# OpenCollab.Session.History

The pure functions that read or extend a session's history: the assistant
message a response becomes, steering folded into a user message, the answers of
a tool batch put in call order, and the closing of the calls an interruption
left open.
-/

namespace OpenCollab

/-! ## responses and steering -/

/-- The message `append_assistant_message` appends, if any.  A truncated
response keeps its text only; one with neither text nor calls is skipped. -/
def assistantMessage? (r : Response) : Option Message :=
  if r.isTruncated then r.visible?.map (Message.ofText .assistant)
  else if r.visible?.isNone && r.toolCalls.isEmpty then none
  else some
    { role := .assistant
      content := r.visible?.map Json.str
      toolCalls := r.toolCalls
      reasoningContent := if r.reasoning = "" then none else some r.reasoning
      providerState := if r.providerState.truthy then r.providerState else .null
      responseItems := if r.providerItems.isEmpty then none else some r.providerItems }

/-- The batch a response stores in the history. -/
def storedCalls (r : Response) : List ToolCall := if r.isTruncated then [] else r.toolCalls

/-- `fold_steering(last_user_msg, steering_text)`. -/
def foldSteering (m : Message) (text : String) : Message :=
  { m with content := some <| match m.content with
      | some (.str content) => .str (if content = "" then text else content ++ "\n\n" ++ text)
      | some (.arr parts) => .arr (parts ++ [.obj [("type", .str "text"), ("text", .str text)]])
      | _ => .str text }

/-- `_last_assistant_answer(messages, turn_start)`. -/
def lastAssistantAnswer (messages : List Message) : Option Nat → Json
  | none => .str ""
  | some start =>
      let answers := (messages.drop start).reverse.filter fun m =>
        m.role = .assistant && (m.content.getD .null).truthy && !m.placeholder
      ((answers.head?.bind Message.content).getD (.str ""))

/-! ## the answers of a batch -/

/-- Tool results on their way to the history: id and content. -/
abbrev Receipts := List (String × String)

namespace Receipts

/-- The result of an id; a later one wins, as in a dict built from the list. -/
def get? (receipts : Receipts) (id : String) : Option String := receipts.reverse.lookup id

/-- The tool messages. -/
def messages (receipts : Receipts) : List Message :=
  receipts.map fun receipt => .toolResult receipt.1 receipt.2

end Receipts

/-- `_ordered_tool_messages(tool_calls, *groups)`: the result of each call, in
call order. -/
def orderedToolResults (calls : List ToolCall) (results : Receipts) : Receipts :=
  calls.filterMap fun call => (results.get? call.id).map (call.id, ·)

/-- `order[tool_call_id]`: the position of a call in its batch. -/
def callOrder (calls : List ToolCall) (id : String) : Nat := (calls.map ToolCall.id).idxOf id

/-! ## open calls -/

/-- One message of `_open_tool_call_ids`: a result closes the first open call
of its id, an assistant message opens its calls. -/
def openStep (openIds : List String) (m : Message) : List String :=
  if m.isTool then
    match m.toolCallId with
    | none => openIds
    | some id => openIds.erase id
  else if m.role = .assistant then openIds ++ m.callIds.filter (· ≠ "")
  else openIds

/-- `_open_tool_call_ids(state)`. -/
def openToolCallIds (messages : List Message) : List String := messages.foldl openStep []

/-- The two places a tool result can stand: the history and the pending rows. -/
structure Transcript where
  messages : List Message
  pendingEvents : PendingEventTable
deriving DecidableEq, Inhabited

/-- The row closing stores for an open call. -/
def closingRow (content : String) (receipts : Receipts) (id : String) (order : Nat) : PendingRow where
  toolCallId := id
  kind := .immediate
  order := order
  status := if (receipts.get? id).isSome then .done else .failed
  result := some ((receipts.get? id).getD content)
  error := if (receipts.get? id).isSome then none else some content

/-- The loop of `_append_restore_results_for_open_tool_calls` over the open
calls and their positions.  It ends at a `PendingRowError`, returning the id
whose row exists already. -/
def closeEach (content : String) (exclude : Option (List String)) (receipts : Receipts) :
    List (String × Nat) → Transcript → Transcript × Option String
  | [], t => (t, none)
  | (id, order) :: rest, t =>
      if (exclude.getD []).contains id then closeEach content exclude receipts rest t
      else if exclude.isSome && !t.pendingEvents.isEmpty then
        match t.pendingEvents.add (closingRow content receipts id order) with
        | none => (t, some id)
        | some table => closeEach content exclude receipts rest { t with pendingEvents := table }
      else
        closeEach content exclude receipts rest
          { t with messages := t.messages ++ [.toolResult id ((receipts.get? id).getD content)] }

/-- `_append_restore_results_for_open_tool_calls`: close assistant tool calls
whose process-local execution was lost. -/
def closeOpenCalls (content : String) (exclude : Option (List String)) (receipts : Receipts)
    (t : Transcript) : Transcript × Option String :=
  closeEach content exclude receipts (openToolCallIds t.messages).zipIdx t

/-- Without rows, every open call is answered in the history. -/
theorem closeEach_of_isEmpty {content : String} {exclude : Option (List String)}
    {receipts : Receipts} {t : Transcript} (open_ : List (String × Nat))
    (he : t.pendingEvents.isEmpty = true) :
    closeEach content exclude receipts open_ t =
      ({ t with messages := t.messages ++
          (open_.filter fun call => !(exclude.getD []).contains call.1).map fun call =>
            .toolResult call.1 ((receipts.get? call.1).getD content) }, none) := by
  induction open_ generalizing t with
  | nil => simp [closeEach]
  | cons call rest ih =>
      obtain ⟨id, order⟩ := call
      unfold closeEach
      by_cases hx : (exclude.getD []).contains id = true
      · rw [if_pos hx, ih he, List.filter_cons_of_neg (by simpa using hx)]
      · have hadd : (exclude.isSome && !t.pendingEvents.isEmpty) = false := by simp [he]
        rw [if_neg hx, hadd, if_neg Bool.false_ne_true, List.filter_cons_of_pos (by simpa using hx)]
        rw [ih (t := ⟨t.messages ++ [_], t.pendingEvents⟩) he]
        simp

theorem closeOpenCalls_isEmpty (content : String) (exclude : Option (List String))
    (receipts : Receipts) (t : Transcript) (he : t.pendingEvents.isEmpty = true) :
    (closeOpenCalls content exclude receipts t).1.pendingEvents.isEmpty = true := by
  rw [closeOpenCalls, closeEach_of_isEmpty _ he]
  exact he

namespace SessionState

def transcript (s : SessionState) : Transcript := ⟨s.messages, s.pendingEvents⟩

def withTranscript (s : SessionState) (t : Transcript) : SessionState :=
  { s with messages := t.messages, pendingEvents := t.pendingEvents }

end SessionState

end OpenCollab
