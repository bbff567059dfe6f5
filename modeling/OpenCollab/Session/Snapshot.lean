import OpenCollab.Session.Exchange

/-!
# OpenCollab.Session.Snapshot

Saving a session and restoring it.  A snapshot is the list of messages and a
`session_state` dict; restoring validates every field of the dict by itself,
then makes the parts agree: the phase, the pending rows, the checkpointed tool
results and the open calls of the history are four sources that a crash can
leave at different points.

The candidate state is complete before anything is published, so a `restore`
that raises changes nothing (`restore_spec`).
-/

namespace OpenCollab

open Lib

/-! ## phases and rows as text -/

namespace SessionPhase

/-- The `value` of the enumeration. -/
def value : SessionPhase → String
  | idle => "idle"
  | precheck => "precheck"
  | callingLlm => "calling_llm"
  | handlingResponse => "handling_response"
  | executingTools => "executing_tools"
  | awaitingEvents => "awaiting_events"
  | autosaving => "autosaving"
  | done => "done"
  | stopped => "stopped"
  | error => "error"

/-- `SessionPhase(value)`; `none` is its `ValueError`. -/
def ofValue? (text : String) : Option SessionPhase :=
  [idle, precheck, callingLlm, handlingResponse, executingTools, awaitingEvents, autosaving, done,
    stopped, error].find? fun phase => phase.value = text

@[simp] theorem ofValue?_value (phase : SessionPhase) : ofValue? phase.value = some phase := by
  cases phase <;> decide

end SessionPhase

namespace RowKind

def value : RowKind → String
  | immediate => "immediate"
  | childAgent => "child_agent"

def ofValue? (text : String) : Option RowKind :=
  [immediate, childAgent].find? fun kind => kind.value = text

@[simp] theorem ofValue?_value (kind : RowKind) : ofValue? kind.value = some kind := by
  cases kind <;> decide

end RowKind

namespace RowStatus

def value : RowStatus → String
  | pending => "pending"
  | done => "done"
  | failed => "failed"

def ofValue? (text : String) : Option RowStatus :=
  [pending, done, failed].find? fun status => status.value = text

@[simp] theorem ofValue?_value (status : RowStatus) : ofValue? status.value = some status := by
  cases status <;> decide

end RowStatus

/-! ## saving -/

/-- What the store keeps of a session. -/
structure Snapshot where
  messages : List Message
  sessionState : Json
  pendingMessages : Json := .null
deriving DecidableEq, Inhabited

/-- `_serialize_pending_row(row)`. -/
def serializePendingRow (row : PendingRow) : Json := .obj
  [("tool_call_id", .str row.toolCallId),
    ("kind", .str row.kind.value),
    ("order", .int row.order),
    ("ref", row.ref),
    ("status", .str row.status.value),
    ("result", .ofOption row.result),
    ("error", .ofOption row.error),
    ("started_at", row.startedAt),
    ("finished_at", row.finishedAt)]

/-- An index or `None`. -/
def Json.ofIndex (index : Option Nat) : Json := index.elim .null fun n => .int n

namespace QueuedTurn

/-- The dict of `pending_external_user_turn`. -/
def toDict (turn : QueuedTurn) : Json := .obj <|
  [("turn_id", .str turn.turnId), ("status", .str "queued"), ("content", .str turn.content)] ++
    (turn.messageIndex.elim [] fun n => [("message_index", .int n)])

end QueuedTurn

namespace SessionState

/-- The items of the `session_state` dict next to the turn window's. -/
def fields (s : SessionState) : List (String × Json) :=
  [("used_tokens", .int s.usedTokens),
    ("context_tokens", .int s.contextTokens),
    ("step_count", .int s.stepCount),
    ("markup_recovered", .int s.markupRecovered),
    ("wind_down_done", .bool s.windDownDone),
    ("wind_down_attempts", .int s.windDownAttempts),
    ("wind_down_token_mark", .int s.windDownTokenMark),
    ("budget_reserve_consumed", .bool s.budgetReserveConsumed),
    ("phase", .str s.phase.value),
    ("terminal_reason", .ofOption s.terminalReason),
    ("pending_events", .arr (s.pendingEvents.rows.map serializePendingRow)),
    ("pending_external_user_turn", s.pendingExternalUserTurn.elim .null QueuedTurn.toDict),
    ("active_turn_start_message_index", .ofIndex s.activeTurnStartMessageIndex),
    ("completed_turn_start_message_index", .ofIndex s.completedTurnStartMessageIndex),
    ("submitted_summary", .ofOption s.submittedSummary),
    ("anthropic_history", s.anthropicHistory)]

/-- `_snapshot_for_save(state=…)`; `receipts` are the checkpointed results of
the step being executed. -/
def snapshotForSave (s : SessionState) (receipts : Receipts := []) : Snapshot where
  messages := s.messages
  sessionState := .obj <| s.fields ++ s.turn.fields ++
    if receipts.isEmpty then []
    else [("loop_checkpoint_results", .arr <| receipts.map fun receipt =>
      .obj [("role", .str "tool"), ("tool_call_id", .str receipt.1), ("content", .str receipt.2)])]
  pendingMessages := if s.pendingUserMessages.isEmpty then .null else .arr s.pendingUserMessages

end SessionState

/-- The snapshot of a live session: the checkpointed results of the current step
are kept until the history has them. -/
def World.snapshot (w : World) : Snapshot :=
  w.state.snapshotForSave <|
    if w.runner.receiptStep ≠ some w.state.stepCount ∨ w.state.phase = .autosaving ∨
        w.state.phase = .awaitingEvents ∨ w.state.phase = .done then []
    else w.runner.receiptPrefix ++ w.runner.receiptResults

/-! ## reading the parts -/

/-- `_restore_phase(raw)`. -/
def restorePhase (py : Python) (raw : Json) : SessionPhase :=
  let value := py.str raw
  if value ∈ ["cancelled", "budget_exceeded", "step_limit_exceeded", "context_overflow"] then .stopped
  else if value = "scheduled" then .idle
  else (SessionPhase.ofValue? value).getD .idle

/-- The error of a row whose child did not survive. -/
def interruptedChild : String := "deferred child interrupted by session restore"

/-- `str(value) if value is not None else None`. -/
def Python.strOrNone (py : Python) : Json → Option String
  | .null => none
  | value => some (py.str value)

/-- `_restore_pending_row(value)`. -/
def restorePendingRow (py : Python) (value : Json) : Option PendingRow := do
  let toolCallId ← value.get? "tool_call_id"
  let kind ← (value.get? "kind").bind fun kind => RowKind.ofValue? (py.str kind)
  let status ← RowStatus.ofValue? (py.str ((value.get? "status").getD (.str "pending")))
  let order ← (value.get? "order").bind py.int?
  let row : PendingRow := {
    toolCallId := py.str toolCallId
    kind
    order
    ref := value.get "ref"
    status
    result := py.strOrNone (value.get "result")
    error := py.strOrNone (value.get "error")
    startedAt := value.get "started_at"
    finishedAt := value.get "finished_at" }
  return if status = .pending then
    { row with
      status := .failed
      result := some interruptedChild
      error := some interruptedChild
      finishedAt := .null }
  else row

/-- `0 <= value < limit` of an `int` that is no `bool`. -/
def Json.index? (limit : Nat) : Json → Option Nat
  | .int n => if 0 ≤ n ∧ n < limit then some n.toNat else none
  | _ => none

/-- `_restore_queued_external_user_turn(value, messages)`. -/
def restoreQueuedExternalUserTurn (value : Json) (messages : List Message) : Option QueuedTurn :=
  match value.get "status", value.get "content", value.get "turn_id" with
  | .str "queued", .str content, .str turnId =>
      if turnId = "" then none
      else match value.get "message_index" with
        | .null => some { turnId, content }
        | index => do
            let n ← index.index? messages.length
            let message ← messages[n]?
            if message.role = .user ∧ message.content = some (.str content) then
              some { turnId, content, messageIndex := some n }
            else none
  | _, _, _ => none

/-- `_restore_active_turn_start(value, messages)`. -/
def restoreActiveTurnStart (value : Json) (messages : List Message) : Option Nat :=
  value.index? (messages.length + 1)

/-- `_restore_anthropic_history(value, messages)`. -/
def restoreAnthropicHistory (value : Json) (messages : List Message) : Json :=
  match (value.get "source_count").index? (messages.length + 1), value.get "messages",
      value.get "tools" with
  | some count, .arr view, tools =>
      if view.all Json.isObj && (tools = .null || tools.asArr?.any (·.all Json.isObj)) then
        .obj [("messages", .arr view), ("source_count", .int count), ("tools", tools)]
      else .null
  | _, _, _ => .null

/-- The usable results of `loop_checkpoint_results`. -/
def restoreReceipts (value : Json) : Receipts :=
  (value.asArr?.getD []).filterMap fun item =>
    match item.get "tool_call_id", item.get "content" with
    | .str id, .str content => some (id, content)
    | _, _ => none

/-! ## restoring -/

/-- `pending_events.add` of each row. -/
def addRows (table : PendingEventTable) : List PendingRow → Except Exn PendingEventTable
  | [] => .ok table
  | row :: rest =>
      match table.add row with
      | none => .error (.pendingRowError row.toolCallId)
      | some table => addRows table rest

/-- The error of a row that the snapshot does not have. -/
def missingChild : String := "deferred child state missing during session restore"

/-- `content` of the answers given at a restore. -/
def restoreNotice : String := "Tool execution interrupted by session restore."

/-- The row of a call the snapshot has none for. -/
def missingRow (id : String) (order : Nat) : PendingRow where
  toolCallId := id
  kind := .childAgent
  order := order
  status := .failed
  result := some missingChild
  error := some missingChild

namespace SessionState

/-- `_complete_missing_pending_rows(state)`. -/
def completeMissingPendingRows (s : SessionState) : Except Exn SessionState := do
  let missing := (openToolCallIds s.messages).zipIdx.filter fun call =>
    !s.pendingEvents.ids.contains call.1
  let table ← addRows s.pendingEvents (missing.map fun call => missingRow call.1 call.2)
  return { s with pendingEvents := table }

/-- `_append_restore_results_for_open_tool_calls(state, …)`. -/
def closeOpenCalls (s : SessionState) (exclude : Option (List String)) (receipts : Receipts) :
    Except Exn SessionState :=
  match OpenCollab.closeOpenCalls restoreNotice exclude receipts s.transcript with
  | (t, none) => .ok (s.withTranscript t)
  | (_, some id) => .error (.pendingRowError id)

/-- The rows answer the calls that are open. -/
def answerFromRows (s : SessionState) : SessionState :=
  let openIds := openToolCallIds s.messages
  { s with messages := s.messages ++ s.pendingEvents.orderedResults.filter fun m =>
      m.toolCallId.any openIds.contains }

/-- A batch with rows gets one for every open call. -/
def completeRows (s : SessionState) (receipts : Receipts) : Except Exn SessionState :=
  if s.pendingEvents.isEmpty then .ok s
  else s.closeOpenCalls (some s.pendingEvents.ids) receipts

/-- What an interrupted phase leaves open is closed: the rows have no producer
any more. -/
def closeInterrupted (s : SessionState) (receipts : Receipts) : Except Exn SessionState := do
  let s ← s.completeRows receipts
  let s ← s.answerFromRows.closeOpenCalls none receipts
  return { s with pendingEvents := .empty }

/-- An AWAITING_EVENTS snapshot resumes when every open call has a row. -/
def resumeAwaiting (s : SessionState) (turnStart : Option Nat) (submitted : Json) :
    Except Exn SessionState := do
  let s ← s.completeMissingPendingRows
  let s := { s with
    phase := .awaitingEvents
    activeTurnStartMessageIndex := some (turnStart.getD s.messages.length) }
  if s.pendingEvents.isEmpty then ({ s with phase := .idle } : SessionState).closeOpenCalls none []
  else return { s with submittedSummary := submitted.asStr? }

/-- The turn ends with the submitted answer. -/
def submit (s : SessionState) (summary : String) : SessionState :=
  let answer := Message.ofText .assistant summary
  let s := if s.messages.getLast? = some answer then s else s.appendMessage answer
  { s.markDone with terminalReason := some "submitted" }

/-- An accepted submission survives the interruption of its step. -/
def keepSubmission (s : SessionState) (phase : SessionPhase) : Json → SessionState
  | .str summary => if phase = .executingTools ∨ phase = .autosaving then s.submit summary else s
  | _ => s

/-- The end of a turn that was completed. -/
def markCompleted (s : SessionState) (raw : Json) (turnStart : Option Nat) : SessionState :=
  if s.phase = .done then
    { s with
      completedTurnStartMessageIndex :=
        (restoreActiveTurnStart (raw.get "completed_turn_start_message_index") s.messages) <|>
          turnStart }
  else s

/-- Any other phase: what does not survive the process is closed. -/
def resumeInterrupted (py : Python) (s : SessionState) (raw : Json) (phase : SessionPhase)
    (turnStart : Option Nat) : Except Exn SessionState := do
  let s := { s with phase := if phase.isTerminal then phase else .idle }
  let s ← s.closeInterrupted (restoreReceipts (raw.get "loop_checkpoint_results"))
  let s := { s with
    terminalReason :=
      if s.phase.isTerminal then py.strOrNone (raw.get "terminal_reason") else none }
  return (s.keepSubmission phase (raw.get "submitted_summary")).markCompleted raw turnStart

/-- `_normalize_interrupted_snapshot_state(restored, raw_state, restored_turn_start)`. -/
def normalizeInterruptedSnapshotState (py : Python) (s : SessionState) (raw : Json)
    (turnStart : Option Nat) : Except Exn SessionState :=
  let phase := restorePhase py ((raw.get? "phase").getD (.str "idle"))
  if phase = .awaitingEvents then s.resumeAwaiting turnStart (raw.get "submitted_summary")
  else s.resumeInterrupted py raw phase turnStart

/-- The fields of a snapshot's `session_state`, each by itself. -/
def readFields (py : Python) (messages : List Message) (raw : Json) (turn : TurnEnforcementState) :
    SessionState :=
  let windDownDone := (raw.get "wind_down_done").truthy
  { messages
    anthropicHistory := restoreAnthropicHistory (raw.get "anthropic_history") messages
    usedTokens := py.snapshotNonnegativeInt (raw.get "used_tokens")
    contextTokens := py.snapshotNonnegativeInt (raw.get "context_tokens")
    stepCount := py.snapshotNonnegativeInt (raw.get "step_count")
    markupRecovered := py.snapshotNonnegativeInt (raw.get "markup_recovered")
    turn
    windDownDone
    -- a snapshot without the counter cannot prove that a retry is left
    windDownAttempts := match raw.get? "wind_down_attempts" with
      | some attempts => py.snapshotNonnegativeInt attempts
      | none => if windDownDone then 2 else 0
    windDownTokenMark := py.snapshotNonnegativeInt (raw.get "wind_down_token_mark")
    budgetReserveConsumed :=
      ((raw.get? "budget_reserve_consumed").getD (.bool windDownDone)).truthy
    pendingExternalUserTurn :=
      restoreQueuedExternalUserTurn (raw.get "pending_external_user_turn") messages }

/-- The turn window of a snapshot. -/
def readTurn (py : Python) (raw : Json) : Except Exn TurnEnforcementState :=
  match TurnEnforcementState.restore py raw with
  | some turn => .ok turn
  | none => .error (.plain "loop snapshot contains more than 200 unresolved operations")

/-- The rows of a snapshot that can be read. -/
def readRows (py : Python) (raw : Json) : List PendingRow :=
  (((raw.get? "pending_events").getD (.arr [])).asArr?.getD []).filterMap (restorePendingRow py)

/-- The candidate state of a snapshot with a `session_state`. -/
def ofRawState (py : Python) (messages : List Message) (pendingUserMessages : List Json)
    (raw : Json) : Except Exn SessionState := do
  let turn ← readTurn py raw
  let table ← addRows .empty (readRows py raw)
  let s := { readFields py messages raw turn with pendingUserMessages, pendingEvents := table }
  s.normalizeInterruptedSnapshotState py raw
    (restoreActiveTurnStart (raw.get "active_turn_start_message_index") messages)

/-- The candidate state of `Session.restore`. -/
def ofSnapshot (py : Python) (snapshot : Snapshot) : Except Exn SessionState :=
  let pendingUserMessages := (snapshot.pendingMessages.asArr?.getD []).filter Json.isObj
  if snapshot.sessionState.isObj then
    ofRawState py snapshot.messages pendingUserMessages snapshot.sessionState
  else
    ({ messages := snapshot.messages, pendingUserMessages } : SessionState).closeOpenCalls none []

end SessionState

/-- `reset_for_restore()`: what belongs to the process is discarded. -/
def Runner.resetForRestore (h : Host) (r : Runner) : Runner :=
  { r.resetForUserTurn h with
    pendingStep := none
    emptyStopRetried := false
    turnStartMessageIndex := none
    llmStepStarted := false
    receiptPrefix := []
    receiptResults := []
    receiptStep := none }

namespace Facade

open Effect Session

/-- `Session.restore(path)`, for what the store loads and for the outcome of
saving the candidate to the session's own file. -/
def restore (h : Host) (py : Python) (loaded : Except Exn Snapshot) (checkpoint : Option Exn) :
    Session Unit := do
  let w ← read
  raiseIf (!w.runner.draining.isEmpty) (.plain "session cannot be restored while runtime work is active")
  match loaded.bind (SessionState.ofSnapshot py), checkpoint with
  | .error e, _ | .ok _, some e => raise e
  | .ok restored, none => do
      modifyRunner (·.resetForRestore h)
      modifyState fun _ => restored

/-- **A restore** publishes the candidate as a whole; one that raises leaves the
live session as it was. -/
theorem restore_spec {h : Host} {py : Python} {loaded : Except Exn Snapshot}
    {checkpoint : Option Exn} {w : World} :
    Meets (restore h py loaded checkpoint) w
      (fun _ w' => w.runner.draining = [] ∧ ∃ restored,
        loaded.bind (SessionState.ofSnapshot py) = .ok restored ∧
        w' = { w with state := restored, runner := w.runner.resetForRestore h })
      (fun _ w' => w' = w) := by
  unfold restore
  rw [meets_bind, meets_read, meets_bind, raiseIf]
  split
  · exact rfl
  rename_i hidle
  have hd : w.runner.draining = [] := by simpa using hidle
  rw [meets_pure]
  split
  · exact rfl
  · exact rfl
  · rename_i _ _ restored hrestored
    exact ⟨hd, restored, hrestored, rfl⟩

end Facade

end OpenCollab
