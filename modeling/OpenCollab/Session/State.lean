import OpenCollab.Session.Pending
import OpenCollab.Session.Turn

/-!
# OpenCollab.Session.State

The state of a session and the operations the rest of the program changes it
with.  The phase is a state machine whose legal edges are `phaseTransitions`;
`transitionTo` takes one of them, `fail` and `cancel` are the two escapes that
need no edge.

Times are left out (message timestamps, latencies).
-/

namespace OpenCollab

/-! ## phases -/

inductive SessionPhase where
  | idle
  | precheck
  | callingLlm
  | handlingResponse
  | executingTools
  | awaitingEvents
  | autosaving
  | done
  | stopped
  | error
deriving DecidableEq, Repr, Inhabited

namespace SessionPhase

/-- `TERMINAL_PHASES`. -/
def isTerminal : SessionPhase → Bool
  | done | stopped | error => true
  | _ => false

/-- The phases a session can be left in when a run has ended. -/
def Rests (phase : SessionPhase) : Prop :=
  phase ∈ [idle, precheck, callingLlm, awaitingEvents, done, stopped, error]

instance (phase : SessionPhase) : Decidable phase.Rests :=
  inferInstanceAs (Decidable (phase ∈ [_, _, _, _, _, _, _]))

/-- `PHASE_TRANSITIONS`: the validated run-loop edges. -/
def transitions : SessionPhase → List SessionPhase
  | idle => [precheck]
  | precheck => [callingLlm, stopped]
  | callingLlm => [handlingResponse, stopped]
  | handlingResponse => [executingTools, done, stopped, autosaving]
  | executingTools => [autosaving, awaitingEvents]
  | awaitingEvents => [autosaving]
  | autosaving => [precheck, done]
  | done => [idle]
  | stopped => [idle]
  | error => [idle]

end SessionPhase

/-! ## the state -/

/-- `pending_external_user_turn`: a public user turn no runner has begun yet.
Without a `message_index` its message has not been appended either. -/
structure QueuedTurn where
  turnId : String
  content : String
  messageIndex : Option Nat := none
deriving DecidableEq, Repr, Inhabited

structure SessionState where
  messages : List Message
  anthropicHistory : Json := .null
  usedTokens : Nat := 0
  contextTokens : Nat := 0
  stepCount : Nat := 0
  markupRecovered : Nat := 0
  turn : TurnEnforcementState := {}
  windDownDone : Bool := false
  windDownAttempts : Nat := 0
  windDownTokenMark : Nat := 0
  budgetReserveConsumed : Bool := false
  phase : SessionPhase := .idle
  terminalReason : Option String := none
  pendingEvents : PendingEventTable := .empty
  pendingUserMessages : List Json := []
  pendingExternalUserTurn : Option QueuedTurn := none
  activeTurnStartMessageIndex : Option Nat := none
  completedTurnStartMessageIndex : Option Nat := none
  submittedSummary : Option String := none
deriving DecidableEq, Inhabited

namespace SessionState

/-! ## phase operations -/

/-- `transition_to(phase, reason=…)`; `none` is `InvalidPhaseTransition`. -/
def transitionTo (s : SessionState) (dst : SessionPhase) (reason : Option String := none) :
    Option SessionState :=
  if dst ∈ s.phase.transitions then
    some { s with
      phase := dst
      terminalReason := if dst.isTerminal && reason.isSome then reason else s.terminalReason }
  else none

/-- `fail(reason)`: to ERROR from anywhere. -/
def fail (s : SessionState) (reason : String) : SessionState :=
  { s with phase := .error, terminalReason := some reason }

/-- `cancel(reason)`: to STOPPED from anywhere. -/
def cancel (s : SessionState) (reason : String := "cancelled") : SessionState :=
  { s with phase := .stopped, terminalReason := some reason }

/-- `resume_to_idle()`: a terminal phase goes back to IDLE, any other stays. -/
def resumeToIdle (s : SessionState) : SessionState :=
  if s.phase.isTerminal then { s with phase := .idle, terminalReason := none } else s

theorem resumeToIdle_eq (s : SessionState) : s.resumeToIdle = { s with
    phase := if s.phase.isTerminal then .idle else s.phase
    terminalReason := if s.phase.isTerminal then none else s.terminalReason } := by
  unfold resumeToIdle
  by_cases ht : s.phase.isTerminal = true <;> simp [ht]

/-- `mark_done()`. -/
def markDone (s : SessionState) : SessionState :=
  { s with phase := .done, terminalReason := some "completed" }

/-! ## messages -/

/-- `append_message(message)`. -/
def appendMessage (s : SessionState) (m : Message) : SessionState :=
  { s with messages := s.messages ++ [m] }

/-! ## user turns -/

/-- `append_queued_external_user_turn(content, defer=…)`. -/
def appendQueuedExternalUserTurn (s : SessionState) (turnId content : String) (defer : Bool) :
    SessionState :=
  if defer then { s with pendingExternalUserTurn := some { turnId, content } }
  else
    { s.appendMessage (.ofText .user content) with
      pendingExternalUserTurn := some { turnId, content, messageIndex := some s.messages.length } }

/-- `consume_queued_external_user_turn()`. -/
def consumeQueuedExternalUserTurn (s : SessionState) : SessionState :=
  match s.pendingExternalUserTurn with
  | none => s
  | some queued =>
      if queued.messageIndex.isSome then { s with pendingExternalUserTurn := none }
      else { s.appendMessage (.ofText .user queued.content) with pendingExternalUserTurn := none }

/-- `start_active_turn(message_index)`. -/
def startActiveTurn (s : SessionState) (index : Nat) : SessionState :=
  { s with activeTurnStartMessageIndex := some index, completedTurnStartMessageIndex := none }

/-- `clear_active_turn()`. -/
def clearActiveTurn (s : SessionState) : SessionState :=
  { s with
    completedTurnStartMessageIndex :=
      if s.phase = .done ∧ s.activeTurnStartMessageIndex.isSome then s.activeTurnStartMessageIndex
      else s.completedTurnStartMessageIndex
    activeTurnStartMessageIndex := none
    submittedSummary := none }

/-- `reset_for_user_turn()`: the turn-local signals and wind-down latches go,
the session's resource counters and the lifetime reserve latch stay. -/
def resetForUserTurn (s : SessionState) : SessionState :=
  { s.resumeToIdle with
    turn := {}
    windDownDone := false
    windDownAttempts := 0
    windDownTokenMark := 0
    submittedSummary := none }

end SessionState

end OpenCollab
