import OpenCollab.Lib.Effect
import OpenCollab.Text
import OpenCollab.Session.State

/-!
# OpenCollab.Session.World

What one session runs in.  The driver is sequential; everything that happens
around it happens while it awaits, so the environment is a sequence of
`Answer`s: the n-th one says what the n-th await (or read of a host callback)
finds.  An answer may fill pending rows, set the cancel signal, revoke the tool
environment, cancel the task or raise at that point, and it carries the value
the awaited call returns: a provider response, a budget decision, the outcome
of a tool, a shaped view.  Each reader takes the field it asked for, so every
behaviour of the environment is some sequence of answers.  An answer may also be
the end of the process (`crash`), so the states in which a run can be cut off are
the states in which runs end.

A `World` is the session state, the run-loop's own fields (`Runner`) and the
`events` it emits, latest first.
-/

namespace OpenCollab

open Lib

/-! ## provider values -/

/-- A provider's usage object, its attributes as they were sent (`None`: `null`). -/
structure Usage where
  inputTokens : Json := .null
  totalTokens : Json := .null
  outputTokens : Json := .null
  contextTokens : Json := .null
deriving DecidableEq, Inhabited

/-- `_nonnegative_usage_int`; `none` is its `ValueError` (a `bool` is refused). -/
def nonnegativeUsageInt : Json → Option Nat
  | .int n => if 0 ≤ n then some n.toNat else none
  | _ => none

/-- `_normalize_completion_usage`: the context size and the total to charge. -/
def normalizeCompletionUsage (usage : Usage) : Option (Nat × Nat) := do
  let inputTokens ← nonnegativeUsageInt usage.inputTokens
  let reportedTotal ← nonnegativeUsageInt usage.totalTokens
  let outputTokens ←
    if usage.outputTokens = .null then some (reportedTotal - inputTokens)
    else nonnegativeUsageInt usage.outputTokens
  let contextTokens ←
    if usage.contextTokens = .null then some inputTokens
    else nonnegativeUsageInt usage.contextTokens
  some (contextTokens, max reportedTotal (inputTokens + outputTokens))

/-- A completion response; `content` is `none` unless it is a string, and an
empty `reasoning`, `providerState` or `providerItems` is a falsy one. -/
structure Response where
  content : Option String := none
  toolCalls : List ToolCall := []
  finishReason : Option String := none
  usage : Usage := {}
  reasoning : String := ""
  providerState : Json := .null
  providerItems : List Json := []
deriving DecidableEq, Inhabited

namespace Response

/-- `isinstance(content, str) and bool(content.strip())`, with the text. -/
def visible? (r : Response) : Option String := r.content.filter fun text => !isBlank text

/-- The provider stopped at its generation limit. -/
def isTruncated (r : Response) : Bool :=
  r.finishReason.any fun reason =>
    reason = "length" || reason = "max_tokens" || reason = "model_context_window_exceeded"

end Response

/-! ## exceptions -/

/-- What the program reads off an exception raised by code outside it. -/
structure Failure where
  text : String := ""
  timeout : Bool := false
  overflow : Bool := false
  choiceRejected : Bool := false
  prefixRejected : Bool := false
  usage : Option Usage := none
deriving DecidableEq, Inhabited

/-- The exceptions that pass through the driver.  `crash` is the death of the
process: no handler of the program sees it. -/
inductive Exn where
  | crash
  | cancelled
  | runCancelled
  | tokenBudgetStop (reservedInput remaining minimum : Int)
  | contextOverflowStop
  | teamBudgetStop
  | policyError (failure : Failure)
  | invalidPhaseTransition (src dst : SessionPhase)
  | pendingRowError (id : String)
  | failure (failure : Failure)
deriving DecidableEq, Inhabited

namespace Exn

/-- An exception the code itself raises with a fixed text. -/
def plain (text : String) : Exn := .failure { text }

/-- `_is_context_overflow(exc)`: only a provider's exception carries a status. -/
def isContextOverflow : Exn → Bool
  | failure f => f.overflow
  | _ => false

/-- `_is_tool_choice_rejection(exc)`: read off the text and body of the exception. -/
def isToolChoiceRejection : Exn → Bool
  | failure f | policyError f => f.choiceRejected
  | _ => false

/-- The provider rejected replayed thinking (`_recover_anthropic_history`). -/
def isPrefixRejection : Exn → Bool
  | failure f => f.prefixRejected
  | _ => false

/-- An exception some handler of the call chain tries again after. -/
def isRetryable (e : Exn) : Bool :=
  e.isPrefixRejection || e.isToolChoiceRejection || e.isContextOverflow

/-- `InvalidPhaseTransition`. -/
def isPhaseError : Exn → Bool
  | invalidPhaseTransition .. => true
  | _ => false

/-- What an await can raise. -/
def isAwaited : Exn → Bool
  | crash | cancelled | failure _ => true
  | _ => false

/-- The exceptions the summarizer re-raises. -/
def stopsSummary : Exn → Bool
  | crash | cancelled | runCancelled | tokenBudgetStop .. | teamBudgetStop | policyError _ => true
  | failure f => f.timeout
  | _ => false

/-- An exception after which a call may go on. -/
def isResumable (e : Exn) : Bool := e.isRetryable || !e.stopsSummary

/-- The text `fail` records. -/
def describe : Exn → String
  | failure f | policyError f => f.text
  | pendingRowError id => "PendingRowError: " ++ id
  | _ => ""

end Exn

/-- How an await ends when it does not return. -/
inductive Fault where
  | crash
  | cancelled (usage : Option Usage)
  | failure (failure : Failure)
deriving DecidableEq, Inhabited

namespace Fault

def toExn : Fault → Exn
  | crash => .crash
  | cancelled _ => .cancelled
  | failure f => .failure f

/-- `getattr(exc, "usage", None)`. -/
def usage : Fault → Option Usage
  | crash => none
  | cancelled u => u
  | failure f => f.usage

end Fault

/-! ## answers -/

/-- A child completion: `table.fill(…)` on the suspended parent's table. -/
structure Fill where
  toolCallId : String
  failed : Bool
  result : String
deriving DecidableEq, Inhabited

/-- `BudgetDecision`, unvalidated. -/
structure BudgetDecision where
  softBudgetTokens : Json
  finalPrompt : Json := .null
deriving DecidableEq, Inhabited

/-- `build_steering_block`: the nudge, the `tool_choice` it forces, and whether
its level is `"hard"`. -/
structure Steering where
  content : Option String := none
  override : Json := .null
  hard : Bool := false
deriving DecidableEq, Inhabited

/-- What executing (or refusing) one tool call yields. -/
structure ToolOutcome where
  content : String := ""
  terminalCapture : Bool := false
  submitted : Option String := none
deriving DecidableEq, Inhabited

/-- A request the summarizer tries.  `alone`: it holds one group of messages, and may
be sent although the allowance has no room for it yet (`allow_budget_stop`). -/
structure SummaryRequest where
  messages : List Message
  alone : Bool := false

/-- What a deferrable tool yields: a child reference, or a synchronous text. -/
inductive DeferredOutcome where
  | child (ref : Nat)
  | text (content : String)
deriving DecidableEq, Inhabited

structure Answer where
  fills : List Fill := []
  cancelRequested : Bool := false
  environmentRevoked : Bool := false
  fault : Option Fault := none
  abandoned : Bool := false
  teamExhausted : Bool := false
  reserved : Nat := 0
  response : Response := {}
  decision : Option BudgetDecision := none
  steering : Steering := {}
  summaries : List SummaryRequest := []
  sameList : Bool := true
  view : List Message := []
  nativeHistory : Json := .null
  tool : ToolOutcome := {}
  shortCircuit : Option String := none
  checkpointed : Bool := false
  deferred : DeferredOutcome := .text ""
  remembered : Option DeferredOutcome := none
  signals : TurnEnforcementState := {}
deriving Inhabited

/-! ## the host -/

inductive Purpose where
  | completion
  | summary
deriving DecidableEq, Repr, Inhabited

/-- The configuration of a session, the pure functions of its collaborators and
the answers of its environment.  `minimumOutput` is the provider's
`minimum_output_tokens`: a floor it validates against the configured limit. -/
structure Host where
  maxSteps : Option Int := some 100
  hardBudgetTokens : Option Nat := none
  initialSoftBudgetTokens : Option Nat := none
  hasRunControl : Bool := false
  decidesBudget : Bool := false
  sharesTeamBudget : Bool := false
  enforcementOn : Bool := false
  commitReserve : Nat := 25000
  watchdogK : Nat := 4
  lowYieldM : Nat := 3
  submitToolName : String := "submit_findings"
  initialTools : List String := []
  initialToolChoice : Json := .null
  maxTokensPerStep : Int := 32768
  contextWindow : Option Int := none
  requiresThinkingPrefix : Bool := false
  minimumOutput : Purpose → Nat := fun _ => 1
  minimumOutput_pos : ∀ p, 1 ≤ minimumOutput p
  minimumOutput_le : ∀ p, (minimumOutput p : Int) ≤ max 1 maxTokensPerStep
  estimate : Purpose → List Message → List String → Nat
  isDeferred : String → Bool := fun name => name == "spawn_agent"
  callError : List String → ToolCall → String := fun _ _ => ""
  answers : Nat → Answer

namespace Host

/-- `max(1, int(agent.max_tokens_per_step))`. -/
def configuredOutput (h : Host) : Int := max 1 h.maxTokensPerStep

/-- `_window_output_limit(request)`: what the context window leaves a summary, where the
window is known. -/
def windowCap (h : Host) (messages : List Message) : Option Int :=
  (h.contextWindow.filter (0 < ·)).map fun window =>
    min h.maxTokensPerStep (window - h.estimate .summary messages [])

/-- `_initialize_run_control`: the soft allowance a session starts with. -/
def initialBudget (h : Host) : Option Nat :=
  match h.hasRunControl, h.initialSoftBudgetTokens, h.hardBudgetTokens with
  | true, some soft, none => some soft
  | true, some soft, some hard => some (min soft hard)
  | _, _, hard => hard

end Host

/-! ## events -/

/-- A request and the terms it was admitted under; `hard` is absent when the session
has no run control. -/
structure Admission where
  purpose : Purpose
  messages : List Message := []
  minimum : Nat
  reservedInput : Nat
  used : Nat
  reservations : Nat
  soft : Option Nat
  hard : Option Nat
  limit : Int
deriving DecidableEq, Inhabited

/-- What the driver does in view of its observers. -/
inductive Event where
  | runStarted (phase : SessionPhase)
  | edge (src dst : SessionPhase)
  | modelStep (windDown : Bool)
  | call (terms : Admission) (total : Nat)
  | callEnded (isProtected : Bool) (used : Nat) (budget : Option Nat)
  | abandoned
  | windDown (used : Nat) (budget : Option Nat)
deriving DecidableEq, Inhabited

/-! ## the world -/

/-- The list object a request is built from: the session's own `messages`, or a
list of its own. -/
inductive Request where
  | history
  | view (messages : List Message)
deriving DecidableEq, Inhabited

/-- The fields of `SessionRunUseCase` and of the objects it drives. -/
structure Runner where
  maxBudgetTokens : Option Nat := none
  finalPrompt : Option String := none
  llmStepStarted : Bool := false
  pendingStep : Option Response := none
  emptyStopRetried : Bool := false
  requiredToolRetried : Bool := false
  toolAllowlist : Option (List String) := none
  toolGateLabel : Option String := none
  tools : List String := []
  toolChoice : Json := .null
  turnStartMessageIndex : Option Nat := none
  outgoing : Request := .history
  draining : List Bool := []
  receiptPrefix : List (String × String) := []
  receiptResults : List (String × String) := []
  receiptStep : Option Nat := none
  pendingDeferredResult : Option DeferredOutcome := none
deriving DecidableEq, Inhabited

structure World where
  state : SessionState
  runner : Runner := {}
  cancelRequested : Bool := false
  environmentRevoked : Bool := false
  clock : Nat := 0
  events : List Event := []
deriving DecidableEq, Inhabited

abbrev Session (α : Type) : Type := Effect World Exn α

namespace World

/-- The next answer has been taken. -/
def tick (w : World) : World := { w with clock := w.clock + 1 }

/-- One `table.fill` of the scheduler; a row that is not pending is left alone
(the error is the scheduler's). -/
def applyFill (table : PendingEventTable) (fill : Fill) : PendingEventTable :=
  (table.fill fill.toolCallId (if fill.failed then .failed else .done) fill.result
    (if fill.failed then some fill.result else none)).getD table

/-- What happens around the driver during one await. -/
def ambient (w : World) (a : Answer) : World :=
  { w with
    state := { w.state with pendingEvents := a.fills.foldl applyFill w.state.pendingEvents }
    cancelRequested := a.cancelRequested
    environmentRevoked := a.environmentRevoked }

def setState (w : World) (f : SessionState → SessionState) : World := { w with state := f w.state }

def setRunner (w : World) (f : Runner → Runner) : World := { w with runner := f w.runner }

def log (w : World) (event : Event) : World := { w with events := event :: w.events }

/-- The messages behind a request. -/
def requestMessages (w : World) : Request → List Message
  | .history => w.state.messages
  | .view ms => ms

theorem ids_applyFill (table : PendingEventTable) (fill : Fill) :
    (applyFill table fill).ids = table.ids := by
  unfold applyFill
  cases h : table.fill fill.toolCallId (if fill.failed then .failed else .done) fill.result
      (if fill.failed then some fill.result else none) with
  | none => rfl
  | some table' => exact PendingEventTable.ids_fill h

/-- Filling rows adds and removes none. -/
theorem ids_fills (fills : List Fill) (table : PendingEventTable) :
    (fills.foldl applyFill table).ids = table.ids := by
  induction fills generalizing table with
  | nil => rfl
  | cons fill fills ih => rw [List.foldl_cons, ih, ids_applyFill]

/-- Filling a row leaves its place in the batch. -/
theorem keys_fills (fills : List Fill) (table : PendingEventTable) :
    (fills.foldl applyFill table).keys = table.keys := by
  induction fills generalizing table with
  | nil => rfl
  | cons fill fills ih =>
      rw [List.foldl_cons, ih, applyFill]
      cases h : table.fill fill.toolCallId (if fill.failed then .failed else .done) fill.result
          (if fill.failed then some fill.result else none) with
      | none => rfl
      | some table' => exact PendingEventTable.keys_fill h

theorem isEmpty_fills (fills : List Fill) {table : PendingEventTable}
    (h : table.isEmpty = true) : (fills.foldl applyFill table).isEmpty = true := by
  refine PendingEventTable.isEmpty_of_ids ?_
  rw [ids_fills, PendingEventTable.isEmpty_iff.mp h, PendingEventTable.ids_empty]

end World

/-! ## primitives -/

namespace Session

/-- Read a host callback: the next answer, nothing else happens. -/
def consult (h : Host) : Session Answer := fun w => (.ok (h.answers w.clock), w.tick)

/-- Await: the environment moves, the answer says how the await ended. -/
def settle (h : Host) : Session Answer := fun w =>
  (.ok (h.answers w.clock), w.tick.ambient (h.answers w.clock))

/-- Await, raising the fault of the answer. -/
def await (h : Host) : Session Answer := do
  let a ← settle h
  match a.fault with
  | none => pure a
  | some fault => Effect.raise fault.toExn

/-- `event_publisher.emit(…)`: a subscriber's exception is no provider error. -/
def emit (h : Host) : Session Unit := do
  let a ← settle h
  match a.fault with
  | none => pure ()
  | some .crash => Effect.raise .crash
  | some (.cancelled _) => Effect.raise .cancelled
  | some (.failure f) => Effect.raise (.plain f.text)

def modifyState (f : SessionState → SessionState) : Session Unit := Effect.change (·.setState f)

def modifyRunner (f : Runner → Runner) : Session Unit := Effect.change (·.setRunner f)

def logEvent (event : Event) : Session Unit := Effect.change (·.log event)

def append (m : Message) : Session Unit := modifyState (·.appendMessage m)

/-- `state.transition_to(dst, reason=…)`. -/
def transitionTo (dst : SessionPhase) (reason : Option String := none) : Session Unit := do
  let w ← Effect.read
  match w.state.transitionTo dst reason with
  | none => Effect.raise (.invalidPhaseTransition w.state.phase dst)
  | some s => Effect.change fun w => { w with state := s, events := .edge w.state.phase dst :: w.events }

end Session

end OpenCollab
