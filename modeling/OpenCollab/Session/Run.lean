import OpenCollab.Session.Precheck

/-!
# OpenCollab.Session.Run

The run loop.  `advance` executes one phase of the state machine; `drive`
repeats it until the session is terminal or suspended; `runLoop` prepares the
turn, drives it and settles how it ended.

A run that is cut off after some advances ends in `crash`, as one that is cut
off at an await does: the fuel of `drive` only says where.
-/

namespace OpenCollab

open Lib

/-! ## texts -/

def emptyStopNudge : String :=
  "Your previous response was empty — no message and no tool call. " ++
  "If the task is finished, say so briefly. Otherwise continue now by " ++
  "calling the appropriate tool or giving your answer."

def emptyStopPlaceholder : String := "[no output produced this turn]"

def requiredToolRetryNudge : String :=
  "Your previous response did not call the required tool. Call one of the " ++
  "currently available tools to complete this step."

def contextOverflowReason : String :=
  "context overflow: prompt exceeds the model context window even after compaction"

def truncatedNotice : String :=
  "[Output truncated by the provider. Partial response preserved; session stopped.]"

/-- The reason of a `_TokenBudgetStop`. -/
def tokenStopReason (reservedInput remaining minimum : Int) : String :=
  "budget exhausted before model call: conservative input reservation requires " ++
  toString reservedInput ++ " of " ++ toString remaining ++ " remaining tokens, " ++
  if 1 < minimum then
    "leaving less than " ++ toString minimum ++ " output tokens required by model configuration"
  else "leaving no output headroom"

namespace Response

/-- `finish_reason in (None, "stop", "end_turn")`. -/
def isPlainStop (r : Response) : Bool :=
  r.finishReason.all fun reason => reason = "stop" || reason = "end_turn"

end Response

namespace SessionPhase

/-- `_should_suspend()`: the loop stops here. -/
def suspends (phase : SessionPhase) : Bool := phase.isTerminal || phase = .awaitingEvents

end SessionPhase

namespace Session

open Effect

/-! ## CALLING_LLM -/

/-- `finish_step(latency)`. -/
def finishStep (h : Host) : Session Unit := emit h

/-- `clear_pending_step()`. -/
def clearPendingStep : Session Unit := modifyRunner fun r => { r with pendingStep := none }

/-- `_stop_on_context_overflow()`. -/
def stopOnContextOverflow (h : Host) : Session Unit := do
  append (.ofText .system ("[" ++ capitalize contextOverflowReason ++ ". Session stopped.]"))
  emit h
  clearPendingStep
  transitionTo .stopped (some contextOverflowReason)

/-- The exceptions of a model call that stop the session. -/
def stopForCall (h : Host) : Exn → Session Unit
  | .runCancelled => stopForRunCancellation h
  | .tokenBudgetStop reservedInput remaining minimum =>
      stopPrecheck h (tokenStopReason reservedInput remaining minimum)
  | .contextOverflowStop => stopOnContextOverflow h
  | .teamBudgetStop => stopPrecheck h teamBudgetReason
  | e => raise e

/-- The response's usage is charged. -/
def chargeResponse (h : Host) (response : Response) : Session Unit := do
  let w ← read
  match normalizeCompletionUsage response.usage with
  | none =>
      endUnreported w.state.windDownDone
      raise (.plain "provider usage must be non-negative integers")
  | some (contextTokens, total) =>
      change (·.chargeUsage h w.state.windDownDone total)
      modifyRunner fun r => { r with finalPrompt := none }
      modifyState fun s => { s with contextTokens }

/-- The session used more than its soft allowance. -/
def overBudget (w : World) : Bool :=
  w.runner.maxBudgetTokens.any fun (budget : Nat) => budget < w.state.usedTokens

/-- The decision asked for when a response went over the allowance. -/
def decideAfterResponse (h : Host) : Session Unit := do
  let w ← read
  if overBudget w then decideRunBudget h else return ()

/-- Usable text of a response that is not accepted stays in the transcript. -/
def keepVisibleText (h : Host) (response : Response) : Session Unit :=
  match response.visible? with
  | none => pure ()
  | some text => do
      append (.ofText .assistant text)
      emit h

/-- The stop of a response that went over the allowance. -/
def stopOverBudget (h : Host) (response : Response) : Session Unit := do
  keepVisibleText h response
  let w ← read
  let reason := "budget exceeded after model call: " ++ toString w.state.usedTokens ++ " tokens used"
  append (.ofText .system ("[" ++ capitalize reason ++ ". Session stopped.]"))
  emit h
  finishStep h
  transitionTo .stopped (some reason)

/-- The response joins the history and is kept for HANDLING_RESPONSE. -/
def acceptResponse (response : Response) : Session Unit := do
  modifyState fun s => { s with messages := s.messages ++ (assistantMessage? response).toList }
  modifyRunner fun r => { r with pendingStep := some response }
  transitionTo .handlingResponse

/-- What follows a returned response. -/
def settleResponse (h : Host) (response : Response) : Session Unit := do
  chargeResponse h response
  decideAfterResponse h
  let w ← read
  if overBudget w then stopOverBudget h response
  else if !response.toolCalls.isEmpty && w.cancelRequested then do
    keepVisibleText h response
    finishStep h
    stopForRunCancellation h
  else acceptResponse response

/-- `call_llm` with the stops `run_llm_call` answers; `none` when it stopped. -/
def callOrStop (h : Host) (tools : List String) : Session (Option Response) :=
  handle (do let response ← callLlm h tools; return some response) fun e => do
    stopForCall h e
    return none

/-- `run_llm_call()`. -/
def runLlmCall (h : Host) : Session Unit := do
  modifyRunner fun r => { r with llmStepStarted := false }
  ensureToolEnvironmentActive
  let w ← read
  let outcome ← callOrStop h w.runner.tools
  match outcome with
  | none => return ()
  | some response => settleResponse h response

/-! ## HANDLING_RESPONSE -/

/-- A placeholder keeps two user messages apart. -/
def appendPlaceholder (due : Bool) : Session Unit :=
  if due then
    append { Message.ofText .assistant emptyStopPlaceholder with placeholder := true }
  else pure ()

/-- The stop of a truncated response. -/
def stopTruncated (h : Host) : Session Unit := do
  append (.ofText .system truncatedNotice)
  emit h
  finishStep h
  clearPendingStep
  transitionTo .stopped (some "output truncated: provider reached its generation limit")

/-- The gate asked for a tool and none was called: once. -/
def retryRequiredTool (response : Response) : Session Unit := do
  modifyRunner fun r => { r with requiredToolRetried := true }
  appendPlaceholder response.visible?.isNone
  append (.ofText .user requiredToolRetryNudge)
  transitionTo .autosaving

/-- The gate asked for a tool and none was called: twice. -/
def stopRequiredTool (h : Host) : Session Unit := do
  finishStep h
  clearPendingStep
  transitionTo .stopped (some "required tool was not called after correction")

/-- An empty response is retried once per turn. -/
def retryEmptyStop : Session Unit := do
  modifyRunner fun r => { r with emptyStopRetried := true }
  let w ← read
  appendPlaceholder (w.state.messages.getLast?.any fun last =>
    last.role = .user || last.role = .tool)
  append (.ofText .user emptyStopNudge)
  transitionTo .autosaving

/-- The turn is complete. -/
def completeTurn (h : Host) : Session Unit := do
  finishStep h
  clearPendingStep
  transitionTo .done (some "completed")

/-- The end of `handle_pending_response`, for a response without tool calls. -/
def routeAnswer (h : Host) (response : Response) : Session Unit := do
  let w ← read
  if (w.runner.toolAllowlist.any fun allowed => !allowed.isEmpty) && response.isPlainStop then
    if !w.runner.requiredToolRetried then retryRequiredTool response else stopRequiredTool h
  else if response.visible?.isNone && response.isPlainStop && !w.runner.emptyStopRetried then
    retryEmptyStop
  else completeTurn h

/-- Visible text is announced. -/
def announce (h : Host) (due : Bool) : Session Unit := if due then emit h else pure ()

/-- `handle_pending_response()`. -/
def handlePendingResponse (h : Host) : Session Unit := do
  let w ← read
  match w.runner.pendingStep with
  | none =>
      modifyState (·.fail "error")
      raise (.plain "Cannot handle assistant response before calling LLM")
  | some response =>
      announce h response.visible?.isSome
      if response.isTruncated then stopTruncated h
      else if !response.toolCalls.isEmpty then transitionTo .executingTools
      else routeAnswer h response

/-! ## AUTOSAVING -/

/-- The last assistant message says something else than the submitted summary. -/
def differsFromAnswer (messages : List Message) (summary : String) : Bool :=
  let answer := (messages.reverse.find? (·.role = .assistant)).bind Message.content
  summary ≠ "" && answer.map (fun
    | .str text => Json.str (strip text)
    | content => content) ≠ some (.str summary)

/-- The end of an ordinary step. -/
def autosaveStep (h : Host) : Session Unit := do
  finishStep h
  clearPendingStep
  ensureToolEnvironmentActive
  transitionTo .precheck

/-- The end of a step that submitted. -/
def autosaveSubmission (h : Host) (summary : String) : Session Unit := do
  let w ← read
  append (.ofText .assistant summary)
  announce h (differsFromAnswer w.state.messages summary)
  finishStep h
  clearPendingStep
  ensureToolEnvironmentActive
  modifyState fun s => { s with submittedSummary := none }
  transitionTo .done (some "submitted")

/-- `autosave_pending_step()`. -/
def autosavePendingStep (h : Host) : Session Unit := do
  let w ← read
  match w.state.submittedSummary with
  | none => autosaveStep h
  | some summary => autosaveSubmission h summary

/-! ## the loop -/

/-- `advance(cancel_event)`. -/
def advance (h : Host) : Session Unit := do
  let w ← read
  match w.state.phase with
  | .idle => transitionTo .precheck
  | .precheck => precheck h
  | .callingLlm => runLlmCall h
  | .handlingResponse => handlePendingResponse h
  | .executingTools => executePendingTools h
  | .autosaving => autosavePendingStep h
  | .awaitingEvents => do
      modifyState (·.fail "error")
      raise (.plain "advance() called while AWAITING_EVENTS")
  | .done | .stopped | .error => do
      modifyState (·.fail "error")
      raise (.plain "Cannot advance terminal phase")

/-- `while not self._should_suspend(): await self.advance(cancel_event)`. -/
def drive (h : Host) : Nat → Session Unit
  | 0 => raise .crash
  | fuel + 1 => do
      let w ← read
      if w.state.phase.suspends then return ()
      else do
        advance h
        drive h fuel

/-! ## the turn -/

/-- The first lines of `_prepare_turn`: rows of an interrupted batch are waited
for first. -/
def wakeIfPending : Session Unit := do
  let w ← read
  if !w.state.pendingEvents.isEmpty && (w.state.phase = .idle || w.state.phase.isTerminal) then
    modifyState fun s => { s.resumeToIdle with phase := .awaitingEvents }
  else return ()

/-- A queued user turn reopens a terminal session. -/
def reopenForQueuedTurn : Session Unit := do
  let w ← read
  if w.state.pendingExternalUserTurn.isSome && w.state.phase.isTerminal then
    modifyState (·.resumeToIdle)
  else return ()

/-- A queued user turn begins. -/
def beginQueuedTurn : Session Unit := do
  let w ← read
  if w.state.phase = .idle then modifyState (·.consumeQueuedExternalUserTurn) else return ()

/-- `_turn_start_message_index = len(messages)`, in the state as well. -/
def startTurnHere : Session Unit := do
  let w ← read
  modifyRunner fun r => { r with turnStartMessageIndex := some w.state.messages.length }
  modifyState (·.startActiveTurn w.state.messages.length)

/-- A fresh once-per-turn retry allowance. -/
def freshTurn : Session Unit := do
  modifyRunner fun r => { r with emptyStopRetried := false }
  modifyState fun s => { s with submittedSummary := none }

/-- The state `_resume_from_awaiting` leaves before its transition. -/
def drained (w : World) : World :=
  let w := w.setState fun s => { s with
    messages := s.messages ++ s.pendingEvents.orderedResults
    pendingEvents := .empty }
  match w.state.pendingExternalUserTurn with
  | none => w
  | some _ =>
      let s := w.state.consumeQueuedExternalUserTurn
      { w with
        state := { s.startActiveTurn s.messages.length with submittedSummary := none }
        runner := { w.runner with
          turnStartMessageIndex := some s.messages.length
          emptyStopRetried := false } }

/-- `_resume_from_awaiting()`. -/
def resumeFromAwaiting : Session Unit := do
  let w ← read
  if w.state.pendingEvents.isComplete then do
    change drained
    transitionTo .autosaving
  else return ()

/-- The rest of `_prepare_turn`, the entry phase being known. -/
def enterTurn : Session Unit := do
  let w ← read
  match w.state.phase with
  | .awaitingEvents => do
      modifyRunner fun r => { r with turnStartMessageIndex := w.state.activeTurnStartMessageIndex }
      resumeFromAwaiting
  | .done =>
      modifyRunner fun r => { r with
        turnStartMessageIndex := some (w.state.completedTurnStartMessageIndex.getD 0) }
  | _ => do
      startTurnHere
      modifyState (·.resumeToIdle)
      freshTurn

/-- `_prepare_turn()`. -/
def prepareTurn : Session Unit := do
  wakeIfPending
  reopenForQueuedTurn
  beginQueuedTurn
  enterTurn

/-- The `try` of `run_loop`. -/
def driveTurn (h : Host) (fuel : Nat) : Session Unit := do
  prepareTurn
  drive h fuel

/-- The handlers of `run_loop`. -/
def settleFailure (h : Host) : Exn → Session Unit
  | .runCancelled => stopForRunCancellation h
  | .crash => raise .crash
  | .cancelled => raise .cancelled
  | e => do
      modifyState (·.fail e.describe)
      raise e

/-- The end of `run_loop`: `_last_turn_answer()` of a run that did not raise. -/
def finishRun : Session Json := do
  let w ← read
  let answer := lastAssistantAnswer w.state.messages w.runner.turnStartMessageIndex
  if w.state.phase.isTerminal then do
    modifyState (·.clearActiveTurn)
    return answer
  else return answer

/-- `run_loop(cancel_event)`. -/
def runLoop (h : Host) (fuel : Nat) : Session Json := do
  let w ← read
  raiseIf (!w.runner.draining.isEmpty) (.plain "prior provider generation is still draining")
  logEvent (.runStarted w.state.phase)
  handle (driveTurn h fuel) (settleFailure h)
  finishRun

/-! ## staying in a phase -/

variable {h : Host} {w : World} {r : Response}

/-- Moves that leave the phase and the pending response. -/
def Stays (h : Host) (w w' : World) : Prop :=
  Reaches h w w' ∧ w'.machine.phase = w.machine.phase ∧ w'.machine.response = w.machine.response

instance instIsPreorderStays : IsPreorder World (Stays h) where
  refl := fun w => ⟨refl_of (Reaches h) w, rfl, rfl⟩
  trans := fun _ _ _ h₁ h₂ =>
    ⟨trans_of (Reaches h) h₁.1 h₂.1, h₂.2.1.trans h₁.2.1, h₂.2.2.trans h₁.2.2⟩

theorem emit_stays :
    Follows (Stays h) (emit h) w (fun _ _ => True) (fun e _ => e.isAwaited = true) := by
  refine .within (emit_spec.mono ?_ ?_)
  · rintro _ w' - ⟨_, _, hm⟩
    exact ⟨⟨by rw [hm], by rw [hm]⟩, trivial⟩
  · rintro e w' - ⟨⟨_, _, hm⟩, he, -⟩
    exact ⟨⟨by rw [hm], by rw [hm]⟩, he⟩

theorem say_stays (role : Role) (placeholder : Bool) {text : String} (hr : role ≠ .tool)
    (hq : w.machine.Quiet) :
    Follows (Stays h) (append (.spoken role text placeholder)) w (fun _ _ => True)
      (fun e _ => e.isAwaited = true) :=
  .change ⟨.step (.say role text placeholder hr hq), rfl, rfl⟩ trivial

theorem announce_stays (due : Bool) :
    Follows (Stays h) (announce h due) w (fun _ _ => True) (fun e _ => e.isAwaited = true) := by
  unfold announce
  split
  · exact emit_stays
  · exact .pure trivial

theorem keepVisibleText_stays (hq : w.machine.Quiet) :
    Follows (Stays h) (keepVisibleText h r) w (fun _ _ => True)
      (fun e _ => e.isAwaited = true) := by
  unfold keepVisibleText
  split
  · exact .pure trivial
  · exact .bind (say_stays .assistant false (by decide) hq)
      fun _ _ _ _ => emit_stays

/-- A stretch that stays in its phase, in a run that goes on. -/
theorem stays_spec {α : Type} {m : Session α} {Q : α → World → Prop}
    (hm : Follows (Stays h) m w Q fun e _ => e.isAwaited = true) :
    Follows (Reaches h) m w (fun a w' => Stays h w w' ∧ Q a w') RunFails :=
  (hm.keep fun _ hd => hd.1).mono (fun _ _ _ hq => hq) (fun _ _ _ he => .of_awaited he.2)

/-- The response is dropped where no batch depends on it. -/
theorem clearPendingStep_spec {E : Exn → World → Prop} (hq : w.machine.Quiet) :
    Follows (Reaches h) clearPendingStep w
      (fun _ w' => w'.machine.phase = w.machine.phase ∧ w'.machine.response = none) E :=
  .change (.step (.clearResponse hq)) ⟨rfl, rfl⟩

/-! ## the phases -/

/-- What a run can start from: CALLING_LLM was admitted, a response is there to
be handled, and a batch begins without rows. -/
structure Entering (w : World) : Prop where
  calling : w.machine.phase = .callingLlm → admitted w.machine.events = true
  response : w.machine.phase = .handlingResponse ∨ w.machine.phase = .executingTools →
    ∃ r, w.machine.response = some r
  batch : w.machine.phase = .executingTools → w.machine.table.isEmpty = true

/-- What holds between two phases: moreover an idle session waits for no rows. -/
structure Running (w : World) : Prop extends Entering w where
  idle : w.machine.phase = .idle → w.machine.table.isEmpty = true ∧ w.machine.draining = []

/-- A phase that asks for nothing. -/
theorem Entering.of_phase {p : SessionPhase} (hp : w.machine.phase = p)
    (hn : p ∉ [.callingLlm, .handlingResponse, .executingTools]) : Entering w := by
  subst hp
  simp only [List.mem_cons, List.not_mem_nil, or_false, not_or] at hn
  exact ⟨fun h => absurd h hn.1, fun h => (h.elim hn.2.1 hn.2.2).elim, fun h => absurd h hn.2.2⟩

theorem Running.of_phase {p : SessionPhase} (hp : w.machine.phase = p)
    (hn : p ∉ [.idle, .callingLlm, .handlingResponse, .executingTools]) : Running w := by
  rw [List.mem_cons, not_or] at hn
  exact ⟨.of_phase hp hn.2, fun h => absurd (hp.symm.trans h) hn.1⟩

theorem Running.of_precheckEnds (hq : PrecheckEnds w) : Running w := by
  obtain hp | ⟨hp, ha⟩ := hq
  · exact .of_phase hp (by decide)
  · refine ⟨⟨fun _ => ha, fun h => ?_, fun h => ?_⟩, fun h => ?_⟩
    · obtain h | h := h <;> exact absurd (hp.symm.trans h) (by decide)
    · exact absurd (hp.symm.trans h) (by decide)
    · exact absurd (hp.symm.trans h) (by decide)

theorem stops_spec {reason : Option String}
    (hp : w.machine.phase = .precheck ∨ w.machine.phase = .callingLlm) :
    Follows (Reaches h) (transitionTo .stopped reason) w (fun _ w' => Running w') RunFails := by
  have hdst : SessionPhase.stopped ∈ w.state.phase.transitions := by
    obtain hp | hp := hp <;> rw [show w.state.phase = _ from hp] <;> decide
  refine (transitionTo_spec hdst (.stop hp)).mono ?_ fun _ _ _ he => he
  rintro _ w' - ⟨hm, -⟩
  exact .of_phase (p := .stopped) (by rw [hm]; rfl) (by decide)

/-! ### CALLING_LLM -/

theorem quiet_of_calling (hp : w.machine.phase = .callingLlm) : w.machine.Quiet := .inr (.inl hp)

theorem stopOnContextOverflow_spec (hp : w.machine.phase = .callingLlm) :
    Follows (Reaches h) (stopOnContextOverflow h) w (fun _ w' => Running w') RunFails := by
  unfold stopOnContextOverflow
  refine .bind (stays_spec (say_stays .system false (by decide)
    (quiet_of_calling hp))) ?_
  rintro _ w₁ - ⟨hd₁, -⟩
  refine .bind (stays_spec emit_stays) ?_
  rintro _ w₂ - ⟨hd₂, -⟩
  have hp₂ : w₂.machine.phase = .callingLlm := (hd₂.2.1.trans hd₁.2.1).trans hp
  refine .bind (clearPendingStep_spec (quiet_of_calling hp₂)) ?_
  rintro _ w₃ - ⟨hp₃, -⟩
  exact stops_spec (.inr (hp₃.trans hp₂))

theorem stopPrecheck_running (reason : String) (message : Option String)
    (hp : w.machine.phase = .precheck ∨ w.machine.phase = .callingLlm) :
    Follows (Reaches h) (stopPrecheck h reason message) w (fun _ w' => Running w') RunFails :=
  (stopPrecheck_spec reason message hp).mono
    (fun _ _ _ hq => .of_phase hq (by decide))
    (fun _ _ _ he => .of_awaited he.1)

theorem stopForCall_spec {e : Exn} (he : CallFails (fun _ => false) e w) :
    Follows (Reaches h) (stopForCall h e) w (fun _ w' => Running w') RunFails := by
  unfold stopForCall
  split
  · exact stopPrecheck_running _ _ (.inr he.phase)
  · exact stopPrecheck_running _ _ (.inr he.phase)
  · exact stopOnContextOverflow_spec he.phase
  · exact stopPrecheck_running _ _ (.inr he.phase)
  · exact .raise (.of_phase he.legal (.inr he.phase))

theorem callOrStop_spec (tools : List String) (hc : w.machine.InCall) :
    Follows (Reaches h) (callOrStop h tools) w
      (fun outcome w' => match outcome with
        | none => Running w'
        | some response => Answered h response w') RunFails := by
  unfold callOrStop
  refine .handle (.bind (callLlm_spec tools hc) fun _ _ _ hq => .pure hq) ?_
  intro e w₁ _ he
  exact .bind (stopForCall_spec he) fun _ _ _ hq => .pure hq

/-- In CALLING_LLM with no call left behind. -/
def Calling (w : World) : Prop := w.machine.phase = .callingLlm ∧ w.machine.draining = []

theorem chargeResponse_spec (ha : Answered h r w) :
    Follows (Reaches h) (chargeResponse h r) w (fun _ w' => Calling w') RunFails := by
  obtain ⟨-, hc, terms, rest, he, hu⟩ := ha
  unfold chargeResponse
  refine .readThen ?_
  split
  · refine .bind (endUnreported_spec hc rfl) ?_
    intro _ w₁ _ hc₁
    exact .raise (.of_phase rfl (.inr hc₁.1))
  · rename_i total hn
    have htotal : r.total = total := by simp [Response.total, hn]
    refine .bind (chargeUsage_spec hc rfl (htotal ▸ he) hu) ?_
    intro _ w₁ _ hc₁
    refine .bind (.change (Q := fun _ w' => Calling w') (.same rfl) ⟨hc₁.phase, hc₁.alone⟩) ?_
    intro _ w₂ _ hp₂
    exact .change (.same rfl) hp₂

theorem Calling.decided {w' : World} (hp : Calling w) (hd : Decided w w') : Calling w' := by
  obtain ⟨_, _, _, hm⟩ := hd
  rw [Calling, hm]
  exact hp

theorem decideAfterResponse_spec (hp : Calling w) :
    Follows (Reaches h) (decideAfterResponse h) w (fun _ w' => Calling w') RunFails := by
  unfold decideAfterResponse
  refine .readThen ?_
  split
  · exact decideRunBudget_spec.mono (fun _ _ _ hd => hp.decided hd)
      (fun _ _ _ he => .of_phase he.2 (.inr (hp.decided he.1).1))
  · exact .pure hp

theorem stopOverBudget_spec (hp : w.machine.phase = .callingLlm) :
    Follows (Reaches h) (stopOverBudget h r) w (fun _ w' => Running w') RunFails := by
  unfold stopOverBudget
  refine .bind (stays_spec (keepVisibleText_stays (quiet_of_calling hp))) ?_
  rintro _ w₁ - ⟨hd₁, -⟩
  have hp₁ : w₁.machine.phase = .callingLlm := hd₁.2.1.trans hp
  refine .readThen ?_
  dsimp only
  refine .bind (stays_spec (say_stays .system false (by decide)
    (quiet_of_calling hp₁))) ?_
  rintro _ w₂ - ⟨hd₂, -⟩
  refine .bind (stays_spec emit_stays) ?_
  rintro _ w₃ - ⟨hd₃, -⟩
  refine .bind (stays_spec emit_stays) ?_
  rintro _ w₄ - ⟨hd₄, -⟩
  exact stops_spec (.inr ((hd₄.2.1.trans (hd₃.2.1.trans hd₂.2.1)).trans hp₁))

theorem acceptResponse_spec (hc : Calling w) (hr : h.Provides r) :
    Follows (Reaches h) (acceptResponse r) w (fun _ w' => Running w') RunFails := by
  let w₁ := w.setState fun s => { s with
    messages := s.messages ++ (assistantMessage? r).toList }
  let w₂ := w₁.setRunner fun runner => { runner with pendingStep := some r }
  have hdst : SessionPhase.handlingResponse ∈ w₂.state.phase.transitions := by
    rw [show w₂.state.phase = .callingLlm from hc.1]
    decide
  obtain ⟨w₃, hrun, hm, -⟩ := transitionTo_run none hdst
  refine .run ((run_bind (run_change _)).trans ((run_bind (run_change _)).trans hrun)) ?_ ?_
  · refine .step ?_
    rw [hm]
    exact .respond hc.1 hc.2 r hr
  · refine ⟨⟨fun hc => ?_, fun _ => ⟨r, by rw [hm]; rfl⟩, fun hb => ?_⟩, fun hi => ?_⟩
    · rw [hm] at hc
      contradiction
    · rw [hm] at hb
      contradiction
    · rw [hm] at hi
      contradiction

theorem settleResponse_spec (ha : Answered h r w) :
    Follows (Reaches h) (settleResponse h r) w (fun _ w' => Running w') RunFails := by
  unfold settleResponse
  refine .bind (chargeResponse_spec ha) ?_
  intro _ w₁ _ hc₁
  refine .bind (decideAfterResponse_spec hc₁) ?_
  intro _ w₂ _ hc₂
  refine .readThen ?_
  split
  · exact stopOverBudget_spec hc₂.1
  split
  · refine .bind (stays_spec (keepVisibleText_stays (quiet_of_calling hc₂.1))) ?_
    rintro _ w₃ - ⟨hd₃, -⟩
    refine .bind (stays_spec emit_stays) ?_
    rintro _ w₄ - ⟨hd₄, -⟩
    exact stopPrecheck_running _ _ (.inr ((hd₄.2.1.trans hd₃.2.1).trans hc₂.1))
  · exact acceptResponse_spec hc₂ ha.provided

theorem runLlmCall_spec (hp : w.machine.phase = .callingLlm)
    (ha : admitted w.machine.events = true) (hd : w.machine.draining = []) :
    Follows (Reaches h) (runLlmCall h) w (fun _ w' => Running w') RunFails := by
  unfold runLlmCall
  refine .bind (.change (Q := fun _ w' => w'.machine.InCall) (.step (.resetStarted hp ha))
    ⟨hp, fun _ => ha, hd⟩) ?_
  intro _ w₁ _ hc₁
  refine .bind (Q := fun _ w' => w' = w₁) (.readThen (.raiseIf ?_ fun _ => rfl)) ?_
  · exact fun _ => .of_phase rfl (.inr hc₁.1)
  rintro _ w₁ - rfl
  refine .readThen (.bind (callOrStop_spec _ hc₁) ?_)
  rintro (_ | response) w₂ - hq
  · exact .pure hq
  · exact settleResponse_spec hq

/-! ### HANDLING_RESPONSE -/

/-- A response without a batch is being handled. -/
def Answerless (w : World) : Prop :=
  w.machine.phase = .handlingResponse ∧ ∀ r ∈ w.machine.response, storedCalls r = []

theorem Answerless.quiet (hw : Answerless w) : w.machine.Quiet := .inr (.inr (.inr hw))

theorem Stays.answerless {w' : World} (hd : Stays h w w') (hw : Answerless w) : Answerless w' := by
  unfold Answerless
  rw [hd.2.1, hd.2.2]
  exact hw

/-- An edge out of HANDLING_RESPONSE that leaves no batch behind. -/
theorem finish_spec {dst : SessionPhase} {reason : Option String}
    (hd : dst = .done ∨ dst = .stopped ∨ dst = .autosaving) (hw : Answerless w) :
    Follows (Reaches h) (transitionTo dst reason) w (fun _ w' => Running w') RunFails := by
  have hdst : dst ∈ w.state.phase.transitions := by
    rw [show w.state.phase = .handlingResponse from hw.1]
    obtain rfl | rfl | rfl := hd <;> decide
  refine (transitionTo_spec hdst (.finish hw.1 hw.quiet dst hd)).mono ?_ fun _ _ _ he => he
  rintro _ w' - ⟨hm, -⟩
  have hp : w'.machine.phase = dst := by rw [hm]; rfl
  obtain rfl | rfl | rfl := hd <;> exact .of_phase hp (by decide)

theorem clearPendingStep_answerless (hw : Answerless w) :
    Follows (Reaches h) clearPendingStep w (fun _ w' => Answerless w') RunFails :=
  (clearPendingStep_spec hw.quiet).mono
    (fun _ w' _ hq => ⟨hq.1.trans hw.1, fun r hr => by rw [hq.2] at hr; contradiction⟩)
    (fun _ _ _ he => he)

/-- The end of a step that leaves by `dst`. -/
theorem finishStep_spec {dst : SessionPhase} {reason : Option String}
    (hd : dst = .done ∨ dst = .stopped ∨ dst = .autosaving) (hw : Answerless w) :
    Follows (Reaches h) (do finishStep h; clearPendingStep; transitionTo dst reason) w
      (fun _ w' => Running w') RunFails := by
  refine .bind (stays_spec emit_stays) ?_
  rintro _ w₁ - ⟨hd₁, -⟩
  refine .bind (clearPendingStep_answerless (hd₁.answerless hw)) ?_
  intro _ w₂ _ hw₂
  exact finish_spec hd hw₂

theorem stopTruncated_spec (hw : Answerless w) :
    Follows (Reaches h) (stopTruncated h) w (fun _ w' => Running w') RunFails := by
  unfold stopTruncated
  refine .bind (stays_spec (say_stays .system false (by decide)
    hw.quiet)) ?_
  rintro _ w₁ - ⟨hd₁, -⟩
  refine .bind (stays_spec emit_stays) ?_
  rintro _ w₂ - ⟨hd₂, -⟩
  exact finishStep_spec (.inr (.inl rfl)) (hd₂.answerless (hd₁.answerless hw))

theorem appendPlaceholder_stays (due : Bool) (hw : Answerless w) :
    Follows (Stays h) (appendPlaceholder due) w (fun _ _ => True)
      (fun e _ => e.isAwaited = true) := by
  unfold appendPlaceholder
  split
  · exact say_stays .assistant true (by decide) hw.quiet
  · exact .pure trivial

/-- A retry goes on through AUTOSAVING behind a nudge. -/
theorem nudge_spec (due : Bool) (text : String) (hw : Answerless w) :
    Follows (Reaches h) (do
      appendPlaceholder due
      append (.ofText .user text)
      transitionTo .autosaving) w (fun _ w' => Running w') RunFails := by
  refine .bind (stays_spec (appendPlaceholder_stays due hw)) ?_
  rintro _ w₁ - ⟨hd₁, -⟩
  have hw₁ := hd₁.answerless hw
  refine .bind (stays_spec (say_stays .user false (by decide)
    hw₁.quiet)) ?_
  rintro _ w₂ - ⟨hd₂, -⟩
  exact finish_spec (.inr (.inr rfl)) (hd₂.answerless hw₁)

theorem routeAnswer_spec (hw : Answerless w) :
    Follows (Reaches h) (routeAnswer h r) w (fun _ w' => Running w') RunFails := by
  unfold routeAnswer
  refine .readThen ?_
  split
  · split
    · refine .bind (.change (Q := fun _ w' => Answerless w') (.same rfl) hw) ?_
      exact fun _ _ _ hw₁ => nudge_spec _ _ hw₁
    · exact finishStep_spec (.inr (.inl rfl)) hw
  split
  · refine .bind (.change (Q := fun _ w' => Answerless w') (.same rfl) hw) ?_
    exact fun _ _ _ hw₁ => .readThen (nudge_spec _ _ hw₁)
  · exact finishStep_spec (.inl rfl) hw

/-- **A response is routed** to its tools or ends its step. -/
theorem handlePendingResponse_spec (hp : w.machine.phase = .handlingResponse)
    (hr : w.machine.response = some r) (ht : w.machine.Tidy) :
    Follows (Reaches h) (handlePendingResponse h) w (fun _ w' => Running w') RunFails := by
  unfold handlePendingResponse
  refine .readThen ?_
  split
  · rename_i hnone
    exact absurd (hnone.symm.trans hr) (by simp)
  rename_i response hresp
  obtain rfl : response = r := Option.some.inj (hresp.symm.trans hr)
  refine .bind (stays_spec (announce_stays _)) ?_
  rintro _ w₁ - ⟨hd₁, -⟩
  have hp₁ := hd₁.2.1.trans hp
  have hr₁ := hd₁.2.2.trans hr
  have hempty : storedCalls response = [] → Answerless w₁ := fun hs => ⟨hp₁, fun r hm => by
    rw [hr₁] at hm
    exact Option.some.inj hm ▸ hs⟩
  split
  · rename_i htr
    exact stopTruncated_spec (hempty (if_pos htr))
  rename_i htr
  split
  · rename_i hcalls
    have hdst : SessionPhase.executingTools ∈ w₁.state.phase.transitions := by
      rw [show w₁.state.phase = .handlingResponse from hp₁]
      decide
    have hstored : storedCalls response ≠ [] := by
      rw [storedCalls, if_neg htr]
      simpa using hcalls
    refine (transitionTo_spec hdst (.route hp₁ response hr₁ hstored)).mono ?_ fun _ _ _ he => he
    rintro _ w₂ - ⟨hm, -⟩
    refine ⟨⟨fun hc => ?_, fun _ => ⟨response, ?_⟩, fun _ => ?_⟩, fun hi => ?_⟩
    · rw [hm] at hc
      contradiction
    · rw [hm]
      exact hr₁
    · rw [hm]
      exact (hd₁.1.tidy ht).unrowed (by simp [hp₁])
    · rw [hm] at hi
      contradiction
  · rename_i hcalls
    refine routeAnswer_spec (hempty ?_)
    rw [storedCalls, if_neg htr]
    simpa using hcalls

/-! ### AUTOSAVING -/

theorem ensureToolEnvironmentActive_spec :
    Follows (Reaches h) ensureToolEnvironmentActive w (fun _ w' => w' = w) RunFails :=
  .readThen (.raiseIf (fun _ => ⟨rfl, nofun⟩) fun _ => rfl)

/-- The end of AUTOSAVING. -/
theorem saved_spec {dst : SessionPhase} {reason : Option String}
    (hd : dst = .precheck ∨ dst = .done) (hp : w.machine.phase = .autosaving) :
    Follows (Reaches h) (transitionTo dst reason) w (fun _ w' => Running w') RunFails := by
  have hdst : dst ∈ w.state.phase.transitions := by
    rw [show w.state.phase = .autosaving from hp]
    obtain rfl | rfl := hd <;> decide
  refine (transitionTo_spec hdst (.saved hp dst hd)).mono ?_ fun _ _ _ he => he
  rintro _ w' - ⟨hm, -⟩
  have hp' : w'.machine.phase = dst := by rw [hm]; rfl
  obtain rfl | rfl := hd <;> exact .of_phase hp' (by decide)

theorem quiet_of_autosaving (hp : w.machine.phase = .autosaving) : w.machine.Quiet :=
  .inr (.inr (.inl hp))

theorem autosaveStep_spec (hp : w.machine.phase = .autosaving) :
    Follows (Reaches h) (autosaveStep h) w (fun _ w' => Running w') RunFails := by
  unfold autosaveStep
  refine .bind (stays_spec emit_stays) ?_
  rintro _ w₁ - ⟨hd₁, -⟩
  have hp₁ := hd₁.2.1.trans hp
  refine .bind (clearPendingStep_spec (quiet_of_autosaving hp₁)) ?_
  rintro _ w₂ - ⟨hp₂, -⟩
  refine .bind ensureToolEnvironmentActive_spec ?_
  rintro _ w₂ - rfl
  exact saved_spec (.inl rfl) (hp₂.trans hp₁)

theorem autosaveSubmission_spec (summary : String) (hp : w.machine.phase = .autosaving) :
    Follows (Reaches h) (autosaveSubmission h summary) w (fun _ w' => Running w') RunFails := by
  unfold autosaveSubmission
  refine .readThen (.bind (stays_spec (say_stays .assistant false
    (by decide) (quiet_of_autosaving hp))) ?_)
  rintro _ w₁ - ⟨hd₁, -⟩
  refine .bind (stays_spec (announce_stays _)) ?_
  rintro _ w₂ - ⟨hd₂, -⟩
  refine .bind (stays_spec emit_stays) ?_
  rintro _ w₃ - ⟨hd₃, -⟩
  have hp₃ := (hd₃.2.1.trans (hd₂.2.1.trans hd₁.2.1)).trans hp
  refine .bind (clearPendingStep_spec (quiet_of_autosaving hp₃)) ?_
  rintro _ w₄ - ⟨hp₄, -⟩
  refine .bind ensureToolEnvironmentActive_spec ?_
  rintro _ w₄ - rfl
  refine .bind (.change (Q := fun _ w' => w'.machine.phase = .autosaving) (.same rfl)
    (hp₄.trans hp₃)) ?_
  exact fun _ _ _ hp₅ => saved_spec (.inr rfl) hp₅

theorem autosavePendingStep_spec (hp : w.machine.phase = .autosaving) :
    Follows (Reaches h) (autosavePendingStep h) w (fun _ w' => Running w') RunFails := by
  unfold autosavePendingStep
  refine .readThen ?_
  split
  · exact autosaveStep_spec hp
  · exact autosaveSubmission_spec _ hp

/-! ## the loop -/

/-- **One advance** leaves the session between two phases again. -/
theorem advance_spec (hr : Running w) (ht : w.machine.Tidy)
    (hs : w.machine.phase.suspends = false) :
    Follows (Reaches h) (advance h) w (fun _ w' => Running w') RunFails := by
  unfold advance
  refine .readThen ?_
  have hphase : ∀ {p : SessionPhase}, w.state.phase = p → w.machine.phase = p := fun hp => hp
  split
  · rename_i hp
    have hdst : SessionPhase.precheck ∈ w.state.phase.transitions := by rw [hp]; decide
    refine (transitionTo_spec hdst (.begin hp (hr.idle hp).1 (hr.idle hp).2)).mono ?_ fun _ _ _ he => he
    rintro _ w' - ⟨hm, -⟩
    exact .of_phase (p := .precheck) (by rw [hm]; rfl) (by decide)
  · rename_i hp
    exact (precheck_spec hp).mono (fun _ _ _ hq => .of_precheckEnds hq) (fun _ _ _ he => he)
  · rename_i hp
    exact runLlmCall_spec hp (hr.calling hp) (ht.calm (.inr ⟨hp, hr.calling hp⟩))
  · rename_i hp
    obtain ⟨r, hresp⟩ := hr.response (.inl hp)
    exact handlePendingResponse_spec hp hresp ht
  · rename_i hp
    obtain ⟨r, hresp⟩ := hr.response (.inr hp)
    refine (executePendingTools_spec ⟨hp, hresp⟩ (hr.batch hp)).mono ?_ ?_
    · rintro _ w' - (hp' | hp') <;> exact .of_phase hp' (by decide)
    · intro e w' _ he
      exact ⟨(ofTools_legal he).1, fun hc => absurd hc (ofTools_legal he).2⟩
  · rename_i hp
    exact autosavePendingStep_spec hp
  all_goals
    rename_i hp
    rw [hphase hp] at hs
    contradiction

/-- The loop ends where the session suspends, or by an exception. -/
theorem drive_spec (fuel : Nat) (hr : Running w) (ht : w.machine.Tidy) :
    Follows (Reaches h) (drive h fuel) w (fun _ w' => w'.machine.phase.suspends = true)
      RunFails := by
  induction fuel generalizing w with
  | zero => exact .raise ⟨rfl, nofun⟩
  | succ fuel ih =>
      unfold drive
      refine .readThen ?_
      split
      · rename_i hs
        exact .pure hs
      · rename_i hs
        exact .bind (advance_spec hr ht (Bool.eq_false_iff.mpr hs))
          fun _ _ hreach hr' => ih hr' (hreach.tidy ht)

/-! ## the turn -/

/-- Rows are only left where they are waited for, and no call is left behind. -/
structure Settled (w : World) : Prop where
  rows : w.machine.phase = .idle ∨ w.machine.phase.isTerminal = true →
    w.machine.table.isEmpty = true
  calm : w.machine.draining = []

/-- A terminal session goes back to IDLE, any other stays as it is. -/
theorem resumeToIdle_spec {E : Exn → World → Prop} (hr : Running w) (hs : Settled w) :
    Follows (Reaches h) (modifyState (·.resumeToIdle)) w
      (fun _ w' => Running w' ∧ Settled w') E := by
  by_cases ht : w.machine.phase.isTerminal = true
  · have hres : (w.setState (·.resumeToIdle)).machine = { w.machine with phase := .idle } := by
      have hif : w.state.resumeToIdle = { w.state with phase := .idle, terminalReason := none } :=
        if_pos ht
      show World.machine { w with state := w.state.resumeToIdle } = _
      rw [hif]
      rfl
    have hs' : Settled (w.setState (·.resumeToIdle)) := by
      refine ⟨fun _ => ?_, ?_⟩ <;> rw [hres]
      · exact hs.rows (.inr ht)
      · exact hs.calm
    refine .change (.step (hres ▸ .restart ht (hs.rows (.inr ht)))) ⟨⟨?_, fun hi => ?_⟩, hs'⟩
    · exact .of_phase (p := .idle) (by rw [hres]) (by decide)
    · exact ⟨hs'.rows (.inl hi), hs'.calm⟩
  · have hres : w.setState (·.resumeToIdle) = w := by
      have hif : w.state.resumeToIdle = w.state := if_neg ht
      show { w with state := w.state.resumeToIdle } = w
      rw [hif]
    exact .change (.same (by rw [hres])) (by rw [hres]; exact ⟨hr, hs⟩)

theorem wakeIfPending_spec {E : Exn → World → Prop} (hr : Entering w)
    (hd : w.machine.draining = []) :
    Follows (Reaches h) wakeIfPending w (fun _ w' => Running w' ∧ Settled w') E := by
  unfold wakeIfPending
  refine .readThen ?_
  split
  · rename_i hc
    simp only [Bool.and_eq_true, Bool.not_eq_true', Bool.or_eq_true, decide_eq_true_eq] at hc
    have hm : (w.setState fun s => { s.resumeToIdle with phase := .awaitingEvents }).machine =
        { w.machine with phase := .awaitingEvents } := by
      simp only [World.setState, SessionState.resumeToIdle_eq]
      rfl
    refine .change (.step (hm ▸ .wake hc.2 hc.1)) ⟨?_, ?_⟩
    · exact .of_phase (p := .awaitingEvents) (by rw [hm]) (by decide)
    · refine ⟨fun hp => ?_, by rw [hm]; exact hd⟩
      rw [hm] at hp
      simp [SessionPhase.isTerminal] at hp
  · rename_i hc
    have hs : Settled w := by
      refine ⟨fun hp => ?_, hd⟩
      simp only [Bool.and_eq_true, Bool.not_eq_true', Bool.or_eq_true, decide_eq_true_eq,
        not_and] at hc
      by_contra ht
      exact hc (Bool.eq_false_iff.mpr ht) hp
    exact .pure ⟨⟨hr, fun hp => ⟨hs.rows (.inl hp), hs.calm⟩⟩, hs⟩

theorem reopenForQueuedTurn_spec {E : Exn → World → Prop} (hr : Running w) (hs : Settled w) :
    Follows (Reaches h) reopenForQueuedTurn w (fun _ w' => Running w' ∧ Settled w') E := by
  unfold reopenForQueuedTurn
  refine .readThen ?_
  split
  · exact resumeToIdle_spec hr hs
  · exact .pure ⟨hr, hs⟩

/-- The machine's view of a queued turn that begins. -/
theorem machine_consume (w : World) :
    (w.setState (·.consumeQueuedExternalUserTurn)).machine = w.machine.deliverQueued := by
  unfold World.setState SessionState.consumeQueuedExternalUserTurn Machine.deliverQueued
  cases hq : w.state.pendingExternalUserTurn with
  | none => simp [World.machine, hq]
  | some q =>
      simp only [World.machine, hq]
      split <;> rfl

theorem beginQueuedTurn_spec {E : Exn → World → Prop} (hr : Running w) (hs : Settled w) :
    Follows (Reaches h) beginQueuedTurn w (fun _ w' => Running w' ∧ Settled w') E := by
  unfold beginQueuedTurn
  refine .readThen ?_
  split
  · rename_i hp
    have hp : w.machine.phase = .idle := hp
    have hm := machine_consume w
    obtain ⟨hphase, htable, hdrain⟩ := w.machine.deliverQueued_eq
    have hs' : Settled (w.setState (·.consumeQueuedExternalUserTurn)) := by
      refine ⟨fun _ => ?_, ?_⟩ <;> rw [hm]
      · exact htable ▸ hs.rows (.inl hp)
      · exact hdrain ▸ hs.calm
    refine .change (.step (hm ▸ .deliver hp (hs.rows (.inl hp)))) ⟨⟨?_, fun hi => ?_⟩, hs'⟩
    · exact .of_phase (p := .idle) (by rw [hm, hphase, hp]) (by decide)
    · exact ⟨hs'.rows (.inl hi), hs'.calm⟩
  · exact .pure ⟨hr, hs⟩

/-- The machine's view of a drained table. -/
theorem machine_drained (w : World) :
    (drained w).machine = w.machine.drainTable.deliverQueued := by
  unfold drained Machine.deliverQueued
  cases hq : w.state.pendingExternalUserTurn with
  | none => simp [World.machine, World.setState, Machine.drainTable, hq]
  | some q =>
      simp only [World.machine, World.setState, Machine.drainTable, hq,
        SessionState.consumeQueuedExternalUserTurn, SessionState.startActiveTurn]
      split <;> rfl

theorem resumeFromAwaiting_spec (hr : Running w) (hp : w.machine.phase = .awaitingEvents)
    (hd : w.machine.draining = []) :
    Follows (Reaches h) resumeFromAwaiting w (fun _ w' => Running w') RunFails := by
  unfold resumeFromAwaiting
  refine .readThen ?_
  split
  · rename_i hc
    have hm := machine_drained w
    have hphase : (drained w).machine.phase = .awaitingEvents := by
      rw [hm, (Machine.deliverQueued_eq _).1]
      exact hp
    have hdst : SessionPhase.autosaving ∈ (drained w).state.phase.transitions := by
      rw [show (drained w).state.phase = .awaitingEvents from hphase]
      decide
    obtain ⟨w', hrun, hm', -⟩ := transitionTo_run none hdst
    refine .run ((run_bind (run_change _)).trans hrun) (.step ?_) ?_
    · rw [hm', hm]
      exact .resume hp hc hd
    · exact .of_phase (p := .autosaving) (by rw [hm']; rfl) (by decide)
  · exact .pure hr

theorem Running.of_machine {w' : World} (hm : w'.machine = w.machine) (hr : Running w) :
    Running w' := by
  refine ⟨⟨?_, ?_, ?_⟩, ?_⟩ <;> rw [hm]
  · exact hr.calling
  · exact hr.response
  · exact hr.batch
  · exact hr.idle

theorem Settled.of_machine {w' : World} (hm : w'.machine = w.machine) (hs : Settled w) :
    Settled w' := by
  refine ⟨?_, ?_⟩ <;> rw [hm]
  · exact hs.rows
  · exact hs.calm

theorem enterTurn_spec (hr : Running w) (hs : Settled w) :
    Follows (Reaches h) enterTurn w (fun _ w' => Running w') RunFails := by
  unfold enterTurn
  refine .readThen ?_
  split
  · rename_i hp
    refine .bind (.change (Q := fun _ w' => Running w' ∧ w'.machine.phase = .awaitingEvents ∧
      w'.machine.draining = []) (.same rfl) ⟨.of_machine (w := w) rfl hr, hp, hs.calm⟩) ?_
    exact fun _ _ _ hq => resumeFromAwaiting_spec hq.1 hq.2.1 hq.2.2
  · exact .change (.same rfl) (.of_machine (w := w) rfl hr)
  · refine .bind (Q := fun _ w' => w'.machine = w.machine) ?_ ?_
    · refine .readThen (.bind (.change (Q := fun _ w' => w'.machine = w.machine) (.same rfl) rfl) ?_)
      exact fun _ _ _ hm => .change (.same rfl) hm
    intro _ w₁ _ hm₁
    refine .bind (resumeToIdle_spec (hr.of_machine hm₁) (hs.of_machine hm₁)) ?_
    rintro _ w₂ - ⟨hr₂, -⟩
    refine .bind (.change (Q := fun _ w' => w'.machine = w₂.machine) (.same rfl) rfl) ?_
    intro _ w₃ _ hm₃
    exact .change (.same rfl) (hr₂.of_machine hm₃)

theorem prepareTurn_spec (hr : Entering w) (hd : w.machine.draining = []) :
    Follows (Reaches h) prepareTurn w (fun _ w' => Running w') RunFails := by
  unfold prepareTurn
  refine .bind (wakeIfPending_spec hr hd) ?_
  rintro _ w₁ - ⟨hr₁, hs₁⟩
  refine .bind (reopenForQueuedTurn_spec hr₁ hs₁) ?_
  rintro _ w₂ - ⟨hr₂, hs₂⟩
  refine .bind (beginQueuedTurn_spec hr₂ hs₂) ?_
  rintro _ w₃ - ⟨hr₃, hs₃⟩
  exact enterTurn_spec hr₃ hs₃

/-- **The turn of a run** follows the protocol until the session suspends. -/
theorem driveTurn_spec (fuel : Nat) (hr : Entering w) (hd : w.machine.draining = [])
    (ht : w.machine.Unrowed) :
    Follows (Reaches h) (driveTurn h fuel) w (fun _ w' => w'.machine.phase.suspends = true)
      RunFails := by
  unfold driveTurn
  refine .bind (prepareTurn_spec hr hd) ?_
  intro _ w₁ hreach hr₁
  exact drive_spec fuel hr₁ (hreach.tidy ⟨fun _ => hd, ht⟩)

end Session

end OpenCollab
