import OpenCollab.Session.Run

/-!
# OpenCollab.Session.Facade

The session object around the driver: `runLoop` closes the tool exchange a run
left open when it raised, `addUserMessage` accepts a user turn between runs,
and the provider calls a run left behind are accounted when they end.

`runLoop_spec`: however a run ends, the session is left in a resting phase, and
no run-loop edge was illegal.
-/

namespace OpenCollab

open Lib

/-! ## user turns -/

/-- The fields of `_UserTurnCheckpoint`. -/
structure UserTurnCheckpoint where
  messageCount : Nat
  phase : SessionPhase
  terminalReason : Option String
  pendingExternalUserTurn : Option QueuedTurn
  submittedSummary : Option String
  turn : TurnEnforcementState
  windDownDone : Bool
  windDownAttempts : Nat
  windDownTokenMark : Nat
deriving DecidableEq, Inhabited

namespace SessionState

/-- `checkpoint_user_turn()`. -/
def checkpointUserTurn (s : SessionState) : UserTurnCheckpoint where
  messageCount := s.messages.length
  phase := s.phase
  terminalReason := s.terminalReason
  pendingExternalUserTurn := s.pendingExternalUserTurn
  submittedSummary := s.submittedSummary
  turn := s.turn
  windDownDone := s.windDownDone
  windDownAttempts := s.windDownAttempts
  windDownTokenMark := s.windDownTokenMark

/-- `restore_user_turn(checkpoint)`. -/
def restoreUserTurn (s : SessionState) (checkpoint : UserTurnCheckpoint) : SessionState :=
  { s with
    messages := s.messages.take checkpoint.messageCount
    phase := checkpoint.phase
    terminalReason := checkpoint.terminalReason
    pendingExternalUserTurn := checkpoint.pendingExternalUserTurn
    submittedSummary := checkpoint.submittedSummary
    turn := checkpoint.turn
    windDownDone := checkpoint.windDownDone
    windDownAttempts := checkpoint.windDownAttempts
    windDownTokenMark := checkpoint.windDownTokenMark }

end SessionState

/-- `reset_runtime_for_user_turn()`: the agent gets back what the previous turn
took from it. -/
def Runner.resetForUserTurn (h : Host) (r : Runner) : Runner :=
  { r with
    tools := h.initialTools
    toolChoice := h.initialToolChoice
    toolAllowlist := none
    toolGateLabel := none
    requiredToolRetried := false }

namespace World

/-- `_completed_tool_results()`: the results of the current step that the
history may not have yet. -/
def completedToolResults (w : World) : Receipts :=
  if w.runner.receiptStep = some w.state.stepCount ∧ w.state.phase ≠ .autosaving ∧
      w.state.phase ≠ .awaitingEvents then
    w.runner.receiptPrefix ++ w.runner.receiptResults
  else []

/-- The open calls of the history are closed; the ids that have a row keep it. -/
def closeExchange (content : String) (w : World) : Transcript × Option String :=
  closeOpenCalls content (some w.state.pendingEvents.ids) w.completedToolResults w.state.transcript

/-- `_record_late_provider_result(task, protected_call=…)` of the `i`-th call left
behind: charged when it ended with a usable usage. -/
def recordLateProviderResult (h : Host) (i : Nat) (usage : Option Usage) (w : World) : World :=
  match w.runner.draining[i]? with
  | none => w
  | some isProtected =>
      let w := w.setRunner fun r => { r with draining := r.draining.eraseIdx i }
      match usage.bind normalizeCompletionUsage with
      | some (_, total) => w.chargeUsage h isProtected total
      | none => w.log (.callEnded isProtected w.state.usedTokens w.runner.maxBudgetTokens)

end World

namespace Facade

open Effect Session

/-- `SessionBusyError`. -/
def busy : Exn := .plain "session already has an active turn"

def cancellationNotice : String :=
  "Tool execution interrupted by session cancellation. The execution outcome is unknown."

def failureNotice : String :=
  "Tool execution interrupted because the session failed before its result was recorded."

/-- `_append_restore_results_for_open_tool_calls` on the live state. -/
def closeExchange (content : String) : Session (Option String) := do
  let w ← read
  modifyState (·.withTranscript (w.closeExchange content).1)
  return (w.closeExchange content).2

/-- The `except` clauses of `run_loop`, and what its `finally` awaits. -/
def settleRun (h : Host) : Exn → Session Json
  | .crash => raise .crash
  | .cancelled => do
      modifyState fun s => if s.phase.isTerminal then s else s.cancel
      let failed ← closeExchange cancellationNotice
      let _ ← settle h
      raise (failed.elim .cancelled .pendingRowError)
  | e => do
      let _ ← closeExchange failureNotice
      let _ ← settle h
      raise e

/-- `Session.run_loop(cancel_event)`. -/
def runLoop (h : Host) (fuel : Nat) : Session Json := do
  let w ← read
  raiseIf (!w.runner.draining.isEmpty) busy
  let answer ← handle (Session.runLoop h fuel) (settleRun h)
  let _ ← await h
  return answer

/-- `add_user_message(content)`. -/
def addUserMessage (h : Host) (turnId content : String) : Session Unit := do
  let w ← read
  raiseIf (!w.runner.draining.isEmpty || w.state.pendingExternalUserTurn.isSome ||
    !(w.state.phase = .idle || w.state.phase.isTerminal)) busy
  modifyState fun s =>
    (s.appendQueuedExternalUserTurn turnId content (!s.pendingEvents.isEmpty)).resetForUserTurn
  modifyRunner (·.resetForUserTurn h)
  emit h

/-- `_append_user_turn_txn`: a user turn that is not accepted is rolled back. -/
def appendUserTurn (h : Host) (turnId content : String) : Session Unit := do
  let w ← read
  handle (addUserMessage h turnId content) fun
    | .crash => raise .crash
    | e => do
        modifyState (·.restoreUserTurn w.state.checkpointUserTurn)
        raise e

/-! ## specifications -/

variable {h : Host} {w : World}

/-- The way a run of the session ends by an exception. -/
def RunEnds (e : Exn) (w : World) : Prop :=
  e.isPhaseError = false ∧ (e ≠ .crash → w.machine.phase.Rests)

theorem machine_withTranscript (w : World) (content : String) :
    (w.setState (·.withTranscript (w.closeExchange content).1)).machine =
      w.machine.close content (some w.machine.table.ids) w.completedToolResults := rfl

/-- Closing the exchange of a world whose phase was settled. -/
theorem closed_spec {w₀ : World} {m : Machine} {phase : SessionPhase} (content : String)
    (hreach : Relation.ReflTransGen (Step h) w₀.machine m) (hm : w.machine = { m with phase })
    (hp : phase = .stopped ∨ phase = .error ∨ phase = m.phase ∧ m.phase.Rests)
    (k : Option String → Exn) (hk : ∀ failed, (k failed).isPhaseError = false) :
    Meets (do
      let failed ← closeExchange content
      let _ ← settle h
      raise (k failed) : Session Json) w (fun _ _ => False)
      (fun e w' => Reaches h w₀ w' ∧ RunEnds e w') := by
  let w₁ := w.setState (·.withTranscript (w.closeExchange content).1)
  let a := h.answers w₁.clock
  let w₂ := w₁.tick.ambient a
  have hclose : (closeExchange content).run w = (.ok (w.closeExchange content).2, w₁) := rfl
  have hsettle : (settle h).run w₁ = (.ok a, w₂) := rfl
  have habort : Step h m w₁.machine := by
    have hstep := Step.abort (h := h) phase hp content w.completedToolResults
    rw [machine_withTranscript, hm]
    exact hstep
  have hfills : Step h w₁.machine w₂.machine := .fills a.fills
  have hphase : w₂.machine.phase = phase := by
    show (w.setState (·.withTranscript (w.closeExchange content).1)).machine.phase = phase
    rw [machine_withTranscript, hm]
    rfl
  unfold Meets
  rw [run_bind hclose, run_bind hsettle]
  refine ⟨(hreach.tail habort).tail hfills, hk _, fun _ => ?_⟩
  rw [hphase]
  obtain rfl | rfl | ⟨rfl, hrests⟩ := hp
  · decide
  · decide
  · exact hrests

theorem rests_of_suspends {phase : SessionPhase} (hs : phase.suspends = true) : phase.Rests := by
  revert hs
  cases phase <;> decide

/-- A cancelled run is terminal. -/
theorem settleRun_cancelled_spec {w₀ : World} (hreach : Reaches h w₀ w) :
    Meets (settleRun h .cancelled) w (fun _ _ => False)
      (fun e w' => Reaches h w₀ w' ∧ RunEnds e w') := by
  have hk : ∀ failed : Option String, (failed.elim Exn.cancelled Exn.pendingRowError).isPhaseError
      = false := fun failed => by cases failed <;> rfl
  unfold settleRun
  refine meets_bind.mpr ?_
  by_cases ht : w.state.phase.isTerminal = true
  · have hm : (w.setState fun s => if s.phase.isTerminal then s else s.cancel).machine =
        w.machine := by
      rw [World.setState, if_pos ht]
    have hrests : w.machine.phase.Rests :=
      rests_of_suspends (by rw [SessionPhase.suspends, show w.machine.phase = w.state.phase from rfl,
        ht, Bool.true_or])
    exact closed_spec cancellationNotice hreach hm (.inr (.inr ⟨rfl, hrests⟩)) _ hk
  · have hm : (w.setState fun s => if s.phase.isTerminal then s else s.cancel).machine =
        { w.machine with phase := .stopped } := by
      rw [World.setState, if_neg ht]
      rfl
    exact closed_spec cancellationNotice hreach hm (.inl rfl) _ hk

/-- Any other failure closes the exchange of the phase it settled. -/
theorem settleRun_error_spec {w₀ : World} {m : Machine} {phase : SessionPhase} {e : Exn}
    (hreach : Relation.ReflTransGen (Step h) w₀.machine m) (hm : w.machine = { m with phase })
    (hp : phase = .error ∨ phase = m.phase ∧ m.phase.Rests) (hl : e.isPhaseError = false)
    (hcrash : e ≠ .crash) (hcancel : e ≠ .cancelled) :
    Meets (settleRun h e) w (fun _ _ => False)
      (fun e w' => Reaches h w₀ w' ∧ RunEnds e w') := by
  have heq : settleRun h e = (do
      let _ ← closeExchange failureNotice
      let _ ← settle h
      raise e) := by
    cases e <;> first | contradiction | rfl
  rw [heq]
  exact closed_spec failureNotice hreach hm (.inr hp) (fun _ => e) fun _ => hl

theorem settleRun_crash_spec {w₀ : World} (hreach : Reaches h w₀ w) :
    Meets (settleRun h .crash) w (fun _ _ => False)
      (fun e w' => Reaches h w₀ w' ∧ RunEnds e w') :=
  ⟨hreach, rfl, fun hne => absurd rfl hne⟩

/-- An exception of an await, raised from a phase that rests. -/
theorem settleRun_awaited_spec {w₀ : World} {e : Exn} (hreach : Reaches h w₀ w)
    (he : e.isAwaited = true) (hp : w.machine.phase.Rests) :
    Meets (settleRun h e) w (fun _ _ => False)
      (fun e w' => Reaches h w₀ w' ∧ RunEnds e w') := by
  cases e with
  | crash => exact settleRun_crash_spec hreach
  | cancelled => exact settleRun_cancelled_spec hreach
  | failure f => exact settleRun_error_spec hreach rfl (.inr ⟨rfl, hp⟩) rfl nofun nofun
  | _ => contradiction

/-- The answer of a run is read without a move. -/
theorem finishRun_spec {w₀ : World} (hreach : Reaches h w₀ w)
    (hp : w.machine.phase.suspends = true) {E : Exn → World → Prop} :
    Meets finishRun w (fun _ w' => Reaches h w₀ w' ∧ w'.machine.phase.suspends = true) E := by
  unfold finishRun
  rw [meets_bind, meets_read]
  split
  · exact ⟨hreach, hp⟩
  · exact ⟨hreach, hp⟩

/-- The failures of the turn, settled by the driver and then by the session. -/
theorem settled_spec {w₀ : World} {e : Exn} (hreach : Reaches h w₀ w) (he : RunFails e w) :
    Meets (settleFailure h e) w
      (fun _ w' => Meets finishRun w'
        (fun _ w' => Reaches h w₀ w' ∧ w'.machine.phase.suspends = true)
        fun e w' => Meets (settleRun h e) w' (fun _ _ => False)
          (fun e w' => Reaches h w₀ w' ∧ RunEnds e w'))
      (fun e w' => Meets (settleRun h e) w' (fun _ _ => False)
        (fun e w' => Reaches h w₀ w' ∧ RunEnds e w')) := by
  have hfail : ∀ e : Exn, e.isPhaseError = false → e ≠ .crash → e ≠ .cancelled →
      Meets (do modifyState (·.fail e.describe); raise e : Session Unit) w
        (fun _ _ => False) (fun e w' => Meets (settleRun h e) w' (fun _ _ => False)
          (fun e w' => Reaches h w₀ w' ∧ RunEnds e w')) := by
    intro e hl hcrash hcancel
    refine meets_bind.mpr ?_
    exact settleRun_error_spec (m := w.machine) hreach rfl (.inl rfl) hl hcrash hcancel
  cases e with
  | crash => exact settleRun_crash_spec hreach
  | cancelled => exact settleRun_cancelled_spec hreach
  | runCancelled =>
      have hp := he.phase rfl
      refine Meets.mono (stopPrecheck_spec _ _ hp) ?_ ?_
      · rintro _ w' ⟨hr, hq⟩
        exact finishRun_spec (trans_of (Reaches h) hreach hr) (by rw [hq]; rfl)
      · rintro e w' ⟨hr, ha, hq⟩
        refine settleRun_awaited_spec (trans_of (Reaches h) hreach hr) ha ?_
        rw [hq]
        obtain hp | hp := hp <;> rw [hp] <;> decide
  | _ => exact Meets.mono (hfail _ he.legal nofun nofun) (fun _ _ hf => hf.elim) fun _ _ hm => hm

/-- The run begins. -/
def started (w : World) : World := w.log (.runStarted w.state.phase)

/-- An entry phase that rests asks for an admission at most. -/
theorem entering_of_rests (hr : w.machine.phase.Rests) :
    Entering (started w) := by
  have hn : ∀ {p : SessionPhase}, ¬ p.Rests → w.machine.phase ≠ p := fun hp he => hp (he ▸ hr)
  refine ⟨fun hp => decide_eq_true hp, fun hp => ?_, fun hp => ?_⟩
  · exact (hp.elim (hn (by decide)) (hn (by decide))).elim
  · exact (hn (by decide) hp).elim

/-- The driver's run, its failures settled by the session. -/
theorem settledRun_spec (fuel : Nat) (hr : w.machine.phase.Rests) (ht : w.machine.Unrowed)
    (hd : w.machine.draining = []) :
    Meets (handle (Session.runLoop h fuel) (settleRun h)) w
      (fun _ w' => Reaches h (started w) w' ∧ w'.machine.phase.suspends = true)
      (fun e w' => Reaches h (started w) w' ∧ RunEnds e w') := by
  have hbusy : (!w.runner.draining.isEmpty) = false := by
    rw [show w.runner.draining = [] from hd]
    rfl
  refine meets_handle.mpr ?_
  unfold Session.runLoop
  rw [meets_bind, meets_read, hbusy, meets_bind, raiseIf, if_neg Bool.false_ne_true, meets_pure,
    meets_bind]
  refine meets_bind.mpr (meets_handle.mpr ?_)
  refine Meets.mono (driveTurn_spec (w := started w) fuel (entering_of_rests hr) hd ht) ?_ ?_
  · rintro _ w₂ ⟨hreach, hs⟩
    exact finishRun_spec hreach hs
  · rintro e w₂ ⟨hreach, he⟩
    exact Meets.mono (settled_spec hreach he)
      (fun _ _ hm => hm.mono (fun _ _ hq => hq) fun _ _ hm => hm.mono (fun _ _ hf => hf.elim)
        fun _ _ hq => hq)
      (fun _ _ hm => hm.mono (fun _ _ hf => hf.elim) fun _ _ hq => hq)

/-- **A run of the session** is refused, or it follows the protocol; it takes no
illegal edge, and leaves a resting phase however it ends. -/
theorem runLoop_spec (fuel : Nat) (hr : w.machine.phase.Rests) (ht : w.machine.Unrowed) :
    Meets (runLoop h fuel) w
      (fun _ w' => w.machine.draining = [] ∧ Reaches h (started w) w' ∧
        w'.machine.phase.suspends = true)
      (fun e w' => RunEnds e w' ∧
        (w' = w ∨ w.machine.draining = [] ∧ Reaches h (started w) w')) := by
  unfold runLoop
  rw [meets_bind, meets_read, meets_bind, raiseIf]
  split
  · exact ⟨⟨rfl, fun _ => hr⟩, .inl rfl⟩
  rename_i hbusy
  have hd : w.runner.draining = [] := by simpa using hbusy
  rw [meets_pure, meets_bind]
  refine Meets.mono (settledRun_spec fuel hr ht hd) ?_ ?_
  · rintro answer w₁ ⟨hreach, hs⟩
    have hrests : w₁.machine.phase.Rests := rests_of_suspends hs
    refine meets_bind.mpr (Meets.mono await_spec ?_ ?_)
    · rintro _ w₂ ⟨hawait, _, _, hm⟩
      exact ⟨hd, trans_of (Reaches h) hreach hawait, by rw [hm]; exact hs⟩
    · rintro e w₂ ⟨hawait, ⟨_, _, hm⟩, he⟩
      exact ⟨⟨isPhaseError_of_awaited he, fun _ => by rw [hm]; exact hrests⟩,
        .inr ⟨hd, trans_of (Reaches h) hreach hawait⟩⟩
  · rintro e w₁ ⟨hreach, he⟩
    exact ⟨he, .inr ⟨hd, hreach⟩⟩

end Facade

end OpenCollab
