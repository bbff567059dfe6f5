import OpenCollab.Session.ToolBatch

/-!
# OpenCollab.Session.Precheck

The gate in front of every model call.  Each guard of `precheck` stops the
session with a visible message; with enforcement on, a brake enters the
wind-down instead, whose one protected submit turn and one compatibility retry
pass the step check by design.

`precheck_spec`: a precheck ends in STOPPED or in CALLING_LLM with an admission
of its own.
-/

namespace OpenCollab

open Lib

/-! ## texts -/

def windDownNudge : String :=
  "Exploration budget spent — all exploration tools (grep/file_read/bash) have now " ++
  "been removed; ONLY submit_findings is available. Your NEXT action MUST be " ++
  "submit_findings with the evidence you already have; do not call any other tool. " ++
  "Cite file:line / exact matched strings from your real tool results; mark each " ++
  "finding verified|unverified; if you lack evidence for a dimension, set " ++
  "insufficient_evidence — do NOT fabricate."

def windDownRetry : String :=
  "Only submit_findings is available. Call submit_findings now with the evidence you " ++
  "have; do not call any other tool. Cite file:line / exact matched strings; mark each " ++
  "finding verified|unverified; set insufficient_evidence if you lack evidence — do NOT " ++
  "fabricate."

/-- `str.capitalize()`, on the ASCII reasons of the driver. -/
def capitalize (s : String) : String :=
  match s.toList with
  | [] => ""
  | c :: cs => String.ofList (c.toUpper :: cs.map Char.toLower)

def teamBudgetReason : String := "team budget exceeded: aggregate spend reached the global cap"

/-! ## brakes -/

/-- `DEFAULT_LOOP_BLOCKED_LIMIT`. -/
def loopBlockedLimit : Nat := 3

/-- The watchdog or the low-yield brake tripped. -/
def brakeTripped (h : Host) (turn : TurnEnforcementState) : Bool :=
  !turn.lastProgressUnknown &&
    (h.watchdogK ≤ turn.stepsSinceProgress || h.lowYieldM ≤ turn.lowYieldSinceProgress)

/-- Only the submit tool is left, and calling it is forced, where the agent has
it. -/
def Runner.narrowTo (r : Runner) (name : String) : Runner :=
  if name ∈ r.tools then { r with tools := [name], toolChoice := submitToolChoice name } else r

theorem World.machine_narrowTo (w : World) (name : String) :
    (w.setRunner (·.narrowTo name)).machine = w.machine := by
  by_cases hn : name ∈ w.runner.tools <;>
    simp [World.machine, World.setRunner, Runner.narrowTo, hn]

namespace Session

open Effect

/-! ## stopping -/

/-- `_stop_precheck(reason, message=…)`. -/
def stopPrecheck (h : Host) (reason : String) (message : Option String := none) : Session Unit := do
  append (.ofText .system (message.getD ("[" ++ capitalize reason ++ ". Session stopped.]")))
  emit h
  transitionTo .stopped (some reason)

/-- `_stop_for_run_cancellation()`. -/
def stopForRunCancellation (h : Host) : Session Unit :=
  stopPrecheck h "interrupted by user" (some "[Session interrupted by user]")

/-! ## wind-down -/

/-- `_enter_wind_down()`. -/
def enterWindDown (h : Host) : Session Unit := do
  change fun w => (w.setState fun s => { s with
    windDownDone := true
    windDownAttempts := s.windDownAttempts + 1
    windDownTokenMark := s.usedTokens }).log (.windDown w.state.usedTokens w.runner.maxBudgetTokens)
  modifyRunner (·.narrowTo h.submitToolName)
  append (.ofText .system windDownNudge)

/-- The one compatibility retry. -/
def retryWindDown : Session Unit := do
  modifyState fun s => { s with windDownAttempts := s.windDownAttempts + 1 }
  append (.ofText .system windDownRetry)
  transitionTo .callingLlm

/-- `budget_spent`: the exploration budget is gone, after asking the host for
more when no other brake tripped. -/
def budgetSpent (h : Host) (tripped : Bool) : Session Bool := do
  let w ← read
  if reserveReached h w.runner.maxBudgetTokens w.state.usedTokens && !tripped then do
    decideRunBudget h
    let w ← read
    return reserveReached h w.runner.maxBudgetTokens w.state.usedTokens
  else return reserveReached h w.runner.maxBudgetTokens w.state.usedTokens

/-- The reserve is allocated before its observers hear of it. -/
def allocateReserve (h : Host) (spent : Bool) : Session Unit :=
  if spent then do
    modifyState fun s => { s with budgetReserveConsumed := true }
    emit h
  else pure ()

/-- The end of `_apply_enforcement_gate`, the brakes being known. -/
def tripWindDown (h : Host) (tripped spent : Bool) : Session Bool := do
  let w ← read
  if !(spent || tripped) || !w.state.pendingEvents.isEmpty then return false
  else if spent && w.state.budgetReserveConsumed then do
    stopPrecheck h "budget reserve exhausted: protected commit turn already used"
    return true
  else do
    allocateReserve h spent
    enterWindDown h
    transitionTo .callingLlm
    return true

/-- `_apply_enforcement_gate()`: whether a phase was selected. -/
def applyEnforcementGate (h : Host) : Session Bool := do
  let w ← read
  if !h.enforcementOn then return false
  else if w.state.windDownDone then
    if w.state.windDownAttempts < 2 then do
      retryWindDown
      return true
    else do
      stopPrecheck h "wind-down complete: forced commit within reserve"
      return true
  else do
    let tripped := brakeTripped h w.state.turn
    let spent ← budgetSpent h tripped
    tripWindDown h tripped spent

/-! ## precheck -/

/-- The step limit. -/
def checkSteps (h : Host) : Session Unit := do
  let w ← read
  if h.maxSteps.any fun (limit : Int) => limit ≤ w.state.stepCount then
    stopPrecheck h ("step limit reached: " ++ toString w.state.stepCount ++ " steps")
  else transitionTo .callingLlm

/-- The allowances, the enforcement gate and the step limit. -/
def checkLimits (h : Host) : Session Unit := do
  let w ← read
  if w.runner.maxBudgetTokens.any fun (budget : Nat) => budget ≤ w.state.usedTokens then
    stopPrecheck h ("budget exceeded: " ++ toString w.state.usedTokens ++ " tokens used")
  else do
    let exhausted ← teamBudgetExhausted h
    if exhausted then stopPrecheck h teamBudgetReason
    else do
      let chosen ← applyEnforcementGate h
      if chosen then return () else checkSteps h

/-- The host's decision at a precheck; `true` when it saw the cancel signal. -/
def cancelledWhileDeciding (h : Host) : Session Bool :=
  handle (do decideRunBudget h; return false) fun e =>
    if e = .runCancelled then return true else raise e

/-- `precheck(cancel_event)`. -/
def precheck (h : Host) : Session Unit := do
  ensureToolEnvironmentActive
  let w ← read
  if w.cancelRequested then stopForRunCancellation h
  else if w.environmentRevoked then stopPrecheck h "execution environment has been revoked"
  else if loopBlockedLimit ≤ w.state.turn.loopState.blockedRounds then
    stopPrecheck h ("loop block limit reached: " ++ toString w.state.turn.loopState.blockedRounds ++
      " unproductive tool batches")
  else do
    let cancelled ← cancelledWhileDeciding h
    if cancelled then stopForRunCancellation h else checkLimits h

/-! ## specifications -/

variable {h : Host} {w : World}

/-- A run that ends by an exception: the program's own edges are legal, and the
cancel signal is seen in the two phases that can stop. -/
structure RunFails (e : Exn) (w : World) : Prop where
  legal : e.isPhaseError = false
  phase : e = .runCancelled → w.machine.phase = .precheck ∨ w.machine.phase = .callingLlm

theorem RunFails.of_awaited {e : Exn} (he : e.isAwaited = true) : RunFails e w :=
  ⟨isPhaseError_of_awaited he, fun hc => by rw [hc] at he; contradiction⟩

theorem RunFails.of_phase {e : Exn} (he : e.isPhaseError = false)
    (hp : w.machine.phase = .precheck ∨ w.machine.phase = .callingLlm) : RunFails e w :=
  ⟨he, fun _ => hp⟩

theorem Waited.phase {w' : World} (hd : Waited w w') : w'.machine.phase = w.machine.phase := by
  obtain ⟨_, _, hm⟩ := hd
  rw [hm]

/-- Stopping is possible wherever a call can still be made. -/
theorem stopPrecheck_spec (reason : String) (message : Option String)
    (hp : w.machine.phase = .precheck ∨ w.machine.phase = .callingLlm) :
    Follows (Reaches h) (stopPrecheck h reason message) w
      (fun _ w' => w'.machine.phase = .stopped)
      (fun e w' => e.isAwaited = true ∧ w'.machine.phase = w.machine.phase) := by
  unfold stopPrecheck
  refine .bind (.change (Q := fun _ w' => w'.machine.phase = w.machine.phase) (.step ?_) rfl) ?_
  · exact .say .system _ false (by decide) (hp.imp_right .inl)
  intro _ w₁ _ hp₁
  refine .bind (emit_spec.mono (fun _ _ _ hd => (Waited.phase hd).trans hp₁)
    (fun _ _ _ he => ⟨he.2.1, (Waited.phase he.1).trans hp₁⟩)) ?_
  intro _ w₂ _ hp₂
  rw [← hp₂] at hp
  have hdst : SessionPhase.stopped ∈ w₂.state.phase.transitions := by
    obtain hp | hp := hp <;> rw [show w₂.state.phase = _ from hp] <;> decide
  exact (transitionTo_spec hdst (.stop hp)).mono (fun _ _ _ hm => by rw [hm.1]; rfl)
    (fun _ _ _ he => he)

/-- The phase a precheck ends in. -/
def PrecheckEnds (w : World) : Prop :=
  w.machine.phase = .stopped ∨ w.machine.phase = .callingLlm ∧ admitted w.machine.events = true

theorem PrecheckEnds.of_go {m : Machine} (hm : w.machine = m.go .callingLlm) : PrecheckEnds w := by
  refine .inr ?_
  rw [hm]
  exact ⟨rfl, rfl⟩

/-- A guard that stops the session. -/
theorem stopped_spec (reason : String) (message : Option String)
    (hp : w.machine.phase = .precheck) :
    Follows (Reaches h) (stopPrecheck h reason message) w (fun _ w' => PrecheckEnds w') RunFails :=
  (stopPrecheck_spec reason message (.inl hp)).mono (fun _ _ _ hq => .inl hq)
    (fun _ _ _ he => .of_awaited he.1)

/-! ### wind-down -/

theorem retryWindDown_spec (hp : w.machine.phase = .precheck) (he : h.enforcementOn = true)
    (hw : w.machine.windDownDone = true) (ha : w.machine.attempts < 2) :
    Follows (Reaches h) retryWindDown w (fun _ w' => PrecheckEnds w') RunFails := by
  let w₁ := w.setState fun s => { s with windDownAttempts := s.windDownAttempts + 1 }
  let w₂ := w₁.setState (·.appendMessage (.ofText .system windDownRetry))
  have hdst : SessionPhase.callingLlm ∈ w₂.state.phase.transitions := by
    rw [show w₂.state.phase = .precheck from hp]
    decide
  obtain ⟨w₃, hrun, hm, -⟩ := transitionTo_run none hdst
  refine .run ((run_bind (run_change _)).trans ((run_bind (run_change _)).trans hrun)) ?_
    (.of_go hm)
  refine .step ?_
  rw [hm]
  exact .retry hp he hw ha windDownRetry

/-- Entering the wind-down after the allocation, as one stretch of code. -/
theorem enterWindDown_run (hp : w.machine.phase = .precheck) :
    ∃ w', (do enterWindDown h; transitionTo .callingLlm; return true : Session Bool).run w =
        (.ok true, w') ∧
      w'.machine = ({ w.machine with
        windDownDone := true
        attempts := w.machine.attempts + 1
        events := .windDown w.machine.used w.machine.soft :: w.machine.events }.say
          (.ofText .system windDownNudge)).go .callingLlm := by
  let w₁ := (w.setState fun s => { s with
    windDownDone := true
    windDownAttempts := s.windDownAttempts + 1
    windDownTokenMark := s.usedTokens }).log (.windDown w.state.usedTokens w.runner.maxBudgetTokens)
  let w₂ := w₁.setRunner (·.narrowTo h.submitToolName)
  let w₃ := w₂.setState (·.appendMessage (.ofText .system windDownNudge))
  have hm₂ : w₂.machine = w₁.machine := w₁.machine_narrowTo h.submitToolName
  have hdst : SessionPhase.callingLlm ∈ w₃.state.phase.transitions := by
    rw [show w₃.state.phase = .precheck from hp]
    decide
  obtain ⟨w₄, hrun, hm, -⟩ := transitionTo_run none hdst
  have henter : (enterWindDown h).run w = (.ok (), w₃) := rfl
  refine ⟨w₄, (run_bind henter).trans (run_bind hrun), ?_⟩
  have hm₃ : w₃.machine = w₁.machine.say (.ofText .system windDownNudge) := by
    rw [← hm₂]
    rfl
  rw [hm, hm₃]
  rfl

theorem emit_run : ∃ fs : List Fill,
    (∃ w', (emit h).run w = (.ok (), w') ∧
      w'.machine = { w.machine with table := fs.foldl World.applyFill w.machine.table }) ∨
    (∃ e w', (emit h).run w = (.error e, w') ∧ e.isAwaited = true ∧
      w'.machine = { w.machine with table := fs.foldl World.applyFill w.machine.table }) := by
  let a := h.answers w.clock
  have hsettle : (settle h).run w = (.ok a, w.tick.ambient a) := rfl
  refine ⟨a.fills, ?_⟩
  rw [emit, run_bind hsettle]
  cases a.fault with
  | none => exact .inl ⟨_, rfl, rfl⟩
  | some fault => cases fault <;> exact .inr ⟨_, _, rfl, rfl, rfl⟩

/-- **The reserve is allocated once.** Entering the wind-down is one move; an
exception in between leaves the reserve spent. -/
theorem tripWindDown_spec {tripped spent : Bool} (hp : w.machine.phase = .precheck)
    (he : h.enforcementOn = true) (hw : w.machine.windDownDone = false)
    (hs : spent = reserveReached h w.machine.soft w.machine.used) :
    Follows (Reaches h) (tripWindDown h tripped spent) w
      (fun chosen w' => if chosen then PrecheckEnds w' else w'.machine = w.machine) RunFails := by
  unfold tripWindDown
  refine .readThen ?_
  split
  · exact .pure rfl
  rename_i hbrake
  split
  · refine .bind (stopped_spec _ _ hp) ?_
    exact fun _ _ _ hq => .pure hq
  rename_i hfree
  have ht : w.machine.table.isEmpty = true := by
    simp only [Bool.or_eq_true, not_or, Bool.not_eq_true, Bool.not_eq_false'] at hbrake
    exact hbrake.2
  have hc : reserveReached h w.machine.soft w.machine.used = true →
      w.machine.consumed = false := by
    intro hr
    rw [hs, hr, Bool.true_and, Bool.not_eq_true] at hfree
    exact hfree
  cases spent with
  | false =>
      obtain ⟨w', hrun, hm⟩ := enterWindDown_run (h := h) hp
      have hnone : (allocateReserve h false).run w = (.ok (), w) := rfl
      refine .run ((run_bind hnone).trans hrun) (.step ?_) (PrecheckEnds.of_go hm)
      rw [hm]
      have hstep := Step.enterWindDown hp he hw ht hc [] windDownNudge
      rwa [← hs, Bool.or_false] at hstep
  | true =>
      let w₁ := w.setState fun s => { s with budgetReserveConsumed := true }
      obtain ⟨fs, ⟨w₂, hemit, hm₂⟩ | ⟨e, w₂, hemit, hawait, hm₂⟩⟩ := emit_run (h := h) (w := w₁)
      · have halloc : (allocateReserve h true).run w = (.ok (), w₂) :=
          (run_bind (run_change _)).trans hemit
        have hp₂ : w₂.machine.phase = .precheck := by rw [hm₂]; exact hp
        obtain ⟨w', hrun, hm⟩ := enterWindDown_run (h := h) hp₂
        refine .run ((run_bind halloc).trans hrun) (.step ?_) (PrecheckEnds.of_go hm)
        rw [hm, hm₂]
        have hstep := Step.enterWindDown hp he hw ht hc fs windDownNudge
        rwa [← hs, Bool.or_true] at hstep
      · have halloc : (allocateReserve h true).run w = (.error e, w₂) :=
          (run_bind (run_change _)).trans hemit
        have hreserve : Reaches h w w₁ := .step .reserve
        have hfills : Reaches h w₁ w₂ := .step (hm₂ ▸ .fills fs)
        exact .runError (run_bind_error halloc) (hreserve.trans hfills) (.of_awaited hawait)

/-- Where the gate selects no phase, the step check decides. -/
def GateOpen (h : Host) (w : World) : Prop :=
  w.machine.phase = .precheck ∧ (h.enforcementOn && w.machine.windDownDone) = false

theorem Decided.eq {w' : World} (hd : Decided w w') :
    w'.machine.phase = w.machine.phase ∧ w'.machine.windDownDone = w.machine.windDownDone := by
  obtain ⟨_, _, _, hm⟩ := hd
  rw [hm]
  exact ⟨rfl, rfl⟩

theorem budgetSpent_spec (tripped : Bool) (hp : w.machine.phase = .precheck) :
    Follows (Reaches h) (budgetSpent h tripped) w
      (fun spent w' => Decided w w' ∧ spent = reserveReached h w'.machine.soft w'.machine.used)
      RunFails := by
  unfold budgetSpent
  refine .readThen ?_
  split
  · refine .bind (decideRunBudget_spec.mono (fun _ _ _ hd => hd) ?_) ?_
    · exact fun e w' _ he => .of_phase he.2 (.inl (he.1.eq.1.trans hp))
    · exact fun _ w₁ _ hd => .readThen (.pure ⟨hd, rfl⟩)
  · exact .pure ⟨⟨_, _, rfl, rfl⟩, rfl⟩

theorem applyEnforcementGate_spec (hp : w.machine.phase = .precheck) :
    Follows (Reaches h) (applyEnforcementGate h) w
      (fun chosen w' => if chosen then PrecheckEnds w' else GateOpen h w') RunFails := by
  unfold applyEnforcementGate
  refine .readThen ?_
  split
  · rename_i hoff
    refine .pure ⟨hp, ?_⟩
    rw [Bool.not_eq_true'] at hoff
    rw [hoff, Bool.false_and]
  rename_i hon
  have he : h.enforcementOn = true := by simpa using hon
  split
  · rename_i hw
    split
    · rename_i ha
      exact .bind (retryWindDown_spec hp he hw ha) fun _ _ _ hq => .pure hq
    · exact .bind (stopped_spec _ _ hp) fun _ _ _ hq => .pure hq
  · rename_i hw
    have hw : w.machine.windDownDone = false := Bool.eq_false_iff.mpr hw
    refine .bind (budgetSpent_spec _ hp) ?_
    rintro spent w₁ - ⟨hd, hs⟩
    have hp₁ := hd.eq.1.trans hp
    have hw₁ := hd.eq.2.trans hw
    refine (tripWindDown_spec hp₁ he hw₁ hs).mono ?_ fun _ _ _ hf => hf
    rintro (_ | _) w₂ - hq
    · rw [if_neg Bool.false_ne_true] at hq
      rw [if_neg Bool.false_ne_true, GateOpen, hq, hw₁, Bool.and_false]
      exact ⟨hp₁, rfl⟩
    · exact hq

/-! ### the precheck -/

theorem checkSteps_spec (hg : GateOpen h w) :
    Follows (Reaches h) (checkSteps h) w (fun _ w' => PrecheckEnds w') RunFails := by
  unfold checkSteps
  refine .readThen ?_
  split
  · exact stopped_spec _ _ hg.1
  · rename_i hlimit
    have hdst : SessionPhase.callingLlm ∈ w.state.phase.transitions := by
      rw [show w.state.phase = .precheck from hg.1]
      decide
    refine (transitionTo_spec hdst (.passCheck hg.1 hg.2 ?_)).mono (fun _ _ _ hq => .of_go hq.1)
      (fun _ _ _ he => he)
    intro n hn
    have hlt : (w.state.stepCount : Int) < n := by simpa [Option.mem_def.mp hn] using hlimit
    exact hlt

theorem checkLimits_spec (hp : w.machine.phase = .precheck) :
    Follows (Reaches h) (checkLimits h) w (fun _ w' => PrecheckEnds w') RunFails := by
  unfold checkLimits
  refine .readThen ?_
  split
  · exact stopped_spec _ _ hp
  refine .bind teamBudgetExhausted_spec.weaken ?_
  intro exhausted w₁ _ hm₁
  have hp₁ : w₁.machine.phase = .precheck := hm₁ ▸ hp
  split
  · exact stopped_spec _ _ hp₁
  refine .bind (applyEnforcementGate_spec hp₁) ?_
  rintro (_ | _) w₂ - hq
  · exact checkSteps_spec hq
  · exact .pure hq

theorem cancelledWhileDeciding_spec :
    Follows (Reaches h) (cancelledWhileDeciding h) w (fun _ w' => Decided w w')
      (fun e w' => Decided w w' ∧ e.isPhaseError = false) := by
  unfold cancelledWhileDeciding
  refine .handle (.bind decideRunBudget_spec fun _ _ _ hd => .pure hd) ?_
  rintro e w₁ - ⟨hd, he⟩
  split
  · exact .pure hd
  · exact .raise ⟨hd, he⟩

/-- **The precheck** stops the session or admits one model call. -/
theorem precheck_spec (hp : w.machine.phase = .precheck) :
    Follows (Reaches h) (precheck h) w (fun _ w' => PrecheckEnds w') RunFails := by
  unfold precheck
  refine .bind (Q := fun _ w' => w' = w) (.readThen (.raiseIf ?_ fun _ => rfl)) ?_
  · exact fun _ => .of_phase rfl (.inl hp)
  rintro _ _ - rfl
  refine .readThen ?_
  split
  · exact stopped_spec _ _ hp
  split
  · exact stopped_spec _ _ hp
  split
  · exact stopped_spec _ _ hp
  refine .bind (cancelledWhileDeciding_spec.mono (fun _ _ _ hd => hd) ?_) ?_
  · exact fun e w₁ _ he => .of_phase he.2 (.inl (he.1.eq.1.trans hp))
  intro cancelled w₁ _ hd
  have hp₁ := hd.eq.1.trans hp
  split
  · exact stopped_spec _ _ hp₁
  · exact checkLimits_spec hp₁

end Session

end OpenCollab
