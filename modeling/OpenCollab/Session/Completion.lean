import OpenCollab.Session.Budget

/-!
# OpenCollab.Session.Completion

One model step: the chain from `call_llm` down to the provider.  Each link may
try again (a forced `tool_choice` once with `"auto"`, rejected thinking once
without it, an overflowing prompt once after a forced compaction) and each
attempt is admitted anew; shaping the history may itself call the model for
summaries.

However the chain ends, it makes at most one model step out of one admission,
sends only requests on fair terms, and charges what a call reports once:
`callLlm_spec`.
-/

namespace OpenCollab

open Lib

/-! ## tool choice -/

def writeTools : List String := ["file_write", "apply_patch"]

def structuredOutputTool : String := "structured_output"

/-- `_submit_tool_choice(name)`. -/
def submitToolChoice (name : String) : Json :=
  .obj [("type", .str "function"), ("function", .obj [("name", .str name)])]

/-- A `tool_choice` that a provider may reject: `"required"` or a named tool. -/
def isForcedChoice : Json → Bool
  | .str s => s = "required"
  | .obj kvs => (Json.obj kvs).get "type" ∈ [Json.str "any", .str "tool", .str "function"]
  | _ => false

/-- `_hard_steering_tools(tool_choice_override)`. -/
def hardSteeringTools (tools : List String) (override : Json) : List String × String :=
  if override = submitToolChoice structuredOutputTool then
    ([structuredOutputTool], "hard structured-output gate")
  else if tools.any (· ∈ writeTools) then (writeTools, "hard write gate")
  else if structuredOutputTool ∈ tools then ([structuredOutputTool], "hard structured-output gate")
  else ([], "hard tool gate")

/-- `_tool_schemas_with_names(tools, names)`. -/
def toolsWithNames (tools names : List String) : List String :=
  if (tools.filter (· ∈ names)).isEmpty then tools else tools.filter (· ∈ names)

/-! ## usage -/

/-- The total a response is charged, 0 when its usage is unusable. -/
def Response.total (r : Response) : Nat := ((normalizeCompletionUsage r.usage).map Prod.snd).getD 0

namespace World

/-- `state.add_used_tokens(total)` and `_mark_budget_reserve_consumed(protected_call=…)`. -/
def chargeUsage (h : Host) (isProtected : Bool) (total : Nat) (w : World) : World :=
  let used := w.state.usedTokens + total
  { w with
    state := { w.state with
      usedTokens := used
      budgetReserveConsumed := w.state.budgetReserveConsumed ||
        (isProtected && reserveReached h w.runner.maxBudgetTokens used) }
    events := .callEnded isProtected used w.runner.maxBudgetTokens :: w.events }

/-- `tool_choice_override or agent.tool_choice`. -/
def toolChoice (w : World) (override : Json) : Json :=
  if override.truthy then override else w.runner.toolChoice

@[simp] theorem machine_chargeUsage (h : Host) (isProtected : Bool) (total : Nat) (w : World) :
    (w.chargeUsage h isProtected total).machine = w.machine.charge h isProtected total := rfl

end World

namespace Session

open Effect

/-- A call ended without usable usage. -/
def endUnreported (isProtected : Bool) : Session Unit := change fun w =>
  w.log (.callEnded isProtected w.state.usedTokens w.runner.maxBudgetTokens)

/-- `_complete_with_error_usage` under `_per_call_timeout`: the provider call
itself.  The usage of an exception is charged here, that of a response by the
caller.  A call the caller gives up on keeps running and is accounted later. -/
def completeWithErrorUsage (h : Host) (terms : Admission) (isProtected : Bool) :
    Session Response := do
  let a ← settle h
  match a.fault with
  | none =>
      logEvent (.call terms a.response.total)
      return a.response
  | some fault =>
      if a.abandoned then
        logEvent (.call terms 0)
        change fun w =>
          (w.setRunner fun r => { r with draining := r.draining ++ [isProtected] }).log .abandoned
        match fault with
        | .failure f => raise (.failure { text := f.text, timeout := true })
        | fault => raise fault.toExn
      else
        match fault.usage.map normalizeCompletionUsage with
        | some (some (_, total)) =>
            logEvent (.call terms total)
            change (·.chargeUsage h isProtected total)
            raise fault.toExn
        | some none =>
            logEvent (.call terms 0)
            endUnreported isProtected
            raise (.plain "provider usage must be non-negative integers")
        | none =>
            logEvent (.call terms 0)
            endUnreported isProtected
            raise fault.toExn

/-- `_start_llm_step`: one step, recorded before the first provider attempt. -/
def startLlmStep (h : Host) : Session Unit := do
  let w ← read
  if w.runner.llmStepStarted then return ()
  change fun w =>
    (w.setState fun s => { s with stepCount := s.stepCount + 1 }).log (.modelStep w.state.windDownDone)
  emit h
  modifyRunner fun r => { r with llmStepStarted := true }

/-- `_invoke_llm(…)`. -/
def invokeLlm (h : Host) (terms : Admission) : Session Response := do
  startLlmStep h
  let w ← read
  raiseIf (h.hasRunControl && w.cancelRequested) .runCancelled
  completeWithErrorUsage h terms w.state.windDownDone

/-! ## summaries and shaping -/

/-- `_summary_output_limit(messages)`, put on top of the admitted limit. -/
def capToWindow (h : Host) (terms : Admission) : Admission :=
  match h.windowCap terms.messages with
  | none => terms
  | some cap => { terms with limit := min terms.limit cap }

/-- `_invoke_summary(complete, messages, …)`: reserve, own and charge one summary call. -/
def invokeSummary (h : Host) (messages : List Message) : Session Response := do
  let stripped ← consult h
  let req ← prepareRequestBudget h
    (.view (if h.requiresThinkingPrefix then stripped.view else messages))
  let w ← read
  let terms ← requestOutputLimit h .summary (w.requestMessages req) []
  let w ← read
  raiseIf (h.hasRunControl && w.cancelRequested) .runCancelled
  let isProtected := w.state.windDownDone
  let response ← completeWithErrorUsage h (capToWindow h terms) isProtected
  match normalizeCompletionUsage response.usage with
  | none =>
      endUnreported isProtected
      raise (.plain "provider usage must be non-negative integers")
  | some (contextTokens, total) =>
      change (·.chargeUsage h isProtected total)
      modifyState fun s => { s with contextTokens }
      return response

/-- `_fits(request, allow_budget_stop=…)`: the request and its summary have room in the
window. -/
def fits (h : Host) (request : SummaryRequest) : Session Bool :=
  match h.contextWindow.filter (0 < ·) with
  | none => return true
  | some window => do
      let input : Int := h.estimate .summary request.messages []
      if window ≤ input then return false
      handle (do
          let terms ← requestOutputLimit h .summary request.messages []
          return decide (input + terms.limit ≤ window)) fun
        | .tokenBudgetStop .. => return request.alone
        | e => raise e

/-- A request that fits is sent. -/
def sendSummary (h : Host) (request : SummaryRequest) : Session Unit := do
  let fit ← fits h request
  if !fit then return ()
  let _ ← invokeSummary h request.messages

/-- One request of the summarizer: it falls back to a raw excerpt unless the exception
has to stop the run. -/
def summarize (h : Host) (request : SummaryRequest) : Session Unit :=
  handle (sendSummary h request) fun e => raiseIf e.stopsSummary e

/-- `_shape_and_trace(history)` and the forced pass after an overflow: the
shapers call the model for the summaries they want and return a view, or the
list they were given.  That list is the session's own unless a native provider
view is kept beside it. -/
def shapeHistory (h : Host) : Session Request := do
  let a ← await h
  forEach (summarize h) a.summaries
  let b ← await h
  let w ← read
  return if b.sameList && w.state.anthropicHistory = .null then .history else .view b.view

/-! ## the call chain -/

/-- `_remember_anthropic_history(state, messages, tools)`, where the model needs it. -/
def rememberHistory (h : Host) (req : Request) : Session Request := do
  if !h.requiresThinkingPrefix then return req
  let a ← consult h
  modifyState fun s => { s with anthropicHistory := a.nativeHistory }
  return .view a.view

/-- The second attempt of `_complete_with_choice`, without the rejected thinking. -/
def recoverPrefix (h : Host) (tools : List String) : Session Response := do
  let a ← consult h
  modifyState fun s => { s with anthropicHistory := a.nativeHistory }
  let req ← prepareRequestBudget h (.view a.view)
  let sent ← rememberHistory h req
  let w ← read
  let terms ← requestOutputLimit h .completion (w.requestMessages sent) tools
  invokeLlm h terms

/-- `_complete_with_choice(messages, tools, tool_choice)` on the outgoing list. -/
def completeWithChoice (h : Host) (tools : List String) : Session Response := do
  let w ← read
  let req ← prepareRequestBudget h w.runner.outgoing
  modifyRunner fun r => { r with outgoing := req }
  let sent ← rememberHistory h req
  let w ← read
  let terms ← requestOutputLimit h .completion (w.requestMessages sent) tools
  handle (invokeLlm h terms) fun e =>
    if h.requiresThinkingPrefix && e.isPrefixRejection then recoverPrefix h tools else raise e

/-- `_complete(messages, tools, tool_choice_override)`. -/
def complete (h : Host) (tools : List String) (override : Json) : Session Response := do
  let w ← read
  handle (completeWithChoice h tools) fun e =>
    if isForcedChoice (w.toolChoice override) && !e.isContextOverflow && e.isToolChoiceRejection then
      handle (completeWithChoice h tools) fun
        | .crash => raise .crash
        | .cancelled => raise .cancelled
        | _ => raise e
    else raise e

/-- A model that keeps what it was sent has steering in its transcript. -/
def appendWhenNative (h : Host) (m : Message) : Session Unit :=
  if h.requiresThinkingPrefix then append m else pure ()

/-- The steering block goes into the history: folded into the last user message,
or appended where the model keeps what it was sent.  The result says whether it
was folded. -/
def steerHistory (h : Host) : Option String → Session Bool
  | none => return false
  | some text => do
      let w ← read
      match w.state.messages.getLast?.filter (·.role = .user) with
      | some last =>
          modifyState fun s =>
            { s with messages := s.messages.dropLast ++ [foldSteering last text] }
          return true
      | none =>
          appendWhenNative h (.ofText .user text)
          return false

/-- The list the request is sent from: native thinking is edited, steering that
was not folded is put behind the view. -/
def outgoingRequest (h : Host) (steering : Option String) (folded : Bool) (req : Request) :
    Session Request := do
  let w ← read
  if h.requiresThinkingPrefix then
    let a ← consult h
    return if a.sameList then req else .view a.view
  match steering with
  | some text =>
      return if folded then req else .view (w.requestMessages req ++ [.ofText .user text])
  | none => return req

/-- The first part of `call_llm`: steer, shape, and narrow the tools.  Returns
the tools to offer and the forced `tool_choice`. -/
def prepareCall (h : Host) (tools : List String) : Session (List String × Json) := do
  let a ← consult h
  let folded ← steerHistory h a.steering.content
  let shaped ← shapeHistory h
  let req ← outgoingRequest h a.steering.content folded shaped
  let w ← read
  let gate := hardSteeringTools w.runner.tools a.steering.override
  modifyRunner fun r => { r with
    outgoing := req
    toolAllowlist := if a.steering.hard then some gate.1 else none
    toolGateLabel := if a.steering.hard then some gate.2 else none }
  return (if a.steering.hard then toolsWithNames tools gate.1 else tools, a.steering.override)

/-- The retry of `call_llm` after a context overflow. -/
def retryOverflow (h : Host) (tools : List String) (override : Json) : Session Response := do
  let forced ← shapeHistory h
  let edited ← outgoingRequest h none false forced
  modifyRunner fun r => { r with outgoing := edited }
  emit h
  handle (complete h tools override) fun e =>
    if e.isContextOverflow then raise .contextOverflowStop else raise e

/-- `call_llm(tools)`. -/
def callLlm (h : Host) (tools : List String) : Session Response := do
  let (offered, override) ← prepareCall h tools
  handle (complete h offered override) fun e =>
    if e.isContextOverflow then retryOverflow h offered override else raise e

/-! ## specifications -/

variable {h : Host} {w : World}

/-- A response was just returned: its call is the latest event and the usage has
not been charged. -/
structure Answered (h : Host) (r : Response) (w : World) : Prop where
  provided : h.Provides r
  inCall : w.machine.InCall
  recorded : ∃ terms rest, w.machine.events = .call terms r.total :: rest ∧
    w.machine.used = terms.used

theorem phase_of_failure {retries : Exn → Bool} {e : Exn} (hc : w.machine.InCall)
    (he : e.isPhaseError = false) : CallFails retries e w := ⟨hc.1, fun _ => hc, he⟩

/-- Fewer retries ask for less. -/
theorem CallFails.mono {retries retries' : Exn → Bool} {e : Exn} (hf : CallFails retries e w)
    (hr : retries' e = true → retries e = true) : CallFails retries' e w :=
  ⟨hf.phase, fun h' => hf.again (hr h'), hf.legal⟩

theorem CallFails.stop {retries : Exn → Bool} {e : Exn} (hf : CallFails retries e w) :
    CallFails (fun _ => false) e w := hf.mono nofun

theorem CallFails.retryable {e : Exn} (hf : CallFails Exn.isResumable e w) :
    CallFails Exn.isRetryable e w := hf.mono fun hr => by rw [Exn.isResumable, hr, Bool.true_or]

theorem isPhaseError_toExn (fault : Fault) : fault.toExn.isPhaseError = false := by
  cases fault <;> rfl

/-- The machine after an event that is no admission. -/
theorem inCall_log {m m' : Machine} (hc : m.InCall) (hp : m'.phase = m.phase)
    (hs : m'.started = m.started) (ha : admitted m'.events = admitted m.events)
    (hd : m'.draining = m.draining) : m'.InCall := by
  refine ⟨hp.trans hc.phase, ?_, hd.trans hc.alone⟩
  rw [hs, ha]
  exact hc.unused

/-- A sent request is recorded with its terms. -/
theorem logCall_spec {terms : Admission} {E : Exn → World → Prop} (hc : w.machine.InCall)
    (ht : terms.Fair h w.machine.used w.machine.soft) (total : Nat) :
    Follows (Reaches h) (logEvent (.call terms total)) w
      (fun _ w' => w'.machine =
        { w.machine with events := .call terms total :: w.machine.events }) E :=
  .change (.step (.call hc.1 terms total ht)) rfl

theorem endUnreported_spec {isProtected : Bool} {E : Exn → World → Prop} (hc : w.machine.InCall)
    (hp : isProtected = w.machine.windDownDone) :
    Follows (Reaches h) (endUnreported isProtected) w (fun _ w' => w'.machine.InCall) E := by
  subst hp
  exact .change (.step (.unreported hc.1)) (inCall_log hc rfl rfl rfl rfl)

/-- The usage of the call just recorded is charged once. -/
theorem chargeUsage_spec {isProtected : Bool} {terms : Admission} {total : Nat}
    {rest : List Event} {E : Exn → World → Prop} (hc : w.machine.InCall)
    (hp : isProtected = w.machine.windDownDone)
    (he : w.machine.events = .call terms total :: rest) (hu : w.machine.used = terms.used) :
    Follows (Reaches h) (change (·.chargeUsage h isProtected total)) w
      (fun _ w' => w'.machine.InCall) E := by
  subst hp
  exact .change (.step (.charge hc.1 terms total rest he hu)) (inCall_log hc rfl rfl rfl rfl)

theorem completeWithErrorUsage_spec {terms : Admission} (hc : w.machine.InCall)
    (ht : terms.Fair h w.machine.used w.machine.soft) {isProtected : Bool}
    (hp : isProtected = w.machine.windDownDone) :
    Follows (Reaches h) (completeWithErrorUsage h terms isProtected) w
      (fun r w' => Answered h r w' ∧ w'.machine.windDownDone = isProtected)
      (CallFails Exn.isResumable) := by
  unfold completeWithErrorUsage
  refine .bind settle_provides_spec.weaken ?_
  rintro a w₁ - ⟨hw, hprov⟩
  have hc₁ := hw.inCall hc
  have ht₁ : terms.Fair h w₁.machine.used w₁.machine.soft := by
    obtain ⟨_, _, hm⟩ := hw
    rw [hm]
    exact ht
  have hp₁ : isProtected = w₁.machine.windDownDone := by
    obtain ⟨_, _, hm⟩ := hw
    rw [hm]
    exact hp
  have hlog : ∀ {w₂ : World} {total : Nat}, w₂.machine =
      { w₁.machine with events := .call terms total :: w₁.machine.events } → w₂.machine.InCall := by
    intro w₂ total hm
    exact inCall_log hc₁ (by rw [hm]) (by rw [hm]) (by rw [hm]; rfl) (by rw [hm])
  split
  · refine .bind (logCall_spec hc₁ ht₁ _) ?_
    rintro _ w₂ - hm
    refine .pure ⟨⟨hprov, hlog hm, terms, w₁.machine.events, by rw [hm], ?_⟩, ?_⟩
    · rw [hm, ht₁.used]
    · rw [hm, hp₁]
  rename_i fault _
  split
  · refine .bind (logCall_spec hc₁ ht₁ 0) ?_
    rintro _ w₂ - hm
    refine .bind (.change (Q := fun _ w' => w'.machine.phase = .callingLlm) (.step ?_)
      (hlog hm).phase) ?_
    · have hwd : w₂.machine.windDownDone = isProtected := by rw [hm, hp₁]
      rw [← hwd]
      exact .abandon (hlog hm).phase
    rintro _ w₃ - hp₃
    split
    · exact .raise ⟨hp₃, nofun, rfl⟩
    · rename_i hnf
      cases fault with
      | crash => exact .raise ⟨hp₃, nofun, rfl⟩
      | cancelled usage => exact .raise ⟨hp₃, nofun, rfl⟩
      | failure f => exact absurd rfl (hnf f)
  split
  · refine .bind (logCall_spec hc₁ ht₁ _) ?_
    rintro _ w₂ - hm
    refine .bind (chargeUsage_spec (hlog hm) (by rw [hm, hp₁]) (by rw [hm])
      (by rw [hm, ht₁.used])) ?_
    rintro _ w₃ - hc₃
    exact .raise (phase_of_failure hc₃ (isPhaseError_toExn fault))
  · refine .bind (logCall_spec hc₁ ht₁ 0) ?_
    rintro _ w₂ - hm
    refine .bind (endUnreported_spec (hlog hm) (by rw [hm, hp₁])) ?_
    rintro _ w₃ - hc₃
    exact .raise (phase_of_failure hc₃ rfl)
  · refine .bind (logCall_spec hc₁ ht₁ 0) ?_
    rintro _ w₂ - hm
    refine .bind (endUnreported_spec (hlog hm) (by rw [hm, hp₁])) ?_
    rintro _ w₃ - hc₃
    exact .raise (phase_of_failure hc₃ (isPhaseError_toExn fault))

/-- One admission gives one model step; the step of an earlier attempt is kept. -/
theorem startLlmStep_spec (hc : w.machine.InCall) :
    Follows (Reaches h) (startLlmStep h) w
      (fun _ w' => w'.machine.InCall ∧ w'.machine.used = w.machine.used ∧
        w'.machine.soft = w.machine.soft)
      (fun e w' => w'.machine.phase = .callingLlm ∧ e.isAwaited = true ∧
        e.isRetryable = false) := by
  unfold startLlmStep
  refine .readThen ?_
  split
  · exact .pure ⟨hc, rfl, rfl⟩
  rename_i hs
  have hs : w.machine.started = false := Bool.eq_false_iff.mpr hs
  refine .bind (.change (Q := fun _ w' => w'.machine = { w.machine with
    steps := w.machine.steps + 1
    events := .modelStep w.machine.windDownDone :: w.machine.events })
    (.step (.startStep hc.phase hs (hc.unused hs))) rfl) ?_
  rintro _ w₁ - hm₁
  refine .bind (emit_spec.mono (fun _ _ _ hq => hq) ?_) ?_
  · rintro e w₂ - ⟨⟨_, _, hm₂⟩, he⟩
    refine ⟨?_, he⟩
    rw [hm₂, hm₁]
    exact hc.1
  rintro _ w₂ - ⟨_, _, hm₂⟩
  rw [hm₁] at hm₂
  have hp : w₂.machine.phase = .callingLlm := by rw [hm₂]; exact hc.1
  refine .change (.step (.markStarted hp (by rw [hm₂]; rfl))) ⟨⟨hp, fun hf => ?_, ?_⟩, ?_, ?_⟩
  · exact Bool.noConfusion hf
  · have hd : w₂.machine.draining = [] := by rw [hm₂]; exact hc.alone
    exact hd
  · exact (congrArg Machine.used hm₂ : _)
  · exact (congrArg Machine.soft hm₂ : _)

theorem invokeLlm_spec {terms : Admission} (hc : w.machine.InCall)
    (ht : terms.Fair h w.machine.used w.machine.soft) :
    Follows (Reaches h) (invokeLlm h terms) w (Answered h) (CallFails Exn.isRetryable) := by
  unfold invokeLlm
  refine .bind ((startLlmStep_spec hc).mono (fun _ _ _ hq => hq) ?_) ?_
  · rintro e w₁ - ⟨hp, he, hr⟩
    exact ⟨hp, fun hretry => Bool.noConfusion (hretry.symm.trans hr), isPhaseError_of_awaited he⟩
  rintro _ w₁ - ⟨hc₁, hu, hs⟩
  refine .readThen (.bind (.raiseIf (Q := fun _ w' => w' = w₁)
    (fun _ => phase_of_failure hc₁ rfl) (fun _ => rfl)) ?_)
  rintro _ w₁ - rfl
  rw [← hu, ← hs] at ht
  exact (completeWithErrorUsage_spec hc₁ ht rfl).mono (fun _ _ _ hq => hq.1)
    (fun _ _ _ he => he.retryable)

/-! ## summaries and shaping -/

/-- **The window cap makes what is granted fair.** -/
theorem capToWindow_fair {terms : Admission} {used : Nat} {soft : Option Nat}
    (ht : terms.Granted h used soft) (hp : terms.purpose = .summary) :
    (capToWindow h terms).Fair h used soft := by
  unfold capToWindow
  cases hcap : h.windowCap terms.messages with
  | none => exact ht.fair (.inr hcap)
  | some cap =>
      refine ⟨ht.used, ht.soft, ht.hard, ht.minimum, (min_le_left _ _).trans ht.configured,
        fun r hr => (min_le_left _ _).trans (ht.left r hr), ?_, ?_⟩
      · dsimp only
        obtain hle | hle := le_total terms.limit cap
        · exact .inl (by rw [min_eq_left hle]; exact ht.floor)
        · exact .inr ⟨hp, by rw [hcap, min_eq_right hle]⟩
      · intro _ other hother
        rw [show h.windowCap terms.messages = some other from hother] at hcap
        rw [Option.some.inj hcap]
        exact min_le_right _ _

theorem invokeSummary_spec (messages : List Message) (hc : w.machine.InCall) :
    Follows (Reaches h) (invokeSummary h messages) w (fun _ w' => w'.machine.InCall)
      (CallFails Exn.isResumable) := by
  unfold invokeSummary
  refine .bind consult_spec.weaken ?_
  rintro _ w₁ - hm₁
  refine .bind ((prepareRequestBudget_spec _ (hm₁ ▸ hc)).mono (fun _ _ _ hq => hq)
    (fun _ _ _ he => phase_of_failure he.1 he.2)) ?_
  rintro _ w₂ - hc₂
  refine .readThen (.bind ((requestOutputLimit_spec _ _ _).mono (fun _ _ _ hq => hq) ?_) ?_)
  · rintro e w₃ - ⟨hm₃, he⟩
    exact phase_of_failure (hm₃ ▸ hc₂) he
  rintro terms w₃ - ⟨hm₃, ht, hpurpose⟩
  have hc₃ : w₃.machine.InCall := hm₃ ▸ hc₂
  refine .readThen (.bind (.raiseIf (Q := fun _ w' => w' = w₃)
    (fun _ => phase_of_failure hc₃ rfl) (fun _ => rfl)) ?_)
  rintro _ w₃ - rfl
  rw [← hm₃] at ht
  refine .bind (completeWithErrorUsage_spec hc₃
    (capToWindow_fair ht hpurpose) rfl) ?_
  rintro response w₄ - ⟨⟨-, hc₄, t, rest, he, hu⟩, hwd⟩
  split
  · refine .bind (endUnreported_spec hc₄ hwd.symm) ?_
    rintro _ w₅ - hc₅
    exact .raise (phase_of_failure hc₅ rfl)
  · rename_i total hn
    have htotal : response.total = total := by simp [Response.total, hn]
    refine .bind (chargeUsage_spec hc₄ hwd.symm (htotal ▸ he) hu) ?_
    rintro _ w₅ - hc₅
    refine .bind (.change (Q := fun _ w' => w'.machine.InCall) (.same rfl) hc₅) ?_
    rintro _ w₆ - hc₆
    exact .pure hc₆

/-- Looking at the window changes nothing. -/
theorem fits_spec (request : SummaryRequest) :
    Follows (Reaches h) (fits h request) w (fun _ w' => w'.machine = w.machine)
      (fun e w' => w'.machine = w.machine ∧ e.isPhaseError = false) := by
  unfold fits
  split
  · exact .pure rfl
  dsimp only
  split
  · exact .pure rfl
  refine .handle (.bind (requestOutputLimit_spec _ _ _) fun _ _ _ hq => .pure hq.1) ?_
  rintro e w₁ - ⟨hm, he⟩
  split
  · exact .pure hm
  · exact .raise ⟨hm, he⟩

theorem sendSummary_spec (request : SummaryRequest) (hc : w.machine.InCall) :
    Follows (Reaches h) (sendSummary h request) w (fun _ w' => w'.machine.InCall)
      (CallFails Exn.isResumable) := by
  unfold sendSummary
  refine .bind ((fits_spec request).mono (fun _ _ _ hq => hq) ?_) ?_
  · rintro e w₁ - ⟨hm, he⟩
    exact phase_of_failure (hm ▸ hc) he
  rintro fit w₁ - hm
  split
  · exact .pure (hm ▸ hc)
  · exact .bind (invokeSummary_spec request.messages (hm ▸ hc)) fun _ _ _ hc' => .pure hc'

/-- A failed summary is dropped, or it ends the call. -/
theorem summarize_spec (request : SummaryRequest) (hc : w.machine.InCall) :
    Follows (Reaches h) (summarize h request) w (fun _ w' => w'.machine.InCall)
      (CallFails fun _ => false) := by
  unfold summarize
  refine .handle (sendSummary_spec request hc) ?_
  rintro e w₁ - he
  refine .raiseIf (fun _ => he.stop) fun hs => he.again ?_
  rw [Exn.isResumable, hs, Bool.not_false, Bool.or_true]

theorem shapeHistory_spec (hc : w.machine.InCall) :
    Follows (Reaches h) (shapeHistory h) w (fun _ w' => w'.machine.InCall)
      (CallFails fun _ => false) := by
  have hwait : ∀ {w₁ : World}, w₁.machine.InCall →
      Follows (Reaches h) (await h) w₁ (fun _ w' => w'.machine.InCall)
        (CallFails fun _ => false) := by
    intro w₁ hc₁
    exact await_spec.mono (fun _ _ _ hq => hq.inCall hc₁)
      (fun _ _ _ he => phase_of_failure (he.1.inCall hc₁) (isPhaseError_of_awaited he.2))
  unfold shapeHistory
  refine .bind (hwait hc) ?_
  rintro a w₁ - hc₁
  refine .bind (.forEach (I := fun _ w' => w'.machine.InCall) a.summaries ?_ hc₁) ?_
  · intro _ request _ w' _ hc'
    exact summarize_spec request hc'
  rintro _ w₂ - hc₂
  refine .bind (hwait hc₂) ?_
  rintro b w₃ - hc₃
  exact .readThen (.pure hc₃)

/-! ## the call chain -/

theorem rememberHistory_spec {E : Exn → World → Prop} (req : Request) :
    Follows (Reaches h) (rememberHistory h req) w (fun _ w' => w'.machine = w.machine) E := by
  unfold rememberHistory
  split
  · exact .pure rfl
  · refine .bind consult_spec.weaken ?_
    rintro _ w₁ - hm₁
    exact .bind (.change (Q := fun _ w' => w'.machine = w.machine) (.same rfl) hm₁)
      fun _ _ _ hm => .pure hm

/-- An attempt from a request on: admission and the provider call. -/
theorem attempt_spec (req : Request) (tools : List String) (hc : w.machine.InCall) :
    Follows (Reaches h) (do
      let sent ← rememberHistory h req
      let w ← read
      let terms ← requestOutputLimit h .completion (w.requestMessages sent) tools
      invokeLlm h terms) w (Answered h) (CallFails Exn.isRetryable) := by
  refine .bind (rememberHistory_spec req) ?_
  rintro _ w₁ - hm₁
  refine .readThen (.bind ((requestOutputLimit_spec _ _ _).mono (fun _ _ _ hq => hq) ?_) ?_)
  · rintro e w₂ - ⟨hm₂, he⟩
    exact phase_of_failure (hm₂ ▸ hm₁ ▸ hc) he
  rintro terms w₂ - ⟨hm₂, ht, hpurpose⟩
  exact invokeLlm_spec (hm₂ ▸ hm₁ ▸ hc) (hm₂ ▸ ht.fair (.inl hpurpose))

theorem recoverPrefix_spec (tools : List String) (hc : w.machine.InCall) :
    Follows (Reaches h) (recoverPrefix h tools) w (Answered h) (CallFails Exn.isRetryable) := by
  unfold recoverPrefix
  refine .bind consult_spec.weaken ?_
  rintro a w₁ - hm₁
  refine .bind (.change (Q := fun _ w' => w'.machine.InCall) (.same rfl) (hm₁ ▸ hc)) ?_
  rintro _ w₂ - hc₂
  refine .bind ((prepareRequestBudget_spec _ hc₂).mono (fun _ _ _ hq => hq) ?_) ?_
  · rintro e w₃ - ⟨hc₃, he⟩
    exact phase_of_failure hc₃ he
  rintro req w₃ - hc₃
  exact attempt_spec req tools hc₃

theorem completeWithChoice_spec (tools : List String) (hc : w.machine.InCall) :
    Follows (Reaches h) (completeWithChoice h tools) w (Answered h) (CallFails Exn.isRetryable) := by
  unfold completeWithChoice
  refine .readThen (.bind ((prepareRequestBudget_spec _ hc).mono (fun _ _ _ hq => hq) ?_) ?_)
  · rintro e w₁ - ⟨hc₁, he⟩
    exact phase_of_failure hc₁ he
  rintro req w₁ - hc₁
  refine .bind (.change (Q := fun _ w' => w'.machine.InCall) (.same rfl) hc₁) ?_
  rintro _ w₂ - hc₂
  refine .bind (rememberHistory_spec req) ?_
  rintro sent w₃ - hm₃
  refine .readThen (.bind ((requestOutputLimit_spec _ _ _).mono (fun _ _ _ hq => hq) ?_) ?_)
  · rintro e w₄ - ⟨hm₄, he⟩
    exact phase_of_failure (hm₄ ▸ hm₃ ▸ hc₂) he
  rintro terms w₄ - ⟨hm₄, ht, hpurpose⟩
  refine .handle (invokeLlm_spec (hm₄ ▸ hm₃ ▸ hc₂) (hm₄ ▸ ht.fair (.inl hpurpose))) ?_
  rintro e w₅ - he
  split
  · rename_i hr
    refine recoverPrefix_spec tools (he.again ?_)
    simp only [Bool.and_eq_true] at hr
    simp [Exn.isRetryable, hr.2]
  · exact .raise he

theorem complete_spec (tools : List String) (override : Json) (hc : w.machine.InCall) :
    Follows (Reaches h) (complete h tools override) w (Answered h)
      (CallFails Exn.isContextOverflow) := by
  unfold complete
  refine .readThen (.handle (completeWithChoice_spec tools hc) ?_)
  rintro e w₁ - he
  split
  · rename_i hr
    simp only [Bool.and_eq_true, Bool.not_eq_true'] at hr
    have hover : Exn.isContextOverflow e = true → False := by simp [hr.1.2]
    refine .handle (completeWithChoice_spec tools (he.again (by simp [Exn.isRetryable, hr.2]))) ?_
    rintro e' w₂ - he'
    split
    · exact .raise ⟨he'.phase, fun hf => Bool.noConfusion hf, rfl⟩
    · exact .raise ⟨he'.phase, fun hf => Bool.noConfusion hf, rfl⟩
    · exact .raise ⟨he'.phase, fun hf => (hover hf).elim, he.legal⟩
  · exact .raise ⟨he.phase, fun hf => he.again (by simp [Exn.isRetryable, hf]), he.legal⟩

theorem steerHistory_spec {E : Exn → World → Prop} (content : Option String)
    (hc : w.machine.InCall) :
    Follows (Reaches h) (steerHistory h content) w (fun _ w' => w'.machine.InCall) E := by
  unfold steerHistory
  split
  · exact .pure hc
  rename_i text
  refine .readThen ?_
  split
  · rename_i last hlast
    obtain ⟨hl, hr⟩ := Option.filter_eq_some_iff.mp hlast
    exact .bind (.change (Q := fun _ w' => w'.machine.InCall)
      (.step (.fold hc.1 last hl (by simpa using hr) text))
      ⟨hc.phase, hc.unused, hc.alone⟩) fun _ _ _ hc' => .pure hc'
  · refine .bind (Q := fun _ w' => w'.machine.InCall) ?_ fun _ _ _ hc' => .pure hc'
    unfold appendWhenNative
    split
    · exact .change (.step (.say .user text false (by decide) (.inr (.inl hc.phase))))
        ⟨hc.phase, hc.unused, hc.alone⟩
    · exact .pure hc

theorem outgoingRequest_spec {E : Exn → World → Prop} (content : Option String) (folded : Bool)
    (req : Request) (hc : w.machine.InCall) :
    Follows (Reaches h) (outgoingRequest h content folded req) w
      (fun _ w' => w'.machine.InCall) E := by
  unfold outgoingRequest
  refine .readThen ?_
  split
  · refine .bind consult_spec.weaken ?_
    rintro _ w₁ - hm₁
    exact .pure (hm₁ ▸ hc)
  · split
    · exact .pure hc
    · exact .pure hc

theorem prepareCall_spec (tools : List String) (hc : w.machine.InCall) :
    Follows (Reaches h) (prepareCall h tools) w (fun _ w' => w'.machine.InCall)
      (CallFails fun _ => false) := by
  unfold prepareCall
  refine .bind consult_spec.weaken ?_
  rintro a w₁ - hm₁
  refine .bind (steerHistory_spec a.steering.content (hm₁ ▸ hc)) ?_
  rintro folded w₂ - hc₂
  refine .bind (shapeHistory_spec hc₂) ?_
  rintro shaped w₃ - hc₃
  refine .bind (outgoingRequest_spec _ _ shaped hc₃) ?_
  rintro req w₄ - hc₄
  refine .readThen (.bind (.change (Q := fun _ w' => w'.machine.InCall) (.same rfl) hc₄) ?_)
  exact fun _ _ _ hc' => .pure hc'

theorem retryOverflow_spec (tools : List String) (override : Json) (hc : w.machine.InCall) :
    Follows (Reaches h) (retryOverflow h tools override) w (Answered h) (CallFails fun _ => false) := by
  unfold retryOverflow
  refine .bind (shapeHistory_spec hc) ?_
  rintro forced w₁ - hc₁
  refine .bind (outgoingRequest_spec none false forced hc₁) ?_
  rintro edited w₂ - hc₂
  refine .bind (.change (Q := fun _ w' => w'.machine.InCall) (.same rfl) hc₂) ?_
  rintro _ w₃ - hc₃
  refine .bind (emit_spec.mono (fun _ _ _ hq => hq.inCall hc₃) ?_) ?_
  · rintro e w₄ - ⟨hq, he⟩
    exact ⟨(hq.inCall hc₃).1, fun hf => Bool.noConfusion hf, isPhaseError_of_awaited he.1⟩
  rintro _ w₄ - hc₄
  refine .handle (complete_spec tools override hc₄) ?_
  rintro e w₅ - he
  split
  · exact .raise ⟨he.phase, fun hf => Bool.noConfusion hf, rfl⟩
  · exact .raise ⟨he.phase, fun hf => Bool.noConfusion hf, he.legal⟩

/-- **One model call.** It follows the protocol inside CALLING_LLM, and a
returned response is the latest recorded call. -/
theorem callLlm_spec (tools : List String) (hc : w.machine.InCall) :
    Follows (Reaches h) (callLlm h tools) w (Answered h) (CallFails fun _ => false) := by
  unfold callLlm
  refine .bind (prepareCall_spec tools hc) ?_
  rintro ⟨offered, override⟩ w₁ - hc₁
  refine .handle (complete_spec offered override hc₁) ?_
  rintro e w₂ - he
  split
  · rename_i hover
    exact retryOverflow_spec offered override (he.again hover)
  · exact .raise ⟨he.phase, fun hf => Bool.noConfusion hf, he.legal⟩

end Session

end OpenCollab
