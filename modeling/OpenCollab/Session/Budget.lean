import OpenCollab.Session.Protocol

/-!
# OpenCollab.Session.Budget

Budget control: the host's decisions on the soft allowance, the final prompt a
decision can put on a request, and the output limit a request is admitted with.

* `decideRunBudget_spec` — a decision changes the allowance by a move
  `raiseBudget`, and nothing else;
* `requestOutputLimit_spec` — a limit is `Granted`: at least the
  provider's floor, at most what is left.
-/

namespace OpenCollab

open Lib

/-! ## decisions -/

/-- The checks of `_decide_run_budget` on the suggested allowance, with the text
of each `ValueError`. -/
def acceptSoftBudget (hard soft : Option Nat) (used : Nat) : Json → Except String (Option Nat)
  | .null =>
      if hard.isSome || soft.isSome then .error "a finite allowance requires a finite suggestion"
      else .ok none
  | .int n =>
      if n < 1 then .error "suggested soft budget must be a positive integer"
      else if soft.all fun (current : Nat) => decide (n < (current : Int)) then
        .error "suggested soft budget cannot decrease the current allowance"
      else if soft.all fun (current : Nat) => decide (n ≠ (current : Int) ∧ n < (used : Int)) then
        .error "an increased soft budget cannot be below used tokens"
      else if hard.any fun (b : Nat) => decide ((b : Int) < n) then
        .error "suggested soft budget exceeds the hard allowance"
      else .ok (some n.toNat)
  | _ => .error "suggested soft budget must be a positive integer"

/-- The check on the final prompt. -/
def acceptFinalPrompt : Json → Except String (Option String)
  | .null => .ok none
  | .str text =>
      if isBlank text || text.toList.contains (Char.ofNat 0) then
        .error "final_prompt must be non-empty text or None"
      else .ok (some text)
  | _ => .error "final_prompt must be non-empty text or None"

namespace Session

open Effect

/-- `_raise_if_run_cancelled`. -/
def raiseIfRunCancelled : Session Unit := do
  let w ← read
  raiseIf w.cancelRequested .runCancelled

/-- `_ensure_tool_environment_active`. -/
def ensureToolEnvironmentActive : Session Unit := do
  let w ← read
  raiseIf w.environmentRevoked
    (.plain "Execution environment has been revoked. Session cannot continue.")

/-- The body of `_decide_run_budget`'s `try`. -/
def askBudgetPolicy (h : Host) : Session (Option Nat × Option String) := do
  let a ← await h
  raiseIfRunCancelled
  let w ← read
  match a.decision with
  | none => raise (.plain "budget callback must return BudgetDecision")
  | some d =>
      match acceptSoftBudget h.hardBudgetTokens w.runner.maxBudgetTokens w.state.usedTokens
          d.softBudgetTokens, acceptFinalPrompt d.finalPrompt with
      | .error text, _ => raise (.plain text)
      | _, .error text => raise (.plain text)
      | .ok soft, .ok prompt => pure (soft, prompt)

/-- `_decide_run_budget(…)`. -/
def decideRunBudget (h : Host) : Session Unit := do
  if !(h.hasRunControl && h.decidesBudget) then return ()
  raiseIfRunCancelled
  let w ← read
  if h.hardBudgetTokens.any (· ≤ w.state.usedTokens) then return ()
  let (soft, prompt) ← handle (askBudgetPolicy h) fun
    | .failure f => raise (.policyError f)
    | e => raise e
  modifyRunner fun r => { r with maxBudgetTokens := soft, finalPrompt := prompt <|> r.finalPrompt }

/-- `_prepare_request_budget(messages, …)`; the final prompt is appended to the
list object itself, which may be the session's own history. -/
def prepareRequestBudget (h : Host) (req : Request) : Session Request := do
  if !h.hasRunControl then return req
  decideRunBudget h
  raiseIfRunCancelled
  let w ← read
  match w.runner.finalPrompt with
  | none => return req
  | some text =>
      let prompt := Message.ofText .system text
      if prompt ∈ w.requestMessages req then return req
      match req with
      | .history => append prompt; return .history
      | .view ms => return .view (ms ++ [prompt])

/-- `_team_budget_exhausted is not None and _team_budget_exhausted()`. -/
def teamBudgetExhausted (h : Host) : Session Bool := do
  if !h.sharesTeamBudget then return false
  let a ← consult h
  return a.teamExhausted

/-- The terms of a request before the budget is looked at. -/
def baseTerms (h : Host) (w : World) (purpose : Purpose) (messages : List Message)
    (tools : List String) : Admission where
  purpose
  messages
  minimum := h.minimumOutput purpose
  reservedInput :=
    if w.runner.maxBudgetTokens.isSome || h.activeHard.isSome then
      h.estimate purpose messages tools
    else 0
  used := w.state.usedTokens
  reservations := 0
  soft := w.runner.maxBudgetTokens
  hard := h.activeHard
  limit := h.configuredOutput

/-- `_request_output_limit(messages, …)`, with the terms it rests on. -/
def requestOutputLimit (h : Host) (purpose : Purpose) (messages : List Message)
    (tools : List String) : Session Admission := do
  raiseIf (← teamBudgetExhausted h) .teamBudgetStop
  let w ← read
  let terms := baseTerms h w purpose messages tools
  match ceiling terms.soft terms.hard with
  | none => return terms
  | some c =>
      let a ← consult h
      let remaining : Int := c - terms.used - a.reserved
      raiseIf (remaining - terms.reservedInput < terms.minimum)
        (.tokenBudgetStop terms.reservedInput remaining terms.minimum)
      return { terms with
        reservations := a.reserved
        limit := min terms.limit (remaining - terms.reservedInput) }

end Session

/-! ## specifications -/

/-- An accepted allowance is a legal raise of the current one. -/
theorem raisesBudget_of_accept {h : Host} {m : Machine} {value : Json} {soft : Option Nat}
    (ha : acceptSoftBudget h.hardBudgetTokens m.soft m.used value = .ok soft) :
    RaisesBudget h m soft := by
  unfold acceptSoftBudget at ha
  split at ha
  · split at ha
    · contradiction
    · rename_i hn
      cases ha
      cases hs : m.soft with
      | none => simp [RaisesBudget, hs]
      | some a => simp [hs] at hn
  · rename_i n
    by_cases h1 : n < 1
    · simp [h1] at ha
    cases hs : m.soft with
    | none => simp [hs, h1] at ha
    | some current =>
        rw [hs, if_neg h1] at ha
        split at ha
        · contradiction
        split at ha
        · contradiction
        split at ha
        · contradiction
        rename_i hcur hused hhard
        cases ha
        simp only [RaisesBudget, hs]
        simp at hcur hused hhard
        refine ⟨by omega, fun hne => by omega, fun hard hmem => ?_⟩
        simp only [Option.mem_def.mp hmem, Option.any_some, decide_eq_false_iff_not] at hhard
        omega
  · contradiction

namespace Session

open Effect

variable {h : Host} {w : World}

/-- What an await with a budget decision in it leaves: the rows' ids, and
everything but the allowance. -/
def Decided (w w' : World) : Prop :=
  ∃ table soft, table.ids = w.machine.table.ids ∧ w'.machine = { w.machine with table, soft }

theorem raiseIfRunCancelled_spec :
    Follows (Reaches h) raiseIfRunCancelled w (fun _ w' => w' = w)
      (fun e w' => w' = w ∧ e = .runCancelled) :=
  .readThen (.raiseIf (fun _ => ⟨rfl, rfl⟩) (fun _ => rfl))

/-- An answered policy question is an await that read a legal allowance. -/
theorem askBudgetPolicy_spec :
    Follows (Reaches h) (askBudgetPolicy h) w
      (fun d w' => Waited w w' ∧ RaisesBudget h w'.machine d.1)
      (fun e w' => Waited w w' ∧ e.isPhaseError = false) := by
  unfold askBudgetPolicy
  refine .bind (await_spec.mono (fun _ _ _ hw => hw) ?_) ?_
  · rintro e w' - ⟨hw, he⟩
    exact ⟨hw, isPhaseError_of_awaited he⟩
  intro a w' _ hw
  refine .bind (raiseIfRunCancelled_spec.mono (fun _ _ _ hq => hq) ?_) ?_
  · rintro e _ - ⟨rfl, rfl⟩
    exact ⟨hw, rfl⟩
  rintro _ _ - rfl
  refine .readThen ?_
  split
  · exact .raise ⟨hw, rfl⟩
  · split
    · exact .raise ⟨hw, rfl⟩
    · exact .raise ⟨hw, rfl⟩
    · rename_i hsoft _
      exact .pure ⟨hw, raisesBudget_of_accept hsoft⟩

/-- **A budget decision** changes the allowance by a legal raise, and nothing else. -/
theorem decideRunBudget_spec :
    Follows (Reaches h) (decideRunBudget h) w (fun _ w' => Decided w w')
      (fun e w' => Decided w w' ∧ e.isPhaseError = false) := by
  have hrefl : Decided w w := ⟨_, _, rfl, rfl⟩
  unfold decideRunBudget
  split
  · exact .pure hrefl
  refine .bind (raiseIfRunCancelled_spec.mono (fun _ _ _ hq => hq) ?_) ?_
  · rintro e _ - ⟨rfl, rfl⟩
    exact ⟨hrefl, rfl⟩
  rintro _ _ - rfl
  refine .readThen ?_
  split
  · exact .pure hrefl
  refine .bind (.handle askBudgetPolicy_spec ?_) ?_
  · rintro e w' - ⟨⟨table, ht, hm⟩, he⟩
    have hd : Decided _ w' := ⟨table, _, ht, hm⟩
    split
    · exact .raise ⟨hd, rfl⟩
    · exact .raise ⟨hd, he⟩
  rintro ⟨soft, prompt⟩ w' - ⟨⟨table, ht, hm⟩, hs⟩
  refine .change (.step (.raiseBudget soft hs)) ⟨table, soft, ht, ?_⟩
  show { w'.machine with soft } = _
  rw [hm]

/-- A part of the call chain that failed: the phase is still CALLING_LLM, and
where the chain will try again the visit is as it was. -/
structure CallFails (retries : Exn → Bool) (e : Exn) (w : World) : Prop where
  phase : w.machine.phase = .callingLlm
  again : retries e = true → w.machine.InCall
  legal : e.isPhaseError = false

theorem Decided.inCall {w' : World} (hd : Decided w w') (hw : w.machine.InCall) :
    w'.machine.InCall := by
  obtain ⟨_, _, _, hm⟩ := hd
  rw [hm]
  exact ⟨hw.phase, hw.unused, hw.alone⟩

/-- Preparing a request may put the final prompt into the history. -/
theorem prepareRequestBudget_spec (req : Request) (hw : w.machine.InCall) :
    Follows (Reaches h) (prepareRequestBudget h req) w (fun _ w' => w'.machine.InCall)
      (fun e w' => w'.machine.InCall ∧ e.isPhaseError = false) := by
  unfold prepareRequestBudget
  split
  · exact .pure hw
  refine .bind (decideRunBudget_spec.mono (fun _ _ _ hq => hq) ?_) ?_
  · rintro e w' - ⟨hd, he⟩
    exact ⟨hd.inCall hw, he⟩
  intro _ w₁ _ hd
  have hc := hd.inCall hw
  refine .bind (raiseIfRunCancelled_spec.mono (fun _ _ _ hq => hq) ?_) ?_
  · rintro e w₁ - ⟨rfl, rfl⟩
    exact ⟨hc, rfl⟩
  rintro _ w₁ - rfl
  refine .readThen ?_
  split
  · exact .pure hc
  · rename_i text _
    dsimp only
    split
    · exact .pure hc
    · split
      · have hsay : Step h w₁.machine (w₁.machine.say (.spoken .system text)) :=
          .say .system text false (by decide) (.inr (.inl hc.1))
        exact .bind (.change (Q := fun _ w' => w'.machine.InCall) (.step hsay)
          ⟨hc.phase, hc.unused, hc.alone⟩) fun _ _ _ hc' => .pure hc'
      · exact .pure hc

theorem teamBudgetExhausted_spec :
    Follows (Reaches h) (teamBudgetExhausted h) w (fun _ w' => w'.machine = w.machine)
      (fun _ _ => False) := by
  unfold teamBudgetExhausted
  split
  · exact .pure rfl
  · exact .bind consult_spec fun _ _ _ hm => .pure hm

/-- **Admission.** The terms a request is admitted under are fair, and the
limit reaches the provider's floor. -/
theorem requestOutputLimit_spec (purpose : Purpose) (messages : List Message)
    (tools : List String) :
    Follows (Reaches h) (requestOutputLimit h purpose messages tools) w
      (fun t w' => w'.machine = w.machine ∧ t.Granted h w.machine.used w.machine.soft ∧
        t.purpose = purpose)
      (fun e w' => w'.machine = w.machine ∧ e.isPhaseError = false) := by
  unfold requestOutputLimit
  have hmin : (h.minimumOutput purpose : Int) ≤ h.configuredOutput := h.minimumOutput_le purpose
  refine .bind teamBudgetExhausted_spec.weaken ?_
  intro _ w₁ _ hm₁
  refine .bind (.raiseIf (Q := fun _ w' => w' = w₁) (fun _ => ⟨hm₁, rfl⟩) (fun _ => rfl)) ?_
  rintro _ w₁ - rfl
  refine .readThen ?_
  have hbase : (baseTerms h w₁ purpose messages tools).used = w.machine.used ∧
      (baseTerms h w₁ purpose messages tools).soft = w.machine.soft := by
    rw [← hm₁]
    exact ⟨rfl, rfl⟩
  dsimp only
  split
  · rename_i hc
    refine .pure ⟨hm₁, ⟨hbase.1, hbase.2, rfl, rfl, le_refl _, ?_, hmin⟩, rfl⟩
    intro r hr
    simp [Admission.remaining, hc] at hr
  · rename_i c hc
    refine .bind consult_spec.weaken ?_
    intro a w₂ _ hm₂
    have hm : w₂.machine = w.machine := hm₂.trans hm₁
    refine .bind (.raiseIf (Q := fun _ w' => w' = w₂ ∧ _) (fun _ => ⟨hm, rfl⟩)
      (fun hle => ⟨rfl, hle⟩)) ?_
    rintro _ w₂ - ⟨rfl, hle⟩
    have hle : (h.minimumOutput purpose : Int) ≤
        (c : Int) - (baseTerms h w₁ purpose messages tools).used - a.reserved -
          (baseTerms h w₁ purpose messages tools).reservedInput := by
      simpa [baseTerms] using hle
    have hfloor := le_min hmin hle
    refine .pure ⟨hm, ⟨hbase.1, hbase.2, rfl, rfl, min_le_left _ _, ?_, hfloor⟩, rfl⟩
    intro r hr
    simp only [Admission.remaining, hc, Option.map_some, Option.some.injEq] at hr
    exact hr ▸ min_le_right _ _

end Session

end OpenCollab
