import OpenCollab.Session.Completion

/-!
# OpenCollab.Session.ToolBatch

Executing the tool calls of a response.  A batch is checked as a whole before
any call can start; the calls the current gate forbids are answered with an
error; the others run one by one.  Without a deferrable call the results go to
the history at once, in call order.  With one, every result is buffered in a row
of the pending table, and the session drains the table if it is complete or
suspends until it is.

`executePendingTools_spec`: whatever the tools do, the batch is answered by one
move, or every one of its calls has a row.
-/

namespace OpenCollab

open Lib

/-! ## preflight -/

/-- `MAX_TOOL_CALLS_PER_BATCH`. -/
def maxToolCallsPerBatch : Nat := 32

/-- The error of one call of `preflight_tool_batch`, `""` when there is none.
The checks of its arguments against JSON, the agent's tools and the tool's
schema are `callError`. -/
def preflightError (h : Host) (tools : List String) (calls : List ToolCall) (tc : ToolCall) :
    String :=
  if tc.id = "" then "id must be non-empty text"
  else if 2 ≤ (calls.map ToolCall.id).count tc.id then "duplicate tool_call id '" ++ tc.id ++ "'"
  else if tc.name = "" then "function.name must be non-empty text"
  else h.callError tools tc

/-- `preflight_tool_batch(tool_calls)`. -/
def preflightToolBatch (h : Host) (tools : List String) (calls : List ToolCall) : List String :=
  if maxToolCallsPerBatch < calls.length then
    List.replicate calls.length <|
      "batch has " ++ toString calls.length ++ " calls; maximum is " ++
        toString maxToolCallsPerBatch
  else calls.map (preflightError h tools calls)

/-- The batch is refused. -/
def anyError (errors : List String) : Bool := errors.any (· ≠ "")

/-- `preflight_rejection_result(tool_calls, preflight_errors)`: one answer for
every call. -/
def preflightRejection (calls : List ToolCall) (errors : List String) : Receipts :=
  let reasons := errors.zipIdx.filterMap fun error =>
    if error.1 = "" then none else some ("call " ++ toString error.2 ++ ": " ++ error.1)
  let summary := String.ofList (("; ".intercalate reasons).toList.take 2000)
  calls.zipIdx.map fun call => (call.1.id,
    if 1 < calls.length then
      "Error: entire tool-call batch rejected before execution: " ++ summary
    else errors.getD call.2 "")

/-! ## the tool gate -/

/-- The answer to a call the gate forbids. -/
def blockedResult (allowed : List String) (label : Option String) (tc : ToolCall) :
    String × String :=
  (tc.id, "Error: tool '" ++ tc.name ++ "' is not allowed during the " ++
    label.getD "hard tool gate" ++ ". Use one of: " ++
    ", ".intercalate (allowed.insertionSort (· ≤ ·)) ++ ".")

/-- `_apply_pending_tool_allowlist(tool_calls)`: the calls to run and the
answers of the others. -/
def applyPendingToolAllowlist (r : Runner) (calls : List ToolCall) : List ToolCall × Receipts :=
  match r.toolAllowlist with
  | none => (calls, [])
  | some allowed =>
      (calls.filter (·.name ∈ allowed),
        (calls.filter (·.name ∉ allowed)).map (blockedResult allowed r.toolGateLabel))

/-! ## results -/

def terminalCaptureSkipMessage : String :=
  "Skipped: terminal structured output accepted earlier in this batch."

/-- `ToolProcessingResult`: the answers, and how a terminal call ended the batch. -/
structure ProcResult where
  results : Receipts := []
  terminalCaptureAccepted : Bool := false
  turnSubmitted : Option String := none
deriving DecidableEq, Inhabited

namespace Session

open Effect

/-! ## immediate tools -/

/-- `_track_tool_results(completed_results)`. -/
def trackToolResults (results : Receipts) : Session Unit := change fun w => w.setRunner fun r =>
  { r with
    receiptPrefix := (w.state.pendingEvents.rows.filter (!·.isPending)).map fun row =>
      (row.toolCallId, row.result.getD "")
    receiptResults := results
    receiptStep := some w.state.stepCount }

/-- A result joins the list of the batch, which the receipts share. -/
def recordReceipts (results : Receipts) : Session Unit :=
  modifyRunner fun r => { r with receiptResults := results }

/-- The retry reservation of a repeated call is persisted before it runs. -/
def checkpointReservation (h : Host) (due : Bool) (results : Receipts) : Session Unit := do
  if due then
    trackToolResults results
    let _ ← await h
  else return ()

/-- The calls of `process`, after the batch checks.  A call that is refused is
answered with the reason; an accepted terminal call answers the rest. -/
def processCalls (h : Host) : List ToolCall → ProcResult → Session ProcResult
  | [], proc => return proc
  | tc :: rest, proc => do
      let a ← consult h
      match a.shortCircuit with
      | some content =>
          emit h
          recordReceipts (proc.results ++ [(tc.id, content)])
          processCalls h rest { proc with results := proc.results ++ [(tc.id, content)] }
      | none =>
          checkpointReservation h a.checkpointed proc.results
          let b ← await h
          let results := proc.results ++ [(tc.id, b.tool.content)]
          recordReceipts results
          modifyState fun s => { s with
            submittedSummary := b.tool.submitted <|> s.submittedSummary }
          emit h
          if b.tool.terminalCapture || b.tool.submitted.isSome then
            return {
              results := results ++ rest.map fun skipped => (skipped.id, terminalCaptureSkipMessage)
              terminalCaptureAccepted := true
              turnSubmitted := b.tool.submitted }
          else processCalls h rest { proc with results }

/-- `ToolExecutionUseCase.process(tool_calls)`. -/
def process (h : Host) (calls : List ToolCall) : Session ProcResult := do
  let w ← read
  let errors := preflightToolBatch h w.runner.tools calls
  if 1 < calls.length ∧ anyError errors then
    return { results := preflightRejection calls errors }
  trackToolResults []
  processCalls h calls {}

/-- The counters a batch folds into the turn window. -/
def foldSignals (h : Host) : Session Unit := do
  let a ← consult h
  modifyState fun s => { s with turn := a.signals }

/-- `_record_submission(result)`. -/
def recordSubmission (proc : ProcResult) : Session Unit :=
  modifyState fun s => { s with submittedSummary := proc.turnSubmitted <|> s.submittedSummary }

/-- The gate of a hard steering level lasts one batch. -/
def clearGate : Session Unit :=
  modifyRunner fun r => { r with toolAllowlist := none, toolGateLabel := none }

/-! ## deferred tools -/

/-- `table.add(row)`. -/
def addRow (row : PendingRow) : Session Unit := do
  let w ← read
  match w.state.pendingEvents.add row with
  | none => raise (.pendingRowError row.toolCallId)
  | some table => modifyState fun s => { s with pendingEvents := table }

/-- `table.rows[id] = replace(row, …)`. -/
def updateRow (id : String) (f : PendingRow → PendingRow) : Session Unit :=
  modifyState fun s => { s with pendingEvents := s.pendingEvents.update id f }

/-- `table.fill(id, status=FAILED, result=message, error=message)` of a pending row. -/
def failRow (id message : String) : Session Unit :=
  updateRow id fun row =>
    { row with status := .failed, result := some message, error := some message, finishedAt := .null }

/-- `execute_deferred(tool_call)`: a child reference, or the text of a call that
resolved at once. -/
def executeDeferred (h : Host) : Session DeferredOutcome := do
  modifyRunner fun r => { r with pendingDeferredResult := none }
  let w ← read
  if w.environmentRevoked then
    return .text "Error: Skipped because the execution environment has been revoked."
  let a ← consult h
  match a.shortCircuit with
  | some content => return .text content
  | none =>
      emit h
      let b ← settle h
      raiseIf (b.fault = some .crash) .crash
      modifyRunner fun r => { r with
        pendingDeferredResult := if b.fault.isNone then some b.deferred else b.remembered }
      emit h
      match b.fault with
      | none => return b.deferred
      | some fault => raise fault.toExn

/-- `_record_deferred_result(table, tool_call_id, ref, error)`. -/
def recordDeferredResult (id : String) (outcome : DeferredOutcome) : Session Unit := do
  let w ← read
  match w.state.pendingEvents.get? id, outcome with
  | none, _ => raise (.plain ("KeyError: " ++ id))
  | some _, .child ref => updateRow id fun row => { row with ref := .int ref }
  | some row, .text message =>
      if row.isPending then
        failRow id (if message = "" then "Deferred tool failed without an error message." else message)
      else return ()

/-- `_settle_cancelled_deferred_row(table, tool_call_id)`: keep a produced child,
and fail a row that never acquired one. -/
def settleCancelledDeferredRow (id : String) : Session Unit := do
  let w ← read
  match w.state.pendingEvents.get? id with
  | none => return ()
  | some row =>
      match w.runner.pendingDeferredResult with
      | some (.child ref) => updateRow id fun row => { row with ref := .int ref }
      | remembered =>
          if !row.isPending || row.ref ≠ .null then return ()
          match remembered with
          | some outcome => recordDeferredResult id outcome
          | none => failRow id ("Tool execution interrupted by session cancellation. " ++
              "The execution outcome is unknown.")

/-- `_execute_deferred_tools(table, order, [tool_call])`: the row stands before
the child starts. -/
def executeDeferredTool (h : Host) (calls : List ToolCall) (tc : ToolCall) : Session Unit := do
  addRow { toolCallId := tc.id, kind := .childAgent, order := callOrder calls tc.id }
  let outcome ← handle (executeDeferred h) fun
    | .cancelled => do
        settleCancelledDeferredRow tc.id
        raise .cancelled
    | e => raise e
  recordDeferredResult tc.id outcome

/-- One message of `_buffer_completed_rows(table, order, messages)`. -/
def bufferCompletedRow (calls : List ToolCall) (receipt : String × String) : Session Unit := do
  let w ← read
  let previous := w.state.pendingEvents.get? receipt.1
  if previous.any fun row => row.status = .done ∧ row.result = some receipt.2 then return ()
  addRow
    { toolCallId := receipt.1
      kind := .immediate
      order := callOrder calls receipt.1
      status := .done
      result := some receipt.2 }

/-- The calls of a batch with a deferrable one, in order; a terminal call makes
the rest skipped. -/
def executeMixed (h : Host) (calls : List ToolCall) : Bool → List ToolCall → Session Unit
  | _, [] => return ()
  | true, tc :: rest => do
      bufferCompletedRow calls (tc.id, terminalCaptureSkipMessage)
      executeMixed h calls true rest
  | false, tc :: rest =>
      if h.isDeferred tc.name then do
        executeDeferredTool h calls tc
        executeMixed h calls false rest
      else do
        let proc ← process h [tc]
        foldSignals h
        forEach (bufferCompletedRow calls) proc.results
        recordSubmission proc
        executeMixed h calls proc.terminalCaptureAccepted rest

/-! ## the batch -/

/-- The whole batch is answered at once. -/
def answerBatch (h : Host) (answers : Receipts) (proc : ProcResult) : Session Unit := do
  foldSignals h
  recordSubmission proc
  clearGate
  modifyState fun s => { s with messages := s.messages ++ answers.messages }
  transitionTo .autosaving

/-- The complete table is drained into the history. -/
def drainBatch : Session Unit := do
  modifyState fun s => { s with
    messages := s.messages ++ s.pendingEvents.orderedResults
    pendingEvents := .empty }
  transitionTo .autosaving

/-- The session suspends until the table is complete. -/
def suspendBatch : Session Unit := do
  modifyRunner fun r => { r with pendingStep := none }
  transitionTo .awaitingEvents

/-- The calls the gate kept, if any. -/
def processKept (h : Host) (kept : List ToolCall) : Session ProcResult :=
  if kept.isEmpty then pure {} else process h kept

/-- The branch of `execute_pending_tools` without deferrable calls. -/
def runImmediateBatch (h : Host) (calls kept : List ToolCall) (blocked : Receipts) :
    Session Unit := do
  let proc ← processKept h kept
  answerBatch h (orderedToolResults calls (proc.results ++ blocked)) proc

/-- The branch of `execute_pending_tools` with deferrable calls. -/
def runDeferredBatch (h : Host) (calls kept : List ToolCall) (blocked : Receipts) :
    Session Unit := do
  forEach (bufferCompletedRow calls) blocked
  executeMixed h calls false kept
  foldSignals h
  clearGate
  let w ← read
  if w.state.pendingEvents.isComplete then drainBatch else suspendBatch

/-- `execute_pending_tools()`. -/
def executePendingTools (h : Host) : Session Unit := do
  let w ← read
  match w.runner.pendingStep with
  | none =>
      modifyState (·.fail "error")
      raise (.plain "Cannot execute tools before calling LLM")
  | some response =>
      let calls := response.toolCalls
      let errors := preflightToolBatch h w.runner.tools calls
      if anyError errors then
        answerBatch h (preflightRejection calls errors) {}
      else
        let (kept, blocked) := applyPendingToolAllowlist w.runner calls
        modifyRunner fun r => { r with
          requiredToolRetried := r.requiredToolRetried && kept.isEmpty }
        if kept.all fun tc => !h.isDeferred tc.name then runImmediateBatch h calls kept blocked
        else runDeferredBatch h calls kept blocked

/-! ## immediate tools -/

variable {h : Host} {w : World} {r : Response}

/-- The exceptions a tool batch can end with. -/
def ofTools : Exn → Bool
  | .crash | .cancelled | .failure _ | .pendingRowError _ => true
  | _ => false

theorem ofTools_of_awaited {e : Exn} (he : e.isAwaited = true) : ofTools e = true := by
  cases e <;> simp_all [ofTools, Exn.isAwaited]

theorem ofTools_legal {e : Exn} (he : ofTools e = true) :
    e.isPhaseError = false ∧ e ≠ .runCancelled := by
  cases e <;> simp_all [ofTools, Exn.isPhaseError]

theorem await_tools_spec :
    Follows (Awaits h) (await h) w (fun _ _ => True) (fun e _ => ofTools e = true) := by
  exact .within (await_spec.mono (fun _ _ _ hq => ⟨hq, trivial⟩)
    (fun _ _ _ he => ⟨he.1, ofTools_of_awaited he.2⟩))

theorem emit_tools_spec :
    Follows (Awaits h) (emit h) w (fun _ _ => True) (fun e _ => ofTools e = true) := by
  exact .within (emit_spec.mono (fun _ _ _ hq => ⟨hq, trivial⟩)
    (fun _ _ _ he => ⟨he.1, ofTools_of_awaited he.2.1⟩))

theorem consult_tools_spec :
    Follows (Awaits h) (consult h) w (fun _ _ => True) (fun e _ => ofTools e = true) :=
  ⟨.same rfl, trivial⟩

/-- A change of fields the machine does not have. -/
theorem change_tools_spec {g : World → World} (hg : (g w).machine = w.machine) :
    Follows (Awaits h) (change g) w (fun _ _ => True) (fun e _ => ofTools e = true) :=
  .change (.same hg) trivial

theorem checkpointReservation_spec (due : Bool) (results : Receipts) :
    Follows (Awaits h) (checkpointReservation h due results) w (fun _ _ => True)
      (fun e _ => ofTools e = true) := by
  unfold checkpointReservation
  split
  · refine .bind (change_tools_spec rfl) fun _ _ _ _ => ?_
    exact .bind await_tools_spec fun _ _ _ _ => .pure trivial
  · exact .pure trivial

/-- Every call of the list is answered once, whatever the tools do. -/
theorem processCalls_spec (calls : List ToolCall) (proc : ProcResult) (w : World) :
    Follows (Awaits h) (processCalls h calls proc) w
      (fun p _ => p.results.map Prod.fst = proc.results.map Prod.fst ++ calls.map ToolCall.id)
      (fun e _ => ofTools e = true) := by
  induction calls generalizing proc w with
  | nil => exact .pure (by simp)
  | cons tc rest ih =>
      unfold processCalls
      refine .bind consult_tools_spec fun a w₁ _ _ => ?_
      split
      · refine .bind emit_tools_spec fun _ _ _ _ => ?_
        refine .bind (change_tools_spec rfl) fun _ w₂ _ _ => ?_
        exact (ih _ w₂).mono (fun p _ _ hids => by simpa using hids) (fun _ _ _ he => he)
      · refine .bind (checkpointReservation_spec _ _) fun _ _ _ _ => ?_
        refine .bind await_tools_spec fun b _ _ _ => ?_
        dsimp only
        refine .bind (change_tools_spec rfl) fun _ _ _ _ => ?_
        refine .bind (change_tools_spec rfl) fun _ _ _ _ => ?_
        refine .bind emit_tools_spec fun _ w₂ _ _ => ?_
        split
        · exact .pure (by simp [Function.comp_def])
        · exact (ih _ w₂).mono (fun p _ _ hids => by simpa using hids) (fun _ _ _ he => he)

/-- A refused batch is answered call by call. -/
theorem preflightRejection_ids (calls : List ToolCall) (errors : List String) :
    (preflightRejection calls errors).map Prod.fst = calls.map ToolCall.id := by
  have h := congrArg (List.map ToolCall.id) (List.zipIdx_map_fst 0 calls)
  rw [List.map_map] at h
  rw [preflightRejection, List.map_map]
  exact h

theorem process_spec (calls : List ToolCall) :
    Follows (Awaits h) (process h calls) w
      (fun p _ => p.results.map Prod.fst = calls.map ToolCall.id)
      (fun e _ => ofTools e = true) := by
  unfold process
  refine .readThen ?_
  dsimp only
  split
  · exact .pure (preflightRejection_ids _ _)
  · refine .bind (change_tools_spec rfl) fun _ w₁ _ _ => ?_
    exact (processCalls_spec calls {} w₁).mono (fun _ _ _ hids => by simpa using hids)
      (fun _ _ _ he => he)

theorem foldSignals_spec :
    Follows (Awaits h) (foldSignals h) w (fun _ _ => True) (fun e _ => ofTools e = true) :=
  .bind consult_tools_spec fun _ _ _ _ => change_tools_spec rfl

/-! ## deferred tools -/

/-- The table may have new rows; nothing else changed. -/
def Rowed (w w' : World) : Prop :=
  ∃ table, (∀ id ∈ w.machine.table.ids, id ∈ table.ids) ∧ w'.machine = { w.machine with table }

/-- Moves that only add, fill and settle rows. -/
def Rows (h : Host) (w w' : World) : Prop := Reaches h w w' ∧ Rowed w w'

theorem Rowed.trans {w' w'' : World} (h₁ : Rowed w w') (h₂ : Rowed w' w'') : Rowed w w'' := by
  obtain ⟨t, ht, hm⟩ := h₁
  obtain ⟨t', ht', hm'⟩ := h₂
  rw [hm] at hm' ht'
  exact ⟨t', fun id hid => ht' id (ht id hid), hm'⟩

instance instIsPreorderRows : IsPreorder World (Rows h) where
  refl := fun w => ⟨refl_of (Reaches h) w, _, fun _ hid => hid, rfl⟩
  trans := fun _ _ _ h₁ h₂ => ⟨trans_of (Reaches h) h₁.1 h₂.1, h₁.2.trans h₂.2⟩

theorem Awaits.rows {w' : World} (hd : Awaits h w w') : Rows h w w' := by
  obtain ⟨hr, table, ht, hm⟩ := hd
  exact ⟨hr, table, fun id hid => ht ▸ hid, hm⟩

theorem Rows.executes {w' : World} (hd : Rows h w w') (hr : w.machine.Executes r) :
    w'.machine.Executes r := by
  obtain ⟨_, _, _, hm⟩ := hd
  rw [hm]
  exact hr

theorem Rows.ids {w' : World} (hd : Rows h w w') {id : String} (hid : id ∈ w.machine.table.ids) :
    id ∈ w'.machine.table.ids := by
  obtain ⟨_, _, ht, hm⟩ := hd
  rw [hm]
  exact ht id hid

theorem addRow_spec (hr : w.machine.Executes r) {row : PendingRow}
    (hi : row.toolCallId ∈ r.toolCalls.map ToolCall.id)
    (ho : row.order = callOrder r.toolCalls row.toolCallId) :
    Follows (Rows h) (addRow row) w (fun _ w' => row.toolCallId ∈ w'.machine.table.ids)
      (fun e _ => ofTools e = true) := by
  unfold addRow
  refine .readThen ?_
  split
  · exact .raise rfl
  · rename_i table hadd
    obtain ⟨hids, -⟩ := PendingEventTable.ids_add hadd
    refine .change ⟨.step (.addRow r hr row table hi ho hadd), table, ?_, rfl⟩ ?_
    · intro id hid
      rw [hids]
      exact List.mem_append_left _ hid
    · show row.toolCallId ∈ table.ids
      simp [hids]

theorem updateRow_spec (hr : w.machine.Executes r) (id : String) {f : PendingRow → PendingRow}
    (hf : ∀ row, (f row).order = row.order) :
    Follows (Rows h) (updateRow id f) w (fun _ _ => True) (fun e _ => ofTools e = true) := by
  refine .change ⟨.step (.settleRow r hr id f hf), w.machine.table.update id f, ?_, rfl⟩ trivial
  intro id' hid
  rw [PendingEventTable.ids_update]
  exact hid

theorem recordDeferredResult_spec (hr : w.machine.Executes r) (id : String)
    (outcome : DeferredOutcome) :
    Follows (Rows h) (recordDeferredResult id outcome) w (fun _ _ => True)
      (fun e _ => ofTools e = true) := by
  unfold recordDeferredResult
  refine .readThen ?_
  split
  · exact .raise rfl
  · exact updateRow_spec hr id fun _ => rfl
  · split
    · exact updateRow_spec hr id fun _ => rfl
    · exact .pure trivial

theorem settleCancelledDeferredRow_spec (hr : w.machine.Executes r) (id : String) :
    Follows (Rows h) (settleCancelledDeferredRow id) w (fun _ _ => True)
      (fun e _ => ofTools e = true) := by
  unfold settleCancelledDeferredRow
  refine .readThen ?_
  split
  · exact .pure trivial
  split
  · exact updateRow_spec hr id fun _ => rfl
  split
  · exact .pure trivial
  split
  · exact recordDeferredResult_spec hr id _
  · exact updateRow_spec hr id fun _ => rfl

theorem ofTools_toExn (fault : Fault) : ofTools fault.toExn = true := by
  cases fault <;> rfl

theorem executeDeferred_spec :
    Follows (Awaits h) (executeDeferred h) w (fun _ _ => True) (fun e _ => ofTools e = true) := by
  unfold executeDeferred
  refine .bind (change_tools_spec rfl) fun _ _ _ _ => ?_
  refine .readThen ?_
  split
  · exact .pure trivial
  refine .bind consult_tools_spec fun a _ _ _ => ?_
  split
  · exact .pure trivial
  refine .bind emit_tools_spec fun _ _ _ _ => ?_
  refine .bind (Q := fun _ _ => True)
    (.within (settle_spec.mono (fun _ _ _ hq => ⟨hq, trivial⟩) fun _ _ _ hf => hf.elim)) ?_
  intro b _ _ _
  refine .bind (.raiseIf (Q := fun _ _ => True) (fun _ => rfl) fun _ => trivial) fun _ _ _ _ => ?_
  refine .bind (change_tools_spec rfl) fun _ _ _ _ => ?_
  refine .bind emit_tools_spec fun _ _ _ _ => ?_
  split
  · exact .pure trivial
  · exact .raise (ofTools_toExn _)

/-- **A deferred call** has a row however its execution ends. -/
theorem executeDeferredTool_spec (hr : w.machine.Executes r) {tc : ToolCall}
    (hi : tc ∈ r.toolCalls) :
    Follows (Rows h) (executeDeferredTool h r.toolCalls tc) w
      (fun _ w' => tc.id ∈ w'.machine.table.ids) (fun e _ => ofTools e = true) := by
  unfold executeDeferredTool
  refine .bind (addRow_spec hr (List.mem_map_of_mem hi) rfl) ?_
  intro _ w₁ hd₁ hid
  refine .bind (Q := fun _ w' => tc.id ∈ w'.machine.table.ids) ?_ ?_
  · have hrun : Follows (Rows h) (executeDeferred h) w₁ (fun _ w' => tc.id ∈ w'.machine.table.ids)
        (fun e _ => ofTools e = true) :=
      (executeDeferred_spec.coarsen fun _ => Awaits.rows).mono (fun _ _ hd _ => hd.ids hid)
        (fun _ _ _ he => he)
    refine .handle hrun ?_
    intro e w₂ hd₂ he
    split
    · exact .bind (settleCancelledDeferredRow_spec (hd₂.executes (hd₁.executes hr)) _)
        fun _ _ _ _ => .raise rfl
    · exact .raise he
  · intro outcome w₂ hd₂ hid₂
    exact (recordDeferredResult_spec (hd₂.executes (hd₁.executes hr)) _ _).mono
      (fun _ _ hd _ => hd.ids hid₂) (fun _ _ _ he => he)

theorem bufferCompletedRow_spec (hr : w.machine.Executes r) {receipt : String × String}
    (hi : receipt.1 ∈ r.toolCalls.map ToolCall.id) :
    Follows (Rows h) (bufferCompletedRow r.toolCalls receipt) w
      (fun _ w' => receipt.1 ∈ w'.machine.table.ids) (fun e _ => ofTools e = true) := by
  unfold bufferCompletedRow
  refine .readThen ?_
  dsimp only
  split
  · rename_i hprev
    refine .pure ?_
    obtain ⟨row, hrow, -⟩ := (Option.any_eq_true _ _).mp hprev
    exact PendingEventTable.mem_ids_of_get? hrow
  · exact addRow_spec hr hi rfl

/-- Buffering a group of results gives each of them a row. -/
theorem bufferCompletedRows_spec (hr : w.machine.Executes r) (receipts : Receipts)
    (hi : ∀ receipt ∈ receipts, receipt.1 ∈ r.toolCalls.map ToolCall.id) :
    Follows (Rows h) (forEach (bufferCompletedRow r.toolCalls) receipts) w
      (fun _ w' => ∀ receipt ∈ receipts, receipt.1 ∈ w'.machine.table.ids)
      (fun e _ => ofTools e = true) := by
  refine (Follows.forEach (I := fun done w' => w'.machine.Executes r ∧
    ∀ receipt ∈ done, receipt.1 ∈ w'.machine.table.ids) receipts ?_ ⟨hr, by simp⟩).mono
      (fun _ _ _ hq => hq.2) (fun _ _ _ he => he)
  · rintro done receipt rest w₁ hrs ⟨hr₁, hdone⟩
    have hmem : receipt ∈ receipts := hrs ▸ List.mem_append_right _ List.mem_cons_self
    refine (bufferCompletedRow_spec hr₁ (hi receipt hmem)).mono ?_ fun _ _ _ he => he
    intro _ w₂ hd hid
    refine ⟨hd.executes hr₁, fun x hx => ?_⟩
    obtain hx | hx := List.mem_append.mp hx
    · exact hd.ids (hdone x hx)
    · exact List.mem_singleton.mp hx ▸ hid

/-- **A mixed batch.** Every call has a row when all were gone through. -/
theorem executeMixed_spec (skip : Bool) (calls : List ToolCall) (hr : w.machine.Executes r)
    (hi : ∀ tc ∈ calls, tc ∈ r.toolCalls) :
    Follows (Rows h) (executeMixed h r.toolCalls skip calls) w
      (fun _ w' => ∀ tc ∈ calls, tc.id ∈ w'.machine.table.ids) (fun e _ => ofTools e = true) := by
  induction calls generalizing skip w with
  | nil => cases skip <;> exact .pure (by simp)
  | cons tc rest ih =>
      have hmem : tc ∈ r.toolCalls := hi tc List.mem_cons_self
      have hrest : ∀ c ∈ rest, c ∈ r.toolCalls := fun c hc => hi c (List.mem_cons_of_mem _ hc)
      have hnext : ∀ (skip : Bool) {w₁ : World}, w₁.machine.Executes r →
          tc.id ∈ w₁.machine.table.ids →
          Follows (Rows h) (executeMixed h r.toolCalls skip rest) w₁
            (fun _ w' => ∀ c ∈ tc :: rest, c.id ∈ w'.machine.table.ids)
            (fun e _ => ofTools e = true) := by
        intro skip w₁ hr₁ hid
        refine (ih skip hr₁ hrest).mono ?_ fun _ _ _ he => he
        intro _ w₂ hd hids c hc
        obtain rfl | hc := List.mem_cons.mp hc
        · exact hd.ids hid
        · exact hids c hc
      cases skip with
      | true =>
          refine .bind (bufferCompletedRow_spec hr (List.mem_map_of_mem hmem)) ?_
          exact fun _ w₁ hd hid => hnext true (hd.executes hr) hid
      | false =>
          unfold executeMixed
          split
          · refine .bind (executeDeferredTool_spec hr hmem) ?_
            exact fun _ w₁ hd hid => hnext false (hd.executes hr) hid
          · refine .bind ((process_spec [tc]).coarsen fun _ => Awaits.rows) ?_
            intro proc w₁ hd₁ hids
            refine .bind (foldSignals_spec.coarsen fun _ => Awaits.rows) ?_
            intro _ w₂ hd₂ _
            have hr₂ := hd₂.executes (hd₁.executes hr)
            have hproc : ∀ receipt ∈ proc.results, receipt.1 = tc.id := by
              intro receipt hx
              simpa [hids] using List.mem_map_of_mem (f := Prod.fst) hx
            refine .bind (bufferCompletedRows_spec hr₂ proc.results
              fun receipt hx => hproc receipt hx ▸ List.mem_map_of_mem hmem) ?_
            intro _ w₃ hd₃ hrows
            have hid : tc.id ∈ w₃.machine.table.ids := by
              have hx : tc.id ∈ proc.results.map Prod.fst := by simp [hids]
              obtain ⟨receipt, hx, heq⟩ := List.mem_map.mp hx
              exact heq ▸ hrows receipt hx
            refine .bind ((change_tools_spec rfl).coarsen fun _ => Awaits.rows) ?_
            intro _ w₄ hd₄ _
            exact hnext _ (hd₄.executes (hd₃.executes hr₂)) (hd₄.ids hid)

/-! ## the batch -/

/-- A batch that has been answered or suspended. -/
def BatchEnds (w : World) : Prop :=
  w.machine.phase = .autosaving ∨ w.machine.phase = .awaitingEvents

/-- The answers go to the history with the move to AUTOSAVING. -/
theorem answerBatch_spec (hr : w.machine.Executes r) (ht : w.machine.table.isEmpty = true)
    {answers : Receipts} (proc : ProcResult)
    (hi : answers.map Prod.fst = r.toolCalls.map ToolCall.id) :
    Follows (Reaches h) (answerBatch h answers proc) w (fun _ w' => BatchEnds w')
      (fun e _ => ofTools e = true) := by
  have hsettle : ∀ {w₁ w₂ : World}, w₁.machine.Executes r ∧ w₁.machine.table.isEmpty = true →
      Awaits h w₁ w₂ → w₂.machine.Executes r ∧ w₂.machine.table.isEmpty = true :=
    fun hr₁ hd => ⟨(Awaits.rows hd).executes hr₁.1, hd.2.isEmpty hr₁.2⟩
  unfold answerBatch
  refine .bind ((foldSignals_spec.keep fun _ hd => hd.1).mono
    (fun _ _ _ hq => hsettle ⟨hr, ht⟩ hq.1) (fun _ _ _ he => he.2)) ?_
  intro _ w₁ _ hr₁
  refine .bind (((change_tools_spec rfl).keep fun _ hd => hd.1).mono
    (fun _ _ _ hq => hsettle hr₁ hq.1) (fun _ _ _ he => he.2)) ?_
  intro _ w₂ _ hr₂
  refine .bind (((change_tools_spec rfl).keep fun _ hd => hd.1).mono
    (fun _ _ _ hq => hsettle hr₂ hq.1) (fun _ _ _ he => he.2)) ?_
  rintro _ w₃ - ⟨hr₃, ht₃⟩
  let w₄ := w₃.setState fun s => { s with messages := s.messages ++ answers.messages }
  have hp : SessionPhase.autosaving ∈ w₄.state.phase.transitions := by
    rw [show w₄.state.phase = .executingTools from hr₃.1]
    decide
  obtain ⟨w₅, hrun, hm, -⟩ := transitionTo_run none hp
  refine .run ((run_bind (run_change _)).trans hrun) (.step ?_) (.inl ?_)
  · rw [hm]
    refine .answer r hr₃ ht₃ answers.messages ?_ ?_
    · intro msg hmsg
      obtain ⟨receipt, -, rfl⟩ := List.mem_map.mp hmsg
      exact ⟨receipt.1, receipt.2, rfl⟩
    · have h := congrArg (List.map some) hi
      simpa [Receipts.messages, List.map_map, Function.comp_def] using h
  · rw [hm]
    rfl

theorem drainBatch_spec (hr : w.machine.Executes r)
    (hi : ∀ c ∈ r.toolCalls, c.id ∈ w.machine.table.ids)
    (hc : w.machine.table.isComplete = true) {E : Exn → World → Prop} :
    Follows (Reaches h) drainBatch w (fun _ w' => BatchEnds w') E := by
  let w₁ := w.setState fun s => { s with
    messages := s.messages ++ s.pendingEvents.orderedResults
    pendingEvents := .empty }
  have hp : SessionPhase.autosaving ∈ w₁.state.phase.transitions := by
    rw [show w₁.state.phase = .executingTools from hr.1]
    decide
  obtain ⟨w₂, hrun, hm, -⟩ := transitionTo_run none hp
  refine .run ((run_bind (run_change _)).trans hrun) (.step ?_) (.inl ?_)
  · rw [hm]
    exact .drain r hr hi hc
  · rw [hm]
    rfl

theorem suspendBatch_spec (hr : w.machine.Executes r)
    (hi : ∀ c ∈ r.toolCalls, c.id ∈ w.machine.table.ids) {E : Exn → World → Prop} :
    Follows (Reaches h) suspendBatch w (fun _ w' => BatchEnds w') E := by
  let w₁ := w.setRunner fun r => { r with pendingStep := none }
  have hp : SessionPhase.awaitingEvents ∈ w₁.state.phase.transitions := by
    rw [show w₁.state.phase = .executingTools from hr.1]
    decide
  obtain ⟨w₂, hrun, hm, -⟩ := transitionTo_run none hp
  refine .run ((run_bind (run_change _)).trans hrun) (.step ?_) (.inr ?_)
  · rw [hm]
    exact .suspend r hr hi
  · rw [hm]
    rfl

theorem get?_of_mem_ids {receipts : Receipts} {id : String} (hid : id ∈ receipts.map Prod.fst) :
    ∃ content, receipts.get? id = some content := by
  rw [← Option.isSome_iff_exists, Receipts.get?, List.lookup_isSome_iff]
  obtain ⟨receipt, hx, rfl⟩ := List.mem_map.mp hid
  exact ⟨receipt, List.mem_reverse.mpr hx, by simp⟩

/-- The answers of all calls, put in call order, are one for each call. -/
theorem orderedToolResults_ids {calls : List ToolCall} {results : Receipts}
    (hi : ∀ c ∈ calls, c.id ∈ results.map Prod.fst) :
    (orderedToolResults calls results).map Prod.fst = calls.map ToolCall.id := by
  induction calls with
  | nil => rfl
  | cons c rest ih =>
      obtain ⟨content, hc⟩ := get?_of_mem_ids (hi c List.mem_cons_self)
      have hrest := ih fun c' hc' => hi c' (List.mem_cons_of_mem _ hc')
      rw [orderedToolResults] at hrest ⊢
      simp [hc, hrest]

/-- The gate splits a batch into the calls to run and the calls answered. -/
theorem applyPendingToolAllowlist_covers (runner : Runner) (calls : List ToolCall) :
    (∀ c ∈ (applyPendingToolAllowlist runner calls).1, c ∈ calls) ∧
    (∀ receipt ∈ (applyPendingToolAllowlist runner calls).2,
      receipt.1 ∈ calls.map ToolCall.id) ∧
    ∀ c ∈ calls, c ∈ (applyPendingToolAllowlist runner calls).1 ∨
      c.id ∈ (applyPendingToolAllowlist runner calls).2.map Prod.fst := by
  unfold applyPendingToolAllowlist
  split
  · exact ⟨fun _ hc => hc, fun _ hc => absurd hc List.not_mem_nil, fun _ hc => .inl hc⟩
  · rename_i allowed _
    refine ⟨fun c hc => List.mem_of_mem_filter hc, ?_, ?_⟩
    · intro receipt hx
      obtain ⟨c, hc, rfl⟩ := List.mem_map.mp hx
      exact List.mem_map_of_mem (List.mem_of_mem_filter hc)
    · intro c hc
      by_cases ha : c.name ∈ allowed
      · exact .inl (by simp [hc, ha])
      · refine .inr ?_
        rw [List.map_map]
        exact List.mem_map_of_mem (f := Prod.fst ∘ _) (List.mem_filter.mpr ⟨hc, by simpa using ha⟩)

theorem runImmediateBatch_spec (hr : w.machine.Executes r) (ht : w.machine.table.isEmpty = true)
    {kept : List ToolCall} {blocked : Receipts}
    (hi : ∀ c ∈ r.toolCalls, c ∈ kept ∨ c.id ∈ blocked.map Prod.fst) :
    Follows (Reaches h) (runImmediateBatch h r.toolCalls kept blocked) w (fun _ w' => BatchEnds w')
      (fun e _ => ofTools e = true) := by
  have hproc : Follows (Awaits h) (processKept h kept) w
      (fun p _ => p.results.map Prod.fst = kept.map ToolCall.id) (fun e _ => ofTools e = true) := by
    unfold processKept
    split
    · rename_i hk
      rw [List.isEmpty_iff] at hk
      exact .pure (by simp [hk])
    · exact process_spec kept
  unfold runImmediateBatch
  refine .bind ((hproc.keep fun _ hd => hd.1).mono (fun _ _ _ hq => hq)
    (fun _ _ _ he => he.2)) ?_
  rintro proc w₁ - ⟨hd, hids⟩
  refine answerBatch_spec ((Awaits.rows hd).executes hr) (hd.2.isEmpty ht) proc
    (orderedToolResults_ids fun c hc => ?_)
  rw [List.map_append, List.mem_append, hids]
  exact (hi c hc).imp_left List.mem_map_of_mem

theorem runDeferredBatch_spec (hr : w.machine.Executes r) {kept : List ToolCall}
    {blocked : Receipts} (hk : ∀ c ∈ kept, c ∈ r.toolCalls)
    (hb : ∀ receipt ∈ blocked, receipt.1 ∈ r.toolCalls.map ToolCall.id)
    (hi : ∀ c ∈ r.toolCalls, c ∈ kept ∨ c.id ∈ blocked.map Prod.fst) :
    Follows (Reaches h) (runDeferredBatch h r.toolCalls kept blocked) w (fun _ w' => BatchEnds w')
      (fun e _ => ofTools e = true) := by
  unfold runDeferredBatch
  refine .bind (((bufferCompletedRows_spec hr blocked hb).keep fun _ hd => hd.1).mono
    (fun _ _ _ hq => hq) (fun _ _ _ he => he.2)) ?_
  rintro _ w₁ - ⟨hd₁, hrows₁⟩
  have hr₁ := hd₁.executes hr
  refine .bind (((executeMixed_spec false kept hr₁ hk).keep fun _ hd => hd.1).mono
    (fun _ _ _ hq => hq) (fun _ _ _ he => he.2)) ?_
  rintro _ w₂ - ⟨hd₂, hrows₂⟩
  refine .bind ((foldSignals_spec.keep fun _ hd => hd.1).mono
    (fun _ _ _ hq => hq.1) (fun _ _ _ he => he.2)) ?_
  intro _ w₃ _ (hd₃ : Awaits h w₂ w₃)
  refine .bind (((change_tools_spec rfl).keep fun _ hd => hd.1).mono
    (fun _ _ _ hq => hq.1) (fun _ _ _ he => he.2)) ?_
  intro _ w₄ _ (hd₄ : Awaits h w₃ w₄)
  have hr₄ := (Awaits.rows hd₄).executes ((Awaits.rows hd₃).executes (hd₂.executes hr₁))
  have hall : ∀ c ∈ r.toolCalls, c.id ∈ w₄.machine.table.ids := by
    intro c hc
    refine (Awaits.rows hd₄).ids ((Awaits.rows hd₃).ids ?_)
    obtain hkept | hblocked := hi c hc
    · exact hrows₂ c hkept
    · obtain ⟨receipt, hx, heq⟩ := List.mem_map.mp hblocked
      exact hd₂.ids (heq ▸ hrows₁ receipt hx)
  refine .readThen ?_
  split
  · exact drainBatch_spec hr₄ hall ‹_›
  · exact suspendBatch_spec hr₄ hall

/-- **A tool batch** is answered as a whole, or every one of its calls has a row
when the session suspends. -/
theorem executePendingTools_spec (hr : w.machine.Executes r) (ht : w.machine.table.isEmpty = true) :
    Follows (Reaches h) (executePendingTools h) w (fun _ w' => BatchEnds w')
      (fun e _ => ofTools e = true) := by
  unfold executePendingTools
  refine .readThen ?_
  split
  · rename_i hnone
    exact absurd (hnone.symm.trans hr.2) (by simp)
  rename_i response hresp
  obtain rfl : response = r := Option.some.inj (hresp.symm.trans hr.2)
  dsimp only
  split
  · exact answerBatch_spec hr ht {} (preflightRejection_ids _ _)
  obtain ⟨hk, hb, hi⟩ := applyPendingToolAllowlist_covers w.runner response.toolCalls
  refine .bind (.change (Q := fun _ w' => w'.machine.Executes response ∧
    w'.machine.table.isEmpty = true) (.same rfl) ⟨hr, ht⟩) ?_
  rintro _ w₁ - ⟨hr₁, ht₁⟩
  split
  · exact runImmediateBatch_spec hr₁ ht₁ hi
  · exact runDeferredBatch_spec hr₁ hk hb hi

end Session

end OpenCollab
