import OpenCollab.Session.History

/-!
# OpenCollab.Session.Protocol

The session driver as an abstract transition system.  A `Machine` is what a
`World` is about once times, traces and host bookkeeping are forgotten: the
history, the pending rows, the phase, the counters and latches, and the events
emitted so far.  `Step` lists everything that can happen to it between two
awaits, each move with the guard the code establishes before it.

The driver's functions are proved to follow it (`Reaches` is the preorder their
specifications use), so a property of every session run is an invariant of
`Step`, established once per move.
-/

namespace OpenCollab

open Lib

/-! ## machines -/

structure Machine where
  messages : List Message
  table : PendingEventTable
  queued : Option QueuedTurn
  phase : SessionPhase
  response : Option Response
  used : Nat
  soft : Option Nat
  steps : Nat
  started : Bool
  windDownDone : Bool
  attempts : Nat
  consumed : Bool
  draining : List Bool
  events : List Event
deriving DecidableEq, Inhabited

/-- The abstract view of a world. -/
def World.machine (w : World) : Machine where
  messages := w.state.messages
  table := w.state.pendingEvents
  queued := w.state.pendingExternalUserTurn
  phase := w.state.phase
  response := w.runner.pendingStep
  used := w.state.usedTokens
  soft := w.runner.maxBudgetTokens
  steps := w.state.stepCount
  started := w.runner.llmStepStarted
  windDownDone := w.state.windDownDone
  attempts := w.state.windDownAttempts
  consumed := w.state.budgetReserveConsumed
  draining := w.runner.draining
  events := w.events

/-! ## guards -/

/-- A message with a text that is neither a call nor a tool result. -/
def Message.spoken (role : Role) (text : String) (placeholder : Bool := false) : Message :=
  { Message.ofText role text with placeholder }

/-- The latest admission has not been used: the phase entered CALLING_LLM (or
the run began there), and since then no model step was recorded and no call
left behind. -/
def admitted : List Event → Bool
  | [] => false
  | .edge _ dst :: _ => dst = .callingLlm
  | .runStarted phase :: _ => phase = .callingLlm
  | .modelStep _ :: _ | .abandoned :: _ => false
  | _ :: rest => admitted rest

/-- `used_tokens >= max_budget_tokens - commit_reserve`. -/
def reserveReached (h : Host) (soft : Option Nat) (used : Nat) : Bool :=
  match soft with
  | none => false
  | some budget => decide ((budget : Int) - h.commitReserve ≤ used)

/-- The least of the finite allowances. -/
def ceiling : Option Nat → Option Nat → Option Nat
  | some soft, some hard => some (min soft hard)
  | some soft, none => some soft
  | none, hard => hard

/-- The hard allowance counts when the session has a run control. -/
def Host.activeHard (h : Host) : Option Nat := if h.hasRunControl then h.hardBudgetTokens else none

namespace Admission

/-- `remaining_budget_tokens` at the admission. -/
def remaining (t : Admission) : Option Int :=
  (ceiling t.soft t.hard).map fun (c : Nat) => (c : Int) - t.used - t.reservations

/-- The terms `_request_output_limit` grants: between the provider's floor and
both the configured limit and what is left. -/
structure Granted (h : Host) (used : Nat) (soft : Option Nat) (t : Admission) : Prop where
  used : t.used = used
  soft : t.soft = soft
  hard : t.hard = h.activeHard
  minimum : t.minimum = h.minimumOutput t.purpose
  configured : t.limit ≤ h.configuredOutput
  left : ∀ r, t.remaining = some r → t.limit ≤ r - t.reservedInput
  floor : (t.minimum : Int) ≤ t.limit

/-- The terms a request is sent on: the limit of a summary is cut to its window. -/
structure Fair (h : Host) (used : Nat) (soft : Option Nat) (t : Admission) : Prop where
  used : t.used = used
  soft : t.soft = soft
  hard : t.hard = h.activeHard
  minimum : t.minimum = h.minimumOutput t.purpose
  configured : t.limit ≤ h.configuredOutput
  left : ∀ r, t.remaining = some r → t.limit ≤ r - t.reservedInput
  floor : (t.minimum : Int) ≤ t.limit ∨
    t.purpose = .summary ∧ h.windowCap t.messages = some t.limit
  window : t.purpose = .summary → ∀ cap, h.windowCap t.messages = some cap → t.limit ≤ cap

/-- Where no window is looked at, what is granted is fair. -/
theorem Granted.fair {h : Host} {used : Nat} {soft : Option Nat} {t : Admission}
    (ht : t.Granted h used soft)
    (hwindow : t.purpose = .completion ∨ h.windowCap t.messages = none) : t.Fair h used soft := by
  refine ⟨ht.used, ht.soft, ht.hard, ht.minimum, ht.configured, ht.left, .inl ht.floor, ?_⟩
  intro hpurpose cap hcap
  rcases hwindow with hcompletion | hnone
  · rw [hcompletion] at hpurpose
    contradiction
  · rw [hnone] at hcap
    contradiction

end Admission

/-- A response the provider gives at some await. -/
def Host.Provides (h : Host) (r : Response) : Prop := ∃ n, (h.answers n).response = r

/-- A budget decision the policy check accepts. -/
def RaisesBudget (h : Host) (m : Machine) (soft : Option Nat) : Prop :=
  match m.soft, soft with
  | none, none => True
  | some a, some b => a ≤ b ∧ (a ≠ b → m.used ≤ b) ∧ ∀ hard ∈ h.hardBudgetTokens, b ≤ hard
  | _, _ => False

namespace Machine

/-- The history holds no unanswered batch of the current step. -/
def Quiet (m : Machine) : Prop :=
  m.phase = .precheck ∨ m.phase = .callingLlm ∨ m.phase = .autosaving ∨
    (m.phase = .handlingResponse ∧ ∀ r ∈ m.response, storedCalls r = [])

/-- The batch being executed. -/
def Executes (m : Machine) (r : Response) : Prop :=
  m.phase = .executingTools ∧ m.response = some r

/-- CALLING_LLM with its admission still to be used or its step recorded, and no
call left behind. -/
structure InCall (m : Machine) : Prop where
  phase : m.phase = .callingLlm
  unused : m.started = false → admitted m.events = true
  alone : m.draining = []

/-- Take a run-loop edge. -/
def go (m : Machine) (dst : SessionPhase) : Machine :=
  { m with phase := dst, events := .edge m.phase dst :: m.events }

def say (m : Machine) (msg : Message) : Machine := { m with messages := m.messages ++ [msg] }

/-- `consume_queued_external_user_turn`. -/
def deliverQueued (m : Machine) : Machine :=
  match m.queued with
  | none => m
  | some q =>
      if q.messageIndex.isSome then { m with queued := none }
      else { m.say (.ofText .user q.content) with queued := none }

/-- The complete table as one block of tool results. -/
def drainTable (m : Machine) : Machine :=
  { m with messages := m.messages ++ m.table.orderedResults, table := .empty }

/-- Account `total` tokens of a call that ended now. -/
def charge (h : Host) (m : Machine) (isProtected : Bool) (total : Nat) : Machine :=
  { m with
    used := m.used + total
    consumed := m.consumed || (isProtected && reserveReached h m.soft (m.used + total))
    events := .callEnded isProtected (m.used + total) m.soft :: m.events }

/-- Put the closed transcript back. -/
def close (m : Machine) (content : String) (exclude : Option (List String)) (receipts : Receipts) :
    Machine :=
  let t := (closeOpenCalls content exclude receipts ⟨m.messages, m.table⟩).1
  { m with messages := t.messages, table := t.pendingEvents }

end Machine

/-! ## moves -/

open Machine in
/-- One move of the driver or of its environment. -/
inductive Step (h : Host) (m : Machine) : Machine → Prop where
  /-- Children complete: their rows are filled. -/
  | fills (fs : List Fill) : Step h m { m with table := fs.foldl World.applyFill m.table }
  /-- A turn with unfilled rows of an interrupted batch waits for them first. -/
  | wake (hp : m.phase = .idle ∨ m.phase.isTerminal = true) (ht : m.table.isEmpty = false) :
      Step h m { m with phase := .awaitingEvents }
  | restart (hp : m.phase.isTerminal = true) (ht : m.table.isEmpty = true) :
      Step h m { m with phase := .idle }
  | deliver (hp : m.phase = .idle) (ht : m.table.isEmpty = true) : Step h m m.deliverQueued
  | resume (hp : m.phase = .awaitingEvents) (ht : m.table.isComplete = true)
      (hd : m.draining = []) :
      Step h m (m.drainTable.deliverQueued.go .autosaving)
  | begin (hp : m.phase = .idle) (ht : m.table.isEmpty = true) (hd : m.draining = []) :
      Step h m (m.go .precheck)
  | say (role : Role) (text : String) (placeholder : Bool) (hr : role ≠ .tool) (hq : m.Quiet) :
      Step h m (m.say (.spoken role text placeholder))
  | stop (hp : m.phase = .precheck ∨ m.phase = .callingLlm) : Step h m (m.go .stopped)
  | raiseBudget (soft : Option Nat) (hs : RaisesBudget h m soft) : Step h m { m with soft }
  /-- The step check passed. -/
  | passCheck (hp : m.phase = .precheck) (hw : (h.enforcementOn && m.windDownDone) = false)
      (hs : ∀ n ∈ h.maxSteps, (m.steps : Int) < n) : Step h m (m.go .callingLlm)
  /-- The one compatibility retry of a wind-down. -/
  | retry (hp : m.phase = .precheck) (he : h.enforcementOn = true) (hw : m.windDownDone = true)
      (ha : m.attempts < 2) (text : String) :
      Step h m (({ m with attempts := m.attempts + 1 }.say (.ofText .system text)).go .callingLlm)
  /-- The reserve is allocated and the run ends before the wind-down begins. -/
  | reserve : Step h m { m with consumed := true }
  | enterWindDown (hp : m.phase = .precheck) (he : h.enforcementOn = true)
      (hw : m.windDownDone = false) (ht : m.table.isEmpty = true)
      (hc : reserveReached h m.soft m.used = true → m.consumed = false)
      (fs : List Fill) (text : String) :
      Step h m (({ m with
        table := fs.foldl World.applyFill m.table
        windDownDone := true
        attempts := m.attempts + 1
        consumed := m.consumed || reserveReached h m.soft m.used
        events := .windDown m.used m.soft :: m.events }.say (.ofText .system text)).go .callingLlm)
  | resetStarted (hp : m.phase = .callingLlm) (ha : admitted m.events = true) :
      Step h m { m with started := false }
  | startStep (hp : m.phase = .callingLlm) (hs : m.started = false)
      (ha : admitted m.events = true) :
      Step h m { m with steps := m.steps + 1, events := .modelStep m.windDownDone :: m.events }
  | markStarted (hp : m.phase = .callingLlm) (ha : admitted m.events = false) :
      Step h m { m with started := true }
  /-- Steering is folded into the last user message. -/
  | fold (hp : m.phase = .callingLlm) (last : Message) (hl : m.messages.getLast? = some last)
      (hr : last.role = .user) (text : String) :
      Step h m { m with messages := m.messages.dropLast ++ [foldSteering last text] }
  | call (hp : m.phase = .callingLlm) (terms : Admission) (total : Nat) (ht : terms.Fair h m.used m.soft) :
      Step h m { m with events := .call terms total :: m.events }
  /-- The usage of the call just made is charged. -/
  | charge (hp : m.phase = .callingLlm) (terms : Admission) (total : Nat) (rest : List Event)
      (he : m.events = .call terms total :: rest) (hu : m.used = terms.used) :
      Step h m (m.charge h m.windDownDone total)
  /-- The call ended without usage. -/
  | unreported (hp : m.phase = .callingLlm) :
      Step h m { m with events := .callEnded m.windDownDone m.used m.soft :: m.events }
  /-- The call is left running and the run ends. -/
  | abandon (hp : m.phase = .callingLlm) :
      Step h m { m with
        draining := m.draining ++ [m.windDownDone]
        events := .abandoned :: m.events }
  | respond (hp : m.phase = .callingLlm) (hd : m.draining = []) (r : Response)
      (hr : h.Provides r) :
      Step h m ({ m with
        messages := m.messages ++ (assistantMessage? r).toList
        response := some r }.go .handlingResponse)
  | clearResponse (hq : m.Quiet) : Step h m { m with response := none }
  | finish (hp : m.phase = .handlingResponse) (hq : m.Quiet) (dst : SessionPhase)
      (hd : dst = .done ∨ dst = .stopped ∨ dst = .autosaving) : Step h m (m.go dst)
  | route (hp : m.phase = .handlingResponse) (r : Response) (hr : m.response = some r)
      (hc : storedCalls r ≠ []) : Step h m (m.go .executingTools)
  /-- The whole batch is answered at once. -/
  | answer (r : Response) (hr : m.Executes r) (ht : m.table.isEmpty = true) (ms : List Message)
      (hm : ∀ msg ∈ ms, ∃ id content, msg = .toolResult id content)
      (hi : ms.map Message.toolCallId = r.toolCalls.map fun c => some c.id) :
      Step h m ({ m with messages := m.messages ++ ms }.go .autosaving)
  | addRow (r : Response) (hr : m.Executes r) (row : PendingRow) (table : PendingEventTable)
      (hi : row.toolCallId ∈ r.toolCalls.map ToolCall.id)
      (ho : row.order = callOrder r.toolCalls row.toolCallId)
      (ha : m.table.add row = some table) : Step h m { m with table }
  | settleRow (r : Response) (hr : m.Executes r) (id : String) (f : PendingRow → PendingRow)
      (hf : ∀ row, (f row).order = row.order) : Step h m { m with table := m.table.update id f }
  | drain (r : Response) (hr : m.Executes r) (hi : ∀ c ∈ r.toolCalls, c.id ∈ m.table.ids)
      (hc : m.table.isComplete = true) : Step h m (m.drainTable.go .autosaving)
  | suspend (r : Response) (hr : m.Executes r) (hi : ∀ c ∈ r.toolCalls, c.id ∈ m.table.ids) :
      Step h m ({ m with response := none }.go .awaitingEvents)
  | saved (hp : m.phase = .autosaving) (dst : SessionPhase)
      (hd : dst = .precheck ∨ dst = .done) : Step h m (m.go dst)
  /-- The run ends by an exception: the phase is settled and the open calls are
  closed; the ids that have a row keep it. -/
  | abort (phase : SessionPhase)
      (hp : phase = .stopped ∨ phase = .error ∨ phase = m.phase ∧ m.phase.Rests)
      (content : String) (receipts : Receipts) :
      Step h m ({ m with phase }.close content (some m.table.ids) receipts)

namespace Machine

/-- A call is left behind only where its run can do nothing but end. -/
def Calm (m : Machine) : Prop :=
  m.phase ∈ [.precheck, .handlingResponse, .executingTools, .autosaving] ∨
    m.phase = .callingLlm ∧ admitted m.events = true → m.draining = []

/-- Rows exist only while a batch is executed, waits, or was interrupted. -/
def Unrowed (m : Machine) : Prop :=
  m.phase ∈ [.precheck, .callingLlm, .handlingResponse, .autosaving] → m.table.isEmpty = true

theorem deliverQueued_eq (m : Machine) :
    m.deliverQueued.phase = m.phase ∧ m.deliverQueued.table = m.table ∧
      m.deliverQueued.draining = m.draining := by
  unfold Machine.deliverQueued
  split
  · exact ⟨rfl, rfl, rfl⟩
  · split <;> exact ⟨rfl, rfl, rfl⟩

/-- A phase that calm says nothing about. -/
theorem Calm.of_phase {m : Machine} {p : SessionPhase} (hp : m.phase = p)
    (hn : p ∉ [.callingLlm, .precheck, .handlingResponse, .executingTools, .autosaving]) :
    m.Calm := by
  subst hp
  rw [List.mem_cons, not_or] at hn
  rintro (h | ⟨h, -⟩)
  · exact absurd h hn.2
  · exact absurd h hn.1

theorem calm_step {h : Host} {m m' : Machine} (hs : Step h m m') (ht : m.Calm) : m'.Calm := by
  have hcalm : ∀ {p : SessionPhase}, m.phase = p →
      p ∈ [.precheck, .handlingResponse, .executingTools, .autosaving] → m.draining = [] :=
    fun hp hmem => ht (.inl (hp ▸ hmem))
  cases hs with
  | begin _ _ hd | respond _ hd => exact fun _ => hd
  | resume _ _ hd => exact fun _ => m.drainTable.deliverQueued_eq.2.2.trans hd
  | wake => exact .of_phase (p := .awaitingEvents) rfl (by decide)
  | restart => exact .of_phase (p := .idle) rfl (by decide)
  | stop => exact .of_phase (p := .stopped) rfl (by decide)
  | deliver hp => exact .of_phase (m.deliverQueued_eq.1.trans hp) (by decide)
  | passCheck hp | retry hp | enterWindDown hp => exact fun _ => hcalm hp (by decide)
  | finish hp | route hp | saved hp => exact fun _ => hcalm hp (by decide)
  | answer _ hr | addRow _ hr | settleRow _ hr | drain _ hr | suspend _ hr =>
      exact fun _ => hcalm hr.1 (by decide)
  | startStep hp | abandon hp =>
      rintro (h | ⟨-, h⟩)
      · rw [show _ = SessionPhase.callingLlm from hp] at h
        contradiction
      · contradiction
  | fills | say | raiseBudget | reserve | resetStarted | markStarted | fold | clearResponse =>
      exact ht
  | call | charge | unreported => exact ht
  | abort phase hp =>
      obtain rfl | rfl | ⟨rfl, -⟩ := hp
      · exact .of_phase (p := .stopped) rfl (by decide)
      · exact .of_phase (p := .error) rfl (by decide)
      · exact ht

/-- Closing a history without rows adds none. -/
theorem close_isEmpty {m : Machine} (content : String) (exclude : Option (List String))
    (receipts : Receipts) (ht : m.table.isEmpty = true) :
    (m.close content exclude receipts).table.isEmpty = true :=
  closeOpenCalls_isEmpty content exclude receipts ⟨m.messages, m.table⟩ ht

theorem unrowed_step {h : Host} {m m' : Machine} (hs : Step h m m') (ht : m.Unrowed) :
    m'.Unrowed := by
  have hempty : ∀ {p : SessionPhase}, m.phase = p →
      p ∈ [.precheck, .callingLlm, .handlingResponse, .autosaving] → m.table.isEmpty = true :=
    fun hp hmem => ht (hp ▸ hmem)
  have hout : ∀ {m' : Machine} {p : SessionPhase}, m'.phase = p →
      p ∉ [.precheck, .callingLlm, .handlingResponse, .autosaving] → m'.Unrowed :=
    fun hp hn h => absurd (hp ▸ h) hn
  cases hs with
  | begin _ hte | answer _ _ hte => exact fun _ => hte
  | resume =>
      refine fun _ => ?_
      rw [go, m.drainTable.deliverQueued_eq.2.1]
      rfl
  | wake => exact hout (p := .awaitingEvents) rfl (by decide)
  | restart => exact hout (p := .idle) rfl (by decide)
  | stop => exact hout (p := .stopped) rfl (by decide)
  | deliver hp => exact hout (m.deliverQueued_eq.1.trans hp) (by decide)
  | route hp => exact hout (p := .executingTools) rfl (by decide)
  | addRow _ hr => exact hout (p := .executingTools) hr.1 (by decide)
  | settleRow _ hr => exact hout (p := .executingTools) hr.1 (by decide)
  | drain => exact fun _ => PendingEventTable.isEmpty_empty
  | suspend => exact hout (p := .awaitingEvents) rfl (by decide)
  | passCheck hp | retry hp | finish hp | saved hp | respond hp =>
      exact fun _ => hempty hp (by decide)
  | enterWindDown hp _ _ hte => exact fun _ => World.isEmpty_fills _ hte
  | fills => exact fun hp => World.isEmpty_fills _ (ht hp)
  | startStep | abandon | say | raiseBudget | reserve | resetStarted => exact ht
  | markStarted | fold | clearResponse | call | charge | unreported => exact ht
  | abort phase hp =>
      obtain rfl | rfl | ⟨rfl, -⟩ := hp
      · exact hout (p := .stopped) rfl (by decide)
      · exact hout (p := .error) rfl (by decide)
      · exact fun hp => close_isEmpty (m := m) _ _ _ (ht hp)

/-- What every move keeps of a driver between its phases. -/
structure Tidy (m : Machine) : Prop where
  calm : m.Calm
  unrowed : m.Unrowed

theorem tidy_step {h : Host} (m m' : Machine) (hs : Step h m m') (ht : m.Tidy) : m'.Tidy :=
  ⟨calm_step hs ht.calm, unrowed_step hs ht.unrowed⟩

end Machine

/-- The moves between two worlds. -/
def Reaches (h : Host) (w w' : World) : Prop :=
  Relation.ReflTransGen (Step h) w.machine w'.machine

instance instIsPreorderReaches (h : Host) : IsPreorder World (Reaches h) where
  refl := fun _ => .refl
  trans := fun _ _ _ => .trans

namespace Reaches

variable {h : Host} {w w' : World}

/-- A change of the world that the machine does not see. -/
theorem same (hm : w'.machine = w.machine) : Reaches h w w' := by
  rw [Reaches, hm]

theorem step (hs : Step h w.machine w'.machine) : Reaches h w w' := .single hs

theorem tidy (hr : Reaches h w w') (ht : w.machine.Tidy) : w'.machine.Tidy :=
  invariant_of_run Machine.tidy_step hr ht

end Reaches

/-! ## awaits

Whatever the environment does during an await, the machine sees rows being
filled and nothing else. -/

/-- An await passed. -/
def Waited (w w' : World) : Prop :=
  ∃ table, table.ids = w.machine.table.ids ∧ w'.machine = { w.machine with table }

theorem Waited.of_machine (hm : w'.machine = w.machine) : Waited w w' := ⟨_, rfl, hm⟩

theorem Waited.isEmpty (hd : Waited w w') (ht : w.machine.table.isEmpty = true) :
    w'.machine.table.isEmpty = true := by
  obtain ⟨table, hids, hm⟩ := hd
  rw [hm]
  refine PendingEventTable.isEmpty_of_ids ?_
  rw [hids, PendingEventTable.isEmpty_iff.mp ht, PendingEventTable.ids_empty]

theorem Waited.inCall (hd : Waited w w') (hw : w.machine.InCall) : w'.machine.InCall := by
  obtain ⟨_, _, hm⟩ := hd
  rw [hm]
  exact ⟨hw.phase, hw.unused, hw.alone⟩

theorem Waited.trans (h₁ : Waited w w') (h₂ : Waited w' w'') : Waited w w'' := by
  obtain ⟨t, ht, hm⟩ := h₁
  obtain ⟨t', ht', hm'⟩ := h₂
  rw [hm] at hm' ht'
  exact ⟨t', ht'.trans ht, hm'⟩

/-- Moves that amount to an await. -/
def Awaits (h : Host) (w w' : World) : Prop := Reaches h w w' ∧ Waited w w'

instance instIsPreorderAwaits (h : Host) : IsPreorder World (Awaits h) where
  refl := fun w => ⟨refl_of (Reaches h) w, .of_machine rfl⟩
  trans := fun _ _ _ h₁ h₂ => ⟨trans_of (Reaches h) h₁.1 h₂.1, h₁.2.trans h₂.2⟩

theorem Awaits.same {h : Host} {w w' : World} (hm : w'.machine = w.machine) : Awaits h w w' :=
  ⟨.same hm, .of_machine hm⟩

namespace Session

open Effect

variable {h : Host} {w : World}

theorem transitionTo_run {dst : SessionPhase} (reason : Option String)
    (hp : dst ∈ w.state.phase.transitions) :
    ∃ w', (transitionTo dst reason).run w = (.ok (), w') ∧ w'.machine = w.machine.go dst ∧
      w'.runner = w.runner := by
  let s : SessionState := { w.state with
    phase := dst
    terminalReason := if dst.isTerminal && reason.isSome then reason else w.state.terminalReason }
  have ht : w.state.transitionTo dst reason = some s := if_pos hp
  refine ⟨{ w with state := s, events := .edge w.state.phase dst :: w.events }, ?_, rfl, rfl⟩
  rw [transitionTo, run_bind run_read, ht]
  rfl

/-- A run-loop edge whose source and target are known. -/
theorem transitionTo_spec {dst : SessionPhase} {reason : Option String} {E : Exn → World → Prop}
    (hp : dst ∈ w.state.phase.transitions) (hs : Step h w.machine (w.machine.go dst)) :
    Follows (Reaches h) (transitionTo dst reason) w
      (fun _ w' => w'.machine = w.machine.go dst ∧ w'.runner = w.runner) E := by
  obtain ⟨w', hrun, hm, hr⟩ := transitionTo_run reason hp
  exact .run hrun (.step (hm ▸ hs)) ⟨hm, hr⟩

theorem settle_spec :
    Follows (Reaches h) (settle h) w (fun _ w' => Waited w w') (fun _ _ => False) :=
  ⟨.step (.fills (h.answers w.clock).fills),
    ⟨_, World.ids_fills _ _, rfl⟩⟩

theorem settle_provides_spec :
    Follows (Reaches h) (settle h) w (fun a w' => Waited w w' ∧ h.Provides a.response)
      (fun _ _ => False) :=
  ⟨.step (.fills (h.answers w.clock).fills), ⟨_, World.ids_fills _ _, rfl⟩, _, rfl⟩

theorem consult_spec :
    Follows (Reaches h) (consult h) w (fun _ w' => w'.machine = w.machine) (fun _ _ => False) :=
  ⟨.same rfl, rfl⟩

theorem await_spec :
    Follows (Reaches h) (await h) w (fun _ w' => Waited w w')
      (fun e w' => Waited w w' ∧ e.isAwaited = true) := by
  refine .bind settle_spec.weaken ?_
  intro a w' _ hw
  split
  · exact .pure hw
  · rename_i fault _
    exact .raise ⟨hw, by cases fault <;> rfl⟩

theorem emit_spec :
    Follows (Reaches h) (emit h) w (fun _ w' => Waited w w')
      (fun e w' => Waited w w' ∧ e.isAwaited = true ∧ e.isRetryable = false) := by
  refine .bind settle_spec.weaken ?_
  intro a w' _ hw
  split
  · exact .pure hw
  · exact .raise ⟨hw, rfl, rfl⟩
  · exact .raise ⟨hw, rfl, rfl⟩
  · exact .raise ⟨hw, rfl, rfl⟩

theorem isPhaseError_of_awaited {e : Exn} (he : e.isAwaited = true) : e.isPhaseError = false := by
  cases e <;> simp_all [Exn.isAwaited, Exn.isPhaseError]

end Session

end OpenCollab
