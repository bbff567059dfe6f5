import Mathlib.Logic.Function.Basic
import OpenCollab.Session.Pending
import OpenCollab.Session.State

/-!
# OpenCollab.Scheduler.Join

How a parent agent is woken when the work it delegated has come back
(`_wake`, `_recover_delivery_route`, `_resume_completed_parent_locked` and
`_resume_after_parent_task` of `scheduler_lifecycle.py`).

A parent that has delegated calls suspends on its pending table.  Its children come
back in any order and at any moment: while it still executes the batch, while its
driver winds up, or long after.  `Parent` is what the scheduler holds of one parent,
`Event` whatever can happen between two awaits, and a run is any list of them.

* `Inv.step` — what one event keeps, by `Base.started`, `Base.resumeCompleted` and a
  lemma for each kind of event;
* `joined` — in every run at most one driver is in the session's loop, no row is lost or
  answered twice, and a parent whose batch is complete is woken;
* `resumed` — and from there the batch does reach the history.

There is no shutdown, the driver that a spawn starts is the first of its agent, and of the
history the model keeps the blocks of tool results.
-/

namespace OpenCollab.Join

/-! ## drivers -/

/-- Where `_drive_agent` is: not begun, in the session's `run_loop`, behind it, ended. -/
inductive Stage where
  | fresh
  | looping
  | leaving
  | done
deriving DecidableEq, Repr

/-- A task, and how many `_resume_after_parent_task` wait for its end. -/
structure Driver where
  stage : Stage := .done
  resumes : Nat := 0
deriving DecidableEq, Repr

/-- A callback of a task that has ended. -/
inductive Callback where
  | taskDone (task : Nat)
  | resume (task : Nat)
deriving DecidableEq, Repr

def Callback.task : Callback → Nat
  | .taskDone task | .resume task => task

/-- The scheduler's view of one parent.  The drivers are numbered as they are created,
`task` is `_tasks.get(aid)`, `ready` the callbacks that the event loop will run, `blocks`
the tool results in the history, and `opened` records the ids of all rows there ever were. -/
structure Parent where
  phase : SessionPhase := .idle
  table : PendingEventTable := .empty
  queuedTurn : Bool := false
  blocks : List (List Message) := []
  drivers : Nat → Driver := fun _ => {}
  next : Nat := 0
  task : Option Nat := none
  ready : List Callback := []
  opened : List String := []

namespace Parent

def stage (w : Parent) (d : Nat) : Stage := (w.drivers d).stage

/-- The driver is in the session's loop, or will enter it. -/
def InLoop (w : Parent) (d : Nat) : Prop := w.stage d = .fresh ∨ w.stage d = .looping

/-- `task is None or task.done()`. -/
def idle (w : Parent) : Bool :=
  match w.task with
  | none => true
  | some d => w.stage d = .done

/-- `_start_agent_task`. -/
def start (w : Parent) : Parent :=
  { w with
    drivers := Function.update w.drivers w.next { stage := .fresh }
    next := w.next + 1
    task := some w.next }

def setStage (w : Parent) (d : Nat) (stage : Stage) : Parent :=
  { w with drivers := Function.update w.drivers d { w.drivers d with stage } }

/-- `in_flight.add_done_callback`. -/
def addResume (w : Parent) (d : Nat) : Parent :=
  { w with
    drivers := Function.update w.drivers d
      { w.drivers d with resumes := (w.drivers d).resumes + 1 } }

/-- The parent waits for nothing any more. -/
def isJoined (w : Parent) : Bool := w.phase = .awaitingEvents && w.table.isComplete

/-- `_resume_completed_parent_locked`. -/
def resumeCompleted (w : Parent) : Parent :=
  if !w.isJoined then w
  else if w.idle then w.start
  else
    match w.task with
    | none => w
    | some d => w.addResume d

/-- `_resume_after_parent_task`. -/
def resumeAfter (w : Parent) (finished : Nat) : Parent :=
  if (w.idle || w.task = some finished) && w.isJoined then w.start else w

/-- `_agent_task_done`. -/
def taskDone (w : Parent) (finished : Nat) : Parent :=
  if w.task = some finished then { w with task := none } else w

/-- A task has ended: its callbacks are due, in the order they were added in. -/
def finish (w : Parent) (d : Nat) : Parent :=
  { w.setStage d .done with
    ready := w.ready ++
      .taskDone d :: List.replicate (w.drivers d).resumes (.resume d) }

/-! ## the session -/

/-- The table goes into the history. -/
def drain (w : Parent) : Parent :=
  { w with blocks := w.blocks ++ [w.table.orderedResults], table := .empty }

/-- The phase `_prepare_turn` enters with. -/
def entryPhase (w : Parent) : SessionPhase :=
  let phase :=
    if !w.table.isEmpty && (w.phase = .idle || w.phase.isTerminal) then .awaitingEvents
    else w.phase
  if w.queuedTurn && phase.isTerminal then .idle else phase

/-- `_prepare_turn`. -/
def prepareTurn (w : Parent) : Parent :=
  match w.entryPhase with
  | .awaitingEvents =>
      if w.table.isComplete then { w.drain with phase := .autosaving, queuedTurn := false }
      else { w with phase := .awaitingEvents }
  | .done => { w with phase := .done }
  | phase =>
      { w with
        phase := if phase.isTerminal then .idle else phase
        queuedTurn := w.queuedTurn && phase ≠ .idle }

/-- `transition_to`; where there is no such edge it raises, and the loop fails. -/
def transitionTo (w : Parent) (phase : SessionPhase) : Parent :=
  { w with phase := if phase ∈ w.phase.transitions then phase else .error }

/-- The end of `execute_pending_tools` on a batch with deferred calls. -/
def finishBatch (w : Parent) : Parent :=
  if w.table.isComplete then w.drain.transitionTo .autosaving
  else w.transitionTo .awaitingEvents

/-- Every row that waits is failed. -/
def failAll (table : PendingEventTable) (reason : String) : PendingEventTable :=
  (table.rows.filter PendingRow.isPending).foldl
    (fun table row =>
      (table.fill row.toolCallId .failed reason (some reason)).getD table) table

/-- The rows that wait for one child. -/
def childRows (table : PendingEventTable) (child : Int) : List PendingRow :=
  table.rows.filter fun row => row.isPending && row.ref = .int child

/-- A row is added to the table; an id that has one already is a `PendingRowError`. -/
def open? (w : Parent) (row : PendingRow) : Option Parent :=
  (w.table.add row).map fun table =>
    { w with table, opened := w.opened ++ [row.toolCallId] }

end Parent

/-! ## events -/

/-- What a driver does in the session's loop. -/
inductive Action where
  /-- A handler moves on. -/
  | move (phase : SessionPhase)
  /-- `execute_pending_tools` adds a row, … -/
  | addRow (row : PendingRow)
  /-- … learns the child behind it or that there is none, … -/
  | setRef (toolCallId : String) (ref : Json)
  | failRow (toolCallId : String) (message : String)
  /-- … and comes to the end of its batch. -/
  | finishBatch

/-- What can happen between two awaits. -/
inductive Event where
  /-- `_wake`: a child reports. -/
  | wake (toolCallId : String) (status : RowStatus) (result : String) (error : Option String)
  /-- `_recover_delivery_route`, of a child whose report found no row. -/
  | recover (child : Int) (reason : String)
  /-- A public turn, a message or the spawn starts a driver. -/
  | start
  /-- A driver enters the loop, … -/
  | begin (driver : Nat)
  /-- … goes on in it, … -/
  | act (driver : Nat) (action : Action)
  /-- … fails or is cancelled, … -/
  | fail (driver : Nat) (stopped : Bool)
  /-- … answers a call that its failure has left open, … -/
  | closeRow (driver : Nat) (row : PendingRow)
  /-- … leaves the loop, … -/
  | leave (driver : Nat)
  /-- … and ends. -/
  | finish (driver : Nat)
  /-- The event loop runs a callback. -/
  | callback
  /-- The public turn removes a task that has ended. -/
  | reap
  /-- `add_user_message`, and its rollback. -/
  | userTurn
  | rollback (phase : SessionPhase)
  /-- `_settle_cancelled_suspended_turn` closes the wake gate, … -/
  | closeGate
  /-- … cancels a task that has not begun, … -/
  | cancelFresh (driver : Nat)
  /-- … and flushes the table. -/
  | settle (reason : String)

namespace Parent

/-- One step of the loop; it has returned once the parent waits for events. -/
def act (w : Parent) (action : Action) : Option Parent :=
  if w.phase = .awaitingEvents then none
  else
    match action with
    | .move phase => if phase = .awaitingEvents then none else some (w.transitionTo phase)
    | .addRow row => w.open? row
    | .setRef id ref => some { w with table := w.table.update id fun row => { row with ref } }
    | .failRow id message =>
        (w.table.fill id .failed message (some message)).map fun table => { w with table }
    | .finishBatch => some w.finishBatch

/-- The next callback. -/
def callback (w : Parent) : Option Parent :=
  match w.ready with
  | [] => none
  | .taskDone d :: ready => some ({ w with ready }.taskDone d)
  | .resume d :: ready => some ({ w with ready }.resumeAfter d)

/-- A driver may be started: there is none, or it is the driver behind its loop that
drains its own inbox. -/
def startable (w : Parent) : Bool :=
  w.idle || w.task.any (fun d => w.stage d = .leaving) && w.phase ≠ .awaitingEvents &&
    w.table.isEmpty

/-- An event, where it can happen. -/
def step (w : Parent) : Event → Option Parent
  | .wake id status result error =>
      match w.table.fill id status result error with
      | none => some w
      | some table => some { w with table }.resumeCompleted
  | .recover child reason =>
      if (childRows w.table child).length = 1 then some w
      else some { w with table := failAll w.table reason }.resumeCompleted
  | .start => if w.startable then some w.start else none
  | .begin d => if w.stage d = .fresh then some (w.prepareTurn.setStage d .looping) else none
  | .act d action => if w.stage d = .looping then w.act action else none
  | .fail d stopped =>
      let phase := if stopped then .stopped else .error
      match w.stage d with
      | .fresh => some { w.setStage d .leaving with phase }
      | .looping => some { w with phase }
      | _ => none
  | .closeRow d row =>
      if w.stage d = .looping ∧ w.phase.isTerminal ∧ w.table.isEmpty = false then w.open? row
      else none
  | .leave d =>
      if w.stage d = .looping ∧ (w.phase.isTerminal ∨ w.phase = .awaitingEvents) then
        some (w.setStage d .leaving)
      else none
  | .finish d => if w.stage d = .leaving then some (w.finish d) else none
  | .callback => w.callback
  | .reap => if w.idle then some { w with task := none } else none
  | .userTurn =>
      if (w.phase = .idle ∨ w.phase.isTerminal) ∧ w.queuedTurn = false then
        some { w with phase := .idle, queuedTurn := true }
      else none
  | .rollback phase =>
      if phase = .idle ∨ phase.isTerminal then some { w with phase, queuedTurn := false }
      else none
  | .closeGate => some { w with phase := .stopped }
  | .cancelFresh d =>
      if w.stage d = .fresh ∧ w.phase.isTerminal then some (w.finish d) else none
  | .settle reason =>
      if w.phase.isTerminal then
        some { { w with table := failAll w.table reason }.drain with queuedTurn := false }
      else none

/-- A run. -/
def run (w : Parent) (events : List Event) : Option Parent := events.foldlM step w

/-! ## the invariant -/

/-- Something will wake the parent: a driver that is about to begin, one at whose end a
callback waits, or a callback that is due. -/
inductive Awake (w : Parent) : Prop
  | fresh (d : Nat) : w.task = some d → w.stage d = .fresh → Awake w
  | waiting (d : Nat) : w.task = some d → w.stage d ≠ .done → 0 < (w.drivers d).resumes → Awake w
  | due (d : Nat) : .resume d ∈ w.ready → w.idle = true → Awake w

/-- The ids that the tool results in the history answer. -/
def answered (w : Parent) : List String := w.blocks.flatten.filterMap Message.toolCallId

/-- What holds whatever the parent waits for. -/
structure Base (w : Parent) : Prop where
  owned : ∀ d, w.InLoop d → w.task = some d
  unborn : ∀ d, w.next ≤ d → w.stage d = .done
  ended : ∀ c ∈ w.ready, c.task < w.next ∧ w.stage c.task = .done
  rows : w.opened.Perm (w.answered ++ w.table.ids)

/-- **A parent whose batch is complete is woken.** -/
structure Inv (w : Parent) : Prop extends Base w where
  awake : w.isJoined = true → w.Awake

/-! ## the parts of an event -/

variable {w w' : Parent} {d e : Nat} {stage : Stage}

@[simp] theorem stage_start : w.start.stage d = if d = w.next then .fresh else w.stage d := by
  simp only [Parent.stage, start, Function.update_apply]
  split <;> rfl

@[simp] theorem stage_setStage :
    (w.setStage e stage).stage d = if d = e then stage else w.stage d := by
  simp only [Parent.stage, setStage, Function.update_apply]
  split <;> rfl

@[simp] theorem resumes_setStage :
    ((w.setStage e stage).drivers d).resumes = (w.drivers d).resumes := by
  simp only [setStage, Function.update_apply]
  split
  · rename_i h
    rw [h]
  · rfl

@[simp] theorem stage_addResume : (w.addResume e).stage d = w.stage d := by
  simp only [Parent.stage, addResume, Function.update_apply]
  split
  · rename_i h
    rw [h]
  · rfl

/-- A session is idle once its task, if it has one, is done. -/
theorem idle_iff : w.idle = true ↔ ∀ d, w.task = some d → w.stage d = .done := by
  unfold idle
  cases w.task with
  | none => simp
  | some d => simp

/-- A session is joined when it waits for nothing any more. -/
theorem isJoined_iff : w.isJoined = true ↔
    w.phase = .awaitingEvents ∧ w.table.isComplete = true := by
  simp [isJoined]

/-- Where the parent does not wait, there is nothing to wake. -/
theorem Base.notWaiting (h : w.Base) (hphase : w.phase ≠ .awaitingEvents) : w.Inv where
  toBase := h
  awake := fun hjoined => absurd (isJoined_iff.mp hjoined).1 hphase

/-- A driver is started while there is none in the loop. -/
theorem Base.started (h : w.Base) (hnone : ∀ d, ¬ w.InLoop d) : w.start.Inv where
  owned := by
    intro d hd
    by_cases hnew : d = w.next
    · rw [hnew]
      rfl
    · exact absurd (by simpa [InLoop, hnew] using hd) (hnone d)
  unborn := by
    intro d hd
    change w.next + 1 ≤ d at hd
    rw [stage_start, if_neg (by omega)]
    exact h.unborn d (by omega)
  ended := by
    intro c hc
    obtain ⟨hborn, hdone⟩ := h.ended c hc
    rw [stage_start, if_neg (by omega)]
    exact ⟨Nat.lt_succ_of_lt hborn, hdone⟩
  rows := h.rows
  awake := fun _ => .fresh w.next rfl (by simp)

/-- Where the registered driver has ended, there is none in the loop. -/
theorem Base.noLoop (h : w.Base) (hidle : w.idle = true) (d : Nat) : ¬ w.InLoop d := by
  intro hd
  have hdone := idle_iff.mp hidle d (h.owned d hd)
  simp [InLoop, hdone] at hd

/-- The registered driver gets a callback. -/
theorem Base.addResume (h : w.Base) (htask : w.task = some d) (hlive : w.stage d ≠ .done) :
    (w.addResume d).Inv where
  owned := fun e he => h.owned e (by simpa [InLoop] using he)
  unborn := fun e he => by simpa using h.unborn e he
  ended := fun c hc => by
    rw [stage_addResume]
    exact h.ended c hc
  rows := h.rows
  awake := fun _ => .waiting d htask (by simpa using hlive) (by simp [Parent.addResume])

/-- **A report that completes the batch of a waiting parent wakes it.** -/
theorem Base.resumeCompleted (h : w.Base) : w.resumeCompleted.Inv := by
  unfold Parent.resumeCompleted
  cases hjoined : w.isJoined with
  | false => exact ⟨h, fun hw => by simp [hjoined] at hw⟩
  | true =>
      simp only [Bool.not_true, Bool.false_eq_true, if_false]
      cases hidle : w.idle with
      | true => exact h.started (h.noLoop hidle)
      | false =>
          simp only [Bool.false_eq_true, if_false]
          cases htask : w.task with
          | none => simp [idle, htask] at hidle
          | some d =>
              refine h.addResume htask fun hdone => ?_
              simp [idle, htask, hdone] at hidle

/-! ## the rows of an event -/

/-- A table whose ids are the same leaves the account of the rows. -/
theorem Base.withTable (h : w.Base) {table : PendingEventTable} (hids : table.ids = w.table.ids) :
    Base { w with table } where
  owned := h.owned
  unborn := h.unborn
  ended := h.ended
  rows := by
    change w.opened.Perm (w.answered ++ table.ids)
    rw [hids]
    exact h.rows

/-- The phase is no part of the base. -/
theorem Base.withPhase (h : w.Base) (phase : SessionPhase) : Base { w with phase } :=
  ⟨h.owned, h.unborn, h.ended, h.rows⟩

/-- Neither is a queued turn. -/
theorem Base.withQueued (h : w.Base) (queuedTurn : Bool) : Base { w with queuedTurn } :=
  ⟨h.owned, h.unborn, h.ended, h.rows⟩

/-- The drained block answers the rows of the table. -/
theorem answered_block (table : PendingEventTable) :
    (table.orderedResults.filterMap Message.toolCallId).Perm table.ids := by
  have hperm := table.orderedResults_perm.filterMap id
  rw [List.filterMap_map, List.filterMap_map] at hperm
  simpa using hperm

/-- Draining keeps the base. -/
theorem Base.drain (h : w.Base) : w.drain.Base where
  owned := h.owned
  unborn := h.unborn
  ended := h.ended
  rows := by
    have hanswered : w.drain.answered =
        w.answered ++ w.table.orderedResults.filterMap Message.toolCallId := by
      simp [answered, Parent.drain]
    have hids : w.drain.table.ids = [] := rfl
    rw [hanswered, hids, List.append_nil]
    exact h.rows.trans ((answered_block w.table).symm.append_left _)

/-- A new row keeps the base. -/
theorem Base.opened (h : w.Base) {row : PendingRow} (hopen : w.open? row = some w') : w'.Base := by
  unfold open? at hopen
  rw [Option.map_eq_some_iff] at hopen
  obtain ⟨table, htable, rfl⟩ := hopen
  refine ⟨h.owned, h.unborn, h.ended, ?_⟩
  change (w.opened ++ [row.toolCallId]).Perm (w.answered ++ table.ids)
  rw [(PendingEventTable.ids_add htable).1, ← List.append_assoc]
  exact h.rows.append_right _

/-- Opening a row leaves the phase as it is. -/
theorem phase_open {row : PendingRow} (hopen : w.open? row = some w') : w'.phase = w.phase := by
  unfold open? at hopen
  rw [Option.map_eq_some_iff] at hopen
  obtain ⟨table, -, rfl⟩ := hopen
  rfl

/-- Failing all rows keeps their ids. -/
theorem ids_failAll (table : PendingEventTable) (reason : String) :
    (failAll table reason).ids = table.ids := by
  unfold failAll
  generalize table.rows.filter PendingRow.isPending = rows
  induction rows generalizing table with
  | nil => rfl
  | cons row rows ih =>
      rw [List.foldl_cons, ih]
      cases hfill : table.fill row.toolCallId .failed reason (some reason) with
      | none => rfl
      | some filled => exact PendingEventTable.ids_fill hfill

/-! ## the session's part -/

/-- A change of phase keeps the base. -/
theorem Base.transitionTo (h : w.Base) (phase : SessionPhase) : (w.transitionTo phase).Base :=
  h.withPhase _

/-- Only a change to `awaitingEvents` begins a wait. -/
theorem phase_transitionTo {phase : SessionPhase} (hphase : phase ≠ .awaitingEvents) :
    (w.transitionTo phase).phase ≠ .awaitingEvents := by
  simp only [transitionTo]
  split
  · exact hphase
  · decide

/-- The end of a batch waits only for rows that are not filled. -/
theorem Base.finishBatch (h : w.Base) : w.finishBatch.Inv := by
  unfold Parent.finishBatch
  split
  · exact (h.drain.transitionTo _).notWaiting (phase_transitionTo (by decide))
  · rename_i hincomplete
    exact ⟨h.transitionTo _, fun hjoined => absurd (isJoined_iff.mp hjoined).2 hincomplete⟩

/-- A driver that enters the loop drains a complete table. -/
theorem Base.prepareTurn (h : w.Base) : w.prepareTurn.Base := by
  unfold Parent.prepareTurn
  split
  · split
    · exact (h.drain.withPhase _).withQueued _
    · exact h.withPhase _
  · exact h.withPhase _
  · exact (h.withPhase _).withQueued _

/-- A prepared turn is not joined. -/
theorem isJoined_prepareTurn : w.prepareTurn.isJoined = false := by
  rw [Bool.eq_false_iff]
  intro hjoined
  obtain ⟨hphase, hcomplete⟩ := isJoined_iff.mp hjoined
  unfold Parent.prepareTurn at hphase hcomplete
  split at hphase
  · split at hphase
    · contradiction
    · rename_i hentry hincomplete
      simp only [hentry, if_neg hincomplete] at hcomplete
      exact hincomplete hcomplete
  · contradiction
  · rename_i hnotAwaiting _
    dsimp only at hphase
    split at hphase
    · contradiction
    · exact hnotAwaiting hphase

/-- Preparing a turn moves no driver. -/
theorem stage_prepareTurn : w.prepareTurn.stage d = w.stage d := by
  unfold Parent.prepareTurn
  split
  · split <;> rfl
  · rfl
  · rfl

/-- **Every action of a driver keeps the invariant.** -/
theorem Inv.act (h : w.Inv) {action : Action} (hact : w.act action = some w') : w'.Inv := by
  unfold Parent.act at hact
  split at hact
  · contradiction
  rename_i hphase
  cases action with
  | move phase =>
      dsimp only at hact
      split at hact
      · contradiction
      · rename_i hmove
        cases hact
        exact (h.toBase.transitionTo phase).notWaiting (phase_transitionTo hmove)
  | addRow row => exact (h.toBase.opened hact).notWaiting (phase_open hact ▸ hphase)
  | setRef id ref =>
      cases hact
      exact (h.toBase.withTable (PendingEventTable.ids_update _)).notWaiting hphase
  | failRow id message =>
      dsimp only at hact
      rw [Option.map_eq_some_iff] at hact
      obtain ⟨table, htable, rfl⟩ := hact
      exact (h.toBase.withTable (PendingEventTable.ids_fill htable)).notWaiting hphase
  | finishBatch =>
      cases hact
      exact h.toBase.finishBatch

/-! ## the drivers' part -/

/-- A driver goes on, within the loop or out of it. -/
theorem Base.setStage (h : w.Base) (hold : w.InLoop d ∨ stage = .leaving ∨ stage = .done)
    (hborn : w.stage d ≠ .done) : (w.setStage d stage).Base where
  owned := by
    intro e he
    rw [InLoop, stage_setStage] at he
    split at he
    · rename_i hsame
      subst hsame
      obtain hold | hold | hold := hold
      · exact h.owned e hold
      · simp [hold] at he
      · simp [hold] at he
    · exact h.owned e he
  unborn := by
    intro e he
    have hdone := h.unborn e he
    have hother : e ≠ d := fun hsame => hborn (hsame ▸ hdone)
    rw [stage_setStage, if_neg hother]
    exact hdone
  ended := by
    intro c hc
    obtain ⟨hnext, hdone⟩ := h.ended c hc
    have hother : c.task ≠ d := fun hsame => hborn (hsame ▸ hdone)
    rw [stage_setStage, if_neg hother]
    exact ⟨hnext, hdone⟩
  rows := h.rows

/-- A driver leaves the loop, and the parent is woken as before. -/
theorem Inv.leave (h : w.Inv) (hlooping : w.stage d = .looping) : (w.setStage d .leaving).Inv := by
  have htask := h.owned d (.inr hlooping)
  refine ⟨h.toBase.setStage (.inl (.inr hlooping)) (by simp [hlooping]), fun hjoined => ?_⟩
  cases h.awake hjoined with
  | fresh e he hfresh =>
      obtain rfl : d = e := Option.some.inj (htask.symm.trans he)
      rw [hlooping] at hfresh
      contradiction
  | waiting e he hlive hresumes =>
      refine .waiting e he ?_ (by simpa using hresumes)
      rw [stage_setStage]
      split
      · decide
      · exact hlive
  | due e he hidle =>
      have hdone := idle_iff.mp hidle d htask
      rw [hlooping] at hdone
      contradiction

/-- The end of a driver keeps the base. -/
theorem Base.finish (h : w.Base) (hborn : w.stage d ≠ .done) : (w.finish d).Base := by
  have hset : (w.setStage d .done).Base := h.setStage (.inr (.inr rfl)) hborn
  have hnext : d < w.next := Nat.lt_of_not_le fun hle => hborn (h.unborn d hle)
  refine ⟨hset.owned, hset.unborn, fun c hc => ?_, hset.rows⟩
  change c ∈ w.ready ++ _ at hc
  rw [List.mem_append, List.mem_cons, List.mem_replicate] at hc
  obtain hc | rfl | ⟨-, rfl⟩ := hc
  · exact hset.ended c hc
  · exact ⟨hnext, by simp [Callback.task, Parent.finish, Parent.stage, Parent.setStage]⟩
  · exact ⟨hnext, by simp [Callback.task, Parent.finish, Parent.stage, Parent.setStage]⟩

/-- A driver ends, and what waited for its end is due. -/
theorem Inv.finish (h : w.Inv) (hleaving : w.stage d = .leaving) : (w.finish d).Inv := by
  refine ⟨h.toBase.finish (by simp [hleaving]), fun hjoined => ?_⟩
  have hstage (e : Nat) : (w.finish d).stage e = if e = d then .done else w.stage e :=
    stage_setStage
  cases h.awake hjoined with
  | fresh e he hfresh =>
      refine .fresh e he ?_
      rw [hstage, if_neg fun hsame => by simp [← hsame, hfresh] at hleaving]
      exact hfresh
  | waiting e he hlive hresumes =>
      by_cases hsame : e = d
      · subst hsame
        refine .due e ?_ (idle_iff.mpr fun f hf => ?_)
        · exact List.mem_append_right _ (List.mem_cons_of_mem _
            (List.mem_replicate.mpr ⟨by omega, rfl⟩))
        · obtain rfl : e = f := Option.some.inj (he.symm.trans hf)
          rw [hstage, if_pos rfl]
      · refine .waiting e he ?_ (by simpa [Parent.finish] using hresumes)
        rw [hstage, if_neg hsame]
        exact hlive
  | due e he hidle =>
      refine .due e (List.mem_append_left _ he) (idle_iff.mpr fun f hf => ?_)
      rw [hstage]
      split
      · rfl
      · exact idle_iff.mp hidle f hf

/-- A callback is run: the parent is woken, or is going to be. -/
theorem Inv.callback (h : w.Inv) (hcallback : w.callback = some w') : w'.Inv := by
  unfold Parent.callback at hcallback
  cases hready : w.ready with
  | nil => simp [hready] at hcallback
  | cons c ready =>
      have hbase : Base { w with ready } :=
        ⟨h.owned, h.unborn, fun c hc => h.ended c (hready ▸ List.mem_cons_of_mem _ hc), h.rows⟩
      cases c with
      | taskDone d =>
          simp only [hready, Option.some.injEq] at hcallback
          subst hcallback
          have hdone := (h.ended (.taskDone d) (by simp [hready])).2
          have hawake : w.isJoined = true → Awake { w with ready } := by
            intro hjoined
            cases h.awake hjoined with
            | fresh e he hfresh => exact .fresh e he hfresh
            | waiting e he hlive hresumes => exact .waiting e he hlive hresumes
            | due e he hidle => exact .due e (by simpa [hready] using he) hidle
          unfold Parent.taskDone
          split
          · rename_i htask
            have hidle : w.idle = true := idle_iff.mpr fun e he => by
              obtain rfl : d = e := Option.some.inj (htask.symm.trans he)
              exact hdone
            refine ⟨⟨fun e he => absurd he (h.noLoop hidle e), hbase.unborn, hbase.ended,
              hbase.rows⟩, fun hjoined => ?_⟩
            cases hawake hjoined with
            | fresh e he hfresh =>
                have := idle_iff.mp hidle e he
                exact absurd (hfresh.symm.trans this) (by decide)
            | waiting e he hlive _ => exact absurd (idle_iff.mp hidle e he) hlive
            | due e he _ => exact .due e he rfl
          · exact ⟨hbase, hawake⟩
      | resume d =>
          simp only [hready, Option.some.injEq] at hcallback
          subst hcallback
          have hdone := (h.ended (.resume d) (by simp [hready])).2
          unfold Parent.resumeAfter
          split
          · rename_i hcond
            simp only [Bool.and_eq_true, Bool.or_eq_true, decide_eq_true_eq] at hcond
            refine hbase.started (hbase.noLoop ?_)
            obtain hidle | htask := hcond.1
            · exact hidle
            · refine idle_iff.mpr fun e he => ?_
              obtain rfl : d = e := Option.some.inj (htask.symm.trans he)
              exact hdone
          · rename_i hcond
            refine ⟨hbase, fun hjoined => ?_⟩
            have hjoined' : w.isJoined = true := hjoined
            have hbusy : ¬ w.idle = true := fun hidle =>
              hcond (by simp only [Bool.and_eq_true, Bool.or_eq_true]; exact ⟨.inl hidle, hjoined⟩)
            cases h.awake hjoined' with
            | fresh e he hfresh => exact .fresh e he hfresh
            | waiting e he hlive hresumes => exact .waiting e he hlive hresumes
            | due e _ hidle => exact absurd hidle hbusy

/-! ## runs -/

/-- The empty session satisfies the invariant. -/
theorem start_empty : Inv {} where
  owned := fun d hd => by simp [InLoop, Parent.stage] at hd
  unborn := fun _ _ => rfl
  ended := fun _ hc => by simp at hc
  rows := .refl _
  awake := fun h => by simp [isJoined] at h

/-- **What one event keeps.** -/
theorem Inv.step (h : w.Inv) {event : Event} (hstep : w.step event = some w') : w'.Inv := by
  have hbase := h.toBase
  cases event with
  | wake id status result error =>
      simp only [Parent.step] at hstep
      split at hstep
      · cases hstep
        exact h
      · rename_i table htable
        cases hstep
        exact (hbase.withTable (PendingEventTable.ids_fill htable)).resumeCompleted
  | recover child reason =>
      simp only [Parent.step] at hstep
      split at hstep
      · cases hstep
        exact h
      · cases hstep
        exact (hbase.withTable (ids_failAll w.table reason)).resumeCompleted
  | start =>
      simp only [Parent.step] at hstep
      split at hstep
      · rename_i hstart
        cases hstep
        refine hbase.started fun d hd => ?_
        have htask := h.owned d hd
        simp only [startable, Bool.or_eq_true, Bool.and_eq_true] at hstart
        obtain hidle | hleaving := hstart
        · exact hbase.noLoop hidle d hd
        · have hstage : w.stage d = .leaving := by simpa [htask] using hleaving.1.1
          simp [InLoop, hstage] at hd
      · contradiction
  | begin d =>
      simp only [Parent.step] at hstep
      split at hstep
      · rename_i hfresh
        cases hstep
        have hsame : w.prepareTurn.stage d = .fresh := stage_prepareTurn.trans hfresh
        refine ⟨hbase.prepareTurn.setStage (.inl (.inl hsame)) (by simp [hsame]),
          fun hjoined => ?_⟩
        change w.prepareTurn.isJoined = true at hjoined
        rw [isJoined_prepareTurn] at hjoined
        contradiction
      · contradiction
  | act d action =>
      simp only [Parent.step] at hstep
      split at hstep
      · exact h.act hstep
      · contradiction
  | fail d stopped =>
      have hphase : (if stopped then SessionPhase.stopped else .error) ≠ .awaitingEvents := by
        cases stopped <;> decide
      simp only [Parent.step] at hstep
      split at hstep
      · rename_i hstage
        cases hstep
        exact ((hbase.setStage (.inl (.inl hstage)) (by simp [hstage])).withPhase _).notWaiting
          hphase
      · cases hstep
        exact (hbase.withPhase _).notWaiting hphase
      · contradiction
  | closeRow d row =>
      simp only [Parent.step] at hstep
      split at hstep
      · rename_i hclose
        refine (hbase.opened hstep).notWaiting ?_
        rw [phase_open hstep]
        intro hphase
        simp [hphase, SessionPhase.isTerminal] at hclose
      · contradiction
  | leave d =>
      simp only [Parent.step] at hstep
      split at hstep
      · rename_i hleave
        cases hstep
        exact h.leave hleave.1
      · contradiction
  | finish d =>
      simp only [Parent.step] at hstep
      split at hstep
      · rename_i hleaving
        cases hstep
        exact h.finish hleaving
      · contradiction
  | callback => exact h.callback hstep
  | reap =>
      simp only [Parent.step] at hstep
      split at hstep
      · rename_i hidle
        cases hstep
        refine ⟨⟨fun d hd => absurd hd (hbase.noLoop hidle d), h.unborn, h.ended, h.rows⟩,
          fun hjoined => ?_⟩
        cases h.awake hjoined with
        | fresh d hd hfresh =>
            have hdone := idle_iff.mp hidle d hd
            exact absurd (hfresh.symm.trans hdone) (by decide)
        | waiting d hd hlive _ => exact absurd (idle_iff.mp hidle d hd) hlive
        | due d hd _ => exact .due d hd rfl
      · contradiction
  | userTurn =>
      simp only [Parent.step] at hstep
      split at hstep
      · cases hstep
        exact ((hbase.withPhase _).withQueued _).notWaiting nofun
      · contradiction
  | rollback phase =>
      simp only [Parent.step] at hstep
      split at hstep
      · rename_i hrest
        cases hstep
        refine ((hbase.withPhase _).withQueued _).notWaiting fun hphase => ?_
        change phase = .awaitingEvents at hphase
        simp [hphase, SessionPhase.isTerminal] at hrest
      · contradiction
  | closeGate =>
      cases hstep
      exact (hbase.withPhase _).notWaiting nofun
  | cancelFresh d =>
      simp only [Parent.step] at hstep
      split at hstep
      · rename_i hcancel
        cases hstep
        refine (hbase.finish (by simp [hcancel.1])).notWaiting fun hphase => ?_
        change w.phase = .awaitingEvents at hphase
        simp [hphase, SessionPhase.isTerminal] at hcancel
      · contradiction
  | settle reason =>
      simp only [Parent.step] at hstep
      split at hstep
      · rename_i hterminal
        cases hstep
        refine (((hbase.withTable (ids_failAll w.table reason)).drain).withQueued _).notWaiting
          fun hphase => ?_
        change w.phase = .awaitingEvents at hphase
        simp [hphase, SessionPhase.isTerminal] at hterminal
      · contradiction

/-- **Every run keeps the invariant.** -/
theorem Inv.run {events : List Event} (h : w.Inv) (hrun : w.run events = some w') : w'.Inv := by
  induction events generalizing w with
  | nil =>
      cases hrun
      exact h
  | cons event events ih =>
      rw [Parent.run, List.foldlM_cons] at hrun
      cases hstep : w.step event with
      | none =>
          rw [hstep] at hrun
          contradiction
      | some next =>
          rw [hstep] at hrun
          exact ih (h.step hstep) hrun

/-! ## the batch reaches the history -/

/-- An event that needs nobody but the parent's own drivers and the event loop. -/
def Own : Event → Prop
  | .begin _ | .leave _ | .finish _ | .callback => True
  | _ => False

theorem own_callback : Own .callback := trivial

theorem own_finish (d : Nat) : Own (.finish d) := trivial

theorem own_leave (d : Nat) : Own (.leave d) := trivial

/-- The block of the waiting parent reaches the history. -/
def Reaches (w : Parent) : Prop :=
  ∃ events w', (∀ event ∈ events, Own event) ∧ w.run events = some w' ∧
    w'.blocks = w.blocks ++ [w.table.orderedResults] ∧ w'.table = .empty

/-- An own event in front of a run that joins. -/
theorem Reaches.cons {event : Event} (hown : Own event) (hstep : w.step event = some w')
    (hblocks : w'.blocks = w.blocks) (htable : w'.table = w.table) (h : w'.Reaches) :
    w.Reaches := by
  obtain ⟨events, last, hevents, hrun, hdrained, hempty⟩ := h
  refine ⟨event :: events, last, ?_, ?_, ?_, hempty⟩
  · intro other hother
    obtain rfl | hother := List.mem_cons.mp hother
    · exact hown
    · exact hevents other hother
  · rw [Parent.run, List.foldlM_cons, hstep]
    exact hrun
  · rw [hdrained, hblocks, htable]

/-- A driver that begins drains the table. -/
theorem reaches_fresh (hjoined : w.isJoined = true) (hfresh : w.stage d = .fresh) : w.Reaches := by
  obtain ⟨hphase, hcomplete⟩ := isJoined_iff.mp hjoined
  have hentry : w.entryPhase = .awaitingEvents := by
    simp [entryPhase, hphase, SessionPhase.isTerminal]
  refine ⟨[.begin d], w.prepareTurn.setStage d .looping, ?_, ?_, ?_, ?_⟩
  · intro event hevent
    rw [List.mem_singleton.mp hevent]
    trivial
  · simp [Parent.run, Parent.step, hfresh]
  · simp [prepareTurn, hentry, hcomplete, Parent.drain, Parent.setStage]
  · simp [prepareTurn, hentry, hcomplete, Parent.drain, Parent.setStage]

/-- A callback that is due starts one. -/
theorem reaches_due (hjoined : w.isJoined = true) (hidle : w.idle = true)
    (hdue : .resume d ∈ w.ready) : w.Reaches := by
  generalize hready : w.ready = ready at hdue
  induction ready generalizing w with
  | nil => simp at hdue
  | cons c ready ih =>
      have hjoined' : isJoined { w with ready } = true := hjoined
      cases c with
      | resume e =>
          have hstep : w.step .callback = some (resumeAfter { w with ready } e) := by
            simp [Parent.step, callback, hready]
          have hstart : resumeAfter { w with ready } e = start { w with ready } := by
            have hidle' : idle { w with ready } = true := hidle
            simp [resumeAfter, hidle', hjoined']
          rw [hstart] at hstep
          refine .cons own_callback hstep rfl rfl ?_
          exact reaches_fresh (d := w.next) hjoined' (by simp)
      | taskDone e =>
          have hstep : w.step .callback = some (taskDone { w with ready } e) := by
            simp [Parent.step, callback, hready]
          have hdue : .resume d ∈ ready := by simpa using hdue
          refine .cons own_callback hstep ?_ ?_ (ih ?_ ?_ ?_ hdue)
          · unfold taskDone
            split <;> rfl
          · unfold taskDone
            split <;> rfl
          · unfold taskDone
            split <;> exact hjoined'
          · unfold taskDone
            split
            · rfl
            · exact hidle
          · unfold taskDone
            split <;> rfl

/-- **A complete batch reaches the history**, by the parent's own drivers and callbacks. -/
theorem Inv.reaches (h : w.Inv) (hjoined : w.isJoined = true) : w.Reaches := by
  cases h.awake hjoined with
  | fresh d _ hfresh => exact reaches_fresh hjoined hfresh
  | due d hdue hidle => exact reaches_due hjoined hidle hdue
  | waiting d htask hlive hresumes =>
      have hleaving {w : Parent} (hjoined : w.isJoined = true) (htask : w.task = some d)
          (hleaving : w.stage d = .leaving) (hresumes : 0 < (w.drivers d).resumes) :
          w.Reaches := by
        have hstep : w.step (.finish d) = some (w.finish d) := by simp [Parent.step, hleaving]
        refine .cons (own_finish d) hstep rfl rfl (reaches_due (d := d) hjoined ?_ ?_)
        · refine idle_iff.mpr fun e he => ?_
          obtain rfl : d = e := Option.some.inj (htask.symm.trans he)
          simp [Parent.finish, Parent.stage, Parent.setStage]
        · exact List.mem_append_right _ (List.mem_cons_of_mem _
            (List.mem_replicate.mpr ⟨by omega, rfl⟩))
      cases hstage : w.stage d with
      | fresh => exact reaches_fresh hjoined hstage
      | leaving => exact hleaving hjoined htask hstage hresumes
      | done => exact absurd hstage hlive
      | looping =>
          have hstep : w.step (.leave d) = some (w.setStage d .leaving) := by
            simp [Parent.step, hstage, (isJoined_iff.mp hjoined).1]
          refine .cons (own_leave d) hstep rfl rfl (hleaving hjoined htask (by simp) ?_)
          simpa using hresumes

/-- What a parent and its children can rely on. -/
structure Joined (w : Parent) : Prop where
  single : ∀ d e, w.InLoop d → w.InLoop e → d = e
  answered : w.opened.Perm (w.answered ++ w.table.ids)
  reaches : w.isJoined = true → w.Reaches

/-- **The join is safe in every run**, whatever the order of reports, drivers and callbacks:
at most one driver is in the session's loop or about to enter it; every row that was opened
is either in the table or answered, and answered once; and a parent whose batch is complete
is never stranded, its own drivers and callbacks bring the batch into the history. -/
theorem joined {events : List Event} (h : run {} events = some w) : w.Joined := by
  have hinv := start_empty.run h
  refine ⟨fun d e hd he => ?_, hinv.rows, hinv.reaches⟩
  exact Option.some.inj ((hinv.owned d hd).symm.trans (hinv.owned e he))

/-- A delegated call that waits for its child. -/
def delegated : PendingRow := { toolCallId := "a", kind := .childAgent, order := 0 }

/-- The child reports while its parent's driver still winds up, and a callback wakes it. -/
def wokenByCallback : List Event :=
  [.start, .begin 0, .act 0 (.move .precheck), .act 0 (.move .callingLlm),
    .act 0 (.move .handlingResponse), .act 0 (.move .executingTools), .act 0 (.addRow delegated),
    .act 0 .finishBatch, .wake "a" .done "x" none, .leave 0, .finish 0, .callback, .callback]

theorem joined_wokenByCallback :
    ∃ h : (run {} wokenByCallback).isSome = true, ((run {} wokenByCallback).get h).task = some 1 ∧
      ((run {} wokenByCallback).get h).isJoined = true ∧ ((run {} wokenByCallback).get h).Joined :=
  ⟨by decide, by decide, by decide, joined (Option.some_get _).symm⟩

end Parent

end OpenCollab.Join
