import Mathlib.Data.List.Basic

/-!
# OpenCollab.Session.Autosave

`application/autosave.py`: snapshots that are written in the background.

An event sets one flag, and one drain task takes it down, has an operation prepared and
waits for a thread to write it, as long as the flag is up again.  What happens between
two steps of the event loop is an `Action`; `State.act` is what it does.

* `act_shape` — there is one drain at most, and it is the one that is referred to;
* `act_eager` — the flag is up only while a drain will look at it;
* `autosave_keeps` — one write at a time, in the order of the preparations, and no
  generation is lost;
* `cancelled_before_start` — unless a drain is cancelled before its first step.
-/

namespace OpenCollab.Autosave

/-! ## states -/

/-- What a call of `prepare_fn` comes to: an operation, nothing to write, an `Exception`,
or an exception that is none. -/
inductive Prepared where
  | operation
  | nothing
  | raised
  | interrupted
deriving DecidableEq, Repr

/-- A write in its thread. -/
inductive Write where
  | running
  | finished (failed : Bool)
deriving DecidableEq, Repr

/-- Where `_drain_latest` stands: not begun, or waiting for the write of an operation. -/
inductive Stage where
  | created
  | waiting (operation : Nat) (write : Write) (cancelled : Bool)
deriving DecidableEq, Repr

/-- A drain task that is not done. -/
structure Drain where
  id : Nat
  stage : Stage := .created
  cancelRequested : Bool := false
deriving DecidableEq, Repr

/-- A call of `prepare_fn`: how many generations were enqueued by then, and its outcome. -/
structure Attempt where
  covers : Nat
  outcome : Prepared
deriving DecidableEq, Repr

/-- The subscriber and its tasks.  `finished` are the drains that are done and whose
callback is still to run; `enqueued`, `attempts` and `written` are the history. -/
structure State where
  pending : Bool := false
  tail : Option Nat := none
  drains : List Drain := []
  finished : List Nat := []
  nextId : Nat := 0
  failureCount : Nat := 0
  enqueued : Nat := 0
  attempts : List Attempt := []
  written : List Nat := []
deriving DecidableEq, Repr

/-- `SAVE_TRIGGERS`. -/
def saveTriggers : List String := ["user_message_appended", "step_end", "budget_reserve_allocated"]

/-- What can happen between two steps of the loop. -/
inductive Action where
  | enqueue
  | emit (type : String)
  | cancel (id : Nat)
  | writeDone (id : Nat) (failed : Bool)
  | step (id : Nat) (outcome : Prepared)
  | saveDone (id : Nat)
deriving DecidableEq, Repr

namespace State

/-- The drain of an id, if it is not done. -/
def drain? (s : State) (id : Nat) : Option Drain := s.drains.find? (·.id = id)

/-- The drain changes. -/
def setDrain (s : State) (drain : Drain) : State :=
  { s with drains := s.drains.map fun d => if d.id = drain.id then drain else d }

/-- The drain is done; its callback is called later. -/
def finish (s : State) (id : Nat) : State :=
  { s with drains := s.drains.filter (·.id ≠ id), finished := s.finished ++ [id] }

/-- The operations that have been prepared. -/
def operations (s : State) : Nat := s.attempts.countP (·.outcome = .operation)

/-- `_enqueue`. -/
def enqueue (s : State) : State :=
  let s := { s with pending := true, enqueued := s.enqueued + 1 }
  if s.drains.any fun d => s.tail = some d.id then s
  else { s with tail := some s.nextId, drains := s.drains ++ [{ id := s.nextId }]
                nextId := s.nextId + 1 }

/-- The loop of `_drain_latest`, up to its next wait. -/
def drainLatest (s : State) (id : Nat) (cancelled : Bool) (outcome : Prepared) : State :=
  if !s.pending then s.finish id
  else
    let operation := s.operations
    let s := { s with pending := false, attempts := s.attempts ++ [Attempt.mk s.enqueued outcome] }
    match outcome with
    | .operation => s.setDrain { id, stage := .waiting operation .running cancelled }
    | .nothing => s.finish id
    | .raised => { s with failureCount := s.failureCount + 1 }.finish id
    | .interrupted => s.finish id

/-- A step of a drain task.  A request to cancel it ends it if it has not begun, is put
off while the write runs, and goes unnoticed once the write has finished. -/
def step (s : State) (id : Nat) (outcome : Prepared) : State :=
  match s.drain? id with
  | none => s
  | some d =>
      match d.stage with
      | .created => if d.cancelRequested then s.finish id else s.drainLatest id false outcome
      | .waiting operation .running cancelled =>
          s.setDrain { id, stage := .waiting operation .running (cancelled || d.cancelRequested) }
      | .waiting _ (.finished failed) cancelled =>
          { s with failureCount := s.failureCount + if failed then 1 else 0 }.drainLatest id
            cancelled outcome

/-- The thread of a drain's write has finished. -/
def writeDone (s : State) (id : Nat) (failed : Bool) : State :=
  match s.drain? id with
  | some { id, stage := .waiting operation .running cancelled, cancelRequested } =>
      { s with written := s.written ++ [operation] }.setDrain
        { id, stage := .waiting operation (.finished failed) cancelled, cancelRequested }
  | _ => s

/-- `_save_done`. -/
def saveDone (s : State) (id : Nat) : State :=
  if id ∈ s.finished then
    { s with finished := s.finished.filter (· ≠ id)
             tail := if s.tail = some id then none else s.tail }
  else s

/-- What an action does. -/
def act (s : State) : Action → State
  | .enqueue => s.enqueue
  | .emit type => if type ∈ saveTriggers then s.enqueue else s
  | .cancel id =>
      match s.drain? id with
      | some d => s.setDrain { d with cancelRequested := true }
      | none => s
  | .writeDone id failed => s.writeDone id failed
  | .step id outcome => s.step id outcome
  | .saveDone id => s.saveDone id

/-- A run. -/
def run (s : State) (actions : List Action) : State := actions.foldl act s

/-- The operations whose write has not finished. -/
def inFlight (s : State) : List Nat :=
  s.drains.filterMap fun d =>
    match d.stage with
    | .waiting operation .running _ => some operation
    | _ => none

/-- What is promised in every state. -/
structure Kept (s : State) : Prop where
  /-- one write is in flight at most -/
  single : s.inFlight.length ≤ 1
  /-- the operations are written in the order in which they were prepared -/
  ordered : s.written ++ s.inFlight = List.range s.operations
  /-- without a drain, each generation is covered by an operation, or by a preparation
  that raised -/
  covered : s.drains = [] → ∀ generation < s.enqueued, ∃ attempt ∈ s.attempts,
    generation < attempt.covers ∧ (attempt.outcome = .operation ∨ attempt.outcome = .raised)
  /-- each preparation that raised is counted -/
  counted : s.attempts.countP (·.outcome = .raised) ≤ s.failureCount

end State

example : (State.run {} [.enqueue, .step 0 .operation, .enqueue, .cancel 0, .step 0 .operation,
    .writeDone 0 true, .step 0 .operation, .writeDone 0 false, .step 0 .operation, .saveDone 0]) =
    { nextId := 1, failureCount := 1, enqueued := 2, written := [0, 1]
      attempts := [⟨1, .operation⟩, ⟨2, .operation⟩] } := by decide

namespace State

variable {s : State} {d : Drain} {id : Nat}

/-! ## one drain -/

/-- The only drain, to which the subscriber refers. -/
structure Only (s : State) (d : Drain) : Prop where
  drains : s.drains = [d]
  tail : s.tail = some d.id
  id_lt : d.id < s.nextId
  not_finished : d.id ∉ s.finished
  uncancelled : d.stage = .created → d.cancelRequested = false

/-- What holds between two actions. -/
structure Inv (s : State) : Prop where
  shape : s.drains = [] ∨ ∃ d, s.Only d
  fresh : ∀ id ∈ s.finished, id < s.nextId
  eager : s.pending = true → s.drains ≠ []
  latest : s.pending = true ∨ s.enqueued = 0 ∨ ∃ attempt ∈ s.attempts,
    attempt.covers = s.enqueued ∧ (attempt.outcome = .operation ∨ attempt.outcome = .raised)
  ordered : s.written ++ s.inFlight = List.range s.operations
  counted : s.attempts.countP (·.outcome = .raised) ≤ s.failureCount

theorem inv_init : Inv {} := by
  constructor <;> simp [inFlight, operations]

theorem Only.drain?_eq (h : s.Only d) : s.drain? id = if d.id = id then some d else none := by
  rw [drain?, h.drains, List.find?_singleton]
  simp

theorem Only.setDrain_drains (h : s.Only d) {d' : Drain} (hid : d'.id = d.id) :
    (s.setDrain d').drains = [d'] := by
  simp [setDrain, h.drains, hid]

/-- The only drain changes. -/
theorem Only.setDrain (h : s.Only d) {d' : Drain} (hid : d'.id = d.id)
    (hcreated : d'.stage = .created → d'.cancelRequested = false) : (s.setDrain d').Only d' where
  drains := h.setDrain_drains hid
  tail := by rw [hid]; exact h.tail
  id_lt := by rw [hid]; exact h.id_lt
  not_finished := by rw [hid]; exact h.not_finished
  uncancelled := hcreated

/-- The operation that a drain waits for. -/
def running (d : Drain) : List Nat :=
  match d.stage with
  | .waiting operation .running _ => [operation]
  | _ => []

theorem Only.inFlight_eq (h : s.Only d) : s.inFlight = running d := by
  rw [inFlight, h.drains, running]
  cases hstage : d.stage with
  | created => simp [hstage]
  | waiting operation write cancelled => cases write <;> simp [hstage]

/-- **A change of the only drain** that leaves its write keeps the invariant. -/
theorem Inv.setDrain (h : s.Inv) (hd : s.Only d) {d' : Drain} (hid : d'.id = d.id)
    (hcreated : d'.stage = .created → d'.cancelRequested = false)
    (hwrite : running d' = running d) : (s.setDrain d').Inv where
  shape := .inr ⟨d', hd.setDrain hid hcreated⟩
  fresh := h.fresh
  eager := fun _ => by rw [hd.setDrain_drains hid]; exact List.cons_ne_nil _ _
  latest := h.latest
  ordered := by
    rw [(hd.setDrain hid hcreated).inFlight_eq, hwrite, ← hd.inFlight_eq]
    exact h.ordered
  counted := h.counted

/-- **The only drain ends** once the flag is down and its write is done. -/
theorem Inv.finish (h : s.Inv) (hd : s.Only d) (hpending : s.pending = false)
    (hwrite : running d = []) : (s.finish d.id).Inv := by
  have hdrains : (s.finish d.id).drains = [] := by simp [State.finish, hd.drains]
  refine ⟨.inl hdrains, ?_, ?_, h.latest, ?_, h.counted⟩
  · intro id hmem
    obtain hmem | hmem := List.mem_append.mp hmem
    · exact h.fresh id hmem
    · rw [List.mem_singleton.mp hmem]
      exact hd.id_lt
  · intro htrue
    rw [show (s.finish d.id).pending = s.pending from rfl, hpending] at htrue
    contradiction
  · have hordered := h.ordered
    rw [hd.inFlight_eq, hwrite] at hordered
    rw [inFlight, hdrains]
    exact hordered

/-! ## one action -/

theorem Inv.enqueue (h : s.Inv) : s.enqueue.Inv := by
  obtain hnone | ⟨d, hd⟩ := h.shape
  · -- the first generation, or one after a drain that is done: a new drain
    have heq : s.enqueue = { s with pending := true, enqueued := s.enqueued + 1
                                    tail := some s.nextId, drains := [{ id := s.nextId }]
                                    nextId := s.nextId + 1 } := by
      simp [State.enqueue, hnone]
    have hordered := h.ordered
    rw [inFlight, hnone] at hordered
    rw [heq]
    refine ⟨.inr ⟨_, rfl, rfl, Nat.lt_succ_self _, ?_, fun _ => rfl⟩, ?_, ?_, .inl rfl, hordered,
      h.counted⟩
    · intro hmem
      exact Nat.lt_irrefl _ (h.fresh _ hmem)
    · intro id hid
      exact Nat.lt_succ_of_lt (h.fresh id hid)
    · exact fun _ => List.cons_ne_nil _ _
  · have heq : s.enqueue = { s with pending := true, enqueued := s.enqueued + 1 } := by
      simp [State.enqueue, hd.drains, hd.tail]
    rw [heq]
    refine ⟨.inr ⟨d, hd.drains, hd.tail, hd.id_lt, hd.not_finished, hd.uncancelled⟩, h.fresh, ?_,
      .inl rfl, h.ordered, h.counted⟩
    intro _
    exact hd.drains ▸ List.cons_ne_nil _ _

/-- **The loop of a drain** whose write is done, or that begins. -/
theorem Inv.drainLatest (h : s.Inv) (hd : s.Only d) (hwrite : running d = []) (cancelled : Bool)
    {outcome : Prepared} (houtcome : outcome = .operation ∨ outcome = .raised) :
    (s.drainLatest d.id cancelled outcome).Inv := by
  rw [State.drainLatest]
  cases hpending : s.pending with
  | false => exact h.finish hd hpending hwrite
  | true =>
      rw [Bool.not_true, if_neg Bool.false_ne_true]
      have hordered := h.ordered
      rw [hd.inFlight_eq, hwrite, List.append_nil] at hordered
      obtain rfl | rfl := houtcome
      · -- the operation is submitted; it is the next one
        have hnext : s.operations + 1 = ({ s with pending := false, attempts := s.attempts ++
            [Attempt.mk s.enqueued .operation] } : State).operations := by
          simp [operations]
        have honly : ({ s with pending := false, attempts := s.attempts ++
            [Attempt.mk s.enqueued .operation] } : State).Only d :=
          ⟨hd.drains, hd.tail, hd.id_lt, hd.not_finished, hd.uncancelled⟩
        have hset := @Only.setDrain _ _ honly
          { id := d.id, stage := .waiting s.operations .running cancelled } rfl
          (fun hcreated => by contradiction)
        refine ⟨.inr ⟨_, hset⟩, h.fresh, fun htrue => by contradiction,
          .inr (.inr ⟨_, List.mem_append_right _ List.mem_cons_self, rfl, .inl rfl⟩), ?_, ?_⟩
        · rw [hset.inFlight_eq]
          change s.written ++ [s.operations] = List.range (operations _)
          rw [hordered]
          change _ = List.range (({ s with pending := false, attempts := s.attempts ++
            [Attempt.mk s.enqueued .operation] } : State).operations)
          rw [← hnext, List.range_succ]
        · have hcounted := h.counted
          simpa [State.setDrain] using hcounted
      · -- the preparation raised, and is counted
        have honly : ({ s with pending := false, attempts := s.attempts ++
            [Attempt.mk s.enqueued .raised], failureCount := s.failureCount + 1 } : State).Only d :=
          ⟨hd.drains, hd.tail, hd.id_lt, hd.not_finished, hd.uncancelled⟩
        refine Inv.finish ?_ honly rfl hwrite
        refine ⟨.inr ⟨d, honly⟩, h.fresh, fun htrue => by contradiction,
          .inr (.inr ⟨_, List.mem_append_right _ List.mem_cons_self, rfl, .inr rfl⟩), ?_, ?_⟩
        · rw [honly.inFlight_eq, hwrite, List.append_nil]
          simpa [operations] using hordered
        · have hcounted := h.counted
          simpa using hcounted

theorem Inv.step (h : s.Inv) {outcome : Prepared}
    (houtcome : outcome = .operation ∨ outcome = .raised) : (s.step id outcome).Inv := by
  obtain hnone | ⟨d, hd⟩ := h.shape
  · have heq : s.step id outcome = s := by simp [State.step, drain?, hnone]
    rwa [heq]
  · rw [State.step, hd.drain?_eq]
    split
    · exact h
    · rename_i d' hsome
      obtain ⟨hid, rfl⟩ : d.id = id ∧ d = d' := by simpa using hsome
      subst hid
      cases hstage : d.stage with
      | created =>
          rw [hd.uncancelled hstage]
          exact h.drainLatest hd (by rw [running, hstage]) false houtcome
      | waiting operation write cancelled =>
          cases write with
          | running =>
              exact h.setDrain hd rfl (fun hcreated => by contradiction)
                (by rw [running, running, hstage])
          | finished failed =>
              have honly : ({ s with failureCount := s.failureCount + if failed then 1 else 0 } :
                  State).Only d :=
                ⟨hd.drains, hd.tail, hd.id_lt, hd.not_finished, hd.uncancelled⟩
              refine Inv.drainLatest ⟨.inr ⟨d, honly⟩, h.fresh, h.eager, h.latest, h.ordered,
                ?_⟩ honly
                (by rw [running, hstage]) cancelled houtcome
              exact Nat.le_trans h.counted (Nat.le_add_right _ _)

theorem Inv.writeDone (h : s.Inv) (failed : Bool) : (s.writeDone id failed).Inv := by
  obtain hnone | ⟨d, hd⟩ := h.shape
  · have heq : s.writeDone id failed = s := by simp [State.writeDone, drain?, hnone]
    rwa [heq]
  · rw [State.writeDone, hd.drain?_eq]
    split
    · rename_i id' operation cancelled requested hsome
      obtain ⟨hid, rfl⟩ : d.id = id ∧
        d = ⟨id', .waiting operation .running cancelled, requested⟩ := by
        simpa using hsome
      have honly : ({ s with written := s.written ++ [operation] } : State).Only
          ⟨id', .waiting operation .running cancelled, requested⟩ :=
        ⟨hd.drains, hd.tail, hd.id_lt, hd.not_finished, hd.uncancelled⟩
      have hset := @Only.setDrain _ _ honly
        ⟨id', .waiting operation (.finished failed) cancelled, requested⟩ rfl
        (fun hcreated => by contradiction)
      have hordered := h.ordered
      rw [hd.inFlight_eq] at hordered
      refine ⟨.inr ⟨_, hset⟩, h.fresh, fun _ => by rw [hset.drains]; exact List.cons_ne_nil _ _,
        h.latest, ?_, h.counted⟩
      rw [hset.inFlight_eq]
      exact (List.append_nil _).trans hordered
    · exact h

theorem Inv.saveDone (h : s.Inv) : (s.saveDone id).Inv := by
  rw [State.saveDone]
  split
  · rename_i hmem
    refine ⟨?_, ?_, h.eager, h.latest, h.ordered, h.counted⟩
    · obtain hnone | ⟨d, hd⟩ := h.shape
      · exact .inl hnone
      · have hne : d.id ≠ id := fun heq => hd.not_finished (heq ▸ hmem)
        have htail : (if s.tail = some id then none else s.tail) = some d.id := by
          rw [hd.tail, if_neg fun heq => hne (Option.some.inj heq)]
        exact .inr ⟨d, hd.drains, htail, hd.id_lt,
          fun hin => hd.not_finished (List.mem_of_mem_filter hin),
          hd.uncancelled⟩
    · intro i hi
      exact h.fresh i (List.mem_of_mem_filter hi)
  · exact h

/-! ## runs -/

/-- No drain is cancelled before its first step, and a preparation gives an operation or
raises an `Exception`. -/
def Graceful (s : State) : Action → Prop
  | .cancel id => ∀ d ∈ s.drains, d.id = id → d.stage ≠ .created
  | .step _ outcome => outcome = .operation ∨ outcome = .raised
  | _ => True

/-- **An action keeps the invariant.** -/
theorem Inv.act (h : s.Inv) {action : Action} (hgraceful : s.Graceful action) :
    (s.act action).Inv := by
  cases action with
  | enqueue => exact h.enqueue
  | emit type =>
      rw [State.act]
      split
      · exact h.enqueue
      · exact h
  | cancel id =>
      rw [State.act]
      obtain hnone | ⟨d, hd⟩ := h.shape
      · simpa [drain?, hnone] using h
      · rw [hd.drain?_eq]
        split
        · rename_i d' hsome
          obtain ⟨hid, rfl⟩ : d.id = id ∧ d = d' := by simpa using hsome
          have hbegun : d.stage ≠ .created := hgraceful d (hd.drains ▸ List.mem_cons_self) hid
          exact h.setDrain hd rfl (fun hcreated => absurd hcreated hbegun) rfl
        · exact h
  | writeDone id failed => exact h.writeDone failed
  | step id outcome => exact h.step hgraceful
  | saveDone id => exact h.saveDone

/-- The states of the runs in which each action is graceful. -/
inductive Reached : State → Prop
  | start : Reached {}
  | next {s : State} {action : Action} : Reached s → s.Graceful action → Reached (s.act action)

theorem Reached.inv (h : Reached s) : s.Inv := by
  induction h with
  | start => exact inv_init
  | next _ hgraceful ih => exact ih.act hgraceful

/-- **Autosave loses no generation** in the runs in which no drain is cancelled before its
first step. -/
theorem autosave_keeps (h : Reached s) : s.Kept := by
  have hinv := h.inv
  refine ⟨?_, hinv.ordered, ?_, hinv.counted⟩
  · obtain hnone | ⟨d, hd⟩ := hinv.shape
    · simp [inFlight, hnone]
    · rw [hd.inFlight_eq, running]
      split <;> simp
  · intro hnone generation hlt
    have hdown : ¬s.pending = true := fun hpending => hinv.eager hpending hnone
    obtain hup | hzero | ⟨attempt, hmem, hcovers, houtcome⟩ := hinv.latest
    · exact absurd hup hdown
    · omega
    · exact ⟨attempt, hmem, by omega, houtcome⟩

instance (s : State) : (action : Action) → Decidable (s.Graceful action)
  | .cancel id => inferInstanceAs (Decidable (∀ d ∈ s.drains, d.id = id → d.stage ≠ .created))
  | .step _ outcome => inferInstanceAs (Decidable (outcome = .operation ∨ outcome = .raised))
  | .enqueue | .emit _ | .writeDone .. | .saveDone _ => inferInstanceAs (Decidable True)

/-- Each action of a run is graceful where it happens. -/
def gracefulRun (s : State) : List Action → Bool
  | [] => true
  | action :: actions => decide (s.Graceful action) && (s.act action).gracefulRun actions

theorem Reached.run {actions : List Action} (h : Reached s)
    (hgraceful : s.gracefulRun actions = true) : Reached (s.run actions) := by
  induction actions generalizing s with
  | nil => exact h
  | cons action actions ih =>
      rw [gracefulRun, Bool.and_eq_true, decide_eq_true_eq] at hgraceful
      exact ih (.next h hgraceful.1) hgraceful.2

/-- The drain takes three generations in two writes, the first of which fails, although it is
cancelled on the way, and is done: the last generation is covered. -/
theorem autosave_keeps_sample :
    let s := State.run {} [.emit "step_end", .step 0 .operation, .enqueue, .cancel 0, .enqueue,
      .step 0 .operation, .writeDone 0 true, .step 0 .operation, .writeDone 0 false,
      .step 0 .operation]
    s.Kept ∧ s.drains = [] ∧ ∃ attempt ∈ s.attempts, 2 < attempt.covers ∧
      (attempt.outcome = .operation ∨ attempt.outcome = .raised) := by
  intro s
  have hkept : s.Kept := autosave_keeps (Reached.start.run (by decide))
  have hdone : s.drains = [] := by decide
  exact ⟨hkept, hdone, hkept.covered hdone 2 (by decide)⟩

/-- **A drain that is cancelled before its first step** leaves its generation to nobody. -/
theorem cancelled_before_start : ¬∀ actions : List Action, (run {} actions).Kept := by
  intro h
  obtain ⟨attempt, hmem, -⟩ := (h [.enqueue, .cancel 0, .step 0 .operation]).covered (by decide) 0
    (by decide)
  revert hmem
  have hnone : (run {} [.enqueue, .cancel 0, .step 0 .operation]).attempts = [] := by decide
  rw [hnone]
  exact List.not_mem_nil

end State

end OpenCollab.Autosave
