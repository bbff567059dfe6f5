import OpenCollab.Trace.Writer

/-!
# OpenCollab.Trace.Tracer

`log_step` numbers a record and hands it to a bounded queue, one writer thread
appends the queued records to the file, and `flush` and `close` go through the
same queue.  Each section under the state's lock is one step, as is each
operation on the queue, so that the steps of any number of threads may stand in
any order.

- `Accounts.act`: what each step keeps of the account of the records.
- `Tracer.Exact`, `Accounts.exact`: once `close` has returned, each call is a
  record of the file or is counted as dropped.
-/

namespace OpenCollab.Trace

open LineFrames

/-- `_TRACE_QUEUE_MAX_RECORDS`. -/
def traceQueueMaxRecords : Nat := 1024

/-- What the queue holds: a record, a `_FlushRequest`, or `_CLOSE_WRITER`. -/
inductive Item where
  | line (l : Line)
  | flush
  | close
deriving DecidableEq, Repr

/-- The writer thread: it waits for an item, has taken one, is about to append a record,
has failed to and is about to say so, or has returned. -/
inductive Writer where
  | idle
  | taken (item : Item)
  | writing (l : Line)
  | failed
  | finished
deriving DecidableEq, Repr

/-- Who holds the lifecycle lock, and where the holder is: a `flush` in `join`, before its
`put`, or waiting for its request; a `close` before its `put`, or joining the writer. -/
inductive Lifecycle where
  | free
  | joining
  | putting
  | waiting (done : Bool)
  | closing
  | ending
deriving DecidableEq, Repr

/-- A `Tracer` with its `_TraceWriterState`.  The last five fields keep what happened: the
step the file was recovered at, the calls of `log_step`, the records that were queued, the
bytes that were appended, and whether `close` has returned. -/
structure Tracer where
  stepCounter : Nat
  queue : List Item := []
  writer : Writer := .idle
  lifecycle : Lifecycle := .free
  closed : Bool := false
  handleClosed : Bool := false
  writeError : Bool := false
  droppedSteps : Nat := 0
  recovered : Nat := stepCounter
  calls : Nat := 0
  submitted : List Line := []
  appended : Bytes := []
  returned : Bool := false
deriving DecidableEq, Repr

/-- The steps of the threads. -/
inductive Action where
  /-- `log_step` under the state's lock, with what `json.dumps` returned -/
  | logStep (serialized : Bytes)
  /-- `flush` takes the lifecycle lock -/
  | flush
  /-- its `join` returns, and it looks at `_closed` -/
  | joined
  /-- its request is queued -/
  | putFlush
  /-- its wait for the request ends -/
  | flushed
  /-- `close` takes the lifecycle lock, and sets `_closed` -/
  | close
  /-- `_CLOSE_WRITER` is queued -/
  | putClose
  /-- the writer has been joined, and the lease is released -/
  | writerJoined
  /-- the writer takes an item -/
  | get
  /-- it deals with it; `ok` says whether the file's `flush` or `close` succeeds -/
  | handle (ok : Bool)
  /-- it appends the record -/
  | write (a : Append)
  /-- it latches the error, and closes the file -/
  | latch

namespace Tracer

/-- `log_step`, from the state's lock on. -/
def logStep (t : Tracer) (serialized : Bytes) : Tracer :=
  let t := { t with calls := t.calls + 1 }
  if t.closed || t.writeError then { t with droppedSteps := t.droppedSteps + 1 }
  else if t.queue.length < traceQueueMaxRecords then
    { t with
      queue := t.queue ++ [.line ⟨t.stepCounter + 1, serialized⟩]
      stepCounter := t.stepCounter + 1
      submitted := t.submitted ++ [⟨t.stepCounter + 1, serialized⟩] }
  else { t with writeError := true, droppedSteps := t.droppedSteps + 1 }

/-- The writer deals with the item it has taken. -/
def handle (t : Tracer) (ok : Bool) : Item → Tracer
  | .close =>
      { t with
        writer := .finished
        handleClosed := t.handleClosed || ok
        writeError := t.writeError || !(t.handleClosed || ok) }
  | .flush =>
      { t with
        writer := .idle
        lifecycle := if t.lifecycle = .waiting false then .waiting true else t.lifecycle
        writeError := t.writeError || !(t.handleClosed || ok) }
  | .line l =>
      if t.writeError then { t with writer := .idle, droppedSteps := t.droppedSteps + 1 }
      else { t with writer := .writing l }

/-- What a step appends to the file. -/
def output (t : Tracer) : Action → Bytes
  | .write a => match t.writer with
    | .writing l => (writeLockedText a l.text).1
    | _ => []
  | _ => []

/-- One step; a step that is not due changes nothing. -/
def act (t : Tracer) : Action → Tracer
  | .logStep serialized => t.logStep serialized
  | .flush => if t.lifecycle = .free then { t with lifecycle := .joining } else t
  | .joined =>
      if t.lifecycle = .joining ∧ t.queue = [] ∧ (t.writer = .idle ∨ t.writer = .finished) then
        { t with lifecycle := if t.closed then .free else .putting }
      else t
  | .putFlush =>
      if t.lifecycle = .putting ∧ t.queue.length < traceQueueMaxRecords then
        { t with queue := t.queue ++ [.flush], lifecycle := .waiting false }
      else t
  | .flushed => if t.lifecycle = .waiting true then { t with lifecycle := .free } else t
  | .close =>
      if t.lifecycle = .free ∧ t.closed = false then
        { t with closed := true, lifecycle := .closing }
      else t
  | .putClose =>
      if t.lifecycle = .closing ∧ t.queue.length < traceQueueMaxRecords then
        { t with queue := t.queue ++ [.close], lifecycle := .ending }
      else t
  | .writerJoined =>
      if t.lifecycle = .ending ∧ t.writer = .finished then
        { t with lifecycle := .free, returned := true }
      else t
  | .get => match t.writer, t.queue with
    | .idle, item :: queue => { t with writer := .taken item, queue }
    | _, _ => t
  | .handle ok => match t.writer with
    | .taken item => t.handle ok item
    | _ => t
  | .write a => match t.writer with
    | .writing l =>
        { t with
          appended := t.appended ++ t.output (.write a)
          writer := if (writeLockedText a l.text).2 then .idle else .failed }
    | _ => t
  | .latch =>
      if t.writer = .failed then
        { t with writer := .idle, writeError := true, droppedSteps := t.droppedSteps + 1,
                 handleClosed := true }
      else t

/-- The lock of the file can be given back wherever the system took the whole record. -/
def Unlocks (t : Tracer) : Action → Prop
  | .write a => ∀ l, t.writer = .writing l → a.unlocks = true ∨ a.takes l.text = false
  | _ => True

/-- The account is exact: once `close` has returned, each call is one of the complete
records that were appended, or was counted as dropped; and these records stand in the
order in which they were queued. -/
def Exact (t : Tracer) : Prop :=
  (t.returned = true → t.calls = (completeLines t.appended).length + t.droppedSteps) ∧
    (completeLines t.appended).Sublist (t.submitted.map Line.body)

/-! ## what is on its way -/

/-- The record an item stands for. -/
def lineOf : Item → Option Line
  | .line l => some l
  | _ => none

/-- The record in the writer's hands. -/
def inHand : Writer → List Line
  | .taken item => (lineOf item).toList
  | .writing l => [l]
  | _ => []

/-- The records that are neither in the file nor dropped, in the order of their numbers. -/
def pending (t : Tracer) : List Line := inHand t.writer ++ t.queue.filterMap lineOf

/-- The record whose append has failed, until it is counted. -/
def lost (t : Tracer) : Nat := if t.writer = .failed then 1 else 0

/-- No `_CLOSE_WRITER` has been queued. -/
def Unclosed (t : Tracer) : Prop :=
  Item.close ∉ t.queue ∧ t.writer ≠ .taken .close ∧ t.writer ≠ .finished

/-- The `_CLOSE_WRITER` is the last item, or has been taken. -/
def Ending (t : Tracer) : Prop :=
  (∃ queue, t.queue = queue ++ [.close] ∧ Item.close ∉ queue ∧ t.writer ≠ .taken .close ∧
      t.writer ≠ .finished) ∨
    (t.queue = [] ∧ (t.writer = .taken .close ∨ t.writer = .finished))

/-- The record of the call is one `json` can be relied on for. -/
def Writes (loads : Bytes → JsonLoads) (t : Tracer) : Action → Prop
  | .logStep serialized => Line.Dumped loads ⟨t.stepCounter + 1, serialized⟩
  | _ => True

/-- The account of a tracer: what it appended are the records `done` and a part `torn` of
one more. -/
structure Accounts (loads : Bytes → JsonLoads) (t : Tracer) (done : List Line) (torn : Bytes) :
    Prop where
  appended : t.appended = frames (done.map Line.body) ++ torn
  dumped : ∀ l ∈ t.submitted, l.Dumped loads
  rising : t.submitted.Pairwise (·.step < ·.step)
  above : ∀ l ∈ t.submitted, t.recovered < l.step ∧ l.step ≤ t.stepCounter
  torn_of : torn = [] ∨ ∃ l, (done ++ [l]).Sublist t.submitted ∧ torn <+: l.body
  latched : torn = [] ∨ t.writer = .failed ∨ t.writeError = true
  writing : ∀ l, t.writer = .writing l → torn = []
  order : (done ++ t.pending).Sublist t.submitted
  count : t.calls = done.length + t.pending.length + t.lost + t.droppedSteps
  unclosed : t.closed = false ∨ t.lifecycle = .closing → t.Unclosed
  ending : t.closed = true → t.lifecycle ≠ .closing → t.Ending
  flushing : t.lifecycle = .putting → t.closed = false
  shut : t.lifecycle = .closing → t.closed = true
  returned : t.returned = true → t.writer = .finished
  recovered_le : t.recovered ≤ t.stepCounter

variable {loads : Bytes → JsonLoads} {t : Tracer} {done : List Line} {torn : Bytes}

/-- What a step adds to the file. -/
theorem appended_act (t : Tracer) (action : Action) :
    (t.act action).appended = t.appended ++ t.output action := by
  cases action with
  | logStep serialized =>
      simp only [act, output, logStep, List.append_nil]
      split
      · rfl
      · split <;> rfl
  | handle ok =>
      simp only [act, output, List.append_nil]
      split
      · rename_i item hitem
        cases item with
        | line l =>
            rw [Tracer.handle]
            split <;> rfl
        | flush => rfl
        | close => rfl
      · rfl
  | write a =>
      simp only [act, output]
      split
      · rfl
      · rw [List.append_nil]
  | _ =>
      simp only [act, output, List.append_nil]
      split <;> rfl

/-- The step the file was recovered at stays what it was. -/
theorem recovered_act (t : Tracer) (action : Action) : (t.act action).recovered = t.recovered := by
  cases action with
  | logStep serialized =>
      simp only [act, logStep]
      split
      · rfl
      · split <;> rfl
  | handle ok =>
      simp only [act]
      split
      · rename_i item hitem
        cases item with
        | line l =>
            rw [Tracer.handle]
            split <;> rfl
        | flush => rfl
        | close => rfl
      · rfl
  | _ =>
      simp only [act]
      split <;> rfl

/-- A tracer that has just been made. -/
theorem accounts_new (n : Nat) : Accounts loads { stepCounter := n } [] [] where
  appended := rfl
  dumped := by simp
  rising := List.Pairwise.nil
  above := by simp
  torn_of := .inl rfl
  latched := .inl rfl
  writing := by simp
  order := List.Sublist.refl _
  count := rfl
  unclosed := by simp [Unclosed]
  ending := by simp
  flushing := by simp
  shut := by simp
  returned := by simp
  recovered_le := Nat.le_refl _

namespace Accounts

/-- The lifecycle lock changes hands, or its holder goes on. -/
theorem setLifecycle (h : Accounts loads t done torn) {lifecycle : Lifecycle}
    (hold : t.lifecycle ≠ .closing) (hnew : lifecycle ≠ .closing)
    (hflush : lifecycle = .putting → t.closed = false) :
    Accounts loads { t with lifecycle } done torn :=
  { h with
    unclosed := fun hopen => h.unclosed (hopen.imp_right fun heq => absurd heq hnew)
    ending := fun hclosed _ => h.ending hclosed hold
    flushing := hflush
    shut := fun heq => absurd heq hnew }

/-- A `_FlushRequest` comes into the queue. -/
theorem putFlush (h : Accounts loads t done torn) (hputting : t.lifecycle = .putting) :
    Accounts loads { t with queue := t.queue ++ [.flush], lifecycle := .waiting false }
      done torn := by
  have hopen := h.flushing hputting
  have hpending : Tracer.pending
    { t with queue := t.queue ++ [.flush], lifecycle := .waiting false } =
      t.pending := by
    simp [pending, lineOf]
  refine { h with
    order := ?_, count := ?_, unclosed := ?_, ending := ?_, flushing := fun heq => by contradiction,
    shut := fun heq => by contradiction }
  · rw [hpending]
    exact h.order
  · rw [hpending]
    exact h.count
  · intro hcond
    obtain ⟨hqueue, hwriter⟩ := h.unclosed (.inl hopen)
    exact ⟨by simpa using hqueue, hwriter⟩
  · intro hclosed
    exact absurd (hopen.symm.trans hclosed) Bool.false_ne_true

/-- `close` sets `_closed`. -/
theorem close (h : Accounts loads t done torn) (hopen : t.closed = false) :
    Accounts loads { t with closed := true, lifecycle := .closing } done torn :=
  { h with
    unclosed := fun _ => h.unclosed (.inl hopen)
    ending := fun _ hne => absurd rfl hne
    flushing := fun heq => by contradiction
    shut := fun _ => rfl }

/-- The `_CLOSE_WRITER` comes into the queue, as its last item. -/
theorem putClose (h : Accounts loads t done torn) (hclosing : t.lifecycle = .closing) :
    Accounts loads { t with queue := t.queue ++ [.close], lifecycle := .ending } done torn := by
  have hclosed := h.shut hclosing
  have hpending : Tracer.pending { t with queue := t.queue ++ [.close], lifecycle := .ending } =
      t.pending := by
    simp [pending, lineOf]
  refine { h with
    order := ?_, count := ?_, unclosed := ?_, ending := ?_, flushing := fun heq => by contradiction,
    shut := fun heq => by contradiction }
  · rw [hpending]
    exact h.order
  · rw [hpending]
    exact h.count
  · intro hcond
    obtain hopen | heq := hcond
    · exact absurd (hopen.symm.trans hclosed) Bool.false_ne_true
    · contradiction
  · intro _ _
    obtain ⟨hqueue, hwriter⟩ := h.unclosed (.inr hclosing)
    exact .inl ⟨t.queue, rfl, hqueue, hwriter⟩

theorem logStep (h : Accounts loads t done torn) {serialized : Bytes}
    (hdumped : Line.Dumped loads ⟨t.stepCounter + 1, serialized⟩) :
    Accounts loads (t.logStep serialized) done torn := by
  have hcount := h.count
  rw [Tracer.logStep]
  dsimp only
  split
  · exact { h with count := by simp only [pending, lost] at hcount ⊢; omega }
  · rename_i hopen
    have hclosed : t.closed = false := by
      cases hc : t.closed with
      | true => simp [hc] at hopen
      | false => rfl
    split
    · -- the record is queued
      refine { h with
        dumped := ?_, rising := ?_, above := ?_, torn_of := ?_, order := ?_, count := ?_,
        unclosed := ?_, ending := ?_, recovered_le := Nat.le_succ_of_le h.recovered_le }
      · intro l hl
        obtain hl | hl := List.mem_append.mp hl
        · exact h.dumped l hl
        · rw [List.mem_singleton.mp hl]
          exact hdumped
      · rw [List.pairwise_append]
        refine ⟨h.rising, List.pairwise_singleton _ _, fun l hl l' hl' => ?_⟩
        rw [List.mem_singleton.mp hl']
        exact Nat.lt_succ_of_le (h.above l hl).2
      · intro l hl
        obtain hl | hl := List.mem_append.mp hl
        · exact ⟨(h.above l hl).1, Nat.le_succ_of_le (h.above l hl).2⟩
        · rw [List.mem_singleton.mp hl]
          exact ⟨Nat.lt_succ_of_le h.recovered_le, Nat.le_refl _⟩
      · obtain hnil | ⟨l, hl, hpre⟩ := h.torn_of
        · exact .inl hnil
        · exact .inr ⟨l, hl.trans (List.sublist_append_left _ _), hpre⟩
      · have hpending : ({ t with
            queue := t.queue ++ [.line ⟨t.stepCounter + 1, serialized⟩] } : Tracer).pending =
            t.pending ++ [⟨t.stepCounter + 1, serialized⟩] := by
          simp [pending, lineOf]
        change (done ++ Tracer.pending { t with
          queue := t.queue ++ [.line ⟨t.stepCounter + 1, serialized⟩] }).Sublist _
        rw [hpending, ← List.append_assoc]
        exact h.order.append (List.Sublist.refl _)
      · simp only [pending, lost, lineOf, List.filterMap_append, List.length_append,
          List.filterMap_cons, List.filterMap_nil, List.length_singleton] at hcount ⊢
        omega
      · intro hcond
        obtain ⟨hqueue, hwriter⟩ := h.unclosed (.inl hclosed)
        exact ⟨by simpa using hqueue, hwriter⟩
      · intro htrue
        exact absurd (hclosed.symm.trans htrue) Bool.false_ne_true
    · exact { h with
        latched := h.latched.imp_right fun _ => .inr rfl
        count := by simp only [pending, lost] at hcount ⊢; omega }

/-- The writer takes an item. -/
theorem get (h : Accounts loads t done torn) {item : Item} {queue : List Item}
    (hidle : t.writer = .idle) (hqueue : t.queue = item :: queue) :
    Accounts loads { t with writer := .taken item, queue } done torn := by
  have hpending : Tracer.pending { t with writer := .taken item, queue } = t.pending := by
    cases item <;> simp [pending, inHand, lineOf, hidle, hqueue, List.filterMap_cons]
  refine { h with
    latched := ?_, writing := ?_, order := ?_, count := ?_, unclosed := ?_, ending := ?_,
    returned := ?_ }
  · refine h.latched.imp_right fun hor => .inr (hor.resolve_left ?_)
    rw [hidle]
    exact Writer.noConfusion
  · intro l hl
    contradiction
  · rw [hpending]
    exact h.order
  · have hlost : t.lost = 0 := by simp [lost, hidle]
    have hcount := h.count
    rw [hlost] at hcount
    rw [hpending]
    exact hcount
  · intro hcond
    obtain ⟨hnot, -⟩ := h.unclosed hcond
    rw [hqueue, List.mem_cons, not_or] at hnot
    refine ⟨hnot.2, fun heq => ?_, Writer.noConfusion⟩
    exact hnot.1 (Writer.taken.inj heq).symm
  · intro hclosed hclosing
    obtain ⟨front, hfront, hnot, -⟩ | ⟨hnil, -⟩ := h.ending hclosed hclosing
    · rw [hqueue] at hfront
      cases front with
      | nil =>
          obtain ⟨rfl, rfl⟩ := List.cons.inj hfront
          exact .inr ⟨rfl, .inl rfl⟩
      | cons first front =>
          obtain ⟨rfl, rfl⟩ := List.cons.inj hfront
          rw [List.mem_cons, not_or] at hnot
          refine .inl ⟨front, rfl, hnot.2, fun heq => ?_, Writer.noConfusion⟩
          exact hnot.1 (Writer.taken.inj heq).symm
    · rw [hqueue] at hnil
      contradiction
  · intro hreturned
    have := h.returned hreturned
    rw [hidle] at this
    contradiction

/-- The writer goes on from an item that is no `_CLOSE_WRITER`: its record, if it was one,
is counted, handed on, or in the file. -/
theorem setWriter (h : Accounts loads t done torn) (writer : Writer)
    (writeError handleClosed : Bool) (droppedSteps : Nat)
    (hbusy : t.writer ≠ .idle ∧ t.writer ≠ .finished ∧ t.writer ≠ .taken .close)
    (hnew : writer ≠ .taken .close ∧ writer ≠ .finished)
    (hlatched : torn = [] ∨ writer = .failed ∨ writeError = true)
    (hwriting : ∀ l, writer = .writing l → torn = [])
    (horder : (inHand writer).Sublist (inHand t.writer))
    (hcount : (inHand t.writer).length + t.lost + t.droppedSteps =
      (inHand writer).length + (if writer = .failed then 1 else 0) + droppedSteps) :
    Accounts loads { t with writer, writeError, handleClosed, droppedSteps } done torn := by
  have hold := h.count
  refine { h with
    latched := hlatched, writing := hwriting, order := ?_, count := ?_, unclosed := ?_,
    ending := ?_, returned := ?_ }
  · refine List.Sublist.trans ?_ h.order
    exact (List.Sublist.refl done).append (horder.append (List.Sublist.refl _))
  · simp only [pending, List.length_append] at hold ⊢
    simp only [lost] at hcount ⊢
    simp only [lost] at hold
    omega
  · intro hcond
    exact ⟨(h.unclosed hcond).1, hnew⟩
  · intro hclosed hclosing
    obtain ⟨front, hfront, hnot, -⟩ | ⟨-, hend⟩ := h.ending hclosed hclosing
    · exact .inl ⟨front, hfront, hnot, hnew⟩
    · obtain hend | hend := hend
      · exact absurd hend hbusy.2.2
      · exact absurd hend hbusy.2.1
  · intro hreturned
    exact absurd (h.returned hreturned) hbusy.2.1

theorem finish (h : Accounts loads t done torn) (htaken : t.writer = .taken .close)
    (writeError handleClosed : Bool) (herror : t.writeError = true → writeError = true) :
    Accounts loads { t with writer := .finished, handleClosed, writeError } done torn := by
  have hcount := h.count
  refine { h with
    latched := ?_, writing := fun l hl => by contradiction, order := ?_, count := ?_,
    unclosed := ?_, ending := ?_, returned := fun _ => rfl }
  · refine h.latched.imp_right fun hor => .inr (herror (hor.resolve_left ?_))
    rw [htaken]
    exact Writer.noConfusion
  · have horder := h.order
    simp only [pending, htaken, inHand, lineOf] at horder ⊢
    exact horder
  · simp only [pending, lost, htaken, inHand, lineOf] at hcount ⊢
    exact hcount
  · intro hcond
    exact absurd htaken (h.unclosed hcond).2.1
  · intro hclosed hclosing
    obtain ⟨front, -, -, hnot, -⟩ | ⟨hnil, -⟩ := h.ending hclosed hclosing
    · exact absurd htaken hnot
    · exact .inr ⟨hnil, .inr rfl⟩

theorem handle (h : Accounts loads t done torn) {item : Item} (htaken : t.writer = .taken item)
    (ok : Bool) : Accounts loads (t.handle ok item) done torn := by
  have hnotFailed : t.writer ≠ .failed := by simp [htaken]
  cases item with
  | close => exact h.finish htaken _ _ fun herror => by simp [herror]
  | flush =>
      have hset := h.setWriter .idle (t.writeError || !(t.handleClosed || ok)) t.handleClosed
        t.droppedSteps (by simp [htaken]) (by simp)
          (h.latched.imp_right fun hor => .inr (by simp [hor.resolve_left hnotFailed]))
        (by simp) (by simp [inHand]) (by simp [inHand, lineOf, lost, htaken])
      rw [Tracer.handle]
      split
      · rename_i hwaiting
        exact hset.setLifecycle (by simp [hwaiting]) (by simp) (by simp)
      · exact hset
  | line l =>
      rw [Tracer.handle]
      split
      · rename_i herror
        exact h.setWriter .idle t.writeError t.handleClosed _ (by simp [htaken]) (by simp)
          (.inr (.inr herror)) (by simp) (by simp [inHand])
          (by simp [inHand, lineOf, lost, htaken, Nat.add_comm])
      · rename_i herror
        have hnil : torn = [] := by
          refine h.latched.resolve_right fun hor => ?_
          exact herror (hor.resolve_left hnotFailed)
        exact h.setWriter (.writing l) t.writeError t.handleClosed t.droppedSteps (by simp [htaken])
          (by simp) (.inl hnil) (fun _ _ => hnil) (by simp [inHand, lineOf, htaken])
          (by simp [inHand, lineOf, lost, htaken])

theorem latch (h : Accounts loads t done torn) (hfailed : t.writer = .failed) :
    Accounts loads { t with writer := .idle, writeError := true, droppedSteps := t.droppedSteps + 1,
                            handleClosed := true } done torn :=
  h.setWriter .idle true true _ (by simp [hfailed]) (by simp) (.inr (.inr rfl)) (by simp)
    (by simp [inHand]) (by simp [inHand, lost, hfailed, Nat.add_comm])

/-- The record in the writer's hands comes behind those of the file. -/
theorem next (h : Accounts loads t done torn) {l : Line} (hwriting : t.writer = .writing l) :
    (done ++ [l]).Sublist t.submitted := by
  refine List.Sublist.trans ?_ h.order
  rw [pending, hwriting, inHand, List.singleton_append]
  exact (List.Sublist.refl done).append (List.singleton_sublist.mpr List.mem_cons_self)

/-- The record is in the file. -/
theorem written (h : Accounts loads t done torn) {l : Line} (hwriting : t.writer = .writing l) :
    Accounts loads { t with appended := t.appended ++ l.text, writer := .idle }
      (done ++ [l]) [] := by
  obtain rfl := h.writing l hwriting
  have hcount := h.count
  have horder := h.order
  refine { h with
    appended := ?_, torn_of := .inl rfl, latched := .inl rfl,
    writing := fun l hl => by contradiction,
    order := ?_, count := ?_, unclosed := fun hcond => ?_, ending := ?_, returned := ?_ }
  · rw [h.appended, List.append_nil, List.append_nil, List.map_append, frames_append]
    simp [frames, Line.text]
  · simp only [pending, hwriting, inHand] at horder
    simp only [pending, inHand, List.nil_append, List.append_assoc]
    exact horder
  · simp only [pending, lost, hwriting, inHand, List.length_append] at hcount ⊢
    simp at hcount ⊢
    omega
  · exact ⟨(h.unclosed hcond).1, by simp⟩
  · intro hclosed hclosing
    obtain ⟨front, hfront, hnot, -⟩ | ⟨-, hend⟩ := h.ending hclosed hclosing
    · exact .inl ⟨front, hfront, hnot, by simp⟩
    · simp [hwriting] at hend
  · intro hreturned
    have := h.returned hreturned
    rw [hwriting] at this
    contradiction

/-- A part of the record is in the file. -/
theorem failed (h : Accounts loads t done torn) {l : Line} (hwriting : t.writer = .writing l)
    {part : Bytes} (hpart : part <+: l.body) :
    Accounts loads { t with appended := t.appended ++ part, writer := .failed } done part := by
  obtain rfl := h.writing l hwriting
  have hcount := h.count
  have horder := h.order
  refine { h with
    appended := ?_, torn_of := .inr ⟨l, h.next hwriting, hpart⟩, latched := .inr (.inl rfl),
    writing := fun l hl => by contradiction, order := ?_, count := ?_, unclosed := fun hcond => ?_,
    ending := ?_, returned := ?_ }
  · rw [h.appended, List.append_nil]
  · refine List.Sublist.trans ?_ horder
    simp only [pending, hwriting, inHand, List.nil_append]
    exact (List.Sublist.refl done).append (List.sublist_append_right _ _)
  · simp only [pending, lost, hwriting, inHand, List.length_append] at hcount ⊢
    simp at hcount ⊢
    omega
  · exact ⟨(h.unclosed hcond).1, by simp⟩
  · intro hclosed hclosing
    obtain ⟨front, hfront, hnot, -⟩ | ⟨-, hend⟩ := h.ending hclosed hclosing
    · exact .inl ⟨front, hfront, hnot, by simp⟩
    · simp [hwriting] at hend
  · intro hreturned
    have := h.returned hreturned
    rw [hwriting] at this
    contradiction

/-- The append, of which the whole record or a part comes into the file. -/
theorem write (h : Accounts loads t done torn) {l : Line} (hwriting : t.writer = .writing l)
    {a : Append} (hunlock : a.unlocks = true ∨ a.takes l.text = false) :
    ∃ done' torn', Accounts loads (t.act (.write a)) done' torn' := by
  rw [Tracer.act, output]
  simp only [hwriting]
  cases hok : (writeLockedText a l.text).2 with
  | true =>
      rw [writeLockedText_done hok]
      exact ⟨done ++ [l], [], h.written hwriting⟩
  | false =>
      have hne : l.text ≠ [] := by simp [Line.text]
      have hshort := writeLockedText_failed hne hunlock hok
      have hpart : (writeLockedText a l.text).1 <+: l.body := by
        obtain heq | hpre := List.prefix_concat_iff.mp (writeLockedText_front a l.text)
        · exact absurd heq hshort
        · exact hpre
      exact ⟨done, _, h.failed hwriting hpart⟩

/-- The records of the file are those the account names. -/
theorem completeLines_eq (h : Accounts loads t done torn) :
    completeLines t.appended = done.map Line.body := by
  rw [h.appended]
  refine completeLines_frames (fun body hbody => ?_) ?_
  · obtain ⟨l, hl, rfl⟩ := List.mem_map.mp hbody
    have hmem := h.order.subset (List.mem_append_left t.pending hl)
    exact Line.unbroken_body (h.dumped l hmem).unbroken
  · obtain rfl | ⟨l, hl, hpart⟩ := h.torn_of
    · intro b hb
      contradiction
    · have hmem := hl.subset (List.mem_append_right done (List.mem_singleton_self l))
      exact (Line.unbroken_body (h.dumped l hmem).unbroken).of_front hpart

/-- When the writer has returned, nothing is on its way. -/
theorem finished (h : Accounts loads t done torn) (hfinished : t.writer = .finished) :
    t.queue = [] := by
  by_cases hcond : t.closed = false ∨ t.lifecycle = .closing
  · exact absurd hfinished (h.unclosed hcond).2.2
  · rw [not_or] at hcond
    obtain ⟨-, -, -, -, hnot⟩ | ⟨hnil, -⟩ := h.ending (by simpa using hcond.1) hcond.2
    · exact absurd hfinished hnot
    · exact hnil

/-- **The account is exact.** -/
theorem exact (h : Accounts loads t done torn) : t.Exact := by
  rw [Exact, h.completeLines_eq]
  constructor
  · intro hreturned
    have hfinished := h.returned hreturned
    have hcount := h.count
    rw [pending, lost, hfinished, h.finished hfinished] at hcount
    simpa [inHand] using hcount
  · exact ((List.sublist_append_left done t.pending).trans h.order).map Line.body

/-- **What each step keeps of the account.** -/
theorem act (h : Accounts loads t done torn) {action : Action} (hwrites : t.Writes loads action)
    (hunlocks : t.Unlocks action) : ∃ done' torn', Accounts loads (t.act action) done' torn' := by
  cases action with
  | logStep serialized => exact ⟨done, torn, h.logStep hwrites⟩
  | flush =>
      rw [Tracer.act]
      split
      · rename_i hfree
        exact ⟨done, torn, h.setLifecycle (by simp [hfree]) (by simp) (by simp)⟩
      · exact ⟨done, torn, h⟩
  | joined =>
      rw [Tracer.act]
      split
      · rename_i hjoined
        refine ⟨done, torn, h.setLifecycle (by simp [hjoined.1]) ?_ ?_⟩
        · cases t.closed <;> simp
        · cases t.closed <;> simp
      · exact ⟨done, torn, h⟩
  | putFlush =>
      rw [Tracer.act]
      split
      · rename_i hputting
        exact ⟨done, torn, h.putFlush hputting.1⟩
      · exact ⟨done, torn, h⟩
  | flushed =>
      rw [Tracer.act]
      split
      · rename_i hwaiting
        exact ⟨done, torn, h.setLifecycle (by simp [hwaiting]) (by simp) (by simp)⟩
      · exact ⟨done, torn, h⟩
  | close =>
      rw [Tracer.act]
      split
      · rename_i hfree
        exact ⟨done, torn, h.close hfree.2⟩
      · exact ⟨done, torn, h⟩
  | putClose =>
      rw [Tracer.act]
      split
      · rename_i hclosing
        exact ⟨done, torn, h.putClose hclosing.1⟩
      · exact ⟨done, torn, h⟩
  | writerJoined =>
      rw [Tracer.act]
      split
      · rename_i hending
        have hset : Accounts loads { t with lifecycle := .free } done torn :=
          h.setLifecycle (by simp [hending.1]) (by simp) (by simp)
        exact ⟨done, torn, { hset with returned := fun _ => hending.2 }⟩
      · exact ⟨done, torn, h⟩
  | get =>
      rw [Tracer.act]
      split
      · rename_i item queue hidle hqueue
        exact ⟨done, torn, h.get hidle hqueue⟩
      · exact ⟨done, torn, h⟩
  | handle ok =>
      rw [Tracer.act]
      split
      · rename_i item htaken
        exact ⟨done, torn, h.handle htaken ok⟩
      · exact ⟨done, torn, h⟩
  | write a =>
      by_cases hwriting : ∃ l, t.writer = .writing l
      · obtain ⟨l, hwriting⟩ := hwriting
        exact h.write hwriting (hunlocks l hwriting)
      · refine ⟨done, torn, ?_⟩
        rw [Tracer.act]
        split
        · rename_i l hl
          exact absurd ⟨l, hl⟩ hwriting
        · exact h
  | latch =>
      rw [Tracer.act]
      split
      · rename_i hfailed
        exact ⟨done, torn, h.latch hfailed⟩
      · exact ⟨done, torn, h⟩

end Accounts

end Tracer

end OpenCollab.Trace
