import OpenCollab.Lib.Tally

/-!
# OpenCollab.Workflow.TaskSlots

The slots behind `task_concurrency` (`_run_with_task_concurrency_permit`,
`_run_with_acquired_task_slot`, `_release_task_slot_after_borrowers` and
`_start_acquired_task_worker` of `workflow_collections.py`).

A unit of a collection runs on a slot of one semaphore.  The task that owns the slot
re-enters it, a child task inherits the permit with its context and borrows the slot
under the permit's lock, and a worker may be handed a slot before it has begun.  Who gives
the slot back depends on who is left: the owner, the clean-up that waits for the last
borrower, or the callback of a worker that never ran.

* `World.step` — whatever can happen between two awaits;
* `Inv` — what holds between any two events: of the permits, of who gives a slot back, of
  the numbers, and of the tasks.

A wait ends at any moment its lock or the semaphore is free: the order of those who wait
is left open.
-/

namespace OpenCollab.TaskSlots

open Lib

/-! ## tasks and permits -/

/-- `_TaskConcurrencyPermit`; `lender` is the permit whose `child_lock` is held for it. -/
structure Permit where
  owner : Nat := 0
  slot : Nat := 0
  lender : Option Nat := none
  closed : Bool := true
  /-- `child_lock.locked()`. -/
  locked : Bool := false
deriving DecidableEq, Repr

/-- The permit is borrowed, from another permit of the slot. -/
def Permit.borrows (slot : Nat) (permit : Permit) : Bool :=
  !permit.closed && permit.slot = slot && permit.lender.isSome

/-- Who gives a slot back: its owner, `_release_task_slot_after_borrowers` that waits
for the event or has been woken by it, or nobody as it is done. -/
inductive Release where
  | held
  | waiting
  | woken
  | given
deriving DecidableEq, Repr

/-- `_TaskPermitState`. -/
structure Slot where
  borrowers : Int := 0
  /-- `borrowers_done.is_set()`. -/
  borrowersDone : Bool := true
  release : Release := .given
deriving DecidableEq, Repr

def Slot.live (slot : Slot) : Bool := slot.release ≠ .given

/-- A borrower leaves; the last one sets the event. -/
def Slot.leave (slot : Slot) : Slot :=
  if slot.borrowers - 1 = 0 then
    { borrowers := slot.borrowers - 1
      borrowersDone := true
      release := if slot.release = .waiting then .woken else slot.release }
  else { slot with borrowers := slot.borrowers - 1 }

/-- An operation that runs under a permit, with what its `finally` needs. -/
inductive Frame where
  | reentered
  | borrowed (permit lender : Nat)
  | owned (permit : Nat) (token : Option Nat)
deriving DecidableEq, Repr

def Frame.permit? : Frame → Option Nat
  | .reentered => none
  | .borrowed permit _ | .owned permit _ => some permit

/-- What a task waits for. -/
inductive Wait where
  | lock (permit : Nat)
  | semaphore
deriving DecidableEq, Repr

/-- A task: the permit in its context, the operations it is in, and what it waits for.
`reserved` is a worker that has been handed a slot and has not begun. -/
structure Task where
  active : Option Nat := none
  frames : List Frame := []
  waits : Option Wait := none
  reserved : Bool := false
deriving DecidableEq, Repr

/-- The permits a task holds, the innermost first. -/
def Task.permits (task : Task) : List Nat := task.frames.filterMap Frame.permit?

/-- The tasks of a workflow, and the value of its semaphore. -/
structure World where
  free : Nat
  permits : Nat → Permit := fun _ => {}
  nextPermit : Nat := 0
  slots : Nat → Slot := fun _ => {}
  nextSlot : Nat := 0
  tasks : Nat → Task := fun _ => {}
  nextTask : Nat := 1

/-- The workflow's own task, with `task_concurrency` slots. -/
def World.init (n : Nat) : World := { free := n }

namespace World

/-! ## operations -/

def setTask (w : World) (t : Nat) (task : Task) : World :=
  { w with tasks := Function.update w.tasks t task }

def wait (w : World) (t : Nat) (wait : Wait) : World :=
  w.setTask t { w.tasks t with waits := some wait }

/-- `asyncio.create_task`: a task with a copy of the context. -/
def createTask (w : World) (t : Nat) (reserved : Bool) : World :=
  { w.setTask w.nextTask { active := (w.tasks t).active, reserved } with
    nextTask := w.nextTask + 1 }

/-- `_run_with_task_concurrency_permit`, to its first wait. -/
def call (w : World) (t : Nat) : World :=
  match (w.tasks t).active with
  | none => w.wait t .semaphore
  | some p =>
      if (w.permits p).closed then w.wait t .semaphore
      else if (w.permits p).owner = t then
        w.setTask t { w.tasks t with frames := .reentered :: (w.tasks t).frames }
      else w.wait t (.lock p)

/-- The lock is taken, and the permit is still open: the slot is borrowed. -/
def borrow (w : World) (t p : Nat) : World :=
  let lender := w.permits p
  let slot := w.slots lender.slot
  { w with
    permits := Function.update (Function.update w.permits p { lender with locked := true })
      w.nextPermit { owner := t, slot := lender.slot, lender := some p, closed := false }
    nextPermit := w.nextPermit + 1
    slots := Function.update w.slots lender.slot
      { slot with borrowers := slot.borrowers + 1, borrowersDone := false }
    tasks := Function.update w.tasks t { w.tasks t with
      active := some w.nextPermit
      frames := .borrowed w.nextPermit p :: (w.tasks t).frames
      waits := none } }

/-- `_run_with_acquired_task_slot`, to its operation. -/
def runAcquired (w : World) (t : Nat) : World :=
  { w with
    permits := Function.update w.permits w.nextPermit
      { owner := t, slot := w.nextSlot, closed := false }
    nextPermit := w.nextPermit + 1
    slots := Function.update w.slots w.nextSlot { release := .held }
    nextSlot := w.nextSlot + 1
    tasks := Function.update w.tasks t { w.tasks t with
      active := some w.nextPermit
      frames := .owned w.nextPermit (w.tasks t).active :: (w.tasks t).frames
      waits := none
      reserved := false } }

/-- The `finally` of a borrower, and the end of its `async with`. -/
def giveBack (w : World) (q lender : Nat) : World :=
  let permit := w.permits q
  let permits := Function.update w.permits q { permit with closed := true }
  { w with
    permits := Function.update permits lender { permits lender with locked := false }
    slots := Function.update w.slots permit.slot ((w.slots permit.slot).leave) }

/-- The `finally` of `_run_with_acquired_task_slot`. -/
def closeOwned (w : World) (q : Nat) : World :=
  let permit := w.permits q
  let slot := w.slots permit.slot
  { w with
    free := if slot.borrowers = 0 then w.free + 1 else w.free
    permits := Function.update w.permits q { permit with closed := true }
    slots := Function.update w.slots permit.slot { slot with
      release :=
        if slot.borrowers = 0 then .given else if slot.borrowersDone then .woken else .waiting } }

/-- The innermost operation of a task returns, raises or is cancelled. -/
def finish (w : World) (t : Nat) : Option World :=
  match (w.tasks t).frames with
  | [] => none
  | .reentered :: frames => some (w.setTask t { w.tasks t with frames })
  | .borrowed q lender :: frames =>
      some ((w.giveBack q lender).setTask t { w.tasks t with active := some lender, frames })
  | .owned q token :: frames =>
      some ((w.closeOwned q).setTask t { w.tasks t with active := token, frames })

/-! ## events -/

/-- The task has begun and waits for nothing. -/
def runs (w : World) (t : Nat) : Bool :=
  t < w.nextTask && (w.tasks t).waits.isNone && !(w.tasks t).reserved

end World

/-- What can happen between two awaits. -/
inductive Event where
  /-- A task creates a child, … -/
  | spawn (task : Nat)
  /-- … begins a unit, … -/
  | call (task : Nat)
  /-- … gets the lock or the slot it waits for, … -/
  | lockTaken (task : Nat)
  | slotTaken (task : Nat)
  /-- … is cancelled as it waits, … -/
  | abandon (task : Nat)
  /-- … and comes to the end of its innermost operation. -/
  | finish (task : Nat)
  /-- `allocate_workers` gets a slot and creates a worker for it, … -/
  | allocate (task : Nat)
  /-- … that begins, or is cancelled before. -/
  | begin (worker : Nat)
  | cancelUnstarted (worker : Nat)
  /-- The clean-up of a slot that its last borrower has left. -/
  | releaseAfterBorrowers (slot : Nat)

namespace World

/-- An event, where it can happen. -/
def step (w : World) : Event → Option World
  | .spawn t => if w.runs t then some (w.createTask t false) else none
  | .call t => if w.runs t then some (w.call t) else none
  | .lockTaken t =>
      match (w.tasks t).waits with
      | some (.lock p) =>
          if (w.permits p).locked then none
          else if (w.permits p).closed then some (w.wait t .semaphore)
          else some (w.borrow t p)
      | _ => none
  | .slotTaken t =>
      if (w.tasks t).waits = some .semaphore ∧ 0 < w.free then
        some ({ w with free := w.free - 1 }.runAcquired t)
      else none
  | .abandon t =>
      if (w.tasks t).waits.isSome then some (w.setTask t { w.tasks t with waits := none })
      else none
  | .finish t => if w.runs t then w.finish t else none
  | .allocate t =>
      if w.runs t ∧ 0 < w.free then some ({ w with free := w.free - 1 }.createTask t true)
      else none
  | .begin t => if (w.tasks t).reserved then some (w.runAcquired t) else none
  | .cancelUnstarted t =>
      if (w.tasks t).reserved then
        some { w.setTask t { w.tasks t with reserved := false } with free := w.free + 1 }
      else none
  | .releaseAfterBorrowers s =>
      if (w.slots s).release = .woken then
        some { w with
          free := w.free + 1
          slots := Function.update w.slots s { w.slots s with release := .given } }
      else none

/-- A run. -/
def run (w : World) (events : List Event) : Option World := events.foldlM step w

/-! ## the invariant -/

def IsOpen (w : World) (q : Nat) : Prop := (w.permits q).closed = false

/-- The slots that are taken, … -/
def live (w : World) : Nat := tally Slot.live w.slots w.nextSlot

/-- … the workers that have one and have not begun, … -/
def reserved (w : World) : Nat := tally Task.reserved w.tasks w.nextTask

/-- … and the borrowed permits of a slot. -/
def borrowing (w : World) (s : Nat) : Nat := tally (Permit.borrows s) w.permits w.nextPermit

end World

/-- A task runs under one permit, that of its context, however often it has entered it. -/
def Stacked : Option Nat → List Frame → Prop
  | _, [] => True
  | active, .reentered :: frames => frames ≠ [] ∧ Stacked active frames
  | active, .borrowed q _ :: frames | active, .owned q _ :: frames => active = some q ∧ frames = []

/-- The permit of an operation is open, and its task's own. -/
def Frame.Runs (permits : Nat → Permit) (t : Nat) : Frame → Prop
  | .reentered => True
  | .borrowed q p =>
      (permits q).closed = false ∧ (permits q).owner = t ∧ (permits q).lender = some p
  | .owned q _ =>
      (permits q).closed = false ∧ (permits q).owner = t ∧ (permits q).lender = none

/-- What holds of one task. -/
structure Task.Steady (permits : Nat → Permit) (t : Nat) (task : Task) : Prop where
  stacked : Stacked task.active task.frames
  running : ∀ frame ∈ task.frames, frame.Runs permits t
  patient : task.waits ≠ none → task.frames = []
  unbegun : task.reserved = true → task.frames = [] ∧ task.waits = none

/-- What holds of the permits. -/
structure Lending (w : World) : Prop where
  unbornPermit : ∀ q, w.nextPermit ≤ q → w.permits q = {}
  placed : ∀ q, w.IsOpen q → (w.permits q).slot < w.nextSlot
  lent : ∀ q p, w.IsOpen q → (w.permits q).lender = some p →
    p < q ∧ (w.permits p).slot = (w.permits q).slot ∧ (w.permits p).locked = true
  exclusive : ∀ q q' p, w.IsOpen q → w.IsOpen q' → (w.permits q).lender = some p →
    (w.permits q').lender = some p → q = q'
  locked : ∀ p, (w.permits p).locked = true → ∃ q, w.IsOpen q ∧ (w.permits q).lender = some p

/-- A slot is held as long as its owner's permit is open. -/
structure Owning (w : World) : Prop where
  owned : ∀ q, w.IsOpen q → (w.permits q).lender = none →
    (w.slots (w.permits q).slot).release = .held
  held : ∀ s, (w.slots s).release = .held →
    ∃ q, w.IsOpen q ∧ (w.permits q).lender = none ∧ (w.permits q).slot = s
  single : ∀ q q', w.IsOpen q → w.IsOpen q' → (w.permits q).lender = none →
    (w.permits q').lender = none → (w.permits q).slot = (w.permits q').slot → q = q'

/-- What holds of the slots. -/
structure Counting (n : Nat) (w : World) : Prop where
  conserved : w.free + w.live + w.reserved = n
  counted : ∀ s, (w.slots s).borrowers = w.borrowing s
  unbornSlot : ∀ s, w.nextSlot ≤ s → w.slots s = {}
  left : ∀ s, (w.slots s).release = .woken ∨ (w.slots s).release = .given →
    (w.slots s).borrowers = 0
  pending : ∀ s, (w.slots s).release = .waiting → (w.slots s).borrowers ≠ 0
  event : ∀ s, (w.slots s).borrowersDone = true ↔ (w.slots s).borrowers = 0

/-- What holds of the tasks. -/
structure Working (w : World) : Prop where
  unbornTask : ∀ t, w.nextTask ≤ t → w.tasks t = {}
  steady : ∀ t, (w.tasks t).Steady w.permits t
  framed : ∀ q, w.IsOpen q → q ∈ (w.tasks (w.permits q).owner).permits

/-- What holds between any two events. -/
structure Inv (n : Nat) (w : World) : Prop
    extends Lending w, Owning w, Counting n w, Working w

variable {w : World} {n t s q p : Nat}

/-! ## what the invariant says -/

/-- A task that is in an operation has one permit, and its context is that permit. -/
theorem permits_of_stacked {active : Option Nat} {frames : List Frame} (h : Stacked active frames)
    (hframes : frames ≠ []) : ∃ q, active = some q ∧ frames.filterMap Frame.permit? = [q] := by
  induction frames with
  | nil => contradiction
  | cons frame frames ih =>
      cases frame with
      | reentered => exact ih h.2 h.1
      | borrowed q p =>
          obtain ⟨rfl, rfl⟩ := h
          exact ⟨q, rfl, rfl⟩
      | owned q token =>
          obtain ⟨rfl, rfl⟩ := h
          exact ⟨q, rfl, rfl⟩

/-- What a task does not see of the permits it may change. -/
theorem Task.Steady.congr {permits permits' : Nat → Permit} {task : Task}
    (h : task.Steady permits t)
    (hsame : ∀ q ∈ task.permits, (permits' q).closed = (permits q).closed ∧
      (permits' q).owner = (permits q).owner ∧ (permits' q).lender = (permits q).lender) :
    task.Steady permits' t := by
  refine ⟨h.stacked, fun frame hframe => ?_, h.patient, h.unbegun⟩
  have hruns := h.running frame hframe
  cases frame with
  | reentered => trivial
  | borrowed q p =>
      have hmem : q ∈ task.permits := List.mem_filterMap.mpr ⟨_, hframe, rfl⟩
      obtain ⟨hclosed, howner, hlender⟩ := hsame q hmem
      rw [Frame.Runs, hclosed, howner, hlender]
      exact hruns
  | owned q token =>
      have hmem : q ∈ task.permits := List.mem_filterMap.mpr ⟨_, hframe, rfl⟩
      obtain ⟨hclosed, howner, hlender⟩ := hsame q hmem
      rw [Frame.Runs, hclosed, howner, hlender]
      exact hruns

/-- The permits a task holds are open, and its own. -/
theorem Task.Steady.holds {permits : Nat → Permit} {task : Task} (h : task.Steady permits t)
    (hq : q ∈ task.permits) : (permits q).closed = false ∧ (permits q).owner = t := by
  obtain ⟨frame, hframe, hpermit⟩ := List.mem_filterMap.mp hq
  have hruns := h.running frame hframe
  cases frame with
  | reentered => contradiction
  | borrowed r p =>
      obtain rfl : r = q := Option.some.inj hpermit
      exact ⟨hruns.1, hruns.2.1⟩
  | owned r token =>
      obtain rfl : r = q := Option.some.inj hpermit
      exact ⟨hruns.1, hruns.2.1⟩

theorem Inv.lt_of_open (h : Inv n w) (hq : w.IsOpen q) : q < w.nextPermit := by
  by_contra hle
  have hnew := h.unbornPermit q (by omega)
  rw [World.IsOpen, hnew] at hq
  contradiction

/-- A borrowed permit is counted by its slot. -/
theorem Inv.borrowers_pos (h : Inv n w) (hq : w.IsOpen q)
    (hlender : (w.permits q).lender ≠ none) : 0 < (w.slots (w.permits q).slot).borrowers := by
  have hcount : 0 < w.borrowing (w.permits q).slot :=
    tally_pos_iff.mpr ⟨q, h.lt_of_open hq, by
      have hclosed : (w.permits q).closed = false := hq
      simpa [Permit.borrows, hclosed, Option.isSome_iff_ne_none] using hlender⟩
  rw [h.counted]
  exact_mod_cast hcount

/-- An operation runs on a slot that its owner holds, or that waits for borrowers. -/
theorem Inv.release_of_open (h : Inv n w) (hq : w.IsOpen q) :
    (w.slots (w.permits q).slot).release = .held ∨
      (w.slots (w.permits q).slot).release = .waiting := by
  cases hlender : (w.permits q).lender with
  | none => exact .inl (h.owned q hq hlender)
  | some p =>
      have hpos := h.borrowers_pos hq (by simp [hlender])
      have hleft := h.left (w.permits q).slot
      cases hrelease : (w.slots (w.permits q).slot).release with
      | held => exact .inl rfl
      | waiting => exact .inr rfl
      | woken =>
          have := hleft (.inl hrelease)
          omega
      | given =>
          have := hleft (.inr hrelease)
          omega

theorem Inv.live_of_open (h : Inv n w) (hq : w.IsOpen q) :
    (w.slots (w.permits q).slot).live = true := by
  obtain hrelease | hrelease := h.release_of_open hq <;> simp [Slot.live, hrelease]

/-- A task that is in no operation holds no permit. -/
theorem Inv.not_owner (h : Inv n w) (hframes : (w.tasks t).frames = []) (hq : w.IsOpen q) :
    (w.permits q).owner ≠ t := by
  intro howner
  have hmem := h.framed q hq
  rw [howner, Task.permits, hframes] at hmem
  contradiction

theorem Inv.task_lt (h : Inv n w) (ht : w.tasks t ≠ {}) : t < w.nextTask := by
  by_contra hle
  exact ht (h.unbornTask t (by omega))

end OpenCollab.TaskSlots
