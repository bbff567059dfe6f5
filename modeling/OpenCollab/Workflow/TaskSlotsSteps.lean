import OpenCollab.Workflow.TaskSlots

/-!
# OpenCollab.Workflow.TaskSlotsSteps

One event on the slots of a workflow.

* `Opens` — a task begins an operation under a new permit, on a slot of its own or on a
  borrowed one;
* `Closes` — a task ends an operation, as an owner or as a borrower;
* `Inv.step` — what one event keeps, and `Inv.run` what a run keeps.
-/

namespace OpenCollab.TaskSlots

open Lib

variable {w w' : World} {n t s q p : Nat}

/-! ## the parts of an event -/

/-- A change of a task that leaves its permits alone. -/
theorem Inv.setTask {task : Task} (h : Inv n w) (ht : t < w.nextTask)
    (hsteady : task.Steady w.permits t) (hpermits : task.permits = (w.tasks t).permits)
    (hreserved : task.reserved = (w.tasks t).reserved) : Inv n (w.setTask t task) := by
  have hcount : (w.setTask t task).reserved = w.reserved := by
    have htally := tally_update Task.reserved w.tasks task ht
    rw [hreserved] at htally
    exact Nat.add_right_cancel htally
  refine { h with
    conserved := by
      rw [hcount]
      exact h.conserved
    unbornTask := fun u hu => ?_
    steady := fun u => ?_
    framed := fun q hq => ?_ }
  · have hne : u ≠ t := by
      have : w.nextTask ≤ u := hu
      omega
    exact (Function.update_of_ne hne _ _).trans (h.unbornTask u hu)
  · change (Function.update w.tasks t task u).Steady w.permits u
    by_cases hu : u = t
    · subst hu
      rw [Function.update_self]
      exact hsteady
    · rw [Function.update_of_ne hu]
      exact h.steady u
  · change q ∈ (Function.update w.tasks t task (w.permits q).owner).permits
    by_cases howner : (w.permits q).owner = t
    · rw [howner, Function.update_self, hpermits, ← howner]
      exact h.framed q hq
    · rw [Function.update_of_ne howner]
      exact h.framed q hq

/-- A new task; one that is handed a slot takes it from the semaphore. -/
theorem Inv.createTask (h : Inv n w) (reserved : Bool) {free : Nat}
    (hfree : free + reserved.toNat = w.free) : Inv n { w.createTask t reserved with free } := by
  have hcount : ({ w.createTask t reserved with free } : World).reserved =
      w.reserved + reserved.toNat := tally_update_succ _ _ _ _
  have hnew : w.tasks w.nextTask = {} := h.unbornTask _ (Nat.le_refl _)
  refine { h with
    conserved := ?_
    unbornTask := fun u hu => ?_
    steady := fun u => ?_
    framed := fun q hq => ?_ }
  · rw [hcount]
    have hsum := h.conserved
    change free + w.live + _ = n
    omega
  · have hle : w.nextTask + 1 ≤ u := hu
    exact (Function.update_of_ne (by omega) _ _).trans (h.unbornTask u (by omega))
  · change (Function.update w.tasks w.nextTask _ u).Steady w.permits u
    by_cases hu : u = w.nextTask
    · subst hu
      rw [Function.update_self]
      exact ⟨trivial, by simp, fun _ => rfl, fun _ => ⟨rfl, rfl⟩⟩
    · rw [Function.update_of_ne hu]
      exact h.steady u
  · have howner : (w.permits q).owner ≠ w.nextTask := h.not_owner (by rw [hnew]) hq
    change q ∈ (Function.update w.tasks w.nextTask _ (w.permits q).owner).permits
    rw [Function.update_of_ne howner]
    exact h.framed q hq

/-- A worker that never ran gives its slot back. -/
theorem Inv.cancelUnstarted (h : Inv n w) (hunbegun : (w.tasks t).reserved = true) :
    Inv n { w.setTask t { w.tasks t with reserved := false } with free := w.free + 1 } := by
  have ht : t < w.nextTask := h.task_lt fun heq => by simp [heq] at hunbegun
  have hsteady := h.steady t
  obtain ⟨hframes, hwaits⟩ := hsteady.unbegun hunbegun
  have htally := tally_update Task.reserved w.tasks { w.tasks t with reserved := false } ht
  rw [hunbegun, Bool.toNat_true, Bool.toNat_false] at htally
  refine { h with
    conserved := ?_
    unbornTask := fun u hu => ?_
    steady := fun u => ?_
    framed := fun q hq => ?_ }
  · have hsum := h.conserved
    change w.free + 1 + w.live + tally Task.reserved (Function.update w.tasks t
      { w.tasks t with reserved := false }) w.nextTask = n
    change w.free + w.live + tally Task.reserved w.tasks w.nextTask = n at hsum
    omega
  · have hle : w.nextTask ≤ u := hu
    exact (Function.update_of_ne (by omega) _ _).trans (h.unbornTask u hle)
  · change (Function.update w.tasks t _ u).Steady w.permits u
    by_cases hu : u = t
    · subst hu
      rw [Function.update_self]
      exact ⟨hsteady.stacked, hsteady.running, fun _ => hframes, fun _ => ⟨hframes, hwaits⟩⟩
    · rw [Function.update_of_ne hu]
      exact h.steady u
  · change q ∈ (Function.update w.tasks t _ (w.permits q).owner).permits
    rw [Function.update_of_ne (h.not_owner hframes hq)]
    exact h.framed q hq

/-- The clean-up gives the slot back. -/
theorem Inv.releaseAfterBorrowers (h : Inv n w) (hwoken : (w.slots s).release = .woken) :
    Inv n { w with
      free := w.free + 1
      slots := Function.update w.slots s { w.slots s with release := .given } } := by
  have hs : s < w.nextSlot := by
    by_contra hle
    rw [h.unbornSlot s (by omega)] at hwoken
    contradiction
  have hlive := tally_update Slot.live w.slots { w.slots s with release := .given } hs
  have hwas : (w.slots s).live = true := by simp [Slot.live, hwoken]
  have hnow : Slot.live { w.slots s with release := .given } = false := rfl
  rw [hwas, hnow, Bool.toNat_true, Bool.toNat_false] at hlive
  generalize hslots : Function.update w.slots s { w.slots s with release := .given } = slots
    at hlive
  have hslot (r : Nat) : slots r =
      if r = s then { w.slots s with release := .given } else w.slots r := by
    rw [← hslots, Function.update_apply]
  refine { h with
    owned := fun q hq hlender => ?_
    held := fun r hr => ?_
    conserved := ?_
    counted := fun r => ?_
    unbornSlot := fun r hr => ?_
    left := fun r hr => ?_
    pending := fun r hr => ?_
    event := fun r => ?_ }
  · have hheld := h.owned q hq hlender
    change (slots (w.permits q).slot).release = .held
    rw [hslot, if_neg]
    · exact hheld
    · intro heq
      rw [heq, hwoken] at hheld
      contradiction
  · change (slots r).release = .held at hr
    rw [hslot] at hr
    split at hr
    · contradiction
    · exact h.held r hr
  · have hsum := h.conserved
    change w.free + 1 + tally Slot.live slots w.nextSlot + w.reserved = n
    change w.free + tally Slot.live w.slots w.nextSlot + w.reserved = n at hsum
    omega
  · change (slots r).borrowers = w.borrowing r
    rw [hslot, ← h.counted r]
    split
    · rename_i heq
      rw [heq]
    · rfl
  · have hle : w.nextSlot ≤ r := hr
    change slots r = {}
    rw [hslot, if_neg (by omega)]
    exact h.unbornSlot r hle
  · change (slots r).release = .woken ∨ (slots r).release = .given at hr
    change (slots r).borrowers = 0
    rw [hslot] at hr ⊢
    split
    · exact h.left s (.inl hwoken)
    · rename_i hother
      rw [if_neg hother] at hr
      exact h.left r hr
  · change (slots r).release = .waiting at hr
    change (slots r).borrowers ≠ 0
    rw [hslot] at hr ⊢
    split at hr
    · contradiction
    · rename_i hother
      rw [if_neg hother]
      exact h.pending r hr
  · change (slots r).borrowersDone = true ↔ (slots r).borrowers = 0
    rw [hslot]
    split
    · exact h.event s
    · exact h.event r

/-! ## an operation begins -/

/-- A task begins an operation under a new permit; the other permits stay who they are. -/
structure Opens (w w' : World) (t : Nat) (frame : Frame) : Prop where
  nextPermit : w'.nextPermit = w.nextPermit + 1
  nextTask : w'.nextTask = w.nextTask
  same : ∀ q, q ≠ w.nextPermit → (w'.permits q).closed = (w.permits q).closed ∧
    (w'.permits q).owner = (w.permits q).owner ∧ (w'.permits q).slot = (w.permits q).slot ∧
    (w'.permits q).lender = (w.permits q).lender
  locked : ∀ p, (w'.permits p).locked = true ↔
    (w.permits p).locked = true ∨ (w'.permits w.nextPermit).lender = some p
  permit : frame.permit? = some w.nextPermit
  runs : frame.Runs w'.permits t
  tasks : ∀ u, w'.tasks u =
    if u = t then { active := some w.nextPermit, frames := [frame] } else w.tasks u

namespace Opens

variable {frame : Frame}

/-- The new permit is the task's, and open. -/
theorem opened (o : Opens w w' t frame) :
    w'.IsOpen w.nextPermit ∧ (w'.permits w.nextPermit).owner = t := by
  have hpermit := o.permit
  have hruns := o.runs
  cases frame with
  | reentered => contradiction
  | borrowed q p =>
      obtain rfl : q = w.nextPermit := Option.some.inj hpermit
      exact ⟨hruns.1, hruns.2.1⟩
  | owned q token =>
      obtain rfl : q = w.nextPermit := Option.some.inj hpermit
      exact ⟨hruns.1, hruns.2.1⟩

theorem old (o : Opens w w' t frame) (hq : w'.IsOpen q) (hne : q ≠ w.nextPermit) : w.IsOpen q := by
  rwa [World.IsOpen, (o.same q hne).1] at hq

theorem ne (_ : Opens w w' t frame) (h : Inv n w) (hq : w.IsOpen q) : q ≠ w.nextPermit := by
  have hlt := h.lt_of_open hq
  omega

theorem kept (o : Opens w w' t frame) (h : Inv n w) (hq : w.IsOpen q) : w'.IsOpen q := by
  rwa [World.IsOpen, (o.same q (o.ne h hq)).1]

theorem working (o : Opens w w' t frame) (h : Inv n w) (hframes : (w.tasks t).frames = [])
    (ht : t < w.nextTask) : Working w' where
  unbornTask u hu := by
    rw [o.nextTask] at hu
    rw [o.tasks, if_neg (by omega)]
    exact h.unbornTask u hu
  steady u := by
    rw [o.tasks]
    split
    · rename_i hu
      refine ⟨?_, fun other hother => ?_, fun hwaits => absurd rfl hwaits,
        fun hunbegun => by contradiction⟩
      · have hpermit := o.permit
        cases frame with
        | reentered => contradiction
        | borrowed q p => exact ⟨hpermit.symm, rfl⟩
        | owned q token => exact ⟨hpermit.symm, rfl⟩
      · rw [List.mem_singleton.mp hother, hu]
        exact o.runs
    · refine (h.steady u).congr fun q hq => ?_
      have hsame := o.same q (o.ne h ((h.steady u).holds hq).1)
      exact ⟨hsame.1, hsame.2.1, hsame.2.2.2⟩
  framed q hq := by
    by_cases hne : q = w.nextPermit
    · rw [hne, o.opened.2, o.tasks, if_pos rfl]
      exact List.mem_filterMap.mpr ⟨frame, List.mem_cons_self, o.permit⟩
    · have hopen := o.old hq hne
      rw [(o.same q hne).2.1, o.tasks, if_neg (h.not_owner hframes hopen)]
      exact h.framed q hopen

/-- A borrowed permit comes from an open one that has not been lent. -/
theorem lending (o : Opens w w' t frame) (h : Inv n w) (hslots : w.nextSlot ≤ w'.nextSlot)
    (hplaced : (w'.permits w.nextPermit).slot < w'.nextSlot)
    (hunborn : ∀ q, w.nextPermit < q → w'.permits q = w.permits q)
    (hlender : ∀ p, (w'.permits w.nextPermit).lender = some p → w.IsOpen p ∧
      (w.permits p).slot = (w'.permits w.nextPermit).slot ∧ (w.permits p).locked = false) :
    Lending w' where
  unbornPermit q hq := by
    rw [o.nextPermit] at hq
    rw [hunborn q (by omega)]
    exact h.unbornPermit q (by omega)
  placed q hq := by
    by_cases hne : q = w.nextPermit
    · rwa [hne]
    · have hlt := h.placed q (o.old hq hne)
      rw [(o.same q hne).2.2.1]
      omega
  lent q p hq hqp := by
    by_cases hne : q = w.nextPermit
    · rw [hne] at hqp
      obtain ⟨hopen, hslot, -⟩ := hlender p hqp
      rw [hne, (o.same p (o.ne h hopen)).2.2.1]
      exact ⟨h.lt_of_open hopen, hslot, (o.locked p).mpr (.inr hqp)⟩
    · have hopen := o.old hq hne
      rw [(o.same q hne).2.2.2] at hqp
      obtain ⟨hlt, hslot, hlocked⟩ := h.lent q p hopen hqp
      have hltq := h.lt_of_open hopen
      rw [(o.same p (by omega)).2.2.1, (o.same q hne).2.2.1]
      exact ⟨hlt, hslot, (o.locked p).mpr (.inl hlocked)⟩
  exclusive q q' p hq hq' hqp hqp' := by
    -- an old permit that was borrowed from the lender would have kept its lock
    have hfresh {x : Nat} (hx : w'.IsOpen x) (hxp : (w'.permits x).lender = some p)
        (hnew : (w'.permits w.nextPermit).lender = some p) : x = w.nextPermit := by
      by_contra hne
      rw [(o.same x hne).2.2.2] at hxp
      have hlocked := (h.lent x p (o.old hx hne) hxp).2.2
      exact absurd ((hlender p hnew).2.2.symm.trans hlocked) Bool.false_ne_true
    by_cases hne : q = w.nextPermit
    · rw [hne] at hqp
      exact hne.trans (hfresh hq' hqp' hqp).symm
    · by_cases hne' : q' = w.nextPermit
      · rw [hne'] at hqp'
        exact (hfresh hq hqp hqp').trans hne'.symm
      · rw [(o.same q hne).2.2.2] at hqp
        rw [(o.same q' hne').2.2.2] at hqp'
        exact h.exclusive q q' p (o.old hq hne) (o.old hq' hne') hqp hqp'
  locked p hp := by
    obtain hp | hp := (o.locked p).mp hp
    · obtain ⟨q, hq, hqp⟩ := h.locked p hp
      exact ⟨q, o.kept h hq, (o.same q (o.ne h hq)).2.2.2.trans hqp⟩
    · exact ⟨w.nextPermit, o.opened.1, hp⟩

/-- A permit that is not borrowed comes with a slot of its own. -/
theorem owning (o : Opens w w' t frame) (h : Inv n w)
    (hslot : (w'.permits w.nextPermit).lender = none → w.nextSlot ≤ (w'.permits w.nextPermit).slot)
    (hrelease : ∀ s, (w'.slots s).release = .held ↔ (w.slots s).release = .held ∨
      (w'.permits w.nextPermit).lender = none ∧ s = (w'.permits w.nextPermit).slot) :
    Owning w' where
  owned q hq hlender := by
    by_cases hne : q = w.nextPermit
    · rw [hne] at hlender ⊢
      exact (hrelease _).mpr (.inr ⟨hlender, rfl⟩)
    · rw [(o.same q hne).2.2.2] at hlender
      rw [(o.same q hne).2.2.1]
      exact (hrelease _).mpr (.inl (h.owned q (o.old hq hne) hlender))
  held s hs := by
    obtain hs | ⟨hlender, hs⟩ := (hrelease s).mp hs
    · obtain ⟨q, hq, hlender, hslot⟩ := h.held s hs
      have hsame := o.same q (o.ne h hq)
      exact ⟨q, o.kept h hq, hsame.2.2.2.trans hlender, hsame.2.2.1.trans hslot⟩
    · exact ⟨w.nextPermit, o.opened.1, hlender, hs.symm⟩
  single q q' hq hq' hlender hlender' hsame := by
    have hnew {x : Nat} (hx : w'.IsOpen x) (hnone : (w'.permits w.nextPermit).lender = none)
        (hxs : (w'.permits x).slot = (w'.permits w.nextPermit).slot) : x = w.nextPermit := by
      by_contra hne
      have hlt := h.placed x (o.old hx hne)
      have hle := hslot hnone
      rw [(o.same x hne).2.2.1] at hxs
      omega
    by_cases hne : q = w.nextPermit
    · rw [hne] at hlender hsame
      exact hne.trans (hnew hq' hlender hsame.symm).symm
    · by_cases hne' : q' = w.nextPermit
      · rw [hne'] at hlender' hsame
        exact (hnew hq hlender' hsame).trans hne'.symm
      · rw [(o.same q hne).2.2.2] at hlender
        rw [(o.same q' hne').2.2.2] at hlender'
        rw [(o.same q hne).2.2.1, (o.same q' hne').2.2.1] at hsame
        exact h.single q q' (o.old hq hne) (o.old hq' hne') hlender hlender' hsame

end Opens

theorem permits_runAcquired (free q : Nat) : ({ w with free }.runAcquired t).permits q =
    if q = w.nextPermit then { owner := t, slot := w.nextSlot, closed := false }
    else w.permits q := Function.update_apply _ _ _ _

theorem slots_runAcquired (free s : Nat) : ({ w with free }.runAcquired t).slots s =
    if s = w.nextSlot then { release := .held } else w.slots s := Function.update_apply _ _ _ _

theorem opens_runAcquired (h : Inv n w) (hframes : (w.tasks t).frames = []) (free : Nat) :
    Opens w ({ w with free }.runAcquired t) t (.owned w.nextPermit (w.tasks t).active) where
  nextPermit := rfl
  nextTask := rfl
  same q hq := by
    rw [permits_runAcquired, if_neg hq]
    exact ⟨rfl, rfl, rfl, rfl⟩
  locked p := by
    have hnew : w.permits w.nextPermit = {} := h.unbornPermit _ (Nat.le_refl _)
    rw [permits_runAcquired, permits_runAcquired, if_pos rfl]
    split
    · rename_i heq
      simp [heq, hnew]
    · simp
  permit := rfl
  runs := by
    rw [Frame.Runs, permits_runAcquired, if_pos rfl]
    exact ⟨rfl, rfl, rfl⟩
  tasks u := by
    refine (Function.update_apply _ _ _ _).trans ?_
    rw [hframes]

/-- A task that is in no operation begins one on a slot of its own. -/
theorem Inv.runAcquired (h : Inv n w) (hframes : (w.tasks t).frames = []) (ht : t < w.nextTask)
    {free : Nat} (hfree : free + 1 = w.free + (w.tasks t).reserved.toNat) :
    Inv n ({ w with free }.runAcquired t) := by
  have o := opens_runAcquired h hframes free
  have hlive : ({ w with free }.runAcquired t).live = w.live + 1 := tally_update_succ _ _ _ _
  have hreserved : ({ w with free }.runAcquired t).reserved + (w.tasks t).reserved.toNat =
      w.reserved := tally_update Task.reserved w.tasks _ ht
  have hborrowing (s : Nat) : ({ w with free }.runAcquired t).borrowing s = w.borrowing s := by
    refine (tally_update_succ _ _ _ _).trans ?_
    simp [Permit.borrows, World.borrowing]
  have hnew : w.slots w.nextSlot = {} := h.unbornSlot _ (Nat.le_refl _)
  have hslot (s : Nat) := @slots_runAcquired w t free s
  have hpermit := @permits_runAcquired w t free w.nextPermit
  rw [if_pos rfl] at hpermit
  refine ⟨o.lending h (Nat.le_succ _) ?_ (fun q hq => ?_) fun p hp => ?_,
    o.owning h (fun _ => ?_) fun s => ?_, ⟨?_, fun s => ?_, fun s hs => ?_, fun s hs => ?_,
      fun s hs => ?_, fun s => ?_⟩, o.working h hframes ht⟩
  · rw [hpermit]
    exact Nat.lt_succ_self _
  · rw [permits_runAcquired, if_neg (by omega)]
  · rw [hpermit] at hp
    contradiction
  · rw [hpermit]
  · rw [hslot, hpermit]
    split
    · rename_i heq
      exact iff_of_true rfl (.inr ⟨rfl, heq⟩)
    · rename_i hother
      simp [hother]
  · have hsum := h.conserved
    change free + _ + _ = n
    omega
  · rw [hborrowing, hslot, ← h.counted]
    split
    · rename_i heq
      rw [heq, hnew]
    · rfl
  · have hle : w.nextSlot + 1 ≤ s := hs
    rw [hslot, if_neg (by omega)]
    exact h.unbornSlot s (by omega)
  · rw [hslot] at hs ⊢
    split
    · rfl
    · rename_i hother
      rw [if_neg hother] at hs
      exact h.left s hs
  · rw [hslot] at hs ⊢
    split at hs
    · contradiction
    · rename_i hother
      rw [if_neg hother]
      exact h.pending s hs
  · rw [hslot]
    split
    · exact iff_of_true rfl rfl
    · exact h.event s

theorem permits_borrow (q : Nat) : (w.borrow t p).permits q =
    if q = w.nextPermit then
      { owner := t, slot := (w.permits p).slot, lender := some p, closed := false }
    else if q = p then { w.permits p with locked := true } else w.permits q := by
  simp only [World.borrow, Function.update_apply]

theorem slots_borrow (s : Nat) : (w.borrow t p).slots s =
    if s = (w.permits p).slot then
      { w.slots s with borrowers := (w.slots s).borrowers + 1, borrowersDone := false }
    else w.slots s := by
  refine (Function.update_apply _ _ _ _).trans ?_
  split
  · rename_i heq
    rw [heq]
  · rfl

theorem release_borrow (s : Nat) : ((w.borrow t p).slots s).release = (w.slots s).release := by
  rw [slots_borrow]
  split <;> rfl

theorem opens_borrow (h : Inv n w) (hframes : (w.tasks t).frames = [])
    (hbegun : (w.tasks t).reserved = false) (hp : p < w.nextPermit) :
    Opens w (w.borrow t p) t (.borrowed w.nextPermit p) where
  nextPermit := rfl
  nextTask := rfl
  same q hq := by
    rw [permits_borrow, if_neg hq]
    split
    · rename_i heq
      rw [heq]
      exact ⟨rfl, rfl, rfl, rfl⟩
    · exact ⟨rfl, rfl, rfl, rfl⟩
  locked r := by
    have hnew : w.permits w.nextPermit = {} := h.unbornPermit _ (Nat.le_refl _)
    rw [permits_borrow, permits_borrow, if_pos rfl]
    split
    · rename_i heq
      rw [heq, hnew]
      have hne : p ≠ w.nextPermit := by omega
      simp [hne]
    · split
      · rename_i heq
        simp [heq]
      · rename_i hother
        exact ⟨.inl, fun hlocked => hlocked.resolve_right fun heq =>
          hother (Option.some.inj heq).symm⟩
  permit := rfl
  runs := by
    rw [Frame.Runs, permits_borrow, if_pos rfl]
    exact ⟨rfl, rfl, rfl⟩
  tasks u := by
    refine (Function.update_apply _ _ _ _).trans ?_
    simp only [hframes, hbegun]

/-- A task that is in no operation borrows an open permit under its lock. -/
theorem Inv.borrow (h : Inv n w) (hframes : (w.tasks t).frames = [])
    (hbegun : (w.tasks t).reserved = false) (ht : t < w.nextTask) (hopen : w.IsOpen p)
    (hlock : (w.permits p).locked = false) : Inv n (w.borrow t p) := by
  have hp := h.lt_of_open hopen
  have hplaced := h.placed p hopen
  have o := opens_borrow h hframes hbegun hp
  have hborrowing (s : Nat) : (w.borrow t p).borrowing s =
      w.borrowing s + (decide ((w.permits p).slot = s)).toNat := by
    have hmarked : tally (Permit.borrows s)
        (Function.update w.permits p { w.permits p with locked := true }) w.nextPermit =
        tally (Permit.borrows s) w.permits w.nextPermit :=
      Nat.add_right_cancel (tally_update (Permit.borrows s) w.permits _ hp)
    refine (tally_update_succ _ _ _ _).trans ?_
    rw [hmarked]
    simp [Permit.borrows, World.borrowing]
  have hlive : (w.borrow t p).live = w.live :=
    Nat.add_right_cancel (tally_update Slot.live w.slots _ hplaced)
  have hreserved : (w.borrow t p).reserved = w.reserved :=
    Nat.add_right_cancel (tally_update Task.reserved w.tasks _ ht)
  have hslot (s : Nat) := @slots_borrow w t p s
  have hpermit := @permits_borrow w t p w.nextPermit
  rw [if_pos rfl] at hpermit
  have hcases := h.release_of_open hopen
  refine ⟨o.lending h (Nat.le_refl _) ?_ (fun q hq => ?_) fun r hr => ?_,
    o.owning h (fun hnone => ?_) fun s => ?_, ⟨?_, fun s => ?_, fun s hs => ?_, fun s hs => ?_,
      fun s hs => ?_, fun s => ?_⟩, o.working h hframes ht⟩
  · rw [hpermit]
    exact hplaced
  · rw [permits_borrow, if_neg (by omega), if_neg (by omega)]
  · rw [hpermit] at hr ⊢
    obtain rfl : p = r := Option.some.inj hr
    exact ⟨hopen, rfl, hlock⟩
  · rw [hpermit] at hnone
    contradiction
  · rw [release_borrow, hpermit]
    simp
  · rw [hlive, hreserved]
    exact h.conserved
  · have hcount := h.counted s
    rw [hborrowing, hslot]
    by_cases heq : s = (w.permits p).slot
    · rw [if_pos heq, decide_eq_true heq.symm]
      simp only [hcount, Bool.toNat_true, Nat.cast_add, Nat.cast_one]
    · rw [if_neg heq, decide_eq_false fun hsame => heq hsame.symm, hcount]
      rfl
  · have hle : w.nextSlot ≤ s := hs
    rw [hslot, if_neg (by omega)]
    exact h.unbornSlot s hle
  · rw [release_borrow] at hs
    have hne : s ≠ (w.permits p).slot := by
      intro heq
      rw [heq] at hs
      obtain hcase | hcase := hcases <;> simp [hcase] at hs
    rw [hslot, if_neg hne]
    exact h.left s hs
  · rw [release_borrow] at hs
    have hcount := h.counted s
    rw [hslot]
    split
    · change (w.slots s).borrowers + 1 ≠ 0
      omega
    · exact h.pending s hs
  · have hcount := h.counted s
    rw [hslot]
    split
    · refine iff_of_false (by simp) ?_
      change (w.slots s).borrowers + 1 ≠ 0
      omega
    · exact h.event s

/-! ## an operation ends -/

/-- A task comes to the end of the operation under a permit, and gives back its lock. -/
structure Closes (w w' : World) (t q : Nat) : Prop where
  next : w'.nextPermit = w.nextPermit ∧ w'.nextSlot = w.nextSlot ∧ w'.nextTask = w.nextTask
  same : ∀ x, (w'.permits x).closed = ((w.permits x).closed || x = q) ∧
    (w'.permits x).owner = (w.permits x).owner ∧ (w'.permits x).slot = (w.permits x).slot ∧
    (w'.permits x).lender = (w.permits x).lender
  locked : ∀ p, (w'.permits p).locked = true ↔
    (w.permits p).locked = true ∧ (w.permits q).lender ≠ some p
  unborn : ∀ x, w.nextPermit ≤ x → w'.permits x = w.permits x
  permits : (w.tasks t).permits = [q]
  tasks : ∃ active, ∀ u, w'.tasks u =
    if u = t then { w.tasks t with active, frames := [] } else w.tasks u

namespace Closes

theorem isOpen_iff (c : Closes w w' t q) {x : Nat} : w'.IsOpen x ↔ w.IsOpen x ∧ x ≠ q := by
  rw [World.IsOpen, (c.same x).1, Bool.or_eq_false_iff, decide_eq_false_iff_not]
  rfl

/-- The permit was the task's, and open. -/
theorem opened (c : Closes w w' t q) (h : Inv n w) :
    w.IsOpen q ∧ (w.permits q).owner = t := by
  refine (h.steady t).holds ?_
  rw [c.permits]
  exact List.mem_singleton_self q

theorem working (c : Closes w w' t q) (h : Inv n w) (ht : t < w.nextTask) : Working w' := by
  obtain ⟨active, htasks⟩ := c.tasks
  have hframes : (w.tasks t).frames ≠ [] := by
    intro hempty
    have hpermits := c.permits
    rw [Task.permits, hempty] at hpermits
    contradiction
  refine ⟨fun u hu => ?_, fun u => ?_, fun x hx => ?_⟩
  · rw [c.next.2.2] at hu
    rw [htasks, if_neg (by omega)]
    exact h.unbornTask u hu
  · rw [htasks]
    split
    · refine ⟨trivial, by simp, fun _ => rfl, fun hunbegun => ?_⟩
      exact absurd ((h.steady t).unbegun hunbegun).1 hframes
    · rename_i hu
      refine (h.steady u).congr fun x hx => ?_
      have hxq : x ≠ q := by
        intro heq
        have hxu := ((h.steady u).holds hx).2
        rw [heq, (c.opened h).2] at hxu
        exact hu hxu.symm
      obtain ⟨hclosed, howner, -, hlender⟩ := c.same x
      rw [decide_eq_false hxq, Bool.or_false] at hclosed
      exact ⟨hclosed, howner, hlender⟩
  · obtain ⟨hopen, hxq⟩ := c.isOpen_iff.mp hx
    have hmem := h.framed x hopen
    rw [(c.same x).2.1, htasks]
    split
    · rename_i hxt
      rw [hxt, c.permits] at hmem
      exact absurd (List.mem_singleton.mp hmem) hxq
    · exact hmem

theorem lending (c : Closes w w' t q) (h : Inv n w) : Lending w' where
  unbornPermit x hx := by
    rw [c.next.1] at hx
    rw [c.unborn x hx]
    exact h.unbornPermit x hx
  placed x hx := by
    rw [c.next.2.1, (c.same x).2.2.1]
    exact h.placed x (c.isOpen_iff.mp hx).1
  lent x p hx hxp := by
    obtain ⟨hopen, hxq⟩ := c.isOpen_iff.mp hx
    rw [(c.same x).2.2.2] at hxp
    obtain ⟨hlt, hslot, hlocked⟩ := h.lent x p hopen hxp
    rw [(c.same p).2.2.1, (c.same x).2.2.1, c.locked]
    refine ⟨hlt, hslot, hlocked, fun hqp => hxq ?_⟩
    exact h.exclusive x q p hopen (c.opened h).1 hxp hqp
  exclusive x x' p hx hx' hxp hxp' := by
    rw [(c.same x).2.2.2] at hxp
    rw [(c.same x').2.2.2] at hxp'
    exact h.exclusive x x' p (c.isOpen_iff.mp hx).1 (c.isOpen_iff.mp hx').1 hxp hxp'
  locked p hp := by
    obtain ⟨hlocked, hqp⟩ := (c.locked p).mp hp
    obtain ⟨x, hx, hxp⟩ := h.locked p hlocked
    refine ⟨x, c.isOpen_iff.mpr ⟨hx, fun heq => hqp ?_⟩, (c.same x).2.2.2.trans hxp⟩
    rwa [heq] at hxp

/-- Only the end of its owner's operation changes who gives a slot back. -/
theorem owning (c : Closes w w' t q) (h : Inv n w)
    (hrelease : ∀ s, (w'.slots s).release = .held ↔ (w.slots s).release = .held ∧
      ¬ ((w.permits q).lender = none ∧ s = (w.permits q).slot)) : Owning w' where
  owned x hx hlender := by
    obtain ⟨hopen, hxq⟩ := c.isOpen_iff.mp hx
    rw [(c.same x).2.2.2] at hlender
    rw [(c.same x).2.2.1, hrelease]
    refine ⟨h.owned x hopen hlender, fun ⟨hnone, hslot⟩ => hxq ?_⟩
    exact h.single x q hopen (c.opened h).1 hlender hnone hslot
  held s hs := by
    obtain ⟨hheld, hother⟩ := (hrelease s).mp hs
    obtain ⟨x, hx, hlender, hslot⟩ := h.held s hheld
    refine ⟨x, c.isOpen_iff.mpr ⟨hx, fun heq => hother ?_⟩, (c.same x).2.2.2.trans hlender,
      (c.same x).2.2.1.trans hslot⟩
    rw [heq] at hlender hslot
    exact ⟨hlender, hslot.symm⟩
  single x x' hx hx' hlender hlender' hslot := by
    rw [(c.same x).2.2.2] at hlender
    rw [(c.same x').2.2.2] at hlender'
    rw [(c.same x).2.2.1, (c.same x').2.2.1] at hslot
    exact h.single x x' (c.isOpen_iff.mp hx).1 (c.isOpen_iff.mp hx').1 hlender hlender' hslot

end Closes

@[simp] theorem Slot.borrowers_leave (slot : Slot) : slot.leave.borrowers = slot.borrowers - 1 := by
  unfold Slot.leave
  split <;> rfl

@[simp] theorem Slot.live_leave (slot : Slot) : slot.leave.live = slot.live := by
  unfold Slot.leave Slot.live
  split
  · dsimp only
    split
    · rename_i hwaiting
      simp [hwaiting]
    · rfl
  · rfl

/-- The event is set as the last borrower leaves. -/
theorem Slot.borrowersDone_leave {slot : Slot} (hpos : 0 < slot.borrowers)
    (hevent : slot.borrowersDone = true ↔ slot.borrowers = 0) :
    slot.leave.borrowersDone = true ↔ slot.leave.borrowers = 0 := by
  rw [Slot.borrowers_leave]
  unfold Slot.leave
  split
  · rename_i hlast
    exact iff_of_true rfl hlast
  · rename_i hmore
    refine iff_of_false (fun hdone => ?_) hmore
    have := hevent.mp hdone
    omega

/-- The clean-up is woken by the last borrower, and nothing else is. -/
theorem Slot.release_leave (slot : Slot) : slot.leave.release =
    if slot.borrowers - 1 = 0 ∧ slot.release = .waiting then .woken else slot.release := by
  unfold Slot.leave
  split
  · rename_i hlast
    simp [hlast]
  · rename_i hmore
    simp [hmore]

theorem permits_giveBack (hpq : p ≠ q) (x : Nat) : (w.giveBack q p).permits x =
    if x = p then { w.permits p with locked := false }
    else if x = q then { w.permits q with closed := true } else w.permits x := by
  simp only [World.giveBack, Function.update_apply, if_neg hpq]

theorem slots_giveBack (s : Nat) : (w.giveBack q p).slots s =
    if s = (w.permits q).slot then (w.slots s).leave else w.slots s := by
  refine (Function.update_apply _ _ _ _).trans ?_
  split
  · rename_i heq
    rw [heq]
  · rfl

/-- The permit of a borrower that comes to its end. -/
theorem Inv.borrowed {frames : List Frame} (h : Inv n w)
    (hframes : (w.tasks t).frames = .borrowed q p :: frames) :
    w.IsOpen q ∧ (w.permits q).lender = some p ∧ frames = [] := by
  have hstacked := (h.steady t).stacked
  rw [hframes] at hstacked
  have hruns := (h.steady t).running (.borrowed q p) (by rw [hframes]; exact List.mem_cons_self)
  exact ⟨hruns.1, hruns.2.2, hstacked.2⟩

theorem closes_giveBack {frames : List Frame} (h : Inv n w)
    (hframes : (w.tasks t).frames = .borrowed q p :: frames) :
    Closes w ((w.giveBack q p).setTask t { w.tasks t with active := some p, frames }) t q := by
  obtain ⟨hopen, hqp, rfl⟩ := h.borrowed hframes
  have hlt := h.lt_of_open hopen
  have hpq := (h.lent q p hopen hqp).1
  have hne : p ≠ q := by omega
  have hpermit (x : Nat) := @permits_giveBack w q p hne x
  refine ⟨⟨rfl, rfl, rfl⟩, fun x => ?_, fun r => ?_, fun x hx => ?_, ?_, some p, fun u =>
    Function.update_apply _ _ _ _⟩
  · rw [World.setTask, hpermit]
    split
    · rename_i heq
      rw [heq, decide_eq_false hne, Bool.or_false]
      exact ⟨rfl, rfl, rfl, rfl⟩
    · split
      · rename_i heq
        rw [heq, decide_eq_true rfl, Bool.or_true]
        exact ⟨rfl, rfl, rfl, rfl⟩
      · rename_i hother
        rw [decide_eq_false hother, Bool.or_false]
        exact ⟨rfl, rfl, rfl, rfl⟩
  · rw [World.setTask, hpermit, hqp]
    split
    · rename_i heq
      simp [heq]
    · rename_i hother
      have hrp : some p ≠ some r := fun heq => hother (Option.some.inj heq).symm
      split
      · rename_i heq
        rw [heq] at hrp
        simp [heq, hne]
      · exact ⟨fun hlocked => ⟨hlocked, hrp⟩, fun hlocked => hlocked.1⟩
  · rw [World.setTask, hpermit, if_neg (by omega), if_neg (by omega)]
  · rw [Task.permits, hframes]
    rfl

/-- A borrower comes to its end. -/
theorem Inv.giveBack {frames : List Frame} (h : Inv n w)
    (hframes : (w.tasks t).frames = .borrowed q p :: frames) :
    Inv n ((w.giveBack q p).setTask t { w.tasks t with active := some p, frames }) := by
  have c := closes_giveBack h hframes
  obtain ⟨hopen, hqp, rfl⟩ := h.borrowed hframes
  have hlt := h.lt_of_open hopen
  have hplaced := h.placed q hopen
  have hpq := (h.lent q p hopen hqp).1
  have hpos := h.borrowers_pos hopen (by simp [hqp])
  have ht : t < w.nextTask := h.task_lt fun heq => by simp [heq] at hframes
  have hcases := h.release_of_open hopen
  generalize hw' : (w.giveBack q p).setTask t
    { w.tasks t with active := some p, frames := [] } = w' at c ⊢
  have hslots (s : Nat) : w'.slots s =
      if s = (w.permits q).slot then (w.slots s).leave else w.slots s := by
    rw [← hw']
    exact slots_giveBack (p := p) s
  have hborrowing (s : Nat) :
      w'.borrowing s + (decide ((w.permits q).slot = s)).toNat = w.borrowing s := by
    have hclosing := tally_update (Permit.borrows s) w.permits
      { w.permits q with closed := true } hlt
    have hq : Permit.borrows s (w.permits q) = decide ((w.permits q).slot = s) := by
      have hclosed : (w.permits q).closed = false := hopen
      simp [Permit.borrows, hclosed, hqp]
    have hq' : Permit.borrows s { w.permits q with closed := true } = false := rfl
    rw [hq, hq', Bool.toNat_false, Nat.add_zero] at hclosing
    -- the lock of the lender counts for nothing
    have hunlocked : w'.borrowing s = tally (Permit.borrows s)
        (Function.update w.permits q { w.permits q with closed := true }) w.nextPermit := by
      have htally := tally_update (Permit.borrows s)
        (Function.update w.permits q { w.permits q with closed := true })
        { w.permits p with locked := false } (Nat.lt_trans hpq hlt)
      rw [Function.update_of_ne (show p ≠ q by omega)] at htally
      rw [← Nat.add_right_cancel htally, ← hw', World.borrowing]
      simp only [World.setTask, World.giveBack]
      rw [Function.update_of_ne (show p ≠ q by omega)]
    rw [hunlocked]
    exact hclosing
  refine ⟨c.lending h, c.owning h fun s => ?_, ⟨?_, fun s => ?_, fun s hs => ?_, fun s hs => ?_,
    fun s hs => ?_, fun s => ?_⟩, c.working h ht⟩
  · rw [hslots, hqp]
    split
    · rename_i heq
      rw [Slot.release_leave]
      split
      · rename_i hlast
        simp [hlast.2]
      · simp
    · simp
  · have hlive : w'.live = w.live := by
      have htally := tally_update Slot.live w.slots (w.slots (w.permits q).slot).leave hplaced
      rw [Slot.live_leave] at htally
      rw [← hw']
      exact Nat.add_right_cancel htally
    have hreserved : w'.reserved = w.reserved := by
      rw [← hw']
      exact Nat.add_right_cancel (tally_update Task.reserved w.tasks _ ht)
    have hfree : w'.free = w.free := by
      rw [← hw']
      rfl
    rw [hfree, hlive, hreserved]
    exact h.conserved
  · have hcount := h.counted s
    have hborrow := hborrowing s
    rw [hslots]
    by_cases heq : s = (w.permits q).slot
    · rw [decide_eq_true heq.symm, Bool.toNat_true] at hborrow
      rw [if_pos heq, Slot.borrowers_leave]
      omega
    · rw [decide_eq_false fun hsame => heq hsame.symm, Bool.toNat_false, Nat.add_zero] at hborrow
      rw [if_neg heq, hborrow]
      exact hcount
  · rw [c.next.2.1] at hs
    rw [hslots, if_neg (by omega)]
    exact h.unbornSlot s hs
  · rw [hslots] at hs ⊢
    split
    · rename_i heq
      rw [if_pos heq, Slot.release_leave] at hs
      rw [Slot.borrowers_leave]
      split at hs
      · rename_i hlast
        exact hlast.1
      · rw [heq] at hs
        obtain hcase | hcase := hcases <;> simp [hcase] at hs
    · rename_i hother
      rw [if_neg hother] at hs
      exact h.left s hs
  · rw [hslots] at hs ⊢
    split
    · rename_i heq
      rw [if_pos heq, Slot.release_leave] at hs
      rw [Slot.borrowers_leave]
      split at hs
      · contradiction
      · rename_i hmore
        exact fun hlast => hmore ⟨hlast, hs⟩
    · rename_i hother
      rw [if_neg hother] at hs
      exact h.pending s hs
  · rw [hslots]
    split
    · rename_i heq
      rw [← heq] at hpos
      exact Slot.borrowersDone_leave hpos (h.event s)
    · exact h.event s

theorem permits_closeOwned (x : Nat) : (w.closeOwned q).permits x =
    if x = q then { w.permits q with closed := true } else w.permits x :=
  Function.update_apply _ _ _ _

theorem slots_closeOwned
    (hevent : (w.slots (w.permits q).slot).borrowersDone = true ↔
      (w.slots (w.permits q).slot).borrowers = 0) (s : Nat) :
    (w.closeOwned q).slots s = if s = (w.permits q).slot then
      { w.slots s with release := if (w.slots s).borrowers = 0 then .given else .waiting }
      else w.slots s := by
  refine (Function.update_apply _ _ _ _).trans ?_
  split
  · rename_i heq
    rw [heq]
    split
    · rfl
    · rename_i hmore
      have hdone : (w.slots (w.permits q).slot).borrowersDone = false := by
        rw [← Bool.not_eq_true, hevent]
        exact hmore
      simp [hdone]
  · rfl

/-- The permit of an owner that comes to its end. -/
theorem Inv.ownedBy {token : Option Nat} {frames : List Frame} (h : Inv n w)
    (hframes : (w.tasks t).frames = .owned q token :: frames) :
    w.IsOpen q ∧ (w.permits q).lender = none ∧ frames = [] := by
  have hstacked := (h.steady t).stacked
  rw [hframes] at hstacked
  have hruns := (h.steady t).running (.owned q token) (by rw [hframes]; exact List.mem_cons_self)
  exact ⟨hruns.1, hruns.2.2, hstacked.2⟩

theorem closes_closeOwned {token : Option Nat} {frames : List Frame} (h : Inv n w)
    (hframes : (w.tasks t).frames = .owned q token :: frames) :
    Closes w ((w.closeOwned q).setTask t { w.tasks t with active := token, frames }) t q := by
  obtain ⟨hopen, hqp, rfl⟩ := h.ownedBy hframes
  have hlt := h.lt_of_open hopen
  refine ⟨⟨rfl, rfl, rfl⟩, fun x => ?_, fun r => ?_, fun x hx => ?_, ?_, token, fun u =>
    Function.update_apply _ _ _ _⟩
  · rw [World.setTask, permits_closeOwned]
    split
    · rename_i heq
      rw [heq, decide_eq_true rfl, Bool.or_true]
      exact ⟨rfl, rfl, rfl, rfl⟩
    · rename_i hother
      rw [decide_eq_false hother, Bool.or_false]
      exact ⟨rfl, rfl, rfl, rfl⟩
  · rw [World.setTask, permits_closeOwned, hqp]
    split
    · rename_i heq
      simp [heq]
    · simp
  · rw [World.setTask, permits_closeOwned, if_neg (by omega)]
  · rw [Task.permits, hframes]
    rfl

/-- The owner of a slot comes to its end: the slot is free, or its borrowers are waited for. -/
theorem Inv.closeOwned {token : Option Nat} {frames : List Frame} (h : Inv n w)
    (hframes : (w.tasks t).frames = .owned q token :: frames) :
    Inv n ((w.closeOwned q).setTask t { w.tasks t with active := token, frames }) := by
  have c := closes_closeOwned h hframes
  obtain ⟨hopen, hqp, rfl⟩ := h.ownedBy hframes
  have hlt := h.lt_of_open hopen
  have hplaced := h.placed q hopen
  have hheldq := h.owned q hopen hqp
  have ht : t < w.nextTask := h.task_lt fun heq => by simp [heq] at hframes
  generalize hw' : (w.closeOwned q).setTask t
    { w.tasks t with active := token, frames := [] } = w' at c ⊢
  have hslots (s : Nat) : w'.slots s = if s = (w.permits q).slot then
      { w.slots s with release := if (w.slots s).borrowers = 0 then .given else .waiting }
      else w.slots s := by
    rw [← hw']
    exact slots_closeOwned (h.event _) s
  have hborrowing (s : Nat) : w'.borrowing s = w.borrowing s := by
    have hclosing : w'.borrowing s + ((w.permits q).borrows s).toNat = w.borrowing s + 0 := by
      rw [← hw']
      exact tally_update (Permit.borrows s) w.permits { w.permits q with closed := true } hlt
    have hq : Permit.borrows s (w.permits q) = false := by simp [Permit.borrows, hqp]
    rw [hq] at hclosing
    exact hclosing
  have hlive : w'.live + 1 = w.live + (w'.slots (w.permits q).slot).live.toNat := by
    have htally := tally_update Slot.live w.slots (w'.slots (w.permits q).slot) hplaced
    have hwas : (w.slots (w.permits q).slot).live = true := by simp [Slot.live, hheldq]
    rw [hwas, Bool.toNat_true] at htally
    refine Eq.trans ?_ htally
    have hmoved : w'.slots =
        Function.update w.slots (w.permits q).slot (w'.slots (w.permits q).slot) := by
      funext s
      rw [Function.update_apply]
      split
      · rename_i heq
        rw [heq]
      · rename_i hother
        rw [hslots, if_neg hother]
    rw [← hmoved, World.live, c.next.2.1]
  have hreserved : w'.reserved = w.reserved := by
    rw [← hw']
    exact Nat.add_right_cancel (tally_update Task.reserved w.tasks _ ht)
  have hfree : w'.free =
      if (w.slots (w.permits q).slot).borrowers = 0 then w.free + 1 else w.free := by
    rw [← hw']
    rfl
  refine ⟨c.lending h, c.owning h fun s => ?_, ⟨?_, fun s => ?_, fun s hs => ?_, fun s hs => ?_,
    fun s hs => ?_, fun s => ?_⟩, c.working h ht⟩
  · rw [hslots, hqp]
    split
    · rename_i heq
      dsimp only
      split <;> simp [heq]
    · rename_i hother
      simp [hother]
  · have hsum := h.conserved
    rw [hslots, if_pos rfl] at hlive
    rw [hfree, hreserved]
    split
    · rename_i hlast
      simp only [Slot.live, hlast, if_true, ne_eq, not_true_eq_false, decide_false,
        Bool.toNat_false] at hlive
      omega
    · rename_i hmore
      simp only [Slot.live, hmore, if_false, ne_eq, reduceCtorEq, not_false_eq_true, decide_true,
        Bool.toNat_true] at hlive
      omega
  · rw [hborrowing, hslots, ← h.counted]
    split <;> rfl
  · rw [c.next.2.1] at hs
    rw [hslots, if_neg (by omega)]
    exact h.unbornSlot s hs
  · rw [hslots] at hs ⊢
    split
    · rename_i heq
      rw [if_pos heq] at hs
      dsimp only at hs ⊢
      split at hs
      · assumption
      · simp at hs
    · rename_i hother
      rw [if_neg hother] at hs
      exact h.left s hs
  · rw [hslots] at hs ⊢
    split
    · rename_i heq
      rw [if_pos heq] at hs
      dsimp only at hs ⊢
      split at hs
      · contradiction
      · assumption
    · rename_i hother
      rw [if_neg hother] at hs
      exact h.pending s hs
  · rw [hslots]
    split
    · exact h.event s
    · exact h.event s

/-! ## the events -/

theorem runs_iff : w.runs t = true ↔
    t < w.nextTask ∧ (w.tasks t).waits = none ∧ (w.tasks t).reserved = false := by
  simp [World.runs, and_assoc]

/-- A task that waits has begun, and is in no operation. -/
theorem Inv.waiting {wait : Wait} (h : Inv n w) (hwaits : (w.tasks t).waits = some wait) :
    (w.tasks t).frames = [] ∧ (w.tasks t).reserved = false ∧ t < w.nextTask := by
  have hsteady := h.steady t
  refine ⟨hsteady.patient (by simp [hwaits]), ?_, h.task_lt fun heq => by simp [heq] at hwaits⟩
  rw [← Bool.not_eq_true]
  intro hunbegun
  have hnone := (hsteady.unbegun hunbegun).2
  rw [hwaits] at hnone
  contradiction

/-- A task that is in no operation begins to wait. -/
theorem Inv.wait (h : Inv n w) (hframes : (w.tasks t).frames = [])
    (hbegun : (w.tasks t).reserved = false) (ht : t < w.nextTask) (wait : Wait) :
    Inv n (w.wait t wait) := by
  have hsteady := h.steady t
  refine h.setTask ht ⟨hsteady.stacked, hsteady.running, fun _ => hframes, fun hunbegun => ?_⟩
    rfl rfl
  exact absurd (hbegun.symm.trans hunbegun) Bool.false_ne_true

/-- A task whose context is no open permit of its own is in no operation. -/
theorem Inv.frames_eq_nil (h : Inv n w) (hactive : ∀ q, (w.tasks t).active = some q →
    w.IsOpen q → (w.permits q).owner ≠ t) : (w.tasks t).frames = [] := by
  by_contra hframes
  obtain ⟨q, heq, hpermits⟩ := permits_of_stacked (h.steady t).stacked hframes
  have hmem : q ∈ (w.tasks t).permits := by
    rw [Task.permits, hpermits]
    exact List.mem_singleton_self q
  obtain ⟨hclosed, howner⟩ := (h.steady t).holds hmem
  exact hactive q heq hclosed howner

/-- A unit begins: the task re-enters its own permit, or waits while it holds none. -/
theorem Inv.call (h : Inv n w) (hruns : w.runs t = true) : Inv n (w.call t) := by
  obtain ⟨ht, hwaits, hbegun⟩ := runs_iff.mp hruns
  have hsteady := h.steady t
  unfold World.call
  split
  · rename_i hactive
    exact h.wait (h.frames_eq_nil fun q hq => by simp [hactive] at hq) hbegun ht _
  · rename_i p hactive
    have hp {q : Nat} (hq : (w.tasks t).active = some q) : q = p :=
      Option.some.inj (hq.symm.trans hactive)
    split
    · rename_i hclosed
      refine h.wait (h.frames_eq_nil fun q hq hopen => ?_) hbegun ht _
      rw [hp hq] at hopen
      exact absurd (hopen.symm.trans hclosed) Bool.false_ne_true
    · rename_i hopen
      split
      · rename_i howner
        have hmem := h.framed p (by simpa [World.IsOpen] using hopen)
        have hframes : (w.tasks t).frames ≠ [] := by
          intro hempty
          rw [howner, Task.permits, hempty] at hmem
          contradiction
        refine h.setTask ht ⟨⟨hframes, hsteady.stacked⟩, fun frame hframe => ?_, fun hne => ?_,
          fun hunbegun => ?_⟩ rfl rfl
        · obtain rfl | hframe := List.mem_cons.mp hframe
          · trivial
          · exact hsteady.running frame hframe
        · exact absurd hwaits hne
        · exact absurd (hbegun.symm.trans hunbegun) Bool.false_ne_true
      · rename_i howner
        refine h.wait (h.frames_eq_nil fun q hq _ => ?_) hbegun ht _
        rw [hp hq]
        exact howner

/-- The innermost operation of a task comes to its end. -/
theorem Inv.finish (h : Inv n w) (hruns : w.runs t = true) (hfinish : w.finish t = some w') :
    Inv n w' := by
  obtain ⟨ht, hwaits, hbegun⟩ := runs_iff.mp hruns
  have hsteady := h.steady t
  unfold World.finish at hfinish
  split at hfinish
  · contradiction
  · rename_i frames hframes
    cases hfinish
    have hstacked := hsteady.stacked
    rw [hframes] at hstacked
    refine h.setTask ht ⟨hstacked.2, fun frame hframe => ?_, fun hne => absurd hwaits hne,
      fun hunbegun => absurd (hbegun.symm.trans hunbegun) Bool.false_ne_true⟩ ?_ rfl
    · refine hsteady.running frame ?_
      rw [hframes]
      exact List.mem_cons_of_mem _ hframe
    · rw [Task.permits, Task.permits, hframes]
      rfl
  · rename_i q p frames hframes
    cases hfinish
    exact h.giveBack hframes
  · rename_i q token frames hframes
    cases hfinish
    exact h.closeOwned hframes

/-- **One event keeps the invariant.** -/
theorem Inv.step {event : Event} (h : Inv n w) (hstep : w.step event = some w') : Inv n w' := by
  cases event with
  | spawn t =>
      simp only [World.step, Option.ite_none_right_eq_some, Option.some.injEq] at hstep
      obtain ⟨-, rfl⟩ := hstep
      exact h.createTask false rfl
  | call t =>
      simp only [World.step, Option.ite_none_right_eq_some, Option.some.injEq] at hstep
      obtain ⟨hruns, rfl⟩ := hstep
      exact h.call hruns
  | lockTaken t =>
      simp only [World.step] at hstep
      split at hstep
      · rename_i p hwaits
        obtain ⟨hframes, hbegun, ht⟩ := h.waiting hwaits
        split at hstep
        · contradiction
        · rename_i hlock
          split at hstep
          · cases hstep
            exact h.wait hframes hbegun ht _
          · rename_i hopen
            cases hstep
            exact h.borrow hframes hbegun ht (by simpa [World.IsOpen] using hopen)
              (by simpa using hlock)
      · contradiction
  | slotTaken t =>
      simp only [World.step, Option.ite_none_right_eq_some, Option.some.injEq] at hstep
      obtain ⟨⟨hwaits, hfree⟩, rfl⟩ := hstep
      obtain ⟨hframes, hbegun, ht⟩ := h.waiting hwaits
      refine h.runAcquired hframes ht ?_
      rw [hbegun, Bool.toNat_false]
      omega
  | abandon t =>
      simp only [World.step, Option.ite_none_right_eq_some, Option.some.injEq] at hstep
      obtain ⟨hwaits, rfl⟩ := hstep
      have hsteady := h.steady t
      refine h.setTask (h.task_lt fun heq => by simp [heq] at hwaits)
        ⟨hsteady.stacked, hsteady.running, fun hne => absurd rfl hne, fun hunbegun => ?_⟩ rfl rfl
      exact ⟨(hsteady.unbegun hunbegun).1, rfl⟩
  | finish t =>
      simp only [World.step, Option.ite_none_right_eq_some] at hstep
      exact h.finish hstep.1 hstep.2
  | allocate t =>
      simp only [World.step, Option.ite_none_right_eq_some, Option.some.injEq] at hstep
      obtain ⟨⟨-, hfree⟩, rfl⟩ := hstep
      exact h.createTask true (Nat.sub_add_cancel hfree)
  | begin t =>
      simp only [World.step, Option.ite_none_right_eq_some, Option.some.injEq] at hstep
      obtain ⟨hunbegun, rfl⟩ := hstep
      refine h.runAcquired ((h.steady t).unbegun hunbegun).1
        (h.task_lt fun heq => by simp [heq] at hunbegun) ?_
      rw [hunbegun, Bool.toNat_true]
  | cancelUnstarted t =>
      simp only [World.step, Option.ite_none_right_eq_some, Option.some.injEq] at hstep
      obtain ⟨hunbegun, rfl⟩ := hstep
      exact h.cancelUnstarted hunbegun
  | releaseAfterBorrowers s =>
      simp only [World.step, Option.ite_none_right_eq_some, Option.some.injEq] at hstep
      obtain ⟨hwoken, rfl⟩ := hstep
      exact h.releaseAfterBorrowers hwoken

theorem inv_init (n : Nat) : Inv n (.init n) where
  conserved := rfl
  counted _ := rfl
  unbornPermit _ _ := rfl
  unbornSlot _ _ := rfl
  unbornTask _ _ := rfl
  placed _ hq := by contradiction
  lent _ _ hq := by contradiction
  exclusive _ _ _ hq := by contradiction
  owned _ hq := by contradiction
  held _ hs := by contradiction
  single _ _ hq := by contradiction
  left _ _ := rfl
  pending _ hs := by contradiction
  event _ := iff_of_true rfl rfl
  locked _ hp := by contradiction
  steady _ := ⟨trivial, by simp [World.init], fun _ => rfl, fun _ => ⟨rfl, rfl⟩⟩
  framed _ hq := by contradiction

/-- What every event keeps holds in every run. -/
theorem Inv.run {events : List Event} (h : Inv n w) (hrun : w.run events = some w') :
    Inv n w' := by
  induction events generalizing w with
  | nil =>
      cases hrun
      exact h
  | cons event events ih =>
      rw [World.run, List.foldlM_cons] at hrun
      cases hstep : w.step event with
      | none =>
          rw [hstep] at hrun
          contradiction
      | some next =>
          rw [hstep] at hrun
          exact ih (h.step hstep) hrun

end OpenCollab.TaskSlots
