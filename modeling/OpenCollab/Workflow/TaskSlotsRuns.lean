import OpenCollab.Workflow.TaskSlotsSteps

/-!
# OpenCollab.Workflow.TaskSlotsRuns

What the units of a workflow can rely on, in every run.

* `slots_kept` — slots are neither lost nor given back twice, an operation runs on a slot
  that is held, and a task that waits holds none;
* `Nested.step` — children that are awaited keep the permits of a slot nested;
* `running_eq` — where they are, as many units run as slots are taken.
-/

namespace OpenCollab.TaskSlots

open Lib

variable {w w' : World} {n t s q p : Nat}

/-! ## what holds in every run -/

/-- A slot that counts a borrower has one. -/
theorem Inv.exists_borrower (h : Inv n w) (hborrowers : (w.slots s).borrowers ≠ 0) :
    ∃ q, w.IsOpen q ∧ (w.permits q).slot = s ∧ (w.permits q).lender ≠ none := by
  rw [h.counted] at hborrowers
  obtain ⟨q, -, hq⟩ := tally_pos_iff.mp (Nat.pos_of_ne_zero fun hzero =>
    hborrowers (by rw [World.borrowing, hzero]; rfl))
  simp only [Permit.borrows, Bool.and_eq_true, Bool.not_eq_true', decide_eq_true_eq] at hq
  exact ⟨q, hq.1.1, hq.1.2, Option.isSome_iff_ne_none.mp hq.2⟩

/-- A slot that is taken is used, or its clean-up is due. -/
theorem Inv.open_of_live (h : Inv n w) (hs : (w.slots s).live = true) :
    (w.slots s).release = .woken ∨ ∃ q, w.IsOpen q ∧ (w.permits q).slot = s := by
  cases hrelease : (w.slots s).release with
  | held =>
      obtain ⟨q, hq, -, hslot⟩ := h.held s hrelease
      exact .inr ⟨q, hq, hslot⟩
  | waiting =>
      obtain ⟨q, hq, hslot, -⟩ := h.exists_borrower (h.pending s hrelease)
      exact .inr ⟨q, hq, hslot⟩
  | woken => exact .inl rfl
  | given => simp [Slot.live, hrelease] at hs

/-- An event that takes what is waited for, begins what is due, or ends an operation. -/
def Event.Advances : Event → Prop
  | .lockTaken _ | .slotTaken _ | .finish _ | .begin _ | .releaseAfterBorrowers _ => True
  | _ => False

/-- The task of an open permit waits for nothing, its operation can end. -/
theorem Inv.finish_isSome (h : Inv n w) (hq : w.IsOpen q) :
    (w.step (.finish (w.permits q).owner)).isSome = true := by
  have hmem := h.framed q hq
  have hsteady := h.steady (w.permits q).owner
  generalize (w.permits q).owner = t at hmem hsteady
  have hframes : (w.tasks t).frames ≠ [] := by
    intro hempty
    rw [Task.permits, hempty] at hmem
    contradiction
  have hruns : w.runs t = true := by
    refine runs_iff.mpr ⟨h.task_lt fun heq => hframes (by rw [heq]), ?_, ?_⟩
    · by_contra hwaits
      exact hframes (hsteady.patient hwaits)
    · rw [← Bool.not_eq_true]
      exact fun hunbegun => hframes (hsteady.unbegun hunbegun).1
  rw [World.step, if_pos hruns, World.finish]
  split
  · contradiction
  · rfl
  · rfl
  · rfl

/-- Who waits is not the last to move. -/
theorem Inv.progress (h : Inv n w) (hn : 1 ≤ n) (hwaits : (w.tasks t).waits ≠ none) :
    ∃ event : Event, event.Advances ∧ (w.step event).isSome = true := by
  have hfinish {q : Nat} (hq : w.IsOpen q) :
      ∃ event : Event, event.Advances ∧ (w.step event).isSome = true :=
    ⟨.finish (w.permits q).owner, trivial, h.finish_isSome hq⟩
  obtain ⟨wait, hwait⟩ := Option.ne_none_iff_exists'.mp hwaits
  cases wait with
  | lock p =>
      cases hlock : (w.permits p).locked with
      | true =>
          obtain ⟨q, hq, -⟩ := h.locked p hlock
          exact hfinish hq
      | false =>
          refine ⟨.lockTaken t, trivial, ?_⟩
          simp only [World.step, hwait, hlock, Bool.false_eq_true, if_false]
          split <;> rfl
  | semaphore =>
      by_cases hfree : 0 < w.free
      · refine ⟨.slotTaken t, trivial, ?_⟩
        rw [World.step, if_pos ⟨hwait, hfree⟩]
        rfl
      · have hsum := h.conserved
        by_cases hreserved : 0 < w.reserved
        · obtain ⟨u, -, hu⟩ := tally_pos_iff.mp hreserved
          refine ⟨.begin u, trivial, ?_⟩
          rw [World.step, if_pos hu]
          rfl
        · obtain ⟨s, -, hs⟩ := tally_pos_iff.mp (show 0 < w.live by omega)
          obtain hwoken | ⟨q, hq, -⟩ := h.open_of_live hs
          · refine ⟨.releaseAfterBorrowers s, trivial, ?_⟩
            rw [World.step, if_pos hwoken]
            rfl
          · exact hfinish hq

/-- What the units of a workflow with `n` slots can rely on. -/
structure Kept (n : Nat) (w : World) : Prop where
  conserved : w.free + w.live + w.reserved = n
  onHeld : ∀ q, w.IsOpen q → (w.slots (w.permits q).slot).live = true
  exclusive : ∀ q q' p, w.IsOpen q → w.IsOpen q' → (w.permits q).lender = some p →
    (w.permits q').lender = some p → q = q'
  patient : ∀ t, (w.tasks t).waits ≠ none → ∀ q, w.IsOpen q → (w.permits q).owner ≠ t
  progress : ∀ t, 1 ≤ n → (w.tasks t).waits ≠ none →
    ∃ event : Event, event.Advances ∧ (w.step event).isSome = true
  settled : (∀ q, ¬ w.IsOpen q) → (∀ s, (w.slots s).release ≠ .woken) → w.reserved = 0 →
    w.free = n

/-- **Slots are conserved in every run**, however tasks nest, fail and are cancelled.  Each is
free, taken, or handed to a worker that has not begun; an operation runs on a slot that has
not been given back; a permit is lent to one task at a time; a task that waits holds no
permit, and something else can move; and with the last operation every slot is free. -/
theorem slots_kept {events : List Event} (hrun : (World.init n).run events = some w) : Kept n w := by
  have h := (inv_init n).run hrun
  refine ⟨h.conserved, fun q hq => h.live_of_open hq, h.exclusive, fun t hwaits q hq => ?_,
    fun t hn hwaits => h.progress hn hwaits, fun hclosed hgiven hreserved => ?_⟩
  · exact h.not_owner ((h.steady t).patient hwaits) hq
  · have hlive : ¬ 0 < w.live := by
      intro hpos
      obtain ⟨s, -, hs⟩ := tally_pos_iff.mp hpos
      obtain hwoken | ⟨q, hq, -⟩ := h.open_of_live hs
      · exact hgiven s hwoken
      · exact hclosed q hq
    have hsum := h.conserved
    omega

/-- A unit whose child is left behind with the only slot, and a second unit that waits for it. -/
def leftBehind : List Event :=
  [.call 0, .slotTaken 0, .spawn 0, .call 1, .lockTaken 1, .finish 0, .call 0, .finish 1]

theorem slots_kept_leftBehind : ∃ h : ((World.init 1).run leftBehind).isSome = true,
    (((World.init 1).run leftBehind).get h).free = 0 ∧
    ((((World.init 1).run leftBehind).get h).slots 0).release = .woken ∧
    Kept 1 (((World.init 1).run leftBehind).get h) :=
  ⟨by decide, by decide, by decide, slots_kept (Option.some_get _).symm⟩

/-! ## children that are awaited -/

/-- The operation that ends has lent its permit to no child. -/
def World.Awaits (w : World) : Event → Prop
  | .finish t => ∀ q, (w.tasks t).frames.head?.bind Frame.permit? = some q →
      (w.permits q).locked = false
  | _ => True

/-- Every operation of the run awaits the children that have borrowed from it. -/
def World.AwaitedRun (w : World) : List Event → Prop
  | [] => True
  | event :: events => w.Awaits event ∧ ∀ w', w.step event = some w' → w'.AwaitedRun events

/-- A lender is open as long as what it has lent, and nothing is left to a clean-up. -/
structure Nested (w : World) : Prop where
  lender : ∀ q p, w.IsOpen q → (w.permits q).lender = some p → w.IsOpen p
  prompt : ∀ s, (w.slots s).release = .held ∨ (w.slots s).release = .given

/-- One permit is borrowed from the other, or is it. -/
def Below (w : World) : Nat → Nat → Prop :=
  Relation.ReflTransGen fun q p => w.IsOpen q ∧ (w.permits q).lender = some p

/-- Every permit of a slot is borrowed from its owner's. -/
theorem Inv.below_owner (h : Inv n w) (hnested : Nested w) {x : Nat} (hx : w.IsOpen x)
    (hq : w.IsOpen q) (howner : (w.permits q).lender = none)
    (hslot : (w.permits x).slot = (w.permits q).slot) : Below w x q := by
  induction x using Nat.strong_induction_on with
  | _ x ih =>
      cases hlender : (w.permits x).lender with
      | none =>
          rw [h.single x q hx hq hlender howner hslot]
          exact .refl
      | some p =>
          obtain ⟨hlt, hsame, -⟩ := h.lent x p hx hlender
          exact .head ⟨hx, hlender⟩
            (ih p hlt (hnested.lender x p hx hlender) (hsame.trans hslot))

/-- Of two permits of a slot one is borrowed from the other. -/
theorem Inv.below_total (h : Inv n w) (hnested : Nested w) {x y : Nat} (hx : w.IsOpen x)
    (hy : w.IsOpen y) (hslot : (w.permits x).slot = (w.permits y).slot) :
    Below w x y ∨ Below w y x := by
  induction x using Nat.strong_induction_on with
  | _ x ih =>
      cases hlender : (w.permits x).lender with
      | none => exact .inr (h.below_owner hnested hy hx hlender hslot.symm)
      | some p =>
          obtain ⟨hlt, hsame, -⟩ := h.lent x p hx hlender
          have hp := hnested.lender x p hx hlender
          obtain hpy | hyp := ih p hlt hp (hsame.trans hslot)
          · exact .inl (.head ⟨hx, hlender⟩ hpy)
          · obtain heq | ⟨z, hyz, hz, hzp⟩ := Relation.ReflTransGen.cases_tail hyp
            · rw [← heq]
              exact .inl (.single ⟨hx, hlender⟩)
            · rw [h.exclusive x z p hx hz hlender hzp]
              exact .inr hyz

/-- A permit that another one is borrowed from is locked. -/
theorem Inv.locked_of_below (h : Inv n w) {x : Nat} (hbelow : Below w x q) (hne : x ≠ q) :
    (w.permits q).locked = true := by
  obtain heq | ⟨z, -, hz, hzq⟩ := Relation.ReflTransGen.cases_tail hbelow
  · exact absurd heq.symm hne
  · exact (h.lent z q hz hzq).2.2

/-- The operation under the permit runs, and lends the slot to no child. -/
def Permit.runs (permit : Permit) : Bool := !permit.closed && !permit.locked

/-- The operations that run. -/
def World.running (w : World) : Nat := tally Permit.runs w.permits w.nextPermit

theorem runs_permit_iff :
    (w.permits q).runs = true ↔ w.IsOpen q ∧ (w.permits q).locked = false := by
  simp [Permit.runs, World.IsOpen]

/-- A slot with an open permit has one that lends to nobody. -/
theorem Inv.exists_runs (h : Inv n w) (hq : w.IsOpen q) :
    ∃ x, (w.permits x).runs = true ∧ (w.permits x).slot = (w.permits q).slot := by
  have hlt := h.lt_of_open hq
  generalize hgap : w.nextPermit - q = gap
  induction gap using Nat.strong_induction_on generalizing q with
  | _ gap ih =>
      cases hlock : (w.permits q).locked with
      | false => exact ⟨q, runs_permit_iff.mpr ⟨hq, hlock⟩, rfl⟩
      | true =>
          obtain ⟨x, hx, hxq⟩ := h.locked q hlock
          obtain ⟨hqx, hslot, -⟩ := h.lent x q hx hxq
          have hltx := h.lt_of_open hx
          obtain ⟨y, hy, hyx⟩ := ih (w.nextPermit - x) (by omega) hx hltx rfl
          exact ⟨y, hy, hyx.trans hslot.symm⟩

/-- As many operations run as slots are taken. -/
theorem Inv.running_live (h : Inv n w) (hnested : Nested w) : w.running = w.live := by
  simp only [World.running, World.live, tally, Nat.count_eq_card_filter_range]
  refine Finset.card_bij (fun q _ => (w.permits q).slot) ?_ ?_ ?_
  · intro q hq
    obtain ⟨-, hruns⟩ := Finset.mem_filter.mp hq
    have hopen := (runs_permit_iff.mp hruns).1
    exact Finset.mem_filter.mpr ⟨Finset.mem_range.mpr (h.placed q hopen), h.live_of_open hopen⟩
  · intro x hx y hy hslot
    obtain ⟨hopen, hlock⟩ := runs_permit_iff.mp (Finset.mem_filter.mp hx).2
    obtain ⟨hopen', hlock'⟩ := runs_permit_iff.mp (Finset.mem_filter.mp hy).2
    by_contra hne
    obtain hbelow | hbelow := h.below_total hnested hopen hopen' hslot
    · have hlocked := h.locked_of_below hbelow hne
      exact absurd (hlock'.symm.trans hlocked) Bool.false_ne_true
    · have hlocked := h.locked_of_below hbelow fun heq => hne heq.symm
      exact absurd (hlock.symm.trans hlocked) Bool.false_ne_true
  · intro s hs
    obtain ⟨-, hlive⟩ := Finset.mem_filter.mp hs
    obtain hwoken | ⟨q, hq, rfl⟩ := h.open_of_live hlive
    · obtain hprompt | hprompt := hnested.prompt s <;> simp [hprompt] at hwoken
    · obtain ⟨x, hx, hslot⟩ := h.exists_runs hq
      have hlt := h.lt_of_open (runs_permit_iff.mp hx).1
      exact ⟨x, Finset.mem_filter.mpr ⟨Finset.mem_range.mpr hlt, hx⟩, hslot⟩

/-- A new permit is borrowed from an open one. -/
theorem Opens.nested {frame : Frame} (o : Opens w w' t frame) (h : Inv n w) (hnested : Nested w)
    (hlender : ∀ p, (w'.permits w.nextPermit).lender = some p → w.IsOpen p)
    (hprompt : ∀ s, (w'.slots s).release = .held ∨ (w'.slots s).release = .given) :
    Nested w' := by
  refine ⟨fun q p hq hqp => o.kept h ?_, hprompt⟩
  by_cases hne : q = w.nextPermit
  · rw [hne] at hqp
    exact hlender p hqp
  · rw [(o.same q hne).2.2.2] at hqp
    exact hnested.lender q p (o.old hq hne) hqp

/-- The permit that is closed was lent to nobody. -/
theorem Closes.nested (c : Closes w w' t q) (h : Inv n w) (hnested : Nested w)
    (hlock : (w.permits q).locked = false)
    (hprompt : ∀ s, (w'.slots s).release = .held ∨ (w'.slots s).release = .given) :
    Nested w' := by
  refine ⟨fun x p hx hxp => ?_, hprompt⟩
  obtain ⟨hopen, -⟩ := c.isOpen_iff.mp hx
  rw [(c.same x).2.2.2] at hxp
  refine c.isOpen_iff.mpr ⟨hnested.lender x p hopen hxp, fun heq => ?_⟩
  have hlocked := (h.lent x p hopen hxp).2.2
  rw [heq, hlock] at hlocked
  contradiction

/-- A slot whose owner's permit is lent to nobody has no borrowers. -/
theorem Inv.no_borrowers (h : Inv n w) (hnested : Nested w) (hq : w.IsOpen q)
    (howner : (w.permits q).lender = none) (hlock : (w.permits q).locked = false) :
    (w.slots (w.permits q).slot).borrowers = 0 := by
  by_contra hmore
  obtain ⟨x, hx, hslot, hlender⟩ := h.exists_borrower hmore
  have hbelow := h.below_owner hnested hx hq howner hslot
  have hlocked := h.locked_of_below hbelow fun hxq => hlender (by rw [hxq, howner])
  exact absurd (hlock.symm.trans hlocked) Bool.false_ne_true

/-- The end of an operation whose children have all come back. -/
theorem Nested.finish (hnested : Nested w) (h : Inv n w) (hawaits : w.Awaits (.finish t))
    (hfinish : w.finish t = some w') : Nested w' := by
  unfold World.finish at hfinish
  split at hfinish
  · contradiction
  · cases hfinish
    exact ⟨hnested.lender, hnested.prompt⟩
  · rename_i q p frames hframes
    cases hfinish
    refine (closes_giveBack h hframes).nested h hnested (hawaits q (by rw [hframes]; rfl))
      fun s => ?_
    have hprompt := hnested.prompt s
    rw [World.setTask, slots_giveBack]
    split
    · rw [Slot.release_leave, if_neg]
      · exact hprompt
      · intro hwaiting
        obtain hcase | hcase := hprompt <;> simp [hcase] at hwaiting
    · exact hprompt
  · rename_i q token frames hframes
    cases hfinish
    have hlock : (w.permits q).locked = false := hawaits q (by rw [hframes]; rfl)
    obtain ⟨hopen, howner, -⟩ := h.ownedBy hframes
    refine (closes_closeOwned h hframes).nested h hnested hlock fun s => ?_
    rw [World.setTask, slots_closeOwned (h.event _)]
    split
    · rename_i heq
      rw [heq]
      exact .inr (if_pos (h.no_borrowers hnested hopen howner hlock))
    · exact hnested.prompt s

/-- An operation begins on a slot of its own. -/
theorem Nested.runAcquired (hnested : Nested w) (h : Inv n w) (hframes : (w.tasks t).frames = [])
    (free : Nat) : Nested ({ w with free }.runAcquired t) := by
  refine (opens_runAcquired h hframes free).nested h hnested (fun p hp => ?_) fun s => ?_
  · rw [permits_runAcquired, if_pos rfl] at hp
    contradiction
  · rw [slots_runAcquired]
    split
    · exact .inl rfl
    · exact hnested.prompt s

/-- A task borrows an open permit. -/
theorem Nested.borrow (hnested : Nested w) (h : Inv n w) (hframes : (w.tasks t).frames = [])
    (hbegun : (w.tasks t).reserved = false) (hopen : w.IsOpen p) : Nested (w.borrow t p) := by
  refine (opens_borrow h hframes hbegun (h.lt_of_open hopen)).nested h hnested
    (fun r hr => ?_) fun s => ?_
  · rw [permits_borrow, if_pos rfl] at hr
    obtain rfl : p = r := Option.some.inj hr
    exact hopen
  · rw [release_borrow]
    exact hnested.prompt s

/-- **Awaited children keep the permits nested.** -/
theorem Nested.step {event : Event} (hnested : Nested w) (h : Inv n w)
    (hawaits : w.Awaits event) (hstep : w.step event = some w') : Nested w' := by
  cases event with
  | spawn t =>
      simp only [World.step, Option.ite_none_right_eq_some, Option.some.injEq] at hstep
      obtain ⟨-, rfl⟩ := hstep
      exact ⟨hnested.lender, hnested.prompt⟩
  | call t =>
      simp only [World.step, Option.ite_none_right_eq_some, Option.some.injEq] at hstep
      obtain ⟨-, rfl⟩ := hstep
      unfold World.call
      split
      · exact ⟨hnested.lender, hnested.prompt⟩
      · split
        · exact ⟨hnested.lender, hnested.prompt⟩
        · split <;> exact ⟨hnested.lender, hnested.prompt⟩
  | lockTaken t =>
      simp only [World.step] at hstep
      split at hstep
      · rename_i p hwaits
        obtain ⟨hframes, hbegun, -⟩ := h.waiting hwaits
        split at hstep
        · contradiction
        · split at hstep
          · cases hstep
            exact ⟨hnested.lender, hnested.prompt⟩
          · rename_i hopen
            cases hstep
            exact hnested.borrow h hframes hbegun (by simpa [World.IsOpen] using hopen)
      · contradiction
  | slotTaken t =>
      simp only [World.step, Option.ite_none_right_eq_some, Option.some.injEq] at hstep
      obtain ⟨⟨hwaits, -⟩, rfl⟩ := hstep
      exact hnested.runAcquired h (h.waiting hwaits).1 _
  | abandon t =>
      simp only [World.step, Option.ite_none_right_eq_some, Option.some.injEq] at hstep
      obtain ⟨-, rfl⟩ := hstep
      exact ⟨hnested.lender, hnested.prompt⟩
  | finish t =>
      simp only [World.step, Option.ite_none_right_eq_some] at hstep
      exact hnested.finish h hawaits hstep.2
  | allocate t =>
      simp only [World.step, Option.ite_none_right_eq_some, Option.some.injEq] at hstep
      obtain ⟨-, rfl⟩ := hstep
      exact ⟨hnested.lender, hnested.prompt⟩
  | begin t =>
      simp only [World.step, Option.ite_none_right_eq_some, Option.some.injEq] at hstep
      obtain ⟨hunbegun, rfl⟩ := hstep
      exact hnested.runAcquired h ((h.steady t).unbegun hunbegun).1 w.free
  | cancelUnstarted t =>
      simp only [World.step, Option.ite_none_right_eq_some, Option.some.injEq] at hstep
      obtain ⟨-, rfl⟩ := hstep
      exact ⟨hnested.lender, hnested.prompt⟩
  | releaseAfterBorrowers s =>
      simp only [World.step, Option.ite_none_right_eq_some] at hstep
      obtain hprompt | hprompt := hnested.prompt s <;> simp [hprompt] at hstep

theorem nested_init (n : Nat) : Nested (.init n) where
  lender _ _ hq := by contradiction
  prompt _ := .inr rfl

theorem Nested.run {events : List Event} (hnested : Nested w) (h : Inv n w)
    (hawaited : w.AwaitedRun events) (hrun : w.run events = some w') : Nested w' := by
  induction events generalizing w with
  | nil =>
      cases hrun
      exact hnested
  | cons event events ih =>
      rw [World.run, List.foldlM_cons] at hrun
      cases hstep : w.step event with
      | none =>
          rw [hstep] at hrun
          contradiction
      | some next =>
          rw [hstep] at hrun
          exact ih (hnested.step h hawaited.1 hstep) (h.step hstep) (hawaited.2 next hstep) hrun

/-- **Where children are awaited, as many units run as slots are taken**: with the slots that
are free or handed to a worker they are `task_concurrency`.  No taken slot is idle, and none
is used twice, however collections nest. -/
theorem running_eq {events : List Event} (hawaited : (World.init n).AwaitedRun events)
    (hrun : (World.init n).run events = some w) : w.running + w.free + w.reserved = n := by
  have h := (inv_init n).run hrun
  have hsum := h.conserved
  rw [h.running_live ((nested_init n).run (inv_init n) hawaited hrun)]
  omega

/-- A child borrows the only slot, and its own child borrows it in turn. -/
def borrowedTwice : List Event :=
  [.call 0, .slotTaken 0, .spawn 0, .call 1, .lockTaken 1, .call 1, .spawn 1, .call 2, .lockTaken 2]

theorem running_eq_borrowedTwice : ∃ h : ((World.init 1).run borrowedTwice).isSome = true,
    (((World.init 1).run borrowedTwice).get h).free = 0 ∧
    (((World.init 1).run borrowedTwice).get h).running +
      (((World.init 1).run borrowedTwice).get h).free +
      (((World.init 1).run borrowedTwice).get h).reserved = 1 :=
  ⟨by decide, by decide, running_eq (by
    simp [borrowedTwice, World.AwaitedRun, World.Awaits]) (Option.some_get _).symm⟩

end OpenCollab.TaskSlots
