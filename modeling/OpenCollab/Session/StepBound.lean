import OpenCollab.Session.Lineage

/-!
# OpenCollab.Session.StepBound

How many model steps a user turn takes.  A step is recorded when the driver is
in CALLING_LLM with an admission that has not been used yet, so the steps are
counted by counting admissions: an ordinary one needs `step_count < max_steps`,
one of the wind-down takes one of two attempts.

* `Account`: `steps + pending admission <= limit + attempts taken`, and every
  step was entered from a PRECHECK that passed;
* `accounted_step`, `accounted_move`: every move of a turn keeps the account;
* `turn_bounded`: the bounds of a whole turn, restores included.
-/

namespace OpenCollab

open Lib

/-! ## steps in a log -/

namespace Event

/-- A recorded model step. -/
def isModelStep : Event → Bool
  | modelStep _ => true
  | _ => false

/-- A model step of the wind-down. -/
def isWindDownStep : Event → Bool
  | modelStep flag => flag
  | _ => false

/-- An event that gives or takes an admission. -/
def decides : Event → Bool
  | runStarted _ | edge .. | modelStep _ | abandoned => true
  | _ => false

end Event

/-- PRECHECK passed since the run began, and no model step was recorded since. -/
def passed : List Event → Bool
  | [] => false
  | .edge src dst :: _ => src = .precheck && dst = .callingLlm
  | .runStarted _ :: _ | .modelStep _ :: _ | .abandoned :: _ => false
  | _ :: rest => passed rest

/-- Every model step is entered from a PRECHECK that passed. -/
def EachPassed : List Event → Prop
  | [] => True
  | event :: rest => (event.isModelStep = true → passed rest = true) ∧ EachPassed rest

theorem admitted_cons {event : Event} (hd : event.decides = false) (rest : List Event) :
    admitted (event :: rest) = admitted rest := by
  cases event <;> first | rfl | contradiction

theorem passed_cons {event : Event} (hd : event.decides = false) (rest : List Event) :
    passed (event :: rest) = passed rest := by
  cases event <;> first | rfl | contradiction

/-- An admission is known once the log decides it. -/
theorem admitted_append {new : List Event} (hd : new.any Event.decides = true)
    (old : List Event) : admitted (new ++ old) = admitted new := by
  induction new with
  | nil => contradiction
  | cons event rest ih =>
      cases he : event.decides with
      | false =>
          rw [List.cons_append, admitted_cons he, admitted_cons he]
          rw [List.any_cons, he, Bool.false_or] at hd
          exact ih hd
      | true => cases event <;> first | rfl | contradiction

/-- `1` for an admission that has not been used. -/
def pending (events : List Event) : Nat := if admitted events = true then 1 else 0

theorem pending_of_admitted {events : List Event} (ha : admitted events = true) :
    pending events = 1 := if_pos ha

theorem pending_of_used {events : List Event} (ha : admitted events = false) :
    pending events = 0 := if_neg (by simp [ha])

/-! ## the account of a turn -/

/-- The phases a user turn is run from. -/
def SessionPhase.opensRun (phase : SessionPhase) : Prop :=
  phase = .idle ∨ phase.isTerminal = true ∨ phase = .awaitingEvents

/-- **The account of a user turn** that is at `m` and began at `m₀`, `new` being
what was emitted since. -/
structure Account (h : Host) (m₀ : Machine) (new : List Event) (m : Machine) : Prop where
  events : m.events = new ++ m₀.events
  /-- Outside the phases a run starts from, the log says whether a step is admitted. -/
  decided : m.phase.opensRun ∨ new.any Event.decides = true
  counted : m.steps = m₀.steps + new.countP Event.isModelStep
  passed : admitted new = true → passed new = true
  each : EachPassed new
  /-- Every step is an ordinary one or one of the attempts taken since. -/
  steps : ∀ limit ∈ h.maxSteps,
    (m.steps + pending new : Int) ≤ max (m₀.steps : Int) limit + (m.attempts - m₀.attempts : Nat)
  windDown : h.enforcementOn = true →
    new.countP Event.isWindDownStep + (if m.windDownDone = true then pending new else 0) ≤
      m.attempts - m₀.attempts
  taken : m₀.attempts ≤ m.attempts
  off : h.enforcementOn = false → m.attempts = m₀.attempts
  before : m.windDownDone = false → m.attempts = m₀.attempts
  most : m.attempts ≤ m₀.attempts + 2

namespace Account

variable {h : Host} {m₀ m m' : Machine} {new : List Event}

theorem refl (hp : m₀.phase.opensRun) : Account h m₀ [] m₀ where
  events := rfl
  decided := .inl hp
  counted := rfl
  passed := fun h => absurd h (by decide)
  each := trivial
  steps := fun limit _ => by simp [pending, admitted]
  windDown := fun _ => by simp [pending, admitted]
  taken := Nat.le_refl _
  off := fun _ => rfl
  before := fun _ => rfl
  most := Nat.le_add_right _ 2

/-- The account does not see the transcript, the rows or the budgets. -/
theorem same (ha : Account h m₀ new m) (he : m'.events = m.events) (hs : m'.steps = m.steps)
    (hw : m'.windDownDone = m.windDownDone) (hat : m'.attempts = m.attempts)
    (hp : m'.phase = m.phase ∨ m'.phase.opensRun) : Account h m₀ new m' where
  events := he.trans ha.events
  decided := by
    obtain hp | hp := hp
    · rw [hp]
      exact ha.decided
    · exact .inl hp
  counted := hs.trans ha.counted
  passed := ha.passed
  each := ha.each
  steps := by rw [hs, hat]; exact ha.steps
  windDown := by rw [hw, hat]; exact ha.windDown
  taken := by rw [hat]; exact ha.taken
  off := by rw [hat]; exact ha.off
  before := by rw [hw, hat]; exact ha.before
  most := by rw [hat]; exact ha.most

/-- An event that neither gives nor takes an admission. -/
theorem quiet (ha : Account h m₀ new m) {event : Event} (hd : event.decides = false)
    (he : m'.events = event :: m.events) (hs : m'.steps = m.steps)
    (hw : m'.windDownDone = m.windDownDone) (hat : m'.attempts = m.attempts)
    (hp : m'.phase = m.phase) : Account h m₀ (event :: new) m' := by
  have hm : event.isModelStep = false := by cases event <;> first | rfl | contradiction
  have hn : event.isWindDownStep = false := by cases event <;> first | rfl | contradiction
  have hpend : pending (event :: new) = pending new := by rw [pending, admitted_cons hd, pending]
  constructor
  · rw [he, ha.events, List.cons_append]
  · rw [hp, List.any_cons, hd, Bool.false_or]
    exact ha.decided
  · rw [hs, List.countP_cons_of_neg (by simp [hm])]
    exact ha.counted
  · rw [admitted_cons hd, passed_cons hd]
    exact ha.passed
  · exact ⟨fun h => absurd (hm.symm.trans h) (by decide), ha.each⟩
  · rw [hs, hat, hpend]
    exact ha.steps
  · rw [hw, hat, hpend, List.countP_cons_of_neg (by simp [hn])]
    exact ha.windDown
  · rw [hat]
    exact ha.taken
  · rw [hat]
    exact ha.off
  · rw [hw, hat]
    exact ha.before
  · rw [hat]
    exact ha.most

/-- An event that leaves no admission and is no step. -/
theorem spend (ha : Account h m₀ new m) (event : Event) (hd : event.decides = true)
    (hm : event.isModelStep = false) (hno : admitted (event :: new) = false)
    (he : m'.events = event :: m.events) (hs : m'.steps = m.steps)
    (hw : m'.windDownDone = m.windDownDone) (hat : m'.attempts = m.attempts) :
    Account h m₀ (event :: new) m' := by
  have hn : event.isWindDownStep = false := by cases event <;> first | rfl | contradiction
  have hpend := pending_of_used hno
  constructor
  · rw [he, ha.events, List.cons_append]
  · rw [List.any_cons, hd, Bool.true_or]
    exact .inr rfl
  · rw [hs, List.countP_cons_of_neg (by simp [hm])]
    exact ha.counted
  · exact fun h => absurd (hno.symm.trans h) (by decide)
  · exact ⟨fun h => absurd (hm.symm.trans h) (by decide), ha.each⟩
  · intro limit hl
    have hb := ha.steps limit hl
    rw [hs, hat, hpend]
    omega
  · intro hon
    have hb := ha.windDown hon
    rw [hw, hat, hpend, List.countP_cons_of_neg (by simp [hn])]
    split at hb <;> split <;> omega
  · rw [hat]
    exact ha.taken
  · rw [hat]
    exact ha.off
  · rw [hw, hat]
    exact ha.before
  · rw [hat]
    exact ha.most

/-- An edge that is no admission. -/
theorem edge (ha : Account h m₀ new m) (dst : SessionPhase) (hne : dst ≠ .callingLlm)
    (he : m'.events = .edge m.phase dst :: m.events) (hs : m'.steps = m.steps)
    (hw : m'.windDownDone = m.windDownDone) (hat : m'.attempts = m.attempts) :
    Account h m₀ (.edge m.phase dst :: new) m' :=
  ha.spend (.edge m.phase dst) rfl rfl (decide_eq_false hne) he hs hw hat

/-- An admission, and the attempt it takes. -/
theorem admission (ha : Account h m₀ new m) (taken : Nat)
    (he : m'.events = .edge .precheck .callingLlm :: m.events) (hs : m'.steps = m.steps)
    (hat : m'.attempts = m.attempts + taken)
    (hsteps : ∀ limit ∈ h.maxSteps, taken = 0 → (m.steps : Int) < limit)
    (hpos : taken ≤ 1) (hon : taken = 1 → h.enforcementOn = true)
    (hw : h.enforcementOn = true → m'.windDownDone = decide (taken = 1))
    (hkept : taken = 0 → m'.windDownDone = m.windDownDone)
    (hmost : m.attempts + taken ≤ m₀.attempts + 2) :
    Account h m₀ (.edge .precheck .callingLlm :: new) m' := by
  have hpend : pending (.edge .precheck .callingLlm :: new) = 1 := rfl
  constructor
  · rw [he, ha.events, List.cons_append]
  · exact .inr rfl
  · rw [hs, List.countP_cons_of_neg (by simp [Event.isModelStep])]
    exact ha.counted
  · exact fun _ => rfl
  · exact ⟨fun h => absurd h (by decide), ha.each⟩
  · intro limit hl
    have hb := ha.steps limit hl
    have ht := ha.taken
    have hlt := hsteps limit hl
    rw [hs, hat, hpend]
    by_cases h0 : taken = 0
    · have := hlt h0
      omega
    · omega
  · intro hen
    have hb := ha.windDown hen
    have ht := ha.taken
    rw [hw hen, hat, hpend, List.countP_cons_of_neg (by simp [Event.isWindDownStep])]
    by_cases h1 : taken = 1
    · simp only [h1, decide_true, if_true]
      split at hb <;> omega
    · simp only [h1, decide_false, Bool.false_eq_true, if_false]
      omega
  · have := ha.taken
    omega
  · intro hoff
    have hne : taken ≠ 1 := fun h1 => absurd ((hon h1).symm.trans hoff) (by decide)
    have := ha.off hoff
    omega
  · intro hf
    by_cases h1 : taken = 1
    · have := hw (hon h1)
      rw [hf, h1] at this
      contradiction
    · have h0 : taken = 0 := by omega
      rw [hkept h0] at hf
      have := ha.before hf
      omega
  · omega

/-- A model step uses the admission. -/
theorem step (ha : Account h m₀ new m) (hp : m.phase = .callingLlm)
    (hadm : admitted m.events = true)
    (he : m'.events = .modelStep m.windDownDone :: m.events) (hs : m'.steps = m.steps + 1)
    (hw : m'.windDownDone = m.windDownDone) (hat : m'.attempts = m.attempts) :
    Account h m₀ (.modelStep m.windDownDone :: new) m' := by
  have hdec : new.any Event.decides = true := by
    refine ha.decided.resolve_left ?_
    rw [hp]
    rintro (h | h | h) <;> contradiction
  have hnew : admitted new = true := by
    rw [ha.events, admitted_append hdec] at hadm
    exact hadm
  have hpend := pending_of_admitted hnew
  have hpend' : pending (.modelStep m.windDownDone :: new) = 0 := rfl
  constructor
  · rw [he, ha.events, List.cons_append]
  · exact .inr rfl
  · rw [hs, List.countP_cons_of_pos rfl, ha.counted]
    omega
  · exact fun h => absurd h Bool.false_ne_true
  · exact ⟨fun _ => ha.passed hnew, ha.each⟩
  · intro limit hl
    have hb := ha.steps limit hl
    rw [hs, hat, hpend']
    rw [hpend] at hb
    omega
  · intro hon
    have hb := ha.windDown hon
    rw [hw, hat, hpend', List.countP_cons]
    rw [hpend] at hb
    cases hf : m.windDownDone <;> simp [hf, Event.isWindDownStep] at hb ⊢ <;> omega
  · rw [hat]
    exact ha.taken
  · rw [hat]
    exact ha.off
  · rw [hw, hat]
    exact ha.before
  · rw [hat]
    exact ha.most

end Account

/-! ## every move -/

namespace Machine

variable {h : Host} {m₀ m m' : Machine}

/-- The account of the turn stands at `m`. -/
def Accounted (h : Host) (m m₀ : Machine) : Prop := ∃ new, Account h m₀ new m

theorem deliverQueued_keeps (m : Machine) :
    m.deliverQueued.events = m.events ∧ m.deliverQueued.steps = m.steps ∧
      m.deliverQueued.windDownDone = m.windDownDone ∧ m.deliverQueued.attempts = m.attempts := by
  unfold deliverQueued
  split
  · exact ⟨rfl, rfl, rfl, rfl⟩
  · split <;> exact ⟨rfl, rfl, rfl, rfl⟩

theorem accounted_step (hs : Step h m m') (ha : m.Accounted h m₀) : m'.Accounted h m₀ := by
  obtain ⟨new, ha⟩ := ha
  cases hs with
  | fills | say | raiseBudget | reserve | resetStarted | markStarted | fold | clearResponse =>
      exact ⟨new, ha.same rfl rfl rfl rfl (.inl rfl)⟩
  | addRow | settleRow => exact ⟨new, ha.same rfl rfl rfl rfl (.inl rfl)⟩
  | wake => exact ⟨new, ha.same rfl rfl rfl rfl (.inr (.inr (.inr rfl)))⟩
  | restart => exact ⟨new, ha.same rfl rfl rfl rfl (.inr (.inl rfl))⟩
  | deliver hp =>
      obtain ⟨he, hst, hw, hat⟩ := m.deliverQueued_keeps
      exact ⟨new, ha.same he hst hw hat (.inl m.deliverQueued_eq.1)⟩
  | resume hp =>
      obtain ⟨he, hst, hw, hat⟩ := m.drainTable.deliverQueued_keeps
      have hphase : m.drainTable.deliverQueued.phase = m.phase := m.drainTable.deliverQueued_eq.1
      refine ⟨_, ha.edge .autosaving (by decide) ?_ hst hw hat⟩
      rw [go, hphase, he]
      rfl
  | begin => exact ⟨_, ha.edge .precheck (by decide) rfl rfl rfl rfl⟩
  | stop => exact ⟨_, ha.edge .stopped (by decide) rfl rfl rfl rfl⟩
  | respond => exact ⟨_, ha.edge .handlingResponse (by decide) rfl rfl rfl rfl⟩
  | route => exact ⟨_, ha.edge .executingTools (by decide) rfl rfl rfl rfl⟩
  | answer | drain => exact ⟨_, ha.edge .autosaving (by decide) rfl rfl rfl rfl⟩
  | suspend => exact ⟨_, ha.edge .awaitingEvents (by decide) rfl rfl rfl rfl⟩
  | finish _ _ dst hd =>
      refine ⟨_, ha.edge dst ?_ rfl rfl rfl rfl⟩
      obtain rfl | rfl | rfl := hd <;> decide
  | saved _ dst hd =>
      refine ⟨_, ha.edge dst ?_ rfl rfl rfl rfl⟩
      obtain rfl | rfl := hd <;> decide
  | passCheck hp hw hst =>
      refine ⟨_, ha.admission 0 (by rw [go, hp]) rfl rfl (fun n hn _ => hst n hn) (by decide)
        (fun h => absurd h (by decide)) ?_ (fun _ => rfl) ha.most⟩
      intro hon
      rw [hon, Bool.true_and] at hw
      exact hw
  | retry hp he hw hat =>
      refine ⟨_, ha.admission 1 (by rw [go, ← hp]; rfl) rfl rfl (fun _ _ h => absurd h (by decide))
        (Nat.le_refl 1) (fun _ => he) (fun _ => hw) (fun h => absurd h (by decide)) ?_⟩
      omega
  | enterWindDown hp he hw =>
      have hq : Account h m₀ (.windDown m.used m.soft :: new)
          { m with events := .windDown m.used m.soft :: m.events } :=
        ha.quiet rfl rfl rfl rfl rfl rfl
      have hattempts := ha.before hw
      refine ⟨_, hq.admission 1 (by rw [go, ← hp]; rfl) rfl rfl (fun _ _ h => absurd h (by decide))
        (Nat.le_refl 1) (fun _ => he) (fun _ => rfl) (fun h => absurd h (by decide)) ?_⟩
      show m.attempts + 1 ≤ m₀.attempts + 2
      omega
  | startStep hp _ hadm => exact ⟨_, ha.step hp hadm rfl rfl rfl rfl⟩
  | call | charge | unreported => exact ⟨_, ha.quiet rfl rfl rfl rfl rfl rfl⟩
  | abandon => exact ⟨_, ha.spend .abandoned rfl rfl rfl rfl rfl rfl rfl⟩
  | abort phase hp =>
      refine ⟨new, ha.same rfl rfl rfl rfl ?_⟩
      obtain rfl | rfl | ⟨rfl, -⟩ := hp
      · exact .inr (.inr (.inl rfl))
      · exact .inr (.inr (.inl rfl))
      · exact .inl rfl

end Machine

/-- A lineage within one user turn: runs, late results and restores, each run
from a phase of a resting session. -/
def Regime.turn : Regime where
  userTurns := False
  entry := SessionPhase.opensRun

theorem accounted_move {h : Host} {m₀ m m' : Machine} (hm : Move h .turn m m')
    (ha : m.Accounted h m₀) : m'.Accounted h m₀ := by
  cases hm with
  | step answers _ hs =>
      obtain ⟨new, ha⟩ := ha
      have hunder : m.Accounted (h.under answers) m₀ := ⟨new, { ha with }⟩
      obtain ⟨new', ha'⟩ := Machine.accounted_step hs hunder
      exact ⟨new', { ha' with }⟩
  | userTurn _ _ _ _ _ hu => exact hu.elim
  | runStarted _ _ he =>
      obtain ⟨new, ha⟩ := ha
      refine ⟨_, ha.spend (.runStarted m.phase) rfl rfl ?_ rfl rfl rfl rfl⟩
      refine decide_eq_false fun hc => ?_
      rw [hc] at he
      obtain he | he | he := he <;> contradiction
  | late i usage =>
      obtain ⟨new, ha⟩ := ha
      unfold Machine.late
      split
      · exact ⟨new, ha⟩
      · dsimp only
        split <;> exact ⟨_, ha.quiet rfl rfl rfl rfl rfl rfl⟩
  | restart _ hr =>
      obtain ⟨new, ha⟩ := ha
      exact ⟨new, ha.same hr.events hr.steps hr.windDownDone hr.attempts (.inr hr.phase)⟩

/-- What a user turn that began in `w₀` may do until `w`. -/
structure TurnBounds (h : Host) (w₀ w : World) (new : List Event) : Prop where
  events : w.events = new ++ w₀.events
  /-- Every model step is entered from a PRECHECK that passed. -/
  each : EachPassed new
  /-- The session counts its model steps. -/
  counted : w.state.stepCount = w₀.state.stepCount + new.countP Event.isModelStep
  steps : ∀ limit ∈ h.maxSteps, (new.countP Event.isModelStep : Int) ≤
    max 0 (limit - w₀.state.stepCount) + if h.enforcementOn = true then 2 else 0
  windDown : h.enforcementOn = true → new.countP Event.isWindDownStep ≤ 2
  /-- A further run takes no illegal edge. -/
  legal : ∀ answers fuel e, w.state.phase.opensRun →
    ((Facade.runLoop (h.under answers) fuel).run w).1 = .error e → e.isPhaseError = false

/-- **The driver is legal and bounded**: from a session that rests, whatever the
provider, the tools and the environment do in one user turn, restores included. -/
theorem turn_bounded {h : Host} {py : Python} {w₀ w : World} {alive : Bool}
    (hp : w₀.state.phase.opensRun) (hl : Lives h py .turn w₀ alive w) :
    ∃ new, TurnBounds h w₀ w new := by
  have hrests := rests_of_restored hp
  have hunrowed : w₀.machine.Unrowed := by
    refine fun hmem => absurd hmem ?_
    obtain hp | hp | hp := hp
    · simp [World.machine, hp]
    · revert hp
      show w₀.state.phase.isTerminal = true → w₀.state.phase ∉ _
      generalize w₀.state.phase = phase
      cases phase <;> decide
    · simp [World.machine, hp]
  have hlived := hl.lived hrests hunrowed
  have hmove : ∀ m m', Move h .turn m m' → m.Accounted h w₀.machine → m'.Accounted h w₀.machine :=
    fun _ _ => accounted_move
  obtain ⟨new, ha⟩ := invariant_of_run hmove hlived.moves ⟨[], .refl hp⟩
  have hcount : w.state.stepCount = w₀.state.stepCount + new.countP Event.isModelStep := ha.counted
  refine ⟨new, ha.events, ha.each, hcount, ?_, ?_, ?_⟩
  · intro limit hlim
    have hsteps : (w.state.stepCount + pending new : Int) ≤
      max (w₀.state.stepCount : Int) limit + (w.machine.attempts - w₀.machine.attempts : Nat) :=
      ha.steps limit hlim
    have hmost := ha.most
    split
    · omega
    · rename_i hoff
      have := ha.off (Bool.eq_false_iff.mpr hoff)
      omega
  · intro hon
    have hw := ha.windDown hon
    have hmost := ha.most
    omega
  · intro answers fuel e hopen hr
    cases hrun : (Facade.runLoop (h.under answers) fuel).run w with
    | mk r w' =>
        rw [hrun] at hr
        exact ((Meets.outcome (Facade.runLoop_spec fuel (rests_of_restored hopen) hlived.unrowed)
          hrun).2 e hr).1.1

/-- A turn with a step, and one in the wind-down. -/
theorem turn_bounded_sample :
    ∃ new, TurnBounds (.budgeted mixing) .opened .woundDown new ∧
      World.woundDown.events.countP Event.isWindDownStep = 1 := by
  obtain ⟨new, hnew⟩ := @turn_bounded (.budgeted mixing) .sample .opened .woundDown true
    (.inl rfl) (World.woundDown_lives trivial trivial (.inl rfl) (.inr (.inr rfl)))
  exact ⟨new, hnew, by decide +kernel⟩

end OpenCollab
