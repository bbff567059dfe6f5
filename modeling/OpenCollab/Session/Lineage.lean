import OpenCollab.Session.Snapshot

/-!
# OpenCollab.Session.Lineage

The life of a session: user turns, runs and late provider results, in any order
and each in its own environment, and the restores of what was saved on the way.
A process can die during any operation (`Exn.crash`); the next one starts from
the snapshot of the state it left, so a lineage follows what was saved.

`Lives` is that life on worlds, `Move` on machines; `Lives.lived` relates them,
so that an invariant of every move is one of every session.
-/

namespace OpenCollab

open Lib

/-! ## operations -/

/-- The same configuration in another environment. -/
def Host.under (h : Host) (answers : Nat → Answer) : Host := { h with answers }

/-- What is done with a session from outside, and in which environment; `settle`
is time passing between two of them. -/
inductive SessionOp where
  | addUserMessage (answers : Nat → Answer) (turnId content : String)
  | appendUserTurn (answers : Nat → Answer) (turnId content : String)
  | runLoop (answers : Nat → Answer) (fuel : Nat)
  | settle (answers : Nat → Answer)

namespace SessionOp

def perform (h : Host) : SessionOp → Session Unit
  | addUserMessage answers turnId content => Facade.addUserMessage (h.under answers) turnId content
  | appendUserTurn answers turnId content => Facade.appendUserTurn (h.under answers) turnId content
  | runLoop answers fuel => do
      let _ ← Facade.runLoop (h.under answers) fuel
      return ()
  | settle answers => do
      let _ ← Session.settle (h.under answers)
      return ()

end SessionOp

/-- A session nothing has been done with. -/
def World.fresh (h : Host) (messages : List Message) : World where
  state := { messages }
  runner := {
    maxBudgetTokens := h.initialBudget
    tools := h.initialTools
    toolChoice := h.initialToolChoice }

/-- What a lineage is made of: the environments, whether user turns begin, the
phases runs start from, and whether saved states are restored. -/
structure Regime where
  env : (Nat → Answer) → Prop := fun _ => True
  userTurns : Prop := True
  entry : SessionPhase → Prop := fun _ => True
  restarts : Prop := True

/-- The operation belongs to the lineage. -/
def SessionOp.allowed (regime : Regime) (w : World) : SessionOp → Prop
  | addUserMessage answers _ _ | appendUserTurn answers _ _ =>
      regime.env answers ∧ regime.userTurns
  | runLoop answers _ => regime.env answers ∧ regime.entry w.state.phase
  | settle answers => regime.env answers

/-- The worlds of a session's life from `w₀`; `alive` when its process has not
died in the last operation. -/
inductive Lives (h : Host) (py : Python) (regime : Regime) (w₀ : World) : Bool → World → Prop where
  | start : Lives h py regime w₀ true w₀
  | perform {w w' : World} {result : Except Exn Unit} (op : SessionOp)
      (hw : Lives h py regime w₀ true w) (ha : op.allowed regime w)
      (hr : (op.perform h).run w = (result, w')) :
      Lives h py regime w₀ (result ≠ .error .crash) w'
  | late {alive : Bool} {w : World} (i : Nat) (usage : Option Usage)
      (hw : Lives h py regime w₀ alive w) :
      Lives h py regime w₀ alive (w.recordLateProviderResult h i usage)
  /-- Another process, `v`, restores what was saved; the events are the lineage's. -/
  | restart {alive : Bool} {w v w' : World} (hw : Lives h py regime w₀ alive w)
      (hregime : regime.restarts) (hv : v.events = w.events)
      (hr : (Facade.restore h py (.ok w.snapshot) none).run v = (.ok (), w')) :
      Lives h py regime w₀ true w'

/-! ## moves -/

namespace Machine

/-- A user turn begins. -/
def userTurn (m : Machine) (turnId content : String) : Machine :=
  { m with
    messages := if m.table.isEmpty then m.messages ++ [.ofText .user content] else m.messages
    queued := some {
      turnId, content, messageIndex := if m.table.isEmpty then some m.messages.length else none }
    phase := if m.phase.isTerminal then .idle else m.phase
    windDownDone := false
    attempts := 0 }

/-- The `i`-th call left behind ends. -/
def late (h : Host) (m : Machine) (i : Nat) (usage : Option Usage) : Machine :=
  match m.draining[i]? with
  | none => m
  | some isProtected =>
      let m := { m with draining := m.draining.eraseIdx i }
      match usage.bind normalizeCompletionUsage with
      | some (_, total) => m.charge h isProtected total
      | none => { m with events := .callEnded isProtected m.used m.soft :: m.events }

/-- What a snapshot carries over a restore. -/
structure Restores (m m' : Machine) : Prop where
  used : m'.used = m.used
  steps : m'.steps = m.steps
  windDownDone : m'.windDownDone = m.windDownDone
  attempts : m'.attempts = m.attempts
  consumed : m'.consumed = m.consumed
  draining : m'.draining = []
  events : m'.events = m.events
  phase : m'.phase = .idle ∨ m'.phase.isTerminal = true ∨ m'.phase = .awaitingEvents

end Machine

/-- A move of a session's life. -/
inductive Move (h : Host) (regime : Regime) (m : Machine) : Machine → Prop where
  | step {m' : Machine} (answers : Nat → Answer) (he : regime.env answers)
      (hs : Step (h.under answers) m m') : Move h regime m m'
  | userTurn (turnId content : String) (hp : m.phase = .idle ∨ m.phase.isTerminal = true)
      (hq : m.queued = none) (hd : m.draining = [])
      (ha : regime.userTurns) : Move h regime m (m.userTurn turnId content)
  | runStarted (hd : m.draining = []) (hp : m.phase.Rests) (he : regime.entry m.phase) :
      Move h regime m { m with events := .runStarted m.phase :: m.events }
  | late (i : Nat) (usage : Option Usage) : Move h regime m (m.late h i usage)
  | restart {m' : Machine} (hregime : regime.restarts) (hr : m.Restores m') : Move h regime m m'

/-! ## what a restore keeps -/

namespace SessionState

variable {py : Python} {s s' : SessionState}

/-- The resources a session has used and the latches that protect them. -/
structure Resources where
  usedTokens : Nat
  stepCount : Nat
  windDownDone : Bool
  windDownAttempts : Nat
  budgetReserveConsumed : Bool
deriving DecidableEq

def resources (s : SessionState) : Resources :=
  ⟨s.usedTokens, s.stepCount, s.windDownDone, s.windDownAttempts, s.budgetReserveConsumed⟩

/-- The phases a restored session can be in. -/
def Restored (phase : SessionPhase) : Prop :=
  phase = .idle ∨ phase.isTerminal = true ∨ phase = .awaitingEvents

/-- Closing calls touches the transcript only. -/
theorem closeOpenCalls_keeps {exclude : Option (List String)} {receipts : Receipts}
    (h : s.closeOpenCalls exclude receipts = .ok s') :
    s'.resources = s.resources ∧ s'.phase = s.phase := by
  unfold closeOpenCalls at h
  split at h
  · obtain rfl := Except.ok.inj h
    exact ⟨rfl, rfl⟩
  · contradiction

theorem resumeAwaiting_keeps {turnStart : Option Nat} {submitted : Json}
    (h : s.resumeAwaiting turnStart submitted = .ok s') :
    s'.resources = s.resources ∧ Restored s'.phase := by
  unfold resumeAwaiting at h
  obtain ⟨s₁, h₁, h⟩ := bind_eq_ok.mp h
  unfold completeMissingPendingRows at h₁
  obtain ⟨table, -, h₁⟩ := bind_eq_ok.mp h₁
  obtain rfl := Except.ok.inj h₁
  dsimp only at h
  split at h
  · obtain ⟨hsame, hp⟩ := closeOpenCalls_keeps h
    exact ⟨hsame, .inl hp⟩
  · obtain rfl := Except.ok.inj h
    exact ⟨rfl, .inr (.inr rfl)⟩

theorem closeInterrupted_keeps {receipts : Receipts} (h : s.closeInterrupted receipts = .ok s') :
    s'.resources = s.resources ∧ s'.phase = s.phase := by
  unfold closeInterrupted at h
  obtain ⟨s₁, h₁, h⟩ := bind_eq_ok.mp h
  have hk₁ : s₁.resources = s.resources ∧ s₁.phase = s.phase := by
    unfold completeRows at h₁
    split at h₁
    · obtain rfl := Except.ok.inj h₁
      exact ⟨rfl, rfl⟩
    · exact closeOpenCalls_keeps h₁
  obtain ⟨s₂, h₂, h⟩ := bind_eq_ok.mp h
  obtain rfl := Except.ok.inj h
  have hk₂ := closeOpenCalls_keeps h₂
  exact ⟨hk₂.1.trans hk₁.1, hk₂.2.trans hk₁.2⟩

theorem keepSubmission_keeps (phase : SessionPhase) (submitted : Json) (hp : Restored s.phase) :
    (s.keepSubmission phase submitted).resources = s.resources ∧
      Restored (s.keepSubmission phase submitted).phase := by
  unfold keepSubmission
  split
  · split
    · unfold submit
      dsimp only
      split <;> exact ⟨rfl, .inr (.inl rfl)⟩
    · exact ⟨rfl, hp⟩
  · exact ⟨rfl, hp⟩

theorem markCompleted_keeps (raw : Json) (turnStart : Option Nat) :
    (s.markCompleted raw turnStart).resources = s.resources ∧
      (s.markCompleted raw turnStart).phase = s.phase := by
  unfold markCompleted
  split <;> exact ⟨rfl, rfl⟩

theorem resumeInterrupted_keeps {raw : Json} {phase : SessionPhase} {turnStart : Option Nat}
    (h : s.resumeInterrupted py raw phase turnStart = .ok s') :
    s'.resources = s.resources ∧ Restored s'.phase := by
  unfold resumeInterrupted at h
  obtain ⟨s₁, h₁, h⟩ := bind_eq_ok.mp h
  obtain rfl := Except.ok.inj h
  obtain ⟨hk, hp⟩ := closeInterrupted_keeps h₁
  have hp₁ : Restored s₁.phase := by
    rw [hp]
    dsimp only
    split
    · rename_i ht
      exact .inr (.inl ht)
    · exact .inl rfl
  obtain ⟨hk₂, hp₂⟩ := keepSubmission_keeps (s := { s₁ with
    terminalReason := if s₁.phase.isTerminal then py.strOrNone (raw.get "terminal_reason") else none })
    phase (raw.get "submitted_summary") hp₁
  obtain ⟨hk₃, hp₃⟩ := markCompleted_keeps (s := _) raw turnStart
  exact ⟨hk₃.trans (hk₂.trans hk), hp₃ ▸ hp₂⟩

/-- **A restore keeps the resources** that the snapshot records, and the session
rests. -/
theorem ofSnapshot_snapshotForSave {receipts : Receipts}
    (h : ofSnapshot py (s.snapshotForSave receipts) = .ok s') :
    s'.resources = s.resources ∧ Restored s'.phase := by
  have hobj : (s.snapshotForSave receipts).sessionState.isObj = true := rfl
  rw [ofSnapshot, if_pos hobj] at h
  unfold ofRawState at h
  obtain ⟨turn, -, h⟩ := bind_eq_ok.mp h
  obtain ⟨table, -, h⟩ := bind_eq_ok.mp h
  have hread : (readFields py (s.snapshotForSave receipts).messages
      (s.snapshotForSave receipts).sessionState turn).resources = s.resources := by
    simp [readFields, resources, snapshotForSave, fields, Json.get, Json.get?, List.lookup_cons,
      Json.truthy]
  unfold normalizeInterruptedSnapshotState at h
  dsimp only at h
  split at h
  · obtain ⟨hk, hp⟩ := resumeAwaiting_keeps h
    exact ⟨hk.trans hread, hp⟩
  · obtain ⟨hk, hp⟩ := resumeInterrupted_keeps h
    exact ⟨hk.trans hread, hp⟩

end SessionState

/-! ## the moves of a life -/

variable {h : Host} {py : Python} {regime : Regime} {w w₀ w' : World} {alive : Bool}

open Effect Session

theorem machine_recordLateProviderResult (i : Nat) (usage : Option Usage) :
    (w.recordLateProviderResult h i usage).machine = w.machine.late h i usage := by
  rw [World.recordLateProviderResult, Machine.late,
    show w.machine.draining = w.runner.draining from rfl]
  cases w.runner.draining[i]? with
  | none => rfl
  | some isProtected =>
      dsimp only
      cases usage.bind normalizeCompletionUsage with
      | none => rfl
      | some charged => exact World.machine_chargeUsage h isProtected charged.2 _

/-- The machine's view of a user turn that is accepted. -/
theorem machine_userTurn (turnId content : String) :
    ((w.setState fun s => (s.appendQueuedExternalUserTurn turnId content
      (!s.pendingEvents.isEmpty)).resetForUserTurn).setRunner (·.resetForUserTurn h)).machine =
      w.machine.userTurn turnId content := by
  unfold World.setState World.setRunner SessionState.resetForUserTurn Machine.userTurn
  simp only [SessionState.resumeToIdle_eq, SessionState.appendQueuedExternalUserTurn]
  cases he : w.state.pendingEvents.isEmpty <;>
    simp [World.machine, he, Runner.resetForUserTurn, SessionState.appendMessage] <;> rfl

/-- What the guard of a user turn establishes. -/
structure TurnOpen (m : Machine) : Prop where
  phase : m.phase = .idle ∨ m.phase.isTerminal = true
  queued : m.queued = none
  draining : m.draining = []

theorem userTurn_phase {m : Machine} (hp : m.phase = .idle ∨ m.phase.isTerminal = true)
    (turnId content : String) : (m.userTurn turnId content).phase = .idle := by
  show (if m.phase.isTerminal then SessionPhase.idle else m.phase) = .idle
  split
  · rfl
  · rename_i ht
    exact hp.resolve_right ht

/-- A user turn is refused, or it begins and its event is emitted. -/
theorem addUserMessage_spec (turnId content : String) :
    Meets (Facade.addUserMessage h turnId content) w
      (fun _ w' => TurnOpen w.machine ∧
        ∃ fs : List Fill, w'.machine = { w.machine.userTurn turnId content with
          table := fs.foldl World.applyFill w.machine.table })
      (fun e w' => w' = w ∧ e = Facade.busy ∨ TurnOpen w.machine ∧
        ∃ fs : List Fill, w'.machine = { w.machine.userTurn turnId content with
          table := fs.foldl World.applyFill w.machine.table }) := by
  unfold Facade.addUserMessage
  rw [meets_bind, meets_read, meets_bind, raiseIf]
  split
  · exact .inl ⟨rfl, rfl⟩
  rename_i hopen
  have hturn : TurnOpen w.machine := by
    have hb := Bool.eq_false_iff.mpr hopen
    rw [Bool.or_eq_false_iff, Bool.or_eq_false_iff, Bool.not_eq_false', Bool.not_eq_false'] at hb
    obtain ⟨⟨hd, hq⟩, hp⟩ := hb
    refine ⟨?_, ?_, List.isEmpty_iff.mp hd⟩
    · rw [Bool.or_eq_true, decide_eq_true_eq] at hp
      exact hp
    · exact Option.isSome_eq_false_iff.mp hq |> Option.isNone_iff_eq_none.mp
  rw [meets_pure, meets_bind]
  let w₁ := w.setState fun s =>
    (s.appendQueuedExternalUserTurn turnId content (!s.pendingEvents.isEmpty)).resetForUserTurn
  let w₂ := w₁.setRunner (·.resetForUserTurn h)
  have hm : w₂.machine = w.machine.userTurn turnId content := machine_userTurn turnId content
  have htable : w₂.machine.table = w.machine.table := by rw [hm]; rfl
  obtain ⟨fs, ⟨w₃, hrun, hw₃⟩ | ⟨e, w₃, hrun, -, hw₃⟩⟩ := emit_run (h := h) (w := w₂)
  all_goals rw [htable, hm] at hw₃
  · have hemit : Meets (emit h) w₂ (fun _ w' => w' = w₃) (fun _ _ => False) := by rw [Meets, hrun]
    exact meets_bind.mpr (hemit.mono (fun _ w' hw => hw ▸ ⟨hturn, fs, hw₃⟩) fun _ _ hf => hf.elim)
  · have hemit : Meets (emit h) w₂ (fun _ _ => False) (fun _ w' => w' = w₃) := by rw [Meets, hrun]
    exact meets_bind.mpr (hemit.mono (fun _ _ hf => hf.elim)
      fun _ w' hw => .inr (hw ▸ ⟨hturn, fs, hw₃⟩))

/-- What a computation that meets its postconditions ended with. -/
theorem Meets.outcome {σ ε α : Type} {m : Effect σ ε α} {s s' : σ} {r : Except ε α}
    {Q : α → σ → Prop} {E : ε → σ → Prop} (hm : Meets m s Q E) (hr : m.run s = (r, s')) :
    (∀ a, r = .ok a → Q a s') ∧ ∀ e, r = .error e → E e s' := by
  rw [Meets, hr] at hm
  cases r with
  | ok a =>
      refine ⟨fun _ h => Except.ok.inj h ▸ hm, fun _ h => ?_⟩
      contradiction
  | error e =>
      refine ⟨fun _ h => ?_, fun _ h => Except.error.inj h ▸ hm⟩
      contradiction

theorem unrowed_move {m m' : Machine} (hm : Move h regime m m') (hu : m.Unrowed) : m'.Unrowed := by
  cases hm with
  | step _ _ hs => exact Machine.unrowed_step hs hu
  | userTurn _ _ hp =>
      refine fun h => absurd h ?_
      rw [userTurn_phase hp]
      decide
  | runStarted => exact hu
  | late i usage =>
      unfold Machine.late
      split
      · exact hu
      · dsimp only
        split <;> exact hu
  | restart _ hr =>
      refine fun h => absurd h ?_
      obtain hp | hp | hp := hr.phase
      · simp [hp]
      · revert hp
        generalize m'.phase = phase
        cases phase <;> decide
      · simp [hp]

theorem rests_of_restored {phase : SessionPhase} (hp : SessionState.Restored phase) :
    phase.Rests := by
  obtain rfl | hp | rfl := hp
  · decide
  · exact Facade.rests_of_suspends (by rw [SessionPhase.suspends, hp, Bool.true_or])
  · decide

theorem moves_of_reaches {answers : Nat → Answer} (he : regime.env answers)
    {m m' : Machine} (hr : Relation.ReflTransGen (Step (h.under answers)) m m') :
    Relation.ReflTransGen (Move h regime) m m' := by
  induction hr with
  | refl => exact .refl
  | tail _ hs ih => exact ih.tail (.step answers he hs)

theorem userTurn_moves {answers : Nat → Answer} (he : regime.env answers) (hu : regime.userTurns)
    (turnId content : String) (ht : TurnOpen w.machine) {fs : List Fill}
    (hm : w'.machine = { w.machine.userTurn turnId content with
      table := fs.foldl World.applyFill w.machine.table }) {p : Prop} :
    Relation.ReflTransGen (Move h regime) w.machine w'.machine ∧
      (p → w'.machine.phase.Rests) := by
  refine ⟨?_, fun _ => ?_⟩
  · refine (Relation.ReflTransGen.single
      (.userTurn turnId content ht.phase ht.queued ht.draining hu)).tail ?_
    rw [hm]
    exact .step answers he (.fills fs)
  · rw [hm]
    exact userTurn_phase ht.phase turnId content ▸ (by decide : SessionPhase.idle.Rests)

theorem runLoop_moves {answers : Nat → Answer} {fuel : Nat} {result : Except Exn Json}
    (he : regime.env answers) (hentry : regime.entry w.state.phase)
    (hr : (Facade.runLoop (h.under answers) fuel).run w = (result, w')) (hp : w.machine.phase.Rests)
    (hu : w.machine.Unrowed) :
    Relation.ReflTransGen (Move h regime) w.machine w'.machine ∧
      (result ≠ .error .crash → w'.machine.phase.Rests) := by
  have hrun : w.machine.draining = [] → Reaches (h.under answers) (Facade.started w) w' →
      Relation.ReflTransGen (Move h regime) w.machine w'.machine :=
    fun hd hreach => (moves_of_reaches he hreach).head (.runStarted hd hp hentry)
  obtain ⟨hok, herr⟩ := Meets.outcome (Facade.runLoop_spec fuel hp hu) hr
  cases result with
  | ok answer =>
      obtain ⟨hd, hreach, hs⟩ := hok answer rfl
      exact ⟨hrun hd hreach, fun _ => Facade.rests_of_suspends hs⟩
  | error e =>
      obtain ⟨hends, hsame | ⟨hd, hreach⟩⟩ := herr e rfl
      · exact ⟨by rw [hsame], fun hne => hends.2 fun hc => hne (hc ▸ rfl)⟩
      · exact ⟨hrun hd hreach, fun hne => hends.2 fun hc => hne (hc ▸ rfl)⟩

/-- A user turn that is rolled back leaves what was filled meanwhile. -/
theorem machine_restoreUserTurn {w : World} {turnId content : String} {fs : List Fill}
    (hm : w'.machine = { w.machine.userTurn turnId content with
      table := fs.foldl World.applyFill w.machine.table }) :
    (w'.setState (·.restoreUserTurn w.state.checkpointUserTurn)).machine =
      { w.machine with table := fs.foldl World.applyFill w.machine.table } := by
  have hrest : (w'.setState (·.restoreUserTurn w.state.checkpointUserTurn)).machine =
      { w'.machine with
        messages := w'.machine.messages.take w.machine.messages.length
        queued := w.machine.queued
        phase := w.machine.phase
        windDownDone := w.machine.windDownDone
        attempts := w.machine.attempts } := rfl
  rw [hrest, hm]
  unfold Machine.userTurn
  dsimp only
  split
  · rw [List.take_left]
  · rw [List.take_length]

/-- **An operation** is moves, and a process that lives on rests. -/
theorem perform_moves {op : SessionOp} {result : Except Exn Unit} (ha : op.allowed regime w)
    (hr : (op.perform h).run w = (result, w')) (hp : w.machine.phase.Rests)
    (hu : w.machine.Unrowed) :
    Relation.ReflTransGen (Move h regime) w.machine w'.machine ∧
      (result ≠ .error .crash → w'.machine.phase.Rests) := by
  cases op with
  | addUserMessage answers turnId content =>
      obtain ⟨hok, herr⟩ := Meets.outcome (addUserMessage_spec turnId content) hr
      cases result with
      | ok _ =>
          obtain ⟨ht, fs, hm⟩ := hok () rfl
          exact userTurn_moves ha.1 ha.2 turnId content ht hm
      | error e =>
          obtain ⟨rfl, -⟩ | ⟨ht, fs, hm⟩ := herr e rfl
          · exact ⟨.refl, fun _ => hp⟩
          · exact userTurn_moves ha.1 ha.2 turnId content ht hm
  | appendUserTurn answers turnId content =>
      have hspec : Meets (Facade.appendUserTurn (h.under answers) turnId content) w
          (fun _ w' => TurnOpen w.machine ∧ ∃ fs : List Fill,
            w'.machine = { w.machine.userTurn turnId content with
              table := fs.foldl World.applyFill w.machine.table })
          (fun e w' => e = .crash ∧ TurnOpen w.machine ∧ (∃ fs : List Fill,
            w'.machine = { w.machine.userTurn turnId content with
              table := fs.foldl World.applyFill w.machine.table }) ∨
            ∃ fs : List Fill, w'.machine =
              { w.machine with table := fs.foldl World.applyFill w.machine.table }) := by
        unfold Facade.appendUserTurn
        rw [meets_bind, meets_read, meets_handle]
        refine (addUserMessage_spec turnId content).mono (fun _ _ hq => hq) ?_
        rintro e w₁ (⟨rfl, rfl⟩ | ⟨ht, fs, hm⟩)
        · refine .inr ⟨[], ?_⟩
          have hback : (w₁.setState (·.restoreUserTurn w₁.state.checkpointUserTurn)).machine =
              { w₁.machine with messages := w₁.machine.messages.take w₁.machine.messages.length } := rfl
          rw [hback, List.take_length]
          rfl
        · split
          · exact .inl ⟨rfl, ht, fs, hm⟩
          · exact .inr ⟨fs, machine_restoreUserTurn hm⟩
      obtain ⟨hok, herr⟩ := Meets.outcome hspec hr
      cases result with
      | ok _ =>
          obtain ⟨ht, fs, hm⟩ := hok () rfl
          exact userTurn_moves ha.1 ha.2 turnId content ht hm
      | error e =>
          obtain ⟨-, ht, fs, hm⟩ | ⟨fs, hm⟩ := herr e rfl
          · exact userTurn_moves ha.1 ha.2 turnId content ht hm
          · refine ⟨.single ?_, fun _ => ?_⟩
            · rw [hm]
              exact .step answers ha.1 (.fills fs)
            · rw [hm]
              exact hp
  | runLoop answers fuel =>
      cases hrun : (Facade.runLoop (h.under answers) fuel).run w with
      | mk r w₁ =>
          have hmoves := runLoop_moves ha.1 ha.2 hrun hp hu
          cases r with
          | ok answer =>
              obtain ⟨rfl, rfl⟩ := Prod.mk.inj ((run_bind hrun).symm.trans hr)
              exact ⟨hmoves.1, fun _ => hmoves.2 nofun⟩
          | error e =>
              obtain ⟨rfl, rfl⟩ := Prod.mk.inj ((run_bind_error hrun).symm.trans hr)
              exact ⟨hmoves.1, fun hne => hmoves.2 fun hc => hne (Except.error.inj hc ▸ rfl)⟩
  | settle answers =>
      obtain ⟨rfl, rfl⟩ := Prod.mk.inj hr
      exact ⟨.single (.step answers ha (.fills _)), fun _ => hp⟩

/-- What every world of a life satisfies. -/
structure Lived (h : Host) (regime : Regime) (w₀ : World) (alive : Bool) (w : World) : Prop where
  moves : Relation.ReflTransGen (Move h regime) w₀.machine w.machine
  unrowed : w.machine.Unrowed
  rests : alive = true → w.machine.phase.Rests

theorem restart_moves {v : World} (hregime : regime.restarts) (hv : v.events = w.events)
    (hr : (Facade.restore h py (.ok w.snapshot) none).run v = (.ok (), w')) :
    Move h regime w.machine w'.machine ∧ SessionState.Restored w'.machine.phase := by
  obtain ⟨hd, restored, hrestored, rfl⟩ := (Meets.outcome Facade.restore_spec hr).1 () rfl
  obtain ⟨hres, hphase⟩ := SessionState.ofSnapshot_snapshotForSave hrestored
  simp only [SessionState.resources, SessionState.Resources.mk.injEq] at hres
  obtain ⟨hused, hsteps, hwind, hattempts, hconsumed⟩ := hres
  exact ⟨.restart hregime ⟨hused, hsteps, hwind, hattempts, hconsumed, hd, hv, hphase⟩, hphase⟩

theorem late_phase (m : Machine) (i : Nat) (usage : Option Usage) :
    (m.late h i usage).phase = m.phase := by
  unfold Machine.late
  split
  · rfl
  · dsimp only
    split <;> rfl

/-- **A session's life** is moves from where it began. -/
theorem Lives.lived (hp : w₀.machine.phase.Rests) (hu : w₀.machine.Unrowed)
    (hl : Lives h py regime w₀ alive w) : Lived h regime w₀ alive w := by
  induction hl with
  | start => exact ⟨.refl, hu, fun _ => hp⟩
  | perform op hw ha hr ih =>
      obtain ⟨hm, hrests⟩ := perform_moves ha hr (ih.rests rfl) ih.unrowed
      exact ⟨ih.moves.trans hm, invariant_of_run (fun _ _ => unrowed_move) hm ih.unrowed,
        fun he => hrests (of_decide_eq_true he)⟩
  | @late alive w i usage hw ih =>
      have hm : Move h regime w.machine (w.recordLateProviderResult h i usage).machine := by
        rw [machine_recordLateProviderResult]
        exact .late i usage
      refine ⟨ih.moves.tail hm, unrowed_move hm ih.unrowed, fun he => ?_⟩
      rw [machine_recordLateProviderResult, late_phase]
      exact ih.rests he
  | restart hw hregime hv hr ih =>
      obtain ⟨hm, hphase⟩ := restart_moves hregime hv hr
      exact ⟨ih.moves.tail hm, unrowed_move hm ih.unrowed, fun _ => rests_of_restored hphase⟩

/-! ## a sample life -/

/-- A host with the default configuration. -/
def Host.sample (answers : Nat → Answer) : Host where
  minimumOutput_pos := fun _ => Nat.le_refl 1
  minimumOutput_le := fun _ => by simp
  estimate := fun _ _ _ => 100
  answers := answers

/-- Conversions that refuse every text. -/
def Python.sample : Python where
  intOfStr := fun _ => none
  intOfFloat := fun _ => none
  strOf := fun _ => ""
  positiveTimeout := fun _ => none
  positiveTimeout_idem := nofun
  positiveTimeout_zero := rfl

/-- The host with a budget, a part of which is held back for the wind-down. -/
def Host.budgeted (answers : Nat → Answer) : Host :=
  { Host.sample answers with
    hardBudgetTokens := some 1000
    enforcementOn := true
    commitReserve := 200 }

/-- An environment that reads a file and asks for a child agent in one batch. -/
def mixing (_ : Nat) : Answer where
  response := {
    toolCalls := [⟨"call_1", "read_file", ""⟩, ⟨"call_2", "spawn_agent", ""⟩]
    usage := { inputTokens := .int 800, totalTokens := .int 850 } }
  tool := { content := "text" }
  deferred := .child 1

/-- An environment in which the child agent ends and the model has nothing to ask for. -/
def closing (_ : Nat) : Answer where
  fills := [⟨"call_2", false, "done"⟩]
  response := {
    content := some "answer"
    usage := { inputTokens := .int 20, totalTokens := .int 50 } }

/-- A new session of the budgeted host. -/
def World.opened : World := .fresh (.budgeted mixing) [.ofText .system ""]

/-- The session of `mixing`, suspended after its first run. -/
def World.suspended : World :=
  (((SessionOp.runLoop mixing 40).perform (.budgeted mixing)).run .opened).2

/-- The session when the child agent has ended. -/
def World.settled : World :=
  (((SessionOp.settle closing).perform (.budgeted mixing)).run .suspended).2

/-- The session behind its wind-down. -/
def World.woundDown : World :=
  (((SessionOp.runLoop closing 40).perform (.budgeted mixing)).run .settled).2

/-- An operation whose process lives on. -/
theorem Lives.performs (op : SessionOp) (hw : Lives h py regime w₀ true w)
    (ha : op.allowed regime w)
    (hne : decide (((op.perform h).run w).1 ≠ .error .crash) = true) :
    Lives h py regime w₀ true ((op.perform h).run w).2 :=
  hne ▸ .perform op hw ha rfl

theorem World.suspended_lives {regime : Regime} (he : regime.env mixing)
    (hentry : regime.entry .idle) :
    Lives (.budgeted mixing) .sample regime .opened true .suspended :=
  Lives.performs (.runLoop mixing 40) .start ⟨he, hentry⟩ (by decide +kernel)

/-- The life of a session that reads, waits for a child agent, and winds down. -/
theorem World.woundDown_lives {regime : Regime} (he : regime.env mixing)
    (hend : regime.env closing) (hentry : regime.entry .idle)
    (hresume : regime.entry .awaitingEvents) :
    Lives (.budgeted mixing) .sample regime .opened true .woundDown := by
  have hphase : World.settled.state.phase = .awaitingEvents := by decide +kernel
  have hsettled := Lives.performs (.settle closing) (World.suspended_lives he hentry)
    (h := .budgeted mixing) hend (by decide +kernel)
  refine Lives.performs (.runLoop closing 40) hsettled ⟨hend, ?_⟩ (by decide +kernel)
  show regime.entry World.settled.state.phase
  rw [hphase]
  exact hresume

/-- It ends with the wind-down, half of the reserve unspent. -/
example : World.woundDown.machine.phase = .done ∧ World.woundDown.machine.used = 900 := by
  decide +kernel

end OpenCollab
