import OpenCollab.Session.StepBound

/-!
# OpenCollab.Session.Reserve

The protected commit reserve over a session's life.  Three latches guard it:
`budget_reserve_consumed` lives as long as the session, `wind_down_done` and
`wind_down_attempts` as long as a user turn.

A wind-down that begins at the reserve threshold needs the first latch open and
closes it, and nothing opens it again; a protected call that ends at the
threshold finds it closed or closes it.  `reserve_spent_once` states what
follows for every session.
-/

namespace OpenCollab

open Lib

/-! ## the reserve in a log -/

namespace Event

/-- A wind-down that begins at the reserve threshold. -/
def spendsReserve (h : Host) : Event → Bool
  | windDown used budget => reserveReached h budget used
  | _ => false

/-- A protected call that ends at the reserve threshold. -/
def endsProtected (h : Host) : Event → Bool
  | callEnded isProtected used budget => isProtected && reserveReached h budget used
  | _ => false

/-- The `max_budget_tokens` an event happens under, where it matters. -/
def budget? : Event → Option (Option Nat)
  | windDown _ budget | callEnded _ _ budget => some budget
  | _ => none

end Event

/-- `max_budget_tokens` is `budget` throughout. -/
def FixedBudget (budget : Option Nat) (events : List Event) : Prop :=
  ∀ event ∈ events, ∀ b ∈ event.budget?, b = budget

/-- No wind-down begins at the threshold once a protected call has ended there. -/
def NoneAfterEnd (h : Host) : List Event → Prop
  | [] => True
  | event :: rest =>
      (event.spendsReserve h = true → rest.any (Event.endsProtected h) = false) ∧
        NoneAfterEnd h rest

theorem noneAfterEnd_under (h : Host) (answers : Nat → Answer) (events : List Event) :
    NoneAfterEnd (h.under answers) events ↔ NoneAfterEnd h events := by
  induction events with
  | nil => exact Iff.rfl
  | cons event rest ih => exact and_congr Iff.rfl ih

theorem FixedBudget.tail {budget : Option Nat} {event : Event} {rest : List Event}
    (hf : FixedBudget budget (event :: rest)) : FixedBudget budget rest :=
  fun e he => hf e (List.mem_cons_of_mem event he)

/-! ## the latches -/

namespace Machine

variable {h : Host} {regime : Regime} {m m' : Machine}

/-- While `max_budget_tokens` is `budget`: in a wind-down the reserve is consumed
once its threshold is reached, and a protected call ended there only then. -/
structure Latched (h : Host) (budget : Option Nat) (m : Machine) : Prop where
  inWindDown : m.windDownDone = true → reserveReached h budget m.used = true → m.consumed = true
  ended : m.events.any (Event.endsProtected h) = true → m.consumed = true
  after : NoneAfterEnd h m.events

/-- **The reserve is guarded.** -/
structure Guarded (h : Host) (m : Machine) : Prop where
  calm : m.Calm
  /-- A call left behind was made in the wind-down the turn is in. -/
  drained : ∀ isProtected ∈ m.draining, isProtected = m.windDownDone
  once : m.events.countP (Event.spendsReserve h) ≤ if m.consumed = true then 1 else 0
  latched : ∀ budget, FixedBudget budget m.events → m.Latched h budget

/-- A move that leaves the reserve alone. -/
theorem Guarded.same (hg : m.Guarded h) (hc : m'.Calm)
    (hd : ∀ isProtected ∈ m'.draining, isProtected = m.windDownDone)
    (hw : m'.windDownDone = m.windDownDone) (hu : m'.used = m.used)
    (hcons : m'.consumed = m.consumed)
    (he : m'.events = m.events ∨ ∃ event, m'.events = event :: m.events ∧
      event.spendsReserve h = false ∧ event.endsProtected h = false) : m'.Guarded h := by
  obtain he | ⟨event, he, hs, hn⟩ := he
  · constructor
    · exact hc
    · rw [hw]
      exact hd
    · rw [he, hcons]
      exact hg.once
    · intro budget hf
      rw [he] at hf
      have hl := hg.latched budget hf
      exact ⟨by rw [hw, hu, hcons]; exact hl.inWindDown, by rw [he, hcons]; exact hl.ended,
        by rw [he]; exact hl.after⟩
  · constructor
    · exact hc
    · rw [hw]
      exact hd
    · rw [he, hcons, List.countP_cons_of_neg (by simp [hs])]
      exact hg.once
    · intro budget hf
      rw [he] at hf
      have hl := hg.latched budget hf.tail
      refine ⟨by rw [hw, hu, hcons]; exact hl.inWindDown, ?_, ?_⟩
      · rw [he, hcons, List.any_cons, hn, Bool.false_or]
        exact hl.ended
      · rw [he]
        exact ⟨fun h => absurd (hs.symm.trans h) (by decide), hl.after⟩

/-- The latch closes. -/
theorem Guarded.reserve (hg : m.Guarded h) : Guarded h { m with consumed := true } where
  calm := hg.calm
  drained := hg.drained
  once := by
    have := hg.once
    split at this
    · exact this
    · simp only [if_true]
      omega
  latched := fun budget hf => ⟨fun _ _ => rfl, fun _ => rfl, (hg.latched budget hf).after⟩

/-- A wind-down begins. -/
theorem Guarded.enter (hg : m.Guarded h) (hc : m'.Calm) (hd : m'.draining = [])
    (hu : m'.used = m.used) (hcons : reserveReached h m.soft m.used = true → m.consumed = false)
    (hset : m'.consumed = (m.consumed || reserveReached h m.soft m.used))
    (he : ∃ dst, m'.events = .edge m.phase dst :: .windDown m.used m.soft :: m.events) :
    m'.Guarded h := by
  obtain ⟨dst, he⟩ := he
  constructor
  · exact hc
  · rw [hd]
    nofun
  · rw [he, List.countP_cons_of_neg (by simp [Event.spendsReserve]), List.countP_cons, hset]
    have honce := hg.once
    cases hr : reserveReached h m.soft m.used with
    | false => simpa [Event.spendsReserve, hr] using honce
    | true =>
        rw [hcons hr] at honce
        simp only [Bool.false_eq_true, if_false] at honce
        simp only [Event.spendsReserve, hr, Bool.or_true, if_true]
        omega
  · intro budget hf
    rw [he] at hf
    have hl := hg.latched budget hf.tail.tail
    have hsoft : m.soft = budget := hf (.windDown m.used m.soft) (by simp) m.soft rfl
    refine ⟨?_, ?_, ?_⟩
    · intro _ hr
      rw [hu, ← hsoft] at hr
      rw [hset, hr, Bool.or_true]
    · rw [he]
      intro hend
      rw [hset, hl.ended hend, Bool.true_or]
    · rw [he]
      refine ⟨nofun, ?_, hl.after⟩
      intro hr
      rw [Bool.eq_false_iff]
      intro hend
      exact absurd ((hl.ended hend).symm.trans (hcons hr)) (by decide)

/-- A call ends: its tokens are charged, and a protected one settles the latch. -/
theorem Guarded.callEnded (hg : m.Guarded h) (hc : m'.Calm) {isProtected : Bool} {total : Nat}
    (hd : ∀ b ∈ m'.draining, b = m.windDownDone) (hp : isProtected = m.windDownDone)
    (hw : m'.windDownDone = m.windDownDone) (hu : m'.used = m.used + total)
    (hset : m'.consumed =
      (m.consumed || (isProtected && reserveReached h m.soft (m.used + total))) ∨
      total = 0 ∧ m'.consumed = m.consumed)
    (he : m'.events = .callEnded isProtected (m.used + total) m.soft :: m.events) :
    m'.Guarded h := by
  constructor
  · exact hc
  · rw [hw]
    exact hd
  · have hmono : m.consumed = true → m'.consumed = true := by
      intro hm
      obtain hset | ⟨-, hset⟩ := hset
      · rw [hset, hm, Bool.true_or]
      · rw [hset, hm]
    have honce := hg.once
    rw [he, List.countP_cons_of_neg (by simp [Event.spendsReserve])]
    split
    · split at honce <;> omega
    · rename_i hno
      rw [if_neg fun hm => hno (hmono hm)] at honce
      exact honce
  · intro budget hf
    rw [he] at hf
    have hl := hg.latched budget hf.tail
    have hsoft : m.soft = budget :=
      hf (.callEnded isProtected (m.used + total) m.soft) (by simp) m.soft rfl
    have hclose : m.windDownDone = true → reserveReached h m.soft (m.used + total) = true →
        m'.consumed = true := by
      intro hwind hr
      obtain hset | ⟨rfl, hset⟩ := hset
      · rw [hset, hp, hwind, hr, Bool.and_true, Bool.or_true]
      · rw [hset]
        exact hl.inWindDown hwind (hsoft ▸ hr)
    refine ⟨?_, ?_, ?_⟩
    · rw [hw, hu, ← hsoft]
      exact hclose
    · rw [he, List.any_cons, Bool.or_eq_true]
      rintro (hend | hend)
      · rw [Event.endsProtected, Bool.and_eq_true, hp] at hend
        exact hclose hend.1 hend.2
      · have hm := hl.ended hend
        obtain hset | ⟨-, hset⟩ := hset
        · rw [hset, hm, Bool.true_or]
        · rw [hset, hm]
    · rw [he]
      exact ⟨nofun, hl.after⟩

/-- Delivering a queued user turn touches the transcript only. -/
theorem deliverQueued_resources (m : Machine) :
    m.deliverQueued.used = m.used ∧ m.deliverQueued.consumed = m.consumed := by
  unfold deliverQueued
  split
  · exact ⟨rfl, rfl⟩
  · split <;> exact ⟨rfl, rfl⟩

theorem guarded_step (hs : Step h m m') (hg : m.Guarded h) : m'.Guarded h := by
  have hc := calm_step hs hg.calm
  cases hs with
  | fills | say | raiseBudget | resetStarted | markStarted | fold | clearResponse =>
      exact hg.same hc hg.drained rfl rfl rfl (.inl rfl)
  | addRow | settleRow | wake | restart | abort =>
      exact hg.same hc hg.drained rfl rfl rfl (.inl rfl)
  | begin | stop | respond | route | answer | drain | suspend | finish | saved | passCheck =>
      exact hg.same hc hg.drained rfl rfl rfl (.inr ⟨_, rfl, rfl, rfl⟩)
  | retry | startStep | call => exact hg.same hc hg.drained rfl rfl rfl (.inr ⟨_, rfl, rfl, rfl⟩)
  | deliver =>
      obtain ⟨he, -, hw, -⟩ := m.deliverQueued_keeps
      obtain ⟨hu, hcons⟩ := m.deliverQueued_resources
      refine hg.same hc ?_ hw hu hcons (.inl he)
      rw [m.deliverQueued_eq.2.2]
      exact hg.drained
  | resume =>
      obtain ⟨he, -, hw, -⟩ := m.drainTable.deliverQueued_keeps
      obtain ⟨hu, hcons⟩ := m.drainTable.deliverQueued_resources
      refine hg.same hc ?_ hw hu hcons (.inr ⟨_, congrArg _ he, rfl, rfl⟩)
      rw [go, m.drainTable.deliverQueued_eq.2.2]
      exact hg.drained
  | reserve => exact hg.reserve
  | enterWindDown hp _ _ _ hcons =>
      exact hg.enter hc (hg.calm (.inl (by rw [hp]; decide))) rfl hcons rfl ⟨_, rfl⟩
  | charge => exact hg.callEnded hc hg.drained rfl rfl rfl (.inl rfl) rfl
  | unreported => exact hg.callEnded hc hg.drained rfl rfl rfl (.inr ⟨rfl, rfl⟩) rfl
  | abandon =>
      refine hg.same hc ?_ rfl rfl rfl (.inr ⟨_, rfl, rfl, rfl⟩)
      intro isProtected hmem
      rw [List.mem_append, List.mem_singleton] at hmem
      exact hmem.elim (hg.drained isProtected) id

/-- The calls left behind can only become fewer. -/
theorem Calm.late (hc : m.Calm) (i : Nat) (usage : Option Usage) : (m.late h i usage).Calm := by
  unfold Machine.late
  cases hi : m.draining[i]? with
  | none => exact hc
  | some isProtected =>
      have hne : m.draining ≠ [] := by
        intro hd
        rw [hd] at hi
        contradiction
      dsimp only
      split <;> exact fun hp => absurd (hc hp) hne

/-- The environment takes no part in the guard. -/
theorem Guarded.under (hg : m.Guarded h) {answers : Nat → Answer} : m.Guarded (h.under answers) where
  calm := hg.calm
  drained := hg.drained
  once := hg.once
  latched := fun budget hf =>
    have hl := hg.latched budget hf
    ⟨hl.inWindDown, hl.ended, (noneAfterEnd_under h answers m.events).mpr hl.after⟩

theorem Guarded.of_under {answers : Nat → Answer} (hg : m.Guarded (h.under answers)) :
    m.Guarded h where
  calm := hg.calm
  drained := hg.drained
  once := hg.once
  latched := fun budget hf =>
    have hl := hg.latched budget hf
    ⟨hl.inWindDown, hl.ended, (noneAfterEnd_under h answers m.events).mp hl.after⟩

theorem guarded_move (hm : Move h regime m m') (hg : m.Guarded h) : m'.Guarded h := by
  cases hm with
  | step _ _ hs =>
      exact (guarded_step hs hg.under).of_under
  | userTurn turnId content hp hq hd =>
      constructor
      · exact fun _ => hd
      · rw [userTurn, hd]
        nofun
      · exact hg.once
      · exact fun budget hf => ⟨nofun, (hg.latched budget hf).ended, (hg.latched budget hf).after⟩
  | runStarted hd =>
      exact hg.same (fun _ => hd) hg.drained rfl rfl rfl (.inr ⟨_, rfl, rfl, rfl⟩)
  | late i usage =>
      have hc := hg.calm.late (h := h) i usage
      unfold Machine.late at hc ⊢
      cases hi : m.draining[i]? with
      | none => exact hg
      | some isProtected =>
          simp only [hi] at hc
          have hp := hg.drained isProtected (List.mem_of_getElem? hi)
          have hd : ∀ b ∈ m.draining.eraseIdx i, b = m.windDownDone :=
            fun b hb => hg.drained b (List.mem_of_mem_eraseIdx hb)
          cases hn : usage.bind normalizeCompletionUsage with
          | some counts =>
              simp only [hn] at hc
              exact hg.callEnded hc hd hp rfl rfl (.inl rfl) rfl
          | none =>
              simp only [hn] at hc
              exact hg.callEnded hc hd hp rfl rfl (.inr ⟨rfl, rfl⟩) rfl
  | restart _ hr =>
      refine hg.same (fun _ => hr.draining) ?_ hr.windDownDone hr.used hr.consumed (.inl hr.events)
      rw [hr.draining]
      nofun

end Machine

/-! ## every session -/

/-- What is promised of the reserve in a session that is at `w`. -/
structure ReserveOnce (h : Host) (py : Python) (w : World) : Prop where
  /-- At most one wind-down begins at the threshold. -/
  once : w.events.countP (Event.spendsReserve h) ≤ 1
  /-- None begins there after a protected call has ended there. -/
  after : ∀ budget, FixedBudget budget w.events → NoneAfterEnd h w.events
  /-- A restore of what is saved here keeps the latches and the attempts. -/
  restored : ∀ v w', (Facade.restore h py (.ok w.snapshot) none).run v = (.ok (), w') →
    w'.state.resources = w.state.resources

/-- **The protected reserve is spent once** in a session's life, whatever is done
with it: user turns, runs that die anywhere, late results and restores. -/
theorem reserve_spent_once {h : Host} {py : Python} {seed : List Message} {w : World}
    {alive : Bool} (hl : Lives h py {} (.fresh h seed) alive w) : ReserveOnce h py w := by
  have hidle : (World.fresh h seed).machine.phase.Rests := (by decide : SessionPhase.idle.Rests)
  have hlived := hl.lived hidle fun _ => rfl
  have hfresh : (World.fresh h seed).machine.Guarded h := by
    constructor
    · exact fun _ => rfl
    · nofun
    · exact Nat.zero_le _
    · exact fun _ _ => ⟨nofun, nofun, trivial⟩
  have hmove : ∀ m m', Move h {} m m' → m.Guarded h → m'.Guarded h :=
    fun _ _ => Machine.guarded_move
  have hg := invariant_of_run hmove hlived.moves hfresh
  constructor
  · have honce : w.events.countP (Event.spendsReserve h) ≤ _ := hg.once
    split at honce <;> omega
  · exact fun budget hf => (hg.latched budget hf).after
  · intro v w' hr
    obtain ⟨-, restored, hrestored, rfl⟩ := (Meets.outcome Facade.restore_spec hr).1 () rfl
    exact (SessionState.ofSnapshot_snapshotForSave hrestored).1

/-- A session that has spent its reserve. -/
theorem reserve_spent_once_sample : ReserveOnce (.budgeted mixing) .sample .woundDown ∧
    World.woundDown.events.countP (Event.spendsReserve (.budgeted mixing)) = 1 :=
  ⟨reserve_spent_once (World.woundDown_lives trivial trivial trivial trivial), by decide +kernel⟩

end OpenCollab
