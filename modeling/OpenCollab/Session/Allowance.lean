import OpenCollab.Session.StepBound

/-!
# OpenCollab.Session.Allowance

Token admission over a session's run.  Every provider call is admitted with an
output limit computed from what is left of the allowance at that moment, the
call is charged when it ends, and a run-control decision can raise the soft
allowance in between.

* `solvent_move` — what one move keeps: the allowance only rises and stays below
  the hard one, every admission was made with terms that were fair when it was
  made, and calls that keep to what was reserved for them stay within;
* `budget_kept_iff` — what a whole run keeps.  One bound depends on the summary
  calls: their limit is cut to the context window after the provider's floor was
  checked.
-/

namespace OpenCollab

open Lib

/-! ## the log of a run -/

namespace Event

/-- The call used at most the tokens reserved for its input and the output limit
it was sent, and no call was left behind. -/
def isFrugal : Event → Bool
  | call terms total => decide ((total : Int) ≤ terms.reservedInput + terms.limit)
  | abandoned => false
  | _ => true

/-- The soft allowance an event records. -/
def soft? : Event → Option Nat
  | call terms _ => terms.soft
  | callEnded _ _ budget => budget
  | _ => none

/-- The event tells nothing of a provider call. -/
def isPlain : Event → Bool
  | call .. | callEnded .. | abandoned => false
  | _ => true

end Event

/-- The assumption on the provider's usage, over a log. -/
def Frugal (events : List Event) : Prop := ∀ event ∈ events, event.isFrugal = true

/-- The soft allowances a log records, the latest first. -/
def recorded (events : List Event) : List Nat := events.filterMap Event.soft?

theorem Event.plain_soft? {event : Event} (h : event.isPlain = true) : event.soft? = none := by
  cases event with
  | call | callEnded | abandoned => contradiction
  | runStarted | edge | modelStep | windDown => rfl

theorem recorded_plain {new : List Event} (events : List Event)
    (h : ∀ event ∈ new, event.isPlain = true) : recorded (new ++ events) = recorded events := by
  rw [recorded, List.filterMap_append,
    List.filterMap_eq_nil_iff.mpr fun event he => Event.plain_soft? (h event he)]
  rfl

theorem Frugal.tail {event : Event} {events : List Event} (h : Frugal (event :: events)) :
    Frugal events :=
  fun e he => h e (List.mem_cons_of_mem event he)

theorem Frugal.of_append {new events : List Event} (h : Frugal (new ++ events)) : Frugal events :=
  fun event he => h event (List.mem_append_right new he)

theorem ceiling_le {soft c : Nat} {hard : Option Nat} (h : ceiling (some soft) hard = some c) :
    c ≤ soft := by
  cases hard with
  | none => exact Nat.le_of_eq (Option.some.inj h).symm
  | some hard =>
      rw [← Option.some.inj h]
      exact min_le_left soft hard

/-! ## what a move keeps -/

namespace Machine

variable {h : Host} {used₀ soft₀ soft : Nat} {m m' : Machine}

/-- **The run is solvent**: its soft allowance is `soft`, and it began with
`used₀` tokens used and the allowance `soft₀`. -/
structure Solvent (h : Host) (used₀ soft₀ soft : Nat) (m : Machine) : Prop where
  soft_eq : m.soft = some soft
  bounded : ∀ hard ∈ h.hardBudgetTokens, soft ≤ hard
  raised : (soft :: (recorded m.events ++ [soft₀])).Pairwise fun later earlier => earlier ≤ later
  sent : ∀ terms total, .call terms total ∈ m.events →
    terms.Fair h terms.used terms.soft ∧ terms.soft.isSome = true
  alone : Frugal m.events → m.draining = []
  spent : Frugal m.events → m.used ≤ max used₀ soft
  charged : Frugal m.events → ∀ isProtected used budget,
    .callEnded isProtected used budget ∈ m.events → ∃ b, budget = some b ∧ used ≤ max used₀ b

/-- Every recorded allowance is at most the current one. -/
theorem Solvent.recorded_le (hs : m.Solvent h used₀ soft₀ soft) {b : Nat}
    (hb : b ∈ recorded m.events) : b ≤ soft :=
  (List.pairwise_cons.mp hs.raised).1 b (List.mem_append_left [soft₀] hb)

/-- A move that makes, ends and leaves no call. -/
theorem Solvent.same (hs : m.Solvent h used₀ soft₀ soft) (hsoft : m'.soft = m.soft)
    (hused : m'.used = m.used) (hdraining : m'.draining = m.draining)
    (hevents : ∃ new, m'.events = new ++ m.events ∧ ∀ event ∈ new, event.isPlain = true) :
    m'.Solvent h used₀ soft₀ soft := by
  obtain ⟨new, hevents, hplain⟩ := hevents
  have hold : Frugal m'.events → Frugal m.events := by
    rw [hevents]
    exact Frugal.of_append
  constructor
  · exact hsoft.trans hs.soft_eq
  · exact hs.bounded
  · rw [hevents, recorded_plain m.events hplain]
    exact hs.raised
  · intro terms total hmem
    rw [hevents] at hmem
    refine hs.sent terms total ((List.mem_append.mp hmem).resolve_left fun hnew => ?_)
    exact Bool.noConfusion (hplain _ hnew)
  · intro hf
    rw [hdraining]
    exact hs.alone (hold hf)
  · intro hf
    rw [hused]
    exact hs.spent (hold hf)
  · intro hf isProtected used budget hmem
    rw [hevents] at hmem
    refine hs.charged (hold hf) isProtected used budget
      ((List.mem_append.mp hmem).resolve_left fun hnew => ?_)
    exact Bool.noConfusion (hplain _ hnew)

/-- A move that leaves the log alone. -/
theorem Solvent.quiet (hs : m.Solvent h used₀ soft₀ soft) (hsoft : m'.soft = m.soft)
    (hused : m'.used = m.used) (hdraining : m'.draining = m.draining)
    (hevents : m'.events = m.events) : m'.Solvent h used₀ soft₀ soft :=
  hs.same hsoft hused hdraining ⟨[], hevents, nofun⟩

/-- A move that logs one plain event. -/
theorem Solvent.log (hs : m.Solvent h used₀ soft₀ soft) (hsoft : m'.soft = m.soft)
    (hused : m'.used = m.used) (hdraining : m'.draining = m.draining) {event : Event}
    (hevents : m'.events = event :: m.events) (hplain : event.isPlain = true) :
    m'.Solvent h used₀ soft₀ soft := by
  refine hs.same hsoft hused hdraining ⟨[event], hevents, ?_⟩
  intro e he
  rw [List.mem_singleton.mp he]
  exact hplain

/-- The allowance is raised. -/
theorem Solvent.raise (hs : m.Solvent h used₀ soft₀ soft) {next : Option Nat}
    (hr : RaisesBudget h m next) : ∃ soft', Solvent h used₀ soft₀ soft' { m with soft := next } := by
  simp only [RaisesBudget, hs.soft_eq] at hr
  cases next with
  | none => contradiction
  | some soft' =>
      obtain ⟨hle, -, hhard⟩ := hr
      refine ⟨soft', rfl, hhard, ?_, hs.sent, hs.alone, ?_, hs.charged⟩
      · obtain ⟨hbefore, hrest⟩ := List.pairwise_cons.mp hs.raised
        exact List.pairwise_cons.mpr ⟨fun b hb => (hbefore b hb).trans hle, hrest⟩
      · intro hf
        exact (hs.spent hf).trans (max_le_max_left used₀ hle)

/-- Adding an event that records the current allowance. -/
theorem Solvent.raised_cons (hs : m.Solvent h used₀ soft₀ soft) {event : Event}
    (hsoft : event.soft? = some soft) :
    (soft :: (recorded (event :: m.events) ++ [soft₀])).Pairwise
      fun later earlier => earlier ≤ later := by
  rw [recorded, List.filterMap_cons_some hsoft]
  obtain ⟨hbefore, -⟩ := List.pairwise_cons.mp hs.raised
  refine List.pairwise_cons.mpr ⟨fun b hb => ?_, hs.raised⟩
  obtain rfl | hb := List.mem_cons.mp hb
  · exact Nat.le_refl _
  · exact hbefore b hb

/-- A call is left behind. -/
theorem Solvent.abandon (hs : m.Solvent h used₀ soft₀ soft) (draining : List Bool) :
    Solvent h used₀ soft₀ soft { m with draining, events := .abandoned :: m.events } := by
  have hnot : ¬Frugal (.abandoned :: m.events) :=
    fun hf => absurd (hf .abandoned List.mem_cons_self) Bool.false_ne_true
  constructor
  · exact hs.soft_eq
  · exact hs.bounded
  · exact hs.raised
  · intro terms total hmem
    exact hs.sent terms total ((List.mem_cons.mp hmem).resolve_left Event.noConfusion)
  · exact fun hf => absurd hf hnot
  · exact fun hf => absurd hf hnot
  · exact fun hf => absurd hf hnot

/-- A call is sent. -/
theorem Solvent.call (hs : m.Solvent h used₀ soft₀ soft) {terms : Admission} {total : Nat}
    (ht : terms.Fair h m.used m.soft) :
    Solvent h used₀ soft₀ soft { m with events := .call terms total :: m.events } := by
  have hsoft : terms.soft = some soft := ht.soft.trans hs.soft_eq
  have hfair : terms.Fair h terms.used terms.soft := by
    rw [ht.used, ht.soft]
    exact ht
  constructor
  · exact hs.soft_eq
  · exact hs.bounded
  · exact hs.raised_cons hsoft
  · intro terms' total' hmem
    obtain heq | hmem := List.mem_cons.mp hmem
    · obtain ⟨rfl, -⟩ := Event.call.inj heq
      exact ⟨hfair, by rw [hsoft]; rfl⟩
    · exact hs.sent terms' total' hmem
  · exact fun hf => hs.alone hf.tail
  · exact fun hf => hs.spent hf.tail
  · intro hf isProtected used budget hmem
    exact hs.charged hf.tail isProtected used budget
      ((List.mem_cons.mp hmem).resolve_left Event.noConfusion)

/-- A call ends. -/
theorem Solvent.ended (hs : m.Solvent h used₀ soft₀ soft) {isProtected : Bool} {used : Nat}
    (hsoft : m'.soft = m.soft) (hused : m'.used = used)
    (hdraining : Frugal m.events → m'.draining = [])
    (hevents : m'.events = .callEnded isProtected used m.soft :: m.events)
    (hle : Frugal m.events → used ≤ max used₀ soft) : m'.Solvent h used₀ soft₀ soft := by
  have hold : Frugal m'.events → Frugal m.events := by
    rw [hevents]
    exact Frugal.tail
  constructor
  · exact hsoft.trans hs.soft_eq
  · exact hs.bounded
  · rw [hevents]
    exact hs.raised_cons hs.soft_eq
  · intro terms total hmem
    rw [hevents] at hmem
    exact hs.sent terms total ((List.mem_cons.mp hmem).resolve_left Event.noConfusion)
  · exact fun hf => hdraining (hold hf)
  · intro hf
    rw [hused]
    exact hle (hold hf)
  · intro hf isProtected' used' budget hmem
    rw [hevents] at hmem
    obtain heq | hmem := List.mem_cons.mp hmem
    · obtain ⟨-, rfl, rfl⟩ := Event.callEnded.inj heq
      exact ⟨soft, hs.soft_eq, hle (hold hf)⟩
    · exact hs.charged (hold hf) isProtected' used' budget hmem

/-- **What an admitted call can cost**: within its reservation and its limit, it
leaves the tokens used within the allowance it was admitted under. -/
theorem admitted_le {terms : Admission} {total : Nat} (ht : terms.Fair h terms.used terms.soft)
    (hsoft : terms.soft = some soft) (htotal : (total : Int) ≤ terms.reservedInput + terms.limit) :
    terms.used + total ≤ soft := by
  cases hc : ceiling terms.soft terms.hard with
  | none =>
      rw [hsoft] at hc
      cases hhard : terms.hard <;> rw [hhard] at hc <;> contradiction
  | some c =>
      have hleft := ht.left (c - terms.used - terms.reservations) (by
        rw [Admission.remaining, hc]
        rfl)
      have hle : c ≤ soft := ceiling_le (hsoft ▸ hc)
      omega

/-- The call just made is charged. -/
theorem Solvent.charge (hs : m.Solvent h used₀ soft₀ soft) {terms : Admission} {total : Nat}
    {rest : List Event} (he : m.events = .call terms total :: rest) (hu : m.used = terms.used)
    (isProtected : Bool) : (m.charge h isProtected total).Solvent h used₀ soft₀ soft := by
  have hmem : .call terms total ∈ m.events := by
    rw [he]
    exact List.mem_cons_self
  obtain ⟨hfair, hsome⟩ := hs.sent terms total hmem
  obtain ⟨b, hb⟩ := Option.isSome_iff_exists.mp hsome
  have hbound : b ≤ soft := by
    refine hs.recorded_le ?_
    exact List.mem_filterMap.mpr ⟨_, hmem, hb⟩
  refine hs.ended rfl rfl hs.alone rfl fun hf => ?_
  have htotal := of_decide_eq_true (hf _ hmem)
  have hcost := admitted_le hfair hb htotal
  rw [← hu] at hcost
  exact (hcost.trans hbound).trans (le_max_right used₀ soft)

/-- Delivering a queued user turn touches the transcript only. -/
theorem deliverQueued_budget (m : Machine) :
    m.deliverQueued.soft = m.soft ∧ m.deliverQueued.used = m.used ∧
      m.deliverQueued.draining = m.draining ∧ m.deliverQueued.events = m.events := by
  unfold deliverQueued
  split
  · exact ⟨rfl, rfl, rfl, rfl⟩
  · split <;> exact ⟨rfl, rfl, rfl, rfl⟩

theorem solvent_step (hstep : Step h m m') (hs : m.Solvent h used₀ soft₀ soft) :
    ∃ soft', m'.Solvent h used₀ soft₀ soft' := by
  cases hstep with
  | fills | say | reserve | resetStarted | markStarted | fold | clearResponse =>
      exact ⟨soft, hs.quiet rfl rfl rfl rfl⟩
  | addRow | settleRow | wake | restart | abort => exact ⟨soft, hs.quiet rfl rfl rfl rfl⟩
  | begin | stop | respond | route | answer | drain | suspend | finish | saved | passCheck =>
      exact ⟨soft, hs.log rfl rfl rfl rfl rfl⟩
  | retry | startStep => exact ⟨soft, hs.log rfl rfl rfl rfl rfl⟩
  | deliver =>
      obtain ⟨hsoft, hused, hdraining, hevents⟩ := m.deliverQueued_budget
      exact ⟨soft, hs.quiet hsoft hused hdraining hevents⟩
  | resume =>
      obtain ⟨hsoft, hused, hdraining, hevents⟩ := m.drainTable.deliverQueued_budget
      exact ⟨soft, hs.log hsoft hused hdraining (congrArg _ hevents) rfl⟩
  | enterWindDown =>
      refine ⟨soft, hs.same rfl rfl rfl ⟨[_, _], rfl, ?_⟩⟩
      intro event he
      simp only [List.mem_cons, List.not_mem_nil, or_false] at he
      obtain rfl | rfl := he <;> rfl
  | raiseBudget next hr => exact hs.raise hr
  | call _ terms total ht => exact ⟨soft, hs.call ht⟩
  | charge _ terms total rest he hu => exact ⟨soft, hs.charge he hu m.windDownDone⟩
  | unreported => exact ⟨soft, hs.ended rfl rfl hs.alone rfl hs.spent⟩
  | abandon => exact ⟨soft, hs.abandon _⟩

/-- A call left behind ends; a solvent run that left none behind has no such call. -/
theorem Solvent.late (hs : m.Solvent h used₀ soft₀ soft) (i : Nat) (usage : Option Usage) :
    (m.late h i usage).Solvent h used₀ soft₀ soft := by
  unfold Machine.late
  cases hi : m.draining[i]? with
  | none => exact hs
  | some isProtected =>
      have hnot : ¬Frugal m.events := by
        intro hf
        rw [hs.alone hf] at hi
        contradiction
      dsimp only
      split
      · exact hs.ended rfl rfl (fun hf => absurd hf hnot) rfl fun hf => absurd hf hnot
      · exact hs.ended rfl rfl (fun hf => absurd hf hnot) rfl hs.spent

/-- The environment takes no part in it. -/
theorem Solvent.under {answers : Nat → Answer} (hs : m.Solvent (h.under answers) used₀ soft₀ soft)
    (answers' : Nat → Answer) : m.Solvent (h.under answers') used₀ soft₀ soft where
  soft_eq := hs.soft_eq
  bounded := hs.bounded
  raised := hs.raised
  sent := fun terms total hmem =>
    have ⟨ht, hsome⟩ := hs.sent terms total hmem
    ⟨⟨ht.used, ht.soft, ht.hard, ht.minimum, ht.configured, ht.left, ht.floor, ht.window⟩, hsome⟩
  alone := hs.alone
  spent := hs.spent
  charged := hs.charged

/-- **A move of a run keeps it solvent.** -/
theorem solvent_move {regime : Regime} (hno : ¬regime.restarts) (hm : Move h regime m m')
    (hs : m.Solvent h used₀ soft₀ soft) : ∃ soft', m'.Solvent h used₀ soft₀ soft' := by
  cases hm with
  | step answers _ hstep =>
      have hown : m.Solvent (h.under h.answers) used₀ soft₀ soft := hs
      obtain ⟨soft', hs'⟩ := solvent_step hstep (hown.under answers)
      exact ⟨soft', hs'.under h.answers⟩
  | userTurn => exact ⟨soft, hs.quiet rfl rfl rfl rfl⟩
  | runStarted => exact ⟨soft, hs.log rfl rfl rfl rfl rfl⟩
  | late i usage => exact ⟨soft, hs.late i usage⟩
  | restart hr => exact absurd hr hno

end Machine

/-! ## every run -/

/-- The context window leaves a summary request the provider's floor. -/
def Event.windowSuffices (h : Host) : Event → Bool
  | call terms _ =>
      terms.purpose = .completion || (h.windowCap terms.messages).all fun (cap : Int) =>
        decide ((h.minimumOutput .summary : Int) ≤ cap)
  | _ => true

def WindowsSuffice (h : Host) (events : List Event) : Prop :=
  ∀ event ∈ events, event.windowSuffices h = true

/-- A session as a process begins with it: new, or restored from a snapshot. -/
structure Opening (h : Host) (w : World) : Prop where
  rests : w.machine.phase.Rests
  unrowed : w.machine.Unrowed
  draining : w.runner.draining = []
  budget : w.runner.maxBudgetTokens = h.initialBudget
  events : w.events = []

/-- What is promised of the token budget in a session that began at `w₀` and is at
`w`.  The allowance is the lesser of the soft and the hard one; a restored session
that has already used more spends nothing. -/
structure BudgetKept (h : Host) (w₀ w : World) : Prop where
  spent : Frugal w.events → ∃ allowance,
    ceiling w.runner.maxBudgetTokens h.hardBudgetTokens = some allowance ∧
      w.state.usedTokens ≤ max w₀.state.usedTokens allowance
  /-- Also whenever a call ended on the way. -/
  charged : Frugal w.events → ∀ isProtected used budget,
    .callEnded isProtected used budget ∈ w.events → ∃ allowance,
      ceiling budget h.hardBudgetTokens = some allowance ∧
        used ≤ max w₀.state.usedTokens allowance
  floor : ∀ terms total, .call terms total ∈ w.events →
    (h.minimumOutput terms.purpose : Int) ≤ terms.limit
  left : ∀ terms total, .call terms total ∈ w.events → ∃ remaining : Int,
    terms.remaining = some remaining ∧ terms.limit ≤ remaining - terms.reservedInput
  /-- The soft allowance never decreases, -/
  raised : (w.runner.maxBudgetTokens.toList ++
    (recorded w.events ++ w₀.runner.maxBudgetTokens.toList)).Pairwise
      fun later earlier => earlier ≤ later
  /-- and never exceeds the hard one. -/
  bounded : ∀ soft ∈ w.runner.maxBudgetTokens.toList ++ recorded w.events,
    ∀ hard ∈ h.hardBudgetTokens, soft ≤ hard

/-- The soft allowance a session starts with is within the hard one. -/
theorem initialBudget_le {h : Host} {soft₀ : Nat} (hfinite : h.initialBudget = some soft₀) :
    ∀ hard ∈ h.hardBudgetTokens, soft₀ ≤ hard := by
  intro hard hmem
  unfold Host.initialBudget at hfinite
  rw [Option.mem_def.mp hmem] at hfinite
  split at hfinite
  · contradiction
  · rename_i heq
    obtain rfl := Option.some.inj heq
    rw [← Option.some.inj hfinite]
    exact min_le_right _ _
  · exact Nat.le_of_eq (Option.some.inj hfinite).symm

/-- Within the hard allowance, the soft one is the least. -/
theorem ceiling_of_le {soft : Nat} {hard : Option Nat} (hle : ∀ b ∈ hard, soft ≤ b) :
    ceiling (some soft) hard = some soft := by
  cases hard with
  | none => rfl
  | some b => exact congrArg some (min_eq_left (hle b rfl))

/-- The floor of a fair limit depends on the window only. -/
theorem Admission.Fair.floor_iff {h : Host} {used : Nat} {soft : Option Nat} {t : Admission}
    (ht : t.Fair h used soft) (total : Nat) : (h.minimumOutput t.purpose : Int) ≤ t.limit ↔
      (Event.call t total).windowSuffices h = true := by
  have hminimum := ht.minimum
  rw [Event.windowSuffices, Bool.or_eq_true, decide_eq_true_eq, Option.all_eq_true]
  simp only [decide_eq_true_eq]
  rw [← hminimum]
  constructor
  · intro hmin
    cases hpurpose : t.purpose with
    | completion => exact .inl rfl
    | summary =>
        refine .inr fun cap hcap => ?_
        rw [← hpurpose, ← hminimum]
        exact hmin.trans (ht.window hpurpose cap hcap)
  · intro hwindow
    obtain hmin | ⟨hpurpose, hcap⟩ := ht.floor
    · exact hmin
    · rw [hpurpose] at hwindow hminimum
      rw [hminimum]
      exact (hwindow.resolve_left fun heq => by contradiction) t.limit hcap

/-- A life without restores keeps the run solvent. -/
theorem Lives.solvent {h : Host} {py : Python} {w₀ w : World} {alive : Bool} {soft₀ : Nat}
    (hl : Lives h py { restarts := False } w₀ alive w) (ho : Opening h w₀)
    (hfinite : h.initialBudget = some soft₀) :
    ∃ soft, w.machine.Solvent h w₀.state.usedTokens soft₀ soft := by
  have hstart : w₀.machine.Solvent h w₀.state.usedTokens soft₀ soft₀ := by
    have hevents : w₀.machine.events = [] := ho.events
    constructor
    · exact ho.budget.trans hfinite
    · exact initialBudget_le hfinite
    · rw [hevents]
      simp [recorded]
    · rw [hevents]
      nofun
    · exact fun _ => ho.draining
    · exact fun _ => le_max_left _ _
    · rw [hevents]
      nofun
  have hmoves := (hl.lived ho.rests ho.unrowed).moves
  generalize w.machine = m at hmoves ⊢
  induction hmoves with
  | refl => exact ⟨soft₀, hstart⟩
  | tail _ hm ih =>
      obtain ⟨soft, hs⟩ := ih
      exact Machine.solvent_move id hm hs

/-- **Token admission.**  In every run of a session with a finite allowance the
budget is kept if and only if every summary call's window leaves the provider's
floor. -/
theorem budget_kept_iff {h : Host} {py : Python} {w₀ w : World} {alive : Bool} {soft₀ : Nat}
    (hl : Lives h py { restarts := False } w₀ alive w) (ho : Opening h w₀)
    (hfinite : h.initialBudget = some soft₀) :
    BudgetKept h w₀ w ↔ WindowsSuffice h w.events := by
  obtain ⟨soft, hs⟩ := hl.solvent ho hfinite
  have hsoft : w.runner.maxBudgetTokens = some soft := hs.soft_eq
  have hsoft₀ : w₀.runner.maxBudgetTokens = some soft₀ := ho.budget.trans hfinite
  have hbounded : ∀ b ∈ soft :: recorded w.events, ∀ hard ∈ h.hardBudgetTokens, b ≤ hard := by
    intro b hb hard hhard
    obtain rfl | hb := List.mem_cons.mp hb
    · exact hs.bounded hard hhard
    · exact (hs.recorded_le hb).trans (hs.bounded hard hhard)
  have hfloor : ∀ terms total, .call terms total ∈ w.events →
      ((h.minimumOutput terms.purpose : Int) ≤ terms.limit ↔
        (Event.call terms total).windowSuffices h = true) :=
    fun terms total hmem => (hs.sent terms total hmem).1.floor_iff total
  constructor
  · intro hk event hmem
    cases event with
    | call terms total => exact (hfloor terms total hmem).mp (hk.floor terms total hmem)
    | runStarted | edge | modelStep | callEnded | abandoned | windDown => rfl
  · intro hwindows
    constructor
    · intro hf
      exact ⟨soft, hsoft ▸ ceiling_of_le hs.bounded, hs.spent hf⟩
    · intro hf isProtected used budget hmem
      obtain ⟨b, rfl, hle⟩ := hs.charged hf isProtected used budget hmem
      refine ⟨b, ceiling_of_le (hbounded b ?_), hle⟩
      exact List.mem_cons_of_mem soft (List.mem_filterMap.mpr ⟨_, hmem, rfl⟩)
    · exact fun terms total hmem => (hfloor terms total hmem).mpr (hwindows _ hmem)
    · intro terms total hmem
      obtain ⟨ht, hsome⟩ := hs.sent terms total hmem
      obtain ⟨b, hb⟩ := Option.isSome_iff_exists.mp hsome
      cases hr : terms.remaining with
      | none =>
          rw [Admission.remaining, hb] at hr
          cases hhard : terms.hard <;> rw [hhard] at hr <;> contradiction
      | some remaining => exact ⟨remaining, rfl, ht.left remaining hr⟩
    · rw [hsoft, hsoft₀]
      exact hs.raised
    · rw [hsoft]
      exact hbounded

/-! ## a window that does not suffice -/

/-- A host whose budget decision puts a final prompt on every request, and whose
shapers ask for one summary. -/
def Host.prompting (contextWindow : Int) : Host :=
  let answer : Answer := {
    response := {
      content := some "done", usage := { inputTokens := .int 3, totalTokens := .int 5 } }
    decision := some { softBudgetTokens := .int 1000, finalPrompt := .str "Finish now." }
    summaries := [{ messages := [.ofText .user "history"] }] }
  { Host.sample fun _ => answer with
    hasRunControl := true
    maxTokensPerStep := 40
    minimumOutput_le := fun _ => le_max_left 1 40
    decidesBudget := true
    hardBudgetTokens := some 1000
    contextWindow := some contextWindow
    estimate := fun _ messages _ => 100 * messages.length }

/-- The session of `prompting` before its run. -/
def World.unprompted (contextWindow : Int) : World :=
  .fresh (.prompting contextWindow) [.ofText .user "question"]

/-- How the run of `prompting` ends, and the session after it. -/
def World.promptedRun (contextWindow : Int) : Except Exn Unit × World :=
  ((SessionOp.runLoop (Host.prompting contextWindow).answers 40).perform
    (.prompting contextWindow)).run (.unprompted contextWindow)

theorem World.unprompted_opening (contextWindow : Int) :
    Opening (.prompting contextWindow) (.unprompted contextWindow) where
  rests := (by decide : SessionPhase.idle.Rests)
  unrowed := fun _ => rfl
  draining := rfl
  budget := rfl
  events := rfl

theorem World.prompted_lives {contextWindow : Int}
    (hne : decide ((World.promptedRun contextWindow).1 ≠ .error .crash) = true) :
    Lives (.prompting contextWindow) .sample { restarts := False } (.unprompted contextWindow) true
      (World.promptedRun contextWindow).2 :=
  Lives.performs (.runLoop (Host.prompting contextWindow).answers 40) .start ⟨trivial, trivial⟩ hne

/-- In a wide window the floor is kept. -/
theorem budget_kept_iff_wide :
    BudgetKept (.prompting 400) (.unprompted 400) (World.promptedRun 400).2 :=
  (budget_kept_iff (World.prompted_lives (by decide +kernel)) (World.unprompted_opening 400)
    rfl).mpr (by unfold WindowsSuffice; decide +kernel)

/-- In a narrow one the final prompt makes the summary request larger than the
window, and the call is sent with a negative limit. -/
theorem budget_floor_missed : ¬∀ (h : Host) (py : Python) (w₀ w : World) (alive : Bool)
    (soft₀ : Nat), Lives h py { restarts := False } w₀ alive w → Opening h w₀ →
      h.initialBudget = some soft₀ → BudgetKept h w₀ w := by
  intro hclaim
  have hkept := hclaim (.prompting 150) .sample (.unprompted 150) (World.promptedRun 150).2 true
    1000 (World.prompted_lives (by decide +kernel)) (World.unprompted_opening 150) rfl
  let terms : Admission := {
    purpose := .summary
    messages := [.ofText .user "history", .ofText .system "Finish now."]
    minimum := 1, reservedInput := 200, used := 0, reservations := 0
    soft := some 1000, hard := some 1000, limit := -50 }
  have hsent : .call terms 5 ∈ (World.promptedRun 150).2.events := by decide +kernel
  exact absurd (hkept.floor terms 5 hsent) (by decide)

end OpenCollab
