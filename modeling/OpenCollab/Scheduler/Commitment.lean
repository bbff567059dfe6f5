import OpenCollab.Scheduler.Pool

/-!
# OpenCollab.Scheduler.Commitment

What a pool's operations do to the committed total of a dynamic roster.

Each operation has one equation: releasing a lease frees what it still held
(`committed_release`), booking one adds its grant (`committed_book`), and usage
moves tokens from every lease of its agent to the spent side (`committed_spend`).
The last is where one agent's deferred and live leases meet: a token is spent
once and taken off each of them.
-/

namespace OpenCollab

open Lib

namespace Pool

variable {r : Roster} {p p' : Pool} {aid : Nat} {lease : Lease}

/-- The committed total of a dynamic roster. -/
def committed (p : Pool) : Nat := p.usedTokens + p.live + p.held

/-- Without a child cap the commitment is the pool's own. -/
theorem budgetCommitted_eq (hr : r.cap = none) (p : Pool) : p.budgetCommitted r = p.committed := by
  rw [budgetCommitted, hr]
  rfl

/-! ## leases -/

/-- A release changes no agent's usage. -/
theorem leaseRemaining_release (p : Pool) (aid : Nat) :
    (p.releaseTurnLease aid).leaseRemaining = p.leaseRemaining := rfl

/-- **A release** frees what the lease still held. -/
theorem committed_release (hl : p.turnLease.get? aid = some lease) :
    p.committed = p.leaseRemaining aid lease + (p.releaseTurnLease aid).committed := by
  have hlive : p.live = p.leaseRemaining aid lease + (p.releaseTurnLease aid).live := by
    rw [live, Dict.sum_eq_add_erase hl]
    rfl
  have hused : (p.releaseTurnLease aid).usedTokens = p.usedTokens := rfl
  have hheld : (p.releaseTurnLease aid).held = p.held := rfl
  rw [committed, committed, hlive, hused, hheld]
  omega

/-- Releasing a lease that is not there changes nothing. -/
theorem committed_release_none (hl : p.turnLease.get? aid = none) :
    (p.releaseTurnLease aid).committed = p.committed := by
  have hlive : (p.releaseTurnLease aid).live = p.live := Dict.sum_erase_of_none hl
  rw [committed, hlive]
  rfl

/-- Releasing a lease commits no more than before. -/
theorem committed_release_le (p : Pool) (aid : Nat) :
    (p.releaseTurnLease aid).committed ≤ p.committed := by
  cases hl : p.turnLease.get? aid with
  | none => exact Nat.le_of_eq (committed_release_none hl)
  | some lease =>
      rw [committed_release hl]
      omega

/-- A lease booked now holds its grant. -/
theorem leaseRemaining_book (p : Pool) (aid : Nat) (grant : Int) :
    p.leaseRemaining aid ⟨grant, p.sessionUsedTokens aid⟩ = grant.toNat := by
  rw [leaseRemaining, Nat.sub_self]
  simp

/-- **Booking** replaces the agent's lease by the grant. -/
theorem committed_book (p : Pool) (aid : Nat) (grant : Int) :
    (p.book aid grant).committed = grant.toNat + (p.releaseTurnLease aid).committed := by
  have hlive : (p.book aid grant).live = grant.toNat + (p.releaseTurnLease aid).live := by
    rw [← leaseRemaining_book p aid grant]
    exact Dict.sum_set p.turnLease aid _
  have hused : (p.book aid grant).usedTokens = p.usedTokens := rfl
  have hheld : (p.book aid grant).held = p.held := rfl
  rw [committed, hlive, hused, hheld, committed]
  have hused' : (p.releaseTurnLease aid).usedTokens = p.usedTokens := rfl
  have hheld' : (p.releaseTurnLease aid).held = p.held := rfl
  rw [hused', hheld']
  omega

/-! ## limits -/

/-- A pool that differs in no usage and no lease. -/
structure SameBooks (p p' : Pool) : Prop where
  used : ∀ aid, p'.sessionUsedTokens aid = p.sessionUsedTokens aid
  total : p'.usedTokens = p.usedTokens
  turnLease : p'.turnLease = p.turnLease
  deferred : p'.pendingProviderBudgetLeases = p.pendingProviderBudgetLeases
  next : p'.nextReservation = p.nextReservation

/-- What a lease may still spend is read off the books. -/
theorem SameBooks.remaining (hs : SameBooks p p') (aid : Nat) (lease : Lease) :
    p'.leaseRemaining aid lease = p.leaseRemaining aid lease := by
  rw [leaseRemaining, hs.used, leaseRemaining]

/-- The commitment is read off the books. -/
theorem SameBooks.committed (hs : SameBooks p p') : p'.committed = p.committed := by
  have hlive : p'.live = p.live := by
    rw [live, live, hs.turnLease]
    exact Dict.sum_congr fun e _ => hs.remaining e.1 e.2
  have hheld : p'.held = p.held := by
    rw [held, held, hs.deferred]
    exact Dict.sum_congr fun e _ => hs.remaining e.2.aid e.2.lease
  rw [Pool.committed, Pool.committed, hs.total, hlive, hheld]

/-- Setting a session's limit touches no book. -/
theorem sameBooks_setLimit (p : Pool) (aid : Nat) (limit : Int) :
    SameBooks p (p.setSessionBudgetLimit aid limit) := by
  unfold setSessionBudgetLimit
  cases hs : p.seats.get? aid with
  | none => exact ⟨fun _ => rfl, rfl, rfl, rfl, rfl⟩
  | some seat =>
      refine ⟨fun other => ?_, ?_, rfl, rfl, rfl⟩
      · unfold sessionUsedTokens
        by_cases ho : other = aid
        · subst ho
          simp only [Dict.get?_set_self, hs]
        · simp only [Dict.get?_set_of_ne ho]
      · rw [usedTokens, Dict.sum_set, usedTokens, Dict.sum_eq_add_erase hs]

/-! ## usage -/

/-- No lease is measured from a usage its agent has not reached. -/
structure Measured (p : Pool) : Prop where
  live : ∀ aid lease, p.turnLease.get? aid = some lease → lease.baseline ≤ p.sessionUsedTokens aid
  held : ∀ reservation d, p.pendingProviderBudgetLeases.get? reservation = some d →
    d.lease.baseline ≤ p.sessionUsedTokens d.aid

/-- A session's spending is counted on it, and on no other. -/
theorem used_spend {s : Seat} (hs : p.seats.get? aid = some s) (tokens other : Nat) :
    (p.spend aid tokens).sessionUsedTokens other =
      p.sessionUsedTokens other + if other = aid then tokens else 0 := by
  unfold spend sessionUsedTokens
  by_cases ho : other = aid
  · subst ho
    simp only [hs, Dict.get?_set_self, if_true]
  · simp only [hs, Dict.get?_set_of_ne ho, ho, if_false, Nat.add_zero]

/-- Usage takes what it can from each lease of its agent. -/
theorem remaining_spend {s : Seat} (hs : p.seats.get? aid = some s) (tokens : Nat) {other : Nat}
    (hb : lease.baseline ≤ p.sessionUsedTokens other) :
    p.leaseRemaining other lease = (p.spend aid tokens).leaseRemaining other lease +
      if other = aid then min tokens (p.leaseRemaining other lease) else 0 := by
  rw [leaseRemaining, leaseRemaining, used_spend hs]
  split <;> omega

/-- What usage takes from the leases of its agent that are held for late calls. -/
def heldLoss (p : Pool) (aid tokens : Nat) : Nat :=
  p.pendingProviderBudgetLeases.sum fun _ d =>
    if d.aid = aid then min tokens (p.leaseRemaining d.aid d.lease) else 0

/-- Spending takes off the deferred leases of its agent what they lose by it. -/
theorem held_spend (hm : p.Measured) {s : Seat} (hs : p.seats.get? aid = some s) (tokens : Nat) :
    p.held = (p.spend aid tokens).held + p.heldLoss aid tokens := by
  have hpending : (p.spend aid tokens).pendingProviderBudgetLeases =
      p.pendingProviderBudgetLeases := by rw [spend, hs]
  rw [held, held, hpending, heldLoss, ← Dict.sum_add]
  exact Dict.sum_congr fun e he => remaining_spend hs tokens (hm.held e.1 e.2 (Dict.get?_eq_some.mpr he))

/-- Spending within a live lease is taken off that lease. -/
theorem live_spend (hm : p.Measured) {s : Seat} (hs : p.seats.get? aid = some s) {tokens : Nat}
    (hl : p.turnLease.get? aid = some lease) (hle : tokens ≤ p.leaseRemaining aid lease) :
    p.live = (p.spend aid tokens).live + tokens := by
  have hturn : (p.spend aid tokens).turnLease = p.turnLease := by rw [spend, hs]
  have hown := remaining_spend hs tokens (hm.live aid lease hl)
  have hothers : (p.turnLease.erase aid).sum p.leaseRemaining =
      (p.turnLease.erase aid).sum (p.spend aid tokens).leaseRemaining := by
    refine Dict.sum_congr fun e he => ?_
    obtain ⟨he, hne⟩ := Dict.mem_erase.mp he
    have hrem := remaining_spend hs tokens (hm.live e.1 e.2 (Dict.get?_eq_some.mpr he))
    rw [if_neg hne] at hrem
    omega
  rw [if_pos rfl, Nat.min_eq_left hle] at hown
  rw [live, live, hturn, Dict.sum_eq_add_erase hl, Dict.sum_eq_add_erase hl, hothers, hown]
  omega

/-- Spending is added to the used tokens. -/
theorem usedTokens_spend {s : Seat} (hs : p.seats.get? aid = some s) (tokens : Nat) :
    (p.spend aid tokens).usedTokens = p.usedTokens + tokens := by
  unfold spend usedTokens
  simp only [hs]
  rw [Dict.sum_set, Dict.sum_eq_add_erase hs]
  dsimp only
  omega

/-- **Usage under a lease** leaves the committed total but for what it takes from
deferred leases of the same agent. -/
theorem committed_spend (hm : p.Measured) {s : Seat} (hs : p.seats.get? aid = some s)
    {tokens : Nat} (hl : p.turnLease.get? aid = some lease)
    (hle : tokens ≤ p.leaseRemaining aid lease) :
    p.committed = (p.spend aid tokens).committed + p.heldLoss aid tokens := by
  rw [committed, committed, usedTokens_spend hs, live_spend hm hs hl hle, held_spend hm hs tokens]
  omega

/-- An agent outside the table has no usage. -/
theorem spend_of_none (hs : p.seats.get? aid = none) (tokens : Nat) : p.spend aid tokens = p := by
  rw [spend, hs]

/-- The deferred leases lose nothing exactly if nothing is spent, or none of the agent's has
a rest. -/
theorem heldLoss_eq_zero {tokens : Nat} :
    p.heldLoss aid tokens = 0 ↔ tokens = 0 ∨
      ∀ reservation d, p.pendingProviderBudgetLeases.get? reservation = some d → d.aid = aid →
        p.leaseRemaining d.aid d.lease = 0 := by
  rw [heldLoss, Dict.sum_eq_zero]
  constructor
  · intro h
    by_cases ht : tokens = 0
    · exact .inl ht
    · refine .inr fun reservation d hd ha => ?_
      have hz : (if d.aid = aid then min tokens (p.leaseRemaining d.aid d.lease) else 0) = 0 :=
        h (reservation, d) (Dict.get?_eq_some.mp hd)
      rw [if_pos ha] at hz
      omega
  · rintro h e he
    split
    · rename_i ha
      obtain rfl | h := h
      · exact Nat.zero_min _
      · rw [h e.1 e.2 (Dict.get?_eq_some.mpr he) ha, Nat.min_zero]
    · rfl

/-! ## reservations -/

/-- A grant is measured from what the session has used. -/
theorem measured_book (hm : p.Measured) (aid : Nat) (grant : Int) : (p.book aid grant).Measured where
  live := by
    intro other lease hl
    by_cases ho : other = aid
    · subst ho
      rw [book, Dict.get?_set_self] at hl
      rw [← Option.some.inj hl]
      exact Nat.le_refl _
    · rw [book, Dict.get?_set_of_ne ho] at hl
      exact hm.live other lease hl
  held := hm.held

/-- A pool without the lease is still measured. -/
theorem measured_release (hm : p.Measured) (aid : Nat) : (p.releaseTurnLease aid).Measured where
  live := by
    intro other lease hl
    by_cases ho : other = aid
    · subst ho
      rw [releaseTurnLease, Dict.get?_erase_self] at hl
      contradiction
    · rw [releaseTurnLease, Dict.get?_erase_of_ne ho] at hl
      exact hm.live other lease hl
  held := hm.held

/-- Being measured is read off the books. -/
theorem SameBooks.measured (hs : SameBooks p p') (hm : p.Measured) : p'.Measured where
  live := by
    intro aid lease hl
    rw [hs.used]
    exact hm.live aid lease (hs.turnLease ▸ hl)
  held := by
    intro reservation d hd
    rw [hs.used]
    exact hm.held reservation d (hs.deferred ▸ hd)

/-- What every reservation of a dynamic roster meets: the committed total stays
within the pool, or below what it was. -/
structure Within (r : Roster) (p p' : Pool) : Prop where
  committed : (p'.committed : Int) ≤ max r.maxBudgetTokens p.committed
  measured : p'.Measured
  deferred : p'.pendingProviderBudgetLeases = p.pendingProviderBudgetLeases
  next : p'.nextReservation = p.nextReservation

/-- An unchanged pool is within its bounds. -/
theorem Within.refl (hm : p.Measured) : Within r p p := ⟨Int.le_max_right _ _, hm, rfl, rfl⟩

/-- A limit of a session moves no tokens. -/
theorem Within.limit (hw : Within r p p') (aid : Nat) (limit : Int) :
    Within r p (p'.setSessionBudgetLimit aid limit) := by
  have hs := sameBooks_setLimit p' aid limit
  exact ⟨hs.committed ▸ hw.committed, hs.measured hw.measured, hs.deferred.trans hw.deferred,
    hs.next.trans hw.next⟩

/-- A release keeps the bounds. -/
theorem Within.release (hw : Within r p p') (aid : Nat) : Within r p (p'.releaseTurnLease aid) := by
  refine ⟨?_, measured_release hw.measured aid, hw.deferred, hw.next⟩
  have hle := committed_release_le p' aid
  have hc := hw.committed
  omega

/-- A grant of at most what is left. -/
theorem Within.book (hm : p.Measured) {grant : Int} (aid : Nat)
    (hg : grant ≤ max 0 (r.maxBudgetTokens - p.committed)) : Within r p (p.book aid grant) := by
  refine ⟨?_, measured_book hm aid grant, rfl, rfl⟩
  have hle := committed_release_le p aid
  rw [committed_book]
  omega

/-- A child's budget is taken from what is left. -/
theorem within_reserveChild (hr : r.cap = none) (hm : p.Measured) (aid : Nat) :
    Within r p (p.reserveChildBudget r aid).2 := by
  unfold reserveChildBudget
  simp only [hr]
  refine .book hm aid ?_
  rw [budgetCommitted_eq hr]
  exact Int.min_le_right _ _

/-- A turn's lease is taken from what is left. -/
theorem within_reserveTurn (hr : r.cap = none) (hm : p.Measured) (aid : Nat) :
    Within r p (p.reserveTurnLease r aid).2 := by
  have hrelease := (Within.refl (r := r) hm).release aid
  have hle := committed_release_le p aid
  unfold reserveTurnLease
  simp only [hr, budgetCommitted_eq hr]
  refine Within.limit ?_ aid _
  split
  · have hbook := Within.book (r := r) hrelease.measured aid (Int.le_refl _)
    refine ⟨?_, hbook.measured, rfl, rfl⟩
    have hc := hbook.committed
    omega
  · exact hrelease

/-- The lease of a delivery is taken from what is left. -/
theorem within_reserveMessage (hr : r.cap = none) (hm : p.Measured) (aid : Nat) :
    Within r p (p.reserveMessageBudget r aid).2 := by
  unfold reserveMessageBudget
  split
  · exact .refl hm
  split
  · rename_i hcap
    rw [hr] at hcap
    contradiction
  split
  · exact within_reserveTurn hr hm aid
  split
  · exact .refl hm
  · have hchild := within_reserveChild hr hm aid
    dsimp only
    split
    · exact (hchild.limit aid _).release aid
    · exact hchild.limit aid _

/-- A lease that is restored is taken from what is left. -/
theorem within_restore (hr : r.cap = none) (hm : p.Measured) (aid : Nat) (lease : Option Lease) :
    Within r p (p.restoreTurnLease r aid lease) := by
  unfold restoreTurnLease
  cases lease with
  | none => exact .refl hm
  | some old =>
      refine Within.limit ?_ aid _
      split
      · refine .book hm aid ?_
        rw [budgetCommitted_eq hr]
        exact Int.min_le_right _ _
      · exact .refl hm

/-! ## deferred leases -/

/-- The reservations handed out are below the next one. -/
def Numbered (p : Pool) : Prop :=
  ∀ reservation d, p.pendingProviderBudgetLeases.get? reservation = some d →
    reservation < p.nextReservation

/-- Writing a deferred lease puts its rest in the place of the old one's. -/
theorem held_of_writes (p p' : Pool) {key : Nat} {d : DeferredLease}
    (hturn : p'.turnLease = p.turnLease) (hseats : p'.seats = p.seats)
    (hset : p'.pendingProviderBudgetLeases = p.pendingProviderBudgetLeases.set key d) :
    p'.committed + (match p.pendingProviderBudgetLeases.get? key with
      | some old => p.leaseRemaining old.aid old.lease
      | none => 0) = p.committed + p.leaseRemaining d.aid d.lease := by
  have hrem : p'.leaseRemaining = p.leaseRemaining := by
    funext aid lease
    rw [leaseRemaining, sessionUsedTokens, hseats, leaseRemaining, sessionUsedTokens]
  have hused : p'.usedTokens = p.usedTokens := by rw [usedTokens, hseats, usedTokens]
  have hlive : p'.live = p.live := by rw [live, hturn, hrem, live]
  have hheld : p'.held = p.leaseRemaining d.aid d.lease +
      (p.pendingProviderBudgetLeases.erase key).sum fun _ d => p.leaseRemaining d.aid d.lease := by
    rw [held, hset, hrem, Dict.sum_set]
  rw [committed, committed, hused, hlive, hheld]
  cases hk : p.pendingProviderBudgetLeases.get? key with
  | none =>
      have hsame : (p.pendingProviderBudgetLeases.erase key).sum
          (fun _ d => p.leaseRemaining d.aid d.lease) = p.held := Dict.sum_erase_of_none hk
      dsimp only
      omega
  | some old =>
      have hsplit : p.held = p.leaseRemaining old.aid old.lease +
          (p.pendingProviderBudgetLeases.erase key).sum
            fun _ d => p.leaseRemaining d.aid d.lease := Dict.sum_eq_add_erase hk
      dsimp only
      omega

/-- **Deferring a lease** moves it from the live ones to the held ones. -/
theorem committed_defer (hn : p.Numbered) (aid : Nat) (tasks : List Nat) :
    (p.deferBudgetLease r aid tasks).2.committed = p.committed := by
  unfold deferBudgetLease
  split
  · rfl
  cases hl : p.currentTurnLease aid with
  | none => rfl
  | some lease =>
      have hfresh : p.pendingProviderBudgetLeases.get? p.nextReservation = none := by
        rw [Option.eq_none_iff_forall_ne_some]
        exact fun d hd => Nat.lt_irrefl _ (hn _ d hd)
      have hhold := held_of_writes (p.releaseTurnLease aid)
        ((p.releaseTurnLease aid).hold { aid, lease, tasks }) rfl rfl rfl
      have hnone : (p.releaseTurnLease aid).pendingProviderBudgetLeases.get?
        (p.releaseTurnLease aid).nextReservation = none := hfresh
      rw [hnone] at hhold
      rw [committed_release hl, ← leaseRemaining_release p aid]
      dsimp only at hhold ⊢
      omega

/-- A task that is not the last one changes nothing. -/
theorem committed_finish {reservation task : Nat} (hlast : ∀ d,
    p.pendingProviderBudgetLeases.get? reservation = some d →
      ∃ t ∈ d.tasks, t ∉ task :: d.finished) :
    (p.finishProviderBudgetLease reservation task).committed = p.committed := by
  unfold finishProviderBudgetLease
  cases hd : p.pendingProviderBudgetLeases.get? reservation with
  | none => rfl
  | some d =>
      obtain ⟨t, ht, hn⟩ := hlast d hd
      dsimp only
      split
      · rename_i hall
        have hmem := List.all_eq_true.mp hall t ht
        exact absurd (of_decide_eq_true hmem) hn
      · have hset := held_of_writes p { p with
          pendingProviderBudgetLeases := p.pendingProviderBudgetLeases.set reservation
            { d with finished := task :: d.finished } } rfl rfl rfl
        rw [hd] at hset
        dsimp only at hset
        omega

/-! ## every operation -/

/-- What every pool satisfies. -/
structure Sound (p : Pool) : Prop where
  measured : p.Measured
  numbered : p.Numbered

/-- A step within the bounds keeps the pool sound. -/
theorem Within.sound (hw : Within r p p') (hs : p.Sound) : p'.Sound := by
  refine ⟨hw.measured, fun reservation d hd => ?_⟩
  rw [hw.deferred] at hd
  rw [hw.next]
  exact hs.numbered reservation d hd

/-- An empty pool is sound. -/
theorem sound_empty : Sound {} := ⟨⟨nofun, nofun⟩, nofun⟩

/-- More usage keeps the books. -/
theorem Sound.of_used (hs : p.Sound) (hu : ∀ aid, p.sessionUsedTokens aid ≤ p'.sessionUsedTokens aid)
    (ht : p'.turnLease = p.turnLease)
    (hd : p'.pendingProviderBudgetLeases = p.pendingProviderBudgetLeases)
    (hn : p'.nextReservation = p.nextReservation) : p'.Sound := by
  refine ⟨⟨fun aid lease hl => ?_, fun reservation d hres => ?_⟩, fun reservation d hres => ?_⟩
  · exact Nat.le_trans (hs.measured.live aid lease (ht ▸ hl)) (hu aid)
  · exact Nat.le_trans (hs.measured.held reservation d (hd ▸ hres)) (hu d.aid)
  · rw [hn]
    exact hs.numbered reservation d (hd ▸ hres)

/-- Spending keeps the pool sound. -/
theorem sound_spend (hs : p.Sound) (aid tokens : Nat) : (p.spend aid tokens).Sound := by
  cases hseat : p.seats.get? aid with
  | none =>
      rw [spend_of_none hseat]
      exact hs
  | some s =>
      have hspend : p.spend aid tokens =
          { p with seats := p.seats.set aid { s with usedTokens := s.usedTokens + tokens } } := by
        rw [spend, hseat]
      refine hs.of_used (fun other => ?_) ?_ ?_ ?_
      · rw [used_spend hseat]
        exact Nat.le_add_right _ _
      all_goals rw [hspend]

/-- A new seat keeps the pool sound. -/
theorem sound_seat (hs : p.Sound) (aid : Nat) (newcomer : Seat) : (p.seat aid newcomer).Sound := by
  unfold seat
  cases hseat : p.seats.get? aid with
  | some s => exact hs
  | none =>
      refine hs.of_used (fun other => ?_) rfl rfl rfl
      unfold sessionUsedTokens
      by_cases ho : other = aid
      · subst ho
        rw [hseat]
        exact Nat.zero_le _
      · refine Nat.le_of_eq ?_
        rw [Dict.get?_set_of_ne ho]

/-- A grant keeps the pool sound. -/
theorem sound_book (hs : p.Sound) (aid : Nat) (grant : Int) : (p.book aid grant).Sound :=
  ⟨measured_book hs.measured aid grant, hs.numbered⟩

/-- The lead's registration keeps the pool sound. -/
theorem sound_registerLead (hs : p.Sound) (lead : Seat) : (p.registerLead r lead).Sound := by
  have hseat := sound_seat hs 0 lead
  have hlead : Sound { p.seat 0 lead with leadRegistered := true } :=
    hseat.of_used (fun _ => Nat.le_refl _) rfl rfl rfl
  unfold registerLead
  split
  · exact hlead
  · exact sound_book hlead 0 _

/-- Writing a held lease that is measured. -/
theorem sound_of_writes (hs : p.Sound) (key : Nat) (d : DeferredLease)
    (hb : d.lease.baseline ≤ p.sessionUsedTokens d.aid) (hk : key < p'.nextReservation)
    (hn : p.nextReservation ≤ p'.nextReservation) (hseats : p'.seats = p.seats)
    (hturn : p'.turnLease = p.turnLease)
    (hset : p'.pendingProviderBudgetLeases = p.pendingProviderBudgetLeases.set key d) :
    p'.Sound := by
  have hu : ∀ aid, p'.sessionUsedTokens aid = p.sessionUsedTokens aid := by
    intro aid
    rw [sessionUsedTokens, hseats, sessionUsedTokens]
  refine ⟨⟨fun aid lease hl => ?_, fun reservation d' hd => ?_⟩, fun reservation d' hd => ?_⟩
  · rw [hu]
    exact hs.measured.live aid lease (hturn ▸ hl)
  · rw [hu]
    rw [hset] at hd
    by_cases hr : reservation = key
    · subst hr
      rw [Dict.get?_set_self] at hd
      rw [← Option.some.inj hd]
      exact hb
    · rw [Dict.get?_set_of_ne hr] at hd
      exact hs.measured.held reservation d' hd
  · rw [hset] at hd
    by_cases hr : reservation = key
    · rw [hr]
      exact hk
    · rw [Dict.get?_set_of_ne hr] at hd
      exact Nat.lt_of_lt_of_le (hs.numbered reservation d' hd) hn

/-- Deferring a lease keeps the pool sound. -/
theorem sound_defer (hs : p.Sound) (aid : Nat) (tasks : List Nat) :
    (p.deferBudgetLease r aid tasks).2.Sound := by
  unfold deferBudgetLease
  split
  · exact hs
  cases hl : p.currentTurnLease aid with
  | none => exact hs
  | some lease =>
      have hrelease : (p.releaseTurnLease aid).Sound :=
        ⟨measured_release hs.measured aid, hs.numbered⟩
      exact sound_of_writes hrelease p.nextReservation { aid, lease, tasks } (hs.measured.live aid lease hl)
        (Nat.lt_succ_self _) (Nat.le_succ _) rfl rfl rfl

/-- The end of a late call keeps the pool sound. -/
theorem sound_finish (hs : p.Sound) (reservation task : Nat) :
    (p.finishProviderBudgetLease reservation task).Sound := by
  unfold finishProviderBudgetLease
  cases hd : p.pendingProviderBudgetLeases.get? reservation with
  | none => exact hs
  | some d =>
      dsimp only
      split
      · have hsub : ∀ key d', (p.pendingProviderBudgetLeases.erase reservation).get? key = some d' →
            p.pendingProviderBudgetLeases.get? key = some d' := by
          intro key d' hk
          exact Dict.get?_eq_some.mpr (Dict.mem_erase.mp (Dict.get?_eq_some.mp hk)).1
        exact ⟨⟨hs.measured.live, fun key d' hk => hs.measured.held key d' (hsub key d' hk)⟩,
          fun key d' hk => hs.numbered key d' (hsub key d' hk)⟩
      · exact sound_of_writes hs reservation { d with finished := task :: d.finished }
          (hs.measured.held reservation d hd) (hs.numbered reservation d hd) (Nat.le_refl _)
          rfl rfl rfl

/-- **Every operation keeps the pool sound.** -/
theorem sound_apply (hr : r.cap = none) (hs : p.Sound) (op : PoolOp) : (op.apply r p).Sound := by
  cases op with
  | reserveChild aid => exact (within_reserveChild hr hs.measured aid).sound hs
  | reserveTurn aid => exact (within_reserveTurn hr hs.measured aid).sound hs
  | reserveMessage aid => exact (within_reserveMessage hr hs.measured aid).sound hs
  | release aid => exact ⟨measured_release hs.measured aid, hs.numbered⟩
  | restore aid lease => exact (within_restore hr hs.measured aid lease).sound hs
  | defer aid tasks => exact sound_defer hs aid tasks
  | finish reservation task => exact sound_finish hs reservation task
  | spend aid tokens => exact sound_spend hs aid tokens
  | seat aid newcomer => exact sound_seat hs aid newcomer
  | registerLead lead => exact sound_registerLead hs lead

end Pool

/-- The pools that operations lead to. -/
inductive Pool.Reachable (r : Roster) : Pool → Prop where
  | start : Pool.Reachable r {}
  | apply {p : Pool} (op : PoolOp) (hp : Pool.Reachable r p) : Pool.Reachable r (op.apply r p)

/-- **Every reachable pool is sound.** -/
theorem Pool.Reachable.sound {r : Roster} {p : Pool} (hr : r.cap = none) (hp : p.Reachable r) :
    p.Sound := by
  induction hp with
  | start => exact Pool.sound_empty
  | apply op _ ih => exact Pool.sound_apply hr ih op

namespace PoolOp

/-- What the operation promises of the committed total. -/
def Promise (r : Roster) (p : Pool) (op : PoolOp) : Prop :=
  match op with
  | reserveChild _ | reserveTurn _ | reserveMessage _ | restore _ _ =>
      ((op.apply r p).budgetCommitted r : Int) ≤ max r.maxBudgetTokens (p.budgetCommitted r)
  | release _ => (op.apply r p).budgetCommitted r ≤ p.budgetCommitted r
  | defer _ _ => (op.apply r p).budgetCommitted r = p.budgetCommitted r
  | finish reservation task =>
      (∀ d, p.pendingProviderBudgetLeases.get? reservation = some d →
        ∃ t ∈ d.tasks, t ∉ task :: d.finished) →
      (op.apply r p).budgetCommitted r = p.budgetCommitted r
  | spend aid tokens =>
      ∀ lease, p.turnLease.get? aid = some lease → tokens ≤ p.leaseRemaining aid lease →
        (op.apply r p).budgetCommitted r = p.budgetCommitted r
  | seat _ _ | registerLead _ => True

/-- Usage under a live lease of an agent that still holds tokens for the late
calls of an earlier turn. -/
def Overlaps (p : Pool) : PoolOp → Prop
  | spend aid tokens =>
      0 < tokens ∧ (p.seats.get? aid).isSome = true ∧
        (∃ lease, p.turnLease.get? aid = some lease ∧ tokens ≤ p.leaseRemaining aid lease) ∧
        ∃ reservation d, p.pendingProviderBudgetLeases.get? reservation = some d ∧ d.aid = aid ∧
          0 < p.leaseRemaining d.aid d.lease
  | _ => False

end PoolOp

/-- **The pool's promises** hold of every operation in every reachable pool, but
for usage under a live lease while the same agent holds a deferred one. -/
theorem pool_promises {r : Roster} {p : Pool} (hr : r.cap = none) (hp : p.Reachable r)
    (op : PoolOp) : op.Promise r p ↔ ¬ op.Overlaps p := by
  have hs := hp.sound hr
  cases op with
  | reserveChild aid =>
      refine ⟨fun _ => id, fun _ => ?_⟩
      simp only [PoolOp.Promise, Pool.budgetCommitted_eq hr]
      exact (Pool.within_reserveChild hr hs.measured aid).committed
  | reserveTurn aid =>
      refine ⟨fun _ => id, fun _ => ?_⟩
      simp only [PoolOp.Promise, Pool.budgetCommitted_eq hr]
      exact (Pool.within_reserveTurn hr hs.measured aid).committed
  | reserveMessage aid =>
      refine ⟨fun _ => id, fun _ => ?_⟩
      simp only [PoolOp.Promise, Pool.budgetCommitted_eq hr]
      exact (Pool.within_reserveMessage hr hs.measured aid).committed
  | restore aid lease =>
      refine ⟨fun _ => id, fun _ => ?_⟩
      simp only [PoolOp.Promise, Pool.budgetCommitted_eq hr]
      exact (Pool.within_restore hr hs.measured aid lease).committed
  | release aid =>
      refine ⟨fun _ => id, fun _ => ?_⟩
      simp only [PoolOp.Promise, Pool.budgetCommitted_eq hr]
      exact Pool.committed_release_le p aid
  | defer aid tasks =>
      refine ⟨fun _ => id, fun _ => ?_⟩
      simp only [PoolOp.Promise, Pool.budgetCommitted_eq hr]
      exact Pool.committed_defer hs.numbered aid tasks
  | finish reservation task =>
      refine ⟨fun _ => id, fun _ => ?_⟩
      simp only [PoolOp.Promise, Pool.budgetCommitted_eq hr]
      exact Pool.committed_finish
  | seat | registerLead => exact ⟨fun _ => id, fun _ => trivial⟩
  | spend aid tokens =>
      simp only [PoolOp.Promise, Pool.budgetCommitted_eq hr]
      constructor
      · rintro hsame ⟨hpos, hseat, ⟨lease, hl, hle⟩, reservation, d, hd, ha, hrem⟩
        obtain ⟨s, hseat⟩ := Option.isSome_iff_exists.mp hseat
        have hspend := Pool.committed_spend hs.measured hseat hl hle
        have hkept : (p.spend aid tokens).committed = p.committed := hsame lease hl hle
        have hzero : p.heldLoss aid tokens = 0 := by omega
        obtain hz | hz := Pool.heldLoss_eq_zero.mp hzero
        · omega
        · have := hz reservation d hd ha
          omega
      · intro hno lease hl hle
        show (p.spend aid tokens).committed = p.committed
        cases hseat : p.seats.get? aid with
        | none => rw [Pool.spend_of_none hseat]
        | some s =>
            have hzero : p.heldLoss aid tokens = 0 := by
              rw [Pool.heldLoss_eq_zero, or_iff_not_imp_left]
              intro hpos reservation d hd ha
              by_contra hrem
              exact hno ⟨Nat.pos_of_ne_zero hpos, by rw [hseat]; rfl, ⟨lease, hl, hle⟩,
                reservation, d, hd, ha, Nat.pos_of_ne_zero hrem⟩
            have hspend := Pool.committed_spend hs.measured hseat hl hle
            omega

/-- Agent 1 holds 10k for a late call of its first turn and leases 10k for its
second one. -/
def Pool.overlapping : Pool :=
  [PoolOp.seat 1 {}, .reserveChild 1, .defer 1 [7], .reserveTurn 1].foldl
    (PoolOp.apply ⟨20000, none, false⟩) {}

theorem Pool.overlapping_reachable : Pool.Reachable ⟨20000, none, false⟩ .overlapping :=
  .apply (.reserveTurn 1) (.apply (.defer 1 [7]) (.apply (.reserveChild 1)
    (.apply (.seat 1 {}) .start)))

theorem pool_promises_sample :
    (PoolOp.spend 1 400).Promise ⟨20000, none, false⟩ .overlapping ↔
      ¬ (PoolOp.spend 1 400).Overlaps .overlapping :=
  pool_promises rfl Pool.overlapping_reachable (.spend 1 400)

/-- 400 tokens spent in the second turn leave 19600 committed of 20000: the late
call's reservation shrinks before the call ends. -/
theorem usage_counted_twice :
    ¬ ∀ (r : Roster) (p : Pool) (op : PoolOp), r.cap = none → p.Reachable r → op.Promise r p := by
  intro hall
  have hkept := hall ⟨20000, none, false⟩ .overlapping (.spend 1 400) rfl
    Pool.overlapping_reachable ⟨10000, 0⟩ (by decide +kernel) (by decide +kernel)
  revert hkept
  decide +kernel

end OpenCollab
