import OpenCollab.Lib.Dict
import OpenCollab.Lib.Effect

/-!
# OpenCollab.Scheduler.Pool

The scheduler's token pool.  What a team has committed is what it has spent,
what its live turn leases still hold, and what the leases of turns that ended
with provider calls under way still hold; a new reservation gets what is left.

Every operation of the pool is a function of the source; `PoolOp` lists them
with the token usage and the seating that happen around them.  `Dict.sum` splits
at the agent an operation is about, so each operation has one lemma that says
what it does to the committed total (`committed_release`, `committed_grant`,
`committed_spend`).

Times, traces and the launch budget shown to agent 0 are left out.
-/

namespace OpenCollab

open Lib

/-! ## allocation rules -/

/-- `dynamic_roster_share`: a quarter of the pool, at least 10k, at most all. -/
def dynamicRosterShare (total : Int) : Int := min total (max 10000 (total / 4))

/-- `split_budget`: one dynamic share of what is unallocated. -/
def splitBudget (total allocated : Int) : Int :=
  min (dynamicRosterShare total) (max 0 (total - allocated))

/-! ## the pool -/

/-- A grant, measured from the tokens its agent had used when it was made: an
entry of `_turn_lease` with its entry of `_lease_baseline`, which are always
written and removed together. -/
structure Lease where
  grant : Int
  baseline : Nat
deriving DecidableEq, Inhabited

/-- What the pool reads of an agent in the table, and the limit it sets. -/
structure Seat where
  usedTokens : Nat := 0
  maxBudgetTokens : Int := 0
deriving DecidableEq, Inhabited

/-- A lease held until every provider call of its turn has ended. -/
structure DeferredLease where
  aid : Nat
  lease : Lease
  tasks : List Nat
  finished : List Nat := []
deriving DecidableEq, Inhabited

/-- The roster's rules: `cap` is the cumulative cap of each declared seat, absent
for a dynamic roster; `roleBudgets` when the caps are independent allowances. -/
structure Roster where
  maxBudgetTokens : Int
  cap : Option (Nat → Int) := none
  roleBudgets : Bool := false

/-- The pool.  `leadRegistered` when agent 0 is the lead session. -/
structure Pool where
  seats : Dict Nat Seat := .empty
  leadRegistered : Bool := false
  turnLease : Dict Nat Lease := .empty
  pendingProviderBudgetLeases : Dict Nat DeferredLease := .empty
  nextReservation : Nat := 0

namespace Pool

/-- `_session_used_tokens`. -/
def sessionUsedTokens (p : Pool) (aid : Nat) : Nat :=
  match p.seats.get? aid with
  | some seat => seat.usedTokens
  | none => 0

/-- `_lease_remaining`. -/
def leaseRemaining (p : Pool) (aid : Nat) (lease : Lease) : Nat :=
  (lease.grant - (p.sessionUsedTokens aid - lease.baseline : Nat)).toNat

/-- `used_tokens`, of the whole team. -/
def usedTokens (p : Pool) : Nat := p.seats.sum fun _ seat => seat.usedTokens

/-- What the live leases still hold. -/
def live (p : Pool) : Nat := p.turnLease.sum p.leaseRemaining

/-- What the deferred leases still hold. -/
def held (p : Pool) : Nat :=
  p.pendingProviderBudgetLeases.sum fun _ d => p.leaseRemaining d.aid d.lease

/-- `_budget_committed`. -/
def budgetCommitted (r : Roster) (p : Pool) : Nat :=
  match r.cap with
  | some _ => p.usedTokens
  | none => p.usedTokens + p.live + p.held

/-- `budget_exhausted`. -/
def budgetExhausted (r : Roster) (p : Pool) : Bool :=
  match r.roleBudgets, r.cap with
  | true, some cap =>
      !p.seats.entries.isEmpty && p.seats.entries.all fun e => cap e.1 ≤ e.2.usedTokens
  | _, _ => r.maxBudgetTokens ≤ p.usedTokens

/-! ## leases -/

/-- `_release_turn_lease`. -/
def releaseTurnLease (p : Pool) (aid : Nat) : Pool := { p with turnLease := p.turnLease.erase aid }

/-- `_current_turn_lease`. -/
def currentTurnLease (p : Pool) (aid : Nat) : Option Lease := p.turnLease.get? aid

/-- `_set_session_budget_limit`. -/
def setSessionBudgetLimit (p : Pool) (aid : Nat) (limit : Int) : Pool :=
  match p.seats.get? aid with
  | none => p
  | some seat => { p with seats := p.seats.set aid { seat with maxBudgetTokens := limit } }

/-- A grant is booked, measured from what the agent has used by now. -/
def book (p : Pool) (aid : Nat) (grant : Int) : Pool :=
  { p with turnLease := p.turnLease.set aid ⟨grant, p.sessionUsedTokens aid⟩ }

/-- `_reserve_child_budget`. -/
def reserveChildBudget (r : Roster) (p : Pool) (aid : Nat) : Int × Pool :=
  match r.cap with
  | some cap => (cap aid, p)
  | none =>
      let grant := splitBudget r.maxBudgetTokens (p.budgetCommitted r)
      (grant, p.book aid grant)

/-- `_grant_under_cap`. -/
def grantUnderCap (r : Roster) (p : Pool) (cap : Int) (used : Nat) : Int :=
  if r.roleBudgets then max 0 (cap - used)
  else max 0 (min (cap - used) (r.maxBudgetTokens - p.usedTokens))

/-- `_reserve_turn_lease`. -/
def reserveTurnLease (r : Roster) (p : Pool) (aid : Nat) : Int × Pool :=
  let p := p.releaseTurnLease aid
  let baseline := p.sessionUsedTokens aid
  let grant := match r.cap with
    | none => max 0 (r.maxBudgetTokens - p.budgetCommitted r)
    | some cap => p.grantUnderCap r (cap aid) baseline
  (grant, (if 0 < grant then p.book aid grant else p).setSessionBudgetLimit aid (baseline + grant))

/-- `_is_entry_session`. -/
def isEntrySession (p : Pool) (aid : Nat) : Bool :=
  aid = 0 && p.leadRegistered && (p.seats.get? aid).isSome

/-- `_reserve_message_budget`. -/
def reserveMessageBudget (r : Roster) (p : Pool) (aid : Nat) : Bool × Pool :=
  if (p.seats.get? aid).isNone then (false, p)
  else if r.cap.isSome then (true, (p.reserveTurnLease r aid).2)
  else if p.isEntrySession aid then
    let (grant, p) := p.reserveTurnLease r aid
    (0 < grant || p.budgetExhausted r, p)
  else if (p.turnLease.get? aid).isSome then (true, p)
  else
    let (grant, p) := p.reserveChildBudget r aid
    let p := p.setSessionBudgetLimit aid (p.sessionUsedTokens aid + grant)
    let p := if grant ≤ 0 then p.releaseTurnLease aid else p
    (0 < grant || p.budgetExhausted r, p)

/-- `_restore_turn_lease`. -/
def restoreTurnLease (r : Roster) (p : Pool) (aid : Nat) (lease : Option Lease) : Pool :=
  match lease with
  | none => p
  | some old =>
      let available := max 0 (r.maxBudgetTokens - p.budgetCommitted r)
      let grant := min (p.leaseRemaining aid old : Int) available
      (if 0 < grant then p.book aid grant else p).setSessionBudgetLimit aid
        (p.sessionUsedTokens aid + grant)

/-- A lease is held under a new reservation. -/
def hold (p : Pool) (d : DeferredLease) : Pool :=
  { p with
    pendingProviderBudgetLeases := p.pendingProviderBudgetLeases.set p.nextReservation d
    nextReservation := p.nextReservation + 1 }

/-- `_defer_budget_lease_for_provider_cleanup`; `tasks` are the session's pending
cleanup tasks. -/
def deferBudgetLease (r : Roster) (p : Pool) (aid : Nat) (tasks : List Nat) : Bool × Pool :=
  if r.cap.isSome || tasks.isEmpty then (false, p)
  else
    match p.currentTurnLease aid with
    | none => (false, p)
    | some lease => (true, (p.releaseTurnLease aid).hold { aid, lease, tasks })

/-- `_finish_provider_budget_lease`. -/
def finishProviderBudgetLease (p : Pool) (reservation task : Nat) : Pool :=
  match p.pendingProviderBudgetLeases.get? reservation with
  | none => p
  | some d =>
      let d := { d with finished := task :: d.finished }
      if d.tasks.all (· ∈ d.finished) then
        { p with
          pendingProviderBudgetLeases := p.pendingProviderBudgetLeases.erase reservation }
      else
        { p with
          pendingProviderBudgetLeases := p.pendingProviderBudgetLeases.set reservation d }

/-! ## what happens around them -/

/-- An agent's provider usage is recorded. -/
def spend (p : Pool) (aid tokens : Nat) : Pool :=
  match p.seats.get? aid with
  | none => p
  | some seat =>
      { p with seats := p.seats.set aid { seat with usedTokens := seat.usedTokens + tokens } }

/-- An agent joins the table; its aid is new. -/
def seat (p : Pool) (aid : Nat) (newcomer : Seat) : Pool :=
  match p.seats.get? aid with
  | none => { p with seats := p.seats.set aid newcomer }
  | some _ => p

/-- `_seed_entry_lease`, at the registration of the lead. -/
def registerLead (r : Roster) (p : Pool) (lead : Seat) : Pool :=
  let p := { p.seat 0 lead with leadRegistered := true }
  match r.cap with
  | some _ => p
  | none => p.book 0 (dynamicRosterShare r.maxBudgetTokens)

end Pool

/-- The operations on a pool. -/
inductive PoolOp where
  | reserveChild (aid : Nat)
  | reserveTurn (aid : Nat)
  | reserveMessage (aid : Nat)
  | release (aid : Nat)
  | restore (aid : Nat) (lease : Option Lease)
  | defer (aid : Nat) (tasks : List Nat)
  | finish (reservation task : Nat)
  | spend (aid tokens : Nat)
  | seat (aid : Nat) (newcomer : Seat)
  | registerLead (lead : Seat)

namespace PoolOp

def apply (r : Roster) (p : Pool) : PoolOp → Pool
  | reserveChild aid => (p.reserveChildBudget r aid).2
  | reserveTurn aid => (p.reserveTurnLease r aid).2
  | reserveMessage aid => (p.reserveMessageBudget r aid).2
  | release aid => p.releaseTurnLease aid
  | restore aid lease => p.restoreTurnLease r aid lease
  | defer aid tasks => (p.deferBudgetLease r aid tasks).2
  | finish reservation task => p.finishProviderBudgetLease reservation task
  | spend aid tokens => p.spend aid tokens
  | seat aid newcomer => p.seat aid newcomer
  | registerLead lead => p.registerLead r lead

end PoolOp

end OpenCollab
