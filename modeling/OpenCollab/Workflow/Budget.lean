import Mathlib.Data.List.Nodup
import Mathlib.Logic.Function.Basic

/-!
# OpenCollab.Workflow.Budget

Token budgets of a tree of workflows.

A workflow has a finite pool, sessions whose spending counts against it, and
leases that reserve part of it for a call.  A candidate workflow gets its pool
from a lease of its parent, its allocation: its sessions count in its own list, in
the allocation, and in every workflow above.

`remaining` recomputes what is left from these lists, so that one session is seen
at every level (`remaining_eq`).  Workflows, leases and sessions are numbered in
the order in which they appear; a parent has a smaller number.
-/

namespace OpenCollab.Pools

/-- Sum over a list. -/
def sumOver (f : Nat → Nat) : List Nat → Nat
  | [] => 0
  | x :: xs => f x + sumOver f xs

section Sum

variable {f g : Nat → Nat} {xs ys : List Nat} {x : Nat}

theorem sumOver_append (f : Nat → Nat) (xs ys : List Nat) :
    sumOver f (xs ++ ys) = sumOver f xs + sumOver f ys := by
  induction xs with
  | nil => simp [sumOver]
  | cons x xs ih => simp [sumOver, ih]; omega

theorem sumOver_congr (h : ∀ y ∈ xs, f y = g y) : sumOver f xs = sumOver g xs := by
  induction xs with
  | nil => rfl
  | cons y ys ih =>
      simp only [List.forall_mem_cons] at h
      simp [sumOver, h.1, ih h.2]

theorem le_sumOver (h : x ∈ xs) : f x ≤ sumOver f xs := by
  induction xs with
  | nil => simp at h
  | cons y ys ih =>
      rw [sumOver]
      rcases List.mem_cons.mp h with rfl | h
      · omega
      · have := ih h
        omega

theorem sumOver_mono (h : ∀ y ∈ xs, f y ≤ g y) : sumOver f xs ≤ sumOver g xs := by
  induction xs with
  | nil => simp [sumOver]
  | cons y ys ih =>
      simp only [List.forall_mem_cons] at h
      have := ih h.2
      simp only [sumOver]
      omega

theorem sumOver_erase_le (f : Nat → Nat) (xs : List Nat) (x : Nat) :
    sumOver f (xs.erase x) ≤ sumOver f xs := by
  induction xs with
  | nil => simp
  | cons y ys ih =>
      rw [List.erase_cons]
      split <;> simp only [sumOver] <;> omega

/-- Changing one summand changes the sum by as much. -/
theorem sumOver_change (hx : x ∈ xs) (hxs : xs.Nodup) (h : ∀ y ∈ xs, y ≠ x → f y = g y) :
    sumOver f xs + g x = sumOver g xs + f x := by
  induction xs with
  | nil => simp at hx
  | cons y ys ih =>
      obtain ⟨hy, hys⟩ := List.nodup_cons.mp hxs
      simp only [List.forall_mem_cons] at h
      simp only [sumOver]
      rcases List.mem_cons.mp hx with rfl | hx
      · have : sumOver f ys = sumOver g ys :=
          sumOver_congr fun z hz => h.2 z hz (by rintro rfl; exact hy hz)
        omega
      · have := ih hx hys h.2
        have := h.1 (by rintro rfl; exact hy hx)
        omega

end Sum

/-- `_BudgetLease`, with the workflow it was granted in. -/
structure Lease where
  total : Nat := 0
  reserved : Nat := 0
  sessions : List Nat := []
  owner : Nat := 0

/-- `WorkflowBudget`: the leases are those not released. -/
structure Budget where
  total : Nat := 0
  sessions : List Nat := []
  leases : List Nat := []
  /-- The parent, and the lease of it that this workflow spends. -/
  parentAllocation : Option (Nat × Nat) := none

/-- A tree of workflows, with what was granted in it so far. -/
structure Tree where
  budget : Nat → Budget
  workflows : Nat
  lease : Nat → Lease := fun _ => {}
  granted : Nat := 0
  usedTokens : Nat → Nat := fun _ => 0
  sessions : Nat := 0
  /-- The workflow that created a session. -/
  origin : Nat → Nat := fun _ => 0
  escapeUsed : Bool := false

/-- `UNBOUNDED_SESSION_BUDGET`. -/
def unboundedSessionBudget : Nat := 1000000

namespace Tree

/-- A root workflow with a finite pool. -/
def root (total : Nat) : Tree where
  budget := Function.update (fun _ => {}) 0 { total }
  workflows := 1

/-- `WorkflowBudget.spent`. -/
def spent (t : Tree) (b : Nat) : Nat := sumOver t.usedTokens (t.budget b).sessions

/-- `_BudgetLease.remaining`. -/
def leaseRemaining (t : Tree) (l : Nat) : Nat :=
  (t.lease l).total - sumOver t.usedTokens (t.lease l).sessions

/-- What the leases of a workflow reserve and have not spent. -/
def reservedUnspent (t : Tree) (b : Nat) : Nat := sumOver t.leaseRemaining (t.budget b).leases

/-- `WorkflowBudget.remaining`, at most `fuel` levels up. -/
def remainingUpTo (t : Tree) : Nat → Nat → Int
  | 0, _ => 0
  | fuel + 1, b =>
      let total : Int :=
        match (t.budget b).parentAllocation with
        | none => (t.budget b).total
        | some (p, a) =>
            min ((t.budget b).total : Int)
              (t.spent b + remainingUpTo t fuel p + t.leaseRemaining a)
      total - t.spent b - t.reservedUnspent b

/-- `WorkflowBudget.remaining`: a parent is numbered below its children. -/
def remaining (t : Tree) (b : Nat) : Int := t.remainingUpTo (b + 1) b

/-! ## the operations -/

/-- `WorkflowBudget.release`; releasing again does nothing. -/
def release (t : Tree) (b l : Nat) : Tree :=
  let budget := t.budget b
  let leases := budget.leases.erase l
  { t with budget := Function.update t.budget b { budget with leases } }

/-- A new lease of `b`, kept in its list where it is reserved. -/
def newLease (t : Tree) (b total reserved : Nat) (kept : Bool) : Tree :=
  let budget := t.budget b
  let leases := if kept then budget.leases ++ [t.granted] else budget.leases
  { t with
    lease := Function.update t.lease t.granted { total, reserved, owner := b }
    granted := t.granted + 1
    budget := Function.update t.budget b { budget with leases } }

/-- What a call is granted. -/
inductive Grant where
  | refused
  | reserved (total : Nat)
  | escaped
deriving DecidableEq, Repr

/-- What `_acquire_budget_lease` decides once it holds the lock.  The share of a
collection, or else the number of waiting callers, bounds an uncapped call. -/
def grant (t : Tree) (b : Nat) (cap : Option Nat) (overBudgetOk : Bool) (share : Option Nat)
    (waiters : Nat) : Grant :=
  let available := (t.remaining b).toNat
  if available = 0 then
    if overBudgetOk && !t.escapeUsed then .escaped else .refused
  else
    match cap, share with
    | some cap, _ => .reserved (min cap available)
    | none, some share => .reserved (min share available)
    | none, none => .reserved (max 1 (available / max 1 waiters))

/-- The one over-budget lease: it is not reserved. -/
def escape (t : Tree) (b : Nat) (cap : Option Nat) : Tree :=
  { t.newLease b (cap.getD unboundedSessionBudget) 0 false with
    escapeUsed := true }

/-- `_acquire_budget_lease`. -/
def acquire (t : Tree) (b : Nat) (cap : Option Nat) (overBudgetOk : Bool) (share : Option Nat)
    (waiters : Nat) : Tree :=
  match t.grant b cap overBudgetOk share waiters with
  | .refused => t
  | .reserved total => t.newLease b total total true
  | .escaped => t.escape b cap

/-- What `_refresh_budget_lease` can grant. -/
def available (t : Tree) (b l : Nat) : Nat := (t.remaining b + t.leaseRemaining l).toNat

/-- The lease gets another total, all of it reserved. -/
def retotal (t : Tree) (l total : Nat) : Tree :=
  let lease := t.lease l
  { t with lease := Function.update t.lease l { lease with total, reserved := total } }

/-- `_refresh_budget_lease`; where nothing is available the lease is released, and
the caller acquires anew. -/
def refresh (t : Tree) (b l : Nat) : Tree :=
  if (t.lease l).reserved = 0 then t
  else if t.available b l = 0 then t.release b l
  else t.retotal l (min (t.lease l).total (t.available b l))

def appendToBudget (t : Tree) (b s : Nat) : Tree :=
  let budget := t.budget b
  { t with budget := Function.update t.budget b { budget with sessions := budget.sessions ++ [s] } }

def appendToLease (t : Tree) (l s : Nat) : Tree :=
  let lease := t.lease l
  { t with lease := Function.update t.lease l { lease with sessions := lease.sessions ++ [s] } }

/-- `WorkflowBudget._track_session`, at most `fuel` levels up. -/
def trackUpTo (s : Nat) : Nat → Nat → Tree → Tree
  | 0, _, t => t
  | fuel + 1, b, t =>
      let t' := t.appendToBudget b s
      match (t.budget b).parentAllocation with
      | none => t'
      | some (p, a) => trackUpTo s fuel p (t'.appendToLease a s)

/-- A session that is counted nowhere yet. -/
def newSession (t : Tree) (b : Nat) : Tree :=
  { t with sessions := t.sessions + 1, origin := Function.update t.origin t.sessions b }

/-- `_track_session` of a workflow: a new session of it, under the lease of its call
if there is one. -/
def trackSession (t : Tree) (b : Nat) (active : Option Nat) : Tree :=
  let t' := trackUpTo t.sessions (b + 1) b (t.newSession b)
  match active with
  | none => t'
  | some l => t'.appendToLease l t.sessions

/-- A child that spends the lease. -/
def newChild (t : Tree) (b l : Nat) : Tree :=
  let child := { total := (t.lease l).total, parentAllocation := some (b, l) }
  { t with budget := Function.update t.budget t.workflows child, workflows := t.workflows + 1 }

/-- `candidate_workflow`: a child with a lease of its own. -/
def candidateWorkflow (t : Tree) (b : Nat) (budget share : Option Nat) (waiters : Nat) : Tree :=
  match t.grant b budget false share waiters with
  | .reserved total => (t.newLease b total total true).newChild b t.granted
  | _ => t

/-- A session uses tokens. -/
def spend (t : Tree) (s amount : Nat) : Tree :=
  { t with usedTokens := Function.update t.usedTokens s (t.usedTokens s + amount) }

/-- The lease is the allocation of a candidate workflow. -/
def IsAllocation (t : Tree) (l : Nat) : Prop :=
  ∃ b < t.workflows, (t.budget b).parentAllocation.map Prod.snd = some l

instance (t : Tree) (l : Nat) : Decidable (t.IsAllocation l) :=
  inferInstanceAs (Decidable (∃ b < t.workflows, _ = _))

/-! ## what is left -/

variable {t t' : Tree} {b l s amount : Nat}

/-- What holds of a tree whose root has the pool `pool`, however much its sessions
spend.  A candidate and its allocation count the same sessions; a lease counts
sessions of the workflow that granted it, and no two of its leases the same one. -/
structure Sound (pool : Nat) (t : Tree) : Prop where
  rooted : (t.budget 0).total = pool ∧ 0 < t.workflows
  parent : ∀ c p a, (t.budget c).parentAllocation = some (p, a) →
    p < c ∧ c < t.workflows ∧ a < t.granted
  allocation : ∀ c p a, (t.budget c).parentAllocation = some (p, a) →
    (t.lease a).owner = p ∧ (t.lease a).total = (t.budget c).total ∧
      (t.lease a).sessions = (t.budget c).sessions
  apartAllocations : ∀ c c' p p' a, (t.budget c).parentAllocation = some (p, a) →
    (t.budget c').parentAllocation = some (p', a) → c = c'
  leases : ∀ b, (t.budget b).leases.Nodup ∧
    ∀ l ∈ (t.budget b).leases, (t.lease l).owner = b ∧ l < t.granted
  counted : ∀ l, ∀ s ∈ (t.lease l).sessions, s ∈ (t.budget (t.lease l).owner).sessions
  apart : ∀ l l' s, s ∈ (t.lease l).sessions → s ∈ (t.lease l').sessions →
    (t.lease l).owner = (t.lease l').owner → l = l'
  once : (∀ b, (t.budget b).sessions.Nodup) ∧ ∀ l, (t.lease l).sessions.Nodup
  known : ∀ b, ∀ s ∈ (t.budget b).sessions, b < t.workflows ∧ s < t.sessions
  unused : ∀ s, t.sessions ≤ s → t.usedTokens s = 0
  begun : ∀ c, ∀ s ∈ (t.budget c).sessions, t.origin s = c ∨
    ∃ c' a, (t.budget c').parentAllocation = some (c, a) ∧ s ∈ (t.budget c').sessions

variable {pool : Nat}

theorem remainingUpTo_eq (h : Sound pool t) {fuel b : Nat} (hb : b < fuel) :
    t.remainingUpTo fuel b = t.remaining b := by
  induction b using Nat.strongRecOn generalizing fuel with
  | ind b ih =>
      obtain ⟨fuel, rfl⟩ : ∃ k, fuel = k + 1 := ⟨fuel - 1, by omega⟩
      unfold remaining
      rw [remainingUpTo, remainingUpTo]
      cases hp : (t.budget b).parentAllocation with
      | none => rfl
      | some pa =>
          have hlt := (h.parent b pa.1 pa.2 hp).1
          dsimp only
          rw [ih pa.1 hlt (by omega), ih pa.1 hlt hlt]

/-- What a workflow has left, from what its parent has left. -/
theorem remaining_eq (h : Sound pool t) (b : Nat) :
    t.remaining b =
      (match (t.budget b).parentAllocation with
        | none => ((t.budget b).total : Int)
        | some (p, a) =>
            min ((t.budget b).total : Int) (t.spent b + t.remaining p + t.leaseRemaining a)) -
        t.spent b - t.reservedUnspent b := by
  conv_lhs => rw [remaining, remainingUpTo]
  cases hp : (t.budget b).parentAllocation with
  | none => rfl
  | some pa =>
      dsimp only
      rw [remainingUpTo_eq h (h.parent b pa.1 pa.2 hp).1]

/-- What a workflow has left by its own lists. -/
def slack (t : Tree) (b : Nat) : Int := (t.budget b).total - t.spent b - t.reservedUnspent b

theorem remaining_root (h : Sound pool t) (hb : (t.budget b).parentAllocation = none) :
    t.remaining b = t.slack b := by
  rw [remaining_eq h, hb, slack]

theorem remaining_child (h : Sound pool t) {p a : Nat}
    (hb : (t.budget b).parentAllocation = some (p, a)) :
    t.remaining b = min (t.slack b) (t.remaining p + t.leaseRemaining a - t.reservedUnspent b) := by
  rw [remaining_eq h, hb, slack]
  simp only [Int.min_def]
  split <;> split <;> omega

/-- A candidate has not more than its allocation left. -/
theorem leaseRemaining_allocation (h : Sound pool t) {p a : Nat}
    (hb : (t.budget b).parentAllocation = some (p, a)) :
    t.leaseRemaining a = (t.budget b).total - t.spent b := by
  obtain ⟨-, htotal, hsessions⟩ := h.allocation b p a hb
  rw [leaseRemaining, htotal, hsessions, spent]

/-- While its parent has something left, a workflow's own lists decide. -/
theorem remaining_eq_slack (h : Sound pool t)
    (hp : ∀ p a, (t.budget b).parentAllocation = some (p, a) → 0 ≤ t.remaining p) :
    t.remaining b = t.slack b := by
  cases hb : (t.budget b).parentAllocation with
  | none => exact remaining_root h hb
  | some pa =>
      have hnonneg := hp pa.1 pa.2 hb
      have ha := leaseRemaining_allocation h hb
      rw [remaining_child h hb, slack]
      omega

/-- The workflow `d` is not worse off in `t'`. -/
structure Eases (t t' : Tree) (d : Nat) : Prop where
  parentAllocation : (t'.budget d).parentAllocation = (t.budget d).parentAllocation
  total : (t'.budget d).total = (t.budget d).total
  spent : t'.spent d = t.spent d
  reserved : t'.reservedUnspent d ≤ t.reservedUnspent d
  allocation : ∀ p a, (t.budget d).parentAllocation = some (p, a) →
    t.leaseRemaining a ≤ t'.leaseRemaining a

theorem remaining_mono (h : Sound pool t) (h' : Sound pool t') {c : Nat}
    (hc : ∀ d ≤ c, Eases t t' d) : t.remaining c ≤ t'.remaining c := by
  induction c using Nat.strongRecOn with
  | ind c ih =>
      obtain ⟨hparent, htotal, hspent, hreserved, halloc⟩ := hc c (Nat.le_refl c)
      cases hp : (t.budget c).parentAllocation with
      | none =>
          rw [remaining_root h hp, remaining_root h' (hparent.trans hp), slack, slack]
          omega
      | some pa =>
          have hlt := (h.parent c pa.1 pa.2 hp).1
          have hle := ih pa.1 hlt fun d hd => hc d (by omega)
          have ha := halloc pa.1 pa.2 hp
          rw [remaining_child h hp,
            remaining_child h' (hparent.trans hp), slack, slack]
          omega

end Tree

end OpenCollab.Pools
