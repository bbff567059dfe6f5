import Mathlib.Logic.Relation
import OpenCollab.Workflow.Budget

/-!
# OpenCollab.Workflow.BudgetRuns

Runs of the budget operations over a tree of workflows.

Every operation keeps `Sound`; the hard one is tracking a session, which adds it to
the workflow, to those above it (`line`) and to the allocations between them.
`remaining` is compared before and after an operation by `Eases`:

* `remaining_newLease` — a reserved grant takes its total from one workflow only;
* `refresh_le` — refreshing a lease costs nothing;
* `Within.heldIn` — tokens used within a grant are reserved at every level;
* `escaped_once` — behind an escape no other is granted;
* `leases_within_pool` — what holds of `remaining` in every run.
-/

namespace OpenCollab.Pools

namespace Tree

variable {pool : Nat} {t t' : Tree} {b l s amount total reserved : Nat} {kept : Bool}

/-! ## the fields after an operation -/

@[simp] theorem release_parentAllocation (c : Nat) :
    ((t.release b l).budget c).parentAllocation = (t.budget c).parentAllocation := by
  by_cases h : c = b <;> simp [release, h]

@[simp] theorem release_total (c : Nat) :
    ((t.release b l).budget c).total = (t.budget c).total := by
  by_cases h : c = b <;> simp [release, h]

@[simp] theorem release_sessions (c : Nat) :
    ((t.release b l).budget c).sessions = (t.budget c).sessions := by
  by_cases h : c = b <;> simp [release, h]

@[simp] theorem release_leases (c : Nat) :
    ((t.release b l).budget c).leases =
      if c = b then (t.budget b).leases.erase l else (t.budget c).leases := by
  by_cases h : c = b <;> simp [release, h]

@[simp] theorem release_lease : (t.release b l).lease = t.lease := rfl
@[simp] theorem release_granted : (t.release b l).granted = t.granted := rfl
@[simp] theorem release_origin : (t.release b l).origin = t.origin := rfl
@[simp] theorem release_workflows : (t.release b l).workflows = t.workflows := rfl

@[simp] theorem newLease_parentAllocation (c : Nat) :
    ((t.newLease b total reserved kept).budget c).parentAllocation =
      (t.budget c).parentAllocation := by
  by_cases h : c = b <;> simp [newLease, h]

@[simp] theorem newLease_total (c : Nat) :
    ((t.newLease b total reserved kept).budget c).total = (t.budget c).total := by
  by_cases h : c = b <;> simp [newLease, h]

@[simp] theorem newLease_sessions (c : Nat) :
    ((t.newLease b total reserved kept).budget c).sessions = (t.budget c).sessions := by
  by_cases h : c = b <;> simp [newLease, h]

@[simp] theorem newLease_leases (c : Nat) :
    ((t.newLease b total reserved kept).budget c).leases =
      if c = b ∧ kept then (t.budget c).leases ++ [t.granted] else (t.budget c).leases := by
  by_cases h : c = b <;> cases kept <;> simp [newLease, h]

@[simp] theorem newLease_lease (k : Nat) :
    (t.newLease b total reserved kept).lease k =
      if k = t.granted then { total, reserved, owner := b } else t.lease k := by
  simp only [newLease, Function.update_apply]

@[simp] theorem newLease_granted :
    (t.newLease b total reserved kept).granted = t.granted + 1 := rfl

@[simp] theorem newLease_origin :
    (t.newLease b total reserved kept).origin = t.origin := rfl

@[simp] theorem newLease_workflows :
    (t.newLease b total reserved kept).workflows = t.workflows := rfl

@[simp] theorem retotal_lease (k : Nat) :
    (t.retotal l total).lease k =
      if k = l then { t.lease l with total, reserved := total } else t.lease k := by
  simp only [retotal, Function.update_apply]

@[simp] theorem retotal_budget : (t.retotal l total).budget = t.budget := rfl
@[simp] theorem retotal_granted : (t.retotal l total).granted = t.granted := rfl
@[simp] theorem retotal_workflows : (t.retotal l total).workflows = t.workflows := rfl

theorem newChild_budget (c : Nat) :
    (t.newChild b l).budget c =
      if c = t.workflows then { total := (t.lease l).total, parentAllocation := some (b, l) }
      else t.budget c := by
  simp only [newChild, Function.update_apply]

@[simp] theorem newChild_lease : (t.newChild b l).lease = t.lease := rfl
@[simp] theorem newChild_granted : (t.newChild b l).granted = t.granted := rfl
@[simp] theorem newChild_origin : (t.newChild b l).origin = t.origin := rfl
@[simp] theorem newChild_counted : (t.newChild b l).sessions = t.sessions := rfl
@[simp] theorem newChild_workflows : (t.newChild b l).workflows = t.workflows + 1 := rfl

/-! ## the invariant -/

theorem Sound.release (h : Sound pool t) : Sound pool (t.release b l) where
  rooted := by simpa using h.rooted
  parent := by simpa using h.parent
  allocation := by simpa using h.allocation
  apartAllocations := by simpa using h.apartAllocations
  leases c := by
    have hb := h.leases b
    have hc := h.leases c
    by_cases hcb : c = b
    · subst hcb
      simp only [release_leases, release_lease, release_granted, if_true]
      exact ⟨hb.1.erase l, fun k hk => hb.2 k (List.mem_of_mem_erase hk)⟩
    · simpa [hcb] using hc
  counted := by simpa using h.counted
  apart := by simpa using h.apart
  once := by simpa using h.once
  known c k hk := h.known c k (by simpa using hk)
  unused := h.unused
  begun c k hk := by
    have := h.begun c k (by simpa using hk)
    simpa using this

theorem Sound.newLease (h : Sound pool t) : Sound pool (t.newLease b total reserved kept) := by
  obtain ⟨rooted, parent, allocation, apartAllocations, leases, counted, apart, once, known,
    unused, begun⟩ := h
  exact {
    rooted := by simpa using rooted
    parent := by grind [newLease_parentAllocation, newLease_granted, newLease_workflows]
    allocation := by
      grind [newLease_parentAllocation, newLease_lease, newLease_total, newLease_sessions]
    apartAllocations := by simpa using apartAllocations
    leases := by
      grind [newLease_leases, newLease_lease, newLease_granted, List.nodup_append]
    counted := by grind [newLease_lease, newLease_sessions]
    apart := by grind [newLease_lease]
    once := by grind [newLease_lease, newLease_sessions]
    known := fun c k hk => known c k (by simpa using hk)
    unused
    begun := by
      intro c k hk
      have := begun c k (by simpa using hk)
      simpa using this }

theorem Sound.escape (h : Sound pool t) {cap : Option Nat} : Sound pool (t.escape b cap) := by
  have hlease : Sound pool (t.newLease b (cap.getD unboundedSessionBudget) 0 false) := h.newLease
  exact { hlease with }

theorem Sound.retotal (h : Sound pool t) (hl : ¬ t.IsAllocation l) :
    Sound pool (t.retotal l total) := by
  have hne : ∀ c p a, (t.budget c).parentAllocation = some (p, a) → a ≠ l := by
    rintro c p a hc rfl
    exact hl ⟨c, (h.parent c p a hc).2.1, by simp [hc]⟩
  obtain ⟨rooted, parent, allocation, apartAllocations, leases, counted, apart, once, known,
    unused, begun⟩ := h
  exact {
    rooted, parent, apartAllocations, known, unused, begun
    allocation := by
      simp only [retotal_lease, retotal_budget]
      grind
    leases := by
      simp only [retotal_lease, retotal_budget, retotal_granted]
      grind
    counted := by
      simp only [retotal_lease, retotal_budget]
      grind
    apart := by grind [retotal_lease]
    once := by
      simp only [retotal_lease, retotal_budget]
      grind }

/-- A child may spend a lease that no session and no other child does. -/
theorem Sound.newChild (h : Sound pool t) (hb : b < t.workflows) (hl : l < t.granted)
    (howner : (t.lease l).owner = b) (hsessions : (t.lease l).sessions = [])
    (hfree : ¬ t.IsAllocation l) : Sound pool (t.newChild b l) := by
  have hne : ∀ c p a, (t.budget c).parentAllocation = some (p, a) → a ≠ l := by
    rintro c p a hc rfl
    exact hfree ⟨c, (h.parent c p a hc).2.1, by simp [hc]⟩
  obtain ⟨rooted, parent, allocation, apartAllocations, leases, counted, apart, once, known,
    unused, begun⟩ := h
  exact {
    unused, apart
    rooted := by grind [newChild_budget, newChild_workflows]
    parent := by grind [newChild_budget, newChild_workflows, newChild_granted]
    allocation := by grind [newChild_budget, newChild_lease]
    apartAllocations := by grind [newChild_budget]
    leases := by grind [newChild_budget, newChild_lease, newChild_granted]
    counted := by
      simp only [newChild_lease]
      grind [newChild_budget]
    once := by
      simp only [newChild_lease]
      grind [newChild_budget]
    known := by grind [newChild_budget, newChild_workflows, newChild_counted]
    begun := by
      intro c k hk
      rw [newChild_budget] at hk
      split at hk
      · simp at hk
      · rcases begun c k hk with ho | ⟨c', a, hc', hk'⟩
        · exact Or.inl ho
        · have hne := Nat.ne_of_lt (parent c' c a hc').2.1
          refine Or.inr ⟨c', a, ?_, ?_⟩ <;> rw [newChild_budget, if_neg hne] <;> assumption }

theorem Sound.spend (h : Sound pool t) (hs : s < t.sessions) : Sound pool (t.spend s amount) :=
  { h with
    unused := by
      intro k hk
      have := h.unused k hk
      have hne : k ≠ s := by rintro rfl; exact Nat.not_lt.mpr hk hs
      simpa [Tree.spend, hne] using this }

/-! ## a session is tracked -/

/-- A workflow and those above it. -/
def line (t : Tree) : Nat → Nat → List Nat
  | 0, _ => []
  | fuel + 1, b =>
      b :: match (t.budget b).parentAllocation with
        | none => []
        | some (p, _) => t.line fuel p

theorem line_congr (h : ∀ c, (t'.budget c).parentAllocation = (t.budget c).parentAllocation)
    (fuel b : Nat) : t'.line fuel b = t.line fuel b := by
  induction fuel generalizing b with
  | zero => rfl
  | succ fuel ih => simp [line, h, ih]

/-- The parents of a tree come first. -/
def Ranked (t : Tree) : Prop := ∀ c p a, (t.budget c).parentAllocation = some (p, a) → p < c

theorem le_of_mem_line (h : t.Ranked) {fuel b c : Nat} (hc : c ∈ t.line fuel b) : c ≤ b := by
  induction fuel generalizing b with
  | zero => simp [line] at hc
  | succ fuel ih =>
      rw [line] at hc
      cases hp : (t.budget b).parentAllocation with
      | none => simp_all
      | some pa =>
          have := h b pa.1 pa.2 hp
          simp only [hp, List.mem_cons] at hc
          rcases hc with rfl | hc
          · exact Nat.le_refl c
          · have := ih hc
            omega

/-- The line goes on up to the root. -/
theorem parent_mem_line (h : t.Ranked) {fuel b c p a : Nat} (hb : b < fuel)
    (hc : c ∈ t.line fuel b) (hp : (t.budget c).parentAllocation = some (p, a)) :
    p ∈ t.line fuel b := by
  induction fuel generalizing b with
  | zero => simp [line] at hc
  | succ fuel ih =>
      rw [line] at hc ⊢
      cases hpb : (t.budget b).parentAllocation with
      | none => simp_all
      | some pa =>
          have hlt := h b pa.1 pa.2 hpb
          simp only [hpb, List.mem_cons] at hc ⊢
          rcases hc with rfl | hc
          · obtain ⟨fuel, rfl⟩ : ∃ k, fuel = k + 1 := ⟨fuel - 1, by omega⟩
            rw [hp] at hpb
            obtain rfl : (p, a) = pa := Option.some.inj hpb
            simp [line]
          · exact Or.inr (ih (by omega) hc)

/-- Every workflow of the line but the first is there for a child. -/
theorem mem_line_child {fuel b c : Nat} (hc : c ∈ t.line fuel b) :
    c = b ∨ ∃ c' ∈ t.line fuel b, ∃ a, (t.budget c').parentAllocation = some (c, a) := by
  induction fuel generalizing b with
  | zero => simp [line] at hc
  | succ fuel ih =>
      rw [line] at hc ⊢
      cases hpb : (t.budget b).parentAllocation with
      | none => simp_all
      | some pa =>
          simp only [hpb, List.mem_cons] at hc ⊢
          rcases hc with hc | hc
          · exact Or.inl hc
          · rcases ih hc with rfl | ⟨c', hc', a, ha⟩
            · exact Or.inr ⟨b, Or.inl rfl, pa.2, hpb⟩
            · exact Or.inr ⟨c', Or.inr hc', a, ha⟩

/-- A workflow has one child in the line. -/
theorem line_child_unique (h : t.Ranked) {fuel b c c' p a a' : Nat} (hc : c ∈ t.line fuel b)
    (hc' : c' ∈ t.line fuel b) (hp : (t.budget c).parentAllocation = some (p, a))
    (hp' : (t.budget c').parentAllocation = some (p, a')) : c = c' := by
  induction fuel generalizing b with
  | zero => simp [line] at hc
  | succ fuel ih =>
      rw [line] at hc hc'
      cases hpb : (t.budget b).parentAllocation with
      | none => simp_all
      | some pa =>
          simp only [hpb, List.mem_cons] at hc hc'
          rcases hc with rfl | hc <;> rcases hc' with rfl | hc'
          · rfl
          · have := le_of_mem_line h hc'
            have := h c' p a' hp'
            grind
          · have := le_of_mem_line h hc
            have := h c p a hp
            grind
          · exact ih hc hc'

/-- Tracking touches budgets and leases only. -/
theorem trackUpTo_rest (s fuel b : Nat) (t : Tree) :
    ∃ budget lease, trackUpTo s fuel b t = { t with budget, lease } := by
  induction fuel generalizing b t with
  | zero => exact ⟨t.budget, t.lease, rfl⟩
  | succ fuel ih =>
      rw [trackUpTo]
      cases (t.budget b).parentAllocation with
      | none => exact ⟨_, _, rfl⟩
      | some pa =>
          obtain ⟨budget, lease, h⟩ := ih pa.1 ((t.appendToBudget b s).appendToLease pa.2 s)
          exact ⟨budget, lease, h⟩

theorem appendToBudget_budget (c : Nat) :
    (t.appendToBudget b s).budget c =
      if c = b then { t.budget b with sessions := (t.budget b).sessions ++ [s] }
      else t.budget c := by
  simp only [appendToBudget, Function.update_apply]

theorem appendToLease_lease (k : Nat) :
    (t.appendToLease l s).lease k =
      if k = l then { t.lease l with sessions := (t.lease l).sessions ++ [s] }
      else t.lease k := by
  simp only [appendToLease, Function.update_apply]

@[simp] theorem appendToLease_budget : (t.appendToLease l s).budget = t.budget := rfl
@[simp] theorem appendToBudget_lease : (t.appendToBudget b s).lease = t.lease := rfl

/-- The session is counted once in every workflow of the line. -/
theorem trackUpTo_budget (h : t.Ranked) {fuel : Nat} (hb : b < fuel) (c : Nat) :
    (trackUpTo s fuel b t).budget c =
      if c ∈ t.line fuel b then { t.budget c with sessions := (t.budget c).sessions ++ [s] }
      else t.budget c := by
  induction fuel generalizing b t with
  | zero => omega
  | succ fuel ih =>
      rw [trackUpTo, line]
      cases hp : (t.budget b).parentAllocation with
      | none =>
          simp only [appendToBudget_budget, List.mem_singleton]
          grind
      | some pa =>
          have hlt := h b pa.1 pa.2 hp
          let t' := (t.appendToBudget b s).appendToLease pa.2 s
          have hparent : ∀ d, (t'.budget d).parentAllocation = (t.budget d).parentAllocation := by
            intro d
            simp only [t', appendToLease_budget, appendToBudget_budget]
            grind
          have hline : b ∉ t.line fuel pa.1 := fun hmem => by
            have := le_of_mem_line h hmem
            omega
          have hranked : t'.Ranked := fun d p a hd => h d p a (by rw [← hparent d, hd])
          have := ih hranked (b := pa.1) (by omega)
          simp only [List.mem_cons]
          rw [this, line_congr hparent]
          simp only [t', appendToLease_budget, appendToBudget_budget]
          grind

/-- The session is counted once in every allocation of the line. -/
theorem trackUpTo_lease (h : t.Ranked)
    (hapart : ∀ c c' p p' a, (t.budget c).parentAllocation = some (p, a) →
      (t.budget c').parentAllocation = some (p', a) → c = c') {fuel : Nat} (hb : b < fuel)
    (k : Nat) :
    ((∃ c ∈ t.line fuel b, ∃ p, (t.budget c).parentAllocation = some (p, k)) →
      (trackUpTo s fuel b t).lease k =
        { t.lease k with sessions := (t.lease k).sessions ++ [s] }) ∧
    ((¬ ∃ c ∈ t.line fuel b, ∃ p, (t.budget c).parentAllocation = some (p, k)) →
      (trackUpTo s fuel b t).lease k = t.lease k) := by
  induction fuel generalizing b t with
  | zero => omega
  | succ fuel ih =>
      rw [trackUpTo, line]
      cases hp : (t.budget b).parentAllocation with
      | none => simp [hp]
      | some pa =>
          have hlt := h b pa.1 pa.2 hp
          let t' := (t.appendToBudget b s).appendToLease pa.2 s
          have hparent : ∀ d, (t'.budget d).parentAllocation = (t.budget d).parentAllocation := by
            intro d
            simp only [t', appendToLease_budget, appendToBudget_budget]
            grind
          have hline : b ∉ t.line fuel pa.1 := fun hmem => by
            have := le_of_mem_line h hmem
            omega
          have hranked : t'.Ranked := fun d p a hd => h d p a (by rw [← hparent d, hd])
          have := ih hranked (by simpa only [hparent] using hapart) (b := pa.1) (by omega)
          simp only [hparent, line_congr hparent] at this
          have hlease : t'.lease k =
              if k = pa.2 then { t.lease pa.2 with sessions := (t.lease pa.2).sessions ++ [s] }
              else t.lease k := appendToLease_lease k
          by_cases hk : k = pa.2
          · subst hk
            have hnone : ¬ ∃ c ∈ t.line fuel pa.1, ∃ p,
                (t.budget c).parentAllocation = some (p, pa.2) := by
              rintro ⟨c, hc, p, hcp⟩
              obtain rfl := hapart c b p pa.1 pa.2 hcp hp
              exact hline hc
            have htrack := this.2 hnone
            rw [hlease, if_pos rfl] at htrack
            exact ⟨fun _ => htrack, fun hno => absurd ⟨b, by simp, pa.1, hp⟩ hno⟩
          · rw [hlease, if_neg hk] at this
            have hiff : (∃ c ∈ b :: t.line fuel pa.1, ∃ p,
                (t.budget c).parentAllocation = some (p, k)) ↔
                ∃ c ∈ t.line fuel pa.1, ∃ p, (t.budget c).parentAllocation = some (p, k) := by
              grind
            dsimp only
            rw [hiff]
            exact this

/-- The lease is the allocation of a workflow of the line. -/
def OnLine (t : Tree) (b k : Nat) : Prop :=
  ∃ c ∈ t.line (b + 1) b, ∃ p, (t.budget c).parentAllocation = some (p, k)

/-- Where a new session of `b` under `active` is counted. -/
theorem trackSession_spec (h : Sound pool t) (b : Nat) (active : Option Nat)
    (hactive : ∀ l, active = some l → ¬ t.OnLine b l) :
    (∀ c, (t.trackSession b active).budget c =
      if c ∈ t.line (b + 1) b then
        { t.budget c with sessions := (t.budget c).sessions ++ [t.sessions] }
      else t.budget c) ∧
    (∀ k, (t.OnLine b k ∨ active = some k → (t.trackSession b active).lease k =
        { t.lease k with sessions := (t.lease k).sessions ++ [t.sessions] }) ∧
      (¬ t.OnLine b k → active ≠ some k → (t.trackSession b active).lease k = t.lease k)) ∧
    ∃ budget lease, t.trackSession b active = { t.newSession b with budget, lease } := by
  have hranked : (t.newSession b).Ranked := fun c p a hc => (h.parent c p a hc).1
  have hbudget := trackUpTo_budget (s := t.sessions) hranked (Nat.lt_succ_self b)
  have hlease := trackUpTo_lease (s := t.sessions) hranked h.apartAllocations (Nat.lt_succ_self b)
  have hline : (t.newSession b).line (b + 1) b = t.line (b + 1) b :=
    @line_congr t (t.newSession b) (fun _ => rfl) (b + 1) b
  rw [hline] at hbudget hlease
  obtain ⟨budget, lease, hrest⟩ := trackUpTo_rest t.sessions (b + 1) b (t.newSession b)
  cases active with
  | none =>
      simp only [trackSession]
      exact ⟨hbudget, fun k => ⟨fun hk => (hlease k).1 (hk.resolve_right (by simp)),
        fun hk _ => (hlease k).2 hk⟩, budget, lease, hrest⟩
  | some l =>
      have hl := hactive l rfl
      simp only [trackSession]
      refine ⟨hbudget, fun k => ?_, budget, _, by rw [hrest]; rfl⟩
      rw [appendToLease_lease]
      have hk := hlease k
      by_cases hkl : k = l
      · subst hkl
        have := hk.2 hl
        rw [if_pos rfl, this]
        exact ⟨fun _ => rfl, fun _ hne => absurd rfl hne⟩
      · rw [if_neg hkl]
        constructor
        · rintro (hon | hsome)
          · exact hk.1 hon
          · exact absurd (Option.some.inj hsome).symm hkl
        · exact fun hoff _ => hk.2 hoff

/-- A session of `b` may run under a lease of `b` that no child spends. -/
theorem Sound.trackSession (h : Sound pool t) (hb : b < t.workflows) {active : Option Nat}
    (hactive : ∀ l, active = some l →
      l < t.granted ∧ (t.lease l).owner = b ∧ ¬ t.IsAllocation l) :
    Sound pool (t.trackSession b active) := by
  have halloc : ∀ k, t.OnLine b k → t.IsAllocation k := by
    rintro k ⟨c, -, p, hc⟩
    exact ⟨c, (h.parent c p k hc).2.1, by simp [hc]⟩
  have hranked : t.Ranked := fun c p a hc => (h.parent c p a hc).1
  obtain ⟨hbudget, hlease, budget, lease, hrest⟩ := trackSession_spec h b active
    fun l hl hon => (hactive l hl).2.2 (halloc l hon)
  have hle : ∀ c ∈ t.line (b + 1) b, c ≤ b := fun c hc => le_of_mem_line hranked hc
  have hfirst : b ∈ t.line (b + 1) b := by simp [line]
  have hup : ∀ c ∈ t.line (b + 1) b, ∀ p a, (t.budget c).parentAllocation = some (p, a) →
      p ∈ t.line (b + 1) b :=
    fun c hc p a hp => parent_mem_line hranked (Nat.lt_succ_self b) hc hp
  have hparent : ∀ c, ((t.trackSession b active).budget c).parentAllocation =
      (t.budget c).parentAllocation := by
    intro c; rw [hbudget c]; split <;> rfl
  have htotal : ∀ c, ((t.trackSession b active).budget c).total = (t.budget c).total := by
    intro c; rw [hbudget c]; split <;> rfl
  have hleases : ∀ c, ((t.trackSession b active).budget c).leases = (t.budget c).leases := by
    intro c; rw [hbudget c]; split <;> rfl
  have hsessions : ∀ c, ((t.trackSession b active).budget c).sessions =
      if c ∈ t.line (b + 1) b then (t.budget c).sessions ++ [t.sessions]
      else (t.budget c).sessions := by
    intro c; rw [hbudget c]; split <;> rfl
  have howner : ∀ k, ((t.trackSession b active).lease k).owner = (t.lease k).owner ∧
      ((t.trackSession b active).lease k).total = (t.lease k).total := by
    intro k
    by_cases hk : t.OnLine b k ∨ active = some k
    · rw [(hlease k).1 hk]
      exact ⟨rfl, rfl⟩
    · rw [(hlease k).2 (fun ho => hk (Or.inl ho)) (fun ha => hk (Or.inr ha))]
      exact ⟨rfl, rfl⟩
  have hmarked : ∀ k, t.OnLine b k ∨ active = some k →
      ((t.trackSession b active).lease k).sessions = (t.lease k).sessions ++ [t.sessions] ∧
        (t.lease k).owner ∈ t.line (b + 1) b := by
    intro k hk
    refine ⟨by rw [(hlease k).1 hk], ?_⟩
    rcases hk with ⟨c, hc, p, hp⟩ | hk
    · rw [(h.allocation c p k hp).1]
      exact hup c hc p k hp
    · rw [(hactive k hk).2.1]
      exact hfirst
  have hother : ∀ k, ¬ (t.OnLine b k ∨ active = some k) →
      ((t.trackSession b active).lease k).sessions = (t.lease k).sessions := by
    intro k hk
    rw [(hlease k).2 (fun ho => hk (Or.inl ho)) (fun ha => hk (Or.inr ha))]
  -- two leases of one workflow do not both count the new session
  have hone : ∀ k k', t.OnLine b k ∨ active = some k → t.OnLine b k' ∨ active = some k' →
      (t.lease k).owner = (t.lease k').owner → k = k' := by
    have hbelow : ∀ k, t.OnLine b k → (t.lease k).owner ≠ b := by
      rintro k ⟨c, hc, p, hp⟩ heq
      rw [(h.allocation c p k hp).1] at heq
      have := hle c hc
      have := (h.parent c p k hp).1
      omega
    rintro k k' (hk | hk) (hk' | hk') heq
    · obtain ⟨c, hc, p, hp⟩ := hk
      obtain ⟨c', hc', p', hp'⟩ := hk'
      rw [(h.allocation c p k hp).1, (h.allocation c' p' k' hp').1] at heq
      subst heq
      obtain rfl := line_child_unique hranked hc hc' hp hp'
      rw [hp] at hp'
      simpa using hp'
    · exact absurd (heq.trans (hactive k' hk').2.1) (hbelow k hk)
    · exact absurd (heq.symm.trans (hactive k hk).2.1) (hbelow k' hk')
    · exact Option.some.inj (hk.symm.trans hk')
  have hallocation : ∀ c p a, (t.budget c).parentAllocation = some (p, a) →
      (c ∈ t.line (b + 1) b ↔ t.OnLine b a ∨ active = some a) := by
    intro c p a hc
    constructor
    · exact fun hmem => Or.inl ⟨c, hmem, p, hc⟩
    · rintro (⟨c', hc', p', hp'⟩ | ha)
      · rwa [h.apartAllocations c c' p p' a hc hp']
      · exact absurd ⟨c, (h.parent c p a hc).2.1, by simp [hc]⟩ (hactive a ha).2.2
  have hfresh : ∀ c, t.sessions ∉ (t.budget c).sessions := fun c hc =>
    Nat.lt_irrefl _ (h.known c _ hc).2
  have hfresh' : ∀ k, t.sessions ∉ (t.lease k).sessions := fun k hk =>
    hfresh _ (h.counted k _ hk)
  have hworkflows : (t.trackSession b active).workflows = t.workflows := by rw [hrest]; rfl
  have hgranted : (t.trackSession b active).granted = t.granted := by rw [hrest]; rfl
  have hcount : (t.trackSession b active).sessions = t.sessions + 1 := by rw [hrest]; rfl
  have horigin : (t.trackSession b active).origin = Function.update t.origin t.sessions b := by
    rw [hrest]; rfl
  have hused : (t.trackSession b active).usedTokens = t.usedTokens := by rw [hrest]; rfl
  constructor
  case rooted => rw [htotal, hworkflows]; exact h.rooted
  case parent => simpa only [hparent, hworkflows, hgranted] using h.parent
  case apartAllocations => simpa only [hparent] using h.apartAllocations
  case leases => simpa only [hleases, howner, hgranted] using h.leases
  case unused =>
    intro k hk
    rw [hused]
    exact h.unused k (by omega)
  case allocation =>
    intro c p a hc
    rw [hparent] at hc
    obtain ⟨hp, ht, hs⟩ := h.allocation c p a hc
    have hiff := hallocation c p a hc
    refine ⟨(howner a).1.trans hp, ((howner a).2.trans ht).trans (htotal c).symm, ?_⟩
    rw [hsessions]
    by_cases hmem : c ∈ t.line (b + 1) b
    · rw [if_pos hmem, (hmarked a (hiff.mp hmem)).1, hs]
    · rw [if_neg hmem, hother a (fun ha => hmem (hiff.mpr ha)), hs]
  case counted =>
    intro k s hs
    rw [(howner k).1, hsessions]
    have hold := h.counted k s
    by_cases hk : t.OnLine b k ∨ active = some k
    · rw [(hmarked k hk).1] at hs
      rw [if_pos (hmarked k hk).2]
      grind
    · rw [hother k hk] at hs
      grind
  case apart =>
    intro k k' s hs hs' heq
    rw [(howner k).1, (howner k').1] at heq
    have hold := h.apart k k' s
    by_cases hk : t.OnLine b k ∨ active = some k <;>
      by_cases hk' : t.OnLine b k' ∨ active = some k'
    · exact hone k k' hk hk' heq
    · rw [(hmarked k hk).1] at hs
      rw [hother k' hk'] at hs'
      grind
    · rw [hother k hk] at hs
      rw [(hmarked k' hk').1] at hs'
      grind
    · rw [hother k hk] at hs
      rw [hother k' hk'] at hs'
      exact hold hs hs' heq
  case once =>
    refine ⟨fun c => ?_, fun k => ?_⟩
    · have := h.once.1 c
      have := hfresh c
      rw [hsessions]
      grind [List.nodup_append]
    · have := h.once.2 k
      have := hfresh' k
      by_cases hk : t.OnLine b k ∨ active = some k
      · rw [(hmarked k hk).1]
        grind [List.nodup_append]
      · rwa [hother k hk]
  case known =>
    intro c s hs
    rw [hsessions] at hs
    rw [hworkflows, hcount]
    have hold := h.known c s
    have := hle c
    grind
  case begun =>
    intro c s hs
    rw [hsessions] at hs
    rw [horigin]
    simp only [hparent, hsessions]
    have hchild := @mem_line_child t (b + 1) b c
    have hold := h.begun c s
    have := hfresh c
    by_cases hnew : s = t.sessions
    · subst hnew
      have hc : c ∈ t.line (b + 1) b := by grind
      rcases hchild hc with rfl | ⟨c', hc', a, ha⟩
      · exact Or.inl (by simp)
      · exact Or.inr ⟨c', a, ha, by simp [hc']⟩
    · rw [Function.update_of_ne hnew]
      rcases hold (by grind) with ho | ⟨c', a, ha, hmem⟩
      · exact Or.inl ho
      · exact Or.inr ⟨c', a, ha, by grind⟩

/-! ## what an operation leaves -/

theorem spent_release (c : Nat) : (t.release b l).spent c = t.spent c := by
  rw [spent, spent, release_sessions]
  rfl

theorem release_eases (d : Nat) : Eases t (t.release b l) d where
  parentAllocation := release_parentAllocation d
  total := release_total d
  spent := spent_release d
  reserved := by
    have hlease : (t.release b l).leaseRemaining = t.leaseRemaining := rfl
    rw [reservedUnspent, reservedUnspent, hlease, release_leases]
    by_cases hd : d = b
    · rw [if_pos hd, hd]
      exact sumOver_erase_le _ _ l
    · exact Nat.le_of_eq (by rw [if_neg hd])
  allocation p a _ := Nat.le_refl _

theorem leaseRemaining_retotal_le (htotal : total ≤ (t.lease l).total) (k : Nat) :
    (t.retotal l total).leaseRemaining k ≤ t.leaseRemaining k := by
  rw [leaseRemaining, leaseRemaining, retotal_lease]
  have hused : (t.retotal l total).usedTokens = t.usedTokens := rfl
  rw [hused]
  by_cases hk : k = l
  · rw [if_pos hk, hk]
    dsimp only
    omega
  · exact Nat.le_of_eq (by rw [if_neg hk])

theorem retotal_eases (h : Sound pool t) (hl : ¬ t.IsAllocation l)
    (htotal : total ≤ (t.lease l).total) (d : Nat) : Eases t (t.retotal l total) d where
  parentAllocation := rfl
  total := rfl
  spent := rfl
  reserved := by
    rw [reservedUnspent, reservedUnspent, retotal_budget]
    exact sumOver_mono fun k _ => leaseRemaining_retotal_le htotal k
  allocation p a ha := by
    have hne : a ≠ l := by
      rintro rfl
      exact hl ⟨d, (h.parent d p a ha).2.1, by simp [ha]⟩
    rw [leaseRemaining, leaseRemaining, retotal_lease, if_neg hne]
    exact Nat.le_refl _

theorem spent_newLease (c : Nat) :
    (t.newLease b total reserved kept).spent c = t.spent c := by
  rw [spent, spent, newLease_sessions]
  rfl

theorem leaseRemaining_newLease {k : Nat} (hk : k < t.granted) :
    (t.newLease b total reserved kept).leaseRemaining k = t.leaseRemaining k := by
  rw [leaseRemaining, leaseRemaining, newLease_lease, if_neg (Nat.ne_of_lt hk)]
  rfl

theorem leaseRemaining_newLease_self :
    (t.newLease b total reserved kept).leaseRemaining t.granted = total := by
  rw [leaseRemaining, newLease_lease, if_pos rfl]
  rfl

theorem reservedUnspent_newLease (h : Sound pool t) (c : Nat) :
    (t.newLease b total reserved kept).reservedUnspent c =
      t.reservedUnspent c + if c = b ∧ kept then total else 0 := by
  have hold : sumOver (t.newLease b total reserved kept).leaseRemaining (t.budget c).leases =
      t.reservedUnspent c :=
    sumOver_congr fun k hk => leaseRemaining_newLease ((h.leases c).2 k hk).2
  rw [reservedUnspent, newLease_leases]
  split
  · rw [sumOver_append, hold, sumOver, sumOver, leaseRemaining_newLease_self]
    rfl
  · rw [hold]
    rfl

theorem newLease_eases (h : Sound pool t) (d : Nat) :
    Eases t (t.newLease b total reserved false) d where
  parentAllocation := newLease_parentAllocation d
  total := newLease_total d
  spent := spent_newLease d
  reserved := by
    rw [reservedUnspent_newLease h]
    simp
  allocation p a ha := by
    exact Nat.le_of_eq (leaseRemaining_newLease (h.parent d p a ha).2.2).symm

theorem escape_eases (h : Sound pool t) {cap : Option Nat} (d : Nat) :
    Eases t (t.escape b cap) d := by
  have hlease : Eases t (t.newLease b (cap.getD unboundedSessionBudget) 0 false) d :=
    newLease_eases h d
  exact ⟨hlease.1, hlease.2, hlease.3, hlease.4, hlease.5⟩

theorem slack_newLease (h : Sound pool t) (c : Nat) :
    (t.newLease b total reserved kept).slack c =
      t.slack c - ((if c = b ∧ kept then total else 0 : Nat) : Int) := by
  rw [slack, slack, newLease_total, spent_newLease, reservedUnspent_newLease h]
  omega

/-- A reserved lease of at most what is left takes that much, from its workflow only. -/
theorem remaining_newLease (h : Sound pool t) (htotal : (total : Int) ≤ t.remaining b) (c : Nat) :
    (t.newLease b total reserved true).remaining c =
      t.remaining c - ((if c = b then total else 0 : Nat) : Int) := by
  have h' : Sound pool (t.newLease b total reserved true) := h.newLease
  induction c using Nat.strongRecOn with
  | ind c ih =>
      have hslack : (t.newLease b total reserved true).slack c =
          t.slack c - ((if c = b then total else 0 : Nat) : Int) := by
        rw [slack_newLease h]
        simp only [and_true]
      cases hp : (t.budget c).parentAllocation with
      | none =>
          rw [remaining_root h hp, remaining_root h' ((newLease_parentAllocation c).trans hp),
            hslack]
      | some pa =>
          have hp' : ((t.newLease b total reserved true).budget c).parentAllocation = some pa :=
            (newLease_parentAllocation c).trans hp
          have hparent := ih pa.1 (h.parent c pa.1 pa.2 hp).1
          have hlease : (t.newLease b total reserved true).leaseRemaining pa.2 =
              t.leaseRemaining pa.2 := leaseRemaining_newLease (h.parent c pa.1 pa.2 hp).2.2
          have hreserved : (t.newLease b total reserved true).reservedUnspent c =
              t.reservedUnspent c + if c = b then total else 0 := by
            rw [reservedUnspent_newLease h]
            simp only [and_true]
          have hown := leaseRemaining_allocation h hp
          have hne : pa.1 ≠ c := Nat.ne_of_lt (h.parent c pa.1 pa.2 hp).1
          rw [remaining_child h hp, remaining_child h' hp', hparent, hlease, hslack, hreserved]
          by_cases hpb : pa.1 = b
          · -- the workflow that grants has enough left, so its children do not notice
            have hcb : c ≠ b := fun hcb => hne (hpb.trans hcb.symm)
            rw [if_pos hpb, if_neg hcb, hpb, slack]
            omega
          · rw [if_neg hpb]
            split <;> omega

/-- A new session has used nothing. -/
theorem sumOver_tracked (h : Sound pool t) (xs : List Nat) :
    sumOver t.usedTokens (xs ++ [t.sessions]) = sumOver t.usedTokens xs := by
  rw [sumOver_append, sumOver, sumOver, h.unused t.sessions (Nat.le_refl _)]
  rfl

theorem trackSession_eases (h : Sound pool t) {active : Option Nat}
    (hactive : ∀ l, active = some l → ¬ t.IsAllocation l) (d : Nat) :
    Eases t (t.trackSession b active) d := by
  obtain ⟨hbudget, hlease, budget, lease, hrest⟩ := trackSession_spec h b active
    fun l hl ⟨c, _, p, hc⟩ => hactive l hl ⟨c, (h.parent c p l hc).2.1, by simp [hc]⟩
  have hused : (t.trackSession b active).usedTokens = t.usedTokens := by rw [hrest]; rfl
  have hremaining : (t.trackSession b active).leaseRemaining = t.leaseRemaining := by
    funext k
    rw [leaseRemaining, leaseRemaining, hused]
    by_cases hk : t.OnLine b k ∨ active = some k
    · rw [(hlease k).1 hk, sumOver_tracked h]
    · rw [(hlease k).2 (fun ho => hk (Or.inl ho)) (fun ha => hk (Or.inr ha))]
  have hd := hbudget d
  by_cases hmem : d ∈ t.line (b + 1) b
  · rw [if_pos hmem] at hd
    constructor
    case parentAllocation => rw [hd]
    case total => rw [hd]
    case spent => rw [spent, spent, hused, hd, sumOver_tracked h]
    case reserved =>
      exact Nat.le_of_eq (by rw [reservedUnspent, reservedUnspent, hremaining, hd])
    case allocation => rw [hremaining]; exact fun _ _ _ => Nat.le_refl _
  · rw [if_neg hmem] at hd
    constructor
    case parentAllocation => rw [hd]
    case total => rw [hd]
    case spent => rw [spent, spent, hused, hd]
    case reserved =>
      exact Nat.le_of_eq (by rw [reservedUnspent, reservedUnspent, hremaining, hd])
    case allocation => rw [hremaining]; exact fun _ _ _ => Nat.le_refl _

theorem newChild_eases {d : Nat} (hd : d < t.workflows) : Eases t (t.newChild b l) d := by
  have hbudget : (t.newChild b l).budget d = t.budget d := by
    rw [newChild_budget, if_neg (Nat.ne_of_lt hd)]
  have hremaining : (t.newChild b l).leaseRemaining = t.leaseRemaining := rfl
  have hused : (t.newChild b l).usedTokens = t.usedTokens := rfl
  constructor
  case parentAllocation => rw [hbudget]
  case total => rw [hbudget]
  case spent => rw [spent, spent, hused, hbudget]
  case reserved =>
    exact Nat.le_of_eq (by rw [reservedUnspent, reservedUnspent, hremaining, hbudget])
  case allocation => rw [hremaining]; exact fun _ _ _ => Nat.le_refl _

/-- A new child has its whole allocation left. -/
theorem remaining_newChild (h' : Sound pool (t.newChild b l))
    (hb : 0 ≤ (t.newChild b l).remaining b) : 0 ≤ (t.newChild b l).remaining t.workflows := by
  have hbudget := newChild_budget (t := t) (b := b) (l := l) t.workflows
  rw [if_pos rfl] at hbudget
  have hp : ((t.newChild b l).budget t.workflows).parentAllocation = some (b, l) := by rw [hbudget]
  rw [remaining_child h' hp, slack, spent, reservedUnspent, hbudget, sumOver, sumOver]
  omega

/-! ## tokens are used -/

/-- The allocation of the workflow is not released. -/
def allocationHeld (t : Tree) (c : Nat) : Bool :=
  match (t.budget c).parentAllocation with
  | none => true
  | some (p, a) => decide (a ∈ (t.budget p).leases)

/-- The session runs under a lease of its workflow which has `amount` left and is not
released, nor are the allocations of the workflows that count it. -/
def Within (t : Tree) (s amount : Nat) : Prop :=
  ∃ l < t.granted, s ∈ (t.lease l).sessions ∧ (t.lease l).owner = t.origin s ∧
    l ∈ (t.budget (t.origin s)).leases ∧ amount ≤ t.leaseRemaining l ∧
    ∀ c < t.workflows, s ∈ (t.budget c).sessions → t.allocationHeld c = true

instance (t : Tree) (s amount : Nat) : Decidable (t.Within s amount) :=
  inferInstanceAs (Decidable (∃ l < t.granted, _ ∧ _))

/-- The allocations of the workflows that count the session have `amount` left. -/
def Covered (t : Tree) (s amount : Nat) : Prop :=
  ∀ c < t.workflows, s ∈ (t.budget c).sessions →
    ∀ a ∈ (t.budget c).parentAllocation.map Prod.snd, amount ≤ t.leaseRemaining a

instance (t : Tree) (s amount : Nat) : Decidable (t.Covered s amount) :=
  inferInstanceAs (Decidable (∀ c < t.workflows, _))

/-- No workflow has less than nothing left. -/
def Solvent (t : Tree) : Prop := ∀ c < t.workflows, 0 ≤ t.remaining c

instance (t : Tree) : Decidable t.Solvent :=
  inferInstanceAs (Decidable (∀ c < t.workflows, _))

theorem Solvent.remaining_eq (h : Sound pool t) (hs : t.Solvent) (c : Nat) :
    t.remaining c = t.slack c :=
  remaining_eq_slack h fun p a hp =>
    hs p (Nat.lt_trans (h.parent c p a hp).1 (h.parent c p a hp).2.1)

theorem Covered.le (hcovered : t.Covered s amount) (h : Sound pool t) {c p a : Nat}
    (hc : s ∈ (t.budget c).sessions) (hp : (t.budget c).parentAllocation = some (p, a)) :
    amount ≤ t.leaseRemaining a := by
  refine hcovered c (h.parent c p a hp).2.1 hc a ?_
  rw [hp]
  rfl

/-- A session within its grant runs under a reserved lease in each workflow that
counts it. -/
theorem Within.heldIn (h : Sound pool t) (hcovered : t.Covered s amount)
    (hw : t.Within s amount) {c : Nat} (hc : s ∈ (t.budget c).sessions) :
    ∃ k ∈ (t.budget c).leases, s ∈ (t.lease k).sessions ∧ amount ≤ t.leaseRemaining k := by
  obtain ⟨l, hl, hls, howner, hmem, hamount, hheld⟩ := hw
  rcases h.begun c s hc with rfl | ⟨c', a, hp, hc'⟩
  · exact ⟨l, hmem, hls, hamount⟩
  · refine ⟨a, ?_, ?_, hcovered.le h hc' hp⟩
    · have hin := hheld c' (h.parent c' c a hp).2.1 hc'
      rw [allocationHeld, hp] at hin
      exact of_decide_eq_true hin
    · rw [(h.allocation c' c a hp).2.2]
      exact hc'

/-- **Where no workflow has less than nothing left**, the lease of a session is part of
what every workflow above has left of its allocation. -/
theorem Solvent.covered (h : Sound pool t) (hsolvent : t.Solvent) (hw : t.Within s amount) :
    t.Covered s amount := by
  obtain ⟨l, hl, hls, howner, hmem, hamount, hheld⟩ := hw
  have hup : ∀ n c p a, t.workflows - c = n → s ∈ (t.budget c).sessions →
      (t.budget c).parentAllocation = some (p, a) → amount ≤ t.leaseRemaining a := by
    -- from the workflow of the session up: a parent is numbered below its children
    intro n
    induction n using Nat.strongRecOn with
    | ind n ih =>
        intro c p a hn hc hp
        have hcw := (h.parent c p a hp).2.1
        have hreserved : ∃ k ∈ (t.budget c).leases, amount ≤ t.leaseRemaining k := by
          rcases h.begun c s hc with rfl | ⟨c', b, hp', hc'⟩
          · exact ⟨l, hmem, hamount⟩
          · obtain ⟨hlt, hcw', -⟩ := h.parent c' c b hp'
            have hin := hheld c' hcw' hc'
            rw [allocationHeld, hp'] at hin
            exact ⟨b, of_decide_eq_true hin,
              ih (t.workflows - c') (by omega) c' c b rfl hc' hp'⟩
        obtain ⟨k, hk, hkamount⟩ := hreserved
        have hle : t.leaseRemaining k ≤ t.reservedUnspent c := le_sumOver hk
        have hslack : 0 ≤ t.slack c := by
          rw [← Solvent.remaining_eq h hsolvent]
          exact hsolvent c hcw
        have hown := leaseRemaining_allocation h hp
        rw [slack] at hslack
        omega
  intro c hcw hc a ha
  obtain ⟨⟨p, a'⟩, hp, rfl⟩ := Option.map_eq_some_iff.mp ha
  exact hup _ c p a' rfl hc hp

theorem sumOver_spend_of_mem {xs : List Nat} (hs : s ∈ xs) (hxs : xs.Nodup) :
    sumOver (t.spend s amount).usedTokens xs = sumOver t.usedTokens xs + amount := by
  have hother : ∀ k ∈ xs, k ≠ s → (t.spend s amount).usedTokens k = t.usedTokens k :=
    fun k _ hk => by simp [spend, hk]
  have hself : (t.spend s amount).usedTokens s = t.usedTokens s + amount := by simp [spend]
  have := sumOver_change hs hxs hother
  omega

theorem sumOver_spend_of_notMem {xs : List Nat} (hs : s ∉ xs) :
    sumOver (t.spend s amount).usedTokens xs = sumOver t.usedTokens xs :=
  sumOver_congr fun k hk => by
    have hne : k ≠ s := by rintro rfl; exact hs hk
    simp [spend, hne]

/-- **What is used was reserved**, in every workflow that counts the session. -/
theorem reservedUnspent_spend (h : Sound pool t) (hcovered : t.Covered s amount)
    (hw : t.Within s amount) (c : Nat) :
    (t.spend s amount).reservedUnspent c +
      (if s ∈ (t.budget c).sessions then amount else 0) = t.reservedUnspent c := by
  have hbudget : (t.spend s amount).budget = t.budget := rfl
  have hlease : (t.spend s amount).lease = t.lease := rfl
  rw [reservedUnspent, reservedUnspent, hbudget]
  by_cases hc : s ∈ (t.budget c).sessions
  · obtain ⟨k, hk, hks, hamount⟩ := hw.heldIn h hcovered hc
    obtain ⟨hnodup, hown⟩ := h.leases c
    have hchange := sumOver_change (f := (t.spend s amount).leaseRemaining)
      (g := t.leaseRemaining) hk hnodup fun k' hk' hne => by
        have hnot : s ∉ (t.lease k').sessions := fun hs =>
          hne (h.apart k' k s hs hks ((hown k' hk').1.trans (hown k hk).1.symm))
        rw [leaseRemaining, leaseRemaining, hlease, sumOver_spend_of_notMem hnot]
    have hself : (t.spend s amount).leaseRemaining k = t.leaseRemaining k - amount := by
      rw [leaseRemaining, leaseRemaining, hlease, sumOver_spend_of_mem hks (h.once.2 k)]
      omega
    rw [if_pos hc]
    omega
  · rw [if_neg hc, Nat.add_zero]
    apply sumOver_congr
    intro k hk
    have hnot : s ∉ (t.lease k).sessions := fun hs => by
      have := h.counted k s hs
      rw [((h.leases c).2 k hk).1] at this
      exact hc this
    rw [leaseRemaining, leaseRemaining, hlease, sumOver_spend_of_notMem hnot]

theorem spent_spend (h : Sound pool t) (c : Nat) :
    (t.spend s amount).spent c =
      t.spent c + (if s ∈ (t.budget c).sessions then amount else 0) := by
  have hbudget : (t.spend s amount).budget = t.budget := rfl
  rw [spent, spent, hbudget]
  by_cases hc : s ∈ (t.budget c).sessions
  · rw [if_pos hc, sumOver_spend_of_mem hc (h.once.1 c)]
  · rw [if_neg hc, sumOver_spend_of_notMem hc, Nat.add_zero]

theorem slack_spend (h : Sound pool t) (hcovered : t.Covered s amount)
    (hw : t.Within s amount) (c : Nat) : (t.spend s amount).slack c = t.slack c := by
  have hreserved := reservedUnspent_spend h hcovered hw c
  have hspent : (t.spend s amount).spent c = _ := spent_spend h c
  have hbudget : (t.spend s amount).budget = t.budget := rfl
  rw [slack, slack, hbudget]
  omega

/-- What an allocation and the leases under it have left goes down alike. -/
theorem allocation_spend (h : Sound pool t) (hcovered : t.Covered s amount)
    (hw : t.Within s amount) {c p a : Nat}
    (hp : (t.budget c).parentAllocation = some (p, a)) :
    ((t.spend s amount).leaseRemaining a : Int) - (t.spend s amount).reservedUnspent c =
      t.leaseRemaining a - t.reservedUnspent c := by
  have hreserved := reservedUnspent_spend h hcovered hw c
  have hlease : (t.spend s amount).lease = t.lease := rfl
  have hsessions := (h.allocation c p a hp).2.2
  rw [leaseRemaining, hlease]
  by_cases hc : s ∈ (t.budget c).sessions
  · have hle := hcovered.le h hc hp
    rw [if_pos hc] at hreserved
    rw [sumOver_spend_of_mem (hsessions ▸ hc) (h.once.2 a)]
    rw [leaseRemaining] at hle ⊢
    omega
  · rw [if_neg hc] at hreserved
    rw [sumOver_spend_of_notMem (hsessions ▸ hc)]
    rw [leaseRemaining]
    omega

theorem Within.known (h : Sound pool t) (hw : t.Within s amount) : s < t.sessions := by
  obtain ⟨l, -, hs, -⟩ := hw
  exact (h.known _ s (h.counted l s hs)).2

/-- **Tokens used within a grant** change what is left nowhere. -/
theorem remaining_spend (h : Sound pool t) (hcovered : t.Covered s amount)
    (hw : t.Within s amount) (c : Nat) : (t.spend s amount).remaining c = t.remaining c := by
  have h' : Sound pool (t.spend s amount) := h.spend (hw.known h)
  have hbudget : (t.spend s amount).budget = t.budget := rfl
  induction c using Nat.strongRecOn with
  | ind c ih =>
      have hslack := slack_spend h hcovered hw c
      cases hp : (t.budget c).parentAllocation with
      | none => rw [remaining_root h hp, remaining_root h' hp, hslack]
      | some pa =>
          have hparent := ih pa.1 (h.parent c pa.1 pa.2 hp).1
          have hallocation := allocation_spend h hcovered hw hp
          rw [remaining_child h hp, remaining_child h' hp, hslack, hparent]
          omega

/-! ## whole runs -/

/-- What may happen next. -/
inductive Op where
  | acquire (b : Nat) (cap : Option Nat) (overBudgetOk : Bool) (share : Option Nat) (waiters : Nat)
  | candidateWorkflow (b : Nat) (budget share : Option Nat) (waiters : Nat)
  | refresh (b l : Nat)
  | release (b l : Nat)
  | trackSession (b : Nat) (active : Option Nat)
  | spend (s amount : Nat)

/-- The lease is that of a call of `b`, not the allocation of a candidate: only
`candidate_workflow` sees that one, and it does not refresh it. -/
def OfCall (t : Tree) (b l : Nat) : Prop :=
  l < t.granted ∧ (t.lease l).owner = b ∧ ¬ t.IsAllocation l

instance (t : Tree) (b l : Nat) : Decidable (t.OfCall b l) :=
  inferInstanceAs (Decidable (_ ∧ _ ∧ _))

/-- The operations are those of workflows, leases and sessions that exist. -/
def Allowed (t : Tree) : Op → Prop
  | .acquire b _ _ _ _ => b < t.workflows
  | .candidateWorkflow b _ _ _ => b < t.workflows
  | .refresh b l => t.OfCall b l
  | .release _ _ => True
  | .trackSession b none => b < t.workflows
  | .trackSession b (some l) => b < t.workflows ∧ t.OfCall b l
  | .spend s _ => s < t.sessions

def step (t : Tree) : Op → Tree
  | .acquire b cap overBudgetOk share waiters => t.acquire b cap overBudgetOk share waiters
  | .candidateWorkflow b budget share waiters => t.candidateWorkflow b budget share waiters
  | .refresh b l => t.refresh b l
  | .release b l => t.release b l
  | .trackSession b active => t.trackSession b active
  | .spend s amount => t.spend s amount

instance (t : Tree) : (op : Op) → Decidable (t.Allowed op)
  | .acquire b _ _ _ _ => inferInstanceAs (Decidable (b < t.workflows))
  | .candidateWorkflow b _ _ _ => inferInstanceAs (Decidable (b < t.workflows))
  | .refresh b l => inferInstanceAs (Decidable (t.OfCall b l))
  | .release _ _ => inferInstanceAs (Decidable True)
  | .trackSession b none => inferInstanceAs (Decidable (b < t.workflows))
  | .trackSession b (some l) => inferInstanceAs (Decidable (b < t.workflows ∧ t.OfCall b l))
  | .spend s _ => inferInstanceAs (Decidable (s < t.sessions))

/-- What a session uses stays within its grant. -/
def Op.Within (t : Tree) : Op → Prop
  | .spend s amount => t.Within s amount
  | _ => True

/-- The operations follow each other. -/
inductive Run (pool : Nat) : Tree → Prop
  | root : Run pool (root pool)
  | step {t : Tree} (op : Op) : Run pool t → t.Allowed op → Run pool (t.step op)

/-- A run in which every session stays within its grant. -/
inductive RunWithin (pool : Nat) : Tree → Prop
  | root : RunWithin pool (root pool)
  | step {t : Tree} (op : Op) : RunWithin pool t → t.Allowed op → op.Within t →
      RunWithin pool (t.step op)

theorem RunWithin.run (h : RunWithin pool t) : Run pool t := by
  induction h with
  | root => exact .root
  | step op _ hallowed _ ih => exact .step op ih hallowed

theorem Sound.root (pool : Nat) : Sound pool (Tree.root pool) := by
  have hbudget : ∀ c, (Tree.root pool).budget c = if c = 0 then { total := pool } else {} := by
    intro c
    simp only [Tree.root, Function.update_apply]
  have hlease : ∀ k, (Tree.root pool).lease k = {} := fun _ => rfl
  have hparent : ∀ c, ((Tree.root pool).budget c).parentAllocation = none := by
    intro c
    rw [hbudget]
    split <;> rfl
  have hsessions : ∀ c, ((Tree.root pool).budget c).sessions = [] := by
    intro c
    rw [hbudget]
    split <;> rfl
  have hleases : ∀ c, ((Tree.root pool).budget c).leases = [] := by
    intro c
    rw [hbudget]
    split <;> rfl
  constructor
  case rooted => exact ⟨by rw [hbudget]; rfl, Nat.one_pos⟩
  case unused => exact fun _ _ => rfl
  all_goals simp [hparent, hsessions, hleases, hlease]

/-- A reserved grant is at most what is left. -/
theorem le_of_grant {cap share : Option Nat} {ok : Bool} {waiters : Nat}
    (hgrant : t.grant b cap ok share waiters = .reserved total) :
    (total : Int) ≤ t.remaining b ∧ 0 < t.remaining b := by
  have hdiv : (t.remaining b).toNat / max 1 waiters ≤ (t.remaining b).toNat := Nat.div_le_self _ _
  simp only [grant] at hgrant
  by_cases hnone : (t.remaining b).toNat = 0
  · rw [if_pos hnone] at hgrant
    split at hgrant <;> cases hgrant
  · rw [if_neg hnone] at hgrant
    split at hgrant <;> cases hgrant <;> omega

/-- An escape is granted while none was. -/
theorem unused_of_grant {cap share : Option Nat} {ok : Bool} {waiters : Nat}
    (hgrant : t.grant b cap ok share waiters = .escaped) : t.escapeUsed = false := by
  simp only [grant] at hgrant
  split at hgrant
  · split at hgrant
    · simp_all
    · cases hgrant
  · split at hgrant <;> cases hgrant

theorem fresh_not_allocation (h : Sound pool t) :
    ¬ (t.newLease b total reserved kept).IsAllocation t.granted := by
  rintro ⟨c, hc, hp⟩
  rw [newLease_parentAllocation, Option.map_eq_some_iff] at hp
  obtain ⟨pa, hp, heq⟩ := hp
  have := (h.parent c pa.1 pa.2 hp).2.2
  omega

theorem Sound.withChild (h : Sound pool t) (hb : b < t.workflows) :
    Sound pool ((t.newLease b total reserved kept).newChild b t.granted) := by
  have hlease : (t.newLease b total reserved kept).lease t.granted =
      { total, reserved, owner := b } := by
    rw [newLease_lease, if_pos rfl]
  exact h.newLease.newChild hb (Nat.lt_succ_self _) (by rw [hlease]) (by rw [hlease])
    (fresh_not_allocation h)

theorem Allowed.active {active : Option Nat} (hallowed : t.Allowed (.trackSession b active)) :
    b < t.workflows ∧ ∀ l, active = some l →
      l < t.granted ∧ (t.lease l).owner = b ∧ ¬ t.IsAllocation l := by
  cases active with
  | none => exact ⟨hallowed, fun l hl => by cases hl⟩
  | some k =>
      refine ⟨hallowed.1, fun l hl => ?_⟩
      obtain rfl := Option.some.inj hl
      exact hallowed.2

theorem Sound.step (h : Sound pool t) {op : Op} (hallowed : t.Allowed op) :
    Sound pool (t.step op) := by
  cases op with
  | acquire b cap ok share waiters =>
      simp only [Tree.step, acquire]
      cases hgrant : t.grant b cap ok share waiters with
      | refused => exact h
      | reserved total => exact h.newLease
      | escaped => exact h.escape
  | candidateWorkflow b budget share waiters =>
      simp only [Tree.step, candidateWorkflow]
      cases t.grant b budget false share waiters with
      | refused => exact h
      | reserved total => exact h.withChild hallowed
      | escaped => exact h
  | refresh b l =>
      simp only [Tree.step, refresh]
      split
      · exact h
      · split
        · exact h.release
        · exact h.retotal hallowed.2.2
  | release b l => exact h.release
  | trackSession b active => exact h.trackSession hallowed.active.1 hallowed.active.2
  | spend s amount => exact h.spend hallowed

theorem Run.sound (h : Run pool t) : Sound pool t := by
  induction h with
  | root => exact .root pool
  | step op _ hallowed ih => exact ih.step hallowed

/-- **acquire**: a reserved grant leaves no workflow that had something with less
than nothing. -/
theorem acquire_nonneg (h : Sound pool t) {cap share : Option Nat} {ok : Bool} {waiters : Nat}
    (hgrant : t.grant b cap ok share waiters = .reserved total) {c : Nat}
    (hc : 0 ≤ t.remaining c) : 0 ≤ (t.acquire b cap ok share waiters).remaining c := by
  have hle := (le_of_grant hgrant).1
  simp only [acquire, hgrant]
  rw [remaining_newLease h hle]
  by_cases hcb : c = b
  · rw [if_pos hcb, hcb]
    omega
  · rw [if_neg hcb]
    omega

/-- **refresh**: a lease that is refreshed takes no more than it had. -/
theorem refresh_le (h : Sound pool t) (hl : ¬ t.IsAllocation l) (c : Nat) :
    t.remaining c ≤ (t.refresh b l).remaining c := by
  rw [refresh]
  split
  · exact Int.le_refl _
  · split
    · exact remaining_mono h h.release fun d _ => release_eases d
    · exact remaining_mono h (h.retotal hl) fun d _ =>
        retotal_eases h hl (Nat.min_le_left _ _) d

theorem Solvent.withChild (h : Sound pool t) (hsolvent : t.Solvent) (hb : b < t.workflows)
    (htotal : (total : Int) ≤ t.remaining b) :
    ((t.newLease b total reserved true).newChild b t.granted).Solvent := by
  have h₁ : Sound pool (t.newLease b total reserved true) := h.newLease
  have h₂ : Sound pool ((t.newLease b total reserved true).newChild b t.granted) := h.withChild hb
  have hnew : ∀ c < t.workflows, 0 ≤ (t.newLease b total reserved true).remaining c := by
    intro c hc
    have := hsolvent c hc
    rw [remaining_newLease h htotal]
    by_cases hcb : c = b
    · rw [if_pos hcb, hcb]
      omega
    · rw [if_neg hcb]
      omega
  have hold : ∀ c < t.workflows,
      0 ≤ ((t.newLease b total reserved true).newChild b t.granted).remaining c := by
    intro c hc
    have hle := remaining_mono h₁ h₂ (c := c) fun d hd => newChild_eases (Nat.lt_of_le_of_lt hd hc)
    exact Int.le_trans (hnew c hc) hle
  intro c hc
  by_cases hcw : c = t.workflows
  · rw [hcw]
    exact remaining_newChild h₂ (hold b hb)
  · exact hold c (by simp at hc; omega)

/-- While sessions stay within their grants, no workflow has less than nothing left. -/
theorem Solvent.step (h : Sound pool t) (hsolvent : t.Solvent) {op : Op}
    (hallowed : t.Allowed op) (hwithin : op.Within t) : (t.step op).Solvent := by
  cases op with
  | acquire b cap ok share waiters =>
      cases hgrant : t.grant b cap ok share waiters with
      | refused => simpa only [Tree.step, acquire, hgrant] using hsolvent
      | reserved total =>
          intro c hc
          simp only [Tree.step, acquire, hgrant, newLease_workflows] at hc
          exact acquire_nonneg h hgrant (hsolvent c hc)
      | escaped =>
          simp only [Tree.step, acquire, hgrant]
          exact fun c hc => Int.le_trans (hsolvent c hc)
            (remaining_mono h (h.escape) fun d _ => escape_eases h d)
  | candidateWorkflow b budget share waiters =>
      simp only [Tree.step, candidateWorkflow]
      cases hgrant : t.grant b budget false share waiters with
      | refused => exact hsolvent
      | reserved total => exact Solvent.withChild h hsolvent hallowed (le_of_grant hgrant).1
      | escaped => exact hsolvent
  | refresh b l =>
      intro c hc
      have hworkflows : (t.refresh b l).workflows = t.workflows := by
        rw [refresh]
        split
        · rfl
        · split <;> rfl
      simp only [Tree.step, hworkflows] at hc
      exact Int.le_trans (hsolvent c hc) (refresh_le h hallowed.2.2 c)
  | release b l =>
      exact fun c hc => Int.le_trans (hsolvent c hc)
        (remaining_mono h h.release fun d _ => release_eases d)
  | trackSession b active =>
      obtain ⟨hb, hactive⟩ := Allowed.active hallowed
      intro c hc
      have hworkflows : (t.trackSession b active).workflows = t.workflows := by
        obtain ⟨-, -, budget, lease, hrest⟩ := trackSession_spec h b active
          fun l hl ⟨c, _, p, hp⟩ => (hactive l hl).2.2 ⟨c, (h.parent c p l hp).2.1, by simp [hp]⟩
        rw [hrest]
        rfl
      simp only [Tree.step, hworkflows] at hc
      exact Int.le_trans (hsolvent c hc) (remaining_mono h (h.trackSession hb hactive)
        fun d _ => trackSession_eases h (fun l hl => (hactive l hl).2.2) d)
  | spend s amount =>
      intro c hc
      simp only [Tree.step]
      rw [remaining_spend h (hsolvent.covered h hwithin) hwithin]
      exact hsolvent c hc

theorem RunWithin.solvent (h : RunWithin pool t) : t.Solvent := by
  induction h with
  | root =>
      intro c hc
      have hc0 : c = 0 := by simpa [Tree.root] using hc
      have hparent : ((Tree.root pool).budget 0).parentAllocation = none := rfl
      rw [hc0, remaining_root (Sound.root pool) hparent]
      exact Int.natCast_nonneg pool
  | step op hrun hallowed hwithin ih => exact ih.step hrun.run.sound hallowed hwithin

/-! ## the escape -/

theorem escapeUsed_trackSession (b : Nat) (active : Option Nat) :
    (t.trackSession b active).escapeUsed = t.escapeUsed := by
  obtain ⟨budget, lease, hrest⟩ := trackUpTo_rest t.sessions (b + 1) b (t.newSession b)
  unfold trackSession
  rw [hrest]
  cases active with
  | none => rfl
  | some l => rfl

/-- An escape stays used. -/
theorem escapeUsed_step (hused : t.escapeUsed = true) (op : Op) :
    (t.step op).escapeUsed = true := by
  cases op with
  | acquire b cap ok share waiters =>
      simp only [Tree.step, acquire]
      cases t.grant b cap ok share waiters with
      | refused => exact hused
      | reserved total => exact hused
      | escaped => rfl
  | candidateWorkflow b budget share waiters =>
      simp only [Tree.step, candidateWorkflow]
      cases t.grant b budget false share waiters with
      | refused => exact hused
      | reserved total => exact hused
      | escaped => exact hused
  | refresh b l =>
      simp only [Tree.step, refresh]
      split
      · exact hused
      · split <;> exact hused
  | release b l => exact hused
  | trackSession b active => exact (escapeUsed_trackSession b active).trans hused
  | spend s amount => exact hused

/-- A later state of the tree. -/
def Later (t t' : Tree) : Prop :=
  Relation.ReflTransGen (fun t t' => ∃ op, t.Allowed op ∧ t' = t.step op) t t'

/-- **After an escape no other is granted.** -/
theorem escaped_once {cap share : Option Nat} {ok : Bool} {waiters : Nat}
    (hgrant : t.grant b cap ok share waiters = .escaped)
    (hlater : (t.acquire b cap ok share waiters).Later t') (b' : Nat)
    (cap' share' : Option Nat) (ok' : Bool) (waiters' : Nat) :
    t'.grant b' cap' ok' share' waiters' ≠ .escaped := by
  have hfirst : (t.acquire b cap ok share waiters).escapeUsed = true := by
    rw [acquire, hgrant]
    rfl
  have hused : t'.escapeUsed = true := by
    induction hlater with
    | refl => exact hfirst
    | tail _ hstep ih =>
        obtain ⟨op, -, rfl⟩ := hstep
        exact escapeUsed_step ih op
  intro hagain
  rw [unused_of_grant hagain] at hused
  contradiction

/-- **Leases do not oversubscribe**, in every run:

* a reserved grant leaves no workflow that had something with less than nothing, and
  refreshing a lease of a call costs no workflow anything;
* tokens used within a grant that the allocations above still cover change `remaining`
  nowhere, since a session counts once at every level;
* a candidate has not more left than its parent and its allocation have;
* behind an escape no other is granted;
* while sessions stay within their grants, the root spends its pool at most. -/
theorem leases_within_pool (h : Run pool t) :
    (∀ b cap ok share waiters total, t.grant b cap ok share waiters = .reserved total →
      ∀ c, 0 ≤ t.remaining c → 0 ≤ (t.acquire b cap ok share waiters).remaining c) ∧
    (∀ b l, t.OfCall b l → ∀ c, t.remaining c ≤ (t.refresh b l).remaining c) ∧
    (∀ s amount, t.Within s amount → t.Covered s amount →
      ∀ c, (t.spend s amount).remaining c = t.remaining c) ∧
    (∀ c, (t.budget c).sessions.Nodup) ∧
    (∀ c p a, (t.budget c).parentAllocation = some (p, a) →
      t.remaining c ≤ t.remaining p + t.leaseRemaining a) ∧
    (∀ (t₀ : Tree) b cap ok share waiters, t₀.grant b cap ok share waiters = .escaped →
      (t₀.acquire b cap ok share waiters).Later t →
      ∀ b' cap' ok' share' waiters', t.grant b' cap' ok' share' waiters' ≠ .escaped) ∧
    (RunWithin pool t → t.Solvent ∧ t.spent 0 ≤ pool) := by
  have hsound := h.sound
  refine ⟨fun b cap ok share waiters total hgrant c hc => acquire_nonneg hsound hgrant hc,
    fun b l hl c => refresh_le hsound hl.2.2 c,
    fun s amount hw hcovered c => remaining_spend hsound hcovered hw c,
    hsound.once.1, fun c p a hp => ?_,
    fun t₀ b cap ok share waiters hgrant hlater b' cap' ok' share' waiters' =>
      escaped_once hgrant hlater b' cap' share' ok' waiters', fun hrun => ?_⟩
  · rw [remaining_child hsound hp]
    omega
  · have hsolvent := hrun.solvent
    have hroot := hsolvent 0 hsound.rooted.2
    rw [hsolvent.remaining_eq hsound, slack, hsound.rooted.1] at hroot
    exact ⟨hsolvent, by omega⟩

/-! ## samples -/

def runAll (t : Tree) (ops : List Op) : Tree := ops.foldl step t

def allowedAll (t : Tree) : List Op → Bool
  | [] => true
  | op :: ops => decide (t.Allowed op) && (t.step op).allowedAll ops

theorem Run.all (h : Run pool t) (ops : List Op) (hops : t.allowedAll ops = true) :
    Run pool (t.runAll ops) := by
  induction ops generalizing t with
  | nil => exact h
  | cons op ops ih =>
      rw [allowedAll, Bool.and_eq_true, decide_eq_true_eq] at hops
      exact ih (h.step op hops.1) hops.2

/-- A call and a candidate of the root, and a session under a call of the candidate. -/
def sample : List Op :=
  [.acquire 0 (some 60) false none 1, .candidateWorkflow 0 (some 30) none 1,
    .acquire 1 (some 20) false none 1, .trackSession 1 (some 2)]

theorem sample_within : RunWithin 100 ((root 100).runAll sample) := by
  have h₁ : RunWithin 100 _ := .step (.acquire 0 (some 60) false none 1) .root (by decide) trivial
  have h₂ := h₁.step (.candidateWorkflow 0 (some 30) none 1) (by decide +kernel) trivial
  have h₃ := h₂.step (.acquire 1 (some 20) false none 1) (by decide +kernel) trivial
  exact h₃.step (.trackSession 1 (some 2)) (by decide +kernel) trivial

theorem leases_within_pool_sample :
    (((root 100).runAll sample).spend 0 15).remaining 0 = 10 ∧
      ((root 100).runAll sample).remaining 1 ≤ 10 + 30 ∧
      ((root 100).runAll sample).spent 0 ≤ 100 := by
  have hroot : Run 100 (root 100) := .root
  obtain ⟨-, -, hspend, -, hchild, -, hwithin⟩ :=
    leases_within_pool (hroot.all sample (by decide +kernel))
  exact ⟨(hspend 0 15 (by decide +kernel) (by decide +kernel) 0).trans (by decide +kernel),
    hchild 1 0 1 (by decide +kernel), (hwithin sample_within).2⟩

/-- A lease is released before its session is done. -/
def releasedEarly : List Op :=
  [.acquire 0 (some 60) false none 1, .trackSession 0 (some 0), .release 0 0]

/-- One of two sessions of a candidate has used more than its grant. -/
def overspent : List Op :=
  [.candidateWorkflow 0 (some 100) none 1, .acquire 1 (some 50) false none 1,
    .acquire 1 (some 50) false none 1, .trackSession 1 (some 1), .trackSession 1 (some 2),
    .spend 0 80]

/-- The allocation of a candidate is refreshed after its session used 40, and the
candidate reserves what its own total still allows. -/
def reallocated : List Op :=
  [.candidateWorkflow 0 (some 100) none 1, .acquire 1 (some 40) false none 1,
    .trackSession 1 (some 1), .spend 0 40, .refresh 0 0, .release 1 1,
    .acquire 1 (some 60) false none 1]

/-- Tokens used within a lease lower `remaining` where the lease was released, or where
a sibling has overspent; and a workflow grants what a candidate has reserved, once the
candidate's allocation was refreshed. -/
theorem leases_oversubscribe :
    (Run 100 ((root 100).runAll releasedEarly) ∧
      0 ∈ (((root 100).runAll releasedEarly).lease 0).sessions ∧
      ((root 100).runAll releasedEarly).leaseRemaining 0 = 60 ∧
      ((root 100).runAll releasedEarly).remaining 0 = 100 ∧
      (((root 100).runAll releasedEarly).spend 0 10).remaining 0 = 90) ∧
    (Run 200 ((root 200).runAll overspent) ∧
      1 ∈ (((root 200).runAll overspent).lease 2).sessions ∧
      ((root 200).runAll overspent).leaseRemaining 2 = 50 ∧
      ((root 200).runAll overspent).remaining 0 = 100 ∧
      (((root 200).runAll overspent).spend 1 50).remaining 0 = 70) ∧
    (((root 100).runAll reallocated).grant 0 (some 40) false none 1 = .reserved 40 ∧
      ((root 100).runAll reallocated).remaining 1 = 0 ∧
      (((root 100).runAll reallocated).acquire 0 (some 40) false none 1).remaining 1 = -40) := by
  have hroot : Run 100 (root 100) := .root
  have hroot' : Run 200 (root 200) := .root
  exact ⟨⟨hroot.all releasedEarly (by decide +kernel), by decide +kernel⟩,
    ⟨hroot'.all overspent (by decide +kernel), by decide +kernel⟩, by decide +kernel⟩

end Tree

end OpenCollab.Pools
