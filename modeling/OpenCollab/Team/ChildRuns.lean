import OpenCollab.Lib.Tally
import OpenCollab.Session.World

/-!
# OpenCollab.Team.ChildRuns

The workflows a team member launches as child runs (`bootstrap/authored_workflow.py`,
`bootstrap/authored_workflow_bridge.py`): what they spend is charged to the member, and
what a running one may still spend is reserved.

Three sources report what a child has spent: the `usage.json` it writes, its result
file, and the completions its bridge has served.  The first two are charged when they
are read, the bridge's count when the run is settled.

* `accountUsage_spec` — the one place where a report is charged;
* `step_change` — what an event can do: move one child and charge what it spent, enter
  a child, or charge the member's own call;
* `used_run`, `run_largest` — over a run the member's counter grows by what the
  children's charged totals grow by, and of every child the larger of its two counts is
  the largest total that any source has reported;
* `kept_run` — what holds as long as no last accounting is broken off.

A child is its position in the order of launches.  The events of different children,
of launches and of the member's own calls come in any order; a launch takes its look at
the budget and enters its child in two separate events.
-/

namespace OpenCollab.ChildRuns

/-! ## data -/

/-- `"running"`. -/
def RUNNING : Json := .str "running"
def STOPPED : Json := .str "stopped"
def FAILED : Json := .str "failed"

/-- Where a child's `_execute` stands: in its loop, in its `finally` block with the
status it will take, or past it. -/
inductive Stage where
  | polling
  | closing (status : Json)
  | settled
deriving DecidableEq

/-- `_Child`, with the count of its bridge. -/
structure Child where
  budget : Option Nat
  status : Json := RUNNING
  tokens : Nat := 0
  bridgeTokens : Nat := 0
  stage : Stage := .polling
deriving DecidableEq

/-- What the child's part of `_reserved_tokens` is. -/
def Child.reserved (c : Child) : Nat :=
  if c.status = RUNNING then c.budget.getD 0 - c.tokens else 0

/-- The member: its token ceiling, its used tokens, its children, and the budget of
the launch that holds the launch lock. -/
structure Member where
  ceiling : Option Int
  used : Nat := 0
  children : List Child := []
  launching : Option (Option Nat) := none
deriving DecidableEq

/-- `usage.json`, as a read finds it. -/
inductive UsageFile where
  | missing
  | unreadable
  | total (tokens : Json)
deriving DecidableEq

/-- How the process of a child ends.  A result file may lack its status. -/
inductive Exit where
  | cancelled
  | failure
  | result (tokens : Json) (status : Option Json)
deriving DecidableEq

/-- What can happen next. -/
inductive Event where
  | check (budget : Json)
  | register
  | abandon
  | poll (i : Nat) (file : UsageFile)
  | served (i : Nat) (usage : Usage)
  | exit (i : Nat) (outcome : Exit)
  | settle (i : Nat) (cleanupFailed bridgeFailed : Bool) (file : UsageFile)
  | persistenceFailed (i : Nat)
  | spend (tokens : Nat)
deriving DecidableEq

namespace Member

/-! ## the code -/

/-- `_reserved_tokens`. -/
def reservedTokens (m : Member) : Nat := (m.children.map Child.reserved).sum

/-- `remaining_budget_tokens`. -/
def remaining (m : Member) : Option Int :=
  m.ceiling.map fun ceiling => ceiling - m.used - m.reservedTokens

/-- The budget `_launch` gives a child; `none` when it raises. -/
def launchBudget (m : Member) (budget : Json) : Option (Option Nat) :=
  match budget with
  | .null => match m.remaining with
      | none => some none
      | some remaining => if remaining ≤ 0 then none else some (some (max 1 (remaining / 2)).toNat)
  | .int n =>
      if n < 1 then none
      else match m.remaining with
        | none => some (some n.toNat)
        | some remaining => if remaining ≤ 0 then none else some (some (min n remaining).toNat)
  | _ => none

/-- `child` takes the place of child `i`. -/
def put (m : Member) (i : Nat) (child : Child) : Member :=
  { m with children := m.children.set i child }

/-- `_account_usage`; `none` when it raises. -/
def accountUsage (m : Member) (i : Nat) (tokens : Json) : Option Member :=
  match m.children[i]?, tokens with
  | some c, .int n =>
      if n < c.tokens then none
      else some { m.put i { c with tokens := n.toNat } with used := m.used + (n.toNat - c.tokens) }
  | _, _ => none

/-- `_refresh_usage`. -/
def refreshUsage (m : Member) (i : Nat) : UsageFile → Option Member
  | .missing => some m
  | .unreadable => none
  | .total tokens => m.accountUsage i tokens

/-- The child enters its `finally` block. -/
def close (m : Member) (i : Nat) (status : Json) : Member :=
  match m.children[i]? with
  | none => m
  | some c => m.put i { c with stage := .closing status }

/-- The child leaves its `finally` block. -/
def finish (m : Member) (i : Nat) (status : Json) : Member :=
  match m.children[i]? with
  | none => m
  | some c => m.put i { c with stage := .settled, status }

/-- The end of the process, up to the `finally` block. -/
def leave (m : Member) (i : Nat) : Exit → Member
  | .cancelled => m.close i STOPPED
  | .failure => m.close i FAILED
  | .result tokens status =>
      match m.accountUsage i tokens with
      | none => m.close i FAILED
      | some m' => m'.close i (status.getD FAILED)

/-- The last accounting of a child: its file, and then the count of its bridge. -/
def lastAccount (m : Member) (i : Nat) (bridgeFailed : Bool) (file : UsageFile) :
    Option Member := do
  if bridgeFailed then none
  else
    let m ← m.refreshUsage i file
    let c ← m.children[i]?
    m.accountUsage i (.int (max c.tokens c.bridgeTokens))

/-- The `finally` block.  A file that is refused may have been charged by no one, and
neither is the bridge's count then. -/
def settle (m : Member) (i : Nat) (status : Json) (bridgeFailed : Bool) (file : UsageFile) :
    Member :=
  match m.lastAccount i bridgeFailed file with
  | none => m.finish i FAILED
  | some m' => m'.finish i status

/-- One event; `none` when it cannot happen in this state. -/
def step (m : Member) : Event → Option Member
  | .check budget =>
      if m.launching = none then some { m with launching := m.launchBudget budget } else none
  | .register =>
      match m.launching with
      | none => none
      | some budget => some { m with children := m.children ++ [{ budget }], launching := none }
  | .abandon => if m.launching = none then none else some { m with launching := none }
  | .poll i file =>
      match m.children[i]? with
      | some ⟨_, _, _, _, .polling⟩ => some ((m.refreshUsage i file).getD (m.close i FAILED))
      | _ => none
  | .served i usage =>
      match m.children[i]? with
      | none => none
      | some c =>
          if c.stage = .settled then none
          else match normalizeCompletionUsage usage with
            | none => some m
            | some (_, total) => some (m.put i { c with bridgeTokens := c.bridgeTokens + total })
  | .exit i outcome =>
      match m.children[i]? with
      | some ⟨_, _, _, _, .polling⟩ => some (m.leave i outcome)
      | _ => none
  | .settle i cleanupFailed bridgeFailed file =>
      match m.children[i]? with
      | some ⟨_, _, _, _, .closing status⟩ =>
          some (m.settle i (if cleanupFailed then FAILED else status) bridgeFailed file)
      | _ => none
  | .persistenceFailed i =>
      match m.children[i]? with
      | some ⟨budget, _, tokens, bridgeTokens, .settled⟩ =>
          some (m.put i ⟨budget, FAILED, tokens, bridgeTokens, .settled⟩)
      | _ => none
  | .spend tokens => some { m with used := m.used + tokens }

/-- A run of events. -/
def run (m : Member) : List Event → Option Member
  | [] => some m
  | e :: events => (m.step e).bind fun m' => m'.run events

end Member

/-! ## what an event does to a child -/

/-- The total a child has after a read of its file; `none` when the read raises. -/
def Child.read (c : Child) : UsageFile → Option Nat
  | .missing => some c.tokens
  | .total (.int n) => if n < c.tokens then none else some n.toNat
  | _ => none

/-- The child an event is about. -/
def Event.child? : Event → Option Nat
  | .poll i _ | .served i _ | .exit i _ | .settle i _ _ _ | .persistenceFailed i => some i
  | _ => none

/-- The stage in which an event of a child comes. -/
def Child.Allows (c : Child) : Event → Prop
  | .poll _ _ | .exit _ _ => c.stage = .polling
  | .served _ _ => c.stage ≠ .settled
  | .settle _ _ _ _ => ∃ status, c.stage = .closing status
  | .persistenceFailed _ => c.stage = .settled
  | _ => False

/-- The status a closing child is about to take. -/
def Child.next (c : Child) : Json :=
  match c.stage with
  | .closing status => status
  | _ => c.status

/-- What the event makes of the child. -/
def Child.after (c : Child) : Event → Child
  | .poll _ file =>
      match c.read file with
      | none => { c with stage := .closing FAILED }
      | some total => { c with tokens := total }
  | .served _ usage =>
      match normalizeCompletionUsage usage with
      | none => c
      | some (_, total) => { c with bridgeTokens := c.bridgeTokens + total }
  | .exit _ .cancelled => { c with stage := .closing STOPPED }
  | .exit _ .failure => { c with stage := .closing FAILED }
  | .exit _ (.result tokens status) =>
      match c.read (.total tokens) with
      | none => { c with stage := .closing FAILED }
      | some total => { c with tokens := total, stage := .closing (status.getD FAILED) }
  | .settle _ cleanupFailed bridgeFailed file =>
      match (if bridgeFailed then none else c.read file) with
      | none => { c with stage := .settled, status := FAILED }
      | some total =>
          { c with
            tokens := max total c.bridgeTokens, stage := .settled,
            status := if cleanupFailed then FAILED else c.next }
  | .persistenceFailed _ => { c with status := FAILED }
  | _ => c

theorem Child.le_read {c : Child} {file : UsageFile} {total : Nat} (h : c.read file = some total) :
    c.tokens ≤ total := by
  unfold read at h
  split at h
  · exact Nat.le_of_eq (Option.some.inj h)
  · split at h
    · cases h
    · have := Option.some.inj h
      omega
  · cases h

/-- No event takes tokens back. -/
theorem Child.tokens_le_after (c : Child) (e : Event) : c.tokens ≤ (c.after e).tokens := by
  cases e with
  | poll i file =>
      simp only [after]
      cases hr : c.read file with
      | none => exact Nat.le_refl _
      | some total => exact le_read hr
  | served i usage =>
      simp only [after]
      split <;> exact Nat.le_refl _
  | exit i outcome =>
      cases outcome with
      | result tokens status =>
          simp only [after]
          cases hr : c.read (.total tokens) with
          | none => exact Nat.le_refl _
          | some total => exact le_read hr
      | _ => exact Nat.le_refl _
  | settle i cleanupFailed bridgeFailed file =>
      cases bridgeFailed with
      | true => exact Nat.le_refl _
      | false =>
          simp only [after, Bool.false_eq_true, if_false]
          cases hr : c.read file with
          | none => exact Nat.le_refl _
          | some total =>
              have := le_read hr
              simp only
              omega
  | _ => exact Nat.le_refl _

namespace Member

variable {m m' : Member} {i : Nat} {c c' : Child} {e : Event}

/-- Child `i` goes from `c` to `c'`, and what it has spent more is charged. -/
def moved (m : Member) (i : Nat) (c c' : Child) : Member :=
  { m.put i c' with used := m.used + (c'.tokens - c.tokens) }

theorem lt_of_child (hc : m.children[i]? = some c) : i < m.children.length :=
  (List.getElem?_eq_some_iff.mp hc).1

@[simp] theorem children_moved (m : Member) (i : Nat) (c c' : Child) :
    (m.moved i c c').children = m.children.set i c' := rfl

@[simp] theorem used_moved (m : Member) (i : Nat) (c c' : Child) :
    (m.moved i c c').used = m.used + (c'.tokens - c.tokens) := rfl

theorem child_moved (hc : m.children[i]? = some c) : (m.moved i c c').children[i]? = some c' := by
  simp [lt_of_child hc]

theorem moved_self (hc : m.children[i]? = some c) : m.moved i c c = m := by
  obtain ⟨hi, hget⟩ := List.getElem?_eq_some_iff.mp hc
  subst hget
  simp [moved, put]

theorem put_eq_moved (h : c'.tokens = c.tokens) : m.put i c' = m.moved i c c' := by
  simp [moved, put, h]

/-- Two charges in a row are one. -/
theorem moved_moved {d : Child} (h : c.tokens ≤ c'.tokens) (h' : c'.tokens ≤ d.tokens) :
    (m.moved i c c').moved i c' d = m.moved i c d := by
  simp only [moved, put, List.set_set, Member.mk.injEq, true_and, and_true]
  omega

/-- **`_account_usage`** charges what a valid total adds, and refuses any other. -/
theorem accountUsage_spec (hc : m.children[i]? = some c) (tokens : Json) :
    m.accountUsage i tokens =
      (c.read (.total tokens)).map fun total => m.moved i c { c with tokens := total } := by
  cases tokens with
  | int n =>
      simp only [accountUsage, hc, Child.read]
      by_cases hlt : n < c.tokens
      · simp [hlt]
      · simp [hlt, moved]
  | _ => simp [accountUsage, hc, Child.read]

theorem refreshUsage_spec (hc : m.children[i]? = some c) (file : UsageFile) :
    m.refreshUsage i file =
      (c.read file).map fun total => m.moved i c { c with tokens := total } := by
  cases file with
  | missing => simp [refreshUsage, Child.read, moved_self hc]
  | unreadable => rfl
  | total tokens => exact accountUsage_spec hc tokens

theorem close_eq (hc : m.children[i]? = some c) (status : Json) :
    m.close i status = m.moved i c { c with stage := .closing status } := by
  simp only [close, hc]
  exact put_eq_moved rfl

theorem finish_eq (hc : m.children[i]? = some c) (status : Json) :
    m.finish i status = m.moved i c { c with stage := .settled, status } := by
  simp only [finish, hc]
  exact put_eq_moved rfl

/-- One turn of the loop, as a move of the child. -/
theorem poll_eq (hc : m.children[i]? = some c) (file : UsageFile) :
    (m.refreshUsage i file).getD (m.close i FAILED) = m.moved i c (c.after (.poll i file)) := by
  simp only [refreshUsage_spec hc, Child.after]
  cases c.read file with
  | none => exact close_eq hc FAILED
  | some total => rfl

/-- The end of the process, as a move of the child. -/
theorem leave_eq (hc : m.children[i]? = some c) (outcome : Exit) :
    m.leave i outcome = m.moved i c (c.after (.exit i outcome)) := by
  cases outcome with
  | cancelled => exact close_eq hc STOPPED
  | failure => exact close_eq hc FAILED
  | result tokens status =>
      simp only [leave, accountUsage_spec hc, Child.after]
      cases hr : c.read (.total tokens) with
      | none => exact close_eq hc FAILED
      | some total =>
          simp only [Option.map_some]
          rw [close_eq (child_moved hc)]
          exact moved_moved (Child.le_read hr) (Nat.le_refl _)

/-- The last accounting, as a move of the child. -/
theorem lastAccount_eq (hc : m.children[i]? = some c) (bridgeFailed : Bool) (file : UsageFile) :
    m.lastAccount i bridgeFailed file =
      (if bridgeFailed then none else c.read file).map fun total =>
        m.moved i c { c with tokens := max total c.bridgeTokens } := by
  cases bridgeFailed with
  | true => rfl
  | false =>
      simp only [lastAccount, Bool.false_eq_true, if_false, refreshUsage_spec hc]
      cases hr : c.read file with
      | none => rfl
      | some total =>
          have hle := Child.le_read hr
          have hread : Child.read { c with tokens := total }
              (.total (.int (max (total : Int) (c.bridgeTokens : Int)))) =
                some (max total c.bridgeTokens) := by
            have hnot : ¬ max (total : Int) (c.bridgeTokens : Int) < (total : Int) := by omega
            have hnat : (max (total : Int) (c.bridgeTokens : Int)).toNat =
                max total c.bridgeTokens := by omega
            simp only [Child.read]
            rw [if_neg hnot, hnat]
          simp only [Option.map_some, Option.bind_eq_bind, Option.bind_some, child_moved hc,
            accountUsage_spec (child_moved hc), hread]
          rw [moved_moved hle (by simp only; omega)]

/-- The `finally` block, as a move of the child. -/
theorem settle_eq (hc : m.children[i]? = some c) {status : Json} (hs : c.stage = .closing status)
    (cleanupFailed bridgeFailed : Bool) (file : UsageFile) :
    m.settle i (if cleanupFailed then FAILED else status) bridgeFailed file =
      m.moved i c (c.after (.settle i cleanupFailed bridgeFailed file)) := by
  have hnext : c.next = status := by simp [Child.next, hs]
  simp only [settle, lastAccount_eq hc, Child.after, hnext]
  cases hr : (if bridgeFailed then none else c.read file) with
  | none => exact finish_eq hc FAILED
  | some total =>
      have hle : c.tokens ≤ total := by
        cases bridgeFailed with
        | true => cases hr
        | false => exact Child.le_read hr
      simp only [Option.map_some]
      have hmax : c.tokens ≤ max total c.bridgeTokens := by omega
      rw [finish_eq (child_moved hc)]
      exact moved_moved hmax (Nat.le_refl _)

/-- What an event can do to the member. -/
inductive Change (m : Member) : Event → Member → Prop where
  | check (budget : Json) (h : m.launching = none) :
      Change m (.check budget) { m with launching := m.launchBudget budget }
  | register {budget : Option Nat} (h : m.launching = some budget) :
      Change m .register { m with children := m.children ++ [{ budget }], launching := none }
  | abandon : Change m .abandon { m with launching := none }
  | child {e : Event} {i : Nat} {c : Child} (he : e.child? = some i)
      (hc : m.children[i]? = some c) (ha : c.Allows e) : Change m e (m.moved i c (c.after e))
  | spend (tokens : Nat) : Change m (.spend tokens) { m with used := m.used + tokens }

/-- **Every event** changes the launch lock, enters a child, moves one child and charges
what it spent, or charges the member's own call. -/
theorem step_change (h : m.step e = some m') : Change m e m' := by
  cases e with
  | check budget =>
      simp only [step] at h
      by_cases hl : m.launching = none
      · rw [if_pos hl] at h
        cases h
        exact .check budget hl
      · rw [if_neg hl] at h
        cases h
  | register =>
      simp only [step] at h
      cases hl : m.launching with
      | none => simp [hl] at h
      | some budget =>
          simp only [hl, Option.some.injEq] at h
          subst h
          exact .register hl
  | abandon =>
      simp only [step] at h
      by_cases hl : m.launching = none
      · rw [if_pos hl] at h
        cases h
      · rw [if_neg hl] at h
        cases h
        exact .abandon
  | poll i file =>
      simp only [step] at h
      split at h
      case h_2 => cases h
      case h_1 budget status tokens bridgeTokens hc =>
        cases h
        rw [poll_eq hc]
        exact Change.child (e := .poll i file) rfl hc rfl
  | served i usage =>
      simp only [step] at h
      cases hc : m.children[i]? with
      | none => simp [hc] at h
      | some c =>
          simp only [hc] at h
          by_cases hs : c.stage = .settled
          · simp [hs] at h
          simp only [hs, if_false] at h
          have hmove := Change.child (e := .served i usage) rfl hc hs
          cases hu : normalizeCompletionUsage usage with
          | none =>
              simp only [hu, Option.some.injEq] at h
              simp only [Child.after, hu, moved_self hc] at hmove
              exact h ▸ hmove
          | some total =>
              simp only [hu, Option.some.injEq] at h
              simp only [Child.after, hu] at hmove
              rw [← h, put_eq_moved rfl]
              exact hmove
  | exit i outcome =>
      simp only [step] at h
      split at h
      case h_2 => cases h
      case h_1 budget status tokens bridgeTokens hc =>
        cases h
        rw [leave_eq hc]
        exact Change.child (e := .exit i outcome) rfl hc rfl
  | settle i cleanupFailed bridgeFailed file =>
      simp only [step] at h
      split at h
      case h_2 => cases h
      case h_1 budget status tokens bridgeTokens next hc =>
        cases h
        rw [settle_eq hc rfl]
        exact Change.child (e := .settle i cleanupFailed bridgeFailed file) rfl hc ⟨next, rfl⟩
  | persistenceFailed i =>
      simp only [step] at h
      split at h
      case h_2 => cases h
      case h_1 budget status tokens bridgeTokens hc =>
        cases h
        have hmove := Change.child (e := .persistenceFailed i) rfl hc rfl
        have hput : m.put i ⟨budget, FAILED, tokens, bridgeTokens, .settled⟩ =
            m.moved i ⟨budget, status, tokens, bridgeTokens, .settled⟩
              ⟨budget, FAILED, tokens, bridgeTokens, .settled⟩ := put_eq_moved rfl
        rw [hput]
        exact hmove
  | spend tokens =>
      simp only [step, Option.some.injEq] at h
      subst h
      exact .spend tokens
/-! ## counters over a run -/

/-- The total an event reports for child `i` and that is accepted. -/
def accepted (m : Member) (e : Event) (i : Nat) : Option Nat :=
  if e.child? = some i then
    match m.children[i]?, e with
    | some c, .poll _ (.total tokens) => c.read (.total tokens)
    | some c, .exit _ (.result tokens _) => c.read (.total tokens)
    | some c, .settle _ _ false (.total tokens) => c.read (.total tokens)
    | some c, .served _ usage =>
        (normalizeCompletionUsage usage).map fun counts => c.bridgeTokens + counts.2
    | _, _ => none
  else none

/-- The largest total that any source reported for child `i` in a run and that was
accepted; the bridge reports the sum of what it has served. -/
def largest (m : Member) : List Event → Nat → Nat
  | [], _ => 0
  | e :: events, i =>
      match m.step e with
      | none => 0
      | some m' => max ((m.accepted e i).getD 0) (m'.largest events i)

/-- What the member's own calls have spent. -/
def ownSpending : List Event → Nat
  | [] => 0
  | .spend tokens :: events => tokens + ownSpending events
  | _ :: events => ownSpending events

/-- The larger of a child's two counts. -/
def count (m : Member) (i : Nat) : Nat :=
  match m.children[i]? with
  | none => 0
  | some c => max c.tokens c.bridgeTokens

/-- What the children's charged totals add up to. -/
def charged (m : Member) : Nat := (m.children.map Child.tokens).sum

/-- **The member's counter**: one event charges what the children's totals grow by, or
the member's own call. -/
theorem used_step (h : m.step e = some m') :
    m'.used + m.charged = m.used + m'.charged + ownSpending [e] := by
  cases step_change h with
  | child he hc ha =>
      rename_i i c
      have hsum := Lib.sum_map_set Child.tokens (c.after e) hc
      have hle := c.tokens_le_after e
      have hown : ownSpending [e] = 0 := by cases e <;> first | rfl | cases he
      simp only [charged, children_moved, used_moved, hown]
      omega
  | register h => simp [charged, ownSpending]
  | _ => simp [charged, ownSpending] <;> omega

theorem used_run : ∀ (events : List Event) (m : Member), m.run events = some m' →
    m'.used + m.charged = m.used + m'.charged + ownSpending events := by
  intro events
  induction events with
  | nil =>
      intro m h
      cases h
      rfl
  | cons e events ih =>
      intro m h
      simp only [run, Option.bind_eq_some_iff] at h
      obtain ⟨next, hstep, hrun⟩ := h
      have h1 := used_step hstep
      have h2 := ih next hrun
      have hown : ownSpending (e :: events) = ownSpending [e] + ownSpending events := by
        cases e <;> simp [ownSpending]
      omega

/-- What an event reports for the child it is about and is accepted is the larger of its
two counts, if it is larger than before. -/
theorem count_after (he : e.child? = some i) (hc : m.children[i]? = some c) (ha : c.Allows e) :
    max (c.after e).tokens (c.after e).bridgeTokens =
      max (max c.tokens c.bridgeTokens) ((m.accepted e i).getD 0) := by
  simp only [accepted, he, if_true, hc]
  cases e with
  | poll j file =>
      cases file with
      | missing => simp [Child.after, Child.read]
      | unreadable => simp [Child.after, Child.read]
      | total tokens =>
          simp only [Child.after]
          cases hr : c.read (.total tokens) with
          | none => simp
          | some total =>
              have := Child.le_read hr
              simp only [Option.getD_some]
              omega
  | served j usage =>
      simp only [Child.after]
      cases normalizeCompletionUsage usage with
      | none => simp
      | some counts =>
          simp only [Option.map_some, Option.getD_some]
          omega
  | exit j outcome =>
      cases outcome with
      | result tokens status =>
          simp only [Child.after]
          cases hr : c.read (.total tokens) with
          | none => simp
          | some total =>
              have := Child.le_read hr
              simp only [Option.getD_some]
              omega
      | _ => simp [Child.after]
  | settle j cleanupFailed bridgeFailed file =>
      cases bridgeFailed with
      | true => simp [Child.after]
      | false =>
          cases file with
          | missing => simp [Child.after, Child.read]
          | unreadable => simp [Child.after, Child.read]
          | total tokens =>
              simp only [Child.after, Bool.false_eq_true, if_false]
              cases hr : c.read (.total tokens) with
              | none => simp
              | some total =>
                  have := Child.le_read hr
                  simp only [Option.getD_some]
                  omega
  | persistenceFailed j => simp [Child.after]
  | _ => cases he

theorem accepted_of_ne (h : e.child? ≠ some i) : m.accepted e i = none := by
  simp [accepted, h]

theorem count_step (h : m.step e = some m') (i : Nat) :
    m'.count i = max (m.count i) ((m.accepted e i).getD 0) := by
  cases step_change h with
  | child he hc ha =>
      rename_i j c
      by_cases hij : j = i
      · subst hij
        simp only [count, children_moved, hc, List.getElem?_set_self (lt_of_child hc)]
        exact count_after he hc ha
      · have hne : e.child? ≠ some i := by
          rw [he]
          exact fun h => hij (Option.some.inj h)
        simp [count, accepted_of_ne hne, List.getElem?_set_ne hij]
  | register h =>
      have hne : Event.register.child? ≠ some i := by simp [Event.child?]
      simp only [count, accepted_of_ne hne, Option.getD_none, Nat.max_zero]
      rcases Nat.lt_trichotomy i m.children.length with hlt | heq | hgt
      · rw [List.getElem?_append_left hlt]
      · subst heq
        simp
      · rw [List.getElem?_eq_none (by simp; omega), List.getElem?_eq_none (by omega)]
  | _ => simp [count, accepted, Event.child?]

/-- **Over a run** the larger of a child's two counts is the largest total that was
reported and accepted. -/
theorem run_largest (i : Nat) : ∀ (events : List Event) (m : Member), m.run events = some m' →
    m'.count i = max (m.count i) (m.largest events i) := by
  intro events
  induction events with
  | nil =>
      intro m h
      cases h
      simp [largest]
  | cons e events ih =>
      intro m h
      simp only [run, Option.bind_eq_some_iff] at h
      obtain ⟨next, hstep, hrun⟩ := h
      rw [ih next hrun, count_step hstep i, largest, hstep, Nat.max_assoc]
/-! ## runs that charge every report -/

/-- What a step must not meet: a launch whose budget no longer fits when its child is
entered, a result file that says the run goes on, and a bridge count that is larger than
the charged one when the last accounting is broken off. -/
def Sound (m : Member) : Event → Prop
  | .register => ∀ remaining budget, m.remaining = some remaining →
      m.launching = some (some budget) → (budget : Int) ≤ remaining
  | .exit _ (.result _ status) => status ≠ some RUNNING
  | .settle i _ bridgeFailed file => ∀ c, m.children[i]? = some c →
      c.bridgeTokens ≤ c.tokens ∨ (bridgeFailed = false ∧ c.read file ≠ none)
  | _ => True

/-- Every step of the run is sound in the state it is made in. -/
def SoundRun : Member → List Event → Prop
  | _, [] => True
  | m, e :: events => m.Sound e ∧ ∀ m', m.step e = some m' → SoundRun m' events

/-- What sound steps keep. -/
structure Kept (m : Member) : Prop where
  unlimited : m.launching = some none → m.ceiling = none
  closing : ∀ c ∈ m.children, ∀ status, c.stage = .closing status → status ≠ RUNNING
  settled : ∀ c ∈ m.children, c.stage = .settled →
    c.status ≠ RUNNING ∧ c.bridgeTokens ≤ c.tokens

/-- No budget is given without a ceiling only. -/
theorem launchBudget_unlimited {budget : Json} (h : m.launchBudget budget = some none) :
    m.ceiling = none := by
  have hrem : m.remaining = none := by
    unfold launchBudget at h
    cases hr : m.remaining with
    | none => rfl
    | some remaining =>
        simp only [hr] at h
        split at h
        · split at h <;> simp at h
        · split at h
          · cases h
          · split at h <;> simp at h
        · cases h
  simpa [remaining] using hrem

theorem failed_ne_running : FAILED ≠ RUNNING := by decide

theorem stopped_ne_running : STOPPED ≠ RUNNING := by decide

/-- A child that an event leaves closing takes a status that is not `"running"`. -/
theorem closing_after {status : Json} (he : e.child? = some i) (ha : c.Allows e)
    (hsound : m.Sound e) (hk : ∀ status, c.stage = .closing status → status ≠ RUNNING)
    (hs : (c.after e).stage = .closing status) : status ≠ RUNNING := by
  cases e with
  | poll j file =>
      simp only [Child.after] at hs
      cases hr : c.read file with
      | none =>
          simp only [hr, Stage.closing.injEq] at hs
          exact hs ▸ failed_ne_running
      | some total =>
          simp only [hr] at hs
          exact hk status hs
  | served j usage =>
      simp only [Child.after] at hs
      split at hs <;> exact hk status hs
  | exit j outcome =>
      cases outcome with
      | cancelled =>
          simp only [Child.after, Stage.closing.injEq] at hs
          exact hs ▸ stopped_ne_running
      | failure =>
          simp only [Child.after, Stage.closing.injEq] at hs
          exact hs ▸ failed_ne_running
      | result tokens told =>
          simp only [Child.after] at hs
          cases hr : c.read (.total tokens) with
          | none =>
              simp only [hr, Stage.closing.injEq] at hs
              exact hs ▸ failed_ne_running
          | some total =>
              simp only [hr, Stage.closing.injEq] at hs
              cases told with
              | none => exact hs ▸ failed_ne_running
              | some told =>
                  simp only [Option.getD_some] at hs
                  subst hs
                  exact fun h => hsound (congrArg some h)
  | settle j cleanupFailed bridgeFailed file =>
      simp only [Child.after] at hs
      split at hs <;> cases hs
  | persistenceFailed j =>
      rw [Child.Allows] at ha
      simp [Child.after, ha] at hs
  | _ => cases he

/-- A child that an event leaves settled is not running, and its bridge's count is
charged. -/
theorem settled_after (he : e.child? = some i) (hc : m.children[i]? = some c) (ha : c.Allows e)
    (hsound : m.Sound e) (hk : m.Kept) (hs : (c.after e).stage = .settled) :
    (c.after e).status ≠ RUNNING ∧ (c.after e).bridgeTokens ≤ (c.after e).tokens := by
  have hmem : c ∈ m.children := List.mem_of_getElem? hc
  cases e with
  | poll j file =>
      rw [Child.Allows] at ha
      simp only [Child.after] at hs
      split at hs <;> simp [ha] at hs
  | served j usage =>
      rw [Child.Allows] at ha
      simp only [Child.after] at hs
      split at hs <;> exact absurd hs ha
  | exit j outcome =>
      cases outcome with
      | result tokens told =>
          simp only [Child.after] at hs
          split at hs <;> cases hs
      | _ => cases hs
  | settle j cleanupFailed bridgeFailed file =>
      obtain ⟨status, hstage⟩ := ha
      cases he
      have hnext : c.next = status := by simp [Child.next, hstage]
      have hstatus := hk.closing c hmem status hstage
      simp only [Child.after, hnext]
      cases hr : (if bridgeFailed then none else c.read file) with
      | none =>
          refine ⟨failed_ne_running, ?_⟩
          rcases hsound c hc with hle | ⟨hbridge, hread⟩
          · exact hle
          · simp only [hbridge, Bool.false_eq_true, if_false] at hr
            exact absurd hr hread
      | some total =>
          refine ⟨?_, Nat.le_max_right _ _⟩
          cases cleanupFailed with
          | true => exact failed_ne_running
          | false => exact hstatus
  | persistenceFailed j =>
      exact ⟨failed_ne_running, (hk.settled c hmem ha).2⟩
  | _ => cases he

theorem kept_step (h : m.step e = some m') (hsound : m.Sound e) (hk : m.Kept) : m'.Kept := by
  cases step_change h with
  | check budget hl =>
      exact ⟨fun hn => launchBudget_unlimited hn, hk.closing, hk.settled⟩
  | register hl =>
      refine ⟨fun hn => (by cases hn), ?_, ?_⟩
      · intro c hc status hs
        rcases List.mem_append.mp hc with hc | hc
        · exact hk.closing c hc status hs
        · rw [List.mem_singleton.mp hc] at hs
          cases hs
      · intro c hc hs
        rcases List.mem_append.mp hc with hc | hc
        · exact hk.settled c hc hs
        · rw [List.mem_singleton.mp hc] at hs
          cases hs
  | abandon => exact ⟨fun hn => (by cases hn), hk.closing, hk.settled⟩
  | child he hc ha =>
      rename_i i c
      have hmem : c ∈ m.children := List.mem_of_getElem? hc
      refine ⟨hk.unlimited, ?_, ?_⟩
      · intro d hd status hs
        rcases List.mem_or_eq_of_mem_set hd with hd | rfl
        · exact hk.closing d hd status hs
        · exact closing_after he ha hsound (hk.closing c hmem) hs
      · intro d hd hs
        rcases List.mem_or_eq_of_mem_set hd with hd | rfl
        · exact hk.settled d hd hs
        · exact settled_after he hc ha hsound hk hs
  | spend tokens => exact ⟨hk.unlimited, hk.closing, hk.settled⟩

theorem kept_run : ∀ (events : List Event) (m : Member), m.run events = some m' →
    SoundRun m events → m.Kept → m'.Kept := by
  intro events
  induction events with
  | nil =>
      intro m h _ hk
      cases h
      exact hk
  | cons e events ih =>
      intro m h hsound hk
      simp only [run, Option.bind_eq_some_iff] at h
      obtain ⟨next, hstep, hrun⟩ := h
      exact ih next hrun (hsound.2 next hstep) (kept_step hstep hsound.1 hk)

/-- A run goes through the state before its last event. -/
theorem run_append : ∀ (pre events : List Event) (m : Member),
    m.run (pre ++ events) = (m.run pre).bind fun m' => m'.run events := by
  intro pre
  induction pre with
  | nil =>
      intro events m
      rfl
  | cons e pre ih =>
      intro events m
      simp only [List.cons_append, run, Option.bind_assoc, ih]

theorem soundRun_append : ∀ (pre events : List Event) (m : Member), m.run pre = some m' →
    SoundRun m (pre ++ events) → SoundRun m pre ∧ SoundRun m' events := by
  intro pre
  induction pre with
  | nil =>
      intro events m h hs
      cases h
      exact ⟨trivial, hs⟩
  | cons e pre ih =>
      intro events m h hs
      simp only [run, Option.bind_eq_some_iff] at h
      obtain ⟨next, hstep, hrun⟩ := h
      have hrest := ih events next hrun (hs.2 next hstep)
      refine ⟨⟨hs.1, fun m1 h1 => ?_⟩, hrest.2⟩
      rw [hstep] at h1
      cases h1
      exact hrest.1

/-! ## the result -/

/-- The total a file carries to an event. -/
def total? : Event → Option Json
  | .poll _ (.total tokens) | .exit _ (.result tokens _) | .settle _ _ false (.total tokens) =>
      some tokens
  | _ => none

/-- No child yet, and no launch under way. -/
def Fresh (m : Member) : Prop := m.children = [] ∧ m.launching = none

/-- Child usage is charged once in the run of `events` from `start` to `m`. -/
structure ChargedOnce (start : Member) (events : List Event) (m : Member) : Prop where
  /-- The member's counter grew by its own calls and by what was charged for children. -/
  total : m.used = start.used + ownSpending events + m.charged
  /-- For a finished child that is the largest total reported and accepted. -/
  each : ∀ i c, m.children[i]? = some c → c.tokens ≤ start.largest events i ∧
    (c.stage = .settled → c.tokens = start.largest events i)
  /-- A report within a running child's budget moves tokens from reserved to used. -/
  within : ∀ i c (budget : Nat) n m', m.children[i]? = some c → c.status = RUNNING →
    c.budget = some budget → n ≤ (budget : Int) → m.accountUsage i (.int n) = some m' →
    m'.used + m'.reservedTokens = m.used + m.reservedTokens
  /-- A launch under a ceiling stays below it. -/
  launch : ∀ before ceiling, events = before ++ [.register] → m.ceiling = some ceiling →
    ((m.used + m.reservedTokens : Nat) : Int) ≤ ceiling
  /-- A malformed or decreasing total changes no counter. -/
  refused : ∀ before m₁ e i c tokens, events = before ++ [e] → start.run before = some m₁ →
    e.child? = some i → total? e = some tokens → m₁.children[i]? = some c →
    (∀ n : Nat, tokens = .int n → n < c.tokens) →
    m.used = m₁.used ∧ m.children.map Child.tokens = m₁.children.map Child.tokens
  /-- A finished child reserves nothing. -/
  finished : ∀ c ∈ m.children, c.stage = .settled → c.reserved = 0

theorem read_eq_none {tokens : Json} (h : ∀ n : Nat, tokens = .int n → n < c.tokens) :
    c.read (.total tokens) = none := by
  cases tokens with
  | int n =>
      simp only [Child.read]
      by_cases hlt : n < c.tokens
      · rw [if_pos hlt]
      · have := h n.toNat (by rw [Int.toNat_of_nonneg (by omega)])
        omega
  | _ => rfl

/-- A refused total leaves the child's tokens as they are. -/
theorem tokens_after_refused {tokens : Json} (ht : total? e = some tokens)
    (hr : c.read (.total tokens) = none) : (c.after e).tokens = c.tokens := by
  unfold total? at ht
  split at ht
  · cases ht
    simp [Child.after, hr]
  · cases ht
    simp [Child.after, hr]
  · cases ht
    simp [Child.after, hr]
  · cases ht

/-- A report within the budget of a running child. -/
theorem accountUsage_within {budget : Nat} {n : Int} (hc : m.children[i]? = some c)
    (hs : c.status = RUNNING) (hb : c.budget = some budget) (hn : n ≤ (budget : Int))
    (h : m.accountUsage i (.int n) = some m') :
    m'.used + m'.reservedTokens = m.used + m.reservedTokens := by
  rw [accountUsage_spec hc, Option.map_eq_some_iff] at h
  obtain ⟨total, hread, rfl⟩ := h
  have hle := Child.le_read hread
  have htotal : total ≤ budget := by
    simp only [Child.read] at hread
    split at hread
    · cases hread
    · have := Option.some.inj hread
      omega
  have hsum := Lib.sum_map_set Child.reserved { c with tokens := total } hc
  have hres : c.reserved = budget - c.tokens := by simp [Child.reserved, hs, hb]
  have hres' : Child.reserved { c with tokens := total } = budget - total := by
    simp [Child.reserved, hs, hb]
  rw [hres, hres'] at hsum
  simp only [reservedTokens, children_moved, used_moved]
  omega

/-- **Child usage is charged to the member exactly once** in every run from a fresh
member whose steps are all sound. -/
theorem charged_once {start m : Member} {events : List Event} (hfresh : start.Fresh)
    (hrun : start.run events = some m) (hsound : SoundRun start events) :
    ChargedOnce start events m := by
  have hk0 : start.Kept := by
    refine ⟨fun h => ?_, fun c hc => ?_, fun c hc => ?_⟩
    · rw [hfresh.2] at h
      cases h
    · rw [hfresh.1] at hc
      cases hc
    · rw [hfresh.1] at hc
      cases hc
  have hk := kept_run events start hrun hsound hk0
  refine ⟨?_, ?_, ?_, ?_, ?_, ?_⟩
  · have hused := used_run events start hrun
    have hzero : start.charged = 0 := by simp [charged, hfresh.1]
    omega
  · intro i c hc
    have hcount := run_largest i events start hrun
    have hzero : start.count i = 0 := by simp [count, hfresh.1]
    have hci : m.count i = max c.tokens c.bridgeTokens := by simp [count, hc]
    refine ⟨by omega, fun hs => ?_⟩
    have hle := (hk.settled c (List.mem_of_getElem? hc) hs).2
    omega
  · intro i c budget n m' hc hs hb hn h
    exact accountUsage_within hc hs hb hn h
  · intro before ceiling heq hceil
    subst heq
    rw [run_append] at hrun
    obtain ⟨m₁, hbefore, hlast⟩ := Option.bind_eq_some_iff.mp hrun
    simp only [run, Option.bind_eq_some_iff] at hlast
    obtain ⟨m₂, hstep, heq⟩ := hlast
    cases heq
    have hsplit := soundRun_append before [.register] start hbefore hsound
    have hk1 := kept_run before start hbefore hsplit.1 hk0
    have hfits := hsplit.2.1
    cases step_change hstep with
    | register hl =>
        rename_i budget
        cases budget with
        | none =>
            have hnone := hk1.unlimited hl
            rw [hnone] at hceil
            cases hceil
        | some budget =>
            have hb := hfits (ceiling - m₁.used - m₁.reservedTokens) budget
              (by simp only [remaining]; rw [show m₁.ceiling = some ceiling from hceil]; rfl) hl
            have hres : (m₁.children ++ [({ budget := some budget } : Child)]).map Child.reserved =
                m₁.children.map Child.reserved ++ [budget] := by
              simp [Child.reserved]
            simp only [reservedTokens, hres, List.sum_append, List.sum_singleton] at hb ⊢
            omega
    | child he => cases he
  · intro before m₁ e i c tokens heq hbefore he ht hc hbad
    subst heq
    rw [run_append, hbefore, Option.bind_some] at hrun
    simp only [run, Option.bind_eq_some_iff] at hrun
    obtain ⟨m₂, hstep, heq⟩ := hrun
    cases heq
    have hread := read_eq_none hbad
    cases step_change hstep with
    | child he' hc' ha =>
        rename_i j d
        rw [he] at he'
        cases he'
        rw [hc] at hc'
        cases hc'
        have htok := tokens_after_refused ht hread
        refine ⟨by simp [htok], ?_⟩
        obtain ⟨hi, hget⟩ := List.getElem?_eq_some_iff.mp hc
        rw [children_moved, List.map_set, htok]
        have hself : (m₁.children.map Child.tokens)[i]? = some c.tokens := by simp [hc]
        obtain ⟨hi', hget'⟩ := List.getElem?_eq_some_iff.mp hself
        rw [← hget', List.set_getElem_self]
    | _ => cases he
  · intro c hc hs
    simp [Child.reserved, (hk.settled c hc hs).1]

/-! ### a bridge count that no one charges -/

/-- A completion of a hundred tokens. -/
def hundred : Usage := { inputTokens := .int 60, totalTokens := .int 100, outputTokens := .int 40 }

/-- A child is launched, its bridge serves one completion, its file says ten tokens. -/
def served : List Event :=
  [.check (.int 500), .register, .served 0 hundred, .poll 0 (.total (.int 10))]

/-- Then the run is stopped, and its bridge does not close: a reply could not be stored. -/
def brokenClose : List Event :=
  served ++ [.exit 0 .cancelled, .settle 0 false true (.total (.int 10))]

theorem charged_once_sample :
    let events := served ++ [.exit 0 (.result (.int 90) (some (.str "completed"))),
      .settle 0 false false .missing]
    ∃ m, ({ ceiling := some 1000 } : Member).run events = some m ∧ m.used = 100 ∧
      ChargedOnce { ceiling := some 1000 } events m := by
  intro events
  have hrun : ({ ceiling := some 1000 } : Member).run events =
      some ⟨some 1000, 100, [⟨some 500, .str "completed", 100, 100, .settled⟩], none⟩ := by
    decide +kernel
  refine ⟨_, hrun, rfl, charged_once ⟨rfl, rfl⟩ hrun ?_⟩
  refine ⟨trivial, fun m₁ h₁ => ⟨fun remaining budget hr hl => ?_, fun m₂ h₂ => ?_⟩⟩
  · obtain rfl := Option.some.inj h₁
    cases hr
    cases hl
    decide
  obtain rfl := Option.some.inj h₁
  obtain rfl := Option.some.inj h₂
  refine ⟨trivial, fun m₃ h₃ => ⟨trivial, fun m₄ h₄ =>
    ⟨by simp [Sound, RUNNING], fun m₅ h₅ => ⟨?_, ?_⟩⟩⟩⟩
  · obtain rfl := Option.some.inj h₃
    obtain rfl := Option.some.inj h₄
    obtain rfl := Option.some.inj h₅
    intro c hc
    exact .inr ⟨rfl, by simp [Child.read]⟩
  · intro m₆ _
    trivial

/-- A bridge's hundred tokens stay uncharged when it fails to close. -/
theorem brokenClose_uncharged :
    ¬ ∀ (start m : Member) (events : List Event), start.Fresh → start.run events = some m →
      ChargedOnce start events m := by
  intro h
  have hrun : ({ ceiling := some 1000 } : Member).run brokenClose =
      some ⟨some 1000, 10, [⟨some 500, FAILED, 10, 100, .settled⟩], none⟩ := by
    decide +kernel
  have hlargest : ({ ceiling := some 1000 } : Member).largest brokenClose 0 = 100 := by
    decide +kernel
  have heach := ((h _ _ _ ⟨rfl, rfl⟩ hrun).each 0 _ rfl).2 rfl
  rw [hlargest] at heach
  cases heach

end Member

end OpenCollab.ChildRuns
