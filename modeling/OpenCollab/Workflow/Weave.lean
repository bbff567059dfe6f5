import Mathlib.Algebra.Order.Field.Rat
import Mathlib.Data.Rat.Floor
import OpenCollab.Lib.Dict

/-!
# OpenCollab.Workflow.Weave

The budgets of a weave: one session per task group, each with a hard and a soft
token cap and a step cap computed from what the sessions before it left, and
then the repair rounds that end a run.

A run can be cut where its state is saved and go on later from the reloaded
state, so `Lineage` is a sequence of runs; its log holds what is granted at
every start of a session, and the state each repair phase starts from.  Shares
of a remaining allowance are taken in exact rational arithmetic.  Prompts and
time windows are left out, except that a session may be refused for want of
time; of a check, what the repair rounds read of it.

* `allocation`, `grant`: what a group is granted;
* `repair`: the rounds that end a run;
* `run`, `Lineage`: runs and their continuations.
-/

namespace OpenCollab.Weave

open Lib

/-! ## state -/

/-- The label of a session: `group-n` or `repair-n`. -/
inductive Label where
  | group (number : Nat)
  | repair (round : Nat)
deriving DecidableEq, Inhabited

/-- `label.startswith("group-")`. -/
def Label.isGroup : Label → Bool
  | group _ => true
  | repair _ => false

/-- A row of `state.data["sessions"]`. -/
structure Row where
  phase : Label
  tokens : Nat
  steps : Nat
deriving DecidableEq, Inhabited

/-- The status of a group that has been attempted. -/
inductive GroupStatus where
  | generated
  | checked
deriving DecidableEq, Inhabited

/-- `WeaveState`. -/
structure State where
  sessions : Dict String Row := .empty
  groups : Dict Nat GroupStatus := .empty
  budgetTotal : Option (Option Nat) := none
  /-- `stagnant_rounds` of each row of `repair_rounds`, absent while the round is running. -/
  repairRounds : List (Option Nat) := []

namespace State

/-- The sum of a count over all sessions. -/
def total (s : State) (count : Row → Nat) : Nat := s.sessions.sum fun _ row => count row

def tokens (s : State) : Nat := s.total Row.tokens

/-- The sum of a count over the sessions of groups. -/
def groupTotal (s : State) (count : Row → Nat) : Nat :=
  s.total fun row => if row.phase.isGroup then count row else 0

/-- The tokens of the sessions of repair rounds. -/
def repairTokens (s : State) : Nat := s.total fun row => if row.phase.isGroup then 0 else row.tokens

/-- `phase_totals("group-")`. -/
def groupTotals (s : State) : Nat × Nat := (s.groupTotal Row.tokens, s.groupTotal Row.steps)

/-- `observe`; `none` is its `ValueError`. -/
def observe (s : State) (phase : Label) (session : String) (tokens steps : Nat) : Option State :=
  let row := (s.sessions.get? session).getD ⟨phase, 0, 0⟩
  if row.phase ≠ phase then none
  else some { s with
    sessions := s.sessions.set session
      { row with tokens := max row.tokens tokens, steps := max row.steps steps } }

end State

/-! ## allowances -/

/-- The fields of `WeaveConfig` that are read for allowances; its checks keep the fraction below
one. -/
structure Config where
  budget : Option Nat := none
  mainBudget : Option Nat := none
  mainHardBudget : Option Nat := none
  repairReserve : Nat := 0
  maxSteps : Option Nat := none
  minimumGroupTokens : Nat := 1
  minimumGroupSteps : Nat := 1
  maxRepairRounds : Nat := 3
  stagnantRoundLimit : Nat := 2
  repairBudget : Option Nat := none
  repairBudgetFraction : ℚ := 13 / 20
  fraction_le_one : repairBudgetFraction ≤ 1

/-- `_minimum`: `none` is no limit. -/
def minimum : Option Nat → Option Nat → Option Nat
  | some a, some b => some (min a b)
  | some a, none => some a
  | none, b => b

/-- `_allocation`. -/
def allocation (remaining : Option Nat) (weights : List ℚ) (least : Nat) : Option Nat :=
  remaining.map fun r =>
    match weights with
    | [] => 0
    | first :: rest =>
        if r < least then 0
        else
          let floor := min least (r / (rest.length + 1))
          let share := (r * first / (first + rest.sum)).floor.toNat
          min (r - floor * rest.length) (max least share)

namespace Config

/-- The tokens kept for repair. -/
def reserve (c : Config) (total : Option Nat) : Nat :=
  match total with
  | none => c.repairReserve
  | some t => min c.repairReserve (t / 4)

/-- The hard allowance of the main phase. -/
def hard (c : Config) (total : Option Nat) : Option Nat :=
  minimum c.mainHardBudget (total.map (· - c.reserve total))

/-- The soft allowance of the main phase. -/
def soft (c : Config) (total : Option Nat) : Option Nat := minimum c.mainBudget (c.hard total)

end Config

/-! ## groups -/

/-- What the environment does around one group: the pool's balance at its start,
whether time is left, what its session reports, and where the run is cut, if it
is, to go on from the reloaded state. -/
structure GroupTurn where
  live : Option Nat := none
  inTime : Bool := true
  session : String := ""
  reports : List (Nat × Nat) := []
  reload : Option GroupStatus := none
deriving Inhabited

/-- What a group start computes, with what it was computed from. -/
structure Grant where
  number : Nat
  hard : Option Nat
  soft : Option Nat
  steps : Option Nat
  tokensBefore : Nat
  stepsBefore : Nat
  available : Option Nat
  turn : GroupTurn
deriving Inhabited

/-- `budget` in `run`. -/
def softGrant (c : Config) (cap allocation : Option Nat) : Option Nat :=
  match cap, allocation with
  | none, none => none
  | none, some a => some (max c.minimumGroupTokens a)
  | some cap, a => some (min cap (max c.minimumGroupTokens (a.getD cap)))

/-- `tokens_left`: the pool's balance, and what all sessions have left of the total. -/
def tokensLeft (live total : Option Nat) (s : State) : Option Nat :=
  minimum live (total.map (· - s.tokens))

/-- The grant of the first of the groups that remain. -/
def grant (c : Config) (total : Option Nat) (weights : List ℚ) (number : Nat) (turn : GroupTurn)
    (s : State) : Grant :=
  let (tokens, steps) := s.groupTotals
  let available := tokensLeft turn.live total s
  let left (allowance : Option Nat) := minimum available (allowance.map (· - tokens))
  let cap := allocation (left (c.hard total)) weights c.minimumGroupTokens
  let allocated := allocation (left (c.soft total)) weights c.minimumGroupTokens
  { number, turn, available
    hard := cap
    soft := softGrant c cap allocated
    steps := allocation (c.maxSteps.map (· - steps)) weights c.minimumGroupSteps
    tokensBefore := tokens
    stepsBefore := steps }

/-- The group cannot start. -/
def Grant.refused (c : Config) (g : Grant) : Bool :=
  g.hard.any (fun cap => cap < c.minimumGroupTokens) ||
    g.steps.any (fun steps => steps < c.minimumGroupSteps) || !g.turn.inTime

/-- The session of a group reports its counts. -/
def observeAll (phase : Label) (session : String) : List (Nat × Nat) → State → Option State
  | [], s => some s
  | (tokens, steps) :: rest, s => do
      let s ← s.observe phase session tokens steps
      observeAll phase session rest s

/-- What the loop does after a group: it goes on, it ends (and the run comes to its repair), or the
run is over, because it raises or is cut. -/
inductive Ending where
  | next
  | broke
  | cut
deriving DecidableEq, Inhabited

/-- What attempting one group leaves: the state, the grant if one was computed,
and what the loop does. -/
structure Attempt where
  state : State
  log : List Grant := []
  ending : Ending

def State.mark (s : State) (number : Nat) (status : GroupStatus) : State :=
  { s with groups := s.groups.set number status }

/-- The body of the loop of `run`.  The loop ends when the group is refused; the run is over when
the group's session has the id of another phase's session (nothing is recorded then), or where it
is cut. -/
def attempt (c : Config) (total : Option Nat) (weights : List ℚ) (number : Nat) (turn : GroupTurn)
    (s : State) : Attempt :=
  match s.groups.get? number with
  | some .checked => { state := s, ending := .next }
  | some .generated =>
      { state := s.mark number .checked
        ending := if turn.reload = some .checked then .cut else .next }
  | none =>
      let g := grant c total weights number turn s
      if g.refused c then { state := s, log := [g], ending := .broke }
      else
        match observeAll (.group number) turn.session turn.reports s with
        | none => { state := s, log := [g], ending := .cut }
        | some s =>
            let s := s.mark number .generated
            if turn.reload = some .generated then { state := s, log := [g], ending := .cut }
            else { state := s.mark number .checked, log := [g],
                   ending := if turn.reload = some .checked then .cut else .next }

/-- The loop of `run` over the groups from `number` on, and whether the run comes to its repair. -/
def runGroups (c : Config) (total : Option Nat) (env : Nat → GroupTurn) :
    Nat → List ℚ → State → State × List Grant × Bool
  | _, [], s => (s, [], true)
  | number, weight :: rest, s =>
      let a := attempt c total (weight :: rest) number (env number) s
      match a.ending with
      | .next =>
          let (s, log, through) := runGroups c total env (number + 1) rest a.state
          (s, a.log ++ log, through)
      | .broke => (a.state, a.log, true)
      | .cut => (a.state, a.log, false)

/-! ## repair -/

/-- What the repair reads of a `WeaveCheck`. -/
structure Check where
  passed : Bool
  repairTargets : List String := []
deriving DecidableEq, Inhabited

/-- How far a repair round's row has come. -/
inductive RoundStatus where
  | running
  | finished
deriving DecidableEq, Inhabited

/-- What the environment does around one repair round; where the run is cut in it, `reports` are
those that were observed until then. -/
structure RepairTurn where
  live : Option Nat := none
  inTime : Bool := true
  session : String := ""
  reports : List (Nat × Nat) := []
  check : Check := { passed := false }
  improved : Bool := false
  reload : Option RoundStatus := none
deriving Inhabited

/-- What the start of a repair round computes. -/
structure RepairGrant where
  number : Nat
  hard : Option Nat
  tokensBefore : Nat
  turn : RepairTurn
deriving Inhabited

/-- The grant of a repair round, out of what is left. -/
def repairGrant (c : Config) (available : Option Nat) (turn : RepairTurn) (s : State) :
    RepairGrant :=
  let number := s.repairRounds.length + 1
  let allowance := available.map fun a =>
    if number = c.maxRepairRounds then a
    else max c.minimumGroupTokens (a * c.repairBudgetFraction).floor.toNat
  { number, turn, hard := minimum c.repairBudget allowance, tokensBefore := s.tokens }

/-- The loop of `repair`, with the rounds that are left. -/
def repairLoop (c : Config) (total : Option Nat) (env : Nat → RepairTurn) :
    Nat → Check → Nat → State → State × List RepairGrant
  | 0, _, _, s => (s, [])
  | left + 1, report, stagnant, s =>
      let turn := env (s.repairRounds.length + 1)
      let available := tokensLeft turn.live total s
      if report.passed || available.any (fun a => a < c.minimumGroupTokens) || !turn.inTime ||
          report.repairTargets.isEmpty then (s, [])
      else
        let g := repairGrant c available turn s
        let rounds := s.repairRounds
        let s := { s with repairRounds := rounds ++ [none] }
        match observeAll (.repair g.number) turn.session turn.reports s with
        | none => (s, [g])
        | some s =>
            if turn.reload = some .running then (s, [g])
            else
              let stagnant := if turn.improved then 0 else stagnant + 1
              let s := { s with repairRounds := rounds ++ [some stagnant] }
              if turn.reload = some .finished ∨
                  (!turn.check.passed && stagnant ≥ c.stagnantRoundLimit) then (s, [g])
              else
                let (s, log) := repairLoop c total env left turn.check stagnant s
                (s, g :: log)

/-- `repair`; `report` is the check it begins with. -/
def repair (c : Config) (total : Option Nat) (report : Check) (env : Nat → RepairTurn) (s : State) :
    State × List RepairGrant :=
  let stagnant := (s.repairRounds.getLast?.getD none).getD 0
  if !report.passed && stagnant ≥ c.stagnantRoundLimit then (s, [])
  else repairLoop c total env (c.maxRepairRounds - s.repairRounds.length) report stagnant s

/-! ## runs -/

/-- What is logged of a run: the grant at each start of a session, and the state at the start of the
repair. -/
inductive Start where
  | group (g : Grant)
  | delivery (s : State)
  | repair (g : RepairGrant)

/-- `_WeaveRun.__init__`: the total is fixed by the first run. -/
def withTotal (c : Config) (live : Option Nat) (s : State) : State :=
  let total := match s.budgetTotal with
    | some total => total
    | none => minimum c.budget (live.map (· + s.tokens))
  { s with budgetTotal := some (minimum c.budget total) }

/-- What a run meets: the pool's balance, the groups' sessions, the check of the whole delivery, and
the repair rounds. -/
structure Environment where
  live : Option Nat := none
  groups : Nat → GroupTurn
  check : Check := { passed := true }
  rounds : Nat → RepairTurn := fun _ => {}

/-- `_WeaveRun.run`. -/
def run (c : Config) (weights : List ℚ) (env : Environment) (s : State) : State × List Start :=
  let s := withTotal c env.live s
  let total := s.budgetTotal.getD none
  let (s, log, through) := runGroups c total env.groups 1 weights s
  if through then
    let (s', repairs) := repair c total env.check env.rounds s
    (s', log.map .group ++ .delivery s :: repairs.map .repair)
  else (s, log.map .group)

/-- Runs that go on from one another's saved states. -/
inductive Lineage (c : Config) (weights : List ℚ) : State → List Start → Prop where
  | start : Lineage c weights {} []
  | run {s : State} {log : List Start} (env : Environment) (hs : Lineage c weights s log) :
      Lineage c weights (run c weights env s).1 (log ++ (run c weights env s).2)

end OpenCollab.Weave
