import OpenCollab.Lib.Effect
import Mathlib.Algebra.Order.Ring.Rat
import Mathlib.Data.Finset.Basic

/-!
# OpenCollab.Workflow.Reconstruct

The reconstruction workflow: batches of inputs are put to a hidden program, a
coder writes candidates for what was observed, and each candidate that passes is
promoted to a larger batch.

Everything outside the protocol answers by a clock (`Surroundings`): the hidden
program, the random generator, the proposer and the coder, the evaluator and the
workspace.  What the workflow computes on inputs and programs is in `Task`.
Exceptions the workflow does not catch end the run.

`trace` records what passes between the workflow and what is outside of it, where
it does: the coder's calls, the examples as they are accepted, the evaluator's
answers, the copies that are archived and the texts that are read.
-/

namespace OpenCollab.Reconstruct

open Lib Lib.Effect

/-! ## what the workflow is given -/

/-- The files of the workspace that matter: the program and the candidates. -/
inductive Path where
  | program
  | candidate (iteration : Nat)
deriving DecidableEq, Repr

/-- Values the workflow computes: JSON round trips, and the checks on inputs,
outputs and programs. -/
structure Task (ι ο : Type) where
  /-- `json.loads(json.dumps(value))`, where that succeeds. -/
  jsonable : ι → Option ι
  jsonable_idem : ∀ x v, jsonable x = some v → jsonable v = some v
  /-- `json.dumps(value, sort_keys=True, …)`. -/
  dumps : ι → String
  repr : ι → String
  jsonableOutput : ο → Option ο
  outputsMatch : ο → ο → Bool
  /-- `missing_categories` of the coverage gate. -/
  missing : List ι → Finset String
  /-- `in_domain` finds nothing out of range. -/
  inDomain : ι → Bool
  memorisedInputs : String → List ι → Nat
  /-- `round(complexity_penalty(source), 3)`. -/
  complexityPenalty : String → ℚ
  /-- The weighted score before it is cut at zero: the source, how many examples
  it passes, and the examples. -/
  weightedScore : String → Nat → List (ι × ο) → ℚ

/-- `_input_key`. -/
def Task.inputKey {ι ο : Type} (task : Task ι ο) (value : ι) : String :=
  match task.jsonable value with
  | some v => task.dumps v
  | none => task.repr value

/-- `stage_score`. -/
def Task.stageScore {ι ο : Type} (task : Task ι ο) (source : String) (passed : Nat)
    (examples : List (ι × ο)) : ℚ :=
  max 0 (task.weightedScore source passed examples)

/-- How an agent's call ends. -/
inductive Reply (α : Type) where
  | replied (value : α)
  /-- An exception whose name says `budget`. -/
  | budgetExhausted
  | raised

/-- The answers of everything outside, by the clock. -/
structure Surroundings (ι ο : Type) where
  /-- The hidden program on an input; it may raise. -/
  oracle : Nat → ι → Option ο
  /-- `random_inputs(k, exclude)`, where the task has a generator. -/
  randomInputs : Option (Nat → Nat → List String → Option (List ι))
  /-- `on_example` raises. -/
  onExampleRaises : Nat → Bool
  /-- The proposer; no list where the reply is none or malformed. -/
  propose : Nat → Reply (Option (List ι))
  code : Nat → Reply Unit
  isFile : Nat → Path → Bool
  /-- The evaluator's results, an error being none; it may raise. -/
  evaluate : Nat → Path → List ι → Option (List (Option ο))
  /-- The text of a file; reading it may raise. -/
  readText : Nat → Path → Option String
  tokensRemaining : Nat → Int

/-- `int(round(n * random_share))`, for a share of at most the whole. -/
structure Share where
  of : Nat → Nat
  of_le : ∀ n, of n ≤ n

/-- The parameters, as `_positive_int` and `_share` let them through. -/
structure Args where
  initialBatch : Nat
  batchStep : Nat
  maxIterations : Nat
  earlyStop : Nat
  proposeAttempts : Nat
  share : Share
  coverageGate : Bool
  memorisationGate : Bool
  complexityGate : Bool
  domainCheck : Bool
  initialBatch_pos : 0 < initialBatch
  batchStep_pos : 0 < batchStep
  maxIterations_pos : 0 < maxIterations
  earlyStop_pos : 0 < earlyStop
  proposeAttempts_pos : 0 < proposeAttempts

def coverageGatePatience : Nat := 3
def memorisationPatience : Nat := 2
def complexityPatience : Nat := 3
def minTokensForAnotherRound : Int := 30000
def memorisedInputsThreshold : Nat := 3
def complexityThreshold : ℚ := 4 / 5

/-! ## the run's variables -/

inductive StopReason where
  | budgetExhausted
  | proposerFailed
  | earlyStop
  | maxIterations
deriving DecidableEq, Repr

inductive Source where
  | agent
  | random
deriving DecidableEq, Repr

/-- Why a candidate fails. -/
inductive Fail (ι : Type) where
  | missing
  | mismatch (input : ι)

/-- What passes between the workflow and what is outside of it. -/
inductive Event (ι ο : Type) where
  /-- The coder is called. -/
  | coder
  /-- An example is accepted: `on_example` is called. -/
  | accepted (observed : ι × ο)
  /-- The evaluator's answer for a program on some inputs. -/
  | evaluated (path : Path) (inputs : List ι) (results : List (Option ο))
  /-- A program is not there. -/
  | missing (path : Path)
  /-- The program is copied among the candidates. -/
  | archived (iteration : Nat)
  | read (path : Path) (text : String)

structure State (ι ο : Type) where
  examples : List (ι × ο) := []
  sources : List Source := []
  seen : List String := []
  seenEquivalent : List String := []
  gateMisses : Finset String → Nat := fun _ => 0
  memorisationRounds : Nat := 0
  complexityRounds : Nat := 0
  archived : List Nat := []
  stopReason : Option StopReason := none
  nextBatch : Nat := 0
  consecutive : Nat := 0
  iteration : Nat := 0
  clock : Nat := 0
  /-- Latest first. -/
  trace : List (Event ι ο) := []
  /-- The batches granted: the size requested and the examples it added. -/
  granted : List (Nat × Nat) := []

/-- A part of the run; an exception that is not caught says what raised. -/
abbrev Recon (ι ο : Type) := Effect (State ι ο) String

section Workflow

variable {ι ο : Type} (task : Task ι ο) (env : Surroundings ι ο) (args : Args)

/-- Ask the surroundings. -/
def ask {α : Type} (f : Nat → α) : Recon ι ο α := fun s =>
  (.ok (f s.clock), { s with clock := s.clock + 1 })

def note (event : Event ι ο) : Recon ι ο Unit :=
  change fun s => { s with trace := event :: s.trace }

/-- `path.read_text()`. -/
def readText (path : Path) : Recon ι ο String := do
  match ← ask (env.readText · path) with
  | none => raise "read_text"
  | some text =>
      note (.read path text)
      pure text

/-! ## probing -/

/-- `call_agent`: exhaustion stops the run, any other exception goes on. -/
def callAgent {α : Type} (reply : Nat → Reply α) : Recon ι ο (Option α) := do
  match ← ask reply with
  | .replied value => pure (some value)
  | .budgetExhausted =>
      change fun s => { s with stopReason := some .budgetExhausted }
      pure none
  | .raised => raise "agent"

def uncovered (s : State ι ο) : Finset String :=
  if args.coverageGate then task.missing (s.examples.map Prod.fst) else ∅

/-- One example of `accept`. -/
def State.push (s : State ι ο) (example_ : ι × ο) (source : Source) : State ι ο :=
  { s with
    seen := task.repr example_.1 :: s.seen
    seenEquivalent := task.inputKey example_.1 :: s.seenEquivalent
    examples := s.examples ++ [example_]
    sources := s.sources ++ [source]
    trace := .accepted example_ :: s.trace }

def accept (batch : List (ι × ο)) (source : Source) : Recon ι ο Unit :=
  forEach (fun example_ => do
    change fun s => s.push task example_ source
    let raised ← ask env.onExampleRaises
    raiseIf raised "on_example") batch

/-- The loop over what the generator drew: known and repeated inputs are left
out, and those the hidden program rejects. -/
def drawRandom (count : Nat) : List ι → List (ι × ο) → List String → Recon ι ο (List (ι × ο))
  | [], batch, _ => pure batch
  | inp :: rest, batch, keys => do
      let s ← read
      let key := task.inputKey inp
      if key ∈ s.seenEquivalent ∨ key ∈ keys then drawRandom count rest batch keys
      else
        match ← ask (env.oracle · inp) with
        | none => drawRandom count rest batch keys
        | some out =>
            if (batch ++ [(inp, out)]).length = count then pure (batch ++ [(inp, out)])
            else drawRandom count rest (batch ++ [(inp, out)]) (key :: keys)

/-- A proposed batch is put to the hidden program; one rejection rejects it. -/
def observeAll : List ι → Recon ι ο (Option (List (ι × ο)))
  | [] => pure (some [])
  | inp :: rest => do
      match ← ask (env.oracle · inp) with
      | none => pure none
      | some out =>
          let others ← observeAll rest
          pure (others.map ((inp, out) :: ·))

/-- The keys of a proposal, none for what is no JSON value. -/
def proposalKeys (proposed : List ι) : List (Option String) :=
  proposed.map fun p => (task.jsonable p).map fun _ => task.inputKey p

/-- Some input is no JSON value, is known, or is proposed twice. -/
def repeats (s : State ι ο) (proposed : List ι) : Bool :=
  let keys := proposalKeys task proposed
  keys.any fun
    | none => true
    | some key => key ∈ s.seenEquivalent || 1 < keys.count (some key)

/-- The attempts at getting exactly `n` new inputs from the proposer. -/
def proposeInputs (n : Nat) : Nat → Recon ι ο Bool
  | 0 => pure false
  | attempts + 1 => do
      let reply ← callAgent env.propose
      let s ← read
      if s.stopReason.isSome then pure false
      else
        match reply.join with
        | none => proposeInputs n attempts
        | some proposed =>
            if proposed.length ≠ n || repeats task s proposed ||
                (args.domainCheck && proposed.any fun p => !task.inDomain p) then
              proposeInputs n attempts
            else
              match ← observeAll env (proposed.filterMap task.jsonable) with
              | none => proposeInputs n attempts
              | some batch =>
                  accept task env batch .agent
                  pure true

/-- The random share of a request: how many inputs are left to propose. -/
def requestRandom (n : Nat) : Recon ι ο Nat :=
  match env.randomInputs with
  | none => pure n
  | some draw =>
      if args.share.of n = 0 then pure n
      else do
        let s ← read
        match ← ask (draw · (args.share.of n) s.seen) with
        | none => raise "random_inputs"
        | some inputs =>
            let batch ← drawRandom task env (args.share.of n) inputs [] []
            accept task env batch .random
            pure (n - batch.length)

/-- `request_examples`: a random share first, the rest from the proposer. -/
def requestExamples (n : Nat) : Recon ι ο Bool := do
  let rest ← requestRandom task env args n
  if rest = 0 then pure true else proposeInputs task env args rest args.proposeAttempts

/-! ## judging -/

/-- The examples a candidate fails, of those it was run on. -/
def judge : List (ι × ο) → List (Option ο) → Recon ι ο (List (Fail ι))
  | (inp, _) :: examples, none :: results => do
      let fails ← judge examples results
      pure (.mismatch inp :: fails)
  | (inp, expected) :: examples, some out :: results =>
      match task.jsonableOutput expected with
      | none => raise "outputs_match"
      | some expected => do
          let fails ← judge examples results
          pure (if task.outputsMatch out expected then fails else .mismatch inp :: fails)
  | _, _ => pure []

/-- `failures`. -/
def failures (path : Path) : Recon ι ο (List (Fail ι)) := do
  if !(← ask (env.isFile · path)) then
    note (.missing path)
    pure [.missing]
  else
    let s ← read
    match ← ask (env.evaluate · path (s.examples.map Prod.fst)) with
    | none => raise "evaluate"
    | some results =>
        note (.evaluated path (s.examples.map Prod.fst) results)
        if results.length ≠ s.examples.length then raise "candidate evaluator"
        else judge task s.examples results

/-! ## rounds -/

/-- The next batch: without it the run stops. -/
def grant (n : Nat) : Recon ι ο Bool := do
  let before ← read
  if ← requestExamples task env args n then
    change fun s => { s with
      granted := s.granted ++ [(n, s.examples.length - before.examples.length)] }
    pure true
  else
    change fun s => { s with stopReason := s.stopReason.or (some .proposerFailed) }
    pure false

/-- A batch is granted to the candidate, which is judged on it. -/
def grantNext : Recon ι ο Unit := do
  let s ← read
  if ← grant task env args s.nextBatch then
    change fun s => { s with nextBatch := s.nextBatch + args.batchStep }
    let _ ← failures task env .program

/-- The promotion counts where the coverage gate lets it: categories that stay
missing block it for a while. -/
def countPromotion (miss : Finset String) (s : State ι ο) : State ι ο :=
  if miss = ∅ then { s with consecutive := s.consecutive + 1 }
  else
    let misses := s.gateMisses miss + 1
    let s := { s with gateMisses := fun m => if m = miss then misses else s.gateMisses m }
    if misses ≤ coverageGatePatience then { s with consecutive := 0 }
    else { s with consecutive := s.consecutive + 1 }

/-- The end of a round whose candidate passed and was not sent back. -/
def promote (miss : Finset String) : Recon ι ο Unit := do
  change (countPromotion miss)
  let s ← read
  if args.earlyStop ≤ s.consecutive then
    change fun s => { s with stopReason := some .earlyStop }
  else grantNext task env args

/-- The complexity check: a batch is granted, but not counted. -/
def afterMemorisation (source : String) (miss : Finset String) : Recon ι ο Unit := do
  if args.complexityGate ∧ complexityThreshold ≤ task.complexityPenalty source then
    change fun s => { s with complexityRounds := s.complexityRounds + 1 }
    let s ← read
    if s.complexityRounds ≤ complexityPatience then
      change fun s => { s with consecutive := 0 }
      grantNext task env args
    else promote task env args miss
  else promote task env args miss

/-- A candidate that passes every known example. -/
def passed (source : String) (miss : Finset String) (memorised : Nat) : Recon ι ο Unit := do
  if memorisedInputsThreshold ≤ memorised then
    change fun s => { s with consecutive := 0, memorisationRounds := s.memorisationRounds + 1 }
    let s ← read
    if s.memorisationRounds ≤ memorisationPatience then pure ()
    else
      change fun s => { s with memorisationRounds := 0 }
      afterMemorisation task env args source miss
  else afterMemorisation task env args source miss

/-- The candidate is archived and read. -/
def archive (candidateExists : Bool) : Recon ι ο String := do
  if candidateExists then
    change fun s => { s with
      archived := s.archived ++ [s.iteration]
      trace := .archived s.iteration :: s.trace }
    readText env .program
  else pure ""

/-- The end of a round whose candidate was judged and archived. -/
def settleRound (fails : List (Fail ι)) (source : String) : Recon ι ο Unit := do
  let s ← read
  let tokens ← ask env.tokensRemaining
  if tokens < minTokensForAnotherRound then
    change fun s => { s with stopReason := some .budgetExhausted }
  else if !fails.isEmpty then change fun s => { s with consecutive := 0 }
  else
    passed task env args source (uncovered task args s)
      (if args.memorisationGate then task.memorisedInputs source (s.examples.map Prod.fst) else 0)

/-- One iteration of the main loop. -/
def iterate : Recon ι ο Unit := do
  change fun s => { s with iteration := s.iteration + 1, trace := .coder :: s.trace }
  let _ ← callAgent env.code
  let s ← read
  if s.stopReason.isSome then pure ()
  else
    let fails ← failures task env .program
    let candidateExists ← ask (env.isFile · .program)
    let source ← archive env candidateExists
    settleRound task env args fails source

/-- `while stop_reason is None and iteration < max_iterations`. -/
def iterations : Nat → Recon ι ο Unit
  | 0 => pure ()
  | remaining + 1 => do
      let s ← read
      if s.stopReason.isSome then pure ()
      else
        iterate task env args
        iterations remaining

/-! ## selection -/

/-- The failures the selection counts: there are none without examples. -/
def selectionFailures (iteration : Nat) : Recon ι ο (List (Fail ι)) := do
  let s ← read
  if s.examples.isEmpty then pure [] else failures task env (.candidate iteration)

/-- The archived candidate with the best score so far, later ones winning ties. -/
def select : List Nat → Option Nat × ℚ → Recon ι ο (Option Nat × ℚ)
  | [], best => pure best
  | iteration :: rest, best => do
      let s ← read
      let fails ← selectionFailures task env iteration
      let source ← readText env (.candidate iteration)
      let score := task.stageScore source (s.examples.length - fails.length) s.examples
      select rest (if best.2 ≤ score then (some iteration, score) else best)

/-- What the workflow returns, as far as the protocol decides it. -/
structure Outcome (ι ο : Type) where
  stopReason : StopReason
  iterations : Nat
  examples : List (ι × ο)
  finalProgram : Option Nat
  finalScore : ℚ

/-- `reconstruct`. -/
def reconstruct : Recon ι ο (Outcome ι ο) := do
  let _ ← grant task env args args.initialBatch
  change fun s => { s with nextBatch := args.initialBatch + args.batchStep }
  iterations task env args args.maxIterations
  change fun s => { s with stopReason := s.stopReason.or (some .maxIterations) }
  let s ← read
  let best ← select task env s.archived (none, -1)
  pure ⟨s.stopReason.getD .maxIterations, s.iteration, s.examples, best.1, best.2⟩

end Workflow

end OpenCollab.Reconstruct
