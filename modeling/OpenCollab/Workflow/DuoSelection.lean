import OpenCollab.Lib.Windows
import OpenCollab.Workflow.DuoRecords

/-!
# OpenCollab.Workflow.DuoSelection

From two candidates to the one that is adopted (`builtin_workflows/duo/_selection.py`,
`_dual_coder.py`, `_candidate_records.py`): the mechanical choice, the adjudication
with its one recheck, the fallback, and the order of adoption.  What the adjudicator
answers and what an adoption does is arbitrary (`Context`).

* `judge_spec` — what an accepted decision satisfies;
* `reviewFrom_spec` — an adjudicated winner is one of an accepted decision;
* `adoptFrom_spec` — the candidates an adoption passes over, and where it ends;
* `selection_justified` — the three together, for every run.
-/

namespace OpenCollab.Duo

open Lib

/-- What the selection uses of Python and of the repository's other code. -/
structure Python where
  /-- `str(value)` of what is not a string. -/
  str : Json → String
  /-- `char.isalnum()`. -/
  isAlnum : Char → Bool
  /-- `json.dumps(value, ensure_ascii=False)`; `none`: it raises. -/
  dumps : Json → Option String
  /-- `patch_paths`. -/
  patchPaths : String → List String

/-! ## cited paths -/

/-- `_path_atom`. -/
def pathAtom (py : Python) (char : Char) : Bool :=
  py.isAlnum char || char = '.' || char = '_' || char = '-'

/-- The boundaries of an occurrence from `index` to `stop`. -/
def isBounded (py : Python) (slashCanPrecede : Bool) (anchor : List Char) (index stop : Nat) :
    Bool :=
  let beforeOk := match index with
    | 0 => true
    | i + 1 => match anchor[i]? with
      | none => true
      | some before => !pathAtom py before && (slashCanPrecede || before ≠ '/')
  let afterOk := match anchor[stop]? with
    | none => true
    | some '.' => match anchor[stop + 1]? with
      | none => true
      | some rest => !pathAtom py rest
    | some after => !pathAtom py after && after ≠ '/'
  beforeOk && afterOk

/-- `_bounded_path_mention`: the loop goes through the occurrences, overlapping ones
included. -/
def boundedPathMention (py : Python) (slashCanPrecede : Bool) (anchor needle : List Char) : Bool :=
  needle ≠ [] && (occurrences needle anchor 0).any fun index =>
    isBounded py slashCanPrecede anchor index (index + needle.length)

/-- `.replace("\\", "/")`. -/
def slashed (text : String) : List Char := text.toList.map fun c => if c = '\\' then '/' else c

/-- `PurePosixPath(path).name`. -/
def posixName (path : List Char) : List Char :=
  ((path.splitOn '/').filter fun part => part ≠ [] && part ≠ ['.']).getLast?.getD []

/-- `_evidence_mentions_changed_path`. -/
def evidenceMentionsChangedPath (py : Python) (evidence paths : List String) : Bool :=
  let anchors := (evidence.filter (· ≠ "")).map slashed
  paths.any fun path =>
    let normalized := slashed path
    let name := posixName normalized
    anchors.any fun anchor =>
      boundedPathMention py false anchor normalized || boundedPathMention py true anchor name

/-! ## the decision -/

/-- `MAX_REQUIREMENTS`. -/
def maxRequirements : Nat := 64

/-- `COVERAGE_VALUES`. -/
inductive Coverage where
  | covered
  | notCovered
  | unclear
deriving DecidableEq, Repr

/-- A coverage in a decision. -/
def coverage? : Json → Option Coverage
  | .str "covered" => some .covered
  | .str "not_covered" => some .notCovered
  | .str "unclear" => some .unclear
  | _ => none

/-- A winner in a decision. -/
def label? : Json → Option Label
  | .str "A" => some .A
  | .str "B" => some .B
  | _ => none

/-- A list of strings. -/
def evidence? : Json → Option (List String)
  | .arr values => values.mapM Json.asStr?
  | _ => none

/-- A well-formed requirement of a decision. -/
structure Requirement where
  requirement : String
  nonblank : isBlank requirement = false
  coverage : Label → Coverage
  evidence : Label → List String

/-- What `_judge_issue` finds. -/
inductive Issue where
  | invalidDecision
  | incompleteRequirementInventory
  | invalidRequirementCount
  | invalidRequirement (index : Nat)
  | invalidRequirementEvidence (index : Nat)
  | recommendedMissesRequirement (winner : Label) (index : Nat)
  | missingChangedPath (index : Nat)
  | tie
  | noSupportedAdvantage
deriving DecidableEq

/-- The text of an issue. -/
def Issue.text : Issue → String
  | invalidDecision => "invalid_decision"
  | incompleteRequirementInventory => "incomplete_requirement_inventory"
  | invalidRequirementCount => "invalid_requirement_count"
  | invalidRequirement index => "invalid_requirement_" ++ toString index
  | invalidRequirementEvidence index => "invalid_requirement_evidence_" ++ toString index
  | recommendedMissesRequirement .A index => "recommended_A_misses_requirement_" ++ toString index
  | recommendedMissesRequirement .B index => "recommended_B_misses_requirement_" ++ toString index
  | missingChangedPath index => "missing_changed_path_for_requirement_" ++ toString index
  | tie => "tie"
  | noSupportedAdvantage => "recommendation_has_no_supported_advantage"

/-- The value that belongs to a label. -/
def both {α : Type} (a b : α) : Label → α
  | .A => a
  | .B => b

/-- The checks on one requirement. -/
def readRequirement (index : Nat) (item : Json) : Except Issue Requirement :=
  match item.get "requirement" with
  | .str requirement =>
      if h : isBlank requirement = false then
        match coverage? (item.get "a_coverage"), coverage? (item.get "b_coverage"),
            evidence? (item.get "a_evidence"), evidence? (item.get "b_evidence") with
        | some coverageA, some coverageB, some evidenceA, some evidenceB =>
            .ok ⟨requirement, h, both coverageA coverageB, both evidenceA evidenceB⟩
        | _, _, _, _ => .error (.invalidRequirementEvidence index)
      else .error (.invalidRequirement index)
  | _ => .error (.invalidRequirement index)

variable (py : Python) (paths : Label → List String) (winner : Label)

/-- The evidence for a requirement cites a path that the winner changed. -/
def supports (r : Requirement) : Bool :=
  evidenceMentionsChangedPath py (r.evidence winner) (paths winner)

/-- The loop of `_judge_issue` over the requirements. -/
def judgeRequirements : (index : Nat) → (advantage tied : Bool) → List Json → Option Issue
  | _, advantage, tied, [] =>
      if advantage then none else some (if tied then .tie else .noSupportedAdvantage)
  | index, advantage, tied, item :: items =>
      match readRequirement index item with
      | .error issue => some issue
      | .ok r =>
          let tied := tied && decide (r.coverage .A = r.coverage .B)
          if r.coverage winner.other = .covered ∧ r.coverage winner = .notCovered then
            some (.recommendedMissesRequirement winner index)
          else if r.coverage winner = .covered ∧ r.coverage winner.other ≠ .covered then
            let supported := supports py paths winner r
            if supported = false ∧ r.coverage winner.other = .notCovered then
              some (.missingChangedPath index)
            else judgeRequirements (index + 1) (advantage || supported) tied items
          else judgeRequirements (index + 1) advantage tied items

/-- `_judge_issue`, and the winner of a decision without an issue. -/
def judge (result : Json) : Except Issue Label :=
  if !result.isObj then .error .invalidDecision
  else if result.get "requirements_complete" ≠ .bool true then
    .error .incompleteRequirementInventory
  else match label? (result.get "winner"), result.get "requirements" with
    | some winner, .arr requirements =>
        if !(1 ≤ requirements.length && requirements.length ≤ maxRequirements) then
          .error .invalidRequirementCount
        else match judgeRequirements py paths winner 1 false true requirements with
          | none => .ok winner
          | some issue => .error issue
    | _, _ => .error .invalidDecision

/-- `_fallback_winner`. -/
def fallbackWinner (results : List Json) : Label :=
  if results.any fun result => match result.get "requirements" with
    | .arr requirements => requirements.any fun item =>
        item.get "a_coverage" = .str "covered" && item.get "b_coverage" = .str "not_covered"
    | _ => false
  then .A else .B

/-! ## the run -/

/-- How a call out of the program ends; `aborted`: with what is no `Exception`. -/
inductive Call (α : Type) where
  | returned (value : α)
  | failed
  | aborted
deriving DecidableEq

/-- How the run ends without a selection. -/
inductive Raised where
  | aborted
  | typeError
  | sourceChanged
deriving DecidableEq

/-- What stands around the run. -/
structure Context where
  /-- `selector_prompt.format(rules=…, goal=…, candidates=…)`. -/
  formatPrompt : String → String
  /-- `ctx.agent`, by attempt and prompt. -/
  agent : Nat → String → Call Json
  /-- The source worktree has changed since the run began. -/
  sourceChanged : Bool
  /-- `ctx.adopt_candidate`, after the attempts that failed. -/
  adoptCandidate : List Label → Label → Call Unit

/-- `_candidate_view`. -/
def candidateView (candidate : CandidateRun) : Json :=
  .obj ([("diff", .str candidate.diff), ("diff_truncated", .bool false),
    ("changed_paths", .arr ((py.patchPaths candidate.effectiveDiff).map .str)),
    ("public_command", .str (candidateCommand py.str candidate))] ++
    (candidate.deliveryDiff.map fun _ => ("delivery_diff", .str candidate.effectiveDiff)).toList)

/-- The payload of `_judge_input`. -/
def judgeInput (candidateA candidateB : CandidateRun) : Json :=
  .obj [("A", candidateView py candidateA), ("B", candidateView py candidateB),
    ("shared_public_test_records",
      .arr ((sharedPublicRecords py.str candidateA candidateB).map SharedRecord.toJson))]

/-- The prompt of the recheck. -/
def recheckPrompt (prompt : String) (issue : Issue) (decision : String) : String :=
  prompt ++ "\n\nSelection recheck\n" ++
    "The previous recommendation could not be justified by its requirement evidence.\n" ++
    "Validation finding: " ++ issue.text ++ "\n" ++
    "Previous decision\n" ++ decision ++ "\n" ++
    "Reinspect the relevant original changed paths and trace the public behavior. " ++
    "Correct the coverage entries or recommendation using that evidence. " ++
    "Preserve genuine uncertainty and explicit missing behavior. Cite the changed path " ++
    "inside each decisive evidence entry. Return a complete replacement decision. " ++
    "If neither candidate has a supported advantage, choose B and explain the tie. " ++
    "Use only the supplied public task and candidate evidence."

/-- The winner, the decision and the reason of `_review_and_select`. -/
structure Review where
  winner : Label
  decision : Option Json
  reason : Reason

/-- What `_review_and_select` returns without an accepted decision. -/
def fallbackReview (decisions : List Json) : Review :=
  let winner := fallbackWinner decisions
  { winner, decision := decisions.getLast?
    reason := if winner = .A then .contractBRegressionDefaultA
      else .contractEvidenceInsufficientDefaultB }

/-- The attempts that `_review_and_select` has left. -/
def reviewFrom (agent : Nat → String → Call Json) (prompt : String) :
    (left attempt : Nat) → (decisions : List Json) → (currentPrompt : String) →
    Except Raised Review
  | 0, _, decisions, _ => .ok (fallbackReview decisions)
  | left + 1, attempt, decisions, currentPrompt =>
      match agent attempt currentPrompt with
      | .aborted => .error .aborted
      | .failed => .ok (fallbackReview decisions)
      | .returned result =>
          match judge py paths result with
          | .ok winner => .ok { winner, decision := some result
                                reason := if attempt = 0 then .contractAdjudicated
                                  else .contractAdjudicatedAfterRecheck }
          | .error .tie => .ok (fallbackReview (decisions ++ [result]))
          | .error issue =>
              if attempt = 0 then
                match py.dumps result with
                | none => .error .typeError
                | some decision =>
                    reviewFrom agent prompt left (attempt + 1) (decisions ++ [result])
                      (recheckPrompt prompt issue decision)
              else reviewFrom agent prompt left (attempt + 1) (decisions ++ [result]) currentPrompt

/-- `_contract_adjudicate` with `_review_and_select`. -/
def contractAdjudicate (ctx : Context) (candidateA candidateB : CandidateRun) :
    Except Raised Review :=
  match py.dumps (judgeInput py candidateA candidateB) with
  | none => .error .typeError
  | some evidence =>
      let prompt := ctx.formatPrompt evidence
      reviewFrom py (both (py.patchPaths candidateA.effectiveDiff)
        (py.patchPaths candidateB.effectiveDiff)) ctx.agent prompt 2 0 [] prompt

/-- What `_adopt` returns; `aborted`: an attempt ended with what is no `Exception`. -/
structure Adoption where
  adopted : Option Label
  attempts : List Label
  aborted : Bool := false
deriving DecidableEq

/-- The loop of `_adopt`. -/
def adoptFrom (adoptCandidate : List Label → Label → Call Unit) (empty : Label → Bool) :
    (order attempts : List Label) → Adoption
  | [], attempts => { adopted := none, attempts }
  | label :: order, attempts =>
      if empty label then adoptFrom adoptCandidate empty order attempts
      else match adoptCandidate attempts label with
        | .returned _ => { adopted := some label, attempts := attempts ++ [label] }
        | .failed => adoptFrom adoptCandidate empty order (attempts ++ [label])
        | .aborted => { adopted := none, attempts := attempts ++ [label], aborted := true }

/-- `_adopt`. -/
def adopt (adoptCandidate : List Label → Label → Call Unit) (empty : Label → Bool) :
    Option Label → Adoption
  | none => { adopted := none, attempts := [] }
  | some winner => adoptFrom adoptCandidate empty [winner, winner.other] []

/-- What a run selects. -/
structure Selection where
  winner : Option Label
  reason : Reason
  judgeResult : Option Json
  adoption : Adoption
deriving DecidableEq

/-- `run_dual_coder` from the two candidates on. -/
def runDualCoder (ctx : Context) (candidateA candidateB : CandidateRun) :
    Except Raised Selection := do
  let (choice, mechanicalReason, needsJudge) := mechanicalChoice py.str candidateA candidateB
  let (winner, reason, judgeResult) ←
    if needsJudge then do
      let review ← contractAdjudicate py ctx candidateA candidateB
      pure (some review.winner, review.reason, review.decision)
    else pure (choice, mechanicalReason, none)
  if ctx.sourceChanged then .error .sourceChanged
  else pure { winner, reason, judgeResult
              adoption := adopt ctx.adoptCandidate
                (fun label => (pick candidateA candidateB label).empty) winner }

/-! ## accepted decisions -/

variable {py : Python} {paths : Label → List String} {winner label : Label} {index : Nat}
  {advantage tied : Bool} {item result : Json} {items : List Json} {r : Requirement}

/-- The item is the requirement, well-formed. -/
structure IsRequirement (item : Json) (r : Requirement) : Prop where
  requirement : item.get "requirement" = .str r.requirement
  coverageA : coverage? (item.get "a_coverage") = some (r.coverage .A)
  coverageB : coverage? (item.get "b_coverage") = some (r.coverage .B)
  evidenceA : evidence? (item.get "a_evidence") = some (r.evidence .A)
  evidenceB : evidence? (item.get "b_evidence") = some (r.evidence .B)

/-- The loser covers the requirement and the winner does not. -/
def Requirement.Against (r : Requirement) (winner : Label) : Prop :=
  r.coverage winner.other = .covered ∧ r.coverage winner = .notCovered

/-- The winner covers the requirement, the loser does not, and the evidence cites a
path that the winner changed. -/
def Requirement.Favors (r : Requirement) (py : Python) (paths : Label → List String)
    (winner : Label) : Prop :=
  r.coverage winner = .covered ∧ r.coverage winner.other ≠ .covered ∧
    supports py paths winner r = true

/-- What an accepted decision satisfies. -/
structure Accepted (py : Python) (paths : Label → List String) (result : Json) (winner : Label) :
    Prop where
  complete : result.get "requirements_complete" = .bool true
  recommended : label? (result.get "winner") = some winner
  inventory : ∃ items requirements, result.get "requirements" = .arr items ∧
    (1 ≤ items.length ∧ items.length ≤ maxRequirements) ∧
    List.Forall₂ IsRequirement items requirements ∧
    (∀ r ∈ requirements, ¬r.Against winner) ∧ ∃ r ∈ requirements, r.Favors py paths winner

theorem readRequirement_spec (h : readRequirement index item = .ok r) : IsRequirement item r := by
  unfold readRequirement at h
  split at h
  · rename_i requirement hrequirement
    split at h
    · split at h
      · rename_i hA hB heA heB
        obtain rfl := Except.ok.inj h
        exact ⟨hrequirement, hA, hB, heA, heB⟩
      · contradiction
    · contradiction
  · contradiction

/-- **The loop without an issue**: every item is a requirement, none is against the
winner, and one is in its favor unless there was an advantage before. -/
theorem judgeRequirements_spec
    (h : judgeRequirements py paths winner index advantage tied items = none) :
    ∃ requirements, List.Forall₂ IsRequirement items requirements ∧
      (∀ r ∈ requirements, ¬r.Against winner) ∧
      (advantage = true ∨ ∃ r ∈ requirements, r.Favors py paths winner) := by
  induction items generalizing index advantage tied with
  | nil =>
      rw [judgeRequirements] at h
      refine ⟨[], .nil, fun r hr => absurd hr List.not_mem_nil, .inl ?_⟩
      cases advantage with
      | true => rfl
      | false => contradiction
  | cons item items ih =>
      rw [judgeRequirements] at h
      split at h
      · contradiction
      · rename_i r hread
        have hitem := readRequirement_spec hread
        dsimp only at h
        split at h
        · contradiction
        · rename_i hagainst
          split at h
          · rename_i hcovers
            split at h
            · contradiction
            · obtain ⟨requirements, hitems, hnone, hfavor⟩ := ih h
              refine ⟨r :: requirements, .cons hitem hitems, ?_, ?_⟩
              · rw [List.forall_mem_cons]
                exact ⟨hagainst, hnone⟩
              · obtain hadvantage | ⟨r', hr', hfavor⟩ := hfavor
                · rw [Bool.or_eq_true] at hadvantage
                  obtain hadvantage | hsupports := hadvantage
                  · exact .inl hadvantage
                  · exact .inr ⟨r, List.mem_cons_self, hcovers.1, hcovers.2, hsupports⟩
                · exact .inr ⟨r', List.mem_cons_of_mem _ hr', hfavor⟩
          · obtain ⟨requirements, hitems, hnone, hfavor⟩ := ih h
            refine ⟨r :: requirements, .cons hitem hitems, ?_, ?_⟩
            · rw [List.forall_mem_cons]
              exact ⟨hagainst, hnone⟩
            · obtain hadvantage | ⟨r', hr', hfavor⟩ := hfavor
              · exact .inl hadvantage
              · exact .inr ⟨r', List.mem_cons_of_mem _ hr', hfavor⟩

/-- **A decision without an issue is accepted for its winner.** -/
theorem judge_spec (h : judge py paths result = .ok winner) : Accepted py paths result winner := by
  unfold judge at h
  split at h
  · contradiction
  · split at h
    · contradiction
    · rename_i hcomplete
      rw [not_not] at hcomplete
      split at h
      · rename_i found requirements hwinner hrequirements
        split at h
        · contradiction
        · rename_i hcount
          rw [Bool.not_eq_true', Bool.not_eq_false, Bool.and_eq_true, decide_eq_true_eq,
            decide_eq_true_eq] at hcount
          split at h
          · rename_i hloop
            obtain rfl := Except.ok.inj h
            obtain ⟨read, hitems, hnone, hfavor⟩ := judgeRequirements_spec hloop
            obtain hadvantage | hfavor := hfavor
            · contradiction
            · exact ⟨hcomplete, hwinner, requirements, read, hrequirements, hcount, hitems, hnone,
                hfavor⟩
          · contradiction
      · contradiction

/-! ## the review -/

/-- The review ends with an accepted decision, or with a default. -/
def Review.Sound (py : Python) (paths : Label → List String) (review : Review) : Prop :=
  ((review.reason = .contractAdjudicated ∨ review.reason = .contractAdjudicatedAfterRecheck) ∧
      ∃ result, review.decision = some result ∧ Accepted py paths result review.winner) ∨
    review.reason = .contractBRegressionDefaultA ∨
    review.reason = .contractEvidenceInsufficientDefaultB

theorem fallbackReview_sound (decisions : List Json) :
    (fallbackReview decisions).Sound py paths := by
  right
  unfold fallbackReview
  dsimp only
  split
  · exact .inl rfl
  · exact .inr rfl

/-- **Each attempt is accepted, leads to a default, or leaves it to the next.** -/
theorem reviewFrom_spec {agent : Nat → String → Call Json} {prompt currentPrompt : String}
    {left attempt : Nat} {decisions : List Json} {review : Review}
    (h : reviewFrom py paths agent prompt left attempt decisions currentPrompt = .ok review) :
    review.Sound py paths := by
  induction left generalizing attempt decisions currentPrompt with
  | zero =>
      rw [reviewFrom] at h
      obtain rfl := Except.ok.inj h
      exact fallbackReview_sound decisions
  | succ left ih =>
      rw [reviewFrom] at h
      split at h
      · contradiction
      · obtain rfl := Except.ok.inj h
        exact fallbackReview_sound decisions
      · rename_i result _
        split at h
        · rename_i found hjudge
          obtain rfl := Except.ok.inj h
          refine .inl ⟨?_, result, rfl, judge_spec hjudge⟩
          dsimp only
          split
          · exact .inl rfl
          · exact .inr rfl
        · obtain rfl := Except.ok.inj h
          exact fallbackReview_sound _
        · split at h
          · split at h
            · contradiction
            · exact ih h
          · exact ih h

/-! ## the adoption -/

variable {adoptCandidate : List Label → Label → Call Unit} {empty : Label → Bool}
  {order attempts : List Label}

/-- The candidate was passed over: its diff is empty, or its adoption failed. -/
def PassedOver (adoptCandidate : List Label → Label → Call Unit) (empty : Label → Bool)
    (attempts : List Label) (label : Label) : Prop :=
  empty label = true ∨
    ∃ before, before ++ [label] <+: attempts ∧ adoptCandidate before label = .failed

/-- **What an adoption has done**: only candidates with a diff were attempted, the
attempt that returned is the last one and names the candidate adopted, and every
candidate before it in the order was passed over. -/
structure Adopts (adoptCandidate : List Label → Label → Call Unit) (empty : Label → Bool)
    (order attempts : List Label) (adoption : Adoption) : Prop where
  extends_ : attempts <+: adoption.attempts
  nonempty : ∀ label ∈ adoption.attempts.drop attempts.length, empty label = false
  single : ∀ before label, attempts <+: before → before ++ [label] <+: adoption.attempts →
    adoptCandidate before label = .returned () →
    adoption.adopted = some label ∧ before ++ [label] = adoption.attempts
  adopted : ∀ label, adoption.adopted = some label →
    (∃ before, attempts <+: before ∧ adoption.attempts = before ++ [label] ∧
      adoptCandidate before label = .returned ()) ∧
    ∃ passed rest, order = passed ++ label :: rest ∧
      ∀ other ∈ passed, PassedOver adoptCandidate empty adoption.attempts other

/-- An attempt behind the attempts so far is not one of them. -/
theorem not_earlier_attempt {before : List Label} (h : attempts <+: before) :
    ¬before ++ [label] <+: attempts := by
  intro hle
  have hlen := h.length_le
  have hlen' := hle.length_le
  rw [List.length_append, List.length_singleton] at hlen'
  omega

/-- The attempt that follows the attempts so far is the next one, or comes later. -/
theorem next_attempt {before all : List Label} {next : Label} (h : attempts <+: before)
    (hall : before ++ [label] <+: all) (hnext : attempts ++ [next] <+: all) :
    before = attempts ∧ label = next ∨ attempts ++ [next] <+: before := by
  have hsame : ∀ {other}, attempts ++ [other] <+: all → other = next := by
    intro other hother
    have hle := List.prefix_of_prefix_length_le hother hnext (by simp)
    have heq := hle.eq_of_length (by simp)
    exact List.singleton_inj.mp (List.append_cancel_left heq)
  obtain ⟨tried, rfl⟩ := h
  cases tried with
  | nil =>
      rw [List.append_nil] at hall ⊢
      exact .inl ⟨rfl, hsame hall⟩
  | cons first tried =>
      have hfirst : attempts ++ [first] <+: attempts ++ first :: tried :=
        (List.prefix_append_right_inj attempts).mpr ⟨tried, rfl⟩
      obtain rfl := hsame ((hfirst.trans (List.prefix_append _ _)).trans hall)
      exact .inr hfirst

theorem adoptFrom_spec (adoptCandidate : List Label → Label → Call Unit) (empty : Label → Bool)
    (order attempts : List Label) :
    Adopts adoptCandidate empty order attempts (adoptFrom adoptCandidate empty order attempts) := by
  induction order generalizing attempts with
  | nil =>
      refine ⟨List.prefix_rfl, ?_, ?_, ?_⟩
      · intro label hmem
        rw [adoptFrom, List.drop_length] at hmem
        contradiction
      · intro before label hbefore hattempt _
        exact absurd hattempt (not_earlier_attempt hbefore)
      · intro label h
        contradiction
  | cons next order ih =>
      rw [adoptFrom]
      split
      · rename_i hempty
        obtain ⟨hextends, hnonempty, hsingle, hadopted⟩ := ih attempts
        refine ⟨hextends, hnonempty, hsingle, fun label h => ?_⟩
        obtain ⟨hlast, passed, rest, horder, hpassed⟩ := hadopted label h
        refine ⟨hlast, next :: passed, rest, by rw [horder, List.cons_append], ?_⟩
        rw [List.forall_mem_cons]
        exact ⟨.inl hempty, hpassed⟩
      · rename_i hnonempty
        rw [Bool.not_eq_true] at hnonempty
        have hdrop : ∀ label ∈ (attempts ++ [next]).drop attempts.length, empty label = false := by
          intro label hmem
          rw [List.drop_left, List.mem_singleton] at hmem
          rw [hmem]
          exact hnonempty
        have hlast : ∀ {before label}, attempts <+: before →
            before ++ [label] <+: attempts ++ [next] → before = attempts ∧ label = next := by
          intro before label hbefore hattempt
          rw [List.prefix_concat_iff] at hattempt
          obtain hsame | hle := hattempt
          · obtain ⟨hsame, hlabel⟩ := List.append_inj' hsame rfl
            exact ⟨hsame, List.singleton_inj.mp hlabel⟩
          · exact absurd hle (not_earlier_attempt hbefore)
        split
        · rename_i hreturned
          refine ⟨List.prefix_append _ _, hdrop, ?_, ?_⟩
          · intro before label hbefore hattempt _
            obtain ⟨rfl, rfl⟩ := hlast hbefore hattempt
            exact ⟨rfl, rfl⟩
          · intro label h
            obtain rfl := Option.some.inj h
            exact ⟨⟨attempts, List.prefix_rfl, rfl, hreturned⟩, [], order, rfl,
              fun other hother => absurd hother List.not_mem_nil⟩
        · rename_i hfailed
          obtain ⟨hextends, hmore, hsingle, hadopted⟩ := ih (attempts ++ [next])
          refine ⟨(List.prefix_append _ _).trans hextends, ?_, ?_, ?_⟩
          · obtain ⟨tried, htried⟩ := hextends
            rw [← htried, List.drop_left] at hmore
            rw [← htried, List.append_assoc, List.drop_left, List.singleton_append,
              List.forall_mem_cons]
            exact ⟨hnonempty, hmore⟩
          · intro before label hbefore hattempt hreturned
            obtain ⟨rfl, rfl⟩ | hbefore := next_attempt hbefore hattempt hextends
            · rw [hfailed] at hreturned
              contradiction
            · exact hsingle before label hbefore hattempt hreturned
          · intro label h
            obtain ⟨⟨before, hbefore, hattempts, hreturned⟩, passed, rest, horder, hpassed⟩ :=
              hadopted label h
            refine ⟨⟨before, (List.prefix_append _ _).trans hbefore, hattempts, hreturned⟩,
              next :: passed, rest, by rw [horder, List.cons_append], ?_⟩
            rw [List.forall_mem_cons]
            exact ⟨.inr ⟨attempts, hextends, hfailed⟩, hpassed⟩
        · rename_i haborted
          refine ⟨List.prefix_append _ _, hdrop, ?_, ?_⟩
          · intro before label hbefore hattempt hreturned
            obtain ⟨rfl, rfl⟩ := hlast hbefore hattempt
            rw [haborted] at hreturned
            contradiction
          · intro label h
            contradiction

/-! ## the run -/

/-- **What a selection rests on.** -/
structure Justified (py : Python) (ctx : Context) (candidateA candidateB : CandidateRun)
    (s : Selection) : Prop where
  /-- No candidate without a diff is attempted. -/
  nonempty : ∀ label ∈ s.adoption.attempts, (pick candidateA candidateB label).empty = false
  /-- An attempt that returns is the last one, and the candidate adopted. -/
  single : ∀ before label, before ++ [label] <+: s.adoption.attempts →
    ctx.adoptCandidate before label = .returned () →
    s.adoption.adopted = some label ∧ before ++ [label] = s.adoption.attempts
  /-- The candidate adopted is the winner, or the winner was passed over. -/
  adopted : ∀ label, s.adoption.adopted = some label →
    label ∈ s.adoption.attempts ∧ ∃ winner, s.winner = some winner ∧ (label = winner ∨
      PassedOver ctx.adoptCandidate (fun label => (pick candidateA candidateB label).empty)
        s.adoption.attempts winner)
  /-- The public failure decides exactly where it is one-sided. -/
  publicRed : ∀ label, s.winner = some label ∧ s.reason = .sameCommandPublicRed ↔
    candidateA.empty = false ∧ candidateB.empty = false ∧
      Beats py.str candidateA candidateB label ∧ ¬Beats py.str candidateA candidateB label.other
  /-- An adjudicated winner is the one of an accepted decision. -/
  adjudicated : s.reason = .contractAdjudicated ∨ s.reason = .contractAdjudicatedAfterRecheck →
    ∃ result winner, s.judgeResult = some result ∧ s.winner = some winner ∧
      Accepted py (both (py.patchPaths candidateA.effectiveDiff)
        (py.patchPaths candidateB.effectiveDiff)) result winner

variable {ctx : Context} {candidateA candidateB : CandidateRun} {s : Selection}

/-- The mechanical choice adjudicates nothing, and a public failure needs no judge. -/
theorem mechanicalChoice_reason {choice : Option Label} {reason : Reason} {needsJudge : Bool}
    (h : mechanicalChoice py.str candidateA candidateB = (choice, reason, needsJudge)) :
    reason ≠ .contractAdjudicated ∧ reason ≠ .contractAdjudicatedAfterRecheck ∧
      (needsJudge = true → reason ≠ .sameCommandPublicRed) := by
  unfold mechanicalChoice at h
  dsimp only at h
  split at h
  · cases h
    decide
  · split at h
    · cases h
      decide
    · split at h
      · cases h
        decide
      · split at h
        · cases h
          decide
        · split at h
          · cases h
            decide
          · cases h
            decide

/-- **How a run comes to its winner**: by the mechanical choice, or by a review where
that asks for a judge. -/
theorem runDualCoder_spec (h : runDualCoder py ctx candidateA candidateB = .ok s) :
    (mechanicalChoice py.str candidateA candidateB = (s.winner, s.reason, false) ∨
      (mechanicalChoice py.str candidateA candidateB).2.1 ≠ .sameCommandPublicRed ∧
        ∃ review, contractAdjudicate py ctx candidateA candidateB = .ok review ∧
          s.winner = some review.winner ∧ s.reason = review.reason ∧
          s.judgeResult = review.decision) ∧
      s.adoption = adopt ctx.adoptCandidate
        (fun label => (pick candidateA candidateB label).empty) s.winner := by
  unfold runDualCoder at h
  cases hmechanical : mechanicalChoice py.str candidateA candidateB with
  | mk choice rest =>
      obtain ⟨reason, needsJudge⟩ := rest
      rw [hmechanical] at h
      dsimp only at h
      cases needsJudge with
      | false =>
          simp only [Bool.false_eq_true, if_false, pure_bind] at h
          split at h
          · contradiction
          · obtain rfl := Except.ok.inj h
            exact ⟨.inl rfl, rfl⟩
      | true =>
          have hred := (mechanicalChoice_reason hmechanical).2.2 rfl
          simp only [if_true, pure_bind] at h
          cases hreview : contractAdjudicate py ctx candidateA candidateB with
          | error e =>
              rw [hreview] at h
              contradiction
          | ok review =>
              rw [hreview] at h
              change (if ctx.sourceChanged = true then _ else _) = _ at h
              split at h
              · contradiction
              · obtain rfl := Except.ok.inj h
                exact ⟨.inr ⟨hred, review, rfl, rfl, rfl, rfl⟩, rfl⟩

theorem contractAdjudicate_spec {review : Review}
    (h : contractAdjudicate py ctx candidateA candidateB = .ok review) :
    review.Sound py (both (py.patchPaths candidateA.effectiveDiff)
      (py.patchPaths candidateB.effectiveDiff)) := by
  unfold contractAdjudicate at h
  split at h
  · contradiction
  · exact reviewFrom_spec h

/-- What `_adopt` has done for a choice. -/
theorem adopt_spec (adoptCandidate : List Label → Label → Call Unit) (empty : Label → Bool)
    (choice : Option Label) :
    (∀ label ∈ (adopt adoptCandidate empty choice).attempts, empty label = false) ∧
    (∀ before label, before ++ [label] <+: (adopt adoptCandidate empty choice).attempts →
      adoptCandidate before label = .returned () →
      (adopt adoptCandidate empty choice).adopted = some label ∧
        before ++ [label] = (adopt adoptCandidate empty choice).attempts) ∧
    ∀ label, (adopt adoptCandidate empty choice).adopted = some label →
      label ∈ (adopt adoptCandidate empty choice).attempts ∧ ∃ winner, choice = some winner ∧
        (label = winner ∨
          PassedOver adoptCandidate empty (adopt adoptCandidate empty choice).attempts winner) := by
  cases choice with
  | none =>
      refine ⟨fun label hmem => absurd hmem List.not_mem_nil, ?_, ?_⟩
      · intro before label hattempt
        exact absurd hattempt (not_earlier_attempt (List.nil_prefix))
      · intro label h
        contradiction
  | some winner =>
      rw [adopt]
      obtain ⟨-, hnonempty, hsingle, hadopted⟩ :=
        adoptFrom_spec adoptCandidate empty [winner, winner.other] []
      refine ⟨hnonempty, fun before label => hsingle before label List.nil_prefix, ?_⟩
      intro label h
      obtain ⟨⟨before, -, hattempts, -⟩, passed, rest, horder, hpassed⟩ := hadopted label h
      refine ⟨by rw [hattempts]; simp, winner, rfl, ?_⟩
      cases passed with
      | nil =>
          obtain ⟨rfl, -⟩ := List.cons.inj horder
          exact .inl rfl
      | cons first passed =>
          obtain ⟨rfl, -⟩ := List.cons.inj horder
          exact .inr (hpassed winner List.mem_cons_self)

/-- **Every selection is justified**, whatever the adjudicator answers and the
adoptions do. -/
theorem selection_justified (h : runDualCoder py ctx candidateA candidateB = .ok s) :
    Justified py ctx candidateA candidateB s := by
  obtain ⟨hchoice, hadoption⟩ := runDualCoder_spec h
  obtain ⟨hnonempty, hsingle, hadopted⟩ := adopt_spec ctx.adoptCandidate
    (fun label => (pick candidateA candidateB label).empty) s.winner
  rw [← hadoption] at hnonempty hsingle hadopted
  refine ⟨hnonempty, hsingle, hadopted, ?_, ?_⟩
  · intro label
    rw [← mechanicalChoice_publicRed]
    obtain hmechanical | ⟨hother, review, hreview, hwinner, hreason, -⟩ := hchoice
    · rw [hmechanical, Prod.mk.injEq, Prod.mk.injEq, and_iff_left rfl]
    · constructor
      · intro ⟨_, hred⟩
        rw [hreason] at hred
        obtain ⟨hadjudicated | hadjudicated, -⟩ | hdefault | hdefault :=
          contractAdjudicate_spec hreview
        · rw [hadjudicated] at hred
          contradiction
        · rw [hadjudicated] at hred
          contradiction
        · rw [hdefault] at hred
          contradiction
        · rw [hdefault] at hred
          contradiction
      · intro hmechanical
        rw [hmechanical] at hother
        contradiction
  · intro hreason
    obtain hmechanical | ⟨-, review, hreview, hwinner, hreview', hresult⟩ := hchoice
    · have hnot := mechanicalChoice_reason hmechanical
      obtain h | h := hreason
      · exact absurd h hnot.1
      · exact absurd h hnot.2.1
    · rw [hreview'] at hreason
      obtain ⟨-, result, hdecision, haccepted⟩ | hdefault | hdefault :=
        contractAdjudicate_spec hreview
      · exact ⟨result, review.winner, by rw [hresult, hdecision], hwinner, haccepted⟩
      · rw [hdefault] at hreason
        obtain h | h := hreason <;> contradiction
      · rw [hdefault] at hreason
        obtain h | h := hreason <;> contradiction

/-- A run in which a public failure chooses A, and A cannot be adopted. -/
theorem selection_justified_sample :
    Justified
      { str := fun _ => "", isAlnum := Char.isAlphanum, dumps := fun _ => none
        patchPaths := fun _ => [] }
      { formatPrompt := id, agent := fun _ _ => .failed, sourceChanged := false
        adoptCandidate := fun _ label => if label = .A then .failed else .returned () }
      (tested "a" [testRecord 0 true]) (tested "b" [testRecord 1 false])
      { winner := some .A, reason := .sameCommandPublicRed, judgeResult := none
        adoption := { adopted := some .B, attempts := [.A, .B] } } :=
  selection_justified (by decide +kernel)

end OpenCollab.Duo
