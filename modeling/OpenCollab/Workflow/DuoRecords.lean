import OpenCollab.Json
import OpenCollab.Text
import OpenCollab.Lib.Dict
import Mathlib.Data.List.Dedup
import Mathlib.Data.String.Basic

/-!
# OpenCollab.Workflow.DuoRecords

The two candidates of a `duo` run and their public test records
(`builtin_workflows/duo/_candidate_records.py`, `_selection.py`).  Both the
mechanical comparison and the records shown to the judge are dictionaries over the
records of a candidate, of which a key keeps the last; they differ in the records
that enter them:

* `get?_states` — the comparison takes the last record that carries a verdict;
* `mem_sharedPublicRecords` — the judge is shown the last record;
* `publicRedWinner_eq_some` — the winner of the comparison.
-/

namespace OpenCollab.Duo

open Lib

/-! ## candidates -/

/-- The label of a candidate. -/
inductive Label where
  | A
  | B
deriving DecidableEq, Repr

/-- The other candidate. -/
def Label.other : Label → Label
  | .A => .B
  | .B => .A

@[simp] theorem Label.other_other (label : Label) : label.other.other = label := by
  cases label <;> rfl

theorem Label.eq_or_eq_other (label other : Label) : other = label ∨ other = label.other := by
  cases label <;> cases other <;> decide

/-- What the selection reads of a `CandidateRun`. -/
structure CandidateRun where
  output : Json
  diff : String
  deliveryDiff : Option String
  deliverySourceDiff : Option String

/-- `CandidateRun.effective_diff`. -/
def CandidateRun.effectiveDiff (candidate : CandidateRun) : String :=
  match candidate.deliveryDiff with
  | none => candidate.diff
  | some delivery =>
      if candidate.deliverySourceDiff ≠ some candidate.diff then candidate.diff else delivery

/-- `not candidate.effective_diff.strip()`. -/
def CandidateRun.empty (candidate : CandidateRun) : Bool := isBlank candidate.effectiveDiff

variable (str : Json → String)

/-! ## records -/

/-- `str(value)`; `str` is asked for what is not a string. -/
def pyStr : Json → String
  | .str s => s
  | value => str value

/-- `str(value or "").strip()`. -/
def strippedText (value : Json) : String := if value.truthy then strip (pyStr str value) else ""

/-- `_clip_text`. -/
def clipText : Json → String
  | .null => ""
  | value => pyStr str value

/-- The dict of `_public_record`; `none`: the field is not in the record. -/
structure PublicRecord where
  target : String
  runner : String
  command : String
  exitCode : Json
  verified : Bool
  applicability : Option Json
  postTestEdits : Option Json
  postTestCommands : Option Json
deriving DecidableEq

/-- `_public_record`. -/
def publicRecord (record : Json) : PublicRecord where
  target := clipText str (record.get "target")
  runner := clipText str (record.get "runner")
  command := clipText str (record.get "command")
  exitCode := record.get "exit_code"
  verified := decide (record.get "verified" = .bool true)
  applicability := record.get? "applicability"
  postTestEdits := record.get? "post_test_edits"
  postTestCommands := record.get? "post_test_commands"

/-- `_candidate_output`: without a dict there is nothing in it to get. -/
def candidateOutput (candidate : CandidateRun) : Json :=
  if candidate.output.isObj then candidate.output else .obj []

/-- `_candidate_command`. -/
def candidateCommand (candidate : CandidateRun) : String :=
  strippedText str ((candidateOutput candidate).get "public_command")

/-- `_candidate_records`. -/
def candidateRecords (candidate : CandidateRun) : List PublicRecord :=
  match (candidateOutput candidate).get "public_test_records" with
  | .arr records => (records.filter Json.isObj).map (publicRecord str)
  | _ => []

/-- Target, runner and command. -/
abbrev Key := String × String × String

/-- `_record_key`; the fields of a public record are strings. -/
def recordKey (record : PublicRecord) : Key :=
  (strip record.target, strip record.runner, strip record.command)

/-- `all(key)`. -/
def Key.complete (key : Key) : Bool := key.1 ≠ "" && key.2.1 ≠ "" && key.2.2 ≠ ""

/-- A current verified pass, or a current failure. -/
inductive Verdict where
  | green
  | red
deriving DecidableEq, Repr

/-- `_record_state`. -/
def recordState (record : PublicRecord) : Option Verdict :=
  if record.applicability.getD (.str "current") ≠ .str "current" then none
  else if !Key.complete (recordKey record) then none
  else match record.exitCode with
    | .int exitCode =>
        if exitCode = 0 ∧ record.verified = true then some .green
        else if exitCode ≠ 0 ∧ record.verified = false then some .red
        else none
    | _ => none

/-! ## the mechanical comparison -/

/-- The states of `_public_red_winner`. -/
def states (candidate : CandidateRun) : Dict Key Verdict :=
  Dict.ofPairs ((candidateRecords str candidate).filterMap fun record =>
    (recordState record).map (recordKey record, ·))

/-- The decisions of `_public_red_winner`, one for each key on which the candidates
are opposed. -/
def decisions (candidateA candidateB : CandidateRun) : List Label :=
  (states str candidateA).entries.filterMap fun (key, stateA) =>
    match stateA, (states str candidateB).get? key with
    | .green, some .red => some .A
    | .red, some .green => some .B
    | _, _ => none

/-- `_public_red_winner`. -/
def publicRedWinner (candidateA candidateB : CandidateRun) : Option Label :=
  match (decisions str candidateA candidateB).dedup with
  | [label] => some label
  | _ => none

/-- Why a winner is chosen. -/
inductive Reason where
  | onlyANonempty
  | onlyBNonempty
  | bothEmpty
  | sameCommandPublicRed
  | identicalDiff
  | contractAdjudication
  | contractAdjudicated
  | contractAdjudicatedAfterRecheck
  | contractBRegressionDefaultA
  | contractEvidenceInsufficientDefaultB
deriving DecidableEq, Repr

/-- `_mechanical_choice`: the winner, the reason, and whether a judge is needed. -/
def mechanicalChoice (candidateA candidateB : CandidateRun) : Option Label × Reason × Bool :=
  let nonemptyA := !candidateA.empty
  let nonemptyB := !candidateB.empty
  if nonemptyA && !nonemptyB then (some .A, .onlyANonempty, false)
  else if nonemptyB && !nonemptyA then (some .B, .onlyBNonempty, false)
  else if !nonemptyA && !nonemptyB then (none, .bothEmpty, false)
  else match publicRedWinner str candidateA candidateB with
    | some winner => (some winner, .sameCommandPublicRed, false)
    | none =>
        if candidateA.effectiveDiff = candidateB.effectiveDiff then (some .B, .identicalDiff, false)
        else (none, .contractAdjudication, true)

/-! ## the records shown -/

/-- The record, if `all(key)`. -/
def keyed (record : PublicRecord) : Option PublicRecord :=
  if Key.complete (recordKey record) then some record else none

/-- The records of `_shared_public_records`, the last of each key. -/
def shownRecords (candidate : CandidateRun) : Dict Key PublicRecord :=
  Dict.ofPairs ((candidateRecords str candidate).filterMap fun record =>
    (keyed record).map (recordKey record, ·))

/-- One entry of the shared records. -/
structure SharedRecord where
  key : Key
  recordA : PublicRecord
  recordB : PublicRecord
deriving DecidableEq

/-- The order of tuples of strings. -/
def Key.le (key key' : Key) : Bool :=
  decide (key.1 < key'.1) || key.1 = key'.1 &&
    (decide (key.2.1 < key'.2.1) || key.2.1 = key'.2.1 && !decide (key'.2.2 < key.2.2))

/-- `_shared_public_records`, sorted by key. -/
def sharedPublicRecords (candidateA candidateB : CandidateRun) : List SharedRecord :=
  ((shownRecords str candidateA).entries.filterMap fun (key, recordA) =>
    ((shownRecords str candidateB).get? key).map fun recordB =>
      { key, recordA, recordB }).mergeSort fun entry entry' => Key.le entry.key entry'.key

/-- One side of an entry as the judge reads it. -/
def PublicRecord.shown (record : PublicRecord) : Json :=
  .obj ([("exit_code", record.exitCode), ("verified", .bool record.verified)] ++
    (record.applicability.map ("applicability", ·)).toList ++
    (record.postTestEdits.map ("post_test_edits", ·)).toList ++
    (record.postTestCommands.map ("post_test_commands", ·)).toList)

/-- An entry as the judge reads it. -/
def SharedRecord.toJson (entry : SharedRecord) : Json :=
  .obj [("target", .str entry.key.1), ("runner", .str entry.key.2.1),
    ("command", .str entry.key.2.2), ("A", entry.recordA.shown), ("B", entry.recordB.shown)]

/-! ## the last record of a key -/

/-- The last record of the key that carries a verdict, and the verdict. -/
def LastVerdict (candidate : CandidateRun) (key : Key) (verdict : Verdict) : Prop :=
  ∃ front record back, candidateRecords str candidate = front ++ record :: back ∧
    recordKey record = key ∧ recordState record = some verdict ∧
    ∀ later ∈ back, recordKey later = key → recordState later = none

/-- The last record of the key. -/
def LastRecord (candidate : CandidateRun) (key : Key) (record : PublicRecord) : Prop :=
  ∃ front back, candidateRecords str candidate = front ++ record :: back ∧
    recordKey record = key ∧ ∀ later ∈ back, recordKey later ≠ key

variable {str : Json → String} {candidate candidateA candidateB : CandidateRun} {key : Key}
  {record : PublicRecord} {verdict : Verdict} {label : Label}

theorem get?_states :
    (states str candidate).get? key = some verdict ↔ LastVerdict str candidate key verdict :=
  Dict.get?_ofPairs_filterMap

theorem get?_shownRecords : (shownRecords str candidate).get? key = some record ↔
    key.complete = true ∧ LastRecord str candidate key record := by
  rw [shownRecords, Dict.get?_ofPairs_filterMap]
  have hkeyed : ∀ {r r'}, keyed r = some r' ↔ Key.complete (recordKey r) = true ∧ r = r' := by
    intro r r'
    unfold keyed
    split
    · rename_i hcomplete
      rw [Option.some.injEq]
      exact (and_iff_right hcomplete).symm
    · rename_i hcomplete
      simp [hcomplete]
  constructor
  · intro ⟨front, item, back, hcut, hkey, hitem, hlater⟩
    obtain ⟨hcomplete, rfl⟩ := hkeyed.mp hitem
    rw [hkey] at hcomplete
    refine ⟨hcomplete, front, back, hcut, hkey, fun later hmem hsame => ?_⟩
    have hnone := hlater later hmem hsame
    rw [hkeyed.mpr ⟨by rw [hsame]; exact hcomplete, rfl⟩] at hnone
    contradiction
  · intro ⟨hcomplete, front, back, hcut, hkey, hlater⟩
    refine ⟨front, record, back, hcut, hkey, hkeyed.mpr ⟨by rw [hkey]; exact hcomplete, rfl⟩, ?_⟩
    exact fun later hmem hsame => absurd hsame (hlater later hmem)

/-- A verdict has a complete key. -/
theorem LastVerdict.complete (h : LastVerdict str candidate key verdict) : key.complete = true := by
  obtain ⟨front, record, back, -, rfl, hstate, -⟩ := h
  unfold recordState at hstate
  split at hstate
  · contradiction
  · split at hstate
    · contradiction
    · rename_i hcomplete
      simpa using hcomplete

/-- **The judge is shown the last record of every key that both have.** -/
theorem mem_sharedPublicRecords {entry : SharedRecord} :
    entry ∈ sharedPublicRecords str candidateA candidateB ↔
      entry.key.complete = true ∧ LastRecord str candidateA entry.key entry.recordA ∧
        LastRecord str candidateB entry.key entry.recordB := by
  rw [sharedPublicRecords, List.mem_mergeSort, List.mem_filterMap]
  constructor
  · intro ⟨⟨key, recordA⟩, hmem, hmap⟩
    obtain ⟨recordB, hB, rfl⟩ := Option.map_eq_some_iff.mp hmap
    have hA := get?_shownRecords.mp (Dict.get?_eq_some.mpr hmem)
    exact ⟨hA.1, hA.2, (get?_shownRecords.mp hB).2⟩
  · intro ⟨hcomplete, hA, hB⟩
    refine ⟨(entry.key, entry.recordA), Dict.get?_eq_some.mp (get?_shownRecords.mpr ⟨hcomplete, hA⟩),
      Option.map_eq_some_iff.mpr ⟨entry.recordB, get?_shownRecords.mpr ⟨hcomplete, hB⟩, rfl⟩⟩

/-! ## the comparison -/

/-- The candidate of a label. -/
def pick (candidateA candidateB : CandidateRun) : Label → CandidateRun
  | .A => candidateA
  | .B => candidateB

/-- On some key the candidate has passed and the other one has failed. -/
def Beats (str : Json → String) (candidateA candidateB : CandidateRun) (label : Label) : Prop :=
  ∃ key, LastVerdict str (pick candidateA candidateB label) key .green ∧
    LastVerdict str (pick candidateA candidateB label.other) key .red

theorem mem_decisions :
    label ∈ decisions str candidateA candidateB ↔ Beats str candidateA candidateB label := by
  rw [decisions, List.mem_filterMap]
  constructor
  · intro ⟨⟨key, stateA⟩, hmem, hopposed⟩
    have hA := get?_states.mp (Dict.get?_eq_some.mpr hmem)
    dsimp only at hopposed
    split at hopposed
    · rename_i hB
      obtain rfl := Option.some.inj hopposed
      exact ⟨key, hA, get?_states.mp hB⟩
    · rename_i hB
      obtain rfl := Option.some.inj hopposed
      exact ⟨key, get?_states.mp hB, hA⟩
    · contradiction
  · intro ⟨key, hgreen, hred⟩
    rw [← get?_states] at hgreen hred
    cases label with
    | A =>
        refine ⟨(key, .green), Dict.get?_eq_some.mp hgreen, ?_⟩
        dsimp only
        rw [show (states str candidateB).get? key = some .red from hred]
    | B =>
        refine ⟨(key, .red), Dict.get?_eq_some.mp hred, ?_⟩
        dsimp only
        rw [show (states str candidateB).get? key = some .green from hgreen]

/-- **The winner of the comparison** beats the other candidate and is not beaten. -/
theorem publicRedWinner_eq_some : publicRedWinner str candidateA candidateB = some label ↔
    Beats str candidateA candidateB label ∧ ¬Beats str candidateA candidateB label.other := by
  have hmem : ∀ {other}, other ∈ (decisions str candidateA candidateB).dedup ↔
      Beats str candidateA candidateB other := by
    intro other
    rw [List.mem_dedup, mem_decisions]
  have hnodup := List.nodup_dedup (decisions str candidateA candidateB)
  unfold publicRedWinner
  constructor
  · intro h
    split at h
    · rename_i winner hdedup
      obtain rfl := Option.some.inj h
      rw [hdedup] at hmem
      refine ⟨hmem.mp (List.mem_singleton_self winner), fun hother => ?_⟩
      have heq := List.mem_singleton.mp (hmem.mpr hother)
      cases winner <;> contradiction
    · contradiction
  · intro ⟨hbeats, hnot⟩
    have hsingle : (decisions str candidateA candidateB).dedup = [label] := by
      refine List.perm_singleton.mp ((List.perm_ext_iff_of_nodup hnodup
        (List.nodup_singleton label)).mpr fun other => ?_)
      rw [hmem, List.mem_singleton]
      obtain rfl | rfl := label.eq_or_eq_other other
      · exact iff_of_true hbeats rfl
      · exact iff_of_false hnot (by cases label <;> decide)
    rw [hsingle]

/-- **The mechanical choice for a public failure**: neither diff is empty, and the
winner beats the other candidate and is not beaten. -/
theorem mechanicalChoice_publicRed :
    mechanicalChoice str candidateA candidateB = (some label, .sameCommandPublicRed, false) ↔
      candidateA.empty = false ∧ candidateB.empty = false ∧
        Beats str candidateA candidateB label ∧ ¬Beats str candidateA candidateB label.other := by
  rw [← publicRedWinner_eq_some]
  unfold mechanicalChoice
  cases candidateA.empty with
  | true => cases candidateB.empty <;> simp
  | false =>
      cases candidateB.empty with
      | true => simp
      | false =>
          cases publicRedWinner str candidateA candidateB with
          | none =>
              by_cases hsame : candidateA.effectiveDiff = candidateB.effectiveDiff <;> simp [hsame]
          | some winner => simp

/-- The record of a test run as the coder's tools write it. -/
def testRecord (exitCode : Int) (verified : Bool) : Json :=
  .obj [("target", .str "test_public.py"), ("runner", .str "pytest"),
    ("command", .str "pytest test_public.py"), ("exit_code", .int exitCode),
    ("verified", .bool verified), ("applicability", .str "current")]

/-- A candidate with test records. -/
def tested (diff : String) (records : List Json) : CandidateRun where
  output := .obj [("public_test_records", .arr records)]
  diff := diff
  deliveryDiff := none
  deliverySourceDiff := none

/-- On some key the record shown of the candidate is a pass and that of the other one a
failure. -/
def ShownBeats (str : Json → String) (candidateA candidateB : CandidateRun) (label : Label) : Prop :=
  ∃ entry ∈ sharedPublicRecords str candidateA candidateB,
    recordState (match label with | .A => entry.recordA | .B => entry.recordB) = some .green ∧
    recordState (match label.other with | .A => entry.recordA | .B => entry.recordB) = some .red

/-- **A pass decides although it is not shown**: the last run of the command exited
with zero, but was not verified, so the comparison takes the run before it. -/
theorem unshown_pass_decides :
    let candidateA := tested "a" [testRecord 0 true, testRecord 0 false]
    let candidateB := tested "b" [testRecord 1 false]
    ¬(mechanicalChoice (fun _ => "") candidateA candidateB =
        (some .A, .sameCommandPublicRed, false) ↔
      candidateA.empty = false ∧ candidateB.empty = false ∧
        ShownBeats (fun _ => "") candidateA candidateB .A ∧
        ¬ShownBeats (fun _ => "") candidateA candidateB .B) := by
  intro candidateA candidateB h
  have hchoice : mechanicalChoice (fun _ => "") candidateA candidateB =
      (some .A, .sameCommandPublicRed, false) := by
    decide +kernel
  obtain ⟨-, -, ⟨entry, hentry, hgreen, -⟩, -⟩ := h.mp hchoice
  obtain ⟨hcomplete, hlast, -⟩ := mem_sharedPublicRecords.mp hentry
  have hshown := Dict.get?_eq_some.mp (get?_shownRecords.mpr ⟨hcomplete, hlast⟩)
  have hentries : (shownRecords (fun _ => "") candidateA).entries =
      [(recordKey (publicRecord (fun _ => "") (testRecord 0 false)),
        publicRecord (fun _ => "") (testRecord 0 false))] := by
    decide +kernel
  rw [hentries, List.mem_singleton] at hshown
  obtain ⟨-, hrecord⟩ := Prod.mk.inj hshown
  have hunverified : recordState (publicRecord (fun _ => "") (testRecord 0 false)) = none := by
    decide +kernel
  dsimp only at hgreen hrecord
  rw [hrecord, hunverified] at hgreen
  contradiction

end OpenCollab.Duo
