import OpenCollab.Shaping.Spans
import OpenCollab.Shaping.SummaryPrompt
import OpenCollab.Shaping.TokenEstimation

/-!
# OpenCollab.Shaping.Summarizer

`ReadTimeSummarizer` (`application/compaction_summary.py`): a segment that fits
the model's window is summarized by one request, a larger one by a row of
requests over chunks of whole groups, each carrying the summary of the one
before it.

* `grow_spec` — the largest chunk the greedy loop finds, and why it was admitted;
* `summarizeChunksFrom_spec` — the chunks of a run are consecutive runs of groups,
  and the run succeeds exactly when they use all groups up and every reply does;
* `attempt_spec` — the same of the whole call, whichever way it takes.

The model is the sequence of its replies, one for each request.  The estimate and
the output limit are functions of the request and of how many replies have come:
a limit may shrink while the budget is spent.
-/

namespace OpenCollab.Summary

open Segments

variable {α : Type}

/-! ## replies -/

/-- The exceptions a summary does not turn into a fallback. -/
inductive ControlStop where
  | generationTimeout
  | teamBudgetStop
  | tokenBudgetStop
  | runCancelled
  | runControlPolicy
  | cancelled
deriving DecidableEq, Repr

/-- How the call of `acomplete` for one request ends. -/
inductive Reply where
  | response (finishReason : Option String) (content : Option String)
  | control (stop : ControlStop)
  | failure (text : String)
deriving DecidableEq, Repr

/-- An exception on its way out: one that is passed on, or an error text. -/
inductive Failure where
  | control (stop : ControlStop)
  | error (text : String)
deriving DecidableEq, Repr

/-- The finish reasons of an answer that was cut off. -/
def TRUNCATED : List String := ["length", "max_tokens", "model_context_window_exceeded"]

/-- `_complete`, from the reply to the request on. -/
def complete : Reply → Except Failure String
  | .response finishReason content =>
      if finishReason.any (· ∈ TRUNCATED) then
        .error (.error "The model returned a truncated conversation summary")
      else .ok (formatCompactSummary (content.getD ""))
  | .control stop => .error (.control stop)
  | .failure text => .error (.error text)

/-! ## the summarizer -/

/-- The constructor's fields of `ReadTimeSummarizer`.  An output limit that raises
the budget stop is `none`. -/
structure ReadTimeSummarizer where
  transcriptPath : Option String := none
  customInstructions : Option String := none
  fallbackChars : Nat := 4000
  contextWindow : Option Int := none
  maxOutputTokens : Int
  estimateTokens : Nat → List Message → Int
  outputLimit : Option (Nat → List Message → Option Int) := none

namespace ReadTimeSummarizer

variable (s : ReadTimeSummarizer)

/-- The output tokens reserved for a request, unless the budget stops it. -/
def outputTokens (moment : Nat) (request : List Message) : Option Int :=
  match s.outputLimit with
  | none => some s.maxOutputTokens
  | some limit => limit moment request

/-- `_fits`, after `moment` replies. -/
def fits (moment : Nat) (request : List Message) (allowBudgetStop : Bool) : Bool :=
  match s.contextWindow with
  | none => true
  | some window =>
      if window ≤ 0 then true
      else if window ≤ s.estimateTokens moment request then false
      else match s.outputTokens moment request with
        | none => allowBudgetStop
        | some output => decide (s.estimateTokens moment request + output ≤ window)

/-- The message that carries the preceding chunk's summary, if there is one. -/
def carriedMessages (summary : String) : List Message :=
  if summary = "" then []
  else [Message.ofText .user
    ("Summary of the preceding conversation. Update it with the messages " ++
      "that follow, preserving user requests and applying later revisions " ++
      "in chronological order.\n\n" ++ summary)]

/-- The request for the groups from `cursor` up to and including group `stop`. -/
def candidate (segment : List Message) (summary : String) (cursor stop : Nat) : List Message :=
  let spans := groupSpans segment
  buildSummaryRequest
    (carriedMessages summary ++ slice segment (spanAt spans cursor).1 (spanAt spans stop).2)
    s.customInstructions

/-- The inner loop: the chunk that starts at `cursor` takes group after group while
the request still fits.  The first argument bounds the groups left. -/
def grow (moment : Nat) (segment : List Message) (summary : String) (cursor : Nat) :
    Nat → Nat → List Message → Nat × List Message
  | 0, stop, request => (stop, request)
  | fuel + 1, stop, request =>
      let next := s.candidate segment summary cursor stop
      if s.fits moment next (stop == cursor) then
        grow moment segment summary cursor fuel (stop + 1) next
      else (stop, request)

/-- `f"{self._context_window}"`. -/
def windowText : String :=
  match s.contextWindow with
  | none => "None"
  | some window => toString window

def groupTooLarge (cursor : Nat) : String :=
  "Message group " ++ toString (cursor + 1) ++ " and the preceding summary exceed the " ++
    s.windowText ++ "-token context window with summary output reserved"

def EMPTY_SUMMARY : String := "The model returned an empty conversation summary"

/-- The outer loop of `_summarize_chunks` from group `cursor` on, with the requests
it sends.  The first argument bounds the groups left: each chunk takes one at least. -/
def summarizeChunksFrom (replies : Nat → Reply) (segment : List Message) :
    Nat → Nat → Nat → String → List (List Message) × Except Failure String
  | 0, _, _, summary => ([], .ok summary)
  | fuel + 1, moment, cursor, summary =>
      let count := (groupSpans segment).length
      if count ≤ cursor then ([], .ok summary)
      else
        let grown := s.grow moment segment summary cursor (count - cursor) cursor []
        if grown.1 = cursor then ([], .error (.error (s.groupTooLarge cursor)))
        else match complete (replies moment) with
          | .error failure => ([grown.2], .error failure)
          | .ok text =>
              if text = "" then ([grown.2], .error (.error EMPTY_SUMMARY))
              else
                let rest := summarizeChunksFrom replies segment fuel (moment + 1) grown.1 text
                (grown.2 :: rest.1, rest.2)

/-- `_summarize_chunks`. -/
def summarizeChunks (replies : Nat → Reply) (segment : List Message) :
    List (List Message) × Except Failure String :=
  s.summarizeChunksFrom replies segment (groupSpans segment).length 0 0 ""

/-! ### the fallback -/

/-- The text of one content block. -/
def blockText : Json → Option String
  | .str text => if text = "" then none else some text
  | .obj items =>
      let block := Json.obj items
      let text := match block.get "text" with
        | .str text => text
        | _ => (block.get "input_text").asStr?.getD ""
      if text = "" then some (label block) else some text
  | _ => some "[unknown block]"
where
  /-- What a block without text is shown as. -/
  label (block : Json) : String :=
    match block.get "type" with
    | .str kind => if kind = "" then "[unknown block]" else "[" ++ kind ++ " block]"
    | _ => "[unknown block]"

/-- Render common message content shapes without exposing binary payloads. -/
def fallbackContentText : Option Json → String
  | some (.str text) => text
  | some (.arr blocks) => "\n".intercalate (blocks.filterMap blockText)
  | _ => ""

/-- Bounded raw excerpt when no model summary is available. -/
def fallback (segment : List Message) : String :=
  let parts := segment.filterMap fun message =>
    let content := fallbackContentText message.content
    if content = "" then none
    else some ("[" ++ message.role.name ++ "]: " ++ content)
  let text := String.ofList (("\n".intercalate parts).toList.take s.fallbackChars)
  if text = "" then "[summary unavailable]" else text

/-! ### one call -/

/-- What a call leaves behind: the requests it sent, what it returned or raised, and
`last_call_cacheable`. -/
structure Call where
  sent : List (List Message)
  outcome : Except Failure String
  cacheable : Bool

/-- The recovery pointer behind a text, when there is a transcript. -/
def withNote (text separator : String) : String :=
  match s.transcriptPath with
  | none => text
  | some path => if path = "" then text else text ++ separator ++ transcriptRecoveryNote path

/-- The `except` clauses of `asummarize`. -/
def failed (chunked : Bool) (segment : List Message) : Failure → Except Failure String
  | .control stop => .error (.control stop)
  | .error text =>
      if chunked then
        .error (.error (s.withNote
          ("Conversation summary could not include all earlier messages: " ++ text) "\n"))
      else .ok (s.fallback segment)

/-- `not self._fits(request)`: the segment is too large for one request. -/
def chunked (segment : List Message) : Bool :=
  !s.fits 0 (buildSummaryRequest segment s.customInstructions) false

/-- The requests of a call and what comes of them, before the `except` clauses. -/
def attempt (replies : Nat → Reply) (segment : List Message) :
    List (List Message) × Except Failure String :=
  if s.chunked segment then s.summarizeChunks replies segment
  else ([buildSummaryRequest segment s.customInstructions], complete (replies 0))

/-- `asummarize(segment)`. -/
def asummarize (replies : Nat → Reply) (segment : List Message) : Call :=
  let run := s.attempt replies segment
  match run.2 with
  | .error failure => ⟨run.1, s.failed (s.chunked segment) segment failure, false⟩
  | .ok summary =>
      if summary = "" then
        ⟨run.1, s.failed (s.chunked segment) segment (.error EMPTY_SUMMARY), false⟩
      else ⟨run.1, .ok (s.withNote summary "\n\n"), true⟩

/-! ## chunks -/

/-- The request is estimated to fit the window together with its output limit. -/
def Fits (moment : Nat) (request : List Message) : Prop :=
  ∀ window, s.contextWindow = some window → 0 < window →
    s.estimateTokens moment request < window ∧
      ∃ output, s.outputTokens moment request = some output ∧
        s.estimateTokens moment request + output ≤ window

/-- The request is smaller than the window and the budget stops its output limit. -/
def OnlyBudgetStops (moment : Nat) (request : List Message) : Prop :=
  ∃ window, s.contextWindow = some window ∧ s.estimateTokens moment request < window ∧
    s.outputTokens moment request = none

/-- What `_fits` says of a request. -/
theorem fits_spec {moment : Nat} {request : List Message} {allow : Bool}
    (h : s.fits moment request allow = true) :
    s.Fits moment request ∨ (allow = true ∧ s.OnlyBudgetStops moment request) := by
  unfold fits at h
  cases hw : s.contextWindow with
  | none => exact .inl (by simp [Fits, hw])
  | some window =>
      simp only [hw] at h
      by_cases hpos : window ≤ 0
      · exact .inl (by intro w hw' hp; rw [hw] at hw'; cases hw'; omega)
      by_cases hlt : window ≤ s.estimateTokens moment request
      · simp [hpos, hlt] at h
      simp only [hpos, hlt, if_false] at h
      cases ho : s.outputTokens moment request with
      | none =>
          rw [ho] at h
          exact .inr ⟨h, window, hw, by omega, ho⟩
      | some output =>
          rw [ho] at h
          left
          intro w hw' hp
          rw [hw] at hw'
          cases hw'
          exact ⟨by omega, output, ho, by simpa using h⟩

/-- One request of a run: the summary it carries and the groups it replays. -/
structure Chunk where
  carried : String
  groups : List Group

namespace Chunk

/-- The segment part of the request. -/
def part (c : Chunk) : List Message := c.groups.flatten

/-- The request itself. -/
def request (c : Chunk) : List Message :=
  buildSummaryRequest (carriedMessages c.carried ++ c.part) s.customInstructions

end Chunk

/-- A chunk may be sent after `moment` replies: it fits, or it is one group that only
the budget check turned down. -/
def Admitted (moment : Nat) (c : Chunk) : Prop :=
  s.Fits moment (c.request s) ∨
    (c.groups.length = 1 ∧ s.OnlyBudgetStops moment (c.request s))

/-- The reply carries a summary: it is complete, and not empty. -/
def Usable (reply : Reply) (text : String) : Prop := complete reply = .ok text ∧ text ≠ ""

/-- The chunks sent from `moment` on: the first carries `summary`, every later one
what the reply to the one before it said, and each was admitted when it was sent. -/
def Chained (replies : Nat → Reply) : Nat → String → List Chunk → Prop
  | _, _, [] => True
  | moment, summary, c :: rest =>
      c.carried = summary ∧ s.Admitted moment c ∧
        (rest = [] ∨ ∃ text, Usable (replies moment) text ∧ Chained replies (moment + 1) text rest)

/-- The candidate request replays whole groups. -/
theorem candidate_eq (segment : List Message) (summary : String) {cursor stop : Nat}
    (hle : cursor ≤ stop) (hlt : stop < (groups segment).length) :
    s.candidate segment summary cursor stop =
      Chunk.request s ⟨summary, ((groups segment).take (stop + 1)).drop cursor⟩ := by
  simp only [candidate, Chunk.request, Chunk.part]
  rw [spanAt_groupSpans segment (by omega : cursor < _), spanAt_groupSpans segment hlt,
    slice_groups segment (by omega)]

/-- What the inner loop has found when it stands at `stop`. -/
def Grown (moment : Nat) (segment : List Message) (summary : String) (cursor : Nat)
    (found : Nat × List Message) : Prop :=
  cursor ≤ found.1 ∧ found.1 ≤ (groups segment).length ∧
    (cursor < found.1 →
      let c : Chunk := ⟨summary, ((groups segment).take found.1).drop cursor⟩
      found.2 = c.request s ∧ s.Admitted moment c)

/-- **The inner loop** ends with the request for the groups it took, which was
admitted as it is sent. -/
theorem grow_spec (moment : Nat) {segment : List Message} (summary : String) (cursor : Nat) :
    ∀ (fuel stop : Nat) (request : List Message), stop + fuel = (groups segment).length →
      s.Grown moment segment summary cursor (stop, request) →
      s.Grown moment segment summary cursor (s.grow moment segment summary cursor fuel stop request) := by
  intro fuel
  induction fuel with
  | zero =>
      intro stop request _ hg
      exact hg
  | succ fuel ih =>
      intro stop request hlen hg
      have hlt : stop < (groups segment).length := by omega
      have hcand := s.candidate_eq segment summary hg.1 hlt
      rw [grow]
      by_cases hf : s.fits moment (s.candidate segment summary cursor stop) (stop == cursor) = true
      · simp only [hf, if_true]
        apply ih (stop + 1) _ (by omega)
        have hle : cursor ≤ stop := hg.1
        refine ⟨by simp only; omega, by simp only; omega, fun _ => ⟨hcand, ?_⟩⟩
        rcases s.fits_spec hf with hfit | ⟨hone, hstop⟩
        · left
          rw [← hcand]
          exact hfit
        · right
          have heq : stop = cursor := by simpa using hone
          subst heq
          exact ⟨by simp; omega, hcand ▸ hstop⟩
      · simp only [hf]
        exact hg

/-- Taking a chunk of groups leaves the groups behind it. -/
theorem take_drop_groups {gs : List α} {cursor stop : Nat} (hle : cursor ≤ stop) :
    (gs.take stop).drop cursor ++ gs.drop stop = gs.drop cursor := by
  rw [List.drop_take]
  have h := List.take_append_drop (stop - cursor) (gs.drop cursor)
  rwa [List.drop_drop, Nat.add_sub_cancel' hle] at h

/-- A reply carries at most one summary. -/
theorem Usable.unique {reply : Reply} {a b : String} (ha : Usable reply a) (hb : Usable reply b) :
    a = b := by
  have h := ha.1.symm.trans hb.1
  exact Except.ok.inj h

/-- What the replies to a chunk and to those behind it must be for `text` to be the
last summary. -/
theorem usable_cons {replies : Nat → Reply} {moment : Nat} {answer : String} {c : Chunk}
    (h : Usable (replies moment) answer) (rest : List Chunk) {text : String} :
    ((∀ i < rest.length, ∃ a, Usable (replies (moment + 1 + i)) a) ∧
        (if rest = [] then text = answer
         else Usable (replies (moment + 1 + (rest.length - 1))) text)) ↔
      (∀ i < (c :: rest).length, ∃ a, Usable (replies (moment + i)) a) ∧
        (if c :: rest = [] then text = answer
         else Usable (replies (moment + ((c :: rest).length - 1))) text) := by
  have hall : (∀ i < (c :: rest).length, ∃ a, Usable (replies (moment + i)) a) ↔
      ∀ i < rest.length, ∃ a, Usable (replies (moment + 1 + i)) a := by
    constructor
    · intro hi i hlt
      have hnext := hi (i + 1) (by simpa using hlt)
      rwa [← Nat.add_assoc, Nat.add_right_comm] at hnext
    · intro hi i hlt
      cases i with
      | zero => exact ⟨answer, h⟩
      | succ i =>
          have hnext := hi i (by simpa using hlt)
          rwa [Nat.add_right_comm] at hnext
  rw [hall]
  refine and_congr_right fun _ => ?_
  cases rest with
  | nil =>
      simp only [if_true, if_neg (List.cons_ne_nil c []), List.length_singleton, Nat.sub_self,
        Nat.add_zero]
      constructor
      · intro heq
        rw [heq]
        exact h
      · intro ht
        exact ht.unique h
  | cons d rest =>
      have hlen : moment + 1 + ((d :: rest).length - 1) = moment + ((c :: d :: rest).length - 1) := by
        simp only [List.length_cons]
        omega
      rw [if_neg (List.cons_ne_nil _ _), if_neg (List.cons_ne_nil _ _), hlen]

/-- **A run of chunks** from group `cursor` on: the requests are those of chained
chunks over consecutive groups, and there is a summary in the end exactly when these
use the groups up and every reply was usable; then it is the last reply's. -/
theorem summarizeChunksFrom_spec (replies : Nat → Reply) (segment : List Message) :
    ∀ (fuel moment cursor : Nat) (summary : String),
      cursor ≤ (groups segment).length → (groups segment).length ≤ cursor + fuel →
      ∃ chunks : List Chunk,
        (s.summarizeChunksFrom replies segment fuel moment cursor summary).1 =
            chunks.map (Chunk.request s) ∧
          s.Chained replies moment summary chunks ∧
          chunks.flatMap Chunk.groups <+: (groups segment).drop cursor ∧
          ∀ text, (s.summarizeChunksFrom replies segment fuel moment cursor summary).2 = .ok text ↔
            chunks.flatMap Chunk.groups = (groups segment).drop cursor ∧
            (∀ i < chunks.length, ∃ answer, Usable (replies (moment + i)) answer) ∧
            (if chunks = [] then text = summary
             else Usable (replies (moment + (chunks.length - 1))) text) := by
  intro fuel
  induction fuel with
  | zero =>
      intro moment cursor summary hle hlen
      refine ⟨[], rfl, trivial, List.nil_prefix, fun text => ?_⟩
      have hdrop : (groups segment).drop cursor = [] := List.drop_eq_nil_of_le (by omega)
      simp [summarizeChunksFrom, hdrop, eq_comm]
  | succ fuel ih =>
      intro moment cursor summary hle hlen
      simp only [summarizeChunksFrom, length_groupSpans]
      by_cases hend : (groups segment).length ≤ cursor
      · simp only [hend, if_true]
        refine ⟨[], rfl, trivial, List.nil_prefix, fun text => ?_⟩
        have hdrop : (groups segment).drop cursor = [] := List.drop_eq_nil_of_le hend
        simp [hdrop, eq_comm]
      simp only [hend, if_false]
      have hgrown := s.grow_spec moment summary cursor
        ((groups segment).length - cursor) cursor []
        (by omega) ⟨Nat.le_refl _, hle, fun h => absurd h (Nat.lt_irrefl _)⟩
      generalize s.grow moment segment summary cursor ((groups segment).length - cursor) cursor [] =
        grown at hgrown ⊢
      obtain ⟨hcur, hglen, hsent⟩ := hgrown
      by_cases hstuck : grown.1 = cursor
      · simp only [hstuck, if_true]
        refine ⟨[], rfl, trivial, List.nil_prefix, fun text => ?_⟩
        have hdrop : (groups segment).drop cursor ≠ [] := by
          simp only [ne_eq, List.drop_eq_nil_iff]
          omega
        simp [hdrop.symm]
      simp only [hstuck, if_false]
      obtain ⟨hreq, hadm⟩ := hsent (by omega)
      -- the chunk that is sent now
      set c : Chunk := ⟨summary, ((groups segment).take grown.1).drop cursor⟩ with hc
      have hsplit : c.groups ++ (groups segment).drop grown.1 = (groups segment).drop cursor :=
        take_drop_groups hcur
      have hsingle : [c].flatMap Chunk.groups <+: (groups segment).drop cursor := by
        rw [List.flatMap_singleton, ← hsplit]
        exact List.prefix_append _ _
      cases hreply : complete (replies moment) with
      | error failure =>
          refine ⟨[c], by simp [hreq], ⟨rfl, hadm, .inl rfl⟩, hsingle, fun text => ?_⟩
          simp [Usable, hreply]
      | ok answer =>
          by_cases hempty : answer = ""
          · simp only [hempty, if_true]
            refine ⟨[c], by simp [hreq], ⟨rfl, hadm, .inl rfl⟩, hsingle, fun text => ?_⟩
            simp [Usable, hreply, hempty]
          simp only [hempty, if_false]
          have husable : Usable (replies moment) answer := ⟨hreply, hempty⟩
          obtain ⟨rest, hsent', hchain, hpre, hok⟩ := ih (moment + 1) grown.1 answer hglen (by omega)
          refine ⟨c :: rest, by simp [hreq, hsent'],
            ⟨rfl, hadm, .inr ⟨answer, husable, hchain⟩⟩, ?_, fun text => ?_⟩
          · rw [List.flatMap_cons, ← hsplit]
            exact (List.prefix_append_right_inj _).mpr hpre
          · rw [hok text, List.flatMap_cons, ← hsplit, List.append_cancel_left_eq]
            exact and_congr_right fun _ => usable_cons husable rest
/-! ## the whole call -/

/-- What a call sends, whatever becomes of it: chained chunks over a run of groups
from the first on, starting without a summary. -/
structure Sends (replies : Nat → Reply) (segment : List Message) (sent : List (List Message))
    (chunks : List Chunk) : Prop where
  requests : sent = chunks.map (Chunk.request s)
  chained : s.Chained replies 0 "" chunks
  inOrder : chunks.flatMap Chunk.groups <+: groups segment

/-- The replies to the chunks of a run that ends with the summary `text`. -/
structure Settles (replies : Nat → Reply) (segment : List Message) (chunks : List Chunk)
    (text : String) : Prop where
  sent : chunks ≠ []
  covers : chunks.flatMap Chunk.groups = groups segment
  usable : ∀ i < chunks.length, ∃ answer, Usable (replies i) answer
  last : Usable (replies (chunks.length - 1)) text

/-- Both ways of a call send chained chunks, and give a summary exactly when these
settle. -/
theorem attempt_spec (replies : Nat → Reply) (segment : List Message) :
    ∃ chunks, s.Sends replies segment (s.attempt replies segment).1 chunks ∧
      ∀ text, text ≠ "" →
        ((s.attempt replies segment).2 = .ok text ↔ Settles replies segment chunks text) := by
  unfold attempt
  by_cases hf : s.fits 0 (buildSummaryRequest segment s.customInstructions) false = true
  · simp only [chunked, hf, Bool.not_true, Bool.false_eq_true, if_false]
    have hreq : Chunk.request s ⟨"", groups segment⟩ =
        buildSummaryRequest segment s.customInstructions := by
      simp [Chunk.request, Chunk.part, carriedMessages]
    refine ⟨[⟨"", groups segment⟩], ⟨by simp [hreq], ⟨rfl, ?_, .inl rfl⟩, by simp⟩, fun text ht => ?_⟩
    · rcases s.fits_spec hf with hfit | ⟨habs, _⟩
      · left
        rwa [hreq]
      · cases habs
    · constructor
      · intro hok
        refine ⟨by simp, by simp, fun i hi => ⟨text, ?_⟩, hok, ht⟩
        have hi0 : i = 0 := by simpa using hi
        subst hi0
        exact ⟨hok, ht⟩
      · intro h
        exact h.last.1
  · simp only [chunked, hf, Bool.not_false, if_true]
    obtain ⟨chunks, hsent, hchain, hpre, hok⟩ := s.summarizeChunksFrom_spec replies segment
      (groupSpans segment).length 0 0 "" (Nat.zero_le _) (by simp)
    rw [List.drop_zero] at hpre
    refine ⟨chunks, ⟨hsent, hchain, hpre⟩, fun text ht => ?_⟩
    have hrun := hok text
    simp only [List.drop_zero, Nat.zero_add] at hrun
    rw [summarizeChunks, hrun]
    constructor
    · intro hruns
      obtain ⟨hcov, hall, hlast⟩ := hruns
      by_cases hnil : chunks = []
      · rw [if_pos hnil] at hlast
        exact absurd hlast ht
      · rw [if_neg hnil] at hlast
        exact ⟨hnil, hcov, hall, hlast⟩
    · intro h
      refine ⟨h.covers, h.usable, ?_⟩
      rw [if_neg h.sent]
      exact h.last

@[simp] theorem sent_asummarize (replies : Nat → Reply) (segment : List Message) :
    (s.asummarize replies segment).sent = (s.attempt replies segment).1 := by
  unfold asummarize
  dsimp only
  split
  · rfl
  · split <;> rfl

/-- The call is cacheable exactly when the attempt gave a summary. -/
theorem cacheable_iff (replies : Nat → Reply) (segment : List Message) :
    (s.asummarize replies segment).cacheable = true ↔
      ∃ text, text ≠ "" ∧ (s.attempt replies segment).2 = .ok text := by
  cases hrun : (s.attempt replies segment).2 with
  | error failure => simp [asummarize, hrun]
  | ok summary =>
      by_cases h : summary = ""
      · simp [asummarize, hrun, h]
      · simp [asummarize, hrun, h]

/-- A failure comes back as a text only from a call of one request. -/
theorem failed_eq_ok {chunked : Bool} {segment : List Message} {failure : Failure} {text : String}
    (h : s.failed chunked segment failure = .ok text) :
    chunked = false ∧ text = s.fallback segment := by
  cases failure with
  | control stop => simp [failed] at h
  | error message =>
      cases chunked with
      | true => simp [failed] at h
      | false =>
          simp only [failed, Bool.false_eq_true, if_false, Except.ok.injEq] at h
          exact ⟨rfl, h.symm⟩

/-- Whole groups are covered exactly when the messages are. -/
theorem parts_eq_iff {segment : List Message} {chunks : List Chunk} (hv : ProtocolValid segment)
    (hpre : chunks.flatMap Chunk.groups <+: groups segment) :
    chunks.flatMap Chunk.part = segment ↔ chunks.flatMap Chunk.groups = groups segment := by
  have hflat : chunks.flatMap Chunk.part = (chunks.flatMap Chunk.groups).flatten := by
    simp only [List.flatMap, List.flatten_flatten, List.map_map]
    rfl
  obtain ⟨rest, hrest⟩ := hpre
  constructor
  · intro h
    rw [hflat] at h
    have hall : (chunks.flatMap Chunk.groups).flatten ++ rest.flatten = segment := by
      rw [← List.flatten_append, hrest, flatten_groups]
    rw [h] at hall
    have hnil := List.flatten_eq_nil_iff.mp (List.append_right_eq_self.mp hall)
    cases rest with
    | nil => rwa [List.append_nil] at hrest
    | cons g rest =>
        have hg : GroupValid g := hv g (by rw [← hrest]; simp)
        rw [hnil g List.mem_cons_self] at hg
        exact hg.elim
  · intro h
    rw [hflat, h, flatten_groups]

/-- Thirty tokens a message, a window of a hundred, ten of them for the output. -/
def sampleSummarizer : ReadTimeSummarizer where
  contextWindow := some 100
  maxOutputTokens := 10
  estimateTokens := fun _ request => 30 * request.length

def sampleReplies : Nat → Reply := fun _ => .response (some "stop") (some "<summary>s</summary>")

def sampleSegment : List Message :=
  [Message.ofText .user "a", Message.ofText .assistant "b", Message.ofText .user "c"]

end ReadTimeSummarizer

end OpenCollab.Summary
