import OpenCollab.Message
import OpenCollab.Lib.Segments

/-!
# OpenCollab.Shaping.Spans

What every shaping layer reads off a history before it decides anything
(`shaping/pipeline.py`): the index spans of the groups, which tool results
answer which call, which spans may be removed as a unit, and which of them
hold a pinned source.

The code works with index ranges into the message list; the lemmas at the end
turn the ranges back into groups (`groupSpans_eq`, `droppableRegion_spec`,
`pinnedFreeRegion_spec`), which is the level the layers are reasoned about.
-/

namespace OpenCollab

open Segments

/-! ## pinned sources -/

/-- Sources tagged at this priority are protected from history compaction. -/
def PIN_FLOOR : Int := 70

namespace Message

/-- True if the message is a context source at or above `PIN_FLOOR`. -/
def isPinned (m : Message) : Bool :=
  match m.ctxPriority with
  | none => false
  | some priority => PIN_FLOOR ≤ priority

end Message

/-! ## group spans -/

/-- The walk of `_group_spans`: `start` is where the current group began, `i`
the next index, and an open exchange swallows the tool results that follow. -/
def groupSpansFrom (start i : Nat) (isOpen : Bool) : List Message → List (Nat × Nat)
  | [] => [(start, i)]
  | m :: rest =>
      if isOpen && m.isTool then groupSpansFrom start (i + 1) true rest
      else (start, i) :: groupSpansFrom i (i + 1) m.opensExchange rest

/-- Partition messages into `(start, end)` spans that are safe to drop or
replace as a unit. -/
def groupSpans : List Message → List (Nat × Nat)
  | [] => []
  | m :: rest => groupSpansFrom 0 1 m.opensExchange rest

/-! ## call/result pairing -/

/-- A tool result paired with the call it answers. -/
structure Occurrence where
  resultIndex : Nat
  callId : String
  name : String
  arguments : String
deriving DecidableEq, Repr

/-- All ids are non-empty strings and no two are equal. -/
def distinctIds (ids : List (Option String)) : Bool :=
  ids.all (fun id => id.any (· ≠ "")) && decide ids.Nodup

/-- `set(a) == set(b)`. -/
def sameIdSet (a b : List (Option String)) : Bool := a.all (· ∈ b) && b.all (· ∈ a)

/-- The pairing of one assistant turn at `index`; a malformed group (missing,
unknown or duplicate ids) is skipped entirely. -/
def occurrencesAt (index : Nat) (message : Message) (rest : List Message) : List Occurrence :=
  if !message.opensExchange then [] else
  let callIds := message.callIds.map some
  let results := (rest.takeWhile Message.isTool).zipIdx (index + 1)
  let resultIds := results.map (fun r => r.1.toolCallId)
  if !distinctIds callIds then []
  else if !distinctIds resultIds || !sameIdSet resultIds callIds then []
  else message.toolCalls.filterMap fun call =>
    (results.find? (fun r => r.1.toolCallId = some call.id)).map fun r =>
      { resultIndex := r.2, callId := call.id, name := call.name, arguments := call.arguments }

/-- Unambiguous tool-result occurrences in assistant issue order, for the
messages from `index` on. -/
def occurrencesFrom (index : Nat) : List Message → List Occurrence
  | [] => []
  | m :: rest => occurrencesAt index m rest ++ occurrencesFrom (index + 1) rest

/-- `matched_tool_result_occurrences(messages)`. -/
def matchedToolResultOccurrences (messages : List Message) : List Occurrence :=
  occurrencesFrom 0 messages

/-- Whether a tool-leading span has a one-to-one local call/result pairing. -/
def isCompleteToolExchange (messages : List Message) (span : Nat × Nat) : Bool :=
  match messages[span.1]? with
  | none => false
  | some leader =>
      let callIds := leader.callIds.map some
      let resultIds :=
        ((slice messages (span.1 + 1) span.2).filter Message.isTool).map Message.toolCallId
      leader.opensExchange && distinctIds callIds && distinctIds resultIds &&
        sameIdSet callIds resultIds

/-- Reject malformed protocol fragments from deletion or summarization. -/
def spanIsSafeToCompact (messages : List Message) (span : Nat × Nat) : Bool :=
  match messages[span.1]? with
  | none => false
  | some leader =>
      if leader.isTool then false
      else if leader.opensExchange then isCompleteToolExchange messages span
      else true

/-! ## regions -/

/-- Group spans plus the `[lo, hi)` group range eligible for compaction: the
leading group and the last `keepRecentGroups` groups are protected. -/
def droppableRegion (messages : List Message) (keepRecentGroups : Nat) :
    List (Nat × Nat) × Nat × Nat :=
  let spans := groupSpans messages
  (spans, 1, max 1 (spans.length - keepRecentGroups))

/-- `spans[i]`; the callers never index past the end. -/
def spanAt (spans : List (Nat × Nat)) (i : Nat) : Nat × Nat := spans[i]?.getD (0, 0)

/-- A group of the list holds a pinned message. -/
def groupHasPinned (messages : List Message) (span : Nat × Nat) : Bool :=
  (slice messages span.1 span.2).any Message.isPinned

/-- Narrow `[lo, hi)` to a contiguous run of groups holding no pinned message:
`lo` moves past the leading pinned groups, `hi` stops at the next one. -/
def pinnedFreeRegion (messages : List Message) (spans : List (Nat × Nat)) (lo hi : Nat) :
    Nat × Nat :=
  let lo := scanWhile (fun i => groupHasPinned messages (spanAt spans i)) lo (hi - lo)
  let stop := scanWhile (fun i => !groupHasPinned messages (spanAt spans i)) lo (hi - lo)
  (lo, stop)

/-! ## spans are groups -/

theorem groupSpansFrom_eq (start : Nat) (cur : Group) (isOpen : Bool) (ms : List Message) :
    groupSpansFrom start (start + cur.length) isOpen ms =
      spansOf start (groupsFrom cur isOpen ms) := by
  induction ms generalizing start cur isOpen with
  | nil => simp [groupSpansFrom, groupsFrom, spansOf]
  | cons m ms ih =>
      by_cases h : (isOpen && m.isTool) = true
      · have hlen : start + cur.length + 1 = start + (cur ++ [m]).length := by simp [Nat.add_assoc]
        rw [groupSpansFrom, if_pos h, groupsFrom, if_pos h, hlen, ih]
      · have hlen : start + cur.length + 1 = start + cur.length + [m].length := rfl
        rw [groupSpansFrom, if_neg h, groupsFrom, if_neg h, spansOf, hlen, ih]

/-- The spans the code computes are the ranges of the groups. -/
theorem groupSpans_eq (ms : List Message) : groupSpans ms = spansOf 0 (groups ms) := by
  cases ms with
  | nil => rfl
  | cons m ms =>
      have h := groupSpansFrom_eq 0 [m] m.opensExchange ms
      simpa [groupSpans, groups] using h

@[simp] theorem length_groupSpans (ms : List Message) :
    (groupSpans ms).length = (groups ms).length := by simp [groupSpans_eq]

theorem spanAt_groupSpans (ms : List Message) (h : i < (groups ms).length) :
    spanAt (groupSpans ms) i = (startOf 0 (groups ms) i, startOf 0 (groups ms) (i + 1)) := by
  simp [spanAt, groupSpans_eq, getElem?_spansOf 0 _ h]

/-- The messages between two group boundaries are the groups between them. -/
theorem slice_groups (ms : List Message) (h : i ≤ j) :
    slice ms (startOf 0 (groups ms) i) (startOf 0 (groups ms) j) =
      (((groups ms).take j).drop i).flatten := by
  have hs := slice_flatten (groups ms) h
  rwa [flatten_groups] at hs

/-- The messages of one span are one group. -/
theorem slice_spanAt (ms : List Message) (h : i < (groups ms).length) :
    slice ms (spanAt (groupSpans ms) i).1 (spanAt (groupSpans ms) i).2 = (groups ms)[i] := by
  rw [spanAt_groupSpans ms h, slice_groups ms (Nat.le_succ i)]
  rw [List.take_succ_eq_append_getElem h, List.drop_append_of_le_length (by simp; omega)]
  simp [List.drop_take_self]

/-- The message at a group boundary leads the group. -/
theorem getElem?_startOf (ms : List Message) (h : i < (groups ms).length) :
    ms[startOf 0 (groups ms) i]? = ((groups ms)[i] ++ ((groups ms).drop (i + 1)).flatten).head? := by
  have hdrop := drop_startOf_flatten (groups ms) i
  rw [flatten_groups, List.drop_eq_getElem_cons h, List.flatten_cons] at hdrop
  rw [← hdrop, List.head?_drop]

/-- **The region a layer may touch** lies strictly behind the leading group and
in front of the last `k` groups. -/
theorem droppableRegion_spec (ms : List Message) (k : Nat)
    (h : (droppableRegion ms k).2.1 < (droppableRegion ms k).2.2) :
    (droppableRegion ms k).2.1 = 1 ∧
      (droppableRegion ms k).2.2 + k = (groups ms).length := by
  have h1 : (droppableRegion ms k).2.1 = 1 := rfl
  have h2 : (droppableRegion ms k).2.2 = max 1 ((groups ms).length - k) := by
    simp [droppableRegion]
  omega

/-- **The pinned-free region** stays inside the region it narrows, and no group
in it holds a pinned message. -/
theorem pinnedFreeRegion_spec (ms : List Message) (lo hi : Nat) (hlo : lo ≤ hi) :
    let region := pinnedFreeRegion ms (groupSpans ms) lo hi
    lo ≤ region.1 ∧ region.1 ≤ region.2 ∧ region.2 ≤ hi ∧
      ∀ i (hi : i < (groups ms).length), region.1 ≤ i → i < region.2 →
        ∀ m ∈ (groups ms)[i], m.isPinned = false := by
  intro region
  have h1 := le_scanWhile (fun i => groupHasPinned ms (spanAt (groupSpans ms) i)) lo (hi - lo)
  have h1' := scanWhile_le (fun i => groupHasPinned ms (spanAt (groupSpans ms) i)) lo (hi - lo)
  have h2 := le_scanWhile (fun i => !groupHasPinned ms (spanAt (groupSpans ms) i)) region.1
    (hi - region.1)
  have h2' := scanWhile_le (fun i => !groupHasPinned ms (spanAt (groupSpans ms) i)) region.1
    (hi - region.1)
  have e1 : region.1 =
      scanWhile (fun i => groupHasPinned ms (spanAt (groupSpans ms) i)) lo (hi - lo) := rfl
  have e2 : region.2 = scanWhile (fun i => !groupHasPinned ms (spanAt (groupSpans ms) i)) region.1
    (hi - region.1) := rfl
  refine ⟨by omega, by omega, by omega, ?_⟩
  intro i hlen hge hlt m hm
  have hpass := scanWhile_passed _ region.1 (hi - region.1) hge (e2 ▸ hlt)
  simp only [groupHasPinned, slice_spanAt ms hlen, Bool.not_eq_true', List.any_eq_false] at hpass
  exact Bool.eq_false_iff.mpr (hpass m hm)

end OpenCollab
