import OpenCollab.Shaping.Rewrite

/-!
# OpenCollab.Shaping.Reactive

The shared plumbing of the reactive history layers (`shaping/reactive.py`) and
the mildest of them, `ToolOutputClearShaper`: below the trigger the history
passes as it is; above it, the content of old results of reconstructible tools
is replaced by a placeholder.  The call/answer skeleton stays.
-/

namespace OpenCollab

open List (Forall₂)

variable {Rejected : String → Prop} {st : Store} {refs : List Ref}

/-! ## the trigger -/

/-- Tools whose results can be fetched again. -/
def DEFAULT_COMPACTABLE_TOOLS : List String := ["bash", "file_read", "grep", "git_diff"]

/-- `_ReactiveHistoryShaper`, with the constructor's checks.  `id` is the
identity of the instance: the forced mode of one shaping call is a set of
identities, and the legacy `_forced` flag sits on the instance. -/
structure ReactiveHistoryShaper where
  id : Nat
  estimate : List Message → Int
  triggerTokens : Nat := 120000
  targetTokens : Nat := 90000
  keepRecentGroups : Nat := 4
  forced : Bool := false
  target_pos : 0 < targetTokens := by decide
  target_lt_trigger : targetTokens < triggerTokens := by decide

/-- `_over_trigger`. -/
def ReactiveHistoryShaper.overTrigger (cfg : ReactiveHistoryShaper) (forcedIds : List Nat)
    (messages : List Message) : Bool :=
  if cfg.forced || forcedIds.contains cfg.id then !messages.isEmpty
  else !messages.isEmpty && decide ((cfg.triggerTokens : Int) < cfg.estimate messages)

/-! ## clearing old tool output -/

/-- `ToolOutputClearShaper`, with the constructor's checks. -/
structure ToolOutputClearShaper extends ReactiveHistoryShaper where
  compactableTools : List String := DEFAULT_COMPACTABLE_TOOLS
  clearedContent : String := "[Old tool result content cleared]"
  keepRecent : Nat := 5
  keepRecent_pos : 0 < keepRecent := by decide

namespace ToolOutputClearShaper

/-- Exact compactable result occurrences older than `keepRecent`; a body no
longer than the placeholder stays. -/
def indicesToClear (cfg : ToolOutputClearShaper) (messages : List Message) : List Nat :=
  let compactable := (matchedToolResultOccurrences messages).filter fun o =>
    cfg.compactableTools.contains o.name
  let old := compactable.take (compactable.length - cfg.keepRecent)
  (old.map Occurrence.resultIndex).filter fun index =>
    match messages[index]?.bind Message.text? with
    | none => false
    | some content => cfg.clearedContent.length < content.length

/-- The text that replaces message `index`, if any. -/
def newContent (cfg : ToolOutputClearShaper) (clear : List Nat) (index : Nat) (m : Message) :
    Option String :=
  if m.isTool && clear.contains index && decide (m.text? ≠ some cfg.clearedContent) then
    some cfg.clearedContent
  else none

/-- `ToolOutputClearShaper.shape`. -/
def shape (cfg : ToolOutputClearShaper) (forcedIds : List Nat) (refs : List Ref) (st : Store) :
    List Ref × Store :=
  let messages := st.view refs
  if !cfg.overTrigger forcedIds messages then (refs, st)
  else replaceContents (cfg.newContent (cfg.indicesToClear messages)) 0 refs st

theorem shape_spec (cfg : ToolOutputClearShaper) (forcedIds : List Nat) (hrefs : st.Has refs) :
    EditedHistory Rejected st refs (cfg.shape forcedIds refs st) := by
  unfold shape
  simp only
  split
  · exact EditedHistory.refl hrefs
  · refine replaceContents_spec _ 0 (fun i m text h => ?_) hrefs
    simp only [newContent, Option.ite_none_right_eq_some, Bool.and_eq_true] at h
    exact h.1.1.1

end ToolOutputClearShaper

end OpenCollab
