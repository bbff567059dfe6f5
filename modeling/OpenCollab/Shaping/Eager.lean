import OpenCollab.Shaping.Reactive
import OpenCollab.Shaping.ToolBudget

/-!
# OpenCollab.Shaping.Eager

`EagerToolOutputClearShaper` (`shaping/eager.py`): on every call, without a
trigger, the results of reconstructible tools older than the newest
`keep_recent` are replaced by a stub that names the tool and what it read.

Building a stub parses the call's arguments.  A text nested too deeply for
`json.loads` raises `RecursionError`, which the layer does not catch: it is the
one way in which shaping fails, so `shape` returns an `Except`.
-/

namespace OpenCollab

open List (Forall₂)

/-- The exceptions a shaping pass can end with. -/
inductive ShapeError where
  | recursionError
deriving DecidableEq, Repr

/-- The constructor's fields of `EagerToolOutputClearShaper`. -/
structure EagerToolOutputClearShaper where
  compactableTools : List String := DEFAULT_COMPACTABLE_TOOLS
  keepRecent : Nat := 12
  keepRecent_pos : 0 < keepRecent := by decide

namespace EagerToolOutputClearShaper

/-! ## stubs -/

/-- The marker a stub announces itself with. -/
def EAGER_STUB_PREFIX : String := "[Old tool result cleared"

/-- Name the tool and the target it already read. -/
def stubForCall (toolName : String) (target : Option String) : String :=
  let whereText := match target with
    | none => ""
    | some target => if target = "" then "" else " " ++ target
  EAGER_STUB_PREFIX ++ ": " ++ toolName ++ whereText ++ "]" ++
    " — you already ran this; the full output is in the transcript above." ++
    " Re-issue ONLY if you need the exact content again, not to check whether" ++
    " you read it."

/-- A Python integer as `str()` shows it, with its value; `True` is an `int`. -/
def pyInt? : Json → Option (String × Int)
  | .int n => some (toString n, n)
  | .bool b => some (if b then "True" else "False", if b then 1 else 0)
  | _ => none

/-- The line range named by integer `offset` and `limit`. -/
def rangeLabel (arguments : Json) : String :=
  match pyInt? (arguments.get "offset"), pyInt? (arguments.get "limit") with
  | some (off, o), some (_, l) => " lines " ++ off ++ "-" ++ toString (o + l - 1)
  | some (off, _), none => " from line " ++ off
  | none, some (lim, _) => " first " ++ lim ++ " lines"
  | none, none => " (whole file)"

/-- The first non-empty string among the items with these keys. -/
def firstText (keys : List String) (arguments : Json) : Option String :=
  keys.findSome? fun key =>
    match (arguments.get key).asStr? with
    | some value => if value = "" then none else some value
    | none => none

/-- `_call_target`: a deterministic label of what the call read. -/
def callTarget (jsonLoads : String → JsonLoads) (toolName arguments : String) :
    Except ShapeError (Option String) :=
  match jsonLoads arguments with
  | .recursionError => .error .recursionError
  | .valueError => .ok none
  | .value parsed =>
      if !parsed.isObj then .ok none
      else
        let pages := if toolName = "file_read" then
            (firstText ["path", "file_path", "filename", "file"] parsed).map (· ++ rangeLabel parsed)
          else none
        .ok (pages.or
          (firstText ["path", "file_path", "filename", "file", "pattern", "command"] parsed))

/-! ## the layer -/

/-- The stub of one old result, if it is shorter than the result. -/
def stubFor (jsonLoads : String → JsonLoads) (messages : List Message) (o : Occurrence) :
    Except ShapeError (Option (Nat × String)) := do
  let target ← callTarget jsonLoads o.name o.arguments
  let stub := stubForCall o.name target
  match messages[o.resultIndex]?.bind Message.text? with
  | none => return none
  | some content => return if stub.length < content.length then some (o.resultIndex, stub) else none

/-- The results that may go and are older than the newest `keep_recent`, in the
order of their calls. -/
def oldResults (cfg : EagerToolOutputClearShaper) (messages : List Message) : List Occurrence :=
  let compactable := (matchedToolResultOccurrences messages).filter fun o =>
    cfg.compactableTools.contains o.name &&
      (messages[o.resultIndex]?).any (fun result => !result.isPinned && result.text?.isSome)
  compactable.take (compactable.length - cfg.keepRecent)

/-- `_stubs_for_old_results`: result indices mapped to stubs. -/
def stubsForOldResults (cfg : EagerToolOutputClearShaper) (jsonLoads : String → JsonLoads)
    (messages : List Message) : Except ShapeError (List (Nat × String)) := do
  let stubs ← (cfg.oldResults messages).mapM (stubFor jsonLoads messages)
  return stubs.filterMap id

/-- The text that replaces message `index`, if any. -/
def newContent (stubs : List (Nat × String)) (index : Nat) (m : Message) : Option String :=
  match stubs.lookup index with
  | none => none
  | some stub =>
      if m.isTool && !m.isPinned && decide (m.text? ≠ some stub) then some stub else none

/-- `EagerToolOutputClearShaper.shape`. -/
def shape (cfg : EagerToolOutputClearShaper) (jsonLoads : String → JsonLoads) (refs : List Ref)
    (st : Store) : Except ShapeError (List Ref × Store) := do
  let stubs ← cfg.stubsForOldResults jsonLoads (st.view refs)
  return replaceContents (newContent stubs) 0 refs st

variable {Rejected : String → Prop} {st : Store} {refs : List Ref}

theorem shape_spec (cfg : EagerToolOutputClearShaper) (jsonLoads : String → JsonLoads)
    (hrefs : st.Has refs) (h : cfg.shape jsonLoads refs st = .ok out) :
    EditedHistory Rejected st refs out := by
  unfold shape at h
  cases hs : cfg.stubsForOldResults jsonLoads (st.view refs) with
  | error e => rw [hs] at h; contradiction
  | ok stubs =>
      rw [hs] at h
      have hout : replaceContents (newContent stubs) 0 refs st = out := by
        injection h
      rw [← hout]
      refine replaceContents_spec _ 0 (fun i m text hnew => ?_) hrefs
      unfold newContent at hnew
      split at hnew
      · contradiction
      · simp only [Option.ite_none_right_eq_some, Bool.and_eq_true] at hnew
        exact hnew.1.1.1

/-! ## the one way to fail -/

/-- No old result of the history answers a call whose arguments `json.loads`
gives up on. -/
def Readable (cfg : EagerToolOutputClearShaper) (jsonLoads : String → JsonLoads)
    (messages : List Message) : Prop :=
  ∀ o ∈ cfg.oldResults messages, jsonLoads o.arguments ≠ .recursionError

/-- A target is found unless the arguments are nested too deeply. -/
theorem callTarget_isOk {jsonLoads : String → JsonLoads} {toolName arguments : String} :
    (∃ target, callTarget jsonLoads toolName arguments = .ok target) ↔
      jsonLoads arguments ≠ .recursionError := by
  unfold callTarget
  cases jsonLoads arguments with
  | recursionError => simp
  | valueError => simp
  | value parsed =>
      refine iff_of_true ?_ JsonLoads.noConfusion
      dsimp only
      split <;> exact ⟨_, rfl⟩

/-- An argument text that is nested too deeply to be read: `'[' * 100000`. -/
def deepText : String := String.ofList (List.replicate 100000 '[')

/-- `json.loads` on the texts of the samples. -/
def sampleLoads (text : String) : JsonLoads :=
  if text = deepText then .recursionError
  else if text = "{}" then .value (.obj [])
  else .valueError

theorem sampleLoads_deepText : sampleLoads deepText = .recursionError :=
  if_pos rfl

end EagerToolOutputClearShaper

end OpenCollab
