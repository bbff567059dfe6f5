import Mathlib.Algebra.Ring.Nat
import OpenCollab.Patch.Newlines

/-!
# OpenCollab.Files.TextRange

`adapters/_safe_file_range.py`: a window of lines of a text, read without holding the
whole text.

The reader works in three loops over what is left of the text: `skipLines` up to the
first line of the window, `collectLines` as long as the characters last, `countLines` to
the end.  Each reads a line in chunks (`readTextLine`); the chunks do not show:

* `readTextLine_cons` — a line that fits is read whole, and the rest of the text has the
  remaining lines;
* `readTextLine_cut` — of a line that does not fit, the part that does;
* `readTextRange_window` — the window holds the lines asked for, or it is cut, and then
  its lines use up the characters (`Window`).
-/

namespace OpenCollab.Files

open Patch (Text splitLines)

/-! ## the reader -/

/-- `TextFileRange`. -/
structure TextFileRange where
  lines : List Text
  startLine : Nat
  totalLines : Option Nat
  hasMore : Bool
  charsTruncated : Bool := false
deriving DecidableEq, Repr

/-- `_RANGE_READ_CHUNK_CHARS`. -/
def rangeReadChunkChars : Nat := 64 * 1024

/-- `handle.readline(size)` on what is left of a text: the chunk and the rest. -/
def readline : Nat → Text → Text × Text
  | 0, handle => ([], handle)
  | _ + 1, [] => ([], [])
  | size + 1, c :: handle =>
      if c = '\n' then ([c], handle)
      else
        let (chunk, rest) := readline size handle
        (c :: chunk, rest)

theorem length_readline (size : Nat) (handle : Text) :
    (readline size handle).1.length + (readline size handle).2.length = handle.length := by
  induction size generalizing handle with
  | zero => simp [readline]
  | succ size ih =>
      cases handle with
      | nil => rfl
      | cons c handle =>
          have := ih handle
          simp only [readline]
          split
          · simp
            omega
          · simp only [List.length_cons]
            omega

/-- What `_read_text_line` returns, and the rest of the text. -/
structure LineRead where
  line : Option Text
  atEof : Bool
  truncated : Bool
  rest : Text
deriving DecidableEq, Repr

/-- The loop of `_read_text_line`; without a `remaining` the line is not collected. -/
def readLineChunks (remaining : Option Nat) (parts : Text) (seenContent : Bool) (handle : Text) :
    LineRead :=
  let chunk := (readline rangeReadChunkChars handle).1
  let rest := (readline rangeReadChunkChars handle).2
  if chunk = [] then ⟨if seenContent then some parts else none, true, false, rest⟩
  else
    let ended := chunk.getLast? = some '\n'
    let content := if ended then chunk.dropLast else chunk
    if remaining.any (· < content.length) then
      ⟨some (parts ++ content.take (remaining.getD 0)), false, true, rest⟩
    else
      let parts := if remaining.isSome then parts ++ content else parts
      if ended then ⟨some parts, false, false, rest⟩
      else readLineChunks (remaining.map (· - content.length)) parts true rest
termination_by handle.length
decreasing_by
  have hlength : chunk.length + rest.length = handle.length :=
    length_readline rangeReadChunkChars handle
  have := List.length_pos_iff.mpr ‹chunk ≠ []›
  exact (by omega : rest.length < handle.length)

/-- `_read_text_line`. -/
def readTextLine (collectLimit : Option Nat) (handle : Text) : LineRead :=
  readLineChunks collectLimit [] false handle

/-- The loop of `_read_text_range` to the first line of the window: what is left of the
text, or the number of its lines if they end before. -/
def skipLines : Nat → Nat → Text → Except Nat Text
  | 0, _, handle => .ok handle
  | count + 1, lineNumber, handle =>
      let read := readTextLine none handle
      if read.line.isNone then .error lineNumber
      else if read.atEof then .error (lineNumber + 1)
      else skipLines count (lineNumber + 1) read.rest

/-- The loop that selects lines, `left` of them still missing: the window if it is settled
here, or the lines selected and what is left of the text. -/
def collectLines (offset maxChars : Nat) (left : Nat) (selected : List Text)
    (charsUsed lineNumber : Nat) (handle : Text) :
    Except TextFileRange (List Text × Nat × Text) :=
  match left with
  | 0 => .ok (selected, lineNumber, handle)
  | left + 1 =>
      let separatorChars := if selected = [] then 0 else 1
      let remaining := maxChars - charsUsed - separatorChars
      if remaining < 1 then .error ⟨selected, offset, none, true, true⟩
      else
        let read := readTextLine (some remaining) handle
        match read.line with
        | none => .error ⟨selected, offset, some lineNumber, false, false⟩
        | some line =>
            let selected := selected ++ [line]
            if read.truncated then .error ⟨selected, offset, none, true, true⟩
            else if read.atEof then .error ⟨selected, offset, some (lineNumber + 1), false, false⟩
            else collectLines offset maxChars left selected
              (charsUsed + separatorChars + line.length) (lineNumber + 1) read.rest

/-- The loop to the end of the file: the number of lines. -/
def countLines : Nat → Nat → Text → Nat
  | 0, lineNumber, _ => lineNumber
  | fuel + 1, lineNumber, handle =>
      let read := readTextLine none handle
      if read.line.isNone then lineNumber
      else if read.atEof then lineNumber + 1
      else countLines fuel (lineNumber + 1) read.rest

/-- `_read_text_range`. -/
def readTextRange (handle : Text) (offset limit maxChars : Nat) (countToEof : Bool) :
    TextFileRange :=
  match skipLines (offset - 1) 0 handle with
  | .error lineNumber => ⟨[], offset, some lineNumber, false, false⟩
  | .ok handle =>
      match collectLines offset maxChars limit [] 0 (offset - 1) handle with
      | .error window => window
      | .ok (selected, lineNumber, handle) =>
          if countToEof then
            let shownEnd := offset - 1 + selected.length
            let lineNumber := countLines (handle.length + 1) lineNumber handle
            ⟨selected, offset, some lineNumber, shownEnd < lineNumber, false⟩
          else
            let hasMore := handle ≠ []
            ⟨selected, offset, if hasMore then none else some lineNumber, hasMore, false⟩

/-! ## lines of a text -/

/-- The lines of a text. -/
def linesOf (text : Text) : List Text := (splitLines text).1

theorem linesOf_nil : linesOf [] = [] := rfl

private theorem splitOn_of_notMem {body : Text} (hbody : '\n' ∉ body) :
    body.splitOn '\n' = [body] := by
  have hjoin : ['\n'].intercalate [body] = body := by simp
  have := List.splitOn_intercalate '\n' (by simpa using hbody : ∀ line ∈ [body], '\n' ∉ line)
    (by simp)
  rwa [hjoin] at this

theorem linesOf_line {body : Text} (hbody : '\n' ∉ body) (rest : Text) :
    linesOf (body ++ '\n' :: rest) = body :: linesOf rest := by
  have hsplit : (body ++ '\n' :: rest).splitOn '\n' = body :: rest.splitOn '\n' := by
    rw [List.splitOn_append_cons_self, splitOn_of_notMem hbody]
    rfl
  simp only [linesOf, splitLines, hsplit]
  by_cases hrest : rest = []
  · subst hrest
    simp
  · have hlast : (body ++ '\n' :: rest).getLast? = rest.getLast? := by
      rw [List.getLast?_append, List.getLast?_cons]
      cases h : rest.getLast? with
      | none => exact absurd (List.getLast?_eq_none_iff.mp h) hrest
      | some c => rfl
    have hne : body ++ '\n' :: rest ≠ [] := by simp
    rw [if_neg hne, if_neg hrest, hlast]
    by_cases hended : rest.getLast? = some '\n'
    · simp [hended, List.dropLast_cons_of_ne_nil (List.splitOn_ne_nil '\n' rest)]
    · simp [hended]

theorem linesOf_last {body : Text} (hbody : '\n' ∉ body) (hne : body ≠ []) :
    linesOf body = [body] := by
  have hlast : body.getLast? ≠ some '\n' := fun h => hbody (List.mem_of_getLast? h)
  simp [linesOf, splitLines, hne, hlast, splitOn_of_notMem hbody]

/-- A text is empty, or an unterminated line, or starts with a terminated one. -/
theorem text_cases (text : Text) :
    text = [] ∨ (text ≠ [] ∧ '\n' ∉ text) ∨
      ∃ body rest, '\n' ∉ body ∧ text = body ++ '\n' :: rest := by
  by_cases hmem : '\n' ∈ text
  · obtain ⟨body, rest, htext, hbody⟩ := List.eq_append_cons_of_mem hmem
    exact .inr (.inr ⟨body, rest, hbody, htext⟩)
  · by_cases hne : text = []
    · exact .inl hne
    · exact .inr (.inl ⟨hne, hmem⟩)

/-! ## one chunk, one line -/

/-- A line longer than the chunk is cut. -/
theorem readline_take {body : Text} (hbody : '\n' ∉ body) (rest : Text) {size : Nat}
    (h : size ≤ body.length) :
    readline size (body ++ rest) = (body.take size, body.drop size ++ rest) := by
  induction body generalizing size with
  | nil =>
      have : size = 0 := by simpa using h
      subst this
      rfl
  | cons c body ih =>
      simp only [List.mem_cons, not_or] at hbody
      cases size with
      | zero => rfl
      | succ size =>
          simp only [List.cons_append, readline, if_neg (Ne.symm hbody.1),
            ih hbody.2 (by simpa using h), List.take_succ_cons, List.drop_succ_cons]

/-- A shorter one is read to its end. -/
theorem readline_last {body : Text} (hbody : '\n' ∉ body) {size : Nat} (h : body.length < size) :
    readline size body = (body, []) := by
  induction body generalizing size with
  | nil =>
      cases size with
      | zero => cases h
      | succ size => rfl
  | cons c body ih =>
      simp only [List.mem_cons, not_or] at hbody
      cases size with
      | zero => cases h
      | succ size =>
          simp only [readline, if_neg (Ne.symm hbody.1), ih hbody.2 (by simpa using h)]

/-- And with its line break. -/
theorem readline_line {body : Text} (hbody : '\n' ∉ body) (rest : Text) {size : Nat}
    (h : body.length < size) :
    readline size (body ++ '\n' :: rest) = (body ++ ['\n'], rest) := by
  induction body generalizing size with
  | nil =>
      cases size with
      | zero => cases h
      | succ size => rfl
  | cons c body ih =>
      simp only [List.mem_cons, not_or] at hbody
      cases size with
      | zero => cases h
      | succ size =>
          simp only [List.cons_append, readline, if_neg (Ne.symm hbody.1),
            ih hbody.2 (by simpa using h)]

theorem rangeReadChunkChars_pos : 0 < rangeReadChunkChars := by decide

section Chunks

variable {remaining : Option Nat} {parts : Text} {seenContent : Bool} {body : Text}

/-- A chunk without a line break: it is collected if it fits, and the loop goes on. -/
theorem readLineChunks_more {handle chunk rest : Text}
    (h : readline rangeReadChunkChars handle = (chunk, rest)) (hne : chunk ≠ [])
    (hchunk : '\n' ∉ chunk) (hfits : ∀ n, remaining = some n → chunk.length ≤ n) :
    readLineChunks remaining parts seenContent handle
      = readLineChunks (remaining.map (· - chunk.length))
          (if remaining.isSome then parts ++ chunk else parts) true rest := by
  have hlast : chunk.getLast? ≠ some '\n' := fun h => hchunk (List.mem_of_getLast? h)
  have hany : remaining.any (· < chunk.length) = false := by
    cases remaining with
    | none => rfl
    | some n =>
        have := hfits n rfl
        simp
        omega
  rw [readLineChunks]
  simp [h, hne, hlast, hany]

/-- A chunk that does not fit ends the reading. -/
theorem readLineChunks_stop (parts : Text) (seenContent : Bool) {handle chunk rest : Text}
    {n : Nat} (h : readline rangeReadChunkChars handle = (chunk, rest))
    (hchunk : '\n' ∉ chunk) (hlong : n < chunk.length) :
    readLineChunks (some n) parts seenContent handle
      = ⟨some (parts ++ chunk.take n), false, true, rest⟩ := by
  have hne : chunk ≠ [] := by
    intro hnil
    simp [hnil] at hlong
  have hlast : chunk.getLast? ≠ some '\n' := fun h => hchunk (List.mem_of_getLast? h)
  rw [readLineChunks]
  simp [h, hne, hlast, hlong]

/-- The chunk that ends with the line break. -/
theorem readLineChunks_end {rest : Text} (hbody : '\n' ∉ body)
    (hshort : body.length < rangeReadChunkChars)
    (hfits : ∀ n, remaining = some n → body.length ≤ n) :
    readLineChunks remaining parts seenContent (body ++ '\n' :: rest)
      = ⟨some (if remaining.isSome then parts ++ body else parts), false, false, rest⟩ := by
  have hany : remaining.any (· < body.length) = false := by
    cases remaining with
    | none => rfl
    | some n =>
        have := hfits n rfl
        simp
        omega
  rw [readLineChunks]
  simp [readline_line hbody rest hshort, hany]

/-- The line break is there, but what stands before it does not fit. -/
theorem readLineChunks_end_stop {rest : Text} {n : Nat} (hbody : '\n' ∉ body)
    (hshort : body.length < rangeReadChunkChars) (hlong : n < body.length) :
    readLineChunks (some n) parts seenContent (body ++ '\n' :: rest)
      = ⟨some (parts ++ body.take n), false, true, rest⟩ := by
  rw [readLineChunks]
  simp [readline_line hbody rest hshort, hlong]

private theorem take_ne_nil (h : rangeReadChunkChars ≤ body.length) :
    body.take rangeReadChunkChars ≠ [] := by
  intro hnil
  have := congrArg List.length hnil
  simp [rangeReadChunkChars] at this h
  simp [this] at h

/-- What is collected of a line. -/
def collected (remaining : Option Nat) (body : Text) : Text := if remaining.isSome then body else []

/-- **A terminated line** that fits. -/
theorem readLineChunks_line (hbody : '\n' ∉ body) (rest : Text)
    (hfits : ∀ n, remaining = some n → body.length ≤ n) :
    readLineChunks remaining parts seenContent (body ++ '\n' :: rest)
      = ⟨some (parts ++ collected remaining body), false, false, rest⟩ := by
  induction hlen : body.length using Nat.strongRecOn
    generalizing remaining parts seenContent body with
  | ind len ih =>
      subst hlen
      by_cases hlong : rangeReadChunkChars ≤ body.length
      · have hpos := rangeReadChunkChars_pos
        have htake : (body.take rangeReadChunkChars).length = rangeReadChunkChars := by
          simp [hlong]
        rw [readLineChunks_more (readline_take hbody ('\n' :: rest) hlong) (take_ne_nil hlong)
          (fun h => hbody (List.mem_of_mem_take h))
          (fun n hn => by have := hfits n hn; omega)]
        rw [ih (body.drop rangeReadChunkChars).length (by rw [List.length_drop]; omega)
          (fun h => hbody (List.mem_of_mem_drop h)) ?_ rfl]
        · cases remaining with
          | none => simp [collected]
          | some n => simp [collected, List.append_assoc]
        · intro n hn
          obtain ⟨m, hm, rfl⟩ := Option.map_eq_some_iff.mp hn
          have := hfits m hm
          rw [htake, List.length_drop]
          omega
      · rw [readLineChunks_end hbody (by omega) hfits]
        cases remaining <;> simp [collected]

/-- **An unterminated line** that fits. -/
theorem readLineChunks_last (hbody : '\n' ∉ body) (hseen : body ≠ [] ∨ seenContent = true)
    (hfits : ∀ n, remaining = some n → body.length ≤ n) :
    readLineChunks remaining parts seenContent body
      = ⟨some (parts ++ collected remaining body), true, false, []⟩ := by
  induction hlen : body.length using Nat.strongRecOn
    generalizing remaining parts seenContent body with
  | ind len ih =>
      subst hlen
      by_cases hnil : body = []
      · subst hnil
        have hread : readline rangeReadChunkChars [] = ([], []) :=
          readline_last hbody rangeReadChunkChars_pos
        rw [readLineChunks]
        cases hseen with
        | inl h => exact absurd rfl h
        | inr h => cases remaining <;> simp [hread, h, collected]
      · have hpos := rangeReadChunkChars_pos
        have hbodyPos := List.length_pos_iff.mpr hnil
        obtain ⟨chunk, rest, hread, hne, hsplit⟩ : ∃ chunk rest,
            readline rangeReadChunkChars body = (chunk, rest) ∧ chunk ≠ [] ∧
              chunk ++ rest = body := by
          by_cases hlong : rangeReadChunkChars ≤ body.length
          · have hread := readline_take hbody [] hlong
            rw [List.append_nil, List.append_nil] at hread
            exact ⟨_, _, hread, take_ne_nil hlong, List.take_append_drop _ _⟩
          · exact ⟨_, _, readline_last hbody (by omega), hnil, List.append_nil _⟩
        subst hsplit
        simp only [List.mem_append, not_or] at hbody
        have hchunkPos := List.length_pos_iff.mpr hne
        rw [readLineChunks_more hread hne hbody.1 ?_,
          ih rest.length (by simp; omega) hbody.2 (.inr rfl) ?_ rfl]
        · cases remaining with
          | none => simp [collected]
          | some n => simp [collected, List.append_assoc]
        · intro n hn
          obtain ⟨m, hm, rfl⟩ := Option.map_eq_some_iff.mp hn
          have := hfits m hm
          simp only [List.length_append] at this
          omega
        · intro n hn
          have := hfits n hn
          simp only [List.length_append] at this
          omega

/-- **A line that does not fit**: its part that does, and the reading stops. -/
theorem readLineChunks_cut (parts : Text) (seenContent : Bool) {n : Nat} (hbody : '\n' ∉ body)
    {tail : Text} (htail : tail = [] ∨ ∃ rest, tail = '\n' :: rest) (hlong : n < body.length) :
    ∃ rest, readLineChunks (some n) parts seenContent (body ++ tail)
      = ⟨some (parts ++ body.take n), false, true, rest⟩ := by
  induction hlen : body.length using Nat.strongRecOn
    generalizing n parts seenContent body with
  | ind len ih =>
      subst hlen
      by_cases hchunk : rangeReadChunkChars ≤ body.length
      · have hpos := rangeReadChunkChars_pos
        have htake : (body.take rangeReadChunkChars).length = rangeReadChunkChars := by
          simp [hchunk]
        have hmem : '\n' ∉ body.take rangeReadChunkChars := fun h => hbody (List.mem_of_mem_take h)
        by_cases hn : n < rangeReadChunkChars
        · have hstop := readLineChunks_stop parts seenContent
            (readline_take hbody tail hchunk) hmem (by rw [htake]; exact hn)
          rw [List.take_take, Nat.min_eq_left (by omega)] at hstop
          exact ⟨_, hstop⟩
        · rw [readLineChunks_more (readline_take hbody tail hchunk) (take_ne_nil hchunk) hmem
            (fun m hm => by cases hm; omega)]
          have hdrop : n - rangeReadChunkChars < (body.drop rangeReadChunkChars).length := by
            rw [List.length_drop]
            omega
          obtain ⟨rest, hrest⟩ := ih (body.drop rangeReadChunkChars).length
            (by rw [List.length_drop]; omega) (parts ++ body.take rangeReadChunkChars) true
            (fun h => hbody (List.mem_of_mem_drop h)) hdrop rfl
          refine ⟨rest, ?_⟩
          simp only [htake, Option.map_some, Option.isSome_some, if_true]
          rw [hrest, List.append_assoc]
          congr 3
          have hsum : n = rangeReadChunkChars + (n - rangeReadChunkChars) := by omega
          conv => rhs; rw [hsum, List.take_add]
      · cases htail with
        | inl h =>
            subst h
            rw [List.append_nil]
            exact ⟨_, readLineChunks_stop parts seenContent (readline_last hbody (by omega)) hbody
              hlong⟩
        | inr h =>
            obtain ⟨rest, rfl⟩ := h
            exact ⟨_, readLineChunks_end_stop hbody (by omega) hlong⟩

end Chunks

/-! ## the lines read -/

theorem linesOf_eq_nil {text : Text} : linesOf text = [] ↔ text = [] := by
  constructor
  · intro h
    rcases text_cases text with hnil | ⟨hne, hbody⟩ | ⟨body, rest, hbody, rfl⟩
    · exact hnil
    · rw [linesOf_last hbody hne] at h
      cases h
    · rw [linesOf_line hbody] at h
      cases h
  · intro h
    rw [h, linesOf_nil]

theorem readTextLine_nil (limit : Option Nat) : readTextLine limit [] = ⟨none, true, false, []⟩ := by
  have hread : readline rangeReadChunkChars [] = ([], []) :=
    readline_last (by simp) rangeReadChunkChars_pos
  rw [readTextLine, readLineChunks]
  simp [hread]

section Lines

variable {text line : Text} {later : List Text}

/-- **A line that fits** is read whole, and the later ones are left. -/
theorem readTextLine_cons (limit : Option Nat) (hlines : linesOf text = line :: later)
    (hfits : ∀ n, limit = some n → line.length ≤ n) :
    ∃ atEof rest, readTextLine limit text = ⟨some (collected limit line), atEof, false, rest⟩ ∧
      linesOf rest = later ∧ (atEof = true → later = []) ∧ rest.length < text.length := by
  rcases text_cases text with rfl | ⟨hne, hbody⟩ | ⟨body, rest, hbody, rfl⟩
  · cases hlines
  · rw [linesOf_last hbody hne] at hlines
    cases hlines
    refine ⟨true, [], ?_, rfl, fun _ => rfl, List.length_pos_iff.mpr hne⟩
    rw [readTextLine, readLineChunks_last hbody (.inl hne) hfits]
    rfl
  · rw [linesOf_line hbody] at hlines
    cases hlines
    refine ⟨false, rest, ?_, rfl, fun h => (Bool.false_ne_true h).elim, by simp; omega⟩
    rw [readTextLine, readLineChunks_line hbody rest hfits]
    rfl

/-- **A line that does not fit** is read in part. -/
theorem readTextLine_cut {n : Nat} (hlines : linesOf text = line :: later)
    (hlong : n < line.length) :
    ∃ rest, readTextLine (some n) text = ⟨some (line.take n), false, true, rest⟩ := by
  rcases text_cases text with rfl | ⟨hne, hbody⟩ | ⟨body, rest, hbody, rfl⟩
  · cases hlines
  · rw [linesOf_last hbody hne] at hlines
    cases hlines
    obtain ⟨rest, hrest⟩ := readLineChunks_cut [] false hbody (.inl rfl) hlong
    rw [List.append_nil] at hrest
    exact ⟨rest, hrest⟩
  · rw [linesOf_line hbody] at hlines
    cases hlines
    exact readLineChunks_cut [] false hbody (.inr ⟨rest, rfl⟩) hlong

end Lines

/-- The first loop ends before the first line asked for, or says how many lines there are. -/
theorem skipLines_spec (count lineNumber : Nat) (text : Text) :
    (∃ rest, skipLines count lineNumber text = .ok rest ∧
      linesOf rest = (linesOf text).drop count ∧ count ≤ (linesOf text).length) ∨
    (skipLines count lineNumber text = .error (lineNumber + (linesOf text).length) ∧
      (linesOf text).length ≤ count) := by
  induction count generalizing lineNumber text with
  | zero => exact .inl ⟨text, rfl, rfl, Nat.zero_le _⟩
  | succ count ih =>
      cases hlines : linesOf text with
      | nil =>
          have htext := linesOf_eq_nil.mp hlines
          subst htext
          right
          simp [skipLines, readTextLine_nil]
      | cons line later =>
          obtain ⟨atEof, rest, hread, hrest, heof, -⟩ :=
            readTextLine_cons none hlines (fun n hn => by cases hn)
          simp only [skipLines, hread, Option.isNone_some, Bool.false_eq_true, if_false]
          cases atEof with
          | true =>
              right
              simp [heof rfl]
          | false =>
              simp only [Bool.false_eq_true, if_false, List.drop_succ_cons, List.length_cons]
              have := ih (lineNumber + 1) rest
              rw [hrest] at this
              cases this with
              | inl h =>
                  obtain ⟨rest', hskip, hlater, hcount⟩ := h
                  exact .inl ⟨rest', hskip, hlater, by omega⟩
              | inr h =>
                  refine .inr ⟨?_, by omega⟩
                  rw [h.1]
                  congr 1
                  omega

/-- The last loop counts the lines that are left. -/
theorem countLines_spec {fuel : Nat} {text : Text} (hfuel : text.length < fuel)
    (lineNumber : Nat) : countLines fuel lineNumber text = lineNumber + (linesOf text).length := by
  induction fuel generalizing lineNumber text with
  | zero => cases hfuel
  | succ fuel ih =>
      cases hlines : linesOf text with
      | nil =>
          have htext := linesOf_eq_nil.mp hlines
          subst htext
          simp [countLines, readTextLine_nil]
      | cons line later =>
          obtain ⟨atEof, rest, hread, hrest, heof, hlength⟩ :=
            readTextLine_cons none hlines (fun n hn => by cases hn)
          simp only [countLines, hread, Option.isNone_some, Bool.false_eq_true, if_false]
          cases atEof with
          | true => simp [heof rfl]
          | false =>
              simp only [Bool.false_eq_true, if_false]
              rw [ih (by omega), hrest, List.length_cons]
              omega

/-! ## the window -/

/-- **A window** of the lines of a text, from line `offset` on: the lines asked for, and
whether there are more; or as many as the characters last, the last one perhaps in part. -/
inductive Window (lines : List Text) (offset limit maxChars : Nat) : TextFileRange → Prop
  | complete (total : Option Nat) (htotal : total = none ∨ total = some lines.length) :
      Window lines offset limit maxChars
        ⟨(lines.drop (offset - 1)).take limit, offset, total, offset - 1 + limit < lines.length,
          false⟩
  | cut (selected : List Text) (hne : selected ≠ []) (hlimit : selected.length ≤ limit)
      (hlength : selected.length ≤ (lines.drop (offset - 1)).length)
      (hfront : selected.dropLast = (lines.drop (offset - 1)).take (selected.length - 1))
      (hchars : maxChars ≤
        (((lines.drop (offset - 1)).take selected.length).map List.length).sum + selected.length) :
      Window lines offset limit maxChars ⟨selected, offset, none, true, true⟩

/-- A window that holds the lines asked for. -/
theorem Window.whole {lines selected : List Text} {offset limit maxChars : Nat}
    {total : Option Nat} {hasMore : Bool} (hselected : selected = (lines.drop (offset - 1)).take limit)
    (htotal : total = none ∨ total = some lines.length)
    (hmore : hasMore = true ↔ offset - 1 + limit < lines.length) :
    Window lines offset limit maxChars ⟨selected, offset, total, hasMore, false⟩ := by
  have hdecide : hasMore = decide (offset - 1 + limit < lines.length) := by
    rw [Bool.eq_iff_iff, hmore, decide_eq_true_iff]
  rw [hselected, hdecide]
  exact .complete total htotal

/-- What the selecting loop returns. -/
def Collected (lines : List Text) (offset limit maxChars : Nat) :
    Except TextFileRange (List Text × Nat × Text) → Prop
  | .error window => Window lines offset limit maxChars window
  | .ok (selected, lineNumber, rest) =>
      selected = (lines.drop (offset - 1)).take limit ∧ lineNumber = offset - 1 + limit ∧
        linesOf rest = lines.drop (offset - 1 + limit) ∧ offset - 1 + limit ≤ lines.length

/-- **The selecting loop**, with the lines of `done` selected. -/
theorem collectLines_collected {lines : List Text} {offset maxChars : Nat} (hmax : 1 ≤ maxChars)
    (hoffset : offset - 1 ≤ lines.length) (left : Nat) (done : List Text) (charsUsed : Nat)
    (text : Text) (hlines : lines.drop (offset - 1) = done ++ linesOf text)
    (hchars : charsUsed + (if done = [] then 0 else 1) = (done.map List.length).sum + done.length) :
    Collected lines offset (done.length + left) maxChars
      (collectLines offset maxChars left done charsUsed (offset - 1 + done.length) text) := by
  have htotal : lines.length = offset - 1 + (done.length + (linesOf text).length) := by
    have := congrArg List.length hlines
    simp only [List.length_drop, List.length_append] at this
    omega
  induction left generalizing done charsUsed text with
  | zero =>
      refine ⟨by rw [hlines]; simp, rfl, ?_, by omega⟩
      rw [← List.drop_drop, hlines]
      simp
  | succ left ih =>
      have hcomplete (selected : List Text) (hselected : selected = done ++ linesOf text)
          (hleft : (linesOf text).length ≤ left + 1) (total : Nat) (hall : total = lines.length) :
          Window lines offset (done.length + (left + 1)) maxChars
            ⟨selected, offset, some total, false, false⟩ := by
        apply Window.whole
        · rw [hselected, hlines, List.take_of_length_le (by rw [List.length_append]; omega)]
        · exact .inr (congrArg some hall)
        · simp only [Bool.false_eq_true, false_iff]
          omega
      simp only [collectLines]
      by_cases hremaining : maxChars - charsUsed - (if done = [] then 0 else 1) < 1
      · rw [if_pos hremaining]
        have hne : done ≠ [] := by
          intro hnil
          simp only [hnil, if_true, List.map_nil, List.sum_nil, List.length_nil] at hremaining hchars
          omega
        rw [if_neg hne] at hremaining hchars
        refine Window.cut done hne (by omega) ?_ ?_ ?_
        · rw [hlines, List.length_append]
          omega
        · rw [hlines, List.dropLast_eq_take, List.take_append_of_le_length (by omega)]
        · rw [hlines, List.take_left' rfl]
          omega
      · rw [if_neg hremaining]
        generalize hsep : (if done = [] then 0 else 1) = separatorChars at *
        cases hnext : linesOf text with
        | nil =>
            have htext := linesOf_eq_nil.mp hnext
            subst htext
            rw [readTextLine_nil]
            exact hcomplete done (by simp [linesOf_nil]) (by simp [linesOf_nil]) _
              (by rw [linesOf_nil] at htotal; simpa using htotal.symm)
        | cons line later =>
            by_cases hlong : maxChars - charsUsed - separatorChars < line.length
            · obtain ⟨rest, hread⟩ := readTextLine_cut hnext hlong
              rw [hread]
              refine Window.cut _ (by simp) (by simp) ?_ ?_ ?_
              · rw [hlines, hnext]
                simp
              · rw [hlines]
                simp
              · have htake : (done ++ line :: later).take (done.length + 1) = done ++ [line] := by
                  rw [List.take_length_add_append]
                  rfl
                rw [hlines, hnext, List.length_append, List.length_singleton, htake]
                simp only [List.map_append, List.map_cons, List.map_nil, List.sum_append,
                  List.sum_cons, List.sum_nil]
                omega
            · obtain ⟨atEof, rest, hread, hrest, heof, -⟩ := readTextLine_cons
                (some (maxChars - charsUsed - separatorChars)) hnext
                (fun n hn => by cases hn; omega)
              rw [hread]
              simp only [collected, Option.isSome_some, if_true, Bool.false_eq_true, if_false]
              cases atEof with
              | true =>
                  have hlater := heof rfl
                  subst hlater
                  rw [hnext] at htotal
                  exact hcomplete _ (by rw [hnext]) (by rw [hnext]; simp) _
                    (by simp only [List.length_singleton] at htotal; omega)
              | false =>
                  have hsum : charsUsed + separatorChars + line.length
                      + (if done ++ [line] = [] then 0 else 1)
                        = ((done ++ [line]).map List.length).sum + (done ++ [line]).length := by
                    simp only [List.append_eq_nil_iff, List.cons_ne_nil, and_false, if_false,
                      List.map_append, List.map_cons, List.map_nil, List.sum_append, List.sum_cons,
                      List.sum_nil, List.length_append, List.length_singleton]
                    omega
                  have := ih (done ++ [line]) (charsUsed + separatorChars + line.length) rest
                    (by rw [hlines, hnext, hrest]; simp) hsum
                    (by rw [hrest]; rw [hnext] at htotal; simp at htotal ⊢; omega)
                  rw [List.length_append, List.length_singleton] at this
                  rw [show done.length + (left + 1) = done.length + 1 + left by omega]
                  exact this

/-- **The range reader** returns a window of the text's lines. -/
theorem readTextRange_window (text : Text) (offset limit : Nat) {maxChars : Nat}
    (hmax : 1 ≤ maxChars) (countToEof : Bool) :
    Window (linesOf text) offset limit maxChars
      (readTextRange text offset limit maxChars countToEof) := by
  simp only [readTextRange]
  cases skipLines_spec (offset - 1) 0 text with
  | inr h =>
      obtain ⟨hskip, hlength⟩ := h
      rw [hskip]
      apply Window.whole
      · rw [List.drop_of_length_le hlength, List.take_nil]
      · exact .inr (by rw [Nat.zero_add])
      · simp only [Bool.false_eq_true, false_iff]
        omega
  | inl h =>
      obtain ⟨rest, hskip, hrest, hlength⟩ := h
      rw [hskip]
      have hcollect := collectLines_collected hmax hlength limit [] 0 rest
        (by rw [hrest, List.nil_append]) rfl
      rw [List.length_nil, Nat.zero_add, Nat.add_zero] at hcollect
      simp only
      cases hresult : collectLines offset maxChars limit [] 0 (offset - 1) rest with
      | error window =>
          rw [hresult] at hcollect
          exact hcollect
      | ok result =>
          obtain ⟨selected, lineNumber, handle⟩ := result
          rw [hresult] at hcollect
          obtain ⟨rfl, rfl, hhandle, hlimit⟩ := hcollect
          have hselected : (((linesOf text).drop (offset - 1)).take limit).length = limit := by
            rw [List.length_take, List.length_drop]
            omega
          have hleft : (linesOf handle).length = (linesOf text).length - (offset - 1 + limit) := by
            rw [hhandle, List.length_drop]
          cases countToEof with
          | true =>
              have hcount : countLines (handle.length + 1) (offset - 1 + limit) handle
                  = (linesOf text).length := by
                rw [countLines_spec (Nat.lt_succ_self _)]
                omega
              simp only [if_true, hcount, hselected]
              exact Window.whole rfl (.inr rfl) decide_eq_true_iff
          | false =>
              have hmore : handle ≠ [] ↔ offset - 1 + limit < (linesOf text).length := by
                rw [ne_eq, ← linesOf_eq_nil, ← List.length_eq_zero_iff]
                omega
              simp only [Bool.false_eq_true, if_false]
              refine Window.whole rfl ?_ (decide_eq_true_iff.trans hmore)
              by_cases hlast : handle ≠ []
              · rw [if_pos hlast]
                exact .inl rfl
              · rw [if_neg hlast]
                have := mt hmore.mpr hlast
                exact .inr (congrArg some (by omega))

end OpenCollab.Files
