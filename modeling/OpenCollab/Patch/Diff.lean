import Mathlib.Tactic.IntervalCases
import OpenCollab.Patch.Hunks

/-!
# OpenCollab.Patch.Diff

What a unified diff is, apart from any code: hunks between two lists of lines,
each line with or without a terminator, and the text that shows them.

`Correct` is the relation between two files and the hunks of a diff from the one
to the other; `DiffHunk.render` shows a hunk.  That the parser reads a shown diff
back is assembled from

* `int_toDigits`, `takeNumber_toDigits` — a number that is shown and read;
* `matchHeader_render` — a header;
* `foldlM_body` — the lines of a body;
* `parseHunks_render` — every diff.
-/

namespace OpenCollab.Patch

/-! ## files -/

/-- A line and whether it is terminated. -/
abbrev FullLine := Text × Bool

/-- Lines of which the last is terminated when `endedNl` says so. -/
def terminate : List Text → Bool → List FullLine
  | [], _ => []
  | [line], endedNl => [(line, endedNl)]
  | line :: next :: lines, endedNl => (line, true) :: terminate (next :: lines) endedNl

/-- The lines of a text with their terminators. -/
def fullLines (text : Text) : List FullLine := terminate (splitLines text).1 (splitLines text).2

/-- Every line is terminated. -/
def Terminated (lines : List FullLine) : Prop := ∀ line ∈ lines, line.2 = true

/-- Only the last line can lack its terminator. -/
def WellEnded (lines : List FullLine) : Prop :=
  ∀ before line after, lines = before ++ line :: after → line.2 = false → after = []

/-! ## diffs -/

/-- A line of a hunk: a line of the files it is in. -/
structure DiffLine where
  tag : Tag
  line : FullLine
deriving Repr, DecidableEq

/-- A hunk of a diff.  A length of one may be left out of the header, and any
heading may follow it. -/
structure DiffHunk where
  oldStart : Nat
  oldLen : Nat
  newStart : Nat
  newLen : Nat
  omitOld : Bool := false
  omitNew : Bool := false
  heading : Text := []
  body : List DiffLine
deriving Repr, DecidableEq

/-- The lines of the old file the hunk is about. -/
def DiffHunk.old (hunk : DiffHunk) : List FullLine :=
  (hunk.body.filter fun d => d.tag.inOld).map DiffLine.line

/-- The lines of the new file the hunk is about. -/
def DiffHunk.new (hunk : DiffHunk) : List FullLine :=
  (hunk.body.filter fun d => d.tag.inNew).map DiffLine.line

/-- Some line of the hunk lacks its terminator. -/
def DiffHunk.Marked (hunk : DiffHunk) : Prop := ∃ d ∈ hunk.body, d.line.2 = false

/-- The start a header states for a range of `len` lines at index `index`: the
first of them, or the line before an empty range. -/
def startAt (index len : Nat) : Nat := if len = 0 then index else index + 1

/-- **Correct diffs**: the second list is what the hunks make of the first, whose
lines begin at index `o` of the old file and at index `n` of the new one.  Lines
between hunks are the same in both, and the headers tell the truth. -/
inductive Correct : Nat → Nat → List FullLine → List DiffHunk → List FullLine → Prop
  | done (o n : Nat) (rest : List FullLine) : Correct o n rest [] rest
  | hunk {o n : Nat} (gap : List FullLine) {rest out : List FullLine} {hunk : DiffHunk}
      {hunks : List DiffHunk} (holdLen : hunk.oldLen = hunk.old.length)
      (hnewLen : hunk.newLen = hunk.new.length)
      (holdStart : hunk.oldStart = startAt (o + gap.length) hunk.oldLen)
      (hnewStart : hunk.newStart = startAt (n + gap.length) hunk.newLen)
      (htail : Correct (o + gap.length + hunk.old.length) (n + gap.length + hunk.new.length) rest
        hunks out) :
      Correct o n (gap ++ hunk.old ++ rest) (hunk :: hunks) (gap ++ hunk.new ++ out)

/-! ## the text of a diff -/

/-- The character of a tag. -/
def Tag.char : Tag → Char
  | .context => ' '
  | .remove => '-'
  | .add => '+'

/-- A line as it is shown, with the marker behind it when it lacks its
terminator. -/
def DiffLine.render (d : DiffLine) : List Text :=
  (d.tag.char :: d.line.1) :: if d.line.2 then [] else [noNewlineMarker]

/-- A range as a header shows it. -/
def renderRange (start len : Nat) (omitted : Bool) : Text :=
  Nat.toDigits 10 start ++ if omitted && len = 1 then [] else ',' :: Nat.toDigits 10 len

/-- The header of a hunk. -/
def DiffHunk.header (hunk : DiffHunk) : Text :=
  ['@', '@', ' ', '-'] ++ renderRange hunk.oldStart hunk.oldLen hunk.omitOld ++ [' ', '+'] ++
    renderRange hunk.newStart hunk.newLen hunk.omitNew ++ [' ', '@', '@'] ++ hunk.heading

/-- The lines that show a hunk. -/
def DiffHunk.render (hunk : DiffHunk) : List Text :=
  hunk.header :: hunk.body.flatMap DiffLine.render

/-- The numbers of the header can be read. -/
def DiffHunk.Readable (digits : Digits) (hunk : DiffHunk) : Prop :=
  ∀ n ∈ [hunk.oldStart, hunk.oldLen, hunk.newStart, hunk.newLen],
    ¬ digits.TooLong (Nat.toDigits 10 n)

/-! ## numbers -/

theorem Digits.value_isDigit (digits : Digits) {c : Char} (h : c.isDigit) :
    digits.value c = some (c.toNat - 48) := by
  have hbounds : 48 ≤ c.toNat ∧ c.toNat ≤ 57 := by
    simp only [Char.isDigit, Bool.and_eq_true, decide_eq_true_eq] at h
    exact h
  have hc : c = Nat.digitChar (c.toNat - 48) := by
    conv_lhs => rw [← Char.ofNat_toNat c]
    obtain ⟨hlo, hhi⟩ := hbounds
    generalize c.toNat = n at hlo hhi
    interval_cases n <;> decide
  conv_lhs => rw [hc]
  exact digits.value_digit _ (by omega)

private theorem read_eq_ofDigitChars (digits : Digits) {text : Text}
    (h : ∀ c ∈ text, c.isDigit) : Digits.int.read digits text = Nat.ofDigitChars 10 text 0 := by
  rw [Digits.int.read, Nat.ofDigitChars_eq_foldl]
  suffices hfold : ∀ n, text.foldl (fun n c => 10 * n + (digits.value c).getD 0) n =
      text.foldl (fun n c => 10 * n + (c.toNat - '0'.toNat)) n from hfold 0
  induction text with
  | nil => exact fun n => rfl
  | cons c text ih =>
      intro n
      rw [List.foldl_cons, List.foldl_cons, digits.value_isDigit (h c (List.mem_cons_self ..))]
      exact ih (fun d hd => h d (List.mem_cons_of_mem _ hd)) _

private theorem isDigit_toDigits {n : Nat} : ∀ c ∈ Nat.toDigits 10 n, c.isDigit := fun _ hc =>
  Nat.isDigit_of_mem_toDigits (by decide) (by decide) hc

/-- **A number that is shown is read back.** -/
theorem int_toDigits {digits : Digits} {n : Nat} (h : ¬ digits.TooLong (Nat.toDigits 10 n)) :
    digits.int (Nat.toDigits 10 n) = .ok n := by
  have hread : Digits.int.read digits (Nat.toDigits 10 n) = n := by
    rw [read_eq_ofDigitChars digits isDigit_toDigits, Nat.ofDigitChars_ten_toDigits]
  simp only [Digits.int]
  split
  · rename_i limit hlimit
    rw [if_neg fun hlt => h ⟨limit, hlimit, hlt⟩, hread]
  · rw [hread]

/-- The digits of a number are taken up to what is no digit. -/
theorem takeNumber_toDigits (digits : Digits) (n : Nat) {c : Char} (rest : Text)
    (hc : digits.value c = none) :
    digits.takeNumber (Nat.toDigits 10 n ++ c :: rest) = some (Nat.toDigits 10 n, c :: rest) := by
  have hdigits : ∀ d ∈ Nat.toDigits 10 n, (digits.value d).isSome = true := by
    intro d hd
    rw [digits.value_isDigit (isDigit_toDigits d hd)]
    rfl
  have htake : (Nat.toDigits 10 n ++ c :: rest).takeWhile (fun d => (digits.value d).isSome) =
      Nat.toDigits 10 n := by
    rw [List.takeWhile_append_of_pos hdigits]
    simp [hc]
  have hdrop : (Nat.toDigits 10 n ++ c :: rest).dropWhile (fun d => (digits.value d).isSome) =
      c :: rest := by
    rw [List.dropWhile_append_of_pos hdigits]
    simp [hc]
  simp [Digits.takeNumber, htake, hdrop, Nat.toDigits_ne_nil]

/-! ## headers -/

/-- The groups of a shown range. -/
theorem matchRange_render (digits : Digits) (start len : Nat) (omitted : Bool) (rest : Text) :
    matchRange digits (renderRange start len omitted ++ ' ' :: rest) =
      some ((Nat.toDigits 10 start,
        if omitted && len = 1 then none else some (Nat.toDigits 10 len)), ' ' :: rest) := by
  by_cases hone : (omitted && len = 1) = true
  · simp only [renderRange, hone, if_true, List.append_nil, matchRange]
    rw [takeNumber_toDigits digits start rest digits.value_space]
    rfl
  · simp only [renderRange, hone, matchRange, List.append_assoc]
    rw [if_neg (by simp), if_neg (by simp), List.cons_append,
      takeNumber_toDigits digits start _ digits.value_comma]
    simp only [Option.bind_eq_bind, Option.bind_some]
    rw [takeNumber_toDigits digits len rest digits.value_space]
    rfl

/-- **The header of a hunk is matched**, its numbers as they are shown. -/
theorem matchHeader_render (digits : Digits) (hunk : DiffHunk) :
    matchHeader digits hunk.header = some
      { oldStart := Nat.toDigits 10 hunk.oldStart
        oldLen := if hunk.omitOld && hunk.oldLen = 1 then none else some (Nat.toDigits 10 hunk.oldLen)
        newStart := Nat.toDigits 10 hunk.newStart
        newLen := if hunk.omitNew && hunk.newLen = 1 then none
          else some (Nat.toDigits 10 hunk.newLen) } := by
  simp only [matchHeader, DiffHunk.header, List.append_assoc, List.cons_append, List.nil_append,
    expect, if_true, Option.bind_eq_bind, Option.bind_some, matchRange_render]

/-- Only a line that begins with `@` can be a header. -/
theorem matchHeader_eq_none (digits : Digits) {c : Char} (hc : c ≠ '@') (content : Text) :
    matchHeader digits (c :: content) = none := by
  simp [matchHeader, expect, Ne.symm hc]

theorem lenOf_render {digits : Digits} {len : Nat} (omitted : Bool)
    (h : ¬ digits.TooLong (Nat.toDigits 10 len)) :
    lenOf digits (if omitted && len = 1 then none else some (Nat.toDigits 10 len)) = .ok len := by
  split
  · rename_i hone
    simp only [Bool.and_eq_true, decide_eq_true_eq] at hone
    rw [hone.2]
    rfl
  · exact int_toDigits h

/-! ## the parsed hunk -/

/-- The indices of the lines without a terminator, counted from `offset`. -/
def unterminatedAt (offset : Nat) (lines : List FullLine) : List Nat :=
  (lines.zipIdx offset).filterMap fun entry => if entry.1.2 then none else some entry.2

/-- The body line of a shown line. -/
def DiffLine.parsed (d : DiffLine) : Line := ⟨d.tag, d.line.1⟩

/-- The hunk a shown hunk is parsed to, its header on line `headerLine`. -/
def DiffHunk.parsed (hunk : DiffHunk) (headerLine : Nat) : Hunk where
  headerLine
  oldStart := some hunk.oldStart
  oldLen := hunk.oldLen
  newStart := some hunk.newStart
  newLen := hunk.newLen
  lines := hunk.body.map DiffLine.parsed
  noNewlineAfter := unterminatedAt 0 (hunk.body.map DiffLine.line)

/-- The headers of a hunk tell the truth about its body. -/
structure DiffHunk.Counted (hunk : DiffHunk) : Prop where
  oldLen : hunk.oldLen = hunk.old.length
  newLen : hunk.newLen = hunk.new.length
  oldStart : hunk.oldLen ≠ 0 → hunk.oldStart ≠ 0
  newStart : hunk.newLen ≠ 0 → hunk.newStart ≠ 0

/-- The hunk its header opens. -/
theorem openHunk_render {digits : Digits} {hunk : DiffHunk} (hcounted : hunk.Counted)
    (hread : hunk.Readable digits) (lineNumber : Nat) :
    openHunk digits lineNumber (matchHeader digits hunk.header) =
      .ok { hunk.parsed lineNumber with lines := [], noNewlineAfter := [] } := by
  have hold := int_toDigits (hread hunk.oldStart (by simp))
  have holdLen := lenOf_render hunk.omitOld (hread hunk.oldLen (by simp))
  have hnew := int_toDigits (hread hunk.newStart (by simp))
  have hnewLen := lenOf_render hunk.omitNew (hread hunk.newLen (by simp))
  simp only [openHunk, matchHeader_render, bind, Except.bind, hold, holdLen, hnew, hnewLen]
  rw [if_neg fun h => hcounted.oldStart h.2 h.1, if_neg fun h => hcounted.newStart h.2 h.1]
  rfl

/-- The hunk is closed as it is. -/
theorem validateHunkCounts_parsed {hunk : DiffHunk} (hcounted : hunk.Counted) (headerLine : Nat) :
    validateHunkCounts (hunk.parsed headerLine) false = .ok (hunk.parsed headerLine) := by
  have hold : (hunk.parsed headerLine).oldCount = hunk.oldLen := by
    rw [hcounted.oldLen]
    simp [Hunk.oldCount, DiffHunk.parsed, DiffHunk.old, List.countP_eq_length_filter,
      List.filter_map, Function.comp_def, DiffLine.parsed]
  have hnew : (hunk.parsed headerLine).newCount = hunk.newLen := by
    rw [hcounted.newLen]
    simp [Hunk.newCount, DiffHunk.parsed, DiffHunk.new, List.countP_eq_length_filter,
      List.filter_map, Function.comp_def, DiffLine.parsed]
  simp only [validateHunkCounts, bind, Except.bind, Bool.false_eq_true, if_false, hold, hnew]
  rw [if_neg]
  simp [DiffHunk.parsed]

/-! ## the lines of a body -/

/-- The hunk with more lines read into it. -/
def Hunk.extend (cur : Hunk) (body : List DiffLine) : Hunk :=
  { cur with
    lines := cur.lines ++ body.map DiffLine.parsed
    noNewlineAfter :=
      cur.noNewlineAfter ++ unterminatedAt cur.lines.length (body.map DiffLine.line) }

theorem Tag.ofChar?_char (tag : Tag) : Tag.ofChar? tag.char = some tag := by
  cases tag <;> rfl

private theorem parseLine_body {digits : Digits} {closed : List Hunk} {cur next : Hunk} {c : Char}
    {content : Text} {k : Nat} (hc : c ≠ '@') (h : bodyLine k cur (c :: content) = .ok next) :
    parseLine digits false { closed, cur := some cur } (c :: content, k) =
      .ok { closed, cur := some next } := by
  simp [parseLine, matchHeader_eq_none digits hc, h, Except.map]

private theorem noNewlineMarker_eq :
    noNewlineMarker = '\\' :: " No newline at end of file".toList := by decide

/-- The marker is read behind a line that has none yet. -/
theorem bodyLine_marker {cur : Hunk} (hne : cur.lines ≠ [])
    (hmarks : cur.lines.length - 1 ∉ cur.noNewlineAfter) (k : Nat) :
    bodyLine k cur noNewlineMarker =
      .ok { cur with noNewlineAfter := cur.noNewlineAfter ++ [cur.lines.length - 1] } := by
  have htag : Tag.ofChar? '\\' = none := by decide
  rw [noNewlineMarker_eq]
  simp only [bodyLine, htag]
  rw [if_pos trivial, if_neg (by simp [noNewlineMarker_eq]), if_neg hne, if_neg hmarks]

/-- One shown line is one body line, and its marker. -/
theorem foldlM_line {digits : Digits} (closed : List Hunk) {cur : Hunk}
    (hmarks : ∀ i ∈ cur.noNewlineAfter, i < cur.lines.length) (d : DiffLine) (k : Nat) :
    (d.render.zipIdx k).foldlM (parseLine digits false) { closed, cur := some cur } =
      .ok { closed, cur := some (cur.extend [d]) } := by
  obtain ⟨tag, content, terminated⟩ := d
  have hfirst : parseLine digits false { closed, cur := some cur } (tag.char :: content, k) =
      .ok { closed, cur := some { cur with lines := cur.lines ++ [⟨tag, content⟩] } } := by
    refine parseLine_body (by cases tag <;> decide) ?_
    simp [bodyLine, Tag.ofChar?_char]
  cases terminated with
  | true =>
      simp only [DiffLine.render, if_true, List.zipIdx_cons, List.zipIdx_nil, List.foldlM_cons,
        List.foldlM_nil, hfirst, bind, Except.bind, pure, Except.pure]
      simp [Hunk.extend, DiffLine.parsed, unterminatedAt]
  | false =>
      have hsecond : parseLine digits false
          { closed, cur := some { cur with lines := cur.lines ++ [⟨tag, content⟩] } }
          (noNewlineMarker, k + 1) =
          .ok { closed, cur := some (cur.extend [⟨tag, content, false⟩]) } := by
        have hmem : (cur.lines ++ [Line.mk tag content]).length - 1 ∉ cur.noNewlineAfter := by
          intro hmem
          have hlt := hmarks _ hmem
          simp at hlt
        have hbody := bodyLine_marker
          (show ({ cur with lines := cur.lines ++ [⟨tag, content⟩] } : Hunk).lines ≠ [] by simp) hmem
          (k + 1)
        rw [noNewlineMarker_eq] at hbody ⊢
        rw [parseLine_body (by decide) hbody]
        simp [Hunk.extend, DiffLine.parsed, unterminatedAt]
      simp only [DiffLine.render, Bool.false_eq_true, if_false, List.zipIdx_cons, List.zipIdx_nil,
        List.foldlM_cons, List.foldlM_nil, hfirst, hsecond, bind, Except.bind, pure, Except.pure]

theorem lt_of_mem_unterminatedAt {offset i : Nat} {lines : List FullLine}
    (h : i ∈ unterminatedAt offset lines) : i < offset + lines.length := by
  simp only [unterminatedAt, List.mem_filterMap] at h
  obtain ⟨⟨line, j⟩, hmem, hj⟩ := h
  have hlt := (List.mem_zipIdx hmem).2.1
  split at hj
  · contradiction
  · simp only [Option.some.injEq] at hj
    omega

@[simp] theorem unterminatedAt_nil (offset : Nat) : unterminatedAt offset [] = [] := rfl

theorem unterminatedAt_cons (offset : Nat) (line : FullLine) (lines : List FullLine) :
    unterminatedAt offset (line :: lines) =
      (if line.2 then [] else [offset]) ++ unterminatedAt (offset + 1) lines := by
  simp only [unterminatedAt, List.zipIdx_cons, List.filterMap_cons]
  cases line.2 <;> rfl

/-- **The lines of a body are read in.** -/
theorem foldlM_body {digits : Digits} (closed : List Hunk) {cur : Hunk}
    (hmarks : ∀ i ∈ cur.noNewlineAfter, i < cur.lines.length) (body : List DiffLine) (k : Nat) :
    ((body.flatMap DiffLine.render).zipIdx k).foldlM (parseLine digits false)
        { closed, cur := some cur } =
      .ok { closed, cur := some (cur.extend body) } := by
  induction body generalizing cur k with
  | nil => simp [Hunk.extend, unterminatedAt, pure, Except.pure]
  | cons d body ih =>
      have hnext : ∀ i ∈ (cur.extend [d]).noNewlineAfter, i < (cur.extend [d]).lines.length := by
        intro i hi
        simp only [Hunk.extend, List.mem_append, List.map_cons, List.map_nil, List.length_append,
          List.length_singleton] at hi ⊢
        rcases hi with hi | hi
        · exact Nat.lt_succ_of_lt (hmarks i hi)
        · exact lt_of_mem_unterminatedAt hi
      rw [List.flatMap_cons, List.zipIdx_append, List.foldlM_append, foldlM_line closed hmarks d k]
      simp only [bind, Except.bind]
      rw [ih hnext]
      simp [Hunk.extend, unterminatedAt_cons]

/-! ## whole diffs -/

/-- The header of a hunk closes the hunk before it. -/
theorem parseLine_header {digits : Digits} {hunk : DiffHunk} (hcounted : hunk.Counted)
    (hread : hunk.Readable digits) {st : ParseState}
    (hcur : ∀ cur ∈ st.cur, validateHunkCounts cur false = .ok cur) (k : Nat) :
    parseLine digits false st (hunk.header, k) =
      .ok { closed := st.closed ++ st.cur.toList
            cur := some { hunk.parsed k with lines := [], noNewlineAfter := [] } } := by
  have hopen := openHunk_render hcounted hread k
  have hsome : (matchHeader digits hunk.header).isSome = true := by rw [matchHeader_render]; rfl
  obtain ⟨closed, cur⟩ := st
  cases cur with
  | none => simp [parseLine, hsome, hopen, bind, Except.bind]
  | some cur =>
      have hvalid := hcur cur (by simp)
      simp [parseLine, hsome, hopen, hvalid, bind, Except.bind, Except.map]

/-- One hunk of a shown diff. -/
theorem foldlM_hunk {digits : Digits} {hunk : DiffHunk} (hcounted : hunk.Counted)
    (hread : hunk.Readable digits) {st : ParseState}
    (hcur : ∀ cur ∈ st.cur, validateHunkCounts cur false = .ok cur) (k : Nat) :
    (hunk.render.zipIdx k).foldlM (parseLine digits false) st =
      .ok { closed := st.closed ++ st.cur.toList, cur := some (hunk.parsed k) } := by
  rw [DiffHunk.render, List.zipIdx_cons, List.foldlM_cons, parseLine_header hcounted hread hcur k]
  simp only [bind, Except.bind]
  rw [foldlM_body _ (by simp)]
  simp [Hunk.extend, DiffHunk.parsed]

/-- The parsed hunks of a shown diff, each with the number of its header line. -/
def ParsedAs (hunks : List DiffHunk) (parsed : List Hunk) : Prop :=
  List.Forall₂ (fun hunk p => ∃ headerLine, p = hunk.parsed headerLine) hunks parsed

private theorem foldlM_hunks {digits : Digits} {hunks : List DiffHunk} (st : ParseState)
    (hcounted : ∀ hunk ∈ hunks, hunk.Counted) (hread : ∀ hunk ∈ hunks, hunk.Readable digits)
    (hcur : ∀ cur ∈ st.cur, validateHunkCounts cur false = .ok cur) (k : Nat) :
    ∃ st' parsed, ((hunks.flatMap DiffHunk.render).zipIdx k).foldlM (parseLine digits false) st =
        .ok st' ∧ ParsedAs hunks parsed ∧
      st'.closed ++ st'.cur.toList = st.closed ++ st.cur.toList ++ parsed ∧
      (∀ cur ∈ st'.cur, validateHunkCounts cur false = .ok cur) ∧
      (hunks ≠ [] → st'.cur.isSome = true) := by
  induction hunks generalizing st k with
  | nil => exact ⟨st, [], by simp [pure, Except.pure], .nil, by simp, hcur, by simp⟩
  | cons hunk hunks ih =>
      have hfirst := hcounted hunk (List.mem_cons_self ..)
      have hvalid := validateHunkCounts_parsed hfirst k
      obtain ⟨st', parsed, hrun, hparsed, hstate, hcur', hsome⟩ := ih
        { closed := st.closed ++ st.cur.toList, cur := some (hunk.parsed k) }
        (fun other h => hcounted other (List.mem_cons_of_mem _ h))
        (fun other h => hread other (List.mem_cons_of_mem _ h)) (by simpa using hvalid)
        (k + hunk.render.length)
      refine ⟨st', hunk.parsed k :: parsed, ?_, .cons ⟨k, rfl⟩ hparsed, ?_, hcur', ?_⟩
      · rw [List.flatMap_cons, List.zipIdx_append, List.foldlM_append,
          foldlM_hunk hfirst (hread hunk (List.mem_cons_self ..)) hcur k]
        exact hrun
      · rw [hstate]
        simp
      · intro _
        cases hunks with
        | nil =>
            cases hparsed
            cases hcurrent : st'.cur with
            | some cur => rfl
            | none =>
                simp only [List.flatMap_nil, List.zipIdx_nil, List.foldlM_nil, pure, Except.pure,
                  Except.ok.injEq] at hrun
                rw [← hrun] at hcurrent
                contradiction
        | cons next hunks => exact hsome (by simp)

/-- The lines of a text that shows them. -/
theorem rawLines_joinLines {lines : List Text} {endedNl : Bool}
    (hlines : ∀ line ∈ lines, '\n' ∉ line) (hlast : ∃ last, lines.getLast? = some last ∧ last ≠ []) :
    rawLines (joinLines lines endedNl) = lines := by
  obtain ⟨last, hlast, hblank⟩ := hlast
  have hne : lines ≠ [] := by
    intro hnil
    simp [hnil] at hlast
  have hsplit := List.splitOn_intercalate '\n' hlines hne
  cases endedNl with
  | true => simp [rawLines, joinLines, hne, List.splitOn_append_cons_self, hsplit]
  | false => simp [rawLines, joinLines, hne, hsplit, hlast, hblank]

private theorem foldlM_preamble {digits : Digits} {preamble : List Text}
    (h : ∀ raw ∈ preamble, matchHeader digits raw = none) (k : Nat) :
    (preamble.zipIdx k).foldlM (parseLine digits false) {} = .ok {} := by
  induction preamble generalizing k with
  | nil => rfl
  | cons raw preamble ih =>
      have hraw := h raw (List.mem_cons_self ..)
      rw [List.zipIdx_cons, List.foldlM_cons]
      have hstep : parseLine digits false {} (raw, k) = .ok {} := by simp [parseLine, hraw]
      rw [hstep]
      exact ih (fun other hother => h other (List.mem_cons_of_mem _ hother)) _

/-- **A shown diff is parsed back**, whatever lines without a header stand in
front of it. -/
theorem parseHunks_render {digits : Digits} {preamble : List Text} {hunks : List DiffHunk}
    {patch : Text} (hne : hunks ≠ []) (hcounted : ∀ hunk ∈ hunks, hunk.Counted)
    (hread : ∀ hunk ∈ hunks, hunk.Readable digits)
    (hpreamble : ∀ raw ∈ preamble, matchHeader digits raw = none)
    (hraw : rawLines patch = preamble ++ hunks.flatMap DiffHunk.render) :
    ∃ parsed, parseHunks digits patch false = .ok parsed ∧ ParsedAs hunks parsed := by
  obtain ⟨st', parsed, hrun, hparsed, hstate, hvalid, hsome⟩ :=
    foldlM_hunks {} hcounted hread (by simp) (1 + preamble.length)
  refine ⟨parsed, ?_, hparsed⟩
  simp only [parseHunks, hraw, List.zipIdx_append, List.foldlM_append, foldlM_preamble hpreamble,
    bind, Except.bind, hrun]
  obtain ⟨cur, hcur⟩ := Option.isSome_iff_exists.1 (hsome hne)
  have hlast := hvalid cur (by simp [hcur])
  simp only [hcur, hlast, Except.map]
  simpa [hcur] using hstate

end OpenCollab.Patch
