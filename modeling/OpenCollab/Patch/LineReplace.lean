import OpenCollab.Json
import OpenCollab.Lib.Windows
import OpenCollab.Patch.Newlines

/-!
# OpenCollab.Patch.LineReplace

The `line_replace` mode of the patch tool: a 1-based inclusive line range is
replaced by new lines, guarded by the text the caller expects there.

The definitions come in the order of the source: `integerParameter`, the checks
on the range (`checkRange`), the guard and its relocation (`matchExpected`,
`locateExpected`), and the replacement itself (`replaceRange`).  Over them
`Addressed` says which range a call addresses, without the code's search, and

* `quotesBlock_iff` — the lines that are searched for are those the text quotes;
* `checkRange_eq_ok`, `matchExpected_eq_ok` — the checks pass for exactly the
  addressed ranges;
* `replaceRange_spec` — what the text written for a range is;
* `lineReplace_exact` — both together, for every call.
-/

namespace OpenCollab.Patch

/-! ## parameters -/

/-- The parameters `line_replace` reads.  An absent `new_str` is empty and an
absent `relocate_expected` is false. -/
structure LineParams where
  startLine : Option Json
  endLine : Option Json
  newStr : Text := []
  expectedStr : Option Text := none
  relocateExpected : Bool := false

/-- `integer_parameter`; `wholeFloat` gives the integer a finite whole float
stands for. -/
def integerParameter (wholeFloat : String → Option Int) (value : Json) (name : String) :
    Except String Int :=
  match value with
  | .int n => .ok n
  | .float text =>
      match wholeFloat text with
      | some n => .ok n
      | none => .error s!"{name} must be an integer"
  | _ => .error s!"{name} must be an integer"

/-! ## the range -/

/-- The lines of a half-open range. -/
def slice (lines : List Text) (range : Nat × Nat) : List Text :=
  (lines.drop range.1).take (range.2 - range.1)

/-- The checks on the addressed range, as indices: `end_line` is exclusive, and
`end_line == start_line - 1` inserts before `start_line`. -/
def checkRange (startLine endLine : Int) (total : Nat) : Except String (Nat × Nat) :=
  if startLine < 1 then .error s!"start_line must be >= 1 (got {startLine})."
  else if endLine < startLine - 1 then
    .error s!"end_line ({endLine}) must be >= start_line - 1 ({startLine - 1})."
  else if startLine > total + 1 then
    .error s!"start_line {startLine} is past end of file ({total} lines)."
  else if endLine > total then
    .error s!"end_line {endLine} is past end of file ({total} lines)."
  else .ok ((startLine - 1).toNat, endLine.toNat)

/-- The lines a quoted text stands for.  Quoted with one line more than it has
terminated lines, it ends in a blank line. -/
def quotedLines (expected : Text) (lineCount : Nat) : List Text :=
  let block := (splitLines expected).1
  if expected.getLast? = some '\n' ∧ lineCount = block.length + 1 then block ++ [[]] else block

/-- `_locate_expected`. -/
def locateExpected (lines : List Text) (expected : Text) (lineCount : Nat) : List (Nat × Nat) :=
  if expected = [] then []
  else
    let block := quotedLines expected lineCount
    (Lib.occurrences block lines 0).map fun start => (start, start + block.length)

/-- The guard on the range: the expected text is the text of the range, with or
without its final terminator, or it is found elsewhere. -/
def matchExpected (lines : List Text) (range : Nat × Nat) (startLine endLine : Int)
    (expected : Text) (relocateExpected : Bool) : Except String ((Nat × Nat) × List String) :=
  let actualLines := slice lines range
  let actual := ['\n'].intercalate actualLines
  if expected ≠ actual ∧ (actualLines = [] ∨ expected ≠ actual ++ ['\n']) then
    if relocateExpected = false then
      .error (s!"expected_str does not match the current content of lines " ++
        s!"{startLine}-{endLine}.\n--- expected ---\n{String.ofList expected}\n" ++
        s!"--- actual ---\n{String.ofList actual}")
    else
      match locateExpected lines expected (range.2 - range.1) with
      | [hit] =>
          .ok (hit, [s!"expected_str did not match lines {startLine}-{endLine}; " ++
            s!"matched lines {hit.1 + 1}-{hit.2} uniquely"])
      | hits =>
          let whereabouts :=
            if hits = [] then "does not appear anywhere in the file"
            else s!"appears {hits.length} times"
          .error s!"expected_str {whereabouts}; add context to identify one range."
  else .ok (range, [])

/-! ## the replacement -/

/-- The byte-order mark. -/
def bom : Char := '\ufeff'

/-- The part of the text that stays ahead of inserted lines, and the text whose
lines are replaced: a leading byte-order mark belongs to the file. -/
def splitBom (source : Text) (range : Nat × Nat) : Text × Text :=
  if range = (0, 0) ∧ source.head? = some bom then ([bom], source.tail) else ([], source)

/-- The new text: the lines of the range give way to the lines of `newStr`. -/
def replaceRange (source : Text) (range : Nat × Nat) (newStr : Text) (style : Newline) : Text :=
  let (start, body) := splitBom source range
  let (lines, endedNl) := splitLines body
  let result := lines.take range.1 ++ (splitLines newStr).1 ++ lines.drop range.2
  start ++ restoreNewlines (joinLines result endedNl) style

/-- `_apply_line_replace`: the new text and the notes, or the error. -/
def applyLineReplace (wholeFloat : String → Option Int) (source : Text) (params : LineParams) :
    Except String (Text × List String) := do
  let some style := detectNewlineStyle source
    | .error "source uses mixed newline styles; refusing to normalize it implicitly."
  let source := normalizeNewlines source
  let (some startLine, some endLine) := (params.startLine, params.endLine)
    | .error "start_line and end_line are required for line_replace mode."
  let startLine ← integerParameter wholeFloat startLine "start_line"
  let endLine ← integerParameter wholeFloat endLine "end_line"
  let lines := (splitLines source).1
  let range ← checkRange startLine endLine lines.length
  let (range, notes) ← match params.expectedStr with
    | none => .ok (range, [])
    | some expected =>
        matchExpected lines range startLine endLine (normalizeNewlines expected)
          params.relocateExpected
  .ok (replaceRange source range (normalizeNewlines params.newStr) style, notes)

/-! ## the addressed range -/

/-- The range a call names, as indices. -/
def Named (startLine endLine : Int) (total : Nat) (range : Nat × Nat) : Prop :=
  1 ≤ startLine ∧ startLine ≤ total + 1 ∧ startLine - 1 ≤ endLine ∧ endLine ≤ total ∧
    range = ((startLine - 1).toNat, endLine.toNat)

/-- The text is the text of the range, up to one final terminator when the range
has lines. -/
def Quotes (lines : List Text) (range : Nat × Nat) (expected : Text) : Prop :=
  expected = ['\n'].intercalate (slice lines range) ∨
    slice lines range ≠ [] ∧ expected = ['\n'].intercalate (slice lines range) ++ ['\n']

/-- **The lines that a text quotes** of a file in which a range of `lineCount` lines is named: a text
that ends with a terminator ends with a blank line as well if it has the lines of the range then. -/
inductive QuotesBlock (expected : Text) (lineCount : Nat) : List Text → Prop
  | terminated {block : List Text} (hlines : ∀ line ∈ block, '\n' ∉ line) (hne : block ≠ [])
      (htext : expected = ['\n'].intercalate block ++ ['\n'])
      (hcount : lineCount ≠ block.length + 1) : QuotesBlock expected lineCount block
  | blankEnd {block : List Text} (hlines : ∀ line ∈ block, '\n' ∉ line) (hne : block ≠ [])
      (htext : expected = ['\n'].intercalate block ++ ['\n'])
      (hcount : lineCount = block.length + 1) : QuotesBlock expected lineCount (block ++ [[]])
  | unterminated {block : List Text} (hlines : ∀ line ∈ block, '\n' ∉ line)
      (hlast : block.getLast? ≠ some []) (htext : expected = ['\n'].intercalate block) :
      QuotesBlock expected lineCount block

/-- The only range of the file that holds the block. -/
def OnlyRange (lines block : List Text) (range : Nat × Nat) : Prop :=
  range.2 = range.1 + block.length ∧ Lib.Occurs block lines range.1 ∧
    ∀ start, Lib.Occurs block lines start → start = range.1

/-- **The range a call addresses**: the one it names when the expected text is
absent or quotes it; else, when relocation is asked for, the only one that holds
the quoted lines, read with the line count of the range named. -/
inductive Addressed (lines : List Text) (params : LineParams) (named : Nat × Nat) :
    Nat × Nat → Prop
  | unguarded (hguard : params.expectedStr = none) : Addressed lines params named named
  | quoted {expected : Text} (hguard : params.expectedStr = some expected)
      (hquotes : Quotes lines named (normalizeNewlines expected)) :
      Addressed lines params named named
  | relocated {expected : Text} {block : List Text} {range : Nat × Nat}
      (hguard : params.expectedStr = some expected)
      (hquotes : ¬ Quotes lines named (normalizeNewlines expected))
      (hrelocate : params.relocateExpected = true)
      (hblock : QuotesBlock (normalizeNewlines expected) (named.2 - named.1) block)
      (honly : OnlyRange lines block range) :
      Addressed lines params named range

/-- The integer that a parameter gives: an integer, or a finite whole float. -/
inductive Gives (wholeFloat : String → Option Int) : Json → Int → Prop
  | int (n : Int) : Gives wholeFloat (.int n) n
  | float {text : String} {n : Int} (hwhole : wholeFloat text = some n) :
      Gives wholeFloat (.float text) n

theorem integerParameter_eq_ok {wholeFloat : String → Option Int} {value : Json} {name : String}
    {n : Int} : integerParameter wholeFloat value name = .ok n ↔ Gives wholeFloat value n := by
  constructor
  · intro h
    cases value with
    | int m =>
        obtain rfl := Except.ok.inj h
        exact .int m
    | float text =>
        rw [integerParameter] at h
        split at h
        · rename_i m hwhole
          obtain rfl := Except.ok.inj h
          exact .float hwhole
        · contradiction
    | null | bool _ | str _ | arr _ | obj _ => contradiction
  · intro h
    cases h with
    | int => rfl
    | float hwhole => rw [integerParameter, hwhole]

theorem splitLines_ended (text : Text) :
    (splitLines text).2 = true ↔ text.getLast? = some '\n' := by
  unfold splitLines
  split
  · rename_i hnil
    simp [hnil]
  · simp

/-- **The lines the code searches for are those the text quotes.** -/
theorem quotesBlock_iff {expected : Text} {lineCount : Nat} {block : List Text} :
    QuotesBlock expected lineCount block ↔ block = quotedLines expected lineCount := by
  have hended : ∀ {lines : List Text}, (∀ line ∈ lines, '\n' ∉ line) → lines ≠ [] →
      expected = ['\n'].intercalate lines ++ ['\n'] →
      (splitLines expected).1 = lines ∧ expected.getLast? = some '\n' := by
    intro lines hlines hne htext
    have hjoin : expected = joinLines lines true := by
      rw [joinLines, if_neg hne, if_pos rfl, htext]
    have hsplit := splitLines_joinLines hlines ⟨fun hnil => absurd hnil hne, .inl rfl⟩
    rw [← hjoin] at hsplit
    exact ⟨by rw [hsplit], (splitLines_ended expected).mp (by rw [hsplit])⟩
  constructor
  · intro h
    cases h with
    | terminated hlines hne htext hcount =>
        obtain ⟨hsplit, hlast⟩ := hended hlines hne htext
        rw [quotedLines, hsplit, if_neg fun hcond => hcount hcond.2]
    | blankEnd hlines hne htext hcount =>
        obtain ⟨hsplit, hlast⟩ := hended hlines hne htext
        rw [quotedLines, hsplit, if_pos ⟨hlast, hcount⟩]
    | unterminated hlines hlast htext =>
        have hjoin : expected = joinLines block false := by
          rw [joinLines, htext]
          split
          · rename_i hnil
            rw [hnil]
            rfl
          · rw [if_neg Bool.false_ne_true, List.append_nil]
        have hsplit := splitLines_joinLines hlines ⟨fun _ => rfl, .inr hlast⟩
        rw [← hjoin] at hsplit
        have hopen : ¬expected.getLast? = some '\n' := by
          rw [← splitLines_ended, hsplit]
          exact Bool.false_ne_true
        rw [quotedLines, hsplit, if_neg fun hcond => hopen hcond.1]
  · intro h
    have hlines : ∀ line ∈ (splitLines expected).1, '\n' ∉ line :=
      fun line hline => (mem_splitLines hline).2
    have hjoin := joinLines_splitLines expected
    obtain ⟨hnone, hblank⟩ := readable_splitLines expected
    rw [h, quotedLines]
    by_cases hlast : expected.getLast? = some '\n'
    · have hflag := (splitLines_ended expected).mpr hlast
      have hne : (splitLines expected).1 ≠ [] := by
        intro hnil
        rw [hnone hnil] at hflag
        contradiction
      have htext : expected = ['\n'].intercalate (splitLines expected).1 ++ ['\n'] := by
        conv_lhs => rw [← hjoin, joinLines, if_neg hne, hflag, if_pos rfl]
      by_cases hcount : lineCount = (splitLines expected).1.length + 1
      · rw [if_pos ⟨hlast, hcount⟩]
        exact .blankEnd hlines hne htext hcount
      · rw [if_neg fun hcond => hcount hcond.2]
        exact .terminated hlines hne htext hcount
    · have hflag : (splitLines expected).2 = false := by
        rw [← Bool.not_eq_true, splitLines_ended]
        exact hlast
      rw [hflag] at hblank hjoin
      rw [if_neg fun hcond => hlast hcond.1]
      refine .unterminated hlines (hblank.resolve_left Bool.false_ne_true) ?_
      conv_lhs => rw [← hjoin, joinLines]
      split
      · rename_i hnil
        rw [hnil]
        rfl
      · rw [if_neg Bool.false_ne_true, List.append_nil]

theorem checkRange_eq_ok {startLine endLine : Int} {total : Nat} {range : Nat × Nat} :
    checkRange startLine endLine total = .ok range ↔ Named startLine endLine total range := by
  simp only [checkRange, Named]
  split
  · simp; omega
  split
  · simp; omega
  split
  · simp; omega
  split
  · simp; omega
  · simp only [Except.ok.injEq]
    constructor
    · intro h
      exact ⟨by omega, by omega, by omega, by omega, h.symm⟩
    · intro h
      exact h.2.2.2.2.symm

/-- The search has one hit when one range holds the quoted lines.  An empty text
is never searched for; it stands at each end of every line. -/
theorem locateExpected_eq_singleton {lines : List Text} {expected : Text} {count : Nat}
    {range : Nat × Nat} (hlines : expected = [] → lines ≠ []) :
    locateExpected lines expected count = [range] ↔
      OnlyRange lines (quotedLines expected count) range := by
  by_cases hempty : expected = []
  · have hblock : quotedLines expected count = [] := by simp [hempty, quotedLines, splitLines]
    have hpos := List.length_pos_iff.2 (hlines hempty)
    simp only [locateExpected, hempty, if_true, OnlyRange]
    rw [hempty] at hblock
    simp only [hblock, Lib.occurs_nil]
    constructor
    · intro h
      exact absurd h (by simp)
    · rintro ⟨_, _, honly⟩
      have hfirst := honly 0 (Nat.zero_le _)
      have hsecond := honly 1 hpos
      omega
  · simp only [locateExpected, hempty, if_false, List.map_eq_singleton_iff,
      Lib.occurrences_eq_singleton, OnlyRange]
    constructor
    · rintro ⟨start, ⟨_, hoccurs, honly⟩, rfl⟩
      exact ⟨rfl, hoccurs, fun other hother => honly other (Nat.zero_le _) hother⟩
    · rintro ⟨hend, hoccurs, honly⟩
      exact ⟨range.1, ⟨Nat.zero_le _, hoccurs, fun other _ hother => honly other hother⟩,
        by rw [← hend]⟩

/-- The guard of the code, negated, is the quotation. -/
theorem not_quotes_iff {lines : List Text} {range : Nat × Nat} {expected : Text} :
    ¬ Quotes lines range expected ↔
      expected ≠ ['\n'].intercalate (slice lines range) ∧
        (slice lines range = [] ∨ expected ≠ ['\n'].intercalate (slice lines range) ++ ['\n']) := by
  simp only [Quotes, not_or, not_and, ne_eq]
  exact and_congr_right fun _ => Decidable.imp_iff_not_or.trans (by rw [Decidable.not_not])

/-- **The guard passes for exactly the addressed ranges.** -/
theorem matchExpected_eq_ok {lines : List Text} {named range : Nat × Nat} {expected : Text}
    (startLine endLine : Int) (relocate : Bool) :
    (∃ notes, matchExpected lines named startLine endLine expected relocate = .ok (range, notes)) ↔
      Quotes lines named expected ∧ range = named ∨
        ¬ Quotes lines named expected ∧ relocate = true ∧
          OnlyRange lines (quotedLines expected (named.2 - named.1)) range := by
  by_cases hquotes : Quotes lines named expected
  · have hguard := mt not_quotes_iff.2 (not_not_intro hquotes)
    simp only [matchExpected, if_neg hguard]
    simp [hquotes, eq_comm]
  have hlines : expected = [] → lines ≠ [] := by
    intro hempty hnil
    exact hquotes (Or.inl (by simp [hempty, hnil, slice]))
  simp only [matchExpected, if_pos (not_quotes_iff.1 hquotes)]
  cases relocate with
  | false => simp [hquotes]
  | true =>
      rw [← locateExpected_eq_singleton hlines]
      cases hhits : locateExpected lines expected (named.2 - named.1) with
      | nil => simp [hquotes]
      | cons hit hits =>
          cases hits with
          | nil => simp [hquotes]
          | cons other hits => simp [hquotes]

/-! ## the replaced text -/

/-- **What a replaced text is.**  Source and text are the same start, the same
style and the same final-newline flag around two lists of lines, which differ in
the range alone; the start is the byte-order mark of a file lines are inserted
at the front of.  The lines and the flag are read back from the text unless it
would have to end in a blank line without a terminator. -/
structure Replaced (source text : Text) (style : Newline) (range : Nat × Nat)
    (newLines : List Text) (start : Text) (lines : List Text) (endedNl : Bool) : Prop where
  source_eq : source = start ++ restoreNewlines (joinLines lines endedNl) style
  text_eq : text = start ++ restoreNewlines
    (joinLines (lines.take range.1 ++ newLines ++ lines.drop range.2) endedNl) style
  start_eq : start = if range = (0, 0) ∧ source.head? = some bom then [bom] else []
  source_lines : splitLines (normalizeNewlines (source.drop start.length)) = (lines, endedNl)
  style_kept : ∀ found ∈ findNewlines text, found = style
  text_lines : lines.take range.1 ++ newLines ++ lines.drop range.2 ≠ [] →
    endedNl = true ∨ (lines.take range.1 ++ newLines ++ lines.drop range.2).getLast? ≠ some [] →
      splitLines (normalizeNewlines (text.drop start.length)) =
        (lines.take range.1 ++ newLines ++ lines.drop range.2, endedNl)

theorem head?_restoreNewlines (text : Text) (style : Newline) :
    (restoreNewlines text style).head? = some bom ↔ text.head? = some bom := by
  cases text with
  | nil => simp
  | cons c text =>
      rw [restoreNewlines_cons]
      split
      · rename_i hc
        cases style <;> simp [Newline.chars, hc, bom]
      · simp

theorem findNewlines_bom (text : Text) : findNewlines (bom :: text) = findNewlines text := by
  simp [findNewlines, bom]

/-- The text written for a body in which a range of lines is replaced. -/
theorem replaced_body (start body : Text) (style : Newline) (range : Nat × Nat) {newStr : Text}
    (hcr : '\r' ∉ start ++ body) (hnew : '\r' ∉ newStr) (hstart : start = [] ∨ start = [bom])
    (hif : start = if range = (0, 0) ∧ (restoreNewlines (start ++ body) style).head? = some bom
      then [bom] else []) :
    Replaced (restoreNewlines (start ++ body) style)
      (start ++ restoreNewlines (joinLines ((splitLines body).1.take range.1 ++ (splitLines newStr).1 ++
        (splitLines body).1.drop range.2) (splitLines body).2) style)
      style range (splitLines newStr).1 start (splitLines body).1 (splitLines body).2 := by
  have hsource : restoreNewlines (start ++ body) style = start ++ restoreNewlines body style := by
    rw [restoreNewlines_append]
    rcases hstart with rfl | rfl <;> simp [restoreNewlines_cons, bom]
  have hbody : '\r' ∉ body := fun h => hcr (List.mem_append_right _ h)
  let result := (splitLines body).1.take range.1 ++ (splitLines newStr).1 ++
    (splitLines body).1.drop range.2
  have hresult : ∀ line ∈ result, '\r' ∉ line ∧ '\n' ∉ line := by
    intro line hline
    simp only [result, List.mem_append] at hline
    rcases hline with (hline | hline) | hline
    · have hmem := mem_splitLines (List.mem_of_mem_take hline)
      exact ⟨fun h => hbody (hmem.1 _ h), hmem.2⟩
    · have hmem := mem_splitLines hline
      exact ⟨fun h => hnew (hmem.1 _ h), hmem.2⟩
    · have hmem := mem_splitLines (List.mem_of_mem_drop hline)
      exact ⟨fun h => hbody (hmem.1 _ h), hmem.2⟩
  have hjoined : '\r' ∉ joinLines result (splitLines body).2 := by
    intro h
    rcases mem_joinLines h with hlf | ⟨line, hline, hc⟩
    · exact absurd hlf (by decide)
    · exact (hresult line hline).1 hc
  refine ⟨?_, rfl, hif, ?_, ?_, ?_⟩
  · rw [hsource, joinLines_splitLines]
  · rw [hsource, List.drop_left, normalizeNewlines_restoreNewlines hbody]
  · intro found hfound
    have hfound' : found ∈ findNewlines (restoreNewlines (joinLines result (splitLines body).2) style) := by
      rcases hstart with rfl | rfl
      · exact hfound
      · rwa [List.singleton_append, findNewlines_bom] at hfound
    rw [findNewlines_restoreNewlines hjoined] at hfound'
    exact List.eq_of_mem_replicate hfound'
  · intro hne hlast
    rw [List.drop_left, normalizeNewlines_restoreNewlines hjoined]
    exact splitLines_joinLines (fun line hline => (hresult line hline).2)
      ⟨fun hnil => absurd hnil hne, hlast⟩

/-- **The replaced text.** -/
theorem replaceRange_spec {source : Text} {style : Newline}
    (hstyle : ∀ found ∈ findNewlines source, found = style) (range : Nat × Nat) (newStr : Text) :
    ∃ start lines endedNl, Replaced source
      (replaceRange (normalizeNewlines source) range (normalizeNewlines newStr) style) style range
      (splitLines (normalizeNewlines newStr)).1 start lines endedNl := by
  have hcr := cr_not_mem_normalizeNewlines source
  have hnew := cr_not_mem_normalizeNewlines newStr
  have hsource := restoreNewlines_normalizeNewlines hstyle
  have hhead := head?_restoreNewlines (normalizeNewlines source) style
  rw [hsource] at hhead
  by_cases hbom : range = (0, 0) ∧ (normalizeNewlines source).head? = some bom
  · obtain ⟨rest, hrest⟩ := List.head?_eq_some_iff.1 hbom.2
    have hsplit : splitBom (normalizeNewlines source) range = ([bom], rest) := by
      simp [splitBom, hbom, hrest]
    have hreplaced := replaced_body [bom] rest style range
      (by simpa [← hrest] using hcr) hnew (Or.inr rfl)
      (by rw [List.singleton_append, ← hrest, hsource, if_pos ⟨hbom.1, hhead.2 hbom.2⟩])
    rw [List.singleton_append, ← hrest, hsource] at hreplaced
    refine ⟨[bom], (splitLines rest).1, (splitLines rest).2, ?_⟩
    simpa only [replaceRange, hsplit] using hreplaced
  · have hsplit : splitBom (normalizeNewlines source) range = ([], normalizeNewlines source) := by
      simp [splitBom, hbom]
    have hreplaced := replaced_body [] (normalizeNewlines source) style range
      (by simpa using hcr) hnew (Or.inl rfl)
      (by rw [List.nil_append, hsource, if_neg fun h => hbom ⟨h.1, hhead.1 h.2⟩])
    rw [List.nil_append, hsource] at hreplaced
    refine ⟨[], (splitLines (normalizeNewlines source)).1,
      (splitLines (normalizeNewlines source)).2, ?_⟩
    simpa only [replaceRange, hsplit] using hreplaced

/-! ## every call -/

/-- The range a call replaces: both ends are integers naming a range of the
source, and the range is the one addressed. -/
def Asked (wholeFloat : String → Option Int) (source : Text) (params : LineParams)
    (range : Nat × Nat) : Prop :=
  ∃ startParam endParam startLine endLine named,
    params.startLine = some startParam ∧ params.endLine = some endParam ∧
    Gives wholeFloat startParam startLine ∧ Gives wholeFloat endParam endLine ∧
    Named startLine endLine (splitLines (normalizeNewlines source)).1.length named ∧
    Addressed (splitLines (normalizeNewlines source)).1 params named range

/-- A call succeeds with the replacement of a range it asks for. -/
theorem applyLineReplace_eq_ok {wholeFloat : String → Option Int} {source : Text}
    {params : LineParams} {style : Newline} (hstyle : detectNewlineStyle source = some style)
    {text : Text} :
    (∃ notes, applyLineReplace wholeFloat source params = .ok (text, notes)) ↔
      ∃ range, Asked wholeFloat source params range ∧
        text = replaceRange (normalizeNewlines source) range (normalizeNewlines params.newStr)
          style := by
  simp only [applyLineReplace, hstyle, bind, Except.bind]
  constructor
  · rintro ⟨notes, hout⟩
    cases hstartParam : params.startLine with
    | none => simp [hstartParam] at hout
    | some startParam =>
    cases hendParam : params.endLine with
    | none => simp [hstartParam, hendParam] at hout
    | some endParam =>
    simp only [hstartParam, hendParam] at hout
    cases hstart : integerParameter wholeFloat startParam "start_line" with
    | error e => simp [hstart] at hout
    | ok startLine =>
    cases hend : integerParameter wholeFloat endParam "end_line" with
    | error e => simp [hstart, hend] at hout
    | ok endLine =>
    simp only [hstart, hend] at hout
    cases hnamed : checkRange startLine endLine (splitLines (normalizeNewlines source)).1.length with
    | error e => simp [hnamed] at hout
    | ok named =>
    simp only [hnamed] at hout
    rw [checkRange_eq_ok] at hnamed
    cases hguard : params.expectedStr with
    | none =>
        simp only [hguard, Except.ok.injEq, Prod.mk.injEq] at hout
        exact ⟨named, ⟨startParam, endParam, startLine, endLine, named, hstartParam, hendParam,
          integerParameter_eq_ok.1 hstart, integerParameter_eq_ok.1 hend, hnamed, .unguarded hguard⟩,
          hout.1.symm⟩
    | some expected =>
        simp only [hguard] at hout
        cases hmatch : matchExpected (splitLines (normalizeNewlines source)).1 named startLine endLine
            (normalizeNewlines expected) params.relocateExpected with
        | error e => simp [hmatch] at hout
        | ok found =>
        simp only [hmatch, Except.ok.injEq, Prod.mk.injEq] at hout
        refine ⟨found.1, ⟨startParam, endParam, startLine, endLine, named, hstartParam, hendParam,
          integerParameter_eq_ok.1 hstart, integerParameter_eq_ok.1 hend, hnamed, ?_⟩, hout.1.symm⟩
        rcases (matchExpected_eq_ok ..).1 ⟨found.2, hmatch⟩ with ⟨hquotes, hrange⟩ | ⟨hquotes, hrel, honly⟩
        · rw [hrange]
          exact .quoted hguard hquotes
        · exact .relocated hguard hquotes hrel (quotesBlock_iff.2 rfl) honly
  · rintro ⟨range, ⟨startParam, endParam, startLine, endLine, named, hstartParam, hendParam, hstart,
      hend, hnamed, haddressed⟩, rfl⟩
    simp only [hstartParam, hendParam, integerParameter_eq_ok.2 hstart,
      integerParameter_eq_ok.2 hend, checkRange_eq_ok.2 hnamed]
    cases haddressed with
    | unguarded hguard => exact ⟨[], by simp [hguard]⟩
    | quoted hguard hquotes =>
        obtain ⟨notes, hmatch⟩ := (matchExpected_eq_ok startLine endLine params.relocateExpected).2
          (Or.inl ⟨hquotes, rfl⟩)
        exact ⟨notes, by simp [hguard, hmatch]⟩
    | relocated hguard hquotes hrel hblock honly =>
        rw [quotesBlock_iff.1 hblock] at honly
        obtain ⟨notes, hmatch⟩ := (matchExpected_eq_ok startLine endLine params.relocateExpected).2
          (Or.inr ⟨hquotes, hrel, honly⟩)
        exact ⟨notes, by simp [hguard, hmatch]⟩

/-- **A line replacement succeeds exactly when a range is asked for, and replaces
that range.** -/
theorem lineReplace_exact (wholeFloat : String → Option Int) {source : Text} {params : LineParams}
    {style : Newline} (hstyle : detectNewlineStyle source = some style) :
    ((∃ out, applyLineReplace wholeFloat source params = .ok out) ↔
      ∃ range, Asked wholeFloat source params range) ∧
    ∀ text notes, applyLineReplace wholeFloat source params = .ok (text, notes) →
      ∃ range start lines endedNl, Asked wholeFloat source params range ∧
        Replaced source text style range (splitLines (normalizeNewlines params.newStr)).1 start lines
          endedNl := by
  constructor
  · constructor
    · rintro ⟨⟨text, notes⟩, hout⟩
      obtain ⟨range, hasked, _⟩ := (applyLineReplace_eq_ok hstyle).1 ⟨notes, hout⟩
      exact ⟨range, hasked⟩
    · rintro ⟨range, hasked⟩
      obtain ⟨notes, hout⟩ := (applyLineReplace_eq_ok hstyle).2 ⟨range, hasked, rfl⟩
      exact ⟨_, hout⟩
  · intro text notes hout
    obtain ⟨range, hasked, rfl⟩ := (applyLineReplace_eq_ok hstyle).1 ⟨notes, hout⟩
    obtain ⟨start, lines, endedNl, hreplaced⟩ :=
      replaceRange_spec (detectNewlineStyle_eq_some.1 hstyle).1 range params.newStr
    exact ⟨range, start, lines, endedNl, hasked, hreplaced⟩

/-- Line 1 of two CRLF lines is named, and the text of line 2 is quoted. -/
def relocatedParams : LineParams where
  startLine := some (.int 1)
  endLine := some (.int 1)
  newStr := ['c']
  expectedStr := some ['b', '\r', '\n']
  relocateExpected := true

/-- The line that is quoted is replaced, and no other. -/
theorem lineReplace_exact_relocated :
    ∃ range start lines endedNl, Asked (fun _ => none) ['a', '\r', '\n', 'b', '\r', '\n']
        relocatedParams range ∧
      Replaced ['a', '\r', '\n', 'b', '\r', '\n'] ['a', '\r', '\n', 'c', '\r', '\n'] .crlf range
        [['c']] start lines endedNl := by
  obtain ⟨-, hwritten⟩ := @lineReplace_exact (fun _ => none)
    ['a', '\r', '\n', 'b', '\r', '\n'] relocatedParams .crlf (by decide)
  exact hwritten ['a', '\r', '\n', 'c', '\r', '\n']
    ["expected_str did not match lines 1-1; matched lines 2-2 uniquely"] (by rfl)

/-- The last line of an unterminated text replaced by a blank one: the text that
is written has a final newline and one line less, for no text has these two lines
and no final newline. -/
theorem lineReplace_blank_end :
    applyLineReplace (fun _ => none) ['a', '\n', 'b']
        { startLine := some (.int 2), endLine := some (.int 2), newStr := ['\n'] } =
      .ok (['a', '\n'], []) ∧
    splitLines ['a', '\n', 'b'] = ([['a'], ['b']], false) ∧
    (splitLines ['\n']).1 = [[]] ∧ splitLines ['a', '\n'] = ([['a']], true) ∧
    ∀ text, splitLines text ≠ ([['a'], []], false) := by
  refine ⟨by rfl, by decide, by decide, by decide, fun text htext => ?_⟩
  have hread := readable_splitLines text
  rw [htext] at hread
  exact absurd hread (by decide)

end OpenCollab.Patch
