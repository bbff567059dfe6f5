import OpenCollab.Patch.Newlines

/-!
# OpenCollab.Patch.Hunks

The hunks of a unified diff, as `_parse_hunks` reads them.  A header is matched
by the regular expression `@@ -\d+(,\d+)? \+\d+(,\d+)? @@`; with
`normalize_hunks` a bare `@@` opens a hunk too, and the counts of a hunk are
those of its body.

`\d` and `int` are taken over any table of decimal digits that agrees with ASCII
(`Digits`), with the interpreter's limit on the length of a number it converts.

* `oldBlock_blocks`, `newBlock_blocks` — the two blocks of a hunk are its
  context and removed lines, and its context and added lines;
* `parseHunks_shown` — each hunk has the lines behind its header, in order.
-/

namespace OpenCollab.Patch

/-! ## failures -/

/-- How a patch is refused: with an error text, or by a `ValueError` that `int`
raises. -/
inductive Failure where
  | error (message : String)
  | valueError
deriving Repr, DecidableEq

/-! ## numbers -/

/-- Decimal digits (`\d`) and their values, and the longest text `int` converts. -/
structure Digits where
  value : Char → Option Nat
  limit : Option Nat
  value_digit : ∀ d < 10, value (Nat.digitChar d) = some d
  value_space : value ' ' = none
  value_comma : value ',' = none

/-- The ASCII digits, and the limit an interpreter starts with. -/
def Digits.ascii : Digits where
  value c := if '0' ≤ c ∧ c ≤ '9' then some (c.toNat - 48) else none
  limit := some 4300
  value_digit := by decide
  value_space := by decide
  value_comma := by decide

/-- `int(text)` of decimal digits. -/
def Digits.int (digits : Digits) (text : Text) : Except Failure Nat :=
  match digits.limit with
  | some limit => if limit < text.length then .error .valueError else .ok (read text)
  | none => .ok (read text)
where
  /-- The number the digits stand for. -/
  read (text : Text) : Nat := text.foldl (fun n c => 10 * n + (digits.value c).getD 0) 0

/-- `\d+`: the digits in front of a text, and the rest. -/
def Digits.takeNumber (digits : Digits) (text : Text) : Option (Text × Text) :=
  let number := text.takeWhile fun c => (digits.value c).isSome
  if number = [] then none else some (number, text.dropWhile fun c => (digits.value c).isSome)

/-! ## headers -/

/-- The text behind a literal. -/
def expect : Text → Text → Option Text
  | [], text => some text
  | c :: literal, d :: text => if c = d then expect literal text else none
  | _ :: _, [] => none

/-- The groups of a header: the two ranges, their lengths optional. -/
structure Header where
  oldStart : Text
  oldLen : Option Text
  newStart : Text
  newLen : Option Text
deriving DecidableEq

/-- `(\d+)(?:,(\d+))?`.  No digit and no comma can follow, so that taking as much
as there is misses no match. -/
def matchRange (digits : Digits) (text : Text) : Option ((Text × Option Text) × Text) := do
  let (start, rest) ← digits.takeNumber text
  match rest with
  | ',' :: rest =>
      let (len, rest) ← digits.takeNumber rest
      some ((start, some len), rest)
  | _ => some ((start, none), rest)

/-- `_HUNK_RE.match`. -/
def matchHeader (digits : Digits) (raw : Text) : Option Header := do
  let rest ← expect ['@', '@', ' ', '-'] raw
  let ((oldStart, oldLen), rest) ← matchRange digits rest
  let rest ← expect [' ', '+'] rest
  let ((newStart, newLen), rest) ← matchRange digits rest
  let _ ← expect [' ', '@', '@'] rest
  some { oldStart, oldLen, newStart, newLen }

/-- `[ \t]`. -/
def isBlankChar (c : Char) : Bool := c = ' ' || c = '\t'

/-- `_BARE_HUNK_RE.fullmatch`. -/
def isBareHunk (raw : Text) : Bool :=
  match expect ['@', '@'] raw with
  | none => false
  | some rest =>
      match rest.dropWhile isBlankChar with
      | [] => true
      | rest =>
          match expect ['@', '@'] rest with
          | none => false
          | some rest => rest.all isBlankChar

/-! ## hunks -/

/-- What the first character of a body line says. -/
inductive Tag where
  | context
  | remove
  | add
deriving Repr, DecidableEq

/-- The tag of a character in `" +-"`. -/
def Tag.ofChar? (c : Char) : Option Tag :=
  if c = ' ' then some .context
  else if c = '+' then some .add
  else if c = '-' then some .remove
  else none

/-- The tag is in `" -"`. -/
def Tag.inOld : Tag → Bool
  | .context | .remove => true
  | .add => false

/-- The tag is in `" +"`. -/
def Tag.inNew : Tag → Bool
  | .context | .add => true
  | .remove => false

/-- A body line: its tag and the text behind it. -/
structure Line where
  tag : Tag
  content : Text
deriving Repr, DecidableEq

/-- A hunk as it is parsed.  A bare header gives no starts. -/
structure Hunk where
  headerLine : Nat
  oldStart : Option Nat
  oldLen : Nat
  newStart : Option Nat
  newLen : Nat
  lines : List Line := []
  noNewlineAfter : List Nat := []
deriving Repr, DecidableEq

/-- The number of body lines on the old side. -/
def Hunk.oldCount (hunk : Hunk) : Nat := hunk.lines.countP fun line => line.tag.inOld

/-- The number of body lines on the new side. -/
def Hunk.newCount (hunk : Hunk) : Nat := hunk.lines.countP fun line => line.tag.inNew

/-- A start as an f-string shows it. -/
def showStart : Option Nat → String
  | none => "None"
  | some n => toString n

/-- `_validate_hunk_counts`; the hunk comes back with the counts recomputed. -/
def validateHunkCounts (hunk : Hunk) (normalizeHunks : Bool) : Except Failure Hunk := do
  let oldCount := hunk.oldCount
  let newCount := hunk.newCount
  let hunk ←
    if normalizeHunks then
      if hunk.lines = [] then
        .error (.error s!"hunk header on patch line {hunk.headerLine} has no body.")
      else if hunk.oldStart = some 0 ∧ oldCount ≠ 0 ∨ hunk.newStart = some 0 ∧ newCount ≠ 0 then
        .error (.error "hunk starts at line 0 but its body contains lines.")
      else .ok { hunk with oldLen := oldCount, newLen := newCount }
    else .ok hunk
  if oldCount ≠ hunk.oldLen ∨ newCount ≠ hunk.newLen then
    .error (.error (s!"hunk near line {showStart hunk.oldStart} declares {hunk.oldLen} old lines and " ++
      s!"{hunk.newLen} new lines, but contains {oldCount} old lines and {newCount} new lines."))
  else .ok hunk

/-- `int(group or 1)`. -/
def lenOf (digits : Digits) : Option Text → Except Failure Nat
  | none => .ok 1
  | some text => digits.int text

/-- The hunk a header opens. -/
def openHunk (digits : Digits) (lineNumber : Nat) : Option Header → Except Failure Hunk
  | none => .ok { headerLine := lineNumber, oldStart := none, oldLen := 0, newStart := none, newLen := 0 }
  | some header => do
      let oldStart ← digits.int header.oldStart
      let oldLen ← lenOf digits header.oldLen
      let newStart ← digits.int header.newStart
      let newLen ← lenOf digits header.newLen
      if oldStart = 0 ∧ oldLen ≠ 0 then
        .error (.error s!"hunk header on patch line {lineNumber} has invalid old range.")
      else if newStart = 0 ∧ newLen ≠ 0 then
        .error (.error s!"hunk header on patch line {lineNumber} has invalid new range.")
      else .ok { headerLine := lineNumber, oldStart := some oldStart, oldLen, newStart := some newStart, newLen }

/-- The marker of a line without a terminator. -/
def noNewlineMarker : Text := "\\ No newline at end of file".toList

/-- One line of a hunk's body. -/
def bodyLine (lineNumber : Nat) (hunk : Hunk) : Text → Except Failure Hunk
  | [] => .error (.error s!"hunk on patch line {lineNumber} has an untagged blank line.")
  | c :: content =>
      match Tag.ofChar? c with
      | some tag => .ok { hunk with lines := hunk.lines ++ [⟨tag, content⟩] }
      | none =>
          if c = '\\' then
            if c :: content ≠ noNewlineMarker then
              .error (.error s!"hunk on patch line {lineNumber} has unknown metadata.")
            else if hunk.lines = [] then
              .error (.error s!"hunk on patch line {lineNumber} has orphan newline metadata.")
            else if hunk.lines.length - 1 ∈ hunk.noNewlineAfter then
              .error (.error s!"hunk on patch line {lineNumber} repeats newline metadata.")
            else .ok { hunk with noNewlineAfter := hunk.noNewlineAfter ++ [hunk.lines.length - 1] }
          else .error (.error s!"hunk on patch line {lineNumber} has an unknown line prefix.")

/-- The hunks read so far: those that are closed, and the one being read. -/
structure ParseState where
  closed : List Hunk := []
  cur : Option Hunk := none

/-- One line of the patch, with its number. -/
def parseLine (digits : Digits) (normalizeHunks : Bool) (st : ParseState) (line : Text × Nat) :
    Except Failure ParseState := do
  let (raw, lineNumber) := line
  let m := matchHeader digits raw
  if m.isSome || normalizeHunks && isBareHunk raw then
    let closed ← match st.cur with
      | none => .ok st.closed
      | some cur => (validateHunkCounts cur normalizeHunks).map fun cur => st.closed ++ [cur]
    let cur ← openHunk digits lineNumber m
    .ok { closed, cur := some cur }
  else
    match st.cur with
    | none => .ok st
    | some cur => (bodyLine lineNumber cur raw).map fun cur => { st with cur := some cur }

/-- The lines of a patch: the empty one behind a final line break goes. -/
def rawLines (patch : Text) : List Text :=
  let lines := patch.splitOn '\n'
  if lines.getLast? = some [] then lines.dropLast else lines

/-- `_parse_hunks`. -/
def parseHunks (digits : Digits) (patch : Text) (normalizeHunks : Bool) :
    Except Failure (List Hunk) := do
  let st ← ((rawLines patch).zipIdx 1).foldlM (parseLine digits normalizeHunks) {}
  match st.cur with
  | none => .error (.error "no @@ hunk headers found in patch.")
  | some cur => (validateHunkCounts cur normalizeHunks).map fun cur => st.closed ++ [cur]

/-! ## the two sides of a hunk -/

/-- What the application collects from a hunk's body: the lines of both sides and
the positions in them that carry the marker. -/
structure Blocks where
  oldBlock : List Text := []
  newBlock : List Text := []
  oldNoNewline : List Nat := []
  newNoNewline : List Nat := []
deriving Repr, DecidableEq

/-- One body line, with its index. -/
def addLine (noNewlineAfter : List Nat) (b : Blocks) (line : Line × Nat) : Blocks :=
  let ⟨⟨tag, content⟩, index⟩ := line
  let oldBlock := if tag.inOld then b.oldBlock ++ [content] else b.oldBlock
  let newBlock := if tag.inNew then b.newBlock ++ [content] else b.newBlock
  { oldBlock, newBlock
    oldNoNewline :=
      if index ∈ noNewlineAfter ∧ tag.inOld then b.oldNoNewline ++ [oldBlock.length - 1]
      else b.oldNoNewline
    newNoNewline :=
      if index ∈ noNewlineAfter ∧ tag.inNew then b.newNoNewline ++ [newBlock.length - 1]
      else b.newNoNewline }

/-- Both sides of the hunk. -/
def Hunk.blocks (hunk : Hunk) : Blocks :=
  hunk.lines.zipIdx.foldl (addLine hunk.noNewlineAfter) {}

/-- The context and removed lines of the hunk. -/
def Hunk.oldLines (hunk : Hunk) : List Text :=
  (hunk.lines.filter fun line => line.tag.inOld).map Line.content

/-- The context and added lines of the hunk. -/
def Hunk.newLines (hunk : Hunk) : List Text :=
  (hunk.lines.filter fun line => line.tag.inNew).map Line.content

private theorem foldl_addLine_blocks (noNewlineAfter : List Nat) (lines : List (Line × Nat))
    (b : Blocks) :
    (lines.foldl (addLine noNewlineAfter) b).oldBlock =
        b.oldBlock ++ ((lines.map Prod.fst).filter fun line => line.tag.inOld).map Line.content ∧
      (lines.foldl (addLine noNewlineAfter) b).newBlock =
        b.newBlock ++ ((lines.map Prod.fst).filter fun line => line.tag.inNew).map Line.content := by
  induction lines generalizing b with
  | nil => simp
  | cons line lines ih =>
      obtain ⟨⟨tag, content⟩, index⟩ := line
      rw [List.foldl_cons, (ih _).1, (ih _).2]
      cases tag <;> simp [addLine, Tag.inOld, Tag.inNew]

/-- The old side is the context and removed lines. -/
theorem oldBlock_blocks (hunk : Hunk) : hunk.blocks.oldBlock = hunk.oldLines := by
  simp [Hunk.blocks, Hunk.oldLines, (foldl_addLine_blocks _ _ _).1]

/-- The new side is the context and added lines. -/
theorem newBlock_blocks (hunk : Hunk) : hunk.blocks.newBlock = hunk.newLines := by
  simp [Hunk.blocks, Hunk.newLines, (foldl_addLine_blocks _ _ _).2]

/-! ## what is parsed -/

/-- A hunk is closed with its counts those of its body, and otherwise as it was
read. -/
theorem validateHunkCounts_spec {hunk hunk' : Hunk} {normalizeHunks : Bool}
    (h : validateHunkCounts hunk normalizeHunks = .ok hunk') :
    hunk' = { hunk with oldLen := hunk.oldCount, newLen := hunk.newCount } := by
  simp only [validateHunkCounts, bind, Except.bind] at h
  cases normalizeHunks with
  | false =>
      simp only [Bool.false_eq_true, if_false] at h
      split at h
      · contradiction
      · rename_i hcounts
        simp only [not_or, not_not, Except.ok.injEq] at hcounts h
        rw [← h, hcounts.1, hcounts.2]
  | true =>
      simp only [if_true] at h
      by_cases hbody : hunk.lines = []
      · simp [hbody] at h
      simp only [hbody, if_false] at h
      split at h
      · contradiction
      · split at h
        · contradiction
        · exact (Except.ok.inj h).symm

theorem openHunk_lines {digits : Digits} {lineNumber : Nat} {m : Option Header} {hunk : Hunk}
    (h : openHunk digits lineNumber m = .ok hunk) : hunk.lines = [] := by
  cases m with
  | none =>
      simp only [openHunk, Except.ok.injEq] at h
      rw [← h]
  | some header =>
      simp only [openHunk, bind, Except.bind] at h
      repeat' split at h
      all_goals try contradiction
      simp only [Except.ok.injEq] at h
      rw [← h]

/-- A line of a patch has characters of the patch, and no LF. -/
theorem mem_rawLines {patch raw : Text} (h : raw ∈ rawLines patch) :
    ∀ c ∈ raw, c ∈ patch ∧ c ≠ '\n' := by
  have hmem : raw ∈ patch.splitOn '\n' := by
    simp only [rawLines] at h
    split at h
    · exact List.dropLast_subset _ h
    · exact h
  obtain ⟨hsub, hno⟩ := mem_splitOn hmem
  intro c hc
  exact ⟨hsub c hc, fun hlf => hno (hlf ▸ hc)⟩

/-! ## the lines behind a header -/

/-- The line opens a hunk. -/
def Opens (digits : Digits) (normalizeHunks : Bool) (raw : Text) : Prop :=
  (matchHeader digits raw).isSome = true ∨ normalizeHunks = true ∧ isBareHunk raw = true

/-- The body line that a line of a patch is. -/
def shownLine : Text → Option Line
  | [] => none
  | c :: content => (Tag.ofChar? c).map (⟨·, content⟩)

/-- **The hunks that lines show**: each has the lines behind its header up to the next one, in
order, markers left out. -/
inductive Shown (digits : Digits) (normalizeHunks : Bool) : List Text → List Hunk → Prop where
  | nil : Shown digits normalizeHunks [] []
  | hunk {front body : List Text} {header : Text} {hunks : List Hunk} {hunk : Hunk}
      (hfront : Shown digits normalizeHunks front hunks)
      (hheader : Opens digits normalizeHunks header)
      (hbody : ∀ raw ∈ body, ¬Opens digits normalizeHunks raw ∧
        (raw = noNewlineMarker ∨ (shownLine raw).isSome = true))
      (hlines : hunk.lines = body.filterMap shownLine) :
      Shown digits normalizeHunks (front ++ header :: body) (hunks ++ [hunk])

/-- What has been read: lines in front of the first header, or hunks and the one being read. -/
def ParseState.Read (digits : Digits) (normalizeHunks : Bool) (done : List Text)
    (st : ParseState) : Prop :=
  ∃ preamble rest, done = preamble ++ rest ∧
    (∀ raw ∈ preamble, ¬Opens digits normalizeHunks raw) ∧
    Shown digits normalizeHunks rest (st.closed ++ st.cur.toList) ∧
    (st.cur = none → rest = [] ∧ st.closed = [])

theorem bodyLine_shown {lineNumber : Nat} {hunk hunk' : Hunk} {raw : Text}
    (h : bodyLine lineNumber hunk raw = .ok hunk') :
    (raw = noNewlineMarker ∨ (shownLine raw).isSome = true) ∧
      hunk'.lines = hunk.lines ++ (shownLine raw).toList := by
  cases raw with
  | nil => contradiction
  | cons c content =>
      simp only [bodyLine] at h
      cases htag : Tag.ofChar? c with
      | some tag =>
          simp only [htag, Except.ok.injEq] at h
          subst h
          exact ⟨.inr (by simp [shownLine, htag]), by simp [shownLine, htag]⟩
      | none =>
          simp only [htag] at h
          split at h
          · split at h
            · contradiction
            · rename_i hmarker
              split at h
              · contradiction
              · split at h
                · contradiction
                · simp only [Except.ok.injEq] at h
                  subst h
                  exact ⟨.inl (Decidable.not_not.mp hmarker), by simp [shownLine, htag]⟩
          · contradiction

/-- The last hunk may change in other fields than its lines. -/
theorem Shown.replaceLast {digits : Digits} {normalizeHunks : Bool} {lines : List Text}
    {hunks : List Hunk} {hunk hunk' : Hunk}
    (h : Shown digits normalizeHunks lines (hunks ++ [hunk])) (hsame : hunk'.lines = hunk.lines) :
    Shown digits normalizeHunks lines (hunks ++ [hunk']) := by
  generalize hall : hunks ++ [hunk] = all at h
  cases h with
  | nil => simp at hall
  | hunk hfront hheader hbody hlines =>
      obtain ⟨rfl, hlast⟩ := List.append_inj' hall rfl
      obtain rfl := List.singleton_injective hlast
      exact .hunk hfront hheader hbody (hsame.trans hlines)

/-- One more line behind the last header. -/
theorem Shown.extend {digits : Digits} {normalizeHunks : Bool} {lines : List Text} {raw : Text}
    {hunks : List Hunk} {hunk hunk' : Hunk}
    (h : Shown digits normalizeHunks lines (hunks ++ [hunk]))
    (hraw : ¬Opens digits normalizeHunks raw)
    (hshown : raw = noNewlineMarker ∨ (shownLine raw).isSome = true)
    (hmore : hunk'.lines = hunk.lines ++ (shownLine raw).toList) :
    Shown digits normalizeHunks (lines ++ [raw]) (hunks ++ [hunk']) := by
  generalize hall : hunks ++ [hunk] = all at h
  cases h with
  | nil => simp at hall
  | @hunk front body header hunks' last hfront hheader hbody hlines =>
      obtain ⟨rfl, hlast⟩ := List.append_inj' hall rfl
      obtain rfl := List.singleton_injective hlast
      rw [List.append_assoc, List.cons_append]
      refine .hunk hfront hheader (fun r hr => ?_) ?_
      · obtain hr | hr := List.mem_append.mp hr
        · exact hbody r hr
        · rw [List.mem_singleton.mp hr]
          exact ⟨hraw, hshown⟩
      · rw [hmore, hlines, List.filterMap_append, List.filterMap_cons, List.filterMap_nil]
        cases shownLine raw <;> rfl

/-- **One line of the patch.** -/
theorem parseLine_read {digits : Digits} {normalizeHunks : Bool} {done : List Text}
    {st st' : ParseState} {raw : Text} {lineNumber : Nat}
    (h : parseLine digits normalizeHunks st (raw, lineNumber) = .ok st')
    (hst : st.Read digits normalizeHunks done) :
    st'.Read digits normalizeHunks (done ++ [raw]) := by
  obtain ⟨preamble, rest, rfl, hpreamble, hshown, hnone⟩ := hst
  simp only [parseLine, bind, Except.bind] at h
  split at h
  · rename_i hopens
    have hheader : Opens digits normalizeHunks raw := by
      rw [Bool.or_eq_true, Bool.and_eq_true] at hopens
      exact hopens
    cases hcur : st.cur with
    | none =>
        obtain ⟨rfl, hclosed⟩ := hnone hcur
        simp only [hcur] at h
        split at h
        · contradiction
        rename_i hunk hhunk
        simp only [Except.ok.injEq] at h
        subst h
        refine ⟨preamble, [raw], by simp, hpreamble, ?_, nofun⟩
        rw [hclosed]
        exact .hunk .nil hheader (by simp) (openHunk_lines hhunk)
    | some cur =>
        simp only [hcur] at h
        cases hvalid : validateHunkCounts cur normalizeHunks with
        | error e => simp [hvalid, Except.map] at h
        | ok closed =>
        simp only [hvalid, Except.map] at h
        split at h
        · contradiction
        rename_i hunk hhunk
        simp only [Except.ok.injEq] at h
        subst h
        rw [hcur, Option.toList_some] at hshown
        have hclosed : Shown digits normalizeHunks rest (st.closed ++ [closed]) :=
          hshown.replaceLast (by rw [validateHunkCounts_spec hvalid])
        exact ⟨preamble, rest ++ [raw], by rw [List.append_assoc], hpreamble,
          .hunk hclosed hheader (by simp) (openHunk_lines hhunk), nofun⟩
  · rename_i hopens
    have hbody : ¬Opens digits normalizeHunks raw := by
      rw [Bool.or_eq_true, Bool.and_eq_true] at hopens
      exact hopens
    cases hcur : st.cur with
    | none =>
        obtain ⟨rfl, hclosed⟩ := hnone hcur
        simp only [hcur, Except.ok.injEq] at h
        subst h
        refine ⟨preamble ++ [raw], [], by simp, fun r hr => ?_, ?_, fun _ => ⟨rfl, hclosed⟩⟩
        · obtain hr | hr := List.mem_append.mp hr
          · exact hpreamble r hr
          · rwa [List.mem_singleton.mp hr]
        · rw [hclosed, hcur]
          exact .nil
    | some cur =>
        simp only [hcur] at h
        cases hline : bodyLine lineNumber cur raw with
        | error e => simp [hline, Except.map] at h
        | ok next =>
        simp only [hline, Except.map, Except.ok.injEq] at h
        subst h
        rw [hcur, Option.toList_some] at hshown
        obtain ⟨htagged, hmore⟩ := bodyLine_shown hline
        exact ⟨preamble, rest ++ [raw], by rw [List.append_assoc], hpreamble,
          hshown.extend hbody htagged hmore, nofun⟩

theorem foldlM_read {digits : Digits} {normalizeHunks : Bool} {done : List Text}
    {st st' : ParseState} {lines : List (Text × Nat)}
    (h : lines.foldlM (parseLine digits normalizeHunks) st = .ok st')
    (hst : st.Read digits normalizeHunks done) :
    st'.Read digits normalizeHunks (done ++ lines.map Prod.fst) := by
  induction lines generalizing st done with
  | nil =>
      simp only [List.foldlM_nil, pure, Except.pure, Except.ok.injEq] at h
      subst h
      rwa [List.map_nil, List.append_nil]
  | cons line lines ih =>
      rw [List.foldlM_cons] at h
      simp only [bind, Except.bind] at h
      split at h
      · contradiction
      rename_i next hnext
      have hread := ih h (parseLine_read hnext hst)
      rwa [List.append_assoc] at hread

/-- **The lines of a parsed hunk are the body lines behind its header**, in order; lines in front
of the first header show no hunk. -/
theorem parseHunks_shown {digits : Digits} {patch : Text} {normalizeHunks : Bool}
    {hunks : List Hunk} (h : parseHunks digits patch normalizeHunks = .ok hunks) :
    ∃ preamble rest, rawLines patch = preamble ++ rest ∧
      (∀ raw ∈ preamble, ¬Opens digits normalizeHunks raw) ∧
      Shown digits normalizeHunks rest hunks := by
  simp only [parseHunks, bind, Except.bind] at h
  split at h
  · contradiction
  rename_i st hst
  have hread := @foldlM_read digits normalizeHunks [] _ _ _ hst
    ⟨[], [], rfl, nofun, .nil, fun _ => ⟨rfl, rfl⟩⟩
  rw [List.nil_append, List.zipIdx_map_fst] at hread
  obtain ⟨preamble, rest, hlines, hpreamble, hshown, -⟩ := hread
  split at h
  · contradiction
  rename_i cur hcur
  cases hvalid : validateHunkCounts cur normalizeHunks with
  | error e => simp [hvalid, Except.map] at h
  | ok closed =>
  simp only [hvalid, Except.map, Except.ok.injEq] at h
  subst h
  rw [hcur, Option.toList_some] at hshown
  exact ⟨preamble, rest, hlines, hpreamble,
    hshown.replaceLast (by rw [validateHunkCounts_spec hvalid])⟩

/-- A line of a hunk is one of the lines that show it. -/
theorem Shown.mem {digits : Digits} {normalizeHunks : Bool} {lines : List Text}
    {hunks : List Hunk} (h : Shown digits normalizeHunks lines hunks) {hunk : Hunk}
    (hhunk : hunk ∈ hunks) {line : Line} (hline : line ∈ hunk.lines) :
    ∃ raw ∈ lines, shownLine raw = some line := by
  induction h with
  | nil => contradiction
  | hunk hfront hheader hbody hlines ih =>
      obtain hhunk | hhunk := List.mem_append.mp hhunk
      · obtain ⟨raw, hraw, hshown⟩ := ih hhunk
        exact ⟨raw, List.mem_append_left _ hraw, hshown⟩
      · rw [List.mem_singleton.mp hhunk, hlines] at hline
        obtain ⟨raw, hraw, hshown⟩ := List.mem_filterMap.mp hline
        exact ⟨raw, List.mem_append_right _ (List.mem_cons_of_mem _ hraw), hshown⟩

theorem mem_of_shownLine {raw : Text} {line : Line} (h : shownLine raw = some line) :
    ∀ c ∈ line.content, c ∈ raw := by
  cases raw with
  | nil => contradiction
  | cons c content =>
      obtain ⟨tag, -, rfl⟩ := Option.map_eq_some_iff.mp h
      exact fun d hd => List.mem_cons_of_mem _ hd

/-- **The lines of parsed hunks have characters of the patch, and no LF.** -/
theorem parseHunks_chars {digits : Digits} {patch : Text} {normalizeHunks : Bool}
    {hunks : List Hunk} (h : parseHunks digits patch normalizeHunks = .ok hunks) :
    ∀ hunk ∈ hunks, ∀ line ∈ hunk.lines, ∀ c ∈ line.content, c ∈ patch ∧ c ≠ '\n' := by
  obtain ⟨preamble, rest, hlines, -, hshown⟩ := parseHunks_shown h
  intro hunk hhunk line hline c hc
  obtain ⟨raw, hraw, hline⟩ := hshown.mem hhunk hline
  exact mem_rawLines (hlines ▸ List.mem_append_right _ hraw) c (mem_of_shownLine hline c hc)

/-! ## numbers that are too long -/

/-- `int` does not convert the text. -/
def Digits.TooLong (digits : Digits) (text : Text) : Prop :=
  ∃ limit, digits.limit = some limit ∧ limit < text.length

/-- The numbers of a header. -/
def Header.numbers (header : Header) : List Text :=
  header.oldStart :: header.newStart :: (header.oldLen.toList ++ header.newLen.toList)

theorem Digits.int_eq_error {digits : Digits} {text : Text} {e : Failure}
    (h : digits.int text = .error e) : digits.TooLong text := by
  simp only [Digits.int] at h
  split at h
  · rename_i limit hlimit
    split at h
    · exact ⟨limit, hlimit, by assumption⟩
    · contradiction
  · contradiction

theorem lenOf_eq_error {digits : Digits} {len : Option Text} {e : Failure}
    (h : lenOf digits len = .error e) : ∃ number ∈ len.toList, digits.TooLong number := by
  cases len with
  | none => contradiction
  | some text => exact ⟨text, by simp, Digits.int_eq_error h⟩

theorem openHunk_valueError {digits : Digits} {lineNumber : Nat} {m : Option Header}
    (h : openHunk digits lineNumber m = .error .valueError) :
    ∃ header, m = some header ∧ ∃ number ∈ header.numbers, digits.TooLong number := by
  cases m with
  | none => contradiction
  | some header =>
      refine ⟨header, rfl, ?_⟩
      simp only [openHunk, bind, Except.bind] at h
      cases hold : digits.int header.oldStart with
      | error e => exact ⟨_, by simp [Header.numbers], Digits.int_eq_error hold⟩
      | ok oldStart =>
      cases holdLen : lenOf digits header.oldLen with
      | error e =>
          obtain ⟨number, hmem, hlong⟩ := lenOf_eq_error holdLen
          exact ⟨number, by simp only [Header.numbers, List.mem_cons, List.mem_append]; tauto, hlong⟩
      | ok oldLen =>
      cases hnew : digits.int header.newStart with
      | error e => exact ⟨_, by simp [Header.numbers], Digits.int_eq_error hnew⟩
      | ok newStart =>
      cases hnewLen : lenOf digits header.newLen with
      | error e =>
          obtain ⟨number, hmem, hlong⟩ := lenOf_eq_error hnewLen
          exact ⟨number, by simp only [Header.numbers, List.mem_cons, List.mem_append]; tauto, hlong⟩
      | ok newLen =>
          simp only [hold, holdLen, hnew, hnewLen] at h
          split at h
          · simp at h
          · split at h <;> simp at h

theorem validateHunkCounts_ne_valueError (hunk : Hunk) (normalizeHunks : Bool) :
    validateHunkCounts hunk normalizeHunks ≠ .error .valueError := by
  intro h
  simp only [validateHunkCounts, bind, Except.bind] at h
  cases normalizeHunks with
  | false =>
      simp only [Bool.false_eq_true, if_false] at h
      split at h <;> simp at h
  | true =>
      by_cases hbody : hunk.lines = []
      · simp [hbody] at h
      · simp only [hbody, if_true, if_false] at h
        split at h
        · simp at h
        · split at h <;> simp at h

theorem bodyLine_ne_valueError (lineNumber : Nat) (hunk : Hunk) (raw : Text) :
    bodyLine lineNumber hunk raw ≠ .error .valueError := by
  intro h
  cases raw with
  | nil => simp [bodyLine] at h
  | cons c content =>
      simp only [bodyLine] at h
      repeat' split at h
      all_goals simp at h

theorem parseLine_valueError {digits : Digits} {normalizeHunks : Bool} {st : ParseState}
    {line : Text × Nat} (h : parseLine digits normalizeHunks st line = .error .valueError) :
    ∃ header, matchHeader digits line.1 = some header ∧
      ∃ number ∈ header.numbers, digits.TooLong number := by
  obtain ⟨raw, lineNumber⟩ := line
  simp only [parseLine, bind, Except.bind] at h
  split at h
  · cases hcur : st.cur with
    | none =>
        simp only [hcur] at h
        split at h
        · rename_i e he
          simp only [Except.error.injEq] at h
          exact openHunk_valueError (h ▸ he)
        · contradiction
    | some cur =>
        simp only [hcur] at h
        cases hvalid : validateHunkCounts cur normalizeHunks with
        | error e =>
            simp only [hvalid, Except.map, Except.error.injEq] at h
            exact absurd (h ▸ hvalid) (validateHunkCounts_ne_valueError _ _)
        | ok closed =>
            simp only [hvalid, Except.map] at h
            split at h
            · rename_i e he
              simp only [Except.error.injEq] at h
              exact openHunk_valueError (h ▸ he)
            · contradiction
  · cases hcur : st.cur with
    | none => simp [hcur] at h
    | some cur =>
        simp only [hcur] at h
        cases hbody : bodyLine lineNumber cur raw with
        | error e =>
            simp only [hbody, Except.map, Except.error.injEq] at h
            exact absurd (h ▸ hbody) (bodyLine_ne_valueError _ _ _)
        | ok next => simp [hbody, Except.map] at h

private theorem foldlM_valueError {digits : Digits} {normalizeHunks : Bool} {st : ParseState}
    {lines : List (Text × Nat)}
    (h : lines.foldlM (parseLine digits normalizeHunks) st = .error .valueError) :
    ∃ line ∈ lines, ∃ header, matchHeader digits line.1 = some header ∧
      ∃ number ∈ header.numbers, digits.TooLong number := by
  induction lines generalizing st with
  | nil => simp [pure, Except.pure] at h
  | cons line lines ih =>
      rw [List.foldlM_cons] at h
      simp only [bind, Except.bind] at h
      split at h
      · rename_i e he
        simp only [Except.error.injEq] at h
        exact ⟨line, List.mem_cons_self .., parseLine_valueError (h ▸ he)⟩
      · obtain ⟨other, hother, hlong⟩ := ih h
        exact ⟨other, List.mem_cons_of_mem _ hother, hlong⟩

/-- **A patch makes the parser raise only by a number that is too long.** -/
theorem parseHunks_valueError {digits : Digits} {patch : Text} {normalizeHunks : Bool}
    (h : parseHunks digits patch normalizeHunks = .error .valueError) :
    ∃ raw ∈ rawLines patch, ∃ header, matchHeader digits raw = some header ∧
      ∃ number ∈ header.numbers, digits.TooLong number := by
  simp only [parseHunks, bind, Except.bind] at h
  split at h
  · rename_i e he
    simp only [Except.error.injEq] at h
    obtain ⟨line, hline, hlong⟩ := foldlM_valueError (h ▸ he)
    have hraw : line.1 ∈ rawLines patch := by
      rw [← List.zipIdx_map_fst 1 (rawLines patch)]
      exact List.mem_map_of_mem hline
    exact ⟨line.1, hraw, hlong⟩
  · split at h
    · simp at h
    · rename_i cur _
      cases hvalid : validateHunkCounts cur normalizeHunks with
      | error e =>
          simp only [hvalid, Except.map, Except.error.injEq] at h
          exact absurd (h ▸ hvalid) (validateHunkCounts_ne_valueError _ _)
      | ok closed => simp [hvalid, Except.map] at h

end OpenCollab.Patch
