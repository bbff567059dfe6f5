import OpenCollab.Patch.QuotePath

/-!
# OpenCollab.Patch.WrittenPatch

Patches as Git writes them, read back by `application/patch_paths.py`: additions,
deletions, modifications and renames, with hunks, with binary data, or without any
content, under either setting of `core.quotePath`.

* `splitBlocks_blocks` — lines under headers are split into their blocks;
* `readLines_body` — what is read from the lines behind a header;
* `blockEntry_lines` — the paths of a change;
* `patch_round_trip` — the blocks and the paths of a patch.
-/

namespace OpenCollab.PatchPaths

open Lib

variable {quotePath : Bool}

/-! ## patches -/

/-- What the extended header lines of Git begin with, renames and copies apart. -/
def extendedKeywords : List String :=
  ["old mode ", "new mode ", "deleted file mode ", "new file mode ", "similarity index ",
    "dissimilarity index ", "index "]

/-- An extended header line. -/
structure Extended where
  keyword : String
  known : keyword ∈ extendedKeywords
  text : Str
  oneLine : 10 ∉ text

/-- The line with its end. -/
def Extended.line (e : Extended) : Str := ascii e.keyword ++ e.text ++ [10]

/-- A line of a hunk: context, addition, deletion, or the note on a missing line end. -/
structure HunkLine where
  marker : Nat
  known : marker ∈ ascii " +-\\"
  text : Str
  oneLine : 10 ∉ text

def HunkLine.line (l : HunkLine) : Str := l.marker :: (l.text ++ [10])

/-- A hunk: what follows `@@` on its first line, and its lines. -/
structure Hunk where
  range : Str
  oneLine : 10 ∉ range
  body : List HunkLine

def Hunk.lines (h : Hunk) : List Str := (ascii "@@" ++ h.range ++ [10]) :: h.body.map HunkLine.line

/-- A binary change: its first line, and the lines of the data, none of which is a
header. -/
structure Binary where
  keyword : String
  known : keyword ∈ ["GIT binary patch", "Binary files "]
  text : Str
  oneLine : 10 ∉ text
  data : List Str
  dataLines : ∀ line ∈ data, 10 ∉ line ∧ diffHeader.isPrefixOf (line ++ [10]) = false

def Binary.lines (b : Binary) : List Str :=
  (ascii b.keyword ++ b.text ++ [10]) :: b.data.map (· ++ [10])

/-- What becomes of which file. -/
inductive Kind where
  | add (path : Path)
  | delete (path : Path)
  | modify (path : Path)
  | rename (oldPath newPath : Path)

/-- The content of a change: none for a mode, an empty file or a mere rename. -/
inductive Content where
  | none
  | text (hunks : List Hunk)
  | binary (data : Binary)

/-- The change of a file. -/
structure Change where
  kind : Kind
  before : List Extended
  after : List Extended
  content : Content

def Kind.oldPath : Kind → Path
  | .add path | .delete path | .modify path => path
  | .rename oldPath _ => oldPath

def Kind.newPath : Kind → Path
  | .add path | .delete path | .modify path => path
  | .rename _ newPath => newPath

/-- The tab behind a path with spaces. -/
def tab (token : Str) : Str := if 32 ∈ token then [9] else []

/-- What Git writes for a side, `none` for the side on which the file does not exist. -/
def sideText (quotePath second : Bool) : Option Path → Str
  | .none => ascii "/dev/null"
  | .some path => nameToken quotePath second path ++ tab (nameToken quotePath second path)

/-- With `core.quotePath` a side is written in ASCII. -/
theorem sideText_some (second : Bool) (path : Path) :
    sideText true second (.some path) = token second path ++ tab (token second path) := rfl

def renameLines (quotePath : Bool) : Kind → List Str
  | .rename oldPath newPath =>
      [ascii "rename from " ++ writeName quotePath oldPath.bytes ++ [10],
        ascii "rename to " ++ writeName quotePath newPath.bytes ++ [10]]
  | _ => []

/-- The side of a text change on which the file exists. -/
def Kind.side : Kind → (second : Bool) → Option Path
  | .add path, second => if second then some path else none
  | .delete path, second => if second then none else some path
  | .modify path, _ => some path
  | .rename oldPath newPath, second => some (if second then newPath else oldPath)

def contentLines (quotePath : Bool) (kind : Kind) : Content → List Str
  | .none => []
  | .text hunks =>
      (ascii "--- " ++ sideText quotePath false (kind.side false) ++ [10]) ::
        (ascii "+++ " ++ sideText quotePath true (kind.side true) ++ [10]) ::
          hunks.flatMap Hunk.lines
  | .binary data => data.lines

/-- The lines behind the header. -/
def Change.body (quotePath : Bool) (c : Change) : List Str :=
  c.before.map Extended.line ++ renameLines quotePath c.kind ++ c.after.map Extended.line ++
    contentLines quotePath c.kind c.content

/-- The lines of a change as Git writes them, by `core.quotePath`. -/
def Change.lines (quotePath : Bool) (c : Change) : List Str :=
  nameHeader quotePath c.kind.oldPath c.kind.newPath :: c.body quotePath

/-- A patch as Git writes it. -/
def writePatch (quotePath : Bool) (changes : List Change) : Str :=
  (changes.flatMap (Change.lines quotePath)).flatten

/-- The paths of the change can be read back. -/
def Change.Recoverable (quotePath : Bool) (c : Change) : Prop :=
  PatchPaths.Recoverable quotePath c.kind.oldPath.bytes ∧
    PatchPaths.Recoverable quotePath c.kind.newPath.bytes

/-- The paths of a text change: the empty path for the side that does not exist. -/
def Kind.endpoints (kind : Kind) : Str × Str :=
  (((kind.side false).map Path.text).getD [], ((kind.side true).map Path.text).getD [])

/-- The paths that are read from a change.  Without `---` and `+++` lines both are
those of the header, also where the file is added or deleted. -/
def Change.entry (c : Change) : Str × Str :=
  match c.content with
  | .text _ => c.kind.endpoints
  | _ => (c.kind.oldPath.text, c.kind.newPath.text)

/-! ## lines and blocks -/

/-- A line with its end. -/
def IsLine (line : Str) : Prop := ∃ text, 10 ∉ text ∧ line = text ++ [10]

theorem splitKeep_line {text : Str} (h : 10 ∉ text) (rest : Str) :
    splitKeep (text ++ 10 :: rest) = (text ++ [10]) :: splitKeep rest := by
  induction text with
  | nil => rfl
  | cons c text ih =>
      rw [List.mem_cons, not_or] at h
      rw [List.cons_append, splitKeep, if_neg (Ne.symm h.1), ih h.2]
      rfl

theorem splitKeep_lines {lines : List Str} (h : ∀ line ∈ lines, IsLine line) :
    splitKeep lines.flatten = lines := by
  induction lines with
  | nil => rfl
  | cons line lines ih =>
      rw [List.forall_mem_cons] at h
      obtain ⟨⟨text, htext, rfl⟩, hlines⟩ := h
      rw [List.flatten_cons, List.append_assoc, List.singleton_append, splitKeep_line htext, ih hlines]

/-- A header, and lines that are none. -/
def IsBlock (block : List Str) : Prop :=
  ∃ header body, block = header :: body ∧ diffHeader.isPrefixOf header = true ∧
    ∀ line ∈ body, diffHeader.isPrefixOf line = false

theorem splitBlocks_body {current body : List Str} (hcurrent : current ≠ [])
    (hbody : ∀ line ∈ body, diffHeader.isPrefixOf line = false) {blocks : List (List Str)}
    (hblocks : ∀ block ∈ blocks, IsBlock block) :
    splitBlocks current (body ++ blocks.flatten) = (current ++ body) :: blocks := by
  induction blocks generalizing current body with
  | nil =>
      rw [List.flatten_nil, List.append_nil]
      induction body generalizing current with
      | nil => rw [splitBlocks, if_neg hcurrent, List.append_nil]
      | cons line body ih =>
          rw [List.forall_mem_cons] at hbody
          rw [splitBlocks, hbody.1, Bool.false_and, if_neg Bool.false_ne_true,
            ih (List.append_ne_nil_of_right_ne_nil _ (List.cons_ne_nil _ _)) hbody.2,
            List.append_assoc, List.singleton_append]
  | cons block blocks ihBlocks =>
      induction body generalizing current with
      | nil =>
          rw [List.forall_mem_cons] at hblocks
          obtain ⟨⟨header, body, rfl, hheader, hbody⟩, hblocks⟩ := hblocks
          rw [List.nil_append, List.flatten_cons, List.cons_append, splitBlocks, hheader,
            decide_eq_true hcurrent, Bool.true_and, if_pos rfl,
            ihBlocks (List.cons_ne_nil _ _) hbody hblocks, List.append_nil, List.singleton_append]
      | cons line body ih =>
          rw [List.forall_mem_cons] at hbody
          rw [List.cons_append, splitBlocks, hbody.1, Bool.false_and, if_neg Bool.false_ne_true,
            ih (List.append_ne_nil_of_right_ne_nil _ (List.cons_ne_nil _ _)) hbody.2,
            List.append_assoc, List.singleton_append]

/-- **The lines of blocks are split into these blocks.** -/
theorem splitBlocks_blocks {blocks : List (List Str)} (h : ∀ block ∈ blocks, IsBlock block) :
    splitBlocks [] blocks.flatten = blocks := by
  cases blocks with
  | nil => rfl
  | cons block blocks =>
      rw [List.forall_mem_cons] at h
      obtain ⟨⟨header, body, rfl, -, hbody⟩, hblocks⟩ := h
      rw [List.flatten_cons, List.cons_append, splitBlocks, Bool.and_comm, decide_eq_false (by simp),
        Bool.false_and, if_neg Bool.false_ne_true, List.nil_append,
        splitBlocks_body (List.cons_ne_nil _ _) hbody hblocks, List.singleton_append]

/-! ## the lines of a change -/

/-- The two texts differ where both have a character. -/
def differ (a b : Str) : Bool := (a.zip b).any fun p => p.1 ≠ p.2

theorem isPrefixOf_of_differ {a b : Str} (h : differ a b = true) (rest : Str) :
    a.isPrefixOf (b ++ rest) = false := by
  induction a generalizing b with
  | nil => contradiction
  | cons c a ih =>
      cases b with
      | nil => contradiction
      | cons d b =>
          rw [differ, List.zip_cons_cons, List.any_cons, Bool.or_eq_true, decide_eq_true_eq] at h
          rw [List.cons_append, List.isPrefixOf_cons_cons, Bool.and_eq_false_iff]
          obtain hne | h := h
          · exact .inl (beq_false_of_ne hne)
          · exact .inr (ih h)

theorem startsWithAny_of_differ {starts : List String} {start : Str}
    (h : starts.all (fun s => differ (ascii s) start) = true) (rest : Str) :
    startsWithAny starts (start ++ rest) = false := by
  rw [startsWithAny, List.any_eq_false]
  intro s hs
  rw [isPrefixOf_of_differ (List.all_eq_true.mp h s hs)]
  exact Bool.false_ne_true

theorem startsWithAny_self {starts : List String} {start : String} (h : start ∈ starts) (rest : Str) :
    startsWithAny starts (ascii start ++ rest) = true := by
  rw [startsWithAny, List.any_eq_true]
  exact ⟨start, h, List.isPrefixOf_iff_prefix.mpr (List.prefix_append _ _)⟩

/-- The lines that `patch_entries` reads or stops at begin with one of these. -/
def readKeywords : List String :=
  ["--- ", "+++ ", "rename from ", "copy from ", "rename to ", "copy to ", "@@",
    "GIT binary patch", "Binary files "]

/-- **A line that begins otherwise is passed over.** -/
theorem readLines_skip {oldPath newPath start : Str} {lines : List Str}
    (hstrip : rstripNewline start = start)
    (h : readKeywords.all (fun s => differ (ascii s) start) = true) (rest : Str) :
    readLines oldPath newPath ((start ++ rest) :: lines) = readLines oldPath newPath lines := by
  have hnot : ∀ {starts : List String}, starts ⊆ readKeywords →
      startsWithAny starts (start ++ rstripNewline rest) = false := by
    intro starts hsub
    refine startsWithAny_of_differ (List.all_eq_true.mpr fun s hs => ?_) _
    exact List.all_eq_true.mp h s (hsub hs)
  rw [readLines, rstripNewline_append hstrip]
  rw [hnot (by decide), if_neg Bool.false_ne_true, hnot (by decide), if_neg Bool.false_ne_true,
    hnot (by decide), if_neg Bool.false_ne_true, hnot (by decide), if_neg Bool.false_ne_true,
    hnot (by decide), if_neg Bool.false_ne_true]

theorem readLines_extended {oldPath newPath : Str} (extended : List Extended) (lines : List Str) :
    readLines oldPath newPath (extended.map Extended.line ++ lines) =
      readLines oldPath newPath lines := by
  have hknown : ∀ keyword ∈ extendedKeywords, rstripNewline (ascii keyword) = ascii keyword ∧
      readKeywords.all (fun s => differ (ascii s) (ascii keyword)) = true := by
    decide +kernel
  induction extended with
  | nil => rfl
  | cons e extended ih =>
      obtain ⟨hstrip, hdiffer⟩ := hknown e.keyword e.known
      rw [List.map_cons, List.cons_append, Extended.line, List.append_assoc,
        readLines_skip hstrip hdiffer, ih]

/-- A line at which the reading stops. -/
theorem readLines_stop {oldPath newPath : Str} {lines : List Str} {keyword : String}
    (h : keyword ∈ ["@@", "GIT binary patch", "Binary files "]) (rest : Str) :
    readLines oldPath newPath ((ascii keyword ++ rest) :: lines) = some (oldPath, newPath) := by
  have hknown : ∀ keyword ∈ ["@@", "GIT binary patch", "Binary files "],
      rstripNewline (ascii keyword) = ascii keyword ∧
      ["--- ", "+++ ", "rename from ", "copy from ", "rename to ", "copy to "].all
        (fun s => differ (ascii s) (ascii keyword)) = true := by
    decide +kernel
  obtain ⟨hstrip, hdiffer⟩ := hknown keyword h
  have hnot : ∀ {starts : List String}, starts ⊆ ["--- ", "+++ ", "rename from ", "copy from ",
      "rename to ", "copy to "] →
      startsWithAny starts (ascii keyword ++ rstripNewline rest) = false := by
    intro starts hsub
    refine startsWithAny_of_differ (List.all_eq_true.mpr fun s hs => ?_) _
    exact List.all_eq_true.mp hdiffer s (hsub hs)
  rw [readLines, rstripNewline_append hstrip]
  rw [hnot (by decide), if_neg Bool.false_ne_true, hnot (by decide), if_neg Bool.false_ne_true,
    hnot (by decide), if_neg Bool.false_ne_true, hnot (by decide), if_neg Bool.false_ne_true,
    startsWithAny_self h, if_pos rfl]

/-- What Git writes for a side is read back. -/
theorem gitDiffEndpoint_sideText (second : Bool) {path : Option Path}
    (h : ∀ p, path = some p → Recoverable quotePath p.bytes) :
    gitDiffEndpoint (removeTab (sideText quotePath second path)) (sideOf second) =
      some ((path.map Path.text).getD []) := by
  cases path with
  | none =>
      have hnull : removeTab (ascii "/dev/null") = ascii "/dev/null" := by decide
      rw [sideText, hnull]
      exact gitDiffEndpoint_null
  | some path =>
      have htab : removeTab (nameToken quotePath second path ++
          tab (nameToken quotePath second path)) = nameToken quotePath second path := by
        unfold tab removeTab
        split
        · rw [List.getLast?_concat, if_pos rfl, List.dropLast_concat]
        · rw [List.append_nil, if_neg]
          intro hlast
          have := le_of_mem_nameToken 9 (List.mem_of_getLast? hlast)
          omega
      rw [sideText, htab]
      exact gitDiffEndpoint_nameToken (h path rfl)

theorem sideText_ne {second : Bool} {path : Option Path} : sideText quotePath second path ≠ [] ∧
    ∀ c ∈ sideText quotePath second path, c ≠ 10 ∧ c ≠ 13 := by
  cases path with
  | none =>
      have hnull : ascii "/dev/null" ≠ [] ∧ ∀ c ∈ ascii "/dev/null", c ≠ 10 ∧ c ≠ 13 := by decide
      exact hnull
  | some path =>
      refine ⟨List.append_ne_nil_of_left_ne_nil nameToken_ne_nil _, fun c hc => ?_⟩
      obtain hc | hc := List.mem_append.mp hc
      · exact newline_not_mem le_of_mem_nameToken c hc
      · unfold tab at hc
        split at hc
        · rw [List.mem_singleton] at hc
          omega
        · contradiction

theorem rstripNewline_fileLine {keyword : Str} {second : Bool} {path : Option Path} :
    rstripNewline (keyword ++ sideText quotePath second path ++ [10]) =
      keyword ++ sideText quotePath second path := by
  rw [rstripNewline_newline, rstripNewline_append_of_ne sideText_ne.1 sideText_ne.2]

/-- **The two file lines are read.** -/
theorem readLines_sides {oldPath newPath : Str} {before after : Option Path} {lines : List Str}
    (hbefore : ∀ p, before = some p → Recoverable quotePath p.bytes)
    (hafter : ∀ p, after = some p → Recoverable quotePath p.bytes) :
    readLines oldPath newPath ((ascii "--- " ++ sideText quotePath false before ++ [10]) ::
        (ascii "+++ " ++ sideText quotePath true after ++ [10]) :: lines) =
      readLines ((before.map Path.text).getD []) ((after.map Path.text).getD []) lines := by
  have hlen : (ascii "--- ").length = 4 ∧ (ascii "+++ ").length = 4 := by decide
  have hdrop : ∀ text, (ascii "--- " ++ text).drop 4 = text ∧ (ascii "+++ " ++ text).drop 4 = text := by
    intro text
    rw [← hlen.1, List.drop_left, hlen.1, ← hlen.2, List.drop_left]
    exact ⟨rfl, rfl⟩
  have hold := gitDiffEndpoint_sideText false hbefore
  have hnew := gitDiffEndpoint_sideText true hafter
  have hfalse : startsWithAny ["--- "] (ascii "+++ " ++ sideText quotePath true after) = false :=
    startsWithAny_of_differ (by decide) _
  rw [readLines, rstripNewline_fileLine, startsWithAny_self (List.mem_singleton_self _), if_pos rfl,
    (hdrop _).1, show ascii "a" = sideOf false from rfl, hold]
  change readLines _ _ _ = _
  rw [readLines, rstripNewline_fileLine, hfalse, if_neg Bool.false_ne_true,
    startsWithAny_self (List.mem_singleton_self _), if_pos rfl, (hdrop _).2,
    show ascii "b" = sideOf true from rfl, hnew]
  rfl

/-- **The two lines of a rename are read.** -/
theorem readLines_rename {before after : Path} {lines : List Str}
    (hbefore : Recoverable quotePath before.bytes) (hafter : Recoverable quotePath after.bytes) :
    readLines [] [] (renameLines quotePath (.rename before after) ++ lines) =
      readLines before.text after.text lines := by
  have hword : ∀ text, thirdWord (ascii "rename from " ++ text) = text ∧
      thirdWord (ascii "rename to " ++ text) = text := by
    intro text
    have hfrom : ascii "rename from " = [114, 101, 110, 97, 109, 101, 32, 102, 114, 111, 109, 32] := by
      decide
    have hto : ascii "rename to " = [114, 101, 110, 97, 109, 101, 32, 116, 111, 32] := by decide
    rw [hfrom, hto]
    exact ⟨rfl, rfl⟩
  have hstrip : ∀ (keyword : Str) (path : Path),
      rstripNewline (keyword ++ writeName quotePath path.bytes ++ [10]) =
        keyword ++ writeName quotePath path.bytes := by
    intro keyword path
    rw [rstripNewline_newline, rstripNewline_append_of_ne (writeName_ne_nil path.nonempty)
      (newline_not_mem (le_of_mem_writeName path.small))]
  have hfrom : ∀ starts ∈ [["--- "], ["+++ "]],
      startsWithAny starts (ascii "rename from " ++ writeName quotePath before.bytes) = false := by
    intro starts hstarts
    refine startsWithAny_of_differ ?_ _
    revert starts
    decide
  have hto : ∀ starts ∈ [["--- "], ["+++ "], ["rename from ", "copy from "]],
      startsWithAny starts (ascii "rename to " ++ writeName quotePath after.bytes) = false := by
    intro starts hstarts
    refine startsWithAny_of_differ ?_ _
    revert starts
    decide
  rw [renameLines, List.cons_append, List.cons_append, List.nil_append, readLines, hstrip,
    hfrom _ (by simp), if_neg Bool.false_ne_true, hfrom _ (by simp), if_neg Bool.false_ne_true,
    startsWithAny_self (by simp), if_pos rfl, (hword _).1,
    decodeGitCPath_writeName before.small hbefore]
  change readLines _ _ _ = _
  rw [readLines, hstrip, hto _ (by simp), if_neg Bool.false_ne_true, hto _ (by simp),
    if_neg Bool.false_ne_true, hto _ (by simp), if_neg Bool.false_ne_true,
    startsWithAny_self (by simp), if_pos rfl, (hword _).2,
    decodeGitCPath_writeName after.small hafter]
  rfl

/-! ## the entries of a patch -/

/-- The sides of a change are its paths. -/
theorem Kind.recoverable_side {kind : Kind} (hold : Recoverable quotePath kind.oldPath.bytes)
    (hnew : Recoverable quotePath kind.newPath.bytes) (second : Bool) :
    ∀ p, kind.side second = some p → Recoverable quotePath p.bytes := by
  intro p hp
  cases kind with
  | add path =>
      cases second with
      | false => cases hp
      | true => exact Option.some.inj hp ▸ hnew
  | delete path =>
      cases second with
      | false => exact Option.some.inj hp ▸ hold
      | true => cases hp
  | modify path => exact Option.some.inj hp ▸ hold
  | rename oldPath newPath =>
      cases second with
      | false => exact Option.some.inj hp ▸ hold
      | true => exact Option.some.inj hp ▸ hnew

/-- The content of a change adds the endpoints of its file lines. -/
theorem readLines_content {oldPath newPath : Str} {kind : Kind} (content : Content)
    (hold : Recoverable quotePath kind.oldPath.bytes)
    (hnew : Recoverable quotePath kind.newPath.bytes) :
    readLines oldPath newPath (contentLines quotePath kind content) =
      some (match content with | .text _ => kind.endpoints | _ => (oldPath, newPath)) := by
  cases content with
  | none => rfl
  | text hunks =>
      rw [contentLines, readLines_sides (Kind.recoverable_side hold hnew false)
        (Kind.recoverable_side hold hnew true)]
      cases hunks with
      | nil => rfl
      | cons hunk hunks =>
          rw [List.flatMap_cons, Hunk.lines, List.cons_append, List.append_assoc,
            readLines_stop (by simp)]
          rfl
  | binary data =>
      rw [contentLines, Binary.lines, List.append_assoc]
      have hknown : data.keyword ∈ ["@@", "GIT binary patch", "Binary files "] :=
        List.mem_cons_of_mem _ data.known
      rw [readLines_stop hknown]

/-- **The lines of a change are read**: the endpoints of a text change, the paths of a
rename, and nothing else. -/
theorem readLines_body {c : Change} (h : c.Recoverable quotePath) :
    readLines [] [] (c.body quotePath) = some (match c.content, c.kind with
      | .text _, kind => kind.endpoints
      | _, .rename before after => (before.text, after.text)
      | _, _ => ([], [])) := by
  obtain ⟨hold, hnew⟩ := h
  rw [Change.body, List.append_assoc, List.append_assoc, readLines_extended]
  cases hkind : c.kind with
  | rename before after =>
      rw [hkind] at hold hnew
      have hrename := @readLines_rename quotePath before after
      rw [hrename hold hnew, readLines_extended, readLines_content _ hold hnew]
      cases c.content <;> rfl
  | add path =>
      have hnone : renameLines quotePath (.add path) = [] := rfl
      rw [hkind] at hold hnew
      rw [hnone, List.nil_append, readLines_extended, readLines_content _ hold hnew]
      cases c.content <;> rfl
  | delete path =>
      have hnone : renameLines quotePath (.delete path) = [] := rfl
      rw [hkind] at hold hnew
      rw [hnone, List.nil_append, readLines_extended, readLines_content _ hold hnew]
      cases c.content <;> rfl
  | modify path =>
      have hnone : renameLines quotePath (.modify path) = [] := rfl
      rw [hkind] at hold hnew
      rw [hnone, List.nil_append, readLines_extended, readLines_content _ hold hnew]
      cases c.content <;> rfl

theorem isPrefixOf_nameHeader (before after : Path) :
    diffHeader.isPrefixOf (nameHeader quotePath before after) = true := by
  rw [nameHeader, List.append_assoc, List.append_assoc, List.append_assoc]
  exact List.isPrefixOf_iff_prefix.mpr (List.prefix_append _ _)

theorem isPrefixOf_writeHeader (before after : Path) :
    diffHeader.isPrefixOf (writeHeader before after) = true :=
  @isPrefixOf_nameHeader true before after

theorem blockEntry_of_read {before after : Path} {body : List Str} {oldPath newPath : Str}
    (h : readLines [] [] body = some (oldPath, newPath)) (hne : oldPath ≠ [] ∨ newPath ≠ []) :
    blockEntry (nameHeader quotePath before after :: body) = some (some (oldPath, newPath)) := by
  have hsome : ¬(oldPath = [] ∧ newPath = []) := by
    rw [not_and_or]
    exact hne
  rw [blockEntry, isPrefixOf_nameHeader, Bool.not_true, if_neg Bool.false_ne_true, h]
  simp only [Option.bind_eq_bind, Option.bind_some, if_neg hsome]

/-- Without file lines and rename lines the header names the path. -/
theorem blockEntry_of_header {path : Path} {body : List Str}
    (h : readLines [] [] body = some ([], [])) (hrecoverable : Recoverable quotePath path.bytes) :
    blockEntry (nameHeader quotePath path path :: body) = some (some (path.text, path.text)) := by
  have hold : gitDiffEndpoint (nameToken quotePath false path) (ascii "a") = some path.text :=
    gitDiffEndpoint_nameToken hrecoverable
  have hnew : gitDiffEndpoint (nameToken quotePath true path) (ascii "b") = some path.text :=
    gitDiffEndpoint_nameToken hrecoverable
  have hne : path.text ≠ [] ∨ path.text ≠ [] := .inl path.text_ne_nil
  rw [blockEntry, isPrefixOf_nameHeader, Bool.not_true, if_neg Bool.false_ne_true, h]
  simp only [Option.bind_eq_bind, Option.bind_some, and_self, if_true,
    gitHeaderTokens_nameHeader hrecoverable, hold, hnew, if_pos hne]

/-- **The paths of a change are read back.** -/
theorem blockEntry_lines {c : Change} (h : c.Recoverable quotePath) :
    blockEntry (c.lines quotePath) = some (some c.entry) := by
  have hread := readLines_body h
  rw [Change.lines]
  obtain ⟨kind, before, after, content⟩ := c
  cases content with
  | text hunks =>
      rw [blockEntry_of_read hread]
      · rfl
      · cases kind with
        | add path => exact .inr path.text_ne_nil
        | delete path => exact .inl path.text_ne_nil
        | modify path => exact .inl path.text_ne_nil
        | rename oldPath newPath => exact .inl oldPath.text_ne_nil
  | none =>
      cases kind with
      | add path => exact blockEntry_of_header hread h.1
      | delete path => exact blockEntry_of_header hread h.1
      | modify path => exact blockEntry_of_header hread h.1
      | rename oldPath newPath => exact blockEntry_of_read hread (.inl oldPath.text_ne_nil)
  | binary data =>
      cases kind with
      | add path => exact blockEntry_of_header hread h.1
      | delete path => exact blockEntry_of_header hread h.1
      | modify path => exact blockEntry_of_header hread h.1
      | rename oldPath newPath => exact blockEntry_of_read hread (.inl oldPath.text_ne_nil)

/-! ## lines of a change -/

theorem isLine_append {start text : Str} (hstart : 10 ∉ start) (htext : 10 ∉ text) :
    IsLine (start ++ text ++ [10]) := by
  refine ⟨start ++ text, ?_, rfl⟩
  rw [List.mem_append, not_or]
  exact ⟨hstart, htext⟩

/-- A line, and no header. -/
def IsBodyLine (line : Str) : Prop := IsLine line ∧ diffHeader.isPrefixOf line = false

theorem isBodyLine_append {start text : Str} (hdiffer : differ diffHeader start = true)
    (hstart : 10 ∉ start) (htext : 10 ∉ text) : IsBodyLine (start ++ text ++ [10]) := by
  refine ⟨isLine_append hstart htext, ?_⟩
  rw [List.append_assoc]
  exact isPrefixOf_of_differ hdiffer _

theorem not_mem_of_ne {text : Str} (h : ∀ c ∈ text, c ≠ 10 ∧ c ≠ 13) : 10 ∉ text :=
  fun hmem => (h 10 hmem).1 rfl

theorem Extended.isBodyLine (e : Extended) : IsBodyLine e.line := by
  have hknown : ∀ keyword ∈ extendedKeywords,
      differ diffHeader (ascii keyword) = true ∧ 10 ∉ ascii keyword := by
    decide +kernel
  obtain ⟨hdiffer, hnl⟩ := hknown e.keyword e.known
  exact isBodyLine_append hdiffer hnl e.oneLine

theorem Hunk.isBodyLine (h : Hunk) : ∀ line ∈ h.lines, IsBodyLine line := by
  have hmarker : ∀ marker ∈ ascii " +-\\", differ diffHeader [marker] = true ∧ 10 ∉ [marker] := by
    decide
  rw [Hunk.lines, List.forall_mem_cons]
  refine ⟨isBodyLine_append (by decide) (by decide) h.oneLine, fun line hline => ?_⟩
  obtain ⟨l, -, rfl⟩ := List.mem_map.mp hline
  obtain ⟨hdiffer, hnl⟩ := hmarker l.marker l.known
  exact isBodyLine_append hdiffer hnl l.oneLine

theorem Binary.isBodyLine (b : Binary) : ∀ line ∈ b.lines, IsBodyLine line := by
  have hknown : ∀ keyword ∈ ["GIT binary patch", "Binary files "],
      differ diffHeader (ascii keyword) = true ∧ 10 ∉ ascii keyword := by
    decide
  obtain ⟨hdiffer, hnl⟩ := hknown b.keyword b.known
  rw [Binary.lines, List.forall_mem_cons]
  refine ⟨isBodyLine_append hdiffer hnl b.oneLine, fun line hline => ?_⟩
  obtain ⟨text, htext, rfl⟩ := List.mem_map.mp hline
  exact ⟨⟨text, (b.dataLines text htext).1, rfl⟩, (b.dataLines text htext).2⟩

theorem renameLines_isBodyLine (kind : Kind) :
    ∀ line ∈ renameLines quotePath kind, IsBodyLine line := by
  have hpath : ∀ path : Path, 10 ∉ writeName quotePath path.bytes := fun path =>
    not_mem_of_ne (newline_not_mem (le_of_mem_writeName path.small))
  cases kind with
  | rename oldPath newPath =>
      rw [renameLines, List.forall_mem_cons, List.forall_mem_singleton]
      exact ⟨isBodyLine_append (by decide) (by decide) (hpath oldPath),
        isBodyLine_append (by decide) (by decide) (hpath newPath)⟩
  | add path => exact fun line hline => absurd hline List.not_mem_nil
  | delete path => exact fun line hline => absurd hline List.not_mem_nil
  | modify path => exact fun line hline => absurd hline List.not_mem_nil

theorem contentLines_isBodyLine (kind : Kind) (content : Content) :
    ∀ line ∈ contentLines quotePath kind content, IsBodyLine line := by
  cases content with
  | none => exact fun line hline => absurd hline List.not_mem_nil
  | text hunks =>
      rw [contentLines, List.forall_mem_cons, List.forall_mem_cons]
      refine ⟨isBodyLine_append (by decide) (by decide) (not_mem_of_ne sideText_ne.2),
        isBodyLine_append (by decide) (by decide) (not_mem_of_ne sideText_ne.2), ?_⟩
      intro line hline
      obtain ⟨hunk, -, hmem⟩ := List.mem_flatMap.mp hline
      exact hunk.isBodyLine line hmem
  | binary data => exact data.isBodyLine

/-- The lines behind a header are lines, and no headers. -/
theorem body_isBodyLine (c : Change) : ∀ line ∈ c.body quotePath, IsBodyLine line := by
  have hextended : ∀ (es : List Extended), ∀ line ∈ es.map Extended.line, IsBodyLine line := by
    intro es line hline
    obtain ⟨e, -, rfl⟩ := List.mem_map.mp hline
    exact e.isBodyLine
  intro line hline
  simp only [Change.body, List.mem_append] at hline
  obtain ((hline | hline) | hline) | hline := hline
  · exact hextended c.before line hline
  · exact renameLines_isBodyLine c.kind line hline
  · exact hextended c.after line hline
  · exact contentLines_isBodyLine c.kind c.content line hline

theorem Change.isBlock (c : Change) : IsBlock (c.lines quotePath) :=
  ⟨_, _, rfl, isPrefixOf_nameHeader _ _, fun line hline => (body_isBodyLine c line hline).2⟩

theorem Change.isLine (c : Change) : ∀ line ∈ c.lines quotePath, IsLine line := by
  have hheader : IsLine (nameHeader quotePath c.kind.oldPath c.kind.newPath) := by
    refine ⟨diffHeader ++ nameToken quotePath false c.kind.oldPath ++ [32] ++
      nameToken quotePath true c.kind.newPath, ?_, rfl⟩
    simp only [List.mem_append, not_or]
    exact ⟨⟨⟨by decide, not_mem_of_ne (newline_not_mem le_of_mem_nameToken)⟩, by decide⟩,
      not_mem_of_ne (newline_not_mem le_of_mem_nameToken)⟩
  rw [Change.lines, List.forall_mem_cons]
  exact ⟨hheader, fun line hline => (body_isBodyLine c line hline).1⟩

/-- **Blocks of lines are split into these blocks.** -/
theorem splitPatchBlocks_blocks {blocks : List (List Str)}
    (h : ∀ block ∈ blocks, IsBlock block ∧ ∀ line ∈ block, IsLine line) :
    splitPatchBlocks blocks.flatten.flatten = blocks := by
  rw [splitPatchBlocks, splitKeep_lines, splitBlocks_blocks fun block hblock => (h block hblock).1]
  intro line hline
  obtain ⟨block, hblock, hmem⟩ := List.mem_flatten.mp hline
  exact (h block hblock).2 line hmem

/-- **A patch is split into the lines of its changes.** -/
theorem splitPatchBlocks_writePatch (quotePath : Bool) (changes : List Change) :
    splitPatchBlocks (writePatch quotePath changes) = changes.map (Change.lines quotePath) := by
  rw [writePatch, List.flatMap_def]
  refine splitPatchBlocks_blocks fun block hblock => ?_
  obtain ⟨c, -, rfl⟩ := List.mem_map.mp hblock
  exact ⟨c.isBlock, c.isLine⟩

/-- **The paths of a patch are read back.** -/
theorem patchEntries_of_recoverable {changes : List Change}
    (h : ∀ c ∈ changes, c.Recoverable quotePath) :
    patchEntries (writePatch quotePath changes) = some (changes.map Change.entry) := by
  rw [patchEntries, splitPatchBlocks_writePatch]
  induction changes with
  | nil => rfl
  | cons c changes ih =>
      rw [List.forall_mem_cons] at h
      have hrest := ih h.2
      rw [Option.map_eq_some_iff] at hrest
      obtain ⟨entries, hentries, hmap⟩ := hrest
      rw [List.map_cons, List.mapM_cons, blockEntry_lines h.1, hentries, List.map_cons, ← hmap]
      rfl

/-- With `core.quotePath` every path can be read back. -/
theorem patchEntries_writePatch (changes : List Change) :
    patchEntries (writePatch true changes) = some (changes.map Change.entry) :=
  patchEntries_of_recoverable fun _ _ => ⟨nofun, nofun⟩

/-- **Patches are read back**: there is a block for each change, the blocks make up
the patch, and the paths are those of the changes, with `core.quotePath` for all paths
and without it for those that are UTF-8. -/
theorem patch_round_trip (quotePath : Bool) (changes : List Change)
    (h : quotePath = true ∨
      ∀ c ∈ changes, IsUtf8 c.kind.oldPath.bytes ∧ IsUtf8 c.kind.newPath.bytes) :
    (splitPatchBlocks (writePatch quotePath changes) = changes.map (Change.lines quotePath) ∧
      ((splitPatchBlocks (writePatch quotePath changes)).map List.flatten).flatten =
        writePatch quotePath changes) ∧
    patchEntries (writePatch quotePath changes) = some (changes.map Change.entry) := by
  have hrecoverable : ∀ c ∈ changes, c.Recoverable quotePath := by
    intro c hc
    obtain rfl | h := h
    · exact ⟨nofun, nofun⟩
    · exact ⟨fun _ => (h c hc).1, fun _ => (h c hc).2⟩
  refine ⟨⟨splitPatchBlocks_writePatch quotePath changes, ?_⟩,
    patchEntries_of_recoverable hrecoverable⟩
  rw [splitPatchBlocks_writePatch, writePatch, List.flatMap_def, List.flatten_flatten]

/-- The path of a character. -/
def accented : Path := ⟨encodeChar 0xE9, by decide, by decide⟩

/-- A file is renamed to a name that Git quotes by default only. -/
def renamedAccented : Change where
  kind := .rename ⟨[121], by decide, by decide⟩ accented
  before := [⟨"similarity index ", by decide, ascii "100%", by decide⟩]
  after := []
  content := .none

/-- A name above ASCII is read back as it stands. -/
theorem patch_round_trip_sample :
    patchEntries (writePatch false [renamedAccented]) = some [([121], [0xE9])] := by
  have hutf8 : IsUtf8 [121] ∧ IsUtf8 accented.bytes :=
    ⟨⟨[121], by decide, rfl⟩, ⟨[0xE9], by decide, by decide⟩⟩
  have h := (patch_round_trip false [renamedAccented]
    (.inr (List.forall_mem_singleton.mpr hutf8))).2
  exact h.trans (by decide)

/-- The paths that a change has: none for the side on which the file does not exist. -/
def Change.paths (c : Change) : Str × Str := c.kind.endpoints

/-- An added empty file. -/
def addedEmpty : Change where
  kind := .add ⟨[120], by decide, by decide⟩
  before := [⟨"new file mode ", by decide, ascii "100644", by decide⟩]
  after := [⟨"index ", by decide, ascii "0000000..e69de29", by decide⟩]
  content := .none

/-- **An added empty file has its path on both sides.** -/
theorem addedEmpty_both_sides :
    ¬patchEntries (writePatch true [addedEmpty]) = some ([addedEmpty].map Change.paths) := by
  rw [patchEntries_writePatch]
  decide

/-! ## sample changes -/

/-- The path of one byte. -/
def Path.ofByte (b : Fin 256) : Path :=
  ⟨[b.val], List.cons_ne_nil _ _, List.forall_mem_singleton.mpr b.isLt⟩

/-- The file `m`. -/
def fileM : Path := .ofByte 109

theorem deletedFileMode_known : "deleted file mode " ∈ extendedKeywords := by
  decide

theorem similarityIndex_known : "similarity index " ∈ extendedKeywords := by
  decide

theorem fileMode_oneLine : 10 ∉ ascii "100644" := by
  decide

theorem wholly_oneLine : 10 ∉ ascii "100%" := by
  decide

/-- A deleted empty file. -/
def deletedEmpty : Change where
  kind := .delete (.ofByte 121)
  before := [⟨"deleted file mode ", deletedFileMode_known, ascii "100644", fileMode_oneLine⟩]
  after := []
  content := .none

/-- A file that is renamed as it is. -/
def renamedFile : Change where
  kind := .rename (.ofByte 111) (.ofByte 110)
  before := [⟨"similarity index ", similarityIndex_known, ascii "100%", wholly_oneLine⟩]
  after := []
  content := .none

end OpenCollab.PatchPaths
