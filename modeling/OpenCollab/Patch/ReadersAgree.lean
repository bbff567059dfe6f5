import OpenCollab.Patch.SchedulerDiff

/-!
# OpenCollab.Patch.ReadersAgree

A patch as Git writes it, read by the scheduler's trace and by `patch_paths`.

* `readBlock_body` — what the trace reads from the lines behind a header;
* `classifyBlock_lines` — the entries of one change;
* `parseWorktreeDiff_written` — the entries of a patch;
* `patch_readers_agree` — the paths are those of the other reader.
-/

namespace OpenCollab.PatchPaths

variable {named : Str → Option Nat}

/-! ## the lines of a change, read -/

/-- Whether an extended header line has the keyword. -/
def Change.marked (c : Change) (keyword : String) : Bool :=
  (c.before ++ c.after).any (·.keyword = keyword)

/-- Git writes a mode line for a new and for a deleted file, and for no other. -/
structure Change.ModesAgree (c : Change) : Prop where
  added : c.marked "new file mode " = true ↔ ∃ path, c.kind = .add path
  deleted : c.marked "deleted file mode " = true ↔ ∃ path, c.kind = .delete path

/-- An extended header line, read. -/
def BlockRead.mark (read : BlockRead) (keyword : String) : BlockRead :=
  { read with added := read.added || decide (keyword = "new file mode ")
              deleted := read.deleted || decide (keyword = "deleted file mode ") }

/-- The lines `_classify_block` looks for, and those it stops at. -/
def blockKeywords : List String :=
  ["new file mode", "deleted file mode", "rename from ", "rename to ", "--- ", "+++ ", "@@",
    "GIT binary patch", "Binary files "]

/-- A line that begins otherwise. -/
theorem startsWithAny_block {starts : List String} (hsub : starts ⊆ blockKeywords) {start : Str}
    (h : blockKeywords.all (fun s => differ (ascii s) start) = true) (rest : Str) :
    startsWithAny starts (start ++ rest) = false := by
  refine startsWithAny_of_differ (List.all_eq_true.mpr fun s hs => ?_) _
  exact List.all_eq_true.mp h s (hsub hs)

theorem line_extended (read : BlockRead) {keyword : String} (h : keyword ∈ extendedKeywords)
    (text : Str) :
    startsWithAny ["@@", "GIT binary patch", "Binary files "] (ascii keyword ++ text) = false ∧
      read.line named (ascii keyword ++ text) = read.mark keyword := by
  have hstop : ∀ keyword ∈ extendedKeywords,
      ["@@", "GIT binary patch", "Binary files "].all (fun s => differ (ascii s) (ascii keyword)) =
        true := by
    decide +kernel
  have hother : ∀ keyword ∈ extendedKeywords, keyword ≠ "new file mode " →
      keyword ≠ "deleted file mode " →
      blockKeywords.all (fun s => differ (ascii s) (ascii keyword)) = true := by
    decide +kernel
  refine ⟨startsWithAny_of_differ (hstop keyword h) text, ?_⟩
  by_cases hnew : keyword = "new file mode "
  · have hascii : ascii "new file mode " = ascii "new file mode" ++ [32] := by decide
    rw [hnew, hascii, List.append_assoc, BlockRead.line,
      startsWithAny_self (List.mem_singleton_self _), if_pos rfl]
    simp [BlockRead.mark]
  · by_cases hdeleted : keyword = "deleted file mode "
    · have hascii : ascii "deleted file mode " = ascii "deleted file mode" ++ [32] := by decide
      have hnot : startsWithAny ["new file mode"] (ascii "deleted file mode" ++ ([32] ++ text)) =
          false := startsWithAny_of_differ (by decide) _
      rw [hdeleted, hascii, List.append_assoc, BlockRead.line, hnot, if_neg Bool.false_ne_true,
        startsWithAny_self (List.mem_singleton_self _), if_pos rfl]
      simp [BlockRead.mark]
    · have hnot : ∀ {starts : List String}, starts ⊆ blockKeywords →
          startsWithAny starts (ascii keyword ++ text) = false := fun hsub =>
        startsWithAny_block hsub (hother keyword h hnew hdeleted) text
      rw [BlockRead.line]
      rw [hnot (by decide), if_neg Bool.false_ne_true, hnot (by decide), if_neg Bool.false_ne_true,
        hnot (by decide), if_neg Bool.false_ne_true, hnot (by decide), if_neg Bool.false_ne_true,
        hnot (by decide), if_neg Bool.false_ne_true, hnot (by decide), if_neg Bool.false_ne_true]
      simp [BlockRead.mark, hnew, hdeleted]

/-- The extended header lines are read for the mode lines among them. -/
theorem readBlock_extended (read : BlockRead) (extended : List Extended) (lines : List Str) :
    readBlock named read ((extended.map Extended.line).map List.dropLast ++ lines) =
      readBlock named
        { read with added := read.added || extended.any (·.keyword = "new file mode ")
                    deleted := read.deleted || extended.any (·.keyword = "deleted file mode ") }
        lines := by
  induction extended generalizing read with
  | nil => simp
  | cons e extended ih =>
      obtain ⟨hstop, hline⟩ := @line_extended named read _ e.known e.text
      rw [List.map_cons, List.map_cons, List.cons_append, Extended.line, List.dropLast_concat,
        readBlock, hstop, if_neg Bool.false_ne_true, hline, ih]
      simp only [BlockRead.mark, List.any_cons, Bool.or_assoc]

/-- What is shown for a side, and for a name of a rename. -/
def shownSide (second : Bool) (path : Path) : Str := shownPath (token second path) path

def shownName (path : Path) : Str := shownPath (writePath path.bytes) path

theorem sidePath_sideText (second : Bool) (path : Option Path) :
    sidePath named (sideText true second path) (sideOf second ++ ascii "/") =
      path.map (shownSide second) := by
  cases path with
  | none =>
      have hnull : (ascii "/dev/null").takeWhile (· ≠ 9) = ascii "/dev/null" ∧
          (ascii "/dev/null").head? ≠ some quote := by decide
      have hkeep : gitUnquote named (ascii "/dev/null") = ascii "/dev/null" := by
        rw [gitUnquote, if_pos (Or.inr (Or.inl hnull.2))]
      rw [sideText, sidePath, hnull.1, hkeep]
      exact if_pos rfl
  | some path =>
      rw [sideText_some]
      refine sidePath_token second path ?_
      unfold tab
      split
      · exact .inr rfl
      · exact .inl rfl

theorem readBlock_sides (read : BlockRead) {before after : Option Path} {lines : List Str} :
    readBlock named read ((ascii "--- " ++ sideText true false before) ::
        (ascii "+++ " ++ sideText true true after) :: lines) =
      readBlock named { read with oldPath := before.map (shownSide false)
                                  newPath := after.map (shownSide true) } lines := by
  have hdrop : ∀ text, (ascii "--- " ++ text).drop 4 = text ∧ (ascii "+++ " ++ text).drop 4 = text := by
    intro text
    have hminus : ascii "--- " = [45, 45, 45, 32] := by decide
    have hplus : ascii "+++ " = [43, 43, 43, 32] := by decide
    rw [hminus, hplus]
    exact ⟨rfl, rfl⟩
  have hnot : ∀ start ∈ [ascii "--- ", ascii "+++ "], ∀ starts ∈ [["@@", "GIT binary patch",
      "Binary files "], ["new file mode"], ["deleted file mode"], ["rename from "], ["rename to "]],
      starts.all (fun s => differ (ascii s) start) = true := by
    decide +kernel
  have hold : ∀ starts ∈ [["@@", "GIT binary patch", "Binary files "], ["new file mode"],
      ["deleted file mode"], ["rename from "], ["rename to "]],
      startsWithAny starts (ascii "--- " ++ sideText true false before) = false :=
    fun starts h => startsWithAny_of_differ (hnot _ (by simp) starts h) _
  have hnew : ∀ starts ∈ [["@@", "GIT binary patch", "Binary files "], ["new file mode"],
      ["deleted file mode"], ["rename from "], ["rename to "]],
      startsWithAny starts (ascii "+++ " ++ sideText true true after) = false :=
    fun starts h => startsWithAny_of_differ (hnot _ (by simp) starts h) _
  have hplus : startsWithAny ["--- "] (ascii "+++ " ++ sideText true true after) = false :=
    startsWithAny_of_differ (by decide) _
  rw [readBlock, hold _ (by simp), if_neg Bool.false_ne_true, readBlock, hnew _ (by simp),
    if_neg Bool.false_ne_true]
  simp only [BlockRead.line, hold ["new file mode"] (by simp), hold ["deleted file mode"] (by simp),
    hold ["rename from "] (by simp), hold ["rename to "] (by simp), hnew ["new file mode"] (by simp),
    hnew ["deleted file mode"] (by simp), hnew ["rename from "] (by simp),
    hnew ["rename to "] (by simp), hplus, Bool.false_eq_true, if_false,
    startsWithAny_self (List.mem_singleton_self "--- "),
    startsWithAny_self (List.mem_singleton_self "+++ "), if_true, (hdrop _).1, (hdrop _).2]
  rw [show ascii "a/" = sideOf false ++ ascii "/" by decide,
    show ascii "b/" = sideOf true ++ ascii "/" by decide, sidePath_sideText, sidePath_sideText]

theorem readBlock_rename (read : BlockRead) (before after : Path) {lines : List Str} :
    readBlock named read ((renameLines true (.rename before after)).map List.dropLast ++ lines) =
      readBlock named { read with renameFrom := some (shownName before)
                                  renameTo := some (shownName after) } lines := by
  have hdrop : ∀ text, (ascii "rename from " ++ text).drop 12 = text ∧
      (ascii "rename to " ++ text).drop 10 = text := by
    intro text
    have hfrom : ascii "rename from " = [114, 101, 110, 97, 109, 101, 32, 102, 114, 111, 109, 32] := by
      decide
    have hto : ascii "rename to " = [114, 101, 110, 97, 109, 101, 32, 116, 111, 32] := by decide
    rw [hfrom, hto]
    exact ⟨rfl, rfl⟩
  have hnot : ∀ start ∈ [ascii "rename from ", ascii "rename to "], ∀ starts ∈ [["@@",
      "GIT binary patch", "Binary files "], ["new file mode"], ["deleted file mode"]],
      starts.all (fun s => differ (ascii s) start) = true := by
    decide +kernel
  have hfrom : ∀ starts ∈ [["@@", "GIT binary patch", "Binary files "], ["new file mode"],
      ["deleted file mode"]],
      startsWithAny starts (ascii "rename from " ++ writePath before.bytes) = false :=
    fun starts h => startsWithAny_of_differ (hnot _ (by simp) starts h) _
  have hto : ∀ starts ∈ [["@@", "GIT binary patch", "Binary files "], ["new file mode"],
      ["deleted file mode"]],
      startsWithAny starts (ascii "rename to " ++ writePath after.bytes) = false :=
    fun starts h => startsWithAny_of_differ (hnot _ (by simp) starts h) _
  have hother : startsWithAny ["rename from "] (ascii "rename to " ++ writePath after.bytes) =
      false := startsWithAny_of_differ (by decide) _
  rw [renameLines, writeName_true, writeName_true, List.map_cons, List.map_singleton,
    List.dropLast_concat, List.dropLast_concat, List.cons_append, List.cons_append,
    List.nil_append, readBlock, hfrom _ (by simp), if_neg Bool.false_ne_true, readBlock,
    hto _ (by simp), if_neg Bool.false_ne_true]
  simp only [BlockRead.line, hfrom ["new file mode"] (by simp), hfrom ["deleted file mode"] (by simp),
    hto ["new file mode"] (by simp), hto ["deleted file mode"] (by simp), hother, Bool.false_eq_true,
    if_false, startsWithAny_self (List.mem_singleton_self "rename from "),
    startsWithAny_self (List.mem_singleton_self "rename to "), if_true, (hdrop _).1, (hdrop _).2,
    gitUnquote_writePath before.small, gitUnquote_writePath after.small]
  rfl

theorem readBlock_stop (read : BlockRead) {keyword : String}
    (h : keyword ∈ ["@@", "GIT binary patch", "Binary files "]) (rest : Str) (lines : List Str) :
    readBlock named read ((ascii keyword ++ rest) :: lines) = read := by
  rw [readBlock, startsWithAny_self h, if_pos rfl]

/-- What the file lines of a text change say of a side. -/
def Change.sideRead (c : Change) (second : Bool) : Option Str :=
  match c.content with
  | .text _ => (c.kind.side second).map (shownSide second)
  | _ => none

/-- What the rename lines say of a side. -/
def Kind.nameRead (kind : Kind) (second : Bool) : Option Str :=
  match kind with
  | .rename before after => some (shownName (if second then after else before))
  | _ => none

theorem readBlock_content (read : BlockRead) (c : Change) :
    readBlock named read ((contentLines true c.kind c.content).map List.dropLast) =
      match c.content with
      | .text _ => { read with oldPath := c.sideRead false, newPath := c.sideRead true }
      | _ => read := by
  unfold Change.sideRead
  cases c.content with
  | none => rfl
  | text hunks =>
      rw [contentLines, List.map_cons, List.map_cons, List.dropLast_concat, List.dropLast_concat,
        readBlock_sides]
      cases hunks with
      | nil => rfl
      | cons hunk hunks =>
          rw [List.flatMap_cons, Hunk.lines, List.cons_append, List.map_cons, List.dropLast_concat,
            readBlock_stop _ (by simp)]
  | binary data =>
      have hknown : data.keyword ∈ ["@@", "GIT binary patch", "Binary files "] :=
        List.mem_cons_of_mem _ data.known
      rw [contentLines, Binary.lines, List.map_cons, List.dropLast_concat, readBlock_stop _ hknown]

theorem readBlock_names (read : BlockRead) (kind : Kind) (lines : List Str)
    (hfrom : read.renameFrom = none) (hto : read.renameTo = none) :
    readBlock named read ((renameLines true kind).map List.dropLast ++ lines) =
      readBlock named { read with renameFrom := kind.nameRead false
                                  renameTo := kind.nameRead true } lines := by
  obtain ⟨oldPath, newPath, renameFrom, renameTo, added, deleted⟩ := read
  obtain rfl := hfrom
  obtain rfl := hto
  cases kind with
  | rename before after => exact readBlock_rename _ before after
  | add path => rfl
  | delete path => rfl
  | modify path => rfl

/-- **What is read from the lines behind a header.** -/
theorem readBlock_body (c : Change) :
    readBlock named {} ((c.body true).map List.dropLast) =
      { oldPath := c.sideRead false
        newPath := c.sideRead true
        renameFrom := c.kind.nameRead false
        renameTo := c.kind.nameRead true
        added := c.marked "new file mode "
        deleted := c.marked "deleted file mode " } := by
  have hmarked : ∀ keyword, c.marked keyword =
      (c.before.any (·.keyword = keyword) || c.after.any (·.keyword = keyword)) :=
    fun keyword => List.any_append
  rw [Change.body, List.map_append, List.map_append, List.map_append, List.append_assoc,
    List.append_assoc, readBlock_extended, readBlock_names _ _ _ rfl rfl, readBlock_extended,
    readBlock_content, hmarked, hmarked]
  unfold Change.sideRead
  cases c.content <;> simp only [Bool.false_or]

/-! ## the entries of a change -/

/-- What the trace reports of a change: a rename is a deletion and an addition. -/
def Change.report (c : Change) : List (Str × FileOp) :=
  match c.kind with
  | .add path => [(shownSide true path, .added)]
  | .delete path => [(shownSide false path, .deleted)]
  | .modify path => [(shownSide true path, .modified)]
  | .rename before after => [(shownName before, .deleted), (shownName after, .added)]

/-- The paths are read from file lines or rename lines, or the quotes of the header close
where they are read to: the path does not end in a quote and a space. -/
def Change.HeaderClear (c : Change) : Prop :=
  (∃ hunks, c.content = .text hunks) ∨ (∃ before after, c.kind = .rename before after) ∨
    ¬[quote, 32] <:+ c.kind.newPath.bytes

theorem shownPath_ne_nil {token : Str} (h : token ≠ []) (path : Path) :
    shownPath token path ≠ [] := by
  rw [shownPath, decodeStrict]
  split
  · exact path.text_ne_nil
  · exact h

theorem firstPath_some {path : Str} (h : path ≠ []) (rest : List (Option Str)) :
    firstPath (some path :: rest) = some path := by
  rw [firstPath, List.filterMap_cons]
  dsimp only [id]
  rw [List.find?_cons, decide_eq_true h]

theorem firstPath_none (rest : List (Option Str)) : firstPath (none :: rest) = firstPath rest := rfl

theorem headerLinePaths_clear (path : Path) (h : ¬[quote, 32] <:+ path.bytes) :
    headerLinePaths named (cutHeader path path) =
      (some (shownSide false path), some (shownSide true path)) := by
  by_cases hplain : path.bytes.all isPlain = true
  · exact headerLinePaths_plain path hplain
  · exact headerLinePaths_quoted path hplain h

/-- **The path of a side is found**, in the file lines or else in the header. -/
theorem firstPath_sideRead {c : Change} {path : Path} (second : Bool)
    (hside : c.kind.side second = some path)
    (hclear : (∃ hunks, c.content = .text hunks) ∨ ¬[quote, 32] <:+ path.bytes)
    (rest : List (Option Str)) :
    firstPath (c.sideRead second ::
      (if second then (headerLinePaths named (cutHeader path path)).2
        else (headerLinePaths named (cutHeader path path)).1) :: rest) =
      some (shownSide second path) := by
  have hne : shownSide second path ≠ [] := shownPath_ne_nil token_ne_nil path
  have hheader : c.sideRead second = none → ¬[quote, 32] <:+ path.bytes := by
    intro hread
    obtain ⟨hunks, htext⟩ | hend := hclear
    · simp [Change.sideRead, htext, hside] at hread
    · exact hend
  cases hread : c.sideRead second with
  | none =>
      rw [firstPath_none, headerLinePaths_clear path (hheader hread)]
      cases second <;> exact firstPath_some hne rest
  | some text =>
      have htext : text = shownSide second path := by
        unfold Change.sideRead at hread
        split at hread
        · rw [hside] at hread
          exact (Option.some.inj hread).symm
        · contradiction
      rw [htext, firstPath_some hne]

/-- **The entries of one change.** -/
theorem classifyBlock_lines {c : Change} (hmodes : c.ModesAgree) (hclear : c.HeaderClear) :
    classifyBlock named ((c.lines true).map List.dropLast) = c.report := by
  have hadded := hmodes.added
  have hdeleted := hmodes.deleted
  have hheader : (writeHeader c.kind.oldPath c.kind.newPath).dropLast =
      cutHeader c.kind.oldPath c.kind.newPath := List.dropLast_concat
  rw [Change.lines, nameHeader_true, List.map_cons, hheader, classifyBlock, readBlock_body]
  unfold Change.report
  cases hkind : c.kind with
  | rename before after =>
      have hname : ∀ path : Path, firstPath [some (shownName path)] = some (shownName path) :=
        fun path => firstPath_some (shownPath_ne_nil (writePath_ne_nil path.nonempty) path) []
      simp only [Kind.nameRead, if_true, Bool.false_eq_true, if_false, hname]
  | add path =>
      have hfound := @firstPath_sideRead named c path true
        (by rw [hkind]; rfl) (by simpa [Change.HeaderClear, hkind, Kind.newPath] using hclear)
      have hold : c.marked "deleted file mode " = false := by simpa [hkind] using hdeleted
      simp only [Kind.nameRead, firstPath_none, show firstPath [] = none from rfl, hold,
        hadded.mpr ⟨path, hkind⟩, Bool.false_eq_true, if_false, if_true, Kind.oldPath,
          Kind.newPath] at hfound ⊢
      rw [hfound]
      rfl
  | delete path =>
      have hfound := @firstPath_sideRead named c path false
        (by rw [hkind]; rfl) (by simpa [Change.HeaderClear, hkind, Kind.newPath] using hclear)
      simp only [Kind.nameRead, firstPath_none, show firstPath [] = none from rfl,
        hdeleted.mpr ⟨path, hkind⟩, Bool.false_eq_true, if_false, if_true, Kind.oldPath,
          Kind.newPath] at hfound ⊢
      rw [hfound]
      rfl
  | modify path =>
      have hfound := @firstPath_sideRead named c path true
        (by rw [hkind]; rfl) (by simpa [Change.HeaderClear, hkind, Kind.newPath] using hclear)
      have hnew : c.marked "new file mode " = false := by simpa [hkind] using hadded
      have hold : c.marked "deleted file mode " = false := by simpa [hkind] using hdeleted
      simp only [Kind.nameRead, firstPath_none, show firstPath [] = none from rfl, hold, hnew,
        Bool.false_eq_true, if_false, if_true, Kind.oldPath, Kind.newPath] at hfound ⊢
      rw [hfound]
      rfl

/-! ## the blocks of a patch -/

theorem splitNewline_line {text : Str} (h : 10 ∉ text) (rest : Str) :
    splitNewline (text ++ 10 :: rest) = text :: splitNewline rest := by
  induction text with
  | nil => rfl
  | cons c text ih =>
      rw [List.mem_cons, not_or] at h
      rw [List.cons_append, splitNewline, if_neg (Ne.symm h.1), ih h.2]

/-- Lines are split off without their ends; behind the last end there is an empty text. -/
theorem splitNewline_lines {lines : List Str} (h : ∀ line ∈ lines, IsLine line) :
    splitNewline lines.flatten = lines.map List.dropLast ++ [[]] := by
  induction lines with
  | nil => rfl
  | cons line lines ih =>
      rw [List.forall_mem_cons] at h
      obtain ⟨⟨text, htext, rfl⟩, hlines⟩ := h
      rw [List.flatten_cons, List.append_assoc, List.singleton_append, splitNewline_line htext,
        ih hlines, List.map_cons, List.dropLast_concat, List.cons_append]

/-- An empty text behind a block is not read. -/
theorem readBlock_empty (read : BlockRead) (lines : List Str) :
    readBlock named read (lines ++ [[]]) = readBlock named read lines := by
  induction lines generalizing read with
  | nil => rfl
  | cons line lines ih =>
      rw [List.cons_append, readBlock, readBlock]
      split
      · rfl
      · exact ih _

theorem classifyBlock_empty {block : List Str} (h : block ≠ []) :
    classifyBlock named (block ++ [[]]) = classifyBlock named block := by
  obtain ⟨header, lines, rfl⟩ := List.exists_cons_of_ne_nil h
  rw [List.cons_append, classifyBlock, readBlock_empty, classifyBlock]

/-- Lines that are no headers belong to the block before them. -/
theorem worktreeBlocks_body {body : List Str}
    (h : ∀ line ∈ body, diffHeader.isPrefixOf line = false)
    (current : List Str) (lines : List Str) :
    worktreeBlocks (some current) (body ++ lines) =
      worktreeBlocks (some (current ++ body)) lines := by
  induction body generalizing current with
  | nil => rw [List.nil_append, List.append_nil]
  | cons line body ih =>
      rw [List.forall_mem_cons] at h
      rw [List.cons_append, worktreeBlocks, h.1, if_neg Bool.false_ne_true, Option.map_some, ih h.2,
        List.append_assoc, List.singleton_append]

/-- A line keeps that it is no header when its end is cut off. -/
theorem not_header_dropLast {line : Str} (h : IsBodyLine line) :
    diffHeader.isPrefixOf line.dropLast = false := by
  rw [← Bool.not_eq_true, List.isPrefixOf_iff_prefix]
  intro hpre
  have hline := List.isPrefixOf_iff_prefix.mpr (hpre.trans (List.dropLast_prefix line))
  rw [h.2] at hline
  contradiction

/-- **The blocks are the changes**, each read by itself. -/
theorem classify_blocks (changes : List Change) {current : Option (List Str)}
    (h : ∀ block ∈ current, block ≠ []) :
    (worktreeBlocks current
      ((changes.flatMap (Change.lines true)).map List.dropLast ++ [[]])).flatMap
        (classifyBlock named) =
      current.toList.flatMap (classifyBlock named) ++
        changes.flatMap fun c => classifyBlock named ((c.lines true).map List.dropLast) := by
  induction changes generalizing current with
  | nil =>
      cases current with
      | none => rfl
      | some block =>
          have hend : worktreeBlocks (some block) [[]] = [block ++ [[]]] := rfl
          simp only [List.flatMap_nil, List.map_nil, List.nil_append, List.append_nil, hend,
            Option.toList_some, List.flatMap_singleton, classifyBlock_empty (h block rfl)]
  | cons c changes ih =>
      have hheader : (writeHeader c.kind.oldPath c.kind.newPath).dropLast =
          cutHeader c.kind.oldPath c.kind.newPath := List.dropLast_concat
      have hprefix : diffHeader.isPrefixOf (cutHeader c.kind.oldPath c.kind.newPath) = true := by
        rw [cutHeader, List.append_assoc, List.append_assoc]
        exact List.isPrefixOf_iff_prefix.mpr (List.prefix_append _ _)
      have hbody : ∀ line ∈ (c.body true).map List.dropLast,
          diffHeader.isPrefixOf line = false := by
        intro line hline
        obtain ⟨body, hmem, rfl⟩ := List.mem_map.mp hline
        exact not_header_dropLast (body_isBodyLine c body hmem)
      rw [List.flatMap_cons, List.map_append, Change.lines, nameHeader_true, List.map_cons, hheader,
        List.append_assoc, List.cons_append, worktreeBlocks, hprefix, if_pos rfl,
        worktreeBlocks_body hbody,
        List.flatMap_append, ih (by simp), List.flatMap_cons, Change.lines, nameHeader_true,
        List.map_cons, hheader, Option.toList_some, List.flatMap_singleton]
      rfl

/-- **The entries of a patch** are those of its changes. -/
theorem parseWorktreeDiff_written {changes : List Change}
    (h : ∀ c ∈ changes, c.ModesAgree ∧ c.HeaderClear) :
    parseWorktreeDiff named (writePatch true changes) = changes.flatMap Change.report := by
  have hlines : ∀ line ∈ changes.flatMap (Change.lines true), IsLine line := by
    intro line hline
    obtain ⟨c, -, hmem⟩ := List.mem_flatMap.mp hline
    exact c.isLine line hmem
  rw [parseWorktreeDiff, writePatch, splitNewline_lines hlines, classify_blocks changes (by simp)]
  simp only [Option.toList_none, List.flatMap_nil, List.nil_append]
  rw [List.flatMap_def, List.flatMap_def, List.map_congr_left fun c hc =>
    @classifyBlock_lines named _ (h c hc).1 (h c hc).2]

/-! ## the two readers -/

/-- The paths of the change are UTF-8. -/
def Change.Utf8 (c : Change) : Prop := IsUtf8 c.kind.oldPath.bytes ∧ IsUtf8 c.kind.newPath.bytes

theorem shownPath_utf8 {path : Path} (h : IsUtf8 path.bytes) (token : Str) :
    shownPath token path = path.text := by
  have hall : (decodeUtf8 0 path.bytes).all isScalar = true :=
    List.all_eq_true.mpr ((encodable_decodeUtf8 path.small).mpr h)
  rw [shownPath, decodeStrict, if_pos hall]
  rfl

/-- The paths read by the one are those reported by the other. -/
theorem mem_entry_iff {c : Change} (h : c.Utf8) (path : Str) :
    (path ≠ [] ∧ (path = c.entry.1 ∨ path = c.entry.2)) ↔ path ∈ c.report.map Prod.fst := by
  obtain ⟨hold, hnew⟩ := h
  unfold Change.entry Change.report
  cases hkind : c.kind with
  | add p =>
      have hp : IsUtf8 p.bytes := by rwa [hkind] at hnew
      have hne := p.text_ne_nil
      cases c.content <;>
        simp only [Kind.endpoints, Kind.side, Kind.oldPath, Kind.newPath, shownSide,
          shownPath_utf8 hp, List.map_cons, List.map_nil, List.mem_singleton, Option.map_some,
          Option.map_none, Option.getD_some, Option.getD_none, if_true, Bool.false_eq_true,
            if_false] <;>
        grind
  | delete p =>
      have hp : IsUtf8 p.bytes := by rwa [hkind] at hnew
      have hne := p.text_ne_nil
      cases c.content <;>
        simp only [Kind.endpoints, Kind.side, Kind.oldPath, Kind.newPath, shownSide,
          shownPath_utf8 hp, List.map_cons, List.map_nil, List.mem_singleton, Option.map_some,
          Option.map_none, Option.getD_some, Option.getD_none, if_true, Bool.false_eq_true,
            if_false] <;>
        grind
  | modify p =>
      have hp : IsUtf8 p.bytes := by rwa [hkind] at hnew
      have hne := p.text_ne_nil
      cases c.content <;>
        simp only [Kind.endpoints, Kind.side, Kind.oldPath, Kind.newPath, shownSide,
          shownPath_utf8 hp, List.map_cons, List.map_nil, List.mem_singleton, Option.map_some,
          Option.getD_some] <;>
        grind
  | rename before after =>
      have hbefore : IsUtf8 before.bytes := by rwa [hkind] at hold
      have hafter : IsUtf8 after.bytes := by rwa [hkind] at hnew
      have hne := before.text_ne_nil
      have hne' := after.text_ne_nil
      cases c.content <;>
        simp only [Kind.endpoints, Kind.side, Kind.oldPath, Kind.newPath, shownName,
          shownPath_utf8 hbefore, shownPath_utf8 hafter, List.map_cons, List.map_nil, List.mem_cons,
          List.not_mem_nil, Option.map_some, Option.getD_some, if_true, Bool.false_eq_true,
            if_false] <;>
        grind

theorem mem_patchPaths {patch : Str} {entries : List (Str × Str)} (path : Str)
    (h : patchEntries patch = some entries) :
    ∃ paths, patchPaths patch = some paths ∧
      (path ∈ paths ↔ ∃ entry ∈ entries, path ≠ [] ∧ (path = entry.1 ∨ path = entry.2)) := by
  refine ⟨_, by rw [patchPaths, h, Option.map_some], ?_⟩
  rw [List.mem_eraseDups, List.mem_filter, List.mem_flatMap]
  simp only [List.mem_cons, List.not_mem_nil, or_false, decide_eq_true_eq]
  grind

/-- **The two readers of a patch agree** on the paths that are UTF-8.  The trace reports a
file without an old side as added, one without a new side as deleted, a rename as one of
each, and any other as modified; of a path that is no UTF-8 it keeps Git's token. -/
theorem patch_readers_agree (named : Str → Option Nat) (changes : List Change)
    (hgit : ∀ c ∈ changes, c.ModesAgree) (hclear : ∀ c ∈ changes, c.HeaderClear) :
    parseWorktreeDiff named (writePatch true changes) = changes.flatMap Change.report ∧
      ((∀ c ∈ changes, c.Utf8) → ∃ paths, patchPaths (writePatch true changes) = some paths ∧
        ∀ path, path ∈ paths ↔
          path ∈ (parseWorktreeDiff named (writePatch true changes)).map Prod.fst) := by
  have hparse := @parseWorktreeDiff_written named changes fun c hc => ⟨hgit c hc, hclear c hc⟩
  refine ⟨hparse, fun hutf8 => ?_⟩
  obtain ⟨paths, hpaths, -⟩ := mem_patchPaths [] (patchEntries_writePatch changes)
  refine ⟨paths, hpaths, fun path => ?_⟩
  obtain ⟨same, hsame, hmem⟩ := mem_patchPaths path (patchEntries_writePatch changes)
  obtain rfl := Option.some.inj (hpaths.symm.trans hsame)
  rw [hmem, hparse, List.map_flatMap, List.mem_flatMap]
  simp only [List.mem_map, exists_exists_and_eq_and]
  constructor
  · rintro ⟨c, hc, hentry⟩
    exact ⟨c, hc, List.mem_map.mp ((mem_entry_iff (hutf8 c hc) path).mp hentry)⟩
  · rintro ⟨c, hc, hreport⟩
    exact ⟨c, hc, (mem_entry_iff (hutf8 c hc) path).mpr (List.mem_map.mpr hreport)⟩

theorem highByte_ne_nil : [255] ≠ ([] : List Nat) := by
  decide

theorem highByte_small : ∀ b ∈ [255], b < 256 := by
  decide

theorem newFileMode_known : "new file mode " ∈ extendedKeywords := by
  decide

theorem newFileMode_oneLine : 10 ∉ ascii "100644" := by
  decide

/-- An added file whose name is a byte that is no UTF-8. -/
def addedByte : Change where
  kind := .add ⟨[255], highByte_ne_nil, highByte_small⟩
  before := [⟨"new file mode ", newFileMode_known, ascii "100644", newFileMode_oneLine⟩]
  after := []
  content := .none

/-- An addition, a deletion and a rename, whose sides the trace reports apart. -/
theorem patch_readers_agree_sample :
    (∃ paths, patchPaths (writePatch true [addedEmpty, deletedEmpty, renamedFile]) = some paths ∧
      ∀ path, path ∈ paths ↔ path ∈ (parseWorktreeDiff (fun _ => none)
        (writePatch true [addedEmpty, deletedEmpty, renamedFile])).map Prod.fst) ∧
    parseWorktreeDiff (fun _ => none) (writePatch true [addedEmpty, deletedEmpty, renamedFile]) =
      [([120], .added), ([121], .deleted), ([111], .deleted), ([110], .added)] := by
  have hmodes : ∀ c ∈ [addedEmpty, deletedEmpty, renamedFile], c.ModesAgree := by
    simp only [List.forall_mem_cons, List.not_mem_nil, false_implies, implies_true, and_true]
    refine ⟨⟨iff_of_true (by decide) ⟨_, rfl⟩, iff_of_false (by decide) ?_⟩,
      ⟨iff_of_false (by decide) ?_, iff_of_true (by decide) ⟨_, rfl⟩⟩,
      ⟨iff_of_false (by decide) ?_, iff_of_false (by decide) ?_⟩⟩ <;>
    · rintro ⟨path, hpath⟩
      cases hpath
  have hclear : ∀ c ∈ [addedEmpty, deletedEmpty, renamedFile], c.HeaderClear := by
    simp only [List.forall_mem_cons, List.not_mem_nil, false_implies, implies_true, and_true]
    exact ⟨.inr (.inr (by decide)), .inr (.inr (by decide)), .inr (.inl ⟨_, _, rfl⟩)⟩
  have hutf8 : ∀ c ∈ [addedEmpty, deletedEmpty, renamedFile], c.Utf8 := by
    simp only [List.forall_mem_cons, List.not_mem_nil, false_implies, implies_true, and_true]
    exact ⟨⟨⟨[120], by decide, by decide⟩, ⟨[120], by decide, by decide⟩⟩,
      ⟨⟨[121], by decide, by decide⟩, ⟨[121], by decide, by decide⟩⟩,
      ⟨⟨[111], by decide, by decide⟩, ⟨[110], by decide, by decide⟩⟩⟩
  obtain ⟨hreport, hpaths⟩ := patch_readers_agree (fun _ => none) _ hmodes hclear
  exact ⟨hpaths hutf8, by rw [hreport]; decide⟩

/-- **A path that is no UTF-8** is one thing to the one reader and another to the other. -/
theorem patch_readers_disagree :
    ¬∀ (named : Str → Option Nat) (changes : List Change), (∀ c ∈ changes, c.ModesAgree) →
      ∃ paths, patchPaths (writePatch true changes) = some paths ∧
        ∀ path, path ∈ paths ↔
          path ∈ (parseWorktreeDiff named (writePatch true changes)).map Prod.fst := by
  intro h
  obtain ⟨paths, hpaths, hmem⟩ := h (fun _ => none) [addedByte] (by
    rw [List.forall_mem_singleton]
    refine ⟨iff_of_true (by decide) ⟨_, rfl⟩, iff_of_false (by decide) ?_⟩
    rintro ⟨path, hpath⟩
    cases hpath)
  have hread : patchPaths (writePatch true [addedByte]) = some [[0xDC00 + 255]] := by decide +kernel
  have hparse : (parseWorktreeDiff (fun _ => none) (writePatch true [addedByte])).map Prod.fst =
      [quote :: (ascii "b/\\377" ++ [quote])] := by decide +kernel
  obtain rfl := Option.some.inj (hpaths.symm.trans hread)
  rw [hparse] at hmem
  have hone := (hmem [0xDC00 + 255]).mp List.mem_cons_self
  revert hone
  decide

end OpenCollab.PatchPaths
