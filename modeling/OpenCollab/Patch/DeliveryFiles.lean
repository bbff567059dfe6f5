import OpenCollab.Patch.SchedulerDiff

/-!
# OpenCollab.Patch.DeliveryFiles

The text of a working tree (`adapters/working_tree.py`) and the files that the scheduler's
delivery snapshot reads from it (`application/_scheduler_delivery_tree.py`).

The text joins Git's status, the patch of the tracked files and, under a title each, those
of the untracked ones.  The reader takes it apart at every character that ends a line for
Python, and cuts a header at the first `" b/"`.

* `headerLines_line` — what stands behind a line feed is read by itself;
* `headerLines_text` — the lines that are read as headers: those of the changes, and the
  forged ones between them.
-/

namespace OpenCollab.PatchPaths

open Lib

/-! ## the text of a working tree -/

/-- `MAX_WORKING_TREE_DIFF_CHARS`. -/
def maxWorkingTreeDiffChars : Nat := 1000000

/-- `text.rstrip("\n")`. -/
def rstripLf (text : Str) : Str := (text.reverse.dropWhile (· = 10)).reverse

/-- `"\n\n".join(parts)`. -/
def joinParts : List Str → Str
  | [] => []
  | [part] => part
  | part :: next :: parts => part ++ [10, 10] ++ joinParts (next :: parts)

/-- A line of `git status --porcelain=v1`: two letters, and paths in quotes where they
need them. -/
structure StatusLine where
  code : Str
  letters : ∀ c ∈ code, c ∈ ascii " MADRCUT?!"
  nonempty : code ≠ []
  text : Str
  printable : ∀ c ∈ text, 32 ≤ c ∧ c < 127

def StatusLine.line (s : StatusLine) : Str := s.code ++ s.text ++ [10]

/-- What Git prints about a working tree.  A file that is not tracked has its path as
`ls-files -z` prints it. -/
structure Probed where
  status : List StatusLine
  revision : Str
  tracked : List Change
  untracked : List (Str × List Change)

def statusTitle : Str := ascii "[Working tree status]"

def trackedTitle (revision : Str) : Str := ascii "[Tracked changes vs " ++ revision ++ ascii "]"

def untrackedTitle (path : Str) : Str := ascii "[Untracked file: " ++ path ++ ascii "]"

/-- A title and what is printed under it. -/
def titled (title body : Str) : Str := title ++ [10] ++ body

/-- `text or other`. -/
def orElse (text other : Str) : Str := if text = [] then other else text

/-- The parts of the text. -/
def Probed.parts (p : Probed) : List Str :=
  let status := rstripLf (p.status.map StatusLine.line).flatten
  let tracked := rstripLf (writePatch true p.tracked)
  titled statusTitle (orElse status (ascii "(clean)")) ::
    ((if tracked = [] then [] else [titled (trackedTitle p.revision) tracked]) ++
      p.untracked.map fun (path, patch) => titled (untrackedTitle path)
        (orElse (rstripLf (writePatch true patch)) (ascii "(empty file; no content diff)")))

/-- `append_complete`; `none`: the text would be too long, and the call raises. -/
def appendComplete (state : List Str × Nat) (part : Str) : Option (List Str × Nat) :=
  let total := state.2 + (if state.1 = [] then 0 else 2) + part.length
  if maxWorkingTreeDiffChars < total then none else some (state.1 ++ [part], total)

/-- `EnvWorkingTreeProbe.diff`, from what Git prints. -/
def workingTreeDiff (p : Probed) : Option Str :=
  (p.parts.foldlM appendComplete ([], 0)).map fun state => joinParts state.1

/-! ## the reader -/

/-- The characters that end a line for `str.splitlines`. -/
def isLineBreak (c : Nat) : Bool :=
  c = 10 || c = 11 || c = 12 || c = 13 || c = 0x1C || c = 0x1D || c = 0x1E || c = 0x85 ||
    c = 0x2028 || c = 0x2029

/-- `text.splitlines()` of what stands behind a carriage return, or not. -/
def splitlinesFrom : (afterReturn : Bool) → Str → List Str
  | _, [] => []
  | afterReturn, c :: rest =>
      if afterReturn && c = 10 then splitlinesFrom false rest
      else if isLineBreak c then [] :: splitlinesFrom (c = 13) rest
      else match splitlinesFrom false rest with
        | [] => [[c]]
        | line :: lines => (c :: line) :: lines

/-- The lines that start with `diff --git `. -/
def headerLines (text : Str) : List Str :=
  (splitlinesFrom false text).filter (diffHeader.isPrefixOf ·)

/-- `line.split(" b/", 1)[1]`. -/
def cutName (line : Str) : Option Str :=
  (find (ascii " b/") line).map fun start => line.drop (start + 3)

/-- `_delivery_diff_files`: a path that is listed is not listed again. -/
def deliveryDiffFiles (text : Str) : List Str := ((headerLines text).filterMap cutName).eraseDups

/-! ## lines -/

theorem splitlinesFrom_ne_nil {text : Str} (h : text ≠ []) : splitlinesFrom false text ≠ [] := by
  obtain ⟨c, rest, rfl⟩ := List.exists_cons_of_ne_nil h
  rw [splitlinesFrom, Bool.false_and, if_neg Bool.false_ne_true]
  split
  · exact List.cons_ne_nil _ _
  · split <;> exact List.cons_ne_nil _ _

/-- A line feed ends the line before it, and an empty line at most. -/
theorem splitlinesFrom_append (afterReturn : Bool) (front back : Str) :
    ∃ between : List Str, (∀ line ∈ between, line = []) ∧
      splitlinesFrom afterReturn (front ++ 10 :: back) =
        splitlinesFrom afterReturn front ++ between ++ splitlinesFrom false back := by
  induction front generalizing afterReturn with
  | nil =>
      cases afterReturn with
      | false => exact ⟨[[]], by simp, rfl⟩
      | true => exact ⟨[], by simp, rfl⟩
  | cons c front ih =>
      rw [List.cons_append, splitlinesFrom, splitlinesFrom]
      split
      · exact ih false
      · split
        · obtain ⟨between, hempty, heq⟩ := ih (c = 13)
          refine ⟨between, hempty, ?_⟩
          rw [heq]
          rfl
        · cases front with
          | nil => exact ⟨[], by simp, rfl⟩
          | cons d front =>
              obtain ⟨between, hempty, heq⟩ := ih false
              obtain ⟨line, lines, hlines⟩ := List.exists_cons_of_ne_nil
                (splitlinesFrom_ne_nil (List.cons_ne_nil d front))
              refine ⟨between, hempty, ?_⟩
              rw [heq, hlines]
              rfl

/-- **What stands behind a line feed is read by itself.** -/
theorem headerLines_line (front back : Str) :
    headerLines (front ++ 10 :: back) = headerLines front ++ headerLines back := by
  obtain ⟨between, hempty, heq⟩ := splitlinesFrom_append false front back
  have hnone : between.filter (diffHeader.isPrefixOf ·) = [] := by
    rw [List.filter_eq_nil_iff]
    intro line hline
    rw [hempty line hline]
    decide
  rw [headerLines, heq, List.filter_append, List.filter_append, hnone, List.append_nil]
  rfl

theorem headerLines_nil : headerLines [] = [] := rfl

theorem headerLines_lf (text : Str) : headerLines (10 :: text) = headerLines text :=
  headerLines_line [] text

/-- Stripped line feeds hide no header. -/
theorem headerLines_rstripLf (text : Str) : headerLines (rstripLf text) = headerLines text := by
  have hsplit : text = rstripLf text ++ (text.reverse.takeWhile (· = 10)).reverse := by
    rw [rstripLf, ← List.reverse_append, List.takeWhile_append_dropWhile, List.reverse_reverse]
  have hfeeds : ∀ feeds : Str, (∀ c ∈ feeds, c = 10) → ∀ front,
      headerLines (front ++ feeds) = headerLines front := by
    intro feeds
    induction feeds with
    | nil => exact fun _ front => by rw [List.append_nil]
    | cons c feeds ih =>
        intro hall front
        rw [List.forall_mem_cons] at hall
        have hrest := ih hall.2 []
        rw [List.nil_append] at hrest
        rw [hall.1, headerLines_line, hrest, headerLines_nil, List.append_nil]
  conv_rhs => rw [hsplit]
  refine (hfeeds _ (fun c hc => ?_) _).symm
  rw [List.mem_reverse] at hc
  exact of_decide_eq_true (List.all_eq_true.mp List.all_takeWhile c hc)

/-- The lines of a text are read one by one. -/
theorem headerLines_flatten {lines : List Str} (h : ∀ line ∈ lines, IsLine line) :
    headerLines lines.flatten = lines.flatMap fun line => headerLines line.dropLast := by
  induction lines with
  | nil => rfl
  | cons line lines ih =>
      rw [List.forall_mem_cons] at h
      obtain ⟨⟨text, -, rfl⟩, hlines⟩ := h
      rw [List.flatten_cons, List.append_assoc, List.singleton_append, headerLines_line, ih hlines,
        List.flatMap_cons, List.dropLast_concat]

/-- A text without line breaks is one line. -/
theorem splitlinesFrom_printable {text : Str} (hne : text ≠ []) (h : ∀ c ∈ text, 32 ≤ c ∧ c < 127) :
    splitlinesFrom false text = [text] := by
  induction text with
  | nil => contradiction
  | cons c text ih =>
      rw [List.forall_mem_cons] at h
      have hbreak : isLineBreak c = false := by
        simp only [isLineBreak, Bool.or_eq_false_iff, decide_eq_false_iff_not]
        omega
      rw [splitlinesFrom, Bool.false_and, if_neg Bool.false_ne_true, hbreak,
        if_neg Bool.false_ne_true]
      cases text with
      | nil => rfl
      | cons d text => rw [ih (List.cons_ne_nil _ _) h.2]

theorem headerLines_printable {text : Str} (hne : text ≠ []) (h : ∀ c ∈ text, 32 ≤ c ∧ c < 127) :
    headerLines text = if diffHeader.isPrefixOf text then [text] else [] := by
  rw [headerLines, splitlinesFrom_printable hne h, List.filter_cons, List.filter_nil]

/-! ## the text, read -/

/-- A header of the text, or a line that only looks like one. -/
inductive Mark where
  | header (c : Change)
  | forged (line : Str)

/-- The line of a mark. -/
def Mark.line : Mark → Str
  | .header c => cutHeader c.kind.oldPath c.kind.newPath
  | .forged line => line

/-- The marks of a change: its header, and what its other lines are read as. -/
def Change.marks (c : Change) : List Mark :=
  .header c :: ((c.body true).flatMap fun line => headerLines line.dropLast).map Mark.forged

/-- What the text is read as. -/
def Probed.marks (p : Probed) : List Mark :=
  (if p.tracked = [] then []
    else (headerLines (trackedTitle p.revision)).map Mark.forged ++
      p.tracked.flatMap Change.marks) ++
    p.untracked.flatMap fun (path, patch) =>
      (headerLines (untrackedTitle path)).map Mark.forged ++ patch.flatMap Change.marks

theorem map_forged (lines : List Str) : (lines.map Mark.forged).map Mark.line = lines := by
  rw [List.map_map]
  exact List.map_id _

theorem headerLines_cutHeader (oldPath newPath : Path) :
    headerLines (cutHeader oldPath newPath) = [cutHeader oldPath newPath] := by
  have hstart : ∀ c ∈ diffHeader, 32 ≤ c ∧ c < 127 := by decide
  have hprintable : ∀ c ∈ cutHeader oldPath newPath, 32 ≤ c ∧ c < 127 := by
    intro c hc
    simp only [cutHeader, List.mem_append, List.mem_singleton] at hc
    obtain ((hc | hc) | rfl) | hc := hc
    · exact hstart c hc
    · exact printable_token c hc
    · decide
    · exact printable_token c hc
  have hprefix : diffHeader.isPrefixOf (cutHeader oldPath newPath) = true := by
    rw [cutHeader, List.append_assoc, List.append_assoc]
    exact List.isPrefixOf_iff_prefix.mpr (List.prefix_append _ _)
  have hne : cutHeader oldPath newPath ≠ [] := List.append_ne_nil_of_right_ne_nil _ token_ne_nil
  rw [headerLines_printable hne hprintable, hprefix, if_pos rfl]

/-- **The lines of a patch**: a header for each change, and the forged ones. -/
theorem headerLines_writePatch (changes : List Change) :
    headerLines (writePatch true changes) = (changes.flatMap Change.marks).map Mark.line := by
  have hlines : ∀ line ∈ changes.flatMap (Change.lines true), IsLine line := by
    intro line hline
    obtain ⟨c, -, hmem⟩ := List.mem_flatMap.mp hline
    exact c.isLine line hmem
  have hheader : ∀ c : Change, (writeHeader c.kind.oldPath c.kind.newPath).dropLast =
      cutHeader c.kind.oldPath c.kind.newPath := fun c => List.dropLast_concat
  have hchange : ∀ c : Change, ((c.lines true).flatMap fun line => headerLines line.dropLast) =
      c.marks.map Mark.line := by
    intro c
    rw [Change.lines, nameHeader_true, List.flatMap_cons, hheader, headerLines_cutHeader,
      Change.marks, List.map_cons, map_forged]
    rfl
  rw [writePatch, headerLines_flatten hlines, List.flatMap_assoc, List.map_flatMap]
  simp only [hchange]

theorem headerLines_titled (title body : Str) :
    headerLines (titled title body) = headerLines title ++ headerLines body := by
  rw [titled, List.append_assoc]
  exact headerLines_line title body

theorem headerLines_joinParts (parts : List Str) :
    headerLines (joinParts parts) = parts.flatMap headerLines := by
  induction parts with
  | nil => rfl
  | cons part parts ih =>
      cases parts with
      | nil => rw [joinParts, List.flatMap_cons, List.flatMap_nil, List.append_nil]
      | cons next parts =>
          have hblank : part ++ [10, 10] ++ joinParts (next :: parts) =
              part ++ 10 :: (10 :: joinParts (next :: parts)) := by
            rw [List.append_assoc]
            rfl
          rw [joinParts, hblank, headerLines_line, headerLines_lf, ih,
            List.flatMap_cons (x := part)]

theorem headerLines_orElse {text other : Str} (h : headerLines other = []) :
    headerLines (orElse text other) = headerLines text := by
  rw [orElse]
  split
  · rename_i hnil
    rw [hnil, h, headerLines_nil]
  · rfl

/-- Git's status is not read. -/
theorem headerLines_status (status : List StatusLine) :
    headerLines (status.map StatusLine.line).flatten = [] := by
  have hline : ∀ line ∈ status.map StatusLine.line, IsLine line ∧
    headerLines line.dropLast = [] := by
    intro line hline
    obtain ⟨s, -, rfl⟩ := List.mem_map.mp hline
    have hletters : ∀ c ∈ ascii " MADRCUT?!", (32 ≤ c ∧ c < 127) ∧ c ≠ 100 := by decide
    have hprintable : ∀ c ∈ s.code ++ s.text, 32 ≤ c ∧ c < 127 := by
      intro c hc
      obtain hc | hc := List.mem_append.mp hc
      · exact (hletters c (s.letters c hc)).1
      · exact s.printable c hc
    refine ⟨⟨s.code ++ s.text, ?_, rfl⟩, ?_⟩
    · intro hmem
      have := hprintable 10 hmem
      omega
    · rw [StatusLine.line, List.dropLast_concat, headerLines_printable
        (List.append_ne_nil_of_left_ne_nil s.nonempty _) hprintable, if_neg]
      obtain ⟨c, code, hcode⟩ := List.exists_cons_of_ne_nil s.nonempty
      have hfirst := (hletters c (s.letters c (hcode ▸ List.mem_cons_self))).2
      have hd : diffHeader = 100 :: ascii "iff --git " := by decide
      rw [hcode, List.cons_append, List.isPrefixOf_iff_prefix, hd, List.cons_prefix_cons]
      exact fun h => hfirst h.1.symm
  rw [headerLines_flatten fun line h => (hline line h).1, List.flatMap_eq_nil_iff]
  exact fun line h => (hline line h).2

/-- The parts are taken one by one, or the text is too long. -/
theorem foldlM_appendComplete {parts taken : List Str} {total : Nat} {state : List Str × Nat}
    (h : parts.foldlM appendComplete (taken, total) = some state) : state.1 = taken ++ parts := by
  induction parts generalizing taken total with
  | nil =>
      rw [List.foldlM_nil] at h
      obtain rfl := Option.some.inj h
      rw [List.append_nil]
  | cons part parts ih =>
      rw [List.foldlM_cons, Option.bind_eq_bind, Option.bind_eq_some_iff] at h
      obtain ⟨next, hnext, hrest⟩ := h
      have htaken : next = (taken ++ [part], next.2) := by
        rw [appendComplete] at hnext
        generalize (if (taken, total).1 = [] then 0 else 2) = separator at hnext
        dsimp only at hnext
        split at hnext
        · contradiction
        · rw [← Option.some.inj hnext]
      rw [htaken] at hrest
      rw [ih hrest, List.append_assoc, List.singleton_append]

/-- **The lines of the text that are read as headers** are those of its marks. -/
theorem headerLines_text {p : Probed} {text : Str} (h : workingTreeDiff p = some text) :
    headerLines text = p.marks.map Mark.line := by
  rw [workingTreeDiff, Option.map_eq_some_iff] at h
  obtain ⟨state, hstate, rfl⟩ := h
  have hstatus : headerLines statusTitle = [] := by decide
  have hclean : headerLines (ascii "(clean)") = [] := by decide
  have hempty : headerLines (ascii "(empty file; no content diff)") = [] := by decide
  have hnone : rstripLf (writePatch true p.tracked) = [] ↔ p.tracked = [] := by
    constructor
    · intro hnil
      cases htracked : p.tracked with
      | nil => rfl
      | cons c changes =>
          have hread := headerLines_rstripLf (writePatch true p.tracked)
          rw [hnil, headerLines_writePatch, htracked, List.flatMap_cons, Change.marks] at hread
          contradiction
    · intro hnil
      rw [hnil]
      rfl
  rw [foldlM_appendComplete hstate, List.nil_append, headerLines_joinParts, Probed.parts,
    List.flatMap_cons, headerLines_titled, hstatus, headerLines_orElse hclean, headerLines_rstripLf,
    headerLines_status, List.nil_append, List.nil_append, List.flatMap_append, Probed.marks,
    List.map_append]
  congr 1
  · simp only [hnone]
    split
    · rfl
    · rw [List.flatMap_cons, List.flatMap_nil, List.append_nil, headerLines_titled,
        headerLines_rstripLf, headerLines_writePatch, List.map_append, map_forged]
  · rw [List.flatMap_map, List.map_flatMap]
    refine List.flatMap_congr fun file _ => ?_
    rw [headerLines_titled, headerLines_orElse hempty, headerLines_rstripLf, headerLines_writePatch,
      List.map_append, map_forged]

end OpenCollab.PatchPaths
