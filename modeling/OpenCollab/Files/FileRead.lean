import OpenCollab.Files.TextRange
import OpenCollab.Tools.Output

/-!
# OpenCollab.Files.FileRead

`adapters/tools/fs.py`, `FileReadTool`: a page of numbered rows, and the offset at which
the next page starts.

A page is rendered from a window that one of two readers delivers, the range reader of
`OpenCollab.Files.TextRange` or the whole file cut into lines.  The rows have a budget of
their own (`numberRows`), which a window that was cut for its characters has always
used up:

* `truncateRow_eq` — a row above the limit is shown within it;
* `Page.body_footer` — the text of a page ends with the offset its footer names;
* `renderPage_window` — both readers give the same page;
* `wholePage_shown` — a page shows a non-empty stretch of the rows, and its footer names
  the first row that is missing;
* `readPages_from` — following the footers shows every line once and ends.
-/

namespace OpenCollab.Files

open Patch (Text normalizeNewlines splitLines)

/-! ## truncation -/

/-- `truncate(row, max_read_chars)`.  It returns for every positive limit (`truncateRow_eq`). -/
def truncateRow (row : Text) (maxReadChars : Nat) : Text :=
  match Tools.truncate (row.length + 1) (String.ofList row) maxReadChars none with
  | some (.ok shown) => shown.toList
  | _ => []

/-- **A row that is too long** is shown within the limit, whatever rounds are granted. -/
theorem truncateRow_eq {row : Text} {maxReadChars : Nat} (hlimit : 0 < maxReadChars) :
    (∀ rounds, row.length < rounds →
      Tools.truncate rounds (String.ofList row) maxReadChars none =
        some (.ok (String.ofList (truncateRow row maxReadChars)))) ∧
    (truncateRow row maxReadChars).length ≤ maxReadChars := by
  have hlength : (String.ofList row).length = row.length := String.length_ofList
  obtain ⟨shown, hreturns, hle⟩ : ∃ shown : String, (∀ rounds, row.length < rounds →
      Tools.truncate rounds (String.ofList row) maxReadChars none = some (.ok shown)) ∧
      shown.length ≤ maxReadChars := by
    cases Nat.lt_or_ge maxReadChars (String.ofList row).length with
    | inr hfits => exact ⟨_, fun rounds _ => Tools.truncate_short hlimit hfits rounds, hfits⟩
    | inl hlong =>
        obtain ⟨dropped, shown, -, hreturns, -, -, hle⟩ :=
          @Tools.truncate_long (String.ofList row) maxReadChars none hlimit hlong
        exact ⟨shown, fun rounds hrounds => hreturns rounds (hlength ▸ hrounds), hle⟩
  have hrow : truncateRow row maxReadChars = shown.toList := by
    rw [truncateRow, hreturns _ (Nat.lt_succ_self _)]
  rw [hrow, String.ofList_toList]
  exact ⟨hreturns, by rwa [String.length_toList]⟩

/-! ## a page -/

/-- `f"{number}\t{line}"`. -/
def numberedRow (number : Nat) (line : Text) : Text := (toString number).toList ++ '\t' :: line

/-- The budgeting loop: the rows from `number` on, and whether the only one is truncated. -/
def numberRows (maxReadChars : Nat) (charsTruncated : Bool) (number : Nat) (numbered : List Text)
    (charsUsed : Nat) : List Text → List Text × Bool
  | [] => (numbered, false)
  | line :: selected =>
      let row := numberedRow number line
      let rowChars := row.length + (if numbered = [] then 0 else 1)
      let partialLine := charsTruncated ∧ selected = []
      if maxReadChars < charsUsed + rowChars ∨ partialLine then
        if numbered = [] then ([truncateRow row maxReadChars], true) else (numbered, false)
      else numberRows maxReadChars charsTruncated (number + 1) (numbered ++ [row])
        (charsUsed + rowChars) selected

/-- A page as it is put into the text of the result; `continuation` is the offset that its
footer names, if it has one. -/
structure Page where
  rows : List Text
  showingFrom : Nat
  showingTo : Nat
  totalLines : Option Nat
  singleLineTruncated : Bool
  hasMore : Bool
deriving DecidableEq, Repr

/-- The offset named in the footer, if the page has one. -/
def Page.continuation (page : Page) : Option Nat :=
  if page.hasMore ∧ page.singleLineTruncated = false then some (page.showingTo + 1) else none

/-- The page of a window. -/
def renderPage (maxReadChars : Nat) (window : TextFileRange) : Page :=
  let start := window.startLine - 1
  let (numbered, singleLineTruncated) :=
    numberRows maxReadChars window.charsTruncated (start + 1) [] 0 window.lines
  { rows := numbered
    showingFrom := start + 1
    showingTo := start + numbered.length
    totalLines := window.totalLines
    singleLineTruncated := singleLineTruncated
    hasMore := window.hasMore || numbered.length < window.lines.length }

/-- The text of the result. -/
def Page.body (page : Page) (path : Text) (maxReadChars : Nat) : Text :=
  let showing := s!"showing {page.showingFrom}-{page.showingTo}"
  let total := match page.totalLines with
    | none => "total not scanned"
    | some total => s!"{total} lines total"
  let header := "File: ".toList ++ path ++ s!" ({total}, {showing})".toList
  let truncated := if page.singleLineTruncated then
      s!"\n... line {page.showingFrom} was character-truncated at the " ++
        s!"{maxReadChars}-character read limit. Reading this entire " ++
        "numbered line requires a larger max_read_chars setting. Use grep " ++
        "to locate relevant text."
    else ""
  let remaining := match page.totalLines with
    | none => "more lines below (total not scanned)"
    | some total =>
        let left := (total : Int) - page.showingTo
        s!"{left} more lines below"
  let footer := match page.continuation with
    | none => ""
    | some next =>
        s!"\n... {remaining} ({showing}). Continue with " ++
          s!"offset={next}, or use the grep tool to jump to a symbol."
  header ++ '\n' :: ['\n'].intercalate page.rows ++ truncated.toList ++ footer.toList

/-- The text of a page with rows behind it ends with the offset of the first of them. -/
theorem Page.body_footer {page : Page} {next : Nat} (h : page.continuation = some next)
    (path : Text) (maxReadChars : Nat) :
    s!"offset={next}, or use the grep tool to jump to a symbol.".toList <:+
      page.body path maxReadChars := by
  unfold Page.body
  rw [h]
  dsimp only
  exact List.IsSuffix.trans ⟨_, String.toList_append.symm⟩ (List.suffix_append _ _)

/-- The window of an environment that has no range reader: the whole file, cut into lines. -/
def wholeWindow (content : Text) (offset limit : Nat) : TextFileRange :=
  let lines := (splitLines (normalizeNewlines content)).1
  let start := offset - 1
  let stop := min lines.length (start + limit)
  ⟨(lines.take stop).drop start, start + 1, some lines.length, stop < lines.length, false⟩

/-- Which reader an environment has; the range reader counts to the end of small files. -/
inductive Reader where
  | range (countToEof : Bool)
  | whole
deriving DecidableEq, Repr

/-- `FileReadTool.execute_with_runtime`, on a file that can be read.  A file is opened with
universal newlines. -/
def fileRead (reader : Reader) (maxReadChars : Nat) (content : Text) (offset limit : Nat) : Page :=
  renderPage maxReadChars <| match reader with
    | .range countToEof =>
        readTextRange (normalizeNewlines content) offset limit maxReadChars countToEof
    | .whole => wholeWindow content offset limit

/-- Repeated reading, from an offset on, with the offset each footer names: the rows shown,
unless `fuel` pages do not suffice. -/
def readPages (reader : Reader) (maxReadChars : Nat) (content : Text) (limit : Nat) :
    Nat → Nat → Option (List Text)
  | 0, _ => none
  | fuel + 1, offset =>
      let page := fileRead reader maxReadChars content offset limit
      match page.continuation with
      | none => some page.rows
      | some next =>
          (readPages reader maxReadChars content limit fuel next).map (page.rows ++ ·)

/-- Lines with their numbers, from `number` on. -/
def numberFrom (number : Nat) : List Text → List Text
  | [] => []
  | line :: lines => numberedRow number line :: numberFrom (number + 1) lines

/-- The numbered rows of a file. -/
def fileRows (content : Text) : List Text := numberFrom 1 (linesOf (normalizeNewlines content))

/-- Each numbered row fits in the budget. -/
def RowsFit (maxReadChars : Nat) (content : Text) : Prop :=
  ∀ row ∈ fileRows content, row.length ≤ maxReadChars

instance (maxReadChars : Nat) (content : Text) : Decidable (RowsFit maxReadChars content) :=
  inferInstanceAs (Decidable (∀ _ ∈ _, _))

/-! ## rows -/

theorem numberFrom_append (number : Nat) (xs ys : List Text) :
    numberFrom number (xs ++ ys) = numberFrom number xs ++ numberFrom (number + xs.length) ys := by
  induction xs generalizing number with
  | nil => rfl
  | cons x xs ih =>
      simp only [List.cons_append, numberFrom, ih, List.length_cons]
      rw [Nat.add_right_comm]
      rfl

theorem length_numberFrom (number : Nat) (lines : List Text) :
    (numberFrom number lines).length = lines.length := by
  induction lines generalizing number with
  | nil => rfl
  | cons line lines ih => simp [numberFrom, ih]

/-- A row is longer than its line by a digit and a tab at least. -/
theorem length_numberedRow (number : Nat) (line : Text) :
    line.length + 2 ≤ (numberedRow number line).length := by
  have hdigits : 0 < (toString number).toList.length := by
    rw [Nat.toString_eq_ofList_toDigits, String.toList_ofList]
    exact Nat.length_toDigits_pos
  simp only [numberedRow, List.length_append, List.length_cons]
  omega

/-- The first row of a page fits. -/
def FirstFits (maxReadChars number : Nat) (lines : List Text) : Prop :=
  ∀ line, lines.head? = some line → (numberedRow number line).length ≤ maxReadChars

/-- **The budget** shows a stretch of the rows, and none only of no lines. -/
theorem numberRows_shown {maxReadChars number charsUsed : Nat} {numbered lines : List Text}
    (hfirst : numbered = [] → charsUsed = 0 ∧ FirstFits maxReadChars number lines) :
    ∃ shown ≤ lines.length,
      numberRows maxReadChars false number numbered charsUsed lines
        = (numbered ++ numberFrom number (lines.take shown), false) ∧
      (numbered = [] → lines ≠ [] → 1 ≤ shown) := by
  induction lines generalizing number charsUsed numbered with
  | nil => exact ⟨0, Nat.le_refl _, by simp [numberRows, numberFrom], fun _ h => absurd rfl h⟩
  | cons line lines ih =>
      simp only [numberRows, Bool.false_eq_true, false_and, or_false]
      by_cases hover : maxReadChars
          < charsUsed + ((numberedRow number line).length + if numbered = [] then 0 else 1)
      · have hne : numbered ≠ [] := by
          intro hnil
          obtain ⟨hused, hfits⟩ := hfirst hnil
          have := hfits line rfl
          simp only [hnil, if_true] at hover
          omega
        refine ⟨0, Nat.zero_le _, ?_, fun hnil => absurd hnil hne⟩
        rw [if_pos hover, if_neg hne]
        simp [numberFrom]
      · rw [if_neg hover]
        have hne : numbered ++ [numberedRow number line] ≠ [] := by simp
        obtain ⟨shown, hshown, hrows, -⟩ := @ih (number + 1)
          (charsUsed + ((numberedRow number line).length + if numbered = [] then 0 else 1))
          (numbered ++ [numberedRow number line]) (fun h => absurd h hne)
        refine ⟨shown + 1, Nat.succ_le_succ hshown, ?_, fun _ _ => Nat.succ_pos _⟩
        rw [hrows]
        simp [numberFrom]

/-- A line that is not cut off is weighed alike in every window. -/
theorem numberRows_cons (maxReadChars number charsUsed : Nat) {charsTruncated : Bool}
    (numbered : List Text) (line : Text) {selected : List Text}
    (h : charsTruncated = true → selected ≠ []) :
    numberRows maxReadChars charsTruncated number numbered charsUsed (line :: selected)
      = if maxReadChars
            < charsUsed + ((numberedRow number line).length + if numbered = [] then 0 else 1) then
          if numbered = [] then ([truncateRow (numberedRow number line) maxReadChars], true)
          else (numbered, false)
        else numberRows maxReadChars charsTruncated (number + 1)
          (numbered ++ [numberedRow number line])
          (charsUsed + ((numberedRow number line).length + if numbered = [] then 0 else 1))
          selected := by
  have hnot : ¬ (charsTruncated = true ∧ selected = []) := fun hboth => h hboth.1 hboth.2
  rw [numberRows]
  simp only [hnot, or_false]

/-- **A window that was cut** gives the rows of the lines it was cut from: they use up the
budget before its last line is reached, so that some line is left. -/
theorem numberRows_cut {maxReadChars number charsUsed : Nat} {numbered selected lines : List Text}
    (hfirst : numbered = [] → charsUsed = 0 ∧ FirstFits maxReadChars number lines)
    (hne : selected ≠ []) (hlength : selected.length ≤ lines.length)
    (hfront : selected.dropLast = lines.take (selected.length - 1))
    (hchars : maxReadChars + (if numbered = [] then 1 else 0)
      < charsUsed + ((lines.take selected.length).map fun line => line.length + 3).sum) :
    numberRows maxReadChars true number numbered charsUsed selected
        = numberRows maxReadChars false number numbered charsUsed lines ∧
      (numberRows maxReadChars false number numbered charsUsed lines).1.length
        < numbered.length + lines.length := by
  induction selected generalizing number charsUsed numbered lines with
  | nil => exact absurd rfl hne
  | cons line selected ih =>
      cases lines with
      | nil => simp at hlength
      | cons first lines =>
          have hrow := length_numberedRow number first
          cases selected with
          | nil =>
              simp only [List.length_singleton, List.take_succ_cons, List.take_zero, List.map_cons,
                List.map_nil, List.sum_cons, List.sum_nil, Nat.add_zero] at hchars
              have hnumbered : numbered ≠ [] := by
                intro hnil
                obtain ⟨hused, hfits⟩ := hfirst hnil
                have := hfits first rfl
                simp only [hnil, if_true] at hchars
                omega
              simp only [numberRows, hnumbered, if_false, and_self, or_true, if_true,
                Bool.false_eq_true, false_and, or_false] at hchars ⊢
              rw [if_pos (by omega)]
              simp
          | cons next selected =>
              simp only [List.dropLast_cons_cons, List.length_cons, Nat.add_sub_cancel,
                List.take_succ_cons, List.cons.injEq] at hfront
              obtain ⟨rfl, hrest⟩ := hfront
              rw [numberRows_cons maxReadChars number charsUsed numbered line
                  (fun _ => List.cons_ne_nil next selected),
                numberRows_cons maxReadChars number charsUsed numbered line
                  (fun h => (Bool.false_ne_true h).elim)]
              by_cases hover : maxReadChars
                  < charsUsed + ((numberedRow number line).length + if numbered = [] then 0 else 1)
              · rw [if_pos hover, if_pos hover]
                simp only [List.length_cons] at hlength ⊢
                split
                · simp only [List.length_singleton, true_and]
                  omega
                · simp
              · rw [if_neg hover, if_neg hover]
                have hne' : numbered ++ [numberedRow number line] ≠ [] := by simp
                have hspent : maxReadChars
                    + (if numbered ++ [numberedRow number line] = [] then 1 else 0)
                    < charsUsed + ((numberedRow number line).length + if numbered = [] then 0 else 1)
                      + ((lines.take (next :: selected).length).map fun line =>
                        line.length + 3).sum := by
                  rw [if_neg hne']
                  simp only [List.length_cons, List.take_succ_cons, List.map_cons,
                    List.sum_cons] at hchars ⊢
                  by_cases hnumbered : numbered = []
                  · simp only [hnumbered, if_true] at hchars ⊢
                    omega
                  · simp only [hnumbered, if_false] at hchars ⊢
                    omega
                obtain ⟨hsame, hless⟩ := ih (fun h => absurd h hne') (by simp)
                  (by simpa using hlength) hrest hspent
                refine ⟨hsame, ?_⟩
                rw [List.length_append, List.length_singleton] at hless
                rw [List.length_cons]
                omega

/-! ## pages -/

/-- Two pages that show the same rows, with the same footer but for a total that one of
them does not know. -/
structure SamePage (page whole : Page) : Prop where
  rows : page.rows = whole.rows
  showingFrom : page.showingFrom = whole.showingFrom
  showingTo : page.showingTo = whole.showingTo
  singleLineTruncated : page.singleLineTruncated = whole.singleLineTruncated
  hasMore : page.hasMore = whole.hasMore
  total : ∀ n, page.totalLines = some n → whole.totalLines = some n

theorem SamePage.continuation {page whole : Page} (h : SamePage page whole) :
    page.continuation = whole.continuation := by
  simp only [Page.continuation, h.hasMore, h.singleLineTruncated, h.showingTo]

section Pages

variable {maxReadChars : Nat} {content : Text} {offset limit : Nat}

/-- The lines a page may show. -/
def pageLines (content : Text) (offset limit : Nat) : List Text :=
  ((linesOf (normalizeNewlines content)).drop (offset - 1)).take limit

theorem wholeWindow_eq (content : Text) (hoffset : 1 ≤ offset) (limit : Nat) :
    wholeWindow content offset limit =
      ⟨pageLines content offset limit, offset, some (linesOf (normalizeNewlines content)).length,
        offset - 1 + limit < (linesOf (normalizeNewlines content)).length, false⟩ := by
  have hlines (lines : List Text) :
      (lines.take (min lines.length (offset - 1 + limit))).drop (offset - 1)
        = (lines.drop (offset - 1)).take limit := by
    rw [List.drop_take, List.take_eq_take_iff, List.length_drop]
    omega
  have hmore (length : Nat) : decide (min length (offset - 1 + limit) < length)
      = decide (offset - 1 + limit < length) := by
    rw [decide_eq_decide]
    omega
  have hstart : offset - 1 + 1 = offset := by omega
  simp only [wholeWindow, hlines, hmore, hstart]
  rfl

/-- Each line's row fits where it is the first of a page. -/
theorem firstFits_pageLines (hfit : RowsFit maxReadChars content) (hoffset : 1 ≤ offset)
    (limit : Nat) : FirstFits maxReadChars offset (pageLines content offset limit) := by
  intro line hline
  apply hfit
  have hdrop : ((linesOf (normalizeNewlines content)).drop (offset - 1)).head? = some line := by
    rw [pageLines, List.head?_take] at hline
    split at hline
    · cases hline
    · exact hline
  obtain ⟨later, hlater⟩ := List.head?_eq_some_iff.mp hdrop
  have hsplit := List.take_append_drop (offset - 1) (linesOf (normalizeNewlines content))
  have hlength : ((linesOf (normalizeNewlines content)).take (offset - 1)).length = offset - 1 := by
    have := congrArg List.length hlater
    simp only [List.length_drop, List.length_cons] at this
    rw [List.length_take]
    omega
  have hnumber : 1 + (offset - 1) = offset := by omega
  rw [fileRows, ← hsplit, hlater, numberFrom_append, hlength, hnumber]
  simp [numberFrom]

/-- **Both readers give the same page.** -/
theorem renderPage_window {window : TextFileRange} (hoffset : 1 ≤ offset)
    (hfit : RowsFit maxReadChars content)
    (h : Window (linesOf (normalizeNewlines content)) offset limit maxReadChars window) :
    SamePage (renderPage maxReadChars window)
      (renderPage maxReadChars (wholeWindow content offset limit)) := by
  have hstart : offset - 1 + 1 = offset := by omega
  have hfirst := firstFits_pageLines hfit hoffset limit
  rw [wholeWindow_eq content hoffset limit]
  cases h with
  | complete total htotal =>
      refine ⟨rfl, rfl, rfl, rfl, rfl, ?_⟩
      intro n hn
      cases htotal with
      | inl h =>
          rw [h] at hn
          cases hn
      | inr h =>
          rw [h] at hn
          exact hn
  | cut selected hne hlimit hlength hfront hchars =>
      have havailable : selected.length ≤ (pageLines content offset limit).length := by
        rw [pageLines, List.length_take]
        omega
      have htake {k : Nat} (hk : k ≤ limit) : (pageLines content offset limit).take k
          = ((linesOf (normalizeNewlines content)).drop (offset - 1)).take k := by
        rw [pageLines, List.take_take, Nat.min_eq_left hk]
      have hselected := List.length_pos_iff.mpr hne
      have hsum (xs : List Text) :
          (xs.map fun line => line.length + 3).sum = (xs.map List.length).sum + 3 * xs.length := by
        induction xs with
        | nil => rfl
        | cons x xs ih =>
            simp only [List.map_cons, List.sum_cons, List.length_cons, ih]
            omega
      have hrows : numberRows maxReadChars true offset [] 0 selected
            = numberRows maxReadChars false offset [] 0 (pageLines content offset limit) ∧
          (numberRows maxReadChars false offset [] 0 (pageLines content offset limit)).1.length
            < 0 + (pageLines content offset limit).length := by
        refine numberRows_cut (fun _ => ⟨rfl, hfirst⟩) hne havailable ?_ ?_
        · rw [hfront, htake (by omega)]
        · rw [hsum, htake hlimit, List.length_take, Nat.min_eq_left hlength, if_pos rfl]
          omega
      rw [Nat.zero_add] at hrows
      obtain ⟨hpage, hless⟩ := hrows
      constructor
      · simp only [renderPage, hstart, hpage]
      · rfl
      · simp only [renderPage, hstart, hpage]
      · simp only [renderPage, hstart, hpage]
      · simp only [renderPage, hstart, Bool.true_or, hless, decide_true, Bool.or_true]
      · intro n hn
        cases hn

/-- The page of either reader is that of the whole file. -/
theorem fileRead_whole (reader : Reader) (hmax : 1 ≤ maxReadChars) (hoffset : 1 ≤ offset)
    (hfit : RowsFit maxReadChars content) (limit : Nat) :
    SamePage (fileRead reader maxReadChars content offset limit)
      (fileRead .whole maxReadChars content offset limit) := by
  cases reader with
  | whole => exact ⟨rfl, rfl, rfl, rfl, rfl, fun _ h => h⟩
  | range countToEof =>
      exact renderPage_window hoffset hfit (readTextRange_window _ offset limit hmax countToEof)

/-- **A page** shows a stretch of the rows, no empty one if there are lines, and has a footer
exactly if rows are missing; the footer names the first of them. -/
theorem wholePage_shown (hoffset : 1 ≤ offset) (hlimit : 1 ≤ limit)
    (hfit : RowsFit maxReadChars content)
    (hlength : offset - 1 ≤ (linesOf (normalizeNewlines content)).length) :
    ∃ shown, (offset - 1 < (linesOf (normalizeNewlines content)).length → 1 ≤ shown) ∧
      (fileRead .whole maxReadChars content offset limit).rows = numberFrom offset
        (((linesOf (normalizeNewlines content)).drop (offset - 1)).take shown) ∧
      (fileRead .whole maxReadChars content offset limit).continuation
        = if offset - 1 + shown < (linesOf (normalizeNewlines content)).length then
            some (offset + shown)
          else none := by
  have hstart : offset - 1 + 1 = offset := by omega
  have havailable : (pageLines content offset limit).length
      = min limit ((linesOf (normalizeNewlines content)).length - (offset - 1)) := by
    rw [pageLines, List.length_take, List.length_drop]
  obtain ⟨shown, hshown, hrows, hpos⟩ := @numberRows_shown maxReadChars offset 0 []
    (pageLines content offset limit) (fun _ => ⟨rfl, firstFits_pageLines hfit hoffset limit⟩)
  have htake : (pageLines content offset limit).take shown
      = ((linesOf (normalizeNewlines content)).drop (offset - 1)).take shown := by
    rw [pageLines, List.take_take, Nat.min_eq_left (by omega)]
  have hcount : (numberFrom offset ((pageLines content offset limit).take shown)).length
      = shown := by
    rw [length_numberFrom, List.length_take, Nat.min_eq_left hshown]
  have hmore : offset - 1 + limit < (linesOf (normalizeNewlines content)).length ∨
      shown < (pageLines content offset limit).length ↔
        offset - 1 + shown < (linesOf (normalizeNewlines content)).length := by
    omega
  refine ⟨shown, ?_, ?_, ?_⟩
  · intro hlines
    apply hpos rfl
    intro hnil
    rw [hnil, List.length_nil] at havailable
    omega
  · simp only [fileRead, wholeWindow_eq content hoffset limit, renderPage, hstart, hrows]
    rw [List.nil_append, htake]
  · simp only [fileRead, wholeWindow_eq content hoffset limit, renderPage, hstart, hrows,
      Page.continuation, List.nil_append, hcount, Bool.or_eq_true, decide_eq_true_eq, hmore,
      and_true]
    split
    · congr 1
      omega
    · rfl

/-- **Following the footers** from an offset on shows all rows from there. -/
theorem readPages_from (reader : Reader) (hmax : 1 ≤ maxReadChars) (hlimit : 1 ≤ limit)
    (hfit : RowsFit maxReadChars content) {fuel : Nat} (hoffset : 1 ≤ offset)
    (hlength : offset - 1 ≤ (linesOf (normalizeNewlines content)).length)
    (hfuel : (linesOf (normalizeNewlines content)).length - (offset - 1) < fuel) :
    readPages reader maxReadChars content limit fuel offset
      = some (numberFrom offset ((linesOf (normalizeNewlines content)).drop (offset - 1))) := by
  induction fuel generalizing offset with
  | zero => cases hfuel
  | succ fuel ih =>
      have hsame := fileRead_whole reader hmax hoffset hfit limit
      obtain ⟨shown, hpos, hrows, hnext⟩ := wholePage_shown hoffset hlimit hfit hlength
      simp only [readPages, hsame.continuation, hsame.rows, hrows, hnext]
      by_cases hmore : offset - 1 + shown < (linesOf (normalizeNewlines content)).length
      · have hstep := hpos (by omega)
        have hindex : offset + shown - 1 = offset - 1 + shown := by omega
        have hrest := @ih (offset + shown) (by omega) (by omega) (by omega)
        simp only [if_pos hmore, hrest, Option.map_some, Option.some.injEq]
        have hsplit := List.take_append_drop shown
          ((linesOf (normalizeNewlines content)).drop (offset - 1))
        conv => rhs; rw [← hsplit, numberFrom_append]
        rw [hindex, ← List.drop_drop, List.length_take, List.length_drop,
          Nat.min_eq_left (by omega)]
      · rw [if_neg hmore, List.take_of_length_le (by rw [List.length_drop]; omega)]

end Pages

/-- **Paged reading loses nothing**: with either reader, following the footers from the first
line shows each line once, with its number, and ends at a page without footer; and the pages
of the two readers agree. -/
theorem paged_reading (content : Text) {maxReadChars limit : Nat} (hmax : 1 ≤ maxReadChars)
    (hlimit : 1 ≤ limit) (hfit : RowsFit maxReadChars content) :
    (∀ reader fuel, (linesOf (normalizeNewlines content)).length < fuel →
      readPages reader maxReadChars content limit fuel 1 = some (fileRows content)) ∧
    ∀ offset, 1 ≤ offset → ∀ countToEof,
      SamePage (fileRead (.range countToEof) maxReadChars content offset limit)
        (fileRead .whole maxReadChars content offset limit) := by
  constructor
  · intro reader fuel hfuel
    exact readPages_from reader hmax hlimit hfit (Nat.le_refl 1) (Nat.zero_le _) hfuel
  · intro offset hoffset countToEof
    exact fileRead_whole (.range countToEof) hmax hoffset hfit limit

/-- Three short lines, in pages of two. -/
theorem paged_reading_sample :
    readPages (.range false) 8 "ab\r\n\ncd".toList 2 4 1 = some (fileRows "ab\r\n\ncd".toList) :=
  (paged_reading "ab\r\n\ncd".toList (by decide) (by decide) (by decide)).1 (.range false) 4
    (by decide)

end OpenCollab.Files
