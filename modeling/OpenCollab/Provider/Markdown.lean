import Mathlib.Data.List.TakeWhile
import OpenCollab.Provider.ChatResponse

/-!
# OpenCollab.Provider.Markdown

The parts of a text that Markdown quotes (`_unquoted_markup_text`), and the copy of
the text in which every quoted character is a space.

* `Blocks`, `Spans` — the grammar: fences, indented lines and block quotes among the
  lines, and code spans in what stands outside of them;
* `quotedLines_of_blocks`, `quotedSpans_of_spans` — the loop over the lines and the
  regular expression find the regions of the grammar, which every text has
  (`exists_blocks`, `exists_spans`);
* `unquotedMarkupText_eq` — the copy: a space where the grammar quotes.

A text is the list of its characters; the regular expressions are matchers by hand.
-/

namespace OpenCollab.Markdown

open Lib Chat

/-! ## lines -/

/-- The characters `str.splitlines` ends a line at. -/
def isLineBreak (c : Char) : Bool :=
  let n := c.toNat
  (10 ≤ n && n ≤ 13) || (28 ≤ n && n ≤ 30) || n = 0x85 || n = 0x2028 || n = 0x2029

/-- `content.splitlines(keepends=True)`. -/
def splitLines : List Char → List (List Char)
  | [] => []
  | '\r' :: '\n' :: rest => ['\r', '\n'] :: splitLines rest
  | c :: rest =>
      if isLineBreak c then [c] :: splitLines rest
      else match splitLines rest with
        | [] => [[c]]
        | line :: lines => (c :: line) :: lines

/-- `line.rstrip("\r\n")`. -/
def chomp (line : List Char) : List Char :=
  (line.reverse.dropWhile fun c => c = '\r' || c = '\n').reverse

/-- `_FENCE_RE.match`: the fence and what follows it on its line. -/
def matchFence (line : List Char) : Option (List Char × List Char) :=
  let body := line.dropWhile (· = ' ')
  if 3 < line.length - body.length then none
  else match body with
    | [] => none
    | c :: _ =>
        let run := body.takeWhile (· = c)
        if (c = '\x60' || c = '~') && 3 ≤ run.length then some (run, body.dropWhile (· = c))
        else none

/-- The line closes the open fence. -/
def closesFence (fence : List Char) : Option (List Char × List Char) → Bool
  | none => false
  | some (run, info) =>
      decide (run.head? = fence.head?) && decide (fence.length ≤ run.length) && info.all isSpaceChar

/-- One line under an open fence (`[]`: none): whether it is quoted, and the fence
that is open behind it. -/
def quoteLine (fence line : List Char) : Bool × List Char :=
  let marker := matchFence (chomp line)
  if fence ≠ [] then (true, if closesFence fence marker then [] else fence)
  else match marker with
    | some (run, _) => (true, run)
    | none =>
        ("    ".toList.isPrefixOf line || ['\t'].isPrefixOf line ||
          ['>'].isPrefixOf (line.dropWhile isSpaceChar), [])

/-- `" " * len(line)` for quoted lines, the line itself for the others. -/
def maskLines : (fence : List Char) → List (List Char) → List Char
  | _, [] => []
  | fence, line :: lines =>
      let (masked, next) := quoteLine fence line
      (if masked then List.replicate line.length ' ' else line) ++ maskLines next lines

/-! ## code spans -/

/-- Where the run of exactly `n` backticks that closes a span ends, counted from
the end of the opening run; `prevTick`: the character before is a backtick. -/
def closeSpan (n : Nat) : (prevTick : Bool) → (pos : Nat) → List Char → Option Nat
  | _, _, [] => none
  | prevTick, pos, c :: rest =>
      if c = '\x60' && !prevTick && decide (0 < pos) &&
          decide (((c :: rest).takeWhile (· = '\x60')).length = n) then some (pos + n)
      else closeSpan n (c = '\x60') (pos + 1) rest

/-- The length of a match of `_CODE_SPAN_RE` at the start of the text, in front of
which there is no backtick. -/
def spanLength (text : List Char) : Option Nat :=
  let n := (text.takeWhile (· = '\x60')).length
  if n = 0 then none else (closeSpan n true 0 (text.drop n)).map (n + ·)

/-- `_CODE_SPAN_RE.sub`: the next `hidden` characters belong to a match. -/
def maskSpans : (hidden : Nat) → (prevTick : Bool) → List Char → List Char
  | _, _, [] => []
  | hidden + 1, _, c :: rest => ' ' :: maskSpans hidden (c = '\x60') rest
  | 0, prevTick, c :: rest =>
      match if prevTick then none else spanLength (c :: rest) with
      | some (hidden + 1) => ' ' :: maskSpans hidden (c = '\x60') rest
      | _ => c :: maskSpans 0 (c = '\x60') rest

/-- `_unquoted_markup_text`. -/
def unquotedMarkupText (content : List Char) : List Char :=
  maskSpans 0 false (maskLines [] (splitLines content))

/-! ## the regions of a text -/

abbrev tick : Char := '\x60'

/-- A line with a fence, which is a run of three or more backticks or tildes behind three spaces at
most, and what follows it. -/
def FenceLine (line fence info : List Char) : Prop :=
  ∃ k n c, k ≤ 3 ∧ 3 ≤ n ∧ (c = tick ∨ c = '~') ∧ fence = List.replicate n c ∧
    info.head? ≠ some c ∧ chomp line = List.replicate k ' ' ++ fence ++ info

/-- The line closes a block that the fence has opened: a run of the same character that is at least
as long, with nothing but whitespace behind it. -/
def Closes (fence line : List Char) : Prop :=
  ∃ run info, FenceLine line run info ∧ run.head? = fence.head? ∧ fence.length ≤ run.length ∧
    ∀ c ∈ info, isSpaceChar c = true

/-- A line that is indented by four spaces or a tab. -/
def Indented (line : List Char) : Prop :=
  List.replicate 4 ' ' <+: line ∨ ['\t'] <+: line

/-- A line of a block quote. -/
def BlockQuote (line : List Char) : Prop :=
  ∃ space rest, line = space ++ '>' :: rest ∧ ∀ c ∈ space, isSpaceChar c = true

/-- **The lines of a document**, with a mark for each character that is quoted: fenced blocks, the
last of which may be left open, indented lines, block quotes, and other lines. -/
inductive Blocks : List (List Char) → List Bool → Prop where
  | nil : Blocks [] []
  | fenced {first fence info last : List Char} {body rest : List (List Char)} {marks : List Bool}
      (hopen : FenceLine first fence info) (hbody : ∀ line ∈ body, ¬Closes fence line)
      (hclose : Closes fence last) (hrest : Blocks rest marks) :
      Blocks (first :: (body ++ last :: rest))
        (List.replicate (first ++ body.flatten ++ last).length true ++ marks)
  | unclosed {first fence info : List Char} {body : List (List Char)}
      (hopen : FenceLine first fence info) (hbody : ∀ line ∈ body, ¬Closes fence line) :
      Blocks (first :: body) (List.replicate (first ++ body.flatten).length true)
  | quote {line : List Char} {rest : List (List Char)} {marks : List Bool}
      (hopen : ∀ fence info, ¬FenceLine line fence info) (hline : Indented line ∨ BlockQuote line)
      (hrest : Blocks rest marks) :
      Blocks (line :: rest) (List.replicate line.length true ++ marks)
  | plain {line : List Char} {rest : List (List Char)} {marks : List Bool}
      (hopen : ∀ fence info, ¬FenceLine line fence info)
      (hline : ¬(Indented line ∨ BlockQuote line)) (hrest : Blocks rest marks) :
      Blocks (line :: rest) (List.replicate line.length false ++ marks)

/-- The text has a run of exactly `n` backticks; `after`: it stands behind a backtick. -/
def HasRun (after : Bool) (n : Nat) (text : List Char) : Prop :=
  ∃ before behind, text = before ++ List.replicate n tick ++ behind ∧
    (before = [] → after = false) ∧ before.getLast? ≠ some tick ∧ behind.head? ≠ some tick

/-- **The code spans of a text**, with a mark for each character of one: a run of backticks up to
the next run of the same length, where there is one. -/
inductive Spans : List Char → List Bool → Prop where
  | nil : Spans [] []
  | char {c : Char} {rest : List Char} {marks : List Bool} (hc : c ≠ tick)
      (hrest : Spans rest marks) : Spans (c :: rest) (false :: marks)
  | span {n : Nat} {body rest : List Char} {marks : List Bool} (hn : 0 < n) (hbody : body ≠ [])
      (hfirst : body.head? ≠ some tick) (hlast : body.getLast? ≠ some tick)
      (hno : ¬HasRun false n body) (hend : rest.head? ≠ some tick) (hrest : Spans rest marks) :
      Spans (List.replicate n tick ++ (body ++ (List.replicate n tick ++ rest)))
        (List.replicate (n + (body.length + n)) true ++ marks)
  | unclosed {n : Nat} {rest : List Char} {marks : List Bool} (hn : 0 < n)
      (hend : rest.head? ≠ some tick) (hno : ¬HasRun false n rest) (hrest : Spans rest marks) :
      Spans (List.replicate n tick ++ rest) (List.replicate n false ++ marks)

/-- The text with spaces for the marked characters. -/
def blank (text : List Char) (marks : List Bool) : List Char :=
  List.zipWith (fun c marked => if marked then ' ' else c) text marks

/-- **The character at `i` stands in a fence, an indented line, a block quote or a code span**: code
spans are those of the text outside of the other regions. -/
def Quoted (content : List Char) (i : Nat) : Prop :=
  ∃ lines spans, Blocks (splitLines content) lines ∧ Spans (blank content lines) spans ∧
    (lines[i]? = some true ∨ spans[i]? = some true)

/-! ## what the code quotes -/

/-- Which characters the lines of a text quote. -/
def quotedLines : (fence : List Char) → List (List Char) → List Bool
  | _, [] => []
  | fence, line :: lines =>
      let (masked, next) := quoteLine fence line
      List.replicate line.length masked ++ quotedLines next lines

/-- Which characters belong to a code span. -/
def quotedSpans : (hidden : Nat) → (prevTick : Bool) → List Char → List Bool
  | _, _, [] => []
  | hidden + 1, _, c :: rest => true :: quotedSpans hidden (c = '\x60') rest
  | 0, prevTick, c :: rest =>
      match if prevTick then none else spanLength (c :: rest) with
      | some (hidden + 1) => true :: quotedSpans hidden (c = '\x60') rest
      | _ => false :: quotedSpans 0 (c = '\x60') rest

/-- The character at `i` stands in a fence, an indented line, a block quote or a
code span. -/
def quoted (content : List Char) (i : Nat) : Bool :=
  (quotedLines [] (splitLines content))[i]?.getD false ||
    (quotedSpans 0 false (maskLines [] (splitLines content)))[i]?.getD false

/-! ## the lines -/

/-- A text begins with a run of a character, perhaps an empty one. -/
theorem exists_run (c : Char) (text : List Char) :
    ∃ n rest, text = List.replicate n c ++ rest ∧ rest.head? ≠ some c := by
  induction text with
  | nil => exact ⟨0, [], rfl, by simp⟩
  | cons d text ih =>
      by_cases hd : d = c
      · obtain ⟨n, rest, rfl, hrest⟩ := ih
        exact ⟨n + 1, rest, by rw [hd, List.replicate_succ, List.cons_append], hrest⟩
      · exact ⟨0, d :: text, rfl, by simpa using hd⟩

theorem takeWhile_run {c : Char} (n : Nat) {rest : List Char} (h : rest.head? ≠ some c) :
    (List.replicate n c ++ rest).takeWhile (· = c) = List.replicate n c := by
  induction n with
  | zero =>
      cases rest with
      | nil => rfl
      | cons d rest => simpa using h
  | succ n ih =>
      rw [List.replicate_succ, List.cons_append, List.takeWhile_cons_of_pos (by simp), ih]

theorem dropWhile_run {c : Char} (n : Nat) {rest : List Char} (h : rest.head? ≠ some c) :
    (List.replicate n c ++ rest).dropWhile (· = c) = rest := by
  induction n with
  | zero =>
      cases rest with
      | nil => rfl
      | cons d rest =>
          rw [List.replicate_zero, List.nil_append, List.dropWhile_cons_of_neg (by simpa using h)]
  | succ n ih =>
      rw [List.replicate_succ, List.cons_append, List.dropWhile_cons_of_pos (by simp), ih]

/-- The matcher of a fence, on a text cut into its runs. -/
theorem matchFence_run {k n : Nat} {c : Char} {info : List Char} (hc : c ≠ ' ')
    (hinfo : info.head? ≠ some c) :
    matchFence (List.replicate k ' ' ++ (List.replicate (n + 1) c ++ info)) =
      if 3 < k then none
      else if (c = '\x60' || c = '~') && 3 ≤ n + 1 then some (List.replicate (n + 1) c, info)
      else none := by
  have hbody : (List.replicate (n + 1) c ++ info).head? ≠ some ' ' := by
    rw [List.replicate_succ, List.cons_append]
    simpa using hc
  unfold matchFence
  rw [dropWhile_run k hbody]
  dsimp only
  have hlen : (List.replicate k ' ' ++ (List.replicate (n + 1) c ++ info)).length -
      (List.replicate (n + 1) c ++ info).length = k := by
    rw [List.length_append, List.length_replicate]
    omega
  rw [hlen]
  congr 1
  have hcons : List.replicate (n + 1) c ++ info = c :: (List.replicate n c ++ info) := by
    rw [List.replicate_succ, List.cons_append]
  rw [hcons]
  dsimp only
  rw [← hcons, takeWhile_run _ hinfo, dropWhile_run _ hinfo, List.length_replicate]

/-- **The fence that is matched is the one of the grammar.** -/
theorem matchFence_eq_some {line fence info : List Char} :
    matchFence (chomp line) = some (fence, info) ↔ FenceLine line fence info := by
  unfold FenceLine
  generalize chomp line = text
  constructor
  · intro h
    obtain ⟨k, body, rfl, hbody⟩ := exists_run ' ' text
    cases body with
    | nil =>
        have hnone : matchFence (List.replicate k ' ' ++ []) = none := by
          unfold matchFence
          rw [dropWhile_run k hbody]
          dsimp only
          split <;> rfl
        rw [hnone] at h
        contradiction
    | cons c body =>
        have hc : c ≠ ' ' := by simpa using hbody
        obtain ⟨n, rest, rfl, hrest⟩ := exists_run c body
        have hcons : c :: (List.replicate n c ++ rest) = List.replicate (n + 1) c ++ rest := by
          rw [List.replicate_succ, List.cons_append]
        rw [hcons, matchFence_run hc hrest] at h
        split at h
        · contradiction
        · rename_i hk
          split at h
          · rename_i hfence
            obtain ⟨rfl, rfl⟩ := Prod.mk.inj (Option.some.inj h)
            simp only [Bool.and_eq_true, Bool.or_eq_true, decide_eq_true_eq] at hfence
            exact ⟨k, n + 1, c, Nat.le_of_not_lt hk, hfence.2, hfence.1, rfl, hrest,
              by rw [hcons, List.append_assoc]⟩
          · contradiction
  · intro ⟨k, n, c, hk, hn, hc, hfence, hinfo, htext⟩
    obtain ⟨m, rfl⟩ : ∃ m, n = m + 1 := ⟨n - 1, by omega⟩
    have hspace : c ≠ ' ' := by
      obtain rfl | rfl := hc <;> decide
    rw [htext, hfence, List.append_assoc, matchFence_run hspace hinfo, if_neg (by omega), if_pos]
    simpa [hn] using hc

/-- The line that closes is the one of the grammar. -/
theorem closesFence_iff {fence line : List Char} :
    closesFence fence (matchFence (chomp line)) = true ↔ Closes fence line := by
  constructor
  · intro h
    cases hmatch : matchFence (chomp line) with
    | none =>
        rw [hmatch] at h
        contradiction
    | some marker =>
        obtain ⟨run, info⟩ := marker
        rw [hmatch, closesFence] at h
        simp only [Bool.and_eq_true, decide_eq_true_eq, List.all_eq_true] at h
        exact ⟨run, info, matchFence_eq_some.mp hmatch, h.1.1, h.1.2, h.2⟩
  · intro ⟨run, info, hline, hhead, hlen, hinfo⟩
    rw [matchFence_eq_some.mpr hline, closesFence]
    simpa [hhead, hlen] using hinfo

theorem blockQuote_iff {line : List Char} :
    ['>'].isPrefixOf (line.dropWhile isSpaceChar) = true ↔ BlockQuote line := by
  rw [List.isPrefixOf_iff_prefix]
  constructor
  · intro ⟨rest, hrest⟩
    refine ⟨line.takeWhile isSpaceChar, rest, ?_, fun c hc => List.mem_takeWhile_imp hc⟩
    conv_lhs => rw [← List.takeWhile_append_dropWhile (p := isSpaceChar) (l := line), ← hrest]
    rfl
  · intro ⟨space, rest, hline, hspace⟩
    refine ⟨rest, ?_⟩
    rw [hline, List.dropWhile_append_of_pos hspace, List.dropWhile_cons_of_neg (by decide)]
    rfl

/-- A line outside of fences. -/
theorem quoteLine_nil {line : List Char} (h : ∀ fence info, ¬FenceLine line fence info) :
    ∃ masked, quoteLine [] line = (masked, []) ∧
      (masked = true ↔ Indented line ∨ BlockQuote line) := by
  have hnone : matchFence (chomp line) = none := by
    rw [Option.eq_none_iff_forall_ne_some]
    intro ⟨fence, info⟩ hsome
    exact h fence info (matchFence_eq_some.mp hsome)
  refine ⟨_, by rw [quoteLine, hnone, if_neg (by simp)], ?_⟩
  rw [Bool.or_eq_true, Bool.or_eq_true, blockQuote_iff, List.isPrefixOf_iff_prefix,
    List.isPrefixOf_iff_prefix]
  rfl

/-- The lines under an open fence. -/
theorem quotedLines_open {fence : List Char} (hfence : fence ≠ []) {body : List (List Char)}
    (hbody : ∀ line ∈ body, ¬Closes fence line) (rest : List (List Char)) :
    quotedLines fence (body ++ rest) =
      List.replicate body.flatten.length true ++ quotedLines fence rest := by
  induction body with
  | nil => rfl
  | cons line body ih =>
      have hopen : closesFence fence (matchFence (chomp line)) = false := by
        rw [← Bool.not_eq_true, closesFence_iff]
        exact hbody line List.mem_cons_self
      have hline : quoteLine fence line = (true, fence) := by
        rw [quoteLine, if_pos hfence, hopen, if_neg Bool.false_ne_true]
      rw [List.cons_append, quotedLines, hline]
      dsimp only
      rw [ih fun l hl => hbody l (List.mem_cons_of_mem _ hl), List.flatten_cons, List.length_append,
        List.replicate_add, List.append_assoc]

theorem FenceLine.ne_nil {line fence info : List Char} (h : FenceLine line fence info) :
    fence ≠ [] := by
  obtain ⟨k, n, c, -, hn, -, rfl, -⟩ := h
  intro hnil
  have hlen := congrArg List.length hnil
  rw [List.length_replicate, List.length_nil] at hlen
  omega

theorem FenceLine.quoteLine {line fence info : List Char} (h : FenceLine line fence info) :
    Markdown.quoteLine [] line = (true, fence) := by
  rw [Markdown.quoteLine, matchFence_eq_some.mpr h, if_neg (by simp)]

/-- **The loop over the lines quotes what the grammar quotes.** -/
theorem quotedLines_of_blocks {lines : List (List Char)} {marks : List Bool}
    (h : Blocks lines marks) : quotedLines [] lines = marks := by
  induction h with
  | nil => rfl
  | @fenced first fence info last body rest marks hopen hbody hclose hrest ih =>
      have hlast : quoteLine fence last = (true, []) := by
        rw [quoteLine, if_pos hopen.ne_nil, closesFence_iff.mpr hclose, if_pos rfl]
      rw [quotedLines, hopen.quoteLine]
      dsimp only
      rw [quotedLines_open hopen.ne_nil hbody, quotedLines, hlast]
      dsimp only
      rw [ih, List.length_append, List.length_append, List.replicate_add, List.replicate_add]
      simp only [List.append_assoc]
  | @unclosed first fence info body hopen hbody =>
      have hend := quotedLines_open hopen.ne_nil hbody []
      rw [List.append_nil] at hend
      rw [quotedLines, hopen.quoteLine]
      dsimp only
      rw [hend, List.length_append, List.replicate_add, quotedLines, List.append_nil]
  | @quote line rest marks hopen hline hrest ih =>
      obtain ⟨masked, hquote, hmasked⟩ := quoteLine_nil hopen
      rw [quotedLines, hquote, hmasked.mpr hline]
      dsimp only
      rw [ih]
  | @plain line rest marks hopen hline hrest ih =>
      obtain ⟨masked, hquote, hmasked⟩ := quoteLine_nil hopen
      have hfalse : masked = false := by
        rw [← Bool.not_eq_true, hmasked]
        exact hline
      rw [quotedLines, hquote, hfalse]
      dsimp only
      rw [ih]

/-- The first element of a kind. -/
theorem exists_first {α : Type} {p : α → Prop} {xs : List α} (h : ∃ x ∈ xs, p x) :
    ∃ front x back, xs = front ++ x :: back ∧ (∀ y ∈ front, ¬p y) ∧ p x := by
  induction xs with
  | nil =>
      obtain ⟨x, hx, -⟩ := h
      contradiction
  | cons x xs ih =>
      by_cases hx : p x
      · exact ⟨[], x, xs, rfl, by simp, hx⟩
      · obtain ⟨y, hy, hpy⟩ := h
        obtain rfl | hy := List.mem_cons.mp hy
        · exact absurd hpy hx
        · obtain ⟨front, z, back, rfl, hfront, hz⟩ := ih ⟨y, hy, hpy⟩
          exact ⟨x :: front, z, back, rfl, List.forall_mem_cons.mpr ⟨hx, hfront⟩, hz⟩

/-- **Every document has its regions.** -/
theorem exists_blocks (lines : List (List Char)) : ∃ marks, Blocks lines marks := by
  induction hlen : lines.length using Nat.strong_induction_on generalizing lines with
  | _ size ih =>
      cases lines with
      | nil => exact ⟨_, .nil⟩
      | cons first rest =>
          rw [List.length_cons] at hlen
          by_cases hopen : ∃ fence info, FenceLine first fence info
          · obtain ⟨fence, info, hopen⟩ := hopen
            by_cases hclose : ∃ line ∈ rest, Closes fence line
            · obtain ⟨body, last, after, rfl, hbody, hlast⟩ := exists_first hclose
              rw [List.length_append, List.length_cons] at hlen
              obtain ⟨marks, hmarks⟩ := ih after.length (by omega) after rfl
              exact ⟨_, .fenced hopen hbody hlast hmarks⟩
            · exact ⟨_, .unclosed hopen fun line hline hcloses => hclose ⟨line, hline, hcloses⟩⟩
          · have hopen' : ∀ fence info, ¬FenceLine first fence info :=
              fun fence info hline => hopen ⟨fence, info, hline⟩
            obtain ⟨marks, hmarks⟩ := ih rest.length (by omega) rest rfl
            by_cases hline : Indented first ∨ BlockQuote first
            · exact ⟨_, .quote hopen' hline hmarks⟩
            · exact ⟨_, .plain hopen' hline hmarks⟩

/-! ## the code spans -/

/-- A run that is found behind the first character is found. -/
theorem HasRun.cons {after : Bool} {n : Nat} {c : Char} {text : List Char}
    (h : HasRun (c = tick) n text) : HasRun after n (c :: text) := by
  obtain ⟨before, behind, rfl, hafter, hbefore, hbehind⟩ := h
  refine ⟨c :: before, behind, rfl, by simp, ?_, hbehind⟩
  cases before with
  | nil => simpa using hafter rfl
  | cons d before => rwa [List.getLast?_cons_cons]

theorem HasRun.weaken {n : Nat} {text : List Char} (h : HasRun true n text) :
    HasRun false n text := by
  obtain ⟨before, behind, rfl, -, hbefore, hbehind⟩ := h
  exact ⟨before, behind, rfl, fun _ => rfl, hbefore, hbehind⟩

/-- What the matcher tests at a character. -/
theorem hasRun_of_test {after : Bool} {n : Nat} {c : Char} {rest : List Char}
    (hafter : after = false) (hrun : ((c :: rest).takeWhile (· = tick)).length = n) :
    HasRun after n (c :: rest) := by
  obtain ⟨m, behind, htext, hbehind⟩ := exists_run tick (c :: rest)
  rw [htext, takeWhile_run m hbehind, List.length_replicate] at hrun
  rw [htext, hrun]
  exact ⟨[], behind, rfl, fun _ => hafter, by simp, hbehind⟩

/-- Without a run of the length no span is closed. -/
theorem closeSpan_eq_none {n : Nat} {after : Bool} {pos : Nat} {text : List Char}
    (h : ¬HasRun after n text) : closeSpan n after pos text = none := by
  induction text generalizing after pos with
  | nil => rfl
  | cons c rest ih =>
      rw [closeSpan, if_neg, ih fun hrun => h hrun.cons]
      intro htest
      simp only [Bool.and_eq_true, decide_eq_true_eq, Bool.not_eq_true'] at htest
      exact h (hasRun_of_test htest.1.1.2 htest.2)

/-- The first run of the length closes the span. -/
theorem closeSpan_eq_some {n : Nat} (hn : 0 < n) {after : Bool} {pos : Nat} {body rest : List Char}
    (hpos : 0 < pos + body.length) (hstart : body = [] → after = false)
    (hlast : body.getLast? ≠ some tick) (hend : rest.head? ≠ some tick)
    (hno : ¬HasRun after n body) :
    closeSpan n after pos (body ++ (List.replicate n tick ++ rest)) =
      some (pos + body.length + n) := by
  induction body generalizing after pos with
  | nil =>
      obtain ⟨m, rfl⟩ : ∃ m, n = m + 1 := ⟨n - 1, by omega⟩
      have hrun := takeWhile_run (m + 1) hend
      rw [List.replicate_succ, List.cons_append] at hrun
      rw [List.nil_append, List.replicate_succ, List.cons_append, closeSpan, if_pos]
      · rfl
      · have hlen : (tick :: List.replicate m tick).length = m + 1 := by simp
        rw [hstart rfl, hrun, hlen]
        simpa using hpos
  | cons c body ih =>
      rw [List.cons_append, closeSpan, if_neg]
      · rw [ih (by omega) ?_ ?_ fun hrun => hno hrun.cons, List.length_cons]
        · congr 1
          omega
        · intro hnil
          rw [hnil] at hlast
          simpa using hlast
        · intro hbody
          cases body with
          | nil => simp at hbody
          | cons d body =>
              rw [List.getLast?_cons_cons] at hlast
              exact hlast hbody
      · intro htest
        simp only [Bool.and_eq_true, decide_eq_true_eq, Bool.not_eq_true'] at htest
        obtain ⟨⟨⟨hc, hafter⟩, -⟩, hrun⟩ := htest
        -- the run ends within the body, which does not end with a backtick
        obtain ⟨m, behind, htext, hbehind⟩ := exists_run tick (c :: body)
        have hne : behind ≠ [] := by
          intro hnil
          rw [hnil, List.append_nil] at htext
          rw [htext] at hlast
          obtain ⟨m', rfl⟩ : ∃ m', m = m' + 1 := by
            refine ⟨m - 1, ?_⟩
            have hlen := congrArg List.length htext
            rw [List.length_cons, List.length_replicate] at hlen
            omega
          rw [List.replicate_succ', List.getLast?_concat] at hlast
          exact hlast rfl
        have hwhole : (behind ++ (List.replicate n tick ++ rest)).head? ≠ some tick := by
          rw [List.head?_append_of_ne_nil _ hne]
          exact hbehind
        rw [← List.cons_append, htext, List.append_assoc, takeWhile_run m hwhole,
          List.length_replicate] at hrun
        refine hno ?_
        rw [htext, hrun]
        exact ⟨[], behind, rfl, fun _ => hafter, by simp, hbehind⟩

/-- A span at a run of backticks is as long as the search behind the run says. -/
theorem spanLength_run {n : Nat} (hn : 0 < n) {rest : List Char} (h : rest.head? ≠ some tick) :
    spanLength (List.replicate n tick ++ rest) = (closeSpan n true 0 rest).map (n + ·) := by
  unfold spanLength
  rw [takeWhile_run n h, List.length_replicate]
  dsimp only
  rw [if_neg (by omega), List.drop_left' List.length_replicate]

theorem spanLength_eq_none {text : List Char} (h : text.head? ≠ some tick) :
    spanLength text = none := by
  have hrun := takeWhile_run 0 h
  rw [List.replicate_zero, List.nil_append] at hrun
  unfold spanLength
  rw [hrun]
  rfl

/-- Behind a backtick nothing changes when no backtick follows. -/
theorem quotedSpans_behind {text : List Char} (h : text.head? ≠ some tick) (after : Bool) :
    quotedSpans 0 after text = quotedSpans 0 false text := by
  cases text with
  | nil => rfl
  | cons c rest =>
      rw [quotedSpans, quotedSpans, spanLength_eq_none h]
      cases after <;> rfl

/-- The characters of a match. -/
theorem quotedSpans_hidden (body : List Char) {rest : List Char} (h : rest.head? ≠ some tick)
    (after : Bool) :
    quotedSpans body.length after (body ++ rest) =
      List.replicate body.length true ++ quotedSpans 0 false rest := by
  induction body generalizing after with
  | nil => exact quotedSpans_behind h after
  | cons c body ih =>
      rw [List.cons_append, List.length_cons, quotedSpans, ih, List.replicate_succ,
        List.cons_append]

/-- A match at the start of the text. -/
theorem quotedSpans_span {body rest : List Char} (hbody : body ≠ []) (h : rest.head? ≠ some tick)
    (hlen : spanLength (body ++ rest) = some body.length) :
    quotedSpans 0 false (body ++ rest) =
      List.replicate body.length true ++ quotedSpans 0 false rest := by
  obtain ⟨c, body, rfl⟩ := List.exists_cons_of_ne_nil hbody
  rw [List.cons_append, List.length_cons] at hlen
  rw [List.cons_append, quotedSpans, if_neg Bool.false_ne_true, hlen]
  dsimp only
  rw [quotedSpans_hidden body h, List.length_cons, List.replicate_succ, List.cons_append]

/-- The rest of a run that opens no span. -/
theorem quotedSpans_run (n : Nat) {rest : List Char} (h : rest.head? ≠ some tick) :
    quotedSpans 0 true (List.replicate n tick ++ rest) =
      List.replicate n false ++ quotedSpans 0 false rest := by
  induction n with
  | zero => exact quotedSpans_behind h true
  | succ n ih =>
      rw [List.replicate_succ, List.cons_append, quotedSpans, if_pos rfl]
      dsimp only
      rw [decide_eq_true rfl, ih, List.replicate_succ, List.cons_append]

/-- **The regular expression quotes the code spans of the grammar.** -/
theorem quotedSpans_of_spans {text : List Char} {marks : List Bool} (h : Spans text marks) :
    quotedSpans 0 false text = marks := by
  induction h with
  | nil => rfl
  | @char c rest marks hc hrest ih =>
      have hhead : (c :: rest).head? ≠ some tick := by simpa using hc
      rw [quotedSpans, if_neg Bool.false_ne_true, spanLength_eq_none hhead]
      dsimp only
      rw [decide_eq_false hc, ih]
  | @span n body rest marks hn hbody hfirst hlast hno hend hrest ih =>
      have hhead : (body ++ (List.replicate n tick ++ rest)).head? ≠ some tick := by
        rw [List.head?_append_of_ne_nil _ hbody]
        exact hfirst
      have hpos : 0 < 0 + body.length := by
        rw [Nat.zero_add]
        exact List.length_pos_of_ne_nil hbody
      have hlen := spanLength_run hn hhead
      rw [closeSpan_eq_some hn hpos (fun hnil => absurd hnil hbody) hlast hend
        fun hrun => hno hrun.weaken] at hlen
      have hwhole := @quotedSpans_span
        (List.replicate n tick ++ (body ++ List.replicate n tick)) rest (by simp [hbody]) hend
      simp only [List.append_assoc, List.length_append, List.length_replicate] at hwhole
      rw [hwhole (by rw [hlen, Option.map_some, Nat.zero_add]), ih]
  | @unclosed n rest marks hn hend hno hrest ih =>
      have hlen := spanLength_run hn hend
      rw [closeSpan_eq_none fun hrun => hno hrun.weaken, Option.map_none] at hlen
      obtain ⟨m, rfl⟩ : ∃ m, n = m + 1 := ⟨n - 1, by omega⟩
      rw [List.replicate_succ, List.cons_append] at hlen
      rw [List.replicate_succ, List.cons_append, quotedSpans, if_neg Bool.false_ne_true, hlen]
      dsimp only
      rw [decide_eq_true rfl, quotedSpans_run m hend, ih, List.replicate_succ, List.cons_append]

/-- A text with a run of the length has a first one. -/
theorem HasRun.exists_first {after : Bool} {n : Nat} (hn : 0 < n) {text : List Char}
    (h : HasRun after n text) :
    ∃ body rest, text = body ++ (List.replicate n tick ++ rest) ∧ (body = [] → after = false) ∧
      body.getLast? ≠ some tick ∧ rest.head? ≠ some tick ∧ ¬HasRun after n body := by
  induction hlen : text.length using Nat.strong_induction_on generalizing text with
  | _ size ih =>
      obtain ⟨before, behind, rfl, hafter, hbefore, hbehind⟩ := h
      by_cases hrun : HasRun after n before
      · simp only [List.length_append, List.length_replicate] at hlen
        obtain ⟨body, rest, rfl, hstart, hlast, hend, hno⟩ :=
          ih before.length (by omega) hrun rfl
        refine ⟨body, rest ++ (List.replicate n tick ++ behind), by simp, hstart, hlast, ?_, hno⟩
        cases rest with
        | nil =>
            obtain ⟨m, rfl⟩ : ∃ m, n = m + 1 := ⟨n - 1, by omega⟩
            rw [List.append_nil, List.replicate_succ', ← List.append_assoc,
              List.getLast?_concat] at hbefore
            exact absurd rfl hbefore
        | cons c rest => exact hend
      · exact ⟨before, behind, by rw [List.append_assoc], hafter, hbefore, hbehind, hrun⟩

/-- **Every text has its code spans.** -/
theorem exists_spans (text : List Char) : ∃ marks, Spans text marks := by
  induction hlen : text.length using Nat.strong_induction_on generalizing text with
  | _ size ih =>
      obtain ⟨n, rest, rfl, hrest⟩ := exists_run tick text
      simp only [List.length_append, List.length_replicate] at hlen
      by_cases hn : 0 < n
      · by_cases hrun : HasRun false n rest
        · obtain ⟨body, after, rfl, -, hlast, hend, hno⟩ := hrun.exists_first hn
          have hbody : body ≠ [] := by
            intro hnil
            obtain ⟨m, rfl⟩ : ∃ m, n = m + 1 := ⟨n - 1, by omega⟩
            rw [hnil, List.nil_append, List.replicate_succ] at hrest
            exact hrest rfl
          rw [List.head?_append_of_ne_nil _ hbody] at hrest
          simp only [List.length_append, List.length_replicate] at hlen
          obtain ⟨marks, hmarks⟩ := ih after.length (by omega) after rfl
          exact ⟨_, .span hn hbody hrest hlast hno hend hmarks⟩
        · obtain ⟨marks, hmarks⟩ := ih rest.length (by omega) rest rfl
          exact ⟨_, .unclosed hn hrest hrun hmarks⟩
      · obtain rfl : n = 0 := Nat.eq_zero_of_not_pos hn
        cases rest with
        | nil => exact ⟨_, .nil⟩
        | cons c rest =>
            obtain ⟨marks, hmarks⟩ := ih rest.length (by rw [← hlen]; simp) rest rfl
            exact ⟨_, .char (by simpa using hrest) hmarks⟩

/-! ## the masked copy -/

variable {content text : List Char} {start stop i : Nat}

@[simp] theorem flatten_splitLines (content : List Char) :
    (splitLines content).flatten = content := by
  fun_induction splitLines content with
  | case1 => rfl
  | case2 rest ih => simp [ih]
  | case3 c rest _ h ih => simp [ih]
  | case4 c rest _ h hlines ih =>
      rw [hlines] at ih
      simp [← ih]
  | case5 c rest _ h line lines hlines ih =>
      rw [hlines] at ih
      simp [← ih]

theorem getElem?_maskLines (fence : List Char) (lines : List (List Char)) (i : Nat) :
    (maskLines fence lines)[i]? = lines.flatten[i]?.map fun c =>
      if (quotedLines fence lines)[i]?.getD false then ' ' else c := by
  induction lines generalizing fence i with
  | nil => rfl
  | cons line lines ih =>
      rw [maskLines, quotedLines, List.flatten_cons]
      cases hq : quoteLine fence line with
      | mk masked next =>
          dsimp only
          by_cases hi : i < line.length
          · rw [List.getElem?_append_left (by cases masked <;> simpa using hi),
              List.getElem?_append_left hi, List.getElem?_append_left (by simpa using hi)]
            cases masked <;> simp [hi]
          · rw [List.getElem?_append_right (by cases masked <;> simpa using hi),
              List.getElem?_append_right (by rw [List.length_replicate]; omega),
              List.getElem?_append_right (by omega),
              List.length_replicate]
            have hlen : (if masked then List.replicate line.length ' ' else line).length =
                line.length := by
              cases masked <;> simp
            rw [hlen, ih]

theorem length_quotedLines (fence : List Char) (lines : List (List Char)) :
    (quotedLines fence lines).length = lines.flatten.length := by
  induction lines generalizing fence with
  | nil => rfl
  | cons line lines ih =>
      rw [quotedLines, List.flatten_cons, List.length_append, List.length_append,
        List.length_replicate, ih]

/-- **`quoted` decides what the grammar quotes.** -/
theorem quoted_iff : quoted content i = true ↔ Quoted content i := by
  have hblank : ∀ lines, quotedLines [] (splitLines content) = lines →
      maskLines [] (splitLines content) = blank content lines := by
    intro lines hlines
    apply List.ext_getElem?
    intro k
    rw [getElem?_maskLines, flatten_splitLines, hlines, blank, List.getElem?_zipWith]
    have hlen : lines.length = content.length := by
      rw [← hlines, length_quotedLines, flatten_splitLines]
    cases hc : content[k]? with
    | none => rfl
    | some c =>
        have hk : k < lines.length := by
          rw [hlen]
          exact (List.getElem?_eq_some_iff.mp hc).1
        rw [List.getElem?_eq_getElem hk]
        rfl
  have hget : ∀ marks : List Bool, marks[i]?.getD false = true ↔ marks[i]? = some true := by
    intro marks
    cases marks[i]? <;> simp
  unfold quoted
  rw [Bool.or_eq_true, hget, hget]
  constructor
  · intro h
    obtain ⟨lines, hlines⟩ := exists_blocks (splitLines content)
    obtain ⟨spans, hspans⟩ := exists_spans (blank content lines)
    have heq := quotedLines_of_blocks hlines
    refine ⟨lines, spans, hlines, hspans, ?_⟩
    rwa [heq, hblank lines heq, quotedSpans_of_spans hspans] at h
  · intro ⟨lines, spans, hlines, hspans, h⟩
    have heq := quotedLines_of_blocks hlines
    rwa [heq, hblank lines heq, quotedSpans_of_spans hspans]

theorem getElem?_maskSpans (hidden : Nat) (prevTick : Bool) (text : List Char) (i : Nat) :
    (maskSpans hidden prevTick text)[i]? = text[i]?.map fun c =>
      if (quotedSpans hidden prevTick text)[i]?.getD false then ' ' else c := by
  induction text generalizing hidden prevTick i with
  | nil => cases hidden <;> rfl
  | cons c rest ih =>
      cases hidden with
      | succ hidden =>
          rw [maskSpans, quotedSpans]
          cases i with
          | zero => rfl
          | succ i => exact ih hidden _ i
      | zero =>
          rw [maskSpans, quotedSpans]
          split
          · cases i with
            | zero => rfl
            | succ i => exact ih _ _ i
          · cases i with
            | zero => rfl
            | succ i => exact ih _ _ i

/-- **The copy has every character in its place, or a space for it.** -/
theorem unquotedMarkupText_eq (content : List Char) (i : Nat) :
    (unquotedMarkupText content)[i]? =
      content[i]?.map fun c => if quoted content i then ' ' else c := by
  rw [unquotedMarkupText, getElem?_maskSpans, getElem?_maskLines, flatten_splitLines,
    Option.map_map]
  refine Option.map_congr fun c _ => ?_
  unfold quoted
  cases (quotedLines [] (splitLines content))[i]?.getD false <;>
    cases (quotedSpans 0 false (maskLines [] (splitLines content)))[i]?.getD false <;> rfl

theorem length_unquotedMarkupText (content : List Char) :
    (unquotedMarkupText content).length = content.length := by
  have hnone : ∀ i : Nat, (unquotedMarkupText content)[i]? = none ↔ content[i]? = none := by
    intro i
    rw [unquotedMarkupText_eq, Option.map_eq_none_iff]
  have hle := (hnone content.length).mpr (List.getElem?_eq_none (Nat.le_refl _))
  have hge := (hnone (unquotedMarkupText content).length).mp
    (List.getElem?_eq_none (Nat.le_refl _))
  rw [List.getElem?_eq_none_iff] at hle hge
  omega

end OpenCollab.Markdown
