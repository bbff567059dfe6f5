import OpenCollab.Patch.Utf8
import OpenCollab.Patch.WrittenPatch

/-!
# OpenCollab.Patch.SchedulerDiff

The patch reader of the scheduler's trace (`application/_scheduler_team.py`), beside
that of `application/patch_paths.py`.

It decodes a quoted path with Python's `unicode_escape` codec, keeps a token that is no
UTF-8 as Git wrote it, and reads the header of a quoted path up to the first `" "`.

* `unicodeEscape_escaped` — Git's escapes are escapes of that codec;
* `sidePath_token` — the path of a side, or its token;
* `headerLinePaths_plain`, `headerLinePaths_quoted` — the header of a path, unless the
  path is quoted and ends in a quote and a space.
-/

namespace OpenCollab.PatchPaths

open Lib

/-! ## decoding a token -/

/-- `text.encode("utf-8")`, which refuses surrogates. -/
def encodeStrict (text : Str) : Option (List Nat) :=
  if text.all isScalar then some (encodeText text) else none

/-- `data.decode("utf-8")`. -/
def decodeStrict (bytes : List Nat) : Option Str :=
  if (decodeUtf8 0 bytes).all isScalar then some (decodeUtf8 0 bytes) else none

/-- `text.encode("latin-1")`. -/
def encodeLatin1 (text : Str) : Option (List Nat) :=
  if text.all (· < 256) then some text else none

/-- The value of a hexadecimal digit. -/
def hexValue (c : Nat) : Option Nat :=
  if 48 ≤ c ∧ c ≤ 57 then some (c - 48)
  else if 65 ≤ c ∧ c ≤ 70 then some (c - 55)
  else if 97 ≤ c ∧ c ≤ 102 then some (c - 87)
  else none

/-- The code point of an escape with `width` hexadecimal digits. -/
def hexEscape (width : Nat) (digits : List Nat) : Option (Str × Nat) := do
  let values ← (digits.take width).mapM hexValue
  let code := values.foldl (fun n d => n * 16 + d) 0
  if values.length = width ∧ code < 0x110000 then some ([code], width + 1) else none

/-- What an escape stands for in the `unicode_escape` codec, and how many bytes it has
behind the backslash.  `named` looks a character up by its name. -/
def escapeAt (named : Str → Option Nat) : List Nat → Option (Str × Nat)
  | [] => none
  | c :: rest =>
      if c = 10 then some ([], 1)
      else if c ∈ ascii "abfnrtv\\\"'" then some ([escapeValue c], 1)
      else if isOctal c then
        let digits := ((c :: rest).take 3).takeWhile isOctal
        some ([octalValue digits], digits.length)
      else if c = 120 then hexEscape 2 rest
      else if c = 117 then hexEscape 4 rest
      else if c = 85 then hexEscape 8 rest
      else if c = 78 then
        let name := (rest.drop 1).takeWhile (· ≠ 125)
        if rest.head? = some 123 ∧ 125 ∈ rest ∧ name ≠ [] then
          (named name).map fun code => ([code], name.length + 3)
        else none
      else some ([backslash, c], 1)

/-- `data.decode("unicode_escape")`; `skip` bytes belong to the escape before. -/
def unicodeEscape (named : Str → Option Nat) : (skip : Nat) → List Nat → Option Str
  | _, [] => some []
  | skip + 1, _ :: rest => unicodeEscape named skip rest
  | 0, b :: rest =>
      if b ≠ backslash then (unicodeEscape named 0 rest).map (b :: ·)
      else do
        let (text, used) ← escapeAt named rest
        (unicodeEscape named used rest).map (text ++ ·)

/-- `_git_unquote`. -/
def gitUnquote (named : Str → Option Nat) (token : Str) : Str :=
  if token.length < 2 ∨ token.head? ≠ some quote ∨ token.getLast? ≠ some quote then token
  else
    let decoded := do
      let raw ← encodeStrict (token.drop 1).dropLast
      let text ← unicodeEscape named 0 raw
      decodeStrict (← encodeLatin1 text)
    decoded.getD token

/-- `_side_path`. -/
def sidePath (named : Str → Option Nat) (token start : Str) : Option Str :=
  let token := gitUnquote named (token.takeWhile (· ≠ 9))
  if token = ascii "/dev/null" then none
  else if start.isPrefixOf token then some (token.drop start.length)
  else some token

/-! ## headers and blocks -/

/-- `text.find(part)`. -/
def find (part text : Str) : Option Nat := (occurrences part text 0).head?

/-- `_header_line_paths`. -/
def headerLinePaths (named : Str → Option Nat) (line : Str) : Option Str × Option Str :=
  let rest := line.drop diffHeader.length
  if rest.head? = some quote then
    match find [quote, 32, quote] rest with
    | none => (none, none)
    | some closing =>
        (sidePath named (rest.take (closing + 1)) (ascii "a/"),
          sidePath named (rest.drop (closing + 2)) (ascii "b/"))
  else if !(ascii "a/").isPrefixOf rest then (none, none)
  else
    let body := rest.drop 2
    let half := (body.length - 3) / 2
    if 0 < half ∧ (body.drop half).take 3 = ascii " b/" ∧ body.take half = body.drop (half + 3) then
      (some (body.take half), some (body.take half))
    else match find (ascii " b/") body with
      | none => (none, none)
      | some marker => (some (body.take marker), some (body.drop (marker + 3)))

/-- What became of a file. -/
inductive FileOp where
  | added
  | modified
  | deleted
deriving DecidableEq, Repr

/-- What is read from the lines behind a header. -/
structure BlockRead where
  oldPath : Option Str := none
  newPath : Option Str := none
  renameFrom : Option Str := none
  renameTo : Option Str := none
  added : Bool := false
  deleted : Bool := false
deriving DecidableEq, Repr

/-- One line of `_classify_block`. -/
def BlockRead.line (named : Str → Option Nat) (read : BlockRead) (line : Str) : BlockRead :=
  if startsWithAny ["new file mode"] line then { read with added := true }
  else if startsWithAny ["deleted file mode"] line then { read with deleted := true }
  else if startsWithAny ["rename from "] line then
    { read with renameFrom := some (gitUnquote named (line.drop 12)) }
  else if startsWithAny ["rename to "] line then
    { read with renameTo := some (gitUnquote named (line.drop 10)) }
  else if startsWithAny ["--- "] line then
    { read with oldPath := sidePath named (line.drop 4) (ascii "a/") }
  else if startsWithAny ["+++ "] line then
    { read with newPath := sidePath named (line.drop 4) (ascii "b/") }
  else read

/-- The loop of `_classify_block`: it ends where the body begins. -/
def readBlock (named : Str → Option Nat) : BlockRead → List Str → BlockRead
  | read, [] => read
  | read, line :: lines =>
      if startsWithAny ["@@", "GIT binary patch", "Binary files "] line then read
      else readBlock named (read.line named line) lines

/-- The first of some paths that is neither missing nor empty. -/
def firstPath (paths : List (Option Str)) : Option Str := (paths.filterMap id).find? (· ≠ [])

/-- `_classify_block`. -/
def classifyBlock (named : Str → Option Nat) : List Str → List (Str × FileOp)
  | [] => []
  | header :: lines =>
      let read := readBlock named {} lines
      match firstPath [read.renameFrom], firstPath [read.renameTo] with
      | some before, some after => [(before, .deleted), (after, .added)]
      | _, _ =>
          let (fallbackOld, fallbackNew) := headerLinePaths named header
          if read.deleted then
            ((firstPath [read.oldPath, fallbackOld]).map fun path => (path, .deleted)).toList
          else
            ((firstPath [read.newPath, fallbackNew, read.oldPath, fallbackOld]).map fun path =>
              (path, if read.added then .added else .modified)).toList

/-- `text.split("\n")`. -/
def splitNewline : Str → List Str
  | [] => [[]]
  | c :: rest =>
      if c = 10 then [] :: splitNewline rest
      else match splitNewline rest with
        | [] => [[c]]
        | line :: lines => (c :: line) :: lines

/-- The blocks of `_parse_worktree_diff`; `current` is the last one so far. -/
def worktreeBlocks : (current : Option (List Str)) → List Str → List (List Str)
  | current, [] => current.toList
  | current, line :: lines =>
      if diffHeader.isPrefixOf line then current.toList ++ worktreeBlocks (some [line]) lines
      else worktreeBlocks (current.map (· ++ [line])) lines

/-- `_parse_worktree_diff`. -/
def parseWorktreeDiff (named : Str → Option Nat) (diff : Str) : List (Str × FileOp) :=
  (worktreeBlocks none (splitNewline diff)).flatMap (classifyBlock named)

/-- `patch_paths`. -/
def patchPaths (patch : Str) : Option (List Str) :=
  (patchEntries patch).map fun entries =>
    ((entries.flatMap fun entry => [entry.1, entry.2]).filter (· ≠ [])).eraseDups

/-! ## what Git writes, unescaped -/

variable {named : Str → Option Nat}

theorem unicodeEscape_skip (skipped rest : List Nat) :
    unicodeEscape named skipped.length (skipped ++ rest) = unicodeEscape named 0 rest := by
  induction skipped with
  | nil => rfl
  | cons b skipped ih =>
      rw [List.length_cons, List.cons_append, unicodeEscape]
      exact ih

theorem unicodeEscape_backslash {rest : List Nat} {text : Str} {skipped more : List Nat}
    (hescape : escapeAt named rest = some (text, skipped.length)) (hrest : rest = skipped ++ more) :
    unicodeEscape named 0 (backslash :: rest) = (unicodeEscape named 0 more).map (text ++ ·) := by
  rw [unicodeEscape, if_neg (not_not.mpr rfl), hescape, hrest]
  change (unicodeEscape named skipped.length (skipped ++ more)).map (text ++ ·) = _
  rw [unicodeEscape_skip]

/-- **An escape of Git is an escape of the codec.** -/
theorem unicodeEscape_escapeByte {b : Nat} (h : b < 256) (rest : List Nat) :
    unicodeEscape named 0 (escapeByte b ++ rest) = (unicodeEscape named 0 rest).map (b :: ·) := by
  have hletter : ∀ b < 256, ∀ c ∈ letter? b,
      c ≠ 10 ∧ c ∈ ascii "abfnrtv\\\"'" ∧ escapeValue c = b := by
    decide +kernel
  unfold escapeByte
  cases hc : letter? b with
  | some c =>
      obtain ⟨hnl, hmem, hvalue⟩ := hletter b h c hc
      have hescape : escapeAt named (c :: rest) = some ([b], [c].length) := by
        rw [escapeAt, if_neg hnl, if_pos hmem, hvalue]
        rfl
      exact unicodeEscape_backslash hescape rfl
  | none =>
      dsimp only
      split
      · rename_i hplain
        rw [isPlain_iff] at hplain
        rw [List.cons_append, List.nil_append, unicodeEscape, if_pos hplain.2.2]
      · have hdigit : ∀ d < 8, isOctal (48 + d) = true ∧ 48 + d ≠ 10 ∧
            48 + d ∉ ascii "abfnrtv\\\"'" := by decide
        obtain ⟨hone, hnl, hnot⟩ := hdigit (b / 64) (by omega)
        have htwo := (hdigit (b / 8 % 8) (by omega)).1
        have hthree := (hdigit (b % 8) (by omega)).1
        have hvalue : octalValue [48 + b / 64, 48 + b / 8 % 8, 48 + b % 8] = b := by
          simp only [octalValue, List.foldl_cons, List.foldl_nil]
          omega
        have hescape : escapeAt named ([48 + b / 64, 48 + b / 8 % 8, 48 + b % 8] ++ rest) =
            some ([b], [48 + b / 64, 48 + b / 8 % 8, 48 + b % 8].length) := by
          rw [List.cons_append, escapeAt, if_neg hnl, if_neg hnot, if_pos hone]
          simp only [List.cons_append, List.nil_append, List.take_succ_cons, List.take_zero,
            List.takeWhile_cons, hone, htwo, hthree,
            if_true, List.takeWhile_nil, hvalue]
        exact unicodeEscape_backslash hescape rfl

/-- **Escaped bytes are unescaped.** -/
theorem unicodeEscape_escaped {bytes : List Nat} (h : ∀ b ∈ bytes, b < 256) :
    unicodeEscape named 0 (bytes.flatMap escapeByte) = some bytes := by
  induction bytes with
  | nil => rfl
  | cons b bytes ih =>
      rw [List.forall_mem_cons] at h
      rw [List.flatMap_cons, unicodeEscape_escapeByte h.1, ih h.2]
      rfl

theorem encodeStrict_ascii {text : Str} (h : ∀ c ∈ text, c < 128) :
    encodeStrict text = some text := by
  have hscalar : text.all isScalar = true := by
    rw [List.all_eq_true]
    intro c hc
    rw [isScalar_iff]
    exact .inl (Nat.lt_trans (h c hc) (by decide))
  have hsame : encodeText text = text := by
    induction text with
    | nil => rfl
    | cons c text ih =>
        rw [List.forall_mem_cons] at h
        rw [List.all_cons, Bool.and_eq_true] at hscalar
        have hrest := ih h.2 hscalar.2
        rw [encodeText] at hrest
        rw [encodeText, List.flatMap_cons, encodeChar_of_lt h.1, hrest]
        rfl
  rw [encodeStrict, if_pos hscalar, hsame]

/-- ASCII characters in front are decoded to themselves. -/
theorem decodeStrict_ascii_append {start : Str} (h : ∀ c ∈ start, c < 128) (rest : List Nat) :
    decodeStrict (start ++ rest) = (decodeStrict rest).map (start ++ ·) := by
  have hscalar : start.all isScalar = true := by
    rw [List.all_eq_true]
    intro c hc
    rw [isScalar_iff]
    exact .inl (Nat.lt_trans (h c hc) (by decide))
  rw [decodeStrict, decodeStrict, decodeUtf8_ascii_append h, List.all_append, hscalar,
    Bool.true_and]
  split <;> rfl

theorem lt_of_isPlain {bytes : List Nat} (h : bytes.all isPlain = true) : ∀ c ∈ bytes, c < 128 := by
  intro c hc
  have hplain := (isPlain_iff.mp (List.all_eq_true.mp h c hc)).1
  omega

theorem decodeStrict_plain {bytes : List Nat} (h : bytes.all isPlain = true) :
    decodeStrict bytes = some bytes := by
  have hascii := decodeStrict_ascii_append (lt_of_isPlain h) []
  rw [List.append_nil] at hascii
  rw [hascii]
  change some (bytes ++ []) = _
  rw [List.append_nil]

/-- **A written path is decoded, or kept as it is written** where its bytes are no UTF-8. -/
theorem gitUnquote_writePath {bytes : List Nat} (h : ∀ b ∈ bytes, b < 256) :
    gitUnquote named (writePath bytes) = (decodeStrict bytes).getD (writePath bytes) := by
  have hprintable := printable_writePath h
  rw [writePath] at hprintable ⊢
  split
  · rename_i hplain
    have hhead : bytes.head? ≠ some quote := by
      intro hhead
      have := List.all_eq_true.mp hplain quote (List.mem_of_mem_head? hhead)
      contradiction
    rw [gitUnquote, if_pos (.inr (.inl hhead)), decodeStrict_plain hplain]
    rfl
  · rename_i hquoted
    rw [if_neg hquoted] at hprintable
    have hquotes : ¬((quote :: (bytes.flatMap escapeByte ++ [quote])).length < 2 ∨
        (quote :: (bytes.flatMap escapeByte ++ [quote])).head? ≠ some quote ∨
        (quote :: (bytes.flatMap escapeByte ++ [quote])).getLast? ≠ some quote) := by
      rw [← List.cons_append, List.getLast?_concat, List.cons_append, List.head?_cons]
      simp only [List.length_cons, List.length_append, ne_eq, not_true_eq_false, or_false]
      omega
    have hascii : ∀ c ∈ bytes.flatMap escapeByte, c < 128 := by
      intro c hc
      have := hprintable c (List.mem_cons_of_mem _ (List.mem_append_left _ hc))
      omega
    have hlatin : encodeLatin1 bytes = some bytes := by
      rw [encodeLatin1, if_pos]
      rw [List.all_eq_true]
      intro b hb
      exact decide_eq_true (h b hb)
    rw [gitUnquote, if_neg hquotes, List.drop_one, List.tail_cons, List.dropLast_concat,
      encodeStrict_ascii hascii]
    simp only [Option.bind_eq_bind, Option.bind_some, unicodeEscape_escaped h, hlatin]

/-! ## the path of a side -/

/-- What is shown for a path: its text, or the token if its bytes are no UTF-8. -/
def shownPath (token : Str) (path : Path) : Str := (decodeStrict path.bytes).getD token

/-- **The path of a side**, with a tab behind it or not. -/
theorem sidePath_token (second : Bool) (path : Path) {tail : Str} (htail : tail = [] ∨ tail = [9]) :
    sidePath named (token second path ++ tail) (sideOf second ++ ascii "/") =
      some (shownPath (token second path) path) := by
  have hcut : (token second path ++ tail).takeWhile (· ≠ 9) = token second path := by
    have hno : ∀ c ∈ token second path, decide (c ≠ 9) = true := by
      intro c hc
      have := (printable_token c hc).1
      exact decide_eq_true (by omega)
    rw [List.takeWhile_append_of_pos hno]
    obtain rfl | rfl := htail
    · rw [List.takeWhile_nil, List.append_nil]
    · rw [List.takeWhile_cons, if_neg (by decide), List.append_nil]
  have hside : ∀ second, ∀ c ∈ sideOf second ++ ascii "/", c < 128 := by decide
  have hnull : ∀ (second : Bool) (text : Str), ¬sideOf second ++ ascii "/" ++ text = ascii "/dev/null" := by
    have hhead : ascii "/dev/null" = 47 :: ascii "dev/null" := by decide
    rw [hhead]
    intro second text h
    cases second <;> exact absurd (List.cons.inj h).1 (by decide)
  have hunquote : gitUnquote named (token second path) =
      ((decodeStrict path.bytes).map (sideOf second ++ ascii "/" ++ ·)).getD (token second path) := by
    rw [token, gitUnquote_writePath (side_bytes second path),
      decodeStrict_ascii_append (hside second)]
  rw [sidePath, hcut, hunquote, shownPath]
  cases hdecode : decodeStrict path.bytes with
  | some text =>
      simp only [Option.map_some, Option.getD_some]
      rw [if_neg (hnull second text),
        if_pos (List.isPrefixOf_iff_prefix.mpr (List.prefix_append _ _)),
        List.drop_left]
  | none =>
      have hquoted : ¬path.bytes.all isPlain = true := by
        intro hplain
        rw [decodeStrict_plain hplain] at hdecode
        contradiction
      simp only [Option.map_none, Option.getD_none]
      rw [token_quoted second hquoted]
      have hhead : ascii "/dev/null" = 47 :: ascii "dev/null" := by decide
      rw [if_neg, if_neg]
      · cases second <;> simp [sideOf, ascii, quote]
      · rw [hhead]
        exact fun h => absurd (List.cons.inj h).1 (by decide)

/-! ## the header of one path -/

/-- The search finds the first place. -/
theorem find_eq_some {part text : Str} {n : Nat} (hn : Occurs part text n)
    (hfirst : ∀ m < n, ¬Occurs part text m) : find part text = some n := by
  have hmem := hn
  rw [Occurs] at hn
  rw [find, occurrences, List.head?_filter, List.find?_range'_eq_some, decide_eq_true_eq,
    List.mem_range'_1]
  refine ⟨hn.2, ⟨Nat.zero_le _, by omega⟩, fun m _ hm => ?_⟩
  have hnot := hfirst m hm
  rw [Occurs, not_and] at hnot
  rw [Bool.not_eq_true', decide_eq_false_iff_not]
  exact hnot (by omega)

/-- Inside an escaped text `" "` is found only where the text ends in a quote and a
space. -/
theorem quoteGap_escaped {bytes : List Nat} (h : ∀ b ∈ bytes, b < 256) {tail : Str} {i : Nat}
    (hi : i < (bytes.flatMap escapeByte).length)
    (hgap : [quote, 32, quote] <+: (bytes.flatMap escapeByte ++ quote :: tail).drop i) :
    [quote, 32] <:+ bytes := by
  induction bytes generalizing i with
  | nil => exact absurd hi (Nat.not_lt_zero _)
  | cons b bytes ih =>
      rw [List.forall_mem_cons] at h
      rw [List.flatMap_cons, List.length_append] at hi
      rw [List.flatMap_cons, List.append_assoc] at hgap
      have hnoquote : ∀ {c : Nat} {rest : Str}, [quote, 32, quote] <+: c :: rest →
          c = quote ∧ [32, quote] <+: rest := by
        intro c rest hpre
        rw [List.cons_prefix_cons] at hpre
        exact ⟨hpre.1.symm, hpre.2⟩
      cases Nat.lt_or_ge i (escapeByte b).length with
      | inr hbehind =>
          rw [List.drop_append, List.drop_of_length_le hbehind, List.nil_append] at hgap
          exact (ih h.2 (by omega) hgap).trans (List.suffix_cons b bytes)
      | inl hinside =>
          -- the only quote of an escape is that of an escaped quote
          have hquote : ∀ b < 256, ∀ i < (escapeByte b).length, (escapeByte b)[i]? = some quote →
              b = quote ∧ i = 1 := by
            decide +kernel
          have hlen : ∀ b < 256, escapeByte b ≠ [] ∧ ((escapeByte b).head? = some 32 → b = 32) ∧
              (escapeByte b).head? ≠ some quote := by
            decide +kernel
          have hat : (escapeByte b)[i]? = some quote := by
            have hget := congrArg List.head? (List.prefix_iff_eq_take.mp hgap)
            rw [List.head?_cons, List.head?_take, if_neg (by decide), List.head?_drop,
              List.getElem?_append_left hinside] at hget
            exact hget.symm
          obtain ⟨rfl, rfl⟩ := hquote b h.1 i hinside hat
          have hescape : escapeByte quote = [backslash, quote] := by decide
          rw [hescape] at hgap
          have hrest : [32, quote] <+: bytes.flatMap escapeByte ++ quote :: tail :=
            (hnoquote hgap).2
          cases bytes with
          | nil => exact absurd (List.cons_prefix_cons.mp hrest).1 (by decide)
          | cons b bytes =>
              obtain ⟨hne, hspace, -⟩ := hlen b (h.2 b List.mem_cons_self)
              rw [List.flatMap_cons, List.append_assoc] at hrest
              have hhead : (escapeByte b).head? = some 32 := by
                obtain ⟨c, more, hcons⟩ := List.exists_cons_of_ne_nil hne
                rw [hcons, List.cons_append, List.cons_prefix_cons] at hrest
                rw [hcons, List.head?_cons, hrest.1]
              obtain rfl := hspace hhead
              have hthird : [quote] <+: bytes.flatMap escapeByte ++ quote :: tail :=
                (List.cons_prefix_cons.mp hrest).2
              cases bytes with
              | nil => exact List.suffix_refl _
              | cons b bytes =>
                  obtain ⟨hne, -, hno⟩ := hlen b (h.2 b (by simp))
                  obtain ⟨c, more, hcons⟩ := List.exists_cons_of_ne_nil hne
                  rw [List.flatMap_cons, List.append_assoc, hcons, List.cons_append,
                    List.cons_prefix_cons] at hthird
                  rw [hcons, List.head?_cons, ← hthird.1] at hno
                  exact absurd rfl hno

/-- A header without its line end. -/
def cutHeader (oldPath newPath : Path) : Str :=
  diffHeader ++ token false oldPath ++ [32] ++ token true newPath

theorem drop_cutHeader (oldPath newPath : Path) :
    (cutHeader oldPath newPath).drop diffHeader.length =
      token false oldPath ++ [32] ++ token true newPath := by
  rw [cutHeader, List.append_assoc, List.append_assoc, List.drop_left, List.append_assoc]

/-- **The header of a path that needs no quotes.** -/
theorem headerLinePaths_plain (path : Path) (h : path.bytes.all isPlain = true) :
    headerLinePaths named (cutHeader path path) =
      (some (shownPath (token false path) path), some (shownPath (token true path) path)) := by
  have htext : token false path ++ [32] ++ token true path =
      97 :: 47 :: (path.bytes ++ ascii " b/" ++ path.bytes) := by
    have ha : sideOf false ++ ascii "/" = [97, 47] := by decide
    have hb : [32] ++ (sideOf true ++ ascii "/") = ascii " b/" := by decide
    rw [token_plain h, token_plain h, ha, ← hb]
    simp only [List.append_assoc, List.cons_append, List.nil_append]
  have hpos := List.length_pos_of_ne_nil path.nonempty
  have hlen : (ascii " b/").length = 3 := by decide
  have hhalf : ((path.bytes ++ ascii " b/" ++ path.bytes).length - 3) / 2 = path.bytes.length := by
    rw [List.length_append, List.length_append, hlen]
    omega
  have hdrop : (path.bytes ++ ascii " b/" ++ path.bytes).drop path.bytes.length =
      ascii " b/" ++ path.bytes := by
    rw [List.append_assoc, List.drop_left]
  have hrest : (path.bytes ++ ascii " b/" ++ path.bytes).drop (path.bytes.length + 3) =
      path.bytes := by
    rw [← List.drop_drop, hdrop, ← hlen, List.drop_left]
  have htake : (path.bytes ++ ascii " b/" ++ path.bytes).take path.bytes.length = path.bytes := by
    rw [List.append_assoc, List.take_left]
  have hquote : ¬(97 :: 47 :: (path.bytes ++ ascii " b/" ++ path.bytes)).head? = some quote := by
    rw [List.head?_cons]
    decide
  have hstart : ascii "a/" = [97, 47] := by decide
  rw [headerLinePaths, drop_cutHeader, htext]
  dsimp only
  rw [if_neg hquote, if_neg (by rw [hstart]; simp), List.drop_succ_cons, List.drop_succ_cons,
    List.drop_zero, hhalf, if_pos]
  · rw [htake, shownPath, shownPath, decodeStrict_plain h]
    rfl
  · exact ⟨hpos, by rw [hdrop, ← hlen, List.take_left], by rw [htake, hrest]⟩

/-- **The header of a quoted path**, unless the path ends in a quote and a space. -/
theorem headerLinePaths_quoted (path : Path) (h : ¬path.bytes.all isPlain = true)
    (hend : ¬[quote, 32] <:+ path.bytes) :
    headerLinePaths named (cutHeader path path) =
      (some (shownPath (token false path) path), some (shownPath (token true path) path)) := by
  have hsmall := side_bytes false path
  generalize hbytes : sideOf false ++ ascii "/" ++ path.bytes = bytes at hsmall
  have hold : token false path = quote :: (bytes.flatMap escapeByte ++ [quote]) := by
    rw [token_quoted false h, hbytes]
  obtain ⟨back, hnew⟩ : ∃ back, token true path = quote :: back := ⟨_, token_quoted true h⟩
  have htext : token false path ++ [32] ++ token true path =
      quote :: (bytes.flatMap escapeByte ++ quote :: (32 :: quote :: back)) := by
    rw [hold, hnew]
    simp only [List.append_assoc, List.cons_append, List.nil_append]
  have hsuffix : ¬[quote, 32] <:+ bytes := by
    intro hsuf
    refine hend (List.suffix_of_suffix_length_le hsuf (hbytes ▸ List.suffix_append _ _) ?_)
    by_contra hshort
    have hone : path.bytes.length = 1 := by
      have := List.length_pos_of_ne_nil path.nonempty
      simp only [List.length_cons, List.length_nil] at hshort
      omega
    obtain ⟨b, hb⟩ := List.length_eq_one_iff.mp hone
    have hslash : bytes = sideOf false ++ [47, b] := by
      rw [← hbytes, hb]
      rfl
    rw [hslash] at hsuf
    have heq := List.suffix_iff_eq_drop.mp hsuf
    simp [sideOf, ascii, quote] at heq
  have hfind : find [quote, 32, quote]
      (quote :: (bytes.flatMap escapeByte ++ quote :: (32 :: quote :: back))) =
        some ((bytes.flatMap escapeByte).length + 1) := by
    refine find_eq_some ⟨by simp, ?_⟩ fun m hm hocc => ?_
    · rw [List.drop_succ_cons, List.drop_left]
      rfl
    · have hgap : [quote, 32, quote] <+:
          (quote :: (bytes.flatMap escapeByte ++ quote :: (32 :: quote :: back))).drop m := by
        rw [List.prefix_iff_eq_take]
        exact hocc.2.symm
      cases m with
      | zero =>
          rw [List.drop_zero, List.cons_prefix_cons, ← hbytes] at hgap
          exact absurd (List.cons_prefix_cons.mp hgap.2).1 (by decide)
      | succ m =>
          rw [List.drop_succ_cons] at hgap
          exact hsuffix (quoteGap_escaped hsmall (by omega) hgap)
  have htake : (quote :: (bytes.flatMap escapeByte ++ quote :: (32 :: quote :: back))).take
      ((bytes.flatMap escapeByte).length + 1 + 1) = token false path := by
    rw [hold, List.take_succ_cons, List.take_length_add_append]
    rfl
  have hdrop : (quote :: (bytes.flatMap escapeByte ++ quote :: (32 :: quote :: back))).drop
      ((bytes.flatMap escapeByte).length + 1 + 2) = token true path := by
    rw [hnew, show (bytes.flatMap escapeByte).length + 1 + 2 =
      (bytes.flatMap escapeByte).length + 2 + 1 by omega, List.drop_succ_cons,
      List.drop_length_add_append]
    rfl
  rw [headerLinePaths, drop_cutHeader, htext]
  dsimp only
  rw [List.head?_cons, if_pos rfl, hfind]
  dsimp only
  rw [htake, hdrop]
  have hfirst := @sidePath_token named false path [] (.inl rfl)
  have hsecond := @sidePath_token named true path [] (.inl rfl)
  rw [List.append_nil] at hfirst hsecond
  exact Prod.ext hfirst hsecond

end OpenCollab.PatchPaths
