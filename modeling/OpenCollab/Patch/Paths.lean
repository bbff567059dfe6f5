import OpenCollab.Lib.Windows

/-!
# OpenCollab.Patch.Paths

The file paths of a Git patch (`application/patch_paths.py`): the patch is split into
its blocks, and the paths of a block are read from its header lines.

* `decodeGitCPath_writePath` — a path as Git writes it, quoted or not, is read back;
* `gitDiffEndpoint_token` — so is the path of a side;
* `gitHeaderTokens_writeHeader` — the header of one path names it twice.

A text is the list of its code points, since a path that is not UTF-8 is read with
lone surrogates.
-/

namespace OpenCollab.PatchPaths

open Lib

/-- A Python string. -/
abbrev Str := List Nat

/-- The string of a literal. -/
def ascii (text : String) : Str := text.toList.map Char.toNat

/-! ## bytes -/

/-- `char.encode("utf-8", errors="surrogatepass")`. -/
def encodeChar (c : Nat) : List Nat :=
  if c < 0x80 then [c]
  else if c < 0x800 then [0xC0 + c / 64, 0x80 + c % 64]
  else if c < 0x10000 then [0xE0 + c / 4096, 0x80 + c / 64 % 64, 0x80 + c % 64]
  else [0xF0 + c / 262144, 0x80 + c / 4096 % 64, 0x80 + c / 64 % 64, 0x80 + c % 64]

/-- A continuation byte between two bounds. -/
def within (low high : Nat) (b : Nat) : Bool := decide (low ≤ b) && decide (b ≤ high)

/-- The code point that well-formed bytes start with, and how many bytes follow the
first one. -/
def decodeFirst : List Nat → Option (Nat × Nat)
  | [] => none
  | a :: rest =>
      if a < 0x80 then some (a, 0)
      else match rest with
        | [] => none
        | b :: rest =>
            if within 0xC2 0xDF a && within 0x80 0xBF b then some ((a - 0xC0) * 64 + (b - 0x80), 1)
            else match rest with
              | [] => none
              | c :: rest =>
                  let low := if a = 0xE0 then 0xA0 else 0x80
                  let high := if a = 0xED then 0x9F else 0xBF
                  if within 0xE0 0xEF a && within low high b && within 0x80 0xBF c then
                    some ((a - 0xE0) * 4096 + (b - 0x80) * 64 + (c - 0x80), 2)
                  else match rest with
                    | [] => none
                    | d :: _ =>
                        let low := if a = 0xF0 then 0x90 else 0x80
                        let high := if a = 0xF4 then 0x8F else 0xBF
                        if within 0xF0 0xF4 a && within low high b && within 0x80 0xBF c &&
                            within 0x80 0xBF d then
                          some ((a - 0xF0) * 262144 + (b - 0x80) * 4096 + (c - 0x80) * 64 +
                            (d - 0x80), 3)
                        else none

/-- `decoded.decode("utf-8", errors="surrogateescape")`; `skip` bytes belong to a code
point.  A byte that starts no code point is escaped alone: the bytes Python escapes
with it start none either. -/
def decodeUtf8 : (skip : Nat) → List Nat → Str
  | _, [] => []
  | skip + 1, _ :: rest => decodeUtf8 skip rest
  | 0, b :: rest =>
      match decodeFirst (b :: rest) with
      | some (c, following) => c :: decodeUtf8 following rest
      | none => (0xDC00 + b) :: decodeUtf8 0 rest

/-! ## quoted paths -/

def backslash : Nat := 92
def quote : Nat := 34

/-- `char in "01234567"`. -/
def isOctal (c : Nat) : Bool := decide (48 ≤ c) && decide (c ≤ 55)

/-- `int(digits, 8)`. -/
def octalValue (digits : Str) : Nat := digits.foldl (fun n d => n * 8 + (d - 48)) 0

/-- `_GIT_C_ESCAPES.get(escaped, ord(escaped))`. -/
def escapeValue (escaped : Nat) : Nat :=
  if escaped = 97 then 0x07
  else if escaped = 98 then 0x08
  else if escaped = 116 then 0x09
  else if escaped = 110 then 0x0A
  else if escaped = 118 then 0x0B
  else if escaped = 102 then 0x0C
  else if escaped = 114 then 0x0D
  else escaped

/-- `bytearray.append`; `none`: the `ValueError` of a number that is no byte. -/
def appendByte (n : Nat) (rest : Option (List Nat)) : Option (List Nat) :=
  if n < 256 then rest.map (n :: ·) else none

/-- The loop of `decode_git_c_path`; `skip` characters belong to an escape. -/
def decodeBytes (quoted : Bool) : (skip : Nat) → Str → Option (List Nat)
  | _, [] => some []
  | skip + 1, _ :: rest => decodeBytes quoted skip rest
  | 0, c :: rest =>
      if quoted && c = quote then some []
      else if c ≠ backslash then (decodeBytes quoted 0 rest).map (encodeChar c ++ ·)
      else match rest with
        | [] => some [backslash]
        | escaped :: more =>
            if isOctal escaped then
              let digits := ((escaped :: more).take 3).takeWhile isOctal
              appendByte (octalValue digits) (decodeBytes quoted digits.length (escaped :: more))
            else appendByte (escapeValue escaped) (decodeBytes quoted 1 (escaped :: more))

/-- `decode_git_c_path`. -/
def decodeGitCPath (value : Str) : Option Str :=
  let quoted := decide (value.head? = some quote)
  (decodeBytes quoted 0 (if quoted then value.drop 1 else value)).map (decodeUtf8 0)

/-! ## headers -/

/-- `text.rstrip("\r\n")`. -/
def rstripNewline (text : Str) : Str :=
  (text.reverse.dropWhile fun c => c = 10 || c = 13).reverse

/-- What follows a prefix. -/
def stripPrefix (start text : Str) : Option Str :=
  if start.isPrefixOf text then some (text.drop start.length) else none

/-- The text up to the quote that closes it, and what follows. -/
def closeQuote : Str → Option (Str × Str)
  | [] => none
  | c :: rest =>
      if c = backslash then
        match rest with
        | [] => none
        | escaped :: rest => (closeQuote rest).map fun found => (c :: escaped :: found.1, found.2)
      else if c = quote then some ([c], rest)
      else (closeQuote rest).map fun found => (c :: found.1, found.2)

def diffHeader : Str := ascii "diff --git "

/-- `git_header_tokens`. -/
def gitHeaderTokens (header : Str) : List Str :=
  match stripPrefix diffHeader (rstripNewline header) with
  | none => []
  | some text =>
      if text.head? = some quote then
        match closeQuote (text.drop 1) with
        | none => []
        | some (first, rest) =>
            let target := rest.dropWhile (· = 32)
            if target ≠ [] then [quote :: first, target] else [quote :: first]
      else if !(ascii "a/").isPrefixOf text then []
      else
        let body := text.drop 2
        let half := (body.length - 3) / 2
        if 3 ≤ body.length ∧ (body.drop half).take 3 = ascii " b/" ∧
            body.take half = body.drop (half + 3) then
          [ascii "a/" ++ body.take half, ascii "b/" ++ body.drop (half + 3)]
        else match (occurrences (ascii " \"b/") text 0).getLast? with
          | some split => [text.take split, text.drop (split + 1)]
          | none => match (occurrences (ascii " b/") text 0).getLast? with
            | some split => [text.take split, text.drop (split + 1)]
            | none => [text]

/-- `git_diff_endpoint`. -/
def gitDiffEndpoint (token side : Str) : Option Str :=
  (decodeGitCPath token).map fun path =>
    if path = ascii "/dev/null" then []
    else if (side ++ ascii "/").isPrefixOf path then path.drop (side ++ ascii "/").length
    else path

/-! ## blocks -/

/-- `text.split("\n")` with the line ends put back. -/
def splitKeep : Str → List Str
  | [] => []
  | c :: rest =>
      if c = 10 then [c] :: splitKeep rest
      else match splitKeep rest with
        | [] => [[c]]
        | line :: lines => (c :: line) :: lines

/-- The loop of `split_patch_blocks`. -/
def splitBlocks : (current : List Str) → List Str → List (List Str)
  | current, [] => if current = [] then [] else [current]
  | current, line :: lines =>
      if diffHeader.isPrefixOf line && current ≠ [] then current :: splitBlocks [line] lines
      else splitBlocks (current ++ [line]) lines

/-- `split_patch_blocks`. -/
def splitPatchBlocks (patch : Str) : List (List Str) := splitBlocks [] (splitKeep patch)

/-- `line.removesuffix("\t")`. -/
def removeTab (line : Str) : Str := if line.getLast? = some 9 then line.dropLast else line

/-- `line.split(" ", 2)[2]`. -/
def thirdWord (line : Str) : Str :=
  (((line.dropWhile (· ≠ 32)).drop 1).dropWhile (· ≠ 32)).drop 1

/-- The line starts with one of the texts. -/
def startsWithAny (starts : List String) (line : Str) : Bool :=
  starts.any fun start => (ascii start).isPrefixOf line

/-- The loop of `patch_entries` over the lines behind a header. -/
def readLines : (oldPath newPath : Str) → List Str → Option (Str × Str)
  | oldPath, newPath, [] => some (oldPath, newPath)
  | oldPath, newPath, line :: lines => do
      let line := rstripNewline line
      if startsWithAny ["--- "] line then
        readLines (← gitDiffEndpoint (removeTab (line.drop 4)) (ascii "a")) newPath lines
      else if startsWithAny ["+++ "] line then
        readLines oldPath (← gitDiffEndpoint (removeTab (line.drop 4)) (ascii "b")) lines
      else if startsWithAny ["rename from ", "copy from "] line then
        readLines (← decodeGitCPath (thirdWord line)) newPath lines
      else if startsWithAny ["rename to ", "copy to "] line then
        readLines oldPath (← decodeGitCPath (thirdWord line)) lines
      else if startsWithAny ["@@", "GIT binary patch", "Binary files "] line then
        some (oldPath, newPath)
      else readLines oldPath newPath lines

/-- The paths of one block; `none`: its first line is no header, or it names none. -/
def blockEntry : List Str → Option (Option (Str × Str))
  | [] => some none
  | header :: lines =>
      if !diffHeader.isPrefixOf header then some none
      else do
        let (oldPath, newPath) ← readLines [] [] lines
        if oldPath = [] ∧ newPath = [] then
          match gitHeaderTokens header with
          | first :: second :: _ =>
              let oldPath ← gitDiffEndpoint first (ascii "a")
              let newPath ← gitDiffEndpoint second (ascii "b")
              if oldPath ≠ [] ∨ newPath ≠ [] then some (some (oldPath, newPath)) else some none
          | _ => some none
        else some (some (oldPath, newPath))

/-- `patch_entries`; `none`: an escape in a path is no byte, and the call raises. -/
def patchEntries (patch : Str) : Option (List (Str × Str)) :=
  ((splitPatchBlocks patch).mapM blockEntry).map fun entries => entries.filterMap id

/-! ## how Git writes a path -/

/-- The letter of a byte that Git writes as a backslash and a letter. -/
def letter? (b : Nat) : Option Nat :=
  if b = 0x07 then some 97
  else if b = 0x08 then some 98
  else if b = 0x09 then some 116
  else if b = 0x0A then some 110
  else if b = 0x0B then some 118
  else if b = 0x0C then some 102
  else if b = 0x0D then some 114
  else if b = quote then some quote
  else if b = backslash then some backslash
  else none

/-- A byte that needs no quotes. -/
def isPlain (b : Nat) : Bool :=
  decide (32 ≤ b) && decide (b < 127) && decide (b ≠ quote) && decide (b ≠ backslash)

/-- A byte inside quotes. -/
def escapeByte (b : Nat) : Str :=
  match letter? b with
  | some c => [backslash, c]
  | none => if isPlain b then [b] else [backslash, 48 + b / 64, 48 + b / 8 % 8, 48 + b % 8]

/-- A path as Git writes it: in quotes if one of its bytes needs them. -/
def writePath (bytes : List Nat) : Str :=
  if bytes.all isPlain then bytes else quote :: (bytes.flatMap escapeByte ++ [quote])

/-- A path of the repository. -/
structure Path where
  bytes : List Nat
  nonempty : bytes ≠ []
  small : ∀ b ∈ bytes, b < 256

/-- The path as a Python string. -/
def Path.text (path : Path) : Str := decodeUtf8 0 path.bytes

/-! ## reading it back -/

/-- An escape is a letter that stands for the byte, the byte itself, or its three
octal digits. -/
theorem escapeByte_cases {b : Nat} (h : b < 256) :
    (∃ c, escapeByte b = [backslash, c] ∧ isOctal c = false ∧ escapeValue c = b) ∨
    (escapeByte b = [b] ∧ isPlain b = true) ∨
    (escapeByte b = [backslash, 48 + b / 64, 48 + b / 8 % 8, 48 + b % 8]) := by
  have hletter : ∀ b < 256, ∀ c, letter? b = some c → isOctal c = false ∧ escapeValue c = b := by
    intro b _ c hc
    unfold letter? at hc
    repeat' split at hc
    all_goals first | contradiction | (obtain rfl := Option.some.inj hc; subst_vars; decide)
  unfold escapeByte
  cases hc : letter? b with
  | some c => exact .inl ⟨c, rfl, hletter b h c hc⟩
  | none =>
      right
      dsimp only
      split
      · rename_i hplain
        exact .inl ⟨rfl, hplain⟩
      · exact .inr rfl

theorem isPlain_iff {b : Nat} :
    isPlain b = true ↔ (32 ≤ b ∧ b < 127) ∧ b ≠ quote ∧ b ≠ backslash := by
  simp only [isPlain, Bool.and_eq_true, decide_eq_true_eq, and_assoc]

theorem encodeChar_of_lt {c : Nat} (h : c < 128) : encodeChar c = [c] := by
  rw [encodeChar, if_pos h]

theorem decodeBytes_cons (quoted : Bool) (c : Nat) (rest : Str) :
    decodeBytes quoted 0 (c :: rest) =
      if (quoted && decide (c = quote)) = true then some []
      else if c ≠ backslash then (decodeBytes quoted 0 rest).map (encodeChar c ++ ·)
      else match rest with
        | [] => some [backslash]
        | escaped :: more =>
            if isOctal escaped then
              let digits := ((escaped :: more).take 3).takeWhile isOctal
              appendByte (octalValue digits) (decodeBytes quoted digits.length (escaped :: more))
            else appendByte (escapeValue escaped) (decodeBytes quoted 1 (escaped :: more)) := by
  rw [decodeBytes.eq_def]
  rfl

/-- Inside quotes a character that is neither a quote nor a backslash is itself. -/
theorem decodeBytes_plain_cons {quoted : Bool} {b : Nat} (h : isPlain b = true) (rest : Str) :
    decodeBytes quoted 0 (b :: rest) = (decodeBytes quoted 0 rest).map (b :: ·) := by
  rw [isPlain_iff] at h
  rw [decodeBytes_cons, if_neg (by simp [h.2.1]), if_pos h.2.2, encodeChar_of_lt (by omega)]
  rfl

/-- **An escape is read back as its byte.** -/
theorem decodeBytes_escapeByte {b : Nat} (h : b < 256) (rest : Str) :
    decodeBytes true 0 (escapeByte b ++ rest) = (decodeBytes true 0 rest).map (b :: ·) := by
  have hquote : ¬(true && decide (backslash = quote)) = true := by decide
  obtain ⟨c, hbytes, hoctal, hvalue⟩ | ⟨hbytes, hplain⟩ | hbytes := escapeByte_cases h
  · rw [hbytes, List.cons_append, decodeBytes_cons, if_neg hquote, if_neg (not_not.mpr rfl),
      List.cons_append, List.nil_append]
    dsimp only
    rw [hoctal, if_neg Bool.false_ne_true, hvalue, appendByte, if_pos h, decodeBytes]
  · rw [hbytes, List.cons_append, List.nil_append, decodeBytes_plain_cons hplain]
  · have hoctal : ∀ d < 8, isOctal (48 + d) = true := by decide
    have hone := hoctal (b / 64) (by omega)
    have htwo := hoctal (b / 8 % 8) (by omega)
    have hthree := hoctal (b % 8) (by omega)
    have hvalue : octalValue [48 + b / 64, 48 + b / 8 % 8, 48 + b % 8] = b := by
      simp only [octalValue, List.foldl_cons, List.foldl_nil]
      omega
    rw [hbytes, List.cons_append, decodeBytes_cons, if_neg hquote, if_neg (not_not.mpr rfl)]
    simp only [List.cons_append, List.nil_append, List.take_succ_cons, List.take_zero,
      List.takeWhile_cons, hone, htwo, hthree, if_true, List.takeWhile_nil, List.length_cons,
      List.length_nil, hvalue]
    rw [appendByte, if_pos h, decodeBytes, decodeBytes, decodeBytes]

theorem decodeBytes_quoted {bytes : List Nat} (h : ∀ b ∈ bytes, b < 256) (rest : Str) :
    decodeBytes true 0 (bytes.flatMap escapeByte ++ quote :: rest) = some bytes := by
  induction bytes with
  | nil =>
      have hclosed : (true && decide (quote = quote)) = true := by decide
      rw [List.flatMap_nil, List.nil_append, decodeBytes_cons, if_pos hclosed]
  | cons b bytes ih =>
      rw [List.forall_mem_cons] at h
      rw [List.flatMap_cons, List.append_assoc, decodeBytes_escapeByte h.1, ih h.2]
      rfl

theorem decodeBytes_plain {bytes : List Nat} (h : bytes.all isPlain = true) :
    decodeBytes false 0 bytes = some bytes := by
  induction bytes with
  | nil => rfl
  | cons b bytes ih =>
      rw [List.all_cons, Bool.and_eq_true] at h
      rw [decodeBytes_plain_cons h.1, ih h.2]
      rfl

/-- **A path is read back from what Git writes**, whatever follows its quotes. -/
theorem decodeGitCPath_writePath {bytes : List Nat} (h : ∀ b ∈ bytes, b < 256) :
    decodeGitCPath (writePath bytes) = some (decodeUtf8 0 bytes) := by
  unfold writePath
  split
  · rename_i hplain
    have hhead : ¬bytes.head? = some quote := by
      intro hhead
      have hmem := List.mem_of_mem_head? hhead
      have := List.all_eq_true.mp hplain quote hmem
      contradiction
    rw [decodeGitCPath, decide_eq_false hhead, if_neg Bool.false_ne_true, decodeBytes_plain hplain]
    rfl
  · rw [decodeGitCPath, List.head?_cons, decide_eq_true rfl, if_pos rfl, List.drop_one,
      List.tail_cons, decodeBytes_quoted h]
    rfl

/-! ## headers of one path -/

/-- An escape is printable. -/
theorem printable_escapeByte : ∀ b < 256, ∀ c ∈ escapeByte b, 32 ≤ c ∧ c < 127 := by
  decide +kernel

/-- What Git writes of a path is printable. -/
theorem printable_writePath {bytes : List Nat} (h : ∀ b ∈ bytes, b < 256) :
    ∀ c ∈ writePath bytes, 32 ≤ c ∧ c < 127 := by
  intro c hc
  unfold writePath at hc
  split at hc
  · rename_i hplain
    exact (isPlain_iff.mp (List.all_eq_true.mp hplain c hc)).1
  · rw [List.mem_cons, List.mem_append, List.mem_singleton, List.mem_flatMap] at hc
    obtain rfl | ⟨b, hb, hmem⟩ | rfl := hc
    · decide
    · exact printable_escapeByte b (h b hb) c hmem
    · decide

/-- A character that is neither a quote nor a backslash closes nothing. -/
theorem closeQuote_other {c : Nat} {rest : Str} (hslash : c ≠ backslash) (hquote : c ≠ quote) :
    closeQuote (c :: rest) = (closeQuote rest).map fun found => (c :: found.1, found.2) := by
  rw [closeQuote.eq_def]
  dsimp only
  rw [if_neg hslash, if_neg hquote]

/-- An escape closes nothing. -/
theorem closeQuote_escapeByte {b : Nat} (h : b < 256) (rest : Str) :
    closeQuote (escapeByte b ++ rest) =
      (closeQuote rest).map fun found => (escapeByte b ++ found.1, found.2) := by
  have hescaped : ∀ {c : Nat} {rest : Str}, closeQuote (backslash :: c :: rest) =
      (closeQuote rest).map fun found => (backslash :: c :: found.1, found.2) := by
    intro c rest
    rw [closeQuote.eq_def]
    dsimp only
    rw [if_pos rfl]
  obtain ⟨c, hbytes, -⟩ | ⟨hbytes, hplain⟩ | hbytes := escapeByte_cases h
  · rw [hbytes]
    exact hescaped
  · rw [isPlain_iff] at hplain
    rw [hbytes]
    exact closeQuote_other hplain.2.2 hplain.2.1
  · have hdigit : ∀ d < 8, 48 + d ≠ backslash ∧ 48 + d ≠ quote := by decide
    have htwo := hdigit (b / 8 % 8) (by omega)
    have hthree := hdigit (b % 8) (by omega)
    rw [hbytes, List.cons_append, List.cons_append, hescaped, List.cons_append, List.cons_append,
      List.nil_append, closeQuote_other htwo.1 htwo.2, closeQuote_other hthree.1 hthree.2,
      Option.map_map, Option.map_map]
    rfl

theorem closeQuote_quoted {bytes : List Nat} (h : ∀ b ∈ bytes, b < 256) (rest : Str) :
    closeQuote (bytes.flatMap escapeByte ++ quote :: rest) =
      some (bytes.flatMap escapeByte ++ [quote], rest) := by
  induction bytes with
  | nil =>
      rw [List.flatMap_nil, List.nil_append, closeQuote.eq_def]
      rfl
  | cons b bytes ih =>
      rw [List.forall_mem_cons] at h
      rw [List.flatMap_cons, List.append_assoc, closeQuote_escapeByte h.1, ih h.2]
      simp

/-- What ends in no line end is not stripped. -/
theorem rstripNewline_append_of_ne {text : Str} (hne : text ≠ [])
    (h : ∀ c ∈ text, c ≠ 10 ∧ c ≠ 13) (before : Str) :
    rstripNewline (before ++ text) = before ++ text := by
  obtain ⟨init, c, rfl⟩ := List.eq_nil_or_concat text |>.resolve_left hne
  obtain ⟨hnl, hcr⟩ := h c (by simp)
  have hend : (decide (c = 10) || decide (c = 13)) = false := by
    rw [decide_eq_false hnl, decide_eq_false hcr, Bool.false_or]
  rw [List.concat_eq_append] at *
  rw [rstripNewline, ← List.append_assoc, List.reverse_append, List.reverse_singleton,
    List.singleton_append, List.dropWhile_cons, hend, if_neg Bool.false_ne_true,
    ← List.singleton_append, ← List.reverse_singleton, ← List.reverse_append, List.reverse_reverse,
    List.reverse_singleton]

/-- A start that is not stripped stays. -/
theorem rstripNewline_append {start : Str} (h : rstripNewline start = start) (rest : Str) :
    rstripNewline (start ++ rest) = start ++ rstripNewline rest := by
  rw [rstripNewline, List.reverse_append, List.dropWhile_append]
  split
  · rename_i hempty
    have hrest : rstripNewline rest = [] := by
      rw [rstripNewline, List.isEmpty_iff.mp hempty, List.reverse_nil]
    rw [hrest, List.append_nil]
    exact h
  · rw [List.reverse_append, List.reverse_reverse]
    rfl

/-- `line + "\n"` is stripped to what the line is stripped to. -/
theorem rstripNewline_newline (line : Str) :
    rstripNewline (line ++ [10]) = rstripNewline line := by
  rw [rstripNewline, List.reverse_append, List.reverse_singleton, List.singleton_append,
    List.dropWhile_cons, if_pos (by decide)]
  rfl

/-- A side of the diff: `a` or `b`. -/
def sideOf (second : Bool) : Str := ascii (if second then "b" else "a")

/-- The path of a side as Git writes it. -/
def token (second : Bool) (path : Path) : Str :=
  writePath (sideOf second ++ ascii "/" ++ path.bytes)

variable {second : Bool} {path : Path}

theorem side_bytes (second : Bool) (path : Path) :
    ∀ b ∈ sideOf second ++ ascii "/" ++ path.bytes, b < 256 := by
  have hside : ∀ second, ∀ b ∈ sideOf second ++ ascii "/", b < 256 := by decide
  intro b hb
  obtain hb | hb := List.mem_append.mp hb
  · exact hside second b hb
  · exact path.small b hb

/-- A text without control characters has no line end. -/
theorem newline_not_mem {text : Str} (h : ∀ c ∈ text, 32 ≤ c) : ∀ c ∈ text, c ≠ 10 ∧ c ≠ 13 := by
  intro c hc
  have := h c hc
  omega

theorem printable_token : ∀ c ∈ token second path, 32 ≤ c ∧ c < 127 :=
  printable_writePath (side_bytes second path)

theorem writePath_ne_nil {bytes : List Nat} (h : bytes ≠ []) : writePath bytes ≠ [] := by
  unfold writePath
  split
  · exact h
  · exact List.cons_ne_nil _ _

theorem token_ne_nil : token second path ≠ [] :=
  writePath_ne_nil (List.append_ne_nil_of_right_ne_nil _ path.nonempty)

/-- A byte is decoded to something. -/
theorem decodeUtf8_ne_nil {bytes : List Nat} (h : bytes ≠ []) : decodeUtf8 0 bytes ≠ [] := by
  obtain ⟨b, bytes, rfl⟩ := List.exists_cons_of_ne_nil h
  rw [decodeUtf8]
  split <;> exact List.cons_ne_nil _ _

/-- A path that a text is decoded to is not empty. -/
theorem Path.text_ne_nil (path : Path) : path.text ≠ [] := decodeUtf8_ne_nil path.nonempty

/-- An ASCII character is decoded alone. -/
theorem decodeUtf8_ascii {b : Nat} (h : b < 128) (bytes : List Nat) :
    decodeUtf8 0 (b :: bytes) = b :: decodeUtf8 0 bytes := by
  have hfirst : decodeFirst (b :: bytes) = some (b, 0) := by
    rw [decodeFirst.eq_def]
    dsimp only
    rw [if_pos h]
  rw [decodeUtf8, hfirst]

/-- The letters of a side are decoded to themselves. -/
theorem decodeUtf8_side (second : Bool) (path : Path) :
    decodeUtf8 0 (sideOf second ++ ascii "/" ++ path.bytes) =
      sideOf second ++ ascii "/" ++ path.text := by
  cases second <;> exact decodeUtf8_ascii (by decide) _ |>.trans
    (congrArg _ (decodeUtf8_ascii (by decide) _))

/-- A token that is decoded to the path of a side is read as the path. -/
theorem gitDiffEndpoint_of_decode {text : Str}
    (h : decodeGitCPath text = some (decodeUtf8 0 (sideOf second ++ ascii "/" ++ path.bytes))) :
    gitDiffEndpoint text (sideOf second) = some path.text := by
  have hnull : ¬sideOf second ++ ascii "/" ++ path.text = ascii "/dev/null" := by
    have hhead : ascii "/dev/null" = 47 :: ascii "dev/null" := by decide
    rw [hhead]
    intro h
    cases second <;> exact absurd (List.cons.inj h).1 (by decide)
  rw [gitDiffEndpoint, h, decodeUtf8_side, Option.map_some, if_neg hnull,
    if_pos (List.isPrefixOf_iff_prefix.mpr (List.prefix_append _ _)), List.drop_left]

/-- **An endpoint is read back.** -/
theorem gitDiffEndpoint_token : gitDiffEndpoint (token second path) (sideOf second) =
    some path.text :=
  gitDiffEndpoint_of_decode (decodeGitCPath_writePath (side_bytes second path))

theorem gitDiffEndpoint_null : gitDiffEndpoint (ascii "/dev/null") (sideOf second) = some [] := by
  cases second <;> decide +kernel

/-- The header of a change. -/
def writeHeader (oldPath newPath : Path) : Str :=
  diffHeader ++ token false oldPath ++ [32] ++ token true newPath ++ [10]

/-- The side's letters need no quotes. -/
theorem token_plain (h : path.bytes.all isPlain = true) :
    token second path = sideOf second ++ ascii "/" ++ path.bytes := by
  have hside : ∀ second, (sideOf second ++ ascii "/").all isPlain = true := by decide
  rw [token, writePath, List.all_append, hside, h]
  rfl

theorem token_quoted (second : Bool) (h : ¬path.bytes.all isPlain = true) :
    token second path =
      quote :: ((sideOf second ++ ascii "/" ++ path.bytes).flatMap escapeByte ++ [quote]) := by
  rw [Bool.not_eq_true] at h
  rw [token, writePath, List.all_append, h, Bool.and_false, if_neg Bool.false_ne_true]

/-- The text of a header behind its keyword. -/
theorem stripPrefix_header (first : Str) {target : Str} (hne : target ≠ [])
    (htarget : ∀ c ∈ target, 32 ≤ c) :
    stripPrefix diffHeader (rstripNewline (diffHeader ++ first ++ [32] ++ target ++ [10])) =
      some (first ++ [32] ++ target) := by
  rw [rstripNewline_newline, rstripNewline_append_of_ne hne (newline_not_mem htarget), stripPrefix,
    if_pos]
  · simp only [List.append_assoc, List.drop_left]
  · simp only [List.append_assoc]
    exact List.isPrefixOf_iff_prefix.mpr (List.prefix_append _ _)

/-- **A header whose first path is in quotes** ends it at the quote that closes it. -/
theorem gitHeaderTokens_of_close {inner target : Str}
    (hclose : closeQuote (inner ++ quote :: ([32] ++ target)) =
      some (inner ++ [quote], [32] ++ target))
    (hne : target ≠ []) (hhead : target.head? ≠ some 32) (htarget : ∀ c ∈ target, 32 ≤ c) :
    gitHeaderTokens (diffHeader ++ (quote :: (inner ++ [quote])) ++ [32] ++ target ++ [10]) =
      [quote :: (inner ++ [quote]), target] := by
  have hdrop : ([32] ++ target).dropWhile (· = 32) = target := by
    obtain ⟨c, rest, rfl⟩ := List.exists_cons_of_ne_nil hne
    have hc : ¬c = 32 := fun h => hhead (by rw [h]; rfl)
    rw [List.singleton_append, List.dropWhile_cons, if_pos (by decide), List.dropWhile_cons,
      if_neg (by simpa using hc)]
  have htext : quote :: (inner ++ [quote]) ++ [32] ++ target =
      quote :: (inner ++ quote :: ([32] ++ target)) := by
    simp only [List.append_assoc, List.cons_append, List.nil_append]
  rw [gitHeaderTokens, stripPrefix_header _ hne htarget]
  dsimp only
  rw [htext, List.head?_cons, if_pos rfl, List.drop_one, List.tail_cons, hclose]
  dsimp only
  rw [hdrop, if_pos hne]

/-- **A header that names one path twice**, without quotes, is split in the middle. -/
theorem gitHeaderTokens_same {name : Str} (hname : ∀ c ∈ name, 32 ≤ c) :
    gitHeaderTokens (diffHeader ++ (sideOf false ++ ascii "/" ++ name) ++ [32] ++
        (sideOf true ++ ascii "/" ++ name) ++ [10]) =
      [sideOf false ++ ascii "/" ++ name, sideOf true ++ ascii "/" ++ name] := by
  have htext : sideOf false ++ ascii "/" ++ name ++ [32] ++ (sideOf true ++ ascii "/" ++ name) =
      97 :: 47 :: (name ++ ascii " b/" ++ name) := by
    have ha : sideOf false ++ ascii "/" = [97, 47] := by decide
    have hb : [32] ++ (sideOf true ++ ascii "/") = ascii " b/" := by decide
    rw [ha, ← hb]
    simp only [List.append_assoc, List.cons_append, List.nil_append]
  have htarget : ∀ c ∈ sideOf true ++ ascii "/" ++ name, 32 ≤ c := by
    have hside : ∀ c ∈ sideOf true ++ ascii "/", 32 ≤ c := by decide
    intro c hc
    obtain hc | hc := List.mem_append.mp hc
    · exact hside c hc
    · exact hname c hc
  have hne : sideOf true ++ ascii "/" ++ name ≠ [] :=
    List.append_ne_nil_of_left_ne_nil (by decide) _
  have hlen : (ascii " b/").length = 3 := by decide
  have hhalf : ((name ++ ascii " b/" ++ name).length - 3) / 2 = name.length := by
    rw [List.length_append, List.length_append, hlen]
    omega
  have hdrop : (name ++ ascii " b/" ++ name).drop name.length = ascii " b/" ++ name := by
    rw [List.append_assoc, List.drop_left]
  have hrest : (name ++ ascii " b/" ++ name).drop (name.length + 3) = name := by
    rw [← List.drop_drop, hdrop, ← hlen, List.drop_left]
  have htake : (name ++ ascii " b/" ++ name).take name.length = name := by
    rw [List.append_assoc, List.take_left]
  have hquote : ¬(97 :: 47 :: (name ++ ascii " b/" ++ name)).head? = some quote := by
    rw [List.head?_cons]
    decide
  have ha : ascii "a/" = [97, 47] := by decide
  have hb : ascii "b/" = sideOf true ++ ascii "/" := by decide
  have ha' : ascii "a/" = sideOf false ++ ascii "/" := by decide
  rw [gitHeaderTokens, stripPrefix_header _ hne htarget]
  dsimp only
  rw [htext, if_neg hquote, if_neg (by rw [ha]; simp), List.drop_succ_cons, List.drop_succ_cons,
    List.drop_zero, hhalf, if_pos]
  · rw [htake, hrest, hb, ha']
  · refine ⟨by rw [List.length_append, List.length_append, hlen]; omega, ?_, ?_⟩
    · rw [hdrop, ← hlen, List.take_left]
    · rw [htake, hrest]

theorem head?_token : (token second path).head? ≠ some 32 := by
  by_cases h : path.bytes.all isPlain = true
  · rw [token_plain h]
    cases second <;> exact fun h => by cases h
  · rw [token_quoted second h]
    exact fun h => by cases h

/-- A header whose first path is quoted has its two paths as tokens. -/
theorem gitHeaderTokens_quoted {oldPath newPath : Path} (h : ¬oldPath.bytes.all isPlain = true) :
    gitHeaderTokens (writeHeader oldPath newPath) = [token false oldPath, token true newPath] := by
  rw [writeHeader, token_quoted false h]
  exact gitHeaderTokens_of_close (closeQuote_quoted (side_bytes false oldPath) _) token_ne_nil
    head?_token fun c hc => (printable_token c hc).1

/-- **The header of one path names it twice.** -/
theorem gitHeaderTokens_writeHeader :
    gitHeaderTokens (writeHeader path path) = [token false path, token true path] := by
  by_cases hplain : path.bytes.all isPlain = true
  · rw [writeHeader, token_plain hplain, token_plain hplain]
    exact gitHeaderTokens_same fun b hb =>
      (isPlain_iff.mp (List.all_eq_true.mp hplain b hb)).1.1
  · exact gitHeaderTokens_quoted hplain

end OpenCollab.PatchPaths
