import OpenCollab.Patch.Utf8

/-!
# OpenCollab.Patch.QuotePath

How Git writes a path with and without `core.quotePath`.  With it (Git's default) the
bytes above ASCII are escaped; without it they are written as they are, and belong to
the characters of the text.

* `decodeUtf8_bareBytes` — what stands inside quotes then, character by character;
* `decodeGitCPath_writeName` — a path is read back either way; without `core.quotePath` if
  it is UTF-8: of other bytes the reader makes surrogates, and of these three bytes each;
* `gitDiffEndpoint_nameToken`, `gitHeaderTokens_nameHeader` — so are the path of a side and
  the header of one path.
-/

namespace OpenCollab.PatchPaths

/-- Without `core.quotePath` a byte above ASCII needs no quotes. -/
def isBare (b : Nat) : Bool := isPlain b || decide (128 ≤ b)

/-- A byte inside quotes, without `core.quotePath`. -/
def bareByte (b : Nat) : List Nat := if isBare b then [b] else escapeByte b

/-- A path as Git writes it, by `core.quotePath`, in a text that is read as UTF-8. -/
def writeName : (quotePath : Bool) → List Nat → Str
  | true, bytes => writePath bytes
  | false, bytes =>
      if bytes.all isBare then decodeUtf8 0 bytes
      else quote :: (decodeUtf8 0 (bytes.flatMap bareByte) ++ [quote])

/-- The path of a side as Git writes it. -/
def nameToken (quotePath second : Bool) (path : Path) : Str :=
  writeName quotePath (sideOf second ++ ascii "/" ++ path.bytes)

/-- The header of a change. -/
def nameHeader (quotePath : Bool) (oldPath newPath : Path) : Str :=
  diffHeader ++ nameToken quotePath false oldPath ++ [32] ++ nameToken quotePath true newPath ++
    [10]

@[simp] theorem writeName_true (bytes : List Nat) : writeName true bytes = writePath bytes := rfl

@[simp] theorem nameToken_true (second : Bool) (path : Path) :
    nameToken true second path = token second path := rfl

@[simp] theorem nameHeader_true (oldPath newPath : Path) :
    nameHeader true oldPath newPath = writeHeader oldPath newPath := rfl

/-- What Git writes as it is can be read back: `core.quotePath`, or a path that is UTF-8. -/
def Recoverable (quotePath : Bool) (bytes : List Nat) : Prop := quotePath = false → IsUtf8 bytes

/-! ## inside quotes -/

/-- A character inside quotes, without `core.quotePath`. -/
def bareChar (c : Nat) : Str := if c < 128 then escapeByte c else [c]

/-- An ASCII byte is escaped if it has to be. -/
theorem bareByte_of_lt : ∀ b < 128, bareByte b = escapeByte b := by
  decide +kernel

theorem bareByte_of_le {b : Nat} (h : 128 ≤ b) : bareByte b = [b] := by
  rw [bareByte, isBare, decide_eq_true h, Bool.or_true, if_pos rfl]

/-- Bytes above ASCII stay as they are. -/
theorem flatMap_bareByte {bytes : List Nat} (h : ∀ b ∈ bytes, 128 ≤ b) :
    bytes.flatMap bareByte = bytes := by
  induction bytes with
  | nil => rfl
  | cons b bytes ih =>
      rw [List.forall_mem_cons] at h
      rw [List.flatMap_cons, bareByte_of_le h.1, ih h.2]
      rfl

/-- **What stands inside quotes**, character by character. -/
theorem decodeUtf8_bareBytes {text : Str} (h : Encodable text) :
    decodeUtf8 0 ((encodeText text).flatMap bareByte) = text.flatMap bareChar := by
  induction text with
  | nil => rfl
  | cons c text ih =>
      rw [Encodable, List.forall_mem_cons] at h
      rw [encodeText, List.flatMap_cons, List.flatMap_append, List.flatMap_cons, bareChar]
      by_cases hc : c < 128
      · have hascii : ∀ d ∈ escapeByte c, d < 128 := fun d hd => by
          have := printable_escapeByte c (by omega) d hd
          omega
        rw [encodeChar_of_lt hc, List.flatMap_singleton, bareByte_of_lt c hc,
          decodeUtf8_ascii_append hascii, if_pos hc]
        exact congrArg _ (ih h.2)
      · rw [flatMap_bareByte (encodeChar_all_high hc), decodeUtf8_encodeChar h.1, if_neg hc]
        exact congrArg _ (ih h.2)

/-- A character above ASCII is neither a quote nor a backslash. -/
theorem ne_of_not_lt {c : Nat} (h : ¬c < 128) : c ≠ quote ∧ c ≠ backslash := by
  have hquote : quote = 34 := rfl
  have hslash : backslash = 92 := rfl
  omega

theorem decodeBytes_bareChars (text rest : Str) :
    decodeBytes true 0 (text.flatMap bareChar ++ quote :: rest) = some (encodeText text) := by
  induction text with
  | nil =>
      have hclosed : (true && decide (quote = quote)) = true := by decide
      rw [List.flatMap_nil, List.nil_append, decodeBytes_cons, if_pos hclosed]
      rfl
  | cons c text ih =>
      rw [List.flatMap_cons, List.append_assoc, bareChar, encodeText, List.flatMap_cons]
      by_cases hc : c < 128
      · rw [if_pos hc, decodeBytes_escapeByte (by omega), ih, encodeChar_of_lt hc]
        rfl
      · obtain ⟨hquote, hslash⟩ := ne_of_not_lt hc
        rw [if_neg hc, List.singleton_append, decodeBytes_cons,
          if_neg (by simpa using hquote), if_pos hslash, ih]
        rfl

theorem closeQuote_bareChars (text rest : Str) :
    closeQuote (text.flatMap bareChar ++ quote :: rest) =
      some (text.flatMap bareChar ++ [quote], rest) := by
  induction text with
  | nil =>
      rw [List.flatMap_nil, List.nil_append, closeQuote.eq_def]
      rfl
  | cons c text ih =>
      rw [List.flatMap_cons, List.append_assoc]
      by_cases hc : c < 128
      · rw [bareChar, if_pos hc, closeQuote_escapeByte (by omega), ih, Option.map_some,
          List.append_assoc]
      · obtain ⟨hquote, hslash⟩ := ne_of_not_lt hc
        rw [bareChar, if_neg hc, List.singleton_append, closeQuote_other hslash hquote, ih]
        rfl

/-! ## without quotes -/

/-- A text without backslashes is read as it is. -/
theorem decodeBytes_bare {text : Str} (h : backslash ∉ text) :
    decodeBytes false 0 text = some (encodeText text) := by
  induction text with
  | nil => rfl
  | cons c text ih =>
      rw [List.mem_cons, not_or] at h
      rw [decodeBytes_cons, if_neg (by simp), if_pos (Ne.symm h.1), ih h.2]
      rfl

/-- A control character, a quote and a backslash are not bare. -/
theorem isBare_of_lt {b : Nat} (h : isBare b = true) (hb : b < 128) : isPlain b = true := by
  rw [isBare, Bool.or_eq_true, decide_eq_true_eq] at h
  exact h.resolve_right (by omega)

/-- A bare path has only plain characters of ASCII. -/
theorem isPlain_of_mem {bytes : List Nat} (h : bytes.all isBare = true) {c : Nat}
    (hc : c ∈ decodeUtf8 0 bytes) (hlow : c < 128) : isPlain c = true :=
  isBare_of_lt (List.all_eq_true.mp h c (mem_of_mem_decodeUtf8 hlow hc)) hlow

/-! ## reading it back -/

variable {quotePath second : Bool} {path : Path} {bytes : List Nat}

/-- **A path is read back from what Git writes.** -/
theorem decodeGitCPath_writeName (hsmall : ∀ b ∈ bytes, b < 256) (h : Recoverable quotePath bytes) :
    decodeGitCPath (writeName quotePath bytes) = some (decodeUtf8 0 bytes) := by
  cases quotePath with
  | true => exact decodeGitCPath_writePath hsmall
  | false =>
      obtain ⟨text, htext, rfl⟩ := h rfl
      rw [writeName]
      split
      · rename_i hbare
        have hplain := fun c hc => @isPlain_of_mem _ hbare c hc
        rw [decodeUtf8_encodeText htext] at hplain ⊢
        have hslash : backslash ∉ text := fun hmem => absurd (hplain _ hmem (by decide)) (by decide)
        have hhead : ¬text.head? = some quote := fun hhead =>
          absurd (hplain _ (List.mem_of_mem_head? hhead) (by decide)) (by decide)
        rw [decodeGitCPath, decide_eq_false hhead, if_neg Bool.false_ne_true,
          decodeBytes_bare hslash, Option.map_some, decodeUtf8_encodeText htext]
      · rw [decodeUtf8_bareBytes htext, decodeGitCPath, List.head?_cons, decide_eq_true rfl,
          if_pos rfl, List.drop_one, List.tail_cons, decodeBytes_bareChars]
        rfl

example : decodeGitCPath (writeName false [0xFF]) =
    some [0xDC00 + 0xED, 0xDC00 + 0xB3, 0xDC00 + 0xBF] := by
  decide +kernel

/-- What Git writes of a path has no control characters. -/
theorem le_of_mem_writeName (hsmall : ∀ b ∈ bytes, b < 256) :
    ∀ c ∈ writeName quotePath bytes, 32 ≤ c := by
  intro c hc
  cases quotePath with
  | true => exact (printable_writePath hsmall c hc).1
  | false =>
      by_cases hlow : c < 128
      · rw [writeName] at hc
        split at hc
        · rename_i hbare
          exact (isPlain_iff.mp (isPlain_of_mem hbare hc hlow)).1.1
        · rw [List.mem_cons, List.mem_append, List.mem_singleton] at hc
          obtain rfl | hc | rfl := hc
          · decide
          · obtain ⟨b, hb, hmem⟩ := List.mem_flatMap.mp (mem_of_mem_decodeUtf8 hlow hc)
            rw [bareByte] at hmem
            split at hmem
            · rename_i hbare
              rw [List.mem_singleton.mp hmem] at hlow ⊢
              exact (isPlain_iff.mp (isBare_of_lt hbare hlow)).1.1
            · exact (printable_escapeByte b (hsmall b hb) c hmem).1
          · decide
      · omega

theorem writeName_ne_nil (h : bytes ≠ []) : writeName quotePath bytes ≠ [] := by
  cases quotePath with
  | true => exact writePath_ne_nil h
  | false =>
      rw [writeName]
      split
      · exact decodeUtf8_ne_nil h
      · exact List.cons_ne_nil _ _

theorem nameToken_ne_nil : nameToken quotePath second path ≠ [] :=
  writeName_ne_nil (List.append_ne_nil_of_right_ne_nil _ path.nonempty)

theorem le_of_mem_nameToken : ∀ c ∈ nameToken quotePath second path, 32 ≤ c :=
  le_of_mem_writeName (side_bytes second path)

/-- The letters of a side are UTF-8. -/
theorem Recoverable.side (h : Recoverable quotePath path.bytes) (second : Bool) :
    Recoverable quotePath (sideOf second ++ ascii "/" ++ path.bytes) := by
  intro hoff
  obtain ⟨text, htext, hbytes⟩ := h hoff
  have hside : ∀ second, Encodable (sideOf second ++ ascii "/") ∧
      encodeText (sideOf second ++ ascii "/") = sideOf second ++ ascii "/" := by decide
  refine ⟨sideOf second ++ ascii "/" ++ text, encodable_append.mpr ⟨(hside second).1, htext⟩, ?_⟩
  rw [encodeText, List.flatMap_append]
  exact congrArg₂ _ (hside second).2 hbytes

/-- **An endpoint is read back.** -/
theorem gitDiffEndpoint_nameToken (h : Recoverable quotePath path.bytes) :
    gitDiffEndpoint (nameToken quotePath second path) (sideOf second) = some path.text :=
  gitDiffEndpoint_of_decode (decodeGitCPath_writeName (side_bytes second path) (h.side second))

/-- **The header of one path names it twice.** -/
theorem gitHeaderTokens_nameHeader (h : Recoverable quotePath path.bytes) :
    gitHeaderTokens (nameHeader quotePath path path) =
      [nameToken quotePath false path, nameToken quotePath true path] := by
  cases quotePath with
  | true => exact gitHeaderTokens_writeHeader
  | false =>
      have hside : ∀ second, (sideOf second ++ ascii "/").all isBare = true := by decide
      have hall : ∀ second, (sideOf second ++ ascii "/" ++ path.bytes).all isBare =
          path.bytes.all isBare := by
        intro second
        rw [List.all_append, hside, Bool.true_and]
      by_cases hbare : path.bytes.all isBare = true
      · have htoken : ∀ second, nameToken false second path =
            sideOf second ++ ascii "/" ++ path.text := by
          intro second
          rw [nameToken, writeName, hall, if_pos hbare, decodeUtf8_side]
        rw [nameHeader, htoken, htoken]
        refine gitHeaderTokens_same fun c hc => ?_
        by_cases hlow : c < 128
        · exact (isPlain_iff.mp (isPlain_of_mem hbare hc hlow)).1.1
        · omega
      · obtain ⟨text, htext, hbytes⟩ := h.side false rfl
        have htoken : ∀ second, ∃ inner, nameToken false second path =
            quote :: (inner ++ [quote]) := by
          intro second
          exact ⟨_, by rw [nameToken, writeName, hall, if_neg hbare]⟩
        have hfirst : nameToken false false path =
            quote :: (text.flatMap bareChar ++ [quote]) := by
          rw [nameToken, writeName, hall, if_neg hbare, ← hbytes, decodeUtf8_bareBytes htext]
        have hhead : (nameToken false true path).head? ≠ some 32 := by
          obtain ⟨inner, hinner⟩ := htoken true
          rw [hinner]
          exact fun hhead => by cases hhead
        rw [nameHeader, hfirst]
        exact gitHeaderTokens_of_close (closeQuote_bareChars text _) nameToken_ne_nil hhead
          le_of_mem_nameToken

end OpenCollab.PatchPaths
