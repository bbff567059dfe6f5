import Mathlib.Data.List.Basic
import Mathlib.Data.List.Dedup

/-!
# OpenCollab.Patch.Newlines

The text layer under the patch engine: a file is read with one of three newline
styles, edited as a list of LF lines, and written back in its own style.

* `normalizeNewlines_restoreNewlines` — rewriting LF text in a style and
  normalising it again gives the text back;
* `restoreNewlines_normalizeNewlines` — a text of one style is the rewriting of
  its normalisation;
* `findNewlines_restoreNewlines` — a rewritten text has no newline of another
  style;
* `joinLines_splitLines`, `splitLines_joinLines` — a text is its lines and its
  final-newline flag; the other way round this fails for exactly the pairs that
  are no `Readable`: an unterminated text cannot end in a blank line.
-/

namespace OpenCollab.Patch

/-- A text: its characters. -/
abbrev Text := List Char

/-! ## newline styles -/

/-- One line break of a file, as `_NEWLINE_RE` finds it. -/
inductive Newline where
  | lf
  | crlf
  | cr
deriving Repr, DecidableEq

/-- The characters of the line break. -/
def Newline.chars : Newline → Text
  | .lf => ['\n']
  | .crlf => ['\r', '\n']
  | .cr => ['\r']

/-- `_NEWLINE_RE.findall`: the line breaks of a text, from the left; a CR
followed by an LF is one break. -/
def findNewlines : Text → List Newline
  | [] => []
  | '\r' :: '\n' :: rest => .crlf :: findNewlines rest
  | '\r' :: rest => .cr :: findNewlines rest
  | '\n' :: rest => .lf :: findNewlines rest
  | _ :: rest => findNewlines rest

/-- `_detect_newline_style`; `none` is `_MIXED_NEWLINES`. -/
def detectNewlineStyle (text : Text) : Option Newline :=
  match (findNewlines text).dedup with
  | [] => some .lf
  | [style] => some style
  | _ => none

/-- `text.replace("\r\n", "\n")`: a CR right before an LF goes. -/
def replaceCrLf : Text → Text
  | [] => []
  | c :: rest => if c = '\r' ∧ rest.head? = some '\n' then replaceCrLf rest else c :: replaceCrLf rest

/-- `_normalize_newlines`. -/
def normalizeNewlines (text : Text) : Text :=
  (replaceCrLf text).map fun c => if c = '\r' then '\n' else c

/-- `_restore_newlines`. -/
def restoreNewlines (text : Text) (style : Newline) : Text :=
  if style = .lf then text else text.flatMap fun c => if c = '\n' then style.chars else [c]

/-! ## lines -/

/-- `_split_lines`: the LF lines of a text and whether the last is terminated. -/
def splitLines (text : Text) : List Text × Bool :=
  if text = [] then ([], false)
  else
    let endedNl := text.getLast? = some '\n'
    let lines := text.splitOn '\n'
    (if endedNl then lines.dropLast else lines, endedNl)

/-- `_join_lines`. -/
def joinLines (lines : List Text) (endedNl : Bool) : Text :=
  if lines = [] then [] else ['\n'].intercalate lines ++ if endedNl then ['\n'] else []

/-- A list of lines and a final-newline flag that some text has: without lines
there is no final newline, and an unterminated last line is not blank. -/
def Readable (lines : List Text) (endedNl : Bool) : Prop :=
  (lines = [] → endedNl = false) ∧ (endedNl = true ∨ lines.getLast? ≠ some [])

instance (lines : List Text) (endedNl : Bool) : Decidable (Readable lines endedNl) :=
  inferInstanceAs (Decidable ((_ → _) ∧ (_ ∨ _)))

example : splitLines "a\n\nb".toList = (["a".toList, [], "b".toList], false) := by decide

example : splitLines "a\n\n".toList = (["a".toList, []], true) := by decide

/-! ## rewriting newlines -/

/-- **A normalised text has no CR.** -/
theorem cr_not_mem_normalizeNewlines (text : Text) : '\r' ∉ normalizeNewlines text := by
  simp only [normalizeNewlines, List.mem_map, not_exists, not_and]
  intro c _
  split
  · decide
  · assumption

theorem detectNewlineStyle_eq_some {text : Text} {style : Newline} :
    detectNewlineStyle text = some style ↔
      (∀ found ∈ findNewlines text, found = style) ∧ (findNewlines text = [] → style = .lf) := by
  have hnodup := List.nodup_dedup (findNewlines text)
  have hmem : ∀ found, found ∈ (findNewlines text).dedup ↔ found ∈ findNewlines text :=
    fun found => List.mem_dedup
  have hnil : (findNewlines text).dedup = [] ↔ findNewlines text = [] := List.dedup_eq_nil _
  simp only [detectNewlineStyle, ← hmem, ← hnil]
  cases hd : (findNewlines text).dedup with
  | nil => simp [eq_comm]
  | cons found others =>
      cases others with
      | nil => simp
      | cons other others =>
          rw [hd] at hnodup
          simp at hnodup ⊢
          grind

@[simp] theorem restoreNewlines_nil (style : Newline) : restoreNewlines [] style = [] := by
  simp [restoreNewlines]

theorem restoreNewlines_cons (c : Char) (text : Text) (style : Newline) :
    restoreNewlines (c :: text) style =
      (if c = '\n' then style.chars else [c]) ++ restoreNewlines text style := by
  cases style <;> simp [restoreNewlines, Newline.chars]
  split <;> simp [*]

theorem restoreNewlines_append (text rest : Text) (style : Newline) :
    restoreNewlines (text ++ rest) style = restoreNewlines text style ++ restoreNewlines rest style := by
  induction text with
  | nil => simp
  | cons c text ih => simp [restoreNewlines_cons, ih]

private theorem lf_not_mem_restoreNewlines (text : Text) : '\n' ∉ restoreNewlines text .cr := by
  induction text with
  | nil => simp
  | cons c text ih =>
      rw [restoreNewlines_cons]
      split
      · simpa [Newline.chars] using ih
      · rename_i hc
        simpa [Ne.symm hc] using ih

/-- A CR that no LF follows is a line break of its own. -/
private theorem findNewlines_cr {rest : Text} (h : rest.head? ≠ some '\n') :
    findNewlines ('\r' :: rest) = .cr :: findNewlines rest := by
  cases rest with
  | nil => rfl
  | cons c rest =>
      have hc : c ≠ '\n' := by simpa using h
      simp [findNewlines, hc]

private theorem findNewlines_other {c : Char} (hlf : c ≠ '\n') (hcr : c ≠ '\r') (rest : Text) :
    findNewlines (c :: rest) = findNewlines rest := by
  simp [findNewlines, hcr]

/-- An LF text rewritten in a style has that style's newline for each LF. -/
theorem findNewlines_restoreNewlines {text : Text} (h : '\r' ∉ text) (style : Newline) :
    findNewlines (restoreNewlines text style) = List.replicate (text.count '\n') style := by
  induction text with
  | nil => simp [findNewlines]
  | cons c text ih =>
      have hcr : c ≠ '\r' := fun hc => h (by simp [hc])
      have ih := ih fun hmem => h (List.mem_cons_of_mem _ hmem)
      rw [restoreNewlines_cons]
      by_cases hlf : c = '\n'
      · subst hlf
        cases style with
        | lf => simp [Newline.chars, findNewlines, ih, List.replicate_succ]
        | crlf => simp [Newline.chars, findNewlines, ih, List.replicate_succ]
        | cr =>
            have hhead : (restoreNewlines text .cr).head? ≠ some '\n' := fun hhead =>
              lf_not_mem_restoreNewlines text (List.mem_of_head? hhead)
            simp [Newline.chars, findNewlines_cr hhead, ih, List.replicate_succ]
      · simp [hlf, findNewlines_other hlf hcr, ih]

private theorem normalizeNewlines_cr {rest : Text} (h : rest.head? ≠ some '\n') :
    normalizeNewlines ('\r' :: rest) = '\n' :: normalizeNewlines rest := by
  simp [normalizeNewlines, replaceCrLf, h]

private theorem normalizeNewlines_crlf (rest : Text) :
    normalizeNewlines ('\r' :: '\n' :: rest) = '\n' :: normalizeNewlines rest := by
  simp [normalizeNewlines, replaceCrLf]

private theorem normalizeNewlines_other {c : Char} (h : c ≠ '\r') (rest : Text) :
    normalizeNewlines (c :: rest) = c :: normalizeNewlines rest := by
  simp [normalizeNewlines, replaceCrLf, h]

@[simp] theorem normalizeNewlines_nil : normalizeNewlines [] = [] := rfl

/-- **Normalising undoes the rewriting.** -/
theorem normalizeNewlines_restoreNewlines {text : Text} (h : '\r' ∉ text) (style : Newline) :
    normalizeNewlines (restoreNewlines text style) = text := by
  induction text with
  | nil => simp
  | cons c text ih =>
      have hcr : c ≠ '\r' := fun hc => h (by simp [hc])
      have ih := ih fun hmem => h (List.mem_cons_of_mem _ hmem)
      rw [restoreNewlines_cons]
      by_cases hlf : c = '\n'
      · subst hlf
        cases style with
        | lf => simp [Newline.chars, normalizeNewlines_other hcr, ih]
        | crlf => simp [Newline.chars, normalizeNewlines_crlf, ih]
        | cr =>
            have hhead : (restoreNewlines text .cr).head? ≠ some '\n' := fun hhead =>
              lf_not_mem_restoreNewlines text (List.mem_of_head? hhead)
            simp [Newline.chars, normalizeNewlines_cr hhead, ih]
      · simp [hlf, normalizeNewlines_other hcr, ih]

/-- **A text of one style is the rewriting of its normalisation.** -/
theorem restoreNewlines_normalizeNewlines {text : Text} {style : Newline}
    (h : ∀ found ∈ findNewlines text, found = style) :
    restoreNewlines (normalizeNewlines text) style = text := by
  induction text using findNewlines.induct with
  | case1 => simp
  | case2 rest ih =>
      simp only [findNewlines, List.mem_cons, forall_eq_or_imp] at h
      rw [normalizeNewlines_crlf, restoreNewlines_cons, ih h.2, ← h.1]
      rfl
  | case3 rest hne ih =>
      have hhead : rest.head? ≠ some '\n' := by
        cases rest with
        | nil => simp
        | cons c rest =>
            have hc : c ≠ '\n' := fun hc => hne rest (by rw [hc])
            simpa using hc
      simp only [findNewlines_cr hhead, List.mem_cons, forall_eq_or_imp] at h
      rw [normalizeNewlines_cr hhead, restoreNewlines_cons, ih h.2, ← h.1]
      rfl
  | case4 rest ih =>
      simp only [findNewlines, List.mem_cons, forall_eq_or_imp] at h
      rw [normalizeNewlines_other (by decide), restoreNewlines_cons, ih h.2, ← h.1]
      rfl
  | case5 c rest hcrlf hcr hlf ih =>
      have hlf' : c ≠ '\n' := fun hc => hlf (by rw [hc])
      have hcr' : c ≠ '\r' := fun hc => hcr (by rw [hc])
      rw [findNewlines_other hlf' hcr'] at h
      rw [normalizeNewlines_other hcr', restoreNewlines_cons, ih h]
      simp [hlf']

/-! ## lines and texts -/

private theorem intercalate_concat (line : Text) (front : List Text) (last : Text) :
    ['\n'].intercalate (line :: front ++ [last]) =
      ['\n'].intercalate (line :: front) ++ '\n' :: last := by
  induction front generalizing line with
  | nil => simp
  | cons next front ih =>
      rw [List.cons_append, List.cons_append, List.intercalate_cons_cons, ← List.cons_append, ih,
        List.intercalate_cons_cons]
      simp

/-- **A text is its lines and its final-newline flag.** -/
theorem joinLines_splitLines (text : Text) :
    joinLines (splitLines text).1 (splitLines text).2 = text := by
  by_cases hnil : text = []
  · simp [splitLines, hnil, joinLines]
  · by_cases hended : text.getLast? = some '\n'
    · obtain ⟨body, rfl⟩ := List.getLast?_eq_some_iff.1 hended
      simp [splitLines, joinLines, List.splitOn_append_cons_self, List.splitOn_ne_nil,
        List.intercalate_splitOn]
    · simp [splitLines, joinLines, hnil, hended, List.splitOn_ne_nil, List.intercalate_splitOn]

/-- **Lines that some text has are read back from the joined text.** -/
theorem splitLines_joinLines {lines : List Text} {endedNl : Bool}
    (hlines : ∀ line ∈ lines, '\n' ∉ line) (hread : Readable lines endedNl) :
    splitLines (joinLines lines endedNl) = (lines, endedNl) := by
  by_cases hnil : lines = []
  · simp [hnil, joinLines, splitLines, hread.1 hnil]
  · have hsplit := List.splitOn_intercalate '\n' hlines hnil
    cases endedNl with
    | true => simp [splitLines, joinLines, hnil, List.splitOn_append_cons_self, hsplit]
    | false =>
        obtain ⟨front, last, rfl⟩ := (List.eq_nil_or_concat' lines).resolve_left hnil
        have hlast : last ≠ [] := by simpa using hread.2
        obtain ⟨init, c, rfl⟩ := (List.eq_nil_or_concat' last).resolve_left hlast
        have hc : c ≠ '\n' := by
          have hmem := hlines (init ++ [c]) (by simp)
          intro h
          simp [h] at hmem
        simp only [joinLines, hnil, if_false, Bool.false_eq_true, List.append_nil]
        obtain ⟨body, hbody⟩ : ∃ body, ['\n'].intercalate (front ++ [init ++ [c]]) = body ++ [c] := by
          cases front with
          | nil => exact ⟨init, by simp⟩
          | cons line front =>
              exact ⟨['\n'].intercalate (line :: front) ++ '\n' :: init, by
                rw [intercalate_concat]; simp⟩
        have hend : (['\n'].intercalate (front ++ [init ++ [c]])).getLast? = some c := by
          simp [hbody]
        have hne : ['\n'].intercalate (front ++ [init ++ [c]]) ≠ [] := by simp [hbody]
        simp [splitLines, hne, hend, hc, hsplit]

theorem mem_splitOn {text line : Text} (h : line ∈ text.splitOn '\n') :
    (∀ c ∈ line, c ∈ text) ∧ '\n' ∉ line := by
  induction text generalizing line with
  | nil => simp [List.splitOn_nil] at h; simp [h]
  | cons x text ih =>
      rw [List.splitOn_cons_eq_if_modifyHead] at h
      obtain ⟨first, others, hsplit⟩ := List.exists_cons_of_ne_nil (List.splitOn_ne_nil '\n' text)
      simp only [hsplit, List.modifyHead_cons] at h ih
      split at h
      · rcases List.mem_cons.1 h with rfl | h
        · simp
        · obtain ⟨hsub, hno⟩ := ih h
          exact ⟨fun c hc => List.mem_cons_of_mem _ (hsub c hc), hno⟩
      · rename_i hx
        rcases List.mem_cons.1 h with rfl | h
        · obtain ⟨hsub, hno⟩ := ih (List.mem_cons_self ..)
          constructor
          · intro c hc
            rcases List.mem_cons.1 hc with rfl | hc
            · exact List.mem_cons_self ..
            · exact List.mem_cons_of_mem _ (hsub c hc)
          · intro hc
            rcases List.mem_cons.1 hc with hc | hc
            · exact hx (by simp [← hc])
            · exact hno hc
        · obtain ⟨hsub, hno⟩ := ih (List.mem_cons_of_mem _ h)
          exact ⟨fun c hc => List.mem_cons_of_mem _ (hsub c hc), hno⟩

/-- The lines of a text hold characters of the text, and no LF. -/
theorem mem_splitLines {text line : Text} (h : line ∈ (splitLines text).1) :
    (∀ c ∈ line, c ∈ text) ∧ '\n' ∉ line := by
  apply mem_splitOn
  simp only [splitLines] at h
  split at h
  · simp at h
  · split at h
    · exact (List.dropLast_subset _) h
    · exact h

/-- A joined text has the characters of its lines and LF. -/
theorem mem_joinLines {lines : List Text} {endedNl : Bool} {c : Char}
    (h : c ∈ joinLines lines endedNl) : c = '\n' ∨ ∃ line ∈ lines, c ∈ line := by
  simp only [joinLines] at h
  split at h
  · simp at h
  rcases List.mem_append.1 h with hmem | hmem
  · clear h
    induction lines with
    | nil => simp at hmem
    | cons line lines ih =>
        cases lines with
        | nil => exact Or.inr ⟨line, by simp, by simpa using hmem⟩
        | cons next lines =>
            rw [List.intercalate_cons_cons, List.append_assoc, List.mem_append] at hmem
            rcases hmem with hmem | hmem
            · exact Or.inr ⟨line, by simp, hmem⟩
            · rcases List.mem_cons.1 hmem with hmem | hmem
              · exact Or.inl hmem
              · rcases ih (by simp) hmem with hlf | ⟨other, hother, hc⟩
                · exact Or.inl hlf
                · exact Or.inr ⟨other, List.mem_cons_of_mem _ hother, hc⟩
  · cases endedNl <;> simp at hmem
    exact Or.inl hmem

/-- The lines and the flag of a text are readable. -/
theorem readable_splitLines (text : Text) : Readable (splitLines text).1 (splitLines text).2 := by
  by_cases hnil : text = []
  · simp [splitLines, hnil, Readable]
  · by_cases hended : text.getLast? = some '\n'
    · obtain ⟨body, rfl⟩ := List.getLast?_eq_some_iff.1 hended
      simp [splitLines, Readable, List.splitOn_append_cons_self, List.splitOn_ne_nil]
    · have hlines : splitLines text = (text.splitOn '\n', false) := by
        simp [splitLines, hnil, hended]
      rw [hlines]
      refine ⟨fun _ => rfl, Or.inr fun hlast => ?_⟩
      obtain ⟨front, hfront⟩ := List.getLast?_eq_some_iff.1 hlast
      -- a blank last piece means that the text ends in a line break
      have htext : ['\n'].intercalate (text.splitOn '\n') = text := List.intercalate_splitOn '\n'
      simp only at hfront
      rw [hfront] at htext
      cases front with
      | nil => exact hnil (by simpa using htext.symm)
      | cons line front =>
          rw [intercalate_concat] at htext
          exact hended (by simp [← htext])

end OpenCollab.Patch
