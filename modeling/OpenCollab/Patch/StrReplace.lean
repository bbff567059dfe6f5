import OpenCollab.Lib.Windows
import OpenCollab.Patch.Newlines

/-!
# OpenCollab.Patch.StrReplace

The `str_replace` mode of the file writing tool (`adapters/tools/fs.py`).  The place of
the old text is found in the normalised file, where it has to be the only one, and the
file is written back in its own newline style; a file of several styles is edited as it
is, and only inside its lines.

* `replaceUnique_eq_ok` — the replacement in a text of one style or of several;
* `strReplace_eq_ok` — when a file is edited, and what is written;
* `strReplace_exact` — the same for the tool with its write record.
-/

namespace OpenCollab.Patch

open Lib

/-! ## the tool -/

/-- `_count_overlapping`. -/
def countOverlapping (text needle : Text) : Nat := (occurrences needle text 0).length

/-- `text.replace(old, new, 1)`. -/
def replaceFirst (text old new : Text) : Text :=
  match occurrences old text 0 with
  | [] => text
  | start :: _ => text.take start ++ new ++ text.drop (start + old.length)

/-- Why the tool does not edit. -/
inductive StrReplaceError where
  | oldRequired
  | identical
  | mixedNewlines
  | logicallyIdentical
  | notFound
  | notUnique (count : Nat)
  | noChange
deriving DecidableEq, Repr

/-- The reply of an error. -/
def StrReplaceError.text (path : String) : StrReplaceError → String
  | oldRequired => "Error: old_str is required for str_replace mode."
  | identical => "Error: str_replace was a no-op — old_str and new_str are identical; " ++
      "nothing changed in " ++ path ++ "."
  | mixedNewlines => "Error: " ++ path ++ " uses mixed newline styles; refusing to " ++
      "normalize a multiline replacement implicitly."
  | logicallyIdentical => "Error: str_replace was a no-op — old_str and new_str are logically " ++
      "identical; nothing changed in " ++ path ++ "."
  | notFound => "Error: old_str not found in " ++ path ++ ". Make sure the text matches " ++
      "exactly (including whitespace). If the edit keeps failing to match, use the " ++
      "apply_patch tool instead."
  | notUnique count => "Error: old_str found " ++ toString count ++ " times in " ++ path ++
      ". Provide more context to make it unique."
  | noChange => "Error: str_replace produced no change in " ++ path ++
      " — the file content is identical after the replacement."

/-- A text in the style of the file; `none`: the file has several. -/
def inStyle (style : Option Newline) (text : Text) : Text :=
  match style with
  | none => text
  | some style => restoreNewlines text style

/-- The text that is searched. -/
def searched (style : Option Newline) (text : Text) : Text :=
  match style with
  | none => text
  | some _ => normalizeNewlines text

/-- The second half of `_str_replace`, behind the newline style. -/
def replaceUnique (style : Option Newline) (current oldStr newStr : Text) :
    Except StrReplaceError Text :=
  let normalizedCurrent := searched style current
  let normalizedOld := searched style oldStr
  let normalizedNew := searched style newStr
  if normalizedNew = normalizedOld then .error .logicallyIdentical
  else
    let count := countOverlapping normalizedCurrent normalizedOld
    if count = 0 then .error .notFound
    else if 1 < count then .error (.notUnique count)
    else
      let updated := inStyle style (replaceFirst normalizedCurrent normalizedOld normalizedNew)
      if updated = current then .error .noChange else .ok updated

/-- `_str_replace`, up to the write. -/
def strReplace (current oldStr newStr : Text) : Except StrReplaceError Text :=
  if oldStr = [] then .error .oldRequired
  else if newStr = oldStr then .error .identical
  else
    let style := detectNewlineStyle current
    if style = none && (oldStr ++ newStr).any (fun c => c = '\r' || c = '\n') then
      .error .mixedNewlines
    else replaceUnique style current oldStr newStr

/-- What `record_write` is told. -/
structure WriteRecord where
  completed : Bool
  changed : Option Bool
  path : Option String
deriving DecidableEq

/-- What a call leaves: the reply, the text written, and the records. -/
structure ToolCallResult where
  reply : String
  written : Option Text
  records : List WriteRecord

/-- `FileWriteTool` in the mode `str_replace` on a file with this text; `writeError`: the
write is refused. -/
def executeStrReplace (path : String) (current oldStr newStr : Text) (writeError : Option String) :
    ToolCallResult :=
  let start : WriteRecord := { completed := false, changed := some false, path := none }
  match strReplace current oldStr newStr with
  | .error e => { reply := e.text path, written := none, records := [start] }
  | .ok updated =>
      let begun := [start, { completed := false, changed := none, path := none }]
      match writeError with
      | some e => { reply := "Error: " ++ e, written := none, records := begun }
      | none =>
          { reply := "Replaced in " ++ path ++ ": " ++ toString oldStr.length ++ " chars → " ++
              toString newStr.length ++ " chars (content changed)"
            written := some updated
            records := begun ++ [{ completed := true, changed := some true, path := some path }] }

/-! ## one place -/

/-- The needle occurs at this position of the text and at no other. -/
def OnlyAt (needle text : Text) (start : Nat) : Prop :=
  Occurs needle text start ∧ ∀ other, Occurs needle text other → other = start

variable {style : Option Newline} {current oldStr newStr written needle text : Text} {start : Nat}

theorem occurrences_eq_only : occurrences needle text 0 = [start] ↔ OnlyAt needle text start := by
  rw [occurrences_eq_singleton, OnlyAt]
  simp only [Nat.zero_le, true_and, forall_const]

theorem countOverlapping_eq_one :
    countOverlapping text needle = 1 ↔ ∃ start, OnlyAt needle text start := by
  rw [countOverlapping, List.length_eq_one_iff]
  simp only [occurrences_eq_only]

/-- A text around the only place of the needle. -/
theorem OnlyAt.cut (h : OnlyAt needle text start) :
    text = text.take start ++ needle ++ text.drop (start + needle.length) := by
  have hcut := h.1.eq_append (Nat.zero_le _)
  rw [List.drop_zero, Nat.sub_zero] at hcut
  exact hcut

theorem OnlyAt.replaceFirst (h : OnlyAt needle text start) (newStr : Text) :
    replaceFirst text needle newStr =
      text.take start ++ newStr ++ text.drop (start + needle.length) := by
  rw [Patch.replaceFirst, occurrences_eq_only.mpr h]

/-! ## styles -/

/-- The style of a file, as far as it has one. -/
def HasStyle (current : Text) (style : Option Newline) : Prop :=
  ∀ s, style = some s → ∀ found ∈ findNewlines current, found = s

theorem hasStyle_detect (current : Text) : HasStyle current (detectNewlineStyle current) :=
  fun _ hs => (detectNewlineStyle_eq_some.mp hs).1

/-- A file is its searched text in its own style. -/
theorem inStyle_searched (h : HasStyle current style) : inStyle style (searched style current) = current := by
  cases style with
  | none => rfl
  | some s => exact restoreNewlines_normalizeNewlines (h s rfl)

theorem inStyle_append (style : Option Newline) (text rest : Text) :
    inStyle style (text ++ rest) = inStyle style text ++ inStyle style rest := by
  cases style with
  | none => rfl
  | some s => exact restoreNewlines_append text rest s

/-- The text can be searched for in a file of the style. -/
def Searchable (style : Option Newline) (text : Text) : Prop := style ≠ none → '\r' ∉ text

theorem searchable_searched (style : Option Newline) (text : Text) :
    Searchable style (searched style text) := by
  cases style with
  | none => exact fun h => absurd rfl h
  | some s => exact fun _ => cr_not_mem_normalizeNewlines text

/-- What is written is searched as it was. -/
theorem searched_inStyle (h : Searchable style text) : searched style (inStyle style text) = text := by
  cases style with
  | none => rfl
  | some s => exact normalizeNewlines_restoreNewlines (h (Option.some_ne_none s)) s

theorem Searchable.append {rest : Text} (h : Searchable style text) (hrest : Searchable style rest) :
    Searchable style (text ++ rest) := by
  intro hstyle hmem
  obtain hmem | hmem := List.mem_append.mp hmem
  · exact h hstyle hmem
  · exact hrest hstyle hmem

theorem Searchable.of_subset {part : Text} (h : Searchable style text) (hsub : part ⊆ text) :
    Searchable style part :=
  fun hstyle hmem => h hstyle (hsub hmem)

/-! ## the replacement -/

/-- One place of the file is replaced, in the style of the file, and all around it
stays; `start` is the place in the searched text. -/
def ReplacedAt (style : Option Newline) (current oldStr newStr : Text) (start : Nat) (written : Text) :
    Prop :=
  ∃ before after, current = before ++ inStyle style (searched style oldStr) ++ after ∧
    written = before ++ inStyle style (searched style newStr) ++ after ∧
    (searched style before).length = start

/-- The text with one place replaced is the file with this place replaced. -/
theorem replacedAt_inStyle (hstyle : HasStyle current style)
    (h : OnlyAt (searched style oldStr) (searched style current) start) :
    ReplacedAt style current oldStr newStr start (inStyle style
      (replaceFirst (searched style current) (searched style oldStr) (searched style newStr))) := by
  have hle := h.1.1
  refine ⟨inStyle style ((searched style current).take start),
    inStyle style ((searched style current).drop (start + (searched style oldStr).length)),
    ?_, ?_, ?_⟩
  · rw [← inStyle_append, ← inStyle_append, ← h.cut, inStyle_searched hstyle]
  · rw [← inStyle_append, ← inStyle_append, h.replaceFirst]
  · rw [searched_inStyle ((searchable_searched style current).of_subset (List.take_subset _ _)),
      List.length_take]
    omega

/-- Another text in the place of the old one is another file. -/
theorem inStyle_replaceFirst_ne (hne : searched style newStr ≠ searched style oldStr)
    (h : OnlyAt (searched style oldStr) (searched style current) start) :
    inStyle style (replaceFirst (searched style current) (searched style oldStr)
      (searched style newStr)) ≠ current := by
  intro heq
  have hcurrent := searchable_searched style current
  have hbefore := hcurrent.of_subset (List.take_subset start _)
  have hafter := hcurrent.of_subset
    (List.drop_subset (start + (searched style oldStr).length) _)
  have hback := congrArg (searched style) heq
  rw [h.replaceFirst, searched_inStyle ((hbefore.append (searchable_searched style newStr)).append
    hafter)] at hback
  conv_rhs at hback => rw [h.cut]
  exact hne (List.append_cancel_left (List.append_cancel_right hback))

/-- **The replacement succeeds** exactly for another text with one place. -/
theorem replaceUnique_isOk : (∃ written, replaceUnique style current oldStr newStr = .ok written) ↔
    searched style newStr ≠ searched style oldStr ∧
      ∃ start, OnlyAt (searched style oldStr) (searched style current) start := by
  rw [← countOverlapping_eq_one]
  unfold replaceUnique
  dsimp only
  constructor
  · intro ⟨written, h⟩
    split at h
    · contradiction
    · rename_i hne
      split at h
      · contradiction
      · split at h
        · contradiction
        · exact ⟨hne, by omega⟩
  · intro ⟨hne, hcount⟩
    obtain ⟨start, honly⟩ := countOverlapping_eq_one.mp hcount
    rw [if_neg hne, if_neg (by omega), if_neg (by omega), if_neg (inStyle_replaceFirst_ne hne honly)]
    exact ⟨_, rfl⟩

/-- **What is written** is the file with the one place replaced. -/
theorem replaceUnique_eq_ok (hstyle : HasStyle current style)
    (h : replaceUnique style current oldStr newStr = .ok written) :
    ∃ start, OnlyAt (searched style oldStr) (searched style current) start ∧
      ReplacedAt style current oldStr newStr start written := by
  obtain ⟨hne, start, honly⟩ := replaceUnique_isOk.mp ⟨written, h⟩
  have hcount := countOverlapping_eq_one.mpr ⟨start, honly⟩
  unfold replaceUnique at h
  dsimp only at h
  rw [if_neg hne, if_neg (by omega), if_neg (by omega),
    if_neg (inStyle_replaceFirst_ne hne honly)] at h
  rw [← Except.ok.inj h]
  exact ⟨start, honly, replacedAt_inStyle hstyle honly⟩

/-- What the tool edits: another text after normalising, at one place, and without line
breaks where the file has several styles. -/
def Replaceable (current oldStr newStr : Text) (start : Nat) : Prop :=
  oldStr ≠ [] ∧ normalizeNewlines newStr ≠ normalizeNewlines oldStr ∧
    (detectNewlineStyle current = none → ∀ c ∈ oldStr ++ newStr, c ≠ '\r' ∧ c ≠ '\n') ∧
    OnlyAt (searched (detectNewlineStyle current) oldStr)
      (searched (detectNewlineStyle current) current) start

/-- A text without CR is normalised to itself. -/
theorem normalizeNewlines_of_not_mem (h : '\r' ∉ text) : normalizeNewlines text = text := by
  have hback := normalizeNewlines_restoreNewlines h .lf
  rwa [restoreNewlines, if_pos rfl] at hback

/-- **A file is edited** exactly where the old text is replaceable. -/
theorem strReplace_isOk : (∃ written, strReplace current oldStr newStr = .ok written) ↔
    ∃ start, Replaceable current oldStr newStr start := by
  have hbreak : ∀ {text : Text}, (text.any fun c => c = '\r' || c = '\n') = false ↔
      ∀ c ∈ text, c ≠ '\r' ∧ c ≠ '\n' := by
    intro text
    simp only [List.any_eq_false, Bool.or_eq_true, decide_eq_true_eq, not_or]
  unfold strReplace Replaceable
  by_cases hempty : oldStr = []
  · rw [if_pos hempty]
    simp [hempty]
  · rw [if_neg hempty]
    by_cases hsame : newStr = oldStr
    · rw [if_pos hsame]
      simp [hsame]
    · rw [if_neg hsame]
      dsimp only
      cases hstyle : detectNewlineStyle current with
      | some style =>
          rw [if_neg (by simp), replaceUnique_isOk]
          simp only [searched, hempty, ne_eq, not_false_eq_true, true_and, reduceCtorEq,
            false_implies, exists_and_left]
      | none =>
          by_cases hany : ((oldStr ++ newStr).any fun c => c = '\r' || c = '\n') = true
          · rw [if_pos (by simpa using hany)]
            constructor
            · intro ⟨written, h⟩
              contradiction
            · intro ⟨start, _, _, hnone, _⟩
              rw [hbreak.mpr (hnone rfl)] at hany
              contradiction
          · rw [Bool.not_eq_true] at hany
            have hfree := hbreak.mp hany
            have hold : normalizeNewlines oldStr = oldStr := normalizeNewlines_of_not_mem
              fun hmem => (hfree '\r' (List.mem_append_left _ hmem)).1 rfl
            have hnew : normalizeNewlines newStr = newStr := normalizeNewlines_of_not_mem
              fun hmem => (hfree '\r' (List.mem_append_right _ hmem)).1 rfl
            rw [if_neg (by rw [hany]; simp), replaceUnique_isOk, hold, hnew]
            constructor
            · intro ⟨hne, start, honly⟩
              exact ⟨start, hempty, hne, fun _ => hfree, honly⟩
            · intro ⟨start, _, hne, _, honly⟩
              exact ⟨hne, start, honly⟩

/-- **What is written** is the file with the place of the old text replaced. -/
theorem strReplace_eq_ok (h : strReplace current oldStr newStr = .ok written) :
    ∃ start, Replaceable current oldStr newStr start ∧
      ReplacedAt (detectNewlineStyle current) current oldStr newStr start written := by
  obtain ⟨start, hreplaceable⟩ := strReplace_isOk.mp ⟨written, h⟩
  unfold strReplace at h
  split at h
  · contradiction
  · split at h
    · contradiction
    · dsimp only at h
      split at h
      · contradiction
      · obtain ⟨found, honly, hreplaced⟩ := replaceUnique_eq_ok (hasStyle_detect current) h
        obtain rfl := hreplaceable.2.2.2.2 found honly.1
        exact ⟨found, hreplaceable, hreplaced⟩

/-- **`str_replace` changes exactly one place**: a file is written exactly where the old
text is replaceable (and the write is not refused), then with this place replaced and
recorded as complete; otherwise nothing is written and no completed write is recorded. -/
theorem strReplace_exact (path : String) (current oldStr newStr : Text)
    (writeError : Option String) :
    let result := executeStrReplace path current oldStr newStr writeError
    (result.written.isSome = true ↔
        (∃ start, Replaceable current oldStr newStr start) ∧ writeError = none) ∧
      (∀ written, result.written = some written →
        (∃ start, Replaceable current oldStr newStr start ∧
          ReplacedAt (detectNewlineStyle current) current oldStr newStr start written) ∧
        result.records.getLast? =
          some { completed := true, changed := some true, path := some path }) ∧
      (result.written = none → ∀ record ∈ result.records, record.completed = false) := by
  intro result
  have hok : (∃ written, strReplace current oldStr newStr = .ok written) ↔
      ∃ start, Replaceable current oldStr newStr start := strReplace_isOk
  cases hreplace : strReplace current oldStr newStr with
  | error e =>
      have hresult : result = { reply := e.text path, written := none
                                records := [{ completed := false, changed := some false
                                              path := none }] } := by
        simp only [result, executeStrReplace, hreplace]
      rw [hreplace] at hok
      rw [hresult, ← hok]
      simp
  | ok updated =>
      have hspec := strReplace_eq_ok hreplace
      cases writeError with
      | some e =>
          have hresult : result = { reply := "Error: " ++ e, written := none
                                    records := [{ completed := false, changed := some false
                                                  path := none },
                                                { completed := false, changed := none
                                                  path := none }] } := by
            simp only [result, executeStrReplace, hreplace]
          rw [hresult]
          simp
      | none =>
          have hwritten : result.written = some updated := by
            simp only [result, executeStrReplace, hreplace]
          have hlast : result.records.getLast? =
              some { completed := true, changed := some true, path := some path } := by
            simp only [result, executeStrReplace, hreplace]
            rfl
          rw [hwritten]
          refine ⟨⟨fun _ => ⟨hok.mp ⟨updated, hreplace⟩, rfl⟩, fun _ => rfl⟩, ?_, ?_⟩
          · intro written hsome
            obtain rfl := Option.some.inj hsome
            exact ⟨hspec, hlast⟩
          · intro hnone
            contradiction

end OpenCollab.Patch
