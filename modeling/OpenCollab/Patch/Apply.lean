import OpenCollab.Lib.Windows
import OpenCollab.Patch.Hunks

/-!
# OpenCollab.Patch.Apply

Applying the hunks of a unified diff to a source, as `_apply_unified_diff` does:
each hunk is located by its content, nearest to where its header says, and never
before the end of the hunk that precedes it.

* `findBlock_occurs`, `placeHunk_spec` — a place that is found holds the hunk's
  old block, and a bare hunk has no other one;
* `applyHunk_spec` — what one hunk does;
* `applyHunks_spliced` — the result of a run is the source with the windows of
  its hunks replaced (`Lib.Spliced`);
* `unifiedDiff_sound` — the same for the text that is written.
-/

namespace OpenCollab.Patch

/-! ## locating -/

/-- `_find_block`.  The occurrence at the stated position ends the search there,
and is the nearest. -/
def findBlock (srcLines oldBlock : List Text) (expectedIdx minIdx : Nat) : Option Nat :=
  if oldBlock = [] then
    if expectedIdx < minIdx ∨ srcLines.length < expectedIdx then none else some expectedIdx
  else Lib.nearest expectedIdx (Lib.occurrences oldBlock srcLines minIdx)

/-- The index a header states: a range without lines names the line before it. -/
def expectedIdx (oldStart oldLen : Nat) : Nat := if oldLen = 0 then oldStart else oldStart - 1

/-- Where hunk `n` goes, from `srcIdx` on. -/
def placeHunk (srcLines : List Text) (srcIdx n : Nat) (hunk : Hunk) (oldBlock : List Text) :
    Except Failure Nat :=
  match hunk.oldStart with
  | none =>
      match if oldBlock = [] then [] else Lib.occurrences oldBlock srcLines srcIdx with
      | [pos] => .ok pos
      | hits =>
          .error (.error (s!"hunk #{n} without coordinates matched {hits.length} ranges; " ++
            "add unique context or a numbered header."))
  | some oldStart =>
      match findBlock srcLines oldBlock (expectedIdx oldStart hunk.oldLen) srcIdx with
      | some pos => .ok pos
      | none =>
          let quoted := String.ofList (['\n'].intercalate (oldBlock.take 6))
          let snippet := if quoted = "" then "(empty context)" else quoted
          .error (.error (s!"hunk #{n} (near line {showStart hunk.oldStart}) did not match the file. " ++
            s!"The context/removed lines were not found:\n{snippet}"))

/-! ## the end of the file -/

/-- The marker stands at another line than the last of the side. -/
def strayMarker (positions : List Nat) (block : List Text) : Bool :=
  1 < positions.length || positions ≠ [] && positions.head? ≠ some (block.length - 1)

/-- The checks on the marker of hunk `n` of `total`, and whether the target ends
in a line break after it. -/
def checkMarker (srcLines : List Text) (endedNl : Bool) (total n pos : Nat) (hunk : Hunk)
    (b : Blocks) (targetEndedNl : Bool) : Except Failure Bool :=
  if hunk.noNewlineAfter = [] then .ok targetEndedNl
  else if n ≠ total ∨ pos + b.oldBlock.length ≠ srcLines.length then
    .error (.error s!"hunk #{n} has 'No newline at end of file' metadata away from EOF.")
  else if strayMarker b.oldNoNewline b.oldBlock || strayMarker b.newNoNewline b.newBlock then
    .error (.error s!"hunk #{n} has newline metadata on a non-final line.")
  else if srcLines ≠ [] ∧ endedNl = !b.oldNoNewline.isEmpty then
    .error (.error s!"hunk #{n} newline metadata does not match the source EOF.")
  else .ok b.newNoNewline.isEmpty

/-! ## applying -/

/-- The result so far, how much of the source it takes up, and whether the target
ends in a line break. -/
structure ApplyState where
  result : List Text := []
  srcIdx : Nat := 0
  targetEndedNl : Bool

/-- One hunk, with its number. -/
def applyHunk (srcLines : List Text) (endedNl : Bool) (total : Nat) (st : ApplyState)
    (numbered : Hunk × Nat) : Except Failure ApplyState := do
  let (hunk, n) := numbered
  let b := hunk.blocks
  let pos ← placeHunk srcLines st.srcIdx n hunk b.oldBlock
  let targetEndedNl ← checkMarker srcLines endedNl total n pos hunk b st.targetEndedNl
  .ok { result := st.result ++ (srcLines.drop st.srcIdx).take (pos - st.srcIdx) ++ b.newBlock
        srcIdx := pos + b.oldBlock.length
        targetEndedNl }

/-- The loop over the hunks: the lines of the target and whether it ends in a
line break. -/
def applyHunks (srcLines : List Text) (endedNl : Bool) (hunks : List Hunk) :
    Except Failure (List Text × Bool) := do
  let st ← (hunks.zipIdx 1).foldlM (applyHunk srcLines endedNl hunks.length)
    { targetEndedNl := if srcLines = [] then true else endedNl }
  .ok (st.result ++ srcLines.drop st.srcIdx, st.targetEndedNl)

/-- `_apply_unified_diff`. -/
def applyUnifiedDiff (digits : Digits) (source patch : Text) (normalizeHunks : Bool) :
    Except Failure Text := do
  let some style := detectNewlineStyle source
    | .error (.error "source uses mixed newline styles; refusing to normalize it implicitly.")
  let hunks ← parseHunks digits (normalizeNewlines patch) normalizeHunks
  let (srcLines, endedNl) := splitLines (normalizeNewlines source)
  let (result, targetEndedNl) ← applyHunks srcLines endedNl hunks
  .ok (restoreNewlines (joinLines result targetEndedNl) style)

/-! ## one hunk -/

theorem findBlock_occurs {srcLines oldBlock : List Text} {expectedIdx minIdx pos : Nat}
    (h : findBlock srcLines oldBlock expectedIdx minIdx = some pos) :
    minIdx ≤ pos ∧ Lib.Occurs oldBlock srcLines pos := by
  simp only [findBlock] at h
  split at h
  · rename_i hempty
    split at h
    · contradiction
    · simp only [Option.some.injEq] at h
      rw [hempty, Lib.occurs_nil]
      omega
  · exact Lib.mem_occurrences.1 (Lib.nearest_mem h)

/-- A place that is found holds the old block, and a bare hunk has no other one. -/
theorem placeHunk_spec {srcLines oldBlock : List Text} {srcIdx n pos : Nat} {hunk : Hunk}
    (h : placeHunk srcLines srcIdx n hunk oldBlock = .ok pos) :
    srcIdx ≤ pos ∧ Lib.Occurs oldBlock srcLines pos ∧
      (hunk.oldStart = none → oldBlock ≠ [] ∧
        ∀ other, srcIdx ≤ other → Lib.Occurs oldBlock srcLines other → other = pos) := by
  cases hstart : hunk.oldStart with
  | none =>
      simp only [placeHunk, hstart] at h
      split at h
      · rename_i hit hhits
        simp only [Except.ok.injEq] at h
        subst h
        split at hhits
        · contradiction
        · rename_i hne
          obtain ⟨hlo, hoccurs, honly⟩ := Lib.occurrences_eq_singleton.1 hhits
          exact ⟨hlo, hoccurs, fun _ => ⟨hne, honly⟩⟩
      · contradiction
  | some oldStart =>
      simp only [placeHunk, hstart] at h
      split at h
      · rename_i found hfound
        simp only [Except.ok.injEq] at h
        subst h
        obtain ⟨hlo, hoccurs⟩ := findBlock_occurs hfound
        exact ⟨hlo, hoccurs, fun hnone => by contradiction⟩
      · contradiction

/-- Only a marker changes whether the target ends in a line break. -/
theorem checkMarker_spec {srcLines : List Text} {endedNl targetEndedNl target : Bool}
    {total n pos : Nat} {hunk : Hunk} {b : Blocks}
    (h : checkMarker srcLines endedNl total n pos hunk b targetEndedNl = .ok target) :
    target = targetEndedNl ∨ hunk.noNewlineAfter ≠ [] := by
  by_cases hmarker : hunk.noNewlineAfter = []
  · simp only [checkMarker, hmarker, if_true, Except.ok.injEq] at h
    exact Or.inl h.symm
  · exact Or.inr hmarker

/-- What one hunk does: it takes what is left of the source up to its place, and
its new block for its old one. -/
theorem applyHunk_spec {srcLines : List Text} {endedNl : Bool} {total n : Nat} {st st' : ApplyState}
    {hunk : Hunk} (h : applyHunk srcLines endedNl total st (hunk, n) = .ok st') :
    ∃ pos, placeHunk srcLines st.srcIdx n hunk hunk.blocks.oldBlock = .ok pos ∧
      checkMarker srcLines endedNl total n pos hunk hunk.blocks st.targetEndedNl =
        .ok st'.targetEndedNl ∧
      st'.result = st.result ++ (srcLines.drop st.srcIdx).take (pos - st.srcIdx) ++
        hunk.blocks.newBlock ∧
      st'.srcIdx = pos + hunk.blocks.oldBlock.length := by
  simp only [applyHunk, bind, Except.bind] at h
  split at h
  · contradiction
  rename_i pos hpos
  split at h
  · contradiction
  rename_i target htarget
  simp only [Except.ok.injEq] at h
  subst h
  exact ⟨pos, hpos, htarget, rfl, rfl⟩

/-! ## every run -/

/-- What is asked of the window of a hunk, before `rest`: a bare hunk has old
lines, and no other window of what is left of the source holds them. -/
def Anchored (gap : List Text) (hunk : Hunk) (rest : List Text) : Prop :=
  hunk.oldStart = none → hunk.oldLines ≠ [] ∧
    ∀ start, Lib.Occurs hunk.oldLines (gap ++ hunk.oldLines ++ rest) start → start = gap.length

/-- **A run replaces the windows of its hunks**, in what is left of the source. -/
theorem foldlM_applyHunk {srcLines : List Text} {endedNl : Bool} {total : Nat}
    {numbered : List (Hunk × Nat)} {st st' : ApplyState}
    (h : numbered.foldlM (applyHunk srcLines endedNl total) st = .ok st') :
    ∃ out, st'.result ++ srcLines.drop st'.srcIdx = st.result ++ out ∧
      Lib.Spliced Hunk.oldLines Hunk.newLines Anchored (srcLines.drop st.srcIdx)
        (numbered.map Prod.fst) out ∧
      (st'.targetEndedNl = st.targetEndedNl ∨
        ∃ hunk ∈ numbered.map Prod.fst, hunk.noNewlineAfter ≠ []) := by
  induction numbered generalizing st with
  | nil =>
      simp only [List.foldlM_nil, pure, Except.pure, Except.ok.injEq] at h
      subst h
      exact ⟨_, rfl, .done _, Or.inl rfl⟩
  | cons entry numbered ih =>
      obtain ⟨hunk, n⟩ := entry
      rw [List.foldlM_cons] at h
      simp only [bind, Except.bind] at h
      split at h
      · contradiction
      rename_i next hnext
      obtain ⟨pos, hpos, htarget, hresult, hidx⟩ := applyHunk_spec hnext
      obtain ⟨hlo, hoccurs, honly⟩ := placeHunk_spec hpos
      obtain ⟨out, hout, hspliced, hended⟩ := ih h
      rw [oldBlock_blocks] at hoccurs honly hidx
      rw [newBlock_blocks] at hresult
      rw [hidx] at hspliced
      have hleft := hoccurs.eq_append hlo
      refine ⟨(srcLines.drop st.srcIdx).take (pos - st.srcIdx) ++ hunk.newLines ++ out, ?_, ?_, ?_⟩
      · rw [hout, hresult]
        simp only [List.append_assoc]
      · have hanchored : Anchored ((srcLines.drop st.srcIdx).take (pos - st.srcIdx)) hunk
            (srcLines.drop (pos + hunk.oldLines.length)) := by
          intro hnone
          obtain ⟨hne, hother⟩ := honly hnone
          refine ⟨hne, fun start hstart => ?_⟩
          rw [← hleft] at hstart
          have hpos' := hother _ (Nat.le_add_right ..) (hstart.of_drop hne)
          have hbound := hoccurs.1
          rw [List.length_take, List.length_drop]
          omega
        have hrun := Lib.Spliced.hunk hanchored hspliced
        rwa [← hleft] at hrun
      · rcases hended with hended | ⟨other, hother, hmarker⟩
        · rcases checkMarker_spec htarget with htarget | hmarker
          · exact Or.inl (hended.trans htarget)
          · exact Or.inr ⟨hunk, by simp, hmarker⟩
        · exact Or.inr ⟨other, by simp only [List.map_cons]; exact List.mem_cons_of_mem _ hother, hmarker⟩

/-- **The target of a run is the source with the windows of the hunks replaced.** -/
theorem applyHunks_spliced {srcLines : List Text} {endedNl target : Bool} {hunks : List Hunk}
    {result : List Text} (h : applyHunks srcLines endedNl hunks = .ok (result, target)) :
    Lib.Spliced Hunk.oldLines Hunk.newLines Anchored srcLines hunks result ∧
      (target = endedNl ∨ srcLines = [] ∨ ∃ hunk ∈ hunks, hunk.noNewlineAfter ≠ []) := by
  simp only [applyHunks, bind, Except.bind] at h
  split at h
  · contradiction
  rename_i st hst
  obtain ⟨out, hout, hspliced, hended⟩ := foldlM_applyHunk hst
  simp only [Except.ok.injEq, Prod.mk.injEq] at h
  rw [List.zipIdx_map_fst] at hspliced hended
  simp only [List.nil_append, List.drop_zero] at hout hspliced
  refine ⟨?_, ?_⟩
  · rw [← h.1, hout]
    exact hspliced
  · rw [← h.2]
    rcases hended with hended | hmarker
    · by_cases hsrc : srcLines = []
      · exact Or.inr (Or.inl hsrc)
      · exact Or.inl (by rw [hended, if_neg hsrc])
    · exact Or.inr (Or.inr hmarker)

/-! ## every patch -/

theorem placeHunk_ne_valueError (srcLines oldBlock : List Text) (srcIdx n : Nat) (hunk : Hunk) :
    placeHunk srcLines srcIdx n hunk oldBlock ≠ .error .valueError := by
  intro h
  simp only [placeHunk] at h
  repeat' split at h
  all_goals simp at h

theorem checkMarker_ne_valueError (srcLines : List Text) (endedNl target : Bool) (total n pos : Nat)
    (hunk : Hunk) (b : Blocks) :
    checkMarker srcLines endedNl total n pos hunk b target ≠ .error .valueError := by
  intro h
  simp only [checkMarker] at h
  repeat' split at h
  all_goals simp at h

theorem applyHunks_ne_valueError (srcLines : List Text) (endedNl : Bool) (hunks : List Hunk) :
    applyHunks srcLines endedNl hunks ≠ .error .valueError := by
  intro h
  simp only [applyHunks, bind, Except.bind] at h
  split at h
  · rename_i e he
    rw [Except.error.injEq] at h
    subst h
    revert he
    generalize ({ targetEndedNl := if srcLines = [] then true else endedNl } : ApplyState) = st
    induction hunks.zipIdx 1 generalizing st with
    | nil => simp [pure, Except.pure]
    | cons entry numbered ih =>
        intro he
        rw [List.foldlM_cons] at he
        simp only [bind, Except.bind] at he
        split at he
        · rename_i e' he'
          rw [Except.error.injEq] at he
          subst he
          simp only [applyHunk, bind, Except.bind] at he'
          split at he'
          · rename_i hplace
            rw [Except.error.injEq] at he'
            exact placeHunk_ne_valueError _ _ _ _ _ (he' ▸ hplace)
          · split at he'
            · rename_i hmarker
              rw [Except.error.injEq] at he'
              exact checkMarker_ne_valueError _ _ _ _ _ _ _ _ (he' ▸ hmarker)
            · contradiction
        · exact ih _ he
  · contradiction

/-- **What a patched text is.**  It is written in the style of the source; its
lines are those of the source with the windows of the hunks replaced; whether it
ends in a line break changes only with a marker or where there were no lines;
and unless it would have to end in a blank line without a terminator, the lines
and the flag are read back from it. -/
structure Patched (source text : Text) (hunks : List Hunk) (style : Newline) (lines : List Text)
    (endedNl : Bool) : Prop where
  style_source : ∀ found ∈ findNewlines source, found = style
  text_eq : text = restoreNewlines (joinLines lines endedNl) style
  spliced : Lib.Spliced Hunk.oldLines Hunk.newLines Anchored
    (splitLines (normalizeNewlines source)).1 hunks lines
  ended : endedNl = (splitLines (normalizeNewlines source)).2 ∨
    (splitLines (normalizeNewlines source)).1 = [] ∨ ∃ hunk ∈ hunks, hunk.noNewlineAfter ≠ []
  text_nil : lines = [] → text = []
  text_lines : lines ≠ [] → endedNl = true ∨ lines.getLast? ≠ some [] →
    splitLines (normalizeNewlines text) = (lines, endedNl)

/-- A successful run is a patched text. -/
theorem applyUnifiedDiff_patched {digits : Digits} {source patch text : Text} {normalizeHunks : Bool}
    (h : applyUnifiedDiff digits source patch normalizeHunks = .ok text) :
    ∃ hunks style lines endedNl,
      parseHunks digits (normalizeNewlines patch) normalizeHunks = .ok hunks ∧
      Patched source text hunks style lines endedNl := by
  simp only [applyUnifiedDiff, bind, Except.bind] at h
  split at h
  case h_2 => contradiction
  rename_i style hstyle
  split at h
  · contradiction
  rename_i hunks hhunks
  split at h
  · contradiction
  rename_i out hout
  obtain ⟨lines, endedNl⟩ := out
  simp only [Except.ok.injEq] at h
  subst h
  obtain ⟨hspliced, hended⟩ := applyHunks_spliced hout
  have hchars : ∀ line ∈ lines, ∀ c ∈ line, c ≠ '\r' ∧ c ≠ '\n' := by
    refine hspliced.forall_mem ?_ ?_
    · intro line hline c hc
      obtain ⟨hsub, hno⟩ := mem_splitLines hline
      exact ⟨fun hcr => cr_not_mem_normalizeNewlines source (hcr ▸ hsub c hc),
        fun hlf => hno (hlf ▸ hc)⟩
    · intro hunk hhunk content hcontent c hc
      simp only [Hunk.newLines, List.mem_map, List.mem_filter] at hcontent
      obtain ⟨line, ⟨hline, _⟩, rfl⟩ := hcontent
      obtain ⟨hmem, hlf⟩ := parseHunks_chars hhunks hunk hhunk line hline c hc
      exact ⟨fun hcr => cr_not_mem_normalizeNewlines patch (hcr ▸ hmem), hlf⟩
  refine ⟨hunks, style, lines, endedNl, hhunks, (detectNewlineStyle_eq_some.1 hstyle).1, rfl,
    hspliced, hended, ?_, ?_⟩
  · intro hnil
    simp [hnil, joinLines]
  · intro hne hlast
    have hjoined : '\r' ∉ joinLines lines endedNl := by
      intro hcr
      rcases mem_joinLines hcr with hlf | ⟨line, hline, hc⟩
      · exact absurd hlf (by decide)
      · exact (hchars line hline _ hc).1 rfl
    rw [normalizeNewlines_restoreNewlines hjoined]
    exact splitLines_joinLines (fun line hline hc => (hchars line hline _ hc).2 rfl)
      ⟨fun hnil => absurd hnil hne, hlast⟩

/-- **A patch that applies is sound, and one that does not produces no text**: an
error is returned, or `int` raises at a number of a header that is too long for
it. -/
theorem unifiedDiff_sound (digits : Digits) (source patch : Text) (normalizeHunks : Bool) :
    match applyUnifiedDiff digits source patch normalizeHunks with
    | .ok text => ∃ hunks style lines endedNl,
        parseHunks digits (normalizeNewlines patch) normalizeHunks = .ok hunks ∧
        Patched source text hunks style lines endedNl
    | .error (.error _) => True
    | .error .valueError => ∃ raw ∈ rawLines (normalizeNewlines patch), ∃ header,
        matchHeader digits raw = some header ∧ ∃ number ∈ header.numbers, digits.TooLong number := by
  cases h : applyUnifiedDiff digits source patch normalizeHunks with
  | ok text => exact applyUnifiedDiff_patched h
  | error failure =>
      cases failure with
      | error message => trivial
      | valueError =>
          simp only [applyUnifiedDiff, bind, Except.bind] at h
          split at h
          case h_2 => simp at h
          split at h
          · rename_i e he
            rw [Except.error.injEq] at h
            exact parseHunks_valueError (h ▸ he)
          · split at h
            · rename_i e he
              rw [Except.error.injEq] at h
              exact absurd (h ▸ he) (applyHunks_ne_valueError _ _ _)
            · contradiction

/-- A hunk that makes the last line of an unterminated text a blank one: the text
that is written has a final line break, and one line less than the target. -/
theorem unifiedDiff_blank_end :
    applyUnifiedDiff .ascii ['a', '\n', 'b'] "@@ -1,2 +1,2 @@\n a\n-b\n+\n".toList false =
        .ok ['a', '\n'] ∧
      splitLines ['a', '\n', 'b'] = ([['a'], ['b']], false) ∧
      (parseHunks .ascii "@@ -1,2 +1,2 @@\n a\n-b\n+\n".toList false).map
          (fun hunks => hunks.map fun hunk => (hunk.oldLines, hunk.newLines, hunk.noNewlineAfter)) =
        .ok [([['a'], ['b']], [['a'], []], [])] ∧
      splitLines ['a', '\n'] = ([['a']], true) := by
  refine ⟨by decide +kernel, by decide, by decide +kernel, by decide⟩

end OpenCollab.Patch
