import OpenCollab.Patch.Apply
import OpenCollab.Patch.Diff

/-!
# OpenCollab.Patch.Exact

A correct diff is applied exactly, however often its blocks occur in the source:
the place a header states is one of the occurrences, at distance zero, and the
hunks come in order.

The loop carries `OnTrack`: what is consumed of the source and what is produced
of the target are the two sides of the hunks applied so far, terminated alike.

* `blocks_parsed` — the two sides of a parsed hunk and where the marker stands
  in them;
* `placeHunk_exact` — a hunk goes where its header says;
* `checkMarker_exact` — the marker of the last hunk passes the checks at the end
  of the file;
* `foldlM_applyHunk_exact`, `unifiedDiff_exact` — the run, and the patch.
-/

namespace OpenCollab.Patch

/-! ## lines with terminators -/

theorem map_fst_terminate (lines : List Text) (endedNl : Bool) :
    (terminate lines endedNl).map Prod.fst = lines := by
  induction lines with
  | nil => rfl
  | cons line lines ih =>
      cases lines with
      | nil => rfl
      | cons next lines => simpa [terminate] using ih

/-- The last line has the flag, the others are terminated. -/
theorem terminate_concat (front : List Text) (last : Text) (endedNl : Bool) :
    terminate (front ++ [last]) endedNl = front.map (fun line => (line, true)) ++ [(last, endedNl)] := by
  induction front with
  | nil => rfl
  | cons line front ih =>
      cases front with
      | nil => rfl
      | cons next front => simpa [terminate] using ih

theorem wellEnded_fullLines (text : Text) : WellEnded (fullLines text) := by
  intro before line after hlines hline
  rcases List.eq_nil_or_concat' (splitLines text).1 with hnil | ⟨front, last, hconcat⟩
  · simp [fullLines, hnil, terminate] at hlines
  · rcases List.eq_nil_or_concat' after with hafter | ⟨middle, final, hafter⟩
    · exact hafter
    · rw [fullLines, hconcat, terminate_concat, hafter, ← List.cons_append, ← List.append_assoc] at hlines
      obtain ⟨hfront, _⟩ := List.append_inj' hlines rfl
      have hmem : line ∈ front.map (fun line => (line, true)) := by rw [hfront]; simp
      obtain ⟨_, _, rfl⟩ := List.mem_map.1 hmem
      contradiction

/-- A text is terminated when it ends in a line break or has no lines. -/
theorem terminated_fullLines {text : Text} (hne : (splitLines text).1 ≠ []) :
    Terminated (fullLines text) ↔ (splitLines text).2 = true := by
  obtain ⟨front, last, hconcat⟩ := (List.eq_nil_or_concat' (splitLines text).1).resolve_left hne
  simp only [Terminated, fullLines, hconcat, terminate_concat, List.mem_append, List.mem_map,
    List.mem_singleton]
  constructor
  · intro h
    exact h _ (Or.inr rfl)
  · rintro h line (⟨_, _, rfl⟩ | rfl)
    · rfl
    · exact h

theorem terminated_append {before after : List FullLine} :
    Terminated (before ++ after) ↔ Terminated before ∧ Terminated after := by
  simp only [Terminated, List.mem_append, or_imp, forall_and]

/-- Lines that others follow are terminated. -/
theorem WellEnded.left {before after : List FullLine} (h : WellEnded (before ++ after))
    (hne : after ≠ []) : Terminated before := by
  intro line hline
  obtain ⟨front, back, rfl⟩ := List.append_of_mem hline
  by_contra hflag
  have hnil := h front line (back ++ after) (by simp) (by simpa using hflag)
  exact hne (List.append_eq_nil_iff.1 hnil).2

theorem WellEnded.right {before after : List FullLine} (h : WellEnded (before ++ after)) :
    WellEnded after := by
  intro front line back hafter hline
  exact h (before ++ front) line back (by rw [hafter, List.append_assoc]) hline

theorem unterminatedAt_eq_nil {offset : Nat} {lines : List FullLine} :
    unterminatedAt offset lines = [] ↔ Terminated lines := by
  induction lines generalizing offset with
  | nil => simp [unterminatedAt, Terminated]
  | cons line lines ih =>
      rw [unterminatedAt_cons, List.append_eq_nil_iff, ih]
      simp only [Terminated, List.mem_cons, forall_eq_or_imp]
      cases line.2 <;> simp

theorem unterminatedAt_append (offset : Nat) (before after : List FullLine) :
    unterminatedAt offset (before ++ after) =
      unterminatedAt offset before ++ unterminatedAt (offset + before.length) after := by
  simp [unterminatedAt, List.zipIdx_append]

/-- The marker of a well ended side stands at its last line only. -/
theorem strayMarker_unterminatedAt {lines : List FullLine} (h : WellEnded lines) :
    strayMarker (unterminatedAt 0 lines) (lines.map Prod.fst) = false := by
  rcases List.eq_nil_or_concat' lines with rfl | ⟨front, last, rfl⟩
  · rfl
  · have hfront := h.left (List.cons_ne_nil last [])
    rw [unterminatedAt_append, unterminatedAt_eq_nil.2 hfront, List.nil_append, unterminatedAt_cons]
    cases last.2 <;> simp [unterminatedAt, strayMarker]

/-! ## the sides of a parsed hunk -/

private theorem foldl_addLine_noNewline {noNewlineAfter : List Nat} (body : List DiffLine) (k : Nat)
    (b : Blocks)
    (hmarks : ∀ entry ∈ body.zipIdx k, entry.2 ∈ noNewlineAfter ↔ entry.1.line.2 = false) :
    (((body.map DiffLine.parsed).zipIdx k).foldl (addLine noNewlineAfter) b).oldNoNewline =
        b.oldNoNewline ++ unterminatedAt b.oldBlock.length
          ((body.filter fun d => d.tag.inOld).map DiffLine.line) ∧
      (((body.map DiffLine.parsed).zipIdx k).foldl (addLine noNewlineAfter) b).newNoNewline =
        b.newNoNewline ++ unterminatedAt b.newBlock.length
          ((body.filter fun d => d.tag.inNew).map DiffLine.line) := by
  induction body generalizing k b with
  | nil => simp [unterminatedAt]
  | cons d body ih =>
      have hhead : k ∈ noNewlineAfter ↔ d.line.2 = false := hmarks (d, k) (by simp [List.zipIdx_cons])
      have htail := ih (k + 1) (addLine noNewlineAfter b (d.parsed, k)) fun entry h =>
        hmarks entry (by rw [List.zipIdx_cons]; exact List.mem_cons_of_mem _ h)
      obtain ⟨tag, content, terminated⟩ := d
      simp only [List.map_cons, List.zipIdx_cons, List.foldl_cons] at htail ⊢
      rw [htail.1, htail.2]
      cases tag <;> cases terminated <;>
        simp [addLine, Tag.inOld, Tag.inNew, DiffLine.parsed, hhead, unterminatedAt_cons]

theorem mem_unterminatedAt_iff (lines : List FullLine) (k : Nat) :
    ∀ entry ∈ lines.zipIdx k, entry.2 ∈ unterminatedAt k lines ↔ entry.1.2 = false := by
  intro entry hentry
  simp only [unterminatedAt, List.mem_filterMap]
  constructor
  · rintro ⟨other, hother, hsome⟩
    split at hsome
    · contradiction
    · rename_i hflag
      simp only [Option.some.injEq] at hsome
      have h₁ := List.mem_zipIdx hentry
      have h₂ := List.mem_zipIdx hother
      have hsame : other.1 = entry.1 := by
        rw [h₁.2.2, h₂.2.2]
        simp only [hsome]
      rw [← hsame]
      simpa using hflag
  · intro hflag
    exact ⟨entry, hentry, by simp [hflag]⟩

/-- **The two sides of a parsed hunk**, and where the marker stands in them. -/
theorem blocks_parsed (hunk : DiffHunk) (headerLine : Nat) :
    (hunk.parsed headerLine).blocks =
      { oldBlock := hunk.old.map Prod.fst, newBlock := hunk.new.map Prod.fst
        oldNoNewline := unterminatedAt 0 hunk.old, newNoNewline := unterminatedAt 0 hunk.new } := by
  have hmarks : ∀ entry ∈ hunk.body.zipIdx 0,
      entry.2 ∈ (hunk.parsed headerLine).noNewlineAfter ↔ entry.1.line.2 = false := by
    intro entry hentry
    refine mem_unterminatedAt_iff (hunk.body.map DiffLine.line) 0 (entry.1.line, entry.2) ?_
    rw [List.zipIdx_map]
    exact List.mem_map_of_mem hentry
  have hold := oldBlock_blocks (hunk.parsed headerLine)
  have hnew := newBlock_blocks (hunk.parsed headerLine)
  obtain ⟨holdMarks, hnewMarks⟩ := foldl_addLine_noNewline hunk.body 0 {} hmarks
  have holdLines : (hunk.parsed headerLine).oldLines = hunk.old.map Prod.fst := by
    simp [Hunk.oldLines, DiffHunk.parsed, DiffHunk.old, List.filter_map, Function.comp_def,
      DiffLine.parsed]
  have hnewLines : (hunk.parsed headerLine).newLines = hunk.new.map Prod.fst := by
    simp [Hunk.newLines, DiffHunk.parsed, DiffHunk.new, List.filter_map, Function.comp_def,
      DiffLine.parsed]
  rw [holdLines] at hold
  rw [hnewLines] at hnew
  have heta : ∀ b : Blocks, b = ⟨b.oldBlock, b.newBlock, b.oldNoNewline, b.newNoNewline⟩ := fun _ => rfl
  have holdPositions : (hunk.parsed headerLine).blocks.oldNoNewline = unterminatedAt 0 hunk.old :=
    holdMarks
  have hnewPositions : (hunk.parsed headerLine).blocks.newNoNewline = unterminatedAt 0 hunk.new :=
    hnewMarks
  rw [heta (hunk.parsed headerLine).blocks, hold, hnew, holdPositions, hnewPositions]

/-- A parsed hunk carries the marker when one of its lines lacks its terminator. -/
theorem noNewlineAfter_parsed (hunk : DiffHunk) (headerLine : Nat) :
    (hunk.parsed headerLine).noNewlineAfter = [] ↔ ¬ hunk.Marked := by
  rw [show (hunk.parsed headerLine).noNewlineAfter = unterminatedAt 0 (hunk.body.map DiffLine.line)
    from rfl, unterminatedAt_eq_nil]
  simp [Terminated, DiffHunk.Marked]

/-- A hunk without a marker has terminated sides. -/
theorem terminated_of_not_marked {hunk : DiffHunk} (h : ¬ hunk.Marked) :
    Terminated hunk.old ∧ Terminated hunk.new := by
  simp only [DiffHunk.Marked, not_exists, not_and, Bool.not_eq_false] at h
  constructor
  · intro line hline
    obtain ⟨d, hd, rfl⟩ := List.mem_map.1 hline
    exact h d (List.mem_of_mem_filter hd)
  · intro line hline
    obtain ⟨d, hd, rfl⟩ := List.mem_map.1 hline
    exact h d (List.mem_of_mem_filter hd)

/-- The line that lacks its terminator is on one of the sides. -/
theorem not_terminated_of_marked {hunk : DiffHunk} (h : hunk.Marked) :
    ¬ Terminated hunk.old ∨ ¬ Terminated hunk.new := by
  obtain ⟨⟨tag, line⟩, hd, hflag⟩ := h
  simp only at hflag
  cases tag with
  | context | remove =>
      refine Or.inl fun hall => ?_
      have htrue := hall line (List.mem_map.2 ⟨_, List.mem_filter.2 ⟨hd, rfl⟩, rfl⟩)
      rw [hflag] at htrue
      contradiction
  | add =>
      refine Or.inr fun hall => ?_
      have htrue := hall line (List.mem_map.2 ⟨_, List.mem_filter.2 ⟨hd, rfl⟩, rfl⟩)
      rw [hflag] at htrue
      contradiction

/-! ## one hunk -/

/-- **A hunk goes where its header says**, whatever other places hold its lines. -/
theorem placeHunk_exact {before gap : List FullLine} {hunk : DiffHunk} (rest : List FullLine)
    (headerLine n : Nat)
    (holdStart : hunk.oldStart = startAt (before.length + gap.length) hunk.oldLen) :
    placeHunk ((before ++ (gap ++ hunk.old ++ rest)).map Prod.fst) before.length n
      (hunk.parsed headerLine) (hunk.old.map Prod.fst) = .ok (before.length + gap.length) := by
  have hexpected : expectedIdx hunk.oldStart hunk.oldLen = before.length + gap.length := by
    simp only [expectedIdx, holdStart, startAt]
    split <;> omega
  have hoccurs : Lib.Occurs (hunk.old.map Prod.fst)
      ((before ++ (gap ++ hunk.old ++ rest)).map Prod.fst) (before.length + gap.length) := by
    have happend := Lib.occurs_append ((before ++ gap).map Prod.fst) (hunk.old.map Prod.fst)
      (rest.map Prod.fst)
    simpa using happend
  have hfound : findBlock ((before ++ (gap ++ hunk.old ++ rest)).map Prod.fst)
      (hunk.old.map Prod.fst) (before.length + gap.length) before.length =
      some (before.length + gap.length) := by
    simp only [findBlock]
    split
    · rw [if_neg]
      have hbound := hoccurs.1
      omega
    · exact Lib.nearest_self (Lib.mem_occurrences.2 ⟨Nat.le_add_right .., hoccurs⟩)
  have hstart : (hunk.parsed headerLine).oldStart = some hunk.oldStart := rfl
  have hlen : (hunk.parsed headerLine).oldLen = hunk.oldLen := rfl
  simp only [placeHunk, hstart, hlen, hexpected, hfound]

/-- The side of a hunk at the end of both files tells whether its file is
terminated, if what comes before is so alike. -/
theorem terminated_side {before beforeNew gap side other : List FullLine}
    (halike : Terminated before ↔ Terminated beforeNew)
    (hother : WellEnded (beforeNew ++ (gap ++ other)))
    (hmarked : ¬ Terminated side ∨ ¬ Terminated other) :
    Terminated (before ++ (gap ++ side)) ↔ Terminated side := by
  rw [terminated_append, terminated_append]
  constructor
  · exact fun h => h.2.2
  · intro hside
    have hne : other ≠ [] := by
      rintro rfl
      rcases hmarked with hmarked | hmarked
      · exact hmarked hside
      · exact hmarked fun _ h => by simp at h
    rw [← List.append_assoc] at hother
    have hleft := terminated_append.1 (hother.left hne)
    exact ⟨halike.2 hleft.1, hleft.2, hside⟩

/-- **The marker of the last hunk passes the checks at the end of the file**, and
its new side says whether the target is terminated. -/
theorem checkMarker_exact {before beforeNew gap : List FullLine} {hunk : DiffHunk} {endedNl : Bool}
    (headerLine n : Nat) (target : Bool) (hmarked : hunk.Marked)
    (halike : Terminated before ↔ Terminated beforeNew)
    (hsrc : WellEnded (before ++ (gap ++ hunk.old)))
    (htgt : WellEnded (beforeNew ++ (gap ++ hunk.new)))
    (hended : before ++ (gap ++ hunk.old) ≠ [] →
      (endedNl = true ↔ Terminated (before ++ (gap ++ hunk.old)))) :
    checkMarker ((before ++ (gap ++ hunk.old)).map Prod.fst) endedNl n n (before.length + gap.length)
      (hunk.parsed headerLine) (hunk.parsed headerLine).blocks target =
        .ok (unterminatedAt 0 hunk.new).isEmpty := by
  have hmarker : (hunk.parsed headerLine).noNewlineAfter ≠ [] := fun h =>
    (noNewlineAfter_parsed hunk headerLine).1 h hmarked
  have hstrayOld := strayMarker_unterminatedAt hsrc.right.right
  have hstrayNew := strayMarker_unterminatedAt htgt.right.right
  have hside := terminated_side halike htgt (not_terminated_of_marked hmarked)
  simp only [checkMarker, blocks_parsed]
  rw [if_neg hmarker, if_neg (by simp; omega), if_neg (by simp [hstrayOld, hstrayNew]), if_neg]
  rintro ⟨hne, heof⟩
  have hsrcNe : before ++ (gap ++ hunk.old) ≠ [] := by
    intro hnil
    rw [hnil] at hne
    exact hne rfl
  have hiff : endedNl = true ↔ (unterminatedAt 0 hunk.old).isEmpty = true := by
    rw [hended hsrcNe, hside, List.isEmpty_iff, unterminatedAt_eq_nil]
  rw [heof] at hiff
  revert hiff
  cases (unterminatedAt 0 hunk.old).isEmpty <;> simp

/-! ## every run -/

/-- The loop is on track: `before` is consumed of the source and `beforeNew`
produced of the target, terminated alike; no marker has been met. -/
structure OnTrack (src before beforeNew : List FullLine) (st : ApplyState) : Prop where
  alike : Terminated before ↔ Terminated beforeNew
  result : st.result = beforeNew.map Prod.fst
  srcIdx : st.srcIdx = before.length
  target : st.targetEndedNl = true ↔ Terminated src

/-- A hunk without a marker keeps the loop on track. -/
theorem OnTrack.applyHunk {before beforeNew gap rest : List FullLine} {hunk : DiffHunk}
    {st : ApplyState} (endedNl : Bool) (total : Nat)
    (h : OnTrack (before ++ (gap ++ hunk.old ++ rest)) before beforeNew st) (headerLine n : Nat)
    (holdStart : hunk.oldStart = startAt (before.length + gap.length) hunk.oldLen)
    (hmarked : ¬ hunk.Marked) :
    ∃ st', applyHunk ((before ++ (gap ++ hunk.old ++ rest)).map Prod.fst) endedNl total st
        (hunk.parsed headerLine, n) = .ok st' ∧
      OnTrack (before ++ (gap ++ hunk.old ++ rest)) (before ++ (gap ++ hunk.old))
        (beforeNew ++ (gap ++ hunk.new)) st' := by
  have hplace := placeHunk_exact rest headerLine n holdStart
  have hmarker := (noNewlineAfter_parsed hunk headerLine).2 hmarked
  obtain ⟨hold, hnew⟩ := terminated_of_not_marked hmarked
  refine ⟨{ result := (beforeNew ++ (gap ++ hunk.new)).map Prod.fst
            srcIdx := (before ++ (gap ++ hunk.old)).length
            targetEndedNl := st.targetEndedNl }, ?_, ?_⟩
  · simp only [Patch.applyHunk, blocks_parsed, h.srcIdx, hplace, checkMarker, hmarker, if_true, bind,
      Except.bind, h.result]
    simp [Nat.add_assoc]
  · refine ⟨?_, rfl, rfl, h.target⟩
    rw [terminated_append, terminated_append, terminated_append, terminated_append, h.alike]
    exact and_congr_right fun _ => and_congr_right fun _ => ⟨fun _ => hnew, fun _ => hold⟩

/-- **A run over the hunks of a correct diff makes the target of the source.** -/
theorem foldlM_applyHunk_exact {src tgt : List FullLine} {endedNl : Bool} {total : Nat}
    (hsrcEnd : WellEnded src) (htgtEnd : WellEnded tgt)
    (hended : src ≠ [] → (endedNl = true ↔ Terminated src)) {hunks : List DiffHunk}
    {parsed : List Hunk} (hparsed : ParsedAs hunks parsed) {before beforeNew left leftNew : List FullLine}
    (hcorrect : Correct before.length beforeNew.length left hunks leftNew)
    (hsrc : src = before ++ left) (htgt : tgt = beforeNew ++ leftNew)
    (hmarked : ∀ hunk ∈ hunks.dropLast, ¬ hunk.Marked) {k : Nat} (hk : k + hunks.length = total + 1)
    {st : ApplyState} (htrack : OnTrack src before beforeNew st) :
    ∃ st', (parsed.zipIdx k).foldlM (applyHunk (src.map Prod.fst) endedNl total) st = .ok st' ∧
      st'.result ++ (src.map Prod.fst).drop st'.srcIdx = tgt.map Prod.fst ∧
      (st'.targetEndedNl = true ↔ Terminated tgt) := by
  induction hparsed generalizing before beforeNew left leftNew k st with
  | nil =>
      cases hcorrect
      refine ⟨st, rfl, ?_, ?_⟩
      · rw [htrack.result, htrack.srcIdx, hsrc, htgt]
        simp
      · rw [htrack.target, hsrc, htgt, terminated_append, terminated_append, htrack.alike]
  | @cons hunk p hunks parsed hp hparsed ih =>
      obtain ⟨headerLine, rfl⟩ := hp
      obtain ⟨rest, out, gap, rfl, rfl, holdStart, htail⟩ : ∃ rest out gap,
          left = gap ++ hunk.old ++ rest ∧ leftNew = gap ++ hunk.new ++ out ∧
          hunk.oldStart = startAt (before.length + gap.length) hunk.oldLen ∧
          Correct (before.length + gap.length + hunk.old.length)
            (beforeNew.length + gap.length + hunk.new.length) rest hunks out := by
        cases hcorrect with
        | hunk gap _ _ holdStart _ htail => exact ⟨_, _, gap, rfl, rfl, holdStart, htail⟩
      rw [List.zipIdx_cons, List.foldlM_cons]
      by_cases hmark : hunk.Marked
      · -- the marker stands in the last hunk, which reaches the end of both files
        have hlast : hunks = [] := by
          by_contra hne
          obtain ⟨next, hunks, rfl⟩ := List.exists_cons_of_ne_nil hne
          exact hmarked hunk (by simp) hmark
        subst hlast
        cases hparsed
        cases htail
        have hrest : rest = [] := by
          rcases not_terminated_of_marked hmark with hside | hside
          · by_contra hne
            rw [hsrc, ← List.append_assoc] at hsrcEnd
            exact hside (terminated_append.1 (terminated_append.1 (hsrcEnd.left hne)).2).2
          · by_contra hne
            rw [htgt, ← List.append_assoc] at htgtEnd
            exact hside (terminated_append.1 (terminated_append.1 (htgtEnd.left hne)).2).2
        subst hrest
        simp only [List.append_nil] at hsrc htgt
        subst hsrc htgt
        have hplace := placeHunk_exact [] headerLine k holdStart
        have hmarker := checkMarker_exact headerLine k st.targetEndedNl hmark htrack.alike hsrcEnd
          htgtEnd hended
        have htotal : total = k := by
          simp only [List.length_singleton] at hk
          omega
        subst htotal
        refine ⟨{ result := (beforeNew ++ (gap ++ hunk.new)).map Prod.fst
                  srcIdx := (before ++ (gap ++ hunk.old)).length
                  targetEndedNl := (unterminatedAt 0 hunk.new).isEmpty }, ?_, ?_, ?_⟩
        · simp only [List.append_nil] at hplace
          rw [blocks_parsed] at hmarker
          simp only [Patch.applyHunk, blocks_parsed, htrack.srcIdx, htrack.result, hplace, hmarker,
            bind, Except.bind]
          simp [Nat.add_assoc, pure, Except.pure]
        · simp
        · rw [List.isEmpty_iff, unterminatedAt_eq_nil]
          exact (terminated_side htrack.alike.symm hsrcEnd (not_terminated_of_marked hmark).symm).symm
      · subst hsrc htgt
        obtain ⟨next, hnext, htrack'⟩ := htrack.applyHunk endedNl total
          headerLine k holdStart hmark
        rw [hnext]
        have hbefore : (before ++ (gap ++ hunk.old)).length =
            before.length + gap.length + hunk.old.length := by simp [Nat.add_assoc]
        have hbeforeNew : (beforeNew ++ (gap ++ hunk.new)).length =
            beforeNew.length + gap.length + hunk.new.length := by simp [Nat.add_assoc]
        rw [← hbefore, ← hbeforeNew] at htail
        refine ih htail (by simp) (by simp) ?_ ?_ htrack'
        · intro other hother
          refine hmarked other ?_
          cases hunks with
          | nil => simp at hother
          | cons _ _ => exact List.mem_cons_of_mem _ hother
        · simp only [List.length_cons] at hk
          omega

/-! ## the text of a correct diff -/

/-- The hunks of a correct diff have true headers. -/
theorem Correct.counted {o n : Nat} {left leftNew : List FullLine} {hunks : List DiffHunk}
    (h : Correct o n left hunks leftNew) : ∀ hunk ∈ hunks, hunk.Counted := by
  induction h with
  | done => simp
  | hunk gap holdLen hnewLen holdStart hnewStart _ ih =>
      intro other hother
      rcases List.mem_cons.1 hother with rfl | hother
      · refine ⟨holdLen, hnewLen, fun hne => ?_, fun hne => ?_⟩
        · rw [holdStart, startAt, if_neg hne]
          exact Nat.succ_ne_zero _
        · rw [hnewStart, startAt, if_neg hne]
          exact Nat.succ_ne_zero _
      · exact ih other hother

/-- The lines of a correct diff are lines of the files. -/
theorem Correct.mem_body {o n : Nat} {left leftNew : List FullLine} {hunks : List DiffHunk}
    (h : Correct o n left hunks leftNew) :
    ∀ hunk ∈ hunks, ∀ d ∈ hunk.body, d.line ∈ left ∨ d.line ∈ leftNew := by
  induction h with
  | done => simp
  | @hunk o n gap rest out hunk hunks _ _ _ _ _ ih =>
      intro other hother d hd
      simp only [List.mem_append]
      rcases List.mem_cons.1 hother with rfl | hother
      · obtain ⟨tag, line⟩ := d
        cases tag with
        | context | remove =>
            have hmem : line ∈ other.old := List.mem_map.2 ⟨_, List.mem_filter.2 ⟨hd, rfl⟩, rfl⟩
            exact Or.inl (Or.inl (Or.inr hmem))
        | add =>
            have hmem : line ∈ other.new := List.mem_map.2 ⟨_, List.mem_filter.2 ⟨hd, rfl⟩, rfl⟩
            exact Or.inr (Or.inl (Or.inr hmem))
      · rcases ih other hother d hd with hmem | hmem
        · exact Or.inl (Or.inr hmem)
        · exact Or.inr (Or.inr hmem)

theorem lf_not_mem_fullLines {text : Text} : ∀ line ∈ fullLines text, '\n' ∉ line.1 := by
  intro line hline
  have hmem : line.1 ∈ (fullLines text).map Prod.fst := List.mem_map_of_mem hline
  rw [fullLines, map_fst_terminate] at hmem
  exact (mem_splitLines hmem).2

private theorem lf_not_mem_toDigits (n : Nat) : '\n' ∉ Nat.toDigits 10 n := fun h =>
  absurd (Nat.isDigit_of_mem_toDigits (by decide) (by decide) h) (by decide)

private theorem lf_not_mem_renderRange (start len : Nat) (omitted : Bool) :
    '\n' ∉ renderRange start len omitted := by
  simp only [renderRange, List.mem_append, not_or]
  refine ⟨lf_not_mem_toDigits start, ?_⟩
  split
  · simp
  · simp [lf_not_mem_toDigits]

/-- The lines that show a hunk are not blank, and have no LF. -/
theorem DiffHunk.render_spec {hunk : DiffHunk} (hheading : '\n' ∉ hunk.heading)
    (hbody : ∀ d ∈ hunk.body, '\n' ∉ d.line.1) :
    ∀ raw ∈ hunk.render, raw ≠ [] ∧ '\n' ∉ raw := by
  intro raw hraw
  simp only [DiffHunk.render, List.mem_cons, List.mem_flatMap] at hraw
  rcases hraw with rfl | ⟨d, hd, hraw⟩
  · refine ⟨by simp [DiffHunk.header], ?_⟩
    simp [DiffHunk.header, lf_not_mem_renderRange, hheading]
  · simp only [DiffLine.render, List.mem_cons] at hraw
    rcases hraw with rfl | hraw
    · refine ⟨by simp, ?_⟩
      have htag : '\n' ≠ d.tag.char := by cases d.tag <;> decide
      simp [htag, hbody d hd]
    · split at hraw
      · simp at hraw
      · rw [List.mem_singleton.1 hraw]
        exact ⟨by decide, by decide⟩

/-! ## every patch -/

/-- **A correct diff is applied exactly.**  `target` is what the hunks make of the
source, line for line and terminator for terminator; the patch is any text that
shows them, with any lines that are no header in front.  Only the last hunk may
carry a marker, and `int` converts the numbers of the headers. -/
theorem unifiedDiff_exact (digits : Digits) {source target patch : Text} {style : Newline}
    {preamble : List Text} {hunks : List DiffHunk} {endedNl : Bool}
    (hstyle : detectNewlineStyle source = some style) (hne : hunks ≠ [])
    (hcorrect : Correct 0 0 (fullLines (normalizeNewlines source)) hunks
      (fullLines (normalizeNewlines target)))
    (hmarked : ∀ hunk ∈ hunks.dropLast, ¬ hunk.Marked)
    (hread : ∀ hunk ∈ hunks, hunk.Readable digits)
    (hheading : ∀ hunk ∈ hunks, '\n' ∉ hunk.heading)
    (hpreamble : ∀ raw ∈ preamble, matchHeader digits raw = none ∧ '\n' ∉ raw)
    (hpatch : normalizeNewlines patch =
      joinLines (preamble ++ hunks.flatMap DiffHunk.render) endedNl) :
    applyUnifiedDiff digits source patch false =
      .ok (restoreNewlines (normalizeNewlines target) style) := by
  have hrender : ∀ hunk ∈ hunks, ∀ raw ∈ hunk.render, raw ≠ [] ∧ '\n' ∉ raw := by
    intro hunk hhunk
    refine DiffHunk.render_spec (hheading hunk hhunk) fun d hd => ?_
    rcases hcorrect.mem_body hunk hhunk d hd with hmem | hmem
    · exact lf_not_mem_fullLines _ hmem
    · exact lf_not_mem_fullLines _ hmem
  have hlast : ∃ last, (preamble ++ hunks.flatMap DiffHunk.render).getLast? = some last ∧
      last ≠ [] := by
    have hshown : hunks.flatMap DiffHunk.render ≠ [] := by
      obtain ⟨hunk, others, rfl⟩ := List.exists_cons_of_ne_nil hne
      simp [DiffHunk.render]
    have hmem := List.getLast_mem hshown
    obtain ⟨hunk, hhunk, hraw⟩ := List.mem_flatMap.1 hmem
    refine ⟨_, ?_, (hrender hunk hhunk _ hraw).1⟩
    rw [List.getLast?_append_of_ne_nil _ hshown, List.getLast?_eq_some_getLast hshown]
  have hraw : rawLines (normalizeNewlines patch) = preamble ++ hunks.flatMap DiffHunk.render := by
    rw [hpatch]
    refine rawLines_joinLines ?_ hlast
    intro raw hmem
    rcases List.mem_append.1 hmem with hmem | hmem
    · exact (hpreamble raw hmem).2
    · obtain ⟨hunk, hhunk, hraw⟩ := List.mem_flatMap.1 hmem
      exact (hrender hunk hhunk raw hraw).2
  obtain ⟨parsed, hparse, hparsed⟩ := parseHunks_render hne hcorrect.counted hread
    (fun raw hmem => (hpreamble raw hmem).1) hraw
  have hsrcLines : (fullLines (normalizeNewlines source)).map Prod.fst =
      (splitLines (normalizeNewlines source)).1 := map_fst_terminate _ _
  have htgtLines : (fullLines (normalizeNewlines target)).map Prod.fst =
      (splitLines (normalizeNewlines target)).1 := map_fst_terminate _ _
  have hsrcEnded : fullLines (normalizeNewlines source) ≠ [] →
      ((splitLines (normalizeNewlines source)).2 = true ↔
        Terminated (fullLines (normalizeNewlines source))) := by
    intro hfull
    refine (terminated_fullLines fun hnil => hfull ?_).symm
    rw [fullLines, hnil]
    rfl
  have htrack : OnTrack (fullLines (normalizeNewlines source)) [] []
      { targetEndedNl := if (splitLines (normalizeNewlines source)).1 = [] then true
          else (splitLines (normalizeNewlines source)).2 } := by
    refine ⟨Iff.rfl, rfl, rfl, ?_⟩
    by_cases hnil : (splitLines (normalizeNewlines source)).1 = []
    · simp [hnil, fullLines, terminate, Terminated]
    · simp only [hnil, if_false]
      exact (terminated_fullLines hnil).symm
  have hstart : Correct ([] : List FullLine).length ([] : List FullLine).length
      (fullLines (normalizeNewlines source)) hunks (fullLines (normalizeNewlines target)) := hcorrect
  obtain ⟨st', hrun, hresult, hterm⟩ := foldlM_applyHunk_exact (wellEnded_fullLines _)
    (wellEnded_fullLines _) hsrcEnded hparsed hstart (List.nil_append _).symm
    (List.nil_append _).symm hmarked (Nat.add_comm 1 hunks.length) htrack
  rw [hsrcLines] at hrun hresult
  rw [htgtLines] at hresult
  have hjoin : joinLines (splitLines (normalizeNewlines target)).1 st'.targetEndedNl =
      normalizeNewlines target := by
    by_cases hnil : (splitLines (normalizeNewlines target)).1 = []
    · have htext := joinLines_splitLines (normalizeNewlines target)
      rw [hnil] at htext ⊢
      exact htext
    · have hflag : st'.targetEndedNl = (splitLines (normalizeNewlines target)).2 := by
        rw [Bool.eq_iff_iff, hterm, terminated_fullLines hnil]
      rw [hflag, joinLines_splitLines]
  have happly : applyHunks (splitLines (normalizeNewlines source)).1
      (splitLines (normalizeNewlines source)).2 parsed =
        .ok ((splitLines (normalizeNewlines target)).1, st'.targetEndedNl) := by
    simp only [applyHunks, ← hparsed.length_eq, hrun, bind, Except.bind, hresult]
  simp only [applyUnifiedDiff, hstyle, hparse, bind, Except.bind, happly, hjoin]

/-- A hunk that makes a line `b` of the line `a`, which is line `start`. -/
def changedLine (start : Nat) (terminated : Bool) : DiffHunk where
  oldStart := start
  oldLen := 1
  newStart := start
  newLen := 1
  body := [⟨.remove, ['a'], terminated⟩, ⟨.add, ['b'], true⟩]

/-- A hunk that adds a line `c` behind line 1. -/
def addedLine : DiffHunk where
  oldStart := 1
  oldLen := 0
  newStart := 2
  newLen := 1
  body := [⟨.add, ['c'], true⟩]

/-- The diff that changes the second of two equal lines. -/
theorem unifiedDiff_exact_second :
    applyUnifiedDiff .ascii ['a', '\n', 'a', '\n']
        "@@ -2,1 +2,1 @@\n-a\n+b\n".toList false = .ok ['a', '\n', 'b', '\n'] := by
  have hpatch : normalizeNewlines "@@ -2,1 +2,1 @@\n-a\n+b\n".toList =
      joinLines ([] ++ [changedLine 2 true].flatMap DiffHunk.render)
        true := by decide +kernel
  have hcorrect : Correct 0 0 (fullLines (normalizeNewlines ['a', '\n', 'a', '\n']))
      [changedLine 2 true]
      (fullLines (normalizeNewlines ['a', '\n', 'b', '\n'])) :=
    @Correct.hunk 0 0 [(['a'], true)] [] [] (changedLine 2 true) [] rfl rfl rfl rfl (.done 2 2 [])
  have hstyle : detectNewlineStyle ['a', '\n', 'a', '\n'] = some .lf := by decide
  have hread : ∀ hunk ∈ [changedLine 2 true], hunk.Readable .ascii := by
    have hshort : ∀ n ∈ [2, 1, 2, 1], (Nat.toDigits 10 n).length ≤ 4300 := by decide
    intro hunk hhunk n hn hlong
    obtain ⟨limit, hlimit, hlt⟩ := hlong
    cases hlimit
    rw [List.mem_singleton.1 hhunk] at hn
    exact absurd hlt (Nat.not_lt.2 (hshort n hn))
  have happly := unifiedDiff_exact .ascii hstyle (by simp) hcorrect (by simp) hread (by decide)
    (by simp) hpatch
  have htarget : restoreNewlines (normalizeNewlines ['a', '\n', 'b', '\n']) .lf =
      ['a', '\n', 'b', '\n'] := by decide
  rwa [htarget] at happly

/-- Two hunks that touch at the end of an unterminated file are a correct diff,
and are refused: the marker is not in the last of them. -/
theorem unifiedDiff_touching :
    Correct 0 0 (fullLines ['a']) [changedLine 1 false, addedLine] (fullLines ['b', '\n', 'c', '\n']) ∧
      joinLines ([changedLine 1 false, addedLine].flatMap DiffHunk.render) true =
        ("@@ -1,1 +1,1 @@\n-a\n\\ No newline at end of file\n+b\n" ++
          "@@ -1,0 +2,1 @@\n+c\n").toList ∧
      applyUnifiedDiff .ascii ['a']
          ("@@ -1,1 +1,1 @@\n-a\n\\ No newline at end of file\n+b\n" ++
            "@@ -1,0 +2,1 @@\n+c\n").toList false =
        .error (.error "hunk #1 has 'No newline at end of file' metadata away from EOF.") := by
  refine ⟨?_, by decide +kernel, by decide +kernel⟩
  have hsecond : Correct 1 1 [] [addedLine] [(['c'], true)] :=
    @Correct.hunk 1 1 [] [] [] addedLine [] rfl rfl rfl rfl (.done 1 2 [])
  exact @Correct.hunk 0 0 [] [] [(['c'], true)] (changedLine 1 false) [addedLine] rfl rfl rfl rfl hsecond

end OpenCollab.Patch
