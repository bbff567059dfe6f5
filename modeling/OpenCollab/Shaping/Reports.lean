import Mathlib.Data.List.Basic

/-!
# OpenCollab.Shaping.Reports

The four entry points of `ShaperPipeline` (`shaping/pipeline.py`) over
synchronous shapers: `shape` and `ashape`, which fold the messages through the
chain, and `shape_with_report` and `ashape_with_report`, which account for the
rungs that fired as well.  Each is its own loop in the source and here.

A shaper is any function of the messages that may keep a state of its own; what
it is given in one call it is given in the other three, so the four agree from
every state:

* `ashape_eq_shape`, `runRung_eq`, `arunRung_eq` — one rung, by recursion over
  nested pipelines;
* `fired` — the entries a rung earns, apart from any loop;
* `chained_fired` — the entries hang together;
* `shapeForms_agree` — all of it, for every pipeline.
-/

namespace OpenCollab.Reports

/-! ## rungs -/

/-- A chain entry: a shaper with the label it declares, or a pipeline.  `H` are
message lists and `S` what the shapers keep between calls. -/
inductive Rung (H S : Type) where
  | layer (rung : Option String) (shape : H → S → H × S)
  | pipeline (shapers : List (Rung H S))

/-- One report entry. -/
structure Report where
  rung : String
  tokensBefore : Nat
  tokensAfter : Nat
deriving Repr, DecidableEq

/-- `_NO_RUNG_FIRED`. -/
def noRungFired : String := "none"

/-- `_UNLABELED_RUNG`. -/
def unlabeledRung : String := "unknown"

/-- `_rung_label`. -/
def rungLabel : Option String → String
  | some label => if label = "" then unlabeledRung else label
  | none => unlabeledRung

/-- What the entry points read of message lists: the comparison `==` and
`approx_messages_tokens`. -/
structure Sizing (H : Type) where
  same : H → H → Bool
  tokens : H → Nat

variable {H S : Type}

/-! ## the entry points -/

mutual

/-- `shape` of a chain entry. -/
def shape : Rung H S → H → S → H × S
  | .layer _ run, messages, s => run messages s
  | .pipeline shapers, messages, s => shapeAll shapers messages s

/-- The loop of `shape`. -/
def shapeAll : List (Rung H S) → H → S → H × S
  | [], result, s => (result, s)
  | shaper :: rest, result, s =>
      let (result, s) := shape shaper result s
      shapeAll rest result s

end

mutual

/-- `ashape` of a chain entry: a synchronous shaper has none and is called. -/
def ashape : Rung H S → H → S → H × S
  | .layer _ run, messages, s => run messages s
  | .pipeline shapers, messages, s => ashapeAll shapers messages s

/-- The loop of `ashape`. -/
def ashapeAll : List (Rung H S) → H → S → H × S
  | [], result, s => (result, s)
  | shaper :: rest, result, s =>
      let (result, s) := ashape shaper result s
      ashapeAll rest result s

end

/-- The `none` entry of a pass without reports. -/
def filler (reports : List Report) (tokens : Nat) : List Report :=
  if reports = [] then [⟨noRungFired, tokens, tokens⟩] else reports

/-- The tokens after the last entry. -/
def lastTokens (entries : List Report) (tokens : Nat) : Nat :=
  match entries.getLast? with
  | none => tokens
  | some entry => entry.tokensAfter

/-- The entries of a nested pass without its filler. -/
def dropFiller (nested : List Report) : List Report :=
  nested.filter fun entry => entry.rung ≠ noRungFired

mutual

/-- `_run_rung`. -/
def runRung (z : Sizing H) : Rung H S → H → Nat → S → (H × List Report) × S
  | .layer rung run, messages, tokensBefore, s =>
      let (result, s) := run messages s
      if z.same result messages then ((result, []), s)
      else ((result, [⟨rungLabel rung, tokensBefore, z.tokens result⟩]), s)
  | .pipeline shapers, messages, _, s =>
      let ((result, reports, tokens), s) := reportLoop z shapers messages [] (z.tokens messages) s
      if z.same result messages then ((result, []), s)
      else ((result, dropFiller (filler reports tokens)), s)

/-- The loop of `shape_with_report`: the messages, the reports and the tokens. -/
def reportLoop (z : Sizing H) :
    List (Rung H S) → H → List Report → Nat → S → (H × List Report × Nat) × S
  | [], result, reports, tokens, s => ((result, reports, tokens), s)
  | shaper :: rest, result, reports, tokens, s =>
      let ((result, entries), s) := runRung z shaper result tokens s
      if entries = [] then reportLoop z rest result reports tokens s
      else reportLoop z rest result (reports ++ entries) (lastTokens entries tokens) s

end

/-- `shape_with_report` of a pipeline. -/
def shapeWithReport (z : Sizing H) (shapers : List (Rung H S)) (messages : H) (s : S) :
    (H × List Report) × S :=
  let ((result, reports, tokens), s) := reportLoop z shapers messages [] (z.tokens messages) s
  ((result, filler reports tokens), s)

mutual

/-- One turn of the loop of `ashape_with_report`: the result and the entries,
those of a nested pipeline whatever its net effect. -/
def arunRung (z : Sizing H) : Rung H S → H → Nat → S → (H × List Report) × S
  | .layer rung run, before, tokens, s =>
      let (result, s) := run before s
      ((result, if z.same result before then [] else [⟨rungLabel rung, tokens, z.tokens result⟩]), s)
  | .pipeline shapers, before, _, s =>
      let ((result, reports, tokens), s) := areportLoop z shapers before [] (z.tokens before) s
      ((result, dropFiller (filler reports tokens)), s)

/-- The loop of `ashape_with_report`. -/
def areportLoop (z : Sizing H) :
    List (Rung H S) → H → List Report → Nat → S → (H × List Report × Nat) × S
  | [], result, reports, tokens, s => ((result, reports, tokens), s)
  | shaper :: rest, before, reports, tokens, s =>
      let ((result, entries), s) := arunRung z shaper before tokens s
      if z.same result before = false ∧ entries ≠ [] then
        areportLoop z rest result (reports ++ entries) (lastTokens entries tokens) s
      else areportLoop z rest result reports tokens s

end

/-- `ashape_with_report` of a pipeline. -/
def ashapeWithReport (z : Sizing H) (shapers : List (Rung H S)) (messages : H) (s : S) :
    (H × List Report) × S :=
  let ((result, reports, tokens), s) := areportLoop z shapers messages [] (z.tokens messages) s
  ((result, filler reports tokens), s)

/-! ## what fired -/

mutual

/-- The entries a rung earns: a shaper one when it changes the messages, a
pipeline those of its shapers when it changes them on the whole. -/
def fired (z : Sizing H) : Rung H S → H → S → List Report
  | .layer rung run, messages, s =>
      if z.same (run messages s).1 messages then []
      else [⟨rungLabel rung, z.tokens messages, z.tokens (run messages s).1⟩]
  | .pipeline shapers, messages, s =>
      if z.same (shapeAll shapers messages s).1 messages then [] else firedAll z shapers messages s

/-- The entries of a chain. -/
def firedAll (z : Sizing H) : List (Rung H S) → H → S → List Report
  | [], _, _ => []
  | shaper :: rest, messages, s =>
      fired z shaper messages s ++
        firedAll z rest (shape shaper messages s).1 (shape shaper messages s).2

end

/-- The entries lead from `tokens` to `final`, each from where the last one ends. -/
def Chained (tokens : Nat) : List Report → Nat → Prop
  | [], final => tokens = final
  | entry :: entries, final => entry.tokensBefore = tokens ∧ Chained entry.tokensAfter entries final

mutual

/-- No shaper of the rung declares the reserved label. -/
def Labelled : Rung H S → Prop
  | .layer rung _ => rungLabel rung ≠ noRungFired
  | .pipeline shapers => LabelledAll shapers

/-- The same for a chain. -/
def LabelledAll : List (Rung H S) → Prop
  | [] => True
  | shaper :: rest => Labelled shaper ∧ LabelledAll rest

end

/-! ## the chain of entries -/

theorem Chained.append {a b c : Nat} {xs ys : List Report} (hx : Chained a xs b)
    (hy : Chained b ys c) : Chained a (xs ++ ys) c := by
  induction xs generalizing a with
  | nil =>
      rw [Chained] at hx
      rwa [hx]
  | cons entry xs ih => exact ⟨hx.1, ih hx.2⟩

/-- A chain ends where its last entry does. -/
theorem Chained.lastTokens {a b : Nat} {xs : List Report} (h : Chained a xs b) :
    lastTokens xs a = b := by
  induction xs generalizing a with
  | nil => exact h
  | cons entry xs ih =>
      have htail := ih h.2
      cases xs with
      | nil => exact htail
      | cons next xs => exact htail

variable {z : Sizing H}

mutual

/-- **The entries a rung earns lead from the tokens of its input to those of its
output.** -/
theorem chained_fired (hsame : ∀ a b, z.same a b = true → z.tokens a = z.tokens b) :
    ∀ (shaper : Rung H S) (messages : H) (s : S),
      Chained (z.tokens messages) (fired z shaper messages s) (z.tokens (shape shaper messages s).1)
  | .layer rung run, messages, s => by
      simp only [fired, shape]
      split
      · rename_i h
        exact (hsame _ _ h).symm
      · exact ⟨rfl, rfl⟩
  | .pipeline shapers, messages, s => by
      simp only [fired, shape]
      split
      · rename_i h
        exact (hsame _ _ h).symm
      · exact chained_firedAll hsame shapers messages s

/-- The same for a chain. -/
theorem chained_firedAll (hsame : ∀ a b, z.same a b = true → z.tokens a = z.tokens b) :
    ∀ (shapers : List (Rung H S)) (messages : H) (s : S),
      Chained (z.tokens messages) (firedAll z shapers messages s)
        (z.tokens (shapeAll shapers messages s).1)
  | [], _, _ => rfl
  | shaper :: rest, messages, s =>
      (chained_fired hsame shaper messages s).append (chained_firedAll hsame rest _ _)

end

mutual

/-- The entries of labelled shapers are no filler. -/
theorem rung_fired : ∀ (shaper : Rung H S), Labelled shaper → ∀ (messages : H) (s : S),
    ∀ entry ∈ fired z shaper messages s, entry.rung ≠ noRungFired
  | .layer rung run, hlabel, messages, s => by
      intro entry hentry
      simp only [fired] at hentry
      split at hentry
      · simp at hentry
      · rw [List.mem_singleton.1 hentry]
        exact hlabel
  | .pipeline shapers, hlabel, messages, s => by
      intro entry hentry
      simp only [fired] at hentry
      split at hentry
      · simp at hentry
      · exact rung_firedAll shapers hlabel messages s entry hentry

/-- The same for a chain. -/
theorem rung_firedAll : ∀ (shapers : List (Rung H S)), LabelledAll shapers →
    ∀ (messages : H) (s : S), ∀ entry ∈ firedAll z shapers messages s, entry.rung ≠ noRungFired
  | [], _, _, _ => by simp [firedAll]
  | shaper :: rest, hlabels, messages, s => by
      intro entry hentry
      rw [LabelledAll] at hlabels
      rw [firedAll, List.mem_append] at hentry
      rcases hentry with hentry | hentry
      · exact rung_fired shaper hlabels.1 messages s entry hentry
      · exact rung_firedAll rest hlabels.2 _ _ entry hentry

end

/-- A nested pass keeps its entries and loses its filler. -/
theorem dropFiller_filler {reports : List Report} (h : ∀ entry ∈ reports, entry.rung ≠ noRungFired)
    (tokens : Nat) : dropFiller (filler reports tokens) = reports := by
  by_cases hnil : reports = []
  · simp [filler, hnil, dropFiller]
  · rw [filler, if_neg hnil, dropFiller, List.filter_eq_self]
    simpa using h

/-! ## the loops -/

mutual

/-- `ashape` is `shape`. -/
theorem ashape_eq_shape : ∀ (shaper : Rung H S) (messages : H) (s : S),
    ashape shaper messages s = shape shaper messages s
  | .layer _ _, _, _ => rfl
  | .pipeline shapers, messages, s => by rw [ashape, shape, ashapeAll_eq_shapeAll]

theorem ashapeAll_eq_shapeAll : ∀ (shapers : List (Rung H S)) (messages : H) (s : S),
    ashapeAll shapers messages s = shapeAll shapers messages s
  | [], _, _ => rfl
  | shaper :: rest, messages, s => by
      simp only [ashapeAll, shapeAll, ashape_eq_shape shaper, ashapeAll_eq_shapeAll rest]

end

mutual

/-- **One rung of `shape_with_report`**: what `shape` returns and what fired. -/
theorem runRung_eq (hsame : ∀ a b, z.same a b = true → z.tokens a = z.tokens b) :
    ∀ (shaper : Rung H S), Labelled shaper → ∀ (messages : H) (s : S),
      runRung z shaper messages (z.tokens messages) s =
        (((shape shaper messages s).1, fired z shaper messages s), (shape shaper messages s).2)
  | .layer rung run, _, messages, s => by
      simp only [runRung, shape, fired]
      split <;> rfl
  | .pipeline shapers, hlabels, messages, s => by
      rw [Labelled] at hlabels
      simp only [runRung, reportLoop_eq hsame shapers hlabels messages [] s, List.nil_append,
        dropFiller_filler (rung_firedAll shapers hlabels messages s), shape, fired]
      split <;> rfl

/-- The loop of `shape_with_report`. -/
theorem reportLoop_eq (hsame : ∀ a b, z.same a b = true → z.tokens a = z.tokens b) :
    ∀ (shapers : List (Rung H S)), LabelledAll shapers → ∀ (messages : H) (reports : List Report)
      (s : S), reportLoop z shapers messages reports (z.tokens messages) s =
        (((shapeAll shapers messages s).1, reports ++ firedAll z shapers messages s,
          z.tokens (shapeAll shapers messages s).1), (shapeAll shapers messages s).2)
  | [], _, _, _, _ => by simp [reportLoop, shapeAll, firedAll]
  | shaper :: rest, hlabels, messages, reports, s => by
      rw [LabelledAll] at hlabels
      have hchain := chained_fired hsame shaper messages s
      simp only [reportLoop, runRung_eq hsame shaper hlabels.1 messages s, shapeAll, firedAll]
      split
      · rename_i hnone
        rw [hnone] at hchain
        rw [show z.tokens messages = _ from hchain, reportLoop_eq hsame rest hlabels.2, hnone,
          List.nil_append]
      · rw [hchain.lastTokens, reportLoop_eq hsame rest hlabels.2, List.append_assoc]

end

mutual

/-- **One rung of `ashape_with_report`**: the same, but that a nested pipeline
without a net effect keeps the entries its loop drops. -/
theorem arunRung_eq (hsame : ∀ a b, z.same a b = true → z.tokens a = z.tokens b) :
    ∀ (shaper : Rung H S), Labelled shaper → ∀ (messages : H) (s : S),
      ∃ entries, arunRung z shaper messages (z.tokens messages) s =
          (((shape shaper messages s).1, entries), (shape shaper messages s).2) ∧
        fired z shaper messages s =
          if z.same (shape shaper messages s).1 messages then [] else entries
  | .layer rung run, _, messages, s => by
      refine ⟨_, rfl, ?_⟩
      simp only [fired, shape]
      split <;> rfl
  | .pipeline shapers, hlabels, messages, s => by
      rw [Labelled] at hlabels
      refine ⟨firedAll z shapers messages s, ?_, rfl⟩
      simp only [arunRung, areportLoop_eq hsame shapers hlabels messages [] s, List.nil_append,
        dropFiller_filler (rung_firedAll shapers hlabels messages s), shape]

/-- The loop of `ashape_with_report`. -/
theorem areportLoop_eq (hsame : ∀ a b, z.same a b = true → z.tokens a = z.tokens b) :
    ∀ (shapers : List (Rung H S)), LabelledAll shapers → ∀ (messages : H) (reports : List Report)
      (s : S), areportLoop z shapers messages reports (z.tokens messages) s =
        (((shapeAll shapers messages s).1, reports ++ firedAll z shapers messages s,
          z.tokens (shapeAll shapers messages s).1), (shapeAll shapers messages s).2)
  | [], _, _, _, _ => by simp [areportLoop, shapeAll, firedAll]
  | shaper :: rest, hlabels, messages, reports, s => by
      rw [LabelledAll] at hlabels
      have hchain := chained_fired hsame shaper messages s
      obtain ⟨entries, hrun, hfired⟩ := arunRung_eq hsame shaper hlabels.1 messages s
      simp only [areportLoop, hrun, shapeAll, firedAll]
      by_cases hnet : z.same (shape shaper messages s).1 messages = true
      · rw [if_pos hnet] at hfired
        rw [hfired] at hchain
        rw [if_neg (by simp [hnet]), show z.tokens messages = _ from hchain,
          areportLoop_eq hsame rest hlabels.2, hfired, List.nil_append]
      · rw [if_neg hnet] at hfired
        by_cases hnone : entries = []
        · rw [hnone] at hfired
          rw [hfired] at hchain
          rw [if_neg (by simp [hnone]), show z.tokens messages = _ from hchain,
            areportLoop_eq hsame rest hlabels.2, hfired, List.nil_append]
        · rw [if_pos ⟨by simpa using hnet, hnone⟩, ← hfired, hchain.lastTokens,
            areportLoop_eq hsame rest hlabels.2, List.append_assoc]

end

/-! ## the four forms -/

/-- **The four entry points agree.**  They return the messages of `shape` (and
leave the shapers in the same state); the reports of both forms are the entries
that fired, in a chain from the tokens of the input to those of the output, or
the `none` entry when there is none. -/
theorem shapeForms_agree (z : Sizing H)
    (hsame : ∀ a b, z.same a b = true → z.tokens a = z.tokens b) (shapers : List (Rung H S))
    (hlabels : LabelledAll shapers) (messages : H) (s : S) :
    ashapeAll shapers messages s = shapeAll shapers messages s ∧
    shapeWithReport z shapers messages s = ashapeWithReport z shapers messages s ∧
    (shapeWithReport z shapers messages s).1.1 = (shapeAll shapers messages s).1 ∧
    (shapeWithReport z shapers messages s).2 = (shapeAll shapers messages s).2 ∧
    (shapeWithReport z shapers messages s).1.2 =
      (if firedAll z shapers messages s = [] then
        [⟨noRungFired, z.tokens messages, z.tokens messages⟩]
      else firedAll z shapers messages s) ∧
    (∀ entry ∈ firedAll z shapers messages s, entry.rung ≠ noRungFired) ∧
    Chained (z.tokens messages) (shapeWithReport z shapers messages s).1.2
      (z.tokens (shapeAll shapers messages s).1) := by
  have hchain := chained_firedAll hsame shapers messages s
  have hsync := reportLoop_eq hsame shapers hlabels messages [] s
  have hasync := areportLoop_eq hsame shapers hlabels messages [] s
  simp only [List.nil_append] at hsync hasync
  refine ⟨ashapeAll_eq_shapeAll shapers messages s, ?_, ?_, ?_, ?_,
    rung_firedAll shapers hlabels messages s, ?_⟩
  · simp only [shapeWithReport, ashapeWithReport, hsync, hasync]
  · simp only [shapeWithReport, hsync]
  · simp only [shapeWithReport, hsync]
  · simp only [shapeWithReport, hsync, filler]
    split
    · rename_i hnone
      rw [hnone] at hchain
      rw [show z.tokens messages = _ from hchain]
    · rfl
  · simp only [shapeWithReport, hsync, filler]
    split
    · rename_i hnone
      rw [hnone] at hchain
      exact ⟨hchain.symm, rfl⟩
    · exact hchain

/-- Numbers for message lists, each its own size. -/
def plainSizing : Sizing Nat where
  same := fun a b => a == b
  tokens := id

/-- A nested chain that shrinks the messages and one that gives them back. -/
theorem shapeForms_agree_nested :
    shapeWithReport plainSizing
        [.pipeline [.layer (some "snip") fun n s => (n - 3, s + 1)],
          .pipeline [.layer none fun n s => (n + 1, s), .layer (some "undo") fun n s => (n - 1, s)]]
        10 (0 : Nat) =
      (((7, [⟨"snip", 10, 7⟩]), 1) : (Nat × List Report) × Nat) := by
  have hagree := shapeForms_agree plainSizing (fun a b h => by simpa [plainSizing] using h)
    [.pipeline [.layer (some "snip") fun n s => (n - 3, s + 1)],
      .pipeline [.layer none fun n s => (n + 1, s), .layer (some "undo") fun n s => (n - 1, s)]]
    (by simp [LabelledAll, Labelled, rungLabel, noRungFired, unlabeledRung]) 10 (0 : Nat)
  obtain ⟨-, -, hresult, hstate, hreports, -⟩ := hagree
  have hparts : ∀ x : (Nat × List Report) × Nat, x = ((x.1.1, x.1.2), x.2) := fun _ => rfl
  rw [hparts (shapeWithReport ..), hresult, hstate, hreports]
  decide

/-- A shaper may declare the reserved label.  Nested, its entry is dropped with
the filler: the messages shrink from 10 to 7, and the only entry says that
nothing fired. -/
theorem reserved_label_drops_entry :
    shapeWithReport plainSizing [.pipeline [.layer (some "none") fun n s => (n - 3, s)]] 10 () =
      ((7, [⟨noRungFired, 10, 10⟩]), ()) := by
  decide

end OpenCollab.Reports
