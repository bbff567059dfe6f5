import Mathlib.Data.List.Basic
import Mathlib.Data.List.Nodup

/-!
# OpenCollab.Lib.Windows

Windows of a list: where a block occurs in it, which occurrence is nearest to a
wanted place, and what comes of replacing windows by other blocks.

* `mem_occurrences`, `occurrences_eq_singleton` — the search for a block;
* `nearest_mem`, `nearest_self` — the choice among its occurrences;
* `Spliced` — one list is another with an increasing sequence of disjoint
  windows replaced, every element outside of them kept.
-/

namespace OpenCollab.Lib

variable {α β ι : Type*}

/-! ## occurrences -/

/-- `block` is the window of `xs` at `start`. -/
def Occurs (block xs : List α) (start : Nat) : Prop :=
  start + block.length ≤ xs.length ∧ (xs.drop start).take block.length = block

/-- The starts from `lo` on at which `block` occurs, increasing. -/
def occurrences [DecidableEq α] (block xs : List α) (lo : Nat) : List Nat :=
  (List.range' lo (xs.length + 1 - block.length - lo)).filter fun start =>
    (xs.drop start).take block.length = block

theorem mem_occurrences [DecidableEq α] {block xs : List α} {lo start : Nat} :
    start ∈ occurrences block xs lo ↔ lo ≤ start ∧ Occurs block xs start := by
  simp only [occurrences, List.mem_filter, List.mem_range'_1, decide_eq_true_eq, Occurs]
  constructor
  · rintro ⟨⟨hlo, hhi⟩, hwindow⟩
    exact ⟨hlo, by omega, hwindow⟩
  · rintro ⟨hlo, hhi, hwindow⟩
    exact ⟨⟨hlo, by omega⟩, hwindow⟩

/-- The search finds one occurrence when there is exactly one. -/
theorem occurrences_eq_singleton [DecidableEq α] {block xs : List α} {lo start : Nat} :
    occurrences block xs lo = [start] ↔
      lo ≤ start ∧ Occurs block xs start ∧
        ∀ other, lo ≤ other → Occurs block xs other → other = start := by
  have hnodup : (occurrences block xs lo).Nodup :=
    List.Nodup.filter _ List.nodup_range'
  constructor
  · intro h
    have hmem : ∀ other, other ∈ occurrences block xs lo ↔ other = start := by simp [h]
    simp only [mem_occurrences] at hmem
    refine ⟨((hmem start).2 rfl).1, ((hmem start).2 rfl).2, ?_⟩
    exact fun other hlo hoccurs => (hmem other).1 ⟨hlo, hoccurs⟩
  · rintro ⟨hlo, hoccurs, honly⟩
    have hall : ∀ other ∈ occurrences block xs lo, other = start := by
      intro other hother
      rw [mem_occurrences] at hother
      exact honly other hother.1 hother.2
    have hmem : start ∈ occurrences block xs lo := mem_occurrences.2 ⟨hlo, hoccurs⟩
    rw [List.eq_replicate_of_mem hall] at hnodup hmem ⊢
    have hle := List.nodup_replicate.1 hnodup
    have hne := (List.mem_replicate.1 hmem).1
    rw [show (occurrences block xs lo).length = 1 by omega]
    rfl

/-- The empty block occurs everywhere, the end included. -/
theorem occurs_nil {xs : List α} {start : Nat} : Occurs [] xs start ↔ start ≤ xs.length := by
  simp [Occurs]

/-- A list around one of its windows. -/
theorem Occurs.eq_append {block xs : List α} {lo start : Nat} (h : Occurs block xs start)
    (hlo : lo ≤ start) :
    xs.drop lo = (xs.drop lo).take (start - lo) ++ block ++ xs.drop (start + block.length) := by
  have hdrop : (xs.drop lo).drop (start - lo) = xs.drop start := by
    rw [List.drop_drop, Nat.add_sub_cancel' hlo]
  calc
    xs.drop lo = (xs.drop lo).take (start - lo) ++ (xs.drop lo).drop (start - lo) :=
      (List.take_append_drop ..).symm
    _ = (xs.drop lo).take (start - lo) ++ (block ++ xs.drop (start + block.length)) := by
      rw [hdrop, ← List.take_append_drop block.length (xs.drop start), h.2, List.drop_drop]
    _ = _ := (List.append_assoc ..).symm

/-- A window of what is left of a list is a window of the list. -/
theorem Occurs.of_drop {block xs : List α} {lo start : Nat} (h : Occurs block (xs.drop lo) start)
    (hne : block ≠ []) : Occurs block xs (lo + start) := by
  have hpos := List.length_pos_iff.2 hne
  obtain ⟨hlen, hwindow⟩ := h
  rw [List.length_drop] at hlen
  rw [List.drop_drop] at hwindow
  exact ⟨by omega, hwindow⟩

/-- What stands between two parts of a list occurs there. -/
theorem occurs_append (before block after : List α) :
    Occurs block (before ++ block ++ after) before.length := by
  simp [Occurs]

/-- A window, element by element. -/
theorem occurs_iff_getElem? {block xs : List α} {start : Nat} :
    Occurs block xs start ↔ start + block.length ≤ xs.length ∧
      ∀ k < block.length, xs[start + k]? = block[k]? := by
  refine and_congr_right fun hlen => ?_
  constructor
  · intro h k hk
    rw [← h, List.getElem?_take_of_lt hk, List.getElem?_drop]
  · intro h
    refine List.ext_getElem? fun k => ?_
    by_cases hk : k < block.length
    · rw [List.getElem?_take_of_lt hk, List.getElem?_drop, h k hk]
    · rw [List.getElem?_eq_none (by rw [List.length_take]; omega),
        List.getElem?_eq_none (by omega)]

/-! ## the nearest occurrence -/

/-- One more candidate: it takes the place of the best so far when it is nearer
to the target. -/
def nearer (target : Nat) (best : Option Nat) (start : Nat) : Option Nat :=
  match best with
  | none => some start
  | some b =>
      if ((start : Int) - target).natAbs < ((b : Int) - target).natAbs then some start else some b

/-- The first of the candidates nearest to the target. -/
def nearest (target : Nat) (candidates : List Nat) : Option Nat :=
  candidates.foldl (nearer target) none

private theorem foldl_nearer_mem {target : Nat} {best : Option Nat} {candidates : List Nat}
    {start : Nat} (h : candidates.foldl (nearer target) best = some start) :
    best = some start ∨ start ∈ candidates := by
  induction candidates generalizing best with
  | nil => exact Or.inl h
  | cons candidate candidates ih =>
      rcases ih h with hbest | hmem
      · cases best with
        | none => simp [nearer] at hbest; simp [hbest]
        | some b =>
            simp only [nearer] at hbest
            split at hbest
            · simp at hbest; simp [hbest]
            · exact Or.inl hbest
      · exact Or.inr (List.mem_cons_of_mem _ hmem)

theorem nearest_mem {target start : Nat} {candidates : List Nat}
    (h : nearest target candidates = some start) : start ∈ candidates := by
  rcases foldl_nearer_mem h with hnone | hmem
  · contradiction
  · exact hmem

private theorem foldl_nearer_self (target : Nat) (candidates : List Nat) :
    candidates.foldl (nearer target) (some target) = some target := by
  induction candidates with
  | nil => rfl
  | cons candidate candidates ih => simpa [nearer] using ih

/-- **A candidate at the target is chosen.** -/
theorem nearest_self {target : Nat} {candidates : List Nat} (h : target ∈ candidates) :
    nearest target candidates = some target := by
  obtain ⟨front, back, rfl⟩ := List.append_of_mem h
  have htarget : nearer target (front.foldl (nearer target) none) target = some target := by
    cases hbest : front.foldl (nearer target) none with
    | none => rfl
    | some b =>
        simp only [nearer, Int.sub_self, Int.natAbs_zero]
        split
        · rfl
        · simp only [Option.some.injEq]; omega
  rw [nearest, List.foldl_append, List.foldl_cons, htarget, foldl_nearer_self]

/-! ## replacing windows -/

/-- The second list is the first with windows replaced, one for each hunk and in
their order: the window of `i` is `old i` and `new i` takes its place.  `fits
gap i rest` is asked of a window after `gap` kept elements and before `rest`. -/
inductive Spliced (old new : ι → List α) (fits : List α → ι → List α → Prop) :
    List α → List ι → List α → Prop
  | done (rest : List α) : Spliced old new fits rest [] rest
  | hunk {gap rest out : List α} {i : ι} {hunks : List ι} (hfits : fits gap i rest)
      (htail : Spliced old new fits rest hunks out) :
      Spliced old new fits (gap ++ old i ++ rest) (i :: hunks) (gap ++ new i ++ out)

variable {old new : ι → List α} {fits : List α → ι → List α → Prop}

/-- What holds of the elements of the first list and of the new blocks holds of
the elements of the second. -/
theorem Spliced.forall_mem {P : α → Prop} {src out : List α} {hunks : List ι}
    (h : Spliced old new fits src hunks out) (hsrc : ∀ x ∈ src, P x)
    (hnew : ∀ i ∈ hunks, ∀ x ∈ new i, P x) : ∀ x ∈ out, P x := by
  induction h with
  | done rest => exact hsrc
  | hunk _ _ ih =>
      intro x hx
      simp only [List.mem_append] at hx hsrc
      rcases hx with (hx | hx) | hx
      · exact hsrc x (Or.inl (Or.inl hx))
      · exact hnew _ (List.mem_cons_self ..) x hx
      · exact ih (fun y hy => hsrc y (Or.inr hy)) (fun i hi => hnew i (List.mem_cons_of_mem _ hi)) x hx

end OpenCollab.Lib
