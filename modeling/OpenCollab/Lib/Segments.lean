import Mathlib.Data.List.Basic
import Mathlib.Data.List.TakeDrop
import Mathlib.Data.List.Forall2

/-!
# OpenCollab.Lib.Segments

A list cut into consecutive segments, and the index arithmetic that goes with
it.  `spansOf o segs` lists the half-open index ranges the segments occupy in
their concatenation (starting at `o`), and the lemmas below turn the three
things a program does with such ranges back into statements about segments:

* `slice_flatten` — the slice between two boundaries is a run of segments;
* `getElem?_spansOf` — each segment has its own range;
* `scanWhile` — the cursor loop `while lo < hi and p(lo): lo += 1`.
-/

namespace OpenCollab.Segments

variable {α β : Type}

/-! ## ranges -/

/-- The index ranges of consecutive segments, the first starting at `o`. -/
def spansOf (o : Nat) : List (List α) → List (Nat × Nat)
  | [] => []
  | g :: gs => (o, o + g.length) :: spansOf (o + g.length) gs

/-- Where segment `i` starts. -/
def startOf (o : Nat) (gs : List (List α)) (i : Nat) : Nat := o + (gs.take i).flatten.length

@[simp] theorem length_spansOf (o : Nat) (gs : List (List α)) :
    (spansOf o gs).length = gs.length := by
  induction gs generalizing o with
  | nil => rfl
  | cons g gs ih => simp [spansOf, ih]

@[simp] theorem startOf_zero (o : Nat) (gs : List (List α)) : startOf o gs 0 = o := by
  simp [startOf]

theorem startOf_cons_succ (o : Nat) (g : List α) (gs : List (List α)) (i : Nat) :
    startOf o (g :: gs) (i + 1) = startOf (o + g.length) gs i := by
  simp [startOf, Nat.add_assoc]

/-- Range `i` runs from the start of segment `i` to the start of the next. -/
theorem getElem?_spansOf (o : Nat) (gs : List (List α)) (h : i < gs.length) :
    (spansOf o gs)[i]? = some (startOf o gs i, startOf o gs (i + 1)) := by
  induction gs generalizing o i with
  | nil => simp at h
  | cons g gs ih =>
      cases i with
      | zero => simp [spansOf, startOf]
      | succ i =>
          simp only [List.length_cons, Nat.add_lt_add_iff_right] at h
          simp [spansOf, ih _ h, startOf_cons_succ]

theorem startOf_append_left (o : Nat) (gs gs' : List (List α)) (h : i ≤ gs.length) :
    startOf o (gs ++ gs') i = startOf o gs i := by
  rw [startOf, startOf, List.take_append_of_le_length h]

theorem startOf_append_right (o : Nat) (gs gs' : List (List α)) (i : Nat) :
    startOf o (gs ++ gs') (gs.length + i) = startOf (o + gs.flatten.length) gs' i := by
  rw [startOf, startOf, List.take_length_add_append, List.flatten_append, List.length_append,
    Nat.add_assoc]

/-- Boundaries inside a run of segments, counted from the run's start. -/
theorem startOf_add (gs : List (List α)) (h : lo + i ≤ hi) :
    startOf 0 gs lo + startOf 0 ((gs.take hi).drop lo) i = startOf 0 gs (lo + i) := by
  have hrun : ((gs.take hi).drop lo).take i = (gs.drop lo).take i := by
    rw [List.drop_take, List.take_take, Nat.min_eq_left (by omega)]
  simp only [startOf, hrun, List.take_add, List.flatten_append, List.length_append]
  omega

theorem startOf_mono (o : Nat) (gs : List (List α)) (h : i ≤ j) :
    startOf o gs i ≤ startOf o gs j := by
  obtain ⟨mid, hmid⟩ : gs.take i <+: gs.take j := List.take_prefix_take_left h
  simp only [startOf, ← hmid, List.flatten_append, List.length_append]
  omega

/-! ## slices -/

/-- `xs[start:end]`. -/
def slice (xs : List α) (start stop : Nat) : List α := (xs.take stop).drop start

theorem take_startOf_flatten (gs : List (List α)) (i : Nat) :
    gs.flatten.take (startOf 0 gs i) = (gs.take i).flatten := by
  have h : gs.flatten = (gs.take i).flatten ++ (gs.drop i).flatten := by
    rw [← List.flatten_append, List.take_append_drop]
  simp [startOf, h]

theorem drop_startOf_flatten (gs : List (List α)) (i : Nat) :
    gs.flatten.drop (startOf 0 gs i) = (gs.drop i).flatten := by
  have h : gs.flatten = (gs.take i).flatten ++ (gs.drop i).flatten := by
    rw [← List.flatten_append, List.take_append_drop]
  simp [startOf, h]

/-- The slice between two segment boundaries is the run of segments between
them. -/
theorem slice_flatten (gs : List (List α)) (h : i ≤ j) :
    slice gs.flatten (startOf 0 gs i) (startOf 0 gs j) = ((gs.take j).drop i).flatten := by
  have hi : startOf 0 gs i = startOf 0 (gs.take j) i := by
    simp [startOf, List.take_take, Nat.min_eq_left h]
  rw [slice, take_startOf_flatten, hi, drop_startOf_flatten]

/-! ## passes by index -/

/-! ## pointwise relations -/

/- `List.Forall₂ R` relates two lists of one length element by element; `R`
survives composition and the choice of a sublist on either side. -/

variable {γ : Type} {as : List α} {bs bs' : List β} {cs : List γ}

theorem forall₂_trans {R : α → β → Prop} {S : β → γ → Prop} {T : α → γ → Prop}
    (hT : ∀ a b c, R a b → S b c → T a c) (h : List.Forall₂ R as bs)
    (h' : List.Forall₂ S bs cs) : List.Forall₂ T as cs := by
  induction h generalizing cs with
  | nil => cases h'; exact .nil
  | cons hab _ ih =>
      cases h' with
      | cons hbc hrest => exact .cons (hT _ _ _ hab hbc) (ih hrest)

/-- A sublist on the right is matched by a sublist on the left. -/
theorem exists_sublist_forall₂ {R : α → β → Prop} (h : List.Forall₂ R as bs)
    (hs : bs'.Sublist bs) : ∃ as', as'.Sublist as ∧ List.Forall₂ R as' bs' := by
  induction h generalizing bs' with
  | nil => exact ⟨[], List.Sublist.slnil, by rw [List.eq_nil_of_sublist_nil hs]; exact .nil⟩
  | cons hab _ ih =>
      cases hs with
      | cons _ hs =>
          obtain ⟨as', hsub, hall⟩ := ih hs
          exact ⟨as', hsub.cons _, hall⟩
      | cons_cons _ hs =>
          obtain ⟨as', hsub, hall⟩ := ih hs
          exact ⟨_ :: as', hsub.cons_cons _, .cons hab hall⟩

/-- Related elements on the right are elements of the right list. -/
theorem forall₂_and_mem_right {R : α → β → Prop} (h : List.Forall₂ R as bs) :
    List.Forall₂ (fun a b => R a b ∧ b ∈ bs) as bs := by
  induction h with
  | nil => exact .nil
  | cons hab _ ih =>
      refine .cons ⟨hab, List.mem_cons_self⟩ (ih.imp fun _ _ h => ?_)
      exact ⟨h.1, List.mem_cons_of_mem _ h.2⟩

/-- One element on the right may be replaced by another related one. -/
theorem forall₂_set {R : α → β → Prop} (h : List.Forall₂ R as bs) (i : Nat) (b : β)
    (hb : ∀ a, as[i]? = some a → R a b) : List.Forall₂ R as (bs.set i b) := by
  induction h generalizing i with
  | nil => exact .nil
  | cons hab hrest ih =>
      cases i with
      | zero => exact .cons (hb _ rfl) hrest
      | succ i => exact .cons hab (ih i fun a ha => hb a ha)

/-- Related elements stand at equal places. -/
theorem forall₂_getElem? {R : α → β → Prop} {i : Nat} {a : α} (h : List.Forall₂ R as bs) (ha : as[i]? = some a) :
    ∃ b, bs[i]? = some b ∧ R a b := by
  induction h generalizing i with
  | nil => simp at ha
  | cons hab _ ih =>
      cases i with
      | zero => exact ⟨_, rfl, by simp at ha; exact ha ▸ hab⟩
      | succ i => exact ih ha

/-- Related lists agree on whatever the relation preserves. -/
theorem map_eq_of_forall₂ {R : α → β → Prop} {f : α → γ} {g : β → γ}
    (hfg : ∀ a b, R a b → g b = f a) (h : List.Forall₂ R as bs) : bs.map g = as.map f := by
  induction h with
  | nil => rfl
  | cons hab _ ih => rw [List.map_cons, List.map_cons, hfg _ _ hab, ih]

/-- A test that the relation respects holds of all elements on both sides. -/
theorem forall_mem_of_forall₂ {R : α → β → Prop} {P : α → Prop} {Q : β → Prop}
    (hPQ : ∀ a b, R a b → P a → Q b) (h : List.Forall₂ R as bs) (hP : ∀ a ∈ as, P a) :
    ∀ b ∈ bs, Q b := by
  induction h with
  | nil => simp
  | cons hab _ ih =>
      intro b hb
      cases List.mem_cons.mp hb with
      | inl hb => exact hb ▸ hPQ _ _ hab (hP _ List.mem_cons_self)
      | inr hb => exact ih (fun a ha => hP a (List.mem_cons_of_mem _ ha)) b hb

/-! ## the cursor loop -/

/-- `while lo < lo + fuel and p(lo): lo += 1`: where the cursor stops. -/
def scanWhile (p : Nat → Bool) (lo : Nat) : Nat → Nat
  | 0 => lo
  | fuel + 1 => if p lo then scanWhile p (lo + 1) fuel else lo

theorem le_scanWhile (p : Nat → Bool) (lo fuel : Nat) : lo ≤ scanWhile p lo fuel := by
  induction fuel generalizing lo with
  | zero => simp [scanWhile]
  | succ fuel ih =>
      have h := ih (lo + 1)
      simp only [scanWhile]
      split <;> omega

theorem scanWhile_le (p : Nat → Bool) (lo fuel : Nat) : scanWhile p lo fuel ≤ lo + fuel := by
  induction fuel generalizing lo with
  | zero => simp [scanWhile]
  | succ fuel ih =>
      have h := ih (lo + 1)
      simp only [scanWhile]
      split <;> omega

/-- Everything the cursor passed satisfies the test. -/
theorem scanWhile_passed (p : Nat → Bool) (lo fuel : Nat) (h : lo ≤ i)
    (h' : i < scanWhile p lo fuel) : p i = true := by
  induction fuel generalizing lo with
  | zero => simp only [scanWhile] at h'; omega
  | succ fuel ih =>
      simp only [scanWhile] at h'
      split at h'
      · next hp =>
          by_cases hi : i = lo
          · rw [hi]; exact hp
          · exact ih (lo + 1) (by omega) h'
      · omega

end OpenCollab.Segments
