import Mathlib.Algebra.Ring.Int.Defs
import Mathlib.Algebra.Ring.Nat
import Mathlib.Data.List.Basic
import Mathlib.Data.Nat.Count
import Mathlib.Logic.Function.Basic

/-!
# OpenCollab.Lib.Tally

Sums and counts over a list, or over the first elements of a sequence, of which one
element is replaced: an invariant that speaks of a total is kept when the change of the
one summand is.

* `sum_map_set` — a sum over the elements;
* `countP_set` — the number of elements with a property;
* `eq_of_sum_map_eq` — two sums that agree, where no summand of the one is larger;
* `tally_update` — the number of elements of a sequence with a property.
-/

namespace OpenCollab.Lib

variable {α : Type}

/-- Changing one summand changes the sum by as much. -/
theorem sum_map_set (f : α → Nat) {xs : List α} {i : Nat} {x : α} (y : α)
    (h : xs[i]? = some x) : ((xs.set i y).map f).sum + f x = (xs.map f).sum + f y := by
  induction xs generalizing i with
  | nil => simp at h
  | cons z xs ih =>
      cases i with
      | zero =>
          simp only [List.getElem?_cons_zero, Option.some.injEq] at h
          subst h
          simp only [List.set_cons_zero, List.map_cons, List.sum_cons]
          omega
      | succ i =>
          simp only [List.getElem?_cons_succ] at h
          have := ih h
          simp only [List.set_cons_succ, List.map_cons, List.sum_cons]
          omega

/-- Changing one element changes the count by what it counted for. -/
theorem countP_set (p : α → Bool) {xs : List α} {i : Nat} {x : α} (y : α) (h : xs[i]? = some x) :
    (xs.set i y).countP p + (p x).toNat = xs.countP p + (p y).toNat := by
  induction xs generalizing i with
  | nil => simp at h
  | cons z xs ih =>
      cases i with
      | zero =>
          simp only [List.getElem?_cons_zero, Option.some.injEq] at h
          subst h
          simp only [List.set_cons_zero, List.countP_cons]
          cases p z <;> cases p y <;> simp
      | succ i =>
          simp only [List.getElem?_cons_succ] at h
          have := ih h
          simp only [List.set_cons_succ, List.countP_cons]
          omega

/-- An element with the property is counted. -/
theorem countP_pos_of_getElem? {p : α → Bool} {xs : List α} {i : Nat} {x : α} (h : xs[i]? = some x)
    (hx : p x = true) : 0 < xs.countP p :=
  List.countP_pos_iff.mpr ⟨x, List.mem_of_getElem? h, hx⟩

/-- Sums that agree, one below the other in every summand, agree in every summand. -/
theorem eq_of_sum_map_eq {f g : α → Int} {xs : List α} (hle : ∀ x ∈ xs, f x ≤ g x)
    (hsum : (xs.map f).sum = (xs.map g).sum) : ∀ x ∈ xs, f x = g x := by
  have hsums : ∀ ys : List α, (∀ y ∈ ys, f y ≤ g y) → (ys.map f).sum ≤ (ys.map g).sum := by
    intro ys
    induction ys with
    | nil => simp
    | cons y ys ih =>
        intro h
        have hy := h y List.mem_cons_self
        have hys := ih fun z hz => h z (List.mem_cons_of_mem y hz)
        simp only [List.map_cons, List.sum_cons]
        omega
  induction xs with
  | nil => simp
  | cons x xs ih =>
      have hx := hle x List.mem_cons_self
      have hrest : ∀ y ∈ xs, f y ≤ g y := fun y hy => hle y (List.mem_cons_of_mem x hy)
      have hxs := hsums xs hrest
      simp only [List.map_cons, List.sum_cons] at hsum
      intro y hy
      cases List.mem_cons.mp hy with
      | inl h =>
          subst h
          omega
      | inr h => exact ih hrest (by omega) y h

/-! ## the first elements of a sequence -/

/-- How many of the first `n` elements have a property. -/
def tally (p : α → Bool) (f : Nat → α) (n : Nat) : Nat := Nat.count (fun i => p (f i) = true) n

theorem tally_succ (p : α → Bool) (f : Nat → α) (n : Nat) :
    tally p f (n + 1) = tally p f n + (p (f n)).toNat := by
  rw [tally, tally, Nat.count_succ]
  cases p (f n) <;> rfl

/-- An element behind those that are counted. -/
theorem tally_update_of_le (p : α → Bool) (f : Nat → α) {i n : Nat} (x : α) (h : n ≤ i) :
    tally p (Function.update f i x) n = tally p f n := by
  induction n with
  | zero => rfl
  | succ n ih =>
      rw [tally_succ, tally_succ, ih (by omega), Function.update_of_ne (by omega)]

/-- One of the elements that are counted. -/
theorem tally_update (p : α → Bool) (f : Nat → α) {i n : Nat} (x : α) (h : i < n) :
    tally p (Function.update f i x) n + (p (f i)).toNat = tally p f n + (p x).toNat := by
  induction n with
  | zero => omega
  | succ n ih =>
      rw [tally_succ, tally_succ]
      by_cases hi : i = n
      · subst hi
        rw [tally_update_of_le p f x (Nat.le_refl i), Function.update_self]
        omega
      · rw [Function.update_of_ne fun heq => hi heq.symm]
        have := ih (by omega)
        omega

/-- An element that joins those that are counted. -/
theorem tally_update_succ (p : α → Bool) (f : Nat → α) (n : Nat) (x : α) :
    tally p (Function.update f n x) (n + 1) = tally p f n + (p x).toNat := by
  rw [tally_succ, tally_update_of_le p f x (Nat.le_refl n), Function.update_self]

theorem tally_pos_iff {p : α → Bool} {f : Nat → α} {n : Nat} :
    0 < tally p f n ↔ ∃ i < n, p (f i) = true := by
  induction n with
  | zero => simp [tally]
  | succ n ih =>
      rw [tally_succ]
      constructor
      · intro h
        cases hn : p (f n) with
        | true => exact ⟨n, by omega, hn⟩
        | false =>
            rw [hn] at h
            obtain ⟨i, hi, hp⟩ := ih.mp h
            exact ⟨i, by omega, hp⟩
      · intro ⟨i, hi, hp⟩
        by_cases heq : i = n
        · subst heq
          rw [hp]
          exact Nat.lt_add_left _ Nat.zero_lt_one
        · have := ih.mpr ⟨i, by omega, hp⟩
          omega

end OpenCollab.Lib
