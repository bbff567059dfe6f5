import Mathlib.Data.List.Induction

/-!
# OpenCollab.Lib.FirstOccurrences

A list without its repeats, in the order of the first occurrences.

* `eraseDups_concat` — one element more;
* `length_eraseDups_filterMap_le` — a partial function that agrees where another one
  does has no more values than it;
* `filterMap_of_eraseDups_eq` — and if it has the same values in the same order, it is
  that function.
-/

namespace OpenCollab.Lib

variable {α β : Type*} [BEq β] [LawfulBEq β]

/-- One element more is appended unless it is there. -/
theorem eraseDups_concat (xs : List β) (x : β) :
    (xs ++ [x]).eraseDups = xs.eraseDups ++ if x ∈ xs then [] else [x] := by
  rw [List.eraseDups_append]
  congr 1
  by_cases hmem : x ∈ xs
  · simp [List.removeAll, hmem]
  · simp [List.removeAll, hmem, List.eraseDups_cons]

section Agree

variable {f : α → Option β} {g : α → β} {xs : List α}

/-- An element with an old value adds none. -/
theorem eraseDups_filterMap_concat {x y : α} (hy : y ∈ xs) (hf : f x = f y) :
    ((xs ++ [x]).filterMap f).eraseDups = (xs.filterMap f).eraseDups := by
  rw [List.filterMap_append]
  cases hx : f x with
  | none => simp only [List.filterMap_cons, List.filterMap_nil, hx, List.append_nil]
  | some z =>
      have hz : z ∈ xs.filterMap f := List.mem_filterMap.mpr ⟨y, hy, hf ▸ hx⟩
      simp only [List.filterMap_cons, List.filterMap_nil, hx, eraseDups_concat, if_pos hz,
        List.append_nil]

/-- **A partial function that agrees where another one does** has no more values. -/
theorem length_eraseDups_filterMap_le (h : ∀ x ∈ xs, ∀ y ∈ xs, g x = g y → f x = f y) :
    (xs.filterMap f).eraseDups.length ≤ (xs.map g).eraseDups.length := by
  induction xs using List.reverseRecOn with
  | nil => exact Nat.le_refl _
  | append_singleton xs x ih =>
      have hfront := ih fun a ha b hb =>
        h a (List.mem_append_left _ ha) b (List.mem_append_left _ hb)
      rw [List.map_append, List.map_singleton, eraseDups_concat, List.length_append]
      by_cases hold : g x ∈ xs.map g
      · obtain ⟨y, hy, hxy⟩ := List.mem_map.mp hold
        have hf := h x (by simp) y (List.mem_append_left _ hy) hxy.symm
        rw [eraseDups_filterMap_concat hy hf, if_pos hold]
        exact hfront
      · rw [if_neg hold, List.length_singleton, List.filterMap_append]
        cases hx : f x with
        | none =>
            simp only [List.filterMap_cons, List.filterMap_nil, hx, List.append_nil]
            omega
        | some z =>
            simp only [List.filterMap_cons, List.filterMap_nil, hx, eraseDups_concat,
              List.length_append]
            split <;> simp only [List.length_nil, List.length_singleton] <;> omega

/-- **If it has the same values in the same order**, it is the other function. -/
theorem filterMap_of_eraseDups_eq (h : ∀ x ∈ xs, ∀ y ∈ xs, g x = g y → f x = f y)
    (heq : (xs.filterMap f).eraseDups = (xs.map g).eraseDups) : ∀ x ∈ xs, f x = some (g x) := by
  induction xs using List.reverseRecOn with
  | nil => exact fun x hx => absurd hx List.not_mem_nil
  | append_singleton xs x ih =>
      have hfront : ∀ a ∈ xs, ∀ b ∈ xs, g a = g b → f a = f b := fun a ha b hb =>
        h a (List.mem_append_left _ ha) b (List.mem_append_left _ hb)
      have hlen := length_eraseDups_filterMap_le hfront
      rw [List.map_append, List.map_singleton, eraseDups_concat] at heq
      by_cases hold : g x ∈ xs.map g
      · obtain ⟨y, hy, hxy⟩ := List.mem_map.mp hold
        have hf := h x (by simp) y (List.mem_append_left _ hy) hxy.symm
        rw [eraseDups_filterMap_concat hy hf, if_pos hold, List.append_nil] at heq
        have hall := ih hfront heq
        intro a ha
        obtain ha | ha := List.mem_append.mp ha
        · exact hall a ha
        · rw [List.mem_singleton.mp ha, hf, hall y hy, hxy]
      · rw [if_neg hold, List.filterMap_append] at heq
        -- the last value is new, so the list of values must have grown with it
        have hgrown : ∃ z, f x = some z ∧ (xs.filterMap f).eraseDups ++ [z] =
            (xs.map g).eraseDups ++ [g x] := by
          cases hx : f x with
          | none =>
              simp only [List.filterMap_cons, List.filterMap_nil, hx, List.append_nil] at heq
              have := congrArg List.length heq
              rw [List.length_append, List.length_singleton] at this
              omega
          | some z =>
              simp only [List.filterMap_cons, List.filterMap_nil, hx, eraseDups_concat] at heq
              refine ⟨z, rfl, ?_⟩
              split at heq
              · have := congrArg List.length heq
                rw [List.append_nil, List.length_append, List.length_singleton] at this
                omega
              · exact heq
        obtain ⟨z, hx, hvalues⟩ := hgrown
        obtain ⟨hsame, hlast⟩ := List.append_inj' hvalues rfl
        have hall := ih hfront hsame
        intro a ha
        obtain ha | ha := List.mem_append.mp ha
        · exact hall a ha
        · rw [List.mem_singleton.mp ha, hx, (List.cons.inj hlast).1]

end Agree

end OpenCollab.Lib
