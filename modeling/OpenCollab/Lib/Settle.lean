/-!
# OpenCollab.Lib.Settle

A loop that replaces a value by its image until the two agree, as a function of
a number of rounds.

* `settle_fixed` — what it returns is a fixed point;
* `settle_of_room` — the loop ends where every change keeps an invariant and
  uses up room;
* `settle_le` — more rounds change nothing.
-/

namespace OpenCollab.FixedPoint

/-- `while step(x) != x: x = step(x)`, for at most `rounds` tests. -/
def settle [DecidableEq α] (step : α → α) : Nat → α → Option α
  | 0, _ => none
  | rounds + 1, x => if step x = x then some x else settle step rounds (step x)

variable [DecidableEq α] {step : α → α}

/-- The loop leaves at a fixed point only. -/
theorem settle_fixed {rounds : Nat} {x y : α} (h : settle step rounds x = some y) :
    step y = y := by
  induction rounds generalizing x with
  | zero => simp [settle] at h
  | succ rounds ih =>
      rw [settle] at h
      split at h
      · simp only [Option.some.injEq] at h
        rwa [← h]
      · exact ih h

/-- **The loop ends**, within the room its start has, where a change keeps the
invariant and leaves less room. -/
theorem settle_of_room (Inv : α → Prop) (room : α → Nat)
    (hchange : ∀ x, Inv x → step x ≠ x → Inv (step x) ∧ room (step x) < room x)
    {rounds : Nat} {x : α} (hinv : Inv x) (hroom : room x < rounds) :
    ∃ y, settle step rounds x = some y ∧ Inv y := by
  induction rounds generalizing x with
  | zero => omega
  | succ rounds ih =>
      rw [settle]
      split
      · exact ⟨x, rfl, hinv⟩
      · rename_i hne
        obtain ⟨hkeep, hless⟩ := hchange x hinv hne
        exact ih hkeep (by omega)

/-- A loop that has ended gives the same value however long it may run. -/
theorem settle_le {rounds more : Nat} (hle : rounds ≤ more) {x y : α}
    (h : settle step rounds x = some y) : settle step more x = some y := by
  induction rounds generalizing x more with
  | zero => simp [settle] at h
  | succ rounds ih =>
      obtain ⟨more, rfl⟩ : ∃ k, more = k + 1 := ⟨more - 1, by omega⟩
      rw [settle] at h ⊢
      split
      · simpa [*] using h
      · rename_i hne
        rw [if_neg hne] at h
        exact ih (by omega) h

end OpenCollab.FixedPoint
