import Mathlib.Logic.Relation

/-!
# OpenCollab.Lib.Effect

Computations over a state that may raise, where what was done to the state
before the exception *stays done*: the meaning of an imperative method with a
`try`.  An `Effect σ ε α` maps a state to a result or an exception, and in both
cases to a state.

Two ways to reason about one are developed.

* `Meets m s Q E` — from `s`, `m` returns into `Q` or raises into `E`; one rule
  per operation (`meets_bind`, `meets_handle`, …), each an equivalence.
* `Follows R m s Q E` — moreover every state change on the way is a move of the
  preorder `R`.  Taking for `R` the runs of a transition system makes
  `Follows` the statement that a program *refines* the system, and its rules
  (`Follows.bind`, `Follows.handle`, …) compose the moves by transitivity.

`Relation.ReflTransGen` gives the runs of a step relation, and
`invariant_of_run` carries a step invariant along one.
-/

namespace OpenCollab.Lib

/-! ## effects -/

/-- A computation over `σ` returning `α` or raising `ε`. -/
def Effect (σ ε α : Type) : Type := σ → Except ε α × σ

namespace Effect

variable {σ ε α β : Type}

/-- Run from a state. -/
def run (m : Effect σ ε α) (s : σ) : Except ε α × σ := m s

/-- Continue with the result; an exception skips the continuation. -/
def andThen (m : Effect σ ε α) (f : α → Effect σ ε β) : Effect σ ε β := fun s =>
  match m s with
  | (.ok a, s') => f a s'
  | (.error e, s') => (.error e, s')

instance instMonad : Monad (Effect σ ε) where
  pure a := fun s => (.ok a, s)
  bind := andThen

/-- Raise an exception. -/
def raise (e : ε) : Effect σ ε α := fun s => (.error e, s)

/-- `if c: raise e`. -/
def raiseIf (c : Bool) (e : ε) : Effect σ ε Unit := if c then raise e else pure ()

/-- The current state. -/
def read : Effect σ ε σ := fun s => (.ok s, s)

/-- Change the state. -/
def change (f : σ → σ) : Effect σ ε Unit := fun s => (.ok (), f s)

/-- `try m except e: k e`, the handler seeing the state `m` left. -/
def handle (m : Effect σ ε α) (k : ε → Effect σ ε α) : Effect σ ε α := fun s =>
  match m s with
  | (.ok a, s') => (.ok a, s')
  | (.error e, s') => k e s'

/-- `for x in xs: body x`. -/
def forEach (body : β → Effect σ ε Unit) : List β → Effect σ ε Unit
  | [] => pure ()
  | x :: xs => do body x; forEach body xs

variable {m : Effect σ ε α} {f : α → Effect σ ε β} {s s' : σ}

@[simp] theorem run_pure (a : α) : (pure a : Effect σ ε α).run s = (.ok a, s) := rfl

@[simp] theorem run_raise (e : ε) : (raise e : Effect σ ε α).run s = (.error e, s) := rfl

@[simp] theorem run_read : (read : Effect σ ε σ).run s = (.ok s, s) := rfl

@[simp] theorem run_change (g : σ → σ) : (change g : Effect σ ε Unit).run s = (.ok (), g s) := rfl

/-- Running a sequence whose first part returns. -/
theorem run_bind {a : α} (hm : m.run s = (.ok a, s')) : (m >>= f).run s = (f a).run s' := by
  show andThen m f s = _
  rw [run] at hm
  rw [andThen, hm]
  rfl

/-- Running a sequence whose first part raises. -/
theorem run_bind_error {e : ε} (hm : m.run s = (.error e, s')) :
    (m >>= f).run s = (.error e, s') := by
  show andThen m f s = _
  rw [run] at hm
  rw [andThen, hm]

/-! ## returning and raising -/

/-- From `s`, `m` returns a result and state in `Q` or raises into `E`. -/
def Meets (m : Effect σ ε α) (s : σ) (Q : α → σ → Prop) (E : ε → σ → Prop) : Prop :=
  match m.run s with
  | (.ok a, s') => Q a s'
  | (.error e, s') => E e s'

variable {k : ε → Effect σ ε α}
  {Q Q' : α → σ → Prop} {P : β → σ → Prop} {E E' : ε → σ → Prop}

@[simp] theorem meets_pure (a : α) : Meets (pure a : Effect σ ε α) s Q E ↔ Q a s := Iff.rfl

@[simp] theorem meets_raise (e : ε) : Meets (raise e : Effect σ ε α) s Q E ↔ E e s := Iff.rfl

@[simp] theorem meets_read {Q : σ → σ → Prop} : Meets (read : Effect σ ε σ) s Q E ↔ Q s s :=
  Iff.rfl

@[simp] theorem meets_change (g : σ → σ) {Q : Unit → σ → Prop} :
    Meets (change g : Effect σ ε Unit) s Q E ↔ Q () (g s) := Iff.rfl

theorem meets_bind :
    Meets (m >>= f) s P E ↔ Meets m s (fun a s' => Meets (f a) s' P E) E := by
  show Meets (andThen m f) s P E ↔ _
  unfold Meets run andThen
  cases m s with
  | mk r s' => cases r <;> rfl

theorem meets_handle :
    Meets (handle m k) s Q E ↔ Meets m s Q (fun e s' => Meets (k e) s' Q E) := by
  unfold Meets run handle
  cases m s with
  | mk r s' => cases r <;> rfl

theorem Meets.mono (h : Meets m s Q E) (hQ : ∀ a s', Q a s' → Q' a s')
    (hE : ∀ e s', E e s' → E' e s') : Meets m s Q' E' := by
  unfold Meets at h ⊢
  cases hm : m.run s with
  | mk r s' =>
      rw [hm] at h
      cases r with
      | ok a => exact hQ a s' h
      | error e => exact hE e s' h

/-- What is met by every outcome holds of the state the computation leaves. -/
theorem Meets.state {p : σ → Prop} (h : Meets m s (fun _ => p) (fun _ => p)) : p (m.run s).2 := by
  unfold Meets at h
  cases hm : m.run s with
  | mk r s' => rw [hm] at h; cases r <;> exact h

/-! ## following a preorder -/

/-- From `s`, `m` meets `Q` and `E`, and leads to a state that `R` relates to `s`. -/
def Follows (R : σ → σ → Prop) (m : Effect σ ε α) (s : σ) (Q : α → σ → Prop)
    (E : ε → σ → Prop) : Prop :=
  Meets m s (fun a s' => R s s' ∧ Q a s') (fun e s' => R s s' ∧ E e s')

namespace Follows

variable {R : σ → σ → Prop}

theorem mono (h : Follows R m s Q E) (hQ : ∀ a s', R s s' → Q a s' → Q' a s')
    (hE : ∀ e s', R s s' → E e s' → E' e s') : Follows R m s Q' E' :=
  Meets.mono h (fun a s' ha => ⟨ha.1, hQ a s' ha.1 ha.2⟩) (fun e s' he => ⟨he.1, hE e s' he.1 he.2⟩)

/-- A computation that never raises meets any exception postcondition. -/
theorem weaken (h : Follows R m s Q (fun _ _ => False)) : Follows R m s Q E :=
  mono h (fun _ _ _ hq => hq) (fun _ _ _ he => he.elim)

/-- A finer preorder may be forgotten. -/
theorem coarsen {R' : σ → σ → Prop} (h : Follows R m s Q E) (hR : ∀ s', R s s' → R' s s') :
    Follows R' m s Q E :=
  Meets.mono h (fun _ s' ha => ⟨hR s' ha.1, ha.2⟩) (fun _ s' he => ⟨hR s' he.1, he.2⟩)

/-- A finer preorder becomes a fact about the outcome. -/
theorem keep {R' : σ → σ → Prop} (h : Follows R m s Q E) (hR : ∀ s', R s s' → R' s s') :
    Follows R' m s (fun a s' => R s s' ∧ Q a s') (fun e s' => R s s' ∧ E e s') :=
  (h.mono (fun _ _ hr hq => ⟨hr, hq⟩) (fun _ _ hr he => ⟨hr, he⟩)).coarsen hR

/-- A relation that every outcome has to the start joins the preorder. -/
theorem within {F : σ → σ → Prop}
    (h : Follows R m s (fun a s' => F s s' ∧ Q a s') (fun e s' => F s s' ∧ E e s')) :
    Follows (fun s s' => R s s' ∧ F s s') m s Q E :=
  Meets.mono h (fun _ _ ha => ⟨⟨ha.1, ha.2.1⟩, ha.2.2⟩) (fun _ _ he => ⟨⟨he.1, he.2.1⟩, he.2.2⟩)

/-- Every outcome of `m` is reached by `R`. -/
theorem reaches (h : Follows R m s Q E) : R s (m.run s).2 :=
  Meets.state (Meets.mono h (fun _ _ ha => ha.1) (fun _ _ he => he.1))

/-- A stretch of code without awaits may be followed as one move. -/
theorem run {a : α} {s' : σ} (hm : m.run s = (.ok a, s')) (h : R s s') (hq : Q a s') :
    Follows R m s Q E := by
  rw [Follows, Meets, hm]
  exact ⟨h, hq⟩

theorem runError {e : ε} {s' : σ} (hm : m.run s = (.error e, s')) (h : R s s') (he : E e s') :
    Follows R m s Q E := by
  rw [Follows, Meets, hm]
  exact ⟨h, he⟩

theorem change {g : σ → σ} {Q : Unit → σ → Prop} (h : R s (g s)) (hQ : Q () (g s)) :
    Follows R (Effect.change g : Effect σ ε Unit) s Q E := ⟨h, hQ⟩

/-- Reading the state binds it. -/
theorem readThen {f : σ → Effect σ ε β} (hf : Follows R (f s) s P E) :
    Follows R (Effect.read >>= f) s P E := hf

variable [IsPreorder σ R]

theorem pure {a : α} (h : Q a s) : Follows R (Pure.pure a : Effect σ ε α) s Q E :=
  ⟨refl_of R s, h⟩

theorem raise {e : ε} (h : E e s) : Follows R (Effect.raise e : Effect σ ε α) s Q E :=
  ⟨refl_of R s, h⟩

theorem raiseIf {c : Bool} {e : ε} {Q : Unit → σ → Prop} (he : c = true → E e s)
    (hq : c = false → Q () s) : Follows R (Effect.raiseIf c e) s Q E := by
  cases c with
  | true => exact raise (he rfl)
  | false => exact pure (hq rfl)

/-- **Sequence.** The moves of the two parts compose. -/
theorem bind (hm : Follows R m s Q E)
    (hf : ∀ a s', R s s' → Q a s' → Follows R (f a) s' P E) : Follows R (m >>= f) s P E := by
  refine meets_bind.mpr (Meets.mono hm ?_ fun e s' he => he)
  intro a s' ha
  exact Meets.mono (hf a s' ha.1 ha.2)
    (fun b s'' hb => ⟨trans_of R ha.1 hb.1, hb.2⟩)
    (fun e s'' he => ⟨trans_of R ha.1 he.1, he.2⟩)

/-- **Exception handler.** The handler goes on from the state the body left. -/
theorem handle (hm : Follows R m s Q E')
    (hk : ∀ e s', R s s' → E' e s' → Follows R (k e) s' Q E) :
    Follows R (Effect.handle m k) s Q E := by
  refine meets_handle.mpr (Meets.mono hm (fun a s' ha => ha) ?_)
  intro e s' he
  exact Meets.mono (hk e s' he.1 he.2)
    (fun a s'' ha => ⟨trans_of R he.1 ha.1, ha.2⟩)
    (fun e' s'' he' => ⟨trans_of R he.1 he'.1, he'.2⟩)

/-- **Loop.** An invariant over the elements already seen: `I done s`. -/
theorem forEach {body : β → Effect σ ε Unit} {I : List β → σ → Prop} (xs : List β)
    (hbody : ∀ done x rest s, xs = done ++ x :: rest → I done s →
      Follows R (body x) s (fun _ => I (done ++ [x])) E)
    (hs : I [] s) : Follows R (Effect.forEach body xs) s (fun _ => I xs) E := by
  suffices h : ∀ (rest done : List β) (s : σ), xs = done ++ rest → I done s →
      Follows R (Effect.forEach body rest) s (fun _ => I xs) E from h xs [] s rfl hs
  intro rest
  induction rest with
  | nil =>
      intro done s hxs hI
      rw [List.append_nil] at hxs
      exact pure (hxs ▸ hI)
  | cons x rest ih =>
      intro done s hxs hI
      refine bind (hbody done x rest s hxs hI) ?_
      intro _ s' _ hI'
      exact ih (done ++ [x]) s' (by rw [hxs, List.append_assoc, List.singleton_append]) hI'

end Follows

end Effect

/-- What a sequence of fallible parts returned, each of its parts returned. -/
theorem bind_eq_ok {ε α β : Type} {x : Except ε α} {f : α → Except ε β} {b : β} :
    (x >>= f) = .ok b ↔ ∃ a, x = .ok a ∧ f a = .ok b := by
  cases x with
  | error e => exact ⟨nofun, nofun⟩
  | ok a => exact ⟨fun h => ⟨a, rfl, h⟩, fun ⟨_, h, hf⟩ => Except.ok.inj h ▸ hf⟩

/-! ## runs of a step relation -/

section Runs

variable {σ : Type} {step : σ → σ → Prop} {inv : σ → Prop} {s s' : σ}

instance instIsPreorderRuns : IsPreorder σ (Relation.ReflTransGen step) where
  refl := fun _ => .refl
  trans := fun _ _ _ => .trans

/-- An invariant of every step is an invariant of every run. -/
theorem invariant_of_run (hstep : ∀ a b, step a b → inv a → inv b)
    (h : Relation.ReflTransGen step s s') (hs : inv s) : inv s' := by
  induction h with
  | refl => exact hs
  | tail _ hlast ih => exact hstep _ _ hlast ih

end Runs

end OpenCollab.Lib
