import Mathlib.Data.List.Induction
import OpenCollab.Lib.Dict
import OpenCollab.Lib.Effect

/-!
# OpenCollab.Lib.Assembly

Values put together from fragments that arrive one at a time.

A fold over the fragments is taken apart by what one fragment does:

* `foldlM_frame` — a step that can only fail in one component folds that
  component, and the rest of the state by itself;
* `foldl_collect` — a component that grows at its end holds every piece, in order.

`absorb` is the step of a table of slots, one for each key: a fragment goes to the
slot of its key, whichever other fragments came in between.  `own` is what the
fragments of one key make by themselves, and

* `own_of_absorbed` — every slot is what its own fragments make;
* `absorbed_of_own` — the table is assembled when every slot is;
* `keys_absorbed` — its keys stand in the order in which they were first seen.
-/

namespace OpenCollab.Lib

variable {σ τ α β ε κ : Type}

/-! ## folds -/

theorem map_eq_ok {x : Except ε α} {f : α → β} {b : β} :
    x.map f = .ok b ↔ ∃ a, x = .ok a ∧ f a = b := by
  cases x with
  | error e => simp [Except.map]
  | ok a => simp [Except.map]

/-- A step that always fails on one of the elements never ends. -/
theorem foldlM_ne_ok {step : σ → α → Except ε σ} {x : α}
    (hstep : ∀ s s', step s x ≠ .ok s') {xs : List α} (hx : x ∈ xs) (s s' : σ) :
    xs.foldlM step s ≠ .ok s' := by
  induction xs generalizing s with
  | nil => simp at hx
  | cons y ys ih =>
      intro h
      rw [List.foldlM_cons, bind_eq_ok] at h
      obtain ⟨next, hy, hys⟩ := h
      cases List.mem_cons.mp hx with
      | inl he => exact hstep s next (he ▸ hy)
      | inr hmem => exact ih hmem next hys

/-- What one successful step keeps, a successful fold keeps. -/
theorem foldlM_invariant {step : σ → α → Except ε σ} {P : σ → Prop} {xs : List α}
    (hstep : ∀ s x s', x ∈ xs → P s → step s x = .ok s' → P s') {s s' : σ} (hs : P s)
    (h : xs.foldlM step s = .ok s') : P s' := by
  induction xs generalizing s with
  | nil =>
      rw [List.foldlM_nil] at h
      exact Except.ok.inj h ▸ hs
  | cons y ys ih =>
      rw [List.foldlM_cons, bind_eq_ok] at h
      obtain ⟨next, hy, hys⟩ := h
      have hnext : P next := hstep s y next List.mem_cons_self hs hy
      exact ih (fun s x s' hx => hstep s x s' (List.mem_cons_of_mem y hx)) hnext hys

/-- **A step that can only fail in one component** folds that component alone; the
rest of the state goes along. -/
theorem foldlM_frame {step : σ → α → Except ε σ} {put : τ → σ → σ}
    {effect : τ → α → Except ε τ} {rest : σ → α → σ}
    (hstep : ∀ t s x, step (put t s) x = (effect t x).map fun t' => put t' (rest s x))
    (xs : List α) (t : τ) (s : σ) :
    xs.foldlM step (put t s) = (xs.foldlM effect t).map fun t' => put t' (xs.foldl rest s) := by
  induction xs generalizing t s with
  | nil => rfl
  | cons x xs ih =>
      rw [List.foldlM_cons, List.foldlM_cons, List.foldl_cons, hstep]
      cases effect t x with
      | error e => rfl
      | ok t' => exact ih t' (rest s x)

/-- Steps that fail by their elements alone: a fold succeeds where every element does. -/
theorem foldlM_isOk {step : σ → α → Except ε σ} {P : α → Prop}
    (hstep : ∀ s x, (∃ s', step s x = .ok s') ↔ P x) (xs : List α) (s : σ) :
    (∃ s', xs.foldlM step s = .ok s') ↔ ∀ x ∈ xs, P x := by
  induction xs generalizing s with
  | nil => exact ⟨fun _ _ h => by contradiction, fun _ => ⟨s, rfl⟩⟩
  | cons x xs ih =>
      simp only [List.foldlM_cons, bind_eq_ok, List.forall_mem_cons]
      constructor
      · intro ⟨s', next, hx, h⟩
        exact ⟨(hstep s x).mp ⟨next, hx⟩, (ih next).mp ⟨s', h⟩⟩
      · intro ⟨hx, hxs⟩
        obtain ⟨next, hnext⟩ := (hstep s x).mpr hx
        obtain ⟨s', h⟩ := (ih next).mpr hxs
        exact ⟨s', next, hnext, h⟩

/-- A fold over the parts of every element is a fold over all of the parts. -/
theorem foldlM_flatMap {step : σ → β → Except ε σ} (parts : α → List β) (xs : List α) (s : σ) :
    (xs.flatMap parts).foldlM step s = xs.foldlM (fun s x => (parts x).foldlM step s) s := by
  induction xs generalizing s with
  | nil => rfl
  | cons x xs ih =>
      rw [List.flatMap_cons, List.foldlM_append, List.foldlM_cons]
      cases (parts x).foldlM step s with
      | error e => rfl
      | ok s' => exact ih s'

/-- **A component that grows at its end** holds every piece, in order, as long as
the states it goes through are such that a step adds its piece. -/
theorem foldl_collect {step : σ → α → σ} {P : σ → Prop} {get : σ → List β} {piece : α → List β}
    {xs : List α}
    (hstep : ∀ s, ∀ x ∈ xs, P s → P (step s x) ∧ get (step s x) = get s ++ piece x)
    {s : σ} (hs : P s) :
    P (xs.foldl step s) ∧ get (xs.foldl step s) = get s ++ xs.flatMap piece := by
  induction xs generalizing s with
  | nil => simpa using hs
  | cons x xs ih =>
      obtain ⟨hnext, hpiece⟩ := hstep s x List.mem_cons_self hs
      have hrest := ih (fun s y hy => hstep s y (List.mem_cons_of_mem x hy)) hnext
      rw [List.foldl_cons, List.flatMap_cons, ← List.append_assoc, ← hpiece]
      exact hrest

/-- What one step keeps, a fold keeps. -/
theorem foldl_invariant {step : σ → α → σ} {P : σ → Prop} {xs : List α}
    (hstep : ∀ s, ∀ x ∈ xs, P s → P (step s x)) {s : σ} (hs : P s) : P (xs.foldl step s) := by
  induction xs generalizing s with
  | nil => exact hs
  | cons x xs ih =>
      exact ih (fun s y hy => hstep s y (List.mem_cons_of_mem x hy))
        (hstep s x List.mem_cons_self hs)

/-! ## tests that can fail -/

/-- A search that found nothing looked at every element. -/
theorem anyM_eq_ok_false {test : α → Except ε Bool} {xs : List α} :
    xs.anyM test = .ok false ↔ ∀ x ∈ xs, test x = .ok false := by
  induction xs with
  | nil => simp [List.anyM, pure, Except.pure]
  | cons x xs ih =>
      rw [List.anyM, List.forall_mem_cons, ← ih]
      cases test x with
      | error e => simp [bind, Except.bind]
      | ok b => cases b <;> simp [bind, Except.bind, pure, Except.pure]

/-- A search that no element satisfies does not succeed. -/
theorem anyM_ne_ok_true {test : α → Except ε Bool} {xs : List α}
    (h : ∀ x ∈ xs, test x ≠ .ok true) : xs.anyM test ≠ .ok true := by
  induction xs with
  | nil => simp [List.anyM, pure, Except.pure]
  | cons x xs ih =>
      rw [List.forall_mem_cons] at h
      rw [List.anyM]
      cases hx : test x with
      | error e => simp [bind, Except.bind]
      | ok b =>
          cases b with
          | true => exact absurd hx h.1
          | false => exact ih h.2

theorem allM_eq_ok_true {test : α → Except ε Bool} {xs : List α} :
    xs.allM test = .ok true ↔ ∀ x ∈ xs, test x = .ok true := by
  induction xs with
  | nil => simp [List.allM, pure, Except.pure]
  | cons x xs ih =>
      rw [List.allM, List.forall_mem_cons, ← ih]
      cases test x with
      | error e => simp [bind, Except.bind]
      | ok b => cases b <;> simp [bind, Except.bind, pure, Except.pure]

theorem forM_eq_ok {check : α → Except ε PUnit} {xs : List α} :
    xs.forM check = .ok ⟨⟩ ↔ ∀ x ∈ xs, check x = .ok ⟨⟩ := by
  induction xs with
  | nil => simp [List.forM, pure, Except.pure]
  | cons x xs ih =>
      rw [List.forM, List.forall_mem_cons, ← ih]
      cases check x with
      | error e => simp [bind, Except.bind]
      | ok u => simp [bind, Except.bind]

/-! ## elements in correspondence -/

/-- Every element on the left has its counterpart. -/
theorem exists_of_forall₂ {R : α → β → Prop} {xs : List α} {ys : List β}
    (h : List.Forall₂ R xs ys) {x : α} (hx : x ∈ xs) : ∃ y ∈ ys, R x y := by
  induction h with
  | nil => simp at hx
  | cons hxy _ ih =>
      cases List.mem_cons.mp hx with
      | inl he => exact ⟨_, List.mem_cons_self, he ▸ hxy⟩
      | inr hmem =>
          obtain ⟨y, hy, hr⟩ := ih hmem
          exact ⟨y, List.mem_cons_of_mem _ hy, hr⟩

/-- A list is mapped element by element. -/
theorem mapM_eq_ok {f : α → Except ε β} {xs : List α} {ys : List β} :
    xs.mapM f = .ok ys ↔ List.Forall₂ (fun x y => f x = .ok y) xs ys := by
  induction xs generalizing ys with
  | nil =>
      constructor
      · intro h
        cases h
        exact .nil
      · intro h
        cases h
        rfl
  | cons x xs ih =>
      rw [List.mapM_cons, bind_eq_ok]
      constructor
      · intro ⟨y, hy, h⟩
        rw [bind_eq_ok] at h
        obtain ⟨rest, hrest, h⟩ := h
        cases h
        exact .cons hy (ih.mp hrest)
      · intro h
        cases h with
        | cons hy hrest => exact ⟨_, hy, by rw [ih.mpr hrest]; rfl⟩

/-- It can be mapped if every element can. -/
theorem mapM_isOk {f : α → Except ε β} {xs : List α} :
    (∃ ys, xs.mapM f = .ok ys) ↔ ∀ x ∈ xs, ∃ y, f x = .ok y := by
  simp only [mapM_eq_ok]
  constructor
  · intro ⟨ys, h⟩ x hx
    obtain ⟨y, -, hy⟩ := exists_of_forall₂ h hx
    exact ⟨y, hy⟩
  · intro h
    induction xs with
    | nil => exact ⟨[], .nil⟩
    | cons x xs ih =>
        obtain ⟨y, hy⟩ := h x List.mem_cons_self
        obtain ⟨ys, hys⟩ := ih fun x hx => h x (List.mem_cons_of_mem _ hx)
        exact ⟨y :: ys, .cons hy hys⟩

/-- Counterparts that are mapped alike make one list. -/
theorem mapM_eq_of_forall₂ {f : α → Except ε σ} {g : β → Except ε σ} {xs : List α} {ys : List β}
    (h : List.Forall₂ (fun x y => f x = g y) xs ys) : xs.mapM f = ys.mapM g := by
  induction h with
  | nil => rfl
  | cons hxy _ ih => rw [List.mapM_cons, List.mapM_cons, hxy, ih]

/-! ## slots -/

namespace Dict

variable [DecidableEq κ]

theorem keys_set (d : Dict κ α) (key : κ) (value : α) :
    (d.set key value).entries.map Prod.fst
      = if key ∈ d.entries.map Prod.fst then d.entries.map Prod.fst
        else d.entries.map Prod.fst ++ [key] := by
  unfold set
  split
  · exact keys_replace d.entries key value
  · simp

/-- The entries, read back from the keys. -/
theorem entries_eq (d : Dict κ α) (blank : α) :
    d.entries = (d.entries.map Prod.fst).map fun key => (key, (d.get? key).getD blank) := by
  rw [List.map_map]
  conv_lhs => rw [← List.map_id d.entries]
  refine List.map_congr_left fun e he => ?_
  have hget : d.get? e.1 = some e.2 := get?_eq_some.mpr he
  rw [Function.comp, hget, Option.getD_some, id]

end Dict

section Slots

variable [DecidableEq κ] (grow : κ → α → β → Except ε α) (blank : α)

/-- A fragment absorbed into the slot of its key, which starts blank. -/
def absorb (slots : Dict κ α) (fragment : κ × β) : Except ε (Dict κ α) := do
  let slot ← grow fragment.1 ((slots.get? fragment.1).getD blank) fragment.2
  return slots.set fragment.1 slot

/-- What the fragments of one key make by themselves. -/
def own (key : κ) (fragments : List (κ × β)) : Except ε α :=
  (fragments.filter fun fragment => fragment.1 = key).foldlM
    (fun slot fragment => grow key slot fragment.2) blank

variable {grow blank}

theorem own_snoc (key : κ) (fragments : List (κ × β)) (fragment : κ × β) :
    own grow blank key (fragments ++ [fragment])
      = if fragment.1 = key then
          own grow blank key fragments >>= fun slot => grow key slot fragment.2
        else own grow blank key fragments := by
  rw [own, List.filter_append]
  split
  · rename_i hk
    rw [List.filter_cons_of_pos (by simpa using hk), List.foldlM_append]
    simp [own]
  · rename_i hk
    rw [List.filter_cons_of_neg (by simpa using hk)]
    simp [own]

theorem absorb_eq_ok {slots slots' : Dict κ α} {fragment : κ × β} :
    absorb grow blank slots fragment = .ok slots' ↔
      ∃ slot, grow fragment.1 ((slots.get? fragment.1).getD blank) fragment.2 = .ok slot ∧
        slots.set fragment.1 slot = slots' := by
  rw [absorb, bind_eq_ok]
  simp [pure, Except.pure]

theorem absorbed_snoc {fragments : List (κ × β)} {fragment : κ × β} {slots : Dict κ α} :
    (fragments ++ [fragment]).foldlM (absorb grow blank) .empty = .ok slots ↔
      ∃ slots', fragments.foldlM (absorb grow blank) .empty = .ok slots' ∧
        absorb grow blank slots' fragment = .ok slots := by
  rw [List.foldlM_append, bind_eq_ok]
  simp

/-- **Every slot is what its own fragments make**, whatever came in between. -/
theorem own_of_absorbed {fragments : List (κ × β)} {slots : Dict κ α}
    (h : fragments.foldlM (absorb grow blank) .empty = .ok slots) (key : κ) :
    own grow blank key fragments = .ok ((slots.get? key).getD blank) := by
  induction fragments using List.reverseRecOn generalizing slots with
  | nil =>
      rw [List.foldlM_nil] at h
      rw [← Except.ok.inj h]
      rfl
  | append_singleton fragments fragment ih =>
      obtain ⟨slots', hbefore, hlast⟩ := absorbed_snoc.mp h
      obtain ⟨slot, hgrow, rfl⟩ := absorb_eq_ok.mp hlast
      rw [own_snoc, ih hbefore]
      by_cases hk : fragment.1 = key
      · subst hk
        rw [if_pos rfl, Dict.get?_set_self]
        exact hgrow
      · rw [if_neg hk, Dict.get?_set_of_ne (Ne.symm hk)]

/-- **The table is assembled** when the fragments of every key are. -/
theorem absorbed_of_own {fragments : List (κ × β)}
    (h : ∀ key ∈ fragments.map Prod.fst, ∃ slot, own grow blank key fragments = .ok slot) :
    ∃ slots, fragments.foldlM (absorb grow blank) .empty = .ok slots := by
  induction fragments using List.reverseRecOn with
  | nil => exact ⟨.empty, rfl⟩
  | append_singleton fragments fragment ih =>
      have hown : ∀ key ∈ fragments.map Prod.fst,
          ∃ slot, own grow blank key fragments = .ok slot := by
        intro key hkey
        obtain ⟨slot, hslot⟩ := h key (by simp [hkey])
        rw [own_snoc] at hslot
        split at hslot
        · obtain ⟨slot', hslot', -⟩ := bind_eq_ok.mp hslot
          exact ⟨slot', hslot'⟩
        · exact ⟨slot, hslot⟩
      obtain ⟨slots, hslots⟩ := ih hown
      obtain ⟨slot, hslot⟩ := h fragment.1 (by simp)
      rw [own_snoc, if_pos rfl, own_of_absorbed hslots] at hslot
      exact ⟨_, absorbed_snoc.mpr ⟨slots, hslots, absorb_eq_ok.mpr ⟨slot, hslot, rfl⟩⟩⟩

/-- **Keys stand in the order in which they were first seen.** -/
theorem keys_absorbed {fragments : List (κ × β)} {slots : Dict κ α}
    (h : fragments.foldlM (absorb grow blank) .empty = .ok slots) :
    slots.entries.map Prod.fst = (fragments.map Prod.fst).eraseDups := by
  induction fragments using List.reverseRecOn generalizing slots with
  | nil =>
      rw [List.foldlM_nil] at h
      rw [← Except.ok.inj h]
      rfl
  | append_singleton fragments fragment ih =>
      obtain ⟨slots', hbefore, hlast⟩ := absorbed_snoc.mp h
      obtain ⟨slot, -, rfl⟩ := absorb_eq_ok.mp hlast
      rw [Dict.keys_set, ih hbefore, List.map_append, List.eraseDups_append]
      by_cases hk : fragment.1 ∈ fragments.map Prod.fst
      · simp [List.removeAll, hk]
      · simp [List.removeAll, hk, List.eraseDups_cons]

end Slots

end OpenCollab.Lib
