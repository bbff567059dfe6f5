import OpenCollab.Shaping.Projection
import OpenCollab.Shaping.Store

/-!
# OpenCollab.Shaping.Rewrite

Where the two halves of the shaping model meet: a layer runs over references
and a `Store`, and what it owes is stated about message values (`Edited`).
`EditedTo` is that obligation for one message and `EditedHistory` for a whole
history: the new references are valid, no earlier cell is touched, and the new
values are edits of the old ones.

`replaceContents` is the pass that the clearing layers share.
-/

namespace OpenCollab

open List (Forall₂)

variable {Rejected : String → Prop} {st : Store} {refs : List Ref} {r : Ref}

/-! ## one message -/

theorem shallow_content (content : Option Json) :
    Store.Shallow fun obj => { obj with content := content } :=
  fun _ _ _ h => ⟨h.calls, h.items⟩

/-- A new dict that differs from a tool message in its content only. -/
theorem edited_withContent (Rejected : String → Prop) (obj : MessageObj) (st : Store)
    (content : Json) (ht : (st.deref obj).isTool = true) :
    Edited Rejected (st.deref obj) (st.deref { obj with content := some content }) := by
  have hrefl : Edited Rejected _ _ := .refl (st.deref obj)
  exact { hrefl with
    content := fun h => absurd (h.symm.trans ht) Bool.false_ne_true }

/-- What one layer step gives back for one message: an edit of it, behind a
valid reference, in a store that extends the old one. -/
structure EditedTo (Rejected : String → Prop) (st : Store) (r : Ref) (out : Ref × Store) :
    Prop where
  kept : st.Extends out.2
  has : out.1 < out.2.messages.length
  edited : Edited Rejected (st.read r) (out.2.read out.1)

theorem EditedTo.refl (Rejected : String → Prop) (hr : r < st.messages.length) :
    EditedTo Rejected st r (r, st) :=
  ⟨Store.Extends.refl st, hr, Edited.refl _⟩

/-! ## a whole history -/

/-- What an edit of a whole history gives back. -/
structure EditedHistory (Rejected : String → Prop) (st : Store) (refs : List Ref)
    (out : List Ref × Store) : Prop where
  kept : st.Extends out.2
  has : out.2.Has out.1
  edited : Forall₂ (Edited Rejected) (st.view refs) (out.2.view out.1)

theorem EditedHistory.refl (hrefs : st.Has refs) : EditedHistory Rejected st refs (refs, st) :=
  ⟨Store.Extends.refl st, hrefs, List.forall₂_same.mpr fun m _ => Edited.refl m⟩

/-- One message is edited, then the rest of the history. -/
theorem EditedHistory.cons {head : Ref × Store} {rest : List Ref × Store}
    (hhead : EditedTo Rejected st r head) (hrefs : st.Has refs)
    (hrest : EditedHistory Rejected head.2 refs rest) :
    EditedHistory Rejected st (r :: refs) (head.1 :: rest.1, rest.2) := by
  refine ⟨hhead.kept.trans hrest.kept, ?_, ?_⟩
  · intro x hx
    cases List.mem_cons.mp hx with
    | inl hx => rw [hx]; exact Nat.lt_of_lt_of_le hhead.has hrest.kept.length_le.1
    | inr hx => exact hrest.has x hx
  · have hview := hrest.edited
    rw [Store.view_of_extends hhead.kept hrefs] at hview
    refine .cons ?_ hview
    rw [Store.read_of_extends hrest.kept hhead.has]
    exact hhead.edited

/-! ## replacing contents -/

/-- Replace the content of the messages for which `newContent` has a text, each
in a new dict; all others stay the same objects. -/
def replaceContents (newContent : Nat → Message → Option String) :
    (index : Nat) → List Ref → Store → List Ref × Store
  | _, [], st => ([], st)
  | index, r :: rest, st =>
      match newContent index (st.read r) with
      | some text =>
          let (r', st) := st.copyWith r (fun obj => { obj with content := some (.str text) })
            (shallow_content _)
          let (rest', st) := replaceContents newContent (index + 1) rest st
          (r' :: rest', st)
      | none =>
          let (rest', st) := replaceContents newContent (index + 1) rest st
          (r :: rest', st)

/-- **The pass edits tool results only.** -/
theorem replaceContents_spec (newContent : Nat → Message → Option String) (index : Nat)
    (htool : ∀ i m text, newContent i m = some text → m.isTool = true) (hrefs : st.Has refs) :
    EditedHistory Rejected st refs (replaceContents newContent index refs st) := by
  induction refs generalizing index st with
  | nil => exact EditedHistory.refl hrefs
  | cons r rest ih =>
      have hr := hrefs r List.mem_cons_self
      have hrest : st.Has rest := fun x hx => hrefs x (List.mem_cons_of_mem r hx)
      cases hc : newContent index (st.read r) with
      | none =>
          simp only [replaceContents, hc]
          exact EditedHistory.cons (EditedTo.refl Rejected hr) hrest (ih (index + 1) hrest)
      | some text =>
          simp only [replaceContents, hc]
          have hcopy := st.copyWith_spec _ (shallow_content
            (some (.str text))) hr
          have hedit : EditedTo Rejected st r (st.copyWith r
              (fun obj => { obj with content := some (.str text) })
              (shallow_content _)) := by
            refine ⟨hcopy.1, hcopy.2.1, ?_⟩
            rw [hcopy.2.2, st.read_getElem hr]
            exact edited_withContent Rejected _ _ _
              (st.read_getElem hr ▸ htool index _ text hc)
          exact EditedHistory.cons hedit hrest (ih (index + 1) (hrest.mono hedit.kept))

end OpenCollab
