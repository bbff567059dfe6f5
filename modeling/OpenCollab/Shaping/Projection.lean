import OpenCollab.Shaping.Spans

/-!
# OpenCollab.Shaping.Projection

What a shaped view owes the history it was made from.  A layer may touch a
history in two ways: rewrite text inside its messages (`Edited`), or replace
whole groups in the open middle.  `Projects k ms out` states what survives
either way — the tool protocol, the call each surviving result answers, the
leading group and the last `k` groups, and the pinned sources — and

* `Projects.refl`, `Projects.trans` — layers compose in any order and nesting;
* `projects_of_edited` — a layer that only rewrites text;
* `projects_of_rewrite` — a layer that replaces groups of the middle

reduce each layer to what it does to one message or one group.
-/

namespace OpenCollab

open Segments
open List (Forall₂)

/-- What stands in the place of an argument text that a rejected call carried. -/
def omittedArguments : String := "\x7b\"_rejected_tool_arguments\":\"omitted\"\x7d"

/- `Rejected text` says that `text` is no JSON object, so that a call carrying
it was rejected before execution: it is the only argument text that may go. -/
variable {Rejected : String → Prop}

/-! ## edited messages -/

/-- The same call, its arguments kept or omitted. -/
structure SameCall (Rejected : String → Prop) (c c' : ToolCall) : Prop where
  id : c'.id = c.id
  name : c'.name = c.name
  arguments : c'.arguments = c.arguments ∨ Rejected c.arguments ∧ c'.arguments = omittedArguments

/-- The same replay item, up to the arguments of a function call. -/
def SameItem (item item' : Json) : Prop :=
  item' = item ∨ item.get "type" = .str "function_call" ∧
    item' = item.set "arguments" (.str omittedArguments)

/-- **The same message**, with only tool-result content or rejected-argument
text changed: the content may differ on a tool result, call arguments (and their
copy in `response_items`) on an exchange leader, and everything else is equal. -/
structure Edited (Rejected : String → Prop) (m m' : Message) : Prop where
  role : m'.role = m.role
  content : m.isTool = false → m'.content = m.content
  calls : Forall₂ (SameCall Rejected) m.toolCalls m'.toolCalls
  items : Option.Rel (Forall₂ SameItem) m.responseItems m'.responseItems
  untouched : m.opensExchange = false →
    m'.toolCalls = m.toolCalls ∧ m'.responseItems = m.responseItems
  toolCallId : m'.toolCallId = m.toolCallId
  reasoningContent : m'.reasoningContent = m.reasoningContent
  reasoning : m'.reasoning = m.reasoning
  providerState : m'.providerState = m.providerState
  ctxPriority : m'.ctxPriority = m.ctxPriority
  compacted : m'.compacted = m.compacted
  placeholder : m'.placeholder = m.placeholder
  phase : m'.phase = m.phase

theorem SameCall.refl (c : ToolCall) : SameCall Rejected c c := ⟨rfl, rfl, .inl rfl⟩

theorem SameCall.trans {c c' c'' : ToolCall} (h : SameCall Rejected c c')
    (h' : SameCall Rejected c' c'') : SameCall Rejected c c'' := by
  refine ⟨h'.id.trans h.id, h'.name.trans h.name, ?_⟩
  cases h.arguments with
  | inl ha =>
      cases h'.arguments with
      | inl hb => exact .inl (hb.trans ha)
      | inr hb => exact .inr ⟨ha ▸ hb.1, hb.2⟩
  | inr ha =>
      cases h'.arguments with
      | inl hb => exact .inr ⟨ha.1, hb.trans ha.2⟩
      | inr hb => exact .inr ⟨ha.1, hb.2⟩

theorem SameItem.refl (item : Json) : SameItem item item := .inl rfl

/-- Omitting the arguments twice is omitting them once. -/
theorem SameItem.trans {a b c : Json} (h : SameItem a b) (h' : SameItem b c) : SameItem a c := by
  cases h with
  | inl h => exact h ▸ h'
  | inr h =>
      cases h' with
      | inl h' => exact .inr ⟨h.1, h'.trans h.2⟩
      | inr h' => exact .inr ⟨h.1, by rw [h'.2, h.2, Json.set_set]⟩

theorem rel_sameItem_refl (items : Option (List Json)) :
    Option.Rel (Forall₂ SameItem) items items := by
  cases items with
  | none => exact .none
  | some items => exact .some (List.forall₂_same.mpr fun item _ => SameItem.refl item)

theorem rel_sameItem_trans {a b c : Option (List Json)} (h : Option.Rel (Forall₂ SameItem) a b)
    (h' : Option.Rel (Forall₂ SameItem) b c) : Option.Rel (Forall₂ SameItem) a c := by
  cases h with
  | none => exact h'
  | some h =>
      cases h' with
      | some h' => exact .some (forall₂_trans (fun _ _ _ hab hbc => hab.trans hbc) h h')

namespace Edited

variable {m m' m'' : Message}

theorem refl (m : Message) : Edited Rejected m m :=
  { role := rfl, content := fun _ => rfl,
    calls := List.forall₂_same.mpr fun c _ => SameCall.refl c,
    items := rel_sameItem_refl _, untouched := fun _ => ⟨rfl, rfl⟩, toolCallId := rfl,
    reasoningContent := rfl, reasoning := rfl, providerState := rfl, ctxPriority := rfl,
    compacted := rfl, placeholder := rfl, phase := rfl }

theorem isTool_eq (h : Edited Rejected m m') : m'.isTool = m.isTool := by
  simp [Message.isTool, h.role]

/-- An edit keeps the ids of the calls. -/
theorem callIds_eq (h : Edited Rejected m m') : m'.callIds = m.callIds :=
  map_eq_of_forall₂ (fun _ _ hc => hc.id) h.calls

theorem opensExchange_eq (h : Edited Rejected m m') : m'.opensExchange = m.opensExchange := by
  have hempty : m'.toolCalls.isEmpty = m.toolCalls.isEmpty := by
    rw [Bool.eq_iff_iff, List.isEmpty_iff_length_eq_zero, List.isEmpty_iff_length_eq_zero,
      h.calls.length_eq]
  simp only [Message.opensExchange, h.role, hempty]

theorem trans (h : Edited Rejected m m') (h' : Edited Rejected m' m'') :
    Edited Rejected m m'' :=
  { role := h'.role.trans h.role
    content := fun ht => (h'.content (h.isTool_eq.trans ht)).trans (h.content ht)
    calls := forall₂_trans (fun _ _ _ hab hbc => hab.trans hbc) h.calls h'.calls
    items := rel_sameItem_trans h.items h'.items
    untouched := fun ho => by
      obtain ⟨ha, hb⟩ := h.untouched ho
      obtain ⟨ha', hb'⟩ := h'.untouched (h.opensExchange_eq.trans ho)
      exact ⟨ha'.trans ha, hb'.trans hb⟩
    toolCallId := h'.toolCallId.trans h.toolCallId
    reasoningContent := h'.reasoningContent.trans h.reasoningContent
    reasoning := h'.reasoning.trans h.reasoning
    providerState := h'.providerState.trans h.providerState
    ctxPriority := h'.ctxPriority.trans h.ctxPriority
    compacted := h'.compacted.trans h.compacted
    placeholder := h'.placeholder.trans h.placeholder
    phase := h'.phase.trans h.phase }

/-- A message that is no part of an exchange is not edited at all. -/
theorem eq_of_solo (h : Edited Rejected m m') (ht : m.isTool = false)
    (ho : m.opensExchange = false) : m' = m := by
  obtain ⟨hcalls, hitems⟩ := h.untouched ho
  obtain ⟨hrole, hcontent, -, -, -, hid, hrc, hr, hps, hctx, hcomp, hph, hphase⟩ := h
  have hc := hcontent ht
  cases m
  cases m'
  simp_all

end Edited

/-- The same group, message by message. -/
abbrev EditedGroup (Rejected : String → Prop) : Group → Group → Prop :=
  Forall₂ (Edited Rejected)

theorem EditedGroup.refl (g : Group) : EditedGroup Rejected g g :=
  List.forall₂_same.mpr fun m _ => Edited.refl m

theorem EditedGroup.trans {g g' g'' : Group} (h : EditedGroup Rejected g g')
    (h' : EditedGroup Rejected g' g'') : EditedGroup Rejected g g'' :=
  forall₂_trans (fun _ _ _ hab hbc => hab.trans hbc) h h'

/-! ## edited groups -/

theorem Answers.edited {m m' : Message} {rest rest' : List Message} (h : Answers m rest)
    (hm : Edited Rejected m m') (hrest : EditedGroup Rejected rest rest') : Answers m' rest' :=
  { nodup := hm.callIds_eq ▸ h.nodup
    nonempty := hm.callIds_eq ▸ h.nonempty
    tools := forall_mem_of_forall₂ (fun _ _ he ht => he.isTool_eq.trans ht) hrest h.tools
    paired := by
      rw [hm.callIds_eq, map_eq_of_forall₂ (fun _ _ he => he.toolCallId) hrest]
      exact h.paired }

/-- An edited group is still well formed. -/
theorem GroupValid.edited {g g' : Group} (hg : GroupValid g) (h : EditedGroup Rejected g g') :
    GroupValid g' := by
  cases h with
  | nil => exact hg
  | @cons m m' rest rest' hm hrest =>
      simp only [GroupValid, hm.opensExchange_eq, hm.isTool_eq] at hg ⊢
      cases ho : m.opensExchange with
      | true =>
          simp only [ho, if_true] at hg ⊢
          exact hg.edited hm hrest
      | false =>
          simp only [ho, Bool.false_eq_true, if_false] at hg ⊢
          obtain ⟨rfl, ht⟩ := hg
          exact ⟨List.forall₂_nil_left_iff.mp hrest, ht⟩

theorem isExchange_edited {g g' : Group} (h : EditedGroup Rejected g g') :
    isExchange g' = isExchange g := by
  cases h with
  | nil => rfl
  | cons hm _ => exact hm.opensExchange_eq

/-- Editing messages does not move group boundaries. -/
theorem groupsFrom_edited {cur cur' : Group} {ms ms' : List Message} (isOpen : Bool)
    (hcur : EditedGroup Rejected cur cur') (h : Forall₂ (Edited Rejected) ms ms') :
    Forall₂ (EditedGroup Rejected) (groupsFrom cur isOpen ms) (groupsFrom cur' isOpen ms') := by
  induction h generalizing cur cur' isOpen with
  | nil => exact .cons hcur .nil
  | @cons m m' rest rest' hm _ ih =>
      simp only [groupsFrom, hm.isTool_eq, hm.opensExchange_eq]
      split
      · exact ih true (List.rel_append hcur (.cons hm .nil))
      · exact .cons hcur (ih m.opensExchange (.cons hm .nil))

theorem groups_edited {ms ms' : List Message} (h : Forall₂ (Edited Rejected) ms ms') :
    Forall₂ (EditedGroup Rejected) (groups ms) (groups ms') := by
  cases h with
  | nil => exact .nil
  | @cons m m' rest rest' hm hrest =>
      simp only [groups, hm.opensExchange_eq]
      exact groupsFrom_edited m.opensExchange (.cons hm .nil) hrest

/-! ## what a shaped view owes its history -/

/-- The tool exchanges of a history. -/
def exchanges (ms : List Message) : List Group := (groups ms).filter isExchange

/-- The last `k` groups, the leading one aside. -/
def recentGroups (k : Nat) (ms : List Message) : List Group :=
  (groups ms).tail.drop ((groups ms).tail.length - k)

/-- The pinned messages of a run of groups that are no part of a tool exchange. -/
def pinnedSolos (gs : List Group) : List Message :=
  ((gs.filter (fun g => !isExchange g)).flatten).filter Message.isPinned

/-- **What a shaped view `out` of a history `ms` keeps**, where the last `k`
groups are protected. -/
structure Projects (Rejected : String → Prop) (k : Nat) (ms out : List Message) : Prop where
  /-- The view obeys the tool protocol. -/
  valid : ProtocolValid out
  /-- Every exchange in the view is one of the history: each surviving tool
  result answers the same call of the same assistant turn. -/
  exchanges : ∃ kept, kept.Sublist (exchanges ms) ∧
    Forall₂ (EditedGroup Rejected) kept (exchanges out)
  /-- The leading group survives. -/
  leading : Forall₂ (EditedGroup Rejected) ((groups ms).take 1) ((groups out).take 1)
  /-- The last `k` groups survive, in order. -/
  recent : Forall₂ (EditedGroup Rejected) (recentGroups k ms) (recentGroups k out)
  /-- The pinned sources survive unchanged, in order. -/
  pinned : (pinnedSolos (groups ms)).Sublist (pinnedSolos (groups out))

variable {k : Nat} {ms out out' : List Message}

theorem forall₂_editedGroup_refl (gs : List Group) : Forall₂ (EditedGroup Rejected) gs gs :=
  List.forall₂_same.mpr fun g _ => EditedGroup.refl g

theorem Projects.refl (h : ProtocolValid ms) : Projects Rejected k ms ms :=
  { valid := h
    exchanges := ⟨_, List.Sublist.refl _, forall₂_editedGroup_refl _⟩
    leading := forall₂_editedGroup_refl _
    recent := forall₂_editedGroup_refl _
    pinned := List.Sublist.refl _ }

/-- **Layers compose**: a view of a view is a view. -/
theorem Projects.trans (h : Projects Rejected k ms out) (h' : Projects Rejected k out out') :
    Projects Rejected k ms out' :=
  { valid := h'.valid
    exchanges := by
      obtain ⟨kept, hsub, hedit⟩ := h.exchanges
      obtain ⟨kept', hsub', hedit'⟩ := h'.exchanges
      obtain ⟨both, hboth, hmid⟩ := exists_sublist_forall₂ hedit hsub'
      exact ⟨both, hboth.trans hsub, forall₂_trans (fun _ _ _ ha hb => ha.trans hb) hmid hedit'⟩
    leading := forall₂_trans (fun _ _ _ ha hb => ha.trans hb) h.leading h'.leading
    recent := forall₂_trans (fun _ _ _ ha hb => ha.trans hb) h.recent h'.recent
    pinned := h.pinned.trans h'.pinned }

/-! ## the two ways a layer touches a history -/

/-- Pinned solo messages are not edited. -/
theorem pinnedSolos_edited {gs gs' : List Group} (hgs : ∀ g ∈ gs, GroupValid g)
    (h : Forall₂ (EditedGroup Rejected) gs gs') : pinnedSolos gs' = pinnedSolos gs := by
  induction h with
  | nil => rfl
  | @cons g g' rest rest' hg _ ih =>
      have ihr := ih (fun x hx => hgs x (List.mem_cons_of_mem g hx))
      have hval := hgs g List.mem_cons_self
      simp only [pinnedSolos, List.filter_cons, isExchange_edited hg] at ihr ⊢
      cases he : isExchange g with
      | true => simpa using ihr
      | false =>
          have hsame : g' = g := by
            cases hg with
            | nil => rfl
            | cons hm hrest =>
                simp only [isExchange] at he
                simp only [GroupValid, he, Bool.false_eq_true, if_false] at hval
                obtain ⟨rfl, ht⟩ := hval
                rw [List.forall₂_nil_left_iff.mp hrest, hm.eq_of_solo ht he]
          simpa [hsame] using ihr

/-- **A layer that only rewrites text** projects the history. -/
theorem projects_of_edited (hms : ProtocolValid ms) (h : Forall₂ (Edited Rejected) ms out) :
    Projects Rejected k ms out := by
  have hg := groups_edited h
  have hlen := hg.length_eq
  refine ⟨?_, ⟨_, List.Sublist.refl _, ?_⟩, List.forall₂_take 1 hg, ?_, ?_⟩
  · exact forall_mem_of_forall₂ (fun _ _ he hv => hv.edited he) hg hms
  · exact List.rel_filter (fun _ _ he => by simp [isExchange_edited he]) hg
  · have htail : ∀ gs : List Group, gs.tail = gs.drop 1 := fun gs => by cases gs <;> rfl
    simp only [recentGroups, htail, List.length_drop, ← hlen]
    exact List.forall₂_drop _ (List.forall₂_drop 1 hg)
  · rw [pinnedSolos_edited hms hg]

@[simp] theorem pinnedSolos_append (gs gs' : List Group) :
    pinnedSolos (gs ++ gs') = pinnedSolos gs ++ pinnedSolos gs' := by
  simp [pinnedSolos]

/-- **A layer that replaces groups of the open middle** projects the history,
when the replacement is well formed, its exchanges are exchanges it replaced,
and it loses no pinned source. -/
theorem projects_of_rewrite {lead mid mid' tail : List Group} (hms : ProtocolValid ms)
    (hgroups : groups ms = lead ++ mid ++ tail) (hlead : 1 ≤ lead.length) (htail : k ≤ tail.length)
    (hvalid : ∀ g ∈ mid', GroupValid g)
    (hexch : (mid'.filter isExchange).Sublist (mid.filter isExchange))
    (hpinned : (pinnedSolos mid).Sublist (pinnedSolos mid')) :
    Projects Rejected k ms (lead ++ mid' ++ tail).flatten := by
  have hall : ∀ g ∈ lead ++ mid' ++ tail, GroupValid g := by
    intro g hg
    simp only [List.mem_append] at hg
    rcases hg with (hg | hg) | hg
    · exact hms g (by simp [hgroups, hg])
    · exact hvalid g hg
    · exact hms g (by simp [hgroups, hg])
  have hout := groups_flatten hall
  obtain ⟨first, lead, rfl⟩ : ∃ first rest, lead = first :: rest := by
    cases lead with
    | nil => simp at hlead
    | cons first rest => exact ⟨first, rest, rfl⟩
  refine ⟨protocolValid_flatten hall, ?_, ?_, ?_, ?_⟩
  · refine ⟨exchanges (((first :: lead) ++ mid' ++ tail).flatten), ?_, forall₂_editedGroup_refl _⟩
    simp only [OpenCollab.exchanges, hout, hgroups, List.filter_append]
    exact ((List.Sublist.refl _).append hexch).append (List.Sublist.refl _)
  · rw [hout, hgroups]
    exact forall₂_editedGroup_refl [first]
  · have hrecent : ∀ mids : List Group,
        ((first :: lead ++ mids ++ tail).tail.drop
          ((first :: lead ++ mids ++ tail).tail.length - k)) = tail.drop (tail.length - k) := by
      intro mids
      have hsplit : (first :: lead ++ mids ++ tail).tail = (lead ++ mids) ++ tail := rfl
      have hdrop : (lead ++ mids ++ tail).length - k =
          (lead ++ mids).length + (tail.length - k) := by
        rw [List.length_append]
        omega
      rw [hsplit, hdrop, List.drop_length_add_append]
    simp only [recentGroups, hout, hgroups, hrecent]
    exact forall₂_editedGroup_refl _
  · rw [hout, hgroups]
    simp only [pinnedSolos_append]
    exact ((List.Sublist.refl _).append hpinned).append (List.Sublist.refl _)

end OpenCollab
