import OpenCollab.Shaping.Reactive

/-!
# OpenCollab.Shaping.Snip

`OldHistorySnipShaper` (`shaping/reactive.py`): above the trigger, whole old
tool exchanges are dropped, oldest first, until the running estimate reaches the
target.  An assistant turn that also said something keeps its text: it is
replaced by a copy without its calls.

The code collects message *indices* (`drop`, `replacements`) from group spans
and filters the history by index.  `Fate` says what has happened to one group,
`snipLoop_fates` that after the loop every group is untouched, dropped or
stripped as a whole, and `Snipped` is the resulting relation on groups.
-/

namespace OpenCollab

open List (Forall₂)
open Segments

/-! ## a turn without its calls -/

/-- `not isinstance(item, dict) or item.get("type") != kind`. -/
def hasNotType (kind : String) (item : Json) : Bool :=
  !item.isObj || decide (item.get "type" ≠ .str kind)

/-- The provider state of a turn whose calls are removed. -/
def providerStateWithoutCalls (state : Json) : Json :=
  match (state.get "anthropic_content").asArr? with
  | none => state
  | some blocks => state.set "anthropic_content" (.arr (blocks.filter (hasNotType "tool_use")))

/-- The replacement of an assistant turn: everything but its calls. -/
def withoutCalls (m : Message) : Message :=
  { m with
    toolCalls := []
    responseItems := m.responseItems.map (·.filter (hasNotType "function_call"))
    providerState := providerStateWithoutCalls m.providerState }

/-- The same for the dict: the items that stay are shared. -/
def objWithoutCalls (st : Store) (obj : MessageObj) : MessageObj :=
  { obj with
    toolCalls := []
    responseItems := obj.responseItems.map
      (·.filter fun i => (st.items[i]?).all (hasNotType "function_call"))
    providerState := providerStateWithoutCalls obj.providerState }

theorem shallow_objWithoutCalls (st : Store) : Store.Shallow (objWithoutCalls st) := by
  intro obj calls items h
  refine ⟨by simp [objWithoutCalls], fun i hi => h.items i ?_⟩
  cases hr : obj.responseItems with
  | none => simp [objWithoutCalls, hr] at hi
  | some refs =>
      simp only [objWithoutCalls, hr, Option.map_some, Option.getD_some, List.mem_filter] at hi
      exact hi.1

theorem filterMap_filter_all {α : Type} (p : α → Bool) (get : Ref → Option α) (refs : List Ref) :
    (refs.filter fun i => (get i).all p).filterMap get = (refs.filterMap get).filter p := by
  induction refs with
  | nil => rfl
  | cons i refs ih =>
      cases h : get i with
      | none => simp [h, ih]
      | some x => cases hp : p x <;> simp [h, hp, ih]

theorem deref_objWithoutCalls (st : Store) (obj : MessageObj) :
    st.deref (objWithoutCalls st obj) = withoutCalls (st.deref obj) := by
  cases h : obj.responseItems with
  | none => simp [Store.deref, objWithoutCalls, withoutCalls, h]
  | some refs =>
      simp [Store.deref, objWithoutCalls, withoutCalls, h, filterMap_filter_all]

/-! ## the layer -/

/-- `OldHistorySnipShaper`, which adds nothing to the shared fields. -/
structure OldHistorySnipShaper extends ReactiveHistoryShaper

namespace OldHistorySnipShaper

/-- The loop's accumulators: the running estimate, the indices to drop, and the
leaders to replace. -/
structure SnipState where
  running : Int
  drop : List Nat := []
  replaced : List Nat := []

/-- Python truthiness of `message.get("content")`. -/
def hasContent (m : Message) : Bool := (m.content.map Json.truthy).getD false

/-- `leader.get("reasoning_content") or leader.get("reasoning")` is not empty. -/
def hasReasoning (m : Message) : Bool :=
  m.reasoningContent.any (· ≠ "") || m.reasoning.any (· ≠ "")

/-- The exchange at `span` may go: it is complete, and provider-signed reasoning
without text is not split. -/
def maySnip (messages : List Message) (span : Nat × Nat) (leader : Message) : Bool :=
  leader.opensExchange && isCompleteToolExchange messages span &&
    (!hasReasoning leader || hasContent leader)

/-- Drop or strip the exchange at `span`. -/
def snipExchange (cfg : OldHistorySnipShaper) (messages : List Message) (span : Nat × Nat)
    (leader : Message) (s : SnipState) : SnipState :=
  let removed := cfg.estimate (slice messages span.1 span.2)
  if hasContent leader then
    let retained := cfg.estimate [withoutCalls leader]
    { running := s.running - max 0 (removed - retained)
      drop := s.drop ++ List.range' (span.1 + 1) (span.2 - (span.1 + 1))
      replaced := s.replaced ++ [span.1] }
  else
    { running := s.running - max 0 removed
      drop := s.drop ++ List.range' span.1 (span.2 - span.1)
      replaced := s.replaced }

/-- `for gi in range(gi, gi + n)`, with the early exit at the target. -/
def snipLoop (cfg : OldHistorySnipShaper) (messages : List Message) (spans : List (Nat × Nat))
    (gi : Nat) : (n : Nat) → SnipState → SnipState
  | 0, s => s
  | n + 1, s =>
      let span := spanAt spans gi
      let leader := messages[span.1]?.getD default
      if !maySnip messages span leader then cfg.snipLoop messages spans (gi + 1) n s
      else
        let s := cfg.snipExchange messages span leader s
        if s.running ≤ cfg.targetTokens then s
        else cfg.snipLoop messages spans (gi + 1) n s

/-- The final comprehension: dropped indices are skipped, replaced leaders are
new dicts, all other messages are the same objects. -/
def emit (s : SnipState) : (index : Nat) → List Ref → Store → List Ref × Store
  | _, [], st => ([], st)
  | index, r :: rest, st =>
      if s.drop.contains index then emit s (index + 1) rest st
      else if s.replaced.contains index then
        let (r', st) := st.copyWith r (objWithoutCalls st) (shallow_objWithoutCalls st)
        let (rest', st) := emit s (index + 1) rest st
        (r' :: rest', st)
      else
        let (rest', st) := emit s (index + 1) rest st
        (r :: rest', st)

/-- `OldHistorySnipShaper.shape`. -/
def shape (cfg : OldHistorySnipShaper) (forcedIds : List Nat) (refs : List Ref) (st : Store) :
    List Ref × Store :=
  let messages := st.view refs
  if !cfg.overTrigger forcedIds messages then (refs, st)
  else
    let (spans, lo, hi) := droppableRegion messages cfg.keepRecentGroups
    if hi ≤ lo then (refs, st)
    else
      let s := cfg.snipLoop messages spans lo (hi - lo) { running := cfg.estimate messages }
      emit s 0 refs st

/-! ## the comprehension, on message values -/

/-- What the comprehension makes of the messages from `index` on. -/
def emitValues (s : SnipState) : (index : Nat) → List Message → List Message
  | _, [] => []
  | index, m :: rest =>
      if s.drop.contains index then emitValues s (index + 1) rest
      else if s.replaced.contains index then withoutCalls m :: emitValues s (index + 1) rest
      else m :: emitValues s (index + 1) rest

variable {st : Store} {refs : List Ref}

theorem emit_spec (s : SnipState) (index : Nat) (hrefs : st.Has refs) :
    st.Extends (emit s index refs st).2 ∧
      (emit s index refs st).2.Has (emit s index refs st).1 ∧
      (emit s index refs st).2.view (emit s index refs st).1 =
        emitValues s index (st.view refs) := by
  induction refs generalizing index st with
  | nil => exact ⟨Store.Extends.refl st, hrefs, rfl⟩
  | cons r rest ih =>
      have hr := hrefs r List.mem_cons_self
      have hrest : st.Has rest := fun x hx => hrefs x (List.mem_cons_of_mem r hx)
      simp only [emit, Store.view, List.map_cons, emitValues]
      split
      · exact ih (index + 1) hrest
      · split
        · obtain ⟨hext, hlt, hread⟩ := st.copyWith_spec _ (shallow_objWithoutCalls st) hr
          obtain ⟨hext', hhas', hview'⟩ := ih (index + 1) (hrest.mono hext)
          refine ⟨hext.trans hext', ?_, ?_⟩
          · intro x hx
            cases List.mem_cons.mp hx with
            | inl hx => rw [hx]; exact Nat.lt_of_lt_of_le hlt hext'.length_le.1
            | inr hx => exact hhas' x hx
          · rw [Store.view_of_extends hext hrest] at hview'
            rw [Store.view, Store.view] at hview'
            rw [List.map_cons, hview', Store.read_of_extends hext' hlt, hread,
              deref_objWithoutCalls, st.read_getElem hr]
        · obtain ⟨hext', hhas', hview'⟩ := ih (index + 1) hrest
          refine ⟨hext', ?_, ?_⟩
          · intro x hx
            cases List.mem_cons.mp hx with
            | inl hx => rw [hx]; exact Nat.lt_of_lt_of_le hr hext'.length_le.1
            | inr hx => exact hhas' x hx
          · rw [Store.view, Store.view] at hview'
            rw [List.map_cons, hview', Store.read_of_extends hext' hr]

theorem emitValues_append (s : SnipState) (index : Nat) (a b : List Message) :
    emitValues s index (a ++ b) = emitValues s index a ++ emitValues s (index + a.length) b := by
  induction a generalizing index with
  | nil => rfl
  | cons m a ih =>
      have hlen : index + (m :: a).length = index + 1 + a.length := by simp; omega
      simp only [List.cons_append, emitValues, ih, hlen]
      split
      · rfl
      · split <;> rfl

/-- Indices that were not collected are kept. -/
theorem emitValues_untouched (s : SnipState) (index : Nat) (ms : List Message)
    (h : ∀ i, index ≤ i → i < index + ms.length → i ∉ s.drop ∧ i ∉ s.replaced) :
    emitValues s index ms = ms := by
  induction ms generalizing index with
  | nil => rfl
  | cons m ms ih =>
      obtain ⟨hd, hr⟩ := h index (Nat.le_refl _) (by simp)
      have hrest := ih (index + 1) fun i hi hi' => h i (by omega) (by simp; omega)
      simp [emitValues, hd, hr, hrest]

/-- Indices collected for dropping disappear. -/
theorem emitValues_dropped (s : SnipState) (index : Nat) (ms : List Message)
    (h : ∀ i, index ≤ i → i < index + ms.length → i ∈ s.drop) : emitValues s index ms = [] := by
  induction ms generalizing index with
  | nil => rfl
  | cons m ms ih =>
      have hd := h index (Nat.le_refl _) (by simp)
      have hrest := ih (index + 1) fun i hi hi' => h i (by omega) (by simp; omega)
      simp [emitValues, hd, hrest]

/-! ## what happens to a group -/

/-- No index of the range has been collected. -/
def Untouched (s : SnipState) (start stop : Nat) : Prop :=
  ∀ i, start ≤ i → i < stop → i ∉ s.drop ∧ i ∉ s.replaced

/-- A group is untouched, or it is an exchange that is dropped as a whole, or
one whose leader is replaced and whose results are dropped. -/
inductive Fate (s : SnipState) (start stop : Nat) (g : Group) : Prop where
  | untouched (h : Untouched s start stop)
  | dropped (hexch : isExchange g = true) (h : ∀ i, start ≤ i → i < stop → i ∈ s.drop)
  | stripped (hexch : isExchange g = true) (hkept : start ∉ s.drop) (hrep : start ∈ s.replaced)
      (h : ∀ i, start < i → i < stop → i ∈ s.drop)

/-- The exchange at a span, and nothing outside it, is collected. -/
theorem snipExchange_outside (cfg : OldHistorySnipShaper) (messages : List Message)
    (span : Nat × Nat) (leader : Message) (s : SnipState) (h : i < span.1 ∨ span.2 ≤ i)
    (hspan : span.1 < span.2) :
    (i ∈ (cfg.snipExchange messages span leader s).drop ↔ i ∈ s.drop) ∧
      (i ∈ (cfg.snipExchange messages span leader s).replaced ↔ i ∈ s.replaced) := by
  unfold snipExchange
  split
  · have hresults : ¬(span.1 + 1 ≤ i ∧ i < span.1 + 1 + (span.2 - (span.1 + 1))) := by omega
    have hleader : i ≠ span.1 := by omega
    simp only [List.mem_append, List.mem_range'_1, List.mem_singleton, hresults, hleader, or_false,
      and_self]
  · have hall : ¬(span.1 ≤ i ∧ i < span.1 + (span.2 - span.1)) := by omega
    simp only [List.mem_append, List.mem_range'_1, hall, or_false, and_self]

theorem snipExchange_fate (cfg : OldHistorySnipShaper) (messages : List Message)
    (span : Nat × Nat) (leader : Message) (s : SnipState) (hspan : span.1 < span.2)
    (hexch : isExchange g = true) (h : Untouched s span.1 span.2) :
    Fate (cfg.snipExchange messages span leader s) span.1 span.2 g := by
  have hstart := h span.1 (Nat.le_refl _) hspan
  unfold snipExchange
  split
  · refine .stripped hexch ?_ ?_ fun i hi hi' => ?_
    · simp only [List.mem_append, List.mem_range'_1, not_or]
      exact ⟨hstart.1, by omega⟩
    · simp
    · exact List.mem_append_right _ (List.mem_range'_1.mpr (by omega))
  · refine .dropped hexch fun i hi hi' => ?_
    exact List.mem_append_right _ (List.mem_range'_1.mpr (by omega))

/-! ## the loop decides group by group -/

/-- The fates of all groups when the loop has decided those in `[lo, k)`. -/
structure Fates (s : SnipState) (gs : List Group) (lo k : Nat) : Prop where
  inside : ∀ j (hj : j < gs.length), lo ≤ j → j < k →
    Fate s (startOf 0 gs j) (startOf 0 gs (j + 1)) gs[j]
  outside : ∀ j, j < gs.length → ¬(lo ≤ j ∧ j < k) →
    Untouched s (startOf 0 gs j) (startOf 0 gs (j + 1))

variable {s : SnipState} {gs : List Group} {lo k k' : Nat}

/-- A group the loop passes over is untouched. -/
theorem Fates.mono (h : Fates s gs lo k) (hk : k ≤ k') : Fates s gs lo k' := by
  refine ⟨fun j hj hlo hlt => ?_, fun j hj hout => ?_⟩
  · by_cases hjk : j < k
    · exact h.inside j hj hlo hjk
    · exact .untouched (h.outside j hj (by omega))
  · exact h.outside j hj (by omega)

/-- A fate depends only on the indices of its own group. -/
theorem Fate.congr {s' : SnipState} {g : Group} (h : Fate s start stop g)
    (hsame : ∀ i, start ≤ i → i < stop →
      (i ∈ s'.drop ↔ i ∈ s.drop) ∧ (i ∈ s'.replaced ↔ i ∈ s.replaced))
    (hspan : start < stop) : Fate s' start stop g := by
  cases h with
  | untouched h =>
      refine .untouched fun i hi hi' => ?_
      rw [(hsame i hi hi').1, (hsame i hi hi').2]
      exact h i hi hi'
  | dropped hexch h => exact .dropped hexch fun i hi hi' => (hsame i hi hi').1.mpr (h i hi hi')
  | stripped hexch hkept hrep h =>
      have hs := hsame start (Nat.le_refl _) hspan
      exact .stripped hexch (fun hd => hkept (hs.1.mp hd)) (hs.2.mpr hrep)
        fun i hi hi' => (hsame i (Nat.le_of_lt hi) hi').1.mpr (h i hi hi')

/-- A span with something in it. -/
theorem startOf_lt (hgs : ∀ g ∈ gs, GroupValid g) (hj : j < gs.length) :
    startOf 0 gs j < startOf 0 gs (j + 1) := by
  obtain ⟨m, rest, hg, _⟩ := (hgs gs[j] (List.getElem_mem hj)).head
  have hne : 0 < gs[j].length := by simp [hg]
  simp only [startOf, List.take_succ_eq_append_getElem hj, List.flatten_append,
    List.length_append, List.flatten_cons, List.flatten_nil, List.append_nil]
  omega

/-- **One step of the loop**: the group decided now changes fate, no other. -/
theorem Fates.snip (hgs : ∀ g ∈ gs, GroupValid g) (h : Fates s gs lo gi) (hlo : lo ≤ gi)
    (hgi : gi < gs.length) (hexch : isExchange gs[gi] = true) (cfg : OldHistorySnipShaper)
    (messages : List Message) (leader : Message) :
    Fates (cfg.snipExchange messages (startOf 0 gs gi, startOf 0 gs (gi + 1)) leader s)
      gs lo (gi + 1) := by
  have hspan := startOf_lt hgs hgi
  have hother : ∀ j, j < gs.length → j ≠ gi → ∀ i, startOf 0 gs j ≤ i → i < startOf 0 gs (j + 1) →
      i < startOf 0 gs gi ∨ startOf 0 gs (gi + 1) ≤ i := by
    intro j hj hne i hi hi'
    rcases Nat.lt_or_gt_of_ne hne with hlt | hgt
    · have := startOf_mono 0 gs (show j + 1 ≤ gi from hlt)
      exact .inl (by omega)
    · have := startOf_mono 0 gs (show gi + 1 ≤ j from hgt)
      exact .inr (by omega)
  refine ⟨fun j hj hjlo hlt => ?_, fun j hj hout i hi hi' => ?_⟩
  · by_cases hjgi : j = gi
    · subst hjgi
      exact snipExchange_fate cfg messages (_, _) leader s hspan hexch
        (h.outside j hj (by omega))
    · refine (h.inside j hj hjlo (by omega)).congr (fun i hi hi' => ?_) (startOf_lt hgs hj)
      exact snipExchange_outside cfg messages (_, _) leader s (hother j hj hjgi i hi hi') hspan
  · have hjgi : j ≠ gi := by omega
    have hsame := snipExchange_outside cfg messages (startOf 0 gs gi, startOf 0 gs (gi + 1)) leader
      s (hother j hj hjgi i hi hi') hspan
    rw [hsame.1, hsame.2]
    exact h.outside j hj (by omega) i hi hi'

/-- **The loop decides group by group.** -/
theorem snipLoop_fates (cfg : OldHistorySnipShaper) (ms : List Message) (hms : ProtocolValid ms)
    (n : Nat) (hn : gi + n ≤ (groups ms).length) (hlo : lo ≤ gi)
    (h : Fates s (groups ms) lo gi) :
    Fates (cfg.snipLoop ms (groupSpans ms) gi n s) (groups ms) lo (gi + n) := by
  induction n generalizing gi s with
  | zero => exact h
  | succ n ih =>
      have hgi : gi < (groups ms).length := by omega
      have hstep : gi + (n + 1) = gi + 1 + n := by omega
      simp only [snipLoop, spanAt_groupSpans ms hgi]
      split
      · rw [hstep]
        exact ih (by omega) (by omega) (h.mono (Nat.le_succ gi))
      · next hmay =>
          have hexch : isExchange (groups ms)[gi] = true := by
            obtain ⟨m, rest, hg, _⟩ := (hms _ (List.getElem_mem hgi)).head
            rw [getElem?_startOf ms hgi, hg] at hmay
            simp only [maySnip, Bool.not_eq_true', Bool.not_eq_false, Bool.and_eq_true] at hmay
            rw [hg]
            exact hmay.1.1
          have hnext := h.snip hms hlo hgi hexch cfg ms
            (ms[startOf 0 (groups ms) gi]?.getD default)
          split
          · exact hnext.mono (by omega)
          · rw [hstep]
            exact ih (by omega) (by omega) hnext

/-! ## the view, group by group -/

/-- What the layer makes of a run of groups: exchanges may be dropped, or keep
only what their leader said. -/
inductive Snipped : List Group → List Group → Prop where
  | nil : Snipped [] []
  | keep {g : Group} {gs gs' : List Group} (h : Snipped gs gs') : Snipped (g :: gs) (g :: gs')
  | drop {g : Group} {gs gs' : List Group} (hexch : isExchange g = true) (h : Snipped gs gs') :
      Snipped (g :: gs) gs'
  | strip {m : Message} {rest : List Message} {gs gs' : List Group}
      (hexch : m.opensExchange = true) (h : Snipped gs gs') :
      Snipped ((m :: rest) :: gs) ([withoutCalls m] :: gs')

theorem emitValues_flatten_untouched (o : Nat)
    (h : ∀ j, j < gs.length → Untouched s (startOf o gs j) (startOf o gs (j + 1))) :
    emitValues s o gs.flatten = gs.flatten := by
  induction gs generalizing o with
  | nil => rfl
  | cons g gs ih =>
      have hg := h 0 (by simp)
      have hrest := ih (o + g.length) fun j hj => by
        have := h (j + 1) (by simpa using hj)
        rwa [startOf_cons_succ, startOf_cons_succ] at this
      simp only [startOf_zero, startOf_cons_succ] at hg
      rw [List.flatten_cons, emitValues_append, hrest, emitValues_untouched s o g hg]

/-- The comprehension realizes the fates. -/
theorem exists_snipped (hgs : ∀ g ∈ gs, GroupValid g) (o : Nat)
    (h : ∀ j (hj : j < gs.length), Fate s (startOf o gs j) (startOf o gs (j + 1)) gs[j]) :
    ∃ gs', Snipped gs gs' ∧ emitValues s o gs.flatten = gs'.flatten := by
  induction gs generalizing o with
  | nil => exact ⟨[], .nil, rfl⟩
  | cons g gs ih =>
      have hg := h 0 (by simp)
      obtain ⟨gs', hsnip, hemit⟩ := ih (fun x hx => hgs x (List.mem_cons_of_mem g hx))
        (o + g.length) fun j hj => by
          have := h (j + 1) (by simpa using hj)
          rwa [startOf_cons_succ, startOf_cons_succ] at this
      simp only [startOf_zero, startOf_cons_succ, List.getElem_cons_zero] at hg
      rw [List.flatten_cons, emitValues_append, hemit]
      cases hg with
      | untouched hg =>
          exact ⟨g :: gs', .keep hsnip, by rw [emitValues_untouched s o g hg, List.flatten_cons]⟩
      | dropped hexch hg =>
          exact ⟨gs', .drop hexch hsnip, by rw [emitValues_dropped s o g hg, List.nil_append]⟩
      | stripped hexch hkept hrep hg =>
          obtain ⟨m, rest, rfl, _⟩ := (hgs g List.mem_cons_self).head
          refine ⟨[withoutCalls m] :: gs', .strip hexch hsnip, ?_⟩
          have hrest := emitValues_dropped s (o + 1) rest fun i hi hi' =>
            hg i (by omega) (by simp only [List.length_cons]; omega)
          simp [emitValues, hkept, hrep, hrest]

/-- **The comprehension rewrites the decided run of groups** and keeps the
groups on both sides of it. -/
theorem emitValues_fates {lead mid tail : List Group}
    (hgs : ∀ g ∈ lead ++ mid ++ tail, GroupValid g)
    (h : Fates s (lead ++ mid ++ tail) lead.length (lead.length + mid.length)) :
    ∃ mid', Snipped mid mid' ∧
      emitValues s 0 (lead ++ mid ++ tail).flatten = (lead ++ mid' ++ tail).flatten := by
  have hall : lead ++ mid ++ tail = lead ++ (mid ++ tail) := List.append_assoc _ _ _
  have hlead : emitValues s 0 lead.flatten = lead.flatten := by
    refine emitValues_flatten_untouched 0 fun j hj => ?_
    have hout := h.outside j (by simp only [List.length_append]; omega) (by omega)
    rwa [hall, startOf_append_left _ _ _ (by omega), startOf_append_left _ _ _ (by omega)] at hout
  have htail : emitValues s (lead ++ mid).flatten.length tail.flatten = tail.flatten := by
    refine emitValues_flatten_untouched _ fun j hj => ?_
    have hout := h.outside ((lead ++ mid).length + j) (by simp only [List.length_append]; omega)
      (by simp only [List.length_append]; omega)
    rwa [Nat.add_assoc, startOf_append_right, startOf_append_right, Nat.zero_add] at hout
  have hfate : ∀ j (hj : j < mid.length), Fate s (startOf lead.flatten.length mid j)
      (startOf lead.flatten.length mid (j + 1)) mid[j] := by
    intro j hj
    have hlt : lead.length + j < (lead ++ mid ++ tail).length := by
      simp only [List.length_append]
      omega
    have hin := h.inside (lead.length + j) hlt (by omega) (by omega)
    have hget : (lead ++ mid ++ tail)[lead.length + j] = mid[j] := by
      rw [List.getElem_append_left (by simp only [List.length_append]; omega),
        List.getElem_append_right (by omega)]
      simp
    rw [hget] at hin
    rwa [hall, Nat.add_assoc, startOf_append_right, startOf_append_right, Nat.zero_add,
      startOf_append_left _ _ _ (by omega), startOf_append_left _ _ _ (by omega)] at hin
  obtain ⟨mid', hsnip, hmid⟩ := exists_snipped (fun g hg => hgs g (by simp [hg])) _ hfate
  refine ⟨mid', hsnip, ?_⟩
  rw [List.flatten_append, emitValues_append, Nat.zero_add, htail, List.flatten_append,
    emitValues_append, Nat.zero_add, hlead, hmid, List.flatten_append, List.flatten_append]

theorem opensExchange_withoutCalls (m : Message) : (withoutCalls m).opensExchange = false := by
  simp [Message.opensExchange, withoutCalls]

theorem Snipped.valid (h : Snipped gs gs') (hgs : ∀ g ∈ gs, GroupValid g) :
    ∀ g ∈ gs', GroupValid g := by
  induction h with
  | nil => exact hgs
  | keep _ ih =>
      intro x hx
      cases List.mem_cons.mp hx with
      | inl hx => exact hgs x (hx ▸ List.mem_cons_self)
      | inr hx => exact ih (fun y hy => hgs y (List.mem_cons_of_mem _ hy)) x hx
  | drop _ _ ih => exact ih fun y hy => hgs y (List.mem_cons_of_mem _ hy)
  | @strip m rest _ _ hexch _ ih =>
      intro x hx
      cases List.mem_cons.mp hx with
      | inl hx =>
          rw [hx]
          exact groupValid_solo (opensExchange_withoutCalls m)
            (Message.isTool_of_opensExchange m hexch)
      | inr hx => exact ih (fun y hy => hgs y (List.mem_cons_of_mem _ hy)) x hx

/-- Only exchanges of the history are left, in order. -/
theorem Snipped.exchanges (h : Snipped gs gs') :
    (gs'.filter isExchange).Sublist (gs.filter isExchange) := by
  induction h with
  | nil => exact List.Sublist.slnil
  | @keep g _ _ _ ih =>
      simp only [List.filter_cons]
      split
      · exact ih.cons_cons g
      · exact ih
  | @drop g _ _ hexch _ ih =>
      simp only [List.filter_cons, hexch, if_true]
      exact ih.cons g
  | @strip m rest _ _ hexch _ ih =>
      have hsolo : isExchange [withoutCalls m] = false := opensExchange_withoutCalls m
      have hopen : isExchange (m :: rest) = true := hexch
      simp only [List.filter_cons, hsolo, hopen, if_true]
      exact ih.cons _

/-- No pinned source is lost. -/
theorem Snipped.pinned (h : Snipped gs gs') : (pinnedSolos gs).Sublist (pinnedSolos gs') := by
  have hcons : ∀ (g : Group) (gs : List Group),
      pinnedSolos (g :: gs) = pinnedSolos [g] ++ pinnedSolos gs := fun g gs =>
    pinnedSolos_append [g] gs
  have hexchange : ∀ g : Group, isExchange g = true → pinnedSolos [g] = [] := fun g hg => by
    simp [pinnedSolos, hg]
  induction h with
  | nil => exact List.Sublist.refl _
  | @keep g gs gs' _ ih =>
      rw [hcons g gs, hcons g gs']
      exact (List.Sublist.refl _).append ih
  | @drop g gs _ hexch _ ih =>
      rw [hcons g gs, hexchange g hexch]
      exact ih
  | @strip m rest gs gs' hexch _ ih =>
      have hopen : isExchange (m :: rest) = true := hexch
      rw [hcons (m :: rest) gs, hexchange _ hopen, hcons _ gs']
      exact ih.trans (List.sublist_append_right _ _)

/-! ## the layer projects the history -/

/-- **Snipping drops or strips whole exchanges of the open middle** and touches
no cell of the caller. -/
theorem shape_spec {Rejected : String → Prop} (cfg : OldHistorySnipShaper) (forcedIds : List Nat)
    (hrefs : st.Has refs) (hvalid : ProtocolValid (st.view refs)) (hk : k ≤ cfg.keepRecentGroups) :
    let out := cfg.shape forcedIds refs st
    st.Extends out.2 ∧ out.2.Has out.1 ∧
      Projects Rejected k (st.view refs) (out.2.view out.1) := by
  intro out
  have hsame : st.Extends st ∧ st.Has refs ∧ Projects Rejected k (st.view refs) (st.view refs) :=
    ⟨Store.Extends.refl st, hrefs, Projects.refl hvalid⟩
  simp only [out, shape]
  split
  · exact hsame
  · split
    · exact hsame
    · next hover hregion =>
        obtain ⟨hlo, hhi⟩ := droppableRegion_spec _ _ (Nat.lt_of_not_le hregion)
        rw [hlo] at hregion ⊢
        generalize (droppableRegion (st.view refs) cfg.keepRecentGroups).2.2 = hi at *
        have hspans : (droppableRegion (st.view refs) cfg.keepRecentGroups).1 =
            groupSpans (st.view refs) := rfl
        rw [hspans]
        generalize hs : cfg.snipLoop (st.view refs) (groupSpans (st.view refs)) 1 (hi - 1)
          { running := cfg.estimate (st.view refs) } = s
        obtain ⟨hext, hhas, hview⟩ := emit_spec s 0 hrefs
        refine ⟨hext, hhas, ?_⟩
        -- the history, cut at the region
        obtain ⟨lead, mid, tail, hgroups, hlead, hmid⟩ : ∃ lead mid tail,
            groups (st.view refs) = lead ++ mid ++ tail ∧ lead.length = 1 ∧
              lead.length + mid.length = hi := by
          refine ⟨(groups (st.view refs)).take 1, ((groups (st.view refs)).take hi).drop 1,
            (groups (st.view refs)).drop hi, ?_, ?_, ?_⟩
          · have htake : (groups (st.view refs)).take 1 =
                ((groups (st.view refs)).take hi).take 1 := by
              rw [List.take_take, Nat.min_eq_left (by omega)]
            rw [htake, List.take_append_drop, List.take_append_drop]
          · simp; omega
          · simp; omega
        have hinit : Fates { running := cfg.estimate (st.view refs) } (groups (st.view refs)) 1 1 :=
          ⟨fun _ _ _ _ => by omega, fun _ _ _ _ _ _ => ⟨List.not_mem_nil, List.not_mem_nil⟩⟩
        have hfates := snipLoop_fates cfg (st.view refs) hvalid (hi - 1) (by omega)
          (Nat.le_refl 1) hinit
        rw [hs, hgroups, show 1 + (hi - 1) = lead.length + mid.length by omega, ← hlead] at hfates
        obtain ⟨mid', hsnip, hemit⟩ := emitValues_fates (hgroups ▸ hvalid) hfates
        rw [← hgroups, flatten_groups] at hemit
        rw [hview, hemit]
        have hmidValid : ∀ g ∈ mid, GroupValid g := fun g hg => hvalid g (by simp [hgroups, hg])
        refine projects_of_rewrite hvalid hgroups (by omega) ?_ (hsnip.valid hmidValid)
          hsnip.exchanges hsnip.pinned
        have := congrArg List.length hgroups
        simp only [List.length_append] at this
        omega

end OldHistorySnipShaper

end OpenCollab
