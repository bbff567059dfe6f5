import Mathlib.Data.List.Sort
import OpenCollab.Provider.ResponsesStream

/-!
# OpenCollab.Provider.ResponsesReceived

What a Responses stream has delivered.  `itemDone` and `pendingFragments` read the events
alone: the item finished at an index, and the fragments of arguments that arrived there
since the last finished call.  `Progress` says that the state holds just these:

* `Progress.handle` — one event keeps it;
* `outputItems_eq` — the items of a state stand in the order of their indices.

`Received` relates a state to the terminal items, and `Conforming` says which events a
stream for them consists of:

* `drainStream_conforming` — such a stream is drained into a state that received the
  items;
* `acceptItems_received` — and so are the items of a whole object.
-/

namespace OpenCollab.Responses

open Lib (Dict)

variable {items : List Json} {state state' : StreamState}

/-! ## the items of a state -/

/-- The entries of the indices below a bound, in order. -/
def entriesBelow (d : Dict Int Json) (n : Nat) : List (Int × Json) :=
  (List.range n).filterMap fun (i : Nat) => (d.get? i).map fun item => ((i : Int), item)

theorem mem_entriesBelow {d : Dict Int Json} {n : Nat} {e : Int × Json} :
    e ∈ entriesBelow d n ↔ ∃ i : Nat, i < n ∧ d.get? i = some e.2 ∧ (i : Int) = e.1 := by
  simp only [entriesBelow, List.mem_filterMap, List.mem_range, Option.map_eq_some_iff]
  constructor
  · rintro ⟨i, hi, item, hget, he⟩
    subst he
    exact ⟨i, hi, hget, rfl⟩
  · rintro ⟨i, hi, hget, he⟩
    exact ⟨i, hi, e.2, hget, by rw [he]⟩

theorem pairwise_entriesBelow (d : Dict Int Json) (n : Nat) :
    (entriesBelow d n).Pairwise fun a b => a.1 < b.1 := by
  refine List.pairwise_filterMap.mpr (List.pairwise_lt_range.imp ?_)
  intro i j hij a ha b hb
  simp only [Option.map_eq_some_iff] at ha hb
  obtain ⟨_, -, rfl⟩ := ha
  obtain ⟨_, -, rfl⟩ := hb
  show (i : Int) < j
  omega

theorem entries_perm_entriesBelow {d : Dict Int Json} {n : Nat}
    (hkeys : ∀ index item, d.get? index = some item → 0 ≤ index ∧ index.toNat < n) :
    d.entries.Perm (entriesBelow d n) := by
  have hnodup : (entriesBelow d n).Nodup := (pairwise_entriesBelow d n).imp fun hlt he => by
    rw [he] at hlt
    omega
  refine (List.perm_ext_iff_of_nodup (List.Nodup.of_map _ d.nodup) hnodup).mpr fun e => ?_
  rw [mem_entriesBelow]
  constructor
  · intro he
    have hget : d.get? e.1 = some e.2 := Dict.get?_eq_some.mpr he
    obtain ⟨hnonneg, hlt⟩ := hkeys e.1 e.2 hget
    have hcast : (e.1.toNat : Int) = e.1 := by omega
    exact ⟨e.1.toNat, hlt, by rw [hcast, hget], hcast⟩
  · rintro ⟨i, -, hget, he⟩
    rw [he] at hget
    exact Dict.get?_eq_some.mp hget

/-- **The items of a state** in the order of their indices. -/
theorem outputItems_eq {n : Nat} (hkeys : ∀ index item,
      state.outputItemsByIndex.get? index = some item → 0 ≤ index ∧ index.toNat < n) :
    state.outputItems
      = (List.range n).filterMap fun (i : Nat) => state.outputItemsByIndex.get? (i : Int) := by
  have hperm := entries_perm_entriesBelow hkeys
  have hentries : (state.outputItemsByIndex.entries.mergeSort fun a b => a.1 ≤ b.1)
      = entriesBelow state.outputItemsByIndex n := by
    refine @List.Perm.eq_of_pairwise _ (fun a b => a.1 ≤ b.1) _ _ ?_ ?_
      ((pairwise_entriesBelow _ n).imp fun hlt => Int.le_of_lt hlt)
      ((List.mergeSort_perm _ _).trans hperm)
    · intro a b ha hb hab hba
      have hkey : a.1 = b.1 := by omega
      exact List.inj_on_of_nodup_map state.outputItemsByIndex.nodup (List.mem_mergeSort.mp ha)
        (hperm.mem_iff.mpr hb) hkey
    · have hsorted := @List.pairwise_mergeSort _ (fun (a b : Int × Json) => decide (a.1 ≤ b.1))
        (fun a b c hab hbc => by simp only [decide_eq_true_eq] at *; omega)
        (fun a b => by simp only [Bool.or_eq_true, decide_eq_true_eq]; omega)
        state.outputItemsByIndex.entries
      exact hsorted.imp fun h => by simpa using h
  rw [StreamState.outputItems, hentries, entriesBelow, List.map_filterMap]
  refine List.filterMap_congr fun (i : Nat) _ => ?_
  cases state.outputItemsByIndex.get? (i : Int) with
  | none => rfl
  | some item => rfl

theorem mem_outputItems {item : Json} :
    item ∈ state.outputItems ↔ ∃ index, state.outputItemsByIndex.get? index = some item := by
  rw [StreamState.outputItems, List.mem_map]
  constructor
  · intro ⟨e, he, hitem⟩
    exact ⟨e.1, hitem ▸ Dict.get?_eq_some.mpr (List.mem_mergeSort.mp he)⟩
  · intro ⟨index, hget⟩
    exact ⟨(index, item), List.mem_mergeSort.mpr (Dict.get?_eq_some.mp hget), rfl⟩

/-! ## what the events have delivered -/

/-- The item finished at an index. -/
def itemDone (index : Int) (events : List Event) : Option Json :=
  events.findSome? fun
    | .outputItemDone (.int i) item => if i = index then some item else none
    | _ => none

/-- One event's part in the fragments of an index. -/
def collectFragment (index : Int) (fragments : List String) : Event → List String
  | .argumentsDelta (.int i) (.str text) => if i = index then fragments ++ [text] else fragments
  | .outputItemDone (.int i) item =>
      if i = index ∧ hasType item "function_call" then [] else fragments
  | _ => fragments

/-- The fragments that arrived at an index since the last call finished there. -/
def pendingFragments (index : Int) (events : List Event) : List String :=
  events.foldl (collectFragment index) []

theorem pendingFragments_snoc (index : Int) (events : List Event) (event : Event) :
    pendingFragments index (events ++ [event])
      = collectFragment index (pendingFragments index events) event := by
  rw [pendingFragments, List.foldl_append]
  rfl

theorem itemDone_snoc (index : Int) (events : List Event) (event : Event) :
    itemDone index (events ++ [event]) = (itemDone index events).or (itemDone index [event]) := by
  rw [itemDone, List.findSome?_append]
  rfl

/-- The state holds what the events have delivered. -/
structure Progress (events : List Event) (state : StreamState) : Prop where
  done : ∀ index, state.outputItemsByIndex.get? index = itemDone index events
  pending : ∀ index, (state.argumentFragments.get? index).getD [] = pendingFragments index events
  filled : ∀ index, state.argumentFragments.get? index ≠ some []

theorem Progress.start : Progress [] {} where
  done _ := rfl
  pending _ := rfl
  filled _ := nofun

/-! ## one event -/

theorem eq_str_of_asStr? {value : Json} {text : String} (h : value.asStr? = some text) :
    value = .str text := by
  cases value with
  | str s => rw [Option.some.inj h]
  | _ => cases h

theorem eq_int_of_asIndex? {value : Json} {index : Int} (h : asIndex? value = some index) :
    value = .int index := by
  cases value with
  | int n => rw [Option.some.inj h]
  | _ => cases h

/-- An accepted call takes its fragments, which are its arguments. -/
theorem acceptCall_eq_ok {index : Int} {item : Json} {fragments : Dict Int (List String)}
    (h : acceptCall index item state = .ok fragments) :
    fragments = state.argumentFragments.erase index ∧
      ((state.argumentFragments.get? index).getD [] = [] ∨
        item.get "arguments"
          = .str (String.join ((state.argumentFragments.get? index).getD []))) := by
  unfold acceptCall at h
  cases hid : nonEmptyText (item.get "call_id") with
  | none => simp [hid, refuse] at h
  | some callId =>
      simp only [hid, refuse, bind, Except.bind, pure, Except.pure] at h
      split at h
      · cases h
      · cases harguments : (item.get "arguments").asStr? with
        | none => simp [harguments] at h
        | some arguments =>
            simp only [harguments] at h
            split at h
            · cases h
            · rename_i hagree
              split at h
              · refine ⟨(Except.ok.inj h).symm, ?_⟩
                rw [eq_str_of_asStr? harguments]
                grind
              · cases h

/-- What accepting an item does. -/
structure Accepted (index : Int) (item : Json) (state state' : StreamState) : Prop where
  nonneg : 0 ≤ index
  fresh : state.outputItemsByIndex.get? index = none
  items : state'.outputItemsByIndex = state.outputItemsByIndex.set index item
  response : state'.completedResponse = state.completedResponse
  fragments : state'.argumentFragments =
    if hasType item "function_call" then state.argumentFragments.erase index
    else state.argumentFragments
  joined : hasType item "function_call" = true →
    (state.argumentFragments.get? index).getD [] = [] ∨
      item.get "arguments" = .str (String.join ((state.argumentFragments.get? index).getD []))

theorem acceptOutputItem_eq_ok {outputIndex item : Json}
    (h : acceptOutputItem outputIndex item state = .ok state') :
    ∃ index, outputIndex = .int index ∧ Accepted index item state state' := by
  unfold acceptOutputItem at h
  cases hindex : (asIndex? outputIndex).filter (0 ≤ ·) with
  | none => simp [hindex, refuse] at h
  | some index =>
      obtain ⟨hint, hnonneg⟩ := Option.filter_eq_some_iff.mp hindex
      refine ⟨index, eq_int_of_asIndex? hint, ?_⟩
      simp only [hindex, refuse, bind, Except.bind, pure, Except.pure] at h
      split at h
      · cases h
      · rename_i hfresh
        split at h
        · cases h
        · cases hcall : hasType item "function_call" with
          | true =>
              simp only [hcall, if_true] at h
              cases haccept : acceptCall index item state with
              | error e => simp [haccept] at h
              | ok fragments =>
                  simp only [haccept] at h
                  obtain ⟨hfragments, hjoined⟩ := acceptCall_eq_ok haccept
                  rw [← Except.ok.inj h]
                  exact ⟨by simpa using hnonneg, by simpa using hfresh, rfl, rfl,
                    by simp [hcall, hfragments], fun _ => hjoined⟩
          | false =>
              simp only [hcall, Bool.false_eq_true, if_false] at h
              rw [← Except.ok.inj h]
              exact ⟨by simpa using hnonneg, by simpa using hfresh, rfl, rfl, by simp [hcall],
                fun hcall' => absurd (hcall.symm.trans hcall') Bool.false_ne_true⟩

/-- An accepted item is the one of its index from then on. -/
theorem Progress.accept {events : List Event} {index : Int} {item : Json}
    (hp : Progress events state) (h : Accepted index item state state') :
    Progress (events ++ [.outputItemDone (.int index) item]) state' where
  done := by
    intro j
    rw [itemDone_snoc, ← hp.done, h.items]
    by_cases hj : j = index
    · subst hj
      rw [Dict.get?_set_self, h.fresh]
      simp [itemDone]
    · rw [Dict.get?_set_of_ne hj]
      simp [itemDone, Ne.symm hj]
  pending := by
    intro j
    rw [pendingFragments_snoc, ← hp.pending, h.fragments, collectFragment]
    by_cases hcall : hasType item "function_call" = true
    · by_cases hj : j = index
      · subst hj
        simp [hcall, Dict.get?_erase_self]
      · simp [hcall, Dict.get?_erase_of_ne hj, Ne.symm hj]
    · simp [hcall]
  filled := by
    intro j
    rw [h.fragments]
    by_cases hcall : hasType item "function_call" = true
    · rw [if_pos hcall]
      by_cases hj : j = index
      · subst hj
        rw [Dict.get?_erase_self]
        exact (Option.some_ne_none []).symm
      · rw [Dict.get?_erase_of_ne hj]
        exact hp.filled j
    · rw [if_neg hcall]
      exact hp.filled j

/-- A fragment is added to those of its index. -/
theorem Progress.delta {events : List Event} (index : Int) (text : String)
    (hp : Progress events state) :
    Progress (events ++ [.argumentsDelta (.int index) (.str text)])
      { state with
        argumentFragments := state.argumentFragments.set index
          ((state.argumentFragments.get? index).getD [] ++ [text]) } where
  done := by
    intro j
    rw [itemDone_snoc, ← hp.done]
    simp [itemDone]
  pending := by
    intro j
    rw [pendingFragments_snoc, ← hp.pending, collectFragment]
    by_cases hj : j = index
    · subst hj
      simp [Dict.get?_set_self]
    · simp [Dict.get?_set_of_ne hj, Ne.symm hj]
  filled := by
    intro j
    by_cases hj : j = index
    · subst hj
      simp [Dict.get?_set_self]
    · rw [Dict.get?_set_of_ne hj]
      exact hp.filled j

/-- An event that neither finishes an item nor carries a fragment delivers nothing. -/
theorem Progress.other {events : List Event} {event : Event} (hp : Progress events state)
    (hdone : ∀ index, itemDone index [event] = none)
    (hfragment : ∀ index fragments, collectFragment index fragments event = fragments)
    (response : Option Response) :
    Progress (events ++ [event]) { state with completedResponse := response } where
  done := by
    intro j
    rw [itemDone_snoc, hdone, Option.or_none]
    exact hp.done j
  pending := by
    intro j
    rw [pendingFragments_snoc, hfragment]
    exact hp.pending j
  filled := hp.filled

/-- The fragments that arrived for a call are its arguments. -/
def Fits (before : List Event) : Event → Prop
  | .outputItemDone (.int index) item =>
      hasType item "function_call" = true → pendingFragments index before = [] ∨
        item.get "arguments" = .str (String.join (pendingFragments index before))
  | _ => True

/-- **One event** that is handled: its part is added, and a call fits its fragments. -/
theorem Progress.handle {events : List Event} {event : Event} {terminal : Bool}
    (hp : Progress events state) (h : handleEvent state event = .ok (state', terminal)) :
    Progress (events ++ [event]) state' ∧ Fits events event := by
  cases event with
  | failed response error => cases h
  | incomplete response =>
      unfold handleEvent at h
      simp only [bind, Except.bind, pure, Except.pure, throw, throwThe, MonadExceptOf.throw] at h
      split at h
      · cases h
      · split at h
        · cases h
        · rw [← (Prod.mk.inj (Except.ok.inj h)).1]
          exact ⟨hp.other (fun _ => rfl) (fun _ _ => rfl) response, trivial⟩
  | argumentsDelta outputIndex delta =>
      unfold handleEvent at h
      simp only [pure, Except.pure, refuse] at h
      split at h
      · rename_i index text hpair
        have hindex := eq_int_of_asIndex? (Prod.mk.inj hpair).1
        have hdelta := eq_str_of_asStr? (Prod.mk.inj hpair).2
        rw [← (Prod.mk.inj (Except.ok.inj h)).1, hindex, hdelta]
        exact ⟨hp.delta index text, trivial⟩
      · cases h
  | argumentsDone outputIndex arguments =>
      unfold handleEvent at h
      simp only [bind, Except.bind, pure, Except.pure, refuse] at h
      split at h
      · split at h
        · cases h
        · rw [← (Prod.mk.inj (Except.ok.inj h)).1]
          exact ⟨hp.other (fun _ => rfl) (fun _ _ => rfl) state.completedResponse, trivial⟩
      · cases h
  | outputItemDone outputIndex item =>
      simp only [handleEvent] at h
      obtain ⟨accepted, haccept, hpair⟩ := Lib.bind_eq_ok.mp h
      obtain ⟨index, rfl, hitem⟩ := acceptOutputItem_eq_ok haccept
      rw [← (Prod.mk.inj (Except.ok.inj hpair)).1]
      refine ⟨hp.accept hitem, ?_⟩
      rw [Fits, ← hp.pending]
      exact hitem.joined
  | completed response =>
      unfold handleEvent at h
      simp only [bind, Except.bind, pure, Except.pure, refuse] at h
      split at h
      · split at h
        · cases h
        · rw [← (Prod.mk.inj (Except.ok.inj h)).1]
          exact ⟨hp.other (fun _ => rfl) (fun _ _ => rfl) _, trivial⟩
      · cases h
  | passive =>
      rw [← (Prod.mk.inj (Except.ok.inj h)).1]
      exact ⟨hp.other (fun _ => rfl) (fun _ _ => rfl) state.completedResponse, trivial⟩
  | unsupported type => cases h
  | untyped => cases h

/-! ## the events before the terminal one -/

/-- The events before the terminal one, handled in turn. -/
inductive Consumed : StreamState → List Event → StreamState → Prop
  | nil (state : StreamState) : Consumed state [] state
  | cons {state next state' : StreamState} {event : Event} {body : List Event}
      (hevent : handleEvent state event = .ok (next, false)) (hbody : Consumed next body state') :
      Consumed state (event :: body) state'

theorem drainStream_of_consumed {body : List Event} (h : Consumed state body state')
    (last : Event) (rest : List Event) :
    drainStream state (body ++ last :: rest) = drainStream state' (last :: rest) := by
  induction h with
  | nil => rfl
  | cons hevent _ ih =>
      rw [List.cons_append, drainStream, hevent]
      exact ih

/-- A drained stream has a terminal event. -/
theorem drainStream_eq_ok {events : List Event} {final : StreamState}
    (h : drainStream state events = .ok final) :
    ∃ body last rest before after, events = body ++ last :: rest ∧ Consumed state body before ∧
      handleEvent before last = .ok (after, true) ∧ settleFragments after = .ok final := by
  induction events generalizing state with
  | nil => cases h
  | cons event events ih =>
      rw [drainStream] at h
      obtain ⟨⟨next, terminal⟩, hevent, hrest⟩ := Lib.bind_eq_ok.mp h
      cases terminal with
      | true => exact ⟨[], event, events, state, next, rfl, .nil state, hevent, hrest⟩
      | false =>
          obtain ⟨body, last, rest, before, after, hevents, hbody, hlast, hsettle⟩ := ih hrest
          exact ⟨event :: body, last, rest, before, after, by rw [hevents, List.cons_append],
            .cons hevent hbody, hlast, hsettle⟩

/-- **The events before the terminal one** are in the state, and every call fits. -/
theorem Progress.consumed {seen body : List Event} (hp : Progress seen state)
    (h : Consumed state body state') :
    Progress (seen ++ body) state' ∧
      ∀ before event after, body = before ++ event :: after → Fits (seen ++ before) event := by
  induction h generalizing seen with
  | nil =>
      refine ⟨by rwa [List.append_nil], fun before event after hnil => ?_⟩
      simp at hnil
  | @cons state next state' event body hevent _ ih =>
      obtain ⟨hnext, hfits⟩ := hp.handle hevent
      obtain ⟨hend, hall⟩ := ih hnext
      rw [List.append_assoc] at hend
      refine ⟨hend, fun before other after hsplit => ?_⟩
      cases before with
      | nil =>
          rw [List.append_nil, ← (List.cons.inj hsplit).1]
          exact hfits
      | cons first before =>
          obtain ⟨hfirst, hbody⟩ := List.cons.inj hsplit
          have hlater := hall before other after hbody
          rw [List.append_assoc] at hlater
          rw [← hfirst]
          exact hlater

/-! ## the terminal items -/

/-- The output of a Responses object: supported items, whose calls have an identity of
their own and a text of arguments. -/
structure WellFormedOutput (items : List Json) : Prop where
  supported : ∀ item ∈ items, supportedItem item = true
  callId : ∀ item ∈ items, hasType item "function_call" = true →
    (nonEmptyText (item.get "call_id")).isSome
  name : ∀ item ∈ items, hasType item "function_call" = true →
    (nonEmptyText (item.get "name")).isSome
  arguments : ∀ item ∈ items, hasType item "function_call" = true →
    (item.get "arguments").asStr?.isSome
  distinct : ∀ (i j : Nat) a b, items[i]? = some a → items[j]? = some b →
    hasType a "function_call" = true → hasType b "function_call" = true →
    a.get "call_id" = b.get "call_id" → i = j

/-- Every item received is that of its index, up to a late field. -/
def Partial (items : List Json) (state : StreamState) : Prop :=
  ∀ index item, state.outputItemsByIndex.get? index = some item →
    ∃ (i : Nat) (terminal : Json), index = i ∧ items[i]? = some terminal ∧ Projects item terminal

/-- The items are received, apart from calls that were cut off. -/
structure Received (items : List Json) (state : StreamState) : Prop where
  known : Partial items state
  missing : ∀ (i : Nat) terminal, items[i]? = some terminal →
    state.outputItemsByIndex.get? (i : Int) = none → isInterrupted terminal = true

theorem Partial.accept {i : Nat} {item terminal : Json} (h : Partial items state)
    (hitem : Accepted i item state state') (hterminal : items[i]? = some terminal)
    (hprojects : Projects item terminal) : Partial items state' := by
  intro index prior hprior
  rw [hitem.items] at hprior
  by_cases hindex : index = i
  · subst hindex
    rw [Dict.get?_set_self] at hprior
    rw [← Option.some.inj hprior]
    exact ⟨i, terminal, rfl, hterminal, hprojects⟩
  · rw [Dict.get?_set_of_ne hindex] at hprior
    exact h index prior hprior

theorem supportedItem_projects {item terminal : Json} (h : Projects item terminal)
    (hterminal : supportedItem terminal = true) : supportedItem item = true := by
  have htype : item.get "type" = terminal.get "type" := h.reading "type" (by decide)
  rw [supportedItem, Bool.and_eq_true] at hterminal ⊢
  rw [htype]
  refine ⟨?_, hterminal.2⟩
  -- a value with a type is a dict
  obtain ⟨type, -, htext⟩ := List.any_eq_true.mp hterminal.2
  rw [decide_eq_true_eq, ← htype] at htext
  cases item with
  | obj kvs => rfl
  | _ => cases htext

/-- An item that projects the terminal one of a new index, and fits its fragments, is
accepted. -/
theorem acceptOutputItem_ok {i : Nat} {item terminal : Json} (hwell : WellFormedOutput items)
    (hheld : Partial items state) (hterminal : items[i]? = some terminal)
    (hprojects : Projects item terminal)
    (hnew : state.outputItemsByIndex.get? (i : Int) = none)
    (hjoined : hasType terminal "function_call" = true →
      (state.argumentFragments.get? (i : Int)).getD [] = [] ∨
        terminal.get "arguments"
          = .str (String.join ((state.argumentFragments.get? (i : Int)).getD []))) :
    ∃ state', acceptOutputItem (.int i) item state = .ok state' := by
  have hmem : terminal ∈ items := List.mem_of_getElem? hterminal
  have hsupported := supportedItem_projects hprojects (hwell.supported terminal hmem)
  have hcall : hasType item "function_call" = hasType terminal "function_call" :=
    hasType_congr hprojects.reading "function_call"
  have hnonneg : (0 : Int) ≤ i := Int.natCast_nonneg i
  unfold acceptOutputItem
  simp only [asIndex?, Option.filter, hnonneg, decide_true, if_true, hnew, Option.isSome_none,
    Bool.false_eq_true, if_false, hsupported, Bool.not_true, hcall, bind, Except.bind, pure,
    Except.pure]
  cases hfunction : hasType terminal "function_call" with
  | false => exact ⟨_, rfl⟩
  | true =>
      obtain ⟨callId, hid⟩ := Option.isSome_iff_exists.mp (hwell.callId terminal hmem hfunction)
      obtain ⟨name, hname⟩ := Option.isSome_iff_exists.mp (hwell.name terminal hmem hfunction)
      obtain ⟨arguments, harguments⟩ :=
        Option.isSome_iff_exists.mp (hwell.arguments terminal hmem hfunction)
      have hidText : terminal.get "call_id" = .str callId :=
        eq_str_of_asStr? (Option.filter_eq_some_iff.mp hid).1
      -- another call with this id would be the terminal item of another index
      have hdistinct : (state.outputItems.any fun prior =>
          hasType prior "function_call" && prior.get "call_id" = .str callId) = false := by
        rw [List.any_eq_false]
        intro prior hprior hsame
        obtain ⟨index, hget⟩ := mem_outputItems.mp hprior
        obtain ⟨j, other, rfl, hother, hproject⟩ := hheld index prior hget
        rw [Bool.and_eq_true, decide_eq_true_eq, hasType_congr hproject.reading,
          hproject.reading "call_id" (by decide)] at hsame
        have hij : i = j := hwell.distinct i j terminal other hterminal hother hfunction hsame.1
          (by rw [hidText, hsame.2])
        rw [← hij, hnew] at hget
        cases hget
      have hfits : ¬ ((state.argumentFragments.get? (i : Int)).getD [] ≠ [] ∧
          String.join ((state.argumentFragments.get? (i : Int)).getD []) ≠ arguments) := by
        intro hbad
        cases hjoined hfunction with
        | inl hnone => exact hbad.1 hnone
        | inr hjoin =>
            rw [hjoin] at harguments
            exact hbad.2 (Option.some.inj harguments)
      have haccept : acceptCall i item state = .ok (state.argumentFragments.erase i) := by
        unfold acceptCall
        simp only [hprojects.reading "call_id" (by decide), hprojects.reading "name" (by decide),
          hprojects.reading "arguments" (by decide), hid, hname, harguments, hdistinct,
          Bool.false_eq_true, if_false, bind, Except.bind, pure, Except.pure]
        rw [if_neg hfits]
      simp only [if_true, haccept]
      exact ⟨_, rfl⟩

/-! ## a conforming stream -/

/-- An event of a stream for these items: passive, a fragment or the completion of the
arguments of a call that is not finished, or a finished item. -/
def Admitted (items : List Json) (before : List Event) : Event → Prop
  | .passive => True
  | .argumentsDelta outputIndex delta => ∃ (i : Nat) (item : Json) (text : String),
      outputIndex = .int i ∧ delta = .str text ∧ items[i]? = some item ∧
        hasType item "function_call" = true ∧ itemDone i before = none
  | .argumentsDone outputIndex arguments => ∃ (i : Nat) (text : String),
      outputIndex = .int i ∧ arguments = .str text ∧
        (pendingFragments i before = [] ∨ String.join (pendingFragments i before) = text)
  | .outputItemDone outputIndex item => ∃ (i : Nat) (terminal : Json),
      outputIndex = .int i ∧ items[i]? = some terminal ∧ Projects item terminal ∧
        itemDone i before = none ∧
        (hasType terminal "function_call" = true → pendingFragments i before = [] ∨
          terminal.get "arguments" = .str (String.join (pendingFragments i before)))
  | _ => False

/-- The events before the terminal one of a stream for these items.  A call that was cut
off need not be finished. -/
structure Conforming (items : List Json) (body : List Event) : Prop where
  admitted : ∀ before event after, body = before ++ event :: after → Admitted items before event
  delivered : ∀ (i : Nat) item, items[i]? = some item → itemDone i body = none →
    isInterrupted item = true ∧ (pendingFragments i body = [] ∨
      item.get "arguments" = .str (String.join (pendingFragments i body)))

/-- An admitted event is handled. -/
theorem Admitted.handle {events : List Event} {event : Event} (hwell : WellFormedOutput items)
    (hp : Progress events state) (hheld : Partial items state)
    (h : Admitted items events event) :
    ∃ state', handleEvent state event = .ok (state', false) ∧ Partial items state' := by
  cases event with
  | passive => exact ⟨state, rfl, hheld⟩
  | argumentsDelta outputIndex delta =>
      obtain ⟨i, item, text, rfl, rfl, -, -, -⟩ := h
      exact ⟨_, rfl, hheld⟩
  | argumentsDone outputIndex arguments =>
      obtain ⟨i, text, rfl, rfl, hjoin⟩ := h
      rw [← hp.pending] at hjoin
      refine ⟨state, ?_, hheld⟩
      have hfits : ¬ ((state.argumentFragments.get? (i : Int)).getD [] ≠ [] ∧
          String.join ((state.argumentFragments.get? (i : Int)).getD []) ≠ text) := by
        grind
      simp only [handleEvent, asIndex?, Json.asStr?]
      rw [if_neg hfits]
      rfl
  | outputItemDone outputIndex item =>
      obtain ⟨i, terminal, rfl, hterminal, hprojects, hnew, hjoined⟩ := h
      rw [← hp.done] at hnew
      rw [← hp.pending] at hjoined
      obtain ⟨state', haccept⟩ :=
        acceptOutputItem_ok hwell hheld hterminal hprojects hnew hjoined
      obtain ⟨index, hindex, haccepted⟩ := acceptOutputItem_eq_ok haccept
      have hi : index = i := (Json.int.inj hindex).symm
      subst hi
      refine ⟨state', ?_, hheld.accept haccepted hterminal hprojects⟩
      rw [handleEvent, haccept]
      rfl
  | failed response error => exact h.elim
  | incomplete response => exact h.elim
  | completed response => exact h.elim
  | unsupported type => exact h.elim
  | untyped => exact h.elim

/-- The events of a conforming stream are handled in turn. -/
theorem consumed_of_admitted {seen body : List Event} (hwell : WellFormedOutput items)
    (hp : Progress seen state) (hheld : Partial items state)
    (h : ∀ before event after, body = before ++ event :: after →
      Admitted items (seen ++ before) event) :
    ∃ state', Consumed state body state' ∧ Partial items state' := by
  induction body generalizing seen state with
  | nil => exact ⟨state, .nil state, hheld⟩
  | cons event body ih =>
      have hfirst : Admitted items seen event := by
        have hadmitted := h [] event body rfl
        rwa [List.append_nil] at hadmitted
      obtain ⟨next, hevent, hnext⟩ := Admitted.handle hwell hp hheld hfirst
      obtain ⟨state', hbody, hend⟩ := ih (hp.handle hevent).1 hnext fun before other after hsplit => by
        have hadmitted := h (event :: before) other after (by rw [hsplit, List.cons_append])
        rwa [← List.singleton_append, ← List.append_assoc] at hadmitted
      exact ⟨state', .cons hevent hbody, hend⟩

/-- Fragments are left over for unfinished calls only. -/
theorem pending_of_admitted {body : List Event}
    (h : ∀ before event after, body = before ++ event :: after → Admitted items before event)
    {index : Int} (hpending : pendingFragments index body ≠ []) :
    ∃ (i : Nat) (item : Json), index = i ∧ items[i]? = some item ∧
      hasType item "function_call" = true ∧ itemDone i body = none := by
  induction body using List.reverseRecOn with
  | nil => exact absurd rfl hpending
  | append_singleton body event ih =>
      have hevent : Admitted items body event := h body event [] rfl
      have hbody := ih fun before other after hsplit =>
        h before other (after ++ [event]) (by rw [hsplit, List.append_assoc, List.cons_append])
      rw [pendingFragments_snoc] at hpending
      cases event with
      | passive =>
          obtain ⟨i, item, rfl, hitem, hcall, hnone⟩ := hbody hpending
          exact ⟨i, item, rfl, hitem, hcall, by rw [itemDone_snoc, hnone]; rfl⟩
      | argumentsDone outputIndex arguments =>
          obtain ⟨i, item, rfl, hitem, hcall, hnone⟩ := hbody hpending
          exact ⟨i, item, rfl, hitem, hcall, by rw [itemDone_snoc, hnone]; rfl⟩
      | argumentsDelta outputIndex delta =>
          obtain ⟨j, item, text, rfl, rfl, hitem, hcall, hnone⟩ := hevent
          by_cases hj : (j : Int) = index
          · exact ⟨j, item, hj.symm, hitem, hcall, by rw [itemDone_snoc, hnone]; rfl⟩
          · rw [collectFragment, if_neg hj] at hpending
            obtain ⟨i, item, rfl, hitem, hcall, hnone⟩ := hbody hpending
            exact ⟨i, item, rfl, hitem, hcall, by rw [itemDone_snoc, hnone]; rfl⟩
      | outputItemDone outputIndex finished =>
          obtain ⟨j, terminal, rfl, hterminal, hprojects, hnew, -⟩ := hevent
          rw [collectFragment] at hpending
          split at hpending
          · exact absurd rfl hpending
          · rename_i hother
            obtain ⟨i, item, rfl, hitem, hcall, hnone⟩ := hbody hpending
            have hne : (j : Int) ≠ i := by
              intro hij
              have hij' : j = i := by omega
              rw [hij', hitem] at hterminal
              rw [← Option.some.inj hterminal] at hprojects
              exact hother ⟨hij, (hasType_congr hprojects.reading _).trans hcall⟩
            refine ⟨i, item, rfl, hitem, hcall, ?_⟩
            rw [itemDone_snoc, hnone]
            simp [itemDone, hne]
      | failed response error => exact hevent.elim
      | incomplete response => exact hevent.elim
      | completed response => exact hevent.elim
      | unsupported type => exact hevent.elim
      | untyped => exact hevent.elim

/-! ## both paths receive the items -/

/-- The terminal event of a stream for this object. -/
def Ends (response : Response) (last : Event) : Prop :=
  last = .completed (some response) ∨
    last = .incomplete (some response) ∧ response.status = .str "incomplete"

theorem handleEvent_ends {response : Response} {last : Event} (h : Ends response last)
    (state : StreamState) :
    handleEvent state last = (validateTerminalResponse response).map fun _ =>
      ({ state with completedResponse := some response }, true) := by
  cases h with
  | inl h =>
      subst h
      simp only [handleEvent]
      cases validateTerminalResponse response <;> rfl
  | inr h =>
      obtain ⟨rfl, hstatus⟩ := h
      simp only [handleEvent, Option.getD_some, hstatus, ne_eq, not_true_eq_false, if_false]
      cases validateTerminalResponse response <;> rfl

/-- A state without fragments is settled. -/
theorem settleFragments_empty (h : state.argumentFragments.entries = []) :
    settleFragments state = .ok state := by
  rw [settleFragments, if_pos h]
  rfl

theorem validatedResponseItems_ok (hwell : WellFormedOutput items) :
    validatedResponseItems (.arr items) = .ok items := by
  have hall : items.all supportedItem = true := List.all_eq_true.mpr hwell.supported
  simp [validatedResponseItems, Json.asArr?, hall, pure, Except.pure]

/-- A conforming stream is handled up to its terminal event. -/
theorem Conforming.consumed {body : List Event} (hwell : WellFormedOutput items)
    (h : Conforming items body) :
    ∃ state, Consumed {} body state ∧ Progress body state ∧ Received items state := by
  obtain ⟨state, hbody, hheld⟩ := consumed_of_admitted hwell .start (fun _ _ hget => by cases hget)
    (by simpa using h.admitted)
  have hprogress : Progress body state := (Progress.start.consumed hbody).1
  refine ⟨state, hbody, hprogress, hheld, fun i terminal hterminal hnone => ?_⟩
  rw [hprogress.done] at hnone
  exact (h.delivered i terminal hterminal hnone).1

/-- **A conforming stream** is drained into a state that received the items, unless calls
were cut off in an object that claims to be complete. -/
theorem drainStream_conforming {body : List Event} {last : Event} {response : Response}
    {model : String} {finishReason : FinishReason} (hwell : WellFormedOutput items)
    (houtput : response.output = .arr items) (h : Conforming items body)
    (hends : Ends response last)
    (hvalid : validateTerminalResponse response = .ok (model, finishReason)) (rest : List Event) :
    (∃ state, drainStream {} (body ++ last :: rest) = .ok state ∧
      state.response = response ∧ Received items state) ∨
    (∃ e, drainStream {} (body ++ last :: rest) = .error e) ∧ finishReason ≠ .maxTokens ∧
      ∃ item ∈ items, isInterrupted item = true := by
  obtain ⟨state, hbody, hprogress, hreceived⟩ := h.consumed hwell
  have hdrain : drainStream {} (body ++ last :: rest)
      = settleFragments { state with completedResponse := some response } := by
    rw [drainStream_of_consumed hbody, drainStream, handleEvent_ends hends, hvalid]
    rfl
  rw [hdrain]
  by_cases hempty : state.argumentFragments.entries = []
  · refine Or.inl ⟨_, settleFragments_empty hempty, rfl, hreceived.known, hreceived.missing⟩
  · -- every fragment left over belongs to a call that was cut off
    have hleft : ∀ entry ∈ state.argumentFragments.entries,
        ∃ (i : Nat) (item : Json), entry.1 = i ∧ items[i]? = some item ∧
          isInterrupted item = true ∧ item.get "arguments" = .str (String.join entry.2) := by
      intro entry hentry
      have hget : state.argumentFragments.get? entry.1 = some entry.2 := Dict.get?_eq_some.mpr hentry
      have hpending : pendingFragments entry.1 body = entry.2 := by
        rw [← hprogress.pending, hget, Option.getD_some]
      have hfilled : pendingFragments entry.1 body ≠ [] := by
        intro hnone
        rw [hpending] at hnone
        exact hprogress.filled entry.1 (hnone ▸ hget)
      obtain ⟨i, item, hindex, hitem, -, hnone⟩ := pending_of_admitted h.admitted hfilled
      obtain ⟨hinterrupted, hjoin⟩ := h.delivered i item hitem hnone
      rw [← hindex, hpending] at hjoin
      refine ⟨i, item, hindex, hitem, hinterrupted, hjoin.resolve_left ?_⟩
      rw [← hpending]
      exact hfilled
    have hsettle : settleFragments { state with completedResponse := some response }
        = if finishReason = .maxTokens then
            .ok { state with completedResponse := some response, argumentFragments := .empty }
          else refuse .incompleteArguments := by
      have hcover : state.argumentFragments.entries.all (coversFragments items) = true := by
        rw [List.all_eq_true]
        intro entry hentry
        obtain ⟨i, item, hindex, hitem, hinterrupted, hjoin⟩ := hleft entry hentry
        simp [coversFragments, hindex, hitem, hinterrupted, hjoin]
      rw [settleFragments, if_neg hempty]
      simp only [StreamState.response, Option.getD_some, hvalid, houtput,
        validatedResponseItems_ok hwell, hcover, bind, Except.bind, pure, Except.pure, and_true]
    rw [hsettle]
    by_cases hreason : finishReason = .maxTokens
    · rw [if_pos hreason]
      exact Or.inl ⟨_, rfl, rfl, hreceived.known, hreceived.missing⟩
    · rw [if_neg hreason]
      refine Or.inr ⟨⟨_, rfl⟩, hreason, ?_⟩
      obtain ⟨entry, hentry⟩ := List.exists_mem_of_ne_nil _ hempty
      obtain ⟨i, item, -, hitem, hinterrupted, -⟩ := hleft entry hentry
      exact ⟨item, List.mem_of_getElem? hitem, hinterrupted⟩

/-- The items of a whole object, accepted as far as a number of them. -/
structure Prefilled (items : List Json) (response : Response) (n : Nat) (state : StreamState) :
    Prop where
  known : Partial items state
  filled : ∀ i : Nat, (state.outputItemsByIndex.get? (i : Int)).isSome ↔ i < n
  count : state.outputItems.length = n
  fragments : state.argumentFragments = .empty
  response : state.completedResponse = some response

theorem Prefilled.accept {response : Response} {n : Nat} {item : Json}
    (hwell : WellFormedOutput items) (h : Prefilled items response n state)
    (hitem : items[n]? = some item) :
    ∃ state', acceptOutputItem (.int state.outputItems.length) item state = .ok state' ∧
      Prefilled items response (n + 1) state' := by
  have hnew : state.outputItemsByIndex.get? (n : Int) = none := by
    have hnot := (h.filled n).not.mpr (Nat.lt_irrefl n)
    rwa [Option.not_isSome_iff_eq_none] at hnot
  obtain ⟨state', haccept⟩ := acceptOutputItem_ok hwell h.known hitem (Projects.refl item) hnew
    fun _ => Or.inl (by rw [h.fragments]; rfl)
  obtain ⟨index, hindex, haccepted⟩ := acceptOutputItem_eq_ok haccept
  have hn : index = n := (Json.int.inj hindex).symm
  subst hn
  refine ⟨state', by rw [h.count, haccept], ?_⟩
  exact {
    known := h.known.accept haccepted hitem (Projects.refl item)
    filled := by
      intro i
      rw [haccepted.items]
      by_cases hi : (i : Int) = n
      · rw [hi, Dict.get?_set_self]
        simp
        omega
      · rw [Dict.get?_set_of_ne hi, h.filled]
        omega
    count := by
      have hcount := h.count
      simp only [StreamState.outputItems, List.length_map, List.length_mergeSort] at hcount ⊢
      have hkeys := congrArg List.length (Dict.keys_set state.outputItemsByIndex (n : Int) item)
      rw [if_neg (Dict.get?_eq_none.mp hnew)] at hkeys
      simp only [List.length_map, List.length_append, List.length_singleton] at hkeys
      rw [haccepted.items, hkeys, hcount]
    fragments := by
      rw [haccepted.fragments, h.fragments]
      split <;> rfl
    response := by rw [haccepted.response, h.response] }

/-- **The items of a whole object** are received. -/
theorem acceptItems_received {response : Response} (hwell : WellFormedOutput items) :
    ∃ state, acceptItems { completedResponse := some response } items = .ok state ∧
      state.response = response ∧ Received items state := by
  have hrun : ∀ (seen later : List Json) (state : StreamState), items = seen ++ later →
      Prefilled items response seen.length state →
      ∃ state', acceptItems state later = .ok state' ∧
        Prefilled items response items.length state' := by
    intro seen later
    induction later generalizing seen with
    | nil =>
        intro state hitems h
        rw [List.append_nil] at hitems
        exact ⟨state, rfl, hitems ▸ h⟩
    | cons item later ih =>
        intro state hitems h
        have hitem : items[seen.length]? = some item := by rw [hitems]; simp
        obtain ⟨next, haccept, hnext⟩ := h.accept hwell hitem
        obtain ⟨state', hlater, hend⟩ := ih (seen ++ [item]) next (by rw [hitems]; simp)
          (by rw [List.length_append]; exact hnext)
        refine ⟨state', ?_, hend⟩
        rw [acceptItems, List.foldlM_cons, haccept]
        exact hlater
  obtain ⟨state, haccept, h⟩ := hrun [] items { completedResponse := some response } rfl {
    known := fun _ _ hget => by cases hget
    filled := fun i => by simp
    count := by simp [StreamState.outputItems, Dict.empty]
    fragments := rfl
    response := rfl }
  refine ⟨state, haccept, by rw [StreamState.response, h.response]; rfl, h.known, ?_⟩
  intro i terminal hterminal hnone
  have hlt : i < items.length := (List.getElem?_eq_some_iff.mp hterminal).1
  rw [← h.filled i, hnone] at hlt
  cases hlt

end OpenCollab.Responses
