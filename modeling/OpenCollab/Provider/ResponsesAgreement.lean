import OpenCollab.Provider.ResponsesItems

/-!
# OpenCollab.Provider.ResponsesAgreement

A Responses stream is read as its terminal object is:

* `reconcile_ok`, `reconcile_sound` — a state that received the items of an object is
  reconciled with it exactly if the object is well formed, whichever way they came;
* `buildResponse_congr` — the response depends only on what is read of the items;
* `stream_agrees` — so a conforming stream gives the response of its object, and a stream
  that gives a response agrees with its object up to calls that were cut off.
-/

namespace OpenCollab.Responses

open Chat (orNone)
open List (Forall₂)
open Lib (Dict)

variable {c : Codec} {items : List Json} {state : StreamState} {finishReason : FinishReason}

/-! ## the items that are kept -/

/-- Items taken by index correspond, apart from calls that were cut off. -/
theorem forall₂_received {indices : List Nat} {received terminal : Nat → Option Json}
    (h : ∀ i ∈ indices, ∃ t, terminal i = some t ∧
      ((∃ item, received i = some item ∧ Projects item t) ∨
        received i = none ∧ isInterrupted t = true)) :
    Forall₂ Projects (dropInterrupted (indices.filterMap received))
      (dropInterrupted (indices.filterMap terminal)) := by
  induction indices with
  | nil => exact .nil
  | cons i indices ih =>
      obtain ⟨⟨t, hterminal, hcase⟩, hrest⟩ := List.forall_mem_cons.mp h
      have htail := ih hrest
      rw [List.filterMap_cons_some hterminal]
      cases hcase with
      | inl hitem =>
          obtain ⟨item, hreceived, hprojects⟩ := hitem
          rw [List.filterMap_cons_some hreceived, dropInterrupted, dropInterrupted]
          cases hcut : isInterrupted t with
          | true =>
              rw [List.filter_cons_of_neg (by simp [isInterrupted_congr hprojects.reading, hcut]),
                List.filter_cons_of_neg (by simp [hcut])]
              exact htail
          | false =>
              rw [List.filter_cons_of_pos (by simp [isInterrupted_congr hprojects.reading, hcut]),
                List.filter_cons_of_pos (by simp [hcut])]
              exact .cons hprojects htail
      | inr hcut =>
          rw [List.filterMap_cons_none hcut.1, dropInterrupted, dropInterrupted,
            List.filter_cons_of_neg (by simp [hcut.2])]
          exact htail

theorem filterMap_range_getElem? (items : List Json) :
    ((List.range items.length).filterMap fun i => items[i]?) = items := by
  induction items using List.reverseRecOn with
  | nil => rfl
  | append_singleton items item ih =>
      rw [List.length_append, List.length_singleton, List.range_succ, List.filterMap_append]
      have hbefore : (List.range items.length).filterMap (fun i => (items ++ [item])[i]?)
          = (List.range items.length).filterMap fun i => items[i]? := by
        refine List.filterMap_congr fun i hi => ?_
        rw [List.getElem?_append_left (List.mem_range.mp hi)]
      rw [hbefore, ih]
      simp

/-- The items kept of a state are those kept of the object. -/
theorem Received.kept (h : Received items state) :
    Forall₂ Projects (dropInterrupted state.outputItems) (dropInterrupted items) := by
  have hkeys : ∀ index item, state.outputItemsByIndex.get? index = some item →
      0 ≤ index ∧ index.toNat < items.length := by
    intro index item hget
    obtain ⟨i, t, rfl, ht, -⟩ := h.known index item hget
    exact ⟨Int.natCast_nonneg i, by simpa using (List.getElem?_eq_some_iff.mp ht).1⟩
  rw [outputItems_eq hkeys]
  conv_rhs => rw [← filterMap_range_getElem? items]
  refine forall₂_received fun i hi => ?_
  have hlt : i < items.length := List.mem_range.mp hi
  refine ⟨items[i], List.getElem?_eq_getElem hlt, ?_⟩
  cases hget : state.outputItemsByIndex.get? (i : Int) with
  | none => exact Or.inr ⟨rfl, h.missing i items[i] (List.getElem?_eq_getElem hlt) hget⟩
  | some item =>
      obtain ⟨j, t, hij, ht, hprojects⟩ := h.known i item hget
      have hj : j = i := by omega
      subst hj
      rw [List.getElem?_eq_getElem hlt] at ht
      exact Or.inl ⟨item, rfl, Option.some.inj ht ▸ hprojects⟩

/-- Every item received has its terminal one. -/
theorem Received.terminal (h : Received items state) {item : Json} (hitem : item ∈ state.outputItems) :
    ∃ t ∈ items, Projects item t := by
  obtain ⟨index, hget⟩ := mem_outputItems.mp hitem
  obtain ⟨i, t, -, ht, hprojects⟩ := h.known index item hget
  exact ⟨t, List.mem_of_getElem? ht, hprojects⟩

/-- Without calls that were cut off, everything is kept. -/
theorem dropInterrupted_eq_self {items : List Json} (h : ∀ item ∈ items, isInterrupted item = false) :
    dropInterrupted items = items :=
  List.filter_eq_self.mpr fun item hitem => by rw [h item hitem]; rfl

theorem compared_self (items : List Json) : compared items items = dropInterrupted items := by
  unfold compared
  by_cases h : items.any isInterrupted = true
  · rw [if_pos h]
  · rw [if_neg h, dropInterrupted_eq_self]
    simpa using h

theorem Received.compared (h : Received items state) :
    compared items state.outputItems = dropInterrupted state.outputItems := by
  unfold Responses.compared
  by_cases hany : items.any isInterrupted = true
  · rw [if_pos hany]
  · rw [if_neg hany, dropInterrupted_eq_self]
    intro item hitem
    obtain ⟨t, ht, hprojects⟩ := h.terminal hitem
    rw [isInterrupted_congr hprojects.reading]
    simp only [List.any_eq_true, not_exists, not_and, Bool.not_eq_true] at hany
    exact hany t ht

/-! ## reconciling -/

theorem checkCall_congr {streamed terminal : Json} (h : SameReading streamed terminal) :
    checkCall c streamed = checkCall c terminal := by
  rw [checkCall, checkCall, hasType_congr h, isInterrupted_congr h, h "call_id" (by decide),
    h "name" (by decide), h "arguments" (by decide)]

/-- A call that agrees with itself has an identity. -/
theorem checkCall_of_agree {item : Json} (h : outputItemsAgree c item item = .ok true) :
    checkCall c item = .ok () := by
  obtain ⟨meaning, hmeaning, -⟩ := Lib.bind_eq_ok.mp h
  unfold checkCall
  split
  · rename_i hcall
    rw [semanticOutputItem, if_pos (Bool.and_eq_true _ _ ▸ hcall).1] at hmeaning
    obtain ⟨identity, hidentity, -⟩ := Lib.bind_eq_ok.mp hmeaning
    rw [hidentity]
  · rfl

theorem agree_of_self {streamed terminal : Json} (hprojects : Projects streamed terminal)
    (h : outputItemsAgree c terminal terminal = .ok true) :
    outputItemsAgree c streamed terminal = .ok true := by
  have hcongr := outputItemsAgree_congr (c := c) hprojects
  rw [h] at hcongr
  cases hagree : outputItemsAgree c streamed terminal with
  | error e => rw [hagree] at hcongr; cases hcongr
  | ok b => rw [hagree] at hcongr; exact congrArg _ (Option.some.inj hcongr)

theorem self_of_agree {streamed terminal : Json} (hprojects : Projects streamed terminal) {b : Bool}
    (h : outputItemsAgree c streamed terminal = .ok b) :
    b = true ∧ outputItemsAgree c terminal terminal = .ok true := by
  have hcongr := outputItemsAgree_congr (c := c) hprojects
  rw [h] at hcongr
  cases hself : outputItemsAgree c terminal terminal with
  | error e => rw [hself] at hcongr; cases hcongr
  | ok b' =>
      rw [hself] at hcongr
      cases b' with
      | true => exact ⟨Option.some.inj hcongr, rfl⟩
      | false => exact absurd hself (outputItemsAgree_self c terminal)

/-- Items that are not trusted agree one by one. -/
theorem settleItems_eq_ok {mismatch : Bool} {streamed terminal list : List Json}
    (h : settleItems c false mismatch streamed terminal = .ok list) :
    mismatch = false ∧
      Forall₂ (fun s t => outputItemsAgree c s t = .ok true) streamed terminal := by
  unfold settleItems at h
  by_cases hcount : mismatch = true ∨ terminal.length ≠ streamed.length
  · rw [if_pos hcount] at h
    simp [bind, Except.bind, refuse] at h
  · rw [if_neg hcount] at h
    simp only [not_or, Bool.not_eq_true, ne_eq, not_not] at hcount
    obtain ⟨agree, hagree, h⟩ := Lib.bind_eq_ok.mp h
    cases agree with
    | false => simp [refuse] at h
    | true =>
        refine ⟨hcount.1, List.forall₂_iff_zip.mpr ⟨hcount.2.symm, fun {s t} hmem => ?_⟩⟩
        exact Lib.allM_eq_ok_true.mp hagree (s, t) hmem

/-- Items that agree one by one are settled, with what is read of the streamed ones. -/
theorem settleItems_ok {trustStreamed : Bool} {streamed terminal : List Json}
    (h : Forall₂ (fun s t => outputItemsAgree c s t = .ok true) streamed terminal) :
    settleItems c trustStreamed false streamed terminal
      = .ok (List.zipWith mergeTerminalProjection streamed terminal) := by
  have hagree : (streamed.zip terminal).allM (fun pair => outputItemsAgree c pair.1 pair.2)
      = .ok true :=
    Lib.allM_eq_ok_true.mpr fun pair hpair => (List.forall₂_iff_zip.mp h).2 hpair
  have hcount : ¬ ((false : Bool) = true ∨ terminal.length ≠ streamed.length) := by
    rw [h.length_eq]
    simp
  rw [settleItems, if_neg hcount, hagree]
  rfl

/-- What reconciling checks, before it compares the items one by one. -/
theorem reconcile_eq_ok {trustStreamed : Bool} {list : List Json}
    (h : reconcile c trustStreamed finishReason state = .ok list) :
    ∃ finalItems mismatch, validatedResponseItems state.response.output = .ok finalItems ∧
      state.outputItemsByIndex.entries.anyM (indexDisagrees c finalItems) = .ok mismatch ∧
      (finalItems.any isInterrupted = true → finishReason = .maxTokens) ∧
      (trustStreamed = false → mismatch = false ∧
        Forall₂ (fun streamed terminal => outputItemsAgree c streamed terminal = .ok true)
          (compared finalItems state.outputItems) (compared finalItems finalItems)) := by
  unfold reconcile at h
  obtain ⟨-, -, h⟩ := Lib.bind_eq_ok.mp h
  obtain ⟨finalItems, hfinal, h⟩ := Lib.bind_eq_ok.mp h
  obtain ⟨mismatch, hmismatch, h⟩ := Lib.bind_eq_ok.mp h
  refine ⟨finalItems, mismatch, hfinal, hmismatch, ?_⟩
  simp only [refuse] at h
  split at h
  · cases h
  · rename_i hinterrupted
    refine ⟨fun hany => ?_, fun htrust => ?_⟩
    · by_contra hreason
      exact hinterrupted ⟨hany, hreason⟩
    · subst htrust
      exact settleItems_eq_ok h

/-- The object is well formed: its items have a meaning, and calls were cut off by the
token limit only. -/
structure Sound (c : Codec) (finishReason : FinishReason) (items : List Json) : Prop where
  agree : ∀ item ∈ items, isInterrupted item = false → outputItemsAgree c item item = .ok true
  limit : ∀ item ∈ items, isInterrupted item = true → finishReason = .maxTokens

/-- The comparison of an item that was received. -/
theorem Received.indexDisagrees (h : Received items state) {entry : Int × Json}
    (hentry : entry ∈ state.outputItemsByIndex.entries) :
    ∃ t ∈ items, Projects entry.2 t ∧ indexDisagrees c items entry =
      if isInterrupted t then .ok false else (outputItemsAgree c entry.2 t).map not := by
  obtain ⟨i, t, hindex, ht, hprojects⟩ := h.known entry.1 entry.2 (Dict.get?_eq_some.mpr hentry)
  refine ⟨t, List.mem_of_getElem? ht, hprojects, ?_⟩
  rw [Responses.indexDisagrees, isInterrupted_congr hprojects.reading, hindex, Int.toNat_natCast, ht]
  dsimp only
  cases outputItemsAgree c entry.2 t <;> rfl

/-- **A state that received the items of a sound object** is reconciled with it, and what
is read of it is what is read of the object. -/
theorem reconcile_ok (hwell : WellFormedOutput items) (houtput : state.response.output = .arr items)
    (h : Received items state) (hsound : Sound c finishReason items) (trustStreamed : Bool) :
    ∃ list, reconcile c trustStreamed finishReason state = .ok list ∧
      Forall₂ SameReading list (dropInterrupted items) := by
  have hcheck : state.outputItems.forM (checkCall c) = .ok ⟨⟩ := by
    refine Lib.forM_eq_ok.mpr fun item hitem => ?_
    obtain ⟨t, ht, hprojects⟩ := h.terminal hitem
    rw [checkCall_congr hprojects.reading]
    cases hcut : isInterrupted t with
    | true => rw [checkCall, hcut, Bool.not_true, Bool.and_false, if_neg Bool.false_ne_true]
    | false => exact checkCall_of_agree (hsound.agree t ht hcut)
  have hindexed : state.outputItemsByIndex.entries.anyM (indexDisagrees c items) = .ok false := by
    refine Lib.anyM_eq_ok_false.mpr fun entry hentry => ?_
    obtain ⟨t, ht, hprojects, heq⟩ := h.indexDisagrees hentry
    rw [heq]
    cases hcut : isInterrupted t with
    | true => rfl
    | false =>
        rw [agree_of_self hprojects (hsound.agree t ht hcut)]
        rfl
  have hlimit : ¬ (items.any isInterrupted = true ∧ finishReason ≠ .maxTokens) := by
    intro ⟨hany, hreason⟩
    obtain ⟨t, ht, hcut⟩ := List.any_eq_true.mp hany
    exact hreason (hsound.limit t ht hcut)
  have hagree : Forall₂ (fun s t => outputItemsAgree c s t = .ok true)
      (dropInterrupted state.outputItems) (dropInterrupted items) := by
    refine List.forall₂_iff_zip.mpr ⟨h.kept.length_eq, fun {s t} hmem => ?_⟩
    have hprojects : Projects s t := (List.forall₂_iff_zip.mp h.kept).2 hmem
    obtain ⟨ht, hkept⟩ := List.mem_filter.mp (List.of_mem_zip hmem).2
    exact agree_of_self hprojects (hsound.agree t ht (by simpa using hkept))
  refine ⟨List.zipWith mergeTerminalProjection (dropInterrupted state.outputItems)
    (dropInterrupted items), ?_, ?_⟩
  · unfold reconcile
    rw [hcheck, houtput, validatedResponseItems_ok hwell]
    simp only [bind, Except.bind, hindexed]
    rw [if_neg hlimit, h.compared, compared_self, settleItems_ok hagree]
  · have hmerged : ∀ {streamed terminal : List Json}, Forall₂ Projects streamed terminal →
        Forall₂ SameReading (List.zipWith mergeTerminalProjection streamed terminal) terminal := by
      intro streamed terminal hprojects
      induction hprojects with
      | nil => exact .nil
      | @cons s t _ _ hst _ ih =>
          refine .cons (fun key hkey => ?_) ih
          rw [mergeTerminalProjection_reading s t key hkey, hst.reading key hkey]
    exact hmerged h.kept

/-- **Only a sound object** is reconciled with a state that received its items. -/
theorem reconcile_sound (hwell : WellFormedOutput items)
    (houtput : state.response.output = .arr items) (h : Received items state) {trustStreamed : Bool}
    {list : List Json} (hok : reconcile c trustStreamed finishReason state = .ok list) :
    Sound c finishReason items := by
  obtain ⟨finalItems, mismatch, hfinal, hmismatch, hlimit, -⟩ := reconcile_eq_ok hok
  rw [houtput, validatedResponseItems_ok hwell] at hfinal
  rw [← Except.ok.inj hfinal] at hmismatch hlimit
  -- no item received disagrees, so that all of them were compared
  have hnone : state.outputItemsByIndex.entries.anyM (indexDisagrees c items) ≠ .ok true := by
    refine Lib.anyM_ne_ok_true fun entry hentry htrue => ?_
    obtain ⟨t, -, hprojects, heq⟩ := h.indexDisagrees (c := c) hentry
    rw [heq] at htrue
    split at htrue
    · cases htrue
    · obtain ⟨b, hb, hnot⟩ := Lib.map_eq_ok.mp htrue
      rw [(self_of_agree hprojects hb).1] at hnot
      cases hnot
  have hall : ∀ entry ∈ state.outputItemsByIndex.entries, indexDisagrees c items entry = .ok false := by
    cases mismatch with
    | true => exact absurd hmismatch hnone
    | false => exact Lib.anyM_eq_ok_false.mp hmismatch
  refine ⟨fun item hitem hkept => ?_, fun item hitem hcut => ?_⟩
  · obtain ⟨i, hi⟩ := List.mem_iff_getElem?.mp hitem
    cases hget : state.outputItemsByIndex.get? (i : Int) with
    | none =>
        have hcut := h.missing i item hi hget
        rw [hkept] at hcut
        cases hcut
    | some received =>
        have hentry := hall (i, received) (Dict.get?_eq_some.mp hget)
        obtain ⟨j, t, hij, ht, hprojects⟩ := h.known i received hget
        have hj : j = i := by omega
        rw [hj, hi] at ht
        rw [← Option.some.inj ht] at hprojects
        rw [indexDisagrees, isInterrupted_congr hprojects.reading, hkept] at hentry
        simp only [Bool.false_eq_true, if_false, Int.toNat_natCast, hi] at hentry
        obtain ⟨b, hb, -⟩ := Lib.bind_eq_ok.mp hentry
        exact (self_of_agree hprojects hb).2
  · exact hlimit (List.any_eq_true.mpr ⟨item, hitem, hcut⟩)

/-! ## the response -/

/-- What is compared of two responses: all but the provider's items. -/
def LLMResponse.reading (response : LLMResponse) : LLMResponse := { response with providerItems := [] }

theorem itemCall_congr {streamed terminal : Json} (h : SameReading streamed terminal) :
    itemCall streamed = itemCall terminal := by
  rw [itemCall, itemCall, hasType_congr h, h "call_id" (by decide), h "name" (by decide),
    h "arguments" (by decide)]

/-- The content and the calls do not depend on which items they are projected with. -/
theorem projectContent_congr (request : Request) (response : Response) (items items' : List Json)
    (content : Option String) (toolCalls : List ToolCall) :
    (projectContent c request response finishReason items content toolCalls).map
        (fun r => (r.1, r.2.1))
      = (projectContent c request response finishReason items' content toolCalls).map
        (fun r => (r.1, r.2.1)) := by
  unfold projectContent
  cases request.forcedTextTool with
  | none => rfl
  | some tool =>
      simp only [bind, Except.bind, pure, Except.pure, refuse, throw, throwThe, MonadExceptOf.throw]
      split
      · rfl
      · split
        · rfl
        · cases content with
          | none => rfl
          | some text =>
              dsimp only
              cases nonEmptyText response.id with
              | none => rfl
              | some responseId =>
                  dsimp only
                  cases projectForcedTextTool c tool text responseId <;> rfl

/-- **The response depends only on what is read** of its items. -/
theorem buildResponse_congr (request : Request) (response : Response) (model : String)
    {list list' : List Json} (h : Forall₂ SameReading list list') :
    (buildResponse c request response model finishReason list).map LLMResponse.reading
      = (buildResponse c request response model finishReason list').map LLMResponse.reading := by
  have hcontent : list.mapM outputText = list'.mapM outputText :=
    Lib.mapM_eq_of_forall₂ (h.imp fun _ _ hst => outputText_congr hst)
  have hreasoning : list.mapM reasoningText = list'.mapM reasoningText :=
    Lib.mapM_eq_of_forall₂ (h.imp fun _ _ hst => reasoningText_congr hst)
  have hcalls : list.filterMap itemCall = list'.filterMap itemCall := by
    clear hcontent hreasoning
    induction h with
    | nil => rfl
    | cons hst _ ih => rw [List.filterMap_cons, List.filterMap_cons, itemCall_congr hst, ih]
  unfold buildResponse
  rw [hcontent, hreasoning, hcalls]
  cases list'.mapM outputText with
  | error e => rfl
  | ok texts =>
      cases list'.mapM reasoningText with
      | error e => rfl
      | ok reasonings =>
          simp only [bind, Except.bind, pure, Except.pure, throw, throwThe, MonadExceptOf.throw]
          have hproject := @projectContent_congr c finishReason request response
            list list' (orNone (some (String.join texts))) (list'.filterMap itemCall)
          revert hproject
          generalize projectContent c request response finishReason list
            (orNone (some (String.join texts))) (list'.filterMap itemCall) = projected
          generalize projectContent c request response finishReason list'
            (orNone (some (String.join texts))) (list'.filterMap itemCall) = projected'
          intro hproject
          cases projected with
          | error e =>
              cases projected' with
              | error e' =>
                  have he : e = e' := Except.error.inj hproject
                  rw [he]
              | ok p' => cases hproject
          | ok p =>
              cases projected' with
              | error e' => cases hproject
              | ok p' =>
                  obtain ⟨content, toolCalls, kept⟩ := p
                  obtain ⟨content', toolCalls', kept'⟩ := p'
                  obtain ⟨rfl, rfl⟩ := Prod.mk.inj (Except.ok.inj hproject)
                  dsimp only
                  split <;> rfl

/-- A state that received the items of a sound object gives the response made of these. -/
theorem parseStream_sound {request : Request} {response : Response} {model : String}
    (hwell : WellFormedOutput items) (houtput : response.output = .arr items)
    (hvalid : validateTerminalResponse response = .ok (model, finishReason))
    (hresponse : state.response = response) (h : Received items state)
    (hsound : Sound c finishReason items) :
    (parseStream c request state).map LLMResponse.reading
      = (buildResponse c request response model finishReason (dropInterrupted items)).map
        LLMResponse.reading := by
  obtain ⟨list, hlist, hreading⟩ := @reconcile_ok c _ _ finishReason hwell
    (by rw [hresponse, houtput]) h hsound request.trustStreamed
  rw [parseStream, hresponse, hvalid]
  simp only [bind, Except.bind, hlist]
  exact buildResponse_congr request response model hreading

/-- Without a sound object there is no response. -/
theorem parseStream_unsound {request : Request} {response : Response} {model : String}
    (hwell : WellFormedOutput items) (houtput : response.output = .arr items)
    (hvalid : validateTerminalResponse response = .ok (model, finishReason))
    (hresponse : state.response = response) (h : Received items state)
    (hunsound : ¬ Sound c finishReason items) (r : LLMResponse) :
    parseStream c request state ≠ .ok r := by
  intro hok
  rw [parseStream, hresponse, hvalid] at hok
  obtain ⟨_, hpair, hrest⟩ := Lib.bind_eq_ok.mp hok
  rw [← Except.ok.inj hpair] at hrest
  obtain ⟨list, hlist, -⟩ := Lib.bind_eq_ok.mp hrest
  exact hunsound (reconcile_sound hwell (by rw [hresponse, houtput]) h hlist)

/-- An object with a terminal status is parsed by accepting its items. -/
theorem parseResponsesResponse_eq {request : Request} {response : Response} {model : String}
    (houtput : response.output = .arr items)
    (hvalid : validateTerminalResponse response = .ok (model, finishReason))
    (haccept : acceptItems { completedResponse := some response } items = .ok state) :
    parseResponsesResponse c request response = parseStream c request state := by
  have hstatus : response.status ≠ .str "failed" := by
    intro hfailed
    rw [validateTerminalResponse, hfailed] at hvalid
    simp [bind, Except.bind, refuse] at hvalid
  rw [parseResponsesResponse, if_neg hstatus, hvalid, houtput]
  simp only [Json.asArr?, bind, Except.bind, haccept]

/-- Two attempts that return no response come to the same. -/
theorem toOption_map_eq_none {x : Except ResponsesError LLMResponse}
    (h : ∀ r, x ≠ .ok r) : (x.map LLMResponse.reading).toOption = none := by
  cases x with
  | error e => rfl
  | ok r => exact absurd rfl (h r)

/-- **A conforming stream** gives the response of its terminal object. -/
theorem readStream_conforming (request : Request) {response : Response} {body : List Event}
    {last : Event} (hwell : WellFormedOutput items) (houtput : response.output = .arr items)
    (h : Conforming items body) (hends : Ends response last) (rest : List Event) :
    ((readStream c request (body ++ last :: rest)).map LLMResponse.reading).toOption
      = ((parseResponsesResponse c request response).map LLMResponse.reading).toOption := by
  cases hvalid : validateTerminalResponse response with
  | error e =>
      obtain ⟨state, hbody, -⟩ := h.consumed hwell
      have hstream : readStream c request (body ++ last :: rest) = .error e := by
        rw [readStream, drainStream_of_consumed hbody, drainStream, handleEvent_ends hends, hvalid]
        rfl
      have hwhole : ∀ r, parseResponsesResponse c request response ≠ .ok r := by
        intro r hok
        rw [parseResponsesResponse] at hok
        split at hok
        · cases hmodel : responseModel response with
          | error e => simp [hmodel, bind, Except.bind] at hok
          | ok m => simp [hmodel, bind, Except.bind, throw, throwThe, MonadExceptOf.throw] at hok
        · simp [hvalid, bind, Except.bind] at hok
      rw [toOption_map_eq_none hwhole, hstream]
      rfl
  | ok valid =>
      obtain ⟨model, finishReason⟩ := valid
      obtain ⟨whole, haccept, hresponse, hwhole⟩ := @acceptItems_received _ response hwell
      rw [parseResponsesResponse_eq houtput hvalid haccept]
      rcases drainStream_conforming hwell houtput h hends hvalid rest with
        ⟨state, hdrain, hstate, hreceived⟩ | ⟨⟨e, hdrain⟩, hreason, item, hitem, hcut⟩
      · rw [readStream, hdrain]
        show ((parseStream c request state).map LLMResponse.reading).toOption = _
        by_cases hsound : Sound c finishReason items
        · rw [parseStream_sound hwell houtput hvalid hstate hreceived hsound,
            parseStream_sound hwell houtput hvalid hresponse hwhole hsound]
        · rw [toOption_map_eq_none (parseStream_unsound hwell houtput hvalid hstate hreceived hsound),
            toOption_map_eq_none (parseStream_unsound hwell houtput hvalid hresponse hwhole hsound)]
      · have hunsound : ¬ Sound c finishReason items := fun hs => hreason (hs.limit item hitem hcut)
        rw [readStream, hdrain,
          toOption_map_eq_none (parseStream_unsound hwell houtput hvalid hresponse hwhole hunsound)]
        rfl

/-! ## what a response vouches for -/

/-- The items and fragments that a stream delivered say the same as the terminal output,
calls marked incomplete apart. -/
structure Agreed (c : Codec) (body : List Event) (state : StreamState) (finalItems : List Json) :
    Prop where
  output : validatedResponseItems state.response.output = .ok finalItems
  items : Forall₂ (SameItem c) (compared finalItems state.outputItems)
    (compared finalItems finalItems)
  delivered : ∀ index, state.outputItemsByIndex.get? index = itemDone index body
  indexed : ∀ index item, itemDone index body = some item → isInterrupted item = false →
    ∃ terminal, finalItems[index.toNat]? = some terminal ∧ SameItem c item terminal
  calls : ∀ before event after, body = before ++ event :: after → Fits before event
  leftover : ∀ index, pendingFragments index body ≠ [] →
    0 ≤ index ∧ ∃ terminal, finalItems[index.toNat]? = some terminal ∧
      isInterrupted terminal = true ∧
      terminal.get "arguments" = .str (String.join (pendingFragments index body))

/-- The terminal event delivers nothing. -/
theorem handleEvent_terminal {state' : StreamState} {last : Event}
    (h : handleEvent state last = .ok (state', true)) :
    state'.outputItemsByIndex = state.outputItemsByIndex ∧
      state'.argumentFragments = state.argumentFragments := by
  cases last with
  | failed response error => cases h
  | incomplete response =>
      unfold handleEvent at h
      simp only [bind, Except.bind, pure, Except.pure, throw, throwThe, MonadExceptOf.throw] at h
      split at h
      · cases h
      · split at h
        · cases h
        · rw [← (Prod.mk.inj (Except.ok.inj h)).1]
          exact ⟨rfl, rfl⟩
  | argumentsDelta outputIndex delta =>
      unfold handleEvent at h
      simp only [pure, Except.pure, refuse] at h
      split at h <;> cases h
  | argumentsDone outputIndex arguments =>
      unfold handleEvent at h
      simp only [bind, Except.bind, pure, Except.pure, refuse] at h
      split at h
      · split at h <;> cases h
      · cases h
  | outputItemDone outputIndex item =>
      simp only [handleEvent] at h
      obtain ⟨accepted, -, hpair⟩ := Lib.bind_eq_ok.mp h
      cases (Prod.mk.inj (Except.ok.inj hpair)).2
  | completed response =>
      unfold handleEvent at h
      simp only [bind, Except.bind, pure, Except.pure, refuse] at h
      split at h
      · split at h
        · cases h
        · rw [← (Prod.mk.inj (Except.ok.inj h)).1]
          exact ⟨rfl, rfl⟩
      · cases h
  | passive => cases (Prod.mk.inj (Except.ok.inj h)).2
  | unsupported type => cases h
  | untyped => cases h

/-- A settled state has the items and the object it had, and fragments left over belong to
calls that were cut off. -/
theorem settleFragments_eq_ok {state' : StreamState} (h : settleFragments state = .ok state') :
    state'.outputItemsByIndex = state.outputItemsByIndex ∧ state'.response = state.response ∧
      ∀ finalItems, validatedResponseItems state.response.output = .ok finalItems →
        ∀ entry ∈ state.argumentFragments.entries, coversFragments finalItems entry = true := by
  unfold settleFragments at h
  split at h
  · rename_i hempty
    rw [← Except.ok.inj h]
    refine ⟨rfl, rfl, fun finalItems _ entry hentry => ?_⟩
    rw [hempty] at hentry
    cases hentry
  · obtain ⟨valid, -, h⟩ := Lib.bind_eq_ok.mp h
    obtain ⟨output, houtput, h⟩ := Lib.bind_eq_ok.mp h
    split at h
    · rename_i hcovered
      rw [← Except.ok.inj h]
      refine ⟨rfl, rfl, fun finalItems hfinal => ?_⟩
      rw [houtput] at hfinal
      rw [← Except.ok.inj hfinal]
      exact List.all_eq_true.mp hcovered.2
    · cases h

/-- **A stream that gives a response** agrees with its terminal object. -/
theorem agreed_of_response {request : Request} {events : List Event} {r : LLMResponse}
    (htrust : request.trustStreamed = false) (hdrain : drainStream {} events = .ok state)
    (hparse : parseStream c request state = .ok r) :
    ∃ body last rest finalItems, events = body ++ last :: rest ∧ Agreed c body state finalItems := by
  obtain ⟨body, last, rest, before, after, hevents, hbody, hlast, hsettle⟩ :=
    drainStream_eq_ok hdrain
  obtain ⟨hprogress, hfits⟩ := Progress.start.consumed hbody
  obtain ⟨hafterItems, hafterFragments⟩ := handleEvent_terminal hlast
  obtain ⟨hitems, hresponse, hcovers⟩ := settleFragments_eq_ok hsettle
  rw [parseStream] at hparse
  obtain ⟨⟨model, finishReason⟩, -, hrest⟩ := Lib.bind_eq_ok.mp hparse
  obtain ⟨list, hlist, -⟩ := Lib.bind_eq_ok.mp hrest
  rw [htrust] at hlist
  obtain ⟨finalItems, mismatch, hfinal, hmismatch, -, hagreed⟩ := reconcile_eq_ok hlist
  obtain ⟨hnone, hagree⟩ := hagreed rfl
  rw [hnone] at hmismatch
  have hdelivered : ∀ index, state.outputItemsByIndex.get? index = itemDone index body := by
    intro index
    rw [hitems, hafterItems]
    exact hprogress.done index
  refine ⟨body, last, rest, finalItems, hevents, ?_⟩
  exact {
    output := hfinal
    items := hagree.imp fun _ _ => sameItem_of_agree
    delivered := hdelivered
    indexed := by
      intro index item hdone hkept
      rw [← hdelivered] at hdone
      have hentry := Lib.anyM_eq_ok_false.mp hmismatch (index, item) (Dict.get?_eq_some.mp hdone)
      simp only [indexDisagrees, hkept, Bool.false_eq_true, if_false] at hentry
      split at hentry
      · cases hentry
      · rename_i terminal hterminal
        obtain ⟨b, hb, hnot⟩ := Lib.bind_eq_ok.mp hentry
        cases b with
        | true => exact ⟨terminal, hterminal, sameItem_of_agree hb⟩
        | false => cases hnot
    calls := hfits
    leftover := by
      intro index hpending
      have hfragments := hprogress.pending index
      rw [List.nil_append] at hfragments
      rw [← hfragments] at hpending ⊢
      cases hget : before.argumentFragments.get? index with
      | none => exact absurd (by rw [hget]; rfl) hpending
      | some fragments =>
          rw [Option.getD_some]
          have hcover := hcovers finalItems (hresponse ▸ hfinal) (index, fragments)
            (hafterFragments ▸ Dict.get?_eq_some.mp hget)
          rw [coversFragments, Bool.and_eq_true, decide_eq_true_eq] at hcover
          refine ⟨hcover.1, ?_⟩
          cases hterminal : finalItems[index.toNat]? with
          | none => simp [hterminal] at hcover
          | some terminal =>
              simp only [hterminal, Bool.and_eq_true, decide_eq_true_eq] at hcover
              exact ⟨terminal, rfl, hcover.2⟩ }

/-- **Responses streaming** agrees with the terminal object: a conforming stream gives the
response of its object, and a stream that gives a response, where streamed output is not
trusted on a mismatch, delivered what its object says, calls marked incomplete apart. -/
theorem stream_agrees (c : Codec) (request : Request) :
    (∀ (items : List Json) (response : Response) (body : List Event) (last : Event)
        (rest : List Event), WellFormedOutput items → response.output = .arr items →
        Conforming items body → Ends response last →
      ((readStream c request (body ++ last :: rest)).map LLMResponse.reading).toOption
        = ((parseResponsesResponse c request response).map LLMResponse.reading).toOption) ∧
    (∀ (events : List Event) (state : StreamState) (r : LLMResponse),
        request.trustStreamed = false → drainStream {} events = .ok state →
        parseStream c request state = .ok r →
      ∃ body last rest finalItems, events = body ++ last :: rest ∧
        Agreed c body state finalItems) := by
  constructor
  · intro items response body last rest hwell houtput hconforming hends
    exact readStream_conforming request hwell houtput hconforming hends rest
  · intro events state r htrust hdrain hparse
    exact agreed_of_response htrust hdrain hparse

/-! ## a call that was cut off -/

/-- Token estimates of one, and no text that is JSON. -/
def sampleCodec : Codec where
  jsonLoads _ := .valueError
  toInt value := value.asInt?
  extractMarkup text := .ok ([], some text)
  estimateMessagesTokens _ _ := 1
  estimateOutputTokens _ := 1
  jsonDumps _ := ""
  sha256 text := text
  estimateReplayTokens _ _ := 1
  estimateTokens _ := 1

/-- A call that was cut off. -/
def cutOffCall (callId name arguments : String) : Json :=
  .obj [("type", .str "function_call"), ("status", .str "incomplete"), ("call_id", .str callId),
    ("name", .str name), ("arguments", .str arguments)]

/-- An object that was cut off within one call. -/
def cutOffResponse : Response where
  status := .str "incomplete"
  incompleteDetails := .obj [("reason", .str "max_output_tokens")]
  model := .str "model"
  output := .arr [cutOffCall "call_2" "write" "[1"]

/-- A stream that finished another call at its index. -/
def cutOffEvents : List Event :=
  [.outputItemDone (.int 0) (cutOffCall "call_1" "read" "[2"), .incomplete (some cutOffResponse)]

/-- What it is drained into. -/
def cutOffState : StreamState where
  outputItemsByIndex := Dict.empty.set 0 (cutOffCall "call_1" "read" "[2")
  completedResponse := some cutOffResponse

theorem cutOffState_items : cutOffState.outputItems = [cutOffCall "call_1" "read" "[2"] := by
  simp [StreamState.outputItems, cutOffState, Dict.set, Dict.empty]

theorem cutOffEvents_drained : drainStream {} cutOffEvents = .ok cutOffState := by
  have hcall : acceptCall 0 (cutOffCall "call_1" "read" "[2") {} = .ok .empty := by
    simp only [acceptCall, StreamState.outputItems, Dict.empty, List.mergeSort_nil, List.map_nil,
      List.any_nil]
    rfl
  have haccept : acceptOutputItem (.int 0) (cutOffCall "call_1" "read" "[2") {} =
      .ok { outputItemsByIndex := Dict.empty.set 0 (cutOffCall "call_1" "read" "[2") } := by
    have hindex : (asIndex? (.int 0)).filter (0 ≤ ·) = some 0 := by decide
    simp only [acceptOutputItem, hindex]
    rw [if_neg (by decide), if_neg (by decide), if_pos (by decide), hcall]
    rfl
  simp only [cutOffEvents, drainStream, handleEvent, haccept]
  rfl

/-- The response that was cut off: no call, and no text. -/
def cutOffResult : LLMResponse where
  content := none
  toolCalls := []
  usage := { inputTokens := 1, outputTokens := 0, cacheReadTokens := none,
             cacheCreationTokens := none, reasoningTokens := none, estimated := true,
             rawUsage := .obj [] }
  finishReason := .maxTokens
  reasoning := none
  providerItems := []
  providerModel := "model"

theorem cutOffState_parsed : parseStream sampleCodec {} cutOffState = .ok cutOffResult := by
  simp only [parseStream, reconcile, cutOffState_items]
  rfl

/-- A call that was cut off is dropped on both sides: the stream may have named another
one. -/
theorem stream_drops_other_call :
    drainStream {} cutOffEvents = .ok cutOffState ∧
      parseStream sampleCodec {} cutOffState = .ok cutOffResult ∧
      cutOffState.outputItems = [cutOffCall "call_1" "read" "[2"] ∧
      cutOffState.response.output = .arr [cutOffCall "call_2" "write" "[1"] :=
  ⟨cutOffEvents_drained, cutOffState_parsed, cutOffState_items, rfl⟩

/-- The fragments of the call that was cut off. -/
def cutOffBody : List Event :=
  [.argumentsDelta (.int 0) (.str "["), .argumentsDelta (.int 0) (.str "1")]

theorem cutOffResponse_wellFormed : WellFormedOutput [cutOffCall "call_2" "write" "[1"] where
  supported := by decide
  callId := by decide
  name := by decide
  arguments := by decide
  distinct := by
    intro i j a b hi hj _ _ _
    have hi' := (List.getElem?_eq_some_iff.mp hi).1
    have hj' := (List.getElem?_eq_some_iff.mp hj).1
    simp only [List.length_singleton] at hi' hj'
    omega

theorem cutOffBody_conforming : Conforming [cutOffCall "call_2" "write" "[1"] cutOffBody where
  admitted := by
    intro before event after hsplit
    match before, hsplit with
    | [], hsplit =>
        rw [← (List.cons.inj hsplit).1]
        exact ⟨0, cutOffCall "call_2" "write" "[1", "[", rfl, rfl, rfl, by decide, rfl⟩
    | [_], hsplit =>
        rw [← (List.cons.inj (List.cons.inj hsplit).2).1, ← (List.cons.inj hsplit).1]
        exact ⟨0, cutOffCall "call_2" "write" "[1", "1", rfl, rfl, rfl, by decide, rfl⟩
    | _ :: _ :: before, hsplit =>
        have hnil := (List.cons.inj (List.cons.inj hsplit).2).2
        simp at hnil
  delivered := by
    intro i item hitem _
    have hi := (List.getElem?_eq_some_iff.mp hitem).1
    simp only [List.length_singleton] at hi
    have hzero : i = 0 := by omega
    subst hzero
    rw [← Option.some.inj hitem]
    exact ⟨by decide, Or.inr (by decide)⟩

theorem stream_agrees_sample :
    ((readStream sampleCodec {} (cutOffBody ++ [.incomplete (some cutOffResponse)])).map
        LLMResponse.reading).toOption
      = ((parseResponsesResponse sampleCodec {} cutOffResponse).map LLMResponse.reading).toOption ∧
    ∃ body last rest finalItems, cutOffEvents = body ++ last :: rest ∧
      Agreed sampleCodec body cutOffState finalItems := by
  obtain ⟨hconforming, hvouched⟩ := stream_agrees sampleCodec {}
  refine ⟨hconforming _ cutOffResponse cutOffBody _ [] cutOffResponse_wellFormed rfl
    cutOffBody_conforming (Or.inr ⟨rfl, rfl⟩), ?_⟩
  exact hvouched cutOffEvents cutOffState cutOffResult rfl cutOffEvents_drained
    cutOffState_parsed

end OpenCollab.Responses
