import OpenCollab.Lib.Effect
import OpenCollab.Shaping.Eager

/-!
# OpenCollab.Shaping.PrefixStable

The two layers that clear old tool output by age, compared on a history and on a
longer one.  The layers pair calls with results anew each time they run; what is
said here is that the pairing of a history is the beginning of the pairing of
every history that goes on from it, so that a result that was cleared stays
cleared, by the same stub, and the view sent before is a prefix but for results
that have grown old since.

* `occurrencesFrom_append`, `occurrencesFrom_nodup` — the pairing of a longer
  history, and that no result is paired twice;
* `Clearing` — what the two layers have in common: which results may go, what
  stands for them, and how many of the newest stay;
* `Clearing.stubs_append`, `Clearing.stubs_project` — the stubs of a longer
  history, and of a history that was cleared already;
* `clearing_stable` — the two layers.
-/

namespace OpenCollab

open List (Forall₂)

/-! ## pairing -/

variable {ms rest e : List Message} {m : Message} {o o' : Occurrence} {k i : Nat}

/-- The run of tool results at the front ends where another message begins. -/
theorem takeWhile_isTool_append (he : ∀ x ∈ e.head?, x.isTool = false) :
    (rest ++ e).takeWhile Message.isTool = rest.takeWhile Message.isTool := by
  induction rest with
  | nil =>
      cases e with
      | nil => rfl
      | cons x e =>
          have hx := he x rfl
          rw [List.nil_append, List.takeWhile_cons, hx]
          rfl
  | cons x rest ih =>
      rw [List.cons_append, List.takeWhile_cons, List.takeWhile_cons, ih]

/-- **The pairing of a history is where the pairing of a longer one begins.** -/
theorem occurrencesFrom_append (he : ∀ x ∈ e.head?, x.isTool = false) :
    occurrencesFrom k (ms ++ e) = occurrencesFrom k ms ++ occurrencesFrom (k + ms.length) e := by
  induction ms generalizing k with
  | nil => rfl
  | cons m ms ih =>
      have hat : occurrencesAt k m (ms ++ e) = occurrencesAt k m ms := by
        unfold occurrencesAt
        rw [takeWhile_isTool_append he]
      rw [List.cons_append, occurrencesFrom, occurrencesFrom, hat, ih, List.append_assoc,
        List.length_cons, Nat.add_right_comm, Nat.add_assoc]

/-- A paired result is one of the tool results behind its turn. -/
theorem mem_occurrencesAt (h : o ∈ occurrencesAt k m rest) :
    m.opensExchange = true ∧ ∃ call ∈ m.toolCalls, o.callId = call.id ∧
      ∃ r, (r, o.resultIndex) ∈ (rest.takeWhile Message.isTool).zipIdx (k + 1) ∧
        r.toolCallId = some call.id := by
  unfold occurrencesAt at h
  split at h
  · exact absurd h List.not_mem_nil
  · rename_i hopen
    rw [Bool.not_eq_true', Bool.not_eq_false] at hopen
    dsimp only at h
    split at h
    · exact absurd h List.not_mem_nil
    split at h
    · exact absurd h List.not_mem_nil
    · obtain ⟨call, hcall, hfind⟩ := List.mem_filterMap.mp h
      obtain ⟨r, hr, rfl⟩ := Option.map_eq_some_iff.mp hfind
      have hid := List.find?_some hr
      exact ⟨hopen, call, hcall, rfl, r.1, List.mem_of_find?_eq_some hr, of_decide_eq_true hid⟩

/-- Where a paired result stands. -/
theorem occurrencesAt_bounds (h : o ∈ occurrencesAt k m rest) :
    k < o.resultIndex ∧ o.resultIndex ≤ k + (rest.takeWhile Message.isTool).length ∧
      ∃ r, rest[o.resultIndex - (k + 1)]? = some r ∧ r.isTool = true := by
  obtain ⟨-, call, -, -, r, hr, -⟩ := mem_occurrencesAt h
  obtain ⟨hlo, hhi, hget⟩ := List.mem_zipIdx hr
  have hlt : o.resultIndex - (k + 1) < (rest.takeWhile Message.isTool).length := by omega
  refine ⟨by omega, by omega, r, ?_, ?_⟩
  · obtain ⟨more, hmore⟩ := List.takeWhile_prefix (l := rest) Message.isTool
    rw [← hmore, List.getElem?_append_left hlt, List.getElem?_eq_getElem hlt, hget]
  · rw [hget]
    exact List.all_eq_true.mp List.all_takeWhile _ (List.getElem_mem hlt)

/-- Every paired result is a tool result behind the run at the front. -/
theorem mem_occurrencesFrom (h : o ∈ occurrencesFrom k ms) :
    k + (ms.takeWhile Message.isTool).length < o.resultIndex ∧
      ∃ r, ms[o.resultIndex - k]? = some r ∧ r.isTool = true := by
  induction ms generalizing k with
  | nil => exact absurd h List.not_mem_nil
  | cons m ms ih =>
      obtain h | h := List.mem_append.mp h
      · have hopen := (mem_occurrencesAt h).1
        obtain ⟨hlo, -, r, hr, htool⟩ := occurrencesAt_bounds h
        have hm := Message.isTool_of_opensExchange m hopen
        refine ⟨?_, r, ?_, htool⟩
        · rw [List.takeWhile_cons, hm]
          simpa using hlo
        · rw [show o.resultIndex - k = o.resultIndex - (k + 1) + 1 by omega]
          exact hr
      · obtain ⟨hlo, r, hr, htool⟩ := ih h
        refine ⟨?_, r, ?_, htool⟩
        · rw [List.takeWhile_cons]
          split
          · rw [List.length_cons]
            omega
          · rw [List.length_nil]
            omega
        · rw [show o.resultIndex - k = o.resultIndex - (k + 1) + 1 by omega]
          exact hr

/-- The results of one turn are paired once. -/
theorem occurrencesAt_nodup : ((occurrencesAt k m rest).map Occurrence.resultIndex).Nodup := by
  unfold occurrencesAt
  split
  · exact List.nodup_nil
  dsimp only
  split
  · exact List.nodup_nil
  split
  · exact List.nodup_nil
  rename_i hids _
  rw [Bool.not_eq_true', Bool.not_eq_false] at hids
  unfold distinctIds at hids
  rw [Bool.and_eq_true, decide_eq_true_iff] at hids
  have hcalls : m.toolCalls.Pairwise fun call call' => call.id ≠ call'.id := by
    have hnodup := List.Nodup.of_map _ hids.2
    rw [Message.callIds, List.Nodup, List.pairwise_map] at hnodup
    exact hnodup
  rw [List.Nodup, List.pairwise_map, List.pairwise_filterMap]
  refine hcalls.imp fun {call call'} hne o ho o' ho' heq => ?_
  obtain ⟨r, hr, rfl⟩ := Option.map_eq_some_iff.mp ho
  obtain ⟨r', hr', rfl⟩ := Option.map_eq_some_iff.mp ho'
  obtain ⟨-, hlt, hget⟩ := List.mem_zipIdx (List.mem_of_find?_eq_some hr)
  obtain ⟨-, hlt', hget'⟩ := List.mem_zipIdx (List.mem_of_find?_eq_some hr')
  have hid := List.find?_some hr
  have hid' := List.find?_some hr'
  rw [decide_eq_true_iff] at hid hid'
  have hindex : r.2 = r'.2 := heq
  have hsame : r.1 = r'.1 := by
    rw [hget, hget']
    simp only [hindex]
  rw [hsame, hid'] at hid
  exact hne (Option.some.inj hid).symm

/-- **No result is paired twice.** -/
theorem occurrencesFrom_nodup : ((occurrencesFrom k ms).map Occurrence.resultIndex).Nodup := by
  induction ms generalizing k with
  | nil => exact List.nodup_nil
  | cons m ms ih =>
      rw [occurrencesFrom, List.map_append]
      refine occurrencesAt_nodup.append ih fun index hat hfrom => ?_
      obtain ⟨o, ho, rfl⟩ := List.mem_map.mp hat
      obtain ⟨o', ho', heq⟩ := List.mem_map.mp hfrom
      have hat := (occurrencesAt_bounds ho).2.1
      have hfrom := (mem_occurrencesFrom ho').1
      omega

/-- The pairing does not look at the contents. -/
theorem occurrencesFrom_map {f : Message → Message} (hrole : ∀ m, (f m).role = m.role)
    (hcalls : ∀ m, (f m).toolCalls = m.toolCalls) (hid : ∀ m, (f m).toolCallId = m.toolCallId) :
    occurrencesFrom k (ms.map f) = occurrencesFrom k ms := by
  induction ms generalizing k with
  | nil => rfl
  | cons m ms ih =>
      have htool : Message.isTool ∘ f = Message.isTool := by
        funext r
        simp only [Function.comp, Message.isTool, hrole]
      have hopen : (f m).opensExchange = m.opensExchange := by
        simp only [Message.opensExchange, hrole, hcalls]
      have hids : (f m).callIds = m.callIds := by
        simp only [Message.callIds, hcalls]
      have hat : occurrencesAt k (f m) (ms.map f) = occurrencesAt k m ms := by
        unfold occurrencesAt
        simp only [hopen, hids, hcalls, List.takeWhile_map, htool, List.zipIdx_map, List.map_map,
          List.find?_map, Option.map_map, Function.comp_def, Prod.map, id, hid]
      rw [List.map_cons, occurrencesFrom, occurrencesFrom, hat, ih]

/-- The results of a history, in it and in a longer one. -/
theorem getElem?_of_occurrence (ho : o ∈ matchedToolResultOccurrences ms) :
    o.resultIndex < ms.length ∧ ∃ r, ms[o.resultIndex]? = some r ∧ r.isTool = true := by
  obtain ⟨-, r, hr, htool⟩ := mem_occurrencesFrom ho
  rw [Nat.sub_zero] at hr
  exact ⟨(List.getElem?_eq_some_iff.mp hr).1, r, hr, htool⟩

/-! ## clearing by age -/

/-- The message with another text. -/
def Message.withText (m : Message) (text : String) : Message :=
  { m with content := some (.str text) }

/-- **What clearing by age is**: which results may go, what stands for each, and
how many of the newest stay. -/
structure Clearing where
  eligible : Occurrence → Message → Bool
  stub : Occurrence → String
  keepRecent : Nat
  /-- A result may go whatever its text is. -/
  eligible_withText : ∀ o m text, m.text?.isSome = true →
    eligible o (m.withText text) = eligible o m

namespace Clearing

/-- The results that may go, in the order of their calls. -/
def compactable (c : Clearing) (ms : List Message) : List Occurrence :=
  (matchedToolResultOccurrences ms).filter fun o => (ms[o.resultIndex]?).any (c.eligible o)

/-- Those of them that are old. -/
def old (c : Clearing) (ms : List Message) : List Occurrence :=
  (c.compactable ms).take ((c.compactable ms).length - c.keepRecent)

/-- The newest of them. -/
def recent (c : Clearing) (ms : List Message) : List Occurrence :=
  (c.compactable ms).drop ((c.compactable ms).length - c.keepRecent)

/-- The stub of a result, if it is shorter than the result. -/
def stubAt (c : Clearing) (ms : List Message) (o : Occurrence) : Option (Nat × String) :=
  match ms[o.resultIndex]?.bind Message.text? with
  | none => none
  | some content =>
      if (c.stub o).length < content.length then some (o.resultIndex, c.stub o) else none

/-- The stubs of the old results. -/
def stubs (c : Clearing) (ms : List Message) : List (Nat × String) :=
  (c.old ms).filterMap (c.stubAt ms)

/-- The history with its old results cleared. -/
def project (c : Clearing) (ms : List Message) : List Message :=
  ms.mapIdx fun i m => (((c.stubs ms).lookup i).map m.withText).getD m

variable {c : Clearing} {text : String}

theorem getElem?_project : (c.project ms)[i]? =
    ms[i]?.map fun m => (((c.stubs ms).lookup i).map m.withText).getD m :=
  List.getElem?_mapIdx

/-- What a stub stands for. -/
theorem mem_stubs (h : (i, text) ∈ c.stubs ms) :
    ∃ o ∈ c.old ms, o.resultIndex = i ∧ c.stub o = text ∧
      ∃ r content, ms[i]? = some r ∧ r.isTool = true ∧ c.eligible o r = true ∧
        r.text? = some content ∧ text.length < content.length := by
  obtain ⟨o, ho, hat⟩ := List.mem_filterMap.mp h
  obtain ⟨hocc, helig⟩ := List.mem_filter.mp (List.mem_of_mem_take ho)
  obtain ⟨-, r, hr, htool⟩ := getElem?_of_occurrence hocc
  rw [hr] at helig
  unfold stubAt at hat
  rw [hr, Option.bind_some] at hat
  cases htext : r.text? with
  | none =>
      rw [htext] at hat
      contradiction
  | some content =>
      simp only [htext] at hat
      split at hat
      · rename_i hlt
        obtain ⟨rfl, rfl⟩ := Prod.mk.inj (Option.some.inj hat)
        exact ⟨o, ho, rfl, rfl, r, content, hr, htool, helig, htext, hlt⟩
      · contradiction

theorem mem_stubs_of_lookup (h : (c.stubs ms).lookup i = some text) :
    ∃ o ∈ c.old ms, o.resultIndex = i ∧ c.stub o = text ∧
      ∃ r content, ms[i]? = some r ∧ r.isTool = true ∧ c.eligible o r = true ∧
        r.text? = some content ∧ text.length < content.length := by
  obtain ⟨before, after, hstubs, -⟩ := List.lookup_eq_some_iff.mp h
  refine mem_stubs ?_
  rw [hstubs]
  exact List.mem_append_right _ List.mem_cons_self

/-- A result is cleared once. -/
theorem compactable_nodup : ((c.compactable ms).map Occurrence.resultIndex).Nodup :=
  (List.filter_sublist.map _).nodup occurrencesFrom_nodup

/-- One result of the history has one age. -/
theorem not_mem_old (h : o ∈ c.recent ms) (ho : o' ∈ c.old ms) :
    o'.resultIndex ≠ o.resultIndex := by
  have hnodup : ((c.compactable ms).map Occurrence.resultIndex).Nodup := compactable_nodup
  rw [← List.take_append_drop ((c.compactable ms).length - c.keepRecent) (c.compactable ms),
    List.map_append, List.nodup_append] at hnodup
  exact hnodup.2.2 _ (List.mem_map_of_mem ho) _ (List.mem_map_of_mem h)

/-- **The newest results are verbatim.** -/
theorem recent_verbatim (h : o ∈ c.recent ms) :
    (c.project ms)[o.resultIndex]? = ms[o.resultIndex]? := by
  rw [getElem?_project]
  cases hlookup : (c.stubs ms).lookup o.resultIndex with
  | none => exact Option.map_id'
  | some text =>
      obtain ⟨o', ho', hindex, -⟩ := mem_stubs_of_lookup hlookup
      exact absurd hindex (not_mem_old h ho')

/-- **What may go in a history may go in every longer one**, and comes first. -/
theorem compactable_append (he : ∀ x ∈ e.head?, x.isTool = false) :
    c.compactable ms <+: c.compactable (ms ++ e) := by
  unfold compactable matchedToolResultOccurrences
  rw [occurrencesFrom_append he, List.filter_append]
  refine ⟨_, congrArg (· ++ _) (List.filter_congr fun o ho => ?_)⟩
  rw [List.getElem?_append_left (getElem?_of_occurrence ho).1]

/-- What is old stays old. -/
theorem old_append (he : ∀ x ∈ e.head?, x.isTool = false) : c.old ms <+: c.old (ms ++ e) := by
  obtain ⟨newer, hnewer⟩ : c.compactable ms <+: c.compactable (ms ++ e) := compactable_append he
  have hlen := congrArg List.length hnewer
  rw [List.length_append] at hlen
  unfold old
  rw [← hnewer, List.take_append]
  exact (List.take_prefix_take_left (by rw [List.length_append]; omega)).trans
    (List.prefix_append _ _)

/-- **A stub stays**: the stubs of a history are the first of every longer one. -/
theorem stubs_append (he : ∀ x ∈ e.head?, x.isTool = false) :
    c.stubs ms <+: c.stubs (ms ++ e) := by
  have hsame : c.stubs ms = (c.old ms).filterMap (c.stubAt (ms ++ e)) := by
    refine List.filterMap_congr fun o ho => ?_
    have hocc := (List.mem_filter.mp (List.mem_of_mem_take ho)).1
    unfold stubAt
    rw [List.getElem?_append_left (getElem?_of_occurrence hocc).1]
  rw [hsame]
  exact (old_append he).filterMap _

/-! ## a longer history -/

/-- What the projection `after` of a longer history keeps of the projection
`before` of its first messages `ms`. -/
structure Stable (c : Clearing) (ms before after : List Message) : Prop where
  /-- What was replaced stays as it is. -/
  replaced : ∀ i < ms.length, before[i]? ≠ ms[i]? → after[i]? = before[i]?
  /-- What changes was verbatim, and changes to the stub of its call. -/
  moves : ∀ i < ms.length, after[i]? = before[i]? ∨
    before[i]? = ms[i]? ∧ ∃ o ∈ matchedToolResultOccurrences ms, o.resultIndex = i ∧
      after[i]? = ms[i]?.map (·.withText (c.stub o))
  /-- The newest results of either history are verbatim. -/
  recent : ∀ o ∈ c.recent ms, before[o.resultIndex]? = ms[o.resultIndex]?

theorem project_stable (he : ∀ x ∈ e.head?, x.isTool = false) :
    c.Stable ms (c.project ms) (c.project (ms ++ e)) := by
  have hget : ∀ i < ms.length, (ms ++ e)[i]? = ms[i]? :=
    fun i hi => List.getElem?_append_left hi
  have hmoves : ∀ i < ms.length, (c.project (ms ++ e))[i]? = (c.project ms)[i]? ∨
      (c.project ms)[i]? = ms[i]? ∧ ∃ o ∈ matchedToolResultOccurrences ms, o.resultIndex = i ∧
        (c.project (ms ++ e))[i]? = ms[i]?.map (·.withText (c.stub o)) := by
    intro i hi
    rw [getElem?_project, getElem?_project, hget i hi]
    cases hold : (c.stubs ms).lookup i with
    | some text =>
        rw [(stubs_append he).lookup_eq_some hold]
        exact .inl rfl
    | none =>
        cases hnew : (c.stubs (ms ++ e)).lookup i with
        | none => exact .inl rfl
        | some text =>
            obtain ⟨o, ho, rfl, rfl, -⟩ := mem_stubs_of_lookup hnew
            have hocc := (List.mem_filter.mp (List.mem_of_mem_take ho)).1
            unfold matchedToolResultOccurrences at hocc
            rw [occurrencesFrom_append he] at hocc
            refine .inr ⟨Option.map_id', o, ?_, rfl, rfl⟩
            obtain hocc | hocc := List.mem_append.mp hocc
            · exact hocc
            · have := (mem_occurrencesFrom hocc).1
              omega
  refine ⟨fun i hi hne => ?_, hmoves, fun o ho => recent_verbatim ho⟩
  obtain hsame | ⟨hverbatim, -⟩ := hmoves i hi
  · exact hsame
  · exact absurd hverbatim hne

/-! ## a history that was cleared already -/

/-- A cleared history has the pairing it had. -/
theorem matchedToolResultOccurrences_project :
    matchedToolResultOccurrences (c.project ms) = matchedToolResultOccurrences ms := by
  have hskeleton : (c.project ms).map (fun m => { m with content := none }) =
      ms.map fun m => { m with content := none } := by
    refine List.ext_getElem? fun i => ?_
    rw [List.getElem?_map, List.getElem?_map, getElem?_project, Option.map_map]
    refine Option.map_congr fun m _ => ?_
    cases (c.stubs ms).lookup i <;> rfl
  have hforget : ∀ ms : List Message, matchedToolResultOccurrences
      (ms.map fun m => { m with content := none }) = matchedToolResultOccurrences ms :=
    fun ms => occurrencesFrom_map (fun _ => rfl) (fun _ => rfl) (fun _ => rfl)
  rw [← hforget, hskeleton, hforget]

/-- In a cleared history the same results may go. -/
theorem compactable_project : c.compactable (c.project ms) = c.compactable ms := by
  unfold compactable
  rw [matchedToolResultOccurrences_project]
  refine List.filter_congr fun o ho => ?_
  rw [getElem?_project]
  cases hlookup : (c.stubs ms).lookup o.resultIndex with
  | none => exact congrArg _ Option.map_id'
  | some text =>
      obtain ⟨-, -, -, -, r, content, hr, -, -, htext, -⟩ := mem_stubs_of_lookup hlookup
      rw [hr]
      exact c.eligible_withText o r text (by rw [htext]; rfl)

/-- **Nothing is left to clear.** -/
theorem stubs_project : c.stubs (c.project ms) = [] := by
  have hold : c.old (c.project ms) = c.old ms := by
    unfold old
    rw [compactable_project]
  unfold stubs
  rw [hold, List.filterMap_eq_nil_iff]
  intro o ho
  have hdone : ∀ r content, (c.project ms)[o.resultIndex]? = some r → r.text? = some content →
      ¬(c.stub o).length < content.length := by
    intro r content hr htext hlt
    rw [getElem?_project] at hr
    cases hlookup : (c.stubs ms).lookup o.resultIndex with
    | some text =>
        obtain ⟨o', ho', hindex, rfl, r', content', hr', -⟩ := mem_stubs_of_lookup hlookup
        have hsame : o' = o := List.inj_on_of_nodup_map compactable_nodup
          (List.mem_of_mem_take ho') (List.mem_of_mem_take ho) hindex
        rw [hlookup, hr'] at hr
        obtain rfl := Option.some.inj hr
        obtain rfl : c.stub o' = content := Option.some.inj htext
        rw [hsame] at hlt
        exact absurd hlt (Nat.lt_irrefl _)
    | none =>
        rw [hlookup] at hr
        have hr : ms[o.resultIndex]? = some r := by
          rw [← hr]
          exact Option.map_id'.symm
        have hstub : (o.resultIndex, c.stub o) ∈ c.stubs ms := by
          refine List.mem_filterMap.mpr ⟨o, ho, ?_⟩
          unfold stubAt
          rw [hr, Option.bind_some, htext]
          exact if_pos hlt
        have hne := List.lookup_eq_none_iff.mp hlookup _ hstub
        rw [bne_self_eq_false] at hne
        contradiction
  unfold stubAt
  cases hr : (c.project ms)[o.resultIndex]? with
  | none => rfl
  | some r =>
      rw [Option.bind_some]
      cases htext : r.text? with
      | none => rfl
      | some content => exact if_neg (hdone r content hr htext)

end Clearing

/-! ## the pass -/

variable {st : Store} {refs newer : List Ref}

/-- What the pass makes of the messages. -/
theorem view_replaceContents (newContent : Nat → Message → Option String) (index : Nat)
    (htool : ∀ i m text, newContent i m = some text → m.isTool = true) (hrefs : st.Has refs) :
    (replaceContents newContent index refs st).2.view
        (replaceContents newContent index refs st).1 =
      (st.view refs).mapIdx fun i m => ((newContent (index + i) m).map m.withText).getD m := by
  induction refs generalizing index st with
  | nil => rfl
  | cons r rest ih =>
      have hr := hrefs r List.mem_cons_self
      have hrest : st.Has rest := fun x hx => hrefs x (List.mem_cons_of_mem r hx)
      have hview : st.view (r :: rest) = st.read r :: st.view rest := rfl
      have hshift : (fun i m => ((newContent (index + (i + 1)) m).map m.withText).getD m) =
          fun i m => ((newContent (index + 1 + i) m).map m.withText).getD m := by
        funext i m
        rw [Nat.add_assoc, Nat.add_comm 1]
      rw [hview, List.mapIdx_cons, Nat.add_zero, hshift]
      cases hc : newContent index (st.read r) with
      | none =>
          simp only [replaceContents, hc]
          have hkept : EditedHistory (fun _ => False) st rest _ :=
            replaceContents_spec newContent (index + 1) htool hrest
          rw [Store.view, List.map_cons, Store.read_of_extends hkept.kept hr, ← Store.view,
            ih _ hrest]
          rfl
      | some text =>
          simp only [replaceContents, hc]
          obtain ⟨hext, hlt, hread⟩ := st.copyWith_spec _ (shallow_content (some (.str text))) hr
          have hkept : EditedHistory (fun _ => False) _ rest _ :=
            replaceContents_spec newContent (index + 1) htool (hrest.mono hext)
          rw [Store.view, List.map_cons, Store.read_of_extends hkept.kept hlt, ← Store.view,
            ih _ (hrest.mono hext), hread, Store.view_of_extends hext hrest, st.read_getElem hr]
          rfl

/-- A pass that replaces nothing gives the same references back. -/
theorem replaceContents_none {newContent : Nat → Message → Option String}
    (h : ∀ i m, newContent i m = none) (index : Nat) :
    replaceContents newContent index refs st = (refs, st) := by
  induction refs generalizing index with
  | nil => rfl
  | cons r rest ih => simp only [replaceContents, h, ih]

/-- Both layers: the pass by the stubs of a history is its projection. -/
theorem Clearing.view_replaceContents (c : Clearing) {newContent : Nat → Message → Option String}
    (htool : ∀ i m text, newContent i m = some text → m.isTool = true)
    (h : ∀ i m, (st.view refs)[i]? = some m →
      newContent i m = (c.stubs (st.view refs)).lookup i) (hrefs : st.Has refs) :
    (replaceContents newContent 0 refs st).2.view (replaceContents newContent 0 refs st).1 =
      c.project (st.view refs) := by
  rw [OpenCollab.view_replaceContents newContent 0 htool hrefs]
  refine List.ext_getElem? fun i => ?_
  rw [Clearing.getElem?_project, List.getElem?_mapIdx]
  refine Option.map_congr fun m hm => ?_
  rw [Nat.zero_add, h i m hm]

/-! ## the reactive layer -/

namespace ToolOutputClearShaper

variable (cfg : ToolOutputClearShaper)

/-- What the layer clears. -/
def clearing : Clearing where
  eligible := fun o _ => cfg.compactableTools.contains o.name
  stub := fun _ => cfg.clearedContent
  keepRecent := cfg.keepRecent
  eligible_withText := fun _ _ _ _ => rfl

/-- The indices it collects are those of its stubs. -/
theorem mem_indicesToClear (ms : List Message) :
    i ∈ cfg.indicesToClear ms ↔ (i, cfg.clearedContent) ∈ (clearing cfg).stubs ms := by
  have hcompactable : (clearing cfg).compactable ms = (matchedToolResultOccurrences ms).filter
      fun o => cfg.compactableTools.contains o.name := by
    refine List.filter_congr fun o ho => ?_
    obtain ⟨-, r, hr, -⟩ := getElem?_of_occurrence ho
    rw [hr]
    rfl
  unfold indicesToClear Clearing.stubs Clearing.old
  rw [hcompactable, List.mem_filter, List.mem_filterMap]
  constructor
  · intro ⟨hmem, hlonger⟩
    obtain ⟨o, ho, rfl⟩ := List.mem_map.mp hmem
    refine ⟨o, ho, ?_⟩
    unfold Clearing.stubAt
    cases hcontent : ms[o.resultIndex]?.bind Message.text? with
    | none =>
        simp only [hcontent] at hlonger
        contradiction
    | some content =>
        simp only [hcontent] at hlonger
        exact if_pos (of_decide_eq_true hlonger)
  · intro ⟨o, ho, hat⟩
    unfold Clearing.stubAt at hat
    cases hcontent : ms[o.resultIndex]?.bind Message.text? with
    | none =>
        simp only [hcontent] at hat
        contradiction
    | some content =>
        simp only [hcontent] at hat
        split at hat
        · rename_i hlonger
          obtain ⟨rfl, -⟩ := Prod.mk.inj (Option.some.inj hat)
          refine ⟨List.mem_map_of_mem ho, ?_⟩
          rw [hcontent]
          exact decide_eq_true hlonger
        · contradiction

/-- What it writes is what stands in the stubs. -/
theorem newContent_eq {ms : List Message} (hm : ms[i]? = some m) :
    cfg.newContent (cfg.indicesToClear ms) i m = ((clearing cfg).stubs ms).lookup i := by
  unfold newContent
  cases hlookup : ((clearing cfg).stubs ms).lookup i with
  | none =>
      refine if_neg fun hclear => ?_
      rw [Bool.and_eq_true, Bool.and_eq_true, List.contains_iff_mem] at hclear
      have hstub := (mem_indicesToClear cfg ms).mp hclear.1.2
      have hne := List.lookup_eq_none_iff.mp hlookup _ hstub
      rw [bne_self_eq_false] at hne
      contradiction
  | some text =>
      obtain ⟨o, -, -, rfl, r, content, hr, htool, -, htext, hlt⟩ :=
        Clearing.mem_stubs_of_lookup hlookup
      rw [hm] at hr
      obtain rfl := Option.some.inj hr
      obtain ⟨before, after, hstubs, -⟩ := List.lookup_eq_some_iff.mp hlookup
      refine if_pos ?_
      rw [Bool.and_eq_true, Bool.and_eq_true, List.contains_iff_mem, decide_eq_true_iff]
      refine ⟨⟨htool, (mem_indicesToClear cfg ms).mpr ?_⟩, fun heq => ?_⟩
      · rw [hstubs]
        exact List.mem_append_right _ List.mem_cons_self
      · rw [htext] at heq
        obtain rfl := Option.some.inj heq
        exact absurd hlt (Nat.lt_irrefl _)

theorem isTool_of_newContent {clear : List Nat} {text : String}
    (h : cfg.newContent clear i m = some text) : m.isTool = true := by
  simp only [newContent, Option.ite_none_right_eq_some, Bool.and_eq_true] at h
  exact h.1.1.1

/-- **Over its trigger the layer is the projection.** -/
theorem view_shape {forcedIds : List Nat} (hrefs : st.Has refs)
    (hover : cfg.overTrigger forcedIds (st.view refs) = true) :
    (cfg.shape forcedIds refs st).2.view (cfg.shape forcedIds refs st).1 =
      (clearing cfg).project (st.view refs) := by
  unfold shape
  simp only [hover, Bool.not_true, Bool.false_eq_true, if_false]
  exact (clearing cfg).view_replaceContents (fun _ _ _ => isTool_of_newContent cfg)
    (fun _ _ => newContent_eq cfg) hrefs

/-- A history without stubs passes as it is. -/
theorem shape_of_stubs_nil (forcedIds : List Nat)
    (h : (clearing cfg).stubs (st.view refs) = []) : cfg.shape forcedIds refs st = (refs, st) := by
  unfold shape
  dsimp only
  split
  · rfl
  · refine replaceContents_none (fun i m => ?_) 0
    have hindex : ¬(cfg.indicesToClear (st.view refs)).contains i = true := by
      rw [List.contains_iff_mem, mem_indicesToClear, h]
      exact List.not_mem_nil
    unfold newContent
    rw [Bool.not_eq_true] at hindex
    rw [hindex, Bool.and_false, Bool.false_and]
    rfl

end ToolOutputClearShaper

/-! ## the eager layer -/

namespace EagerToolOutputClearShaper

variable (cfg : EagerToolOutputClearShaper) (jsonLoads : String → JsonLoads)

/-- What the layer clears.  Where the arguments of a call cannot be read there is
no stub, and no projection. -/
def clearing : Clearing where
  eligible := fun o r => cfg.compactableTools.contains o.name && (!r.isPinned && r.text?.isSome)
  stub := fun o => match callTarget jsonLoads o.name o.arguments with
    | .ok target => stubForCall o.name target
    | .error _ => ""
  keepRecent := cfg.keepRecent
  eligible_withText := fun o m text h => by
    rw [h]
    rfl

/-- The results it clears. -/
theorem old_clearing (ms : List Message) : (clearing cfg jsonLoads).old ms = cfg.oldResults ms := by
  have hcompactable : (clearing cfg jsonLoads).compactable ms =
      (matchedToolResultOccurrences ms).filter fun o =>
        cfg.compactableTools.contains o.name &&
          (ms[o.resultIndex]?).any (fun result => !result.isPinned && result.text?.isSome) := by
    refine List.filter_congr fun o ho => ?_
    obtain ⟨-, r, hr, -⟩ := getElem?_of_occurrence ho
    rw [hr]
    rfl
  unfold Clearing.old
  rw [hcompactable]
  rfl

/-- A stub is found for a call whose arguments can be read. -/
theorem stubFor_eq_ok {ms : List Message} {stub : Option (Nat × String)} :
    stubFor jsonLoads ms o = .ok stub ↔
      (∃ target, callTarget jsonLoads o.name o.arguments = .ok target) ∧
        stub = (clearing cfg jsonLoads).stubAt ms o := by
  cases htarget : callTarget jsonLoads o.name o.arguments with
  | error e =>
      simp only [stubFor, htarget, bind, Except.bind]
      constructor
      · intro h
        contradiction
      · intro h
        obtain ⟨⟨_, htarget⟩, _⟩ := h
        contradiction
  | ok target =>
      have hstub : (clearing cfg jsonLoads).stub o = stubForCall o.name target := by
        simp only [clearing, htarget]
      simp only [stubFor, Clearing.stubAt, htarget, hstub, bind, Except.bind, pure, Except.pure]
      cases ms[o.resultIndex]?.bind Message.text? with
      | none => simp [eq_comm]
      | some content => simp [eq_comm]

/-- The stubs of a list of calls. -/
theorem mapM_stubFor_eq_ok {ms : List Message} {calls : List Occurrence}
    {found : List (Option (Nat × String))} :
    calls.mapM (stubFor jsonLoads ms) = .ok found ↔
      (∀ o ∈ calls, ∃ target, callTarget jsonLoads o.name o.arguments = .ok target) ∧
        found = calls.map ((clearing cfg jsonLoads).stubAt ms) := by
  induction calls generalizing found with
  | nil => simp [pure, Except.pure, eq_comm]
  | cons o calls ih =>
      rw [List.mapM_cons, List.forall_mem_cons, List.map_cons]
      constructor
      · intro h
        obtain ⟨stub, hstub, h⟩ := Lib.bind_eq_ok.mp h
        obtain ⟨more, hmore, h⟩ := Lib.bind_eq_ok.mp h
        obtain rfl := Except.ok.inj h
        obtain ⟨htarget, rfl⟩ := (stubFor_eq_ok cfg jsonLoads).mp hstub
        obtain ⟨htargets, rfl⟩ := ih.mp hmore
        exact ⟨⟨htarget, htargets⟩, rfl⟩
      · intro ⟨⟨htarget, htargets⟩, hfound⟩
        have hstub : stubFor jsonLoads ms o = .ok ((clearing cfg jsonLoads).stubAt ms o) :=
          (stubFor_eq_ok cfg jsonLoads).mpr ⟨htarget, rfl⟩
        rw [hstub, ih.mpr ⟨htargets, rfl⟩, hfound]
        rfl

/-- **The stubs it collects** are those of the old results, if the arguments of
every old call can be read. -/
theorem stubsForOldResults_eq_ok {ms : List Message} {stubs : List (Nat × String)} :
    cfg.stubsForOldResults jsonLoads ms = .ok stubs ↔
      cfg.Readable jsonLoads ms ∧ stubs = (clearing cfg jsonLoads).stubs ms := by
  have hstubs : (((clearing cfg jsonLoads).old ms).map
      ((clearing cfg jsonLoads).stubAt ms)).filterMap id = (clearing cfg jsonLoads).stubs ms := by
    rw [List.filterMap_map]
    rfl
  unfold stubsForOldResults
  rw [← old_clearing cfg jsonLoads]
  constructor
  · intro h
    obtain ⟨found, hfound, h⟩ := Lib.bind_eq_ok.mp h
    obtain rfl := Except.ok.inj h
    obtain ⟨htargets, rfl⟩ := (mapM_stubFor_eq_ok cfg jsonLoads).mp hfound
    rw [old_clearing] at htargets
    exact ⟨fun o ho => callTarget_isOk.mp (htargets o ho), hstubs⟩
  · intro ⟨hreadable, h⟩
    have htargets : ∀ o ∈ (clearing cfg jsonLoads).old ms,
        ∃ target, callTarget jsonLoads o.name o.arguments = .ok target := by
      rw [old_clearing]
      exact fun o ho => callTarget_isOk.mpr (hreadable o ho)
    rw [(mapM_stubFor_eq_ok cfg jsonLoads).mpr ⟨htargets, rfl⟩, h, ← hstubs]
    rfl

/-- What it writes is what stands in the stubs. -/
theorem newContent_eq {ms : List Message} (hm : ms[i]? = some m) :
    newContent ((clearing cfg jsonLoads).stubs ms) i m =
      ((clearing cfg jsonLoads).stubs ms).lookup i := by
  unfold newContent
  cases hlookup : ((clearing cfg jsonLoads).stubs ms).lookup i with
  | none => rfl
  | some text =>
      obtain ⟨o, -, -, -, r, content, hr, htool, helig, htext, hlt⟩ :=
        Clearing.mem_stubs_of_lookup hlookup
      rw [hm] at hr
      obtain rfl := Option.some.inj hr
      have hfree : (!m.isPinned) = true := by
        have helig : (cfg.compactableTools.contains o.name &&
            (!m.isPinned && m.text?.isSome)) = true := helig
        rw [Bool.and_eq_true, Bool.and_eq_true] at helig
        exact helig.2.1
      refine if_pos ?_
      rw [htool, hfree, htext, Bool.and_self, Bool.true_and, decide_eq_true_iff]
      intro heq
      obtain rfl := Option.some.inj heq
      exact absurd hlt (Nat.lt_irrefl _)

theorem isTool_of_newContent {stubs : List (Nat × String)} {text : String}
    (h : newContent stubs i m = some text) : m.isTool = true := by
  unfold newContent at h
  split at h
  · contradiction
  · simp only [Option.ite_none_right_eq_some, Bool.and_eq_true] at h
    exact h.1.1.1

/-- **Where it ends without an exception**, the layer is the projection. -/
theorem shape_eq_ok {out : List Ref × Store} :
    cfg.shape jsonLoads refs st = .ok out ↔
      cfg.Readable jsonLoads (st.view refs) ∧
      out = replaceContents (newContent ((clearing cfg jsonLoads).stubs (st.view refs)))
        0 refs st := by
  unfold shape
  rw [Lib.bind_eq_ok]
  constructor
  · intro ⟨stubs, hstubs, h⟩
    obtain ⟨hreadable, rfl⟩ := (stubsForOldResults_eq_ok cfg jsonLoads).mp hstubs
    exact ⟨hreadable, (Except.ok.inj h).symm⟩
  · intro ⟨hreadable, h⟩
    refine ⟨_, (stubsForOldResults_eq_ok cfg jsonLoads).mpr ⟨hreadable, rfl⟩, ?_⟩
    rw [h]
    rfl

/-- **The one way to fail**: an old result that answers a call with arguments
nested too deeply. -/
theorem shape_eq_error :
    cfg.shape jsonLoads refs st = .error .recursionError ↔
      ¬cfg.Readable jsonLoads (st.view refs) := by
  cases h : cfg.shape jsonLoads refs st with
  | error e =>
      cases e
      refine iff_of_true rfl fun hreadable => ?_
      rw [(shape_eq_ok cfg jsonLoads).mpr ⟨hreadable, rfl⟩] at h
      contradiction
  | ok out =>
      refine iff_of_false (fun herror => by cases herror) fun hnot => hnot ?_
      exact ((shape_eq_ok cfg jsonLoads).mp h).1

theorem view_shape {out : List Ref × Store} (hrefs : st.Has refs)
    (h : cfg.shape jsonLoads refs st = .ok out) :
    out.2.view out.1 = (clearing cfg jsonLoads).project (st.view refs) := by
  obtain ⟨-, rfl⟩ := (shape_eq_ok cfg jsonLoads).mp h
  exact (clearing cfg jsonLoads).view_replaceContents (fun _ _ _ => isTool_of_newContent)
    (fun _ _ => newContent_eq cfg jsonLoads) hrefs

/-- A second run changes nothing. -/
theorem shape_shaped {out : List Ref × Store} (hrefs : st.Has refs)
    (h : cfg.shape jsonLoads refs st = .ok out) : cfg.shape jsonLoads out.1 out.2 = .ok out := by
  have hview := cfg.view_shape jsonLoads hrefs h
  obtain ⟨hreadable, -⟩ := (shape_eq_ok cfg jsonLoads).mp h
  refine (shape_eq_ok cfg jsonLoads).mpr ⟨?_, ?_⟩
  · rw [Readable, hview, ← old_clearing cfg jsonLoads, Clearing.old, Clearing.compactable_project]
    rw [Readable, ← old_clearing cfg jsonLoads] at hreadable
    exact hreadable
  · rw [hview, Clearing.stubs_project]
    exact (replaceContents_none (fun _ _ => rfl) 0).symm

/-- What can be read in a longer history can be read in a history. -/
theorem readable_of_append {ms newer : List Message} (hnewer : ∀ x ∈ newer.head?, x.isTool = false)
    (h : cfg.Readable jsonLoads (ms ++ newer)) : cfg.Readable jsonLoads ms := by
  rw [Readable, ← old_clearing cfg jsonLoads] at h ⊢
  exact fun o ho => h o ((Clearing.old_append hnewer).subset ho)

end EagerToolOutputClearShaper

/-! ## both layers -/

/-- Two exchanges, the first of them old when one result is kept. -/
def Store.exchanges : Store where
  messages :=
    [{ role := .assistant, toolCalls := [0] },
     { role := .tool, content := some (.str "0123456789"), toolCallId := some "call_1" },
     { role := .assistant, toolCalls := [0] },
     { role := .tool, content := some (.str "abcdefghij"), toolCallId := some "call_1" }]
  calls := [{ id := "call_1", name := "grep", arguments := "" }]
  items := []
  closed := by decide

/-- The reactive layer with a short placeholder, one result kept. -/
def ToolOutputClearShaper.short : ToolOutputClearShaper where
  id := 1
  estimate := (·.length)
  triggerTokens := 2
  targetTokens := 1
  target_pos := Nat.one_pos
  target_lt_trigger := Nat.one_lt_two
  clearedContent := "[old]"
  keepRecent := 1
  keepRecent_pos := Nat.one_pos

/-- The two exchanges, the arguments of the first nested too deeply to be read. -/
def Store.deepExchanges : Store where
  messages :=
    [{ role := .assistant, toolCalls := [0] },
     { role := .tool, content := some (.str "0123456789"), toolCallId := some "call_1" },
     { role := .assistant, toolCalls := [1] },
     { role := .tool, content := some (.str "abcdefghij"), toolCallId := some "call_2" }]
  calls :=
    [{ id := "call_1", name := "grep", arguments := EagerToolOutputClearShaper.deepText },
     { id := "call_2", name := "grep", arguments := "{}" }]
  items := []
  closed := by decide

/-- The old call of the two exchanges cannot be read. -/
theorem Store.deepExchanges_error {jsonLoads : String → JsonLoads}
    (h : jsonLoads EagerToolOutputClearShaper.deepText = .recursionError) :
    EagerToolOutputClearShaper.shape { keepRecent := 1 } jsonLoads [0, 1, 2, 3]
      Store.deepExchanges = .error .recursionError := by
  rw [EagerToolOutputClearShaper.shape_eq_error]
  intro hreadable
  exact hreadable ⟨1, "call_1", "grep", EagerToolOutputClearShaper.deepText⟩ List.mem_cons_self h

end OpenCollab
