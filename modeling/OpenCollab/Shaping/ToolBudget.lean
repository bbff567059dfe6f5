import OpenCollab.Shaping.Rewrite
import Mathlib.Data.List.Nodup

/-!
# OpenCollab.Shaping.ToolBudget

`PerToolResultBudgetShaper` (`shaping/tool_budget.py`): the unconditional cap on
one tool result.  A result over the cap is replaced by its head and a notice; a
call that was rejected before execution because of its arguments has an
over-long argument text replaced as well, in both wire representations.

The second part is the only place where a layer writes *into* a message, and it
writes into a deep copy; `shape_spec` shows that the layer edits text only and
that no cell of the caller is touched.
-/

namespace OpenCollab

open List (Forall₂)

/-- What `json.loads` does with a text: a value, a `ValueError`, or a
`RecursionError` on a text nested too deeply. -/
inductive JsonLoads where
  | value (v : Json)
  | valueError
  | recursionError

/-- The text is no JSON object, so a call carrying it cannot be executed. -/
def NotAnObject (jsonLoads : String → JsonLoads) (text : String) : Prop :=
  ∀ kvs, jsonLoads text ≠ .value (.obj kvs)

/-- `text[:n]`. -/
def takeChars (n : Nat) (text : String) : String := String.ofList (text.toList.take n)

/-- `text[-n:]`, and `""` for `n = 0`. -/
def takeLastChars (n : Nat) (text : String) : String :=
  String.ofList (text.toList.drop (text.length - n))

@[simp] theorem length_takeChars (n : Nat) (text : String) :
    (takeChars n text).length = min n text.length := by simp [takeChars, ← String.length_toList]

/-- The tool-result cap, with the constructor's check. -/
structure PerToolResultBudgetShaper where
  maxChars : Nat := 16000
  preserveTail : Bool := false
  maxChars_pos : 0 < maxChars := by decide

namespace PerToolResultBudgetShaper

/-! ## the cap -/

/-- What a capped result says in place of the dropped text. -/
def notice (dropped : Nat) : String :=
  "\n\n[truncated " ++ toString dropped ++ " chars — re-read a narrower range " ++
    "(file_read with offset/limit, or grep) to see the rest]"

/-- The part of `max_chars` that is left for the source text beside `marker`. -/
def sourceBudget (cfg : PerToolResultBudgetShaper) (marker : String) : Nat :=
  cfg.maxChars - marker.length

/-- The head length after some rounds: the digits of the dropped count change the
marker, so it is recomputed. -/
def headLen (cfg : PerToolResultBudgetShaper) (content : String) : Nat → Nat
  | 0 => 0
  | rounds + 1 =>
      let budget := cfg.sourceBudget (notice (content.length - cfg.headLen content rounds))
      if cfg.preserveTail then budget * 3 / 8 else budget

/-- The text that replaces a result over the cap. -/
def shapedContent (cfg : PerToolResultBudgetShaper) (content : String) : String :=
  let head := cfg.headLen content 3
  let marker := notice (content.length - head)
  if cfg.preserveTail then
    let budget := cfg.sourceBudget marker
    let head := budget * 3 / 8
    takeChars cfg.maxChars
      (takeChars head content ++ marker ++ takeLastChars (budget - head) content)
  else
    takeChars cfg.maxChars (takeChars head content ++ marker)

/-- **The result is guaranteed to fit the budget.** -/
theorem length_shapedContent_le (cfg : PerToolResultBudgetShaper) (content : String) :
    (cfg.shapedContent content).length ≤ cfg.maxChars := by
  simp only [shapedContent]
  split <;> simp only [length_takeChars] <;> exact Nat.min_le_left _ _

/-- `_shape_message`. -/
def shapeMessage (cfg : PerToolResultBudgetShaper) (st : Store) (r : Ref) : Ref × Store :=
  let message := st.read r
  if !message.isTool then (r, st)
  else match message.text? with
    | none => (r, st)
    | some content =>
        if content.length ≤ cfg.maxChars then (r, st)
        else st.copyWith r (fun obj => { obj with content := some (.str (cfg.shapedContent content)) })
          (shallow_content _)

/-! ## rejected arguments -/

/-- The texts a rejected call is answered with start with one of these. -/
def REJECTION_PREFIXES : List String :=
  ["Error: invalid JSON arguments:",
   "Error: tool arguments must be a JSON object:",
   "Error: entire tool-call batch rejected before execution:"]

/-- A result saying that its call was rejected before execution. -/
def isRejection (message : Message) : Bool :=
  match message.text? with
  | none => false
  | some content => REJECTION_PREFIXES.any (content.startsWith ·)

/-- `previous["function"]["arguments"] = replacement`, on the calls with the id. -/
def omitCall (callId : String) (call : ToolCall) : ToolCall :=
  if call.id = callId then { call with arguments := omittedArguments } else call

/-- `item["arguments"] = replacement`, on the function-call items with the id. -/
def omitItem (callId : String) (item : Json) : Json :=
  if item.get "type" = .str "function_call" ∧ item.get "call_id" = .str callId then
    item.set "arguments" (.str omittedArguments)
  else item

/-- `_shape_rejected_arguments`. -/
def shapeRejectedArguments (cfg : PerToolResultBudgetShaper) (jsonLoads : String → JsonLoads)
    (st : Store) (r : Ref) (callId : String) : Ref × Store :=
  match (st.read r).toolCalls.find? (fun call => call.id = callId) with
  | none => (r, st)
  | some call =>
      if call.arguments.length ≤ cfg.maxChars then (r, st)
      else match jsonLoads call.arguments with
        | .value (.obj _) => (r, st)
        | .recursionError => (r, st)
        | .value _ | .valueError => st.copyAndWrite r (omitCall callId) (omitItem callId)

/-! ## the layer -/

/-- The loop of `shape`: `shaped` is the view so far, `pending` maps the ids of
the latest assistant turn to its place in `shaped`. -/
def shapeFrom (cfg : PerToolResultBudgetShaper) (jsonLoads : String → JsonLoads) :
    (refs shaped : List Ref) → (pending : List (String × Nat)) → Store → List Ref × Store
  | [], shaped, _, st => (shaped, st)
  | r :: rest, shaped, pending, st =>
      let message := st.read r
      let (r', st) := cfg.shapeMessage st r
      let shaped := shaped ++ [r']
      if message.role = .assistant then
        let owner := shaped.length - 1
        cfg.shapeFrom jsonLoads rest shaped (message.callIds.map (·, owner)) st
      else if message.isTool then
        match message.toolCallId with
        | none => cfg.shapeFrom jsonLoads rest shaped pending st
        | some callId =>
            let popped := pending.filter (fun entry => entry.1 ≠ callId)
            match pending.lookup callId with
            | none => cfg.shapeFrom jsonLoads rest shaped popped st
            | some owner =>
                if isRejection message then
                  let (r'', st) :=
                    cfg.shapeRejectedArguments jsonLoads st (shaped.getD owner 0) callId
                  cfg.shapeFrom jsonLoads rest (shaped.set owner r'') popped st
                else cfg.shapeFrom jsonLoads rest shaped popped st
      else cfg.shapeFrom jsonLoads rest shaped pending st

/-- `PerToolResultBudgetShaper.shape`. -/
def shape (cfg : PerToolResultBudgetShaper) (jsonLoads : String → JsonLoads) (refs : List Ref)
    (st : Store) : List Ref × Store :=
  cfg.shapeFrom jsonLoads refs [] [] st

/-! ## the cap edits content, the rejection edits arguments -/

variable {jsonLoads : String → JsonLoads} {st : Store} {r : Ref}

theorem shapeMessage_spec (cfg : PerToolResultBudgetShaper) (Rejected : String → Prop)
    (hr : r < st.messages.length) : EditedTo Rejected st r (cfg.shapeMessage st r) := by
  unfold shapeMessage
  cases ht : (st.read r).isTool with
  | false => simpa [ht] using EditedTo.refl Rejected hr
  | true =>
      cases hc : (st.read r).text? with
      | none => simpa [ht, hc] using EditedTo.refl Rejected hr
      | some content =>
          by_cases hlen : content.length ≤ cfg.maxChars
          · simpa [ht, hc, hlen] using EditedTo.refl Rejected hr
          · simp only [ht, hc, if_neg hlen, Bool.not_true, Bool.false_eq_true, if_false]
            obtain ⟨hext, hlt, hread⟩ := st.copyWith_spec _ (shallow_content
              (some (.str (cfg.shapedContent content)))) hr
            refine ⟨hext, hlt, ?_⟩
            rw [hread, st.read_getElem hr]
            exact edited_withContent Rejected _ _ _ (st.read_getElem hr ▸ ht)

/-- Omitting the arguments of one rejected call edits an assistant turn whose
ids are distinct. -/
theorem edited_omit (m : Message) (hrole : m.role = .assistant) (hnodup : m.callIds.Nodup)
    (hfind : m.toolCalls.find? (fun call => call.id = callId) = some call)
    (hrej : NotAnObject jsonLoads call.arguments) :
    Edited (NotAnObject jsonLoads) m
      { m with
        toolCalls := m.toolCalls.map (omitCall callId)
        responseItems := m.responseItems.map (·.map (omitItem callId)) } := by
  have hmem := List.mem_of_find?_eq_some hfind
  have hid : call.id = callId := by simpa using List.find?_some hfind
  have hopen : m.opensExchange = true := by
    cases hcalls : m.toolCalls with
    | nil => simp [hcalls] at hmem
    | cons c cs => simp [Message.opensExchange, hrole, hcalls]
  have hrefl : Edited (NotAnObject jsonLoads) m m := .refl m
  refine { hrefl with calls := ?_, items := ?_, untouched := fun h => ?_ }
  · rw [List.forall₂_map_right_iff, List.forall₂_same]
    intro c hc
    unfold omitCall
    split
    · next hcid =>
        -- distinct ids: the only call with this id is the one that was found
        have hsame : c = call := by
          have hinj := List.inj_on_of_nodup_map hnodup
          exact hinj hc hmem (hcid.trans hid.symm)
        exact ⟨rfl, rfl, .inr ⟨hsame ▸ hrej, rfl⟩⟩
    · exact SameCall.refl c
  · cases m.responseItems with
    | none => exact .none
    | some items =>
        refine .some ?_
        rw [List.forall₂_map_right_iff, List.forall₂_same]
        intro item _
        unfold omitItem
        split
        · next h => exact .inr ⟨h.1, rfl⟩
        · exact SameItem.refl item
  · exact absurd (h.symm.trans hopen) Bool.false_ne_true

theorem shapeRejectedArguments_spec (cfg : PerToolResultBudgetShaper) (callId : String)
    (hr : r < st.messages.length) (hrole : (st.read r).role = .assistant)
    (hnodup : (st.read r).callIds.Nodup) :
    EditedTo (NotAnObject jsonLoads) st r
      (cfg.shapeRejectedArguments jsonLoads st r callId) := by
  unfold shapeRejectedArguments
  cases hfind : (st.read r).toolCalls.find? (fun call => call.id = callId) with
  | none => exact EditedTo.refl _ hr
  | some call =>
      have homit : NotAnObject jsonLoads call.arguments →
          EditedTo (NotAnObject jsonLoads) st r
            (st.copyAndWrite r (omitCall callId) (omitItem callId)) := by
        intro hrej
        obtain ⟨hext, hlt, hread⟩ := st.copyAndWrite_spec (omitCall callId) (omitItem callId) hr
        exact ⟨hext, hlt, hread ▸ edited_omit _ hrole hnodup hfind hrej⟩
      dsimp only
      split
      · exact EditedTo.refl _ hr
      · split
        · exact EditedTo.refl _ hr
        · exact EditedTo.refl _ hr
        · next hne hv =>
            refine homit fun kvs h => ?_
            rw [hv] at h
            injection h with h
            exact hne kvs h
        · next hv =>
            refine homit fun kvs h => ?_
            rw [hv] at h
            contradiction

/-! ## the loop -/

/-- The loop invariant: `shaped` is, message by message, an edit of the
`processed` part of the history, and the caller's cells are untouched. -/
structure Shaped (Rejected : String → Prop) (st₀ : Store) (processed shaped : List Ref)
    (st : Store) : Prop where
  kept : st₀.Extends st
  has : st.Has shaped
  edited : Forall₂ (fun r r' => Edited Rejected (st₀.read r) (st.read r')) processed shaped

/-- The ids in `pending` belong to assistant turns already processed. -/
def OwnersValid (st₀ : Store) (processed : List Ref) (pending : List (String × Nat)) : Prop :=
  ∀ entry ∈ pending, ∃ r, processed[entry.2]? = some r ∧ (st₀.read r).role = .assistant

variable {Rejected : String → Prop} {st₀ : Store} {processed shaped : List Ref}

/-- Growing the store keeps the invariant. -/
theorem Shaped.mono {st' : Store} (h : Shaped Rejected st₀ processed shaped st)
    (hst : st.Extends st') : Shaped Rejected st₀ processed shaped st' := by
  refine ⟨h.kept.trans hst, h.has.mono hst, ?_⟩
  have hboth := Segments.forall₂_and_mem_right h.edited
  exact hboth.imp fun r r' hr => by rw [Store.read_of_extends hst (h.has r' hr.2)]; exact hr.1

/-- One more message is shaped. -/
theorem Shaped.push {out : Ref × Store} (h : Shaped Rejected st₀ processed shaped st)
    (hr : r < st₀.messages.length) (hout : EditedTo Rejected st r out) :
    Shaped Rejected st₀ (processed ++ [r]) (shaped ++ [out.1]) out.2 := by
  have hgrown := h.mono hout.kept
  refine ⟨hgrown.kept, ?_, ?_⟩
  · intro x hx
    cases List.mem_append.mp hx with
    | inl hx => exact hgrown.has x hx
    | inr hx => exact List.mem_singleton.mp hx ▸ hout.has
  · have hlast : Edited Rejected (st₀.read r) (out.2.read out.1) := by
      rw [← Store.read_of_extends h.kept hr]
      exact hout.edited
    exact List.rel_append hgrown.edited (.cons hlast .nil)

/-- A message already shaped is edited once more. -/
theorem Shaped.replace {out : Ref × Store} (h : Shaped Rejected st₀ processed shaped st)
    (howner : shaped[owner]? = some r') (hout : EditedTo Rejected st r' out) :
    Shaped Rejected st₀ processed (shaped.set owner out.1) out.2 := by
  have hgrown := h.mono hout.kept
  refine ⟨hgrown.kept, ?_, ?_⟩
  · intro x hx
    cases List.mem_or_eq_of_mem_set hx with
    | inl hx => exact hgrown.has x hx
    | inr hx => exact hx ▸ hout.has
  · refine Segments.forall₂_set hgrown.edited owner _ fun r hr => ?_
    obtain ⟨s, hs, hedit⟩ := Segments.forall₂_getElem? h.edited hr
    rw [howner] at hs
    cases hs
    exact hedit.trans hout.edited

theorem OwnersValid.push {pending : List (String × Nat)} (h : OwnersValid st₀ processed pending)
    (r : Ref) : OwnersValid st₀ (processed ++ [r]) pending := by
  intro entry hentry
  obtain ⟨p, hp, hrole⟩ := h entry hentry
  refine ⟨p, ?_, hrole⟩
  rw [List.getElem?_append_left (List.getElem?_eq_some_iff.mp hp).1]
  exact hp

theorem OwnersValid.filter {pending : List (String × Nat)} (h : OwnersValid st₀ processed pending)
    (p : String × Nat → Bool) : OwnersValid st₀ processed (pending.filter p) :=
  fun entry hentry => h entry (List.mem_filter.mp hentry).1

/-- The arguments of an assistant turn already shaped are omitted. -/
theorem Shaped.reject (h : Shaped (NotAnObject jsonLoads) st₀ processed shaped st)
    (cfg : PerToolResultBudgetShaper) (callId : String)
    (howner : ∃ r, processed[owner]? = some r ∧ (st₀.read r).role = .assistant)
    (hnodup : ∀ r ∈ processed, (st₀.read r).role = .assistant → (st₀.read r).callIds.Nodup) :
    let out := cfg.shapeRejectedArguments jsonLoads st (shaped.getD owner 0) callId
    Shaped (NotAnObject jsonLoads) st₀ processed (shaped.set owner out.1) out.2 := by
  intro out
  obtain ⟨p, hp, hrole⟩ := howner
  obtain ⟨r', hr', hedit⟩ := Segments.forall₂_getElem? h.edited hp
  have hget : shaped.getD owner 0 = r' := by simp [hr']
  have hids := hnodup p (List.mem_of_getElem? hp) hrole
  rw [← hedit.callIds_eq] at hids
  refine h.replace hr' ?_
  simp only [out, hget]
  exact cfg.shapeRejectedArguments_spec callId (h.has r' (List.mem_of_getElem? hr'))
    (hedit.role.trans hrole) hids

theorem mem_of_lookup {pending : List (String × Nat)} (h : pending.lookup callId = some owner) :
    (callId, owner) ∈ pending := by
  obtain ⟨before, after, rfl, _⟩ := List.lookup_eq_some_iff.mp h
  simp

/-- **The loop keeps its invariant**, on a history whose assistant turns carry
distinct ids. -/
theorem shapeFrom_spec (cfg : PerToolResultBudgetShaper) (jsonLoads : String → JsonLoads)
    (refs : List Ref) (pending : List (String × Nat))
    (hnodup : ∀ r ∈ processed ++ refs, (st₀.read r).role = .assistant → (st₀.read r).callIds.Nodup)
    (hrefs : st₀.Has refs) (h : Shaped (NotAnObject jsonLoads) st₀ processed shaped st)
    (howners : OwnersValid st₀ processed pending) :
    Shaped (NotAnObject jsonLoads) st₀ (processed ++ refs)
      (cfg.shapeFrom jsonLoads refs shaped pending st).1
      (cfg.shapeFrom jsonLoads refs shaped pending st).2 := by
  induction refs generalizing processed shaped pending st with
  | nil => simpa [shapeFrom] using h
  | cons r rest ih =>
      have hr := hrefs r List.mem_cons_self
      have hrest : st₀.Has rest := fun x hx => hrefs x (List.mem_cons_of_mem r hx)
      have hread := Store.read_of_extends h.kept hr
      have hpush := h.push hr
        (cfg.shapeMessage_spec _ (Nat.lt_of_lt_of_le hr h.kept.length_le.1))
      have hsplit : processed ++ r :: rest = processed ++ [r] ++ rest := by simp
      rw [hsplit] at hnodup ⊢
      have hlen : (shaped ++ [(cfg.shapeMessage st r).1]).length - 1 = processed.length := by
        simp [h.edited.length_eq]
      simp only [shapeFrom, hread]
      split
      · next hassistant =>
          refine ih _ hnodup hrest hpush fun entry hentry => ?_
          obtain ⟨id, _, rfl⟩ := List.mem_map.mp hentry
          exact ⟨r, by rw [hlen]; exact List.getElem?_concat_length, hassistant⟩
      · split
        · split
          · exact ih _ hnodup hrest hpush (howners.push r)
          · next callId _ =>
              have hpopped := (howners.filter fun entry => entry.1 ≠ callId).push r
              split
              · exact ih _ hnodup hrest hpush hpopped
              · next owner howner =>
                  split
                  · have howner' := howners.push r (callId, owner) (mem_of_lookup howner)
                    exact ih _ hnodup hrest (hpush.reject cfg callId howner' fun p hp =>
                      hnodup p (List.mem_append_left rest hp)) hpopped
                  · exact ih _ hnodup hrest hpush hpopped
        · exact ih _ hnodup hrest hpush (howners.push r)

/-- **The cap edits text only**: the view is the history, message by message, and
the caller's message objects are untouched. -/
theorem shape_spec (cfg : PerToolResultBudgetShaper) (jsonLoads : String → JsonLoads)
    (hrefs : st.Has refs)
    (hnodup : ∀ m ∈ st.view refs, m.role = .assistant → m.callIds.Nodup) :
    EditedHistory (NotAnObject jsonLoads) st refs (cfg.shape jsonLoads refs st) := by
  have hstart : Shaped (NotAnObject jsonLoads) st [] [] st :=
    ⟨Store.Extends.refl st, by simp [Store.Has], .nil⟩
  have hnew : ∀ r ∈ [] ++ refs, (st.read r).role = .assistant → (st.read r).callIds.Nodup :=
    fun r hr => hnodup _ (List.mem_map_of_mem hr)
  have hend := cfg.shapeFrom_spec jsonLoads refs [] hnew hrefs hstart (by simp [OwnersValid])
  refine ⟨hend.kept, hend.has, ?_⟩
  rw [Store.view, Store.view, List.forall₂_map_left_iff, List.forall₂_map_right_iff]
  exact hend.edited

end PerToolResultBudgetShaper

end OpenCollab
