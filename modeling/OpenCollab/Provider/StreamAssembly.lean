import OpenCollab.Lib.Segments
import OpenCollab.Provider.ChatStream

/-!
# OpenCollab.Provider.StreamAssembly

A streamed completion and the same completion sent whole give one response.

`Cut turn chunks` says that the chunks carry the turn: every text in fragments
whose concatenation it is, every tool call under an index of its own, the finish
reason and the usage on any of the chunks.  How the fragments interleave is left
open.

* `absorbed` — the state after the chunks, its texts and its slots apart;
* `finalizeToolCalls_cut` — the slots close into the calls of the turn;
* `assembleStream_cut` — so the response is one function of the turn,
  whatever the cut was;
* `assembleStream_ne_ok` — a broken stream is never turned into a response.
-/

namespace OpenCollab.Chat

open List (Forall₂)

/-! ## what a stream carries -/

/-- The delta of the answer in a choice, if it is the choice with index 0. -/
def choiceDeltas (choice : ChunkChoice) : List Delta :=
  if choice.index ≠ 0 then [] else choice.delta.toList

/-- The deltas of the answer, in order. -/
def deltas (chunks : List Chunk) : List Delta :=
  chunks.flatMap fun chunk => chunk.choices.flatMap choiceDeltas

/-- A text of the answer: its fragments, joined. -/
def joined (text : Delta → Option String) (chunks : List Chunk) : String :=
  String.join ((deltas chunks).map fun delta => orEmpty (text delta))

/-- The finish reasons of the answer. -/
def finishReasons (chunks : List Chunk) : List (Option String) :=
  chunks.flatMap fun chunk =>
    (chunk.choices.filter fun choice => choice.index = 0).map fun choice => orNone choice.finishReason

/-- The tool-call fragments of the answer. -/
def callDeltas (chunks : List Chunk) : List ToolCallDelta :=
  (deltas chunks).flatMap Delta.toolCalls

/-- Those that name the call they belong to. -/
def labelled (calls : List ToolCallDelta) : List (Int × ToolCallDelta) :=
  calls.filterMap fun call => call.index.map (·, call)

/-- The indexes of the calls, in the order in which they are first seen. -/
def firstSeen (chunks : List Chunk) : List Int :=
  ((labelled (callDeltas chunks)).map Prod.fst).eraseDups

/-- The fragments of one call. -/
def fragmentsOf (index : Int) (chunks : List Chunk) : List ToolCallDelta :=
  (callDeltas chunks).filter fun call => call.index = some index

/-- A value that was reported any number of times, and at least once. -/
def Reported {α : Type} (seen : List (Option α)) (value : Option α) : Prop :=
  (∀ x ∈ seen, x = none ∨ x = value) ∧ (value = none ∨ value ∈ seen)

/-- The fragments of the index are those of the call: the id stands on any of them. -/
structure CutCall (chunks : List Chunk) (index : Int) (call : ToolCall) : Prop where
  name : String.join ((fragmentsOf index chunks).map fun f => orEmpty f.name) = call.name
  arguments :
    String.join ((fragmentsOf index chunks).map fun f => orEmpty f.arguments) = call.arguments
  id : Reported ((fragmentsOf index chunks).map fun f => orNone f.id) (some call.id)

/-- **The chunks are a cut of the turn.** -/
structure Cut (turn : Completion) (chunks : List Chunk) : Prop where
  content : joined Delta.content chunks = orEmpty turn.message.content
  refusal : joined Delta.refusal chunks = orEmpty turn.message.refusal
  reasoning : ∃ field : ReasoningField,
    (∀ delta ∈ deltas chunks, orNone (delta.reasoningText field.other) = none) ∧
      joined (Delta.reasoningText · field) chunks = orEmpty (messageReasoning turn.message)
  indexed : ∀ call ∈ callDeltas chunks, call.index ≠ none
  calls : Forall₂ (CutCall chunks) (firstSeen chunks) turn.message.toolCalls
  finish : Reported (finishReasons chunks) turn.finishReason
  usage : Reported (chunks.map Chunk.usage) turn.usage
  model : Reported (chunks.map fun chunk => cleanProviderModel chunk.model)
    (cleanProviderModel turn.model)

/-- **A completed turn**: it says why it finished, and its calls have an id and the
name of a registered function. -/
structure Completed (turn : Completion) (tools : List Json) : Prop where
  finish : ∃ reason, reason ≠ "" ∧ turn.finishReason = some reason
  id : ∀ call ∈ turn.message.toolCalls, call.id ≠ ""
  name : ∀ call ∈ turn.message.toolCalls, call.name ≠ ""
  registered : ∀ call ∈ turn.message.toolCalls,
    registeredNames tools = [] ∨ call.name ∈ registeredNames tools

/-- **A stream that broke off**, or that cannot be put together. -/
inductive Broken (chunks : List Chunk) : Prop where
  | unfinished (h : ∀ reason ∈ finishReasons chunks, reason = none)
  | unlabelled (call : ToolCallDelta) (hcall : call ∈ callDeltas chunks) (h : call.index = none)
  | changedId (index : Int) (first second : ToolCallDelta)
      (hfirst : first ∈ fragmentsOf index chunks) (hsecond : second ∈ fragmentsOf index chunks)
      (old new : String) (hold : orNone first.id = some old) (hnew : orNone second.id = some new)
      (h : old ≠ new)

/-! ## pieces -/

theorem join_piece (text : Option String) : String.join (piece text) = orEmpty text := by
  cases text with
  | none => rfl
  | some t =>
      by_cases ht : t = ""
      · subst ht
        rfl
      · simp [piece, orNone_some ht, orEmpty]

/-- Empty fragments add nothing to what is joined. -/
theorem join_pieces {α : Type} (text : α → Option String) (xs : List α) :
    String.join (xs.flatMap fun x => piece (text x))
      = String.join (xs.map fun x => orEmpty (text x)) := by
  induction xs with
  | nil => rfl
  | cons x xs ih =>
      rw [List.flatMap_cons, String.join_append, ih, List.map_cons, String.join_cons, join_piece]

/-! ## the state, its texts and its slots apart -/

/-- A choice, without its tool calls. -/
def absorbChoiceText (state : ChatStreamState) (choice : ChunkChoice) : ChatStreamState :=
  if choice.index ≠ 0 then state
  else
    (choiceDeltas choice).foldl absorbText
      { state with finishReason := (orNone choice.finishReason).or state.finishReason }

/-- A chunk, without its tool calls. -/
def absorbChunkText (state : ChatStreamState) (chunk : Chunk) : ChatStreamState :=
  chunk.choices.foldl absorbChoiceText (absorbHeader state chunk)

/-- The state with another table of slots. -/
def withSlots (slots : Lib.Dict Int ToolCallSlot) (state : ChatStreamState) : ChatStreamState :=
  { state with toolSlots := slots }

theorem absorbText_withSlots (slots : Lib.Dict Int ToolCallSlot) (state : ChatStreamState)
    (delta : Delta) :
    absorbText (withSlots slots state) delta = withSlots slots (absorbText state delta) := by
  simp only [absorbText, absorbReasoningDelta, withSlots]
  split
  · rfl
  · rfl

theorem absorbChoice_withSlots (slots : Lib.Dict Int ToolCallSlot) (state : ChatStreamState)
    (choice : ChunkChoice) :
    absorbChoice (withSlots slots state) choice
      = (((choiceDeltas choice).flatMap Delta.toolCalls).foldlM absorbToolCallDelta slots).map
          fun slots => withSlots slots (absorbChoiceText state choice) := by
  by_cases hindex : choice.index = 0
  · cases hdelta : choice.delta with
    | none => simp [absorbChoice, absorbChoiceText, choiceDeltas, hindex, hdelta, withSlots,
        Except.map, pure, Except.pure]
    | some delta =>
        simp only [absorbChoice, absorbChoiceText, choiceDeltas, hindex, hdelta, ne_eq,
          not_true_eq_false, if_false, Option.toList_some, List.flatMap_cons, List.flatMap_nil,
          List.append_nil, List.foldl_cons, List.foldl_nil]
        have hslots := absorbText_withSlots slots
          { state with finishReason := (orNone choice.finishReason).or state.finishReason } delta
        simp only [withSlots] at hslots ⊢
        rw [hslots]
        cases delta.toolCalls.foldlM absorbToolCallDelta slots with
        | error e => rfl
        | ok slots' => rfl
  · simp [absorbChoice, absorbChoiceText, choiceDeltas, hindex, Except.map, pure, Except.pure]

theorem absorbChunk_withSlots (slots : Lib.Dict Int ToolCallSlot) (state : ChatStreamState)
    (chunk : Chunk) :
    absorbChunk (withSlots slots state) chunk
      = ((chunk.choices.flatMap choiceDeltas).flatMap Delta.toolCalls
          |>.foldlM absorbToolCallDelta slots).map
          fun slots => withSlots slots (absorbChunkText state chunk) := by
  have hheader : absorbHeader (withSlots slots state) chunk = withSlots slots (absorbHeader state chunk) :=
    rfl
  rw [absorbChunk, hheader, Lib.foldlM_frame absorbChoice_withSlots, List.flatMap_assoc,
    Lib.foldlM_flatMap]
  rfl

/-- **The state after the chunks**: its slots are those of the tool-call fragments,
and the rest is what the texts make it. -/
theorem absorbed (chunks : List Chunk) :
    chunks.foldlM absorbChunk {}
      = ((callDeltas chunks).foldlM absorbToolCallDelta .empty).map
          fun slots => withSlots slots (chunks.foldl absorbChunkText {}) := by
  have hrun := Lib.foldlM_frame absorbChunk_withSlots chunks .empty {}
  rw [callDeltas, deltas, List.flatMap_assoc, Lib.foldlM_flatMap]
  exact hrun

/-! ## the texts -/

section Texts

variable {chunks : List Chunk} {P : ChatStreamState → Prop} {get : ChatStreamState → List String}
  {text : Delta → Option String}

/-- A part of the state that only the deltas of the answer add to. -/
theorem collected
    (hdelta : ∀ state, ∀ delta ∈ deltas chunks, P state →
      P (absorbText state delta) ∧ get (absorbText state delta) = get state ++ piece (text delta))
    (hfinish : ∀ state reason, P state →
      P { state with finishReason := reason } ∧ get { state with finishReason := reason } = get state)
    (hheader : ∀ state chunk, P state →
      P (absorbHeader state chunk) ∧ get (absorbHeader state chunk) = get state)
    (hstart : P {}) (hblank : get {} = []) :
    String.join (get (chunks.foldl absorbChunkText {})) = joined text chunks := by
  have hchoice : ∀ state choice, (∀ delta ∈ choiceDeltas choice, delta ∈ deltas chunks) → P state →
      P (absorbChoiceText state choice) ∧ get (absorbChoiceText state choice)
        = get state ++ (choiceDeltas choice).flatMap fun delta => piece (text delta) := by
    intro state choice hmem hstate
    by_cases hindex : choice.index = 0
    · rw [absorbChoiceText, if_neg (by simp [hindex])]
      obtain ⟨hnext, hkept⟩ :=
        hfinish state ((orNone choice.finishReason).or state.finishReason) hstate
      rw [← hkept]
      exact Lib.foldl_collect (fun state delta hin => hdelta state delta (hmem delta hin)) hnext
    · simpa [absorbChoiceText, choiceDeltas, hindex] using hstate
  have hchunk : ∀ state, ∀ chunk ∈ chunks, P state →
      P (absorbChunkText state chunk) ∧ get (absorbChunkText state chunk) = get state ++
        (chunk.choices.flatMap choiceDeltas).flatMap fun delta => piece (text delta) := by
    intro state chunk hin hstate
    obtain ⟨hnext, hkept⟩ := hheader state chunk hstate
    rw [absorbChunkText, ← hkept, List.flatMap_assoc]
    refine Lib.foldl_collect (fun state choice hc => hchoice state choice ?_) hnext
    intro delta hd
    exact List.mem_flatMap_of_mem hin (List.mem_flatMap_of_mem hc hd)
  rw [(Lib.foldl_collect hchunk hstart).2, hblank, List.nil_append, joined, ← join_pieces, deltas,
    List.flatMap_assoc]

theorem content_absorbed (chunks : List Chunk) :
    String.join (chunks.foldl absorbChunkText {}).contentParts = joined Delta.content chunks := by
  refine collected (P := fun _ => True) ?_ ?_ ?_ trivial rfl
  · intro state delta _ _
    simp only [absorbText, absorbReasoningDelta]
    split
    · exact ⟨trivial, rfl⟩
    · exact ⟨trivial, rfl⟩
  · exact fun _ _ _ => ⟨trivial, rfl⟩
  · exact fun _ _ _ => ⟨trivial, rfl⟩

theorem refusal_absorbed (chunks : List Chunk) :
    String.join (chunks.foldl absorbChunkText {}).refusalParts = joined Delta.refusal chunks := by
  refine collected (P := fun _ => True) ?_ ?_ ?_ trivial rfl
  · intro state delta _ _
    simp only [absorbText, absorbReasoningDelta]
    split
    · exact ⟨trivial, rfl⟩
    · exact ⟨trivial, rfl⟩
  · exact fun _ _ _ => ⟨trivial, rfl⟩
  · exact fun _ _ _ => ⟨trivial, rfl⟩

/-- A delta whose other spelling is blank adds its reasoning. -/
theorem absorbReasoningDelta_field {field : ReasoningField} {delta : Delta} {state : ChatStreamState}
    (hblank : orNone (delta.reasoningText field.other) = none)
    (hstate : state.reasoningField = none ∨ state.reasoningField = some field) :
    ((absorbReasoningDelta delta state).reasoningField = none ∨
        (absorbReasoningDelta delta state).reasoningField = some field) ∧
      (absorbReasoningDelta delta state).reasoningParts
        = state.reasoningParts ++ piece (delta.reasoningText field) := by
  cases htext : orNone (delta.reasoningText field) with
  | none =>
      have hstay : absorbReasoningDelta delta state = state := by
        cases field <;> cases hstate <;>
          simp_all [absorbReasoningDelta, ReasoningField.other, List.find?]
      rw [hstay]
      exact ⟨hstate, by simp [piece, htext]⟩
  | some piece =>
      cases field <;> cases hstate <;>
        simp_all [absorbReasoningDelta, ReasoningField.other, List.find?]

theorem reasoning_absorbed {field : ReasoningField}
    (hblank : ∀ delta ∈ deltas chunks, orNone (delta.reasoningText field.other) = none) :
    String.join (chunks.foldl absorbChunkText {}).reasoningParts
      = joined (Delta.reasoningText · field) chunks := by
  refine collected (P := fun state => state.reasoningField = none ∨ state.reasoningField = some field)
    ?_ ?_ ?_ (.inl rfl) rfl
  · intro state delta hin hstate
    exact absorbReasoningDelta_field (hblank delta hin) hstate
  · exact fun _ _ hstate => ⟨hstate, rfl⟩
  · exact fun _ _ hstate => ⟨hstate, rfl⟩

end Texts

/-! ## what is said of the whole completion -/

section Reports

variable {chunks : List Chunk}

/-- One report of the value, whether the first or the last report counts. -/
theorem reported_step {α : Type} {f : Option α → Option α → Option α}
    (hf : ∀ old new, f old new = new.or old ∨ f old new = old.or new) {old x value : Option α}
    (hold : old = none ∨ old = value) (hx : x = none ∨ x = value) :
    (f old x = none ∨ f old x = value) ∧ (old = value ∨ x = value → f old x = value) := by
  cases value with
  | none => cases hf old x <;> simp_all
  | some v => cases hold <;> cases hx <;> cases hf old x <;> simp_all

/-- A value that is reported always alike is the one kept. -/
theorem reported_foldl {α : Type} {f : Option α → Option α → Option α}
    (hf : ∀ old new, f old new = new.or old ∨ f old new = old.or new) {seen : List (Option α)}
    {value : Option α} (h : Reported seen value) : seen.foldl f none = value := by
  have hrun : ∀ seen : List (Option α), (∀ x ∈ seen, x = none ∨ x = value) → ∀ old,
      (old = none ∨ old = value) → (old = value ∨ value ∈ seen) → seen.foldl f old = value := by
    intro seen
    induction seen with
    | nil => simp
    | cons x xs ih =>
        intro hseen old hold hsome
        have hnext := reported_step hf hold (hseen x List.mem_cons_self)
        refine ih (fun y hy => hseen y (List.mem_cons_of_mem x hy)) (f old x) hnext.1 ?_
        rw [List.mem_cons] at hsome
        grind
  refine hrun seen h.1 none (.inl rfl) ?_
  cases h.2 with
  | inl hnone => exact .inl hnone.symm
  | inr hmem => exact .inr hmem

/-- What the chunks say of the completion apart from their choices. -/
def header (state : ChatStreamState) : Option Json × Option String × Nat :=
  (state.usageObject, state.providerModel, state.chunkCount)

theorem header_absorbText (state : ChatStreamState) (delta : Delta) :
    header (absorbText state delta) = header state := by
  simp only [absorbText, absorbReasoningDelta]
  split
  · rfl
  · rfl

theorem finishReason_absorbText (state : ChatStreamState) (delta : Delta) :
    (absorbText state delta).finishReason = state.finishReason := by
  simp only [absorbText, absorbReasoningDelta]
  split
  · rfl
  · rfl

theorem header_absorbChoiceText (state : ChatStreamState) (choice : ChunkChoice) :
    header (absorbChoiceText state choice) = header state := by
  unfold absorbChoiceText
  split
  · rfl
  · exact Lib.foldl_invariant (P := fun s => header s = header state)
      (fun s delta _ hs => (header_absorbText s delta).trans hs) rfl

theorem finishReason_absorbChoiceText (state : ChatStreamState) (choice : ChunkChoice) :
    (absorbChoiceText state choice).finishReason
      = if choice.index = 0 then (orNone choice.finishReason).or state.finishReason
        else state.finishReason := by
  unfold absorbChoiceText
  by_cases hindex : choice.index = 0
  · rw [if_neg (by simp [hindex]), if_pos hindex]
    refine Lib.foldl_invariant
      (P := fun s => s.finishReason = (orNone choice.finishReason).or state.finishReason)
      (fun s delta _ hs => (finishReason_absorbText s delta).trans hs) ?_
    rfl
  · rw [if_pos hindex, if_neg hindex]

theorem header_absorbChunkText (state : ChatStreamState) (chunk : Chunk) :
    header (absorbChunkText state chunk) = header (absorbHeader state chunk) :=
  Lib.foldl_invariant (P := fun s => header s = header (absorbHeader state chunk))
    (fun s choice _ hs => (header_absorbChoiceText s choice).trans hs) rfl

theorem finishReason_absorbChunkText (state : ChatStreamState) (chunk : Chunk) :
    (absorbChunkText state chunk).finishReason
      = ((chunk.choices.filter fun choice => choice.index = 0).map fun choice =>
          orNone choice.finishReason).foldl (fun old new => new.or old) state.finishReason := by
  have hrun : ∀ choices : List ChunkChoice, ∀ state : ChatStreamState,
      (choices.foldl absorbChoiceText state).finishReason
        = ((choices.filter fun choice => choice.index = 0).map fun choice =>
            orNone choice.finishReason).foldl (fun old new => new.or old) state.finishReason := by
    intro choices
    induction choices with
    | nil => exact fun _ => rfl
    | cons choice rest ih =>
        intro state
        rw [List.foldl_cons, ih, finishReason_absorbChoiceText]
        by_cases hindex : choice.index = 0
        · simp [hindex]
        · simp [hindex]
  exact hrun chunk.choices (absorbHeader state chunk)

/-- The finish reason kept is the last one reported. -/
theorem finishReason_absorbed (chunks : List Chunk) :
    (chunks.foldl absorbChunkText {}).finishReason
      = (finishReasons chunks).foldl (fun old new => new.or old) none := by
  have hrun : ∀ chunks : List Chunk, ∀ state : ChatStreamState,
      (chunks.foldl absorbChunkText state).finishReason
        = (finishReasons chunks).foldl (fun old new => new.or old) state.finishReason := by
    intro chunks
    induction chunks with
    | nil => exact fun _ => rfl
    | cons chunk rest ih =>
        intro state
        have hcons : finishReasons (chunk :: rest) = _ ++ finishReasons rest := List.flatMap_cons
        rw [List.foldl_cons, ih, finishReason_absorbChunkText, hcons, List.foldl_append]
  exact hrun chunks {}

/-- The usage kept is the last one reported, the model the first one. -/
theorem header_absorbed (chunks : List Chunk) :
    header (chunks.foldl absorbChunkText {})
      = ((chunks.map Chunk.usage).foldl (fun old new => new.or old) none,
        (chunks.map fun chunk => cleanProviderModel chunk.model).foldl Option.or none,
        chunks.length) := by
  have hrun : ∀ chunks : List Chunk, ∀ state : ChatStreamState,
      header (chunks.foldl absorbChunkText state)
        = ((chunks.map Chunk.usage).foldl (fun old new => new.or old) state.usageObject,
          (chunks.map fun chunk => cleanProviderModel chunk.model).foldl Option.or
            state.providerModel,
          state.chunkCount + chunks.length) := by
    intro chunks
    induction chunks with
    | nil => exact fun _ => rfl
    | cons chunk rest ih =>
        intro state
        have hheader := header_absorbChunkText state chunk
        simp only [header, absorbHeader, Prod.mk.injEq] at hheader
        rw [List.foldl_cons, ih, hheader.1, hheader.2.1, hheader.2.2, List.length_cons,
          Nat.add_right_comm, ← Nat.add_assoc]
        rfl
  rw [hrun chunks {}, Nat.zero_add]

end Reports

/-! ## the slots -/

/-- A fragment whose id is that of the call, or blank, goes into the slot of the call. -/
theorem growSlot_eq {index : Int} {slot : ToolCallSlot} {call : ToolCallDelta} {id : String}
    (hslot : slot.callId = none ∨ slot.callId = some id)
    (hcall : orNone call.id = none ∨ orNone call.id = some id) :
    growSlot index slot call = .ok {
      callId := slot.callId.or (orNone call.id)
      nameParts := slot.nameParts ++ piece call.name
      argumentParts := slot.argumentParts ++ piece call.arguments } := by
  cases hslot <;> cases hcall <;> simp_all [growSlot, pure, Except.pure, bind, Except.bind]

/-- A fragment with an id sets it, or finds it set. -/
theorem callId_growSlot {index : Int} {slot slot' : ToolCallSlot} {call : ToolCallDelta}
    (h : growSlot index slot call = .ok slot') :
    (∀ id, slot.callId = some id → slot'.callId = some id) ∧
      ∀ id, orNone call.id = some id → slot'.callId = some id := by
  cases hcall : orNone call.id with
  | none =>
      simp only [growSlot, hcall, bind, Except.bind, pure, Except.pure, Except.ok.injEq] at h
      subst h
      simp
  | some id =>
      cases hold : slot.callId with
      | none =>
          simp only [growSlot, hcall, hold, bind, Except.bind, pure, Except.pure,
            Except.ok.injEq] at h
          subst h
          simp
      | some old =>
          by_cases heq : old = id
          · simp only [growSlot, hcall, hold, heq, if_true, bind, Except.bind, pure, Except.pure,
              Except.ok.injEq] at h
            subst h
            simp [heq]
          · simp [growSlot, hcall, hold, heq, bind, Except.bind] at h

/-- **What the fragments of one call make**, where the ids they carry are those of the call. -/
theorem growSlots_eq {index : Int} {id : String} {fragments : List ToolCallDelta}
    (hids : ∀ f ∈ fragments, orNone f.id = none ∨ orNone f.id = some id) {slot : ToolCallSlot}
    (hslot : slot.callId = none ∨ slot.callId = some id) :
    fragments.foldlM (growSlot index) slot = .ok {
      callId := (fragments.map fun f => orNone f.id).foldl Option.or slot.callId
      nameParts := slot.nameParts ++ fragments.flatMap fun f => piece f.name
      argumentParts := slot.argumentParts ++ fragments.flatMap fun f => piece f.arguments } := by
  induction fragments generalizing slot with
  | nil => simp [pure, Except.pure]
  | cons f rest ih =>
      have hf := hids f List.mem_cons_self
      rw [List.foldlM_cons, growSlot_eq hslot hf]
      refine (ih (fun g hg => hids g (List.mem_cons_of_mem f hg)) ?_).trans ?_
      · cases hslot <;> cases hf <;> simp_all
      · simp

/-- Every id that a fragment of a call carries is the id of its slot. -/
theorem callId_growSlots {index : Int} {fragments : List ToolCallDelta} {slot slot' : ToolCallSlot}
    (h : fragments.foldlM (growSlot index) slot = .ok slot') :
    ∀ f ∈ fragments, ∀ id, orNone f.id = some id → slot'.callId = some id := by
  intro f hf id hid
  obtain ⟨before, after, rfl⟩ := List.append_of_mem hf
  rw [List.foldlM_append, Lib.bind_eq_ok] at h
  obtain ⟨mid, -, hrest⟩ := h
  rw [List.foldlM_cons, Lib.bind_eq_ok] at hrest
  obtain ⟨next, hgrow, hafter⟩ := hrest
  have hset : next.callId = some id := (callId_growSlot hgrow).2 id hid
  exact Lib.foldlM_invariant (P := fun s => s.callId = some id)
    (fun s g s' _ hs hstep => (callId_growSlot hstep).1 id hs) hset hafter

/-- The table of slots, where every fragment names its call. -/
theorem absorbToolCallDelta_labelled {calls : List ToolCallDelta}
    (hindex : ∀ call ∈ calls, call.index ≠ none) (slots : Lib.Dict Int ToolCallSlot) :
    calls.foldlM absorbToolCallDelta slots
      = (labelled calls).foldlM (Lib.absorb growSlot {}) slots := by
  induction calls generalizing slots with
  | nil => rfl
  | cons call rest ih =>
      obtain ⟨index, hi⟩ := Option.ne_none_iff_exists'.mp (hindex call List.mem_cons_self)
      have hrest := ih fun c hc => hindex c (List.mem_cons_of_mem call hc)
      have hcons : labelled (call :: rest) = (index, call) :: labelled rest := by
        simp [labelled, hi]
      have hhead : absorbToolCallDelta slots call = Lib.absorb growSlot {} slots (index, call) := by
        simp [absorbToolCallDelta, hi]
      rw [hcons, List.foldlM_cons, List.foldlM_cons, hhead]
      cases Lib.absorb growSlot {} slots (index, call) with
      | error e => rfl
      | ok slots' => exact hrest slots'

/-- The fragments that one slot is made of. -/
theorem own_labelled (index : Int) (chunks : List Chunk) :
    Lib.own growSlot {} index (labelled (callDeltas chunks))
      = (fragmentsOf index chunks).foldlM (growSlot index) {} := by
  have hfilter : ∀ calls : List ToolCallDelta,
      ((labelled calls).filter fun fragment => fragment.1 = index)
        = (calls.filter fun call => call.index = some index).map (index, ·) := by
    intro calls
    induction calls with
    | nil => rfl
    | cons call rest ih =>
        cases hi : call.index with
        | none => simpa [labelled, hi] using ih
        | some i =>
            by_cases heq : i = index
            · simpa [labelled, hi, heq] using ih
            · simpa [labelled, hi, heq] using ih
  rw [Lib.own, hfilter, List.foldlM_map]
  rfl

/-- What the fragments of a call make of its slot. -/
theorem own_cutCall {chunks : List Chunk} {index : Int} {call : ToolCall}
    (h : CutCall chunks index call) : ∃ slot : ToolCallSlot,
      Lib.own growSlot {} index (labelled (callDeltas chunks)) = .ok slot ∧
        slot.callId = some call.id ∧ String.join slot.nameParts = call.name ∧
        String.join slot.argumentParts = call.arguments := by
  have hids : ∀ f ∈ fragmentsOf index chunks, orNone f.id = none ∨ orNone f.id = some call.id :=
    fun f hf => h.id.1 _ (List.mem_map_of_mem (f := fun f => orNone f.id) hf)
  refine ⟨_, (own_labelled index chunks).trans (growSlots_eq hids (.inl rfl)), ?_, ?_, ?_⟩
  · exact reported_foldl (fun _ _ => .inr rfl) h.id
  · rw [List.nil_append, join_pieces, h.name]
  · have hpieces := join_pieces ToolCallDelta.arguments (fragmentsOf index chunks)
    exact hpieces.trans h.arguments

theorem exists_cutCall {turn : Completion} {chunks : List Chunk} (h : Cut turn chunks) {index : Int}
    (hi : index ∈ (labelled (callDeltas chunks)).map Prod.fst) :
    ∃ call ∈ turn.message.toolCalls, CutCall chunks index call :=
  Lib.exists_of_forall₂ h.calls (List.mem_eraseDups.mpr hi)

/-- **The slots of a cut**, in the order of the calls. -/
theorem slots_of_cut {turn : Completion} {chunks : List Chunk} (h : Cut turn chunks) :
    ∃ slots, (callDeltas chunks).foldlM absorbToolCallDelta .empty = .ok slots ∧
      Forall₂ (fun entry call => entry.2.callId = some call.id ∧
        String.join entry.2.nameParts = call.name ∧
        String.join entry.2.argumentParts = call.arguments) slots.entries turn.message.toolCalls := by
  obtain ⟨slots, hslots⟩ : ∃ slots, (labelled (callDeltas chunks)).foldlM
      (Lib.absorb growSlot {}) .empty = .ok slots := by
    refine Lib.absorbed_of_own fun index hi => ?_
    obtain ⟨call, -, hcall⟩ := exists_cutCall h hi
    obtain ⟨slot, hslot, -⟩ := own_cutCall hcall
    exact ⟨slot, hslot⟩
  refine ⟨slots, (absorbToolCallDelta_labelled h.indexed .empty).trans hslots, ?_⟩
  rw [slots.entries_eq {}, Lib.keys_absorbed hslots, List.forall₂_map_left_iff]
  refine h.calls.imp fun index call hcall => ?_
  obtain ⟨slot, hslot, hmade⟩ := own_cutCall hcall
  rw [Lib.own_of_absorbed hslots index] at hslot
  rw [Except.ok.inj hslot]
  exact hmade

/-! ## closing the state -/

/-- A slot that holds a call of a completed turn closes into it. -/
theorem finalizeSlot_eq (c : Codec) (validate : Bool) {registered : List String} (index : Int)
    {slot : ToolCallSlot} {call : ToolCall} (hcallId : slot.callId = some call.id)
    (hname : String.join slot.nameParts = call.name)
    (harguments : String.join slot.argumentParts = call.arguments) (hid : call.id ≠ "")
    (hnamed : call.name ≠ "") (hregistered : registered = [] ∨ call.name ∈ registered) :
    finalizeSlot c validate registered index slot = normalizeCall c call := by
  have hunregistered : ¬ (registered ≠ [] ∧ call.name ∉ registered) := by
    cases hregistered with
    | inl hempty => simp [hempty]
    | inr hmem => simp [hmem]
  simp [finalizeSlot, normalizeCall, hname, harguments, hcallId, hnamed, hunregistered,
    orNone_some hid, orEmpty]

/-- **The slots close into the calls of the turn**, normalised as those of a plain
completion are. -/
theorem finalizeToolCalls_cut (c : Codec) {turn : Completion} {tools : List Json}
    (hturn : Completed turn tools) {state : ChatStreamState}
    (hslots : Forall₂ (fun entry call => entry.2.callId = some call.id ∧
        String.join entry.2.nameParts = call.name ∧
        String.join entry.2.argumentParts = call.arguments)
      state.toolSlots.entries turn.message.toolCalls) :
    finalizeToolCalls c state tools = turn.message.toolCalls.mapM (normalizeCall c) := by
  refine Lib.mapM_eq_of_forall₂ ?_
  have hmem := Segments.forall₂_and_mem_right hslots
  refine hmem.imp fun entry call hcall => ?_
  obtain ⟨⟨hcallId, hname, harguments⟩, hin⟩ := hcall
  exact finalizeSlot_eq c _ entry.1 hcallId hname harguments (hturn.id call hin)
    (hturn.name call hin) (hturn.registered call hin)

/-- The reply that the streamed path accounts. -/
def streamedUsageMessage (message : ChatMessage) (toolCalls : List ToolCall) : ChatMessage :=
  { content := orNone message.content, refusal := orNone message.refusal
    reasoningContent := messageReasoning message, toolCalls := toolCalls }

/-- The response of a streamed turn. -/
def streamedResponse (c : Codec) (turn : Completion) (requestMessages tools : List Json) :
    Except ProviderError LLMResponse := do
  let message := turn.message
  let toolCalls ← message.toolCalls.mapM (normalizeCall c)
  let response ← buildChatResponse c (orNone message.content) (messageReasoning message) toolCalls
    turn.finishReason (cleanProviderModel turn.model) turn.usage
    (streamedUsageMessage message toolCalls) requestMessages tools (orNone message.refusal)
  if response.usage.estimated then throw .streamedUsageUnavailable
  return response

theorem orNone_messageReasoning (message : ChatMessage) :
    orNone (messageReasoning message) = messageReasoning message := by
  unfold messageReasoning
  cases h : orNone message.reasoningContent with
  | none => simp
  | some text =>
      rw [Option.some_or]
      exact orNone_some (orNone_eq_some.mp h).2

/-- A turn's text, back from the parts it was collected in. -/
theorem orNone_join {parts : List String} {text : Option String}
    (h : String.join parts = orEmpty text) : orNone (some (String.join parts)) = orNone text := by
  rw [h, orNone_orEmpty]

/-- **Whatever the cut, the response is that of the turn.** -/
theorem assembleStream_cut (c : Codec) {turn : Completion} {chunks : List Chunk}
    (requestMessages : List Json) {tools : List Json} (hturn : Completed turn tools)
    (hcut : Cut turn chunks) :
    assembleStream c chunks requestMessages tools = streamedResponse c turn requestMessages tools := by
  obtain ⟨slots, hslots, hentries⟩ := slots_of_cut hcut
  obtain ⟨field, hblank, hreasoning⟩ := hcut.reasoning
  obtain ⟨reason, -, hreason⟩ := hturn.finish
  have hfinish : (chunks.foldl absorbChunkText {}).finishReason = turn.finishReason :=
    (finishReason_absorbed chunks).trans (reported_foldl (fun _ _ => .inl rfl) hcut.finish)
  have hheader := header_absorbed chunks
  rw [reported_foldl (fun _ _ => .inl rfl) hcut.usage,
    reported_foldl (fun _ _ => .inr rfl) hcut.model] at hheader
  simp only [header, Prod.mk.injEq] at hheader
  obtain ⟨husage, hmodel, hcount⟩ := hheader
  have hsome : chunks.length ≠ 0 := by
    intro hlength
    rw [List.length_eq_zero_iff.mp hlength] at hcut
    cases hcut.finish.2 with
    | inl hnone => rw [hreason] at hnone; cases hnone
    | inr hmem => simp [finishReasons] at hmem
  have hcalls : finalizeToolCalls c (withSlots slots (chunks.foldl absorbChunkText {})) tools
      = turn.message.toolCalls.mapM (normalizeCall c) := finalizeToolCalls_cut c hturn hentries
  have hcontent := orNone_join ((content_absorbed chunks).trans hcut.content)
  have hrefusal := orNone_join ((refusal_absorbed chunks).trans hcut.refusal)
  have hthought := orNone_join ((reasoning_absorbed hblank).trans hreasoning)
  rw [orNone_messageReasoning] at hthought
  have hstate : chunks.foldlM absorbChunk {}
      = .ok (withSlots slots (chunks.foldl absorbChunkText {})) := by
    rw [absorbed, hslots]
    rfl
  rw [assembleStream, hstate]
  simp only [bind, Except.bind, streamStateToResponse, hcalls]
  simp only [withSlots, hcount, hsome, hfinish, hreason, hcontent, hrefusal, hthought, husage,
    hmodel, streamedResponse, streamedUsageMessage, bind, Except.bind, true_and, if_false, reduceCtorEq]

/-! ## the two paths -/

theorem isEmpty_mapM {c : Codec} {calls normalized : List ToolCall}
    (h : calls.mapM (normalizeCall c) = .ok normalized) : normalized.isEmpty = calls.isEmpty := by
  cases calls with
  | nil =>
      rw [List.mapM_nil] at h
      rw [← Except.ok.inj h]
  | cons call rest =>
      rw [List.mapM_cons] at h
      obtain ⟨first, -, hrest⟩ := Lib.bind_eq_ok.mp h
      obtain ⟨others, -, hall⟩ := Lib.bind_eq_ok.mp hrest
      rw [← Except.ok.inj hall]
      rfl

theorem isNone_messageReasoning (message : ChatMessage) :
    (orNone (messageReasoning message)).isNone
      = ((orNone message.reasoningContent).isNone && (orNone message.reasoning).isNone) := by
  rw [orNone_messageReasoning, messageReasoning]
  cases orNone message.reasoningContent <;> simp

/-- The reply that the streamed path accounts produced what the turn did. -/
theorem producedNothing_streamed (message : ChatMessage) {toolCalls : List ToolCall}
    (h : toolCalls.isEmpty = message.toolCalls.isEmpty) :
    producedNothing (streamedUsageMessage message toolCalls) = producedNothing message := by
  simp only [producedNothing, streamedUsageMessage, orNone_orNone, isNone_messageReasoning, h,
    orNone_none, Option.isNone_none, Bool.and_true, Bool.and_assoc]

/-- And so did the one that the plain path accounts. -/
theorem producedNothing_plain (message : ChatMessage) :
    producedNothing (plainUsageMessage message) = producedNothing message := by
  unfold plainUsageMessage
  split
  · rfl
  · simp only [producedNothing, isNone_messageReasoning]
    cases (orNone message.reasoning).isNone <;> simp

/-- **With reported usage the two paths agree** on everything but how a missing text is
written. -/
theorem streamedResponse_reported (c : Codec) (turn : Completion) (requestMessages tools : List Json)
    (h : usageReported c turn.usage turn.message = true) :
    (streamedResponse c turn requestMessages tools).map LLMResponse.unblank
      = (parseResponse c turn requestMessages tools).map LLMResponse.unblank := by
  unfold streamedResponse parseResponse
  cases hcalls : turn.message.toolCalls.mapM (normalizeCall c) with
  | error e => simp only [hcalls, bind, Except.bind, Except.map]
  | ok calls =>
      have hsame := producedNothing_streamed turn.message (isEmpty_mapM hcalls)
      have hreported := (usageReported_congr c turn.usage hsame).trans h
      have hplain := producedNothing_plain turn.message
      simp only [hcalls, bind, Except.bind]
      rw [← buildChatResponse_unblank, ← buildChatResponse_congr c _ _ calls _ _ _ _ _ _
        (hsame.trans hplain.symm) hreported]
      cases hbuilt : buildChatResponse c (orNone turn.message.content)
          (messageReasoning turn.message) calls turn.finishReason (cleanProviderModel turn.model)
          turn.usage _ requestMessages tools (orNone turn.message.refusal) with
      | error e => rfl
      | ok response =>
          have hexact := buildChatResponse_estimated hbuilt
          rw [hreported, Bool.not_true] at hexact
          simp [hexact, pure, Except.pure]

theorem outcome_of_unblank {x y : Except ProviderError LLMResponse}
    (h : x.map LLMResponse.unblank = y.map LLMResponse.unblank) :
    x.map (fun _ => ()) = y.map (fun _ => ()) := by
  cases x <;> cases y <;> simp_all [Except.map]

/-- Estimated usage is refused once a response is built, and only then. -/
theorem refuse_estimated {x y : Except ProviderError LLMResponse}
    (hx : ∀ response, x = .ok response → response.usage.estimated = true)
    (h : x.map (fun _ => ()) = y.map (fun _ => ())) :
    (do
      let response ← x
      if response.usage.estimated then throw .streamedUsageUnavailable
      return response)
      = y.bind fun _ => .error .streamedUsageUnavailable := by
  cases x with
  | error e =>
      cases y with
      | error e' =>
          have he : e = e' := by simpa [Except.map] using h
          rw [he]
          rfl
      | ok response' => simp [Except.map] at h
  | ok response =>
      cases y with
      | error e' => simp [Except.map] at h
      | ok response' =>
          simp [hx response rfl, bind, Except.bind, throw, throwThe, MonadExceptOf.throw]

/-- **Without it the streamed path refuses the turn** that the plain path estimates. -/
theorem streamedResponse_unreported (c : Codec) (turn : Completion)
    (requestMessages tools : List Json) (h : usageReported c turn.usage turn.message = false) :
    streamedResponse c turn requestMessages tools
      = (parseResponse c turn requestMessages tools).bind fun _ =>
          .error .streamedUsageUnavailable := by
  unfold streamedResponse parseResponse
  cases hcalls : turn.message.toolCalls.mapM (normalizeCall c) with
  | error e => simp only [hcalls, bind, Except.bind]
  | ok calls =>
      have hsame := producedNothing_streamed turn.message (isEmpty_mapM hcalls)
      have hreported := (usageReported_congr c turn.usage hsame).trans h
      simp only [hcalls]
      refine refuse_estimated (fun response hbuilt => ?_) ?_
      · rw [buildChatResponse_estimated hbuilt, hreported, Bool.not_false]
      · exact (buildChatResponse_outcome ..).trans
          (outcome_of_unblank (buildChatResponse_unblank ..))

/-! ## broken streams -/

/-- **A broken stream is never turned into a response.** -/
theorem assembleStream_ne_ok (c : Codec) {chunks : List Chunk} (requestMessages tools : List Json)
    (h : Broken chunks) (response : LLMResponse) :
    assembleStream c chunks requestMessages tools ≠ .ok response := by
  intro hok
  obtain ⟨state, hstate, hclosed⟩ := Lib.bind_eq_ok.mp hok
  rw [absorbed, Lib.map_eq_ok] at hstate
  obtain ⟨slots, hslots, rfl⟩ := hstate
  cases h with
  | unfinished hnone =>
      have hfinish : (withSlots slots (chunks.foldl absorbChunkText {})).finishReason = none := by
        refine (finishReason_absorbed chunks).trans (reported_foldl (fun _ _ => .inl rfl) ?_)
        exact ⟨fun reason hr => .inl (hnone reason hr), .inl rfl⟩
      rw [streamStateToResponse, hfinish] at hclosed
      split at hclosed
      · cases hclosed
      · cases hclosed
  | unlabelled call hcall hindex =>
      refine Lib.foldlM_ne_ok (fun slots slots' hstep => ?_) hcall _ slots hslots
      rw [absorbToolCallDelta, hindex] at hstep
      cases hstep
  | changedId index first second hfirst hsecond old new hold hnew hne =>
      have hindexed : ∀ call ∈ callDeltas chunks, call.index ≠ none := by
        intro call hcall hindex
        refine Lib.foldlM_ne_ok (fun slots slots' hstep => ?_) hcall _ slots hslots
        rw [absorbToolCallDelta, hindex] at hstep
        cases hstep
      rw [absorbToolCallDelta_labelled hindexed] at hslots
      have hown := Lib.own_of_absorbed hslots index
      rw [own_labelled] at hown
      have hset := callId_growSlots hown first hfirst old hold
      rw [callId_growSlots hown second hsecond new hnew, Option.some.injEq] at hset
      exact hne hset.symm

/-! ## stream assembly -/

/-- **Stream assembly is independent of fragmentation.**  A completed turn has one
streamed response, whatever the cut: with usage reported it is that of the plain
completion up to missing and empty texts, and otherwise the turn is refused once the
plain path would have estimated it.  A broken stream has none. -/
theorem stream_assembles (c : Codec) (requestMessages tools : List Json) :
    (∀ turn, Completed turn tools → ∃ streamed : Except ProviderError LLMResponse,
      (∀ chunks, Cut turn chunks → assembleStream c chunks requestMessages tools = streamed) ∧
      (usageReported c turn.usage turn.message = true →
        streamed.map LLMResponse.unblank
          = (parseResponse c turn requestMessages tools).map LLMResponse.unblank) ∧
      (usageReported c turn.usage turn.message = false →
        streamed = (parseResponse c turn requestMessages tools).bind fun _ =>
          .error .streamedUsageUnavailable)) ∧
    ∀ chunks, Broken chunks → ∀ response,
      assembleStream c chunks requestMessages tools ≠ .ok response := by
  constructor
  · intro turn hturn
    refine ⟨streamedResponse c turn requestMessages tools, ?_, ?_, ?_⟩
    · exact fun chunks hcut => assembleStream_cut c requestMessages hturn hcut
    · exact streamedResponse_reported c turn requestMessages tools
    · exact streamedResponse_unreported c turn requestMessages tools
  · exact fun chunks hbroken response => assembleStream_ne_ok c requestMessages tools hbroken response

/-! ### a turn of two calls -/

/-- Counters are integers here, no text holds markup, and every estimate is 1. -/
def sampleCodec : Codec where
  jsonLoads _ := .valueError
  toInt value := value.asInt?
  extractMarkup text := .ok ([], some text)
  estimateMessagesTokens _ _ := 1
  estimateOutputTokens _ := 1

def sampleUsage (output : Int) : Json :=
  .obj [("prompt_tokens", .int 9), ("completion_tokens", .int output), ("total_tokens", .int 16)]

/-- An answer with two calls. -/
def sampleTurn (output : Int) : Completion where
  message := {
    content := some "ab", reasoningContent := some ""
    toolCalls := [⟨"x", "read", "\x7b\x7d"⟩, ⟨"y", "grep", "[]"⟩] }
  finishReason := some "tool_calls"
  usage := some (sampleUsage output)

def sampleDelta (content : String) (toolCalls : List ToolCallDelta) : Chunk :=
  { choices := [{ delta := some { content := some content, toolCalls := toolCalls } }] }

/-- Its fragments, interleaved: index 5 is seen first, and the ids come late. -/
def sampleChunks (output : Int) : List Chunk :=
  [ sampleDelta "a" [⟨some 5, none, some ⟨some "re", some "\x7b"⟩⟩],
    sampleDelta "" [⟨some 2, none, some ⟨some "grep", none⟩⟩, ⟨some 5, some "x", none⟩],
    { choices := [{ finishReason := some "tool_calls" }], usage := some (sampleUsage output) },
    sampleDelta "b" [⟨some 2, some "y", some ⟨none, some "[]"⟩⟩],
    sampleDelta "" [⟨some 5, some "", some ⟨some "ad", some "\x7d"⟩⟩] ]

theorem sampleTurn_completed (output : Int) : Completed (sampleTurn output) [] where
  finish := ⟨"tool_calls", by decide, rfl⟩
  id := by simp [sampleTurn]
  name := by simp [sampleTurn]
  registered := by simp [sampleTurn, registeredNames]

theorem sampleChunks_cut (output : Int) : Cut (sampleTurn output) (sampleChunks output) where
  content := by rfl
  refusal := by rfl
  reasoning := by
    refine ⟨.reasoningContent, ?_, by rfl⟩
    simp [deltas, sampleChunks, sampleDelta, choiceDeltas, Delta.reasoningText, ReasoningField.other]
  indexed := by simp [callDeltas, deltas, sampleChunks, sampleDelta, choiceDeltas]
  calls := by
    have hseen : firstSeen (sampleChunks output) = [5, 2] := by rfl
    rw [hseen]
    refine .cons ⟨by rfl, by rfl, ?_⟩ (.cons ⟨by rfl, by rfl, ?_⟩ .nil)
    · simp [Reported, fragmentsOf, callDeltas, deltas, sampleChunks, sampleDelta, choiceDeltas,
        orNone, Option.filter]
    · simp [Reported, fragmentsOf, callDeltas, deltas, sampleChunks, sampleDelta, choiceDeltas,
        orNone, Option.filter]
  finish := by
    simp [Reported, finishReasons, sampleChunks, sampleDelta, sampleTurn, orNone, Option.filter]
  usage := by simp [Reported, sampleChunks, sampleDelta, sampleTurn]
  model := by simp [Reported, sampleChunks, sampleDelta, sampleTurn, cleanProviderModel]

/-- With seven output tokens reported, the cut turn is the plain one; a stream that ends
after its first chunk is none. -/
theorem stream_assembles_sample :
    (assembleStream sampleCodec (sampleChunks 7) [] []).map LLMResponse.unblank
        = (parseResponse sampleCodec (sampleTurn 7) [] []).map LLMResponse.unblank ∧
      ∀ response, assembleStream sampleCodec ((sampleChunks 7).take 1) [] [] ≠ .ok response := by
  obtain ⟨hturns, hbroken⟩ := stream_assembles sampleCodec [] []
  obtain ⟨streamed, hcut, hreported, -⟩ := hturns (sampleTurn 7) (sampleTurn_completed 7)
  constructor
  · rw [hcut (sampleChunks 7) (sampleChunks_cut 7)]
    exact hreported (by decide +kernel)
  · exact hbroken _ (.unfinished (by decide +kernel))

/-- **A turn whose output count is missing has no streamed response**, though the plain
path gives it one. -/
theorem stream_unlike_plain :
    Completed (sampleTurn 0) [] ∧ Cut (sampleTurn 0) (sampleChunks 0) ∧
      assembleStream sampleCodec (sampleChunks 0) [] [] = .error .streamedUsageUnavailable ∧
      ∃ response, parseResponse sampleCodec (sampleTurn 0) [] [] = .ok response := by
  refine ⟨sampleTurn_completed 0, sampleChunks_cut 0, by decide +kernel, ?_⟩
  exact ⟨_, by rfl⟩

end OpenCollab.Chat
