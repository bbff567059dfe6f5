import OpenCollab.Message

/-!
# OpenCollab.Shaping.Store

The message objects the shapers work on.  A history handed to a shaper is a
list of *references*: the dicts stay shared with the session, `{**message, …}`
makes a new dict that still shares the nested `tool_calls` and
`response_items`, and only `copy.deepcopy` makes those private.  Whether a layer
mutates the caller's messages is a question about this sharing, so the model
keeps it: a `Store` holds the message dicts, the call dicts and the replay-item
dicts as cells, and a message dict names its calls and items by reference.

* `Store.read`, `Store.view` — the message values behind references;
* `Store.Extends` — a store in which every earlier cell is untouched, and
  `view_of_extends` — all earlier references still read the same;
* `copyWith`, `deepCopy`, `setCells` — the three ways the layers write.
-/

namespace OpenCollab

/-- A reference to a cell. -/
abbrev Ref := Nat

/-- A message dict: like `Message`, with its nested dicts by reference. -/
structure MessageObj where
  role : Role
  content : Option Json := none
  toolCalls : List Ref := []
  toolCallId : Option String := none
  reasoningContent : Option String := none
  reasoning : Option String := none
  responseItems : Option (List Ref) := none
  providerState : Json := .null
  ctxPriority : Option Int := none
  compacted : Bool := false
  placeholder : Bool := false
  phase : Json := .null
deriving DecidableEq, Repr

namespace MessageObj

/-- The nested references are allocated, where `calls` and `items` cells are. -/
structure In (obj : MessageObj) (calls items : Nat) : Prop where
  calls : ∀ c ∈ obj.toolCalls, c < calls
  items : ∀ i ∈ obj.responseItems.getD [], i < items

instance (obj : MessageObj) (calls items : Nat) : Decidable (obj.In calls items) :=
  decidable_of_iff ((∀ c ∈ obj.toolCalls, c < calls) ∧ ∀ i ∈ obj.responseItems.getD [], i < items)
    ⟨fun h => ⟨h.1, h.2⟩, fun h => ⟨h.calls, h.items⟩⟩

theorem In.mono {obj : MessageObj} {calls items calls' items' : Nat} (h : obj.In calls items)
    (hc : calls ≤ calls') (hi : items ≤ items') : obj.In calls' items' :=
  ⟨fun c hm => Nat.lt_of_lt_of_le (h.calls c hm) hc,
    fun i hm => Nat.lt_of_lt_of_le (h.items i hm) hi⟩

end MessageObj

/-- The cells; no message dict holds a dangling reference. -/
structure Store where
  messages : List MessageObj
  calls : List ToolCall
  items : List Json
  closed : ∀ obj ∈ messages, obj.In calls.length items.length

namespace Store

/-! ## reading -/

/-- The value of a message dict. -/
def deref (st : Store) (obj : MessageObj) : Message :=
  { role := obj.role
    content := obj.content
    toolCalls := obj.toolCalls.filterMap (st.calls[·]?)
    toolCallId := obj.toolCallId
    reasoningContent := obj.reasoningContent
    reasoning := obj.reasoning
    responseItems := obj.responseItems.map (·.filterMap (st.items[·]?))
    providerState := obj.providerState
    ctxPriority := obj.ctxPriority
    compacted := obj.compacted
    placeholder := obj.placeholder
    phase := obj.phase }

/-- The message behind a reference. -/
def read (st : Store) (r : Ref) : Message :=
  match st.messages[r]? with
  | some obj => st.deref obj
  | none => default

/-- The history behind a list of references. -/
def view (st : Store) (refs : List Ref) : List Message := refs.map st.read

/-- References to allocated messages. -/
def Has (st : Store) (refs : List Ref) : Prop := ∀ r ∈ refs, r < st.messages.length

instance (st : Store) (refs : List Ref) : Decidable (st.Has refs) :=
  inferInstanceAs (Decidable (∀ r ∈ refs, r < st.messages.length))

/-! ## untouched cells -/

/-- Every cell of `st` is a cell of `st'` with the same content. -/
structure Extends (st st' : Store) : Prop where
  messages : st.messages <+: st'.messages
  calls : st.calls <+: st'.calls
  items : st.items <+: st'.items

theorem Extends.refl (st : Store) : st.Extends st :=
  ⟨List.prefix_refl _, List.prefix_refl _, List.prefix_refl _⟩

theorem Extends.trans {st st' st'' : Store} (h : st.Extends st') (h' : st'.Extends st'') :
    st.Extends st'' :=
  ⟨h.messages.trans h'.messages, h.calls.trans h'.calls, h.items.trans h'.items⟩

theorem Extends.length_le {st st' : Store} (h : st.Extends st') :
    st.messages.length ≤ st'.messages.length ∧ st.calls.length ≤ st'.calls.length ∧
      st.items.length ≤ st'.items.length :=
  ⟨h.messages.length_le, h.calls.length_le, h.items.length_le⟩

/-- Cells inside a prefix are read through it. -/
theorem filterMap_getElem?_of_initial {α : Type} {xs ys : List α} (h : xs <+: ys) {refs : List Ref}
    (hrefs : ∀ r ∈ refs, r < xs.length) :
    refs.filterMap (ys[·]?) = refs.filterMap (xs[·]?) := by
  obtain ⟨more, rfl⟩ := h
  apply List.filterMap_congr
  intro r hr
  exact List.getElem?_append_left (hrefs r hr)

theorem deref_of_extends {st st' : Store} (h : st.Extends st') {obj : MessageObj}
    (hobj : obj.In st.calls.length st.items.length) : st'.deref obj = st.deref obj := by
  have hcalls := filterMap_getElem?_of_initial h.calls hobj.calls
  have hitems : obj.responseItems.map (·.filterMap (st'.items[·]?)) =
      obj.responseItems.map (·.filterMap (st.items[·]?)) := by
    cases hr : obj.responseItems with
    | none => rfl
    | some refs =>
        have hin := hobj.items
        rw [hr, Option.getD_some] at hin
        simp [filterMap_getElem?_of_initial h.items hin]
  simp only [deref, hcalls, hitems]

/-- A reference of the smaller store reads the same in the larger one. -/
theorem read_of_extends {st st' : Store} (h : st.Extends st') (hr : r < st.messages.length) :
    st'.read r = st.read r := by
  obtain ⟨more, hmore⟩ := h.messages
  have hget : st'.messages[r]? = st.messages[r]? := by
    rw [← hmore, List.getElem?_append_left hr]
  rw [read, read, hget, List.getElem?_eq_getElem hr]
  exact deref_of_extends h (st.closed _ (List.getElem_mem hr))

theorem view_of_extends {st st' : Store} (h : st.Extends st') (hrefs : st.Has refs) :
    st'.view refs = st.view refs :=
  List.map_congr_left fun r hr => read_of_extends h (hrefs r hr)

theorem Has.mono {st st' : Store} (hrefs : st.Has refs) (h : st.Extends st') : st'.Has refs :=
  fun r hr => Nat.lt_of_lt_of_le (hrefs r hr) h.length_le.1

@[simp] theorem view_append (st : Store) (a b : List Ref) :
    st.view (a ++ b) = st.view a ++ st.view b := by simp [view]

@[simp] theorem length_view (st : Store) (refs : List Ref) :
    (st.view refs).length = refs.length := by simp [view]

/-! ## new dicts -/

/-- A new message dict. -/
def alloc (st : Store) (obj : MessageObj) (h : obj.In st.calls.length st.items.length) :
    Ref × Store :=
  (st.messages.length,
    { st with
      messages := st.messages ++ [obj]
      closed := fun o ho => by
        cases List.mem_append.mp ho with
        | inl ho => exact st.closed o ho
        | inr ho => exact List.mem_singleton.mp ho ▸ h })

theorem extends_alloc (st : Store) (obj : MessageObj) (h) : st.Extends (st.alloc obj h).2 :=
  ⟨List.prefix_append _ _, List.prefix_refl _, List.prefix_refl _⟩

theorem alloc_lt (st : Store) (obj : MessageObj) (h) :
    (st.alloc obj h).1 < (st.alloc obj h).2.messages.length := by simp [alloc]

@[simp] theorem read_alloc (st : Store) (obj : MessageObj) (h) :
    (st.alloc obj h).2.read (st.alloc obj h).1 = st.deref obj := by
  simp [alloc, read, deref]

/-- An update of a message dict that makes no new reference. -/
def Shallow (f : MessageObj → MessageObj) : Prop :=
  ∀ obj calls items, obj.In calls items → (f obj).In calls items

/-- `{**message, …}`: a new dict sharing everything `f` does not replace. -/
def copyWith (st : Store) (r : Ref) (f : MessageObj → MessageObj) (hf : Shallow f) :
    Ref × Store :=
  match h : st.messages[r]? with
  | some obj => st.alloc (f obj) (hf obj _ _ (st.closed obj (List.mem_of_getElem? h)))
  | none => (r, st)

theorem copyWith_eq (st : Store) (f : MessageObj → MessageObj) (hf : Shallow f)
    (hr : r < st.messages.length) :
    st.copyWith r f hf = st.alloc (f st.messages[r])
      (hf _ _ _ (st.closed _ (List.getElem_mem hr))) := by
  unfold copyWith
  split
  · next obj h =>
      rw [List.getElem?_eq_getElem hr] at h
      cases h
      rfl
  · next h => rw [List.getElem?_eq_getElem hr] at h; contradiction

theorem read_getElem (st : Store) (hr : r < st.messages.length) :
    st.read r = st.deref st.messages[r] := by
  rw [read, List.getElem?_eq_getElem hr]

/-- What `{**message, …}` does: the new dict is allocated, reads as the updated
message, and no earlier cell is touched. -/
theorem copyWith_spec (st : Store) (f : MessageObj → MessageObj) (hf : Shallow f)
    (hr : r < st.messages.length) :
    st.Extends (st.copyWith r f hf).2 ∧
      (st.copyWith r f hf).1 < (st.copyWith r f hf).2.messages.length ∧
      (st.copyWith r f hf).2.read (st.copyWith r f hf).1 = st.deref (f st.messages[r]) := by
  rw [copyWith_eq st f hf hr]
  exact ⟨extends_alloc _ _ _, alloc_lt _ _ _, read_alloc _ _ _⟩

/-! ## deep copies and writes -/

/-- Write `f` to each of the referenced cells, one after another. -/
def setCells {α : Type} (f : α → α) (cells : List α) (refs : List Ref) : List α :=
  refs.foldl (fun cells r => cells.modify r f) cells

@[simp] theorem length_setCells {α : Type} (f : α → α) (cells : List α) (refs : List Ref) :
    (setCells f cells refs).length = cells.length := by
  induction refs generalizing cells with
  | nil => rfl
  | cons r refs ih => simpa [setCells] using ih (cells.modify r f)

theorem modify_append_length {α : Type} (f : α → α) (old rest : List α) (x : α) :
    (old ++ x :: rest).modify old.length f = old ++ f x :: rest := by
  induction old with
  | nil => simp
  | cons y old ih => simp [ih]

/-- Writing to freshly appended cells leaves all earlier ones alone. -/
theorem setCells_fresh {α : Type} (f : α → α) (old fresh : List α) :
    setCells f (old ++ fresh) (List.range' old.length fresh.length) = old ++ fresh.map f := by
  induction fresh generalizing old with
  | nil => simp [setCells]
  | cons x fresh ih =>
      have hstep : (old ++ x :: fresh).modify old.length f = (old ++ [f x]) ++ fresh := by
        rw [modify_append_length, List.append_assoc, List.singleton_append]
      have hih := ih (old ++ [f x])
      simp only [List.length_append, List.length_singleton] at hih
      simp only [List.length_cons, List.range'_succ, setCells, List.foldl_cons, hstep]
      simpa [setCells] using hih

theorem filterMap_range'_fresh {α : Type} (old fresh : List α) :
    (List.range' old.length fresh.length).filterMap ((old ++ fresh)[·]?) = fresh := by
  induction fresh generalizing old with
  | nil => rfl
  | cons x fresh ih =>
      have hih := ih (old ++ [x])
      simp only [List.length_append, List.length_singleton, List.append_assoc,
        List.singleton_append] at hih
      simp [List.range'_succ, hih]

/-- The call references of a message dict. -/
def callRefs (st : Store) (r : Ref) : List Ref := (st.messages[r]?.map (·.toolCalls)).getD []

/-- The replay-item references of a message dict. -/
def itemRefs (st : Store) (r : Ref) : List Ref :=
  ((st.messages[r]?.bind (·.responseItems))).getD []

/-- A copy of a message dict that points to `n` calls from `c` on and to `k`
items from `i` on. -/
def withFreshRefs (obj : MessageObj) (c n i k : Nat) : MessageObj :=
  { obj with
    toolCalls := List.range' c n
    responseItems := obj.responseItems.map fun _ => List.range' i k }

theorem in_withFreshRefs (obj : MessageObj) (c n i k : Nat) :
    (withFreshRefs obj c n i k).In (c + n) (i + k) := by
  refine ⟨fun r hr => ?_, fun r hr => ?_⟩
  · simp only [withFreshRefs, List.mem_range'_1] at hr
    exact hr.2
  · cases h : obj.responseItems with
    | none => simp [withFreshRefs, h] at hr
    | some refs =>
        simp only [withFreshRefs, h, Option.map_some, Option.getD_some, List.mem_range'_1] at hr
        exact hr.2

/-- The call dicts of a message dict. -/
def callsOf (st : Store) (obj : MessageObj) : List ToolCall := obj.toolCalls.filterMap (st.calls[·]?)

/-- The replay items of a message dict. -/
def itemsOf (st : Store) (obj : MessageObj) : List Json :=
  (obj.responseItems.getD []).filterMap (st.items[·]?)

/-- `copy.deepcopy(message)`: a new dict with new call and item dicts. -/
def deepCopy (st : Store) (r : Ref) : Ref × Store :=
  match st.messages[r]? with
  | some obj =>
      (st.messages.length,
        { messages := st.messages ++ [withFreshRefs obj st.calls.length (st.callsOf obj).length
            st.items.length (st.itemsOf obj).length]
          calls := st.calls ++ st.callsOf obj
          items := st.items ++ st.itemsOf obj
          closed := fun o ho => by
            rw [List.length_append, List.length_append]
            cases List.mem_append.mp ho with
            | inl ho => exact (st.closed o ho).mono (Nat.le_add_right _ _) (Nat.le_add_right _ _)
            | inr ho => exact List.mem_singleton.mp ho ▸ in_withFreshRefs _ _ _ _ _ })
  | none => (r, st)

/-- Write to call dicts in place. -/
def writeCalls (st : Store) (refs : List Ref) (f : ToolCall → ToolCall) : Store :=
  { st with
    calls := setCells f st.calls refs
    closed := by simpa using st.closed }

/-- Write to replay-item dicts in place. -/
def writeItems (st : Store) (refs : List Ref) (f : Json → Json) : Store :=
  { st with
    items := setCells f st.items refs
    closed := by simpa using st.closed }

/-- Deep-copy a message, then write to the copy's calls and items. -/
def copyAndWrite (st : Store) (r : Ref) (f : ToolCall → ToolCall) (g : Json → Json) :
    Ref × Store :=
  let (copy, st) := st.deepCopy r
  let st := st.writeCalls (st.callRefs copy) f
  let st := st.writeItems (st.itemRefs copy) g
  (copy, st)

/-- The cells after a deep copy and its writes: the old ones, then the copy's
rewritten ones. -/
theorem copyAndWrite_cells (st : Store) (f : ToolCall → ToolCall) (g : Json → Json)
    (hget : st.messages[r]? = some obj) :
    (st.copyAndWrite r f g).1 = st.messages.length ∧
      (st.copyAndWrite r f g).2.messages = st.messages ++
        [withFreshRefs obj st.calls.length (st.callsOf obj).length
          st.items.length (st.itemsOf obj).length] ∧
      (st.copyAndWrite r f g).2.calls = st.calls ++ (st.callsOf obj).map f ∧
      (st.copyAndWrite r f g).2.items = st.items ++ (st.itemsOf obj).map g := by
  have hitemRefs : (obj.responseItems.map fun _ =>
      List.range' st.items.length (st.itemsOf obj).length).getD [] =
        List.range' st.items.length (st.itemsOf obj).length := by
    cases h : obj.responseItems with
    | none => simp [itemsOf, h]
    | some refs => rfl
  refine ⟨?_, ?_, ?_, ?_⟩
  · simp [copyAndWrite, deepCopy, hget]
  · simp [copyAndWrite, deepCopy, hget, writeCalls, writeItems]
  · simp [copyAndWrite, deepCopy, hget, writeCalls, writeItems, callRefs, withFreshRefs,
      setCells_fresh]
  · simp [copyAndWrite, deepCopy, hget, writeCalls, writeItems, itemRefs, withFreshRefs,
      hitemRefs, setCells_fresh]

/-- **Writes to a deep copy stay in the copy**: the new dict reads as the
message with its calls and items rewritten, and no earlier cell is touched. -/
theorem copyAndWrite_spec (st : Store) (f : ToolCall → ToolCall) (g : Json → Json)
    (hr : r < st.messages.length) :
    st.Extends (st.copyAndWrite r f g).2 ∧
      (st.copyAndWrite r f g).1 < (st.copyAndWrite r f g).2.messages.length ∧
      (st.copyAndWrite r f g).2.read (st.copyAndWrite r f g).1 =
        { st.read r with
          toolCalls := (st.read r).toolCalls.map f
          responseItems := (st.read r).responseItems.map (·.map g) } := by
  have hget := List.getElem?_eq_getElem hr
  have hread := read_getElem st hr
  generalize st.messages[r] = obj at hget hread
  obtain ⟨href, hmessages, hcalls, hitems⟩ := copyAndWrite_cells st f g hget
  have hcallRefs := filterMap_range'_fresh st.calls ((st.callsOf obj).map f)
  have hitemRefs := filterMap_range'_fresh st.items ((st.itemsOf obj).map g)
  rw [List.length_map] at hcallRefs hitemRefs
  refine ⟨⟨?_, ?_, ?_⟩, ?_, ?_⟩
  · exact hmessages ▸ List.prefix_append _ _
  · exact hcalls ▸ List.prefix_append _ _
  · exact hitems ▸ List.prefix_append _ _
  · simp [href, hmessages]
  · have hnew : (st.copyAndWrite r f g).2.messages[(st.copyAndWrite r f g).1]? =
        some (withFreshRefs obj st.calls.length (st.callsOf obj).length
          st.items.length (st.itemsOf obj).length) := by
      rw [href, hmessages]
      exact List.getElem?_concat_length
    have hcall : (withFreshRefs obj st.calls.length (st.callsOf obj).length
        st.items.length (st.itemsOf obj).length).toolCalls.filterMap
          ((st.calls ++ (st.callsOf obj).map f)[·]?) =
        (obj.toolCalls.filterMap (st.calls[·]?)).map f := hcallRefs
    have hres : (withFreshRefs obj st.calls.length (st.callsOf obj).length
        st.items.length (st.itemsOf obj).length).responseItems.map
          (·.filterMap ((st.items ++ (st.itemsOf obj).map g)[·]?)) =
        (obj.responseItems.map (·.filterMap (st.items[·]?))).map (·.map g) := by
      cases h : obj.responseItems with
      | none => simp [withFreshRefs, h]
      | some refs =>
          simp only [withFreshRefs, h, Option.map_some, hitemRefs]
          simp [itemsOf, h]
    rw [read, hnew, hread]
    simp only [deref, hcalls, hitems, hres, hcall]
    rfl

end Store

end OpenCollab
