import OpenCollab.Json

/-!
# OpenCollab.Message

The conversation message and the *tool protocol* every provider enforces: an
assistant message that calls tools is answered by exactly one `tool` message
per call, right behind it, and no `tool` message stands anywhere else.

A history is therefore a sequence of **groups**: an assistant message with its
tool results (an *exchange*), or any other message on its own.  `groups` cuts a
list into them, `ProtocolValid` says that every one is well formed, and

* `groups_flatten` — well-formed groups are recovered from their concatenation;
* `flatten_groups` — the groups of a list concatenate to the list

make the two views interchangeable: whatever a component does to a list of
well-formed groups, it does to a protocol-valid history.
-/

namespace OpenCollab

/-! ## messages -/

/-- Who a message is from. -/
inductive Role where
  | system
  | developer
  | user
  | assistant
  | tool
deriving DecidableEq, Repr, Inhabited

/-- One call of an assistant's `tool_calls`; `name` and `arguments` are the
fields of its `function` object, `arguments` still as text. -/
structure ToolCall where
  id : String
  name : String
  arguments : String
deriving DecidableEq, Repr, Inhabited

/-- A message dict.  An absent key is `none` (`tool_calls` absent: `[]`; a flag
that is not set: `false`), and `ctxPriority` is `_ctx["priority"]`. -/
structure Message where
  role : Role
  content : Option Json := none
  toolCalls : List ToolCall := []
  toolCallId : Option String := none
  reasoningContent : Option String := none
  reasoning : Option String := none
  responseItems : Option (List Json) := none
  providerState : Json := .null
  ctxPriority : Option Int := none
  compacted : Bool := false
  placeholder : Bool := false
  phase : Json := .null
deriving DecidableEq, Repr, Inhabited

namespace Message

/-- `message.get("role") == "tool"`. -/
def isTool (m : Message) : Bool := m.role = .tool

/-- An assistant message carrying `tool_calls`: it leads a tool exchange. -/
def opensExchange (m : Message) : Bool := m.role = .assistant && !m.toolCalls.isEmpty

/-- The ids of the calls a message makes. -/
def callIds (m : Message) : List String := m.toolCalls.map ToolCall.id

/-- The text of a message whose `content` is a string. -/
def text? (m : Message) : Option String := m.content.bind Json.asStr?

/-- A message of one role with a text. -/
def ofText (role : Role) (text : String) : Message := { role, content := some (.str text) }

/-- The `tool` message answering call `id`. -/
def toolResult (id content : String) : Message :=
  { role := .tool, content := some (.str content), toolCallId := some id }

@[simp] theorem isTool_ofText (role : Role) (text : String) :
    (ofText role text).isTool = decide (role = .tool) := rfl

@[simp] theorem opensExchange_ofText (role : Role) (text : String) :
    (ofText role text).opensExchange = false := by simp [opensExchange, ofText]

@[simp] theorem isTool_toolResult (id content : String) : (toolResult id content).isTool = true := rfl

@[simp] theorem toolCallId_toolResult (id content : String) :
    (toolResult id content).toolCallId = some id := rfl

/-- The leader of an exchange is not itself a tool result. -/
theorem isTool_of_opensExchange (m : Message) (h : m.opensExchange = true) : m.isTool = false := by
  simp only [opensExchange, Bool.and_eq_true, decide_eq_true_eq] at h
  simp [isTool, h.1]

end Message

/-! ## groups -/

/-- A run of messages that only makes sense together. -/
abbrev Group := List Message

/-- Close the group `cur`, or extend it while it is an open exchange and tool
results keep coming. -/
def groupsFrom (cur : Group) (isOpen : Bool) : List Message → List Group
  | [] => [cur]
  | m :: rest =>
      if isOpen && m.isTool then groupsFrom (cur ++ [m]) true rest
      else cur :: groupsFrom [m] m.opensExchange rest

/-- Cut a history into its groups. -/
def groups : List Message → List Group
  | [] => []
  | m :: rest => groupsFrom [m] m.opensExchange rest

/-- A closed group takes no further message. -/
theorem groupsFrom_closed (cur : Group) (ms : List Message) :
    groupsFrom cur false ms = cur :: groups ms := by
  cases ms <;> simp [groupsFrom, groups]

/-- An open exchange takes the run of tool results behind it. -/
theorem groupsFrom_open (cur : Group) (ms : List Message) :
    groupsFrom cur true ms =
      (cur ++ ms.takeWhile Message.isTool) :: groups (ms.dropWhile Message.isTool) := by
  induction ms generalizing cur with
  | nil => simp [groupsFrom, groups]
  | cons m ms ih =>
      cases h : m.isTool with
      | true => simp [groupsFrom, h, ih]
      | false => simp [groupsFrom, h, groups]

/-- The leader of an exchange collects its results. -/
theorem groups_cons_open (ms : List Message) (h : m.opensExchange = true) :
    groups (m :: ms) =
      (m :: ms.takeWhile Message.isTool) :: groups (ms.dropWhile Message.isTool) := by
  simp [groups, h, groupsFrom_open]

/-- Any other message is a group of its own. -/
theorem groups_cons_solo (ms : List Message) (h : m.opensExchange = false) :
    groups (m :: ms) = [m] :: groups ms := by
  simp [groups, h, groupsFrom_closed]

theorem flatten_groupsFrom (cur : Group) (isOpen : Bool) (ms : List Message) :
    (groupsFrom cur isOpen ms).flatten = cur ++ ms := by
  induction ms generalizing cur isOpen with
  | nil => simp [groupsFrom]
  | cons m ms ih =>
      by_cases h : (isOpen && m.isTool) = true
      · simp only [groupsFrom, if_pos h, ih, List.append_assoc, List.singleton_append]
      · simp only [groupsFrom, if_neg h, List.flatten_cons, ih, List.singleton_append]

/-- The groups of a list concatenate to the list. -/
@[simp] theorem flatten_groups (ms : List Message) : (groups ms).flatten = ms := by
  cases ms with
  | nil => rfl
  | cons m ms => simp [groups, flatten_groupsFrom]

/-! ## the tool protocol -/

/-- The results of an exchange answer the calls of its leader: the ids are
distinct and non-empty, and each is answered exactly once. -/
structure Answers (leader : Message) (results : List Message) : Prop where
  nodup : leader.callIds.Nodup
  nonempty : ∀ id ∈ leader.callIds, id ≠ ""
  tools : ∀ r ∈ results, r.isTool = true
  paired : (results.map Message.toolCallId).Perm (leader.callIds.map some)

instance (leader : Message) (results : List Message) : Decidable (Answers leader results) :=
  decidable_of_iff (leader.callIds.Nodup ∧ (∀ id ∈ leader.callIds, id ≠ "") ∧
      (∀ r ∈ results, r.isTool = true) ∧
      (results.map Message.toolCallId).Perm (leader.callIds.map some))
    ⟨fun h => ⟨h.1, h.2.1, h.2.2.1, h.2.2.2⟩, fun h => ⟨h.nodup, h.nonempty, h.tools, h.paired⟩⟩

/-- A well-formed group: a complete exchange, or one message that neither
calls a tool nor is a tool result. -/
def GroupValid : Group → Prop
  | [] => False
  | m :: rest =>
      if m.opensExchange then Answers m rest else rest = [] ∧ m.isTool = false

instance : (g : Group) → Decidable (GroupValid g)
  | [] => .isFalse id
  | m :: rest => by unfold GroupValid; infer_instance

/-- **The tool protocol.**  Each assistant message with `tool_calls` carries
distinct non-empty ids and is immediately followed by exactly one tool message
per id, and no other tool message exists. -/
def ProtocolValid (ms : List Message) : Prop := ∀ g ∈ groups ms, GroupValid g

instance (ms : List Message) : Decidable (ProtocolValid ms) :=
  inferInstanceAs (Decidable (∀ g ∈ groups ms, GroupValid g))

/-- A group that is a complete tool exchange. -/
def isExchange : Group → Bool
  | [] => false
  | m :: _ => m.opensExchange

theorem groupValid_exchange (leader : Message) (results : List Message)
    (h : leader.opensExchange = true) :
    GroupValid (leader :: results) ↔ Answers leader results := by simp [GroupValid, h]

theorem groupValid_solo {m : Message} (h : m.opensExchange = false) (ht : m.isTool = false) :
    GroupValid [m] := by simp [GroupValid, h, ht]

variable {m : Message} {g : Group} {gs : List Group} {a b : List Message}

/-- A valid group starts with a message that is no tool result. -/
theorem GroupValid.head (h : GroupValid g) : ∃ m rest, g = m :: rest ∧ m.isTool = false := by
  cases g with
  | nil => exact absurd h (by simp [GroupValid])
  | cons m rest =>
      refine ⟨m, rest, rfl, ?_⟩
      cases ho : m.opensExchange with
      | true => exact Message.isTool_of_opensExchange m ho
      | false => simp only [GroupValid, ho, Bool.false_eq_true, if_false] at h; exact h.2

/-- What follows a valid group never starts with a tool result. -/
theorem takeWhile_isTool_flatten (h : ∀ g ∈ gs, GroupValid g) (results : List Message)
    (hr : ∀ r ∈ results, r.isTool = true) :
    (results ++ gs.flatten).takeWhile Message.isTool = results ∧
      (results ++ gs.flatten).dropWhile Message.isTool = gs.flatten := by
  induction results with
  | nil =>
      cases gs with
      | nil => simp
      | cons g gs =>
          obtain ⟨m, rest, rfl, hm⟩ := (h g List.mem_cons_self).head
          simp [hm]
  | cons r results ih =>
      have hrr := hr r List.mem_cons_self
      have hih := ih (fun q hq => hr q (List.mem_cons_of_mem r hq))
      simp [hrr, hih]

/-- **Well-formed groups are recovered from their concatenation**, so a
component may be described by what it does to groups. -/
theorem groups_flatten (h : ∀ g ∈ gs, GroupValid g) : groups gs.flatten = gs := by
  induction gs with
  | nil => rfl
  | cons g gs ih =>
      have hg := h g List.mem_cons_self
      have hgs : ∀ g' ∈ gs, GroupValid g' := fun g' hg' => h g' (List.mem_cons_of_mem g hg')
      obtain ⟨m, rest, rfl, hm⟩ := hg.head
      cases ho : m.opensExchange with
      | true =>
          have hans := (groupValid_exchange m rest ho).mp hg
          obtain ⟨htake, hdrop⟩ := takeWhile_isTool_flatten hgs rest hans.tools
          rw [List.flatten_cons, List.cons_append, groups_cons_open _ ho, htake, hdrop, ih hgs]
      | false =>
          simp only [GroupValid, ho, Bool.false_eq_true, if_false] at hg
          rw [hg.1, List.flatten_cons, List.singleton_append, groups_cons_solo _ ho, ih hgs]

/-- A concatenation of well-formed groups is protocol-valid. -/
theorem protocolValid_flatten (h : ∀ g ∈ gs, GroupValid g) : ProtocolValid gs.flatten := by
  rw [ProtocolValid, groups_flatten h]
  exact h

/-- A message that is no tool result starts a group. -/
theorem groupsFrom_append_cons {cur : Group} {isOpen : Bool} (hm : m.isTool = false) :
    groupsFrom cur isOpen (a ++ m :: b) = groupsFrom cur isOpen a ++ groups (m :: b) := by
  induction a generalizing cur isOpen with
  | nil => simp [groupsFrom, groups, hm]
  | cons x a ih =>
      rw [List.cons_append, groupsFrom, groupsFrom]
      split
      · exact ih
      · rw [ih, List.cons_append]

theorem groups_append_cons (hm : m.isTool = false) :
    groups (a ++ m :: b) = groups a ++ groups (m :: b) := by
  cases a with
  | nil => rfl
  | cons x a => exact groupsFrom_append_cons hm

@[simp] theorem protocolValid_nil : ProtocolValid [] := by simp [ProtocolValid, groups]

end OpenCollab
