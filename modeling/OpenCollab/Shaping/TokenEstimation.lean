import Mathlib.Algebra.Ring.Int.Defs
import Mathlib.Algebra.Ring.Nat
import OpenCollab.Shaping.Snip

/-!
# OpenCollab.Shaping.TokenEstimation

The default estimate of a history (`domain/token_estimation.py`): the fields a
request carries are serialized per message, and the text is charged by its
characters.  Only the size of the serialized text matters, so that is what is
computed: `weigh` adds up characters, or bytes beyond one a character.

* `estimateTokens_mono` — a text with fewer characters costs no more;
* `weigh_set_le`, `weighAll_filter_le` — nor does a value with items left out;
* `estimate_withoutCalls_le` — nor does a turn without its calls.
-/

namespace OpenCollab

/-! ## texts -/

/-- `estimate_tokens(text)` of a text with `nChars` characters and `extra` bytes
of UTF-8 beyond one a character. -/
def estimateTokens (nChars extra : Nat) : Nat :=
  let wide := min nChars extra
  max 1 ((nChars - wide) / 3 + wide)

theorem estimateTokens_mono {n n' extra extra' : Nat} (hn : n ≤ n') (hextra : extra ≤ extra') :
    estimateTokens n extra ≤ estimateTokens n' extra' := by
  unfold estimateTokens
  dsimp only
  omega

/-- The sizes of a string as `json.dumps` writes it, quotes and escapes included:
its characters, and its bytes beyond one a character. -/
structure Quoted where
  chars : String → Nat
  extra : String → Nat

/-! ## values -/

namespace Json

variable (text : String → Nat) (mark : Nat)

mutual

/-- The size of the serialized value, where a string has size `text` and an ASCII
character size `mark`; the order of the keys does not change it. -/
def weigh : Json → Nat
  | .null => 4 * mark
  | .bool b => (if b then 4 else 5) * mark
  | .int n => (toString n).length * mark
  | .float t => t.length * mark
  | .str s => text s
  | .arr xs => 2 * mark + (weighAll xs - mark)
  | .obj kvs => 2 * mark + (weighItems kvs - mark)

/-- The elements of an array, each with a separator. -/
def weighAll : List Json → Nat
  | [] => 0
  | x :: xs => weigh x + mark + weighAll xs

/-- The items of a dict, each with its colon and a separator. -/
def weighItems : List (String × Json) → Nat
  | [] => 0
  | (k, x) :: rest => text k + mark + weigh x + mark + weighItems rest

end

variable {text mark}

theorem weighAll_filter_le (p : Json → Bool) (xs : List Json) :
    weighAll text mark (xs.filter p) ≤ weighAll text mark xs := by
  induction xs with
  | nil => exact Nat.le_refl _
  | cons x xs ih =>
      rw [List.filter_cons, weighAll]
      split
      · rw [weighAll]
        omega
      · omega

theorem weigh_arr_filter_le (p : Json → Bool) (xs : List Json) :
    weigh text mark (.arr (xs.filter p)) ≤ weigh text mark (.arr xs) := by
  have : weighAll text mark (xs.filter p) ≤ weighAll text mark xs := weighAll_filter_le p xs
  rw [weigh, weigh]
  omega

theorem weighItems_append (a b : List (String × Json)) :
    weighItems text mark (a ++ b) = weighItems text mark a + weighItems text mark b := by
  induction a with
  | nil => rw [List.nil_append, weighItems, Nat.zero_add]
  | cons item a ih =>
      obtain ⟨k, x⟩ := item
      rw [List.cons_append, weighItems, weighItems, ih]
      omega

/-- A smaller item in the place of another. -/
theorem weighItems_setItem_le {key : String} {x y : Json} {kvs : List (String × Json)}
    (hlookup : kvs.lookup key = some x) (hle : weigh text mark y ≤ weigh text mark x) :
    weighItems text mark (setItem key y kvs) ≤ weighItems text mark kvs := by
  induction kvs with
  | nil => contradiction
  | cons item rest ih =>
      obtain ⟨k, v⟩ := item
      rw [lookup_cons_ite] at hlookup
      rw [setItem]
      split
      · rename_i hk
        rw [if_pos hk.symm] at hlookup
        obtain rfl := Option.some.inj hlookup
        rw [weighItems, weighItems]
        omega
      · rename_i hk
        rw [if_neg (Ne.symm hk)] at hlookup
        have := ih hlookup
        rw [weighItems, weighItems]
        omega

end Json

/-! ## messages -/

/-- The name of a role. -/
def Role.name : Role → String
  | system => "system"
  | developer => "developer"
  | user => "user"
  | assistant => "assistant"
  | tool => "tool"

/-- A call as the provider's dict. -/
def ToolCall.toDict (call : ToolCall) : Json := .obj [
  ("id", .str call.id), ("type", .str "function"),
  ("function", .obj [("name", .str call.name), ("arguments", .str call.arguments)])]

/-- An item of the payload, if the message has the key. -/
def payloadItem (key : String) (value : Option Json) : List (String × Json) :=
  (value.map fun v => (key, v)).toList

namespace Message

/-- `_request_message_payload` of history sizing: the recorded fields. -/
def requestPayload (m : Message) : List (String × Json) :=
  payloadItem "role" (some (.str m.role.name)) ++
  payloadItem "content" (m.content.map fun content =>
    if content = .null then .str "" else content) ++
  payloadItem "reasoning_content" (m.reasoningContent.map .str) ++
  payloadItem "tool_calls"
    (if m.toolCalls.isEmpty then none else some (.arr (m.toolCalls.map ToolCall.toDict))) ++
  payloadItem "tool_call_id" (m.toolCallId.map .str) ++
  payloadItem "provider_state" (if m.providerState = .null then none else some m.providerState) ++
  payloadItem "response_items" (m.responseItems.map .arr)

/-- The charge of one message. -/
def requestTokens (q : Quoted) (m : Message) : Nat :=
  64 + estimateTokens ((Json.obj m.requestPayload).weigh q.chars 1)
    ((Json.obj m.requestPayload).weigh q.extra 0)

end Message

/-- `estimate_request_message_tokens`, the default of the history layers. -/
def estimateRequestMessageTokens (q : Quoted) (messages : List Message) : Int :=
  ((messages.map (·.requestTokens q)).sum : Nat)

/-! ## a turn without its calls -/

section WithoutCalls

variable {text : String → Nat} {mark : Nat}

theorem weigh_providerStateWithoutCalls_le (state : Json) :
    (providerStateWithoutCalls state).weigh text mark ≤ state.weigh text mark := by
  unfold providerStateWithoutCalls
  cases hblocks : (state.get "anthropic_content").asArr? with
  | none => exact Nat.le_refl _
  | some blocks =>
      cases state with
      | obj kvs =>
          have hlookup : kvs.lookup "anthropic_content" = some (.arr blocks) := by
            unfold Json.get Json.get? at hblocks
            dsimp only at hblocks
            cases hget : kvs.lookup "anthropic_content" with
            | none =>
                rw [hget] at hblocks
                contradiction
            | some value =>
                rw [hget, Option.getD_some] at hblocks
                cases value with
                | arr xs =>
                    obtain rfl : xs = blocks := Option.some.inj hblocks
                    rfl
                | null | bool _ | int _ | float _ | str _ | obj _ => contradiction
          have hfilter : Json.weigh text mark (.arr (blocks.filter (hasNotType "tool_use"))) ≤
              Json.weigh text mark (.arr blocks) := Json.weigh_arr_filter_le _ blocks
          have hset := Json.weighItems_setItem_le hlookup hfilter
          dsimp only [Json.set]
          rw [Json.weigh, Json.weigh]
          omega
      | null | bool _ | int _ | float _ | str _ | arr _ => contradiction

/-- The weight of an item that may be missing. -/
theorem weighItems_payloadItem_le {key : String} {value value' : Option Json}
    (h : ∀ v, value = some v → ∃ v', value' = some v' ∧ v.weigh text mark ≤ v'.weigh text mark) :
    Json.weighItems text mark (payloadItem key value) ≤
      Json.weighItems text mark (payloadItem key value') := by
  cases value with
  | none => exact Nat.zero_le _
  | some v =>
      obtain ⟨v', rfl, hle⟩ := h v rfl
      simp only [payloadItem, Option.map_some, Option.toList_some, Json.weighItems]
      omega

theorem weigh_requestPayload_withoutCalls_le (m : Message) :
    (Json.obj (withoutCalls m).requestPayload).weigh text mark ≤
      (Json.obj m.requestPayload).weigh text mark := by
  have hcalls : Json.weighItems text mark (payloadItem "tool_calls" none) ≤
      Json.weighItems text mark (payloadItem "tool_calls" (if m.toolCalls.isEmpty then none
        else some (.arr (m.toolCalls.map ToolCall.toDict)))) := Nat.zero_le _
  have hstate : Json.weighItems text mark (payloadItem "provider_state"
        (if providerStateWithoutCalls m.providerState = .null then none
          else some (providerStateWithoutCalls m.providerState))) ≤
      Json.weighItems text mark (payloadItem "provider_state"
        (if m.providerState = .null then none else some m.providerState)) := by
    refine weighItems_payloadItem_le fun v hv => ?_
    split at hv
    · contradiction
    · rename_i hne
      obtain rfl := Option.some.inj hv
      refine ⟨m.providerState, if_neg fun hnull => hne ?_, weigh_providerStateWithoutCalls_le _⟩
      rw [hnull]
      rfl
  have hitems : Json.weighItems text mark (payloadItem "response_items"
        ((m.responseItems.map (·.filter (hasNotType "function_call"))).map .arr)) ≤
      Json.weighItems text mark (payloadItem "response_items" (m.responseItems.map .arr)) := by
    refine weighItems_payloadItem_le fun v hv => ?_
    rw [Option.map_map] at hv
    obtain ⟨items, hsome, rfl⟩ := Option.map_eq_some_iff.mp hv
    refine ⟨.arr items, by rw [hsome]; rfl, Json.weigh_arr_filter_le _ _⟩
  rw [Json.weigh, Json.weigh]
  refine Nat.add_le_add_left (Nat.sub_le_sub_right ?_ _) _
  simp only [Message.requestPayload, Json.weighItems_append]
  show _ + Json.weighItems text mark (payloadItem "tool_calls" none) + _ + _ + _ ≤ _
  refine Nat.add_le_add (Nat.add_le_add (Nat.add_le_add (Nat.add_le_add (Nat.le_refl _) hcalls)
    (Nat.le_refl _)) hstate) hitems

end WithoutCalls

variable (q : Quoted)

theorem estimateRequestMessageTokens_append (a b : List Message) :
    estimateRequestMessageTokens q (a ++ b) =
      estimateRequestMessageTokens q a + estimateRequestMessageTokens q b := by
  unfold estimateRequestMessageTokens
  rw [List.map_append, List.sum_append]
  exact Int.natCast_add _ _

/-- **A turn costs no more without its calls.** -/
theorem estimate_withoutCalls_le (m : Message) :
    estimateRequestMessageTokens q [withoutCalls m] ≤ estimateRequestMessageTokens q [m] := by
  have hle : (withoutCalls m).requestTokens q ≤ m.requestTokens q :=
    Nat.add_le_add_left (estimateTokens_mono (weigh_requestPayload_withoutCalls_le m)
      (weigh_requestPayload_withoutCalls_le m)) 64
  unfold estimateRequestMessageTokens
  simp only [List.map_cons, List.map_nil, List.sum_cons, List.sum_nil]
  omega

end OpenCollab
