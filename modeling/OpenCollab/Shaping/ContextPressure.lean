import Mathlib.Algebra.Order.BigOperators.Group.List
import Mathlib.Algebra.Order.Floor.Ring
import Mathlib.Data.Rat.Floor
import Mathlib.Tactic.Linarith
import Mathlib.Tactic.FieldSimp
import OpenCollab.Lib.Dict
import OpenCollab.Shaping.TokenEstimation

/-!
# OpenCollab.Shaping.ContextPressure

`ContextPressure` (`context_pressure.py`): the size of the current view, as
weights of its messages that are calibrated by the input usage of each request.
The measured tokens are shared out in proportion to the weights the messages
had, rounded up; quotients are taken exactly here.

* `messageSizer` — messages are sized by their content and the request estimate, which does not
  see the order of keys (`weigh_sortKeys`);
* `Weighted` — the invariant: every stored weight is at least one;
* `observeRequest_spec` — a measured request divides by a positive total, and
  the messages it sent then measure what was measured, up to the rounding;
* `run_weighted` — the invariant over every sequence of calls;
* `contextPressure_calibrated` — all of it, in every state that is reached.
-/

namespace OpenCollab

/-- What the sizing reads of a message: its serialised content (`_key`) and the
fallback estimate, which messages of one content share. -/
structure Sizer (M κ : Type) where
  key : M → κ
  estimate : M → Int
  estimate_key : ∀ m m', key m = key m' → estimate m = estimate m'

/-! ## messages -/

namespace Json

/-- An item in its place among items in the order of their keys. -/
def insertItem (item : String × Json) : List (String × Json) → List (String × Json)
  | [] => [item]
  | other :: rest =>
      if item.1 < other.1 then item :: other :: rest else other :: insertItem item rest

mutual

/-- The value as `json.dumps(..., sort_keys=True)` orders it. -/
def sortKeys : Json → Json
  | .arr xs => .arr (sortKeysAll xs)
  | .obj kvs => .obj (sortKeysItems kvs)
  | value => value

/-- The elements of an array. -/
def sortKeysAll : List Json → List Json
  | [] => []
  | x :: xs => sortKeys x :: sortKeysAll xs

/-- The items of a dict. -/
def sortKeysItems : List (String × Json) → List (String × Json)
  | [] => []
  | (k, x) :: rest => insertItem (k, sortKeys x) (sortKeysItems rest)

end

variable {text : String → Nat} {mark : Nat}

theorem weighItems_insertItem (item : String × Json) (items : List (String × Json)) :
    weighItems text mark (insertItem item items) = weighItems text mark (item :: items) := by
  induction items with
  | nil => rfl
  | cons other rest ih =>
      rw [insertItem]
      split
      · rfl
      · simp only [weighItems] at ih ⊢
        omega

mutual

/-- The size of a value does not depend on the order of its keys. -/
theorem weigh_sortKeys : (v : Json) → (sortKeys v).weigh text mark = v.weigh text mark
  | .arr xs => by rw [sortKeys, weigh, weigh, weighAll_sortKeysAll xs]
  | .obj kvs => by rw [sortKeys, weigh, weigh, weighItems_sortKeysItems kvs]
  | .null | .bool _ | .int _ | .float _ | .str _ => rfl

theorem weighAll_sortKeysAll : (xs : List Json) →
    weighAll text mark (sortKeysAll xs) = weighAll text mark xs
  | [] => rfl
  | x :: xs => by rw [sortKeysAll, weighAll, weighAll, weigh_sortKeys x, weighAll_sortKeysAll xs]

theorem weighItems_sortKeysItems : (kvs : List (String × Json)) →
    weighItems text mark (sortKeysItems kvs) = weighItems text mark kvs
  | [] => rfl
  | (k, x) :: rest => by
      rw [sortKeysItems, weighItems_insertItem, weighItems, weighItems, weigh_sortKeys x,
        weighItems_sortKeysItems rest]

end

theorem sortKeysAll_eq_map (xs : List Json) : sortKeysAll xs = xs.map sortKeys := by
  induction xs with
  | nil => rfl
  | cons x xs ih => rw [sortKeysAll, ih, List.map_cons]

theorem sortKeys_eq_null {v : Json} : sortKeys v = .null ↔ v = .null := by
  cases v with
  | null | bool _ | int _ | float _ | str _ => rfl
  | arr _ | obj _ => simp [sortKeys]

end Json

namespace Message

/-- `_key`: the content of the message, whatever the order of its keys. -/
def contentKey (m : Message) : Message :=
  { m with
    content := m.content.map Json.sortKeys
    responseItems := m.responseItems.map (·.map Json.sortKeys)
    providerState := m.providerState.sortKeys
    phase := m.phase.sortKeys }

variable {text : String → Nat} {mark : Nat}

/-- What a request carries weighs the same in every order of its keys. -/
theorem weigh_requestPayload_contentKey (m : Message) :
    (Json.obj m.contentKey.requestPayload).weigh text mark =
      (Json.obj m.requestPayload).weigh text mark := by
  have hcontent : Json.weighItems text mark (payloadItem "content"
        ((m.content.map Json.sortKeys).map fun content =>
          if content = .null then .str "" else content)) =
      Json.weighItems text mark (payloadItem "content" (m.content.map fun content =>
        if content = .null then .str "" else content)) := by
    cases m.content with
    | none => rfl
    | some v =>
        simp only [payloadItem, Option.map_some, Option.toList_some, Json.weighItems,
          Json.sortKeys_eq_null]
        split
        · rfl
        · rw [Json.weigh_sortKeys]
  have hstate : Json.weighItems text mark (payloadItem "provider_state"
        (if m.providerState.sortKeys = .null then none else some m.providerState.sortKeys)) =
      Json.weighItems text mark (payloadItem "provider_state"
        (if m.providerState = .null then none else some m.providerState)) := by
    simp only [Json.sortKeys_eq_null]
    split
    · rfl
    · simp only [payloadItem, Option.map_some, Option.toList_some, Json.weighItems]
      rw [Json.weigh_sortKeys]
  have hitems : Json.weighItems text mark (payloadItem "response_items"
        ((m.responseItems.map (·.map Json.sortKeys)).map .arr)) =
      Json.weighItems text mark (payloadItem "response_items" (m.responseItems.map .arr)) := by
    cases m.responseItems with
    | none => rfl
    | some items =>
        simp only [payloadItem, Option.map_some, Option.toList_some, Json.weighItems]
        rw [← Json.sortKeysAll_eq_map, Json.weigh, Json.weigh, Json.weighAll_sortKeysAll]
  have hsum : Json.weighItems text mark m.contentKey.requestPayload =
      Json.weighItems text mark m.requestPayload := by
    simp only [requestPayload, Json.weighItems_append]
    exact congrArg₂ (· + ·) (congrArg₂ (· + ·)
      (congrArg (· + _ + _ + _) (congrArg (_ + ·) hcontent)) hstate) hitems
  rw [Json.weigh, Json.weigh, hsum]

theorem requestTokens_contentKey (q : Quoted) (m : Message) :
    m.contentKey.requestTokens q = m.requestTokens q := by
  rw [requestTokens, requestTokens, weigh_requestPayload_contentKey,
    weigh_requestPayload_contentKey]

end Message

/-- Messages by their content, under the default estimate. -/
def messageSizer (q : Quoted) : Sizer Message Message where
  key := Message.contentKey
  estimate m := estimateRequestMessageTokens q [m]
  estimate_key m m' h := by
    have htokens : m.requestTokens q = m'.requestTokens q := by
      rw [← Message.requestTokens_contentKey q m, h, Message.requestTokens_contentKey]
    simp only [estimateRequestMessageTokens, List.map_singleton, htokens]

/-! ## the object -/

/-- The attributes the sizing reads of a usage record; `null` stands for an
attribute that is absent as well, but for `estimated`, which is then true. -/
structure PressureUsage where
  contextTokens : Json := .null
  inputTokens : Json := .null
  contextOutputTokens : Json := .null
  outputTokens : Json := .null
  contextTokensEstimated : Json := .null
  estimated : Json := .bool true

/-- The second attribute where the first is `None`. -/
def orElse (first second : Json) : Json :=
  match first with
  | .null => second
  | value => value

/-- `_measured`: the number of tokens, when it is one that was measured. -/
def measured (tokens : Json) (usage : PressureUsage) : Option Int :=
  match orElse usage.contextTokensEstimated usage.estimated, tokens with
  | .bool false, .int n => if 0 < n then some n else none
  | _, _ => none

theorem pos_of_measured {tokens : Json} {usage : PressureUsage} {n : Int}
    (h : measured tokens usage = some n) : 0 < n := by
  simp only [measured] at h
  split at h
  · split at h
    · simp only [Option.some.injEq] at h
      omega
    · contradiction
  · contradiction

/-- `ZeroDivisionError`. -/
inductive DivisionError where
  | zeroDivision
deriving Repr, DecidableEq

/-- `math.ceil(a / b)`. -/
def ceilDiv (a b : Int) : Except DivisionError Int :=
  if b = 0 then .error .zeroDivision else .ok ⌈(a / b : ℚ)⌉

/-- The stored weights. -/
structure ContextPressure (κ : Type) where
  weights : Lib.Dict κ Int

namespace ContextPressure

variable {M κ : Type} [DecidableEq κ]

/-- `_weight`. -/
def weight (z : Sizer M κ) (p : ContextPressure κ) (message : M) : Int :=
  match p.weights.get? (z.key message) with
  | some known => known
  | none => max 1 (z.estimate message)

/-- `__call__`. -/
def call (z : Sizer M κ) (p : ContextPressure κ) (messages : List M) : Int :=
  (messages.map (weight z p)).sum

/-- `clear`. -/
def clear : ContextPressure κ := ⟨.empty⟩

/-- A dict comprehension: a later item of a key replaces its value. -/
def ofItems (items : List (κ × Int)) : Lib.Dict κ Int :=
  items.foldl (fun d item => d.set item.1 item.2) .empty

/-- The tokens an `observe_request` measures. -/
def requestTokens (usage : PressureUsage) : Option Int :=
  measured (orElse usage.contextTokens usage.inputTokens) usage

/-- `observe_request`. -/
def observeRequest (z : Sizer M κ) (p : ContextPressure κ) (messages : List M)
    (usage : PressureUsage) : Except DivisionError (ContextPressure κ) :=
  match requestTokens usage with
  | none => .ok p
  | some tokens =>
      if messages = [] then .ok p
      else do
        let weighted := messages.map fun message => (z.key message, weight z p message)
        let total := (weighted.map Prod.snd).sum
        let items ← weighted.mapM fun item => do
          let share ← ceilDiv (item.2 * tokens) total
          .ok (item.1, share)
        .ok ⟨ofItems items⟩

/-- `observe_output`. -/
def observeOutput (z : Sizer M κ) (p : ContextPressure κ) (message : M) (usage : PressureUsage) :
    ContextPressure κ :=
  match measured (orElse usage.contextOutputTokens usage.outputTokens) usage with
  | none => p
  | some tokens =>
      ⟨p.weights.set (z.key message) (min (tokens + 64) (max 1 (z.estimate message)))⟩

/-- A call of the object. -/
inductive Op (M : Type) where
  | request (messages : List M) (usage : PressureUsage)
  | output (message : M) (usage : PressureUsage)
  | clear

/-- One call. -/
def perform (z : Sizer M κ) (p : ContextPressure κ) :
    Op M → Except DivisionError (ContextPressure κ)
  | .request messages usage => observeRequest z p messages usage
  | .output message usage => .ok (observeOutput z p message usage)
  | .clear => .ok clear

/-- A sequence of calls on a new object. -/
def run (z : Sizer M κ) (ops : List (Op M)) : Except DivisionError (ContextPressure κ) :=
  ops.foldlM (perform z) clear

/-! ## shares -/

/-- Every stored weight is at least one. -/
def Weighted (p : ContextPressure κ) : Prop := ∀ entry ∈ p.weights.entries, 1 ≤ entry.2

theorem Weighted.weight_pos {z : Sizer M κ} {p : ContextPressure κ} (hp : Weighted p) (message : M) :
    1 ≤ weight z p message := by
  simp only [weight]
  split
  · rename_i known hknown
    exact hp _ (Lib.Dict.get?_eq_some.1 hknown)
  · exact le_max_left ..

/-- The share of a weight is at least one. -/
theorem ceil_share_pos {w t total : Int} (hw : 1 ≤ w) (ht : 0 < t) (htotal : 0 < total) :
    1 ≤ ⌈((w * t : Int) / total : ℚ)⌉ := by
  rw [Int.one_le_ceil_iff]
  have hw' : (0 : ℚ) < (w * t : Int) := by exact_mod_cast mul_pos (by omega) ht
  have htotal' : (0 : ℚ) < total := by exact_mod_cast htotal
  exact div_pos hw' htotal'

/-- **The shares of a number of tokens sum up to it**, and to less than one more
for each of them. -/
theorem sum_ceil_shares (ws : List Int) (t total : Int) (htotal : 0 < total) :
    ((t * ws.sum : Int) : ℚ) / total ≤ ((ws.map fun w => ⌈((w * t : Int) / total : ℚ)⌉).sum : Int) ∧
      (ws ≠ [] → (((ws.map fun w => ⌈((w * t : Int) / total : ℚ)⌉).sum : Int) : ℚ) <
        ((t * ws.sum : Int) : ℚ) / total + ws.length) := by
  have htotal' : (0 : ℚ) < total := by exact_mod_cast htotal
  induction ws with
  | nil => simp
  | cons w ws ih =>
      have hsplit : ((t * (w :: ws).sum : Int) : ℚ) / total =
          ((w * t : Int) : ℚ) / total + ((t * ws.sum : Int) : ℚ) / total := by
        rw [List.sum_cons]
        push_cast
        field_simp
      have hle := Int.le_ceil (((w * t : Int) : ℚ) / total)
      have hlt := Int.ceil_lt_add_one (((w * t : Int) : ℚ) / total)
      rw [hsplit, List.map_cons, List.sum_cons, List.length_cons]
      push_cast at ih hle hlt ⊢
      constructor
      · linarith [ih.1]
      · intro _
        by_cases hnil : ws = []
        · subst hnil
          simp
          linarith
        · linarith [ih.2 hnil]

/-! ## the stored weights -/

private theorem get?_foldl_set {items : List (κ × Int)} {d : Lib.Dict κ Int} {key : κ} {value : Int}
    (hsame : ∀ item ∈ items, item.1 = key → item.2 = value)
    (hfound : d.get? key = some value ∨ ∃ item ∈ items, item.1 = key) :
    (items.foldl (fun d item => d.set item.1 item.2) d).get? key = some value := by
  induction items generalizing d with
  | nil => simpa using hfound
  | cons item items ih =>
      rw [List.foldl_cons]
      refine ih (fun other hother => hsame other (List.mem_cons_of_mem _ hother)) ?_
      by_cases hkey : item.1 = key
      · refine Or.inl ?_
        rw [← hsame item (List.mem_cons_self ..) hkey, ← hkey]
        exact Lib.Dict.get?_set_self
      · rcases hfound with hfound | ⟨other, hother, hotherKey⟩
        · exact Or.inl (by rw [Lib.Dict.get?_set_of_ne (Ne.symm hkey), hfound])
        · rcases List.mem_cons.1 hother with rfl | hother
          · exact absurd hotherKey hkey
          · exact Or.inr ⟨other, hother, hotherKey⟩

/-- What is stored for a key all of whose items agree. -/
theorem get?_ofItems {items : List (κ × Int)} {key : κ} {value : Int}
    (hsame : ∀ item ∈ items, item.1 = key → item.2 = value) (hfound : ∃ item ∈ items, item.1 = key) :
    (ofItems items).get? key = some value :=
  get?_foldl_set hsame (Or.inr hfound)

/-- A stored value is the value of an item. -/
theorem mem_ofItems {items : List (κ × Int)} :
    ∀ entry ∈ (ofItems items).entries, ∃ item ∈ items, item.2 = entry.2 := by
  suffices hfold : ∀ d : Lib.Dict κ Int, ∀ entry ∈ (items.foldl (fun d item => d.set item.1 item.2)
      d).entries, entry ∈ d.entries ∨ ∃ item ∈ items, item.2 = entry.2 by
    intro entry hentry
    rcases hfold .empty entry hentry with hmem | hitem
    · simp [Lib.Dict.empty] at hmem
    · exact hitem
  induction items with
  | nil => exact fun d entry hentry => Or.inl hentry
  | cons item items ih =>
      intro d entry hentry
      rw [List.foldl_cons] at hentry
      rcases ih _ entry hentry with hmem | ⟨other, hother, hvalue⟩
      · rcases Lib.Dict.mem_set.1 hmem with hmem | hmem
        · exact Or.inr ⟨item, List.mem_cons_self .., by rw [hmem]⟩
        · exact Or.inl hmem.1
      · exact Or.inr ⟨other, List.mem_cons_of_mem _ hother, hvalue⟩

/-! ## one request -/

/-- Messages of one content have one weight. -/
theorem weight_congr (z : Sizer M κ) (p : ContextPressure κ) {m m' : M} (h : z.key m = z.key m') :
    weight z p m = weight z p m' := by
  simp only [weight, h, z.estimate_key m m' h]

omit [DecidableEq κ] in
private theorem mapM_share {tokens total : Int} (htotal : total ≠ 0) (items : List (κ × Int)) :
    (items.mapM fun item => do
      let share ← ceilDiv (item.2 * tokens) total
      .ok (item.1, share)) =
      (.ok (items.map fun item => (item.1, ⌈((item.2 * tokens : Int) / total : ℚ)⌉)) :
        Except DivisionError (List (κ × Int))) := by
  induction items with
  | nil => rfl
  | cons item items ih =>
      rw [List.mapM_cons, ih]
      simp only [ceilDiv, htotal, if_false, bind, Except.bind, pure, Except.pure, List.map_cons]

/-- **A measured request** stores a weight of at least one for each of its
messages, and the messages then measure the tokens up to the rounding. -/
theorem observeRequest_spec (z : Sizer M κ) {p : ContextPressure κ} (hp : Weighted p)
    {messages : List M} {usage : PressureUsage} {tokens : Int}
    (htokens : requestTokens usage = some tokens) (hne : messages ≠ []) :
    ∃ p', observeRequest z p messages usage = .ok p' ∧ Weighted p' ∧
      tokens ≤ call z p' messages ∧ call z p' messages < tokens + messages.length := by
  have hpos : 0 < tokens := pos_of_measured htokens
  have hweights : ∀ w ∈ messages.map (weight z p), 1 ≤ w := by
    intro w hw
    obtain ⟨message, _, rfl⟩ := List.mem_map.1 hw
    exact hp.weight_pos message
  have htotal : 0 < call z p messages := by
    obtain ⟨message, rest, rfl⟩ := List.exists_cons_of_ne_nil hne
    have hrest : 0 ≤ (rest.map (weight z p)).sum := by
      refine List.sum_nonneg fun w hw => ?_
      have hone := hweights w (List.mem_cons_of_mem _ hw)
      omega
    have hfirst := hp.weight_pos (z := z) message
    simp only [call, List.map_cons, List.sum_cons]
    omega
  let share : M → Int := fun message =>
    ⌈((weight z p message * tokens : Int) / (call z p messages : Int) : ℚ)⌉
  let p' : ContextPressure κ := ⟨ofItems (messages.map fun message => (z.key message, share message))⟩
  have hrun : observeRequest z p messages usage = .ok p' := by
    have hsum : ((messages.map fun message => (z.key message, weight z p message)).map Prod.snd).sum =
        call z p messages := by
      rw [List.map_map]
      rfl
    simp only [observeRequest, htokens, hne, if_false, hsum]
    rw [mapM_share (by omega)]
    simp only [bind, Except.bind, List.map_map]
    rfl
  have hshare : ∀ message ∈ messages, weight z p' message = share message := by
    intro message hmessage
    have hget : p'.weights.get? (z.key message) = some (share message) := by
      apply get?_ofItems
      · intro item hitem hkey
        obtain ⟨other, _, rfl⟩ := List.mem_map.1 hitem
        simp only [share, weight_congr z p hkey]
      · exact ⟨_, List.mem_map_of_mem hmessage, rfl⟩
    simp only [weight, hget]
  have hcall : call z p' messages = ((messages.map (weight z p)).map fun w =>
      ⌈((w * tokens : Int) / (call z p messages : Int) : ℚ)⌉).sum := by
    rw [call, List.map_congr_left hshare, List.map_map]
    rfl
  have hbounds := sum_ceil_shares (messages.map (weight z p)) tokens _ htotal
  have hexact : ((tokens * (messages.map (weight z p)).sum : Int) : ℚ) / (call z p messages : Int) =
      tokens := by
    have hne' : ((call z p messages : Int) : ℚ) ≠ 0 := by exact_mod_cast htotal.ne'
    rw [show (messages.map (weight z p)).sum = call z p messages from rfl]
    push_cast
    field_simp
  rw [hexact, ← hcall, List.length_map] at hbounds
  refine ⟨p', hrun, ?_, by exact_mod_cast hbounds.1, ?_⟩
  · intro entry hentry
    obtain ⟨item, hitem, hvalue⟩ := mem_ofItems entry hentry
    obtain ⟨message, _, rfl⟩ := List.mem_map.1 hitem
    rw [← hvalue]
    exact ceil_share_pos (hp.weight_pos message) hpos htotal
  · exact_mod_cast hbounds.2 (by simpa using hne)

/-! ## every run -/

theorem observeOutput_weighted (z : Sizer M κ) {p : ContextPressure κ} (hp : Weighted p) (message : M)
    (usage : PressureUsage) : Weighted (observeOutput z p message usage) := by
  simp only [observeOutput]
  split
  · exact hp
  · rename_i tokens htokens
    have hpos := pos_of_measured htokens
    intro entry hentry
    rcases Lib.Dict.mem_set.1 hentry with hmem | hmem
    · rw [hmem]
      simp only [le_min_iff, le_max_iff]
      omega
    · exact hp entry hmem.1

/-- One call divides by nothing but positive totals and keeps the weights. -/
theorem perform_weighted (z : Sizer M κ) {p : ContextPressure κ} (hp : Weighted p) (op : Op M) :
    ∃ p', perform z p op = .ok p' ∧ Weighted p' := by
  cases op with
  | request messages usage =>
      cases htokens : requestTokens usage with
      | none => exact ⟨p, by simp [perform, observeRequest, htokens], hp⟩
      | some tokens =>
          by_cases hne : messages = []
          · exact ⟨p, by simp [perform, observeRequest, htokens, hne], hp⟩
          · obtain ⟨p', hrun, hweighted, _⟩ := observeRequest_spec z hp htokens hne
            exact ⟨p', hrun, hweighted⟩
  | output message usage => exact ⟨_, rfl, observeOutput_weighted z hp message usage⟩
  | clear => exact ⟨_, rfl, by intro entry hentry; simp [clear, Lib.Dict.empty] at hentry⟩

/-- **Every sequence of calls** runs to its end and keeps the weights. -/
theorem run_weighted (z : Sizer M κ) (ops : List (Op M)) :
    ∃ p, run z ops = .ok p ∧ Weighted p := by
  suffices hrun : ∀ p : ContextPressure κ, Weighted p →
      ∃ p', ops.foldlM (perform z) p = .ok p' ∧ Weighted p' from
    hrun clear (by intro entry hentry; simp [clear, Lib.Dict.empty] at hentry)
  induction ops with
  | nil => exact fun p hp => ⟨p, rfl, hp⟩
  | cons op ops ih =>
      intro p hp
      obtain ⟨next, hnext, hweighted⟩ := perform_weighted z hp op
      rw [List.foldlM_cons, hnext]
      exact ih next hweighted

/-- **Calibrated sizing.**  After every sequence of calls no division has been by
zero, every stored weight is at least one and the size of a view is the sum of
the sizes of its parts; and a measured request made then leaves its messages at
the tokens measured, or above by less than their number. -/
theorem contextPressure_calibrated (z : Sizer M κ) (ops : List (Op M)) :
    ∃ p, run z ops = .ok p ∧ (∀ entry ∈ p.weights.entries, 1 ≤ entry.2) ∧
      (∀ front back, call z p (front ++ back) = call z p front + call z p back) ∧
      ∀ messages usage tokens, requestTokens usage = some tokens → messages ≠ [] →
        ∃ p', observeRequest z p messages usage = .ok p' ∧
          tokens ≤ call z p' messages ∧ call z p' messages < tokens + messages.length := by
  obtain ⟨p, hrun, hweighted⟩ := run_weighted z ops
  refine ⟨p, hrun, hweighted, ?_, ?_⟩
  · intro front back
    simp [call]
  · intro messages usage tokens htokens hne
    obtain ⟨p', hrequest, _, hbounds⟩ := observeRequest_spec z hweighted htokens hne
    exact ⟨p', hrequest, hbounds⟩

/-- A view with a message twice, measured behind an earlier request and its answer. -/
theorem contextPressure_repeated :
    let z := messageSizer ⟨fun text => text.length + 2, fun _ => 0⟩
    let usage : PressureUsage := { inputTokens := .int 100, estimated := .bool false }
    let question := Message.ofText .user "again"
    let answer := Message.ofText .assistant "yes"
    let view := [question, answer, question]
    ∃ p p', run z [.request [question] usage, .output answer { outputTokens := .int 5 }] = .ok p ∧
      observeRequest z p view usage = .ok p' ∧ call z p view = call z p [question] +
        call z p [answer, question] ∧ 100 ≤ call z p' view ∧ call z p' view < 103 := by
  intro z usage question answer view
  obtain ⟨p, hrun, -, hadd, hmeasured⟩ := contextPressure_calibrated z
    [.request [question] usage, .output answer { outputTokens := .int 5 }]
  obtain ⟨p', hrequest, hlow, hhigh⟩ := hmeasured view usage 100 (by decide) (by simp [view])
  exact ⟨p, p', hrun, hrequest, hadd [question] [answer, question], hlow, hhigh⟩

end ContextPressure

end OpenCollab
