import OpenCollab.Lib.Effect
import OpenCollab.Session.Thinking

/-!
# OpenCollab.Session.ThinkingRuns

Native thinking keeps the prefix it is bound to, over whole runs.

`Bound sent tools messages` is the property of one list: every message with
thinking in it is the reply to a request in `sent` that offered the same tools,
had the same system messages, and consisted of just the messages before it.

* `retained` — what an edit leaves in place was in place before it;
* `Inv.remember` — so the view of the next request is `Bound` again;
* `Inv.completeWithChoice`, `Inv.callLlm`, `Inv.step` — an attempt, a call and a
  step keep the invariant;
* `thinking_keeps_prefix` — every request of every run.
-/

namespace OpenCollab.Thinking

/-! ## stripping -/

theorem hasThinking_withoutThinking (m : Message) : hasThinking (withoutThinking m) = false := by
  unfold withoutThinking
  cases hc : anthropicContent m with
  | none => simp [hasThinking, hc]
  | some blocks =>
      simp only
      split
      · have hobj : ∃ items, m.providerState = .obj items := by
          unfold anthropicContent Json.get Json.get? at hc
          cases hp : m.providerState <;> simp_all [Json.asArr?]
        obtain ⟨items, hitems⟩ := hobj
        simp [hasThinking, anthropicContent, hitems, Json.set, Json.get, Json.get?, Json.asArr?]
      · rename_i hlength
        have hall : blocks.filter (fun block => !isThinkingBlock block) = blocks :=
          List.filter_sublist.eq_of_length (not_not.mp hlength)
        rw [List.filter_eq_self] at hall
        simpa [hasThinking, hc] using hall

theorem withoutThinking_eq {m : Message} (h : hasThinking m = false) : withoutThinking m = m := by
  unfold withoutThinking
  cases hc : anthropicContent m with
  | none => rfl
  | some blocks =>
      have hall : blocks.filter (fun block => !isThinkingBlock block) = blocks := by
        rw [List.filter_eq_self]
        simpa [hasThinking, hc] using h
      simp [hall]

@[simp] theorem isSystem_withoutThinking (m : Message) :
    isSystem (withoutThinking m) = isSystem m := by
  unfold withoutThinking
  split
  · rfl
  · simp only
    split
    · rfl
    · rfl

@[simp] theorem length_strip (messages : List Message) (n : Nat) :
    (stripAnthropicThinking messages n).length = messages.length := by
  simp only [stripAnthropicThinking, List.length_append, List.length_take, List.length_map,
    List.length_drop]
  omega

@[simp] theorem length_edited (before after : List Message) :
    (editedAnthropicHistory before after).length = after.length := by
  unfold editedAnthropicHistory
  split
  · exact length_strip after 0
  · split
    · exact length_strip after _
    · rfl

/-- Thinking that a strip leaves stands before it started. -/
theorem retained_strip {messages : List Message} {n i : Nat} {m : Message}
    (hm : (stripAnthropicThinking messages n)[i]? = some m) (ht : hasThinking m = true) : i < n := by
  by_contra hi
  have htake : (messages.take n).length ≤ i := by
    rw [List.length_take]
    omega
  rw [stripAnthropicThinking, List.getElem?_append_right htake, List.getElem?_map] at hm
  cases hd : (messages.drop n)[i - (messages.take n).length]? with
  | none => rw [hd] at hm; cases hm
  | some m' =>
      rw [hd, Option.map_some, Option.some.injEq] at hm
      rw [← hm, hasThinking_withoutThinking] at ht
      cases ht

theorem take_strip {messages : List Message} {n i : Nat} (hi : i ≤ n) :
    (stripAnthropicThinking messages n).take i = messages.take i := by
  by_cases hn : n ≤ messages.length
  · rw [stripAnthropicThinking, List.take_append_of_le_length (by rw [List.length_take]; omega),
      List.take_take, Nat.min_eq_left hi]
  · rw [stripAnthropicThinking, List.drop_eq_nil_of_le (by omega), List.map_nil, List.append_nil,
      List.take_take, Nat.min_eq_left hi]

theorem systems_map_withoutThinking {messages : List Message}
    (h : ∀ m ∈ systems messages, hasThinking m = false) :
    systems (messages.map withoutThinking) = systems messages := by
  induction messages with
  | nil => rfl
  | cons m rest ih =>
      by_cases hsys : isSystem m = true
      · rw [systems, List.filter_cons_of_pos hsys] at h
        have hm : withoutThinking m = m := withoutThinking_eq (h m List.mem_cons_self)
        have hrest := ih fun m' hm' => h m' (List.mem_cons_of_mem m hm')
        rw [List.map_cons, hm, systems, systems, List.filter_cons_of_pos hsys,
          List.filter_cons_of_pos hsys]
        exact congrArg (m :: ·) hrest
      · rw [systems, List.filter_cons_of_neg hsys] at h
        have hrest := ih h
        have hsys' : ¬ isSystem (withoutThinking m) = true := by rwa [isSystem_withoutThinking]
        rw [List.map_cons, systems, systems, List.filter_cons_of_neg hsys',
          List.filter_cons_of_neg hsys]
        exact hrest

/-- Stripping leaves system messages alone. -/
theorem systems_strip {messages : List Message} (h : ∀ m ∈ systems messages, hasThinking m = false)
    (n : Nat) : systems (stripAnthropicThinking messages n) = systems messages := by
  have hsplit : systems messages = systems (messages.take n) ++ systems (messages.drop n) := by
    rw [systems, systems, systems, ← List.filter_append, List.take_append_drop]
  have hdrop : ∀ m ∈ systems (messages.drop n), hasThinking m = false := by
    intro m hm
    exact h m (hsplit ▸ List.mem_append_right _ hm)
  rw [hsplit, ← systems_map_withoutThinking hdrop]
  exact List.filter_append ..

/-! ## edits -/

/-- Up to the first edit two lists agree, as far as both go. -/
theorem agree_of_firstEdit {before after : List Message} {n : Nat}
    (h : firstEdit before after = some n) : after.take n = before.take n := by
  induction before generalizing after n with
  | nil => simp [firstEdit] at h
  | cons old before ih =>
      cases after with
      | nil => simp [firstEdit] at h
      | cons new after =>
          by_cases he : old = new
          · rw [firstEdit, if_pos he] at h
            obtain ⟨k, hk, rfl⟩ := Option.map_eq_some_iff.mp h
            rw [List.take_succ_cons, List.take_succ_cons, ih hk, he]
          · rw [firstEdit, if_neg he, Option.some.injEq] at h
            subst h
            rfl

theorem agree_of_no_edit {before after : List Message} (h : firstEdit before after = none) :
    after.take before.length = before.take after.length := by
  induction before generalizing after with
  | nil => simp
  | cons old before ih =>
      cases after with
      | nil => simp
      | cons new after =>
          by_cases he : old = new
          · rw [firstEdit, if_pos he, Option.map_eq_none_iff] at h
            rw [List.length_cons, List.length_cons, List.take_succ_cons, List.take_succ_cons, ih h, he]
          · rw [firstEdit, if_neg he] at h
            cases h

/-- **What an edit leaves in place was in place before it**: where thinking is retained,
the system messages are the old ones, and the messages up to it are those of the old
list, as far as that goes. -/
theorem retained {before after : List Message} {i : Nat} {m : Message}
    (hm : (editedAnthropicHistory before after)[i]? = some m) (ht : hasThinking m = true) :
    systems before = systems after ∧
      (editedAnthropicHistory before after).take (i + 1) = after.take (i + 1) ∧
      (i < before.length → after.take (i + 1) = before.take (i + 1)) ∧
      (before.length ≤ i → after.take before.length = before) := by
  unfold editedAnthropicHistory at hm ⊢
  by_cases hsys : systems before = systems after
  · rw [if_neg (by simp [hsys])] at hm ⊢
    cases hedit : firstEdit before after with
    | some n =>
        simp only [hedit] at hm ⊢
        have hi : i < n := retained_strip hm ht
        have hagree := agree_of_firstEdit hedit
        refine ⟨hsys, take_strip hi, fun _ => ?_, fun hlen => ?_⟩
        · have htake := congrArg (List.take (i + 1)) hagree
          rwa [List.take_take, List.take_take, Nat.min_eq_left hi] at htake
        · have htake := congrArg (List.take before.length) hagree
          rwa [List.take_take, List.take_take, Nat.min_eq_left (by omega), List.take_length] at htake
    | none =>
        simp only [hedit] at hm ⊢
        have hagree := agree_of_no_edit hedit
        have hafter : i < after.length := by
          obtain ⟨hi, -⟩ := List.getElem?_eq_some_iff.mp hm
          exact hi
        refine ⟨hsys, trivial, fun hlen => ?_, fun hlen => ?_⟩
        · have htake := congrArg (List.take (i + 1)) hagree
          rwa [List.take_take, List.take_take, Nat.min_eq_left (by omega),
            Nat.min_eq_left (by omega)] at htake
        · rwa [List.take_of_length_le (l := before) (by omega)] at hagree
  · rw [if_pos hsys] at hm
    exact absurd (retained_strip hm ht) (Nat.not_lt_zero i)

/-- An edit leaves system messages alone. -/
theorem systems_edited {before after : List Message}
    (h : ∀ m ∈ systems after, hasThinking m = false) :
    systems (editedAnthropicHistory before after) = systems after := by
  unfold editedAnthropicHistory
  split
  · exact systems_strip h 0
  · split
    · exact systems_strip h _
    · rfl

theorem getElem?_of_take {xs ys : List Message} {i : Nat} (h : xs.take (i + 1) = ys.take (i + 1)) :
    xs[i]? = ys[i]? := by
  rw [← List.getElem?_take_of_lt (Nat.lt_succ_self i), h,
    List.getElem?_take_of_lt (Nat.lt_succ_self i)]

theorem take_of_take_succ {xs ys : List Message} {i : Nat} (h : xs.take (i + 1) = ys.take (i + 1)) :
    xs.take i = ys.take i := by
  have htake := congrArg (List.take i) h
  rwa [List.take_take, List.take_take, Nat.min_eq_left (Nat.le_succ i)] at htake

/-! ## the invariant -/

/-- **Thinking is bound**: every message with thinking in the list is the reply to a
request sent with these tools and these system messages, and consisting of just the
messages before it. -/
def Bound (sent : List Request) (tools : Option (List Json)) (messages : List Message) : Prop :=
  ∀ i m, messages[i]? = some m → hasThinking m = true →
    ∃ r ∈ sent, r.reply.map Subtype.val = some m ∧ r.tools = tools ∧
      systems r.messages = systems messages ∧ r.messages = messages.take i

/-- Nothing past this length carries thinking. -/
def PlainPast (n : Nat) (messages : List Message) : Prop :=
  ∀ i m, n ≤ i → messages[i]? = some m → hasThinking m = false

/-- How much of the transcript the view covers. -/
def sourceCount (w : World) : Nat := (w.history.map AnthropicHistory.sourceCount).getD 0

structure Inv (w : World) : Prop where
  source : ∃ covered, w.messages = covered ++ w.fresh ∧ covered.length = sourceCount w
  plain : w.history = none → ∀ m ∈ w.messages, hasThinking m = false
  bound : ∀ h, w.history = some h → Bound w.sent h.tools h.messages
  reply : ∀ h, w.history = some h → ∀ i m, w.fresh[i]? = some m → hasThinking m = true →
    i = 0 ∧ ∃ r ∈ w.sent, r.reply.map Subtype.val = some m ∧ r.tools = h.tools ∧
      r.messages = h.messages
  log : ∀ k r, w.sent[k]? = some r → Bound (w.sent.take k) r.tools r.messages
  shapings : ∀ s ∈ w.shapings, s.input = s.view ++ s.fresh ∧ s.fresh <:+ s.transcript

variable {w w' : World} {messages : List Message} {tools : Option (List Json)}

/-- **The input of the next request** is the view, and the messages appended since. -/
theorem Inv.input (hi : Inv w) : anthropicHistoryInput w = view w ++ w.fresh := by
  obtain ⟨covered, hsource, hlength⟩ := hi.source
  unfold anthropicHistoryInput
  cases hh : w.history with
  | none =>
      rw [sourceCount, hh] at hlength
      rw [view, hh, hsource, List.length_eq_zero_iff.mp hlength]
      rfl
  | some h =>
      rw [sourceCount, hh] at hlength
      rw [view, hh]
      have hdrop : w.messages.drop h.sourceCount = w.fresh := by
        rw [hsource]
        exact List.drop_left' hlength
      simp [hdrop]

/-- Bound thinking is never in a system message. -/
theorem Bound.systems_plain {sent : List Request} (hb : Bound sent tools messages) :
    ∀ m ∈ systems messages, hasThinking m = false := by
  intro m hm
  obtain ⟨hmem, hsys⟩ := List.mem_filter.mp hm
  by_contra ht
  rw [Bool.not_eq_false] at ht
  obtain ⟨i, hi⟩ := List.mem_iff_getElem?.mp hmem
  obtain ⟨r, -, hreply, -⟩ := hb i m hi ht
  obtain ⟨reply, -, rfl⟩ := Option.map_eq_some_iff.mp hreply
  simp [isSystem, reply.property] at hsys

theorem Bound.mono {sent sent' : List Request} (hb : Bound sent tools messages)
    (h : ∀ r ∈ sent, r ∈ sent') : Bound sent' tools messages := by
  intro i m hm ht
  obtain ⟨r, hr, hrest⟩ := hb i m hm ht
  exact ⟨r, h r hr, hrest⟩

theorem Bound.of_plain {sent : List Request} (h : ∀ m ∈ messages, hasThinking m = false) :
    Bound sent tools messages := by
  intro i m hm ht
  rw [h m (List.mem_of_getElem? hm)] at ht
  cases ht

/-! ## the view of a request -/

/-- Where nothing was sent yet, no request has thinking in it. -/
theorem edited_plain {before after : List Message} (hbefore : ∀ m ∈ before, hasThinking m = false)
    (hpast : PlainPast before.length after) :
    ∀ m ∈ editedAnthropicHistory before after, hasThinking m = false := by
  intro m hm
  by_contra ht
  rw [Bool.not_eq_false] at ht
  obtain ⟨i, hi⟩ := List.mem_iff_getElem?.mp hm
  obtain ⟨-, hkept, hold, -⟩ := retained hi ht
  have hafter : after[i]? = some m := (getElem?_of_take hkept).symm.trans hi
  by_cases hlen : i < before.length
  · have hmem := List.mem_of_getElem? ((getElem?_of_take (hold hlen)).symm.trans hafter)
    rw [hbefore m hmem] at ht
    cases ht
  · rw [hpast i m (by omega) hafter] at ht
    cases ht

/-- **The view of the next request is bound** again: what it retains of the old view is
bound to the prefix it had, and the reply to the last request is bound to that view. -/
theorem Inv.bound_view (hi : Inv w) {h : AnthropicHistory} (hh : w.history = some h)
    (hpast : PlainPast (anthropicHistoryInput w).length messages) :
    Bound w.sent h.tools (editedAnthropicHistory h.messages
      (editedAnthropicHistory (anthropicHistoryInput w) messages)) := by
  intro i m hm ht
  obtain ⟨hsystems, hkept, hold, hnew⟩ := retained hm ht
  have hmid := (getElem?_of_take hkept).symm.trans hm
  obtain ⟨-, hkept', hold', -⟩ := retained hmid ht
  have hbound := hi.bound h hh
  have hsame : systems (editedAnthropicHistory h.messages
      (editedAnthropicHistory (anthropicHistoryInput w) messages)) = systems h.messages := by
    rw [systems_edited (hsystems ▸ hbound.systems_plain), hsystems]
  rw [hsame, take_of_take_succ hkept]
  by_cases hlen : i < h.messages.length
  · obtain ⟨r, hr, hreply, htools, hsys, hpre⟩ :=
      hbound i m ((getElem?_of_take (hold hlen)).symm.trans hmid) ht
    exact ⟨r, hr, hreply, htools, hsys, by rw [hpre, take_of_take_succ (hold hlen)]⟩
  · -- behind the old view stands what was appended since, the reply first
    have hmessages : messages[i]? = some m := (getElem?_of_take hkept').symm.trans hmid
    have hinput : i < (anthropicHistoryInput w).length := by
      by_contra hge
      rw [hpast i m (by omega) hmessages] at ht
      cases ht
    have hfresh := (getElem?_of_take (hold' hinput)).symm.trans hmessages
    have hview : view w = h.messages := by simp [view, hh]
    rw [hi.input, hview, List.getElem?_append_right (by omega)] at hfresh
    obtain ⟨hzero, r, hr, hreply, htools, hpre⟩ := hi.reply h hh _ m hfresh ht
    have hat : i = h.messages.length := by omega
    exact ⟨r, hr, hreply, htools, by rw [hpre], by rw [hpre, hat, hnew (by omega)]⟩

theorem PlainPast.of_length_le {n : Nat} (h : messages.length ≤ n) : PlainPast n messages := by
  intro i m hi hm
  rw [List.getElem?_eq_none (by omega)] at hm
  cases hm

/-- What is remembered: the view is that of the history, and nothing is fresh. -/
structure Remembered (w : World) (view : List Message) (tools : Option (List Json)) : Prop where
  inv : Inv w
  history : ∃ count, w.history = some ⟨view, count, tools⟩
  fresh : w.fresh = []

theorem Remembered.input {view : List Message} (h : Remembered w view tools) :
    anthropicHistoryInput w = view := by
  obtain ⟨count, hh⟩ := h.history
  rw [h.inv.input, h.fresh, Thinking.view, hh]
  simp

theorem Inv.bound_remembered (hi : Inv w)
    (hpast : PlainPast (anthropicHistoryInput w).length messages) :
    Bound w.sent tools (rememberAnthropicHistory w messages tools).2 := by
  unfold rememberAnthropicHistory
  cases hh : w.history with
  | none =>
      refine .of_plain (edited_plain ?_ hpast)
      rw [anthropicHistoryInput, hh]
      exact hi.plain hh
  | some h =>
      by_cases htools : h.tools = tools
      · simp only [htools, ne_eq, not_true_eq_false, if_false]
        exact htools ▸ hi.bound_view hh hpast
      · simp only [htools, ne_eq, not_false_eq_true, if_true]
        intro i m hm ht
        exact absurd (retained_strip hm ht) (Nat.not_lt_zero i)

theorem length_remembered (w : World) (messages : List Message) (tools : Option (List Json)) :
    (rememberAnthropicHistory w messages tools).2.length = messages.length := by
  unfold rememberAnthropicHistory
  cases w.history with
  | none => exact length_edited _ _
  | some h =>
      by_cases htools : h.tools = tools
      · simp [htools]
      · simp [htools]

/-- **Remembering a view keeps the invariant**, and the view is bound. -/
theorem Inv.remember (hi : Inv w) (hpast : PlainPast (anthropicHistoryInput w).length messages)
    (tools : Option (List Json)) :
    Remembered (rememberAnthropicHistory w messages tools).1
      (rememberAnthropicHistory w messages tools).2 tools := by
  refine ⟨?_, ⟨w.messages.length, rfl⟩, rfl⟩
  constructor
  · exact ⟨w.messages, (List.append_nil _).symm, rfl⟩
  · exact fun hnone => nomatch hnone
  · intro h hh
    rw [← Option.some.inj hh]
    exact hi.bound_remembered hpast
  · intro h _ i m hm
    cases hm
  · exact hi.log
  · exact hi.shapings

/-! ## requests and replies -/

/-- The last request was answered, and nothing was appended since. -/
def Answered (w : World) (reply : Reply) : Prop :=
  ∃ h, w.history = some h ∧ w.fresh = [] ∧
    ∃ r ∈ w.sent, r.reply = some reply ∧ r.tools = h.tools ∧ r.messages = h.messages

theorem sent_send (w : World) (view : List Message) (tools : Option (List Json))
    (reply : Option Reply) : (send w view tools reply).sent = w.sent ++ [⟨view, tools, reply⟩] := rfl

theorem fresh_append (w : World) (m : Message) : (append w m).fresh = w.fresh ++ [m] := rfl

theorem Remembered.send {view : List Message} (h : Remembered w view tools) (reply : Option Reply) :
    Remembered (send w view tools reply) view tools := by
  obtain ⟨count, hh⟩ := h.history
  have hmono : ∀ r ∈ w.sent, r ∈ (Thinking.send w view tools reply).sent :=
    fun r hr => List.mem_append_left _ hr
  refine ⟨?_, h.history, h.fresh⟩
  constructor
  · exact h.inv.source
  · exact h.inv.plain
  · exact fun h' hh' => (h.inv.bound h' hh').mono hmono
  · intro h' hh' i m hm
    rw [show (Thinking.send w view tools reply).fresh = [] from h.fresh] at hm
    cases hm
  · intro k r hr
    by_cases hk : k < w.sent.length
    · rw [sent_send,
        List.getElem?_append_left hk] at hr
      rw [sent_send,
        List.take_append_of_le_length (by omega)]
      exact h.inv.log k r hr
    · rw [sent_send,
        List.getElem?_append_right (by omega)] at hr
      have hlast : k = w.sent.length ∧ r = ⟨view, tools, reply⟩ := by
        have hlength := (List.getElem?_eq_some_iff.mp hr).1
        simp only [List.length_singleton] at hlength
        have hk' : k - w.sent.length = 0 := by omega
        rw [hk'] at hr
        exact ⟨by omega, (Option.some.inj hr).symm⟩
      obtain ⟨rfl, rfl⟩ := hlast
      rw [sent_send,
        List.take_left]
      exact h.inv.bound _ hh
  · exact h.inv.shapings

theorem Remembered.answered {view : List Message} (h : Remembered w view tools) (reply : Reply) :
    Answered (Thinking.send w view tools (some reply)) reply := by
  obtain ⟨count, hh⟩ := h.history
  exact ⟨_, hh, h.fresh, _, List.mem_append_right _ (List.mem_singleton_self _), rfl, rfl, rfl⟩

/-- A message that is appended is fresh: one without thinking, or the reply to the
request just answered. -/
theorem Inv.append (hi : Inv w) {m : Message}
    (h : hasThinking m = false ∨ ∃ reply, Answered w reply ∧ m = reply.val) :
    Inv (append w m) := by
  constructor
  · obtain ⟨covered, hsource, hlength⟩ := hi.source
    refine ⟨covered, ?_, hlength⟩
    rw [Thinking.append, hsource, List.append_assoc]
  · intro hnone m' hm'
    cases h with
    | inl hplain =>
        cases List.mem_append.mp hm' with
        | inl hold => exact hi.plain hnone m' hold
        | inr hnew => exact List.mem_singleton.mp hnew ▸ hplain
    | inr hreply =>
        obtain ⟨reply, ⟨h', hh', -⟩, -⟩ := hreply
        exact absurd (hnone.symm.trans hh') (by simp)
  · exact hi.bound
  · intro h' hh' i m' hm' ht
    by_cases hold : i < w.fresh.length
    · exact hi.reply h' hh' i m' ((List.getElem?_append_left hold).symm.trans hm') ht
    · have hm : w.fresh.length = i ∧ m = m' := by
        rw [fresh_append,
          List.getElem?_append_right (by omega)] at hm'
        have hlength := (List.getElem?_eq_some_iff.mp hm').1
        simp only [List.length_singleton] at hlength
        have hk : i - w.fresh.length = 0 := by omega
        rw [hk] at hm'
        exact ⟨by omega, Option.some.inj hm'⟩
      obtain ⟨rfl, rfl⟩ := hm
      cases h with
      | inl hplain => rw [hplain] at ht; cases ht
      | inr hreply =>
          obtain ⟨reply, ⟨h'', hh'', hempty, r, hr, hrep, htools, hmsgs⟩, rfl⟩ := hreply
          obtain rfl := Option.some.inj (hh'.symm.trans hh'')
          exact ⟨by rw [hempty]; rfl, r, hr, by rw [hrep]; rfl, htools, hmsgs⟩
  · exact hi.log
  · exact hi.shapings

theorem Inv.replace (hi : Inv w) (h : ∀ m ∈ messages, hasThinking m = false) :
    Inv (replaceMessages w messages) := by
  constructor
  · exact ⟨[], rfl, rfl⟩
  · exact fun _ => h
  · exact fun h' hh' => nomatch hh'
  · exact fun h' hh' => nomatch hh'
  · exact hi.log
  · exact hi.shapings

theorem Inv.start (h : ∀ m ∈ messages, hasThinking m = false) : Inv (start messages) := by
  constructor
  · exact ⟨[], rfl, rfl⟩
  · exact fun _ => h
  · exact fun h' hh' => nomatch hh'
  · exact fun h' hh' => nomatch hh'
  · exact fun k r hr => nomatch hr
  · exact fun s hs => nomatch hs

/-! ## attempts -/

@[simp] theorem hasThinking_ofText (role : Role) (text : String) :
    hasThinking (.ofText role text) = false := by rfl

/-- The final prompt joins the messages, and the transcript where that is one list. -/
theorem Inv.prepare (hi : Inv w) (hpast : PlainPast (anthropicHistoryInput w).length messages)
    (prompt : Option String) (aliased : Bool) :
    Inv (prepareRequest w messages prompt aliased).1 ∧
      PlainPast (anthropicHistoryInput (prepareRequest w messages prompt aliased).1).length
        (prepareRequest w messages prompt aliased).2 ∧
      messages.length ≤ (prepareRequest w messages prompt aliased).2.length := by
  cases prompt with
  | none => exact ⟨hi, hpast, Nat.le_refl _⟩
  | some text =>
      unfold prepareRequest
      simp only
      split
      · exact ⟨hi, hpast, Nat.le_refl _⟩
      · have hjoined : PlainPast (anthropicHistoryInput w).length
            (messages ++ [.ofText .system text]) := by
          intro i m hle hm
          by_cases hold : i < messages.length
          · exact hpast i m hle ((List.getElem?_append_left hold).symm.trans hm)
          · rw [List.getElem?_append_right (by omega)] at hm
            rw [List.mem_singleton.mp (List.mem_of_getElem? hm)]
            rfl
        refine ⟨?_, ?_, by simp⟩
        · split
          · exact hi.append (.inl rfl)
          · exact hi
        · split
          · have hinput := (hi.append (.inl (hasThinking_ofText .system text))).input
            rw [fresh_append] at hinput
            have hlonger : (anthropicHistoryInput w).length
                ≤ (anthropicHistoryInput (Thinking.append w (.ofText .system text))).length := by
              rw [hinput, hi.input]
              simp [view, Thinking.append]
            exact fun i m hle hm => hjoined i m (Nat.le_trans hlonger hle) hm
          · exact hjoined

/-- How an attempt leaves the session. -/
structure Sound (w : World) (messages : List Message) (answer : Option (Option Reply)) : Prop where
  inv : Inv w
  past : PlainPast (anthropicHistoryInput w).length messages
  answered : ∀ reply, answer = some (some reply) → Answered w reply

theorem Remembered.sound {view : List Message} (h : Remembered w view tools)
    (hlength : messages.length ≤ view.length) (answer : Option (Option Reply))
    (hanswer : ∀ reply, answer = some (some reply) → Answered w reply) : Sound w messages answer :=
  ⟨h.inv, .of_length_le (h.input ▸ hlength), hanswer⟩

/-- The retry after a prefix rejection. -/
theorem Remembered.retire {view : List Message} (h : Remembered w view tools) (retry : Retry)
    (hlength : messages.length ≤ view.length) :
    Sound (retire w view tools retry).1 messages (retire w view tools retry).2 := by
  unfold Thinking.retire
  simp only
  split
  · exact h.sound hlength none (fun _ hnone => nomatch hnone)
  · have hpast : PlainPast (anthropicHistoryInput w).length (stripAnthropicThinking view 0) :=
      .of_length_le (by rw [h.input, length_strip])
    have hrecovered := h.inv.remember hpast tools
    have hlong := length_remembered w (stripAnthropicThinking view 0) tools
    rw [length_strip] at hlong
    generalize rememberAnthropicHistory w (stripAnthropicThinking view 0) tools = first
      at hrecovered hlong ⊢
    split
    · exact hrecovered.sound (by omega) none (fun _ hnone => nomatch hnone)
    · obtain ⟨hinv, hpast', hlonger⟩ := hrecovered.inv.prepare
        (.of_length_le (by rw [hrecovered.input])) retry.prompt false
      generalize prepareRequest first.1 first.2 retry.prompt false = second at hinv hpast' hlonger ⊢
      have hagain := hinv.remember hpast' tools
      have hlong' := length_remembered second.1 second.2 tools
      generalize rememberAnthropicHistory second.1 second.2 tools = third at hagain hlong' ⊢
      split
      · exact hagain.sound (by omega) none (fun _ hnone => nomatch hnone)
      · refine (hagain.send _).sound (by omega) _ fun reply hreply => ?_
        have hjoin : retry.answer.join = some reply := congrArg Option.join hreply
        simp only [hjoin]
        exact hagain.answered reply

/-- **An attempt keeps the invariant**, however it ends. -/
theorem Inv.completeWithChoice (hi : Inv w)
    (hpast : PlainPast (anthropicHistoryInput w).length messages) (tools : Option (List Json))
    (aliased : Bool) (attempt : Attempt) :
    Sound (completeWithChoice w messages tools aliased attempt).world
      (completeWithChoice w messages tools aliased attempt).messages
      (completeWithChoice w messages tools aliased attempt).answer := by
  unfold Thinking.completeWithChoice
  simp only
  split
  · exact ⟨hi, hpast, fun _ hnone => nomatch hnone⟩
  · obtain ⟨hinv, hpast', -⟩ := hi.prepare hpast attempt.prompt aliased
    generalize prepareRequest w messages attempt.prompt aliased = prepared at hinv hpast' ⊢
    have hview := hinv.remember hpast' tools
    have hlong := length_remembered prepared.1 prepared.2 tools
    generalize rememberAnthropicHistory prepared.1 prepared.2 tools = remembered at hview hlong ⊢
    have hlength : prepared.2.length ≤ remembered.2.length := Nat.le_of_eq hlong.symm
    split
    · exact hview.sound hlength none (fun _ hnone => nomatch hnone)
    · cases attempt.outcome with
      | answered reply =>
          refine (hview.send reply).sound hlength _ fun reply' hreply => ?_
          rw [Option.some.inj hreply]
          exact hview.answered reply'
      | failed => exact (hview.send none).sound hlength none (fun _ hnone => nomatch hnone)
      | prefixRejected retry => exact (hview.send none).retire retry hlength

/-! ## calls -/

theorem Inv.complete (hi : Inv w) (hpast : PlainPast (anthropicHistoryInput w).length messages)
    (tools : Option (List Json)) (aliased : Bool) (first : Attempt) (fallback : Option Attempt) :
    Inv (complete w messages tools aliased first fallback).1 ∧
      ∀ reply, (complete w messages tools aliased first fallback).2 = some (some reply) →
        Answered (complete w messages tools aliased first fallback).1 reply := by
  have hfirst := hi.completeWithChoice hpast tools aliased first
  unfold Thinking.complete
  simp only
  split
  · rename_i second _
    have hsecond := hfirst.inv.completeWithChoice hfirst.past tools aliased second
    exact ⟨hsecond.inv, hsecond.answered⟩
  · exact ⟨hfirst.inv, hfirst.answered⟩

/-- An edit of what a shaper made adds no thinking either. -/
theorem AddsNoThinking.edited {shape : List Message → List Message} (h : AddsNoThinking shape)
    (history : List Message) :
    PlainPast history.length (editedAnthropicHistory history (shape history)) := by
  intro i m hle hm
  by_contra ht
  rw [Bool.not_eq_false] at ht
  obtain ⟨-, hkept, -⟩ := retained hm ht
  have hshaped := (getElem?_of_take hkept).symm.trans hm
  rw [h history i m hle hshaped] at ht
  cases ht

/-- A shaper is called with the view and the messages appended since. -/
theorem Inv.callShaper (hi : Inv w) (shape : List Message → List Message) {input : List Message}
    (hinput : input = view w ++ w.fresh) : Inv (callShaper w shape input).1 := by
  refine ⟨hi.source, hi.plain, hi.bound, hi.reply, hi.log, ?_⟩
  intro s hs
  cases List.mem_append.mp hs with
  | inl hold => exact hi.shapings s hold
  | inr hnew =>
      obtain ⟨covered, hsource, -⟩ := hi.source
      rw [List.mem_singleton.mp hnew]
      exact ⟨hinput, covered, hsource.symm⟩

theorem Inv.runPass (hi : Inv w) (tools : Option (List Json)) {pass : Pass}
    (hshape : AddsNoThinking pass.shape) :
    Inv (runPass w tools pass).1 ∧ ∀ reply, (runPass w tools pass).2 = some (some reply) →
      Answered (runPass w tools pass).1 reply :=
  (hi.callShaper pass.shape hi.input).complete (hshape.edited (anthropicHistoryInput w)) tools _
    pass.first pass.fallback

theorem Inv.settle (hi : Inv w) {answer : Option (Option Reply)}
    (h : ∀ reply, answer = some (some reply) → Answered w reply) : Inv (settle w answer) := by
  unfold Thinking.settle
  split
  · rename_i reply
    exact hi.append (.inr ⟨reply, h reply rfl, rfl⟩)
  · exact hi

@[simp] theorem hasThinking_foldSteering (m : Message) (text : String) :
    hasThinking (foldSteering m text) = hasThinking m := rfl

theorem foldLast_append {messages' : List Message} (hne : messages' ≠ []) (text : String) :
    foldLast (messages ++ messages') text = messages ++ foldLast messages' text := by
  have hlast : (messages ++ messages').getLast? = messages'.getLast? :=
    List.getLast?_append_of_ne_nil messages hne
  unfold foldLast
  rw [hlast]
  cases hl : messages'.getLast? with
  | none => rfl
  | some last =>
      simp only
      rw [List.dropLast_append_of_ne_nil hne, List.append_assoc]

@[simp] theorem length_foldLast (messages : List Message) (text : String) :
    (foldLast messages text).length = messages.length := by
  unfold foldLast
  cases hl : messages.getLast? with
  | none => rfl
  | some last =>
      have hne : messages ≠ [] := by
        rintro rfl
        cases hl
      have hpos := List.length_pos_iff.mpr hne
      simp only [List.length_append, List.length_dropLast, List.length_singleton]
      omega

/-- Folding touches the last message only. -/
theorem getElem?_foldLast {text : String} {i : Nat} {m : Message}
    (hm : (foldLast messages text)[i]? = some m) : messages[i]? = some m ∨
      ∃ last, messages[i]? = some last ∧ messages.getLast? = some last ∧ m = foldSteering last text := by
  unfold foldLast at hm
  cases hl : messages.getLast? with
  | none => exact .inl (by simpa [hl] using hm)
  | some last =>
      have hsplit : messages.dropLast ++ [last] = messages :=
        List.dropLast_append_getLast? last hl
      simp only [hl] at hm
      by_cases hold : i < messages.dropLast.length
      · left
        rw [← hsplit, List.getElem?_append_left hold]
        rwa [List.getElem?_append_left hold] at hm
      · right
        rw [List.getElem?_append_right (by omega)] at hm
        have hlength := (List.getElem?_eq_some_iff.mp hm).1
        simp only [List.length_singleton] at hlength
        have hzero : i - messages.dropLast.length = 0 := by omega
        rw [hzero] at hm
        refine ⟨last, ?_, rfl, (Option.some.inj hm).symm⟩
        rw [← hsplit, List.getElem?_append_right (by omega), hzero]
        rfl

/-- **Steering keeps the invariant**: no reply is ever folded. -/
theorem Inv.steer (hi : Inv w) (steering : Option String) : Inv (steer w steering) := by
  cases steering with
  | none => exact hi
  | some text =>
      unfold Thinking.steer
      simp only
      split
      · rename_i huser
        obtain ⟨covered, hsource, hlength⟩ := hi.source
        constructor
        · by_cases hfresh : w.fresh = []
          · refine ⟨foldLast w.messages text, ?_, ?_⟩
            · rw [hfresh]
              exact (List.append_nil _).symm
            · rw [length_foldLast, hsource, hfresh, List.append_nil]
              exact hlength
          · refine ⟨covered, ?_, hlength⟩
            rw [hsource, foldLast_append hfresh]
        · intro hnone m hm
          obtain ⟨i, hi'⟩ := List.mem_iff_getElem?.mp hm
          cases getElem?_foldLast hi' with
          | inl hold => exact hi.plain hnone m (List.mem_of_getElem? hold)
          | inr hlast =>
              obtain ⟨last, hold, -, rfl⟩ := hlast
              exact hi.plain hnone last (List.mem_of_getElem? hold)
        · exact hi.bound
        · intro h hh i m hm ht
          cases getElem?_foldLast hm with
          | inl hold => exact hi.reply h hh i m hold ht
          | inr hlast =>
              obtain ⟨last, hold, hlast, rfl⟩ := hlast
              obtain ⟨-, r, -, hreply, -⟩ := hi.reply h hh i last hold ht
              obtain ⟨reply, -, rfl⟩ := Option.map_eq_some_iff.mp hreply
              have hne : w.fresh ≠ [] := by
                intro hempty
                rw [hempty] at hold
                cases hold
              rw [hsource, List.getLast?_append_of_ne_nil covered hne, hlast] at huser
              simp [reply.property] at huser
        · exact hi.log
        · exact hi.shapings
      · exact hi.append (.inl (hasThinking_ofText .user text))

theorem Inv.callLlm (hi : Inv w) {call : Call} (h : call.ShapedBy AddsNoThinking) :
    Inv (callLlm w call) := by
  have hfirst := (hi.steer call.steering).runPass call.tools h.1
  unfold Thinking.callLlm
  simp only
  split
  · rename_i pass _ hforced
    have hsecond := hfirst.1.runPass call.tools (h.2 pass hforced)
    exact hsecond.1.settle hsecond.2
  · exact hfirst.1.settle hfirst.2

/-! ## runs -/

theorem Inv.step (h : Step AddsNoThinking w w') (hi : Inv w) : Inv w' := by
  cases h with
  | append m h => exact hi.append (.inl h)
  | replace messages h => exact hi.replace h
  | call call h => exact hi.callLlm h

/-- A reachable world keeps the invariant. -/
theorem Inv.run (hplain : ∀ m ∈ messages, hasThinking m = false)
    (h : Relation.ReflTransGen (Step AddsNoThinking) (Thinking.start messages) w) : Inv w :=
  Lib.invariant_of_run (fun _ _ hstep hi => hi.step hstep) h (.start hplain)

/-- A reply with a thinking block. -/
def sampleReply : Reply :=
  ⟨{ role := .assistant, content := some (.str "b"),
     providerState := .obj [("anthropic_content", .arr [.obj [("type", .str "thinking")]])] }, rfl⟩

/-- A call that is answered, its view shaped by `shape`. -/
def sampleCall (shape : List Message → List Message) : Call :=
  { pass := { shape := shape, first := { outcome := .answered (some sampleReply) } } }

/-- A question, its answer, a second question, and a call shaped by `shape`. -/
def sampleRun (shape : List Message → List Message) : World :=
  callLlm (append (callLlm (start [.ofText .user "a"]) (sampleCall id)) (.ofText .user "c"))
    (sampleCall shape)

theorem sampleRun_reachable {shapers : (List Message → List Message) → Prop}
    {shape : List Message → List Message} (hid : shapers id) (hshape : shapers shape) :
    Relation.ReflTransGen (Step shapers) (start [.ofText .user "a"]) (sampleRun shape) := by
  refine .tail (.tail (.tail .refl (.call _ (sampleCall id) ⟨hid, ?_⟩)) (.append _ _ rfl))
    (.call _ _ ⟨hshape, ?_⟩)
  · exact fun pass h => nomatch h
  · exact fun pass h => nomatch h

/-- A shaper that repeats the answer at the end of its view. -/
def repeating (messages : List Message) : List Message := messages ++ [sampleReply.val]

end OpenCollab.Thinking
