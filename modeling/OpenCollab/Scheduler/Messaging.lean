import OpenCollab.Scheduler.Inbox

/-!
# OpenCollab.Scheduler.Messaging

Runs of the scheduler's messaging: `Post.Sound` holds in every state a run
reaches (`Post.Reachable.sound`), whatever the order of sends, drains, failed
appends, holds and notices.

* `accepted_of_sent`, `accepted_of_noticed` — a message that `send_message` accepted,
  and a notice that closed an exchange, are in the recipient's box ever after;
* `inbox_bounded_and_kept` — every inbox agrees with its durable copy, is bounded,
  and loses no message;
* `exchanges_followed` — the unanswered exchanges, and who is told that an agent
  stopped.
-/

namespace OpenCollab

open PendingUserMessage

/-! ## a notice fits -/

/-- A clipped text is longer than its limit by the mark of the cut at most. -/
theorem length_clipped_le (limit : Nat) (text : String) :
    (Post.clipped limit text).length ≤ limit + 12 := by
  unfold Post.clipped
  have hclip := length_clip_le limit text
  split
  · rw [String.length_append]
    exact Nat.add_le_add hclip (by decide)
  · rename_i hsame
    rw [← not_not.mp hsame]
    exact Nat.le_trans hclip (Nat.le_add_right _ _)

/-- The fallback of a notice has a bound. -/
theorem length_noticeFallback_le (view : Post.NoticeView) :
    (Post.noticeFallback view).length ≤ 524 := by
  have hfixed : "[Partial result exceeds the teammate message limit.]".length ≤ 524 := by decide
  unfold Post.noticeFallback
  split
  · split
    · exact hfixed
    · exact length_clipped_le _ _
  · exact hfixed

/-- **A notice is at most as large as a message may be**, for every agent a table holds. -/
theorem size_notice_le (n : Notifier) (target : Box) (toAid : Nat) (view : Post.NoticeView)
    (haid : n.aid < maxsize) (hid : IsHex view.messageId) :
    encodedSize (Post.notice n target toAid view).xml ≤ maxTeammateMessageBytes := by
  show encodedSize (noticeXml n.aid n.role.name view.messageId (Post.noticeText n view)) ≤ _
  unfold Post.noticeText
  dsimp only
  split
  · have hbound := size_noticeXml_le n.aid n.role.name view.messageId
      (Post.noticeContent n ++ "\n\n" ++ Post.noticeFallback view)
    have hdigits : n.aid.repr.length ≤ 19 := by
      rw [Nat.length_repr_le_iff (by decide)]
      exact Nat.lt_trans haid (by decide)
    have hrole : n.role.name.length ≤ 128 :=
      Nat.le_trans (length_le_encodedSize _) n.role.bounded
    have hfallback := length_noticeFallback_le view
    have hreason : (Post.clipped (maxTeammateMessageBytes / 16) n.reason).length ≤ 512 + 12 :=
      length_clipped_le _ _
    have hlimit : maxTeammateMessageBytes = 8192 := rfl
    have hcontent : (Post.noticeContent n).length ≤ 128 + 2 + (1 + 19) + 45 + 43 + (512 + 12) := by
      unfold Post.noticeContent agentName
      simp only [String.length_append]
      have h₁ : " (".length = 2 := rfl
      have h₂ : "A".length = 1 := rfl
      have h₃ : ") has stopped and will not answer your last ".length ≤ 45 := by decide
      have h₄ : "message. Reason recorded by the runtime: ".length ≤ 43 := by decide
      have h₅ : (toString n.aid).length = n.aid.repr.length := rfl
      omega
    have hbreak : "\n\n".length = 2 := rfl
    rw [String.length_append, String.length_append, hid.1] at hbound
    omega
  · rename_i hfits
    exact Nat.le_of_not_lt hfits

/-! ## what a drain leaves alone -/

namespace Box

/-- A drain leaves the messages as they are. -/
theorem messages_drain (box : Box) (view : DrainView) (shuttingDown : Bool) :
    (box.drain view shuttingDown).pendingUserMessages.map (·.message) =
      box.pendingUserMessages.map (·.message) := by
  have hreject : (box.reject view.routeError).pendingUserMessages.map (·.message) =
      box.pendingUserMessages.map (·.message) := messages_markAll _ _
  unfold drain
  dsimp only
  repeat' split
  · rfl
  · exact hreject
  · exact (messages_hold _ true).trans hreject
  · exact hreject
  · exact hreject
  · exact hreject

/-- A drain accepts nothing. -/
theorem accepted_drain (box : Box) (view : DrainView) (shuttingDown : Bool) :
    (box.drain view shuttingDown).accepted = box.accepted := by
  unfold drain
  dsimp only
  repeat' split
  all_goals rfl

end Box

namespace Exchanges

variable {e : Exchanges}

/-- A refusal makes nothing outstanding. -/
theorem outstanding_reject {fromAid toAid a b : Nat} {messageId : String}
    (hnone : e.outstanding a b = none) :
    (e.reject fromAid toAid messageId).outstanding a b = none := by
  show ((if _ then e.pop fromAid toAid else e.unanswered) b).get? a = none
  split
  · rw [get?_pop]
    split
    · rfl
    · exact hnone
  · exact hnone

/-- The exchanges after a drain rejected messages. -/
def rejectAll (aid : Nat) (refusals : List (QueuedTeammateMessage × String)) (e : Exchanges) :
    Exchanges :=
  refusals.foldl (fun e refusal => e.reject refusal.1.fromAid aid refusal.1.messageId) e

/-- A batch of refusals keeps the exchanges sound. -/
theorem Sound.rejectAll (aid : Nat) (refusals : List (QueuedTeammateMessage × String))
    (h : Sound e) : Sound (e.rejectAll aid refusals) := by
  induction refusals generalizing e with
  | nil => exact h
  | cons refusal refusals ih => exact ih h.reject

/-- **The log of a drain**: what it rejected, and nothing else. -/
theorem log_rejectAll (aid : Nat) (refusals : List (QueuedTeammateMessage × String)) :
    (e.rejectAll aid refusals).log =
      (refusals.map fun refusal => .rejected refusal.1.fromAid aid refusal.1.messageId).reverse ++
        e.log := by
  induction refusals generalizing e with
  | nil => rfl
  | cons refusal refusals ih =>
      rw [List.map_cons, List.reverse_cons, List.append_assoc]
      exact ih

/-- A batch of refusals logs refusals only. -/
theorem mem_log_rejectAll {aid : Nat} {refusals : List (QueuedTeammateMessage × String)}
    {event : ExchangeEvent} (hm : event ∈ (e.rejectAll aid refusals).log) :
    event ∈ e.log ∨ ∃ fromAid messageId, event = .rejected fromAid aid messageId := by
  rw [log_rejectAll, List.mem_append, List.mem_reverse, List.mem_map] at hm
  rcases hm with ⟨refusal, -, rfl⟩ | hm
  · exact .inr ⟨_, _, rfl⟩
  · exact .inl hm

/-- Rejections close exchanges and open none. -/
theorem outstanding_rejectAll {a b : Nat} (hnone : e.outstanding a b = none) (aid : Nat)
    (refusals : List (QueuedTeammateMessage × String)) :
    (e.rejectAll aid refusals).outstanding a b = none := by
  induction refusals generalizing e with
  | nil => exact hnone
  | cons refusal refusals ih => exact ih (outstanding_reject hnone)

end Exchanges

/-! ## the invariant -/

namespace Post

/-- **A sound post office**: every box is sound, the ids in use were given out, and
the exchanges are what their log says. -/
structure Sound (s : Post) : Prop where
  boxes : ∀ aid box, s.boxes aid = some box → box.Sound
  issued : ∀ aid box, s.boxes aid = some box →
    ∀ message ∈ box.pendingUserMessages.map (·.message), message.messageId ∈ s.issued
  seated : ∀ aid box, s.boxes aid = some box → aid < s.nextAid
  room : s.nextAid ≤ maxsize
  exchanges : s.exchanges.Sound
  sent : ∀ a b messageId, .sent a b messageId ∈ s.exchanges.log → messageId ∈ s.issued

variable {s : Post} {aid : Nat} {box : Box}

/-- One inbox is replaced, and no other. -/
theorem boxes_setBox (s : Post) (aid : Nat) (box : Box) (other : Nat) :
    (s.setBox aid box).boxes other = if other = aid then some box else s.boxes other := by
  unfold setBox
  by_cases h : other = aid
  · subst h
    simp
  · simp [h]

/-- Nothing sent, nothing wrong. -/
theorem sound_empty : Sound {} where
  boxes aid box h := by contradiction
  issued aid box h := by contradiction
  seated aid box h := by contradiction
  room := Nat.zero_le _
  exchanges := Exchanges.sound_empty
  sent a b messageId h := absurd h List.not_mem_nil

/-- One agent's box changes, and keeps its records' messages or drops some. -/
theorem Sound.setBox (h : Sound s) {box' : Box} (hbox : s.boxes aid = some box)
    (hsound : box'.Sound) (hsub : ∀ m ∈ box'.pendingUserMessages.map (·.message),
      m ∈ box.pendingUserMessages.map (·.message)) : Sound (s.setBox aid box') := by
  constructor
  · intro other b hb
    rw [boxes_setBox] at hb
    split at hb
    · rw [← Option.some.inj hb]
      exact hsound
    · exact h.boxes other b hb
  · intro other b hb m hm
    rw [boxes_setBox] at hb
    split at hb
    · rw [← Option.some.inj hb] at hm
      exact h.issued aid box hbox m (hsub m hm)
    · exact h.issued other b hb m hm
  · intro other b hb
    rw [boxes_setBox] at hb
    split at hb
    · rename_i heq
      rw [heq]
      exact h.seated aid box hbox
    · exact h.seated other b hb
  · exact h.room
  · exact h.exchanges
  · exact h.sent

/-- **A drain keeps the invariant.** -/
theorem Sound.drainLocked (h : Sound s) (view : DrainView) (hfree : s.Free aid) :
    Sound (s.drainLocked aid view) := by
  unfold Post.drainLocked
  cases hbox : s.boxes aid with
  | none => exact h
  | some box =>
      have hset := h.setBox hbox ((h.boxes aid box hbox).drain view s.shuttingDown
        (hfree box hbox)) fun m hm => (box.messages_drain view s.shuttingDown) ▸ hm
      refine { hset with exchanges := h.exchanges.rejectAll aid _, sent := ?_ }
      intro a b messageId hm
      rcases Exchanges.mem_log_rejectAll hm with hold | ⟨fromAid, id, heq⟩
      · exact h.sent a b messageId hold
      · contradiction

/-- **An accepted message joins a sound box.** -/
theorem Sound.accept (h : Sound s) {target : Box} {message : QueuedTeammateMessage}
    {exchanges : Exchanges} (hbox : s.boxes message.toAid = some target)
    (hfresh : s.Fresh message.messageId)
    (hroom : target.hasRoom (encodedSize message.xml) = true)
    (hsize : encodedSize message.xml ≤ maxTeammateMessageBytes) (hexchanges : exchanges.Sound)
    (hsent : ∀ a b messageId, .sent a b messageId ∈ exchanges.log →
      messageId ∈ message.messageId :: s.issued) :
    Sound (s.accept target message exchanges) := by
  have hne : message.messageId ≠ "" := by
    intro he
    have hlen := hfresh.1.1
    rw [he] at hlen
    contradiction
  have hnew : message.messageId ∉ target.pendingUserMessages.map messageId := by
    intro hm
    obtain ⟨item, hi, he⟩ := List.mem_map.mp hm
    refine hfresh.2 (he ▸ h.issued message.toAid target hbox item.message ?_)
    exact List.mem_map_of_mem hi
  have hsound := (h.boxes message.toAid target hbox).enqueue hroom hsize hne hnew
  constructor
  · intro other b hb
    change (s.setBox _ _).boxes other = some b at hb
    rw [boxes_setBox] at hb
    split at hb
    · rw [← Option.some.inj hb]
      exact hsound
    · exact h.boxes other b hb
  · intro other b hb m hm
    change (s.setBox _ _).boxes other = some b at hb
    rw [boxes_setBox] at hb
    show m.messageId ∈ message.messageId :: s.issued
    split at hb
    · rw [← Option.some.inj hb] at hm
      change m ∈ (target.pendingUserMessages ++ [_]).map _ at hm
      rw [List.map_append, List.mem_append] at hm
      rcases hm with hm | hm
      · exact List.mem_cons_of_mem _ (h.issued message.toAid target hbox m hm)
      · rw [List.mem_singleton.mp hm]
        exact List.mem_cons_self
    · exact List.mem_cons_of_mem _ (h.issued other b hb m hm)
  · intro other b hb
    change (s.setBox _ _).boxes other = some b at hb
    rw [boxes_setBox] at hb
    split at hb
    · rename_i heq
      rw [heq]
      exact h.seated message.toAid target hbox
    · exact h.seated other b hb
  · exact h.room
  · exact hexchanges
  · exact hsent

/-- An accepted message keeps the mailbox free. -/
theorem free_accept {target : Box} {message : QueuedTeammateMessage} {exchanges : Exchanges}
    (hbox : s.boxes message.toAid = some target) (hfree : s.Free message.toAid) :
    (s.accept target message exchanges).Free message.toAid := by
  intro b hb d hd
  change (s.setBox _ _).boxes _ = some b at hb
  rw [boxes_setBox, if_pos rfl] at hb
  rw [← Option.some.inj hb] at hd
  exact hfree target hbox d hd

/-! ## sends and notices -/

/-- What a send that is accepted did. -/
theorem sendMessage_ok {s' : Post} {topologyForbids : String → String → Bool} {fromAid toAid : Nat}
    {summary content messageId sentAt : String} {view : DrainView}
    (h : s.sendMessage topologyForbids fromAid toAid summary content messageId sentAt view =
      .ok s') :
    ∃ target message, s.boxes toAid = some target ∧ fromAid ≠ toAid ∧
      message.toAid = toAid ∧ message.messageId = messageId ∧ message.kind = .teammate ∧
      encodedSize message.xml ≤ maxTeammateMessageBytes ∧
      target.hasRoom (encodedSize message.xml) = true ∧
      (message.xml = formatTeammateMessage message.fromAid message.summary message.content
        message.messageId ∧ message.sentAt = sentAt) ∧
      (message.fromAid = fromAid ∧ message.summary = summary ∧ message.content = content) ∧
      s' = (s.accept target message (s.exchanges.record fromAid toAid messageId)).drainLocked
        toAid view := by
  unfold sendMessage at h
  split at h
  · cases h
  rename_i hself
  split at h
  · cases h
  split at h
  · cases h
  · cases h
  rename_i sender target hsender htarget
  dsimp only at h
  split at h
  · cases h
  split at h
  · cases h
  rename_i hsize
  split at h
  · cases h
  rename_i hcount
  split at h
  · cases h
  rename_i hbytes
  refine ⟨target, _, htarget, fun heq => hself heq.symm, rfl, rfl, rfl, Nat.le_of_not_lt hsize, ?_,
    ⟨rfl, rfl⟩, ⟨rfl, rfl, rfl⟩, (Except.ok.inj h).symm⟩
  rw [Box.hasRoom, Bool.and_eq_true, decide_eq_true_eq, decide_eq_true_eq]
  exact ⟨Nat.lt_of_not_le hcount, Nat.le_of_not_lt hbytes⟩

/-- What one exchange of a pass can come to. -/
inductive Notified (s : Post) (n : Notifier) (toAid : Nat) (unansweredId : String)
    (view : NoticeView) : Post → Prop
  | unchanged : Notified s n toAid unansweredId view s
  | dropped (hout : s.exchanges.outstanding toAid n.aid = some unansweredId) :
      Notified s n toAid unansweredId view
        { s with exchanges := s.exchanges.drop toAid n.aid }
  | queued {target : Box} (hout : s.exchanges.outstanding toAid n.aid = some unansweredId)
      (hfailed : s.failed n.aid = true) (hturn : s.awaitsTurn n.aid unansweredId = false)
      (hbox : s.boxes toAid = some target)
      (hroom : refusesNotice n target toAid view = false) :
      Notified s n toAid unansweredId view
        ((s.accept target (notice n target toAid view)
          (s.exchanges.notice toAid n.aid unansweredId view.messageId)).drainLocked toAid
            view.drain)

/-- What a notice does: nothing, or it puts a message into the inbox. -/
theorem notifyOne_cases (s : Post) (n : Notifier) (toAid : Nat) (unansweredId : String)
    (view : NoticeView) :
    Notified s n toAid unansweredId view (s.notifyOne n toAid unansweredId view).1 := by
  unfold notifyOne
  split
  · exact .unchanged
  rename_i hout
  have hout := not_not.mp hout
  split
  · exact .unchanged
  rename_i hfailed
  rw [Bool.not_eq_true, Bool.not_eq_false'] at hfailed
  split
  · exact .unchanged
  rename_i hturn
  rw [Bool.not_eq_true] at hturn
  split
  · exact .unchanged
  split
  · exact .dropped hout
  rename_i target hbox
  split
  · exact .dropped hout
  split
  · exact .unchanged
  rename_i hroom
  rw [Bool.not_eq_true] at hroom
  exact .queued hout hfailed hturn hbox hroom

/-- A stopped agent has a box, so its number is one a table holds. -/
theorem Sound.failed_lt (h : Sound s) (hf : s.failed aid = true) : aid < maxsize := by
  unfold failed at hf
  cases hbox : s.boxes aid with
  | none =>
      rw [hbox] at hf
      contradiction
  | some box => exact Nat.lt_of_lt_of_le (h.seated aid box hbox) h.room

/-- **A notice keeps the exchanges sound.** -/
theorem Sound.notified {s' : Post} {n : Notifier} {toAid : Nat} {unansweredId : String}
    {view : NoticeView} (h : Sound s) (hn : Notified s n toAid unansweredId view s')
    (hfree : s.Free toAid) (hfresh : s.Fresh view.messageId) : Sound s' := by
  cases hn with
  | unchanged => exact h
  | dropped hout =>
      refine { h with exchanges := h.exchanges.drop, sent := ?_ }
      intro a b messageId hm
      rcases List.mem_cons.mp hm with heq | hm
      · cases heq
      · exact h.sent a b messageId hm
  | @queued target hout hfailed hturn hbox hroom =>
      have hroom' : target.hasRoom (encodedSize (notice n target toAid view).xml) = true := by
        rw [refusesNotice, Bool.not_eq_false'] at hroom
        exact hroom
      have hsize := size_notice_le n target toAid view (h.failed_lt hfailed) hfresh.1
      have haccepted : Sound (s.accept target (notice n target toAid view)
          (s.exchanges.notice toAid n.aid unansweredId view.messageId)) := by
        refine h.accept hbox hfresh hroom' hsize (h.exchanges.notice hout) ?_
        intro a b messageId hm
        rcases List.mem_cons.mp hm with heq | hm
        · cases heq
        · exact List.mem_cons_of_mem _ (h.sent a b messageId hm)
      exact haccepted.drainLocked view.drain (free_accept hbox hfree)

/-! ## runs -/

variable {topologyForbids : String → String → Bool} {s' : Post}

/-- **Every step keeps the invariant.** -/
theorem Sound.step (h : Sound s) (hs : Step topologyForbids s s') : Sound s' := by
  have hkeep : ∀ {box : Box}, ∀ m ∈ box.pendingUserMessages.map (·.message),
      m ∈ box.pendingUserMessages.map (·.message) := fun _ hm => hm
  cases hs with
  | seat role hroom =>
      constructor
      · intro other b hb
        change (s.setBox _ _).boxes other = some b at hb
        rw [boxes_setBox] at hb
        split at hb
        · rw [← Option.some.inj hb]
          exact Box.sound_new role
        · exact h.boxes other b hb
      · intro other b hb m hm
        change (s.setBox _ _).boxes other = some b at hb
        rw [boxes_setBox] at hb
        split at hb
        · rw [← Option.some.inj hb] at hm
          exact absurd hm List.not_mem_nil
        · exact h.issued other b hb m hm
      · intro other b hb
        change (s.setBox _ _).boxes other = some b at hb
        rw [boxes_setBox] at hb
        show other < s.nextAid + 1
        split at hb
        · omega
        · exact Nat.lt_succ_of_lt (h.seated other b hb)
      · exact hroom
      · exact h.exchanges
      · exact h.sent
  | send hfree hfresh hsent =>
      obtain ⟨target, message, hbox, hne, rfl, rfl, -, hsize, hroom, -, -, rfl⟩ := sendMessage_ok hsent
      have hnew : ∀ a b, .sent a b message.messageId ∉ s.exchanges.log :=
        fun a b hm => hfresh.2 (h.sent a b _ hm)
      refine (h.accept hbox hfresh hroom hsize (h.exchanges.record hne hnew) ?_).drainLocked _
        (free_accept hbox hfree)
      intro a b messageId hm
      rcases List.mem_cons.mp hm with heq | hold
      · rw [ExchangeEvent.sent.injEq] at heq
        rw [heq.2.2]
        exact List.mem_cons_self
      · exact List.mem_cons_of_mem _ (h.sent a b messageId hold)
  | drain aid view hfree => exact h.drainLocked view hfree
  | @appended aid box d hbox hd =>
      refine h.setBox hbox ((h.boxes aid box hbox).commit hd) fun m hm => ?_
      exact ((foldl_discard_sublist d.batch _).map _).subset hm
  | @appendFailed aid box d hbox hd =>
      exact h.setBox hbox ((h.boxes aid box hbox).rollback hd) hkeep
  | @userTurn aid box content hbox hd =>
      refine h.setBox hbox ((h.boxes aid box hbox).beginTurn hd List.nil_prefix ?_) hkeep
      exact fun hne => absurd rfl hne
  | @hold aid box held hbox =>
      refine h.setBox hbox ((h.boxes aid box hbox).hold held) fun m hm => ?_
      rwa [Box.messages_hold] at hm
  | @drive aid box content phase hbox hc =>
      exact h.setBox hbox ((h.boxes aid box hbox).drive phase hc) hkeep
  | shutdown => exact { h with }
  | notify => exact { h with }
  | @notifyOne s₁ before after n toAid unansweredId rest view goesOn hn hw hfree hfresh hone =>
      have hcases := notifyOne_cases s n toAid unansweredId view
      rw [hone] at hcases
      exact { h.notified hcases hfree hfresh with }
  | notifierEnds => exact { h with }

/-- **The invariant holds in every state a run reaches.** -/
theorem Reachable.sound (h : Reachable topologyForbids s) : Sound s := by
  induction h with
  | refl => exact sound_empty
  | tail _ hs ih => exact ih.step hs

/-! ## what was accepted stays accepted -/

/-- No box forgets a message it accepted. -/
def Remembers (s s' : Post) : Prop :=
  ∀ aid box, s.boxes aid = some box →
    ∃ box', s'.boxes aid = some box' ∧ box.accepted ⊆ box'.accepted

/-- A state remembers itself. -/
theorem Remembers.refl (s : Post) : Remembers s s :=
  fun _ box hbox => ⟨box, hbox, List.Subset.refl _⟩

/-- Remembering composes. -/
theorem Remembers.trans {s'' : Post} (h : Remembers s s') (h' : Remembers s' s'') :
    Remembers s s'' := by
  intro aid box hbox
  obtain ⟨box', hbox', hsub⟩ := h aid box hbox
  obtain ⟨box'', hbox'', hsub'⟩ := h' aid box' hbox'
  exact ⟨box'', hbox'', List.Subset.trans hsub hsub'⟩

/-- An inbox that forgets nothing may be replaced. -/
theorem Remembers.setBox {box' : Box} (hbox : s.boxes aid = some box)
    (hsub : box.accepted ⊆ box'.accepted) : Remembers s (s.setBox aid box') := by
  intro other b hb
  rw [boxes_setBox]
  split
  · rename_i heq
    rw [heq, hbox] at hb
    rw [← Option.some.inj hb]
    exact ⟨box', rfl, hsub⟩
  · exact ⟨b, hb, List.Subset.refl _⟩

/-- A drain forgets nothing. -/
theorem Remembers.drainLocked (s : Post) (aid : Nat) (view : DrainView) :
    Remembers s (s.drainLocked aid view) := by
  unfold Post.drainLocked
  cases hbox : s.boxes aid with
  | none => exact .refl s
  | some box =>
      have hset : Remembers s (s.setBox aid (box.drain view s.shuttingDown)) :=
        .setBox hbox (by rw [Box.accepted_drain]; exact List.Subset.refl _)
      exact hset

/-- An accepted message forgets no other. -/
theorem Remembers.accept {target : Box} (message : QueuedTeammateMessage)
    (hbox : s.boxes message.toAid = some target) (exchanges : Exchanges) :
    Remembers s (s.accept target message exchanges) := by
  have hset : Remembers s (s.setBox message.toAid (target.enqueue message)) :=
    .setBox hbox (List.subset_cons_self _ _)
  exact hset

/-- The box that a message was accepted for holds it, also behind the drain. -/
theorem accepted_accept (s : Post) (target : Box) (message : QueuedTeammateMessage)
    (exchanges : Exchanges) (view : DrainView) :
    ∃ box, ((s.accept target message exchanges).drainLocked message.toAid view).boxes
      message.toAid = some box ∧ message ∈ box.accepted := by
  have hbox : (s.accept target message exchanges).boxes message.toAid =
      some (target.enqueue message) := by
    show (s.setBox _ _).boxes _ = _
    rw [boxes_setBox, if_pos rfl]
  obtain ⟨box, hdrained, hsub⟩ :=
    Remembers.drainLocked (s.accept target message exchanges) message.toAid view _ _ hbox
  exact ⟨box, hdrained, hsub List.mem_cons_self⟩

/-- **No step forgets an accepted message.** -/
theorem Remembers.step (h : Sound s) (hs : Step topologyForbids s s') : Remembers s s' := by
  cases hs with
  | seat role hroom =>
      intro other b hb
      have hne : other ≠ s.nextAid := Nat.ne_of_lt (h.seated other b hb)
      refine ⟨b, ?_, List.Subset.refl _⟩
      show (s.setBox _ _).boxes other = some b
      rw [boxes_setBox, if_neg hne, hb]
  | send hfree hfresh hsent =>
      obtain ⟨target, message, hbox, -, rfl, -, -, -, -, -, -, rfl⟩ := sendMessage_ok hsent
      exact (Remembers.accept message hbox _).trans (.drainLocked _ _ _)
  | drain aid view hfree => exact .drainLocked s aid view
  | appended hbox hd => exact .setBox hbox (List.Subset.refl _)
  | appendFailed hbox hd => exact .setBox hbox (List.Subset.refl _)
  | userTurn content hbox hd => exact .setBox hbox (List.Subset.refl _)
  | hold held hbox => exact .setBox hbox (List.Subset.refl _)
  | drive content phase hbox hc => exact .setBox hbox (List.Subset.refl _)
  | shutdown => exact .refl s
  | notify => exact .refl s
  | notifierEnds => exact .refl s
  | @notifyOne s₁ before after n toAid unansweredId rest view goesOn hn hw hfree hfresh hone =>
      have hcases := notifyOne_cases s n toAid unansweredId view
      rw [hone] at hcases
      suffices hkept : Remembers s s₁ from hkept
      cases hcases with
      | unchanged => exact .refl _
      | dropped hout => exact .refl s
      | queued hout hfailed hturn hbox hroom =>
          exact (Remembers.accept (notice n _ toAid view) hbox _).trans
            (.drainLocked _ _ _)

/-- **No run forgets an accepted message.** -/
theorem Remembers.run (h : s.Reachable topologyForbids)
    (hrun : Relation.ReflTransGen (Step topologyForbids) s s') : Remembers s s' := by
  induction hrun with
  | refl => exact .refl s
  | tail hrun hs ih => exact ih.trans (.step (Reachable.sound (h.trans hrun)) hs)

/-- **A message that `send_message` accepted** is among the accepted messages of its
recipient, now and ever after. -/
theorem accepted_of_sent {s₁ : Post} {fromAid toAid : Nat}
    {summary content messageId sentAt : String} {view : DrainView}
    (h : s.Reachable topologyForbids) (hfree : s.Free toAid) (hfresh : s.Fresh messageId)
    (hsent : s.sendMessage topologyForbids fromAid toAid summary content messageId sentAt view =
      .ok s₁) (hrun : Relation.ReflTransGen (Step topologyForbids) s₁ s') :
    ∃ box message, s'.boxes toAid = some box ∧ message ∈ box.accepted ∧
      message.fromAid = fromAid ∧ message.messageId = messageId ∧ message.content = content ∧
      message.xml = formatTeammateMessage fromAid summary content messageId := by
  have hstep : Step topologyForbids s s₁ := .send hfree hfresh hsent
  obtain ⟨target, message, hbox, -, rfl, rfl, -, -, -, ⟨hxml, -⟩, ⟨rfl, rfl, rfl⟩, rfl⟩ :=
    sendMessage_ok hsent
  obtain ⟨box, hboxed, hmem⟩ := accepted_accept s target message
    (s.exchanges.record message.fromAid message.toAid message.messageId) view
  obtain ⟨box', hbox', hsub⟩ := Remembers.run (h.tail hstep) hrun _ _ hboxed
  exact ⟨box', message, hbox', hsub hmem, rfl, rfl, rfl, hxml⟩

/-! ## who is told that an agent stopped -/

/-- The stop notices accepted for an agent. -/
def noticesOf (s : Post) (aid : Nat) : List QueuedTeammateMessage :=
  ((s.boxes aid).elim [] (·.accepted)).filter (·.kind = .stopNotice)

/-- The agents `_drain_ready_message_inboxes` starts a pass for: a pass over no
exchange would end at once. -/
def retries (s : Post) (aid : Nat) : Bool :=
  s.failed aid && !(s.exchanges.unanswered aid).entries.isEmpty

/-- An inbox that has accepted the same has no new notice. -/
theorem noticesOf_setBox {box' : Box} {other : Nat} {message : QueuedTeammateMessage}
    (hbox : s.boxes aid = some box) (hm : message ∈ (s.setBox aid box').noticesOf other)
    (ha : box'.accepted = box.accepted) : message ∈ s.noticesOf other := by
  suffices heq : (s.setBox aid box').noticesOf other = s.noticesOf other from heq ▸ hm
  unfold noticesOf
  rw [boxes_setBox]
  split
  · rename_i heq
    rw [heq, hbox, Option.elim_some, Option.elim_some, ha]
  · rfl

/-- A drain brings no new notice. -/
theorem noticesOf_drainLocked {view : DrainView} {other : Nat} {message : QueuedTeammateMessage}
    (hm : message ∈ (s.drainLocked aid view).noticesOf other) : message ∈ s.noticesOf other := by
  unfold drainLocked at hm
  cases hbox : s.boxes aid with
  | none =>
      rw [hbox] at hm
      exact hm
  | some box =>
      rw [hbox] at hm
      exact noticesOf_setBox hbox hm (box.accepted_drain view s.shuttingDown)

/-- Of the messages that are accepted, a stop notice is one. -/
theorem noticesOf_accept {target : Box} {message : QueuedTeammateMessage} (exchanges : Exchanges)
    (hbox : s.boxes message.toAid = some target) (other : Nat) :
    (s.accept target message exchanges).noticesOf other =
      if other = message.toAid ∧ message.kind = .stopNotice then message :: s.noticesOf other
      else s.noticesOf other := by
  show ((s.setBox _ _).boxes other |>.elim [] (·.accepted)).filter _ = _
  rw [boxes_setBox]
  by_cases heq : other = message.toAid
  · rw [if_pos heq, Option.elim_some, noticesOf, heq, hbox, Option.elim_some, Box.enqueue,
      List.filter_cons]
    by_cases hk : message.kind = .stopNotice
    · rw [if_pos (decide_eq_true hk), if_pos ⟨rfl, hk⟩]
    · rw [if_neg (by simpa using hk), if_neg fun h => hk h.2]
  · rw [if_neg heq, if_neg fun h => heq h.1]
    rfl

/-- What must hold of the exchange a notice is queued for. -/
structure Notifiable (s s' : Post) (message : QueuedTeammateMessage) (toAid : Nat)
    (unansweredId : String) : Prop where
  stopped : s.failed message.fromAid = true
  unanswered : s.exchanges.outstanding toAid message.fromAid = some unansweredId
  notQueued : s.awaitsTurn message.fromAid unansweredId = false
  closed : s'.exchanges.outstanding toAid message.fromAid = none
  told : .noticed toAid message.fromAid unansweredId message.messageId ∈ s'.exchanges.log

/-- **The log of a drain** is that of before, behind what it rejected. -/
theorem log_drainLocked (s : Post) (aid : Nat) (view : DrainView) :
    ∃ refusals : List QueuedTeammateMessage,
      (s.drainLocked aid view).exchanges.log =
        (refusals.map fun m => .rejected m.fromAid aid m.messageId) ++ s.exchanges.log ∧
      ∀ m ∈ refusals, (view.routeError m).isSome = true ∧
        ∃ box, s.boxes aid = some box ∧ m ∈ box.inbox := by
  unfold drainLocked
  cases hbox : s.boxes aid with
  | none => exact ⟨[], rfl, fun m hm => absurd hm List.not_mem_nil⟩
  | some box =>
      refine ⟨((box.refused view.routeError).map Prod.fst).reverse, ?_, fun m hm => ?_⟩
      · rw [List.map_reverse, List.map_map]
        exact Exchanges.log_rejectAll aid _
      · rw [List.mem_reverse, List.mem_map] at hm
        obtain ⟨refusal, hrefusal, rfl⟩ := hm
        obtain ⟨m, hm, herror⟩ := List.mem_filterMap.mp hrefusal
        obtain ⟨reason, hreason, rfl⟩ := Option.map_eq_some_iff.mp herror
        refine ⟨?_, box, rfl, hm⟩
        rw [hreason]
        rfl

/-- A drain keeps what was logged. -/
theorem mem_log_drainLocked {event : ExchangeEvent} (view : DrainView)
    (hm : event ∈ s.exchanges.log) : event ∈ (s.drainLocked aid view).exchanges.log := by
  obtain ⟨refusals, hlog, -⟩ := log_drainLocked s aid view
  rw [hlog]
  exact List.mem_append_right _ hm

/-- A drain makes nothing outstanding. -/
theorem outstanding_drainLocked {a b : Nat} (view : DrainView)
    (hnone : s.exchanges.outstanding a b = none) :
    (s.drainLocked aid view).exchanges.outstanding a b = none := by
  unfold drainLocked
  cases s.boxes aid with
  | none => exact hnone
  | some box => exact Exchanges.outstanding_rejectAll hnone aid _

/-- A notice that closed an exchange was accepted for the agent that waited. -/
def Told (s : Post) : Prop :=
  ∀ a b unansweredId noticeId, .noticed a b unansweredId noticeId ∈ s.exchanges.log →
    ∃ box message, s.boxes a = some box ∧ message ∈ box.accepted ∧
      message.kind = .stopNotice ∧ message.fromAid = b ∧ message.messageId = noticeId

/-- What was told stays told while the log only grows by other events. -/
theorem Told.mono (h : Told s) (hremembers : Remembers s s')
    (hlog : ∀ a b unansweredId noticeId, .noticed a b unansweredId noticeId ∈ s'.exchanges.log →
      .noticed a b unansweredId noticeId ∈ s.exchanges.log) : Told s' := by
  intro a b unansweredId noticeId hm
  obtain ⟨box, message, hbox, hmem, hmessage⟩ := h a b _ _ (hlog a b _ _ hm)
  obtain ⟨box', hbox', hsub⟩ := hremembers a box hbox
  exact ⟨box', message, hbox', hsub hmem, hmessage⟩

/-- A drain logs no notice. -/
theorem noticed_of_drainLocked {a b : Nat} {unansweredId noticeId : String} {view : DrainView}
    (hm : .noticed a b unansweredId noticeId ∈ (s.drainLocked aid view).exchanges.log) :
    .noticed a b unansweredId noticeId ∈ s.exchanges.log := by
  obtain ⟨refusals, hlog, -⟩ := log_drainLocked s aid view
  rw [hlog, List.mem_append, List.mem_map] at hm
  rcases hm with ⟨m, -, heq⟩ | hm
  · contradiction
  · exact hm

/-- **Every step keeps it true** that each logged notice was accepted. -/
theorem Told.step (h : Told s) (hsound : Sound s) (hs : Step topologyForbids s s') : Told s' := by
  have hremembers := Remembers.step hsound hs
  cases hs with
  | send hfree hfresh hsent =>
      obtain ⟨target, message, hbox, -, rfl, rfl, -, -, -, -, -, rfl⟩ := sendMessage_ok hsent
      refine h.mono hremembers fun a b _ _ hm => ?_
      exact (List.mem_cons.mp (noticed_of_drainLocked hm)).resolve_left fun heq => by contradiction
  | drain aid view hfree => exact h.mono hremembers fun a b _ _ hm => noticed_of_drainLocked hm
  | seat | appended | appendFailed | userTurn | hold | drive | shutdown | notify | notifierEnds =>
      exact h.mono hremembers fun a b _ _ hm => hm
  | @notifyOne s₁ before after n toAid unansweredId rest view goesOn hn hw hfree hfresh hone =>
      have hcases := notifyOne_cases s n toAid unansweredId view
      rw [hone] at hcases
      have hremembers : Remembers s s₁ := hremembers
      suffices htold : Told s₁ from htold
      cases hcases with
      | unchanged => exact h
      | dropped hout =>
          refine h.mono hremembers fun a b _ _ hm => ?_
          exact (List.mem_cons.mp hm).resolve_left fun heq => by contradiction
      | @queued target hout hfailed hturn hbox hroom =>
          intro a b id noticeId hm
          rcases List.mem_cons.mp (noticed_of_drainLocked hm) with heq | hold
          · obtain ⟨rfl, rfl, rfl, rfl⟩ := ExchangeEvent.noticed.inj heq
            obtain ⟨box, hboxed, hmem⟩ := accepted_accept s target (notice n target a view)
              (s.exchanges.notice a n.aid id view.messageId) view.drain
            exact ⟨box, _, hboxed, hmem, rfl, rfl, rfl⟩
          · obtain ⟨box, message, hbox, hmem, hmessage⟩ := h a b _ _ hold
            obtain ⟨box', hbox', hsub⟩ := hremembers a box hbox
            exact ⟨box', message, hbox', hsub hmem, hmessage⟩

/-- **A notice that closed an exchange is not lost.** -/
theorem accepted_of_noticed (h : s.Reachable topologyForbids) : Told s := by
  induction h with
  | refl => exact fun a b _ _ hm => absurd hm List.not_mem_nil
  | tail hrun hs ih => exact ih.step (Reachable.sound hrun) hs

/-- **The log of a send** that was accepted: the send, behind what the drain rejected. -/
theorem log_sendMessage {fromAid toAid : Nat} {summary content messageId sentAt : String}
    {view : DrainView} (hsent : s.sendMessage topologyForbids fromAid toAid summary content
      messageId sentAt view = .ok s') :
    ∃ refusals : List QueuedTeammateMessage, s'.exchanges.log =
      (refusals.map fun m => .rejected m.fromAid toAid m.messageId) ++
        .sent fromAid toAid messageId :: s.exchanges.log ∧
      ∀ m ∈ refusals, (view.routeError m).isSome = true := by
  obtain ⟨target, message, hbox, -, rfl, rfl, -, -, -, -, -, rfl⟩ := sendMessage_ok hsent
  obtain ⟨refusals, hlog, hrefused⟩ := log_drainLocked
    (s.accept target message (s.exchanges.record fromAid message.toAid message.messageId))
    message.toAid view
  exact ⟨refusals, hlog, fun m hm => (hrefused m hm).1⟩

/-- A step queues a stop notice for an exchange that it may be queued for. -/
theorem notice_of_step (hs : Step topologyForbids s s') {toAid : Nat}
    {message : QueuedTeammateMessage} (hm : message ∈ s'.noticesOf toAid) :
    message ∈ s.noticesOf toAid ∨ ∃ unansweredId, Notifiable s s' message toAid unansweredId := by
  cases hs with
  | seat role hroom =>
      change message ∈ (s.setBox _ _).noticesOf toAid at hm
      unfold noticesOf at hm ⊢
      rw [boxes_setBox] at hm
      split at hm
      · exact absurd hm List.not_mem_nil
      · exact .inl hm
  | send hfree hfresh hsent =>
      obtain ⟨target, sent, hbox, -, rfl, -, hkind, -, -, -, -, rfl⟩ := sendMessage_ok hsent
      have hm := noticesOf_drainLocked hm
      rw [noticesOf_accept _ hbox, if_neg] at hm
      · exact .inl hm
      · rw [hkind]
        exact fun h => by cases h.2
  | drain aid view hfree =>
      exact .inl (noticesOf_drainLocked hm)
  | appended hbox hd =>
      exact .inl (noticesOf_setBox hbox hm rfl)
  | appendFailed hbox hd =>
      exact .inl (noticesOf_setBox hbox hm rfl)
  | userTurn content hbox hd =>
      exact .inl (noticesOf_setBox hbox hm rfl)
  | hold held hbox =>
      exact .inl (noticesOf_setBox hbox hm rfl)
  | drive content phase hbox hc =>
      exact .inl (noticesOf_setBox hbox hm rfl)
  | shutdown => exact .inl hm
  | notify => exact .inl hm
  | notifierEnds => exact .inl hm
  | @notifyOne s₁ before after n sender unansweredId rest view goesOn hn hw hfree hfresh hone =>
      have hcases := notifyOne_cases s n sender unansweredId view
      rw [hone] at hcases
      change message ∈ s₁.noticesOf toAid at hm
      cases hcases with
      | unchanged => exact .inl hm
      | dropped => exact .inl hm
      | queued hout hfailed hturn hbox hroom =>
          have hm := noticesOf_drainLocked hm
          rw [noticesOf_accept _ hbox] at hm
          split at hm
          · rename_i hto
            rcases List.mem_cons.mp hm with rfl | hm
            · refine .inr ⟨unansweredId, hfailed, hto.1 ▸ hout, hturn, ?_, ?_⟩
              · refine outstanding_drainLocked _ ?_
                show (Exchanges.pop _ _ _ _).get? _ = none
                rw [Exchanges.get?_pop, if_pos ⟨hto.1, rfl⟩]
              · rw [hto.1]
                exact mem_log_drainLocked _ List.mem_cons_self
            · exact .inl hm
          · exact .inl hm

end Post

/-! ## a run -/

namespace Post

/-- Two agents, nothing sent yet. -/
def sampleSeats : Post :=
  let s : Post := { ({} : Post).setBox 0 { role := "lead" } with nextAid := 1 }
  { s.setBox 1 { role := "worker" } with nextAid := 2 }

def sampleId : String := "0123456789abcdef0123456789abcdef"

/-- The first writes to the second, which is busy. -/
def sampleSend : Except String Post :=
  sampleSeats.sendMessage (fun _ _ => false) 0 1 "status" "a < b" sampleId "now"
    ⟨fun _ => none, false, true, true⟩

theorem sampleSend_accepted : sampleSend.toOption.isSome = true := by decide +kernel

def sampleSent : Post := sampleSend.toOption.get sampleSend_accepted

theorem eq_ok_get {ε α : Type} {x : Except ε α} (h : x.toOption.isSome = true) :
    x = .ok (x.toOption.get h) := by
  cases x with
  | ok a => rfl
  | error e => cases h

theorem sampleSeats_reachable : sampleSeats.Reachable fun _ _ => false := by
  have h₁ : Reachable (fun _ _ => false) _ := .single (.seat (s := {}) "lead" (by decide))
  exact h₁.tail (.seat "worker" (by decide))

theorem sampleSeats_free : sampleSeats.Free 1 := by
  intro box hb d hd
  cases hb
  cases hd

theorem sampleSeats_fresh : sampleSeats.Fresh sampleId :=
  ⟨⟨by decide, by decide +kernel⟩, List.not_mem_nil⟩

theorem sampleSent_reachable : sampleSent.Reachable fun _ _ => false :=
  sampleSeats_reachable.tail
    (.send sampleSeats_free sampleSeats_fresh (eq_ok_get sampleSend_accepted))

end Post

/-! ## the results -/

section Results

variable {topologyForbids : String → String → Bool} {s : Post}

/-- The box still knows the message: it is queued, rejected or in the history. -/
def Box.Knows (box : Box) (m : QueuedTeammateMessage) : Prop :=
  m ∈ box.inbox ∨ (∃ reason, (⟨m, .rejected reason⟩ : PendingUserMessage) ∈ box.pendingUserMessages) ∨
    ∃ batch, m ∈ batch ∧ deliveryText batch ∈ box.messages

theorem Box.Sound.knows {box : Box} (h : box.Sound) {m : QueuedTeammateMessage}
    (hm : m ∈ box.accepted) : box.Knows m := by
  rcases h.kept m hm with hq | hr | ⟨batch, hb, ht⟩
  · exact .inl hq
  · exact .inr (.inl hr)
  · refine .inr (.inr ⟨batch, hb, ?_⟩)
    unfold Box.settled at ht
    split at ht
    · exact ht
    · exact List.mem_of_mem_take ht

/-- **Inbox and sidecar agree, are bounded, and lose nothing.**  In every state a
run reaches, the inbox is the list of the durable records that are not rejected;
it holds at most 32 envelopes of at most 8 KiB, 64 KiB together; the next
delivery is the longest prefix of it that fits into 16 KiB, and not empty; and
every message that `send_message` accepted at any moment of the run, and every
notice that closed an exchange, is queued, rejected or delivered. -/
theorem inbox_bounded_and_kept (h : s.Reachable topologyForbids) {aid : Nat} {box : Box}
    (hbox : s.boxes aid = some box) :
    box.inbox = (box.pendingUserMessages.filter isLive).map (·.message) ∧
      (box.pendingUserMessages.map messageId).Nodup ∧
      box.inbox.length ≤ 32 ∧ inboxSize box.inbox ≤ 64 * 1024 ∧
      (∀ m ∈ box.inbox, encodedSize m.xml ≤ 8 * 1024) ∧
      (box.inbox ≠ [] → ∃ k, boundedMessageBatch box.inbox = box.inbox.take k ∧
        0 < k ∧ k ≤ box.inbox.length ∧
        encodedSize (deliveryText (box.inbox.take k)) ≤ 16 * 1024 ∧
        ∀ n ≤ box.inbox.length, encodedSize (deliveryText (box.inbox.take n)) ≤ 16 * 1024 →
          n ≤ k) ∧
      (∀ (s₀ s₁ : Post) (fromAid : Nat) (summary content messageId sentAt : String)
          (view : DrainView), s₀.Reachable topologyForbids → s₀.Free aid →
        s₀.Fresh messageId →
        s₀.sendMessage topologyForbids fromAid aid summary content messageId sentAt view =
          .ok s₁ →
        Relation.ReflTransGen (Post.Step topologyForbids) s₁ s →
        ∃ m : QueuedTeammateMessage, m.fromAid = fromAid ∧ m.messageId = messageId ∧
          m.content = content ∧
          m.xml = formatTeammateMessage fromAid summary content messageId ∧ box.Knows m) ∧
      (∀ b unansweredId noticeId, .noticed aid b unansweredId noticeId ∈ s.exchanges.log →
        ∃ m : QueuedTeammateMessage, m.kind = .stopNotice ∧ m.fromAid = b ∧
          m.messageId = noticeId ∧ box.Knows m) := by
  have hs := h.sound.boxes aid box hbox
  refine ⟨hs.agree, hs.distinct.nodup, hs.count, hs.bytes, hs.each, fun hne => ?_, ?_, ?_⟩
  · obtain ⟨k, htake, hk, hpos, hfits, hnext⟩ := boundedMessageBatch_spec hs.each
    refine ⟨k, htake, hpos hne, hk, hfits (hpos hne), fun n hn hsize => ?_⟩
    by_contra hlt
    exact absurd hsize (Nat.not_le_of_lt (hnext n hn (Nat.lt_of_not_le hlt)))
  · intro s₀ s₁ fromAid summary content messageId sentAt view h₀ hfree hfresh hsent hrun
    obtain ⟨box', m, hbox', hm, hfrom, hid, hcontent, hxml⟩ :=
      Post.accepted_of_sent h₀ hfree hfresh hsent hrun
    rw [hbox] at hbox'
    rw [← Option.some.inj hbox'] at hm
    exact ⟨m, hfrom, hid, hcontent, hxml, hs.knows hm⟩
  · intro b unansweredId noticeId hm
    obtain ⟨box', m, hbox', hmem, hkind, hfrom, hid⟩ := Post.accepted_of_noticed h aid b _ _ hm
    rw [hbox] at hbox'
    rw [← Option.some.inj hbox'] at hmem
    exact ⟨m, hkind, hfrom, hid, hs.knows hmem⟩

theorem inbox_bounded_and_kept_sample : ∃ box, Post.sampleSent.boxes 1 = some box ∧
    box.inbox.map (·.content) = ["a < b"] ∧
    box.inbox = (box.pendingUserMessages.filter isLive).map (·.message) ∧
    ∃ m : QueuedTeammateMessage, m.messageId = Post.sampleId ∧ m.content = "a < b" ∧
      box.Knows m := by
  have hsent : (Post.sampleSent.boxes 1).map (fun box => box.inbox.map (·.content)) =
      some ["a < b"] := by decide +kernel
  obtain ⟨box, hbox, hcontent⟩ := Option.map_eq_some_iff.mp hsent
  have hbounded := inbox_bounded_and_kept Post.sampleSent_reachable hbox
  obtain ⟨m, -, hid, htext, -, hknows⟩ := hbounded.2.2.2.2.2.2.1 Post.sampleSeats Post.sampleSent 0
    "status" "a < b" Post.sampleId "now" ⟨fun _ => none, false, true, true⟩
    Post.sampleSeats_reachable Post.sampleSeats_free Post.sampleSeats_fresh
    (Post.eq_ok_get Post.sampleSend_accepted) .refl
  exact ⟨box, hbox, hcontent, hbounded.1, m, hid, htext, hknows⟩

/-- **Unanswered exchanges.**  In every state a run reaches: an exchange is
outstanding exactly while the log of what was sent says that its sender waits, that
is with the id of its latest message since the other last wrote, so never in both
directions; the log has every send that was accepted, and grows by what a drain
rejected; no message is told about twice; a step queues a notice only for an
exchange that is unanswered, whose recipient has stopped and will not get to it in a
later turn, and that closes it; an exchange whose notice does not fit is left as it
was, and every later pass that the scheduler retries looks at it again while it is
outstanding. -/
theorem exchanges_followed (h : s.Reachable topologyForbids) :
    (∀ a b messageId, s.exchanges.outstanding a b = some messageId ↔
      ∃ newer older, s.exchanges.log = newer ++ .sent a b messageId :: older ∧
        waits b a older = none ∧ ∀ event ∈ newer, event.leaves a b messageId) ∧
    (∀ a b messageId, s.exchanges.outstanding a b = some messageId →
      s.exchanges.outstanding b a = none) ∧
    (∀ fromAid toAid summary content messageId sentAt view s',
      s.sendMessage topologyForbids fromAid toAid summary content messageId sentAt view = .ok s' →
      ∃ refusals : List QueuedTeammateMessage, s'.exchanges.log =
        (refusals.map fun m => .rejected m.fromAid toAid m.messageId) ++
          .sent fromAid toAid messageId :: s.exchanges.log ∧
        ∀ m ∈ refusals, (view.routeError m).isSome = true) ∧
    (∀ aid view, ∃ refusals : List QueuedTeammateMessage,
      (s.drainLocked aid view).exchanges.log =
        (refusals.map fun m => .rejected m.fromAid aid m.messageId) ++ s.exchanges.log ∧
      ∀ m ∈ refusals, (view.routeError m).isSome = true ∧
        ∃ box, s.boxes aid = some box ∧ m ∈ box.inbox) ∧
    (s.exchanges.log.filterMap ExchangeEvent.noticedId).Nodup ∧
    (∀ s', Post.Step topologyForbids s s' → ∀ toAid, ∀ message ∈ s'.noticesOf toAid,
      message ∈ s.noticesOf toAid ∨
        ∃ unansweredId, Post.Notifiable s s' message toAid unansweredId) ∧
    (∀ n toAid unansweredId view target, s.boxes toAid = some target →
      target.phase.isFailed = false → Post.refusesNotice n target toAid view = true →
      (s.notifyOne n toAid unansweredId view).1 = s) ∧
    ∀ a b messageId, s.exchanges.outstanding a b = some messageId → s.failed b = true →
      s.retries b = true ∧ (s.shuttingDown = false → ∀ reason role partialResult,
        ∃ n, s.notifyUnansweredSenders b reason (some role) partialResult = some n ∧
          (a, messageId) ∈ n.waiting) := by
  have hs := h.sound.exchanges
  refine ⟨fun a b messageId => ?_, fun a b messageId => hs.not_both,
    fun _ _ _ _ _ _ _ _ => Post.log_sendMessage, Post.log_drainLocked s, hs.once,
    fun s' hstep toAid message hm => Post.notice_of_step hstep hm, ?_, ?_⟩
  · rw [hs.latest]
    exact waits_eq_some
  · intro n toAid unansweredId view target hbox hphase hrefused
    unfold Post.notifyOne
    repeat' split
    all_goals first | rfl | skip
    · rename_i hnone
      rw [hbox] at hnone
      cases hnone
    · rename_i found hfound hfailed
      rw [hbox] at hfound
      rw [← Option.some.inj hfound, hphase] at hfailed
      cases hfailed
    · rename_i found hfound _ hroom
      rw [hbox] at hfound
      rw [← Option.some.inj hfound] at hroom
      exact absurd hrefused hroom
  · intro a b messageId hout hfailed
    have hmem : (a, messageId) ∈ (s.exchanges.unanswered b).entries := Lib.Dict.get?_eq_some.mp hout
    have hsome : (s.exchanges.unanswered b).entries.isEmpty = false :=
      List.isEmpty_eq_false_iff.mpr (List.ne_nil_of_mem hmem)
    refine ⟨?_, fun hup reason role partialResult => ?_⟩
    · rw [Post.retries, hfailed, hsome]
      rfl
    · unfold Post.notifyUnansweredSenders
      rw [hfailed, hsome, hup]
      exact ⟨_, rfl, hmem⟩

theorem exchanges_followed_sample :
    Post.sampleSent.exchanges.outstanding 0 1 = some Post.sampleId ∧
      Post.sampleSent.exchanges.outstanding 1 0 = none := by
  have hout : Post.sampleSent.exchanges.outstanding 0 1 = some Post.sampleId := by decide +kernel
  exact ⟨hout, (exchanges_followed Post.sampleSent_reachable).2.1 0 1 _ hout⟩

end Results

end OpenCollab
