import OpenCollab.Scheduler.Mailbox

/-!
# OpenCollab.Scheduler.Inbox

The two copies of an inbox agree, the inbox is bounded, and no accepted message
is lost (`Box.Sound`); every operation on a box keeps this.

Marking and discarding go by message id.  Ids are distinct, so either takes one
record out of those still to be delivered (`live_mark`, `live_discard`); a whole
drain or dequeue follows by induction over the messages it handles.
-/

namespace OpenCollab

open PendingUserMessage

/-- The id of the message a record is about. -/
def PendingUserMessage.messageId (item : PendingUserMessage) : String := item.message.messageId

/-- The messages of the records that are still to be delivered. -/
def live (pending : List PendingUserMessage) : List QueuedTeammateMessage :=
  (pending.filter isLive).map (·.message)

/-- Records with distinct, nonempty ids. -/
structure DistinctIds (pending : List PendingUserMessage) : Prop where
  nodup : (pending.map messageId).Nodup
  nonempty : ∀ item ∈ pending, item.messageId ≠ ""

variable {pending : List PendingUserMessage} {message : QueuedTeammateMessage} {reason : String}

/-- The live messages of two inboxes. -/
theorem live_append (a b : List PendingUserMessage) : live (a ++ b) = live a ++ live b := by
  simp [live]

/-- A live message is that of a live item. -/
theorem mem_live : message ∈ live pending ↔ ∃ item ∈ pending, item.isLive ∧ item.message = message := by
  simp [live, and_assoc]

/-- The rest of an inbox has distinct ids too. -/
theorem DistinctIds.tail {item : PendingUserMessage} (h : DistinctIds (item :: pending)) : DistinctIds pending :=
  ⟨(List.nodup_cons.mp h.nodup).2, fun other ho => h.nonempty other (List.mem_cons_of_mem _ ho)⟩

/-- The record of a message with an id. -/
theorem isSame_iff (hne : message.messageId ≠ "") {item : PendingUserMessage} :
    item.isSame message = true ↔ item.messageId = message.messageId := by
  simp [isSame, messageId, hne]

/-- An item is discarded for a message of its own id. -/
theorem isDiscarded_iff (hne : message.messageId ≠ "") {item : PendingUserMessage} :
    item.isDiscarded message = true ↔ item.messageId = message.messageId := by
  simp [isDiscarded, messageId, hne]

/-! ## marking -/

/-- Marking a message leaves the messages as they are. -/
theorem messages_mark (message : QueuedTeammateMessage) (reason : String)
    (pending : List PendingUserMessage) :
    (markMessageRejected message reason pending).map (·.message) = pending.map (·.message) := by
  induction pending with
  | nil => rfl
  | cons item rest ih =>
      rw [markMessageRejected]
      split
      · rfl
      · rw [List.map_cons, List.map_cons, ih]

/-- The ids are those of the messages. -/
theorem ids_eq_of_messages {a b : List PendingUserMessage}
    (h : a.map (·.message) = b.map (·.message)) : a.map messageId = b.map messageId := by
  have := congrArg (List.map QueuedTeammateMessage.messageId) h
  rw [List.map_map, List.map_map] at this
  exact this

/-- Distinct ids are read off the messages. -/
theorem DistinctIds.of_messages {other : List PendingUserMessage} (h : DistinctIds pending)
    (heq : other.map (·.message) = pending.map (·.message)) : DistinctIds other := by
  have hids := ids_eq_of_messages heq
  refine ⟨hids ▸ h.nodup, fun item hi => ?_⟩
  have hm : item.messageId ∈ pending.map messageId := hids ▸ List.mem_map_of_mem hi
  obtain ⟨source, hs, he⟩ := List.mem_map.mp hm
  exact he ▸ h.nonempty source hs

/-- Marking a message keeps the ids distinct. -/
theorem DistinctIds.mark (h : DistinctIds pending) : DistinctIds (markMessageRejected message reason pending) :=
  h.of_messages (messages_mark message reason pending)

/-- A message that is not there takes nothing away. -/
theorem live_filter_of_absent (hid : ∀ item ∈ pending, item.messageId ≠ message.messageId) :
    (live pending).filter (·.messageId ≠ message.messageId) = live pending := by
  rw [List.filter_eq_self]
  intro m hm
  obtain ⟨item, hi, -, rfl⟩ := mem_live.mp hm
  exact decide_eq_true (hid item hi)

/-- The live messages, item by item. -/
theorem live_cons (item : PendingUserMessage) (rest : List PendingUserMessage) :
    live (item :: rest) = if item.isLive then item.message :: live rest else live rest := by
  unfold live
  rw [List.filter_cons]
  split <;> rfl

/-- Marking a message takes it out of those still to be delivered. -/
theorem live_mark (h : DistinctIds pending) (hne : message.messageId ≠ "") :
    live (markMessageRejected message reason pending) =
      (live pending).filter (·.messageId ≠ message.messageId) := by
  induction pending with
  | nil => rfl
  | cons item rest ih =>
      have hrest := List.nodup_cons.mp h.nodup
      rw [markMessageRejected, live_cons]
      by_cases hsame : item.isSame message = true
      · have hid := (isSame_iff hne).mp hsame
        have habsent : ∀ other ∈ rest, other.messageId ≠ message.messageId := by
          intro other ho heq
          exact hrest.1 (hid.trans heq.symm ▸ List.mem_map_of_mem ho)
        have hdropped : live ({ item with deliveryStatus := .rejected reason } :: rest) =
            live rest := by
          rw [live_cons]
          rfl
        rw [if_pos hsame, hdropped]
        split
        · have hout : decide (item.message.messageId ≠ message.messageId) = false :=
            decide_eq_false (not_not_intro hid)
          rw [List.filter_cons, hout, live_filter_of_absent habsent]
          rfl
        · exact (live_filter_of_absent habsent).symm
      · have hid : item.messageId ≠ message.messageId := fun he => hsame ((isSame_iff hne).mpr he)
        rw [if_neg hsame, live_cons, ih h.tail]
        split
        · have hin : decide (item.message.messageId ≠ message.messageId) = true := decide_eq_true hid
          rw [List.filter_cons, if_pos hin]
        · rfl

/-- A record that is marked stays marked. -/
theorem rejected_mark {other : QueuedTeammateMessage}
    (hr : ∃ r, (⟨other, .rejected r⟩ : PendingUserMessage) ∈ pending) :
    ∃ r, (⟨other, .rejected r⟩ : PendingUserMessage) ∈ markMessageRejected message reason pending := by
  induction pending with
  | nil => exact absurd hr.choose_spec List.not_mem_nil
  | cons item rest ih =>
      obtain ⟨r, hr⟩ := hr
      rw [markMessageRejected]
      rw [List.mem_cons] at hr
      split
      · rcases hr with rfl | hr
        · exact ⟨reason, List.mem_cons_self⟩
        · exact ⟨r, List.mem_cons_of_mem _ hr⟩
      · rcases hr with rfl | hr
        · exact ⟨r, List.mem_cons_self⟩
        · obtain ⟨r', hr'⟩ := ih ⟨r, hr⟩
          exact ⟨r', List.mem_cons_of_mem _ hr'⟩

/-- The record of a message that is marked says so. -/
theorem mark_rejects (h : DistinctIds pending) (hm : message ∈ pending.map (·.message)) :
    (⟨message, .rejected reason⟩ : PendingUserMessage) ∈
      markMessageRejected message reason pending := by
  induction pending with
  | nil => exact absurd hm List.not_mem_nil
  | cons item rest ih =>
      obtain ⟨source, hs, rfl⟩ := List.mem_map.mp hm
      have hne : source.message.messageId ≠ "" := h.nonempty source hs
      rw [markMessageRejected]
      by_cases hsame : item.isSame source.message = true
      · have heq : item = source :=
          List.inj_on_of_nodup_map h.nodup List.mem_cons_self hs ((isSame_iff hne).mp hsame)
        rw [if_pos hsame, heq]
        exact List.mem_cons_self
      · rw [if_neg hsame]
        have hin : source ∈ rest := by
          refine (List.mem_cons.mp hs).resolve_left fun heq => hsame ?_
          exact (isSame_iff hne).mpr (heq ▸ rfl)
        exact List.mem_cons_of_mem _ (ih h.tail (List.mem_map_of_mem hin))

/-! ## discarding -/

/-- Discarding by id takes out the records with that id. -/
theorem discard_eq_filter (h : DistinctIds pending) (hne : message.messageId ≠ "") :
    pending.eraseP (·.isDiscarded message) =
      pending.filter (·.messageId ≠ message.messageId) := by
  induction pending with
  | nil => rfl
  | cons item rest ih =>
      have hrest := List.nodup_cons.mp h.nodup
      rw [List.eraseP_cons, List.filter_cons]
      by_cases hid : item.messageId = message.messageId
      · have hdisc := (isDiscarded_iff hne).mpr hid
        rw [hdisc, decide_eq_false (not_not_intro hid), cond_true, if_neg Bool.false_ne_true]
        refine (List.filter_eq_self.mpr fun other ho => ?_).symm
        refine decide_eq_true_eq.mpr fun heq => ?_
        exact hrest.1 (hid.trans heq.symm ▸ List.mem_map_of_mem ho)
      · have hdisc : item.isDiscarded message = false :=
          Bool.eq_false_iff.mpr fun hd => hid ((isDiscarded_iff hne).mp hd)
        rw [hdisc, decide_eq_true hid, cond_false, if_pos rfl, ih h.tail]

/-- Fewer items have distinct ids too. -/
theorem DistinctIds.sublist {other : List PendingUserMessage} (h : DistinctIds pending)
    (hs : other.Sublist pending) : DistinctIds other :=
  ⟨h.nodup.sublist (hs.map _), fun item hi => h.nonempty item (hs.subset hi)⟩

/-- Removing an id removes its live messages. -/
theorem live_filter_id (id : String) (pending : List PendingUserMessage) :
    live (pending.filter (·.messageId ≠ id)) = (live pending).filter (·.messageId ≠ id) := by
  unfold live
  rw [List.filter_map, List.filter_comm]
  rfl

/-- The ids of those still to be delivered are distinct. -/
theorem DistinctIds.live_ids (h : DistinctIds pending) :
    ((live pending).map QueuedTeammateMessage.messageId).Nodup := by
  unfold live
  rw [List.map_map]
  exact h.nodup.sublist (List.filter_sublist.map _)

/-- A live message has an id. -/
theorem DistinctIds.ne_empty (h : DistinctIds pending) {m : QueuedTeammateMessage} (hm : m ∈ live pending) :
    m.messageId ≠ "" := by
  obtain ⟨item, hi, -, rfl⟩ := mem_live.mp hm
  exact h.nonempty item hi

/-- Discarding a delivered batch leaves the messages behind it. -/
theorem live_discard (batch : List QueuedTeammateMessage) {rest : List QueuedTeammateMessage}
    (h : DistinctIds pending) (hl : live pending = batch ++ rest) :
    live (batch.foldl (fun pending m => pending.eraseP (·.isDiscarded m)) pending) = rest := by
  induction batch generalizing pending with
  | nil => exact hl
  | cons m batch ih =>
      have hm : m ∈ live pending := by simp [hl]
      have hnodup := h.live_ids
      rw [hl, List.cons_append, List.map_cons, List.nodup_cons] at hnodup
      rw [List.foldl_cons, discard_eq_filter h (h.ne_empty hm)]
      refine ih (h.sublist List.filter_sublist) ?_
      rw [live_filter_id, hl, List.cons_append, List.filter_cons,
        decide_eq_false (not_not_intro rfl), if_neg Bool.false_ne_true, List.filter_eq_self]
      exact fun other ho => decide_eq_true fun he => hnodup.1 (he ▸ List.mem_map_of_mem ho)

/-- A drained batch only takes items away. -/
theorem foldl_discard_sublist (batch : List QueuedTeammateMessage)
    (pending : List PendingUserMessage) :
    (batch.foldl (fun pending m => pending.eraseP (·.isDiscarded m)) pending).Sublist pending := by
  induction batch generalizing pending with
  | nil => exact List.Sublist.refl _
  | cons m batch ih => exact (ih _).trans List.eraseP_sublist

/-- A rejected record is not discarded with a delivered batch. -/
theorem rejected_discard (batch : List QueuedTeammateMessage) {rest : List QueuedTeammateMessage}
    (h : DistinctIds pending) (hl : live pending = batch ++ rest) {item : PendingUserMessage}
    (hi : item ∈ pending) (hr : item.isLive = false) :
    item ∈ batch.foldl (fun pending m => pending.eraseP (·.isDiscarded m)) pending := by
  induction batch generalizing pending with
  | nil => exact hi
  | cons m batch ih =>
      have hm : m ∈ live pending := by simp [hl]
      obtain ⟨source, hs, hlive, rfl⟩ := mem_live.mp hm
      have hne := h.ne_empty hm
      have hother : item.messageId ≠ source.messageId := by
        intro he
        rw [List.inj_on_of_nodup_map h.nodup hi hs he, hlive] at hr
        contradiction
      rw [List.foldl_cons]
      refine ih (h.sublist List.eraseP_sublist) ?_ ?_
      · have hl' : live pending = [source.message] ++ (batch ++ rest) := hl
        exact live_discard [source.message] h hl'
      · rw [discard_eq_filter h hne, List.mem_filter]
        exact ⟨hi, decide_eq_true hother⟩

/-! ## the drain's rejections -/

/-- Marking a list of messages, one after the other. -/
def markAll (refusals : List (QueuedTeammateMessage × String)) (pending : List PendingUserMessage) :
    List PendingUserMessage :=
  refusals.foldl (fun pending refusal => markMessageRejected refusal.1 refusal.2 pending) pending

/-- Marking refusals leaves the messages as they are. -/
theorem messages_markAll (refusals : List (QueuedTeammateMessage × String))
    (pending : List PendingUserMessage) :
    (markAll refusals pending).map (·.message) = pending.map (·.message) := by
  induction refusals generalizing pending with
  | nil => rfl
  | cons refusal refusals ih =>
      rw [markAll, List.foldl_cons]
      exact (ih _).trans (messages_mark _ _ _)

/-- **What is refused is live no more**, and all else stays. -/
theorem live_markAll {refusals : List (QueuedTeammateMessage × String)} (h : DistinctIds pending)
    (hne : ∀ refusal ∈ refusals, refusal.1.messageId ≠ "") :
    live (markAll refusals pending) =
      (live pending).filter (·.messageId ∉ refusals.map (·.1.messageId)) := by
  induction refusals generalizing pending with
  | nil => simp [markAll]
  | cons refusal refusals ih =>
      rw [List.forall_mem_cons] at hne
      have hstep : live (markAll refusals (markMessageRejected refusal.1 refusal.2 pending)) = _ :=
        ih h.mark hne.2
      rw [live_mark h hne.1, List.filter_filter] at hstep
      rw [markAll, List.foldl_cons]
      refine hstep.trans (List.filter_congr fun m _ => ?_)
      rw [List.map_cons, Bool.eq_iff_iff, Bool.and_eq_true]
      simp only [decide_eq_true_eq, List.mem_cons, not_or]
      exact and_comm

/-- What was rejected stays so. -/
theorem rejected_markAll {refusals : List (QueuedTeammateMessage × String)}
    {other : QueuedTeammateMessage}
    (hr : ∃ r, (⟨other, .rejected r⟩ : PendingUserMessage) ∈ pending) :
    ∃ r, (⟨other, .rejected r⟩ : PendingUserMessage) ∈ markAll refusals pending := by
  induction refusals generalizing pending with
  | nil => exact hr
  | cons refusal refusals ih => exact ih (rejected_mark hr)

/-- Every refused message is marked as rejected. -/
theorem markAll_rejects {refusals : List (QueuedTeammateMessage × String)} (h : DistinctIds pending)
    {refusal : QueuedTeammateMessage × String} (hm : refusal ∈ refusals)
    (hp : refusal.1 ∈ pending.map (·.message)) :
    ∃ r, (⟨refusal.1, .rejected r⟩ : PendingUserMessage) ∈ markAll refusals pending := by
  induction refusals generalizing pending with
  | nil => exact absurd hm List.not_mem_nil
  | cons first refusals ih =>
      rw [List.mem_cons] at hm
      rcases hm with rfl | hm
      · have hstep : ∃ r, (⟨refusal.1, .rejected r⟩ : PendingUserMessage) ∈
            markMessageRejected refusal.1 refusal.2 pending := ⟨_, mark_rejects h hp⟩
        show ∃ r, _ ∈ markAll refusals (markMessageRejected refusal.1 refusal.2 pending)
        exact rejected_markAll hstep
      · refine ih h.mark hm ?_
        rw [messages_mark]
        exact hp

/-! ## the invariant -/

/-- The history a failed append goes back to. -/
def Box.settled (box : Box) : List String :=
  match box.delivery with
  | none => box.messages
  | some d => box.messages.take d.messageCount

/-- **A box is sound**: its two queues agree, the inbox is bounded, and every
accepted message is queued, rejected or in the history. -/
structure Box.Sound (box : Box) : Prop where
  agree : box.inbox = live box.pendingUserMessages
  distinct : DistinctIds box.pendingUserMessages
  count : box.inbox.length ≤ maxTeammateInboxMessages
  bytes : inboxSize box.inbox ≤ maxTeammateInboxBytes
  each : ∀ m ∈ box.inbox, encodedSize m.xml ≤ maxTeammateMessageBytes
  kept : ∀ m ∈ box.accepted, m ∈ box.inbox ∨
    (∃ reason, (⟨m, .rejected reason⟩ : PendingUserMessage) ∈ box.pendingUserMessages) ∨
    ∃ batch, m ∈ batch ∧ deliveryText batch ∈ box.settled
  delivering : ∀ d, box.delivery = some d → d.messageCount ≤ box.messages.length ∧
    d.batch <+: box.inbox ∧ (d.batch ≠ [] → deliveryText d.batch ∈ box.messages)

namespace Box

variable {box : Box} {d : Delivery}

/-- An empty inbox is sound. -/
theorem sound_new (role : String) : Sound { role } where
  agree := rfl
  distinct := ⟨List.nodup_nil, fun item h => absurd h List.not_mem_nil⟩
  count := Nat.zero_le _
  bytes := Nat.zero_le _
  each m h := absurd h List.not_mem_nil
  kept m h := absurd h List.not_mem_nil
  delivering d h := by contradiction

/-- **A message with a new id that fits** keeps the inbox sound. -/
theorem Sound.enqueue (h : Sound box) (hroom : box.hasRoom (encodedSize message.xml) = true)
    (hsize : encodedSize message.xml ≤ maxTeammateMessageBytes) (hne : message.messageId ≠ "")
    (hnew : message.messageId ∉ box.pendingUserMessages.map messageId) :
    Sound (box.enqueue message) := by
  rw [hasRoom, Bool.and_eq_true, decide_eq_true_eq, decide_eq_true_eq] at hroom
  constructor
  · show box.inbox ++ [message] = _
    rw [h.agree, Box.enqueue, live_append]
    rfl
  · constructor
    · show ((box.pendingUserMessages ++ [(⟨message, .pending⟩ : PendingUserMessage)]).map
        PendingUserMessage.messageId).Nodup
      rw [List.map_append, List.nodup_append]
      refine ⟨h.distinct.nodup, List.nodup_singleton _, fun a ha b hb he => ?_⟩
      rw [he, List.mem_singleton.mp hb] at ha
      exact hnew ha
    · intro item hi
      rcases List.mem_append.mp hi with hi | hi
      · exact h.distinct.nonempty item hi
      · rw [List.mem_singleton.mp hi]
        exact hne
  · show (box.inbox ++ [message]).length ≤ _
    rw [List.length_append, List.length_singleton]
    omega
  · show inboxSize (box.inbox ++ [message]) ≤ _
    rw [inboxSize_append]
    exact hroom.2
  · intro m hm
    rcases List.mem_append.mp hm with hm | hm
    · exact h.each m hm
    · rw [List.mem_singleton.mp hm]
      exact hsize
  · intro m hm
    rcases List.mem_cons.mp hm with rfl | hm
    · exact .inl (List.mem_append_right _ List.mem_cons_self)
    · rcases h.kept m hm with hq | ⟨reason, hr⟩ | hd
      · exact .inl (List.mem_append_left _ hq)
      · exact .inr (.inl ⟨reason, List.mem_append_left _ hr⟩)
      · exact .inr (.inr hd)
  · intro d hd
    obtain ⟨hcount, hhead, hin⟩ := h.delivering d hd
    exact ⟨hcount, hhead.trans (List.prefix_append _ _), hin⟩

/-- Rejecting takes the refused messages out of both copies. -/
theorem Sound.reject (h : Sound box) (routeError : QueuedTeammateMessage → Option String)
    (hfree : ∀ d, box.delivery = some d → d.batch = []) : Sound (box.reject routeError) := by
  have hrefused : ∀ m ∈ box.inbox, m.messageId ∈ (box.refused routeError).map (·.1.messageId) ↔
      (routeError m).isSome = true := by
    intro m hm
    rw [List.mem_map]
    constructor
    · rintro ⟨refusal, hr, hid⟩
      obtain ⟨source, hs, hsome⟩ := List.mem_filterMap.mp hr
      obtain ⟨reason, hreason, rfl⟩ := Option.map_eq_some_iff.mp hsome
      have heq : source = m := by
        rw [h.agree] at hs hm
        exact List.inj_on_of_nodup_map h.distinct.live_ids hs hm hid
      rw [← heq, hreason]
      rfl
    · intro hsome
      obtain ⟨reason, hreason⟩ := Option.isSome_iff_exists.mp hsome
      exact ⟨(m, reason), List.mem_filterMap.mpr ⟨m, hm, by rw [hreason]; rfl⟩, rfl⟩
  have hne : ∀ refusal ∈ box.refused routeError, refusal.1.messageId ≠ "" := by
    intro refusal hr
    obtain ⟨source, hs, hsome⟩ := List.mem_filterMap.mp hr
    obtain ⟨reason, -, rfl⟩ := Option.map_eq_some_iff.mp hsome
    exact h.distinct.ne_empty (h.agree ▸ hs)
  have hsub : (box.reject routeError).inbox.Sublist box.inbox := List.filter_sublist
  constructor
  · show box.inbox.filter _ = live (markAll (box.refused routeError) box.pendingUserMessages)
    rw [live_markAll h.distinct hne, ← h.agree]
    refine List.filter_congr fun m hm => ?_
    rw [Bool.eq_iff_iff, decide_eq_true_eq, hrefused m hm, Option.isNone_iff_eq_none,
      Option.not_isSome_iff_eq_none]
  · exact h.distinct.of_messages (messages_markAll _ _)
  · exact Nat.le_trans hsub.length_le h.count
  · exact Nat.le_trans (inboxSize_sublist hsub) h.bytes
  · exact fun m hm => h.each m (hsub.subset hm)
  · intro m hm
    rcases h.kept m hm with hq | hr | hd
    · cases hroute : routeError m with
      | none =>
          refine .inl (List.mem_filter.mpr ⟨hq, ?_⟩)
          rw [hroute]
          rfl
      | some reason =>
          have hmem : (m, reason) ∈ box.refused routeError :=
            List.mem_filterMap.mpr ⟨m, hq, by rw [hroute]; rfl⟩
          obtain ⟨item, hi, -, hitem⟩ := mem_live.mp (h.agree ▸ hq)
          exact .inr (.inl (markAll_rejects h.distinct hmem (hitem ▸ List.mem_map_of_mem hi)))
    · exact .inr (.inl (rejected_markAll hr))
    · exact .inr (.inr hd)
  · intro d hd
    obtain ⟨hcount, -, -⟩ := h.delivering d hd
    rw [hfree d hd]
    exact ⟨hcount, List.nil_prefix, fun hne => absurd rfl hne⟩

/-- A hold changes neither the message nor whether it is live. -/
theorem isLive_setHold (held : Bool) (item : PendingUserMessage) :
    (item.setHold held).isLive = item.isLive ∧ (item.setHold held).message = item.message := by
  obtain ⟨m, status⟩ := item
  cases status <;> cases held <;> exact ⟨rfl, rfl⟩

/-- A hold leaves the live messages as they are. -/
theorem live_setHold (held : Bool) (pending : List PendingUserMessage) :
    live (pending.map (·.setHold held)) = live pending := by
  unfold live
  rw [List.filter_map, List.map_map]
  have hlive : isLive ∘ (·.setHold held) = isLive := funext fun i => (isLive_setHold held i).1
  have hmsg : (·.message) ∘ (·.setHold held) = PendingUserMessage.message :=
    funext fun i => (isLive_setHold held i).2
  rw [hlive, hmsg]

/-- A hold leaves all messages as they are. -/
theorem messages_hold (box : Box) (held : Bool) :
    (box.setCancelledTurnInboxHold held).pendingUserMessages.map (·.message) =
      box.pendingUserMessages.map (·.message) := by
  show (box.pendingUserMessages.map (·.setHold held)).map _ = _
  rw [List.map_map]
  exact List.map_congr_left fun item _ => (isLive_setHold held item).2

/-- A hold changes which status the live records have. -/
theorem Sound.hold (h : Sound box) (held : Bool) : Sound (box.setCancelledTurnInboxHold held) := by
  constructor
  · exact h.agree.trans (live_setHold held _).symm
  · exact h.distinct.of_messages (messages_hold box held)
  · exact h.count
  · exact h.bytes
  · exact h.each
  · intro m hm
    rcases h.kept m hm with hq | ⟨reason, hr⟩ | hd
    · exact .inl hq
    · exact .inr (.inl ⟨reason, List.mem_map.mpr ⟨_, hr, rfl⟩⟩)
    · exact .inr (.inr hd)
  · exact h.delivering

/-- A turn begins: nothing leaves the history it goes back to. -/
theorem Sound.beginTurn (h : Sound box) (hd : box.delivery = none)
    {batch : List QueuedTeammateMessage} {content : Option String} (hhead : batch <+: box.inbox)
    (hcontent : batch ≠ [] → content = some (deliveryText batch)) :
    Sound (box.beginTurn batch content) := by
  have hsettled : (box.beginTurn batch content).settled = box.settled := by
    rw [settled, settled, hd]
    exact List.take_left
  constructor
  · exact h.agree
  · exact h.distinct
  · exact h.count
  · exact h.bytes
  · exact h.each
  · rw [hsettled]
    exact h.kept
  · intro d hbegun
    cases hbegun
    refine ⟨?_, hhead, fun hne => ?_⟩
    · show _ ≤ (box.messages ++ content.toList).length
      rw [List.length_append]
      exact Nat.le_add_right _ _
    · rw [hcontent hne]
      exact List.mem_append_right _ List.mem_cons_self

/-- The append is in: the batch leaves both copies and is in the history. -/
theorem Sound.commit (h : Sound box) (hd : box.delivery = some d) : Sound (box.commit d) := by
  obtain ⟨hcount, ⟨rest, hrest⟩, hin⟩ := h.delivering d hd
  have hdrop : box.inbox.drop d.batch.length = rest := by rw [← hrest, List.drop_left]
  have hlive : live box.pendingUserMessages = d.batch ++ rest := by rw [← h.agree, hrest]
  have hsub : (box.commit d).inbox.Sublist box.inbox := List.drop_sublist _ _
  constructor
  · show box.inbox.drop _ = live (d.batch.foldl _ _)
    rw [hdrop, live_discard d.batch h.distinct hlive]
  · exact h.distinct.sublist (foldl_discard_sublist d.batch _)
  · exact Nat.le_trans hsub.length_le h.count
  · exact Nat.le_trans (inboxSize_sublist hsub) h.bytes
  · exact fun m hm => h.each m (hsub.subset hm)
  · intro m hm
    rcases h.kept m hm with hq | ⟨reason, hr⟩ | ⟨batch, hb, ht⟩
    · rw [← hrest, List.mem_append] at hq
      rcases hq with hq | hq
      · exact .inr (.inr ⟨d.batch, hq, hin (List.ne_nil_of_mem hq)⟩)
      · refine .inl ?_
        show m ∈ box.inbox.drop _
        rw [hdrop]
        exact hq
    · exact .inr (.inl ⟨reason, rejected_discard d.batch h.distinct hlive hr rfl⟩)
    · rw [settled, hd] at ht
      exact .inr (.inr ⟨batch, hb, List.mem_of_mem_take ht⟩)
  · intro other hother
    contradiction

/-- The append failed: both copies are as they were. -/
theorem Sound.rollback (h : Sound box) (hd : box.delivery = some d) : Sound (box.rollback d) := by
  have hsettled : (box.rollback d).settled = box.settled := by
    rw [settled, settled, hd]
    rfl
  constructor
  · exact h.agree
  · exact h.distinct
  · exact h.count
  · exact h.bytes
  · exact h.each
  · rw [hsettled]
    exact h.kept
  · intro other hother
    contradiction

/-- The driver appends to the history and changes the phase. -/
theorem Sound.drive (h : Sound box) {content : Option String} (phase : SessionPhase)
    (hc : box.delivery = none ∨ content = none) :
    Sound { box with messages := box.messages ++ content.toList, phase } := by
  have hgrown : ∀ text ∈ box.settled,
      text ∈ settled { box with messages := box.messages ++ content.toList, phase } := by
    intro text ht
    rcases hc with hd | rfl
    · rw [settled, hd] at ht ⊢
      exact List.mem_append_left _ ht
    · rw [Option.toList_none, List.append_nil]
      exact ht
  constructor
  · exact h.agree
  · exact h.distinct
  · exact h.count
  · exact h.bytes
  · exact h.each
  · intro m hm
    rcases h.kept m hm with hq | hr | ⟨batch, hb, ht⟩
    · exact .inl hq
    · exact .inr (.inl hr)
    · exact .inr (.inr ⟨batch, hb, hgrown _ ht⟩)
  · intro other hother
    obtain ⟨hcount, hhead, hin⟩ := h.delivering other hother
    refine ⟨?_, hhead, fun hne => List.mem_append_left _ (hin hne)⟩
    rw [List.length_append]
    exact Nat.le_trans hcount (Nat.le_add_right _ _)

/-- **A drain keeps the box sound.** -/
theorem Sound.drain (h : Sound box) (view : DrainView) (shuttingDown : Bool)
    (hfree : ∀ d, box.delivery = some d → d.batch = []) : Sound (box.drain view shuttingDown) := by
  have hrejected := h.reject view.routeError hfree
  unfold Box.drain
  split
  · exact h
  dsimp only
  split
  · exact hrejected
  split
  · exact hrejected.hold true
  split
  · exact hrejected
  rename_i hidle
  split
  · exact hrejected
  rw [Bool.or_eq_true, Bool.or_eq_true, not_or, not_or, Bool.not_eq_true,
    Option.isSome_eq_false_iff, Option.isNone_iff_eq_none] at hidle
  obtain ⟨k, htake, -⟩ := boundedMessageBatch_spec hrejected.each
  refine hrejected.beginTurn hidle.1.1 ?_ fun _ => rfl
  rw [htake]
  exact List.take_prefix _ _

end Box

end OpenCollab
