import OpenCollab.Scheduler.Reading

/-!
# OpenCollab.Scheduler.Recovery

Restoring an inbox from its durable copy and the history, when a run was cut off.

A message that is in the history must not be delivered again.  `Box.Mail` says what a
box knows of the messages that were accepted for it; every step of the team keeps it
(`Post.Mail.step`), user turns and notices included.  The ids of accepted messages
that `messageIdsInHistory` finds are then those of the deliveries in the history
(`Box.Mail.mem_history`):

* `restored_once` — a restore puts back what is neither delivered nor rejected, while
  all messages are legible and no other user turn names one of them;
* `restored_twice` — a message that XML cannot hold is delivered again.
-/

namespace OpenCollab

open PendingUserMessage Xml

/-! ## restoring an inbox -/

/-- `_message_id_from_xml`: the attribute of the root. -/
def messageIdFromXml (et : ElementTree) (xml : String) : Option String :=
  ((et.attribs xml).bind List.head?).bind fun attrib => attrib.lookup "message_id"

/-- `_message_content_from_xml`. -/
def messageContentFromXml (et : ElementTree) (xml : String) : String :=
  match et.itertext xml with
  | none => xml
  | some content =>
      let chars := content.toList
      if chars.head? = some '\n' ∧ chars.getLast? = some '\n' then
        String.ofList (chars.drop 1).dropLast
      else content

/-- The id of a record, from its envelope where it has none. -/
def restoredId (et : ElementTree) (item : PendingUserMessage) : String :=
  if item.message.messageId ≠ "" then item.message.messageId
  else (messageIdFromXml et item.message.xml).getD ""

/-- The message of a record, with the defaults of a restore. -/
def restoredMessage (et : ElementTree) (item : PendingUserMessage) : QueuedTeammateMessage :=
  let message := item.message
  { message with
    messageId := restoredId et item
    summary := if message.summary = "" then "restored teammate message" else message.summary
    content :=
      if message.content = "" then messageContentFromXml et message.xml else message.content }

/-- `_message_ids_in_history`. -/
def messageIdsInHistory (et : ElementTree) (messages : List String) : List String :=
  messages.flatMap (messageIdsInXml et)

/-- One record under `_restore_message_inbox`, by the ids that the history has. -/
def restoreItem (et : ElementTree) (committedIds : List String) (item : PendingUserMessage) :
    Option QueuedTeammateMessage :=
  if item.message.xml = "" then none
  else if !item.isLive then none
  else if restoredId et item ≠ "" ∧ restoredId et item ∈ committedIds then none
  else some (restoredMessage et item)

/-- `_restore_message_inbox`. -/
def restoreMessageInbox (et : ElementTree) (pending : List PendingUserMessage)
    (messages : List String) : List QueuedTeammateMessage :=
  pending.filterMap (restoreItem et (messageIdsInHistory et messages))

/-- What tells messages apart. -/
def QueuedTeammateMessage.key (message : QueuedTeammateMessage) : String × String :=
  (message.messageId, message.xml)

variable {et : ElementTree}

/-- A message with an id keeps it over a restore. -/
theorem restoredId_of_ne {item : PendingUserMessage} (h : item.messageId ≠ "") :
    restoredId et item = item.messageId := if_pos h

/-- A record is restored while it is to be delivered and its id is not in the history. -/
theorem restoreItem_eq {committedIds : List String} {item : PendingUserMessage}
    (hid : item.messageId ≠ "") (hxml : item.message.xml ≠ "") :
    restoreItem et committedIds item =
      if item.isLive = true ∧ item.messageId ∉ committedIds then some (restoredMessage et item)
      else none := by
  rw [restoreItem, if_neg hxml, restoredId_of_ne hid]
  by_cases hlive : item.isLive = true <;> by_cases hin : item.messageId ∈ committedIds <;>
    simp [hlive, hin, hid]

/-- And its key with it. -/
theorem key_restoredMessage {item : PendingUserMessage} (h : item.messageId ≠ "") :
    (restoredMessage et item).key = item.message.key := by
  simp only [QueuedTeammateMessage.key, restoredMessage, restoredId_of_ne h]
  rfl

/-- A restore takes the records that are still to be delivered and not in the history. -/
theorem restore_keys {pending : List PendingUserMessage} (messages : List String)
    (h : ∀ item ∈ pending, item.messageId ≠ "" ∧ item.message.xml ≠ "") :
    (restoreMessageInbox et pending messages).map QueuedTeammateMessage.key =
      ((live pending).filter fun m => m.messageId ∉ messageIdsInHistory et messages).map
        QueuedTeammateMessage.key := by
  induction pending with
  | nil => rfl
  | cons item rest ih =>
      rw [List.forall_mem_cons] at h
      have ih := ih h.2
      have hkey := @key_restoredMessage et _ h.1.1
      unfold restoreMessageInbox at ih ⊢
      rw [List.filterMap_cons, live_cons, restoreItem_eq h.1.1 h.1.2]
      by_cases hlive : item.isLive = true
      · rw [if_pos hlive, List.filter_cons]
        by_cases hin : item.messageId ∈ messageIdsInHistory et messages
        · have hout : ¬ decide (item.message.messageId ∉ messageIdsInHistory et messages) = true := by
            simpa [PendingUserMessage.messageId] using hin
          rw [if_neg fun hl => hl.2 hin, if_neg hout]
          exact ih
        · have hout : decide (item.message.messageId ∉ messageIdsInHistory et messages) = true :=
            decide_eq_true hin
          rw [if_pos ⟨hlive, hin⟩, if_pos hout, List.map_cons, List.map_cons, hkey, ih]
      · rw [if_neg hlive, if_neg fun hl => hlive hl.1]
        exact ih

/-! ## what a box knows of its messages -/

/-- **The mail of a box**: the durable records are those of accepted messages, in order;
accepted messages are envelopes with ids of their own; each has its record or is in the
history. -/
structure Box.Mail (box : Box) : Prop where
  order : (box.pendingUserMessages.map (·.message)).Sublist box.accepted.reverse
  ids : (box.accepted.map QueuedTeammateMessage.messageId).Nodup
  sent : ∀ m ∈ box.accepted, Sent m
  kept : ∀ m ∈ box.accepted, m ∈ box.pendingUserMessages.map (·.message) ∨
    ∃ batch, m ∈ batch ∧ (∀ n ∈ batch, n ∈ box.accepted) ∧ deliveryText batch ∈ box.settled

namespace Box

variable {box box' : Box} {d : Delivery} {message : QueuedTeammateMessage}

/-- A new mailbox holds nothing. -/
theorem mail_new (role : String) : Mail { role } where
  order := List.Sublist.refl _
  ids := List.nodup_nil
  sent _ h := absurd h List.not_mem_nil
  kept _ h := absurd h List.not_mem_nil

/-- Statuses, phases and new turns do not matter. -/
theorem Mail.congr (h : Mail box) (haccepted : box'.accepted = box.accepted)
    (hsettled : box.settled ⊆ box'.settled)
    (hpending : box'.pendingUserMessages.map (·.message) =
      box.pendingUserMessages.map (·.message)) : Mail box' := by
  constructor
  · rw [haccepted, hpending]
    exact h.order
  · rw [haccepted]
    exact h.ids
  · rw [haccepted]
    exact h.sent
  · rw [haccepted, hpending]
    intro m hm
    rcases h.kept m hm with hin | ⟨batch, hmem, hbatch, ht⟩
    · exact .inl hin
    · exact .inr ⟨batch, hmem, hbatch, hsettled ht⟩

/-- A record is that of an accepted message. -/
theorem Mail.accepted (h : Mail box) {m : QueuedTeammateMessage}
    (hm : m ∈ box.pendingUserMessages.map (·.message)) : m ∈ box.accepted :=
  List.mem_reverse.mp (h.order.subset hm)

/-- What is live was accepted. -/
theorem Mail.accepted_live (h : Mail box) {m : QueuedTeammateMessage}
    (hm : m ∈ live box.pendingUserMessages) : m ∈ box.accepted := by
  obtain ⟨item, hi, -, rfl⟩ := mem_live.mp hm
  exact h.accepted (List.mem_map_of_mem hi)

/-- A new message that was sent may come in. -/
theorem Mail.enqueue (h : Mail box) (hsent : Sent message)
    (hnew : message.messageId ∉ box.accepted.map QueuedTeammateMessage.messageId) :
    Mail (box.enqueue message) := by
  have hpending : (box.enqueue message).pendingUserMessages.map (·.message) =
      box.pendingUserMessages.map (·.message) ++ [message] := by
    simp [Box.enqueue]
  constructor
  · rw [hpending]
    show List.Sublist _ (message :: box.accepted).reverse
    rw [List.reverse_cons]
    exact h.order.append (List.Sublist.refl _)
  · exact List.nodup_cons.mpr ⟨hnew, h.ids⟩
  · intro m hm
    rcases List.mem_cons.mp hm with rfl | hm
    · exact hsent
    · exact h.sent m hm
  · intro m hm
    rw [hpending]
    rcases List.mem_cons.mp hm with rfl | hm
    · exact .inl (by simp)
    · rcases h.kept m hm with hin | ⟨batch, hmem, hbatch, ht⟩
      · exact .inl (List.mem_append_left _ hin)
      · exact .inr ⟨batch, hmem, fun n hn => List.mem_cons_of_mem _ (hbatch n hn), ht⟩

/-- A delivery may begin where there is none. -/
theorem Mail.beginTurn (h : Mail box) (hd : box.delivery = none)
    (batch : List QueuedTeammateMessage) (content : Option String) :
    Mail (box.beginTurn batch content) := by
  have hsettled : (box.beginTurn batch content).settled = box.settled := by
    rw [Box.settled, Box.settled, hd]
    exact List.take_left
  exact h.congr rfl (hsettled ▸ List.Subset.refl _) rfl

/-- A drain keeps the mailbox. -/
theorem Mail.drain (h : Mail box) (view : DrainView) (shuttingDown : Bool) :
    Mail (box.drain view shuttingDown) := by
  have hreject : Mail (box.reject view.routeError) :=
    h.congr rfl (List.Subset.refl _) (messages_markAll _ _)
  unfold Box.drain
  split
  · exact h
  dsimp only
  split
  · exact hreject
  split
  · exact hreject.congr rfl (List.Subset.refl _) (messages_hold _ true)
  split
  · exact hreject
  rename_i hidle
  split
  · exact hreject
  rw [Bool.or_eq_true, Bool.or_eq_true, not_or, not_or, Bool.not_eq_true,
    Option.isSome_eq_false_iff, Option.isNone_iff_eq_none] at hidle
  exact hreject.beginTurn hidle.1.1 _ _

/-- Discarding a batch takes out the records with its ids. -/
theorem foldl_discard_eq {pending : List PendingUserMessage} (h : DistinctIds pending)
    {batch : List QueuedTeammateMessage} (hne : ∀ m ∈ batch, m.messageId ≠ "") :
    batch.foldl (fun pending m => pending.eraseP (·.isDiscarded m)) pending =
      pending.filter fun item => item.messageId ∉ batch.map QueuedTeammateMessage.messageId := by
  induction batch generalizing pending with
  | nil => simp
  | cons m batch ih =>
      rw [List.forall_mem_cons] at hne
      rw [List.foldl_cons, discard_eq_filter h hne.1, ih (h.sublist List.filter_sublist) hne.2,
        List.filter_filter]
      refine List.filter_congr fun item _ => ?_
      rw [Bool.eq_iff_iff]
      simp [and_comm]

/-- A committed delivery keeps the mailbox. -/
theorem Mail.commit (h : Mail box) (hs : Sound box) (hd : box.delivery = some d) :
    Mail (box.commit d) := by
  obtain ⟨-, ⟨rest, hrest⟩, hin⟩ := hs.delivering d hd
  have hinbox : ∀ m ∈ d.batch, m ∈ live box.pendingUserMessages := by
    intro m hm
    rw [← hs.agree, ← hrest]
    exact List.mem_append_left _ hm
  have hbatch : ∀ m ∈ d.batch, m ∈ box.accepted := fun m hm => h.accepted_live (hinbox m hm)
  have hpending : (box.commit d).pendingUserMessages =
      box.pendingUserMessages.filter fun item =>
        item.messageId ∉ d.batch.map QueuedTeammateMessage.messageId :=
    foldl_discard_eq hs.distinct fun m hm => hs.distinct.ne_empty (hinbox m hm)
  have hsub : (box.commit d).pendingUserMessages.Sublist box.pendingUserMessages :=
    hpending ▸ List.filter_sublist
  have hsettled : (box.commit d).settled = box.messages := rfl
  constructor
  · exact (hsub.map _).trans h.order
  · exact h.ids
  · exact h.sent
  · intro m hm
    rw [hsettled]
    rcases h.kept m hm with hmem | ⟨batch, hmem, hall, ht⟩
    · obtain ⟨item, hi, rfl⟩ := List.mem_map.mp hmem
      by_cases hid : item.messageId ∈ d.batch.map QueuedTeammateMessage.messageId
      · obtain ⟨n, hn, heq⟩ := List.mem_map.mp hid
        have hsame : n = item.message := List.inj_on_of_nodup_map h.ids (hbatch n hn) hm heq
        exact .inr ⟨d.batch, hsame ▸ hn, hbatch, hin (List.ne_nil_of_mem hn)⟩
      · refine .inl (List.mem_map_of_mem ?_)
        rw [hpending, List.mem_filter]
        exact ⟨hi, decide_eq_true hid⟩
    · rw [Box.settled, hd] at ht
      exact .inr ⟨batch, hmem, hall, List.mem_of_mem_take ht⟩

/-- So does a delivery that is taken back. -/
theorem Mail.rollback (h : Mail box) (hd : box.delivery = some d) : Mail (box.rollback d) := by
  have hsettled : (box.rollback d).settled = box.settled := by
    rw [Box.settled, Box.settled, hd]
    rfl
  exact h.congr rfl (hsettled ▸ List.Subset.refl _) rfl

/-- A turn outside a delivery adds to the history only. -/
theorem Mail.drive (h : Mail box) {content : Option String} (phase : SessionPhase)
    (hc : box.delivery = none ∨ content = none) :
    Mail { box with messages := box.messages ++ content.toList, phase } := by
  refine h.congr rfl (fun text ht => ?_) rfl
  rcases hc with hd | rfl
  · rw [Box.settled, hd] at ht ⊢
    exact List.mem_append_left _ ht
  · rw [Option.toList_none, List.append_nil]
    exact ht

end Box

/-! ## runs -/

namespace Post

variable {topologyForbids : String → String → Bool} {s s' : Post}

/-- Every box has its mail, under ids that were given out. -/
def Mail (s : Post) : Prop := ∀ aid box, s.boxes aid = some box →
  box.Mail ∧ ∀ m ∈ box.accepted, m.messageId ∈ s.issued

/-- One mailbox is replaced by another. -/
theorem Mail.setBox (h : Mail s) {aid : Nat} {box box' : Box} (hbox : s.boxes aid = some box)
    (hmail : box'.Mail) (haccepted : box'.accepted = box.accepted) : Mail (s.setBox aid box') := by
  intro other b hb
  rw [boxes_setBox] at hb
  split at hb
  · obtain rfl := Option.some.inj hb
    exact ⟨hmail, haccepted ▸ (h aid box hbox).2⟩
  · exact h other b hb

/-- A drain keeps all mailboxes. -/
theorem Mail.drainLocked (h : Mail s) (aid : Nat) (view : DrainView) :
    Mail (s.drainLocked aid view) := by
  unfold Post.drainLocked
  cases hbox : s.boxes aid with
  | none => exact h
  | some box =>
      exact h.setBox hbox ((h aid box hbox).1.drain view s.shuttingDown)
        (box.accepted_drain view s.shuttingDown)

/-- An accepted message comes into one mailbox. -/
theorem Mail.accept (h : Mail s) {target : Box} {message : QueuedTeammateMessage}
    {exchanges : Exchanges} (hbox : s.boxes message.toAid = some target)
    (hfresh : s.Fresh message.messageId) (hsent : Sent message) :
    Mail (s.accept target message exchanges) := by
  obtain ⟨hmail, hissued⟩ := h message.toAid target hbox
  have hnew : message.messageId ∉ target.accepted.map QueuedTeammateMessage.messageId := by
    intro hm
    obtain ⟨m, hin, heq⟩ := List.mem_map.mp hm
    exact hfresh.2 (heq ▸ hissued m hin)
  intro other b hb
  change (s.setBox _ _).boxes other = some b at hb
  show b.Mail ∧ ∀ m ∈ b.accepted, m.messageId ∈ message.messageId :: s.issued
  rw [boxes_setBox] at hb
  split at hb
  · obtain rfl := Option.some.inj hb
    refine ⟨hmail.enqueue hsent hnew, fun m hm => ?_⟩
    rcases List.mem_cons.mp hm with rfl | hm
    · exact List.mem_cons_self
    · exact List.mem_cons_of_mem _ (hissued m hm)
  · exact ⟨(h other b hb).1, fun m hm => List.mem_cons_of_mem _ ((h other b hb).2 m hm)⟩

/-- A stop notice is a message in an envelope of its own parts. -/
theorem sent_notice (n : Notifier) (target : Box) (toAid : Nat) {view : NoticeView}
    (h : IsHex view.messageId) : Sent (notice n target toAid view) := by
  unfold notice
  exact ⟨h, by dsimp only⟩

/-- **Every step keeps the mail.** -/
theorem Mail.step (h : Mail s) (hsound : Sound s) (hs : Step topologyForbids s s') : Mail s' := by
  cases hs with
  | seat role hroom =>
      intro other b hb
      change (s.setBox _ _).boxes other = some b at hb
      rw [boxes_setBox] at hb
      split at hb
      · obtain rfl := Option.some.inj hb
        exact ⟨Box.mail_new role, fun m hm => absurd hm List.not_mem_nil⟩
      · exact h other b hb
  | send hfree hfresh hsent =>
      obtain ⟨target, message, hbox, -, rfl, rfl, hkind, -, -, ⟨hxml, -⟩, -, rfl⟩ :=
        sendMessage_ok hsent
      have hmessage : Sent message := ⟨hfresh.1, by rw [hkind]; exact hxml⟩
      exact (h.accept hbox hfresh hmessage).drainLocked _ _
  | drain aid view hfree => exact h.drainLocked aid view
  | appended hbox hd =>
      exact h.setBox hbox ((h _ _ hbox).1.commit (hsound.boxes _ _ hbox) hd) rfl
  | appendFailed hbox hd => exact h.setBox hbox ((h _ _ hbox).1.rollback hd) rfl
  | userTurn content hbox hd => exact h.setBox hbox ((h _ _ hbox).1.beginTurn hd [] content) rfl
  | hold held hbox =>
      exact h.setBox hbox ((h _ _ hbox).1.congr rfl (List.Subset.refl _)
        (Box.messages_hold _ held)) rfl
  | drive content phase hbox hc => exact h.setBox hbox ((h _ _ hbox).1.drive phase hc) rfl
  | shutdown => exact h
  | notify => exact h
  | notifierEnds => exact h
  | @notifyOne s₁ before after n toAid unansweredId rest view goesOn hn hw hfree hfresh hone =>
      have hcases := notifyOne_cases s n toAid unansweredId view
      rw [hone] at hcases
      suffices hkept : Mail s₁ from hkept
      cases hcases with
      | unchanged => exact h
      | dropped hout => exact h
      | queued hout hfailed hturn hbox hroom =>
          exact (h.accept hbox hfresh (sent_notice n _ toAid hfresh.1)).drainLocked _ _

/-- **Every reachable state keeps its mail.** -/
theorem Reachable.mail (h : Reachable topologyForbids s) : Mail s := by
  induction h with
  | refl => exact fun aid box hbox => by cases hbox
  | tail hrun hs ih => exact ih.step (Reachable.sound hrun) hs

end Post

/-! ## the results -/

section Results

variable {topologyForbids : String → String → Bool} {s : Post} {aid : Nat} {box : Box}

/-- The envelope of the message is in the history, alone or in a batch. -/
def Box.Delivered (box : Box) (m : QueuedTeammateMessage) : Prop :=
  ∃ batch, m ∈ batch ∧ (∀ n ∈ batch, n ∈ box.accepted) ∧ deliveryText batch ∈ box.messages

/-- Its durable record says that it was rejected. -/
def Box.Rejected (box : Box) (m : QueuedTeammateMessage) : Prop :=
  ∃ reason, (⟨m, .rejected reason⟩ : PendingUserMessage) ∈ box.pendingUserMessages

/-- A user turn is a delivery, or names no message of the agent. -/
def Box.Foreign (et : ElementTree) (box : Box) (text : String) : Prop :=
  (∃ batch, (∀ n ∈ batch, n ∈ box.accepted) ∧ text = deliveryText batch) ∨
    ∀ m ∈ box.accepted, m.messageId ∉ messageIdsInXml et text

/-- A text with a part that is not empty is not empty. -/
theorem append_ne_empty (a : String) {b : String} (h : b ≠ "") : a ++ b ≠ "" :=
  fun hnil => h (String.append_eq_empty_iff.mp hnil).2

/-- What was sent has an envelope. -/
theorem Sent.xml_ne {message : QueuedTeammateMessage} (h : Sent message) : message.xml ≠ "" := by
  rw [h.xml]
  cases message.kind with
  | teammate => exact append_ne_empty _ (by decide)
  | stopNotice => exact append_ne_empty _ (by decide)

/-- **The ids of accepted messages in a history** are those of its deliveries. -/
theorem Box.Mail.mem_history (h : box.Mail) (hplain : ∀ m ∈ box.accepted, m.Plain)
    (hforeign : ∀ text ∈ box.messages, box.Foreign et text) {m : QueuedTeammateMessage}
    (hm : m ∈ box.accepted) :
    m.messageId ∈ messageIdsInHistory et box.messages ↔ box.Delivered m := by
  have hread : ∀ batch : List QueuedTeammateMessage, (∀ n ∈ batch, n ∈ box.accepted) →
      messageIdsInXml et (deliveryText batch) = batch.map QueuedTeammateMessage.messageId :=
    fun batch hbatch => messageIdsInXml_delivery et fun n hn =>
      ⟨h.sent n (hbatch n hn), hplain n (hbatch n hn)⟩
  rw [messageIdsInHistory, List.mem_flatMap]
  constructor
  · rintro ⟨text, ht, hin⟩
    rcases hforeign text ht with ⟨batch, hbatch, rfl⟩ | hnone
    · rw [hread batch hbatch] at hin
      obtain ⟨n, hn, heq⟩ := List.mem_map.mp hin
      have hsame : n = m := List.inj_on_of_nodup_map h.ids (hbatch n hn) hm heq
      exact ⟨batch, hsame ▸ hn, hbatch, ht⟩
    · exact absurd hin (hnone m hm)
  · rintro ⟨batch, hmem, hbatch, ht⟩
    refine ⟨deliveryText batch, ht, ?_⟩
    rw [hread batch hbatch]
    exact List.mem_map_of_mem hmem

/-- An accepted message is to be restored while it is neither rejected nor delivered. -/
theorem Box.Mail.mem_undelivered (h : box.Mail) (hs : box.Sound)
    (hplain : ∀ m ∈ box.accepted, m.Plain)
    (hforeign : ∀ text ∈ box.messages, box.Foreign et text) {m : QueuedTeammateMessage}
    (hm : m ∈ box.accepted) :
    (m ∈ (live box.pendingUserMessages).filter fun m =>
        m.messageId ∉ messageIdsInHistory et box.messages) ↔
      ¬ box.Rejected m ∧ ¬ box.Delivered m := by
  have hhistory := h.mem_history hplain hforeign hm
  rw [List.mem_filter, decide_eq_true_eq, hhistory]
  refine and_congr_left fun hundelivered => ?_
  constructor
  · rintro hlive ⟨reason, hrejected⟩
    obtain ⟨item, hi, hitem, rfl⟩ := mem_live.mp hlive
    have hsame := List.inj_on_of_nodup_map hs.distinct.nodup hi hrejected rfl
    rw [hsame] at hitem
    contradiction
  · intro hrejected
    rcases h.kept m hm with hin | ⟨batch, hmem, hbatch, ht⟩
    · obtain ⟨item, hi, rfl⟩ := List.mem_map.mp hin
      refine mem_live.mpr ⟨item, hi, ?_, rfl⟩
      obtain ⟨message, status⟩ := item
      cases status with
      | pending => rfl
      | heldAfterCancel => rfl
      | rejected reason => exact absurd ⟨reason, hi⟩ hrejected
    · refine absurd ⟨batch, hmem, hbatch, ?_⟩ hundelivered
      unfold Box.settled at ht
      split at ht
      · exact ht
      · exact List.mem_of_mem_take ht

/-- **No message is delivered twice across a restore, and none is lost**, if all that
was written to the agent is legible and no other user turn names a message of it.  At
every point of a run, a restore puts back the accepted messages that are neither
rejected nor in the history, in the order in which they were accepted; and every
message that `send_message` accepted for the agent is one of the accepted messages. -/
theorem restored_once (et : ElementTree) (h : s.Reachable topologyForbids)
    (hbox : s.boxes aid = some box) (hplain : ∀ m ∈ box.accepted, m.Plain)
    (hforeign : ∀ text ∈ box.messages, box.Foreign et text) :
    (∃ undelivered : List QueuedTeammateMessage,
      (restoreMessageInbox et box.pendingUserMessages box.messages).map
        QueuedTeammateMessage.key = undelivered.map QueuedTeammateMessage.key ∧
      undelivered.Sublist box.accepted.reverse ∧
      ∀ m ∈ box.accepted, m ∈ undelivered ↔ ¬ box.Rejected m ∧ ¬ box.Delivered m) ∧
    ∀ (s₀ s₁ : Post) (fromAid : Nat) (summary content messageId sentAt : String)
        (view : DrainView), s₀.Reachable topologyForbids → s₀.Free aid → s₀.Fresh messageId →
      s₀.sendMessage topologyForbids fromAid aid summary content messageId sentAt view =
        .ok s₁ →
      Relation.ReflTransGen (Post.Step topologyForbids) s₁ s →
      ∃ m ∈ box.accepted, m.messageId = messageId ∧
        m.xml = formatTeammateMessage fromAid summary content messageId := by
  have hs := h.sound.boxes aid box hbox
  have hmail := (h.mail aid box hbox).1
  refine ⟨⟨_, restore_keys box.messages fun item hi => ?_, ?_, fun m hm =>
    hmail.mem_undelivered hs hplain hforeign hm⟩, ?_⟩
  · exact ⟨hs.distinct.nonempty item hi,
      (hmail.sent _ (hmail.accepted (List.mem_map_of_mem hi))).xml_ne⟩
  · have hlive : (live box.pendingUserMessages).Sublist box.accepted.reverse :=
      (List.filter_sublist.map _).trans hmail.order
    exact List.filter_sublist.trans hlive
  · intro s₀ s₁ fromAid summary content messageId sentAt view h₀ hfree hfresh hsent hrun
    obtain ⟨box', m, hbox', hm, -, hid, -, hxml⟩ :=
      Post.accepted_of_sent h₀ hfree hfresh hsent hrun
    rw [hbox] at hbox'
    rw [← Option.some.inj hbox'] at hm
    exact ⟨m, hm, hid, hxml⟩

end Results

/-! ## a delivery that is cut off -/

/-! ## a delivery that is cut off -/

namespace Post

/-- The second agent has a turn of its user. -/
def sampleTurn : Post :=
  sampleSeats.setBox 1 { role := "worker", messages := ["a < b, c & d"], phase := .idle }

/-- A message to an idle agent: its delivery is being appended. -/
def sampleDelivery (s : Post) (content : String) : Except String Post :=
  s.sendMessage (fun _ _ => false) 0 1 "status" content sampleId "now"
    ⟨fun _ => none, false, false, true⟩

theorem sampleTurn_reachable : sampleTurn.Reachable fun _ _ => false :=
  sampleSeats_reachable.tail
    (@Step.drive _ _ _ { role := "worker" } (some "a < b, c & d") .idle rfl (.inl rfl))

theorem sampleTurn_free : sampleTurn.Free 1 := by
  intro box hb d hd
  cases hb
  cases hd

theorem sampleTurn_fresh : sampleTurn.Fresh sampleId := sampleSeats_fresh

theorem sampleDelivery_accepted : (sampleDelivery sampleTurn "a < b").toOption.isSome = true := by
  decide +kernel

def sampleDelivered : Post := (sampleDelivery sampleTurn "a < b").toOption.get sampleDelivery_accepted

/-- The delivery is in, and the next message finds the agent busy. -/
def sampleNext : Except String Post :=
  match sampleDelivered.boxes 1 with
  | none => .error ""
  | some box =>
      match box.delivery with
      | none => .error ""
      | some d =>
          (sampleDelivered.setBox 1 (box.commit d)).sendMessage (fun _ _ => false) 0 1 "status"
            "c > d" "fedcba9876543210fedcba9876543210" "now" ⟨fun _ => none, false, true, true⟩

theorem sampleNext_accepted : sampleNext.toOption.isSome = true := by decide +kernel

def sampleWaiting : Post := sampleNext.toOption.get sampleNext_accepted

/-- A new id is new whatever the mailboxes hold. -/
theorem Fresh.setBox {s : Post} {messageId : String} (h : s.Fresh messageId) (aid : Nat)
    (box : Box) : (s.setBox aid box).Fresh messageId := h

theorem sampleNext_reachable {s : Post} (h : sampleNext = .ok s) :
    s.Reachable fun _ _ => false := by
  have hdelivered : sampleDelivered.Reachable fun _ _ => false :=
    sampleTurn_reachable.tail
      (.send sampleTurn_free sampleTurn_fresh (eq_ok_get sampleDelivery_accepted))
  have hfresh : sampleDelivered.Fresh "fedcba9876543210fedcba9876543210" :=
    ⟨⟨by decide, by decide +kernel⟩, by decide +kernel⟩
  unfold sampleNext at h
  split at h
  · cases h
  rename_i box hbox
  split at h
  · cases h
  rename_i d hd
  refine (hdelivered.tail (.appended hbox hd)).tail
    (.send (fun b hb d' hd' => ?_) (hfresh.setBox 1 (box.commit d)) h)
  rw [boxes_setBox, if_pos rfl] at hb
  rw [← Option.some.inj hb] at hd'
  cases hd'

theorem sampleWaiting_reachable : sampleWaiting.Reachable fun _ _ => false :=
  sampleNext_reachable (eq_ok_get sampleNext_accepted)

/-- A character that XML does not have. -/
def illegible : String := "\x01"

theorem illegibleDelivery_accepted : (sampleDelivery sampleSeats illegible).toOption.isSome = true := by
  decide +kernel

def illegibleDelivered : Post :=
  (sampleDelivery sampleSeats illegible).toOption.get illegibleDelivery_accepted

end Post

/-- What was delivered stays in the history, what waits is restored. -/
theorem restored_once_sample : ∃ box, Post.sampleWaiting.boxes 1 = some box ∧
    (restoreMessageInbox (reader fun _ => none) box.pendingUserMessages box.messages).map
      QueuedTeammateMessage.messageId = ["fedcba9876543210fedcba9876543210"] ∧
    ∃ undelivered : List QueuedTeammateMessage,
      (restoreMessageInbox (reader fun _ => none) box.pendingUserMessages box.messages).map
        QueuedTeammateMessage.key = undelivered.map QueuedTeammateMessage.key ∧
      ∀ m ∈ box.accepted, m ∈ undelivered ↔ ¬ box.Rejected m ∧ ¬ box.Delivered m := by
  have hfacts : (Post.sampleWaiting.boxes 1).map (fun box =>
      ((restoreMessageInbox (reader fun _ => none) box.pendingUserMessages box.messages).map
          QueuedTeammateMessage.messageId,
        box.accepted.all fun m => m.Plain,
        decide (box.messages =
          "a < b, c & d" :: (box.accepted.drop 1).map fun m => deliveryText [m]))) =
      some (["fedcba9876543210fedcba9876543210"], true, true) := by decide +kernel
  obtain ⟨box, hbox, hfacts⟩ := Option.map_eq_some_iff.mp hfacts
  rw [Prod.mk.injEq, Prod.mk.injEq, List.all_eq_true, decide_eq_true_eq] at hfacts
  obtain ⟨hrestored, hplain, hmessages⟩ := hfacts
  have hturn : messageIdsInXml (reader fun _ => none) "a < b, c & d" = [] := by decide +kernel
  have hforeign : ∀ text ∈ box.messages, box.Foreign (reader fun _ => none) text := by
    rw [hmessages]
    intro text ht
    rcases List.mem_cons.mp ht with rfl | ht
    · refine .inr fun m _ => ?_
      rw [hturn]
      exact List.not_mem_nil
    · obtain ⟨m, hm, rfl⟩ := List.mem_map.mp ht
      refine .inl ⟨[m], fun n hn => ?_, rfl⟩
      rw [List.mem_singleton.mp hn]
      exact List.mem_of_mem_drop hm
  obtain ⟨⟨undelivered, hkeys, -, hmem⟩, -⟩ :=
    restored_once (reader fun _ => none) Post.sampleWaiting_reachable hbox
      (fun m hm => of_decide_eq_true (hplain m hm)) hforeign
  exact ⟨box, hbox, hrestored, undelivered, hkeys, hmem⟩

/-- A message with a character that XML does not have is in the history, and is
restored all the same, whatever parser reads it. -/
theorem restored_twice : Post.illegibleDelivered.Reachable (fun _ _ => false) ∧
    ∃ box message, Post.illegibleDelivered.boxes 1 = some box ∧ box.accepted = [message] ∧
      box.messages = [message.xml] ∧
      ∀ et : ElementTree, (restoreMessageInbox et box.pendingUserMessages box.messages).map
        QueuedTeammateMessage.messageId = [message.messageId] := by
  have hreached : Post.illegibleDelivered.Reachable fun _ _ => false :=
    Post.sampleSeats_reachable.tail (.send Post.sampleSeats_free Post.sampleSeats_fresh
      (Post.eq_ok_get Post.illegibleDelivery_accepted))
  have hfacts : (Post.illegibleDelivered.boxes 1).map (fun box =>
      (box.accepted.length,
        decide (box.messages = box.accepted.map QueuedTeammateMessage.xml),
        decide (box.pendingUserMessages = box.accepted.map fun m => ⟨m, .pending⟩),
        box.accepted.all fun m => m.messageId ≠ "" ∧ m.xml ≠ "" ∧ ¬ Legible m.xml)) =
      some (1, true, true, true) := by decide +kernel
  obtain ⟨box, hbox, hfacts⟩ := Option.map_eq_some_iff.mp hfacts
  rw [Prod.mk.injEq, Prod.mk.injEq, Prod.mk.injEq, decide_eq_true_eq, decide_eq_true_eq,
    List.all_eq_true] at hfacts
  obtain ⟨hone, hmessages, hpending, hfacts⟩ := hfacts
  obtain ⟨message, haccepted⟩ := List.length_eq_one_iff.mp hone
  rw [haccepted] at hmessages hpending hfacts
  refine ⟨hreached, box, message, hbox, haccepted, hmessages, fun et => ?_⟩
  obtain ⟨hid, hxml, hlegible⟩ := of_decide_eq_true (hfacts message (List.mem_singleton.mpr rfl))
  have hnone : messageIdsInHistory et box.messages = [] := by
    rw [hmessages, messageIdsInHistory, List.map_singleton, List.flatMap_singleton,
      messageIdsInXml_illegible et hlegible]
  have hitem : restoreItem et [] ⟨message, .pending⟩ =
      some (restoredMessage et ⟨message, .pending⟩) := by
    have hcases := @restoreItem_eq et [] ⟨message, .pending⟩ hid hxml
    rwa [if_pos ⟨rfl, List.not_mem_nil⟩] at hcases
  rw [restoreMessageInbox, hpending, List.map_singleton, hnone, List.filterMap_cons_some hitem]
  exact congrArg (fun id => [id]) (restoredId_of_ne hid)

end OpenCollab
